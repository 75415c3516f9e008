import Csockets.Runs
import Csockets.UsersCall

/-!
What a call of `user_table_update` changes: whom it kicks and what it tells the callback, what
becomes of the other entries, and that the place of the sender's entry makes no difference but
in one field.
-/

namespace Csockets.UsersFrame

open Blocks Chain Runs NetModel UsersModel UsersList UsersRefine UsersCall

variable {σ : Type}

/-- What a call does besides its work on the table. -/
inductive Act
  | time (now : ℤ)
  | timeoutFunc (user : UserData)
  deriving DecidableEq

def callback : Act → Option UserData
  | .time _ => none
  | .timeoutFunc u => some u

def recorded (W : World σ) : World (σ × List Act) where
  time io := ((W.time io.1).1, (W.time io.1).2, io.2 ++ [.time (W.time io.1).1])
  malloc io := ((W.malloc io.1).1, (W.malloc io.1).2, io.2)

def recording (f : UserData → σ → σ) (u : UserData) (io : σ × List Act) : σ × List Act :=
  (f u io.1, io.2 ++ [.timeoutFunc u])

/-- A user is kicked when the clock reading just made finds it stale. -/
def Checked (timeout : ℤ) (past : List Act) : Act → Prop
  | .timeoutFunc u => ∃ now, past.getLast? = some (.time now) ∧ u.lastMsg + timeout < now
  | .time _ => True

lemma Checked.behind {timeout : ℤ} {pre : List Act} (l : List Act) (a : Act)
    (h : Checked timeout l a) : Checked timeout (pre ++ l) a := by
  cases a with
  | time now => trivial
  | timeoutFunc u =>
    obtain ⟨now, hl, hstale⟩ := h
    exact ⟨now, by rw [List.getLast?_append, hl, Option.some_or], hstale⟩

/-! ### Frame -/

/-- A sweep over `L` that kicks `gone` and leaves `L'`. -/
structure Swept (timeout : ℤ) (L L' gone : List Entry) (acts : List Act) : Prop where
  order : gone.Sublist L
  rest : L' = L.filter (· ∉ gone)
  calls : acts.filterMap callback = gone.map Prod.snd
  checked : Always (Checked timeout) [] acts

lemma sweep_swept {W : World σ} {f : UserData → σ → σ} {timeout : ℤ} {L L' : List Entry}
    {io io' : σ × List Act} (hnd : L.Nodup)
    (h : sweep (recorded W) (returning (recording f)) timeout L io = some (L', io')) :
    ∃ acts, io'.2 = io.2 ++ acts ∧
      Swept timeout L L' (kicked (recorded W) (returning (recording f)) timeout L io) acts := by
  induction L generalizing L' io with
  | nil =>
    cases h
    exact ⟨[], by simp, List.Sublist.slnil, rfl, rfl, trivial⟩
  | cons e l ih =>
    obtain ⟨hel, hnd⟩ := List.nodup_cons.mp hnd
    rcases sweep_cons_iff.mp h with ⟨hstale, io₁, hf, hl⟩ | ⟨hfresh, l', rfl, hl⟩
    · cases hf
      obtain ⟨acts, hacts, hS⟩ := ih hnd hl
      simp only [kicked, if_pos hstale, returning, Option.map_some, Option.getD_some]
      refine ⟨.time (W.time io.1).1 :: .timeoutFunc e.2 :: acts, ?_, hS.order.cons_cons e, ?_, ?_,
        trivial, ⟨_, rfl, hstale⟩, always_behind Checked.behind hS.checked⟩
      · rw [hacts]
        simp [recorded, recording]
      · rw [hS.rest, List.filter_cons_of_neg (by simp)]
        refine List.filter_congr fun x hx => ?_
        have hxe : x ≠ e := fun he => hel (he ▸ hx)
        simp [hxe]
      · rw [List.map_cons, ← hS.calls]
        rfl
    · obtain ⟨acts, hacts, hS⟩ := ih hnd hl
      simp only [kicked, if_neg hfresh]
      have hkept : e ∉ kicked (recorded W) (returning (recording f)) timeout l
          ((recorded W).time io).2 := fun he => hel (hS.order.subset he)
      refine ⟨.time (W.time io.1).1 :: acts, ?_, hS.order.cons e, ?_, ?_, trivial,
        always_behind Checked.behind hS.checked⟩
      · rw [hacts]
        simp [recorded]
      · rw [List.filter_cons_of_pos (by simpa using hkept), ← hS.rest]
      · rw [List.filterMap_cons_none rfl, hS.calls]

/-- What may become of an entry that is not kicked. -/
structure Touched (u : UserData) (e e' : Entry) : Prop where
  node : e'.1 = e.1
  other : same u e.2 = false → e' = e
  fields : e'.2 = { e.2 with
    lastMsg := e'.2.lastMsg, lastMsgXs := e'.2.lastMsgXs, recvFd := e'.2.recvFd, id := e'.2.id }

lemma Touched.refl (u : UserData) (e : Entry) : Touched u e e := ⟨rfl, fun _ => rfl, rfl⟩

lemma touched_self (u : UserData) (L : List Entry) : List.Forall₂ (Touched u) L L :=
  List.forall₂_same.mpr fun e _ => Touched.refl u e

lemma touched_refresh (b : Bool) {u : UserData} {e : Entry} (h : same u e.2 = true) :
    Touched u e (e.1, refresh b u e.2) where
  node := rfl
  other hno := by
    rw [h] at hno
    cases hno
  fields := rfl

/-- A call that turns the entries `L` into `L'` and kicks `gone`. -/
structure Frame (u : UserData) (timeout : ℤ) (L L' gone : List Entry) (acts : List Act) : Prop where
  order : gone.Sublist L
  others : ∀ e ∈ gone, same u e.2 = false
  calls : acts.filterMap callback = gone.map Prod.snd
  checked : Always (Checked timeout) [] acts
  rest : ∃ kept added, L' = kept ++ added ∧
    List.Forall₂ (Touched u) (L.filter (· ∉ gone)) kept ∧
    (added = [] ∨ (∀ e ∈ L, same u e.2 = false) ∧ ∃ a, added = [(a, u)])

lemma Swept.filter_append {timeout : ℤ} {L L' gone R : List Entry} {acts : List Act}
    (h : Swept timeout L L' gone acts) (hnd : (L ++ R).Nodup) :
    (L ++ R).filter (· ∉ gone) = L' ++ R := by
  have hR : R.filter (· ∉ gone) = R := by
    refine List.filter_eq_self.mpr fun e he => ?_
    have hdis := (List.nodup_append.mp hnd).2.2
    have hgone : e ∉ gone := fun hg => hdis e (h.order.subset hg) e he rfl
    simpa using hgone
  rw [List.filter_append, hR, h.rest]

lemma Swept.frame {timeout : ℤ} {u : UserData} {L A gone R kept added : List Entry}
    {acts : List Act} (h : Swept timeout L A gone acts) (hL : ∀ e ∈ L, same u e.2 = false)
    (hnd : (L ++ R).Nodup) (hkept : List.Forall₂ (Touched u) R kept)
    (hadded : added = [] ∨ (∀ e ∈ L ++ R, same u e.2 = false) ∧ ∃ a, added = [(a, u)]) :
    Frame u timeout (L ++ R) (A ++ kept ++ added) gone acts where
  order := h.order.trans (List.sublist_append_left L R)
  others e he := hL e (h.order.subset he)
  calls := h.calls
  checked := h.checked
  rest := by
    refine ⟨A ++ kept, added, rfl, ?_, hadded⟩
    rw [h.filter_append hnd]
    exact List.rel_append (touched_self u A) hkept

lemma update_framed {W : World σ} {f : UserData → σ → σ} {timeout : ℤ} {u : UserData} {fresh : ℕ}
    {L L' : List Entry} {io io' : σ × List Act} {r : ℤ} (hnd : L.Nodup)
    (h : update (recorded W) (returning (recording f)) timeout u fresh L io = some (r, L', io')) :
    ∃ acts, io'.2 = io.2 ++ acts ∧ Frame u timeout L L'
      (evicted (recorded W) (returning (recording f)) timeout u L io) acts := by
  unfold evicted
  rcases update_cases h with ⟨e, X, A, hL, hs, hr⟩ | ⟨A, io₁, hL, hs, rfl, hr⟩
  · have hsplit : before u L ++ e :: X = L := by rw [← hL, before_append_onward]
    rw [hL]
    rw [← hsplit] at hnd
    obtain ⟨acts, hacts, hS⟩ := sweep_swept (List.nodup_append.mp hnd).1 hs
    refine ⟨acts, hacts, ?_⟩
    have hframe : ∀ e', Touched u e e' → Frame u timeout (before u L ++ e :: X)
        (A ++ (e' :: X) ++ []) (kicked (recorded W) (returning (recording f)) timeout
          (before u L) io) acts := fun e' he =>
      hS.frame (fun x hx => before_same hx) hnd
        (List.Forall₂.cons he (touched_self u X)) (Or.inl rfl)
    rw [hsplit] at hframe
    rcases hr with ⟨-, -, rfl⟩ | ⟨-, -, rfl⟩
    · have := hframe e (Touched.refl u e)
      rwa [List.append_nil] at this
    · have := hframe _ (touched_refresh X.isEmpty (onward_same hL))
      rwa [List.append_nil] at this
  · have hnew := onward_eq_nil_iff.mp hL
    have hsplit := dropLast_append_last L
    rw [hL]
    rw [← hsplit] at hnd
    obtain ⟨acts, hacts, hS⟩ := sweep_swept (List.nodup_append.mp hnd).1 hs
    refine ⟨acts, hacts, ?_⟩
    have hframe : ∀ added, (added = [] ∨ (∀ e ∈ L, same u e.2 = false) ∧ ∃ a, added = [(a, u)]) →
        Frame u timeout (L.dropLast ++ L.getLast?.toList) (A ++ L.getLast?.toList ++ added)
          (kicked (recorded W) (returning (recording f)) timeout L.dropLast io) acts :=
      fun added hadded => hS.frame (fun x hx => hnew x (List.mem_of_mem_dropLast hx)) hnd
        (touched_self u _) (by rw [hsplit]; exact hadded)
    rw [hsplit] at hframe
    rcases hr with ⟨-, -, rfl⟩ | ⟨-, -, rfl⟩
    · have := hframe [] (Or.inl rfl)
      rwa [List.append_nil] at this
    · exact hframe _ (Or.inr ⟨hnew, fresh, rfl⟩)

/-- **The frame of a call**: whatever the clock reads and the allocator finds, the entries that
go are stale ones of others, each freed after one call of the callback with its fields as they
were; of the others the sender's may change in four fields; and the sender is added at the end
if it has no entry. -/
theorem update_frame (W : World σ) (f : UserData → σ → σ) (u : UserData)
    (T : Table (σ × List Act)) :
    ∃ (r : ℤ) (T' : Table (σ × List Act)) (gone : List Entry) (acts : List Act),
      callUpdate (recorded W) (recording f) u T = some (r, T'.store) ∧
      T'.store.io.2 = T.store.io.2 ++ acts ∧
      T'.store.heap.freed = T.store.heap.freed ++ gone.map Prod.fst ∧
      Frame u T.timeout T.entries T'.entries gone acts := by
  obtain ⟨r, T', hup, hs', -, hfreed⟩ := callUpdate_spec (recorded W) (recording f) u T
  obtain ⟨acts, hacts, hframe⟩ := update_framed T.rep.nodup.of_map hup
  exact ⟨r, T', _, acts, hs', hacts, hfreed, hframe⟩

/-! ### The place of the sender's entry -/

/-- The same entry in a node of another name. -/
def renamed (ρ : ℕ → ℕ) (e : Entry) : Entry := (ρ e.1, e.2)

section Renaming

variable {W : World σ} {timeoutFunc : UserData → σ → Option σ} {timeout : ℤ} (ρ : ℕ → ℕ)

lemma sweep_renamed {L L' : List Entry} {io io' : σ}
    (h : sweep W timeoutFunc timeout L io = some (L', io')) :
    sweep W timeoutFunc timeout (L.map (renamed ρ)) io = some (L'.map (renamed ρ), io') := by
  induction L generalizing L' io with
  | nil =>
    cases h
    rfl
  | cons e l ih =>
    rw [List.map_cons]
    rcases sweep_cons_iff.mp h with ⟨hstale, io₁, hf, hl⟩ | ⟨hfresh, l', rfl, hl⟩
    · exact sweep_cons_iff.mpr (Or.inl ⟨hstale, io₁, hf, ih hl⟩)
    · exact sweep_cons_iff.mpr (Or.inr ⟨hfresh, _, rfl, ih hl⟩)

lemma kicked_renamed (L : List Entry) (io : σ) :
    kicked W timeoutFunc timeout (L.map (renamed ρ)) io =
      (kicked W timeoutFunc timeout L io).map (renamed ρ) := by
  induction L generalizing io with
  | nil => rfl
  | cons e l ih =>
    rw [List.map_cons, kicked, kicked]
    by_cases hstale : e.2.lastMsg + timeout < (W.time io).1
    · have hstale' : (renamed ρ e).2.lastMsg + timeout < (W.time io).1 := hstale
      rw [if_pos hstale, if_pos hstale', List.map_cons]
      cases hf : timeoutFunc e.2 (W.time io).2 with
      | none => simp [renamed, hf]
      | some io₁ => simp [renamed, hf, ih]
    · have hstale' : ¬ (renamed ρ e).2.lastMsg + timeout < (W.time io).1 := hstale
      rw [if_neg hstale, if_neg hstale', ih]

end Renaming

section Found

variable {W : World σ} {timeoutFunc : UserData → σ → Option σ} {timeout : ℤ} {u : UserData}
  {L X : List Entry} {e : Entry}

lemma onward_found (hL : ∀ x ∈ L, same u x.2 = false) (he : same u e.2 = true) :
    onward u (L ++ e :: X) = e :: X := by
  rw [onward, List.dropWhile_append_of_pos (by simpa using hL), List.dropWhile_cons_of_neg]
  simp [he]

lemma before_found (hL : ∀ x ∈ L, same u x.2 = false) (he : same u e.2 = true) :
    before u (L ++ e :: X) = L := by
  rw [before, List.takeWhile_append_of_pos (by simpa using hL), List.takeWhile_cons_of_neg]
  · simp
  · simp [he]

/-- What becomes of the sender's entry, when it is the last one and when it is not. -/
def outcome (atEnd : Bool) (u : UserData) (e : Entry) : Entry :=
  if spam u e.2 then e else (e.1, refresh atEnd u e.2)

lemma update_found_eq (fresh : ℕ) (hL : ∀ x ∈ L, same u x.2 = false) (he : same u e.2 = true)
    {A : List Entry} {io io' : σ} (hs : sweep W timeoutFunc timeout L io = some (A, io')) :
    update W timeoutFunc timeout u fresh (L ++ e :: X) io =
        some (if spam u e.2 then 1 else 0, A ++ outcome X.isEmpty u e :: X, io') ∧
      evicted W timeoutFunc timeout u (L ++ e :: X) io = kicked W timeoutFunc timeout L io := by
  constructor
  · unfold update outcome
    rw [onward_found hL he, before_found hL he]
    dsimp only
    rw [hs, Option.bind_eq_bind, Option.bind_some]
    dsimp only
    split
    · rfl
    · rfl
  · unfold evicted
    rw [onward_found hL he, before_found hL he]

lemma outcome_eq_iff {b : Bool} :
    (outcome true u e).2 = (outcome b u e).2 ↔ b = true ∨ spam u e.2 = true := by
  unfold outcome
  cases hsp : spam u e.2 with
  | true => simp
  | false =>
    have hne : ¬ e.2.lastMsg = u.lastMsg := fun he => by simp [spam, he] at hsp
    cases b with
    | true => simp
    | false => simp [refresh, hne]

lemma outcome_renamed (ρ : ℕ → ℕ) (b : Bool) :
    outcome b u (renamed ρ e) = renamed ρ (outcome b u e) := by
  unfold outcome
  have hsp : spam u (renamed ρ e).2 = spam u e.2 := rfl
  rw [hsp]
  split
  · rfl
  · rfl

end Found

/-- Two tables with the same entries up to the names of the nodes, in one of which more entries
follow: the sender's entry is the last one of the first table. -/
structure Extends (u : UserData) (ρ : ℕ → ℕ) (L : List Entry) (e : Entry) (X : List Entry)
    (T₁ T₂ : Table (σ × List Act)) : Prop where
  first : T₁.entries = L ++ [e]
  second : T₂.entries = L.map (renamed ρ) ++ renamed ρ e :: X
  timeout : T₂.timeout = T₁.timeout
  io : T₂.store.io = T₁.store.io
  others : ∀ x ∈ L, same u x.2 = false
  sender : same u e.2 = true

/-- A call does the same on both tables: the results, the clock readings and callbacks, the nodes
freed and the entries that are left. -/
def Agree (W : World σ) (f : UserData → σ → σ) (u : UserData) (ρ : ℕ → ℕ) (X : List Entry)
    (T₁ T₂ : Table (σ × List Act)) : Prop :=
  ∃ (r : ℤ) (T₁' T₂' : Table (σ × List Act)),
    callUpdate (recorded W) (recording f) u T₁ = some (r, T₁'.store) ∧
    callUpdate (recorded W) (recording f) u T₂ = some (r, T₂'.store) ∧
    T₂'.store.io = T₁'.store.io ∧
    (∃ gone, T₁'.store.heap.freed = T₁.store.heap.freed ++ gone ∧
      T₂'.store.heap.freed = T₂.store.heap.freed ++ gone.map ρ) ∧
    ∃ A e', T₁'.entries = A ++ [e'] ∧ T₂'.entries = A.map (renamed ρ) ++ renamed ρ e' :: X

lemma entries_unique {T T' : Table σ} (h : T.store = T'.store) : T.entries = T'.entries :=
  T.rep.unique (h ▸ T'.rep)

lemma callUpdate_extends (W : World σ) (f : UserData → σ → σ) {u : UserData} {ρ : ℕ → ℕ}
    {L : List Entry} {e : Entry} {X : List Entry} {T₁ T₂ : Table (σ × List Act)}
    (h : Extends u ρ L e X T₁ T₂) :
    ∃ (r : ℤ) (T₁' T₂' : Table (σ × List Act)) (A : List Entry),
      callUpdate (recorded W) (recording f) u T₁ = some (r, T₁'.store) ∧
      callUpdate (recorded W) (recording f) u T₂ = some (r, T₂'.store) ∧
      T₂'.store.io = T₁'.store.io ∧
      (∃ gone, T₁'.store.heap.freed = T₁.store.heap.freed ++ gone ∧
        T₂'.store.heap.freed = T₂.store.heap.freed ++ gone.map ρ) ∧
      T₁'.entries = A ++ [outcome true u e] ∧
      T₂'.entries = A.map (renamed ρ) ++ renamed ρ (outcome X.isEmpty u e) :: X := by
  obtain ⟨r₁, T₁', hup₁, hs₁, -, hfr₁⟩ := callUpdate_spec (recorded W) (recording f) u T₁
  obtain ⟨r₂, T₂', hup₂, hs₂, -, hfr₂⟩ := callUpdate_spec (recorded W) (recording f) u T₂
  have hret : ∀ u io, (returning (recording f) u io).isSome := fun _ _ => rfl
  obtain ⟨A, io', hsweep⟩ := sweep_total (recorded W) T₁.timeout hret L T₁.store.io
  have hothers : ∀ x ∈ L.map (renamed ρ), same u x.2 = false := by
    intro x hx
    obtain ⟨y, hy, rfl⟩ := List.mem_map.mp hx
    exact h.others y hy
  have hsender : same u (renamed ρ e).2 = true := h.sender
  -- both sweeps go over the same entries
  obtain ⟨heq₁, hgone₁⟩ := update_found_eq (X := []) T₁.store.heap.next h.others h.sender hsweep
  obtain ⟨heq₂, hgone₂⟩ := update_found_eq (X := X) T₂.store.heap.next hothers hsender
    (sweep_renamed ρ hsweep)
  rw [h.first, heq₁, Option.some.injEq, Prod.mk.injEq, Prod.mk.injEq] at hup₁
  rw [h.timeout, h.io, h.second, heq₂, Option.some.injEq, Prod.mk.injEq, Prod.mk.injEq] at hup₂
  rw [h.first, hgone₁] at hfr₁
  rw [h.timeout, h.io, h.second, hgone₂, kicked_renamed, List.map_map] at hfr₂
  obtain ⟨hr₁, hent₁, hio₁⟩ := hup₁
  obtain ⟨hr₂, hent₂, hio₂⟩ := hup₂
  have hr : r₂ = r₁ := hr₂.symm.trans hr₁
  rw [hr] at hs₂
  refine ⟨r₁, T₁', T₂', A, hs₁, hs₂, hio₂.symm.trans hio₁, ⟨_, hfr₁, ?_⟩, hent₁.symm, ?_⟩
  · rw [hfr₂, List.map_map]
    rfl
  · rw [← hent₂, outcome_renamed]

lemma agree_iff (W : World σ) (f : UserData → σ → σ) {u : UserData} {ρ : ℕ → ℕ} {L : List Entry}
    {e : Entry} {X : List Entry} {T₁ T₂ : Table (σ × List Act)} (h : Extends u ρ L e X T₁ T₂) :
    Agree W f u ρ X T₁ T₂ ↔ (outcome true u e).2 = (outcome X.isEmpty u e).2 := by
  obtain ⟨r, T₁', T₂', A, hs₁, hs₂, hio, hfreed, hent₁, hent₂⟩ := callUpdate_extends W f h
  constructor
  · rintro ⟨r', S₁, S₂, hS₁, hS₂, -, -, B, e', hB₁, hB₂⟩
    rw [hs₁, Option.some.injEq, Prod.mk.injEq] at hS₁
    rw [hs₂, Option.some.injEq, Prod.mk.injEq] at hS₂
    rw [entries_unique hS₁.2, hB₁] at hent₁
    rw [entries_unique hS₂.2, hB₂] at hent₂
    obtain ⟨rfl, he⟩ := List.append_inj' hent₁ rfl
    have he' := (List.cons.inj (List.append_cancel_left hent₂)).1
    rw [← List.singleton_inj.mp he]
    exact show (renamed ρ e').2 = (renamed ρ _).2 from congrArg Prod.snd he'
  · intro he
    have hnode : (outcome true u e).1 = (outcome X.isEmpty u e).1 := by
      unfold outcome
      split
      · rfl
      · rfl
    exact ⟨r, T₁', T₂', hs₁, hs₂, hio, hfreed, A, _, hent₁, by rw [hent₂, Prod.ext hnode he]⟩

/-- **When the place makes no difference**: a call does the same with the sender's entry at the
end of the table and with more entries behind it exactly when there are none or the message is
rejected. -/
theorem update_place_iff (W : World σ) (f : UserData → σ → σ) {u : UserData} {ρ : ℕ → ℕ}
    {L : List Entry} {e : Entry} {X : List Entry} {T₁ T₂ : Table (σ × List Act)}
    (h : Extends u ρ L e X T₁ T₂) : Agree W f u ρ X T₁ T₂ ↔ X = [] ∨ spam u e.2 = true := by
  rw [agree_iff W f h, outcome_eq_iff, List.isEmpty_iff]

/-- Two tables, with and without an entry behind the sender's; of the two in front of it the first
is stale. -/
lemma exists_extends : ∃ (a b c d : ℕ) (T₁ T₂ : Table (Unit × List Act)), T₁.timeout = 70 ∧
    Extends (userAt 1 100) id [(a, userAt 3 0), (b, userAt 4 60)] (c, userAt 1 50)
      [(d, userAt 2 50)] T₁ T₂ := by
  obtain ⟨T₁, hT₁, htime₁, -⟩ :=
    exists_users 70 ((), ([] : List Act)) [userAt 3 0, userAt 4 60, userAt 1 50]
  obtain ⟨⟨a, _⟩, _, hl, rfl, h₁⟩ := List.map_eq_cons_iff.mp hT₁
  obtain ⟨⟨b, _⟩, _, rfl, rfl, h₂⟩ := List.map_eq_cons_iff.mp h₁
  obtain ⟨⟨c, _⟩, rfl, rfl⟩ := List.map_eq_singleton_iff.mp h₂
  obtain ⟨d, T₂, hT₂, htime₂, hio₂⟩ := exists_append T₁ (userAt 2 50)
  refine ⟨a, b, c, d, T₁, T₂, htime₁, hl, ?_, htime₂, hio₂, ?_, ?_⟩
  · rw [hT₂, hl]
    rfl
  · have h₃ : same (userAt 1 100) (userAt 3 0) = false := by decide +kernel
    have h₄ : same (userAt 1 100) (userAt 4 60) = false := by decide +kernel
    exact List.forall_mem_cons.mpr ⟨h₃, List.forall_mem_singleton.mpr h₄⟩
  · have hsender : same (userAt 1 100) (userAt 1 50) = true := by decide +kernel
    exact hsender

theorem update_place_last :
    ∃ (a b c d : ℕ) (T₁ T₂ : Table (Unit × List Act)), T₁.timeout = 70 ∧
      Extends (userAt 1 100) id [(a, userAt 3 0), (b, userAt 4 60)] (c, userAt 1 50)
        [(d, userAt 2 50)] T₁ T₂ ∧
      (Agree ⟨fun _ => (100, ()), fun _ => (true, ())⟩ (fun _ io => io) (userAt 1 100) id
          [(d, userAt 2 50)] T₁ T₂ ↔
        [(d, userAt 2 50)] = [] ∨ spam (userAt 1 100) (userAt 1 50) = true) := by
  obtain ⟨a, b, c, d, T₁, T₂, htime, h⟩ := exists_extends
  exact ⟨a, b, c, d, T₁, T₂, htime, h, update_place_iff _ _ h⟩

/-- At the end of the table an accepted message does not set the time. -/
theorem not_agree_last :
    ¬ ∀ (W : World Unit) (f : UserData → Unit → Unit) (u : UserData) (ρ : ℕ → ℕ) (L : List Entry)
      (e : Entry) (X : List Entry) (T₁ T₂ : Table (Unit × List Act)),
      Extends u ρ L e X T₁ T₂ → Agree W f u ρ X T₁ T₂ := by
  intro h
  obtain ⟨a, b, c, d, T₁, T₂, -, hext⟩ := exists_extends
  have hagree := h ⟨fun _ => (100, ()), fun _ => (true, ())⟩ (fun _ io => io) _ id _ _ _ T₁ T₂ hext
  have hno : spam (userAt 1 100) (userAt 1 50) = false := by decide
  rcases outcome_eq_iff.mp ((agree_iff _ _ hext).mp hagree) with hempty | hsp
  · cases hempty
  · exact absurd (hsp.symm.trans hno) (by decide)

end Csockets.UsersFrame
