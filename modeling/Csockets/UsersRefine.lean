import Csockets.UsersList

/-!
The functions on the heap do what the list of entries says: the memory stays one chain, no
access faults, no loop runs out of fuel.
-/

namespace Csockets.UsersRefine

open Blocks Chain NetModel UsersModel UsersList

variable {σ : Type}

/-- The heap is the chain of the entries `L`, from the table's start to its end. -/
abbrev Rep (s : Store σ) (L : List Entry) : Prop := Holds s.heap s.table.start s.table.end_ L

lemma Rep.prev {s : Store σ} {l l₂ : List Entry} {p a b : ℕ} {u v w : UserData}
    (h : Rep s ((l ++ [(p, u)]) ++ (a, v) :: (b, w) :: l₂)) :
    s.heap.cell p = some ⟨u, some a, lst none l⟩ ∧ p ≠ a ∧ p ≠ b := by
  rw [List.append_assoc] at h
  have hnd := h.nodup
  simp only [List.map_append, List.map_cons, List.map_nil, List.nodup_append] at hnd
  obtain ⟨-, ⟨-, -, hne⟩, -⟩ := hnd
  exact ⟨h.node, hne p (by simp) a (by simp), hne p (by simp) b (by simp)⟩

lemma Rep.next {s : Store σ} {l₁ l₂ : List Entry} {a b : ℕ} {v w : UserData}
    (h : Rep s (l₁ ++ (a, v) :: (b, w) :: l₂)) :
    s.heap.cell a = some ⟨v, some b, lst none l₁⟩ ∧
      s.heap.cell b = some ⟨w, hd none l₂, some a⟩ ∧ a ≠ b := by
  have h' : Rep s ((l₁ ++ [(a, v)]) ++ (b, w) :: l₂) := by simpa using h
  refine ⟨h.node, by simpa [lst_append] using h'.node, ?_⟩
  rintro rfl
  have := h.nodup
  simp [List.nodup_append] at this

lemma removeTmp_first {s : Store σ} {l₂ : List Entry} {a b : ℕ} {v w : UserData}
    (h : Rep s ((a, v) :: (b, w) :: l₂)) :
    ∃ s', removeTmp (some a) s = some s' ∧ Rep s' ((b, w) :: l₂) ∧ s'.io = s.io ∧
      s'.table.timeout = s.table.timeout ∧ s'.heap.next = s.heap.next ∧
      s'.heap.freed = s.heap.freed ++ [a] := by
  have h' : Rep s ([] ++ (a, v) :: (b, w) :: l₂) := h
  obtain ⟨ha, hb, hab⟩ := h'.next
  rw [lst_nil] at ha
  obtain ⟨m₁, h₁, hc₁, hn₁, hf₁⟩ := Mem.modify_live hb fun n => { n with prev := none }
  have ha₁ : m₁.cell a = some ⟨v, some b, none⟩ := by simp [hc₁, hab, ha]
  obtain ⟨m₂, h₂, hc₂, hn₂, hf₂⟩ := Mem.store_live ha₁ default
  have ha₂ : m₂.cell a = some default := by simp [hc₂]
  obtain ⟨m₃, h₃, hc₃, hn₃, hf₃⟩ := Mem.free_live ha₂
  refine ⟨⟨m₃, { s.table with start := some b }, s.io⟩, ?_, ?_, rfl, rfl, ?_, ?_⟩
  · simp [removeTmp, ha, h₁, ha₁, h₂, h₃]
  · refine Holds.unlink h' ?_ ?_ ?_ ?_
    · simp [hc₃]
    · simp [hc₃, hc₂, hc₁, hab.symm]
    · simp
    · intro x hxa hxb _
      simp [hc₃, hc₂, hc₁, hxa, hxb]
  · rw [hn₃, hn₂, hn₁]
  · rw [hf₃, hf₂, hf₁]

lemma removeTmp_mid {s : Store σ} {l l₂ : List Entry} {p a b : ℕ} {u v w : UserData}
    (h : Rep s ((l ++ [(p, u)]) ++ (a, v) :: (b, w) :: l₂)) :
    ∃ s', removeTmp (some a) s = some s' ∧ Rep s' ((l ++ [(p, u)]) ++ (b, w) :: l₂) ∧
      s'.io = s.io ∧ s'.table.timeout = s.table.timeout ∧ s'.heap.next = s.heap.next ∧
      s'.heap.freed = s.heap.freed ++ [a] := by
  obtain ⟨ha, hb, hab⟩ := h.next
  obtain ⟨hp, hpa, hpb⟩ := h.prev
  have hlst : lst none (l ++ [(p, u)]) = some p := by simp [lst_append]
  rw [hlst] at ha
  obtain ⟨m₁, h₁, hc₁, hn₁, hf₁⟩ := Mem.modify_live hp fun n => { n with next := some b }
  have ha₁ : m₁.cell a = some ⟨v, some b, some p⟩ := by simp [hc₁, hpa.symm, ha]
  have hb₁ : m₁.cell b = some ⟨w, hd none l₂, some a⟩ := by simp [hc₁, hpb.symm, hb]
  obtain ⟨m₂, h₂, hc₂, hn₂, hf₂⟩ := Mem.modify_live hb₁ fun n => { n with prev := some p }
  have ha₂ : m₂.cell a = some ⟨v, some b, some p⟩ := by simp [hc₂, hab, ha₁]
  obtain ⟨m₃, h₃, hc₃, hn₃, hf₃⟩ := Mem.store_live ha₂ default
  have ha₃ : m₃.cell a = some default := by simp [hc₃]
  obtain ⟨m₄, h₄, hc₄, hn₄, hf₄⟩ := Mem.free_live ha₃
  have hstart : s.table.start = hd none ((l ++ [(p, u)]) ++ (b, w) :: l₂) := by
    rw [h.start]
    simp [hd_append]
  refine ⟨⟨m₄, s.table, s.io⟩, ?_, ?_, rfl, rfl, ?_, ?_⟩
  · simp [removeTmp, ha, h₁, ha₁, h₂, h₃, h₄]
  · show Holds m₄ s.table.start s.table.end_ _
    rw [hstart]
    refine Holds.unlink h ?_ ?_ ?_ ?_
    · simp [hc₄]
    · rw [hlst]
      simp [hc₄, hc₃, hc₂, hab.symm]
    · intro q n hq hn
      rw [hlst, Option.some.injEq] at hq
      subst hq
      rw [hp, Option.some.injEq] at hn
      subst hn
      simp [hc₄, hc₃, hc₂, hc₁, hpa, hpb]
    · intro x hxa hxb hxp
      have hxp' : x ≠ p := fun e => hxp (by rw [hlst, e])
      simp [hc₄, hc₃, hc₂, hc₁, hxa, hxb, hxp']
  · rw [hn₄, hn₃, hn₂, hn₁]
  · rw [hf₄, hf₃, hf₂, hf₁]

/-- The links of `tmp` are passed over and it is freed; nothing else happens. In the loop
`tmp` always has a node behind it. -/
lemma removeTmp_spec {s : Store σ} {l₁ l₂ : List Entry} {a : ℕ} {v : UserData} {b : Entry}
    (h : Rep s (l₁ ++ (a, v) :: b :: l₂)) :
    ∃ s', removeTmp (some a) s = some s' ∧ Rep s' (l₁ ++ b :: l₂) ∧ s'.io = s.io ∧
      s'.table.timeout = s.table.timeout ∧ s'.heap.next = s.heap.next ∧
      s'.heap.freed = s.heap.freed ++ [a] := by
  rcases hp : lst none l₁ with _ | p
  · obtain rfl := lst_eq_none hp
    exact removeTmp_first h
  · obtain ⟨l, u, rfl⟩ := lst_eq_some hp
    exact removeTmp_mid h

lemma Rep.modify_val {s : Store σ} {l₁ l₂ : List Entry} {a : ℕ} {v : UserData}
    (h : Rep s (l₁ ++ (a, v) :: l₂)) (g : UserData → UserData) :
    ∃ m, s.heap.modify (some a) (fun n => { n with val := g n.val }) = some m ∧
      Rep { s with heap := m } (l₁ ++ (a, g v) :: l₂) ∧ m.freed = s.heap.freed := by
  obtain ⟨m, hm, hc, -, hf⟩ := Mem.modify_live h.node fun n => { n with val := g n.val }
  exact ⟨m, hm, Holds.setVal h hc, hf⟩

/-- Both ways to handle the sender's entry, with the one field in which they differ. -/
def found (atEnd : Bool) (p : Ptr) (user : User) (s : Store σ) : Option (ℤ × Store σ) := do
  let n ← s.heap.load p
  if spam user.val n.val then some (1, s)
  else do
    let heap ← s.heap.modify p fun n => { n with val := refresh atEnd user.val n.val }
    some (0, { s with heap := heap })

lemma ite_spam {α : Type*} (user v : UserData) (x y : α) :
    (if v.lastMsg = user.lastMsg then x else if v.lastMsgXs = user.lastMsgXs then x else y) =
      if spam user v then x else y := by
  by_cases h₁ : v.lastMsg = user.lastMsg
  · simp [spam, h₁]
  · by_cases h₂ : v.lastMsgXs = user.lastMsgXs
    · simp [spam, h₂]
    · simp [spam, h₁, h₂]

lemma foundInLoop_eq (p : Ptr) (user : User) (s : Store σ) :
    foundInLoop p user s = found false p user s := by
  unfold foundInLoop found
  refine congrArg (Option.bind _) (funext fun n => ?_)
  rw [ite_spam]
  rfl

lemma foundAtEnd_eq (p : Ptr) (user : User) (s : Store σ) :
    foundAtEnd p user s = found true p user s := by
  unfold foundAtEnd found
  refine congrArg (Option.bind _) (funext fun n => ?_)
  rw [ite_spam]
  rfl

lemma found_spec {s : Store σ} {l₁ l₂ : List Entry} {a : ℕ} {v : UserData} (atEnd : Bool)
    (user : User) (h : Rep s (l₁ ++ (a, v) :: l₂)) :
    (spam user.val v = true → found atEnd (some a) user s = some (1, s)) ∧
      (spam user.val v = false → ∃ m, found atEnd (some a) user s = some (0, { s with heap := m }) ∧
        Rep { s with heap := m } (l₁ ++ (a, refresh atEnd user.val v) :: l₂) ∧
        m.freed = s.heap.freed) := by
  have ha : s.heap.cell a = _ := h.node
  unfold found
  rw [Mem.load_some, ha]
  constructor
  · intro hsp
    exact if_pos hsp
  · intro hsp
    obtain ⟨m, hm, hrep, hf⟩ := h.modify_val (refresh atEnd user.val)
    refine ⟨m, ?_, hrep, hf⟩
    simp only [Option.bind_eq_bind, Option.bind_some, hsp, Bool.false_eq_true, if_false]
    exact congrArg (Option.bind · _) hm

lemma addUser_spec (W : World σ) (u : UserData) {s : Store σ} {L : List Entry} (h : Rep s L) :
    ((W.malloc s.io).1 = false →
      addUser W ⟨u, none, none⟩ s = some (1, { s with io := (W.malloc s.io).2 })) ∧
    ((W.malloc s.io).1 = true → ∃ s', addUser W ⟨u, none, none⟩ s = some (0, s') ∧
      Rep s' (L ++ [(s.heap.next, u)]) ∧ s'.io = (W.malloc s.io).2 ∧
      s'.table.timeout = s.table.timeout ∧ s'.heap.freed = s.heap.freed) := by
  refine ⟨fun hok => by simp [addUser, hok], fun hok => ?_⟩
  have hdead : s.heap.cell s.heap.next = none := s.heap.fresh _ le_rfl
  have h₀ : (s.heap.alloc default).2.cell s.heap.next = some default := by simp
  obtain ⟨m₁, h₁, hc₁, -, hf₁⟩ := Mem.store_live h₀ (⟨u, none, none⟩ : User)
  rw [Mem.alloc_cell, Function.update_idem] at hc₁
  rcases hfin : s.table.end_ with _ | p
  · -- the table is empty
    obtain rfl : L = [] := lst_eq_none (h.fin.symm.trans hfin)
    have hst : s.table.start = none := h.start
    refine ⟨⟨m₁, { s.table with start := some s.heap.next, end_ := some s.heap.next },
      (W.malloc s.io).2⟩, ?_, ?_, rfl, rfl, hf₁⟩
    · simp [addUser, hok, h₁, hst]
    · refine Holds.snoc h hdead ?_ ?_ ?_
      · simp [hc₁, hfin]
      · simp [hfin]
      · intro x hx _
        simp [hc₁, hx]
  · obtain ⟨l, w, rfl⟩ := lst_eq_some (h.fin.symm.trans hfin)
    have hp : s.heap.cell p = some ⟨w, none, lst none l⟩ := h.node
    have hpn : p ≠ s.heap.next := (Mem.lt_next hp).ne
    have hst : s.table.start ≠ none := by
      rw [h.start]
      cases l <;> simp
    have hp₁ : m₁.cell p = some ⟨w, none, lst none l⟩ := by simp [hc₁, hpn, hp]
    obtain ⟨m₂, h₂, hc₂, -, hf₂⟩ := Mem.modify_live hp₁ fun n => { n with next := some s.heap.next }
    have ht₂ : m₂.cell s.heap.next = some ⟨u, none, none⟩ := by simp [hc₂, hpn.symm, hc₁]
    obtain ⟨m₃, h₃, hc₃, -, hf₃⟩ := Mem.modify_live ht₂ fun t => { t with prev := some p }
    refine ⟨⟨m₃, { s.table with end_ := some s.heap.next }, (W.malloc s.io).2⟩, ?_, ?_, rfl, rfl,
      ?_⟩
    · simp [addUser, hok, h₁, hst, hfin, h₂, h₃]
    · have hstart : s.table.start = hd none ((l ++ [(p, w)]) ++ [(s.heap.next, u)]) := by
        rw [h.start]
        simp [hd_append]
      show Holds m₃ s.table.start _ _
      rw [hstart]
      refine Holds.snoc h hdead ?_ ?_ ?_
      · simp [hc₃, hfin]
      · intro q n hq hn
        rw [hfin, Option.some.injEq] at hq
        subst hq
        rw [hp, Option.some.injEq] at hn
        subst hn
        simp [hc₃, hc₂, hpn]
      · intro x hx hxp
        have hxp' : x ≠ p := fun e => hxp (by rw [hfin, e])
        simp [hc₃, hc₂, hc₁, hx, hxp']
    · rw [hf₃, hf₂, hf₁]
      rfl

section Walk

variable {W : World σ} {timeoutFunc : UserData → σ → Option σ}

lemma walk_turn (W : World σ) (timeoutFunc : UserData → σ → Option σ) {user : User}
    {done R : List Entry} {a : ℕ} {v : UserData} {c : Entry} {s : Store σ}
    (hne : same user.val v = false) (h : Rep s (done ++ (a, v) :: c :: R)) (fuel : ℕ) :
    walk W user timeoutFunc (fuel + 1) (some a) s =
      if v.lastMsg + s.table.timeout < (W.time s.io).1 then do
        let io ← timeoutFunc v (W.time s.io).2
        let s ← removeTmp (some a) { s with io := io }
        walk W user timeoutFunc fuel (some c.1) s
      else walk W user timeoutFunc fuel (some c.1) { s with io := (W.time s.io).2 } := by
  have ha : s.heap.cell a = some ⟨v, some c.1, lst none done⟩ := h.node
  have hne : ¬ sockaddrCmp v.addr user.val.addr v.addrLen = 0 := by simpa [same] using hne
  simp [walk, ha, hne]

lemma walk_sweep (user : User) (done : List Entry) {A A' : List Entry} {b : Entry} {R : List Entry}
    {s : Store σ} {io' : σ}
    (hA : ∀ e ∈ A, same user.val e.2 = false) (h : Rep s (done ++ (A ++ b :: R)))
    (hs : sweep W timeoutFunc s.table.timeout A s.io = some (A', io')) :
    ∃ s', Rep s' (done ++ (A' ++ b :: R)) ∧ s'.io = io' ∧
      s'.table.timeout = s.table.timeout ∧ s'.heap.next = s.heap.next ∧
      s'.heap.freed = s.heap.freed ++
        (kicked W timeoutFunc s.table.timeout A s.io).map Prod.fst ∧
      ∀ fuel, walk W user timeoutFunc (fuel + A.length) (hd none (A ++ b :: R)) s =
        walk W user timeoutFunc fuel (some b.1) s' := by
  induction A generalizing done s A' with
  | nil =>
    cases hs
    exact ⟨s, h, rfl, rfl, rfl, by simp [kicked], fun _ => rfl⟩
  | cons e A ih =>
    obtain ⟨a, v⟩ := e
    obtain ⟨⟨c, x⟩, l, hl⟩ : ∃ c l, A ++ b :: R = c :: l := by
      cases A with
      | nil => exact ⟨b, R, rfl⟩
      | cons c A => exact ⟨c, A ++ b :: R, rfl⟩
    have hhd : hd none (A ++ b :: R) = some c := by rw [hl]; rfl
    have hcons : Rep s (done ++ (a, v) :: (c, x) :: l) := by
      rw [← hl]
      exact h
    have hturn := walk_turn W timeoutFunc (hA (a, v) (by simp)) hcons
    have hA' : ∀ e ∈ A, same user.val e.2 = false := fun e he => hA e (by simp [he])
    rcases sweep_cons_iff.mp hs with ⟨hstale, io₁, hf, hl'⟩ | ⟨hfresh, l', rfl, hl'⟩
    · have h₁ : Rep { s with io := io₁ } (done ++ (a, v) :: (c, x) :: l) := hcons
      obtain ⟨s₁, hr, hrep, hio, hto, hnx, hfr⟩ := removeTmp_spec h₁
      rw [← hl] at hrep
      obtain ⟨s', hrep', hio', hto', hnx', hfr', hw⟩ :=
        ih done hA' hrep (by rw [hio, hto]; exact hl')
      refine ⟨s', hrep', hio', hto'.trans hto, hnx'.trans hnx, ?_, fun fuel => ?_⟩
      · rw [hfr', hfr, hio, hto]
        simp [kicked, hstale, hf]
      rw [← hw fuel, List.length_cons, ← Nat.add_assoc, List.cons_append, hd_cons, hturn,
        if_pos hstale, hf, hhd]
      simp [hr]
    · obtain ⟨s', hrep', hio', hto', hnx', hfr', hw⟩ :=
        ih (done ++ [(a, v)]) (s := { s with io := (W.time s.io).2 }) hA' (by simpa using h) hl'
      refine ⟨s', by simpa using hrep', hio', hto', hnx', ?_, fun fuel => ?_⟩
      · rw [hfr']
        simp [kicked, hfresh]
      rw [← hw fuel, List.length_cons, ← Nat.add_assoc, List.cons_append, hd_cons, hturn,
        if_neg hfresh, hhd]

/-- The walk reaches the sender's entry `e` and handles it where it stands. -/
lemma update_found {u : UserData} {s : Store σ} {L A : List Entry} {io' : σ} {e : Entry}
    {X : List Entry} (h : Rep s L) (hL : onward u L = e :: X)
    (hs : sweep W timeoutFunc s.table.timeout (before u L) s.io = some (A, io')) :
    ∃ s', Rep s' (A ++ e :: X) ∧ s'.io = io' ∧ s'.table.timeout = s.table.timeout ∧
      s'.heap.freed = s.heap.freed ++
        (evicted W timeoutFunc s.table.timeout u L s.io).map Prod.fst ∧
      userTableUpdate W timeoutFunc ⟨u, none, none⟩ s =
        found X.isEmpty (some e.1) ⟨u, none, none⟩ s' := by
  have hsplit : L = before u L ++ e :: X := by rw [← hL, before_append_onward]
  have hlen := h.length_le
  rw [hsplit, List.length_append, List.length_cons] at hlen
  obtain ⟨s', hrep, hio, hto, -, hfr, hw⟩ :=
    walk_sweep ⟨u, none, none⟩ [] (fun e he => before_same he)
      (by rw [List.nil_append, ← hsplit]; exact h) hs
  rw [List.nil_append] at hrep
  refine ⟨s', hrep, hio, hto, by rw [hfr, evicted, hL], ?_⟩
  obtain ⟨k, hk⟩ : ∃ k, s.heap.next + 1 = (k + 1) + (before u L).length :=
    ⟨s.heap.next - (before u L).length, by omega⟩
  have hstart : s.table.start = hd none (before u L ++ e :: X) := by rw [← hsplit, h.start]
  have he : s'.heap.cell e.1 = some ⟨e.2, hd none X, lst none A⟩ := hrep.node
  have hsame : sockaddrCmp e.2.addr u.addr e.2.addrLen = 0 := by
    simpa [same] using onward_same hL
  rw [userTableUpdate, hk, hstart, hw]
  cases X with
  | nil => simp [walk, he, hsame, foundAtEnd_eq]
  | cons c Y =>
    simp only [walk, Mem.load_some, he, hd_cons, hsame, Option.bind_eq_bind, Option.bind_some,
      if_true]
    rw [foundInLoop_eq, List.isEmpty_cons]
    rcases found false (some e.1) ⟨u, none, none⟩ s' with _ | ⟨r, s₁⟩
    · rfl
    · rfl

/-- The walk meets no entry of the sender and ends at the last one. -/
lemma update_absent {u : UserData} {s : Store σ} {L A : List Entry} {io' : σ} (h : Rep s L)
    (hL : onward u L = [])
    (hs : sweep W timeoutFunc s.table.timeout L.dropLast s.io = some (A, io')) :
    ∃ s', Rep s' (A ++ L.getLast?.toList) ∧ s'.io = io' ∧
      s'.table.timeout = s.table.timeout ∧ s'.heap.next = s.heap.next ∧
      s'.heap.freed = s.heap.freed ++
        (evicted W timeoutFunc s.table.timeout u L s.io).map Prod.fst ∧
      userTableUpdate W timeoutFunc ⟨u, none, none⟩ s = addUser W ⟨u, none, none⟩ s' := by
  have hne := onward_eq_nil_iff.mp hL
  have hlen := h.length_le
  have hstart := h.start
  cases L using List.reverseRecOn with
  | nil =>
    cases hs
    refine ⟨s, h, rfl, rfl, rfl, by simp [evicted, hL, kicked], ?_⟩
    simp [userTableUpdate, hstart, walk]
  | append_singleton B z =>
    rw [List.dropLast_concat] at hs
    rw [List.length_append, List.length_singleton] at hlen
    obtain ⟨s', hrep, hio, hto, hnx, hfr, hw⟩ :=
      walk_sweep ⟨u, none, none⟩ [] (b := z) (R := []) (fun e he => hne e (by simp [he])) h hs
    rw [List.nil_append] at hrep
    refine ⟨s', by simpa using hrep, hio, hto, hnx, ?_, ?_⟩
    · rw [hfr, evicted, hL, List.dropLast_concat]
    obtain ⟨k, hk⟩ : ∃ k, s.heap.next + 1 = (k + 1) + B.length :=
      ⟨s.heap.next - B.length, by omega⟩
    have hz : s'.heap.cell z.1 = some ⟨z.2, none, lst none A⟩ := hrep.node
    have hsame : ¬ sockaddrCmp z.2.addr u.addr z.2.addrLen = 0 := by
      simpa [same] using hne z (by simp)
    rw [userTableUpdate, hk, hstart, hw]
    simp [walk, hz, hsame]

/-- **The walk over nodes is the update of the list.** -/
theorem userTableUpdate_spec {u : UserData} {s : Store σ} {L L' : List Entry} {r : ℤ} {io' : σ}
    (h : Rep s L)
    (hup : update W timeoutFunc s.table.timeout u s.heap.next L s.io = some (r, L', io')) :
    ∃ s', userTableUpdate W timeoutFunc ⟨u, none, none⟩ s = some (r, s') ∧ Rep s' L' ∧
      s'.io = io' ∧ s'.table.timeout = s.table.timeout ∧
      s'.heap.freed = s.heap.freed ++
        (evicted W timeoutFunc s.table.timeout u L s.io).map Prod.fst := by
  rcases update_cases hup with ⟨e, X, A, hL, hs, hcase⟩ | ⟨A, io₁, hL, hs, rfl, hcase⟩
  · obtain ⟨s₁, hrep, hio, hto, hfr, heq⟩ := update_found h hL hs
    rw [heq]
    obtain ⟨hreject, haccept⟩ := found_spec X.isEmpty ⟨u, none, none⟩ hrep
    rcases hcase with ⟨hsp, rfl, rfl⟩ | ⟨hsp, rfl, rfl⟩
    · exact ⟨s₁, hreject hsp, hrep, hio, hto, hfr⟩
    · obtain ⟨m, hm, hrep', hf⟩ := haccept hsp
      exact ⟨_, hm, hrep', hio, hto, hf.trans hfr⟩
  · obtain ⟨s₁, hrep, rfl, hto, hnx, hfr, heq⟩ := update_absent h hL hs
    rw [heq]
    obtain ⟨hfail, hok⟩ := addUser_spec W u hrep
    rcases hcase with ⟨hm, rfl, rfl⟩ | ⟨hm, rfl, rfl⟩
    · exact ⟨_, hfail hm, hrep, rfl, hto, hfr⟩
    · obtain ⟨s', h', hrep', hio', hto', hf⟩ := hok hm
      rw [hnx] at hrep'
      exact ⟨s', h', hrep', hio', hto'.trans hto, hf.trans hfr⟩

end Walk

/-! ### The other two loops -/

lemma everyFrom_spec (everyFunc : UserData → σ → Option σ) (done : List Entry)
    {rest : List Entry} {s : Store σ} (h : Rep s (done ++ rest)) {fuel : ℕ}
    (hfuel : rest.length < fuel) :
    everyFrom everyFunc fuel (hd none rest) s =
      (rest.foldlM (fun io e => everyFunc e.2 io) s.io).map fun io => { s with io := io } := by
  induction rest generalizing done s fuel with
  | nil =>
    obtain ⟨k, rfl⟩ : ∃ k, fuel = k + 1 := ⟨fuel - 1, by simp at hfuel; omega⟩
    rfl
  | cons e rest ih =>
    obtain ⟨k, rfl⟩ : ∃ k, fuel = k + 1 := ⟨fuel - 1, by simp at hfuel; omega⟩
    have he : s.heap.cell e.1 = some ⟨e.2, hd none rest, lst none done⟩ := h.node
    rw [hd_cons, everyFrom, List.foldlM_cons]
    simp only [Mem.load_some, he, Option.bind_eq_bind, Option.bind_some]
    cases hf : everyFunc e.2 s.io with
    | none => rfl
    | some io =>
      rw [Option.bind_some, Option.bind_some]
      exact ih (done ++ [e]) (s := { s with io := io }) (by simpa using h)
        (by simp at hfuel; omega)

theorem userTableEvery_spec (everyFunc : UserData → σ → Option σ) {s : Store σ} {L : List Entry}
    (h : Rep s L) :
    userTableEvery everyFunc s =
      (L.foldlM (fun io e => everyFunc e.2 io) s.io).map fun io => { s with io := io } := by
  rw [userTableEvery, h.start]
  exact everyFrom_spec everyFunc [] h (Nat.lt_succ_of_le h.length_le)

lemma freeFrom_spec (fuel : ℕ) {L : List Entry} {m : Mem User} {back : Ptr}
    (hseg : Seg m.cell back L none) (hnd : (L.map Prod.fst).Nodup) (hne : L ≠ [])
    (hfuel : L.length ≤ fuel) :
    ∃ m', freeFrom fuel (hd none L) m = some m' ∧
      (∀ x, m'.cell x = if x ∈ L.map Prod.fst then none else m.cell x) ∧
      m'.next = m.next ∧ m'.freed = m.freed ++ L.map Prod.fst := by
  induction L generalizing m back fuel with
  | nil => exact absurd rfl hne
  | cons e L ih =>
    obtain ⟨a, v⟩ := e
    obtain ⟨k, rfl⟩ : ∃ k, fuel = k + 1 := ⟨fuel - 1, by simp at hfuel; omega⟩
    obtain ⟨ha, hL⟩ := hseg
    rw [List.map_cons, List.nodup_cons] at hnd
    obtain ⟨m₁, h₁, hc₁, hn₁, hf₁⟩ := Mem.store_live ha default
    have ha₁ : m₁.cell a = some default := by simp [hc₁]
    obtain ⟨m₂, h₂, hc₂, hn₂, hf₂⟩ := Mem.free_live ha₁
    have hc : ∀ x, m₂.cell x = if x = a then none else m.cell x := by
      intro x
      by_cases hx : x = a
      · simp [hc₂, hx]
      · simp [hc₂, hc₁, hx]
    cases L with
    | nil =>
      refine ⟨m₂, ?_, fun x => ?_, by rw [hn₂, hn₁], by rw [hf₂, hf₁]; rfl⟩
      · simp [freeFrom, ha, h₁, h₂]
      · simp [hc]
    | cons b L =>
      have hseg₂ : Seg m₂.cell (some a) (b :: L) none :=
        seg_congr hL fun x hx => by
          rw [hc, if_neg]
          rintro rfl
          exact hnd.1 hx
      obtain ⟨m', h', hc', hn', hf'⟩ := ih k hseg₂ hnd.2 (by simp) (by simpa using hfuel)
      refine ⟨m', ?_, fun x => ?_, by rw [hn', hn₂, hn₁], by rw [hf', hf₂, hf₁]; simp⟩
      · rw [hd_cons] at h' ⊢
        simp [freeFrom, ha, h₁, h₂, h']
      · rw [hc', hc]
        by_cases hx : x = a
        · simp [hx]
        · have hmem : x ∈ ((a, v) :: b :: L).map Prod.fst ↔ x ∈ (b :: L).map Prod.fst := by
            simp [hx]
          rw [if_neg hx]
          simp only [hmem]

/-- On a table with entries `user_table_free` frees every node, each once. -/
theorem userTableFree_spec {s : Store σ} {L : List Entry} (h : Rep s L) (hne : L ≠ []) :
    ∃ s', userTableFree s = some s' ∧ s'.table = default ∧ (∀ x, s'.heap.cell x = none) ∧
      s'.heap.next = s.heap.next ∧ s'.heap.freed = s.heap.freed ++ L.map Prod.fst := by
  obtain ⟨m', hm, hc, hn, hf⟩ := freeFrom_spec (s.heap.next + 1) h.seg h.nodup hne
    (Nat.le_succ_of_le h.length_le)
  refine ⟨⟨m', default, s.io⟩, ?_, rfl, fun x => ?_, hn, hf⟩
  · rw [userTableFree, h.start, hm]
    rfl
  · by_cases hx : x ∈ L.map Prod.fst
    · rw [hc, if_pos hx]
    · rw [hc, if_neg hx]
      by_contra hcon
      exact hx (h.live x (Option.isSome_iff_ne_none.mpr hcon))

/-- On an empty table `user_table_free` reads through the null pointer. -/
theorem userTableFree_empty {s : Store σ} (h : Rep s []) : userTableFree s = none := by
  rw [userTableFree, h.start]
  rfl

end Csockets.UsersRefine
