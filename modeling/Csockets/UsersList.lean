import Csockets.UsersModel

/-!
What `user_table_update` does to the list of entries.

Every entry in front of the sender's is checked and kicked when it is stale; a sender without
an entry has everything but the last one checked. Then the sender's entry is refreshed, or the
sender is appended. Entries carry the address of their node.
-/

namespace Csockets.UsersList

open NetModel UsersModel

abbrev Entry := ℕ × UserData

/-- The match test on a stored entry. -/
def same (u e : UserData) : Bool := sockaddrCmp e.addr u.addr e.addrLen = 0

/-- Two messages in one second, or in one window of two. -/
def spam (u e : UserData) : Bool := e.lastMsg = u.lastMsg ∨ e.lastMsgXs = u.lastMsgXs

/-- What an accepted message writes to its sender's entry; the last entry of the table keeps
its old `lastMsg`. -/
def refresh (atEnd : Bool) (u e : UserData) : UserData :=
  { e with
    lastMsg := if atEnd then e.lastMsg else u.lastMsg
    lastMsgXs := u.lastMsgXs
    recvFd := u.recvFd
    id := u.id }

variable {σ : Type} (W : World σ) (timeoutFunc : UserData → σ → Option σ) (timeout : ℤ)

/-- Check entries one after another and kick the stale ones. -/
def sweep : List Entry → σ → Option (List Entry × σ)
  | [], io => some ([], io)
  | e :: l, io =>
    if e.2.lastMsg + timeout < (W.time io).1 then do
      let io ← timeoutFunc e.2 (W.time io).2
      sweep l io
    else do
      let (l, io) ← sweep l (W.time io).2
      some (e :: l, io)

def kicked : List Entry → σ → List Entry
  | [], _ => []
  | e :: l, io =>
    if e.2.lastMsg + timeout < (W.time io).1 then
      e :: ((timeoutFunc e.2 (W.time io).2).map (kicked l)).getD []
    else kicked l (W.time io).2

def before (u : UserData) (L : List Entry) : List Entry := L.takeWhile fun e => !same u e.2

def onward (u : UserData) (L : List Entry) : List Entry := L.dropWhile fun e => !same u e.2

def update (u : UserData) (fresh : ℕ) (L : List Entry) (io : σ) :
    Option (ℤ × List Entry × σ) :=
  match onward u L with
  | e :: X => do
    let (A, io) ← sweep W timeoutFunc timeout (before u L) io
    if spam u e.2 then some (1, A ++ e :: X, io)
    else some (0, A ++ (e.1, refresh X.isEmpty u e.2) :: X, io)
  | [] => do
    let (A, io) ← sweep W timeoutFunc timeout L.dropLast io
    let (ok, io) := W.malloc io
    if ok then some (0, A ++ L.getLast?.toList ++ [(fresh, u)], io)
    else some (1, A ++ L.getLast?.toList, io)

def evicted (u : UserData) (L : List Entry) (io : σ) : List Entry :=
  match onward u L with
  | _ :: _ => kicked W timeoutFunc timeout (before u L) io
  | [] => kicked W timeoutFunc timeout L.dropLast io

lemma before_append_onward (u : UserData) (L : List Entry) : before u L ++ onward u L = L :=
  List.takeWhile_append_dropWhile

lemma dropLast_append_last (L : List Entry) : L.dropLast ++ L.getLast?.toList = L := by
  rw [List.dropLast_eq_take, List.take_append_getLast?]

lemma before_same {u : UserData} {L : List Entry} {e : Entry} (h : e ∈ before u L) :
    same u e.2 = false := by
  simpa using List.mem_takeWhile_imp h

lemma onward_same {u : UserData} {L X : List Entry} {e : Entry} (h : onward u L = e :: X) :
    same u e.2 = true := by
  have hne : L.dropWhile (fun e => !same u e.2) ≠ [] := by
    unfold onward at h
    simp [h]
  have hhd := List.head_dropWhile_not (fun e : Entry => !same u e.2) hne
  unfold onward at h
  simpa [h] using hhd

lemma onward_eq_nil_iff {u : UserData} {L : List Entry} :
    onward u L = [] ↔ ∀ e ∈ L, same u e.2 = false := by
  simp [onward, List.dropWhile_eq_nil_iff]

variable {W timeoutFunc timeout}

lemma sweep_cons_iff {e : Entry} {l L' : List Entry} {io io' : σ} :
    sweep W timeoutFunc timeout (e :: l) io = some (L', io') ↔
      (e.2.lastMsg + timeout < (W.time io).1 ∧ ∃ io₁, timeoutFunc e.2 (W.time io).2 = some io₁ ∧
        sweep W timeoutFunc timeout l io₁ = some (L', io')) ∨
      (¬ e.2.lastMsg + timeout < (W.time io).1 ∧ ∃ l', L' = e :: l' ∧
        sweep W timeoutFunc timeout l (W.time io).2 = some (l', io')) := by
  rw [sweep]
  by_cases hs : e.2.lastMsg + timeout < (W.time io).1
  · simp [hs, Option.bind_eq_some_iff]
  · simp only [hs, if_false, false_and, not_false_eq_true, true_and, false_or,
      Option.bind_eq_bind, Option.bind_eq_some_iff, Option.some.injEq, Prod.mk.injEq]
    constructor
    · rintro ⟨⟨l', io₁⟩, hl, rfl, rfl⟩
      exact ⟨l', rfl, hl⟩
    · rintro ⟨l', rfl, hl⟩
      exact ⟨(l', io'), hl, rfl, rfl⟩

lemma sweep_sublist {L L' : List Entry} {io io' : σ}
    (h : sweep W timeoutFunc timeout L io = some (L', io')) : L'.Sublist L := by
  induction L generalizing L' io with
  | nil =>
    cases h
    exact List.Sublist.slnil
  | cons e l ih =>
    rcases sweep_cons_iff.mp h with ⟨-, io₁, -, hl⟩ | ⟨-, l', rfl, hl⟩
    · exact (ih hl).cons e
    · exact (ih hl).cons_cons e

/-- **The sweep rule**: what every clock reading and every kick preserves, a sweep preserves.
`K` is what is known of the entries swept over. -/
theorem sweep_rule {P : List Entry → σ → Prop} {K : Entry → Prop}
    (hkeep : ∀ L io, P L io → P L (W.time io).2)
    (hkick : ∀ D e l io io', P (D ++ e :: l) io → K e → e.2.lastMsg + timeout < (W.time io).1 →
      timeoutFunc e.2 (W.time io).2 = some io' → P (D ++ l) io')
    (D R : List Entry) {L L' : List Entry} {io io' : σ} (hK : ∀ e ∈ L, K e)
    (h : sweep W timeoutFunc timeout L io = some (L', io')) (hP : P (D ++ (L ++ R)) io) :
    P (D ++ (L' ++ R)) io' := by
  induction L generalizing D L' io with
  | nil =>
    cases h
    exact hP
  | cons e l ih =>
    have hKl : ∀ x ∈ l, K x := fun x hx => hK x (List.mem_cons_of_mem _ hx)
    rcases sweep_cons_iff.mp h with ⟨hs, io₁, hf, hl⟩ | ⟨-, l', rfl, hl⟩
    · exact ih D hKl hl (hkick D e (l ++ R) io io₁ hP (hK e (by simp)) hs hf)
    · have := ih (D ++ [e]) hKl hl (by simpa using hkeep _ _ hP)
      simpa using this

variable (W timeout) in
lemma sweep_total (hf : ∀ u io, (timeoutFunc u io).isSome) (L : List Entry) (io : σ) :
    ∃ L' io', sweep W timeoutFunc timeout L io = some (L', io') := by
  induction L generalizing io with
  | nil => exact ⟨[], io, rfl⟩
  | cons e l ih =>
    by_cases hs : e.2.lastMsg + timeout < (W.time io).1
    · obtain ⟨io₁, h₁⟩ := Option.isSome_iff_exists.mp (hf e.2 (W.time io).2)
      obtain ⟨L', io', h⟩ := ih io₁
      exact ⟨L', io', sweep_cons_iff.mpr (Or.inl ⟨hs, io₁, h₁, h⟩)⟩
    · obtain ⟨L', io', h⟩ := ih (W.time io).2
      exact ⟨e :: L', io', sweep_cons_iff.mpr (Or.inr ⟨hs, L', rfl, h⟩)⟩

/-- What an update can do: reject the sender's message, refresh its entry, or append the
sender, if there is a block for it. -/
lemma update_cases {u : UserData} {fresh : ℕ} {L L' : List Entry} {io io' : σ} {r : ℤ}
    (h : update W timeoutFunc timeout u fresh L io = some (r, L', io')) :
    (∃ e X A, onward u L = e :: X ∧
      sweep W timeoutFunc timeout (before u L) io = some (A, io') ∧
      ((spam u e.2 = true ∧ r = 1 ∧ L' = A ++ e :: X) ∨
        (spam u e.2 = false ∧ r = 0 ∧ L' = A ++ (e.1, refresh X.isEmpty u e.2) :: X))) ∨
    (∃ A io₁, onward u L = [] ∧ sweep W timeoutFunc timeout L.dropLast io = some (A, io₁) ∧
      io' = (W.malloc io₁).2 ∧
      (((W.malloc io₁).1 = false ∧ r = 1 ∧ L' = A ++ L.getLast?.toList) ∨
        ((W.malloc io₁).1 = true ∧ r = 0 ∧ L' = A ++ L.getLast?.toList ++ [(fresh, u)]))) := by
  unfold update at h
  split at h
  · rename_i e X hL
    obtain ⟨⟨A, io₁⟩, hs, h⟩ := Option.bind_eq_some_iff.mp h
    left
    cases hsp : spam u e.2 with
    | true =>
      simp only [hsp, if_true, Option.some.injEq, Prod.mk.injEq] at h
      obtain ⟨rfl, rfl, rfl⟩ := h
      exact ⟨e, X, A, hL, hs, Or.inl ⟨hsp, rfl, rfl⟩⟩
    | false =>
      simp only [hsp, Bool.false_eq_true, if_false, Option.some.injEq, Prod.mk.injEq] at h
      obtain ⟨rfl, rfl, rfl⟩ := h
      exact ⟨e, X, A, hL, hs, Or.inr ⟨hsp, rfl, rfl⟩⟩
  · rename_i hL
    obtain ⟨⟨A, io₁⟩, hs, h⟩ := Option.bind_eq_some_iff.mp h
    right
    cases hm : (W.malloc io₁).1 with
    | false =>
      simp only [hm, Bool.false_eq_true, if_false, Option.some.injEq, Prod.mk.injEq] at h
      obtain ⟨rfl, rfl, rfl⟩ := h
      exact ⟨A, io₁, hL, hs, rfl, Or.inl ⟨hm, rfl, rfl⟩⟩
    | true =>
      simp only [hm, if_true, Option.some.injEq, Prod.mk.injEq] at h
      obtain ⟨rfl, rfl, rfl⟩ := h
      exact ⟨A, io₁, hL, hs, rfl, Or.inr ⟨hm, rfl, rfl⟩⟩

variable (W timeout) in
lemma update_total (hf : ∀ u io, (timeoutFunc u io).isSome) (u : UserData) (fresh : ℕ)
    (L : List Entry) (io : σ) :
    ∃ r L' io', update W timeoutFunc timeout u fresh L io = some (r, L', io') := by
  unfold update
  split
  · obtain ⟨A, io₁, h⟩ := sweep_total W timeout hf (before u L) io
    rw [h, Option.bind_eq_bind, Option.bind_some]
    dsimp only
    split
    · exact ⟨_, _, _, rfl⟩
    · exact ⟨_, _, _, rfl⟩
  · obtain ⟨A, io₁, h⟩ := sweep_total W timeout hf L.dropLast io
    rw [h, Option.bind_eq_bind, Option.bind_some]
    dsimp only
    split
    · exact ⟨_, _, _, rfl⟩
    · exact ⟨_, _, _, rfl⟩

lemma update_ne_nil {u : UserData} {fresh : ℕ} {L L' : List Entry} {io io' : σ} {r : ℤ}
    (h : update W timeoutFunc timeout u fresh L io = some (r, L', io')) (hL : L ≠ []) :
    L' ≠ [] := by
  have hlast : L.getLast?.toList ≠ [] := by simp [List.getLast?_eq_some_getLast hL]
  rcases update_cases h with ⟨e, X, A, -, -, ⟨-, -, rfl⟩ | ⟨-, -, rfl⟩⟩ |
    ⟨A, io₁, -, -, -, ⟨-, -, rfl⟩ | ⟨-, -, rfl⟩⟩
  · simp
  · simp
  · simp [hlast]
  · simp

end Csockets.UsersList
