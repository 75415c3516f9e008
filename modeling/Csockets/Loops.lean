import Mathlib

/-!
Loops that take one input a turn and may leave, fault or go on for ever.

`loop body n` gives the loop `n` turns at most, so that it ends means that it leaves at some
`n`. The inputs are a stream: what a loop makes of them does not depend on how many there are.
-/

namespace Csockets.Loops

/-- What one turn comes to: the loop goes on, is left with a result, or faults. -/
inductive Turn (σ ρ : Type*)
  | again (s : σ)
  | leave (r : ρ)
  | fault

variable {ι σ ρ : Type*} {body : ι → σ → Turn σ ρ}

/-- Where the turn goes on `Inv` holds, and where it leaves `Post`; a fault is left open. -/
def Turn.Keeps (Inv : σ → Prop) (Post : ρ → Prop) : Turn σ ρ → Prop
  | .again s => Inv s
  | .leave r => Post r
  | .fault => True

def Turn.map {σ' ρ' : Type*} (f : σ → σ') (g : ρ → ρ') : Turn σ ρ → Turn σ' ρ'
  | .again s => .again (f s)
  | .leave r => .leave (g r)
  | .fault => .fault

/-- Two turns that come to the same, in related states or with related results. -/
inductive Turn.Rel {σ' ρ' : Type*} (R : σ → σ' → Prop) (P : ρ → ρ' → Prop) :
    Turn σ ρ → Turn σ' ρ' → Prop
  | again {s s'} (h : R s s') : Turn.Rel R P (.again s) (.again s')
  | leave {r r'} (h : P r r') : Turn.Rel R P (.leave r) (.leave r')
  | fault : Turn.Rel R P .fault .fault

lemma Turn.rel_map {σ' ρ' : Type*} {f : σ → σ'} {g : ρ → ρ'} {t : Turn σ ρ} {t' : Turn σ' ρ'} :
    t.Rel (fun s s' => f s = s') (fun r r' => g r = r') t' ↔ t.map f g = t' := by
  constructor
  · rintro (h | h | _)
    · exact congrArg _ h
    · exact congrArg _ h
    · rfl
  · rintro rfl
    cases t with
    | again s => exact .again rfl
    | leave r => exact .leave rfl
    | fault => exact .fault

def loop (body : ι → σ → Turn σ ρ) : ℕ → Stream' ι → σ → Turn σ ρ
  | 0, _, s => .again s
  | n + 1, feed, s =>
    match body feed.head s with
    | .again s => loop body n feed.tail s
    | .leave r => .leave r
    | .fault => .fault

lemma loop_again {feed : Stream' ι} {s s' : σ} (h : body feed.head s = .again s') (n : ℕ) :
    loop body (n + 1) feed s = loop body n feed.tail s' := by
  rw [loop, h]

lemma loop_leave {feed : Stream' ι} {s : σ} {r : ρ} (h : body feed.head s = .leave r) (n : ℕ) :
    loop body (n + 1) feed s = .leave r := by
  rw [loop, h]

/-- **The loop rule**: a turn from a state with `Inv` goes on to one or leaves with `Post`. -/
theorem loop_spec (Inv : Stream' ι → σ → Prop) (Post : ρ → Prop)
    (hturn : ∀ feed s, Inv feed s → (∃ s', body feed.head s = .again s' ∧ Inv feed.tail s') ∨
      ∃ r, body feed.head s = .leave r ∧ Post r)
    (n : ℕ) {feed : Stream' ι} {s : σ} (h : Inv feed s) :
    (∃ s', loop body n feed s = .again s' ∧ Inv (feed.drop n) s') ∨
      ∃ r, loop body n feed s = .leave r ∧ Post r := by
  induction n generalizing feed s with
  | zero => exact Or.inl ⟨s, rfl, h⟩
  | succ n ih =>
    obtain ⟨s₁, h₁, hinv⟩ | ⟨r, hr, hpost⟩ := hturn feed s h
    · rw [loop_again h₁, Stream'.drop_succ]
      exact ih hinv
    · exact Or.inr ⟨r, loop_leave hr n, hpost⟩

theorem loop_keeps {Inv : σ → Prop} {Post : ρ → Prop}
    (hturn : ∀ i s, Inv s → (body i s).Keeps Inv Post) (n : ℕ) (feed : Stream' ι) {s : σ}
    (h : Inv s) : (loop body n feed s).Keeps Inv Post := by
  induction n generalizing feed s with
  | zero => exact h
  | succ n ih =>
    have hbody := hturn feed.head s h
    unfold loop
    cases hb : body feed.head s with
    | again s' =>
      rw [hb] at hbody
      exact ih _ hbody
    | leave r =>
      rw [hb] at hbody
      exact hbody
    | fault => trivial

/-- A loop that every turn takes on to a state with `Inv` uses up any number of turns. -/
theorem loop_forever (Inv : Stream' ι → σ → Prop)
    (hturn : ∀ feed s, Inv feed s → ∃ s', body feed.head s = .again s' ∧ Inv feed.tail s')
    (n : ℕ) {feed : Stream' ι} {s : σ} (h : Inv feed s) : ∃ s', loop body n feed s = .again s' := by
  have hspec := loop_spec Inv (fun _ => False) (fun feed s hs => Or.inl (hturn feed s hs)) n h
  obtain ⟨s', hs', -⟩ | ⟨_, -, hfalse⟩ := hspec
  · exact ⟨s', hs'⟩
  · exact hfalse.elim

/-- More turns change nothing once the loop is left. -/
theorem loop_stable {n : ℕ} {feed : Stream' ι} {s : σ} {r : ρ} (h : loop body n feed s = .leave r)
    (m : ℕ) : loop body (n + m) feed s = .leave r := by
  induction n generalizing feed s with
  | zero => cases h
  | succ n ih =>
    rw [Nat.add_right_comm]
    unfold loop at h ⊢
    cases hb : body feed.head s with
    | again s' =>
      rw [hb] at h
      exact ih h
    | leave r' =>
      rw [hb] at h
      exact h
    | fault =>
      rw [hb] at h
      cases h

/-- A loop that goes on only to states of smaller measure is left. -/
theorem loop_ends (Inv : ℕ → σ → Prop) (Post : ρ → Prop)
    (hturn : ∀ i k s, Inv k s → (∃ s' k', body i s = .again s' ∧ Inv k' s' ∧ k' < k) ∨
      ∃ r, body i s = .leave r ∧ Post r)
    {k : ℕ} (feed : Stream' ι) {s : σ} (h : Inv k s) :
    ∃ r, loop body (k + 1) feed s = .leave r ∧ Post r := by
  induction k using Nat.strong_induction_on generalizing feed s with
  | _ k ih =>
    obtain ⟨s', k', hagain, hinv, hlt⟩ | ⟨r, hleave, hpost⟩ := hturn feed.head k s h
    · obtain ⟨r, hleave, hpost⟩ := ih k' hlt feed.tail hinv
      refine ⟨r, ?_, hpost⟩
      have hstable := loop_stable hleave (k - (k' + 1))
      rw [Nat.add_sub_cancel' hlt] at hstable
      rw [loop_again hagain, hstable]
    · exact ⟨r, loop_leave hleave k, hpost⟩

/-- **Two loops side by side**: bodies whose turns agree from related states make loops that do. -/
theorem loop_rel {σ' ρ' : Type*} {body' : ι → σ' → Turn σ' ρ'} {R : σ → σ' → Prop}
    {P : ρ → ρ' → Prop} (hbody : ∀ i s s', R s s' → (body i s).Rel R P (body' i s')) (n : ℕ)
    (feed : Stream' ι) {s : σ} {s' : σ'} (h : R s s') :
    (loop body n feed s).Rel R P (loop body' n feed s') := by
  induction n generalizing feed s s' with
  | zero => exact .again h
  | succ n ih =>
    have hturn := hbody feed.head s s' h
    unfold loop
    generalize body feed.head s = t at hturn ⊢
    generalize body' feed.head s' = t' at hturn ⊢
    cases hturn with
    | again h₁ => exact ih _ h₁
    | leave hr => exact .leave hr
    | fault => exact .fault

/-- **Simulation**: a body that is another one through a view makes a loop that is the other's. -/
theorem loop_map {σ' ρ' : Type*} {body' : ι → σ' → Turn σ' ρ'} (f : σ → σ') (g : ρ → ρ')
    (hbody : ∀ i s, (body i s).map f g = body' i (f s)) (n : ℕ) (feed : Stream' ι) (s : σ) :
    (loop body n feed s).map f g = loop body' n feed (f s) := by
  rw [← Turn.rel_map]
  refine loop_rel (fun i s s' h => ?_) n feed rfl
  rw [Turn.rel_map, hbody, h]

theorem loop_succ (n : ℕ) (feed : Stream' ι) (s : σ) :
    loop body (n + 1) feed s =
      match loop body n feed s with
      | .again s' => body (feed.get n) s'
      | .leave r => .leave r
      | .fault => .fault := by
  induction n generalizing feed s with
  | zero =>
    unfold loop
    cases hb : body feed.head s with
    | again s' => exact hb.symm
    | leave r => exact hb.symm
    | fault => exact hb.symm
  | succ n ih =>
    cases hb : body feed.head s with
    | again s' =>
      rw [loop_again hb, loop_again hb]
      exact ih _ _
    | leave r => rw [loop_leave hb, loop_leave hb]
    | fault =>
      unfold loop
      rw [hb]

lemma loop_succ_again {n : ℕ} {feed : Stream' ι} {s s' : σ} :
    loop body (n + 1) feed s = .again s' ↔
      ∃ s₁, loop body n feed s = .again s₁ ∧ body (feed.get n) s₁ = .again s' := by
  rw [loop_succ]
  cases loop body n feed s with
  | again s₁ => simp
  | leave r => simp
  | fault => simp

theorem loop_ended_iff {n : ℕ} {feed : Stream' ι} {s : σ} {t : Turn σ ρ}
    (ht : ∀ s', t ≠ .again s') :
    loop body n feed s = t ↔
      ∃ i < n, ∃ s', loop body i feed s = .again s' ∧ body (feed.get i) s' = t := by
  induction n with
  | zero =>
    constructor
    · intro h
      exact absurd h.symm (ht s)
    · rintro ⟨i, hi, -⟩
      omega
  | succ n ih =>
    -- it ended before the last turn, or in it
    have hsplit : (∃ i < n + 1, ∃ s', loop body i feed s = .again s' ∧
        body (feed.get i) s' = t) ↔ loop body n feed s = t ∨
          ∃ s', loop body n feed s = .again s' ∧ body (feed.get n) s' = t := by
      rw [ih]
      constructor
      · rintro ⟨i, hi, h⟩
        rcases Nat.lt_succ_iff_lt_or_eq.mp hi with hi | rfl
        · exact Or.inl ⟨i, hi, h⟩
        · exact Or.inr h
      · rintro (⟨i, hi, h⟩ | h)
        · exact ⟨i, hi.trans (Nat.lt_succ_self n), h⟩
        · exact ⟨n, Nat.lt_succ_self n, h⟩
    rw [hsplit, loop_succ]
    cases loop body n feed s with
    | again s' => simp [(ht s').symm]
    | leave r => simp
    | fault => simp

lemma loop_unique {n m : ℕ} {feed : Stream' ι} {s : σ} {r r' : ρ}
    (h : loop body n feed s = .leave r) (h' : loop body m feed s = .leave r') : r = r' := by
  have hn := loop_stable h m
  rw [Nat.add_comm, loop_stable h' n] at hn
  injection hn with hn
  exact hn.symm

end Csockets.Loops
