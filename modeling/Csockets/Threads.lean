import Mathlib

/-!
Threads that take turns in any order.

An action is one atomic step of one of the threads, together with what the system answers to the
call made in it. A thread that cannot take an action now is blocked; one that does what no program
may do faults. Any list of actions is a schedule, so what holds behind every schedule holds
whatever the scheduler and the system do.
-/

namespace Csockets.Threads

inductive Move (σ : Type*)
  | blocked
  | fault
  | next (s : σ)

def Move.All {σ : Type*} (P : σ → Prop) : Move σ → Prop
  | .next s => P s
  | _ => True

lemma Move.all_of {σ : Type*} {P : σ → Prop} {m : Move σ} (h : ∀ s, m = .next s → P s) :
    m.All P := by
  cases m with
  | next s => exact h s rfl
  | _ => trivial

variable {α σ : Type*} (step : α → σ → Move σ)

def sched : List α → σ → Move σ
  | [], s => .next s
  | a :: as, s =>
    match step a s with
    | .next s => sched as s
    | .blocked => .blocked
    | .fault => .fault

variable {step} {Inv : σ → Prop} {s s' : σ} {as bs : List α}

lemma sched_cons {a : α} (h : step a s = .next s') : sched step (a :: as) s = sched step as s' := by
  rw [sched, h]

lemma sched_cons_next {a : α} (h : sched step (a :: as) s = .next s') :
    ∃ s₁, step a s = .next s₁ ∧ sched step as s₁ = .next s' := by
  rw [sched] at h
  cases hstep : step a s with
  | next s₁ =>
    rw [hstep] at h
    exact ⟨s₁, rfl, h⟩
  | blocked =>
    rw [hstep] at h
    cases h
  | fault =>
    rw [hstep] at h
    cases h

lemma sched_append (h : sched step as s = .next s') :
    sched step (as ++ bs) s = sched step bs s' := by
  induction as generalizing s with
  | nil =>
    cases h
    rfl
  | cons a as ih =>
    obtain ⟨s₁, h₁, h⟩ := sched_cons_next h
    rw [List.cons_append, sched_cons h₁, ih h]

/-- **Invariants of schedules**: what every step keeps holds in every state a schedule gets to. -/
theorem sched_keeps (hstep : ∀ a s s', Inv s → step a s = .next s' → Inv s') (hs : Inv s)
    (h : sched step as s = .next s') : Inv s' := by
  induction as generalizing s with
  | nil =>
    cases h
    exact hs
  | cons a as ih =>
    obtain ⟨s₁, h₁, h⟩ := sched_cons_next h
    exact ih (hstep a s s₁ hs h₁) h

theorem sched_all {P : σ → Prop} (hstep : ∀ a s s', Inv s → step a s = .next s' → Inv s')
    (hP : ∀ s, Inv s → P s) (hs : Inv s) (as : List α) : (sched step as s).All P :=
  Move.all_of fun s' h => hP s' (sched_keeps hstep hs h)

lemma sched_fault_iff :
    sched step as s = .fault ↔ ∃ pre a post s',
      as = pre ++ a :: post ∧ sched step pre s = .next s' ∧ step a s' = .fault := by
  constructor
  · intro h
    induction as generalizing s with
    | nil => cases h
    | cons a as ih =>
      rw [sched] at h
      cases hstep : step a s with
      | next s₁ =>
        rw [hstep] at h
        obtain ⟨pre, b, post, s', rfl, hpre, hfault⟩ := ih h
        exact ⟨a :: pre, b, post, s', rfl, by rw [sched_cons hstep, hpre], hfault⟩
      | blocked =>
        rw [hstep] at h
        cases h
      | fault => exact ⟨[], a, as, s, rfl, rfl, hstep⟩
  · rintro ⟨pre, a, post, s', rfl, hpre, hfault⟩
    rw [sched_append hpre, sched, hfault]

/-- **Schedules end**: where every step makes a measure smaller, no schedule has more steps than
the measure it begins with. -/
theorem sched_bounded (μ : σ → ℕ)
    (hstep : ∀ a s s', Inv s → step a s = .next s' → Inv s' ∧ μ s' < μ s) (hs : Inv s)
    (h : sched step as s = .next s') : as.length + μ s' ≤ μ s := by
  induction as generalizing s with
  | nil =>
    cases h
    simp
  | cons a as ih =>
    obtain ⟨s₁, h₁, h⟩ := sched_cons_next h
    obtain ⟨hinv, hlt⟩ := hstep a s s₁ hs h₁
    have hle := ih hinv h
    rw [List.length_cons]
    omega

lemma sum_update_lt {ι κ : Type*} [Fintype ι] [DecidableEq ι] (μ : κ → ℕ) (f : ι → κ) {i : ι}
    {k : κ} (h : μ k < μ (f i)) : ∑ j, μ (Function.update f i k j) < ∑ j, μ (f j) := by
  refine Finset.sum_lt_sum (fun j _ => ?_) ⟨i, Finset.mem_univ i, ?_⟩
  · by_cases hj : j = i
    · subst hj
      rw [Function.update_self]
      exact h.le
    · rw [Function.update_of_ne hj]
  · rw [Function.update_self]
    exact h

end Csockets.Threads
