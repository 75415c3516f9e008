import Csockets.Threads

/-!
Threads that write under one lock.

A thread is a list of operations. It is blocked at a lock that is held, be it by itself, and to
give back a lock it does not hold is a fault. A section takes the lock, writes its pieces and gives
the lock back, unless it forgets to. What threads write that call nothing but sections is the
sections one behind the other, and nothing but a lock that is not given back brings them to a stop.
-/

namespace Csockets.Sections

open Threads

inductive Op (α : Type*)
  | lock
  | write (a : α)
  | unlock

structure State (ι α : Type*) where
  owner : Option ι
  todo : ι → List (Op α)
  out : List α

structure Section (α : Type*) where
  pieces : List α
  unlocks : Bool

variable {ι α : Type*} [DecidableEq ι]

def step (i : ι) (st : State ι α) : Move (State ι α) :=
  match st.todo i with
  | [] => .blocked
  | .lock :: ops =>
    if st.owner = none then .next ⟨some i, Function.update st.todo i ops, st.out⟩ else .blocked
  | .write a :: ops => .next ⟨st.owner, Function.update st.todo i ops, st.out ++ [a]⟩
  | .unlock :: ops =>
    if st.owner = some i then .next ⟨none, Function.update st.todo i ops, st.out⟩ else .fault

/-- What is left of a section behind the lock, with these pieces to write. -/
def body (pieces : List α) (unlocks : Bool) : List (Op α) :=
  pieces.map .write ++ if unlocks then [.unlock] else []

def Section.ops (s : Section α) : List (Op α) := .lock :: body s.pieces s.unlocks

section Calls

variable {κ : Type*} (sec : κ → Section α)

/-- What a thread does that makes these calls, each of which is a section. -/
def opsOf (l : List κ) : List (Op α) := l.flatMap fun c => (sec c).ops

def start (prog : ι → List κ) : State ι α := ⟨none, fun i => opsOf sec (prog i), []⟩

def callsOf (i : ι) (l : List (ι × κ)) : List κ :=
  l.filterMap fun x => if x.1 = i then some x.2 else none

def written (l : List (ι × κ)) : List α := l.flatMap fun x => (sec x.2).pieces

variable {sec} {prog : ι → List κ} {st st' : State ι α} {as : List ι}

@[simp] lemma body_cons (a : α) (pieces : List α) (unlocks : Bool) :
    body (a :: pieces) unlocks = .write a :: body pieces unlocks := rfl

@[simp] lemma body_nil_true : body ([] : List α) true = [.unlock] := rfl
@[simp] lemma body_nil_false : body ([] : List α) false = [] := rfl

@[simp] lemma opsOf_nil : opsOf sec [] = [] := rfl

@[simp] lemma opsOf_cons (c : κ) (l : List κ) :
    opsOf sec (c :: l) = .lock :: (body (sec c).pieces (sec c).unlocks ++ opsOf sec l) := rfl

@[simp] lemma callsOf_snoc (i : ι) (l : List (ι × κ)) (x : ι × κ) :
    callsOf i (l ++ [x]) = callsOf i l ++ if x.1 = i then [x.2] else [] := by
  unfold callsOf
  rw [List.filterMap_append]
  by_cases h : x.1 = i <;> simp [h]

omit [DecidableEq ι] in
@[simp] lemma written_snoc (l : List (ι × κ)) (x : ι × κ) :
    written sec (l ++ [x]) = written sec l ++ (sec x.2).pieces := by
  simp [written]

/-- Where the threads are: between sections, or in one, the lock being held. -/
inductive Inv (sec : κ → Section α) (prog : ι → List κ) (st : State ι α) : Prop
  | free (done : List (ι × κ)) (rest : ι → List κ)
    (split : ∀ i, prog i = callsOf i done ++ rest i) (given : ∀ x ∈ done, (sec x.2).unlocks = true)
    (owner : st.owner = none) (todo : st.todo = fun i => opsOf sec (rest i))
    (out : st.out = written sec done)
  | held (done : List (ι × κ)) (rest : ι → List κ) (j : ι) (c : κ)
    (pre post : List α) (split : ∀ i, prog i = callsOf i (done ++ [(j, c)]) ++ rest i)
    (given : ∀ x ∈ done, (sec x.2).unlocks = true) (owner : st.owner = some j)
    (pieces : (sec c).pieces = pre ++ post)
    (todo : st.todo =
      Function.update (fun i => opsOf sec (rest i)) j
        (body post (sec c).unlocks ++ opsOf sec (rest j)))
    (out : st.out = written sec done ++ pre)

lemma inv_start (sec : κ → Section α) (prog : ι → List κ) : Inv sec prog (start sec prog) :=
  .free [] prog (fun _ => rfl) (by simp) rfl rfl rfl

lemma step_waits {l : List κ} {i : ι} (howner : st.owner ≠ none)
    (htodo : st.todo i = opsOf sec l) : step i st = .blocked := by
  unfold step
  rw [htodo]
  cases l with
  | nil => rfl
  | cons c l =>
    rw [opsOf_cons]
    dsimp only
    rw [if_neg howner]

lemma step_spec (h : Inv sec prog st) (i : ι) :
    step i st = .blocked ∨ ∃ st', step i st = .next st' ∧ Inv sec prog st' := by
  cases h with
  | free done rest split given owner todo out =>
    unfold step
    rw [todo]
    dsimp only
    cases hrest : rest i with
    | nil => exact Or.inl rfl
    | cons c l =>
      -- the lock is taken
      rw [opsOf_cons]
      dsimp only
      rw [if_pos owner]
      refine Or.inr ⟨_, rfl, .held done (Function.update rest i l) i c [] (sec c).pieces
        (fun k => ?_)
        given rfl rfl ?_ ?_⟩
      · rw [callsOf_snoc, split k]
        by_cases hk : i = k
        · subst hk
          simp [hrest]
        · rw [if_neg hk, Function.update_of_ne (Ne.symm hk), List.append_nil]
      · ext1 k
        by_cases hk : k = i
        · subst hk
          simp
        · simp [Function.update_of_ne hk]
      · rw [out, List.append_nil]
  | held done rest j c pre post split given owner pieces todo out =>
    by_cases hi : i = j
    · subst hi
      have htodo : st.todo i = body post (sec c).unlocks ++ opsOf sec (rest i) := by
        rw [todo, Function.update_self]
      cases post with
      | cons a post =>
        unfold step
        rw [htodo, body_cons, List.cons_append]
        refine Or.inr ⟨_, rfl, .held done rest i c (pre ++ [a]) post split given owner ?_ ?_ ?_⟩
        · rw [pieces, List.append_assoc]
          rfl
        · dsimp only
          rw [todo, Function.update_idem]
        · dsimp only
          rw [out, List.append_assoc]
      | nil =>
        cases hs : (sec c).unlocks with
        | true =>
          unfold step
          rw [htodo, hs, body_nil_true, List.cons_append]
          dsimp only
          rw [if_pos owner]
          refine Or.inr ⟨_, rfl, .free (done ++ [(i, c)]) rest split (fun x hx => ?_) rfl ?_ ?_⟩
          · rcases List.mem_append.mp hx with hx | hx
            · exact given x hx
            · rw [List.mem_singleton.mp hx]
              exact hs
          · dsimp only
            rw [todo, Function.update_idem, List.nil_append]
            exact Function.update_eq_self _ _
          · dsimp only
            rw [out, written_snoc, pieces, List.append_nil]
        | false =>
          -- the lock is held and is not given back
          rw [hs, body_nil_false, List.nil_append] at htodo
          exact Or.inl (step_waits (by simp [owner]) htodo)
    · have htodo : st.todo i = opsOf sec (rest i) := by
        rw [todo, Function.update_of_ne hi]
      exact Or.inl (step_waits (by simp [owner]) htodo)

lemma step_keeps (i : ι) (st st' : State ι α) (h : Inv sec prog st)
    (hstep : step i st = .next st') :
    Inv sec prog st' := by
  rcases step_spec h i with hblocked | ⟨st₁, hnext, hinv⟩
  · cases hblocked.symm.trans hstep
  · cases hnext.symm.trans hstep
    exact hinv

omit [DecidableEq ι] in
lemma written_dropLast (l : List (ι × κ)) : written sec l.dropLast <+: written sec l := by
  obtain ⟨t, ht⟩ := l.dropLast_prefix
  refine ⟨written sec t, ?_⟩
  unfold written
  rw [← List.flatMap_append, ht]

lemma opsOf_eq_nil {l : List κ} (h : opsOf sec l = []) : l = [] := by
  cases l with
  | nil => rfl
  | cons c l => cases h

/-- What the threads have come to, with the sections that have begun in their order. -/
structure Serial (sec : κ → Section α) (prog : ι → List κ) (st : State ι α) (begun : List (ι × κ)) :
    Prop where
  each : ∀ i, callsOf i begun <+: prog i
  whole : written sec begun.dropLast <+: st.out
  upto : st.out <+: written sec begun
  given : ∀ x ∈ begun.dropLast, (sec x.2).unlocks = true
  all : (∀ i, st.todo i = []) → ∀ i, callsOf i begun = prog i
  stuck : (∀ i, step i st = .blocked) ↔ st.out = written sec begun ∧
    ((∀ i, st.todo i = []) ∨ ∃ x ∈ begun.getLast?, (sec x.2).unlocks = false)

lemma step_ended {i : ι} (h : st.todo i = []) : step i st = .blocked := by
  unfold step
  rw [h]

lemma serial_free {done : List (ι × κ)} {rest : ι → List κ}
    (split : ∀ i, prog i = callsOf i done ++ rest i) (given : ∀ x ∈ done, (sec x.2).unlocks = true)
    (owner : st.owner = none) (todo : ∀ i, st.todo i = opsOf sec (rest i))
    (out : st.out = written sec done) : Serial sec prog st done := by
  refine ⟨fun i => ⟨rest i, (split i).symm⟩, ?_, by rw [out], fun x hx => ?_, fun hnil i => ?_, ?_⟩
  · rw [out]
    exact written_dropLast done
  · exact given x (List.mem_of_mem_dropLast hx)
  · rw [split i, opsOf_eq_nil ((todo i).symm.trans (hnil i)), List.append_nil]
  · constructor
    · intro hstuck
      refine ⟨out, Or.inl fun i => ?_⟩
      have hblocked := hstuck i
      unfold step at hblocked
      rw [todo i] at hblocked ⊢
      cases hi : rest i with
      | nil => rfl
      | cons c l =>
        -- the lock is there to be taken
        rw [hi, opsOf_cons] at hblocked
        dsimp only at hblocked
        rw [if_pos owner] at hblocked
        cases hblocked
    · rintro ⟨-, hnil | ⟨x, hx, hkeeps⟩⟩ i
      · exact step_ended (hnil i)
      · rw [given x (List.mem_of_getLast? hx)] at hkeeps
        cases hkeeps

lemma serial_held {done : List (ι × κ)} {rest : ι → List κ} {j : ι}
    {c : κ} {pre post : List α}
    (split : ∀ i, prog i = callsOf i (done ++ [(j, c)]) ++ rest i)
    (given : ∀ x ∈ done, (sec x.2).unlocks = true) (owner : st.owner = some j)
    (pieces : (sec c).pieces = pre ++ post)
    (todo : st.todo =
      Function.update (fun i => opsOf sec (rest i)) j
        (body post (sec c).unlocks ++ opsOf sec (rest j)))
    (out : st.out = written sec done ++ pre) : Serial sec prog st (done ++ [(j, c)]) := by
  have htodo : st.todo j = body post (sec c).unlocks ++ opsOf sec (rest j) := by
    rw [todo, Function.update_self]
  have hothers : ∀ i, i ≠ j → st.todo i = opsOf sec (rest i) := by
    intro i hi
    rw [todo, Function.update_of_ne hi]
  have hout : st.out = written sec (done ++ [(j, c)]) ↔ post = [] := by
    rw [out, written_snoc, pieces, ← List.append_assoc]
    simp
  refine ⟨fun i => ⟨rest i, (split i).symm⟩, ?_, ⟨post, ?_⟩, ?_, fun hnil i => ?_, ?_⟩
  · rw [List.dropLast_concat, out]
    exact List.prefix_append _ _
  · rw [written_snoc, out, pieces, List.append_assoc]
  · rw [List.dropLast_concat]
    exact given
  · have hrest : opsOf sec (rest i) = [] := by
      have hi := hnil i
      by_cases hij : i = j
      · subst hij
        rw [htodo] at hi
        exact (List.append_eq_nil_iff.mp hi).2
      · rw [hothers i hij] at hi
        exact hi
    rw [split i, opsOf_eq_nil hrest, List.append_nil]
  · have hstuck : (∀ i, step i st = .blocked) ↔ post = [] ∧ (sec c).unlocks = false := by
      constructor
      · intro hstuck
        have hblocked := hstuck j
        unfold step at hblocked
        rw [htodo] at hblocked
        cases post with
        | cons a post => cases hblocked
        | nil =>
          refine ⟨rfl, Bool.eq_false_iff.mpr fun hs => ?_⟩
          rw [hs, body_nil_true, List.cons_append] at hblocked
          dsimp only at hblocked
          rw [if_pos owner] at hblocked
          cases hblocked
      · rintro ⟨rfl, hs⟩ i
        rw [hs, body_nil_false, List.nil_append] at htodo
        by_cases hij : i = j
        · subst hij
          exact step_waits (by simp [owner]) htodo
        · exact step_waits (by simp [owner]) (hothers i hij)
    rw [hstuck, hout]
    constructor
    · rintro ⟨hpost, hs⟩
      exact ⟨hpost, Or.inr ⟨(j, c), by simp, hs⟩⟩
    · rintro ⟨rfl, hnil | ⟨x, hx, hs⟩⟩
      · have hj := (List.append_eq_nil_iff.mp (htodo.symm.trans (hnil j))).1
        cases hs : (sec c).unlocks with
        | true =>
          rw [hs] at hj
          cases hj
        | false => exact ⟨rfl, rfl⟩
      · rw [List.getLast?_concat] at hx
        cases hx
        exact ⟨rfl, hs⟩

/-- **Whole sections**: whatever the schedule, what is written are the sections that have begun, one
behind the other and of each thread its first ones in order, but for what the last of them has not
written yet. The threads stop at their ends, or at a lock that this last one does not give back. -/
theorem sched_serial (h : sched step as (start sec prog) = .next st) :
    ∃ begun, Serial sec prog st begun := by
  have hinv : Inv sec prog st := sched_keeps step_keeps (inv_start sec prog) h
  cases hinv with
  | free done rest split given owner todo out =>
    exact ⟨done, serial_free split given owner (fun i => by rw [todo]) out⟩
  | held done rest j c pre post split given owner pieces todo out =>
    exact ⟨_, serial_held split given owner pieces todo out⟩

theorem sched_safe (sec : κ → Section α) (prog : ι → List κ) (as : List ι) :
    sched step as (start sec prog) ≠ .fault := by
  intro hfault
  obtain ⟨pre, i, post, st, -, hpre, hstep⟩ := sched_fault_iff.mp hfault
  rcases step_spec (sched_keeps step_keeps (inv_start sec prog) hpre) i with
    hblocked | ⟨st', hnext, -⟩
  · cases hblocked.symm.trans hstep
  · cases hnext.symm.trans hstep

def left [Fintype ι] (st : State ι α) : ℕ := ∑ i, (st.todo i).length

lemma step_left [Fintype ι] {i : ι} (hstep : step i st = .next st') : left st' < left st := by
  have hlt : ∀ {op : Op α} {ops : List (Op α)}, st.todo i = op :: ops →
      ∑ k, (Function.update st.todo i ops k).length < left st := by
    intro op ops hi
    refine sum_update_lt List.length st.todo ?_
    rw [hi, List.length_cons]
    exact Nat.lt_succ_self _
  unfold step at hstep
  split at hstep
  · cases hstep
  · rename_i ops hi
    split at hstep
    · cases hstep
      exact hlt hi
    · cases hstep
  · rename_i a ops hi
    cases hstep
    exact hlt hi
  · rename_i ops hi
    split at hstep
    · cases hstep
      exact hlt hi
    · cases hstep

omit [DecidableEq ι] in
lemma opsOf_length_le {k : ℕ} (hk : ∀ c, (sec c).pieces.length ≤ k) (l : List κ) :
    (opsOf sec l).length ≤ (k + 2) * l.length := by
  induction l with
  | nil => exact Nat.zero_le _
  | cons c l ih =>
    have hbody : (body (sec c).pieces (sec c).unlocks).length ≤ k + 1 := by
      unfold body
      rw [List.length_append, List.length_map]
      have hlen := hk c
      split
      · rw [List.length_singleton]
        omega
      · rw [List.length_nil]
        omega
    rw [opsOf_cons, List.length_cons, List.length_append, List.length_cons, Nat.mul_succ]
    omega

/-- **Schedules end**: none is longer than what the threads have to do. -/
theorem sched_length [Fintype ι] {k : ℕ} (hk : ∀ c, (sec c).pieces.length ≤ k)
    (h : sched step as (start sec prog) = .next st) :
    as.length ≤ (k + 2) * ∑ i, (prog i).length := by
  have hstep : ∀ (i : ι) (st st' : State ι α), Inv sec prog st → step i st = .next st' →
      Inv sec prog st' ∧ left st' < left st := fun i st st' hinv hnext =>
    ⟨step_keeps i st st' hinv hnext, step_left hnext⟩
  have hbound : as.length + left st ≤ left (start sec prog) :=
    sched_bounded left hstep (inv_start sec prog) h
  calc as.length ≤ ∑ i, (opsOf sec (prog i)).length := Nat.le_of_add_right_le hbound
    _ ≤ ∑ i, (k + 2) * (prog i).length := Finset.sum_le_sum fun i _ => opsOf_length_le hk (prog i)
    _ = (k + 2) * ∑ i, (prog i).length := (Finset.mul_sum ..).symm

end Calls

end Csockets.Sections
