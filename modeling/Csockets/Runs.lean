import Mathlib

/-!
Runs of a step function that may fault, and properties of the log a run leaves.

`runs` feeds inputs to the step one after another. `Along` states a condition on every step
of a run, at the state the step is taken in; an invariant that a step keeps under the
condition holds wherever the run gets. `Always` states of every event of a log what it has to
do with the events before it.
-/

namespace Csockets.Runs

section Steps

variable {ι σ : Type} (step : ι → σ → Option σ)

def runs : List ι → σ → Option σ
  | [], s => some s
  | i :: is, s => do
    let s ← step i s
    runs is s

/-- Every step of the run is taken under the condition `C`. -/
def Along (C : σ → ι → Prop) : List ι → σ → Prop
  | [], _ => True
  | i :: is, s => C s i ∧ match step i s with
    | none => True
    | some s' => Along C is s'

instance Along.decidable (C : σ → ι → Prop) [∀ s i, Decidable (C s i)] :
    ∀ (is : List ι) (s : σ), Decidable (Along step C is s)
  | [], _ => isTrue trivial
  | i :: is, s =>
    have : Decidable (match step i s with
        | none => True
        | some s' => Along step C is s') :=
      match step i s with
      | none => isTrue trivial
      | some s' => Along.decidable C is s'
    inferInstanceAs (Decidable (_ ∧ _))

variable {step}

@[simp] lemma runs_nil (s : σ) : runs step [] s = some s := rfl

lemma runs_cons {i : ι} {is : List ι} {s s' : σ} (h : step i s = some s') :
    runs step (i :: is) s = runs step is s' := by
  rw [runs, h]
  rfl

lemma runs_append (is js : List ι) (s : σ) :
    runs step (is ++ js) s = (runs step is s).bind (runs step js) := by
  induction is generalizing s with
  | nil => rfl
  | cons i is ih =>
    show (step i s).bind (runs step (is ++ js)) =
      ((step i s).bind (runs step is)).bind (runs step js)
    rw [Option.bind_assoc]
    exact congrArg _ (funext ih)

/-- **Invariants of runs**: a step that under `C` does not fault and keeps `Inv` makes runs
under `C` that do not fault and keep `Inv`. -/
theorem runs_along {C : σ → ι → Prop} (Inv : σ → Prop)
    (hstep : ∀ i s, Inv s → C s i → ∃ s', step i s = some s' ∧ Inv s') (is : List ι) {s : σ}
    (hs : Inv s) (hC : Along step C is s) : ∃ s', runs step is s = some s' ∧ Inv s' := by
  induction is generalizing s with
  | nil => exact ⟨s, rfl, hs⟩
  | cons i is ih =>
    obtain ⟨s₁, h₁, hs₁⟩ := hstep i s hs hC.1
    have hC₁ := hC.2
    rw [h₁] at hC₁
    obtain ⟨s', h', hs'⟩ := ih hs₁ hC₁
    exact ⟨s', by rw [runs_cons h₁, h'], hs'⟩

theorem runs_keep {C : σ → ι → Prop} (Inv : σ → Prop)
    (hstep : ∀ i s s', Inv s → C s i → step i s = some s' → Inv s') {is : List ι} {s s' : σ}
    (hs : Inv s) (hC : Along step C is s) (hrun : runs step is s = some s') : Inv s' := by
  induction is generalizing s with
  | nil =>
    cases hrun
    exact hs
  | cons i is ih =>
    obtain ⟨s₁, h₁, hrun⟩ := Option.bind_eq_some_iff.mp hrun
    have hC₁ := hC.2
    rw [h₁] at hC₁
    exact ih (hstep i s s₁ hs hC.1 h₁) hC₁ hrun

theorem along_iff {C : σ → ι → Prop} {is : List ι} {s : σ} :
    Along step C is s ↔ ∀ pre i, pre ++ [i] <+: is → ∀ s', runs step pre s = some s' → C s' i := by
  induction is generalizing s with
  | nil => simp [Along]
  | cons j is ih =>
    constructor
    · rintro ⟨hj, hrest⟩ pre i hpre s' hs'
      cases pre with
      | nil =>
        cases hs'
        rw [List.nil_append, List.cons_prefix_cons] at hpre
        exact hpre.1 ▸ hj
      | cons k pre =>
        rw [List.cons_append, List.cons_prefix_cons] at hpre
        obtain ⟨rfl, hpre⟩ := hpre
        obtain ⟨s₁, h₁, hs'⟩ := Option.bind_eq_some_iff.mp hs'
        rw [h₁] at hrest
        exact ih.mp hrest pre i hpre s' hs'
    · intro h
      refine ⟨h [] j (by simp) s rfl, ?_⟩
      split
      · trivial
      · rename_i s₁ h₁
        refine ih.mpr fun pre i hpre s' hs' => h (j :: pre) i ?_ s' ?_
        · rw [List.cons_append, List.cons_prefix_cons]
          exact ⟨rfl, hpre⟩
        · rw [runs_cons h₁, hs']

lemma along_initial {C : σ → ι → Prop} {is pre : List ι} {s : σ} (h : Along step C is s)
    (hpre : pre <+: is) : Along step C pre s :=
  along_iff.mpr fun p i hp => along_iff.mp h p i (hp.trans hpre)

lemma along_mem {C : σ → ι → Prop} {is : List ι} (hC : ∀ i ∈ is, ∀ s, C s i) (s : σ) :
    Along step C is s := by
  rw [along_iff]
  intro pre i hpre s' _
  exact hC i (hpre.subset (by simp)) s'

lemma along_all {C : σ → ι → Prop} (hC : ∀ s i, C s i) (is : List ι) (s : σ) :
    Along step C is s := along_mem (fun i _ s => hC s i) s

theorem runs_inv (Inv : σ → Prop) (hstep : ∀ i s, Inv s → ∃ s', step i s = some s' ∧ Inv s')
    (is : List ι) {s : σ} (hs : Inv s) : ∃ s', runs step is s = some s' ∧ Inv s' :=
  runs_along (C := fun _ _ => True) Inv (fun i s h _ => hstep i s h) is hs
    (along_all (fun _ _ => trivial) is s)

/-- **Refinement of a run**: a step that never faults and does to what a state stands for what `f`
does makes runs that do what the fold of `f` does. -/
theorem runs_foldl {α : Type} {R : σ → α → Prop} {f : α → ι → α}
    (hstep : ∀ i s a, R s a → ∃ s', step i s = some s' ∧ R s' (f a i)) (is : List ι) {s : σ} {a : α}
    (h : R s a) : ∃ s', runs step is s = some s' ∧ R s' (is.foldl f a) := by
  induction is generalizing s a with
  | nil => exact ⟨s, rfl, h⟩
  | cons i is ih =>
    obtain ⟨s₁, h₁, hR₁⟩ := hstep i s a h
    obtain ⟨s', hs', hR⟩ := ih hR₁
    exact ⟨s', by rw [runs_cons h₁, hs'], hR⟩

end Steps

section Logs

variable {ε : Type} (P : List ε → ε → Prop)

/-- Every event of the log stands in the relation `P` to the events before it; `past` is what
came before the log. -/
def Always : List ε → List ε → Prop
  | _, [] => True
  | past, e :: l => P past e ∧ Always (past ++ [e]) l

instance Always.decidable [∀ l e, Decidable (P l e)] :
    ∀ past l, Decidable (Always P past l)
  | _, [] => isTrue trivial
  | past, e :: l =>
    have := Always.decidable (past ++ [e]) l
    inferInstanceAs (Decidable (_ ∧ _))

variable {P}

lemma always_append {past l₁ l₂ : List ε} :
    Always P past (l₁ ++ l₂) ↔ Always P past l₁ ∧ Always P (past ++ l₁) l₂ := by
  induction l₁ generalizing past with
  | nil => simp [Always]
  | cons e l ih => simp [Always, ih, and_assoc]

lemma always_snoc {past l : List ε} {e : ε} :
    Always P past (l ++ [e]) ↔ Always P past l ∧ P (past ++ l) e := by
  simp [always_append, Always]

lemma always_behind {pre l : List ε} (hP : ∀ l e, P l e → P (pre ++ l) e) (h : Always P [] l) :
    Always P pre l := by
  have hshift : ∀ past, Always P past l → Always P (pre ++ past) l := by
    clear h
    induction l with
    | nil => exact fun _ _ => trivial
    | cons e l ih =>
      intro past h
      refine ⟨hP _ _ h.1, ?_⟩
      rw [List.append_assoc]
      exact ih _ h.2
  rw [← List.append_nil pre]
  exact hshift [] h

/-- `Always` read off the log: it holds at every place the log can be cut. -/
theorem always_iff {past l : List ε} :
    Always P past l ↔ ∀ pre e post, l = pre ++ e :: post → P (past ++ pre) e := by
  constructor
  · rintro h pre e post rfl
    exact (always_append.mp h).2.1
  · intro h
    induction l generalizing past with
    | nil => trivial
    | cons e l ih =>
      refine ⟨by simpa using h [] e l rfl, ih fun pre x post hl => ?_⟩
      have := h (e :: pre) x post (by rw [hl]; rfl)
      simpa using this

/-- A relation between events and those before them, carried over to a list that the log shows
the elements of, in their order. -/
lemma always_image {α δ : Type} {f : ε → Option α} {g : δ → α} {Q : List δ → δ → Prop}
    {log : List ε} {ds : List δ} (hlog : log.filterMap f = ds.map g)
    (hPQ : ∀ past e pre d, past.filterMap f = pre.map g → f e = some (g d) → P past e → Q pre d)
    (h : Always P [] log) : Always Q [] ds := by
  refine always_iff.mpr fun pre d post hds => ?_
  rw [hds, List.map_append, List.map_cons, List.filterMap_eq_append_iff] at hlog
  obtain ⟨l₁, l₂, rfl, hpre, hrest⟩ := hlog
  obtain ⟨mid, e, l₃, rfl, hmid, he, -⟩ := List.filterMap_eq_cons_iff.mp hrest
  have hP : P ([] ++ (l₁ ++ mid)) e := always_iff.mp h (l₁ ++ mid) e l₃ (by simp)
  refine hPQ (l₁ ++ mid) e pre d ?_ he hP
  rw [List.filterMap_append, hpre, List.filterMap_eq_nil_iff.mpr hmid, List.append_nil]

end Logs

section Outputs

variable {σ ε ο : Type} (next : σ → ε → σ) (out : σ → ε → List ο)

def outputs : σ → List ε → List ο
  | _, [] => []
  | s, e :: l => out s e ++ outputs (next s e) l

variable {next out}

lemma outputs_append (s : σ) (l₁ l₂ : List ε) :
    outputs next out s (l₁ ++ l₂) =
      outputs next out s l₁ ++ outputs next out (l₁.foldl next s) l₂ := by
  induction l₁ generalizing s with
  | nil => rfl
  | cons e l ih => simp [outputs, ih]

lemma foldl_idle {l : List ε} (h : ∀ e ∈ l, ∀ s, next s e = s) (s : σ) : l.foldl next s = s := by
  induction l generalizing s with
  | nil => rfl
  | cons e l ih =>
    rw [List.foldl_cons, h e (by simp)]
    exact ih (fun x hx => h x (by simp [hx])) s

lemma outputs_silent {l : List ε} (h : ∀ e ∈ l, ∀ s, out s e = []) (s : σ) :
    outputs next out s l = [] := by
  induction l generalizing s with
  | nil => rfl
  | cons e l ih =>
    rw [outputs, h e (by simp), List.nil_append]
    exact ih (fun x hx => h x (by simp [hx])) _

end Outputs

end Csockets.Runs
