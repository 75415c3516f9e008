import Mathlib

/-!
A memory of blocks, each holding one value of a type `α`.

This is the part of a C heap that `malloc`, `free` and pointers to one struct type reach.
A block is named by the number of its allocation and a name is never handed out twice, so
a pointer kept across a `free` never comes alive again. An access through a null or a dead
pointer is a fault, and a faulting operation returns `none`.
-/

namespace Csockets.Blocks

/-- A pointer to a block; `none` is the null pointer. -/
abbrev Ptr := Option ℕ

/-- The live blocks with what they hold, how many were ever allocated, and the dead ones in
the order they were freed. -/
structure Mem (α : Type*) where
  cell : ℕ → Option α
  next : ℕ
  freed : List ℕ
  fresh : ∀ a, next ≤ a → cell a = none
  gone : ∀ a, a ∈ freed ↔ a < next ∧ cell a = none
  once : freed.Nodup

namespace Mem

variable {α : Type*}

def empty : Mem α := ⟨fun _ => none, 0, [], by simp, by simp, by simp⟩

def load (m : Mem α) (p : Ptr) : Option α := p.bind m.cell

def alloc (m : Mem α) (v : α) : ℕ × Mem α :=
  (m.next,
    { cell := fun b => if b = m.next then some v else m.cell b
      next := m.next + 1
      freed := m.freed
      fresh := fun a ha => by
        rw [if_neg (by omega)]
        exact m.fresh a (by omega)
      gone := fun a => by
        rw [m.gone]
        by_cases h : a = m.next
        · simp [h]
        · simp only [if_neg h, and_congr_left_iff]
          omega
      once := m.once })

def store (m : Mem α) (p : Ptr) (v : α) : Option (Mem α) :=
  match p with
  | none => none
  | some a =>
    if h : (m.cell a).isSome then
      some
        { cell := fun b => if b = a then some v else m.cell b
          next := m.next
          freed := m.freed
          fresh := fun b hb => by
            rw [if_neg, m.fresh b hb]
            rintro rfl
            simp [m.fresh b hb] at h
          gone := fun b => by
            rw [m.gone]
            by_cases hb : b = a
            · subst hb
              simp [Option.isSome_iff_ne_none.mp h]
            · rw [if_neg hb]
          once := m.once }
    else none

/-- Read a block and write back what `f` makes of it: `p->field = ...`. -/
def modify (m : Mem α) (p : Ptr) (f : α → α) : Option (Mem α) := do
  let v ← m.load p
  m.store p (f v)

/-- `free`: nothing on the null pointer, a fault on a dead block. -/
def free (m : Mem α) (p : Ptr) : Option (Mem α) :=
  match p with
  | none => some m
  | some a =>
    if h : (m.cell a).isSome then
      some
        { cell := fun b => if b = a then none else m.cell b
          next := m.next
          freed := m.freed ++ [a]
          fresh := fun b hb => by
            rw [m.fresh b hb, ite_self]
          gone := fun b => by
            have hlt : a < m.next := by
              by_contra hc
              simp [m.fresh a (by omega)] at h
            rw [List.mem_append, List.mem_singleton, m.gone]
            by_cases hb : b = a
            · subst hb
              simp [hlt]
            · simp [hb]
          once := by
            refine List.nodup_append.mpr ⟨m.once, by simp, fun x hx y hy => ?_⟩
            rintro rfl
            rw [List.mem_singleton] at hy
            subst hy
            simp [((m.gone x).mp hx).2] at h }
    else none

@[simp] lemma load_some (m : Mem α) (a : ℕ) : m.load (some a) = m.cell a := rfl
@[simp] lemma alloc_fst (m : Mem α) (v : α) : (m.alloc v).1 = m.next := rfl
@[simp] lemma alloc_next (m : Mem α) (v : α) : (m.alloc v).2.next = m.next + 1 := rfl
@[simp] lemma alloc_cell (m : Mem α) (v : α) :
    (m.alloc v).2.cell = Function.update m.cell m.next (some v) := by
  funext b
  simp [alloc, Function.update_apply]

lemma lt_next {m : Mem α} {a : ℕ} {v : α} (h : m.cell a = some v) : a < m.next := by
  by_contra hc
  simp [m.fresh a (by omega)] at h

lemma length_le_next {m : Mem α} {l : List ℕ} (hn : l.Nodup)
    (hlive : ∀ a ∈ l, ∃ v, m.cell a = some v) : l.length ≤ m.next := by
  have hsub : l ⊆ List.range m.next := fun a ha => by
    obtain ⟨v, hv⟩ := hlive a ha
    exact List.mem_range.mpr (lt_next hv)
  have hle := (List.subperm_of_subset hn hsub).length_le
  rwa [List.length_range] at hle

lemma store_live {m : Mem α} {a : ℕ} {v : α} (h : m.cell a = some v) (w : α) :
    ∃ m', m.store (some a) w = some m' ∧ m'.cell = Function.update m.cell a (some w) ∧
      m'.next = m.next ∧ m'.freed = m.freed := by
  have hs : (m.cell a).isSome := by simp [h]
  refine ⟨_, dif_pos hs, ?_, rfl, rfl⟩
  funext b
  simp [Function.update_apply]

lemma modify_live {m : Mem α} {a : ℕ} {v : α} (h : m.cell a = some v) (f : α → α) :
    ∃ m', m.modify (some a) f = some m' ∧ m'.cell = Function.update m.cell a (some (f v)) ∧
      m'.next = m.next ∧ m'.freed = m.freed := by
  simpa [modify, h] using store_live h (f v)

lemma free_live {m : Mem α} {a : ℕ} {v : α} (h : m.cell a = some v) :
    ∃ m', m.free (some a) = some m' ∧ m'.cell = Function.update m.cell a none ∧
      m'.next = m.next ∧ m'.freed = m.freed ++ [a] := by
  have hs : (m.cell a).isSome := by simp [h]
  refine ⟨_, dif_pos hs, ?_, rfl, rfl⟩
  funext b
  simp [Function.update_apply]

/-- **No block is lost or freed twice**: an allocated block is live and was never freed, or
is dead and was freed exactly once. -/
theorem count_freed (m : Mem α) {a : ℕ} (ha : a < m.next) :
    m.freed.count a = if (m.cell a).isSome then 0 else 1 := by
  rcases hc : m.cell a with _ | v
  · have hmem : a ∈ m.freed := (m.gone a).mpr ⟨ha, hc⟩
    simpa using List.count_eq_one_of_mem m.once hmem
  · have hmem : a ∉ m.freed := fun h => by simp [((m.gone a).mp h).2] at hc
    simpa using List.count_eq_zero_of_not_mem hmem

end Mem

end Csockets.Blocks
