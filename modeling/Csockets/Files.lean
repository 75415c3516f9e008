import Csockets.Seats

/-!
A table of open descriptors.

A descriptor is a number that an opening is known by for as long as it is open; numbers are handed
out again, so what is open is named by how many openings there were before it. Closing a number
that is not open is a fault and returns `none`.
-/

namespace Csockets.Files

open Seats

/-- What each number stands for, how many openings there were, and the ones that are closed in
the order they were. -/
structure Table where
  file : ℤ → Option ℕ
  next : ℕ
  closed : List ℕ
  lt_next : ∀ fd i, file fd = some i → i < next
  single : ∀ fd fd' i, file fd = some i → file fd' = some i → fd = fd'
  gone : ∀ i, i ∈ closed ↔ i < next ∧ ∀ fd, file fd ≠ some i
  once : closed.Nodup

namespace Table

def empty : Table := ⟨fun _ => none, 0, [], by simp, by simp, by simp, List.nodup_nil⟩

def add (f : Table) (fd : ℤ) (hfd : f.file fd = none) : Table where
  file := Function.update f.file fd (some f.next)
  next := f.next + 1
  closed := f.closed
  lt_next fd' i h := by
    rcases update_some_iff.mp h with ⟨-, rfl⟩ | ⟨-, h⟩
    · exact Nat.lt_succ_self _
    · exact (f.lt_next fd' i h).trans (Nat.lt_succ_self _)
  single fd₁ fd₂ i h₁ h₂ := by
    rcases update_some_iff.mp h₁ with ⟨rfl, rfl⟩ | ⟨-, hf₁⟩
    · rcases update_some_iff.mp h₂ with ⟨rfl, -⟩ | ⟨-, hf₂⟩
      · rfl
      · exact absurd (f.lt_next fd₂ _ hf₂) (Nat.lt_irrefl _)
    · rcases update_some_iff.mp h₂ with ⟨rfl, rfl⟩ | ⟨-, hf₂⟩
      · exact absurd (f.lt_next fd₁ _ hf₁) (Nat.lt_irrefl _)
      · exact f.single fd₁ fd₂ i hf₁ hf₂
  gone i := by
    rw [f.gone]
    constructor
    · rintro ⟨hlt, hnone⟩
      refine ⟨hlt.trans (Nat.lt_succ_self _), fun fd' h => ?_⟩
      rcases update_some_iff.mp h with ⟨-, rfl⟩ | ⟨-, h⟩
      · exact Nat.lt_irrefl _ hlt
      · exact hnone fd' h
    · rintro ⟨hlt, hnone⟩
      have hne : i ≠ f.next := by
        rintro rfl
        exact hnone fd (Function.update_self ..)
      refine ⟨by omega, fun fd' h => hnone fd' (update_some_iff.mpr (Or.inr ⟨?_, h⟩))⟩
      rintro rfl
      simp [hfd] at h
  once := f.once

/-- `close` of a number that stands for the opening `i`. -/
def remove (f : Table) (fd : ℤ) (i : ℕ) (hfd : f.file fd = some i) : Table where
  file := Function.update f.file fd none
  next := f.next
  closed := f.closed ++ [i]
  lt_next fd' j h := f.lt_next fd' j (update_none_iff.mp h).2
  single fd₁ fd₂ j h₁ h₂ :=
    f.single fd₁ fd₂ j (update_none_iff.mp h₁).2 (update_none_iff.mp h₂).2
  gone j := by
    rw [List.mem_append, List.mem_singleton, f.gone]
    constructor
    · rintro (⟨hlt, hnone⟩ | rfl)
      · exact ⟨hlt, fun fd' h => hnone fd' (update_none_iff.mp h).2⟩
      · refine ⟨f.lt_next fd j hfd, fun fd' h => ?_⟩
        obtain ⟨hne, h⟩ := update_none_iff.mp h
        exact hne (f.single fd' fd j h hfd)
    · rintro ⟨hlt, hnone⟩
      by_cases hj : j = i
      · exact Or.inr hj
      · refine Or.inl ⟨hlt, fun fd' h => hnone fd' (update_none_iff.mpr ⟨?_, h⟩)⟩
        rintro rfl
        exact hj (Option.some.inj (h.symm.trans hfd))
  once := by
    refine List.nodup_append.mpr ⟨f.once, by simp, fun j hj k hk => ?_⟩
    rintro rfl
    rw [List.mem_singleton] at hk
    subst hk
    exact ((f.gone j).mp hj).2 fd hfd

/-- What a call that opens comes back with: the number the system chooses, which is one that is
not in use, or -1. -/
def openAt (f : Table) (fd : ℤ) : ℤ × Table :=
  if h : 0 ≤ fd ∧ f.file fd = none then (fd, f.add fd h.2) else (-1, f)

def close (f : Table) (fd : ℤ) : Option Table :=
  match h : f.file fd with
  | none => none
  | some i => some (f.remove fd i h)

def closeEach (fds : List ℤ) (f : Table) : Option Table := fds.foldlM close f

variable {f : Table} {fd : ℤ} {i : ℕ}

lemma close_open (h : f.file fd = some i) : f.close fd = some (f.remove fd i h) := by
  unfold close
  split
  · rename_i hnone
    cases h.symm.trans hnone
  · rename_i j hj
    obtain rfl := Option.some.inj (h.symm.trans hj)
    rfl

lemma closeEach_take_succ {fds : List ℤ} {n : ℕ} {f' f₁ : Table} (hall : closeEach fds f = some f')
    (hfd : fds[n]? = some fd) (h : closeEach (fds.take n) f = some f₁) :
    ∃ f₂, f₁.close fd = some f₂ ∧ closeEach (fds.take (n + 1)) f = some f₂ := by
  obtain ⟨hn, hget⟩ := List.getElem?_eq_some_iff.mp hfd
  have htake : fds.take (n + 1) = fds.take n ++ [fd] := by
    rw [List.take_succ_eq_append_getElem hn, hget]
  unfold closeEach at h hall ⊢
  have hsplit : fds = fds.take (n + 1) ++ fds.drop (n + 1) := (List.take_append_drop _ _).symm
  rw [hsplit, htake, List.foldlM_append, List.foldlM_append, h] at hall
  rw [htake, List.foldlM_append, h]
  cases hclose : f₁.close fd with
  | none => simp [hclose] at hall
  | some f₂ => exact ⟨f₂, rfl, by simp [hclose]⟩

lemma count_closed_open (h : f.file fd = some i) : f.closed.count i = 0 :=
  List.count_eq_zero_of_not_mem fun hi => ((f.gone i).mp hi).2 fd h

lemma count_closed_gone (hi : i < f.next) (h : ∀ fd, f.file fd ≠ some i) :
    f.closed.count i = 1 :=
  List.count_eq_one_of_mem f.once ((f.gone i).mpr ⟨hi, h⟩)

end Table

/-! ### What has been opened since -/

/-- `f` is `f₀` with exactly the descriptors `fds` opened since. -/
structure Opened (f₀ f : Table) (fds : List ℤ) : Prop where
  new : ∀ fd ∈ fds, ∃ i, f.file fd = some i ∧ f₀.next ≤ i
  free : ∀ fd ∈ fds, f₀.file fd = none
  old : ∀ fd, fd ∉ fds → f.file fd = f₀.file fd
  distinct : fds.Nodup
  next : f₀.next ≤ f.next

variable {f f₀ : Table} {fd : ℤ} {fds pre post : List ℤ} {i : ℕ}

lemma Opened.refl (f : Table) : Opened f f [] :=
  ⟨by simp, by simp, fun _ _ => rfl, List.nodup_nil, le_rfl⟩

lemma Opened.add (h : Opened f₀ f fds) (hfd : f.file fd = none) :
    Opened f₀ (f.add fd hfd) (fds ++ [fd]) := by
  have hmem : fd ∉ fds := fun hm => by
    obtain ⟨i, hi, -⟩ := h.new fd hm
    simp [hfd] at hi
  refine ⟨fun fd' hm => ?_, fun fd' hm => ?_, fun fd' hm => ?_, ?_, ?_⟩
  · rw [List.mem_append, List.mem_singleton] at hm
    obtain hm | rfl := hm
    · obtain ⟨i, hi, hle⟩ := h.new fd' hm
      refine ⟨i, (Function.update_of_ne ?_ _ _).trans hi, hle⟩
      rintro rfl
      exact hmem hm
    · exact ⟨f.next, Function.update_self .., h.next⟩
  · rw [List.mem_append, List.mem_singleton] at hm
    obtain hm | rfl := hm
    · exact h.free fd' hm
    · rw [← h.old fd' hmem, hfd]
  · rw [List.mem_append, List.mem_singleton, not_or] at hm
    exact (Function.update_of_ne hm.2 _ _).trans (h.old fd' hm.1)
  · refine List.nodup_append.mpr ⟨h.distinct, by simp, fun x hx y hy => ?_⟩
    rw [List.mem_singleton.mp hy]
    exact ne_of_mem_of_not_mem hx hmem
  · exact h.next.trans (Nat.le_succ _)

lemma Opened.openAt (h : Opened f₀ f fds) (fd : ℤ) :
    f.openAt fd = (-1, f) ∨
      fd ≠ -1 ∧ ∃ f', f.openAt fd = (fd, f') ∧ Opened f₀ f' (fds ++ [fd]) := by
  unfold Table.openAt
  split
  · rename_i hfd
    exact Or.inr ⟨by omega, _, rfl, h.add hfd.2⟩
  · exact Or.inl rfl

lemma Opened.close (h : Opened f₀ f (pre ++ fd :: post)) :
    ∃ i f', f.file fd = some i ∧ f.close fd = some f' ∧ Opened f₀ f' (pre ++ post) ∧
      f'.file = Function.update f.file fd none ∧ f'.next = f.next ∧
      f'.closed = f.closed ++ [i] := by
  obtain ⟨i, hi, -⟩ := h.new fd (by simp)
  have hperm : (pre ++ fd :: post).Perm (fd :: (pre ++ post)) := List.perm_middle
  have hnodup := List.nodup_cons.mp (hperm.nodup h.distinct)
  refine ⟨i, _, hi, Table.close_open hi,
    ⟨fun fd' hm => ?_, fun fd' hm => ?_, fun fd' hm => ?_, hnodup.2, h.next⟩, rfl, rfl, rfl⟩
  · obtain ⟨j, hj, hle⟩ := h.new fd' (hperm.mem_iff.mpr (List.mem_cons_of_mem _ hm))
    refine ⟨j, (Function.update_of_ne ?_ _ _).trans hj, hle⟩
    rintro rfl
    exact hnodup.1 hm
  · exact h.free fd' (hperm.mem_iff.mpr (List.mem_cons_of_mem _ hm))
  · by_cases hfd : fd' = fd
    · subst hfd
      rw [h.free fd' (by simp)]
      exact Function.update_self ..
    · refine (Function.update_of_ne hfd _ _).trans (h.old fd' fun hm' => ?_)
      exact (List.mem_cons.mp (hperm.mem_iff.mp hm')).elim hfd hm

lemma Opened.close_last (h : Opened f₀ f (fds ++ [fd])) :
    ∃ f', f.close fd = some f' ∧ Opened f₀ f' fds := by
  obtain ⟨-, f', -, hclose, h', -⟩ := h.close
  rw [List.append_nil] at h'
  exact ⟨f', hclose, h'⟩

theorem Opened.closeEach (h : Opened f₀ f fds) :
    ∃ f', Table.closeEach fds f = some f' ∧ Opened f₀ f' [] ∧ f'.next = f.next ∧
      f'.closed = f.closed ++ (fds.map f.file).reduceOption := by
  induction fds generalizing f with
  | nil => exact ⟨f, rfl, h, rfl, (List.append_nil _).symm⟩
  | cons fd fds ih =>
    have hfront : Opened f₀ f ([] ++ fd :: fds) := h
    obtain ⟨i, f₁, hi, hclose, h₁, hfile, hnext, hclosed⟩ := hfront.close
    obtain ⟨f', heach, h', hnext', hclosed'⟩ := ih h₁
    have hmap : fds.map f₁.file = fds.map f.file := by
      refine List.map_congr_left fun fd' hm => ?_
      rw [hfile, Function.update_of_ne]
      rintro rfl
      exact (List.nodup_cons.mp h.distinct).1 hm
    refine ⟨f', ?_, h', hnext'.trans hnext, ?_⟩
    · unfold Table.closeEach
      rw [List.foldlM_cons, hclose]
      exact heach
    · rw [hclosed', hmap, hclosed, List.map_cons, hi, List.reduceOption_cons_of_some,
        List.append_assoc]
      rfl

lemma Opened.file_eq (h : Opened f₀ f []) : f.file = f₀.file :=
  funext fun fd => h.old fd List.not_mem_nil

/-- **Each opening is accounted for**: it was closed once, or is open under one of the numbers. -/
theorem Opened.settled (h : Opened f₀ f fds) (hle : f₀.next ≤ i) (hlt : i < f.next) :
    f.closed.count i = 1 ∧ (fds.map f.file).count (some i) = 0 ∨
      f.closed.count i = 0 ∧ (fds.map f.file).count (some i) = 1 := by
  by_cases hex : ∃ fd ∈ fds, f.file fd = some i
  · obtain ⟨fd, hm, hfd⟩ := hex
    have hnodup : (fds.map f.file).Nodup := by
      refine List.Nodup.map_on (fun x hx y hy hxy => ?_) h.distinct
      obtain ⟨j, hj, -⟩ := h.new x hx
      exact f.single x y j hj (hxy.symm.trans hj)
    exact Or.inr ⟨Table.count_closed_open hfd,
      List.count_eq_one_of_mem hnodup (List.mem_map.mpr ⟨fd, hm, hfd⟩)⟩
  · left
    refine ⟨Table.count_closed_gone hlt fun fd hfd => ?_,
      List.count_eq_zero_of_not_mem fun hm => ?_⟩
    · by_cases hm : fd ∈ fds
      · exact hex ⟨fd, hm, hfd⟩
      · -- an opening of before is older
        rw [h.old fd hm] at hfd
        exact absurd (f₀.lt_next fd i hfd) (Nat.not_lt.mpr hle)
    · obtain ⟨fd, hm, hfd⟩ := List.mem_map.mp hm
      exact hex ⟨fd, hm, hfd⟩

end Csockets.Files
