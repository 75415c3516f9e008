import Mathlib

/-!
Seats and keys: a fixed set of seats, each of which may hold a key, and a table of the keys in
use, each with an owner. A seat also remembers the owner it was taken for. Keys may be used
again after they were given back, owners may not be shared.
-/

namespace Csockets.Seats

variable {ι κ γ : Type*}

/-- The seats hold exactly the keys in use, each once, and for the owners they were taken for. -/
structure Seated (held : ι → Option κ) (file : κ → Option γ) (owner : ι → Option γ) : Prop where
  owned : ∀ i k, held i = some k → ∃ c, file k = some c ∧ owner i = some c
  seat : ∀ k c, file k = some c → ∃ i, held i = some k
  distinct : ∀ i j k, held i = some k → held j = some k → i = j
  single : ∀ k k' c, file k = some c → file k' = some c → k = k'

namespace Seated

variable {held : ι → Option κ} {file : κ → Option γ} {owner : ι → Option γ}

lemma empty (owner : ι → Option γ) :
    Seated (fun _ => none) (fun _ : κ => none) owner where
  owned i k h := by cases h
  seat k c h := by cases h
  distinct i j k h := by cases h
  single k k' c h := by cases h

lemma file_ne_none_iff (h : Seated held file owner) (k : κ) :
    file k ≠ none ↔ ∃ i, held i = some k := by
  constructor
  · intro hk
    obtain ⟨c, hc⟩ := Option.ne_none_iff_exists'.mp hk
    exact h.seat k c hc
  · rintro ⟨i, hi⟩
    obtain ⟨c, hc, -⟩ := h.owned i k hi
    rw [hc]
    exact Option.some_ne_none c

lemma owner_distinct (h : Seated held file owner) {i j : ι} {k k' : κ} (hi : held i = some k)
    (hj : held j = some k') (hkk : file k = file k') : i = j := by
  obtain ⟨c, hc, -⟩ := h.owned i k hi
  obtain rfl := h.single k k' c hc (hkk ▸ hc)
  exact h.distinct i j k hi hj

end Seated

variable {α β : Type*} [DecidableEq α] {f : α → Option β} {a x : α} {v y : β}

lemma update_none_iff : Function.update f a none x = some y ↔ x ≠ a ∧ f x = some y := by
  by_cases hx : x = a
  · subst hx
    simp
  · simp [hx]

lemma update_some_iff :
    Function.update f a (some v) x = some y ↔ (x = a ∧ v = y) ∨ (x ≠ a ∧ f x = some y) := by
  by_cases hx : x = a
  · subst hx
    simp
  · simp [hx]

namespace Seated

variable [DecidableEq ι] [DecidableEq κ] {held : ι → Option κ} {file : κ → Option γ}
  {owner : ι → Option γ}

theorem leave (h : Seated held file owner) {i : ι} {k : κ} (hi : held i = some k) :
    Seated (Function.update held i none) (Function.update file k none) owner where
  owned j k' hj := by
    obtain ⟨hji, hj⟩ := update_none_iff.mp hj
    obtain ⟨c, hc, ho⟩ := h.owned j k' hj
    have hkk : k' ≠ k := by
      rintro rfl
      exact hji (h.distinct j i k' hj hi)
    exact ⟨c, update_none_iff.mpr ⟨hkk, hc⟩, ho⟩
  seat k' c hk' := by
    obtain ⟨hkk, hk'⟩ := update_none_iff.mp hk'
    obtain ⟨j, hj⟩ := h.seat k' c hk'
    have hji : j ≠ i := by
      rintro rfl
      exact hkk (Option.some.inj (hj.symm.trans hi))
    exact ⟨j, update_none_iff.mpr ⟨hji, hj⟩⟩
  distinct j j' k' hj hj' :=
    h.distinct j j' k' (update_none_iff.mp hj).2 (update_none_iff.mp hj').2
  single k₁ k₂ c h₁ h₂ := h.single k₁ k₂ c (update_none_iff.mp h₁).2 (update_none_iff.mp h₂).2

theorem take (h : Seated held file owner) {i : ι} {k : κ} {c : γ} (hi : held i = none)
    (hk : file k = none) (hc : ∀ k', file k' ≠ some c) :
    Seated (Function.update held i (some k)) (Function.update file k (some c))
      (Function.update owner i (some c)) where
  owned j k' hj := by
    rcases update_some_iff.mp hj with ⟨rfl, rfl⟩ | ⟨hji, hj⟩
    · exact ⟨c, Function.update_self .., Function.update_self ..⟩
    · obtain ⟨d, hd, ho⟩ := h.owned j k' hj
      have hkk : k' ≠ k := by
        rintro rfl
        simp [hk] at hd
      exact ⟨d, update_some_iff.mpr (Or.inr ⟨hkk, hd⟩), update_some_iff.mpr (Or.inr ⟨hji, ho⟩)⟩
  seat k' d hd := by
    rcases update_some_iff.mp hd with ⟨rfl, rfl⟩ | ⟨hkk, hd⟩
    · exact ⟨i, Function.update_self ..⟩
    · obtain ⟨j, hj⟩ := h.seat k' d hd
      have hji : j ≠ i := by
        rintro rfl
        simp [hi] at hj
      exact ⟨j, update_some_iff.mpr (Or.inr ⟨hji, hj⟩)⟩
  distinct j j' k' hj hj' := by
    -- no other seat holds the key
    have hother : ∀ j, held j ≠ some k := by
      intro j hj
      obtain ⟨d, hd, -⟩ := h.owned j k hj
      simp [hk] at hd
    rcases update_some_iff.mp hj with ⟨rfl, rfl⟩ | ⟨-, hj⟩
    · rcases update_some_iff.mp hj' with ⟨rfl, -⟩ | ⟨-, hj'⟩
      · rfl
      · exact absurd hj' (hother j')
    · rcases update_some_iff.mp hj' with ⟨-, rfl⟩ | ⟨-, hj'⟩
      · exact absurd hj (hother j)
      · exact h.distinct j j' k' hj hj'
  single k₁ k₂ d h₁ h₂ := by
    rcases update_some_iff.mp h₁ with ⟨rfl, rfl⟩ | ⟨-, h₁⟩
    · rcases update_some_iff.mp h₂ with ⟨rfl, -⟩ | ⟨-, h₂⟩
      · rfl
      · exact absurd h₂ (hc k₂)
    · rcases update_some_iff.mp h₂ with ⟨-, rfl⟩ | ⟨-, h₂⟩
      · exact absurd h₁ (hc k₁)
      · exact h.single k₁ k₂ d h₁ h₂

end Seated

end Csockets.Seats
