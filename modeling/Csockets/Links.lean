import Csockets.Chain

/-!
Singly linked, null-terminated chains in a memory of blocks.

As with doubly linked ones, a chain is described by the list of its nodes, address and value.
`Fresh` says that a memory is another one with a new chain, `Released` that it is another one
without a chain; both leave every other block alone.
-/

namespace Csockets.Links

open Blocks Chain

structure Node (β : Type*) where
  val : β
  next : Ptr

variable {β : Type*}

/-- The nodes of `l` lie in the cells `c`, each pointing to the next one. -/
def Seg (c : ℕ → Option (Node β)) : List (ℕ × β) → Ptr → Prop
  | [], _ => True
  | (a, v) :: l, fwd => c a = some ⟨v, hd fwd l⟩ ∧ Seg c l fwd

/-- The nodes met on the way from `p`, `k` at most. -/
def nodes (m : Mem (Node β)) : ℕ → Ptr → Option (List (ℕ × β))
  | _, none => some []
  | 0, some _ => none
  | k + 1, some a => do
    let n ← m.cell a
    let l ← nodes m k n.next
    some ((a, n.val) :: l)

/-- The node from `p` on that points to none. -/
def last (m : Mem (Node β)) : ℕ → Ptr → Option Ptr
  | 0, _ => none
  | k + 1, p => (m.load p).bind fun n => if n.next = none then some p else last m k n.next

def release : ℕ → Ptr → Mem (Node β) → Option (Mem (Node β))
  | _, none, m => some m
  | 0, some _, _ => none
  | k + 1, some a, m => do
    let n ← m.cell a
    let m ← m.free (some a)
    release k n.next m

def build : List β → Mem (Node β) → List (ℕ × β) × Mem (Node β)
  | [], m => ([], m)
  | v :: vs, m =>
    let (l, m) := build vs m
    let (a, m) := m.alloc ⟨v, hd none l⟩
    ((a, v) :: l, m)

variable {c c' : ℕ → Option (Node β)} {m m' m₀ : Mem (Node β)} {l l₁ l₂ : List (ℕ × β)}
  {fwd : Ptr}

lemma seg_cons {a : ℕ} {v : β} :
    Seg c ((a, v) :: l) fwd ↔ c a = some ⟨v, hd fwd l⟩ ∧ Seg c l fwd := Iff.rfl

lemma seg_append : Seg c (l₁ ++ l₂) fwd ↔ Seg c l₁ (hd fwd l₂) ∧ Seg c l₂ fwd := by
  induction l₁ with
  | nil => exact (true_and _).symm.to_iff
  | cons x l ih =>
    obtain ⟨a, v⟩ := x
    rw [List.cons_append, seg_cons, seg_cons, ih, hd_append, and_assoc]

lemma seg_congr (h : Seg c l fwd) (hc : ∀ a ∈ l.map Prod.fst, c' a = c a) : Seg c' l fwd := by
  induction l with
  | nil => trivial
  | cons x l ih =>
    obtain ⟨a, v⟩ := x
    obtain ⟨ha, hl⟩ := h
    refine ⟨(hc a (by simp)).trans ha, ih hl fun b hb => hc b ?_⟩
    rw [List.map_cons]
    exact List.mem_cons_of_mem _ hb

lemma seg_live (h : Seg c l fwd) {a : ℕ} (ha : a ∈ l.map Prod.fst) : ∃ n, c a = some n := by
  obtain ⟨⟨b, v⟩, hm, rfl⟩ := List.mem_map.mp ha
  obtain ⟨l₁, l₂, rfl⟩ := List.append_of_mem hm
  exact ⟨_, (seg_cons.mp (seg_append.mp h).2).1⟩

lemma seg_unique (h₁ : Seg c l₁ none) (h₂ : Seg c l₂ none) (hhd : hd none l₁ = hd none l₂) :
    l₁ = l₂ := by
  induction l₁ generalizing l₂ with
  | nil =>
    cases l₂ with
    | nil => rfl
    | cons y l => cases hhd
  | cons x l₁ ih =>
    cases l₂ with
    | nil => cases hhd
    | cons y l₂ =>
      obtain ⟨a, v⟩ := x
      obtain ⟨b, w⟩ := y
      obtain rfl : a = b := Option.some.inj hhd
      obtain ⟨ha, hl₁⟩ := h₁
      obtain ⟨hb, hl₂⟩ := h₂
      obtain ⟨rfl, hnext⟩ := Node.mk.inj (Option.some.inj (ha.symm.trans hb))
      rw [ih hl₁ hl₂ hnext]

/-- A chain that ends visits no node twice: it would be its own proper part. -/
lemma seg_nodup (h : Seg c l none) : (l.map Prod.fst).Nodup := by
  induction l with
  | nil => exact List.nodup_nil
  | cons x l ih =>
    obtain ⟨a, v⟩ := x
    refine List.nodup_cons.mpr ⟨fun ha => ?_, ih h.2⟩
    obtain ⟨⟨b, w⟩, hm, rfl⟩ := List.mem_map.mp ha
    obtain ⟨l₁, l₂, rfl⟩ := List.append_of_mem hm
    have heq := seg_unique h (seg_append.mp h.2).2 rfl
    have hlen := congrArg List.length heq
    simp only [List.length_cons, List.length_append] at hlen
    omega

lemma seg_lt_next (h : Seg m.cell l fwd) {a : ℕ} (ha : a ∈ l.map Prod.fst) : a < m.next := by
  obtain ⟨n, hn⟩ := seg_live h ha
  exact Mem.lt_next hn

lemma seg_length_le (h : Seg m.cell l none) : l.length ≤ m.next := by
  rw [← List.length_map Prod.fst]
  exact Mem.length_le_next (seg_nodup h) fun a ha => seg_live h ha

lemma seg_relink {a : ℕ} {v : β} (h : Seg c (l ++ [(a, v)]) none)
    (hc : c' = Function.update c a (some ⟨v, fwd⟩)) : Seg c' (l ++ [(a, v)]) fwd := by
  have hnodup := seg_nodup h
  rw [List.map_append, List.nodup_append] at hnodup
  subst hc
  refine seg_append.mpr ⟨seg_congr (seg_append.mp h).1 fun b hb => ?_, ?_, trivial⟩
  · exact Function.update_of_ne (hnodup.2.2 b hb a (by simp)) _ _
  · rw [Function.update_self]
    rfl

lemma nodes_seg (h : Seg m.cell l none) {k : ℕ} (hk : l.length ≤ k) :
    nodes m k (hd none l) = some l := by
  induction l generalizing k with
  | nil =>
    unfold nodes
    rfl
  | cons x l ih =>
    obtain ⟨a, v⟩ := x
    obtain ⟨ha, hl⟩ := h
    cases k with
    | zero => cases hk
    | succ k =>
      have htail := ih hl (Nat.le_of_succ_le_succ hk)
      simp only [hd_cons, nodes, ha, htail, Option.bind_eq_bind, Option.bind_some]

lemma last_seg {a : ℕ} {v : β} (h : Seg m.cell (l ++ [(a, v)]) none) {k : ℕ}
    (hk : l.length < k) : last m k (hd none (l ++ [(a, v)])) = some (some a) := by
  induction l generalizing k with
  | nil =>
    obtain ⟨ha, -⟩ := h
    cases k with
    | zero => cases hk
    | succ k => simp [last, ha]
  | cons x l ih =>
    obtain ⟨b, w⟩ := x
    obtain ⟨hb, hl⟩ := h
    cases k with
    | zero => cases hk
    | succ k =>
      have htail := ih hl (Nat.lt_of_succ_lt_succ hk)
      have hne : hd none (l ++ [(a, v)]) ≠ none := by
        cases l <;> exact Option.some_ne_none _
      simp [last, hb, hne, htail]

/-! ### New chains and released ones -/

/-- `m'` is `m` with a new chain. -/
structure Fresh (m m' : Mem (Node β)) (l : List (ℕ × β)) : Prop where
  seg : Seg m'.cell l none
  new : ∀ a ∈ l.map Prod.fst, m.next ≤ a
  old : ∀ a, a ∉ l.map Prod.fst → m'.cell a = m.cell a
  next : m.next ≤ m'.next
  freed : m'.freed = m.freed

/-- `m'` is `m` without a chain. -/
structure Released (m m' : Mem (Node β)) (l : List (ℕ × β)) : Prop where
  gone : ∀ a ∈ l.map Prod.fst, m'.cell a = none
  kept : ∀ a, a ∉ l.map Prod.fst → m'.cell a = m.cell a
  next : m'.next = m.next

lemma Fresh.refl (m : Mem (Node β)) : Fresh m m [] :=
  ⟨trivial, by simp, fun _ _ => rfl, le_rfl, rfl⟩

lemma Fresh.apart {m₁ m₂ : Mem (Node β)} (h₁ : Fresh m₀ m₁ l₁) (h₂ : Fresh m₁ m₂ l₂) :
    ∀ a ∈ l₁.map Prod.fst, a ∉ l₂.map Prod.fst := fun a ha₁ ha₂ =>
  absurd (seg_lt_next h₁.seg ha₁) (Nat.not_lt.mpr (h₂.new a ha₂))

lemma Fresh.stays {m₁ m₂ : Mem (Node β)} (h₁ : Fresh m₀ m₁ l₁) (h₂ : Fresh m₁ m₂ l₂) :
    Seg m₂.cell l₁ none :=
  seg_congr h₁.seg fun a ha => h₂.old a (h₁.apart h₂ a ha)

/-- **Joining**: behind a new chain comes another one, and the last node of the first is
pointed to it. -/
theorem Fresh.join {m₁ m₂ m₃ : Mem (Node β)} {a : ℕ} {v : β} (h₁ : Fresh m₀ m₁ (l₁ ++ [(a, v)]))
    (h₂ : Fresh m₁ m₂ l₂) (hcell : m₃.cell = Function.update m₂.cell a (some ⟨v, hd none l₂⟩))
    (hnext : m₃.next = m₂.next) (hfreed : m₃.freed = m₂.freed) :
    Fresh m₀ m₃ (l₁ ++ [(a, v)] ++ l₂) := by
  have ha : a ∈ (l₁ ++ [(a, v)]).map Prod.fst := by simp
  refine ⟨seg_append.mpr ⟨seg_relink (h₁.stays h₂) hcell, seg_congr h₂.seg fun b hb => ?_⟩,
    fun b hb => ?_, fun b hb => ?_, ?_, ?_⟩
  · rw [hcell, Function.update_of_ne]
    rintro rfl
    exact h₁.apart h₂ b ha hb
  · rw [List.map_append, List.mem_append] at hb
    obtain hb | hb := hb
    · exact h₁.new b hb
    · exact h₁.next.trans (h₂.new b hb)
  · rw [List.map_append, List.mem_append, not_or] at hb
    rw [hcell, Function.update_of_ne, h₂.old b hb.2, h₁.old b hb.1]
    rintro rfl
    exact hb.1 ha
  · rw [hnext]
    exact h₁.next.trans h₂.next
  · rw [hfreed, h₂.freed, h₁.freed]

lemma Fresh.released {m₁ m₂ : Mem (Node β)} (h₁ : Fresh m₀ m₁ l) (h₂ : Released m₁ m₂ l) :
    m₂.cell = m₀.cell := by
  funext a
  by_cases ha : a ∈ l.map Prod.fst
  · rw [h₂.gone a ha, m₀.fresh a (h₁.new a ha)]
  · rw [h₂.kept a ha, h₁.old a ha]

theorem Fresh.released_freed {m₁ m₂ : Mem (Node β)} (h₁ : Fresh m₀ m₁ l)
    (h₂ : Released m₁ m₂ l) : m₂.freed.Perm (m₀.freed ++ l.map Prod.fst) := by
  have hnodup : (m₀.freed ++ l.map Prod.fst).Nodup := by
    refine List.nodup_append.mpr ⟨m₀.once, seg_nodup h₁.seg, fun a ha b hb => ?_⟩
    rintro rfl
    have hlt := ((m₀.gone a).mp ha).1
    have hle := h₁.new a hb
    omega
  refine (List.perm_ext_iff_of_nodup m₂.once hnodup).mpr fun a => ?_
  rw [m₂.gone, h₂.next, List.mem_append]
  constructor
  · rintro ⟨hlt, hnone⟩
    by_cases ha : a ∈ l.map Prod.fst
    · exact Or.inr ha
    · rw [h₂.kept a ha] at hnone
      rw [← h₁.freed]
      exact Or.inl ((m₁.gone a).mpr ⟨hlt, hnone⟩)
  · rintro (ha | ha)
    · obtain ⟨hlt, hnone⟩ := (m₀.gone a).mp ha
      rw [h₁.released h₂]
      exact ⟨Nat.lt_of_lt_of_le hlt h₁.next, hnone⟩
    · exact ⟨seg_lt_next h₁.seg ha, h₂.gone a ha⟩

lemma release_seg (h : Seg m.cell l none) {k : ℕ} (hk : l.length ≤ k) :
    ∃ m', release k (hd none l) m = some m' ∧ Released m m' l := by
  induction l generalizing m k with
  | nil => exact ⟨m, by unfold release; rfl, by simp, fun _ _ => rfl, rfl⟩
  | cons x l ih =>
    obtain ⟨a, v⟩ := x
    have hnodup := List.nodup_cons.mp (seg_nodup h)
    obtain ⟨ha, hl⟩ := h
    cases k with
    | zero => cases hk
    | succ k =>
      obtain ⟨m₁, hfree, hcell, hnext, -⟩ := Mem.free_live ha
      have hl₁ : Seg m₁.cell l none := seg_congr hl fun b hb => by
        rw [hcell, Function.update_of_ne]
        rintro rfl
        exact hnodup.1 hb
      obtain ⟨m', hrest, hm'⟩ := ih hl₁ (Nat.le_of_succ_le_succ hk)
      refine ⟨m', ?_, fun b hb => ?_, fun b hb => ?_, hm'.next.trans hnext⟩
      · simp only [hd_cons, release, ha, hfree, hrest, Option.bind_eq_bind, Option.bind_some]
      · by_cases hbl : b ∈ l.map Prod.fst
        · exact hm'.gone b hbl
        · obtain rfl : b = a := by
            rw [List.map_cons, List.mem_cons] at hb
            exact hb.resolve_right hbl
          rw [hm'.kept b hbl, hcell, Function.update_self]
      · rw [List.map_cons, List.mem_cons, not_or] at hb
        rw [hm'.kept b hb.2, hcell, Function.update_of_ne hb.1]

lemma build_fresh (vs : List β) (m : Mem (Node β)) :
    Fresh m (build vs m).2 (build vs m).1 ∧ (build vs m).1.map Prod.snd = vs := by
  induction vs with
  | nil => exact ⟨Fresh.refl m, rfl⟩
  | cons v vs ih =>
    obtain ⟨⟨hseg, hnew, hold, hnext, hfreed⟩, hvals⟩ := ih
    have hcell := Mem.alloc_cell (build vs m).2 ⟨v, hd none (build vs m).1⟩
    refine ⟨⟨⟨?_, seg_congr hseg fun b hb => ?_⟩, fun b hb => ?_, fun b hb => ?_, ?_, hfreed⟩, ?_⟩
    · exact (congrFun hcell _).trans (Function.update_self _ _ _)
    · exact (congrFun hcell b).trans (Function.update_of_ne (seg_lt_next hseg hb).ne _ _)
    · rw [build, List.map_cons, List.mem_cons] at hb
      obtain rfl | hb := hb
      · exact hnext
      · exact hnew b hb
    · rw [build, List.map_cons, List.mem_cons, not_or] at hb
      exact ((congrFun hcell b).trans (Function.update_of_ne hb.1 _ _)).trans (hold b hb.2)
    · exact hnext.trans (Nat.le_succ _)
    · exact congrArg (v :: ·) hvals

end Csockets.Links
