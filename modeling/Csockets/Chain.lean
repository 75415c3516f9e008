import Csockets.Blocks

/-!
Doubly linked chains of nodes in a memory of blocks.

A chain is described by the list of its nodes, address and value, in order. `Seg` says that
the nodes of a list are in the memory and point at each other, between a given pointer in
front and a given pointer behind; `Holds` says that a memory consists of one null-terminated
chain and of nothing else. What a program does to the links is then a fact about lists.
-/

namespace Csockets.Chain

open Blocks

structure Node (β : Type*) where
  val : β
  next : Ptr
  prev : Ptr

variable {β : Type*}

/-- The address of the first node of `l`, or `fwd` when there is none. -/
def hd (fwd : Ptr) : List (ℕ × β) → Ptr
  | [] => fwd
  | (a, _) :: _ => some a

def lst (back : Ptr) : List (ℕ × β) → Ptr
  | [] => back
  | (a, _) :: l => lst (some a) l

/-- The nodes of `l` lie in the cells `c`, each pointing to its neighbours. -/
def Seg (c : ℕ → Option (Node β)) : Ptr → List (ℕ × β) → Ptr → Prop
  | _, [], _ => True
  | back, (a, v) :: l, fwd => c a = some ⟨v, hd fwd l, back⟩ ∧ Seg c (some a) l fwd

@[simp] lemma hd_nil (fwd : Ptr) : hd fwd ([] : List (ℕ × β)) = fwd := rfl
@[simp] lemma hd_cons (fwd : Ptr) (x : ℕ × β) (l) : hd fwd (x :: l) = some x.1 := rfl
@[simp] lemma lst_nil (back : Ptr) : lst back ([] : List (ℕ × β)) = back := rfl
@[simp] lemma lst_cons (back : Ptr) (x : ℕ × β) (l) : lst back (x :: l) = lst (some x.1) l :=
  rfl

lemma hd_append (fwd : Ptr) (l₁ l₂ : List (ℕ × β)) :
    hd fwd (l₁ ++ l₂) = hd (hd fwd l₂) l₁ := by
  cases l₁ <;> rfl

lemma lst_append (back : Ptr) (l₁ l₂ : List (ℕ × β)) :
    lst back (l₁ ++ l₂) = lst (lst back l₁) l₂ := by
  induction l₁ generalizing back with
  | nil => rfl
  | cons x l ih => simpa using ih (some x.1)

lemma hd_eq_none {l : List (ℕ × β)} : hd none l = none ↔ l = [] := by
  cases l <;> simp

lemma hd_none (l : List (ℕ × β)) : hd none l = l.head?.map Prod.fst := by
  cases l <;> rfl

lemma lst_none (l : List (ℕ × β)) : lst none l = l.getLast?.map Prod.fst := by
  induction l using List.reverseRecOn with
  | nil => rfl
  | append_singleton l x _ => simp [lst_append]

lemma lst_eq_none {l : List (ℕ × β)} (h : lst none l = none) : l = [] := by
  rw [lst_none, Option.map_eq_none_iff] at h
  exact List.getLast?_eq_none_iff.mp h

lemma lst_eq_some {l : List (ℕ × β)} {a : ℕ} (h : lst none l = some a) :
    ∃ l' v, l = l' ++ [(a, v)] := by
  rw [lst_none, Option.map_eq_some_iff] at h
  obtain ⟨⟨b, v⟩, hl, rfl⟩ := h
  obtain ⟨l', rfl⟩ := List.getLast?_eq_some_iff.mp hl
  exact ⟨l', v, rfl⟩

variable {c c' : ℕ → Option (Node β)} {back fwd : Ptr} {l l₁ l₂ : List (ℕ × β)}

@[simp] lemma seg_nil : Seg c back [] fwd := trivial

lemma seg_cons {a : ℕ} {v : β} :
    Seg c back ((a, v) :: l) fwd ↔ c a = some ⟨v, hd fwd l, back⟩ ∧ Seg c (some a) l fwd :=
  Iff.rfl

lemma seg_append :
    Seg c back (l₁ ++ l₂) fwd ↔ Seg c back l₁ (hd fwd l₂) ∧ Seg c (lst back l₁) l₂ fwd := by
  induction l₁ generalizing back with
  | nil => simp
  | cons x l ih =>
    obtain ⟨a, v⟩ := x
    rw [List.cons_append, seg_cons, seg_cons, ih, hd_append, lst_cons, and_assoc]

lemma seg_congr (h : Seg c back l fwd) (hc : ∀ a ∈ l.map Prod.fst, c' a = c a) :
    Seg c' back l fwd := by
  induction l generalizing back with
  | nil => trivial
  | cons x l ih =>
    obtain ⟨a, v⟩ := x
    obtain ⟨ha, hl⟩ := h
    exact ⟨by rw [hc a (by simp), ha], ih hl fun b hb => hc b (by simp at hb ⊢; tauto)⟩

lemma seg_at {a : ℕ} {v : β} (h : Seg c back (l₁ ++ (a, v) :: l₂) fwd) :
    c a = some ⟨v, hd fwd l₂, lst back l₁⟩ :=
  (seg_cons.mp (seg_append.mp h).2).1

lemma seg_live (h : Seg c back l fwd) {a : ℕ} (ha : a ∈ l.map Prod.fst) : (c a).isSome := by
  obtain ⟨⟨b, v⟩, hm, rfl⟩ := List.mem_map.mp ha
  obtain ⟨l₁, l₂, rfl⟩ := List.append_of_mem hm
  simp [seg_at h]

lemma seg_unique (h₁ : Seg c back l₁ none) (h₂ : Seg c back l₂ none)
    (hhd : hd none l₁ = hd none l₂) : l₁ = l₂ := by
  induction l₁ generalizing back l₂ with
  | nil =>
    cases l₂ with
    | nil => rfl
    | cons y l => cases hhd
  | cons x l₁ ih =>
    cases l₂ with
    | nil => cases hhd
    | cons y l₂ =>
      obtain ⟨a, v⟩ := x
      obtain ⟨b, w⟩ := y
      obtain rfl : a = b := Option.some.inj hhd
      obtain ⟨ha, hl₁⟩ := h₁
      obtain ⟨hb, hl₂⟩ := h₂
      have he : (⟨v, hd none l₁, back⟩ : Node β) = ⟨w, hd none l₂, back⟩ :=
        Option.some.inj (ha.symm.trans hb)
      obtain ⟨rfl, hnext, -⟩ := Node.mk.inj he
      rw [ih hl₁ hl₂ hnext]

lemma seg_refwd {fwd' : Ptr} (h : Seg c back l fwd) (hn : (l.map Prod.fst).Nodup)
    (hlast : ∀ a n, lst none l = some a → c a = some n → c' a = some { n with next := fwd' })
    (hrest : ∀ a ∈ l.map Prod.fst, lst none l ≠ some a → c' a = c a) :
    Seg c' back l fwd' := by
  induction l using List.reverseRecOn with
  | nil => trivial
  | append_singleton l x _ =>
    obtain ⟨a, v⟩ := x
    have hlst : lst none (l ++ [(a, v)]) = some a := by simp [lst_append]
    obtain ⟨hl, ha, -⟩ := seg_append.mp h
    refine seg_append.mpr
      ⟨seg_congr hl fun b hb => hrest b (by simp at hb ⊢; tauto) ?_, ?_, trivial⟩
    · rw [hlst, Ne, Option.some.injEq]
      rintro rfl
      rw [List.map_append, List.nodup_append] at hn
      exact hn.2.2 a hb a (by simp) rfl
    · exact hlast a _ hlst ha

/-- **Taking a node out**: with the two neighbours relinked past it, the rest is a chain. -/
theorem seg_unlink {a b : ℕ} {v w : β}
    (h : Seg c none (l₁ ++ (a, v) :: (b, w) :: l₂) none)
    (hn : ((l₁ ++ (a, v) :: (b, w) :: l₂).map Prod.fst).Nodup)
    (hnext : c' b = some ⟨w, hd none l₂, lst none l₁⟩)
    (hprev : ∀ p n, lst none l₁ = some p → c p = some n → c' p = some { n with next := some b })
    (hrest : ∀ x, x ≠ a → x ≠ b → lst none l₁ ≠ some x → c' x = c x) :
    Seg c' none (l₁ ++ (b, w) :: l₂) none := by
  obtain ⟨h₁, -, -, h₂⟩ := seg_append.mp h
  rw [List.map_append, List.nodup_append] at hn
  obtain ⟨hn₁, hn₂, hd₁₂⟩ := hn
  simp only [List.map_cons, List.nodup_cons, List.mem_cons, not_or] at hn₂
  refine seg_append.mpr ⟨seg_refwd h₁ hn₁ hprev fun x hx hx' => hrest x ?_ ?_ hx', hnext, ?_⟩
  · exact fun e => hd₁₂ x hx a (by simp) e
  · exact fun e => hd₁₂ x hx b (by simp) e
  · refine seg_congr h₂ fun x hx => hrest x ?_ ?_ fun e => ?_
    · rintro rfl
      exact hn₂.1.2 hx
    · rintro rfl
      exact hn₂.2.1 hx
    · rw [lst_none, Option.map_eq_some_iff] at e
      obtain ⟨y, hy, rfl⟩ := e
      exact hd₁₂ y.1 (List.mem_map_of_mem (List.mem_of_mem_getLast? hy)) y.1 (by simp [hx]) rfl

lemma seg_setVal {a : ℕ} {v v' : β} (h : Seg c back (l₁ ++ (a, v) :: l₂) fwd)
    (hn : ((l₁ ++ (a, v) :: l₂).map Prod.fst).Nodup)
    (ha : c' a = some ⟨v', hd fwd l₂, lst back l₁⟩) (hrest : ∀ x, x ≠ a → c' x = c x) :
    Seg c' back (l₁ ++ (a, v') :: l₂) fwd := by
  obtain ⟨h₁, -, h₂⟩ := seg_append.mp h
  rw [List.map_append, List.nodup_append] at hn
  obtain ⟨-, hn₂, hd₁₂⟩ := hn
  refine seg_append.mpr
    ⟨seg_congr h₁ fun x hx => hrest x ?_, ha, seg_congr h₂ fun x hx => hrest x ?_⟩
  · exact fun e => hd₁₂ x hx a (by simp) e
  · rintro rfl
    exact (List.nodup_cons.mp hn₂).1 hx

/-- The memory `m` is one chain, the nodes `L`, from `start` to `fin`. -/
structure Holds (m : Mem (Node β)) (start fin : Ptr) (L : List (ℕ × β)) : Prop where
  start : start = hd none L
  fin : fin = lst none L
  seg : Seg m.cell none L none
  nodup : (L.map Prod.fst).Nodup
  live : ∀ a, (m.cell a).isSome → a ∈ L.map Prod.fst

namespace Holds

variable {m m' : Mem (Node β)} {start fin : Ptr} {L : List (ℕ × β)}

lemma empty : Holds (Mem.empty : Mem (Node β)) none none [] :=
  ⟨rfl, rfl, trivial, by simp, by simp [Mem.empty]⟩

lemma live_iff (h : Holds m start fin L) (a : ℕ) : (m.cell a).isSome ↔ a ∈ L.map Prod.fst :=
  ⟨h.live a, seg_live h.seg⟩

lemma node {a : ℕ} {v : β} (h : Holds m start fin (l₁ ++ (a, v) :: l₂)) :
    m.cell a = some ⟨v, hd none l₂, lst none l₁⟩ :=
  seg_at h.seg

/-- There are fewer nodes than blocks ever allocated, so a walk has fuel enough. -/
lemma length_le (h : Holds m start fin L) : L.length ≤ m.next := by
  rw [← List.length_map Prod.fst]
  exact Mem.length_le_next h.nodup fun a ha => Option.isSome_iff_exists.mp (seg_live h.seg ha)

lemma unique {L' : List (ℕ × β)} (h : Holds m start fin L) (h' : Holds m start fin L') : L = L' :=
  seg_unique h.seg h'.seg (h.start.symm.trans h'.start)

lemma eq_nil_iff (h : Holds m start fin L) : start = none ↔ L = [] := by
  rw [h.start]
  exact hd_eq_none

lemma setVal {a : ℕ} {v v' : β} (h : Holds m start fin (l₁ ++ (a, v) :: l₂))
    (hm : m'.cell = Function.update m.cell a (some ⟨v', hd none l₂, lst none l₁⟩)) :
    Holds m' start fin (l₁ ++ (a, v') :: l₂) := by
  have hmap : (l₁ ++ (a, v') :: l₂).map Prod.fst = (l₁ ++ (a, v) :: l₂).map Prod.fst := by simp
  refine ⟨?_, ?_, ?_, by rw [hmap]; exact h.nodup, fun x hx => ?_⟩
  · rw [h.start, hd_append, hd_append, hd_cons, hd_cons]
  · rw [h.fin, lst_append, lst_append, lst_cons, lst_cons]
  · exact seg_setVal h.seg h.nodup (by simp [hm]) fun x hx => by simp [hm, hx]
  · rw [hmap]
    by_cases hxa : x = a
    · simp [hxa]
    · exact h.live x (by simpa [hm, hxa] using hx)

lemma unlink {a b : ℕ} {v w : β} (h : Holds m start fin (l₁ ++ (a, v) :: (b, w) :: l₂))
    (ha : m'.cell a = none) (hnext : m'.cell b = some ⟨w, hd none l₂, lst none l₁⟩)
    (hprev : ∀ p n, lst none l₁ = some p → m.cell p = some n →
      m'.cell p = some { n with next := some b })
    (hrest : ∀ x, x ≠ a → x ≠ b → lst none l₁ ≠ some x → m'.cell x = m.cell x) :
    Holds m' (hd none (l₁ ++ (b, w) :: l₂)) fin (l₁ ++ (b, w) :: l₂) := by
  have hsub : (l₁ ++ (b, w) :: l₂).Sublist (l₁ ++ (a, v) :: (b, w) :: l₂) := by simp
  refine ⟨rfl, ?_, seg_unlink h.seg h.nodup hnext hprev hrest, h.nodup.sublist (hsub.map _),
    fun x hx => ?_⟩
  · rw [h.fin, lst_append, lst_append, lst_cons, lst_cons, lst_cons]
  · have hxa : x ≠ a := by
      rintro rfl
      simp [ha] at hx
    have hold : (m.cell x).isSome → x ∈ (l₁ ++ (b, w) :: l₂).map Prod.fst := fun hc => by
      have := h.live x hc
      simp only [List.map_append, List.map_cons, List.mem_append, List.mem_cons] at this ⊢
      tauto
    by_cases hxb : x = b
    · simp [hxb]
    · by_cases hxp : lst none l₁ = some x
      · rw [lst_none, Option.map_eq_some_iff] at hxp
        obtain ⟨y, hy, rfl⟩ := hxp
        rw [List.map_append, List.mem_append]
        exact Or.inl (List.mem_map_of_mem (List.mem_of_getLast? hy))
      · exact hold (by rwa [hrest x hxa hxb hxp] at hx)

lemma snoc {a : ℕ} {v : β} (h : Holds m start fin L) (ha : m.cell a = none)
    (hnew : m'.cell a = some ⟨v, none, fin⟩)
    (hlast : ∀ p n, fin = some p → m.cell p = some n → m'.cell p = some { n with next := some a })
    (hrest : ∀ x, x ≠ a → fin ≠ some x → m'.cell x = m.cell x) :
    Holds m' (hd none (L ++ [(a, v)])) (some a) (L ++ [(a, v)]) := by
  have hfresh : ∀ x ∈ L.map Prod.fst, x ≠ a := fun x hx e => by
    subst e
    have := seg_live h.seg hx
    simp [ha] at this
  refine ⟨rfl, by simp [lst_append], ?_, ?_, fun x hx => ?_⟩
  · refine seg_append.mpr ⟨seg_refwd h.seg h.nodup ?_ ?_, by rw [← h.fin]; exact hnew, trivial⟩
    · rw [← h.fin]
      exact hlast
    · intro x hx hx'
      exact hrest x (hfresh x hx) (by rwa [h.fin])
  · rw [List.map_append]
    exact List.nodup_append.mpr ⟨h.nodup, by simp, fun x hx y hy => by
      simp only [List.map_cons, List.map_nil, List.mem_singleton] at hy
      rw [hy]
      exact hfresh x hx⟩
  · rw [List.map_append, List.mem_append]
    by_cases hxa : x = a
    · simp [hxa]
    · refine Or.inl (h.live x ?_)
      by_cases hxf : fin = some x
      · rw [h.fin, lst_none, Option.map_eq_some_iff] at hxf
        obtain ⟨y, hy, rfl⟩ := hxf
        exact seg_live h.seg (List.mem_map_of_mem (List.mem_of_getLast? hy))
      · rwa [hrest x hxa hxf] at hx

end Holds

end Csockets.Chain
