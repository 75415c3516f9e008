import Csockets.NetModel

/-!
`sockaddr_cmp` as an order: what it returns is how two keys of a linear order stand to each other.
For a family it does not know it reads as many bytes as it is told to, and may leave the storage.
-/

namespace Csockets.NetOrder

open Bytes NetModel

/-- The sign of a comparison is that of the order. -/
structure Ranks {κ : Type*} [LinearOrder κ] (x y : κ) (r : ℤ) : Prop where
  lt : r < 0 ↔ x < y
  eq : r = 0 ↔ x = y
  gt : 0 < r ↔ y < x

variable {κ : Type*} [LinearOrder κ] {x y : κ} {r : ℤ}

lemma Ranks.below (h : x < y) : Ranks x y (-1) :=
  ⟨by simp [h], by simp [h.ne], by simp [h.le]⟩

lemma Ranks.above (h : y < x) : Ranks x y 1 :=
  ⟨by simp [h.le], by simp [h.ne'], by simp [h]⟩

lemma Ranks.refl (x : κ) : Ranks x x 0 := by
  constructor <;> simp

lemma Ranks.field {m n : ℕ} (h : m = n → Ranks x y r) :
    Ranks (toLex (m, x)) (toLex (n, y)) (if m < n then -1 else if n < m then 1 else r) := by
  rcases lt_trichotomy m n with hmn | rfl | hmn
  · rw [if_pos hmn]
    exact .below (Prod.Lex.toLex_lt_toLex.mpr (Or.inl hmn))
  · obtain ⟨hlt, heq, hgt⟩ := h rfl
    rw [if_neg (lt_irrefl _), if_neg (lt_irrefl _)]
    constructor
    · rw [hlt, Prod.Lex.toLex_lt_toLex]
      simp
    · rw [heq]
      simp
    · rw [hgt, Prod.Lex.toLex_lt_toLex]
      simp
  · rw [if_neg hmn.not_gt, if_pos hmn]
    exact .above (Prod.Lex.toLex_lt_toLex.mpr (Or.inl hmn))

lemma memcmp_ranks {l k : List UInt8} (h : l.length = k.length) :
    Ranks (l.map UInt8.toNat) (k.map UInt8.toNat) (memcmp l k) := by
  induction l generalizing k with
  | nil =>
    obtain rfl := List.length_eq_zero_iff.mp h.symm
    exact .refl _
  | cons a l ih =>
    cases k with
    | nil => cases h
    | cons b k =>
      rw [List.map_cons, List.map_cons, memcmp]
      rcases lt_trichotomy a.toNat b.toNat with hab | hab | hab
      · rw [if_pos hab]
        exact .below (List.cons_lt_cons_iff.mpr (Or.inl hab))
      · obtain ⟨hlt, heq, hgt⟩ := ih (Nat.succ.inj h)
        rw [if_neg (by omega), if_neg (by omega), hab]
        constructor
        · rw [hlt, List.cons_lt_cons_iff]
          simp
        · rw [heq]
          simp
        · rw [hgt, List.cons_lt_cons_iff]
          simp
      · rw [if_neg hab.not_gt, if_pos hab]
        exact .above (List.cons_lt_cons_iff.mpr (Or.inl hab))

/-! ### The key of an address -/

def tail (len : ℕ) (a : Storage) : List UInt8 :=
  if sinFamily a = AF_INET then a.slice 4 sizeofSockaddrIn
  else if sinFamily a = AF_INET6 then a.slice 8 sizeofSockaddrIn6
  else a.slice 0 len

/-- An address of another family has no port. -/
def port (a : Storage) : ℕ :=
  if sinFamily a = AF_INET ∨ sinFamily a = AF_INET6 then sinPort a else 0

def key (len : ℕ) (a : Storage) : ℕ ×ₗ ℕ ×ₗ List ℕ :=
  toLex (sinFamily a, toLex (port a, (tail len a).map UInt8.toNat))

lemma tail_length (len : ℕ) {a b : Storage} (h : sinFamily a = sinFamily b) :
    (tail len a).length = (tail len b).length := by
  have ha := a.size
  have hb := b.size
  unfold tail Buf.slice
  rw [h]
  split_ifs <;> simp [ha, hb]

lemma sockaddrCmp_key (a b : Storage) (len : ℕ) :
    Ranks (key len a) (key len b) (sockaddrCmp a b len) := by
  unfold sockaddrCmp key
  refine Ranks.field fun hfamily => ?_
  have htail := memcmp_ranks (tail_length len hfamily)
  unfold port
  unfold tail at htail ⊢
  rw [← hfamily] at htail ⊢
  by_cases h4 : sinFamily a = AF_INET
  · simp only [h4, if_true, true_or] at htail ⊢
    exact Ranks.field fun _ => htail
  · by_cases h6 : sinFamily a = AF_INET6
    · have hne : AF_INET6 ≠ AF_INET := by decide
      simp only [h6, hne, if_true, if_false, or_true] at htail ⊢
      exact Ranks.field fun _ => htail
    · simp only [h4, h6, if_false, or_false] at htail ⊢
      exact Ranks.field fun _ => htail

/-! ### The bytes it reads -/

def memcmpChecked (x y : List UInt8) (n : ℕ) : Option ℤ := do
  let x ← readN x n
  let y ← readN y n
  some (memcmp x y)

/-- `sockaddr_cmp` with every read checked. -/
def sockaddrCmpChecked (addr1 addr2 : Storage) (len : ℕ) : Option ℤ :=
  if sinFamily addr1 < sinFamily addr2 then some (-1)
  else if sinFamily addr2 < sinFamily addr1 then some 1
  else if sinFamily addr1 = AF_INET then
    if sinPort addr1 < sinPort addr2 then some (-1)
    else if sinPort addr2 < sinPort addr1 then some 1
    else memcmpChecked (addr1.bytes.drop 4) (addr2.bytes.drop 4) sizeofSockaddrIn
  else if sinFamily addr1 = AF_INET6 then
    if sinPort addr1 < sinPort addr2 then some (-1)
    else if sinPort addr2 < sinPort addr1 then some 1
    else memcmpChecked (addr1.bytes.drop 8) (addr2.bytes.drop 8) sizeofSockaddrIn6
  else memcmpChecked addr1.bytes addr2.bytes len

/-- Two addresses of one family, that is neither of the two it knows, and a length that is too
large for them. -/
def Overreads (a b : Storage) (len : ℕ) : Prop :=
  sinFamily a = sinFamily b ∧ sinFamily a ≠ AF_INET ∧ sinFamily a ≠ AF_INET6 ∧
    sizeofSockaddrStorage < len

instance (a b : Storage) (len : ℕ) : Decidable (Overreads a b len) :=
  inferInstanceAs (Decidable (_ ∧ _))

lemma memcmpChecked_fits (a b : Storage) {off n : ℕ} (h : off + n ≤ sizeofSockaddrStorage) :
    memcmpChecked (a.bytes.drop off) (b.bytes.drop off) n =
      some (memcmp (a.slice off n) (b.slice off n)) := by
  have ha : n ≤ (a.bytes.drop off).length := by
    rw [List.length_drop, a.size]
    omega
  have hb : n ≤ (b.bytes.drop off).length := by
    rw [List.length_drop, b.size]
    omega
  unfold memcmpChecked
  rw [readN_of_le ha, readN_of_le hb]
  rfl

lemma memcmpChecked_short (a b : Storage) {n : ℕ} (h : sizeofSockaddrStorage < n) :
    memcmpChecked a.bytes b.bytes n = none := by
  have hshort : ¬ n ≤ a.bytes.length := by
    rw [a.size]
    omega
  unfold memcmpChecked readN
  rw [if_neg hshort]
  rfl

lemma sockaddrCmpChecked_overreads {a b : Storage} {len : ℕ} (h : Overreads a b len) :
    sockaddrCmpChecked a b len = none := by
  obtain ⟨hfamily, h4, h6, hlen⟩ := h
  unfold sockaddrCmpChecked
  rw [if_neg hfamily.not_lt, if_neg hfamily.not_gt, if_neg h4, if_neg h6]
  exact memcmpChecked_short a b hlen

lemma sockaddrCmpChecked_fits {a b : Storage} {len : ℕ} (h : ¬ Overreads a b len) :
    sockaddrCmpChecked a b len = some (sockaddrCmp a b len) := by
  unfold sockaddrCmpChecked sockaddrCmp
  rw [memcmpChecked_fits a b (by decide), memcmpChecked_fits a b (by decide)]
  split_ifs with hlt hgt h4 _ _ h6
  all_goals try rfl
  -- of another family, and then the length has to fit
  have hfamily : sinFamily a = sinFamily b := le_antisymm (not_lt.mp hgt) (not_lt.mp hlt)
  have hlen : len ≤ sizeofSockaddrStorage := not_lt.mp fun hlen => h ⟨hfamily, h4, h6, hlen⟩
  exact memcmpChecked_fits a b ((Nat.zero_add len).le.trans hlen)

/-- **A linear order**: for a given length `sockaddr_cmp` compares any two addresses as their keys
stand to each other, by family, then port, then the bytes from the address on. It reads past the
storages exactly when it is given two addresses of a family it does not know and a length that is
larger than they are. -/
theorem sockaddrCmp_ranks (a b : Storage) (len : ℕ) :
    Ranks (key len a) (key len b) (sockaddrCmp a b len) ∧
      sockaddrCmpChecked a b len =
        if Overreads a b len then none else some (sockaddrCmp a b len) := by
  refine ⟨sockaddrCmp_key a b len, ?_⟩
  split_ifs with h
  · exact sockaddrCmpChecked_overreads h
  · exact sockaddrCmpChecked_fits h

end Csockets.NetOrder
