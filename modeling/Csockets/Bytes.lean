import Mathlib

/-!
Byte objects of a fixed size, as C reads and writes them: `char` arrays and structs taken
byte by byte. A write past the end of an object is a fault and returns `none`, and so is a
copy out of a source that is too short.
-/

namespace Csockets.Bytes

/-- An object of `n` bytes. -/
structure Buf (n : ℕ) where
  bytes : List UInt8
  size : bytes.length = n
  deriving DecidableEq

/-- The unsigned 16-bit field at an offset, low byte first. -/
def u16 (l : List UInt8) (off : ℕ) : ℕ := (l.getD off 0).toNat + 256 * (l.getD (off + 1) 0).toNat

/-- The first `k` bytes behind a pointer into an object that has `l` left. -/
def readN (l : List UInt8) (k : ℕ) : Option (List UInt8) :=
  if k ≤ l.length then some (l.take k) else none

/-- The sign of the first difference of two ranges of equal length. -/
def memcmp : List UInt8 → List UInt8 → ℤ
  | a :: x, b :: y =>
    if a.toNat < b.toNat then -1 else if b.toNat < a.toNat then 1 else memcmp x y
  | _, _ => 0

namespace Buf

variable {n : ℕ}

/-- The zeroed object with `l` copied to its start, as much of it as fits. -/
def init (n : ℕ) (l : List UInt8) : Buf n :=
  ⟨(l ++ List.replicate n 0).take n, by simp⟩

def zero (n : ℕ) : Buf n := init n []

instance : Inhabited (Buf n) := ⟨zero n⟩

def slice (b : Buf n) (off k : ℕ) : List UInt8 := (b.bytes.drop off).take k

def write (b : Buf n) (off : ℕ) (src : List UInt8) : Option (Buf n) :=
  if h : off + src.length ≤ n then
    some ⟨b.bytes.take off ++ src ++ b.bytes.drop (off + src.length), by
      have := b.size
      simp only [List.length_append, List.length_take, List.length_drop]
      omega⟩
  else none

lemma slice_length (b : Buf n) {off k : ℕ} (h : off + k ≤ n) : (b.slice off k).length = k := by
  have := b.size
  simp only [slice, List.length_take, List.length_drop]
  omega

lemma slice_append (b : Buf n) (off j k : ℕ) :
    b.slice off (j + k) = b.slice off j ++ b.slice (off + j) k := by
  simp [slice, List.take_add, List.drop_drop]

lemma write_fits (b : Buf n) (off : ℕ) (src : List UInt8) (h : off + src.length ≤ n) :
    ∃ b', b.write off src = some b' := ⟨_, dif_pos h⟩

lemma write_bytes {b b' : Buf n} {off : ℕ} {src : List UInt8} (h : b.write off src = some b') :
    off + src.length ≤ b.bytes.length ∧
      b'.bytes = b.bytes.take off ++ src ++ b.bytes.drop (off + src.length) := by
  unfold write at h
  split at h
  · rename_i hle
    cases h
    exact ⟨hle.trans_eq b.size.symm, rfl⟩
  · cases h

lemma take_write {b b' : Buf n} {off : ℕ} {src : List UInt8} (h : b.write off src = some b') :
    b'.bytes.take (off + src.length) = b.bytes.take off ++ src := by
  obtain ⟨hle, hbytes⟩ := write_bytes h
  rw [hbytes, List.take_append_of_le_length (by simp; omega), List.take_of_length_le (by simp)]

lemma write_prefix {b : Buf n} {pre src : List UInt8} (off k : ℕ) (hpre : b.bytes.take off = pre)
    (hsrc : src.length = k) (h : off + k ≤ n) :
    ∃ b', b.write off src = some b' ∧ b'.bytes.take (off + k) = pre ++ src := by
  subst hsrc
  obtain ⟨b', hb'⟩ := b.write_fits off src h
  exact ⟨b', hb', by rw [take_write hb', hpre]⟩

lemma take_write_lt {b b' : Buf n} {off k : ℕ} {src : List UInt8} (h : b.write off src = some b')
    (hk : k ≤ off) : b'.bytes.take k = b.bytes.take k := by
  obtain ⟨hle, hbytes⟩ := write_bytes h
  rw [hbytes, List.append_assoc, List.take_append_of_le_length (by simp; omega), List.take_take,
    min_eq_left hk]

lemma drop_write {b b' : Buf n} {off k : ℕ} {src : List UInt8} (h : b.write off src = some b')
    (hk : off + src.length ≤ k) : b'.bytes.drop k = b.bytes.drop k := by
  obtain ⟨hle, hbytes⟩ := write_bytes h
  have hlen : (b.bytes.take off ++ src).length = off + src.length := by
    rw [List.length_append, List.length_take]
    omega
  rw [hbytes, List.drop_append, hlen, List.drop_eq_nil_of_le (by omega), List.nil_append,
    List.drop_drop]
  congr 1
  omega

lemma init_slice_zero (n : ℕ) {l : List UInt8} {off k : ℕ} (hl : l.length ≤ off)
    (hk : off + k ≤ n) : (init n l).slice off k = List.replicate k 0 := by
  simp only [slice, init, List.drop_take, List.take_take]
  rw [List.drop_append, List.drop_eq_nil_of_le hl, List.nil_append, List.drop_replicate,
    List.take_replicate]
  congr 1
  omega

lemma init_slice (n : ℕ) {l : List UInt8} {off k : ℕ} (hl : off + k ≤ l.length)
    (hk : off + k ≤ n) : (init n l).slice off k = (l.drop off).take k := by
  simp only [slice, init, List.drop_take, List.take_take]
  rw [min_eq_left (by omega), List.drop_append_of_le_length (by omega),
    List.take_append_of_le_length (by simp; omega)]

end Buf

lemma memcmp_eq_zero_iff {x y : List UInt8} (h : x.length = y.length) :
    memcmp x y = 0 ↔ x = y := by
  induction x generalizing y with
  | nil => cases y <;> simp_all [memcmp]
  | cons a x ih =>
    cases y with
    | nil => simp at h
    | cons b y =>
      have ih := ih (y := y) (by simpa using h)
      rcases lt_trichotomy a.toNat b.toNat with hab | hab | hab
      · have hne : a ≠ b := fun e => by simp [e] at hab
        simp [memcmp, hab, hne]
      · obtain rfl := UInt8.toNat_inj.mp hab
        simp [memcmp, ih]
      · have hne : a ≠ b := fun e => by simp [e] at hab
        simp [memcmp, hab, hne, hab.not_gt]

lemma readN_of_le {l : List UInt8} {k : ℕ} (h : k ≤ l.length) : readN l k = some (l.take k) :=
  if_pos h

end Csockets.Bytes
