import Csockets.Bytes

/-!
The formatter of chat lines and notices (`udpchat/src/msg_formatter.c`).

Its result lives in a static buffer that every call writes again. A call that would write
past a buffer or read past the body returns `none`.
-/

namespace Csockets.FormatterModel

open Bytes

def MIN (a b : ℕ) : ℕ := if a < b then a else b

/-- Digits in an id (including '\0'). -/
def MSG_ID_LEN : ℕ := 4
def MSG_F_LEN : ℕ := 3
def MSG_BODY_LEN : ℕ := 127
def MSG_TOTAL_LEN : ℕ := 1 + (MSG_ID_LEN - 1) + (MSG_F_LEN - 1) + MSG_BODY_LEN + 0

def subSize (a b : ℕ) : ℕ := (a + 2 ^ 64 - b) % 2 ^ 64

def newline : UInt8 := '\n'.toUInt8

def separator : List UInt8 := "| ".toList.map Char.toUInt8

/-- The characters `printf("%3u", n)` prints. -/
def printf3u (n : ℕ) : List UInt8 :=
  List.leftpad 3 ' '.toUInt8 ((Nat.toDigits 10 n).map Char.toUInt8)

/-- `snprintf` into a whole buffer: what fits of the text, and a terminator. -/
def snprintf {n : ℕ} (b : Buf n) (text : List UInt8) : Option (Buf n) :=
  b.write 0 (text.take (n - 1) ++ [0])

/-- The two static buffers. -/
structure Fmt where
  returnBuffer : Buf MSG_TOTAL_LEN
  idBuffer : Buf MSG_ID_LEN
  deriving DecidableEq, Inhabited

/-- The buffers after the call, the result being `returnBuffer`, and the new `*len`. -/
def msgFormatter (f : Fmt) (senderId _receiverId : UInt16) (body : Option (List UInt8))
    (len : ℕ) : Option (Fmt × ℕ) :=
  match body with
  | none => do
    let returnBuffer ← f.returnBuffer.write (MSG_TOTAL_LEN - 1) [newline]
    some ({ f with returnBuffer := returnBuffer }, 0)
  | some body => do
    -- Copy id to start of buffer without terminator.
    let idBuffer ← snprintf f.idBuffer (printf3u (senderId.toNat % 999))
    let returnBuffer ← f.returnBuffer.write 0 (idBuffer.bytes.take (MSG_ID_LEN - 1))
    let free := MSG_ID_LEN - 1
    -- Copy format string after id without terminator.
    let returnBuffer ← returnBuffer.write free (separator.take (MSG_F_LEN - 1))
    let free := free + (MSG_F_LEN - 1)
    -- Copy body after format string without newline and add newline.
    let src ← readN body (subSize (MIN len MSG_BODY_LEN) 1)
    let returnBuffer ← returnBuffer.write free src
    let free := free + subSize (MIN len MSG_BODY_LEN) 1
    let returnBuffer ← returnBuffer.write free [newline]
    let free := free + 1
    -- Put terminator at the end.
    let returnBuffer ← returnBuffer.write (MSG_TOTAL_LEN - 1) [newline]
    some (⟨returnBuffer, idBuffer⟩, free)

/-! ### What it writes -/

/-- How much of a body of `len` bytes is copied. -/
def kept (len : ℕ) : ℕ := MIN len MSG_BODY_LEN - 1

def line (senderId : UInt16) (body : List UInt8) (len : ℕ) : List UInt8 :=
  printf3u (senderId.toNat % 999) ++ separator ++ body.take (kept len) ++ [newline]

lemma subSize_one {a : ℕ} (h₀ : 1 ≤ a) (h₁ : a ≤ 2 ^ 64) : subSize a 1 = a - 1 := by
  unfold subSize
  rw [show a + 2 ^ 64 - 1 = (a - 1) + 2 ^ 64 by omega, Nat.add_mod_right,
    Nat.mod_eq_of_lt (by omega)]

lemma MIN_eq (a b : ℕ) : MIN a b = min a b := by
  unfold MIN
  split <;> omega

lemma subSize_MIN {len : ℕ} (h : 1 ≤ len) : subSize (MIN len MSG_BODY_LEN) 1 = kept len := by
  have hb : MSG_BODY_LEN = 127 := rfl
  rw [kept, MIN_eq]
  exact subSize_one (by omega) (by omega)

lemma kept_le (len : ℕ) : kept len ≤ 126 := by
  have hb : MSG_BODY_LEN = 127 := rfl
  rw [kept, MIN_eq]
  omega

lemma printf3u_length {n : ℕ} (h : n < 1000) : (printf3u n).length = 3 := by
  have hd : (Nat.toDigits 10 n).length ≤ 3 :=
    (Nat.length_toDigits_le_iff (by omega) (by omega)).mpr (by omega)
  simp only [printf3u, List.leftpad, List.length_append, List.length_replicate, List.length_map]
  omega

lemma printf3u_id (id : UInt16) : (printf3u (id.toNat % 999)).length = 3 :=
  printf3u_length (by omega)

/-- The number a decimal with leading blanks stands for. -/
def readDecimal (text : List UInt8) : ℕ :=
  text.foldl (fun n b => if b = ' '.toUInt8 then n else 10 * n + (b.toNat - '0'.toNat)) 0

lemma digit_toUInt8 {c : Char} (h : c.isDigit) :
    c.toUInt8.toNat = c.toNat ∧ c.toUInt8 ≠ ' '.toUInt8 ∧ c.toUInt8 ≠ newline := by
  have hd : 48 ≤ c.toNat ∧ c.toNat ≤ 57 := by
    unfold Char.isDigit at h
    simp only [Bool.and_eq_true, decide_eq_true_eq] at h
    exact h
  have hc : c.toUInt8.toNat = c.toNat := by
    show (UInt8.ofNat c.toNat).toNat = c.toNat
    rw [UInt8.toNat_ofNat']
    omega
  have hblank : (' '.toUInt8).toNat = 32 := rfl
  have hnewline : newline.toNat = 10 := rfl
  refine ⟨hc, fun e => ?_, fun e => ?_⟩
  · rw [e] at hc
    omega
  · rw [e] at hc
    omega

lemma readDecimal_digits (n : ℕ) {cs : List Char} (h : ∀ c ∈ cs, c.isDigit) :
    (cs.map Char.toUInt8).foldl
      (fun n b => if b = ' '.toUInt8 then n else 10 * n + (b.toNat - '0'.toNat)) n =
      Nat.ofDigitChars 10 cs n := by
  induction cs generalizing n with
  | nil => rfl
  | cons c cs ih =>
    obtain ⟨hc, hne, -⟩ := digit_toUInt8 (h c (by simp))
    rw [List.map_cons, List.foldl_cons, if_neg hne, hc, Nat.ofDigitChars_cons]
    exact ih _ fun d hd => h d (by simp [hd])

lemma readDecimal_printf3u (n : ℕ) : readDecimal (printf3u n) = n := by
  have hblank : ∀ k, (List.replicate k ' '.toUInt8).foldl
      (fun n b => if b = ' '.toUInt8 then n else 10 * n + (b.toNat - '0'.toNat)) 0 = 0 := by
    intro k
    induction k with
    | zero => rfl
    | succ k ih => exact ih
  rw [readDecimal, printf3u, List.leftpad, List.foldl_append, hblank, readDecimal_digits]
  · exact Nat.ofDigitChars_ten_toDigits
  · exact fun c hc => Nat.isDigit_of_mem_toDigits (by omega) (by omega) hc

lemma printf3u_injective : Function.Injective printf3u :=
  Function.LeftInverse.injective readDecimal_printf3u

lemma newline_notMem_printf3u (n : ℕ) : newline ∉ printf3u n := by
  simp only [printf3u, List.leftpad, List.mem_append, List.mem_replicate, List.mem_map, not_or,
    not_and, not_exists]
  refine ⟨fun _ => by decide, fun c hc => ?_⟩
  exact (digit_toUInt8 (Nat.isDigit_of_mem_toDigits (by omega) (by omega) hc)).2.2

lemma snprintf_id (b : Buf MSG_ID_LEN) {text : List UInt8} (h : text.length = 3) :
    ∃ b', snprintf b text = some b' ∧ b'.bytes.take 3 = text := by
  have htake : text.take (MSG_ID_LEN - 1) = text := List.take_of_length_le (by rw [h]; decide)
  obtain ⟨b', hb', e⟩ := Buf.write_prefix 0 4 (List.take_zero (l := b.bytes))
    (show (text ++ [0]).length = 4 by simp [h]) le_rfl
  refine ⟨b', by rw [snprintf, htake, hb'], ?_⟩
  rw [List.nil_append] at e
  calc b'.bytes.take 3 = (b'.bytes.take (0 + 4)).take 3 := by
        rw [List.take_take]
        rfl
    _ = text := by rw [e, ← h, List.take_left]

/-- **The formatter's result** depends on this call's id, body and length alone: with a length
of at least one and a body that covers it, the result is the line, whatever the static buffers
held. -/
theorem msgFormatter_spec (f : Fmt) (senderId receiverId : UInt16) {body : List UInt8} {len : ℕ}
    (hlen : 1 ≤ len) (hbody : kept len ≤ body.length) :
    ∃ f', msgFormatter f senderId receiverId (some body) len = some (f', kept len + 6) ∧
      f'.returnBuffer.bytes.take (kept len + 6) = line senderId body len := by
  have hk := kept_le len
  have ht : MSG_TOTAL_LEN = 133 := rfl
  have hi : MSG_ID_LEN - 1 = 3 := rfl
  have hf : MSG_F_LEN - 1 = 2 := rfl
  obtain ⟨ib, hib, hid⟩ := snprintf_id f.idBuffer (printf3u_id senderId)
  -- the id, the format string, the body and the newline, each behind the ones before
  obtain ⟨b₁, h₁, e₁⟩ := Buf.write_prefix 0 3 (List.take_zero (l := f.returnBuffer.bytes))
    (printf3u_id senderId) (by omega)
  obtain ⟨b₂, h₂, e₂⟩ := Buf.write_prefix 3 2 e₁ (show (separator.take 2).length = 2 from rfl)
    (by omega)
  obtain ⟨b₃, h₃, e₃⟩ := Buf.write_prefix 5 (kept len) e₂
    (show (body.take (kept len)).length = kept len by simp [hbody]) (by omega)
  obtain ⟨b₄, h₄, e₄⟩ := Buf.write_prefix (5 + kept len) 1 e₃
    (show [newline].length = 1 from rfl) (by omega)
  obtain ⟨b₅, h₅⟩ := b₄.write_fits (MSG_TOTAL_LEN - 1) [newline] (by decide)
  refine ⟨⟨b₅, ib⟩, ?_, ?_⟩
  · simp only [msgFormatter, hib, hi, hf, hid, h₁, h₂, Option.bind_eq_bind, Option.bind_some,
      subSize_MIN hlen, readN_of_le hbody, h₃, h₄, h₅]
    rw [show 3 + 2 + kept len + 1 = kept len + 6 by omega]
  · show b₅.bytes.take (kept len + 6) = _
    rw [Buf.take_write_lt h₅ (by omega), show kept len + 6 = 5 + kept len + 1 by omega, e₄]
    rfl

end Csockets.FormatterModel
