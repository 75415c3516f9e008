import Csockets.EchoModel

/-!
One call of the echo server's handler, and what it sends back. Every read goes to the start of
the buffer, so a block is echoed only if it comes in one chunk.
-/

namespace Csockets.EchoHandler

open Bytes Loops EchoModel

variable {count : ℕ}

lemma ret_ge (r : Reading count) : -1 ≤ r.ret := by
  cases r with
  | fail => exact le_refl _
  | got bytes fits =>
    have := Int.natCast_nonneg bytes.length
    show (-1 : ℤ) ≤ bytes.length
    omega

lemma bytes_length_le (r : Reading count) : r.bytes.length ≤ count := by
  cases r with
  | fail => exact Nat.zero_le _
  | got bytes fits => exact fits

lemma ret_eq {r : Reading count} (h : r ≠ .fail) : r.ret = r.bytes.length := by
  cases r with
  | fail => exact absurd rfl h
  | got bytes fits => rfl

@[simp] lemma deliver_bytes (chunk : List UInt8) (count : ℕ) :
    (deliver chunk count).bytes = chunk.take count := rfl

@[simp] lemma deliver_ret (chunk : List UInt8) (count : ℕ) :
    (deliver chunk count).ret = (chunk.take count).length := rfl

lemma answers_of_nonneg {p : Pass} (h : 0 ≤ p.accept) : p.answers = p.reads :=
  if_neg (Int.not_lt.mpr h)

lemma readTurn_spec (answer : Answer) {h : Handler} (hpos : 0 < h.bytesRemaining)
    (hle : h.bytesRemaining ≤ LEN) :
    ∃ buffer, h.buffer.write 0 (answer h.bytesRemaining.toNat).bytes = some buffer ∧
      readTurn answer h = .again
        ⟨buffer, h.bytesRemaining - (answer h.bytesRemaining.toNat).ret,
          h.log ++ [.read 0 h.bytesRemaining (answer h.bytesRemaining.toNat).ret]⟩ := by
  have hret := ret_ge (answer h.bytesRemaining.toNat)
  have hlen := bytes_length_le (answer h.bytesRemaining.toNat)
  obtain ⟨buffer, hb⟩ := h.buffer.write_fits 0 (answer h.bytesRemaining.toNat).bytes (by omega)
  have hmax : h.bytesRemaining - (answer h.bytesRemaining.toNat).ret ≤ INT_MAX := by
    have hLEN : (LEN : ℤ) = 255 := rfl
    unfold INT_MAX
    omega
  refine ⟨buffer, hb, ?_⟩
  unfold readTurn
  dsimp only
  rw [if_pos hpos, hb]
  dsimp only
  rw [if_neg (by omega), if_pos hmax]

lemma readTurn_over (answer : Answer) {h : Handler} (h0 : ¬ 0 < h.bytesRemaining) :
    readTurn answer h = .leave (.ok h) := by
  unfold readTurn
  rw [if_neg h0]

lemma clientHandle_again {n : ℕ} {p : Pass} {log : List Event} {h : Handler}
    (hloop : loop readTurn n p.answers ⟨p.buffer, LEN, log⟩ = .again h) :
    clientHandle n p log = .again h := by
  unfold clientHandle
  rw [hloop]

lemma clientHandle_over {n : ℕ} {p : Pass} {log : List Event} {h : Handler}
    (hloop : loop readTurn n p.answers ⟨p.buffer, LEN, log⟩ = .leave (.ok h)) :
    clientHandle n p log = .leave (h.log ++ [.write h.buffer.bytes p.write]) := by
  unfold clientHandle
  rw [hloop]

lemma clientHandle_left {n : ℕ} {p : Pass} {log log' : List Event}
    (h : clientHandle n p log = .leave log') :
    ∃ r, loop readTurn n p.answers ⟨p.buffer, LEN, log⟩ = .leave r := by
  unfold clientHandle at h
  split at h
  · cases h
  · exact ⟨_, by assumption⟩
  · exact ⟨_, by assumption⟩
  · cases h

lemma clientHandle_unique {n m : ℕ} {p : Pass} {log log₁ log₂ : List Event}
    (h₁ : clientHandle n p log = .leave log₁) (h₂ : clientHandle m p log = .leave log₂) :
    log₁ = log₂ := by
  obtain ⟨r₁, hr₁⟩ := clientHandle_left h₁
  obtain ⟨r₂, hr₂⟩ := clientHandle_left h₂
  obtain rfl := loop_unique hr₁ hr₂
  unfold clientHandle at h₁ h₂
  rw [hr₁] at h₁
  rw [hr₂, h₁] at h₂
  injection h₂

/-! ### What is sent back -/

def sent (log : List Event) : List UInt8 :=
  log.flatMap fun
    | .write bytes ret => bytes.take ret.toNat
    | _ => []

lemma sent_append (l₁ l₂ : List Event) : sent (l₁ ++ l₂) = sent l₁ ++ sent l₂ :=
  List.flatMap_append

lemma sent_read (log : List Event) (offset : ℕ) (count bread : ℤ) :
    sent (log ++ [.read offset count bread]) = sent log := by
  rw [sent_append]
  simp [sent]

lemma sent_write (log : List Event) (bytes : List UInt8) (ret : ℤ) :
    sent (log ++ [.write bytes ret]) = sent log ++ bytes.take ret.toNat := by
  rw [sent_append]
  simp [sent]

/-- A block of `LEN` bytes and the chunks it comes in. -/
structure Split where
  block : List UInt8
  full : block.length = LEN
  chunks : List (List UInt8)
  positive : ∀ c ∈ chunks, c ≠ []
  whole : chunks.flatten = block

/-- A client that sends the block, with anything behind it. -/
def Split.pass (s : Split) (rest : Stream' Answer) (clientfd : ℕ) (write : {ret : ℤ // ret ≤ LEN})
    (buffer : Buf LEN) : Pass :=
  ⟨clientfd, s.chunks.map deliver ++ₛ rest, write, buffer⟩

/-- The handler ends, and the block is what it has sent back. -/
def Echoes (block : List UInt8) (p : Pass) : Prop :=
  ∃ n log, clientHandle n p [] = .leave log ∧ sent log = block

lemma chunk_lt {chunks : List (List UInt8)} (hpos : ∀ c ∈ chunks, c ≠ []) {c : List UInt8}
    (hc : c ∈ chunks) : chunks = [c] ∨ c.length < chunks.flatten.length := by
  obtain ⟨l₁, l₂, rfl⟩ := List.append_of_mem hc
  rw [List.flatten_append, List.flatten_cons, List.length_append, List.length_append]
  have hne : ∀ l : List (List UInt8), (∀ c ∈ l, c ≠ []) → l = [] ∨ 0 < l.flatten.length := by
    intro l hl
    cases l with
    | nil => exact Or.inl rfl
    | cons d l =>
      have hd := List.length_pos_iff.mpr (hl d (by simp))
      rw [List.flatten_cons, List.length_append]
      omega
  obtain rfl | h₁ := hne l₁ fun c hc => hpos c (by simp [hc])
  · obtain rfl | h₂ := hne l₂ fun c hc => hpos c (by simp [hc])
    · exact Or.inl rfl
    · omega
  · omega

/-- The loop over chunks that make up what is still missing. Every one is written to the start
of the buffer: the last stays there, and what none of them reaches is as it was. -/
lemma loop_chunks {chunks : List (List UInt8)} (hpos : ∀ c ∈ chunks, c ≠ []) {h : Handler}
    (hrem : h.bytesRemaining = chunks.flatten.length) (hle : h.bytesRemaining ≤ LEN)
    (rest : Stream' Answer) :
    ∃ h', loop readTurn (chunks.length + 1) (chunks.map deliver ++ₛ rest) h = .leave (.ok h') ∧
      sent h'.log = sent h.log ∧
      (∀ k, (∀ c ∈ chunks, c.length ≤ k) → h'.buffer.bytes.drop k = h.buffer.bytes.drop k) ∧
      ∀ c, chunks.getLast? = some c → h'.buffer.bytes.take c.length = c := by
  induction chunks generalizing h with
  | nil =>
    have h0 : ¬ 0 < h.bytesRemaining := by simp [hrem]
    exact ⟨h, loop_leave (readTurn_over _ h0) 0, rfl, fun _ _ => rfl, fun _ hc => by simp at hc⟩
  | cons c chunks ih =>
    have hc := List.length_pos_iff.mpr (hpos c (by simp))
    rw [List.flatten_cons, List.length_append] at hrem
    push_cast at hrem
    obtain ⟨buffer, hb, hturn⟩ := readTurn_spec (deliver c) (h := h) (by omega) hle
    have htake : c.take h.bytesRemaining.toNat = c := List.take_of_length_le (by omega)
    rw [deliver_bytes, htake] at hb
    rw [deliver_ret, htake] at hturn
    obtain ⟨h', hloop, hsent, hdrop, htake⟩ :=
      ih (h := ⟨buffer, h.bytesRemaining - c.length, _⟩) (fun d hd => hpos d (by simp [hd]))
        (by dsimp only; omega) (by dsimp only; omega)
    refine ⟨h', ?_, ?_, fun k hk => ?_, fun d hd => ?_⟩
    · rw [List.map_cons, Stream'.cons_append_stream, List.length_cons, loop_again hturn]
      exact hloop
    · rw [hsent, sent_read]
    · have hck := hk c (by simp)
      rw [hdrop k fun d hd => hk d (by simp [hd]), Buf.drop_write hb (by omega)]
    · cases chunks with
      | nil =>
        obtain rfl : c = d := by simpa using hd
        have hbytes : h'.buffer.bytes = buffer.bytes := by simpa using hdrop 0 (by simp)
        have hstart := Buf.take_write hb
        rwa [Nat.zero_add, List.take_zero, List.nil_append, ← hbytes] at hstart
      | cons e chunks => exact htake d (by simpa using hd)

lemma handle_split (s : Split) (rest : Stream' Answer) (clientfd : ℕ)
    (write : {ret : ℤ // ret ≤ LEN}) (buffer : Buf LEN) :
    ∃ (n : ℕ) (log : List Event) (final : Buf LEN),
      clientHandle n (s.pass rest clientfd write buffer) [] = .leave log ∧
      sent log = final.bytes.take write.1.toNat ∧
      (∀ k, (∀ c ∈ s.chunks, c.length ≤ k) → final.bytes.drop k = buffer.bytes.drop k) ∧
      ∀ c, s.chunks.getLast? = some c → final.bytes.take c.length = c := by
  have hlen : (LEN : ℤ) = s.chunks.flatten.length := by rw [s.whole, s.full]
  obtain ⟨h, hloop, hsent, hdrop, htake⟩ :=
    loop_chunks s.positive (h := ⟨buffer, LEN, []⟩) hlen le_rfl rest
  have hanswers : (s.pass rest clientfd write buffer).answers = s.chunks.map deliver ++ₛ rest :=
    answers_of_nonneg (Int.natCast_nonneg clientfd)
  rw [← hanswers] at hloop
  refine ⟨_, _, h.buffer, clientHandle_over hloop, ?_, hdrop, htake⟩
  rw [sent_write, hsent]
  rfl

lemma take_eq_block {s : Split} {final : Buf LEN} {write : {ret : ℤ // ret ≤ LEN}}
    (h : final.bytes.take write.1.toNat = s.block) : write.1 = LEN ∧ final.bytes = s.block := by
  have hfull := s.full
  have hsize := final.size
  have hwrite := write.2
  have hlen : min write.1.toNat final.bytes.length = s.block.length := by
    rw [← List.length_take, h]
  have hLEN : (LEN : ℤ) = 255 := rfl
  refine ⟨by omega, ?_⟩
  rw [← h, List.take_of_length_le (by omega)]

/-- A byte that no chunk reaches is sent back as it was in memory. -/
lemma not_echoes_split (s : Split) (hsplit : s.chunks ≠ [s.block]) (rest : Stream' Answer)
    (clientfd : ℕ) (write : {ret : ℤ // ret ≤ LEN}) :
    ¬ ∀ buffer, Echoes s.block (s.pass rest clientfd write buffer) := by
  intro h
  have hshort : ∀ c ∈ s.chunks, c.length ≤ 254 := by
    intro c hc
    obtain hone | hlt := chunk_lt s.positive hc
    · have hwhole := s.whole
      rw [hone, List.flatten_singleton] at hwhole
      exact absurd (hwhole ▸ hone) hsplit
    · rw [s.whole, s.full] at hlt
      exact Nat.le_of_lt_succ hlt
  have hlast : ∀ buffer : Buf LEN, s.block.drop 254 = buffer.bytes.drop 254 := by
    intro buffer
    obtain ⟨n, log, hlog, hblock⟩ := h buffer
    obtain ⟨n', log', final, hlog', hsent, hdrop, -⟩ :=
      handle_split s rest clientfd write buffer
    rw [← clientHandle_unique hlog hlog', hblock] at hsent
    rw [← (take_eq_block hsent.symm).2, hdrop 254 hshort]
  have hzero := hlast ⟨List.replicate LEN 0, List.length_replicate⟩
  have hone := hlast ⟨List.replicate LEN 1, List.length_replicate⟩
  rw [hzero] at hone
  simp at hone

/-- **The echo**: a client is sent its block, whatever was in memory before, if and only if the
block comes in one chunk and the write takes all of it. -/
theorem echoes_iff (s : Split) (rest : Stream' Answer) (clientfd : ℕ)
    (write : {ret : ℤ // ret ≤ LEN}) :
    (∀ buffer, Echoes s.block (s.pass rest clientfd write buffer)) ↔
      s.chunks = [s.block] ∧ write.1 = LEN := by
  constructor
  · intro h
    refine ⟨by_contra fun hsplit => not_echoes_split s hsplit rest clientfd write h, ?_⟩
    obtain ⟨n, log, hlog, hblock⟩ := h (Buf.zero LEN)
    obtain ⟨n', log', final, hlog', hsent, -⟩ :=
      handle_split s rest clientfd write (Buf.zero LEN)
    rw [← clientHandle_unique hlog hlog', hblock] at hsent
    exact (take_eq_block hsent.symm).1
  · rintro ⟨hone, hall⟩ buffer
    obtain ⟨n, log, final, hlog, hsent, -, htake⟩ := handle_split s rest clientfd write buffer
    have hblock := htake s.block (by rw [hone]; rfl)
    rw [s.full] at hblock
    refine ⟨n, log, hlog, ?_⟩
    rw [hsent, hall, Int.toNat_natCast, hblock]

def late : Split where
  block := List.replicate 254 1 ++ [2]
  full := by rw [List.length_append, List.length_replicate]; rfl
  chunks := [List.replicate 254 1, [2]]
  positive := List.forall_mem_cons.mpr ⟨List.cons_ne_nil _ _, by simp⟩
  whole := rfl

/-- The second read overwrites the first byte, and the last one is never written. -/
theorem not_echoes_late :
    ¬ ∀ (s : Split) (rest : Stream' Answer) (clientfd : ℕ) (buffer : Buf LEN),
      Echoes s.block (s.pass rest clientfd ⟨LEN, le_rfl⟩ buffer) := by
  intro h
  have hne : late.chunks ≠ [late.block] := fun e => absurd (congrArg List.length e) (by decide)
  exact not_echoes_split late hne (Stream'.const (deliver [])) 4 _ fun buffer => h late _ 4 buffer

end Csockets.EchoHandler
