import Csockets.EchoHandler

/-!
What of its own memory the echo server sends: its buffer is not initialised, so that a call
which is not given it whole in one read writes back what stood there before.
-/

namespace Csockets.EchoMemory

open Bytes Loops EchoModel EchoHandler

def brought : Event → ℕ
  | .read _ _ bread => bread.toNat
  | _ => 0

def longest (log : List Event) : ℕ := log.foldl (fun k e => max k (brought e)) 0

lemma longest_snoc (log : List Event) (e : Event) :
    longest (log ++ [e]) = max (longest log) (brought e) := by
  unfold longest
  rw [List.foldl_append]
  rfl

lemma longest_write (log : List Event) (bytes : List UInt8) (ret : ℤ) :
    longest (log ++ [.write bytes ret]) = longest log :=
  (longest_snoc _ _).trans (Nat.max_zero _)

lemma ret_toNat {count : ℕ} (r : Reading count) : r.ret.toNat = r.bytes.length := by
  cases r with
  | fail => rfl
  | got bytes fits => exact Int.toNat_natCast _

lemma getElem?_write {n : ℕ} {b b' : Buf n} {src : List UInt8} (h : b.write 0 src = some b')
    (i : ℕ) :
    b'.bytes[i]? = if i < src.length then src[i]? else b.bytes[i]? := by
  obtain ⟨-, hbytes⟩ := Buf.write_bytes h
  rw [hbytes, List.take_zero, List.nil_append, Nat.zero_add]
  split
  · rename_i hlt
    exact List.getElem?_append_left hlt
  · rename_i hge
    rw [List.getElem?_append_right (by omega), List.getElem?_drop]
    congr 1
    omega

/-! ### Two calls side by side -/

/-- The variables of a call whose buffer held `b` at first: what no read reached is still there. -/
def Keeps (b : Buf LEN) (h : Handler) : Prop :=
  ∀ i, longest h.log ≤ i → h.buffer.bytes[i]? = b.bytes[i]?

/-- The variables of two calls that get the same but had different memory. -/
structure Twin (b b' : Buf LEN) (h h' : Handler) : Prop where
  rem : h.bytesRemaining = h'.bytesRemaining
  log : h.log = h'.log
  silent : sent h.log = []
  same : ∀ i, i < longest h.log → h.buffer.bytes[i]? = h'.buffer.bytes[i]?
  left : Keeps b h
  right : Keeps b' h'

lemma keeps_read {b buffer : Buf LEN} {h : Handler} (hk : Keeps b h) {src : List UInt8}
    (hb : h.buffer.write 0 src = some buffer) {offset : ℕ} {count bread rem : ℤ}
    (hbread : bread.toNat = src.length) :
    Keeps b ⟨buffer, rem, h.log ++ [.read offset count bread]⟩ := by
  intro i hi
  dsimp only at hi ⊢
  rw [longest_snoc, max_le_iff,
    show brought (.read offset count bread) = bread.toNat from rfl] at hi
  rw [getElem?_write hb, if_neg (by omega)]
  exact hk i hi.1

lemma twin_read {b b' buffer buffer' : Buf LEN} {h h' : Handler} (ht : Twin b b' h h')
    {src : List UInt8} (hb : h.buffer.write 0 src = some buffer)
    (hb' : h'.buffer.write 0 src = some buffer') {offset : ℕ} {count bread rem : ℤ}
    (hbread : bread.toNat = src.length) :
    Twin b b' ⟨buffer, rem, h.log ++ [.read offset count bread]⟩
      ⟨buffer', rem, h.log ++ [.read offset count bread]⟩ where
  rem := rfl
  log := rfl
  silent := (sent_read _ _ _ _).trans ht.silent
  same i hi := by
    dsimp only at hi ⊢
    rw [longest_snoc, lt_max_iff,
      show brought (.read offset count bread) = bread.toNat from rfl] at hi
    rw [getElem?_write hb, getElem?_write hb']
    split
    · rfl
    · exact ht.same i (by omega)
  left := keeps_read ht.left hb hbread
  right := by
    rw [ht.log]
    exact keeps_read ht.right hb' hbread

lemma readTurn_twin (answer : Answer) {b b' : Buf LEN} {h h' : Handler} (ht : Twin b b' h h') :
    (readTurn answer h).Rel (Twin b b')
      (fun r r' => ∃ h h', r = .ok h ∧ r' = .ok h' ∧ Twin b b' h h') (readTurn answer h') := by
  have hret := ret_ge (answer h.bytesRemaining.toNat)
  unfold readTurn
  dsimp only
  rw [← ht.rem, ← ht.log]
  split
  · by_cases hfits : (answer h.bytesRemaining.toNat).bytes.length ≤ LEN
    · obtain ⟨buffer, hb⟩ := h.buffer.write_fits 0 (answer h.bytesRemaining.toNat).bytes (by omega)
      obtain ⟨buffer', hb'⟩ :=
        h'.buffer.write_fits 0 (answer h.bytesRemaining.toNat).bytes (by omega)
      have hbad : ¬ (answer h.bytesRemaining.toNat).ret < -1 := by omega
      rw [hb, hb']
      dsimp only
      rw [if_neg hbad, if_neg hbad]
      split
      · exact .again (twin_read ht hb hb' (ret_toNat _))
      · exact .fault
    · have hnone : ∀ buffer : Buf LEN,
          buffer.write 0 (answer h.bytesRemaining.toNat).bytes = none := by
        intro buffer
        exact dif_neg (by omega)
      rw [hnone, hnone]
      exact .fault
  · exact .leave ⟨h, h', rfl, rfl, ht⟩

def withMemory (p : Pass) (b : Buf LEN) : Pass := { p with buffer := b }

lemma handle_twin (n : ℕ) (p : Pass) (b : Buf LEN) {log : List Event}
    (h : clientHandle n p [] = .leave log) :
    ∃ final final' : Handler, Twin p.buffer b final final' ∧
      log = final.log ++ [.write final.buffer.bytes p.write] ∧
      clientHandle n (withMemory p b) [] =
        .leave (final'.log ++ [.write final'.buffer.bytes p.write]) := by
  have hstart : Twin p.buffer b ⟨p.buffer, LEN, []⟩ ⟨b, LEN, []⟩ :=
    ⟨rfl, rfl, rfl, fun i hi => absurd hi (Nat.not_lt_zero i), fun _ _ => rfl, fun _ _ => rfl⟩
  have hloop := loop_rel (fun i s s' ht => readTurn_twin i ht) n p.answers hstart
  obtain ⟨r, hr⟩ := clientHandle_left h
  rw [hr] at hloop
  obtain ⟨r', hr', hrel⟩ : ∃ r', loop readTurn n p.answers ⟨b, LEN, []⟩ = .leave r' ∧
      ∃ final final', r = .ok final ∧ r' = .ok final' ∧ Twin p.buffer b final final' := by
    generalize loop readTurn n p.answers ⟨b, LEN, []⟩ = t at hloop
    cases hloop with
    | leave hrel => exact ⟨_, rfl, hrel⟩
  obtain ⟨final, final', rfl, rfl, ht⟩ := hrel
  refine ⟨final, final', ht, ?_, clientHandle_over (p := withMemory p b) hr'⟩
  rw [clientHandle_over hr] at h
  injection h with h
  exact h.symm

/-- **Whose bytes are sent**: what a call sends back is the same whatever stood in its memory
before, if and only if the write takes no more than the longest read brought. -/
theorem independent_iff (n : ℕ) (p : Pass) {log : List Event}
    (h : clientHandle n p [] = .leave log) :
    (∀ b, ∃ log', clientHandle n (withMemory p b) [] = .leave log' ∧ sent log' = sent log) ↔
      p.write.1.toNat ≤ longest log := by
  constructor
  · intro hsame
    by_contra hlt
    have hwrite := p.write.2
    have hsize := p.buffer.size
    have hmem : longest log < p.buffer.bytes.length := by omega
    obtain ⟨x, hx⟩ : ∃ x, p.buffer.bytes[longest log]? = some x :=
      ⟨_, List.getElem?_eq_getElem hmem⟩
    -- other memory, where no read reaches and the write does
    obtain ⟨b, hb⟩ : ∃ b : Buf LEN, b.bytes = p.buffer.bytes.set (longest log) (x + 1) :=
      ⟨⟨_, (List.length_set ..).trans hsize⟩, rfl⟩
    obtain ⟨log', hlog', hsent⟩ := hsame b
    obtain ⟨final, final', ht, rfl, hcall⟩ := handle_twin n p b h
    rw [hlog'] at hcall
    injection hcall with hcall
    rw [hcall, sent_write, sent_write, ← ht.log, List.append_cancel_left_eq] at hsent
    rw [longest_write] at hmem hx hb hlt
    have hbyte := congrArg (fun l : List UInt8 => l[longest final.log]?) hsent
    rw [List.getElem?_take_of_lt (by omega), List.getElem?_take_of_lt (by omega),
      ht.left _ le_rfl, ht.right _ (by rw [ht.log]), hb, List.getElem?_set_self hmem, hx,
      Option.some.injEq] at hbyte
    simp at hbyte
  · intro hle b
    obtain ⟨final, final', ht, rfl, hcall⟩ := handle_twin n p b h
    refine ⟨_, hcall, ?_⟩
    rw [sent_write, sent_write, ← ht.log]
    congr 1
    rw [longest_write] at hle
    ext1 i
    rw [List.getElem?_take, List.getElem?_take]
    split
    · rw [ht.same i (by omega)]
    · rfl

/-- A client whose bytes come in by the hundred, and that takes two hundred of them back. -/
def hundreds : Pass :=
  ⟨4, Stream'.const (deliver (List.replicate 100 1)), ⟨200, by decide⟩, Buf.zero LEN⟩

/-- It is sent what was in memory behind the first hundred bytes. -/
theorem not_independent_hundreds : ∃ log, clientHandle 4 hundreds [] = .leave log ∧
    ¬ ∀ b, ∃ log', clientHandle 4 (withMemory hundreds b) [] = .leave log' ∧
      sent log' = sent log := by
  have hrun : (match clientHandle 4 hundreds [] with
      | .leave log => decide (longest log = 100)
      | _ => false) = true := by decide +kernel
  split at hrun
  · rename_i log hlog
    refine ⟨log, hlog, fun h => ?_⟩
    have hle := (independent_iff 4 hundreds hlog).mp h
    rw [of_decide_eq_true hrun] at hle
    exact absurd hle (by decide)
  · cases hrun

end Csockets.EchoMemory
