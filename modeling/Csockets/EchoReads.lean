import Csockets.EchoHandler

/-!
The reads of the echo server's handler: where they may write, what a failed one does to the
count, and that the loop does not notice the end of the stream.
-/

namespace Csockets.EchoReads

open Bytes Loops EchoModel EchoHandler

/-! ### Failed reads -/

def Inside : Event → Prop
  | .read offset count _ => 0 < count ∧ offset + count ≤ LEN
  | _ => True

def Failing : Event → Prop
  | .read _ _ bread => bread = -1
  | _ => False

/-- A call as it should be: its reads stay inside, it does not go on behind a failed one, and
when it has ended a failed read was the last thing it did. -/
def Guarded : Turn Handler (List Event) → Prop
  | .again h => ∀ e ∈ h.log, Inside e ∧ ¬ Failing e
  | .leave log => (∀ e ∈ log, Inside e) ∧
      ∀ pre e post, log = pre ++ e :: post → Failing e → post = []
  | .fault => False

/-- How many of `rem` missing bytes are missing after `i` reads. -/
def missing : ℕ → Stream' Answer → ℕ → ℕ
  | 0, _, rem => rem
  | i + 1, reads, rem => missing i reads.tail (rem - (reads.head rem).bytes.length)

def Unfailing (reads : Stream' Answer) (rem : ℕ) : Prop :=
  ∀ i, 0 < missing i reads rem → reads.get i (missing i reads rem) ≠ .fail

lemma missing_le (i : ℕ) (reads : Stream' Answer) (rem : ℕ) : missing i reads rem ≤ rem := by
  induction i generalizing reads rem with
  | zero => exact le_rfl
  | succ i ih => exact (ih _ _).trans (Nat.sub_le _ _)

lemma unfailing_tail {reads : Stream' Answer} {rem : ℕ} (h : Unfailing reads rem) :
    Unfailing reads.tail (rem - (reads.head rem).bytes.length) :=
  fun i hi => h (i + 1) hi

lemma good_snoc {log : List Event} {e : Event} (hlog : ∀ e ∈ log, Inside e ∧ ¬ Failing e)
    (hin : Inside e) (hgood : ¬ Failing e) : ∀ x ∈ log ++ [e], Inside x ∧ ¬ Failing x :=
  List.forall_mem_append.mpr ⟨hlog, List.forall_mem_singleton.mpr ⟨hin, hgood⟩⟩

structure Counted (reads : Stream' Answer) (h : Handler) : Prop where
  nonneg : 0 ≤ h.bytesRemaining
  le : h.bytesRemaining ≤ LEN
  reads : Unfailing reads h.bytesRemaining.toNat
  log : ∀ e ∈ h.log, Inside e ∧ ¬ Failing e

lemma readTurn_counted {reads : Stream' Answer} {h : Handler} (hc : Counted reads h) :
    (∃ h', readTurn reads.head h = .again h' ∧ Counted reads.tail h') ∨
      ∃ r, readTurn reads.head h = .leave r ∧
        ∃ h' : Handler, r = .ok h' ∧ ∀ e ∈ h'.log, Inside e ∧ ¬ Failing e := by
  obtain ⟨hnonneg, hle, hreads, hlog⟩ := hc
  have hLEN : (LEN : ℤ) = 255 := rfl
  by_cases hpos : 0 < h.bytesRemaining
  · left
    obtain ⟨buffer, -, hturn⟩ := readTurn_spec reads.head hpos hle
    have hne : reads.head h.bytesRemaining.toNat ≠ .fail := hreads 0 (by simp [missing, hpos])
    have hret := ret_eq hne
    have hlen := bytes_length_le (reads.head h.bytesRemaining.toNat)
    have hgood : ¬ Failing (.read 0 h.bytesRemaining (reads.head h.bytesRemaining.toNat).ret) := by
      unfold Failing
      omega
    refine ⟨_, hturn, by dsimp only; omega, by dsimp only; omega, ?_,
      good_snoc hlog ⟨hpos, by push_cast; omega⟩ hgood⟩
    have htail := unfailing_tail hreads
    have hrem : (h.bytesRemaining - (reads.head h.bytesRemaining.toNat).ret).toNat =
        h.bytesRemaining.toNat - (reads.head h.bytesRemaining.toNat).bytes.length := by omega
    rwa [← hrem] at htail
  · exact Or.inr ⟨_, readTurn_over _ hpos, h, rfl, hlog⟩

lemma handle_counted {p : Pass} (h : Unfailing p.answers LEN) {log : List Event}
    (hlog : ∀ e ∈ log, Inside e ∧ ¬ Failing e) (n : ℕ) :
    (∃ h', clientHandle n p log = .again h' ∧ ∀ e ∈ h'.log, Inside e ∧ ¬ Failing e) ∨
      ∃ log', clientHandle n p log = .leave log' ∧ ∀ e ∈ log', Inside e ∧ ¬ Failing e := by
  have hstart : Counted p.answers ⟨p.buffer, LEN, log⟩ := ⟨by simp, le_rfl, h, hlog⟩
  have hloop := loop_spec Counted _ (fun _ _ hc => readTurn_counted hc) n hstart
  obtain ⟨h', hagain, hc⟩ | ⟨r, hleave, h', rfl, hlog'⟩ := hloop
  · exact Or.inl ⟨h', clientHandle_again hagain, hc.log⟩
  · exact Or.inr ⟨_, clientHandle_over hleave, good_snoc hlog' trivial not_false⟩

lemma guarded_of_unfailing {p : Pass} (h : Unfailing p.answers LEN) (n : ℕ) :
    Guarded (clientHandle n p []) := by
  have hempty : ∀ e ∈ ([] : List Event), Inside e ∧ ¬ Failing e := by simp
  obtain ⟨h', hagain, hlog⟩ | ⟨log, hleave, hlog⟩ := handle_counted h hempty n
  · rw [hagain]
    exact hlog
  · rw [hleave]
    refine ⟨fun e he => (hlog e he).1, ?_⟩
    rintro pre e post rfl hfail
    exact absurd hfail (hlog e (by simp)).2

lemma again_of_failed_head {reads : Stream' Answer} {h : Handler} (hpos : 0 < h.bytesRemaining)
    (hle : h.bytesRemaining ≤ LEN) (hfail : reads.head h.bytesRemaining.toNat = .fail) :
    ∃ h', loop readTurn 1 reads h = .again h' ∧ ∃ e ∈ h'.log, Failing e := by
  obtain ⟨buffer, -, hturn⟩ := readTurn_spec reads.head hpos hle
  have hret : (reads.head h.bytesRemaining.toNat).ret = -1 := by rw [hfail]; rfl
  exact ⟨_, loop_again hturn 0, _, List.mem_append_right _ (List.mem_singleton_self _), hret⟩

lemma again_of_fail {reads : Stream' Answer} {h : Handler} (hpos : 0 < h.bytesRemaining)
    (hle : h.bytesRemaining ≤ LEN) {i : ℕ}
    (hmissing : 0 < missing i reads h.bytesRemaining.toNat)
    (hfail : reads.get i (missing i reads h.bytesRemaining.toNat) = .fail) :
    ∃ n h', loop readTurn n reads h = .again h' ∧ ∃ e ∈ h'.log, Failing e := by
  induction i generalizing reads h with
  | zero => exact ⟨1, again_of_failed_head hpos hle hfail⟩
  | succ i ih =>
    by_cases hhead : reads.head h.bytesRemaining.toNat = .fail
    · -- an earlier read fails
      exact ⟨1, again_of_failed_head hpos hle hhead⟩
    · obtain ⟨buffer, -, hturn⟩ := readTurn_spec reads.head hpos hle
      have hret := ret_eq hhead
      have hrem : (h.bytesRemaining - (reads.head h.bytesRemaining.toNat).ret).toNat =
          h.bytesRemaining.toNat - (reads.head h.bytesRemaining.toNat).bytes.length := by omega
      have hsmaller := missing_le i reads.tail
        (h.bytesRemaining.toNat - (reads.head h.bytesRemaining.toNat).bytes.length)
      have hmissing' : 0 < missing i reads.tail
          (h.bytesRemaining.toNat - (reads.head h.bytesRemaining.toNat).bytes.length) := hmissing
      obtain ⟨n, h', hloop, hlog⟩ := @ih reads.tail
        ⟨buffer, h.bytesRemaining - (reads.head h.bytesRemaining.toNat).ret, _⟩
        (by dsimp only; omega) (by dsimp only; omega) (by dsimp only; rw [hrem]; exact hmissing')
        (by dsimp only; rw [hrem]; exact hfail)
      exact ⟨n + 1, h', (loop_again hturn n).trans hloop, hlog⟩

lemma unfailing_of_guarded {p : Pass} (h : ∀ n, Guarded (clientHandle n p [])) :
    Unfailing p.answers LEN := by
  intro i hmissing hfail
  obtain ⟨n, h', hloop, e, he, hfail⟩ :=
    again_of_fail (h := ⟨p.buffer, LEN, []⟩) (by simp) le_rfl hmissing hfail
  have hguard := h n
  rw [clientHandle_again hloop] at hguard
  exact (hguard e he).2 hfail

lemma unfailing_answers (p : Pass) :
    Unfailing p.answers LEN ↔ 0 ≤ p.accept ∧ Unfailing p.reads LEN := by
  by_cases hnonneg : 0 ≤ p.accept
  · rw [answers_of_nonneg hnonneg, and_iff_right hnonneg]
  · have hbadf : p.answers = Stream'.const badf := if_pos (Int.not_le.mp hnonneg)
    rw [hbadf]
    constructor
    · intro h
      exact absurd rfl (h 0 (by simp [missing]))
    · rintro ⟨h, -⟩
      exact absurd h hnonneg

/-- **Failed reads**: a call stays inside its buffer and ends with the first failed read if and
only if its descriptor is one and no read fails before all bytes are in. -/
theorem guarded_iff (p : Pass) :
    (∀ n, Guarded (clientHandle n p [])) ↔ 0 ≤ p.accept ∧ Unfailing p.reads LEN := by
  rw [← unfailing_answers]
  exact ⟨unfailing_of_guarded, guarded_of_unfailing⟩

/-- A run of the accept loop over clients whose reads do not fail: the server does not leave its
buffer in any call, and no call is left open behind a failed read. -/
theorem socketV4_counted (n : ℕ) {passes : List Pass}
    (h : ∀ p ∈ passes, 0 ≤ p.accept ∧ Unfailing p.reads LEN) {log : List Event}
    (hlog : ∀ e ∈ log, Inside e ∧ ¬ Failing e) :
    (socketV4 n passes log).1 ≠ .undefined ∧
      ∀ e ∈ (socketV4 n passes log).2, Inside e ∧ ¬ Failing e := by
  induction passes generalizing log with
  | nil => exact ⟨Status.noConfusion, hlog⟩
  | cons p passes ih =>
    have hp := (unfailing_answers p).mpr (h p (by simp))
    unfold socketV4
    have haccept : ∀ e ∈ log ++ [.accept p.accept], Inside e ∧ ¬ Failing e :=
      good_snoc hlog trivial not_false
    obtain ⟨h', hagain, hlog'⟩ | ⟨log', hleave, hlog'⟩ := handle_counted hp haccept n
    · rw [hagain]
      exact ⟨Status.noConfusion, hlog'⟩
    · rw [hleave]
      exact ih (fun q hq => h q (by simp [hq])) (good_snoc hlog' trivial not_false)

/-- The call that is made when `accept` has failed. -/
def refused : Pass := ⟨-1, Stream'.const badf, ⟨LEN, le_rfl⟩, Buf.zero LEN⟩

/-- The handler reads on, and asks for a byte more each time. -/
theorem not_guarded_refused : ¬ ∀ (p : Pass) (n : ℕ), Guarded (clientHandle n p []) := by
  intro h
  have hunfailing := unfailing_of_guarded (h refused)
  exact hunfailing 0 (by simp [missing]) rfl

/-! ### The end of the stream -/

structure Client where
  chunks : List (List UInt8)
  stops : chunks.flatten.length < LEN

def Client.reads (chunks : List (List UInt8)) : Stream' Answer :=
  chunks.map deliver ++ₛ Stream'.const (deliver [])

def Client.pass (c : Client) (clientfd : ℕ) (write : {ret : ℤ // ret ≤ LEN}) (buffer : Buf LEN) :
    Pass :=
  ⟨clientfd, Client.reads c.chunks, write, buffer⟩

def Ends (p : Pass) : Prop := ∃ n log, clientHandle n p [] = .leave log

def accepts (log : List Event) : ℕ :=
  log.countP fun
    | .accept _ => true
    | _ => false

def Waiting (reads : Stream' Answer) (h : Handler) : Prop :=
  ∃ chunks, reads = Client.reads chunks ∧ (chunks.flatten.length : ℤ) < h.bytesRemaining ∧
    h.bytesRemaining ≤ LEN

lemma readTurn_waiting {reads : Stream' Answer} {h : Handler} (hw : Waiting reads h) :
    ∃ h', readTurn reads.head h = .again h' ∧ Waiting reads.tail h' := by
  obtain ⟨chunks, rfl, hlt, hle⟩ := hw
  obtain ⟨buffer, -, hturn⟩ := readTurn_spec (Client.reads chunks).head (h := h) (by omega) hle
  refine ⟨_, hturn, ?_⟩
  cases chunks with
  | nil =>
    refine ⟨[], Stream'.tail_const _, ?_⟩
    have hret : ((Client.reads []).head h.bytesRemaining.toNat).ret = 0 :=
      congrArg (fun l : List UInt8 => (l.length : ℤ)) List.take_nil
    rw [hret, sub_zero]
    exact ⟨hlt, hle⟩
  | cons c chunks =>
    refine ⟨chunks, rfl, ?_⟩
    rw [List.flatten_cons, List.length_append] at hlt
    push_cast at hlt
    have hret : ((Client.reads (c :: chunks)).head h.bytesRemaining.toNat).ret = c.length := by
      have htake : c.take h.bytesRemaining.toNat = c := List.take_of_length_le (by omega)
      exact congrArg (fun l : List UInt8 => (l.length : ℤ)) htake
    rw [hret]
    exact ⟨by dsimp only; omega, by dsimp only; omega⟩

lemma client_waits (c : Client) (clientfd : ℕ) (write : {ret : ℤ // ret ≤ LEN}) (buffer : Buf LEN)
    (n : ℕ) (log : List Event) :
    ∃ h, clientHandle n (c.pass clientfd write buffer) log = .again h := by
  have hanswers : (c.pass clientfd write buffer).answers = Client.reads c.chunks :=
    answers_of_nonneg (Int.natCast_nonneg clientfd)
  have hstart : Waiting (Client.reads c.chunks) ⟨buffer, LEN, log⟩ :=
    ⟨c.chunks, rfl, Int.ofNat_lt.mpr c.stops, le_rfl⟩
  obtain ⟨h, hloop⟩ := loop_forever Waiting (fun _ _ hw => readTurn_waiting hw) n hstart
  rw [← hanswers] at hloop
  exact ⟨h, clientHandle_again hloop⟩

lemma accepts_append (l₁ l₂ : List Event) : accepts (l₁ ++ l₂) = accepts l₁ + accepts l₂ :=
  List.countP_append

lemma readTurn_accepts (k : ℕ) (answer : Answer) (h : Handler) (hk : accepts h.log = k) :
    (readTurn answer h).Keeps (fun h => accepts h.log = k) fun
      | .error log => accepts log = k
      | .ok h => accepts h.log = k := by
  have hread : ∀ bread, accepts (h.log ++ [.read 0 h.bytesRemaining bread]) = k := by
    intro bread
    rw [accepts_append, hk]
    rfl
  unfold readTurn
  dsimp only
  split
  · split
    · trivial
    · split
      · exact hread _
      · split
        · exact hread _
        · trivial
  · exact hk

lemma handle_accepts (n : ℕ) (p : Pass) (log : List Event) :
    (clientHandle n p log).Keeps (fun h => accepts h.log = accepts log)
      (fun log' => accepts log' = accepts log) := by
  have hstart : accepts (⟨p.buffer, LEN, log⟩ : Handler).log = accepts log := rfl
  have hloop := loop_keeps (readTurn_accepts (accepts log)) n p.answers hstart
  unfold clientHandle
  split
  · rename_i h heq
    rw [heq] at hloop
    exact hloop
  · rename_i log' heq
    rw [heq] at hloop
    exact hloop
  · rename_i h heq
    rw [heq] at hloop
    show accepts (h.log ++ _) = accepts log
    rw [accepts_append, hloop]
    rfl
  · trivial

lemma accepts_before {n : ℕ} {p : Pass} (hp : ∀ log, ∃ h, clientHandle n p log = .again h)
    (before after : List Pass) (log : List Event) :
    accepts (socketV4 n (before ++ p :: after) log).2 ≤ accepts log + before.length + 1 := by
  induction before generalizing log with
  | nil =>
    obtain ⟨h, hagain⟩ := hp (log ++ [.accept p.accept])
    have hlog := handle_accepts n p (log ++ [.accept p.accept])
    rw [hagain] at hlog
    rw [List.nil_append, socketV4, hagain]
    exact (hlog.trans (accepts_append _ _)).le
  | cons q before ih =>
    have hlog := handle_accepts n q (log ++ [.accept q.accept])
    have haccept : accepts (log ++ [.accept q.accept]) = accepts log + 1 := accepts_append _ _
    rw [List.cons_append, socketV4, List.length_cons]
    cases hq : clientHandle n q (log ++ [.accept q.accept]) with
    | again h =>
      rw [hq] at hlog
      have hlog : accepts h.log = accepts (log ++ [.accept q.accept]) := hlog
      dsimp only
      omega
    | leave log' =>
      rw [hq] at hlog
      have hlog : accepts log' = accepts (log ++ [.accept q.accept]) := hlog
      have hrest := ih (log' ++ [.close q.accept])
      have hclose : accepts (log' ++ [.close q.accept]) = accepts log' := accepts_append _ _
      dsimp only
      omega
    | fault =>
      dsimp only
      omega

/-- **The end of the stream**: the handler of a client that closes before it has sent a block
does not end, and no other client is accepted. -/
theorem never_served (c : Client) (clientfd : ℕ) (write : {ret : ℤ // ret ≤ LEN})
    (buffer : Buf LEN) :
    ¬ Ends (c.pass clientfd write buffer) ∧ ∀ n before after,
      accepts (socketV4 n (before ++ c.pass clientfd write buffer :: after) []).2 ≤
        before.length + 1 := by
  have hwaits := client_waits c clientfd write buffer
  constructor
  · rintro ⟨n, log, hlog⟩
    obtain ⟨h, hagain⟩ := hwaits n []
    rw [hagain] at hlog
    cases hlog
  · intro n before after
    have hle := accepts_before (hwaits n) before after []
    have hnil : accepts [] = 0 := rfl
    omega

theorem not_ends_closed :
    ¬ ∀ (c : Client) (clientfd : ℕ) (write : {ret : ℤ // ret ≤ LEN}) (buffer : Buf LEN),
      Ends (c.pass clientfd write buffer) := by
  intro h
  obtain ⟨n, log, hlog⟩ := h ⟨[], by decide⟩ 4 ⟨LEN, le_rfl⟩ (Buf.zero LEN)
  obtain ⟨h', hagain⟩ := client_waits ⟨[], by decide⟩ 4 ⟨LEN, le_rfl⟩ (Buf.zero LEN) n []
  rw [hagain] at hlog
  cases hlog

end Csockets.EchoReads
