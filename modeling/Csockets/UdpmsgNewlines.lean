import Csockets.UdpmsgModel

/-!
The loop of the datagram server that takes newlines off the end of a packet: with anything else
in the packet it stops there, and without it counts past 0.
-/

namespace Csockets.UdpmsgNewlines

open Bytes Loops UdpmsgModel

structure Datagram where
  bytes : List UInt8
  pos : 1 ≤ bytes.length
  fits : bytes.length ≤ MAX_PACKET_SIZE - 1

def Datagram.stripped (d : Datagram) : List UInt8 := d.bytes.rdropWhile (· = NEWLINE)

/-- Over a buffer with the datagram in it the loop ends, inside the datagram, and then the
buffer holds the stripped datagram, NULs up to the one behind the datagram, and what it held. -/
def Strips (b : Buf MAX_PACKET_SIZE) (d : Datagram) : Prop :=
  ∃ b₁ b₂ turns t, b.write 0 d.bytes = some b₁ ∧ b₁.write d.bytes.length [0] = some b₂ ∧
    trim turns (.start b₂ d.bytes.length) = .leave t ∧
    (∀ i ∈ t.touched, i < d.bytes.length) ∧
    t.buffer.bytes = d.stripped ++
      List.replicate (d.bytes.length + 1 - d.stripped.length) 0 ++
      b.bytes.drop (d.bytes.length + 1)

variable {b : Buf MAX_PACKET_SIZE} {pre tail : List UInt8} {c : UInt8} {touched : List ℕ}

/-! ### One turn -/

lemma toNat_index (hb : b.bytes = pre ++ c :: tail) :
    (UInt64.ofNat pre.length).toNat = pre.length := by
  have hsize : b.bytes.length = 1212 := b.size
  rw [hb, List.length_append, List.length_cons] at hsize
  exact UInt64.toNat_ofNat_of_lt' (by simp only [UInt64.size]; omega)

lemma trimTurn_kept (hb : b.bytes = pre ++ c :: tail) (hc : c ≠ NEWLINE) :
    trimTurn ⟨b, UInt64.ofNat pre.length, touched⟩ =
      .leave ⟨b, UInt64.ofNat pre.length, touched ++ [pre.length]⟩ := by
  unfold trimTurn
  dsimp only
  rw [toNat_index hb, hb, List.getElem?_append_right le_rfl, Nat.sub_self]
  dsimp only [List.getElem?_cons_zero]
  rw [if_neg hc]

lemma trimTurn_newline (hb : b.bytes = pre ++ NEWLINE :: tail) :
    ∃ b' : Buf MAX_PACKET_SIZE, b'.bytes = pre ++ 0 :: tail ∧
      trimTurn ⟨b, UInt64.ofNat pre.length, touched⟩ =
        .again ⟨b', UInt64.ofNat pre.length - 1, touched ++ [pre.length, pre.length]⟩ := by
  have hsize := b.size
  rw [hb, List.length_append, List.length_cons] at hsize
  obtain ⟨b', hb'⟩ := b.write_fits pre.length [0] (by rw [List.length_singleton]; omega)
  have htake := Buf.take_write hb'
  have hdrop := Buf.drop_write hb' (k := pre.length + 1) (by simp)
  refine ⟨b', ?_, ?_⟩
  · rw [← List.take_append_drop (pre.length + 1) b'.bytes, hdrop,
      show b'.bytes.take (pre.length + 1) = pre ++ [0] from ?_, hb, ← List.drop_drop,
      List.drop_left, List.append_assoc]
    · rfl
    · rw [hb, List.take_left] at htake
      exact htake
  · unfold trimTurn
    dsimp only
    rw [toNat_index hb, hb, List.getElem?_append_right le_rfl, Nat.sub_self]
    dsimp only [List.getElem?_cons_zero]
    rw [if_pos rfl, hb']

lemma trimTurn_wrapped (b : Buf MAX_PACKET_SIZE) (touched : List ℕ) :
    trimTurn ⟨b, 0 - 1, touched⟩ = .fault := by
  have hsize := b.size
  unfold trimTurn
  dsimp only
  rw [List.getElem?_eq_none (by rw [hsize]; decide)]

/-! ### The loop -/

lemma ofNat_succ_sub_one (k : ℕ) : UInt64.ofNat (k + 1) - 1 = UInt64.ofNat k := by
  rw [UInt64.ofNat_add]
  simp

/-- **A byte that is kept**: the loop overwrites the newlines behind it and stops at it. -/
lemma trim_kept (m : ℕ) (hc : c ≠ NEWLINE)
    (hb : b.bytes = pre ++ c :: (List.replicate m NEWLINE ++ tail)) :
    ∃ t, trim (m + 1) ⟨b, UInt64.ofNat (pre.length + m), touched⟩ = .leave t ∧
      t.buffer.bytes = pre ++ c :: (List.replicate m 0 ++ tail) ∧
      ∀ i ∈ t.touched, i ∈ touched ∨ i ≤ pre.length + m := by
  induction m generalizing b tail touched with
  | zero =>
    refine ⟨_, loop_leave (trimTurn_kept hb hc) 0, hb, fun i hi => ?_⟩
    rw [List.mem_append, List.mem_singleton] at hi
    exact hi.imp_right le_of_eq
  | succ m ih =>
    have hlen : (pre ++ c :: List.replicate m NEWLINE).length = pre.length + (m + 1) := by simp
    have hb₀ : b.bytes = (pre ++ c :: List.replicate m NEWLINE) ++ NEWLINE :: tail := by
      rw [hb, List.replicate_succ']
      simp
    obtain ⟨b', hb', hturn⟩ := @trimTurn_newline _ _ _ touched hb₀
    rw [hlen] at hturn
    rw [← Nat.add_assoc, ofNat_succ_sub_one] at hturn
    obtain ⟨t, hloop, hbytes, htouched⟩ := @ih b' (0 :: tail) _ (hb'.trans (by simp))
    refine ⟨t, (loop_again hturn _).trans hloop, hbytes.trans ?_, fun i hi => ?_⟩
    · rw [List.replicate_succ']
      simp
    · have hi := htouched i hi
      simp only [List.mem_append, List.mem_cons, List.not_mem_nil, or_false, or_self] at hi
      obtain (hi | hi) | hi := hi
      · exact Or.inl hi
      · exact Or.inr hi.le
      · exact Or.inr (hi.trans (Nat.le_succ _))

/-- Newlines up to the front of the buffer, and the index behind them. -/
def AllNewlines (t : Trim) : Prop :=
  ∃ m tail, t.buffer.bytes = List.replicate m NEWLINE ++ tail ∧ t.n = UInt64.ofNat m - 1

lemma trimTurn_allNewlines {t : Trim} (h : AllNewlines t) :
    (trimTurn t).Keeps AllNewlines fun _ => False := by
  obtain ⟨b, n, touched⟩ := t
  obtain ⟨m, tail, hb, hn⟩ := h
  dsimp only at hb hn
  subst hn
  cases m with
  | zero =>
    show (trimTurn ⟨b, 0 - 1, touched⟩).Keeps _ _
    rw [trimTurn_wrapped]
    trivial
  | succ m =>
    have hb₀ : b.bytes = List.replicate m NEWLINE ++ NEWLINE :: tail := by
      rw [hb, List.replicate_succ']
      simp
    obtain ⟨b', hb', hturn⟩ := @trimTurn_newline _ _ _ touched hb₀
    rw [ofNat_succ_sub_one]
    rw [List.length_replicate] at hturn
    rw [hturn]
    exact ⟨m, 0 :: tail, hb', rfl⟩

/-- **Nothing but newlines**: the loop does not end. -/
lemma trim_allNewlines {t : Trim} (h : AllNewlines t) (turns : ℕ) (r : Trim) :
    trim turns t ≠ .leave r := by
  intro hleave
  have hkeeps := loop_keeps (fun _ _ => trimTurn_allNewlines) turns (Stream'.const ()) h
  unfold trim at hleave
  rw [hleave] at hkeeps
  exact hkeeps

/-! ### Datagrams -/

lemma stripped_concat {d : Datagram} (h : ∃ c ∈ d.bytes, c ≠ NEWLINE) :
    ∃ pre c m, c ≠ NEWLINE ∧ d.stripped = pre ++ [c] ∧
      d.bytes = pre ++ c :: List.replicate m NEWLINE := by
  have hne : d.stripped ≠ [] := by
    intro hnil
    obtain ⟨c, hc, hcne⟩ := h
    have hall := List.rdropWhile_eq_nil_iff.mp hnil c hc
    exact hcne (of_decide_eq_true hall)
  have hlast := List.rdropWhile_last_not _ _ hne
  have hrest : d.bytes.rtakeWhile (· = NEWLINE) =
      List.replicate (d.bytes.rtakeWhile (· = NEWLINE)).length NEWLINE :=
    List.eq_replicate_of_mem fun c hc => by
      have hp := List.mem_rtakeWhile_imp hc
      exact of_decide_eq_true hp
  have hconcat := List.dropLast_concat_getLast hne
  have hbytes : d.stripped ++ d.bytes.rtakeWhile (· = NEWLINE) = d.bytes :=
    List.rdropWhile_append_rtakeWhile
  rw [hrest, ← hconcat, List.append_assoc, List.singleton_append] at hbytes
  exact ⟨_, _, _, fun h => hlast (decide_eq_true h), hconcat.symm, hbytes.symm⟩

lemma bytes_allNewlines {d : Datagram} (h : ¬ ∃ c ∈ d.bytes, c ≠ NEWLINE) :
    d.bytes = List.replicate d.bytes.length NEWLINE :=
  List.eq_replicate_of_mem fun c hc => not_not.mp fun hne => h ⟨c, hc, hne⟩

lemma received (b : Buf MAX_PACKET_SIZE) (d : Datagram) :
    ∃ b₁ b₂, b.write 0 d.bytes = some b₁ ∧ b₁.write d.bytes.length [0] = some b₂ ∧
      b₂.bytes = d.bytes ++ 0 :: b.bytes.drop (d.bytes.length + 1) := by
  have hfits : d.bytes.length ≤ 1212 - 1 := d.fits
  have hMAX : MAX_PACKET_SIZE = 1212 := rfl
  obtain ⟨b₁, hb₁⟩ := b.write_fits 0 d.bytes (by omega)
  obtain ⟨b₂, hb₂⟩ := b₁.write_fits d.bytes.length [0] (by rw [List.length_singleton]; omega)
  refine ⟨b₁, b₂, hb₁, hb₂, ?_⟩
  have htake₁ : b₁.bytes.take d.bytes.length = d.bytes := by
    have h := Buf.take_write hb₁
    rwa [Nat.zero_add, List.take_zero, List.nil_append] at h
  have htake₂ : b₂.bytes.take (d.bytes.length + 1) = d.bytes ++ [0] := by
    have h := Buf.take_write hb₂
    rwa [htake₁] at h
  have hdrop₁ : b₁.bytes.drop (d.bytes.length + 1) = b.bytes.drop (d.bytes.length + 1) :=
    Buf.drop_write hb₁ (by omega)
  have hdrop₂ : b₂.bytes.drop (d.bytes.length + 1) = b₁.bytes.drop (d.bytes.length + 1) :=
    Buf.drop_write hb₂ (by simp)
  rw [← List.take_append_drop (d.bytes.length + 1) b₂.bytes, htake₂, hdrop₂, hdrop₁,
    List.append_assoc]
  rfl

/-- **Another byte**: the loop ends within as many turns as the datagram has bytes. -/
lemma trim_other {b b₂ : Buf MAX_PACKET_SIZE} {d : Datagram} (h : ∃ c ∈ d.bytes, c ≠ NEWLINE)
    (hb₂ : b₂.bytes = d.bytes ++ 0 :: b.bytes.drop (d.bytes.length + 1)) :
    ∃ t, trim d.bytes.length (.start b₂ d.bytes.length) = .leave t ∧
      (∀ i ∈ t.touched, i < d.bytes.length) ∧
      t.buffer.bytes = d.stripped ++
        List.replicate (d.bytes.length + 1 - d.stripped.length) 0 ++
        b.bytes.drop (d.bytes.length + 1) := by
  obtain ⟨pre, c, m, hc, hstripped, hbytes⟩ := stripped_concat h
  have hlen : d.bytes.length = m + 1 + pre.length := by
    rw [hbytes, List.length_append, List.length_cons, List.length_replicate, Nat.add_comm]
  have hb : b₂.bytes =
      pre ++ c :: (List.replicate m NEWLINE ++ 0 :: b.bytes.drop (d.bytes.length + 1)) := by
    rw [hb₂]
    nth_rewrite 1 [hbytes]
    rw [List.append_assoc, List.cons_append]
  have hstart : Trim.start b₂ d.bytes.length = ⟨b₂, UInt64.ofNat (pre.length + m), []⟩ := by
    unfold Trim.start
    congr 2
    omega
  have hnuls : d.bytes.length + 1 - d.stripped.length = m + 1 := by
    rw [hstripped, hlen, List.length_append, List.length_singleton]
    omega
  obtain ⟨t, htrim, ht, htouched⟩ := @trim_kept b₂ pre _ c [] m hc hb
  refine ⟨t, ?_, fun i hi => ?_, ?_⟩
  · rw [hstart, hlen]
    exact loop_stable htrim pre.length
  · have hi := (htouched i hi).resolve_left List.not_mem_nil
    omega
  · rw [ht, hnuls, hstripped, List.replicate_succ']
    simp

lemma strips_of_other {b : Buf MAX_PACKET_SIZE} {d : Datagram} (h : ∃ c ∈ d.bytes, c ≠ NEWLINE) :
    Strips b d := by
  obtain ⟨b₁, b₂, hb₁, hb₂, hreceived⟩ := received b d
  obtain ⟨t, htrim, htouched, ht⟩ := trim_other h hreceived
  exact ⟨b₁, b₂, _, t, hb₁, hb₂, htrim, htouched, ht⟩

lemma start_allNewlines {b b₂ : Buf MAX_PACKET_SIZE} {d : Datagram}
    (h : ¬ ∃ c ∈ d.bytes, c ≠ NEWLINE)
    (hb₂ : b₂.bytes = d.bytes ++ 0 :: b.bytes.drop (d.bytes.length + 1)) :
    AllNewlines (.start b₂ d.bytes.length) := by
  rw [bytes_allNewlines h] at hb₂
  refine ⟨d.bytes.length, _, hb₂, ?_⟩
  obtain ⟨k, hk⟩ := Nat.exists_eq_succ_of_ne_zero (Nat.one_le_iff_ne_zero.mp d.pos)
  unfold Trim.start
  rw [hk, Nat.succ_sub_one, ofNat_succ_sub_one]

lemma other_of_strips {b : Buf MAX_PACKET_SIZE} {d : Datagram} (h : Strips b d) :
    ∃ c ∈ d.bytes, c ≠ NEWLINE := by
  by_contra hnone
  obtain ⟨b₁, b₂, turns, t, hb₁, hb₂, htrim, -⟩ := h
  obtain ⟨b₁', b₂', hb₁', hb₂', hreceived⟩ := received b d
  obtain rfl : b₁' = b₁ := Option.some.inj (hb₁'.symm.trans hb₁)
  obtain rfl : b₂' = b₂ := Option.some.inj (hb₂'.symm.trans hb₂)
  exact trim_allNewlines (start_allNewlines hnone hreceived) turns t htrim

/-- **Trailing newlines**: the loop takes them off as it should if and only if the datagram has
a byte that is not a newline. -/
theorem strips_iff (b : Buf MAX_PACKET_SIZE) (d : Datagram) :
    Strips b d ↔ ∃ c ∈ d.bytes, c ≠ NEWLINE :=
  ⟨other_of_strips, strips_of_other⟩

def newline : Datagram := ⟨[NEWLINE], by decide, by decide⟩

theorem not_strips_newline : ¬ ∀ b d, Strips b d := by
  intro h
  obtain ⟨c, hc, hne⟩ := other_of_strips (h (Buf.zero _) newline)
  exact hne (List.mem_singleton.mp hc)

/-! ### The server -/

variable {inetNtop : List UInt8 → Option String}

lemma cstring_nul (l rest : List UInt8) : cstring (l ++ 0 :: rest) = cstring l := by
  unfold cstring
  induction l with
  | nil => rfl
  | cons c l ih =>
    rw [List.cons_append, List.takeWhile_cons, List.takeWhile_cons, ih]

lemma packet_other {d : Datagram} {addr : List UInt8} (s : Server) (haddr : addr.length < 28)
    (h : ∃ c ∈ d.bytes, c ≠ NEWLINE) {clientaddr : Buf sizeofSockaddr}
    (hclient : s.clientaddr.write 0 (addr.take sizeofSockaddr) = some clientaddr) {ip : String}
    (hntop : (inetNtop ((clientaddr.bytes.drop 4).take 4)).getD s.ipaddr = ip) :
    ∃ buffer, packet inetNtop d.bytes addr s = some ⟨buffer, clientaddr, ip, s.errcount,
      s.printed ++ [.ipv4, .received ip d.bytes.length (cstring d.stripped)]⟩ := by
  obtain ⟨b₁, b₂, hb₁, hb₂, hreceived⟩ := received s.buffer d
  obtain ⟨t, htrim, -, ht⟩ := trim_other h hreceived
  have hip : readN (clientaddr.bytes.drop 4) 4 = some ((clientaddr.bytes.drop 4).take 4) := by
    have hsize : clientaddr.bytes.length = 16 := clientaddr.size
    exact readN_of_le (by rw [List.length_drop]; omega)
  have hturns : trim MAX_PACKET_SIZE (.start b₂ d.bytes.length) = .leave t := by
    have hstable := loop_stable htrim (MAX_PACKET_SIZE - d.bytes.length)
    rwa [Nat.add_sub_cancel' (d.fits.trans (by decide))] at hstable
  have htext : cstring t.buffer.bytes = cstring d.stripped := by
    have hle : d.stripped.length ≤ d.bytes.length := (List.rdropWhile_prefix _ _).length_le
    rw [ht, Nat.sub_add_comm hle, List.replicate_succ, List.append_assoc, List.cons_append,
      cstring_nul]
  have hne : d.bytes.length ≠ 0 := Nat.one_le_iff_ne_zero.mp d.pos
  refine ⟨t.buffer, ?_⟩
  unfold packet
  rw [hb₁, hclient]
  simp only [Option.bind_eq_bind, Option.bind_some, if_neg hne, if_neg (Nat.not_le.mpr haddr),
    ge_iff_le, hip, Option.map_some, hb₂, hturns, hntop, htext, List.append_assoc,
    List.singleton_append]

lemma packet_nil {addr : List UInt8} (s : Server) {clientaddr : Buf sizeofSockaddr}
    (hclient : s.clientaddr.write 0 (addr.take sizeofSockaddr) = some clientaddr) :
    ∃ buffer, packet inetNtop [] addr s =
      some ⟨buffer, clientaddr, s.ipaddr, s.errcount, s.printed ++ [.empty]⟩ := by
  obtain ⟨b₁, hb₁⟩ := s.buffer.write_fits 0 [] (by decide)
  refine ⟨b₁, ?_⟩
  unfold packet
  rw [hb₁, hclient]
  rfl

lemma stores_addr (s : Server) (addr : List UInt8) :
    ∃ clientaddr, s.clientaddr.write 0 (addr.take sizeofSockaddr) = some clientaddr :=
  s.clientaddr.write_fits 0 (addr.take sizeofSockaddr) (by simp)

/-- What the server gets over: an error, an empty datagram, or one that is not newlines only
from a sender whose address has the room it needs. -/
def Harmless : Recv → Prop
  | .fail _ => True
  | .packet bytes _ addr => bytes = [] ∨ addr.length < 28 ∧ ∃ c ∈ bytes, c ≠ NEWLINE

end Csockets.UdpmsgNewlines
