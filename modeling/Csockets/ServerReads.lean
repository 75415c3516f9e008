import Csockets.ServerLines

/-!
Reading lines back: the id and the text of a chat datagram, whatever its text is.
-/

namespace Csockets.ServerReads

open scoped List
open Bytes Chain Runs NetModel UsersModel UsersList UsersRefine FormatterModel ServerModel
  ServerLog ServerList Deliveries ServerSends ServerLines

/-- What is in a line: the id as it is printed, and the text. -/
def readLine (bytes : List UInt8) : ℕ × List UInt8 :=
  (readDecimal (bytes.take (MSG_ID_LEN - 1)),
    (bytes.drop (MSG_ID_LEN - 1 + (MSG_F_LEN - 1))).dropLast)

lemma readLine_line (id : UInt16) (text : List UInt8) :
    readLine (printf3u (id.toNat % 999) ++ separator ++ text ++ [newline]) =
      (id.toNat % 999, text) := by
  have hid : (printf3u (id.toNat % 999)).length = MSG_ID_LEN - 1 := printf3u_id id
  have hhead : (printf3u (id.toNat % 999) ++ separator).length =
      MSG_ID_LEN - 1 + (MSG_F_LEN - 1) := by
    rw [List.length_append, hid]
    rfl
  unfold readLine
  rw [List.append_assoc, List.drop_left' hhead, List.dropLast_concat, List.append_assoc,
    List.take_left' hid, readDecimal_printf3u]

/-! ### The formatter -/

/-- A length of zero makes the copy as long as can be, and more than the buffer has room for. -/
lemma msgFormatter_zero (f : Fmt) (senderId receiverId : UInt16) (body : List UInt8) :
    msgFormatter f senderId receiverId (some body) 0 = none := by
  have hsize : subSize (MIN 0 MSG_BODY_LEN) 1 = 2 ^ 64 - 1 := rfl
  have ht : MSG_TOTAL_LEN = 133 := rfl
  unfold msgFormatter
  simp only [Option.bind_eq_bind, Option.bind_eq_none_iff, hsize]
  intro idBuffer _ b₁ _ b₂ _ src hsrc b₃ hb₃
  exfalso
  obtain ⟨hle, -⟩ := Buf.write_bytes hb₃
  have hlen := b₂.size
  unfold readN at hsrc
  split at hsrc
  · rename_i hbody
    cases hsrc
    rw [List.length_take] at hle
    omega
  · cases hsrc

/-- **What `msg_formatter` writes can be read back**, and it stays within its buffers and the body
exactly when the length is not zero and the body covers what is copied. -/
theorem msgFormatter_reads (f : Fmt) (senderId receiverId : UInt16) (body : List UInt8)
    (len : ℕ) :
    (1 ≤ len ∧ kept len ≤ body.length ∧
      ∃ f' n, msgFormatter f senderId receiverId (some body) len = some (f', n) ∧
        readLine (f'.returnBuffer.bytes.take n) = (senderId.toNat % 999, body.take (kept len))) ∨
    ((len = 0 ∨ body.length < kept len) ∧
      msgFormatter f senderId receiverId (some body) len = none) := by
  rcases Nat.eq_zero_or_pos len with rfl | hpos
  · exact Or.inr ⟨Or.inl rfl, msgFormatter_zero f senderId receiverId body⟩
  · rcases Nat.lt_or_ge body.length (kept len) with hshort | hbody
    · refine Or.inr ⟨Or.inr hshort, ?_⟩
      have hread : readN body (subSize (MIN len MSG_BODY_LEN) 1) = none := by
        rw [subSize_MIN hpos]
        exact if_neg (by omega)
      unfold msgFormatter
      simp [hread]
    · obtain ⟨f', hf', hline⟩ := msgFormatter_spec f senderId receiverId hpos hbody
      refine Or.inl ⟨hpos, hbody, f', _, hf', ?_⟩
      rw [hline]
      exact readLine_line senderId _

/-! ### Runs -/

/-- A datagram that was accepted, and how many peers it was sent to. -/
structure Round where
  datagram : Datagram
  members : ℕ

def Round.reads (x : Round) : List (ℕ × List UInt8) :=
  List.replicate x.members (x.datagram.id.toNat % 999, sentOn x.datagram.data)

variable {sys : Sys} {L L' : List Entry} {input : Input} {io : Io} {ev : List Event}

lemma accepted_chats (u : UserData) (data : List UInt8) (L : List Entry) :
    accepted (L.map fun e => .chat (chatTo u data e.2)) = [] := by
  refine List.filterMap_eq_nil_iff.mpr fun x hx => ?_
  obtain ⟨e, -, rfl⟩ := List.mem_map.mp hx
  rfl

lemma sends_rounds (h : Sends sys input io L' ev) :
    ∃ xs : List Round, xs.map Round.datagram <+ (datagramOf input).toList ∧
      (chats ev).map (fun c => readLine c.buffer) = xs.flatMap Round.reads ∧
      (accepted ev).map (fun u => u.addr) = xs.map fun x => x.datagram.name.storage := by
  cases h with
  | nothing => exact ⟨[], List.nil_sublist _, rfl, rfl⟩
  | rejected u data mid hu hmid =>
    refine ⟨[], List.nil_sublist _, ?_, ?_⟩
    · rw [chats_append, chats_ofTable hmid]
      rfl
    · rw [accepted_append, accepted_ofTable hmid]
      rfl
  | accepted u data mid hu hmid =>
    rw [arrival_datagram] at hu
    obtain ⟨d, hd, heq⟩ := Option.map_eq_some_iff.mp hu
    cases heq
    refine ⟨[⟨d, L'.length⟩], ?_, ?_, ?_⟩
    · rw [hd]
      exact List.Sublist.refl _
    · have hreads : ∀ e : Entry,
          readLine (chatTo (d.user (sys.world.time io).1) d.data e.2).buffer =
            (d.id.toNat % 999, sentOn d.data) := by
        intro e
        rw [chatTo_buffer]
        exact readLine_line _ _
      rw [chats_append, chats_append, chats_ofTable hmid, chats_map]
      simp only [List.nil_append, List.map_append, List.map_map, Function.comp_def, hreads]
      simp [chats, chatOf, Round.reads]
    · rw [accepted_append, accepted_append, accepted_ofTable hmid, accepted_chats]
      rfl

/-- **A run read back**: the chat datagrams of a run, read one after the other, are the ids and the
texts of the messages that were accepted, in the order these came in, each as often as there were
peers to send it to; no text, whatever is in it, hides where its line begins or ends. -/
theorem runs_read (sys : Sys) (timeout : ℤ) (inputs : List Input) :
    ∃ s, runs (handle sys) inputs (started timeout) = some s ∧
      ∃ rounds : List Round,
        rounds.map Round.datagram <+ inputs.filterMap datagramOf ∧
        (chats s.io.log).map (fun c => readLine c.buffer) = rounds.flatMap Round.reads ∧
        (accepted s.io.log).map (fun u => u.addr) =
          rounds.map fun x => x.datagram.name.storage := by
  suffices hrun : ∀ (s : Server) (L : List Entry), Rep s L →
      ∃ s', runs (handle sys) inputs s = some s' ∧ ∃ ev, s'.io.log = s.io.log ++ ev ∧
        ∃ rounds : List Round,
          rounds.map Round.datagram <+ inputs.filterMap datagramOf ∧
          (chats ev).map (fun c => readLine c.buffer) = rounds.flatMap Round.reads ∧
          (accepted ev).map (fun u => u.addr) = rounds.map fun x => x.datagram.name.storage by
    obtain ⟨s, hs, ev, hlog, hrounds⟩ := hrun (started timeout) [] Holds.empty
    have hev : s.io.log = ev := hlog
    rw [← hev] at hrounds
    exact ⟨s, hs, hrounds⟩
  induction inputs with
  | nil =>
    intro s L _
    exact ⟨s, rfl, [], (List.append_nil _).symm, [], List.nil_sublist _, rfl, rfl⟩
  | cons input inputs ih =>
    intro s L hrep
    obtain ⟨s₁, L₁, hs₁, hrep₁, -, hh⟩ := handle_spec sys input hrep
    obtain ⟨ev₁, hlog₁, hsends⟩ := sends_of_handled hh
    obtain ⟨xs, hsub, hchats, haccepted⟩ := sends_rounds hsends
    obtain ⟨s', hs', ev, hlog, rounds, hsub', hchats', haccepted'⟩ := ih s₁ L₁ hrep₁
    refine ⟨s', ?_, ev₁ ++ ev, ?_, xs ++ rounds, ?_, ?_, ?_⟩
    · rw [runs_cons hs₁, hs']
    · rw [hlog, hlog₁, List.append_assoc]
    · have hsplit : (input :: inputs).filterMap datagramOf =
          (datagramOf input).toList ++ inputs.filterMap datagramOf := by
        cases hd : datagramOf input <;> simp [hd]
      rw [List.map_append, hsplit]
      exact hsub.append hsub'
    · rw [chats_append, List.map_append, hchats, hchats', List.flatMap_append]
    · rw [accepted_append, List.map_append, haccepted, haccepted', List.map_append]

end Csockets.ServerReads
