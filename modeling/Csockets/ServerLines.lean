import Csockets.ServerSends

/-!
What a recipient reads: when a chat datagram is one line that starts with its sender's id.
-/

namespace Csockets.ServerLines

open Bytes Chain Runs NetModel UsersModel UsersList UsersRefine FormatterModel ServerModel
  ServerLog ServerList Deliveries ServerRules ServerSends UserIds

variable {sys : Sys}

/-- One line, which starts with the id as a right-aligned decimal. -/
def OneLine (id : UInt16) (bytes : List UInt8) : Prop :=
  ∃ text, bytes = text ++ [newline] ∧ newline ∉ text ∧ printf3u id.toNat <+: text

/-- The part of a payload that is sent on: all but its last byte, and no more than the body has
room for. -/
def sentOn (data : List UInt8) : List UInt8 := data.take (min data.length MSG_BODY_LEN - 1)

lemma kept_MIN (n : ℕ) : kept (MIN n MAX_MSG_SIZE) = min n MSG_BODY_LEN - 1 := by
  have hb : MSG_BODY_LEN = 127 := rfl
  have hm : MAX_MSG_SIZE = 2048 := rfl
  rw [kept, MIN_eq, MIN_eq]
  omega

lemma chatTo_buffer (sender : UserData) (data : List UInt8) (u : UserData) :
    (chatTo sender data u).buffer =
      printf3u (sender.id.toNat % 999) ++ separator ++ sentOn data ++ [newline] := by
  rw [chatTo, line, kept_MIN]
  rfl

/-- A line is well formed exactly when nothing in its body ends it and its id is printed as it
is. -/
lemma oneLine_iff {id : UInt16} (hid : id.toNat ≤ 999) (body : List UInt8) :
    OneLine id (printf3u (id.toNat % 999) ++ separator ++ body ++ [newline]) ↔
      newline ∉ body ∧ id.toNat ≠ 999 := by
  constructor
  · rintro ⟨text, heq, hno, hpre⟩
    obtain rfl := List.append_cancel_right heq
    refine ⟨fun hb => hno (by simp [hb]), fun h999 => ?_⟩
    -- both ids take three characters
    rw [List.append_assoc] at hpre
    have htake := List.prefix_iff_eq_take.mp hpre
    rw [printf3u_length (by omega), ← printf3u_id id, List.take_left] at htake
    have := printf3u_injective htake
    omega
  · rintro ⟨hb, hne⟩
    rw [Nat.mod_eq_of_lt (by omega)]
    refine ⟨_, rfl, ?_, ?_⟩
    · have hsep : newline ∉ separator := by decide
      simp [newline_notMem_printf3u, hsep, hb]
    · rw [List.append_assoc]
      exact List.prefix_append _ _

lemma createUser_id {sfd : ℤ} {name : Sockaddr} {user : UserData}
    (h : createUser sfd name = some user) : user.id = userCalculateId user ∧ InetUser user := by
  unfold createUser at h
  dsimp only at h
  split at h
  · cases h
    exact ⟨rfl, Or.inl rfl⟩
  · split at h
    · cases h
      exact ⟨rfl, Or.inr rfl⟩
    · cases h

lemma chatTo_oneLine_iff {sfd now : ℤ} {name : Sockaddr} {user : UserData}
    (h : createUser sfd name = some user) (data : List UInt8) (u : UserData) :
    OneLine user.id (chatTo (stamp user now) data u).buffer ↔
      newline ∉ sentOn data ∧ ¬ ReservedSum user := by
  obtain ⟨hid, hinet⟩ := createUser_id h
  obtain ⟨-, hle, h999⟩ := userCalculateId_range hinet
  rw [chatTo_buffer]
  rw [← hid] at hle h999
  rw [← h999]
  exact oneLine_iff hle (sentOn data)

variable (sys) in
lemma msgHandle_chats (sfd : ℤ) (name : Sockaddr) (data : List UInt8) {s : Server} {L : List Entry}
    {user : UserData} (hrep : Rep s L) (hc : createUser sfd name = some user) :
    ∃ s' ev, msgHandle sys ⟨sfd, .datagram name data⟩ s = some (0, s') ∧
      s'.io.log = s.io.log ++ ev ∧
      ∀ c ∈ chats ev, data ≠ [] ∧ ∃ e, c = chatTo (stamp user (sys.time s.io.times)) data e := by
  obtain ⟨s', L', hs', -, -, hh⟩ := msgHandle_spec sys ⟨sfd, .datagram name data⟩ hrep
  obtain ⟨ev, hlog, hsends⟩ := sends_of_handled hh
  have hret : returned ⟨sfd, .datagram name data⟩ = 0 := by simp [returned, hc]
  refine ⟨s', ev, by rw [hs', hret], hlog, fun c hmem => ?_⟩
  rcases hsends.chats_eq with hnil | ⟨u, d, hu, -, heq⟩
  · rw [hnil] at hmem
    cases hmem
  · obtain ⟨name', user', hr, hd, hc', rfl⟩ := arrival_eq hu
    cases hr
    rw [hc] at hc'
    cases hc'
    rw [heq] at hmem
    obtain ⟨e, -, rfl⟩ := List.mem_map.mp hmem
    exact ⟨hd, e.2, rfl⟩

lemma reachable_chats (sys : Sys) (timeout : ℤ) (inputs : List Input) :
    ∃ s, runs (handle sys) inputs (started timeout) = some s ∧
      ∀ sfd name data user, createUser sfd name = some user →
        ∃ s' ev, msgHandle sys ⟨sfd, .datagram name data⟩ s = some (0, s') ∧
          s'.io.log = s.io.log ++ ev ∧
          ∀ c ∈ chats ev,
            data ≠ [] ∧ ∃ e, c = chatTo (stamp user (sys.time s.io.times)) data e := by
  obtain ⟨s, L, hs, hrep, -, -⟩ := (ServerTable.goodRules sys timeout True).run ServerTable.good_nil
    (along_all (fun _ _ _ => trivial) inputs _)
  exact ⟨s, hs, fun sfd name data _ hc => msgHandle_chats sys sfd name data hrep hc⟩

/-- **When a chat datagram is one line of its sender**: exactly when the part of the payload
that is sent on has no newline and the sender's address does not sum to a reserved value. -/
theorem reachable_oneLine_iff (sys : Sys) (timeout : ℤ) (inputs : List Input) :
    ∃ s, runs (handle sys) inputs (started timeout) = some s ∧
      ∀ sfd name data user, createUser sfd name = some user →
        ∃ s' ev, msgHandle sys ⟨sfd, .datagram name data⟩ s = some (0, s') ∧
          s'.io.log = s.io.log ++ ev ∧
          ∀ c ∈ chats ev,
            OneLine user.id c.buffer ↔ newline ∉ sentOn data ∧ ¬ ReservedSum user := by
  obtain ⟨s, hs, hall⟩ := reachable_chats sys timeout inputs
  refine ⟨s, hs, fun sfd name data user hc => ?_⟩
  obtain ⟨s', ev, hs', hlog, hchats⟩ := hall sfd name data user hc
  refine ⟨s', ev, hs', hlog, fun c hmem => ?_⟩
  obtain ⟨-, e, rfl⟩ := hchats c hmem
  exact chatTo_oneLine_iff hc data e

lemma handled_first {timeout : ℤ} {fresh : ℕ} {input : Input} {L' : List Entry} {io io' : Io}
    (h : Handled sys timeout fresh input [] io L' io') {u : UserData} {data : List UInt8}
    (hu : arrival sys input io = some (u, data)) (hm : sys.malloc io.mallocs = true) :
    chats io'.log = chats io.log ++ [chatTo u data u] := by
  have hfirst : update sys.world (timeoutFunc sys) timeout u fresh [] (sys.world.time io).2 =
      some (0, [(fresh, u)], (sys.world.malloc (sys.world.time io).2).2) := if_pos hm
  rcases handled_outcome h with ⟨hn, -, -⟩ | ⟨u', data', r, io₁, hu', hup, hc⟩
  · rw [arrival, hn] at hu
    cases hu
  · rw [hu] at hu'
    cases hu'
    rw [hfirst] at hup
    cases hup
    exact hc

def idle : Sys := ⟨fun _ => 0, fun _ => true, fun _ => 1⟩

def name4 : Sockaddr where
  bytes := [2, 0, 0x30, 0x39, 10, 0, 0, 1] ++ List.replicate 8 0
  inet _ := ⟨by decide, by decide⟩
  inet6 h := by cases h

lemma first_message {data : List UInt8} (hd : data ≠ []) :
    ∃ user s' ev, createUser 3 name4 = some user ∧
      msgHandle idle ⟨3, .datagram name4 data⟩ (started 70) = some (0, s') ∧
      s'.io.log = (started 70).io.log ++ ev ∧
      chatTo (stamp user 0) data (stamp user 0) ∈ chats ev := by
  obtain ⟨user, hc⟩ : ∃ user, createUser 3 name4 = some user := ⟨_, rfl⟩
  obtain ⟨s', L', hs', -, -, hh⟩ := msgHandle_spec idle ⟨3, .datagram name4 data⟩
    (s := started 70) Holds.empty
  obtain ⟨ev, hlog, hsends⟩ := sends_of_handled hh
  have hu : arrival idle ⟨3, .datagram name4 data⟩ (started 70).io = some (stamp user 0, data) := by
    simp [arrival, peerOf, hd, hc, idle]
  have hchats := handled_first hh hu rfl
  rw [hlog, chats_append] at hchats
  have hret : returned ⟨3, .datagram name4 data⟩ = 0 := by simp [returned, hc]
  refine ⟨user, s', ev, hc, by rw [hs', hret], hlog, ?_⟩
  rw [List.append_cancel_left hchats]
  exact List.mem_singleton_self _

/-- The peer at 10.0.0.1 sends a line that looks like a notice of the server. -/
theorem not_oneLine_forged :
    ¬ ∀ (sys : Sys) (timeout : ℤ) (inputs : List Input) (s s' : Server) (ev : List Event)
      (sfd : ℤ) (name : Sockaddr) (data : List UInt8) (user : UserData),
      runs (handle sys) inputs (started timeout) = some s → createUser sfd name = some user →
      data ≠ [] → msgHandle sys ⟨sfd, .datagram name data⟩ s = some (0, s') →
      s'.io.log = s.io.log ++ ev → ∀ c ∈ chats ev, OneLine user.id c.buffer := by
  intro h
  let data := "hi\n  0| bye\n".toList.map Char.toUInt8
  have hd : data ≠ [] := by decide
  obtain ⟨user, s', ev, hc, hs', hlog, hmem⟩ := first_message hd
  have hone := h idle 70 [] (started 70) s' ev 3 name4 data user rfl hc hd hs' hlog _ hmem
  exact ((chatTo_oneLine_iff hc data _).mp hone).1 (by decide)

/-! ### The text of a message -/

/-- A chat datagram with the given text between the separator and the final newline. -/
def Carries (bytes text : List UInt8) : Prop :=
  ∃ id, id.length = MSG_ID_LEN - 1 ∧ bytes = id ++ separator ++ text ++ [newline]

def text (data : List UInt8) : List UInt8 :=
  if data.getLast? = some newline then data.dropLast else data

lemma carries_iff {id body text : List UInt8} (hid : id.length = MSG_ID_LEN - 1) :
    Carries (id ++ separator ++ body ++ [newline]) text ↔ body = text := by
  constructor
  · rintro ⟨id', hid', heq⟩
    have hpre := List.append_cancel_right heq
    rw [List.append_assoc, List.append_assoc] at hpre
    obtain ⟨-, hrest⟩ := List.append_inj hpre (hid.trans hid'.symm)
    exact List.append_cancel_left hrest
  · rintro rfl
    exact ⟨id, hid, rfl⟩

lemma sentOn_eq_iff {data : List UInt8} (h : data ≠ []) :
    sentOn data = (text data).take (MSG_BODY_LEN - 1) ↔
      data.getLast? = some newline ∨ MSG_BODY_LEN ≤ data.length := by
  have hb : MSG_BODY_LEN = 127 := rfl
  have hpos := List.length_pos_iff.mpr h
  unfold sentOn text
  by_cases hnl : data.getLast? = some newline
  · rw [if_pos hnl]
    refine iff_of_true ?_ (Or.inl hnl)
    rw [List.dropLast_eq_take, List.take_take, ← Nat.sub_min_sub_right, min_comm]
  · rw [if_neg hnl]
    constructor
    · intro heq
      have hlen := congrArg List.length heq
      rw [List.length_take, List.length_take] at hlen
      exact Or.inr (by omega)
    · rintro (hfalse | hlong)
      · exact absurd hfalse hnl
      · rw [min_eq_right hlong]

lemma chatTo_carries_iff (sender u : UserData) {data : List UInt8} (h : data ≠ []) :
    Carries (chatTo sender data u).buffer ((text data).take (MSG_BODY_LEN - 1)) ↔
      data.getLast? = some newline ∨ MSG_BODY_LEN ≤ data.length := by
  rw [chatTo_buffer, carries_iff (printf3u_id sender.id), sentOn_eq_iff h]

/-- **When no byte of a payload is lost**: a chat datagram carries the text of the payload, cut
to the room there is, exactly when the payload ends in a newline or is longer than that. -/
theorem reachable_carries_iff (sys : Sys) (timeout : ℤ) (inputs : List Input) :
    ∃ s, runs (handle sys) inputs (started timeout) = some s ∧
      ∀ sfd name data user, createUser sfd name = some user →
        ∃ s' ev, msgHandle sys ⟨sfd, .datagram name data⟩ s = some (0, s') ∧
          s'.io.log = s.io.log ++ ev ∧
          ∀ c ∈ chats ev, Carries c.buffer ((text data).take (MSG_BODY_LEN - 1)) ↔
            data.getLast? = some newline ∨ MSG_BODY_LEN ≤ data.length := by
  obtain ⟨s, hs, hall⟩ := reachable_chats sys timeout inputs
  refine ⟨s, hs, fun sfd name data user hc => ?_⟩
  obtain ⟨s', ev, hs', hlog, hchats⟩ := hall sfd name data user hc
  refine ⟨s', ev, hs', hlog, fun c hmem => ?_⟩
  obtain ⟨hd, e, rfl⟩ := hchats c hmem
  exact chatTo_carries_iff _ e hd

/-- The last letter of a message without a newline is not sent on. -/
theorem not_carries_unterminated :
    ¬ ∀ (sys : Sys) (timeout : ℤ) (inputs : List Input) (s s' : Server) (ev : List Event)
      (sfd : ℤ) (name : Sockaddr) (data : List UInt8) (user : UserData),
      runs (handle sys) inputs (started timeout) = some s → createUser sfd name = some user →
      1 ≤ data.length → data.length ≤ MAX_MSG_SIZE → newline ∉ data.dropLast →
      msgHandle sys ⟨sfd, .datagram name data⟩ s = some (0, s') →
      s'.io.log = s.io.log ++ ev →
        ∀ c ∈ chats ev, Carries c.buffer ((text data).take (MSG_BODY_LEN - 1)) := by
  intro h
  let data := "hi".toList.map Char.toUInt8
  have hd : data ≠ [] := by decide
  obtain ⟨user, s', ev, hc, hs', hlog, hmem⟩ := first_message hd
  have hall := h idle 70 [] (started 70) s' ev 3 name4 data user rfl hc (by decide) (by decide)
    (by decide) hs' hlog _ hmem
  rcases (chatTo_carries_iff _ _ hd).mp hall with hnl | hlong
  · exact absurd hnl (by decide)
  · exact absurd hlong (by decide)

end Csockets.ServerLines
