import Csockets.ServerLog
import Csockets.UsersRefine

/-!
One call of `msg_handle` on the list of entries: what it can do to the table and to the log.
-/

namespace Csockets.ServerList

open Bytes Chain NetModel UsersModel UsersList UsersRefine FormatterModel ServerModel ServerLog

variable (sys : Sys)

def noticeTo (u : UserData) : Send :=
  ⟨u.recvFd, line 0 MSG_USR_TIMEOUT_STR MSG_USR_TIMEOUT_STR.length, u.addr, u.addrLen⟩

/-- The chat line a message becomes, as `u` is sent it. -/
def chatTo (sender : UserData) (data : List UInt8) (u : UserData) : Send :=
  ⟨u.recvFd, line sender.id data (MIN data.length MAX_MSG_SIZE), u.addr, u.addrLen⟩

lemma formatted (f : Fmt) (senderId receiverId : UInt16) (body : List UInt8) {len : ℕ}
    (hlen : 1 ≤ len) (hbody : kept len ≤ body.length) :
    ∃ f', msgFormatter f senderId receiverId (some body) len = some (f', kept len + 6) ∧
      readN f'.returnBuffer.bytes (kept len + 6) = some (line senderId body len) := by
  obtain ⟨f', hf, hline⟩ := msgFormatter_spec f senderId receiverId hlen hbody
  refine ⟨f', hf, ?_⟩
  have hk := kept_le len
  have ht : MSG_TOTAL_LEN = 133 := rfl
  rw [readN_of_le (by rw [f'.returnBuffer.size]; omega), hline]

lemma notices_spec (send : Send) (n : ℕ) (io : Io) :
    ∃ k, notices sys send n io =
      { io with sends := io.sends + k, log := io.log ++ List.replicate k (.notice send) } := by
  induction n generalizing io with
  | zero => exact ⟨0, by simp [notices]⟩
  | succ n ih =>
    unfold notices
    dsimp only [Sys.send]
    by_cases hb : sys.sendto io.sends < 1
    · exact ⟨1, by simp [hb, Io.record]⟩
    · obtain ⟨k, hk⟩ :=
        ih (io.record (.notice send) |> fun io' => { io' with sends := io.sends + 1 })
      refine ⟨k + 1, ?_⟩
      rw [if_neg hb]
      refine hk.trans ?_
      simp only [Io.record, List.append_assoc, List.replicate_succ, List.singleton_append,
        Io.mk.injEq, true_and, and_true]
      omega

/-- A kick touches the log, the formatter's buffers and the count of `sendto` calls. -/
lemma timeoutFunc_spec (u : UserData) (io : Io) :
    ∃ f k, msgFormatter io.fmt 0 u.id (some MSG_USR_TIMEOUT_STR) MSG_USR_TIMEOUT_STR.length =
        some (f, kept MSG_USR_TIMEOUT_STR.length + 6) ∧
      timeoutFunc sys u io = some { io with
        fmt := f
        sends := io.sends + k
        log := io.log ++ [.timeoutFunc u] ++ List.replicate k (.notice (noticeTo u)) } := by
  obtain ⟨f, hf, hread⟩ := formatted io.fmt 0 u.id MSG_USR_TIMEOUT_STR
    (show 1 ≤ MSG_USR_TIMEOUT_STR.length by decide) (by decide)
  obtain ⟨k, hk⟩ := notices_spec sys (noticeTo u) MSG_USR_TIMEOUT_COUNT
    { io with fmt := f, log := io.log ++ [.timeoutFunc u] }
  refine ⟨f, k, hf, ?_⟩
  simp only [timeoutFunc, Io.record, hf, Option.bind_eq_bind, Option.bind_some, hread]
  exact congrArg some hk

lemma line_buffer (id : UInt16) (data : List UInt8) :
    line id (Buf.init MAX_MSG_SIZE data).bytes (MIN data.length MAX_MSG_SIZE) =
      line id data (MIN data.length MAX_MSG_SIZE) := by
  have hk : kept (MIN data.length MAX_MSG_SIZE) ≤ min data.length MAX_MSG_SIZE := by
    simp only [kept, MIN_eq]
    omega
  simp only [line, Buf.init, List.take_take]
  rw [min_eq_left (by omega), List.take_append_of_le_length (by omega)]

lemma sendallFunc_spec (sender : UserData) {data : List UInt8} (hdata : data ≠ []) (u : UserData)
    (io : Io) :
    ∃ f, msgFormatter io.fmt sender.id u.id (some (Buf.init MAX_MSG_SIZE data).bytes)
        (MIN data.length MAX_MSG_SIZE) = some (f, kept (MIN data.length MAX_MSG_SIZE) + 6) ∧
      sendallFunc sys sender (Buf.init MAX_MSG_SIZE data).bytes (MIN data.length MAX_MSG_SIZE)
        u io = some { io with
          fmt := f
          sends := io.sends + 1
          log := io.log ++ [.chat (chatTo sender data u)] } := by
  have hpos : 1 ≤ MIN data.length MAX_MSG_SIZE := by
    have := List.length_pos_iff.mpr hdata
    have hm : MAX_MSG_SIZE = 2048 := rfl
    rw [MIN_eq]
    omega
  have hkept : kept (MIN data.length MAX_MSG_SIZE) ≤ (Buf.init MAX_MSG_SIZE data).bytes.length := by
    rw [(Buf.init MAX_MSG_SIZE data).size]
    simp only [kept, MIN_eq]
    omega
  obtain ⟨f, hf, hread⟩ := formatted io.fmt sender.id u.id _ hpos hkept
  refine ⟨f, hf, ?_⟩
  simp only [sendallFunc, ite_self, hf, Option.bind_eq_bind, Option.bind_some, hread, Sys.send,
    Io.record, line_buffer]
  rfl

lemma sendall_spec (sender : UserData) {data : List UInt8} (hdata : data ≠ []) (L : List Entry)
    (io : Io) :
    ∃ f, L.foldlM (fun io e => sendallFunc sys sender (Buf.init MAX_MSG_SIZE data).bytes
      (MIN data.length MAX_MSG_SIZE) e.2 io) io = some { io with
        fmt := f
        sends := io.sends + L.length
        log := io.log ++ L.map fun e => .chat (chatTo sender data e.2) } := by
  induction L generalizing io with
  | nil => exact ⟨io.fmt, by simp⟩
  | cons e L ih =>
    obtain ⟨f, -, hf⟩ := sendallFunc_spec sys sender hdata e.2 io
    obtain ⟨f', hf'⟩ := ih { io with
      fmt := f, sends := io.sends + 1, log := io.log ++ [.chat (chatTo sender data e.2)] }
    refine ⟨f', ?_⟩
    rw [List.foldlM_cons, hf, Option.bind_eq_bind, Option.bind_some, hf']
    simp only [List.map_cons, List.length_cons, List.append_assoc, List.singleton_append,
      Option.some.injEq, Io.mk.injEq, true_and, and_true]
    omega

/-! ### A call -/

/-- The sender and the payload of an input that is handled at all. -/
def peerOf (input : Input) : Option (UserData × List UInt8) :=
  match input.recv with
  | .fail _ => none
  | .datagram name data =>
    if data = [] then none else (createUser input.sfd name).map fun u => (u, data)

/-- The sender, at the time the next clock reading tells. -/
def arrival (input : Input) (io : Io) : Option (UserData × List UInt8) :=
  (peerOf input).map fun x => (stamp x.1 (sys.time io.times), x.2)

variable {sys} in
lemma arrival_eq {input : Input} {io : Io} {u : UserData} {data : List UInt8}
    (h : arrival sys input io = some (u, data)) :
    ∃ name user, input.recv = .datagram name data ∧ data ≠ [] ∧
      createUser input.sfd name = some user ∧ u = stamp user (sys.time io.times) := by
  obtain ⟨⟨user, d⟩, hp, he⟩ := Option.map_eq_some_iff.mp h
  cases he
  unfold peerOf at hp
  split at hp
  · cases hp
  · rename_i name d hr
    split at hp
    · cases hp
    · rename_i hd
      obtain ⟨user', hc, he⟩ := Option.map_eq_some_iff.mp hp
      cases he
      exact ⟨name, user, hr, hd, hc, rfl⟩

/-- What a call returns: that depends on what `recvfrom` came back with, not on the table. -/
def returned (input : Input) : ℤ :=
  match input.recv with
  | .fail errno => if ignored errno then 0 else 1
  | .datagram name data =>
    if data = [] then 0 else if createUser input.sfd name = none then 1 else 0

/-- What a call does to the entries and to the state around the table. -/
inductive Handled (timeout : ℤ) (fresh : ℕ) (input : Input) (L : List Entry) (io : Io) :
    List Entry → Io → Prop
  | ignored (h : peerOf input = none) : Handled timeout fresh input L io L io
  | rejected (u : UserData) (data : List UInt8) (L' : List Entry) (io₁ : Io)
      (hu : arrival sys input io = some (u, data))
      (hup : update sys.world (timeoutFunc sys) timeout u fresh L (sys.world.time io).2 =
        some (1, L', io₁)) :
      Handled timeout fresh input L io L' (io₁.record (.update u 1))
  | accepted (u : UserData) (data : List UInt8) (L' : List Entry) (io₁ : Io) (f : Fmt)
      (hu : arrival sys input io = some (u, data))
      (hup : update sys.world (timeoutFunc sys) timeout u fresh L (sys.world.time io).2 =
        some (0, L', io₁)) :
      Handled timeout fresh input L io L' { io₁ with
        fmt := f
        sends := io₁.sends + L'.length
        log := io₁.log ++ [.update u 0] ++ L'.map fun e => .chat (chatTo u data e.2) }

lemma timeoutFunc_total (u : UserData) (io : Io) : (timeoutFunc sys u io).isSome := by
  obtain ⟨f, k, -, h⟩ := timeoutFunc_spec sys u io
  rw [h]
  rfl

lemma data_empty {data : List UInt8} : MIN data.length MAX_MSG_SIZE = 0 ↔ data = [] := by
  have hm : MAX_MSG_SIZE = 2048 := rfl
  rw [MIN_eq, ← List.length_eq_zero_iff]
  omega

variable {sys} in
lemma msgHandle_peer {input : Input} {name : Sockaddr} {data : List UInt8} {user u : UserData}
    {s s₁ : Server} {ret : ℤ} (hr : input.recv = .datagram name data) (hd : data ≠ [])
    (hc : createUser input.sfd name = some user) (hu : u = stamp user (sys.time s.io.times))
    (hs₁ : userTableUpdate sys.world (timeoutFunc sys) ⟨u, none, none⟩
      { s with io := (sys.world.time s.io).2 } = some (ret, s₁)) :
    msgHandle sys input s =
      if ret = 1 then some (0, { s₁ with io := s₁.io.record (.update u ret) })
      else if ret > 1 then some (1, { s₁ with io := s₁.io.record (.update u ret) })
      else (userTableEvery (sendallFunc sys u (Buf.init MAX_MSG_SIZE data).bytes
        (MIN data.length MAX_MSG_SIZE)) { s₁ with io := s₁.io.record (.update u ret) }).map
          fun s => (0, s) := by
  subst hu
  unfold msgHandle
  rw [hr]
  dsimp only
  rw [if_neg (mt data_empty.mp hd), hc]
  dsimp only [Sys.world] at hs₁ ⊢
  rw [hs₁, Option.bind_eq_bind, Option.bind_some]
  simp only [Option.map_eq_bind]
  rfl

variable {sys} in
lemma update_ret {u : UserData} {fresh : ℕ} {timeout : ℤ} {L L' : List Entry} {io io' : Io} {r : ℤ}
    (h : update sys.world (timeoutFunc sys) timeout u fresh L io = some (r, L', io')) :
    r = 0 ∨ r = 1 := by
  rcases update_cases h with ⟨_, _, _, -, -, ⟨-, hr, -⟩ | ⟨-, hr, -⟩⟩ |
    ⟨_, _, -, -, -, ⟨-, hr, -⟩ | ⟨-, hr, -⟩⟩ <;> simp [hr]

lemma msgHandle_ignored {input : Input} (h : peerOf input = none) (s : Server) :
    msgHandle sys input s = some (returned input, s) := by
  unfold peerOf at h
  unfold msgHandle returned
  match hr : input.recv with
  | .fail errno =>
    dsimp only
    split <;> rfl
  | .datagram name data =>
    rw [hr] at h
    dsimp only at h ⊢
    by_cases hd : data = []
    · rw [if_pos hd]
      exact if_pos (data_empty.mpr hd)
    · rw [if_neg hd, Option.map_eq_none_iff] at h
      rw [if_neg (mt data_empty.mp hd), if_neg hd, h, if_pos rfl]

variable {sys} in
lemma msgHandle_arrival {input : Input} {s : Server} {L : List Entry} {u : UserData}
    {data : List UInt8} (hu : arrival sys input s.io = some (u, data)) (h : Rep s L) :
    data ≠ [] ∧ returned input = 0 ∧ ∃ ret s₁ L',
      update sys.world (timeoutFunc sys) s.table.timeout u s.heap.next L (sys.world.time s.io).2 =
        some (ret, L', s₁.io) ∧
      Rep s₁ L' ∧ s₁.table.timeout = s.table.timeout ∧
      msgHandle sys input s =
        if ret = 1 then some (0, { s₁ with io := s₁.io.record (.update u ret) })
        else if ret > 1 then some (1, { s₁ with io := s₁.io.record (.update u ret) })
        else (userTableEvery (sendallFunc sys u (Buf.init MAX_MSG_SIZE data).bytes
          (MIN data.length MAX_MSG_SIZE)) { s₁ with io := s₁.io.record (.update u ret) }).map
            fun s => (0, s) := by
  obtain ⟨name, user, hr, hd, hc, hstamp⟩ := arrival_eq hu
  obtain ⟨ret, L', io₁, hup⟩ := update_total sys.world s.table.timeout
    (timeoutFunc_total sys) u s.heap.next L (sys.world.time s.io).2
  obtain ⟨s₁, hs₁, hrep, rfl, htime, -⟩ :=
    userTableUpdate_spec (s := { s with io := (sys.world.time s.io).2 }) h hup
  refine ⟨hd, ?_, ret, s₁, L', hup, hrep, htime, msgHandle_peer hr hd hc hstamp hs₁⟩
  simp [returned, hr, hd, hc]

lemma every_spec (u : UserData) {data : List UInt8} (hd : data ≠ []) {s : Server}
    {L : List Entry} (h : Rep s L) :
    ∃ f, userTableEvery (sendallFunc sys u (Buf.init MAX_MSG_SIZE data).bytes
      (MIN data.length MAX_MSG_SIZE)) s = some { s with io := { s.io with
        fmt := f
        sends := s.io.sends + L.length
        log := s.io.log ++ L.map fun e => .chat (chatTo u data e.2) } } := by
  obtain ⟨f, hf⟩ := sendall_spec sys u hd L s.io
  refine ⟨f, ?_⟩
  rw [userTableEvery_spec _ h, hf, Option.map_some]

/-- **Calls of `msg_handle`** fault nowhere and do what `Handled` says. -/
theorem msgHandle_spec (input : Input) {s : Server} {L : List Entry} (h : Rep s L) :
    ∃ s' L', msgHandle sys input s = some (returned input, s') ∧ Rep s' L' ∧
      s'.table.timeout = s.table.timeout ∧
      Handled sys s.table.timeout s.heap.next input L s.io L' s'.io := by
  cases hu : arrival sys input s.io with
  | none =>
    have hp : peerOf input = none := Option.map_eq_none_iff.mp hu
    exact ⟨s, L, msgHandle_ignored sys hp s, h, rfl, .ignored hp⟩
  | some x =>
    obtain ⟨u, data⟩ := x
    obtain ⟨hd, hret, ret, s₁, L', hup, hrep, htime, heq⟩ := msgHandle_arrival hu h
    rw [heq, hret]
    rcases update_ret hup with rfl | rfl
    · obtain ⟨f, hf⟩ := every_spec sys u hd
        (s := { s₁ with io := s₁.io.record (.update u 0) }) hrep
      rw [if_neg (by decide), if_neg (by decide), hf]
      exact ⟨_, L', rfl, hrep, htime, .accepted u data L' s₁.io f hu hup⟩
    · exact ⟨_, L', if_pos rfl, hrep, htime, .rejected u data L' s₁.io hu hup⟩

lemma handle_spec (input : Input) {s : Server} {L : List Entry} (h : Rep s L) :
    ∃ s' L', handle sys input s = some s' ∧ Rep s' L' ∧ s'.table.timeout = s.table.timeout ∧
      Handled sys s.table.timeout s.heap.next input L s.io L' s'.io := by
  obtain ⟨s', L', hs', h'⟩ := msgHandle_spec sys input h
  exact ⟨s', L', by rw [handle, hs', Option.map_some], h'⟩

end Csockets.ServerList
