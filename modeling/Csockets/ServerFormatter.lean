import Csockets.ServerList
import Csockets.Runs
import Csockets.UsersCall

/-!
The calls of `msg_formatter` a server makes: each is within bounds, and what it writes is what is
sent, whatever earlier calls left in the static buffers.
-/

namespace Csockets.ServerFormatter

open Bytes Chain Runs UsersModel UsersList UsersRefine UsersCall FormatterModel ServerModel
  ServerLog ServerList

structure Format where
  senderId : UInt16
  receiverId : UInt16
  body : List UInt8
  len : ℕ

def Format.call (c : Format) (f : Fmt) : Option (Fmt × ℕ) :=
  msgFormatter f c.senderId c.receiverId (some c.body) c.len

/-- The call `timeout_func` makes. -/
def noticeFormat (u : UserData) : Format :=
  ⟨0, u.id, MSG_USR_TIMEOUT_STR, MSG_USR_TIMEOUT_STR.length⟩

/-- The call `sendall_func` makes, on the buffer a datagram was received into. -/
def chatFormat (sender : UserData) (data : List UInt8) (u : UserData) : Format :=
  ⟨sender.id, u.id, (Buf.init MAX_MSG_SIZE data).bytes, MIN data.length MAX_MSG_SIZE⟩

/-- What is sent is the part of the static buffer that the call reports. -/
structure Sent (c : Format) (f f' : Fmt) (bytes : List UInt8) : Prop where
  call : ∃ n, c.call f = some (f', n) ∧ bytes = f'.returnBuffer.bytes.take n

/-- The calls that were made while a log was written, in order, and what they made of the
buffers. -/
inductive Formatted (f : Fmt) : List Event → List Format → Fmt → Prop
  | nil : Formatted f [] [] f
  | time {log cs f'} (h : Formatted f log cs f') (now : ℤ) :
      Formatted f (log ++ [.time now]) cs f'
  | update {log cs f'} (h : Formatted f log cs f') (u : UserData) (r : ℤ) :
      Formatted f (log ++ [.update u r]) cs f'
  | timeoutFunc {log cs f₁ f₂} (h : Formatted f log cs f₁) (u : UserData) (k : ℕ) (send : Send)
      (hs : Sent (noticeFormat u) f₁ f₂ send.buffer) :
      Formatted f (log ++ [.timeoutFunc u] ++ List.replicate k (.notice send))
        (cs ++ [noticeFormat u]) f₂
  | chat {log cs f₁ f₂} (h : Formatted f log cs f₁) (sender u : UserData) (data : List UInt8)
      (hd : data ≠ []) (send : Send) (hs : Sent (chatFormat sender data u) f₁ f₂ send.buffer) :
      Formatted f (log ++ [.chat send]) (cs ++ [chatFormat sender data u]) f₂

/-- A call that is within bounds: the length is at least one, so that the subtraction does not
wrap, the copy stays within the body, and with any buffers the call succeeds, with the line for
its id, body and length as its result. -/
structure Bounded (c : Format) : Prop where
  pos : 1 ≤ c.len
  nowrap : subSize (MIN c.len MSG_BODY_LEN) 1 + 1 = MIN c.len MSG_BODY_LEN
  covered : subSize (MIN c.len MSG_BODY_LEN) 1 ≤ c.body.length
  result : ∀ f receiverId, ∃ f',
    msgFormatter f c.senderId receiverId (some c.body) c.len =
      some (f', min c.len MSG_BODY_LEN + 5) ∧
    f'.returnBuffer.bytes.take (min c.len MSG_BODY_LEN + 5) = line c.senderId c.body c.len

lemma kept_add {len : ℕ} (h : 1 ≤ len) : kept len + 6 = min len MSG_BODY_LEN + 5 := by
  have hb : MSG_BODY_LEN = 127 := rfl
  rw [kept, MIN_eq]
  omega

lemma bounded_of_kept {c : Format} (hpos : 1 ≤ c.len) (hbody : kept c.len ≤ c.body.length) :
    Bounded c where
  pos := hpos
  nowrap := by
    have hb : MSG_BODY_LEN = 127 := rfl
    rw [subSize_MIN hpos, kept, MIN_eq]
    omega
  covered := by
    rw [subSize_MIN hpos]
    exact hbody
  result f receiverId := by
    rw [← kept_add hpos]
    exact msgFormatter_spec f c.senderId receiverId hpos hbody

lemma bounded_notice (u : UserData) : Bounded (noticeFormat u) :=
  bounded_of_kept (show 1 ≤ MSG_USR_TIMEOUT_STR.length by decide)
    (show kept MSG_USR_TIMEOUT_STR.length ≤ MSG_USR_TIMEOUT_STR.length by decide)

lemma bounded_chat (sender u : UserData) {data : List UInt8} (h : data ≠ []) :
    Bounded (chatFormat sender data u) := by
  have hm : MAX_MSG_SIZE = 2048 := rfl
  have hpos := List.length_pos_iff.mpr h
  refine bounded_of_kept ?_ ?_
  · show 1 ≤ MIN data.length MAX_MSG_SIZE
    rw [MIN_eq]
    omega
  · show kept (MIN data.length MAX_MSG_SIZE) ≤ (Buf.init MAX_MSG_SIZE data).bytes.length
    rw [(Buf.init MAX_MSG_SIZE data).size]
    have hk := kept_le (MIN data.length MAX_MSG_SIZE)
    omega

lemma Formatted.bounded {f f' : Fmt} {log : List Event} {cs : List Format}
    (h : Formatted f log cs f') : ∀ c ∈ cs, Bounded c := by
  induction h with
  | nil => exact fun c hc => by cases hc
  | time _ _ ih => exact ih
  | update _ _ _ ih => exact ih
  | timeoutFunc _ u _ _ _ ih =>
    intro c hc
    rcases List.mem_append.mp hc with hc | hc
    · exact ih c hc
    · rw [List.mem_singleton.mp hc]
      exact bounded_notice u
  | chat _ sender u data hd _ _ ih =>
    intro c hc
    rcases List.mem_append.mp hc with hc | hc
    · exact ih c hc
    · rw [List.mem_singleton.mp hc]
      exact bounded_chat sender u hd

/-! ### The calls of a run -/

def Follows (io₀ io : Io) : Prop :=
  ∃ ev cs, io.log = io₀.log ++ ev ∧ Formatted io₀.fmt ev cs io.fmt

variable (sys : Sys) {io₀ io io' : Io}

lemma follows_refl (io : Io) : Follows io io := ⟨[], [], by simp, .nil⟩

lemma Follows.time (h : Follows io₀ io) : Follows io₀ (sys.world.time io).2 := by
  obtain ⟨ev, cs, hlog, hf⟩ := h
  refine ⟨ev ++ [.time (sys.time io.times)], cs, ?_, hf.time _⟩
  rw [← List.append_assoc, ← hlog]
  rfl

lemma Follows.update (h : Follows io₀ io) (u : UserData) (r : ℤ) :
    Follows io₀ (io.record (.update u r)) := by
  obtain ⟨ev, cs, hlog, hf⟩ := h
  refine ⟨ev ++ [.update u r], cs, ?_, hf.update u r⟩
  rw [← List.append_assoc, ← hlog]
  rfl

lemma sent_of_call {c : Format} (hb : Bounded c) {f f' : Fmt}
    (h : c.call f = some (f', kept c.len + 6)) : Sent c f f' (line c.senderId c.body c.len) := by
  obtain ⟨f₁, h₁, hline⟩ := hb.result f c.receiverId
  rw [← kept_add hb.pos] at h₁ hline
  have he : some (f', kept c.len + 6) = some (f₁, kept c.len + 6) := h.symm.trans h₁
  rw [Option.some.injEq, Prod.mk.injEq] at he
  exact ⟨_, h, by rw [he.1, hline]⟩

lemma Follows.timeoutFunc (h : Follows io₀ io) {u : UserData}
    (hf : timeoutFunc sys u io = some io') : Follows io₀ io' := by
  obtain ⟨ev, cs, hlog, hform⟩ := h
  obtain ⟨f, k, hcall, hspec⟩ := timeoutFunc_spec sys u io
  rw [hspec] at hf
  cases hf
  have hsent : Sent (noticeFormat u) io.fmt f (noticeTo u).buffer :=
    sent_of_call (bounded_notice u) hcall
  refine ⟨_, _, ?_, hform.timeoutFunc u k (noticeTo u) hsent⟩
  rw [hlog, List.append_assoc, List.append_assoc, List.append_assoc]

lemma Follows.sendall (h : Follows io₀ io) (sender : UserData) {data : List UInt8}
    (hd : data ≠ []) (L : List Entry) :
    ∃ io', L.foldlM (fun io e => sendallFunc sys sender (Buf.init MAX_MSG_SIZE data).bytes
      (MIN data.length MAX_MSG_SIZE) e.2 io) io = some io' ∧ Follows io₀ io' := by
  induction L generalizing io with
  | nil => exact ⟨io, rfl, h⟩
  | cons e L ih =>
    obtain ⟨ev, cs, hlog, hform⟩ := h
    obtain ⟨f, hcall, hspec⟩ := sendallFunc_spec sys sender hd e.2 io
    have hsent : Sent (chatFormat sender data e.2) io.fmt f (chatTo sender data e.2).buffer := by
      rw [chatTo, ← line_buffer sender.id data]
      exact sent_of_call (bounded_chat sender e.2 hd) hcall
    have hfollows₁ : Follows io₀ { io with
        fmt := f
        sends := io.sends + 1
        log := io.log ++ [.chat (chatTo sender data e.2)] } :=
      ⟨_, _, by rw [hlog, List.append_assoc], hform.chat sender e.2 data hd _ hsent⟩
    obtain ⟨io', hio', hfollows⟩ := ih hfollows₁
    exact ⟨io', by rw [List.foldlM_cons, hspec]; exact hio', hfollows⟩

variable {sys} in
lemma Follows.tableUpdate (h : Follows io₀ io) {timeout : ℤ} {u : UserData} {fresh : ℕ}
    {L L' : List Entry} {r : ℤ}
    (hup : UsersList.update sys.world (ServerModel.timeoutFunc sys) timeout u fresh L io =
      some (r, L', io')) : Follows io₀ io' := by
  have hsweep : ∀ {A A' : List Entry} {io₁ : Io},
      sweep sys.world (ServerModel.timeoutFunc sys) timeout A io = some (A', io₁) →
        Follows io₀ io₁ := fun hs =>
    sweep_rule (P := fun _ io => Follows io₀ io) (K := fun _ => True) (fun _ _ h => h.time sys)
      (fun _ _ _ _ _ h _ _ hf => (h.time sys).timeoutFunc sys hf) [] [] (fun _ _ => trivial) hs h
  rcases update_cases hup with ⟨e, X, A, -, hs, -⟩ | ⟨A, io₁, -, hs, rfl, -⟩
  · exact hsweep hs
  · -- the allocator touches neither the log nor the buffers
    exact show Follows io₀ io₁ from hsweep hs

lemma handle_follows (input : Input) {s : Server} {L : List Entry} (hrep : Rep s L)
    (h : Follows io₀ s.io) :
    ∃ s', handle sys input s = some s' ∧ (∃ L', Rep s' L') ∧ Follows io₀ s'.io := by
  unfold handle
  cases hu : arrival sys input s.io with
  | none =>
    rw [msgHandle_ignored sys (Option.map_eq_none_iff.mp hu) s]
    exact ⟨s, rfl, ⟨L, hrep⟩, h⟩
  | some x =>
    obtain ⟨u, data⟩ := x
    obtain ⟨hd, -, ret, s₁, L', hup, hrep', -, heq⟩ := msgHandle_arrival hu hrep
    have hupdate := ((h.time sys).tableUpdate hup).update u ret
    rw [heq]
    split
    · exact ⟨_, rfl, ⟨L', hrep'⟩, hupdate⟩
    · split
      · exact ⟨_, rfl, ⟨L', hrep'⟩, hupdate⟩
      · obtain ⟨io', hio', hsend⟩ := hupdate.sendall sys u hd L'
        rw [userTableEvery_spec _ (s := { s₁ with io := s₁.io.record (.update u ret) }) hrep', hio']
        exact ⟨_, rfl, ⟨L', hrep'⟩, hsend⟩

/-- **The formatter in a run**: from any well-formed table and any contents of the static
buffers, the calls made along a run are all within bounds, each prints its id in three
characters, and what is sent is what it wrote, which its id, body and length determine. -/
theorem runs_formatted (sys : Sys) (T : Table Io) (inputs : List Input) :
    (∀ id : UInt16, (printf3u (id.toNat % 999)).length = MSG_ID_LEN - 1) ∧
    ∃ s' ev cs, runs (handle sys) inputs T.store = some s' ∧
      s'.io.log = T.store.io.log ++ ev ∧ Formatted T.store.io.fmt ev cs s'.io.fmt ∧
      ∀ c ∈ cs, Bounded c := by
  refine ⟨printf3u_id, ?_⟩
  obtain ⟨s', hs', -, ev, cs, hlog, hform⟩ := runs_inv
    (fun s => (∃ L, Rep s L) ∧ Follows T.store.io s.io)
    (fun input s ⟨⟨L, hrep⟩, h⟩ => handle_follows sys input hrep h) inputs
    ⟨⟨T.entries, T.rep⟩, follows_refl T.store.io⟩
  exact ⟨s', ev, cs, hs', hlog, hform, hform.bounded⟩

end Csockets.ServerFormatter
