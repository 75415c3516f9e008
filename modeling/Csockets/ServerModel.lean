import Csockets.UsersModel
import Csockets.FormatterModel

/-!
The chat server's handling of one datagram (`udpchat/src/main.c`, `msg_handle` and its two
callbacks).

Everything the calls do to the outside goes into a log, in the order it happens: clock
readings of the table, timeout callbacks, results of `user_table_update` and `sendto` calls.
Debug and error prints are left out.
-/

namespace Csockets.ServerModel

open Bytes NetModel UsersModel FormatterModel

def MAX_MSG_SIZE : ℕ := 2048
def ACTUSER_TIMEOUT : ℤ := 70
def MSG_USR_TIMEOUT_STR : List UInt8 :=
  "TIMEOUT: please send any message to join again.".toList.map Char.toUInt8 ++ [0]
def MSG_USR_TIMEOUT_COUNT : ℕ := 3

def EINTR : ℕ := 4
def EIO : ℕ := 5
def ECONNRESET : ℕ := 104
def ETIMEDOUT : ℕ := 110

def ignored (errno : ℕ) : Bool :=
  errno = EIO ∨ errno = ECONNRESET ∨ errno = EINTR ∨ errno = ETIMEDOUT

/-- The arguments of a `sendto` call. -/
structure Send where
  fd : ℤ
  buffer : List UInt8
  addr : Storage
  addrLen : ℕ
  deriving DecidableEq

inductive Event
  | time (now : ℤ)
  | timeoutFunc (user : UserData)
  | notice (send : Send)
  | update (user : UserData) (ret : ℤ)
  | chat (send : Send)
  deriving DecidableEq

/-- What the system answers to the n-th call of each kind. -/
structure Sys where
  time : ℕ → ℤ
  malloc : ℕ → Bool
  sendto : ℕ → ℤ

/-- The calls made so far, the formatter's buffers and the log. -/
structure Io where
  times : ℕ
  mallocs : ℕ
  sends : ℕ
  fmt : Fmt
  log : List Event

abbrev Server := Store Io

def Io.record (e : Event) (io : Io) : Io := { io with log := io.log ++ [e] }

variable (sys : Sys)

def Sys.world : World Io where
  time io := (sys.time io.times,
    Io.record (.time (sys.time io.times)) { io with times := io.times + 1 })
  malloc io := (sys.malloc io.mallocs, { io with mallocs := io.mallocs + 1 })

def Sys.send (e : Event) (io : Io) : ℤ × Io :=
  (sys.sendto io.sends, Io.record e { io with sends := io.sends + 1 })

/-- The notices of one callback; the first that fails is the last one tried. -/
def notices (send : Send) : ℕ → Io → Io
  | 0, io => io
  | n + 1, io =>
    let (bytes, io) := sys.send (.notice send) io
    if bytes < 1 then io else notices send n io

def timeoutFunc (user : UserData) (io : Io) : Option Io := do
  let io := io.record (.timeoutFunc user)
  let (fmt, sendBufferLen) ←
    msgFormatter io.fmt 0 user.id (some MSG_USR_TIMEOUT_STR) MSG_USR_TIMEOUT_STR.length
  let sendBuffer ← readN fmt.returnBuffer.bytes sendBufferLen
  some (notices sys ⟨user.recvFd, sendBuffer, user.addr, user.addrLen⟩ MSG_USR_TIMEOUT_COUNT
    { io with fmt := fmt })

/-- The arguments of `sendall_func` are the fields of `struct sendall_func_args`. -/
def sendallFunc (sender : UserData) (buffer : List UInt8) (bufferLen : ℕ) (user : UserData)
    (io : Io) : Option Io := do
  let (fmt, len) ← if user.id = sender.id then
      msgFormatter io.fmt sender.id user.id (some buffer) bufferLen
    else msgFormatter io.fmt sender.id user.id (some buffer) bufferLen
  let sendBuffer ← readN fmt.returnBuffer.bytes len
  -- whether the call fails makes no difference but to what is printed
  let (_, io) :=
    sys.send (.chat ⟨user.recvFd, sendBuffer, user.addr, user.addrLen⟩) { io with fmt := fmt }
  some io

/-- What `recvfrom` comes back with. -/
inductive Recv
  | fail (errno : ℕ)
  | datagram (name : Sockaddr) (data : List UInt8)

/-- A call of `msg_handle`: the socket, and what is waiting there. -/
structure Input where
  sfd : ℤ
  recv : Recv

/-- Create user from ip; the family is told by the length of the address. -/
def createUser (sfd : ℤ) (peeraddr : Sockaddr) : Option UserData :=
  let user : UserData :=
    { (default : UserData) with addr := peeraddr.storage, addrLen := peeraddr.bytes.length }
  if user.addrLen = sizeofSockaddrIn then
    let user := { user with addrFamily := AF_INET }
    some { user with id := userCalculateId user, recvFd := sfd }
  else if user.addrLen = sizeofSockaddrIn6 then
    let user := { user with addrFamily := AF_INET6 }
    some { user with id := userCalculateId user, recvFd := sfd }
  else none

def stamp (user : UserData) (now : ℤ) : UserData :=
  { user with lastMsg := now, lastMsgXs := now.tdiv 2 * 2 }

def msgHandle (input : Input) (s : Server) : Option (ℤ × Server) :=
  match input.recv with
  | .fail errno => if ignored errno then some (0, s) else some (1, s)
  | .datagram name data =>
    let buffer := Buf.init MAX_MSG_SIZE data
    let bufferLen := MIN data.length MAX_MSG_SIZE
    if bufferLen = 0 then some (0, s)
    else match createUser input.sfd name with
      | none => some (1, s)
      | some user => do
        let (now, io) := sys.world.time s.io
        let user := stamp user now
        let (ret, s) ← userTableUpdate sys.world (timeoutFunc sys) ⟨user, none, none⟩
          { s with io := io }
        let s := { s with io := s.io.record (.update user ret) }
        if ret = 1 then some (0, s)
        else if ret > 1 then some (1, s)
        else do
          let s ← userTableEvery (sendallFunc sys user buffer.bytes bufferLen) s
          some (0, s)

/-- The server as `master_func` sets it up. -/
def started (timeout : ℤ) : Server := (userTableInit timeout (boot ⟨0, 0, 0, default, []⟩)).2

def handle (input : Input) (s : Server) : Option Server := (msgHandle sys input s).map Prod.snd

end Csockets.ServerModel
