import Mathlib

/-!
The echo server on `poll` (`tcpPrintServer_poll/src/socketloop.c` and `clienthandle.c`).

The kernel's side is the table of open client descriptors. Closes, turned away connections,
reads and writes go into a log; a close is logged with the connection the descriptor belongs to
at that time and the one the program accepted it for.
-/

namespace Csockets.PollModel

abbrev POLLMAX : ℕ := 20
def POLLIN : ℕ := 1
def POLLERR : ℕ := 8
def POLLNVAL : ℕ := 32

structure Pollfd where
  fd : ℤ
  events : ℕ
  revents : ℕ
  deriving DecidableEq

abbrev Slot := Fin POLLMAX

instance : NeZero POLLMAX := ⟨by decide⟩

/-- The slots of clients; slot 0 is the listener's. -/
def slots : List Slot := (List.finRange POLLMAX).filter (· ≠ 0)

/-- The open descriptors that `accept` has given out, each with the number of its connection,
and how many connections there have been. -/
structure Kernel where
  file : ℤ → Option ℕ
  conns : ℕ

inductive Event
  | close (fd : ℤ) (file owner : Option ℕ)
  | turnAway (conn : ℕ) (message : List UInt8) (held : List (ℤ × Option ℕ))
  | read (conn : ℕ) (bytes : List UInt8)
  | write (conn : ℕ) (bytes : List UInt8) (ret : ℤ)
  deriving DecidableEq

/-- The server: its array, and for each slot the connection last accepted into it. -/
structure State where
  fds : Slot → Pollfd
  owner : Slot → Option ℕ
  kernel : Kernel
  log : List Event

inductive Echo
  | fail
  | chunk (bytes : List UInt8) (size : 1 ≤ bytes.length ∧ bytes.length ≤ 10) (ret : ℤ)
      (fits : ret ≤ bytes.length)

/-- What the system calls of one round come back with: `poll` (`none` when it fails), the
calls of each client's handler, and `accept`. -/
structure Round where
  poll : Option (Slot → ℕ)
  echo : Slot → Echo
  accept : ℤ

/-- What `poll` writes to `revents`: nothing for a negative descriptor, `POLLNVAL` for one that
is not open. -/
def reported (s : State) (n : Slot) (revents : ℕ) : ℕ :=
  if (s.fds n).fd < 0 then 0
  else if n = 0 ∨ s.kernel.file (s.fds n).fd ≠ none then revents
  else POLLNVAL

def polled (revents : Slot → ℕ) (s : State) : State :=
  { s with fds := fun n => { s.fds n with revents := reported s n (revents n) } }

def pollr (s : State) : ℕ := (List.finRange POLLMAX).countP fun n => (s.fds n).revents ≠ 0

/-- `close(fd)`, for a descriptor that was accepted for `owner`. -/
def close (fd : ℤ) (owner : Option ℕ) (s : State) : State :=
  { s with
    kernel := { s.kernel with file := Function.update s.kernel.file fd none }
    log := s.log ++ [.close fd (s.kernel.file fd) owner] }

def kick (s : State) (n : Slot) : State :=
  let cfd := s.fds n
  if cfd.fd ≠ -1 ∧ cfd.revents ≠ POLLERR then close cfd.fd (s.owner n) s else s

/-- Reading from a descriptor that is not open fails. -/
def clienthandle (echo : Echo) (n : Slot) (s : State) : State :=
  match s.kernel.file (s.fds n).fd, echo with
  | some conn, .chunk bytes _ ret _ =>
    let buffer := bytes ++ [0] -- `buffer[bytesRead] = '\0'`
    -- whatever `write` returns, the rest of the chunk is forgotten
    { s with log := s.log ++ [.read conn bytes, .write conn (buffer.take bytes.length) ret] }
  | _, _ => { s with fds := Function.update s.fds n { s.fds n with revents := POLLERR } }

def handleSlot (r : Round) (s : State) (n : Slot) : State :=
  let s := if (s.fds n).revents &&& POLLIN > 0 then clienthandle (r.echo n) n s else s
  if (s.fds n).revents &&& POLLERR > 0 then
    let s := close (s.fds n).fd (s.owner n) s
    { s with fds := Function.update s.fds n { s.fds n with fd := -1, events := 0 } }
  else s

def fullmsg : List UInt8 := "Server is full\n".toList.map Char.toUInt8 ++ [0]

/-- `accept`, as far as it succeeds: a descriptor that is not open. -/
def acceptr (r : Round) (s : State) : ℤ :=
  if 0 ≤ r.accept ∧ r.accept ≠ (s.fds 0).fd ∧ s.kernel.file r.accept = none then r.accept else -1

def accepted (fd : ℤ) (s : State) : State :=
  { s with kernel := ⟨Function.update s.kernel.file fd (some s.kernel.conns), s.kernel.conns + 1⟩ }

def newClient (r : Round) (s : State) : State :=
  let freespot := slots.find? fun n => (s.fds n).fd = -1
  let fd := acceptr r s
  let conn := s.kernel.conns
  match freespot with
  | some n =>
    if fd < 0 then s
    else
      let s := accepted fd s
      { s with
        fds := Function.update s.fds n { s.fds n with fd := fd, events := POLLIN }
        owner := Function.update s.owner n (some conn) }
  | none =>
    if fd < 0 then s
    else
      let held := slots.map fun n => ((s.fds n).fd, s.kernel.file (s.fds n).fd)
      let s := accepted fd s
      close fd (some conn) { s with log := s.log ++ [.turnAway conn fullmsg held] }

/-- One round of the loop, and whether the server goes on to the next or exits. -/
def socketloop (r : Round) (s : State) : Bool × State :=
  match r.poll with
  | none => (false, s)
  | some revents =>
    let s := polled revents s
    if pollr s = 0 then (true, slots.foldl kick s)
    else
      let s := slots.foldl (handleSlot r) s
      if (s.fds 0).revents = POLLERR then (false, s)
      else if (s.fds 0).revents = POLLIN then (true, newClient r s)
      else (true, s)

/-- From one head of the loop to the next. -/
def next (r : Round) (s : State) : Option State :=
  match socketloop r s with
  | (true, s) => some s
  | (false, _) => none

def start (sockfd : ℤ) : State where
  fds n := if n = 0 then ⟨sockfd, POLLIN, 0⟩ else ⟨-1, 0, 0⟩
  owner _ := none
  kernel := ⟨fun _ => none, 0⟩
  log := []

end Csockets.PollModel
