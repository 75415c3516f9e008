import Csockets.MainModel
import Csockets.Threads

/-!
The datagram echo server (`udpecho/main.c`): `main` and a thread for each of its sockets.

A step is what a thread does up to and with its next system call; what that comes back with is
part of the action. Every datagram that is received and every call of `sendto` goes into a log,
with the socket the descriptor stands for at that time. What is printed is left out, and so is the
mutex around it but for its making and its end. A store or a read outside an array, an access to a
dead node and a close of what is not open are faults.
-/

namespace Csockets.UdpechoModel

open Blocks Links Bytes Files Loops Threads NetModel AddrModel
open MainModel (MAX_BIND_COUNT Attempt BindState parseArgs storeSfd)

abbrev MAX_DATAGRAM_SIZE : ℕ := 2048
def EAGAIN : ℕ := 11
def EWOULDBLOCK : ℕ := 11

structure Env where
  argv : List String
  mutexInit : ℤ
  sigemptyset : ℤ
  sigaddset : ℤ × ℤ
  sigprocmask : ℤ
  db : Netdb
  attempts : Stream' Attempt

/-! ### Addresses and sockets -/

/-- As in the chat server, but for the status when a call fails. -/
def createAddrinfo (db : Netdb) (port : String) (bindIps : List String) (out : Ptr) (w : World) :
    Option (ℤ × Ptr × World) := do
  let (r, w) ← addressLoop db port bindIps none w
  match r with
  | .error _ => some (1, out, w)
  | .ok first =>
    if bindIps.length = 0 then
      let (ret, first, w) := lookup db port none w
      if ret ≠ 0 then some (1, out, w) else some (0, first, w)
    else some (0, first, w)

def bindTurn (m : Heap) (attempt : Attempt) (st : BindState) : Turn BindState BindState :=
  match st.ca with
  | none => .leave st
  | some p =>
    match m.cell p with
    | none => .fault
    | some ca =>
      let (sfd, files) := st.files.openAt attempt.socket
      if sfd = -1 then .again { st with ca := ca.next, files := files }
      else if attempt.bind ≠ 0 then
        match files.close sfd with
        | none => .fault
        | some files => .again { st with ca := ca.next, files := files }
      else if attempt.setsockopt ≠ 0 then
        -- without a timeout its thread could not be stopped
        match files.close sfd with
        | none => .fault
        | some files => .again { st with ca := ca.next, files := files }
      else if st.sfdArrLen ≥ MAX_BIND_COUNT then
        match files.close sfd with
        | none => .fault
        | some files => .leave { st with files := files }
      else
        match storeSfd st.sfdArr st.sfdArrLen sfd with
        | none => .fault
        | some sfdArr => .again ⟨ca.next, files, sfdArr, st.sfdArrLen + 1⟩

/-- The loop, with the array filled with -1. -/
def bindLoop (m : Heap) (turns : ℕ) (attempts : Stream' Attempt) (addr : Ptr) (files : Table) :
    Turn BindState BindState :=
  loop (bindTurn m) turns attempts ⟨addr, files, Vector.replicate _ (-1), 0⟩

/-! ### State -/

inductive Pc
  | create (n : ℕ)
  | sigwait
  | stop (n : ℕ)
  | join (n : ℕ)
  | close (n : ℕ)
  | freeaddrinfo
  | destroy
  | returned
  deriving DecidableEq

inductive ChildPc
  | unborn
  | head
  | recvfrom
  | sendto
  | returned
  deriving DecidableEq

inductive Mutex
  | raw
  | made
  | destroyed
  deriving DecidableEq

structure Exit where
  status : ℤ
  mutex : Mutex
  files : Table
  world : World
  addr : Ptr
  freed : List Ptr
  childrenLen : ℕ

/-- A thread: its arguments, which are `main`'s, and its variables. -/
structure Child where
  sfd : ℤ
  run : Bool
  pc : ChildPc
  buffer : Buf MAX_DATAGRAM_SIZE
  bytes : ℕ
  aiAddr : Storage
  aiAddrlen : ℕ

abbrev Tid := Fin MAX_BIND_COUNT

inductive Event
  | received (n : Tid) (socket : Option ℕ) (name data : List UInt8)
  | sent (n : Tid) (socket : Option ℕ) (name data : List UInt8) (ret : ℤ)

def Event.thread : Event → Tid
  | .received n _ _ _ => n
  | .sent n _ _ _ _ => n

def Event.socket : Event → Option ℕ
  | .received _ socket _ _ => socket
  | .sent _ socket _ _ _ => socket

structure State where
  pc : Pc
  exit : Exit
  sfdArr : Vector ℤ MAX_BIND_COUNT
  sfdArrLen : ℕ
  child : Tid → Child
  log : List Event

/-- A step of `main`, without a call that comes back with anything or with `pthread_create`; or
one of a thread, without such a call or with `recvfrom` or `sendto`. -/
inductive Action
  | main
  | created (ret : ℤ)
  | child (n : Tid)
  | failed (n : Tid) (errno : ℕ)
  | received (n : Tid) (name : Sockaddr) (fits : name.bytes.length ≤ sizeofSockaddrStorage)
      (data : List UInt8)
  | sent (n : Tid) (ret : ℤ)

def State.put (st : State) (n : Tid) (c : Child) : State :=
  { st with child := Function.update st.child n c }

/-! ### The threads -/

/-- `recvfrom` on a descriptor that is not open fails, and more than fits is cut off. -/
def receive (n : Tid) (name : Sockaddr) (data : List UInt8) (st : State) : Move State :=
  let c := st.child n
  match st.exit.files.file c.sfd with
  | none => .next (st.put n { c with pc := .returned })
  | some i =>
    let st := { st with log := st.log ++ [Event.received n (some i) name.bytes data] }
    let data := data.take MAX_DATAGRAM_SIZE
    match c.buffer.write 0 data with
    | none => .fault
    | some buffer =>
      .next (st.put n
        { c with
          buffer := buffer, bytes := data.length, aiAddr := name.storage,
          aiAddrlen := name.bytes.length, pc := .sendto })

def send (n : Tid) (ret : ℤ) (st : State) : Move State :=
  let c := st.child n
  match readN c.buffer.bytes c.bytes, readN c.aiAddr.bytes c.aiAddrlen with
  | some data, some name =>
    let ret := if st.exit.files.file c.sfd = none then -1 else ret
    let st := { st with log := st.log ++ [Event.sent n (st.exit.files.file c.sfd) name data ret] }
    if ret < 0 then .next (st.put n { c with pc := .returned })
    -- a message that was not sent whole is reported only
    else .next (st.put n { c with pc := .head })
  | _, _ => .fault

def childStep (a : Action) (st : State) : Move State :=
  match a with
  | .child n =>
    let c := st.child n
    if c.pc = .head then
      if c.run then
        .next (st.put n
          { c with aiAddrlen := sizeofSockaddrStorage, aiAddr := Buf.zero _, pc := .recvfrom })
      else .next (st.put n { c with pc := .returned })
    else .blocked
  | .failed n errno =>
    let c := st.child n
    if c.pc = .recvfrom then
      if st.exit.files.file c.sfd ≠ none ∧ (errno = EAGAIN ∨ errno = EWOULDBLOCK) then
        .next (st.put n { c with pc := .head })
      else .next (st.put n { c with pc := .returned })
    else .blocked
  | .received n name _ data =>
    if (st.child n).pc = .recvfrom then receive n name data st else .blocked
  | .sent n ret => if (st.child n).pc = .sendto then send n ret st else .blocked
  | _ => .blocked

/-! ### The main thread -/

def create (n : ℕ) (ret : ℤ) (st : State) : Move State :=
  match st.sfdArr[n]? with
  | none => .fault
  | some sfd =>
    if h : n < MAX_BIND_COUNT then
      let c := { st.child ⟨n, h⟩ with sfd := sfd, run := true }
      if ret ≠ 0 then .next { st.put ⟨n, h⟩ c with pc := .stop 0 }
      else
        let st := st.put ⟨n, h⟩ { c with pc := .head }
        if st.exit.childrenLen ≥ MAX_BIND_COUNT then .next { st with pc := .sigwait }
        else
          .next { st with
            exit := { st.exit with childrenLen := st.exit.childrenLen + 1 }, pc := .create (n + 1) }
    else .fault

/-- `atomic_store(&children_args[n].run, false)`. -/
def stop (n : ℕ) (st : State) : Move State :=
  if h : n < MAX_BIND_COUNT then
    .next { st.put ⟨n, h⟩ { st.child ⟨n, h⟩ with run := false } with pc := .stop (n + 1) }
  else .fault

def join (n : ℕ) (st : State) : Move State :=
  if h : n < MAX_BIND_COUNT then
    if (st.child ⟨n, h⟩).pc = .returned then .next { st with pc := .join (n + 1) } else .blocked
  else .fault

def closeSfd (n : ℕ) (st : State) : Move State :=
  match st.sfdArr[n]? with
  | none => .fault
  | some sfd =>
    if sfd ≠ -1 then
      match st.exit.files.close sfd with
      | none => .fault
      | some files =>
        .next { st with exit := { st.exit with files := files }, pc := .close (n + 1) }
    else .next { st with pc := .close (n + 1) }

/-- From the creation of the threads on. The step at `sigwait` is taken when a signal comes. -/
def mainStep (db : Netdb) (a : Action) (st : State) : Move State :=
  match st.pc, a with
  | .create n, .created ret => if n < st.sfdArrLen then create n ret st else .blocked
  | .create n, .main => if n < st.sfdArrLen then .blocked else .next { st with pc := .sigwait }
  | .sigwait, .main => .next { st with exit := { st.exit with status := 0 }, pc := .stop 0 }
  | .stop n, .main =>
    if n < st.exit.childrenLen then stop n st else .next { st with pc := .join 0 }
  | .join n, .main =>
    if n < st.exit.childrenLen then join n st else .next { st with pc := .close 0 }
  | .close n, .main =>
    if n < st.sfdArrLen then closeSfd n st else .next { st with pc := .freeaddrinfo }
  | .freeaddrinfo, .main =>
    match db.freeaddrinfo st.exit.addr st.exit.world.mem with
    | none => .fault
    | some m =>
      .next { st with
        exit := { st.exit with
          world := ⟨m, st.exit.world.calls⟩, freed := st.exit.freed ++ [st.exit.addr] },
        pc := .destroy }
  | .destroy, .main =>
    .next { st with exit := { st.exit with mutex := .destroyed }, pc := .returned }
  | _, _ => .blocked

def step (db : Netdb) (a : Action) (st : State) : Move State :=
  match a with
  | .main => mainStep db a st
  | .created _ => mainStep db a st
  | _ => childStep a st

/-! ### The program -/

/-- `main` up to the creation of its threads: what it returns with before, or its variables. -/
def prepare (env : Env) (turns : ℕ) (files : Table) (w : World) :
    Turn BindState (Exit ⊕ BindState × Exit) :=
  let e : Exit := ⟨1, .raw, files, w, none, [], 0⟩
  if env.mutexInit ≠ 0 then .leave (.inl e)
  else
    let e := { e with mutex := .made }
    if env.sigemptyset ≠ 0 then .leave (.inl { e with mutex := .destroyed })
    -- what the first of the two returns is overwritten
    else if env.sigaddset.2 ≠ 0 then .leave (.inl { e with mutex := .destroyed })
    else if env.sigprocmask ≠ 0 then .leave (.inl { e with mutex := .destroyed })
    else
      match parseArgs env.argv with
      | none => .leave (.inl e) -- `args_err` comes behind the end of the mutex
      | some (port, bindIps) =>
        match createAddrinfo env.db port bindIps none w with
        | none => .fault
        | some (ret, addr, w) =>
          let e := { e with world := w, addr := addr }
          if ret ≠ 0 then .leave (.inl { e with mutex := .destroyed })
          else
            match bindLoop w.mem turns env.attempts addr files with
            | .again bound => .again bound
            | .leave bound => .leave (.inr (bound, { e with files := bound.files }))
            | .fault => .fault

def unborn : Child := ⟨0, false, .unborn, Buf.zero _, 0, Buf.zero _, 0⟩

/-- Where the threads begin; without a socket none is created. -/
def launch (bound : BindState) (e : Exit) : State where
  pc := if bound.sfdArrLen = 0 then .freeaddrinfo else .create 0
  exit := e
  sfdArr := bound.sfdArr
  sfdArrLen := bound.sfdArrLen
  child _ := unborn
  log := []

/-- The program, with `turns` turns of the loop over the addresses at most and a schedule of what
comes behind it. It is blocked where `main` does not get that far. -/
def udpecho (env : Env) (turns : ℕ) (files : Table) (w : World) (as : List Action) : Move State :=
  match prepare env turns files w with
  | .again _ => .blocked
  | .leave (.inl _) => .blocked
  | .leave (.inr (bound, e)) => sched (step env.db) as (launch bound e)
  | .fault => .fault

end Csockets.UdpechoModel
