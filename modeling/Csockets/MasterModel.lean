import Csockets.MainModel
import Csockets.PollModel
import Csockets.ServerModel
import Csockets.Threads

/-!
The two threads of the chat server (`main` and `master_func` in `udpchat/src/main.c`).

A step is what a thread does up to and with its next system call; `msg_handle` is one step, since
it reads nothing that the other thread writes. What `poll` and `recvfrom` come back with is part
of the action. Besides the variables of both threads the state has the calls of `msg_handle` made
so far. A store or a read outside an array, an access to a dead node or through a null pointer and
a close of what is not open are faults.
-/

namespace Csockets.MasterModel

open Files Loops Threads ServerModel MainModel AddrModel
open UsersModel (boot userTableInit userTableFree)
open PollModel (Pollfd POLLIN POLLERR POLLNVAL)

def POLLPRI : ℕ := 2
def POLLHUP : ℕ := 16
def EBADF : ℕ := 9

/-- What `poll` comes back with: an error, or what it reports for each element. -/
inductive Polled
  | fail (errno : ℕ)
  | ready (revents : ℕ → ℕ)

inductive Pc
  | create
  | sigwait
  | clear
  | shutdown (n : ℕ)
  | join
  | close (n : ℕ)
  | freeaddrinfo
  | returned
  deriving DecidableEq

/-- Where `master_func` is: not there yet, at its start, at the head of its loop, in `poll`, at
an element of the poll array, at `poll_err`, or back. -/
inductive MasterPc
  | unborn
  | start
  | head
  | poll
  | slot (n : ℕ)
  | pollErr
  | returned
  deriving DecidableEq

structure State where
  pc : Pc
  exit : Exit
  sfdArr : Vector ℤ MAX_BIND_COUNT
  sfdArrLen : ℕ
  run : Bool
  master : MasterPc
  pollArr : Vector Pollfd MAX_BIND_COUNT
  pollArrLen : ℕ
  activeUsers : Server
  handled : List Input

/-- A step of `main`, or one of `master_func`: without a call that comes back with anything, or
with `poll` or `recvfrom`. -/
inductive Action
  | main
  | master
  | polled (result : Polled)
  | received (recv : Recv)

/-! ### The master thread -/

def fill (sfdArr : Vector ℤ MAX_BIND_COUNT) (sfdArrLen : ℕ) : Vector Pollfd MAX_BIND_COUNT × ℕ :=
  (Vector.ofFn fun n =>
    if n < sfdArrLen then ⟨sfdArr[n], POLLIN ||| POLLPRI ||| POLLERR ||| POLLHUP, 0⟩
    else ⟨-1, 0, 0⟩, min sfdArrLen MAX_BIND_COUNT)

/-- What `poll` writes to `revents`: nothing for a negative descriptor, `POLLNVAL` for one that is
not open. -/
def reported (files : Table) (fd : ℤ) (revents : ℕ) : ℕ :=
  if fd < 0 then 0 else if files.file fd = none then POLLNVAL else revents

def polled (files : Table) (pollArr : Vector Pollfd MAX_BIND_COUNT) (pollArrLen : ℕ)
    (revents : ℕ → ℕ) : Vector Pollfd MAX_BIND_COUNT :=
  pollArr.mapIdx fun n p =>
    if n < pollArrLen then { p with revents := reported files p.fd (revents n) } else p

def pollRet (pollArr : Vector Pollfd MAX_BIND_COUNT) (pollArrLen : ℕ) : ℕ :=
  (pollArr.toList.take pollArrLen).countP fun p => p.revents ≠ 0

/-- Receiving from a descriptor that is not open fails. -/
def answered (files : Table) (fd : ℤ) (recv : Recv) : Recv :=
  if files.file fd = none then .fail EBADF else recv

variable (sys : Sys)

/-- One turn of the loop over the poll array; several events at once are not supported. -/
def slotStep (n : ℕ) (a : Action) (st : State) : Move State :=
  match st.pollArr[n]? with
  | none => .fault
  | some p =>
    if p.revents = POLLIN ∨ p.revents = POLLPRI then
      match a with
      | .received recv =>
        let input : Input := ⟨p.fd, answered st.exit.files p.fd recv⟩
        match msgHandle sys input st.activeUsers with
        | none => .fault
        | some (ret, activeUsers) =>
          let st := { st with activeUsers := activeUsers, handled := st.handled ++ [input] }
          if ret ≠ 0 then .next { st with master := .pollErr }
          else .next { st with master := .slot (n + 1) }
      | _ => .blocked
    else
      match a with
      | .master =>
        if p.revents = POLLERR then .next { st with master := .pollErr }
        else if p.revents = POLLHUP then .next { st with master := .pollErr }
        else .next { st with master := .slot (n + 1) }
      | _ => .blocked

def masterStep (a : Action) (st : State) : Move State :=
  match st.master, a with
  | .start, .master =>
    let (ret, activeUsers) := userTableInit ACTUSER_TIMEOUT st.activeUsers
    if ret ≠ 0 then .next { st with activeUsers := activeUsers, master := .returned }
    else
      let (pollArr, pollArrLen) := fill st.sfdArr st.sfdArrLen
      .next { st with
        activeUsers := activeUsers, pollArr := pollArr, pollArrLen := pollArrLen, master := .head }
  | .head, .master =>
    if st.run then .next { st with master := .poll } else .next { st with master := .pollErr }
  | .poll, .polled (.fail errno) =>
    if errno = EINTR then .next { st with master := .head }
    else .next { st with master := .pollErr }
  | .poll, .polled (.ready revents) =>
    let pollArr := polled st.exit.files st.pollArr st.pollArrLen revents
    if pollRet pollArr st.pollArrLen = 0 then .next { st with pollArr := pollArr, master := .head }
    else .next { st with pollArr := pollArr, master := .slot 0 }
  | .slot n, a =>
    if n < st.pollArrLen then slotStep sys n a st
    else
      match a with
      | .master => .next { st with master := .head }
      | _ => .blocked
  | .pollErr, .master =>
    match userTableFree st.activeUsers with
    | none => .fault
    | some activeUsers => .next { st with activeUsers := activeUsers, master := .returned }
  | _, _ => .blocked

/-! ### The main thread -/

variable (env : Env)

/-- From the creation of the thread on. The step at `sigwait` is taken when a signal comes. -/
def mainStep (st : State) : Move State :=
  match st.pc with
  | .create =>
    if env.pthreadCreate ≠ 0 then .next { st with pc := .close 0 }
    else .next { st with master := .start, pc := .sigwait }
  | .sigwait => .next { st with pc := .clear }
  | .clear => .next { st with run := false, pc := .shutdown 0 }
  | .shutdown n =>
    if n < st.sfdArrLen then
      match st.sfdArr[n]? with
      | none => .fault
      | some sfd =>
        .next { st with
          exit := { st.exit with shut := st.exit.shut ++ [sfd] }, pc := .shutdown (n + 1) }
    else .next { st with pc := .join }
  | .join => if st.master = .returned then .next { st with pc := .close 0 } else .blocked
  | .close n =>
    if n < st.sfdArrLen then
      match (st.sfdArr[n]?).bind st.exit.files.close with
      | none => .fault
      | some files =>
        .next { st with exit := { st.exit with files := files }, pc := .close (n + 1) }
    else .next { st with pc := .freeaddrinfo }
  | .freeaddrinfo =>
    match socketErr env.db st.exit with
    | none => .fault
    | some exit => .next { st with exit := exit, pc := .returned }
  | .returned => .blocked

def step (a : Action) (st : State) : Move State :=
  match a with
  | .main => mainStep env st
  | _ => masterStep sys a st

/-! ### The program -/

/-- `main` up to the creation of the thread, with the variables of its loop and the rest. -/
def prepare (turns : ℕ) (files : Table) (w : World) :
    Turn BindState (Exit ⊕ BindState × Exit) :=
  let e : Exit := ⟨0, files, w, none, false, none, [], []⟩
  match parseArgs env.argv with
  | none => .leave (.inl e)
  | some (port, bindIps) =>
    if env.sigemptyset ≠ 0 then .leave (.inl e)
    else if env.sigaddset.1 + env.sigaddset.2 ≠ 0 then .leave (.inl e)
    else if env.sigprocmask ≠ 0 then .leave (.inl e)
    else
      match createAddrinfo env.db port bindIps none w with
      | none => .fault
      | some (ret, addr, w) =>
        let e := { e with world := w, addr := addr, created := ret = 0 }
        if ret ≠ 0 then .leave (.inl e)
        else
          match bindLoop env.linux w.mem turns env.attempts addr files with
          | .again bound => .again bound
          | .leave bound => .leave (.inr (bound, { e with files := bound.files, bound := bound }))
          | .fault => .fault

/-- Where the threads begin; without a socket none is created. -/
def launch (bound : BindState) (e : Exit) : State where
  pc := if bound.sfdArrLen = 0 then .freeaddrinfo else .create
  exit := e
  sfdArr := bound.sfdArr
  sfdArrLen := bound.sfdArrLen
  run := true
  master := .unborn
  pollArr := Vector.replicate _ ⟨0, 0, 0⟩
  pollArrLen := 0
  activeUsers := boot ⟨0, 0, 0, default, []⟩
  handled := []

/-- The program, with `turns` turns of the loop over the addresses at most and a schedule of what
comes behind it. It is blocked where `main` does not get that far. -/
def chat (turns : ℕ) (files : Table) (w : World) (as : List Action) : Move State :=
  match prepare env turns files w with
  | .again _ => .blocked
  | .leave (.inl _) => .blocked
  | .leave (.inr (bound, e)) => sched (step sys env) as (launch bound e)
  | .fault => .fault

end Csockets.MasterModel
