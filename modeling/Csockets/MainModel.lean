import Csockets.AddrModel
import Csockets.Files
import Csockets.Loops
import Csockets.NetModel

/-!
Setting up and tearing down the chat server (`main` in `udpchat/src/main.c`).

What the system calls come back with is an input, an attempt for each socket. The thread that
serves the sockets neither opens nor closes any, and what is printed is left out. A store or
a read outside `sfd_arr`, an access to a dead node and a close of what is not open are faults.
-/

namespace Csockets.MainModel

open Blocks Links AddrModel Files Loops
open NetModel (AF_INET6)

abbrev MAX_BIND_COUNT : ℕ := 10

/-- What the calls for one address come back with. -/
structure Attempt where
  socket : ℤ
  setsockopt : ℤ
  bind : ℤ

/-- What the other calls come back with. -/
structure Env where
  argv : List String
  sigemptyset : ℤ
  sigaddset : ℤ × ℤ
  sigprocmask : ℤ
  db : Netdb
  /-- `__linux__` is defined. -/
  linux : Bool
  attempts : Stream' Attempt
  pthreadCreate : ℤ

/-! ### Arguments -/

def collectIps : List String → List String → Option (List String)
  | [], bindIps => some bindIps
  | ip :: argv, bindIps =>
    if bindIps.length ≥ MAX_BIND_COUNT - 1 then none else collectIps argv (bindIps ++ [ip])

/-- The port and the addresses to bind to; without them it goes to `args_err`. -/
def parseArgs (argv : List String) : Option (String × List String) :=
  match argv with
  | _ :: port :: argv => (collectIps argv []).map fun bindIps => (port, bindIps)
  | _ => none

/-! ### Binding -/

/-- The variables of the loop over the addresses, and the descriptors of the process. -/
structure BindState where
  ca : Ptr
  files : Table
  sfdArr : Vector ℤ MAX_BIND_COUNT
  sfdArrLen : ℕ

def storeSfd (sfdArr : Vector ℤ MAX_BIND_COUNT) (n : ℕ) (sfd : ℤ) :
    Option (Vector ℤ MAX_BIND_COUNT) :=
  if h : n < MAX_BIND_COUNT then some (sfdArr.set n sfd h) else none

def bindTurn (linux : Bool) (m : Heap) (attempt : Attempt) (st : BindState) :
    Turn BindState BindState :=
  match st.ca with
  | none => .leave st
  | some p =>
    match m.cell p with
    | none => .fault
    | some ca =>
      let (sfd, files) := st.files.openAt attempt.socket
      if sfd = -1 then .again { st with ca := ca.next, files := files }
      else if linux = true ∧ ca.val.ai_family = AF_INET6 ∧ attempt.setsockopt ≠ 0 then
        match files.close sfd with
        | none => .fault
        | some files => .again { st with ca := ca.next, files := files }
      else if attempt.bind ≠ 0 then
        match files.close sfd with
        | none => .fault
        | some files => .again { st with ca := ca.next, files := files }
      else if st.sfdArrLen ≥ MAX_BIND_COUNT then
        match files.close sfd with
        | none => .fault
        | some files => .leave { st with files := files }
      else
        match storeSfd st.sfdArr st.sfdArrLen sfd with
        | none => .fault
        | some sfdArr => .again ⟨ca.next, files, sfdArr, st.sfdArrLen + 1⟩

def bindLoop (linux : Bool) (m : Heap) (turns : ℕ) (attempts : Stream' Attempt) (addr : Ptr)
    (files : Table) : Turn BindState BindState :=
  loop (bindTurn linux m) turns attempts ⟨addr, files, Vector.replicate _ 0, 0⟩

/-! ### Returning -/

/-- What there is when `main` returns: its variables, `bound` being those of the loop when that
was left, and what it has called. -/
structure Exit where
  status : ℤ
  files : Table
  world : World
  addr : Ptr
  /-- `create_addrinfo` was called and returned 0. -/
  created : Bool
  bound : Option BindState
  shut : List ℤ
  freed : List Ptr

def shutdownSfds (sfdArr : Vector ℤ MAX_BIND_COUNT) (sfdArrLen : ℕ) : Option (List ℤ) :=
  (List.range sfdArrLen).mapM fun n => sfdArr[n]?

def closeSfds (sfdArr : Vector ℤ MAX_BIND_COUNT) (sfdArrLen : ℕ) (files : Table) : Option Table :=
  (List.range sfdArrLen).foldlM (fun files n => (sfdArr[n]?).bind files.close) files

def socketErr (db : Netdb) (e : Exit) : Option Exit := do
  let m ← db.freeaddrinfo e.addr e.world.mem
  some { e with world := ⟨m, e.world.calls⟩, freed := e.freed ++ [e.addr] }

def pthreadErr (db : Netdb) (st : BindState) (e : Exit) : Option Exit := do
  let files ← closeSfds st.sfdArr st.sfdArrLen e.files
  socketErr db { e with files := files }

/-- What comes behind the loop, which was left with `st`. -/
def serve (env : Env) (st : BindState) (e : Exit) : Option Exit :=
  if st.sfdArrLen = 0 then socketErr env.db e
  else if env.pthreadCreate ≠ 0 then pthreadErr env.db st e
  else do
    -- here it waits for a signal, and behind the loop for the thread
    let shut ← shutdownSfds st.sfdArr st.sfdArrLen
    pthreadErr env.db st { e with shut := shut }

/-- `main`, with `turns` turns of its loop at most. -/
def main (env : Env) (turns : ℕ) (files : Table) (w : World) : Turn BindState Exit :=
  let e : Exit := ⟨0, files, w, none, false, none, [], []⟩
  match parseArgs env.argv with
  | none => .leave e
  | some (port, bindIps) =>
    if env.sigemptyset ≠ 0 then .leave e
    else if env.sigaddset.1 + env.sigaddset.2 ≠ 0 then .leave e
    else if env.sigprocmask ≠ 0 then .leave e
    else
      match createAddrinfo env.db port bindIps none w with
      | none => .fault
      | some (ret, addr, w) =>
        let e := { e with world := w, addr := addr, created := ret = 0 }
        if ret ≠ 0 then .leave e
        else
          match bindLoop env.linux w.mem turns env.attempts addr files with
          | .again st => .again st
          | .leave st => (serve env st { e with files := st.files, bound := st }).elim .fault .leave
          | .fault => .fault

end Csockets.MainModel
