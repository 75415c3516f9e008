import Csockets.Chain
import Csockets.NetModel

/-!
The table of active users on the heap (`udpchat/src/users.c`).

The functions work on explicit nodes in a memory of blocks. Besides the memory and the table
they carry the state of the world around them, of an arbitrary type: the clock, the
allocator and the callbacks act on it and on nothing else. A function returns `none` when it
dereferences a pointer that is null or dead, or when a loop of it does not end.
-/

namespace Csockets.UsersModel

open Blocks Chain NetModel

/-- `struct user` without its two links. -/
structure UserData where
  addr : Storage
  addrLen : ℕ
  addrFamily : ℕ
  recvFd : ℤ
  id : UInt16
  lastMsg : ℤ
  lastMsgXs : ℤ
  deriving DecidableEq, Inhabited

abbrev User := Node UserData

/-- A zeroed `struct user`. -/
instance : Inhabited User := ⟨⟨default, none, none⟩⟩

structure UserTable where
  start : Ptr
  end_ : Ptr
  timeout : ℤ
  deriving DecidableEq

/-- A zeroed `struct user_table`. -/
instance : Inhabited UserTable := ⟨⟨none, none, 0⟩⟩

/-- `time(NULL)`, and whether `malloc` finds a block. -/
structure World (σ : Type) where
  time : σ → ℤ × σ
  malloc : σ → Bool × σ

structure Store (σ : Type) where
  heap : Mem User
  table : UserTable
  io : σ

variable {σ : Type}

def boot (io : σ) : Store σ := ⟨Mem.empty, default, io⟩

def userTableInit (timeout : ℤ) (s : Store σ) : ℤ × Store σ :=
  (0, { s with table := { (default : UserTable) with timeout := timeout } })

/-! ### user_table_update -/

/-- The sender has an entry that is not the last one. -/
def foundInLoop (tmp : Ptr) (user : User) (s : Store σ) : Option (ℤ × Store σ) := do
  let t ← s.heap.load tmp
  if t.val.lastMsg = user.val.lastMsg then some (1, s)
  else if t.val.lastMsgXs = user.val.lastMsgXs then some (1, s)
  else do
    let heap ← s.heap.modify tmp fun t =>
      { t with val := { t.val with
          lastMsg := user.val.lastMsg
          lastMsgXs := user.val.lastMsgXs
          recvFd := user.val.recvFd
          id := user.val.id } }
    some (0, { s with heap := heap })

/-- The sender has the last entry. -/
def foundAtEnd (p : Ptr) (user : User) (s : Store σ) : Option (ℤ × Store σ) := do
  let n ← s.heap.load p
  if n.val.lastMsg = user.val.lastMsg then some (1, s)
  else if n.val.lastMsgXs = user.val.lastMsgXs then some (1, s)
  else do
    let heap ← s.heap.modify p fun n =>
      { n with val := { n.val with
          lastMsg := n.val.lastMsg -- `p->last_msg = p->last_msg`
          lastMsgXs := user.val.lastMsgXs
          recvFd := user.val.recvFd
          id := user.val.id } }
    some (0, { s with heap := heap })

/-- Remove tmp from list, zero it and free it. -/
def removeTmp (tmp : Ptr) (s : Store σ) : Option (Store σ) := do
  let t ← s.heap.load tmp
  let s ← match t.prev, t.next with
    | some _, some _ => do
      let heap ← s.heap.modify t.prev fun n => { n with next := t.next }
      let t ← heap.load tmp
      let heap ← heap.modify t.next fun n => { n with prev := t.prev }
      some { s with heap := heap }
    | some _, none => do
      let heap ← s.heap.modify t.prev fun n => { n with next := none }
      let t ← heap.load tmp
      some { s with heap := heap, table := { s.table with end_ := t.prev } }
    | none, some _ => do
      let heap ← s.heap.modify t.next fun n => { n with prev := none }
      let t ← heap.load tmp
      some { s with heap := heap, table := { s.table with start := t.next } }
    | none, none => some { s with table := { s.table with start := none, end_ := none } }
  let heap ← s.heap.store tmp default
  let heap ← heap.free tmp
  some { s with heap := heap }

/-- How the loop of `user_table_update` is left: by a `return`, or with `p` where it stops. -/
inductive Exit
  | ret (r : ℤ)
  | fall (p : Ptr)

def walk (W : World σ) (user : User) (timeoutFunc : UserData → σ → Option σ) :
    ℕ → Ptr → Store σ → Option (Exit × Store σ)
  | 0, _, _ => none
  | fuel + 1, p, s =>
    match p with
    | none => some (.fall none, s)
    | some a => do
      let n ← s.heap.load (some a)
      match n.next with
      | none => some (.fall (some a), s)
      | some b =>
        if sockaddrCmp n.val.addr user.val.addr n.val.addrLen = 0 then do
          let (r, s) ← foundInLoop (some a) user s
          some (.ret r, s)
        else
          let (now, io) := W.time s.io
          if n.val.lastMsg + s.table.timeout < now then do
            let io ← timeoutFunc n.val io
            let s ← removeTmp (some a) { s with io := io }
            walk W user timeoutFunc fuel (some b) s
          else walk W user timeoutFunc fuel (some b) { s with io := io }

def addUser (W : World σ) (user : User) (s : Store σ) : Option (ℤ × Store σ) :=
  let (ok, io) := W.malloc s.io
  let s := { s with io := io }
  if ok = false then some (1, s)
  else do
    let (tmp, heap) := s.heap.alloc default
    let heap ← heap.store (some tmp) user
    if s.table.start = none then
      some (0,
        { s with heap := heap, table := { s.table with start := some tmp, end_ := some tmp } })
    else do
      let heap ← heap.modify s.table.end_ fun n => { n with next := some tmp }
      let heap ← heap.modify (some tmp) fun t => { t with prev := s.table.end_ }
      some (0, { s with heap := heap, table := { s.table with end_ := some tmp } })

/-- No chain has more nodes than blocks were ever allocated, which bounds the loop. -/
def userTableUpdate (W : World σ) (timeoutFunc : UserData → σ → Option σ) (user : User)
    (s : Store σ) : Option (ℤ × Store σ) := do
  let (exit, s) ← walk W user timeoutFunc (s.heap.next + 1) s.table.start s
  match exit with
  | .ret r => some (r, s)
  | .fall none => addUser W user s
  | .fall (some a) => do
    let n ← s.heap.load (some a)
    if sockaddrCmp n.val.addr user.val.addr n.val.addrLen = 0 then foundAtEnd (some a) user s
    else addUser W user s

/-! ### user_table_every, user_table_free -/

def everyFrom (everyFunc : UserData → σ → Option σ) : ℕ → Ptr → Store σ → Option (Store σ)
  | 0, _, _ => none
  | fuel + 1, p, s =>
    match p with
    | none => some s
    | some a => do
      let n ← s.heap.load (some a)
      let io ← everyFunc n.val s.io
      everyFrom everyFunc fuel n.next { s with io := io }

def userTableEvery (everyFunc : UserData → σ → Option σ) (s : Store σ) : Option (Store σ) :=
  everyFrom everyFunc (s.heap.next + 1) s.table.start s

/-- The loop frees all nodes but the last, which is freed after it. -/
def freeFrom : ℕ → Ptr → Mem User → Option (Mem User)
  | 0, _, _ => none
  | fuel + 1, prev, heap => do
    let n ← heap.load prev
    match n.next with
    | none => do
      let heap ← heap.store prev default
      heap.free prev
    | some b => do
      let heap ← heap.store prev default
      let heap ← heap.free prev
      freeFrom fuel (some b) heap

def userTableFree (s : Store σ) : Option (Store σ) := do
  let heap ← freeFrom (s.heap.next + 1) s.table.start s.heap
  some { s with heap := heap, table := default }

/-! ### user_calculate_id -/

/-- Uses addr_family and addr; 16-bit arithmetic. -/
def userCalculateId (user : UserData) : UInt16 :=
  if user.addrFamily = AF_INET then
    let ipBuffer := user.addr.slice 4 4
    let id : UInt16 := 0
    let id := id + (ipBuffer.getD 0 0).toUInt16
    let id := id + (ipBuffer.getD 1 0).toUInt16
    let id := id % 997
    let id := id + (ipBuffer.getD 2 0).toUInt16
    let id := id + (ipBuffer.getD 3 0).toUInt16
    let id := id % 999
    if id = 0 then 999 else id
  else if user.addrFamily = AF_INET6 then
    let ipBuffer := user.addr.slice 8 16
    let id : UInt16 := (List.range 16).foldl (fun id n =>
      let id := id + (ipBuffer.getD n 0).toUInt16
      if n % 2 = 1 then id % 997 else id) 0
    let id := id % 999
    if id = 0 then 999 else id
  else 0

end Csockets.UsersModel
