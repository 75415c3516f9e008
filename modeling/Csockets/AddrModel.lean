import Csockets.Links

/-!
Building one address list for all bind addresses (`create_addrinfo` in
`udpchat/src/util/net.c`).

`getaddrinfo` and `freeaddrinfo` are any two functions that do what is documented of them: a
call of the first that succeeds makes a new chain of at least one node, one that fails makes
none, and the second frees each node of a chain. Each call is recorded with the chain it made,
as it was then.
-/

namespace Csockets.AddrModel

open Blocks Links
open Chain (hd)

def AF_UNSPEC : ℕ := 0
def SOCK_DGRAM : ℕ := 2
def IPPROTO_UDP : ℕ := 17
def AI_PASSIVE : ℕ := 1
def AI_NUMERICHOST : ℕ := 4

/-- The part of a `struct addrinfo` in front of `ai_next`. -/
structure Addrinfo where
  ai_flags : ℕ
  ai_family : ℕ
  ai_socktype : ℕ
  ai_protocol : ℕ
  ai_addr : List UInt8
  deriving DecidableEq

/-- What `getaddrinfo` is asked; the host is null when the system is to choose. -/
structure Request where
  node : Option String
  service : String
  hints : Addrinfo
  deriving DecidableEq

abbrev Heap := Mem (Node Addrinfo)

structure Lookup where
  ret : ℤ
  res : Ptr
  mem : Heap

/-- The resolver. What a call comes back with may depend on the calls before it. -/
structure Netdb where
  getaddrinfo : List Request → Request → Heap → Lookup
  freeaddrinfo : Ptr → Heap → Option Heap
  found : ∀ past q m, (getaddrinfo past q m).ret = 0 → ∃ l, l ≠ [] ∧
    (getaddrinfo past q m).res = hd none l ∧ Fresh m (getaddrinfo past q m).mem l
  failed : ∀ past q m, (getaddrinfo past q m).ret ≠ 0 → (getaddrinfo past q m).mem = m
  freed : ∀ m l, Seg m.cell l none →
    ∃ m', freeaddrinfo (hd none l) m = some m' ∧ Released m m' l

structure Call where
  request : Request
  ret : ℤ
  chain : List (ℕ × Addrinfo)

structure World where
  mem : Heap
  calls : List Call

def hints : Addrinfo where
  ai_flags := AI_PASSIVE ||| AI_NUMERICHOST
  ai_family := AF_UNSPEC
  ai_socktype := SOCK_DGRAM
  ai_protocol := IPPROTO_UDP
  ai_addr := []

variable (db : Netdb) (port : String)

def lookup (node : Option String) (w : World) : ℤ × Ptr × World :=
  let request := ⟨node, port, hints⟩
  let r := db.getaddrinfo (w.calls.map Call.request) request w.mem
  let chain := if r.ret = 0 then (nodes r.mem r.mem.next r.res).getD [] else []
  (r.ret, r.res, ⟨r.mem, w.calls ++ [⟨request, r.ret, chain⟩]⟩)

def freeFirst (first : Ptr) (m : Heap) : Option Heap :=
  if first ≠ none then db.freeaddrinfo first m else some m

/-- `first` with `current` behind it: set the last element of first to current. No chain has
more nodes than blocks were ever allocated, which bounds the walk. -/
def splice (first current : Ptr) (m : Heap) : Option (Ptr × Heap) :=
  if first = none then some (current, m)
  else do
    let tmp ← last m m.next first
    let m ← m.modify tmp fun n => { n with next := current }
    some (first, m)

def addressLoop : List String → Ptr → World → Option (Except ℤ Ptr × World)
  | [], first, w => some (.ok first, w)
  | ip :: ips, first, w =>
    let (ret, current, w) := lookup db port (some ip) w
    if ret ≠ 0 then do
      let m ← freeFirst db first w.mem
      some (.error ret, ⟨m, w.calls⟩)
    else do
      let (first, m) ← splice first current w.mem
      addressLoop ips first ⟨m, w.calls⟩

/-- The status, what is in `*out` in the end, and the world. -/
def createAddrinfo (bindIps : List String) (out : Ptr) (w : World) :
    Option (ℤ × Ptr × World) := do
  let (r, w) ← addressLoop db port bindIps none w
  match r with
  | .error ret => some (ret, out, w)
  | .ok first =>
    if bindIps.length = 0 then
      let (ret, first, w) := lookup db port none w
      if ret ≠ 0 then some (ret, out, w) else some (0, first, w)
    else some (0, first, w)

/-- What a call of `getaddrinfo` may come back with. -/
inductive Outcome
  | fail (code : ℤ) (nonzero : code ≠ 0)
  | found (list : List Addrinfo) (nonempty : list ≠ [])

def Outcome.lookup (m : Heap) : Outcome → Lookup
  | .fail code _ => ⟨code, none, m⟩
  | .found list _ => ⟨0, hd none (build list m).1, (build list m).2⟩

def Netdb.scripted (script : ℕ → Outcome) : Netdb where
  getaddrinfo past _ m := (script past.length).lookup m
  freeaddrinfo p m := release m.next p m
  found past _ m h := by
    cases hscript : script past.length with
    | fail code hcode =>
      rw [hscript] at h
      exact absurd h hcode
    | found list hlist =>
      obtain ⟨hfresh, hvals⟩ := build_fresh list m
      refine ⟨_, fun hnil => hlist ?_, rfl, hfresh⟩
      rw [← hvals, hnil]
      rfl
  failed past _ m h := by
    cases hscript : script past.length with
    | fail code hcode => rfl
    | found list hlist =>
      rw [hscript] at h
      exact absurd rfl h
  freed _ _ h := release_seg h (seg_length_le h)

end Csockets.AddrModel
