import Csockets.Bytes
import Csockets.Loops

/-!
The server that prints the datagrams it gets (`server` in `udpmsg/main.old.c`).

The buffer is one object that all datagrams are received into; an access outside it, or a read
outside the sender's address, is a fault. `inet_ntop` is any function from address bytes to a
text, which it may fail to give.
-/

namespace Csockets.UdpmsgModel

open Bytes Loops

abbrev MAX_PACKET_SIZE : ℕ := 1212
def NEWLINE : UInt8 := 10
def sizeofSockaddr : ℕ := 16

/-! ### Trailing newlines -/

/-- The variables of the loop over the trailing newlines, and the indices of the buffer that it
has read or written. -/
structure Trim where
  buffer : Buf MAX_PACKET_SIZE
  n : UInt64
  touched : List ℕ

/-- `for (...; buffer[n] == '\n'; --n) buffer[n] = '\0'`, one turn. -/
def trimTurn (t : Trim) : Turn Trim Trim :=
  match t.buffer.bytes[t.n.toNat]? with
  | none => .fault
  | some c =>
    if c = NEWLINE then
      match t.buffer.write t.n.toNat [0] with
      | none => .fault
      | some buffer => .again ⟨buffer, t.n - 1, t.touched ++ [t.n.toNat, t.n.toNat]⟩
    else .leave { t with touched := t.touched ++ [t.n.toNat] }

def trim (turns : ℕ) (t : Trim) : Turn Trim Trim :=
  loop (fun _ : Unit => trimTurn) turns (Stream'.const ()) t

def Trim.start (buffer : Buf MAX_PACKET_SIZE) (packetLen : ℕ) : Trim :=
  ⟨buffer, UInt64.ofNat (packetLen - 1), []⟩

/-! ### The server -/

/-- What `recvfrom` comes back with: an error, which is ECONNREFUSED or not, or a datagram, cut to
what it was asked for, with the address of its sender. -/
inductive Recv
  | fail (refused : Bool)
  | packet (bytes : List UInt8) (fits : bytes.length ≤ MAX_PACKET_SIZE - 1) (addr : List UInt8)

inductive Line
  | empty
  | ipv6
  | ipv4
  | received (ipaddr : String) (packetLen : ℕ) (text : List UInt8)
  deriving DecidableEq

structure Server where
  buffer : Buf MAX_PACKET_SIZE
  clientaddr : Buf sizeofSockaddr
  ipaddr : String
  errcount : ℕ
  printed : List Line

/-- What `%s` prints of a buffer. -/
def cstring (bytes : List UInt8) : List UInt8 := bytes.takeWhile (· ≠ 0)

variable (inetNtop : List UInt8 → Option String)

def packet (bytes addr : List UInt8) (s : Server) : Option Server := do
  let buffer ← s.buffer.write 0 bytes
  -- no more of the address is stored than there is room for
  let clientaddr ← s.clientaddr.write 0 (addr.take sizeofSockaddr)
  if bytes.length = 0 then
    some { s with buffer := buffer, clientaddr := clientaddr, printed := s.printed ++ [.empty] }
  else
    let (ip, family) ←
      if addr.length ≥ 28 then (readN (clientaddr.bytes.drop 8) 16).map fun ip => (ip, Line.ipv6)
      else (readN (clientaddr.bytes.drop 4) 4).map fun ip => (ip, Line.ipv4)
    let ipaddr := (inetNtop ip).getD s.ipaddr
    let printed := s.printed ++ [family]
    let buffer ← buffer.write bytes.length [0]
    match trim MAX_PACKET_SIZE (.start buffer bytes.length) with
    | .leave t =>
      some
        { s with
          buffer := t.buffer, clientaddr := clientaddr, ipaddr := ipaddr,
          printed := printed ++ [.received ipaddr bytes.length (cstring t.buffer.bytes)] }
    | _ => none

/-- One turn of `while (1)`, which only errors leave. -/
def serverTurn (r : Recv) (s : Server) : Turn Server Server :=
  match r with
  | .fail true =>
    if s.errcount + 1 > 3 then .leave { s with errcount := s.errcount + 1 }
    else .again { s with errcount := s.errcount + 1 }
  | .fail false => .leave s
  | .packet bytes _ addr => (packet inetNtop bytes addr s).elim .fault .again

def server (turns : ℕ) (feed : Stream' Recv) : Turn Server Server :=
  loop (serverTurn inetNtop) turns feed ⟨Buf.zero _, Buf.zero _, "", 0, []⟩

end Csockets.UdpmsgModel
