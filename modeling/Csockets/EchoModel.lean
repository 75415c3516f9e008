import Csockets.Bytes
import Csockets.Loops

/-!
The echo server that serves one client after the other (`tcpEchoServer/src/main.c`).

What the system calls come back with is an input of each pass of the accept loop, and so is
what happens to stand in the memory of `buffer`. A call of `client_handle` need not end, so it
is given a number of turns; it faults where C leaves the behaviour undefined.
-/

namespace Csockets.EchoModel

open Bytes Loops

abbrev LEN : ℕ := 255
def INT_MAX : ℤ := 2 ^ 31 - 1

/-- What `read` comes back with when it is asked for `count` bytes. -/
inductive Reading (count : ℕ)
  | fail
  | got (bytes : List UInt8) (fits : bytes.length ≤ count)

def Reading.ret {count : ℕ} : Reading count → ℤ
  | .fail => -1
  | .got bytes _ => bytes.length

def Reading.bytes {count : ℕ} : Reading count → List UInt8
  | .fail => []
  | .got bytes _ => bytes

abbrev Answer := (count : ℕ) → Reading count

def badf : Answer := fun _ => .fail

def deliver (chunk : List UInt8) : Answer := fun count => .got (chunk.take count) (by simp)

inductive Event
  | accept (fd : ℤ)
  | read (offset : ℕ) (count : ℤ) (bread : ℤ)
  | write (bytes : List UInt8) (ret : ℤ)
  | close (fd : ℤ)
  deriving DecidableEq

/-- One pass of the accept loop: what `accept` and then each `read` and the `write` of
`client_handle` come back with, and what `buffer` holds before anything is written to it. -/
structure Pass where
  accept : ℤ
  reads : Stream' Answer
  write : {ret : ℤ // ret ≤ LEN}
  buffer : Buf LEN

/-- Reading from a descriptor that is not one fails. -/
def Pass.answers (p : Pass) : Stream' Answer :=
  if p.accept < 0 then Stream'.const badf else p.reads

/-- The variables of `client_handle`, and what has been called so far. -/
structure Handler where
  buffer : Buf LEN
  bytesRemaining : ℤ
  log : List Event

/-- One turn of the loop in `client_handle`. It is left with a log when the function returns
in it, and with the variables when it is over. -/
def readTurn (answer : Answer) (h : Handler) : Turn Handler (Except (List Event) Handler) :=
  if 0 < h.bytesRemaining then
    let result := answer h.bytesRemaining.toNat
    let bread := result.ret
    let log := h.log ++ [.read 0 h.bytesRemaining bread] -- always to `&buffer`
    match h.buffer.write 0 result.bytes with
    | none => .fault
    | some buffer =>
      if bread < -1 then .leave (.error log)
      else if h.bytesRemaining - bread ≤ INT_MAX then
        .again ⟨buffer, h.bytesRemaining - bread, log⟩
      else .fault
  else .leave (.ok h)

def clientHandle (n : ℕ) (p : Pass) (log : List Event) : Turn Handler (List Event) :=
  match loop readTurn n p.answers ⟨p.buffer, LEN, log⟩ with
  | .again h => .again h
  | .leave (.error log) => .leave log
  -- whatever `write` returns, the function does
  | .leave (.ok h) => .leave (h.log ++ [.write h.buffer.bytes p.write])
  | .fault => .fault

/-- Where the server is after some passes of its accept loop: back at `accept`, in
`client_handle`, or past undefined behaviour. -/
inductive Status
  | accepting
  | handling
  | undefined
  deriving DecidableEq

/-- The accept loop of `socket_v4`, with `n` turns at most for each client. -/
def socketV4 (n : ℕ) : List Pass → List Event → Status × List Event
  | [], log => (.accepting, log)
  | p :: passes, log =>
    -- a failed `accept` is reported and its result handed on
    match clientHandle n p (log ++ [.accept p.accept]) with
    | .again h => (.handling, h.log)
    | .leave log => socketV4 n passes (log ++ [.close p.accept])
    | .fault => (.undefined, log)

end Csockets.EchoModel
