import Csockets.Sections

/-!
The logging functions of the datagram echo server (`udpecho/main.c`) and of the chat server
(`udpchat/src/util/print.h`), called by any number of threads.

A text is what the format and its arguments come to. Each call of `fprintf` writes one piece.
-/

namespace Csockets.LogLines

open Threads Sections

variable {ι : Type*} [DecidableEq ι]

/-! ### The datagram echo server -/

namespace Udpecho

/-- `pdebug_enabled` and the others. -/
structure Enabled where
  pdebug : Bool
  pwarn : Bool
  perr : Bool

/-- What the three functions do: one that is not enabled returns with the mutex locked. -/
def plog (enabled : Bool) (heading text : String) : List (Op String) :=
  .lock :: if !enabled then []
    else [.write heading, .write text, .write "\n", .unlock]

def pdebug (en : Enabled) (progname text : String) : List (Op String) :=
  plog en.pdebug (progname ++ ": DEBUG: ") text

def pwarn (en : Enabled) (progname text : String) : List (Op String) :=
  plog en.pwarn (progname ++ ": WARN: ") text

def perr (en : Enabled) (progname text : String) : List (Op String) :=
  plog en.perr (progname ++ ": ERROR: ") text

inductive Call
  | pdebug (text : String)
  | pwarn (text : String)
  | perr (text : String)

def Call.run (en : Enabled) (progname : String) : Call → List (Op String)
  | .pdebug text => Udpecho.pdebug en progname text
  | .pwarn text => Udpecho.pwarn en progname text
  | .perr text => Udpecho.perr en progname text

def boot (en : Enabled) (progname : String) (prog : ι → List Call) : State ι String :=
  ⟨none, fun i => (prog i).flatMap (Call.run en progname), []⟩

def Call.enabled (en : Enabled) : Call → Bool
  | .pdebug _ => en.pdebug
  | .pwarn _ => en.pwarn
  | .perr _ => en.perr

def Call.line (progname : String) : Call → List String
  | .pdebug text => [progname ++ ": DEBUG: ", text, "\n"]
  | .pwarn text => [progname ++ ": WARN: ", text, "\n"]
  | .perr text => [progname ++ ": ERROR: ", text, "\n"]

def lines (en : Enabled) (progname : String) (l : List (ι × Call)) : List String :=
  l.flatMap fun x => if x.2.enabled en then x.2.line progname else []

def sec (en : Enabled) (progname : String) (c : Call) : Section String :=
  ⟨if c.enabled en then c.line progname else [], c.enabled en⟩

variable {en : Enabled} {progname : String} {prog : ι → List Call} {as : List ι}
  {st : State ι String}

lemma plog_eq (enabled : Bool) (heading text : String) :
    plog enabled heading text =
      .lock :: body (if enabled then [heading, text, "\n"] else []) enabled := by
  cases enabled <;> rfl

lemma run_eq (c : Call) : c.run en progname = (sec en progname c).ops := by
  cases c <;> exact plog_eq _ _ _

omit [DecidableEq ι] in
lemma boot_eq : boot en progname prog = start (sec en progname) prog := by
  have hrun : Call.run en progname = fun c => (sec en progname c).ops := funext run_eq
  unfold boot start opsOf
  rw [hrun]

lemma pieces_le (c : Call) : (sec en progname c).pieces.length ≤ 3 := by
  unfold sec
  dsimp only
  split
  · cases c <;> exact le_rfl
  · exact Nat.zero_le _

/-- The calls that have begun, in their order: what is written is their lines, but for what the
last of them has not written yet. -/
structure Begun (en : Enabled) (progname : String) (prog : ι → List Call) (st : State ι String)
    (begun : List (ι × Call)) : Prop where
  each : ∀ i, callsOf i begun <+: prog i
  whole : lines en progname begun.dropLast <+: st.out
  upto : st.out <+: lines en progname begun
  all : (∀ i, st.todo i = []) → ∀ i, callsOf i begun = prog i

/-- **Whole lines on `stderr`**: whatever the threads log and in whichever order they run, their
lines come out whole and one behind the other, those of each thread in its order, and none of them
gives back a mutex that it does not hold. They stop when all are through, or for good with the first
call of a function that is not enabled. -/
theorem stderr_lines [Fintype ι] (en : Enabled) (progname : String) (prog : ι → List Call)
    (as : List ι) :
    sched step as (boot en progname prog) ≠ .fault ∧
    (sched step as (boot en progname prog)).All fun st =>
      as.length ≤ 5 * ∑ i, (prog i).length ∧ ∃ begun, Begun en progname prog st begun ∧
        (∀ x ∈ begun.dropLast, x.2.enabled en = true) ∧
        ((∀ i, step i st = .blocked) ↔
          (∀ i, st.todo i = []) ∨ ∃ x ∈ begun.getLast?, x.2.enabled en = false) := by
  rw [boot_eq]
  refine ⟨sched_safe _ _ as, Move.all_of fun st h => ⟨sched_length pieces_le h, ?_⟩⟩
  obtain ⟨begun, each, whole, upto, given, all, stuck⟩ := sched_serial h
  refine ⟨begun, ⟨each, whole, upto, all⟩, given, ?_⟩
  rw [stuck]
  constructor
  · rintro ⟨-, hends⟩
    exact hends
  · intro hends
    refine ⟨?_, hends⟩
    rcases hends with hnil | ⟨x, hx, hoff⟩
    · exact (stuck.mp fun i => step_ended (hnil i)).1
    · -- the last of them writes nothing
      obtain ⟨l, rfl⟩ := List.getLast?_eq_some_iff.mp hx
      have hlines : written (sec en progname) (l ++ [x]) = written (sec en progname) l := by
        rw [written_snoc]
        simp [sec, hoff]
      rw [List.dropLast_concat] at whole
      rw [hlines] at upto ⊢
      exact upto.eq_of_length (Nat.le_antisymm upto.length_le whole.length_le)

/-- A call that is not enabled, and one of another thread behind it: the second never prints. -/
example :
    (match sched step [0, 0, 0, 0, 0, 0]
        (boot ⟨false, true, true⟩ "udpecho" (![[.perr "a", .pdebug "b"], [.perr "c"]]) :
          State (Fin 2) String) with
      | .next st => some (st.out, st.owner)
      | _ => none) = some (["udpecho: ERROR: ", "a", "\n"], some 0) := by
  decide

end Udpecho

/-! ### The chat server -/

namespace Udpchat

inductive Stream
  | stdout
  | stderr
  deriving DecidableEq

/-- `PRINT_DEBUG` and the others. -/
structure Enabled where
  debug : Bool
  info : Bool
  warn : Bool
  error : Bool

/-- What the macros are replaced by: nothing, where they are not enabled. -/
def print (enabled : Bool) (stream : Stream) (heading text : String) :
    List (Op (Stream × String)) :=
  if enabled then
    [.lock, .write (stream, heading), .write (stream, text), .write (stream, "\n"), .unlock]
  else []

def pdebug (en : Enabled) (text : String) := print en.debug .stdout "DEBUG: " text
def pinfo (en : Enabled) (text : String) := print en.info .stdout "INFO : " text
def pwarn (en : Enabled) (text : String) := print en.warn .stderr "WARN : " text
def perror (en : Enabled) (text : String) := print en.error .stderr "ERROR: " text

inductive Call
  | pdebug (text : String)
  | pinfo (text : String)
  | pwarn (text : String)
  | perror (text : String)

def Call.run (en : Enabled) : Call → List (Op (Stream × String))
  | .pdebug text => Udpchat.pdebug en text
  | .pinfo text => Udpchat.pinfo en text
  | .pwarn text => Udpchat.pwarn en text
  | .perror text => Udpchat.perror en text

def boot (en : Enabled) (prog : ι → List Call) : State ι (Stream × String) :=
  ⟨none, fun i => (prog i).flatMap (Call.run en), []⟩

def Call.enabled (en : Enabled) : Call → Bool
  | .pdebug _ => en.debug
  | .pinfo _ => en.info
  | .pwarn _ => en.warn
  | .perror _ => en.error

def Call.stream : Call → Stream
  | .pdebug _ => .stdout
  | .pinfo _ => .stdout
  | .pwarn _ => .stderr
  | .perror _ => .stderr

def Call.line : Call → List String
  | .pdebug text => ["DEBUG: ", text, "\n"]
  | .pinfo text => ["INFO : ", text, "\n"]
  | .pwarn text => ["WARN : ", text, "\n"]
  | .perror text => ["ERROR: ", text, "\n"]

def on (stream : Stream) (out : List (Stream × String)) : List String :=
  out.filterMap fun x => if x.1 = stream then some x.2 else none

def lines (stream : Stream) (l : List (ι × Call)) : List String :=
  l.flatMap fun x => if x.2.stream = stream then x.2.line else []

def sec (c : Call) : Section (Stream × String) := ⟨c.line.map (Prod.mk c.stream), true⟩

variable {en : Enabled} {prog : ι → List Call} {as : List ι} {st : State ι (Stream × String)}

lemma run_eq (c : Call) : c.run en = if c.enabled en then (sec c).ops else [] := by
  cases c <;> rfl

lemma flatMap_run (l : List Call) :
    l.flatMap (Call.run en) = opsOf sec (l.filter (Call.enabled en)) := by
  induction l with
  | nil => rfl
  | cons c l ih =>
    rw [List.flatMap_cons, ih, run_eq]
    by_cases hc : c.enabled en = true
    · rw [if_pos hc, List.filter_cons_of_pos hc]
      rfl
    · rw [if_neg hc, List.filter_cons_of_neg hc]
      rfl

omit [DecidableEq ι] in
lemma boot_eq : boot en prog = start sec fun i => (prog i).filter (Call.enabled en) := by
  unfold boot start
  simp only [flatMap_run]

lemma pieces_le (c : Call) : (sec c).pieces.length ≤ 3 := by
  cases c <;> exact le_rfl

omit [DecidableEq ι] in
lemma on_written (stream : Stream) (l : List (ι × Call)) :
    on stream (written sec l) = lines stream l := by
  unfold on written lines
  rw [List.filterMap_flatMap]
  congr
  ext1 x
  unfold sec
  rw [List.filterMap_map]
  by_cases hx : x.2.stream = stream
  · simp [hx]
  · simp [hx]

/-- The calls that have begun, in their order: on each stream their lines come out, but for what
the last of them has not written yet. -/
structure Begun (en : Enabled) (prog : ι → List Call) (st : State ι (Stream × String))
    (begun : List (ι × Call)) : Prop where
  each : ∀ i, callsOf i begun <+: (prog i).filter (Call.enabled en)
  whole : ∀ stream, lines stream begun.dropLast <+: on stream st.out
  upto : ∀ stream, on stream st.out <+: lines stream begun
  all : (∀ i, st.todo i = []) → ∀ i, callsOf i begun = (prog i).filter (Call.enabled en)

/-- **Whole lines on both streams**: whatever the threads print and in whichever order they run,
the lines of the calls that are enabled come out whole on their streams, those of each thread in
its order, and the others leave no trace; no thread gives back a mutex that it does not hold, and
they stop when all are through, and then only. -/
theorem streams_lines [Fintype ι] (en : Enabled) (prog : ι → List Call) (as : List ι) :
    sched step as (boot en prog) ≠ .fault ∧
    (sched step as (boot en prog)).All fun st =>
      as.length ≤ 5 * ∑ i, ((prog i).filter (Call.enabled en)).length ∧
      (∃ begun, Begun en prog st begun) ∧
      ((∀ i, step i st = .blocked) ↔ ∀ i, st.todo i = []) := by
  rw [boot_eq]
  refine ⟨sched_safe _ _ as, Move.all_of fun st h => ⟨sched_length pieces_le h, ?_⟩⟩
  obtain ⟨begun, each, whole, upto, -, all, stuck⟩ := sched_serial h
  refine ⟨⟨begun, each, fun stream => ?_, fun stream => ?_, all⟩, ?_⟩
  · rw [← on_written]
    exact whole.filterMap _
  · rw [← on_written]
    exact upto.filterMap _
  · constructor
    · intro hstuck
      rcases (stuck.mp hstuck).2 with hnil | ⟨x, -, hoff⟩
      · exact hnil
      · cases hoff
    · exact fun hnil i => step_ended (hnil i)

end Udpchat

end Csockets.LogLines
