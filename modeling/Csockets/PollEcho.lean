import Csockets.PollSlots

/-!
What each client is sent back: a prefix of what it sent, as long as no write that delivers
something comes after one that did not deliver everything.
-/

namespace Csockets.PollEcho

open Runs PollModel PollSlots

def readFrom (conn : ℕ) (log : List Event) : List UInt8 :=
  log.flatMap fun
    | .read c bytes => if c = conn then bytes else []
    | _ => []

/-- The bytes successfully written to a connection so far, as an echo. -/
def writtenTo (conn : ℕ) (log : List Event) : List UInt8 :=
  log.flatMap fun
    | .write c bytes ret => if c = conn then bytes.take ret.toNat else []
    | _ => []

/-- Right after the event, every client has been sent a prefix of what it sent. -/
def Echoed (past : List Event) (e : Event) : Prop :=
  ∀ conn, writtenTo conn (past ++ [e]) <+: readFrom conn (past ++ [e])

def short (conn : ℕ) : Event → Bool
  | .write c bytes ret => c = conn ∧ ret ≠ bytes.length
  | _ => false

/-- A write that delivers something comes after writes only that delivered everything. -/
def Lossless (past : List Event) : Event → Prop
  | .write c _ ret => 0 < ret → ∀ e ∈ past, short c e = false
  | _ => True

instance (past : List Event) : ∀ e, Decidable (Lossless past e)
  | .write c _ ret => inferInstanceAs (Decidable (0 < ret → ∀ e ∈ past, short c e = false))
  | .close _ _ _ => isTrue trivial
  | .turnAway _ _ _ => isTrue trivial
  | .read _ _ => isTrue trivial

def quiet : Event → Bool
  | .close _ _ _ => true
  | .turnAway _ _ _ => true
  | _ => false

/-- A log in which every chunk that is read is written back at once. -/
inductive Paired : List Event → Prop
  | nil : Paired []
  | quiet {log} (h : Paired log) {e} (he : quiet e = true) : Paired (log ++ [e])
  | echo {log} (h : Paired log) (conn : ℕ) (bytes : List UInt8) (ret : ℤ) :
      Paired (log ++ [.read conn bytes] ++ [.write conn bytes ret])

variable {log : List Event}

lemma readFrom_snoc (conn : ℕ) (e : Event) :
    readFrom conn (log ++ [e]) = readFrom conn log ++ readFrom conn [e] := List.flatMap_append

lemma writtenTo_snoc (conn : ℕ) (e : Event) :
    writtenTo conn (log ++ [e]) = writtenTo conn log ++ writtenTo conn [e] := List.flatMap_append

lemma readFrom_read (conn c : ℕ) (bytes : List UInt8) :
    readFrom conn (log ++ [.read c bytes]) =
      readFrom conn log ++ if c = conn then bytes else [] := by
  rw [readFrom_snoc]
  simp [readFrom]

lemma writtenTo_read (conn c : ℕ) (bytes : List UInt8) :
    writtenTo conn (log ++ [.read c bytes]) = writtenTo conn log := by
  rw [writtenTo_snoc]
  simp [writtenTo]

lemma readFrom_write (conn c : ℕ) (bytes : List UInt8) (ret : ℤ) :
    readFrom conn (log ++ [.write c bytes ret]) = readFrom conn log := by
  rw [readFrom_snoc]
  simp [readFrom]

lemma writtenTo_write (conn c : ℕ) (bytes : List UInt8) (ret : ℤ) :
    writtenTo conn (log ++ [.write c bytes ret]) =
      writtenTo conn log ++ if c = conn then bytes.take ret.toNat else [] := by
  rw [writtenTo_snoc]
  simp [writtenTo]

lemma streams_quiet (log : List Event) {e : Event} (he : quiet e = true) (conn : ℕ) :
    readFrom conn (log ++ [e]) = readFrom conn log ∧
      writtenTo conn (log ++ [e]) = writtenTo conn log := by
  rw [readFrom_snoc, writtenTo_snoc]
  cases e with
  | close _ _ _ => simp [readFrom, writtenTo]
  | turnAway _ _ _ => simp [readFrom, writtenTo]
  | read _ _ => cases he
  | write _ _ _ => cases he

/-- What a client has been sent while nothing was lost, and after. -/
structure Streams (log : List Event) : Prop where
  whole : ∀ conn, (∀ e ∈ log, short conn e = false) → writtenTo conn log = readFrom conn log
  part : ∀ conn, writtenTo conn log <+: readFrom conn log

lemma Streams.echo (h : Streams log) {conn : ℕ} {bytes : List UInt8} {ret : ℤ}
    (hloss : Lossless (log ++ [.read conn bytes]) (.write conn bytes ret)) :
    Streams (log ++ [.read conn bytes] ++ [.write conn bytes ret]) where
  whole c hfull := by
    have hold : writtenTo c log = readFrom c log :=
      h.whole c fun e he => hfull e (by simp [he])
    rw [writtenTo_write, readFrom_write, writtenTo_read, readFrom_read, hold]
    by_cases hc : conn = c
    · have hall : ret = bytes.length := by
        simpa [short, hc] using hfull (.write conn bytes ret) (by simp)
      rw [if_pos hc, if_pos hc, hall, Int.toNat_natCast, List.take_length]
    · rw [if_neg hc, if_neg hc]
  part c := by
    rw [writtenTo_write, readFrom_write, writtenTo_read, readFrom_read]
    by_cases hc : conn = c
    · subst hc
      rw [if_pos rfl, if_pos rfl]
      by_cases hpos : 0 < ret
      · -- nothing was lost before
        have hold : writtenTo conn log = readFrom conn log :=
          h.whole conn fun e he => hloss hpos e (by simp [he])
        rw [hold, List.prefix_append_right_inj]
        exact List.take_prefix _ _
      · have hzero : ret.toNat = 0 := by omega
        rw [hzero, List.take_zero, List.append_nil]
        exact (h.part conn).trans (List.prefix_append _ _)
    · rw [if_neg hc, if_neg hc, List.append_nil, List.append_nil]
      exact h.part c

/-- A log that pairs reads with writes and loses nothing in between echoes at every event. -/
lemma Paired.echoed (h : Paired log) (hloss : Always Lossless [] log) :
    Always Echoed [] log ∧ Streams log := by
  induction h with
  | nil => exact ⟨trivial, ⟨fun _ _ => rfl, fun _ => List.prefix_rfl⟩⟩
  | @quiet log h e he ih =>
    obtain ⟨ha, hs⟩ := ih (always_snoc.mp hloss).1
    have hpart : ∀ conn, writtenTo conn (log ++ [e]) <+: readFrom conn (log ++ [e]) := by
      intro conn
      obtain ⟨hr, hw⟩ := streams_quiet log he conn
      rw [hr, hw]
      exact hs.part conn
    refine ⟨always_snoc.mpr ⟨ha, hpart⟩, fun conn hfull => ?_, hpart⟩
    obtain ⟨hr, hw⟩ := streams_quiet log he conn
    rw [hr, hw]
    exact hs.whole conn fun x hx => hfull x (by simp [hx])
  | @echo log h conn bytes ret ih =>
    obtain ⟨hloss, hwrite⟩ := always_snoc.mp hloss
    obtain ⟨ha, hs⟩ := ih (always_snoc.mp hloss).1
    have hs' := hs.echo hwrite
    refine ⟨always_snoc.mpr ⟨always_snoc.mpr ⟨ha, fun c => ?_⟩, hs'.part⟩, hs'⟩
    rw [List.nil_append, writtenTo_read, readFrom_read]
    exact (hs.part c).trans (List.prefix_append _ _)

/-! ### The server's log -/

lemma close_paired {s : State} (h : Paired s.log) (fd : ℤ) (owner : Option ℕ) :
    Paired (close fd owner s).log := h.quiet rfl

lemma kicks_paired {l : List Slot} {s : State} (h : Paired s.log) :
    Paired (l.foldl kick s).log := by
  induction l generalizing s with
  | nil => exact h
  | cons n l ih =>
    refine ih ?_
    unfold kick
    dsimp only
    split
    · exact close_paired h _ _
    · exact h

lemma clienthandle_paired {s : State} (h : Paired s.log) (echo : Echo) (n : Slot) :
    Paired (clienthandle echo n s).log := by
  unfold clienthandle
  split
  · rename_i conn bytes _ ret _ _
    have hlog := h.echo conn bytes ret
    simpa using hlog
  · exact h

lemma handleSlots_paired (r : Round) {l : List Slot} {s : State} (h : Paired s.log) :
    Paired (l.foldl (handleSlot r) s).log := by
  induction l generalizing s with
  | nil => exact h
  | cons n l ih =>
    refine ih ?_
    obtain ⟨s₁, hs₁, h₁⟩ : ∃ s₁,
        (if (s.fds n).revents &&& POLLIN > 0 then clienthandle (r.echo n) n s else s) = s₁ ∧
          Paired s₁.log := by
      split
      · exact ⟨_, rfl, clienthandle_paired h _ _⟩
      · exact ⟨s, rfl, h⟩
    unfold handleSlot
    rw [hs₁]
    dsimp only
    split
    · exact close_paired h₁ _ _
    · exact h₁

lemma newClient_paired (r : Round) {s : State} (h : Paired s.log) : Paired (newClient r s).log := by
  unfold newClient
  dsimp only
  split
  · split
    · exact h
    · exact h
  · split
    · exact h
    · exact (h.quiet rfl).quiet rfl

lemma socketloop_paired (r : Round) {s : State} (h : Paired s.log) :
    Paired (socketloop r s).2.log := by
  unfold socketloop
  split
  · exact h
  · rename_i revents _
    have hpolled : Paired (polled revents s).log := h
    have hslots := handleSlots_paired r (l := slots) hpolled
    dsimp only
    split
    · exact kicks_paired hpolled
    · split
      · exact hslots
      · split
        · exact newClient_paired r hslots
        · exact hslots

/-- **The echo**: after every event of a run in which no write delivers anything once one to the
same client was short or failed, each client has been sent a prefix of what it sent. -/
theorem reachable_echoed (sockfd : ℤ) (rounds : List Round) (r : Round) {s : State}
    (hs : runs next rounds (start sockfd) = some s)
    (h : Always Lossless [] (socketloop r s).2.log) :
    Always Echoed [] (socketloop r s).2.log := by
  have hpaired : Paired s.log := runs_keep (C := fun _ _ => True) (fun s => Paired s.log)
    (fun r s s' hp _ hs' => next_eq hs' ▸ socketloop_paired r hp) Paired.nil
    (along_all (fun _ _ => trivial) rounds _) hs
  exact ((socketloop_paired r hpaired).echoed h).1

def ready (echo : Echo) : Round := ⟨some fun n => if n = 1 then POLLIN else 0, fun _ => echo, -1⟩

def whole : Echo := .chunk [1, 2] (by simp) 2 (by simp)

def half : Echo := .chunk [3, 4] (by simp) 1 (by simp)

def failed : Echo := .chunk [5] (by simp) (-1) (by simp)

theorem echoed_half :
    ∃ s, runs next [connects, ready whole, ready half] (start 3) = some s ∧
      Always Echoed [] (socketloop (ready failed) s).2.log := by
  have hrun : (runs next [connects, ready whole, ready half] (start 3)).map (fun s =>
      decide (Always Lossless [] (socketloop (ready failed) s).2.log)) = some true := by
    decide +kernel
  obtain ⟨s, hs, htrue⟩ := Option.map_eq_some_iff.mp hrun
  exact ⟨s, hs, reachable_echoed 3 _ _ hs (of_decide_eq_true htrue)⟩

/-- After a short write the next chunk is sent in place of the lost byte. -/
theorem not_echoed_after_half :
    ¬ ∀ (sockfd : ℤ) (rounds : List Round) (r : Round) (s : State),
      runs next rounds (start sockfd) = some s → Always Echoed [] (socketloop r s).2.log := by
  intro h
  have hrun : (runs next [connects, ready half] (start 3)).map
      (fun s => (socketloop (ready whole) s).2.log) =
        some [.read 0 [3, 4], .write 0 [3, 4] 1, .read 0 [1, 2], .write 0 [1, 2] 2] := by
    decide +kernel
  obtain ⟨s, hs, hlog⟩ := Option.map_eq_some_iff.mp hrun
  have halways := h 3 _ (ready whole) s hs
  rw [hlog] at halways
  have hecho : Echoed [.read 0 [3, 4], .write 0 [3, 4] 1, .read 0 [1, 2]] (.write 0 [1, 2] 2) :=
    halways.2.2.2.1
  exact absurd (hecho 0) (by decide)

end Csockets.PollEcho
