import Csockets.Deliveries

/-!
The chat room without its machinery: its members, in the order they came in, and the calls made
so far. It has no heap, no addresses of entries and no buffers.

A run of the server is a run of the room: the members are the users of the table, and every call
is made at the same place, with the same arguments.
-/

namespace Csockets.Rooms

open Runs Chain NetModel UsersModel UsersList UsersRefine FormatterModel ServerModel ServerList
  Deliveries

/-- The calls made so far: how many of each kind, and what they leave in the log. -/
structure Ledger where
  times : ℕ
  mallocs : ℕ
  sends : ℕ
  log : List Event
  deriving DecidableEq

structure Room where
  members : List UserData
  ledger : Ledger
  deriving DecidableEq

def Room.empty : Room := ⟨[], ⟨0, 0, 0, []⟩⟩

def Ledger.record (e : Event) (l : Ledger) : Ledger := { l with log := l.log ++ [e] }

variable (sys : Sys) (timeout : ℤ)

def Ledger.time (l : Ledger) : Ledger :=
  Ledger.record (.time (sys.time l.times)) { l with times := l.times + 1 }

/-- How many of `n` notices are tried, the `k`-th `sendto` call being the next. -/
def tries : ℕ → ℕ → ℕ
  | 0, _ => 0
  | n + 1, k => if sys.sendto k < 1 then 1 else tries n (k + 1) + 1

def Ledger.kick (u : UserData) (l : Ledger) : Ledger where
  times := l.times
  mallocs := l.mallocs
  sends := l.sends + tries sys MSG_USR_TIMEOUT_COUNT l.sends
  log := l.log ++ [.timeoutFunc u] ++
    List.replicate (tries sys MSG_USR_TIMEOUT_COUNT l.sends) (.notice (noticeTo u))

/-- The members who stay when each is looked at in turn. -/
def check : List UserData → Ledger → List UserData × Ledger
  | [], l => ([], l)
  | u :: us, l =>
    if u.lastMsg + timeout < sys.time l.times then check us ((l.time sys).kick sys u)
    else
      let (stay, l) := check us (l.time sys)
      (u :: stay, l)

/-- A message of `u` comes in. Those ahead of its sender are looked at, and all but the last one
if the sender is new; the result is 0 if the message is accepted. -/
def arrive (u : UserData) (r : Room) : ℤ × Room :=
  match r.members.dropWhile fun v => !same u v with
  | v :: behind =>
    let (stay, l) := check sys timeout (r.members.takeWhile fun v => !same u v) r.ledger
    if spam u v then (1, ⟨stay ++ v :: behind, l⟩)
    else (0, ⟨stay ++ refresh behind.isEmpty u v :: behind, l⟩)
  | [] =>
    let (stay, l) := check sys timeout r.members.dropLast r.ledger
    let l' := { l with mallocs := l.mallocs + 1 }
    if sys.malloc l.mallocs then (0, ⟨stay ++ r.members.getLast?.toList ++ [u], l'⟩)
    else (1, ⟨stay ++ r.members.getLast?.toList, l'⟩)

def say (u : UserData) (data : List UInt8) (r : Room) : Room where
  members := r.members
  ledger := { r.ledger with
    sends := r.ledger.sends + r.members.length
    log := r.ledger.log ++ r.members.map fun v => .chat (chatTo u data v) }

/-- What the room makes of one input. -/
def meet (r : Room) (input : Input) : Room :=
  match datagramOf input with
  | none => r
  | some d =>
    let u := d.user (sys.time r.ledger.times)
    let (ret, r) := arrive sys timeout u { r with ledger := r.ledger.time sys }
    let r := { r with ledger := r.ledger.record (.update u ret) }
    if ret = 0 then say u d.data r else r

/-! ### The server is a room -/

def ledger (io : Io) : Ledger := ⟨io.times, io.mallocs, io.sends, io.log⟩

def room (L : List Entry) (io : Io) : Room := ⟨L.map Prod.snd, ledger io⟩

variable {sys timeout}

lemma notices_eq (send : Send) (n : ℕ) (io : Io) :
    notices sys send n io = { io with
      sends := io.sends + tries sys n io.sends
      log := io.log ++ List.replicate (tries sys n io.sends) (.notice send) } := by
  induction n generalizing io with
  | zero => simp [notices, tries]
  | succ n ih =>
    unfold notices tries
    dsimp only [Sys.send]
    by_cases hb : sys.sendto io.sends < 1
    · simp [hb, Io.record]
    · rw [if_neg hb, if_neg hb, ih]
      simp only [Io.record, List.append_assoc, List.replicate_succ, List.singleton_append,
        Io.mk.injEq, true_and, and_true]
      omega

lemma timeoutFunc_room (u : UserData) (io : Io) :
    ∃ io', timeoutFunc sys u io = some io' ∧ ledger io' = (ledger io).kick sys u := by
  obtain ⟨f, hf, hread⟩ := formatted io.fmt 0 u.id MSG_USR_TIMEOUT_STR
    (show 1 ≤ MSG_USR_TIMEOUT_STR.length by decide) (by decide)
  refine ⟨notices sys (noticeTo u) MSG_USR_TIMEOUT_COUNT
    { io with fmt := f, log := io.log ++ [.timeoutFunc u] }, ?_, ?_⟩
  · simp only [timeoutFunc, Io.record, hf, Option.bind_eq_bind, Option.bind_some, hread]
    rfl
  · rw [notices_eq]
    rfl

lemma ledger_time (io : Io) : ledger (sys.world.time io).2 = (ledger io).time sys := rfl

lemma sweep_room {L L' : List Entry} {io io' : Io}
    (h : sweep sys.world (timeoutFunc sys) timeout L io = some (L', io')) :
    check sys timeout (L.map Prod.snd) (ledger io) = (L'.map Prod.snd, ledger io') := by
  induction L generalizing L' io with
  | nil =>
    cases h
    rfl
  | cons e L ih =>
    rw [List.map_cons, check, ← ledger_time]
    rcases sweep_cons_iff.mp h with ⟨hstale, io₁, hf, hl⟩ | ⟨hstale, l', rfl, hl⟩
    · obtain ⟨io₂, hf₂, hkick⟩ := timeoutFunc_room e.2 (sys.world.time io).2
      obtain rfl := Option.some.inj (hf₂.symm.trans hf)
      rw [← hkick, ih hl]
      exact if_pos hstale
    · rw [ih hl]
      exact if_neg hstale

lemma onward_map (u : UserData) (L : List Entry) :
    (L.map Prod.snd).dropWhile (fun v => !same u v) = (onward u L).map Prod.snd :=
  List.dropWhile_map ..

lemma before_map (u : UserData) (L : List Entry) :
    (L.map Prod.snd).takeWhile (fun v => !same u v) = (before u L).map Prod.snd :=
  List.takeWhile_map ..

lemma update_room {u : UserData} {fresh : ℕ} {L L' : List Entry} {io io' : Io} {ret : ℤ}
    (h : update sys.world (timeoutFunc sys) timeout u fresh L io = some (ret, L', io')) :
    arrive sys timeout u (room L io) = (ret, room L' io') := by
  unfold arrive
  rw [room]
  dsimp only
  rw [onward_map, before_map]
  rcases update_cases h with ⟨e, X, A, hX, hs, hr⟩ | ⟨A, io₁, hX, hs, rfl, hr⟩
  · rw [hX, List.map_cons]
    dsimp only
    rw [sweep_room hs]
    dsimp only
    rcases hr with ⟨hspam, rfl, rfl⟩ | ⟨hspam, rfl, rfl⟩
    · rw [if_pos hspam]
      simp [room]
    · rw [if_neg (by simp [hspam])]
      simp [room]
  · have hlast : (L.map Prod.snd).getLast?.toList = L.getLast?.toList.map Prod.snd := by
      rw [List.getLast?_map, Option.toList_map]
    rw [hX, List.map_nil]
    dsimp only
    rw [← List.map_dropLast, sweep_room hs, hlast]
    dsimp only
    rcases hr with ⟨hfull, rfl, rfl⟩ | ⟨hfree, rfl, rfl⟩
    · have hmalloc : ¬ sys.malloc (ledger io₁).mallocs = true := Bool.eq_false_iff.mp hfull
      rw [if_neg hmalloc, room, List.map_append]
      rfl
    · have hmalloc : sys.malloc (ledger io₁).mallocs = true := hfree
      rw [if_pos hmalloc, room, List.map_append, List.map_append]
      rfl

/-- A call of `msg_handle` is a step of the room. -/
lemma handled_room {fresh : ℕ} {input : Input} {L L' : List Entry} {io io' : Io}
    (h : Handled sys timeout fresh input L io L' io') :
    meet sys timeout (room L io) input = room L' io' := by
  have hmeet : ∀ {u : UserData} {data : List UInt8} {ret : ℤ} {io₁ : Io},
      arrival sys input io = some (u, data) →
      update sys.world (timeoutFunc sys) timeout u fresh L (sys.world.time io).2 =
        some (ret, L', io₁) →
      meet sys timeout (room L io) input =
        if ret = 0 then say u data (room L' (io₁.record (.update u ret)))
        else room L' (io₁.record (.update u ret)) := by
    intro u data ret io₁ hu hup
    rw [arrival_datagram] at hu
    obtain ⟨d, hd, he⟩ := Option.map_eq_some_iff.mp hu
    cases he
    have harrive : arrive sys timeout (d.user (sys.time (room L io).ledger.times))
        { room L io with ledger := (room L io).ledger.time sys } = (ret, room L' io₁) :=
      update_room hup
    unfold meet
    rw [hd]
    dsimp only
    rw [harrive]
    rfl
  cases h with
  | ignored hn =>
    unfold meet
    rw [peerOf_eq_none_iff.mp hn]
  | rejected u data _ io₁ hu hup => exact hmeet hu hup
  | accepted u data _ io₁ f hu hup =>
    rw [hmeet hu hup, if_pos rfl]
    simp [say, room, ledger, Io.record]

/-- The server's table stands for the members, its calls so far are those of the room. -/
def Hosts (timeout : ℤ) (s : Server) (r : Room) : Prop :=
  s.table.timeout = timeout ∧ ∃ L, Rep s L ∧ room L s.io = r

lemma handle_hosts (input : Input) {s : Server} {r : Room} (h : Hosts timeout s r) :
    ∃ s', handle sys input s = some s' ∧ Hosts timeout s' (meet sys timeout r input) := by
  obtain ⟨rfl, L, hrep, rfl⟩ := h
  obtain ⟨s', L', hs', hrep', htime, hh⟩ := handle_spec sys input hrep
  exact ⟨s', hs', htime, L', hrep', (handled_room hh).symm⟩

/-- **The server is a room**: a run of the server faults nowhere, and its users and its calls are
those that the room has after the same inputs. -/
theorem runs_hosts (sys : Sys) (timeout : ℤ) (inputs : List Input) :
    ∃ s, runs (handle sys) inputs (started timeout) = some s ∧
      Hosts timeout s (inputs.foldl (meet sys timeout) Room.empty) :=
  runs_foldl (fun input _ _ h => handle_hosts input h) inputs ⟨rfl, [], Holds.empty, rfl⟩

end Csockets.Rooms
