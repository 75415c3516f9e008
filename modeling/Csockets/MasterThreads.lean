import Csockets.MainSockets
import Csockets.MasterModel
import Csockets.ServerSockets

/-!
What holds between the two threads of the chat server, whichever order they run in.
-/

namespace Csockets.MasterThreads

open Blocks Links Files Loops Threads Runs AddrModel MainModel MainSockets MasterModel
open Chain (hd Seg)
open PollModel (Pollfd)
open UsersModel (boot userTableInit userTableFree)
open ServerModel (Sys Server Input handle started msgHandle ACTUSER_TIMEOUT)
open ServerSockets (Served runs_served)

def entry (bound : BindState) (w : World) (l : List (ℕ × Addrinfo)) : Exit :=
  ⟨0, bound.files, w, hd none l, true, bound, [], []⟩

/-- The sockets that `main` shuts down: those there are, if there is a thread. -/
def shutting (env : Env) (bound : BindState) : List ℤ :=
  if env.pthreadCreate = 0 then sfds bound else []

/-- What `main` has done by the time it is at a place. -/
def MainAt (env : Env) (bound : BindState) (e : Exit) (exit : Exit) : Pc → Prop
  | .create => bound.sfdArrLen ≠ 0 ∧ exit = e
  | .sigwait => (bound.sfdArrLen ≠ 0 ∧ env.pthreadCreate = 0) ∧ exit = e
  | .clear => (bound.sfdArrLen ≠ 0 ∧ env.pthreadCreate = 0) ∧ exit = e
  | .shutdown n => (bound.sfdArrLen ≠ 0 ∧ env.pthreadCreate = 0) ∧ n ≤ bound.sfdArrLen ∧
      exit = { e with shut := (sfds bound).take n }
  | .join => (bound.sfdArrLen ≠ 0 ∧ env.pthreadCreate = 0) ∧ exit = { e with shut := sfds bound }
  | .close n => n ≤ bound.sfdArrLen ∧ ∃ files,
      Table.closeEach ((sfds bound).take n) bound.files = some files ∧
        exit = { e with shut := shutting env bound, files := files }
  | .freeaddrinfo => ∃ files, Table.closeEach (sfds bound) bound.files = some files ∧
      exit = { e with shut := shutting env bound, files := files }
  | .returned => serve env bound e = some exit

/-- How the threads stand to each other: the flag is up until a signal has come, and the sockets
are closed when the thread is back, if there was one. -/
def Phase (run : Bool) (master : MasterPc) : Pc → Prop
  | .create => run = true ∧ master = .unborn
  | .sigwait => run = true ∧ master ≠ .unborn
  | .clear => run = true ∧ master ≠ .unborn
  | .shutdown _ => run = false ∧ master ≠ .unborn
  | .join => run = false ∧ master ≠ .unborn
  | _ => master = .unborn ∨ master = .returned

inductive MainSucc : Pc → Pc → Prop
  | failed : MainSucc .create (.close 0)
  | created : MainSucc .create .sigwait
  | signal : MainSucc .sigwait .clear
  | cleared : MainSucc .clear (.shutdown 0)
  | shutdown (n : ℕ) (hn : n < MAX_BIND_COUNT) : MainSucc (.shutdown n) (.shutdown (n + 1))
  | shut (n : ℕ) : MainSucc (.shutdown n) .join
  | joined : MainSucc .join (.close 0)
  | close (n : ℕ) (hn : n < MAX_BIND_COUNT) : MainSucc (.close n) (.close (n + 1))
  | closed (n : ℕ) : MainSucc (.close n) .freeaddrinfo
  | freed : MainSucc .freeaddrinfo .returned

inductive MasterSucc (run : Bool) : MasterPc → MasterPc → Prop
  | begin : MasterSucc run .start .head
  | go (hrun : run = true) : MasterSucc run .head .poll
  | stop (hrun : run = false) : MasterSucc run .head .pollErr
  | again : MasterSucc run .poll .head
  | failed : MasterSucc run .poll .pollErr
  | ready : MasterSucc run .poll (.slot 0)
  | slot (n : ℕ) (hn : n < MAX_BIND_COUNT) : MasterSucc run (.slot n) (.slot (n + 1))
  | leave (n : ℕ) : MasterSucc run (.slot n) .pollErr
  | round (n : ℕ) : MasterSucc run (.slot n) .head
  | freed : MasterSucc run .pollErr .returned

/-- The poll array is that of the sockets, and the table what the messages have made of it. -/
structure Polling (sys : Sys) (bound : BindState) (pollArr : Vector Pollfd MAX_BIND_COUNT)
    (pollArrLen : ℕ) (activeUsers : Server) (handled : List Input) : Prop where
  len : pollArrLen = bound.sfdArrLen
  arr : ∀ n < bound.sfdArrLen, ∃ p, pollArr[n]? = some p ∧ (sfds bound)[n]? = some p.fd
  inputs : ∀ input ∈ handled, input.sfd ∈ sfds bound
  users : runs (handle sys) handled (started ACTUSER_TIMEOUT) = some activeUsers

def MasterAt (sys : Sys) (bound : BindState) (pollArr : Vector Pollfd MAX_BIND_COUNT)
    (pollArrLen : ℕ) (activeUsers : Server) (handled : List Input) : MasterPc → Prop
  | .unborn => activeUsers = boot ⟨0, 0, 0, default, []⟩ ∧ handled = []
  | .start => activeUsers = boot ⟨0, 0, 0, default, []⟩ ∧ handled = []
  | .returned => (∀ input ∈ handled, input.sfd ∈ sfds bound) ∧
      ∃ s, runs (handle sys) handled (started ACTUSER_TIMEOUT) = some s ∧
        userTableFree s = some activeUsers
  | _ => Polling sys bound pollArr pollArrLen activeUsers handled

structure Inv (sys : Sys) (env : Env) (bound : BindState) (e : Exit) (st : State) : Prop where
  arr : st.sfdArr = bound.sfdArr
  len : st.sfdArrLen = bound.sfdArrLen
  main : MainAt env bound e st.exit st.pc
  phase : Phase st.run st.master st.pc
  master : MasterAt sys bound st.pollArr st.pollArrLen st.activeUsers st.handled st.master

variable {sys : Sys} {env : Env} {f : Table} {bound : BindState} {w : World}
  {l : List (ℕ × Addrinfo)} {e : Exit} {st st' : State}

lemma inv_launch (h : Slots f bound) (w : World) (l : List (ℕ × Addrinfo)) :
    Inv sys env bound (entry bound w l) (launch bound (entry bound w l)) := by
  unfold launch
  refine ⟨rfl, rfl, ?_, ?_, rfl, rfl⟩
  · dsimp only
    split
    · rename_i hlen
      have hnil : sfds bound = [] := h.sfds_nil hlen
      refine ⟨bound.files, by rw [hnil]; rfl, ?_⟩
      simp [shutting, hnil, entry]
    · rename_i hlen
      exact ⟨hlen, rfl⟩
  · dsimp only
    split
    · exact Or.inl rfl
    · exact ⟨rfl, rfl⟩

/-! ### Steps of `main` -/

lemma serve_eq {files : Table} (h : Slots f bound) (env : Env) (w : World)
    (l : List (ℕ × Addrinfo)) (hclosed : Table.closeEach (sfds bound) bound.files = some files) :
    serve env bound (entry bound w l) =
      socketErr env.db
        { entry bound w l with shut := shutting env bound, files := files } := by
  have hclose : closeSfds bound.sfdArr bound.sfdArrLen bound.files = some files := by
    rw [closeSfds_eq _ h.room]
    exact hclosed
  unfold serve
  split
  · rename_i hlen
    have hnil : sfds bound = [] := h.sfds_nil hlen
    rw [hnil] at hclosed
    obtain rfl := Option.some.inj hclosed
    rw [shutting, hnil, ite_self]
    rfl
  · split
    · rename_i hne
      rw [shutting, if_neg hne]
      show (closeSfds _ _ bound.files).bind _ = _
      rw [hclose, Option.bind_some]
      rfl
    · rename_i heq
      rw [not_not] at heq
      rw [shutting, if_pos heq, shutdownSfds_eq _ h.room, Option.bind_eq_bind, Option.bind_some]
      show (closeSfds _ _ bound.files).bind _ = _
      rw [hclose, Option.bind_some]
      rfl

/-- No step of `main` faults, and each does what is said of the place it leads to. -/
lemma mainStep_spec (hslots : Slots f bound) (hseg : Seg w.mem.cell l none)
    (h : Inv sys env bound (entry bound w l) st) :
    (st.pc = .join ∧ st.master ≠ .returned ∨ st.pc = .returned) ∧ mainStep env st = .blocked ∨
      ∃ st', mainStep env st = .next st' ∧ Inv sys env bound (entry bound w l) st' ∧
        MainSucc st.pc st'.pc ∧ (st.pc ≠ .create → st'.master = st.master) := by
  have hroom := hslots.room
  obtain ⟨harr, hlen, hmain, hphase, hmaster⟩ := h
  obtain ⟨files, hall, -⟩ := hslots.opened.closeEach
  have hfull : (sfds bound).take bound.sfdArrLen = sfds bound := by
    rw [← hslots.sfds_length, List.take_length]
  unfold mainStep
  cases hpc : st.pc with
  | create =>
    rw [hpc] at hmain hphase
    dsimp only
    right
    split
    · rename_i hne
      refine ⟨_, rfl, ⟨harr, hlen, ⟨Nat.zero_le _, bound.files, rfl, ?_⟩, Or.inl hphase.2,
        hmaster⟩, .failed, fun _ => rfl⟩
      rw [hmain.2, shutting, if_neg hne]
      rfl
    · rename_i heq
      rw [not_not] at heq
      refine ⟨_, rfl, ⟨harr, hlen, ⟨⟨hmain.1, heq⟩, hmain.2⟩, ⟨hphase.1, by simp⟩, ?_⟩, .created,
        fun hne => absurd rfl hne⟩
      rw [hphase.2] at hmaster
      exact hmaster
  | sigwait =>
    rw [hpc] at hmain hphase
    exact Or.inr ⟨_, rfl, ⟨harr, hlen, hmain, hphase, hmaster⟩, .signal, fun _ => rfl⟩
  | clear =>
    rw [hpc] at hmain hphase
    refine Or.inr ⟨_, rfl, ⟨harr, hlen, ⟨hmain.1, Nat.zero_le _, ?_⟩, ⟨rfl, hphase.2⟩, hmaster⟩,
      .cleared, fun _ => rfl⟩
    rw [hmain.2, List.take_zero]
    rfl
  | shutdown n =>
    rw [hpc] at hmain hphase
    obtain ⟨hcreated, hn, hexit⟩ := hmain
    dsimp only
    rw [harr, hlen]
    right
    split
    · rename_i hlt
      obtain ⟨sfd, hsfd, hget⟩ := hslots.sfdArr_getElem? hlt
      rw [hsfd]
      refine ⟨_, rfl, ⟨rfl, rfl, ⟨hcreated, hlt, ?_⟩, hphase, hmaster⟩,
        .shutdown n (hlt.trans_le hroom), fun _ => rfl⟩
      obtain ⟨hm, hval⟩ := List.getElem?_eq_some_iff.mp hget
      dsimp only
      rw [hexit, List.take_succ_eq_append_getElem hm, hval]
    · rename_i hge
      obtain rfl : n = bound.sfdArrLen := by omega
      rw [hfull] at hexit
      exact ⟨_, rfl, ⟨rfl, rfl, ⟨hcreated, hexit⟩, hphase, hmaster⟩, .shut _, fun _ => rfl⟩
  | join =>
    rw [hpc] at hmain hphase
    dsimp only
    split
    · rename_i hback
      refine Or.inr ⟨_, rfl, ⟨harr, hlen, ⟨Nat.zero_le _, bound.files, rfl, ?_⟩, Or.inr hback,
        hmaster⟩, .joined, fun _ => rfl⟩
      rw [hmain.2, shutting, if_pos hmain.1.2]
      rfl
    · rename_i hback
      exact Or.inl ⟨Or.inl ⟨rfl, hback⟩, rfl⟩
  | close n =>
    rw [hpc] at hmain hphase
    obtain ⟨hn, files₁, hclosed, hexit⟩ := hmain
    dsimp only
    rw [harr, hlen]
    right
    split
    · rename_i hlt
      obtain ⟨sfd, hsfd, hget⟩ := hslots.sfdArr_getElem? hlt
      obtain ⟨files₂, hclose, htake⟩ := Table.closeEach_take_succ hall hget hclosed
      rw [hsfd, hexit, Option.bind_some, hclose]
      exact ⟨_, rfl, ⟨rfl, rfl, ⟨hlt, files₂, htake, rfl⟩, hphase, hmaster⟩,
        .close n (hlt.trans_le hroom), fun _ => rfl⟩
    · rename_i hge
      obtain rfl : n = bound.sfdArrLen := by omega
      rw [hfull] at hclosed
      exact ⟨_, rfl, ⟨rfl, rfl, ⟨files₁, hclosed, hexit⟩, hphase, hmaster⟩, .closed _, fun _ => rfl⟩
  | freeaddrinfo =>
    rw [hpc] at hmain hphase
    obtain ⟨files₁, hclosed, hexit⟩ := hmain
    obtain ⟨m', hm', -⟩ := env.db.freed w.mem l hseg
    have hserve := serve_eq hslots env w l hclosed
    dsimp only
    rw [hexit]
    cases herr : socketErr env.db
        { entry bound w l with shut := shutting env bound, files := files₁ } with
    | none =>
      rw [socketErr_eq (m := m') (by exact hm')] at herr
      cases herr
    | some exit =>
      rw [herr] at hserve
      exact Or.inr ⟨_, rfl, ⟨harr, hlen, hserve, hphase, hmaster⟩, .freed, fun _ => rfl⟩
  | returned => exact Or.inl ⟨Or.inr rfl, rfl⟩

/-! ### Steps of `master_func` -/

lemma fill_spec (h : Slots f bound) :
    (fill bound.sfdArr bound.sfdArrLen).2 = bound.sfdArrLen ∧
      ∀ n < bound.sfdArrLen, ∃ p, (fill bound.sfdArr bound.sfdArrLen).1[n]? = some p ∧
        (sfds bound)[n]? = some p.fd := by
  refine ⟨min_eq_left h.room, fun n hn => ?_⟩
  have hmax : n < MAX_BIND_COUNT := hn.trans_le h.room
  obtain ⟨sfd, hsfd, hget⟩ := h.sfdArr_getElem? hn
  obtain ⟨hm, hval⟩ := Vector.getElem?_eq_some_iff.mp hsfd
  refine ⟨_, Vector.getElem?_eq_getElem hmax, ?_⟩
  rw [hget]
  simp [fill, hn, hval]

lemma polled_getElem? (files : Table) {pollArr : Vector Pollfd MAX_BIND_COUNT} {len n : ℕ}
    (revents : ℕ → ℕ) {p : Pollfd} (h : pollArr[n]? = some p) :
    ∃ p', (polled files pollArr len revents)[n]? = some p' ∧ p'.fd = p.fd := by
  obtain ⟨hn, rfl⟩ := Vector.getElem?_eq_some_iff.mp h
  refine ⟨_, Vector.getElem?_eq_getElem hn, ?_⟩
  simp only [polled, Vector.getElem_mapIdx]
  split <;> rfl

lemma Polling.slot {pollArr : Vector Pollfd MAX_BIND_COUNT} {len : ℕ} {s : Server}
    {handled : List Input} (h : Polling sys bound pollArr len s handled) {n : ℕ} (hn : n < len) :
    ∃ p, pollArr[n]? = some p ∧ p.fd ∈ sfds bound := by
  obtain ⟨p, hp, hfd⟩ := h.arr n (h.len ▸ hn)
  exact ⟨p, hp, List.mem_of_getElem? hfd⟩

lemma Polling.handle {pollArr : Vector Pollfd MAX_BIND_COUNT} {len : ℕ} {s : Server}
    {handled : List Input} (h : Polling sys bound pollArr len s handled) (input : Input)
    (hin : input.sfd ∈ sfds bound) :
    ∃ ret s', msgHandle sys input s = some (ret, s') ∧
      Polling sys bound pollArr len s' (handled ++ [input]) := by
  obtain ⟨s₁, L, hs₁, hserved⟩ := runs_served sys h.inputs
  obtain rfl := Option.some.inj (hs₁.symm.trans h.users)
  obtain ⟨s', L', hs', -⟩ := ServerList.msgHandle_spec sys input hserved.rep
  refine ⟨_, s', hs', h.len, h.arr, fun i hi => ?_, ?_⟩
  · rcases List.mem_append.mp hi with hi | hi
    · exact h.inputs i hi
    · rw [List.mem_singleton.mp hi]
      exact hin
  · rw [runs_append, h.users, Option.bind_some, runs, ServerModel.handle, hs']
    rfl

lemma Polling.polled {pollArr : Vector Pollfd MAX_BIND_COUNT} {len : ℕ} {s : Server}
    {handled : List Input} (h : Polling sys bound pollArr len s handled) (files : Table)
    (revents : ℕ → ℕ) :
    Polling sys bound (MasterModel.polled files pollArr len revents) len s handled := by
  refine ⟨h.len, fun n hn => ?_, h.inputs, h.users⟩
  obtain ⟨p, hp, hfd⟩ := h.arr n hn
  obtain ⟨p', hp', hfd'⟩ := polled_getElem? files revents hp
  exact ⟨p', hp', hfd'.symm ▸ hfd⟩

/-- The table can be freed exactly when a message has been accepted. -/
lemma Polling.freed {pollArr : Vector Pollfd MAX_BIND_COUNT} {len : ℕ} {s : Server}
    {handled : List Input} (h : Polling sys bound pollArr len s handled) :
    (ServerLog.accepted s.io.log = [] ∧ userTableFree s = none) ∨
      ∃ s', ServerLog.accepted s.io.log ≠ [] ∧ userTableFree s = some s' := by
  obtain ⟨s₁, L, hs₁, hserved⟩ := runs_served sys h.inputs
  obtain rfl := Option.some.inj (hs₁.symm.trans h.users)
  by_cases hL : L = []
  · left
    refine ⟨hserved.nil_iff.mp hL, ?_⟩
    have hrep := hserved.rep
    rw [hL] at hrep
    exact UsersRefine.userTableFree_empty hrep
  · right
    obtain ⟨s', hs', -⟩ := UsersRefine.userTableFree_spec hserved.rep hL
    exact ⟨s', mt hserved.nil_iff.mpr hL, hs'⟩

/-- The step that a schedule may fault in: the table is freed and has no entry, which is when no
message has been accepted. -/
def FreesEmpty (a : Action) (st : State) : Prop :=
  a = .master ∧ st.master = .pollErr ∧ ServerLog.accepted st.activeUsers.io.log = []

lemma started_eq :
    userTableInit ACTUSER_TIMEOUT (boot ⟨0, 0, 0, default, []⟩) = (0, started ACTUSER_TIMEOUT) :=
  rfl

lemma slotStep_spec (h : Polling sys bound st.pollArr st.pollArrLen st.activeUsers st.handled)
    {n : ℕ} (hn : n < st.pollArrLen) (a : Action) :
    slotStep sys n a st = .blocked ∨ ∃ s' handled' pc',
      slotStep sys n a st =
        .next { st with activeUsers := s', handled := handled', master := pc' } ∧
      Polling sys bound st.pollArr st.pollArrLen s' handled' ∧
      (pc' = .pollErr ∨ pc' = .slot (n + 1)) := by
  obtain ⟨p, hp, hfd⟩ := h.slot hn
  unfold slotStep
  rw [hp]
  dsimp only
  split
  · cases a with
    | received recv =>
      obtain ⟨ret, s', hs', h'⟩ := h.handle ⟨p.fd, answered st.exit.files p.fd recv⟩ hfd
      dsimp only
      rw [hs']
      dsimp only
      split
      · exact Or.inr ⟨s', _, _, rfl, h', Or.inl rfl⟩
      · exact Or.inr ⟨s', _, _, rfl, h', Or.inr rfl⟩
    | _ => exact Or.inl rfl
  · cases a with
    | master =>
      dsimp only
      right
      split
      · exact ⟨_, _, _, rfl, h, Or.inl rfl⟩
      · split
        · exact ⟨_, _, _, rfl, h, Or.inl rfl⟩
        · exact ⟨_, _, _, rfl, h, Or.inr rfl⟩
    | _ => exact Or.inl rfl

lemma MasterSucc.alive {run : Bool} {master master' : MasterPc}
    (h : MasterSucc run master master') :
    master ≠ .unborn ∧ master ≠ .returned ∧ master' ≠ .unborn := by
  cases h <;> simp

lemma Phase.goes {run : Bool} {master master' : MasterPc} {pc : Pc} (h : Phase run master pc)
    (hsucc : MasterSucc run master master') : Phase run master' pc := by
  obtain ⟨hne, hne', hm⟩ := hsucc.alive
  cases pc with
  | create => exact absurd h.2 hne
  | sigwait => exact ⟨h.1, hm⟩
  | clear => exact ⟨h.1, hm⟩
  | shutdown n => exact ⟨h.1, hm⟩
  | join => exact ⟨h.1, hm⟩
  | _ =>
    rcases h with h | h
    · exact absurd h hne
    · exact absurd h hne'

/-- A step of the master thread: it goes one of its ways, and `main` stays where it is. -/
structure Goes (sys : Sys) (env : Env) (bound : BindState) (e : Exit) (st st' : State) : Prop where
  inv : Inv sys env bound e st'
  pc : st'.pc = st.pc
  succ : MasterSucc st.run st.master st'.master

lemma Inv.goes (h : Inv sys env bound e st) {pollArr : Vector Pollfd MAX_BIND_COUNT}
    {pollArrLen : ℕ} {activeUsers : Server} {handled : List Input} {master master' : MasterPc}
    (hpc : st.master = master) (hsucc : MasterSucc st.run master master')
    (hmaster : MasterAt sys bound pollArr pollArrLen activeUsers handled master') :
    Goes sys env bound e st
      { st with
        pollArr := pollArr, pollArrLen := pollArrLen, activeUsers := activeUsers,
        handled := handled, master := master' } := by
  subst hpc
  exact ⟨⟨h.arr, h.len, h.main, h.phase.goes hsucc, hmaster⟩, rfl, hsucc⟩

lemma masterStep_spec (hslots : Slots f bound) (h : Inv sys env bound e st) (a : Action) :
    masterStep sys a st = .blocked ∨ (masterStep sys a st = .fault ∧ FreesEmpty a st) ∨
      ∃ st', masterStep sys a st = .next st' ∧ Goes sys env bound e st st' := by
  have hmaster := h.master
  unfold masterStep
  cases hpc : st.master with
  | unborn => cases a <;> exact Or.inl rfl
  | start =>
    rw [hpc] at hmaster
    cases a with
    | master =>
      obtain ⟨hfill, hfds⟩ := fill_spec hslots
      dsimp only
      rw [hmaster.1, started_eq, h.arr, h.len]
      refine Or.inr (Or.inr ⟨_, rfl, ?_⟩)
      have hpolling : Polling sys bound (fill bound.sfdArr bound.sfdArrLen).1
          (fill bound.sfdArr bound.sfdArrLen).2 (started ACTUSER_TIMEOUT) st.handled := by
        rw [hmaster.2]
        exact ⟨hfill, hfds, by simp, rfl⟩
      have hgoes := h.goes hpc .begin hpolling
      rw [h.arr, h.len] at hgoes
      exact hgoes
    | _ => exact Or.inl rfl
  | head =>
    rw [hpc] at hmaster
    cases a with
    | master =>
      dsimp only
      right
      right
      split
      · rename_i hrun
        exact ⟨_, rfl, h.goes hpc (.go hrun) hmaster⟩
      · rename_i hrun
        exact ⟨_, rfl, h.goes hpc (.stop (Bool.eq_false_iff.mpr hrun)) hmaster⟩
    | _ => exact Or.inl rfl
  | poll =>
    rw [hpc] at hmaster
    cases a with
    | polled result =>
      right
      right
      cases result with
      | fail errno =>
        dsimp only
        split
        · exact ⟨_, rfl, h.goes hpc .again hmaster⟩
        · exact ⟨_, rfl, h.goes hpc .failed hmaster⟩
      | ready revents =>
        have hpolled := hmaster.polled st.exit.files revents
        dsimp only
        split
        · exact ⟨_, rfl, h.goes hpc .again hpolled⟩
        · exact ⟨_, rfl, h.goes hpc .ready hpolled⟩
    | _ => exact Or.inl rfl
  | slot n =>
    rw [hpc] at hmaster
    dsimp only
    split
    · rename_i hlt
      have hmax : n < MAX_BIND_COUNT := hlt.trans_le (hmaster.len ▸ hslots.room)
      rcases slotStep_spec hmaster hlt a with hblocked | ⟨s', handled', pc', hnext, hpolling, hpc'⟩
      · exact Or.inl hblocked
      · rcases hpc' with rfl | rfl
        · exact Or.inr (Or.inr ⟨_, hnext, h.goes hpc (.leave n) hpolling⟩)
        · exact Or.inr (Or.inr ⟨_, hnext, h.goes hpc (.slot n hmax) hpolling⟩)
    · cases a with
      | master => exact Or.inr (Or.inr ⟨_, rfl, h.goes hpc (.round n) hmaster⟩)
      | _ => exact Or.inl rfl
  | pollErr =>
    rw [hpc] at hmaster
    cases a with
    | master =>
      right
      rcases hmaster.freed with ⟨hnil, hfree⟩ | ⟨s', -, hfree⟩
      · left
        dsimp only
        rw [hfree]
        exact ⟨rfl, rfl, hpc, hnil⟩
      · right
        dsimp only
        rw [hfree]
        exact ⟨_, rfl, h.goes hpc .freed ⟨hmaster.inputs, st.activeUsers, hmaster.users, hfree⟩⟩
    | _ => exact Or.inl rfl
  | returned => cases a <;> exact Or.inl rfl

end Csockets.MasterThreads
