import Csockets.MasterThreads

/-!
What the chat server does under any schedule of its two threads: what it serves by, what it makes
of the messages, when it faults, that it stops, and what it leaves.
-/

namespace Csockets.MasterRuns

open Blocks Links Files Loops Threads Runs AddrModel MainModel MainSockets MasterModel
  MasterThreads
open Chain (hd Seg)
open PollModel (POLLIN)
open UsersModel (userTableFree)
open UsersRefine (Rep)
open ServerModel (Sys Server Send Event handle msgHandle started ACTUSER_TIMEOUT EINTR)
open ServerLog (accepted)
open ServerSockets (Served SendsOn runs_served)

variable {sys : Sys} {env : Env} {f : Table} {bound : BindState} {w w' : World}
  {l : List (ℕ × Addrinfo)} {e : Exit} {st st' : State} {as bs : List Action}

/-! ### Steps and schedules -/

lemma step_spec (hslots : Slots f bound) (hseg : Seg w.mem.cell l none)
    (h : Inv sys env bound (entry bound w l) st) (a : Action) :
    step sys env a st = .blocked ∨ (step sys env a st = .fault ∧ FreesEmpty a st) ∨
      ∃ st', step sys env a st = .next st' ∧ Inv sys env bound (entry bound w l) st' := by
  have hmaster : masterStep sys a st = .blocked ∨ (masterStep sys a st = .fault ∧ FreesEmpty a st) ∨
      ∃ st', masterStep sys a st = .next st' ∧ Inv sys env bound (entry bound w l) st' := by
    rcases masterStep_spec hslots h a with hblocked | hfault | ⟨st', hnext, hgoes⟩
    · exact Or.inl hblocked
    · exact Or.inr (Or.inl hfault)
    · exact Or.inr (Or.inr ⟨st', hnext, hgoes.inv⟩)
  cases a with
  | main =>
    rcases mainStep_spec hslots hseg h with ⟨-, hblocked⟩ | ⟨st', hnext, hinv, -⟩
    · exact Or.inl hblocked
    · exact Or.inr (Or.inr ⟨st', hnext, hinv⟩)
  | _ => exact hmaster

lemma step_keeps (hslots : Slots f bound) (hseg : Seg w.mem.cell l none) (a : Action)
    (st st' : State) (h : Inv sys env bound (entry bound w l) st)
    (hstep : step sys env a st = .next st') : Inv sys env bound (entry bound w l) st' := by
  rcases step_spec hslots hseg h a with hb | ⟨hf, -⟩ | ⟨st₁, hn, hinv⟩
  · cases hb.symm.trans hstep
  · cases hf.symm.trans hstep
  · cases hn.symm.trans hstep
    exact hinv

lemma step_fault_iff (hslots : Slots f bound) (hseg : Seg w.mem.cell l none)
    (h : Inv sys env bound (entry bound w l) st) (a : Action) :
    step sys env a st = .fault ↔ FreesEmpty a st := by
  constructor
  · intro hfault
    rcases step_spec hslots hseg h a with hb | ⟨-, hempty⟩ | ⟨st₁, hn, -⟩
    · cases hb.symm.trans hfault
    · exact hempty
    · cases hn.symm.trans hfault
  · rintro ⟨rfl, hpc, hnil⟩
    have hmaster := h.master
    rw [hpc] at hmaster
    rcases hmaster.freed with ⟨-, hfree⟩ | ⟨s', hne, -⟩
    · show masterStep sys .master st = .fault
      unfold masterStep
      rw [hpc]
      dsimp only
      rw [hfree]
    · exact absurd hnil hne

lemma main_eq (env : Env) (turns : ℕ) (f : Table) (w : World) :
    main env turns f w =
      match prepare env turns f w with
      | .again bound => .again bound
      | .leave (.inl e) => .leave e
      | .leave (.inr (bound, e)) => (serve env bound e).elim .fault .leave
      | .fault => .fault := by
  unfold main prepare
  dsimp only
  cases parseArgs env.argv with
  | none => rfl
  | some x =>
    obtain ⟨port, bindIps⟩ := x
    dsimp only
    split_ifs
    · rfl
    · rfl
    · rfl
    · cases createAddrinfo env.db port bindIps none w with
      | none => rfl
      | some r =>
        obtain ⟨ret, addr, w'⟩ := r
        dsimp only
        split_ifs
        · rfl
        · cases bindLoop env.linux w'.mem turns env.attempts addr f <;> rfl

lemma prepare_cases (env : Env) (turns : ℕ) (f : Table) (w : World) :
    (∃ e, prepare env turns f w = .leave (.inl e)) ∨
      (∃ bound, prepare env turns f w = .again bound) ∨
      ∃ bound w' l, Slots f bound ∧ Fresh w.mem w'.mem l ∧
        prepare env turns f w = .leave (.inr (bound, entry bound w' l)) := by
  unfold prepare
  dsimp only
  split
  · exact Or.inl ⟨_, rfl⟩
  · rename_i port bindIps _
    split
    · exact Or.inl ⟨_, rfl⟩
    · split
      · exact Or.inl ⟨_, rfl⟩
      · split
        · exact Or.inl ⟨_, rfl⟩
        · obtain ⟨status, out', w', calls, hrun, -, hcases⟩ :=
            AddrList.createAddrinfo_cases env.db port bindIps none w
          rw [hrun]
          dsimp only
          obtain ⟨hbuilt, rfl, rfl⟩ | ⟨hfailed, rfl⟩ := hcases
          · obtain ⟨bound, hbound, hslots⟩ | ⟨bound, hbound, hslots⟩ :=
              bindLoop_slots env.linux turns env.attempts f hbuilt.fresh.seg
            · rw [hbound]
              exact Or.inr (Or.inl ⟨bound, rfl⟩)
            · rw [hbound]
              exact Or.inr (Or.inr ⟨bound, w', _, hslots, hbuilt.fresh, rfl⟩)
          · obtain ⟨_, c, -, -, hne, hstatus⟩ := hfailed.first
            rw [← hstatus] at hne
            rw [if_pos hne]
            exact Or.inl ⟨_, rfl⟩

lemma chat_cases (sys : Sys) (env : Env) (turns : ℕ) (f : Table) (w : World) :
    (∀ as, chat sys env turns f w as = .blocked) ∨
      ∃ bound w' l, Slots f bound ∧ Fresh w.mem w'.mem l ∧
        main env turns f w = (serve env bound (entry bound w' l)).elim .fault .leave ∧
        ∀ as, chat sys env turns f w as =
          sched (step sys env) as (launch bound (entry bound w' l)) := by
  unfold chat
  rw [main_eq]
  obtain ⟨e, hinl⟩ | ⟨bound, hagain⟩ | ⟨bound, w', l, hslots, hfresh, hinr⟩ :=
    prepare_cases env turns f w
  · rw [hinl]
    exact Or.inl fun _ => rfl
  · rw [hagain]
    exact Or.inl fun _ => rfl
  · rw [hinr]
    exact Or.inr ⟨bound, w', l, hslots, hfresh, rfl, fun _ => rfl⟩

lemma chat_all {P : State → Prop} (sys : Sys) (env : Env) (turns : ℕ) (f : Table) (w : World)
    (as : List Action)
    (hP : ∀ bound w' l st, Slots f bound → Fresh w.mem w'.mem l →
      main env turns f w = (serve env bound (entry bound w' l)).elim .fault .leave →
      Inv sys env bound (entry bound w' l) st → P st) :
    (chat sys env turns f w as).All P := by
  obtain hblocked | ⟨bound, w', l, hslots, hfresh, hmain, hsched⟩ := chat_cases sys env turns f w
  · rw [hblocked]
    trivial
  · rw [hsched]
    refine sched_all (step_keeps hslots hfresh.seg) ?_ (inv_launch hslots w' l) as
    exact fun st hinv => hP bound w' l st hslots hfresh hmain hinv

/-! ### What it serves by -/

def Looping : MasterPc → Prop
  | .unborn => False
  | .start => False
  | .returned => False
  | _ => True

/-- One of the sockets that `main` has bound, and open. -/
def Own (f : Table) (st : State) (fd : ℤ) : Prop :=
  (∃ n < st.sfdArrLen, st.sfdArr[n]? = some fd) ∧ ∃ i, st.exit.files.file fd = some i ∧ f.next ≤ i

def sendOf : Event → Option Send
  | .notice send => some send
  | .chat send => some send
  | _ => none

/-- What is polled, what the table sends by and what has been sent by are sockets of the program. -/
structure Serves (f : Table) (st : State) : Prop where
  polled : ∀ n < st.pollArrLen, ∃ p, st.pollArr[n]? = some p ∧ Own f st p.fd
  stored : ∃ L, Rep st.activeUsers L ∧ ∀ e ∈ L, Own f st e.2.recvFd
  sent : ∀ e ∈ st.activeUsers.io.log, ∀ send, sendOf e = some send → Own f st send.fd

lemma Looping.alive {master : MasterPc} (h : Looping master) :
    master ≠ .unborn ∧ master ≠ .returned := by
  constructor <;> rintro rfl <;> exact h

lemma Looping.polling (h : Inv sys env bound e st) (hloop : Looping st.master) :
    Polling sys bound st.pollArr st.pollArrLen st.activeUsers st.handled := by
  have hmaster := h.master
  cases hpc : st.master with
  | unborn =>
    rw [hpc] at hloop
    exact hloop.elim
  | start =>
    rw [hpc] at hloop
    exact hloop.elim
  | returned =>
    rw [hpc] at hloop
    exact hloop.elim
  | _ =>
    rw [hpc] at hmaster
    exact hmaster

lemma Looping.files (h : Inv sys env bound (entry bound w l) st) (hloop : Looping st.master) :
    st.exit.files = bound.files := by
  obtain ⟨hne, hne'⟩ := hloop.alive
  have hmain := h.main
  have hphase := h.phase
  cases hpc : st.pc with
  | create =>
    rw [hpc] at hphase
    exact absurd hphase.2 hne
  | sigwait =>
    rw [hpc] at hmain
    rw [hmain.2]
    rfl
  | clear =>
    rw [hpc] at hmain
    rw [hmain.2]
    rfl
  | shutdown n =>
    rw [hpc] at hmain
    rw [hmain.2.2]
    rfl
  | join =>
    rw [hpc] at hmain
    rw [hmain.2]
    rfl
  | _ =>
    rw [hpc] at hphase
    rcases hphase with hphase | hphase
    · exact absurd hphase hne
    · exact absurd hphase hne'

lemma stored_of_mem (hslots : Slots f bound) (h : Inv sys env bound e st) {fd : ℤ}
    (hfd : fd ∈ sfds bound) : ∃ n < st.sfdArrLen, st.sfdArr[n]? = some fd := by
  obtain ⟨n, hn, rfl⟩ := List.getElem_of_mem hfd
  have hlt : n < bound.sfdArrLen := hslots.sfds_length ▸ hn
  obtain ⟨sfd, hsfd, hget⟩ := hslots.sfdArr_getElem? hlt
  rw [List.getElem?_eq_getElem hn] at hget
  exact ⟨n, h.len ▸ hlt, h.arr ▸ hsfd.trans hget.symm⟩

lemma own_of_mem (hslots : Slots f bound) (h : Inv sys env bound (entry bound w l) st)
    (hloop : Looping st.master) {fd : ℤ} (hfd : fd ∈ sfds bound) : Own f st fd := by
  refine ⟨stored_of_mem hslots h hfd, ?_⟩
  rw [hloop.files h]
  exact hslots.opened.new fd hfd

/-- **Nothing but its own sockets**: whichever order the threads take their steps in, as long as
the master thread is in its loop each descriptor it polls and each one it sends by, now or later,
is one that `main` bound and that is still open. -/
theorem chat_serves (sys : Sys) (env : Env) (turns : ℕ) (f : Table) (w : World)
    (as : List Action) :
    (chat sys env turns f w as).All fun st => Looping st.master → Serves f st := by
  refine chat_all sys env turns f w as fun bound w' l st hslots _ _ hinv hloop => ?_
  have hpolling := hloop.polling hinv
  obtain ⟨s, L, hs, hserved⟩ := runs_served sys hpolling.inputs
  obtain rfl := Option.some.inj (hs.symm.trans hpolling.users)
  refine ⟨fun n hn => ?_, ⟨L, hserved.rep, fun e he => ?_⟩, fun e he send hsend => ?_⟩
  · obtain ⟨p, hp, hfd⟩ := hpolling.slot hn
    exact ⟨p, hp, own_of_mem hslots hinv hloop hfd⟩
  · exact own_of_mem hslots hinv hloop (hserved.entries e he)
  · have hon := hserved.sends e he
    refine own_of_mem hslots hinv hloop ?_
    cases e with
    | notice s =>
      cases hsend
      exact hon
    | chat s =>
      cases hsend
      exact hon
    | _ => cases hsend

/-! ### What it makes of the messages -/

lemma userTableFree_io {s s' : Server} (h : userTableFree s = some s') : s'.io = s.io := by
  obtain ⟨heap, -, hs'⟩ := Option.bind_eq_some_iff.mp h
  cases hs'
  rfl

/-- The table and the log are those of one run over the messages handled so far. -/
lemma run_of_inv (hslots : Slots f bound) (h : Inv sys env bound e st) :
    (∀ input ∈ st.handled, ∃ n < st.sfdArrLen, st.sfdArr[n]? = some input.sfd) ∧
      ∃ s, runs (handle sys) st.handled (started ACTUSER_TIMEOUT) = some s ∧
        st.activeUsers.io = s.io ∧ (Looping st.master → st.activeUsers = s) ∧
        (st.master = .returned → userTableFree s = some st.activeUsers) := by
  have hmaster := h.master
  by_cases hloop : Looping st.master
  · have hpolling := hloop.polling h
    refine ⟨fun input hin => stored_of_mem hslots h (hpolling.inputs input hin),
      st.activeUsers, hpolling.users, rfl, fun _ => rfl, fun hback => ?_⟩
    exact absurd hback hloop.alive.2
  · cases hpc : st.master with
    | unborn =>
      rw [hpc] at hmaster
      obtain ⟨husers, hhandled⟩ := hmaster
      rw [hhandled, husers]
      exact ⟨by simp, started ACTUSER_TIMEOUT, rfl, rfl, False.elim, by simp⟩
    | start =>
      rw [hpc] at hmaster
      obtain ⟨husers, hhandled⟩ := hmaster
      rw [hhandled, husers]
      exact ⟨by simp, started ACTUSER_TIMEOUT, rfl, rfl, False.elim, by simp⟩
    | returned =>
      rw [hpc] at hmaster
      obtain ⟨hin, s, hs, hfree⟩ := hmaster
      exact ⟨fun input hi => stored_of_mem hslots h (hin input hi), s, hs,
        userTableFree_io hfree, False.elim, fun _ => hfree⟩
    | _ =>
      rw [hpc] at hloop
      exact absurd trivial hloop

/-- **The threads refine runs of `msg_handle`**: in whatever state the program gets to, its table
and its log are those of one run over the messages handled so far, all of which came in by its
sockets; when the thread is back, the table of that run has been freed. -/
theorem chat_runs (sys : Sys) (env : Env) (turns : ℕ) (f : Table) (w : World) (as : List Action) :
    (chat sys env turns f w as).All fun st =>
      (∀ input ∈ st.handled, ∃ n < st.sfdArrLen, st.sfdArr[n]? = some input.sfd) ∧
      ∃ s, runs (handle sys) st.handled (started ACTUSER_TIMEOUT) = some s ∧
        st.activeUsers.io = s.io ∧ (Looping st.master → st.activeUsers = s) ∧
        (st.master = .returned → userTableFree s = some st.activeUsers) :=
  chat_all sys env turns f w as fun _ _ _ _ hslots _ _ hinv => run_of_inv hslots hinv

/-! ### When it faults -/

/-- **The one fault**: a schedule of the program faults exactly when the master thread frees its
table in it before any message has been accepted. -/
theorem chat_fault_iff (sys : Sys) (env : Env) (turns : ℕ) (f : Table) (w : World)
    (as : List Action) :
    chat sys env turns f w as = .fault ↔ ∃ pre post st, as = pre ++ .master :: post ∧
      chat sys env turns f w pre = .next st ∧ st.master = .pollErr ∧
      accepted st.activeUsers.io.log = [] := by
  obtain hblocked | ⟨bound, w', l, hslots, hfresh, -, hsched⟩ := chat_cases sys env turns f w
  · simp only [hblocked]
    simp
  · simp only [hsched, sched_fault_iff]
    have hinv : ∀ {pre st}, sched (step sys env) pre (launch bound (entry bound w' l)) = .next st →
        MasterThreads.Inv sys env bound (entry bound w' l) st := fun hpre =>
      sched_keeps (step_keeps hslots hfresh.seg) (inv_launch hslots w' l) hpre
    constructor
    · rintro ⟨pre, a, post, st, rfl, hpre, hfault⟩
      obtain ⟨rfl, hpc, hnil⟩ := (step_fault_iff hslots hfresh.seg (hinv hpre) a).mp hfault
      exact ⟨pre, post, st, rfl, hpre, hpc, hnil⟩
    · rintro ⟨pre, post, st, rfl, hpre, hpc, hnil⟩
      exact ⟨pre, .master, post, st, rfl, hpre,
        (step_fault_iff hslots hfresh.seg (hinv hpre) _).mpr ⟨rfl, hpc, hnil⟩⟩

def single : Env :=
  ⟨["udpchat", "9000"], 0, (0, 0), 0,
    Netdb.scripted fun _ => .found [AddrList.inet [10, 0, 0, 1]] (List.cons_ne_nil _ _), true,
    Stream'.const ⟨3, 0, 0⟩, 0⟩

/-- A signal comes before the thread has got to its loop. -/
example :
    (match chat ⟨fun _ => 0, fun _ => true, fun _ => 1⟩ single 2 Table.empty ⟨Mem.empty, []⟩
        [.main, .main, .main, .master, .master, .master] with
      | .fault => true
      | _ => false) = true := by
  decide +kernel

/-! ### That it stops -/

def Stopping : Pc → Prop
  | .create => False
  | .sigwait => False
  | .clear => False
  | _ => True

/-- What is not put off for ever. `poll` comes back once a socket of its array is shut down, and
at `main`'s step in `sigwait` it is a signal that has to come. -/
def Due (a : Action) (st : State) : Prop :=
  match a with
  | .main => st.pc ≠ .sigwait
  | .polled _ => st.exit.shut ≠ []
  | _ => True

def mainLeft : Pc → ℕ
  | .shutdown n => 14 + (MAX_BIND_COUNT - n)
  | .join => 13
  | .close n => 2 + (MAX_BIND_COUNT - n)
  | .freeaddrinfo => 1
  | .returned => 0
  | _ => 25

def masterLeft : MasterPc → ℕ
  | .start => 15
  | .poll => 14
  | .slot n => 3 + (MAX_BIND_COUNT - n)
  | .head => 2
  | .pollErr => 1
  | _ => 0

def left (st : State) : ℕ := mainLeft st.pc + masterLeft st.master

lemma mainSucc_left_lt {pc pc' : Pc} (h : MainSucc pc pc') (hstop : Stopping pc) :
    Stopping pc' ∧ mainLeft pc' < mainLeft pc := by
  cases h with
  | failed => exact hstop.elim
  | created => exact hstop.elim
  | signal => exact hstop.elim
  | cleared => exact hstop.elim
  | shutdown n hn =>
    refine ⟨trivial, ?_⟩
    show 14 + (MAX_BIND_COUNT - (n + 1)) < 14 + (MAX_BIND_COUNT - n)
    omega
  | shut n =>
    refine ⟨trivial, ?_⟩
    show 13 < 14 + (MAX_BIND_COUNT - n)
    omega
  | joined => exact ⟨trivial, by decide⟩
  | close n hn =>
    refine ⟨trivial, ?_⟩
    show 2 + (MAX_BIND_COUNT - (n + 1)) < 2 + (MAX_BIND_COUNT - n)
    omega
  | closed n =>
    refine ⟨trivial, ?_⟩
    show 1 < 2 + (MAX_BIND_COUNT - n)
    omega
  | freed => exact ⟨trivial, by decide⟩

lemma masterSucc_left_lt {master master' : MasterPc} (h : MasterSucc false master master') :
    masterLeft master' < masterLeft master := by
  cases h with
  | go hrun => cases hrun
  | slot n hn =>
    show 3 + (MAX_BIND_COUNT - (n + 1)) < 3 + (MAX_BIND_COUNT - n)
    omega
  | leave n =>
    show 1 < 3 + (MAX_BIND_COUNT - n)
    omega
  | round n =>
    show 2 < 3 + (MAX_BIND_COUNT - n)
    omega
  | _ => decide

/-- Where `main` is behind the flag, the flag is down as long as the master thread can go on. -/
lemma phase_down {run : Bool} {master master' : MasterPc} {pc : Pc} (h : Phase run master pc)
    (hstop : Stopping pc) (hsucc : MasterSucc run master master') : run = false := by
  obtain ⟨hne, hne', -⟩ := hsucc.alive
  cases pc with
  | create => exact hstop.elim
  | sigwait => exact hstop.elim
  | clear => exact hstop.elim
  | shutdown n => exact h.1
  | join => exact h.1
  | _ =>
    rcases h with h | h
    · exact absurd h hne
    · exact absurd h hne'

lemma step_left (hslots : Slots f bound) (hseg : Seg w.mem.cell l none) (a : Action)
    (st st' : State) (h : Inv sys env bound (entry bound w l) st ∧ Stopping st.pc)
    (hstep : step sys env a st = .next st') :
    (Inv sys env bound (entry bound w l) st' ∧ Stopping st'.pc) ∧ left st' < left st := by
  obtain ⟨hinv, hstop⟩ := h
  have hmaster : masterStep sys a st = .next st' →
      (Inv sys env bound (entry bound w l) st' ∧ Stopping st'.pc) ∧ left st' < left st := by
    intro hnext
    rcases masterStep_spec hslots hinv a with hb | ⟨hf, -⟩ | ⟨st₁, hn, hgoes⟩
    · cases hb.symm.trans hnext
    · cases hf.symm.trans hnext
    · cases hn.symm.trans hnext
      have hsucc := hgoes.succ
      rw [phase_down hinv.phase hstop hsucc] at hsucc
      have hlt := masterSucc_left_lt hsucc
      refine ⟨⟨hgoes.inv, hgoes.pc ▸ hstop⟩, ?_⟩
      unfold left
      rw [hgoes.pc]
      omega
  cases a with
  | main =>
    rcases mainStep_spec hslots hseg hinv with ⟨-, hb⟩ | ⟨st₁, hn, hinv', hsucc, hkept⟩
    · cases hb.symm.trans hstep
    · cases hn.symm.trans hstep
      obtain ⟨hstop', hlt⟩ := mainSucc_left_lt hsucc hstop
      refine ⟨⟨hinv', hstop'⟩, ?_⟩
      unfold left
      rw [hkept fun hpc => by rw [hpc] at hstop; exact hstop]
      omega
  | _ => exact hmaster hstep

lemma slot_due {n : ℕ} (hpc : st.master = .slot n) :
    ∃ a, Due a st ∧ step sys env a st ≠ .blocked := by
  by_cases hn : n < st.pollArrLen
  · cases hp : st.pollArr[n]? with
    | none =>
      refine ⟨.master, trivial, ?_⟩
      simp [step, masterStep, hpc, hn, slotStep, hp]
    | some p =>
      by_cases hrev : p.revents = POLLIN ∨ p.revents = POLLPRI
      · -- whatever is received, it is handled
        refine ⟨.received (.fail EINTR), trivial, ?_⟩
        simp only [step, masterStep, hpc, if_pos hn, slotStep, hp, if_pos hrev]
        split
        · simp
        · split <;> simp
      · refine ⟨.master, trivial, ?_⟩
        simp only [step, masterStep, hpc, if_pos hn, slotStep, hp, if_neg hrev]
        split
        · simp
        · split <;> simp
  · refine ⟨.master, trivial, ?_⟩
    simp [step, masterStep, hpc, hn]

lemma master_due (hne : st.master ≠ .unborn) (hback : st.master ≠ .returned)
    (hshut : st.exit.shut ≠ []) : ∃ a, Due a st ∧ step sys env a st ≠ .blocked := by
  cases hpc : st.master with
  | unborn => exact absurd hpc hne
  | returned => exact absurd hpc hback
  | start =>
    refine ⟨.master, trivial, ?_⟩
    simp only [step, masterStep, hpc]
    split <;> simp
  | head =>
    refine ⟨.master, trivial, ?_⟩
    simp only [step, masterStep, hpc]
    split <;> simp
  | poll => exact ⟨.polled (.fail EINTR), hshut, by simp [step, masterStep, hpc]⟩
  | slot n => exact slot_due hpc
  | pollErr =>
    refine ⟨.master, trivial, ?_⟩
    simp only [step, masterStep, hpc]
    split <;> simp

/-- Unless `main` waits for a signal or is back, some step is not put off and can be taken. -/
lemma due_of_inv (hslots : Slots f bound) (hseg : Seg w.mem.cell l none)
    (h : Inv sys env bound (entry bound w l) st) (hsig : st.pc ≠ .sigwait)
    (hback : st.pc ≠ .returned) : ∃ a, Due a st ∧ step sys env a st ≠ .blocked := by
  rcases mainStep_spec hslots hseg h with ⟨hwait | hpc, -⟩ | ⟨st', hnext, -⟩
  · obtain ⟨hjoin, hmaster⟩ := hwait
    have hmain := h.main
    have hphase := h.phase
    rw [hjoin] at hmain hphase
    refine master_due hphase.2 hmaster ?_
    rw [hmain.2]
    intro hnil
    have hlen := hslots.sfds_length
    rw [show sfds bound = [] from hnil] at hlen
    exact hmain.1.1 hlen.symm
  · exact absurd hpc hback
  · refine ⟨.main, hsig, ?_⟩
    show mainStep env st ≠ .blocked
    rw [hnext]
    simp

/-- **The program stops**: it never waits for anything but a signal, that a socket it has shut down
wakes up `poll` being granted; and once `main` is behind the flag, whatever the schedule, both
threads together take no more than forty steps. -/
theorem chat_stops (sys : Sys) (env : Env) (turns : ℕ) (f : Table) (w : World) (as : List Action) :
    (chat sys env turns f w as).All fun st =>
      (st.pc ≠ .sigwait → st.pc ≠ .returned → ∃ a, Due a st ∧ step sys env a st ≠ .blocked) ∧
      (Stopping st.pc → ∀ bs st', sched (step sys env) bs st = .next st' → bs.length ≤ 40) := by
  refine chat_all sys env turns f w as fun bound w' l st hslots hfresh _ hinv =>
    ⟨due_of_inv hslots hfresh.seg hinv, fun hstop bs st' hrun => ?_⟩
  have hbound := sched_bounded left (step_left hslots hfresh.seg) ⟨hinv, hstop⟩ hrun
  have hmain : mainLeft st.pc ≤ 24 := by
    have hmax : MAX_BIND_COUNT = 10 := rfl
    cases hpc : st.pc with
    | create =>
      rw [hpc] at hstop
      exact hstop.elim
    | sigwait =>
      rw [hpc] at hstop
      exact hstop.elim
    | clear =>
      rw [hpc] at hstop
      exact hstop.elim
    | _ =>
      unfold mainLeft
      dsimp only
      omega
  have hmaster : masterLeft st.master ≤ 15 := by
    have hmax : MAX_BIND_COUNT = 10 := rfl
    unfold masterLeft
    split <;> omega
  unfold left at hbound
  omega

/-! ### What it leaves -/

/-- **What any schedule leaves**: when `main` is back, it has come to what the sequential `main`
comes to, with every socket closed once and the addresses freed; and the thread, if there was one,
is back, with every node it ever allocated freed once. -/
theorem chat_leaves (sys : Sys) (env : Env) (turns : ℕ) (f : Table) (w : World)
    (as : List Action) :
    (chat sys env turns f w as).All fun st => st.pc = .returned →
      main env turns f w = .leave st.exit ∧ Settled f w st.exit ∧
      (st.master = .unborn ∨ st.master = .returned) ∧
      ∀ a < st.activeUsers.heap.next, st.activeUsers.heap.freed.count a = 1 := by
  refine chat_all sys env turns f w as fun bound w' l st hslots hfresh hmain hinv hback => ?_
  have hat := hinv.main
  have hphase := hinv.phase
  have hmaster := hinv.master
  rw [hback] at hat hphase
  obtain ⟨e, hserve, hsettled⟩ := settled_served env hslots hfresh
  obtain rfl : e = st.exit := Option.some.inj (hserve.symm.trans hat)
  refine ⟨by rw [hmain, hat]; rfl, hsettled, hphase, ?_⟩
  rcases hphase with hpc | hpc
  · rw [hpc] at hmaster
    rw [hmaster.1]
    intro a ha
    exact absurd ha (Nat.not_lt_zero a)
  · rw [hpc] at hmaster
    obtain ⟨hin, s, hs, hfree⟩ := hmaster
    obtain ⟨s₁, L, hs₁, hserved⟩ := runs_served sys hin
    obtain rfl := Option.some.inj (hs₁.symm.trans hs)
    have hL : L ≠ [] := by
      rintro rfl
      rw [UsersRefine.userTableFree_empty hserved.rep] at hfree
      cases hfree
    obtain ⟨s', hfree', -, hcells, -⟩ := UsersRefine.userTableFree_spec hserved.rep hL
    obtain rfl := Option.some.inj (hfree'.symm.trans hfree)
    intro a ha
    rw [Mem.count_freed _ ha, hcells]
    rfl

/-- One message comes in before the signal. -/
example :
    (match chat ⟨fun _ => 0, fun _ => true, fun _ => 1⟩ single 2 Table.empty ⟨Mem.empty, []⟩
        [.main, .master, .master, .polled (.ready fun _ => 1),
          .received (.datagram ⟨[2, 0, 31, 144, 10, 0, 0, 9] ++ List.replicate 8 0,
            fun _ => by decide, by decide⟩ [104, 105, 10]),
          .main, .main, .main, .main, .master, .master, .master, .main, .main, .main, .main] with
      | .next st => some (st.pc, st.master, st.exit.files.closed, st.activeUsers.heap.freed)
      | _ => none) = some (.returned, .returned, [0], [0]) := by
  decide +kernel

end Csockets.MasterRuns
