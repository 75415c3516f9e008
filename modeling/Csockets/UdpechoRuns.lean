import Csockets.UdpechoThreads

/-!
What the datagram echo server does under any schedule of its threads: what it gets to them with,
what it echoes, that it does not fault, that it stops, and what it leaves.
-/

namespace Csockets.UdpechoRuns

open Blocks Links Files Loops Threads AddrModel UdpechoThreads
open UdpechoModel hiding createAddrinfo
open MainModel (MAX_BIND_COUNT BindState parseArgs)
open MainSockets (sfds Slots freed_once)
open Chain (hd Seg)

variable {env : Env} {db : Netdb} {f : Table} {bound : BindState} {w w' : World}
  {l : List (ℕ × Addrinfo)} {e : Exit} {st st' : State} {as bs : List Action}

/-! ### Up to the threads -/

/-- `main` has returned without a socket. It leaves the mutex alone where the arguments are
wrong. -/
structure Aborted (env : Env) (f : Table) (w : World) (e : Exit) : Prop where
  status : e.status = 1
  files : e.files = f
  cells : e.world.mem.cell = w.mem.cell
  nodes : ∀ a, w.mem.next ≤ a → a < e.world.mem.next → e.world.mem.freed.count a = 1
  freed : e.freed = []
  mutex : env.mutexInit = 0 → parseArgs env.argv ≠ none → e.mutex = .destroyed

lemma aborted_early (env : Env) (f : Table) (h : w'.mem.cell = w.mem.cell) (mutex : Mutex)
    (hmutex : env.mutexInit = 0 → parseArgs env.argv ≠ none → mutex = .destroyed) :
    Aborted env f w ⟨1, mutex, f, w', none, [], 0⟩ :=
  ⟨rfl, rfl, h, fun _ hle hlt => freed_once h hle hlt, rfl, hmutex⟩

lemma prepare_cases (env : Env) (f : Table) (w : World) :
    (∃ e, (∀ turns, prepare env turns f w = .leave (.inl e)) ∧ Aborted env f w e) ∨
      ∃ w' l, Fresh w.mem w'.mem l ∧ ∀ turns, prepare env turns f w =
        match bindLoop w'.mem turns env.attempts (hd none l) f with
        | .again bound => .again bound
        | .leave bound => .leave (.inr (bound, entry bound w' l))
        | .fault => .fault := by
  unfold prepare
  dsimp only
  split
  · rename_i hne
    exact Or.inl ⟨_, fun _ => rfl, aborted_early env f rfl _ fun hinit => absurd hinit hne⟩
  · split
    · exact Or.inl ⟨_, fun _ => rfl, aborted_early env f rfl _ fun _ _ => rfl⟩
    · split
      · exact Or.inl ⟨_, fun _ => rfl, aborted_early env f rfl _ fun _ _ => rfl⟩
      · split
        · exact Or.inl ⟨_, fun _ => rfl, aborted_early env f rfl _ fun _ _ => rfl⟩
        · cases hargs : parseArgs env.argv with
          | none =>
            exact Or.inl ⟨_, fun _ => rfl, aborted_early env f rfl _ fun _ h => absurd hargs h⟩
          | some x =>
            obtain ⟨port, bindIps⟩ := x
            obtain ⟨w', ⟨l, hrun, hfresh⟩ | ⟨hrun, hkept⟩⟩ :=
              createAddrinfo_cases env.db port bindIps none w
            · dsimp only
              rw [hrun]
              exact Or.inr ⟨w', l, hfresh, fun _ => rfl⟩
            · dsimp only
              rw [hrun]
              exact Or.inl ⟨_, fun _ => rfl, aborted_early env f hkept _ fun _ _ => rfl⟩

lemma prepare_filled (env : Env) (f : Table) (w : World) (turns : ℕ) :
    (∃ bound, prepare env turns f w = .again bound) ∨
      (∃ e, prepare env turns f w = .leave (.inl e) ∧ Aborted env f w e) ∨
      ∃ bound w' l, prepare env turns f w = .leave (.inr (bound, entry bound w' l)) ∧
        Filled f bound ∧ Fresh w.mem w'.mem l := by
  obtain ⟨e, hleave, haborted⟩ | ⟨w', l, hfresh, hmain⟩ := prepare_cases env f w
  · exact Or.inr (Or.inl ⟨e, hleave turns, haborted⟩)
  · rw [hmain]
    obtain ⟨bound, hbound⟩ | ⟨bound, hbound, hfilled⟩ :=
      bindLoop_filled turns env.attempts f hfresh.seg
    · rw [hbound]
      exact Or.inl ⟨bound, rfl⟩
    · rw [hbound]
      exact Or.inr (Or.inr ⟨bound, w', l, rfl, hfilled, hfresh⟩)

lemma prepare_ends (env : Env) (f : Table) (w : World) :
    ∃ turns r, prepare env turns f w = .leave r := by
  obtain ⟨e, hleave, -⟩ | ⟨w', l, hfresh, hmain⟩ := prepare_cases env f w
  · exact ⟨0, _, hleave 0⟩
  · obtain ⟨bound, hbound, -⟩ := bindLoop_ends env.attempts f hfresh.seg
    refine ⟨l.length + 1, .inr (bound, entry bound w' l), ?_⟩
    rw [hmain, hbound]

/-- **Up to the threads** nothing faults and every loop ends: `main` has returned without a socket
and with everything as it was, or its array holds the sockets that are open, with the addresses
as a new chain. -/
theorem prepare_settled (env : Env) (f : Table) (w : World) :
    (∀ turns, (∃ bound, prepare env turns f w = .again bound) ∨
      (∃ e, prepare env turns f w = .leave (.inl e) ∧ Aborted env f w e) ∨
      ∃ bound w' l, prepare env turns f w = .leave (.inr (bound, entry bound w' l)) ∧
        Filled f bound ∧ Fresh w.mem w'.mem l) ∧
    ∃ turns r, prepare env turns f w = .leave r :=
  ⟨prepare_filled env f w, prepare_ends env f w⟩

/-! ### Steps and schedules -/

lemma step_spec (hfilled : Filled f bound) (hseg : Seg w.mem.cell l none)
    (h : Inv db bound (entry bound w l) st) (a : Action) :
    step db a st = .blocked ∨ ∃ st', step db a st = .next st' ∧
      (Moves db bound (entry bound w l) st st' ∨
        ∃ n, Goes db bound (entry bound w l) st st' n) := by
  have hchild : childStep a st = .blocked ∨ ∃ st', childStep a st = .next st' ∧
      (Moves db bound (entry bound w l) st st' ∨
        ∃ n, Goes db bound (entry bound w l) st st' n) := by
    rcases childStep_spec h a with hblocked | ⟨n, st', hnext, hgoes⟩
    · exact Or.inl hblocked
    · exact Or.inr ⟨st', hnext, Or.inr ⟨n, hgoes⟩⟩
  have hmain : mainStep db a st = .blocked ∨ ∃ st', mainStep db a st = .next st' ∧
      (Moves db bound (entry bound w l) st st' ∨
        ∃ n, Goes db bound (entry bound w l) st st' n) := by
    rcases mainStep_spec hfilled hseg h a with hblocked | ⟨st', hnext, hmoves⟩
    · exact Or.inl hblocked
    · exact Or.inr ⟨st', hnext, Or.inl hmoves⟩
  cases a with
  | main => exact hmain
  | created ret => exact hmain
  | _ => exact hchild

lemma step_next (hfilled : Filled f bound) (hseg : Seg w.mem.cell l none)
    (h : Inv db bound (entry bound w l) st) {a : Action} (hstep : step db a st = .next st') :
    Moves db bound (entry bound w l) st st' ∨
      ∃ n, Goes db bound (entry bound w l) st st' n := by
  rcases step_spec hfilled hseg h a with hblocked | ⟨st₁, hnext, hcases⟩
  · cases hblocked.symm.trans hstep
  · cases hnext.symm.trans hstep
    exact hcases

lemma step_keeps (hfilled : Filled f bound) (hseg : Seg w.mem.cell l none) (a : Action)
    (st st' : State) (h : Inv db bound (entry bound w l) st)
    (hstep : step db a st = .next st') : Inv db bound (entry bound w l) st' := by
  rcases step_next hfilled hseg h hstep with hmoves | ⟨n, hgoes⟩
  · exact hmoves.inv
  · exact hgoes.inv

lemma udpecho_cases (env : Env) (turns : ℕ) (f : Table) (w : World) :
    (∀ as, udpecho env turns f w as = .blocked) ∨
      ∃ bound w' l, Filled f bound ∧ Fresh w.mem w'.mem l ∧
        ∀ as, udpecho env turns f w as =
          sched (step env.db) as (launch bound (entry bound w' l)) := by
  unfold udpecho
  obtain ⟨bound, hagain⟩ | ⟨e, hinl, -⟩ | ⟨bound, w', l, hinr, hfilled, hfresh⟩ :=
    prepare_filled env f w turns
  · rw [hagain]
    exact Or.inl fun _ => rfl
  · rw [hinl]
    exact Or.inl fun _ => rfl
  · rw [hinr]
    exact Or.inr ⟨bound, w', l, hfilled, hfresh, fun _ => rfl⟩

lemma udpecho_all {P : State → Prop} (env : Env) (turns : ℕ) (f : Table) (w : World)
    (as : List Action)
    (hP : ∀ bound w' l st, Filled f bound → Fresh w.mem w'.mem l →
      Inv env.db bound (entry bound w' l) st → P st) :
    (udpecho env turns f w as).All P := by
  obtain hblocked | ⟨bound, w', l, hfilled, hfresh, hsched⟩ := udpecho_cases env turns f w
  · rw [hblocked]
    trivial
  · rw [hsched]
    refine sched_all (step_keeps hfilled hfresh.seg) ?_ (inv_launch hfilled.slots w' l) as
    exact fun st hinv => hP bound w' l st hfilled hfresh hinv

/-- **No schedule faults**: no thread leaves its buffers and none closes or frees what is not
there, whichever order they run in and whatever comes in. -/
theorem udpecho_safe (env : Env) (turns : ℕ) (f : Table) (w : World) (as : List Action) :
    udpecho env turns f w as ≠ .fault := by
  obtain hblocked | ⟨bound, w', l, hfilled, hfresh, hsched⟩ := udpecho_cases env turns f w
  · rw [hblocked]
    simp
  · rw [hsched]
    intro hfault
    obtain ⟨pre, a, post, st, -, hpre, hstep⟩ := sched_fault_iff.mp hfault
    have hinv := sched_keeps (step_keeps hfilled hfresh.seg) (inv_launch hfilled.slots w' l) hpre
    rcases step_spec hfilled hfresh.seg hinv a with hblocked | ⟨st', hnext, -⟩
    · cases hblocked.symm.trans hstep
    · cases hnext.symm.trans hstep

/-! ### The sockets -/

def Alive (c : Child) : Prop := c.pc ≠ .unborn ∧ c.pc ≠ .returned

lemma file_inj (hslots : Slots f bound) {n m : ℕ} {fd fd' : ℤ} {j : ℕ}
    (hfd : (sfds bound)[n]? = some fd) (hfd' : (sfds bound)[m]? = some fd')
    (hj : bound.files.file fd = some j) (hj' : bound.files.file fd' = some j) : n = m := by
  obtain rfl : fd = fd' := bound.files.single fd fd' j hj hj'
  obtain ⟨hn, hget⟩ := List.getElem?_eq_some_iff.mp hfd
  obtain ⟨hm, hget'⟩ := List.getElem?_eq_some_iff.mp hfd'
  exact (List.Nodup.getElem_inj_iff hslots.opened.distinct).mp (hget.trans hget'.symm)

lemma socket_of_mem (hslots : Slots f bound) {n : ℕ} {fd : ℤ} (h : (sfds bound)[n]? = some fd) :
    ∃ j, bound.files.file fd = some j ∧ f.next ≤ j :=
  hslots.opened.new fd (List.mem_of_getElem? h)

/-- **A socket each**: as long as a thread runs, the descriptor it reads and writes is open, and
stands for a socket that `main` has opened and that no other thread has. -/
theorem udpecho_serves (env : Env) (turns : ℕ) (f : Table) (w : World) (as : List Action) :
    (udpecho env turns f w as).All fun st => ∀ n, Alive (st.child n) →
      ∃ j, st.exit.files.file (st.child n).sfd = some j ∧ f.next ≤ j ∧
        ∀ m, Alive (st.child m) → st.exit.files.file (st.child m).sfd = some j → m = n := by
  refine udpecho_all env turns f w as fun bound w' l st hfilled _ hinv n halive => ?_
  have hn := (hinv.child n).sfd ((hinv.child n).born.mp halive.1)
  obtain ⟨j, hj, hle⟩ := socket_of_mem hfilled.slots hn
  rw [hinv.files halive.1 halive.2]
  refine ⟨j, hj, hle, fun m halive' hj' => ?_⟩
  have hm := (hinv.child m).sfd ((hinv.child m).born.mp halive'.1)
  exact Fin.ext (file_inj hfilled.slots hm hn hj' hj)

/-! ### The echo -/

/-- A datagram that has come in by a socket: who sent it, and as many of its bytes as a thread has
room for. -/
def receivedOn (j : ℕ) : Event → Option (List UInt8 × List UInt8)
  | .received _ socket name data =>
    if socket = some j then some (name, data.take MAX_DATAGRAM_SIZE) else none
  | _ => none

def sentOn (j : ℕ) : Event → Option (List UInt8 × List UInt8)
  | .sent _ socket name data _ => if socket = some j then some (name, data) else none
  | _ => none

lemma onSocket_iff (hslots : Slots f bound) {n : Tid} {fd : ℤ} {j : ℕ}
    (hfd : (sfds bound)[(n : ℕ)]? = some fd) (hj : bound.files.file fd = some j) {ev : Event}
    (hev : OnSocket bound ev) : ev.socket = some j ↔ ev.thread = n := by
  obtain ⟨fd', hfd', hsocket⟩ := hev
  rw [hsocket]
  constructor
  · intro hj'
    exact Fin.ext (file_inj hslots hfd' hfd hj' hj)
  · intro hn
    rw [hn, hfd] at hfd'
    obtain rfl := Option.some.inj hfd'
    exact hj

lemma receivedOn_eq {n : Tid} {j : ℕ} {ev : Event} (h : ev.socket = some j ↔ ev.thread = n) :
    receivedOn j ev = receivedBy n ev := by
  cases ev with
  | received m socket name data =>
    unfold receivedOn receivedBy
    simp only [Event.socket, Event.thread] at h
    simp only [h]
  | sent m socket name data ret => rfl

lemma sentOn_eq {n : Tid} {j : ℕ} {ev : Event} (h : ev.socket = some j ↔ ev.thread = n) :
    sentOn j ev = sentBy n ev := by
  cases ev with
  | received m socket name data => rfl
  | sent m socket name data ret =>
    unfold sentOn sentBy
    simp only [Event.socket, Event.thread] at h
    simp only [h]

lemma receivedOn_of_ne {j : ℕ} {ev : Event} (h : ev.socket ≠ some j) : receivedOn j ev = none := by
  cases ev with
  | received n socket name data => exact if_neg h
  | sent n socket name data ret => rfl

lemma sentOn_of_ne {j : ℕ} {ev : Event} (h : ev.socket ≠ some j) : sentOn j ev = none := by
  cases ev with
  | received n socket name data => rfl
  | sent n socket name data ret => exact if_neg h

lemma pending_length (c : Child) : (pending c).length ≤ 1 := by
  unfold pending
  split
  · exact le_rfl
  · exact Nat.zero_le _

def Joined : Pc → Prop
  | .close _ => True
  | .freeaddrinfo => True
  | .destroy => True
  | .returned => True
  | _ => False

lemma pending_joined (h : Inv db bound e st) (hjoined : Joined st.pc) (n : Tid) :
    pending (st.child n) = [] := by
  refine pending_of_ne fun hpc => ?_
  have hn : n < st.exit.childrenLen := (h.child n).born.mp (by simp [hpc])
  have hflags := h.flags
  cases hmain : st.pc with
  | create k =>
    rw [hmain] at hjoined
    exact hjoined
  | sigwait =>
    rw [hmain] at hjoined
    exact hjoined
  | stop k =>
    rw [hmain] at hjoined
    exact hjoined
  | join k =>
    rw [hmain] at hjoined
    exact hjoined
  | _ =>
    rw [hmain] at hflags
    have hback : (st.child n).pc = .returned := hflags n hn
    cases hpc.symm.trans hback

/-- **The echo**: however the threads are interleaved, what has gone out by a socket is what has
come in by it: each datagram as far as it fits the buffer, to its sender, once and in the order
they came, up to one its thread has in hand. Behind the join there is none in hand. -/
theorem udpecho_echoes (env : Env) (turns : ℕ) (f : Table) (w : World) (as : List Action) :
    (udpecho env turns f w as).All fun st => ∀ j, ∃ inHand,
      st.log.filterMap (receivedOn j) = st.log.filterMap (sentOn j) ++ inHand ∧
      inHand.length ≤ 1 ∧ (Joined st.pc → inHand = []) := by
  refine udpecho_all env turns f w as fun bound w' l st hfilled _ hinv j => ?_
  by_cases hex : ∃ ev ∈ st.log, ev.socket = some j
  · obtain ⟨ev, hev, hsocket⟩ := hex
    obtain ⟨fd, hfd, hfile⟩ := hinv.events ev hev
    rw [hsocket] at hfile
    have hthread : ∀ ev' ∈ st.log, (ev'.socket = some j ↔ ev'.thread = ev.thread) :=
      fun ev' hev' => onSocket_iff hfilled.slots hfd hfile.symm (hinv.events ev' hev')
    refine ⟨pending (st.child ev.thread), ?_, pending_length _, fun hjoined =>
      pending_joined hinv hjoined _⟩
    rw [List.filterMap_congr fun ev' hev' => receivedOn_eq (hthread ev' hev'),
      List.filterMap_congr fun ev' hev' => sentOn_eq (hthread ev' hev')]
    exact (hinv.child ev.thread).echo
  · refine ⟨[], ?_, Nat.zero_le _, fun _ => rfl⟩
    have hne : ∀ ev ∈ st.log, ev.socket ≠ some j := fun ev hev hsocket =>
      hex ⟨ev, hev, hsocket⟩
    rw [List.filterMap_eq_nil_iff.mpr fun ev hev => receivedOn_of_ne (hne ev hev),
      List.filterMap_eq_nil_iff.mpr fun ev hev => sentOn_of_ne (hne ev hev)]
    rfl

/-! ### That it stops -/

/-- What is not put off for ever. `recvfrom` has a timeout, so it comes back even if nothing comes
in; at `main`'s step in `sigwait` it is a signal that has to come. -/
def Due (a : Action) (st : State) : Prop :=
  match a with
  | .main => st.pc ≠ .sigwait
  | .received .. => False
  | _ => True

def mainLeft : Pc → ℕ
  | .join n => 14 + (MAX_BIND_COUNT - n)
  | .close n => 3 + (MAX_BIND_COUNT - n)
  | .freeaddrinfo => 2
  | .destroy => 1
  | _ => 0

def childLeft : ChildPc → ℕ
  | .recvfrom => 3
  | .sendto => 2
  | .head => 1
  | _ => 0

def left (st : State) : ℕ := mainLeft st.pc + ∑ n, childLeft (st.child n).pc

lemma mainSucc_left_lt {pc pc' : Pc} (h : MainSucc pc pc') (hstop : Stopping pc) :
    Stopping pc' ∧ mainLeft pc' < mainLeft pc := by
  cases h with
  | created => exact hstop.elim
  | failed => exact hstop.elim
  | wait => exact hstop.elim
  | signal => exact hstop.elim
  | stop => exact hstop.elim
  | stopped => exact hstop.elim
  | join n hn =>
    refine ⟨trivial, ?_⟩
    show 14 + (MAX_BIND_COUNT - (n + 1)) < 14 + (MAX_BIND_COUNT - n)
    omega
  | joined n =>
    refine ⟨trivial, ?_⟩
    show 3 + (MAX_BIND_COUNT - 0) < 14 + (MAX_BIND_COUNT - n)
    have hmax : MAX_BIND_COUNT = 10 := rfl
    omega
  | close n hn =>
    refine ⟨trivial, ?_⟩
    show 3 + (MAX_BIND_COUNT - (n + 1)) < 3 + (MAX_BIND_COUNT - n)
    omega
  | closed n =>
    refine ⟨trivial, ?_⟩
    show 2 < 3 + (MAX_BIND_COUNT - n)
    omega
  | freed => exact ⟨trivial, Nat.one_lt_two⟩
  | destroyed => exact ⟨trivial, Nat.one_pos⟩

lemma childSucc_left_lt {pc pc' : ChildPc} (h : ChildSucc false pc pc') :
    childLeft pc' < childLeft pc := by
  cases h with
  | go hrun => cases hrun
  | _ => decide

/-- Behind the flags, a thread that can go on is one that has been told to stop. -/
lemma run_false (h : Inv db bound e st) (hstop : Stopping st.pc) {n : Tid}
    (halive : Alive (st.child n)) : (st.child n).run = false := by
  have hn : n < st.exit.childrenLen := (h.child n).born.mp halive.1
  have hflags := h.flags
  cases hpc : st.pc with
  | create k =>
    rw [hpc] at hstop
    exact hstop.elim
  | sigwait =>
    rw [hpc] at hstop
    exact hstop.elim
  | stop k =>
    rw [hpc] at hstop
    exact hstop.elim
  | join k =>
    rw [hpc] at hflags
    exact hflags.1 n hn
  | _ =>
    rw [hpc] at hflags
    exact absurd (hflags n hn) halive.2

lemma step_left (hfilled : Filled f bound) (hseg : Seg w.mem.cell l none) (a : Action)
    (st st' : State) (h : Inv db bound (entry bound w l) st ∧ Stopping st.pc)
    (hstep : step db a st = .next st') :
    (Inv db bound (entry bound w l) st' ∧ Stopping st'.pc) ∧ left st' < left st := by
  obtain ⟨hinv, hstop⟩ := h
  unfold left
  rcases step_next hfilled hseg hinv hstep with hmoves | ⟨n, hgoes⟩
  · obtain ⟨hstop', hlt⟩ := mainSucc_left_lt hmoves.succ hstop
    refine ⟨⟨hmoves.inv, hstop'⟩, ?_⟩
    rw [hmoves.child hstop]
    omega
  · obtain ⟨hne, hne', -⟩ := hgoes.succ.alive
    have hsucc := hgoes.succ
    rw [run_false hinv hstop ⟨hne, hne'⟩] at hsucc
    refine ⟨⟨hgoes.inv, hgoes.pc ▸ hstop⟩, ?_⟩
    have hlt := sum_update_lt (fun c : Child => childLeft c.pc) st.child
      (childSucc_left_lt hsucc)
    rw [← hgoes.child] at hlt
    rw [hgoes.pc]
    exact Nat.add_lt_add_left hlt _

lemma child_due {n : Tid} (halive : Alive (st.child n)) :
    ∃ a, Due a st ∧ step db a st ≠ .blocked := by
  obtain ⟨hne, hne'⟩ := halive
  cases hpc : (st.child n).pc with
  | unborn => exact absurd hpc hne
  | head =>
    refine ⟨.child n, trivial, ?_⟩
    show childStep (.child n) st ≠ .blocked
    unfold childStep
    dsimp only
    rw [if_pos hpc]
    split <;> simp
  | recvfrom =>
    refine ⟨.failed n EAGAIN, trivial, ?_⟩
    show childStep (.failed n EAGAIN) st ≠ .blocked
    unfold childStep
    dsimp only
    rw [if_pos hpc]
    split <;> simp
  | sendto =>
    refine ⟨.sent n 0, trivial, ?_⟩
    show childStep (.sent n 0) st ≠ .blocked
    unfold childStep
    dsimp only
    rw [if_pos hpc]
    unfold send
    dsimp only
    split
    · generalize (if st.exit.files.file (st.child n).sfd = none then -1 else (0 : ℤ)) = ret
      split <;> simp
    · simp
  | returned => exact absurd hpc hne'

lemma main_due (hfilled : Filled f bound) (h : Inv db bound (entry bound w l) st)
    (hsig : st.pc ≠ .sigwait) (hback : st.pc ≠ .returned) :
    (∃ a, Due a st ∧ step db a st ≠ .blocked) ∨ ∃ n, Alive (st.child n) := by
  have hlen := h.len
  have hmain : mainStep db .main st ≠ .blocked → ∃ a, Due a st ∧ step db a st ≠ .blocked :=
    fun hgo => ⟨.main, hsig, hgo⟩
  unfold mainStep at hmain
  cases hpc : st.pc with
  | create n =>
    left
    rw [hpc] at hmain
    by_cases hn : n < st.sfdArrLen
    · obtain ⟨st', hnext, -⟩ := create_spec hfilled.slots h hpc (hlen ▸ hn) 0
      refine ⟨.created 0, trivial, ?_⟩
      show mainStep db (.created 0) st ≠ .blocked
      unfold mainStep
      rw [hpc]
      dsimp only
      rw [if_pos hn, hnext]
      simp
    · refine hmain ?_
      dsimp only
      rw [if_neg hn]
      simp
  | sigwait => exact absurd hpc hsig
  | stop n =>
    left
    rw [hpc] at hmain
    refine hmain ?_
    dsimp only
    unfold stop
    split_ifs <;> simp
  | join n =>
    rw [hpc] at hmain
    by_cases hgo : n < st.exit.childrenLen ∧ ∃ hn : n < MAX_BIND_COUNT,
        (st.child ⟨n, hn⟩).pc ≠ .returned
    · obtain ⟨hlt, hn, hne⟩ := hgo
      exact Or.inr ⟨⟨n, hn⟩, (h.child ⟨n, hn⟩).born.mpr hlt, hne⟩
    · left
      refine hmain ?_
      dsimp only
      unfold join
      split_ifs with hlt hn hreturned
      · simp
      · exact absurd ⟨hlt, hn, hreturned⟩ hgo
      · simp
      · simp
  | close n =>
    left
    rw [hpc] at hmain
    refine hmain ?_
    dsimp only
    unfold closeSfd
    split
    · split
      · simp
      · split
        · split <;> simp
        · simp
    · simp
  | freeaddrinfo =>
    left
    rw [hpc] at hmain
    refine hmain ?_
    dsimp only
    split <;> simp
  | destroy =>
    left
    rw [hpc] at hmain
    exact hmain (by simp)
  | returned => exact absurd hpc hback

/-- **The program stops**: it never waits for anything but a signal, as `recvfrom` comes back after
its timeout; and once `main` has told the threads to stop, whatever the schedule, all of them
together take no more than fifty-four steps. -/
theorem udpecho_stops (env : Env) (turns : ℕ) (f : Table) (w : World) (as : List Action) :
    (udpecho env turns f w as).All fun st =>
      (st.pc ≠ .sigwait → st.pc ≠ .returned → ∃ a, Due a st ∧ step env.db a st ≠ .blocked) ∧
      (Stopping st.pc → ∀ bs st', sched (step env.db) bs st = .next st' → bs.length ≤ 54) := by
  refine udpecho_all env turns f w as fun bound w' l st hfilled hfresh hinv =>
    ⟨fun hsig hback => ?_, fun hstop bs st' hrun => ?_⟩
  · obtain hdue | ⟨n, halive⟩ := main_due hfilled hinv hsig hback
    · exact hdue
    · exact child_due halive
  · have hmax : MAX_BIND_COUNT = 10 := rfl
    have hbound := sched_bounded left (step_left hfilled hfresh.seg) ⟨hinv, hstop⟩ hrun
    have hmain : mainLeft st.pc ≤ 24 := by
      unfold mainLeft
      split <;> omega
    have hchild : ∑ n, childLeft (st.child n).pc ≤ ∑ _ : Tid, 3 := by
      refine Finset.sum_le_sum fun n _ => ?_
      cases (st.child n).pc <;> decide
    rw [Finset.sum_const, Finset.card_univ, Fintype.card_fin, smul_eq_mul] at hchild
    unfold left at hbound
    omega

/-! ### What it leaves -/

/-- **What any schedule leaves**, of a `main` that has come past `prepare`: when it is back, every
thread it created is back too; every socket it opened is closed, and each once, the addresses are
freed once with every node of theirs, and the mutex is destroyed. -/
theorem udpecho_leaves (env : Env) (turns : ℕ) (f : Table) (w : World) (as : List Action) :
    (udpecho env turns f w as).All fun st => st.pc = .returned →
      Ended st.sfdArrLen st.exit.childrenLen st.exit.status ∧ st.exit.mutex = .destroyed ∧
      (∀ n, ¬ Alive (st.child n)) ∧ st.exit.files.file = f.file ∧
      (∀ i, f.next ≤ i → i < st.exit.files.next → st.exit.files.closed.count i = 1) ∧
      st.exit.freed = [st.exit.addr] ∧ st.exit.world.mem.cell = w.mem.cell ∧
      ∀ a, w.mem.next ≤ a → a < st.exit.world.mem.next → st.exit.world.mem.freed.count a = 1 := by
  refine udpecho_all env turns f w as fun bound w' l st hfilled hfresh hinv hback => ?_
  have hmain := hinv.main
  have hflags := hinv.flags
  rw [hback] at hmain hflags
  obtain ⟨hended, files, m, hclosed, hfreed, hexit⟩ := hmain
  obtain ⟨files', heach, hopened, -, -⟩ := hfilled.slots.opened.closeEach
  obtain rfl : files = files' := Option.some.inj (hclosed.symm.trans heach)
  obtain ⟨m', hm', hreleased⟩ := env.db.freed w'.mem l hfresh.seg
  obtain rfl : m = m' := Option.some.inj (hfreed.symm.trans hm')
  have hcells : m.cell = w.mem.cell := hfresh.released hreleased
  rw [hinv.len]
  refine ⟨hended, by rw [hexit], fun n halive => ?_, ?_, ?_, by rw [hexit], ?_, ?_⟩
  · exact halive.2 (hflags n ((hinv.child n).born.mp halive.1))
  · rw [hexit]
    exact hopened.file_eq
  · rw [hexit]
    intro i hle hlt
    obtain ⟨hcount, -⟩ | ⟨-, hcount⟩ := hopened.settled hle hlt
    · exact hcount
    · cases hcount
  · rw [hexit]
    exact hcells
  · rw [hexit]
    exact fun a hle hlt => freed_once hcells hle hlt

def double : Env :=
  ⟨["udpecho", "7"], 0, 0, (0, 0), 0,
    Netdb.scripted fun _ => .found (List.replicate 2 (AddrList.inet [10, 0, 0, 1]))
      (List.cons_ne_nil _ _), fun k => ⟨3 + k, 0, 0⟩⟩

/-- Of two datagrams the later is echoed first, by the other socket; then a signal comes. -/
example :
    (match udpecho double 3 Table.empty ⟨Mem.empty, []⟩
        [.created 0, .created 0, .main, .child 0, .child 1,
          .received 0 ⟨[2, 0, 31, 144], by decide, by decide⟩ (by decide) [104],
          .received 1 ⟨[2, 0, 31, 145], by decide, by decide⟩ (by decide) [105],
          .sent 1 1, .sent 0 1, .main, .main, .main, .main, .child 1, .child 0,
          .main, .main, .main, .main, .main, .main, .main, .main] with
      | .next st => some (st.log.filterMap (sentOn 0), st.log.filterMap (sentOn 1))
      | _ => none) = some ([([2, 0, 31, 144], [104])], [([2, 0, 31, 145], [105])]) := by
  decide +kernel

end Csockets.UdpechoRuns
