import Csockets.Runs
import Csockets.Seats
import Csockets.PollModel

/-!
Who owns the slots: as long as `poll` never times out on a connected client, the slots hold
exactly the open client descriptors, and every close hits the connection it is meant for.
-/

namespace Csockets.PollSlots

open Runs Seats PollModel

/-- The slots at the head of the loop: distinct descriptors, exactly the open ones. -/
structure HeadOk (s : State) : Prop where
  distinct : ∀ m n, m ≠ 0 → n ≠ 0 → (s.fds m).fd ≠ -1 → (s.fds m).fd = (s.fds n).fd → m = n
  exact : ∀ fd, s.kernel.file fd ≠ none ↔ fd ≠ -1 ∧ ∃ n, n ≠ 0 ∧ (s.fds n).fd = fd

/-- A close is of the connection it is meant for; a client is turned away when all slots hold
connections, no two the same. -/
def EventOk : Event → Prop
  | .close _ file owner => ∃ c, file = some c ∧ owner = some c
  | .turnAway _ _ held => held.length = POLLMAX - 1 ∧ (held.map Prod.fst).Nodup ∧
      (held.map Prod.snd).Nodup ∧ ∀ x ∈ held, x.2 ≠ none
  | _ => True

def held (fds : Slot → Pollfd) (n : Slot) : Option ℤ :=
  if n = 0 ∨ (fds n).fd = -1 then none else some (fds n).fd

lemma held_eq_some {fds : Slot → Pollfd} {n : Slot} {fd : ℤ} :
    held fds n = some fd ↔ n ≠ 0 ∧ fd ≠ -1 ∧ (fds n).fd = fd := by
  unfold held
  split
  · rename_i h
    constructor
    · intro h'
      cases h'
    · rintro ⟨hn, hfd, rfl⟩
      rcases h with h | h
      · exact absurd h hn
      · exact absurd h hfd
  · rename_i h
    rw [not_or] at h
    rw [Option.some.injEq]
    exact ⟨fun e => ⟨h.1, e ▸ h.2, e⟩, fun e => e.2.2⟩

lemma held_congr {fds fds' : Slot → Pollfd} (h : ∀ n, (fds' n).fd = (fds n).fd) :
    held fds' = held fds := by
  funext n
  rw [held, held, h]

lemma held_update {fds : Slot → Pollfd} {n : Slot} (hn : n ≠ 0) (p : Pollfd) :
    held (Function.update fds n p) =
      Function.update (held fds) n (if p.fd = -1 then none else some p.fd) := by
  funext m
  by_cases hmn : m = n
  · subst hmn
    simp [held, hn]
  · simp [held, hmn]

/-- What holds at the head of the loop and in between. -/
structure Owned (s : State) : Prop where
  seated : Seated (held s.fds) s.kernel.file s.owner
  range : ∀ fd c, s.kernel.file fd = some c → 0 ≤ fd ∧ c < s.kernel.conns
  log : ∀ e ∈ s.log, EventOk e

lemma mem_slots {n : Slot} : n ∈ slots ↔ n ≠ 0 := by simp [slots]

lemma slots_nodup : slots.Nodup := (List.nodup_finRange _).filter _

lemma Owned.headOk {s : State} (h : Owned s) : HeadOk s where
  distinct m n hm hn hfd he :=
    h.seated.distinct m n _ (held_eq_some.mpr ⟨hm, hfd, rfl⟩)
      (held_eq_some.mpr ⟨hn, hfd, he.symm⟩)
  exact fd := by
    rw [h.seated.file_ne_none_iff]
    constructor
    · rintro ⟨n, hn⟩
      obtain ⟨hn, hfd, he⟩ := held_eq_some.mp hn
      exact ⟨hfd, n, hn, he⟩
    · rintro ⟨hfd, n, hn, he⟩
      exact ⟨n, held_eq_some.mpr ⟨hn, hfd, he⟩⟩

lemma owned_start (sockfd : ℤ) : Owned (start sockfd) where
  seated := by
    have hnone : held (start sockfd).fds = fun _ => none := by
      funext n
      by_cases hn : n = 0 <;> simp [held, start, hn]
    rw [hnone]
    exact Seated.empty _
  range fd c h := by cases h
  log e h := by cases h

lemma Owned.congr {s s' : State} (h : Owned s) (hfd : ∀ n, (s'.fds n).fd = (s.fds n).fd)
    (howner : s'.owner = s.owner) (hfile : s'.kernel.file = s.kernel.file)
    (hconns : s.kernel.conns ≤ s'.kernel.conns) (hlog : ∀ e ∈ s'.log, EventOk e) : Owned s' where
  seated := by
    rw [held_congr hfd, howner, hfile]
    exact h.seated
  range fd c hc := by
    rw [hfile] at hc
    obtain ⟨hpos, hlt⟩ := h.range fd c hc
    exact ⟨hpos, hlt.trans_le hconns⟩
  log := hlog

lemma Owned.close {s : State} (h : Owned s) {n : Slot} (hn : n ≠ 0) (hfd : (s.fds n).fd ≠ -1)
    {p : Pollfd} (hp : p.fd = -1) :
    Owned { close (s.fds n).fd (s.owner n) s with fds := Function.update s.fds n p } := by
  have hheld : held s.fds n = some (s.fds n).fd := held_eq_some.mpr ⟨hn, hfd, rfl⟩
  obtain ⟨c, hc, ho⟩ := h.seated.owned n _ hheld
  refine ⟨?_, fun fd d hd => ?_, fun e he => ?_⟩
  · have hleave := h.seated.leave hheld
    show Seated (held (Function.update s.fds n p)) _ _
    rw [held_update hn, if_pos hp]
    exact hleave
  · exact h.range fd d (update_none_iff.mp hd).2
  · rcases List.mem_append.mp he with he | he
    · exact h.log e he
    · rw [List.mem_singleton.mp he]
      exact ⟨c, hc, ho⟩

lemma clienthandle_spec (echo : Echo) (n : Slot) (s : State) (h : Owned s) :
    Owned (clienthandle echo n s) ∧ (∀ m, ((clienthandle echo n s).fds m).fd = (s.fds m).fd) ∧
      ∀ m, m ≠ n → (clienthandle echo n s).fds m = s.fds m := by
  unfold clienthandle
  split
  · refine ⟨h.congr (fun _ => rfl) rfl rfl le_rfl fun e he => ?_, fun _ => rfl, fun _ _ => rfl⟩
    rcases List.mem_append.mp he with he | he
    · exact h.log e he
    · simp only [List.mem_cons, List.not_mem_nil, or_false] at he
      rcases he with rfl | rfl <;> trivial
  · have hfd : ∀ m, (Function.update s.fds n { s.fds n with revents := POLLERR } m).fd =
        (s.fds m).fd := by
      intro m
      by_cases hmn : m = n
      · subst hmn
        simp
      · rw [Function.update_of_ne hmn]
    exact ⟨h.congr hfd rfl rfl le_rfl h.log, hfd, fun m hmn => Function.update_of_ne hmn _ _⟩

/-- One turn of the loop over the ready clients, at a slot that is free only if `poll` reported
nothing for it. -/
lemma handleSlot_spec (r : Round) {s : State} (h : Owned s) {n : Slot} (hn : n ≠ 0)
    (hfree : (s.fds n).fd = -1 → (s.fds n).revents = 0) :
    Owned (handleSlot r s n) ∧ ∀ m, m ≠ n → (handleSlot r s n).fds m = s.fds m := by
  by_cases hfd : (s.fds n).fd = -1
  · have hskip : handleSlot r s n = s := by simp [handleSlot, hfree hfd]
    rw [hskip]
    exact ⟨h, fun _ _ => rfl⟩
  · obtain ⟨s₁, hs₁, h₁, hfd₁, hne₁⟩ : ∃ s₁,
        (if (s.fds n).revents &&& POLLIN > 0 then clienthandle (r.echo n) n s else s) = s₁ ∧
          Owned s₁ ∧ (s₁.fds n).fd ≠ -1 ∧ ∀ m, m ≠ n → s₁.fds m = s.fds m := by
      split
      · obtain ⟨ho, hfds, hne⟩ := clienthandle_spec (r.echo n) n s h
        exact ⟨_, rfl, ho, by rw [hfds]; exact hfd, hne⟩
      · exact ⟨s, rfl, h, hfd, fun _ _ => rfl⟩
    unfold handleSlot
    rw [hs₁]
    dsimp only
    split
    · refine ⟨h₁.close hn hfd₁ rfl, fun m hmn => ?_⟩
      exact (Function.update_of_ne hmn _ _).trans (hne₁ m hmn)
    · exact ⟨h₁, hne₁⟩

lemma handleSlots_spec (r : Round) {l : List Slot} (hnd : l.Nodup) (hl : ∀ n ∈ l, n ≠ 0) {s : State}
    (h : Owned s) (hfree : ∀ n ∈ l, (s.fds n).fd = -1 → (s.fds n).revents = 0) :
    Owned (l.foldl (handleSlot r) s) := by
  induction l generalizing s with
  | nil => exact h
  | cons n l ih =>
    obtain ⟨hnl, hnd⟩ := List.nodup_cons.mp hnd
    obtain ⟨h₁, hne⟩ := handleSlot_spec r h (hl n (by simp)) (hfree n (by simp))
    refine ih hnd (fun m hm => hl m (List.mem_cons_of_mem _ hm)) h₁ fun m hm => ?_
    rw [hne m (fun hmn => hnl (hmn ▸ hm))]
    exact hfree m (List.mem_cons_of_mem _ hm)

lemma polled_spec (revents : Slot → ℕ) {s : State} (h : Owned s) :
    Owned (polled revents s) ∧
      ∀ n, ((polled revents s).fds n).fd = -1 → ((polled revents s).fds n).revents = 0 := by
  refine ⟨h.congr (fun _ => rfl) rfl rfl le_rfl h.log, fun n hn => ?_⟩
  have hneg : (s.fds n).fd < 0 := by
    have : (s.fds n).fd = -1 := hn
    omega
  exact if_pos hneg

lemma acceptr_spec (r : Round) (s : State) :
    acceptr r s < 0 ∨ (0 ≤ acceptr r s ∧ s.kernel.file (acceptr r s) = none) := by
  unfold acceptr
  split
  · rename_i h
    exact Or.inr ⟨h.1, h.2.2⟩
  · exact Or.inl (by omega)

lemma Owned.seat {s : State} (h : Owned s) {n : Slot} (hn : n ≠ 0) (hfree : (s.fds n).fd = -1)
    {fd : ℤ} (hpos : 0 ≤ fd) (hfile : s.kernel.file fd = none) {p : Pollfd} (hp : p.fd = fd) :
    Owned { accepted fd s with
      fds := Function.update s.fds n p
      owner := Function.update s.owner n (some s.kernel.conns) } := by
  have hheld : held s.fds n = none := if_pos (Or.inr hfree)
  -- the number of the new connection has not been given out before
  have hnew : ∀ fd', s.kernel.file fd' ≠ some s.kernel.conns := fun fd' h' =>
    absurd (h.range fd' _ h').2 (lt_irrefl _)
  refine ⟨?_, fun fd' c hc => ?_, h.log⟩
  · have htake := h.seated.take hheld hfile hnew
    have hne : p.fd ≠ -1 := by omega
    show Seated (held (Function.update s.fds n p)) _ _
    rw [held_update hn, if_neg hne, hp]
    exact htake
  · rcases update_some_iff.mp hc with ⟨rfl, rfl⟩ | ⟨-, hc⟩
    · exact ⟨hpos, Nat.lt_succ_self _⟩
    · obtain ⟨hpos', hlt⟩ := h.range fd' c hc
      exact ⟨hpos', hlt.trans (Nat.lt_succ_self _)⟩

lemma Owned.full {s : State} (h : Owned s) (hfull : ∀ n, n ≠ 0 → (s.fds n).fd ≠ -1) (conn : ℕ)
    (message : List UInt8) :
    EventOk (.turnAway conn message
      (slots.map fun n => ((s.fds n).fd, s.kernel.file (s.fds n).fd))) := by
  have hheld : ∀ n ∈ slots, held s.fds n = some (s.fds n).fd := fun n hn =>
    held_eq_some.mpr ⟨mem_slots.mp hn, hfull n (mem_slots.mp hn), rfl⟩
  refine ⟨by rw [List.length_map]; rfl, ?_, ?_, ?_⟩
  · rw [List.map_map]
    refine slots_nodup.map_on fun m hm n hn he => ?_
    exact h.seated.distinct m n _ (hheld m hm) ((hheld n hn).trans (congrArg some he.symm))
  · rw [List.map_map]
    refine slots_nodup.map_on fun m hm n hn he => ?_
    exact h.seated.owner_distinct (hheld m hm) (hheld n hn) he
  · intro x hx
    obtain ⟨n, hn, rfl⟩ := List.mem_map.mp hx
    exact (h.seated.file_ne_none_iff _).mpr ⟨n, hheld n hn⟩

lemma newClient_spec (r : Round) {s : State} (h : Owned s) : Owned (newClient r s) := by
  unfold newClient
  dsimp only
  rcases acceptr_spec r s with hneg | ⟨hpos, hfile⟩
  · split
    · rw [if_pos hneg]
      exact h
    · rw [if_pos hneg]
      exact h
  · split
    · rename_i n hfind
      rw [if_neg (by omega)]
      exact h.seat (mem_slots.mp (List.mem_of_find?_eq_some hfind))
        (by simpa using List.find?_some hfind) hpos hfile rfl
    · rename_i hfind
      rw [if_neg (by omega)]
      have hfull : ∀ n, n ≠ 0 → (s.fds n).fd ≠ -1 := fun n hn => by
        simpa using List.find?_eq_none.mp hfind n (mem_slots.mpr hn)
      have hsame : Function.update (Function.update s.kernel.file (acceptr r s)
          (some s.kernel.conns)) (acceptr r s) none = s.kernel.file := by
        rw [Function.update_idem, ← hfile, Function.update_eq_self]
      refine h.congr (fun _ => rfl) rfl hsame (Nat.le_succ _) fun e he => ?_
      simp only [close, accepted, List.append_assoc, List.mem_append, List.mem_singleton,
        Function.update_self] at he
      rcases he with he | rfl | rfl
      · exact h.log e he
      · exact h.full hfull _ _
      · exact ⟨_, rfl, rfl⟩

/-! ### Idle timeouts -/

def Idle (r : Round) (s : State) : Prop :=
  ∃ revents, r.poll = some revents ∧ pollr (polled revents s) = 0

/-- A timeout finds no client in the slots. -/
def NobodyKicked (s : State) (r : Round) : Prop := Idle r s → ∀ n, n ≠ 0 → (s.fds n).fd = -1

lemma pollr_eq_zero {s : State} : pollr s = 0 ↔ ∀ n, (s.fds n).revents = 0 := by
  simp [pollr, List.countP_eq_zero]

lemma kick_nobody {l : List Slot} {s : State} (h : ∀ n ∈ l, (s.fds n).fd = -1) :
    l.foldl kick s = s := by
  induction l with
  | nil => rfl
  | cons n l ih =>
    have hskip : kick s n = s := by simp [kick, h n (by simp)]
    rw [List.foldl_cons, hskip]
    exact ih fun m hm => h m (List.mem_cons_of_mem _ hm)

lemma socketloop_owned {r : Round} {s : State} (h : Owned s) (hC : NobodyKicked s r) :
    Owned (socketloop r s).2 := by
  unfold socketloop
  split
  · exact h
  · rename_i revents hr
    dsimp only
    obtain ⟨hp, hfree⟩ := polled_spec revents h
    split
    · rename_i hidle
      have hnone := hC ⟨revents, hr, hidle⟩
      have hsame : slots.foldl kick (polled revents s) = polled revents s :=
        kick_nobody fun n hn => hnone n (mem_slots.mp hn)
      rw [hsame]
      exact hp
    · have hslots := handleSlots_spec r slots_nodup (fun n hn => mem_slots.mp hn) hp
        fun n _ => hfree n
      split
      · exact hslots
      · split
        · exact newClient_spec r hslots
        · exact hslots

lemma kick_fds (s : State) (n : Slot) : (kick s n).fds = s.fds := by
  unfold kick
  dsimp only
  split <;> rfl

lemma kick_file {s : State} {n : Slot} {fd : ℤ} (h : s.kernel.file fd = none) :
    (kick s n).kernel.file fd = none := by
  unfold kick
  dsimp only
  split
  · by_cases hfd : fd = (s.fds n).fd
    · rw [hfd]
      exact Function.update_self ..
    · exact (Function.update_of_ne hfd _ _).trans h
  · exact h

lemma kicks_spec {l : List Slot} {s : State} (hr : ∀ n, (s.fds n).revents = 0) :
    (l.foldl kick s).fds = s.fds ∧
      (∀ fd, s.kernel.file fd = none → (l.foldl kick s).kernel.file fd = none) ∧
      ∀ n ∈ l, (s.fds n).fd ≠ -1 → (l.foldl kick s).kernel.file (s.fds n).fd = none := by
  induction l generalizing s with
  | nil => exact ⟨rfl, fun _ h => h, fun n hn => by cases hn⟩
  | cons m l ih =>
    obtain ⟨hfds, hkeep, hclosed⟩ := ih (s := kick s m) (by rw [kick_fds]; exact hr)
    rw [List.foldl_cons]
    refine ⟨hfds.trans (kick_fds s m), fun fd h => hkeep fd (kick_file h), fun n hn hfd => ?_⟩
    rcases List.mem_cons.mp hn with rfl | hn
    · refine hkeep _ ?_
      have herr : (s.fds n).revents ≠ POLLERR := by rw [hr]; decide
      unfold kick
      dsimp only
      rw [if_pos ⟨hfd, herr⟩]
      exact Function.update_self ..
    · rw [kick_fds] at hclosed
      exact hclosed n hn hfd

lemma not_headOk_of_kick {r : Round} {s : State} (h : Idle r s) {n : Slot} (hn : n ≠ 0)
    (hfd : (s.fds n).fd ≠ -1) : ∃ s', next r s = some s' ∧ ¬ HeadOk s' := by
  obtain ⟨revents, hr, hidle⟩ := h
  obtain ⟨hfds, -, hclosed⟩ := kicks_spec (l := slots) (pollr_eq_zero.mp hidle)
  refine ⟨slots.foldl kick (polled revents s), ?_, fun hok => ?_⟩
  · have hloop : socketloop r s = (true, slots.foldl kick (polled revents s)) := by
      unfold socketloop
      rw [hr]
      exact if_pos hidle
    rw [next, hloop]
  · refine (hok.exact (s.fds n).fd).mpr ⟨hfd, n, hn, by rw [hfds]; rfl⟩ ?_
    exact hclosed n (mem_slots.mpr hn) hfd

lemma next_eq {r : Round} {s s' : State} (h : next r s = some s') : (socketloop r s).2 = s' := by
  unfold next at h
  split at h
  · rename_i hl
    rw [hl]
    exact Option.some.inj h
  · cases h

/-- **When the slots are owned**: in a run, the slots hold exactly the open client descriptors at
every head of the loop, every close is of the connection it is meant for and clients are turned
away from a full server only, if and only if no timeout of the run finds a client in a slot. -/
theorem slots_owned_iff (sockfd : ℤ) (rounds : List Round) :
    (∀ pre, pre <+: rounds → ∀ s, runs next pre (start sockfd) = some s →
      HeadOk s ∧ ∀ r, pre ++ [r] <+: rounds → ∀ e ∈ (socketloop r s).2.log, EventOk e) ↔
      Along next NobodyKicked rounds (start sockfd) := by
  constructor
  · intro h
    rw [along_iff]
    intro pre r hpre s hs hidle n hn
    by_contra hfd
    obtain ⟨s', hs', hbad⟩ := not_headOk_of_kick hidle hn hfd
    refine hbad (h (pre ++ [r]) hpre s' ?_).1
    rw [runs_append, hs, Option.bind_some, runs_cons hs', runs_nil]
  · intro h pre hpre s hs
    have howned : Owned s := runs_keep Owned
      (fun r s s' hs hC hs' => next_eq hs' ▸ socketloop_owned hs hC)
      (owned_start sockfd) (along_initial h hpre) hs
    exact ⟨howned.headOk, fun r hr =>
      (socketloop_owned howned (along_iff.mp h pre r hr s hs)).log⟩

def connects : Round :=
  ⟨some fun n => if n = 0 then POLLIN else 0, fun _ => .fail, 4⟩

def timesOut : Round := ⟨some fun _ => 0, fun _ => .fail, -1⟩

/-- A client that is kicked keeps its slot. -/
theorem not_headOk_timesOut :
    ¬ ∀ (sockfd : ℤ) (rounds : List Round) (s : State),
      runs next rounds (start sockfd) = some s → HeadOk s := by
  intro h
  have hrun : (runs next [connects] (start 3)).map (fun s => ((s.fds 1).fd,
      decide (pollr (polled (fun _ => 0) s) = 0))) = some (4, true) := by decide +kernel
  obtain ⟨s, hs, he⟩ := Option.map_eq_some_iff.mp hrun
  obtain ⟨hfd, hidle⟩ : (s.fds 1).fd = 4 ∧ pollr (polled (fun _ => 0) s) = 0 := by
    simpa using he
  obtain ⟨s', hs', hbad⟩ := not_headOk_of_kick (r := timesOut) ⟨_, rfl, hidle⟩ (n := 1)
    (by decide) (by rw [hfd]; decide)
  refine hbad (h 3 [connects, timesOut] s' ?_)
  rw [show [connects, timesOut] = [connects] ++ [timesOut] from rfl, runs_append, hs,
    Option.bind_some, runs_cons hs', runs_nil]

end Csockets.PollSlots
