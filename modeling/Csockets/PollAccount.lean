import Csockets.PollSlots

/-!
What a run of the `poll` server keeps whether or not it kicks clients: every open connection is
in a slot, and every connection that is gone was closed once. And what it does not keep: a slot
whose client was kicked is not free until `accept` gives the number out again, and meanwhile
`poll` does not time out.
-/

namespace Csockets.PollAccount

open Runs Seats PollModel PollSlots

def hits (conn : ℕ) : Event → Bool
  | .close _ file _ => file = some conn
  | _ => false

def closes (conn : ℕ) (log : List Event) : ℕ := log.countP (hits conn)

/-- No two open descriptors of one connection, and a connection is closed once, when it goes. -/
structure Counted (file : ℤ → Option ℕ) (conns : ℕ) (log : List Event) : Prop where
  range : ∀ fd c, file fd = some c → 0 ≤ fd ∧ c < conns
  single : ∀ fd fd' c, file fd = some c → file fd' = some c → fd = fd'
  opened : ∀ fd c, file fd = some c → closes c log = 0
  gone : ∀ c, c < conns → (∀ fd, file fd ≠ some c) → closes c log = 1
  unused : ∀ c, conns ≤ c → closes c log = 0

variable {file : ℤ → Option ℕ} {conns : ℕ} {log : List Event}

lemma closes_snoc (c : ℕ) (log : List Event) (e : Event) :
    closes c (log ++ [e]) = closes c log + if hits c e then 1 else 0 := by
  rw [closes, List.countP_append, List.countP_singleton, closes]

lemma closes_quiet (c : ℕ) (log : List Event) {l : List Event} (h : ∀ e ∈ l, hits c e = false) :
    closes c (log ++ l) = closes c log := by
  have hzero : l.countP (hits c) = 0 := by
    rw [List.countP_eq_zero]
    intro e he
    rw [h e he]
    exact Bool.false_ne_true
  rw [closes, List.countP_append, hzero]
  rfl

lemma hits_close (c : ℕ) (fd : ℤ) (open_ owner : Option ℕ) :
    hits c (.close fd open_ owner) = true ↔ open_ = some c := by
  simp [hits]

lemma Counted.close (h : Counted file conns log) (fd : ℤ) (owner : Option ℕ) :
    Counted (Function.update file fd none) conns (log ++ [.close fd (file fd) owner]) where
  range fd' c hc := h.range fd' c (update_none_iff.mp hc).2
  single fd₁ fd₂ c h₁ h₂ := h.single fd₁ fd₂ c (update_none_iff.mp h₁).2 (update_none_iff.mp h₂).2
  opened fd' c hc := by
    obtain ⟨hne, hc⟩ := update_none_iff.mp hc
    have hother : ¬ hits c (.close fd (file fd) owner) = true := by
      rw [hits_close]
      exact fun hfd => hne (h.single fd' fd c hc hfd)
    rw [closes_snoc, if_neg hother]
    exact h.opened fd' c hc
  gone c hlt hnone := by
    rw [closes_snoc]
    by_cases hfd : file fd = some c
    · rw [if_pos ((hits_close c fd _ owner).mpr hfd), h.opened fd c hfd]
    · rw [if_neg fun he => hfd ((hits_close c fd _ owner).mp he)]
      refine h.gone c hlt fun fd' hc => ?_
      have hne : fd' ≠ fd := by
        rintro rfl
        exact hfd hc
      exact hnone fd' (update_none_iff.mpr ⟨hne, hc⟩)
  unused c hle := by
    have hother : ¬ hits c (.close fd (file fd) owner) = true := by
      rw [hits_close]
      intro hfd
      have := (h.range fd c hfd).2
      omega
    rw [closes_snoc, if_neg hother]
    exact h.unused c hle

lemma Counted.accept (h : Counted file conns log) {fd : ℤ} (hpos : 0 ≤ fd)
    (hfree : file fd = none) : Counted (Function.update file fd (some conns)) (conns + 1) log where
  range fd' c hc := by
    rcases update_some_iff.mp hc with ⟨rfl, rfl⟩ | ⟨-, hc⟩
    · exact ⟨hpos, Nat.lt_succ_self _⟩
    · exact ⟨(h.range fd' c hc).1, (h.range fd' c hc).2.trans (Nat.lt_succ_self _)⟩
  single fd₁ fd₂ c h₁ h₂ := by
    have hnew : ∀ fd', file fd' ≠ some conns := fun fd' h' => lt_irrefl _ (h.range fd' _ h').2
    rcases update_some_iff.mp h₁ with ⟨rfl, rfl⟩ | ⟨-, h₁⟩
    · rcases update_some_iff.mp h₂ with ⟨rfl, -⟩ | ⟨-, h₂⟩
      · rfl
      · exact absurd h₂ (hnew fd₂)
    · rcases update_some_iff.mp h₂ with ⟨-, rfl⟩ | ⟨-, h₂⟩
      · exact absurd h₁ (hnew fd₁)
      · exact h.single fd₁ fd₂ c h₁ h₂
  opened fd' c hc := by
    rcases update_some_iff.mp hc with ⟨-, rfl⟩ | ⟨-, hc⟩
    · exact h.unused _ le_rfl
    · exact h.opened fd' c hc
  gone c hlt hnone := by
    have hne : c ≠ conns := by
      rintro rfl
      exact hnone fd (update_some_iff.mpr (Or.inl ⟨rfl, rfl⟩))
    refine h.gone c (by omega) fun fd' hc => hnone fd' (update_some_iff.mpr (Or.inr ⟨?_, hc⟩))
    rintro rfl
    rw [hfree] at hc
    cases hc
  unused c hle := h.unused c (by omega)

lemma Counted.congr (h : Counted file conns log) {log' : List Event}
    (hlog : ∀ c, closes c log' = closes c log) : Counted file conns log' where
  range := h.range
  single := h.single
  opened fd c hc := (hlog c).trans (h.opened fd c hc)
  gone c hlt hnone := (hlog c).trans (h.gone c hlt hnone)
  unused c hle := (hlog c).trans (h.unused c hle)

/-! ### One round -/

structure Kept (s : State) : Prop where
  counted : Counted s.kernel.file s.kernel.conns s.log
  slot : ∀ fd, s.kernel.file fd ≠ none → ∃ n, n ≠ 0 ∧ (s.fds n).fd = fd
  number : ∀ n, n ≠ 0 → -1 ≤ (s.fds n).fd

lemma kept_start (sockfd : ℤ) : Kept (start sockfd) where
  counted :=
    { range := fun fd c h => by cases h
      single := fun fd fd' c h => by cases h
      opened := fun fd c h => by cases h
      gone := fun c h => absurd h (Nat.not_lt_zero c)
      unused := fun c _ => rfl }
  slot fd h := absurd rfl h
  number n hn := by simp [start, hn]

lemma Kept.congr {s s' : State} (h : Kept s) (hfd : ∀ n, (s'.fds n).fd = (s.fds n).fd)
    (hkernel : s'.kernel = s.kernel) (hlog : ∀ c, closes c s'.log = closes c s.log) : Kept s' where
  counted := by
    rw [hkernel]
    exact h.counted.congr hlog
  slot fd hopen := by
    rw [hkernel] at hopen
    obtain ⟨n, hn, rfl⟩ := h.slot fd hopen
    exact ⟨n, hn, hfd n⟩
  number n hn := by
    rw [hfd]
    exact h.number n hn

lemma polled_kept (revents : Slot → ℕ) {s : State} (h : Kept s) : Kept (polled revents s) :=
  h.congr (fun _ => rfl) rfl fun _ => rfl

lemma close_kept {s : State} (h : Kept s) (fd : ℤ) (owner : Option ℕ) :
    Kept (close fd owner s) where
  counted := h.counted.close fd owner
  slot fd' hopen := by
    obtain ⟨c, hc⟩ := Option.ne_none_iff_exists'.mp hopen
    obtain ⟨-, hc⟩ := update_none_iff.mp hc
    exact h.slot fd' (hc ▸ Option.some_ne_none c)
  number := h.number

lemma kicks_kept {l : List Slot} {s : State} (h : Kept s) : Kept (l.foldl kick s) := by
  induction l generalizing s with
  | nil => exact h
  | cons n l ih =>
    refine ih ?_
    unfold kick
    dsimp only
    split
    · exact close_kept h _ _
    · exact h

lemma clienthandle_same (echo : Echo) (n : Slot) (s : State) :
    (clienthandle echo n s).kernel = s.kernel ∧
      (∀ c, closes c (clienthandle echo n s).log = closes c s.log) ∧
      (∀ m, ((clienthandle echo n s).fds m).fd = (s.fds m).fd) ∧
      ∀ m, m ≠ n → (clienthandle echo n s).fds m = s.fds m := by
  unfold clienthandle
  split
  · refine ⟨rfl, fun c => closes_quiet c s.log ?_, fun _ => rfl, fun _ _ => rfl⟩
    intro e he
    simp only [List.mem_cons, List.not_mem_nil, or_false] at he
    rcases he with rfl | rfl <;> rfl
  · refine ⟨rfl, fun _ => rfl, fun m => ?_, fun m hmn => Function.update_of_ne hmn _ _⟩
    by_cases hmn : m = n
    · subst hmn
      simp
    · simp [hmn]

lemma Kept.clear {s : State} (h : Kept s) (n : Slot) (owner : Option ℕ) {p : Pollfd}
    (hp : p.fd = -1) :
    Kept { close (s.fds n).fd owner s with fds := Function.update s.fds n p } where
  counted := h.counted.close _ _
  slot fd hopen := by
    obtain ⟨c, hc⟩ := Option.ne_none_iff_exists'.mp hopen
    obtain ⟨hne, hc⟩ := update_none_iff.mp hc
    obtain ⟨m, hm, hfd⟩ := h.slot fd (hc ▸ Option.some_ne_none c)
    have hmn : m ≠ n := by
      rintro rfl
      exact hne hfd.symm
    exact ⟨m, hm, (congrArg Pollfd.fd (Function.update_of_ne hmn _ _)).trans hfd⟩
  number m hm := by
    by_cases hmn : m = n
    · subst hmn
      simp [hp]
    · simpa [hmn] using h.number m hm

lemma handleSlot_kept (r : Round) {s : State} (h : Kept s) (n : Slot) :
    Kept (handleSlot r s n) := by
  obtain ⟨s₁, hs₁, h₁⟩ : ∃ s₁,
      (if (s.fds n).revents &&& POLLIN > 0 then clienthandle (r.echo n) n s else s) = s₁ ∧
        Kept s₁ := by
    split
    · obtain ⟨hkernel, hlog, hfd, -⟩ := clienthandle_same (r.echo n) n s
      exact ⟨_, rfl, h.congr hfd hkernel hlog⟩
    · exact ⟨s, rfl, h⟩
  unfold handleSlot
  rw [hs₁]
  dsimp only
  split
  · exact h₁.clear n _ rfl
  · exact h₁

lemma handleSlots_kept (r : Round) {l : List Slot} {s : State} (h : Kept s) :
    Kept (l.foldl (handleSlot r) s) := by
  induction l generalizing s with
  | nil => exact h
  | cons n l ih => exact ih (handleSlot_kept r h n)

lemma Kept.seat {s : State} (h : Kept s) {n : Slot} (hn : n ≠ 0) (hfree : (s.fds n).fd = -1)
    {fd : ℤ} (hpos : 0 ≤ fd) (hfile : s.kernel.file fd = none) {p : Pollfd} (hp : p.fd = fd)
    (owner : Slot → Option ℕ) :
    Kept { accepted fd s with fds := Function.update s.fds n p, owner := owner } where
  counted := h.counted.accept hpos hfile
  slot fd' hopen := by
    obtain ⟨c, hc⟩ := Option.ne_none_iff_exists'.mp hopen
    rcases update_some_iff.mp hc with ⟨rfl, -⟩ | ⟨-, hold⟩
    · exact ⟨n, hn, (congrArg Pollfd.fd (Function.update_self ..)).trans hp⟩
    · obtain ⟨m, hm, hfd⟩ := h.slot fd' (hold ▸ Option.some_ne_none c)
      have hmn : m ≠ n := by
        rintro rfl
        have := (h.counted.range fd' c hold).1
        omega
      exact ⟨m, hm, (congrArg Pollfd.fd (Function.update_of_ne hmn _ _)).trans hfd⟩
  number m hm := by
    by_cases hmn : m = n
    · subst hmn
      simp only [Function.update_self, hp]
      omega
    · simpa [hmn] using h.number m hm

lemma newClient_kept (r : Round) {s : State} (h : Kept s) : Kept (newClient r s) := by
  unfold newClient
  dsimp only
  rcases acceptr_spec r s with hneg | ⟨hpos, hfile⟩
  · split
    · rw [if_pos hneg]
      exact h
    · rw [if_pos hneg]
      exact h
  · split
    · rename_i n hfind
      rw [if_neg (by omega)]
      exact h.seat (mem_slots.mp (List.mem_of_find?_eq_some hfind))
        (by simpa using List.find?_some hfind) hpos hfile rfl _
    · rw [if_neg (by omega)]
      -- the connection is accepted, told that the server is full, and closed again
      refine ⟨?_, fun fd hopen => h.slot fd fun hnone => hopen ?_, h.number⟩
      · refine Counted.close (h.counted.accept hpos hfile |>.congr fun c => ?_) _ _
        exact closes_quiet c s.log (by simp [hits])
      · by_cases hfd : fd = acceptr r s
        · rw [hfd]
          exact Function.update_self ..
        · exact ((Function.update_of_ne hfd _ _).trans (Function.update_of_ne hfd _ _)).trans hnone

lemma socketloop_kept (r : Round) {s : State} (h : Kept s) : Kept (socketloop r s).2 := by
  unfold socketloop
  split
  · exact h
  · rename_i revents _
    dsimp only
    have hpolled := polled_kept revents h
    split
    · exact kicks_kept hpolled
    · have hslots := handleSlots_kept r (l := slots) hpolled
      split
      · exact hslots
      · split
        · exact newClient_kept r hslots
        · exact hslots

lemma runs_kept {sockfd : ℤ} {rounds : List Round} {s : State}
    (hs : runs next rounds (start sockfd) = some s) : Kept s :=
  runs_keep (C := fun _ _ => True) Kept
    (fun r _ _ hk _ hs' => next_eq hs' ▸ socketloop_kept r hk) (kept_start sockfd)
    (along_all (fun _ _ => trivial) rounds _) hs

/-! ### Nothing is lost -/

/-- The books of the server: what is open is in a slot, at most one less than `POLLMAX`
descriptors are, and every connection is open as one of them or was closed once. -/
structure Accounted (s : State) : Prop where
  slot : ∀ fd, s.kernel.file fd ≠ none → ∃ n, n ≠ 0 ∧ (s.fds n).fd = fd
  few : ∀ l : List ℤ, l.Nodup → (∀ fd ∈ l, s.kernel.file fd ≠ none) → l.length ≤ POLLMAX - 1
  once : ∀ c, c < s.kernel.conns →
    (∃! fd, s.kernel.file fd = some c) ∧ closes c s.log = 0 ∨
      (∀ fd, s.kernel.file fd ≠ some c) ∧ closes c s.log = 1

lemma Kept.accounted {s : State} (h : Kept s) : Accounted s where
  slot := h.slot
  few l hnd hopen := by
    have hsub : l ⊆ slots.map fun n => (s.fds n).fd := by
      intro fd hfd
      obtain ⟨n, hn, he⟩ := h.slot fd (hopen fd hfd)
      exact List.mem_map.mpr ⟨n, mem_slots.mpr hn, he⟩
    have hlen := (hnd.subperm hsub).length_le
    rw [List.length_map] at hlen
    exact hlen
  once c hlt := by
    by_cases hfd : ∃ fd, s.kernel.file fd = some c
    · obtain ⟨fd, hfd⟩ := hfd
      left
      exact ⟨⟨fd, hfd, fun fd' h' => h.counted.single fd' fd c h' hfd⟩, h.counted.opened fd c hfd⟩
    · rw [not_exists] at hfd
      exact Or.inr ⟨hfd, h.counted.gone c hlt hfd⟩

/-- **The books balance**: in every run, kicked clients or not, at every head of the loop and
after the last round, every open connection is in a slot, at most nineteen descriptors are open,
and every connection ever accepted is open as exactly one descriptor or was closed exactly
once. -/
theorem reachable_accounted (sockfd : ℤ) (rounds : List Round) {s : State}
    (hs : runs next rounds (start sockfd) = some s) :
    Accounted s ∧ ∀ r, Accounted (socketloop r s).2 :=
  ⟨(runs_kept hs).accounted, fun r => (socketloop_kept r (runs_kept hs)).accounted⟩

/-- A client connects, is kicked, and the next one gets its number. -/
theorem accounted_kicked :
    ∃ s, runs next [connects, timesOut, connects] (start 3) = some s ∧ s.kernel.conns = 2 ∧
      Accounted s := by
  have hrun : (runs next [connects, timesOut, connects] (start 3)).map (fun s => s.kernel.conns) =
      some 2 := by decide +kernel
  obtain ⟨s, hs, hconns⟩ := Option.map_eq_some_iff.mp hrun
  exact ⟨s, hs, hconns, (reachable_accounted 3 _ hs).1⟩

/-! ### Kicked for good -/

structure Dead (n : Slot) (fd : ℤ) (s : State) : Prop where
  slot : (s.fds n).fd = fd
  closed : s.kernel.file fd = none

variable {n : Slot} {fd : ℤ}

/-- `poll` reports `POLLNVAL`, which no branch of the loop looks at. -/
lemma polled_dead (revents : Slot → ℕ) {s : State} (h : Dead n fd s) (hn : n ≠ 0) (hfd : 0 ≤ fd) :
    Dead n fd (polled revents s) ∧ ((polled revents s).fds n).revents = POLLNVAL := by
  refine ⟨⟨h.slot, h.closed⟩, ?_⟩
  show reported s n (revents n) = POLLNVAL
  unfold reported
  rw [h.slot, if_neg (by omega), if_neg]
  rintro (h0 | hopen)
  · exact hn h0
  · exact hopen h.closed

lemma not_idle {r : Round} {s : State} (h : Dead n fd s) (hn : n ≠ 0) (hfd : 0 ≤ fd) :
    ¬ Idle r s := by
  rintro ⟨revents, -, hzero⟩
  have hnval := (polled_dead revents h hn hfd).2
  rw [pollr_eq_zero.mp hzero n] at hnval
  cases hnval

lemma handleSlot_dead (r : Round) (m : Slot) {s : State} (h : Dead n fd s)
    (hr : (s.fds n).revents = POLLNVAL) :
    Dead n fd (handleSlot r s m) ∧ ((handleSlot r s m).fds n).revents = POLLNVAL := by
  by_cases hmn : m = n
  · subst hmn
    have hskip : handleSlot r s m = s := by simp [handleSlot, hr, POLLNVAL, POLLIN, POLLERR]
    rw [hskip]
    exact ⟨h, hr⟩
  · obtain ⟨s₁, hs₁, hfds, hkernel⟩ : ∃ s₁,
        (if (s.fds m).revents &&& POLLIN > 0 then clienthandle (r.echo m) m s else s) = s₁ ∧
          s₁.fds n = s.fds n ∧ s₁.kernel = s.kernel := by
      split
      · obtain ⟨hkernel, -, -, hother⟩ := clienthandle_same (r.echo m) m s
        exact ⟨_, rfl, hother n (Ne.symm hmn), hkernel⟩
      · exact ⟨s, rfl, rfl, rfl⟩
    unfold handleSlot
    rw [hs₁]
    dsimp only
    split
    · have hsame : Function.update s₁.fds m { s₁.fds m with fd := -1, events := 0 } n = s.fds n :=
        (Function.update_of_ne (Ne.symm hmn) _ _).trans hfds
      refine ⟨⟨?_, ?_⟩, ?_⟩
      · exact (congrArg Pollfd.fd hsame).trans h.slot
      · -- closing a descriptor opens none
        by_contra hopen
        obtain ⟨c, hc⟩ := Option.ne_none_iff_exists'.mp hopen
        have hc := (update_none_iff.mp hc).2
        rw [hkernel, h.closed] at hc
        cases hc
      · exact (congrArg Pollfd.revents hsame).trans hr
    · exact ⟨⟨by rw [hfds]; exact h.slot, by rw [hkernel]; exact h.closed⟩, by rw [hfds]; exact hr⟩

lemma handleSlots_dead (r : Round) {l : List Slot} {s : State} (h : Dead n fd s)
    (hr : (s.fds n).revents = POLLNVAL) : Dead n fd (l.foldl (handleSlot r) s) := by
  induction l generalizing s with
  | nil => exact h
  | cons m l ih =>
    obtain ⟨h₁, hr₁⟩ := handleSlot_dead r m h hr
    exact ih h₁ hr₁

lemma newClient_dead {r : Round} {s : State} (h : Dead n fd s) (hfd : 0 ≤ fd)
    (hother : r.accept ≠ fd) : Dead n fd (newClient r s) := by
  unfold newClient
  dsimp only
  rcases acceptr_spec r s with hneg | ⟨hpos, -⟩
  · split
    · rw [if_pos hneg]
      exact h
    · rw [if_pos hneg]
      exact h
  · have hne : fd ≠ acceptr r s := by
      unfold acceptr at hpos ⊢
      split
      · exact hother.symm
      · omega
    split
    · rename_i m hfind
      rw [if_neg (by omega)]
      have hfree : (s.fds m).fd = -1 := by simpa using List.find?_some hfind
      have hmn : n ≠ m := by
        rintro rfl
        rw [h.slot] at hfree
        omega
      exact ⟨(congrArg Pollfd.fd (Function.update_of_ne hmn _ _)).trans h.slot,
        (Function.update_of_ne hne _ _).trans h.closed⟩
    · rw [if_neg (by omega)]
      exact ⟨h.slot, ((Function.update_of_ne hne _ _).trans
        (Function.update_of_ne hne _ _)).trans h.closed⟩

/-- As long as the number is not given out again, the slot stays as it is. -/
lemma next_dead {r : Round} {s s' : State} (h : Dead n fd s) (hn : n ≠ 0) (hfd : 0 ≤ fd)
    (hother : r.accept ≠ fd) (hs' : next r s = some s') : Dead n fd s' := by
  rw [← next_eq hs']
  unfold socketloop
  split
  · exact h
  · rename_i revents hr
    dsimp only
    obtain ⟨hpolled, hnval⟩ := polled_dead revents h hn hfd
    split
    · rename_i hidle
      exact absurd ⟨revents, hr, hidle⟩ (not_idle h hn hfd)
    · have hslots := handleSlots_dead r (l := slots) hpolled hnval
      split
      · exact hslots
      · split
        · exact newClient_dead hslots hfd hother
        · exact hslots

lemma runs_dead {post : List Round} {s s' : State} (h : Dead n fd s) (hn : n ≠ 0) (hfd : 0 ≤ fd)
    (hother : ∀ r ∈ post, r.accept ≠ fd) (hs' : runs next post s = some s') : Dead n fd s' :=
  runs_keep (Dead n fd) (fun _ _ _ hd hr hnext => next_dead hd hn hfd hr hnext) h
    (along_mem (fun r hr _ => hother r hr) s) hs'

lemma kicked_dead {r : Round} {s s' : State} (h : Idle r s) {n : Slot} (hn : n ≠ 0)
    (hfd : (s.fds n).fd ≠ -1) (hs' : next r s = some s') : Dead n (s.fds n).fd s' := by
  obtain ⟨revents, hr, hzero⟩ := h
  obtain ⟨hfds, -, hclosed⟩ := kicks_spec (l := slots) (pollr_eq_zero.mp hzero)
  have hloop : (socketloop r s).2 = slots.foldl kick (polled revents s) := by
    unfold socketloop
    rw [hr]
    exact congrArg Prod.snd (if_pos hzero)
  rw [← next_eq hs', hloop]
  exact ⟨by rw [hfds]; rfl, hclosed n (mem_slots.mpr hn) hfd⟩

/-- **Kicked for good**: once a timeout has kicked the client in a slot, and for as long as
`accept` does not give out its number again, the slot keeps the closed descriptor, so that no
client gets it, and `poll` never times out again. -/
theorem kicked_for_good (sockfd : ℤ) (pre : List Round) (r : Round) (post : List Round)
    {s s' : State} (hs : runs next pre (start sockfd) = some s) (hidle : Idle r s) {n : Slot}
    (hn : n ≠ 0)
    (hfd : (s.fds n).fd ≠ -1) (hother : ∀ r' ∈ post, r'.accept ≠ (s.fds n).fd)
    (hs' : runs next (r :: post) s = some s') :
    (s'.fds n).fd = (s.fds n).fd ∧ s'.kernel.file (s.fds n).fd = none ∧ ∀ r', ¬ Idle r' s' := by
  have hpos : 0 ≤ (s.fds n).fd := by
    have := (runs_kept hs).number n hn
    omega
  obtain ⟨s₁, h₁, hrest⟩ := Option.bind_eq_some_iff.mp hs'
  have hend : Dead n (s.fds n).fd s' := runs_dead (kicked_dead hidle hn hfd h₁) hn hpos hother hrest
  exact ⟨hend.slot, hend.closed, fun r' => not_idle hend hn hpos⟩

/-- After the only client was kicked nothing else happens. -/
theorem kicked_alone :
    ∃ s s', runs next [connects] (start 3) = some s ∧ (s.fds 1).fd = 4 ∧
      runs next [timesOut, timesOut] s = some s' ∧ (s'.fds 1).fd = 4 ∧ ¬ Idle timesOut s' := by
  have hrun : (runs next [connects] (start 3)).map (fun s =>
      ((s.fds 1).fd, decide (pollr (polled (fun _ => 0) s) = 0),
        (runs next [timesOut, timesOut] s).isSome)) = some (4, true, true) := by decide +kernel
  obtain ⟨s, hs, he⟩ := Option.map_eq_some_iff.mp hrun
  obtain ⟨hfd, hzero, hsome⟩ : (s.fds 1).fd = 4 ∧ pollr (polled (fun _ => 0) s) = 0 ∧
      (runs next [timesOut, timesOut] s).isSome = true := by
    simpa using he
  obtain ⟨s', hs'⟩ := Option.isSome_iff_exists.mp hsome
  obtain ⟨hslot, -, hnever⟩ := kicked_for_good 3 [connects] timesOut [timesOut] hs ⟨_, rfl, hzero⟩
    (n := 1) (by decide) (by rw [hfd]; decide) (by rw [hfd]; decide) hs'
  exact ⟨s, s', hs, hfd, hs', hslot.trans hfd, hnever timesOut⟩

end Csockets.PollAccount
