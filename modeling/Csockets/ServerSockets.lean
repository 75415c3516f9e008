import Csockets.ServerSends

/-!
The sockets of the server: it sends on no other than those that messages came in by. And when its
table has entries at all.
-/

namespace Csockets.ServerSockets

open Chain Runs NetModel UsersModel UsersList UsersRefine FormatterModel ServerModel ServerLog
  ServerList Deliveries ServerRules ServerTable ServerSends

def SendsOn (fds : List ℤ) : Event → Prop
  | .notice send => send.fd ∈ fds
  | .chat send => send.fd ∈ fds
  | _ => True

def CameBy (fds : List ℤ) (log : List Event) : Prop :=
  ∀ u r, Event.update u r ∈ log → u.recvFd ∈ fds

variable {sys : Sys} {fds : List ℤ} {log : List Event} {L : List Entry}

lemma CameBy.left {l : List Event} (h : CameBy fds (log ++ l)) : CameBy fds log :=
  fun u r hm => h u r (List.mem_append_left _ hm)

/-- As long as messages come in by these descriptors, entries and sends keep to them. -/
def Keeps (fds : List ℤ) (L : List Entry) (log : List Event) : Prop :=
  CameBy fds log → (∀ e ∈ L, e.2.recvFd ∈ fds) ∧ ∀ e ∈ log, SendsOn fds e

lemma Keeps.append (h : Keeps fds L log) {l : List Event}
    (hl : (∀ e ∈ L, e.2.recvFd ∈ fds) → ∀ e ∈ l, SendsOn fds e) : Keeps fds L (log ++ l) := by
  intro hcame
  obtain ⟨hL, hlog⟩ := h hcame.left
  refine ⟨hL, fun e he => ?_⟩
  rcases List.mem_append.mp he with he | he
  · exact hlog e he
  · exact hl hL e he

lemma Keeps.quiet (h : Keeps fds L log) (e : Event) (he : SendsOn fds e) :
    Keeps fds L (log ++ [e]) :=
  h.append fun _ x hx => by
    rw [List.mem_singleton.mp hx]
    exact he

lemma Keeps.entries {L' : List Entry} (h : Keeps fds L log)
    (hL : CameBy fds log → ∀ e ∈ L', e ∈ L ∨ e.2.recvFd ∈ fds) : Keeps fds L' log := by
  intro hcame
  obtain ⟨hfds, hlog⟩ := h hcame
  refine ⟨fun e he => ?_, hlog⟩
  rcases hL hcame e he with he | he
  · exact hfds e he
  · exact he

theorem keepsRules (sys : Sys) (timeout : ℤ) (fds : List ℤ) :
    Rules sys timeout True (fun L _ log => Keeps fds L log) (fun _ L _ log => Keeps fds L log) where
  arrive h _ := h.quiet (.time _) trivial
  check h := h.quiet (.time _) trivial
  kick := by
    intro u D e l k log n h _ _
    have hkick : Keeps fds (D ++ e :: l) (log ++ [.time (sys.time k)] ++ [.timeoutFunc e.2] ++
        List.replicate n (.notice (noticeTo e.2))) := by
      refine ((h.quiet (.time _) trivial).quiet (.timeoutFunc _) trivial).append fun hL x hx => ?_
      rw [(List.mem_replicate.mp hx).2]
      exact hL e (by simp)
    exact hkick.entries fun _ x hx => Or.inl (mem_middle.mpr (Or.inr hx))
  reject h _ _ := h.quiet (.update _ _) trivial
  refresh := by
    intro u A e X k log h _ _ _
    have hlog : Keeps fds (A ++ e :: X) (log ++ [.update u 0]) := h.quiet (.update _ _) trivial
    refine hlog.entries fun hcame x hx => ?_
    rcases mem_middle.mp hx with rfl | hx
    · exact Or.inr (hcame u 0 (by simp))
    · exact Or.inl (mem_middle.mpr (Or.inr hx))
  full _ h _ _ := h.quiet (.update _ _) trivial
  join := by
    intro u L k log fresh h _
    have hlog : Keeps fds L (log ++ [.update u 0]) := h.quiet (.update _ _) trivial
    refine hlog.entries fun hcame x hx => ?_
    rcases List.mem_append.mp hx with hx | hx
    · exact Or.inl hx
    · rw [List.mem_singleton.mp hx]
      exact Or.inr (hcame u 0 (by simp))
  say := by
    intro L k log u data h
    refine h.append fun hL x hx => ?_
    obtain ⟨e, he, rfl⟩ := List.mem_map.mp hx
    exact hL e he

/-! ### Where messages come in by -/

lemma arrival_recvFd {input : Input} {io : Io} {u : UserData} {data : List UInt8}
    (h : arrival sys input io = some (u, data)) : u.recvFd = input.sfd := by
  obtain ⟨name, user, -, -, hc, rfl⟩ := arrival_eq h
  unfold createUser at hc
  dsimp only at hc
  split at hc
  · cases hc
    rfl
  · split at hc
    · cases hc
      rfl
    · cases hc

lemma cameBy_of_sends {input : Input} {io : Io} {L' : List Entry} {ev : List Event}
    (h : Sends sys input io L' ev) (hfd : input.sfd ∈ fds) : CameBy fds ev := by
  intro v r hm
  cases h with
  | nothing => cases hm
  | rejected u data mid hu hmid =>
    rcases List.mem_append.mp hm with hm | hm
    · exact absurd rfl ((hmid _ hm).2 v r)
    · cases List.mem_singleton.mp hm
      exact (arrival_recvFd hu).symm ▸ hfd
  | accepted u data mid hu hmid =>
    rcases List.mem_append.mp hm with hm | hm
    · rcases List.mem_append.mp hm with hm | hm
      · exact absurd rfl ((hmid _ hm).2 v r)
      · cases List.mem_singleton.mp hm
        exact (arrival_recvFd hu).symm ▸ hfd
    · obtain ⟨e, -, he⟩ := List.mem_map.mp hm
      cases he

/-! ### When there are entries -/

lemma update_nil_iff {timeout : ℤ} {u : UserData} {fresh : ℕ} {L L' : List Entry} {io io' : Io}
    {r : ℤ} (h : update sys.world (timeoutFunc sys) timeout u fresh L io = some (r, L', io')) :
    L' = [] ↔ L = [] ∧ r = 1 := by
  by_cases hL : L = []
  · subst hL
    obtain ⟨e, X, A, hon, -⟩ | ⟨A, io₁, -, hs, -, hr⟩ := update_cases h
    · cases hon
    · cases hs
      rcases hr with ⟨-, rfl, rfl⟩ | ⟨-, rfl, rfl⟩ <;> simp
  · simp [hL, update_ne_nil h hL]

lemma accepted_update_log {timeout : ℤ} {u : UserData} {fresh : ℕ} {L L' : List Entry}
    {io io₁ : Io} {r : ℤ}
    (h : update sys.world (timeoutFunc sys) timeout u fresh L (sys.world.time io).2 =
      some (r, L', io₁)) : accepted io₁.log = accepted io.log := by
  obtain ⟨mid, hlog, hmid⟩ := update_log h
  have htime : (sys.world.time io).2.log = io.log ++ [.time (sys.time io.times)] := rfl
  rw [hlog, htime, accepted_append, accepted_append, accepted_ofTable hmid, List.append_nil]
  exact List.append_nil _

lemma handled_nil_iff {timeout : ℤ} {fresh : ℕ} {input : Input} {L L' : List Entry} {io io' : Io}
    (h : Handled sys timeout fresh input L io L' io') (hL : L = [] ↔ accepted io.log = []) :
    L' = [] ↔ accepted io'.log = [] := by
  cases h with
  | ignored => exact hL
  | rejected u data _ io₁ hu hup =>
    rw [update_nil_iff hup, hL, Io.record, accepted_append, accepted_update_log hup]
    simp [accepted, acceptedOf]
  | accepted u data _ io₁ f hu hup =>
    rw [update_nil_iff hup, accepted_append, accepted_append]
    simp [accepted, acceptedOf]

/-! ### Runs -/

structure Served (fds : List ℤ) (s : Server) (L : List Entry) : Prop where
  rep : Rep s L
  timeout : s.table.timeout = ACTUSER_TIMEOUT
  good : Good False L s.io.log
  entries : ∀ e ∈ L, e.2.recvFd ∈ fds
  sends : ∀ e ∈ s.io.log, SendsOn fds e
  nil_iff : L = [] ↔ accepted s.io.log = []

variable (sys) in
lemma runs_cameBy {inputs : List Input} (hin : ∀ input ∈ inputs, input.sfd ∈ fds) {s : Server}
    (hrep : Rep s L) (hcame : CameBy fds s.io.log) (hnil : L = [] ↔ accepted s.io.log = []) :
    ∃ s' L', runs (handle sys) inputs s = some s' ∧ Rep s' L' ∧ CameBy fds s'.io.log ∧
      (L' = [] ↔ accepted s'.io.log = []) := by
  induction inputs generalizing s L with
  | nil => exact ⟨s, L, rfl, hrep, hcame, hnil⟩
  | cons input inputs ih =>
    obtain ⟨s₁, L₁, hs₁, hrep₁, -, hh⟩ := handle_spec sys input hrep
    obtain ⟨ev, hlog, hsends⟩ := sends_of_handled hh
    have hcame₁ : CameBy fds s₁.io.log := by
      intro u r hm
      rw [hlog] at hm
      rcases List.mem_append.mp hm with hm | hm
      · exact hcame u r hm
      · exact cameBy_of_sends hsends (hin input (by simp)) u r hm
    obtain ⟨s', L', hs', h'⟩ :=
      ih (fun i hi => hin i (by simp [hi])) hrep₁ hcame₁ (handled_nil_iff hh hnil)
    exact ⟨s', L', by rw [runs_cons hs₁, hs'], h'⟩

/-- **A server keeps to its sockets**: behind any messages by these descriptors it runs on, with
one entry for each peer, all of them reached by these descriptors, and none exactly if no message
was accepted. -/
theorem runs_served (sys : Sys) {fds : List ℤ} {inputs : List Input}
    (hin : ∀ input ∈ inputs, input.sfd ∈ fds) :
    ∃ s L, runs (handle sys) inputs (started ACTUSER_TIMEOUT) = some s ∧ Served fds s L := by
  obtain ⟨s, L, hs, hrep, htime, hgood⟩ := (goodRules sys ACTUSER_TIMEOUT True).run good_nil
    (along_all (fun _ _ _ => trivial) inputs _)
  have hkeeps₀ : Keeps fds [] [] := fun _ => ⟨by simp, by simp⟩
  obtain ⟨s₁, L₁, hs₁, hrep₁, -, hkeeps⟩ := (keepsRules sys ACTUSER_TIMEOUT fds).run hkeeps₀
    (along_all (fun _ _ _ => trivial) inputs _)
  have hcame₀ : CameBy fds (started ACTUSER_TIMEOUT).io.log := fun _ _ hm => by cases hm
  obtain ⟨s₂, L₂, hs₂, hrep₂, hcame, hnil⟩ :=
    runs_cameBy sys hin (s := started ACTUSER_TIMEOUT) (L := []) Holds.empty hcame₀
      (by simp [started, userTableInit, boot, accepted])
  cases hs.symm.trans hs₁
  cases hs.symm.trans hs₂
  obtain rfl := hrep.unique hrep₁
  obtain rfl := hrep.unique hrep₂
  obtain ⟨hentries, hsends⟩ := hkeeps hcame
  refine ⟨s, L, hs, hrep, htime, ?_, hentries, hsends, hnil⟩
  rw [not_true] at hgood
  exact hgood

end Csockets.ServerSockets
