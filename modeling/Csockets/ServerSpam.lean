import Csockets.ServerTimeouts

/-!
The spam limit: one accepted message for each peer and window of two seconds.

The limit rests on the entry of the peer, which other peers' messages can remove. Entries that
know the time of the latest message are removed when that is stale only, and a stale message is
in an earlier window.
-/

namespace Csockets.ServerSpam

open Chain Runs NetModel UsersModel UsersList UsersRefine ServerModel ServerLog ServerList
  Deliveries ServerRules ServerTable ServerTimeouts

/-- A message is accepted exactly when the log has no earlier one of its sender in its window. -/
def LimitRecord (past : List Event) : Event → Prop
  | .update u r =>
    r = 0 ↔ ∀ v ∈ accepted past, peer v = peer u → v.lastMsg / 2 ≠ u.lastMsg / 2
  | _ => True

/-- A message that came at a reading of the clock no later than `now`. -/
structure Timed (now : ℤ) (v : UserData) : Prop where
  nonneg : 0 ≤ v.lastMsg
  window : v.lastMsgXs = v.lastMsg.tdiv 2 * 2
  le : v.lastMsg ≤ now

lemma Timed.mono {now later : ℤ} {v : UserData} (h : Timed now v) (hle : now ≤ later) :
    Timed later v := ⟨h.nonneg, h.window, h.le.trans hle⟩

lemma Timed.window_eq_iff {now later : ℤ} {v w : UserData} (hv : Timed now v) (hw : Timed later w) :
    v.lastMsgXs = w.lastMsgXs ↔ v.lastMsg / 2 = w.lastMsg / 2 := by
  rw [hv.window, hw.window, Int.tdiv_eq_ediv_of_nonneg hv.nonneg,
    Int.tdiv_eq_ediv_of_nonneg hw.nonneg]
  omega

/-- The accepted messages at a time when the clock reads `now`: a peer's current message is its
newest, and a peer that was kicked has none that is not stale. -/
structure History (now : ℤ) (log : List Event) : Prop where
  timed : ∀ v ∈ accepted log, Timed now v
  newest : ∀ v ∈ accepted log, ∀ w, current (peer v) log = some w → v.lastMsg ≤ w.lastMsg
  gone : ∀ v ∈ accepted log, current (peer v) log = none → v.lastMsg + ACTUSER_TIMEOUT < now

/-- The message that is being handled: the newest of all, and later than a stale one if its
sender was kicked. -/
structure Arrived (now : ℤ) (u : UserData) (log : List Event) : Prop where
  timed : Timed now u
  newest : ∀ v ∈ accepted log, v.lastMsg ≤ u.lastMsg
  gone : current (peer u) log = none →
    ∀ v ∈ accepted log, peer v = peer u → v.lastMsg + ACTUSER_TIMEOUT < u.lastMsg

variable {now later : ℤ} {u : UserData} {log l : List Event}

lemma History.quiet (h : History now log) (hle : now ≤ later)
    (hl : ∀ p, ∀ e ∈ l, touch p e = none) (ha : accepted l = []) : History later (log ++ l) where
  timed v hv := by
    rw [accepted_append, ha, List.append_nil] at hv
    exact (h.timed v hv).mono hle
  newest v hv := by
    rw [accepted_append, ha, List.append_nil] at hv
    rw [current_append_untouched (hl _)]
    exact h.newest v hv
  gone v hv := by
    rw [accepted_append, ha, List.append_nil] at hv
    rw [current_append_untouched (hl _)]
    intro hc
    have := h.gone v hv hc
    omega

lemma Arrived.quiet (h : Arrived now u log) (hle : now ≤ later)
    (hl : ∀ e ∈ l, touch (peer u) e = none) (ha : accepted l = []) :
    Arrived later u (log ++ l) where
  timed := h.timed.mono hle
  newest v hv := by
    rw [accepted_append, ha, List.append_nil] at hv
    exact h.newest v hv
  gone hc v hv := by
    rw [accepted_append, ha, List.append_nil] at hv
    rw [current_append_untouched hl] at hc
    exact h.gone hc v hv

lemma History.arrive (h : History now log) (u : UserData) (hnow : 0 ≤ now) :
    Arrived now (stamp u now) log where
  timed := ⟨hnow, rfl, le_rfl⟩
  newest v hv := (h.timed v hv).le
  gone hc v hv hp := h.gone v hv (by rw [hp]; exact hc)

lemma History.kick (h : History now log) {e w : UserData} (hw : current (peer e) log = some w)
    (hlast : e.lastMsg = w.lastMsg) (hstale : e.lastMsg + ACTUSER_TIMEOUT < now) :
    History now (log ++ [.timeoutFunc e]) where
  timed v hv := h.timed v (by simpa [accepted, acceptedOf] using hv)
  newest v hv x hx := by
    rw [current_timeoutFunc] at hx
    split at hx
    · cases hx
    · exact h.newest v (by simpa [accepted, acceptedOf] using hv) x hx
  gone v hv hc := by
    have hv : v ∈ accepted log := by simpa [accepted, acceptedOf] using hv
    rw [current_timeoutFunc] at hc
    split at hc
    · rename_i hp
      have := h.newest v hv w (by rw [← hp]; exact hw)
      omega
    · exact h.gone v hv hc

lemma History.accept (h : History now log) (hu : Arrived now u log) :
    History now (log ++ [.update u 0]) where
  timed v hv := by
    rcases List.mem_append.mp (accepted_append log _ ▸ hv) with hv | hv
    · exact h.timed v hv
    · rw [List.mem_singleton.mp hv]
      exact hu.timed
  newest v hv w hw := by
    rw [current_update] at hw
    rcases List.mem_append.mp (accepted_append log _ ▸ hv) with hv | hv
    · split at hw
      · cases hw
        exact hu.newest v hv
      · exact h.newest v hv w hw
    · rw [List.mem_singleton.mp hv, if_pos rfl] at hw
      cases hw
      rw [List.mem_singleton.mp hv]
  gone v hv hc := by
    rw [current_update] at hc
    split at hc
    · cases hc
    · rename_i hp
      rcases List.mem_append.mp (accepted_append log _ ▸ hv) with hv | hv
      · exact h.gone v hv hc
      · exact absurd (by rw [List.mem_singleton.mp hv]) hp

def Kept (sys : Sys) (L : List Entry) (k : ℕ) (log : List Event) : Prop :=
  Good (¬ False) L log ∧ History (sys.time k) log

def Handling (sys : Sys) (u : UserData) (L : List Entry) (k : ℕ) (log : List Event) : Prop :=
  (Good (¬ False) L log ∧ IsPeer u.addr) ∧ History (sys.time k) log ∧ Arrived (sys.time k) u log

lemma historyRules {sys : Sys} (hmono : Monotone sys.time) (hnonneg : ∀ n, 0 ≤ sys.time n) :
    Rules sys ACTUSER_TIMEOUT False (Kept sys) (Handling sys) where
  arrive := by
    rintro L k log sfd name user ⟨hg, hh⟩ hc
    have hle : sys.time k ≤ sys.time (k + 1) := hmono k.le_succ
    refine ⟨(goodRules sys ACTUSER_TIMEOUT False).arrive hg hc,
      hh.quiet hle (by simp [touch]) rfl, ?_⟩
    exact (hh.arrive user (hnonneg k)).quiet hle (by simp [touch]) rfl
  check := by
    rintro u L k log ⟨hg, hh, hu⟩
    have hle : sys.time k ≤ sys.time (k + 1) := hmono k.le_succ
    exact ⟨(goodRules sys ACTUSER_TIMEOUT False).check hg, hh.quiet hle (by simp [touch]) rfl,
      hu.quiet hle (by simp [touch]) rfl⟩
  kick := by
    rintro u D e l k log n ⟨hg, hh, hu⟩ hs hstale
    have hle : sys.time k ≤ sys.time (k + 1) := hmono k.le_succ
    have hne : peer e.2 ≠ peer u := fun hp => by
      simp [(same_iff hg.2 (hg.1.peers e (by simp))).mpr hp] at hs
    obtain ⟨w, hw, ht⟩ := hg.1.tracks e (by simp)
    have hnotices : accepted (List.replicate n (Event.notice (noticeTo e.2))) = [] :=
      List.filterMap_eq_nil_iff.mpr fun x hx => by rw [(List.mem_replicate.mp hx).2]; rfl
    have hw' : current (peer e.2) (log ++ [.time (sys.time k)]) = some w := by
      rw [current_append_untouched (by simp [touch]), hw]
    refine ⟨(goodRules sys ACTUSER_TIMEOUT False).kick n hg hs hstale, ?_, ?_⟩
    · exact ((hh.quiet le_rfl (by simp [touch]) rfl).kick hw' (ht.lastMsg not_false) hstale).quiet
        hle (fun _ => touch_notices) hnotices
    · exact ((hu.quiet le_rfl (by simp [touch]) rfl).quiet le_rfl (by simp [touch, hne]) rfl).quiet
        hle touch_notices hnotices
  reject := by
    rintro u A e X k log ⟨hg, hh, -⟩ hs hsp
    exact ⟨(goodRules sys ACTUSER_TIMEOUT False).reject (k := k) hg hs hsp,
      hh.quiet le_rfl (by simp [touch]) rfl⟩
  refresh := by
    rintro u A e X k log ⟨hg, hh, hu⟩ hs hsp ht
    exact ⟨(goodRules sys ACTUSER_TIMEOUT False).refresh (k := k) hg hs hsp ht, hh.accept hu⟩
  full := by
    rintro u L k log j ⟨hg, hh, -⟩ hs hm
    exact ⟨(goodRules sys ACTUSER_TIMEOUT False).full (k := k) j hg hs hm,
      hh.quiet le_rfl (by simp [touch]) rfl⟩
  join := by
    rintro u L k log fresh ⟨hg, hh, hu⟩ hs
    exact ⟨(goodRules sys ACTUSER_TIMEOUT False).join (k := k) fresh hg hs, hh.accept hu⟩
  say := by
    rintro L k log u data ⟨hg, hh⟩
    have hchats : accepted (L.map fun e => .chat (chatTo u data e.2)) = [] :=
      List.filterMap_eq_nil_iff.mpr fun x hx => by
        obtain ⟨e, -, rfl⟩ := List.mem_map.mp hx
        rfl
    exact ⟨(goodRules sys ACTUSER_TIMEOUT False).say (k := k) u data hg,
      hh.quiet le_rfl (fun _ => touch_chats) hchats⟩

lemma limitChecks {sys : Sys} (hmalloc : ∀ n, sys.malloc n = true) :
    Checks sys ACTUSER_TIMEOUT False (Kept sys) (Handling sys) LimitRecord where
  time _ _ := trivial
  notice _ _ := trivial
  kick _ _ _ := trivial
  reject := by
    rintro u A e X k log ⟨hg, hh, hu⟩ hs hsp
    obtain ⟨w, hw, ht⟩ := hg.1.tracks e (by simp)
    obtain ⟨hmem, hp⟩ := mem_of_latest (latest_of_current hw)
    have hpu := (same_iff hg.2 (hg.1.peers e (by simp))).mp hs
    have hwindow : w.lastMsg / 2 = u.lastMsg / 2 := by
      rcases of_decide_eq_true hsp with he | he
      · rw [← ht.lastMsg not_false, he]
      · exact ((hh.timed w hmem).window_eq_iff hu.timed).mp (ht.lastMsgXs ▸ he)
    exact iff_of_false one_ne_zero fun hall => hall w hmem (hp.trans hpu) hwindow
  refresh := by
    rintro u A e X k log ⟨hg, hh, hu⟩ hs hsp -
    obtain ⟨w, hw, ht⟩ := hg.1.tracks e (by simp)
    obtain ⟨hmem, -⟩ := mem_of_latest (latest_of_current hw)
    have hpu := (same_iff hg.2 (hg.1.peers e (by simp))).mp hs
    refine iff_of_true rfl fun v hv hvu heq => ?_
    -- the newest message lies between that one and this one
    have hvw : v.lastMsg ≤ w.lastMsg := hh.newest v hv w (by rw [hvu, ← hpu]; exact hw)
    have hwu : w.lastMsg ≤ u.lastMsg := hu.newest w hmem
    have hwindow : w.lastMsg / 2 = u.lastMsg / 2 := by omega
    have hxs := ((hh.timed w hmem).window_eq_iff hu.timed).mpr hwindow
    exact of_decide_eq_false hsp (Or.inr (ht.lastMsgXs.trans hxs))
  full := by
    intro u L k log j _ _ hm
    rw [hmalloc j] at hm
    cases hm
  join := by
    rintro u L k log ⟨hg, -, hu⟩ hs
    have hnone : current (peer u) log = none := by
      rw [Option.eq_none_iff_forall_ne_some]
      intro w hw
      obtain ⟨e, he, hp⟩ := hg.1.complete _ w hw
      have := hs e he
      simp [(same_iff hg.2 (hg.1.peers e he)).mpr hp] at this
    refine iff_of_true rfl fun v hv hvu heq => ?_
    have := hu.gone hnone v hv hvu
    have h70 : ACTUSER_TIMEOUT = 70 := rfl
    omega
  say _ _ _ _ _ _ := trivial

lemma history_nil (now : ℤ) : History now [] where
  timed v hv := by cases hv
  newest v hv := by cases hv
  gone v hv := by cases hv

/-- A datagram is accepted exactly when no earlier one of its sender was accepted in the same two
seconds. -/
def Limit (past : List Delivery) (d : Delivery) : Prop :=
  d.ret = 0 ↔ ∀ v ∈ past, v.ret = 0 → v.peer = d.peer → v.time / 2 ≠ d.time / 2

instance (past : List Delivery) (d : Delivery) : Decidable (Limit past d) :=
  inferInstanceAs (Decidable (_ ↔ _))

lemma limit_of_record {past : List Event} {e : Event} {pre : List Delivery} {d : Delivery}
    (htold : updates past = pre.map Delivery.outcome) (he : updateOf e = some d.outcome)
    (h : LimitRecord past e) : Limit pre d := by
  cases e with
  | update u r =>
    cases he
    refine Iff.trans h ⟨fun hall v hv hret hpeer => ?_, fun hall w hw hpeer => ?_⟩
    · refine hall (v.user v.time) ?_ hpeer
      rw [accepted_told htold]
      exact List.mem_map_of_mem (List.mem_filter.mpr ⟨hv, decide_eq_true hret⟩)
    · rw [accepted_told htold] at hw
      obtain ⟨v, hv, rfl⟩ := List.mem_map.mp hw
      obtain ⟨hmem, hret⟩ := List.mem_filter.mp hv
      exact hall v hmem (of_decide_eq_true hret) hpeer
  | _ => cases he

/-- **The spam limit**: on a clock that does not go back, with memory to spare, in a run in which
no message is accepted at the last entry of the table, each non-empty datagram of a peer is
handled, in order, and accepted exactly when none of its sender was accepted in the same window
before. -/
theorem reachable_limit {sys : Sys} (hmono : Monotone sys.time) (hnonneg : ∀ n, 0 ≤ sys.time n)
    (hmalloc : ∀ n, sys.malloc n = true) {inputs : List Input}
    (h : Along (handle sys) (fun s input => tailAccept sys input s = false) inputs
      (started ACTUSER_TIMEOUT)) :
    ∃ s, runs (handle sys) inputs (started ACTUSER_TIMEOUT) = some s ∧
      ∃ ds, ds = history sys inputs (started ACTUSER_TIMEOUT) ∧
        ds.map Delivery.toDatagram = inputs.filterMap datagramOf ∧
        updates s.io.log = ds.map Delivery.outcome ∧ Always Limit [] ds := by
  have htail : Along (handle sys) (fun s input => tailAccept sys input s = true → False) inputs
      (started ACTUSER_TIMEOUT) := by simpa using h
  obtain ⟨s, L, hs, -, -, -, ha⟩ := ((historyRules hmono hnonneg).always
    (limitChecks hmalloc)).run ⟨⟨good_nil, history_nil _⟩, trivial⟩ htail
  obtain ⟨htold, hdatagrams⟩ := started_told hs
  exact ⟨s, hs, _, rfl, hdatagrams, htold,
    always_image htold (fun _ _ _ _ hpast he hP => limit_of_record hpast he hP) ha⟩

/-- A peer writes twice in a window, once in the next and again after it was kicked. -/
theorem limit_three_hosts :
    ∃ s, runs (handle (clocked [0, 1, 1, 2, 2, 4, 4, 100, 100, 101]))
        [hello 1, hello 1, hello 2, hello 3, hello 2, hello 2, hello 1]
        (started ACTUSER_TIMEOUT) = some s ∧
      ∃ ds, ds = history (clocked [0, 1, 1, 2, 2, 4, 4, 100, 100, 101])
          [hello 1, hello 1, hello 2, hello 3, hello 2, hello 2, hello 1]
          (started ACTUSER_TIMEOUT) ∧
        ds.map Delivery.toDatagram =
          [hello 1, hello 1, hello 2, hello 3, hello 2, hello 2, hello 1].filterMap datagramOf ∧
        updates s.io.log = ds.map Delivery.outcome ∧ Always Limit [] ds :=
  reachable_limit (by
      refine monotone_nat_of_le_succ fun n => ?_
      rcases n with _ | _ | _ | _ | _ | _ | _ | _ | _ | n <;> simp [clocked])
    (fun n => by rcases n with _ | _ | _ | _ | _ | _ | _ | _ | _ | _ | n <;> simp [clocked])
    (fun _ => rfl) (by decide +kernel)

/-- The peer that was kicked too early has two messages accepted in one window. -/
theorem not_limit_tailRun :
    ¬ ∀ (sys : Sys) (inputs : List Input), Monotone sys.time → (∀ n, 0 ≤ sys.time n) →
      (∀ n, sys.malloc n = true) →
      Always Limit [] (history sys inputs (started ACTUSER_TIMEOUT)) := by
  intro h
  have hnonneg : ∀ n, 0 ≤ tailSys.time n := fun n => by
    rcases n with _ | _ | _ | _ | n <;> simp [tailSys, clocked]
  have hfalse : decide (Always Limit []
      (history tailSys tailRun (started ACTUSER_TIMEOUT))) = false := by decide +kernel
  exact of_decide_eq_false hfalse (h tailSys tailRun tailSys_monotone hnonneg fun _ => rfl)

end Csockets.ServerSpam
