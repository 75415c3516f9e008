import Csockets.ServerTable

/-!
Timeouts: a peer is kicked only when its latest accepted message is stale.

The one branch of `user_table_update` that breaks this is the one for a sender that has the last
entry of the table: it keeps the time of the message before.
-/

namespace Csockets.ServerTimeouts

open Bytes Chain Runs NetModel UsersModel UsersList UsersRefine ServerModel ServerLog ServerList
  Deliveries ServerRules ServerTable

/-- When a peer is kicked, the record of its latest accepted message is more than `timeout` seconds
older than the last reading of the clock. -/
def StaleRecord (timeout : ℤ) (past : List Event) : Event → Prop
  | .timeoutFunc u =>
    ∃ now ∈ clock past, ∃ v ∈ latest (peer u) past, v.lastMsg + timeout < now
  | _ => True

lemma staleChecks (sys : Sys) (timeout : ℤ) : Checks sys timeout False
    (fun L _ log => Good (¬ False) L log) (fun u L _ log => Good (¬ False) L log ∧ IsPeer u.addr)
    (StaleRecord timeout) where
  time _ _ := trivial
  notice _ _ := trivial
  kick := by
    intro u D e l k log h _ hstale
    obtain ⟨v, hv, ht⟩ := h.1.tracks e (by simp)
    have hlast : e.2.lastMsg = v.lastMsg := ht.lastMsg not_false
    have hcur : current (peer e.2) (log ++ [.time (sys.time k)]) = some v := by
      rw [current_append_untouched (by simp [touch]), hv]
    exact ⟨_, clock_snoc _, v, latest_of_current hcur, by omega⟩
  reject _ _ _ := trivial
  refresh _ _ _ _ := trivial
  full _ _ _ _ := trivial
  join _ _ := trivial
  say _ _ _ _ _ _ := trivial

/-- When a peer is kicked, its latest accepted datagram was handled more than `timeout` seconds
before the last reading of the clock. `ds` are the datagrams of the run; as many of them have
been handled before as there are results in the log. -/
def Stale (timeout : ℤ) (ds : List Delivery) (past : List Event) : Event → Prop
  | .timeoutFunc u => ∃ now ∈ clock past,
      ∃ d ∈ lastAccepted (peer u) (ds.take (updates past).length), d.time + timeout < now
  | _ => True

instance (timeout : ℤ) (ds : List Delivery) (past : List Event) :
    ∀ e, Decidable (Stale timeout ds past e)
  | .timeoutFunc u => inferInstanceAs (Decidable (∃ now ∈ clock past,
      ∃ d ∈ lastAccepted (peer u) (ds.take (updates past).length), d.time + timeout < now))
  | .time _ => isTrue trivial
  | .notice _ => isTrue trivial
  | .update _ _ => isTrue trivial
  | .chat _ => isTrue trivial

lemma stale_of_record {timeout : ℤ} {ds : List Delivery} {past post : List Event} {e : Event}
    (htold : updates (past ++ e :: post) = ds.map Delivery.outcome)
    (h : StaleRecord timeout past e) : Stale timeout ds past e := by
  cases e with
  | timeoutFunc u =>
    obtain ⟨now, hnow, v, hv, hlt⟩ := h
    obtain ⟨d, hd, rfl⟩ := lastAccepted_told (told_left htold) hv
    exact ⟨now, hnow, d, hd, hlt⟩
  | _ => trivial

/-- **Kicks**: in a run in which no message is accepted at the last entry of the table, every
kick is of a peer whose latest accepted datagram is stale, and every peer that was accepted and
not kicked since has an entry. -/
theorem reachable_stale (sys : Sys) (timeout : ℤ) {inputs : List Input}
    (h : Along (handle sys) (fun s input => tailAccept sys input s = false) inputs
      (started timeout)) :
    ∃ s L, runs (handle sys) inputs (started timeout) = some s ∧ Rep s L ∧
      updates s.io.log = (history sys inputs (started timeout)).map Delivery.outcome ∧
      Always (Stale timeout (history sys inputs (started timeout))) [] s.io.log ∧
      ∀ p u, current p s.io.log = some u → ∃ e ∈ L, peer e.2 = p := by
  have htail : Along (handle sys) (fun s input => tailAccept sys input s = true → False) inputs
      (started timeout) := by simpa using h
  obtain ⟨s, L, hs, hrep, -, hg, ha⟩ := ((goodRules sys timeout False).always
    (staleChecks sys timeout)).run ⟨good_nil, trivial⟩ htail
  obtain ⟨htold, -⟩ := started_told hs
  refine ⟨s, L, hs, hrep, htold, always_iff.mpr fun past e post hlog => ?_, hg.complete⟩
  rw [hlog] at htold
  exact stale_of_record htold (always_iff.mp ha past e post hlog)

/-! ### Runs -/

def host (n : UInt8) : Sockaddr where
  bytes := [2, 0, 0x30, 0x39, 10, 0, 0, n] ++ List.replicate 8 0
  inet _ := ⟨by simp [u16, AF_INET], rfl⟩
  inet6 h := by cases h

def hello (n : UInt8) : Input := ⟨3, .datagram (host n) ("hi\n".toList.map Char.toUInt8)⟩

/-- A system with memory to spare and the given readings of the clock. -/
def clocked (times : List ℤ) : Sys :=
  ⟨fun n => times.getD n (times.getLastD 0), fun _ => true, fun _ => 9⟩

/-- The second of three peers speaks up after the first has gone stale. -/
theorem stale_three_hosts :
    ∃ s L, runs (handle (clocked [0, 1, 2, 2, 100])) [hello 1, hello 2, hello 3, hello 2]
        (started 70) = some s ∧ Rep s L ∧
      updates s.io.log = (history (clocked [0, 1, 2, 2, 100])
        [hello 1, hello 2, hello 3, hello 2] (started 70)).map Delivery.outcome ∧
      Always (Stale 70 (history (clocked [0, 1, 2, 2, 100])
        [hello 1, hello 2, hello 3, hello 2] (started 70))) [] s.io.log ∧
      ∀ p u, current p s.io.log = some u → ∃ e ∈ L, peer e.2 = p :=
  reachable_stale (clocked [0, 1, 2, 2, 100]) 70 (by decide +kernel)

/-- The first peer's second message is accepted at the end of the table, at 100. -/
def tailRun : List Input := [hello 1, hello 1, hello 2, hello 2, hello 1]

def tailSys : Sys := clocked [0, 100, 100, 101]

lemma tailSys_monotone : Monotone tailSys.time := by
  refine monotone_nat_of_le_succ fun n => ?_
  rcases n with _ | _ | _ | n <;> simp [tailSys, clocked]

/-- That peer is kicked at 101. -/
theorem not_stale_tailRun :
    ¬ ∀ (sys : Sys) (timeout : ℤ) (inputs : List Input) (s : Server), Monotone sys.time →
      (∀ n, sys.malloc n = true) → runs (handle sys) inputs (started timeout) = some s →
        Always (Stale timeout (history sys inputs (started timeout))) [] s.io.log := by
  intro h
  have hrun : (runs (handle tailSys) tailRun (started 70)).map (fun s => decide
      (Always (Stale 70 (history tailSys tailRun (started 70))) [] s.io.log)) = some false := by
    decide +kernel
  obtain ⟨s, hs, hfalse⟩ := Option.map_eq_some_iff.mp hrun
  exact of_decide_eq_false hfalse (h tailSys 70 tailRun s tailSys_monotone (fun _ => rfl) hs)

end Csockets.ServerTimeouts
