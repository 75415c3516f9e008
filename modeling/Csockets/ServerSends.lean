import Csockets.ServerTable
import Csockets.UserIds

/-!
What a call of `msg_handle` sends: nothing, or one chat line to each entry of the table.
-/

namespace Csockets.ServerSends

open Chain Runs NetModel UsersModel UsersList UsersRefine FormatterModel ServerModel ServerLog
  ServerList Deliveries ServerRules ServerTable UserIds

variable {sys : Sys}

inductive Sends (sys : Sys) (input : Input) (io : Io) (L' : List Entry) : List Event → Prop
  | nothing (h : peerOf input = none) : Sends sys input io L' []
  | rejected (u : UserData) (data : List UInt8) (mid : List Event)
      (hu : arrival sys input io = some (u, data)) (hmid : ∀ e ∈ mid, OfTable e) :
      Sends sys input io L' (mid ++ [.update u 1])
  | accepted (u : UserData) (data : List UInt8) (mid : List Event)
      (hu : arrival sys input io = some (u, data)) (hmid : ∀ e ∈ mid, OfTable e) :
      Sends sys input io L'
        (mid ++ [.update u 0] ++ L'.map fun e => .chat (chatTo u data e.2))

lemma sends_of_handled {timeout : ℤ} {fresh : ℕ} {input : Input} {L L' : List Entry} {io io' : Io}
    (h : Handled sys timeout fresh input L io L' io') :
    ∃ ev, io'.log = io.log ++ ev ∧ Sends sys input io L' ev := by
  have htime : ∀ {mid : List Event}, (∀ e ∈ mid, OfTable e) →
      ∀ e ∈ Event.time (sys.time io.times) :: mid, OfTable e := by
    intro mid hmid e he
    rcases List.mem_cons.mp he with rfl | he
    · simp [OfTable, chatOf]
    · exact hmid e he
  cases h with
  | ignored hn => exact ⟨[], by simp, .nothing hn⟩
  | rejected u data _ io₁ hu hup =>
    obtain ⟨mid, hlog, hmid⟩ := update_log hup
    refine ⟨_, ?_, .rejected u data _ hu (htime hmid)⟩
    simp [Io.record, hlog, Sys.world]
  | accepted u data _ io₁ f hu hup =>
    obtain ⟨mid, hlog, hmid⟩ := update_log hup
    refine ⟨_, ?_, .accepted u data _ hu (htime hmid)⟩
    simp [Io.record, hlog, Sys.world]

lemma chats_map (u : UserData) (data : List UInt8) (L : List Entry) :
    chats (L.map fun e => .chat (chatTo u data e.2)) = L.map fun e => chatTo u data e.2 := by
  rw [chats, List.filterMap_map, ← List.filterMap_eq_map]
  rfl

lemma Sends.chats_eq {input : Input} {io : Io} {L' : List Entry} {ev : List Event}
    (h : Sends sys input io L' ev) :
    chats ev = [] ∨ ∃ u data, arrival sys input io = some (u, data) ∧ Event.update u 0 ∈ ev ∧
      chats ev = L'.map fun e => chatTo u data e.2 := by
  cases h with
  | nothing => exact Or.inl rfl
  | rejected u data mid hu hmid =>
    left
    rw [chats_append, chats_ofTable hmid]
    rfl
  | accepted u data mid hu hmid =>
    right
    refine ⟨u, data, hu, by simp, ?_⟩
    rw [chats_append, chats_append, chats_ofTable hmid, chats_map]
    rfl

/-! ### Failing `sendto` calls -/

/-- The same readings of the clock and the same allocations have been made. -/
structure Alike (io io₂ : Io) : Prop where
  times : io.times = io₂.times
  mallocs : io.mallocs = io₂.mallocs

variable (sendto : ℕ → ℤ)

def Sys.withSendto (sys : Sys) : Sys := { sys with sendto := sendto }

variable (sys) in
lemma Alike.time {io io₂ : Io} (h : Alike io io₂) :
    ((Sys.withSendto sendto sys).world.time io₂).1 = (sys.world.time io).1 ∧
      Alike (sys.world.time io).2 ((Sys.withSendto sendto sys).world.time io₂).2 := by
  refine ⟨congrArg sys.time h.times.symm, ⟨congrArg (· + 1) h.times, h.mallocs⟩⟩

variable (sys) in
lemma Alike.malloc {io io₂ : Io} (h : Alike io io₂) :
    ((Sys.withSendto sendto sys).world.malloc io₂).1 = (sys.world.malloc io).1 ∧
      Alike (sys.world.malloc io).2 ((Sys.withSendto sendto sys).world.malloc io₂).2 := by
  refine ⟨congrArg sys.malloc h.mallocs.symm, ⟨h.times, congrArg (· + 1) h.mallocs⟩⟩

lemma timeoutFunc_alike {u : UserData} {io io₂ io' : Io} (h : Alike io io₂)
    (hf : timeoutFunc sys u io = some io') :
    ∃ io₂', timeoutFunc (Sys.withSendto sendto sys) u io₂ = some io₂' ∧ Alike io' io₂' := by
  obtain ⟨f, k, -, hspec⟩ := timeoutFunc_spec sys u io
  obtain ⟨f₂, k₂, -, hspec₂⟩ := timeoutFunc_spec (Sys.withSendto sendto sys) u io₂
  rw [hspec] at hf
  cases hf
  exact ⟨_, hspec₂, h.times, h.mallocs⟩

/-- The entries a sweep leaves do not depend on the fate of the notices. -/
lemma sweep_alike {timeout : ℤ} {L L' : List Entry} {io io₂ io' : Io} (h : Alike io io₂)
    (hs : sweep sys.world (timeoutFunc sys) timeout L io = some (L', io')) :
    ∃ io₂', sweep (Sys.withSendto sendto sys).world (timeoutFunc (Sys.withSendto sendto sys))
      timeout L io₂ = some (L', io₂') ∧ Alike io' io₂' := by
  induction L generalizing L' io io₂ with
  | nil =>
    cases hs
    exact ⟨io₂, rfl, h⟩
  | cons e l ih =>
    obtain ⟨hnow, ht⟩ := h.time sys sendto
    rcases sweep_cons_iff.mp hs with ⟨hst, io₁, hf, hl⟩ | ⟨hst, l', rfl, hl⟩
    · obtain ⟨io₃, hf₃, h₃⟩ := timeoutFunc_alike sendto ht hf
      obtain ⟨io₂', hl₂, hal⟩ := ih h₃ hl
      exact ⟨io₂', sweep_cons_iff.mpr (Or.inl ⟨by rw [hnow]; exact hst, io₃, hf₃, hl₂⟩), hal⟩
    · obtain ⟨io₂', hl₂, hal⟩ := ih ht hl
      exact ⟨io₂', sweep_cons_iff.mpr (Or.inr ⟨by rw [hnow]; exact hst, l', rfl, hl₂⟩), hal⟩

lemma update_alike {timeout : ℤ} {u : UserData} {fresh : ℕ} {L L' : List Entry}
    {io io₂ io' : Io} {r : ℤ} (h : Alike io io₂)
    (hs : update sys.world (timeoutFunc sys) timeout u fresh L io = some (r, L', io')) :
    ∃ io₂', update (Sys.withSendto sendto sys).world (timeoutFunc (Sys.withSendto sendto sys))
      timeout u fresh L io₂ = some (r, L', io₂') := by
  rcases update_cases hs with ⟨e, X, A, hL, hA, hr⟩ | ⟨A, io₁, hL, hA, -, hr⟩
  · obtain ⟨io₂', hA₂, -⟩ := sweep_alike sendto h hA
    unfold update
    rw [hL]
    dsimp only
    rw [hA₂, Option.bind_eq_bind, Option.bind_some]
    rcases hr with ⟨hsp, rfl, rfl⟩ | ⟨hsp, rfl, rfl⟩
    · exact ⟨io₂', if_pos hsp⟩
    · exact ⟨io₂', if_neg (by simp [hsp])⟩
  · obtain ⟨io₂', hA₂, hal⟩ := sweep_alike sendto h hA
    obtain ⟨hm, -⟩ := hal.malloc sys sendto
    unfold update
    rw [hL]
    dsimp only
    rw [hA₂, Option.bind_eq_bind, Option.bind_some]
    dsimp only
    rw [hm]
    rcases hr with ⟨hok, rfl, rfl⟩ | ⟨hok, rfl, rfl⟩
    · exact ⟨_, if_neg (by simp [hok])⟩
    · exact ⟨_, if_pos hok⟩

lemma update_chats {timeout : ℤ} {u : UserData} {fresh : ℕ} {L L' : List Entry} {io io' : Io}
    {r : ℤ}
    (h : update sys.world (timeoutFunc sys) timeout u fresh L (sys.world.time io).2 =
      some (r, L', io')) : chats io'.log = chats io.log := by
  obtain ⟨mid, hlog, hmid⟩ := update_log h
  rw [hlog, chats_append, chats_ofTable hmid, List.append_nil]
  exact (chats_append ..).trans (List.append_nil _)

lemma handled_outcome {timeout : ℤ} {fresh : ℕ} {input : Input} {L L' : List Entry} {io io' : Io}
    (h : Handled sys timeout fresh input L io L' io') :
    (peerOf input = none ∧ L' = L ∧ chats io'.log = chats io.log) ∨
      ∃ u data r io₁, arrival sys input io = some (u, data) ∧
        update sys.world (timeoutFunc sys) timeout u fresh L (sys.world.time io).2 =
          some (r, L', io₁) ∧
        chats io'.log =
          chats io.log ++ if r = 0 then L'.map fun e => chatTo u data e.2 else [] := by
  cases h with
  | ignored hn => exact Or.inl ⟨hn, rfl, rfl⟩
  | rejected u data _ io₁ hu hup =>
    refine Or.inr ⟨u, data, 1, io₁, hu, hup, ?_⟩
    rw [← update_chats hup]
    exact chats_append ..
  | accepted u data _ io₁ f hu hup =>
    refine Or.inr ⟨u, data, 0, io₁, hu, hup, ?_⟩
    rw [← update_chats hup, chats_append, chats_append, chats_map, if_pos rfl]
    exact congrArg (· ++ _) (List.append_nil _)

/-- A call under other results of `sendto` leaves the same entries and sends the same lines. -/
lemma handled_withSendto {timeout : ℤ} {fresh : ℕ} {input : Input} {L L' L₂ : List Entry}
    {io io' io₂ : Io} (h : Handled sys timeout fresh input L io L' io')
    (h₂ : Handled (Sys.withSendto sendto sys) timeout fresh input L io L₂ io₂) :
    L₂ = L' ∧ chats io₂.log = chats io'.log := by
  rcases handled_outcome h with ⟨hn, rfl, hc⟩ | ⟨u, data, r, io₁, hu, hup, hc⟩
  · rcases handled_outcome h₂ with ⟨-, rfl, hc₂⟩ | ⟨u₂, data₂, r₂, io₃, hu₂, -, -⟩
    · exact ⟨rfl, hc₂.trans hc.symm⟩
    · rw [arrival, hn] at hu₂
      cases hu₂
  · rcases handled_outcome h₂ with ⟨hn, -, -⟩ | ⟨u₂, data₂, r₂, io₃, hu₂, hup₂, hc₂⟩
    · rw [arrival, hn] at hu
      cases hu
    · obtain ⟨io₄, hup'⟩ := update_alike sendto (Alike.time sys sendto ⟨rfl, rfl⟩).2 hup
      have harr : some (u, data) = some (u₂, data₂) := hu.symm.trans hu₂
      cases harr
      rw [hup'] at hup₂
      cases hup₂
      exact ⟨rfl, hc₂.trans hc.symm⟩

/-! ### Broadcasts -/

/-- A chat line goes to a peer whose message was accepted and that was not kicked since. -/
def Addressed (past : List Event) : Event → Prop
  | .chat send => (current (endpoint send.addr) past).isSome
  | _ => True

/-- What a call logs, on a server `s` whose entries it leaves as `L'`: nothing if there is no
datagram to handle; otherwise what the table does with the datagram, its result, and, if that is
0, one text for every entry. `ds` are the datagrams handled so far, with that of this call. -/
structure Broadcast (sys : Sys) (ds : List Delivery) (input : Input) (s : Server)
    (L' : List Entry) (ev : List Event) : Prop where
  silent : datagramOf input = none → ev = []
  told : ∀ d, datagramOf input = some d → ∃ ret s₁ mid text,
    tell sys d s = some (ret, s₁) ∧ Rep s₁ L' ∧ s₁.io.log = s.io.log ++ mid ∧ chats mid = [] ∧
    ev = mid ++ [.update (d.user (sys.world.time s.io).1) ret] ++
      (if ret = 0 then L'.map fun e => .chat ⟨e.2.recvFd, text, e.2.addr, e.2.addrLen⟩ else []) ∧
    (ret = 0 → ∃ e ∈ L', peer e.2 = d.peer)
  sockets : ∀ e ∈ L', ∃ d ∈ lastAccepted (peer e.2) ds, e.2.recvFd = d.sfd

lemma addressedChecks (sys : Sys) (timeout : ℤ) : Checks sys timeout True
    (fun L _ log => Good (¬ True) L log) (fun u L _ log => Good (¬ True) L log ∧ IsPeer u.addr)
    Addressed where
  time _ _ := trivial
  notice _ _ := trivial
  kick _ _ _ := trivial
  reject _ _ _ := trivial
  refresh _ _ _ _ := trivial
  full _ _ _ _ := trivial
  join _ _ := trivial
  say := by
    intro L k log e u data pre hg he hpre
    obtain ⟨v, hv, -⟩ := hg.tracks e he
    -- the chat lines before this one let nobody in or out
    have hcur : current (peer e.2) (log ++ pre) = some v := by
      rw [current_append_untouched, hv]
      intro x hx
      obtain ⟨y, rfl⟩ := hpre x hx
      rfl
    exact Option.isSome_iff_exists.mpr ⟨v, hcur⟩

lemma broadcast_of_handled {ds : List Delivery} {input : Input} {L L' : List Entry}
    {s s' : Server} (h : Rep s L)
    (hh : Handled sys s.table.timeout s.heap.next input L s.io L' s'.io) {timely : Prop}
    (hg : Good timely L' s'.io.log) (hds : updates s'.io.log = ds.map Delivery.outcome) :
    ∃ ev, s'.io.log = s.io.log ++ ev ∧ Broadcast sys ds input s L' ev := by
  have hsockets : ∀ e ∈ L', ∃ d ∈ lastAccepted (peer e.2) ds, e.2.recvFd = d.sfd := by
    intro e he
    obtain ⟨v, hv, ht⟩ := hg.tracks e he
    obtain ⟨d, hd, rfl⟩ := lastAccepted_told hds (latest_of_current hv)
    exact ⟨d, hd, ht.recvFd⟩
  obtain ⟨hd, -, hio⟩ | ⟨d, ret, s₁, mid, hd, ht, hrep, hlog₁, hmid, hlog⟩ := told_of_handled h hh
  · refine ⟨[], by rw [hio, List.append_nil], fun _ => rfl, fun d hd' => ?_, hsockets⟩
    rw [hd] at hd'
    cases hd'
  · refine ⟨_, hlog, fun hn => ?_, fun d' hd' => ?_, hsockets⟩
    · rw [hd] at hn
      cases hn
    · obtain rfl := Option.some.inj (hd.symm.trans hd')
      refine ⟨ret, s₁, mid, _, ht, hrep, hlog₁, chats_ofTable hmid, rfl, ?_⟩
      rintro rfl
      have hcur : current d.peer s'.io.log = some (d.user (sys.world.time s.io).1) := by
        rw [hlog, answers, if_pos rfl, ← List.append_assoc, ← List.append_assoc,
          current_append_untouched touch_chats, current_update]
        exact if_pos rfl
      exact hg.complete _ _ hcur

/-- **Broadcasts**: from every state a server reaches, every call sends nothing, or one line to
each entry if the table has taken its datagram, whatever becomes of the `sendto` calls; and no
chat line of a run goes to a peer that is not in. -/
theorem reachable_broadcast (sys : Sys) (timeout : ℤ) (inputs : List Input) :
    ∃ s, runs (handle sys) inputs (started timeout) = some s ∧
      updates s.io.log = (history sys inputs (started timeout)).map Delivery.outcome ∧
      Always Addressed [] s.io.log ∧
      ∀ input, ∃ s' L' ev, msgHandle sys input s = some (returned input, s') ∧ Rep s' L' ∧
        s'.io.log = s.io.log ++ ev ∧
        Broadcast sys (history sys (inputs ++ [input]) (started timeout)) input s L' ev ∧
        ∀ sendto, ∃ s₂ ev₂,
          msgHandle { sys with sendto := sendto } input s = some (returned input, s₂) ∧
            Rep s₂ L' ∧ s₂.io.log = s.io.log ++ ev₂ ∧ chats ev₂ = chats ev := by
  obtain ⟨s, L, hs, hrep, ht, hg, ha⟩ := ((goodRules sys timeout True).always
    (addressedChecks sys timeout)).run ⟨good_nil, trivial⟩
    (along_all (fun _ _ _ => trivial) inputs _)
  obtain ⟨htold, -⟩ := started_told hs
  refine ⟨s, hs, htold, ha, fun input => ?_⟩
  obtain ⟨s', L', hs', hrep', -, hh⟩ := msgHandle_spec sys input hrep
  have hg' : Good (¬ True) L' s'.io.log :=
    (goodRules sys timeout True).handled hrep ht (fun _ => trivial) hh hg
  have htold' : updates s'.io.log =
      (history sys (inputs ++ [input]) (started timeout)).map Delivery.outcome := by
    rw [(handled_told hrep hh).2, htold, history_snoc hs, List.map_append]
  obtain ⟨ev, hlog, hb⟩ := broadcast_of_handled hrep hh hg' htold'
  refine ⟨s', L', ev, hs', hrep', hlog, hb, fun sendto => ?_⟩
  obtain ⟨s₂, L₂, hs₂, hrep₂, -, hh₂⟩ := msgHandle_spec (Sys.withSendto sendto sys) input hrep
  obtain ⟨rfl, hc⟩ := handled_withSendto sendto hh hh₂
  obtain ⟨ev₂, hlog₂, -⟩ := sends_of_handled hh₂
  refine ⟨s₂, ev₂, hs₂, hrep₂, hlog₂, ?_⟩
  rw [hlog, hlog₂, chats_append, chats_append] at hc
  exact List.append_cancel_left hc

end Csockets.ServerSends
