import Csockets.Deliveries
import Csockets.ServerRules
import Csockets.UsersCall

/-!
The table over runs of `msg_handle`: it has one entry for every peer whose message was accepted
and that was not kicked since, and no other.
-/

namespace Csockets.ServerTable

open Chain Runs NetModel UsersModel UsersList UsersRefine FormatterModel ServerModel ServerLog
  ServerList ServerRules Deliveries

/-- An entry carries what the peer's latest message `u` brought; its time only if the table is
`timely`. -/
structure Tracks (timely : Prop) (u e : UserData) : Prop where
  recvFd : e.recvFd = u.recvFd
  id : e.id = u.id
  lastMsgXs : e.lastMsgXs = u.lastMsgXs
  lastMsg : timely → e.lastMsg = u.lastMsg

/-- The entries are those peers of the log that were accepted and not kicked since. -/
structure Good (timely : Prop) (L : List Entry) (log : List Event) : Prop where
  peers : ∀ e ∈ L, IsPeer e.2.addr
  distinct : (L.map fun e => peer e.2).Nodup
  tracks : ∀ e ∈ L, ∃ u, current (peer e.2) log = some u ∧ Tracks timely u e.2
  complete : ∀ p u, current p log = some u → ∃ e ∈ L, peer e.2 = p
  stored : ∀ e ∈ L, ∃ u ∈ accepted log, e.2.addr = u.addr ∧ e.2.addrLen = u.addrLen

lemma same_iff {u e : UserData} (hu : IsPeer u.addr) (he : IsPeer e.addr) :
    same u e = true ↔ peer e = peer u := by
  rw [same, decide_eq_true_iff]
  exact sockaddrCmp_eq_zero_iff he hu e.addrLen

lemma stamp_isPeer {sfd now : ℤ} {name : Sockaddr} {user : UserData}
    (h : createUser sfd name = some user) : IsPeer (stamp user now).addr := by
  unfold createUser at h
  dsimp only at h
  split at h
  · rename_i hl
    cases h
    exact isPeer_inet name hl
  · split at h
    · rename_i hl
      cases h
      exact isPeer_inet6 name hl
    · cases h

variable {timely : Prop} {L : List Entry} {log : List Event}

lemma mem_accepted_append {u : UserData} (hu : u ∈ accepted log) (l : List Event) :
    u ∈ accepted (log ++ l) := by
  rw [accepted_append]
  exact List.mem_append_left _ hu

lemma Good.quiet (h : Good timely L log) {l : List Event} (hl : ∀ p, ∀ e ∈ l, touch p e = none) :
    Good timely L (log ++ l) where
  peers := h.peers
  distinct := h.distinct
  tracks e he := by
    rw [current_append_untouched (hl _)]
    exact h.tracks e he
  complete p u hp := by
    rw [current_append_untouched (hl _)] at hp
    exact h.complete p u hp
  stored e he := by
    obtain ⟨u, hu, haddr⟩ := h.stored e he
    exact ⟨u, mem_accepted_append hu l, haddr⟩

lemma mem_middle {D l : List Entry} {e x : Entry} : x ∈ D ++ e :: l ↔ x = e ∨ x ∈ D ++ l :=
  List.perm_middle.mem_iff.trans List.mem_cons

lemma distinct_middle {D l : List Entry} {e : Entry} :
    ((D ++ e :: l).map fun x => peer x.2).Nodup ↔
      peer e.2 ∉ (D ++ l).map (fun x => peer x.2) ∧ ((D ++ l).map fun x => peer x.2).Nodup := by
  rw [List.map_append, List.map_cons, List.nodup_middle, List.nodup_cons, ← List.map_append]

lemma Good.peer_ne {D l : List Entry} {e x : Entry} (h : Good timely (D ++ e :: l) log)
    (hx : x ∈ D ++ l) : peer x.2 ≠ peer e.2 := by
  intro he
  have hnot := (distinct_middle.mp h.distinct).1
  rw [← he] at hnot
  exact hnot (List.mem_map_of_mem hx)

lemma Good.kick {D l : List Entry} {e : Entry} (h : Good timely (D ++ e :: l) log) :
    Good timely (D ++ l) (log ++ [.timeoutFunc e.2]) where
  peers x hx := h.peers x (mem_middle.mpr (Or.inr hx))
  distinct := (distinct_middle.mp h.distinct).2
  tracks x hx := by
    rw [current_timeoutFunc, if_neg (h.peer_ne hx).symm]
    exact h.tracks x (mem_middle.mpr (Or.inr hx))
  complete p u hp := by
    rw [current_timeoutFunc] at hp
    split at hp
    · cases hp
    · rename_i hne
      obtain ⟨x, hx, rfl⟩ := h.complete p u hp
      rcases mem_middle.mp hx with rfl | hx
      · exact absurd rfl hne
      · exact ⟨x, hx, rfl⟩
  stored x hx := by
    obtain ⟨u, hu, haddr⟩ := h.stored x (mem_middle.mpr (Or.inr hx))
    exact ⟨u, mem_accepted_append hu _, haddr⟩

lemma Good.refresh {A X : List Entry} {e : Entry} (h : Good timely (A ++ e :: X) log)
    {u : UserData} (hu : peer e.2 = peer u) {b : Bool} (hb : timely → b = false) :
    Good timely (A ++ (e.1, refresh b u e.2) :: X) (log ++ [.update u 0]) where
  peers x hx := by
    rcases mem_middle.mp hx with rfl | hx
    · exact h.peers e (mem_middle.mpr (Or.inl rfl))
    · exact h.peers x (mem_middle.mpr (Or.inr hx))
  distinct := by
    have hd := distinct_middle.mp h.distinct
    exact distinct_middle.mpr hd
  tracks x hx := by
    rw [current_update]
    rcases mem_middle.mp hx with rfl | hx
    · exact ⟨u, if_pos hu.symm, rfl, rfl, rfl, fun ht => by simp [UsersList.refresh, hb ht]⟩
    · rw [if_neg (hu ▸ (h.peer_ne hx).symm)]
      exact h.tracks x (mem_middle.mpr (Or.inr hx))
  complete p v hp := by
    have hold : ∃ x ∈ A ++ e :: X, peer x.2 = p := by
      rw [current_update] at hp
      split at hp
      · rename_i hup
        exact ⟨e, mem_middle.mpr (Or.inl rfl), hu.trans hup⟩
      · exact h.complete p v hp
    obtain ⟨x, hx, rfl⟩ := hold
    rcases mem_middle.mp hx with rfl | hx
    · exact ⟨(x.1, UsersList.refresh b u x.2), mem_middle.mpr (Or.inl rfl), rfl⟩
    · exact ⟨x, mem_middle.mpr (Or.inr hx), rfl⟩
  stored x hx := by
    have hold : ∃ y ∈ A ++ e :: X, x.2.addr = y.2.addr ∧ x.2.addrLen = y.2.addrLen := by
      rcases mem_middle.mp hx with rfl | hx
      · exact ⟨e, mem_middle.mpr (Or.inl rfl), rfl, rfl⟩
      · exact ⟨x, mem_middle.mpr (Or.inr hx), rfl, rfl⟩
    obtain ⟨y, hy, haddr, hlen⟩ := hold
    obtain ⟨v, hv, haddr', hlen'⟩ := h.stored y hy
    exact ⟨v, mem_accepted_append hv _, haddr.trans haddr', hlen.trans hlen'⟩

lemma Good.join (h : Good timely L log) {u : UserData} (hu : IsPeer u.addr)
    (hne : ∀ e ∈ L, peer e.2 ≠ peer u) (fresh : ℕ) :
    Good timely (L ++ [(fresh, u)]) (log ++ [.update u 0]) where
  peers x hx := by
    rcases List.mem_append.mp hx with hx | hx
    · exact h.peers x hx
    · rw [List.mem_singleton.mp hx]
      exact hu
  distinct := by
    rw [List.map_append, List.map_singleton, List.nodup_append]
    refine ⟨h.distinct, List.nodup_singleton _, fun a ha b hb => ?_⟩
    obtain ⟨e, he, rfl⟩ := List.mem_map.mp ha
    rw [List.mem_singleton.mp hb]
    exact hne e he
  tracks x hx := by
    rw [current_update]
    rcases List.mem_append.mp hx with hx | hx
    · rw [if_neg (hne x hx).symm]
      exact h.tracks x hx
    · rw [List.mem_singleton.mp hx]
      exact ⟨u, if_pos rfl, ⟨rfl, rfl, rfl, fun _ => rfl⟩⟩
  complete p v hp := by
    rw [current_update] at hp
    split at hp
    · rename_i hup
      exact ⟨(fresh, u), by simp, hup⟩
    · obtain ⟨e, he, rfl⟩ := h.complete p v hp
      exact ⟨e, List.mem_append_left _ he, rfl⟩
  stored x hx := by
    rcases List.mem_append.mp hx with hx | hx
    · obtain ⟨v, hv, haddr⟩ := h.stored x hx
      exact ⟨v, mem_accepted_append hv _, haddr⟩
    · rw [List.mem_singleton.mp hx]
      exact ⟨u, by simp [accepted, acceptedOf], rfl, rfl⟩

lemma good_nil : Good timely [] [] where
  peers e he := by cases he
  distinct := List.nodup_nil
  tracks e he := by cases he
  complete p u h := by cases h
  stored e he := by cases he

lemma touch_notices {p : Endpoint} {n : ℕ} {s : Send} :
    ∀ e ∈ List.replicate n (Event.notice s), touch p e = none := by
  intro e he
  rw [(List.mem_replicate.mp he).2]
  rfl

lemma touch_chats {p : Endpoint} {u : UserData} {data : List UInt8} :
    ∀ x ∈ L.map fun e => Event.chat (chatTo u data e.2), touch p x = none := by
  intro x hx
  obtain ⟨e, -, rfl⟩ := List.mem_map.mp hx
  rfl

theorem goodRules (sys : Sys) (timeout : ℤ) (tail : Prop) :
    Rules sys timeout tail (fun L _ log => Good (¬ tail) L log)
      (fun u L _ log => Good (¬ tail) L log ∧ IsPeer u.addr) where
  arrive h hc := ⟨h.quiet (by simp [touch]), stamp_isPeer hc⟩
  check h := ⟨h.1.quiet (by simp [touch]), h.2⟩
  kick n h _ _ := ⟨((h.1.quiet (by simp [touch])).kick).quiet fun _ => touch_notices, h.2⟩
  reject h _ _ := h.1.quiet (by simp [touch])
  refresh h hs _ ht := by
    refine h.1.refresh ((same_iff h.2 (h.1.peers _ (by simp))).mp hs) fun hn => ?_
    rw [List.isEmpty_eq_false_iff]
    exact fun hX => hn (ht hX)
  full _ h _ _ := h.1.quiet (by simp [touch])
  join fresh h hne := h.1.join h.2
    (fun e he hp => by simpa [(same_iff h.2 (h.1.peers e he)).mpr hp] using hne e he) fresh
  say u data h := h.quiet fun _ => touch_chats

/-- **One entry for a peer**: in every state a server reaches no two entries have the same
endpoint, each has the address of a datagram that was accepted, and it matches the record made of
a new datagram exactly when the endpoints agree. -/
theorem reachable_distinct (sys : Sys) (timeout : ℤ) (inputs : List Input) :
    ∃ s L, runs (handle sys) inputs (started timeout) = some s ∧ Rep s L ∧
      updates s.io.log = (history sys inputs (started timeout)).map Delivery.outcome ∧
      (L.map fun e => endpoint e.2.addr).Nodup ∧
      (∀ e ∈ L, ∃ d ∈ history sys inputs (started timeout), d.ret = 0 ∧
        e.2.addr = d.name.storage ∧ e.2.addrLen = d.name.bytes.length) ∧
      ∀ e ∈ L, ∀ input d, datagramOf input = some d →
        ∃ user, createUser d.sfd d.name = some user ∧ ∀ now,
          (sockaddrCmp e.2.addr (stamp user now).addr e.2.addrLen = 0 ↔
            endpoint e.2.addr = endpoint d.name.storage) := by
  obtain ⟨s, L, hs, hrep, -, hgood⟩ := (goodRules sys timeout True).run good_nil
    (along_all (fun _ _ _ => trivial) inputs _)
  obtain ⟨htold, -⟩ := started_told hs
  refine ⟨s, L, hs, hrep, htold, hgood.distinct, fun e he => ?_, fun e he input d hd => ?_⟩
  · obtain ⟨u, hu, haddr, hlen⟩ := hgood.stored e he
    rw [accepted_told htold] at hu
    obtain ⟨d, hd, rfl⟩ := List.mem_map.mp hu
    obtain ⟨hmem, hret⟩ := List.mem_filter.mp hd
    exact ⟨d, hmem, of_decide_eq_true hret, haddr, hlen⟩
  · obtain ⟨user, hcreate, huser⟩ := createUser_datagramOf hd
    refine ⟨user, hcreate, fun now => ?_⟩
    have hpeer : IsPeer (stamp user now).addr := stamp_isPeer hcreate
    rw [huser] at hpeer ⊢
    exact sockaddrCmp_eq_zero_iff (hgood.peers e he) hpeer _

lemma Good.oneEach (h : Good timely L log) : UsersCall.OneEach L := by
  refine UsersCall.oneEach_of_nodup (fun v hv => ?_) ?_
  · obtain ⟨e, he, rfl⟩ := List.mem_map.mp hv
    exact h.peers e he
  · rw [List.map_map]
    exact h.distinct

/-- In every state a server reaches the table is well-formed, with one entry for each peer. -/
theorem reachable_oneEach (sys : Sys) (timeout : ℤ) (inputs : List Input) :
    ∃ T : UsersCall.Table Io, runs (handle sys) inputs (started timeout) = some T.store ∧
      UsersCall.OneEach T.entries := by
  obtain ⟨s, L, hs, hrep, -, hgood⟩ := (goodRules sys timeout True).run good_nil
    (along_all (fun _ _ _ => trivial) inputs _)
  exact ⟨⟨s, L, hrep⟩, hs, hgood.oneEach⟩

/-- The entries are a map: one for each peer that has a datagram, with the socket it came in by,
its sender's id and its window of time. -/
def IsMap (L : List Entry) (datagram : Endpoint → Option Delivery) : Prop :=
  ∀ p, match datagram p with
    | none => ∀ e ∈ L, peer e.2 ≠ p
    | some d => ∃ A e B, L = A ++ e :: B ∧ peer e.2 = p ∧ (∀ x ∈ A ++ B, peer x.2 ≠ p) ∧
        e.2.recvFd = d.sfd ∧ e.2.id = d.id ∧ e.2.lastMsgXs = d.time.tdiv 2 * 2

/-- The latest accepted datagram of a peer that was not kicked since. -/
def member (ds : List Delivery) (log : List Event) (p : Endpoint) : Option Delivery :=
  if (current p log).isSome then lastAccepted p ds else none

lemma Good.isMap (h : Good timely L log) {ds : List Delivery}
    (htold : updates log = ds.map Delivery.outcome) : IsMap L (member ds log) := by
  intro p
  cases hcur : current p log with
  | none =>
    rw [member, hcur]
    intro e he hp
    obtain ⟨u, hu, -⟩ := h.tracks e he
    rw [hp, hcur] at hu
    cases hu
  | some u =>
    obtain ⟨d, hd, rfl⟩ := lastAccepted_told htold (latest_of_current hcur)
    rw [member, hcur, Option.isSome_some, if_pos rfl, hd]
    obtain ⟨e, he, hp⟩ := h.complete p _ hcur
    obtain ⟨v, hv, ht⟩ := h.tracks e he
    rw [hp, hcur, Option.some.injEq] at hv
    subst hv
    obtain ⟨A, B, rfl⟩ := List.append_of_mem he
    exact ⟨A, e, B, rfl, hp, fun x hx => hp ▸ h.peer_ne hx, ht.recvFd, ht.id, ht.lastMsgXs⟩

/-- **Who is in the table**: in every state a server reaches the table is the map of the peers
whose datagram was accepted and who were not kicked since, to their latest such datagram: one
entry for each of them, and no other. -/
theorem reachable_members (sys : Sys) (timeout : ℤ) (inputs : List Input) :
    ∃ s L, runs (handle sys) inputs (started timeout) = some s ∧ Rep s L ∧
      updates s.io.log = (history sys inputs (started timeout)).map Delivery.outcome ∧
      IsMap L (member (history sys inputs (started timeout)) s.io.log) := by
  obtain ⟨s, L, hs, hrep, -, hgood⟩ := (goodRules sys timeout True).run good_nil
    (along_all (fun _ _ _ => trivial) inputs _)
  obtain ⟨htold, -⟩ := started_told hs
  exact ⟨s, L, hs, hrep, htold, hgood.isMap htold⟩

end Csockets.ServerTable
