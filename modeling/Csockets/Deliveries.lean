import Csockets.ServerList

/-!
The datagrams of a run that get as far as the table: what came in, when it was handled and what
`user_table_update` made of it. They are told from the inputs and from the state in which a call
finds the server, whatever `msg_handle` makes of them; `runs_told` says that it hands the table
the records it should and takes the results for what they are.
-/

namespace Csockets.Deliveries

open Bytes Chain Runs NetModel UsersModel UsersList UsersRefine FormatterModel ServerModel
  ServerLog ServerList

/-- A datagram, the socket it came in by and the address of its sender. -/
structure Datagram where
  sfd : ℤ
  name : Sockaddr
  data : List UInt8

/-- A datagram that was handled: what the clock read then, and what `user_table_update` returned. -/
structure Delivery extends Datagram where
  time : ℤ
  ret : ℤ

def Datagram.peer (d : Datagram) : Endpoint := endpoint d.name.storage

def Datagram.family (d : Datagram) : ℕ :=
  if d.name.bytes.length = sizeofSockaddrIn then AF_INET else AF_INET6

def Datagram.id (d : Datagram) : UInt16 :=
  userCalculateId { (default : UserData) with addr := d.name.storage, addrFamily := d.family }

/-- The record of its sender, as the table is to be given it. -/
def Datagram.user (d : Datagram) (time : ℤ) : UserData where
  addr := d.name.storage
  addrLen := d.name.bytes.length
  addrFamily := d.family
  recvFd := d.sfd
  id := d.id
  lastMsg := time
  lastMsgXs := time.tdiv 2 * 2

def Delivery.outcome (d : Delivery) : UserData × ℤ := (d.user d.time, d.ret)

/-- Empty datagrams, and those from addresses that are neither IPv4 nor IPv6, are not handled. -/
def datagramOf (input : Input) : Option Datagram :=
  match input.recv with
  | .fail _ => none
  | .datagram name data =>
    if data = [] then none
    else if name.bytes.length = sizeofSockaddrIn ∨ name.bytes.length = sizeofSockaddrIn6 then
      some ⟨input.sfd, name, data⟩
    else none

variable (sys : Sys)

/-- What `user_table_update` does with a datagram, when the clock has been read. -/
def tell (d : Datagram) (s : Server) : Option (ℤ × Server) :=
  userTableUpdate sys.world (timeoutFunc sys) ⟨d.user (sys.world.time s.io).1, none, none⟩
    { s with io := (sys.world.time s.io).2 }

def deliver (input : Input) (s : Server) : Option Delivery := do
  let d ← datagramOf input
  let (ret, _) ← tell sys d s
  some { d with time := (sys.world.time s.io).1, ret := ret }

/-- The datagrams a run handles, in order. -/
def history : List Input → Server → List Delivery
  | [], _ => []
  | input :: inputs, s =>
    (deliver sys input s).toList ++ ((handle sys input s).map (history inputs)).getD []

/-- A peer's latest datagram that was accepted. -/
def lastAccepted (p : Endpoint) (ds : List Delivery) : Option Delivery :=
  (ds.filter fun d => d.ret = 0 ∧ d.peer = p).getLast?

def updateOf : Event → Option (UserData × ℤ)
  | .update u r => some (u, r)
  | _ => none

/-- The records that were handed to the table, with the results. -/
def updates (log : List Event) : List (UserData × ℤ) := log.filterMap updateOf

/-! ### The log and the datagrams -/

variable {log : List Event} {ds : List Delivery}

@[simp] lemma updates_append (l₁ l₂ : List Event) :
    updates (l₁ ++ l₂) = updates l₁ ++ updates l₂ := List.filterMap_append

lemma accepted_updates (log : List Event) :
    accepted log = ((updates log).filter fun x => x.2 = 0).map Prod.fst := by
  induction log with
  | nil => rfl
  | cons e log ih =>
    cases e with
    | update u r =>
      by_cases hr : r = 0
      · simpa [accepted, updates, acceptedOf, updateOf, hr] using ih
      · simpa [accepted, updates, acceptedOf, updateOf, hr] using ih
    | _ => exact ih

lemma accepted_told (h : updates log = ds.map Delivery.outcome) :
    accepted log = (ds.filter fun d => d.ret = 0).map fun d => d.user d.time := by
  rw [accepted_updates, h, List.filter_map, List.map_map]
  rfl

lemma told_left {l₁ l₂ : List Event} (h : updates (l₁ ++ l₂) = ds.map Delivery.outcome) :
    updates l₁ = (ds.take (updates l₁).length).map Delivery.outcome := by
  rw [List.map_take, ← h, updates_append, List.take_left]

lemma latest_told (h : updates log = ds.map Delivery.outcome) (p : Endpoint) :
    latest p log = (lastAccepted p ds).map fun d => d.user d.time := by
  have hpeer : ∀ d : Delivery, peer (d.user d.time) = d.peer := fun _ => rfl
  rw [latest, accepted_told h, List.filter_map, List.getLast?_map, List.filter_filter, lastAccepted]
  simp only [Function.comp_def, hpeer, Bool.and_comm, Bool.decide_and]

lemma lastAccepted_told (h : updates log = ds.map Delivery.outcome) {p : Endpoint} {u : UserData}
    (hu : latest p log = some u) : ∃ d ∈ lastAccepted p ds, d.user d.time = u := by
  rw [latest_told h] at hu
  exact Option.map_eq_some_iff.mp hu

/-! ### Calls -/

lemma createUser_datagramOf {input : Input} {d : Datagram} (h : datagramOf input = some d) :
    ∃ user, createUser d.sfd d.name = some user ∧ ∀ now, stamp user now = d.user now := by
  obtain ⟨sfd, recv⟩ := input
  cases recv with
  | fail errno => cases h
  | datagram name data =>
    unfold datagramOf at h
    dsimp only at h
    split at h
    · cases h
    · split at h
      · rename_i hlen
        cases h
        unfold createUser Datagram.user Datagram.id Datagram.family
        dsimp only
        by_cases h4 : name.bytes.length = sizeofSockaddrIn
        · rw [if_pos h4, if_pos h4]
          exact ⟨_, rfl, fun now => rfl⟩
        · rw [if_neg h4, if_pos (hlen.resolve_left h4), if_neg h4]
          exact ⟨_, rfl, fun now => rfl⟩
      · cases h

lemma peerOf_datagramOf {input : Input} {d : Datagram} (h : datagramOf input = some d) :
    peerOf input = (createUser d.sfd d.name).map fun u => (u, d.data) := by
  obtain ⟨sfd, recv⟩ := input
  cases recv with
  | fail errno => cases h
  | datagram name data =>
    unfold datagramOf at h
    dsimp only at h
    split at h
    · cases h
    · rename_i hd
      split at h
      · cases h
        exact if_neg hd
      · cases h

lemma peerOf_eq_none {input : Input} (h : datagramOf input = none) : peerOf input = none := by
  obtain ⟨sfd, recv⟩ := input
  cases recv with
  | fail errno => rfl
  | datagram name data =>
    unfold datagramOf at h
    unfold peerOf
    dsimp only at h ⊢
    by_cases hd : data = []
    · exact if_pos hd
    · rw [if_neg hd] at h ⊢
      split at h
      · cases h
      · rename_i hlen
        obtain ⟨h4, h6⟩ := not_or.mp hlen
        simp [createUser, h4, h6]

lemma peerOf_eq_none_iff {input : Input} : peerOf input = none ↔ datagramOf input = none := by
  refine ⟨fun h => ?_, peerOf_eq_none⟩
  cases hd : datagramOf input with
  | none => rfl
  | some d =>
    obtain ⟨user, hcreate, -⟩ := createUser_datagramOf hd
    rw [peerOf_datagramOf hd, hcreate] at h
    cases h

lemma arrival_datagram (input : Input) (io : Io) :
    arrival sys input io =
      (datagramOf input).map fun d => (d.user (sys.world.time io).1, d.data) := by
  cases hd : datagramOf input with
  | none =>
    rw [arrival, peerOf_eq_none hd]
    rfl
  | some d =>
    obtain ⟨user, hcreate, huser⟩ := createUser_datagramOf hd
    rw [arrival, peerOf_datagramOf hd, hcreate, Option.map_some, Option.map_some, huser]
    rfl

def OfTable (e : Event) : Prop := chatOf e = none ∧ ∀ u r, e ≠ .update u r

lemma chats_ofTable {l : List Event} (h : ∀ e ∈ l, OfTable e) : chats l = [] :=
  List.filterMap_eq_nil_iff.mpr fun e he => (h e he).1

lemma acceptedOf_ofTable {e : Event} (h : OfTable e) : acceptedOf e = none := by
  cases e with
  | update u r => exact absurd rfl (h.2 u r)
  | _ => rfl

lemma accepted_ofTable {l : List Event} (h : ∀ e ∈ l, OfTable e) : accepted l = [] :=
  List.filterMap_eq_nil_iff.mpr fun e he => acceptedOf_ofTable (h e he)

lemma updates_ofTable {l : List Event} (h : ∀ e ∈ l, OfTable e) : updates l = [] := by
  refine List.filterMap_eq_nil_iff.mpr fun e he => ?_
  cases e with
  | update u r => exact absurd rfl ((h _ he).2 u r)
  | _ => rfl

variable {sys} in
lemma sweep_log {timeout : ℤ} {L L' : List Entry} {io io' : Io}
    (h : sweep sys.world (timeoutFunc sys) timeout L io = some (L', io')) :
    ∃ mid, io'.log = io.log ++ mid ∧ ∀ e ∈ mid, OfTable e := by
  have hadd : ∀ {l l₁ : List Event} {base : List Event}, (∃ mid, l = base ++ mid ∧
      ∀ e ∈ mid, OfTable e) → (∀ e ∈ l₁, OfTable e) →
        ∃ mid, l ++ l₁ = base ++ mid ∧ ∀ e ∈ mid, OfTable e := by
    rintro l l₁ base ⟨mid, rfl, hmid⟩ hl
    refine ⟨mid ++ l₁, List.append_assoc .., fun e he => ?_⟩
    rcases List.mem_append.mp he with he | he
    · exact hmid e he
    · exact hl e he
  refine sweep_rule (P := fun _ (io₁ : Io) => ∃ mid, io₁.log = io.log ++ mid ∧
    ∀ e ∈ mid, OfTable e) (K := fun _ => True) ?_ ?_ [] [] (fun _ _ => trivial) h
    ⟨[], by simp⟩
  · intro L io₁ h₁
    exact hadd h₁ (by simp [OfTable, chatOf])
  · intro D e l io₁ io₂ h₁ _ _ hf
    obtain ⟨f, k, -, hspec⟩ := timeoutFunc_spec sys e.2 (sys.world.time io₁).2
    rw [hspec] at hf
    cases hf
    refine hadd (hadd (hadd h₁ ?_) ?_) ?_
    · simp [OfTable, chatOf]
    · simp [OfTable, chatOf]
    · intro x hx
      rw [(List.mem_replicate.mp hx).2]
      simp [OfTable, chatOf]

variable {sys} in
lemma update_log {timeout : ℤ} {u : UserData} {fresh : ℕ} {L L' : List Entry} {io io' : Io} {r : ℤ}
    (h : update sys.world (timeoutFunc sys) timeout u fresh L io = some (r, L', io')) :
    ∃ mid, io'.log = io.log ++ mid ∧ ∀ e ∈ mid, OfTable e := by
  rcases update_cases h with ⟨e, X, A, -, hs, -⟩ | ⟨A, io₁, -, hs, rfl, -⟩
  · exact sweep_log hs
  · -- the allocator leaves the log alone
    exact show ∃ mid, io₁.log = io.log ++ mid ∧ _ from sweep_log hs

lemma updates_chats (u : UserData) (data : List UInt8) (L : List Entry) :
    updates (L.map fun e => .chat (chatTo u data e.2)) = [] := by
  refine List.filterMap_eq_nil_iff.mpr fun x hx => ?_
  obtain ⟨e, -, rfl⟩ := List.mem_map.mp hx
  rfl

def answers (u : UserData) (data : List UInt8) (ret : ℤ) (L' : List Entry) : List Event :=
  if ret = 0 then L'.map fun e => .chat (chatTo u data e.2) else []

variable {sys} {input : Input} {s : Server} {L L' : List Entry}

/-- A call of `msg_handle`: what becomes of a datagram is what the table made of it. -/
lemma told_of_handled {io' : Io} (h : Rep s L)
    (hh : Handled sys s.table.timeout s.heap.next input L s.io L' io') :
    (datagramOf input = none ∧ L' = L ∧ io' = s.io) ∨
      ∃ d ret s₁ mid, datagramOf input = some d ∧ tell sys d s = some (ret, s₁) ∧ Rep s₁ L' ∧
        s₁.io.log = s.io.log ++ mid ∧ (∀ e ∈ mid, OfTable e) ∧
        io'.log = s.io.log ++ (mid ++ [.update (d.user (sys.world.time s.io).1) ret] ++
          answers (d.user (sys.world.time s.io).1) d.data ret L') := by
  have htell : ∀ {u data ret io₁}, arrival sys input s.io = some (u, data) →
      update sys.world (timeoutFunc sys) s.table.timeout u s.heap.next L
        (sys.world.time s.io).2 = some (ret, L', io₁) →
      ∃ d s₁ mid, datagramOf input = some d ∧ u = d.user (sys.world.time s.io).1 ∧
        data = d.data ∧ tell sys d s = some (ret, s₁) ∧ Rep s₁ L' ∧ s₁.io = io₁ ∧
        io₁.log = s.io.log ++ mid ∧ ∀ e ∈ mid, OfTable e := by
    intro u data ret io₁ hu hup
    rw [arrival_datagram] at hu
    obtain ⟨d, hd, he⟩ := Option.map_eq_some_iff.mp hu
    cases he
    obtain ⟨s₁, hs₁, hrep, hio, -⟩ :=
      userTableUpdate_spec (s := { s with io := (sys.world.time s.io).2 }) h hup
    obtain ⟨mid, hlog, hmid⟩ := update_log hup
    refine ⟨d, s₁, .time (sys.world.time s.io).1 :: mid, hd, rfl, rfl, hs₁, hrep, hio, ?_, ?_⟩
    · rw [hlog]
      exact List.append_assoc ..
    · intro e he
      rcases List.mem_cons.mp he with rfl | he
      · simp [OfTable, chatOf]
      · exact hmid e he
  cases hh with
  | ignored hn => exact Or.inl ⟨peerOf_eq_none_iff.mp hn, rfl, rfl⟩
  | rejected u data _ io₁ hu hup =>
    obtain ⟨d, s₁, mid, hd, rfl, rfl, ht, hrep, rfl, hlog, hmid⟩ := htell hu hup
    refine Or.inr ⟨d, 1, s₁, mid, hd, ht, hrep, hlog, hmid, ?_⟩
    simp [answers, Io.record, hlog]
  | accepted u data _ io₁ f hu hup =>
    obtain ⟨d, s₁, mid, hd, rfl, rfl, ht, hrep, rfl, hlog, hmid⟩ := htell hu hup
    refine Or.inr ⟨d, 0, s₁, mid, hd, ht, hrep, hlog, hmid, ?_⟩
    simp [answers, hlog]

lemma handled_told {io' : Io} (h : Rep s L)
    (hh : Handled sys s.table.timeout s.heap.next input L s.io L' io') :
    (deliver sys input s).map Delivery.toDatagram = datagramOf input ∧
      updates io'.log = updates s.io.log ++ (deliver sys input s).toList.map Delivery.outcome := by
  obtain ⟨hd, -, rfl⟩ | ⟨d, ret, s₁, mid, hd, ht, -, -, hmid, hlog⟩ := told_of_handled h hh
  · rw [deliver, hd]
    exact ⟨rfl, (List.append_nil _).symm⟩
  · have hanswers : updates (answers (d.user (sys.world.time s.io).1) d.data ret L') = [] := by
      unfold answers
      split
      · exact updates_chats _ _ _
      · rfl
    rw [deliver, hd, Option.bind_eq_bind, Option.bind_some, ht, hlog, updates_append,
      updates_append, updates_append, updates_ofTable hmid, hanswers, List.append_nil]
    exact ⟨rfl, rfl⟩

variable (sys) in
/-- **What the log says of the datagrams is right**: a run hands the table the record of each
datagram that it is to handle, in order, and the results in its log are those of the table. -/
theorem runs_told (inputs : List Input) (h : Rep s L) :
    ∃ s' L', runs (handle sys) inputs s = some s' ∧ Rep s' L' ∧
      updates s'.io.log = updates s.io.log ++ (history sys inputs s).map Delivery.outcome ∧
      (history sys inputs s).map Delivery.toDatagram = inputs.filterMap datagramOf := by
  induction inputs generalizing s L with
  | nil => exact ⟨s, L, rfl, h, (List.append_nil _).symm, rfl⟩
  | cons input inputs ih =>
    obtain ⟨s₁, L₁, hs₁, hrep₁, -, hh⟩ := handle_spec sys input h
    obtain ⟨hdatagram, htold⟩ := handled_told h hh
    obtain ⟨s', L', hs', hrep', htold', hdatagrams⟩ := ih hrep₁
    have hhistory : history sys (input :: inputs) s =
        (deliver sys input s).toList ++ history sys inputs s₁ := by
      rw [history, hs₁]
      rfl
    refine ⟨s', L', by rw [runs_cons hs₁, hs'], hrep', ?_, ?_⟩
    · rw [htold', htold, hhistory, List.map_append, List.append_assoc]
    · rw [hhistory, List.map_append, hdatagrams]
      cases hd : deliver sys input s <;> simp [← hdatagram, hd]

lemma history_snoc {inputs : List Input} {s s' : Server}
    (hs : runs (handle sys) inputs s = some s') (input : Input) :
    history sys (inputs ++ [input]) s = history sys inputs s ++ (deliver sys input s').toList := by
  induction inputs generalizing s with
  | nil =>
    cases hs
    have hnil : ((handle sys input s').map fun _ => ([] : List Delivery)).getD [] = [] := by
      cases handle sys input s' <;> rfl
    simpa [history] using hnil
  | cons i inputs ih =>
    obtain ⟨s₁, hs₁, hs'⟩ := Option.bind_eq_some_iff.mp hs
    rw [List.cons_append, history, history, hs₁, List.append_assoc]
    exact congrArg _ (ih hs')

lemma started_told {timeout : ℤ} {inputs : List Input}
    (hs : runs (handle sys) inputs (started timeout) = some s) :
    updates s.io.log = (history sys inputs (started timeout)).map Delivery.outcome ∧
      (history sys inputs (started timeout)).map Delivery.toDatagram =
        inputs.filterMap datagramOf := by
  obtain ⟨s', L', hs', -, htold, hdatagrams⟩ :=
    runs_told sys inputs (s := started timeout) Holds.empty
  rw [hs] at hs'
  cases hs'
  exact ⟨htold, hdatagrams⟩

end Csockets.Deliveries
