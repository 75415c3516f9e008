import Csockets.ServerSends

/-!
Whom the chat lines go to, told by the log alone: for each message that is accepted, to everybody
on the roster, in the order they came in. Kicks strike off the roster, accepted messages put on it.
-/

namespace Csockets.Rosters

open Runs Chain NetModel UsersModel UsersList UsersRefine FormatterModel ServerModel ServerLog
  ServerList Deliveries ServerRules ServerTable ServerSends

structure Contact where
  fd : ℤ
  addr : Storage
  addrLen : ℕ
  deriving DecidableEq

def Contact.ofUser (u : UserData) : Contact := ⟨u.recvFd, u.addr, u.addrLen⟩

def Contact.ofSend (s : Send) : Contact := ⟨s.fd, s.addr, s.addrLen⟩

def strike (u : UserData) (l : List Contact) : List Contact :=
  l.filter fun c => endpoint c.addr ≠ peer u

/-- Somebody who is on the roster keeps their place and is from now on reached by the socket of
this message; somebody who is not comes last. -/
def welcome (u : UserData) : List Contact → List Contact
  | [] => [.ofUser u]
  | c :: l => if endpoint c.addr = peer u then { c with fd := u.recvFd } :: l else c :: welcome u l

def enroll (l : List Contact) : Event → List Contact
  | .timeoutFunc u => strike u l
  | .update u r => if r = 0 then welcome u l else l
  | _ => l

def roster (log : List Event) : List Contact := log.foldl enroll []

def audience (l : List Contact) : Event → List Contact
  | .update u r => if r = 0 then welcome u l else []
  | _ => []

/-- Whom the accepted messages of a log are to go to, one after the other. -/
def recipients (log : List Event) : List Contact := outputs enroll audience [] log

lemma roster_snoc (log : List Event) (e : Event) :
    roster (log ++ [e]) = enroll (roster log) e := by
  rw [roster, List.foldl_append]
  rfl

/-! ### Nobody is on it twice -/

def peers (l : List Contact) : List Endpoint := l.map fun c => endpoint c.addr

lemma peers_welcome (u : UserData) (l : List Contact) :
    peers (welcome u l) = if peer u ∈ peers l then peers l else peers l ++ [peer u] := by
  induction l with
  | nil => rfl
  | cons c l ih =>
    by_cases hc : endpoint c.addr = peer u
    · simp [welcome, peers, hc]
    · have hmem : peer u ∈ peers (c :: l) ↔ peer u ∈ peers l := by
        simp [peers, Ne.symm hc]
      have hcons : peers (welcome u (c :: l)) = endpoint c.addr :: peers (welcome u l) := by
        rw [welcome, if_neg hc]
        rfl
      rw [hcons, ih]
      by_cases hu : peer u ∈ peers l
      · rw [if_pos hu, if_pos (hmem.mpr hu)]
        rfl
      · rw [if_neg hu, if_neg (mt hmem.mp hu)]
        rfl

lemma enroll_nodup {l : List Contact} (h : (peers l).Nodup) (e : Event) :
    (peers (enroll l e)).Nodup := by
  cases e with
  | timeoutFunc u => exact h.sublist (List.filter_sublist.map _)
  | update u r =>
    rw [enroll]
    split
    · rw [peers_welcome]
      split
      · exact h
      · rename_i hu
        rw [← List.concat_eq_append]
        exact h.concat hu
    · exact h
  | time t => exact h
  | notice s => exact h
  | chat s => exact h

lemma roster_nodup (log : List Event) : (peers (roster log)).Nodup := by
  induction log using List.reverseRecOn with
  | nil => exact List.nodup_nil
  | append_singleton log e ih =>
    rw [roster_snoc]
    exact enroll_nodup ih e

/-! ### The roster is the table -/

def contacts (L : List Entry) : List Contact := L.map fun e => .ofUser e.2

lemma contacts_append (L₁ L₂ : List Entry) : contacts (L₁ ++ L₂) = contacts L₁ ++ contacts L₂ :=
  List.map_append

lemma contacts_cons (e : Entry) (L : List Entry) :
    contacts (e :: L) = Contact.ofUser e.2 :: contacts L := rfl

lemma mem_contacts {L : List Entry} {c : Contact} (hc : c ∈ contacts L) :
    ∃ e ∈ L, endpoint c.addr = peer e.2 := by
  obtain ⟨e, he, rfl⟩ := List.mem_map.mp hc
  exact ⟨e, he, rfl⟩

lemma welcome_append {u : UserData} {l₁ : List Contact}
    (h : ∀ c ∈ l₁, endpoint c.addr ≠ peer u) (l₂ : List Contact) :
    welcome u (l₁ ++ l₂) = l₁ ++ welcome u l₂ := by
  induction l₁ with
  | nil => rfl
  | cons c l ih =>
    rw [List.cons_append, welcome, if_neg (h c (by simp)), ih fun x hx => h x (by simp [hx])]
    rfl

variable {timely : Prop} {L D A X l : List Entry} {log : List Event} {e : Entry} {u : UserData}

lemma strike_contacts (h : Good timely (D ++ e :: l) log) :
    strike e.2 (contacts (D ++ e :: l)) = contacts (D ++ l) := by
  have hkeep : strike e.2 (contacts (D ++ l)) = contacts (D ++ l) := by
    refine List.filter_eq_self.mpr fun c hc => ?_
    obtain ⟨x, hx, hpeer⟩ := mem_contacts hc
    simpa [hpeer] using h.peer_ne hx
  have hself : strike e.2 [Contact.ofUser e.2] = [] := by simp [strike, Contact.ofUser, peer]
  rw [← hkeep, contacts_append, contacts_append, contacts_cons]
  simp only [strike, List.filter_append] at hself ⊢
  rw [← List.singleton_append, List.filter_append, hself, List.nil_append]

lemma welcome_refresh (h : Good timely (A ++ e :: X) log) (hu : peer e.2 = peer u) (b : Bool) :
    welcome u (contacts (A ++ e :: X)) = contacts (A ++ (e.1, refresh b u e.2) :: X) := by
  have hA : ∀ c ∈ contacts A, endpoint c.addr ≠ peer u := by
    intro c hc
    obtain ⟨x, hx, hpeer⟩ := mem_contacts hc
    rw [hpeer, ← hu]
    exact h.peer_ne (List.mem_append_left _ hx)
  have hhead : endpoint (Contact.ofUser e.2).addr = peer u := hu
  rw [contacts_append, welcome_append hA, contacts_cons, welcome, if_pos hhead, contacts_append]
  rfl

lemma welcome_join (hne : ∀ e ∈ L, peer e.2 ≠ peer u) (fresh : ℕ) :
    welcome u (contacts L) = contacts (L ++ [(fresh, u)]) := by
  have hL : ∀ c ∈ contacts L, endpoint c.addr ≠ peer u := by
    intro c hc
    obtain ⟨x, hx, hpeer⟩ := mem_contacts hc
    exact hpeer ▸ hne x hx
  rw [← List.append_nil (contacts L), welcome_append hL, contacts_append]
  rfl

lemma roster_idle {l : List Event} (h : ∀ e ∈ l, ∀ r, enroll r e = r) :
    roster (log ++ l) = roster log := by
  rw [roster, List.foldl_append, foldl_idle h]
  rfl

def Enrolled (L : List Entry) (log : List Event) : Prop :=
  Good False L log ∧ contacts L = roster log

lemma Enrolled.idle (h : Enrolled L log) {l : List Event} (ht : ∀ p, ∀ e ∈ l, touch p e = none)
    (hl : ∀ e ∈ l, ∀ r, enroll r e = r) : Enrolled L (log ++ l) :=
  ⟨h.1.quiet ht, h.2.trans (roster_idle hl).symm⟩

theorem enrolledRules (sys : Sys) (timeout : ℤ) :
    Rules sys timeout True (fun L _ log => Enrolled L log)
      (fun u L _ log => Enrolled L log ∧ IsPeer u.addr) where
  arrive h hc := ⟨h.idle (by simp [touch]) (by simp [enroll]), stamp_isPeer hc⟩
  check h := ⟨h.1.idle (by simp [touch]) (by simp [enroll]), h.2⟩
  kick := by
    rintro u D e l k log n ⟨h, hu⟩ - -
    have htime : Enrolled (D ++ e :: l) (log ++ [.time (sys.time k)]) :=
      h.idle (by simp [touch]) (by simp [enroll])
    have hkick : Enrolled (D ++ l) (log ++ [.time (sys.time k)] ++ [.timeoutFunc e.2]) := by
      refine ⟨htime.1.kick, ?_⟩
      rw [roster_snoc, ← htime.2]
      exact (strike_contacts htime.1).symm
    refine ⟨hkick.idle (fun _ => touch_notices) fun x hx r => ?_, hu⟩
    rw [(List.mem_replicate.mp hx).2]
    rfl
  reject h _ _ := h.1.idle (by simp [touch]) (by simp [enroll])
  refresh := by
    rintro u A e X k log ⟨h, hu⟩ hs - -
    have hpeer : peer e.2 = peer u := (same_iff hu (h.1.peers e (by simp))).mp hs
    refine ⟨h.1.refresh hpeer False.elim, ?_⟩
    rw [roster_snoc, ← h.2]
    exact (welcome_refresh h.1 hpeer _).symm
  full _ h _ _ := h.1.idle (by simp [touch]) (by simp [enroll])
  join := by
    rintro u L k log fresh ⟨h, hu⟩ hne
    have hpeer : ∀ e ∈ L, peer e.2 ≠ peer u := by
      intro e he hp
      have hs := (same_iff hu (h.1.peers e he)).mpr hp
      rw [hne e he] at hs
      cases hs
    refine ⟨h.1.join hu hpeer fresh, ?_⟩
    rw [roster_snoc, ← h.2]
    exact (welcome_join hpeer fresh).symm
  say u data h := by
    refine h.idle (fun _ => touch_chats) fun x hx r => ?_
    obtain ⟨e, -, rfl⟩ := List.mem_map.mp hx
    rfl

/-! ### The chat lines go to the roster -/

lemma recipients_append (log l : List Event) :
    recipients (log ++ l) = recipients log ++ outputs enroll audience (roster log) l :=
  outputs_append _ _ _

lemma recipients_silent {l : List Event} (h : ∀ e ∈ l, acceptedOf e = none) :
    recipients (log ++ l) = recipients log := by
  rw [recipients_append, outputs_silent, List.append_nil]
  intro e he r
  have hnone := h e he
  cases e with
  | update u ret =>
    have hret : ret ≠ 0 := by
      rintro rfl
      cases hnone
    exact if_neg hret
  | _ => rfl

lemma recipients_accepted (log : List Event) (u : UserData) :
    recipients (log ++ [.update u 0]) = recipients log ++ roster (log ++ [.update u 0]) := by
  rw [recipients_append, roster_snoc]
  exact congrArg _ (List.append_nil _)

lemma contacts_chats (u : UserData) (data : List UInt8) (L : List Entry) :
    (chats (L.map fun e => .chat (chatTo u data e.2))).map Contact.ofSend = contacts L := by
  rw [chats_map, List.map_map]
  rfl

lemma chats_update (log : List Event) (u : UserData) (r : ℤ) :
    chats (log ++ [.update u r]) = chats log := by
  rw [chats_append]
  exact List.append_nil _

lemma sends_recipients {sys : Sys} {input : Input} {io : Io} {L' : List Entry} {ev : List Event}
    (h : Sends sys input io L' ev) (hroster : contacts L' = roster (log ++ ev))
    (hlog : (chats log).map Contact.ofSend = recipients log) :
    (chats (log ++ ev)).map Contact.ofSend = recipients (log ++ ev) := by
  cases h with
  | nothing => simpa using hlog
  | rejected u data mid hu hmid =>
    have hnone : ∀ e ∈ mid ++ [.update u 1], acceptedOf e = none := by
      intro e he
      rcases List.mem_append.mp he with he | he
      · exact acceptedOf_ofTable (hmid e he)
      · rw [List.mem_singleton.mp he]
        rfl
    rw [recipients_silent hnone, ← List.append_assoc, chats_update, chats_append,
      chats_ofTable hmid, List.append_nil, hlog]
  | accepted u data mid hu hmid =>
    have hsaid : ∀ x ∈ L'.map fun e => Event.chat (chatTo u data e.2), ∃ s, x = .chat s := by
      intro x hx
      obtain ⟨e, -, rfl⟩ := List.mem_map.mp hx
      exact ⟨_, rfl⟩
    have hidle : ∀ x ∈ L'.map (fun e => Event.chat (chatTo u data e.2)), ∀ r, enroll r x = r := by
      intro x hx r
      obtain ⟨s, rfl⟩ := hsaid x hx
      rfl
    have hnone : ∀ x ∈ L'.map (fun e => Event.chat (chatTo u data e.2)), acceptedOf x = none := by
      intro x hx
      obtain ⟨s, rfl⟩ := hsaid x hx
      rfl
    -- the chat lines leave the roster as it was when the message was accepted
    rw [← List.append_assoc, ← List.append_assoc] at hroster ⊢
    rw [roster_idle hidle] at hroster
    rw [recipients_silent hnone, recipients_accepted,
      recipients_silent fun e he => acceptedOf_ofTable (hmid e he), ← hroster, ← hlog, chats_append,
      List.map_append, contacts_chats, chats_update, chats_append, chats_ofTable hmid,
      List.append_nil]

/-- A server between two calls: its table is the roster, and so far everybody was answered. -/
structure Settled (timeout : ℤ) (s : Server) (L : List Entry) : Prop where
  rep : Rep s L
  timeout : s.table.timeout = timeout
  enrolled : Enrolled L s.io.log
  answered : (chats s.io.log).map Contact.ofSend = recipients s.io.log

lemma handle_settled (sys : Sys) {timeout : ℤ} (input : Input) {s : Server}
    (h : Settled timeout s L) :
    ∃ s', handle sys input s = some s' ∧ ∃ L', Settled timeout s' L' := by
  obtain ⟨s', L', hs', hrep', htime, hh⟩ := handle_spec sys input h.rep
  have henrolled : Enrolled L' s'.io.log :=
    (enrolledRules sys timeout).handled h.rep h.timeout (fun _ => trivial) hh h.enrolled
  obtain ⟨ev, hlog, hsends⟩ := sends_of_handled hh
  have hanswered : (chats s'.io.log).map Contact.ofSend = recipients s'.io.log := by
    have hroster := henrolled.2
    rw [hlog] at hroster ⊢
    exact sends_recipients hsends hroster h.answered
  exact ⟨s', hs', L', hrep', htime.trans h.timeout, henrolled, hanswered⟩

/-- **Whom each message goes to**: in every state a server reaches, the chat lines it has sent went,
message by message, to everybody on the roster when the message was accepted, in the order they
came in, and its table is the roster. -/
theorem runs_recipients (sys : Sys) (timeout : ℤ) (inputs : List Input) :
    ∃ s L, runs (handle sys) inputs (started timeout) = some s ∧ Rep s L ∧
      contacts L = roster s.io.log ∧ (chats s.io.log).map Contact.ofSend = recipients s.io.log := by
  have hstart : Settled timeout (started timeout) [] :=
    ⟨Holds.empty, rfl, ⟨good_nil, rfl⟩, rfl⟩
  obtain ⟨s, hs, L, h⟩ := runs_inv (fun s => ∃ L, Settled timeout s L)
    (fun input s ⟨L, h⟩ => handle_settled sys input h) inputs ⟨[], hstart⟩
  exact ⟨s, L, hs, h.rep, h.enrolled.2, h.answered⟩

end Csockets.Rosters
