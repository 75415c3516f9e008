import Csockets.Runs
import Csockets.ServerModel

/-!
What the server's log says about its peers: whose messages were accepted and when, who was
kicked since, what was sent.
-/

namespace Csockets.ServerLog

open NetModel UsersModel ServerModel

/-- The peer a user stands for. -/
def peer (u : UserData) : Endpoint := endpoint u.addr

def acceptedOf : Event → Option UserData
  | .update u r => if r = 0 then some u else none
  | _ => none

def chatOf : Event → Option Send
  | .chat s => some s
  | _ => none

def timeOf : Event → Option ℤ
  | .time t => some t
  | _ => none

/-- Whether the event lets a peer in, with its message, or puts it out. -/
def touch (p : Endpoint) : Event → Option (Option UserData)
  | .timeoutFunc u => if peer u = p then some none else none
  | .update u r => if r = 0 ∧ peer u = p then some (some u) else none
  | _ => none

/-- The accepted datagrams, each as the user it made. -/
def accepted (log : List Event) : List UserData := log.filterMap acceptedOf

def chats (log : List Event) : List Send := log.filterMap chatOf

/-- The last reading of the clock. -/
def clock (log : List Event) : Option ℤ := (log.filterMap timeOf).getLast?

def latest (p : Endpoint) (log : List Event) : Option UserData :=
  ((accepted log).filter fun u => peer u = p).getLast?

/-- A peer's latest accepted datagram, if the peer was not kicked since. -/
def current (p : Endpoint) (log : List Event) : Option UserData :=
  (log.filterMap (touch p)).getLast?.join

variable {p : Endpoint} {log : List Event}

@[simp] lemma accepted_append (l₁ l₂ : List Event) :
    accepted (l₁ ++ l₂) = accepted l₁ ++ accepted l₂ := List.filterMap_append

@[simp] lemma chats_append (l₁ l₂ : List Event) : chats (l₁ ++ l₂) = chats l₁ ++ chats l₂ :=
  List.filterMap_append

lemma current_append_untouched {l : List Event} (h : ∀ e ∈ l, touch p e = none) :
    current p (log ++ l) = current p log := by
  have hnil : l.filterMap (touch p) = [] := List.filterMap_eq_nil_iff.mpr h
  rw [current, List.filterMap_append, hnil, List.append_nil]
  rfl

lemma current_snoc_touched {e : Event} {c : Option UserData} (h : touch p e = some c) :
    current p (log ++ [e]) = c := by
  have hc : [e].filterMap (touch p) = [c] := by simp [h]
  rw [current, List.filterMap_append, hc]
  simp

lemma current_snoc {e : Event} {q : Endpoint} {c : Option UserData}
    (h : touch p e = if q = p then some c else none) :
    current p (log ++ [e]) = if q = p then c else current p log := by
  by_cases hp : q = p
  · rw [if_pos hp] at h ⊢
    exact current_snoc_touched h
  · rw [if_neg hp] at h ⊢
    exact current_append_untouched (by simp [h])

lemma current_update (u : UserData) :
    current p (log ++ [.update u 0]) = if peer u = p then some u else current p log :=
  current_snoc (by simp [touch])

lemma current_timeoutFunc (u : UserData) :
    current p (log ++ [.timeoutFunc u]) = if peer u = p then none else current p log :=
  current_snoc (by simp [touch])

lemma latest_of_current {u : UserData} (h : current p log = some u) : latest p log = some u := by
  induction log using List.reverseRecOn with
  | nil => cases h
  | append_singleton log e ih =>
    cases ht : touch p e with
    | some c =>
      rw [current_snoc_touched ht] at h
      subst h
      cases e with
      | update v r =>
        obtain ⟨⟨rfl, hp⟩, rfl⟩ : (r = 0 ∧ peer v = p) ∧ v = u := by
          simpa [touch] using ht
        rw [latest, accepted_append]
        simp [accepted, acceptedOf, hp]
      | timeoutFunc v => simp [touch] at ht
      | time t => cases ht
      | notice s => cases ht
      | chat s => cases ht
    | none =>
      rw [current_append_untouched (by simpa using ht)] at h
      rw [← ih h, latest, latest, accepted_append, List.filter_append]
      suffices hnil : (accepted [e]).filter (fun u => peer u = p) = [] by
        rw [hnil, List.append_nil]
      cases e with
      | update v r =>
        by_cases hr : r = 0
        · have hp : peer v ≠ p := fun hp => by simp [touch, hr, hp] at ht
          simp [accepted, acceptedOf, hr, hp]
        · simp [accepted, acceptedOf, hr]
      | timeoutFunc v => rfl
      | time t => rfl
      | notice s => rfl
      | chat s => rfl

lemma mem_of_latest {u : UserData} (h : latest p log = some u) :
    u ∈ accepted log ∧ peer u = p := by
  simpa using List.mem_filter.mp (List.mem_of_getLast? h)

lemma clock_snoc (t : ℤ) : clock (log ++ [.time t]) = some t := by
  simp [clock, timeOf]

end Csockets.ServerLog
