import Csockets.UsersRefine

/-!
One call of `user_table_update` on a table in any well-formed state: what its result means and
which timed out users it kicks.
-/

namespace Csockets.UsersCall

open Blocks Bytes Chain NetModel UsersModel UsersList UsersRefine

variable {σ : Type}

/-- A well-formed table: the heap is one chain of nodes, with these entries. -/
structure Table (σ : Type) where
  store : Store σ
  entries : List Entry
  rep : Rep store entries

def Table.users (T : Table σ) : List UserData := T.entries.map Prod.snd

def Table.timeout (T : Table σ) : ℤ := T.store.table.timeout

def returning (f : UserData → σ → σ) (u : UserData) (io : σ) : Option σ := some (f u io)

/-- The callers pass a user whose links are null. -/
abbrev callUpdate (W : World σ) (f : UserData → σ → σ) (u : UserData) (T : Table σ) :
    Option (ℤ × Store σ) :=
  userTableUpdate W (returning f) ⟨u, none, none⟩ T.store

/-- **Calls keep tables well-formed** and do what the list of entries says. -/
theorem callUpdate_spec (W : World σ) (f : UserData → σ → σ) (u : UserData) (T : Table σ) :
    ∃ (r : ℤ) (T' : Table σ),
      update W (returning f) T.timeout u T.store.heap.next T.entries T.store.io =
        some (r, T'.entries, T'.store.io) ∧
      callUpdate W f u T = some (r, T'.store) ∧ T'.timeout = T.timeout ∧
      T'.store.heap.freed = T.store.heap.freed ++
        (evicted W (returning f) T.timeout u T.entries T.store.io).map Prod.fst := by
  have hf : ∀ u io, (returning f u io).isSome := fun _ _ => rfl
  obtain ⟨r, L', io', hup⟩ := update_total W T.timeout hf u T.store.heap.next T.entries T.store.io
  obtain ⟨s', hs', hrep, rfl, ht, hfr⟩ := userTableUpdate_spec T.rep hup
  exact ⟨r, ⟨s', L', hrep⟩, hup, hs', ht, hfr⟩

lemma exists_append (T : Table σ) (u : UserData) : ∃ (a : ℕ) (T' : Table σ),
    T'.entries = T.entries ++ [(a, u)] ∧ T'.timeout = T.timeout ∧ T'.store.io = T.store.io := by
  -- an allocator that succeeds and does nothing else
  let W : World σ := ⟨fun io => (0, io), fun io => (true, io)⟩
  obtain ⟨s', -, hrep, hio, ht, -⟩ := (addUser_spec W u T.rep).2 rfl
  exact ⟨_, ⟨s', _, hrep⟩, rfl, ht, hio⟩

lemma exists_users (timeout : ℤ) (io : σ) (U : List UserData) :
    ∃ T : Table σ, T.users = U ∧ T.timeout = timeout ∧ T.store.io = io := by
  induction U using List.reverseRecOn with
  | nil => exact ⟨⟨(userTableInit timeout (boot io)).2, [], Holds.empty⟩, rfl, rfl, rfl⟩
  | append_singleton U u ih =>
    obtain ⟨T, rfl, rfl, rfl⟩ := ih
    obtain ⟨a, T', hent, htime, hio⟩ := exists_append T u
    exact ⟨T', by simp [Table.users, hent], htime, hio⟩

/-! ### Timed out users -/

/-- A clock that always reads `now`. -/
def frozen (now : ℤ) (W : World σ) : World σ := { W with time := fun io => (now, (W.time io).2) }

/-- The entries an update does not check: those behind the sender's, or the last one for a
sender without an entry. -/
def unchecked (u : UserData) (L : List Entry) : List Entry :=
  match onward u L with
  | _ :: X => X
  | [] => L.getLast?.toList

/-- No user but `u` has timed out. -/
def NoneStale (now timeout : ℤ) (u : UserData) (L : List Entry) : Prop :=
  ∀ e ∈ L, same u e.2 = false → now ≤ e.2.lastMsg + timeout

lemma noneStale_append {now timeout : ℤ} {u : UserData} {L₁ L₂ : List Entry} :
    NoneStale now timeout u (L₁ ++ L₂) ↔
      NoneStale now timeout u L₁ ∧ NoneStale now timeout u L₂ :=
  List.forall_mem_append

lemma noneStale_cons {now timeout : ℤ} {u : UserData} {e : Entry} {L : List Entry}
    (h : same u e.2 = true) : NoneStale now timeout u (e :: L) ↔ NoneStale now timeout u L := by
  unfold NoneStale
  rw [List.forall_mem_cons]
  simp [h]

lemma same_self (u : UserData) : same u u = true := by
  simp [same, sockaddrCmp_self]

lemma sweep_frozen {now timeout : ℤ} {W : World σ} {timeoutFunc : UserData → σ → Option σ}
    {L L' : List Entry} {io io' : σ}
    (h : sweep (frozen now W) timeoutFunc timeout L io = some (L', io')) :
    ∀ e ∈ L', now ≤ e.2.lastMsg + timeout := by
  induction L generalizing L' io with
  | nil =>
    cases h
    simp
  | cons e l ih =>
    rcases sweep_cons_iff.mp h with ⟨-, io₁, -, hl⟩ | ⟨hfresh, l', rfl, hl⟩
    · exact ih hl
    · intro x hx
      rcases List.mem_cons.mp hx with rfl | hx
      · exact not_lt.mp hfresh
      · exact ih hl x hx

lemma noneStale_update {now timeout : ℤ} {W : World σ} {timeoutFunc : UserData → σ → Option σ}
    {u : UserData} {fresh : ℕ} {L L' : List Entry} {io io' : σ} {r : ℤ}
    (h : update (frozen now W) timeoutFunc timeout u fresh L io = some (r, L', io')) :
    NoneStale now timeout u L' ↔ NoneStale now timeout u (unchecked u L) := by
  unfold unchecked
  rcases update_cases h with ⟨e, X, A, hL, hs, hr⟩ | ⟨A, io₁, hL, hs, -, hr⟩
  · have hA : NoneStale now timeout u A := fun x hx _ => sweep_frozen hs x hx
    have hsame := onward_same hL
    rw [hL]
    rcases hr with ⟨-, -, rfl⟩ | ⟨-, -, rfl⟩
    · rw [noneStale_append, noneStale_cons hsame, and_iff_right hA]
    · -- the entry keeps its address
      have hnew : same u (e.1, refresh X.isEmpty u e.2).2 = true := hsame
      rw [noneStale_append, noneStale_cons hnew, and_iff_right hA]
  · have hA : NoneStale now timeout u A := fun x hx _ => sweep_frozen hs x hx
    rw [hL]
    rcases hr with ⟨-, -, rfl⟩ | ⟨-, -, rfl⟩
    · rw [noneStale_append, and_iff_right hA]
    · have hu : NoneStale now timeout u [(fresh, u)] :=
        (noneStale_cons (same_self u)).mpr fun e he => by cases he
      rw [noneStale_append, noneStale_append, and_iff_right hA, and_iff_left hu]

/-- **Which users are kicked**: no timed out user but the sender is left after a call exactly
when none was among the entries that the call does not check. -/
theorem update_noneStale_iff (W : World σ) (now : ℤ) (f : UserData → σ → σ) (u : UserData)
    (T : Table σ) :
    ∃ (r : ℤ) (T' : Table σ), callUpdate (frozen now W) f u T = some (r, T'.store) ∧
      (NoneStale now T.timeout u T'.entries ↔
        NoneStale now T.timeout u (unchecked u T.entries)) := by
  obtain ⟨r, T', hup, hs', -, -⟩ := callUpdate_spec (frozen now W) f u T
  exact ⟨r, T', hs', noneStale_update hup⟩

/-- A user at 10.0.0.`n`, port 12345, whose last message came at `time`. -/
def userAt (n : UInt8) (time : ℤ) : UserData where
  addr := Buf.init _ [2, 0, 0x30, 0x39, 10, 0, 0, n]
  addrLen := sizeofSockaddrIn
  addrFamily := AF_INET
  recvFd := 3
  id := 10
  lastMsg := time
  lastMsgXs := time.tdiv 2 * 2

lemma userAt_isPeer (n : UInt8) (time : ℤ) : IsPeer (userAt n time).addr := .inet rfl rfl

lemma entries_of_users {T : Table σ} {v : UserData} (h : T.users = [v]) :
    ∃ a, T.entries = [(a, v)] := by
  obtain ⟨⟨a, w⟩, he, rfl⟩ := List.map_eq_singleton_iff.mp h
  exact ⟨a, he⟩

/-- The only entry is not checked when somebody new writes. -/
theorem not_noneStale_last :
    ¬ ∀ (W : World Unit) (now : ℤ) (f : UserData → Unit → Unit) (u : UserData)
      (T T' : Table Unit) (r : ℤ), callUpdate (frozen now W) f u T = some (r, T'.store) →
        NoneStale now T.timeout u T'.entries := by
  intro h
  let W : World Unit := ⟨fun _ => (0, ()), fun _ => (true, ())⟩
  obtain ⟨T, hT, htime, -⟩ := exists_users 70 () [userAt 1 0]
  obtain ⟨a, ha⟩ := entries_of_users hT
  obtain ⟨r, T', hup, hs', -, -⟩ :=
    callUpdate_spec (frozen 100 W) (fun _ io => io) (userAt 2 100) T
  have hleft := (noneStale_update hup).mp (h W 100 _ _ T T' r hs')
  have hother : same (userAt 2 100) (userAt 1 0) = false := by decide +kernel
  have hlast : unchecked (userAt 2 100) T.entries = [(a, userAt 1 0)] := by
    simp [unchecked, onward, ha, hother]
  rw [hlast, htime] at hleft
  have hstale : (100 : ℤ) ≤ (userAt 1 0).lastMsg + 70 :=
    hleft (a, userAt 1 0) (List.mem_singleton_self _) hother
  exact absurd hstale (by decide)

/-! ### The result -/

def allocating (ok : Bool) (W : World σ) : World σ :=
  { W with malloc := fun io => (ok, (W.malloc io).2) }

/-- No peer has two entries. -/
def OneEach (L : List Entry) : Prop :=
  ∀ u, ∀ e ∈ L, ∀ x ∈ L, same u e.2 = true → same u x.2 = true → x = e

lemma oneEach_of_nodup {L : List Entry} (hpeer : ∀ v ∈ L.map Prod.snd, IsPeer v.addr)
    (hdistinct : ((L.map Prod.snd).map fun v => endpoint v.addr).Nodup) : OneEach L := by
  have hends : ∀ u, ∀ e ∈ L, same u e.2 = true → endpoint e.2.addr = endpoint u.addr := by
    intro u e he hs
    have he : IsPeer e.2.addr := hpeer e.2 (List.mem_map_of_mem he)
    have hcmp : sockaddrCmp e.2.addr u.addr e.2.addrLen = 0 := of_decide_eq_true hs
    exact (sockaddrCmp_eq_zero_iff he (isPeer_of_sockaddrCmp he hcmp) _).mp hcmp
  rw [List.map_map] at hdistinct
  intro u e he x hx hse hsx
  exact List.inj_on_of_nodup_map hdistinct hx he ((hends u x hx hsx).trans (hends u e he hse).symm)

/-- What the result `r` of a call is to mean: 1 is spam, which changes nothing, and more than 1
a new user for whom there is no block. -/
structure Meaning (u : UserData) (ok : Bool) (L L' : List Entry) (r : ℤ) : Prop where
  rejected : r = 1 ↔ ∃ e ∈ L, same u e.2 = true ∧ spam u e.2 = true
  unchanged : ∀ e ∈ L, same u e.2 = true → spam u e.2 = true → e ∈ L'
  failed : (∀ e ∈ L, same u e.2 = false) → ok = false → 1 < r ∧ ∀ e ∈ L', same u e.2 = false

lemma meaning_update {W : World σ} {ok : Bool} {timeoutFunc : UserData → σ → Option σ}
    {timeout : ℤ} {u : UserData} {fresh : ℕ} {L L' : List Entry} {io io' : σ} {r : ℤ}
    (hone : OneEach L)
    (h : update (allocating ok W) timeoutFunc timeout u fresh L io = some (r, L', io')) :
    Meaning u ok L L' r ↔ (∃ e ∈ L, same u e.2 = true) ∨ ok = true := by
  rcases update_cases h with ⟨e, X, A, hL, -, hr⟩ | ⟨A, io₁, hL, -, -, hr⟩
  · have hsame := onward_same hL
    have hmem : e ∈ L := by
      rw [← before_append_onward u L, hL]
      simp
    have hother : (∀ x ∈ L, same u x.2 = false) → False := fun hno => by
      rw [hno e hmem] at hsame
      cases hsame
    refine iff_of_true ?_ (Or.inl ⟨e, hmem, hsame⟩)
    rcases hr with ⟨hsp, rfl, rfl⟩ | ⟨hsp, rfl, rfl⟩
    · refine ⟨iff_of_true rfl ⟨e, hmem, hsame, hsp⟩, fun x hx hxs _ => ?_, fun hno => ?_⟩
      · rw [hone u e hmem x hx hsame hxs]
        simp
      · exact (hother hno).elim
    · have hnospam : ∀ x ∈ L, same u x.2 = true → spam u x.2 = false := fun x hx hxs => by
        rw [hone u e hmem x hx hsame hxs]
        exact hsp
      refine ⟨iff_of_false zero_ne_one ?_, fun x hx hxs hxsp => ?_, fun hno => ?_⟩
      · rintro ⟨x, hx, hxs, hxsp⟩
        rw [hnospam x hx hxs] at hxsp
        cases hxsp
      · rw [hnospam x hx hxs] at hxsp
        cases hxsp
      · exact (hother hno).elim
  · have hnew := onward_eq_nil_iff.mp hL
    have hnone : ¬ ∃ e ∈ L, same u e.2 = true := by
      rintro ⟨e, he, hs⟩
      rw [hnew e he] at hs
      cases hs
    rcases hr with ⟨hm, rfl, -⟩ | ⟨hm, rfl, -⟩
    · -- the result is the one for spam
      have hok : ok = false := hm
      refine iff_of_false (fun hM => ?_) (by simp [hnone, hok])
      obtain ⟨e, he, hs, -⟩ := hM.rejected.mp rfl
      exact hnone ⟨e, he, hs⟩
    · have hok : ok = true := hm
      refine iff_of_true ⟨iff_of_false zero_ne_one ?_, ?_, ?_⟩ (Or.inr hok)
      · rintro ⟨e, he, hs, -⟩
        exact hnone ⟨e, he, hs⟩
      · exact fun e he hs => (hnone ⟨e, he, hs⟩).elim
      · intro _ hfalse
        rw [hok] at hfalse
        cases hfalse

/-- **What the result means**: it is what it should be exactly when the sender has an entry or
there is a block for a new one. -/
theorem update_meaning_iff (W : World σ) (ok : Bool) (f : UserData → σ → σ) (u : UserData)
    (T : Table σ) (hone : OneEach T.entries) :
    ∃ (r : ℤ) (T' : Table σ), callUpdate (allocating ok W) f u T = some (r, T'.store) ∧
      (Meaning u ok T.entries T'.entries r ↔ (∃ e ∈ T.entries, same u e.2 = true) ∨ ok = true) := by
  obtain ⟨r, T', hup, hs', -, -⟩ := callUpdate_spec (allocating ok W) f u T
  exact ⟨r, T', hs', meaning_update hone hup⟩

theorem update_meaning_new :
    ∃ T : Table Unit, T.users = [userAt 1 0, userAt 3 2] ∧ ∃ (r : ℤ) (T' : Table Unit),
      callUpdate (allocating true ⟨fun _ => (5, ()), fun _ => (true, ())⟩) (fun _ io => io)
        (userAt 2 5) T = some (r, T'.store) ∧
      (Meaning (userAt 2 5) true T.entries T'.entries r ↔
        (∃ e ∈ T.entries, same (userAt 2 5) e.2 = true) ∨ true = true) := by
  obtain ⟨T, hT, -, -⟩ := exists_users 70 () [userAt 1 0, userAt 3 2]
  have hpeer : ∀ v ∈ T.users, IsPeer v.addr := by
    rw [hT]
    rw [List.forall_mem_cons, List.forall_mem_singleton]
    exact ⟨userAt_isPeer 1 0, userAt_isPeer 3 2⟩
  have hdistinct : (T.users.map fun v => endpoint v.addr).Nodup := by
    rw [hT]
    decide
  exact ⟨T, hT, update_meaning_iff _ true _ (userAt 2 5) T (oneEach_of_nodup hpeer hdistinct)⟩

/-- Without a block for a new user the result is 1. -/
theorem not_meaning_full :
    ¬ ∀ (W : World Unit) (ok : Bool) (f : UserData → Unit → Unit) (u : UserData)
      (T T' : Table Unit) (r : ℤ), OneEach T.entries →
        callUpdate (allocating ok W) f u T = some (r, T'.store) →
          Meaning u ok T.entries T'.entries r := by
  intro h
  let W : World Unit := ⟨fun _ => (0, ()), fun _ => (true, ())⟩
  obtain ⟨T, hT, -, -⟩ := exists_users 70 () []
  have hnil : T.entries = [] := List.map_eq_nil_iff.mp hT
  have hone : OneEach T.entries := by
    rw [hnil]
    intro u e he
    cases he
  obtain ⟨r, T', hup, hs', -, -⟩ :=
    callUpdate_spec (allocating false W) (fun _ io => io) (userAt 1 0) T
  rcases (meaning_update hone hup).mp (h W false _ _ T T' r hone hs') with ⟨e, he, -⟩ | hok
  · rw [hnil] at he
    cases he
  · cases hok

end Csockets.UsersCall
