import Csockets.AddrList
import Csockets.MainModel

/-!
Where the sockets and the addresses of the chat server go: whatever the calls of `main` come back
with, each socket that is opened is closed once, and so are the addresses freed.
-/

namespace Csockets.MainSockets

open Blocks Links AddrModel AddrList Files Loops MainModel
open Chain (hd hd_cons)

def sfds (st : BindState) : List ℤ := st.sfdArr.toList.take st.sfdArrLen

def stored (st : BindState) : List (Option ℕ) := (sfds st).map st.files.file

/-- The array has room for what is in it, which are sockets opened since `f`; and each socket opened
since `f` is closed once and not in the array, or in it once and not closed. -/
structure Accounted (f : Table) (st : BindState) : Prop where
  room : st.sfdArrLen ≤ MAX_BIND_COUNT
  own : ∀ o ∈ stored st, ∃ i, o = some i ∧ f.next ≤ i
  each : ∀ i, f.next ≤ i → i < st.files.next →
    st.files.closed.count i = 1 ∧ (stored st).count (some i) = 0 ∨
      st.files.closed.count i = 0 ∧ (stored st).count (some i) = 1

/-- What is left of a run that began with the descriptors `f` and the world `w`: behind the loop
the sockets in the array are closed, each once, and nothing else; so all that were opened are
closed once and the others are as they were. The addresses are freed, once, if there are any, and
each node that was allocated is. -/
structure Settled (f : Table) (w : World) (e : Exit) : Prop where
  status : e.status = 0
  bound : ∀ st, e.bound = some st → Accounted f st ∧ e.files.next = st.files.next ∧
    e.files.closed = st.files.closed ++ (stored st).reduceOption
  unbound : e.bound = none → e.files = f
  closed : ∀ i, f.next ≤ i → i < e.files.next → e.files.closed.count i = 1
  files : e.files.file = f.file
  freed : e.freed = if e.created then [e.addr] else []
  nodes : ∀ a, w.mem.next ≤ a → a < e.world.mem.next → e.world.mem.freed.count a = 1
  cells : e.world.mem.cell = w.mem.cell

variable {f : Table} {m : Heap} {st : BindState} {l : List (ℕ × Addrinfo)}

/-! ### The loop -/

/-- The sockets in the array are the ones that are open. -/
structure Slots (f : Table) (st : BindState) : Prop where
  room : st.sfdArrLen ≤ MAX_BIND_COUNT
  opened : Opened f st.files (sfds st)

def Left (f : Table) (m : Heap) (k : ℕ) (st : BindState) : Prop :=
  ∃ l, l.length = k ∧ st.ca = hd none l ∧ Seg m.cell l none ∧ Slots f st

lemma Slots.accounted (h : Slots f st) : Accounted f st := by
  refine ⟨h.room, fun o ho => ?_, fun i hle hlt => h.opened.settled hle hlt⟩
  obtain ⟨fd, hfd, rfl⟩ := List.mem_map.mp ho
  exact h.opened.new fd hfd

lemma storeSfd_spec (sfdArr : Vector ℤ MAX_BIND_COUNT) {n : ℕ} (sfd : ℤ)
    (hn : n < MAX_BIND_COUNT) :
    ∃ sfdArr', storeSfd sfdArr n sfd = some sfdArr' ∧
      sfdArr'.toList.take (n + 1) = sfdArr.toList.take n ++ [sfd] := by
  refine ⟨_, dif_pos hn, ?_⟩
  have hlen : n < (sfdArr.toList.set n sfd).length := by simpa using hn
  rw [Vector.toList_set, List.take_succ_eq_append_getElem hlen, List.getElem_set_self,
    List.take_set_of_le le_rfl]

lemma bindTurn_spec (linux : Bool) (attempt : Attempt) (k : ℕ) (st : BindState)
    (h : Left f m k st) :
    (∃ st' k', bindTurn linux m attempt st = .again st' ∧ Left f m k' st' ∧ k' < k) ∨
      ∃ st', bindTurn linux m attempt st = .leave st' ∧ Slots f st' := by
  obtain ⟨l, hk, hca, hseg, hroom, hopened⟩ := h
  unfold bindTurn
  rw [hca]
  cases l with
  | nil => exact Or.inr ⟨st, rfl, hroom, hopened⟩
  | cons x l =>
    obtain ⟨a, v⟩ := x
    obtain ⟨ha, hl⟩ := hseg
    have hlt : l.length < k := by
      rw [← hk, List.length_cons]
      exact Nat.lt_succ_self _
    rw [hd_cons]
    dsimp only
    rw [ha]
    dsimp only
    obtain hskip | ⟨hne, f₁, hopen, h₁⟩ := hopened.openAt attempt.socket
    · -- no socket
      rw [hskip]
      exact Or.inl ⟨_, _, if_pos rfl, ⟨l, rfl, rfl, hl, hroom, hopened⟩, hlt⟩
    · obtain ⟨f₂, hclose, h₂⟩ := h₁.close_last
      rw [hopen]
      dsimp only
      rw [if_neg hne, hclose]
      dsimp only
      split
      · exact Or.inl ⟨_, _, rfl, ⟨l, rfl, rfl, hl, hroom, h₂⟩, hlt⟩
      · split
        · exact Or.inl ⟨_, _, rfl, ⟨l, rfl, rfl, hl, hroom, h₂⟩, hlt⟩
        · split
          · exact Or.inr ⟨_, rfl, hroom, h₂⟩
          · rename_i hlen
            obtain ⟨sfdArr, hstore, htake⟩ :=
              storeSfd_spec st.sfdArr attempt.socket (Nat.lt_of_not_le hlen)
            rw [hstore]
            refine Or.inl ⟨_, _, rfl, ⟨l, rfl, rfl, hl, Nat.lt_of_not_le hlen, ?_⟩, hlt⟩
            unfold sfds
            rw [htake]
            exact h₁

lemma left_start (hseg : Seg m.cell l none) (f : Table) :
    Left f m l.length ⟨hd none l, f, Vector.replicate _ 0, 0⟩ :=
  ⟨l, rfl, rfl, hseg, Nat.zero_le _, Opened.refl f⟩

lemma bindLoop_slots (linux : Bool) (turns : ℕ) (attempts : Stream' Attempt) (f : Table)
    (hseg : Seg m.cell l none) :
    (∃ st, bindLoop linux m turns attempts (hd none l) f = .again st ∧ Slots f st) ∨
      ∃ st, bindLoop linux m turns attempts (hd none l) f = .leave st ∧ Slots f st := by
  have hturn : ∀ (attempts : Stream' Attempt) st, (∃ k, Left f m k st) →
      (∃ st', bindTurn linux m attempts.head st = .again st' ∧ ∃ k, Left f m k st') ∨
        ∃ st', bindTurn linux m attempts.head st = .leave st' ∧ Slots f st' := by
    rintro attempts st ⟨k, hleft⟩
    obtain ⟨st', k', hagain, hleft', -⟩ | hleave := bindTurn_spec linux attempts.head k st hleft
    · exact Or.inl ⟨st', hagain, k', hleft'⟩
    · exact Or.inr hleave
  obtain ⟨st, hagain, k, _, -, -, -, hslots⟩ | hleave :=
    loop_spec (fun _ st => ∃ k, Left f m k st) _ hturn turns ⟨_, left_start hseg f⟩
  · exact Or.inl ⟨st, hagain, hslots⟩
  · exact Or.inr hleave

lemma bindLoop_ends (linux : Bool) (attempts : Stream' Attempt) (f : Table)
    (hseg : Seg m.cell l none) :
    ∃ st, bindLoop linux m (l.length + 1) attempts (hd none l) f = .leave st ∧ Slots f st :=
  loop_ends (Left f m) _ (bindTurn_spec linux) attempts (left_start hseg f)

/-! ### Returning -/

lemma getElem?_sfdArr (sfdArr : Vector ℤ MAX_BIND_COUNT) {n : ℕ} (hn : n < MAX_BIND_COUNT) :
    ∃ sfd, sfdArr[n]? = some sfd ∧
      sfdArr.toList.take (n + 1) = sfdArr.toList.take n ++ [sfd] := by
  have hlen : n < sfdArr.toList.length := by simpa using hn
  refine ⟨sfdArr[n], Vector.getElem?_eq_getElem hn, ?_⟩
  rw [List.take_succ_eq_append_getElem hlen, Vector.getElem_toList]

lemma closeSfds_eq (sfdArr : Vector ℤ MAX_BIND_COUNT) {n : ℕ} (hn : n ≤ MAX_BIND_COUNT)
    (f : Table) : closeSfds sfdArr n f = Table.closeEach (sfdArr.toList.take n) f := by
  unfold closeSfds Table.closeEach
  induction n with
  | zero => rfl
  | succ n ih =>
    obtain ⟨sfd, hsfd, htake⟩ := getElem?_sfdArr sfdArr hn
    rw [List.range_succ, List.foldlM_append, ih (Nat.le_of_succ_le hn), htake, List.foldlM_append]
    simp only [List.foldlM_cons, List.foldlM_nil, hsfd, Option.bind_some]

lemma shutdownSfds_eq (sfdArr : Vector ℤ MAX_BIND_COUNT) {n : ℕ} (hn : n ≤ MAX_BIND_COUNT) :
    shutdownSfds sfdArr n = some (sfdArr.toList.take n) := by
  unfold shutdownSfds
  induction n with
  | zero => rfl
  | succ n ih =>
    obtain ⟨sfd, hsfd, htake⟩ := getElem?_sfdArr sfdArr hn
    rw [List.range_succ, List.mapM_append, ih (Nat.le_of_succ_le hn), htake]
    simp [hsfd]

lemma Slots.sfds_length {bound : BindState} (h : Slots f bound) :
    (sfds bound).length = bound.sfdArrLen := by
  have hroom := h.room
  unfold sfds
  rw [List.length_take, Vector.length_toList]
  omega

lemma Slots.sfds_nil {bound : BindState} (h : Slots f bound) (hlen : bound.sfdArrLen = 0) :
    sfds bound = [] := List.length_eq_zero_iff.mp (h.sfds_length.trans hlen)

lemma Slots.sfdArr_getElem? {bound : BindState} (h : Slots f bound) {n : ℕ}
    (hn : n < bound.sfdArrLen) :
    ∃ sfd, bound.sfdArr[n]? = some sfd ∧ (sfds bound)[n]? = some sfd := by
  obtain ⟨sfd, hsfd, -⟩ := getElem?_sfdArr bound.sfdArr (hn.trans_le h.room)
  refine ⟨sfd, hsfd, ?_⟩
  unfold sfds
  rw [List.getElem?_take_of_lt hn, Vector.getElem?_toList, hsfd]

variable {e : Exit}

lemma socketErr_eq {db : Netdb} (hm : db.freeaddrinfo e.addr e.world.mem = some m) :
    socketErr db e =
      some { e with world := ⟨m, e.world.calls⟩, freed := e.freed ++ [e.addr] } := by
  unfold socketErr
  rw [hm]
  rfl

lemma pthreadErr_eq {db : Netdb} {files : Table}
    (hclose : closeSfds st.sfdArr st.sfdArrLen e.files = some files)
    (hm : db.freeaddrinfo e.addr e.world.mem = some m) :
    pthreadErr db st e = some
      { e with
        files := files, world := ⟨m, e.world.calls⟩, freed := e.freed ++ [e.addr] } := by
  unfold pthreadErr
  rw [hclose, Option.bind_eq_bind, Option.bind_some]
  exact socketErr_eq hm

lemma serve_spec (env : Env) (hslots : Slots f st) (hfiles : e.files = st.files)
    (haddr : e.addr = hd none l) (hseg : Seg e.world.mem.cell l none) :
    ∃ files m' shut,
      serve env st e = some
        { e with
          files := files, world := ⟨m', e.world.calls⟩, shut := shut,
          freed := e.freed ++ [e.addr] } ∧
      Opened f files [] ∧ files.next = st.files.next ∧
      files.closed = st.files.closed ++ (stored st).reduceOption ∧
      Released e.world.mem m' l := by
  obtain ⟨m', hm', hreleased⟩ := env.db.freed e.world.mem l hseg
  rw [← haddr] at hm'
  obtain ⟨files, heach, hopened, hnext, hclosed⟩ := hslots.opened.closeEach
  have hclose : closeSfds st.sfdArr st.sfdArrLen e.files = some files := by
    rw [closeSfds_eq _ hslots.room, hfiles]
    exact heach
  unfold serve
  split
  · -- nothing is in the array
    rename_i hlen
    have hsfds : sfds st = [] := by
      unfold sfds
      rw [hlen, List.take_zero]
    obtain rfl : files = st.files := by
      rw [hsfds] at heach
      exact (Option.some.inj heach).symm
    refine ⟨_, m', e.shut, ?_, hopened, rfl, hclosed, hreleased⟩
    rw [socketErr_eq hm', ← hfiles]
  · split
    · exact ⟨files, m', e.shut, pthreadErr_eq hclose hm', hopened, hnext, hclosed, hreleased⟩
    · refine ⟨files, m', sfds st, ?_, hopened, hnext, hclosed, hreleased⟩
      rw [shutdownSfds_eq _ hslots.room, Option.bind_eq_bind, Option.bind_some]
      exact pthreadErr_eq hclose hm'

lemma freed_once {m m' : Heap} (h : m'.cell = m.cell) {a : ℕ} (hle : m.next ≤ a)
    (hlt : a < m'.next) : m'.freed.count a = 1 := by
  rw [m'.count_freed hlt, h, m.fresh a hle]
  rfl

lemma settled_early (f : Table) {w w' : World} (h : w'.mem.cell = w.mem.cell) :
    Settled f w ⟨0, f, w', none, false, none, [], []⟩ := by
  refine ⟨rfl, by simp, fun _ => rfl, fun i hle hlt => ?_, rfl, rfl,
    fun a hle hlt => freed_once h hle hlt, h⟩
  exact absurd hle (Nat.not_le.mpr hlt)

lemma settled_served (env : Env) {w w' : World} (hslots : Slots f st)
    (hfresh : Fresh w.mem w'.mem l) :
    ∃ e, serve env st ⟨0, st.files, w', hd none l, true, st, [], []⟩ = some e ∧
      Settled f w e := by
  obtain ⟨files, m', shut, hserve, hopened, hnext, hclosed, hreleased⟩ :=
    serve_spec env (e := ⟨0, st.files, w', hd none l, true, st, [], []⟩) hslots rfl rfl hfresh.seg
  have hcells : m'.cell = w.mem.cell := hfresh.released hreleased
  refine ⟨_, hserve, rfl, ?_, by simp, fun i hle hlt => ?_, hopened.file_eq, rfl,
    fun a hle hlt => freed_once hcells hle hlt, hcells⟩
  · rintro st' hst'
    obtain rfl := Option.some.inj hst'
    exact ⟨hslots.accounted, hnext, hclosed⟩
  · obtain ⟨hcount, -⟩ | ⟨-, hcount⟩ := hopened.settled hle hlt
    · exact hcount
    · cases hcount

lemma main_cases (env : Env) (f : Table) (w : World) :
    (∃ e, (∀ turns, main env turns f w = .leave e) ∧ Settled f w e) ∨
      ∃ w' l, Fresh w.mem w'.mem l ∧ ∀ turns, main env turns f w =
        match bindLoop env.linux w'.mem turns env.attempts (hd none l) f with
        | .again st => .again st
        | .leave st =>
          (serve env st ⟨0, st.files, w', hd none l, true, st, [], []⟩).elim .fault .leave
        | .fault => .fault := by
  have hearly : Settled f w ⟨0, f, w, none, false, none, [], []⟩ := settled_early f rfl
  unfold main
  dsimp only
  split
  · exact Or.inl ⟨_, fun _ => rfl, hearly⟩
  · rename_i port bindIps _
    split
    · exact Or.inl ⟨_, fun _ => rfl, hearly⟩
    · split
      · exact Or.inl ⟨_, fun _ => rfl, hearly⟩
      · split
        · exact Or.inl ⟨_, fun _ => rfl, hearly⟩
        · obtain ⟨status, out', w', calls, hrun, -, hcases⟩ :=
            createAddrinfo_cases env.db port bindIps none w
          rw [hrun]
          obtain ⟨hbuilt, rfl, rfl⟩ | ⟨hfailed, rfl⟩ := hcases
          · exact Or.inr ⟨w', _, hbuilt.fresh, fun _ => rfl⟩
          · obtain ⟨_, c, -, -, hne, hstatus⟩ := hfailed.first
            left
            rw [← hstatus] at hne
            refine ⟨⟨0, f, w', none, false, none, [], []⟩, fun _ => ?_,
              settled_early f hfailed.kept⟩
            dsimp only
            rw [if_pos hne, decide_eq_false hne]

/-- **Accounting**: however many turns the loop of `main` has had, every socket opened so far is
closed once or stored once and the array has not overflowed; the loop is left, `main` returns, and
then every socket is closed once and the addresses are freed once if there are any. -/
theorem main_settled (env : Env) (f : Table) (w : World) :
    (∀ turns, (∃ st, main env turns f w = .again st ∧ Accounted f st) ∨
      ∃ e, main env turns f w = .leave e ∧ Settled f w e) ∧
    ∃ turns e, main env turns f w = .leave e := by
  obtain ⟨e, hleave, hsettled⟩ | ⟨w', l, hfresh, hmain⟩ := main_cases env f w
  · exact ⟨fun turns => Or.inr ⟨e, hleave turns, hsettled⟩, 0, e, hleave 0⟩
  · constructor
    · intro turns
      rw [hmain]
      obtain ⟨st, hst, hslots⟩ | ⟨st, hst, hslots⟩ :=
        bindLoop_slots env.linux turns env.attempts f hfresh.seg
      · rw [hst]
        exact Or.inl ⟨st, rfl, hslots.accounted⟩
      · obtain ⟨e, hserve, hsettled⟩ := settled_served env hslots hfresh
        rw [hst]
        dsimp only
        rw [hserve]
        exact Or.inr ⟨e, rfl, hsettled⟩
    · obtain ⟨st, hst, hslots⟩ := bindLoop_ends env.linux env.attempts f hfresh.seg
      obtain ⟨e, hserve, -⟩ := settled_served env hslots hfresh
      refine ⟨l.length + 1, e, ?_⟩
      rw [hmain, hst]
      dsimp only
      rw [hserve]
      rfl

/-- A resolver that finds more addresses than the array has room for. -/
def crowded : Netdb := Netdb.scripted fun _ =>
  .found (List.replicate 12 (inet [10, 0, 0, 1])) (List.cons_ne_nil _ _)

/-- The eleventh socket is closed in the loop and the ten before it behind it. -/
example :
    (match main ⟨["udpchat", "9000"], 0, (0, 0), 0, crowded, true, fun k => ⟨3 + k, 0, 0⟩, 0⟩ 12
        Table.empty ⟨Mem.empty, []⟩ with
      | .leave e => some (e.files.closed, e.world.mem.freed.length)
      | _ => none) = some (10 :: List.range 10, 12) := by
  decide +kernel

end Csockets.MainSockets
