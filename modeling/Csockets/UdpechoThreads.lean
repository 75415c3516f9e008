import Csockets.MainSockets
import Csockets.UdpechoModel

/-!
What holds between the threads of the datagram echo server, whichever order they run in.
-/

namespace Csockets.UdpechoThreads

open Blocks Links Bytes Files Loops Threads NetModel AddrModel AddrList
open UdpechoModel hiding createAddrinfo
open MainModel (MAX_BIND_COUNT Attempt BindState storeSfd)
open MainSockets (sfds Slots storeSfd_spec)
open Chain (hd hd_cons Seg)

variable {f : Table} {m : Heap} {bound st : BindState} {l : List (ℕ × Addrinfo)}

/-! ### The addresses -/

lemma addressLoop_error {db : Netdb} {port : String} {ips : List String} {first : Ptr}
    {w w' : World} {ret : ℤ} (h : addressLoop db port ips first w = some (.error ret, w')) :
    ret ≠ 0 := by
  induction ips generalizing first w with
  | nil => cases h
  | cons ip ips ih =>
    unfold addressLoop at h
    dsimp only at h
    split at h
    · rename_i hne
      obtain ⟨m, -, h⟩ := Option.bind_eq_some_iff.mp h
      cases h
      exact hne
    · obtain ⟨⟨first', m⟩, -, h⟩ := Option.bind_eq_some_iff.mp h
      exact ih h

/-- The two servers build the same list of addresses; this one does not tell what went wrong. -/
theorem createAddrinfo_eq (db : Netdb) (port : String) (bindIps : List String) (out : Ptr)
    (w : World) :
    UdpechoModel.createAddrinfo db port bindIps out w =
      (createAddrinfo db port bindIps out w).map fun r =>
        (if r.1 = 0 then 0 else 1, r.2) := by
  unfold UdpechoModel.createAddrinfo createAddrinfo
  cases hloop : addressLoop db port bindIps none w with
  | none => rfl
  | some r =>
    obtain ⟨r, w₁⟩ := r
    simp only [Option.bind_eq_bind, Option.bind_some]
    cases r with
    | error ret =>
      have hne := addressLoop_error hloop
      simp [hne]
    | ok first =>
      dsimp only
      split
      · split
        · rename_i hne
          simp [hne]
        · rfl
      · rfl

lemma createAddrinfo_cases (db : Netdb) (port : String) (bindIps : List String) (out : Ptr)
    (w : World) :
    ∃ w', (∃ l, UdpechoModel.createAddrinfo db port bindIps out w = some (0, hd none l, w') ∧
        Fresh w.mem w'.mem l) ∨
      UdpechoModel.createAddrinfo db port bindIps out w = some (1, out, w') ∧
        w'.mem.cell = w.mem.cell := by
  obtain ⟨status, out', w', calls, hrun, -, hcases⟩ :=
    AddrList.createAddrinfo_cases db port bindIps out w
  rw [createAddrinfo_eq, hrun]
  refine ⟨w', ?_⟩
  obtain ⟨hbuilt, rfl, rfl⟩ | ⟨hfailed, rfl⟩ := hcases
  · exact Or.inl ⟨_, rfl, hbuilt.fresh⟩
  · obtain ⟨_, c, -, -, hne, hstatus⟩ := hfailed.first
    rw [← hstatus] at hne
    right
    simp [hne, hfailed.kept]

/-! ### The sockets -/

/-- The sockets in the array are the ones that are open, and none of them is -1. -/
structure Filled (f : Table) (st : BindState) : Prop where
  slots : Slots f st
  real : ∀ fd ∈ sfds st, fd ≠ -1

def Left (f : Table) (m : Heap) (k : ℕ) (st : BindState) : Prop :=
  ∃ l, l.length = k ∧ st.ca = hd none l ∧ Seg m.cell l none ∧ Filled f st

lemma bindTurn_spec (attempt : Attempt) (k : ℕ) (st : BindState) (h : Left f m k st) :
    (∃ st' k', bindTurn m attempt st = .again st' ∧ Left f m k' st' ∧ k' < k) ∨
      ∃ st', bindTurn m attempt st = .leave st' ∧ Filled f st' := by
  obtain ⟨l, hk, hca, hseg, ⟨hroom, hopened⟩, hreal⟩ := h
  unfold bindTurn
  rw [hca]
  cases l with
  | nil => exact Or.inr ⟨st, rfl, ⟨hroom, hopened⟩, hreal⟩
  | cons x l =>
    obtain ⟨a, v⟩ := x
    obtain ⟨ha, hl⟩ := hseg
    have hlt : l.length < k := by
      rw [← hk, List.length_cons]
      exact Nat.lt_succ_self _
    rw [hd_cons]
    dsimp only
    rw [ha]
    dsimp only
    obtain hskip | ⟨hne, f₁, hopen, h₁⟩ := hopened.openAt attempt.socket
    · -- no socket
      rw [hskip]
      exact Or.inl ⟨_, _, if_pos rfl, ⟨l, rfl, rfl, hl, ⟨hroom, hopened⟩, hreal⟩, hlt⟩
    · obtain ⟨f₂, hclose, h₂⟩ := h₁.close_last
      rw [hopen]
      dsimp only
      rw [if_neg hne, hclose]
      dsimp only
      split
      · exact Or.inl ⟨_, _, rfl, ⟨l, rfl, rfl, hl, ⟨hroom, h₂⟩, hreal⟩, hlt⟩
      · split
        · exact Or.inl ⟨_, _, rfl, ⟨l, rfl, rfl, hl, ⟨hroom, h₂⟩, hreal⟩, hlt⟩
        · split
          · exact Or.inr ⟨_, rfl, ⟨hroom, h₂⟩, hreal⟩
          · rename_i hlen
            obtain ⟨sfdArr, hstore, htake⟩ :=
              storeSfd_spec st.sfdArr attempt.socket (Nat.lt_of_not_le hlen)
            rw [hstore]
            have hsfds : sfds ⟨hd none l, f₁, sfdArr, st.sfdArrLen + 1⟩ =
                sfds st ++ [attempt.socket] := htake
            refine Or.inl ⟨_, _, rfl, ⟨l, rfl, rfl, hl, ⟨Nat.lt_of_not_le hlen, ?_⟩, ?_⟩, hlt⟩
            · rw [hsfds]
              exact h₁
            · intro fd hfd
              rw [hsfds] at hfd
              rcases List.mem_append.mp hfd with hfd | hfd
              · exact hreal fd hfd
              · rw [List.mem_singleton.mp hfd]
                exact hne

lemma left_start (hseg : Seg m.cell l none) (f : Table) :
    Left f m l.length ⟨hd none l, f, Vector.replicate _ (-1), 0⟩ :=
  ⟨l, rfl, rfl, hseg, ⟨Nat.zero_le _, Opened.refl f⟩, by simp [sfds]⟩

lemma bindLoop_filled (turns : ℕ) (attempts : Stream' Attempt) (f : Table)
    (hseg : Seg m.cell l none) :
    (∃ st, bindLoop m turns attempts (hd none l) f = .again st) ∨
      ∃ st, bindLoop m turns attempts (hd none l) f = .leave st ∧ Filled f st := by
  have hturn : ∀ (attempts : Stream' Attempt) st, (∃ k, Left f m k st) →
      (∃ st', bindTurn m attempts.head st = .again st' ∧ ∃ k, Left f m k st') ∨
        ∃ st', bindTurn m attempts.head st = .leave st' ∧ Filled f st' := by
    rintro attempts st ⟨k, hleft⟩
    obtain ⟨st', k', hagain, hleft', -⟩ | hleave := bindTurn_spec attempts.head k st hleft
    · exact Or.inl ⟨st', hagain, k', hleft'⟩
    · exact Or.inr hleave
  obtain ⟨st, hagain, -⟩ | hleave :=
    loop_spec (fun _ st => ∃ k, Left f m k st) _ hturn turns ⟨_, left_start hseg f⟩
  · exact Or.inl ⟨st, hagain⟩
  · exact Or.inr hleave

lemma bindLoop_ends (attempts : Stream' Attempt) (f : Table) (hseg : Seg m.cell l none) :
    ∃ st, bindLoop m (l.length + 1) attempts (hd none l) f = .leave st ∧ Filled f st :=
  loop_ends (Left f m) _ bindTurn_spec attempts (left_start hseg f)

/-! ### What is echoed -/

/-- A datagram a thread has received: who sent it, and as many of its bytes as it has room for. -/
def receivedBy (n : Tid) : Event → Option (List UInt8 × List UInt8)
  | .received m _ name data =>
    if m = n then some (name, data.take MAX_DATAGRAM_SIZE) else none
  | _ => none

def sentBy (n : Tid) : Event → Option (List UInt8 × List UInt8)
  | .sent m _ name data _ => if m = n then some (name, data) else none
  | _ => none

def pending (c : Child) : List (List UInt8 × List UInt8) :=
  if c.pc = .sendto then [(c.aiAddr.bytes.take c.aiAddrlen, c.buffer.bytes.take c.bytes)] else []

lemma pending_of_ne {c : Child} (h : c.pc ≠ .sendto) : pending c = [] := if_neg h

/-! ### The invariant -/

def entry (bound : BindState) (w : World) (l : List (ℕ × Addrinfo)) : Exit :=
  ⟨1, .made, bound.files, w, hd none l, [], 0⟩

/-- What `main` comes to with `len` sockets and `k` threads: it succeeds if there was a thread for
each until a signal came, and fails if there was no socket or a thread could not be created. -/
def Ended (len k : ℕ) (status : ℤ) : Prop :=
  status = 0 ∧ k = len ∧ len ≠ 0 ∨ status = 1 ∧ (k < len ∨ k = 0 ∧ len = 0)

def Released (db : Netdb) (bound : BindState) (e exit : Exit) (mutex : Mutex) : Prop :=
  ∃ files m, Table.closeEach (sfds bound) bound.files = some files ∧
    db.freeaddrinfo e.addr e.world.mem = some m ∧
    exit = ⟨exit.status, mutex, files, ⟨m, e.world.calls⟩, e.addr, [e.addr], exit.childrenLen⟩

/-- What `main` has done by the time it is at a place. -/
def MainAt (db : Netdb) (bound : BindState) (e exit : Exit) : Pc → Prop
  | .create n => n ≤ bound.sfdArrLen ∧ bound.sfdArrLen ≠ 0 ∧ exit = { e with childrenLen := n }
  | .sigwait => bound.sfdArrLen ≠ 0 ∧ exit = { e with childrenLen := bound.sfdArrLen }
  | .stop n => n ≤ exit.childrenLen ∧ Ended bound.sfdArrLen exit.childrenLen exit.status ∧
      exit = { e with status := exit.status, childrenLen := exit.childrenLen }
  | .join n => n ≤ exit.childrenLen ∧ Ended bound.sfdArrLen exit.childrenLen exit.status ∧
      exit = { e with status := exit.status, childrenLen := exit.childrenLen }
  | .close n => n ≤ bound.sfdArrLen ∧ Ended bound.sfdArrLen exit.childrenLen exit.status ∧ ∃ files,
      Table.closeEach ((sfds bound).take n) bound.files = some files ∧
        exit = { e with status := exit.status, childrenLen := exit.childrenLen, files := files }
  | .freeaddrinfo => Ended bound.sfdArrLen exit.childrenLen exit.status ∧ ∃ files,
      Table.closeEach (sfds bound) bound.files = some files ∧
        exit = { e with status := exit.status, childrenLen := exit.childrenLen, files := files }
  | .destroy => Ended bound.sfdArrLen exit.childrenLen exit.status ∧ Released db bound e exit .made
  | .returned =>
    Ended bound.sfdArrLen exit.childrenLen exit.status ∧ Released db bound e exit .destroyed

/-- Which of the `k` threads have been told to stop, and which are known to be back. -/
def Flags (k : ℕ) (child : Tid → Child) : Pc → Prop
  | .create _ => True
  | .sigwait => True
  | .stop n => ∀ i : Tid, i < n → (child i).run = false
  | .join n => (∀ i : Tid, i < k → (child i).run = false) ∧
      ∀ i : Tid, i < n → (child i).pc = .returned
  | _ => ∀ i : Tid, i < k → (child i).pc = .returned

/-- A thread has the socket of its number, and has sent back what it has received but for what it
has in hand. -/
structure ChildAt (bound : BindState) (k : ℕ) (log : List Event) (i : Tid) (c : Child) : Prop where
  born : c.pc ≠ .unborn ↔ i < k
  sfd : i < k → (sfds bound)[(i : ℕ)]? = some c.sfd
  bytes : c.bytes ≤ MAX_DATAGRAM_SIZE
  addrlen : c.aiAddrlen ≤ sizeofSockaddrStorage
  echo : log.filterMap (receivedBy i) = log.filterMap (sentBy i) ++ pending c

def OnSocket (bound : BindState) (ev : Event) : Prop :=
  ∃ sfd, (sfds bound)[(ev.thread : ℕ)]? = some sfd ∧ ev.socket = bound.files.file sfd

structure Inv (db : Netdb) (bound : BindState) (e : Exit) (st : State) : Prop where
  arr : st.sfdArr = bound.sfdArr
  len : st.sfdArrLen = bound.sfdArrLen
  main : MainAt db bound e st.exit st.pc
  flags : Flags st.exit.childrenLen st.child st.pc
  child : ∀ i, ChildAt bound st.exit.childrenLen st.log i (st.child i)
  events : ∀ ev ∈ st.log, OnSocket bound ev

variable {db : Netdb} {w w' : World} {e : Exit} {st st' : State}

lemma childAt_unborn (i : Tid) : ChildAt bound 0 [] i unborn := by
  refine ⟨by simp [unborn], ?_, Nat.zero_le _, Nat.zero_le _, rfl⟩
  intro hi
  exact absurd hi (Nat.not_lt_zero _)

lemma inv_launch (h : Slots f bound) (w : World) (l : List (ℕ × Addrinfo)) :
    Inv db bound (entry bound w l) (launch bound (entry bound w l)) := by
  unfold launch
  refine ⟨rfl, rfl, ?_, ?_, childAt_unborn, by simp⟩
  · dsimp only
    split
    · rename_i hlen
      have hnil : sfds bound = [] := h.sfds_nil hlen
      refine ⟨Or.inr ⟨rfl, Or.inr ⟨rfl, hlen⟩⟩, bound.files, ?_, rfl⟩
      rw [hnil]
      rfl
    · rename_i hlen
      exact ⟨Nat.zero_le _, hlen, rfl⟩
  · dsimp only
    split
    · intro i hi
      exact absurd hi (Nat.not_lt_zero _)
    · trivial

/-! ### Steps of the threads -/

inductive ChildSucc (run : Bool) : ChildPc → ChildPc → Prop
  | go (hrun : run = true) : ChildSucc run .head .recvfrom
  | stop (hrun : run = false) : ChildSucc run .head .returned
  | timeout : ChildSucc run .recvfrom .head
  | received : ChildSucc run .recvfrom .sendto
  | failed : ChildSucc run .recvfrom .returned
  | sent : ChildSucc run .sendto .head
  | refused : ChildSucc run .sendto .returned

lemma ChildSucc.alive {run : Bool} {pc pc' : ChildPc} (h : ChildSucc run pc pc') :
    pc ≠ .unborn ∧ pc ≠ .returned ∧ pc' ≠ .unborn := by
  cases h <;> simp

lemma receivedBy_of_ne {i : Tid} {ev : Event} (h : ev.thread ≠ i) : receivedBy i ev = none := by
  cases ev with
  | received n socket name data => exact if_neg h
  | sent n socket name data ret => rfl

lemma sentBy_of_ne {i : Tid} {ev : Event} (h : ev.thread ≠ i) : sentBy i ev = none := by
  cases ev with
  | received n socket name data => rfl
  | sent n socket name data ret => exact if_neg h

lemma ChildAt.append {k : ℕ} {log evs : List Event} {i : Tid} {c : Child}
    (h : ChildAt bound k log i c) (hevs : ∀ ev ∈ evs, ev.thread ≠ i) :
    ChildAt bound k (log ++ evs) i c := by
  obtain ⟨hborn, hsfd, hbytes, haddrlen, hecho⟩ := h
  refine ⟨hborn, hsfd, hbytes, haddrlen, ?_⟩
  have hreceived : evs.filterMap (receivedBy i) = [] :=
    List.filterMap_eq_nil_iff.mpr fun ev hev => receivedBy_of_ne (hevs ev hev)
  have hsent : evs.filterMap (sentBy i) = [] :=
    List.filterMap_eq_nil_iff.mpr fun ev hev => sentBy_of_ne (hevs ev hev)
  rw [List.filterMap_append, List.filterMap_append, hreceived, hsent, List.append_nil,
    List.append_nil, hecho]

lemma Inv.files (h : Inv db bound (entry bound w l) st) {n : Tid}
    (hne : (st.child n).pc ≠ .unborn) (hne' : (st.child n).pc ≠ .returned) :
    st.exit.files = bound.files := by
  have hn : n < st.exit.childrenLen := (h.child n).born.mp hne
  have hmain := h.main
  have hflags := h.flags
  cases hpc : st.pc with
  | create k =>
    rw [hpc] at hmain
    rw [hmain.2.2]
    rfl
  | sigwait =>
    rw [hpc] at hmain
    rw [hmain.2]
    rfl
  | stop k =>
    rw [hpc] at hmain
    rw [hmain.2.2]
    rfl
  | join k =>
    rw [hpc] at hmain
    rw [hmain.2.2]
    rfl
  | _ =>
    rw [hpc] at hflags
    exact absurd (hflags n hn) hne'

lemma Flags.update {k : ℕ} {child : Tid → Child} {pc : Pc} (h : Flags k child pc) {n : Tid}
    (hn : n < k) {c : Child} (hrun : c.run = (child n).run) (hne : (child n).pc ≠ .returned) :
    Flags k (Function.update child n c) pc := by
  have hflag : ∀ i, (Function.update child n c i).run = (child i).run := by
    intro i
    by_cases hi : i = n
    · subst hi
      rw [Function.update_self, hrun]
    · rw [Function.update_of_ne hi]
  have hback : ∀ i, (child i).pc = .returned → (Function.update child n c i).pc = .returned := by
    intro i hi
    rw [Function.update_of_ne]
    · exact hi
    · rintro rfl
      exact hne hi
  cases pc with
  | create m => trivial
  | sigwait => trivial
  | stop m =>
    intro i hi
    rw [hflag]
    exact h i hi
  | join m =>
    refine ⟨fun i hi => ?_, fun i hi => hback i (h.2 i hi)⟩
    rw [hflag]
    exact h.1 i hi
  | _ => exact absurd (h n hn) hne

/-- A step of a thread: it goes one of its ways, and all the others stay where they are. -/
structure Goes (db : Netdb) (bound : BindState) (e : Exit) (st st' : State) (n : Tid) : Prop where
  inv : Inv db bound e st'
  pc : st'.pc = st.pc
  succ : ChildSucc (st.child n).run (st.child n).pc (st'.child n).pc
  child : st'.child = Function.update st.child n (st'.child n)

lemma Inv.goes (h : Inv db bound e st) {n : Tid} {c : Child} {pc : ChildPc} {log : List Event}
    (evs : List Event) (hpc : (st.child n).pc = pc) (hsucc : ChildSucc (st.child n).run pc c.pc)
    (hrun : c.run = (st.child n).run) (hsfd : c.sfd = (st.child n).sfd)
    (hbytes : c.bytes ≤ MAX_DATAGRAM_SIZE) (haddrlen : c.aiAddrlen ≤ sizeofSockaddrStorage)
    (hlog : log = st.log ++ evs) (hevs : ∀ ev ∈ evs, ev.thread = n ∧ OnSocket bound ev)
    (hecho : pending (st.child n) ++ evs.filterMap (receivedBy n) =
      evs.filterMap (sentBy n) ++ pending c) :
    Goes db bound e st { st with child := Function.update st.child n c, log := log } n := by
  subst hpc
  subst hlog
  obtain ⟨hne, hne', hne''⟩ := hsucc.alive
  have hn : n < st.exit.childrenLen := (h.child n).born.mp hne
  refine ⟨⟨h.arr, h.len, h.main, h.flags.update hn hrun hne', fun i => ?_, fun ev hev => ?_⟩, rfl,
    ?_, ?_⟩
  · dsimp only
    by_cases hi : i = n
    · subst hi
      have hi := h.child i
      rw [Function.update_self]
      refine ⟨by simp [hne'', hn], fun hlt => hsfd ▸ hi.sfd hlt, hbytes, haddrlen, ?_⟩
      rw [List.filterMap_append, List.filterMap_append, hi.echo, List.append_assoc, hecho,
        List.append_assoc]
    · rw [Function.update_of_ne hi]
      refine (h.child i).append fun ev hev => ?_
      rw [(hevs ev hev).1]
      exact Ne.symm hi
  · rcases List.mem_append.mp hev with hev | hev
    · exact h.events ev hev
    · exact (hevs ev hev).2
  · dsimp only
    rw [Function.update_self]
    exact hsucc
  · dsimp only
    rw [Function.update_self]

lemma storage_take (name : Sockaddr) (h : name.bytes.length ≤ sizeofSockaddrStorage) :
    name.storage.bytes.take name.bytes.length = name.bytes := by
  have hslice : name.storage.slice 0 name.bytes.length =
      (name.bytes.drop 0).take name.bytes.length := Buf.init_slice _ (by omega) (by omega)
  rw [List.drop_zero, List.take_length] at hslice
  exact hslice

lemma receive_spec (h : Inv db bound (entry bound w l) st) {n : Tid}
    (hpc : (st.child n).pc = .recvfrom) {name : Sockaddr}
    (hname : name.bytes.length ≤ sizeofSockaddrStorage) (data : List UInt8) :
    ∃ st', receive n name data st = .next st' ∧
      Goes db bound (entry bound w l) st st' n := by
  have hchild := h.child n
  have hne : (st.child n).pc ≠ .unborn := by simp [hpc]
  have hsfd := hchild.sfd (hchild.born.mp hne)
  have hfiles := h.files hne (by simp [hpc])
  have hnil : pending (st.child n) = [] := pending_of_ne (by simp [hpc])
  unfold receive
  dsimp only
  cases hfile : st.exit.files.file (st.child n).sfd with
  | none =>
    refine ⟨_, rfl, h.goes [] hpc .failed rfl rfl hchild.bytes hchild.addrlen ?_ ?_ ?_⟩
    · rw [List.append_nil]
    · simp
    · rw [hnil]
      rfl
  | some i =>
    dsimp only
    have hlen : (data.take MAX_DATAGRAM_SIZE).length ≤ MAX_DATAGRAM_SIZE :=
      List.length_take_le _ _
    obtain ⟨buffer, hwrite⟩ :=
      (st.child n).buffer.write_fits 0 (data.take MAX_DATAGRAM_SIZE) (by omega)
    have htake := Buf.take_write hwrite
    rw [Nat.zero_add, List.take_zero, List.nil_append] at htake
    rw [hwrite]
    refine ⟨_, rfl, h.goes _ hpc .received rfl rfl hlen hname rfl ?_ ?_⟩
    · intro ev hev
      rw [List.mem_singleton.mp hev]
      refine ⟨rfl, _, hsfd, ?_⟩
      rw [← hfiles, hfile]
      rfl
    · rw [hnil]
      simp only [pending, storage_take name hname, htake]
      simp [receivedBy, sentBy]

lemma send_spec (h : Inv db bound (entry bound w l) st) {n : Tid}
    (hpc : (st.child n).pc = .sendto) (ret : ℤ) :
    ∃ st', send n ret st = .next st' ∧ Goes db bound (entry bound w l) st st' n := by
  have hchild := h.child n
  have hne : (st.child n).pc ≠ .unborn := by simp [hpc]
  have hsfd := hchild.sfd (hchild.born.mp hne)
  have hfiles := h.files hne (by simp [hpc])
  have hdata : readN (st.child n).buffer.bytes (st.child n).bytes =
      some ((st.child n).buffer.bytes.take (st.child n).bytes) :=
    readN_of_le (hchild.bytes.trans_eq (st.child n).buffer.size.symm)
  have hname : readN (st.child n).aiAddr.bytes (st.child n).aiAddrlen =
      some ((st.child n).aiAddr.bytes.take (st.child n).aiAddrlen) :=
    readN_of_le (hchild.addrlen.trans_eq (st.child n).aiAddr.size.symm)
  have hsent : ∀ (pc : ChildPc) (ret : ℤ), pc ≠ .sendto → ChildSucc (st.child n).run .sendto pc →
      Goes db bound (entry bound w l) st
        { st with
          child := Function.update st.child n { st.child n with pc := pc },
          log := st.log ++ [.sent n (st.exit.files.file (st.child n).sfd)
            ((st.child n).aiAddr.bytes.take (st.child n).aiAddrlen)
            ((st.child n).buffer.bytes.take (st.child n).bytes) ret] } n := by
    intro pc ret hpc' hsucc
    refine h.goes _ hpc hsucc rfl rfl hchild.bytes hchild.addrlen rfl ?_ ?_
    · intro ev hev
      rw [List.mem_singleton.mp hev]
      exact ⟨rfl, _, hsfd, congrArg (Table.file · _) hfiles⟩
    · rw [pending_of_ne (c := { st.child n with pc := pc }) hpc', pending, if_pos hpc]
      simp [receivedBy, sentBy]
  unfold send
  dsimp only
  rw [hdata, hname]
  dsimp only
  generalize (if st.exit.files.file (st.child n).sfd = none then -1 else ret) = ret
  split
  · exact ⟨_, rfl, hsent .returned _ (by simp) .refused⟩
  · exact ⟨_, rfl, hsent .head _ (by simp) .sent⟩

lemma Inv.goes_silent (h : Inv db bound e st) {n : Tid} {c : Child} {pc : ChildPc}
    (hpc : (st.child n).pc = pc) (hne : pc ≠ .sendto)
    (hsucc : ChildSucc (st.child n).run pc c.pc) (hne' : c.pc ≠ .sendto)
    (hrun : c.run = (st.child n).run) (hsfd : c.sfd = (st.child n).sfd)
    (hbytes : c.bytes = (st.child n).bytes) (haddrlen : c.aiAddrlen ≤ sizeofSockaddrStorage) :
    Goes db bound e st (st.put n c) n := by
  refine h.goes [] hpc hsucc hrun hsfd (hbytes ▸ (h.child n).bytes) haddrlen ?_ ?_ ?_
  · rw [List.append_nil]
  · simp
  · rw [pending_of_ne (hpc ▸ hne), pending_of_ne hne']
    rfl

lemma childStep_spec (h : Inv db bound (entry bound w l) st) (a : Action) :
    childStep a st = .blocked ∨
      ∃ n st', childStep a st = .next st' ∧ Goes db bound (entry bound w l) st st' n := by
  unfold childStep
  cases a with
  | child n =>
    dsimp only
    split
    · rename_i hpc
      right
      split
      · rename_i hrun
        exact ⟨n, _, rfl, h.goes_silent hpc (by simp) (.go hrun) (by simp) rfl rfl rfl le_rfl⟩
      · rename_i hrun
        have hsucc := ChildSucc.stop (Bool.eq_false_iff.mpr hrun)
        exact ⟨n, _, rfl, h.goes_silent hpc (by simp) hsucc (by simp) rfl rfl rfl
          (h.child n).addrlen⟩
    · exact Or.inl rfl
  | failed n errno =>
    dsimp only
    split
    · rename_i hpc
      right
      split
      · exact ⟨n, _, rfl, h.goes_silent hpc (by simp) .timeout (by simp) rfl rfl rfl
          (h.child n).addrlen⟩
      · exact ⟨n, _, rfl, h.goes_silent hpc (by simp) .failed (by simp) rfl rfl rfl
          (h.child n).addrlen⟩
    · exact Or.inl rfl
  | received n name fits data =>
    dsimp only
    split
    · rename_i hpc
      exact Or.inr ⟨n, receive_spec h hpc fits data⟩
    · exact Or.inl rfl
  | sent n ret =>
    dsimp only
    split
    · rename_i hpc
      exact Or.inr ⟨n, send_spec h hpc ret⟩
    · exact Or.inl rfl
  | _ => exact Or.inl rfl

/-! ### Steps of `main` -/

inductive MainSucc : Pc → Pc → Prop
  | created (n : ℕ) : MainSucc (.create n) (.create (n + 1))
  | failed (n : ℕ) : MainSucc (.create n) (.stop 0)
  | wait (n : ℕ) : MainSucc (.create n) .sigwait
  | signal : MainSucc .sigwait (.stop 0)
  | stop (n : ℕ) : MainSucc (.stop n) (.stop (n + 1))
  | stopped (n : ℕ) : MainSucc (.stop n) (.join 0)
  | join (n : ℕ) (hn : n < MAX_BIND_COUNT) : MainSucc (.join n) (.join (n + 1))
  | joined (n : ℕ) : MainSucc (.join n) (.close 0)
  | close (n : ℕ) (hn : n < MAX_BIND_COUNT) : MainSucc (.close n) (.close (n + 1))
  | closed (n : ℕ) : MainSucc (.close n) .freeaddrinfo
  | freed : MainSucc .freeaddrinfo .destroy
  | destroyed : MainSucc .destroy .returned

def Stopping : Pc → Prop
  | .create _ => False
  | .sigwait => False
  | .stop _ => False
  | _ => True

/-- A step of `main`: behind the flags it leaves the threads alone. -/
structure Moves (db : Netdb) (bound : BindState) (e : Exit) (st st' : State) : Prop where
  inv : Inv db bound e st'
  succ : MainSucc st.pc st'.pc
  child : Stopping st.pc → st'.child = st.child

lemma create_spec (hslots : Slots f bound) (h : Inv db bound (entry bound w l) st) {n : ℕ}
    (hpc : st.pc = .create n) (hn : n < bound.sfdArrLen) (ret : ℤ) :
    ∃ st', create n ret st = .next st' ∧ Moves db bound (entry bound w l) st st' := by
  have hmax : n < MAX_BIND_COUNT := hn.trans_le hslots.room
  have hmain := h.main
  rw [hpc] at hmain
  obtain ⟨hle, hlen, hexit⟩ := hmain
  have hk : st.exit.childrenLen = n := by rw [hexit]
  have hchild := h.child ⟨n, hmax⟩
  have hunborn : (st.child ⟨n, hmax⟩).pc = .unborn := by
    by_contra hne
    have hlt : n < st.exit.childrenLen := hchild.born.mp hne
    omega
  have hecho : st.log.filterMap (receivedBy ⟨n, hmax⟩) = st.log.filterMap (sentBy ⟨n, hmax⟩) := by
    rw [hchild.echo, pending_of_ne (by simp [hunborn]), List.append_nil]
  obtain ⟨sfd, hsfd, hget⟩ := hslots.sfdArr_getElem? hn
  unfold create
  rw [h.arr, hsfd]
  dsimp only
  rw [dif_pos hmax]
  split
  · -- what is not created stays unborn
    refine ⟨_, rfl, ⟨h.arr, h.len, ⟨Nat.zero_le _, ?_, ?_⟩, ?_, fun i => ?_, h.events⟩, ?_, ?_⟩
    · refine Or.inr ⟨?_, Or.inl (hk.trans_lt hn)⟩
      dsimp only [State.put]
      rw [hexit]
      rfl
    · dsimp only [State.put]
      rw [hexit]
    · intro i hi
      exact absurd hi (Nat.not_lt_zero _)
    · dsimp only [State.put]
      by_cases hi : i = ⟨n, hmax⟩
      · subst hi
        rw [Function.update_self]
        refine ⟨hchild.born, fun hlt => ?_, hchild.bytes, hchild.addrlen, hchild.echo⟩
        exact absurd hlt (by simp [hk])
      · rw [Function.update_of_ne hi]
        exact h.child i
    · dsimp only
      rw [hpc]
      exact .failed n
    · rw [hpc]
      exact False.elim
  · have hroom : ¬ st.exit.childrenLen ≥ MAX_BIND_COUNT := by omega
    refine ⟨_, if_neg hroom, ⟨h.arr, h.len, ⟨?_, hlen, ?_⟩, trivial, fun i => ?_, h.events⟩, ?_, ?_⟩
    · exact hn
    · dsimp only [State.put]
      rw [hk, hexit]
    · dsimp only [State.put]
      by_cases hi : i = ⟨n, hmax⟩
      · subst hi
        rw [Function.update_self]
        refine ⟨by simp [hk], fun _ => hget, hchild.bytes, hchild.addrlen, ?_⟩
        rw [hecho, pending_of_ne (by simp), List.append_nil]
      · rw [Function.update_of_ne hi]
        obtain ⟨hborn, hsocket, hbytes, haddrlen, hechoed⟩ := h.child i
        have hne : (i : ℕ) ≠ n := fun heq => hi (Fin.ext heq)
        refine ⟨hborn.trans ?_, fun hlt => hsocket ?_, hbytes, haddrlen, hechoed⟩
        · omega
        · omega
    · dsimp only
      rw [hpc]
      exact .created n
    · rw [hpc]
      exact False.elim

lemma stop_spec (hslots : Slots f bound) (h : Inv db bound (entry bound w l) st) {n : ℕ}
    (hpc : st.pc = .stop n) (hn : n < st.exit.childrenLen) :
    ∃ st', stop n st = .next st' ∧ Moves db bound (entry bound w l) st st' := by
  have hmain := h.main
  have hflags := h.flags
  rw [hpc] at hmain hflags
  obtain ⟨hle, hended, hexit⟩ := hmain
  have hmax : n < MAX_BIND_COUNT := by
    have hroom := hslots.room
    rcases hended with ⟨-, hk, -⟩ | ⟨-, hk⟩ <;> omega
  unfold stop
  rw [dif_pos hmax]
  refine ⟨_, rfl, ⟨h.arr, h.len, ⟨hn, hended, hexit⟩, fun i hi => ?_, fun i => ?_, h.events⟩, ?_,
    ?_⟩
  · dsimp only [State.put]
    by_cases hin : i = ⟨n, hmax⟩
    · subst hin
      rw [Function.update_self]
    · have hne : (i : ℕ) ≠ n := fun heq => hin (Fin.ext heq)
      rw [Function.update_of_ne hin]
      exact hflags i (by omega)
  · dsimp only [State.put]
    by_cases hin : i = ⟨n, hmax⟩
    · subst hin
      have hi := h.child ⟨n, hmax⟩
      rw [Function.update_self]
      exact ⟨hi.born, hi.sfd, hi.bytes, hi.addrlen, hi.echo⟩
    · rw [Function.update_of_ne hin]
      exact h.child i
  · dsimp only
    rw [hpc]
    exact .stop n
  · rw [hpc]
    exact False.elim

lemma Inv.moves (h : Inv db bound e st) (exit : Exit) {pc pc' : Pc} (hpc : st.pc = pc)
    (hsucc : MainSucc pc pc') (hk : exit.childrenLen = st.exit.childrenLen)
    (hmain : MainAt db bound e exit pc') (hflags : Flags st.exit.childrenLen st.child pc') :
    Moves db bound e st { st with exit := exit, pc := pc' } := by
  subst hpc
  refine ⟨⟨h.arr, h.len, hmain, ?_, fun i => ?_, h.events⟩, hsucc, fun _ => rfl⟩
  · rw [hk]
    exact hflags
  · rw [hk]
    exact h.child i

lemma closeSfd_spec (hfilled : Filled f bound) (h : Inv db bound (entry bound w l) st) {n : ℕ}
    (hpc : st.pc = .close n) (hn : n < bound.sfdArrLen) :
    ∃ st', closeSfd n st = .next st' ∧ Moves db bound (entry bound w l) st st' := by
  have hmain := h.main
  have hflags := h.flags
  rw [hpc] at hmain hflags
  obtain ⟨hle, hended, files₁, hclosed, hexit⟩ := hmain
  obtain ⟨files, hall, -⟩ := hfilled.slots.opened.closeEach
  obtain ⟨sfd, hsfd, hget⟩ := hfilled.slots.sfdArr_getElem? hn
  obtain ⟨files₂, hclose, htake⟩ := Table.closeEach_take_succ hall hget hclosed
  have hreal : sfd ≠ -1 := hfilled.real sfd (List.mem_of_getElem? hget)
  have hfiles : st.exit.files = files₁ := by rw [hexit]
  have hmax : n < MAX_BIND_COUNT := hn.trans_le hfilled.slots.room
  unfold closeSfd
  rw [h.arr, hsfd]
  dsimp only
  rw [if_pos hreal, hfiles, hclose]
  refine ⟨_, rfl, ?_⟩
  have hmoves := h.moves { st.exit with files := files₂ } hpc (.close n hmax) rfl
    ⟨hn, hended, files₂, htake, by rw [hexit]⟩ hflags
  rw [h.arr] at hmoves
  exact hmoves

lemma mainStep_spec (hfilled : Filled f bound) (hseg : Seg w.mem.cell l none)
    (h : Inv db bound (entry bound w l) st) (a : Action) :
    mainStep db a st = .blocked ∨
      ∃ st', mainStep db a st = .next st' ∧ Moves db bound (entry bound w l) st st' := by
  have hslots := hfilled.slots
  have hroom := hslots.room
  have hmain := h.main
  have hflags := h.flags
  have hlen := h.len
  have hfull : (sfds bound).take bound.sfdArrLen = sfds bound := by
    rw [← hslots.sfds_length, List.take_length]
  unfold mainStep
  cases hpc : st.pc with
  | create n =>
    rw [hpc] at hmain
    obtain ⟨hle, hne, hexit⟩ := hmain
    cases a with
    | created ret =>
      dsimp only
      split
      · rename_i hlt
        exact Or.inr (create_spec hslots h hpc (hlen ▸ hlt) ret)
      · exact Or.inl rfl
    | main =>
      dsimp only
      split
      · exact Or.inl rfl
      · obtain rfl : n = bound.sfdArrLen := by omega
        exact Or.inr ⟨_, rfl, h.moves st.exit hpc (.wait _) rfl ⟨hne, hexit⟩ trivial⟩
    | _ => exact Or.inl rfl
  | sigwait =>
    rw [hpc] at hmain
    obtain ⟨hne, hexit⟩ := hmain
    have hk : st.exit.childrenLen = bound.sfdArrLen := by rw [hexit]
    cases a with
    | main =>
      refine Or.inr ⟨_, rfl,
        h.moves _ hpc .signal rfl ⟨Nat.zero_le _, Or.inl ⟨rfl, hk, hne⟩, ?_⟩ ?_⟩
      · dsimp only
        rw [hexit]
      · intro i hi
        exact absurd hi (Nat.not_lt_zero _)
    | _ => exact Or.inl rfl
  | stop n =>
    rw [hpc] at hmain hflags
    obtain ⟨hle, hended, hexit⟩ := hmain
    cases a with
    | main =>
      dsimp only
      right
      split
      · rename_i hlt
        exact stop_spec hslots h hpc hlt
      · obtain rfl : n = st.exit.childrenLen := by omega
        refine ⟨_, rfl, h.moves st.exit hpc (.stopped _) rfl
          ⟨Nat.zero_le _, hended, hexit⟩ ⟨hflags, ?_⟩⟩
        intro i hi
        exact absurd hi (Nat.not_lt_zero _)
    | _ => exact Or.inl rfl
  | join n =>
    rw [hpc] at hmain hflags
    obtain ⟨hle, hended, hexit⟩ := hmain
    obtain ⟨htold, hback⟩ := hflags
    cases a with
    | main =>
      dsimp only
      split
      · rename_i hlt
        have hmax : n < MAX_BIND_COUNT := by
          rcases hended with ⟨-, hk, -⟩ | ⟨-, hk⟩ <;> omega
        unfold join
        rw [dif_pos hmax]
        split
        · rename_i hreturned
          refine Or.inr ⟨_, rfl, h.moves st.exit hpc (.join n hmax) rfl
            ⟨hlt, hended, hexit⟩ ⟨htold, fun i hi => ?_⟩⟩
          by_cases hin : i = ⟨n, hmax⟩
          · rw [hin]
            exact hreturned
          · have hne : (i : ℕ) ≠ n := fun heq => hin (Fin.ext heq)
            exact hback i (by omega)
        · exact Or.inl rfl
      · obtain rfl : n = st.exit.childrenLen := by omega
        right
        exact ⟨_, rfl, h.moves st.exit hpc (.joined _) rfl
          ⟨Nat.zero_le _, hended, bound.files, rfl, hexit⟩ hback⟩
    | _ => exact Or.inl rfl
  | close n =>
    rw [hpc] at hmain hflags
    obtain ⟨hle, hended, files₁, hclosed, hexit⟩ := hmain
    cases a with
    | main =>
      dsimp only
      right
      split
      · rename_i hlt
        exact closeSfd_spec hfilled h hpc (hlen ▸ hlt)
      · obtain rfl : n = bound.sfdArrLen := by omega
        rw [hfull] at hclosed
        exact ⟨_, rfl, h.moves st.exit hpc (.closed _) rfl
          ⟨hended, files₁, hclosed, hexit⟩ hflags⟩
    | _ => exact Or.inl rfl
  | freeaddrinfo =>
    rw [hpc] at hmain hflags
    obtain ⟨hended, files₁, hclosed, hexit⟩ := hmain
    obtain ⟨m', hm', -⟩ := db.freed w.mem l hseg
    cases a with
    | main =>
      have hworld : st.exit.world = w := by rw [hexit]; rfl
      have haddr : st.exit.addr = hd none l := by rw [hexit]; rfl
      dsimp only
      rw [hworld, haddr, hm']
      refine Or.inr ⟨_, rfl, h.moves _ hpc .freed rfl ⟨hended, files₁, m', hclosed, hm', ?_⟩ hflags⟩
      dsimp only
      rw [hexit]
      rfl
    | _ => exact Or.inl rfl
  | destroy =>
    rw [hpc] at hmain hflags
    obtain ⟨hended, files₁, m', hclosed, hm', hexit⟩ := hmain
    cases a with
    | main =>
      refine Or.inr ⟨_, rfl,
        h.moves _ hpc .destroyed rfl ⟨hended, files₁, m', hclosed, hm', ?_⟩ hflags⟩
      dsimp only
      rw [hexit]
    | _ => exact Or.inl rfl
  | returned =>
    cases a <;> exact Or.inl rfl

end Csockets.UdpechoThreads
