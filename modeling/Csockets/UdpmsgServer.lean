import Csockets.UdpmsgNewlines

/-!
The datagram server seen from outside (`server` in `udpmsg/main.old.c`).

`serverView` is the server without a buffer: the text it prints of a datagram is that of this
datagram only. The address it prints with it is the sender's, unless that is a short one or
`inet_ntop` fails: then what was stored before shows. The server is `serverView` on every feed, so
that its runs and the ends they come to can be read off the feed.
-/

namespace Csockets.UdpmsgServer

open Bytes Loops UdpmsgModel UdpmsgNewlines

/-- What is left of the server when its buffer is forgotten. -/
structure View where
  address : List UInt8
  ipaddr : String
  errcount : ℕ
  printed : List Line

def view (s : Server) : View := ⟨s.clientaddr.bytes, s.ipaddr, s.errcount, s.printed⟩

/-- What is printed of a datagram: as far as its first NUL, without the newlines at its end. -/
def text (bytes : List UInt8) : List UInt8 := cstring (bytes.rdropWhile (· = NEWLINE))

instance : DecidablePred Harmless
  | .fail _ => isTrue trivial
  | .packet bytes _ addr =>
    inferInstanceAs (Decidable (bytes = [] ∨ addr.length < 28 ∧ ∃ c ∈ bytes, c ≠ NEWLINE))

variable (inetNtop : List UInt8 → Option String)

def answer (bytes addr : List UInt8) (v : View) : View :=
  let stored := addr.take sizeofSockaddr
  let address := stored ++ v.address.drop stored.length
  if bytes = [] then { v with address := address, printed := v.printed ++ [.empty] }
  else
    let ipaddr := (inetNtop ((address.drop 4).take 4)).getD v.ipaddr
    { v with
      address := address, ipaddr := ipaddr,
      printed := v.printed ++ [.ipv4, .received ipaddr bytes.length (text bytes)] }

def viewTurn (r : Recv) (v : View) : Turn View View :=
  match r with
  | .fail true =>
    if v.errcount + 1 > 3 then .leave { v with errcount := v.errcount + 1 }
    else .again { v with errcount := v.errcount + 1 }
  | .fail false => .leave v
  | .packet bytes fits addr =>
    if Harmless (.packet bytes fits addr) then .again (answer inetNtop bytes addr v) else .fault

/-- The server without its buffer. -/
def serverView (turns : ℕ) (feed : Stream' Recv) : Turn View View :=
  loop (viewTurn inetNtop) turns feed ⟨List.replicate sizeofSockaddr 0, "", 0, []⟩

/-! ### One turn -/

variable {inetNtop}

/-- A datagram of newlines only, or from an address that the server takes for a longer one than
it has room for, is the end. -/
lemma packet_harmful {bytes addr : List UInt8} {fits : bytes.length ≤ MAX_PACKET_SIZE - 1}
    (h : ¬ Harmless (.packet bytes fits addr)) (s : Server) :
    packet inetNtop bytes addr s = none := by
  obtain ⟨hne, hbad⟩ := not_or.mp h
  have hpos : 1 ≤ bytes.length := List.length_pos_iff.mpr hne
  obtain ⟨b₁, b₂, hb₁, hb₂, hreceived⟩ := received s.buffer ⟨bytes, hpos, fits⟩
  obtain ⟨clientaddr, hclient⟩ := stores_addr s addr
  have hsize : clientaddr.bytes.length = 16 := clientaddr.size
  have hlen : bytes.length ≠ 0 := by omega
  dsimp only at hb₁ hb₂
  unfold packet
  rw [hb₁, hclient]
  simp only [Option.bind_eq_bind, Option.bind_some, if_neg hlen]
  by_cases haddr : addr.length ≥ 28
  · have hread : readN (clientaddr.bytes.drop 8) 16 = none :=
      if_neg (by rw [List.length_drop]; omega)
    rw [if_pos haddr, hread]
    rfl
  · have hread : readN (clientaddr.bytes.drop 4) 4 = some ((clientaddr.bytes.drop 4).take 4) :=
      readN_of_le (by rw [List.length_drop]; omega)
    have hnone : ¬ ∃ c ∈ bytes, c ≠ NEWLINE := fun h' => hbad ⟨by omega, h'⟩
    rw [if_neg haddr, hread]
    simp only [Option.map_some, Option.bind_some, hb₂]
    -- the loop over the newlines is not left
    split
    · rename_i t ht
      exact absurd ht (trim_allNewlines
        (start_allNewlines (d := ⟨bytes, hpos, fits⟩) hnone hreceived) _ t)
    · rfl

/-- **One packet**: the buffer does not show. -/
lemma packet_view (bytes addr : List UInt8) (fits : bytes.length ≤ MAX_PACKET_SIZE - 1)
    (s : Server) :
    (packet inetNtop bytes addr s).map view =
      if Harmless (.packet bytes fits addr) then some (answer inetNtop bytes addr (view s))
      else none := by
  split
  · rename_i h
    obtain ⟨clientaddr, hclient⟩ := stores_addr s addr
    have haddress : clientaddr.bytes = addr.take sizeofSockaddr ++
        (view s).address.drop (addr.take sizeofSockaddr).length := by
      obtain ⟨-, hbytes⟩ := Buf.write_bytes hclient
      rw [hbytes, Nat.zero_add, List.take_zero, List.nil_append]
      rfl
    unfold answer
    dsimp only
    rw [← haddress]
    by_cases hbytes : bytes = []
    · subst hbytes
      obtain ⟨buffer, hs'⟩ := @packet_nil inetNtop addr s clientaddr hclient
      rw [hs']
      rfl
    · obtain ⟨hlt, hother⟩ := h.resolve_left hbytes
      obtain ⟨buffer, hs'⟩ := @packet_other inetNtop
        ⟨bytes, List.length_pos_iff.mpr hbytes, fits⟩ addr s hlt hother clientaddr hclient _ rfl
      dsimp only at hs'
      rw [hs', Option.map_some, if_neg hbytes]
      rfl
  · rename_i h
    rw [packet_harmful h s]
    rfl

lemma serverTurn_view (r : Recv) (s : Server) :
    (serverTurn inetNtop r s).map view view = viewTurn inetNtop r (view s) := by
  cases r with
  | fail refused =>
    cases refused with
    | true =>
      unfold serverTurn viewTurn
      dsimp only
      show Turn.map view view _ = if s.errcount + 1 > 3 then _ else _
      split
      · rfl
      · rfl
    | false => rfl
  | packet bytes fits addr =>
    have hpacket := @packet_view inetNtop bytes addr fits s
    unfold serverTurn viewTurn
    dsimp only
    cases hp : packet inetNtop bytes addr s with
    | none =>
      rw [hp] at hpacket
      split at hpacket
      · cases hpacket
      · rename_i h
        rw [if_neg h]
        rfl
    | some s' =>
      rw [hp] at hpacket
      split at hpacket
      · rename_i h
        rw [if_pos h, ← Option.some.inj hpacket]
        rfl
      · cases hpacket

/-- **No text shows through a later one**: on every feed, for any number of turns, the server
goes on, returns or faults as the one without a buffer does, and has printed the same. -/
theorem server_refines (inetNtop : List UInt8 → Option String) (turns : ℕ) (feed : Stream' Recv) :
    (server inetNtop turns feed).map view view = serverView inetNtop turns feed :=
  loop_map view view serverTurn_view turns feed _

/-! ### How the server ends -/

def refused : Recv → Bool
  | .fail refused => refused
  | _ => false

def refusals (feed : Stream' Recv) (n : ℕ) : ℕ := (feed.take n).countP refused

/-- The first inputs leave the server running: none is harmful or an error other than a refusal,
and there are at most three of these. -/
def GoesOn (feed : Stream' Recv) (n : ℕ) : Prop :=
  (∀ i < n, Harmless (feed.get i) ∧ feed.get i ≠ .fail false) ∧ refusals feed n ≤ 3

/-- The input that comes then makes the server return. -/
def Stops (feed : Stream' Recv) (i : ℕ) : Prop :=
  feed.get i = .fail false ∨ feed.get i = .fail true ∧ refusals feed i = 3

/-- After inputs that leave it running, one comes that the server does not get over. -/
def Crashes (feed : Stream' Recv) (n : ℕ) : Prop :=
  ∃ i < n, GoesOn feed i ∧ ¬ Harmless (feed.get i)

def anonymous : Line → Line
  | .received _ packetLen text => .received "" packetLen text
  | line => line

/-- The lines that a datagram is to make, but for the address in them. -/
def shown : Recv → List Line
  | .fail _ => []
  | .packet bytes _ _ =>
    if bytes = [] then [.empty] else [.ipv4, .received "" bytes.length (text bytes)]

variable {feed : Stream' Recv} {n : ℕ} {r : Recv} {v v' : View}

lemma refusals_succ (feed : Stream' Recv) (n : ℕ) :
    refusals feed (n + 1) = refusals feed n + if refused (feed.get n) then 1 else 0 := by
  unfold refusals
  rw [Stream'.take_succ', List.countP_append, List.countP_singleton]

lemma goesOn_succ : GoesOn feed (n + 1) ↔ GoesOn feed n ∧ Harmless (feed.get n) ∧
    feed.get n ≠ .fail false ∧ (refused (feed.get n) = true → refusals feed n < 3) := by
  unfold GoesOn
  rw [refusals_succ, Nat.forall_lt_succ_right]
  constructor
  · rintro ⟨⟨hall, hn⟩, hle⟩
    refine ⟨⟨hall, by omega⟩, hn.1, hn.2, fun hr => ?_⟩
    rw [if_pos hr] at hle
    omega
  · rintro ⟨⟨hall, hle⟩, hharm, hfatal, hfew⟩
    refine ⟨⟨hall, hharm, hfatal⟩, ?_⟩
    split
    · rename_i hr
      have := hfew hr
      omega
    · exact hle

lemma viewTurn_again (h : viewTurn inetNtop r v = .again v') :
    (Harmless r ∧ r ≠ .fail false ∧ (refused r = true → v.errcount < 3)) ∧
      v'.errcount = v.errcount + (if refused r then 1 else 0) ∧
      v'.printed.map anonymous = v.printed.map anonymous ++ shown r := by
  unfold viewTurn at h
  split at h
  · split at h
    · cases h
    · cases h
      exact ⟨⟨trivial, by simp, fun _ => by omega⟩, rfl, by simp [shown]⟩
  · cases h
  · split at h
    · rename_i bytes _ _ hharm
      cases h
      refine ⟨⟨hharm, by simp, fun h => (by cases h)⟩, ?_, ?_⟩
      · by_cases hbytes : bytes = [] <;> simp [answer, hbytes, refused]
      · by_cases hbytes : bytes = [] <;> simp [answer, hbytes, shown, anonymous]
    · cases h

variable (inetNtop) in
lemma viewTurn_goes (hharm : Harmless r) (hfatal : r ≠ .fail false)
    (hfew : refused r = true → v.errcount < 3) : ∃ v', viewTurn inetNtop r v = .again v' := by
  unfold viewTurn
  split
  · have := hfew rfl
    exact ⟨_, if_neg (by omega)⟩
  · exact absurd rfl hfatal
  · exact ⟨_, if_pos hharm⟩

lemma viewTurn_fault : viewTurn inetNtop r v = .fault ↔ ¬ Harmless r := by
  unfold viewTurn
  split
  · split <;> simp [Harmless]
  · simp [Harmless]
  · split
    · rename_i h
      simp [h]
    · rename_i h
      simp [h]

lemma viewTurn_leave (h : viewTurn inetNtop r v = .leave v') :
    (r = .fail false ∨ r = .fail true ∧ 3 ≤ v.errcount) ∧ v'.printed = v.printed := by
  unfold viewTurn at h
  split at h
  · split at h
    · cases h
      exact ⟨Or.inr ⟨rfl, by omega⟩, rfl⟩
    · cases h
  · cases h
    exact ⟨Or.inl rfl, rfl⟩
  · split at h
    · cases h
    · cases h

lemma serverView_again (h : serverView inetNtop n feed = .again v) :
    GoesOn feed n ∧ v.errcount = refusals feed n ∧
      v.printed.map anonymous = (feed.take n).flatMap shown := by
  induction n generalizing v with
  | zero =>
    cases h
    exact ⟨⟨fun i hi => absurd hi (Nat.not_lt_zero i), Nat.zero_le _⟩, rfl, rfl⟩
  | succ n ih =>
    obtain ⟨v₁, h₁, hturn⟩ := loop_succ_again.mp h
    obtain ⟨hgoes, hcount, hprinted⟩ := ih h₁
    obtain ⟨hcond, hcount', hprinted'⟩ := viewTurn_again hturn
    rw [hcount] at hcond hcount'
    refine ⟨goesOn_succ.mpr ⟨hgoes, hcond⟩, hcount'.trans (refusals_succ feed n).symm, ?_⟩
    rw [hprinted', hprinted, Stream'.take_succ', List.flatMap_append, List.flatMap_singleton]

variable (inetNtop) in
lemma serverView_goes (h : GoesOn feed n) : ∃ v, serverView inetNtop n feed = .again v := by
  induction n with
  | zero => exact ⟨_, rfl⟩
  | succ n ih =>
    obtain ⟨hgoes, hharm, hfatal, hfew⟩ := goesOn_succ.mp h
    obtain ⟨v, hv⟩ := ih hgoes
    obtain ⟨v', hv'⟩ := viewTurn_goes inetNtop hharm hfatal
      (by rw [(serverView_again hv).2.1]; exact hfew)
    exact ⟨v', loop_succ_again.mpr ⟨v, hv, hv'⟩⟩

variable (inetNtop) in
lemma serverView_fault : serverView inetNtop n feed = .fault ↔ Crashes feed n := by
  unfold serverView
  rw [loop_ended_iff (by simp)]
  constructor
  · rintro ⟨i, hi, v, hv, hfault⟩
    exact ⟨i, hi, (serverView_again hv).1, viewTurn_fault.mp hfault⟩
  · rintro ⟨i, hi, hgoes, hharm⟩
    obtain ⟨v, hv⟩ := serverView_goes inetNtop hgoes
    exact ⟨i, hi, v, hv, viewTurn_fault.mpr hharm⟩

lemma serverView_leave (h : serverView inetNtop n feed = .leave v) :
    ∃ i < n, GoesOn feed i ∧ Stops feed i ∧
      v.printed.map anonymous = (feed.take i).flatMap shown := by
  obtain ⟨i, hi, v₁, h₁, hleave⟩ := (loop_ended_iff (by simp)).mp h
  obtain ⟨hgoes, hcount, hprinted⟩ := serverView_again h₁
  obtain ⟨hstop, hsame⟩ := viewTurn_leave hleave
  refine ⟨i, hi, hgoes, hstop.imp_right fun ⟨hr, hle⟩ => ⟨hr, ?_⟩, hsame ▸ hprinted⟩
  have := hgoes.2
  omega

lemma server_cases (inetNtop : List UInt8 → Option String) (turns : ℕ) (feed : Stream' Recv) :
    (∃ s, server inetNtop turns feed = .again s ∧
      serverView inetNtop turns feed = .again (view s)) ∨
    (∃ s, server inetNtop turns feed = .leave s ∧
      serverView inetNtop turns feed = .leave (view s)) ∨
    server inetNtop turns feed = .fault ∧ serverView inetNtop turns feed = .fault := by
  have hview : (server inetNtop turns feed).map view view = serverView inetNtop turns feed :=
    loop_map view view serverTurn_view turns feed _
  rw [← hview]
  cases server inetNtop turns feed with
  | again s => exact Or.inl ⟨s, rfl, rfl⟩
  | leave s => exact Or.inr (Or.inl ⟨s, rfl, rfl⟩)
  | fault => exact Or.inr (Or.inr ⟨rfl, rfl⟩)

lemma server_goes (inetNtop : List UInt8 → Option String) (turns : ℕ) (feed : Stream' Recv) :
    (∃ s, server inetNtop turns feed = .again s) ↔ GoesOn feed turns := by
  have hgoes : GoesOn feed turns ↔ ∃ v, serverView inetNtop turns feed = .again v :=
    ⟨serverView_goes inetNtop, fun ⟨_, hv⟩ => (serverView_again hv).1⟩
  rw [hgoes]
  rcases server_cases inetNtop turns feed with ⟨s, hs, hv⟩ | ⟨s, hs, hv⟩ | ⟨hs, hv⟩
  all_goals simp [hs, hv]

lemma server_fault (inetNtop : List UInt8 → Option String) (turns : ℕ) (feed : Stream' Recv) :
    server inetNtop turns feed = .fault ↔ Crashes feed turns := by
  rw [← serverView_fault inetNtop]
  rcases server_cases inetNtop turns feed with ⟨s, hs, hv⟩ | ⟨s, hs, hv⟩ | ⟨hs, hv⟩
  all_goals simp [hs, hv]

/-- **How the server ends** within any number of turns: it is still running exactly if there has
been no harmful datagram, no fourth refusal and no other error, and it faults exactly if the
first of these to come is a harmful datagram; otherwise it has returned at the first of these.
Until then it has printed the lines of every datagram, in order. -/
theorem server_ends (inetNtop : List UInt8 → Option String) (turns : ℕ) (feed : Stream' Recv) :
    ((∃ s, server inetNtop turns feed = .again s) ↔ GoesOn feed turns) ∧
      (server inetNtop turns feed = .fault ↔ Crashes feed turns) ∧
      (server inetNtop turns feed).Keeps
        (fun s => s.printed.map anonymous = (feed.take turns).flatMap shown)
        fun s => ∃ i < turns, GoesOn feed i ∧ Stops feed i ∧
          s.printed.map anonymous = (feed.take i).flatMap shown := by
  refine ⟨server_goes inetNtop turns feed, server_fault inetNtop turns feed, ?_⟩
  rcases server_cases inetNtop turns feed with ⟨s, hs, hv⟩ | ⟨s, hs, hv⟩ | ⟨hs, -⟩
  · rw [hs]
    exact (serverView_again hv).2.2
  · rw [hs]
    exact serverView_leave hv
  · rw [hs]
    trivial

end Csockets.UdpmsgServer
