import Csockets.UsersModel
import Csockets.FormatterModel

/-!
User ids, computed by `user_calculate_id` and printed by `msg_formatter`.

An id is a sum of address bytes modulo a number just under a thousand, with 0 kept free by
mapping it to 999. The formatter prints ids modulo 999.
-/

namespace Csockets.UserIds

open Bytes NetModel UsersModel FormatterModel

def ipSum (ip : List UInt8) : ℕ := (ip.map UInt8.toNat).sum

def reserve (n : ℕ) : ℕ := if n = 0 then 999 else n

lemma reserve_toNat (id : UInt16) :
    (if id = 0 then 999 else id : UInt16).toNat = reserve id.toNat := by
  unfold reserve
  by_cases h : id = 0
  · simp [h]
  · have hn : id.toNat ≠ 0 := fun e => h (UInt16.toNat_inj.mp (by simpa using e))
    rw [if_neg h, if_neg hn]

/-- **Ids of IPv4 users**: the byte sum modulo 999, no sum of which wraps. -/
theorem userCalculateId_inet {u : UserData} (h : u.addrFamily = AF_INET) :
    (userCalculateId u).toNat = reserve (ipSum (u.addr.slice 4 4) % 999) := by
  have hl : (u.addr.slice 4 4).length = 4 := Buf.slice_length _ (by decide)
  unfold userCalculateId
  rw [if_pos h]
  generalize u.addr.slice 4 4 = ip at hl ⊢
  obtain ⟨a, b, c, d, rfl⟩ : ∃ a b c d, ip = [a, b, c, d] := by
    match ip, hl with
    | [a, b, c, d], _ => exact ⟨a, b, c, d, rfl⟩
  have ha := a.toNat_lt
  have hb := b.toNat_lt
  have hc := c.toNat_lt
  have hd := d.toNat_lt
  simp only [reserve_toNat]
  congr 1
  simp [ipSum]
  omega

def round6 (ip : List UInt8) (id : UInt16) (n : ℕ) : UInt16 :=
  let id := id + (ip.getD n 0).toUInt16
  if n % 2 = 1 then id % 997 else id

/-- After `k` rounds the sum is right modulo 997, and small: every second round reduces it. -/
lemma round6_inv (ip : List UInt8) (k : ℕ) (hk : k ≤ ip.length) :
    ((List.range k).foldl (round6 ip) 0).toNat % 997 = ipSum (ip.take k) % 997 ∧
      ((List.range k).foldl (round6 ip) 0).toNat < 997 + 256 * (k % 2) := by
  induction k with
  | zero => simp [ipSum]
  | succ k ih =>
    obtain ⟨hmod, hlt⟩ := ih (by omega)
    have hb := (ip.getD k 0).toNat_lt
    have hsum : ipSum (ip.take (k + 1)) = ipSum (ip.take k) + (ip.getD k 0).toNat := by
      have hk' : k < ip.length := by omega
      rw [ipSum, ipSum, List.take_succ_eq_append_getElem hk', List.getD_eq_getElem _ _ hk',
        List.map_append, List.sum_append, List.map_singleton, List.sum_singleton]
    rw [List.range_succ, List.foldl_append, hsum]
    generalize (List.range k).foldl (round6 ip) 0 = id at hmod hlt ⊢
    simp only [List.foldl_cons, List.foldl_nil, round6]
    generalize ip.getD k 0 = b at hb ⊢
    rcases Nat.mod_two_eq_zero_or_one k with hp | hp
    · rw [if_neg (by omega)]
      simp only [UInt16.toNat_add, UInt8.toNat_toUInt16]
      omega
    · rw [if_pos hp]
      simp only [UInt16.toNat_add, UInt16.toNat_mod, UInt8.toNat_toUInt16, UInt16.reduceToNat]
      omega

/-- **Ids of IPv6 users**: the byte sum modulo 997; reducing at every second byte is reducing
once, and no sum wraps. -/
theorem userCalculateId_inet6 {u : UserData} (h : u.addrFamily = AF_INET6) :
    (userCalculateId u).toNat = reserve (ipSum (u.addr.slice 8 16) % 997) := by
  have hl : (u.addr.slice 8 16).length = 16 := Buf.slice_length _ (by decide)
  have h4 : u.addrFamily ≠ AF_INET := by rw [h]; decide
  obtain ⟨hmod, hlt⟩ := round6_inv (u.addr.slice 8 16) 16 (by omega)
  rw [List.take_of_length_le (by omega)] at hmod
  unfold userCalculateId
  rw [if_neg h4, if_pos h]
  simp only [reserve_toNat]
  congr 1
  show ((List.range 16).foldl (round6 (u.addr.slice 8 16)) 0 % 999).toNat = _
  rw [UInt16.toNat_mod, ← hmod, show (999 : UInt16).toNat = 999 from rfl]
  omega

/-! ### Printed ids -/

/-- A call of `msg_formatter` but for the sender's id: any buffers, receiver and body. -/
structure Formatting where
  fmt : Fmt
  receiverId : UInt16
  body : List UInt8
  len : ℕ
  pos : 1 ≤ len
  covered : kept len ≤ body.length

def Formatting.idBytes (c : Formatting) (senderId : UInt16) : Option (List UInt8) :=
  (msgFormatter c.fmt senderId c.receiverId (some c.body) c.len).map fun r =>
    r.1.returnBuffer.bytes.take (MSG_ID_LEN - 1)

lemma idBytes_eq (c : Formatting) (senderId : UInt16) :
    c.idBytes senderId = some (printf3u (senderId.toNat % 999)) := by
  obtain ⟨f', hf, hline⟩ := msgFormatter_spec c.fmt senderId c.receiverId c.pos c.covered
  rw [Formatting.idBytes, hf, Option.map_some]
  have hid : f'.returnBuffer.bytes.take 3 = (line senderId c.body c.len).take 3 := by
    rw [← hline, List.take_take, min_eq_left (by omega)]
  have hline₃ : (line senderId c.body c.len).take 3 = printf3u (senderId.toNat % 999) := by
    simp only [line, List.append_assoc]
    rw [← printf3u_id senderId, List.take_left]
  exact congrArg some (hid.trans hline₃)

lemma idBytes_eq_iff (c c' : Formatting) (i j : UInt16) :
    c.idBytes i = c'.idBytes j ↔ i.toNat % 999 = j.toNat % 999 := by
  rw [idBytes_eq, idBytes_eq, Option.some.injEq, printf3u_injective.eq_iff]

/-- The sum the id is computed from is one that the reserved 0 stands for. -/
def ReservedSum (u : UserData) : Prop :=
  (u.addrFamily = AF_INET → ipSum (u.addr.slice 4 4) % 999 = 0) ∧
    (u.addrFamily = AF_INET6 → ipSum (u.addr.slice 8 16) % 997 = 0)

instance (u : UserData) : Decidable (ReservedSum u) := inferInstanceAs (Decidable (_ ∧ _))

def InetUser (u : UserData) : Prop := u.addrFamily = AF_INET ∨ u.addrFamily = AF_INET6

instance (u : UserData) : Decidable (InetUser u) := inferInstanceAs (Decidable (_ ∨ _))

/-- Ids lie between 1 and 999, and 999 is the reserved one. -/
lemma userCalculateId_range {u : UserData} (h : InetUser u) :
    1 ≤ (userCalculateId u).toNat ∧ (userCalculateId u).toNat ≤ 999 ∧
      ((userCalculateId u).toNat = 999 ↔ ReservedSum u) := by
  have hne : AF_INET ≠ AF_INET6 := by decide
  unfold ReservedSum
  rcases h with h | h
  · rw [userCalculateId_inet h, reserve]
    split <;> simp [h] <;> omega
  · rw [userCalculateId_inet6 h, reserve]
    split <;> simp [h] <;> omega

/-- Lines of `u` show its id, which is not what notices of the server show. -/
def ShowsId (u : UserData) : Prop :=
  ∀ c c₀ : Formatting, c.idBytes (userCalculateId u) = some (printf3u (userCalculateId u).toNat) ∧
    c.idBytes (userCalculateId u) ≠ c₀.idBytes 0

/-- Nobody with another id shows the same. -/
def ShowsOwnId (u : UserData) : Prop :=
  ∀ v, InetUser v → ∀ c c' : Formatting,
    c.idBytes (userCalculateId u) = c'.idBytes (userCalculateId v) →
      userCalculateId u = userCalculateId v

lemma showsOwnId {u : UserData} (h : InetUser u) : ShowsOwnId u := by
  intro v hv c c' e
  obtain ⟨hu₁, hu₂, -⟩ := userCalculateId_range h
  obtain ⟨hv₁, hv₂, -⟩ := userCalculateId_range hv
  rw [idBytes_eq_iff] at e
  exact UInt16.toNat_inj.mp (by omega)

/-- **When ids are told apart from the server's**: exactly when the address does not sum to
one of the values the reserved 0 stands for. -/
theorem showsId_iff {u : UserData} (h : InetUser u) :
    ShowsId u ∧ ShowsOwnId u ↔ ¬ ReservedSum u := by
  obtain ⟨h₁, h₂, h₃⟩ := userCalculateId_range h
  rw [and_iff_left (showsOwnId h), ← h₃]
  constructor
  · intro hshow e
    have c : Formatting := ⟨default, 0, [], 1, le_rfl, Nat.zero_le _⟩
    refine (hshow c c).2 ((idBytes_eq_iff ..).mpr ?_)
    rw [e]
    rfl
  · intro hne c c₀
    refine ⟨?_, fun e => ?_⟩
    · rw [idBytes_eq, Nat.mod_eq_of_lt (by omega)]
    · rw [idBytes_eq_iff, show (0 : UInt16).toNat = 0 from rfl] at e
      omega

/-- A peer at 10.0.0.1. -/
def peer4 : UserData :=
  { (default : UserData) with
    addr := Buf.init _ [2, 0, 0x30, 0x39, 10, 0, 0, 1], addrLen := 16, addrFamily := AF_INET }

theorem showsId_peer4 : ShowsId peer4 ∧ ShowsOwnId peer4 :=
  (showsId_iff (by decide)).mpr (by decide)

/-- A peer at fd00::ff:ffea. -/
def peer6 : UserData :=
  { (default : UserData) with
    addr := Buf.init _ ([10, 0, 0x30, 0x39, 0, 0, 0, 0, 0xfd, 0, 0, 0, 0, 0, 0, 0, 0, 0, 0, 0] ++
      [0, 0xff, 0xff, 0xea, 0, 0, 0, 0])
    addrLen := 28, addrFamily := AF_INET6 }

/-- The bytes of that address sum to 997, and its lines start as the server's do. -/
theorem not_showsId_peer6 : ¬ ∀ u, InetUser u → ShowsId u ∧ ShowsOwnId u := by
  intro h
  have c : Formatting := ⟨default, 0, [], 1, le_rfl, Nat.zero_le _⟩
  have hid : (userCalculateId peer6).toNat = 999 :=
    (userCalculateId_range (u := peer6) (by decide)).2.2.mpr (by decide)
  refine ((h peer6 (by decide)).1 c c).2 ((idBytes_eq_iff ..).mpr ?_)
  rw [hid]
  rfl

/-! ### The closed form -/

/-- `id += b`, which is refused when the sum does not fit into 16 bits. -/
def addChecked (id : UInt16) (b : UInt8) : Option UInt16 :=
  if id.toNat + b.toNat < UInt16.size then some (id + b.toUInt16) else none

/-- `user_calculate_id` with every addition checked. -/
def userCalculateIdChecked (user : UserData) : Option UInt16 :=
  if user.addrFamily = AF_INET then do
    let ipBuffer := user.addr.slice 4 4
    let id : UInt16 := 0
    let id ← addChecked id (ipBuffer.getD 0 0)
    let id ← addChecked id (ipBuffer.getD 1 0)
    let id := id % 997
    let id ← addChecked id (ipBuffer.getD 2 0)
    let id ← addChecked id (ipBuffer.getD 3 0)
    let id := id % 999
    some (if id = 0 then 999 else id)
  else if user.addrFamily = AF_INET6 then do
    let ipBuffer := user.addr.slice 8 16
    let id ← (List.range 16).foldlM (fun id n => do
      let id ← addChecked id (ipBuffer.getD n 0)
      some (if n % 2 = 1 then id % 997 else id)) 0
    let id := id % 999
    some (if id = 0 then 999 else id)
  else some 0

lemma addChecked_of_lt {id : UInt16} {b : UInt8} (h : id.toNat < 2 ^ 15) :
    addChecked id b = some (id + b.toUInt16) := by
  have hb := b.toNat_lt
  unfold addChecked
  rw [if_pos (by simp only [UInt16.size]; omega)]

lemma toNat_add_byte_le (id : UInt16) (b : UInt8) : (id + b.toUInt16).toNat ≤ id.toNat + 255 := by
  have hb := b.toNat_lt
  rw [UInt16.toNat_add, UInt8.toNat_toUInt16]
  omega

lemma toNat_mod_997_lt (id : UInt16) : (id % 997).toNat < 997 := by
  rw [UInt16.toNat_mod]
  exact Nat.mod_lt _ (by decide)

lemma rounds6_checked (ip : List UInt8) (k : ℕ) (hk : k ≤ ip.length) :
    (List.range k).foldlM (fun id n => do
      let id ← addChecked id (ip.getD n 0)
      some (if n % 2 = 1 then id % 997 else id)) 0 = some ((List.range k).foldl (round6 ip) 0) := by
  induction k with
  | zero => rfl
  | succ k ih =>
    obtain ⟨-, hlt⟩ := round6_inv ip k (by omega)
    have hsmall : ((List.range k).foldl (round6 ip) 0).toNat < 2 ^ 15 := by omega
    rw [List.range_succ, List.foldlM_append, ih (by omega), List.foldl_append]
    simp only [Option.bind_eq_bind, Option.bind_some, List.foldlM_cons, List.foldlM_nil,
      addChecked_of_lt hsmall]
    rfl

/-- **No sum wraps**: with every addition checked the id is the same. -/
lemma userCalculateIdChecked_eq (u : UserData) :
    userCalculateIdChecked u = some (userCalculateId u) := by
  unfold userCalculateIdChecked userCalculateId
  split
  · -- each sum is of at most four bytes
    generalize u.addr.slice 4 4 = ip
    have h₁ := toNat_add_byte_le 0 (ip.getD 0 0)
    have h₂ := toNat_add_byte_le (0 + (ip.getD 0 0).toUInt16) (ip.getD 1 0)
    have h₃ := toNat_mod_997_lt (0 + (ip.getD 0 0).toUInt16 + (ip.getD 1 0).toUInt16)
    have h₄ := toNat_add_byte_le
      ((0 + (ip.getD 0 0).toUInt16 + (ip.getD 1 0).toUInt16) % 997) (ip.getD 2 0)
    dsimp only [Option.bind_eq_bind]
    rw [addChecked_of_lt (by decide), Option.bind_some,
      addChecked_of_lt (lt_of_le_of_lt h₁ (by decide)), Option.bind_some,
      addChecked_of_lt (h₃.trans (by decide)), Option.bind_some,
      addChecked_of_lt (by omega), Option.bind_some]
  · split
    · have hl : (u.addr.slice 8 16).length = 16 := Buf.slice_length _ (by decide)
      generalize u.addr.slice 8 16 = ip at hl
      dsimp only
      rw [rounds6_checked ip 16 (by omega), Option.bind_eq_bind, Option.bind_some]
      rfl
    · rfl

def ipBytes (u : UserData) : List UInt8 :=
  if u.addrFamily = AF_INET then u.addr.slice 4 4 else u.addr.slice 8 16

lemma ipBytes_inet {u : UserData} (h : u.addrFamily = AF_INET) : ipBytes u = u.addr.slice 4 4 :=
  if_pos h

lemma ipBytes_inet6 {u : UserData} (h : u.addrFamily = AF_INET6) :
    ipBytes u = u.addr.slice 8 16 := by
  have h4 : u.addrFamily ≠ AF_INET := by rw [h]; decide
  exact if_neg h4

lemma userCalculateId_congr {u v : UserData} (hu : InetUser u)
    (hfamily : v.addrFamily = u.addrFamily) (hsum : ipSum (ipBytes v) = ipSum (ipBytes u)) :
    userCalculateId v = userCalculateId u := by
  refine UInt16.toNat_inj.mp ?_
  rcases hu with hu | hu
  · have hv := hfamily.trans hu
    rw [ipBytes_inet hu, ipBytes_inet hv] at hsum
    rw [userCalculateId_inet hu, userCalculateId_inet hv, hsum]
  · have hv := hfamily.trans hu
    rw [ipBytes_inet6 hu, ipBytes_inet6 hv] at hsum
    rw [userCalculateId_inet6 hu, userCalculateId_inet6 hv, hsum]

lemma ipBytes_port {u : UserData} {hi lo : UInt8} {addr : Storage}
    (h : u.addr.write 2 [hi, lo] = some addr) : ipBytes { u with addr := addr } = ipBytes u := by
  unfold ipBytes Buf.slice
  dsimp only
  rw [Buf.drop_write h (by simp), Buf.drop_write h (by simp)]

lemma ipSum_perm {x y : List UInt8} (h : x.Perm y) : ipSum x = ipSum y :=
  (h.map _).sum_eq

/-- **User ids**: the sum of the address bytes modulo 999 or 997 with 0 moved to 999, no addition
of which wraps; they depend on the bytes, not on their order and not on the port. -/
theorem userCalculateId_closed {u : UserData} (h : InetUser u) :
    (u.addrFamily = AF_INET →
        (userCalculateId u).toNat = reserve (ipSum (u.addr.slice 4 4) % 999)) ∧
      (u.addrFamily = AF_INET6 →
        (userCalculateId u).toNat = reserve (ipSum (u.addr.slice 8 16) % 997)) ∧
      userCalculateIdChecked u = some (userCalculateId u) ∧
      1 ≤ (userCalculateId u).toNat ∧ (userCalculateId u).toNat ≤ 999 ∧
      (∀ hi lo addr, u.addr.write 2 [hi, lo] = some addr →
        userCalculateId { u with addr := addr } = userCalculateId u) ∧
      ∀ v, v.addrFamily = u.addrFamily → (ipBytes v).Perm (ipBytes u) →
        userCalculateId v = userCalculateId u := by
  obtain ⟨hle₁, hle₂, -⟩ := userCalculateId_range h
  refine ⟨userCalculateId_inet, userCalculateId_inet6, userCalculateIdChecked_eq u, hle₁, hle₂,
    fun hi lo addr hport => ?_, fun v hfamily hperm => ?_⟩
  · exact userCalculateId_congr h rfl (congrArg ipSum (ipBytes_port hport))
  · exact userCalculateId_congr h hfamily (ipSum_perm hperm)

def peer6Reversed : UserData :=
  { peer6 with
    addr := Buf.init _ ([10, 0, 0, 80, 0, 0, 0, 0, 0xea, 0xff, 0xff, 0, 0, 0, 0, 0, 0, 0, 0, 0] ++
      [0, 0, 0, 0xfd, 0, 0, 0, 0]) }

theorem userCalculateId_closed_peer6 :
    (userCalculateId peer6).toNat = 999 ∧
      userCalculateIdChecked peer6 = some (userCalculateId peer6) ∧
      (∃ addr, peer6.addr.write 2 [0, 80] = some addr ∧
        userCalculateId { peer6 with addr := addr } = userCalculateId peer6) ∧
      userCalculateId peer6Reversed = userCalculateId peer6 := by
  obtain ⟨-, hid, hchecked, -, -, hport, hperm⟩ :=
    userCalculateId_closed (u := peer6) (Or.inr rfl)
  obtain ⟨addr, haddr⟩ := peer6.addr.write_fits 2 [0, 80] (by decide)
  exact ⟨(hid rfl).trans (by decide), hchecked, ⟨addr, haddr, hport 0 80 addr haddr⟩,
    hperm peer6Reversed rfl (by decide)⟩

end Csockets.UserIds
