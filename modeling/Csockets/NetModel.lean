import Csockets.Bytes

/-!
Socket addresses and their comparison (`udpchat/src/util/net.c`).

An address is what `recvfrom` leaves in a zeroed `struct sockaddr_storage`. The comparison
reads whole structs from the address field on and so runs past the address itself; the bytes
it sees there decide whether it tells endpoints apart.
-/

namespace Csockets.NetModel

open Bytes

def AF_INET : ℕ := 2
def AF_INET6 : ℕ := 10

/-- `sizeof(struct sockaddr_in)`: family 0, port 2, address 4, zero 8. -/
def sizeofSockaddrIn : ℕ := 16
/-- `sizeof(struct sockaddr_in6)`: family 0, port 2, flowinfo 4, address 8, scope id 24. -/
def sizeofSockaddrIn6 : ℕ := 28
def sizeofSockaddrStorage : ℕ := 128

abbrev Storage := Buf sizeofSockaddrStorage

def sinFamily (a : Storage) : ℕ := u16 a.bytes 0
def sinPort (a : Storage) : ℕ := u16 a.bytes 2

def sockaddrCmp (addr1 addr2 : Storage) (len : ℕ) : ℤ :=
  if sinFamily addr1 < sinFamily addr2 then -1
  else if sinFamily addr2 < sinFamily addr1 then 1
  else if sinFamily addr1 = AF_INET then
    if sinPort addr1 < sinPort addr2 then -1
    else if sinPort addr2 < sinPort addr1 then 1
    -- from `sin_addr` on, but the length of the whole struct
    else memcmp (addr1.slice 4 sizeofSockaddrIn) (addr2.slice 4 sizeofSockaddrIn)
  else if sinFamily addr1 = AF_INET6 then
    if sinPort addr1 < sinPort addr2 then -1
    else if sinPort addr2 < sinPort addr1 then 1
    else memcmp (addr1.slice 8 sizeofSockaddrIn6) (addr2.slice 8 sizeofSockaddrIn6)
  -- no more than the storages have; a larger `len` is a read past them in the source
  else memcmp (addr1.slice 0 len) (addr2.slice 0 len)

/-- What identifies the other end of a datagram. -/
structure Endpoint where
  family : ℕ
  port : ℕ
  ip : List UInt8
  scope : List UInt8
  deriving DecidableEq

def endpoint (a : Storage) : Endpoint :=
  if sinFamily a = AF_INET then ⟨AF_INET, sinPort a, a.slice 4 4, []⟩
  else ⟨sinFamily a, sinPort a, a.slice 8 16, a.slice 24 4⟩

/-- A socket address as `recvfrom` writes it: the struct of the family its length belongs to,
with `sin_zero` zero. -/
structure Sockaddr where
  bytes : List UInt8
  inet : bytes.length = sizeofSockaddrIn →
    u16 bytes 0 = AF_INET ∧ bytes.drop 8 = List.replicate 8 0
  inet6 : bytes.length = sizeofSockaddrIn6 → u16 bytes 0 = AF_INET6

def Sockaddr.storage (a : Sockaddr) : Storage := Buf.init _ a.bytes

/-- A storage that holds an address of one of the two families and is zero behind it. -/
inductive IsPeer (a : Storage) : Prop
  | inet (family : sinFamily a = AF_INET) (zero : a.slice 8 12 = List.replicate 12 0)
  | inet6 (family : sinFamily a = AF_INET6) (zero : a.slice 28 8 = List.replicate 8 0)

lemma u16_init {n off : ℕ} {l : List UInt8} (hl : off + 1 < l.length) (hn : l.length ≤ n) :
    u16 (Buf.init n l).bytes off = u16 l off := by
  simp only [u16, Buf.init, List.getD_eq_getElem?_getD]
  rw [List.getElem?_take_of_lt (by omega), List.getElem?_take_of_lt (by omega),
    List.getElem?_append_left (by omega), List.getElem?_append_left hl]

lemma isPeer_inet (a : Sockaddr) (h : a.bytes.length = sizeofSockaddrIn) :
    IsPeer a.storage := by
  obtain ⟨hf, hz⟩ := a.inet h
  have hlen : a.bytes.length = 16 := h
  refine .inet ?_ ?_
  · rw [sinFamily, Sockaddr.storage, u16_init (by omega) (by rw [h]; decide), hf]
  · -- the struct ends at 16, and nothing was copied behind it
    have h₁ : a.storage.slice 8 8 = List.replicate 8 0 := by
      rw [Sockaddr.storage, Buf.init_slice _ (by omega) (by decide), hz]
      rfl
    have h₂ : a.storage.slice 16 4 = List.replicate 4 0 :=
      Buf.init_slice_zero _ (by omega) (by decide)
    rw [show (12 : ℕ) = 8 + 4 from rfl, Buf.slice_append, h₁, h₂]
    rfl

lemma isPeer_inet6 (a : Sockaddr) (h : a.bytes.length = sizeofSockaddrIn6) :
    IsPeer a.storage := by
  have hlen : a.bytes.length = 28 := h
  refine .inet6 ?_ (Buf.init_slice_zero _ (by omega) (by decide))
  rw [sinFamily, Sockaddr.storage, u16_init (by omega) (by rw [h]; decide), a.inet6 h]

lemma memcmp_slice {a b : Storage} {off k : ℕ} (h : off + k ≤ sizeofSockaddrStorage) :
    memcmp (a.slice off k) (b.slice off k) = 0 ↔ a.slice off k = b.slice off k :=
  memcmp_eq_zero_iff (by rw [Buf.slice_length _ h, Buf.slice_length _ h])

lemma slice_eq_iff (a b : Storage) (off j k : ℕ) (h : off + j ≤ sizeofSockaddrStorage) :
    a.slice off (j + k) = b.slice off (j + k) ↔
      a.slice off j = b.slice off j ∧ a.slice (off + j) k = b.slice (off + j) k := by
  rw [Buf.slice_append, Buf.slice_append]
  have hl : (a.slice off j).length = (b.slice off j).length := by
    rw [Buf.slice_length _ h, Buf.slice_length _ h]
  exact ⟨fun e => List.append_inj e hl, fun e => by rw [e.1, e.2]⟩

lemma order_eq_zero (x y : ℕ) (r : ℤ) :
    (if x < y then -1 else if y < x then 1 else r) = 0 ↔ x = y ∧ r = 0 := by
  rcases lt_trichotomy x y with h | rfl | h
  · simp [h, h.ne]
  · simp
  · simp [h, h.ne', h.not_gt]

lemma sockaddrCmp_self (a : Storage) (len : ℕ) : sockaddrCmp a a len = 0 := by
  have hself : ∀ l : List UInt8, memcmp l l = 0 := fun l => (memcmp_eq_zero_iff rfl).mpr rfl
  simp [sockaddrCmp, hself]

/-- The range compared for IPv4 sees the address and twelve bytes that are zero. -/
lemma memcmp_inet {a b : Storage} (za : a.slice 8 12 = List.replicate 12 0)
    (zb : b.slice 8 12 = List.replicate 12 0) :
    memcmp (a.slice 4 sizeofSockaddrIn) (b.slice 4 sizeofSockaddrIn) = 0 ↔
      a.slice 4 4 = b.slice 4 4 := by
  have hs := slice_eq_iff a b 4 4 12 (by decide)
  rw [za, zb, and_iff_left rfl] at hs
  exact (memcmp_slice (by decide)).trans hs

lemma memcmp_inet6 {a b : Storage} (za : a.slice 28 8 = List.replicate 8 0)
    (zb : b.slice 28 8 = List.replicate 8 0) :
    memcmp (a.slice 8 sizeofSockaddrIn6) (b.slice 8 sizeofSockaddrIn6) = 0 ↔
      a.slice 8 16 = b.slice 8 16 ∧ a.slice 24 4 = b.slice 24 4 := by
  have hs := slice_eq_iff a b 8 16 12 (by decide)
  have hs' := slice_eq_iff a b 24 4 8 (by decide)
  rw [za, zb, and_iff_left rfl] at hs'
  exact ((memcmp_slice (by decide)).trans hs).trans (and_congr_right fun _ => hs')

/-- What compares equal to a peer's address is zero behind its end, too. -/
lemma isPeer_of_sockaddrCmp {a b : Storage} (ha : IsPeer a) {len : ℕ}
    (h : sockaddrCmp a b len = 0) : IsPeer b := by
  have h6 : AF_INET6 ≠ AF_INET := by decide
  rw [sockaddrCmp, order_eq_zero] at h
  obtain ⟨hf, h⟩ := h
  cases ha with
  | inet fa za =>
    rw [if_pos fa, order_eq_zero] at h
    have hs := (memcmp_slice (by decide)).mp h.2
    have hzero := ((slice_eq_iff a b 4 4 12 (by decide)).mp hs).2
    exact .inet (hf.symm.trans fa) (hzero.symm.trans za)
  | inet6 fa za =>
    rw [if_neg (by rw [fa]; exact h6), if_pos fa, order_eq_zero] at h
    have hs := (memcmp_slice (by decide)).mp h.2
    have hzero := ((slice_eq_iff a b 8 20 8 (by decide)).mp hs).2
    exact .inet6 (hf.symm.trans fa) (hzero.symm.trans za)

/-- **The over-long comparison tells endpoints apart**: on addresses that are zero behind
their end it succeeds exactly when family, port, address and scope id agree. -/
theorem sockaddrCmp_eq_zero_iff {a b : Storage} (ha : IsPeer a) (hb : IsPeer b) (len : ℕ) :
    sockaddrCmp a b len = 0 ↔ endpoint a = endpoint b := by
  have h6 : AF_INET6 ≠ AF_INET := by decide
  rw [sockaddrCmp, order_eq_zero]
  cases ha with
  | inet fa za =>
    cases hb with
    | inet fb zb =>
      rw [if_pos fa, order_eq_zero, memcmp_inet za zb]
      simp [endpoint, fa, fb]
    | inet6 fb zb => simp [endpoint, fa, fb, h6, h6.symm]
  | inet6 fa za =>
    cases hb with
    | inet fb zb => simp [endpoint, fa, fb, h6]
    | inet6 fb zb =>
      rw [if_neg (by rw [fa]; exact h6), if_pos fa, order_eq_zero, memcmp_inet6 za zb]
      simp [endpoint, fa, fb, h6]

end Csockets.NetModel
