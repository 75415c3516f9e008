import Csockets.NetModel
import Csockets.UdpmsgServer

/-!
The program around the datagram server (`main`, `parse_ip` and the rest of `server` in
`udpmsg/main.old.c`): which address it binds, how it ends, and that it has room for addresses of
one family only. What it prints to `stderr` is left out.
-/

namespace Csockets.UdpmsgMain

open Bytes Loops NetModel UdpmsgModel UdpmsgNewlines UdpmsgServer

def EXIT_FAILURE : ℕ := 1
/-- `htons(PORT)`. -/
def PORT : List UInt8 := [0x27, 0x24]
def u16Bytes (n : ℕ) : List UInt8 := [UInt8.ofNat n, UInt8.ofNat (n / 256)]

/-- What `inet_pton` comes back with: 1 with an address of `n` bytes, 0 or -1. -/
inductive Pton (n : ℕ)
  | valid (bytes : List UInt8) (size : bytes.length = n)
  | invalid
  | unsupported

inductive Call
  | socket (family : ℕ)
  | bind (fd : ℤ) (addr : List UInt8)
  | close (fd : ℤ)
  deriving DecidableEq

structure Env where
  inetPton : String → Pton 4
  inetPton6 : String → Pton 16
  inetNtop : List UInt8 → Option String
  socket : ℤ
  bind : ℤ
  feed : Stream' Recv

structure Out where
  status : ℕ
  calls : List Call
  printed : List Line

variable (env : Env)

/-- The address it is given is stored where the family has it. -/
def parseIp (ip : String) (addr : Buf sizeofSockaddr) : Option (ℤ × Buf sizeofSockaddr) :=
  match env.inetPton ip with
  | .valid ipv4 _ => do
    let addr ← addr.write 4 ipv4
    some (0, addr)
  | .invalid =>
    match env.inetPton6 ip with
    | .valid ipv6 _ => do
      let addr ← addr.write 8 ipv6
      some (1, addr)
    | _ => some (-1, addr)
  | .unsupported => some (-1, addr)

def server (turns : ℕ) (family : ℕ) (listenAddr : Buf sizeofSockaddr) (listenAddrLen : ℕ) :
    Turn (List Call × Server) Out :=
  let servfd := env.socket
  if servfd < 0 then
    .leave ⟨EXIT_FAILURE, [.socket family], []⟩
  else
    match readN listenAddr.bytes listenAddrLen with
    | none => .fault
    | some addr =>
      let calls := [.socket family, .bind servfd addr]
      if env.bind < 0 then
        .leave ⟨EXIT_FAILURE, calls ++ [.close servfd], []⟩
      else
        -- the loop is left by `goto recv_err` only, past the line that sets the status
        (UdpmsgModel.server env.inetNtop turns env.feed).map (calls, ·) fun s =>
          ⟨EXIT_FAILURE, calls ++ [.close servfd], s.printed⟩

def setPort (family : ℕ) (addr : Buf sizeofSockaddr) : Option (Buf sizeofSockaddr) := do
  let addr ← addr.write 2 PORT
  addr.write 0 (u16Bytes family)

def fails : Turn (List Call × Server) Out :=
  .leave ⟨EXIT_FAILURE, [], []⟩

def main (turns : ℕ) : List String → Turn (List Call × Server) Out
  | _ :: mode :: ip :: _ =>
    if mode = "server" then
      match parseIp env ip (Buf.zero _) with
      | none => .fault
      | some (ret, addr) =>
        if ret = 0 then
          (setPort AF_INET addr).elim .fault fun addr =>
            server env turns AF_INET addr sizeofSockaddrIn
        else if ret = 1 then
          (setPort AF_INET6 addr).elim .fault fun addr =>
            server env turns AF_INET6 addr sizeofSockaddrIn6
        else fails
    -- there is no client yet
    else if mode = "client" then fails
    else fails
  | _ => fails

/-! ### The address -/

def sockaddrIn (ipv4 : List UInt8) : List UInt8 :=
  u16Bytes AF_INET ++ PORT ++ ipv4 ++ List.replicate 8 0

/-- The arguments ask for a server at this address. -/
def Serves (argv : List String) (ipv4 : List UInt8) : Prop :=
  ∃ prog ip rest h, argv = prog :: "server" :: ip :: rest ∧ env.inetPton ip = .valid ipv4 h

def Serves6 (argv : List String) : Prop :=
  ∃ prog ip rest ipv6 h, argv = prog :: "server" :: ip :: rest ∧ env.inetPton ip = .invalid ∧
    env.inetPton6 ip = .valid ipv6 h

variable {env}

lemma serves_server {prog ip : String} {rest : List String} {ipv4 : List UInt8} :
    Serves env (prog :: "server" :: ip :: rest) ipv4 ↔ ∃ h, env.inetPton ip = .valid ipv4 h := by
  constructor
  · rintro ⟨_, _, _, h, he, hip⟩
    cases he
    exact ⟨h, hip⟩
  · rintro ⟨h, hip⟩
    exact ⟨prog, ip, rest, h, rfl, hip⟩

lemma serves6_server {prog ip : String} {rest : List String} :
    Serves6 env (prog :: "server" :: ip :: rest) ↔
      env.inetPton ip = .invalid ∧ ∃ ipv6 h, env.inetPton6 ip = .valid ipv6 h := by
  constructor
  · rintro ⟨_, _, _, ipv6, h, he, hip, hip6⟩
    cases he
    exact ⟨hip, ipv6, h, hip6⟩
  · rintro ⟨hip, ipv6, h, hip6⟩
    exact ⟨prog, ip, rest, ipv6, h, rfl, hip, hip6⟩

lemma not_serves6 {argv : List String} {ipv4 : List UInt8} (h : Serves env argv ipv4) :
    ¬ Serves6 env argv := by
  obtain ⟨prog, ip, rest, _, rfl, hip⟩ := h
  rw [serves6_server, hip]
  rintro ⟨hinvalid, -⟩
  cases hinvalid

lemma not_serves {argv : List String} (h : ∀ prog ip rest, argv ≠ prog :: "server" :: ip :: rest) :
    (∀ ipv4, ¬ Serves env argv ipv4) ∧ ¬ Serves6 env argv := by
  constructor
  · rintro ipv4 ⟨prog, ip, rest, -, he, -⟩
    exact h prog ip rest he
  · rintro ⟨prog, ip, rest, -, -, he, -⟩
    exact h prog ip rest he

lemma setPort_sockaddrIn {ipv4 : List UInt8} (h : ipv4.length = 4) :
    ∃ addr₁ addr₂ : Buf sizeofSockaddr, (Buf.zero _).write 4 ipv4 = some addr₁ ∧
      setPort AF_INET addr₁ = some addr₂ ∧ addr₂.bytes = sockaddrIn ipv4 := by
  obtain ⟨addr₁, h₁⟩ := (Buf.zero sizeofSockaddr).write_fits 4 ipv4 (by rw [h]; decide)
  obtain ⟨addr₂, h₂⟩ := addr₁.write_fits 2 PORT (by decide)
  obtain ⟨addr₃, h₃⟩ := addr₂.write_fits 0 (u16Bytes AF_INET) (by decide)
  refine ⟨addr₁, addr₃, h₁, ?_, ?_⟩
  · unfold setPort
    rw [h₂]
    exact h₃
  · rw [(Buf.write_bytes h₃).2, (Buf.write_bytes h₂).2, (Buf.write_bytes h₁).2, h]
    match ipv4, h with
    | [a, b, c, d], _ => rfl

lemma write_ipv6 {ipv6 : List UInt8} (h : ipv6.length = 16) (addr : Buf sizeofSockaddr) :
    addr.write 8 ipv6 = none := by
  unfold Buf.write
  apply dif_neg
  rw [h]
  decide

/-! ### How the program ends -/

def opens (env : Env) (ipv4 : List UInt8) : List Call :=
  [.socket AF_INET, .bind env.socket (sockaddrIn ipv4)]

/-- It has failed; a socket that it opened was bound to the address and closed, once. -/
def Failed (env : Env) (argv : List String) (out : Out) : Prop :=
  out.status = EXIT_FAILURE ∧
    (out.calls = [] ∨ out.calls = [.socket AF_INET] ∧ env.socket < 0 ∨
      ∃ ipv4, Serves env argv ipv4 ∧ out.calls = opens env ipv4 ++ [.close env.socket] ∧
        0 ≤ env.socket)

/-- How a run ends: it faults for an address of the other family, and when the server does; it
runs on only as a server at the address that was asked for; and it returns a failure. -/
def Ends (env : Env) (turns : ℕ) (argv : List String) (t : Turn (List Call × Server) Out) : Prop :=
  (t = .fault ↔ Serves6 env argv ∨ (∃ ipv4, Serves env argv ipv4) ∧
      0 ≤ env.socket ∧ 0 ≤ env.bind ∧ Crashes env.feed turns) ∧
    t.Keeps (fun r => ∃ ipv4, Serves env argv ipv4 ∧ r.1 = opens env ipv4 ∧ GoesOn env.feed turns)
      (Failed env argv)

lemma server_spec (turns : ℕ) {argv : List String} {ipv4 : List UInt8}
    (hserves : Serves env argv ipv4) {addr : Buf sizeofSockaddr}
    (haddr : addr.bytes = sockaddrIn ipv4) :
    Ends env turns argv (server env turns AF_INET addr sizeofSockaddrIn) := by
  have h6 : ¬ Serves6 env argv := not_serves6 hserves
  have hsome : ∃ ipv4, Serves env argv ipv4 := ⟨ipv4, hserves⟩
  unfold Ends
  rw [or_iff_right h6, and_iff_right hsome]
  have hread : readN addr.bytes sizeofSockaddrIn = some (sockaddrIn ipv4) := by
    have hsize : addr.bytes.length = sizeofSockaddrIn := addr.size
    rw [readN_of_le hsize.ge, ← hsize, List.take_length, haddr]
  unfold server
  dsimp only
  rw [hread]
  by_cases hsocket : env.socket < 0
  · rw [if_pos hsocket]
    refine ⟨?_, rfl, Or.inr (Or.inl ⟨rfl, hsocket⟩)⟩
    constructor
    · intro h
      cases h
    · rintro ⟨hpos, -⟩
      omega
  · rw [if_neg hsocket]
    dsimp only
    by_cases hbind : env.bind < 0
    · rw [if_pos hbind]
      refine ⟨?_, rfl, Or.inr (Or.inr ⟨ipv4, hserves, rfl, by omega⟩)⟩
      constructor
      · intro h
        cases h
      · rintro ⟨-, hpos, -⟩
        omega
    · rw [if_neg hbind]
      rw [← server_fault env.inetNtop]
      cases hs : UdpmsgModel.server env.inetNtop turns env.feed with
      | again s =>
        have hgoes : GoesOn env.feed turns := (server_goes env.inetNtop turns _).mp ⟨s, hs⟩
        exact ⟨by simp [Turn.map], ipv4, hserves, rfl, hgoes⟩
      | leave s =>
        exact ⟨by simp [Turn.map], rfl, Or.inr (Or.inr ⟨ipv4, hserves, rfl, by omega⟩)⟩
      | fault =>
        refine ⟨?_, trivial⟩
        simp only [Turn.map, true_iff, and_true]
        omega

lemma fails_ends {argv : List String} (h : ∀ ipv4, ¬ Serves env argv ipv4) (h6 : ¬ Serves6 env argv)
    (turns : ℕ) : Ends env turns argv fails := by
  refine ⟨?_, rfl, Or.inl rfl⟩
  constructor
  · intro hfault
    cases hfault
  · rintro (h' | ⟨⟨ipv4, h'⟩, -⟩)
    · exact absurd h' h6
    · exact absurd h' (h ipv4)

/-- **How `udpmsg` ends**: whatever it is called with and its calls come back with, for any number
of turns of its loop. It faults exactly when it is to serve at a valid IPv6 address, or when its
server at an IPv4 address comes to a harmful datagram; it serves only at the IPv4 address it is
given; and when it returns it has failed and closed the socket it opened. -/
theorem main_ends (env : Env) (turns : ℕ) (argv : List String) :
    Ends env turns argv (main env turns argv) := by
  unfold main
  split
  · rename_i prog mode ip rest
    split
    · rename_i hmode
      subst hmode
      unfold parseIp
      cases hip : env.inetPton ip with
      | valid ipv4 h =>
        obtain ⟨addr₁, addr₂, h₁, h₂, haddr⟩ := setPort_sockaddrIn h
        dsimp only
        rw [h₁]
        simp only [Option.bind_eq_bind, Option.bind_some, if_pos, h₂, Option.elim_some]
        exact server_spec turns (serves_server.mpr ⟨h, hip⟩) haddr
      | invalid =>
        have hnone : ∀ ipv4, ¬ Serves env (prog :: "server" :: ip :: rest) ipv4 := by
          intro ipv4
          rw [serves_server, hip]
          rintro ⟨_, he⟩
          cases he
        cases hip6 : env.inetPton6 ip with
        | valid ipv6 h =>
          dsimp only
          rw [write_ipv6 h]
          exact ⟨iff_of_true rfl (Or.inl (serves6_server.mpr ⟨hip, ipv6, h, hip6⟩)), trivial⟩
        | invalid =>
          refine fails_ends hnone ?_ turns
          rw [serves6_server, hip6]
          rintro ⟨-, _, _, he⟩
          cases he
        | unsupported =>
          refine fails_ends hnone ?_ turns
          rw [serves6_server, hip6]
          rintro ⟨-, _, _, he⟩
          cases he
      | unsupported =>
        refine fails_ends (fun ipv4 => ?_) ?_ turns
        · rw [serves_server, hip]
          rintro ⟨_, he⟩
          cases he
        · rw [serves6_server, hip]
          rintro ⟨he, -⟩
          cases he
    · rename_i hmode
      have hnone : ∀ prog' ip' rest',
          prog :: mode :: ip :: rest ≠ prog' :: "server" :: ip' :: rest' := by
        intro _ _ _ he
        injection he with _ he
        injection he with he
        exact hmode he
      obtain ⟨h, h6⟩ := @not_serves env _ hnone
      split
      · exact fails_ends h h6 turns
      · exact fails_ends h h6 turns
  · rename_i hargv
    obtain ⟨h, h6⟩ := @not_serves env argv fun prog ip rest he => hargv prog "server" ip rest he
    exact fails_ends h h6 turns

end Csockets.UdpmsgMain
