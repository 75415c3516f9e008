import Csockets.AddrModel

/-!
What `create_addrinfo` comes to: the chains of all its calls joined in order, or the code of the
first call that failed with every node freed.
-/

namespace Csockets.AddrList

open Blocks Links AddrModel
open Chain (hd hd_eq_none)

def hosts (bindIps : List String) : List (Option String) :=
  if bindIps = [] then [none] else bindIps.map some

def requests (port : String) (hosts : List (Option String)) : List Request :=
  hosts.map fun node => ⟨node, port, hints⟩

def chains (calls : List Call) : List (ℕ × Addrinfo) := calls.flatMap Call.chain

/-- The calls for all hosts succeeded, and `m'` is `m` with their nodes as one chain. -/
structure Built (port : String) (hosts : List (Option String)) (m m' : Heap) (calls : List Call) :
    Prop where
  asked : calls.map Call.request = requests port hosts
  good : ∀ c ∈ calls, c.ret = 0
  fresh : Fresh m m' (chains calls)
  distinct : ((chains calls).map Prod.fst).Nodup

/-- The last of the calls was the first to fail, with `status`, and `m'` is `m` with the nodes of
the others freed, each once, and nothing else. -/
structure Failed (port : String) (hosts : List (Option String)) (m m' : Heap) (calls : List Call)
    (status : ℤ) : Prop where
  first : ∃ pre c, calls = pre ++ [c] ∧ (∀ c ∈ pre, c.ret = 0) ∧ c.ret ≠ 0 ∧ status = c.ret
  asked : calls.map Call.request <+: requests port hosts
  once : ∀ a ∈ (chains calls).map Prod.fst, m'.freed.count a = 1
  freed : m'.freed.Perm (m.freed ++ (chains calls).map Prod.fst)
  kept : m'.cell = m.cell

variable {db : Netdb} {port : String} {m m₁ m₂ : Heap} {l₁ l₂ : List (ℕ × Addrinfo)}

lemma chains_snoc (calls : List Call) (c : Call) :
    chains (calls ++ [c]) = chains calls ++ c.chain := by
  rw [chains, List.flatMap_append, List.flatMap_singleton]
  rfl

lemma lookup_spec (db : Netdb) (port : String) (node : Option String) (w : World) :
    ∃ ret res w' l, lookup db port node w = (ret, res, w') ∧
      w'.calls = w.calls ++ [⟨⟨node, port, hints⟩, ret, l⟩] ∧
      (ret = 0 ∧ res = hd none l ∧ Fresh w.mem w'.mem l ∨ ret ≠ 0 ∧ l = [] ∧ w'.mem = w.mem) := by
  refine ⟨_, _, _, _, rfl, rfl, ?_⟩
  by_cases hret : (db.getaddrinfo (w.calls.map Call.request) ⟨node, port, hints⟩ w.mem).ret = 0
  · left
    obtain ⟨l, -, hres, hfresh⟩ := db.found _ _ _ hret
    have hnodes := nodes_seg hfresh.seg (seg_length_le hfresh.seg)
    rw [← hres] at hnodes
    rw [if_pos hret, hnodes]
    exact ⟨hret, hres, hfresh⟩
  · right
    rw [if_neg hret]
    exact ⟨hret, rfl, db.failed _ _ _ hret⟩

/-- The walk ends at the last node, and pointing that one on joins the chains. -/
lemma splice_spec (h₁ : Fresh m m₁ l₁) (h₂ : Fresh m₁ m₂ l₂) :
    ∃ m₃, splice (hd none l₁) (hd none l₂) m₂ = some (hd none (l₁ ++ l₂), m₃) ∧
      Fresh m m₃ (l₁ ++ l₂) := by
  obtain rfl | ⟨l, ⟨a, v⟩, rfl⟩ := List.eq_nil_or_concat' l₁
  · refine ⟨m₂, rfl, h₂.seg, fun a ha => h₁.next.trans (h₂.new a ha), fun a ha => ?_,
      h₁.next.trans h₂.next, h₂.freed.trans h₁.freed⟩
    rw [h₂.old a ha, h₁.old a (by simp)]
  · have hseg := h₁.stays h₂
    have hlen := seg_length_le hseg
    rw [List.length_append, List.length_singleton] at hlen
    have hlast := last_seg hseg (Nat.lt_of_succ_le hlen)
    have ha := (seg_cons.mp (seg_append.mp hseg).2).1
    obtain ⟨m₃, hm₃, hcell, hnext, hfreed⟩ :=
      Mem.modify_live ha fun n => { n with next := hd none l₂ }
    have hhd : hd none (l ++ [(a, v)] ++ l₂) = hd none (l ++ [(a, v)]) := by
      cases l <;> rfl
    refine ⟨m₃, ?_, h₁.join h₂ hcell hnext hfreed⟩
    unfold splice
    rw [if_neg (hd_eq_none.not.mpr (by simp)), hlast, hhd]
    dsimp only [Option.bind_eq_bind, Option.bind_some]
    rw [hm₃]
    rfl

lemma freeFirst_spec (db : Netdb) (h : Fresh m m₁ l₁) :
    ∃ m₂, freeFirst db (hd none l₁) m₁ = some m₂ ∧ Released m₁ m₂ l₁ := by
  unfold freeFirst
  split
  · exact db.freed m₁ l₁ h.seg
  · rename_i hnone
    obtain rfl := hd_eq_none.mp (not_not.mp hnone)
    exact ⟨m₁, rfl, by simp, fun _ _ => rfl, rfl⟩

lemma Built.nil (port : String) (m : Heap) : Built port [] m m [] :=
  ⟨rfl, by simp, Fresh.refl m, List.nodup_nil⟩

lemma Built.snoc {hosts : List (Option String)} {calls : List Call} (node : Option String)
    (h : Built port hosts m m₁ calls) (hfresh : Fresh m m₂ (chains calls ++ l₂)) :
    Built port (hosts ++ [node]) m m₂ (calls ++ [⟨⟨node, port, hints⟩, 0, l₂⟩]) := by
  rw [← chains_snoc calls ⟨⟨node, port, hints⟩, 0, l₂⟩] at hfresh
  refine ⟨?_, fun c hc => ?_, hfresh, seg_nodup hfresh.seg⟩
  · rw [List.map_append, h.asked, requests, requests, List.map_append]
    rfl
  · rw [List.mem_append, List.mem_singleton] at hc
    obtain hc | rfl := hc
    · exact h.good c hc
    · rfl

lemma Built.fails {done : List (Option String)} {calls : List Call} {ret : ℤ}
    (node : Option String) (rest : List (Option String)) (h : Built port done m m₁ calls)
    (hret : ret ≠ 0) (hreleased : Released m₁ m₂ (chains calls)) :
    Failed port (done ++ node :: rest) m m₂ (calls ++ [⟨⟨node, port, hints⟩, ret, []⟩]) ret := by
  have hchains : chains (calls ++ [⟨⟨node, port, hints⟩, ret, []⟩]) = chains calls := by
    rw [chains_snoc, List.append_nil]
  refine ⟨⟨calls, _, rfl, h.good, hret, rfl⟩, ?_, fun a ha => ?_, ?_, h.fresh.released hreleased⟩
  · rw [List.map_append, h.asked, requests, requests, List.map_append]
    exact (List.prefix_append_right_inj _).mpr ⟨requests port rest, rfl⟩
  · rw [hchains] at ha
    refine List.count_eq_one_of_mem m₂.once ?_
    rw [(h.fresh.released_freed hreleased).mem_iff]
    exact List.mem_append_right _ ha
  · rw [hchains]
    exact h.fresh.released_freed hreleased

lemma addressLoop_spec (db : Netdb) {w₀ w : World} {done : List (Option String)}
    {calls : List Call} (ips : List String) (hbuilt : Built port done w₀.mem w.mem calls)
    (hcalls : w.calls = w₀.calls ++ calls) :
    ∃ r w' new, addressLoop db port ips (hd none (chains calls)) w = some (r, w') ∧
      w'.calls = w₀.calls ++ new ∧
      (r = .ok (hd none (chains new)) ∧ Built port (done ++ ips.map some) w₀.mem w'.mem new ∨
        ∃ ret, r = .error ret ∧ Failed port (done ++ ips.map some) w₀.mem w'.mem new ret) := by
  induction ips generalizing w done calls with
  | nil =>
    refine ⟨_, w, calls, rfl, hcalls, Or.inl ⟨rfl, ?_⟩⟩
    rwa [List.map_nil, List.append_nil]
  | cons ip ips ih =>
    obtain ⟨ret, res, w₁, l, hlookup, hcalls₁, hres⟩ := lookup_spec db port (some ip) w
    rw [hcalls, List.append_assoc] at hcalls₁
    unfold addressLoop
    rw [hlookup]
    dsimp only
    obtain ⟨rfl, rfl, hfresh⟩ | ⟨hret, rfl, hmem⟩ := hres
    · obtain ⟨m₃, hsplice, hjoin⟩ := splice_spec hbuilt.fresh hfresh
      have hrest := ih (w := ⟨m₃, w₁.calls⟩) (hbuilt.snoc (some ip) hjoin) hcalls₁
      rw [chains_snoc, List.append_assoc, List.singleton_append] at hrest
      rw [if_neg (not_not.mpr rfl), hsplice]
      exact hrest
    · obtain ⟨m', hfree, hreleased⟩ := freeFirst_spec db hbuilt.fresh
      rw [if_pos hret, hmem, hfree]
      have hfailed := hbuilt.fails (some ip) (ips.map some) hret hreleased
      exact ⟨_, _, _, rfl, hcalls₁, Or.inr ⟨ret, rfl, hfailed⟩⟩

lemma Built.read {hosts : List (Option String)} {calls : List Call}
    (h : Built port hosts m m₁ calls) :
    nodes m₁ m₁.next (hd none (chains calls)) = some (chains calls) :=
  nodes_seg h.fresh.seg (seg_length_le h.fresh.seg)

lemma createAddrinfo_nil (db : Netdb) (port : String) (out : Ptr) (w : World) :
    ∃ status out' w' calls, createAddrinfo db port [] out w = some (status, out', w') ∧
      w'.calls = w.calls ++ calls ∧
      (Built port [none] w.mem w'.mem calls ∧ status = 0 ∧ out' = hd none (chains calls) ∨
        Failed port [none] w.mem w'.mem calls status ∧ out' = out) := by
  obtain ⟨ret, res, w₁, l, hlookup, hcalls, hres⟩ := lookup_spec db port none w
  have hrun : createAddrinfo db port [] out w =
      if ret ≠ 0 then some (ret, out, w₁) else some (0, res, w₁) := by
    unfold createAddrinfo addressLoop
    dsimp only [Option.bind_eq_bind, Option.bind_some]
    rw [if_pos List.length_nil, hlookup]
  obtain ⟨rfl, rfl, hfresh⟩ | ⟨hret, rfl, hmem⟩ := hres
  · have hbuilt := (Built.nil port w.mem).snoc none hfresh
    have hl : chains [⟨⟨none, port, hints⟩, 0, l⟩] = l := List.flatMap_singleton _ _
    rw [if_neg (not_not.mpr rfl)] at hrun
    exact ⟨_, _, _, _, hrun, hcalls, Or.inl ⟨hbuilt, rfl, congrArg (hd none) hl.symm⟩⟩
  · have hreleased : Released w.mem w₁.mem (chains []) := by
      rw [hmem]
      exact ⟨by simp [chains], fun _ _ => rfl, rfl⟩
    rw [if_pos hret] at hrun
    exact ⟨_, _, _, _, hrun, hcalls,
      Or.inr ⟨(Built.nil port w.mem).fails none [] hret hreleased, rfl⟩⟩

/-- What `*out` points to if all calls succeed is the first node of the chains joined. -/
lemma createAddrinfo_cases (db : Netdb) (port : String) (bindIps : List String) (out : Ptr)
    (w : World) :
    ∃ status out' w' calls, createAddrinfo db port bindIps out w = some (status, out', w') ∧
      w'.calls = w.calls ++ calls ∧
      (Built port (hosts bindIps) w.mem w'.mem calls ∧ status = 0 ∧ out' = hd none (chains calls) ∨
        Failed port (hosts bindIps) w.mem w'.mem calls status ∧ out' = out) := by
  cases bindIps with
  | nil => exact createAddrinfo_nil db port out w
  | cons ip ips =>
    obtain ⟨r, w', calls, hloop, hcalls, hr⟩ :=
      addressLoop_spec db (ip :: ips) (Built.nil port w.mem) (List.append_nil _).symm
    have hstart : hd none (chains []) = none := rfl
    rw [hstart] at hloop
    unfold createAddrinfo
    rw [hloop]
    obtain ⟨rfl, hbuilt⟩ | ⟨ret, rfl, hfailed⟩ := hr
    · exact ⟨_, _, _, _, rfl, hcalls, Or.inl ⟨hbuilt, rfl, rfl⟩⟩
    · exact ⟨_, _, _, _, rfl, hcalls, Or.inr ⟨hfailed, rfl⟩⟩

/-- **Building the list**: if all calls succeed the status is 0 and `*out` is the chains of all
of them in order; else the status is that of the first that failed, `*out` is as it was, and
what the calls before it made has been freed. -/
theorem createAddrinfo_spec (db : Netdb) (port : String) (bindIps : List String) (out : Ptr)
    (w : World) :
    ∃ status out' w' calls, createAddrinfo db port bindIps out w = some (status, out', w') ∧
      w'.calls = w.calls ++ calls ∧
      (Built port (hosts bindIps) w.mem w'.mem calls ∧ status = 0 ∧
          nodes w'.mem w'.mem.next out' = some (chains calls) ∨
        Failed port (hosts bindIps) w.mem w'.mem calls status ∧ out' = out) := by
  obtain ⟨status, out', w', calls, hrun, hcalls, hcases⟩ :=
    createAddrinfo_cases db port bindIps out w
  refine ⟨status, out', w', calls, hrun, hcalls, ?_⟩
  obtain ⟨hbuilt, hstatus, rfl⟩ | hfailed := hcases
  · exact Or.inl ⟨hbuilt, hstatus, hbuilt.read⟩
  · exact Or.inr hfailed

def inet (ip : List UInt8) : Addrinfo := ⟨4, 2, SOCK_DGRAM, IPPROTO_UDP, [2, 0, 35, 40] ++ ip⟩

/-- Two calls that succeed, the second with two nodes, and then one that does not. -/
def third : Netdb := Netdb.scripted fun
  | 0 => .found [inet [127, 0, 0, 1]] (List.cons_ne_nil _ _)
  | 1 => .found [inet [10, 0, 0, 1], inet [10, 0, 0, 2]] (List.cons_ne_nil _ _)
  | _ => .fail (-2) (by decide)

theorem createAddrinfo_third :
    ∃ status out' w' calls,
      createAddrinfo third "9000" ["127.0.0.1", "10.0.0.1", "::g"] none ⟨Mem.empty, []⟩ =
        some (status, out', w') ∧
      w'.calls = [] ++ calls ∧
      (Built "9000" (hosts ["127.0.0.1", "10.0.0.1", "::g"]) Mem.empty w'.mem calls ∧ status = 0 ∧
          nodes w'.mem w'.mem.next out' = some (chains calls) ∨
        Failed "9000" (hosts ["127.0.0.1", "10.0.0.1", "::g"]) Mem.empty w'.mem calls status ∧
          out' = none) :=
  createAddrinfo_spec third "9000" _ none ⟨Mem.empty, []⟩

example : (createAddrinfo third "9000" ["127.0.0.1", "10.0.0.1", "::g"] none ⟨Mem.empty, []⟩).map
    (fun r => (r.1, r.2.2.mem.freed.length)) = some (-2, 3) := by decide +kernel

end Csockets.AddrList
