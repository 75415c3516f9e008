import Csockets.Runs
import Csockets.UsersRefine

/-!
The user table over whole runs: from `user_table_init` through any calls of
`user_table_update` to `user_table_free`.
-/

namespace Csockets.UsersTable

open Blocks Chain Runs UsersModel UsersList UsersRefine

variable {σ : Type}

structure Call (σ : Type) where
  user : UserData
  timeoutFunc : UserData → σ → σ

def counted (W : World σ) : World (σ × ℕ) where
  time io := ((W.time io.1).1, (W.time io.1).2, io.2)
  malloc io := ((W.malloc io.1).1, (W.malloc io.1).2, io.2)

def counting (timeoutFunc : UserData → σ → σ) (u : UserData) (io : σ × ℕ) : Option (σ × ℕ) :=
  some (timeoutFunc u io.1, io.2 + 1)

variable (W : World σ)

/-- The callers pass a user whose links are null. -/
def call (c : Call σ) (s : Store (σ × ℕ)) : Option (Store (σ × ℕ)) :=
  (userTableUpdate (counted W) (counting c.timeoutFunc) ⟨c.user, none, none⟩ s).map Prod.snd

def opened (timeout : ℤ) (io : σ) : Store (σ × ℕ) := (userTableInit timeout (boot (io, 0))).2

/-- The nodes from `start` on: pairwise distinct, each with its two neighbours, the last one
being `end`; and every block ever allocated is one of them or was freed, once. -/
structure WellLinked (s : Store (σ × ℕ)) (nodes : List ℕ) : Prop where
  distinct : nodes.Nodup
  start : s.table.start = nodes.head?
  end_ : s.table.end_ = nodes.getLast?
  live : ∀ i a, nodes[i]? = some a → ∃ n, s.heap.cell a = some n ∧ n.next = nodes[i + 1]? ∧
    n.prev = if i = 0 then none else nodes[i - 1]?
  accounted : ∀ a < s.heap.next, s.heap.freed.count a = if a ∈ nodes then 0 else 1

variable {W}

/-- What a run keeps: the heap is a chain, and as many nodes were freed as were kicked. -/
structure Inv (s : Store (σ × ℕ)) : Prop where
  rep : ∃ L, Rep s L
  evictions : s.heap.freed.length = s.io.2

lemma rep_opened (timeout : ℤ) (io : σ) : Rep (opened timeout io) [] := Holds.empty

lemma inv_opened (timeout : ℤ) (io : σ) : Inv (opened timeout io) :=
  ⟨⟨[], rep_opened timeout io⟩, rfl⟩

lemma sweep_counted {timeoutFunc : UserData → σ → σ} {timeout : ℤ} {L L' : List Entry}
    {io io' : σ × ℕ}
    (h : sweep (counted W) (counting timeoutFunc) timeout L io = some (L', io')) :
    io'.2 = io.2 + (kicked (counted W) (counting timeoutFunc) timeout L io).length := by
  induction L generalizing L' io with
  | nil =>
    cases h
    rfl
  | cons e l ih =>
    rcases sweep_cons_iff.mp h with ⟨hs, io₁, hf, hl⟩ | ⟨hs, l', rfl, hl⟩
    · have := ih hl
      cases hf
      simp only [kicked, if_pos hs, counting, Option.map_some, Option.getD_some,
        List.length_cons]
      rw [this]
      simp only [counted]
      omega
    · have := ih hl
      simp only [kicked, if_neg hs]
      exact this

lemma update_counted {timeoutFunc : UserData → σ → σ} {timeout : ℤ} {u : UserData} {fresh : ℕ}
    {L L' : List Entry} {io io' : σ × ℕ} {r : ℤ}
    (h : update (counted W) (counting timeoutFunc) timeout u fresh L io = some (r, L', io')) :
    io'.2 = io.2 + (evicted (counted W) (counting timeoutFunc) timeout u L io).length := by
  unfold evicted
  rcases update_cases h with ⟨e, X, A, hL, hs, -⟩ | ⟨A, io₁, hL, hs, rfl, -⟩
  · rw [hL]
    exact sweep_counted hs
  · rw [hL]
    show io₁.2 = _
    exact sweep_counted hs

lemma counting_total (timeoutFunc : UserData → σ → σ) (u : UserData) (io : σ × ℕ) :
    (counting timeoutFunc u io).isSome := rfl

/-- One call faults nowhere, keeps the invariant and does not empty the table. -/
lemma call_spec (c : Call σ) {s : Store (σ × ℕ)} (h : Inv s) :
    ∃ s', call W c s = some s' ∧ Inv s' ∧ (s.table.start ≠ none → s'.table.start ≠ none) := by
  obtain ⟨⟨L, hL⟩, hev⟩ := h
  obtain ⟨r, L', io', hup⟩ := update_total (counted W) s.table.timeout
    (counting_total c.timeoutFunc) c.user s.heap.next L s.io
  obtain ⟨s', hs', hrep, hio, -, hfr⟩ := userTableUpdate_spec hL hup
  refine ⟨s', by rw [call, hs']; rfl, ⟨⟨L', hrep⟩, ?_⟩, fun hne => ?_⟩
  · rw [hfr, List.length_append, List.length_map, hev, hio, update_counted hup]
  · rw [Ne, hrep.eq_nil_iff]
    exact update_ne_nil hup (mt hL.eq_nil_iff.mpr hne)

lemma calls_spec (cs : List (Call σ)) {s : Store (σ × ℕ)} (h : Inv s) :
    ∃ s', runs (call W) cs s = some s' ∧ Inv s' ∧
      (s.table.start ≠ none → s'.table.start ≠ none) := by
  refine runs_inv (fun t => Inv t ∧ (s.table.start ≠ none → t.table.start ≠ none))
    (fun c t ht => ?_) cs ⟨h, id⟩
  obtain ⟨t', ht', hinv, hne⟩ := call_spec (W := W) c ht.1
  exact ⟨t', ht', hinv, fun hs => hne (ht.2 hs)⟩

lemma wellLinked_of_rep {s : Store (σ × ℕ)} {L : List Entry} (h : Rep s L) :
    WellLinked s (L.map Prod.fst) where
  distinct := h.nodup
  start := by rw [h.start, hd_none, List.head?_map]
  end_ := by rw [h.fin, lst_none, List.getLast?_map]
  live := by
    intro i a ha
    rw [List.getElem?_map, Option.map_eq_some_iff] at ha
    obtain ⟨⟨b, v⟩, hi, rfl⟩ := ha
    obtain ⟨hlt, hget⟩ := List.getElem?_eq_some_iff.mp hi
    have hsplit : L = L.take i ++ (b, v) :: L.drop (i + 1) := by
      rw [← hget, List.getElem_cons_drop, List.take_append_drop]
    have hnode := h
    rw [hsplit] at hnode
    refine ⟨_, hnode.node, ?_, ?_⟩
    · show hd none (L.drop (i + 1)) = _
      rw [hd_none, List.head?_drop, List.getElem?_map]
    · show lst none (L.take i) = _
      rw [lst_none]
      cases i with
      | zero => simp
      | succ j =>
        have hj : j < L.length := by omega
        rw [List.getLast?_take, List.getElem?_map]
        simp [hj]
  accounted := by
    intro a ha
    rw [Mem.count_freed _ ha]
    by_cases hm : a ∈ L.map Prod.fst
    · rw [if_pos ((h.live_iff a).mpr hm), if_pos hm]
    · rw [if_neg (mt (h.live_iff a).mp hm), if_neg hm]

/-- **The table stays well linked**: whatever users, clock readings, allocation outcomes and
callbacks a run is made of, no access faults, the nodes form one doubly linked chain from
`start` to `end`, every block is linked or was freed once by an eviction, a walk by
`user_table_every` is safe, and a table that has entries keeps some. -/
theorem reachable_wellLinked (W : World σ) (timeout : ℤ) (io : σ) (cs : List (Call σ)) :
    ∃ s, runs (call W) cs (opened timeout io) = some s ∧
      (s.table.start = none ↔ s.table.end_ = none) ∧
      (∃ nodes, WellLinked s nodes) ∧
      s.heap.freed.length = s.io.2 ∧
      (∀ everyFunc : UserData → σ × ℕ → σ × ℕ,
        (userTableEvery (fun u io => some (everyFunc u io)) s).isSome) ∧
      (s.table.start ≠ none → ∀ more, ∃ s',
        runs (call W) (cs ++ more) (opened timeout io) = some s' ∧ s'.table.start ≠ none) := by
  obtain ⟨s, hs, hinv, -⟩ := calls_spec (W := W) cs (inv_opened timeout io)
  obtain ⟨L, hL⟩ := hinv.rep
  refine ⟨s, hs, ?_, ⟨_, wellLinked_of_rep hL⟩, hinv.evictions, fun g => ?_, fun hne more => ?_⟩
  · rw [hL.start, hL.fin, hd_none, lst_none]
    simp
  · rw [userTableEvery_spec _ hL, Option.isSome_map]
    have hsome : ∀ (l : List Entry) (io : σ × ℕ),
        (l.foldlM (fun io e => some (g e.2 io)) io).isSome := by
      intro l
      induction l with
      | nil => exact fun _ => rfl
      | cons e l ih => exact fun io => ih (g e.2 io)
    exact hsome L s.io
  · obtain ⟨s', hs', -, hkeep⟩ := calls_spec (W := W) more hinv
    exact ⟨s', by rw [runs_append, hs, Option.bind_some, hs'], hkeep hne⟩

/-! ### The end of a run -/

/-- `user_table_free` faults nowhere, frees the linked nodes and leaves an empty table; every
block ever allocated has then been freed once. -/
def FreesAll (s : Store (σ × ℕ)) : Prop :=
  ∃ s', userTableFree s = some s' ∧
    (∃ nodes, WellLinked s nodes ∧ s'.heap.freed = s.heap.freed ++ nodes) ∧
    (∀ a < s'.heap.next, s'.heap.freed.count a = 1) ∧
    s'.table.start = none ∧ s'.table.end_ = none

lemma freesAll_iff {s : Store (σ × ℕ)} {L : List Entry} (h : Rep s L) : FreesAll s ↔ L ≠ [] := by
  constructor
  · rintro ⟨s', hs', -⟩ rfl
    rw [userTableFree_empty h] at hs'
    cases hs'
  · intro hne
    obtain ⟨s', hs', ht, hc, -, hf⟩ := userTableFree_spec h hne
    refine ⟨s', hs', ⟨_, wellLinked_of_rep h, hf⟩, fun a ha => ?_, by rw [ht]; rfl, by rw [ht]; rfl⟩
    simp [Mem.count_freed _ ha, hc]

/-- **When the table can be freed**: at the end of any run `user_table_free` does what it
should exactly when the table has an entry by then. -/
theorem freesAll_iff_nonempty (W : World σ) (timeout : ℤ) (io : σ) (cs : List (Call σ)) :
    ∃ s, runs (call W) cs (opened timeout io) = some s ∧ (FreesAll s ↔ s.table.start ≠ none) := by
  obtain ⟨s, hs, hinv, -⟩ := calls_spec (W := W) cs (inv_opened timeout io)
  obtain ⟨L, hL⟩ := hinv.rep
  exact ⟨s, hs, by rw [freesAll_iff hL, Ne, Ne, hL.eq_nil_iff]⟩

def still : World Unit := ⟨fun _ => (0, ()), fun _ => (true, ())⟩

/-- A server that is stopped before the first message arrives. -/
theorem not_freesAll_of_no_call :
    ¬ ∀ cs s, runs (call still) cs (opened 70 ()) = some s → FreesAll s := by
  intro h
  obtain ⟨s', hs', -⟩ := h [] _ rfl
  have hnone : userTableFree (opened 70 ()) = none := userTableFree_empty (rep_opened 70 ())
  rw [hnone] at hs'
  cases hs'

end Csockets.UsersTable
