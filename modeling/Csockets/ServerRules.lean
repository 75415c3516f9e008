import Csockets.ServerList

/-!
Rules for calls and runs of `msg_handle`: what each step of a call preserves, a call preserves,
and what a call preserves holds at the end of every run. The same for what is to hold of each
event at the time it is logged.
-/

namespace Csockets.ServerRules

open Chain Runs NetModel UsersModel UsersList UsersRefine FormatterModel ServerModel ServerLog
  ServerList

variable (sys : Sys)

/-- The sender has the last entry of the table, and its message is accepted there. -/
def tailAccept (input : Input) (s : Server) : Bool :=
  match arrival sys input s.io, s.heap.load s.table.end_ with
  | some (u, _), some n => same u n.val && !spam u n.val
  | _, _ => false

/-- The steps a call consists of, each of which takes the invariant along: `P` between calls,
`Q u` while the message of `u` is handled. They speak of the entries, the clock readings made
and the log. -/
structure Rules (timeout : ℤ) (tail : Prop) (P : List Entry → ℕ → List Event → Prop)
    (Q : UserData → List Entry → ℕ → List Event → Prop) : Prop where
  arrive : ∀ {L k log sfd name user}, P L k log → createUser sfd name = some user →
    Q (stamp user (sys.time k)) L (k + 1) (log ++ [.time (sys.time k)])
  check : ∀ {u L k log}, Q u L k log → Q u L (k + 1) (log ++ [.time (sys.time k)])
  kick : ∀ {u D e l k log} n, Q u (D ++ e :: l) k log → same u e.2 = false →
    e.2.lastMsg + timeout < sys.time k →
      Q u (D ++ l) (k + 1) (log ++ [.time (sys.time k)] ++ [.timeoutFunc e.2] ++
        List.replicate n (.notice (noticeTo e.2)))
  reject : ∀ {u A e X k log}, Q u (A ++ e :: X) k log → same u e.2 = true →
    spam u e.2 = true → P (A ++ e :: X) k (log ++ [.update u 1])
  refresh : ∀ {u A e X k log}, Q u (A ++ e :: X) k log → same u e.2 = true →
    spam u e.2 = false → (X = [] → tail) →
      P (A ++ (e.1, refresh X.isEmpty u e.2) :: X) k (log ++ [.update u 0])
  full : ∀ {u L k log} j, Q u L k log → (∀ e ∈ L, same u e.2 = false) → sys.malloc j = false →
    P L k (log ++ [.update u 1])
  join : ∀ {u L k log} fresh, Q u L k log → (∀ e ∈ L, same u e.2 = false) →
    P (L ++ [(fresh, u)]) k (log ++ [.update u 0])
  say : ∀ {L k log} u data, P L k log →
    P L k (log ++ L.map fun e => .chat (chatTo u data e.2))

variable {sys} {timeout : ℤ} {tail : Prop} {P : List Entry → ℕ → List Event → Prop}
  {Q : UserData → List Entry → ℕ → List Event → Prop}

lemma Rules.sweep (R : Rules sys timeout tail P Q) {u : UserData} {L L' rest : List Entry}
    {io io' : Io} (hL : ∀ e ∈ L, same u e.2 = false)
    (h : sweep sys.world (timeoutFunc sys) timeout L io = some (L', io'))
    (hQ : Q u (L ++ rest) io.times io.log) : Q u (L' ++ rest) io'.times io'.log := by
  refine sweep_rule (P := fun L (io : Io) => Q u L io.times io.log) (fun L io hQ => R.check hQ) ?_
    [] rest hL h hQ
  intro D e l io io₁ hQ hK hstale hf
  obtain ⟨f, k, -, hspec⟩ := timeoutFunc_spec sys e.2 (sys.world.time io).2
  rw [hspec] at hf
  cases hf
  exact R.kick k hQ hK hstale

lemma Rules.update (R : Rules sys timeout tail P Q) {u : UserData} {fresh : ℕ}
    {L L' : List Entry} {io io' : Io} {r : ℤ}
    (htail : ∀ e, onward u L = [e] → spam u e.2 = false → tail)
    (h : UsersList.update sys.world (timeoutFunc sys) timeout u fresh L io = some (r, L', io'))
    (hQ : Q u L io.times io.log) : P L' io'.times (io'.log ++ [.update u r]) := by
  rcases update_cases h with ⟨e, X, A, hL, hs, hr⟩ | ⟨A, io₁, hL, hs, rfl, hr⟩
  · have hsame := onward_same hL
    rw [← before_append_onward u L, hL] at hQ
    have hQ' := R.sweep (fun e he => before_same he) hs hQ
    rcases hr with ⟨hsp, rfl, rfl⟩ | ⟨hsp, rfl, rfl⟩
    · exact R.reject hQ' hsame hsp
    · refine R.refresh hQ' hsame hsp fun hX => ?_
      subst hX
      exact htail e hL hsp
  · have hne := onward_eq_nil_iff.mp hL
    have hsplit := dropLast_append_last L
    have hlast : ∀ e ∈ L.getLast?.toList, e ∈ L := fun e he => by
      rw [← hsplit]
      exact List.mem_append_right _ he
    have hA : ∀ e ∈ A ++ L.getLast?.toList, same u e.2 = false := by
      intro e he
      rcases List.mem_append.mp he with he | he
      · exact hne e (List.mem_of_mem_dropLast ((sweep_sublist hs).subset he))
      · exact hne e (hlast e he)
    rw [← hsplit] at hQ
    have hQ' := R.sweep (fun e he => hne e (List.mem_of_mem_dropLast he)) hs hQ
    rcases hr with ⟨hm, rfl, rfl⟩ | ⟨hm, rfl, rfl⟩
    · exact R.full io₁.mallocs hQ' hA hm
    · exact R.join fresh hQ' hA

lemma tailAccept_of_onward {input : Input} {s : Server} {L : List Entry} (h : Rep s L)
    {u : UserData} {data : List UInt8} (hu : arrival sys input s.io = some (u, data)) {e : Entry}
    (hL : onward u L = [e]) (hsp : spam u e.2 = false) : tailAccept sys input s = true := by
  have hsplit := before_append_onward u L
  rw [hL] at hsplit
  have hend : s.table.end_ = some e.1 := by rw [h.fin, lst_none, ← hsplit]; simp
  rw [← hsplit] at h
  have hload : s.heap.load s.table.end_ = some ⟨e.2, none, lst none (before u L)⟩ := by
    rw [hend]
    exact h.node
  rw [tailAccept, hu, hload]
  simp [onward_same hL, hsp]

lemma Rules.handled (R : Rules sys timeout tail P Q) {input : Input} {s : Server}
    {L L' : List Entry} {io' : Io} (h : Rep s L) (ht : s.table.timeout = timeout)
    (htail : tailAccept sys input s = true → tail)
    (hh : Handled sys s.table.timeout s.heap.next input L s.io L' io')
    (hP : P L s.io.times s.io.log) : P L' io'.times io'.log := by
  rw [ht] at hh
  cases hh with
  | ignored => exact hP
  | rejected u data L' io₁ hu hup =>
    obtain ⟨name, user, -, -, hc, rfl⟩ := arrival_eq hu
    exact R.update (fun e he hsp => htail (tailAccept_of_onward h hu he hsp)) hup (R.arrive hP hc)
  | accepted u data L' io₁ f hu hup =>
    obtain ⟨name, user, -, -, hc, rfl⟩ := arrival_eq hu
    exact R.say _ data
      (R.update (fun e he hsp => htail (tailAccept_of_onward h hu he hsp)) hup (R.arrive hP hc))

/-- **The call rule**: what the steps of a call preserve, calls of `msg_handle` preserve. -/
theorem Rules.call (R : Rules sys timeout tail P Q) {input : Input} {s : Server}
    {L : List Entry} (h : Rep s L) (ht : s.table.timeout = timeout)
    (htail : tailAccept sys input s = true → tail) (hP : P L s.io.times s.io.log) :
    ∃ s' L', handle sys input s = some s' ∧ Rep s' L' ∧ s'.table.timeout = timeout ∧
      P L' s'.io.times s'.io.log := by
  obtain ⟨s', L', hs', hrep, htime, hh⟩ := msgHandle_spec sys input h
  exact ⟨s', L', by rw [handle, hs', Option.map_some], hrep, htime.trans ht,
    R.handled h ht htail hh hP⟩

/-- **The run rule**: from `started`, through calls that take the tail branch only if `tail`
allows it. -/
theorem Rules.run (R : Rules sys timeout tail P Q) (hP : P [] 0 []) {inputs : List Input}
    (htail : Along (handle sys) (fun s input => tailAccept sys input s = true → tail) inputs
      (started timeout)) :
    ∃ s L, runs (handle sys) inputs (started timeout) = some s ∧ Rep s L ∧
      s.table.timeout = timeout ∧ P L s.io.times s.io.log := by
  obtain ⟨s, hs, L, hrep, ht, hPs⟩ := runs_along
    (fun s => ∃ L, Rep s L ∧ s.table.timeout = timeout ∧ P L s.io.times s.io.log)
    (fun input s ⟨L, hrep, ht, hPs⟩ htl => by
      obtain ⟨s', L', hs', h'⟩ := R.call hrep ht htl hPs
      exact ⟨s', hs', L', h'⟩)
    inputs ⟨[], Holds.empty, rfl, hP⟩ htail
  exact ⟨s, L, hs, hrep, ht, hPs⟩

/-- `Ok` holds of every event at the step that logs it, with the events before it. -/
structure Checks (sys : Sys) (timeout : ℤ) (tail : Prop) (P : List Entry → ℕ → List Event → Prop)
    (Q : UserData → List Entry → ℕ → List Event → Prop) (Ok : List Event → Event → Prop) :
    Prop where
  time : ∀ past t, Ok past (.time t)
  notice : ∀ past send, Ok past (.notice send)
  kick : ∀ {u D e l k log}, Q u (D ++ e :: l) k log → same u e.2 = false →
    e.2.lastMsg + timeout < sys.time k →
      Ok (log ++ [.time (sys.time k)]) (.timeoutFunc e.2)
  reject : ∀ {u A e X k log}, Q u (A ++ e :: X) k log → same u e.2 = true →
    spam u e.2 = true → Ok log (.update u 1)
  refresh : ∀ {u A e X k log}, Q u (A ++ e :: X) k log → same u e.2 = true →
    spam u e.2 = false → (X = [] → tail) → Ok log (.update u 0)
  full : ∀ {u L k log} j, Q u L k log → (∀ e ∈ L, same u e.2 = false) → sys.malloc j = false →
    Ok log (.update u 1)
  join : ∀ {u L k log}, Q u L k log → (∀ e ∈ L, same u e.2 = false) → Ok log (.update u 0)
  say : ∀ {L k log e} u data pre, P L k log → e ∈ L →
    (∀ x ∈ pre, ∃ y : Entry, x = .chat (chatTo u data y.2)) →
      Ok (log ++ pre) (.chat (chatTo u data e.2))

theorem Rules.always (R : Rules sys timeout tail P Q) {Ok : List Event → Event → Prop}
    (C : Checks sys timeout tail P Q Ok) :
    Rules sys timeout tail (fun L k log => P L k log ∧ Always Ok [] log)
      (fun u L k log => Q u L k log ∧ Always Ok [] log) where
  arrive h hc := ⟨R.arrive h.1 hc, always_snoc.mpr ⟨h.2, C.time _ _⟩⟩
  check h := ⟨R.check h.1, always_snoc.mpr ⟨h.2, C.time _ _⟩⟩
  kick := by
    intro u D e l k log n h hs ht
    refine ⟨R.kick n h.1 hs ht, always_append.mpr ⟨?_, always_iff.mpr ?_⟩⟩
    · exact always_snoc.mpr ⟨always_snoc.mpr ⟨h.2, C.time _ _⟩, C.kick h.1 hs ht⟩
    · intro pre x post hl
      have hx : x ∈ List.replicate n (Event.notice (noticeTo e.2)) := by rw [hl]; simp
      rw [(List.mem_replicate.mp hx).2]
      exact C.notice _ _
  reject h hs hsp := ⟨R.reject h.1 hs hsp, always_snoc.mpr ⟨h.2, C.reject h.1 hs hsp⟩⟩
  refresh h hs hsp ht :=
    ⟨R.refresh h.1 hs hsp ht, always_snoc.mpr ⟨h.2, C.refresh h.1 hs hsp ht⟩⟩
  full j h hs hm := ⟨R.full j h.1 hs hm, always_snoc.mpr ⟨h.2, C.full j h.1 hs hm⟩⟩
  join fresh h hs := ⟨R.join fresh h.1 hs, always_snoc.mpr ⟨h.2, C.join h.1 hs⟩⟩
  say := by
    rintro L k log u data ⟨hP, ha⟩
    refine ⟨R.say u data hP, always_append.mpr ⟨ha, always_iff.mpr ?_⟩⟩
    intro pre x post hl
    have hmem : ∀ y ∈ pre ++ x :: post, ∃ e ∈ L, Event.chat (chatTo u data e.2) = y := by
      intro y hy
      rw [← hl] at hy
      exact List.mem_map.mp hy
    obtain ⟨e, he, rfl⟩ := hmem x (by simp)
    refine C.say u data pre hP he fun y hy => ?_
    obtain ⟨e', -, rfl⟩ := hmem y (List.mem_append_left _ hy)
    exact ⟨e', rfl⟩

end Csockets.ServerRules
