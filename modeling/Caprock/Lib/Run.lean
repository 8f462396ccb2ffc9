import Mathlib.Data.List.Basic

/-! # Runs of a guarded partial transition function

A system is a function `step : σ → ι → Option σ`; `none` is an operation that
aborts.  `run` executes a list of operations, `Admissible` says that each of
them was taken in a state meeting a guard.  The rules at the end carry an
invariant from one step to whole runs, show that guarded runs never abort, and
turn "the guard is exactly what the property needs" into an equivalence over
every prefix of a run.  `Stays` and `Leads` say what guarded runs from a state
keep and what they can reach; with them the equivalence holds as well where an
unguarded step breaks the property only later.
-/

namespace Execution

variable {σ ι : Type*}

def run (step : σ → ι → Option σ) : σ → List ι → Option σ
  | s, [] => some s
  | s, op :: ops => (step s op).bind fun s' => run step s' ops

/-- Every operation of the run is taken in a state that meets the guard. -/
def Admissible (step : σ → ι → Option σ) (ok : σ → ι → Prop) : σ → List ι → Prop
  | _, [] => True
  | s, op :: ops => ok s op ∧ ∀ s', step s op = some s' → Admissible step ok s' ops

section

variable {step : σ → ι → Option σ} {ok : σ → ι → Prop}

@[simp] theorem run_nil (s : σ) : run step s [] = some s := rfl

/-- An operation that does nothing outside its guard. -/
theorem guarded_step {c : Prop} [Decidable c] {P : σ → Prop} {s s' : σ} (h : c → P s')
    (hs : P s) : ∃ t, (if c then some s' else some s) = some t ∧ P t := by
  split
  · next hc => exact ⟨s', rfl, h hc⟩
  · exact ⟨s, rfl, hs⟩

/-- An operation that is possible inside its guard only. -/
theorem of_guarded {c : Prop} [Decidable c] {s t : σ}
    (h : (if c then some s else none) = some t) : c ∧ s = t := by
  simpa only [Option.ite_none_right_eq_some, Option.some.injEq] using h

theorem run_cons_eq_some {s t : σ} {op : ι} {ops : List ι} :
    run step s (op :: ops) = some t ↔ ∃ s', step s op = some s' ∧ run step s' ops = some t := by
  simp [run, Option.bind_eq_some_iff]

theorem run_cons_of_step {s s' : σ} {op : ι} (h : step s op = some s') (ops : List ι) :
    run step s (op :: ops) = run step s' ops := by
  simp [run, h]

theorem Admissible.cons_iff {s : σ} {op : ι} {ops : List ι} :
    Admissible step ok s (op :: ops) ↔
      ok s op ∧ ∀ s', step s op = some s' → Admissible step ok s' ops :=
  Iff.rfl

theorem Admissible.cons_of_step {s s' : σ} {op : ι} {ops : List ι} (hok : ok s op)
    (hstep : step s op = some s') (h : Admissible step ok s' ops) :
    Admissible step ok s (op :: ops) := by
  refine ⟨hok, fun t ht => ?_⟩
  cases (hstep.symm.trans ht)
  exact h

/-- Admissibility is checked by executing the run. -/
instance Admissible.decidable [∀ s op, Decidable (ok s op)] :
    ∀ (s : σ) (ops : List ι), Decidable (Admissible step ok s ops)
  | _, [] => isTrue trivial
  | s, op :: ops =>
      match h : step s op with
      | none => decidable_of_iff (ok s op) (by simp [Admissible.cons_iff, h])
      | some s' =>
          have := Admissible.decidable s' ops
          decidable_of_iff (ok s op ∧ Admissible step ok s' ops) (by simp [Admissible.cons_iff, h])

theorem Admissible.of_forall (h : ∀ s op, ok s op) (s : σ) (ops : List ι) :
    Admissible step ok s ops := by
  induction ops generalizing s with
  | nil => trivial
  | cons op ops ih => exact ⟨h s op, fun s' _ => ih s'⟩

theorem Admissible.mono {ok' : σ → ι → Prop} (h : ∀ s op, ok s op → ok' s op) {s : σ}
    {ops : List ι} (hops : Admissible step ok s ops) : Admissible step ok' s ops := by
  induction ops generalizing s with
  | nil => trivial
  | cons op ops ih => exact ⟨h s op hops.1, fun s' hs' => ih (hops.2 s' hs')⟩

theorem run_append (s : σ) (xs ys : List ι) :
    run step s (xs ++ ys) = (run step s xs).bind fun t => run step t ys := by
  induction xs generalizing s with
  | nil => rfl
  | cons op xs ih =>
    cases h : step s op with
    | none => simp [run, h]
    | some s' => simp [run, h, ih]

theorem run_invariant {Inv : σ → Prop}
    (hstep : ∀ s op s', Inv s → ok s op → step s op = some s' → Inv s')
    {s t : σ} {ops : List ι} (hs : Inv s) (hops : Admissible step ok s ops)
    (h : run step s ops = some t) : Inv t := by
  induction ops generalizing s with
  | nil =>
    obtain rfl : s = t := by simpa using h
    exact hs
  | cons op ops ih =>
    obtain ⟨s', hs', hrest⟩ := run_cons_eq_some.mp h
    exact ih (hstep s op s' hs hops.1 hs') (hops.2 s' hs') hrest

theorem run_invariant_of_step {Inv : σ → Prop}
    (hstep : ∀ s op s', Inv s → step s op = some s' → Inv s')
    {s t : σ} {ops : List ι} (hs : Inv s) (h : run step s ops = some t) : Inv t := by
  have hops : Admissible step (fun _ _ => True) s ops := Admissible.of_forall (fun _ _ => trivial) s ops
  exact run_invariant (fun s op s' hi _ hs' => hstep s op s' hi hs') hs hops h

/-- A loop over the indices below `n`: the invariant may say how far it has come. -/
theorem run_range_invariant {f : σ → Nat → Option σ} {Inv : Nat → σ → Prop}
    (hstep : ∀ k s s', Inv k s → f s k = some s' → Inv (k + 1) s')
    {s t : σ} {n : Nat} (hs : Inv 0 s) (h : run f s (List.range n) = some t) : Inv n t := by
  induction n generalizing t with
  | zero =>
    obtain rfl : s = t := by simpa using h
    exact hs
  | succ n ih =>
    rw [List.range_succ, run_append] at h
    obtain ⟨u, hu, hlast⟩ := Option.bind_eq_some_iff.mp h
    obtain ⟨t', ht', hnil⟩ := run_cons_eq_some.mp hlast
    obtain rfl : t' = t := by simpa using hnil
    exact hstep n u t' (ih hu) ht'

theorem run_total {Inv : σ → Prop}
    (hstep : ∀ s op, Inv s → ok s op → ∃ s', step s op = some s' ∧ Inv s')
    {s : σ} {ops : List ι} (hs : Inv s) (hops : Admissible step ok s ops) :
    ∃ t, run step s ops = some t ∧ Inv t := by
  induction ops generalizing s with
  | nil => exact ⟨s, rfl, hs⟩
  | cons op ops ih =>
    obtain ⟨s', hs', hinv⟩ := hstep s op hs hops.1
    obtain ⟨t, ht, htinv⟩ := ih hinv (hops.2 s' hs')
    exact ⟨t, by rw [run_cons_of_step hs', ht], htinv⟩

theorem Admissible.of_prefix {s : σ} {xs ops : List ι} (hpre : xs <+: ops)
    (h : Admissible step ok s ops) : Admissible step ok s xs := by
  induction xs generalizing s ops with
  | nil => trivial
  | cons op xs ih =>
    obtain ⟨rest, rfl⟩ := hpre
    exact ⟨h.1, fun s' hs' => ih ⟨rest, rfl⟩ (h.2 s' hs')⟩

theorem Admissible.append {s : σ} {xs ys : List ι} (hxs : Admissible step ok s xs)
    (hys : ∀ t, run step s xs = some t → Admissible step ok t ys) :
    Admissible step ok s (xs ++ ys) := by
  induction xs generalizing s with
  | nil => exact hys s rfl
  | cons op xs ih =>
    refine ⟨hxs.1, fun s' hs' => ih (hxs.2 s' hs') fun t ht => hys t ?_⟩
    rw [run_cons_of_step hs', ht]

/-- A guard holds throughout a run iff it holds at every operation the run reaches. -/
theorem admissible_iff_forall_reached {s : σ} {ops : List ι} :
    Admissible step ok s ops ↔
      ∀ xs op t, xs ++ [op] <+: ops → run step s xs = some t → ok t op := by
  induction ops generalizing s with
  | nil =>
    refine ⟨fun _ xs op t hpre => ?_, fun _ => trivial⟩
    have hlen := hpre.length_le
    simp at hlen
  | cons op₀ ops ih =>
    rw [Admissible.cons_iff]
    constructor
    · rintro ⟨hok, hrest⟩ xs op t hpre hrun
      cases xs with
      | nil =>
        obtain rfl : s = t := by simpa using hrun
        obtain ⟨rfl, -⟩ := List.cons_prefix_cons.mp hpre
        exact hok
      | cons x xs =>
        obtain ⟨rfl, hpre'⟩ := List.cons_prefix_cons.mp hpre
        obtain ⟨s', hs', hrun⟩ := run_cons_eq_some.mp hrun
        exact ih.mp (hrest s' hs') xs op t hpre' hrun
    · intro h
      refine ⟨h [] op₀ s (List.cons_prefix_cons.mpr ⟨rfl, List.nil_prefix⟩) rfl, ?_⟩
      intro s' hs'
      rw [ih]
      intro xs op t hpre hrun
      exact h (op₀ :: xs) op t (List.cons_prefix_cons.mpr ⟨rfl, hpre⟩)
        (by rw [run_cons_of_step hs', hrun])

/-- The property holds after every prefix of a finished run exactly if the run is admissible,
when guarded steps keep the invariant and an unguarded step breaks the property at once. -/
theorem forall_reached_iff_admissible {Inv P : σ → Prop}
    (hP : ∀ s, Inv s → P s)
    (hstep : ∀ s op s', Inv s → ok s op → step s op = some s' → Inv s')
    (hbad : ∀ s op s', Inv s → ¬ ok s op → step s op = some s' → ¬ P s')
    {s t : σ} {ops : List ι} (hs : Inv s) (hrun : run step s ops = some t) :
    (∀ xs u, xs <+: ops → run step s xs = some u → P u) ↔ Admissible step ok s ops := by
  constructor
  · intro h
    induction ops generalizing s with
    | nil => trivial
    | cons op ops ih =>
      obtain ⟨s', hs', hrest⟩ := run_cons_eq_some.mp hrun
      have hok : ok s op := by
        by_contra hnot
        exact hbad s op s' hs hnot hs' (h [op] s' ⟨ops, rfl⟩ (run_cons_of_step hs' []))
      refine ⟨hok, fun s₁ hs₁ => ?_⟩
      obtain rfl : s' = s₁ := Option.some.inj (hs'.symm.trans hs₁)
      refine ih (hstep s op s' hs hok hs') hrest fun xs u hxs hu => ?_
      exact h (op :: xs) u (List.cons_prefix_cons.mpr ⟨rfl, hxs⟩)
        ((run_cons_of_step hs' xs).trans hu)
  · intro h xs u hxs hu
    exact hP u (run_invariant hstep hs (h.of_prefix hxs) hu)

/-- If the invariant gives the property, guarded steps keep the invariant and an
unguarded step breaks the property at once, then the property holds after every
prefix of a run exactly when the run is admissible. -/
theorem forall_prefix_iff_admissible {Inv P : σ → Prop}
    (hP : ∀ s, Inv s → P s)
    (hstep : ∀ s op, Inv s → ok s op → ∃ s', step s op = some s' ∧ Inv s')
    (hbad : ∀ s op, Inv s → ¬ ok s op → ∃ s', step s op = some s' ∧ ¬ P s')
    {s : σ} (hs : Inv s) (ops : List ι) :
    (∀ xs, xs <+: ops → ∃ t, run step s xs = some t ∧ P t) ↔ Admissible step ok s ops := by
  constructor
  · intro h
    induction ops generalizing s with
    | nil => trivial
    | cons op ops ih =>
      -- The first operation alone already decides its guard.
      have hok : ok s op := by
        by_contra hnot
        obtain ⟨s', hs', hbroken⟩ := hbad s op hs hnot
        obtain ⟨t, ht, hPt⟩ := h [op] ⟨ops, rfl⟩
        rw [run_cons_of_step hs'] at ht
        obtain rfl : s' = t := by simpa using ht
        exact hbroken hPt
      obtain ⟨s', hs', hinv⟩ := hstep s op hs hok
      refine ⟨hok, fun s₁ hs₁ => ?_⟩
      obtain rfl : s' = s₁ := Option.some.inj (hs'.symm.trans hs₁)
      refine ih hinv fun xs hxs => ?_
      obtain ⟨t, ht, hPt⟩ := h (op :: xs) (List.cons_prefix_cons.mpr ⟨rfl, hxs⟩)
      exact ⟨t, by rwa [run_cons_of_step hs'] at ht, hPt⟩
  · intro h xs hxs
    obtain ⟨t, ht, hinv⟩ := run_total hstep hs (h.of_prefix hxs)
    exact ⟨t, ht, hP t hinv⟩

theorem forall_prefix_call_iff_admissible {Inv P : σ → Prop} {Q : σ → ι → Prop}
    (hP : ∀ s, Inv s → P s)
    (hstep : ∀ s op, Inv s → ok s op → ∃ s', step s op = some s' ∧ Inv s')
    (hQ : ∀ s op, Inv s → (Q s op ↔ ok s op)) {s : σ} (hs : Inv s) (ops : List ι) :
    (∀ xs, xs <+: ops → ∃ t, run step s xs = some t ∧ P t ∧
        ∀ op, xs ++ [op] <+: ops → Q t op) ↔ Admissible step ok s ops := by
  constructor
  · intro h
    induction ops generalizing s with
    | nil => trivial
    | cons op ops ih =>
      obtain ⟨t, ht, -, hcall⟩ := h [] List.nil_prefix
      obtain rfl : s = t := by simpa using ht
      have hok : ok s op := (hQ s op hs).mp (hcall op ⟨ops, rfl⟩)
      obtain ⟨s', hs', hinv⟩ := hstep s op hs hok
      refine ⟨hok, fun s₁ hs₁ => ?_⟩
      obtain rfl : s' = s₁ := Option.some.inj (hs'.symm.trans hs₁)
      refine ih hinv fun xs hxs => ?_
      obtain ⟨t, ht, hPt, hnext⟩ := h (op :: xs) (List.cons_prefix_cons.mpr ⟨rfl, hxs⟩)
      rw [run_cons_of_step hs'] at ht
      exact ⟨t, ht, hPt, fun y hy => hnext y (List.cons_prefix_cons.mpr ⟨rfl, hy⟩)⟩
  · intro h xs hxs
    obtain ⟨t, ht, hinv⟩ := run_total hstep hs (h.of_prefix hxs)
    refine ⟨t, ht, hP t hinv, fun op hop => (hQ t op hinv).mpr ?_⟩
    exact admissible_iff_forall_reached.mp h xs op t hop ht

end

/-- No guarded run from `s` aborts, and `P` holds after each of them. -/
def Stays (step : σ → ι → Option σ) (ok : σ → ι → Prop) (P : σ → Prop) (s : σ) : Prop :=
  ∀ ops, Admissible step ok s ops → ∃ t, run step s ops = some t ∧ P t

/-- Some guarded run from `s` ends with `P`. -/
def Leads (step : σ → ι → Option σ) (ok : σ → ι → Prop) (P : σ → Prop) (s : σ) : Prop :=
  ∃ ops t, Admissible step ok s ops ∧ run step s ops = some t ∧ P t

section

variable {step : σ → ι → Option σ} {ok : σ → ι → Prop} {P Q : σ → Prop} {s : σ}

theorem Leads.here (h : P s) : Leads step ok P s := ⟨[], s, trivial, rfl, h⟩

theorem Leads.of_step {s' : σ} (op : ι) (hok : ok s op) (hstep : step s op = some s')
    (h : Leads step ok P s') : Leads step ok P s := by
  obtain ⟨ops, t, hops, hrun, ht⟩ := h
  exact ⟨op :: ops, t, hops.cons_of_step hok hstep, (run_cons_of_step hstep ops).trans hrun, ht⟩

theorem Leads.trans (h : Leads step ok Q s) (hQ : ∀ t, Q t → Leads step ok P t) :
    Leads step ok P s := by
  obtain ⟨xs, t, hxs, hrun, ht⟩ := h
  obtain ⟨ys, u, hys, hrun', hu⟩ := hQ t ht
  refine ⟨xs ++ ys, u, hxs.append fun t' ht' => ?_, ?_, hu⟩
  · cases hrun.symm.trans ht'
    exact hys
  · rw [run_append, hrun, Option.bind_some, hrun']

/-- A measure that every stage of the way brings down ends the way. -/
theorem Leads.of_variant {m : σ → Nat} (hend : ∀ s, Q s → m s = 0 → Leads step ok P s)
    (hless : ∀ s, Q s → m s ≠ 0 → Leads step ok (fun t => Q t ∧ m t < m s) s) (hs : Q s) :
    Leads step ok P s := by
  induction hm : m s using Nat.strongRecOn generalizing s with
  | ind n ih =>
    by_cases hzero : m s = 0
    · exact hend s hs hzero
    · refine (hless s hs hzero).trans fun t ht => ?_
      exact ih (m t) (hm ▸ ht.2) ht.1 rfl

theorem not_stays_of_leads (h : Leads step ok (fun t => ¬ P t) s) : ¬ Stays step ok P s := by
  intro hstays
  obtain ⟨ops, t, hops, hrun, ht⟩ := h
  obtain ⟨u, hrun', hu⟩ := hstays ops hops
  cases hrun.symm.trans hrun'
  exact ht hu

/-- As `forall_prefix_iff_admissible`, where an unguarded step need not break the property at
once: it is enough that it goes to a state from which guarded steps alone can break it. -/
theorem forall_prefix_stays_iff_admissible {Inv Bad : σ → Prop} (hP : ∀ s, Inv s → P s)
    (hstep : ∀ s op, Inv s → ok s op → ∃ s', step s op = some s' ∧ Inv s')
    (hbad : ∀ s op, ¬ ok s op → ∃ s', step s op = some s' ∧ Bad s')
    (hleads : ∀ s, Bad s → Leads step ok (fun t => ¬ P t) s) (hs : Inv s) (ops : List ι) :
    (∀ xs, xs <+: ops → ∃ t, run step s xs = some t ∧ Stays step ok P t) ↔
      Admissible step ok s ops := by
  refine forall_prefix_iff_admissible (fun t ht ys hys => ?_) hstep (fun t op _ hnot => ?_) hs ops
  · obtain ⟨u, hrun, hu⟩ := run_total hstep ht hys
    exact ⟨u, hrun, hP u hu⟩
  · obtain ⟨t', ht', hbroken⟩ := hbad t op hnot
    exact ⟨t', ht', not_stays_of_leads (hleads t' hbroken)⟩

end

end Execution
