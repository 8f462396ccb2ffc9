import Mathlib.Algebra.Group.Nat.Defs
import Mathlib.Data.List.Basic

/-! # Granting runs of cspace places

A protection domain holds its capabilities in a contiguous run of the cspace
pool.  `Vergabe` is the book-keeping of that pool: `bump` is the first place
never granted, `kopf` the head of a chain of returned runs.  The chain is
threaded through an `AnkerAblage`, a store with one anchor per table entry, which
the table of protection domains implements on its own entries.

Chain links are index plus one, `0` ends the chain, as in the source.
-/

namespace Caprock.Microkit

def standardPlaetze : Nat := 16

/-- The named refusals of a creation. -/
inductive CspaceAbweisung where
  | deckelUeberschritten (verlangt deckel : Nat)
  | budgetPasstNicht (budget plaetze : Nat)
  | vorratErschoepft (verlangt vorrat : Nat)
  | keinePdFrei
  | poolErschoepft (verlangt frei : Nat)
  deriving DecidableEq, Repr

/-- A resolved request: budget and places. -/
structure Anforderung where
  budget : Nat
  plaetze : Nat
  deriving DecidableEq, Repr

/-- Resolve a raw wish: `0` stands for the default, the policy bound is checked
before the structural one. -/
def anforderungAufloesen (budgetRoh plaetzeRoh deckel standardBudget : Nat) :
    Except CspaceAbweisung Anforderung :=
  let budget := if budgetRoh = 0 then standardBudget else budgetRoh
  let plaetze := if plaetzeRoh = 0 then standardPlaetze else plaetzeRoh
  if deckel < budget then
    .error (.deckelUeberschritten budget deckel)
  else if plaetze < budget then
    .error (.budgetPasstNicht budget plaetze)
  else
    .ok ⟨budget, plaetze⟩

theorem anforderungAufloesen_ok {budgetRoh plaetzeRoh deckel standardBudget : Nat}
    {anf : Anforderung}
    (h : anforderungAufloesen budgetRoh plaetzeRoh deckel standardBudget = .ok anf) :
    anf.budget = (if budgetRoh = 0 then standardBudget else budgetRoh) ∧
      anf.budget ≤ deckel ∧ anf.budget ≤ anf.plaetze := by
  unfold anforderungAufloesen at h
  generalize (if budgetRoh = 0 then standardBudget else budgetRoh) = budget at h ⊢
  generalize (if plaetzeRoh = 0 then standardPlaetze else plaetzeRoh) = plaetze at h
  by_cases hdeckel : deckel < budget
  · simp [hdeckel] at h
  · by_cases hplatz : plaetze < budget
    · simp [hdeckel, hplatz] at h
    · simp only [hdeckel, hplatz, if_false] at h
      cases h
      exact ⟨rfl, Nat.le_of_not_lt hdeckel, Nat.le_of_not_lt hplatz⟩

theorem anforderungAufloesen_plaetze_pos {budgetRoh plaetzeRoh deckel standardBudget : Nat}
    {anf : Anforderung} (hstd : 0 < standardBudget)
    (h : anforderungAufloesen budgetRoh plaetzeRoh deckel standardBudget = .ok anf) :
    0 < anf.plaetze := by
  obtain ⟨hb, -, hle⟩ := anforderungAufloesen_ok h
  split at hb <;> omega

/-- A run of pool places, with the chain link that is meaningful while it is free. -/
structure CspaceAnker where
  start : Nat
  len : Nat
  naechster : Nat
  deriving DecidableEq, Repr

/-- The store of anchors.  `lese` outside the store panics (`none`). -/
class AnkerAblage (β : Type) where
  anzahl : β → Nat
  lese : β → Nat → Option CspaceAnker
  schreibe : β → Nat → CspaceAnker → β

/-- Bump pointer and head of the free chain. -/
structure Vergabe where
  bump : Nat
  kopf : Nat
  deriving DecidableEq, Repr

namespace Vergabe

def neu : Vergabe := ⟨0, 0⟩

section

variable {β : Type} [AnkerAblage β]

/-- First fit over the free chain: the link before the hit, the hit and its
anchor, or `none` inside when the chain ends.  The loop writes nothing, so a chain
that is still going after `anzahl` links is cyclic and the source never leaves
it; running out of fuel stands for that, and like a read outside the store it is
the outer `none`. -/
def ersterTreffer (ablage : β) (n : Nat) :
    Nat → Nat → Nat → Option (Option (Nat × Nat × CspaceAnker))
  | 0, _, i => if i = 0 then some none else none
  | fuel + 1, vorgaenger, i =>
      if i = 0 then some none
      else
        match AnkerAblage.lese ablage (i - 1) with
        | none => none
        | some a =>
            if n ≤ a.len then some (some (vorgaenger, i, a))
            else ersterTreffer ablage n fuel i a.naechster

def aushaken (v : Vergabe) (ablage : β) (vorgaenger i : Nat) (a : CspaceAnker) :
    Option (Vergabe × β) :=
  if vorgaenger = 0 then
    some ({ v with kopf := a.naechster },
      AnkerAblage.schreibe ablage (i - 1) { a with naechster := 0 })
  else
    match AnkerAblage.lese ablage (vorgaenger - 1) with
    | none => none
    | some p =>
        let ablage := AnkerAblage.schreibe ablage (vorgaenger - 1) { p with naechster := a.naechster }
        some (v, AnkerAblage.schreibe ablage (i - 1) { a with naechster := 0 })

/-- A fresh run behind the bump pointer; the addition is checked at 32 bits. -/
def frisch (v : Vergabe) (poolLen n : Nat) : Except CspaceAbweisung (Nat × Nat) × Vergabe :=
  if 2 ^ 32 ≤ v.bump + n ∨ poolLen < v.bump + n then
    (.error (.poolErschoepft n (poolLen - v.bump)), v)
  else
    (.ok (v.bump, n), { v with bump := v.bump + n })

/-- Grant a run of `n` places: a returned run as a whole if one is long enough,
else a fresh one.  The outer `none` is a panic or a walk that never ends. -/
def belegen (v : Vergabe) (ablage : β) (poolLen n : Nat) :
    Option (Except CspaceAbweisung (Nat × Nat) × Vergabe × β) :=
  if n = 0 then some (.ok (v.bump, 0), v, ablage)
  else
    match ersterTreffer ablage n (AnkerAblage.anzahl ablage + 1) 0 v.kopf with
    | none => none
    | some (some (vorgaenger, i, a)) =>
        (aushaken v ablage vorgaenger i a).map fun r => (.ok (a.start, a.len), r.1, r.2)
    | some none => let r := frisch v poolLen n; some (r.1, r.2, ablage)

/-- Put the run described by anchor `idx` at the head of the free chain. -/
def freigeben (v : Vergabe) (ablage : β) (idx : Nat) : Option (Vergabe × β) :=
  (AnkerAblage.lese ablage idx).map fun a =>
    ({ v with kopf := (idx % 2 ^ 32 + 1) % 2 ^ 32 },
      AnkerAblage.schreibe ablage idx { a with naechster := v.kopf })

end

section

variable {β : Type} [AnkerAblage β]

theorem frisch_cases (v : Vergabe) (poolLen n : Nat) :
    (2 ^ 32 ≤ v.bump + n ∨ poolLen < v.bump + n) ∧
        frisch v poolLen n = (.error (.poolErschoepft n (poolLen - v.bump)), v) ∨
      v.bump + n < 2 ^ 32 ∧ v.bump + n ≤ poolLen ∧
        frisch v poolLen n = (.ok (v.bump, n), { v with bump := v.bump + n }) := by
  by_cases h : 2 ^ 32 ≤ v.bump + n ∨ poolLen < v.bump + n
  · exact .inl ⟨h, by simp only [frisch, if_pos h]⟩
  · exact .inr ⟨by omega, by omega, by simp only [frisch, if_neg h]⟩

/-- If the head is absent, or its run is too short and it ends the chain, the
grant is served from fresh places and no anchor is touched. -/
theorem belegen_eq_frisch (v : Vergabe) (ablage : β) (poolLen n : Nat) (hn : 0 < n)
    (hkopf : v.kopf = 0 ∨
      ∃ a, AnkerAblage.lese ablage (v.kopf - 1) = some a ∧ a.len < n ∧ a.naechster = 0) :
    belegen v ablage poolLen n =
      some ((frisch v poolLen n).1, (frisch v poolLen n).2, ablage) := by
  have hn0 : n ≠ 0 := by omega
  rcases hkopf with hzero | ⟨a, ha, hlen, hnext⟩
  · simp [belegen, hn0, hzero, ersterTreffer]
  · have hlen' : ¬ n ≤ a.len := by omega
    by_cases hzero : v.kopf = 0
    · simp [belegen, hn0, hzero, ersterTreffer]
    · cases hanz : AnkerAblage.anzahl ablage <;>
        simp [belegen, hn0, ersterTreffer, hzero, ha, hlen', hnext, hanz]

theorem belegen_eq_kopf (v : Vergabe) (ablage : β) (poolLen n : Nat) (hn : 0 < n)
    {a : CspaceAnker} (hzero : v.kopf ≠ 0)
    (ha : AnkerAblage.lese ablage (v.kopf - 1) = some a) (hlen : n ≤ a.len) :
    belegen v ablage poolLen n =
      some (.ok (a.start, a.len), { v with kopf := a.naechster },
        AnkerAblage.schreibe ablage (v.kopf - 1) { a with naechster := 0 }) := by
  have hn0 : n ≠ 0 := by omega
  simp [belegen, hn0, ersterTreffer, hzero, ha, hlen, aushaken]

end

end Vergabe

end Caprock.Microkit
