import Caprock.Lib.DryRun
import Caprock.Microkit.Installation

/-! # Endowment

`endowment_fits` says beforehand whether a list of capabilities can be installed in a domain, and
how many of the caller's offers will be refused.  It counts the slots that the earlier entries take
instead of taking them.  Where the slots are different places of the run, this is a dry run of the
installation.
-/

namespace Caprock.Microkit

open Cap Mem Execution

def angeboten (angebote slot : Nat) : Bool := decide (slot < 16) && angebote.testBit slot

namespace Caps

variable {g : Caps} {pd : Nat} {endow : List (Nat × CapPtr)}

/-- The loop of `endowment_fits`: refused offers and newly taken slots so far. -/
def endowmentFitsAb (g : Caps) (pd angebote : Nat) :
    Nat → Nat → List (Nat × CapPtr) → Except Nat Nat
  | abgelehnteAngebote, _, [] => .ok abgelehnteAngebote
  | abgelehnteAngebote, neueSlots, (slot, cap) :: rest =>
      if g.pds.cspaceLenVon pd ≤ slot then .error slot
      else
        let istNeu := (g.pds.capAt pd slot).isNone
        let passt := g.capAllowed pd cap &&
          (!istNeu || decide (g.pds.capCount pd + neueSlots < g.pds.budgetOf pd))
        if passt then endowmentFitsAb g pd angebote abgelehnteAngebote (neueSlots + istNeu.toNat) rest
        else if angeboten angebote slot then
          endowmentFitsAb g pd angebote (abgelehnteAngebote + 1) neueSlots rest
        else .error slot

def endowmentFits (g : Caps) (pd : Nat) (endow : List (Nat × CapPtr)) (angebote : Nat) :
    Except Nat Nat :=
  endowmentFitsAb g pd angebote 0 0 endow

def eintragen (pd : Nat) (g : Caps) (e : Nat × CapPtr) : Bool × Caps :=
  g.installCapChecked pd e.1 e.2

def verdikte (g : Caps) (pd : Nat) (endow : List (Nat × CapPtr)) : List ((Nat × CapPtr) × Bool) :=
  DryRun.answered (eintragen pd) g endow

def abgelehntesAngebot (angebote : Nat) (x : (Nat × CapPtr) × Bool) : Bool :=
  !x.2 && angeboten angebote x.1.1

def gebrocheneZusage (angebote : Nat) (x : (Nat × CapPtr) × Bool) : Bool :=
  !x.2 && !angeboten angebote x.1.1

def voraussage (g : Caps) (pd neueSlots : Nat) (e : Nat × CapPtr) : Bool × Nat :=
  let istNeu := (g.pds.capAt pd e.1).isNone
  if g.capAllowed pd e.2 &&
      (!istNeu || decide (g.pds.capCount pd + neueSlots < g.pds.budgetOf pd)) then
    (true, neueSlots + istNeu.toNat)
  else (false, neueSlots)

theorem endowmentFitsAb_eq_dry (angebote : Nat) {endow : List (Nat × CapPtr)}
    (hlauf : ∀ e ∈ endow, e.1 < g.pds.cspaceLenVon pd) (n neueSlots : Nat) :
    endowmentFitsAb g pd angebote n neueSlots endow =
      (DryRun.dry (voraussage g pd) (fun e => angeboten angebote e.1) neueSlots n endow).mapError
        Prod.fst := by
  induction endow generalizing n neueSlots with
  | nil => rfl
  | cons e rest ih =>
    obtain ⟨slot, cap⟩ := e
    have hslot : slot < g.pds.cspaceLenVon pd := hlauf (slot, cap) List.mem_cons_self
    have ih := ih fun e he => hlauf e (List.mem_cons_of_mem _ he)
    rw [DryRun.dry_cons, endowmentFitsAb, if_neg (Nat.not_le.mpr hslot)]
    by_cases hpasst : (g.capAllowed pd cap && (!(g.pds.capAt pd slot).isNone ||
        decide (g.pds.capCount pd + neueSlots < g.pds.budgetOf pd))) = true
    · have hvor : voraussage g pd neueSlots (slot, cap) =
          (true, neueSlots + (g.pds.capAt pd slot).isNone.toNat) := if_pos hpasst
      refine (if_pos hpasst).trans ?_
      rw [hvor, if_pos rfl]
      exact ih _ _
    · have hvor : voraussage g pd neueSlots (slot, cap) = (false, neueSlots) := if_neg hpasst
      refine (if_neg hpasst).trans ?_
      rw [hvor]
      cases hangebot : angeboten angebote slot with
      | true => exact ih _ _
      | false => rfl

/-- The tables `h`, reached by installing a part of an endowment in `g`: `neueSlots` slots of the
domain were taken, and none of the entries still to come. -/
structure Vorlauf (g : Caps) (pd : Nat) (rest : List (Nat × CapPtr)) (h : Caps) (neueSlots : Nat) :
    Prop where
  erlaubt : ∀ cap, h.capAllowed pd cap = g.capAllowed pd cap
  budget : h.pds.budgetOf pd = g.pds.budgetOf pd
  count : h.pds.capCount pd = g.pds.capCount pd + neueSlots
  slots : (rest.map Prod.fst).Nodup
  lauf : ∀ e ∈ rest, (h.pds.platz pd e.1).isSome = true
  inhalt : ∀ e ∈ rest, h.pds.capAt pd e.1 = g.pds.capAt pd e.1

theorem capAllowed_installCap (h : Caps) (pd slot : Nat) (cap q : CapPtr) :
    ({ h with pds := h.pds.installCap pd slot cap } : Caps).capAllowed pd q =
      h.capAllowed pd q := by
  obtain ⟨cell, heq⟩ := h.pds.poolSchreiben_eq pd slot (some cap)
  rw [PdTable.installCap, heq]
  rfl

theorem Vorlauf.eintragen {h : Caps} {neueSlots : Nat} {e : Nat × CapPtr}
    {rest : List (Nat × CapPtr)} (hv : g.Vorlauf pd (e :: rest) h neueSlots) :
    (h.eintragen pd e).1 = (voraussage g pd neueSlots e).1 ∧
      g.Vorlauf pd rest (h.eintragen pd e).2 (voraussage g pd neueSlots e).2 := by
  obtain ⟨slot, cap⟩ := e
  obtain ⟨hneu, hrest⟩ := List.nodup_cons.mp hv.slots
  have hself := hv.inhalt (slot, cap) List.mem_cons_self
  obtain ⟨i, hplatz⟩ := Option.isSome_iff_exists.mp (hv.lauf (slot, cap) List.mem_cons_self)
  have hbudget : h.budgetAllows pd slot = (!(g.pds.capAt pd slot).isNone ||
      decide (g.pds.capCount pd + neueSlots < g.pds.budgetOf pd)) := by
    unfold budgetAllows
    rw [hself, hv.count, hv.budget]
    cases g.pds.capAt pd slot <;> rfl
  unfold Caps.eintragen voraussage
  by_cases hnein : h.Verweigert pd slot cap
  · -- Both refuse, and nothing was taken.
    have hfalsch : ¬ ((g.capAllowed pd cap && (!(g.pds.capAt pd slot).isNone ||
        decide (g.pds.capCount pd + neueSlots < g.pds.budgetOf pd))) = true) := by
      rw [← hbudget, ← hv.erlaubt, Bool.and_eq_true]
      rintro ⟨herlaubt, hpasst⟩
      rcases hnein with hpolicy | hvoll
      · exact absurd (hpolicy.symm.trans herlaubt) (by decide)
      · exact absurd (hvoll.symm.trans hpasst) (by decide)
    rw [if_neg hfalsch, installCapChecked_of_verweigert hnein]
    exact ⟨rfl, ⟨hv.erlaubt, hv.budget, hv.count, hrest,
      fun e he => hv.lauf e (List.mem_cons_of_mem _ he),
      fun e he => hv.inhalt e (List.mem_cons_of_mem _ he)⟩⟩
  · have hwahr : (g.capAllowed pd cap && (!(g.pds.capAt pd slot).isNone ||
        decide (g.pds.capCount pd + neueSlots < g.pds.budgetOf pd))) = true := by
      rw [← hbudget, ← hv.erlaubt, Bool.and_eq_true]
      constructor
      · by_contra hnot
        exact hnein (.inl (by simpa using hnot))
      · by_contra hnot
        exact hnein (.inr (by simpa using hnot))
    rw [if_pos hwahr, installCapChecked_of_not_verweigert hnein]
    refine ⟨rfl, ⟨fun q => ?_, ?_, ?_, hrest, fun e he => ?_, fun e he => ?_⟩⟩
    · exact (capAllowed_installCap h pd slot cap q).trans (hv.erlaubt q)
    · exact (PdTable.budgetOf_installCap h.pds pd slot cap pd).trans hv.budget
    · have hcount := PdTable.capCount_installCap hplatz cap
      rw [hself, hv.count] at hcount
      cases hcap : g.pds.capAt pd slot with
      | none =>
        simp only [hcap, Option.isSome_none, Bool.toNat_false] at hcount
        simp only [Option.isNone_none, Bool.toNat_true]
        omega
      | some c =>
        simp only [hcap, Option.isSome_some, Bool.toNat_true] at hcount
        simp only [Option.isNone_some, Bool.toNat_false]
        omega
    · dsimp only
      rw [PdTable.installCap, PdTable.poolSchreiben_of_platz hplatz, PdTable.platz_congr rfl rfl]
      exact hv.lauf e (List.mem_cons_of_mem _ he)
    · have hne : e.1 ≠ slot := fun heq => hneu (List.mem_map.mpr ⟨e, he, heq⟩)
      rw [PdTable.installCap, PdTable.capAt_poolSchreiben_of_platz hplatz,
        if_neg fun hp => hne (PdTable.platz_inj hp hplatz)]
      exact hv.inhalt e (List.mem_cons_of_mem _ he)

theorem verdikte_eq (hslots : (endow.map Prod.fst).Nodup)
    (hlauf : ∀ e ∈ endow, (g.pds.platz pd e.1).isSome = true) :
    g.verdikte pd endow = DryRun.answered (voraussage g pd) 0 endow :=
  DryRun.answered_eq_of_simulation (R := fun rest h neueSlots => g.Vorlauf pd rest h neueSlots)
    (fun _ _ _ _ hv => hv.eintragen) ⟨fun _ => rfl, rfl, rfl, hslots, hlauf, fun _ _ => rfl⟩

/-- For different slots of the run, `endowment_fits` answers what the installation in order does:
`Ok(n)` if it refuses no promise and `n` offers, `Err(slot)` if the first promise it refuses is the
one for `slot`. -/
theorem endowmentFits_iff (g : Caps) (pd : Nat) (endow : List (Nat × CapPtr)) (angebote : Nat)
    (hslots : (endow.map Prod.fst).Nodup)
    (hlauf : ∀ e ∈ endow, (g.pds.platz pd e.1).isSome = true) :
    (∀ n, g.endowmentFits pd endow angebote = .ok n ↔
      (∀ x ∈ g.verdikte pd endow, gebrocheneZusage angebote x = false) ∧
        (g.verdikte pd endow).countP (abgelehntesAngebot angebote) = n) ∧
    ∀ slot, g.endowmentFits pd endow angebote = .error slot ↔
      ((g.verdikte pd endow).find? (gebrocheneZusage angebote)).map (fun x => x.1.1) =
        some slot := by
  have hlen : ∀ e ∈ endow, e.1 < g.pds.cspaceLenVon pd := by
    intro e he
    obtain ⟨i, hi⟩ := Option.isSome_iff_exists.mp (hlauf e he)
    exact PdTable.lt_of_platz hi
  rw [verdikte_eq hslots hlauf, endowmentFits, endowmentFitsAb_eq_dry angebote hlen]
  constructor
  · intro n
    have hiff := DryRun.dry_eq_ok_iff (voraussage g pd) (fun e => angeboten angebote e.1) 0 0 n endow
    rw [Nat.zero_add] at hiff
    refine Iff.trans ?_ hiff
    cases DryRun.dry (voraussage g pd) (fun e => angeboten angebote e.1) 0 0 endow with
    | ok m => simp [Except.mapError]
    | error e => simp [Except.mapError]
  · intro slot
    have hiff := DryRun.dry_eq_error_iff (voraussage g pd) (fun e => angeboten angebote e.1) 0 0 endow
    have hfind : ((DryRun.answered (voraussage g pd) 0 endow).find?
        (gebrocheneZusage angebote)).map (fun x => x.1.1) =
        (((DryRun.answered (voraussage g pd) 0 endow).find?
          (DryRun.broken fun e => angeboten angebote e.1)).map Prod.fst).map Prod.fst := by
      rw [Option.map_map]
      rfl
    rw [hfind, Option.map_eq_some_iff]
    cases hdry : DryRun.dry (voraussage g pd) (fun e => angeboten angebote e.1) 0 0 endow with
    | ok m =>
        refine iff_of_false (by simp [Except.mapError]) ?_
        rintro ⟨a, ha, -⟩
        have herr := (hiff a).mpr ha
        rw [hdry] at herr
        cases herr
    | error e =>
        have he := (hiff e).mp hdry
        rw [he]
        simp [Except.mapError]

/-- A domain of two places and a budget of one: the promise for slot 0 fits, the offer for slot 1
does not. -/
theorem endowmentFits_iff_one_of_two :
    ∃ t, run PdTable.step (PdTable.attached 1 64) [.create .trustedSas 1 2] = some t ∧
      (einePd t).endowmentFits 0 [(0, ⟨0, 0⟩), (1, ⟨0, 0⟩)] 2 = .ok 1 ∧
      ((einePd t).verdikte 0 [(0, ⟨0, 0⟩), (1, ⟨0, 0⟩)]).countP (abgelehntesAngebot 2) = 1 := by
  refine ⟨_, rfl, by decide, ?_⟩
  have hiff := endowmentFits_iff (einePd ((run PdTable.step (PdTable.attached 1 64)
    [.create .trustedSas 1 2]).get rfl)) 0 [(0, ⟨0, 0⟩), (1, ⟨0, 0⟩)] 2 (by decide)
    (by decide)
  exact ((hiff.1 1).mp (by decide)).2

end Caps

end Caprock.Microkit
