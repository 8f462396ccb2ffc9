import Caprock.Microkit.Caps

/-! # Handing a capability over in a reply

A server that replies with `GRANT_FLAG` derives a copy of one of its capabilities and puts
it into the receive slot of the waiting caller.  What stood there is displaced and
deleted afterwards, when no lock is held.

The deletion can fail and its result is dropped, and a receive slot outside the
receiver's cspace takes nothing.
-/

namespace Caprock.Microkit

open Cap Mem

/-- `grant_cap`: the displaced capability, if any. -/
def Caps.grantCap (g : Caps) (caller : ThreadId) (serverPd grantSlot : Nat) :
    Option CapPtr × Caps :=
  match g.pds.capAt serverPd grantSlot with
  | none => (none, g)
  | some src =>
      match g.pdOf caller with
      | none => (none, g)
      | some cpd =>
          if g.capAllowed cpd src = false then (none, g)
          else
            let recvSlot := g.pds.recvSlotOf cpd
            if g.budgetAllows cpd recvSlot = false then (none, g)
            else
              match g.cspace.copy src Rights.rwx with
              | (.error _, cspace) => (none, { g with cspace := cspace })
              | (.ok newCap, cspace) =>
                  (g.pds.capAt cpd recvSlot,
                    { g with cspace := cspace, pds := g.pds.installCap cpd recvSlot newCap })

namespace CapKern

/-- Delete the displaced capability; the result is dropped. -/
def verdraengtesLoeschen (k : CapKern) (rf : Finalized) : Option CapPtr → CapKern
  | none => k
  | some old => (k.deleteCap rf old).2

/-- The transfer of a reply with `GRANT_FLAG`: the grant, if somebody waits, and the deletion
of what it displaced. -/
def transfer (k : CapKern) (caller : Option ThreadId) (serverPd grantSlot : Nat) (rf : Finalized) :
    CapKern :=
  match caller with
  | none => k
  | some c =>
      let r := k.caps.grantCap c serverPd grantSlot
      { k with caps := r.2 }.verdraengtesLoeschen rf r.1

/-- No capability was orphaned on the way from `k` to `k'`: what lived and could be named can
still be named unless it was deleted, and what is new stands in the receive slot of the caller. -/
structure NichtsVerwaist (k k' : CapKern) (caller : Option ThreadId) : Prop where
  erreichbar : ∀ p, k.caps.cspace.Lebt p → k.caps.pds.Genannt p → k'.caps.cspace.Lebt p →
    k'.caps.pds.Genannt p
  kopie : ∀ p, ¬ k.caps.cspace.Lebt p → k'.caps.cspace.Lebt p →
    ∃ c cpd, caller = some c ∧ k.caps.pdOf c = some cpd ∧
      k'.caps.pds.capAt cpd (k.caps.pds.recvSlotOf cpd) = some p

/-- Nothing stops the grant of `src` to domain `cpd`. -/
structure Geht (k : CapKern) (c : ThreadId) (serverPd grantSlot : Nat) (src : CapPtr)
    (cpd : Nat) : Prop where
  quelle : k.caps.pds.capAt serverPd grantSlot = some src
  pd : k.caps.pdOf c = some cpd
  erlaubt : k.caps.capAllowed cpd src = true
  budget : k.caps.budgetAllows cpd (k.caps.pds.recvSlotOf cpd) = true
  lebt : k.caps.cspace.Lebt src
  frei : ∃ i, k.caps.cspace.freeSlotIndex = .ok i

def EmpfangFrei (k : CapKern) (cpd : Nat) (src : CapPtr) : Prop :=
  (∃ i, k.caps.pds.platz cpd (k.caps.pds.recvSlotOf cpd) = some i) ∧
    ∀ old, k.caps.pds.capAt cpd (k.caps.pds.recvSlotOf cpd) = some old →
      k.caps.cspace.Lebt old → (k.Loeschbar old ∧ old ≠ src) ∨
        ∃ pd slot, k.caps.pds.platz pd slot ≠ k.caps.pds.platz cpd (k.caps.pds.recvSlotOf cpd) ∧
          k.caps.pds.capAt pd slot = some old

/-- Every grant that goes through meets a free receive slot. -/
def TransferSicher (k : CapKern) (caller : Option ThreadId) (serverPd grantSlot : Nat) : Prop :=
  ∀ c src cpd, caller = some c → k.Geht c serverPd grantSlot src cpd → k.EmpfangFrei cpd src

variable {k : CapKern} {kids : Nat → List Nat}

theorem NichtsVerwaist.refl (k : CapKern) (caller : Option ThreadId) :
    k.NichtsVerwaist k caller :=
  ⟨fun _ _ h _ => h, fun _ h h' => absurd h' h⟩

/-- Without a reason to go through, the grant changes nothing; otherwise it installs a new
copy. -/
theorem grantCap_cases (hinv : k.caps.cspace.Inv kids) (c : ThreadId) (serverPd grantSlot : Nat) :
    ((∀ src cpd, ¬ k.Geht c serverPd grantSlot src cpd) ∧
        k.caps.grantCap c serverPd grantSlot = (none, k.caps)) ∨
      ∃ src cpd p cspace, k.Geht c serverPd grantSlot src cpd ∧
        CapSpace.Erzeugt k.caps.cspace cspace src.slot p ∧
        k.caps.grantCap c serverPd grantSlot =
          (k.caps.pds.capAt cpd (k.caps.pds.recvSlotOf cpd),
            { k.caps with
              cspace := cspace
              pds := k.caps.pds.installCap cpd (k.caps.pds.recvSlotOf cpd) p }) := by
  unfold Caps.grantCap
  cases hsrc : k.caps.pds.capAt serverPd grantSlot with
  | none =>
    refine .inl ⟨fun src cpd h => ?_, rfl⟩
    rw [h.quelle] at hsrc
    cases hsrc
  | some src =>
    cases hpd : k.caps.pdOf c with
    | none =>
      refine .inl ⟨fun src cpd h => ?_, rfl⟩
      rw [h.pd] at hpd
      cases hpd
    | some cpd =>
      dsimp only
      by_cases herl : k.caps.capAllowed cpd src = false
      · rw [if_pos herl]
        refine .inl ⟨fun src' cpd' h => ?_, rfl⟩
        have hs := h.quelle
        have hp := h.pd
        rw [hsrc] at hs
        rw [hpd] at hp
        cases hs
        cases hp
        rw [h.erlaubt] at herl
        cases herl
      · rw [if_neg herl]
        by_cases hbud : k.caps.budgetAllows cpd (k.caps.pds.recvSlotOf cpd) = false
        · rw [if_pos hbud]
          refine .inl ⟨fun src' cpd' h => ?_, rfl⟩
          have hp := h.pd
          rw [hpd] at hp
          cases hp
          rw [h.budget] at hbud
          cases hbud
        · rw [if_neg hbud]
          rcases CapSpace.copy_ausgang hinv src Rights.rwx with
            ⟨e, heq⟩ | ⟨p, cspace, heq, hlebt, he⟩
          · rw [heq]
            refine .inl ⟨fun src' cpd' h => ?_, rfl⟩
            have hs := h.quelle
            rw [hsrc] at hs
            cases hs
            obtain ⟨p, s', hok⟩ :=
              (CapSpace.copy_ok_iff k.caps.cspace src Rights.rwx).mpr ⟨h.lebt, h.frei⟩
            rw [heq] at hok
            cases hok
          · have hfrei := ((CapSpace.copy_ok_iff k.caps.cspace src Rights.rwx).mp
              ⟨p, cspace, heq⟩).2
            rw [heq]
            refine .inr ⟨src, cpd, p, cspace, ?_, he, rfl⟩
            exact ⟨hsrc, hpd, by simpa using herl, by simpa using hbud, hlebt, hfrei⟩

theorem loeschbar_nach_kopie {cspace : CapSpace} (pds : PdTable) {src old p : CapPtr}
    (hsrc : k.caps.cspace.Lebt src) (hold : k.caps.cspace.Lebt old)
    (he : CapSpace.Erzeugt k.caps.cspace cspace src.slot p) :
    CapKern.Loeschbar { k with caps := { k.caps with cspace := cspace, pds := pds } } old ↔
      k.Loeschbar old ∧ old ≠ src := by
  unfold Loeschbar
  rw [he.firstChild]
  have hlebt := he.lebt_of_lebt hold
  by_cases hslot : old.slot = src.slot
  · have heq : old = src := hold.eq_of_slot hsrc hslot
    simp [heq]
  · have hne : old ≠ src := fun heq => hslot (heq ▸ rfl)
    simp [hslot, hne, hold, hlebt]

theorem verdraengtesLoeschen_spec (k : CapKern) (rf : Finalized) (eintrag : Option CapPtr) :
    (k.verdraengtesLoeschen rf eintrag).caps.pds = k.caps.pds ∧
      ∀ q, (k.verdraengtesLoeschen rf eintrag).caps.cspace.Lebt q ↔
        k.caps.cspace.Lebt q ∧ ¬ (eintrag = some q ∧ k.Loeschbar q) := by
  cases eintrag with
  | none => exact ⟨rfl, fun q => by simp [verdraengtesLoeschen]⟩
  | some old =>
    unfold verdraengtesLoeschen
    dsimp only
    by_cases hl : k.Loeschbar old
    · obtain ⟨-, hg⟩ := deleteCap_of_loeschbar hl rf
      refine ⟨hg.pds, fun q => (hg.lebt q).trans (and_congr_right fun _ => ?_)⟩
      constructor
      · rintro hne ⟨heq, -⟩
        exact hne (Option.some.inj heq).symm
      · rintro hnot rfl
        exact hnot ⟨rfl, hl⟩
    · obtain ⟨e, heq⟩ := deleteCap_of_not_loeschbar hl rf
      rw [heq]
      refine ⟨rfl, fun q => ⟨fun hq => ⟨hq, ?_⟩, fun hq => hq.1⟩⟩
      rintro ⟨hold, hlq⟩
      cases hold
      exact hl hlq

theorem verdraengtesLoeschen_inv {k : CapKern} (h : ∃ kids, k.caps.cspace.Inv kids)
    (rf : Finalized) (eintrag : Option CapPtr) :
    ∃ kids, (k.verdraengtesLoeschen rf eintrag).caps.cspace.Inv kids := by
  cases eintrag with
  | none => exact h
  | some old =>
    unfold verdraengtesLoeschen
    dsimp only
    by_cases hl : k.Loeschbar old
    · exact (deleteCap_of_loeschbar hl rf).2.inv h
    · obtain ⟨e, heq⟩ := deleteCap_of_not_loeschbar hl rf
      rw [heq]
      exact h

theorem transfer_inv (hinv : k.caps.cspace.Inv kids) (caller : Option ThreadId)
    (serverPd grantSlot : Nat) (rf : Finalized) :
    ∃ kids', (k.transfer caller serverPd grantSlot rf).caps.cspace.Inv kids' := by
  cases caller with
  | none => exact ⟨kids, hinv⟩
  | some c =>
    unfold transfer
    apply verdraengtesLoeschen_inv
    rcases grantCap_cases hinv c serverPd grantSlot with
      ⟨-, heq⟩ | ⟨src, cpd, p, cspace, -, he, heq⟩
    · rw [heq]
      exact ⟨kids, hinv⟩
    · rw [heq]
      exact he.inv hinv

/-- The copy was made: nothing is orphaned exactly if the receive slot was free for it. -/
theorem eingesetzt_nichtsVerwaist_iff {c : ThreadId} {serverPd grantSlot cpd : Nat}
    {src p : CapPtr} {cspace : CapSpace} (hgeht : k.Geht c serverPd grantSlot src cpd)
    (he : CapSpace.Erzeugt k.caps.cspace cspace src.slot p) (rf : Finalized) :
    k.NichtsVerwaist
        ({ k with caps := { k.caps with
          cspace := cspace
          pds := k.caps.pds.installCap cpd (k.caps.pds.recvSlotOf cpd) p } }.verdraengtesLoeschen rf
            (k.caps.pds.capAt cpd (k.caps.pds.recvSlotOf cpd))) (some c) ↔
      k.EmpfangFrei cpd src := by
  have hspec := verdraengtesLoeschen_spec { k with caps := { k.caps with
    cspace := cspace
    pds := k.caps.pds.installCap cpd (k.caps.pds.recvSlotOf cpd) p } } rf
      (k.caps.pds.capAt cpd (k.caps.pds.recvSlotOf cpd))
  set k' := CapKern.verdraengtesLoeschen { k with caps := { k.caps with
    cspace := cspace
    pds := k.caps.pds.installCap cpd (k.caps.pds.recvSlotOf cpd) p } } rf
      (k.caps.pds.capAt cpd (k.caps.pds.recvSlotOf cpd))
  obtain ⟨hpds, hlebt⟩ := hspec
  cases hplatz : k.caps.pds.platz cpd (k.caps.pds.recvSlotOf cpd) with
  | none =>
    -- Nothing is displaced and the copy is nowhere.
    have hleer : k.caps.pds.capAt cpd (k.caps.pds.recvSlotOf cpd) = none := by
      rw [PdTable.capAt_eq_platz, hplatz]
      rfl
    have hgleich : k'.caps.pds = k.caps.pds :=
      hpds.trans (PdTable.poolSchreiben_of_platz_none (Caps.isUsed_of_pdOf hgeht.pd) hplatz _)
    refine iff_of_false (fun h => ?_) fun h => ?_
    · have hp : k'.caps.cspace.Lebt p := by
        refine (hlebt p).mpr ⟨he.lebt, fun hand => ?_⟩
        rw [hleer] at hand
        cases hand.1
      obtain ⟨c', cpd', hc, hpd, hcap⟩ := h.kopie p he.not_lebt hp
      cases hc
      have heq := hgeht.pd.symm.trans hpd
      cases heq
      rw [hgleich, hleer] at hcap
      cases hcap
    · obtain ⟨⟨i, hi⟩, -⟩ := h
      rw [hplatz] at hi
      cases hi
  | some i =>
    have hcap : ∀ j x, k'.caps.pds.capAt j x =
        if k.caps.pds.platz j x = some i then some p else k.caps.pds.capAt j x := by
      intro j x
      rw [hpds]
      exact PdTable.capAt_poolSchreiben_of_platz hplatz (some p) j x
    have hkopie : ∀ q, ¬ k.caps.cspace.Lebt q → k'.caps.cspace.Lebt q →
        ∃ c' cpd', some c = some c' ∧ k.caps.pdOf c' = some cpd' ∧
          k'.caps.pds.capAt cpd' (k.caps.pds.recvSlotOf cpd') = some q := by
      intro q hq hq'
      have hqp : q = p := ((he.lebt_iff q).mp ((hlebt q).mp hq').1).resolve_left hq
      exact ⟨c, cpd, rfl, hgeht.pd, by rw [hcap, if_pos hplatz, hqp]⟩
    constructor
    · intro h
      refine ⟨⟨i, hplatz⟩, fun old hold hlold => ?_⟩
      by_cases hdel : k.Loeschbar old ∧ old ≠ src
      · exact .inl hdel
      · right
        have hbleibt : k'.caps.cspace.Lebt old := by
          refine (hlebt old).mpr ⟨he.lebt_of_lebt hlold, fun hand => hdel ?_⟩
          exact (loeschbar_nach_kopie _ hgeht.lebt hlold he).mp hand.2
        obtain ⟨j, x, hjx⟩ := h.erreichbar old hlold ⟨cpd, _, hold⟩ hbleibt
        rw [hcap] at hjx
        split at hjx
        · cases hjx
          exact absurd hlold he.not_lebt
        · next hne => exact ⟨j, x, by rwa [hplatz], hjx⟩
    · rintro ⟨-, hfrei⟩
      refine ⟨fun q hq ⟨j, x, hjx⟩ hq' => ?_, hkopie⟩
      by_cases hsame : k.caps.pds.platz j x = some i
      · -- `q` stood where the copy is now.
        have hold : k.caps.pds.capAt cpd (k.caps.pds.recvSlotOf cpd) = some q := by
          rw [PdTable.capAt_eq_platz, hsame] at hjx
          rw [PdTable.capAt_eq_platz, hplatz, hjx]
        rcases hfrei q hold hq with hdel | ⟨j', x', hne, hjx'⟩
        · have hloesch := (loeschbar_nach_kopie
            (k.caps.pds.installCap cpd (k.caps.pds.recvSlotOf cpd) p)
            hgeht.lebt hq he).mpr hdel
          exact absurd ⟨hold, hloesch⟩ ((hlebt q).mp hq').2
        · rw [hplatz] at hne
          exact ⟨j', x', by rw [hcap, if_neg hne, hjx']⟩
      · exact ⟨j, x, by rw [hcap, if_neg hsame, hjx]⟩

/-- A transfer orphans no capability exactly if every grant that goes through meets a free
receive slot. -/
theorem transfer_nichtsVerwaist_iff (hinv : k.caps.cspace.Inv kids) (caller : Option ThreadId)
    (serverPd grantSlot : Nat) (rf : Finalized) :
    k.NichtsVerwaist (k.transfer caller serverPd grantSlot rf) caller ↔
      k.TransferSicher caller serverPd grantSlot := by
  cases caller with
  | none =>
    exact iff_of_true (NichtsVerwaist.refl k none) fun c src cpd hc => by cases hc
  | some c =>
    unfold transfer
    dsimp only
    rcases grantCap_cases hinv c serverPd grantSlot with
      ⟨hnot, heq⟩ | ⟨src, cpd, p, cspace, hgeht, he, heq⟩
    · rw [heq]
      refine iff_of_true (NichtsVerwaist.refl k _) fun c' src cpd hc hgeht => ?_
      cases hc
      exact absurd hgeht (hnot src cpd)
    · rw [heq, eingesetzt_nichtsVerwaist_iff hgeht he rf]
      constructor
      · intro hfrei c' src' cpd' hc hgeht'
        cases hc
        have hsrc := hgeht.quelle.symm.trans hgeht'.quelle
        have hpd := hgeht.pd.symm.trans hgeht'.pd
        cases hsrc
        cases hpd
        exact hfrei
      · intro hsicher
        exact hsicher c src cpd rfl hgeht

end CapKern

end Caprock.Microkit
