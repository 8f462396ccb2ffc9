import Caprock.Cap.Authority
import Caprock.Microkit.CapCalls
import Caprock.Microkit.CapSystem

/-! # Capability calls as a whole

`CCOPY`, `CMOVE`, `CSUB` and `CDELETE` of a thread that nobody interrupts.  A copy that may not be
installed is deleted again, and a capability that cannot be deleted goes back into its slot, so that
a refused call leaves nothing behind.  What a call derives allows no more than its source.
-/

namespace Caprock.Cap.CapSpace

open Mem

theorem Erzeugt.enger {s s' : CapSpace} {q : Nat} {p : CapPtr} (he : Erzeugt s s' q p)
    (ha : Ableitung s s') : Enger s' q p.slot := by
  obtain ⟨_, _, _, hq⟩ := he.abgeleitet
  rcases ha with rfl | ⟨q', c, rights, badge, fenster, hq', hc, hv⟩
  · exact absurd he.lebt he.not_lebt
  · have hused : s'.Used p.slot := ((CapSpace.lebt_iff s' p).mp he.lebt).2.1
    have heq : p.slot = c := by
      by_contra hne
      rw [used_iff_daten, hc.daten, if_neg hne, ← used_iff_daten] at hused
      exact hq.free hused
    have hparent : s'.parent p.slot = some q := by rw [hq.parent, if_pos rfl]
    have hparent' : s'.parent p.slot = some q' := by rw [hc.parent, if_pos heq]
    obtain rfl : q = q' := Option.some.inj (hparent.symm.trans hparent')
    exact heq ▸ hc.enger hv hq'

end Caprock.Cap.CapSpace

namespace Caprock.Microkit

open Cap Mem Execution Function

namespace PdTable

theorem platz_of_capAt {t : PdTable} {pd slot : Nat} {p : CapPtr} (h : t.capAt pd slot = some p) :
    ∃ i, t.platz pd slot = some i ∧ t.cspacePool.cell i = some p := by
  rw [capAt_eq_platz] at h
  exact Option.bind_eq_some_iff.mp h

theorem installCap_clearCap {t : PdTable} {pd slot : Nat} {p : CapPtr}
    (h : t.capAt pd slot = some p) : (t.clearCap pd slot).installCap pd slot p = t := by
  obtain ⟨i, hplatz, hcell⟩ := platz_of_capAt h
  have hplatz' : (t.clearCap pd slot).platz pd slot = some i := by
    rw [clearCap, poolSchreiben_of_platz hplatz]
    exact (platz_congr rfl rfl pd slot).trans hplatz
  have hpool : (t.cspacePool.set i none).set i (some p) = t.cspacePool := by
    have hcells : ((t.cspacePool.set i none).set i (some p)).cell = t.cspacePool.cell := by
      funext j
      by_cases hj : j = i
      · rw [hj, Slab.set_cell_self, hcell]
      · rw [Slab.set_cell_of_ne _ hj, Slab.set_cell_of_ne _ hj]
    calc (t.cspacePool.set i none).set i (some p)
        = ⟨t.cspacePool.len, ((t.cspacePool.set i none).set i (some p)).cell⟩ := rfl
      _ = t.cspacePool := by rw [hcells]
  rw [installCap, poolSchreiben_of_platz hplatz', clearCap, poolSchreiben_of_platz hplatz]
  rw [hpool]

end PdTable

namespace CapKern

/-- The end of `CCOPY`, `CMOVE` and `CSUB`: an orphan is deleted and the result dropped. -/
def abschliessen (k : CapKern) (rf : Finalized) (r : Schnitt) : Ergebnis × CapKern :=
  match r.orphan with
  | none => (r.code, { k with caps := r.caps })
  | some cap => (r.code, ({ k with caps := r.caps }.deleteCap rf cap).2)

def cdelete (k : CapKern) (pd slot : Nat) (rf : Finalized) : Ergebnis × CapKern :=
  match k.caps.pds.capAt pd slot with
  | none => (.errBadcap, k)
  | some cap =>
      match (k.mitTafel (k.caps.pds.clearCap pd slot)).deleteCap rf cap with
      | (.error code, k) => (code, k.mitTafel (k.caps.pds.installCap pd slot cap))
      | (.ok (), k) => (.ok, k)

/-- A call of `thread`. -/
def rufe (k : CapKern) (thread : ThreadId) (ruf : CapRuf) (rf : Finalized) : Ergebnis × CapKern :=
  match k.caps.pdOf thread with
  | none => (.errNopd, k)
  | some pd =>
      match ruf with
      | .cdelete slot => k.cdelete pd slot rf
      | .ccopy srcSlot dstSlot mask newBadge =>
          k.abschliessen rf (k.caps.ccopy pd srcSlot dstSlot mask newBadge)
      | .cmove srcSlot dstSlot => k.abschliessen rf (k.caps.cmove pd srcSlot dstSlot)
      | .csub srcSlot dstSlot offset len =>
          k.abschliessen rf (k.caps.csub pd srcSlot dstSlot offset len)

/-- A new child of what stands in slot `src` stands in slot `dst`, and allows no more. -/
structure Kopiert (k k' : CapKern) (pd src dst : Nat) : Prop where
  frei : k.caps.pds.capAt pd dst = none
  kind : ∃ c neu, k.caps.pds.capAt pd src = some c ∧ k.caps.cspace.Lebt c ∧
    k'.caps.pds.capAt pd = update (k.caps.pds.capAt pd) dst (some neu) ∧
    (∀ p, k'.caps.cspace.Lebt p ↔ k.caps.cspace.Lebt p ∨ p = neu) ∧ ¬ k.caps.cspace.Lebt neu ∧
    k'.caps.cspace.parent neu.slot = some c.slot ∧ k'.caps.cspace.Enger c.slot neu.slot
  daten : ∀ x, k.caps.cspace.Used x → k'.caps.cspace.daten x = k.caps.cspace.daten x
  alloc : k'.alloc = k.alloc

/-- The capability of slot `src` stands in slot `dst`. -/
structure Umgesetzt (k k' : CapKern) (pd src dst : Nat) : Prop where
  platz : ∃ c, k.caps.pds.capAt pd src = some c ∧
    k'.caps.pds.capAt pd =
      update (update (k.caps.pds.capAt pd) src none) dst (some c)
  cspace : k'.caps.cspace = k.caps.cspace
  alloc : k'.alloc = k.alloc

def Entfernt (k k' : CapKern) (pd slot : Nat) : Prop :=
  ∃ c, k.caps.pds.capAt pd slot = some c ∧ k.caps.cspace.Lebt c ∧
    k'.caps.pds.capAt pd = update (k.caps.pds.capAt pd) slot none ∧
    ∀ p, k'.caps.cspace.Lebt p ↔ k.caps.cspace.Lebt p ∧ p ≠ c

def Erfolg (k k' : CapKern) (pd : Nat) : CapRuf → Prop
  | .cdelete slot => Entfernt k k' pd slot
  | .ccopy src dst _ _ | .csub src dst _ _ => Kopiert k k' pd src dst
  | .cmove src dst => Umgesetzt k k' pd src dst

/-- Done, or nothing at all. -/
def RufSpec (k : CapKern) (pd : Nat) (ruf : CapRuf) : Ergebnis × CapKern → Prop
  | (.ok, k') => Erfolg k k' pd ruf
  | (_, k') => WieVorher k k'

variable {k : CapKern} {pd : Nat} {ruf : CapRuf}

theorem RufSpec.of_error {code : Ergebnis} {k' : CapKern} (hcode : code ≠ .ok)
    (h : WieVorher k k') : RufSpec k pd ruf (code, k') := by
  cases code with
  | ok => exact absurd rfl hcode
  | _ => exact h

theorem RufSpec.refl {code : Ergebnis} (hcode : code ≠ .ok) : RufSpec k pd ruf (code, k) :=
  .of_error hcode (.refl k)

theorem deleteCap_waise (hw : k.Wohl) {s : CapSpace} {q : Nat} {p : CapPtr}
    (he : k.caps.cspace.Erzeugt s q p) (rf : Finalized) :
    WieVorher k (({ k with caps := { k.caps with cspace := s } } : CapKern).deleteCap rf p).2 := by
  obtain ⟨kids, hinv⟩ := hw.baum
  obtain ⟨rights, badge, fenster, ha⟩ := he.abgeleitet
  have hzuwachs := (CapSpace.Zuwachs.refl hinv hw.leer).ableiten he.used ha
  have hgen : p.gen = (k.caps.cspace.daten p.slot).gen := by
    rw [← he.gen, ha.daten, if_pos rfl]
  obtain ⟨hweg, -, hpds, howner, halloc, hstapel⟩ :=
    @deleteCap_neu { k with caps := { k.caps with cspace := s } } _ _ _ _ hzuwachs p
      (Finset.mem_insert_self p.slot ∅) he.lebt (hw.stapel_eq_false ha.free hgen) rf
  rw [Finset.erase_insert (Finset.notMem_empty _)] at hweg
  exact ⟨hweg.wiederhergestellt, hpds, howner, halloc, hstapel⟩

theorem RufSpec.abgewiesen {code : Ergebnis} (hcode : code ≠ .ok) (rf : Finalized) :
    RufSpec k pd ruf (k.abschliessen rf (k.caps.abgewiesen code)) :=
  .of_error hcode (.refl k)

theorem capAt_of_zielFrei {g : Caps} {dst : Nat} (h : g.zielFrei pd dst = true) :
    dst < g.pds.cspaceLenVon pd ∧ g.pds.capAt pd dst = none := by
  unfold Caps.zielFrei at h
  simp only [Bool.and_eq_true, decide_eq_true_eq, Option.isNone_iff_eq_none] at h
  exact h.1

theorem slot_lt_of_capAt {slot : Nat} {c : CapPtr} (h : k.caps.pds.capAt pd slot = some c) :
    slot < k.caps.pds.cspaceLenVon pd := by
  by_contra hnot
  simp [PdTable.capAt, hnot] at h

theorem capAt_umsetzen (hw : k.Wohl) {src dst : Nat} {c : CapPtr}
    (hc : k.caps.pds.capAt pd src = some c) (hlt : dst < k.caps.pds.cspaceLenVon pd) (p : CapPtr) :
    ((k.caps.pds.clearCap pd src).installCap pd dst p).capAt pd =
      update (update (k.caps.pds.capAt pd) src none) dst (some p) := by
  have hlauf := hw.innen.lauf_le pd
  have hstep : k.caps.pds.step (.clearCap pd src) = some (k.caps.pds.clearCap pd src) := rfl
  have hinnen := PdTable.step_innen hw.innen hstep
  obtain ⟨cell, heq⟩ := k.caps.pds.poolSchreiben_eq pd src none
  have hlen : (k.caps.pds.clearCap pd src).cspaceLenVon pd = k.caps.pds.cspaceLenVon pd :=
    PdTable.cspaceLenVon_congr (congrArg PdTable.pds heq) pd
  calc ((k.caps.pds.clearCap pd src).installCap pd dst p).capAt pd
      = update ((k.caps.pds.clearCap pd src).capAt pd) dst (some p) :=
        PdTable.capAt_poolSchreiben_self (hinnen.lauf_le pd) (hlen ▸ hlt) _
    _ = update (update (k.caps.pds.capAt pd) src none) dst (some p) := by
        rw [PdTable.clearCap, PdTable.capAt_poolSchreiben_self hlauf (slot_lt_of_capAt hc)]

theorem einsetzen_spec (ruf : CapRuf) (hw : k.Wohl) {src dst : Nat} {c : CapPtr}
    (hc : k.caps.pds.capAt pd src = some c) (hziel : k.caps.zielFrei pd dst = true)
    {fehler : CapError → Ergebnis} (hfehler : ∀ e, fehler e ≠ .ok)
    {r : Except CapError CapPtr × CapSpace} (hr : k.caps.cspace.Ausgang c r)
    (ha : CapSpace.Ableitung k.caps.cspace r.2)
    (hruf : ∀ k', Kopiert k k' pd src dst → Erfolg k k' pd ruf) (rf : Finalized) :
    RufSpec k pd ruf (k.abschliessen rf (k.caps.einsetzen pd dst fehler r)) := by
  obtain ⟨hlt, hfrei⟩ := capAt_of_zielFrei hziel
  rcases hr with ⟨e, rfl⟩ | ⟨p, s, rfl, hlebt, he⟩
  · exact .refl (hfehler e)
  · unfold Caps.einsetzen
    dsimp only
    unfold Caps.installCapChecked
    split
    · -- Policy or budget refuse the new capability.
      exact .of_error (by simp) (deleteCap_waise hw he rf)
    · obtain ⟨rights, badge, fenster, habg⟩ := he.abgeleitet
      have hne : ∀ x, k.caps.cspace.Used x → x ≠ p.slot := fun x hx heq => habg.free (heq ▸ hx)
      refine hruf _ ⟨hfrei, ⟨c, p, hc, hlebt, ?_, he.lebt_iff, he.not_lebt, ?_, he.enger ha⟩,
        fun x hx => ?_, rfl⟩
      · exact PdTable.capAt_poolSchreiben_self (hw.innen.lauf_le pd) hlt _
      · show s.parent p.slot = some c.slot
        rw [habg.parent, if_pos rfl]
      · show s.daten x = k.caps.cspace.daten x
        rw [habg.daten, if_neg (hne x hx)]

theorem ccopy_spec (hw : k.Wohl) (src dst mask newBadge : Nat) (rf : Finalized) :
    RufSpec k pd (.ccopy src dst mask newBadge)
      (k.abschliessen rf (k.caps.ccopy pd src dst mask newBadge)) := by
  obtain ⟨kids, hinv⟩ := hw.baum
  unfold Caps.ccopy
  cases hc : k.caps.pds.capAt pd src with
  | none => exact .abgewiesen (by simp) rf
  | some c =>
    dsimp only
    cases hlook : k.caps.cspace.lookup c with
    | none => exact .abgewiesen (by simp) rf
    | some v =>
      dsimp only
      cases hziel : k.caps.zielFrei pd dst with
      | false => exact .abgewiesen (by simp) rf
      | true =>
        rw [if_neg (by simp)]
        refine einsetzen_spec (.ccopy src dst mask newBadge) hw hc hziel (fun _ => by simp) ?_ ?_ (fun _ hk => hk) rf
        · split
          · exact CapSpace.mint_ausgang hinv c _ newBadge
          · exact CapSpace.copy_ausgang hinv c _
        · split
          · exact CapSpace.mint_ableitung hinv c _ newBadge
          · exact CapSpace.copy_ableitung hinv c _

theorem subregionFehler_ne_ok (e : CapError) : Caps.subregionFehler e ≠ .ok := by
  cases e <;> simp [Caps.subregionFehler]

theorem csub_spec (hw : k.Wohl) (src dst offset len : Nat) (rf : Finalized) :
    RufSpec k pd (.csub src dst offset len)
      (k.abschliessen rf (k.caps.csub pd src dst offset len)) := by
  obtain ⟨kids, hinv⟩ := hw.baum
  unfold Caps.csub
  cases hc : k.caps.pds.capAt pd src with
  | none => exact .abgewiesen (by simp) rf
  | some c =>
    dsimp only
    split
    · cases hziel : k.caps.zielFrei pd dst with
      | false => exact .abgewiesen (by simp) rf
      | true =>
        rw [if_neg (by simp)]
        exact einsetzen_spec (.csub src dst offset len) hw hc hziel subregionFehler_ne_ok
          (CapSpace.subregion_ausgang hinv c offset len _)
          (CapSpace.subregion_ableitung hinv c offset len _) (fun _ hk => hk) rf
    · exact .abgewiesen (by simp) rf

theorem cmove_spec (hw : k.Wohl) (src dst : Nat) (rf : Finalized) :
    RufSpec k pd (.cmove src dst) (k.abschliessen rf (k.caps.cmove pd src dst)) := by
  unfold Caps.cmove
  cases hc : k.caps.pds.capAt pd src with
  | none => exact .abgewiesen (by simp) rf
  | some c =>
    dsimp only
    by_cases hsame : src = dst
    · rw [if_pos hsame]
      refine ⟨⟨c, hc, ?_⟩, rfl, rfl⟩
      rw [hsame, update_idem, ← hsame, ← hc, update_eq_self]
    · rw [if_neg hsame]
      by_cases hlt : k.caps.pds.cspaceLenVon pd ≤ dst
      · rw [if_pos hlt]
        exact .abgewiesen (by simp) rf
      · rw [if_neg hlt]
        by_cases hbelegt : (k.caps.pds.capAt pd dst).isSome = true
        · rw [if_pos hbelegt]
          exact .abgewiesen (by simp) rf
        · rw [if_neg hbelegt]
          exact ⟨⟨c, hc, capAt_umsetzen hw hc (by omega) c⟩, rfl, rfl⟩

theorem deleteCap_error_ne_ok {rf : Finalized} {c : CapPtr} {code : Ergebnis} {k' : CapKern}
    (h : k.deleteCap rf c = (.error code, k')) : code ≠ .ok := by
  unfold deleteCap at h
  split at h
  · cases h
    simp
  · split at h
    · cases h
      simp
    · cases h

theorem cdelete_spec (hw : k.Wohl) (slot : Nat) (rf : Finalized) :
    RufSpec k pd (.cdelete slot) (k.cdelete pd slot rf) := by
  unfold cdelete
  cases hc : k.caps.pds.capAt pd slot with
  | none => exact .refl (by simp)
  | some c =>
    dsimp only
    by_cases hdel : (k.mitTafel (k.caps.pds.clearCap pd slot)).Loeschbar c
    · obtain ⟨hok, hg⟩ := deleteCap_of_loeschbar hdel rf
      cases hres : (k.mitTafel (k.caps.pds.clearCap pd slot)).deleteCap rf c with
      | mk ergebnis k' =>
        rw [hres] at hok hg
        cases hok
        refine ⟨c, hc, hdel.2.1, ?_, hg.lebt⟩
        rw [hg.pds]
        exact PdTable.capAt_poolSchreiben_self (hw.innen.lauf_le pd) (slot_lt_of_capAt hc) none
    · obtain ⟨code, hres⟩ := deleteCap_of_not_loeschbar hdel rf
      rw [hres]
      refine .of_error (deleteCap_error_ne_ok hres) ?_
      have hpds : (k.caps.pds.clearCap pd slot).installCap pd slot c = k.caps.pds :=
        PdTable.installCap_clearCap hc
      exact ⟨.refl _, hpds, rfl, rfl, rfl⟩

theorem rufe_spec (hw : k.Wohl) (thread : ThreadId) (ruf : CapRuf) (rf : Finalized) :
    match k.caps.pdOf thread with
    | none => k.rufe thread ruf rf = (.errNopd, k)
    | some pd => RufSpec k pd ruf (k.rufe thread ruf rf) := by
  unfold rufe
  cases k.caps.pdOf thread with
  | none => rfl
  | some pd =>
    cases ruf with
    | cdelete slot => exact cdelete_spec hw slot rf
    | ccopy src dst mask newBadge => exact ccopy_spec hw src dst mask newBadge rf
    | cmove src dst => exact cmove_spec hw src dst rf
    | csub src dst offset len => exact csub_spec hw src dst offset len rf

/-- In every run without a wrapped generation a refused call changes nothing, and a successful one
does its work in the caller's cspace. -/
theorem run_rufe {tab : Tabellen} {npd npool : Nat} {alloc : PhysAllocator} {ops : List Op}
    (hops : Admissible step Zulaessig (boot tab npd npool alloc) ops)
    (hrun : run step (boot tab npd npool alloc) ops = some k) (thread : ThreadId) (ruf : CapRuf)
    (rf : Finalized) :
    ((k.rufe thread ruf rf).1 ≠ .ok → WieVorher k (k.rufe thread ruf rf).2 ∧
      ∀ p, (k.rufe thread ruf rf).2.caps.cspace.Lebt p ↔ k.caps.cspace.Lebt p) ∧
    ((k.rufe thread ruf rf).1 = .ok → ∃ pd, k.caps.pdOf thread = some pd ∧
      Erfolg k (k.rufe thread ruf rf).2 pd ruf) := by
  have hspec := rufe_spec (run_wohl hops hrun) thread ruf rf
  cases hpd : k.caps.pdOf thread with
  | none =>
      rw [hpd] at hspec
      dsimp only at hspec
      rw [hspec]
      exact ⟨fun _ => ⟨.refl k, fun _ => Iff.rfl⟩, fun h => by cases h⟩
  | some pd =>
      rw [hpd] at hspec
      dsimp only at hspec
      generalize k.rufe thread ruf rf = r at hspec ⊢
      obtain ⟨code, k'⟩ := r
      constructor
      · intro hcode
        have hwie : WieVorher k k' := by
          cases code with
          | ok => exact absurd rfl hcode
          | _ => exact hspec
        exact ⟨hwie, hwie.cspace.lebt_iff⟩
      · intro hcode
        dsimp only at hcode
        subst hcode
        exact ⟨pd, rfl, hspec⟩

def geraetKern : CapKern where
  caps := {
    cspace := (((CapSpace.attached (.klein 3 2)).install (.mmio 0 4096) Rights.rw).2.install
      (.memory ⟨4096, 4096⟩) Rights.rw).2
    pds := ((PdTable.attached 1 16).createMitBudgetUndCspace .userLand 16 16).elim
      (PdTable.attached 1 16)
      fun r => (r.2.poolSchreiben 0 0 (some ⟨0, 0⟩)).poolSchreiben 0 1 (some ⟨1, 0⟩)
    owner := fun _ => some 0 }
  alloc := .new
  stapel := fun _ => false

def geraetOps : List Op :=
  [.tafel (.create .userLand 16 16), .raum (.install (.mmio 0 4096) Rights.rw),
    .raum (.install (.memory ⟨4096, 4096⟩) Rights.rw), .tafel (.installCap 0 0 ⟨0, 0⟩),
    .tafel (.installCap 0 1 ⟨1, 0⟩), .faeden fun _ => some 0]

theorem run_geraetOps :
    run step (boot (.klein 3 2) 1 16 .new) geraetOps = some geraetKern :=
  rfl

/-- A window of the memory in place 1 goes to place 2. -/
theorem run_rufe_csub :
    ∃ k', geraetKern.rufe ⟨0, 0⟩ (.csub 1 2 16 32) (Finalized.new 4 4) = (.ok, k') ∧
      Kopiert geraetKern k' 0 1 2 := by
  have hops : Admissible step Zulaessig (boot (.klein 3 2) 1 16 .new) geraetOps := by
    refine .cons_of_step ?_ rfl (.cons_of_step ?_ rfl (.cons_of_step ?_ rfl (.cons_of_step ?_ rfl
      (.cons_of_step ?_ rfl (.cons_of_step ?_ rfl trivial)))))
    · trivial
    · exact fun r _ x hx => Bool.noConfusion hx.1
    · intro r _ x hx
      cases x with
      | zero => decide
      | succ x => exact Bool.noConfusion hx.1
    · exact .inr ⟨rfl, rfl⟩
    · exact .inr ⟨rfl, rfl⟩
    · trivial
  have hok : (geraetKern.rufe ⟨0, 0⟩ (.csub 1 2 16 32) (Finalized.new 4 4)).1 = .ok := by
    decide
  obtain ⟨pd, hpd, herfolg⟩ :=
    (run_rufe hops run_geraetOps ⟨0, 0⟩ (.csub 1 2 16 32) (Finalized.new 4 4)).2 hok
  obtain rfl : 0 = pd := Option.some.inj hpd
  exact ⟨_, Prod.ext hok rfl, herfolg⟩

/-- `geraetKern` with any peak counters and a stack that slot 2 once carried, once the generation of
slot 2 is what it was. -/
def gesperrt (a b c d e : Nat) : CapKern :=
  mitRaum { geraetKern with stapel := fun p => decide (p = ⟨2, 0⟩) }
    ⟨geraetKern.caps.cspace.mitZaehler a b c d e, geraetKern.alloc⟩

theorem gesperrt_ccopy (a b c d e : Nat) :
    ((gesperrt a b c d e).rufe ⟨0, 0⟩ (.ccopy 0 2 7 0) (Finalized.new 4 4)).1 = .errRights ∧
      ¬ (gesperrt a b c d e).caps.cspace.Lebt ⟨2, 0⟩ ∧
      ((gesperrt a b c d e).rufe ⟨0, 0⟩ (.ccopy 0 2 7 0) (Finalized.new 4 4)).2.caps.cspace.Lebt
        ⟨2, 0⟩ := by
  refine ⟨?_, ?_, ?_⟩
  · rfl
  · rw [CapSpace.lebt_iff]
    rintro ⟨-, h, -⟩
    exact Bool.noConfusion h
  · show (CapSpace.resolve _ _) = .ok 2
    rfl

theorem gesperrt_cmove (a b c d e : Nat) :
    ((gesperrt a b c d e).rufe ⟨0, 0⟩ (.cmove 0 2) (Finalized.new 4 4)).1 = .ok ∧
      (gesperrt a b c d e).caps.pds.capAt 0 0 = some ⟨0, 0⟩ ∧
      ((gesperrt a b c d e).rufe ⟨0, 0⟩ (.cmove 0 2) (Finalized.new 4 4)).2.caps.pds.capAt 0 0 =
        none :=
  ⟨rfl, rfl, rfl⟩

theorem geraetKern_wohl :
    (∃ kids, geraetKern.caps.cspace.Inv kids) ∧ geraetKern.caps.cspace.Leer := by
  set leerKern : Kern := Kern.init (.klein 3 2) .new
  set mitFenster : Kern := { leerKern with
    caps := (leerKern.caps.install (.mmio 0 4096) Rights.rw).2 }
  have hfenster : leerKern.step (.install (.mmio 0 4096) Rights.rw) = some mitFenster := rfl
  have hspeicher : mitFenster.step (.install (.memory ⟨4096, 4096⟩) Rights.rw) =
      some geraetKern.raum := rfl
  have hinv := CapSpace.attached_inv (.klein 3 2)
  have hleer := Kern.step_leer hinv (CapSpace.attached_leer _) hfenster
  obtain ⟨kids, hinv'⟩ := Kern.step_inv _ _ _ ⟨_, hinv⟩ hfenster
  exact ⟨Kern.step_inv _ _ _ ⟨_, hinv'⟩ hspeicher, Kern.step_leer hinv' hleer hspeicher⟩

theorem erreicht_gesperrt : ∃ ops a b c d e,
    Admissible step NurLebende (boot (.klein 3 2) 1 16 .new) ops ∧
      run step (boot (.klein 3 2) 1 16 .new) ops = some (gesperrt a b c d e) := by
  obtain ⟨hinv, hleer⟩ := geraetKern_wohl
  have hgen : (geraetKern.caps.cspace.daten 2).gen < 2 ^ 32 := by decide
  have hlebt : geraetKern.caps.cspace.Lebt ⟨1, 0⟩ := rfl
  -- The copy of the memory is a stack while it lives.
  obtain ⟨ops, a, b, c, d, e, hrest⟩ := erreicht_umlauf hinv hleer hlebt rfl hgen Rights.rw
    (Finalized.new 4 4) (.stapel fun p => decide (p = ⟨2, 0⟩))
    { geraetKern with stapel := fun p => decide (p = ⟨2, 0⟩) }
    (fun r hr p hp => of_decide_eq_true hp ▸ hr) (fun r => rfl)
  have hok : Admissible step NurLebende (boot (.klein 3 2) 1 16 .new) geraetOps := by
    refine .cons_of_step ?_ rfl (.cons_of_step ?_ rfl (.cons_of_step ?_ rfl (.cons_of_step ?_ rfl
      (.cons_of_step ?_ rfl (.cons_of_step ?_ rfl trivial)))))
    · trivial
    · trivial
    · trivial
    · rfl
    · rfl
    · trivial
  refine ⟨geraetOps ++ ops, a, b, c, d, e, hok.append fun t ht => ?_, ?_⟩
  · cases (run_geraetOps.symm.trans ht)
    exact hrest.1
  · rw [run_append, run_geraetOps]
    exact hrest.2

/-- `CMOVE` changes its source slot, and once a generation has wrapped round a refused `CCOPY` can
leave its copy. -/
theorem rufe_abweichung : ∃ ops k,
    Admissible step NurLebende (boot (.klein 3 2) 1 16 .new) ops ∧
      run step (boot (.klein 3 2) 1 16 .new) ops = some k ∧
      (k.rufe ⟨0, 0⟩ (.cmove 0 2) (Finalized.new 4 4)).1 = .ok ∧
      k.caps.pds.capAt 0 0 = some ⟨0, 0⟩ ∧
      (k.rufe ⟨0, 0⟩ (.cmove 0 2) (Finalized.new 4 4)).2.caps.pds.capAt 0 0 = none ∧
      (k.rufe ⟨0, 0⟩ (.ccopy 0 2 7 0) (Finalized.new 4 4)).1 = .errRights ∧
      ¬ k.caps.cspace.Lebt ⟨2, 0⟩ ∧
      (k.rufe ⟨0, 0⟩ (.ccopy 0 2 7 0) (Finalized.new 4 4)).2.caps.cspace.Lebt ⟨2, 0⟩ := by
  obtain ⟨ops, a, b, c, d, e, hok, hrun⟩ := erreicht_gesperrt
  obtain ⟨hcode, hvor, hnach⟩ := gesperrt_cmove a b c d e
  obtain ⟨hcode', hvor', hnach'⟩ := gesperrt_ccopy a b c d e
  exact ⟨ops, gesperrt a b c d e, hok, hrun, hcode, hvor, hnach, hcode', hvor', hnach'⟩

end CapKern

end Caprock.Microkit
