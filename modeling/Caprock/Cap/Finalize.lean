import Mathlib.Algebra.Group.Nat.Defs
import Caprock.Cap.Generation

/-! # Finalization

An object ends with the last slot that names it, and its end has the effect of its kind
exactly once.  A ledger numbers the installed objects in the order of their installation
and files the effects of deletions under these numbers, so that the reuse of an object
entry does not mix up two objects.  Control rights are reported slot by slot instead.
-/

namespace Caprock.Cap

open Mem Execution Function

namespace Protokoll

def abschluesse (log : Protokoll) (o : Nat) : List Wirkung :=
  (log.filter fun e => e.1 = o ∧ e.2.istDebug = false).map Prod.snd

/-- How many control rights are reported for the entries that satisfy `q`. -/
def debugMeldungen (log : Protokoll) (q : Nat → Bool) : Nat :=
  log.countP fun e => e.2.istDebug && q e.1

theorem abschluesse_append (log log' : Protokoll) (o : Nat) :
    abschluesse (log ++ log') o = abschluesse log o ++ abschluesse log' o := by
  rw [abschluesse, List.filter_append, List.map_append]
  rfl

theorem abschluesse_map (obj o : Nat) (ws : List Wirkung) :
    abschluesse (ws.map fun w => (obj, w)) o =
      if obj = o then ws.filter fun w => w.istDebug = false else [] := by
  unfold abschluesse
  rw [List.filter_map, List.map_map]
  by_cases ho : obj = o
  · simp [ho, comp_def]
  · simp [ho, comp_def]

theorem debugMeldungen_map (obj : Nat) (ws : List Wirkung) (q : Nat → Bool) :
    debugMeldungen (ws.map fun w => (obj, w)) q = if q obj then ws.countP Wirkung.istDebug else 0 := by
  unfold debugMeldungen
  rw [List.countP_map]
  cases hq : q obj <;> simp [hq, comp_def]

theorem abschluesse_eintraege {log : Protokoll} {f : Nat → Nat} {n o : Nat}
    (h : ∀ e ∈ log, e.2.istDebug = false → (f e.1 = n ↔ e.1 = o)) :
    abschluesse (log.map fun e => (f e.1, e.2)) n = abschluesse log o := by
  unfold abschluesse
  rw [List.filter_map, List.map_map]
  congr 1
  apply List.filter_congr
  intro e he
  by_cases hw : e.2.istDebug = false
  · simp [hw, h e he hw]
  · simp [hw]

theorem abschluesse_eintraege_nil {log : Protokoll} {f : Nat → Nat} {n : Nat}
    (h : ∀ e ∈ log, e.2.istDebug = false → f e.1 ≠ n) :
    abschluesse (log.map fun e => (f e.1, e.2)) n = [] := by
  unfold abschluesse
  rw [List.filter_eq_nil_iff.mpr, List.map_nil]
  intro e' he'
  obtain ⟨e, he, rfl⟩ := List.mem_map.mp he'
  rw [decide_eq_true_eq]
  exact fun hand => h e he hand.2 hand.1

theorem debugMeldungen_append (log log' : Protokoll) (q : Nat → Bool) :
    debugMeldungen (log ++ log') q = debugMeldungen log q + debugMeldungen log' q :=
  List.countP_append

end Protokoll

namespace CapSpace

variable {s s' s'' : CapSpace} {kids : Nat → List Nat}

def Benannt (s : CapSpace) (o : Nat) : Prop := (s.namen o).Nonempty

instance (s : CapSpace) (o : Nat) : Decidable (s.Benannt o) :=
  inferInstanceAs (Decidable (s.namen o).Nonempty)

theorem Inv.benannt_iff (h : Inv s kids) (o : Nat) :
    s.Benannt o ↔ (s.objects.cell o).used = true := by
  constructor
  · rintro ⟨x, hx⟩
    obtain ⟨-, hused, rfl⟩ := mem_namen.mp hx
    exact h.object x hused
  · intro ho
    exact (h.refcount o ho).2.2

theorem Inv.benannt_of_used (h : Inv s kids) {x : Nat} (hx : s.Used x) :
    s.Benannt (s.daten x).object := ⟨x, mem_namen.mpr ⟨h.bound x hx, hx, rfl⟩⟩

theorem debugMeldung_cases (s : CapSpace) (x : Nat) :
    (s.Steuerrecht x ∧ ∃ pd, (s.objects.cell (s.slots.cell x).object).kind = .debuggable pd ∧
        s.debugMeldung x = [.debug pd]) ∨ ¬ s.Steuerrecht x ∧ s.debugMeldung x = [] := by
  unfold debugMeldung Steuerrecht
  cases (s.objects.cell (s.slots.cell x).object).kind with
  | debuggable pd =>
    dsimp only
    split
    · next hand =>
      rw [Bool.and_eq_true] at hand
      exact .inl ⟨⟨rfl, hand⟩, pd, rfl, rfl⟩
    · next hand =>
      rw [Bool.and_eq_true] at hand
      exact .inr ⟨fun hs => hand hs.2, rfl⟩
  | _ => exact .inr ⟨fun hs => Bool.noConfusion hs.1, rfl⟩

theorem namen_deleteLeaf (a : Abbau) (c o : Nat) :
    (a.deleteLeaf c).caps.namen o = (a.caps.namen o).erase c := by
  ext x
  rw [Finset.mem_erase, mem_namen, mem_namen, a.used_deleteLeaf, (a.deleteLeaf_tables c).1,
    a.daten_deleteLeaf]
  by_cases hxc : x = c
  · simp [hxc]
  · simp [hxc]

theorem Inv.letzte_iff {a : Abbau} (h : a.caps.Inv kids) {c : Nat} (hc : a.caps.Used c) :
    ((a.caps.objects.cell (a.caps.daten c).object).refcount + (2 ^ 32 - 1)) % 2 ^ 32 = 0 ↔
      ¬ (a.deleteLeaf c).caps.Benannt (a.caps.daten c).object := by
  obtain ⟨-, hcount, hne⟩ := h.refcount _ (h.object c hc)
  have hin : c ∈ a.caps.namen (a.caps.daten c).object := mem_namen.mpr ⟨h.bound c hc, hc, rfl⟩
  have hpos := Finset.card_pos.mpr hne
  have hle := namen_card_le a.caps (a.caps.daten c).object
  have hsize := h.size
  have hcard := Finset.card_erase_add_one hin
  unfold Benannt
  rw [namen_deleteLeaf, ← Finset.card_pos, hcount]
  omega

theorem filter_abschluss (kind : ObjectKind) :
    (abschluss kind).filter (fun w => w.istDebug = false) = abschluss kind :=
  List.filter_eq_self.mpr fun _ hw => decide_eq_true (istDebug_of_mem_abschluss hw)

theorem countP_abschluss (kind : ObjectKind) : (abschluss kind).countP Wirkung.istDebug = 0 := by
  rw [List.countP_eq_zero]
  intro w hw
  rw [istDebug_of_mem_abschluss hw]
  exact Bool.false_ne_true

theorem abschluesse_blattWirkungen {a : Abbau} (h : a.caps.Inv kids) {c : Nat} (hc : a.caps.Used c)
    (o : Nat) : (a.caps.blattWirkungen c).abschluesse o =
      if a.caps.Benannt o ∧ ¬ (a.deleteLeaf c).caps.Benannt o then
        abschluss (a.caps.objects.cell o).kind
      else [] := by
  have hobj : (a.caps.slots.cell c).object = (a.caps.daten c).object := rfl
  have hdebug : (a.caps.debugMeldung c).filter (fun w => w.istDebug = false) = [] := by
    rcases a.caps.debugMeldung_cases c with ⟨-, pd, -, heq⟩ | ⟨-, heq⟩
    · rw [heq]
      rfl
    · rw [heq]
      rfl
  unfold blattWirkungen
  rw [Protokoll.abschluesse_map, hobj, List.filter_append, hdebug, List.nil_append]
  by_cases ho : (a.caps.daten c).object = o
  · have hnamed : a.caps.Benannt o := ho ▸ h.benannt_of_used hc
    have hlast := h.letzte_iff hc
    rw [ho] at hlast ⊢
    rw [if_pos rfl]
    by_cases hend : (a.deleteLeaf c).caps.Benannt o
    · rw [if_neg fun hz => hlast.mp hz hend, if_neg fun hand => hand.2 hend, List.filter_nil]
    · rw [if_pos (hlast.mpr hend), if_pos ⟨hnamed, hend⟩, filter_abschluss]
  · rw [if_neg ho, if_neg]
    rintro ⟨hnamed, hend⟩
    -- Another object keeps its names.
    obtain ⟨x, hx⟩ := hnamed
    refine hend ⟨x, ?_⟩
    rw [namen_deleteLeaf, Finset.mem_erase]
    refine ⟨?_, hx⟩
    rintro rfl
    exact ho (mem_namen.mp hx).2.2

theorem debugMeldungen_blattWirkungen (s : CapSpace) (c : Nat) (q : Nat → Bool) :
    (s.blattWirkungen c).debugMeldungen q =
      if s.Steuerrecht c ∧ q (s.daten c).object = true then 1 else 0 := by
  have hobj : (s.slots.cell c).object = (s.daten c).object := rfl
  have hrest : (if ((s.objects.cell (s.daten c).object).refcount + (2 ^ 32 - 1)) % 2 ^ 32 = 0 then
      abschluss (s.objects.cell (s.daten c).object).kind else []).countP Wirkung.istDebug = 0 := by
    split
    · exact countP_abschluss _
    · rfl
  unfold blattWirkungen
  rw [Protokoll.debugMeldungen_map, hobj, List.countP_append, hrest, Nat.add_zero]
  rcases s.debugMeldung_cases c with ⟨hs, pd, -, heq⟩ | ⟨hs, heq⟩
  · rw [heq]
    cases hq : q (s.daten c).object <;> simp [hs, Wirkung.istDebug]
  · rw [heq]
    simp [hs]

/-- The objects that lose their last name between `s` and `s'` end in `log`, and no other. -/
structure Abgerechnet (s s' : CapSpace) (log : Protokoll) : Prop where
  benannt : ∀ o, s'.Benannt o → s.Benannt o
  kind : ∀ o, s'.Benannt o → (s'.objects.cell o).kind = (s.objects.cell o).kind
  abschluss : ∀ o, log.abschluesse o =
    if s.Benannt o ∧ ¬ s'.Benannt o then Cap.abschluss (s.objects.cell o).kind else []

/-- The control rights on objects in `q` that are given up between `s` and `s'`. -/
def verloren (s s' : CapSpace) (q : Nat → Bool) : Finset Nat :=
  (Finset.range s.slots.len).filter fun x =>
    s.Freigegeben s' x ∧ s.Steuerrecht x ∧ q (s.daten x).object = true

theorem mem_verloren {q : Nat → Bool} {x : Nat} : x ∈ s.verloren s' q ↔
    x < s.slots.len ∧ s.Freigegeben s' x ∧ s.Steuerrecht x ∧ q (s.daten x).object = true := by
  rw [verloren, Finset.mem_filter, Finset.mem_range]

/-- One report for each control right that is given up between `s` and `s'`. -/
structure Gemeldet (s s' : CapSpace) (log : Protokoll) : Prop where
  anzahl : ∀ q, log.debugMeldungen q = (s.verloren s' q).card
  ziel : ∀ e ∈ log, ∀ pd, e.2 = .debug pd → (s.objects.cell e.1).kind = .debuggable pd

theorem Abgerechnet.refl (s : CapSpace) : Abgerechnet s s [] where
  benannt := fun _ ho => ho
  kind := fun _ _ => rfl
  abschluss := fun _ => (if_neg fun hand => hand.2 hand.1).symm

theorem Gemeldet.refl (s : CapSpace) : Gemeldet s s [] where
  anzahl := by
    intro q
    have hnone : s.verloren s q = ∅ := by
      rw [Finset.eq_empty_iff_forall_notMem]
      intro x hx
      obtain ⟨-, hf, -⟩ := mem_verloren.mp hx
      exact hf.2 hf.1
    rw [hnone]
    rfl
  ziel := fun _ he => absurd he List.not_mem_nil

theorem NurZaehler.namen (hz : NurZaehler s s') (o : Nat) : s'.namen o = s.namen o := by
  ext x
  simp only [mem_namen, hz.used, hz.daten, hz.slots]

theorem Abgerechnet.nurZaehler {log : Protokoll} (h : Abgerechnet s s' log)
    (hz : NurZaehler s' s'') : Abgerechnet s s'' log := by
  have hiff : ∀ o, s''.Benannt o ↔ s'.Benannt o := by
    intro o
    unfold Benannt
    rw [hz.namen]
  refine ⟨fun o ho => h.benannt o ((hiff o).mp ho), fun o ho => ?_, fun o => ?_⟩
  · rw [hz.objects]
    exact h.kind o ((hiff o).mp ho)
  · rw [h.abschluss]
    simp only [hiff]

theorem Gemeldet.nurZaehler {log : Protokoll} (h : Gemeldet s s' log) (hz : NurZaehler s' s'') :
    Gemeldet s s'' log where
  anzahl := by
    intro q
    rw [h.anzahl]
    congr 1
    ext x
    rw [mem_verloren, mem_verloren, Freigegeben, Freigegeben, hz.used]
  ziel := h.ziel

/-- One more leaf is deleted. -/
theorem Abgerechnet.deleteLeaf {a : Abbau} {log : Protokoll} (h : Abgerechnet s a.caps log)
    (hinv : a.caps.Inv kids) {c : Nat} (hc : a.caps.Used c) :
    Abgerechnet s (a.deleteLeaf c).caps (log ++ a.caps.blattWirkungen c) := by
  have hless : ∀ o, (a.deleteLeaf c).caps.Benannt o → a.caps.Benannt o := by
    rintro o ⟨x, hx⟩
    rw [namen_deleteLeaf] at hx
    exact ⟨x, Finset.mem_of_mem_erase hx⟩
  refine ⟨fun o ho => h.benannt o (hless o ho), fun o ho => ?_, fun o => ?_⟩
  · rw [← h.kind o (hless o ho), a.objects_deleteLeaf]
    split
    · next heq =>
      have hlast := (hinv.letzte_iff hc).not_left.mpr (heq ▸ ho)
      rw [heq, Abbau.abgeben, if_neg hlast]
    · rfl
  · rw [Protokoll.abschluesse_append, h.abschluss, abschluesse_blattWirkungen hinv hc]
    by_cases ho : a.caps.Benannt o
    · simp [ho, h.benannt o ho, h.kind o ho]
    · have hgone : ¬ (a.deleteLeaf c).caps.Benannt o := fun hd => ho (hless o hd)
      simp [ho, hgone]

theorem Gemeldet.deleteLeaf {a : Abbau} {log : Protokoll} (h : Gemeldet s a.caps log)
    (herh : Erhalten s a.caps) (hinv : s.Inv kids) {c : Nat} (hc : a.caps.Used c) :
    Gemeldet s (a.deleteLeaf c).caps (log ++ a.caps.blattWirkungen c) := by
  have hdaten := herh.daten c hc
  have hkind : (a.caps.objects.cell (s.daten c).object).kind =
      (s.objects.cell (s.daten c).object).kind := herh.kind c hc
  obtain ⟨-, hobj, hrights, -, -⟩ := fields_of_daten hdaten
  have hobj' : (a.caps.daten c).object = (s.daten c).object := hobj
  have hrecht : a.caps.Steuerrecht c ↔ s.Steuerrecht c := by
    unfold Steuerrecht
    rw [hrights, herh.parent c hc, hobj]
    show (a.caps.objects.cell (s.daten c).object).kind.istDebuggable = true ∧ _ ↔ _
    rw [hkind]
    rfl
  refine ⟨fun q => ?_, fun e he pd hpd => ?_⟩
  · rw [Protokoll.debugMeldungen_append, h.anzahl, debugMeldungen_blattWirkungen,
      if_congr (and_congr hrecht (by rw [hobj'])) rfl rfl]
    have hfree : ∀ x, s.Freigegeben (a.deleteLeaf c).caps x ↔ s.Freigegeben a.caps x ∨ x = c := by
      intro x
      unfold Freigegeben
      rw [a.used_deleteLeaf]
      by_cases hxc : x = c
      · simp [hxc, herh.used c hc]
      · simp [hxc]
    by_cases hq : s.Steuerrecht c ∧ q (s.daten c).object = true
    · have hnot : c ∉ s.verloren a.caps q := fun hin => (mem_verloren.mp hin).2.1.2 hc
      rw [if_pos hq, ← Finset.card_insert_of_notMem hnot]
      congr 1
      ext x
      rw [Finset.mem_insert, mem_verloren, mem_verloren, hfree]
      by_cases hxc : x = c
      · simp [hxc, hq, hinv.bound c (herh.used c hc)]
      · simp [hxc]
    · rw [if_neg hq, Nat.add_zero]
      congr 1
      ext x
      rw [mem_verloren, mem_verloren, hfree]
      by_cases hxc : x = c
      · simp [hxc, hq, Freigegeben, hc]
      · simp [hxc]
  · rcases List.mem_append.mp he with he | he
    · exact h.ziel e he pd hpd
    · unfold blattWirkungen at he
      obtain ⟨w, hw, rfl⟩ := List.mem_map.mp he
      obtain rfl : w = .debug pd := hpd
      rcases List.mem_append.mp hw with hw | hw
      · rcases a.caps.debugMeldung_cases c with ⟨-, pd', hpd', heq⟩ | ⟨-, heq⟩
        · rw [heq] at hw
          injection List.mem_singleton.mp hw with hsame
          rw [hsame, ← hpd', hobj]
          exact hkind.symm
        · rw [heq] at hw
          cases hw
      · split at hw
        · cases istDebug_of_mem_abschluss hw
        · cases hw

end CapSpace

namespace Abbau

open CapSpace

variable {a : Abbau} {kids : Nat → List Nat}

theorem delete_abgerechnet (h : a.caps.Inv kids) (p : CapPtr) :
    Abgerechnet a.caps (a.delete p).2.caps (a.deleteWirkungen p) ∧
      Gemeldet a.caps (a.delete p).2.caps (a.deleteWirkungen p) := by
  unfold delete deleteWirkungen
  rcases resolve_cases a.caps p with ⟨c, hres, -, hc, -⟩ | hres
  · rw [hres]
    dsimp only
    split
    · exact ⟨.refl _, .refl _⟩
    · exact ⟨(Abgerechnet.refl _).deleteLeaf h hc,
        (Gemeldet.refl _).deleteLeaf (Erhalten.refl _) h hc⟩
  · rw [hres]
    exact ⟨.refl _, .refl _⟩

theorem revoke_abgerechnet (h : a.caps.Inv kids) (p : CapPtr) :
    Abgerechnet a.caps (a.revoke p).2.caps (a.revokeWirkungen p) ∧
      Gemeldet a.caps (a.revoke p).2.caps (a.revokeWirkungen p) := by
  rcases resolve_cases a.caps p with ⟨i, hres, -, hi, -⟩ | hres
  · obtain ⟨-, -, ⟨-, -, -, hend⟩, -⟩ := revoke_protokoll_rule
      (P := fun b ks log => b.caps.Inv ks ∧ b.caps.Used i ∧ Erhalten a.caps b.caps ∧
        Abgerechnet a.caps b.caps log ∧ Gemeldet a.caps b.caps log) hres
      (fun b ks log hP => ⟨hP.1, hP.2.1⟩)
      (fun b s' ks log hz ⟨hinv, hu, herh, hab, hge⟩ => ⟨hinv.nurZaehler hz, hz.used.symm ▸ hu,
        herh.trans (Erhalten.of_nurZaehler hz), hab.nurZaehler hz, hge.nurZaehler hz⟩)
      (fun b ks log c ⟨hinv, hu, herh, hab, hge⟩ hc hnil hbelow => ⟨deleteLeaf_inv hinv hc hnil,
        used_deleteLeaf_of_below hinv hu hbelow, herh.trans (Erhalten.deleteLeaf hinv hc hnil),
        hab.deleteLeaf hinv hc, hge.deleteLeaf herh h hc⟩)
      ⟨h, hi, Erhalten.refl _, .refl _, .refl _⟩
    exact hend
  · rw [revoke_of_error hres]
    unfold revokeWirkungen
    rw [hres]
    exact ⟨.refl _, .refl _⟩

end Abbau

namespace CapSpace

variable {s s' : CapSpace} {kids kids' : Nat → List Nat}

theorem Abgerechnet.of_objects (h : Inv s kids) (h' : Inv s' kids')
    (hobj : ∀ o, (s'.objects.cell o).used = (s.objects.cell o).used ∧
      ((s'.objects.cell o).used = true → (s'.objects.cell o).kind = (s.objects.cell o).kind)) :
    Abgerechnet s s' [] := by
  have hiff : ∀ o, s'.Benannt o ↔ s.Benannt o := by
    intro o
    rw [h.benannt_iff, h'.benannt_iff, (hobj o).1]
  refine ⟨fun o ho => (hiff o).mp ho, fun o ho => (hobj o).2 ((h'.benannt_iff o).mp ho), fun o => ?_⟩
  rw [if_neg fun hand => hand.2 ((hiff o).mpr hand.1)]
  rfl

theorem Zurueckgerollt.abgerechnet {kind : ObjectKind} {o : Nat} (hz : Zurueckgerollt s s' kind o)
    (h : Inv s kids) : Abgerechnet s s' [] := by
  refine .of_objects h (hz.inv h) fun x => ?_
  have hfree : (s.objects.cell o).used = false := by simpa using hz.free
  rw [hz.objects]
  by_cases hxo : x = o
  · simp [hxo, hfree]
  · simp [hxo]

theorem Ableitung.abgerechnet (ha : Ableitung s s') (h : Inv s kids) : Abgerechnet s s' [] := by
  obtain ⟨kids', h'⟩ := ha.inv h
  rcases ha with rfl | ⟨p, c, rights, badge, fenster, -, ha, -⟩
  · exact .refl _
  · refine .of_objects h h' fun o => ?_
    rw [ha.objects]
    split
    · exact ⟨rfl, fun _ => rfl⟩
    · exact ⟨rfl, fun _ => rfl⟩

theorem Verschoben.abgerechnet {i d : Nat} (hv : Verschoben s s' kids i d) (h : Inv s kids)
    (hi : s.Used i) : Abgerechnet s s' [] := by
  refine .of_objects h (hv.inv h hi) fun o => ?_
  rw [hv.tables.objects]
  exact ⟨rfl, fun _ => rfl⟩

end CapSpace

namespace Kern

open CapSpace

def wirkungen (k : Kern) : Op → Protokoll
  | .delete p rf => Abbau.deleteWirkungen ⟨k.caps, k.alloc, rf⟩ p
  | .revoke p rf => Abbau.revokeWirkungen ⟨k.caps, k.alloc, rf⟩ p
  | _ => []

/-- The entry and the kind of the object an operation installs. -/
def neu (k : Kern) : Op → Option (Nat × ObjectKind)
  | .install kind rights =>
      match k.caps.install kind rights with
      | (.ok p, s) => some ((s.slots.cell p.slot).object, kind)
      | (.error _, _) => none
  | _ => none

theorem neu_eq_some {k k' : Kern} {op : Op} {o : Nat} {kind : ObjectKind}
    (hneu : k.neu op = some (o, kind)) (hstep : k.step op = some k') :
    k.wirkungen op = [] ∧ ∃ rights c, Eingebracht k.caps k'.caps kind rights o c := by
  cases op with
  | install kind' rights =>
    cases hstep
    refine ⟨rfl, rights, ?_⟩
    unfold neu at hneu
    dsimp only at hneu
    rcases install_ausgang k.caps kind' rights with ⟨heq, -⟩ | ⟨o', s', heq, -⟩ | ⟨o', c, s', heq, he⟩
    · rw [heq] at hneu
      cases hneu
    · rw [heq] at hneu
      cases hneu
    · rw [heq] at hneu ⊢
      have hobj : (s'.daten c).object = o' := by rw [he.daten, if_pos rfl]
      injection hneu with hneu
      injection hneu with ho hkind
      obtain rfl : o' = o := hobj.symm.trans ho
      exact ⟨c, hkind ▸ he⟩
  | _ => cases hneu

theorem step_abgerechnet {k k' : Kern} {op : Op} {kids : Nat → List Nat} (h : k.caps.Inv kids)
    (hneu : k.neu op = none) (hstep : k.step op = some k') :
    Abgerechnet k.caps k'.caps (k.wirkungen op) := by
  cases op with
  | install kind rights =>
    cases hstep
    unfold neu at hneu
    dsimp only at hneu
    rcases install_ausgang k.caps kind rights with ⟨heq, -⟩ | ⟨o, s', heq, hz⟩ | ⟨o, c, s', heq, he⟩
    · rw [heq]
      exact .refl _
    · rw [heq]
      exact hz.abgerechnet h
    · rw [heq] at hneu
      cases hneu
  | copy src rights =>
    cases hstep
    exact (copy_ableitung h src rights).abgerechnet h
  | mint src rights badge =>
    cases hstep
    exact (mint_ableitung h src rights badge).abgerechnet h
  | subregion src offset len rights =>
    cases hstep
    exact (subregion_ableitung h src offset len rights).abgerechnet h
  | moveCap src =>
    cases hstep
    rcases moveCap_ausgang h src with ⟨e, heq⟩ | ⟨d, s', heq, hi, hv⟩
    · rw [heq]
      exact .refl _
    · rw [heq]
      exact hv.abgerechnet h hi
  | delete p rf =>
    cases hstep
    exact (Abbau.delete_abgerechnet (a := ⟨k.caps, k.alloc, rf⟩) h p).1
  | revoke p rf =>
    cases hstep
    exact (Abbau.revoke_abgerechnet (a := ⟨k.caps, k.alloc, rf⟩) h p).1

end Kern

/-- A space with the history of its objects.  Objects are numbered in the order of their
installation; `nummer` is the number of the object an entry holds. -/
structure Buch where
  kern : Kern
  installiert : List ObjectKind
  nummer : Nat → Nat
  protokoll : Protokoll

namespace Buch

open CapSpace

def init (tab : Tabellen) (alloc : PhysAllocator) : Buch := ⟨Kern.init tab alloc, [], fun _ => 0, []⟩

/-- The effects of an operation under the numbers of the objects. -/
def eintraege (b : Buch) (op : Op) : Protokoll :=
  (b.kern.wirkungen op).map fun e => (b.nummer e.1, e.2)

def step (b : Buch) (op : Op) : Option Buch :=
  (b.kern.step op).map fun k =>
    match b.kern.neu op with
    | some (o, kind) =>
        ⟨k, b.installiert ++ [kind], update b.nummer o b.installiert.length, b.protokoll⟩
    | none => { b with kern := k, protokoll := b.protokoll ++ b.eintraege op }

/-- Some slot names object number `n`. -/
def Lebt (b : Buch) (n : Nat) : Prop :=
  ∃ x, x < b.kern.caps.slots.len ∧ b.kern.caps.Used x ∧ b.nummer (b.kern.caps.daten x).object = n

instance (b : Buch) (n : Nat) : Decidable (b.Lebt n) :=
  inferInstanceAs (Decidable (∃ x, x < b.kern.caps.slots.len ∧ _))

theorem lebt_iff {b : Buch} {n : Nat} : b.Lebt n ↔ ∃ o, b.kern.caps.Benannt o ∧ b.nummer o = n := by
  constructor
  · rintro ⟨x, hlt, hused, hn⟩
    exact ⟨_, ⟨x, mem_namen.mpr ⟨hlt, hused, rfl⟩⟩, hn⟩
  · rintro ⟨o, ⟨x, hx⟩, hn⟩
    obtain ⟨hlt, hused, rfl⟩ := mem_namen.mp hx
    exact ⟨x, hlt, hused, hn⟩

/-- The accounts balance: an object has ended exactly if no slot names it. -/
structure Ausgeglichen (b : Buch) : Prop where
  inv : ∃ kids, b.kern.caps.Inv kids
  kind : ∀ o, b.kern.caps.Benannt o →
    b.installiert[b.nummer o]? = some (b.kern.caps.objects.cell o).kind
  inj : ∀ o o', b.kern.caps.Benannt o → b.kern.caps.Benannt o' → b.nummer o = b.nummer o' → o = o'
  einmal : ∀ n kind, b.installiert[n]? = some kind →
    b.protokoll.abschluesse n = if b.Lebt n then [] else abschluss kind
  leer : ∀ n, b.installiert.length ≤ n → b.protokoll.abschluesse n = []

theorem benannt_of_mem {s s' : CapSpace} {log : Protokoll} (h : Abgerechnet s s' log)
    {e : Nat × Wirkung} (he : e ∈ log) (hw : e.2.istDebug = false) : s.Benannt e.1 := by
  by_contra hnot
  have hnone := h.abschluss e.1
  rw [if_neg fun hand => hnot hand.1] at hnone
  have hin : e.2 ∈ log.abschluesse e.1 :=
    List.mem_map.mpr ⟨e, List.mem_filter.mpr ⟨he, decide_eq_true ⟨rfl, hw⟩⟩, rfl⟩
  rw [hnone] at hin
  exact List.not_mem_nil hin

theorem Ausgeglichen.lt_length {b : Buch} (hb : b.Ausgeglichen) {o : Nat}
    (ho : b.kern.caps.Benannt o) : b.nummer o < b.installiert.length :=
  (List.getElem?_eq_some_iff.mp (hb.kind o ho)).1

/-- The entries of a step: what loses its last name ends, and nothing else. -/
theorem Ausgeglichen.abschluesse_eintraege {b b' : Buch} {op : Op} (hb : b.Ausgeglichen)
    (ha : Abgerechnet b.kern.caps b'.kern.caps (b.kern.wirkungen op))
    (hnummer : b'.nummer = b.nummer) {n : Nat} {kind : ObjectKind}
    (hn : b.installiert[n]? = some kind) : (b.eintraege op).abschluesse n =
      if b.Lebt n ∧ ¬ b'.Lebt n then abschluss kind else [] := by
  unfold eintraege
  by_cases hlebt : b.Lebt n
  · obtain ⟨o, ho, hno⟩ := lebt_iff.mp hlebt
    have hkind : (b.kern.caps.objects.cell o).kind = kind := by
      have hread := hb.kind o ho
      rw [hno, hn] at hread
      exact (Option.some.inj hread).symm
    have hlebt' : b'.Lebt n ↔ b'.kern.caps.Benannt o := by
      rw [lebt_iff, hnummer]
      constructor
      · rintro ⟨o', ho', hno'⟩
        obtain rfl := hb.inj o' o (ha.benannt o' ho') ho (hno'.trans hno.symm)
        exact ho'
      · exact fun ho' => ⟨o, ho', hno⟩
    have hentries := @Protokoll.abschluesse_eintraege (b.kern.wirkungen op) b.nummer n o
      fun e he hw => by
        constructor
        · intro hne
          exact hb.inj e.1 o (benannt_of_mem ha he hw) ho (hne.trans hno.symm)
        · rintro rfl
          exact hno
    rw [hentries, ha.abschluss, hkind]
    simp only [ho, hlebt, hlebt', true_and]
  · rw [if_neg fun hand => hlebt hand.1]
    apply Protokoll.abschluesse_eintraege_nil
    exact fun e he hw hne => hlebt (lebt_iff.mpr ⟨e.1, benannt_of_mem ha he hw, hne⟩)

theorem Ausgeglichen.fortschreiben {b : Buch} {op : Op} {k : Kern} (hb : b.Ausgeglichen)
    (hinv : ∃ kids, k.caps.Inv kids)
    (ha : Abgerechnet b.kern.caps k.caps (b.kern.wirkungen op)) :
    Ausgeglichen { b with kern := k, protokoll := b.protokoll ++ b.eintraege op } where
  inv := hinv
  kind := by
    intro o ho
    show b.installiert[b.nummer o]? = some (k.caps.objects.cell o).kind
    rw [ha.kind o ho]
    exact hb.kind o (ha.benannt o ho)
  inj := fun o o' ho ho' heq => hb.inj o o' (ha.benannt o ho) (ha.benannt o' ho') heq
  einmal := by
    intro n kind hn
    set b' : Buch := { b with kern := k, protokoll := b.protokoll ++ b.eintraege op }
    have hless : b'.Lebt n → b.Lebt n := by
      rw [lebt_iff, lebt_iff]
      rintro ⟨o, ho, hno⟩
      exact ⟨o, ha.benannt o ho, hno⟩
    have hentries := @Ausgeglichen.abschluesse_eintraege b b' op hb
    show Protokoll.abschluesse (b.protokoll ++ b.eintraege op) n = _
    rw [Protokoll.abschluesse_append, hb.einmal n kind hn, hentries ha rfl hn]
    by_cases hlebt : b.Lebt n
    · simp [hlebt]
    · have hgone : ¬ b'.Lebt n := fun hl => hlebt (hless hl)
      simp [hlebt, hgone]
  leer := by
    intro n hn
    show Protokoll.abschluesse (b.protokoll ++ b.eintraege op) n = []
    rw [Protokoll.abschluesse_append, hb.leer n hn, List.nil_append]
    apply Protokoll.abschluesse_eintraege_nil
    intro e he hw hne
    have hlt := hb.lt_length (benannt_of_mem ha he hw)
    have hn' : b.installiert.length ≤ n := hn
    omega

theorem Ausgeglichen.einbringen {b : Buch} {k : Kern} {kind : ObjectKind} {rights : Rights}
    {o c : Nat} (hb : b.Ausgeglichen) (he : Eingebracht b.kern.caps k.caps kind rights o c)
    (hinv : ∃ kids, k.caps.Inv kids) :
    Ausgeglichen ⟨k, b.installiert ++ [kind], update b.nummer o b.installiert.length,
      b.protokoll⟩ := by
  obtain ⟨kids, h⟩ := hb.inv
  obtain ⟨kids', h'⟩ := hinv
  have hfree : ¬ b.kern.caps.Benannt o := fun hn => he.freeObject ((h.benannt_iff o).mp hn)
  have hiff : ∀ x, k.caps.Benannt x ↔ b.kern.caps.Benannt x ∨ x = o := by
    intro x
    rw [h'.benannt_iff, he.objects, h.benannt_iff]
    by_cases hxo : x = o
    · simp [hxo]
    · simp [hxo]
  have hnummer : ∀ x, b.kern.caps.Benannt x →
      update b.nummer o b.installiert.length x = b.nummer x := by
    intro x hx
    refine update_of_ne ?_ _ _
    rintro rfl
    exact hfree hx
  set b' : Buch := ⟨k, b.installiert ++ [kind], update b.nummer o b.installiert.length,
    b.protokoll⟩
  have hlebt : ∀ n, b'.Lebt n ↔ b.Lebt n ∨ n = b.installiert.length := by
    intro n
    rw [lebt_iff, lebt_iff]
    constructor
    · rintro ⟨x, hx, hn⟩
      rcases (hiff x).mp hx with hx | rfl
      · exact .inl ⟨x, hx, (hnummer x hx).symm.trans hn⟩
      · exact .inr (hn.symm.trans (update_self ..))
    · rintro (⟨x, hx, hn⟩ | rfl)
      · exact ⟨x, (hiff x).mpr (.inl hx), (hnummer x hx).trans hn⟩
      · exact ⟨o, (hiff o).mpr (.inr rfl), update_self ..⟩
  refine ⟨⟨kids', h'⟩, ?_, ?_, ?_, ?_⟩
  · intro x hx
    show (b.installiert ++ [kind])[update b.nummer o b.installiert.length x]? =
      some (k.caps.objects.cell x).kind
    rw [he.objects]
    rcases (hiff x).mp hx with hold | rfl
    · have hxo : x ≠ o := by
        rintro rfl
        exact hfree hold
      rw [hnummer x hold, List.getElem?_append_left (hb.lt_length hold), if_neg hxo]
      exact hb.kind x hold
    · rw [update_self, if_pos rfl]
      simp
  · intro x y hx hy heq
    have heq' : update b.nummer o b.installiert.length x =
        update b.nummer o b.installiert.length y := heq
    rcases (hiff x).mp hx with hxold | rfl <;> rcases (hiff y).mp hy with hyold | rfl
    · rw [hnummer x hxold, hnummer y hyold] at heq'
      exact hb.inj x y hxold hyold heq'
    · rw [hnummer x hxold, update_self] at heq'
      have hlt := hb.lt_length hxold
      omega
    · rw [hnummer y hyold, update_self] at heq'
      have hlt := hb.lt_length hyold
      omega
    · rfl
  · intro n kind' hn
    have hn' : (b.installiert ++ [kind])[n]? = some kind' := hn
    show b.protokoll.abschluesse n = _
    rcases Nat.lt_or_ge n b.installiert.length with hlt | hge
    · rw [List.getElem?_append_left hlt] at hn'
      have hiff' : b'.Lebt n ↔ b.Lebt n := by
        rw [hlebt]
        exact ⟨fun hor => hor.resolve_right (by omega), .inl⟩
      rw [hb.einmal n kind' hn', if_congr hiff' rfl rfl]
    · have hlast : n = b.installiert.length := by
        have hlt := (List.getElem?_eq_some_iff.mp hn').1
        rw [List.length_append, List.length_singleton] at hlt
        omega
      rw [hb.leer n hge, if_pos ((hlebt n).mpr (.inr hlast))]
  · intro n hn
    have hn' : (b.installiert ++ [kind]).length ≤ n := hn
    rw [List.length_append] at hn'
    exact hb.leer n (by omega)

theorem ausgeglichen_init (tab : Tabellen) (alloc : PhysAllocator) :
    (init tab alloc).Ausgeglichen := by
  have hnone : ∀ o, ¬ (init tab alloc).kern.caps.Benannt o := by
    rintro o ⟨x, hx⟩
    exact Bool.noConfusion (mem_namen.mp hx).2.1
  refine ⟨⟨_, attached_inv tab⟩, fun o ho => absurd ho (hnone o),
    fun o _ ho => absurd ho (hnone o), fun n kind hn => ?_, fun _ _ => rfl⟩
  have hempty : ([] : List ObjectKind)[n]? = some kind := hn
  rw [List.getElem?_nil] at hempty
  cases hempty

theorem step_kern {b b' : Buch} {op : Op} (hstep : b.step op = some b') :
    b.kern.step op = some b'.kern := by
  obtain ⟨k, hk, rfl⟩ := Option.map_eq_some_iff.mp hstep
  rw [hk]
  cases b.kern.neu op <;> rfl

theorem run_kern {b b' : Buch} {ops : List Op} (hrun : run step b ops = some b') :
    run Kern.step b.kern ops = some b'.kern := by
  induction ops generalizing b with
  | nil =>
    cases hrun
    rfl
  | cons op ops ih =>
    obtain ⟨b₁, hstep, hrest⟩ := run_cons_eq_some.mp hrun
    rw [run_cons_of_step (step_kern hstep)]
    exact ih hrest

theorem step_ausgeglichen (b : Buch) (op : Op) (b' : Buch) (hb : b.Ausgeglichen)
    (hstep : b.step op = some b') : b'.Ausgeglichen := by
  obtain ⟨k, hk, rfl⟩ := Option.map_eq_some_iff.mp hstep
  have hinv := Kern.step_inv b.kern op k hb.inv hk
  cases hneu : b.kern.neu op with
  | none =>
    obtain ⟨kids, h⟩ := hb.inv
    exact hb.fortschreiben hinv (Kern.step_abgerechnet h hneu hk)
  | some new =>
    obtain ⟨o, kind⟩ := new
    obtain ⟨-, rights, c, he⟩ := Kern.neu_eq_some hneu hk
    exact hb.einbringen he hinv

theorem step_protokoll {b b' : Buch} {op : Op} (hstep : b.step op = some b') :
    b'.protokoll = b.protokoll ++ b.eintraege op ∧
      ∀ (n : Nat) (kind : ObjectKind), b.installiert[n]? = some kind →
        b'.installiert[n]? = some kind := by
  obtain ⟨k, hk, rfl⟩ := Option.map_eq_some_iff.mp hstep
  cases hneu : b.kern.neu op with
  | none => exact ⟨rfl, fun n kind hn => hn⟩
  | some new =>
    obtain ⟨o, kind⟩ := new
    have hnone := (Kern.neu_eq_some hneu hk).1
    refine ⟨?_, fun n kind' hn => ?_⟩
    · unfold eintraege
      rw [hnone]
      exact (List.append_nil _).symm
    · have hlt := (List.getElem?_eq_some_iff.mp hn).1
      exact (List.getElem?_append_left hlt).trans hn

theorem abschluesse_step {b b' : Buch} {op : Op} (hb : b.Ausgeglichen)
    (hstep : b.step op = some b') {n : Nat} {kind : ObjectKind}
    (hn : b.installiert[n]? = some kind) : (b.eintraege op).abschluesse n =
      if b.Lebt n ∧ ¬ b'.Lebt n then abschluss kind else [] := by
  obtain ⟨hlog, hkeep⟩ := step_protokoll hstep
  have hafter := (step_ausgeglichen b op b' hb hstep).einmal n kind (hkeep n kind hn)
  rw [hlog, Protokoll.abschluesse_append, hb.einmal n kind hn] at hafter
  by_cases hlebt : b.Lebt n <;> by_cases hlebt' : b'.Lebt n
  · simpa [hlebt, hlebt'] using hafter
  · simpa [hlebt, hlebt'] using hafter
  · have hboth : abschluss kind = [] ∧ (b.eintraege op).abschluesse n = [] := by
      simpa [hlebt, hlebt'] using hafter
    simp [hlebt, hboth.2]
  · simpa [hlebt, hlebt'] using hafter

/-- In every run each object has ended exactly if no slot names it any more: once, in the
deletion or revocation that took the last name.  The entries are all that deletions do to
the allocator and the report; each deleted control right is reported for itself. -/
theorem run_endet_einmal (tab : Tabellen) (alloc : PhysAllocator) (ops : List Op) (b : Buch)
    (hrun : run step (init tab alloc) ops = some b) :
    run Kern.step (Kern.init tab alloc) ops = some b.kern ∧
      (∀ n kind, b.installiert[n]? = some kind →
        b.protokoll.abschluesse n = if b.Lebt n then [] else abschluss kind) ∧
      (∀ op b', b.step op = some b' → b'.protokoll = b.protokoll ++ b.eintraege op ∧
        ((∀ p rf, op ≠ .delete p rf ∧ op ≠ .revoke p rf) → b.eintraege op = []) ∧
        ∀ n kind, b.installiert[n]? = some kind → (b.eintraege op).abschluesse n =
          if b.Lebt n ∧ ¬ b'.Lebt n then abschluss kind else []) ∧
      (∀ p rf (a : Abbau), a = ⟨b.kern.caps, b.kern.alloc, rf⟩ →
        (a.delete p).2.aussen = (b.kern.wirkungen (.delete p rf)).ausfuehren a.aussen ∧
        a.caps.Gemeldet (a.delete p).2.caps (b.kern.wirkungen (.delete p rf))) ∧
      ∀ p rf (a : Abbau), a = ⟨b.kern.caps, b.kern.alloc, rf⟩ →
        (a.revoke p).2.aussen = (b.kern.wirkungen (.revoke p rf)).ausfuehren a.aussen ∧
        a.caps.Gemeldet (a.revoke p).2.caps (b.kern.wirkungen (.revoke p rf)) := by
  have hb : b.Ausgeglichen := run_invariant_of_step step_ausgeglichen (ausgeglichen_init tab alloc) hrun
  obtain ⟨kids, h⟩ := hb.inv
  refine ⟨run_kern hrun, hb.einmal, fun op b' hstep => ⟨(step_protokoll hstep).1, fun hop => ?_,
    fun n kind hn => abschluesse_step hb hstep hn⟩, ?_, ?_⟩
  · unfold eintraege
    cases op with
    | delete p rf => exact absurd rfl (hop p rf).1
    | revoke p rf => exact absurd rfl (hop p rf).2
    | _ => rfl
  · rintro p rf a rfl
    exact ⟨Abbau.aussen_delete _ p, (Abbau.delete_abgerechnet (a := ⟨_, _, rf⟩) h p).2⟩
  · rintro p rf a rfl
    exact ⟨Abbau.aussen_revoke _ p, (Abbau.revoke_abgerechnet (a := ⟨_, _, rf⟩) h p).2⟩

/-- Entry 0 holds a DMA object, then a reply object: the first has ended, the second lives. -/
theorem run_endet_einmal_reused_entry :
    ∃ b, run step (init ⟨3, 3, by decide⟩ PhysAllocator.new)
        [Op.install (.dma 4096 64 .bidirectional .nonCoherent) Rights.rwx,
          Op.copy ⟨0, 0⟩ Rights.rw, Op.revoke ⟨0, 0⟩ (Finalized.new 3 3),
          Op.delete ⟨0, 0⟩ (Finalized.new 3 3), Op.install (.reply 1 2) Rights.rwx] = some b ∧
      b.protokoll.abschluesse 0 = [.dma 4096 64] ∧ b.protokoll.abschluesse 1 = [] := by
  have hread : (run step (init ⟨3, 3, by decide⟩ PhysAllocator.new)
      [Op.install (.dma 4096 64 .bidirectional .nonCoherent) Rights.rwx,
        Op.copy ⟨0, 0⟩ Rights.rw, Op.revoke ⟨0, 0⟩ (Finalized.new 3 3),
        Op.delete ⟨0, 0⟩ (Finalized.new 3 3), Op.install (.reply 1 2) Rights.rwx]).map
      (fun b => (b.installiert, decide (b.Lebt 0), decide (b.Lebt 1))) =
      some ([.dma 4096 64 .bidirectional .nonCoherent, .reply 1 2], false, true) := by
    decide +kernel
  obtain ⟨b, hb, hread⟩ := Option.map_eq_some_iff.mp hread
  simp only [Prod.mk.injEq, decide_eq_false_iff_not, decide_eq_true_eq] at hread
  obtain ⟨hinst, hdead, hlive⟩ := hread
  have hall := (run_endet_einmal _ _ _ b hb).2.1
  have h₀ := hall 0 (.dma 4096 64 .bidirectional .nonCoherent) (by rw [hinst]; rfl)
  have h₁ := hall 1 (.reply 1 2) (by rw [hinst]; rfl)
  rw [if_neg hdead] at h₀
  rw [if_pos hlive] at h₁
  exact ⟨b, hb, h₀, h₁⟩

/-- A control right is reported while two slots still name its object, and again with the
next deletion; the last deletion reports nothing. -/
theorem delete_reports_debug_while_named :
    (run Kern.step (Kern.init ⟨3, 3, by decide⟩ PhysAllocator.new)
      [Op.install (.debuggable 7) Rights.rwx, Op.copy ⟨0, 0⟩ Rights.rwx,
        Op.copy ⟨0, 0⟩ Rights.rwx]).map (fun k =>
        let a := (Abbau.delete ⟨k.caps, k.alloc, Finalized.mitDebug 3 3 3⟩ ⟨1, 0⟩).2
        let a' := (Abbau.delete ⟨a.caps, a.alloc, Finalized.mitDebug 3 3 3⟩ ⟨2, 0⟩).2
        let a'' := (Abbau.delete ⟨a'.caps, a'.alloc, Finalized.mitDebug 3 3 3⟩ ⟨0, 0⟩).2
        [(a.rf.debug, decide (a.caps.Benannt 0)), (a'.rf.debug, decide (a'.caps.Benannt 0)),
          (a''.rf.debug, decide (a''.caps.Benannt 0))]) =
      some [([7], true), ([7], true), ([], false)] := by
  decide +kernel

end Buch

end Caprock.Cap
