import Mathlib.Data.List.Count
import Caprock.Cap.Capacity

/-! # Debug authority

A control right over a domain is a derived, writable capability on a `Debuggable` object of
that domain.  Each object has one root, so a revocation at the root takes every control
right on the object and reports each of them.  A domain may have several such objects; the
control rights on the others stay.
-/

namespace Caprock.Cap

open Mem Execution LinkedList

namespace CapSpace

variable {s s' : CapSpace} {kids : Nat → List Nat}

def anyDebugControlOver (s : CapSpace) (pd : Nat) : Bool :=
  (List.range s.slots.len).any fun i =>
    (s.slots.cell i).used && ((s.slots.cell i).rights.contains Rights.write &&
      ((s.parent i).isSome && (s.objects.cell (s.slots.cell i).object).kind = .debuggable pd))

/-- Slot `x` grants control over `pd`. -/
structure Steuert (s : CapSpace) (pd x : Nat) : Prop where
  lt : x < s.slots.len
  used : s.Used x
  recht : s.Steuerrecht x
  ziel : (s.objects.cell (s.daten x).object).kind = .debuggable pd

theorem anyDebugControlOver_iff {pd : Nat} :
    s.anyDebugControlOver pd = true ↔ ∃ x, s.Steuert pd x := by
  rw [anyDebugControlOver, List.any_eq_true]
  simp only [List.mem_range, Bool.and_eq_true, decide_eq_true_eq]
  constructor
  · rintro ⟨x, hlt, hused, hwrite, hparent, hkind⟩
    refine ⟨x, hlt, hused, ⟨?_, hwrite, hparent⟩, hkind⟩
    rw [hkind]
    rfl
  · rintro ⟨x, hlt, hused, ⟨-, hwrite, hparent⟩, hkind⟩
    exact ⟨x, hlt, hused, hwrite, hparent, hkind⟩

def Einwurzelig (s : CapSpace) : Prop :=
  ∀ x y, s.Used x → s.Used y → s.parent x = none → s.parent y = none →
    (s.daten x).object = (s.daten y).object → x = y

theorem Einwurzelig.erhalten (h : s.Einwurzelig) (he : Erhalten s s') : s'.Einwurzelig := by
  intro x y hx hy hpx hpy hobj
  rw [he.parent x hx] at hpx
  rw [he.parent y hy] at hpy
  rw [he.daten x hx, he.daten y hy] at hobj
  exact h x y (he.used x hx) (he.used y hy) hpx hpy hobj

theorem einwurzelig_attached (tab : Tabellen) : (attached tab).Einwurzelig := by
  intro x y hx
  cases hx

theorem Eingebracht.einwurzelig {kind : ObjectKind} {rights : Rights} {o c : Nat}
    (he : Eingebracht s s' kind rights o c) (hinv : Inv s kids) (h : s.Einwurzelig) :
    s'.Einwurzelig := by
  have hlinks := he.links (hinv.mdb_free he.freeSlot)
  have hparent : ∀ x, s'.parent x = s.parent x := fun x => congrFun (congrArg Links.parent hlinks) x
  -- Nothing named the new object before.
  have halt : ∀ x, s'.Used x → x ≠ c →
      s.Used x ∧ s'.daten x = s.daten x ∧ (s'.daten x).object ≠ o := by
    intro x hx hne
    have hdaten : s'.daten x = s.daten x := by rw [he.daten, if_neg hne]
    have hxu : s.Used x := by rwa [used_iff_daten, hdaten] at hx
    refine ⟨hxu, hdaten, fun heq => he.freeObject ?_⟩
    rw [hdaten] at heq
    exact heq ▸ hinv.object x hxu
  have hneu : (s'.daten c).object = o := by rw [he.daten, if_pos rfl]
  intro x y hx hy hpx hpy hobj
  by_cases hxc : x = c
  · by_contra hne
    have hyc : y ≠ c := fun heq => hne (hxc.trans heq.symm)
    rw [hxc, hneu] at hobj
    exact (halt y hy hyc).2.2 hobj.symm
  · by_cases hyc : y = c
    · rw [hyc, hneu] at hobj
      exact absurd hobj (halt x hx hxc).2.2
    · obtain ⟨hxu, hxd, -⟩ := halt x hx hxc
      obtain ⟨hyu, hyd, -⟩ := halt y hy hyc
      rw [hparent] at hpx hpy
      rw [hxd, hyd] at hobj
      exact h x y hxu hyu hpx hpy hobj

theorem Ableitung.einwurzelig (ha : Ableitung s s') (h : s.Einwurzelig) : s'.Einwurzelig := by
  rcases ha with rfl | ⟨p, c, rights, badge, fenster, -, ha, -⟩
  · exact h
  · have halt : ∀ x, s'.Used x → s'.parent x = none →
        s.Used x ∧ s.parent x = none ∧ s'.daten x = s.daten x := by
      intro x hx hpar
      rw [ha.parent] at hpar
      by_cases hxc : x = c
      · rw [if_pos hxc] at hpar
        cases hpar
      · rw [if_neg hxc] at hpar
        have hdaten : s'.daten x = s.daten x := by rw [ha.daten, if_neg hxc]
        rw [used_iff_daten, hdaten] at hx
        exact ⟨hx, hpar, hdaten⟩
    intro x y hx hy hpx hpy hobj
    obtain ⟨hxu, hpx, hxd⟩ := halt x hx hpx
    obtain ⟨hyu, hpy, hyd⟩ := halt y hy hpy
    rw [hxd, hyd] at hobj
    exact h x y hxu hyu hpx hpy hobj

theorem Verschoben.einwurzelig {i d : Nat} (hv : Verschoben s s' kids i d) (hi : s.Used i)
    (h : s.Einwurzelig) : s'.Einwurzelig := by
  -- Where the slots without a parent came from.
  let alt : Nat → Nat := fun x => if x = d then i else x
  have halt : ∀ x, s'.Used x → s'.parent x = none → x ≠ i ∧ s.Used (alt x) ∧
      s.parent (alt x) = none ∧ (s'.daten x).object = (s.daten (alt x)).object := by
    intro x hx hpar
    have hxi : x ≠ i := by
      rintro rfl
      rw [used_iff_daten, hv.daten, if_pos rfl] at hx
      cases hx
    rw [hv.parent, if_neg hxi] at hpar
    by_cases hxd : x = d
    · rw [if_pos hxd] at hpar
      have halt : alt x = i := if_pos hxd
      rw [halt]
      refine ⟨hxi, hi, hpar, ?_⟩
      rw [hxd, hv.daten_free hi]
    · have halt : alt x = x := if_neg hxd
      have hdaten := hv.daten_of_ne hxi hxd
      rw [if_neg hxd] at hpar
      rw [used_iff_daten, hdaten] at hx
      rw [halt, hdaten]
      refine ⟨hxi, hx, ?_, rfl⟩
      split at hpar
      · cases hpar
      · exact hpar
  intro x y hx hy hpx hpy hobj
  obtain ⟨hxi, hxu, hpx, hxo⟩ := halt x hx hpx
  obtain ⟨hyi, hyu, hpy, hyo⟩ := halt y hy hpy
  rw [hxo, hyo] at hobj
  have heq := h _ _ hxu hyu hpx hpy hobj
  by_cases hxd : x = d
  · by_cases hyd : y = d
    · rw [hxd, hyd]
    · rw [show alt x = i from if_pos hxd, show alt y = y from if_neg hyd] at heq
      exact absurd heq.symm hyi
  · by_cases hyd : y = d
    · rw [show alt x = x from if_neg hxd, show alt y = i from if_pos hyd] at heq
      exact absurd heq hxi
    · rwa [show alt x = x from if_neg hxd, show alt y = y from if_neg hyd] at heq

theorem Inv.eq_or_below (hinv : Inv s kids) (h : s.Einwurzelig) {r x : Nat} (hr : s.Used r)
    (hroot : s.parent r = none) (hx : s.Used x) (hobj : (s.daten x).object = (s.daten r).object) :
    x = r ∨ Below s.Used s.links r x := by
  obtain ⟨depth, hdepth⟩ := hinv.forest.acyclic
  induction hn : depth x using Nat.strong_induction_on generalizing x with
  | _ n ih =>
    cases hp : s.parent x with
    | none => exact .inl (h x r hx hr hp hroot hobj)
    | some p =>
      have hchild : Child s.Used s.links p x := ⟨hx, hp⟩
      have hpu := hinv.forest.parent_used x p hchild
      have hpobj : (s.daten p).object = (s.daten r).object :=
        (hinv.same_object p x hchild).symm.trans hobj
      rcases ih (depth p) (hn ▸ hdepth p x hchild) hpu hpobj rfl with rfl | hbelow
      · exact .inr (.single hchild)
      · exact .inr (.tail hbelow hchild)

theorem Inv.object_of_below (hinv : Inv s kids) {r x : Nat} (h : Below s.Used s.links r x) :
    (s.daten x).object = (s.daten r).object := by
  induction h with
  | single hc => exact hinv.same_object _ _ hc
  | tail _ hc ih => exact (hinv.same_object _ _ hc).trans ih

end CapSpace

namespace Kern

open CapSpace

theorem step_einwurzelig {k k' : Kern} {op : Op} {kids : Nat → List Nat} (hinv : k.caps.Inv kids)
    (h : k.caps.Einwurzelig) (hstep : k.step op = some k') : k'.caps.Einwurzelig := by
  refine (step_rule hinv h ?_ hstep).2
  intro s ks s' _ hinv h hs
  cases hs with
  | zurueckgerollt hz =>
    intro x y
    unfold Used CapSpace.parent daten
    rw [hz.slots]
    exact h x y
  | eingebracht he => exact he.einwurzelig hinv h
  | abgeleitet ha => exact ha.einwurzelig h
  | verschoben hi hv => exact hv.einwurzelig hi h
  | gezaehlt hz => exact h.erhalten (.of_nurZaehler hz)
  | geloescht ha hc hnil =>
    subst ha
    exact h.erhalten (.deleteLeaf hinv hc hnil)

def Gewurzelt (k : Kern) : Prop := (∃ kids, k.caps.Inv kids) ∧ k.caps.Einwurzelig

theorem step_gewurzelt (k : Kern) (op : Op) (k' : Kern) (h : k.Gewurzelt)
    (hstep : k.step op = some k') : k'.Gewurzelt := by
  obtain ⟨⟨kids, hinv⟩, hwurzel⟩ := h
  exact ⟨step_inv k op k' ⟨kids, hinv⟩ hstep, step_einwurzelig hinv hwurzel hstep⟩

theorem run_gewurzelt {tab : Tabellen} {alloc : PhysAllocator} {ops : List Op} {k : Kern}
    (hrun : run step (init tab alloc) ops = some k) : k.Gewurzelt :=
  run_invariant_of_step step_gewurzelt ⟨⟨_, attached_inv tab⟩, einwurzelig_attached tab⟩ hrun

end Kern

namespace Protokoll

theorem debug_ausfuehren {log : Protokoll} {st : PhysAllocator × Finalized}
    (h : st.2.debug.length + (debugs log).length ≤ st.2.debugLen) :
    (ausfuehren log st).2.debug = st.2.debug ++ debugs log := by
  induction log generalizing st with
  | nil => simp [ausfuehren, debugs]
  | cons e log ih =>
    have hone : (e.2.ausfuehren st).2.debug = st.2.debug ++ debugs [e] ∧
        (e.2.ausfuehren st).2.debugLen = st.2.debugLen := by
      obtain ⟨o, w⟩ := e
      rw [debugs_cons, List.length_append] at h
      cases w with
      | frei region => exact ⟨(List.append_nil _).symm, rfl⟩
      | dma phys len =>
        show (st.2.pushDma phys len).debug = _ ∧ (st.2.pushDma phys len).debugLen = _
        rw [Finalized.pushDma]
        split <;> exact ⟨(List.append_nil _).symm, rfl⟩
      | reply ep caller =>
        show (st.2.push ep caller).debug = _ ∧ (st.2.push ep caller).debugLen = _
        rw [Finalized.push]
        split <;> exact ⟨(List.append_nil _).symm, rfl⟩
      | debug pd =>
        have hroom : st.2.debug.length < st.2.debugLen := by
          have hlen : (debugs [(o, Wirkung.debug pd)]).length = 1 := rfl
          omega
        show (st.2.pushDebug pd).debug = _ ∧ (st.2.pushDebug pd).debugLen = _
        rw [Finalized.pushDebug, if_pos hroom]
        exact ⟨rfl, rfl⟩
    rw [debugs_cons] at h ⊢
    rw [List.length_append] at h
    rw [ausfuehren_cons, ih, hone.1, List.append_assoc]
    rw [hone.1, hone.2, List.length_append]
    omega

theorem length_debugs (log : Protokoll) :
    (debugs log).length = log.debugMeldungen fun _ => true := by
  rw [debugs, debugMeldungen, List.length_filterMap_eq_countP]
  apply List.countP_congr
  rintro ⟨o, w⟩ -
  cases w <;> simp [Wirkung.alsDebug, Wirkung.istDebug]

theorem count_debugs (kind : Nat → ObjectKind) {log : Protokoll}
    (hziel : ∀ e ∈ log, ∀ pd, e.2 = .debug pd → kind e.1 = .debuggable pd) (pd : Nat) :
    (debugs log).count pd = log.debugMeldungen fun o => decide (kind o = .debuggable pd) := by
  induction log with
  | nil => rfl
  | cons e log ih =>
    have hrest := ih fun e' he' => hziel e' (List.mem_cons_of_mem _ he')
    have hkopf := hziel e List.mem_cons_self
    obtain ⟨o, w⟩ := e
    rw [debugs_cons, List.count_append, hrest, debugMeldungen, debugMeldungen, List.countP_cons,
      Nat.add_comm]
    congr 1
    cases w with
    | debug pd' =>
      have hkind := hkopf pd' rfl
      have hone : debugs [(o, Wirkung.debug pd')] = [pd'] := rfl
      rw [hone, hkind]
      by_cases hpd : pd' = pd
      · simp [hpd, Wirkung.istDebug]
      · simp [hpd, Wirkung.istDebug]
    | _ => rfl

end Protokoll

namespace CapSpace

def steuerrechte (s : CapSpace) (o : Nat) : Finset Nat :=
  (Finset.range s.slots.len).filter fun x => s.Used x ∧ s.Steuerrecht x ∧ (s.daten x).object = o

variable {s s' : CapSpace} {kids kids' : Nat → List Nat}

/-- What stands of the control rights when exactly the slots below a root are gone. -/
structure Entzogen (s s' : CapSpace) (r : Nat) : Prop where
  allein : ∀ x, s'.Used x → (s'.daten x).object = (s.daten r).object → x = r
  steuert : ∀ q x, s'.Steuert q x ↔
    s.Steuert q x ∧ (s.daten x).object ≠ (s.daten r).object
  verloren : ∀ x, s.Freigegeben s' x ∧ s.Steuerrecht x ↔ x ∈ s.steuerrechte (s.daten r).object

theorem Inv.entzogen (hinv : Inv s kids) (hinv' : Inv s' kids') (h : s.Einwurzelig) {r : Nat}
    (hr : s.Used r) (hroot : s.parent r = none) (he : Erhalten s s')
    (hused : ∀ x, s'.Used x ↔ s.Used x ∧ ¬ Below s.Used s.links r x) :
    Entzogen s s' r := by
  have hallein : ∀ x, s'.Used x → (s'.daten x).object = (s.daten r).object → x = r := by
    intro x hx hobj
    obtain ⟨hxu, hnot⟩ := (hused x).mp hx
    rw [he.daten x hx] at hobj
    exact (hinv.eq_or_below h hr hroot hxu hobj).resolve_right hnot
  have hfelder : ∀ x, s'.Used x → (s'.Steuerrecht x ↔ s.Steuerrecht x) := by
    intro x hx
    obtain ⟨-, hobj, hrights, -, -⟩ := fields_of_daten (he.daten x hx)
    have hkind : (s'.objects.cell (s.slots.cell x).object).kind =
        (s.objects.cell (s.slots.cell x).object).kind := he.kind x hx
    unfold Steuerrecht
    rw [hobj, hrights, hkind, he.parent x hx]
  have hrecht : ∀ x, s.Steuerrecht x → x ≠ r := by
    rintro x ⟨-, -, hpar⟩ rfl
    rw [hroot] at hpar
    cases hpar
  refine ⟨hallein, fun q x => ⟨fun hx => ?_, fun ⟨hx, hne⟩ => ?_⟩, fun x => ?_⟩
  · have hxu := he.used x hx.used
    have hdaten := he.daten x hx.used
    have hs := (hfelder x hx.used).mp hx.recht
    refine ⟨⟨hinv.bound x hxu, hxu, hs, ?_⟩, fun hobj => hrecht x hs ?_⟩
    · have hziel := hx.ziel
      rwa [hdaten, he.kind x hx.used] at hziel
    · exact hallein x hx.used (by rw [hdaten, hobj])
  · have hx' : s'.Used x := (hused x).mpr ⟨hx.used, fun hb => hne (hinv.object_of_below hb)⟩
    refine ⟨hinv'.bound x hx', hx', (hfelder x hx').mpr hx.recht, ?_⟩
    rw [he.daten x hx', he.kind x hx']
    exact hx.ziel
  · rw [steuerrechte, Finset.mem_filter, Finset.mem_range]
    constructor
    · rintro ⟨⟨hxu, hgone⟩, hs⟩
      have hbelow : Below s.Used s.links r x := by
        by_contra hnot
        exact hgone ((hused x).mpr ⟨hxu, hnot⟩)
      exact ⟨hinv.bound x hxu, hxu, hs, hinv.object_of_below hbelow⟩
    · rintro ⟨-, hxu, hs, hobj⟩
      refine ⟨⟨hxu, fun hx => hrecht x hs ?_⟩, hs⟩
      exact hallein x hx (by rw [he.daten x hx, hobj])

end CapSpace

namespace Kern

open CapSpace

/-- In every reachable space, `revoke` at the root of a `Debuggable` object of `pd` leaves no
other slot that names the object; of the control rights, over any domain, exactly those on
other objects stay; and a report with room for the rights that are taken gets `pd` once for
each of them. -/
theorem run_revoke_debug (tab : Tabellen) (alloc : PhysAllocator) (ops : List Op) (k : Kern)
    (hrun : run step (init tab alloc) ops = some k) (p : CapPtr) (r pd : Nat)
    (hres : k.caps.resolve p = .ok r) (hroot : k.caps.parent r = none)
    (hkind : (k.caps.objects.cell (k.caps.daten r).object).kind = .debuggable pd) (rf : Finalized)
    (hroom : rf.debug.length + (k.caps.steuerrechte (k.caps.daten r).object).card ≤ rf.debugLen) :
    (Abbau.revoke ⟨k.caps, k.alloc, rf⟩ p).1 = .ok () ∧
      (Abbau.revoke ⟨k.caps, k.alloc, rf⟩ p).2.caps.Used r ∧
      (∀ x, (Abbau.revoke ⟨k.caps, k.alloc, rf⟩ p).2.caps.Used x →
        ((Abbau.revoke ⟨k.caps, k.alloc, rf⟩ p).2.caps.daten x).object =
          (k.caps.daten r).object → x = r) ∧
      (∀ q, (Abbau.revoke ⟨k.caps, k.alloc, rf⟩ p).2.caps.anyDebugControlOver q = true ↔
        ∃ x, k.caps.Steuert q x ∧ (k.caps.daten x).object ≠ (k.caps.daten r).object) ∧
      (∀ x, k.caps.Freigegeben (Abbau.revoke ⟨k.caps, k.alloc, rf⟩ p).2.caps x ∧
        k.caps.Steuerrecht x ↔ x ∈ k.caps.steuerrechte (k.caps.daten r).object) ∧
      (Abbau.revoke ⟨k.caps, k.alloc, rf⟩ p).2.rf.debug = rf.debug ++
        List.replicate (k.caps.steuerrechte (k.caps.daten r).object).card pd := by
  obtain ⟨⟨kids, hinv⟩, hwurzel⟩ := run_gewurzelt hrun
  have hr := Abbau.used_of_resolve hres
  obtain ⟨kids', hok, hinv', hg, hru, hfirst⟩ :=
    Abbau.revoke_spec (a := ⟨k.caps, k.alloc, rf⟩) hinv hres
  have hgemeldet := (Abbau.revoke_abgerechnet (a := ⟨k.caps, k.alloc, rf⟩) hinv p).2
  have haussen := Abbau.aussen_revoke ⟨k.caps, k.alloc, rf⟩ p
  set a' := (Abbau.revoke ⟨k.caps, k.alloc, rf⟩ p).2 with ha'
  set log := Abbau.revokeWirkungen ⟨k.caps, k.alloc, rf⟩ p with hlog
  have hent := hinv.entzogen hinv' hwurzel hr hroot hg.erhalten (hg.used_iff hinv' hru hfirst)
  refine ⟨hok, hru, hent.allein, fun q => ?_, hent.verloren, ?_⟩
  · simp only [anyDebugControlOver_iff, hent.steuert]
  · -- All control rights that are lost are on the object of `r`.
    have hverloren : ∀ f : Nat → Bool, (k.caps.verloren a'.caps f).card =
        if f (k.caps.daten r).object then (k.caps.steuerrechte (k.caps.daten r).object).card
        else 0 := by
      intro f
      have hmem : ∀ x, x ∈ k.caps.verloren a'.caps f ↔
          x ∈ k.caps.steuerrechte (k.caps.daten r).object ∧
            f (k.caps.daten r).object = true := by
        intro x
        rw [mem_verloren, ← and_assoc, ← and_assoc, and_assoc (a := x < k.caps.slots.len), hent.verloren,
          steuerrechte, Finset.mem_filter, Finset.mem_range]
        constructor
        · rintro ⟨⟨-, hlt, hxu, hs, hobj⟩, hf⟩
          exact ⟨⟨hlt, hxu, hs, hobj⟩, hobj ▸ hf⟩
        · rintro ⟨⟨hlt, hxu, hs, hobj⟩, hf⟩
          exact ⟨⟨hlt, hlt, hxu, hs, hobj⟩, hobj.symm ▸ hf⟩
      by_cases hf : f (k.caps.daten r).object = true
      · rw [if_pos hf]
        congr 1
        ext x
        rw [hmem, and_iff_left hf]
      · rw [if_neg hf, Finset.card_eq_zero, Finset.eq_empty_iff_forall_notMem]
        exact fun x hx => hf ((hmem x).mp hx).2
    have hanzahl : log.debugs.length = (k.caps.steuerrechte (k.caps.daten r).object).card := by
      rw [Protokoll.length_debugs, hgemeldet.anzahl, hverloren, if_pos rfl]
    have hziel : ∀ q ∈ log.debugs, q = pd := by
      intro q hq
      have hpos := List.count_pos_iff.mpr hq
      rw [Protokoll.count_debugs (fun o => (k.caps.objects.cell o).kind) hgemeldet.ziel, hgemeldet.anzahl, hverloren] at hpos
      rw [hkind] at hpos
      by_contra hne
      simp [Ne.symm hne] at hpos
    have hdebug : a'.rf.debug = rf.debug ++ log.debugs := by
      have hrf : a'.rf = (Protokoll.ausfuehren log (k.alloc, rf)).2 := congrArg Prod.snd haussen
      rw [hrf]
      exact Protokoll.debug_ausfuehren (by rw [hanzahl]; exact hroom)
    rw [hdebug, List.eq_replicate_iff.mpr ⟨hanzahl, hziel⟩]

/-- The root of a domain with two derived rights, one of them to control it. -/
theorem run_revoke_debug_two_children :
    (run step (init ⟨4, 4, by decide⟩ PhysAllocator.new)
      [.install (.debuggable 7) Rights.rwx, .copy ⟨0, 0⟩ Rights.rw, .copy ⟨0, 0⟩ Rights.read]).map
        (fun k => (Abbau.revoke ⟨k.caps, k.alloc, Finalized.mitDebug 4 4 4⟩ ⟨0, 0⟩).2.rf.debug) =
      some [7] := by
  have hread : (run step (init ⟨4, 4, by decide⟩ PhysAllocator.new)
      [.install (.debuggable 7) Rights.rwx, .copy ⟨0, 0⟩ Rights.rw, .copy ⟨0, 0⟩ Rights.read]).map
        (fun k => (k.caps.resolve ⟨0, 0⟩, k.caps.parent 0, (k.caps.daten 0).object,
          (k.caps.objects.cell 0).kind, (k.caps.steuerrechte 0).card)) =
      some (.ok 0, none, 0, .debuggable 7, 1) := by
    decide +kernel
  obtain ⟨k, hk⟩ : ∃ k, run step (init ⟨4, 4, by decide⟩ PhysAllocator.new)
      [.install (.debuggable 7) Rights.rwx, .copy ⟨0, 0⟩ Rights.rw, .copy ⟨0, 0⟩ Rights.read] =
        some k := ⟨_, rfl⟩
  rw [hk] at hread ⊢
  simp only [Option.map_some, Option.some.injEq, Prod.mk.injEq] at hread ⊢
  obtain ⟨hres, hroot, hobj, hkind, hcard⟩ := hread
  obtain ⟨-, -, -, -, -, hdebug⟩ := run_revoke_debug _ _ _ k hk ⟨0, 0⟩ 0 7 hres hroot
    (by rw [hobj]; exact hkind) (Finalized.mitDebug 4 4 4) (by rw [hobj, hcard]; decide)
  rw [hdebug, hobj, hcard]
  rfl

/-- Two roots for one domain: after the revocation at the first the right derived from the
second still controls it. -/
theorem revoke_debug_leaves_second_root :
    (run step (init ⟨4, 4, by decide⟩ PhysAllocator.new)
      [.install (.debuggable 7) Rights.rwx, .install (.debuggable 7) Rights.rwx,
        .copy ⟨0, 0⟩ Rights.rw, .copy ⟨1, 0⟩ Rights.rw]).map
      (fun k => (k.caps.parent 0, (k.caps.objects.cell (k.caps.daten 0).object).kind,
        (Abbau.revoke ⟨k.caps, k.alloc, Finalized.mitDebug 4 4 4⟩ ⟨0, 0⟩).1,
        (Abbau.revoke ⟨k.caps, k.alloc, Finalized.mitDebug 4 4 4⟩ ⟨0, 0⟩).2.caps.anyDebugControlOver 7)) =
      some (none, .debuggable 7, .ok (), true) := by
  decide +kernel

end Kern

end Caprock.Cap
