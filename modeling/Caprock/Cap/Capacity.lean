import Mathlib.Algebra.Group.Nat.Defs
import Mathlib.Data.Set.Card
import Caprock.Cap.Finalize

/-! # The size of the finalization report

An operation ends each object at most once, so the buffers for replies and DMA regions
need one entry for each object entry.  Control rights are reported slot by slot: what
`revoke` needs room for is the number of control rights below the revoked capability,
which the number of objects does not bound.
-/

namespace Caprock.Cap

open Mem Execution LinkedList

/-- `finalize_capacity`: the room each buffer of a report is asked to have. -/
def CapSpace.finalizeCapacity (s : CapSpace) : Nat := s.objects.len

namespace Wirkung

def alsReply : Wirkung → Option (Nat × Nat)
  | .reply ep caller => some (ep, caller)
  | _ => none

def alsDma : Wirkung → Option (Nat × Nat)
  | .dma phys len => some (phys, len)
  | _ => none

def alsDebug : Wirkung → Option Nat
  | .debug pd => some pd
  | _ => none

end Wirkung

namespace Protokoll

def replies (log : Protokoll) : List (Nat × Nat) := log.filterMap fun e => e.2.alsReply

def dmas (log : Protokoll) : List (Nat × Nat) := log.filterMap fun e => e.2.alsDma

def debugs (log : Protokoll) : List Nat := log.filterMap fun e => e.2.alsDebug

end Protokoll

namespace Finalized

def erweitert (rf : Finalized) (items dma : List (Nat × Nat)) (debug : List Nat) : Finalized :=
  ⟨rf.itemsLen, rf.items ++ items, rf.dmaLen, rf.dma ++ dma, rf.debugLen, rf.debug ++ debug,
    rf.overflow⟩

theorem erweitert_nil (rf : Finalized) : rf.erweitert [] [] [] = rf := by
  simp [erweitert]

theorem erweitert_erweitert (rf : Finalized) (items items' dma dma' : List (Nat × Nat))
    (debug debug' : List Nat) : (rf.erweitert items dma debug).erweitert items' dma' debug' =
      rf.erweitert (items ++ items') (dma ++ dma') (debug ++ debug') := by
  simp [erweitert]

/-- Each buffer has room for that many more entries. -/
def Platz (rf : Finalized) (items dma debug : Nat) : Prop :=
  rf.items.length + items ≤ rf.itemsLen ∧ rf.dma.length + dma ≤ rf.dmaLen ∧
    rf.debug.length + debug ≤ rf.debugLen

theorem push_of_platz {rf : Finalized} (h : rf.items.length < rf.itemsLen) (ep caller : Nat) :
    rf.push ep caller = rf.erweitert [(ep, caller)] [] [] := by
  rw [push, if_pos h]
  simp [erweitert]

theorem pushDma_of_platz {rf : Finalized} (h : rf.dma.length < rf.dmaLen) (phys len : Nat) :
    rf.pushDma phys len = rf.erweitert [] [(phys, len)] [] := by
  rw [pushDma, if_pos h]
  simp [erweitert]

theorem pushDebug_of_platz {rf : Finalized} (h : rf.debug.length < rf.debugLen) (pd : Nat) :
    rf.pushDebug pd = rf.erweitert [] [] [pd] := by
  rw [pushDebug, if_pos h]
  simp [erweitert]

/-- A report before its first entry. -/
def Frisch (rf : Finalized) : Prop :=
  rf.items = [] ∧ rf.dma = [] ∧ rf.debug = [] ∧ rf.overflow = false

def Vollstaendig (rf : Finalized) (log : Protokoll) : Prop :=
  rf.items = log.replies ∧ rf.dma = log.dmas ∧ rf.debug = log.debugs ∧ rf.overflow = false

end Finalized

namespace Finalized

theorem platz_erweitert {rf : Finalized} {items dma : List (Nat × Nat)} {debug : List Nat}
    {i d g : Nat} : (rf.erweitert items dma debug).Platz i d g ↔
      rf.Platz (items.length + i) (dma.length + d) (debug.length + g) := by
  simp [Platz, erweitert, Nat.add_assoc]

end Finalized

namespace Protokoll

theorem ausfuehren_cons (e : Nat × Wirkung) (log : Protokoll) (st : PhysAllocator × Finalized) :
    ausfuehren (e :: log) st = ausfuehren log (e.2.ausfuehren st) := rfl

theorem replies_cons (e : Nat × Wirkung) (log : Protokoll) :
    replies (e :: log) = replies [e] ++ replies log := List.filterMap_append (l := [e])

theorem dmas_cons (e : Nat × Wirkung) (log : Protokoll) :
    dmas (e :: log) = dmas [e] ++ dmas log := List.filterMap_append (l := [e])

theorem debugs_cons (e : Nat × Wirkung) (log : Protokoll) :
    debugs (e :: log) = debugs [e] ++ debugs log := List.filterMap_append (l := [e])

variable {st : PhysAllocator × Finalized}

theorem ausfuehren_einzeln (e : Nat × Wirkung)
    (h : st.2.Platz (replies [e]).length (dmas [e]).length (debugs [e]).length) :
    (e.2.ausfuehren st).2 = st.2.erweitert (replies [e]) (dmas [e]) (debugs [e]) := by
  obtain ⟨o, w⟩ := e
  obtain ⟨hitems, hdma, hdebug⟩ := h
  cases w with
  | frei region => exact st.2.erweitert_nil.symm
  | dma phys len => exact Finalized.pushDma_of_platz hdma phys len
  | reply ep caller => exact Finalized.push_of_platz hitems ep caller
  | debug pd => exact Finalized.pushDebug_of_platz hdebug pd

theorem overflow_einzeln (e : Nat × Wirkung) (hpasst : st.2.Platz 0 0 0)
    (h : ¬ st.2.Platz (replies [e]).length (dmas [e]).length (debugs [e]).length) :
    (e.2.ausfuehren st).2.overflow = true := by
  obtain ⟨o, w⟩ := e
  obtain ⟨hitems, hdma, hdebug⟩ := hpasst
  cases w with
  | frei region => exact absurd ⟨hitems, hdma, hdebug⟩ h
  | dma phys len =>
    have hfull : ¬ st.2.dma.length < st.2.dmaLen := fun hlt => h ⟨hitems, hlt, hdebug⟩
    show (st.2.pushDma phys len).overflow = true
    rw [Finalized.pushDma, if_neg hfull]
  | reply ep caller =>
    have hfull : ¬ st.2.items.length < st.2.itemsLen := fun hlt => h ⟨hlt, hdma, hdebug⟩
    show (st.2.push ep caller).overflow = true
    rw [Finalized.push, if_neg hfull]
  | debug pd =>
    have hfull : ¬ st.2.debug.length < st.2.debugLen := fun hlt => h ⟨hitems, hdma, hlt⟩
    show (st.2.pushDebug pd).overflow = true
    rw [Finalized.pushDebug, if_neg hfull]

theorem overflow_ausfuehren {log : Protokoll} (h : st.2.overflow = true) :
    (ausfuehren log st).2.overflow = true := by
  induction log generalizing st with
  | nil => exact h
  | cons e log ih =>
    rw [ausfuehren_cons]
    apply ih
    obtain ⟨o, w⟩ := e
    cases w with
    | frei region => exact h
    | dma phys len =>
      show (st.2.pushDma phys len).overflow = true
      unfold Finalized.pushDma
      split
      · exact h
      · rfl
    | reply ep caller =>
      show (st.2.push ep caller).overflow = true
      unfold Finalized.push
      split
      · exact h
      · rfl
    | debug pd =>
      show (st.2.pushDebug pd).overflow = true
      unfold Finalized.pushDebug
      split
      · exact h
      · rfl

theorem ausfuehren_of_platz {log : Protokoll}
    (h : st.2.Platz (replies log).length (dmas log).length (debugs log).length) :
    (ausfuehren log st).2 = st.2.erweitert (replies log) (dmas log) (debugs log) := by
  induction log generalizing st with
  | nil => exact st.2.erweitert_nil.symm
  | cons e log ih =>
    rw [replies_cons, dmas_cons, debugs_cons] at h ⊢
    simp only [List.length_append] at h
    have hone : st.2.Platz (replies [e]).length (dmas [e]).length (debugs [e]).length := by
      unfold Finalized.Platz at h ⊢
      omega
    have hst := ausfuehren_einzeln e hone
    rw [ausfuehren_cons, ih, hst, Finalized.erweitert_erweitert]
    rw [hst, Finalized.platz_erweitert]
    exact h

theorem overflow_of_not_platz {log : Protokoll} (hpasst : st.2.Platz 0 0 0)
    (h : ¬ st.2.Platz (replies log).length (dmas log).length (debugs log).length) :
    (ausfuehren log st).2.overflow = true := by
  induction log generalizing st with
  | nil => exact absurd hpasst h
  | cons e log ih =>
    rw [ausfuehren_cons]
    by_cases hone : st.2.Platz (replies [e]).length (dmas [e]).length (debugs [e]).length
    · have hst := ausfuehren_einzeln e hone
      rw [replies_cons, dmas_cons, debugs_cons] at h
      simp only [List.length_append] at h
      refine ih ?_ ?_
      · rw [hst, Finalized.platz_erweitert]
        exact hone
      · rw [hst, Finalized.platz_erweitert]
        exact h
    · exact overflow_ausfuehren (overflow_einzeln e hpasst hone)

theorem vollstaendig_iff {log : Protokoll} (hf : st.2.Frisch) :
    (ausfuehren log st).2.Vollstaendig log ↔
      (replies log).length ≤ st.2.itemsLen ∧ (dmas log).length ≤ st.2.dmaLen ∧
        (debugs log).length ≤ st.2.debugLen := by
  obtain ⟨hitems, hdma, hdebug, hover⟩ := hf
  have hiff : st.2.Platz (replies log).length (dmas log).length (debugs log).length ↔
      (replies log).length ≤ st.2.itemsLen ∧ (dmas log).length ≤ st.2.dmaLen ∧
        (debugs log).length ≤ st.2.debugLen := by
    simp [Finalized.Platz, hitems, hdma, hdebug]
  rw [← hiff]
  constructor
  · intro hv
    by_contra hnot
    have hlost := overflow_of_not_platz (by simp [Finalized.Platz, hitems, hdma, hdebug]) hnot
    rw [hv.2.2.2] at hlost
    cases hlost
  · intro h
    rw [ausfuehren_of_platz h]
    simp [Finalized.Vollstaendig, Finalized.erweitert, hitems, hdma, hdebug, hover]

end Protokoll

theorem length_abschluss_le (kind : ObjectKind) : (abschluss kind).length ≤ 1 := by
  cases kind <;> simp [abschluss]

namespace CapSpace

variable {s s' : CapSpace} {kids : Nat → List Nat} {log : Protokoll}

theorem Abgerechnet.countP_le (ha : Abgerechnet s s' log) (h : Inv s kids) :
    log.countP (fun e => e.2.istDebug = false) ≤ s.objects.len := by
  set enden := (log.filter fun e => e.2.istDebug = false).map Prod.fst with henden
  have hnodup : enden.Nodup := by
    rw [List.nodup_iff_count_le_one]
    intro o
    have hcount : enden.count o = (log.abschluesse o).length := by
      rw [henden, List.count_eq_countP, List.countP_map, List.countP_filter,
        Protokoll.abschluesse, List.length_map, ← List.countP_eq_length_filter]
      apply List.countP_congr
      intro e _
      simp
    rw [hcount, ha.abschluss]
    split
    · exact length_abschluss_le _
    · exact Nat.zero_le 1
  have hsub : enden ⊆ List.range s.objects.len := by
    intro o ho
    obtain ⟨e, he, rfl⟩ := List.mem_map.mp ho
    obtain ⟨he, hw⟩ := List.mem_filter.mp he
    have hnamed := Buch.benannt_of_mem ha he (of_decide_eq_true hw)
    rw [List.mem_range]
    exact (h.refcount _ ((h.benannt_iff _).mp hnamed)).1
  have hle := (hnodup.subperm hsub).length_le
  rw [List.length_range, henden, List.length_map, ← List.countP_eq_length_filter] at hle
  exact hle

theorem Abgerechnet.length_filterMap_le {β : Type} (ha : Abgerechnet s s' log) (h : Inv s kids)
    {f : Wirkung → Option β} (hf : ∀ w, (f w).isSome = true → w.istDebug = false) :
    (log.filterMap fun e => f e.2).length ≤ s.objects.len := by
  rw [List.length_filterMap_eq_countP]
  refine Nat.le_trans (List.countP_mono_left fun e _ he => ?_) (ha.countP_le h)
  exact decide_eq_true (hf e.2 he)

theorem Abgerechnet.length_replies_le (ha : Abgerechnet s s' log) (h : Inv s kids) :
    log.replies.length ≤ s.objects.len :=
  ha.length_filterMap_le h fun w hw => by cases w <;> first | rfl | cases hw

theorem Abgerechnet.length_dmas_le (ha : Abgerechnet s s' log) (h : Inv s kids) :
    log.dmas.length ≤ s.objects.len :=
  ha.length_filterMap_le h fun w hw => by cases w <;> first | rfl | cases hw

theorem Gemeldet.length_debugs (hg : Gemeldet s s' log) :
    log.debugs.length = (s.verloren s' fun _ => true).card := by
  rw [← hg.anzahl, Protokoll.debugs, List.length_filterMap_eq_countP, Protokoll.debugMeldungen]
  apply List.countP_congr
  intro e _
  cases e.2 <;> simp [Wirkung.alsDebug, Wirkung.istDebug]

theorem vollstaendig_iff_debugs {rf : Finalized} {al : PhysAllocator} (ha : Abgerechnet s s' log)
    (h : Inv s kids) (hf : rf.Frisch) (hitems : s.finalizeCapacity ≤ rf.itemsLen)
    (hdma : s.finalizeCapacity ≤ rf.dmaLen) :
    (log.ausfuehren (al, rf)).2.Vollstaendig log ↔ log.debugs.length ≤ rf.debugLen := by
  rw [Protokoll.vollstaendig_iff hf]
  exact ⟨fun hand => hand.2.2, fun hle => ⟨Nat.le_trans (ha.length_replies_le h) hitems,
    Nat.le_trans (ha.length_dmas_le h) hdma, hle⟩⟩

end CapSpace

namespace Abbau

open CapSpace

variable {a : Abbau} {kids : Nat → List Nat}

theorem verloren_self (s : CapSpace) (q : Nat → Bool) : s.verloren s q = ∅ := by
  rw [Finset.eq_empty_iff_forall_notMem]
  intro x hx
  obtain ⟨-, hf, -⟩ := mem_verloren.mp hx
  exact hf.2 hf.1

theorem card_verloren_delete_le (h : a.caps.Inv kids) (p : CapPtr) :
    (a.caps.verloren (a.delete p).2.caps fun _ => true).card ≤ a.caps.objects.len := by
  rcases delete_cases h p with heq | ⟨c, hc, -, heq⟩
  · rw [heq, verloren_self]
    exact Nat.zero_le _
  · have hsub : a.caps.verloren (a.delete p).2.caps (fun _ => true) ⊆ {c} := by
      intro x hx
      obtain ⟨-, ⟨hused, hgone⟩, -⟩ := mem_verloren.mp hx
      rw [heq, used_deleteLeaf] at hgone
      rw [Finset.mem_singleton]
      by_contra hne
      exact hgone ⟨hused, hne⟩
    have hpos := (h.refcount _ (h.object c hc)).1
    have hcard := Finset.card_le_card hsub
    rw [Finset.card_singleton] at hcard
    omega

/-- What `revoke` deletes of control rights: those below the revoked capability. -/
theorem coe_verloren_revoke (h : a.caps.Inv kids) {p : CapPtr} {i : Nat}
    (hres : a.caps.resolve p = .ok i) :
    (a.caps.verloren (a.revoke p).2.caps (fun _ => true) : Set Nat) =
      {x | Below a.caps.Used a.caps.links i x ∧ a.caps.Steuerrecht x} := by
  obtain ⟨kids', -, hinv', hg, hi, hfirst⟩ := revoke_spec h hres
  have hused := hg.used_iff hinv' hi hfirst
  ext x
  rw [Finset.mem_coe, mem_verloren, Set.mem_ofPred_eq, Freigegeben, hused]
  constructor
  · rintro ⟨-, ⟨hx, hnot⟩, hs, -⟩
    refine ⟨?_, hs⟩
    by_contra hb
    exact hnot ⟨hx, hb⟩
  · rintro ⟨hb, hs⟩
    have hx : a.caps.Used x := used_of_below hb
    exact ⟨h.bound x hx, ⟨hx, fun hand => hand.2 hb⟩, hs, rfl⟩

end Abbau

namespace Kern

open CapSpace

/-- With fresh buffers of at least the asked-for size the report of `delete` is always
complete, and that of `revoke` exactly if the control rights below the revoked capability
fit into the buffer for them. -/
theorem run_report_complete_iff (tab : Tabellen) (alloc : PhysAllocator) (ops : List Op) (k : Kern)
    (hrun : run step (init tab alloc) ops = some k) (rf : Finalized) (hfrisch : rf.Frisch)
    (hitems : k.caps.finalizeCapacity ≤ rf.itemsLen) (hdma : k.caps.finalizeCapacity ≤ rf.dmaLen)
    (hdebug : k.caps.finalizeCapacity ≤ rf.debugLen) (p : CapPtr) :
    (Abbau.delete ⟨k.caps, k.alloc, rf⟩ p).2.rf.Vollstaendig (k.wirkungen (.delete p rf)) ∧
      ((Abbau.revoke ⟨k.caps, k.alloc, rf⟩ p).2.rf.Vollstaendig (k.wirkungen (.revoke p rf)) ↔
        ∀ i, k.caps.resolve p = .ok i →
          {x | Below k.caps.Used k.caps.links i x ∧ k.caps.Steuerrecht x}.ncard ≤ rf.debugLen) := by
  obtain ⟨kids, h⟩ := run_inv hrun
  set a : Abbau := ⟨k.caps, k.alloc, rf⟩ with ha
  constructor
  · obtain ⟨hab, hge⟩ := Abbau.delete_abgerechnet (a := a) h p
    have hrf : (a.delete p).2.rf = ((a.deleteWirkungen p).ausfuehren (k.alloc, rf)).2 :=
      congrArg Prod.snd (Abbau.aussen_delete a p)
    show (a.delete p).2.rf.Vollstaendig (a.deleteWirkungen p)
    rw [hrf, vollstaendig_iff_debugs hab h hfrisch hitems hdma, hge.length_debugs]
    exact Nat.le_trans (Abbau.card_verloren_delete_le (a := a) h p) hdebug
  · obtain ⟨hab, hge⟩ := Abbau.revoke_abgerechnet (a := a) h p
    have hrf : (a.revoke p).2.rf = ((a.revokeWirkungen p).ausfuehren (k.alloc, rf)).2 :=
      congrArg Prod.snd (Abbau.aussen_revoke a p)
    show (a.revoke p).2.rf.Vollstaendig (a.revokeWirkungen p) ↔ _
    rw [hrf, vollstaendig_iff_debugs hab h hfrisch hitems hdma, hge.length_debugs,
      ← Set.ncard_coe_finset]
    rcases resolve_cases k.caps p with ⟨i, hres, -, -, -⟩ | hres
    · have hset := Abbau.coe_verloren_revoke (a := a) h hres
      rw [hset]
      constructor
      · intro hle j hj
        obtain rfl := Except.ok.inj (hres.symm.trans hj)
        exact hle
      · intro hall
        exact hall i hres
    · rw [Abbau.revoke_of_error (a := a) hres, Abbau.verloren_self]
      refine ⟨fun _ j hj => ?_, fun _ => by simp⟩
      rw [hres] at hj
      cases hj

/-- Three slots, one object entry: two derived control rights, buffers of the asked-for size
1, and the second report is lost. -/
theorem revoke_report_overflow :
    (run step (init ⟨3, 1, by decide⟩ PhysAllocator.new)
      [Op.install (.debuggable 7) Rights.rwx, Op.copy ⟨0, 0⟩ Rights.rwx,
        Op.copy ⟨0, 0⟩ Rights.rwx]).map (fun k =>
        let a := (Abbau.revoke ⟨k.caps, k.alloc, Finalized.mitDebug 1 1 1⟩ ⟨0, 0⟩).2
        (k.caps.finalizeCapacity, a.rf.debug, a.rf.overflow)) = some (1, [7], true) := by
  decide +kernel

/-- With one derived control right less the report is complete. -/
theorem run_report_complete_iff_one_right :
    ∃ k, run step (init ⟨3, 1, by decide⟩ PhysAllocator.new)
        [Op.install (.debuggable 7) Rights.rwx, Op.copy ⟨0, 0⟩ Rights.rwx] = some k ∧
      (Abbau.delete ⟨k.caps, k.alloc, Finalized.mitDebug 1 1 1⟩ ⟨1, 0⟩).2.rf.Vollstaendig
        (k.wirkungen (.delete ⟨1, 0⟩ (Finalized.mitDebug 1 1 1))) ∧
      {x | Below k.caps.Used k.caps.links 0 x ∧ k.caps.Steuerrecht x}.ncard ≤ 1 := by
  have hread : (run step (init ⟨3, 1, by decide⟩ PhysAllocator.new)
      [Op.install (.debuggable 7) Rights.rwx, Op.copy ⟨0, 0⟩ Rights.rwx]).map
      (fun k => (k.caps.finalizeCapacity, k.caps.resolve ⟨0, 0⟩,
        (Abbau.revoke ⟨k.caps, k.alloc, Finalized.mitDebug 1 1 1⟩ ⟨0, 0⟩).2.rf,
        k.wirkungen (.revoke ⟨0, 0⟩ (Finalized.mitDebug 1 1 1)))) =
      some (1, .ok 0, ⟨1, [], 1, [], 1, [7], false⟩, [(0, .debug 7)]) := by
    decide
  obtain ⟨k, hk, hread⟩ := Option.map_eq_some_iff.mp hread
  simp only [Prod.mk.injEq] at hread
  obtain ⟨hcap, hres, hrf, hlog⟩ := hread
  have hle : k.caps.finalizeCapacity ≤ 1 := Nat.le_of_eq hcap
  obtain ⟨hdelete, -⟩ := run_report_complete_iff _ _ _ k hk (Finalized.mitDebug 1 1 1)
    ⟨rfl, rfl, rfl, rfl⟩ hle hle hle ⟨1, 0⟩
  obtain ⟨-, hrevoke⟩ := run_report_complete_iff _ _ _ k hk (Finalized.mitDebug 1 1 1)
    ⟨rfl, rfl, rfl, rfl⟩ hle hle hle ⟨0, 0⟩
  refine ⟨k, hk, hdelete, hrevoke.mp ?_ 0 hres⟩
  rw [hrf, hlog]
  exact ⟨rfl, rfl, rfl, rfl⟩

end Kern

end Caprock.Cap
