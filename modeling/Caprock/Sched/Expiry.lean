import Caprock.Lib.Alarm
import Caprock.Sched.Earliest
import Caprock.Sched.Reachable
import Caprock.Sched.Records

/-! # What one scan for due deadlines does

A deadline is ripe when it is due and the reason it guards still stands.  The scan goes through the
slots in order.  As long as the output has room it releases the ripe ones, each from its guarded
reason, and disarms the due ones whose reason is gone; the rest stays as it is.  Whoever is released
from its last reason goes to the end of its ready list, and the lists do not change otherwise.  The
next deadline the scan leaves is not later than any deadline that is still armed.
-/

namespace Caprock.Sched

open Execution

namespace Scheduler

def reife (s : Scheduler) (k : Nat) : List Nat :=
  (List.range k).filter fun x => decide (s.FristFaellig x)

/-- The output has room when the scan comes to slot `x`. -/
def Platz (s : Scheduler) (outLen x : Nat) : Prop := s.faelligeVor x < outLen

instance (s : Scheduler) (outLen x : Nat) : Decidable (s.Platz outLen x) :=
  inferInstanceAs (Decidable (_ < _))

/-- No deadline of the core is armed for a time before its next deadline. -/
def Deckt (s : Scheduler) : Prop :=
  ∀ x, x < s.tcbs.len → (s.tcb x).used = true → (s.tcb x).frist ≠ 0 →
    s.naechsteFrist ≤ (s.tcb x).frist

def NichtVersaeumt (s : Scheduler) : Prop :=
  s.now < s.naechsteFrist → ∀ x, x < s.tcbs.len → ¬ (s.tcb x).Faellig s.now

/-- Only the blocks, the ready lists, the next deadline and the count of those put off differ. -/
structure NurFristen (s s' : Scheduler) : Prop where
  rest : s' = { s with
    tcbs := s'.tcbs, queues := s'.queues, bitmap := s'.bitmap
    fristenUeberlauf := s'.fristenUeberlauf, naechsteFrist := s'.naechsteFrist }
  len : s'.tcbs.len = s.tcbs.len

/-- Slot `x` has priority `p`, is in no list, and is free to run once it is released. -/
def FreiFuer (s : Scheduler) (x p : Nat) : Prop :=
  (s.tcb x).freigegeben.reasons = ∅ ∧ (s.tcb x).queued = none ∧ (s.tcb x).priority = p

instance (s : Scheduler) (x p : Nat) : Decidable (s.FreiFuer x p) :=
  inferInstanceAs (Decidable (_ ∧ _ ∧ _))

/-- Whom the scan of the slots below `k` links into ready list `p`. -/
def anschluss (s : Scheduler) (outLen k p : Nat) : List Nat :=
  ((s.reife k).take outLen).filter fun x => decide (s.FreiFuer x p)

/-- What a call of `fristen_faellig` with room for `outLen` threads has to do. -/
structure FristenGenau (s : Scheduler) (outLen : Nat) (out : List ThreadId) (s' : Scheduler) :
    Prop where
  /-- The first `outLen` ripe threads are reported. -/
  out : out = ((s.reife s.tcbs.len).take outLen).map s.id
  /-- These lose the guarded reason and the deadline. -/
  befreit : ∀ x, x < s.tcbs.len → s.FristFaellig x → s.Platz outLen x →
    s'.daten x = (s.tcb x).freigegeben.ohneLinks
  /-- A due deadline whose reason is gone is disarmed, and the thread is not reported. -/
  signal : ∀ x, x < s.tcbs.len → (s.tcb x).Faellig s.now → (s.tcb x).fristGrundSteht = false →
    s.Platz outLen x → s'.daten x = (s.tcb x).entwaffnet.ohneLinks
  /-- All others are left alone, armed as they were. -/
  ruht : ∀ x, x < s.tcbs.len → ¬ (s.tcb x).Faellig s.now ∨ ¬ s.Platz outLen x →
    s'.daten x = s.daten x
  /-- The running thread, the clock and all else that is not listed here are left alone, too. -/
  rest : NurFristen s s'
  geordnet : s.Geordnet → s'.Geordnet
  /-- The released threads join the end of their lists in the order of the slots. -/
  listen : s.Geordnet → ∀ p, s'.bereit p = s.bereit p ++ s.anschluss outLen s.tcbs.len p
  /-- Whoever is released from its last reason is in its ready list. -/
  eingereiht : s.Geordnet → ∀ x, x < s.tcbs.len → s.FristFaellig x → s.Platz outLen x →
    (s'.tcb x).reasons = ∅ → x ∈ s'.bereit (s.tcb x).priority
  /-- What stays armed is found by a later call. -/
  naechste : s.naechsteFrist ≤ s.now ∨ s.Deckt → s'.Deckt

variable {s s' : Scheduler} {outLen k x i : Nat} {l l' : FristLauf} {g : Grund}

theorem reife_succ (s : Scheduler) (k : Nat) :
    s.reife (k + 1) = s.reife k ++ if s.FristFaellig k then [k] else [] := by
  unfold reife
  rw [List.range_succ, List.filter_append]
  by_cases hreif : s.FristFaellig k
  · simp [hreif]
  · simp [hreif]

theorem length_reife (s : Scheduler) (k : Nat) : (s.reife k).length = s.faelligeVor k :=
  List.countP_eq_length_filter.symm

theorem take_reife_succ (s : Scheduler) (outLen k : Nat) :
    (s.reife (k + 1)).take outLen =
      (s.reife k).take outLen ++ if s.FristFaellig k ∧ s.Platz outLen k then [k] else [] := by
  rw [reife_succ, List.take_append, length_reife]
  by_cases hplatz : s.Platz outLen k
  · have hroom : 0 < outLen - s.faelligeVor k := Nat.sub_pos_of_lt hplatz
    by_cases hreif : s.FristFaellig k
    · rw [if_pos hreif, if_pos ⟨hreif, hplatz⟩, List.take_of_length_le (l := [k])]
      exact hroom
    · rw [if_neg hreif, if_neg fun hand => hreif hand.1, List.take_nil]
  · have hfull : outLen - s.faelligeVor k = 0 := Nat.sub_eq_zero_of_le (Nat.le_of_not_lt hplatz)
    rw [if_neg fun hand : _ ∧ _ => hplatz hand.2, hfull, List.take_zero]

theorem anschluss_succ (s : Scheduler) (outLen k p : Nat) :
    s.anschluss outLen (k + 1) p = s.anschluss outLen k p ++
      if (s.FristFaellig k ∧ s.Platz outLen k) ∧ s.FreiFuer k p then [k] else [] := by
  unfold anschluss
  rw [take_reife_succ, List.filter_append]
  by_cases hreif : s.FristFaellig k ∧ s.Platz outLen k
  · by_cases hfrei : s.FreiFuer k p
    · simp [hreif, hfrei]
    · simp [hreif, hfrei]
  · simp [hreif]

namespace NurFristen

theorem refl (s : Scheduler) : NurFristen s s := ⟨rfl, rfl⟩

theorem trans {s'' : Scheduler} (h : NurFristen s s') (h' : NurFristen s' s'') :
    NurFristen s s'' := by
  refine ⟨?_, h'.len.trans h.len⟩
  have hrest := h'.rest
  rw [h.rest] at hrest
  exact hrest

theorem now (h : NurFristen s s') : s'.now = s.now := by rw [h.rest]

theorem of_nurListen (h : NurListen s s') : NurFristen s s' := by
  refine ⟨?_, h.len⟩
  rw [h.rest]

theorem modifyTcb (s : Scheduler) (i : Nat) (f : Tcb → Tcb) : NurFristen s (s.modifyTcb i f) :=
  ⟨rfl, rfl⟩

theorem fristFreigeben (h : s.fristFreigeben i g = some s') : NurFristen s s' := by
  have hfree : NurFristen s ((s.fristEntwaffnen i).removeReason i g) :=
    (modifyTcb s i _).trans (modifyTcb _ i _)
  unfold Scheduler.fristFreigeben at h
  dsimp only at h
  split at h
  · exact hfree.trans (of_nurListen (nurListen_enqueueReady h))
  · cases h
    exact hfree

theorem fristSchritt (h : fristSchritt outLen l k = some l') : NurFristen l.sched l'.sched := by
  rcases fristSchritt_cases h with ⟨-, -, n, hsched⟩ | ⟨-, -, hsched⟩ | ⟨-, -, g, -, -, hfree⟩
  · rw [hsched]
    exact ⟨rfl, rfl⟩
  · rw [hsched]
    exact modifyTcb l.sched k _
  · exact fristFreigeben hfree

end NurFristen

/-- Whom a deadline releases from the last reason goes to the end of its list. -/
theorem Ordnung.fristFreigeben {m : Nat → List Nat} (hs : Ordnung s m)
    (hi : (s.tcb i).used = true) (hg : (s.tcb i).fristGrund = some g)
    (h : s.fristFreigeben i g = some s') :
    Ordnung s' fun p => m p ++ if s.FreiFuer i p then [i] else [] := by
  have hblock : ((s.fristEntwaffnen i).removeReason i g).tcb i =
      { (s.tcb i).entwaffnet with reasons := (s.tcb i).reasons.erase g } := by
    unfold fristEntwaffnen setFrist removeReason
    rw [tcb_modifyTcb, if_pos rfl, tcb_modifyTcb, if_pos rfl]
    rfl
  have hfree : Ordnung ((s.fristEntwaffnen i).removeReason i g) m := by
    refine Ordnung.modifyTcb (Ordnung.modifyTcb hs i fun t => ?_) i fun t => ?_
    · exact ⟨rfl, rfl, rfl, rfl, rfl⟩
    · exact ⟨rfl, rfl, rfl, rfl, rfl⟩
  have hfrei : ∀ p, s.FreiFuer i p ↔ ((s.tcb i).reasons.erase g = ∅ ∧ (s.tcb i).queued = none) ∧
      (s.tcb i).priority = p := by
    intro p
    unfold FreiFuer
    rw [Tcb.reasons_freigegeben hg, and_assoc]
  unfold Scheduler.fristFreigeben at h
  dsimp only at h
  rw [hblock] at h
  split at h
  · next hlink =>
    rcases enqueueReady_cases h with ⟨-, hqueued⟩ | ⟨q, he⟩
    · rw [hblock] at hqueued
      exact absurd hlink.2 hqueued
    · have hprio := he.prio
      rw [hblock] at hprio
      have hlinked := hfree.einreihen he (by rwa [hblock])
      convert hlinked using 1
      funext p
      by_cases hp : p = q
      · rw [hp, Function.update_self, if_pos ((hfrei q).mpr ⟨hlink, hprio⟩)]
      · rw [Function.update_of_ne hp, if_neg fun hf => hp (((hfrei p).mp hf).2.symm.trans hprio),
          List.append_nil]
  · next hstay =>
    cases h
    convert hfree using 1
    funext p
    rw [if_neg fun hf => hstay ((hfrei p).mp hf).1, List.append_nil]

/-- The scan has passed the slots below `k`. -/
structure Abgearbeitet (s : Scheduler) (outLen k : Nat) (l : FristLauf) : Prop where
  out : l.out = ((s.reife k).take outLen).map s.id
  rest : NurFristen s l.sched
  befreit : ∀ x, x < k → s.FristFaellig x → s.Platz outLen x →
    l.sched.daten x = (s.tcb x).freigegeben.ohneLinks
  signal : ∀ x, x < k → (s.tcb x).Faellig s.now → (s.tcb x).fristGrundSteht = false →
    s.Platz outLen x → l.sched.daten x = (s.tcb x).entwaffnet.ohneLinks
  ruht : ∀ x, x < k → ¬ (s.tcb x).Faellig s.now ∨ ¬ s.Platz outLen x →
    l.sched.daten x = s.daten x
  offen : ∀ x, k ≤ x → l.sched.daten x = s.daten x
  listen : ∀ m, Ordnung s m → Ordnung l.sched fun p => m p ++ s.anschluss outLen k p

theorem Abgearbeitet.voll_iff (hl : Abgearbeitet s outLen k l) :
    l.out.length = outLen ↔ ¬ s.Platz outLen k := by
  rw [hl.out, List.length_map, List.length_take, length_reife]
  unfold Platz
  omega

theorem Abgearbeitet.links (hl : Abgearbeitet s outLen k l) :
    (l.sched.tcb k).ohneLinks = (s.tcb k).ohneLinks := hl.offen k (Nat.le_refl k)

/-- Slot `k` is left alone. -/
theorem Abgearbeitet.weiter (hl : Abgearbeitet s outLen k l) (hout : l'.out = l.out) {n : Nat}
    (hsched : l'.sched = { l.sched with fristenUeberlauf := n })
    (hk : ¬ (s.tcb k).Faellig s.now ∨ ¬ s.Platz outLen k) : Abgearbeitet s outLen (k + 1) l' := by
  have hnot : ¬ (s.FristFaellig k ∧ s.Platz outLen k) :=
    fun hand => hk.elim (fun hn => hn (fristFaellig_iff.mp hand.1).1) fun hn => hn hand.2
  have hrest : NurFristen l.sched l'.sched := by
    rw [hsched]
    exact ⟨rfl, rfl⟩
  have hdaten : ∀ x, l'.sched.daten x = l.sched.daten x := by
    intro x
    rw [hsched]
    rfl
  refine ⟨?_, hl.rest.trans hrest, fun x hx hreif hplatz => ?_,
    fun x hx hdue hgone hplatz => ?_, fun x hx hstay => ?_, fun x hx => ?_, fun m hm => ?_⟩
  · rw [hout, hl.out, take_reife_succ, if_neg hnot, List.append_nil]
  · rw [hdaten]
    refine hl.befreit x (Nat.lt_of_le_of_ne (Nat.le_of_lt_succ hx) ?_) hreif hplatz
    rintro rfl
    exact hnot ⟨hreif, hplatz⟩
  · rw [hdaten]
    refine hl.signal x (Nat.lt_of_le_of_ne (Nat.le_of_lt_succ hx) ?_) hdue hgone hplatz
    rintro rfl
    exact hk.elim (fun hn => hn hdue) fun hn => hn hplatz
  · rw [hdaten]
    rcases Nat.lt_or_ge x k with hlt | hge
    · exact hl.ruht x hlt hstay
    · exact hl.offen x hge
  · rw [hdaten]
    exact hl.offen x (Nat.le_of_succ_le hx)
  · simp only [anschluss_succ, if_neg fun hand : _ ∧ _ => hnot hand.1, List.append_nil]
    rw [hsched]
    exact (hl.listen m hm).congr rfl rfl rfl rfl fun _ => ⟨rfl, rfl, rfl, rfl, rfl⟩

/-- Slot `k` is released or disarmed; `neu` is its block then. -/
theorem Abgearbeitet.wirkt (hl : Abgearbeitet s outLen k l) {neu : Tcb}
    (hw : Wirkt l.sched l'.sched k neu)
    (hout : l'.out = l.out ++ if s.FristFaellig k then [s.id k] else [])
    (hdue : (s.tcb k).Faellig s.now) (hplatz : s.Platz outLen k)
    (hneu : neu.ohneLinks = (if (s.tcb k).fristGrundSteht then (s.tcb k).freigegeben
      else (s.tcb k).entwaffnet).ohneLinks)
    (hrest : NurFristen l.sched l'.sched)
    (hlisten : ∀ m, Ordnung l.sched m →
      Ordnung l'.sched fun p => m p ++ if s.FristFaellig k ∧ s.FreiFuer k p then [k] else []) :
    Abgearbeitet s outLen (k + 1) l' := by
  have hother : ∀ x, x ≠ k → l'.sched.daten x = l.sched.daten x := hw.rest
  have hlt : ∀ x, x < k + 1 → x ≠ k → x < k := fun x hx hne => by omega
  refine ⟨?_, hl.rest.trans hrest, fun x hx hreif hroom => ?_,
    fun x hx hlate hgone hroom => ?_, fun x hx hstay => ?_, fun x hx => ?_, fun m hm => ?_⟩
  · rw [hout, hl.out, take_reife_succ]
    by_cases hreif : s.FristFaellig k
    · rw [if_pos hreif, if_pos ⟨hreif, hplatz⟩, List.map_append, List.map_singleton]
    · rw [if_neg hreif, if_neg fun hand : _ ∧ _ => hreif hand.1, List.append_nil, List.append_nil]
  · by_cases hxk : x = k
    · subst hxk
      rw [hw.slot, hneu, if_pos (fristFaellig_iff.mp hreif).2]
    · rw [hother x hxk]
      exact hl.befreit x (hlt x hx hxk) hreif hroom
  · by_cases hxk : x = k
    · subst hxk
      rw [hw.slot, hneu, hgone, if_neg Bool.false_ne_true]
    · rw [hother x hxk]
      exact hl.signal x (hlt x hx hxk) hlate hgone hroom
  · by_cases hxk : x = k
    · subst hxk
      exact absurd hplatz (hstay.resolve_left fun hn => hn hdue)
    · rw [hother x hxk]
      exact hl.ruht x (hlt x hx hxk) hstay
  · rw [hother x (by omega)]
    exact hl.offen x (Nat.le_of_succ_le hx)
  · have hboth := hlisten _ (hl.listen m hm)
    simp only [List.append_assoc] at hboth
    simp only [anschluss_succ, hplatz, and_true]
    exact hboth

/-- One step of the scan. -/
theorem Abgearbeitet.schritt (hl : Abgearbeitet s outLen k l)
    (h : fristSchritt outLen l k = some l') : Abgearbeitet s outLen (k + 1) l' := by
  have hlinks := hl.links
  have hf := fun {α : Type} (f : Tcb → α) => congrArg f hlinks
  have hnow := hl.rest.now
  have hrest := NurFristen.fristSchritt h
  have hdue : (l.sched.tcb k).Faellig l.sched.now ↔ (s.tcb k).Faellig s.now := by
    rw [hnow]
    exact Tcb.faellig_of_links hlinks
  have hroom : l.out.length ≠ outLen → s.Platz outLen k := fun hne =>
    not_not.mp fun hfull => hne (hl.voll_iff.mpr hfull)
  rcases fristSchritt_cases h with
    ⟨hnot, hout, n, hsched⟩ | ⟨⟨hlate, hgone, hne⟩, hout, hsched⟩ |
      ⟨⟨hripe, hne⟩, hout, g, hg, -, hfree⟩
  · refine hl.weiter hout hsched ?_
    exact hnot.imp (fun hearly hlate => hearly (hdue.mpr hlate)) hl.voll_iff.mp
  · have hgone' : (s.tcb k).fristGrundSteht = false := (hf Tcb.fristGrundSteht).symm.trans hgone
    have hnot : ¬ s.FristFaellig k := fun hreif =>
      Bool.false_ne_true (hgone'.symm.trans (fristFaellig_iff.mp hreif).2)
    have hw : Wirkt l.sched l'.sched k (l.sched.tcb k).entwaffnet :=
      hsched ▸ Wirkt.modifyTcb l.sched k _
    refine hl.wirkt hw ?_ (hdue.mp hlate) (hroom hne) ?_ hrest fun m hm => ?_
    · rw [hout, if_neg hnot, List.append_nil]
    · rw [hgone', if_neg Bool.false_ne_true]
      exact congrArg Tcb.entwaffnet hlinks
    · simp only [hnot, false_and, if_false, List.append_nil]
      rw [hsched]
      exact hm.modifyTcb k fun _ => ⟨rfl, rfl, rfl, rfl, rfl⟩
  · have hreif : s.FristFaellig k := (fristFaellig_of_daten hlinks hnow).mp hripe
    obtain ⟨hlate, hsteht⟩ := fristFaellig_iff.mp hreif
    have hid : l.sched.id k = s.id k := hf fun t => ThreadId.mk t.gid t.gen
    have hfrei : ∀ p, l.sched.FreiFuer k p ↔ s.FreiFuer k p := fun p => iff_of_eq (hf fun t =>
      t.freigegeben.reasons = ∅ ∧ t.queued = none ∧ t.priority = p)
    refine hl.wirkt (wirkt_fristFreigeben hg hfree) ?_ hlate (hroom hne) ?_ hrest fun m hm => ?_
    · rw [hout, if_pos hreif, hid]
    · rw [if_pos hsteht]
      exact congrArg Tcb.freigegeben hlinks
    · have hlinked := hm.fristFreigeben hripe.1 hg hfree
      simp only [hreif, true_and]
      simpa only [hfrei] using hlinked

theorem abgearbeitet_zero (s : Scheduler) (outLen : Nat) :
    Abgearbeitet s outLen 0 ⟨s, 2 ^ 64 - 1, []⟩ where
  out := by simp [reife]
  rest := NurFristen.refl s
  befreit := fun _ hx => absurd hx (Nat.not_lt_zero _)
  signal := fun _ hx => absurd hx (Nat.not_lt_zero _)
  ruht := fun _ hx => absurd hx (Nat.not_lt_zero _)
  offen := fun _ _ => rfl
  listen := fun m hm => by simpa [anschluss, reife] using hm

/-- A released thread without a further reason is linked: it was, or the scan has done it. -/
theorem Ordnung.mem_bereit_befreit {m : Nat → List Nat} (hs : Ordnung s m) (hs' : s'.Geordnet)
    (hdaten : s'.daten x = (s.tcb x).freigegeben.ohneLinks) (hfree : (s'.tcb x).reasons = ∅) :
    x ∈ s'.bereit (s.tcb x).priority := by
  have hf := fun {α : Type} (f : Tcb → α) => congrArg f hdaten
  have hreasons : (s'.tcb x).reasons = (s.tcb x).freigegeben.reasons := hf Tcb.reasons
  have hqueued : (s'.tcb x).queued = (s.tcb x).freigegeben.queued := hf Tcb.queued
  have hlinked : (s.tcb x).freigegeben.queued = some (s.tcb x).priority := by
    have hrest : (s.tcb x).fristGrund.elim (s.tcb x).reasons (s.tcb x).reasons.erase = ∅ :=
      hreasons.symm.trans hfree
    unfold Tcb.freigegeben
    dsimp only
    rw [hrest]
    cases hq : (s.tcb x).queued with
    | none => simp
    | some p => simp [(hs.prio p x hq).2]
  obtain ⟨m', hs'⟩ := hs'
  rw [hs'.bereit_eq, hs'.mem, hqueued, hlinked]

theorem fristenFaellig_genau {out : List ThreadId} (hs : s.NichtVersaeumt)
    (h : s.fristenFaellig outLen = some (out, s')) : s.FristenGenau outLen out s' := by
  unfold fristenFaellig at h
  split at h
  · next hearly =>
    obtain ⟨rfl, rfl⟩ := Prod.mk.inj (Option.some.inj h)
    have hnone := hs hearly
    have hripe : ∀ x, x < s.tcbs.len → ¬ s.FristFaellig x :=
      fun x hx hreif => hnone x hx (fristFaellig_iff.mp hreif).1
    have hempty : s.reife s.tcbs.len = [] := by
      unfold reife
      rw [List.filter_eq_nil_iff]
      exact fun x hx hreif => hripe x (List.mem_range.mp hx) (of_decide_eq_true hreif)
    refine ⟨?_, fun x hx hreif _ => absurd hreif (hripe x hx),
      fun x hx hdue _ _ => absurd hdue (hnone x hx), fun _ _ _ => rfl, NurFristen.refl s, fun hord => hord,
      fun _ p => ?_, fun _ x hx hreif _ _ => absurd hreif (hripe x hx), fun hcover => ?_⟩
    · rw [hempty, List.take_nil, List.map_nil]
    · rw [anschluss, hempty, List.take_nil, List.filter_nil, List.append_nil]
    · exact hcover.resolve_left (Nat.not_le.mpr hearly)
  · obtain ⟨l, hrun, htuple⟩ := Option.map_eq_some_iff.mp h
    obtain ⟨rfl, rfl⟩ := Prod.mk.inj htuple
    have hscan : Abgearbeitet s outLen s.tcbs.len l :=
      run_range_invariant (fun _ _ _ hl hk => Abgearbeitet.schritt hl hk)
        (abgearbeitet_zero s outLen) hrun
    have hsearch : FristSuche s s.tcbs.len l :=
      run_range_invariant (fun _ _ _ hl hk => FristSuche.schritt hl hk)
        ⟨FristRuhe.refl s, fun x hx => absurd hx (Nat.not_lt_zero x)⟩ hrun
    have hlast : NurFristen l.sched { l.sched with naechsteFrist := l.naechste } := ⟨rfl, rfl⟩
    have hrest := hscan.rest.trans hlast
    have hlisten : ∀ m, Ordnung s m → Ordnung { l.sched with naechsteFrist := l.naechste }
        fun p => m p ++ s.anschluss outLen s.tcbs.len p := fun m hm =>
      (hscan.listen m hm).congr rfl rfl rfl rfl fun _ => ⟨rfl, rfl, rfl, rfl, rfl⟩
    refine ⟨hscan.out, hscan.befreit, hscan.signal, hscan.ruht, hrest, ?_, ?_, ?_,
      fun _ x hx hused hfrist => hsearch.vorne x (hrest.len ▸ hx) hused hfrist⟩
    · rintro ⟨m, hm⟩
      exact ⟨_, hlisten m hm⟩
    · rintro ⟨m, hm⟩ p
      rw [(hlisten m hm).bereit_eq, hm.bereit_eq]
    · rintro ⟨m, hm⟩ x hx hreif hplatz
      exact hm.mem_bereit_befreit ⟨_, hlisten m hm⟩ (hscan.befreit x hx hreif hplatz)

theorem fristSchritt_of_lt (hprio : (l.sched.tcb k).priority < nprio) :
    ∃ l', fristSchritt outLen l k = some l' := by
  unfold fristSchritt
  dsimp only
  split
  · exact ⟨_, rfl⟩
  · split
    · exact ⟨_, rfl⟩
    · exact ⟨_, rfl⟩
    · exact ⟨_, rfl⟩
    · split
      · exact ⟨_, rfl⟩
      · next g hg =>
        unfold fristFreigeben
        dsimp only
        split
        · have hsame : (((l.sched.fristEntwaffnen k).removeReason k g).tcb k).priority =
              (l.sched.tcb k).priority := by
            simp [removeReason, fristEntwaffnen, setFrist, tcb_modifyTcb]
          obtain ⟨s', hs'⟩ := enqueueReady_of_lt (hsame.symm ▸ hprio)
          exact ⟨_, by rw [hs']; rfl⟩
        · exact ⟨_, rfl⟩

theorem fristenFaellig_of_lt (hprio : ∀ x, x < s.tcbs.len → (s.tcb x).priority < nprio)
    (outLen : Nat) : ∃ r, s.fristenFaellig outLen = some r := by
  have hrun : ∀ n, n ≤ s.tcbs.len → ∃ l, Abgearbeitet s outLen n l ∧
      run (fristSchritt outLen) ⟨s, 2 ^ 64 - 1, []⟩ (List.range n) = some l := by
    intro n hn
    induction n with
    | zero => exact ⟨_, abgearbeitet_zero s outLen, rfl⟩
    | succ n ih =>
      obtain ⟨l, hl, hrun⟩ := ih (Nat.le_of_succ_le hn)
      have hlinks := congrArg Tcb.priority hl.links
      have hsame : (l.sched.tcb n).priority = (s.tcb n).priority := hlinks
      obtain ⟨l', hl'⟩ : ∃ l', fristSchritt outLen l n = some l' :=
        fristSchritt_of_lt (hsame ▸ hprio n hn)
      refine ⟨l', hl.schritt hl', ?_⟩
      rw [List.range_succ, run_append, hrun, Option.bind_some, run_cons_of_step hl', run_nil]
  obtain ⟨l, -, hl⟩ := hrun s.tcbs.len (Nat.le_refl _)
  unfold fristenFaellig
  split
  · exact ⟨_, rfl⟩
  · exact ⟨_, by rw [hl]; rfl⟩

theorem FristenGenau.beendet_iff {out : List ThreadId} (h : s.FristenGenau outLen out s')
    (hx : x < s.tcbs.len) :
    Beendet s s' x ↔ s.FristFaellig x ∧ s.Platz outLen x := by
  have hsame : s'.daten x = s.daten x → ¬ Beendet s s' x := by
    intro hdaten hend
    have hreasons := congrArg Tcb.reasons hdaten
    exact hend hreasons
  constructor
  · intro hend
    by_cases hdue : (s.tcb x).Faellig s.now
    · by_cases hplatz : s.Platz outLen x
      · refine ⟨fristFaellig_iff.mpr ⟨hdue, ?_⟩, hplatz⟩
        by_contra hgone
        have hdaten := h.signal x hx hdue (Bool.eq_false_of_not_eq_true hgone) hplatz
        have hreasons := congrArg Tcb.reasons hdaten
        exact hend hreasons
      · exact absurd hend (hsame (h.ruht x hx (.inr hplatz)))
    · exact absurd hend (hsame (h.ruht x hx (.inl hdue)))
  · rintro ⟨hreif, hplatz⟩ heq
    have hdaten := congrArg Tcb.reasons (h.befreit x hx hreif hplatz)
    have hreasons : (s'.tcb x).reasons = (s.tcb x).freigegeben.reasons := hdaten
    have hsteht := (fristFaellig_iff.mp hreif).2
    unfold Tcb.fristGrundSteht at hsteht
    cases hg : (s.tcb x).fristGrund with
    | none =>
      rw [hg] at hsteht
      cases hsteht
    | some g =>
      rw [hg] at hsteht
      rw [hreasons, Tcb.reasons_freigegeben hg] at heq
      exact Finset.notMem_erase g _ (heq.symm ▸ of_decide_eq_true hsteht)

end Scheduler

open Scheduler

/-- The events of deadlines: the thread arms its own, the scan releases it, or the deadline is
disarmed. -/
def fristereignis : Beobachtung Alarm.Event
  | _, s, _, .fristSetzen ticks _, x =>
      if s.current = some x then (if ticks = 0 then [.disarm] else [.arm]) else []
  | v, s, _, .fristLoeschen tid, x => if s.resolve v tid = some x then [.disarm] else []
  | _, s, s', .fristenFaellig _, x =>
      if Beendet s s' x then [.fire]
      else if (s'.tcb x).frist ≠ (s.tcb x).frist then [.disarm] else []
  | _, _, _, _, _ => []

namespace Protokoll

def Gestellt (h : List Alarm.Event) (t : Tcb) : Prop :=
  Alarm.Once h ∧ (t.frist ≠ 0 → h.getLast? = some .arm)

variable {h : List Alarm.Event} {t t' : Tcb} {v : Verzeichnis} {s s' : Scheduler} {x : Nat}

theorem Gestellt.gleich (hg : Gestellt h t) (hfrist : t'.frist ≠ 0 → t'.frist = t.frist) :
    Gestellt h t' :=
  ⟨hg.1, fun hne => hg.2 (hfrist hne ▸ hne)⟩

theorem Gestellt.arm (hg : Gestellt h t) : Gestellt (h ++ [.arm]) t' :=
  ⟨hg.1.concat fun heq => Alarm.Event.noConfusion heq, fun _ => List.getLast?_concat⟩

theorem Gestellt.disarm (hg : Gestellt h t) (hzero : t'.frist = 0) :
    Gestellt (h ++ [.disarm]) t' :=
  ⟨hg.1.concat fun heq => Alarm.Event.noConfusion heq, fun hne => absurd hzero hne⟩

theorem Gestellt.fire (hg : Gestellt h t) (harmed : t.frist ≠ 0) (hzero : t'.frist = 0) :
    Gestellt (h ++ [.fire]) t' :=
  ⟨hg.1.concat fun _ => hg.2 harmed, fun hne => absurd hzero hne⟩

theorem gestellt_fristSetzen {ticks : Nat} {g : Grund} (hg : Gestellt h (s.tcb x))
    (hcall : s.fristSetzen ticks g = some s') :
    Gestellt (h ++ fristereignis v s s' (.fristSetzen ticks g) x) (s'.tcb x) := by
  unfold fristereignis
  dsimp only
  unfold Scheduler.fristSetzen at hcall
  split at hcall
  · cases hcall
  · next cur hcur =>
    rw [hcur]
    have hset : ∀ d gr, ((s.setFrist cur d gr).tcb x).frist =
        if x = cur then d else (s.tcb x).frist := by
      intro d gr
      unfold setFrist
      rw [tcb_modifyTcb]
      split <;> rfl
    by_cases hx : x = cur
    · subst hx
      rw [if_pos rfl]
      split at hcall
      · next hticks =>
        cases hcall
        rw [if_pos hticks]
        exact hg.disarm ((hset 0 none).trans (if_pos rfl))
      · next hticks =>
        rw [if_neg hticks]
        exact hg.arm
    · rw [if_neg fun heq => hx (Option.some.inj heq).symm, List.append_nil]
      split at hcall
      · cases hcall
        exact hg.gleich fun _ => (hset _ _).trans (if_neg hx)
      · cases hcall
        exact hg.gleich fun _ => (hset _ _).trans (if_neg hx)

theorem gestellt_fristLoeschen (hg : Gestellt h (s.tcb x)) (tid : ThreadId) :
    Gestellt (h ++ fristereignis v s (s.fristLoeschen v tid) (.fristLoeschen tid) x)
      ((s.fristLoeschen v tid).tcb x) := by
  unfold fristereignis Scheduler.fristLoeschen
  dsimp only
  cases hi : s.resolve v tid with
  | none =>
    rw [if_neg fun heq => Option.some_ne_none _ heq.symm, List.append_nil]
    exact hg
  | some i =>
    unfold fristEntwaffnen setFrist
    rw [tcb_modifyTcb]
    by_cases hx : x = i
    · rw [if_pos hx, if_pos (congrArg some hx.symm)]
      exact hg.disarm rfl
    · rw [if_neg hx, if_neg fun heq => hx (Option.some.inj heq).symm, List.append_nil]
      exact hg

theorem gestellt_fristenFaellig {outLen : Nat} {out : List ThreadId} (hg : Gestellt h (s.tcb x))
    (hcall : s.fristenFaellig outLen = some (out, s')) :
    Gestellt (h ++ fristereignis v s s' (.fristenFaellig outLen) x) (s'.tcb x) := by
  unfold fristereignis
  dsimp only
  obtain ⟨-, ⟨hfrist, -, hreasons⟩ | ⟨hzero, hreasons | ⟨hne, g, hgrund, hmem, hreasons⟩⟩⟩ :=
    (fristenFaellig_spec hcall).1 x
  · rw [if_neg fun hend => hend hreasons, if_neg (not_not.mpr hfrist), List.append_nil]
    exact hg.gleich fun _ => hfrist
  · rw [if_neg fun hend => hend hreasons]
    split
    · exact hg.disarm hzero
    · next hsame =>
      rw [List.append_nil]
      exact hg.gleich fun _ => not_not.mp hsame
  · have hend : Beendet s s' x := fun heq =>
      Finset.notMem_erase g _ ((heq.symm.trans hreasons) ▸ hmem)
    rw [if_pos hend]
    exact hg.fire hne hzero

theorem duldsam_frist :
    Duldsam (fun t t' => t'.used = t.used ∧ t'.frist = t.frist) (fun _ => True) fun _ => True where
  trans := fun h h' => ⟨h'.1.trans h.1, h'.2.trans h.2⟩
  neben := fun hused hwarten => ⟨hused, congrArg (fun w => w.2.1) hwarten⟩
  setzen := fun _ => ⟨rfl, rfl⟩
  loesen := fun _ => ⟨rfl, rfl⟩

theorem gesetz_frist : Aktengesetz fristereignis Gestellt
    (fun t t' => t'.used = t.used ∧ t'.frist = t.frist) (fun _ => True) fun _ => True where
  duldsam := duldsam_frist
  ein_budget := trivial
  aus_budget := trivial
  used := And.left
  gleich := fun hg hsame => hg.gleich fun _ => hsame.2
  neu := by
    rintro t ⟨gid, gen, sp, priority, base, len, rfl⟩
    exact ⟨Alarm.once_nil, fun hne => absurd rfl hne⟩
  aufruf := by
    intro v s s' a x h hcall _ hg
    by_cases ha : a.Fristlos
    · have hnone : fristereignis v s s' a x = [] := by
        cases a <;> first | rfl | exact ha.elim
      rw [hnone, List.append_nil]
      exact hg.gleich fun hne => ((FristRuhe.aufruf hcall ha).frist x hne).1
    · cases a with
      | fristSetzen ticks g => exact gestellt_fristSetzen hg hcall
      | fristLoeschen tid =>
        cases hcall
        exact gestellt_fristLoeschen hg tid
      | fristenFaellig outLen =>
        obtain ⟨out, hcall⟩ := map_snd_eq_some hcall
        exact gestellt_fristenFaellig hg hcall
      | _ => exact absurd trivial ha

/-- Expiry is exact in every state in which the scan is not left out wrongly, and in every run the
ready lists stay in order and every arming of a deadline fires at most once. -/
theorem fristen_laufen_genau_ab :
    (∀ (s : Scheduler) (outLen : Nat), s.NichtVersaeumt →
      (∀ out s', s.fristenFaellig outLen = some (out, s') → s.FristenGenau outLen out s' ∧
        ∀ x, x < s.tcbs.len → (Beendet s s' x ↔ s.FristFaellig x ∧ s.Platz outLen x)) ∧
      ((∀ x, x < s.tcbs.len → (s.tcb x).priority < nprio) →
        ∃ r, s.fristenFaellig outLen = some r)) ∧
    ∀ (a : Ausbau) (ops : List Op) (P : Protokoll Alarm.Event),
      run (step fristereignis) (init Alarm.Event a) ops = some P →
        (∀ c, (P.system.cores c).Geordnet) ∧
          ∀ c x, ((P.system.cores c).tcb x).used = true → Alarm.Once (P.akte c x) := by
  refine ⟨fun s outLen hs => ⟨fun out s' h => ?_, fun hprio => fristenFaellig_of_lt hprio outLen⟩,
    fun a ops P hrun => ?_⟩
  · have hgenau := fristenFaellig_genau hs h
    exact ⟨hgenau, fun x hx => hgenau.beendet_iff hx⟩
  · have hinv := run_inv gesetz_frist hrun
    exact ⟨fun c => (hinv.gut.1 c).1, fun c x hused => (hinv.passt c x hused).1⟩

/-- A parked thread whose deadline is due is released and linked into its ready list. -/
theorem fristen_laufen_genau_ab_parked :
    ∃ S out s', run System.step (System.init ⟨2, 2, by decide⟩)
        [.initCore 0 0, .spawn 0 100 0 16 1, .aufruf 0 (.onTick 50 false),
          .aufruf 0 (.fristSetzen 1 .park), .aufruf 0 (.parkCurrent 60),
          .aufruf 0 (.onTick 70 true)] = some S ∧
      (S.cores 0).fristenFaellig 4 = some (out, s') ∧ out = [⟨1, 0⟩] ∧ s'.bereit 1 = [1] ∧
      (S.cores 0).FristenGenau 4 out s' := by
  have hread : (run System.step (System.init ⟨2, 2, by decide⟩)
      [.initCore 0 0, .spawn 0 100 0 16 1, .aufruf 0 (.onTick 50 false),
        .aufruf 0 (.fristSetzen 1 .park), .aufruf 0 (.parkCurrent 60),
        .aufruf 0 (.onTick 70 true)]).map
      (fun S => ((S.cores 0).now, (S.cores 0).naechsteFrist,
        ((S.cores 0).fristenFaellig 4).map fun r => (r.1, r.2.bereit 1))) =
      some (1, 1, some ([⟨1, 0⟩], [1])) := by
    decide +kernel
  obtain ⟨S, hS, heq⟩ := Option.map_eq_some_iff.mp hread
  simp only [Prod.mk.injEq] at heq
  obtain ⟨hnow, hnaechste, hout⟩ := heq
  obtain ⟨⟨out, s'⟩, hscan, hread⟩ := Option.map_eq_some_iff.mp hout
  obtain ⟨rfl, hlist⟩ := Prod.mk.inj hread
  have hnot : (S.cores 0).NichtVersaeumt := fun hearly => by omega
  exact ⟨S, _, s', hS, hscan, rfl, hlist, ((fristen_laufen_genau_ab.1 _ 4 hnot).1 _ _ hscan).1⟩

/-- A deadline whose thread does not wait any more is disarmed without waking anybody. -/
theorem signal_is_disarmed_without_waking :
    (run System.step (System.init ⟨2, 2, by decide⟩)
        [.initCore 0 0, .aufruf 0 (.fristSetzen 1 .park), .aufruf 0 (.onTick 50 true)]).map
      (fun S => (decide (((S.cores 0).tcb 0).Faellig (S.cores 0).now),
        ((S.cores 0).tcb 0).fristGrundSteht,
        ((S.cores 0).fristenFaellig 4).map fun r => (r.1, (r.2.tcb 0).frist))) =
      some (true, false, some ([], 0)) := by
  decide

end Protokoll

end Caprock.Sched
