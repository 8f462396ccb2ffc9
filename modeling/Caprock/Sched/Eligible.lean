import Caprock.Sched.Runnable
import Caprock.Sched.Scan

/-! # Only eligible threads are queued

The law: a queued thread has no reason to wait, has budget and does not run.  Three places
link a thread without looking at all of this: `admit` looks at nothing, a deadline looks
at the reasons only, and a tick charges an account without taking its owner out of the
list and links an exhausted thread that runs on a borrowed account.  `Zulaessig` is the
condition on these steps; every other step keeps the law.
-/

namespace Caprock.Sched

open Execution Scheduler

/-- A queued thread may run and does not run already; the running thread awaits no message. -/
def Geeignet (c : Option Nat) (x : Nat) (t : Tcb) : Prop :=
  (t.queued ≠ none → t.reasons = ∅ ∧ t.depleted = false ∧ c ≠ some x) ∧
    (c = some x → .ipc ∉ t.reasons)

theorem Geeignet.not_queued {c : Option Nat} {x : Nat} {t : Tcb} (h : Geeignet c x t)
    (hr : t.reasons ≠ ∅) : t.queued = none := by
  by_contra hq
  exact hr (h.1 hq).1

theorem Geeignet.of_current {x : Nat} {t : Tcb} (h : Geeignet (some x) x t) : t.queued = none := by
  by_contra hq
  exact (h.1 hq).2.2 rfl

theorem geeignet_of_free {c : Option Nat} {x : Nat} {t : Tcb} (hq : t.queued = none)
    (hipc : c = some x → .ipc ∉ t.reasons) : Geeignet c x t :=
  ⟨fun hne => absurd hq hne, hipc⟩

theorem Geeignet.gelockert {c : Option Nat} {x : Nat} {t t' : Tcb} (h : Geeignet c x t)
    (ht : Gelockert t t') : Geeignet c x t' := by
  refine ⟨fun hq => ?_, fun hc hmem => h.2 hc (ht.reasons hmem)⟩
  rw [ht.queued] at hq
  obtain ⟨hr, hdep, hcur⟩ := h.1 hq
  refine ⟨Finset.subset_empty.mp (hr ▸ ht.reasons), ?_, hcur⟩
  cases hd : t'.depleted with
  | false => rfl
  | true => exact absurd (hdep.symm.trans (ht.depleted hd)) Bool.false_ne_true

theorem vertraeglich_geeignet : Vertraeglich Geeignet where
  same := by
    intro c x t t' h hQ
    unfold Geeignet
    rw [h.queued, h.reasons, h.depleted]
    exact hQ
  wake := by
    intro c x t t' h hQ
    rcases h.queued with ⟨hrun, hq⟩ | ⟨-, hq⟩
    · exact ⟨fun _ => hrun, fun hc => absurd hc hrun.2.2⟩
    · exact hQ.gelockert ⟨h.used, h.admitted, h.reasons, h.depleted, hq⟩
  hold := by
    intro c x t t' g hg hr hq hQ
    refine geeignet_of_free hq fun hc => ?_
    rw [hr, Finset.mem_insert, not_or]
    exact ⟨hg.symm, hQ.2 hc⟩
  exchange := by
    intro c x t t' hne hr hq hQ
    refine geeignet_of_free (hq.trans (hQ.not_queued hne)) fun _ => ?_
    rw [hr, Finset.mem_insert, not_or]
    exact ⟨by decide, Finset.notMem_erase _ _⟩
  deliver := by
    intro c x t t' hne hipc hr hdep hq hQ
    have hc : c ≠ some x := by
      intro hc
      refine hne ?_
      rw [Finset.erase_eq_of_notMem (hQ.2 hc)] at hipc
      exact hipc
    exact ⟨fun _ => ⟨hr, hdep, hc⟩, fun heq => absurd heq hc⟩
  empty := by
    intro c x
    exact geeignet_of_free rfl fun _ => Finset.notMem_empty _
  leave := by
    intro c x t hc hQ
    exact ⟨fun hq => ⟨(hQ.1 hq).1, (hQ.1 hq).2.1, (Option.some_ne_none x).symm⟩, fun heq => nomatch heq⟩
  enter := by
    intro n x t hn hQ
    have hc : some n ≠ some x := fun heq => hn (Option.some.inj heq)
    exact ⟨fun hq => ⟨(hQ.1 hq).1, (hQ.1 hq).2.1, hc⟩, fun heq => absurd heq hc⟩
  block := by
    intro x t t' g hr hq hQ
    exact geeignet_of_free (hq.trans hQ.of_current) fun heq => nomatch heq
  dispatch := by
    intro x t t' hq hr hq' hQ
    refine geeignet_of_free hq' fun _ => ?_
    rw [hr, (hQ.1 hq).1]
    exact Finset.notMem_empty _
  direct := by
    intro x t hr hq
    refine geeignet_of_free hq fun _ => ?_
    rw [hr]
    exact Finset.notMem_empty _

theorem gesetz_geeignet : Gesetz fun _ => Geeignet where
  block := fun _ => vertraeglich_geeignet
  mono := fun _ hQ => hQ
  fresh := by
    intro idle c x t _ hc _ hq
    exact geeignet_of_free hq fun heq => absurd heq hc
  ready := by
    intro idle c x t hr hdep hq hc
    exact ⟨fun _ => ⟨hr, hdep, hc⟩, fun heq => absurd heq hc⟩
  arrive := by
    intro idle c x y t t' _ hc _ _ hr hdep hq hQ
    refine ⟨fun hq' => ?_, fun heq => absurd heq hc⟩
    obtain ⟨hr', hdep', -⟩ := hQ.1 (hq.mp hq')
    exact ⟨hr.trans hr', hdep.trans hdep', hc⟩

namespace Scheduler

variable {s s' : Scheduler} {v : Verzeichnis}

def AdmitZulaessig (s : Scheduler) (v : Verzeichnis) (tid : ThreadId) : Prop :=
  ∀ t, s.resolve v tid = some t →
    (s.tcb t).reasons = ∅ ∧ (s.tcb t).depleted = false ∧ s.current ≠ some t

theorem geeignet_admitThread (hs : Gilt Geeignet (fun _ => True) s) {tid : ThreadId} {b : Bool}
    (hok : s.AdmitZulaessig v tid) (h : s.admitThread v tid = some (b, s')) :
    Gilt Geeignet (fun _ => True) s' := by
  rcases admitThread_cases h with rfl | ⟨t, ht, he⟩
  · exact hs
  · obtain ⟨hr, hdep, hcur⟩ := hok t ht
    have hset : Wirkt s (s.setAdmitted t) t _ := Wirkt.modifyTcb s t _
    obtain ⟨p, hp⟩ := Wirkt.enqueueReady he
    refine (hset.trans hp).gilt vertraeglich_geeignet hs fun _ => ?_
    exact ⟨fun _ => ⟨hset.self.reasons.trans hr, hset.self.depleted.trans hdep, hcur⟩,
      fun heq => absurd heq hcur⟩

def FristZulaessig (s : Scheduler) (outLen : Nat) : Prop :=
  s.naechsteFrist ≤ s.now → ∀ i, s.FristFaellig i → s.faelligeVor i < outLen →
    ∀ g, (s.tcb i).fristGrund = some g → (s.tcb i).reasons = {g} →
      (s.tcb i).depleted = false ∧ s.current ≠ some i

/-- The deadline scan at slot `k`. -/
structure FristScan (s₀ : Scheduler) (outLen k : Nat) (l : FristLauf) : Prop where
  current : l.sched.current = s₀.current
  now : l.sched.now = s₀.now
  gilt : Gilt Geeignet (fun _ => True) l.sched
  rest : ∀ x, k ≤ x → l.sched.daten x = s₀.daten x
  out : l.out.length = min outLen (s₀.faelligeVor k)

theorem geeignet_freigegeben (hs : Gilt Geeignet (fun _ => True) s) {i : Nat} {g : Grund}
    (hg : (s.tcb i).fristGrund = some g) (hmem : g ∈ (s.tcb i).reasons)
    (hok : (s.tcb i).reasons = {g} → (s.tcb i).depleted = false ∧ s.current ≠ some i) :
    Geeignet s.current i (s.tcb i).freigegeben := by
  have hreasons := Tcb.reasons_freigegeben hg
  by_cases hlast : (s.tcb i).reasons.erase g = ∅
  · have hsingle : (s.tcb i).reasons = {g} := by
      rcases (Finset.erase_eq_empty_iff _ _).mp hlast with hempty | hsingle
      · rw [hempty] at hmem
        exact absurd hmem (Finset.notMem_empty g)
      · exact hsingle
    obtain ⟨hdep, hcur⟩ := hok hsingle
    exact ⟨fun _ => ⟨hreasons.trans hlast, hdep, hcur⟩, fun heq => absurd heq hcur⟩
  · have hqueued := (hs i trivial).not_queued (Finset.ne_empty_of_mem hmem)
    have hstill : (s.tcb i).freigegeben.queued = none := by
      rw [Tcb.freigegeben_of_held hg fun hand => hlast hand.1]
      exact hqueued
    refine geeignet_of_free hstill fun hc => ?_
    rw [hreasons]
    exact fun hin => (hs i trivial).2 hc (Finset.mem_of_mem_erase hin)

/-- The scan releases slot `k` exactly if its deadline is due, its reason stands and the output
has room; otherwise it disarms the deadline at most. -/
theorem fristSchritt_befund {outLen k : Nat} {l l' : FristLauf}
    (h : fristSchritt outLen l k = some l') :
    (¬ (l.sched.FristFaellig k ∧ l.out.length ≠ outLen) ∧ l'.out = l.out ∧
      ((∃ n, l'.sched = { l.sched with fristenUeberlauf := n }) ∨
        l'.sched = l.sched.fristEntwaffnen k)) ∨
    ((l.sched.FristFaellig k ∧ l.out.length ≠ outLen) ∧ l'.out = l.out ++ [l.sched.id k] ∧
      ∃ g, (l.sched.tcb k).fristGrund = some g ∧ g ∈ (l.sched.tcb k).reasons ∧
        l.sched.fristFreigeben k g = some l'.sched) := by
  rcases fristSchritt_cases h with
    ⟨hnot, hout, hsched⟩ | ⟨⟨-, hgone, -⟩, hout, hsched⟩ | hfree
  · refine .inl ⟨fun hand => ?_, hout, .inl hsched⟩
    exact hnot.elim (fun hlate => hlate (fristFaellig_iff.mp hand.1).1) hand.2
  · refine .inl ⟨fun hand => ?_, hout, .inr hsched⟩
    exact Bool.false_ne_true (hgone.symm.trans (fristFaellig_iff.mp hand.1).2)
  · exact .inr hfree

theorem laenge_unveraendert {s₀ : Scheduler} {outLen k n : Nat} (h : n = min outLen (s₀.faelligeVor k))
    (hnot : ¬ (s₀.FristFaellig k ∧ n ≠ outLen)) : n = min outLen (s₀.faelligeVor (k + 1)) := by
  rw [faelligeVor_succ]
  split
  · next hdue =>
    have hfull : n = outLen := not_not.mp fun hne => hnot ⟨hdue, hne⟩
    omega
  · exact h

theorem FristScan.schritt {s₀ : Scheduler} {outLen k : Nat} {l l' : FristLauf}
    (h : FristScan s₀ outLen k l) (hok : s₀.FristZulaessig outLen)
    (hstart : s₀.naechsteFrist ≤ s₀.now) (hstep : fristSchritt outLen l k = some l') :
    FristScan s₀ outLen (k + 1) l' := by
  have hown := h.rest k (Nat.le_refl k)
  have hfaellig := fristFaellig_of_daten hown h.now
  have hrest : ∀ x, k + 1 ≤ x → l.sched.daten x = s₀.daten x :=
    fun x hx => h.rest x (Nat.le_of_succ_le hx)
  rcases fristSchritt_befund hstep with
    ⟨hnot, hout, ⟨n, hsched⟩ | hsched⟩ | ⟨⟨hdue, hroom⟩, hout, g, hg, hmem, hf⟩
  · rw [hfaellig] at hnot
    refine ⟨?_, ?_, ?_, ?_, hout ▸ laenge_unveraendert h.out hnot⟩
    · rw [hsched]
      exact h.current
    · rw [hsched]
      exact h.now
    · rw [hsched]
      exact h.gilt
    · rw [hsched]
      exact hrest
  · have hdisarm : Wirkt l.sched (l.sched.fristEntwaffnen k) k _ := Wirkt.modifyTcb l.sched k _
    rw [hfaellig] at hnot
    refine ⟨?_, ?_, ?_, fun x hx => ?_, hout ▸ laenge_unveraendert h.out hnot⟩
    · rw [hsched]
      exact hdisarm.current.trans h.current
    · rw [hsched]
      exact hdisarm.now.trans h.now
    · rw [hsched]
      exact h.gilt.setFrist vertraeglich_geeignet k 0 none
    · rw [hsched]
      exact (hdisarm.rest x (Nat.ne_of_gt hx)).trans (hrest x hx)
  · have hdue₀ := hfaellig.mp hdue
    have hlen := h.out
    have hf₀ := fun {α : Type} (f : Tcb → α) => congrArg f hown
    have hfree : (l.sched.tcb k).reasons = {g} →
        (l.sched.tcb k).depleted = false ∧ l.sched.current ≠ some k := by
      intro hsingle
      have hguard := hok hstart k hdue₀ (by omega) g ((hf₀ Tcb.fristGrund).symm.trans hg)
        ((hf₀ Tcb.reasons).symm.trans hsingle)
      rw [h.current]
      exact ⟨(hf₀ Tcb.depleted).trans hguard.1, hguard.2⟩
    have hw := wirkt_fristFreigeben hg hf
    refine ⟨hw.current.trans h.current, hw.now.trans h.now,
      hw.gilt vertraeglich_geeignet h.gilt fun _ => geeignet_freigegeben h.gilt hg hmem hfree,
      fun x hx => (hw.rest x (Nat.ne_of_gt hx)).trans (hrest x hx), ?_⟩
    rw [hout, faelligeVor_succ, if_pos hdue₀, List.length_append, List.length_singleton]
    omega

theorem geeignet_fristenFaellig (hs : Gilt Geeignet (fun _ => True) s) {outLen : Nat}
    {out : List ThreadId} (hok : s.FristZulaessig outLen)
    (h : s.fristenFaellig outLen = some (out, s')) : Gilt Geeignet (fun _ => True) s' := by
  unfold fristenFaellig at h
  split at h
  · cases h
    exact hs
  · next hstart =>
    obtain ⟨l, hrun, htuple⟩ := Option.map_eq_some_iff.mp h
    cases htuple
    have hzero : FristScan s outLen 0 ⟨s, 2 ^ 64 - 1, []⟩ :=
      ⟨rfl, rfl, hs, fun _ _ => rfl, (Nat.min_zero outLen).symm⟩
    have hscan : FristScan s outLen s.tcbs.len l := run_range_invariant
      (fun _ _ _ hl hk => FristScan.schritt hl hok (Nat.le_of_not_lt hstart) hk) hzero hrun
    exact hscan.gilt

theorem geeignet_refillSlot {i : Nat} (hs : Gilt Geeignet (fun _ => True) s)
    (h : s.refillSlot i = some s') : Gilt Geeignet (fun _ => True) s' := by
  rcases refillSlot_cases h with ⟨-, s₁, hlauf, hw⟩ | ⟨-, rfl⟩
  · obtain ⟨hothers, hcur, hself⟩ := hs.kontoFrei vertraeglich_geeignet (wirkt_auffuellen s i)
      (gelockert_voll _) hlauf
    have hi : Geeignet s₁.current i (s.tcb i) := hcur ▸ hs i trivial
    rcases besitzerWecken_cases hw with hw | ⟨rfl, -⟩
    · exact gilt_wecken vertraeglich_geeignet hothers (fun _ => hi) hself hw
    · intro x _
      by_cases hx : x = i
      · subst hx
        exact hi.gelockert hself
      · exact hothers x trivial hx
  · exact hs

theorem geeignet_tickAnfang (hs : Gilt Geeignet (fun _ => True) s) {tick : Bool}
    (h : s.tickAnfang tick = some s') : Gilt Geeignet (fun _ => True) s' :=
  tickAnfang_invariant (fun _ _ _ ht hi => geeignet_refillSlot ht hi) hs hs h

/-- What a tick may find after its refill scan.  A running thread whose own account is
exhausted is linked again only if it is dispatched at once, and an account that another
thread uses up is not that of a queued owner, unless the owner is dispatched at once. -/
def TickZulaessig (s : Scheduler) (tick : Bool) : Prop :=
  ∀ s₁ cur, s.tickAnfang tick = some s₁ → s₁.current = some cur →
    ((s₁.tcb cur).reasons = ∅ → ¬ s₁.erschoepft cur tick → (s₁.tcb cur).depleted = true →
      ∀ y, (s₁.tcb y).queued ≠ none → (s₁.tcb y).priority < (s₁.tcb cur).priority) ∧
    (s₁.erschoepft cur tick → s₁.konto cur ≠ cur → (s₁.tcb (s₁.konto cur)).queued ≠ none →
      s₁.hoechster = some (s₁.konto cur))

/-- Ready for a dispatch: only the next thread may fail the law. -/
structure Dispatchbar (s : Scheduler) : Prop where
  slots : ∀ x, Geeignet none x (s.tcb x) ∨ s.hoechster = some x ∧ .ipc ∉ (s.tcb x).reasons
  running : ∀ cur, s.current = some cur → .ipc ∉ (s.tcb cur).reasons

theorem Dispatchbar.dispatch (h : Dispatchbar s) {n : Nat} (hn : s.hoechster = some n)
    (hq : (s.tcb n).queued ≠ none) :
    Gilt Geeignet (fun _ => True) ((s.removeFromReady n).setCurrent n) := by
  have hrem := Wirkt.removeFromReady s n
  intro x _
  change Geeignet (some n) x ((s.removeFromReady n).tcb x)
  by_cases hx : x = n
  · subst hx
    refine vertraeglich_geeignet.same hrem.self (geeignet_of_free rfl fun _ => ?_)
    change Grund.ipc ∉ (s.tcb x).reasons
    rcases h.slots x with hfit | ⟨-, hipc⟩
    · rw [(hfit.1 hq).1]
      exact Finset.notMem_empty _
    · exact hipc
  · rcases h.slots x with hfit | ⟨hhead, -⟩
    · exact vertraeglich_geeignet.same (hrem.others x hx)
        (vertraeglich_geeignet.enter (Ne.symm hx) hfit)
    · exact absurd (Option.some.inj (hhead.symm.trans hn)) hx

theorem Dispatchbar.stay (h : Dispatchbar s) (ho : s.Geordnet) (hn : s.hoechster = none) :
    Gilt Geeignet (fun _ => True) s := by
  obtain ⟨l, ho⟩ := ho
  intro x _
  refine geeignet_of_free ?_ fun hc => h.running x hc
  cases hq : (s.tcb x).queued with
  | none => rfl
  | some p =>
    have hmem := (ho.mem p x).mpr hq
    rw [ho.hoechster_eq_none hn p] at hmem
    exact absurd hmem List.not_mem_nil

theorem hoechster_belasten (s : Scheduler) (cur : Nat) (tick : Bool) :
    (s.belasten cur tick).hoechster = s.hoechster := by
  have hheld : ∀ (t : Scheduler) (b : Bool), (t.setBudgetBlocked cur b).hoechster = t.hoechster := by
    intro t b
    unfold setBudgetBlocked
    split
    · rfl
    · split
      · rfl
      · rfl
  unfold belasten
  dsimp only
  split
  · split
    · exact hheld _ true
    · rfl
  · split
    · rfl
    · rfl

theorem erschoepft_setSp (s : Scheduler) (cur frame i : Nat) (tick : Bool) :
    ((s.setSp cur frame).erschoepft i tick ↔ s.erschoepft i tick) ∧
      (s.setSp cur frame).konto i = s.konto i := by
  have hfield : ∀ {α : Type} (f : Tcb → α), (∀ t : Tcb, f { t with sp := frame } = f t) →
      ∀ x, f ((s.setSp cur frame).tcb x) = f (s.tcb x) := by
    intro α f hf x
    unfold setSp
    rw [tcb_modifyTcb]
    split
    · next hx => rw [hf, hx]
    · rfl
  have hkonto : (s.setSp cur frame).konto i = s.konto i := by
    unfold konto
    rw [hfield Tcb.scDonor fun _ => rfl]
  refine ⟨?_, hkonto⟩
  unfold erschoepft
  rw [hkonto, hfield Tcb.budget fun _ => rfl, hfield Tcb.remaining fun _ => rfl]

theorem belasten_lasting {cur : Nat} {tick : Bool} (h : ¬ s.erschoepft cur tick) :
    (s.belasten cur tick).current = s.current ∧ ∀ x,
      Gleichstand (s.tcb x) ((s.belasten cur tick).tcb x) ∧
        ((s.belasten cur tick).tcb x).priority = (s.tcb x).priority := by
  unfold belasten
  rw [if_neg h]
  split
  · refine ⟨rfl, fun x => ⟨gleichstand_setRemaining s _ _ x, ?_⟩⟩
    unfold setRemaining
    rw [tcb_modifyTcb]
    split
    · next hx => rw [hx]
    · rfl
  · exact ⟨rfl, fun x => ⟨Gleichstand.refl _, rfl⟩⟩

section

variable {cur : Nat} {tick : Bool} (hs : Gilt Geeignet (fun _ => True) s)
  (hcur : s.current = some cur)

include hs hcur

theorem geeignet_leave {x : Nat} (hx : x ≠ cur) : Geeignet none x (s.tcb x) := by
  refine vertraeglich_geeignet.leave ?_ (hs x trivial)
  rw [hcur]
  exact fun heq => hx (Option.some.inj heq).symm

theorem geeignet_running : Geeignet (some cur) cur (s.tcb cur) := by
  have hrun := hs cur trivial
  rw [hcur] at hrun
  exact hrun

/-- The running thread waits now, or leaves the core: it is not linked. -/
theorem dispatchbar_lasting (hlast : ¬ s.erschoepft cur tick) :
    Dispatchbar (s.belasten cur tick) := by
  obtain ⟨hcur', hsame⟩ := belasten_lasting hlast
  have hrun := geeignet_running hs hcur
  refine ⟨fun x => .inl ?_, fun i hi => ?_⟩
  · refine vertraeglich_geeignet.same (hsame x).1 ?_
    by_cases hx : x = cur
    · rw [hx]
      exact geeignet_of_free hrun.of_current fun heq => nomatch heq
    · exact geeignet_leave hs hcur hx
  · obtain rfl : cur = i := Option.some.inj (hcur.symm.trans (hcur'.symm.trans hi))
    rw [(hsame cur).1.reasons]
    exact hrun.2 rfl

theorem dispatchbar_erschoepft (hout : s.erschoepft cur tick)
    (hok : s.konto cur ≠ cur → (s.tcb (s.konto cur)).queued ≠ none →
      s.hoechster = some (s.konto cur)) : Dispatchbar (s.belasten cur tick) := by
  have hrun := geeignet_running hs hcur
  have hhead := hoechster_belasten s cur tick
  have hleer := wirkt_erschoepfen s (s.konto cur)
  unfold belasten at hhead ⊢
  rw [if_pos hout] at hhead ⊢
  by_cases hown : s.konto cur = cur
  · rw [if_neg (not_not.mpr hown)] at hhead ⊢
    rw [hown] at hleer ⊢
    have hfree : Geeignet (some cur) cur _ := vertraeglich_geeignet.same hleer.self
      (geeignet_of_free hrun.of_current fun _ => hrun.2 rfl)
    refine ⟨fun x => .inl ?_, fun i hi => ?_⟩
    · by_cases hx : x = cur
      · rw [hx]
        exact geeignet_of_free hfree.of_current fun heq => nomatch heq
      · exact vertraeglich_geeignet.same (hleer.others x hx) (geeignet_leave hs hcur hx)
    · obtain rfl : cur = i := Option.some.inj (hcur.symm.trans (hleer.current.symm.trans hi))
      exact hfree.2 rfl
  · rw [if_pos hown] at hhead ⊢
    obtain ⟨t, ht, hreasons, hqueued⟩ := wirkt_budgetHalten (s.erschoepfen (s.konto cur)) cur
    have hother := hleer.others cur (Ne.symm hown)
    rw [hother.reasons] at hreasons
    rw [hother.queued, hrun.of_current] at hqueued
    refine ⟨fun x => ?_, fun i hi => ?_⟩
    · by_cases hx : x = cur
      · rw [hx]
        exact .inl (geeignet_of_free (ht.self.queued.trans hqueued) fun heq => nomatch heq)
      · by_cases hacct : x = s.konto cur
        · have hflags := ht.others x hx
          rw [hacct] at hflags ⊢
          have hleave := geeignet_leave hs hcur hown
          by_cases hq : (s.tcb (s.konto cur)).queued = none
          · refine .inl (geeignet_of_free ?_ fun heq => nomatch heq)
            exact hflags.queued.trans (hleer.self.queued.trans hq)
          · refine .inr ⟨hhead.trans (hok hown hq), ?_⟩
            rw [hflags.reasons, hleer.self.reasons]
            change Grund.ipc ∉ (s.tcb (s.konto cur)).reasons
            rw [(hleave.1 hq).1]
            exact Finset.notMem_empty _
        · refine .inl (vertraeglich_geeignet.same ((hleer.others x hacct).trans (ht.others x hx)) ?_)
          exact geeignet_leave hs hcur hx
    · obtain rfl : cur = i :=
        Option.some.inj (hcur.symm.trans ((ht.current.trans hleer.current).symm.trans hi))
      rw [ht.self.reasons, hreasons, Finset.mem_insert, not_or]
      exact ⟨by decide, hrun.2 rfl⟩

/-- The running thread is linked again; an exhausted one is next. -/
theorem dispatchbar_requeue (hgut : s.Gut) (hlast : ¬ s.erschoepft cur tick)
    (hfree : (s.tcb cur).reasons = ∅)
    (hok : (s.tcb cur).depleted = true →
      ∀ y, (s.tcb y).queued ≠ none → (s.tcb y).priority < (s.tcb cur).priority)
    (h : (s.belasten cur tick).enqueueReady cur = some s') : Dispatchbar s' := by
  obtain ⟨hcur', hsame⟩ := belasten_lasting hlast
  obtain ⟨p, hp⟩ := Wirkt.enqueueReady h
  have hfree' : (s'.tcb cur).reasons = ∅ :=
    hp.self.reasons.trans ((hsame cur).1.reasons.trans hfree)
  have hcharged := Bewahrt.belasten s cur tick
  have hbewahrt : Bewahrt s s' :=
    hcharged.trans (Bewahrt.enqueueReady ((hcharged.2.used cur).trans (hgut.2 cur hcur)) h)
  refine ⟨fun x => ?_, fun i hi => ?_⟩
  · by_cases hx : x = cur
    · rw [hx]
      cases hdep : (s.tcb cur).depleted with
      | false =>
        refine .inl ⟨fun _ => ⟨hfree', ?_, (Option.some_ne_none cur).symm⟩, fun heq => nomatch heq⟩
        exact hp.self.depleted.trans ((hsame cur).1.depleted.trans hdep)
      | true =>
        refine .inr ⟨?_, hfree' ▸ Finset.notMem_empty _⟩
        obtain ⟨l, ho⟩ := hgut.1
        obtain ⟨l', ho'⟩ := hbewahrt.1 hgut.1
        have hq : (s'.tcb cur).queued = some p := hp.self.queued
        have hprio : (s.tcb cur).priority = p := by
          have hslot := congrArg Tcb.priority hp.slot
          exact ((hsame cur).2.symm.trans hslot.symm).trans (ho'.prio p cur hq).2
        have hlist : l' p ≠ [] := List.ne_nil_of_mem ((ho'.mem p cur).mpr hq)
        cases hn : s'.hoechster with
        | none => exact absurd (ho'.hoechster_eq_none hn p) hlist
        | some n =>
          obtain ⟨q, -, hnq, hmax⟩ := ho'.hoechster_eq_some hn
          by_contra hne
          have hnc : n ≠ cur := fun heq => hne (congrArg some heq)
          have hold : (s.tcb n).queued = some q := by
            rw [← (hsame n).1.queued, ← (hp.others n hnc).queued]
            exact hnq
          have hlt := hok hdep n (hold ▸ Option.some_ne_none q)
          have hle := hmax p hlist
          rw [(ho.prio q n hold).2, hprio] at hlt
          omega
    · refine .inl (vertraeglich_geeignet.same ((hsame x).1.trans (hp.others x hx)) ?_)
      exact geeignet_leave hs hcur hx
  · obtain rfl : cur = i := by
      rw [hp.current, hcur', hcur] at hi
      exact Option.some.inj hi
    exact hfree' ▸ Finset.notMem_empty _

end

theorem dispatchbar_zurueckreihen (hs : Gilt Geeignet (fun _ => True) s) (hgut : s.Gut)
    {frame : Nat} {tick : Bool}
    (hok : ∀ cur, s.current = some cur →
      ((s.tcb cur).reasons = ∅ → ¬ s.erschoepft cur tick → (s.tcb cur).depleted = true →
        ∀ y, (s.tcb y).queued ≠ none → (s.tcb y).priority < (s.tcb cur).priority) ∧
      (s.erschoepft cur tick → s.konto cur ≠ cur → (s.tcb (s.konto cur)).queued ≠ none →
        s.hoechster = some (s.konto cur)))
    (h : s.zurueckreihen frame tick = some s') : Dispatchbar s' := by
  unfold zurueckreihen at h
  split at h
  · next hcur =>
    cases h
    refine ⟨fun x => .inl ?_, fun cur hc => absurd (hcur.symm.trans hc) (Option.some_ne_none cur).symm⟩
    have hx := hs x trivial
    rw [hcur] at hx
    exact hx
  · next cur hcur =>
    dsimp only at h
    -- Saving the frame changes nothing the law or the guard reads.
    have hsave := Bewahrt.setSp s cur frame
    have hu : Gilt Geeignet (fun _ => True) (s.setSp cur frame) :=
      hs.setter vertraeglich_geeignet cur fun _ => ⟨rfl, rfl, rfl, rfl, rfl⟩
    have hucur : (s.setSp cur frame).current = some cur := hcur
    have hflags : ∀ x, Gleichstand (s.tcb x) ((s.setSp cur frame).tcb x) := by
      intro x
      refine gleichstand_modifyTcb s cur ?_ x
      exact fun _ => ⟨rfl, rfl, rfl, rfl, rfl⟩
    have hprio : ∀ x, ((s.setSp cur frame).tcb x).priority = (s.tcb x).priority := by
      intro x
      unfold setSp
      rw [tcb_modifyTcb]
      split
      · next hx => rw [hx]
      · rfl
    obtain ⟨hout, hkonto⟩ := erschoepft_setSp s cur frame cur tick
    obtain ⟨hrequeue, hcharge⟩ := hok cur hcur
    split at h
    · next hfree =>
      refine dispatchbar_requeue hu hucur (hsave.gut hgut) hfree.2 hfree.1 (fun hdep y hy => ?_) h
      rw [hprio, hprio]
      refine hrequeue ((hflags cur).reasons.symm.trans hfree.1) (hout.not.mp hfree.2)
        ((hflags cur).depleted.symm.trans hdep) y ?_
      rw [← (hflags y).queued]
      exact hy
    · cases h
      by_cases hempty : (s.setSp cur frame).erschoepft cur tick
      · refine dispatchbar_erschoepft hu hucur hempty fun hne hq => ?_
        rw [hkonto] at hne hq ⊢
        rw [(hflags _).queued] at hq
        exact hcharge (hout.mp hempty) hne hq
      · exact dispatchbar_lasting hu hucur hempty

theorem geeignet_onTick (hs : Gilt Geeignet (fun _ => True) s) (hgut : s.Gut) {frame sp : Nat}
    {tick : Bool} (hok : s.TickZulaessig tick) (h : s.onTick frame tick = some (sp, s')) :
    Gilt Geeignet (fun _ => True) s' := by
  obtain ⟨s₁, s₂, h₁, h₂, hcases⟩ := onTick_cases h
  have hgut₁ := (Bewahrt.tickAnfang h₁).gut hgut
  have hgut₂ := (Bewahrt.zurueckreihen hgut₁.2 h₂).gut hgut₁
  have hready := dispatchbar_zurueckreihen (geeignet_tickAnfang hs h₁) hgut₁
    (fun cur hcur => hok s₁ cur h₁ hcur) h₂
  rcases hcases with ⟨hn, rfl⟩ | ⟨n, hn, rfl⟩
  · exact hready.stay hgut₂.1 hn
  · obtain ⟨l, ho⟩ := hgut₂.1
    obtain ⟨p, -, hq, -⟩ := ho.hoechster_eq_some hn
    exact hready.dispatch hn (hq ▸ Option.some_ne_none p)

end Scheduler

namespace System

/-- The condition on a step: its admission, deadline scan or tick links only threads that
may run. -/
def Zulaessig (S : System) : Op → Prop
  | .aufruf c (.admitThread tid) => (S.cores c).AdmitZulaessig S.verzeichnis tid
  | .aufruf c (.fristenFaellig outLen) => (S.cores c).FristZulaessig outLen
  | .aufruf c (.onTick _ tick) => (S.cores c).TickZulaessig tick
  | _ => True

/-- Every thread in a ready list has an empty reason set, is not depleted and is not the
running one; so dispatch takes only such threads. -/
def NurGeeignete (S : System) : Prop :=
  ∀ c, (∀ p x, x ∈ (S.cores c).bereit p → ((S.cores c).tcb x).reasons = ∅ ∧
      ((S.cores c).tcb x).depleted = false ∧ (S.cores c).current ≠ some x) ∧
    ∀ x s', (S.cores c).dequeueHighest = some (x, s') → ((S.cores c).tcb x).reasons = ∅

theorem geeignet_init (a : Ausbau) : (init a).Haelt fun _ => Geeignet where
  core := by
    intro c x _
    exact geeignet_of_free rfl fun heq => nomatch heq
  idle := by
    intro c x hidle
    cases hidle
  unterwegs := by
    intro m hm
    cases hm

theorem step_geeignet {S S' : System} {op : Op} (hS : S.Haelt fun _ => Geeignet) (hgut : S.Gut)
    (hok : S.Zulaessig op) (hstep : S.step op = some S') : S'.Haelt fun _ => Geeignet := by
  refine step_haelt gesetz_geeignet hS hgut ?_ ?_ hstep
  · intro c a s' hop ha hcall
    subst hop
    cases a with
    | admitThread tid =>
      obtain ⟨b, h⟩ := map_snd_eq_some hcall
      exact geeignet_admitThread (hS.core c) hok h
    | fristenFaellig outLen =>
      obtain ⟨out, h⟩ := map_snd_eq_some hcall
      exact geeignet_fristenFaellig (hS.core c) hok h
    | onTick frame tick =>
      obtain ⟨sp, h⟩ := map_snd_eq_some hcall
      exact geeignet_onTick (hS.core c) (hgut.1 c) hok h
    | _ => exact absurd trivial ha
  · intro c priority hop x _
    obtain ⟨hqueued, -⟩ := hS.core c x trivial
    refine ⟨fun hq => ?_, fun heq => nomatch heq⟩
    obtain ⟨hr, hdep, -⟩ := hqueued hq
    exact ⟨hr, hdep, (Option.some_ne_none x).symm⟩

/-- In every run of such steps only eligible threads are queued. -/
theorem run_nurGeeignete (a : Ausbau) (ops : List Op) (S : System)
    (hops : Admissible step Zulaessig (init a) ops) (hrun : run step (init a) ops = some S) :
    S.NurGeeignete := by
  have hstep : ∀ T op T', (T.Haelt fun _ => Geeignet) ∧ T.Gut → Zulaessig T op →
      step T op = some T' → (T'.Haelt fun _ => Geeignet) ∧ T'.Gut :=
    fun T op T' hT hok hT' => ⟨step_geeignet hT.1 hT.2 hok hT', step_gut T op T' hT.2 hT'⟩
  have hinv := run_invariant hstep ⟨geeignet_init a, gut_init a⟩ hops hrun
  intro c
  obtain ⟨l, ho⟩ := (hinv.2.1 c).1
  have hlist : ∀ p x, x ∈ (S.cores c).bereit p → ((S.cores c).tcb x).reasons = ∅ ∧
      ((S.cores c).tcb x).depleted = false ∧ (S.cores c).current ≠ some x := by
    intro p x hx
    rw [ho.bereit_eq, ho.mem] at hx
    exact (hinv.1.core c x trivial).1 (hx ▸ Option.some_ne_none p)
  refine ⟨hlist, fun x s' hd => ?_⟩
  have hfirst := (ho.hoechsteZuerst.some_of x s' hd).1
  exact (hlist _ x (hfirst ▸ List.mem_cons_self)).1

/-- A thread is created parked, paused and admitted: it is in the ready list although it is
paused. -/
theorem run_pause_admit_queues_paused :
    ∃ S, run step (init ⟨2, 2, by decide⟩)
        [.initCore 0 0, .spawnParked 0 100 0 16 1, .aufruf 0 (.pause ⟨1, 0⟩),
          .aufruf 0 (.admitThread ⟨1, 0⟩)] = some S ∧
      1 ∈ (S.cores 0).bereit 1 ∧ Grund.pause ∈ ((S.cores 0).tcb 1).reasons ∧ ¬ S.NurGeeignete := by
  have hread : (run step (init ⟨2, 2, by decide⟩)
      [.initCore 0 0, .spawnParked 0 100 0 16 1, .aufruf 0 (.pause ⟨1, 0⟩),
        .aufruf 0 (.admitThread ⟨1, 0⟩)]).map
        (fun S => decide (1 ∈ (S.cores 0).bereit 1 ∧ Grund.pause ∈ ((S.cores 0).tcb 1).reasons)) =
      some true := by
    decide
  obtain ⟨S, hS, heq⟩ := Option.map_eq_some_iff.mp hread
  obtain ⟨hmem, hpause⟩ := of_decide_eq_true heq
  refine ⟨S, hS, hmem, hpause, fun hall => ?_⟩
  rw [((hall 0).1 1 1 hmem).1] at hpause
  exact Finset.notMem_empty _ hpause

/-- Created parked, admitted and then paused: the thread has left the list. -/
theorem run_nurGeeignete_admit_pause :
    ∃ S, run step (init ⟨2, 2, by decide⟩)
        [.initCore 0 0, .spawnParked 0 100 0 16 1, .aufruf 0 (.admitThread ⟨1, 0⟩),
          .aufruf 0 (.pause ⟨1, 0⟩)] = some S ∧
      (S.cores 0).bereit 1 = [] ∧ S.NurGeeignete := by
  have hread : (run step (init ⟨2, 2, by decide⟩)
      [.initCore 0 0, .spawnParked 0 100 0 16 1, .aufruf 0 (.admitThread ⟨1, 0⟩),
        .aufruf 0 (.pause ⟨1, 0⟩)]).map (fun S => (S.cores 0).bereit 1) = some [] := by
    decide
  have hguard : (run step (init ⟨2, 2, by decide⟩)
      [.initCore 0 0, .spawnParked 0 100 0 16 1]).map
        (fun S => decide (((S.cores 0).resolve S.verzeichnis ⟨1, 0⟩).all fun t =>
          decide (((S.cores 0).tcb t).reasons = ∅ ∧ ((S.cores 0).tcb t).depleted = false ∧
            (S.cores 0).current ≠ some t))) = some true := by
    decide
  obtain ⟨S, hS, heq⟩ := Option.map_eq_some_iff.mp hread
  refine ⟨S, hS, heq, run_nurGeeignete _ _ S ?_ hS⟩
  refine ⟨trivial, fun S₁ h₁ => ⟨trivial, fun S₂ h₂ => ⟨?_, fun _ _ => ⟨trivial, fun _ _ => trivial⟩⟩⟩⟩
  rw [run_cons_of_step h₁, run_cons_of_step h₂] at hguard
  intro t ht
  have hall := of_decide_eq_true (Option.some.inj hguard)
  rw [ht] at hall
  exact of_decide_eq_true hall

end System

end Caprock.Sched
