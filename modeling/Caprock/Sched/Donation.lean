import Caprock.Sched.Wakers

/-! # Lent accounts

A thread that runs on a lent account names the slot of the lender, and its ticks are charged
there.  A slot is not a thread: the lender must stay in it, blocked, until the donation ends.
`Leihbuch` runs the system and writes down which thread lent, so that the slot can be compared
with it.  The links are cut when the borrower gives the account back and when the lender dies;
where a lender is woken otherwise or moves away while somebody still names its slot, they are
not.  `LeiheTreu` is the condition on these steps, and it is exact.
-/

namespace Caprock.Sched

open Execution Function

namespace Scheduler

def Verleiht (s : Scheduler) (a : Nat) : Prop := ∃ d, (s.tcb d).scDonor = some a

/-- The loan a call makes: to whom, and whose account. -/
def leihe (s : Scheduler) (v : Verzeichnis) : Aufruf → Option (Nat × Nat)
  | .switchTo _ target =>
      match s.current, s.resolve v target with
      | some cur, some t =>
          if (s.tcb t).reasons.erase .ipc = ∅ then some (t, s.konto cur) else none
      | _, _ => none
  | _ => none

def eintragen (s : Scheduler) (v : Verzeichnis) (a : Aufruf) (g : Nat → Option ThreadId) :
    Nat → Option ThreadId :=
  match s.leihe v a with
  | some (t, acct) => update g t (some (s.id acct))
  | none => g

def LeiheSteht (s : Scheduler) (g : Nat → Option ThreadId) : Prop :=
  ∀ d a, (s.tcb d).scDonor = some a →
    (s.tcb a).used = true ∧ g d = some (s.id a) ∧ .ipc ∈ (s.tcb a).reasons

structure Leihen (g : Nat → Option ThreadId) (s : Scheduler) : Prop where
  steht : s.LeiheSteht g
  nimmt : ∀ d a, (s.tcb d).scDonor = some a → (s.tcb d).used = true
  fremd : ∀ d a, (s.tcb d).scDonor = some a → d ≠ a

/-- The conditions on a call: it takes the message wait only from a thread nobody borrows from,
and nobody borrows from itself. -/
def LeiheTreu (s : Scheduler) (v : Verzeichnis) : Aufruf → Prop
  | .unblock tid => ∀ i, s.resolve v tid = some i → ¬ s.Verleiht i
  | .switchTo _ target => ∀ cur t, s.current = some cur → s.resolve v target = some t →
      ¬ s.Verleiht t ∧ ((s.tcb t).reasons.erase .ipc = ∅ → s.konto cur ≠ t)
  | .fristenFaellig outLen => ∀ i, s.FristGibtFrei outLen i .ipc → ¬ s.Verleiht i
  | _ => True

variable {s s' : Scheduler} {v v' : Verzeichnis} {g : Nat → Option ThreadId}

theorem scDonor_doneeAustragen (s : Scheduler) (i d : Nat) :
    ((s.doneeAustragen i).tcb d).scDonor = (s.tcb d).scDonor := by
  unfold doneeAustragen
  split
  · rfl
  · split
    · exact feld_modifyTcb Tcb.scDonor s _ d fun _ => rfl
    · rfl

theorem scDonor_aufruf {a : Aufruf} (h : s.aufruf v a = some s')
    (ha : ∀ frame target, a ≠ .switchTo frame target) (d : Nat) :
    (s'.tcb d).scDonor = (s.tcb d).scDonor ∨ a = .endDonation ∧ (s'.tcb d).scDonor = none := by
  have hω := blind_scDonor d
  have hk := kontenBlind_scDonor d
  have hf := fristBlind_scDonor d
  cases a with
  | switchTo frame target => exact absurd rfl (ha frame target)
  | endDonation =>
    cases h
    unfold endDonation
    split
    · exact .inl rfl
    · next cur hcur =>
      unfold setScDonor
      rw [tcb_modifyTcb]
      split
      · exact .inr ⟨rfl, rfl⟩
      · exact .inl (scDonor_doneeAustragen s cur d)
  | onTick frame tick | setBudget tid budget period => exact .inl (hω.toDuldet.aufruf h hk)
  | fristSetzen ticks grund => exact .inl (hf.fristSetzen h)
  | fristLoeschen tid =>
    cases h
    exact .inl (hf.fristLoeschen s v tid)
  | fristenFaellig outLen =>
    obtain ⟨out, h⟩ := map_snd_eq_some h
    exact .inl (hω.fristenFaellig hf h)
  | _ => exact .inl (hω.aufruf h trivial)

/-- A message lends the account of the running thread to a target that waits for nothing
else. -/
theorem scDonor_switchTo {frame sp : Nat} {target : ThreadId}
    (h : s.switchTo v frame target = some (sp, s')) :
    ∃ cur t, s.current = some cur ∧ s.resolve v target = some t ∧
      .ipc ∉ (s'.tcb t).reasons ∧ ((s'.tcb cur).reasons = insert .ipc (s.tcb cur).reasons ∨ cur = t) ∧
      ∀ d, (s'.tcb d).scDonor =
        if d = t ∧ (s.tcb t).reasons.erase .ipc = ∅ then some (s.konto cur) else (s.tcb d).scDonor := by
  obtain ⟨cur, t, hcur, ht, hcases⟩ := switchTo_spec h
  obtain ⟨cur', t', hcur', ht', hstand⟩ := stand_switchTo h
  obtain rfl : cur = cur' := Option.some.inj (hcur.symm.trans hcur')
  obtain rfl : t = t' := Option.some.inj (ht.symm.trans ht')
  refine ⟨cur, t, hcur, ht, ?_, ?_, fun d => ?_⟩
  · rw [(hstand t).2, if_pos rfl]
    exact Finset.notMem_erase _ _
  · by_cases hct : cur = t
    · exact .inr hct
    · rw [(hstand cur).2, if_neg hct, if_pos rfl]
      exact .inl rfl
  · have hself := (daten_zugestellt s cur frame t t).2
    rw [if_pos rfl] at hself
    rw [← hself]
    have hblock := (blind_scDonor d).zugestellt trivial trivial s cur frame t
    rcases hcases with ⟨hheld, hw⟩ | ⟨hfree, rfl⟩
    · rw [if_neg fun hand => hheld hand.2]
      exact ((blind_scDonor d).wechseln hw).trans hblock
    · have hrem := ((blind_scDonor d).removeFromReady (s.zugestellt cur frame t) t).trans hblock
      have hdonee : ∀ u : Scheduler, ((u.setScDonee (s.konto cur) (some t)).tcb d).scDonor =
          (u.tcb d).scDonor := fun u => feld_modifyTcb Tcb.scDonor u _ d fun _ => rfl
      show ((((s.zugestellt cur frame t).removeFromReady t).verleihen t (s.konto cur)).tcb d).scDonor =
        _
      unfold verleihen
      rw [hdonee]
      unfold setScDonor
      rw [tcb_modifyTcb]
      by_cases hd : d = t
      · rw [if_pos hd, if_pos ⟨hd, hfree⟩]
      · rw [if_neg hd, if_neg fun hand => hd hand.1]
        exact hrem

theorem id_of_kennung {x : Nat} (h : (s'.tcb x).kennung = (s.tcb x).kennung) :
    s'.id x = s.id x ∧ (s'.tcb x).used = (s.tcb x).used := by
  have hid := congrArg (fun t : Tcb => (⟨t.gid, t.gen⟩ : ThreadId)) h
  have hused := congrArg Tcb.used h
  exact ⟨hid, hused⟩

theorem Leihen.weiter (hs : s.Leihen g) (h : ∀ d a, (s'.tcb d).scDonor = some a →
    (s.tcb d).scDonor = some a ∧ (s'.tcb d).kennung = (s.tcb d).kennung ∧
      (s'.tcb a).kennung = (s.tcb a).kennung ∧ .ipc ∈ (s'.tcb a).reasons) : s'.Leihen g := by
  constructor
  · intro d a hd
    obtain ⟨hold, -, ha, hipc⟩ := h d a hd
    obtain ⟨hused, hgeber, -⟩ := hs.steht d a hold
    obtain ⟨hid, hu⟩ := id_of_kennung ha
    rw [hid, hu]
    exact ⟨hused, hgeber, hipc⟩
  · intro d a hd
    obtain ⟨hold, hken, -, -⟩ := h d a hd
    rw [(id_of_kennung hken).2]
    exact hs.nimmt d a hold
  · exact fun d a hd => hs.fremd d a (h d a hd).1

theorem not_weckt_ipc {a : Aufruf} {x : Nat} (hok : s.LeiheTreu v a) (hx : s.Verleiht x)
    (ha : ∀ frame target, a ≠ .switchTo frame target) : ¬ s.Weckt v a x .ipc := by
  intro hw
  cases a with
  | unblock tid => exact hok x hw.2 hx
  | switchTo frame target => exact ha frame target rfl
  | fristenFaellig outLen => exact hok x hw hx
  | unpark tid | resume tid | handlerReply tid | loadReply tid | debugContinue tid
  | debugReleasePd pdOf pd | thawGroup tid | setBudget tid budget period => cases hw.1
  | onTick frame tick => cases hw.2.1
  | _ => exact hw

theorem eintragen_of_ne {a : Aufruf} (ha : ∀ frame target, a ≠ .switchTo frame target) :
    s.eintragen v a g = g := by
  cases a with
  | switchTo frame target => exact absurd rfl (ha frame target)
  | _ => rfl

theorem leihe_switchTo {cur t : Nat} {frame : Nat} {target : ThreadId} (hcur : s.current = some cur)
    (ht : s.resolve v target = some t) : s.leihe v (.switchTo frame target) =
      if (s.tcb t).reasons.erase .ipc = ∅ then some (t, s.konto cur) else none := by
  unfold leihe
  dsimp only
  rw [hcur, ht]

theorem Leihen.switchTo (hs : s.Leihen g) (hlauf : s.Laufend) {frame sp : Nat} {target : ThreadId}
    (hok : s.LeiheTreu v (.switchTo frame target))
    (h : s.switchTo v frame target = some (sp, s')) :
    s'.Leihen (s.eintragen v (.switchTo frame target) g) := by
  obtain ⟨cur, t, hcur, ht, -, hblock, hdonor⟩ := scDonor_switchTo h
  obtain ⟨hfrei, hnicht⟩ := hok cur t hcur ht
  have hken : ∀ x, (s'.tcb x).kennung = (s.tcb x).kennung :=
    fun x => (starr_kennung x).blind.switchTo trivial trivial (starr_kennung x).spende h
  -- Whoever lends already is not the target and goes on waiting.
  have hkeep : ∀ d a, (s.tcb d).scDonor = some a → .ipc ∈ (s'.tcb a).reasons := by
    intro d a hd
    have htreu : Treu (fun e => e = .ipc ∧ s.resolve v target = some a) False False False
        (s.tcb a) (s'.tcb a) := treu_switchTo h
    by_contra hnot
    have hta := (htreu.lost .ipc (hs.steht d a hd).2.2 hnot).2
    obtain rfl : t = a := Option.some.inj (ht.symm.trans hta)
    exact hfrei ⟨d, hd⟩
  unfold eintragen
  rw [leihe_switchTo hcur ht]
  by_cases hlend : (s.tcb t).reasons.erase .ipc = ∅
  · have hct := hnicht hlend
    simp only [if_pos hlend]
    have hnew : (s.tcb (s.konto cur)).used = true ∧ .ipc ∈ (s'.tcb (s.konto cur)).reasons := by
      unfold konto at hct ⊢
      cases hown : (s.tcb cur).scDonor with
      | none =>
        rw [hown] at hct
        have hne : cur ≠ t := hct
        refine ⟨hlauf cur hcur, ?_⟩
        show .ipc ∈ (s'.tcb cur).reasons
        rw [hblock.resolve_right hne]
        exact Finset.mem_insert_self _ _
      | some a => exact ⟨(hs.steht cur a hown).1, hkeep cur a hown⟩
    have hcases : ∀ d a, (s'.tcb d).scDonor = some a →
        d = t ∧ a = s.konto cur ∨ d ≠ t ∧ (s.tcb d).scDonor = some a := by
      intro d a hd
      rw [hdonor] at hd
      by_cases hdt : d = t
      · rw [if_pos ⟨hdt, hlend⟩] at hd
        exact .inl ⟨hdt, (Option.some.inj hd).symm⟩
      · rw [if_neg fun hand => hdt hand.1] at hd
        exact .inr ⟨hdt, hd⟩
    constructor
    · intro d a hd
      obtain ⟨hid, hu⟩ := id_of_kennung (hken a)
      rw [hid, hu]
      rcases hcases d a hd with ⟨rfl, rfl⟩ | ⟨hdt, hold⟩
      · rw [update_self]
        exact ⟨hnew.1, rfl, hnew.2⟩
      · rw [update_of_ne hdt]
        obtain ⟨hused, hgeber, -⟩ := hs.steht d a hold
        exact ⟨hused, hgeber, hkeep d a hold⟩
    · intro d a hd
      rw [(id_of_kennung (hken d)).2]
      rcases hcases d a hd with ⟨rfl, -⟩ | ⟨-, hold⟩
      · exact resolve_used ht
      · exact hs.nimmt d a hold
    · intro d a hd
      rcases hcases d a hd with ⟨rfl, rfl⟩ | ⟨-, hold⟩
      · exact hct.symm
      · exact hs.fremd d a hold
  · simp only [if_neg hlend]
    refine hs.weiter fun d a hd => ?_
    rw [hdonor, if_neg fun hand => hlend hand.2] at hd
    exact ⟨hd, hken d, hken a, hkeep d a hd⟩

theorem Leihen.aufruf (hs : s.Leihen g) (hgut : s.Gut) {a : Aufruf} (hok : s.LeiheTreu v a)
    (h : s.aufruf v a = some s') : s'.Leihen (s.eintragen v a g) := by
  by_cases ha : ∃ frame target, a = .switchTo frame target
  · obtain ⟨frame, target, rfl⟩ := ha
    obtain ⟨sp, h⟩ := map_snd_eq_some h
    exact hs.switchTo hgut.2 hok h
  · have hne : ∀ frame target, a ≠ .switchTo frame target :=
      fun frame target heq => ha ⟨frame, target, heq⟩
    rw [eintragen_of_ne hne]
    refine hs.weiter fun d b hd => ?_
    have hold : (s.tcb d).scDonor = some b := by
      rcases scDonor_aufruf h hne d with hsame | ⟨-, hcut⟩
      · exact hsame.symm.trans hd
      · rw [hcut] at hd
        cases hd
    refine ⟨hold, (starr_kennung d).aufruf h, (starr_kennung b).aufruf h, ?_⟩
    by_contra hnot
    exact not_weckt_ipc hok ⟨d, hold⟩ hne
      ((treu_aufruf hgut.1 h b).lost .ipc (hs.steht d b hold).2.2 hnot)

theorem scDonor_spendeLoesen {i k : Nat} (h : spendeLoesen i s k = some s') (d : Nat) :
    (s'.tcb d).scDonor =
      if d = k ∧ k ≠ i ∧ (s.tcb k).used = true ∧ (s.tcb k).scDonor = some i then none
      else (s.tcb d).scDonor := by
  unfold spendeLoesen at h
  split at h
  · next hand =>
    have hcut : ((s.setScDonor k none).tcb d).scDonor =
        if d = k ∧ k ≠ i ∧ (s.tcb k).used = true ∧ (s.tcb k).scDonor = some i then none
        else (s.tcb d).scDonor := by
      unfold setScDonor
      rw [tcb_modifyTcb]
      by_cases hd : d = k
      · rw [if_pos hd, if_pos ⟨hd, hand⟩]
      · rw [if_neg hd, if_neg fun hall => hd hall.1]
    dsimp only at h
    split at h
    · exact (((blind_scDonor d).weckeFallsLauffaehig h).trans
        ((blind_scDonor d).setBudgetBlocked _ k false)).trans hcut
    · cases h
      exact hcut
  · next hand =>
    cases h
    rw [if_neg fun hall => hand hall.2]

/-- The links after the loosening of `i` has come to slot `k`. -/
structure Geloest (s : Scheduler) (i k : Nat) (t : Scheduler) : Prop where
  used : ∀ x, (t.tcb x).used = (s.tcb x).used
  alt : ∀ d a, (t.tcb d).scDonor = some a → (s.tcb d).scDonor = some a
  fort : ∀ d, d < k → d ≠ i → (s.tcb d).used = true → (t.tcb d).scDonor ≠ some i

theorem Geloest.schritt {i k : Nat} {t t' : Scheduler} (h : Geloest s i k t)
    (hstep : spendeLoesen i t k = some t') : Geloest s i (k + 1) t' := by
  have hdonor := scDonor_spendeLoesen hstep
  refine ⟨fun x => ((Bewahrt.spendeLoesen hstep).2.used x).trans (h.used x), fun d a hd => ?_,
    fun d hlt hne hu hlink => ?_⟩
  · rw [hdonor] at hd
    split at hd
    · cases hd
    · exact h.alt d a hd
  · rw [hdonor] at hlink
    split at hlink
    · cases hlink
    · next hkept =>
      have hdk : d ≠ k := by
        rintro rfl
        exact hkept ⟨rfl, hne, (h.used d).trans hu, hlink⟩
      exact h.fort d (by omega) hne hu hlink

theorem scDonor_recordZombie (hs : s.Leihen g) (hgut : s.Geordnet) {i : Nat}
    (h : s.recordZombie v i = some (s', v')) {d a : Nat} (hd : (s'.tcb d).scDonor = some a) :
    (s.tcb d).scDonor = some a ∧ d ≠ i ∧ a ≠ i := by
  obtain ⟨s₁, z, hrun, rfl⟩ := recordZombie_cases h
  rw [tcb_of_listengleich (listengleich_zombieAblegen _ z).1, tcb_slotLeeren] at hd
  split at hd
  · cases hd
  · next hdi =>
    have hd₁ : (s₁.tcb d).scDonor = some a :=
      (scDonor_doneeAustragen s₁ i d).symm.trans
        (((blind_scDonor d).removeFromReady _ i).symm.trans hd)
    have hscan : Geloest s i s.tcbs.len s₁ := run_range_invariant
      (fun _ _ _ ht hk => Geloest.schritt ht hk)
      ⟨fun _ => rfl, fun _ _ hold => hold, fun x hx => absurd hx (Nat.not_lt_zero x)⟩ hrun
    have hold := hscan.alt d a hd₁
    have hused := hs.nimmt d a hold
    obtain ⟨o, ho⟩ := hgut
    refine ⟨hold, hdi, ?_⟩
    rintro rfl
    exact hscan.fort d (ho.bound d hused) hdi hused hd₁

theorem Leihen.recordZombie (hs : s.Leihen g) (hgut : s.Geordnet) {i : Nat}
    (h : s.recordZombie v i = some (s', v')) : s'.Leihen g := by
  refine hs.weiter fun d a hd => ?_
  obtain ⟨hold, hdi, hai⟩ := scDonor_recordZombie hs hgut h hd
  obtain ⟨hloest, hken⟩ := loest_recordZombie hai h
  refine ⟨hold, (loest_recordZombie hdi h).2, hken, ?_⟩
  by_contra hnot
  exact absurd (hloest.lost .ipc (hs.steht d a hold).2.2 hnot).1 (by decide)

theorem Leihen.of_blind (hs : s.Leihen g)
    (hω : ∀ {β : Type} {ω : Scheduler → β}, Blind ω → ω s' = ω s)
    (hr : ∀ x, (s'.tcb x).reasons = (s.tcb x).reasons) : s'.Leihen g := by
  refine hs.weiter fun d a hd => ?_
  have hold : (s.tcb d).scDonor = some a := (hω (blind_scDonor d)).symm.trans hd
  refine ⟨hold, hω (starr_kennung d).blind, hω (starr_kennung a).blind, ?_⟩
  rw [hr]
  exact (hs.steht d a hold).2.2

theorem Leihen.dispatch (hs : s.Leihen g) (n : Nat) :
    ((s.removeFromReady n).setCurrent n).Leihen g :=
  hs.of_blind (fun hω => hω.dispatch s n) fun x => (queued_dispatch s n x).1

theorem Leihen.enqueueReady (hs : s.Leihen g) {i : Nat} (h : s.enqueueReady i = some s') :
    s'.Leihen g := by
  obtain ⟨p, hp⟩ := Wirkt.enqueueReady h
  refine hs.of_blind (fun hω => hω.enqueueReady h) fun x => ?_
  by_cases hx : x = i
  · subst hx
    exact hp.self.reasons
  · exact (hp.others x hx).reasons

theorem Leihen.exitCurrent (hs : s.Leihen g) (hgut : s.Geordnet) {sp : Nat}
    (h : s.exitCurrent v = some (sp, s', v')) : s'.Leihen g := by
  obtain ⟨cur, s₁, -, hz, hw⟩ := exitCurrent_cases h
  obtain ⟨n, -, rfl⟩ := wechseln_cases hw
  exact (hs.recordZombie hgut hz).dispatch n

theorem Leihen.removeFromReady (hs : s.Leihen g) (i : Nat) : (s.removeFromReady i).Leihen g :=
  hs.of_blind (fun hω => hω.removeFromReady s i) fun x => (queued_dispatch s i x).1

theorem Leihen.kill (hs : s.Leihen g) (hgut : s.Geordnet) {tid : ThreadId} {b : Bool}
    (h : s.kill v tid = some (b, s', v')) : s'.Leihen g := by
  rcases kill_cases h with rfl | ⟨i, -, -, hz⟩
  · exact hs
  · exact (hs.removeFromReady i).recordZombie (hgut.removeFromReady i) hz

/-- A thread nobody borrows from may leave. -/
theorem Leihen.detachForMigration (hs : s.Leihen g) {tid : ThreadId} {m : Migrant}
    (hok : ∀ i, s.Abziehbar v tid i → ¬ s.Verleiht i)
    (h : s.detachForMigration v tid = some (m, s')) : s'.Leihen g ∧ m.tcb.scDonor = none := by
  obtain ⟨i, n, hi, rfl, rfl⟩ := detachForMigration_cases h
  have hrem := hs.removeFromReady i
  have hnobody : ¬ (s.removeFromReady i).Verleiht i := by
    rintro ⟨d, hd⟩
    exact hok i hi ⟨d, ((blind_scDonor d).removeFromReady s i).symm.trans hd⟩
  refine ⟨?_, ((blind_scDonor i).removeFromReady s i).trans hi.2.2.1.1⟩
  refine hrem.weiter fun d a hd => ?_
  have hcell := tcb_slotLeeren (s.removeFromReady i)
  change (((s.removeFromReady i).slotLeeren i).tcb d).scDonor = some a at hd
  rw [hcell] at hd
  split at hd
  · cases hd
  · next hdi =>
    have hai : a ≠ i := by
      rintro rfl
      exact hnobody ⟨d, hd⟩
    have hd' := hcell i d
    have ha' := hcell i a
    rw [if_neg hdi] at hd'
    rw [if_neg hai] at ha'
    refine ⟨hd, congrArg Tcb.kennung hd', congrArg Tcb.kennung ha', ?_⟩
    exact ha' ▸ (hrem.steht d a hd).2.2

/-- A thread without a loan takes a free slot. -/
theorem Leihen.besetzt (hs : s.Leihen g) (hgut : s.Geordnet) {i : Nat} {t : Tcb}
    (hb : Besetzt s s' i t) (ht : t.scDonor = none) : s'.Leihen g := by
  have hfree := hb.unused hgut
  have hne : ∀ x, (s.tcb x).used = true → s'.tcb x = s.tcb x := by
    intro x hx
    rw [hb.tcb]
    refine if_neg ?_
    rintro rfl
    rw [hfree] at hx
    cases hx
  refine hs.weiter fun d a hd => ?_
  have hold : (s.tcb d).scDonor = some a := by
    rw [hb.tcb] at hd
    split at hd
    · rw [ht] at hd
      cases hd
    · exact hd
  obtain ⟨hused, -, hipc⟩ := hs.steht d a hold
  rw [hne d (hs.nimmt d a hold), hne a hused]
  exact ⟨hold, rfl, rfl, hipc⟩

theorem Leihen.zugang (hs : s.Leihen g) (hgut : s.Geordnet) {i : Nat} {t : Tcb}
    (hz : Zugang s s' i t) : s'.Leihen g := by
  have hb := hz.besetzt
  obtain ⟨free, halloc, ⟨gid, gen, sp, priority, base, len, rfl⟩, rfl⟩ := hz
  exact hs.besetzt hgut hb rfl

theorem Leihen.spawn (hs : s.Leihen g) (hgut : s.Gut) {sp base len priority : Nat}
    {r : Option ThreadId} (h : s.spawn v sp base len priority = some (r, s', v')) :
    s'.Leihen g := by
  rcases spawn_cases hgut h with rfl | ⟨i, t, s₁, hz, hcases⟩
  · exact hs
  · have hnew := hs.zugang hgut.1 hz
    rcases hcases with rfl | he
    · exact hnew
    · have hadm : (s₁.setAdmitted i).Leihen g := by
        refine hnew.of_blind (fun hω => hω.modifyTcb s₁ i fun _ => rfl) fun x => ?_
        exact feld_modifyTcb Tcb.reasons s₁ i x fun _ => rfl
      exact hadm.enqueueReady he

theorem Leihen.attachMigrated (hs : s.Leihen g) (hgut : s.Geordnet) {m : Migrant}
    (hused : m.tcb.used = true) (hm : m.tcb.scDonor = none)
    (h : s.attachMigrated v m = some (.ok (s', v'))) : s'.Leihen g := by
  obtain ⟨i, free, halloc, -, hcases⟩ := attachMigrated_aufnahme h
  have harrive := hs.besetzt hgut (besetzt_aufnehmen halloc hused) hm
  rcases hcases with ⟨-, he⟩ | ⟨-, rfl⟩
  · exact harrive.enqueueReady he
  · exact harrive

theorem ipc_unblock {tid : ThreadId} {b : Bool} {i : Nat} (hi : s.resolve v tid = some i)
    (h : s.unblock v tid = some (b, s')) : .ipc ∉ (s'.tcb i).reasons := by
  have hipc : Wirkt s (s.removeReason i .ipc) i _ := Wirkt.modifyTcb s i _
  have hgone : .ipc ∉ ((s.removeReason i .ipc).tcb i).reasons := by
    rw [hipc.self.reasons]
    exact Finset.notMem_erase _ _
  unfold unblock at h
  rw [hi] at h
  dsimp only at h
  split at h
  · next hempty =>
    cases h
    rw [hempty]
    exact Finset.notMem_empty _
  · split at h
    · cases h
      obtain ⟨t, ht, hreasons, -⟩ := wirkt_budgetHalten (s.removeReason i .ipc) i
      rw [ht.self.reasons, hreasons, Finset.mem_insert, not_or]
      exact ⟨by decide, hgone⟩
    · split at h
      · obtain ⟨s₁, he, htuple⟩ := Option.map_eq_some_iff.mp h
        cases htuple
        obtain ⟨p, hp⟩ := Wirkt.enqueueReady he
        rw [hp.self.reasons]
        exact hgone
      · cases h
        exact hgone

theorem haengt_aufruf (hs : s.Leihen g) (hgut : s.Geordnet) {a : Aufruf}
    (hbad : ¬ s.LeiheTreu v a) (h : s.aufruf v a = some s') :
    ∃ d i, (s'.tcb d).scDonor = some i ∧ .ipc ∉ (s'.tcb i).reasons := by
  cases a with
  | unblock tid =>
    simp only [LeiheTreu, not_forall, not_not, exists_prop] at hbad
    obtain ⟨i, hi, d, hd⟩ := hbad
    obtain ⟨b, h⟩ := map_snd_eq_some h
    exact ⟨d, i, ((blind_scDonor d).unblock trivial h).trans hd, ipc_unblock hi h⟩
  | switchTo frame target =>
    obtain ⟨sp, h⟩ := map_snd_eq_some h
    obtain ⟨cur, t, hcur, ht, hgone, -, hdonor⟩ := scDonor_switchTo h
    simp only [LeiheTreu, not_forall] at hbad
    obtain ⟨cur', t', hcur', ht', hbad⟩ := hbad
    obtain rfl : cur = cur' := Option.some.inj (hcur.symm.trans hcur')
    obtain rfl : t = t' := Option.some.inj (ht.symm.trans ht')
    by_cases hlent : s.Verleiht t
    · obtain ⟨d, hd⟩ := hlent
      refine ⟨d, t, ?_, hgone⟩
      rw [hdonor, if_neg fun hand => hs.fremd d t hd hand.1]
      exact hd
    · simp only [hlent, not_false_eq_true, true_and, not_forall, not_not, exists_prop] at hbad
      refine ⟨t, t, ?_, hgone⟩
      rw [hdonor, if_pos ⟨rfl, hbad.1⟩, hbad.2]
  | fristenFaellig outLen =>
    simp only [LeiheTreu, not_forall, not_not, exists_prop] at hbad
    obtain ⟨i, hi, d, hd⟩ := hbad
    obtain ⟨out, h⟩ := map_snd_eq_some h
    exact ⟨d, i, ((blind_scDonor d).fristenFaellig (fristBlind_scDonor d) h).trans hd,
      (loest_fristenFaellig hgut h i).2 .ipc hi⟩
  | _ => exact absurd trivial hbad

theorem haengt_detachForMigration (hs : s.Leihen g) {tid : ThreadId} {m : Migrant} {i : Nat}
    (hi : s.Abziehbar v tid i) (hlent : s.Verleiht i)
    (h : s.detachForMigration v tid = some (m, s')) :
    ∃ d, (s'.tcb d).scDonor = some i ∧ (s'.tcb i).used = false := by
  obtain ⟨j, n, hj, rfl, rfl⟩ := detachForMigration_cases h
  obtain rfl : i = j := Option.some.inj (hi.1.symm.trans hj.1)
  obtain ⟨d, hd⟩ := hlent
  have hcell := tcb_slotLeeren (s.removeFromReady i)
  have hd' := hcell i d
  have hi' := hcell i i
  rw [if_neg (hs.fremd d i hd)] at hd'
  rw [if_pos rfl] at hi'
  have hlink := congrArg Tcb.scDonor hd'
  have hgone := congrArg Tcb.used hi'
  exact ⟨d, (hlink.trans ((blind_scDonor d).removeFromReady s i)).trans hd, hgone⟩

end Scheduler

/-- The system, and for every slot the thread that last lent to it. -/
structure Leihbuch where
  system : System
  geber : Nat → Nat → Option ThreadId

namespace Leihbuch

open Scheduler

def init (a : Ausbau) : Leihbuch := ⟨System.init a, fun _ _ => none⟩

def geberNach (L : Leihbuch) : Op → Nat → Nat → Option ThreadId
  | .aufruf c a => update L.geber c
      ((L.system.cores c).eintragen L.system.verzeichnis a (L.geber c))
  | _ => L.geber

def step (L : Leihbuch) (op : Op) : Option Leihbuch :=
  (L.system.step op).map fun S => ⟨S, L.geberNach op⟩

def LeihenStehen (L : Leihbuch) : Prop :=
  ∀ c, (L.system.cores c).LeiheSteht (L.geber c) ∧
    ∀ cur, (L.system.cores c).current = some cur → (L.system.cores c).konto cur = cur ∨
      ((L.system.cores c).tcb ((L.system.cores c).konto cur)).used = true ∧
        L.geber c cur = some ((L.system.cores c).id ((L.system.cores c).konto cur))

/-- The conditions on a step: a thread somebody borrows from is not woken from its message wait
and does not leave, and nobody borrows from itself. -/
def Treu (L : Leihbuch) : Op → Prop
  | .aufruf c a => (L.system.cores c).LeiheTreu L.system.verzeichnis a
  | .detachForMigration c tid => ∀ i, (L.system.cores c).Abziehbar L.system.verzeichnis tid i →
      ¬ (L.system.cores c).Verleiht i
  | _ => True

/-- The invariant of the runs. -/
structure Ordentlich (L : Leihbuch) : Prop where
  gut : L.system.Gut
  core : ∀ c, (L.system.cores c).Leihen (L.geber c)
  unterwegs : ∀ m ∈ L.system.migranten, m.tcb.scDonor = none

variable {L L' : Leihbuch} {op : Op}

theorem ordentlich_init (a : Ausbau) : (init a).Ordentlich where
  gut := System.gut_init a
  core := fun _ =>
    ⟨(fun _ _ hd => nomatch hd), (fun _ _ hd => nomatch hd), (fun _ _ hd => nomatch hd)⟩
  unterwegs := fun m hm => by cases hm

theorem Ordentlich.stehen (h : L.Ordentlich) : L.LeihenStehen := by
  intro c
  refine ⟨(h.core c).steht, fun cur _ => ?_⟩
  unfold konto
  cases hd : ((L.system.cores c).tcb cur).scDonor with
  | none => exact .inl rfl
  | some a =>
    obtain ⟨hused, hgeber, -⟩ := (h.core c).steht cur a hd
    exact .inr ⟨hused, hgeber⟩

theorem geberNach_other {s : Scheduler} {ms : List Migrant} {c d : Nat}
    (hk : Kernschritt L.system.verzeichnis c (L.system.cores c) L.system.migranten op s ms)
    (hd : d ≠ c) : L.geberNach op d = L.geber d := by
  cases hk with
  | aufruf h => exact update_of_ne hd _ _
  | spawnParked hop h => rcases hop with rfl | rfl <;> rfl
  | _ => rfl

theorem Ordentlich.kern (h : L.Ordentlich) (hok : L.Treu op) {c : Nat} {s : Scheduler}
    {ms : List Migrant}
    (hk : Kernschritt L.system.verzeichnis c (L.system.cores c) L.system.migranten op s ms) :
    s.Leihen (L.geberNach op c) ∧ ∀ m ∈ ms, m.tcb.scDonor = none := by
  have hs := h.core c
  have hg := h.gut.1 c
  cases hk with
  | aufruf ha =>
    refine ⟨?_, h.unterwegs⟩
    show s.Leihen (update L.geber c _ c)
    rw [update_self]
    exact hs.aufruf hg hok ha
  | initCore hi =>
    obtain ⟨t, s₁, hz, rfl⟩ := initCore_cases hi
    have hnew := hs.zugang hg.1 hz
    exact ⟨⟨hnew.steht, hnew.nimmt, hnew.fremd⟩, h.unterwegs⟩
  | spawnParked hop hp =>
    obtain ⟨t, hz, -⟩ := spawnParked_cases hp
    rcases hop with rfl | rfl
    · exact ⟨hs.zugang hg.1 hz, h.unterwegs⟩
    · exact ⟨hs.zugang hg.1 hz, h.unterwegs⟩
  | spawn hn => exact ⟨hs.spawn hg hn, h.unterwegs⟩
  | exitCurrent he => exact ⟨hs.exitCurrent hg.1 he, h.unterwegs⟩
  | kill hkill => exact ⟨hs.kill hg.1 hkill, h.unterwegs⟩
  | reap hr =>
    obtain ⟨-, -, rfl⟩ := reap_eq_some hr
    exact ⟨⟨hs.steht, hs.nimmt, hs.fremd⟩, h.unterwegs⟩
  | detachForMigration hd =>
    obtain ⟨hs', hm⟩ := hs.detachForMigration hok hd
    refine ⟨hs', fun m' hm' => ?_⟩
    rcases List.mem_append.mp hm' with hold | hnew
    · exact h.unterwegs m' hold
    · exact List.mem_singleton.mp hnew ▸ hm
  | attachMigrated hm ha =>
    have hmem := List.mem_of_getElem? hm
    exact ⟨hs.attachMigrated hg.1 (h.gut.2 _ hmem) (h.unterwegs _ hmem) ha,
      fun m' hm' => h.unterwegs m' (List.mem_of_mem_eraseIdx hm')⟩

theorem step_ordentlich (h : L.Ordentlich) (hok : L.Treu op) (hstep : L.step op = some L') :
    L'.Ordentlich := by
  obtain ⟨S, hS, rfl⟩ := Option.map_eq_some_iff.mp hstep
  have hgut := System.step_gut L.system op S h.gut hS
  rcases System.step_kern hS with ⟨hcores, hms, hop⟩ | ⟨c, s, hcores, hk⟩
  · have hgeber : L.geberNach op = L.geber := by
      cases op with
      | aufruf c a => exact absurd rfl (hop c a)
      | _ => rfl
    refine ⟨hgut, fun c => ?_, fun m hm => h.unterwegs m (hms ▸ hm)⟩
    show (S.cores c).Leihen (L.geberNach op c)
    rw [hcores, hgeber]
    exact h.core c
  · obtain ⟨hs, hms⟩ := h.kern hok hk
    refine ⟨hgut, fun d => ?_, hms⟩
    show (S.cores d).Leihen (L.geberNach op d)
    rw [hcores]
    by_cases hd : d = c
    · subst hd
      rw [update_self]
      exact hs
    · rw [update_of_ne hd, geberNach_other hk hd]
      exact h.core d

theorem step_haengt (h : L.Ordentlich) (hbad : ¬ L.Treu op) (hstep : L.step op = some L') :
    ¬ L'.LeihenStehen := by
  obtain ⟨S, hS, rfl⟩ := Option.map_eq_some_iff.mp hstep
  intro hall
  have hlinks : ∀ c, (S.cores c).LeiheSteht (L.geberNach op c) := fun c => (hall c).1
  cases op with
  | aufruf c a =>
    obtain ⟨s, hs, rfl⟩ := Option.map_eq_some_iff.mp hS
    obtain ⟨d, i, hlink, hgone⟩ := haengt_aufruf (h.core c) (h.gut.1 c).1 hbad hs
    have hcore : (L.system.weiter c s L.system.verzeichnis).cores c = s := by
      show update L.system.cores c s c = s
      exact update_self ..
    have hc := hlinks c
    rw [hcore] at hc
    exact hgone (hc d i hlink).2.2
  | detachForMigration c tid =>
    simp only [Treu, not_forall, not_not, exists_prop] at hbad
    obtain ⟨i, hi, hlent⟩ := hbad
    unfold System.step at hS
    dsimp only at hS
    split at hS
    · next hnone => exact hi.detach hnone
    · next m s hs =>
      cases hS
      obtain ⟨d, hlink, hgone⟩ := haengt_detachForMigration (h.core c) hi hlent hs
      have hc : (update L.system.cores c s c).LeiheSteht (L.geber c) := hlinks c
      rw [update_self] at hc
      rw [(hc d i hlink).1] at hgone
      cases hgone
  | _ => exact hbad trivial

/-- After every prefix of a run all loans stand exactly if every step of the run meets the
conditions. -/
theorem run_leihenStehen_iff (a : Ausbau) (ops : List Op) (L : Leihbuch)
    (hrun : run step (init a) ops = some L) :
    (∀ xs M, xs <+: ops → run step (init a) xs = some M → M.LeihenStehen) ↔
      Admissible step Treu (init a) ops :=
  forall_reached_iff_admissible (fun _ h => h.stehen)
    (fun _ _ _ h hok hstep => step_ordentlich h hok hstep)
    (fun _ _ _ h hbad hstep => step_haengt h hbad hstep) (ordentlich_init a) hrun

/-- A calls B, B calls C, and C gives the account back: A is no longer recorded as a lender
while B still names it. -/
def verschachtelt : List Op :=
  [Op.initCore 0 0, Op.spawn 0 100 0 16 1, Op.spawn 0 200 0 16 1, Op.spawn 0 300 0 16 1,
    Op.aufruf 0 (.onTick 0 true), Op.aufruf 0 (.switchTo 0 ⟨2, 0⟩),
    Op.aufruf 0 (.switchTo 0 ⟨3, 0⟩), Op.aufruf 0 .endDonation]

/-- Now A moves away, and a new thread takes the slot that B is charged to. -/
theorem detached_lender_is_replaced :
    ¬ ∀ ops L, run step (init ⟨5, 5, by decide⟩) ops = some L → L.LeihenStehen := by
  have hread : (run step (init ⟨5, 5, by decide⟩)
      (verschachtelt ++ [Op.detachForMigration 0 ⟨1, 0⟩, Op.spawn 0 400 0 16 1])).map
        (fun L => (((L.system.cores 0).tcb 2).scDonor, (L.system.cores 0).id 1, L.geber 0 2)) =
      some (some 1, ⟨4, 0⟩, some ⟨1, 0⟩) := by
    decide +kernel
  obtain ⟨L, hL, heq⟩ := Option.map_eq_some_iff.mp hread
  simp only [Prod.mk.injEq] at heq
  obtain ⟨hlink, hid, hgeber⟩ := heq
  intro hall
  obtain ⟨-, hsame, -⟩ := (hall _ L hL 0).1 2 1 hlink
  rw [hid, hgeber] at hsame
  exact absurd hsame (by decide)

/-- The law for the run up to the move. -/
theorem run_leihenStehen_iff_nested :
    ∃ L, run step (init ⟨5, 5, by decide⟩) verschachtelt = some L ∧
      ((∀ xs M, xs <+: verschachtelt → run step (init ⟨5, 5, by decide⟩) xs = some M →
          M.LeihenStehen) ↔ Admissible step Treu (init ⟨5, 5, by decide⟩) verschachtelt) := by
  have hsome : (run step (init ⟨5, 5, by decide⟩) verschachtelt).isSome = true := by
    decide +kernel
  obtain ⟨L, hL⟩ := Option.isSome_iff_exists.mp hsome
  exact ⟨L, hL, run_leihenStehen_iff _ _ L hL⟩

end Leihbuch

end Caprock.Sched
