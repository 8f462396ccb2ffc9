import Caprock.Sched.Exhausted

/-! # Budgets

A bounded account pays for at most its budget of ticks between two refills, whoever runs on it,
and no thread is given the core while the account it is charged to is exhausted.  `Budgetbuch`
runs the system and counts the ticks.  The bound fails exactly where a tick charges an account
that is exhausted already.
-/

namespace Caprock.Sched

open Execution Function

namespace Scheduler

variable {s s' s₁ : Scheduler} {v v' : Verzeichnis} {i x cur : Nat}

def LeertSich (s : Scheduler) (cur : Nat) : Prop :=
  0 < (s.tcb (s.konto cur)).budget ∧
    (if s.tickFaellig (s.konto cur) then (s.tcb (s.konto cur)).budget
      else (s.tcb (s.konto cur)).remaining) ≤ 1

/-- Who else is charged to that account is queued nowhere and will not be, before it is filled
again: it waits for a message, it is the owner, or it is held for the refill. -/
def AlleinAufKonto (s : Scheduler) (cur : Nat) : Prop :=
  ∀ y, s.konto y = s.konto cur → (s.tcb y).queued = none ∧
    (y = cur ∨ .ipc ∈ (s.tcb y).reasons ∨ ¬ s.tickFaellig (s.konto cur) ∧
      (y = s.konto cur ∨ .budget ∈ (s.tcb y).reasons))

/-- A tick that uses an account up finds another thread ready, and nobody else on the account; a
yield is made on an open account, or by a thread that is held and makes room for another. -/
def TickDicht (s : Scheduler) (tick : Bool) : Prop :=
  ∀ cur, s.current = some cur →
    (tick = true → s.LeertSich cur →
      (∃ y, (s.tcb y).queued ≠ none) ∧ s.AlleinAufKonto cur) ∧
    (tick = false →
      s.Offen cur ∨ (s.tcb cur).reasons ≠ ∅ ∧ ∃ y, (s.tcb y).queued ≠ none)

theorem erschoepft_tickAnfang (hs : s.KontenOk) (h : s.tickAnfang true = some s₁) (cur : Nat) :
    s₁.erschoepft cur true ↔ s.LeertSich cur := by
  have hkonto := konto_tickAnfang h cur
  have hbild := (tickAnfang_konten hs h).2.2 (s.konto cur)
  have hbudget : (s₁.tcb (s.konto cur)).budget = (s.tcb (s.konto cur)).budget := by
    have hb := congrArg Tcb.budget hbild
    refine hb.trans ?_
    split
    · rfl
    · rfl
  have hrest : (s₁.tcb (s.konto cur)).remaining =
      if s.tickFaellig (s.konto cur) then (s.tcb (s.konto cur)).budget
      else (s.tcb (s.konto cur)).remaining := by
    have hr := congrArg Tcb.remaining hbild
    refine hr.trans ?_
    split
    · rfl
    · rfl
  unfold erschoepft LeertSich
  rw [hkonto, hbudget, hrest]
  exact and_iff_right rfl

theorem allein_tickAnfang (h : s.tickAnfang true = some s₁) (hcur : s.current = some cur)
    (hok : s.AlleinAufKonto cur) {y : Nat} (hy : s.konto y = s.konto cur) :
    (s₁.tcb y).queued = none ∧ (y = cur ∨ y = s.konto cur ∨
      .ipc ∈ (s₁.tcb y).reasons ∨ .budget ∈ (s₁.tcb y).reasons) := by
  have hloest := loest_tickAnfang (x := y) h
  obtain ⟨hq, hwhy⟩ := hok y hy
  have hheld : ∀ {g : Grund}, g ∈ (s₁.tcb y).reasons → (s₁.tcb y).queued = none := by
    intro g hg
    by_contra hne
    rw [(hloest.link hq hne).1] at hg
    exact Finset.notMem_empty g hg
  -- Only a borrower of an account that is due loses its budget reason.
  have hdue : ∀ {g : Grund}, g ∈ (s.tcb y).reasons → g ∉ (s₁.tcb y).reasons →
      y ≠ s.konto cur ∧ s.tickFaellig (s.konto cur) := by
    intro g hg hgone
    obtain ⟨-, k, hyk, hlink, hk⟩ := hloest.lost g hg hgone
    have hkonto : s.konto y = k := congrArg (fun d => Option.getD d y) hlink
    rw [← hy, hkonto]
    exact ⟨hyk, hk⟩
  rcases hwhy with hself | hipc | ⟨hnot, hown | hbudget⟩
  · refine ⟨?_, .inl hself⟩
    by_contra hne
    exact (hloest.link hq hne).2.2 (hself ▸ hcur)
  · have hstays : .ipc ∈ (s₁.tcb y).reasons := by
      by_contra hgone
      exact absurd (hloest.lost .ipc hipc hgone).1 (by decide)
    exact ⟨hheld hstays, .inr (.inr (.inl hstays))⟩
  · refine ⟨?_, .inr (.inl hown)⟩
    by_contra hne
    obtain ⟨hempty, hwhy, -⟩ := hloest.link hq hne
    rcases hwhy with hreasons | hself
    · obtain ⟨g, hg⟩ := Finset.nonempty_iff_ne_empty.mpr hreasons
      exact hnot (hdue hg (hempty ▸ Finset.notMem_empty g)).2
    · exact hnot (hown ▸ hself)
  · have hstays : .budget ∈ (s₁.tcb y).reasons := by
      by_contra hgone
      exact hnot (hdue hbudget hgone).2
    exact ⟨hheld hstays, .inr (.inr (.inr hstays))⟩

theorem queued_weckeFallsLauffaehig (hq : (s.tcb x).queued ≠ none)
    (h : s.weckeFallsLauffaehig i = some s') : (s'.tcb x).queued ≠ none := by
  unfold weckeFallsLauffaehig at h
  split at h
  · obtain ⟨p, hp⟩ := Wirkt.enqueueReady h
    by_cases hx : x = i
    · subst hx
      rw [hp.self.queued]
      exact Option.some_ne_none p
    · rw [(hp.others x hx).queued]
      exact hq
  · cases h
    exact hq

theorem queued_budgetAufheben (s : Scheduler) (i x : Nat) :
    ((s.setBudgetBlocked i false).tcb x).queued = (s.tcb x).queued := by
  obtain ⟨t, hw, ht⟩ := wirkt_budgetLoesen s i
  by_cases hx : x = i
  · subst hx
    exact hw.self.queued.trans ht.queued
  · exact (hw.others x hx).queued

theorem queued_refillSlot {k : Nat} (hq : (s.tcb x).queued ≠ none)
    (h : s.refillSlot k = some s') : (s'.tcb x).queued ≠ none := by
  have hscan : ∀ (t : Scheduler) (d : Nat) (t' : Scheduler), (t.tcb x).queued ≠ none →
      budgetWecken k t d = some t' → (t'.tcb x).queued ≠ none := by
    intro t d t' ht hd
    unfold budgetWecken at hd
    split at hd
    · refine queued_weckeFallsLauffaehig ?_ hd
      rw [queued_budgetAufheben]
      exact ht
    · cases hd
      exact ht
  rcases refillSlot_cases h with ⟨-, s₁, hlauf, hw⟩ | ⟨-, rfl⟩
  · have hfill : ((s.auffuellen k).tcb x).queued ≠ none := by
      rw [tcb_auffuellen]
      split
      · next hx => exact hx ▸ hq
      · exact hq
    have hloop : (s₁.tcb x).queued ≠ none := weckelauf_invariant hscan hfill hlauf
    rcases besitzerWecken_cases hw with hw | ⟨rfl, -⟩
    · exact queued_weckeFallsLauffaehig hloop hw
    · exact hloop
  · exact hq

theorem queued_tickAnfang {tick : Bool} (hq : (s.tcb x).queued ≠ none)
    (h : s.tickAnfang tick = some s') : (s'.tcb x).queued ≠ none :=
  tickAnfang_invariant (P := fun t => (t.tcb x).queued ≠ none)
    (fun _ _ _ ht hk => queued_refillSlot ht hk) hq hq h

namespace SperrenHalten

theorem of_gleich (hs : s.SperrenHalten) (h : ∀ x, Gleichstand (s.tcb x) (s'.tcb x))
    (hd : ∀ x, (s'.tcb x).scDonor = (s.tcb x).scDonor) :
    s'.SperrenHalten ∧ ∀ x, s'.Offen x ↔ s.Offen x := by
  have hoffen : ∀ x, s'.Offen x ↔ s.Offen x := by
    intro x
    have hkonto : s'.konto x = s.konto x := congrArg (fun d => Option.getD d x) (hd x)
    unfold Offen
    rw [hkonto, (h _).depleted]
  refine ⟨fun x => (hs x).imp (hoffen x).mpr fun hsperre => ?_, hoffen⟩
  exact hsperre.congr (h x).queued (hd x) (h x).reasons.symm.subset

/-- An account is used up while nobody else would run on it. -/
theorem erschoepfen (hs : s.SperrenHalten) {tick : Bool} (hout : s.erschoepft cur tick)
    (hallein : ∀ y, s.konto y = s.konto cur → (s.tcb y).queued = none ∧
      (y = cur ∨ y = s.konto cur ∨ .ipc ∈ (s.tcb y).reasons ∨ .budget ∈ (s.tcb y).reasons)) :
    (s.belasten cur tick).SperrenHalten := by
  have hdonor : ∀ x, ((s.belasten cur tick).tcb x).scDonor = (s.tcb x).scDonor :=
    fun x => (blind_scDonor x).belasten (kontenBlind_scDonor x) s cur tick
  have hdep : ∀ x, x ≠ s.konto cur →
      ((s.belasten cur tick).tcb x).depleted = (s.tcb x).depleted := by
    intro x hx
    have hempty : ((s.erschoepfen (s.konto cur)).tcb x).depleted = (s.tcb x).depleted := by
      rw [tcb_erschoepfen, if_neg hx]
    unfold belasten
    rw [if_pos hout]
    split
    · exact ((blind_depleted x).setBudgetBlocked _ cur true).trans hempty
    · exact hempty
  have hbudget : s.konto cur ≠ cur → .budget ∈ ((s.belasten cur tick).tcb cur).reasons := by
    intro hne
    unfold belasten
    rw [if_pos hout, if_pos hne]
    obtain ⟨t, hw, hr, -⟩ := wirkt_budgetHalten (s.erschoepfen (s.konto cur)) cur
    rw [hw.self.reasons, hr]
    exact Finset.mem_insert_self _ _
  intro x
  obtain ⟨hqueued, hreasons, -⟩ := stand_belasten s cur tick x
  have hkonto : (s.belasten cur tick).konto x = s.konto x :=
    congrArg (fun d => Option.getD d x) (hdonor x)
  by_cases hx : s.konto x = s.konto cur
  · obtain ⟨hq, hwhy⟩ := hallein x hx
    refine .inr ⟨hqueued.trans hq, fun hne => ?_⟩
    have hforeign : s.konto x ≠ x := by
      rw [← hkonto]
      exact hne
    rcases hwhy with rfl | hown | hheld
    · exact .inr (hbudget hforeign)
    · exact absurd (hx.trans hown.symm) hforeign
    · exact hheld.imp (fun hmem => hreasons hmem) fun hmem => hreasons hmem
  · refine (hs x).imp (fun hoffen => ?_) fun hsperre => hsperre.congr hqueued (hdonor x) hreasons
    show ((s.belasten cur tick).tcb ((s.belasten cur tick).konto x)).depleted = false
    rw [hkonto, hdep _ hx]
    exact hoffen

/-- The running thread goes back into its list on an open account, or its account is used up. -/
theorem zurueckreihen (hs : s.SperrenHalten) {frame : Nat} {tick : Bool}
    (hlast : ∀ cur, s.current = some cur → (s.tcb cur).reasons = ∅ → ¬ s.erschoepft cur tick →
      s.Offen cur)
    (hallein : ∀ cur, s.current = some cur → s.erschoepft cur tick → ∀ y,
      s.konto y = s.konto cur → (s.tcb y).queued = none ∧
        (y = cur ∨ y = s.konto cur ∨ .ipc ∈ (s.tcb y).reasons ∨ .budget ∈ (s.tcb y).reasons))
    (h : s.zurueckreihen frame tick = some s') :
    s'.SperrenHalten ∧ ∀ cur, s.current = some cur → ¬ s.erschoepft cur tick →
      (s'.Offen cur ↔ s.Offen cur) := by
  unfold Scheduler.zurueckreihen at h
  split at h
  · next hnone =>
    cases h
    exact ⟨hs, fun cur hcur => absurd (hnone.symm.trans hcur) (Option.some_ne_none cur).symm⟩
  · next cur hcur =>
    dsimp only at h
    have hsave : ∀ x, Gleichstand (s.tcb x) ((s.setSp cur frame).tcb x) := by
      intro x
      refine gleichstand_modifyTcb s cur ?_ x
      exact fun _ => ⟨rfl, rfl, rfl, rfl, rfl⟩
    have hdonor : ∀ x, ((s.setSp cur frame).tcb x).scDonor = (s.tcb x).scDonor :=
      fun x => (blind_scDonor x).setSp s cur frame
    obtain ⟨hsaved, hopen⟩ := hs.of_gleich hsave hdonor
    obtain ⟨hout, hacct⟩ := erschoepft_setSp s cur frame cur tick
    -- A charge that leaves something changes no flag.
    have hcharge : ¬ s.erschoepft cur tick → ((s.setSp cur frame).belasten cur tick).SperrenHalten ∧
        ∀ x, ((s.setSp cur frame).belasten cur tick).Offen x ↔ (s.setSp cur frame).Offen x := by
      intro hnot
      refine hsaved.of_gleich (fun x => ((belasten_lasting (hout.not.mpr hnot)).2 x).1) fun x => ?_
      exact (blind_scDonor x).belasten (kontenBlind_scDonor x) _ cur tick
    have hrun : ∀ {cur' : Nat}, s.current = some cur' → cur' = cur :=
      fun hcur' => Option.some.inj (hcur'.symm.trans hcur)
    split at h
    · next hfree =>
      have hnot := hout.not.mp hfree.2
      obtain ⟨hcharged, hsame⟩ := hcharge hnot
      have hoffen := hlast cur hcur ((hsave cur).reasons.symm.trans hfree.1) hnot
      refine ⟨hcharged.enqueueReady ((hsame cur).mpr ((hopen cur).mpr hoffen)) h, ?_⟩
      intro cur' hcur' _
      rw [hrun hcur', (blind_offen cur).enqueueReady h, hsame cur, hopen cur]
    · cases h
      by_cases hempty : s.erschoepft cur tick
      · refine ⟨hsaved.erschoepfen (hout.mpr hempty) fun y hy => ?_, ?_⟩
        · have hyk : (s.setSp cur frame).konto y = s.konto y :=
            congrArg (fun d => Option.getD d y) (hdonor y)
          rw [hyk, hacct] at hy
          rw [hacct, (hsave y).queued, (hsave y).reasons]
          exact hallein cur hcur hempty y hy
        · intro cur' hcur' hnot
          exact absurd hempty (hrun hcur' ▸ hnot)
      · obtain ⟨hcharged, hsame⟩ := hcharge hempty
        refine ⟨hcharged, fun cur' hcur' _ => ?_⟩
        rw [hrun hcur', hsame cur, hopen cur]

end SperrenHalten

theorem queued_zurueckreihen {frame : Nat} {tick : Bool} (hq : (s.tcb x).queued ≠ none)
    (hx : s.current ≠ some x ∨ (s.tcb x).reasons ≠ ∅)
    (h : s.zurueckreihen frame tick = some s') : (s'.tcb x).queued ≠ none := by
  obtain ⟨hsub, hcases⟩ := stand_zurueckreihen h x
  rcases hcases with ⟨hsame, -⟩ | ⟨hcur, hempty⟩
  · rw [hsame]
    exact hq
  · rcases hx with hne | hheld
    · exact absurd hcur hne
    · rw [hempty] at hsub
      exact absurd (Finset.subset_empty.mp hsub) hheld

/-- After a tick the core is with a thread whose account is open. -/
theorem SperrenHalten.onTick (hs : s.SperrenHalten) (hk : s.KontenOk) (hgut : s.Gut)
    {frame sp : Nat} {tick : Bool} (hok : s.TickDicht tick)
    (h : s.onTick frame tick = some (sp, s')) :
    s'.SperrenHalten ∧ ∀ x, s'.current = some x → s'.Offen x := by
  obtain ⟨s₁, s₂, h₁, h₂, hcases⟩ := onTick_cases h
  have hs₁ := hs.tickAnfang h₁
  have hcur₁ := (Bewahrt.tickAnfang h₁).2.current
  have hkonto₁ := konto_tickAnfang h₁
  have hgut₁ := (Bewahrt.tickAnfang h₁).gut hgut
  have hgut₂ := (Bewahrt.zurueckreihen hgut₁.2 h₂).gut hgut₁
  -- The running thread goes on only on an open account, else another one stays queued.
  have hwho : ∀ cur, s₁.current = some cur →
      (s₁.erschoepft cur tick → ∀ y, s₁.konto y = s₁.konto cur → (s₁.tcb y).queued = none ∧
        (y = cur ∨ y = s₁.konto cur ∨ .ipc ∈ (s₁.tcb y).reasons ∨ .budget ∈ (s₁.tcb y).reasons)) ∧
      (¬ s₁.erschoepft cur tick ∧ s₁.Offen cur ∨
        (s₁.erschoepft cur tick ∨ (s₁.tcb cur).reasons ≠ ∅) ∧ ∃ y, (s₂.tcb y).queued ≠ none) := by
    intro cur hcur
    have hrun : s.current = some cur := hcur₁.symm.trans hcur
    obtain ⟨htick, hyield⟩ := hok cur hrun
    cases tick with
    | true =>
      have hleert := erschoepft_tickAnfang hk h₁ cur
      constructor
      · intro hout y hy
        rw [hkonto₁, hkonto₁] at hy
        rw [hkonto₁]
        exact allein_tickAnfang h₁ hrun (htick rfl (hleert.mp hout)).2 hy
      · by_cases hout : s₁.erschoepft cur true
        · obtain ⟨⟨y, hy⟩, hallein⟩ := htick rfl (hleert.mp hout)
          have hne : y ≠ cur := by
            rintro rfl
            exact hy (hallein y rfl).1
          refine .inr ⟨.inl hout, y, queued_zurueckreihen (queued_tickAnfang hy h₁) (.inl ?_) h₂⟩
          rw [hcur]
          exact fun heq => hne (Option.some.inj heq).symm
        · refine .inl ⟨hout, ?_⟩
          by_contra hdep
          obtain ⟨-, hbudget, hrest⟩ :=
            (tickAnfang_konten hk h₁).1.leer (Bool.eq_true_of_not_eq_false hdep)
          exact hout ⟨rfl, hbudget, by omega⟩
    | false =>
      cases h₁
      have hnot : ¬ s.erschoepft cur false := fun hout => nomatch hout.1
      refine ⟨fun hout => absurd hout hnot, ?_⟩
      rcases hyield rfl with hoffen | ⟨hheld, y, hy⟩
      · exact .inl ⟨hnot, hoffen⟩
      · refine .inr ⟨.inr hheld, y, queued_zurueckreihen hy ?_ h₂⟩
        by_cases hyc : y = cur
        · exact .inr (hyc ▸ hheld)
        · rw [hcur]
          exact .inl fun heq => hyc (Option.some.inj heq).symm
  have hlast : ∀ cur, s₁.current = some cur → (s₁.tcb cur).reasons = ∅ →
      ¬ s₁.erschoepft cur tick → s₁.Offen cur := by
    intro cur hcur hfree hnot
    rcases (hwho cur hcur).2 with ⟨-, hoffen⟩ | ⟨hwhy, -⟩
    · exact hoffen
    · exact absurd hwhy (not_or.mpr ⟨hnot, not_not.mpr hfree⟩)
  obtain ⟨hs₂, hopen⟩ := hs₁.zurueckreihen hlast (fun cur hcur => (hwho cur hcur).1) h₂
  obtain ⟨l, ho⟩ := hgut₂.1
  rcases hcases with ⟨hn, rfl⟩ | ⟨n, hn, rfl⟩
  · refine ⟨hs₂, fun x hx => ?_⟩
    have hcur : s₁.current = some x := (Bewahrt.zurueckreihen hgut₁.2 h₂).2.current.symm.trans hx
    rcases (hwho x hcur).2 with ⟨hnot, hoffen⟩ | ⟨-, y, hy⟩
    · exact (hopen x hcur hnot).mpr hoffen
    · obtain ⟨p, hp⟩ := Option.ne_none_iff_exists'.mp hy
      have hmem := (ho.mem p y).mpr hp
      rw [ho.hoechster_eq_none hn p] at hmem
      exact absurd hmem List.not_mem_nil
  · refine ⟨hs₂.dispatch n, fun x hx => ?_⟩
    obtain rfl : n = x := Option.some.inj hx
    obtain ⟨p, -, hq, -⟩ := ho.hoechster_eq_some hn
    rw [(blind_offen n).dispatch s₂ n]
    exact hs₂.offen_of_queued (hq ▸ Option.some_ne_none p)

/-- The calls that give the core to a thread: not a park that only uses a wake mark up. -/
def Verteilt (s : Scheduler) : Aufruf → Prop
  | .blockCurrent _ | .blockForHandler _ | .blockForLoad _ | .switchTo _ _ | .onTick _ _ => True
  | .parkCurrent _ => ∀ cur, s.current = some cur → (s.tcb cur).parkWake = false
  | _ => False

def AufrufDicht (s : Scheduler) (v : Verzeichnis) : Aufruf → Prop
  | .admitThread tid => ∀ i, s.resolve v tid = some i → s.Offen i
  | .fristenFaellig outLen => s.FristDicht outLen
  | .switchTo _ target => s.RufDicht v target
  | .endDonation => s.RueckgabeDicht
  | .onTick _ tick => s.TickDicht tick
  | _ => True

theorem SperrenHalten.aufruf (hs : s.SperrenHalten) (hk : s.KontenOk) (hgut : s.Gut) {a : Aufruf}
    (hok : s.AufrufDicht v a) (h : s.aufruf v a = some s') :
    s'.SperrenHalten ∧ (s.Verteilt a → ∀ x, s'.current = some x → s'.Offen x) := by
  cases a with
  | admitThread tid =>
    obtain ⟨b, h⟩ := map_snd_eq_some h
    exact ⟨hs.admitThread hok h, False.elim⟩
  | blockCurrent frame | blockForHandler frame | blockForLoad frame =>
    obtain ⟨sp, h⟩ := map_snd_eq_some h
    exact (hs.blockCurrentMit hgut h).imp_right fun hx _ => hx
  | parkCurrent frame =>
    obtain ⟨r, h⟩ := map_snd_eq_some h
    unfold Scheduler.parkCurrent at h
    split at h
    · cases h
    · next cur hcur =>
      split at h
      · next hwake =>
        cases h
        refine ⟨hs.setParkWake cur false, fun hblocks => ?_⟩
        rw [hblocks cur hcur] at hwake
        cases hwake
      · obtain ⟨⟨sp, t⟩, hblock, htuple⟩ := Option.map_eq_some_iff.mp h
        cases htuple
        exact (hs.blockCurrentMit hgut hblock).imp_right fun hx _ => hx
  | switchTo frame target =>
    obtain ⟨sp, h⟩ := map_snd_eq_some h
    exact (hs.switchTo hgut.1 hok h).imp_right fun hx _ => hx
  | unblock tid =>
    obtain ⟨b, h⟩ := map_snd_eq_some h
    exact ⟨hs.unblock h, False.elim⟩
  | unpark tid =>
    obtain ⟨b, h⟩ := map_snd_eq_some h
    exact ⟨hs.unpark h, False.elim⟩
  | pause tid =>
    cases h
    exact ⟨hs.anhalten v tid .pause, False.elim⟩
  | resume tid | handlerReply tid | loadReply tid =>
    obtain ⟨b, h⟩ := map_snd_eq_some h
    exact ⟨hs.grundAufheben (by decide) (by decide) h, False.elim⟩
  | markHandlerWait tid =>
    cases h
    exact ⟨hs.anhalten v tid .handler, False.elim⟩
  | debugStop tid =>
    cases h
    exact ⟨hs.einmalAnhalten v tid .debug, False.elim⟩
  | debugContinue tid | thawGroup tid =>
    obtain ⟨b, h⟩ := map_snd_eq_some h
    exact ⟨hs.gesetztenGrundAufheben (by decide) (by decide) h, False.elim⟩
  | debugReleasePd pdOf pd =>
    obtain ⟨n, h⟩ := map_snd_eq_some h
    exact ⟨hs.debugReleasePd h, False.elim⟩
  | freezeGroup tid =>
    cases h
    exact ⟨hs.einmalAnhalten v tid .freeze, False.elim⟩
  | fristSetzen ticks grund =>
    refine ⟨?_, False.elim⟩
    change s.fristSetzen ticks grund = some s' at h
    unfold Scheduler.fristSetzen at h
    split at h
    · cases h
    · next cur hcur =>
      split at h
      · cases h
        exact hs.setFrist cur 0 none
      · cases h
        exact (hs.setFrist cur _ _).of_tcbs rfl
  | fristLoeschen tid =>
    cases h
    refine ⟨?_, False.elim⟩
    unfold Scheduler.fristLoeschen
    split
    · exact hs
    · next i hi => exact hs.setFrist i 0 none
  | fristenFaellig outLen =>
    obtain ⟨out, h⟩ := map_snd_eq_some h
    exact ⟨hs.fristenFaellig hgut.1 hok h, False.elim⟩
  | onTick frame tick =>
    obtain ⟨sp, h⟩ := map_snd_eq_some h
    exact (hs.onTick hk hgut hok h).imp_right fun hx _ => hx
  | setBudget tid budget period =>
    obtain ⟨b, h⟩ := map_snd_eq_some h
    exact ⟨hs.setBudget h, False.elim⟩
  | endDonation =>
    cases h
    exact ⟨hs.endDonation hok, False.elim⟩

end Scheduler

namespace System

open Scheduler

variable {S S' : System} {op : Op}

/-- The conditions on a step: no tick charges an exhausted account, and nobody comes into a ready
list, stays in one or goes on running on an exhausted account. -/
def Dicht (S : System) : Op → Prop
  | .aufruf c a => S.UnerschoepftBelastet (.aufruf c a) ∧ (S.cores c).AufrufDicht S.verzeichnis a
  | .exitCurrent c => ∀ cur, (S.cores c).current = some cur → (S.cores c).EndeDicht cur
  | .kill c tid => ∀ i, (S.cores c).resolve S.verzeichnis tid = some i → (S.cores c).EndeDicht i
  | .attachMigrated c k => ∀ m, S.migranten[k]? = some m → m.tcb.depleted = true →
      ∀ i free, (S.cores c).free.alloc = some (i, free) →
        ∀ d, ((S.cores c).tcb d).scDonor = some i → Gesperrt d ((S.cores c).tcb d)
  | _ => True

def ZuteilungOffen (S : System) (op : Op) (S' : System) : Prop :=
  match op with
  | .aufruf c a => (S.cores c).Verteilt a →
      ∀ x, (S'.cores c).current = some x → (S'.cores c).Offen x
  | .exitCurrent c => ∀ x, (S'.cores c).current = some x → (S'.cores c).Offen x
  | _ => True

def MigrantOffen (m : Migrant) : Prop :=
  m.tcb.scDonor = none ∧ (m.wasReady = true → m.tcb.depleted = false)

theorem unerschoepft_of_dicht (hok : S.Dicht op) : S.UnerschoepftBelastet op := by
  cases op with
  | aufruf c a => exact hok.1
  | _ => trivial

theorem sperrenHalten_init (a : Ausbau) : (init a).Ueberall SperrenHalten MigrantOffen :=
  ⟨fun _ _ => .inl rfl, fun _ hm => nomatch hm⟩

theorem step_sperrenHalten (hS : S.Ueberall SperrenHalten MigrantOffen)
    (hk : S.Ueberall KontenOk fun m => m.tcb.KontoOk) (hgut : S.Gut) (hok : S.Dicht op)
    (hstep : S.step op = some S') : S'.Ueberall SperrenHalten MigrantOffen := by
  refine hS.step hstep fun c s ms' hkern => ?_
  have hs := hS.1 c
  have hg := hgut.1 c
  cases hkern with
  | aufruf h => exact ⟨(hs.aufruf (hk.1 c) hg hok.2 h).1, hS.2⟩
  | initCore h =>
    obtain ⟨t, s₁, hz, rfl⟩ := initCore_cases h
    exact ⟨(hs.zugang hz).1.of_tcbs rfl, hS.2⟩
  | spawnParked hop h =>
    obtain ⟨t, hz, -⟩ := spawnParked_cases h
    exact ⟨(hs.zugang hz).1, hS.2⟩
  | spawn h => exact ⟨hs.spawn hg h, hS.2⟩
  | exitCurrent h => exact ⟨(hs.exitCurrent hg hok h).1, hS.2⟩
  | kill h => exact ⟨hs.kill hok h, hS.2⟩
  | reap h =>
    refine ⟨?_, hS.2⟩
    obtain ⟨-, -, rfl⟩ := reap_eq_some h
    exact hs.of_tcbs rfl
  | detachForMigration h =>
    obtain ⟨hs', hm⟩ := hs.detachForMigration h
    refine ⟨hs', fun m' hm' => ?_⟩
    rcases List.mem_append.mp hm' with hold | hnew
    · exact hS.2 m' hold
    · exact List.mem_singleton.mp hnew ▸ hm
  | attachMigrated hm h =>
    have hmem := List.mem_of_getElem? hm
    obtain ⟨hlink, hready⟩ := hS.2 _ hmem
    exact ⟨hs.attachMigrated (hgut.2 _ hmem) hlink hready (hok _ hm) h,
      fun m' hm' => hS.2 m' (List.mem_of_mem_eraseIdx hm')⟩

theorem step_zuteilungOffen (hS : S.Ueberall SperrenHalten MigrantOffen)
    (hk : S.Ueberall KontenOk fun m => m.tcb.KontoOk) (hgut : S.Gut) (hok : S.Dicht op)
    (hstep : S.step op = some S') : S.ZuteilungOffen op S' := by
  have hcore : ∀ c s v, (S.weiter c s v).cores c = s := by
    intro c s v
    show update S.cores c s c = s
    exact update_self ..
  cases op with
  | aufruf c a =>
    obtain ⟨s, hs, rfl⟩ := Option.map_eq_some_iff.mp hstep
    intro hgives
    rw [hcore]
    exact ((hS.1 c).aufruf (hk.1 c) (hgut.1 c) hok.2 hs).2 hgives
  | exitCurrent c =>
    obtain ⟨⟨sp, s, v⟩, hs, rfl⟩ := Option.map_eq_some_iff.mp hstep
    show ∀ x, ((S.weiter c s v).cores c).current = some x → ((S.weiter c s v).cores c).Offen x
    rw [hcore]
    exact ((hS.1 c).exitCurrent (hgut.1 c) hok hs).2
  | _ => trivial

end System

/-- What was charged to the account since it was full, and what is left of it, is its budget. -/
def Tcb.Stand (t : Tcb) (n : Nat) : Prop :=
  0 < t.budget → n + t.remaining = t.budget ∧ (t.depleted = false → 0 < t.remaining)

theorem Tcb.Stand.congr {t t' : Tcb} {n : Nat} (h : t.Stand n) (ht : t'.kontobild = t.kontobild) :
    t'.Stand n := by
  have hshown := congrArg (fun t : Tcb => t.Stand n) ht
  exact hshown.symm ▸ h

namespace Scheduler

variable {s s' s₁ : Scheduler} {v v' : Verzeichnis} {n : Nat → Nat}

/-- The counts after a tick: an account that the refill scan filled starts anew, and the account
of the running thread is charged. -/
def zaehlen (s : Scheduler) (n : Nat → Nat) : Nat → Nat :=
  match s.tickAnfang true with
  | none => n
  | some s₁ => fun x =>
      (if (s.tcb x).depleted = true ∧ (s₁.tcb x).depleted = false then 0 else n x) +
        if s.current.map s.konto = some x then 1 else 0

/-- The counts after a call; a new budget starts anew. -/
def zaehlerNach (s : Scheduler) (v : Verzeichnis) (n : Nat → Nat) : Aufruf → Nat → Nat
  | .onTick _ true => s.zaehlen n
  | .setBudget tid _ _ =>
      match s.resolve v tid with
      | some i => update n i 0
      | none => n
  | _ => n

/-- The counts fit the accounts of the core. -/
def Gezaehlt (s : Scheduler) (n : Nat → Nat) : Prop := ∀ x, (s.tcb x).Stand (n x)

theorem Gezaehlt.congr (hs : s.Gezaehlt n) (h : s'.kontenbild = s.kontenbild) : s'.Gezaehlt n :=
  fun x => (hs x).congr (kontobild_of_kontenbild h x)

/-- The refill scan of a tick. -/
theorem Gezaehlt.tickAnfang (hs : s.Gezaehlt n) (hk : s.KontenOk)
    (h : s.tickAnfang true = some s₁) : s₁.Gezaehlt fun x =>
      if (s.tcb x).depleted = true ∧ (s₁.tcb x).depleted = false then 0 else n x := by
  intro x
  have hbild := (tickAnfang_konten hk h).2.2 x
  have hdep := congrArg Tcb.depleted hbild
  by_cases hdue : s.tickFaellig x
  · rw [if_pos hdue] at hbild
    have hopen : (s₁.tcb x).depleted = false := by
      rw [if_pos hdue] at hdep
      exact hdep
    have hfull : (s.tcb x).voll.Stand 0 := fun hpos => ⟨Nat.zero_add _, fun _ => hpos⟩
    dsimp only
    rw [if_pos ⟨hdue.2.2.1, hopen⟩]
    exact hfull.congr hbild
  · rw [if_neg hdue] at hbild hdep
    have hsame : (s₁.tcb x).depleted = (s.tcb x).depleted := hdep
    dsimp only
    rw [if_neg fun hand => Bool.false_ne_true (hand.2.symm.trans (hsame.trans hand.1))]
    exact (hs x).congr hbild

theorem kontobild_belasten (s : Scheduler) (cur x : Nat) :
    ((s.belasten cur true).tcb x).kontobild =
      if x = s.konto cur ∧ 0 < (s.tcb x).budget then
        (if (s.tcb x).remaining ≤ 1 then (s.tcb x).entleert s.now
          else { s.tcb x with remaining := (s.tcb x).remaining - 1 }).kontobild
      else (s.tcb x).kontobild := by
  unfold belasten
  by_cases hout : s.erschoepft cur true
  · have hempty : ((s.erschoepfen (s.konto cur)).tcb x).kontobild =
        if x = s.konto cur ∧ 0 < (s.tcb x).budget then
          (if (s.tcb x).remaining ≤ 1 then (s.tcb x).entleert s.now
            else { s.tcb x with remaining := (s.tcb x).remaining - 1 }).kontobild
        else (s.tcb x).kontobild := by
      rw [tcb_erschoepfen]
      by_cases hx : x = s.konto cur
      · rw [if_pos hx, if_pos ⟨hx, hx ▸ hout.2.1⟩, if_pos (hx ▸ hout.2.2), hx]
      · rw [if_neg hx, if_neg fun hand => hx hand.1]
    rw [if_pos hout]
    split
    · have hheld := kontobild_of_kontenbild
        (blind_kontenbild.setBudgetBlocked (s.erschoepfen (s.konto cur)) cur true) x
      exact hheld.trans hempty
    · exact hempty
  · rw [if_neg hout]
    split
    · next hcharge =>
      have hmore : ¬ (s.tcb (s.konto cur)).remaining ≤ 1 := fun hle => hout ⟨rfl, hcharge.2, hle⟩
      unfold setRemaining
      rw [tcb_modifyTcb]
      by_cases hx : x = s.konto cur
      · rw [if_pos hx, if_pos ⟨hx, hx ▸ hcharge.2⟩, if_neg (hx ▸ hmore), hx]
      · rw [if_neg hx, if_neg fun hand => hx hand.1]
    · next hnot =>
      rw [if_neg]
      rintro ⟨rfl, hpos⟩
      exact hnot ⟨rfl, hpos⟩

theorem zaehlen_of_tickAnfang (h : s.tickAnfang true = some s₁) (n : Nat → Nat) (x : Nat) :
    s.zaehlen n x = (if (s.tcb x).depleted = true ∧ (s₁.tcb x).depleted = false then 0 else n x) +
      if s.current.map s.konto = some x then 1 else 0 := by
  unfold zaehlen
  rw [h]

theorem kontobild_onTick {frame sp cur : Nat} (hcur : s.current = some cur)
    (h : s.onTick frame true = some (sp, s')) :
    ∃ s₁, s.tickAnfang true = some s₁ ∧ ∀ x, (s'.tcb x).kontobild =
      if x = s.konto cur ∧ 0 < (s₁.tcb x).budget then
        (if (s₁.tcb x).remaining ≤ 1 then (s₁.tcb x).entleert s₁.now
          else { s₁.tcb x with remaining := (s₁.tcb x).remaining - 1 }).kontobild
      else (s₁.tcb x).kontobild := by
  obtain ⟨s₁, h₁, hcases⟩ := kontenbild_onTick h
  rcases hcases with ⟨hnone, -⟩ | ⟨cur', hcur', hbild⟩
  · rw [hcur] at hnone
    cases hnone
  · obtain rfl : cur = cur' := Option.some.inj (hcur.symm.trans hcur')
    refine ⟨s₁, h₁, fun x => ?_⟩
    have hsave := kontobild_of_kontenbild (blind_kontenbild.setSp s₁ cur frame)
    have hacct : (s₁.setSp cur frame).konto cur = s.konto cur :=
      ((blind_konto cur).setSp s₁ cur frame).trans (konto_tickAnfang h₁ cur)
    have hbudget : ((s₁.setSp cur frame).tcb x).budget = (s₁.tcb x).budget := by
      have hb := congrArg Tcb.budget (hsave x)
      exact hb
    have hrest : ((s₁.setSp cur frame).tcb x).remaining = (s₁.tcb x).remaining := by
      have hr := congrArg Tcb.remaining (hsave x)
      exact hr
    rw [kontobild_of_kontenbild hbild, kontobild_belasten, hacct, hbudget, hrest]
    split
    · split
      · have hempty := congrArg (fun t : Tcb => (t.entleert s₁.now).kontobild) (hsave x)
        exact hempty
      · have hless := congrArg (fun t : Tcb =>
          ({ t with remaining := (s₁.tcb x).remaining - 1 } : Tcb).kontobild) (hsave x)
        exact hless
    · exact hsave x

theorem Gezaehlt.onTick (hs : s.Gezaehlt n) (hk : s.KontenOk) (hok : ¬ s.ErschoepftBelastet)
    {frame sp : Nat} (h : s.onTick frame true = some (sp, s')) : s'.Gezaehlt (s.zaehlen n) := by
  cases hcur : s.current with
  | none =>
    obtain ⟨s₁, h₁, hcases⟩ := kontenbild_onTick h
    intro x
    have hx := hs.tickAnfang hk h₁ x
    rw [zaehlen_of_tickAnfang h₁, hcur]
    rcases hcases with ⟨-, hbild⟩ | ⟨cur, hcur', -⟩
    · exact hx.congr (kontobild_of_kontenbild hbild x)
    · rw [hcur] at hcur'
      cases hcur'
  | some cur =>
    obtain ⟨s₁, h₁, hbild⟩ := kontobild_onTick hcur h
    intro x
    have hx := hs.tickAnfang hk h₁ x
    have hself := hbild x
    dsimp only at hx
    rw [zaehlen_of_tickAnfang h₁, hcur]
    show (s'.tcb x).Stand (_ + if some (s.konto cur) = some x then 1 else 0)
    by_cases hacct : x = s.konto cur
    · rw [if_pos (congrArg some hacct.symm)]
      have hopen : (s₁.tcb x).depleted = false := by
        rw [← Bool.not_eq_true, depleted_tickAnfang hk h₁, hacct]
        exact fun hand => hok ⟨cur, hcur, hand⟩
      by_cases hpos : 0 < (s₁.tcb x).budget
      · rw [if_pos ⟨hacct, hpos⟩] at hself
        obtain ⟨hsum, hleft⟩ := hx hpos
        have hrest := hleft hopen
        split at hself
        · refine Tcb.Stand.congr (fun _ => ⟨?_, fun hd => ?_⟩) hself
          · show _ + 1 + 0 = (s₁.tcb x).budget
            omega
          · have hempty : true = false := hd
            cases hempty
        · refine Tcb.Stand.congr (fun _ => ⟨?_, fun _ => ?_⟩) hself
          · show _ + 1 + ((s₁.tcb x).remaining - 1) = (s₁.tcb x).budget
            omega
          · show 0 < (s₁.tcb x).remaining - 1
            omega
      · rw [if_neg fun hand => hpos hand.2] at hself
        exact Tcb.Stand.congr (fun h => absurd h hpos) hself
    · rw [if_neg fun hand => hacct hand.1] at hself
      rw [if_neg fun heq => hacct (Option.some.inj heq).symm]
      exact hx.congr hself

/-- A tick that charges an exhausted account pays more than the budget. -/
theorem Gezaehlt.onTick_again (hs : s.Gezaehlt n) (hk : s.KontenOk) (hbad : s.ErschoepftBelastet)
    {frame sp : Nat} (h : s.onTick frame true = some (sp, s')) :
    ∃ x, 0 < (s'.tcb x).budget ∧ (s'.tcb x).budget < s.zaehlen n x := by
  obtain ⟨cur, hcur, hdep⟩ := hbad
  obtain ⟨s₁, h₁, hbild⟩ := kontobild_onTick hcur h
  obtain ⟨-, hpos, hrest⟩ := hk.leer hdep.1
  have hstays : (s₁.tcb (s.konto cur)).depleted = true := (depleted_tickAnfang hk h₁ _).mpr hdep
  have hscan : (s₁.tcb (s.konto cur)).kontobild = (s.tcb (s.konto cur)).kontobild := by
    have hx := (tickAnfang_konten hk h₁).2.2 (s.konto cur)
    rw [if_neg] at hx
    · exact hx
    · rintro ⟨-, -, -, hdue⟩
      have hle : (s.tcb (s.konto cur)).nextRefill ≤ s.now + 1 := hdue
      omega
  have hbudget₁ : (s₁.tcb (s.konto cur)).budget = (s.tcb (s.konto cur)).budget := by
    have hb := congrArg Tcb.budget hscan
    exact hb
  have hbudget : (s'.tcb (s.konto cur)).budget = (s.tcb (s.konto cur)).budget := by
    have hb := congrArg Tcb.budget (hbild (s.konto cur))
    refine hb.trans (Eq.trans ?_ hbudget₁)
    split
    · split
      · rfl
      · rfl
    · rfl
  have hsum := (hs (s.konto cur) hpos).1
  refine ⟨s.konto cur, hbudget ▸ hpos, ?_⟩
  rw [hbudget, zaehlen_of_tickAnfang h₁, hcur, hstays]
  show (s.tcb (s.konto cur)).budget <
    (if _ ∧ true = false then 0 else n (s.konto cur)) +
      if some (s.konto cur) = some (s.konto cur) then 1 else 0
  rw [if_neg fun hand => Bool.false_ne_true hand.2.symm, if_pos rfl]
  omega

theorem Gezaehlt.aufruf (hs : s.Gezaehlt n) (hk : s.KontenOk) {a : Aufruf}
    (hok : ∀ frame, a = .onTick frame true → ¬ s.ErschoepftBelastet) (h : s.aufruf v a = some s') :
    s'.Gezaehlt (s.zaehlerNach v n a) := by
  cases a with
  | onTick frame tick =>
    obtain ⟨sp, h⟩ := map_snd_eq_some h
    cases tick with
    | true => exact hs.onTick hk (hok frame rfl) h
    | false =>
      obtain ⟨s₁, h₁, hcases⟩ := kontenbild_onTick h
      cases h₁
      rcases hcases with ⟨-, hbild⟩ | ⟨cur, -, hbild⟩
      · exact hs.congr hbild
      · have hfree : (s.setSp cur frame).belasten cur false = s.setSp cur frame := by
          unfold belasten
          have hnot : ¬ (s.setSp cur frame).erschoepft cur false :=
            fun hout => Bool.false_ne_true hout.1
          rw [if_neg hnot]
          exact if_neg fun hand => Bool.false_ne_true hand.1
        rw [hfree] at hbild
        exact hs.congr (hbild.trans (blind_kontenbild.setSp s cur frame))
  | setBudget tid budget period =>
    obtain ⟨b, h⟩ := map_snd_eq_some h
    unfold zaehlerNach
    dsimp only
    rcases kontenbild_setBudget h with ⟨hnone, rfl⟩ | ⟨i, hi, hbild⟩
    · rw [hnone]
      exact hs
    · rw [hi]
      intro x
      have hself := kontobild_of_kontenbild hbild x
      rw [tcb_budgetEintragen] at hself
      dsimp only
      by_cases hx : x = i
      · subst hx
        rw [if_pos rfl] at hself
        rw [update_self]
        have hfull : ((s.tcb x).mitBudget s.now budget period).Stand 0 :=
          fun hpos => ⟨Nat.zero_add _, fun _ => hpos⟩
        exact hfull.congr hself
      · rw [if_neg hx] at hself
        rw [update_of_ne hx]
        exact (hs x).congr hself
  | _ => exact hs.congr (kontenbild_aufruf (by exact not_false) h)

theorem Gezaehlt.set (hs : s.Gezaehlt n) {i k : Nat} {t : Tcb} (ht : t.Stand k)
    (htcb : ∀ x, s'.tcb x = if x = i then t else s.tcb x) : s'.Gezaehlt (update n i k) := by
  intro x
  rw [htcb]
  by_cases hx : x = i
  · subst hx
    rw [if_pos rfl, update_self]
    exact ht
  · rw [if_neg hx, update_of_ne hx]
    exact hs x

theorem Gezaehlt.setFrei (hs : s.Gezaehlt n) {i : Nat} {t : Tcb} (ht : t.budget = 0)
    (htcb : ∀ x, s'.tcb x = if x = i then t else s.tcb x) : s'.Gezaehlt n := by
  have hset := hs.set (k := n i) (fun hpos => absurd ht (Nat.ne_of_gt hpos)) htcb
  rw [update_eq_self] at hset
  exact hset

theorem Gezaehlt.zugang (hs : s.Gezaehlt n) {i : Nat} {t : Tcb} (hz : Zugang s s' i t) :
    s'.Gezaehlt n := by
  have hb := hz.besetzt
  obtain ⟨free, -, ⟨gid, gen, sp, priority, base, len, rfl⟩, -⟩ := hz
  exact hs.setFrei rfl hb.tcb

theorem Gezaehlt.spawn (hs : s.Gezaehlt n) (hgut : s.Gut) {sp base len priority : Nat}
    {r : Option ThreadId} (h : s.spawn v sp base len priority = some (r, s', v')) :
    s'.Gezaehlt n := by
  rcases spawn_cases hgut h with rfl | ⟨i, t, s₁, hz, hcases⟩
  · exact hs
  · have hnew := hs.zugang hz
    rcases hcases with rfl | he
    · exact hnew
    · have hadm : (s₁.setAdmitted i).kontenbild = s₁.kontenbild :=
        kontenbild_modifyTcb s₁ i fun _ => rfl
      exact hnew.congr ((blind_kontenbild.enqueueReady he).trans hadm)

theorem Gezaehlt.slotLeeren (hs : s.Gezaehlt n) (i : Nat) : (s.slotLeeren i).Gezaehlt n :=
  hs.setFrei rfl (tcb_slotLeeren s i)

theorem Gezaehlt.recordZombie (hs : s.Gezaehlt n) {i : Nat}
    (h : s.recordZombie v i = some (s', v')) : s'.Gezaehlt n := by
  obtain ⟨s₁, z, hrun, rfl⟩ := recordZombie_cases h
  have hgone := (hs.congr (blind_kontenbild.abloesen spendenBlind_kontenbild hrun)).slotLeeren i
  intro x
  rw [tcb_of_listengleich (listengleich_zombieAblegen _ z).1]
  exact hgone x

end Scheduler

/-- The system, for every slot the ticks charged to its account since it was filled, and the same
for every thread under way. -/
structure Budgetbuch where
  system : System
  seit : Nat → Nat → Nat
  unterwegs : List Nat

namespace Budgetbuch

open Scheduler

def init (a : Ausbau) : Budgetbuch := ⟨System.init a, fun _ _ => 0, []⟩

/-- The book after an operation has led to `S`: a call moves the counts of its core, and a thread
that leaves a core or arrives takes its count along. -/
def nach (B : Budgetbuch) (S : System) : Op → Budgetbuch
  | .aufruf c a => ⟨S, update B.seit c
      ((B.system.cores c).zaehlerNach B.system.verzeichnis (B.seit c) a), B.unterwegs⟩
  | .detachForMigration c tid =>
      match (B.system.cores c).resolve B.system.verzeichnis tid with
      | some i =>
          if S.migranten.length = B.system.migranten.length then ⟨S, B.seit, B.unterwegs⟩
          else ⟨S, B.seit, B.unterwegs ++ [B.seit c i]⟩
      | none => ⟨S, B.seit, B.unterwegs⟩
  | .attachMigrated c k =>
      match (B.system.cores c).free.alloc, B.unterwegs[k]? with
      | some (i, _), some n =>
          if S.migranten.length = B.system.migranten.length then ⟨S, B.seit, B.unterwegs⟩
          else ⟨S, update B.seit c (update (B.seit c) i n),
            B.unterwegs.eraseIdx k⟩
      | _, _ => ⟨S, B.seit, B.unterwegs⟩
  | _ => ⟨S, B.seit, B.unterwegs⟩

def step (B : Budgetbuch) (op : Op) : Option Budgetbuch :=
  (B.system.step op).map fun S => B.nach S op

theorem nach_system (B : Budgetbuch) (S : System) (op : Op) : (B.nach S op).system = S := by
  cases op with
  | detachForMigration c tid | attachMigrated c k =>
    unfold nach
    dsimp only
    split
    · split
      · rfl
      · rfl
    · rfl
  | _ => rfl

def ImRahmen (B : Budgetbuch) : Prop :=
  (∀ c x, 0 < ((B.system.cores c).tcb x).budget →
    B.seit c x ≤ ((B.system.cores c).tcb x).budget) ∧
  ∀ (k : Nat) m n, B.system.migranten[k]? = some m → B.unterwegs[k]? = some n →
    0 < m.tcb.budget → n ≤ m.tcb.budget

def Unerschoepft (B : Budgetbuch) (op : Op) : Prop := B.system.UnerschoepftBelastet op

def Dicht (B : Budgetbuch) (op : Op) : Prop := B.system.Dicht op

/-- The invariant of the runs. -/
structure Ordentlich (B : Budgetbuch) : Prop where
  gut : B.system.Gut
  konten : B.system.Ueberall KontenOk fun m => m.tcb.KontoOk
  core : ∀ c, (B.system.cores c).Gezaehlt (B.seit c)
  len : B.unterwegs.length = B.system.migranten.length
  unterwegs : ∀ (k : Nat) m n, B.system.migranten[k]? = some m → B.unterwegs[k]? = some n →
    m.tcb.Stand n

variable {B B' : Budgetbuch} {S : System} {op : Op}

theorem ordentlich_init (a : Ausbau) : (init a).Ordentlich where
  gut := System.gut_init a
  konten := System.kontenOk_init a
  core := fun _ _ hpos => absurd hpos (Nat.lt_irrefl 0)
  len := rfl
  unterwegs := fun k m n hm => by
    have hnone : ([] : List Migrant)[k]? = some m := hm
    rw [List.getElem?_nil] at hnone
    cases hnone

theorem Ordentlich.imRahmen (h : B.Ordentlich) : B.ImRahmen := by
  constructor
  · intro c x hpos
    have hsum := (h.core c x hpos).1
    omega
  · intro k m n hm hn hpos
    have hsum := (h.unterwegs k m n hm hn hpos).1
    omega

theorem Ordentlich.weiter (h : B.Ordentlich) (hgut : S.Gut)
    (hkonten : S.Ueberall KontenOk fun m => m.tcb.KontoOk) {c : Nat} {s : Scheduler} {n : Nat → Nat}
    (hcores : S.cores = update B.system.cores c s)
    (hms : S.migranten = B.system.migranten) (hs : s.Gezaehlt n) :
    Ordentlich ⟨S, update B.seit c n, B.unterwegs⟩ := by
  refine ⟨hgut, hkonten, fun d => ?_, h.len.trans (congrArg List.length hms.symm), ?_⟩
  · show (S.cores d).Gezaehlt (update B.seit c n d)
    rw [hcores]
    by_cases hd : d = c
    · subst hd
      rw [update_self, update_self]
      exact hs
    · rw [update_of_ne hd, update_of_ne hd]
      exact h.core d
  · show ∀ (k : Nat) m n, S.migranten[k]? = some m → B.unterwegs[k]? = some n → m.tcb.Stand n
    rw [hms]
    exact h.unterwegs

theorem Ordentlich.bleibt (h : B.Ordentlich) (hgut : S.Gut)
    (hkonten : S.Ueberall KontenOk fun m => m.tcb.KontoOk) {c : Nat} {s : Scheduler}
    (hcores : S.cores = update B.system.cores c s)
    (hms : S.migranten = B.system.migranten) (hs : s.Gezaehlt (B.seit c)) :
    Ordentlich ⟨S, B.seit, B.unterwegs⟩ := by
  have hnext := h.weiter hgut hkonten hcores hms hs
  rw [update_eq_self] at hnext
  exact hnext

/-- A thread leaves core `c` with its count. -/
theorem Ordentlich.detachForMigration (h : B.Ordentlich) (hgut : S.Gut)
    (hkonten : S.Ueberall KontenOk fun m => m.tcb.KontoOk) {c : Nat} {tid : ThreadId} {m : Migrant}
    {s : Scheduler} (hcores : S.cores = update B.system.cores c s)
    (hms : S.migranten = B.system.migranten ++ [m])
    (hd : (B.system.cores c).detachForMigration B.system.verzeichnis tid = some (m, s)) :
    (B.nach S (.detachForMigration c tid)).Ordentlich := by
  obtain ⟨i, o, hi, rfl, rfl⟩ := detachForMigration_cases hd
  have hlen : S.migranten.length ≠ B.system.migranten.length := by
    rw [hms, List.length_append]
    exact Nat.succ_ne_self _
  have hnach : B.nach S (.detachForMigration c tid) =
      ⟨S, B.seit, B.unterwegs ++ [B.seit c i]⟩ := by
    unfold nach
    dsimp only
    rw [hi.1]
    exact if_neg hlen
  have hrem := (h.core c).congr (blind_kontenbild.removeFromReady (B.system.cores c) i)
  have hcore : Gezaehlt { ((B.system.cores c).removeFromReady i).slotLeeren i with
      migrationsOut := o } (B.seit c) := hrem.slotLeeren i
  have hrest := h.weiter (S := { S with migranten := B.system.migranten })
    ⟨hgut.1, h.gut.2⟩ ⟨hkonten.1, h.konten.2⟩ hcores rfl hcore
  rw [hnach]
  refine ⟨hgut, hkonten, ?_, ?_, ?_⟩
  · have hall := hrest.core
    rw [update_eq_self] at hall
    exact hall
  · show (B.unterwegs ++ [B.seit c i]).length = S.migranten.length
    rw [hms, List.length_append, List.length_append, h.len]
    rfl
  · intro k m n hm hn
    have hm' : S.migranten[k]? = some m := hm
    have hn' : (B.unterwegs ++ [B.seit c i])[k]? = some n := hn
    rw [hms, List.getElem?_append] at hm'
    rw [List.getElem?_append, h.len] at hn'
    split at hm'
    · next hlt =>
      rw [if_pos hlt] at hn'
      exact h.unterwegs k m n hm' hn'
    · next hge =>
      rw [if_neg hge] at hn'
      obtain rfl := List.mem_singleton.mp (List.mem_of_getElem? hm')
      obtain rfl := List.mem_singleton.mp (List.mem_of_getElem? hn')
      exact (hrem i).congr rfl

/-- A thread arrives on core `c` with its count. -/
theorem Ordentlich.attachMigrated (h : B.Ordentlich) (hgut : S.Gut)
    (hkonten : S.Ueberall KontenOk fun m => m.tcb.KontoOk) {c k : Nat} {m : Migrant}
    {s : Scheduler} {v' : Verzeichnis} (hcores : S.cores = update B.system.cores c s)
    (hms : S.migranten = B.system.migranten.eraseIdx k) (hm : B.system.migranten[k]? = some m)
    (ha : (B.system.cores c).attachMigrated B.system.verzeichnis m = some (.ok (s, v'))) :
    (B.nach S (.attachMigrated c k)).Ordentlich := by
  obtain ⟨i, free, halloc, -, hcases⟩ := attachMigrated_aufnahme ha
  obtain ⟨hk, -⟩ := List.getElem?_eq_some_iff.mp hm
  obtain ⟨n, hn⟩ : ∃ n, B.unterwegs[k]? = some n :=
    ⟨_, List.getElem?_eq_getElem (h.len.symm ▸ hk)⟩
  have hlen : S.migranten.length ≠ B.system.migranten.length := by
    rw [hms, List.length_eraseIdx_of_lt hk]
    omega
  have hnach : B.nach S (.attachMigrated c k) = ⟨S, update B.seit c
      (update (B.seit c) i n), B.unterwegs.eraseIdx k⟩ := by
    unfold nach
    dsimp only
    rw [halloc, hn]
    exact if_neg hlen
  have hused := h.gut.2 m (List.mem_of_getElem? hm)
  have hstand : ((B.system.cores c).ankunft m.tcb).Stand n := h.unterwegs k m n hm hn
  have harrive := (h.core c).set hstand (besetzt_aufnehmen halloc hused).tcb
  have hcore : s.Gezaehlt (update (B.seit c) i n) := by
    rcases hcases with ⟨-, he⟩ | ⟨-, rfl⟩
    · exact harrive.congr (blind_kontenbild.enqueueReady he)
    · exact harrive
  have hrest := h.weiter (S := { S with migranten := B.system.migranten })
    ⟨hgut.1, h.gut.2⟩ ⟨hkonten.1, h.konten.2⟩ hcores rfl hcore
  rw [hnach]
  refine ⟨hgut, hkonten, hrest.core, ?_, ?_⟩
  · show (B.unterwegs.eraseIdx k).length = S.migranten.length
    rw [hms, List.length_eraseIdx, List.length_eraseIdx, h.len]
  · intro j m' n' hm' hn'
    have hm'' : S.migranten[j]? = some m' := hm'
    have hn'' : (B.unterwegs.eraseIdx k)[j]? = some n' := hn'
    rw [hms, List.getElem?_eraseIdx] at hm''
    rw [List.getElem?_eraseIdx] at hn''
    split at hm''
    · next hlt =>
      rw [if_pos hlt] at hn''
      exact h.unterwegs j m' n' hm'' hn''
    · next hge =>
      rw [if_neg hge] at hn''
      exact h.unterwegs (j + 1) m' n' hm'' hn''

theorem step_ordentlich (h : B.Ordentlich) (hok : B.Unerschoepft op) (hstep : B.step op = some B') :
    B'.Ordentlich := by
  obtain ⟨S, hS, rfl⟩ := Option.map_eq_some_iff.mp hstep
  have hgut := System.step_gut B.system op S h.gut hS
  have hkonten := System.step_kontenOk h.konten h.gut hok hS
  rcases System.step_kern hS with ⟨hcores, hms, hop⟩ | ⟨c, s, hcores, hk⟩
  · have hnach : B.nach S op = ⟨S, B.seit, B.unterwegs⟩ := by
      have hlen := congrArg List.length hms
      cases op with
      | aufruf c a => exact absurd rfl (hop c a)
      | detachForMigration c tid | attachMigrated c k =>
        unfold nach
        dsimp only
        split
        · exact if_pos hlen
        · rfl
      | _ => rfl
    rw [hnach]
    refine h.bleibt hgut hkonten (c := 0) (s := B.system.cores 0) ?_ hms (h.core 0)
    rw [update_eq_self]
    exact hcores
  · have hs := h.core c
    generalize hms : S.migranten = ms' at hk
    cases hk with
    | aufruf ha =>
      refine h.weiter hgut hkonten hcores hms (hs.aufruf (h.konten.1 c) (fun frame htick => ?_) ha)
      subst htick
      exact hok
    | initCore hi =>
      obtain ⟨t, s₁, hz, rfl⟩ := initCore_cases hi
      refine h.bleibt hgut hkonten hcores hms ?_
      exact (hs.zugang hz).congr (blind_kontenbild.setCurrent s₁ _)
    | spawnParked hop hp =>
      obtain ⟨t, hz, -⟩ := spawnParked_cases hp
      rcases hop with rfl | rfl
      · exact h.bleibt hgut hkonten hcores hms (hs.zugang hz)
      · exact h.bleibt hgut hkonten hcores hms (hs.zugang hz)
    | spawn hn => exact h.bleibt hgut hkonten hcores hms (hs.spawn (h.gut.1 c) hn)
    | exitCurrent he =>
      obtain ⟨cur, s₁, -, hz, hw⟩ := exitCurrent_cases he
      have hgone := (hs.recordZombie hz).congr (blind_kontenbild.wechseln hw)
      exact h.bleibt hgut hkonten hcores hms hgone
    | kill hkill =>
      refine h.bleibt hgut hkonten hcores hms ?_
      rcases kill_cases hkill with rfl | ⟨i, -, -, hz⟩
      · exact hs
      · exact (hs.congr (blind_kontenbild.removeFromReady _ i)).recordZombie hz
    | reap hr =>
      refine h.bleibt hgut hkonten hcores hms ?_
      obtain ⟨-, -, rfl⟩ := reap_eq_some hr
      exact hs
    | detachForMigration hd => exact h.detachForMigration hgut hkonten hcores hms hd
    | attachMigrated hm ha => exact h.attachMigrated hgut hkonten hcores hms hm ha

theorem step_ueberzogen (h : B.Ordentlich) (hbad : ¬ B.Unerschoepft op)
    (hstep : B.step op = some B') : ¬ B'.ImRahmen := by
  obtain ⟨S, hS, rfl⟩ := Option.map_eq_some_iff.mp hstep
  rintro ⟨hall, -⟩
  cases op with
  | aufruf c a =>
    cases a with
    | onTick frame tick =>
      cases tick with
      | true =>
        obtain ⟨s, hs, rfl⟩ := Option.map_eq_some_iff.mp hS
        obtain ⟨sp, hs⟩ := map_snd_eq_some hs
        obtain ⟨x, hpos, hmore⟩ := (h.core c).onTick_again (h.konten.1 c) (not_not.mp hbad) hs
        have hc : 0 < ((update B.system.cores c s c).tcb x).budget →
            update B.seit c ((B.system.cores c).zaehlen (B.seit c)) c x ≤
              ((update B.system.cores c s c).tcb x).budget := hall c x
        rw [update_self, update_self] at hc
        exact absurd (hc hpos) (Nat.not_le.mpr hmore)
      | false => exact hbad trivial
    | _ => exact hbad trivial
  | _ => exact hbad trivial

theorem step_offen (h : B.Ordentlich) (hS : B.system.Ueberall SperrenHalten System.MigrantOffen)
    (hok : B.Dicht op) (hstep : B.step op = some B') :
    B'.Ordentlich ∧ B'.system.Ueberall SperrenHalten System.MigrantOffen := by
  refine ⟨step_ordentlich h (System.unerschoepft_of_dicht hok) hstep, ?_⟩
  obtain ⟨S, hnext, rfl⟩ := Option.map_eq_some_iff.mp hstep
  rw [nach_system]
  exact System.step_sperrenHalten hS h.konten h.gut hok hnext

/-- In a run whose steps all meet the conditions no bounded account ever pays for more ticks than
its budget since it was filled, and no step gives a core to a thread on an exhausted account.  The
bound alone holds after every prefix exactly if no tick charges an exhausted account. -/
theorem run_budgetGewahrt (a : Ausbau) (ops : List Op) (B : Budgetbuch)
    (hrun : run step (init a) ops = some B) :
    (Admissible step Dicht (init a) ops →
      ∀ xs M, xs <+: ops → run step (init a) xs = some M → M.ImRahmen ∧
        ∀ op M', xs ++ [op] <+: ops → M.step op = some M' →
          M.system.ZuteilungOffen op M'.system) ∧
    ((∀ xs M, xs <+: ops → run step (init a) xs = some M → M.ImRahmen) ↔
      Admissible step Unerschoepft (init a) ops) := by
  constructor
  · intro hok xs M hxs hM
    have hinit : (init a).Ordentlich ∧
        (init a).system.Ueberall SperrenHalten System.MigrantOffen :=
      ⟨ordentlich_init a, System.sperrenHalten_init a⟩
    obtain ⟨hord, hoffen⟩ := run_invariant
      (fun _ _ _ hB hdicht hstep => step_offen hB.1 hB.2 hdicht hstep) hinit (hok.of_prefix hxs) hM
    refine ⟨hord.imRahmen, fun op M' hpre hstep => ?_⟩
    have hdicht := admissible_iff_forall_reached.mp hok xs op M hpre hM
    obtain ⟨S, hS, rfl⟩ := Option.map_eq_some_iff.mp hstep
    rw [nach_system]
    exact System.step_zuteilungOffen hoffen hord.konten hord.gut hdicht hS
  · exact forall_reached_iff_admissible (fun _ h => h.imRahmen)
      (fun _ _ _ h hok hstep => step_ordentlich h hok hstep)
      (fun _ _ _ h hbad hstep => step_ueberzogen h hbad hstep) (ordentlich_init a) hrun

/-- The thread with one tick of budget pays for two of them. -/
theorem budget_of_one_pays_twice :
    ¬ ∀ ops B, run step (init ⟨3, 3, by decide⟩) ops = some B → B.ImRahmen := by
  have hread : (run step (init ⟨3, 3, by decide⟩)
      (System.erschoepfterServer ++ [Op.aufruf 0 (.onTick 0 true)])).map
        (fun B => (B.seit 0 2, ((B.system.cores 0).tcb 2).budget)) = some (2, 1) := by
    decide +kernel
  obtain ⟨B, hB, heq⟩ := Option.map_eq_some_iff.mp hread
  simp only [Prod.mk.injEq] at heq
  obtain ⟨hcount, hbudget⟩ := heq
  intro hall
  have hle := (hall _ B hB).1 0 2
  omega

/-- The law for the run up to the charge. -/
theorem run_budgetGewahrt_called_server :
    ∃ B, run step (init ⟨3, 3, by decide⟩) System.erschoepfterServer = some B ∧
      (Admissible step Dicht (init ⟨3, 3, by decide⟩) System.erschoepfterServer →
        ∀ xs M, xs <+: System.erschoepfterServer →
          run step (init ⟨3, 3, by decide⟩) xs = some M → M.ImRahmen ∧
            ∀ op M', xs ++ [op] <+: System.erschoepfterServer → M.step op = some M' →
              M.system.ZuteilungOffen op M'.system) ∧
      ((∀ xs M, xs <+: System.erschoepfterServer →
          run step (init ⟨3, 3, by decide⟩) xs = some M → M.ImRahmen) ↔
        Admissible step Unerschoepft (init ⟨3, 3, by decide⟩) System.erschoepfterServer) := by
  have hsome : (run step (init ⟨3, 3, by decide⟩) System.erschoepfterServer).isSome = true := by
    decide +kernel
  obtain ⟨B, hB⟩ := Option.isSome_iff_exists.mp hsome
  exact ⟨B, hB, run_budgetGewahrt _ _ B hB⟩

end Budgetbuch

end Caprock.Sched
