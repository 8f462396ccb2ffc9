import Caprock.Lib.Permit
import Caprock.Sched.Deadline
import Caprock.Sched.Parking
import Caprock.Sched.Laws

/-! # Parking permits of threads

The mark and the reason `PARK` of a block are a parking permit.  `park_current`, `unpark` and the
deadline scan are the events of the permit; every other operation leaves it as it is.
-/

namespace Caprock.Sched

open Execution

namespace Faden

/-- The mark is the token, and the reason `PARK` the sleep. -/
def permit (f : Faden) : Permit.State :=
  if Grund.park ∈ f.reasons then .parked else if f.parkWake then .token else .empty

/-- Nobody sleeps with the mark set. -/
def OhneMarke (f : Faden) : Prop := Grund.park ∈ f.reasons → f.parkWake = false

variable {f : Faden}

theorem permit_of_mem (h : Grund.park ∈ f.reasons) : f.permit = .parked := if_pos h

theorem permit_of_mark (h : Grund.park ∉ f.reasons) (hmark : f.parkWake = true) :
    f.permit = .token := by
  rw [permit, if_neg h, if_pos hmark]

theorem permit_of_free (h : Grund.park ∉ f.reasons) (hmark : f.parkWake = false) :
    f.permit = .empty := by
  rw [permit, if_neg h, hmark, if_neg Bool.false_ne_true]

theorem permit_eq_token (h : f.OhneMarke) : f.permit = .token ↔ f.parkWake = true := by
  by_cases hpark : Grund.park ∈ f.reasons
  · simp [permit_of_mem hpark, h hpark]
  · cases hmark : f.parkWake with
    | true => simp [permit_of_mark hpark hmark]
    | false => simp [permit_of_free hpark hmark]

theorem permit_eq_parked : f.permit = .parked ↔ Grund.park ∈ f.reasons := by
  constructor
  · intro hparked
    by_contra hawake
    unfold permit at hparked
    rw [if_neg hawake] at hparked
    split at hparked <;> cases hparked
  · exact permit_of_mem

theorem OhneMarke.parkCurrent (h : f.OhneMarke) :
    f.parkCurrent.OhneMarke ∧ f.parkCurrent.permit = f.permit.next .park := by
  unfold Faden.parkCurrent
  split
  · next hmark =>
    have hawake : Grund.park ∉ f.reasons := fun hpark => by simp [h hpark] at hmark
    have hused : ({ f with parkWake := false } : Faden).permit = .empty := permit_of_free hawake rfl
    refine ⟨fun _ => rfl, ?_⟩
    rw [hused, permit_of_mark hawake hmark]
    rfl
  · next hmark =>
    have hnone : f.parkWake = false := Bool.eq_false_of_not_eq_true hmark
    refine ⟨fun _ => hnone, ?_⟩
    rw [permit_of_mem (Faden.mem_anhalten.mpr (.inl rfl)), Permit.next_park_of_ne]
    rwa [Ne, permit_eq_token h]

theorem ohneMarke_unpark (f : Faden) :
    f.unpark.OhneMarke ∧ f.unpark.permit = f.permit.next .unpark := by
  unfold Faden.unpark
  split
  · next hpark =>
    have hgone : Grund.park ∉ (f.aufheben .park).reasons := fun hmem =>
      (Faden.mem_aufheben.mp hmem).1 rfl
    have hwoken : ({ f.aufheben .park with parkWake := false } : Faden).permit = .empty :=
      permit_of_free hgone rfl
    refine ⟨fun _ => rfl, ?_⟩
    rw [hwoken, permit_of_mem hpark]
    rfl
  · next hpark =>
    have hmarked : ({ f with parkWake := true } : Faden).permit = .token := permit_of_mark hpark rfl
    refine ⟨fun hmem => absurd hmem hpark, ?_⟩
    rw [hmarked, Permit.next_unpark_of_ne]
    rwa [Ne, permit_eq_parked]

end Faden

structure Schlafgleich (t t' : Tcb) : Prop where
  used : t'.used = t.used
  park : Grund.park ∈ t'.reasons ↔ Grund.park ∈ t.reasons
  mark : t'.parkWake = t.parkWake

namespace Schlafgleich

variable {t t' t'' : Tcb}

theorem trans (h : Schlafgleich t t') (h' : Schlafgleich t' t'') : Schlafgleich t t'' :=
  ⟨h'.used.trans h.used, h'.park.trans h.park, h'.mark.trans h.mark⟩

theorem permit (h : Schlafgleich t t') : t'.faden.permit = t.faden.permit := by
  unfold Faden.permit Tcb.faden
  rw [h.mark]
  exact if_congr h.park rfl rfl

theorem ohneMarke (h : Schlafgleich t t') (ht : t.faden.OhneMarke) : t'.faden.OhneMarke :=
  fun hmem => h.mark.trans (ht (h.park.mp hmem))

end Schlafgleich

theorem duldsam_schlafgleich : Duldsam Schlafgleich (· ≠ .park) (· ≠ .park) where
  trans := Schlafgleich.trans
  neben := by
    intro t t' hused hwarten
    simp only [Tcb.warten, Prod.mk.injEq] at hwarten
    exact ⟨hused, by rw [hwarten.1], hwarten.2.2.2⟩
  setzen := fun hg => ⟨rfl, Faden.mem_anhalten_of_ne (t := Tcb.faden _) hg.symm, rfl⟩
  loesen := fun hg => ⟨rfl, Faden.mem_aufheben_of_ne (t := Tcb.faden _) hg.symm, rfl⟩

theorem duldsam_mark :
    Duldsam (fun t t' => t'.used = t.used ∧ t'.parkWake = t.parkWake) (fun _ => True)
      fun _ => True where
  trans := fun h h' => ⟨h'.1.trans h.1, h'.2.trans h.2⟩
  neben := fun hused hwarten => ⟨hused, congrArg (fun w => w.2.2.2) hwarten⟩
  setzen := fun _ => ⟨rfl, rfl⟩
  loesen := fun _ => ⟨rfl, rfl⟩

/-- The calls that are no event of a permit. -/
def Aufruf.Parkfremd : Aufruf → Prop
  | .parkCurrent _ | .unpark _ | .fristenFaellig _ => False
  | _ => True

namespace Scheduler

variable {s s' : Scheduler} {v v' : Verzeichnis}

theorem schlafgleich_setFrist (s : Scheduler) (i d : Nat) (g : Option Grund) :
    Blockweise Schlafgleich s (s.setFrist i d g) :=
  duldsam_schlafgleich.modifyTcb s i fun _ => ⟨rfl, Iff.rfl, rfl⟩

theorem schlafgleich_fristSetzen {ticks : Nat} {g : Grund} (h : s.fristSetzen ticks g = some s') :
    Blockweise Schlafgleich s s' := by
  unfold fristSetzen at h
  split at h
  · cases h
  · split at h
    · cases h
      exact schlafgleich_setFrist s _ 0 none
    · cases h
      exact schlafgleich_setFrist s _ _ _

theorem schlafgleich_fristLoeschen (s : Scheduler) (v : Verzeichnis) (tid : ThreadId) :
    Blockweise Schlafgleich s (s.fristLoeschen v tid) := by
  unfold fristLoeschen
  split
  · exact duldsam_schlafgleich.refl s
  · exact schlafgleich_setFrist s _ 0 none

/-- A call of other concern leaves every permit as it is. -/
theorem schlafgleich_aufruf {a : Aufruf} (ha : a.Parkfremd) (h : s.aufruf v a = some s') :
    Blockweise Schlafgleich s s' := by
  have hR := duldsam_schlafgleich.duldet (by decide) (by decide)
  cases a with
  | fristSetzen ticks grund => exact schlafgleich_fristSetzen h
  | fristLoeschen tid =>
    cases h
    exact schlafgleich_fristLoeschen s v tid
  | parkCurrent frame | unpark tid | fristenFaellig outLen => exact ha.elim
  | admitThread tid => exact hR.aufruf h trivial
  | switchTo frame target =>
    exact hR.aufruf h ⟨by decide, by decide, duldsam_schlafgleich.spenden⟩
  | onTick frame tick | setBudget tid budget period =>
    exact hR.aufruf h duldsam_schlafgleich.konten
  | endDonation => exact hR.aufruf h duldsam_schlafgleich.spenden
  | _ => exact hR.aufruf h (by decide : _ ≠ Grund.park)

theorem mark_fristSchritt {outLen i : Nat} {l l' : FristLauf}
    (h : fristSchritt outLen l i = some l') :
    Blockweise (fun t t' => t'.used = t.used ∧ t'.parkWake = t.parkWake) l.sched l'.sched := by
  have hR := duldsam_mark
  have hD := hR.duldet trivial trivial
  have hdisarm : Blockweise (fun t t' => t'.used = t.used ∧ t'.parkWake = t.parkWake) l.sched
      (l.sched.fristEntwaffnen i) := hR.modifyTcb l.sched i fun _ => ⟨rfl, rfl⟩
  rcases fristSchritt_cases h with ⟨-, -, n, hsched⟩ | ⟨-, -, hsched⟩ | ⟨-, -, g, -, -, hf⟩
  · exact hR.of_tcbs (hsched ▸ rfl)
  · rw [hsched]
    exact hdisarm
  · have hfree := hR.weiter hdisarm (hD.removeReason (g := g) trivial _ i)
    unfold fristFreigeben at hf
    dsimp only at hf
    split at hf
    · exact hR.weiter hfree (hD.enqueueReady hf)
    · rw [← Option.some.inj hf]
      exact hfree

theorem mark_fristenFaellig {outLen : Nat} {out : List ThreadId}
    (h : s.fristenFaellig outLen = some (out, s')) :
    Blockweise (fun t t' => t'.used = t.used ∧ t'.parkWake = t.parkWake) s s' := by
  have hR := duldsam_mark
  unfold fristenFaellig at h
  split at h
  · cases h
    exact hR.refl s
  · obtain ⟨l, hrun, htuple⟩ := Option.map_eq_some_iff.mp h
    cases htuple
    have hstep : ∀ (l : FristLauf) (i : Nat) (l' : FristLauf),
        Blockweise (fun t t' => t'.used = t.used ∧ t'.parkWake = t.parkWake) s l.sched →
        fristSchritt outLen l i = some l' →
        Blockweise (fun t t' => t'.used = t.used ∧ t'.parkWake = t.parkWake) s l'.sched :=
      fun l i l' hl hi => hR.weiter hl (mark_fristSchritt hi)
    have hscan := run_invariant_of_step hstep (hR.refl s) hrun
    exact hR.weiter hscan (hR.of_tcbs rfl)

/-- The scan ends a sleep or leaves the permit as it is. -/
theorem permit_fristenFaellig {outLen : Nat} {out : List ThreadId}
    (h : s.fristenFaellig outLen = some (out, s')) {x : Nat} (hs : (s.tcb x).faden.OhneMarke) :
    (s'.tcb x).faden.OhneMarke ∧ (s'.tcb x).faden.permit =
      if Grund.park ∈ (s.tcb x).reasons ∧ Grund.park ∉ (s'.tcb x).reasons
      then (s.tcb x).faden.permit.next .expire else (s.tcb x).faden.permit := by
  obtain ⟨hused, hmark⟩ := mark_fristenFaellig h x
  have hsub : Grund.park ∈ (s'.tcb x).reasons → Grund.park ∈ (s.tcb x).reasons := by
    intro hmem
    obtain ⟨-, ⟨-, -, hreasons⟩ | ⟨-, hreasons | ⟨-, g, -, -, hreasons⟩⟩⟩ :=
      (fristenFaellig_spec h).1 x
    · exact hreasons ▸ hmem
    · exact hreasons ▸ hmem
    · exact (Finset.mem_erase.mp (hreasons ▸ hmem)).2
  by_cases hend : Grund.park ∈ (s.tcb x).reasons ∧ Grund.park ∉ (s'.tcb x).reasons
  · rw [if_pos hend]
    have hnone : (s'.tcb x).parkWake = false := hmark.trans (hs hend.1)
    refine ⟨fun _ => hnone, ?_⟩
    rw [Faden.permit_of_free (f := (s'.tcb x).faden) hend.2 hnone,
      Faden.permit_of_mem (f := (s.tcb x).faden) hend.1]
    rfl
  · rw [if_neg hend]
    have hsame : Schlafgleich (s.tcb x) (s'.tcb x) := by
      refine ⟨hused, ⟨hsub, fun hmem => ?_⟩, hmark⟩
      by_contra hgone
      exact hend ⟨hmem, hgone⟩
    exact ⟨hsame.ohneMarke hs, hsame.permit⟩

end Scheduler

end Caprock.Sched
