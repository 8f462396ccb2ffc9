import Mathlib.Algebra.Group.Nat.Defs
import Caprock.Sched.Tolerance

/-! # Relations of single blocks

The internal functions write to one block at a time.  A relation of blocks that is transitive and
bears each of these writes holds between every block before an operation and the same block
after it.  `Duldsam` lists the writes once; which reasons an operation may set and clear is left to
the relation.
-/

namespace Caprock.Sched

open Execution

def Tcb.warten (t : Tcb) : BlockReasons × Nat × Option Grund × Bool :=
  (t.reasons, t.frist, t.fristGrund, t.parkWake)

/-- The relation bears every write beside `warten` and the occupation, reasons of `ein` being set
and reasons of `aus` being cleared. -/
structure Duldsam (R : Tcb → Tcb → Prop) (ein aus : Grund → Prop) : Prop where
  trans : ∀ {t t' t''}, R t t' → R t' t'' → R t t''
  neben : ∀ {t t'}, t'.used = t.used → t'.warten = t.warten → R t t'
  setzen : ∀ {t g}, ein g → R t { t with reasons := insert g t.reasons }
  loesen : ∀ {t g}, aus g → R t { t with reasons := t.reasons.erase g }

namespace Scheduler

/-- The relation holds in every slot. -/
def Blockweise (R : Tcb → Tcb → Prop) (s s' : Scheduler) : Prop := ∀ x, R (s.tcb x) (s'.tcb x)

end Scheduler

namespace Duldsam

open Scheduler

variable {R : Tcb → Tcb → Prop} {ein aus : Grund → Prop} (hR : Duldsam R ein aus)
variable {s s' s'' : Scheduler} {v v' : Verzeichnis} {i : Nat} {g : Grund}

include hR

theorem stets (t : Tcb) : R t t := hR.neben rfl rfl

theorem refl (s : Scheduler) : Blockweise R s s := fun x => hR.stets (s.tcb x)

theorem weiter (h : Blockweise R s s') (h' : Blockweise R s' s'') : Blockweise R s s'' :=
  fun x => hR.trans (h x) (h' x)

theorem of_tcbs (h : s'.tcbs = s.tcbs) : Blockweise R s s' := by
  intro x
  unfold tcb
  rw [h]
  exact hR.stets _

theorem modifyTcb (s : Scheduler) (i : Nat) {f : Tcb → Tcb} (hf : ∀ t, R t (f t)) :
    Blockweise R s (s.modifyTcb i f) := by
  intro x
  rw [tcb_modifyTcb]
  split
  · next hx => exact hx ▸ hf _
  · exact hR.stets _

theorem of_daten {q : Option Nat}
    (h : ∀ x, s'.daten x = if x = i then (s.daten i).mitQueued q else s.daten x) :
    Blockweise R s s' := by
  intro x
  have hx := h x
  split at hx
  · next hxi =>
    subst hxi
    have hused := congrArg Tcb.used hx
    have hwarten := congrArg Tcb.warten hx
    exact hR.neben hused hwarten
  · have hused := congrArg Tcb.used hx
    have hwarten := congrArg Tcb.warten hx
    exact hR.neben hused hwarten

/-- The writes of a scheduler are writes to single blocks. -/
theorem duldet (hein : ein .budget) (haus : aus .budget) : Duldet (Blockweise R) ein aus where
  refl := hR.refl
  trans := hR.weiter
  enqueueReady := fun h => by
    obtain ⟨p, hdaten⟩ := daten_enqueueReady h
    exact hR.of_daten hdaten
  removeFromReady := fun s i => hR.of_daten (daten_removeFromReady s i)
  setCurrent := fun _ _ => hR.of_tcbs rfl
  setSp := fun s i _ => hR.modifyTcb s i fun _ => hR.neben rfl rfl
  setAdmitted := fun s i => hR.modifyTcb s i fun _ => hR.neben rfl rfl
  insertReason := fun hg s i => hR.modifyTcb s i fun _ => hR.setzen hg
  removeReason := fun hg s i => hR.modifyTcb s i fun _ => hR.loesen hg
  setBudgetBlocked := fun s i an => by
    unfold setBudgetBlocked
    split
    · exact hR.refl s
    · split
      · exact hR.weiter (hR.modifyTcb s i fun _ => hR.setzen hein) (hR.of_tcbs rfl)
      · exact hR.weiter (hR.modifyTcb s i fun _ => hR.loesen haus) (hR.of_tcbs rfl)

theorem spenden : SpendenDuldet (Blockweise R) :=
  ⟨fun s i _ => hR.modifyTcb s i fun _ => hR.neben rfl rfl,
    fun s i _ => hR.modifyTcb s i fun _ => hR.neben rfl rfl⟩

theorem konten : KontenDuldet (Blockweise R) := by
  refine ⟨fun s i f hf => hR.modifyTcb s i fun t => ?_, fun _ _ _ _ _ => hR.of_tcbs rfl⟩
  have hused := congrArg Tcb.used (hf t)
  have hwarten := congrArg Tcb.warten (hf t)
  exact hR.neben hused hwarten

section

variable (hein : ein .budget) (haus : aus .budget)

include hein haus

theorem recordZombie (h : s.recordZombie v i = some (s', v')) :
    s'.tcb i = Tcb.empty ∧ ∀ x, x ≠ i → R (s.tcb x) (s'.tcb x) := by
  obtain ⟨s₁, z, hrun, rfl⟩ := recordZombie_cases h
  have hout := (hR.duldet hein haus).abloesen hR.spenden hrun
  have htcb : ∀ x, ((((s₁.doneeAustragen i).removeFromReady i).slotLeeren i).zombieAblegen z).tcb x =
      if x = i then Tcb.empty else ((s₁.doneeAustragen i).removeFromReady i).tcb x := by
    intro x
    rw [tcb_of_listengleich (listengleich_zombieAblegen _ z).1, tcb_slotLeeren]
  refine ⟨?_, fun x hx => ?_⟩
  · rw [htcb, if_pos rfl]
  · rw [htcb, if_neg hx]
    exact hout x

theorem exitCurrent {sp : Nat} (h : s.exitCurrent v = some (sp, s', v')) :
    ∃ cur, s.current = some cur ∧ R Tcb.empty (s'.tcb cur) ∧
      ∀ x, x ≠ cur → R (s.tcb x) (s'.tcb x) := by
  obtain ⟨cur, s₁, hcur, hz, hw⟩ := exitCurrent_cases h
  obtain ⟨hempty, hrest⟩ := hR.recordZombie hein haus hz
  have hswitch := (hR.duldet hein haus).wechseln hw
  refine ⟨cur, hcur, ?_, fun x hx => hR.trans (hrest x hx) (hswitch x)⟩
  have hcur := hswitch cur
  rwa [hempty] at hcur

theorem kill {tid : ThreadId} {b : Bool} (h : s.kill v tid = some (b, s', v')) :
    s' = s ∨ ∃ i, s'.tcb i = Tcb.empty ∧ ∀ x, x ≠ i → R (s.tcb x) (s'.tcb x) := by
  rcases kill_cases h with rfl | ⟨i, -, -, hz⟩
  · exact .inl rfl
  · obtain ⟨hempty, hrest⟩ := hR.recordZombie hein haus hz
    have hleave := (hR.duldet hein haus).removeFromReady s i
    exact .inr ⟨i, hempty, fun x hx => hR.trans (hleave x) (hrest x hx)⟩

end

end Duldsam

end Caprock.Sched
