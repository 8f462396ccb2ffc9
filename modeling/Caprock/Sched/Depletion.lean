import Caprock.Sched.Frame
import Caprock.Sched.Laws

/-! # The count of exhausted accounts

`depletedCount` is a cache of the number of exhausted accounts, kept so that a tick without
any can leave the refill scan out.  Every function that marks or unmarks an account moves
it, but a tick moves it for every exhaustion and does not ask whether the account was
exhausted before: a thread that runs on an exhausted account is counted again.
-/

namespace Caprock.Sched

open Execution

/-- The account of a block, and whether the block is in use. -/
def Tcb.kontobild (t : Tcb) : Tcb :=
  { Tcb.empty with
    used := t.used, budget := t.budget, period := t.period, remaining := t.remaining
    nextRefill := t.nextRefill, depleted := t.depleted }

def Tcb.istErschoepft (t : Tcb) : Bool := t.used && t.depleted

def Tcb.voll (t : Tcb) : Tcb := { t with remaining := t.budget, depleted := false }

/-- The account is empty from `jetzt` on for its period. -/
def Tcb.entleert (t : Tcb) (jetzt : Nat) : Tcb :=
  { t with remaining := 0, depleted := true, nextRefill := jetzt + t.period }

/-- A new account, full from `jetzt` on. -/
def Tcb.mitBudget (t : Tcb) (jetzt budget period : Nat) : Tcb :=
  { t with
    budget := budget, period := max period 1, remaining := budget, nextRefill := jetzt + period
    depleted := false }

/-- A bounded account is somebody's, and an exhausted one is bounded and empty. -/
structure Tcb.KontoOk (t : Tcb) : Prop where
  used : 0 < t.budget → t.used = true
  leer : t.depleted = true → 0 < t.budget ∧ t.remaining = 0

def Aufruf.BewegtKonten : Aufruf → Prop
  | .onTick _ _ | .setBudget _ _ _ => True
  | _ => False

namespace Scheduler

def anzahlErschoepft (s : Scheduler) : Nat := s.tcbs.count Tcb.istErschoepft

def kontenbild (s : Scheduler) : Nat × Nat × Nat × (Nat → Tcb) :=
  (s.depletedCount, s.now, s.tcbs.len, fun x => (s.tcb x).kontobild)

structure KontenOk (s : Scheduler) : Prop where
  zaehler : s.depletedCount = s.anzahlErschoepft
  konto : ∀ x, (s.tcb x).KontoOk
  bound : ∀ x, (s.tcb x).used = true → x < s.tcbs.len

variable {s s' s'' : Scheduler} {v v' : Verzeichnis}

theorem kontobild_of_kontenbild (h : s'.kontenbild = s.kontenbild) (x : Nat) :
    (s'.tcb x).kontobild = (s.tcb x).kontobild :=
  congrArg (fun k : Nat × Nat × Nat × (Nat → Tcb) => k.2.2.2 x) h

theorem anzahlErschoepft_congr (h : s'.kontenbild = s.kontenbild) :
    s'.anzahlErschoepft = s.anzahlErschoepft := by
  have hlen : s'.tcbs.len = s.tcbs.len :=
    congrArg (fun k : Nat × Nat × Nat × (Nat → Tcb) => k.2.2.1) h
  refine Slab.count_congr hlen fun i => ?_
  have hi := congrArg Tcb.istErschoepft (kontobild_of_kontenbild h i)
  exact hi

theorem depletedCount_congr (h : s'.kontenbild = s.kontenbild) :
    s'.depletedCount = s.depletedCount :=
  congrArg Prod.fst h

theorem KontenOk.congr (hs : s.KontenOk) (h : s'.kontenbild = s.kontenbild) : s'.KontenOk := by
  have hx := kontobild_of_kontenbild h
  constructor
  · rw [depletedCount_congr h, anzahlErschoepft_congr h]
    exact hs.zaehler
  · intro x
    have hbild := hx x
    simp only [Tcb.kontobild, Tcb.mk.injEq] at hbild
    obtain ⟨hused, -, -, -, -, -, -, -, -, -, -, -, -, -, hbudget, -, hrem, -, hd, -⟩ := hbild
    have hkonto := hs.konto x
    constructor
    · rw [hbudget, hused]
      exact hkonto.used
    · rw [hd, hbudget, hrem]
      exact hkonto.leer
  · intro x hused
    have hlen : s'.tcbs.len = s.tcbs.len :=
      congrArg (fun k : Nat × Nat × Nat × (Nat → Tcb) => k.2.2.1) h
    have hsame : (s'.tcb x).used = (s.tcb x).used := by
      have hu := congrArg Tcb.used (hx x)
      exact hu
    rw [hlen]
    exact hs.bound x (hsame ▸ hused)

theorem blind_kontenbild : Blind kontenbild := by
  refine .of_stand fun s s' hrumpf htcb => ?_
  have hrest : ∀ {α : Type} (f : Scheduler → α), f s'.rumpf = f s.rumpf := fun f => congrArg f hrumpf
  have hcells : (fun x => (s'.tcb x).kontobild) = fun x => (s.tcb x).kontobild := by
    funext x
    have hx := congrArg Tcb.kontobild (htcb x)
    exact hx
  have hcount : s'.depletedCount = s.depletedCount := hrest depletedCount
  have hnow : s'.now = s.now := hrest now
  have hlen : s'.tcbs.len = s.tcbs.len := hrest fun t => t.tcbs.len
  unfold kontenbild
  rw [hcells, hcount, hnow, hlen]

theorem kontenbild_modifyTcb (s : Scheduler) (i : Nat) {f : Tcb → Tcb}
    (hf : ∀ t, (f t).kontobild = t.kontobild) : (s.modifyTcb i f).kontenbild = s.kontenbild := by
  unfold kontenbild
  have hcells : (fun x => ((s.modifyTcb i f).tcb x).kontobild) = fun x => (s.tcb x).kontobild :=
    funext fun x => feld_modifyTcb Tcb.kontobild s i x hf
  rw [hcells]
  rfl

theorem fristBlind_kontenbild : FristBlind kontenbild :=
  fun s i _ _ => kontenbild_modifyTcb s i fun _ => rfl

theorem spendenBlind_kontenbild : SpendenBlind kontenbild where
  donor := fun s i _ => kontenbild_modifyTcb s i fun _ => rfl
  donee := fun s i _ => kontenbild_modifyTcb s i fun _ => rfl

theorem tcb_auffuellen (s : Scheduler) (i x : Nat) :
    (s.auffuellen i).tcb x = if x = i then (s.tcb i).voll else s.tcb x :=
  tcb_modifyTcb s i x Tcb.voll

theorem tcb_erschoepfen (s : Scheduler) (a x : Nat) :
    (s.erschoepfen a).tcb x = if x = a then (s.tcb a).entleert s.now else s.tcb x :=
  tcb_modifyTcb s a x fun t => t.entleert s.now

theorem tcb_budgetEintragen (s : Scheduler) (i budget period x : Nat) :
    (s.budgetEintragen i budget period).tcb x =
      if x = i then (s.tcb i).mitBudget s.now budget period else s.tcb x :=
  tcb_modifyTcb s i x fun t => t.mitBudget s.now budget period

/-- Block `t` in slot `i`, and the count moved along with its flag. -/
theorem KontenOk.set (hs : s.KontenOk) {i : Nat} {t : Tcb} (hi : i < s.tcbs.len) (ht : t.KontoOk)
    (htcbs : s'.tcbs = s.tcbs.set i t)
    (hcount : s'.depletedCount + (s.tcb i).istErschoepft.toNat =
      s.depletedCount + t.istErschoepft.toNat) : s'.KontenOk := by
  have htcb : ∀ x, s'.tcb x = if x = i then t else s.tcb x := by
    intro x
    unfold tcb
    rw [htcbs]
    exact Slab.set_cell s.tcbs i x t
  have hlen : s'.tcbs.len = s.tcbs.len := by rw [htcbs, Slab.set_len]
  constructor
  · have hmove := Slab.count_set s.tcbs hi t Tcb.istErschoepft
    have hold : s.depletedCount = s.tcbs.count Tcb.istErschoepft := hs.zaehler
    have hcell : s.tcbs.cell i = s.tcb i := rfl
    unfold anzahlErschoepft
    rw [htcbs]
    rw [hcell] at hmove
    omega
  · intro x
    rw [htcb]
    split
    · exact ht
    · exact hs.konto x
  · intro x hx
    rw [hlen]
    rw [htcb] at hx
    split at hx
    · next hxi => exact hxi ▸ hi
    · exact hs.bound x hx

theorem KontenOk.leer (hs : s.KontenOk) {x : Nat} (hdep : (s.tcb x).depleted = true) :
    (s.tcb x).used = true ∧ 0 < (s.tcb x).budget ∧ (s.tcb x).remaining = 0 :=
  have hleer := (hs.konto x).leer hdep
  ⟨(hs.konto x).used hleer.1, hleer⟩

theorem KontenOk.istErschoepft (hs : s.KontenOk) (x : Nat) :
    (s.tcb x).istErschoepft = (s.tcb x).depleted := by
  unfold Tcb.istErschoepft
  cases hdep : (s.tcb x).depleted with
  | false => exact Bool.and_false _
  | true => rw [(hs.leer hdep).1]; rfl

theorem KontenOk.auffuellen (hs : s.KontenOk) {i : Nat} (hdue : s.refillFaellig i) :
    (s.auffuellen i).KontenOk := by
  have hi := hs.bound i hdue.1
  have hpos : 0 < s.depletedCount := by
    rw [hs.zaehler]
    exact Slab.count_pos hi ((hs.istErschoepft i).trans hdue.2.2.1)
  refine hs.set (t := (s.tcb i).voll) hi ⟨fun _ => hdue.1, fun hdep => nomatch hdep⟩ rfl ?_
  rw [hs.istErschoepft, hdue.2.2.1]
  show s.depletedCount - 1 + 1 = s.depletedCount + ((s.tcb i).used && false).toNat
  rw [Bool.and_false]
  show s.depletedCount - 1 + 1 = s.depletedCount
  omega

theorem KontenOk.erschoepfen (hs : s.KontenOk) {a : Nat} (hbudget : 0 < (s.tcb a).budget)
    (hdep : (s.tcb a).depleted = false) : (s.erschoepfen a).KontenOk := by
  have hused := (hs.konto a).used hbudget
  refine hs.set (t := (s.tcb a).entleert s.now) (hs.bound a hused)
    ⟨fun _ => hused, fun _ => ⟨hbudget, rfl⟩⟩ rfl ?_
  rw [hs.istErschoepft, hdep]
  show s.depletedCount + 1 + 0 = s.depletedCount + ((s.tcb a).used && true).toNat
  rw [hused]
  rfl

theorem KontenOk.erschoepfen_again (hs : s.KontenOk) {a : Nat} (hdep : (s.tcb a).depleted = true) :
    (s.erschoepfen a).depletedCount = (s.erschoepfen a).anzahlErschoepft + 1 := by
  have hmark : (s.erschoepfen a).anzahlErschoepft = s.anzahlErschoepft := by
    refine Slab.count_congr rfl fun x => ?_
    show ((s.erschoepfen a).tcb x).istErschoepft = (s.tcb x).istErschoepft
    rw [tcb_erschoepfen]
    split
    · next hx =>
      rw [hx]
      show ((s.tcb a).used && true) = ((s.tcb a).used && (s.tcb a).depleted)
      rw [hdep]
    · rfl
  rw [hmark, ← hs.zaehler]
  rfl

theorem KontenOk.budgetEintragen (hs : s.KontenOk) {i : Nat} (hi : (s.tcb i).used = true)
    (budget period : Nat) : (s.budgetEintragen i budget period).KontenOk := by
  refine hs.set (t := (s.tcb i).mitBudget s.now budget period) (hs.bound i hi)
    ⟨fun _ => hi, fun hdep => nomatch hdep⟩ rfl ?_
  rw [hs.istErschoepft]
  show (if (s.tcb i).depleted then s.depletedCount - 1 else s.depletedCount) +
    (s.tcb i).depleted.toNat = s.depletedCount + ((s.tcb i).used && false).toNat
  rw [Bool.and_false]
  cases hdep : (s.tcb i).depleted with
  | false => rfl
  | true =>
    have hpos : 0 < s.depletedCount := by
      rw [hs.zaehler]
      exact Slab.count_pos (hs.bound i hi) ((hs.istErschoepft i).trans hdep)
    show s.depletedCount - 1 + 1 = s.depletedCount
    omega

theorem KontenOk.slotLeeren (hs : s.KontenOk) {i : Nat} (hi : i < s.tcbs.len) :
    (s.slotLeeren i).KontenOk := by
  refine hs.set (t := Tcb.empty) hi
    ⟨fun hpos => absurd hpos (Nat.lt_irrefl 0), fun hdep => nomatch hdep⟩ rfl ?_
  rw [hs.istErschoepft]
  show (if (s.tcb i).depleted then s.depletedCount - 1 else s.depletedCount) +
    (s.tcb i).depleted.toNat = s.depletedCount + 0
  cases hdep : (s.tcb i).depleted with
  | false => rfl
  | true =>
    have hpos : 0 < s.depletedCount := by
      rw [hs.zaehler]
      exact Slab.count_pos hi ((hs.istErschoepft i).trans hdep)
    show s.depletedCount - 1 + 1 = s.depletedCount
    omega

theorem KontenOk.besetzt (hs : s.KontenOk) {i : Nat} {t : Tcb} (hb : Besetzt s s' i t)
    (hgeordnet : s.Geordnet) (ht : t.KontoOk)
    (hcount : s'.depletedCount = s.depletedCount + t.depleted.toNat) : s'.KontenOk := by
  have hfree := hb.unused hgeordnet
  obtain ⟨l, ho⟩ := hgeordnet
  obtain ⟨free, halloc, -⟩ := hb.free
  obtain ⟨hcons, -⟩ := FreeList.alloc_eq_some halloc
  have hi := ((ho.free_mem i).mp (hcons ▸ List.mem_cons_self)).1
  refine hs.set hi ht hb.tcbs ?_
  unfold Tcb.istErschoepft
  rw [hfree, hb.used, hcount]
  rfl

theorem refillFaellig_congr {s₀ : Scheduler} {x : Nat}
    (h : (s.tcb x).kontobild = (s₀.tcb x).kontobild) (hnow : s.now = s₀.now) :
    s.refillFaellig x ↔ s₀.refillFaellig x := by
  simp only [Tcb.kontobild, Tcb.mk.injEq] at h
  obtain ⟨hused, -, -, -, -, -, -, -, -, -, -, -, -, -, hbudget, -, -, hrefill, hdep, -⟩ := h
  unfold refillFaellig
  rw [hused, hbudget, hdep, hrefill, hnow]

theorem kontenbild_refillSlot {k : Nat} (h : s.refillSlot k = some s') :
    s'.kontenbild = if s.refillFaellig k then (s.auffuellen k).kontenbild else s.kontenbild := by
  rcases refillSlot_cases h with ⟨hdue, s₁, hlauf, hw⟩ | ⟨hdue, rfl⟩
  · rw [if_pos hdue]
    exact (blind_kontenbild.besitzerWecken hw).trans (blind_kontenbild.weckelauf hlauf)
  · rw [if_neg hdue]

theorem KontenOk.refillSlot (hs : s.KontenOk) {k : Nat} (h : s.refillSlot k = some s') :
    s'.KontenOk := by
  have hbild := kontenbild_refillSlot h
  split at hbild
  · next hdue => exact (hs.auffuellen hdue).congr hbild
  · exact hs.congr hbild

/-- The scan at slot `k`: the due accounts below are full, the others as before. -/
structure Auffuellung (s₀ : Scheduler) (k : Nat) (s : Scheduler) : Prop where
  now : s.now = s₀.now
  konto : ∀ x, (s.tcb x).kontobild =
    if x < k ∧ s₀.refillFaellig x then (s₀.tcb x).voll.kontobild else (s₀.tcb x).kontobild

theorem Auffuellung.start (s : Scheduler) : Auffuellung s 0 s :=
  ⟨rfl, fun x => (if_neg fun hand => Nat.not_lt_zero x hand.1).symm⟩

theorem Auffuellung.faellig {s₀ : Scheduler} {k : Nat} (h : Auffuellung s₀ k s) :
    s.refillFaellig k ↔ s₀.refillFaellig k := by
  have hself := h.konto k
  rw [if_neg fun hand => Nat.lt_irrefl k hand.1] at hself
  exact refillFaellig_congr hself h.now

theorem Auffuellung.schritt {s₀ : Scheduler} {k : Nat} (h : Auffuellung s₀ k s)
    (hstep : s.refillSlot k = some s') : Auffuellung s₀ (k + 1) s' := by
  have hbild := kontenbild_refillSlot hstep
  have hself := h.konto k
  rw [if_neg fun hand => Nat.lt_irrefl k hand.1] at hself
  have hdue := h.faellig
  by_cases hk : s.refillFaellig k
  · rw [if_pos hk] at hbild
    refine ⟨?_, fun x => ?_⟩
    · exact (congrArg (fun b : Nat × Nat × Nat × (Nat → Tcb) => b.2.1) hbild).trans h.now
    · rw [kontobild_of_kontenbild hbild, tcb_auffuellen]
      by_cases hx : x = k
      · subst hx
        rw [if_pos rfl, if_pos ⟨Nat.lt_succ_self x, hdue.mp hk⟩]
        have hvoll := congrArg (fun t : Tcb => t.voll.kontobild) hself
        exact hvoll
      · rw [if_neg hx, h.konto x]
        refine if_congr ?_ rfl rfl
        constructor
        · exact fun hand => ⟨Nat.lt_succ_of_lt hand.1, hand.2⟩
        · exact fun hand => ⟨by omega, hand.2⟩
  · rw [if_neg hk] at hbild
    refine ⟨?_, fun x => ?_⟩
    · exact (congrArg (fun b : Nat × Nat × Nat × (Nat → Tcb) => b.2.1) hbild).trans h.now
    · rw [kontobild_of_kontenbild hbild, h.konto x]
      refine if_congr ?_ rfl rfl
      constructor
      · exact fun hand => ⟨Nat.lt_succ_of_lt hand.1, hand.2⟩
      · rintro ⟨hlt, hx⟩
        refine ⟨?_, hx⟩
        have hne : x ≠ k := by
          rintro rfl
          exact hk (hdue.mpr hx)
        omega

/-- Is the account of slot `x` refilled by the next tick? -/
def tickFaellig (s : Scheduler) (x : Nat) : Prop := refillFaellig { s with now := s.now + 1 } x

instance (s : Scheduler) (x : Nat) : Decidable (s.tickFaellig x) :=
  inferInstanceAs (Decidable (refillFaellig { s with now := s.now + 1 } x))

theorem tickAnfang_konten (hs : s.KontenOk) (h : s.tickAnfang true = some s') :
    s'.KontenOk ∧ s'.now = s.now + 1 ∧ ∀ x, (s'.tcb x).kontobild =
      if s.tickFaellig x then (s.tcb x).voll.kontobild else (s.tcb x).kontobild := by
  have hnow : KontenOk { s with now := s.now + 1 } := ⟨hs.zaehler, hs.konto, hs.bound⟩
  unfold tickAnfang at h
  rw [if_pos rfl] at h
  dsimp only at h
  split at h
  · have hscan : Auffuellung { s with now := s.now + 1 } s.tcbs.len s' :=
      run_range_invariant (fun _ _ _ ht hk => Auffuellung.schritt ht hk) (Auffuellung.start _) h
    have hok : s'.KontenOk := run_invariant_of_step (fun _ _ _ ht hk => KontenOk.refillSlot ht hk) hnow h
    refine ⟨hok, hscan.now, fun x => (hscan.konto x).trans (if_congr ?_ rfl rfl)⟩
    constructor
    · exact fun hand => hand.2
    · exact fun hdue => ⟨hs.bound x hdue.1, hdue⟩
  · next hzero =>
    cases h
    refine ⟨hnow, rfl, fun x => (if_neg fun hdue => ?_).symm⟩
    -- No account is exhausted, so none is due.
    have hpos : 0 < s.anzahlErschoepft :=
      Slab.count_pos (hs.bound x hdue.1) ((hs.istErschoepft x).trans hdue.2.2.1)
    rw [hs.zaehler] at hzero
    exact hzero hpos

/-- The running thread is charged to an account that is exhausted and stays so. -/
def ErschoepftBelastet (s : Scheduler) : Prop :=
  ∃ cur, s.current = some cur ∧ (s.tcb (s.konto cur)).depleted = true ∧
    s.now + 1 < (s.tcb (s.konto cur)).nextRefill

theorem blind_konto (x : Nat) : Blind fun s => s.konto x := by
  refine .of_stand fun s s' _ htcb => ?_
  have hx := congrArg (fun t : Tcb => t.scDonor.getD x) (htcb x)
  exact hx

theorem kontenBlind_konto (x : Nat) : KontenBlind fun s => s.konto x := by
  refine ⟨fun s i f hf => ?_, fun _ _ _ _ _ => rfl⟩
  refine feld_modifyTcb (fun t => t.scDonor.getD x) s i x fun t => ?_
  have ht := congrArg (fun t : Tcb => t.scDonor.getD x) (hf t)
  exact ht

theorem konto_tickAnfang {tick : Bool} (h : s.tickAnfang tick = some s') (x : Nat) :
    s'.konto x = s.konto x :=
  (blind_konto x).tickAnfang (kontenBlind_konto x) h

theorem depleted_tickAnfang (hs : s.KontenOk) (h : s.tickAnfang true = some s') (x : Nat) :
    (s'.tcb x).depleted = true ↔ (s.tcb x).depleted = true ∧ s.now + 1 < (s.tcb x).nextRefill := by
  have hx := congrArg Tcb.depleted ((tickAnfang_konten hs h).2.2 x)
  have hself : (s'.tcb x).depleted = if s.tickFaellig x then false else (s.tcb x).depleted := by
    refine hx.trans ?_
    split
    · rfl
    · rfl
  rw [hself]
  split
  · next hdue =>
    refine iff_of_false (fun hfalse => nomatch hfalse) fun hand => ?_
    have hle : (s.tcb x).nextRefill ≤ s.now + 1 := hdue.2.2.2
    omega
  · next hdue =>
    refine ⟨fun hdep => ⟨hdep, ?_⟩, fun hand => hand.1⟩
    obtain ⟨hused, hbudget, -⟩ := hs.leer hdep
    by_contra hle
    exact hdue ⟨hused, hbudget, hdep, Nat.le_of_not_lt hle⟩

/-- An account that still has something is charged. -/
theorem KontenOk.belasten (hs : s.KontenOk) {cur : Nat} {tick : Bool}
    (hdep : tick = true → (s.tcb (s.konto cur)).depleted = false) : (s.belasten cur tick).KontenOk := by
  unfold Scheduler.belasten
  dsimp only
  split
  · next hempty =>
    have hfirst := hs.erschoepfen hempty.2.1 (hdep hempty.1)
    split
    · exact hfirst.congr (blind_kontenbild.setBudgetBlocked _ cur true)
    · exact hfirst
  · split
    · next hcharge =>
      have hacct := hs.konto (s.konto cur)
      have hfull := hdep hcharge.1
      refine hs.set (i := s.konto cur) (t := { s.tcb (s.konto cur) with
        remaining := (s.tcb (s.konto cur)).remaining - 1 }) (hs.bound _ (hacct.used hcharge.2))
        ⟨hacct.used, fun hd => absurd (hfull.symm.trans hd) Bool.false_ne_true⟩ rfl rfl
    · exact hs

theorem KontenOk.belasten_again (hs : s.KontenOk) {cur : Nat}
    (hdep : (s.tcb (s.konto cur)).depleted = true) :
    (s.belasten cur true).depletedCount = (s.belasten cur true).anzahlErschoepft + 1 := by
  obtain ⟨-, hbudget, hrem⟩ := hs.leer hdep
  have hempty : s.erschoepft cur true := ⟨rfl, hbudget, by omega⟩
  unfold Scheduler.belasten
  rw [if_pos hempty]
  split
  · have hblind := blind_kontenbild.setBudgetBlocked (s.erschoepfen (s.konto cur)) cur true
    rw [depletedCount_congr hblind, anzahlErschoepft_congr hblind]
    exact hs.erschoepfen_again hdep
  · exact hs.erschoepfen_again hdep

theorem kontenbild_zurueckreihen {frame : Nat} {tick : Bool}
    (h : s.zurueckreihen frame tick = some s') :
    s.current = none ∧ s' = s ∨ ∃ cur, s.current = some cur ∧
      s'.kontenbild = ((s.setSp cur frame).belasten cur tick).kontenbild := by
  unfold zurueckreihen at h
  split at h
  · next hnone =>
    cases h
    exact .inl ⟨hnone, rfl⟩
  · next cur hcur =>
    refine .inr ⟨cur, hcur, ?_⟩
    dsimp only at h
    split at h
    · exact blind_kontenbild.enqueueReady h
    · cases h
      rfl

theorem kontenbild_onTick {frame sp : Nat} {tick : Bool} (h : s.onTick frame tick = some (sp, s')) :
    ∃ s₁, s.tickAnfang tick = some s₁ ∧
      (s.current = none ∧ s'.kontenbild = s₁.kontenbild ∨ ∃ cur, s.current = some cur ∧
        s'.kontenbild = ((s₁.setSp cur frame).belasten cur tick).kontenbild) := by
  obtain ⟨s₁, s₂, h₁, h₂, hcases⟩ := onTick_cases h
  have hcur := (Bewahrt.tickAnfang h₁).2.current
  have hdispatch : s'.kontenbild = s₂.kontenbild := by
    rcases hcases with ⟨-, rfl⟩ | ⟨n, -, rfl⟩
    · rfl
    · exact blind_kontenbild.dispatch s₂ n
  rw [hdispatch, ← hcur]
  refine ⟨s₁, h₁, ?_⟩
  rcases kontenbild_zurueckreihen h₂ with ⟨hnone, rfl⟩ | ⟨cur, hrun, hbild⟩
  · exact .inl ⟨hnone, rfl⟩
  · exact .inr ⟨cur, hrun, hbild⟩

theorem depleted_konto_setSp (s : Scheduler) (cur frame : Nat) :
    ((s.setSp cur frame).tcb ((s.setSp cur frame).konto cur)).depleted =
      (s.tcb (s.konto cur)).depleted := by
  have hkonto := (blind_konto cur).setSp s cur frame
  rw [hkonto]
  exact feld_modifyTcb Tcb.depleted s cur _ fun _ => rfl

theorem KontenOk.onTick (hs : s.KontenOk) {frame sp : Nat} {tick : Bool}
    (hok : tick = true → ¬ s.ErschoepftBelastet) (h : s.onTick frame tick = some (sp, s')) :
    s'.KontenOk := by
  obtain ⟨s₁, h₁, hcases⟩ := kontenbild_onTick h
  have hs₁ : s₁.KontenOk := by
    cases tick with
    | true => exact (tickAnfang_konten hs h₁).1
    | false =>
      cases h₁
      exact hs
  rcases hcases with ⟨-, hbild⟩ | ⟨cur, hcur, hbild⟩
  · exact hs₁.congr hbild
  · refine KontenOk.congr (KontenOk.belasten (hs₁.congr (blind_kontenbild.setSp s₁ cur frame)) ?_) hbild
    intro htick
    subst htick
    rw [depleted_konto_setSp, konto_tickAnfang h₁, ← Bool.not_eq_true, depleted_tickAnfang hs h₁]
    exact fun hand => hok rfl ⟨cur, hcur, hand⟩

theorem KontenOk.onTick_again (hs : s.KontenOk) {frame sp : Nat} (hbad : s.ErschoepftBelastet)
    (h : s.onTick frame true = some (sp, s')) : s'.depletedCount = s'.anzahlErschoepft + 1 := by
  obtain ⟨cur, hcur, hdep⟩ := hbad
  obtain ⟨s₁, h₁, hcases⟩ := kontenbild_onTick h
  rcases hcases with ⟨hnone, -⟩ | ⟨cur', hcur', hbild⟩
  · rw [hcur] at hnone
    cases hnone
  · obtain rfl : cur = cur' := Option.some.inj (hcur.symm.trans hcur')
    have hs₁ := (tickAnfang_konten hs h₁).1
    rw [depletedCount_congr hbild, anzahlErschoepft_congr hbild]
    refine KontenOk.belasten_again (hs₁.congr (blind_kontenbild.setSp s₁ cur frame)) ?_
    rw [depleted_konto_setSp, konto_tickAnfang h₁, depleted_tickAnfang hs h₁]
    exact hdep

/-- A new budget is one block; who is woken for it shows nothing. -/
theorem kontenbild_setBudget {tid : ThreadId} {budget period : Nat} {b : Bool}
    (h : s.setBudget v tid budget period = some (b, s')) :
    s.resolve v tid = none ∧ s' = s ∨ ∃ i, s.resolve v tid = some i ∧
      s'.kontenbild = (s.budgetEintragen i budget period).kontenbild := by
  rcases setBudget_cases h with hnone | ⟨i, hi, hcases⟩
  · exact .inl hnone
  · refine .inr ⟨i, hi, ?_⟩
    rcases hcases with ⟨-, s₁, hlauf, hw⟩ | ⟨-, rfl⟩
    · exact (blind_kontenbild.weckeFallsLauffaehig hw).trans (blind_kontenbild.weckelauf hlauf)
    · rfl

theorem KontenOk.setBudget (hs : s.KontenOk) {tid : ThreadId} {budget period : Nat} {b : Bool}
    (h : s.setBudget v tid budget period = some (b, s')) : s'.KontenOk := by
  rcases kontenbild_setBudget h with ⟨-, rfl⟩ | ⟨i, hi, hbild⟩
  · exact hs
  · exact (hs.budgetEintragen (resolve_used hi) budget period).congr hbild

theorem KontenOk.zugang (hs : s.KontenOk) (hgeordnet : s.Geordnet) {i : Nat} {t : Tcb}
    (h : Zugang s s' i t) : s'.KontenOk := by
  have hb := h.besetzt
  obtain ⟨free, halloc, ⟨gid, gen, sp, priority, base, len, rfl⟩, rfl⟩ := h
  exact hs.besetzt hb hgeordnet
    ⟨fun hpos => absurd hpos (Nat.lt_irrefl 0), fun hdep => nomatch hdep⟩ rfl

theorem KontenOk.initCore (hs : s.KontenOk) (hgeordnet : s.Geordnet) {priority i : Nat}
    (h : s.initCore v priority = some (i, s', v')) : s'.KontenOk := by
  obtain ⟨t, s₁, hz, rfl⟩ := initCore_cases h
  exact (hs.zugang hgeordnet hz).congr (blind_kontenbild.setCurrent s₁ i)

theorem KontenOk.spawn (hs : s.KontenOk) (hgut : s.Gut) {sp base len priority : Nat}
    {r : Option ThreadId} (h : s.spawn v sp base len priority = some (r, s', v')) :
    s'.KontenOk := by
  rcases spawn_cases hgut h with rfl | ⟨i, t, s₁, hz, hcases⟩
  · exact hs
  · have hnew := hs.zugang hgut.1 hz
    rcases hcases with rfl | he
    · exact hnew
    · have hadm : (s₁.setAdmitted i).kontenbild = s₁.kontenbild :=
        kontenbild_modifyTcb s₁ i fun _ => rfl
      exact hnew.congr ((blind_kontenbild.enqueueReady he).trans hadm)

theorem KontenOk.recordZombie (hs : s.KontenOk) {i : Nat} (hi : (s.tcb i).used = true)
    (h : s.recordZombie v i = some (s', v')) : s'.KontenOk := by
  obtain ⟨s₁, z, hrun, rfl⟩ := recordZombie_cases h
  have hbild := blind_kontenbild.abloesen spendenBlind_kontenbild hrun
  have hloose := hs.congr hbild
  have hused : (((s₁.doneeAustragen i).removeFromReady i).tcb i).used = true := by
    have hx := congrArg Tcb.used (kontobild_of_kontenbild hbild i)
    exact hx.trans hi
  refine (hloose.slotLeeren (hloose.bound i hused)).congr ?_
  unfold zombieAblegen
  split
  · rfl
  · rfl

theorem KontenOk.exitCurrent (hs : s.KontenOk) (hlauf : s.Laufend) {sp : Nat}
    (h : s.exitCurrent v = some (sp, s', v')) : s'.KontenOk := by
  obtain ⟨cur, s₁, hcur, hz, hw⟩ := exitCurrent_cases h
  exact (hs.recordZombie (hlauf cur hcur) hz).congr (blind_kontenbild.wechseln hw)

theorem KontenOk.kill (hs : s.KontenOk) {tid : ThreadId} {b : Bool}
    (h : s.kill v tid = some (b, s', v')) : s'.KontenOk := by
  rcases kill_cases h with rfl | ⟨i, hi, -, hz⟩
  · exact hs
  · have hrem := hs.congr (blind_kontenbild.removeFromReady s i)
    exact hrem.recordZombie (((Rahmen.removeFromReady s i).used i).trans (resolve_used hi)) hz

theorem KontenOk.detachForMigration (hs : s.KontenOk) {tid : ThreadId} {m : Migrant}
    (h : s.detachForMigration v tid = some (m, s')) : s'.KontenOk ∧ m.tcb.KontoOk := by
  obtain ⟨i, n, ⟨hi, -⟩, rfl, rfl⟩ := detachForMigration_cases h
  have hrem := hs.congr (blind_kontenbild.removeFromReady s i)
  have hused := ((Rahmen.removeFromReady s i).used i).trans (resolve_used hi)
  have hkonto := hrem.konto i
  exact ⟨(hrem.slotLeeren (hrem.bound i hused)).congr rfl, hkonto.used, hkonto.leer⟩

theorem KontenOk.attachMigrated (hs : s.KontenOk) (hgeordnet : s.Geordnet) {m : Migrant}
    (hused : m.tcb.used = true) (hm : m.tcb.KontoOk)
    (h : s.attachMigrated v m = some (.ok (s', v'))) : s'.KontenOk := by
  obtain ⟨i, free, halloc, -, hcases⟩ := attachMigrated_aufnahme h
  have harrive : (s.aufnehmen i free (s.ankunft m.tcb)).KontenOk := by
    refine hs.besetzt (besetzt_aufnehmen halloc hused) hgeordnet ⟨hm.used, hm.leer⟩ ?_
    show (if m.tcb.depleted then s.depletedCount + 1 else s.depletedCount) =
      s.depletedCount + m.tcb.depleted.toNat
    cases m.tcb.depleted with
    | false | true => rfl
  rcases hcases with ⟨-, he⟩ | ⟨-, rfl⟩
  · exact harrive.congr (blind_kontenbild.enqueueReady he)
  · exact harrive

theorem kontenbild_aufruf {a : Aufruf} (ha : ¬ a.BewegtKonten) (h : s.aufruf v a = some s') :
    s'.kontenbild = s.kontenbild := by
  cases a with
  | switchTo frame target =>
    obtain ⟨sp, h⟩ := map_snd_eq_some h
    exact blind_kontenbild.switchTo trivial trivial spendenBlind_kontenbild h
  | endDonation =>
    cases h
    exact spendenBlind_kontenbild.endDonation blind_kontenbild.refl blind_kontenbild.trans s
  | onTick frame tick | setBudget tid budget period => exact absurd trivial ha
  | fristSetzen ticks grund => exact fristBlind_kontenbild.fristSetzen h
  | fristLoeschen tid =>
    cases h
    exact fristBlind_kontenbild.fristLoeschen s v tid
  | fristenFaellig outLen =>
    obtain ⟨out, h⟩ := map_snd_eq_some h
    exact blind_kontenbild.fristenFaellig fristBlind_kontenbild h
  | _ => exact blind_kontenbild.aufruf h trivial

theorem KontenOk.aufruf (hs : s.KontenOk) {a : Aufruf}
    (hok : ∀ frame, a = .onTick frame true → ¬ s.ErschoepftBelastet) (h : s.aufruf v a = some s') :
    s'.KontenOk := by
  cases a with
  | onTick frame tick =>
    obtain ⟨sp, h⟩ := map_snd_eq_some h
    refine hs.onTick (fun htick => hok frame ?_) h
    rw [htick]
  | setBudget tid budget period =>
    obtain ⟨b, h⟩ := map_snd_eq_some h
    exact hs.setBudget h
  | _ => exact hs.congr (kontenbild_aufruf (by exact not_false) h)

end Scheduler

namespace System

open Scheduler

variable {S S' : System}

/-- No tick charges the running thread to an account that is exhausted and stays so. -/
def UnerschoepftBelastet (S : System) : Op → Prop
  | .aufruf c (.onTick _ true) => ¬ (S.cores c).ErschoepftBelastet
  | _ => True

def ZaehltErschoepfte (S : System) : Prop :=
  ∀ c, (S.cores c).depletedCount = (S.cores c).anzahlErschoepft ∧
    ∀ x, ((S.cores c).tcb x).used = true → ((S.cores c).tcb x).depleted = true →
      0 < (S.cores c).depletedCount

theorem kontenOk_init (a : Ausbau) :
    (init a).Ueberall KontenOk fun m => m.tcb.KontoOk := by
  refine ⟨fun c => ⟨?_, fun x => ⟨fun hpos => absurd hpos (Nat.lt_irrefl 0), fun hdep => nomatch hdep⟩,
    fun x hused => nomatch hused⟩, fun m hm => by cases hm⟩
  exact (List.countP_eq_zero.mpr fun i _ => Bool.false_ne_true).symm

theorem step_kontenOk {op : Op} (hS : S.Ueberall KontenOk fun m => m.tcb.KontoOk) (hgut : S.Gut)
    (hok : S.UnerschoepftBelastet op) (hstep : S.step op = some S') :
    S'.Ueberall KontenOk fun m => m.tcb.KontoOk := by
  refine hS.step hstep fun c s ms' hk => ?_
  have hs := hS.1 c
  have hg := hgut.1 c
  cases hk with
  | aufruf h =>
    refine ⟨hs.aufruf (fun frame ha => ?_) h, hS.2⟩
    subst ha
    exact hok
  | initCore h => exact ⟨hs.initCore hg.1 h, hS.2⟩
  | spawnParked hop h =>
    obtain ⟨t, hz, -⟩ := spawnParked_cases h
    exact ⟨hs.zugang hg.1 hz, hS.2⟩
  | spawn h => exact ⟨hs.spawn hg h, hS.2⟩
  | exitCurrent h => exact ⟨hs.exitCurrent hg.2 h, hS.2⟩
  | kill h => exact ⟨hs.kill h, hS.2⟩
  | reap h =>
    refine ⟨?_, hS.2⟩
    obtain ⟨-, -, rfl⟩ := reap_eq_some h
    exact hs.congr rfl
  | detachForMigration h =>
    obtain ⟨hs', hm⟩ := hs.detachForMigration h
    refine ⟨hs', fun m' hm' => ?_⟩
    rcases List.mem_append.mp hm' with hold | hnew
    · exact hS.2 m' hold
    · exact List.mem_singleton.mp hnew ▸ hm
  | attachMigrated hm h =>
    have hmem := List.mem_of_getElem? hm
    exact ⟨hs.attachMigrated hg.1 (hgut.2 _ hmem) (hS.2 _ hmem) h,
      fun m' hm' => hS.2 m' (List.mem_of_mem_eraseIdx hm')⟩

/-- The counts are exact after every prefix of a run exactly if no tick of it charges an
account that is exhausted and stays so. -/
theorem run_zaehltErschoepfte_iff (a : Ausbau) (ops : List Op) (S : System)
    (hrun : run step (init a) ops = some S) :
    (∀ xs T, xs <+: ops → run step (init a) xs = some T → T.ZaehltErschoepfte) ↔
      Admissible step UnerschoepftBelastet (init a) ops := by
  have hinit : (init a).Ueberall KontenOk (fun m => m.tcb.KontoOk) ∧ (init a).Gut :=
    ⟨kontenOk_init a, gut_init a⟩
  refine @forall_reached_iff_admissible _ _ _ _
    (fun T => T.Ueberall KontenOk (fun m => m.tcb.KontoOk) ∧ T.Gut) _ ?_ ?_ ?_ _ _ _ hinit hrun
  · intro T hT c
    have hc := hT.1.1 c
    refine ⟨hc.zaehler, fun x hused hdep => ?_⟩
    rw [hc.zaehler]
    exact Slab.count_pos (hc.bound x hused) ((hc.istErschoepft x).trans hdep)
  · intro T op T' hT hok hstep
    exact ⟨step_kontenOk hT.1 hT.2 hok hstep, step_gut T op T' hT.2 hstep⟩
  · intro T op T' hT hbad hstep hexact
    cases op with
    | aufruf c call =>
        cases call with
        | onTick frame tick =>
            cases tick with
            | true =>
                obtain ⟨s, hs, rfl⟩ := Option.map_eq_some_iff.mp hstep
                obtain ⟨sp, hs⟩ := map_snd_eq_some hs
                have htwice := (hT.1.1 c).onTick_again (not_not.mp hbad) hs
                have hcount := (hexact c).1
                have hcore : (T.weiter c s T.verzeichnis).cores c = s := by
                  show Function.update T.cores c s c = s
                  exact Function.update_self ..
                rw [hcore] at hcount
                omega
            | false => exact hbad trivial
        | _ => exact hbad trivial
    | _ => exact hbad trivial

/-- A thread with one tick of budget and one that calls it. -/
def erschoepfterServer : List Op :=
  [Op.initCore 0 0, Op.spawn 0 100 0 16 1, Op.spawn 0 200 0 16 1,
    Op.aufruf 0 (.setBudget ⟨2, 0⟩ 1 100), Op.aufruf 0 (.onTick 0 true), Op.aufruf 0 (.onTick 0 true),
    Op.aufruf 0 (.onTick 0 true), Op.aufruf 0 (.switchTo 0 ⟨2, 0⟩), Op.aufruf 0 .endDonation]

/-- The thread uses its budget up, is called and gives the lent account back: the next tick
counts it for the second time. -/
theorem depletedCount_counts_twice :
    ¬ ∀ ops S, run step (init ⟨3, 3, by decide⟩) ops = some S → ∀ c,
      (S.cores c).depletedCount = (S.cores c).anzahlErschoepft := by
  have hread : (run step (init ⟨3, 3, by decide⟩)
      (erschoepfterServer ++ [Op.aufruf 0 (.onTick 0 true)])).map
        (fun S => ((S.cores 0).depletedCount, (S.cores 0).anzahlErschoepft)) = some (2, 1) := by
    decide +kernel
  obtain ⟨S, hS, heq⟩ := Option.map_eq_some_iff.mp hread
  intro hall
  have hexact := hall _ S hS 0
  simp only [Prod.mk.injEq] at heq
  omega

/-- The law for that run up to its last tick. -/
theorem run_zaehltErschoepfte_iff_called_server :
    ∃ S, run step (init ⟨3, 3, by decide⟩) erschoepfterServer = some S ∧
      ((∀ xs T, xs <+: erschoepfterServer → run step (init ⟨3, 3, by decide⟩) xs = some T →
          T.ZaehltErschoepfte) ↔
        Admissible step UnerschoepftBelastet (init ⟨3, 3, by decide⟩) erschoepfterServer) := by
  have hsome : (run step (init ⟨3, 3, by decide⟩) erschoepfterServer).isSome = true := by
    decide
  obtain ⟨S, hS⟩ := Option.isSome_iff_exists.mp hsome
  exact ⟨S, hS, run_zaehltErschoepfte_iff _ _ S hS⟩

end System

end Caprock.Sched
