import Mathlib.Logic.Function.Basic
import Caprock.Lib.Run
import Caprock.Lib.Word

/-! # The pool of a driver

`DmaPool` hands out pieces of one granted region from a pointer that only moves forward; a bounce
slot keeps the pointer's value from before its piece, and freeing the slot moves the pointer back
there.  Pieces stay apart exactly in the runs where no slot is freed under a piece that lies above
its mark.
-/

namespace Caprock.Dma

open Execution Word Function

inductive PoolError where
  | leer
  | keineGeraetesicht
  | identitaet
  | ueberlauf
  deriving DecidableEq, Repr

/-- A piece of memory as the program and as the device see it. -/
structure DmaBuf where
  cpu : Nat
  dev : Nat
  len : Nat
  deriving DecidableEq, Repr

structure DmaPool where
  cpuBase : Nat
  devBase : Nat
  len : Nat
  next : Nat
  hoechststand : Nat
  deriving DecidableEq, Repr

namespace DmaPool

def new (cpuBase devBase len : Nat) : Except PoolError DmaPool :=
  if len = 0 then .error .leer
  else if devBase = 0 then .error .keineGeraetesicht
  else if cpuBase = devBase then .error .identitaet
  else if (checkedAdd cpuBase len).isNone ∨ (checkedAdd devBase len).isNone then .error .ueberlauf
  else .ok ⟨cpuBase, devBase, len, 0, 0⟩

def alloc (p : DmaPool) (len align : Nat) : Option DmaBuf × DmaPool :=
  if len = 0 ∨ align = 0 ∨ isPowerOfTwo align = false then (none, p)
  else
    match checkedAdd p.next (align - 1) with
    | none => (none, p)
    | some _ =>
        let off := alignUp p.next align
        match checkedAdd off len with
        | none => (none, p)
        | some ende =>
            if p.len < ende then (none, p)
            else (some ⟨p.cpuBase + off, p.devBase + off, len⟩,
              { p with next := ende, hoechststand := max p.hoechststand ende })

/-- A piece that the caller chose itself; the pointer stays. -/
def map (p : DmaPool) (cpu len : Nat) : Option DmaBuf :=
  if cpu < p.cpuBase then none
  else
    match checkedAdd (cpu - p.cpuBase) len with
    | none => none
    | some ende =>
        if p.len < ende then none else some ⟨cpu, p.devBase + (cpu - p.cpuBase), len⟩

theorem map_of_le {p : DmaPool} {off len : Nat} (hende : p.cpuBase + p.len < 2 ^ 64)
    (h : off + len ≤ p.len) :
    p.map (p.cpuBase + off) len = some ⟨p.cpuBase + off, p.devBase + off, len⟩ := by
  have hoff : p.cpuBase + off - p.cpuBase = off := by omega
  simp only [map, hoff, checkedAdd_eq (show off + len < 2 ^ 64 by omega)]
  rw [if_neg (by omega), if_neg (by omega)]

def mark (p : DmaPool) : Nat := p.next

def release (p : DmaPool) (m : Nat) : Bool × DmaPool :=
  if p.next < m then (false, p) else (true, { p with next := m })

end DmaPool

structure BounceSlot where
  buf : DmaBuf
  marke : Nat
  deriving DecidableEq, Repr

def bounceEinlagern (p : DmaPool) (bedarf align : Nat) : Option BounceSlot × DmaPool :=
  let marke := p.mark
  match p.alloc bedarf align with
  | (none, p) => (none, p)
  | (some buf, p) => (some ⟨buf, marke⟩, p)

def bounceFreigeben (p : DmaPool) (slot : BounceSlot) : Bool × DmaPool := p.release slot.marke

/-- The pool with the pieces that are in use and the slots that were handed out, numbered in the
order of their creation.  A slot can be freed more than once. -/
structure Betrieb where
  pool : DmaPool
  anzahl : Nat
  lebt : Nat → Option DmaBuf
  slot : Nat → Option BounceSlot

inductive Op where
  | alloc (len align : Nat)
  | bounceEinlagern (bedarf align : Nat)
  | bounceFreigeben (i : Nat)

namespace Betrieb

def init (pool : DmaPool) : Betrieb := ⟨pool, 0, fun _ => none, fun _ => none⟩

def step (w : Betrieb) : Op → Option Betrieb
  | .alloc len align =>
      match w.pool.alloc len align with
      | (none, p) => some { w with pool := p }
      | (some buf, p) => some { w with
          pool := p
          anzahl := w.anzahl + 1
          lebt := update w.lebt w.anzahl (some buf) }
  | .bounceEinlagern bedarf align =>
      match Dma.bounceEinlagern w.pool bedarf align with
      | (none, p) => some { w with pool := p }
      | (some slot, p) => some {
          pool := p
          anzahl := w.anzahl + 1
          lebt := update w.lebt w.anzahl (some slot.buf)
          slot := update w.slot w.anzahl (some slot) }
  | .bounceFreigeben i =>
      match w.slot i with
      | none => none
      | some slot =>
          match Dma.bounceFreigeben w.pool slot with
          | (false, p) => some { w with pool := p }
          | (true, p) => some { w with pool := p, lebt := update w.lebt i none }

end Betrieb

/-- The piece lies in the pool, at the same place for the program and for the device. -/
structure DmaBuf.Innen (b : DmaBuf) (p : DmaPool) : Prop where
  cpu : p.cpuBase ≤ b.cpu ∧ b.cpu + b.len ≤ p.cpuBase + p.len
  dev : p.devBase ≤ b.dev ∧ b.dev + b.len ≤ p.devBase + p.len
  gleich : b.cpu - p.cpuBase = b.dev - p.devBase

structure DmaBuf.Disjunkt (a b : DmaBuf) : Prop where
  cpu : a.cpu + a.len ≤ b.cpu ∨ b.cpu + b.len ≤ a.cpu
  dev : a.dev + a.len ≤ b.dev ∨ b.dev + b.len ≤ a.dev

namespace Betrieb

/-- All pieces in use lie in the pool and apart from each other. -/
structure Getrennt (w : Betrieb) : Prop where
  innen : ∀ i b, w.lebt i = some b → b.Innen w.pool
  disjunkt : ∀ i j b c, i ≠ j → w.lebt i = some b → w.lebt j = some c → b.Disjunkt c

def FreigabeOk (w : Betrieb) : Op → Prop
  | .bounceFreigeben i => ∀ slot, w.slot i = some slot → slot.marke ≤ w.pool.next →
      ∀ j b, j ≠ i → w.lebt j = some b → b.cpu + b.len ≤ w.pool.cpuBase + slot.marke
  | _ => True

/-- `b` lies at offset `off`, below the pointer. -/
structure Liegt (p : DmaPool) (b : DmaBuf) (off : Nat) : Prop where
  cpu : b.cpu = p.cpuBase + off
  dev : b.dev = p.devBase + off
  next : off + b.len ≤ p.next
  pos : 0 < b.len

structure Inv (w : Betrieb) : Prop where
  next_le : w.pool.next ≤ w.pool.len
  len_lt : w.pool.len < 2 ^ 64
  frisch : ∀ i, w.anzahl ≤ i → w.lebt i = none
  liegt : ∀ i b, w.lebt i = some b → ∃ off, Liegt w.pool b off
  disjunkt : ∀ i j b c, i ≠ j → w.lebt i = some b → w.lebt j = some c → b.Disjunkt c

theorem alloc_cases (p : DmaPool) (len align : Nat) :
    p.alloc len align = (none, p) ∨ ∃ off k, p.next ≤ off ∧ off + len ≤ p.len ∧ 0 < len ∧
      p.alloc len align = (some ⟨p.cpuBase + off, p.devBase + off, len⟩,
        { p with next := off + len, hoechststand := k }) := by
  unfold DmaPool.alloc
  split
  · exact .inl rfl
  · next hargs =>
    cases hround : checkedAdd p.next (align - 1) with
    | none => exact .inl rfl
    | some x =>
      have hlt := (checkedAdd_eq_some.mp hround).1
      cases hend : checkedAdd (alignUp p.next align) len with
      | none =>
        simp only [hend]
        exact .inl trivial
      | some ende =>
        obtain ⟨-, rfl⟩ := checkedAdd_eq_some.mp hend
        simp only [hend]
        split
        · exact .inl rfl
        · next hroom =>
          refine .inr ⟨alignUp p.next align, _, le_alignUp_of_lt _ _ hlt, by omega, ?_, rfl⟩
          exact Nat.pos_of_ne_zero fun h => hargs (.inl h)

theorem init_inv {cpuBase devBase len : Nat} {p : DmaPool}
    (h : DmaPool.new cpuBase devBase len = .ok p) : (init p).Inv := by
  unfold DmaPool.new at h
  split at h
  · cases h
  · split at h
    · cases h
    · split at h
      · cases h
      · split at h
        · cases h
        · next hfit =>
          cases h
          have hcpu : ¬ (checkedAdd cpuBase len).isNone = true := fun hn => hfit (.inl hn)
          have hlt : cpuBase + len < 2 ^ 64 := by
            by_contra hnot
            simp only [checkedAdd, if_neg hnot, Option.isNone_none, not_true_eq_false] at hcpu
          exact ⟨Nat.zero_le _, Nat.lt_of_le_of_lt (Nat.le_add_left ..) hlt, fun _ _ => rfl,
            nofun, nofun⟩

variable {w w' : Betrieb}

theorem Inv.getrennt (h : w.Inv) : w.Getrennt := by
  refine ⟨fun i b hb => ?_, h.disjunkt⟩
  obtain ⟨off, hoff⟩ := h.liegt i b hb
  have hnext := hoff.next
  have hle := h.next_le
  constructor
  · rw [hoff.cpu]
    omega
  · rw [hoff.dev]
    omega
  · rw [hoff.cpu, hoff.dev]
    omega

/-- A piece above the pointer is apart from all others. -/
theorem Inv.aufnehmen (h : w.Inv) {off len k : Nat} (hoff : w.pool.next ≤ off)
    (hend : off + len ≤ w.pool.len) (hpos : 0 < len)
    (hpool : w'.pool = { w.pool with next := off + len, hoechststand := k })
    (hanzahl : w'.anzahl = w.anzahl + 1)
    (hlebt : w'.lebt = update w.lebt w.anzahl
      (some ⟨w.pool.cpuBase + off, w.pool.devBase + off, len⟩)) : w'.Inv := by
  have hfar : ∀ i b, w.lebt i = some b →
      DmaBuf.Disjunkt ⟨w.pool.cpuBase + off, w.pool.devBase + off, len⟩ b := by
    intro i b hb
    obtain ⟨o, ho⟩ := h.liegt i b hb
    have hnext := ho.next
    have hcpu := ho.cpu
    have hdev := ho.dev
    constructor
    · right
      show b.cpu + b.len ≤ w.pool.cpuBase + off
      omega
    · right
      show b.dev + b.len ≤ w.pool.devBase + off
      omega
  constructor
  · rw [hpool]
    exact hend
  · rw [hpool]
    exact h.len_lt
  · intro i hi
    have hne : i ≠ w.anzahl := by omega
    rw [hlebt, update_of_ne hne]
    exact h.frisch i (by omega)
  · intro i b hb
    rw [hlebt] at hb
    by_cases hi : i = w.anzahl
    · subst hi
      rw [update_self] at hb
      cases hb
      refine ⟨off, ?_⟩
      rw [hpool]
      exact ⟨rfl, rfl, Nat.le_refl _, hpos⟩
    · rw [update_of_ne hi] at hb
      obtain ⟨o, ho⟩ := h.liegt i b hb
      have hnext := ho.next
      refine ⟨o, ?_⟩
      rw [hpool]
      refine ⟨ho.cpu, ho.dev, ?_, ho.pos⟩
      show o + b.len ≤ off + len
      omega
  · intro i j b c hij hb hc
    rw [hlebt] at hb hc
    by_cases hi : i = w.anzahl
    · subst hi
      rw [update_self] at hb
      cases hb
      rw [update_of_ne (Ne.symm hij)] at hc
      exact hfar j c hc
    · rw [update_of_ne hi] at hb
      by_cases hj : j = w.anzahl
      · subst hj
        rw [update_self] at hc
        cases hc
        have hd := hfar i b hb
        exact ⟨hd.cpu.symm, hd.dev.symm⟩
      · rw [update_of_ne hj] at hc
        exact h.disjunkt i j b c hij hb hc

/-- Moving the pointer back to `m` over the pieces that end there. -/
theorem Inv.zurueck (h : w.Inv) {m i : Nat} (hm : m ≤ w.pool.next)
    (hok : ∀ j b, j ≠ i → w.lebt j = some b → b.cpu + b.len ≤ w.pool.cpuBase + m)
    (hpool : w'.pool = { w.pool with next := m }) (hanzahl : w'.anzahl = w.anzahl)
    (hlebt : w'.lebt = update w.lebt i none) : w'.Inv := by
  have hkept : ∀ j b, w'.lebt j = some b → j ≠ i ∧ w.lebt j = some b := by
    intro j b hb
    rw [hlebt] at hb
    by_cases hj : j = i
    · subst hj
      rw [update_self] at hb
      cases hb
    · rw [update_of_ne hj] at hb
      exact ⟨hj, hb⟩
  constructor
  · rw [hpool]
    exact hm.trans h.next_le
  · rw [hpool]
    exact h.len_lt
  · intro j hj
    rw [hlebt]
    by_cases hji : j = i
    · rw [hji, update_self]
    · rw [update_of_ne hji]
      exact h.frisch j (hanzahl ▸ hj)
  · intro j b hb
    obtain ⟨hji, hb'⟩ := hkept j b hb
    obtain ⟨off, hoff⟩ := h.liegt j b hb'
    have hend := hok j b hji hb'
    have hcpu := hoff.cpu
    refine ⟨off, ?_⟩
    rw [hpool]
    refine ⟨hoff.cpu, hoff.dev, ?_, hoff.pos⟩
    show off + b.len ≤ m
    omega
  · intro j k b c hjk hb hc
    exact h.disjunkt j k b c hjk (hkept j b hb).2 (hkept k c hc).2

theorem step_inv (w : Betrieb) (op : Op) (w' : Betrieb) (h : w.Inv) (hok : w.FreigabeOk op)
    (hstep : w.step op = some w') : w'.Inv := by
  cases op with
  | alloc len align =>
    rcases alloc_cases w.pool len align with hnone | ⟨off, k, hoff, hend, hpos, hsome⟩
    · simp only [step, hnone, Option.some.injEq] at hstep
      exact hstep ▸ h
    · simp only [step, hsome, Option.some.injEq] at hstep
      subst hstep
      exact h.aufnehmen hoff hend hpos rfl rfl rfl
  | bounceEinlagern bedarf align =>
    rcases alloc_cases w.pool bedarf align with hnone | ⟨off, k, hoff, hend, hpos, hsome⟩
    · simp only [step, Dma.bounceEinlagern, hnone, Option.some.injEq] at hstep
      exact hstep ▸ h
    · simp only [step, Dma.bounceEinlagern, hsome, Option.some.injEq] at hstep
      subst hstep
      exact h.aufnehmen hoff hend hpos rfl rfl rfl
  | bounceFreigeben i =>
    cases hslot : w.slot i with
    | none => simp [step, hslot] at hstep
    | some slot =>
      by_cases hm : w.pool.next < slot.marke
      · simp only [step, hslot, Dma.bounceFreigeben, DmaPool.release, if_pos hm,
          Option.some.injEq] at hstep
        exact hstep ▸ h
      · simp only [step, hslot, Dma.bounceFreigeben, DmaPool.release, if_neg hm,
          Option.some.injEq] at hstep
        subst hstep
        have hle := Nat.le_of_not_lt hm
        exact h.zurueck hle (hok slot hslot hle) rfl rfl rfl

theorem alloc_one (p : DmaPool) (len : Nat) (hpos : 0 < len) (hfit : p.next + len ≤ p.len)
    (hlt : p.len < 2 ^ 64) :
    ∃ k, p.alloc len 1 = (some ⟨p.cpuBase + p.next, p.devBase + p.next, len⟩,
      { p with next := p.next + len, hoechststand := k }) := by
  have halign : alignUp p.next 1 = p.next := by
    have hle := le_alignUp_of_lt p.next 1 (by omega)
    have hge : alignUp p.next 1 ≤ p.next := by
      unfold alignUp
      rw [wadd_eq (by omega)]
      exact Nat.and_le_left
    omega
  have hround : checkedAdd p.next (1 - 1) = some (p.next + 0) :=
    checkedAdd_eq_some.mpr ⟨by omega, rfl⟩
  have hend : checkedAdd p.next len = some (p.next + len) :=
    checkedAdd_eq_some.mpr ⟨by omega, rfl⟩
  have hargs : ¬ (len = 0 ∨ 1 = 0 ∨ isPowerOfTwo 1 = false) := by
    have hone : isPowerOfTwo 1 = true := by decide
    simp only [hone, Bool.true_eq_false, or_false]
    omega
  refine ⟨max p.hoechststand (p.next + len), ?_⟩
  unfold DmaPool.alloc
  rw [if_neg hargs, hround]
  simp only [halign, hend, if_neg (Nat.not_lt.mpr hfit)]

theorem step_alloc_of_some {len align : Nat} {buf : DmaBuf} {p : DmaPool}
    (h : w.pool.alloc len align = (some buf, p)) :
    w.step (.alloc len align) = some { w with
      pool := p
      anzahl := w.anzahl + 1
      lebt := update w.lebt w.anzahl (some buf) } := by
  simp only [step, h]

def Sicher (w : Betrieb) : Prop :=
  w.Getrennt ∧ ∀ len align w', w.step (.alloc len align) = some w' → w'.Getrennt

theorem step_not_sicher (w : Betrieb) (op : Op) (w' : Betrieb) (h : w.Inv)
    (hbad : ¬ w.FreigabeOk op) (hstep : w.step op = some w') : ¬ w'.Sicher := by
  cases op with
  | alloc len align | bounceEinlagern bedarf align => exact absurd trivial hbad
  | bounceFreigeben i =>
    simp only [FreigabeOk, not_forall, Nat.not_le] at hbad
    obtain ⟨slot, hslot, hle, j, b, hji, hb, hover⟩ := hbad
    simp only [step, hslot, Dma.bounceFreigeben, DmaPool.release,
      if_neg (Nat.not_lt.mpr hle), Option.some.injEq] at hstep
    subst hstep
    obtain ⟨off, hoff⟩ := h.liegt j b hb
    have hnext := hoff.next
    have hcpu := hoff.cpu
    have hpos := hoff.pos
    have hcap := h.next_le
    have hj : j < w.anzahl := by
      by_contra hnot
      rw [h.frisch j (Nat.le_of_not_lt hnot)] at hb
      cases hb
    obtain ⟨k, halloc⟩ := alloc_one { w.pool with next := slot.marke }
      (off + b.len - slot.marke) (by omega)
      (show slot.marke + (off + b.len - slot.marke) ≤ w.pool.len by omega) h.len_lt
    intro hsafe
    have hnew := hsafe.2 (off + b.len - slot.marke) 1 _ (step_alloc_of_some halloc)
    have hdis := (hnew.disjunkt w.anzahl j _ b (by omega) (update_self ..) (by
      show update (update w.lebt i none) w.anzahl _ j = some b
      rw [update_of_ne (by omega), update_of_ne hji, hb])).cpu
    dsimp only at hdis
    omega

theorem step_alloc_getrennt (h : w.Inv) (len align : Nat)
    (hstep : w.step (.alloc len align) = some w') : w'.Getrennt :=
  (step_inv w (.alloc len align) w' h trivial hstep).getrennt

/-- In every finished run the pieces in use lie in the pool and apart from each other, at every
moment and after any further allocation, exactly if every slot was freed above all other pieces. -/
theorem run_sicher_iff (cpuBase devBase len : Nat) (p : DmaPool) (ops : List Op) (w : Betrieb)
    (hnew : DmaPool.new cpuBase devBase len = .ok p) (hrun : run step (init p) ops = some w) :
    (∀ xs v, xs <+: ops → run step (init p) xs = some v → v.Sicher) ↔
      Admissible step FreigabeOk (init p) ops := by
  apply forall_reached_iff_admissible _ step_inv step_not_sicher (init_inv hnew) hrun
  exact fun v hv => ⟨hv.getrennt, fun n align v' hstep => step_alloc_getrennt hv n align hstep⟩

/-- A slot above an allocation is freed: the allocation ends at its mark. -/
theorem run_sicher_iff_einlagern :
    ∃ p w, DmaPool.new 0x40000000 0x100000000 0x10000 = .ok p ∧
      run step (init p) [.alloc 64 64, .bounceEinlagern 64 64, .bounceFreigeben 1] = some w ∧
      w.Sicher := by
  refine ⟨⟨0x40000000, 0x100000000, 0x10000, 0, 0⟩, _, rfl, rfl,
    (run_sicher_iff 0x40000000 0x100000000 0x10000 _
      [.alloc 64 64, .bounceEinlagern 64 64, .bounceFreigeben 1] _ rfl rfl).mpr
      ⟨trivial, fun w₁ h₁ => ⟨trivial, fun w₂ h₂ => ⟨?_, fun _ _ => trivial⟩⟩⟩ _ _
      List.prefix_rfl rfl⟩
  obtain rfl := Option.some.inj h₁
  obtain rfl := Option.some.inj h₂
  intro slot hslot _ j b hj hb
  obtain rfl := Option.some.inj hslot
  have hzero : j = 0 := by
    by_contra hne
    have hnone : some b = none := hb.symm.trans
      ((update_of_ne hj ..).trans (update_of_ne hne ..))
    cases hnone
  subst hzero
  obtain rfl := Option.some.inj hb
  decide

/-- The older of two slots is freed first: the next allocation lies over the younger one. -/
theorem run_freigeben_under_younger :
    ∃ p w, DmaPool.new 0x40000000 0x100000000 0x10000 = .ok p ∧
      run step (init p) [.bounceEinlagern 64 64, .bounceEinlagern 64 64, .bounceFreigeben 0,
        .alloc 128 64] = some w ∧
      w.lebt 1 = some ⟨0x40000040, 0x100000040, 64⟩ ∧
      w.lebt 2 = some ⟨0x40000000, 0x100000000, 128⟩ ∧ ¬ w.Getrennt := by
  refine ⟨_, _, rfl, rfl, by decide, by decide, fun h => ?_⟩
  have hdis := (h.disjunkt 1 2 ⟨0x40000040, 0x100000040, 64⟩ ⟨0x40000000, 0x100000000, 128⟩
    (by decide) (by decide) (by decide)).cpu
  exact absurd hdis (by decide)

end Betrieb

end Caprock.Dma
