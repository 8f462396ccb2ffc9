import Caprock.Dma.Pool

/-! # Alignment on both axes

`alloc` rounds the offset in the pool, and adds it to two bases.  The piece always lies in the
pool.  It is aligned for the program and for the device exactly if both bases are multiples of
the alignment.
-/

namespace Caprock.Dma

open Word

namespace DmaPool

/-- A call that moves the pointer of a pool. -/
inductive Aufruf where
  | alloc (len align : Nat)
  | release (m : Nat)

def rufe (p : DmaPool) : Aufruf → DmaPool
  | .alloc len align => (p.alloc len align).2
  | .release m => (p.release m).2

def nach (p : DmaPool) (rufe : List Aufruf) : DmaPool := rufe.foldl DmaPool.rufe p

/-- Neither end of the pool wraps, and the pointer is not behind it. -/
structure Gueltig (p : DmaPool) : Prop where
  cpu_lt : p.cpuBase + p.len < 2 ^ 64
  dev_lt : p.devBase + p.len < 2 ^ 64
  next_le : p.next ≤ p.len

structure Gleich (p q : DmaPool) : Prop where
  cpuBase : q.cpuBase = p.cpuBase
  devBase : q.devBase = p.devBase
  len : q.len = p.len

theorem Gleich.refl (p : DmaPool) : p.Gleich p := ⟨rfl, rfl, rfl⟩

theorem new_eq_ok {cpuBase devBase len : Nat} {p : DmaPool}
    (h : DmaPool.new cpuBase devBase len = .ok p) :
    p = ⟨cpuBase, devBase, len, 0, 0⟩ ∧ cpuBase + len < 2 ^ 64 ∧ devBase + len < 2 ^ 64 := by
  unfold DmaPool.new at h
  split at h
  · cases h
  · split at h
    · cases h
    · split at h
      · cases h
      · split at h
        · cases h
        · next hfit =>
          simp only [checkedAdd, Option.isNone_iff_eq_none, ite_eq_right_iff, reduceCtorEq,
            imp_false, not_or, Decidable.not_not] at hfit
          cases h
          exact ⟨rfl, hfit⟩

theorem new_gueltig {cpuBase devBase len : Nat} {p : DmaPool}
    (h : DmaPool.new cpuBase devBase len = .ok p) : p.Gueltig := by
  obtain ⟨rfl, hcpu, hdev⟩ := new_eq_ok h
  exact ⟨hcpu, hdev, Nat.zero_le _⟩

theorem rufe_gueltig {p : DmaPool} (h : p.Gueltig) (a : Aufruf) :
    (p.rufe a).Gueltig ∧ p.Gleich (p.rufe a) := by
  cases a with
  | alloc len align =>
    simp only [rufe]
    rcases Betrieb.alloc_cases p len align with hnone | ⟨off, k, -, hend, -, hsome⟩
    · rw [hnone]
      exact ⟨h, Gleich.refl p⟩
    · rw [hsome]
      exact ⟨⟨h.cpu_lt, h.dev_lt, hend⟩, ⟨rfl, rfl, rfl⟩⟩
  | release m =>
    simp only [rufe, release]
    split
    · exact ⟨h, Gleich.refl p⟩
    · rename_i hle
      exact ⟨⟨h.cpu_lt, h.dev_lt, (Nat.not_lt.mp hle).trans h.next_le⟩, ⟨rfl, rfl, rfl⟩⟩

theorem nach_gueltig {p : DmaPool} (h : p.Gueltig) (as : List Aufruf) :
    (p.nach as).Gueltig ∧ p.Gleich (p.nach as) := by
  induction as generalizing p with
  | nil => exact ⟨h, Gleich.refl p⟩
  | cons a as ih =>
    obtain ⟨hnext, hsame⟩ := rufe_gueltig h a
    obtain ⟨hall, hrest⟩ := ih hnext
    exact ⟨hall, ⟨hrest.cpuBase.trans hsame.cpuBase, hrest.devBase.trans hsame.devBase,
      hrest.len.trans hsame.len⟩⟩

def aufgerundet (next align : Nat) : Nat := (next + (align - 1)) / align * align

/-- The request is well formed and fits behind the pointer. -/
structure Passt (p : DmaPool) (len align : Nat) : Prop where
  len_pos : 0 < len
  align_pow : isPowerOfTwo align = true
  ende_le : aufgerundet p.next align + len ≤ p.len

theorem aufgerundet_of_overflow {next k : Nat} (hk : k ≤ 63)
    (h : 2 ^ 64 ≤ next + (2 ^ k - 1)) : 2 ^ 64 ≤ aufgerundet next (2 ^ k) := by
  have hpow : 2 ^ 64 = 2 ^ (64 - k) * 2 ^ k := by
    rw [← Nat.pow_add]
    congr 1
    omega
  unfold aufgerundet
  calc 2 ^ 64 = 2 ^ (64 - k) * 2 ^ k := hpow
    _ ≤ (next + (2 ^ k - 1)) / 2 ^ k * 2 ^ k := by
        apply Nat.mul_le_mul_right
        rw [Nat.le_div_iff_mul_le (Nat.two_pow_pos k), ← hpow]
        exact h

theorem alloc_eq {p : DmaPool} (h : p.Gueltig) {align : Nat} (len : Nat)
    (halign : align < 2 ^ 64) :
    (p.Passt len align → (p.alloc len align).1 =
        some ⟨p.cpuBase + aufgerundet p.next align, p.devBase + aufgerundet p.next align, len⟩) ∧
      (¬ p.Passt len align → (p.alloc len align).1 = none) := by
  have hlt := h.cpu_lt
  by_cases hform : len = 0 ∨ align = 0 ∨ isPowerOfTwo align = false
  · refine ⟨fun hfit => ?_, fun _ => ?_⟩
    · rcases hform with hlen | hzero | hpow
      · exact absurd hlen hfit.len_pos.ne'
      · rw [hzero] at hfit
        exact absurd hfit.align_pow (by decide)
      · rw [hfit.align_pow] at hpow
        cases hpow
    · rw [alloc, if_pos hform]
  · simp only [not_or, Bool.not_eq_false] at hform
    obtain ⟨hlen, hzero, hpow⟩ := hform
    obtain ⟨k, rfl⟩ := isPowerOfTwo_iff.mp hpow
    have hk : k ≤ 63 := by
      have hlog := (Nat.pow_lt_pow_iff_right (by decide)).mp halign
      omega
    have hargs : ¬ (len = 0 ∨ 2 ^ k = 0 ∨ isPowerOfTwo (2 ^ k) = false) := by
      simp [hlen, hpow]
    unfold alloc
    rw [if_neg hargs]
    by_cases hround : p.next + (2 ^ k - 1) < 2 ^ 64
    · have hoff : alignUp p.next (2 ^ k) = aufgerundet p.next (2 ^ k) := alignUp_eq hk hround
      rw [checkedAdd_eq hround, hoff]
      dsimp only
      refine ⟨fun hfit => ?_, fun hno => ?_⟩
      · have hend := hfit.ende_le
        rw [checkedAdd_eq (by omega)]
        dsimp only
        rw [if_neg (by omega)]
      · have hend : p.len < aufgerundet p.next (2 ^ k) + len := by
          by_contra hle
          exact hno ⟨Nat.pos_of_ne_zero hlen, hpow, Nat.not_lt.mp hle⟩
        cases hsum : checkedAdd (aufgerundet p.next (2 ^ k)) len with
        | none => rfl
        | some ende =>
          obtain ⟨-, rfl⟩ := checkedAdd_eq_some.mp hsum
          dsimp only
          rw [if_pos hend]
    · have hbig := aufgerundet_of_overflow hk (Nat.not_lt.mp hround)
      have hnone : checkedAdd p.next (2 ^ k - 1) = none := if_neg hround
      rw [hnone]
      refine ⟨fun hfit => ?_, fun _ => rfl⟩
      have hend := hfit.ende_le
      omega

theorem dvd_aufgerundet (next align : Nat) : align ∣ aufgerundet next align :=
  Nat.dvd_mul_left _ _

def Ausgerichtet (p : DmaPool) (len align : Nat) : Prop :=
  ∀ b, (p.alloc len align).1 = some b →
    align ∣ b.cpu ∧ align ∣ b.dev ∧ b.len = len ∧
      p.devBase ≤ b.dev ∧ b.dev + b.len ≤ p.devBase + p.len ∧ p.devBase + p.len < 2 ^ 64

/-- In every pool that can be reached, a request meets its alignment on both axes exactly if it
does not fit or both bases are multiples of the alignment. -/
theorem alloc_ausgerichtet_iff {cpuBase devBase poolLen : Nat} {p : DmaPool}
    (hnew : DmaPool.new cpuBase devBase poolLen = .ok p) (as : List Aufruf) (len : Nat)
    {align : Nat} (halign : align < 2 ^ 64) :
    (p.nach as).Ausgerichtet len align ↔
      ((p.nach as).Passt len align → align ∣ cpuBase ∧ align ∣ devBase) := by
  obtain ⟨hvalid, hsame⟩ := nach_gueltig (new_gueltig hnew) as
  obtain ⟨rfl, -, -⟩ := new_eq_ok hnew
  obtain ⟨hyes, hno⟩ := alloc_eq hvalid len halign
  have hcpu : ((DmaPool.mk cpuBase devBase poolLen 0 0).nach as).cpuBase = cpuBase :=
    hsame.cpuBase
  have hdev : ((DmaPool.mk cpuBase devBase poolLen 0 0).nach as).devBase = devBase :=
    hsame.devBase
  have hoff := dvd_aufgerundet ((DmaPool.mk cpuBase devBase poolLen 0 0).nach as).next align
  constructor
  · intro h hfit
    obtain ⟨hc, hd, -⟩ := h _ (hyes hfit)
    dsimp only at hc hd
    rw [hcpu] at hc
    rw [hdev] at hd
    exact ⟨(Nat.dvd_add_left hoff).mp hc, (Nat.dvd_add_left hoff).mp hd⟩
  · intro h b hb
    by_cases hfit : ((DmaPool.mk cpuBase devBase poolLen 0 0).nach as).Passt len align
    · rw [hyes hfit] at hb
      obtain rfl := Option.some.inj hb
      obtain ⟨hc, hd⟩ := h hfit
      have hend := hfit.ende_le
      rw [← hcpu] at hc
      rw [← hdev] at hd
      refine ⟨Nat.dvd_add hc hoff, Nat.dvd_add hd hoff, rfl, Nat.le_add_right _ _, ?_,
        hvalid.dev_lt⟩
      dsimp only
      omega
    · rw [hno hfit] at hb
      cases hb

/-- Page-aligned bases, and a page after a piece of one byte. -/
theorem alloc_ausgerichtet_iff_page :
    ((DmaPool.mk 0x40001000 0x100001000 0x20000 0 0).nach [.alloc 1 1]).Ausgerichtet 16 4096 :=
  have hnew : DmaPool.new 0x40001000 0x100001000 0x20000 =
      .ok ⟨0x40001000, 0x100001000, 0x20000, 0, 0⟩ := rfl
  (alloc_ausgerichtet_iff hnew [.alloc 1 1] 16 (by decide)).mpr fun _ => ⟨by decide, by decide⟩

/-- A piece at an alignment of 64 KiB in a pool whose bases are multiples of a page only. -/
theorem alloc_not_ausgerichtet :
    DmaPool.new 0x40001000 0x100001000 0x20000 = .ok ⟨0x40001000, 0x100001000, 0x20000, 0, 0⟩ ∧
      ((DmaPool.mk 0x40001000 0x100001000 0x20000 0 0).alloc 16 0x10000).1 =
        some ⟨0x40001000, 0x100001000, 16⟩ ∧
      ¬ 0x10000 ∣ 0x40001000 ∧ ¬ 0x10000 ∣ 0x100001000 ∧
      ¬ (DmaPool.mk 0x40001000 0x100001000 0x20000 0 0).Ausgerichtet 16 0x10000 := by
  refine ⟨rfl, by decide, by decide, by decide, fun h => ?_⟩
  exact absurd (h ⟨0x40001000, 0x100001000, 16⟩ (by decide)).1 (by decide)

end DmaPool

end Caprock.Dma
