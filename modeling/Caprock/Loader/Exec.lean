import Caprock.Lib.Fnv

/-! # Requests to replace a program

A request for EXEC carries a token, which folds the program and its epoch.  For a fixed program no
two epochs have the same token, also where a fold of zero is replaced by one, so the token of an
earlier state is refused whatever else the request says.
-/

namespace Caprock.Loader

def byteVon (x k : UInt32) : UInt8 := ((x >>> k) &&& 0xff).toUInt8

def teardownTokenFuer (programId epoche : UInt32) : UInt64 :=
  let h := Fnv.feed 0xcbf29ce4842225c5
    [byteVon programId 0, byteVon programId 8, byteVon programId 16, byteVon programId 24,
      byteVon epoche 0, byteVon epoche 8, byteVon epoche 16, byteVon epoche 24]
  if h = 0 then 1 else h

inductive ExecAbweisung where
  | keinToken
  | alterStand
  | segmentZahl
  | schlechterEintrag
  deriving DecidableEq, Repr

def userVaTop : UInt64 := (1 : UInt64) <<< 47
def maxSegs : Nat := 64

def pruefeExecAntrag (programId epoche : UInt32) (token eintrag : UInt64) (nseg : Nat) :
    Except ExecAbweisung Unit :=
  if token = 0 then .error .keinToken
  else if token ≠ teardownTokenFuer programId epoche then .error .alterStand
  else if nseg = 0 ∨ maxSegs < nseg then .error .segmentZahl
  else if eintrag = 0 ∨ userVaTop ≤ eintrag then .error .schlechterEintrag
  else .ok ()

theorem byteVon_toNat (x : UInt32) {k : Nat} (hk : k < 32) :
    (byteVon x (UInt32.ofNat k)).toNat = x.toNat / 2 ^ k % 256 := by
  have hshift : (UInt32.ofNat k).toNat % 32 = k := by simp; omega
  have hmask : (0xff : UInt32).toNat = 2 ^ 8 - 1 := rfl
  rw [byteVon, UInt32.toNat_toUInt8, UInt32.toNat_and, UInt32.toNat_shiftRight, hshift, hmask,
    Nat.shiftRight_eq_div_pow, Nat.and_two_pow_sub_one_eq_mod]
  omega

theorem eq_of_bytes {x y : UInt32} (h₀ : byteVon x 0 = byteVon y 0) (h₁ : byteVon x 8 = byteVon y 8)
    (h₂ : byteVon x 16 = byteVon y 16) (h₃ : byteVon x 24 = byteVon y 24) : x = y := by
  have hbyte : ∀ k < 32, byteVon x (UInt32.ofNat k) = byteVon y (UInt32.ofNat k) →
      x.toNat / 2 ^ k % 256 = y.toNat / 2 ^ k % 256 := by
    intro k hk h
    rw [← byteVon_toNat x hk, h, byteVon_toNat y hk]
  have hx := x.toNat_lt
  have hy := y.toNat_lt
  have n₀ := hbyte 0 (by decide) h₀
  have n₁ := hbyte 8 (by decide) h₁
  have n₂ := hbyte 16 (by decide) h₂
  have n₃ := hbyte 24 (by decide) h₃
  apply UInt32.toNat_inj.mp
  omega

def programmStand (programId : UInt32) : UInt64 :=
  Fnv.feed 0xcbf29ce4842225c5
    [byteVon programId 0, byteVon programId 8, byteVon programId 16, byteVon programId 24]

theorem teardownTokenFuer_eq (programId epoche : UInt32) :
    teardownTokenFuer programId epoche =
      let h := Fnv.feed (programmStand programId)
        [byteVon epoche 0, byteVon epoche 8, byteVon epoche 16, byteVon epoche 24]
      if h = 0 then 1 else h := by
  rw [programmStand, ← Fnv.feed_append]
  rfl

theorem teardownTokenFuer_ne_zero (programId epoche : UInt32) :
    teardownTokenFuer programId epoche ≠ 0 := by
  rw [teardownTokenFuer]
  split
  · decide
  · assumption

theorem teardownTokenFuer_injective (programId : UInt32) :
    Function.Injective (teardownTokenFuer programId) := by
  intro e e' heq
  rw [teardownTokenFuer_eq, teardownTokenFuer_eq] at heq
  dsimp only at heq
  have hbytes : Fnv.feed (programmStand programId)
      [byteVon e 0, byteVon e 8, byteVon e 16, byteVon e 24] =
        Fnv.feed (programmStand programId)
          [byteVon e' 0, byteVon e' 8, byteVon e' 16, byteVon e' 24] := by
    split at heq
    next hzero =>
      split at heq
      next hzero' => exact hzero.trans hzero'.symm
      next => exact absurd heq.symm (Fnv.feed_four_ne_one hzero)
    next =>
      split at heq
      next hzero' => exact absurd heq (Fnv.feed_four_ne_one hzero')
      next => exact heq
  obtain ⟨h₀, h₁, h₂, h₃⟩ := Fnv.feed_four_injective hbytes
  exact eq_of_bytes h₀ h₁ h₂ h₃

/-- The token of one epoch is refused in every other. -/
theorem pruefeExecAntrag_alterStand (programId : UInt32) :
    (∀ e e' : UInt32, e ≠ e' → ∀ (eintrag : UInt64) (nseg : Nat),
      pruefeExecAntrag programId e' (teardownTokenFuer programId e) eintrag nseg =
        .error .alterStand) ∧
      Function.Injective (teardownTokenFuer programId) ∧
      ∀ e, teardownTokenFuer programId e ≠ 0 := by
  have hinj := teardownTokenFuer_injective programId
  refine ⟨fun e e' hne eintrag nseg => ?_, hinj, teardownTokenFuer_ne_zero programId⟩
  rw [pruefeExecAntrag, if_neg (teardownTokenFuer_ne_zero programId e)]
  exact if_pos fun heq => hne (hinj heq)

/-- The token of epoch 3 in epoch 4. -/
theorem pruefeExecAntrag_naechste_epoche :
    pruefeExecAntrag 7 4 (teardownTokenFuer 7 3) 0x400000 1 = .error .alterStand :=
  (pruefeExecAntrag_alterStand 7).1 3 4 (by decide) 0x400000 1

end Caprock.Loader
