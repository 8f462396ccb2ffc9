import Mathlib.Algebra.GroupWithZero.Nat
import Mathlib.Data.List.Basic

/-! # Byte buffers

Reading and writing a range of a buffer, and little-endian words.  A range outside the
buffer is `none`: an index out of range is a panic.

A format that is written front to back is read back with two rules: `writeSlice_append`
moves the border between what is written and what is still zero, `slice_append` reads a
field between what stands before and behind it.
-/

namespace Caprock.Bytes

/-- `b[off..off + n]`. -/
def slice (b : List UInt8) (off n : Nat) : Option (List UInt8) :=
  if off + n ≤ b.length then some ((b.drop off).take n) else none

/-- `b[off..off + bs.len()].copy_from_slice(bs)`. -/
def writeSlice (b : List UInt8) (off : Nat) (bs : List UInt8) : Option (List UInt8) :=
  if off + bs.length ≤ b.length then some (b.take off ++ bs ++ b.drop (off + bs.length)) else none

/-- The `w` lowest bytes of `n`, least significant first. -/
def leBytes : Nat → Nat → List UInt8
  | 0, _ => []
  | w + 1, n => UInt8.ofNat n :: leBytes w (n / 256)

def leNat : List UInt8 → Nat
  | [] => 0
  | b :: bs => b.toNat + 256 * leNat bs

@[simp] theorem leBytes_length (w n : Nat) : (leBytes w n).length = w := by
  induction w generalizing n with
  | zero => rfl
  | succ w ih => simp [leBytes, ih]

variable {w off : Nat} {x : List UInt8}

theorem leNat_leBytes {n : Nat} (h : n < 256 ^ w) : leNat (leBytes w n) = n := by
  induction w generalizing n with
  | zero =>
    simp only [Nat.pow_zero, Nat.lt_one_iff] at h
    simp [leBytes, leNat, h]
  | succ w ih =>
    have hdiv : n / 256 < 256 ^ w := by
      rw [Nat.pow_succ] at h
      exact (Nat.div_lt_iff_lt_mul (by decide)).mpr h
    have hbyte : (UInt8.ofNat n).toNat = n % 256 := by simp
    rw [leBytes, leNat, ih hdiv, hbyte]
    omega

theorem leNat_lt (bs : List UInt8) : leNat bs < 256 ^ bs.length := by
  induction bs with
  | nil => simp [leNat]
  | cons b bs ih =>
    have hb : b.toNat < 256 := b.toNat_lt
    rw [leNat, List.length_cons, Nat.pow_succ]
    omega

theorem leBytes_leNat (bs : List UInt8) : leBytes bs.length (leNat bs) = bs := by
  induction bs with
  | nil => rfl
  | cons b bs ih =>
    have hb : b.toNat < 256 := b.toNat_lt
    have hdiv : (b.toNat + 256 * leNat bs) / 256 = leNat bs := by omega
    have hbyte : UInt8.ofNat (b.toNat + 256 * leNat bs) = b := by
      apply UInt8.toNat_inj.mp
      simp only [UInt8.toNat_ofNat']
      omega
    rw [List.length_cons, leNat, leBytes, hdiv, hbyte, ih]

theorem slice_length {b : List UInt8} {n : Nat} (h : slice b off n = some x) : x.length = n := by
  rw [slice] at h
  by_cases hle : off + n ≤ b.length
  · rw [if_pos hle] at h
    cases h
    rw [List.length_take, List.length_drop]
    omega
  · rw [if_neg hle] at h
    cases h

theorem slice_le {b : List UInt8} {n : Nat} (h : slice b off n = some x) : off + n ≤ b.length := by
  by_contra hle
  rw [slice, if_neg hle] at h
  cases h

theorem exists_slice (b : List UInt8) (off n : Nat) (h : off + n ≤ b.length) :
    ∃ x, slice b off n = some x := ⟨_, if_pos h⟩

theorem slice_zero_eq_take {b : List UInt8} {n : Nat} (h : slice b 0 n = some x) :
    b.take n = x := by
  have hle := slice_le h
  rw [slice, if_pos hle] at h
  exact Option.some.inj h

/-- A range is read as its two parts are. -/
theorem slice_split {b y : List UInt8} {m k : Nat} (hm : x.length = m) (hk : y.length = k) :
    slice b off (m + k) = some (x ++ y) ↔
      slice b off m = some x ∧ slice b (off + m) k = some y := by
  by_cases hle : off + (m + k) ≤ b.length
  · have hm' : off + m ≤ b.length := by omega
    have hk' : off + m + k ≤ b.length := by omega
    have hlen : ((b.drop off).take m).length = x.length := by
      rw [List.length_take, List.length_drop]
      omega
    simp only [slice, if_pos hle, if_pos hm', if_pos hk', Option.some.injEq]
    rw [List.take_add, List.drop_drop]
    constructor
    · intro h
      exact List.append_inj h hlen
    · rintro ⟨hx, hy⟩
      rw [hx, hy]
  · have hk' : ¬ off + m + k ≤ b.length := by omega
    simp [slice, if_neg hle, if_neg hk']

theorem slice_all {b : List UInt8} {n : Nat} (hn : x.length = n) :
    b.length = n ∧ slice b 0 n = some x ↔ b = x := by
  constructor
  · rintro ⟨hlen, h⟩
    rw [slice, if_pos (by omega), List.drop_zero, List.take_of_length_le (by omega)] at h
    exact Option.some.inj h
  · rintro rfl
    refine ⟨hn, ?_⟩
    rw [slice, if_pos (by omega), List.drop_zero, List.take_of_length_le (by omega)]

theorem exists_map_slice {β : Type} (f : List UInt8 → β) (b : List UInt8) (off n : Nat)
    (h : off + n ≤ b.length) : ∃ v, (slice b off n).map f = some v :=
  ⟨_, by rw [slice, if_pos h, Option.map_some]⟩

/-- A word read through `f` is the one whose bytes stand there. -/
theorem slice_map_word {β : Type} {f : Nat → β} {g : β → Nat} {b : List UInt8} {v : β}
    (hgf : ∀ n < 256 ^ w, g (f n) = n) (hfg : f (g v) = v) (hv : g v < 256 ^ w) :
    (slice b off w).map (fun x => f (leNat x)) = some v ↔
      slice b off w = some (leBytes w (g v)) := by
  constructor
  · intro h
    obtain ⟨x, hx, rfl⟩ := Option.map_eq_some_iff.mp h
    have hlt := leNat_lt x
    have hbytes := leBytes_leNat x
    rw [slice_length hx] at hlt hbytes
    rw [hx, hgf _ hlt, hbytes]
  · intro h
    rw [h, Option.map_some, leNat_leBytes hv, hfg]

theorem slice_map_uint32 {b : List UInt8} {v : UInt32} :
    (slice b off 4).map (fun x => UInt32.ofNat (leNat x)) = some v ↔
      slice b off 4 = some (leBytes 4 v.toNat) :=
  slice_map_word (fun _ => UInt32.toNat_ofNat_of_lt') UInt32.ofNat_toNat v.toNat_lt

theorem slice_map_uint64 {b : List UInt8} {v : UInt64} :
    (slice b off 8).map (fun x => UInt64.ofNat (leNat x)) = some v ↔
      slice b off 8 = some (leBytes 8 v.toNat) :=
  slice_map_word (fun _ => UInt64.toNat_ofNat_of_lt') UInt64.ofNat_toNat v.toNat_lt

theorem slice_append {b p r : List UInt8} {n : Nat} (hb : b = p ++ (x ++ r))
    (hoff : off = p.length) (hn : n = x.length) : slice b off n = some x := by
  subst hb hoff hn
  rw [slice, if_pos (by simp), List.drop_left, List.take_left]

theorem writeSlice_append {p bs r : List UInt8} {n k : Nat} (hoff : off = p.length)
    (hn : n = bs.length + k) :
    writeSlice (p ++ (List.replicate n 0 ++ r)) off bs =
      some ((p ++ bs) ++ (List.replicate k 0 ++ r)) := by
  subst hoff hn
  have hdrop : (p ++ (List.replicate (bs.length + k) 0 ++ r)).drop (p.length + bs.length) =
      List.replicate k 0 ++ r := by
    rw [List.replicate_add, ← List.drop_drop, List.drop_left, List.append_assoc]
    apply List.drop_left'
    simp
  have hle : p.length + bs.length ≤ (p ++ (List.replicate (bs.length + k) 0 ++ r)).length := by
    simp only [List.length_append, List.length_replicate]
    omega
  rw [writeSlice, if_pos hle, List.take_left, hdrop]

theorem slice_flatten {l : List (List UInt8)} {k n : Nat} (hk : l[k]? = some x)
    (hoff : off = ((l.take k).map List.length).sum) (hn : n = x.length) :
    slice l.flatten off n = some x := by
  obtain ⟨hlt, rfl⟩ := List.getElem?_eq_some_iff.mp hk
  have hsplit : l.flatten = (l.take k).flatten ++ (l[k] ++ (l.drop (k + 1)).flatten) := by
    rw [← List.flatten_cons, ← List.drop_eq_getElem_cons hlt, ← List.flatten_append,
      List.take_append_drop]
  apply slice_append hsplit _ hn
  rw [hoff, List.length_flatten]

/-- Records of one width: the sum of their lengths. -/
theorem sum_length_take {l : List (List UInt8)} {i : Nat} (hw : ∀ x ∈ l, x.length = w)
    (hi : i ≤ l.length) : ((l.take i).map List.length).sum = i * w := by
  induction l generalizing i with
  | nil =>
    obtain rfl : i = 0 := Nat.le_zero.mp hi
    simp
  | cons x l ih =>
    cases i with
    | zero => simp
    | succ i =>
      have hrec := ih (fun y hy => hw y (List.mem_cons_of_mem x hy)) (Nat.le_of_succ_le_succ hi)
      rw [List.take_succ_cons, List.map_cons, List.sum_cons, hrec, hw x List.mem_cons_self,
        Nat.add_mul, Nat.one_mul, Nat.add_comm]

/-- Bit `k` of a buffer, the lowest bit of a byte first. -/
def bit (b : List UInt8) (k : Nat) : Bool := (b.getD (k / 8) 0).toNat.testBit (k % 8)

def bits : List UInt8 → List Bool
  | [] => []
  | x :: b => (List.range 8).map x.toNat.testBit ++ bits b

theorem bits_append (b b' : List UInt8) : bits (b ++ b') = bits b ++ bits b' := by
  induction b with
  | nil => rfl
  | cons x b ih => simp [bits, ih]

@[simp] theorem bits_length (b : List UInt8) : (bits b).length = 8 * b.length := by
  induction b with
  | nil => rfl
  | cons x b ih =>
    simp [bits, ih]
    omega

theorem leNat_testBit (b : List UInt8) (k : Nat) : (leNat b).testBit k = bit b k := by
  induction b generalizing k with
  | nil => simp [leNat, bit]
  | cons x b ih =>
    have hx : x.toNat < 2 ^ 8 := x.toNat_lt
    rw [leNat, Nat.add_comm, show 256 = 2 ^ 8 from rfl, Nat.testBit_two_pow_mul_add _ hx]
    by_cases hk : k < 8
    · rw [if_pos hk]
      simp [bit, Nat.div_eq_of_lt hk, Nat.mod_eq_of_lt hk]
    · obtain ⟨j, rfl⟩ := Nat.exists_eq_add_of_le (Nat.le_of_not_lt hk)
      rw [if_neg hk, ih, Nat.add_sub_cancel_left]
      simp [bit, Nat.add_div_left, Nat.add_mod_left]

theorem bits_getElem? (b : List UInt8) (k : Nat) :
    (bits b)[k]? = if k < 8 * b.length then some (bit b k) else none := by
  induction b generalizing k with
  | nil => simp [bits]
  | cons x b ih =>
    by_cases hk : k < 8
    · have hlt : k < 8 * (x :: b).length := by
        rw [List.length_cons]
        omega
      rw [if_pos hlt, bits, List.getElem?_append_left (by simpa using hk)]
      simp [bit, Nat.div_eq_of_lt hk, Nat.mod_eq_of_lt hk, hk]
    · obtain ⟨j, rfl⟩ := Nat.exists_eq_add_of_le (Nat.le_of_not_lt hk)
      have hiff : 8 + j < 8 * (b.length + 1) ↔ j < 8 * b.length := by omega
      rw [bits, List.getElem?_append_right (by simp)]
      simp [ih, hiff, bit, Nat.add_div_left, Nat.add_mod_left]

theorem bit_eq_false {b : List UInt8} {k : Nat} (h : 8 * b.length ≤ k) : bit b k = false := by
  have hout : b[k / 8]? = none := by
    rw [List.getElem?_eq_none_iff]
    omega
  simp [bit, hout]

theorem ext_bit {b b' : List UInt8} (hlen : b.length = b'.length)
    (h : ∀ k < 8 * b.length, bit b k = bit b' k) : b = b' := by
  have hnat : leNat b = leNat b' := by
    apply Nat.eq_of_testBit_eq
    intro k
    rw [leNat_testBit, leNat_testBit]
    by_cases hk : k < 8 * b.length
    · exact h k hk
    · rw [bit_eq_false (Nat.le_of_not_lt hk), bit_eq_false (hlen ▸ Nat.le_of_not_lt hk)]
  rw [← leBytes_leNat b, ← leBytes_leNat b', hlen, hnat]

theorem bits_injective : Function.Injective bits := by
  intro b b' h
  have hlen : b.length = b'.length := by
    have h8 := congrArg List.length h
    rw [bits_length, bits_length] at h8
    omega
  apply ext_bit hlen
  intro k hk
  have hbit : (bits b)[k]? = (bits b')[k]? := by rw [h]
  rwa [bits_getElem?, bits_getElem?, if_pos hk, if_pos (hlen ▸ hk), Option.some.injEq] at hbit

theorem bit_append_left {b : List UInt8} (r : List UInt8) {k : Nat} (h : k < 8 * b.length) :
    bit (b ++ r) k = bit b k := by
  have hlt : k / 8 < b.length := by omega
  simp [bit, List.getElem?_append_left hlt]

theorem slice_congr {b : List UInt8} (b' : List UInt8) {n : Nat} (hlen : off + n ≤ b.length)
    (hlen' : off + n ≤ b'.length) (h : ∀ k, 8 * off ≤ k → k < 8 * (off + n) → bit b k = bit b' k) :
    slice b off n = slice b' off n := by
  have hbit : ∀ (c : List UInt8) (k : Nat), k < 8 * n →
      bit ((c.drop off).take n) k = bit c (8 * off + k) := by
    intro c k hk
    have hlt : k / 8 < n := by omega
    simp [bit, hlt, Nat.mul_add_div]
  rw [slice, slice, if_pos hlen, if_pos hlen', Option.some.injEq]
  apply ext_bit
  · rw [List.length_take, List.length_take, List.length_drop, List.length_drop]
    omega
  · intro k hk
    have hk' : k < 8 * n := by
      rw [List.length_take] at hk
      omega
    rw [hbit b k hk', hbit b' k hk']
    exact h _ (by omega) (by omega)

end Caprock.Bytes
