import Caprock.Lib.Bytes

/-! # Byte memory and chains through it

Memory is a function from addresses to bytes.  A word takes eight bytes, least significant
first.  `Chain m head l` is a list threaded through memory: each of its cells holds the address
of the next one, and zero ends it.

A chain depends on the words of its cells only (`Chain.congr`); a cell is put in front by
storing the old head in it (`Chain.push`) and taken from the front by reading it
(`Chain.pop`).
-/

namespace Memory

open Caprock.Bytes

abbrev Mem := Nat → UInt8

/-- The word at address `a`. -/
def word (m : Mem) (a : Nat) : Nat := leNat ((List.range 8).map fun i => m (a + i))

/-- Store a word at address `a`. -/
def storeWord (m : Mem) (a v : Nat) : Mem := fun x =>
  if a ≤ x ∧ x < a + 8 then (leBytes 8 v).getD (x - a) 0 else m x

variable {m m' : Mem} {a head v : Nat} {l : List Nat}

theorem word_congr (h : ∀ x, a ≤ x → x < a + 8 → m' x = m x) : word m' a = word m a := by
  unfold word
  congr 1
  apply List.map_congr_left
  intro i hi
  have hlt := List.mem_range.mp hi
  exact h (a + i) (by omega) (by omega)

theorem storeWord_of_outside {x : Nat} (h : x < a ∨ a + 8 ≤ x) : storeWord m a v x = m x := by
  unfold storeWord
  rw [if_neg (by omega)]

theorem word_storeWord (m : Mem) (a : Nat) (hv : v < 2 ^ 64) : word (storeWord m a v) a = v := by
  have hbytes : ((List.range 8).map fun i => storeWord m a v (a + i)) = leBytes 8 v := by
    apply List.ext_getElem (by simp)
    intro i h₁ h₂
    rw [leBytes_length] at h₂
    rw [List.getElem_map, List.getElem_range, storeWord, if_pos (by omega),
      Nat.add_sub_cancel_left, List.getD_eq_getElem?_getD,
      List.getElem?_eq_getElem (by rw [leBytes_length]; exact h₂), Option.getD_some]
  rw [word, hbytes]
  exact leNat_leBytes hv

def load (m : Mem) (a n : Nat) : List UInt8 := (List.range n).map fun i => m (a + i)

/-- The bytes `bs` from address `a` on. -/
def store (m : Mem) (a : Nat) (bs : List UInt8) : Mem := fun x =>
  if a ≤ x ∧ x < a + bs.length then bs.getD (x - a) 0 else m x

@[simp] theorem load_length (m : Mem) (a n : Nat) : (load m a n).length = n := by simp [load]

theorem load_congr {n : Nat} (h : ∀ x, a ≤ x → x < a + n → m' x = m x) :
    load m' a n = load m a n := by
  apply List.map_congr_left
  intro i hi
  have hlt := List.mem_range.mp hi
  exact h (a + i) (Nat.le_add_right ..) (by omega)

theorem store_of_outside {bs : List UInt8} {x : Nat} (h : x < a ∨ a + bs.length ≤ x) :
    store m a bs x = m x := by
  unfold store
  rw [if_neg (by omega)]

theorem load_store_of_disjoint {bs : List UInt8} {b n : Nat}
    (h : b + n ≤ a ∨ a + bs.length ≤ b) : load (store m a bs) b n = load m b n := by
  apply load_congr
  intro x hlo hhi
  apply store_of_outside
  omega

/-- What is stored inside of a range is a part of it. -/
theorem load_store_inside (m : Mem) (a off : Nat) {bs : List UInt8} {n : Nat}
    (h : off + bs.length ≤ n) :
    load (store m (a + off) bs) a n =
      (load m a n).take off ++ bs ++ (load m a n).drop (off + bs.length) := by
  apply List.ext_getElem
  · simp only [load_length, List.length_append, List.length_take, List.length_drop]
    omega
  intro i hi hi'
  have hget : (load (store m (a + off) bs) a n)[i] = store m (a + off) bs (a + i) := by
    simp [load]
  rw [load_length] at hi
  rw [hget, store]
  by_cases hlow : i < off
  · rw [if_neg (by omega), List.getElem_append_left (by simp; omega),
      List.getElem_append_left (by simp; omega)]
    simp [load]
  · by_cases hin : i < off + bs.length
    · rw [if_pos (by omega), List.getElem_append_left (by simp; omega),
        List.getElem_append_right (by simp; omega)]
      have hlen : ((load m a n).take off).length = off := by simp; omega
      have hsub : a + i - (a + off) = i - off := by omega
      simp only [hlen, hsub]
      exact (List.getElem_eq_getD _).symm
    · rw [if_neg (by omega), List.getElem_append_right (by simp; omega)]
      simp [load]
      congr 1
      omega

theorem load_store_same (m : Mem) (a : Nat) (bs : List UInt8) :
    load (store m a bs) a bs.length = bs := by
  have hin := load_store_inside m a 0 (n := bs.length) (Nat.le_of_eq (Nat.zero_add _))
  rw [Nat.zero_add, List.drop_of_length_le (by simp)] at hin
  simpa using hin

/-- The cells of `l`, linked through memory from `head` on. -/
def Chain (m : Mem) : Nat → List Nat → Prop
  | head, [] => head = 0
  | head, a :: l => head = a ∧ a ≠ 0 ∧ Chain m (word m a) l

theorem Chain.congr (h : Chain m head l) (hm : ∀ a ∈ l, ∀ x, a ≤ x → x < a + 8 → m' x = m x) :
    Chain m' head l := by
  induction l generalizing head with
  | nil => exact h
  | cons a l ih =>
    obtain ⟨hhead, hne, hrest⟩ := h
    refine ⟨hhead, hne, ?_⟩
    rw [word_congr (hm a List.mem_cons_self)]
    exact ih hrest fun b hb => hm b (List.mem_cons_of_mem a hb)

theorem Chain.push (h : Chain m head l) (ha : a ≠ 0) (hhead : head < 2 ^ 64)
    (hl : ∀ b ∈ l, b + 8 ≤ a ∨ a + 8 ≤ b) : Chain (storeWord m a head) a (a :: l) := by
  refine ⟨rfl, ha, ?_⟩
  rw [word_storeWord m a hhead]
  apply h.congr
  intro b hb x hlo hhi
  obtain hsep | hsep := hl b hb
  · exact storeWord_of_outside (.inl (by omega))
  · exact storeWord_of_outside (.inr (by omega))

theorem Chain.pop (h : Chain m head l) (hne : head ≠ 0) :
    ∃ rest, l = head :: rest ∧ Chain m (word m head) rest := by
  cases l with
  | nil => exact absurd h hne
  | cons a l =>
    obtain ⟨rfl, -, hrest⟩ := h
    exact ⟨l, rfl, hrest⟩

theorem Chain.head_eq_zero_or_mem (h : Chain m head l) : head = 0 ∨ head ∈ l := by
  cases l with
  | nil => exact .inl h
  | cons a l =>
    right
    rw [h.1]
    exact List.mem_cons_self

end Memory
