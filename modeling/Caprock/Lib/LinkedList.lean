import Mathlib.Data.List.Basic
import Mathlib.Data.List.Nodup

/-! # Intrusive doubly linked lists

Two link fields `next` and `prev` over an arbitrary index type.  `Seg next prev p l n`
says that the cells of `l` are linked in this order, between a cell `p` before and a
cell `n` behind; `DList` is a complete list without repetition.  The rules say what the
usual pointer updates do to the list: put a cell in front or at the end, take one out,
put another cell in its place.
-/

namespace LinkedList

variable {ι : Type*}

/-- The cells of `l` are linked in order, between `p` and `n`. -/
def Seg (next prev : ι → Option ι) : Option ι → List ι → Option ι → Prop
  | _, [], _ => True
  | p, a :: l, n => prev a = p ∧ next a = l.head?.or n ∧ Seg next prev (some a) l n

/-- A complete doubly linked list. -/
structure DList (next prev : ι → Option ι) (l : List ι) : Prop where
  seg : Seg next prev none l none
  nodup : l.Nodup

/-- Follow `next` from a cell on; at most `n` cells. -/
def walk (next : ι → Option ι) : Nat → Option ι → List ι
  | _, none => []
  | 0, some _ => []
  | n + 1, some a => a :: walk next n (next a)

section

variable {next prev next' prev' : ι → Option ι} {p n : Option ι} {l : List ι}

theorem Seg.congr (h : Seg next prev p l n) (hnext : ∀ x ∈ l, next' x = next x)
    (hprev : ∀ x ∈ l, prev' x = prev x) : Seg next' prev' p l n := by
  induction l generalizing p with
  | nil => trivial
  | cons a l ih =>
    obtain ⟨hp, hn, hl⟩ := h
    refine ⟨?_, ?_, ih hl (fun x hx => hnext x (List.mem_cons_of_mem _ hx))
      (fun x hx => hprev x (List.mem_cons_of_mem _ hx))⟩
    · rw [hprev a List.mem_cons_self, hp]
    · rw [hnext a List.mem_cons_self, hn]

theorem seg_append {l₁ l₂ : List ι} :
    Seg next prev p (l₁ ++ l₂) n ↔
      Seg next prev p l₁ (l₂.head?.or n) ∧ Seg next prev (l₁.getLast?.or p) l₂ n := by
  induction l₁ generalizing p with
  | nil => simp [Seg]
  | cons a l₁ ih =>
    have hlast : ((a :: l₁).getLast?).or p = l₁.getLast?.or (some a) := by
      cases l₁ with
      | nil => rfl
      | cons b l₁ =>
        rw [List.getLast?_cons_cons]
        obtain ⟨c, hc⟩ := Option.isSome_iff_exists.mp
          (List.getLast?_isSome.mpr (List.cons_ne_nil b l₁))
        simp [hc]
    have hhead : ((l₁ ++ l₂).head?).or n = l₁.head?.or (l₂.head?.or n) := by
      cases l₁ <;> simp
    rw [List.cons_append, Seg, Seg, ih, hlast, hhead]
    tauto

theorem Seg.walk_eq (h : Seg next prev p l none) {k : Nat} (hk : l.length ≤ k) :
    walk next k l.head? = l := by
  induction l generalizing k p with
  | nil => rw [List.head?_nil, walk]
  | cons a l ih =>
    obtain ⟨-, hnext, hl⟩ := h
    rw [List.length_cons] at hk
    obtain ⟨k, rfl⟩ : ∃ m, k = m + 1 := ⟨k - 1, by omega⟩
    have hnext' : next a = l.head? := by simpa using hnext
    rw [List.head?_cons, walk, hnext', ih hl (by omega)]

variable [DecidableEq ι]

theorem Seg.set_after {n' : Option ι} (h : Seg next prev p l n) (hnd : l.Nodup)
    (hnext : ∀ x ∈ l, next' x = if l.getLast? = some x then n' else next x)
    (hprev : ∀ x ∈ l, prev' x = prev x) : Seg next' prev' p l n' := by
  induction l generalizing p with
  | nil => trivial
  | cons a l ih =>
    obtain ⟨hp, hn, hl⟩ := h
    obtain ⟨hal, hnd⟩ := List.nodup_cons.mp hnd
    refine ⟨?_, ?_, ?_⟩
    · rw [hprev a List.mem_cons_self, hp]
    · rw [hnext a List.mem_cons_self]
      cases l with
      | nil => simp
      | cons b l =>
        have hne : ((a :: b :: l).getLast?) ≠ some a := by
          rw [List.getLast?_cons_cons]
          intro hlast
          exact hal (List.mem_of_getLast? hlast)
        rw [if_neg hne, hn]
        rfl
    · refine ih hl hnd (fun x hx => ?_) (fun x hx => hprev x (List.mem_cons_of_mem _ hx))
      rw [hnext x (List.mem_cons_of_mem _ hx)]
      cases l with
      | nil => cases hx
      | cons b l => rw [List.getLast?_cons_cons]

theorem Seg.set_before {p' : Option ι} (h : Seg next prev p l n) (hnd : l.Nodup)
    (hnext : ∀ x ∈ l, next' x = next x)
    (hprev : ∀ x ∈ l, prev' x = if l.head? = some x then p' else prev x) :
    Seg next' prev' p' l n := by
  cases l with
  | nil => trivial
  | cons a l =>
    obtain ⟨hp, hn, hl⟩ := h
    obtain ⟨hal, -⟩ := List.nodup_cons.mp hnd
    refine ⟨?_, ?_, hl.congr (fun x hx => hnext x (List.mem_cons_of_mem _ hx)) fun x hx => ?_⟩
    · rw [hprev a List.mem_cons_self]
      simp
    · rw [hnext a List.mem_cons_self, hn]
    · rw [hprev x (List.mem_cons_of_mem _ hx), List.head?_cons, if_neg]
      intro hax
      exact hal (Option.some.inj hax ▸ hx)

end

namespace DList

variable {next prev next' prev' : ι → Option ι} {l : List ι}

theorem congr (h : DList next prev l) (hnext : ∀ x ∈ l, next' x = next x)
    (hprev : ∀ x ∈ l, prev' x = prev x) : DList next' prev' l :=
  ⟨h.seg.congr hnext hprev, h.nodup⟩

theorem nil : DList next prev [] := ⟨trivial, List.nodup_nil⟩

theorem links {l₁ l₂ : List ι} {a : ι} (h : DList next prev (l₁ ++ a :: l₂)) :
    prev a = l₁.getLast? ∧ next a = l₂.head? := by
  obtain ⟨-, hp, hn, -⟩ := seg_append.mp h.seg
  exact ⟨by simpa using hp, by simpa using hn⟩

theorem links_unique (h : DList next prev l) (h' : DList next' prev' l) {a : ι} (ha : a ∈ l) :
    next' a = next a ∧ prev' a = prev a := by
  obtain ⟨l₁, l₂, rfl⟩ := List.append_of_mem ha
  exact ⟨h'.links.2.trans h.links.2.symm, h'.links.1.trans h.links.1.symm⟩

theorem prev_head (h : DList next prev l) {a : ι} (ha : l.head? = some a) : prev a = none := by
  cases l with
  | nil => cases ha
  | cons b l =>
    cases ha
    exact h.seg.1

theorem of_next {a b : ι} (h : DList next prev l) (ha : a ∈ l) (hab : next a = some b) :
    b ∈ l ∧ prev b = some a := by
  obtain ⟨l₁, l₂, rfl⟩ := List.append_of_mem ha
  rw [h.links.2] at hab
  cases l₂ with
  | nil => cases hab
  | cons c l₂ =>
    cases hab
    refine ⟨by simp, ?_⟩
    obtain ⟨-, -, -, hp, -⟩ := seg_append.mp h.seg
    exact hp

theorem of_prev {a b : ι} (h : DList next prev l) (hb : b ∈ l) (hab : prev b = some a) :
    a ∈ l ∧ next a = some b := by
  obtain ⟨l₁, l₂, rfl⟩ := List.append_of_mem hb
  rw [h.links.1] at hab
  obtain ⟨l₀, rfl⟩ := List.getLast?_eq_some_iff.mp hab
  have h' : DList next prev (l₀ ++ a :: (b :: l₂)) := by simpa using h
  exact ⟨by simp, by simpa using h'.links.2⟩

variable [DecidableEq ι]

theorem push_front {a : ι} (h : DList next prev l) (ha : a ∉ l) (hna : next' a = l.head?)
    (hpa : prev' a = none) (hnext : ∀ x ∈ l, next' x = next x)
    (hprev : ∀ x ∈ l, prev' x = if l.head? = some x then some a else prev x) :
    DList next' prev' (a :: l) :=
  ⟨⟨hpa, by simpa using hna, h.seg.set_before h.nodup hnext hprev⟩,
    List.nodup_cons.mpr ⟨ha, h.nodup⟩⟩

theorem push_back {a : ι} (h : DList next prev l) (ha : a ∉ l) (hna : next' a = none)
    (hpa : prev' a = l.getLast?)
    (hnext : ∀ x ∈ l, next' x = if l.getLast? = some x then some a else next x)
    (hprev : ∀ x ∈ l, prev' x = prev x) : DList next' prev' (l ++ [a]) where
  seg := by
    rw [seg_append]
    refine ⟨?_, by simpa using hpa, by simpa using hna, trivial⟩
    simpa using h.seg.set_after h.nodup hnext hprev
  nodup := by
    rw [List.nodup_append]
    refine ⟨h.nodup, List.nodup_singleton a, ?_⟩
    intro x hx y hy hxy
    rw [List.mem_singleton] at hy
    exact ha (hy ▸ hxy ▸ hx)

theorem segs_around {l₁ l₂ : List ι} {a : ι} {n p : Option ι}
    (h : DList next prev (l₁ ++ a :: l₂))
    (hnext : ∀ x ∈ l₁ ++ a :: l₂, x ≠ a → next' x = if prev a = some x then n else next x)
    (hprev : ∀ x ∈ l₁ ++ a :: l₂, x ≠ a → prev' x = if next a = some x then p else prev x) :
    Seg next' prev' none l₁ n ∧ Seg next' prev' p l₂ none := by
  obtain ⟨hpa, hna⟩ := h.links
  obtain ⟨hseg₁, -, -, hseg₂⟩ := seg_append.mp h.seg
  obtain ⟨hnd₁, hnd₂, hdisj⟩ := List.nodup_append.mp h.nodup
  obtain ⟨ha₂, hnd₂⟩ := List.nodup_cons.mp hnd₂
  have hne₁ : ∀ x ∈ l₁, x ≠ a := fun x hx => hdisj x hx a List.mem_cons_self
  have hne₂ : ∀ x ∈ l₂, x ≠ a := by
    rintro x hx rfl
    exact ha₂ hx
  have hin₁ : ∀ x ∈ l₁, x ∈ l₁ ++ a :: l₂ := fun x hx => List.mem_append_left _ hx
  have hin₂ : ∀ x ∈ l₂, x ∈ l₁ ++ a :: l₂ := fun x hx =>
    List.mem_append_right _ (List.mem_cons_of_mem _ hx)
  constructor
  · refine hseg₁.set_after hnd₁ (fun x hx => ?_) (fun x hx => ?_)
    · rw [hnext x (hin₁ x hx) (hne₁ x hx), hpa]
    · rw [hprev x (hin₁ x hx) (hne₁ x hx), hna, if_neg]
      intro hhead
      exact hdisj x hx x (List.mem_cons_of_mem _ (List.mem_of_head? hhead)) rfl
  · refine hseg₂.set_before hnd₂ (fun x hx => ?_) (fun x hx => ?_)
    · rw [hnext x (hin₂ x hx) (hne₂ x hx), hpa, if_neg]
      intro hlast
      exact hdisj x (List.mem_of_getLast? hlast) x (List.mem_cons_of_mem _ hx) rfl
    · rw [hprev x (hin₂ x hx) (hne₂ x hx), hna]

theorem exists_around {a : ι} (h : DList next prev l) (ha : a ∈ l) :
    ∃ l₁ l₂, l = l₁ ++ a :: l₂ ∧ l.erase a = l₁ ++ l₂ ∧ prev a = l₁.getLast? ∧
      next a = l₂.head? := by
  obtain ⟨l₁, l₂, rfl⟩ := List.append_of_mem ha
  have ha₁ : a ∉ l₁ := fun hin => (List.nodup_append.mp h.nodup).2.2 a hin a List.mem_cons_self rfl
  refine ⟨l₁, l₂, rfl, ?_, h.links⟩
  rw [List.erase_append_right _ ha₁, List.erase_cons_head]

theorem head?_erase {a : ι} (h : DList next prev l) (ha : a ∈ l) :
    (l.erase a).head? = if prev a = none then next a else l.head? := by
  obtain ⟨l₁, l₂, rfl, herase, hpa, hna⟩ := h.exists_around ha
  rw [herase, hpa, hna]
  cases l₁ with
  | nil | cons b l₁ => simp

theorem getLast?_erase {a : ι} (h : DList next prev l) (ha : a ∈ l) :
    (l.erase a).getLast? = if next a = none then prev a else l.getLast? := by
  obtain ⟨l₁, l₂, rfl, herase, hpa, hna⟩ := h.exists_around ha
  rw [herase, hpa, hna]
  cases l₂ with
  | nil | cons b l₂ => simp

theorem unlink {a : ι} (h : DList next prev l) (ha : a ∈ l)
    (hnext : ∀ x ∈ l, x ≠ a → next' x = if prev a = some x then next a else next x)
    (hprev : ∀ x ∈ l, x ≠ a → prev' x = if next a = some x then prev a else prev x) :
    DList next' prev' (l.erase a) := by
  obtain ⟨l₁, l₂, rfl, herase, hpa, hna⟩ := h.exists_around ha
  obtain ⟨hseg₁, hseg₂⟩ := h.segs_around hnext hprev
  refine ⟨?_, h.nodup.erase a⟩
  rw [herase, seg_append]
  rw [hna] at hseg₁
  rw [hpa] at hseg₂
  exact ⟨by simpa using hseg₁, by simpa using hseg₂⟩

/-- Put `b` in the place of `a`. -/
theorem replace {a b : ι} (h : DList next prev l) (ha : a ∈ l) (hb : b ∉ l)
    (hnb : next' b = next a) (hpb : prev' b = prev a)
    (hnext : ∀ x ∈ l, x ≠ a → next' x = if prev a = some x then some b else next x)
    (hprev : ∀ x ∈ l, x ≠ a → prev' x = if next a = some x then some b else prev x) :
    DList next' prev' (l.map fun x => if x = a then b else x) := by
  have hinj : ∀ x ∈ l, ∀ y ∈ l, (if x = a then b else x) = (if y = a then b else y) → x = y := by
    intro x hx y hy heq
    split at heq <;> split at heq
    · next hxa hya => rw [hxa, hya]
    · exact absurd (heq ▸ hy) hb
    · exact absurd (heq ▸ hx) hb
    · exact heq
  refine ⟨?_, h.nodup.map_on hinj⟩
  obtain ⟨l₁, l₂, rfl, -, hpa, hna⟩ := h.exists_around ha
  obtain ⟨hseg₁, hseg₂⟩ := h.segs_around hnext hprev
  obtain ⟨-, hnd₂, hdisj⟩ := List.nodup_append.mp h.nodup
  have hid : ∀ m : List ι, a ∉ m → m.map (fun x => if x = a then b else x) = m := by
    intro m hm
    refine (List.map_congr_left fun x hx => ?_).trans (List.map_id m)
    rw [if_neg (by rintro rfl; exact hm hx), id]
  have ha₁ : a ∉ l₁ := fun hin => hdisj a hin a List.mem_cons_self rfl
  rw [List.map_append, List.map_cons, hid l₁ ha₁, hid l₂ (List.nodup_cons.mp hnd₂).1, if_pos rfl,
    seg_append]
  refine ⟨by simpa using hseg₁, ?_, ?_, hseg₂⟩
  · rw [hpb, hpa]
    simp
  · rw [hnb, hna]
    simp

end DList

end LinkedList
