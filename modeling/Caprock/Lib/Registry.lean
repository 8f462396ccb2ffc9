import Mathlib.Data.List.Nodup
import Mathlib.Data.Multiset.AddSub
import Mathlib.Logic.Function.Basic
import Caprock.Lib.Custody

/-! # Names with recycled numbers

The occupants of places are named by a number and a generation.  The entry of a number says
where its occupant is.  When the occupant ends, the generation moves on modulo `N`; the number
lies on one shelf after the other until it is given out again.  An occupant may leave its place
and arrive at another one; its entry follows on arrival.

`History` counts the occupants in the order of their births and follows each of them from place
to place without looking at a name.  `Sound` connects the two: as long as no number is given out
more than `N` times, a name leads exactly to the occupant it was made for.
-/

namespace Caprock

open Function

structure Name where
  number : Nat
  gen : Nat
  deriving DecidableEq, Repr

namespace Registry

structure Entry (Place : Type) where
  live : Bool
  gen : Nat
  place : Place

end Registry

/-- Entries, occupants, the shelves of numbers without occupant, and who is between two
places. -/
structure Registry (Place Shelf : Type) where
  entry : Nat → Option (Registry.Entry Place)
  occupant : Place → Option Name
  shelf : Shelf → Multiset Nat
  away : List Name

namespace Registry

variable {Place Shelf : Type}

/-- What happens to one occupant. -/
inductive Event (Place : Type) where
  | idle
  | born (p : Place) (nm : Name)
  | ended (p : Place)
  | left (p : Place)
  | arrived (p : Place) (k : Nat)

/-- Nobody on the way, apart from number `k` of them, is still listed at `p`. -/
def Clear (r : Registry Place Shelf) (p : Place) (k : Option Nat) : Prop :=
  ∀ j nm e, r.away[j]? = some nm → k ≠ some j → r.entry nm.number = some e → e.place ≠ p

/-- The name leads to `p`: the entry is live and fits, and so does the occupant's generation. -/
def Resolves (r : Registry Place Shelf) (nm : Name) (p : Place) : Prop :=
  r.entry nm.number = some ⟨true, nm.gen, p⟩ ∧ ∃ o, r.occupant p = some o ∧ o.gen = nm.gen

variable [DecidableEq Place] [DecidableEq Shelf]

def store (shelf : Shelf → Multiset Nat) (b : Option Shelf) (g : Nat) : Shelf → Multiset Nat :=
  match b with
  | none => shelf
  | some b => update shelf b (g ::ₘ shelf b)

/-- The events of a registry with generations modulo `N`. -/
inductive Step (N : Nat) (r : Registry Place Shelf) : Event Place → Registry Place Shelf → Prop
  | idle : Step N r .idle r
  | moved {a : Shelf} {b : Option Shelf} {g : Nat} {rest : Multiset Nat}
      (hshelf : r.shelf a = g ::ₘ rest) :
      Step N r .idle { r with shelf := store (update r.shelf a rest) b g }
  | born {p : Place} {a : Shelf} {nm : Name} {rest : Multiset Nat} {e : Entry Place}
      (hshelf : r.shelf a = nm.number ::ₘ rest) (hentry : r.entry nm.number = some e)
      (hgen : e.gen = nm.gen) (hfree : r.occupant p = none) (hclear : r.Clear p none) :
      Step N r (.born p nm)
        { r with
          entry := update r.entry nm.number (some ⟨true, nm.gen % N, p⟩)
          occupant := update r.occupant p (some nm)
          shelf := update r.shelf a rest }
  | ended {p q : Place} {nm : Name} {b : Option Shelf} (hocc : r.occupant p = some nm) :
      Step N r (.ended p)
        { r with
          entry := update r.entry nm.number (some ⟨false, (nm.gen + 1) % N, q⟩)
          occupant := update r.occupant p none
          shelf := store r.shelf b nm.number }
  | left {p : Place} {nm : Name} (hocc : r.occupant p = some nm) :
      Step N r (.left p)
        { r with occupant := update r.occupant p none, away := r.away ++ [nm] }
  | arrived {p : Place} {k : Nat} {nm : Name} (hk : r.away[k]? = some nm)
      (hfree : r.occupant p = none) (hclear : r.Clear p (some k)) :
      Step N r (.arrived p k)
        { r with
          entry := update r.entry nm.number (some ⟨true, nm.gen % N, p⟩)
          occupant := update r.occupant p (some nm)
          away := r.away.eraseIdx k }

/-- The occupants by the order of their births: their names, where they are, who is on the way
and who has ended. -/
structure History (Place : Type) where
  issued : List Name
  spot : Place → Option Nat
  away : List Nat
  ended : List Nat

namespace History

def start : History Place := ⟨[], fun _ => none, [], []⟩

def births (h : History Place) (g : Nat) : Nat := h.issued.countP fun nm => nm.number = g

def follow (h : History Place) : Event Place → History Place
  | .idle => h
  | .born p nm =>
      { h with
        issued := h.issued ++ [nm]
        spot := update h.spot p (some h.issued.length) }
  | .ended p =>
      { h with
        spot := update h.spot p none
        ended := h.ended ++ (h.spot p).toList }
  | .left p =>
      { h with
        spot := update h.spot p none
        away := h.away ++ (h.spot p).toList }
  | .arrived p k =>
      { h with
        spot := update h.spot p h.away[k]?
        away := h.away.eraseIdx k }

end History

omit [DecidableEq Place] [DecidableEq Shelf]

/-- Numbers on the shelves: each lies once, and none has an occupant. -/
structure Shelved (r : Registry Place Shelf) : Prop where
  once : ∃ lies : Nat → Option Shelf,
    ∀ k, (r.shelf k).Nodup ∧ ∀ g ∈ r.shelf k, lies g = some k
  dead : ∀ k, ∀ g ∈ r.shelf k, ∀ e, r.entry g = some e → e.live = false

structure Listed (r : Registry Place Shelf) : Prop where
  placed : ∀ p nm, r.occupant p = some nm → r.entry nm.number = some ⟨true, nm.gen, p⟩
  away : ∀ nm ∈ r.away, ∃ p, r.entry nm.number = some ⟨true, nm.gen, p⟩ ∧ r.occupant p = none
  nodup : (r.away.map Name.number).Nodup
  owner : ∀ g e, r.entry g = some e → e.live = true →
    (∃ nm, r.occupant e.place = some nm ∧ nm.number = g) ∨ ∃ nm ∈ r.away, nm.number = g

structure Counted (N : Nat) (r : Registry Place Shelf) (h : History Place) : Prop where
  live : ∀ g e, r.entry g = some e → e.live = true →
    ∃ m, h.births g = m + 1 ∧ e.gen = m % N
  dead : ∀ g e, r.entry g = some e → e.live = false → e.gen = h.births g % N
  issued : ∀ n nm, h.issued[n]? = some nm →
    nm.gen = ((h.issued.take n).countP fun o => o.number = nm.number) % N

/-- The history agrees with the registry on who has which name, and loses nobody. -/
structure Followed (r : Registry Place Shelf) (h : History Place) : Prop where
  placed : ∀ p nm, r.occupant p = some nm → ∃ n, h.spot p = some n ∧ h.issued[n]? = some nm
  vacant : ∀ p, r.occupant p = none → h.spot p = none
  away : h.away.map (h.issued[·]?) = r.away.map some
  ended : ∀ n ∈ h.ended, n < h.issued.length ∧ (∀ p, h.spot p ≠ some n) ∧ n ∉ h.away
  all : ∀ n < h.issued.length, n ∈ h.ended ∨ n ∈ h.away ∨ ∃ p, h.spot p = some n

structure Sound (N : Nat) (r : Registry Place Shelf) (h : History Place) : Prop where
  shelved : r.Shelved
  listed : r.Listed
  counted : Counted N r h
  followed : Followed r h

variable {N : Nat} {r r' : Registry Place Shelf} {h : History Place} {ev : Event Place}

theorem Listed.not_mem_shelf (hl : r.Listed) (hs : r.Shelved) {p : Place} {nm : Name}
    (hocc : r.occupant p = some nm) (k : Shelf) : nm.number ∉ r.shelf k := by
  intro hmem
  have hdead := hs.dead k nm.number hmem _ (hl.placed p nm hocc)
  simp at hdead

theorem Listed.number_inj (hl : r.Listed) {p q : Place} {nm nm' : Name}
    (hp : r.occupant p = some nm) (hq : r.occupant q = some nm')
    (hnumber : nm.number = nm'.number) : p = q := by
  have hentry := hl.placed p nm hp
  rw [hnumber, hl.placed q nm' hq] at hentry
  simp only [Option.some.injEq, Entry.mk.injEq, true_and] at hentry
  exact hentry.2.symm

theorem Listed.number_ne_away (hl : r.Listed) {p : Place} {nm nm' : Name}
    (hp : r.occupant p = some nm) (haway : nm' ∈ r.away) : nm'.number ≠ nm.number := by
  intro hnumber
  obtain ⟨q, hentry, hfree⟩ := hl.away nm' haway
  rw [hnumber, hl.placed p nm hp] at hentry
  simp only [Option.some.injEq, Entry.mk.injEq, true_and] at hentry
  rw [← hentry.2, hp] at hfree
  cases hfree

theorem Listed.away_inj (hl : r.Listed) {j k : Nat} {nm nm' : Name} (hj : r.away[j]? = some nm)
    (hk : r.away[k]? = some nm') (hnumber : nm.number = nm'.number) : j = k := by
  have hmapj : (r.away.map Name.number)[j]? = some nm.number := by simp [hj]
  have hmapk : (r.away.map Name.number)[k]? = some nm.number := by simp [hk, hnumber]
  have hlt : j < (r.away.map Name.number).length := (List.getElem?_eq_some_iff.mp hmapj).1
  exact (List.getElem?_inj hlt hl.nodup).mp (hmapj.trans hmapk.symm)

section

variable [DecidableEq Shelf]

/-- Taking a number off a shelf. -/
theorem Shelved.take (hs : r.Shelved) {a : Shelf} {g : Nat} {rest : Multiset Nat}
    (hshelf : r.shelf a = g ::ₘ rest) :
    ∃ lies : Nat → Option Shelf, lies g = none ∧
      ∀ k, (update r.shelf a rest k).Nodup ∧
        ∀ x ∈ update r.shelf a rest k, lies x = some k := by
  obtain ⟨lies, honce⟩ := hs.once
  have hnodup : (g ::ₘ rest).Nodup := hshelf ▸ (honce a).1
  rw [Multiset.nodup_cons] at hnodup
  have hg : lies g = some a := (honce a).2 g (hshelf ▸ Multiset.mem_cons_self g rest)
  refine ⟨update lies g none, update_self .., fun k => ?_⟩
  by_cases hk : k = a
  · subst hk
    rw [update_self]
    refine ⟨hnodup.2, fun x hx => ?_⟩
    have hne : x ≠ g := by
      rintro rfl
      exact hnodup.1 hx
    rw [update_of_ne hne]
    exact (honce k).2 x (hshelf ▸ Multiset.mem_cons_of_mem hx)
  · rw [update_of_ne hk]
    refine ⟨(honce k).1, fun x hx => ?_⟩
    have hx := (honce k).2 x hx
    have hne : x ≠ g := by
      rintro rfl
      exact hk (Option.some.inj (hx.symm.trans hg))
    rw [update_of_ne hne]
    exact hx

theorem store_once {shelf : Shelf → Multiset Nat} {lies : Nat → Option Shelf} {g : Nat}
    (honce : ∀ k, (shelf k).Nodup ∧ ∀ x ∈ shelf k, lies x = some k)
    (hg : ∀ k, g ∉ shelf k) (b : Option Shelf) :
    ∃ lies' : Nat → Option Shelf,
      ∀ k, (store shelf b g k).Nodup ∧ ∀ x ∈ store shelf b g k, lies' x = some k := by
  cases b with
  | none => exact ⟨lies, honce⟩
  | some b =>
    refine ⟨update lies g (some b), fun k => ?_⟩
    have hold : ∀ x ∈ shelf k, update lies g (some b) x = some k := by
      intro x hx
      have hne : x ≠ g := by
        rintro rfl
        exact hg k hx
      rw [update_of_ne hne]
      exact (honce k).2 x hx
    by_cases hk : k = b
    · subst hk
      simp only [store, update_self, Multiset.nodup_cons, Multiset.mem_cons]
      refine ⟨⟨hg k, (honce k).1⟩, ?_⟩
      rintro x (rfl | hx)
      · exact update_self ..
      · exact hold x hx
    · simp only [store, update_of_ne hk]
      exact ⟨(honce k).1, hold⟩

theorem mem_store {shelf : Shelf → Multiset Nat} {b : Option Shelf} {g x : Nat} {k : Shelf}
    (hx : x ∈ store shelf b g k) : x = g ∨ x ∈ shelf k := by
  cases b with
  | none => exact .inr hx
  | some b =>
    by_cases hk : k = b
    · subst hk
      simpa [store] using hx
    · simp only [store, update_of_ne hk] at hx
      exact .inr hx

theorem mem_of_mem_update {shelf : Shelf → Multiset Nat} {a k : Shelf} {g x : Nat}
    {rest : Multiset Nat} (hshelf : shelf a = g ::ₘ rest)
    (hx : x ∈ update shelf a rest k) : x ∈ shelf k := by
  by_cases hk : k = a
  · subst hk
    rw [update_self] at hx
    exact hshelf ▸ Multiset.mem_cons_of_mem hx
  · rwa [update_of_ne hk] at hx

variable [DecidableEq Place]

theorem Shelved.step (hs : r.Shelved) (hl : r.Listed) (hstep : Step N r ev r') : r'.Shelved := by
  cases hstep with
  | idle => exact hs
  | @moved a b g rest hshelf =>
    obtain ⟨lies, hg, honce⟩ := hs.take hshelf
    have hnone : ∀ k, g ∉ update r.shelf a rest k := by
      intro k hmem
      cases hg.symm.trans ((honce k).2 g hmem)
    refine ⟨store_once honce hnone b, fun k x hx => ?_⟩
    rcases mem_store hx with rfl | hx
    · exact hs.dead a x (hshelf ▸ Multiset.mem_cons_self x rest)
    · exact hs.dead k x (mem_of_mem_update hshelf hx)
  | @born p a nm rest e hshelf hentry hgen hfree hclear =>
    obtain ⟨lies, hg, honce⟩ := hs.take hshelf
    refine ⟨⟨lies, honce⟩, fun k x hx => ?_⟩
    have hne : x ≠ nm.number := by
      rintro rfl
      cases hg.symm.trans ((honce k).2 _ hx)
    dsimp only
    rw [update_of_ne hne]
    exact hs.dead k x (mem_of_mem_update hshelf hx)
  | @ended p q nm b hocc =>
    obtain ⟨lies, honce⟩ := hs.once
    have hnone := hl.not_mem_shelf hs hocc
    refine ⟨store_once honce hnone b, fun k x hx e he => ?_⟩
    rcases update_some_eq_some_iff.mp he with ⟨-, rfl⟩ | ⟨hne, he⟩
    · rfl
    · exact hs.dead k x ((mem_store hx).resolve_left hne) e he
  | left hocc => exact ⟨hs.once, hs.dead⟩
  | @arrived p k nm hk hfree hclear =>
    refine ⟨hs.once, fun a x hx e he => ?_⟩
    have hmem : nm ∈ r.away := List.mem_of_getElem? hk
    have hne : x ≠ nm.number := by
      rintro rfl
      obtain ⟨q, hentry, -⟩ := hl.away nm hmem
      have hdead := hs.dead a _ hx _ hentry
      simp at hdead
    dsimp only at he
    rw [update_of_ne hne] at he
    exact hs.dead a x hx e he

end

section

variable [DecidableEq Place]

theorem Listed.placed_of_new (hl : r.Listed) {p q : Place} {nm o : Name}
    (hplaced : ∀ q o, r.occupant q = some o → o.number ≠ nm.number)
    (ho : update r.occupant p (some nm) q = some o) :
    update r.entry nm.number (some ⟨true, nm.gen, p⟩) o.number = some ⟨true, o.gen, q⟩ := by
  rcases update_some_eq_some_iff.mp ho with ⟨rfl, rfl⟩ | ⟨-, ho⟩
  · exact update_self ..
  · rw [update_of_ne (hplaced q o ho)]
    exact hl.placed q o ho

theorem Listed.owner_of_new (hl : r.Listed) {p : Place} {nm : Name} {g : Nat} {e : Entry Place}
    (hfree : r.occupant p = none)
    (he : update r.entry nm.number (some ⟨true, nm.gen, p⟩) g = some e) (hlive : e.live = true) :
    (∃ o, update r.occupant p (some nm) e.place = some o ∧ o.number = g) ∨
      g ≠ nm.number ∧ ∃ o ∈ r.away, o.number = g := by
  rcases update_some_eq_some_iff.mp he with ⟨rfl, rfl⟩ | ⟨hg, he⟩
  · exact .inl ⟨nm, update_self .., rfl⟩
  · rcases hl.owner g e he hlive with ⟨o, ho, heq⟩ | hold
    · have hne : e.place ≠ p := by
        rintro rfl
        cases hfree.symm.trans ho
      exact .inl ⟨o, (update_of_ne hne _ _).trans ho, heq⟩
    · exact .inr ⟨hg, hold⟩

theorem Listed.born (hl : r.Listed) (hs : r.Shelved) {p : Place} {a : Shelf} {nm : Name}
    {rest : Multiset Nat} {shelf : Shelf → Multiset Nat}
    (hshelf : r.shelf a = nm.number ::ₘ rest) (hfree : r.occupant p = none)
    (hclear : r.Clear p none) :
    Listed { r with
      entry := update r.entry nm.number (some ⟨true, nm.gen, p⟩)
      occupant := update r.occupant p (some nm)
      shelf := shelf } := by
  have hmem : nm.number ∈ r.shelf a := hshelf ▸ Multiset.mem_cons_self _ _
  have hplaced : ∀ q o, r.occupant q = some o → o.number ≠ nm.number := by
    intro q o ho heq
    exact hl.not_mem_shelf hs ho a (heq ▸ hmem)
  have haway : ∀ o ∈ r.away, o.number ≠ nm.number := by
    intro o ho heq
    obtain ⟨q, hentry, -⟩ := hl.away o ho
    have hdead := hs.dead a _ (heq ▸ hmem) _ hentry
    simp at hdead
  constructor <;> dsimp only
  · exact fun q o ho => hl.placed_of_new hplaced ho
  · intro o ho
    obtain ⟨q, hentry, hq⟩ := hl.away o ho
    obtain ⟨j, hj⟩ := List.getElem?_of_mem ho
    have hne : q ≠ p := hclear j o _ hj nofun hentry
    exact ⟨q, (update_of_ne (haway o ho) _ _).trans hentry, (update_of_ne hne _ _).trans hq⟩
  · exact hl.nodup
  · intro g e he hlive
    rcases hl.owner_of_new hfree he hlive with hnew | ⟨-, hold⟩
    · exact .inl hnew
    · exact .inr hold

theorem Listed.ended (hl : r.Listed) {p : Place} {nm : Name} {e : Entry Place}
    {shelf : Shelf → Multiset Nat} (hocc : r.occupant p = some nm) (he : e.live = false) :
    Listed { r with
      entry := update r.entry nm.number (some e)
      occupant := update r.occupant p none
      shelf := shelf } := by
  constructor <;> dsimp only
  · intro q o ho
    obtain ⟨hq, ho⟩ := update_none_eq_some_iff.mp ho
    have hne : o.number ≠ nm.number := fun heq => hq (hl.number_inj ho hocc heq)
    rw [update_of_ne hne]
    exact hl.placed q o ho
  · intro o ho
    obtain ⟨q, hentry, hq⟩ := hl.away o ho
    refine ⟨q, ?_, ?_⟩
    · rw [update_of_ne (hl.number_ne_away hocc ho)]
      exact hentry
    · by_cases hqp : q = p
      · rw [hqp]
        exact update_self ..
      · rw [update_of_ne hqp]
        exact hq
  · exact hl.nodup
  · intro g e' he' hlive
    rcases update_some_eq_some_iff.mp he' with ⟨-, rfl⟩ | ⟨hg, he'⟩
    · cases he.symm.trans hlive
    rcases hl.owner g e' he' hlive with ⟨o, ho, heq⟩ | hold
    · have hne : e'.place ≠ p := by
        intro hp
        rw [hp, hocc] at ho
        cases ho
        exact hg heq.symm
      exact .inl ⟨o, (update_of_ne hne _ _).trans ho, heq⟩
    · exact .inr hold

theorem Listed.left (hl : r.Listed) {p : Place} {nm : Name} (hocc : r.occupant p = some nm) :
    Listed { r with occupant := update r.occupant p none, away := r.away ++ [nm] } := by
  constructor <;> dsimp only
  · exact fun q o ho => hl.placed q o (update_none_eq_some_iff.mp ho).2
  · intro o ho
    rcases List.mem_append.mp ho with ho | ho
    · obtain ⟨q, hentry, hq⟩ := hl.away o ho
      have hqp : q ≠ p := by
        rintro rfl
        rw [hocc] at hq
        cases hq
      exact ⟨q, hentry, (update_of_ne hqp _ _).trans hq⟩
    · obtain rfl := List.mem_singleton.mp ho
      exact ⟨p, hl.placed p o hocc, update_self ..⟩
  · rw [List.map_append, List.nodup_append]
    refine ⟨hl.nodup, by simp, ?_⟩
    intro g hg g' hg' heq
    obtain ⟨o, ho, rfl⟩ := List.mem_map.mp hg
    simp only [List.map_cons, List.map_nil, List.mem_singleton] at hg'
    exact hl.number_ne_away hocc ho (heq.trans hg')
  · intro g e he hlive
    rcases hl.owner g e he hlive with ⟨o, ho, heq⟩ | ⟨o, ho, heq⟩
    · by_cases hp : e.place = p
      · rw [hp, hocc] at ho
        cases ho
        exact .inr ⟨nm, by simp, heq⟩
      · exact .inl ⟨o, (update_of_ne hp _ _).trans ho, heq⟩
    · exact .inr ⟨o, List.mem_append_left _ ho, heq⟩

theorem Listed.arrived (hl : r.Listed) {p : Place} {k : Nat} {nm : Name}
    (hk : r.away[k]? = some nm) (hfree : r.occupant p = none) (hclear : r.Clear p (some k)) :
    Listed { r with
      entry := update r.entry nm.number (some ⟨true, nm.gen, p⟩)
      occupant := update r.occupant p (some nm)
      away := r.away.eraseIdx k } := by
  have hmem : nm ∈ r.away := List.mem_of_getElem? hk
  constructor <;> dsimp only
  · exact fun q o ho => hl.placed_of_new (fun q o ho => (hl.number_ne_away ho hmem).symm) ho
  · intro o ho
    obtain ⟨j, hjk, hj⟩ := List.mem_eraseIdx_iff_getElem?.mp ho
    obtain ⟨q, hentry, hq⟩ := hl.away o (List.mem_of_getElem? hj)
    have hqp : q ≠ p := hclear j o _ hj (by simpa using hjk.symm) hentry
    have hne : o.number ≠ nm.number := fun heq => hjk (hl.away_inj hj hk heq)
    refine ⟨q, ?_, (update_of_ne hqp _ _).trans hq⟩
    rw [update_of_ne hne]
    exact hentry
  · exact hl.nodup.sublist ((List.eraseIdx_sublist _ k).map _)
  · intro g e he hlive
    rcases hl.owner_of_new hfree he hlive with hnew | ⟨hg, o, ho, heq⟩
    · exact .inl hnew
    · obtain ⟨j, hj⟩ := List.getElem?_of_mem ho
      have hjk : j ≠ k := by
        rintro rfl
        cases (hj.symm.trans hk)
        exact hg heq.symm
      exact .inr ⟨o, List.mem_eraseIdx_iff_getElem?.mpr ⟨j, hjk, hj⟩, heq⟩

variable [DecidableEq Shelf]

theorem Listed.step (hl : r.Listed) (hs : r.Shelved) (hc : Counted N r h)
    (hstep : Step N r ev r') : r'.Listed := by
  cases hstep with
  | idle => exact hl
  | moved hshelf => exact ⟨hl.placed, hl.away, hl.nodup, hl.owner⟩
  | @born p a nm rest e hshelf hentry hgen hfree hclear =>
    have hdead := hs.dead a _ (hshelf ▸ Multiset.mem_cons_self _ _) e hentry
    have hmod : nm.gen % N = nm.gen := by
      rw [← hgen, hc.dead _ e hentry hdead, Nat.mod_mod]
    rw [hmod]
    exact hl.born hs hshelf hfree hclear
  | ended hocc => exact hl.ended hocc rfl
  | left hocc => exact hl.left hocc
  | @arrived p k nm hk hfree hclear =>
    obtain ⟨q, hentry, -⟩ := hl.away nm (List.mem_of_getElem? hk)
    obtain ⟨m, -, hgen⟩ := hc.live _ _ hentry rfl
    dsimp only at hgen
    have hmod : nm.gen % N = nm.gen := by
      rw [hgen, Nat.mod_mod]
    rw [hmod]
    exact hl.arrived hk hfree hclear

omit [DecidableEq Shelf] in
theorem History.births_born (h : History Place) (p : Place) (nm : Name) (g : Nat) :
    (h.follow (.born p nm)).births g = h.births g + if nm.number = g then 1 else 0 := by
  simp [History.births, History.follow, List.countP_append, List.countP_cons]

theorem Counted.step (hc : Counted N r h) (hl : r.Listed) (hs : r.Shelved)
    (hstep : Step N r ev r') : Counted N r' (h.follow ev) := by
  cases hstep with
  | idle => exact hc
  | moved hshelf | left hocc => exact ⟨hc.live, hc.dead, hc.issued⟩
  | @born p a nm rest e hshelf hentry hgen hfree hclear =>
    have hdead := hs.dead a _ (hshelf ▸ Multiset.mem_cons_self _ _) e hentry
    have hnew : nm.gen = h.births nm.number % N := by
      rw [← hgen, hc.dead _ e hentry hdead]
    constructor
    · intro g e' he' hlive
      rw [History.births_born]
      rcases update_some_eq_some_iff.mp he' with ⟨rfl, rfl⟩ | ⟨hg, he'⟩
      · refine ⟨h.births nm.number, by rw [if_pos rfl], ?_⟩
        show nm.gen % N = h.births nm.number % N
        rw [hnew, Nat.mod_mod]
      · rw [if_neg (Ne.symm hg), Nat.add_zero]
        exact hc.live g e' he' hlive
    · intro g e' he' hlive
      rw [History.births_born]
      rcases update_some_eq_some_iff.mp he' with ⟨-, rfl⟩ | ⟨hg, he'⟩
      · cases hlive
      · rw [if_neg (Ne.symm hg), Nat.add_zero]
        exact hc.dead g e' he' hlive
    · intro n o ho
      dsimp only [History.follow] at ho ⊢
      rcases Nat.lt_or_ge n h.issued.length with hlt | hge
      · rw [List.getElem?_append_left hlt] at ho
        rw [List.take_append_of_le_length hlt.le]
        exact hc.issued n o ho
      · have hlt := (List.getElem?_eq_some_iff.mp ho).1
        rw [List.length_append, List.length_singleton] at hlt
        obtain rfl : n = h.issued.length := by omega
        rw [List.getElem?_concat_length] at ho
        cases ho
        rw [List.take_left]
        exact hnew
  | @ended p q nm b hocc =>
    obtain ⟨m, hbirths, hgen⟩ := hc.live _ _ (hl.placed p nm hocc) rfl
    dsimp only at hgen
    constructor
    · intro g e' he' hlive
      rcases update_some_eq_some_iff.mp he' with ⟨-, rfl⟩ | ⟨-, he'⟩
      · cases hlive
      · exact hc.live g e' he' hlive
    · intro g e' he' hlive
      rcases update_some_eq_some_iff.mp he' with ⟨rfl, rfl⟩ | ⟨-, he'⟩
      · show (nm.gen + 1) % N = h.births nm.number % N
        rw [hbirths, hgen, Nat.mod_add_mod]
      · exact hc.dead g e' he' hlive
    · exact hc.issued
  | @arrived p k nm hk hfree hclear =>
    obtain ⟨q, hentry, -⟩ := hl.away nm (List.mem_of_getElem? hk)
    obtain ⟨m, hbirths, hgen⟩ := hc.live _ _ hentry rfl
    dsimp only at hgen
    constructor
    · intro g e' he' hlive
      rcases update_some_eq_some_iff.mp he' with ⟨rfl, rfl⟩ | ⟨-, he'⟩
      · refine ⟨m, hbirths, ?_⟩
        show nm.gen % N = m % N
        rw [hgen, Nat.mod_mod]
      · exact hc.live g e' he' hlive
    · intro g e' he' hlive
      rcases update_some_eq_some_iff.mp he' with ⟨-, rfl⟩ | ⟨-, he'⟩
      · cases hlive
      · exact hc.dead g e' he' hlive
    · exact hc.issued

end

namespace Followed

variable {p q : Place} {n k : Nat} {nm : Name}

theorem occupant (hf : Followed r h) (hn : h.spot p = some n) :
    ∃ nm, r.occupant p = some nm ∧ h.issued[n]? = some nm := by
  cases hocc : r.occupant p with
  | none =>
    rw [hf.vacant p hocc] at hn
    cases hn
  | some nm =>
    obtain ⟨m, hm, hissued⟩ := hf.placed p nm hocc
    cases (hm.symm.trans hn)
    exact ⟨nm, rfl, hissued⟩

theorem spot_inj (hf : Followed r h) (hl : r.Listed) (hp : h.spot p = some n)
    (hq : h.spot q = some n) : p = q := by
  obtain ⟨nm, hoccp, hissued⟩ := hf.occupant hp
  obtain ⟨nm', hoccq, hissued'⟩ := hf.occupant hq
  cases (hissued.symm.trans hissued')
  exact hl.number_inj hoccp hoccq rfl

theorem away_of_getElem? (hf : Followed r h) (hk : r.away[k]? = some nm) :
    ∃ n, h.away[k]? = some n ∧ h.issued[n]? = some nm := by
  have hmap : (h.away.map (h.issued[·]?))[k]? = some (some nm) := by
    rw [hf.away, List.getElem?_map, hk]
    rfl
  rw [List.getElem?_map] at hmap
  obtain ⟨n, hn, hissued⟩ := Option.map_eq_some_iff.mp hmap
  exact ⟨n, hn, hissued⟩

theorem away_of_mem (hf : Followed r h) (hn : h.away[k]? = some n) :
    ∃ nm, r.away[k]? = some nm ∧ h.issued[n]? = some nm := by
  have hmap : (r.away.map some)[k]? = some (h.issued[n]?) := by
    rw [← hf.away, List.getElem?_map, hn]
    rfl
  rw [List.getElem?_map] at hmap
  obtain ⟨nm, hnm, hissued⟩ := Option.map_eq_some_iff.mp hmap
  exact ⟨nm, hnm, hissued.symm⟩

theorem not_away (hf : Followed r h) (hl : r.Listed) (hp : h.spot p = some n) : n ∉ h.away := by
  intro hmem
  obtain ⟨j, hj⟩ := List.getElem?_of_mem hmem
  obtain ⟨nm, hocc, hissued⟩ := hf.occupant hp
  obtain ⟨nm', haway, hissued'⟩ := hf.away_of_mem hj
  cases (hissued.symm.trans hissued')
  exact hl.number_ne_away hocc (List.mem_of_getElem? haway) rfl

end Followed

theorem getElem?_issued {n : Nat} {nm nm' : Name} (hn : h.issued[n]? = some nm') :
    (h.issued ++ [nm])[n]? = some nm' := by
  rw [List.getElem?_append_left (List.getElem?_eq_some_iff.mp hn).1]
  exact hn

section

variable [DecidableEq Place]

theorem Followed.vacant_of_new (hf : Followed r h) {p q : Place} {nm : Name} {n : Nat}
    (hq : update r.occupant p (some nm) q = none) : update h.spot p (some n) q = none := by
  have hne : q ≠ p := by
    rintro rfl
    rw [update_self] at hq
    cases hq
  rw [update_of_ne hne] at hq ⊢
  exact hf.vacant q hq

theorem Followed.spot_of_new (hf : Followed r h) {p q : Place} {m n : Nat}
    (hfree : r.occupant p = none) (hq : h.spot q = some n) :
    update h.spot p (some m) q = some n := by
  have hne : q ≠ p := by
    rintro rfl
    cases (hf.vacant q hfree).symm.trans hq
  exact (update_of_ne hne _ _).trans hq

theorem Followed.born (hf : Followed r h) {p : Place} {nm : Name}
    {entry : Nat → Option (Entry Place)} {shelf : Shelf → Multiset Nat}
    (hfree : r.occupant p = none) :
    Followed { r with
      entry := entry
      occupant := update r.occupant p (some nm)
      shelf := shelf } (h.follow (.born p nm)) := by
  constructor <;> dsimp only [History.follow]
  · intro q o ho
    rcases update_some_eq_some_iff.mp ho with ⟨rfl, rfl⟩ | ⟨hq, ho⟩
    · exact ⟨_, update_self .., List.getElem?_concat_length⟩
    · obtain ⟨n, hn, hissued⟩ := hf.placed q o ho
      exact ⟨n, (update_of_ne hq _ _).trans hn, getElem?_issued hissued⟩
  · exact fun q hq => hf.vacant_of_new hq
  · rw [← hf.away]
    apply List.map_congr_left
    intro n hn
    obtain ⟨j, hj⟩ := List.getElem?_of_mem hn
    obtain ⟨o, -, hissued⟩ := hf.away_of_mem hj
    rw [hissued]
    exact getElem?_issued hissued
  · intro n hn
    obtain ⟨hlt, hspot, haway⟩ := hf.ended n hn
    refine ⟨by rw [List.length_append]; omega, fun q hq => ?_, haway⟩
    rcases update_some_eq_some_iff.mp hq with ⟨-, hlast⟩ | ⟨-, hq⟩
    · omega
    · exact hspot q hq
  · intro n hn
    rw [List.length_append, List.length_singleton] at hn
    by_cases hlast : n = h.issued.length
    · subst hlast
      exact .inr (.inr ⟨p, update_self ..⟩)
    · rcases hf.all n (by omega) with hold | hold | ⟨q, hq⟩
      · exact .inl hold
      · exact .inr (.inl hold)
      · exact .inr (.inr ⟨q, hf.spot_of_new hfree hq⟩)

theorem Followed.placed_of_gone (hf : Followed r h) {p q : Place} {nm : Name}
    (ho : update r.occupant p none q = some nm) :
    ∃ n, update h.spot p none q = some n ∧ h.issued[n]? = some nm := by
  obtain ⟨hne, ho⟩ := update_none_eq_some_iff.mp ho
  rw [update_of_ne hne]
  exact hf.placed q nm ho

theorem Followed.vacant_of_gone (hf : Followed r h) {p q : Place}
    (hq : update r.occupant p none q = none) :
    update h.spot p none q = none := by
  by_cases hqp : q = p
  · rw [hqp, update_self]
  · rw [update_of_ne hqp] at hq ⊢
    exact hf.vacant q hq

theorem Followed.spot_of_gone (hf : Followed r h) (hl : r.Listed) {p : Place} {n : Nat}
    (hp : h.spot p = some n) (q : Place) : update h.spot p none q ≠ some n := by
  intro hq
  obtain ⟨hne, hq⟩ := update_none_eq_some_iff.mp hq
  exact hne (hf.spot_inj hl hq hp)

theorem Followed.ended_step (hf : Followed r h) (hl : r.Listed) {p : Place} {nm : Name}
    {entry : Nat → Option (Entry Place)} {shelf : Shelf → Multiset Nat}
    (hocc : r.occupant p = some nm) :
    Followed { r with
      entry := entry
      occupant := update r.occupant p none
      shelf := shelf } (h.follow (.ended p)) := by
  obtain ⟨n, hn, hissued⟩ := hf.placed p nm hocc
  constructor <;> dsimp only [History.follow]
  · exact fun q o ho => hf.placed_of_gone ho
  · exact fun q hq => hf.vacant_of_gone hq
  · exact hf.away
  · intro m hm
    rw [hn, Option.toList_some, List.mem_append, List.mem_singleton] at hm
    rcases hm with hm | rfl
    · obtain ⟨hlt, hspot, haway⟩ := hf.ended m hm
      refine ⟨hlt, fun q hq => ?_, haway⟩
      exact hspot q (update_none_eq_some_iff.mp hq).2
    · exact ⟨(List.getElem?_eq_some_iff.mp hissued).1, hf.spot_of_gone hl hn, hf.not_away hl hn⟩
  · intro m hm
    rw [hn, Option.toList_some, List.mem_append, List.mem_singleton]
    rcases hf.all m hm with hold | hold | ⟨q, hq⟩
    · exact .inl (.inl hold)
    · exact .inr (.inl hold)
    · by_cases hqp : q = p
      · rw [hqp, hn] at hq
        exact .inl (.inr (Option.some.inj hq).symm)
      · exact .inr (.inr ⟨q, (update_of_ne hqp _ _).trans hq⟩)

theorem Followed.left_step (hf : Followed r h) {p : Place} {nm : Name}
    (hocc : r.occupant p = some nm) :
    Followed { r with
      occupant := update r.occupant p none
      away := r.away ++ [nm] } (h.follow (.left p)) := by
  obtain ⟨n, hn, hissued⟩ := hf.placed p nm hocc
  constructor <;> dsimp only [History.follow]
  · exact fun q o ho => hf.placed_of_gone ho
  · exact fun q hq => hf.vacant_of_gone hq
  · simp [hn, hf.away, hissued]
  · intro m hm
    obtain ⟨hlt, hspot, haway⟩ := hf.ended m hm
    refine ⟨hlt, fun q hq => ?_, ?_⟩
    · exact hspot q (update_none_eq_some_iff.mp hq).2
    · rw [hn, Option.toList_some, List.mem_append, List.mem_singleton]
      rintro (hm | rfl)
      · exact haway hm
      · exact hspot p hn
  · intro m hm
    rw [hn, Option.toList_some, List.mem_append, List.mem_singleton]
    rcases hf.all m hm with hold | hold | ⟨q, hq⟩
    · exact .inl hold
    · exact .inr (.inl (.inl hold))
    · by_cases hqp : q = p
      · rw [hqp, hn] at hq
        exact .inr (.inl (.inr (Option.some.inj hq).symm))
      · exact .inr (.inr ⟨q, (update_of_ne hqp _ _).trans hq⟩)

theorem Followed.arrived_step (hf : Followed r h) {p : Place} {k : Nat}
    {nm : Name} {entry : Nat → Option (Entry Place)} (hk : r.away[k]? = some nm)
    (hfree : r.occupant p = none) :
    Followed { r with
      entry := entry
      occupant := update r.occupant p (some nm)
      away := r.away.eraseIdx k } (h.follow (.arrived p k)) := by
  obtain ⟨n, hn, hissued⟩ := hf.away_of_getElem? hk
  have hfollow : h.follow (.arrived p k) =
      { h with spot := update h.spot p (some n), away := h.away.eraseIdx k } := by
    rw [History.follow, hn]
  rw [hfollow]
  constructor <;> dsimp only
  · intro q o ho
    rcases update_some_eq_some_iff.mp ho with ⟨rfl, rfl⟩ | ⟨hq, ho⟩
    · exact ⟨n, update_self .., hissued⟩
    · rw [update_of_ne hq]
      exact hf.placed q o ho
  · exact fun q hq => hf.vacant_of_new hq
  · rw [← List.eraseIdx_map, ← List.eraseIdx_map, hf.away]
  · intro m hm
    obtain ⟨hlt, hspot, haway⟩ := hf.ended m hm
    refine ⟨hlt, fun q hq => ?_, fun hmem => haway (List.mem_of_mem_eraseIdx hmem)⟩
    rcases update_some_eq_some_iff.mp hq with ⟨-, rfl⟩ | ⟨-, hq⟩
    · exact haway (List.mem_of_getElem? hn)
    · exact hspot q hq
  · intro m hm
    rcases hf.all m hm with hold | hold | ⟨q, hq⟩
    · exact .inl hold
    · obtain ⟨j, hj⟩ := List.getElem?_of_mem hold
      by_cases hjk : j = k
      · subst hjk
        cases (hj.symm.trans hn)
        exact .inr (.inr ⟨p, update_self ..⟩)
      · exact .inr (.inl (List.mem_eraseIdx_iff_getElem?.mpr ⟨j, hjk, hj⟩))
    · exact .inr (.inr ⟨q, hf.spot_of_new hfree hq⟩)

variable [DecidableEq Shelf]

theorem Followed.step (hf : Followed r h) (hl : r.Listed) (hstep : Step N r ev r') :
    Followed r' (h.follow ev) := by
  cases hstep with
  | idle => exact hf
  | moved hshelf => exact ⟨hf.placed, hf.vacant, hf.away, hf.ended, hf.all⟩
  | born hshelf hentry hgen hfree hclear => exact hf.born hfree
  | ended hocc => exact hf.ended_step hl hocc
  | left hocc => exact hf.left_step hocc
  | arrived hk hfree hclear => exact hf.arrived_step hk hfree

theorem Sound.step (hs : Sound N r h) (hstep : Step N r ev r') : Sound N r' (h.follow ev) where
  shelved := hs.shelved.step hs.listed hstep
  listed := hs.listed.step hs.shelved hs.counted hstep
  counted := hs.counted.step hs.listed hs.shelved hstep
  followed := hs.followed.step hs.listed hstep

end

/-- A registry without occupants, whose numbers all lie on the shelf `a`. -/
theorem sound_start [DecidableEq Shelf] {l : Multiset Nat} {a : Shelf} (hl : l.Nodup)
    (hfree : ∀ p, r.occupant p = none) (haway : r.away = [])
    (hshelf : ∀ k, r.shelf k = if k = a then l else 0)
    (hentry : ∀ g e, r.entry g = some e → e.live = false ∧ e.gen = 0) :
    Sound N r History.start where
  shelved := by
    refine ⟨⟨fun _ => some a, fun k => ?_⟩, fun _ g _ e he => (hentry g e he).1⟩
    rw [hshelf]
    by_cases hk : k = a
    · rw [if_pos hk, hk]
      exact ⟨hl, fun _ _ => rfl⟩
    · rw [if_neg hk]
      exact ⟨Multiset.nodup_zero, fun g hg => absurd hg (Multiset.notMem_zero g)⟩
  listed := by
    refine ⟨fun p nm hp => ?_, by simp [haway], by simp [haway], fun g e he hlive => ?_⟩
    · rw [hfree] at hp
      cases hp
    · rw [(hentry g e he).1] at hlive
      cases hlive
  counted := by
    refine ⟨fun g e he hlive => ?_, fun g e he _ => ?_, by simp [History.start]⟩
    · rw [(hentry g e he).1] at hlive
      cases hlive
    · simp [(hentry g e he).2, History.births, History.start]
  followed := by
    refine ⟨fun p nm hp => ?_, fun _ _ => rfl, by simp [haway, History.start], ?_, ?_⟩
    · rw [hfree] at hp
      cases hp
    · simp [History.start]
    · simp [History.start]

theorem Counted.issued_inj (hc : Counted N r h) (hN : ∀ g, h.births g ≤ N) {n m : Nat}
    {nm : Name} (hn : h.issued[n]? = some nm) (hm : h.issued[m]? = some nm) : n = m := by
  have hne : ∀ {i j : Nat}, h.issued[i]? = some nm → h.issued[j]? = some nm → ¬ i < j := by
    intro i j hi hj hij
    have hci := hc.issued i nm hi
    have hcj := hc.issued j nm hj
    have hlt := (List.getElem?_eq_some_iff.mp hj).1
    have hsucc : ∀ k, h.issued[k]? = some nm →
        (h.issued.take (k + 1)).countP (fun o => o.number = nm.number) =
          (h.issued.take k).countP (fun o => o.number = nm.number) + 1 := by
      intro k hk
      rw [List.take_add_one, hk, List.countP_append]
      simp
    have hmono : (h.issued.take (i + 1)).countP (fun o => o.number = nm.number) ≤
        (h.issued.take j).countP (fun o => o.number = nm.number) :=
      (List.take_sublist_take_left hij).countP_le
    have htotal : (h.issued.take (j + 1)).countP (fun o => o.number = nm.number) ≤
        h.births nm.number :=
      (List.take_sublist _ _).countP_le
    have hle := hN nm.number
    rw [hsucc i hi] at hmono
    rw [hsucc j hj] at htotal
    rw [Nat.mod_eq_of_lt (by omega)] at hci hcj
    omega
  rcases Nat.lt_trichotomy n m with hlt | heq | hlt
  · exact absurd hlt (hne hn hm)
  · exact heq
  · exact absurd hlt (hne hm hn)

theorem Sound.resolves_iff (hs : Sound N r h) (hN : ∀ g, h.births g ≤ N) {n : Nat} {nm : Name}
    (hn : h.issued[n]? = some nm) (p : Place) : r.Resolves nm p ↔ h.spot p = some n := by
  constructor
  · rintro ⟨hentry, o, ho, hgen⟩
    have hnumber : o.number = nm.number := by
      rcases hs.listed.owner _ _ hentry rfl with ⟨o', ho', heq⟩ | ⟨o', ho', heq⟩
      · cases (ho.symm.trans ho')
        exact heq
      · obtain ⟨q, hentry', hfree⟩ := hs.listed.away o' ho'
        rw [heq, hentry] at hentry'
        simp only [Option.some.injEq, Entry.mk.injEq, true_and] at hentry'
        rw [← hentry'.2, ho] at hfree
        cases hfree
    have hname : o = nm := by
      cases o
      cases nm
      simp_all
    subst hname
    obtain ⟨m, hm, hissued⟩ := hs.followed.placed p o ho
    rw [hm, hs.counted.issued_inj hN hissued hn]
  · intro hp
    obtain ⟨o, ho, hissued⟩ := hs.followed.occupant hp
    obtain rfl := Option.some.inj (hissued.symm.trans hn)
    exact ⟨hs.listed.placed p o ho, o, ho, rfl⟩

theorem Sound.whereabouts (hs : Sound N r h) {n : Nat} (hn : n < h.issued.length) :
    (∃! p, h.spot p = some n) ∧ n ∉ h.away ∧ n ∉ h.ended ∨
      (∀ p, h.spot p ≠ some n) ∧ n ∈ h.away ∧ n ∉ h.ended ∨
      (∀ p, h.spot p ≠ some n) ∧ n ∉ h.away ∧ n ∈ h.ended := by
  by_cases hended : n ∈ h.ended
  · obtain ⟨-, hspot, haway⟩ := hs.followed.ended n hended
    exact .inr (.inr ⟨hspot, haway, hended⟩)
  · by_cases haway : n ∈ h.away
    · exact .inr (.inl ⟨fun p hp => hs.followed.not_away hs.listed hp haway, haway, hended⟩)
    · rcases hs.followed.all n hn with hold | hold | ⟨p, hp⟩
      · exact absurd hold hended
      · exact absurd hold haway
      · exact .inl ⟨⟨p, hp, fun q hq => hs.followed.spot_inj hs.listed hq hp⟩, haway, hended⟩

end Registry

end Caprock
