import Mathlib.Data.List.Basic
import Mathlib.Tactic.Common

/-! # Texts made of tokens

A text spells a list of tokens if white space and the tokens' own text alternate in it.  Quoted
words and marks stand for themselves; a literal is a longest run of the other signs, so only
white space separates two literals.

Brackets are followed with the stack of those that are open (`Closes`).  `Fused` removes the
white space between two literals as well, which makes one literal of them.
-/

namespace Spelling

/-- The signs of a language of tokens. -/
structure Lexis (α : Type*) where
  white : α → Bool
  mark : α → Bool
  quote : α
  /-- What may stand between two quotes. -/
  Inner : List α → Prop
  inner_unique : ∀ s s' d d', Inner s → Inner s' → s ++ quote :: d = s' ++ quote :: d' → s = s'
  opens : α → Bool
  closes : α → Bool
  fits : α → α → Bool
  /-- The signs of a literal that is a value. -/
  word : α → Bool
  not_mark_of_white : ∀ a, white a = true → mark a = false
  white_quote : white quote = false
  mark_quote : mark quote = false
  mark_of_opens : ∀ a, opens a = true → mark a = true
  mark_of_closes : ∀ a, closes a = true → mark a = true
  not_closes_of_opens : ∀ a, opens a = true → closes a = false
  word_quote : word quote = false
  not_white_of_word : ∀ a, word a = true → white a = false
  not_mark_of_word : ∀ a, word a = true → mark a = false

inductive Token (α : Type*) where
  | str (s : List α)
  | mark (a : α)
  | lit (l : List α)
  deriving DecidableEq

variable {α : Type*} (L : Lexis α)

def Token.text : Token α → List α
  | str s => L.quote :: (s ++ [L.quote])
  | mark a => [a]
  | lit l => l

/-- Neither an opening nor a closing bracket. -/
def Token.Level : Token α → Prop
  | mark a => L.opens a = false ∧ L.closes a = false
  | _ => True

/-- The stack `st` of open brackets is worked off at the end of the tokens and not before, and
never more than `k` brackets are open. -/
inductive Closes (k : Nat) : List α → List (Token α) → Prop
  | last {o c : α} (hc : L.closes c = true) (hfits : L.fits o c = true) : Closes k [o] [.mark c]
  | close {o c : α} {st : List α} {ts : List (Token α)} (hc : L.closes c = true)
      (hfits : L.fits o c = true) (hst : st ≠ []) (h : Closes k st ts) :
      Closes k (o :: st) (.mark c :: ts)
  | opn {a : α} {st : List α} {ts : List (Token α)} (ha : L.opens a = true) (hk : st.length < k)
      (h : Closes k (a :: st) ts) : Closes k st (.mark a :: ts)
  | level {t : Token α} {st : List α} {ts : List (Token α)} (ht : t.Level L) (hst : st ≠ [])
      (h : Closes k st ts) : Closes k st (t :: ts)

/-- A word, literals in a row, or a block in brackets. -/
inductive Value (k : Nat) : List (Token α) → Prop
  | str (s : List α) : Value k [.str s]
  | lits {ls : List (List α)} (hne : ls ≠ []) (hword : ∀ l ∈ ls, ∀ a ∈ l, L.word a = true) :
      Value k (ls.map .lit)
  | block {ts : List (Token α)} (h : Closes L k [] ts) : Value k ts

/-- The items that follow the first, each after a separator, and the closing bracket. -/
def more (sep c : α) : List (List (Token α)) → List (Token α)
  | [] => [.mark c]
  | x :: xs => .mark sep :: (x ++ more sep c xs)

def bracketed (o sep c : α) : List (List (Token α)) → List (Token α)
  | [] => [.mark o, .mark c]
  | x :: xs => .mark o :: (x ++ more sep c xs)

inductive Fused : List (Token α) → List (Token α) → Prop
  | nil : Fused [] []
  | cons (t : Token α) {ts ts' : List (Token α)} (h : Fused ts ts') : Fused (t :: ts) (t :: ts')
  | join (l : List α) {l' : List α} {ts ts' : List (Token α)} (h : Fused ts (.lit l' :: ts')) :
      Fused (.lit l :: ts) (.lit (l ++ l') :: ts')

section

variable [DecidableEq α]

def Lexis.plain (a : α) : Bool := !L.white a && !L.mark a && !decide (a = L.quote)

/-- Nothing that would lengthen a literal. -/
def Sharp (d : List α) : Prop := ∀ a ∈ d.head?, L.plain a = false

def Token.Valid : Token α → Prop
  | str s => L.Inner s
  | mark a => L.mark a = true
  | lit l => l ≠ [] ∧ ∀ a ∈ l, L.plain a = true

/-- The token is over where `d` begins. -/
def Token.Ends : Token α → List α → Prop
  | lit _, d => Sharp L d
  | _, _ => True

inductive Spells : List α → List (Token α) → Prop
  | nil {w : List α} (hw : ∀ a ∈ w, L.white a = true) : Spells w []
  | cons {w d : List α} {t : Token α} {ts : List (Token α)} (hw : ∀ a ∈ w, L.white a = true)
      (ht : t.Valid L) (he : t.Ends L d) (h : Spells d ts) : Spells (w ++ (t.text L ++ d)) (t :: ts)

end

variable {L}

section

variable [DecidableEq α]

theorem Lexis.plain_iff {a : α} :
    L.plain a = true ↔ L.white a = false ∧ L.mark a = false ∧ a ≠ L.quote := by
  simp [Lexis.plain, and_assoc]

theorem Lexis.plain_of_word {a : α} (h : L.word a = true) : L.plain a = true := by
  refine Lexis.plain_iff.mpr ⟨L.not_white_of_word a h, L.not_mark_of_word a h, ?_⟩
  rintro rfl
  rw [L.word_quote] at h
  cases h

theorem Lexis.not_plain_of_white {a : α} (h : L.white a = true) : L.plain a = false := by
  simp [Lexis.plain, h]

theorem Lexis.not_plain_of_mark {a : α} (h : L.mark a = true) : L.plain a = false := by
  simp [Lexis.plain, h]

theorem Lexis.not_plain_quote : L.plain L.quote = false := by
  simp [Lexis.plain]

theorem Sharp.nil : Sharp L [] := by
  intro a ha
  cases ha

theorem Sharp.cons {a : α} {d : List α} (h : L.plain a = false) : Sharp L (a :: d) := by
  intro b hb
  obtain rfl : a = b := by simpa using hb
  exact h

theorem Sharp.append {d d' : List α} (h : Sharp L d) (h' : Sharp L d') : Sharp L (d ++ d') := by
  cases d with
  | nil => exact h'
  | cons a d => exact Sharp.cons (h a rfl)

theorem Sharp.of_append {d d' : List α} (h : Sharp L (d ++ d')) : Sharp L d := by
  cases d with
  | nil => exact Sharp.nil
  | cons a d => exact Sharp.cons (h a rfl)

theorem Sharp.white {w d : List α} (hw : ∀ a ∈ w, L.white a = true) (h : Sharp L d) :
    Sharp L (w ++ d) := by
  cases w with
  | nil => exact h
  | cons a w => exact Sharp.cons (Lexis.not_plain_of_white (hw a List.mem_cons_self))

theorem Spells.white {w d : List α} {ts : List (Token α)} (hw : ∀ a ∈ w, L.white a = true)
    (h : Spells L d ts) : Spells L (w ++ d) ts := by
  cases h with
  | nil hw' =>
    refine .nil fun a ha => ?_
    rcases List.mem_append.mp ha with ha | ha
    · exact hw a ha
    · exact hw' a ha
  | @cons w' d t ts hw' ht he h =>
    rw [← List.append_assoc]
    refine .cons (fun a ha => ?_) ht he h
    rcases List.mem_append.mp ha with ha | ha
    · exact hw a ha
    · exact hw' a ha

theorem Token.Ends.append {t : Token α} {d d' : List α} (h : t.Ends L d) (h' : Sharp L d') :
    t.Ends L (d ++ d') := by
  cases t with
  | lit l => exact Sharp.append h h'
  | str s | mark a => trivial

theorem Token.Ends.of_append {t : Token α} {d d' : List α} (h : t.Ends L (d ++ d')) :
    t.Ends L d := by
  cases t with
  | lit l => exact Sharp.of_append h
  | str s | mark a => trivial

theorem Token.Ends.of_sharp {t : Token α} {d : List α} (h : Sharp L d) : t.Ends L d := by
  cases t with
  | lit l => exact h
  | str s | mark a => trivial

theorem Spells.token {t : Token α} {d : List α} {ts : List (Token α)} (h : Spells L d ts)
    (ht : t.Valid L) (he : t.Ends L d) : Spells L (t.text L ++ d) (t :: ts) :=
  Spells.cons (w := []) (fun _ ha => by cases ha) ht he h

theorem Spells.append {d d' : List α} {ts ts' : List (Token α)} (h : Spells L d ts)
    (hs : Sharp L d') (h' : Spells L d' ts') : Spells L (d ++ d') (ts ++ ts') := by
  induction h with
  | nil hw => exact h'.white hw
  | cons hw ht he h ih =>
    rw [List.append_assoc, List.append_assoc]
    exact .cons hw ht (he.append hs) ih

theorem Token.Valid.text_ne_nil {t : Token α} (h : t.Valid L) : t.text L ≠ [] := by
  cases t with
  | str s | mark a => simp [Token.text]
  | lit l => exact h.1

theorem Token.Valid.not_white {t : Token α} (h : t.Valid L) :
    ∀ a ∈ (t.text L).getLast?, L.white a = false := by
  intro a ha
  cases t with
  | str s =>
    have hlast : (Token.str s).text L = (L.quote :: s) ++ [L.quote] := rfl
    rw [hlast, List.getLast?_concat] at ha
    cases ha
    exact L.white_quote
  | mark b =>
    obtain rfl : b = a := by simpa [Token.text] using ha
    cases hw : L.white b with
    | false => rfl
    | true => exact absurd ((L.not_mark_of_white b hw).symm.trans h) (by decide)
  | lit l => exact (Lexis.plain_iff.mp (h.2 a (List.mem_of_getLast? ha))).1

theorem Spells.all_white {d : List α} (h : Spells L d []) : ∀ a ∈ d, L.white a = true := by
  cases h with
  | nil hw => exact hw

theorem Spells.of_nil {ts : List (Token α)} (h : Spells L [] ts) : ts = [] := by
  generalize hd : ([] : List α) = d at h
  cases h with
  | nil hw => rfl
  | cons hw ht he h =>
    have htext := (List.append_eq_nil_iff.mp (List.append_eq_nil_iff.mp hd.symm).2).1
    exact absurd htext ht.text_ne_nil

/-- The first part ends with its last token. -/
theorem Spells.split {d : List α} {ts ts' : List (Token α)} (h : Spells L d (ts ++ ts')) :
    ∃ v r, d = v ++ r ∧ Spells L v ts ∧ Spells L r ts' ∧
      ∀ a ∈ v.getLast?, L.white a = false := by
  induction ts generalizing d with
  | nil => exact ⟨[], d, rfl, .nil (by simp), h, by simp⟩
  | cons t ts ih =>
    cases h with
    | @cons w d _ _ hw ht he h =>
      obtain ⟨v, r, rfl, hv, hr, hlast⟩ := ih h
      refine ⟨w ++ (t.text L ++ v), r, by simp, .cons hw ht he.of_append hv, hr, ?_⟩
      intro a ha
      cases hv' : v.getLast? with
      | none =>
        obtain rfl := List.getLast?_eq_none_iff.mp hv'
        rw [List.append_nil, List.getLast?_append_of_ne_nil _ ht.text_ne_nil] at ha
        exact ht.not_white a ha
      | some b =>
        have hne : v ≠ [] := by
          rintro rfl
          cases hv'
        rw [List.getLast?_append_of_ne_nil _ (by simp [hne]),
          List.getLast?_append_of_ne_nil _ hne] at ha
        exact hlast a ha

/-- A text that does not end with white space ends with its last mark. -/
theorem Spells.last {d : List α} {ts : List (Token α)} {a : α} (h : Spells L d (ts ++ [.mark a]))
    (hd : ∀ b ∈ d.getLast?, L.white b = false) : ∃ v, d = v ++ [a] := by
  obtain ⟨v, r, rfl, -, hr, -⟩ := h.split
  cases hr with
  | @cons w r _ _ hw ht he hr =>
    have hr' := hr.all_white
    cases hlast : r.getLast? with
    | none =>
      obtain rfl := List.getLast?_eq_none_iff.mp hlast
      exact ⟨v ++ w, by simp [Token.text]⟩
    | some b =>
      have hne : r ≠ [] := by
        rintro rfl
        cases hlast
      have hb := hd b (by
        rw [List.getLast?_append_of_ne_nil _ (by simp [Token.text]),
          List.getLast?_append_of_ne_nil _ (by simp [Token.text]),
          List.getLast?_append_of_ne_nil _ hne]
        exact hlast)
      rw [hr' b (List.mem_of_getLast? hlast)] at hb
      cases hb

theorem Spells.uncons {d : List α} {t : Token α} {ts : List (Token α)} (h : Spells L d (t :: ts))
    (hd : ∀ a ∈ d.head?, L.white a = false) :
    ∃ r, d = t.text L ++ r ∧ t.Valid L ∧ t.Ends L r ∧ Spells L r ts := by
  cases h with
  | @cons w d _ _ hw ht he h =>
    cases w with
    | nil => exact ⟨d, rfl, ht, he, h⟩
    | cons a w =>
      have hwhite := hw a List.mem_cons_self
      rw [hd a rfl] at hwhite
      cases hwhite

theorem Token.Valid.head_not_white {t : Token α} (h : t.Valid L) :
    ∀ a ∈ (t.text L).head?, L.white a = false := by
  intro a ha
  cases t with
  | str s =>
    obtain rfl : L.quote = a := by simpa [Token.text] using ha
    exact L.white_quote
  | mark b =>
    obtain rfl : b = a := by simpa [Token.text] using ha
    exact h.not_white b rfl
  | lit l => exact (Lexis.plain_iff.mp (h.2 a (List.mem_of_head? ha))).1

theorem Spells.of_white {w d : List α} {ts : List (Token α)} (hw : ∀ a ∈ w, L.white a = true)
    (h : Spells L (w ++ d) ts) : Spells L d ts := by
  induction w with
  | nil => exact h
  | cons a w ih =>
    refine ih (fun b hb => hw b (List.mem_cons_of_mem _ hb)) ?_
    have ha := hw a List.mem_cons_self
    generalize hd : a :: w ++ d = e at h
    cases h with
    | nil hwhite =>
      refine .nil fun b hb => hwhite b ?_
      rw [← hd]
      exact List.mem_cons_of_mem _ hb
    | @cons w' d' t ts hw' ht he h =>
      cases w' with
      | nil =>
        have hhead : (t.text L).head? = some a := by
          have hfront : (t.text L ++ d').head? = (t.text L).head? :=
            List.head?_append_of_ne_nil _ ht.text_ne_nil
          exact hfront.symm.trans (congrArg List.head? hd.symm)
        exact absurd (ha.symm.trans (ht.head_not_white a hhead)) (by decide)
      | cons b w' =>
        have htail : w ++ d = w' ++ (t.text L ++ d') := (List.cons.inj hd).2
        rw [htail]
        exact .cons (fun c hc => hw' c (List.mem_cons_of_mem _ hc)) ht he h

theorem Spells.dropWhile {d : List α} {ts : List (Token α)} (h : Spells L d ts) :
    Spells L (d.dropWhile L.white) ts := by
  refine Spells.of_white (w := d.takeWhile L.white) (fun a ha => ?_) ?_
  · exact List.all_eq_true.mp List.all_takeWhile a ha
  · rwa [List.takeWhile_append_dropWhile]

theorem takeWhile_plain {l d : List α} (hl : ∀ a ∈ l, L.plain a = true) (hd : Sharp L d) :
    (l ++ d).takeWhile L.plain = l := by
  induction l with
  | nil =>
    cases d with
    | nil => rfl
    | cons a d => simp [hd a rfl]
  | cons a l ih =>
    rw [List.cons_append, List.takeWhile_cons, hl a List.mem_cons_self]
    simp only [if_true]
    rw [ih fun b hb => hl b (List.mem_cons_of_mem _ hb)]

/-- The first token of a text is determined by the text. -/
theorem Token.unique {t t' : Token α} {d d' : List α} (ht : t.Valid L) (ht' : t'.Valid L)
    (he : t.Ends L d) (he' : t'.Ends L d') (h : t.text L ++ d = t'.text L ++ d') : t = t' := by
  have hplain : ∀ {l : List α} {a : α}, (Token.lit l).Valid L → a ∈ l.head? → L.plain a = true :=
    fun hl ha => hl.2 _ (List.mem_of_head? ha)
  have hhead := congrArg List.head? h
  rw [List.head?_append_of_ne_nil _ ht.text_ne_nil,
    List.head?_append_of_ne_nil _ ht'.text_ne_nil] at hhead
  cases t with
  | str s =>
    cases t' with
    | str s' =>
      simp only [Token.text, List.cons_append, List.append_assoc, List.cons.injEq, true_and] at h
      rw [L.inner_unique s s' d d' ht ht' h]
    | mark a =>
      obtain rfl : L.quote = a := by simpa [Token.text] using hhead
      exact absurd (L.mark_quote.symm.trans ht') (by decide)
    | lit l =>
      have := hplain ht' (a := L.quote) hhead.symm
      exact absurd (Lexis.not_plain_quote.symm.trans this) (by decide)
  | mark a =>
    cases t' with
    | str s' =>
      obtain rfl : a = L.quote := by simpa [Token.text] using hhead
      exact absurd (L.mark_quote.symm.trans ht) (by decide)
    | mark b =>
      obtain rfl : a = b := by simpa [Token.text] using hhead
      rfl
    | lit l =>
      have := hplain ht' (a := a) hhead.symm
      exact absurd ((Lexis.not_plain_of_mark ht).symm.trans this) (by decide)
  | lit l =>
    cases t' with
    | str s' =>
      have := hplain ht (a := L.quote) hhead
      exact absurd (Lexis.not_plain_quote.symm.trans this) (by decide)
    | mark b =>
      have := hplain ht (a := b) hhead
      exact absurd ((Lexis.not_plain_of_mark ht').symm.trans this) (by decide)
    | lit l' =>
      have hl := takeWhile_plain ht.2 he
      have hl' := takeWhile_plain ht'.2 he'
      rw [show l ++ d = l' ++ d' from h, hl'] at hl
      rw [hl]

/-- A text that begins with a token spells that token first. -/
theorem Spells.first {t : Token α} {d : List α} {ts : List (Token α)} (ht : t.Valid L)
    (he : t.Ends L d) (h : Spells L (t.text L ++ d) ts) : ∃ us, ts = t :: us ∧ Spells L d us := by
  have hhead : ∀ a ∈ (t.text L ++ d).head?, L.white a = false := by
    rw [List.head?_append_of_ne_nil _ ht.text_ne_nil]
    exact ht.head_not_white
  cases ts with
  | nil =>
    cases htext : t.text L with
    | nil => exact absurd htext ht.text_ne_nil
    | cons a s =>
      rw [htext] at h hhead
      have hwhite := h.all_white a (by simp)
      rw [hhead a rfl] at hwhite
      cases hwhite
  | cons t' us =>
    obtain ⟨r, heq, ht', he', hr⟩ := h.uncons hhead
    obtain rfl := Token.unique ht ht' he he' heq
    obtain rfl := List.append_cancel_left heq
    exact ⟨us, rfl, hr⟩

/-- What a text spells, every continuation of it that does not lengthen its last literal spells
first. -/
theorem Spells.continue {u r : List α} {xs ts : List (Token α)} (h : Spells L u xs)
    (hr : (∀ a ∈ u.getLast?, L.plain a = false) ∨ Sharp L r) (h' : Spells L (u ++ r) ts) :
    ∃ us, ts = xs ++ us ∧ Spells L r us := by
  induction h generalizing ts with
  | nil hw => exact ⟨ts, rfl, h'.of_white hw⟩
  | @cons w d t xs hw ht he h ih =>
    rw [List.append_assoc, List.append_assoc] at h'
    have hends : t.Ends L (d ++ r) := by
      cases t with
      | str s => trivial
      | mark a => trivial
      | lit l =>
        cases d with
        | cons a d => exact Sharp.cons (he a rfl)
        | nil =>
          refine hr.resolve_left fun hlast => ?_
          have hl := List.getLast?_eq_some_getLast ht.1
          have hne : Token.text L (.lit l) ++ [] ≠ [] := by simpa [Token.text] using ht.1
          have := hlast (l.getLast ht.1) (by
            rw [List.getLast?_append_of_ne_nil _ hne]
            simpa [Token.text] using hl)
          rw [ht.2 _ (List.getLast_mem ht.1)] at this
          cases this
    obtain ⟨us, rfl, hus⟩ := (h'.of_white hw).first ht hends
    have hr' : (∀ a ∈ d.getLast?, L.plain a = false) ∨ Sharp L r := by
      refine hr.imp_left fun hlast a ha => hlast a ?_
      have hne : d ≠ [] := by
        rintro rfl
        cases ha
      rw [List.getLast?_append_of_ne_nil _ (by simp [hne]), List.getLast?_append_of_ne_nil _ hne]
      exact ha
    obtain ⟨vs, rfl, hvs⟩ := ih hr' hus
    exact ⟨vs, rfl, hvs⟩

theorem Spells.unique {d : List α} {ts ts' : List (Token α)} (h : Spells L d ts)
    (h' : Spells L d ts') : ts' = ts := by
  obtain ⟨us, rfl, hus⟩ := h.continue (.inr Sharp.nil) (by rwa [List.append_nil])
  rw [hus.of_nil, List.append_nil]

/-- A literal in front of a text that begins with one. -/
theorem Spells.lits {l d : List α} {ts : List (Token α)} (h : Spells L d ts)
    (hsharp : ¬ Sharp L d) (hl : (Token.lit l).Valid L) :
    ∃ l' us, ts = .lit l' :: us ∧ Spells L (l ++ d) (.lit (l ++ l') :: us) := by
  cases h with
  | nil hw => exact absurd (by simpa using Sharp.white hw Sharp.nil) hsharp
  | @cons w d t ts hw ht he h =>
    cases w with
    | cons b w =>
      exact absurd (Sharp.cons (Lexis.not_plain_of_white (hw b List.mem_cons_self))) hsharp
    | nil =>
      cases t with
      | str s => exact absurd (Sharp.cons Lexis.not_plain_quote) hsharp
      | mark b => exact absurd (Sharp.cons (Lexis.not_plain_of_mark ht)) hsharp
      | lit l' =>
        refine ⟨l', ts, rfl, ?_⟩
        have hlit : (Token.lit (l ++ l')).Valid L := by
          refine ⟨by simp [hl.1], fun a ha => ?_⟩
          rcases List.mem_append.mp ha with ha | ha
          · exact hl.2 a ha
          · exact ht.2 a ha
        have hspells := h.token hlit he
        rw [Token.text, List.append_assoc] at hspells
        exact hspells

theorem Spells.plain {a : α} {d : List α} {ts : List (Token α)} (ha : L.plain a = true)
    (h : Spells L d ts) :
    ∃ ts', Spells L (a :: d) ts' ∧
      (ts' = .lit [a] :: ts ∨ ∃ l us, ts = .lit l :: us ∧ ts' = .lit (a :: l) :: us) := by
  have hone : (Token.lit [a]).Valid L := by
    refine ⟨by simp, fun b hb => ?_⟩
    obtain rfl := List.mem_singleton.mp hb
    exact ha
  by_cases hsharp : Sharp L d
  · exact ⟨_, h.token hone hsharp, .inl rfl⟩
  · obtain ⟨l, us, rfl, hspells⟩ := h.lits hsharp hone
    exact ⟨_, hspells, .inr ⟨l, us, rfl, rfl⟩⟩

theorem Spells.eq_lit {d : List α} {ts : List (Token α)} (hne : d ≠ [])
    (hd : ∀ a ∈ d, L.plain a = true) (h : Spells L d ts) : ts = [.lit d] := by
  have hlit : Spells L (d ++ []) [.lit d] :=
    Spells.token (t := .lit d) (.nil (by simp)) ⟨hne, hd⟩ Sharp.nil
  rw [List.append_nil] at hlit
  exact hlit.unique h

end

theorem Lexis.level_of_not_mark {a : α} (h : L.mark a = false) :
    L.opens a = false ∧ L.closes a = false := by
  constructor
  · cases ho : L.opens a with
    | false => rfl
    | true => exact absurd (h.symm.trans (L.mark_of_opens a ho)) (by decide)
  · cases hc : L.closes a with
    | false => rfl
    | true => exact absurd (h.symm.trans (L.mark_of_closes a hc)) (by decide)

section

variable {k k' : Nat} {st st' : List α} {ts us : List (Token α)}

theorem Closes.ne_nil (h : Closes L k st ts) : ts ≠ [] := by
  cases h <;> simp

theorem Closes.of_closes {c : α} (hc : L.closes c = true) (h : Closes L k st (.mark c :: ts)) :
    ∃ o st', st = o :: st' ∧ L.fits o c = true ∧
      (st' = [] ∧ ts = [] ∨ st' ≠ [] ∧ Closes L k st' ts) := by
  cases h with
  | last hc hfits => exact ⟨_, [], rfl, hfits, .inl ⟨rfl, rfl⟩⟩
  | close hc hfits hst h => exact ⟨_, _, rfl, hfits, .inr ⟨hst, h⟩⟩
  | opn ha =>
    rw [L.not_closes_of_opens c ha] at hc
    cases hc
  | level ht => exact absurd (hc.symm.trans ht.2) (by simp)

theorem Closes.of_opens {a : α} (ha : L.opens a = true) (h : Closes L k st (.mark a :: ts)) :
    st.length < k ∧ Closes L k (a :: st) ts := by
  have hclosed : L.closes a = false := L.not_closes_of_opens a ha
  cases h with
  | last hc | close hc => exact absurd (hc.symm.trans hclosed) (by simp)
  | opn _ hk h => exact ⟨hk, h⟩
  | level ht => exact absurd (ha.symm.trans ht.1) (by simp)

theorem Closes.of_level {t : Token α} (ht : t.Level L) (h : Closes L k st (t :: ts)) :
    st ≠ [] ∧ Closes L k st ts := by
  cases h with
  | last hc | close hc => exact absurd (hc.symm.trans ht.2) (by simp)
  | opn ha => exact absurd (ha.symm.trans ht.1) (by simp)
  | level _ hst h => exact ⟨hst, h⟩

theorem Closes.mono (hk : k ≤ k') (h : Closes L k st ts) : Closes L k' st ts := by
  induction h with
  | last hc hfits => exact .last hc hfits
  | close hc hfits hst h ih => exact .close hc hfits hst ih
  | opn ha hlt h ih => exact .opn ha (by omega) ih
  | level ht hst h ih => exact .level ht hst ih

theorem Closes.append (h : Closes L k st ts) (hst : st' ≠ [])
    (h' : Closes L (k + st'.length) st' us) :
    Closes L (k + st'.length) (st ++ st') (ts ++ us) := by
  induction h with
  | last hc hfits => exact .close hc hfits hst h'
  | close hc hfits hne h ih => exact .close hc hfits (by simp [hst]) ih
  | opn ha hlt h ih => exact .opn ha (by simp only [List.length_append]; omega) ih
  | level ht hne h ih => exact .level ht (by simp [hst]) ih

/-- What stands inside of open brackets is no deeper than they leave room for. -/
theorem Closes.split (h : Closes L k' st ts) (hst : st' ≠ [])
    (h' : Closes L (k + st'.length) (st ++ st') (ts ++ us)) :
    Closes L k st ts ∧ Closes L (k + st'.length) st' us := by
  induction h with
  | last hc hfits =>
    obtain ⟨o, st, heq, -, hrest⟩ := h'.of_closes hc
    obtain ⟨rfl, rfl⟩ := List.cons.inj heq
    rcases hrest with ⟨hnil, -⟩ | ⟨-, hrest⟩
    · exact absurd hnil hst
    · exact ⟨.last hc hfits, hrest⟩
  | close hc hfits hne h ih =>
    obtain ⟨o, st, heq, -, hrest⟩ := h'.of_closes hc
    obtain ⟨rfl, rfl⟩ := List.cons.inj heq
    rcases hrest with ⟨hnil, -⟩ | ⟨-, hrest⟩
    · exact absurd hnil (by simp [hst])
    · obtain ⟨hx, hy⟩ := ih hrest
      exact ⟨.close hc hfits hne hx, hy⟩
  | opn ha hlt h ih =>
    obtain ⟨hk, hrest⟩ := h'.of_opens ha
    obtain ⟨hx, hy⟩ := ih hrest
    rw [List.length_append] at hk
    exact ⟨.opn ha (by omega) hx, hy⟩
  | level ht hne h ih =>
    obtain ⟨hx, hy⟩ := ih (h'.of_level ht).2
    exact ⟨.level ht hne hx, hy⟩

theorem Closes.eq_nil (h : Closes L k st ts) (h' : Closes L k' st (ts ++ us)) : us = [] := by
  induction h with
  | last hc hfits =>
    obtain ⟨o, st, heq, -, hrest⟩ := h'.of_closes hc
    obtain ⟨rfl, rfl⟩ := List.cons.inj heq
    rcases hrest with ⟨-, hnil⟩ | ⟨hne, -⟩
    · exact hnil
    · exact absurd rfl hne
  | close hc hfits hne h ih =>
    obtain ⟨o, st, heq, -, hrest⟩ := h'.of_closes hc
    obtain ⟨rfl, rfl⟩ := List.cons.inj heq
    rcases hrest with ⟨hnil, -⟩ | ⟨-, hrest⟩
    · exact absurd hnil hne
    · exact ih hrest
  | opn ha hlt h ih => exact ih (h'.of_opens ha).2
  | level ht hne h ih => exact ih (h'.of_level ht).2

theorem Closes.lits {ls : List (List α)} (hst : st ≠ []) (h : Closes L k st us) :
    Closes L k st (ls.map .lit ++ us) := by
  induction ls with
  | nil => exact h
  | cons l ls ih => exact .level trivial hst ih

theorem Closes.of_lits {ls : List (List α)} (h : Closes L k st (ls.map .lit ++ us)) :
    Closes L k st us := by
  induction ls with
  | nil => exact h
  | cons l ls ih => exact ih (h.of_level (t := .lit l) trivial).2

theorem Value.mono (hk : k ≤ k') (h : Value L k ts) : Value L k' ts := by
  cases h with
  | str s => exact .str s
  | lits hne hword => exact .lits hne hword
  | block h => exact .block (h.mono hk)

theorem Value.append (h : Value L k ts) (hst : st ≠ []) (h' : Closes L (k + st.length) st us) :
    Closes L (k + st.length) st (ts ++ us) := by
  cases h with
  | str s => exact .level trivial hst h'
  | lits hne hword => exact h'.lits hst
  | block h => exact h.append hst h'

theorem Value.split (h : Value L k' ts) (hst : st ≠ [])
    (h' : Closes L (k + st.length) st (ts ++ us)) :
    Value L k ts ∧ Closes L (k + st.length) st us := by
  cases h with
  | str s => exact ⟨.str s, (h'.of_level (t := .str s) trivial).2⟩
  | lits hne hword => exact ⟨.lits hne hword, h'.of_lits⟩
  | block h =>
    obtain ⟨hx, hy⟩ := h.split hst h'
    exact ⟨.block hx, hy⟩

end

section

variable {β : Type*} {k k' : Nat} {st : List α} {o sep c : α} {f g : β → List (Token α)}

theorem Closes.of_levels {xs us : List (Token α)} (hxs : ∀ t ∈ xs, t.Level L)
    (h : Closes L k st (xs ++ us)) : Closes L k st us := by
  induction xs with
  | nil => exact h
  | cons t xs ih =>
    exact ih (fun t ht => hxs t (List.mem_cons_of_mem _ ht))
      (h.of_level (hxs t List.mem_cons_self)).2

theorem Closes.levels {xs us : List (Token α)} (hxs : ∀ t ∈ xs, t.Level L) (hst : st ≠ [])
    (h : Closes L k st us) : Closes L k st (xs ++ us) := by
  induction xs with
  | nil => exact h
  | cons t xs ih =>
    exact .level (hxs t List.mem_cons_self) hst (ih fun t ht => hxs t (List.mem_cons_of_mem _ ht))

theorem more_last (sep c : α) (xs : List (List (Token α))) : ∃ ys, more sep c xs = ys ++ [.mark c] := by
  induction xs with
  | nil => exact ⟨[], rfl⟩
  | cons x xs ih =>
    obtain ⟨ys, hys⟩ := ih
    exact ⟨.mark sep :: (x ++ ys), by simp [more, hys]⟩

theorem bracketed_last (o sep c : α) (xs : List (List (Token α))) :
    ∃ ys, bracketed o sep c xs = ys ++ [.mark c] := by
  cases xs with
  | nil => exact ⟨[.mark o], rfl⟩
  | cons x xs =>
    obtain ⟨ys, hys⟩ := more_last sep c xs
    exact ⟨.mark o :: (x ++ ys), by simp [bracketed, hys]⟩

theorem closes_more (hsep : (Token.mark sep).Level L) (hc : L.closes c = true)
    (hfits : L.fits o c = true) {ms : List β} (hf : ∀ m ∈ ms, ∀ t ∈ f m, t.Level L)
    (hg : ∀ m ∈ ms, Value L k (g m)) :
    Closes L (k + 1) [o] (more sep c (ms.map fun m => f m ++ g m)) := by
  induction ms with
  | nil => exact .last hc hfits
  | cons m ms ih =>
    have hrest := ih (fun m hm => hf m (List.mem_cons_of_mem _ hm))
      (fun m hm => hg m (List.mem_cons_of_mem _ hm))
    have hone : [o] ≠ [] := List.cons_ne_nil _ _
    have hitem := Closes.levels (hf m List.mem_cons_self) hone
      ((hg m List.mem_cons_self).append hone hrest)
    refine .level hsep (List.cons_ne_nil _ _) ?_
    rw [← List.append_assoc] at hitem
    exact hitem

theorem closes_bracketed (ho : L.opens o = true) (hsep : (Token.mark sep).Level L)
    (hc : L.closes c = true) (hfits : L.fits o c = true) {ms : List β}
    (hf : ∀ m ∈ ms, ∀ t ∈ f m, t.Level L) (hg : ∀ m ∈ ms, Value L k (g m)) :
    Closes L (k + 1) [] (bracketed o sep c (ms.map fun m => f m ++ g m)) := by
  cases ms with
  | nil => exact .opn ho (by simp) (.last hc hfits)
  | cons m ms =>
    have hrest := closes_more hsep hc hfits (fun m hm => hf m (List.mem_cons_of_mem _ hm))
      (fun m hm => hg m (List.mem_cons_of_mem _ hm))
    have hone : [o] ≠ [] := List.cons_ne_nil _ _
    have hitem := Closes.levels (hf m List.mem_cons_self) hone
      ((hg m List.mem_cons_self).append hone hrest)
    refine .opn ho (by simp) ?_
    rw [← List.append_assoc] at hitem
    exact hitem

theorem value_of_item {m : β} {us : List (Token α)} (hf : ∀ t ∈ f m, t.Level L)
    (hg : Value L k' (g m)) (h : Closes L (k + 1) [o] (f m ++ g m ++ us)) :
    Value L k (g m) ∧ Closes L (k + 1) [o] us := by
  have hone : [o] ≠ [] := List.cons_ne_nil _ _
  rw [List.append_assoc] at h
  exact hg.split hone (Closes.of_levels hf h)

theorem value_of_more (hsep : (Token.mark sep).Level L) {ms : List β}
    (hf : ∀ m ∈ ms, ∀ t ∈ f m, t.Level L) (hg : ∀ m ∈ ms, Value L k' (g m))
    (h : Closes L (k + 1) [o] (more sep c (ms.map fun m => f m ++ g m))) :
    ∀ m ∈ ms, Value L k (g m) := by
  induction ms with
  | nil => exact fun m hm => by cases hm
  | cons m ms ih =>
    obtain ⟨hvalue, hrest⟩ := value_of_item (hf m List.mem_cons_self)
      (hg m List.mem_cons_self) (h.of_level hsep).2
    intro m' hm'
    rcases List.mem_cons.mp hm' with rfl | hm'
    · exact hvalue
    · exact ih (fun m hm => hf m (List.mem_cons_of_mem _ hm))
        (fun m hm => hg m (List.mem_cons_of_mem _ hm)) hrest m' hm'

theorem value_of_bracketed (ho : L.opens o = true) (hsep : (Token.mark sep).Level L) {ms : List β}
    (hf : ∀ m ∈ ms, ∀ t ∈ f m, t.Level L) (hg : ∀ m ∈ ms, Value L k' (g m))
    (h : Closes L (k + 1) [] (bracketed o sep c (ms.map fun m => f m ++ g m))) :
    ∀ m ∈ ms, Value L k (g m) := by
  cases ms with
  | nil => exact fun m hm => by cases hm
  | cons m ms =>
    obtain ⟨hvalue, hrest⟩ := value_of_item (hf m List.mem_cons_self)
      (hg m List.mem_cons_self) (h.of_opens ho).2
    intro m' hm'
    rcases List.mem_cons.mp hm' with rfl | hm'
    · exact hvalue
    · exact value_of_more hsep (fun m hm => hf m (List.mem_cons_of_mem _ hm))
        (fun m hm => hg m (List.mem_cons_of_mem _ hm)) hrest m' hm'

end

section

variable {k : Nat} {st : List α} {ts ts' xs ys us : List (Token α)}

theorem Fused.text (h : Fused ts ts') : ts.flatMap (Token.text L) = ts'.flatMap (Token.text L) := by
  induction h with
  | nil => rfl
  | cons t h ih => rw [List.flatMap_cons, List.flatMap_cons, ih]
  | join l h ih =>
    rw [List.flatMap_cons, ih, List.flatMap_cons, List.flatMap_cons]
    simp [Token.text]

theorem Fused.of_mark {a : α} (h : Fused (.mark a :: ts) ys) :
    ∃ ts', ys = .mark a :: ts' ∧ Fused ts ts' := by
  cases h with
  | cons t h => exact ⟨_, rfl, h⟩

theorem Fused.of_str {s : List α} (h : Fused (.str s :: ts) ys) :
    ∃ ts', ys = .str s :: ts' ∧ Fused ts ts' := by
  cases h with
  | cons t h => exact ⟨_, rfl, h⟩

theorem Fused.of_single {t : Token α} (h : Fused [t] ys) : ys = [t] := by
  cases h with
  | cons _ h =>
    cases h
    rfl
  | join _ h => cases h

theorem Fused.eq_str {s : List α} (h : Fused xs [.str s]) : xs = [.str s] := by
  cases h with
  | cons _ h =>
    cases h
    rfl

/-- Nothing is joined over a mark. -/
theorem Fused.split {a : α} (h : Fused (xs ++ .mark a :: us) ys) :
    ∃ xs' us', ys = xs' ++ .mark a :: us' ∧ Fused xs xs' ∧ Fused us us' := by
  induction xs generalizing ys with
  | nil =>
    obtain ⟨us', rfl, hus⟩ := h.of_mark
    exact ⟨[], us', rfl, .nil, hus⟩
  | cons t xs ih =>
    cases h with
    | cons _ h =>
      obtain ⟨xs', us', rfl, hxs, hus⟩ := ih h
      exact ⟨t :: xs', us', rfl, .cons t hxs, hus⟩
    | join l h =>
      obtain ⟨xs', us', heq, hxs, hus⟩ := ih h
      cases xs' with
      | nil => cases heq
      | cons t' xs' =>
        obtain ⟨rfl, rfl⟩ := List.cons.inj heq
        exact ⟨_ :: xs', us', rfl, .join l hxs, hus⟩

theorem Fused.closes (h : Fused ts ts') (hts : Closes L k st ts) : Closes L k st ts' := by
  induction h generalizing st with
  | nil => exact hts
  | cons t h ih =>
    cases hts with
    | last hc hfits =>
      cases h
      exact .last hc hfits
    | close hc hfits hst hts => exact .close hc hfits hst (ih hts)
    | opn ha hk hts => exact .opn ha hk (ih hts)
    | level ht hst hts => exact .level ht hst (ih hts)
  | join l h ih =>
    obtain ⟨hst, hts⟩ := hts.of_level (t := .lit l) trivial
    have hlit := (ih hts).of_level (t := .lit _) trivial
    exact .level trivial hst hlit.2

theorem Fused.lits {ls : List (List α)} (hword : ∀ l ∈ ls, ∀ a ∈ l, L.word a = true)
    (h : Fused (ls.map .lit) ts') :
    ∃ ls', ts' = ls'.map .lit ∧ (ls' = [] → ls = []) ∧ ∀ l ∈ ls', ∀ a ∈ l, L.word a = true := by
  induction ls generalizing ts' with
  | nil =>
    cases h
    exact ⟨[], rfl, fun h => h, hword⟩
  | cons l ls ih =>
    have htail : ∀ l ∈ ls, ∀ a ∈ l, L.word a = true := fun l hl =>
      hword l (List.mem_cons_of_mem _ hl)
    cases h with
    | cons _ h =>
      obtain ⟨ls', rfl, -, hls'⟩ := ih htail h
      refine ⟨l :: ls', rfl, nofun, fun l' hl' => ?_⟩
      rcases List.mem_cons.mp hl' with rfl | hl'
      · exact hword _ List.mem_cons_self
      · exact hls' _ hl'
    | @join _ l' _ us h =>
      obtain ⟨ls', heq, -, hls'⟩ := ih htail h
      cases ls' with
      | nil => cases heq
      | cons l'' ls' =>
        obtain ⟨hl, rfl⟩ := List.cons.inj heq
        obtain rfl := Token.lit.inj hl
        refine ⟨(l ++ l') :: ls', rfl, nofun, fun l'' hl'' a ha => ?_⟩
        rcases List.mem_cons.mp hl'' with rfl | hl''
        · rcases List.mem_append.mp ha with ha | ha
          · exact hword l List.mem_cons_self a ha
          · exact hls' l' List.mem_cons_self a ha
        · exact hls' l'' (List.mem_cons_of_mem _ hl'') a ha

theorem Fused.value (h : Fused ts ts') (hts : Value L k ts) : Value L k ts' := by
  cases hts with
  | str s =>
    obtain ⟨us, rfl, hus⟩ := h.of_str
    cases hus
    exact .str s
  | lits hne hword =>
    obtain ⟨ls', rfl, hnil, hls'⟩ := h.lits hword
    exact .lits (fun hls => hne (hnil hls)) hls'
  | block hts => exact .block (h.closes hts)

theorem Fused.more {sep c : α} {zs : List (List (Token α))}
    (h : Fused (xs ++ more sep c zs) ys) :
    ∃ xs' zs', ys = xs' ++ Spelling.more sep c zs' ∧ Fused xs xs' ∧ List.Forall₂ Fused zs zs' := by
  induction zs generalizing xs ys with
  | nil =>
    obtain ⟨xs', us', rfl, hxs, hus⟩ := h.split
    cases hus
    exact ⟨xs', [], rfl, hxs, .nil⟩
  | cons z zs ih =>
    obtain ⟨xs', us', rfl, hxs, hus⟩ := h.split
    obtain ⟨z', zs', rfl, hz, hzs⟩ := ih hus
    exact ⟨xs', z' :: zs', rfl, hxs, .cons hz hzs⟩

theorem Fused.bracketed {o sep c : α} {zs : List (List (Token α))}
    (h : Fused (bracketed o sep c zs) ys) :
    ∃ zs', ys = Spelling.bracketed o sep c zs' ∧ List.Forall₂ Fused zs zs' := by
  cases zs with
  | nil =>
    obtain ⟨us, rfl, hus⟩ := h.of_mark
    obtain ⟨us', rfl, hus'⟩ := hus.of_mark
    cases hus'
    exact ⟨[], rfl, .nil⟩
  | cons z zs =>
    obtain ⟨us, rfl, hus⟩ := h.of_mark
    obtain ⟨z', zs', rfl, hz, hzs⟩ := hus.more
    exact ⟨z' :: zs', rfl, .cons hz hzs⟩

end

section

variable [DecidableEq α]

theorem Spells.valid {d : List α} {ts : List (Token α)} (h : Spells L d ts) :
    ∀ t ∈ ts, t.Valid L := by
  induction h with
  | nil hw => exact fun t ht => by cases ht
  | cons hw ht he h ih =>
    intro t' ht'
    rcases List.mem_cons.mp ht' with rfl | ht'
    · exact ht
    · exact ih t' ht'

theorem Spells.compact {ts : List (Token α)} (hts : ∀ t ∈ ts, t.Valid L) :
    ∃ ts', Fused ts ts' ∧ Spells L (ts.flatMap (Token.text L)) ts' := by
  induction ts with
  | nil => exact ⟨[], .nil, .nil (by simp)⟩
  | cons t ts ih =>
    obtain ⟨ts', hfused, hspells⟩ := ih fun t ht => hts t (List.mem_cons_of_mem _ ht)
    have ht := hts t List.mem_cons_self
    rw [List.flatMap_cons]
    by_cases hsharp : Sharp L (ts.flatMap (Token.text L))
    · exact ⟨t :: ts', .cons t hfused, hspells.token ht (.of_sharp hsharp)⟩
    · cases t with
      | str s => exact ⟨.str s :: ts', .cons _ hfused, hspells.token ht trivial⟩
      | mark a => exact ⟨.mark a :: ts', .cons _ hfused, hspells.token ht trivial⟩
      | lit l =>
        obtain ⟨l', us, rfl, hspells'⟩ := hspells.lits hsharp ht
        exact ⟨.lit (l ++ l') :: us, .join l hfused, hspells'⟩

end

end Spelling
