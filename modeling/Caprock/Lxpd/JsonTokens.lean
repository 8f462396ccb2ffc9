import Caprock.Lxpd.Json
import Caprock.Lib.Spelling

/-! # Spans are tokens

The scanner cuts a text at positions, and never looks at the white space that it skips.  Seen
as a text made of tokens, a string span is one word, a balanced span is a block in brackets, and
a literal is a row of literal tokens.  Each span function is compared with the tokens in both
directions: what it accepts is spelled so, and what is spelled so it accepts.
-/

namespace Caprock.Lxpd

open Checks Spelling

def isMark (b : UInt8) : Bool :=
  b == comma || b == colon || b == braceOpen || b == braceClose || b == bracketOpen ||
    b == bracketClose

def isOpen (b : UInt8) : Bool := b == braceOpen || b == bracketOpen

def isClose (b : UInt8) : Bool := b == braceClose || b == bracketClose

inductive StringBody : List UInt8 → Prop
  | nil : StringBody []
  | escape (e : UInt8) {s : List UInt8} (hs : StringBody s) : StringBody (backslash :: e :: s)
  | zeichen {b : UInt8} {s : List UInt8} (hquote : b ≠ quote) (hback : b ≠ backslash)
      (hlt : ¬ b < 0x20) (hs : StringBody s) : StringBody (b :: s)

theorem isWs_iff {b : UInt8} : isWs b = true ↔ b = 0x20 ∨ b = 0x09 ∨ b = 0x0A ∨ b = 0x0D := by
  simp [isWs, or_assoc]

theorem isMark_iff {b : UInt8} :
    isMark b = true ↔ b = comma ∨ b = colon ∨ b = braceOpen ∨ b = braceClose ∨
      b = bracketOpen ∨ b = bracketClose := by
  simp [isMark, or_assoc]

theorem isOpen_iff {b : UInt8} : isOpen b = true ↔ b = braceOpen ∨ b = bracketOpen := by
  simp [isOpen]

theorem isClose_iff {b : UInt8} : isClose b = true ↔ b = braceClose ∨ b = bracketClose := by
  simp [isClose]

theorem not_isWord_of_isWs {b : UInt8} (h : isWs b = true) : isWord b = false := by
  rcases isWs_iff.mp h with rfl | rfl | rfl | rfl <;> decide

theorem not_isWord_of_isMark {b : UInt8} (h : isMark b = true) : isWord b = false := by
  rcases isMark_iff.mp h with rfl | rfl | rfl | rfl | rfl | rfl <;> decide

theorem not_isMark_of_isWs {b : UInt8} (h : isWs b = true) : isMark b = false := by
  rcases isWs_iff.mp h with rfl | rfl | rfl | rfl <;> decide

theorem eq_false_of_imp {p q : Bool} (h : q = true → p = false) (hp : p = true) : q = false := by
  cases q with
  | false => rfl
  | true => exact absurd (hp.symm.trans (h rfl)) (by decide)

variable {x : Span} {s stack v : List UInt8}

theorem stringEnd_sound {d : List UInt8} (h : stringEnd d = .ok x) :
    ∃ s, StringBody s ∧ x.1 = s ++ [quote] := by
  fun_induction stringEnd d generalizing x with
  | case1 => cases h
  | case2 d =>
    cases h
    exact ⟨[], .nil, rfl⟩
  | case3 => cases h
  | case4 e d hb ih =>
    obtain ⟨x, hx, rfl⟩ := map_eq_ok.mp h
    obtain ⟨s, hs, hspan⟩ := ih hx
    exact ⟨backslash :: e :: s, .escape e hs, by simp [Span.behind, hspan]⟩
  | case5 => cases h
  | case6 b d hquote hback hlt ih =>
    obtain ⟨x, hx, rfl⟩ := map_eq_ok.mp h
    obtain ⟨s, hs, hspan⟩ := ih hx
    exact ⟨b :: s, .zeichen hquote hback hlt hs, by simp [Span.behind, hspan]⟩

theorem stringEnd_complete (hs : StringBody s) (r : List UInt8) :
    stringEnd (s ++ quote :: r) = .ok (s ++ [quote], r) := by
  induction hs with
  | nil =>
    rw [List.nil_append, stringEnd.eq_def]
    simp only [if_true, List.nil_append]
  | escape e hs ih =>
    have hback : backslash ≠ quote := by decide
    rw [List.cons_append, List.cons_append, stringEnd.eq_def]
    simp only [if_neg hback, if_true, ih]
    rfl
  | zeichen hquote hback hlt hs ih =>
    rw [List.cons_append, stringEnd.eq_def]
    simp only [if_neg hquote, if_neg hback, if_neg hlt, ih]
    rfl

theorem StringBody.unique {s' d d' : List UInt8} (hs : StringBody s) (hs' : StringBody s')
    (h : s ++ quote :: d = s' ++ quote :: d') : s = s' := by
  have hend := stringEnd_complete hs d
  rw [h, stringEnd_complete hs' d'] at hend
  have hspan := (Prod.mk.inj (Except.ok.inj hend)).1
  exact (List.append_cancel_right hspan).symm

def json : Lexis UInt8 where
  white := isWs
  mark := isMark
  quote := quote
  Inner := StringBody
  inner_unique := fun _ _ _ _ hs hs' h => hs.unique hs' h
  opens := isOpen
  closes := isClose
  fits := passt
  word := isWord
  not_mark_of_white := fun _ h => not_isMark_of_isWs h
  white_quote := by decide
  mark_quote := by decide
  mark_of_opens := by
    intro b h
    rcases isOpen_iff.mp h with rfl | rfl <;> decide
  mark_of_closes := by
    intro b h
    rcases isClose_iff.mp h with rfl | rfl <;> decide
  not_closes_of_opens := by
    intro b h
    rcases isOpen_iff.mp h with rfl | rfl <;> decide
  word_quote := by decide
  not_white_of_word := fun _ h => eq_false_of_imp not_isWord_of_isWs h
  not_mark_of_word := fun _ h => eq_false_of_imp not_isWord_of_isMark h

abbrev Tok : Type := Token UInt8

structure Eng (v : List UInt8) : Prop where
  head : ∀ b ∈ v.head?, isWs b = false
  last : ∀ b ∈ v.getLast?, isWs b = false

theorem stringSpan_sound {d : List UInt8} (h : stringSpan d = .ok x) :
    ∃ s, StringBody s ∧ x.1 = (Token.str s).text json := by
  cases d with
  | nil => cases h
  | cons b d =>
    obtain ⟨hb, h⟩ := ite_error_eq_ok.mp h
    obtain ⟨x, hx, rfl⟩ := map_eq_ok.mp h
    obtain ⟨s, hs, hspan⟩ := stringEnd_sound hx
    obtain rfl : b = quote := by simpa using hb
    exact ⟨s, hs, by simp [Span.behind, hspan, Token.text, json]⟩

theorem stringSpan_complete (hs : StringBody s) (r : List UInt8) :
    stringSpan ((Token.str s).text json ++ r) = .ok ((Token.str s).text json, r) := by
  have hend := stringEnd_complete hs r
  simp [Token.text, json, stringSpan, hend, Except.map, Span.behind]

theorem balancedEnd_level {b : UInt8} (hquote : b ≠ quote) (hopen : isOpen b = false)
    (hclose : isClose b = false) (stack d : List UInt8) :
    balancedEnd stack (b :: d) = (balancedEnd stack d).map (Span.behind [b]) := by
  have ho : ¬ (b = braceOpen ∨ b = bracketOpen) := by
    rw [← isOpen_iff, hopen]
    decide
  have hc : ¬ (b = braceClose ∨ b = bracketClose) := by
    rw [← isClose_iff, hclose]
    decide
  rw [balancedEnd.eq_def stack (b :: d)]
  simp only [if_neg hquote, if_neg ho, if_neg hc]

theorem map_behind_nil (x : Except LxpdError Span) : x.map (Span.behind []) = x := by
  cases x with
  | error e | ok x => rfl

theorem map_behind_append (s t : List UInt8) (x : Except LxpdError Span) :
    (x.map (Span.behind t)).map (Span.behind s) = x.map (Span.behind (s ++ t)) := by
  cases x with
  | error e => rfl
  | ok x => simp [Except.map, Span.behind]

theorem balancedEnd_levels {w : List UInt8}
    (hw : ∀ b ∈ w, b ≠ quote ∧ isOpen b = false ∧ isClose b = false) (stack d : List UInt8) :
    balancedEnd stack (w ++ d) = (balancedEnd stack d).map (Span.behind w) := by
  induction w with
  | nil => exact (map_behind_nil _).symm
  | cons b w ih =>
    obtain ⟨hquote, hopen, hclose⟩ := hw b List.mem_cons_self
    rw [List.cons_append, balancedEnd_level hquote hopen hclose,
      ih fun b hb => hw b (List.mem_cons_of_mem _ hb), map_behind_append]
    rfl

theorem balancedEnd_str (hs : StringBody s) (stack d : List UInt8) :
    balancedEnd stack ((Token.str s).text json ++ d) =
      (balancedEnd stack d).map (Span.behind ((Token.str s).text json)) := by
  have hspan := stringSpan_complete hs d
  have htext : (Token.str s).text json ++ d = quote :: (s ++ quote :: d) := by
    simp [Token.text, json]
  rw [htext] at hspan ⊢
  rw [balancedEnd.eq_def]
  simp only [if_true]
  split
  · next e he =>
    rw [hspan] at he
    cases he
  · next v r he =>
    rw [hspan] at he
    cases he
    rfl

theorem balancedEnd_open {b : UInt8} (hb : isOpen b = true) (hlt : stack.length < maxDepth)
    (d : List UInt8) :
    balancedEnd stack (b :: d) = (balancedEnd (b :: stack) d).map (Span.behind [b]) := by
  have hquote : b ≠ quote := by
    rcases isOpen_iff.mp hb with rfl | rfl <;> decide
  rw [balancedEnd.eq_def]
  simp only [if_neg hquote, if_pos (isOpen_iff.mp hb), if_neg (Nat.not_le.mpr hlt)]

theorem balancedEnd_close {o b : UInt8} (hb : isClose b = true) (hpasst : passt o b = true)
    (stack d : List UInt8) :
    balancedEnd (o :: stack) (b :: d) =
      if stack = [] then .ok ([b], d)
      else (balancedEnd stack d).map (Span.behind [b]) := by
  have hquote : b ≠ quote := by
    rcases isClose_iff.mp hb with rfl | rfl <;> decide
  have hopen : ¬ (b = braceOpen ∨ b = bracketOpen) := by
    rcases isClose_iff.mp hb with rfl | rfl <;> decide
  rw [balancedEnd.eq_def]
  simp only [if_neg hquote, if_neg hopen, if_pos (isClose_iff.mp hb)]
  rw [if_neg (by rw [hpasst]; decide)]

theorem level_of_white {b : UInt8} (h : isWs b = true) :
    b ≠ quote ∧ isOpen b = false ∧ isClose b = false := by
  rcases isWs_iff.mp h with rfl | rfl | rfl | rfl <;> decide

theorem level_of_plain {b : UInt8} (h : json.plain b = true) :
    b ≠ quote ∧ isOpen b = false ∧ isClose b = false := by
  obtain ⟨-, hmark, hquote⟩ := Lexis.plain_iff.mp h
  exact ⟨hquote, Lexis.level_of_not_mark hmark⟩

theorem balancedEnd_token {t : Tok} (ht : t.Valid json) (hlevel : t.Level json)
    (stack d : List UInt8) :
    balancedEnd stack (t.text json ++ d) =
      (balancedEnd stack d).map (Span.behind (t.text json)) := by
  cases t with
  | str s => exact balancedEnd_str ht stack d
  | mark b =>
    have hquote : b ≠ quote := by
      rintro rfl
      exact absurd (json.mark_quote.symm.trans ht) (by decide)
    exact balancedEnd_level hquote hlevel.1 hlevel.2 stack d
  | lit l => exact balancedEnd_levels (fun b hb => level_of_plain (ht.2 b hb)) stack d

theorem balancedEnd_complete {k : Nat} {ts us : List Tok} {d : List UInt8}
    (hts : Closes json k stack ts) (hk : k ≤ maxDepth) (hd : Spells json d (ts ++ us)) :
    ∃ v r, balancedEnd stack d = .ok (v, r) ∧ Spells json v ts ∧ Spells json r us := by
  induction hts generalizing d with
  | @last o c hc hfits =>
    cases hd with
    | @cons w d _ _ hw ht he hd =>
      refine ⟨w ++ [c], d, ?_, .cons (d := []) hw ht trivial (.nil (by simp)), hd⟩
      rw [balancedEnd_levels (fun b hb => level_of_white (hw b hb))]
      show (balancedEnd [o] (c :: d)).map _ = _
      rw [balancedEnd_close hc hfits]
      rfl
  | @close o c stack ts hc hfits hst hts ih =>
    cases hd with
    | @cons w d _ _ hw ht he hd =>
      obtain ⟨v, r, hspan, hv, hr⟩ := ih hd
      refine ⟨w ++ (c :: v), r, ?_, .cons hw ht trivial hv, hr⟩
      rw [balancedEnd_levels (fun b hb => level_of_white (hw b hb))]
      show (balancedEnd (o :: stack) (c :: d)).map _ = _
      rw [balancedEnd_close hc hfits, if_neg hst, hspan]
      rfl
  | @opn b stack ts hb hlt hts ih =>
    cases hd with
    | @cons w d _ _ hw ht he hd =>
      obtain ⟨v, r, hspan, hv, hr⟩ := ih hd
      refine ⟨w ++ (b :: v), r, ?_, .cons hw ht trivial hv, hr⟩
      rw [balancedEnd_levels (fun b hb => level_of_white (hw b hb))]
      show (balancedEnd stack (b :: d)).map _ = _
      rw [balancedEnd_open hb (Nat.lt_of_lt_of_le hlt hk), hspan]
      rfl
  | @level t stack ts hlevel hst hts ih =>
    cases hd with
    | @cons w d _ _ hw ht he hd =>
      obtain ⟨v, r, hspan, hv, hr⟩ := ih hd
      have hcut : v ++ r = d := (balancedEnd_cut hspan).eq
      have hends : t.Ends json (v ++ r) := hcut ▸ he
      refine ⟨w ++ (t.text json ++ v), r, ?_, .cons hw ht hends.of_append hv, hr⟩
      rw [balancedEnd_levels (fun b hb => level_of_white (hw b hb)),
        balancedEnd_token ht hlevel, hspan]
      rfl

/-- What the scanner of brackets accepts closes the open brackets. -/
theorem balancedEnd_sound {d : List UInt8} (h : balancedEnd stack d = .ok x)
    (hst : stack ≠ [] ∨ ∃ b ∈ d.head?, isOpen b = true) :
    ∃ ts, Spells json x.1 ts ∧ Closes json maxDepth stack ts := by
  fun_induction balancedEnd stack d generalizing x with
  | case1 => cases h
  | case2 => cases h
  | case3 stack d s r hs ih =>
    obtain ⟨x, hx, rfl⟩ := map_eq_ok.mp h
    have hne : stack ≠ [] := by
      refine hst.resolve_right ?_
      rintro ⟨b, hb, hopen⟩
      obtain rfl : quote = b := by simpa using hb
      exact absurd hopen (by decide)
    obtain ⟨ts, hts, hcloses⟩ := ih hx (.inl hne)
    obtain ⟨s', hs', rfl⟩ := stringSpan_sound hs
    exact ⟨.str s' :: ts, hts.token hs' trivial, .level trivial hne hcloses⟩
  | case4 => cases h
  | case5 stack b d hquote hopen hlt ih =>
    obtain ⟨x, hx, rfl⟩ := map_eq_ok.mp h
    obtain ⟨ts, hts, hcloses⟩ := ih hx (.inl (List.cons_ne_nil _ _))
    have hb : isOpen b = true := isOpen_iff.mpr hopen
    exact ⟨.mark b :: ts, hts.token (t := .mark b) (json.mark_of_opens b hb) trivial,
      .opn hb (Nat.not_le.mp hlt) hcloses⟩
  | case6 => cases h
  | case7 => cases h
  | case8 b d hquote hopen hclose o hpasst =>
    cases h
    have hb : isClose b = true := isClose_iff.mpr hclose
    have hfits : passt o b = true := by simpa using hpasst
    refine ⟨[.mark b], Spells.token (t := .mark b) (d := []) (.nil (by simp)) ?_ trivial,
      .last hb hfits⟩
    exact json.mark_of_closes b hb
  | case9 b d hquote hopen hclose o stack hpasst hne ih =>
    obtain ⟨x, hx, rfl⟩ := map_eq_ok.mp h
    obtain ⟨ts, hts, hcloses⟩ := ih hx (.inl hne)
    have hb : isClose b = true := isClose_iff.mpr hclose
    have hfits : passt o b = true := by simpa using hpasst
    exact ⟨.mark b :: ts, hts.token (t := .mark b) (json.mark_of_closes b hb) trivial,
      .close hb hfits hne hcloses⟩
  | case10 stack b d hquote hopen hclose ih =>
    obtain ⟨x, hx, rfl⟩ := map_eq_ok.mp h
    have hopen' : isOpen b = false := by
      rw [Bool.eq_false_iff, ne_eq, isOpen_iff]
      exact hopen
    have hclose' : isClose b = false := by
      rw [Bool.eq_false_iff, ne_eq, isClose_iff]
      exact hclose
    have hne : stack ≠ [] := by
      refine hst.resolve_right ?_
      rintro ⟨c, hc, hco⟩
      obtain rfl : b = c := by simpa using hc
      rw [hopen'] at hco
      cases hco
    obtain ⟨ts, hts, hcloses⟩ := ih hx (.inl hne)
    by_cases hws : isWs b = true
    · refine ⟨ts, hts.white (w := [b]) fun a ha => ?_, hcloses⟩
      obtain rfl := List.mem_singleton.mp ha
      exact hws
    by_cases hmark : isMark b = true
    · exact ⟨.mark b :: ts, hts.token (t := .mark b) hmark trivial,
        .level ⟨hopen', hclose'⟩ hne hcloses⟩
    · have hplain : json.plain b = true :=
        Lexis.plain_iff.mpr ⟨Bool.eq_false_iff.mpr hws, Bool.eq_false_iff.mpr hmark, hquote⟩
      obtain ⟨ts', hts', hshape⟩ := hts.plain hplain
      refine ⟨ts', hts', ?_⟩
      rcases hshape with rfl | ⟨l, us, rfl, rfl⟩
      · exact .level trivial hne hcloses
      · exact .level trivial hne (hcloses.of_level (t := .lit l) trivial).2

theorem balancedEnd_last {d : List UInt8} (h : balancedEnd stack d = .ok x) :
    ∃ v b, x.1 = v ++ [b] ∧ isClose b = true := by
  fun_induction balancedEnd stack d generalizing x with
  | case1 => cases h
  | case2 => cases h
  | case3 stack d s r hs ih =>
    obtain ⟨x, hx, rfl⟩ := map_eq_ok.mp h
    obtain ⟨v, b, hv, hb⟩ := ih hx
    exact ⟨s ++ v, b, by simp [Span.behind, hv], hb⟩
  | case4 => cases h
  | case5 stack a d hquote hopen hlt ih =>
    obtain ⟨x, hx, rfl⟩ := map_eq_ok.mp h
    obtain ⟨v, b, hv, hb⟩ := ih hx
    exact ⟨a :: v, b, by simp [Span.behind, hv], hb⟩
  | case6 => cases h
  | case7 => cases h
  | case8 a d hquote hopen hclose o hpasst =>
    cases h
    exact ⟨[], a, rfl, isClose_iff.mpr hclose⟩
  | case9 a d hquote hopen hclose o stack hpasst hne ih =>
    obtain ⟨x, hx, rfl⟩ := map_eq_ok.mp h
    obtain ⟨v, b, hv, hb⟩ := ih hx
    exact ⟨a :: v, b, by simp [Span.behind, hv], hb⟩
  | case10 stack a d hquote hopen hclose ih =>
    obtain ⟨x, hx, rfl⟩ := map_eq_ok.mp h
    obtain ⟨v, b, hv, hb⟩ := ih hx
    exact ⟨a :: v, b, by simp [Span.behind, hv], hb⟩

theorem literalEnd_sound {d run : List UInt8} (h : literalEnd d = .ok run) :
    ∀ c ∈ run, isWord c = true ∨ isWs c = true := by
  induction d generalizing run with
  | nil => cases h
  | cons b d ih =>
    rw [literalEnd] at h
    split at h
    · cases h
      exact fun c hc => by cases hc
    · obtain ⟨hgood, h⟩ := ite_error_eq_ok.mp h
      obtain ⟨run, hrun, rfl⟩ := map_eq_ok.mp h
      intro c hc
      rcases List.mem_cons.mp hc with rfl | hc
      · exact Bool.or_eq_true_iff.mp (Bool.eq_true_of_not_eq_false hgood)
      · exact ih hrun c hc

theorem literalEnd_complete {run : List UInt8} (hrun : ∀ c ∈ run, isWord c = true ∨ isWs c = true)
    {b : UInt8} (hb : isDelim b = true) (r : List UInt8) :
    literalEnd (run ++ b :: r) = .ok run := by
  induction run with
  | nil => simp [literalEnd, hb]
  | cons c run ih =>
    have hgood : (isWord c || isWs c) = true := by
      simpa using hrun c List.mem_cons_self
    have hdelim : isDelim c = false := by
      cases hc : isDelim c with
      | false => rfl
      | true =>
        have hcases : c = comma ∨ c = braceClose ∨ c = bracketClose := by
          simpa [isDelim, or_assoc] using hc
        rcases hcases with rfl | rfl | rfl <;> exact absurd hgood (by decide)
    rw [List.cons_append, literalEnd, hdelim, hgood,
      ih fun c hc => hrun c (List.mem_cons_of_mem _ hc)]
    rfl

theorem spells_lits (hv : ∀ c ∈ v, isWord c = true ∨ isWs c = true) :
    ∃ ls : List (List UInt8), Spells json v (ls.map .lit) ∧ ∀ l ∈ ls, ∀ c ∈ l, isWord c = true := by
  induction v with
  | nil => exact ⟨[], .nil (by simp), by simp⟩
  | cons c v ih =>
    obtain ⟨ls, hls, hword⟩ := ih fun c hc => hv c (List.mem_cons_of_mem _ hc)
    rcases hv c List.mem_cons_self with hc | hc
    · obtain ⟨ts, hts, hshape⟩ := hls.plain (Lexis.plain_of_word (L := json) hc)
      rcases hshape with rfl | ⟨l, us, hl, rfl⟩
      · exact ⟨[c] :: ls, hts, by simpa [hc] using hword⟩
      · cases ls with
        | nil => cases hl
        | cons l' ls =>
          obtain ⟨hl', rfl⟩ := List.cons.inj hl
          obtain rfl := Token.lit.inj hl'
          exact ⟨(c :: l') :: ls, hts, by simpa [hc] using hword⟩
    · refine ⟨ls, hls.white (w := [c]) fun a ha => ?_, hword⟩
      obtain rfl := List.mem_singleton.mp ha
      exact hc

theorem of_spells_lits {ls : List (List UInt8)} (hword : ∀ l ∈ ls, ∀ c ∈ l, isWord c = true)
    (h : Spells json v (ls.map .lit)) : ∀ c ∈ v, isWord c = true ∨ isWs c = true := by
  induction ls generalizing v with
  | nil =>
    cases h with
    | nil hw => exact fun c hc => .inr (hw c hc)
  | cons l ls ih =>
    cases h with
    | cons hw ht he h =>
      have hrest := ih (fun l hl => hword l (List.mem_cons_of_mem _ hl)) h
      intro c hc
      rcases List.mem_append.mp hc with hc | hc
      · exact .inr (hw c hc)
      rcases List.mem_append.mp hc with hc | hc
      · exact .inl (hword l List.mem_cons_self c hc)
      · exact hrest c hc

theorem rdropWhile_white {w : List UInt8} (hw : ∀ c ∈ w, isWs c = true)
    (hv : ∀ c ∈ v.getLast?, isWs c = false) : (v ++ w).rdropWhile isWs = v := by
  induction w using List.reverseRecOn with
  | nil =>
    rw [List.append_nil, List.rdropWhile_eq_self_iff]
    intro hne
    rw [hv _ (List.getLast?_eq_some_getLast hne)]
    decide
  | append_singleton w c ih =>
    rw [← List.append_assoc, List.rdropWhile_concat_pos _ _ _ (hw c (by simp))]
    exact ih fun c hc => hw c (List.mem_append_left _ hc)

theorem eng_str (s : List UInt8) : Eng ((Token.str s).text json) where
  head := by
    intro b hb
    obtain rfl : quote = b := by simpa [Token.text, json] using hb
    decide
  last := by
    intro b hb
    have hlast : (Token.str s).text json = (quote :: s) ++ [quote] := rfl
    rw [hlast, List.getLast?_concat] at hb
    cases hb
    decide

theorem Cut.head {d : List UInt8} (h : Cut d x) : x.1.head? = d.head? := by
  rw [← h.eq, List.head?_append_of_ne_nil _ h.ne_nil]

theorem eng_of_balancedEnd {d : List UInt8} (hd : ∀ b ∈ d.head?, isWs b = false)
    (h : balancedEnd [] d = .ok x) :
    Eng x.1 where
  head := by
    rw [(balancedEnd_cut h).head]
    exact hd
  last := by
    obtain ⟨v, c, hv, hc⟩ := balancedEnd_last h
    intro b hb
    rw [hv, List.getLast?_concat] at hb
    cases hb
    rcases isClose_iff.mp hc with rfl | rfl <;> decide

/-- What `value_span` accepts is a value. -/
theorem valueSpan_sound {d : List UInt8} (hd : ∀ b ∈ d.head?, isWs b = false)
    (h : valueSpan d = .ok x) : ∃ ts, Spells json x.1 ts ∧ Value json maxDepth ts ∧ Eng x.1 := by
  have hcut := valueSpan_cut h
  cases d with
  | nil => cases h
  | cons b d =>
    rw [valueSpan] at h
    split at h
    · obtain ⟨s, hs, hspan⟩ := stringSpan_sound h
      rw [hspan]
      refine ⟨[.str s], ?_, .str s, eng_str s⟩
      simpa using Spells.token (L := json) (t := .str s) (d := []) (.nil (by simp)) hs trivial
    split at h
    · next hopen =>
      obtain ⟨-, h⟩ := ite_error_eq_ok.mp h
      obtain ⟨ts, hts, hcloses⟩ := balancedEnd_sound h (.inr ⟨b, rfl, isOpen_iff.mpr hopen⟩)
      exact ⟨ts, hts, .block hcloses, eng_of_balancedEnd hd h⟩
    · obtain ⟨run, hrun, h⟩ := bind_eq_ok.mp h
      obtain ⟨hne, h⟩ := ite_error_eq_ok.mp h
      cases h
      have hgood : ∀ c ∈ run.rdropWhile isWs, isWord c = true ∨ isWs c = true := fun c hc =>
        literalEnd_sound hrun c ((List.rdropWhile_prefix isWs run).subset hc)
      obtain ⟨ls, hls, hword⟩ := spells_lits hgood
      have hhead : ∀ c ∈ (run.rdropWhile isWs).head?, isWs c = false := by
        rw [hcut.head]
        exact hd
      refine ⟨ls.map .lit, hls, .lits ?_ hword, hhead, ?_⟩
      · rintro rfl
        have hfirst := List.head?_eq_some_head hne
        have hwhite : isWs _ = true := hls.all_white _ (List.mem_of_head? hfirst)
        rw [hhead _ hfirst] at hwhite
        cases hwhite
      · intro c hc
        have hlast := List.getLast?_eq_some_getLast hne
        rw [hlast] at hc
        cases hc
        simpa using List.rdropWhile_last_not isWs run hne

theorem valueSpan_block {k : Nat} {ts us : List Tok} {d : List UInt8} (hts : Closes json k [] ts)
    (hk : k ≤ maxDepth) (hd : ∀ b ∈ d.head?, isWs b = false) (h : Spells json d (ts ++ us)) :
    ∃ v r, valueSpan d = .ok (v, r) ∧ Spells json v ts ∧ Spells json r us ∧ Eng v := by
  obtain ⟨v, r, hspan, hv, hr⟩ := balancedEnd_complete hts hk h
  refine ⟨v, r, ?_, hv, hr, eng_of_balancedEnd hd hspan⟩
  cases hts with
  | level _ hst => exact absurd rfl hst
  | @opn b _ _ hb _ _ =>
    obtain ⟨d', rfl, -, -, -⟩ := h.uncons hd
    have hquote : b ≠ quote := by
      rcases isOpen_iff.mp hb with rfl | rfl <;> decide
    have hopen := isOpen_iff.mp hb
    show valueSpan (b :: d') = _
    rw [valueSpan, if_neg hquote, if_pos hopen, balancedSpan, if_neg (by tauto)]
    exact hspan

/-- A value in front of a delimiter is read. -/
theorem valueSpan_complete {k : Nat} {ts us : List Tok} {c : UInt8} {d : List UInt8}
    (hts : Value json k ts) (hk : k ≤ maxDepth) (hc : isDelim c = true)
    (hd : ∀ b ∈ d.head?, isWs b = false) (h : Spells json d (ts ++ .mark c :: us)) :
    ∃ v r, valueSpan d = .ok (v, r) ∧ Spells json v ts ∧ Spells json r (.mark c :: us) ∧
      Eng v := by
  cases hts with
  | str s =>
    obtain ⟨r, rfl, hs, -, hr⟩ := h.uncons hd
    refine ⟨_, r, ?_, Spells.token (t := .str s) (d := []) (.nil (by simp)) hs trivial, hr, ?_⟩
    · have hspan := stringSpan_complete hs r
      show valueSpan (quote :: _) = _
      rw [valueSpan, if_pos rfl, List.append_nil]
      exact hspan
    · rw [List.append_nil]
      exact eng_str s
  | block hts => exact valueSpan_block hts hk hd h
  | @lits ls hne hword =>
    obtain ⟨v, r, rfl, hv, hr, hlast⟩ := h.split
    have hne' : v ≠ [] := by
      rintro rfl
      exact hne (List.map_eq_nil_iff.mp hv.of_nil)
    have hhead : ∀ b ∈ v.head?, isWs b = false := by
      rw [← List.head?_append_of_ne_nil v hne']
      exact hd
    refine ⟨v, r, ?_, hv, hr, hhead, hlast⟩
    cases hr with
    | @cons w r _ _ hw ht he hr =>
      have hgood := of_spells_lits hword hv
      have hrun : ∀ a ∈ v ++ w, isWord a = true ∨ isWs a = true := by
        intro a ha
        rcases List.mem_append.mp ha with ha | ha
        · exact hgood a ha
        · exact .inr (hw a ha)
      have hend : literalEnd (v ++ (w ++ ((Token.mark c).text json ++ r))) = .ok (v ++ w) := by
        rw [← List.append_assoc]
        exact literalEnd_complete hrun hc r
      have htrim : (v ++ w).rdropWhile isWs = v := rdropWhile_white hw hlast
      cases v with
      | nil => exact absurd rfl hne'
      | cons b v =>
        have hb : isWord b = true := by
          refine (hgood b List.mem_cons_self).resolve_right ?_
          rw [hhead b rfl]
          decide
        have hquote : b ≠ quote := by
          rintro rfl
          exact absurd hb (by decide)
        have hopen : ¬ (b = braceOpen ∨ b = bracketOpen) := by
          rintro (rfl | rfl)
          · exact absurd hb (by decide)
          · exact absurd hb (by decide)
        rw [List.cons_append] at hend ⊢
        rw [valueSpan, if_neg hquote, if_neg hopen, hend]
        simp only [Except.bind, htrim, if_neg hne']
        simp

end Caprock.Lxpd
