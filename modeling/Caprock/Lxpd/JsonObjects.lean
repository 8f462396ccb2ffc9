import Mathlib.Data.List.Forall2
import Caprock.Lxpd.JsonTokens

/-! # Objects and lists

The loop over the items of a bracket is compared with the tokens once, for any way to read an
item (`Liest`).  An object is the instance whose state is the table of its members.
-/

namespace Caprock.Lxpd

open Checks Spelling

theorem skipWs_head (d : List UInt8) : ∀ b ∈ (skipWs d).head?, isWs b = false := by
  intro b hb
  have hne : skipWs d ≠ [] := by
    intro hnil
    rw [hnil] at hb
    cases hb
  have hfirst := List.head?_eq_some_head hne
  rw [hfirst] at hb
  cases hb
  have hnot := List.dropWhile_get_zero_not isWs d (List.length_pos_of_ne_nil hne)
  rw [List.head_eq_getElem hne]
  exact Bool.eq_false_iff.mpr hnot

theorem skipWs_split (d : List UInt8) : ∃ w, (∀ b ∈ w, isWs b = true) ∧ w ++ skipWs d = d :=
  ⟨d.takeWhile isWs, fun b hb => List.all_eq_true.mp List.all_takeWhile b hb,
    List.takeWhile_append_dropWhile⟩

theorem spells_skipWs {d : List UInt8} {ts : List Tok} (h : Spells json d ts) :
    Spells json (skipWs d) ts :=
  h.dropWhile

theorem skipWs_mark {d : List UInt8} {b : UInt8} {ts : List Tok}
    (h : Spells json d (.mark b :: ts)) : ∃ r, skipWs d = b :: r ∧ Spells json r ts := by
  obtain ⟨r, hr, -, -, hts⟩ := (spells_skipWs h).uncons (skipWs_head d)
  exact ⟨r, hr, hts⟩

theorem valid_mark {b : UInt8} (hb : isMark b = true) : (Token.mark b).Valid json := hb

theorem of_spells_mark {b : UInt8} (hb : isMark b = true) {d : List UInt8} {ts : List Tok}
    (h : Spells json (b :: d) ts) : ∃ us, ts = .mark b :: us ∧ Spells json d us :=
  h.first (t := .mark b) (valid_mark hb) trivial

theorem sharp_mark {w r : List UInt8} {b : UInt8} (hw : ∀ a ∈ w, isWs a = true)
    (hb : isMark b = true) : Sharp json (w ++ b :: r) :=
  Sharp.white hw (Sharp.cons (Lexis.not_plain_of_mark hb))

section

variable {σ A : Type} {lies : σ → List UInt8 → Except LxpdError (σ × List UInt8)}
  {R : σ → A → Prop} {S : A → List Tok → A → Prop}

/-- `lies` reads an item as the tokens tell: `S` says what an item does to the state, and `R`
relates the states. -/
structure Liest (lies : σ → List UInt8 → Except LxpdError (σ × List UInt8)) (R : σ → A → Prop)
    (S : A → List Tok → A → Prop) : Prop where
  sound : ∀ {s : σ} {a : A} {d : List UInt8} {s' : σ} {r : List UInt8}, R s a →
    (∀ b ∈ d.head?, isWs b = false) → lies s d = .ok (s', r) →
    ∃ v x a', v ++ r = d ∧ Spells json v x ∧ S a x a' ∧ R s' a'
  complete : ∀ {s : σ} {a : A} {x : List Tok} {a' : A} {c : UInt8} {us : List Tok}
    {d : List UInt8}, R s a → S a x a' → isDelim c = true → (∀ b ∈ d.head?, isWs b = false) →
    Spells json d (x ++ .mark c :: us) →
    ∃ s' r, lies s d = .ok (s', r) ∧ Spells json r (.mark c :: us) ∧ R s' a'

inductive Folge (S : A → List Tok → A → Prop) : A → List (List Tok) → A → Prop
  | nil (a : A) : Folge S a [] a
  | cons {a b c : A} {x : List Tok} {xs : List (List Tok)} (h : S a x b) (hxs : Folge S b xs c) :
      Folge S a (x :: xs) c

variable {zu : UInt8} {fehler : LxpdError} {hlies : Kuerzer lies}

theorem eintraege_of_error {s : σ} {d : List UInt8} {e : LxpdError} (h : lies s d = .error e) :
    eintraege zu fehler lies hlies s d = .error e := by
  rw [eintraege.eq_def]
  split
  · next e' he =>
    rw [h] at he
    cases he
    rfl
  · next s' r he =>
    rw [h] at he
    cases he

theorem eintraege_of_ok {s s' : σ} {d r : List UInt8} (h : lies s d = .ok (s', r)) :
    eintraege zu fehler lies hlies s d =
      match skipWs r with
      | [] => .error fehler
      | b :: rest =>
        if b = comma then eintraege zu fehler lies hlies s' (skipWs rest)
        else if b = zu then .ok s'
        else .error fehler := by
  rw [eintraege.eq_def]
  split
  · next e he =>
    rw [h] at he
    cases he
  · next s₁ r₁ he =>
    rw [h] at he
    cases he
    cases hr : skipWs r with
    | nil | cons b rest => rfl

theorem eintraege_sound (hL : Liest lies R S) (hzu : isMark zu = true) {s s' : σ} {a : A}
    {d : List UInt8} (hR : R s a) (hd : ∀ b ∈ d.head?, isWs b = false)
    (h : eintraege zu fehler lies hlies s d = .ok s') :
    ∃ u r x xs a', u ++ [zu] ++ r = d ∧ Spells json (u ++ [zu]) (x ++ more comma zu xs) ∧
      Folge S a (x :: xs) a' ∧ R s' a' := by
  induction hn : d.length using Nat.strong_induction_on generalizing s a d with
  | _ n ih =>
  cases hitem : lies s d with
  | error e =>
    rw [eintraege_of_error hitem] at h
    cases h
  | ok item =>
  obtain ⟨s₁, r⟩ := item
  rw [eintraege_of_ok hitem] at h
  obtain ⟨v, x, a₁, rfl, hv, hS, hR₁⟩ := hL.sound hR hd hitem
  obtain ⟨w, hw, hr⟩ := skipWs_split r
  cases hskip : skipWs r with
  | nil =>
    rw [hskip] at h
    cases h
  | cons b rest =>
    rw [hskip] at h hr
    dsimp only at h
    split at h
    · next hb =>
      subst hb
      obtain ⟨w', hw', hrest⟩ := skipWs_split rest
      have hlt : (skipWs rest).length < n := by
        have hcut := hlies _ _ _ _ hitem
        have hlen := congrArg List.length hr
        have hle := skipWs_length_le rest
        simp only [List.length_append, List.length_cons] at hlen
        omega
      obtain ⟨u, r', x', xs, a', hu, hspell, hF, hR'⟩ :=
        ih _ hlt hR₁ (skipWs_head rest) h rfl
      refine ⟨v ++ (w ++ (comma :: (w' ++ u))), r', x, x' :: xs, a', ?_, ?_, .cons hS hF, hR'⟩
      · rw [← hr, ← hrest, ← hu]
        simp
      · have hmore := (hspell.white hw').token (t := .mark comma)
          (valid_mark (by decide)) trivial
        have hall := hv.append (sharp_mark hw (by decide)) (hmore.white hw)
        simpa [Token.text, more] using hall
    · split at h
      · next hb =>
        subst hb
        cases h
        refine ⟨v ++ w, rest, x, [], a₁, ?_, ?_, .cons hS (.nil _), hR₁⟩
        · rw [← hr]
          simp
        · have hend := Spells.token (L := json) (t := .mark b) (d := []) (.nil (by simp)) hzu trivial
          have hall := hv.append (sharp_mark hw hzu) (hend.white hw)
          simpa [Token.text, more] using hall
      · cases h

theorem eintraege_complete (hL : Liest lies R S) (hzu : isDelim zu = true) (hne : zu ≠ comma)
    {s : σ} {a a' : A} {d : List UInt8} {x : List Tok} {xs : List (List Tok)} {us : List Tok}
    (hR : R s a) (hF : Folge S a (x :: xs) a') (hd : ∀ b ∈ d.head?, isWs b = false)
    (h : Spells json d (x ++ (more comma zu xs ++ us))) :
    ∃ s', eintraege zu fehler lies hlies s d = .ok s' ∧ R s' a' := by
  induction xs generalizing s a d x with
  | nil =>
    cases hF with
    | cons hS hF =>
      cases hF
      obtain ⟨s', r, hitem, hr, hR'⟩ := hL.complete hR hS hzu hd h
      obtain ⟨rest, hskip, -⟩ := skipWs_mark hr
      refine ⟨s', ?_, hR'⟩
      rw [eintraege_of_ok hitem, hskip]
      dsimp only
      rw [if_neg hne, if_pos rfl]
  | cons y xs ih =>
    cases hF with
    | cons hS hF =>
      have hcomma : isDelim comma = true := by decide
      rw [more, List.cons_append, List.append_assoc] at h
      obtain ⟨s₁, r, hitem, hr, hR₁⟩ := hL.complete hR hS hcomma hd h
      obtain ⟨rest, hskip, hrest⟩ := skipWs_mark hr
      obtain ⟨s', hloop, hR'⟩ := ih hR₁ hF (skipWs_head rest) (spells_skipWs hrest)
      refine ⟨s', ?_, hR'⟩
      rw [eintraege_of_ok hitem, hskip]
      dsimp only
      rw [if_pos rfl]
      exact hloop

end

/-- The bytes spell the tokens, without white space at the ends. -/
structure Gelesen (val : List UInt8) (v : List Tok) : Prop where
  spells : Spells json val v
  eng : Eng val

theorem gelesen_bracketed {o c : UInt8} {xs : List (List Tok)} {span : List UInt8}
    (h : Gelesen span (bracketed o comma c xs)) :
    span.head? = some o ∧ span.getLast? = some c ∧
      ∃ ts, bracketed o comma c xs = .mark o :: ts ∧ Spells json span.tail ts := by
  obtain ⟨ts, hts⟩ : ∃ ts, bracketed o comma c xs = .mark o :: ts := by
    cases xs with
    | nil | cons x xs => exact ⟨_, rfl⟩
  obtain ⟨ys, hys⟩ := bracketed_last o comma c xs
  obtain ⟨v, hv⟩ := (hys ▸ h.spells).last h.eng.last
  obtain ⟨d, hd, -, -, htail⟩ := (hts ▸ h.spells).uncons h.eng.head
  refine ⟨by rw [hd]; rfl, by rw [hv, List.getLast?_concat], ts, hts, ?_⟩
  rw [hd]
  exact htail

theorem closes_of_head {k : Nat} {span : List UInt8} {ts : List Tok} {b : UInt8}
    (h : Gelesen span ts) (hts : Value json k ts) (hb : span.head? = some b)
    (hopen : isOpen b = true) : Closes json k [] ts := by
  cases hts with
  | block hts => exact hts
  | str s =>
    obtain ⟨d, rfl, -, -, -⟩ := h.spells.uncons h.eng.head
    obtain rfl : quote = b := by simpa [Token.text, json] using hb
    exact absurd hopen (by decide)
  | @lits ls hne hword =>
    have hspan := h.spells
    cases ls with
    | nil => exact absurd rfl hne
    | cons l ls =>
      obtain ⟨d, rfl, hl, -, -⟩ := hspan.uncons h.eng.head
      rw [List.head?_append_of_ne_nil _ hl.text_ne_nil] at hb
      have hplain := hl.2 b (List.mem_of_head? hb)
      have hmark : isMark b = true := json.mark_of_opens b hopen
      exact absurd ((Lexis.not_plain_of_mark (L := json) hmark).symm.trans hplain) (by decide)

section

variable {σ A : Type} {lies : σ → List UInt8 → Except LxpdError (σ × List UInt8)}
  {R : σ → A → Prop} {S : A → List Tok → A → Prop} {fehler : LxpdError} {hlies : Kuerzer lies}
  {o c : UInt8} {k k' : Nat} {span : List UInt8} {ts : List Tok}

theorem leer_sound (ho : isOpen o = true) (hc : isClose c = true) (hfits : passt o c = true)
    (hts : Closes json k [] ts) (hspan : Gelesen span ts) (hhead : span.head? = some o)
    (h : (skipWs span.tail).head? = some c) : ts = bracketed o comma c [] := by
  cases span with
  | nil => cases hhead
  | cons b d =>
    obtain rfl : b = o := by simpa using hhead
    obtain ⟨us, rfl, hus⟩ := of_spells_mark (json.mark_of_opens b ho) hspan.spells
    have hd := spells_skipWs hus
    rw [List.tail_cons] at h
    cases hskip : skipWs d with
    | nil =>
      rw [hskip] at h
      cases h
    | cons b' r =>
      rw [hskip] at h hd
      obtain rfl : b' = c := by simpa using h
      obtain ⟨us, rfl, -⟩ := of_spells_mark (json.mark_of_closes b' hc) hd
      have hone : Closes json k [b] [.mark b'] := .last hc hfits
      obtain rfl := hone.eq_nil (hts.of_opens ho).2
      rfl

theorem block_sound (hL : Liest lies R S) (ho : isOpen o = true) (hc : isClose c = true)
    (hS : ∀ {a xs a'}, Folge S a xs a' → Closes json k' [] (bracketed o comma c xs))
    (hts : Closes json k [] ts) (hspan : Gelesen span ts) (hhead : span.head? = some o)
    {s s' : σ} {a : A} (hR : R s a)
    (h : eintraege c fehler lies hlies s (skipWs span.tail) = .ok s') :
    ∃ xs a', ts = bracketed o comma c xs ∧ Folge S a xs a' ∧ R s' a' := by
  have hmark : isMark c = true := json.mark_of_closes c hc
  cases span with
  | nil => cases hhead
  | cons b d =>
    obtain rfl : b = o := by simpa using hhead
    obtain ⟨us, rfl, hus⟩ := of_spells_mark (json.mark_of_opens b ho) hspan.spells
    have hd := spells_skipWs hus
    rw [List.tail_cons] at h
    obtain ⟨u, r, x, xs, a', hu, hspell, hF, hrel⟩ :=
      eintraege_sound hL hmark hR (skipWs_head d) h
    rw [← hu] at hd
    obtain ⟨vs, rfl, -⟩ := hspell.continue (.inl fun e he => by
      rw [List.getLast?_concat] at he
      cases he
      exact Lexis.not_plain_of_mark hmark) hd
    have hall : Closes json k [] (bracketed b comma c (x :: xs) ++ vs) := by
      simpa [bracketed] using hts
    obtain rfl := (hS hF).eq_nil hall
    exact ⟨x :: xs, a', by simp [bracketed], hF, hrel⟩

theorem leer_complete (hspan : Gelesen span (bracketed o comma c [])) :
    (skipWs span.tail).head? = some c := by
  obtain ⟨-, -, ts, hts, htail⟩ := gelesen_bracketed hspan
  cases hts
  obtain ⟨d, hd, -, -, -⟩ := (spells_skipWs htail).uncons (skipWs_head _)
  rw [hd]
  rfl

theorem block_complete (hL : Liest lies R S) (hc : isDelim c = true) (hne : c ≠ comma)
    {x : List Tok} {xs : List (List Tok)} (hspan : Gelesen span (bracketed o comma c (x :: xs)))
    {s : σ} {a a' : A} (hR : R s a) (hF : Folge S a (x :: xs) a') :
    ∃ s', eintraege c fehler lies hlies s (skipWs span.tail) = .ok s' ∧ R s' a' := by
  obtain ⟨-, -, ts, hts, htail⟩ := gelesen_bracketed hspan
  cases hts
  have hspells := spells_skipWs htail
  rw [← List.append_nil (more comma c xs)] at hspells
  exact eintraege_complete hL hc hne hR hF (skipWs_head _) hspells

theorem head_of_block {t : Tok} {x : List Tok} {xs : List (List Tok)}
    (hspan : Gelesen span (bracketed o comma c ((t :: x) :: xs))) :
    (skipWs span.tail).head? = (t.text json).head? := by
  obtain ⟨-, -, ts, hts, htail⟩ := gelesen_bracketed hspan
  cases hts
  obtain ⟨d, hd, ht, -, -⟩ := (spells_skipWs htail).uncons (skipWs_head _)
  rw [hd, List.head?_append_of_ne_nil _ ht.text_ne_nil]

end

section

variable {β γ : Type} {R : β → γ → Prop}

/-- Equal keys and related values. -/
structure Pair.Rel (R : β → γ → Prop) (p : Pair β) (q : Pair γ) : Prop where
  key : p.key = q.key
  val : R p.val q.val

def alleAblegen (cap : Nat) (out : List (Pair β)) :
    List (Pair β) → Except LxpdError (List (Pair β))
  | [] => .ok out
  | m :: ms => (ablegen cap out m.key m.val).bind fun out => alleAblegen cap out ms

theorem ersetzen_rel (key : List UInt8) {out : List (Pair β)} {out' : List (Pair γ)} {val : β}
    {val' : γ} (h : List.Forall₂ (Pair.Rel R) out out') (hval : R val val') :
    ersetzen key val out = none ∧ ersetzen key val' out' = none ∨
      ∃ t t', ersetzen key val out = some t ∧ ersetzen key val' out' = some t' ∧
        List.Forall₂ (Pair.Rel R) t t' := by
  induction h with
  | nil => exact .inl ⟨rfl, rfl⟩
  | @cons p q out out' hp h ih =>
    rw [ersetzen, ersetzen, ← hp.key]
    by_cases hkey : p.key = key
    · rw [if_pos hkey, if_pos hkey]
      exact .inr ⟨_, _, rfl, rfl, .cons ⟨rfl, hval⟩ h⟩
    · rw [if_neg hkey, if_neg hkey]
      rcases ih with ⟨hnone, hnone'⟩ | ⟨t, t', ht, ht', hrel⟩
      · exact .inl ⟨by rw [hnone]; rfl, by rw [hnone']; rfl⟩
      · exact .inr ⟨p :: t, q :: t', by rw [ht]; rfl, by rw [ht']; rfl, .cons hp hrel⟩

theorem ablegen_rel (cap : Nat) (key : List UInt8) {out : List (Pair β)} {out' : List (Pair γ)}
    {val : β} {val' : γ} (h : List.Forall₂ (Pair.Rel R) out out') (hval : R val val') :
    (∃ e, ablegen cap out key val = .error e ∧ ablegen cap out' key val' = .error e) ∨
      ∃ t t', ablegen cap out key val = .ok t ∧ ablegen cap out' key val' = .ok t' ∧
        List.Forall₂ (Pair.Rel R) t t' := by
  unfold ablegen
  rcases ersetzen_rel key h hval with ⟨hnone, hnone'⟩ | ⟨t, t', ht, ht', hrel⟩
  · rw [hnone, hnone', ← List.Forall₂.length_eq h]
    by_cases hcap : out.length < cap
    · simp only [if_pos hcap]
      exact .inr ⟨_, _, rfl, rfl, List.rel_append h (.cons ⟨rfl, hval⟩ .nil)⟩
    · simp only [if_neg hcap]
      exact .inl ⟨_, rfl, rfl⟩
  · rw [ht, ht']
    exact .inr ⟨t, t', rfl, rfl, hrel⟩

end

def Pair.tokens (m : Pair (List Tok)) : List Tok := [.str m.key, .mark colon] ++ m.val

def objekt (ms : List (Pair (List Tok))) : List Tok :=
  bracketed braceOpen comma braceClose (ms.map Pair.tokens)

/-- A table of bytes read as a table of tokens. -/
abbrev TabRel : List (Pair (List UInt8)) → List (Pair (List Tok)) → Prop :=
  List.Forall₂ (Pair.Rel Gelesen)

def MitgliedStep (cap : Nat) (t : List (Pair (List Tok))) (x : List Tok)
    (t' : List (Pair (List Tok))) : Prop :=
  ∃ m : Pair (List Tok), x = m.tokens ∧ Value json maxDepth m.val ∧
    ablegen cap t m.key m.val = .ok t'

theorem level_kopf (m : Pair (List Tok)) :
    ∀ t ∈ ([.str m.key, .mark colon] : List Tok), t.Level json := by
  intro t ht
  rcases List.mem_cons.mp ht with rfl | ht
  · trivial
  · obtain rfl := List.mem_singleton.mp ht
    exact ⟨by decide, by decide⟩

theorem level_comma : (Token.mark comma).Level json := ⟨by decide, by decide⟩

variable {ms t : List (Pair (List Tok))}

theorem closes_objekt {k : Nat} (hms : ∀ m ∈ ms, Value json k m.val) :
    Closes json (k + 1) [] (objekt ms) :=
  closes_bracketed (f := fun m : Pair (List Tok) => [.str m.key, .mark colon]) (g := Pair.val) (o := braceOpen)
    (c := braceClose) (by decide) level_comma (by decide) (by decide) (fun m _ => level_kopf m) hms

theorem value_of_objekt {k k' : Nat} (hms : ∀ m ∈ ms, Value json k' m.val)
    (h : Closes json (k + 1) [] (objekt ms)) : ∀ m ∈ ms, Value json k m.val :=
  value_of_bracketed (f := fun m : Pair (List Tok) => [.str m.key, .mark colon]) (g := Pair.val) (o := braceOpen)
    (c := braceClose) (by decide) level_comma (fun m _ => level_kopf m) hms h

theorem innen_str (s : List UInt8) : innen ((Token.str s).text json) = s := by
  simp [innen, Token.text]

theorem mitglied_liest (cap : Nat) : Liest (mitglied cap) TabRel (MitgliedStep cap) where
  sound := by
    intro out t d out' r hR hd h
    obtain ⟨⟨k, r₁⟩, hk, h⟩ := bind_eq_ok.mp h
    obtain ⟨s, hs, hkey⟩ := stringSpan_sound hk
    have hcut := (stringSpan_cut hk).eq
    obtain ⟨w, hw, hr₁⟩ := skipWs_split r₁
    dsimp only at hkey hcut h
    split at h
    · cases h
    · next b r₂ hskip =>
      obtain ⟨hb, h⟩ := ite_error_eq_ok.mp h
      obtain rfl : b = colon := by simpa using hb
      obtain ⟨⟨v, r₃⟩, hv, h⟩ := bind_eq_ok.mp h
      obtain ⟨out₁, hout, h⟩ := map_eq_ok.mp h
      cases h
      obtain ⟨x, hx, hvalue, heng⟩ := valueSpan_sound (skipWs_head r₂) hv
      obtain ⟨w', hw', hr₂⟩ := skipWs_split r₂
      have hval := (valueSpan_cut hv).eq
      rw [hkey, innen_str] at hout
      rcases ablegen_rel cap s hR (Gelesen.mk hx heng) with
        ⟨e, he, -⟩ | ⟨t₁, t', ht₁, ht', hrel⟩
      · rw [hout] at he
        cases he
      rw [hout] at ht₁
      cases ht₁
      refine ⟨k ++ (w ++ (colon :: (w' ++ v))), Pair.tokens ⟨s, x⟩, t', ?_, ?_,
        ⟨⟨s, x⟩, rfl, hvalue, ht'⟩, hrel⟩
      · rw [hskip] at hr₁
        rw [← hcut, ← hr₁, ← hr₂, ← hval]
        simp
      · rw [hkey]
        have hcolon := (hx.white hw').token (t := .mark colon) (valid_mark (by decide)) trivial
        exact (hcolon.white hw).token (t := .str s) hs trivial
  complete := by
    intro out t x t' c us d hR hS hc hd h
    obtain ⟨⟨s, x⟩, rfl, hvalue, ht'⟩ := hS
    obtain ⟨r₁, rfl, hs, -, hr₁⟩ := h.uncons hd
    obtain ⟨r₂, hskip, hr₂⟩ := skipWs_mark hr₁
    obtain ⟨v, r, hv, hx, hr, heng⟩ :=
      valueSpan_complete hvalue le_rfl hc (skipWs_head r₂) (spells_skipWs hr₂)
    rcases ablegen_rel cap s hR (Gelesen.mk hx heng) with
      ⟨e, -, he⟩ | ⟨t₁, t₂, ht₁, ht₂, hrel⟩
    · rw [ht'] at he
      cases he
    rw [ht'] at ht₂
    cases ht₂
    refine ⟨t₁, r, ?_, hr, hrel⟩
    unfold mitglied
    rw [stringSpan_complete hs]
    simp only [Except.bind, hskip]
    rw [if_neg (by simp), hv]
    simp only [innen_str, ht₁]
    rfl

theorem folge_mitglied {cap : Nat} {t' : List (Pair (List Tok))} {xs : List (List Tok)} :
    Folge (MitgliedStep cap) t xs t' ↔
      ∃ ms : List (Pair (List Tok)), xs = ms.map Pair.tokens ∧
        (∀ m ∈ ms, Value json maxDepth m.val) ∧ alleAblegen cap t ms = .ok t' := by
  constructor
  · intro h
    induction h with
    | nil => exact ⟨[], rfl, by simp, rfl⟩
    | cons hS hxs ih =>
      obtain ⟨m, rfl, hvalue, hm⟩ := hS
      obtain ⟨ms, rfl, hms, hall⟩ := ih
      refine ⟨m :: ms, rfl, ?_, ?_⟩
      · intro m' hm'
        rcases List.mem_cons.mp hm' with rfl | hm'
        · exact hvalue
        · exact hms m' hm'
      · rw [alleAblegen, hm]
        exact hall
  · rintro ⟨ms, rfl, hms, hall⟩
    induction ms generalizing t with
    | nil =>
      cases hall
      exact .nil _
    | cons m ms ih =>
      obtain ⟨t₁, hm, hall⟩ := bind_eq_ok.mp hall
      exact .cons ⟨m, rfl, hms m List.mem_cons_self, hm⟩
        (ih (fun m hm => hms m (List.mem_cons_of_mem _ hm)) hall)

theorem parseObjectInto_sound {cap k : Nat} {span : List UInt8} {ts : List Tok}
    {out : List (Pair (List UInt8))} (hts : Closes json k [] ts) (hspan : Gelesen span ts)
    (h : parseObjectInto cap span = .ok out) :
    ∃ ms t, ts = objekt ms ∧ (∀ m ∈ ms, Value json maxDepth m.val) ∧
      alleAblegen cap [] ms = .ok t ∧ TabRel out t := by
  obtain ⟨hends, h⟩ := ite_error_eq_ok.mp h
  have hhead : span.head? = some braceOpen := not_not.mp (not_or.mp hends).1
  dsimp only at h
  split at h
  · next hclose =>
    cases h
    exact ⟨[], [], leer_sound (by decide) (by decide) (by decide) hts hspan hhead hclose, by simp,
      rfl, .nil⟩
  · have hcloses : ∀ {t xs t'}, Folge (MitgliedStep cap) t xs t' →
        Closes json (maxDepth + 1) [] (bracketed braceOpen comma braceClose xs) := by
      intro t xs t' hF
      obtain ⟨ms, rfl, hms, -⟩ := folge_mitglied.mp hF
      exact closes_objekt hms
    obtain ⟨xs, t, rfl, hF, hrel⟩ := block_sound (mitglied_liest cap) (by decide) (by decide)
      hcloses hts hspan hhead .nil h
    obtain ⟨ms, rfl, hms, hall⟩ := folge_mitglied.mp hF
    exact ⟨ms, t, rfl, hms, hall, hrel⟩

theorem parseObjectInto_complete {cap : Nat} {span : List UInt8}
    (hspan : Gelesen span (objekt ms)) (hms : ∀ m ∈ ms, Value json maxDepth m.val)
    (hall : alleAblegen cap [] ms = .ok t) :
    ∃ out, parseObjectInto cap span = .ok out ∧ TabRel out t := by
  obtain ⟨hhead, hlast, -, -, -⟩ := gelesen_bracketed hspan
  unfold parseObjectInto
  rw [if_neg (by rw [hhead, hlast]; simp)]
  cases ms with
  | nil =>
    cases hall
    rw [if_pos (leer_complete hspan)]
    exact ⟨[], rfl, .nil⟩
  | cons m ms =>
    have hfirst : (skipWs span.tail).head? = some quote := head_of_block hspan
    rw [if_neg (by rw [hfirst]; decide)]
    exact block_complete (mitglied_liest cap) (by decide) (by decide) hspan .nil
      (folge_mitglied.mpr ⟨m :: ms, rfl, hms, hall⟩)

/-- A text that is accepted is one object, and no value in it has the full depth. -/
theorem topPairs_sound {d : List UInt8} {out : List (Pair (List UInt8))}
    (h : topPairs d = .ok out) :
    ∃ ms t, Spells json d (objekt ms) ∧ (∀ m ∈ ms, Value json (maxDepth - 1) m.val) ∧
      alleAblegen maxTopKeys [] ms = .ok t ∧ TabRel out t := by
  obtain ⟨⟨span, rest⟩, hspan, h⟩ := bind_eq_ok.mp h
  obtain ⟨hrest, h⟩ := ite_error_eq_ok.mp h
  obtain ⟨hopen, h⟩ := ite_error_eq_ok.mp h
  obtain ⟨ts, hts, hvalue, heng⟩ := valueSpan_sound (skipWs_head d) hspan
  have hcut := (valueSpan_cut hspan).eq
  have hhead : span.head? = some braceOpen := by simpa using hopen
  have hcloses := closes_of_head ⟨hts, heng⟩ hvalue hhead (by decide)
  obtain ⟨ms, t, rfl, hms, hall, hrel⟩ := parseObjectInto_sound hcloses ⟨hts, heng⟩ h
  refine ⟨ms, t, ?_, value_of_objekt hms hcloses, hall, hrel⟩
  obtain ⟨w, hw, hd⟩ := skipWs_split d
  obtain ⟨w', hw', hd'⟩ := skipWs_split rest
  have hend : skipWs rest = [] := by simpa using hrest
  rw [hend, List.append_nil] at hd'
  subst hd'
  rw [← hd, ← hcut]
  have hall := hts.append (by simpa using Sharp.white hw' (Sharp.nil (L := json))) (.nil hw')
  rw [List.append_nil] at hall
  exact hall.white hw

theorem topPairs_complete {d : List UInt8} (hd : Spells json d (objekt ms))
    (hms : ∀ m ∈ ms, Value json (maxDepth - 1) m.val)
    (hall : alleAblegen maxTopKeys [] ms = .ok t) : ∃ out, topPairs d = .ok out ∧ TabRel out t := by
  have hcloses : Closes json maxDepth [] (objekt ms) := closes_objekt hms
  have hspells := spells_skipWs hd
  rw [← List.append_nil (objekt ms)] at hspells
  obtain ⟨v, r, hspan, hv, hr, heng⟩ := valueSpan_block hcloses le_rfl (skipWs_head d) hspells
  obtain ⟨out, hout, hrel⟩ :=
    parseObjectInto_complete ⟨hv, heng⟩ (fun m hm => (hms m hm).mono (by decide)) hall
  refine ⟨out, ?_, hrel⟩
  have hrest : skipWs r = [] := by
    unfold skipWs
    rw [List.dropWhile_eq_nil_iff]
    exact hr.all_white
  obtain ⟨hhead, -, -⟩ := gelesen_bracketed ⟨hv, heng⟩
  unfold topPairs
  rw [hspan]
  simp only [Except.bind]
  rw [if_neg (by rw [hrest]; simp), if_neg (by rw [hhead]; simp)]
  exact hout

end Caprock.Lxpd
