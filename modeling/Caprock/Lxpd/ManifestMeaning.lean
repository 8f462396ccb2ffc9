import Caprock.Lxpd.DriverManifest
import Caprock.Lxpd.JsonObjects

/-! # What a manifest says

`Bedeutung` reads the facts off the table of the manifest's tokens, without any text.
`manifestFacts_iff`: the facts that `manifest_facts` finds in a text are those that its tokens
mean.
-/

namespace Caprock.Lxpd

open Checks Spelling

theorem gelesen_token {val : List UInt8} {t : Tok} (h : Gelesen val [t]) : val = t.text json := by
  obtain ⟨d, rfl, -, -, hd⟩ := h.spells.uncons h.eng.head
  cases hlast : d.getLast? with
  | none =>
    obtain rfl := List.getLast?_eq_none_iff.mp hlast
    rw [List.append_nil]
  | some b =>
    have hne : d ≠ [] := by
      rintro rfl
      cases hlast
    have hb := h.eng.last b (by rw [List.getLast?_append_of_ne_nil _ hne]; exact hlast)
    have hwhite : isWs b = true := hd.all_white b (List.mem_of_getLast? hlast)
    rw [hb] at hwhite
    cases hwhite

def NurLiteral {α : Type} (p : List UInt8 → Option α) : Prop :=
  ∀ s x, p s = some x → s ≠ [] ∧ ∀ b ∈ s, isWord b = true

theorem liest_literal {α : Type} {p : List UInt8 → Option α} (hp : NurLiteral p)
    {val : List UInt8} {v : List Tok} (h : Gelesen val v) (x : α) :
    p val = some x ↔ ∃ l, v = [.lit l] ∧ p l = some x := by
  constructor
  · intro hx
    obtain ⟨hne, hword⟩ := hp val x hx
    exact ⟨val, h.spells.eq_lit hne fun b hb => Lexis.plain_of_word (hword b hb), hx⟩
  · rintro ⟨l, rfl, hx⟩
    obtain rfl : val = l := gelesen_token h
    exact hx

theorem isWord_of_isDigit {b : UInt8} (h : isDigit b = true) : isWord b = true := by
  have hdigit : (0x30 ≤ b && b ≤ 0x39) = true := h
  simp [isWord, isAlphanumeric, hdigit]

theorem ziffern_digits {grenze v n : Nat} {s : List UInt8} (h : ziffern grenze v s = some n) :
    ∀ b ∈ s, isDigit b = true := by
  induction s generalizing v with
  | nil => exact fun b hb => by cases hb
  | cons c s ih =>
    rw [ziffern] at h
    split at h
    · cases h
    · next hdigit =>
      split at h
      · cases h
      split at h
      · cases h
      intro b hb
      rcases List.mem_cons.mp hb with rfl | hb
      · exact Bool.eq_true_of_not_eq_false hdigit
      · exact ih h b hb

theorem parseDezimal_literal (grenze : Nat) : NurLiteral (parseDezimal grenze) := by
  intro s n h
  unfold parseDezimal at h
  split at h
  · cases h
  · next hne => exact ⟨hne, fun b hb => isWord_of_isDigit (ziffern_digits h b hb)⟩

theorem NurLiteral.map {α β : Type} {p : List UInt8 → Option α} (hp : NurLiteral p) (f : α → β) :
    NurLiteral fun s => (p s).map f := by
  intro s y h
  obtain ⟨x, hx, -⟩ := Option.map_eq_some_iff.mp h
  exact hp s x hx

theorem parseU32_literal : NurLiteral parseU32 := (parseDezimal_literal _).map _

theorem parseU64_literal : NurLiteral parseU64 := (parseDezimal_literal _).map _

section

variable {F : Type} {A : Gleitkomma F}

def Vorn (s r : List UInt8) : Prop := ∃ u, s = u ++ r ∧ ∀ b ∈ u, isWord b = true

theorem Vorn.refl (s : List UInt8) : Vorn s s := ⟨[], rfl, by simp⟩

theorem Vorn.cons {b : UInt8} {s r : List UInt8} (hb : isWord b = true) (h : Vorn s r) :
    Vorn (b :: s) r := by
  obtain ⟨u, rfl, hu⟩ := h
  exact ⟨b :: u, rfl, by simpa [hb] using hu⟩

theorem Vorn.trans {s r q : List UInt8} (h : Vorn s r) (h' : Vorn r q) : Vorn s q := by
  obtain ⟨u, rfl, hu⟩ := h
  obtain ⟨u', rfl, hu'⟩ := h'
  refine ⟨u ++ u', by simp, fun b hb => ?_⟩
  rcases List.mem_append.mp hb with hb | hb
  · exact hu b hb
  · exact hu' b hb

theorem vorn_ziffernfolge {s : List UInt8} {x : Span} (h : ziffernfolge s = some x) :
    Vorn s x.2 := by
  unfold ziffernfolge at h
  split at h
  · cases h
  · cases h
    refine ⟨s.takeWhile isDigit, List.takeWhile_append_dropWhile.symm, fun b hb => ?_⟩
    exact isWord_of_isDigit (List.all_eq_true.mp List.all_takeWhile b hb)

theorem ziffernfolge_ne_nil {s : List UInt8} {x : Span} (h : ziffernfolge s = some x) :
    s ≠ [] := by
  rintro rfl
  cases h

theorem vorn_bruch {v : F} {s : List UInt8} {x : F × List UInt8} (h : bruch A v s = some x) :
    Vorn s x.2 := by
  unfold bruch at h
  split at h
  · obtain ⟨y, hy, rfl⟩ := Option.map_eq_some_iff.mp h
    exact (vorn_ziffernfolge hy).cons (by decide)
  · cases h
    exact Vorn.refl s

theorem vorn_vorzeichen (s : List UInt8) : Vorn s (exponentVorzeichen s).2 := by
  unfold exponentVorzeichen
  split
  · exact (Vorn.refl _).cons (by decide)
  · exact (Vorn.refl _).cons (by decide)
  · exact Vorn.refl _

theorem vorn_exponent {v : F} {s : List UInt8} {x : F × List UInt8}
    (h : exponent A v s = some x) : Vorn s x.2 := by
  unfold exponent at h
  split at h
  · cases h
    exact Vorn.refl _
  · next e s =>
    split at h
    · next he =>
      obtain ⟨y, hy, h⟩ := Option.bind_eq_some_iff.mp h
      obtain ⟨exp, -, rfl⟩ := Option.map_eq_some_iff.mp h
      have hword : isWord e = true := by
        rcases he with rfl | rfl <;> decide
      exact ((vorn_vorzeichen s).trans (vorn_ziffernfolge hy)).cons hword
    · cases h
      exact Vorn.refl _

theorem parseF64_literal : NurLiteral (parseF64 A) := by
  intro s x h
  obtain ⟨⟨folge, s₁⟩, hfolge, h⟩ := Option.bind_eq_some_iff.mp h
  obtain ⟨⟨v, s₂⟩, hbruch, h⟩ := Option.bind_eq_some_iff.mp h
  obtain ⟨⟨v', s₃⟩, hexp, h⟩ := Option.bind_eq_some_iff.mp h
  have hend : s₃ = [] := by
    by_contra hne
    dsimp only at h
    rw [if_pos hne] at h
    cases h
  subst hend
  have hrest := ((vorn_ziffernfolge hfolge).trans (vorn_bruch hbruch)).trans (vorn_exponent hexp)
  have hvorn : Vorn s [] := by
    split at hrest
    · next hneg =>
      cases s with
      | nil => cases hneg
      | cons b s =>
        obtain rfl : b = 0x2D := by simpa using hneg
        exact hrest.cons (by decide)
    · exact hrest
  obtain ⟨u, rfl, hu⟩ := hvorn
  refine ⟨?_, by simpa using hu⟩
  have hne := ziffernfolge_ne_nil hfolge
  rintro hnil
  rw [hnil] at hne
  exact hne (by split <;> rfl)

end

theorem isQuoted_text (s : List UInt8) : isQuoted ((Token.str s).text json) = true := by
  have htext : (Token.str s).text json = (quote :: s) ++ [quote] := rfl
  have hlen : 2 ≤ ((quote :: s) ++ [quote]).length := by simp
  unfold isQuoted
  rw [htext, List.getLast?_concat]
  simp only [Bool.and_eq_true, decide_eq_true_eq]
  exact ⟨⟨hlen, rfl⟩, by decide⟩

variable {v : List Tok} {xs : List (List Tok)} {t : List (Pair (List Tok))}

/-- A value in quotation marks is one string. -/
theorem isQuoted_iff {k : Nat} {val : List UInt8} (h : Gelesen val v) (hv : Value json k v) :
    isQuoted val = true ↔ ∃ s, v = [.str s] := by
  constructor
  · intro hquoted
    have hhead : val.head? = some quote := by
      unfold isQuoted at hquoted
      simp only [Bool.and_eq_true, beq_iff_eq] at hquoted
      exact hquoted.1.2
    cases hv with
    | str s => exact ⟨s, rfl⟩
    | @lits ls hne hword =>
      cases ls with
      | nil => exact absurd rfl hne
      | cons l ls =>
        obtain ⟨d, rfl, hl, -, -⟩ := h.spells.uncons h.eng.head
        rw [List.head?_append_of_ne_nil _ hl.text_ne_nil] at hhead
        have hbad := hword l List.mem_cons_self quote (List.mem_of_head? hhead)
        exact absurd hbad (by decide)
    | block hts =>
      cases hts with
      | level _ hst => exact absurd rfl hst
      | opn hb _ _ =>
        obtain ⟨d, rfl, -, -, -⟩ := h.spells.uncons h.eng.head
        have hb' := Option.some.inj hhead
        rw [hb'] at hb
        exact absurd hb (by decide)
  · rintro ⟨s, rfl⟩
    rw [gelesen_token h]
    exact isQuoted_text s

theorem find_rel {β γ : Type} {R : β → γ → Prop} {out : List (Pair β)} {t : List (Pair γ)}
    (h : List.Forall₂ (Pair.Rel R) out t) (key : List UInt8) :
    find out key = none ∧ find t key = none ∨
      ∃ x y, find out key = some x ∧ find t key = some y ∧ R x y := by
  induction h with
  | nil => exact .inl ⟨rfl, rfl⟩
  | @cons p q out t hp h ih =>
    by_cases hkey : p.key = key
    · have hkey' : q.key = key := hp.key ▸ hkey
      refine .inr ⟨p.val, q.val, ?_, ?_, hp.val⟩
      · simp [find, hkey]
      · simp [find, hkey']
    · have hkey' : q.key ≠ key := hp.key ▸ hkey
      simpa [find, hkey, hkey'] using ih

theorem mem_of_find {β : Type} {t : List (Pair β)} {key : List UInt8} {v : β}
    (h : find t key = some v) : ⟨key, v⟩ ∈ t := by
  obtain ⟨p, hp, rfl⟩ := Option.map_eq_some_iff.mp h
  have hkey : p.key = key := by simpa using List.find?_some hp
  rw [← hkey]
  exact List.mem_of_find?_eq_some hp

/-- The field `size` of an object. -/
def Groesse (v : List Tok) (g : UInt64) : Prop :=
  ∃ ms t l, v = objekt ms ∧ (∀ m ∈ ms, Value json maxDepth m.val) ∧
    alleAblegen maxNestKeys [] ms = .ok t ∧ find t fSize = some [.lit l] ∧ parseU64 l = some g

theorem groesse_iff {val : List UInt8} (h : Gelesen val v) (hv : Value json maxDepth v)
    (g : UInt64) : groesse val = some g ↔ Groesse v g := by
  unfold groesse
  constructor
  · intro hg
    split at hg
    · cases hg
    · next nest hnest =>
      have hhead : val.head? = some braceOpen :=
        not_not.mp (not_or.mp (ite_error_eq_ok.mp hnest).1).1
      have hcloses := closes_of_head h hv hhead (by decide)
      obtain ⟨ms, t, rfl, hms, hall, hrel⟩ := parseObjectInto_sound hcloses h hnest
      obtain ⟨x, hx, hg⟩ := Option.bind_eq_some_iff.mp hg
      rcases find_rel hrel fSize with ⟨hnone, -⟩ | ⟨x', y, hx', hy, hR⟩
      · rw [hx] at hnone
        cases hnone
      · rw [hx] at hx'
        cases hx'
        obtain ⟨l, rfl, hl⟩ := (liest_literal parseU64_literal hR g).mp hg
        exact ⟨ms, t, l, rfl, hms, hall, hy, hl⟩
  · rintro ⟨ms, t, l, rfl, hms, hall, hfind, hl⟩
    obtain ⟨nest, hnest, hrel⟩ := parseObjectInto_complete h hms hall
    rw [hnest]
    rcases find_rel hrel fSize with ⟨-, hnone⟩ | ⟨x, y, hx, hy, hR⟩
    · rw [hfind] at hnone
      cases hnone
    · rw [hfind] at hy
      cases hy
      simp only [hx, Option.bind_some]
      exact (liest_literal parseU64_literal hR g).mpr ⟨l, rfl, hl⟩

def liste (xs : List (List Tok)) : List Tok := bracketed bracketOpen comma bracketClose xs

theorem closes_liste {k : Nat} (hxs : ∀ x ∈ xs, Value json k x) :
    Closes json (k + 1) [] (liste xs) := by
  have h := closes_bracketed (f := fun _ : List Tok => []) (g := id) (o := bracketOpen)
    (c := bracketClose) (by decide) level_comma (by decide) (by decide) (fun m _ => by simp) hxs
  simpa [liste] using h

theorem value_head_not_close {k : Nat} {x : List Tok} {span : List UInt8} (hx : Value json k x)
    (h : Gelesen span (liste (x :: xs))) : (skipWs span.tail).head? ≠ some bracketClose := by
  cases hx with
  | str s =>
    have hhead : (skipWs span.tail).head? = some quote := head_of_block h
    rw [hhead]
    decide
  | @lits ls hne hword =>
    cases ls with
    | nil => exact absurd rfl hne
    | cons l ls =>
      have hhead : (skipWs span.tail).head? = l.head? := head_of_block (t := .lit l) h
      rw [hhead]
      intro hclose
      have hbad := hword l List.mem_cons_self _ (List.mem_of_head? hclose)
      exact absurd hbad (by decide)
  | block hts =>
    cases hts with
    | level _ hst => exact absurd rfl hst
    | @opn b _ _ hb _ _ =>
      have hhead : (skipWs span.tail).head? = some b := head_of_block (t := .mark b) h
      rw [hhead]
      rintro hclose
      cases hclose
      exact absurd hb (by decide)

def IstStub (x : List Tok) : Prop := ∃ s, x = [.str s] ∧ containsArrow s = true

def StubStep (n : Nat) (x : List Tok) (n' : Nat) : Prop :=
  n < maxItems ∧ IstStub x ∧ n' = n + 1

theorem stubname_liest : Liest stubname Eq StubStep where
  sound := by
    rintro n _ d n' r rfl hd h
    obtain ⟨hn, h⟩ := ite_error_eq_ok.mp h
    obtain ⟨⟨item, r⟩, hspan, h⟩ := bind_eq_ok.mp h
    obtain ⟨hquoted, h⟩ := ite_error_eq_ok.mp h
    obtain ⟨harrow, h⟩ := ite_error_eq_ok.mp h
    cases h
    obtain ⟨x, hx, hvalue, heng⟩ := valueSpan_sound hd hspan
    obtain ⟨s, rfl⟩ :=
      (isQuoted_iff ⟨hx, heng⟩ hvalue).mp (Bool.eq_true_of_not_eq_false hquoted)
    refine ⟨item, [.str s], n + 1, (valueSpan_cut hspan).eq, hx, ⟨Nat.not_le.mp hn, ⟨s, rfl, ?_⟩,
      rfl⟩, rfl⟩
    have hitem : item = _ := gelesen_token ⟨hx, heng⟩
    rw [hitem, innen_str] at harrow
    exact Bool.eq_true_of_not_eq_false harrow
  complete := by
    rintro n _ x n' c us d rfl ⟨hn, ⟨s, rfl, harrow⟩, rfl⟩ hc hd h
    obtain ⟨v, r, hspan, hv, hr, heng⟩ :=
      valueSpan_complete (k := maxDepth) (.str s) le_rfl hc hd h
    obtain rfl : v = _ := gelesen_token ⟨hv, heng⟩
    refine ⟨n + 1, r, ?_, hr, rfl⟩
    unfold stubname
    rw [if_neg (Nat.not_le.mpr hn), hspan]
    simp only [Except.bind]
    rw [if_neg (by rw [isQuoted_text]; decide), if_neg (by rw [innen_str, harrow]; decide)]

theorem folge_stub {n n' : Nat} :
    Folge StubStep n xs n' ↔
      (∀ x ∈ xs, IstStub x) ∧ n' = n + xs.length ∧ (xs = [] ∨ n' ≤ maxItems) := by
  constructor
  · intro h
    induction h with
    | nil n => exact ⟨by simp, rfl, .inl rfl⟩
    | @cons a b c x xs hS hxs ih =>
      obtain ⟨hn, hx, rfl⟩ := hS
      obtain ⟨hall, rfl, hle⟩ := ih
      refine ⟨?_, by simp only [List.length_cons]; omega, .inr ?_⟩
      · intro y hy
        rcases List.mem_cons.mp hy with rfl | hy
        · exact hx
        · exact hall y hy
      · rcases hle with rfl | hle
        · exact hn
        · exact hle
  · rintro ⟨hall, rfl, hle⟩
    induction xs generalizing n with
    | nil => exact .nil _
    | cons x xs ih =>
      have hbound := hle.resolve_left (List.cons_ne_nil _ _)
      simp only [List.length_cons] at hbound
      have hrest := ih (n := n + 1) (fun y hy => hall y (List.mem_cons_of_mem _ hy))
        (.inr (by omega))
      rw [show n + (x :: xs).length = n + 1 + xs.length by simp only [List.length_cons]; omega]
      exact .cons ⟨by omega, hall x List.mem_cons_self, rfl⟩ hrest

/-- The array of stub names. -/
def Stubs (xs : List (List Tok)) : Prop := xs.length ≤ maxItems ∧ ∀ x ∈ xs, IstStub x

theorem value_of_stub {x : List Tok} (h : IstStub x) : Value json maxDepth x := by
  obtain ⟨s, rfl, -⟩ := h
  exact .str s

theorem countArrowStrings_iff {val : List UInt8} (h : Gelesen val v) (hv : Value json maxDepth v)
    (n : Nat) : countArrowStrings val = .ok n ↔ ∃ xs, v = liste xs ∧ Stubs xs ∧ n = xs.length := by
  constructor
  · intro hn
    obtain ⟨hhead, hn⟩ := ite_error_eq_ok.mp hn
    have hhead : val.head? = some bracketOpen := not_not.mp hhead
    have hcloses := closes_of_head h hv hhead (by decide)
    dsimp only at hn
    split at hn
    · next hclose =>
      cases hn
      exact ⟨[], leer_sound (by decide) (by decide) (by decide) hcloses h hhead hclose,
        ⟨by decide, by simp⟩, rfl⟩
    · have hitems : ∀ {a xs a'}, Folge StubStep a xs a' →
          Closes json (maxDepth + 1) [] (bracketed bracketOpen comma bracketClose xs) :=
        fun hF => closes_liste fun x hx => value_of_stub ((folge_stub.mp hF).1 x hx)
      obtain ⟨xs, n', rfl, hF, rfl⟩ := block_sound stubname_liest (by decide) (by decide) hitems
        hcloses h hhead rfl hn
      obtain ⟨hall, rfl, hle⟩ := folge_stub.mp hF
      refine ⟨xs, rfl, ⟨?_, hall⟩, by omega⟩
      rcases hle with rfl | hle
      · decide
      · omega
  · rintro ⟨xs, rfl, ⟨hle, hall⟩, rfl⟩
    obtain ⟨hhead, -, -⟩ := gelesen_bracketed h
    unfold countArrowStrings
    rw [if_neg (by rw [hhead]; simp)]
    cases xs with
    | nil => rw [if_pos (leer_complete h)]; rfl
    | cons x xs =>
      rw [if_neg (value_head_not_close (value_of_stub (hall x List.mem_cons_self)) h)]
      have hF : Folge StubStep 0 (x :: xs) (0 + (x :: xs).length) :=
        folge_stub.mpr ⟨hall, rfl, .inr (by omega)⟩
      obtain ⟨n, hloop, rfl⟩ := block_complete stubname_liest (by decide) (by decide) h rfl hF
      rw [hloop, Nat.zero_add]

def HatGroesse (x : List Tok) : Prop := ∃ g, 0 < g ∧ Groesse x g

def BarStep (a : Nat × Nat) (x : List Tok) (a' : Nat × Nat) : Prop :=
  a.1 < maxItems ∧ Value json maxDepth x ∧ a'.1 = a.1 + 1 ∧
    (HatGroesse x ∧ a'.2 = a.2 + 1 ∨ ¬ HatGroesse x ∧ a'.2 = a.2)

theorem groesse_any_iff {val : List UInt8} (h : Gelesen val v) (hv : Value json maxDepth v) :
    (groesse val).any (0 < ·) = true ↔ HatGroesse v := by
  rw [Option.any_eq_true]
  constructor
  · rintro ⟨g, hg, hpos⟩
    exact ⟨g, of_decide_eq_true hpos, (groesse_iff h hv g).mp hg⟩
  · rintro ⟨g, hpos, hg⟩
    exact ⟨g, (groesse_iff h hv g).mpr hg, decide_eq_true hpos⟩

theorem barEintrag_liest : Liest barEintrag Eq BarStep where
  sound := by
    rintro a _ d a' r rfl hd h
    obtain ⟨hn, h⟩ := ite_error_eq_ok.mp h
    split at h
    · cases h
    · next item r hspan =>
      cases h
      obtain ⟨x, hx, hvalue, heng⟩ := valueSpan_sound hd hspan
      have hgroesse := groesse_any_iff ⟨hx, heng⟩ hvalue
      refine ⟨item, x, _, (valueSpan_cut hspan).eq, hx, ⟨Nat.not_le.mp hn, hvalue, rfl, ?_⟩, rfl⟩
      by_cases hany : (groesse item).any (0 < ·) = true
      · exact .inl ⟨hgroesse.mp hany, if_pos hany⟩
      · exact .inr ⟨fun hx => hany (hgroesse.mpr hx), if_neg hany⟩
  complete := by
    rintro a _ x a' c us d rfl ⟨hn, hvalue, hcount, hsize⟩ hc hd h
    obtain ⟨v, r, hspan, hv, hr, heng⟩ := valueSpan_complete hvalue le_rfl hc hd h
    have hgroesse := groesse_any_iff ⟨hv, heng⟩ hvalue
    refine ⟨a', r, ?_, hr, rfl⟩
    unfold barEintrag
    rw [if_neg (Nat.not_le.mpr hn), hspan]
    dsimp only
    obtain ⟨n, m⟩ := a'
    obtain rfl : n = a.1 + 1 := hcount
    rcases hsize with ⟨hx, rfl⟩ | ⟨hx, rfl⟩
    · rw [if_pos (hgroesse.mpr hx)]
    · rw [if_neg fun hany => hx (hgroesse.mp hany)]

theorem folge_bar {a a' : Nat × Nat} (h : Folge BarStep a xs a') :
    (∀ x ∈ xs, Value json maxDepth x) ∧ a'.1 = a.1 + xs.length ∧ (xs = [] ∨ a'.1 ≤ maxItems) ∧
      a.2 ≤ a'.2 ∧ (a.2 < a'.2 ↔ ∃ x ∈ xs, HatGroesse x) := by
  induction h with
  | nil a => exact ⟨by simp, rfl, .inl rfl, le_rfl, by simp⟩
  | @cons a b c x xs hS hxs ih =>
    obtain ⟨hn, hvalue, hcount, hsize⟩ := hS
    obtain ⟨hall, hlen, hle, hmono, hiff⟩ := ih
    refine ⟨?_, by simp only [List.length_cons]; omega, .inr ?_, by omega, ?_⟩
    · intro y hy
      rcases List.mem_cons.mp hy with rfl | hy
      · exact hvalue
      · exact hall y hy
    · rcases hle with rfl | hle
      · simp only [List.length_nil] at hlen
        omega
      · exact hle
    · simp only [List.mem_cons, exists_eq_or_imp, ← hiff]
      rcases hsize with ⟨hx, hm⟩ | ⟨hx, hm⟩
      · simp only [hx, true_or, iff_true]
        omega
      · simp only [hx, false_or]
        omega

theorem exists_folge_bar (hall : ∀ x ∈ xs, Value json maxDepth x) (a : Nat × Nat)
    (hle : a.1 + xs.length ≤ maxItems) : ∃ a', Folge BarStep a xs a' := by
  induction xs generalizing a with
  | nil => exact ⟨a, .nil a⟩
  | cons x xs ih =>
    simp only [List.length_cons] at hle
    have hvalue := hall x List.mem_cons_self
    have hrest := ih fun y hy => hall y (List.mem_cons_of_mem _ hy)
    by_cases hx : HatGroesse x
    · obtain ⟨a', hF⟩ := hrest (a.1 + 1, a.2 + 1) (by dsimp only; omega)
      exact ⟨a', .cons ⟨by omega, hvalue, rfl, .inl ⟨hx, rfl⟩⟩ hF⟩
    · obtain ⟨a', hF⟩ := hrest (a.1 + 1, a.2) (by dsimp only; omega)
      exact ⟨a', .cons (b := (a.1 + 1, a.2)) ⟨by omega, hvalue, rfl, .inr ⟨hx, rfl⟩⟩ hF⟩

structure Bars (xs : List (List Tok)) : Prop where
  length_le : xs.length ≤ maxItems
  value : ∀ x ∈ xs, Value json maxDepth x
  groesse : ∃ x ∈ xs, HatGroesse x

theorem checkBars_iff {val : List UInt8} (h : Gelesen val v) (hv : Value json maxDepth v)
    (n : Nat) : checkBars val = .ok n ↔ ∃ xs, v = liste xs ∧ Bars xs ∧ n = xs.length := by
  constructor
  · intro hn
    obtain ⟨hhead, hn⟩ := ite_error_eq_ok.mp hn
    have hhead : val.head? = some bracketOpen := not_not.mp hhead
    have hcloses := closes_of_head h hv hhead (by decide)
    obtain ⟨hfirst, hn⟩ := ite_error_eq_ok.mp hn
    obtain ⟨a, hloop, hn⟩ := bind_eq_ok.mp hn
    obtain ⟨hsome, hn⟩ := ite_error_eq_ok.mp hn
    cases hn
    have hitems : ∀ {a xs a'}, Folge BarStep a xs a' →
        Closes json (maxDepth + 1) [] (bracketed bracketOpen comma bracketClose xs) :=
      fun hF => closes_liste (folge_bar hF).1
    obtain ⟨xs, a', rfl, hF, rfl⟩ := block_sound barEintrag_liest (by decide) (by decide) hitems
      hcloses h hhead rfl hloop
    obtain ⟨hall, hlen, hle, -, hiff⟩ := folge_bar hF
    refine ⟨xs, rfl, ⟨?_, hall, hiff.mp (Nat.pos_of_ne_zero hsome)⟩, by omega⟩
    rcases hle with rfl | hle
    · decide
    · omega
  · rintro ⟨xs, rfl, ⟨hle, hall, hsize⟩, rfl⟩
    obtain ⟨hhead, -, -⟩ := gelesen_bracketed h
    cases xs with
    | nil =>
      obtain ⟨x, hx, -⟩ := hsize
      cases hx
    | cons x xs =>
      obtain ⟨a, hF⟩ := exists_folge_bar hall (0, 0) (by simpa using hle)
      obtain ⟨-, hlen, -, -, hiff⟩ := folge_bar hF
      have hpos := hiff.mpr hsize
      obtain ⟨a', hloop, rfl⟩ := block_complete barEintrag_liest (by decide) (by decide) h rfl hF
      unfold checkBars
      rw [if_neg (by rw [hhead]; simp)]
      rw [if_neg (value_head_not_close (hall x List.mem_cons_self) h), hloop]
      simp only [Except.bind]
      rw [if_neg (Nat.pos_iff_ne_zero.mp hpos), hlen, Nat.zero_add]

structure Bedeutung {F : Type} (A : Gleitkomma F) (t : List (Pair (List Tok)))
    (f : ManifestFacts F) : Prop where
  schemaVersion : f.schemaVersion = manifestSchemaVersion
  fassung : ∃ l, find t fSchemaVersion = some [.lit l] ∧ parseU32 l = some manifestSchemaVersion
  treiber : ∃ s, find t fDriver = some [.str s] ∧ s ≠ []
  deckung : ∃ l, find t fCoverage = some [.lit l] ∧ parseF64 A l = some f.coveragePct
  voll : A.eq f.coveragePct A.hundred = true
  bars : ∃ xs, find t fGrantsBar = some (liste xs) ∧ Bars xs ∧ f.bars = xs.length
  dma : ∃ v, find t fDmaWindow = some v ∧ Groesse v f.dmaSize
  dma_ne : f.dmaSize ≠ 0
  irq : ∃ l, find t fIrqVector = some [.lit l] ∧ parseU32 l = some f.irq
  irq_ne : f.irq ≠ 0
  stubs : ∃ xs, find t fTrampolines = some (liste xs) ∧ Stubs xs ∧ f.trampolineNames = xs.length
  signatur : f.signaturePresent = true ↔ ∃ s, find t fSignature = some [.str s] ∧ s ≠ []

theorem isQuoted_length {k : Nat} {val : List UInt8} (h : Gelesen val v) (hv : Value json k v) :
    isQuoted val = true ∧ val.length ≠ 2 ↔ ∃ s, v = [.str s] ∧ s ≠ [] := by
  rw [isQuoted_iff h hv]
  constructor
  · rintro ⟨⟨s, rfl⟩, hlen⟩
    refine ⟨s, rfl, ?_⟩
    rintro rfl
    rw [gelesen_token h] at hlen
    exact hlen rfl
  · rintro ⟨s, rfl, hne⟩
    refine ⟨⟨s, rfl⟩, ?_⟩
    rw [gelesen_token h]
    have hpos := List.length_pos_of_ne_nil hne
    simp only [Token.text, List.length_cons, List.length_append, List.length_nil]
    omega

theorem exists_find_iff {out : List (Pair (List UInt8))} (hrel : TabRel out t)
    (hval : ∀ p ∈ t, Value json maxDepth p.val) {P : List UInt8 → Prop} {Q : List Tok → Prop}
    (h : ∀ val v, Gelesen val v → Value json maxDepth v → (P val ↔ Q v)) (key : List UInt8) :
    (∃ val, find out key = some val ∧ P val) ↔ ∃ v, find t key = some v ∧ Q v := by
  rcases find_rel hrel key with ⟨hnone, hnone'⟩ | ⟨x, y, hx, hy, hR⟩
  · simp [hnone, hnone']
  · have hiff := h x y hR (hval _ (mem_of_find hy))
    simp only [hx, hy, Option.some.injEq, exists_eq_left', hiff]

theorem literal_iff {α : Type} {p : List UInt8 → Option α} (hp : NurLiteral p) (x : α)
    {out : List (Pair (List UInt8))} (hrel : TabRel out t)
    (hval : ∀ p ∈ t, Value json maxDepth p.val) (key : List UInt8) :
    (∃ val, find out key = some val ∧ p val = some x) ↔
      ∃ l, find t key = some [.lit l] ∧ p l = some x := by
  rw [exists_find_iff hrel hval (fun val v h _ => liest_literal hp h x) key]
  constructor
  · rintro ⟨v, hv, l, rfl, hl⟩
    exact ⟨l, hv, hl⟩
  · rintro ⟨l, hv, hl⟩
    exact ⟨_, hv, l, rfl, hl⟩

theorem wort_iff {out : List (Pair (List UInt8))} (hrel : TabRel out t)
    (hval : ∀ p ∈ t, Value json maxDepth p.val) (key : List UInt8) :
    (∃ val, find out key = some val ∧ isQuoted val = true ∧ val.length ≠ 2) ↔
      ∃ s, find t key = some [.str s] ∧ s ≠ [] := by
  rw [exists_find_iff hrel hval (fun val v h hv => isQuoted_length h hv) key]
  constructor
  · rintro ⟨v, hv, s, rfl, hs⟩
    exact ⟨s, hv, hs⟩
  · rintro ⟨s, hv, hs⟩
    exact ⟨_, hv, s, rfl, hs⟩

theorem liste_iff {p : List UInt8 → Except LxpdError Nat} {P : List (List Tok) → Prop}
    (hp : ∀ val v, Gelesen val v → Value json maxDepth v → ∀ n,
      p val = .ok n ↔ ∃ xs, v = liste xs ∧ P xs ∧ n = xs.length) {out : List (Pair (List UInt8))}
    (hrel : TabRel out t) (hval : ∀ p ∈ t, Value json maxDepth p.val) (key : List UInt8) (n : Nat) :
    (∃ val, find out key = some val ∧ p val = .ok n) ↔
      ∃ xs, find t key = some (liste xs) ∧ P xs ∧ n = xs.length := by
  rw [exists_find_iff hrel hval (fun val v h hv => hp val v h hv n) key]
  constructor
  · rintro ⟨v, hv, xs, rfl, hxs⟩
    exact ⟨xs, hv, hxs⟩
  · rintro ⟨xs, hv, hxs⟩
    exact ⟨_, hv, xs, rfl, hxs⟩

theorem signaturePresent_iff {out : List (Pair (List UInt8))} :
    ((find out fSignature).any fun s => isQuoted s && decide (2 < s.length)) = true ↔
      ∃ val, find out fSignature = some val ∧ isQuoted val = true ∧ val.length ≠ 2 := by
  rw [Option.any_eq_true]
  constructor
  · rintro ⟨val, hval, h⟩
    simp only [Bool.and_eq_true, decide_eq_true_eq] at h
    exact ⟨val, hval, h.1, by omega⟩
  · rintro ⟨val, hval, hquoted, hlen⟩
    refine ⟨val, hval, ?_⟩
    have hmin : 2 ≤ val.length := by
      unfold isQuoted at hquoted
      simp only [Bool.and_eq_true, decide_eq_true_eq] at hquoted
      exact hquoted.1.1
    simp only [Bool.and_eq_true, decide_eq_true_eq]
    exact ⟨hquoted, by omega⟩

/-- The facts of a text are what its table means. -/
theorem manifestFacts_iff {F : Type} {A : Gleitkomma F} {d : List UInt8}
    {out : List (Pair (List UInt8))} (hout : topPairs d = .ok out) (hrel : TabRel out t)
    (hval : ∀ p ∈ t, Value json maxDepth p.val) (f : ManifestFacts F) :
    manifestFacts A d = .ok f ↔ Bedeutung A t f := by
  have hstubs := liste_iff (fun _ _ h hv => countArrowStrings_iff h hv) hrel hval fTrampolines
  have hbars := liste_iff (fun _ _ h hv => checkBars_iff h hv) hrel hval fGrantsBar
  have hdma := fun g => exists_find_iff hrel hval (fun _ _ h hv => groesse_iff h hv g) fDmaWindow
  have hirq := fun x => literal_iff parseU32_literal x hrel hval fIrqVector
  have hfassung := fun x => literal_iff parseU32_literal x hrel hval fSchemaVersion
  have hdeckung := fun x => literal_iff (parseF64_literal (A := A)) x hrel hval fCoverage
  constructor
  · intro h
    obtain ⟨out', hout', h⟩ := bind_eq_ok.mp h
    rw [hout] at hout'
    cases hout'
    obtain ⟨val₁, hval₁, h⟩ := bind_eq_ok.mp h
    obtain ⟨version, hversion, h⟩ := bind_eq_ok.mp h
    obtain ⟨hone, h⟩ := ite_error_eq_ok.mp h
    obtain ⟨val₂, hval₂, h⟩ := bind_eq_ok.mp h
    obtain ⟨hquoted, h⟩ := ite_error_eq_ok.mp h
    obtain ⟨val₃, hval₃, h⟩ := bind_eq_ok.mp h
    obtain ⟨coverage, hcoverage, h⟩ := bind_eq_ok.mp h
    obtain ⟨hfull, h⟩ := ite_error_eq_ok.mp h
    obtain ⟨val₄, hval₄, h⟩ := bind_eq_ok.mp h
    obtain ⟨bars, hbars', h⟩ := bind_eq_ok.mp h
    obtain ⟨val₅, hval₅, h⟩ := bind_eq_ok.mp h
    obtain ⟨dma, hdma', h⟩ := bind_eq_ok.mp h
    obtain ⟨hdma_ne, h⟩ := ite_error_eq_ok.mp h
    obtain ⟨val₆, hval₆, h⟩ := bind_eq_ok.mp h
    obtain ⟨irq, hirq', h⟩ := bind_eq_ok.mp h
    obtain ⟨hirq_ne, h⟩ := ite_error_eq_ok.mp h
    obtain ⟨val₇, hval₇, h⟩ := bind_eq_ok.mp h
    obtain ⟨n, hn, h⟩ := bind_eq_ok.mp h
    cases h
    rw [okOr_eq_ok] at hval₁ hversion hval₂ hval₃ hcoverage hval₄ hval₅ hdma' hval₆ hirq' hval₇
    obtain rfl : version = manifestSchemaVersion := not_not.mp hone
    obtain ⟨hq, hlen⟩ := not_or.mp hquoted
    exact {
      schemaVersion := rfl
      fassung := (hfassung _).mp ⟨val₁, hval₁, hversion⟩
      treiber := (wort_iff hrel hval _).mp ⟨val₂, hval₂, Bool.eq_true_of_not_eq_false hq, hlen⟩
      deckung := (hdeckung _).mp ⟨val₃, hval₃, hcoverage⟩
      voll := Bool.eq_true_of_not_eq_false hfull
      bars := (hbars _).mp ⟨val₄, hval₄, hbars'⟩
      dma := (hdma _).mp ⟨val₅, hval₅, hdma'⟩
      dma_ne := hdma_ne
      irq := (hirq _).mp ⟨val₆, hval₆, hirq'⟩
      irq_ne := hirq_ne
      stubs := (hstubs _).mp ⟨val₇, hval₇, hn⟩
      signatur := signaturePresent_iff.trans (wort_iff hrel hval _) }
  · intro h
    obtain ⟨val₁, hval₁, hversion⟩ := (hfassung _).mpr h.fassung
    obtain ⟨val₂, hval₂, hquoted, hlen⟩ := (wort_iff hrel hval _).mpr h.treiber
    obtain ⟨val₃, hval₃, hcoverage⟩ := (hdeckung _).mpr h.deckung
    obtain ⟨val₄, hval₄, hbars'⟩ := (hbars _).mpr h.bars
    obtain ⟨val₅, hval₅, hdma'⟩ := (hdma _).mpr h.dma
    obtain ⟨val₆, hval₆, hirq'⟩ := (hirq _).mpr h.irq
    obtain ⟨val₇, hval₇, hn⟩ := (hstubs _).mpr h.stubs
    refine bind_eq_ok.mpr ⟨out, hout, ?_⟩
    refine bind_eq_ok.mpr ⟨val₁, okOr_eq_ok.mpr hval₁, ?_⟩
    refine bind_eq_ok.mpr ⟨_, okOr_eq_ok.mpr hversion, ?_⟩
    refine ite_error_eq_ok.mpr ⟨not_not.mpr rfl, ?_⟩
    refine bind_eq_ok.mpr ⟨val₂, okOr_eq_ok.mpr hval₂, ?_⟩
    refine ite_error_eq_ok.mpr ⟨not_or.mpr ⟨by rw [hquoted]; decide, hlen⟩, ?_⟩
    refine bind_eq_ok.mpr ⟨val₃, okOr_eq_ok.mpr hval₃, ?_⟩
    refine bind_eq_ok.mpr ⟨_, okOr_eq_ok.mpr hcoverage, ?_⟩
    refine ite_error_eq_ok.mpr ⟨by rw [h.voll]; decide, ?_⟩
    refine bind_eq_ok.mpr ⟨val₄, okOr_eq_ok.mpr hval₄, ?_⟩
    refine bind_eq_ok.mpr ⟨_, hbars', ?_⟩
    refine bind_eq_ok.mpr ⟨val₅, okOr_eq_ok.mpr hval₅, ?_⟩
    refine bind_eq_ok.mpr ⟨_, okOr_eq_ok.mpr hdma', ?_⟩
    refine ite_error_eq_ok.mpr ⟨h.dma_ne, ?_⟩
    refine bind_eq_ok.mpr ⟨val₆, okOr_eq_ok.mpr hval₆, ?_⟩
    refine bind_eq_ok.mpr ⟨_, okOr_eq_ok.mpr hirq', ?_⟩
    refine ite_error_eq_ok.mpr ⟨h.irq_ne, ?_⟩
    refine bind_eq_ok.mpr ⟨val₇, okOr_eq_ok.mpr hval₇, ?_⟩
    refine bind_eq_ok.mpr ⟨_, hn, ?_⟩
    have hsignatur := (signaturePresent_iff.trans (wort_iff hrel hval _)).trans h.signatur.symm
    rw [Bool.eq_iff_iff.mpr hsignatur, ← h.schemaVersion]

end Caprock.Lxpd
