import Mathlib.Data.Rat.Defs
import Caprock.Lxpd.ManifestMeaning
import Caprock.Lxpd.ManifestTable

/-! # The canonical stream

The bytes that `verify_signature` feeds after the key are those of the tokens of the members,
in the order of the keys and without the signature.  The stream is a manifest itself, and says
what the manifest says (`facts_of_stream`); so two manifests with one stream have the same
facts, except for the presence of a signature.  White space and the order of the members change
neither the facts nor the verdict (`manifest_meaning`).
-/

namespace Caprock.Lxpd

open Checks Spelling

/-- What `feed_canonical_value` feeds. -/
def kompakt : List UInt8 → List UInt8
  | [] => []
  | b :: d =>
      if b = quote then
        match _h : stringSpan (b :: d) with
        | .ok (s, r) => s ++ kompakt r
        | .error _ => b :: d
      else if isWs b = false then b :: kompakt d
      else kompakt d
termination_by d => d.length
decreasing_by
  · exact (stringSpan_cut _h).lt
  all_goals simp

variable {β γ : Type} {R : β → γ → Prop}

def kanonikMitglied (f : β → List UInt8) (p : Pair β) : List UInt8 :=
  quote :: (p.key ++ quote :: colon :: f p.val)

def kanonikMitglieder (f : β → List UInt8) : List (Pair β) → List UInt8
  | [] => []
  | p :: ps => kanonikMitglied f p ++ ps.flatMap fun p => comma :: kanonikMitglied f p

def kanonik (f : β → List UInt8) (t : List (Pair β)) : List UInt8 :=
  braceOpen :: (kanonikMitglieder f (signiert t) ++ [braceClose])

/-- What `verify_signature` feeds after the key. -/
def canonicalStream (json : List UInt8) : Except LxpdError (List UInt8) :=
  (topPairs json).map (kanonik kompakt)

theorem fnvFeed_append (h : UInt64) (xs ys : List UInt8) :
    fnvFeed h (xs ++ ys) = fnvFeed (fnvFeed h xs) ys :=
  List.foldl_append

theorem feedCanonicalValue_eq (h : UInt64) (d : List UInt8) :
    feedCanonicalValue h d = fnvFeed h (kompakt d) := by
  fun_induction kompakt d generalizing h with
  | case1 =>
    rw [feedCanonicalValue]
    rfl
  | case2 d s r hs ih =>
    rw [feedCanonicalValue, if_pos rfl]
    split
    · next s' r' hs' =>
      rw [hs] at hs'
      cases hs'
      rw [fnvFeed_append, ih]
    · next hs' =>
      rw [hs] at hs'
      cases hs'
  | case3 d e hs =>
    rw [feedCanonicalValue, if_pos rfl]
    split
    · next hs' =>
      rw [hs] at hs'
      cases hs'
    · rfl
  | case4 b d hquote hws ih =>
    rw [feedCanonicalValue, if_neg hquote, if_pos hws, ih]
    rfl
  | case5 b d hquote hws ih => rw [feedCanonicalValue, if_neg hquote, if_neg hws, ih]

theorem feedMitglied_eq (h : UInt64) (p : Pair (List UInt8)) :
    feedMitglied h p = fnvFeed h (kanonikMitglied kompakt p) := by
  have hbytes : kanonikMitglied kompakt p =
      [quote] ++ p.key ++ [quote, colon] ++ kompakt p.val := by
    simp [kanonikMitglied]
  rw [feedMitglied, feedCanonicalValue_eq, hbytes, fnvFeed_append, fnvFeed_append, fnvFeed_append]

theorem feedMitglieder_eq (h : UInt64) (ps : List (Pair (List UInt8))) :
    feedMitglieder h ps = fnvFeed h (kanonikMitglieder kompakt ps) := by
  cases ps with
  | nil => rfl
  | cons p ps =>
    rw [feedMitglieder, kanonikMitglieder, fnvFeed_append, feedMitglied_eq]
    generalize fnvFeed h (kanonikMitglied kompakt p) = h₁
    induction ps generalizing h₁ with
    | nil => rfl
    | cons q ps ih =>
      have hq : feedMitglied (fnvFeed h₁ [comma]) q =
          fnvFeed h₁ (comma :: kanonikMitglied kompakt q) := by
        rw [feedMitglied_eq, ← fnvFeed_append, List.singleton_append]
      rw [List.foldl_cons, hq, ih, List.flatMap_cons, fnvFeed_append]

theorem verifySignature_eq {d : List UInt8} {out : List (Pair (List UInt8))}
    (hout : topPairs d = .ok out) (key : List UInt8) :
    verifySignature d key =
      if key = [] then .error .badSignature
      else
        (okOr .badSignature (find out fSignature)).bind fun sig =>
        if isQuoted sig = false then .error .badSignature
        else if (innen sig).length ≠ signatureHexLen then .error .badSignature
        else if innen sig = hexSignatur (fnvFeed (feedKey fnv64Offset key) (kanonik kompakt out)) then
          .ok ()
        else .error .badSignature := by
  have hstream : ∀ h, fnvFeed (feedMitglieder (fnvFeed h [braceOpen]) (signiert out)) [braceClose] =
      fnvFeed h (kanonik kompakt out) := by
    intro h
    rw [feedMitglieder_eq, ← fnvFeed_append, ← fnvFeed_append]
    rfl
  unfold verifySignature
  rw [hout]
  simp only [Except.bind, hstream]

def flach (v : List Tok) : List UInt8 := v.flatMap (Token.text json)

theorem kompakt_ws {b : UInt8} (hb : isWs b = true) (d : List UInt8) :
    kompakt (b :: d) = kompakt d := by
  have hquote : b ≠ quote := (level_of_white hb).1
  rw [kompakt, if_neg hquote, if_neg (by rw [hb]; decide)]

theorem kompakt_sign {b : UInt8} (hquote : b ≠ quote) (hb : isWs b = false) (d : List UInt8) :
    kompakt (b :: d) = b :: kompakt d := by
  rw [kompakt, if_neg hquote, if_pos hb]

theorem kompakt_white {w : List UInt8} (hw : ∀ b ∈ w, isWs b = true) (d : List UInt8) :
    kompakt (w ++ d) = kompakt d := by
  induction w with
  | nil => rfl
  | cons b w ih =>
    rw [List.cons_append, kompakt_ws (hw b List.mem_cons_self)]
    exact ih fun c hc => hw c (List.mem_cons_of_mem _ hc)

theorem kompakt_plain {l : List UInt8} (hl : ∀ b ∈ l, json.plain b = true) (d : List UInt8) :
    kompakt (l ++ d) = l ++ kompakt d := by
  induction l with
  | nil => rfl
  | cons b l ih =>
    obtain ⟨hws, -, hquote⟩ := Lexis.plain_iff.mp (hl b List.mem_cons_self)
    rw [List.cons_append, kompakt_sign hquote hws, List.cons_append,
      ih fun c hc => hl c (List.mem_cons_of_mem _ hc)]

theorem kompakt_token {t : Tok} (ht : t.Valid json) (d : List UInt8) :
    kompakt (t.text json ++ d) = t.text json ++ kompakt d := by
  cases t with
  | str s =>
    have hspan := stringSpan_complete ht d
    have htext : (Token.str s).text json ++ d = quote :: (s ++ quote :: d) := by
      simp [Token.text, json]
    rw [htext] at hspan
    rw [htext, kompakt, if_pos rfl]
    split
    · next s' r hs' =>
      rw [hspan] at hs'
      cases hs'
      rfl
    · next hs' =>
      rw [hspan] at hs'
      cases hs'
  | mark b =>
    have hquote : b ≠ quote := by
      rintro rfl
      exact absurd (json.mark_quote.symm.trans ht) (by decide)
    have hws : isWs b = false := Token.Valid.not_white ht b rfl
    exact kompakt_sign hquote hws d
  | lit l => exact kompakt_plain ht.2 d

variable {t ms : List (Pair (List Tok))}

theorem kompakt_spells {d : List UInt8} {v : List Tok} (h : Spells json d v) :
    kompakt d = flach v := by
  induction h with
  | nil hw =>
    have hall := kompakt_white hw []
    rw [List.append_nil] at hall
    rw [hall, kompakt]
    rfl
  | cons hw ht he h ih =>
    rw [kompakt_white hw, kompakt_token ht, ih]
    rfl

theorem kanonik_rel {f : β → List UInt8} {g : γ → List UInt8} (hfg : ∀ x y, R x y → f x = g y)
    {t : List (Pair β)} {t' : List (Pair γ)} (h : List.Forall₂ (Pair.Rel R) t t') :
    kanonik f t = kanonik g t' := by
  have hmember : ∀ p q, Pair.Rel R p q → kanonikMitglied f p = kanonikMitglied g q := by
    intro p q hpq
    rw [kanonikMitglied, kanonikMitglied, hpq.key, hfg _ _ hpq.val]
  have hmore : ∀ {ps : List (Pair β)} {qs : List (Pair γ)}, List.Forall₂ (Pair.Rel R) ps qs →
      (ps.flatMap fun p => comma :: kanonikMitglied f p) =
        qs.flatMap fun q => comma :: kanonikMitglied g q := by
    intro ps qs hpq
    induction hpq with
    | nil => rfl
    | cons hp hpq ih => rw [List.flatMap_cons, List.flatMap_cons, hmember _ _ hp, ih]
  have hall : kanonikMitglieder f (signiert t) = kanonikMitglieder g (signiert t') := by
    have hsorted := signiert_rel h
    generalize signiert t = ps at hsorted ⊢
    generalize signiert t' = qs at hsorted ⊢
    cases hsorted with
    | nil => rfl
    | cons hp hps => rw [kanonikMitglieder, kanonikMitglieder, hmember _ _ hp, hmore hps]
  rw [kanonik, kanonik, hall]

theorem kanonik_gelesen {out : List (Pair (List UInt8))} (h : TabRel out t) :
    kanonik kompakt out = kanonik flach t :=
  kanonik_rel (fun _ _ hval => kompakt_spells hval.spells) h

abbrev Gefuegt : List (Pair (List Tok)) → List (Pair (List Tok)) → Prop :=
  List.Forall₂ (Pair.Rel Fused)

structure Schreibbar (p : Pair (List Tok)) : Prop where
  key : StringBody p.key
  val : ∀ t ∈ p.val, t.Valid json

theorem spells_mitglied {p : Pair (List Tok)} (hp : Schreibbar p) :
    ∃ q : Pair (List Tok), Pair.Rel Fused p q ∧ ∀ {d ts}, Sharp json d → Spells json d ts →
      Spells json (kanonikMitglied flach p ++ d) (q.tokens ++ ts) := by
  obtain ⟨v, hfused, hspells⟩ := Spells.compact hp.val
  refine ⟨⟨p.key, v⟩, ⟨rfl, hfused⟩, fun {d ts} hsharp hd => ?_⟩
  have hval := hspells.append hsharp hd
  have hcolon := hval.token (t := .mark colon) (valid_mark (by decide)) trivial
  have hkey := hcolon.token (t := .str p.key) hp.key trivial
  have htext : kanonikMitglied flach p ++ d =
      (Token.str p.key).text json ++ ((Token.mark colon).text json ++
        (p.val.flatMap (Token.text json) ++ d)) := by
    simp [kanonikMitglied, Token.text, flach, json]
  rw [htext]
  exact hkey

theorem sharp_weitere (ps : List (Pair (List Tok))) :
    Sharp json ((ps.flatMap fun p => comma :: kanonikMitglied flach p) ++ [braceClose]) := by
  cases ps with
  | nil | cons p ps => exact Sharp.cons (by decide)

theorem spells_weitere {ps : List (Pair (List Tok))} (hps : ∀ p ∈ ps, Schreibbar p) :
    ∃ qs : List (Pair (List Tok)), Gefuegt ps qs ∧
      Spells json ((ps.flatMap fun p => comma :: kanonikMitglied flach p) ++ [braceClose])
        (more comma braceClose (qs.map Pair.tokens)) := by
  induction ps with
  | nil =>
    exact ⟨[], .nil, Spells.token (t := .mark braceClose) (d := []) (.nil (by simp))
      (valid_mark (by decide)) trivial⟩
  | cons p ps ih =>
    obtain ⟨qs, hqs, hspells⟩ := ih fun p hp => hps p (List.mem_cons_of_mem _ hp)
    obtain ⟨q, hq, hmember⟩ := spells_mitglied (hps p List.mem_cons_self)
    refine ⟨q :: qs, .cons hq hqs, ?_⟩
    have hall := (hmember (sharp_weitere ps) hspells).token (t := .mark comma) (valid_mark (by decide)) trivial
    simpa [Token.text, more] using hall

theorem spells_kanonik (ht : ∀ p ∈ t, Schreibbar p) :
    ∃ qs : List (Pair (List Tok)), Gefuegt (signiert t) qs ∧
      Spells json (kanonik flach t) (objekt qs) := by
  have hsigned : ∀ p ∈ signiert t, Schreibbar p := fun p hp => ht p (mem_signiert.mp hp).1
  rw [kanonik]
  generalize signiert t = ps at hsigned ⊢
  cases ps with
  | nil =>
    refine ⟨[], .nil, ?_⟩
    have hend := Spells.token (L := json) (t := .mark braceClose) (d := []) (.nil (by simp))
      (valid_mark (by decide)) trivial
    exact hend.token (t := .mark braceOpen) (valid_mark (by decide)) trivial
  | cons p ps =>
    obtain ⟨qs, hqs, hspells⟩ := spells_weitere fun p hp => hsigned p (List.mem_cons_of_mem _ hp)
    obtain ⟨q, hq, hmember⟩ := spells_mitglied (hsigned p List.mem_cons_self)
    refine ⟨q :: qs, .cons hq hqs, ?_⟩
    have hall :=
      (hmember (sharp_weitere ps) hspells).token (t := .mark braceOpen) (valid_mark (by decide)) trivial
    simpa [Token.text, kanonikMitglieder, objekt, bracketed] using hall

theorem gefuegt_of_tokens {zs : List (List Tok)} (h : List.Forall₂ Fused (ms.map Pair.tokens) zs) :
    ∃ ms' : List (Pair (List Tok)), zs = ms'.map Pair.tokens ∧ Gefuegt ms ms' := by
  induction ms generalizing zs with
  | nil =>
    cases h
    exact ⟨[], rfl, .nil⟩
  | cons m ms ih =>
    cases h with
    | cons hm hms =>
      obtain ⟨ms', rfl, hrel⟩ := ih hms
      obtain ⟨ts, rfl, hts⟩ := Fused.of_str hm
      obtain ⟨v, rfl, hv⟩ := hts.of_mark
      exact ⟨⟨m.key, v⟩ :: ms', rfl, .cons ⟨rfl, hv⟩ hrel⟩

theorem objekt_fused {v : List Tok} (h : Fused (objekt ms) v) :
    ∃ ms', v = objekt ms' ∧ Gefuegt ms ms' := by
  obtain ⟨zs, rfl, hzs⟩ := Fused.bracketed h
  obtain ⟨ms', rfl, hrel⟩ := gefuegt_of_tokens hzs
  exact ⟨ms', rfl, hrel⟩

theorem exists_of_forall₂ {α δ : Type} {S : α → δ → Prop} {xs : List α} {ys : List δ}
    (h : List.Forall₂ S xs ys) :
    (∀ x ∈ xs, ∃ y ∈ ys, S x y) ∧ ∀ y ∈ ys, ∃ x ∈ xs, S x y := by
  induction h with
  | nil => simp
  | @cons x y xs ys hxy h ih =>
    obtain ⟨hleft, hright⟩ := ih
    constructor
    · intro x' hx'
      rcases List.mem_cons.mp hx' with rfl | hx'
      · exact ⟨y, List.mem_cons_self, hxy⟩
      · obtain ⟨y', hy', hS⟩ := hleft x' hx'
        exact ⟨y', List.mem_cons_of_mem _ hy', hS⟩
    · intro y' hy'
      rcases List.mem_cons.mp hy' with rfl | hy'
      · exact ⟨x, List.mem_cons_self, hxy⟩
      · obtain ⟨x', hx', hS⟩ := hright y' hy'
        exact ⟨x', List.mem_cons_of_mem _ hx', hS⟩

theorem value_gefuegt {k : Nat} {ms' : List (Pair (List Tok))} (h : Gefuegt ms ms')
    (hms : ∀ m ∈ ms, Value json k m.val) : ∀ m ∈ ms', Value json k m.val := by
  intro m' hm'
  obtain ⟨m, hm, hfused⟩ := (exists_of_forall₂ h).2 m' hm'
  exact hfused.val.value (hms m hm)

theorem find_gefuegt {t' : List (Pair (List Tok))} (h : Gefuegt t t') {key : List UInt8}
    {v : List Tok} (hv : find t key = some v) : ∃ v', find t' key = some v' ∧ Fused v v' := by
  rcases find_rel h key with ⟨hnone, -⟩ | ⟨x, y, hx, hy, hxy⟩
  · rw [hv] at hnone
    cases hnone
  · rw [hv] at hx
    cases hx
    exact ⟨y, hy, hxy⟩

theorem Groesse.fused {v v' : List Tok} {g : UInt64} (h : Groesse v g) (hv : Fused v v') :
    Groesse v' g := by
  obtain ⟨ms, t, l, rfl, hms, hall, hfind, hl⟩ := h
  obtain ⟨ms', rfl, hrel⟩ := objekt_fused hv
  obtain ⟨t', hall', hrel'⟩ := alleAblegen_rel .nil hrel hall
  obtain ⟨x, hx, hlit⟩ := find_gefuegt hrel' hfind
  rw [hlit.of_single] at hx
  exact ⟨ms', t', l, rfl, value_gefuegt hrel hms, hall', hx, hl⟩

theorem Stubs.fused {xs xs' : List (List Tok)} (h : Stubs xs) (hxs : List.Forall₂ Fused xs xs') :
    Stubs xs' := by
  obtain ⟨hle, hall⟩ := h
  refine ⟨List.Forall₂.length_eq hxs ▸ hle, fun x' hx' => ?_⟩
  obtain ⟨x, hx, hfused⟩ := (exists_of_forall₂ hxs).2 x' hx'
  obtain ⟨s, rfl, harrow⟩ := hall x hx
  exact ⟨s, hfused.of_single, harrow⟩

theorem Bars.fused {xs xs' : List (List Tok)} (h : Bars xs) (hxs : List.Forall₂ Fused xs xs') :
    Bars xs' where
  length_le := List.Forall₂.length_eq hxs ▸ h.length_le
  value := by
    intro x' hx'
    obtain ⟨x, hx, hfused⟩ := (exists_of_forall₂ hxs).2 x' hx'
    exact hfused.value (h.value x hx)
  groesse := by
    obtain ⟨x, hx, g, hpos, hg⟩ := h.groesse
    obtain ⟨x', hx', hfused⟩ := (exists_of_forall₂ hxs).1 x hx
    exact ⟨x', hx', g, hpos, hg.fused hfused⟩

theorem Bedeutung.fused {F : Type} {A : Gleitkomma F} {t' : List (Pair (List Tok))}
    {f : ManifestFacts F} (h : Bedeutung A t f)
    (hfind : ∀ key v, key ≠ fSignature → find t key = some v →
      ∃ v', find t' key = some v' ∧ Fused v v') {b : Bool}
    (hb : b = true ↔ ∃ s, find t' fSignature = some [.str s] ∧ s ≠ []) :
    Bedeutung A t' { f with signaturePresent := b } where
  schemaVersion := h.schemaVersion
  fassung := by
    obtain ⟨l, hl, hnum⟩ := h.fassung
    obtain ⟨v, hv, hfused⟩ := hfind _ _ (by decide) hl
    rw [hfused.of_single] at hv
    exact ⟨l, hv, hnum⟩
  treiber := by
    obtain ⟨s, hs, hne⟩ := h.treiber
    obtain ⟨v, hv, hfused⟩ := hfind _ _ (by decide) hs
    rw [hfused.of_single] at hv
    exact ⟨s, hv, hne⟩
  deckung := by
    obtain ⟨l, hl, hnum⟩ := h.deckung
    obtain ⟨v, hv, hfused⟩ := hfind _ _ (by decide) hl
    rw [hfused.of_single] at hv
    exact ⟨l, hv, hnum⟩
  voll := h.voll
  bars := by
    obtain ⟨xs, hxs, hbars, hlen⟩ := h.bars
    obtain ⟨v, hv, hfused⟩ := hfind _ _ (by decide) hxs
    obtain ⟨xs', rfl, hrel⟩ := Fused.bracketed hfused
    exact ⟨xs', hv, hbars.fused hrel, hlen.trans (List.Forall₂.length_eq hrel)⟩
  dma := by
    obtain ⟨x, hx, hg⟩ := h.dma
    obtain ⟨v, hv, hfused⟩ := hfind _ _ (by decide) hx
    exact ⟨v, hv, hg.fused hfused⟩
  dma_ne := h.dma_ne
  irq := by
    obtain ⟨l, hl, hnum⟩ := h.irq
    obtain ⟨v, hv, hfused⟩ := hfind _ _ (by decide) hl
    rw [hfused.of_single] at hv
    exact ⟨l, hv, hnum⟩
  irq_ne := h.irq_ne
  stubs := by
    obtain ⟨xs, hxs, hstubs, hlen⟩ := h.stubs
    obtain ⟨v, hv, hfused⟩ := hfind _ _ (by decide) hxs
    obtain ⟨xs', rfl, hrel⟩ := Fused.bracketed hfused
    exact ⟨xs', hv, hstubs.fused hrel, hlen.trans (List.Forall₂.length_eq hrel)⟩
  signatur := hb

section

variable {F : Type} {A : Gleitkomma F} {d d' : List UInt8} {ms : List (Pair (List Tok))}

theorem manifestFacts_of_spells {t : List (Pair (List Tok))} {out : List (Pair (List UInt8))}
    (hms : ∀ m ∈ ms, Value json (maxDepth - 1) m.val)
    (hall : alleAblegen maxTopKeys [] ms = .ok t) (hout : topPairs d = .ok out)
    (hrel : TabRel out t) (f : ManifestFacts F) : manifestFacts A d = .ok f ↔ Bedeutung A t f :=
  manifestFacts_iff hout hrel
    (fun p hp => (hms p (mem_of_alleAblegen hall hp)).mono (by decide)) f

theorem verdict_eq {t t₁ t' : List (Pair (List Tok))} {out out' : List (Pair (List UInt8))}
    (hout : topPairs d = .ok out) (hrel : TabRel out t)
    (ht : ∀ p ∈ t, Value json maxDepth p.val) (hout' : topPairs d' = .ok out')
    (hrel' : TabRel out' t') (ht' : ∀ p ∈ t', Value json maxDepth p.val)
    (hfind : find t₁ fSignature = find t fSignature) (hfused : Gefuegt t₁ t')
    (hstream : kanonik flach t' = kanonik flach t) (key : List UInt8) :
    verifySignature d' key = verifySignature d key := by
  rw [verifySignature_eq hout, verifySignature_eq hout', kanonik_gelesen hrel,
    kanonik_gelesen hrel', hstream]
  rcases find_rel hrel fSignature with ⟨hnone, hnone'⟩ | ⟨x, v, hx, hv, hread⟩
  · rw [hnone'] at hfind
    rcases find_rel hfused fSignature with ⟨-, hnone₁⟩ | ⟨y, _, hy, -, -⟩
    · rcases find_rel hrel' fSignature with ⟨hnone₂, -⟩ | ⟨_, y, -, hy, -⟩
      · rw [hnone, hnone₂]
      · rw [hnone₁] at hy
        cases hy
    · rw [hfind] at hy
      cases hy
  · rw [hv] at hfind
    obtain ⟨v', hv', hjoin⟩ := find_gefuegt hfused hfind
    rcases find_rel hrel' fSignature with ⟨-, hnone⟩ | ⟨x', w, hx', hw, hread'⟩
    · rw [hv'] at hnone
      cases hnone
    rw [hv'] at hw
    cases hw
    rw [hx, hx']
    have hvalue := ht _ (mem_of_find hv)
    have hvalue' := ht' _ (mem_of_find hv')
    cases hquoted : isQuoted x with
    | true =>
      obtain ⟨s, rfl⟩ := (isQuoted_iff hread hvalue).mp hquoted
      obtain rfl := hjoin.of_single
      rw [gelesen_token hread, gelesen_token hread']
    | false =>
      have hquoted' : isQuoted x' = false := by
        rw [← Bool.not_eq_true, isQuoted_iff hread' hvalue']
        rintro ⟨s, rfl⟩
        obtain rfl := hjoin.eq_str
        exact absurd ((isQuoted_iff hread hvalue).mpr ⟨s, rfl⟩) (by rw [hquoted]; decide)
      simp only [okOr, Except.bind, hquoted, hquoted', if_true]

theorem facts_of_variant {f : ManifestFacts F} {t ms₁ ms' : List (Pair (List Tok))}
    {out : List (Pair (List UInt8))} (hms : ∀ m ∈ ms, Value json (maxDepth - 1) m.val)
    (hall : alleAblegen maxTopKeys [] ms = .ok t) (hout : topPairs d = .ok out)
    (hrel : TabRel out t) (h : manifestFacts A d = .ok f) (hperm : Umgestellt ms ms₁)
    (hfused : Gefuegt ms₁ ms') (hd' : Spells json d' (objekt ms')) :
    manifestFacts A d' = .ok f ∧ ∀ key, verifySignature d' key = verifySignature d key := by
  obtain ⟨t₁, hall₁, hpt, hfind⟩ := alleAblegen_umgestellt hperm hall
  obtain ⟨t', hall', hjoin⟩ := alleAblegen_rel .nil hfused hall₁
  have hms₁ : ∀ m ∈ ms₁, Value json (maxDepth - 1) m.val := fun m hm =>
    hms m ((hperm.mem_iff m).mp hm)
  have hms' := value_gefuegt hfused hms₁
  obtain ⟨out', hout', hrel'⟩ := topPairs_complete hd' hms' hall'
  have hfacts := (manifestFacts_of_spells hms hall hout hrel f).mp h
  constructor
  · refine (manifestFacts_of_spells hms' hall' hout' hrel' f).mpr ?_
    have hread : ∀ key v, find t key = some v → ∃ v', find t' key = some v' ∧ Fused v v' :=
      fun key v hv => find_gefuegt hjoin ((hfind key).trans hv)
    refine hfacts.fused (fun key v _ hv => hread key v hv) (hfacts.signatur.trans ?_)
    constructor
    · rintro ⟨s, hs, hne⟩
      obtain ⟨v', hv', hone⟩ := hread _ _ hs
      rw [hone.of_single] at hv'
      exact ⟨s, hv', hne⟩
    · rintro ⟨s, hs, hne⟩
      rcases find_rel hjoin fSignature with ⟨-, hnone⟩ | ⟨x, y, hx, hy, hone⟩
      · rw [hs] at hnone
        cases hnone
      · rw [hs] at hy
        cases hy
        rw [hone.eq_str, hfind] at hx
        exact ⟨s, hx, hne⟩
  · have hstream : kanonik flach t' = kanonik flach t := by
      have hsorted := signiert_eq (alleAblegen_nodup keys_nil (Nat.zero_le _) hall).1 hpt
      have hbytes : kanonik flach t₁ = kanonik flach t' :=
        kanonik_rel (fun _ _ hxy => hxy.text) hjoin
      rw [← hbytes, kanonik, kanonik, hsorted]
    exact verdict_eq hout hrel
      (fun p hp => (hms p (mem_of_alleAblegen hall hp)).mono (by decide)) hout' hrel'
      (fun p hp => (hms' p (mem_of_alleAblegen hall' hp)).mono (by decide)) (hfind _) hjoin hstream

theorem tokens_valid {ms : List (Pair (List Tok))} (h : ∀ t ∈ objekt ms, t.Valid json) :
    ∀ m ∈ ms, Schreibbar m := by
  have hmore : ∀ ps : List (Pair (List Tok)),
      (∀ t ∈ more comma braceClose (ps.map Pair.tokens), t.Valid json) →
        ∀ p ∈ ps, ∀ t ∈ p.tokens, t.Valid json := by
    intro ps hps
    induction ps with
    | nil => simp
    | cons q ps ih =>
      intro p hp t ht
      simp only [List.map_cons, more, List.mem_cons, List.mem_append] at hps
      rcases List.mem_cons.mp hp with rfl | hp
      · exact hps t (.inr (.inl ht))
      · exact ih (fun t ht => hps t (.inr (.inr ht))) p hp t ht
  have hall : ∀ m ∈ ms, ∀ t ∈ m.tokens, t.Valid json := by
    cases ms with
    | nil => simp
    | cons m ms =>
      simp only [objekt, List.map_cons, bracketed, List.mem_cons, List.mem_append] at h
      intro p hp t ht
      rcases List.mem_cons.mp hp with rfl | hp
      · exact h t (.inr (.inl ht))
      · exact hmore ms (fun t ht => h t (.inr (.inr ht))) p hp t ht
  intro m hm
  refine ⟨hall m hm (.str m.key) (by simp [Pair.tokens]), fun t ht => hall m hm t ?_⟩
  simp [Pair.tokens, ht]

theorem keys_gefuegt {ms ms' : List (Pair (List Tok))} (h : Gefuegt ms ms') :
    keys ms' = keys ms := by
  induction h with
  | nil => rfl
  | cons hp h ih =>
    rw [keys, List.map_cons, ← hp.key]
    exact congrArg _ ih

theorem table_of_stream {t : List (Pair (List Tok))} (hd : Spells json d (objekt ms))
    (hms : ∀ m ∈ ms, Value json (maxDepth - 1) m.val)
    (hall : alleAblegen maxTopKeys [] ms = .ok t) :
    ∃ qs, Gefuegt (signiert t) qs ∧ Spells json (kanonik flach t) (objekt qs) ∧
      (∀ q ∈ qs, Value json (maxDepth - 1) q.val) ∧ alleAblegen maxTopKeys [] qs = .ok qs := by
  obtain ⟨hnodup, hcap⟩ := alleAblegen_nodup keys_nil (Nat.zero_le _) hall
  have hwrite : ∀ p ∈ t, Schreibbar p := fun p hp =>
    tokens_valid hd.valid p (mem_of_alleAblegen hall hp)
  obtain ⟨qs, hqs, hspells⟩ := spells_kanonik hwrite
  have hsigned : ∀ p ∈ signiert t, Value json (maxDepth - 1) p.val := fun p hp =>
    hms p (mem_of_alleAblegen hall (mem_signiert.mp hp).1)
  refine ⟨qs, hqs, hspells, value_gefuegt hqs hsigned, alleAblegen_self ?_ ?_⟩
  · rw [keys_gefuegt hqs]
    exact keys_signiert_nodup hnodup
  · have hlen := List.Forall₂.length_eq hqs
    have hle := length_signiert_le t
    omega

theorem facts_of_stream {f : ManifestFacts F} {stream : List UInt8}
    (h : manifestFacts A d = .ok f) (hstream : canonicalStream d = .ok stream) :
    manifestFacts A stream = .ok { f with signaturePresent := false } := by
  obtain ⟨out, hout, -⟩ := bind_eq_ok.mp h
  obtain ⟨ms, t, hd, hms, hall, hrel⟩ := topPairs_sound hout
  have hnodup := (alleAblegen_nodup keys_nil (Nat.zero_le _) hall).1
  obtain rfl : stream = kanonik flach t := by
    rw [canonicalStream, hout] at hstream
    cases hstream
    exact kanonik_gelesen hrel
  obtain ⟨qs, hqs, hspells, hvalue, hself⟩ := table_of_stream hd hms hall
  obtain ⟨out', hout', hrel'⟩ := topPairs_complete hspells hvalue hself
  have hfacts := (manifestFacts_of_spells hms hall hout hrel f).mp h
  refine (manifestFacts_of_spells hvalue hself hout' hrel' _).mpr ?_
  refine hfacts.fused (fun key v hkey hv => ?_) ?_
  · exact find_gefuegt hqs (by rw [find_signiert hnodup, if_neg hkey, hv])
  · have hnone : find qs fSignature = none := by
      rw [find_eq_none_iff, keys_gefuegt hqs, ← find_eq_none_iff, find_signiert hnodup,
        if_pos rfl]
    rw [hnone]
    simp

/-- What is signed determines what is enforced, the presence of a signature apart; neither
white space nor the order of the members matters. -/
theorem manifest_meaning {F : Type} (A : Gleitkomma F) (d : List UInt8) (f : ManifestFacts F)
    (h : manifestFacts A d = .ok f) :
    ∃ ms, Spells json d (objekt ms) ∧ (∀ m ∈ ms, Value json (maxDepth - 1) m.val) ∧
      (∀ ms₁ ms' d', Umgestellt ms ms₁ → Gefuegt ms₁ ms' → Spells json d' (objekt ms') →
        manifestFacts A d' = .ok f ∧ ∀ key, verifySignature d' key = verifySignature d key) ∧
      (∀ stream, canonicalStream d = .ok stream →
        manifestFacts A stream = .ok { f with signaturePresent := false }) ∧
      ∀ d' f', manifestFacts A d' = .ok f' → canonicalStream d' = canonicalStream d →
        { f' with signaturePresent := f.signaturePresent } = f := by
  obtain ⟨out, hout, -⟩ := bind_eq_ok.mp h
  obtain ⟨ms, t, hd, hms, hall, hrel⟩ := topPairs_sound hout
  refine ⟨ms, hd, hms, ?_, fun stream => facts_of_stream h, ?_⟩
  · exact fun ms₁ ms' d' hperm hfused hd' =>
      facts_of_variant hms hall hout hrel h hperm hfused hd'
  · intro d' f' h' heq
    have hstream : canonicalStream d = .ok (kanonik kompakt out) := by
      rw [canonicalStream, hout]
      rfl
    have hfacts := facts_of_stream h hstream
    rw [facts_of_stream h' (heq.trans hstream)] at hfacts
    have hsame := Except.ok.inj hfacts
    cases f
    cases f'
    simp only [ManifestFacts.mk.injEq] at hsame ⊢
    simp [hsame]

end

/-- Exact arithmetic; that of `f64` is exact on whole numbers of this size. -/
def genau : Gleitkomma ℚ where
  ofU8 b := b.toNat
  zero := 0
  tenth := 1 / 10
  ten := 10
  hundred := 100
  infinity := 10 ^ 400
  add x y := x + y
  mul x y := x * y
  div x y := x / y
  neg x := -x
  eq x y := decide (x = y)

/-- A driver with one register window, without a signature. -/
def netzkarte : List UInt8 := ascii
  "\x7b\"driver\":\"e\",\"coverage_pct\":100,\"irq_vector\":9,\"schema_version\":1,
  \"grants_bar\":[\x7b\"size\":4\x7d],\"dma_window\":\x7b\"size\":8\x7d,\"trampolines\":[]\x7d"

def netzkarteSigniert : List UInt8 := ascii
  "\x7b\"driver\":\"e\",\"coverage_pct\":100,\"irq_vector\":9,\"schema_version\":1,
  \"grants_bar\":[\x7b\"size\":4\x7d],\"dma_window\":\x7b\"size\":8\x7d,\"trampolines\":[],
  \"signature\":\"0\"\x7d"

def netzkarteStrom : List UInt8 := ascii
  ("\x7b\"coverage_pct\":100,\"dma_window\":\x7b\"size\":8\x7d,\"driver\":\"e\"," ++
    "\"grants_bar\":[\x7b\"size\":4\x7d],\"irq_vector\":9,\"schema_version\":1," ++
    "\"trampolines\":[]\x7d")

def netzkarteFakten (signaturePresent : Bool) : ManifestFacts ℚ :=
  ⟨1, 0, 100, 1, 8, 9, signaturePresent⟩

set_option maxRecDepth 2048 in
theorem facts_netzkarte : manifestFacts genau netzkarte = .ok (netzkarteFakten false) := by
  have hzeichen : netzkarte = _ := ascii_ofList _
  rw [hzeichen]
  decide +kernel

set_option maxRecDepth 2048 in
theorem facts_netzkarteSigniert :
    manifestFacts genau netzkarteSigniert = .ok (netzkarteFakten true) := by
  have hzeichen : netzkarteSigniert = _ := ascii_ofList _
  rw [hzeichen]
  decide +kernel

set_option maxRecDepth 2048 in
theorem zeichen_netzkarteStrom : ∃ strom : List UInt8, netzkarteStrom = strom ∧
    canonicalStream netzkarte = .ok strom ∧ canonicalStream netzkarteSigniert = .ok strom := by
  have hzeichen : netzkarte = _ := ascii_ofList _
  have hsigniert : netzkarteSigniert = _ := ascii_ofList _
  have hstrom : netzkarteStrom = ascii (_ ++ _ ++ _) := rfl
  rw [ascii_append, ascii_append, ascii_ofList, ascii_ofList, ascii_ofList] at hstrom
  rw [hzeichen, hsigniert]
  exact ⟨_, hstrom, by decide +kernel, by decide +kernel⟩

theorem stream_netzkarte : canonicalStream netzkarte = .ok netzkarteStrom := by
  obtain ⟨strom, rfl, hstrom, -⟩ := zeichen_netzkarteStrom
  exact hstrom

theorem stream_netzkarteSigniert : canonicalStream netzkarteSigniert = .ok netzkarteStrom := by
  obtain ⟨strom, rfl, -, hstrom⟩ := zeichen_netzkarteStrom
  exact hstrom

theorem manifest_meaning_netzkarte :
    manifestFacts genau netzkarteStrom = .ok (netzkarteFakten false) ∧
      { netzkarteFakten true with signaturePresent := false } = netzkarteFakten false := by
  obtain ⟨-, -, -, -, hstream, hsame⟩ :=
    manifest_meaning genau netzkarte (netzkarteFakten false) facts_netzkarte
  exact ⟨hstream netzkarteStrom stream_netzkarte, hsame netzkarteSigniert (netzkarteFakten true)
    facts_netzkarteSigniert (stream_netzkarteSigniert.trans stream_netzkarte.symm)⟩

/-- The stream leaves the signature out, and one of the facts is whether there is one. -/
theorem signature_not_in_stream :
    ∃ d d' f f', manifestFacts genau d = .ok f ∧ manifestFacts genau d' = .ok f' ∧
      canonicalStream d' = canonicalStream d ∧ f' ≠ f := by
  refine ⟨netzkarte, netzkarteSigniert, netzkarteFakten false, netzkarteFakten true,
    facts_netzkarte, facts_netzkarteSigniert,
    stream_netzkarteSigniert.trans stream_netzkarte.symm, fun heq => ?_⟩
  cases congrArg ManifestFacts.signaturePresent heq

end Caprock.Lxpd
