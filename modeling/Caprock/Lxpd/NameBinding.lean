import Caprock.Lxpd.LoaderRun

/-! # The name of the driver in the manifest

`treibername_gleich` goes over the bytes by itself: it counts the braces, and compares with the
first `"driver":` in exactly one of them.  The span parser takes the last member `driver`.  Seen
as tokens both are short functions of the members, and they agree if these do.
-/

namespace Caprock.Lxpd

open Checks Spelling

structure Treibername (name : List UInt8) : Prop where
  ne_nil : name ≠ []
  le : name.length ≤ maxTreiberName
  schlicht : ∀ b ∈ name, b ≠ quote ∧ b ≠ backslash ∧ ¬ b < 0x20

def stufe : Tok → Int
  | .mark b => if b = braceOpen then 1 else if b = braceClose then -1 else 0
  | _ => 0

@[simp] theorem stufe_str (s : List UInt8) : stufe (.str s) = 0 := rfl

@[simp] theorem stufe_lit (l : List UInt8) : stufe (.lit l) = 0 := rfl

def treiberTok : Int → List Tok → Option Tok
  | _, [] => none
  | k, t :: ts =>
      if k = 1 ∧ t = .str fDriver ∧ ts.head? = some (.mark colon) then ts.tail.head?
      else treiberTok (k + stufe t) ts

section

variable {name s d r : List UInt8} {k : Int} {ts : List Tok}

theorem treiberSuche_string (hs : StringBody s) :
    treiberSuche name k true false (s ++ quote :: d) = treiberSuche name k false false d := by
  have hback : backslash ≠ quote := by decide
  induction hs with
  | nil => simp [treiberSuche, hback.symm]
  | escape e hs ih => simpa [treiberSuche] using ih
  | zeichen hquote hback hlt hs ih => simpa [treiberSuche, hquote, hback] using ih

theorem treiberSuche_sign {b : UInt8} (hb : b ≠ quote) :
    treiberSuche name k false false (b :: d) =
      treiberSuche name (k + stufe (.mark b)) false false d := by
  rw [treiberSuche, if_neg hb, stufe]
  by_cases hopen : b = braceOpen
  · rw [if_pos hopen, if_pos hopen]
  by_cases hclose : b = braceClose
  · rw [if_neg hopen, if_neg hopen, if_pos hclose, if_pos hclose]
    rfl
  · rw [if_neg hopen, if_neg hopen, if_neg hclose, if_neg hclose, Int.add_zero]

theorem treiberSuche_level {w : List UInt8}
    (hw : ∀ b ∈ w, b ≠ quote ∧ isOpen b = false ∧ isClose b = false) :
    treiberSuche name k false false (w ++ d) = treiberSuche name k false false d := by
  induction w with
  | nil => rfl
  | cons b w ih =>
    obtain ⟨hquote, hopen, hclose⟩ := hw b List.mem_cons_self
    have hstufe : stufe (.mark b) = 0 := by
      have ho : b ≠ braceOpen := fun heq => by simp [heq, isOpen] at hopen
      have hc : b ≠ braceClose := fun heq => by simp [heq, isClose] at hclose
      rw [stufe, if_neg ho, if_neg hc]
    rw [List.cons_append, treiberSuche_sign hquote, hstufe, Int.add_zero]
    exact ih fun c hc => hw c (List.mem_cons_of_mem _ hc)

theorem stringBody_schlicht (h : ∀ b ∈ s, b ≠ quote ∧ b ≠ backslash ∧ ¬ b < 0x20) :
    StringBody s := by
  induction s with
  | nil => exact .nil
  | cons b s ih =>
    obtain ⟨hquote, hback, hlt⟩ := h b List.mem_cons_self
    exact .zeichen hquote hback hlt (ih fun c hc => h c (List.mem_cons_of_mem _ hc))

theorem treiberWert_schlicht (h : ∀ b ∈ s, b ≠ quote ∧ b ≠ backslash ∧ ¬ b < 0x20) :
    treiberWert (s ++ quote :: r) = some s := by
  induction s with
  | nil => simp [treiberWert]
  | cons b s ih =>
    obtain ⟨hquote, hback, hlt⟩ := h b List.mem_cons_self
    rw [List.cons_append, treiberWert, if_neg hquote, if_neg (not_or.mpr ⟨hback, hlt⟩),
      ih fun c hc => h c (List.mem_cons_of_mem _ hc)]
    rfl

theorem treiberWert_sound {w : List UInt8} (h : treiberWert w = some s) :
    ∃ r, w = s ++ quote :: r ∧ StringBody s := by
  induction w generalizing s with
  | nil => cases h
  | cons c w ih =>
    rw [treiberWert] at h
    split at h
    · next hquote =>
      cases h
      exact ⟨w, by rw [hquote, List.nil_append], .nil⟩
    · next hquote =>
      split at h
      · cases h
      · next hplain =>
        obtain ⟨s', hs', rfl⟩ := Option.map_eq_some_iff.mp h
        obtain ⟨r, rfl, hbody⟩ := ih hs'
        obtain ⟨hback, hlt⟩ := not_or.mp hplain
        exact ⟨r, rfl, .zeichen hquote hback hlt hbody⟩

theorem treiberWert_iff (hname : Treibername name) (hs : StringBody s) :
    treiberWert (s ++ quote :: r) = some name ↔ s = name := by
  constructor
  · intro h
    obtain ⟨r', heq, hbody⟩ := treiberWert_sound h
    exact hs.unique hbody heq
  · rintro rfl
    exact treiberWert_schlicht hname.schlicht

set_option maxRecDepth 4096 in
theorem stringBody_driver : StringBody fDriver := stringBody_schlicht (by decide)

theorem eq_colon_of_head {t : Tok} (ht : t.Valid json) (h : (t.text json).head? = some colon) :
    t = .mark colon := by
  cases t with
  | str s => cases h
  | mark b => rw [Option.some.inj h]
  | lit l =>
    have hplain := ht.2 colon (List.mem_of_head? h)
    cases hplain

theorem eq_str_of_head {t : Tok} (ht : t.Valid json) (h : (t.text json).head? = some quote) :
    ∃ s, t = .str s := by
  cases t with
  | str s => exact ⟨s, rfl⟩
  | mark b =>
    rw [Option.some.inj h] at ht
    cases ht
  | lit l =>
    have hplain := ht.2 quote (List.mem_of_head? h)
    cases hplain

theorem treiberWert_spells (hname : Treibername name) (h : Spells json d ts) :
    (match skipWs d with
      | [] => false
      | o :: w => decide (o = quote ∧ treiberWert w = some name)) =
      decide (ts.head? = some (.str name)) := by
  cases ts with
  | nil =>
    have hnil : skipWs d = [] := List.dropWhile_eq_nil_iff.mpr h.all_white
    rw [hnil]
    rfl
  | cons t ts =>
    obtain ⟨r, hr, ht, -, -⟩ := (spells_skipWs h).uncons (skipWs_head d)
    have hhead : (t.text json ++ r).head? = (t.text json).head? :=
      List.head?_append_of_ne_nil _ ht.text_ne_nil
    rw [← hr] at hhead
    cases hskip : skipWs d with
    | nil =>
      rw [hskip] at hr
      exact absurd (List.append_eq_nil_iff.mp hr.symm).1 ht.text_ne_nil
    | cons o w =>
      rw [hskip] at hr hhead
      refine decide_eq_decide.mpr ⟨?_, fun heq => ?_⟩
      · rintro ⟨rfl, hw⟩
        obtain ⟨s, rfl⟩ := eq_str_of_head ht hhead.symm
        obtain rfl : w = s ++ quote :: r := by simpa [Token.text, json] using hr
        rw [(treiberWert_iff hname ht).mp hw]
        rfl
      · obtain rfl : t = .str name := Option.some.inj heq
        obtain ⟨rfl, rfl⟩ : o = quote ∧ w = name ++ quote :: r := by
          simpa [Token.text, json] using hr
        exact ⟨rfl, treiberWert_schlicht hname.schlicht⟩

theorem take_driver (hs : StringBody s) :
    (quote :: (s ++ quote :: d)).take 8 = quote :: fDriver ++ [quote] ↔ s = fDriver := by
  constructor
  · intro htake
    have hall := List.take_append_drop 8 (quote :: (s ++ quote :: d))
    rw [htake] at hall
    simp only [List.cons_append, List.append_assoc, List.cons.injEq, true_and,
      List.nil_append] at hall
    exact (stringBody_driver.unique hs hall).symm
  · rintro rfl
    have hsplit : quote :: (fDriver ++ quote :: d) = (quote :: fDriver ++ [quote]) ++ d := by simp
    rw [hsplit]
    exact List.take_left' (by decide)

theorem treiberSuche_str (hname : Treibername name) (hs : StringBody s) (h : Spells json d ts) :
    treiberSuche name k false false ((Token.str s).text json ++ d) =
      if k = 1 ∧ s = fDriver ∧ ts.head? = some (.mark colon) then
        decide (ts.tail.head? = some (.str name))
      else treiberSuche name k false false d := by
  have htext : (Token.str s).text json ++ d = quote :: (s ++ quote :: d) := by
    simp [Token.text, json]
  rw [htext, treiberSuche, if_pos rfl]
  by_cases hcand : k = 1 ∧ s = fDriver
  · obtain ⟨rfl, rfl⟩ := hcand
    have hdrop : (quote :: (fDriver ++ quote :: d)).drop 8 = d := by
      have hsplit : quote :: (fDriver ++ quote :: d) = (quote :: fDriver ++ [quote]) ++ d := by
        simp
      rw [hsplit]
      exact List.drop_left' (by decide)
    rw [if_pos ⟨rfl, (take_driver hs).mpr rfl⟩, hdrop, treiberSuche_string hs]
    cases ts with
    | nil =>
      have hnil : skipWs d = [] := List.dropWhile_eq_nil_iff.mpr h.all_white
      rw [hnil, if_neg fun hall => by cases hall.2.2]
    | cons t ts =>
      obtain ⟨r, hr, ht, -, hts⟩ := (spells_skipWs h).uncons (skipWs_head d)
      by_cases hcolon : t = .mark colon
      · subst hcolon
        have hskip : skipWs d = colon :: r := hr
        rw [hskip, if_pos ⟨rfl, rfl, rfl⟩]
        exact treiberWert_spells hname hts
      · rw [if_neg fun hall => hcolon (Option.some.inj hall.2.2)]
        cases hskip : skipWs d with
        | nil => rfl
        | cons c w =>
          have hc : c ≠ colon := fun heq => by
            refine hcolon (eq_colon_of_head ht ?_)
            rw [← List.head?_append_of_ne_nil _ ht.text_ne_nil, ← hr, hskip, heq]
            rfl
          dsimp only
          rw [if_pos hc]
  · have hno : ¬ (k = 1 ∧ (quote :: (s ++ quote :: d)).take 8 = quote :: fDriver ++ [quote]) :=
      fun hboth => hcand ⟨hboth.1, (take_driver hs).mp hboth.2⟩
    rw [if_neg hno, treiberSuche_string hs, if_neg fun hall => hcand ⟨hall.1, hall.2.1⟩]

theorem treiberSuche_spells (hname : Treibername name) (h : Spells json d ts) :
    treiberSuche name k false false d = decide (treiberTok k ts = some (.str name)) := by
  induction h generalizing k with
  | @nil w hw =>
    have hwhite : treiberSuche name k false false (w ++ []) =
        treiberSuche name k false false [] :=
      treiberSuche_level fun b hb => level_of_white (hw b hb)
    rw [List.append_nil] at hwhite
    rw [hwhite]
    rfl
  | @cons w d t ts hw ht he h ih =>
    rw [treiberSuche_level fun b hb => level_of_white (hw b hb)]
    cases t with
    | str s =>
      rw [treiberSuche_str hname ht h, treiberTok]
      by_cases hcand : k = 1 ∧ s = fDriver ∧ ts.head? = some (.mark colon)
      · obtain ⟨hk, rfl, hcolon⟩ := hcand
        rw [if_pos ⟨hk, rfl, hcolon⟩, if_pos ⟨hk, rfl, hcolon⟩]
      · rw [if_neg hcand, if_neg fun hall => hcand ⟨hall.1, Token.str.inj hall.2.1, hall.2.2⟩,
          stufe_str, Int.add_zero, ih]
    | mark b =>
      have hb : b ≠ quote := fun heq => by
        rw [heq] at ht
        cases ht
      rw [treiberTok, if_neg fun hall => (by cases hall.2.1), ← ih]
      exact treiberSuche_sign hb
    | lit l =>
      rw [treiberTok, if_neg fun hall => (by cases hall.2.1), stufe_lit, Int.add_zero, ← ih]
      exact treiberSuche_level fun b hb => level_of_plain (ht.2 b hb)

end

def ersterTreiber : List (Pair (List Tok)) → Option Tok
  | [] => none
  | m :: ms =>
      if m.key = fDriver then m.val.head? else (treiberTok 1 m.val).or (ersterTreiber ms)

section

variable {n : Nat} {k : Int} {st : List UInt8} {v us : List Tok}

theorem treiberTok_mark (b : UInt8) (ts : List Tok) :
    treiberTok k (.mark b :: ts) = treiberTok (k + stufe (.mark b)) ts := by
  rw [treiberTok, if_neg fun hall => (by cases hall.2.1)]

theorem stufe_open {b : UInt8} (hb : isOpen b = true) (st : List UInt8) :
    ((b :: st).count braceOpen : Int) = st.count braceOpen + stufe (.mark b) := by
  rcases isOpen_iff.mp hb with rfl | rfl
  · simp [stufe]
  · simp [stufe, bracketOpen, braceOpen, braceClose]

theorem stufe_close {o b : UInt8} (hb : isClose b = true) (hfits : passt o b = true)
    (st : List UInt8) :
    ((o :: st).count braceOpen : Int) + stufe (.mark b) = st.count braceOpen := by
  have hkind : o = braceOpen ∧ b = braceClose ∨ o = bracketOpen ∧ b = bracketClose := by
    simpa [passt] using hfits
  rcases hkind with ⟨rfl, rfl⟩ | ⟨rfl, rfl⟩
  · simp [stufe, braceOpen, braceClose]
  · simp [stufe, bracketOpen, bracketClose, braceOpen, braceClose]

theorem stufe_level {t : Tok} (ht : t.Level json) : stufe t = 0 := by
  cases t with
  | str s | lit l => rfl
  | mark b =>
    have ho : b ≠ braceOpen := fun heq => by
      rw [heq] at ht
      exact absurd ht.1 (by decide)
    have hc : b ≠ braceClose := fun heq => by
      rw [heq] at ht
      exact absurd ht.2 (by decide)
    rw [stufe, if_neg ho, if_neg hc]

theorem treiberTok_closes (h : Closes json n st v) :
    treiberTok k (v ++ us) =
      (treiberTok k v).or (treiberTok (k - st.count braceOpen) us) := by
  induction h generalizing k with
  | @last o c hc hfits =>
    have hcount := stufe_close hc hfits []
    rw [List.singleton_append, treiberTok_mark, treiberTok_mark]
    simp only [List.count_nil] at hcount
    simp only [treiberTok, Option.none_or]
    congr 1
    omega
  | @close o c st ts hc hfits hst h ih =>
    have hcount := stufe_close hc hfits st
    rw [List.cons_append, treiberTok_mark, treiberTok_mark, ih]
    congr 2
    omega
  | @opn a st ts ha hlt h ih =>
    have hcount := stufe_open ha st
    rw [List.cons_append, treiberTok_mark, treiberTok_mark, ih]
    congr 2
    omega
  | @level t st ts ht hst h ih =>
    cases ts with
    | nil => exact absurd rfl h.ne_nil
    | cons t' ts =>
      have hhead : (t' :: ts ++ us).head? = (t' :: ts).head? := rfl
      rw [List.cons_append, treiberTok, treiberTok, stufe_level ht, Int.add_zero, ih, hhead]
      by_cases hcand : k = 1 ∧ t = .str fDriver ∧ (t' :: ts).head? = some (.mark colon)
      · obtain ⟨hk, rfl, hcolon⟩ := hcand
        obtain rfl : t' = .mark colon := Option.some.inj hcolon
        have hcolonLevel : (Token.mark colon).Level json := ⟨by decide, by decide⟩
        cases ts with
        | nil => exact absurd rfl (h.of_level hcolonLevel).2.ne_nil
        | cons t'' ts =>
          rw [if_pos ⟨hk, rfl, rfl⟩, if_pos ⟨hk, rfl, rfl⟩]
          rfl
      · rw [if_neg hcand, if_neg hcand]

theorem value_ne_nil (h : Value json n v) : v ≠ [] := by
  cases h with
  | str s => simp
  | lits hne hword => simpa using hne
  | block h => exact h.ne_nil

theorem treiberTok_value (h : Value json n v) (hus : us.head? ≠ some (.mark colon)) :
    treiberTok k (v ++ us) = (treiberTok k v).or (treiberTok k us) := by
  cases h with
  | str s =>
    have hone : treiberTok k [.str s] = none := by
      rw [treiberTok, if_neg fun hall => (by cases hall.2.2)]
      rfl
    rw [List.singleton_append, treiberTok, if_neg fun hall => hus hall.2.2, hone, stufe_str,
      Int.add_zero, Option.none_or]
  | @lits ls hne hword =>
    have hskip : ∀ us : List Tok, treiberTok k (ls.map .lit ++ us) = treiberTok k us := by
      intro us
      clear hne hword
      induction ls with
      | nil => rfl
      | cons l ls ih =>
        rw [List.map_cons, List.cons_append, treiberTok,
          if_neg fun hall => (by cases hall.2.1), stufe_lit, Int.add_zero, ih]
    have hnone := hskip []
    rw [List.append_nil] at hnone
    rw [hskip, hnone]
    rfl
  | block h =>
    rw [treiberTok_closes h]
    simp

theorem treiberTok_member {m : Pair (List Tok)} (h : Value json n m.val)
    (hus : us.head? ≠ some (.mark colon)) :
    treiberTok 1 (m.tokens ++ us) =
      if m.key = fDriver then m.val.head? else (treiberTok 1 m.val).or (treiberTok 1 us) := by
  have htokens : m.tokens ++ us = .str m.key :: .mark colon :: (m.val ++ us) := rfl
  rw [htokens, treiberTok]
  by_cases hkey : m.key = fDriver
  · rw [if_pos ⟨rfl, congrArg Token.str hkey, rfl⟩, if_pos hkey]
    exact List.head?_append_of_ne_nil _ (value_ne_nil h)
  · rw [if_neg fun hall => hkey (Token.str.inj hall.2.1), if_neg hkey, treiberTok_mark]
    exact treiberTok_value h hus

theorem treiberTok_more {ms : List (Pair (List Tok))} (hms : ∀ m ∈ ms, Value json n m.val) :
    treiberTok 1 (more comma braceClose (ms.map Pair.tokens)) = ersterTreiber ms := by
  induction ms with
  | nil => rfl
  | cons m ms ih =>
    have hhead : (more comma braceClose (ms.map Pair.tokens)).head? ≠ some (.mark colon) := by
      cases ms with
      | nil => exact fun heq => absurd (Token.mark.inj (Option.some.inj heq)) (by decide)
      | cons m ms => exact fun heq => absurd (Token.mark.inj (Option.some.inj heq)) (by decide)
    rw [List.map_cons, more, treiberTok_mark, ersterTreiber]
    refine (treiberTok_member (hms m List.mem_cons_self) hhead).trans ?_
    rw [ih fun m hm => hms m (List.mem_cons_of_mem _ hm)]

theorem treiberTok_objekt {ms : List (Pair (List Tok))} (hms : ∀ m ∈ ms, Value json n m.val) :
    treiberTok 0 (objekt ms) = ersterTreiber ms := by
  cases ms with
  | nil => rfl
  | cons m ms =>
    have hmore := treiberTok_more hms
    rw [List.map_cons, more, treiberTok_mark] at hmore
    rw [objekt, List.map_cons, bracketed, treiberTok_mark]
    exact hmore

end

structure Mitglieder (d : List UInt8) (ms : List (Pair (List Tok))) : Prop where
  spells : Spells json d (objekt ms)
  werte : ∀ m ∈ ms, Value json (maxDepth - 1) m.val
  passen : ∃ t, alleAblegen maxTopKeys [] ms = .ok t

def HatTreiber (d name : List UInt8) : Prop :=
  (topPairs d).map (fun out => find out fDriver) = .ok (some (quote :: (name ++ [quote])))

def letzterTreiber (ms : List (Pair (List Tok))) : Option (List Tok) :=
  (ms.filter fun m => decide (m.key = fDriver)).getLast?.map Pair.val

/-- The first `"driver":` has the string of the last member `driver`, or neither has a name. -/
def Einig (ms : List (Pair (List Tok))) : Prop :=
  ∃ s, letzterTreiber ms = some [.str s] ∧
    (ersterTreiber ms = some (.str s) ∨
      ¬ Treibername s ∧ ∀ name, ersterTreiber ms = some (.str name) → ¬ Treibername name)

section

variable {d stream name : List UInt8} {ms : List (Pair (List Tok))}

theorem exists_mitglieder {out : List (Pair (List UInt8))} (h : topPairs d = .ok out) :
    ∃ ms, Mitglieder d ms := by
  obtain ⟨ms, t, hd, hms, hall, -⟩ := topPairs_sound h
  exact ⟨ms, hd, hms, t, hall⟩

theorem find_eq_letzterTreiber {t : List (Pair (List Tok))}
    (h : alleAblegen maxTopKeys [] ms = .ok t) : find t fDriver = letzterTreiber ms := by
  rw [find_alleAblegen h]
  exact Option.or_none

theorem treibernameGleich_iff (hname : Treibername name) (hms : Mitglieder d ms) :
    treibernameGleich d name = true ↔ ersterTreiber ms = some (.str name) := by
  have hlen : ¬ (name = [] ∨ maxTreiberName < name.length) :=
    not_or.mpr ⟨hname.ne_nil, Nat.not_lt.mpr hname.le⟩
  rw [treibernameGleich, if_neg hlen, treiberSuche_spells hname hms.spells,
    treiberTok_objekt hms.werte, decide_eq_true_iff]

theorem hatTreiber_iff (hname : Treibername name) (hms : Mitglieder d ms) :
    HatTreiber d name ↔ letzterTreiber ms = some [.str name] := by
  obtain ⟨t, hall⟩ := hms.passen
  obtain ⟨out, hout, hrel⟩ := topPairs_complete hms.spells hms.werte hall
  have htext : (Token.str name).text json = quote :: (name ++ [quote]) := rfl
  have hhas : HatTreiber d name ↔ find out fDriver = some (quote :: (name ++ [quote])) := by
    rw [HatTreiber, hout]
    exact ⟨Except.ok.inj, fun heq => congrArg Except.ok heq⟩
  rw [hhas, ← find_eq_letzterTreiber hall]
  rcases find_rel hrel fDriver with ⟨hnone, hnone'⟩ | ⟨x, v, hx, hv, hread⟩
  · rw [hnone, hnone']
    simp
  · rw [hx, hv, Option.some.injEq, Option.some.injEq]
    constructor
    · intro heq
      have hbody : (Token.str name).Valid json := stringBody_schlicht hname.schlicht
      have hone :=
        Spells.token (L := json) (t := .str name) (d := []) (.nil (by simp)) hbody trivial
      rw [List.append_nil, htext, ← heq] at hone
      exact hone.unique hread.spells
    · rintro rfl
      exact gelesen_token hread

theorem letzterTreiber_of_stream (hms : Mitglieder d ms)
    (hstream : canonicalStream d = .ok stream) :
    ∃ qs, Mitglieder stream qs ∧
      ∀ s, letzterTreiber qs = some [.str s] ↔ letzterTreiber ms = some [.str s] := by
  obtain ⟨t, hall⟩ := hms.passen
  obtain ⟨out, hout, hrel⟩ := topPairs_complete hms.spells hms.werte hall
  have hnodup := (alleAblegen_nodup keys_nil (Nat.zero_le _) hall).1
  obtain rfl : stream = kanonik flach t := by
    rw [canonicalStream, hout] at hstream
    cases hstream
    exact kanonik_gelesen hrel
  obtain ⟨qs, hqs, hspells, hvalue, hself⟩ := table_of_stream hms.spells hms.werte hall
  have hsigned : find (signiert t) fDriver = letzterTreiber ms := by
    rw [find_signiert hnodup, if_neg (by decide), find_eq_letzterTreiber hall]
  refine ⟨qs, ⟨hspells, hvalue, qs, hself⟩, fun s => ?_⟩
  rw [← find_eq_letzterTreiber hself, ← hsigned]
  rcases find_rel hqs fDriver with ⟨hnone, hnone'⟩ | ⟨x, y, hx, hy, hfused⟩
  · rw [hnone, hnone']
  · rw [hx, hy, Option.some.injEq, Option.some.injEq]
    constructor
    · rintro rfl
      exact hfused.eq_str
    · rintro rfl
      exact hfused.of_single

theorem gleich_of_einig (hms : Mitglieder d ms) (h : Einig ms) (hname : Treibername name) :
    treibernameGleich d name = true ↔ HatTreiber d name := by
  obtain ⟨s, hs, hagree⟩ := h
  rw [treibernameGleich_iff hname hms, hatTreiber_iff hname hms, hs]
  rcases hagree with hfirst | ⟨hnot, hnone⟩
  · rw [hfirst]
    simp
  · constructor
    · exact fun hfirst => absurd hname (hnone name hfirst)
    · intro hlast
      obtain rfl : s = name := by simpa using hlast
      exact absurd hname hnot

/-- Whatever a run hands over: where the members of the manifest agree, it has the driver that the
entry names. -/
theorem Lauf.lauf_gleicherTreiber {F Q P : Type} (A : Gleitkomma F) (expectedMachine : Nat)
    (quelle : BlockQuelle Q) (anstoss : LadeAnstoss P) (hatLoaderCap : Bool) (q : Q) (p : P)
    (aufrufe : List Aufruf) {pre post : List (Ereignis F Q)} {u : Uebergabe}
    {r : Except LadeFehler Nat}
    (hlog : ((start hatLoaderCap q p).lauf A expectedMachine quelle anstoss aufrufe).protokoll =
      pre ++ .anstossen (.ok u) r :: post) :
    ∃ e, parseEntry u.eintrag = .ok e ∧ ∀ ms, Mitglieder u.manifest ms → Einig ms →
      Treibername e.driver → HatTreiber u.manifest e.driver := by
  have hgeprueft : NurGeprueft A expectedMachine (fun _ => True) hatLoaderCap
      ((start hatLoaderCap q p).lauf A expectedMachine quelle anstoss aufrufe).protokoll :=
    ((Inv.start hatLoaderCap q p).lauf aufrufe).geprueft
  obtain ⟨-, pr, hpr⟩ := hgeprueft pre u r post hlog
  obtain ⟨e, he, -, -, hname⟩ := hpr.gilt.eintrag
  rw [hpr.eintrag, hpr.manifest]
  exact ⟨e, he, fun ms hms hagree hvalid => (gleich_of_einig hms hagree hvalid).mp hname⟩

theorem einig_of_gleich {s : List UInt8} (hms : Mitglieder d ms)
    (hs : letzterTreiber ms = some [.str s])
    (h : ∀ name, Treibername name → (treibernameGleich d name = true ↔ HatTreiber d name)) :
    Einig ms := by
  by_cases hfirst : ersterTreiber ms = some (.str s)
  · exact ⟨s, hs, .inl hfirst⟩
  refine ⟨s, hs, .inr ⟨fun hname => ?_, fun name hname hvalid => ?_⟩⟩
  · have hhas := (hatTreiber_iff hname hms).mpr hs
    exact hfirst ((treibernameGleich_iff hname hms).mp ((h s hname).mpr hhas))
  · have hhas := (h name hvalid).mp ((treibernameGleich_iff hvalid hms).mpr hname)
    have hlast := (hatTreiber_iff hvalid hms).mp hhas
    rw [hs] at hlast
    obtain rfl : s = name := by simpa using hlast
    exact hfirst hname

theorem hatTreiber_of_stream (hname : Treibername name) (hms : Mitglieder d ms)
    (hstream : canonicalStream d = .ok stream) : HatTreiber d name ↔ HatTreiber stream name := by
  obtain ⟨qs, hqs, hsame⟩ := letzterTreiber_of_stream hms hstream
  rw [hatTreiber_iff hname hms, hatTreiber_iff hname hqs, hsame]

/-- The scanner compares with what is signed exactly for the manifests whose first and last `driver`
agree; among these the stream determines the name. -/
theorem treibername_bindung {F : Type} (A : Gleitkomma F) (d : List UInt8) (f : ManifestFacts F)
    (h : manifestFacts A d = .ok f) :
    (∃ ms, Mitglieder d ms) ∧ ∀ ms, Mitglieder d ms →
      ((∀ name, Treibername name → (treibernameGleich d name = true ↔ HatTreiber d name)) ↔
        Einig ms) ∧
      ∀ d' f' ms', manifestFacts A d' = .ok f' → Mitglieder d' ms' →
        canonicalStream d' = canonicalStream d → Einig ms → Einig ms' →
        ∀ name, Treibername name → treibernameGleich d' name = treibernameGleich d name := by
  obtain ⟨out, hout, -⟩ := bind_eq_ok.mp h
  refine ⟨exists_mitglieder hout, fun ms hms => ?_⟩
  obtain ⟨t, hall⟩ := hms.passen
  obtain ⟨out₁, hout₁, hrel⟩ := topPairs_complete hms.spells hms.werte hall
  obtain ⟨s, hs, -⟩ := ((manifestFacts_of_spells hms.werte hall hout₁ hrel f).mp h).treiber
  rw [find_eq_letzterTreiber hall] at hs
  refine ⟨⟨einig_of_gleich hms hs, fun hagree name => gleich_of_einig hms hagree⟩, ?_⟩
  rintro d' - ms' - hms' heq hagree hagree' name hname
  have hstream : canonicalStream d = .ok (kanonik kompakt out) := by
    rw [canonicalStream, hout]
    rfl
  rw [Bool.eq_iff_iff, gleich_of_einig hms' hagree' hname, gleich_of_einig hms hagree hname,
    hatTreiber_of_stream hname hms' (heq.trans hstream), hatTreiber_of_stream hname hms hstream]

end

def netzkarteDoppelt : List UInt8 := ascii
  "\x7b\"driver\":\"x\",\"driver\":\"e\",\"coverage_pct\":100,\"irq_vector\":9,
  \"schema_version\":1,\"grants_bar\":[\x7b\"size\":4\x7d],\"dma_window\":\x7b\"size\":8\x7d,
  \"trampolines\":[]\x7d"

set_option maxRecDepth 4096 in
theorem treibername_e : Treibername [0x65] where
  ne_nil := by decide
  le := by decide
  schlicht := by decide

set_option maxRecDepth 2048 in
theorem facts_netzkarteDoppelt :
    manifestFacts genau netzkarteDoppelt = .ok (netzkarteFakten false) ∧
      canonicalStream netzkarteDoppelt = canonicalStream netzkarte ∧
      treibernameGleich netzkarteDoppelt [0x65] = false ∧
      HatTreiber netzkarteDoppelt [0x65] := by
  have hzeichen : netzkarte = _ := ascii_ofList _
  have hdoppelt : netzkarteDoppelt = _ := ascii_ofList _
  rw [hzeichen, hdoppelt, HatTreiber]
  exact ⟨by decide +kernel, by decide +kernel, by decide +kernel, by decide +kernel⟩

set_option maxRecDepth 2048 in
theorem gleich_netzkarte :
    treibernameGleich netzkarte [0x65] = true ∧ HatTreiber netzkarte [0x65] := by
  have hzeichen : netzkarte = _ := ascii_ofList _
  rw [hzeichen, HatTreiber]
  exact ⟨by decide +kernel, by decide +kernel⟩

/-- With two members `driver` the scanner compares with the first and the signature covers the
last. -/
theorem treibername_doppelt :
    (¬ ∀ (d : List UInt8) (f : ManifestFacts ℚ), manifestFacts genau d = .ok f →
      ∀ name, Treibername name → (treibernameGleich d name = true ↔ HatTreiber d name)) ∧
    ¬ ∀ (d d' : List UInt8) (f f' : ManifestFacts ℚ), manifestFacts genau d = .ok f →
      manifestFacts genau d' = .ok f' → canonicalStream d' = canonicalStream d →
      ∀ name, Treibername name → treibernameGleich d' name = treibernameGleich d name := by
  obtain ⟨hfacts, hstream, hnot, hlast⟩ := facts_netzkarteDoppelt
  obtain ⟨hgleich, -⟩ := gleich_netzkarte
  constructor
  · intro h
    have hfalse := (h _ _ hfacts _ treibername_e).mpr hlast
    rw [hnot] at hfalse
    cases hfalse
  · intro h
    have hsame := h _ _ _ _ facts_netzkarte hfacts hstream _ treibername_e
    rw [hnot, hgleich] at hsame
    cases hsame

/-- One member `driver`: the comparison is right about every name. -/
theorem treibername_netzkarte : manifestFacts genau netzkarte = .ok (netzkarteFakten false) ∧
    ∀ name, Treibername name →
      (treibernameGleich netzkarte name = true ↔ HatTreiber netzkarte name) := by
  refine ⟨facts_netzkarte, ?_⟩
  obtain ⟨⟨ms, hms⟩, hall⟩ :=
    treibername_bindung genau netzkarte (netzkarteFakten false) facts_netzkarte
  obtain ⟨hgleich, hhas⟩ := gleich_netzkarte
  exact (hall ms hms).1.mpr ⟨[0x65], (hatTreiber_iff treibername_e hms).mp hhas,
    .inl ((treibernameGleich_iff treibername_e hms).mp hgleich)⟩

end Caprock.Lxpd
