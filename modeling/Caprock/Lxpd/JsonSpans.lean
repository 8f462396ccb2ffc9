import Caprock.Lib.Panic
import Caprock.Lxpd.JsonObjects

/-! # Spans as positions

The span functions as the source has them, on positions in the text, with every index that may lie
outside and every loop counted.  Each is compared with its reading on the text from the position
on; so none of them panics, all of them end, and what they return lies inside the text, is
balanced, and does not overlap.
-/

namespace Caprock.Lxpd.Stellen

open Checks Panic Spelling

abbrev Spanne : Type := Nat × Nat

def stueck (d : List UInt8) (s : Spanne) : List UInt8 := (d.drop s.1).take (s.2 - s.1)

/-- `Err(BadManifest)`. -/
def abgelehnt {α : Type} : Call LxpdError α := .error (.err .badManifest)

def skipLauf (d : List UInt8) : Nat → Nat → Call LxpdError Nat
  | 0, _ => .error .outOfSteps
  | f + 1, pos =>
      match d[pos]? with
      | some b => if isWs b then skipLauf d f (pos + 1) else .ok pos
      | none => .ok pos

def skipWs (d : List UInt8) (pos : Nat) : Call LxpdError Nat := skipLauf d (d.length + 1) pos

def stringLauf (d : List UInt8) : Nat → Nat → Call LxpdError Nat
  | 0, _ => .error .outOfSteps
  | f + 1, i =>
      match d[i]? with
      | none => abgelehnt
      | some b =>
          if b = quote then .ok (i + 1)
          else if b = backslash then
            match d[i + 1]? with
            | none => abgelehnt
            | some _ => stringLauf d f (i + 2)
          else if b < 0x20 then abgelehnt
          else stringLauf d f (i + 1)

def stringSpan (d : List UInt8) (pos : Nat) : Call LxpdError Spanne :=
  if d[pos]? ≠ some quote then abgelehnt
  else (stringLauf d (d.length + 1) (pos + 1)).bind fun e => .ok (pos, e)

def klammerLauf (d : List UInt8) : Nat → List UInt8 → Nat → Nat → Call LxpdError Nat
  | 0, _, _, _ => .error .outOfSteps
  | f + 1, stack, depth, i =>
      match d[i]? with
      | none => abgelehnt
      | some b =>
          if b = quote then (stringSpan d i).bind fun s => klammerLauf d f stack depth s.2
          else if b = braceOpen ∨ b = bracketOpen then
            if maxDepth ≤ depth then abgelehnt
            else (write stack depth b).bind fun stack => klammerLauf d f stack (depth + 1) (i + 1)
          else if b = braceClose ∨ b = bracketClose then
            if depth = 0 then abgelehnt
            else
              (sub depth 1).bind fun depth => (read stack depth).bind fun o =>
              if passt o b = false then abgelehnt
              else if depth = 0 then .ok (i + 1)
              else klammerLauf d f stack depth (i + 1)
          else klammerLauf d f stack depth (i + 1)

def balancedSpan (d : List UInt8) (pos : Nat) : Call LxpdError Spanne :=
  match d[pos]? with
  | none => abgelehnt
  | some b =>
      if b ≠ braceOpen ∧ b ≠ bracketOpen then abgelehnt
      else
        (klammerLauf d (d.length + 1) (List.replicate maxDepth 0) 0 pos).bind fun e => .ok (pos, e)

def literalLauf (d : List UInt8) : Nat → Nat → Call LxpdError Nat
  | 0, _ => .error .outOfSteps
  | f + 1, i =>
      match d[i]? with
      | none => abgelehnt
      | some c =>
          if isDelim c then .ok i
          else if (isWord c || isWs c) = false then abgelehnt
          else literalLauf d f (i + 1)

def kuerze (d : List UInt8) (pos : Nat) : Nat → Nat
  | 0 => 0
  | e + 1 => if pos < e + 1 ∧ (d[e]?).any isWs then kuerze d pos e else e + 1

def valueSpan (d : List UInt8) (pos : Nat) : Call LxpdError Spanne :=
  match d[pos]? with
  | none => abgelehnt
  | some b =>
      if b = quote then stringSpan d pos
      else if b = braceOpen ∨ b = bracketOpen then balancedSpan d pos
      else
        (literalLauf d (d.length + 1) pos).bind fun i =>
        let ende := kuerze d pos i
        if ende = pos then abgelehnt else .ok (pos, ende)

structure Paar where
  key : Spanne
  val : Spanne
  deriving DecidableEq

/-- `span.get(lo..hi)`. -/
def bereich (d : List UInt8) (lo hi : Nat) : Call LxpdError Spanne :=
  if lo ≤ hi ∧ hi ≤ d.length then .ok (lo, hi) else abgelehnt

def ersetzeLauf (d : List UInt8) (key val : Spanne) (out : List Paar) :
    Nat → Nat → Option (List Paar)
  | 0, _ => none
  | m + 1, k =>
      match out[k]? with
      | some p =>
          if stueck d p.key = stueck d key then some (out.set k { p with val := val })
          else ersetzeLauf d key val out m (k + 1)
      | none => ersetzeLauf d key val out m (k + 1)

def lege (d : List UInt8) (key val : Spanne) (out : List Paar) (n : Nat) :
    Call LxpdError (List Paar × Nat) :=
  match ersetzeLauf d key val out n 0 with
  | some out => .ok (out, n)
  | none => if n < out.length then .ok (out.set n ⟨key, val⟩, n + 1) else abgelehnt

/-- One turn of the loop of `parse_object_into`, and the position behind it. -/
def mitglied (d : List UInt8) (out : List Paar) (n pos : Nat) :
    Call LxpdError ((List Paar × Nat) × Nat) :=
  (stringSpan d pos).bind fun k =>
  (sub k.2 1).bind fun ke => (bereich d (k.1 + 1) ke).bind fun key =>
  (skipWs d k.2).bind fun pos =>
  if d[pos]? ≠ some colon then abgelehnt
  else
    (skipWs d (pos + 1)).bind fun pos =>
    (valueSpan d pos).bind fun v => (bereich d v.1 v.2).bind fun val =>
    (lege d key val out n).bind fun r => .ok (r, v.2)

def objektLauf (d : List UInt8) : Nat → List Paar → Nat → Nat → Call LxpdError (List Paar × Nat)
  | 0, _, _, _ => .error .outOfSteps
  | f + 1, out, n, pos =>
      (mitglied d out n pos).bind fun r => (skipWs d r.2).bind fun pos =>
      match d[pos]? with
      | none => abgelehnt
      | some b =>
          if b = comma then
            (skipWs d (pos + 1)).bind fun pos => objektLauf d f r.1.1 r.1.2 pos
          else if b = braceClose then .ok r.1
          else abgelehnt

/-- The members of an object, in a buffer that is handed in, and their number. -/
def parseObjectInto (span : List UInt8) (out : List Paar) : Call LxpdError (List Paar × Nat) :=
  if span.head? ≠ some braceOpen ∨ span.getLast? ≠ some braceClose then abgelehnt
  else
    (skipWs span 1).bind fun pos =>
    if span[pos]? = some braceClose then .ok (out, 0)
    else objektLauf span (span.length + 1) out 0 pos

/-- The span of the one object, and its members as positions in that span. -/
def topPairs (json : List UInt8) (buf : List Paar) :
    Call LxpdError (Spanne × (List Paar × Nat)) :=
  (skipWs json 0).bind fun pos => (valueSpan json pos).bind fun s =>
  (skipWs json s.2).bind fun rest =>
  if rest ≠ json.length then abgelehnt
  else
    (bereich json s.1 s.2).bind fun s =>
    if (stueck json s).head? ≠ some braceOpen then abgelehnt
    else (parseObjectInto (stueck json s) buf).bind fun r => .ok (s, r)

def findLauf (d : List UInt8) (pairs : List Paar) (key : List UInt8) : Nat → Nat → Option Spanne
  | 0, _ => none
  | m + 1, i =>
      match pairs[i]? with
      | some p => if stueck d p.key = key then some p.val else findLauf d pairs key m (i + 1)
      | none => findLauf d pairs key m (i + 1)

def find (d : List UInt8) (pairs : List Paar) (n : Nat) (key : List UInt8) : Option Spanne :=
  findLauf d pairs key n 0

section

variable {d : List UInt8} {i : Nat}

theorem drop_of_none (h : d[i]? = none) : d.drop i = [] :=
  List.drop_of_length_le (List.getElem?_eq_none_iff.mp h)

theorem drop_of_some {b : UInt8} (h : d[i]? = some b) : d.drop i = b :: d.drop (i + 1) := by
  obtain ⟨hlt, rfl⟩ := List.getElem?_eq_some_iff.mp h
  exact List.drop_eq_getElem_cons hlt

theorem lt_of_some {b : UInt8} (h : d[i]? = some b) : i < d.length :=
  (List.getElem?_eq_some_iff.mp h).1

def endeVon (i : Nat) (x : Span) : Nat := i + x.1.length

theorem drop_endeVon {x : Span} (h : Cut (d.drop i) x) : d.drop (endeVon i x) = x.2 := by
  have hcut := congrArg (List.drop x.1.length) h.eq
  rw [List.drop_left, List.drop_drop] at hcut
  exact hcut.symm

theorem endeVon_le {x : Span} (h : Cut (d.drop i) x) :
    i < endeVon i x ∧ endeVon i x ≤ d.length := by
  have hlen := congrArg List.length h.eq
  have hpos := List.length_pos_of_ne_nil h.ne_nil
  rw [List.length_append, List.length_drop] at hlen
  unfold endeVon
  omega

theorem stueck_endeVon {x : Span} (h : Cut (d.drop i) x) : stueck d (i, endeVon i x) = x.1 := by
  rw [stueck, ← h.eq]
  simp [endeVon]

theorem map_behind {s : List UInt8} {x : Except LxpdError Span} :
    (x.map (Span.behind s)).map (endeVon i) = x.map (endeVon (i + s.length)) := by
  cases x with
  | error e => rfl
  | ok x =>
    refine congrArg Except.ok ?_
    simp only [endeVon, Span.behind, List.length_append]
    omega

theorem skipLauf_eq {f : Nat} (hpos : 0 < f) (hf : d.length < f + i) :
    ∃ p, skipLauf d f i = .ok p ∧ d.drop p = Lxpd.skipWs (d.drop i) ∧ i ≤ p ∧
      (i ≤ d.length → p ≤ d.length) := by
  induction f generalizing i with
  | zero => exact absurd hpos (Nat.lt_irrefl 0)
  | succ f ih =>
    rw [skipLauf]
    cases hb : d[i]? with
    | none =>
      refine ⟨i, rfl, ?_, Nat.le_refl i, fun h => h⟩
      rw [drop_of_none hb]
      rfl
    | some b =>
      have hlt := lt_of_some hb
      rw [drop_of_some hb, Lxpd.skipWs, List.dropWhile_cons]
      by_cases hws : isWs b = true
      · obtain ⟨p, hrun, hdrop, hle, hin⟩ := ih (i := i + 1) (by omega) (by omega)
        simp only [hws, if_true]
        exact ⟨p, hrun, hdrop, by omega, fun _ => hin (by omega)⟩
      · simp only [hws]
        exact ⟨i, rfl, drop_of_some hb, Nat.le_refl i, fun h => h⟩

theorem skipWs_eq (d : List UInt8) (i : Nat) :
    ∃ p, skipWs d i = .ok p ∧ d.drop p = Lxpd.skipWs (d.drop i) ∧ i ≤ p ∧
      (i ≤ d.length → p ≤ d.length) :=
  skipLauf_eq (Nat.succ_pos _) (by omega)

theorem stringLauf_eq {f : Nat} (hpos : 0 < f) (hf : d.length < f + i) :
    stringLauf d f i = quiet ((stringEnd (d.drop i)).map (endeVon i)) := by
  induction f generalizing i with
  | zero => exact absurd hpos (Nat.lt_irrefl 0)
  | succ f ih =>
    rw [stringLauf]
    cases hb : d[i]? with
    | none =>
      rw [drop_of_none hb]
      rfl
    | some b =>
      have hlt := lt_of_some hb
      rw [drop_of_some hb, stringEnd.eq_def]
      dsimp only
      by_cases hquote : b = quote
      · rw [if_pos hquote, if_pos hquote]
        rfl
      rw [if_neg hquote, if_neg hquote]
      by_cases hback : b = backslash
      · rw [if_pos hback, if_pos hback]
        cases he : d[i + 1]? with
        | none =>
          rw [drop_of_none he]
          rfl
        | some e =>
          have hlt' := lt_of_some he
          rw [drop_of_some he]
          rw [map_behind]
          exact ih (by omega) (by omega)
      · rw [if_neg hback, if_neg hback]
        by_cases hctl : b < 0x20
        · rw [if_pos hctl, if_pos hctl]
          rfl
        · rw [if_neg hctl, if_neg hctl, map_behind]
          exact ih (by omega) (by omega)

def spanneVon (pos : Nat) (x : Span) : Spanne := (pos, endeVon pos x)

theorem bind_quiet_map {x : Except LxpdError Span} (g : Span → Nat) (pos : Nat) :
    (quiet (x.map g)).bind (fun e => (.ok (pos, e) : Call LxpdError Spanne)) =
      quiet (x.map fun y => (pos, g y)) := by
  cases x with
  | error e | ok x => rfl

theorem stringSpan_eq (d : List UInt8) (pos : Nat) :
    stringSpan d pos = quiet ((Lxpd.stringSpan (d.drop pos)).map (spanneVon pos)) := by
  unfold stringSpan
  cases hb : d[pos]? with
  | none =>
    rw [drop_of_none hb]
    rfl
  | some b =>
    rw [drop_of_some hb, Lxpd.stringSpan]
    by_cases hquote : b = quote
    · rw [if_neg (by simp [hquote]), if_neg (by simp [hquote]),
        stringLauf_eq (Nat.succ_pos _) (by omega), bind_quiet_map]
      cases stringEnd (d.drop (pos + 1)) with
      | error e => rfl
      | ok x =>
        refine congrArg (fun e => (.ok (pos, e) : Call LxpdError Spanne)) ?_
        simp only [endeVon, Span.behind, List.length_append, List.length_singleton]
        omega
    · rw [if_pos (by simp [hquote]), if_pos hquote]
      rfl

/-- The open brackets, the innermost first, as the array of the source holds them. -/
structure Stapel (stack : List UInt8) (depth : Nat) (offen : List UInt8) : Prop where
  breite : stack.length = maxDepth
  tiefe : depth = offen.length
  inhalt : stack.take depth = offen.reverse
  le : depth ≤ maxDepth

theorem stapel_leer : Stapel (List.replicate maxDepth 0) 0 [] where
  breite := List.length_replicate
  tiefe := rfl
  inhalt := rfl
  le := Nat.zero_le _

theorem Stapel.push {stack offen : List UInt8} {depth : Nat} (h : Stapel stack depth offen)
    (hlt : ¬ maxDepth ≤ depth) (b : UInt8) :
    Stapel (stack.set depth b) (depth + 1) (b :: offen) where
  breite := List.length_set.trans h.breite
  tiefe := congrArg (· + 1) h.tiefe
  inhalt := by
    have hin : depth < stack.length := by
      rw [h.breite]
      omega
    rw [List.take_add_one, List.take_set_of_le (Nat.le_refl _), h.inhalt,
      List.getElem?_set_self hin]
    simp
  le := by omega

theorem Stapel.pop {stack offen : List UInt8} {depth : Nat} {o : UInt8}
    (h : Stapel stack (depth + 1) (o :: offen)) :
    stack[depth]? = some o ∧ Stapel stack depth offen := by
  have hdepth : depth = offen.length := Nat.succ_injective h.tiefe
  have hin : depth < stack.length := by
    rw [h.breite]
    exact h.le
  have hall := h.inhalt
  rw [List.take_add_one, List.getElem?_eq_getElem hin, Option.toList_some,
    List.reverse_cons] at hall
  have hboth := List.append_inj' hall rfl
  refine ⟨?_, h.breite, hdepth, hboth.1, by have hle := h.le; omega⟩
  rw [List.getElem?_eq_getElem hin]
  exact congrArg some (List.singleton_inj.mp hboth.2)

theorem read_of_some {stack : List UInt8} {n : Nat} {o : UInt8} (h : stack[n]? = some o) :
    (read stack n : Call LxpdError UInt8) = .ok o := by
  unfold Panic.read
  rw [h]

theorem klammerLauf_eq {f : Nat} {stack offen : List UInt8} {depth : Nat}
    (h : Stapel stack depth offen) (hpos : 0 < f) (hf : d.length < f + i) :
    klammerLauf d f stack depth i = quiet ((balancedEnd offen (d.drop i)).map (endeVon i)) := by
  induction f generalizing stack offen depth i with
  | zero => exact absurd hpos (Nat.lt_irrefl 0)
  | succ f ih =>
    rw [klammerLauf]
    cases hb : d[i]? with
    | none =>
      rw [drop_of_none hb, balancedEnd]
      rfl
    | some b =>
      have hlt := lt_of_some hb
      have hdepth := h.tiefe
      rw [drop_of_some hb, balancedEnd.eq_def]
      dsimp only
      by_cases hquote : b = quote
      · rw [if_pos hquote, if_pos hquote, stringSpan_eq, drop_of_some hb]
        split
        · next e he =>
          rw [he]
          rfl
        · next s r hs =>
          have hcut : Cut (d.drop i) (s, r) := by
            rw [drop_of_some hb]
            exact stringSpan_cut hs
          obtain ⟨hmore, hin⟩ := endeVon_le hcut
          rw [hs, map_behind]
          refine (ih (i := endeVon i (s, r)) h (by omega) (by omega)).trans ?_
          rw [drop_endeVon hcut]
          rfl
      rw [if_neg hquote, if_neg hquote]
      by_cases hopen : b = braceOpen ∨ b = bracketOpen
      · rw [if_pos hopen, if_pos hopen, hdepth]
        by_cases hfull : maxDepth ≤ offen.length
        · rw [if_pos hfull, if_pos hfull]
          rfl
        · have hroom : offen.length < stack.length := by
            rw [h.breite]
            omega
          rw [if_neg hfull, if_neg hfull, write_bind hroom, map_behind, ← hdepth]
          exact ih (h.push (by omega) b) (by omega) (by omega)
      rw [if_neg hopen, if_neg hopen]
      by_cases hclose : b = braceClose ∨ b = bracketClose
      · rw [if_pos hclose, if_pos hclose]
        cases offen with
        | nil =>
          rw [if_pos (show depth = 0 from hdepth)]
          rfl
        | cons o offen =>
          obtain ⟨n, rfl⟩ : ∃ n, depth = n + 1 := ⟨offen.length, hdepth⟩
          obtain ⟨hread, hrest⟩ := h.pop
          rw [if_neg (Nat.succ_ne_zero n), sub_bind (show 1 ≤ n + 1 by omega),
            Nat.add_sub_cancel, read_of_some hread]
          change (if passt o b = false then _ else _) = _
          dsimp only
          by_cases hfits : passt o b = false
          · rw [if_pos hfits, if_pos hfits]
            rfl
          rw [if_neg hfits, if_neg hfits]
          have hzero : n = 0 ↔ offen = [] := by
            rw [hrest.tiefe, List.length_eq_zero_iff]
          by_cases hlast : n = 0
          · rw [if_pos hlast, if_pos (hzero.mp hlast)]
            rfl
          · rw [if_neg hlast, if_neg fun hnil => hlast (hzero.mpr hnil), map_behind]
            exact ih hrest (by omega) (by omega)
      · rw [if_neg hclose, if_neg hclose, map_behind]
        exact ih h (by omega) (by omega)

theorem balancedSpan_eq (d : List UInt8) (pos : Nat) :
    balancedSpan d pos = quiet ((Lxpd.balancedSpan (d.drop pos)).map (spanneVon pos)) := by
  unfold balancedSpan
  cases hb : d[pos]? with
  | none =>
    rw [drop_of_none hb]
    rfl
  | some b =>
    dsimp only
    rw [klammerLauf_eq stapel_leer (Nat.succ_pos _) (by omega), bind_quiet_map, drop_of_some hb,
      Lxpd.balancedSpan]
    split
    · rfl
    · rfl

theorem literalLauf_eq {f : Nat} (hpos : 0 < f) (hf : d.length < f + i) :
    literalLauf d f i = quiet ((literalEnd (d.drop i)).map fun run => i + run.length) := by
  induction f generalizing i with
  | zero => exact absurd hpos (Nat.lt_irrefl 0)
  | succ f ih =>
    rw [literalLauf]
    cases hb : d[i]? with
    | none =>
      rw [drop_of_none hb]
      rfl
    | some c =>
      have hlt := lt_of_some hb
      dsimp only
      rw [drop_of_some hb, literalEnd]
      by_cases hdelim : isDelim c = true
      · rw [if_pos hdelim, if_pos hdelim]
        rfl
      rw [if_neg hdelim, if_neg hdelim]
      by_cases hgood : (isWord c || isWs c) = false
      · rw [if_pos hgood, if_pos hgood]
        rfl
      · rw [if_neg hgood, if_neg hgood, ih (by omega) (by omega)]
        cases literalEnd (d.drop (i + 1)) with
        | error e => rfl
        | ok run =>
          refine congrArg (fun n => (.ok n : Call LxpdError Nat)) ?_
          dsimp only
          rw [List.length_cons]
          omega

theorem kuerze_self (d : List UInt8) (pos : Nat) : kuerze d pos pos = pos := by
  cases pos with
  | zero => rfl
  | succ n => rw [kuerze, if_neg (by omega)]

theorem kuerze_eq {pos : Nat} {run : List UInt8} (h : run <+: d.drop pos) :
    kuerze d pos (pos + run.length) = pos + (run.rdropWhile isWs).length := by
  induction run using List.reverseRecOn with
  | nil => exact kuerze_self d pos
  | append_singleton run c ih =>
    have hfront : run <+: d.drop pos := (List.prefix_append run [c]).trans h
    have hlast : d[pos + run.length]? = some c := by
      obtain ⟨t, ht⟩ := h
      rw [← List.getElem?_drop, ← ht, List.append_assoc,
        List.getElem?_append_right (Nat.le_refl _)]
      simp
    have hlen : pos + (run ++ [c]).length = pos + run.length + 1 := by
      rw [List.length_append, List.length_singleton]
      omega
    rw [hlen, kuerze, hlast]
    by_cases hws : isWs c = true
    · rw [if_pos ⟨by omega, hws⟩, ih hfront, List.rdropWhile_concat_pos _ _ _ hws]
    · rw [if_neg fun hboth => hws hboth.2, List.rdropWhile_concat_neg _ _ _ hws, ← hlen]

theorem valueSpan_eq (d : List UInt8) (pos : Nat) :
    valueSpan d pos = quiet ((Lxpd.valueSpan (d.drop pos)).map (spanneVon pos)) := by
  unfold valueSpan
  cases hb : d[pos]? with
  | none =>
    rw [drop_of_none hb]
    rfl
  | some b =>
    dsimp only
    rw [drop_of_some hb, Lxpd.valueSpan, ← drop_of_some hb]
    by_cases hquote : b = quote
    · rw [if_pos hquote, if_pos hquote, stringSpan_eq]
    rw [if_neg hquote, if_neg hquote]
    by_cases hopen : b = braceOpen ∨ b = bracketOpen
    · rw [if_pos hopen, if_pos hopen, balancedSpan_eq]
    rw [if_neg hopen, if_neg hopen, literalLauf_eq (Nat.succ_pos _) (by omega)]
    cases hrun : literalEnd (d.drop pos) with
    | error e => rfl
    | ok run =>
      change (if kuerze d pos (pos + run.length) = pos then abgelehnt
        else .ok (pos, kuerze d pos (pos + run.length)) : Call LxpdError Spanne) = _
      rw [kuerze_eq (literalEnd_front hrun)]
      dsimp only [Except.bind]
      by_cases hnil : run.rdropWhile isWs = []
      · rw [if_pos (by simp [hnil]), if_pos hnil]
        rfl
      · have hlen := List.length_pos_of_ne_nil hnil
        rw [if_neg (by omega), if_neg hnil]
        rfl

end

def Paar.bytes (d : List UInt8) (p : Paar) : Pair (List UInt8) :=
  ⟨stueck d p.key, stueck d p.val⟩

/-- The spans do not overlap. -/
def Getrennt (s t : Spanne) : Prop := s.2 ≤ t.1 ∨ t.2 ≤ s.1

/-- No span of the one member overlaps one of the other. -/
structure Paar.Getrennt (p q : Paar) : Prop where
  keyKey : Stellen.Getrennt p.key q.key
  keyVal : Stellen.Getrennt p.key q.val
  valKey : Stellen.Getrennt p.val q.key
  valVal : Stellen.Getrennt p.val q.val

/-- The brackets and the quotation marks of a value are balanced: its tokens are a string, literals,
or a block that closes at its end. -/
def Balanciert (v : List UInt8) : Prop := ∃ ts, Spells json v ts ∧ Value json maxDepth ts

/-- The member lies before `pos`, its key before its value. -/
structure Paar.Innen (d : List UInt8) (pos : Nat) (p : Paar) : Prop where
  key : p.key.1 ≤ p.key.2
  between : p.key.2 ≤ p.val.1
  val : p.val.1 < p.val.2
  le : p.val.2 ≤ pos
  balanciert : Balanciert (stueck d p.val)

structure Fertig (d : List UInt8) (pos : Nat) (l : List Paar) : Prop where
  innen : ∀ p ∈ l, p.Innen d pos
  getrennt : l.Pairwise Paar.Getrennt

section

variable {d : List UInt8}

theorem balanciert_stringSpan {x : Span} (h : Lxpd.stringSpan d = .ok x) : Balanciert x.1 := by
  cases d with
  | nil => cases h
  | cons b d =>
    obtain ⟨s, hs, hspan⟩ := stringSpan_sound h
    rw [hspan]
    refine ⟨[.str s], ?_, .str s⟩
    simpa using Spells.token (L := json) (t := .str s) (d := []) (.nil (by simp)) hs trivial

theorem balanciert_balancedSpan {x : Span} (h : Lxpd.balancedSpan d = .ok x) :
    Balanciert x.1 := by
  cases d with
  | nil => cases h
  | cons b d =>
    obtain ⟨hopen, h⟩ := ite_error_eq_ok.mp h
    have hbracket : isOpen b = true := isOpen_iff.mpr (by
      by_contra hnot
      exact hopen (not_or.mp hnot))
    obtain ⟨ts, hts, hcloses⟩ := balancedEnd_sound h (.inr ⟨b, rfl, hbracket⟩)
    exact ⟨ts, hts, .block hcloses⟩

theorem balanciert_valueSpan {x : Span} (h : Lxpd.valueSpan d = .ok x) : Balanciert x.1 := by
  cases d with
  | nil => cases h
  | cons b d =>
    rw [Lxpd.valueSpan] at h
    split at h
    · exact balanciert_stringSpan h
    split at h
    · exact balanciert_balancedSpan h
    · obtain ⟨run, hrun, h⟩ := bind_eq_ok.mp h
      obtain ⟨hne, h⟩ := ite_error_eq_ok.mp h
      cases h
      have hgood : ∀ c ∈ run.rdropWhile isWs, isWord c = true ∨ isWs c = true := fun c hc =>
        literalEnd_sound hrun c ((List.rdropWhile_prefix isWs run).subset hc)
      obtain ⟨ls, hls, hword⟩ := spells_lits hgood
      refine ⟨ls.map .lit, hls, .lits ?_ hword⟩
      rintro rfl
      have hwhite : isWs _ = true := hls.all_white _ (List.getLast_mem hne)
      exact List.rdropWhile_last_not isWs run hne hwhite

theorem Fertig.mono {pos pos' : Nat} {l : List Paar} (h : Fertig d pos l) (hle : pos ≤ pos') :
    Fertig d pos' l where
  innen := fun p hp =>
    let hin := h.innen p hp
    ⟨hin.key, hin.between, hin.val, Nat.le_trans hin.le hle, hin.balanciert⟩
  getrennt := h.getrennt

theorem getrennt_of_behind {pos pos' : Nat} {p q : Paar} (hp : p.Innen d pos) (hq : q.Innen d pos')
    (hkey : pos ≤ q.key.1) : p.Getrennt q where
  keyKey := .inl (by have h := hp.between; have h' := hp.val; have h'' := hp.le; omega)
  keyVal := .inl (by
    have h := hp.between
    have h' := hp.val
    have h'' := hp.le
    have h₃ := hq.key
    have h₄ := hq.between
    omega)
  valKey := .inl (by have h := hp.le; omega)
  valVal := .inl (by have h := hp.le; have h₃ := hq.key; have h₄ := hq.between; omega)

theorem Fertig.concat {pos pos' : Nat} {l : List Paar} {q : Paar} (h : Fertig d pos l)
    (hle : pos ≤ pos') (hq : q.Innen d pos') (hkey : pos ≤ q.key.1) :
    Fertig d pos' (l ++ [q]) where
  innen := by
    intro p hp
    rcases List.mem_append.mp hp with hp | hp
    · exact (h.mono hle).innen p hp
    · obtain rfl := List.mem_singleton.mp hp
      exact hq
  getrennt := by
    refine List.pairwise_append.mpr ⟨h.getrennt, List.pairwise_singleton _ _, fun p hp r hr => ?_⟩
    obtain rfl := List.mem_singleton.mp hr
    exact getrennt_of_behind (h.innen p hp) hq hkey

theorem pairwise_set {α : Type} {R : α → α → Prop} {l : List α} (h : l.Pairwise R) {j : Nat} {x : α}
    (hleft : ∀ i a, i < j → l[i]? = some a → R a x)
    (hright : ∀ i a, j < i → l[i]? = some a → R x a) : (l.set j x).Pairwise R := by
  induction l generalizing j with
  | nil => exact List.Pairwise.nil
  | cons b l ih =>
    obtain ⟨hb, hl⟩ := List.pairwise_cons.mp h
    cases j with
    | zero =>
      refine List.pairwise_cons.mpr ⟨fun a ha => ?_, hl⟩
      obtain ⟨i, hi⟩ := List.mem_iff_getElem?.mp ha
      exact hright (i + 1) a (Nat.succ_pos i) hi
    | succ j =>
      refine List.pairwise_cons.mpr ⟨fun a ha => ?_, ?_⟩
      · rcases List.mem_or_eq_of_mem_set ha with ha | rfl
        · exact hb a ha
        · exact hleft 0 b (Nat.succ_pos j) rfl
      · exact ih hl (fun i a hi ha => hleft (i + 1) a (by omega) ha)
          fun i a hi ha => hright (i + 1) a (by omega) ha

/-- A value that is replaced by one behind all others. -/
theorem Fertig.set {pos pos' : Nat} {l : List Paar} {j : Nat} {p : Paar} {v : Spanne}
    (h : Fertig d pos l) (hle : pos ≤ pos') (hp : l[j]? = some p) (hv : pos ≤ v.1)
    (hpos : v.1 < v.2) (hin : v.2 ≤ pos') (hbal : Balanciert (stueck d v)) :
    Fertig d pos' (l.set j { p with val := v }) where
  innen := by
    intro q hq
    rcases List.mem_or_eq_of_mem_set hq with hq | rfl
    · exact (h.mono hle).innen q hq
    · have hold := h.innen p (List.mem_of_getElem? hp)
      refine ⟨hold.key, ?_, hpos, hin, hbal⟩
      have h₁ := hold.between
      have h₂ := hold.val
      have h₃ := hold.le
      dsimp only
      omega
  getrennt := by
    have hbefore : ∀ a ∈ l, a.key.2 ≤ v.1 ∧ a.val.2 ≤ v.1 := by
      intro a ha
      have hold := h.innen a ha
      have h₁ := hold.between
      have h₂ := hold.val
      have h₃ := hold.le
      omega
    have hpair := List.pairwise_iff_getElem.mp h.getrennt
    obtain ⟨hj, hjp⟩ := List.getElem?_eq_some_iff.mp hp
    refine pairwise_set h.getrennt (fun i a hij ha => ?_) fun i a hji ha => ?_
    · obtain ⟨hi, rfl⟩ := List.getElem?_eq_some_iff.mp ha
      obtain ⟨hkey, hval⟩ := hbefore _ (List.getElem_mem hi)
      have hold := hpair i j hi hj hij
      rw [hjp] at hold
      exact ⟨hold.keyKey, .inl hkey, hold.valKey, .inl hval⟩
    · obtain ⟨hi, rfl⟩ := List.getElem?_eq_some_iff.mp ha
      obtain ⟨hkey, hval⟩ := hbefore _ (List.getElem_mem hi)
      have hold := hpair j i hj hi hji
      rw [hjp] at hold
      exact ⟨hold.keyKey, hold.keyVal, .inr hkey, .inr hval⟩

end

section

variable {d : List UInt8} {out : List Paar} {key val : Spanne}

/-- The table that the first `n` places stand for. -/
def tafel (d : List UInt8) (l : List Paar) : List (Pair (List UInt8)) := l.map (Paar.bytes d)

theorem ersetzeLauf_eq (d : List UInt8) (key val : Spanne) {m k : Nat} (h : k + m ≤ out.length) :
    (ersetzeLauf d key val out m k = none ∧
      ersetzen (stueck d key) (stueck d val) (tafel d ((out.drop k).take m)) = none) ∨
    ∃ j p, j < m ∧ out[k + j]? = some p ∧
      ersetzeLauf d key val out m k = some (out.set (k + j) { p with val := val }) ∧
      ersetzen (stueck d key) (stueck d val) (tafel d ((out.drop k).take m)) =
        some (tafel d (((out.drop k).take m).set j { p with val := val })) := by
  induction m generalizing k with
  | zero => exact .inl ⟨rfl, by rw [List.take_zero]; rfl⟩
  | succ m ih =>
    have hk : k < out.length := by omega
    have hhead : out[k]? = some out[k] := List.getElem?_eq_getElem hk
    rw [List.drop_eq_getElem_cons hk, List.take_succ_cons]
    simp only [ersetzeLauf, hhead, tafel, List.map_cons, ersetzen]
    by_cases hkey : stueck d out[k].key = stueck d key
    · right
      refine ⟨0, out[k], Nat.succ_pos m, hhead, if_pos hkey, ?_⟩
      rw [if_pos (show (out[k].bytes d).key = stueck d key from hkey)]
      rfl
    · rw [if_neg hkey, if_neg (show ¬ (out[k].bytes d).key = stueck d key from hkey)]
      rcases ih (k := k + 1) (by omega) with ⟨hnone, htab⟩ | ⟨j, p, hj, hp, hsome, htab⟩
      · left
        rw [tafel] at htab
        exact ⟨hnone, by rw [htab]; rfl⟩
      · right
        have hshift : k + 1 + j = k + (j + 1) := by omega
        rw [hshift] at hp hsome
        rw [tafel] at htab
        refine ⟨j + 1, p, by omega, hp, hsome, ?_⟩
        rw [htab]
        rfl

theorem lege_eq {pos pos' : Nat} {n : Nat} (hn : n ≤ out.length) (h : Fertig d pos (out.take n))
    (hle : pos ≤ pos') (hneu : Paar.Innen d pos' ⟨key, val⟩) (hkey : pos ≤ key.1) :
    (∀ e, ablegen out.length (tafel d (out.take n)) (stueck d key) (stueck d val) = .error e →
      lege d key val out n = .error (.err e)) ∧
    ∀ t, ablegen out.length (tafel d (out.take n)) (stueck d key) (stueck d val) = .ok t →
      ∃ out' n', lege d key val out n = .ok (out', n') ∧ out'.length = out.length ∧
        n' ≤ out'.length ∧ tafel d (out'.take n') = t ∧ Fertig d pos' (out'.take n') := by
  have hcases := ersetzeLauf_eq d key val (show 0 + n ≤ out.length by omega)
  rw [List.drop_zero] at hcases
  have hlen : (tafel d (out.take n)).length = n := by
    rw [tafel, List.length_map, List.length_take]
    omega
  unfold ablegen lege
  rcases hcases with ⟨hnone, htab⟩ | ⟨j, p, hj, hp, hsome, htab⟩
  · rw [hnone, htab]
    rw [hlen]
    by_cases hroom : n < out.length
    · rw [if_pos hroom, if_pos hroom]
      refine ⟨fun e he => (by cases he), fun t ht => ?_⟩
      cases ht
      have htake : (out.set n ⟨key, val⟩).take (n + 1) = out.take n ++ [⟨key, val⟩] := by
        rw [List.take_add_one, List.take_set_of_le (Nat.le_refl n), List.getElem?_set_self hroom]
        rfl
      refine ⟨out.set n ⟨key, val⟩, n + 1, rfl, List.length_set, ?_, ?_, ?_⟩
      · rw [List.length_set]
        omega
      · rw [htake, tafel, List.map_append]
        rfl
      · rw [htake]
        exact h.concat hle hneu hkey
    · rw [if_neg hroom, if_neg hroom]
      refine ⟨fun e he => ?_, fun t ht => by cases ht⟩
      cases he
      rfl
  · rw [Nat.zero_add] at hp hsome
    rw [hsome, htab]
    refine ⟨fun e he => (by cases he), fun t ht => ?_⟩
    cases ht
    have hmem : (out.take n)[j]? = some p := by
      rw [List.getElem?_take, if_pos hj]
      exact hp
    refine ⟨_, n, rfl, List.length_set, by rw [List.length_set]; exact hn, ?_, ?_⟩
    · rw [List.take_set]
    · rw [List.take_set]
      have h₁ := hneu.key
      have h₂ := hneu.between
      exact h.set hle hmem (by dsimp only at h₁ h₂; omega) hneu.val hneu.le hneu.balanciert

theorem bereich_bind {α : Type} {lo hi : Nat} {f : Spanne → Call LxpdError α} (h : lo ≤ hi)
    (hlen : hi ≤ d.length) : (bereich d lo hi).bind f = f (lo, hi) := by
  rw [bereich, if_pos ⟨h, hlen⟩]
  rfl

theorem stueck_innen {s : Spanne} (h : s.1 + 2 ≤ s.2) (hle : s.2 ≤ d.length) :
    stueck d (s.1 + 1, s.2 - 1) = innen (stueck d s) := by
  obtain ⟨lo, hi⟩ := s
  obtain ⟨n, rfl⟩ : ∃ n, hi = lo + (n + 2) := ⟨hi - lo - 2, by dsimp only at h; omega⟩
  have hlt : lo < d.length := by
    omega
  have hshort : lo + (n + 2) - 1 - (lo + 1) = n := by omega
  simp only [stueck, innen, hshort, Nat.add_sub_cancel_left]
  rw [List.drop_eq_getElem_cons hlt, List.take_succ_cons, List.tail_cons, List.dropLast_eq_take,
    List.length_take, List.length_drop, List.take_take]
  congr 1
  omega

theorem two_le_of_stringSpan {x : Span} (h : Lxpd.stringSpan d = .ok x) : 2 ≤ x.1.length := by
  obtain ⟨s, -, hs⟩ := stringSpan_sound h
  rw [hs]
  simp [Token.text, json]

end

section

variable {d : List UInt8} {out : List Paar} {n pos : Nat}

/-- The state behind a step stands for what the text reading returned. -/
structure Danach (d : List UInt8) (cap pos : Nat) (out : List Paar) (n : Nat)
    (t : List (Pair (List UInt8))) : Prop where
  breite : out.length = cap
  le : n ≤ cap
  tafel : tafel d (out.take n) = t
  fertig : Fertig d pos (out.take n)

theorem getElem?_of_drop {p : Nat} {b : UInt8} {r : List UInt8} (h : d.drop p = b :: r) :
    d[p]? = some b ∧ d.drop (p + 1) = r := by
  have hhead : (d.drop p)[0]? = some b := by rw [h]; rfl
  rw [List.getElem?_drop, Nat.add_zero] at hhead
  refine ⟨hhead, ?_⟩
  rw [drop_of_some hhead] at h
  exact (List.cons.inj h).2

theorem getElem?_of_drop_nil {p : Nat} (h : d.drop p = []) : d[p]? = none :=
  List.getElem?_eq_none_iff.mpr (List.drop_eq_nil_iff.mp h)

def mitgliedRest (d : List UInt8) (out : List Paar) (n : Nat) (key : Spanne) (pos : Nat) :
    Call LxpdError ((List Paar × Nat) × Nat) :=
  (valueSpan d pos).bind fun v => (bereich d v.1 v.2).bind fun val =>
  (lege d key val out n).bind fun r => .ok (r, v.2)

theorem mitgliedRest_eq {cap p ke : Nat} {key : Spanne} {t : List (Pair (List UInt8))}
    (h : Danach d cap pos out n t) (hkey : pos ≤ key.1) (hle : key.1 ≤ key.2) (hke : key.2 ≤ ke)
    (hp : ke ≤ p) :
    (∀ e, ((Lxpd.valueSpan (d.drop p)).bind fun x =>
        (ablegen cap t (stueck d key) x.1).map fun out => (out, x.2)) = .error e →
      mitgliedRest d out n key p = .error (.err e)) ∧
    ∀ t' r, ((Lxpd.valueSpan (d.drop p)).bind fun x =>
        (ablegen cap t (stueck d key) x.1).map fun out => (out, x.2)) = .ok (t', r) →
      ∃ out' n' pos', mitgliedRest d out n key p = .ok ((out', n'), pos') ∧ d.drop pos' = r ∧
        pos < pos' ∧ pos' ≤ d.length ∧ Danach d cap pos' out' n' t' := by
  unfold mitgliedRest
  rw [valueSpan_eq]
  cases hv : Lxpd.valueSpan (d.drop p) with
  | error e =>
    refine ⟨fun e' he => ?_, fun t' r hr => (by cases hr)⟩
    cases he
    rfl
  | ok x =>
    have hcut := valueSpan_cut hv
    obtain ⟨hmore, hin⟩ := endeVon_le hcut
    have hstueck := stueck_endeVon hcut
    have hneu : Paar.Innen d (endeVon p x) ⟨key, (p, endeVon p x)⟩ :=
      ⟨hle, Nat.le_trans hke hp, hmore, Nat.le_refl _, by
        rw [hstueck]
        exact balanciert_valueSpan hv⟩
    have hroom : n ≤ out.length := by
      rw [h.breite]
      exact h.le
    obtain ⟨herr, hok⟩ := lege_eq hroom h.fertig (show pos ≤ endeVon p x by omega) hneu hkey
    rw [h.breite, h.tafel, hstueck] at herr hok
    have hrest : (quiet ((Except.ok x).map (spanneVon p)) : Call LxpdError Spanne).bind (fun v =>
        (bereich d v.1 v.2).bind fun val => (lege d key val out n).bind fun r =>
          (.ok (r, v.2) : Call LxpdError ((List Paar × Nat) × Nat))) =
        (lege d key (p, endeVon p x) out n).bind fun r => .ok (r, endeVon p x) :=
      bereich_bind (Nat.le_of_lt hmore) hin
    rw [hrest]
    cases hput : ablegen cap t (stueck d key) x.1 with
    | error e =>
      refine ⟨fun e' he => ?_, fun t' r hr => ?_⟩
      · rw [herr e hput]
        change Except.map _ (ablegen cap t (stueck d key) x.1) = _ at he
        rw [hput] at he
        cases he
        rfl
      · change Except.map _ (ablegen cap t (stueck d key) x.1) = _ at hr
        rw [hput] at hr
        cases hr
    | ok t₁ =>
      refine ⟨fun e' he => ?_, fun t' r hr => ?_⟩
      · change Except.map _ (ablegen cap t (stueck d key) x.1) = _ at he
        rw [hput] at he
        cases he
      · change Except.map _ (ablegen cap t (stueck d key) x.1) = _ at hr
        rw [hput] at hr
        cases hr
        obtain ⟨out', n', hrun, hbreite, hn', htab, hfertig⟩ := hok _ hput
        rw [hbreite] at hn'
        exact ⟨out', n', endeVon p x, by rw [hrun]; rfl, drop_endeVon hcut, by omega, hin,
          hbreite, hn', htab, hfertig⟩

theorem mitglied_eq {cap : Nat} {t : List (Pair (List UInt8))} (h : Danach d cap pos out n t) :
    (∀ e, Lxpd.mitglied cap t (d.drop pos) = .error e →
      mitglied d out n pos = .error (.err e)) ∧
    ∀ t' r, Lxpd.mitglied cap t (d.drop pos) = .ok (t', r) →
      ∃ out' n' pos', mitglied d out n pos = .ok ((out', n'), pos') ∧ d.drop pos' = r ∧
        pos < pos' ∧ pos' ≤ d.length ∧ Danach d cap pos' out' n' t' := by
  cases hk : Lxpd.stringSpan (d.drop pos) with
  | error e =>
    unfold mitglied Lxpd.mitglied
    rw [stringSpan_eq, hk]
    refine ⟨fun e' he => ?_, fun t' r hr => (by cases hr)⟩
    cases he
    rfl
  | ok x =>
    obtain ⟨k, r₀⟩ := x
    have hkcut := stringSpan_cut hk
    obtain ⟨hkmore, hkle⟩ := endeVon_le hkcut
    have hktwo := two_le_of_stringSpan hk
    have hkend : endeVon pos (k, r₀) = pos + k.length := rfl
    have hkey : stueck d (pos + 1, endeVon pos (k, r₀) - 1) = innen k :=
      (stueck_innen (s := (pos, endeVon pos (k, r₀))) (by dsimp only at hktwo ⊢; omega)
        hkle).trans (congrArg innen (stueck_endeVon hkcut))
    dsimp only at hktwo
    generalize hke : endeVon pos (k, r₀) = ke at hkmore hkle hkend hkey
    obtain ⟨p₁, hp₁, hdrop₁, hle₁, hin₁⟩ := skipWs_eq d ke
    rw [← hke, drop_endeVon hkcut] at hdrop₁
    have hstart : mitglied d out n pos =
        if d[p₁]? ≠ some colon then abgelehnt
        else (skipWs d (p₁ + 1)).bind fun p => mitgliedRest d out n (pos + 1, ke - 1) p := by
      unfold mitglied
      rw [stringSpan_eq, hk]
      change (sub (endeVon pos (k, r₀)) 1).bind _ = _
      rw [hke, sub_bind (by omega), bereich_bind (by dsimp only [spanneVon]; omega) (by omega)]
      change (skipWs d (endeVon pos (k, r₀))).bind _ = _
      rw [hke, hp₁]
      rfl
    rw [hstart]
    cases hsep : d.drop p₁ with
    | nil =>
      have htext : Lxpd.mitglied cap t (d.drop pos) = .error .badManifest := by
        simp only [Lxpd.mitglied, hk, Except.bind, ← hdrop₁, hsep]
      rw [htext, getElem?_of_drop_nil hsep]
      refine ⟨fun e he => ?_, fun t' r hr => (by cases hr)⟩
      cases he
      rfl
    | cons b r =>
      obtain ⟨hb, hr⟩ := getElem?_of_drop hsep
      have htext : Lxpd.mitglied cap t (d.drop pos) =
          if b ≠ colon then .error .badManifest
          else
            (Lxpd.valueSpan (Lxpd.skipWs r)).bind fun x =>
            (ablegen cap t (innen k) x.1).map fun out => (out, x.2) := by
        simp only [Lxpd.mitglied, hk, Except.bind, ← hdrop₁, hsep]
      rw [htext, hb]
      by_cases hcolon : b = colon
      · obtain ⟨p₂, hp₂, hdrop₂, hle₂, -⟩ := skipWs_eq d (p₁ + 1)
        rw [if_neg (by simp [hcolon]), if_neg (by simp [hcolon]), hp₂, ← hr, ← hdrop₂, ← hkey]
        exact mitgliedRest_eq h (Nat.le_succ pos) (by dsimp only; omega)
          (show ke - 1 ≤ ke from Nat.sub_le _ _) (by omega)
      · rw [if_pos hcolon, if_pos (show some b ≠ some colon by simpa using hcolon)]
        refine ⟨fun e he => ?_, fun t' r hr => (by cases hr)⟩
        cases he
        rfl

theorem objektLauf_of_ok {f p₁ p₂ n₁ : Nat} {out₁ : List Paar}
    (hrun : mitglied d out n pos = .ok ((out₁, n₁), p₁)) (hskip : skipWs d p₁ = .ok p₂) :
    objektLauf d (f + 1) out n pos =
      match d[p₂]? with
      | none => abgelehnt
      | some b =>
        if b = comma then
          (skipWs d (p₂ + 1)).bind fun pos => objektLauf d f out₁ n₁ pos
        else if b = braceClose then .ok (out₁, n₁)
        else abgelehnt := by
  rw [objektLauf, hrun]
  change (skipWs d p₁).bind _ = _
  rw [hskip]
  rfl

theorem objektLauf_eq {cap f : Nat} {t : List (Pair (List UInt8))}
    (h : Danach d cap pos out n t) (hf : 0 < f) (hfuel : d.length < f + pos) :
    (∀ e, eintraege braceClose .badManifest (Lxpd.mitglied cap) (mitglied_kuerzer cap) t
        (d.drop pos) = .error e → objektLauf d f out n pos = .error (.err e)) ∧
    ∀ t', eintraege braceClose .badManifest (Lxpd.mitglied cap) (mitglied_kuerzer cap) t
        (d.drop pos) = .ok t' →
      ∃ out' n', objektLauf d f out n pos = .ok (out', n') ∧ Danach d cap d.length out' n' t' := by
  induction f generalizing out n pos t with
  | zero => exact absurd hf (Nat.lt_irrefl 0)
  | succ f ih =>
    obtain ⟨herr, hok⟩ := mitglied_eq h
    cases hone : Lxpd.mitglied cap t (d.drop pos) with
    | error e =>
      rw [objektLauf, eintraege_of_error hone, herr e hone]
      refine ⟨fun e' he => ?_, fun t' ht => (by cases ht)⟩
      cases he
      rfl
    | ok x =>
      obtain ⟨t₁, r⟩ := x
      obtain ⟨out₁, n₁, p₁, hrun, hdrop, hmore, hle, hnext⟩ := hok t₁ r hone
      obtain ⟨p₂, hp₂, hdrop₂, hle₂, hin₂⟩ := skipWs_eq d p₁
      rw [objektLauf_of_ok hrun hp₂, eintraege_of_ok hone, ← hdrop, ← hdrop₂]
      cases hsep : d.drop p₂ with
      | nil =>
        rw [getElem?_of_drop_nil hsep]
        refine ⟨fun e he => ?_, fun t' ht => (by cases ht)⟩
        cases he
        rfl
      | cons b rest =>
        obtain ⟨hb, hrest⟩ := getElem?_of_drop hsep
        have hin := lt_of_some hb
        rw [hb]
        dsimp only
        by_cases hcomma : b = comma
        · obtain ⟨p₃, hp₃, hdrop₃, hle₃, -⟩ := skipWs_eq d (p₂ + 1)
          have hlater : Danach d cap p₃ out₁ n₁ t₁ :=
            ⟨hnext.breite, hnext.le, hnext.tafel, hnext.fertig.mono (by omega)⟩
          rw [if_pos hcomma, if_pos hcomma, hp₃, ← hrest, ← hdrop₃]
          exact ih hlater (by omega) (by omega)
        rw [if_neg hcomma, if_neg hcomma]
        by_cases hzu : b = braceClose
        · rw [if_pos hzu, if_pos hzu]
          refine ⟨fun e he => (by cases he), fun t' ht => ?_⟩
          cases ht
          exact ⟨out₁, n₁, rfl, hnext.breite, hnext.le, hnext.tafel, hnext.fertig.mono hle⟩
        · rw [if_neg hzu, if_neg hzu]
          refine ⟨fun e he => ?_, fun t' ht => (by cases ht)⟩
          cases he
          rfl

theorem parseObjectInto_eq (span : List UInt8) (out : List Paar) :
    (∀ e, Lxpd.parseObjectInto out.length span = .error e →
      parseObjectInto span out = .error (.err e)) ∧
    ∀ t, Lxpd.parseObjectInto out.length span = .ok t →
      ∃ out' n, parseObjectInto span out = .ok (out', n) ∧
        Danach span out.length span.length out' n t := by
  have hstart : ∀ p, Danach span out.length p out 0 [] := fun p =>
    ⟨rfl, Nat.zero_le _, by rw [List.take_zero]; rfl, by
      rw [List.take_zero]
      exact ⟨fun p hp => (by cases hp), List.Pairwise.nil⟩⟩
  unfold parseObjectInto Lxpd.parseObjectInto
  split
  · refine ⟨fun e he => ?_, fun t ht => (by cases ht)⟩
    cases he
    rfl
  · obtain ⟨p, hp, hdrop, hle, -⟩ := skipWs_eq span 1
    rw [List.drop_one] at hdrop
    have hhead : (Lxpd.skipWs span.tail).head? = span[p]? := by
      rw [← hdrop, List.head?_drop]
    rw [hp]
    change (∀ e, (if (Lxpd.skipWs span.tail).head? = some braceClose then _ else _) = _ →
        (if span[p]? = some braceClose then _ else _) = _) ∧
      ∀ t, (if (Lxpd.skipWs span.tail).head? = some braceClose then _ else _) = _ →
        ∃ out' n, (if span[p]? = some braceClose then _ else _) = _ ∧ _
    rw [hhead]
    by_cases hempty : span[p]? = some braceClose
    · rw [if_pos hempty, if_pos hempty]
      refine ⟨fun e he => (by cases he), fun t ht => ?_⟩
      cases ht
      exact ⟨out, 0, rfl, hstart _⟩
    · rw [if_neg hempty, if_neg hempty, ← hdrop]
      exact objektLauf_eq (hstart p) (Nat.succ_pos _) (by omega)

theorem topPairs_cases (json : List UInt8) :
    (∃ e, Lxpd.topPairs json = .error e ∧ ∀ buf, topPairs json buf = .error (.err e)) ∨
    ∃ p x, Lxpd.valueSpan (json.drop p) = .ok x ∧
      Lxpd.topPairs json = Lxpd.parseObjectInto maxTopKeys x.1 ∧
      ∀ buf, topPairs json buf =
        (parseObjectInto x.1 buf).bind fun r => .ok (spanneVon p x, r) := by
  obtain ⟨p, hp, hdrop, -, hin⟩ := skipWs_eq json 0
  rw [List.drop_zero] at hdrop
  have hstart : ∀ buf, topPairs json buf = (valueSpan json p).bind fun s =>
      (skipWs json s.2).bind fun rest =>
      if rest ≠ json.length then abgelehnt
      else
        (bereich json s.1 s.2).bind fun s =>
        if (stueck json s).head? ≠ some braceOpen then abgelehnt
        else (parseObjectInto (stueck json s) buf).bind fun r => .ok (s, r) := by
    intro buf
    rw [topPairs, hp]
    rfl
  simp only [hstart, valueSpan_eq]
  cases hv : Lxpd.valueSpan (json.drop p) with
  | error e =>
    refine .inl ⟨e, ?_, fun _ => rfl⟩
    rw [Lxpd.topPairs, ← hdrop, hv]
    rfl
  | ok x =>
    have hcut := valueSpan_cut hv
    obtain ⟨hmore, hle⟩ := endeVon_le hcut
    obtain ⟨q, hq, hdrop', -, hin'⟩ := skipWs_eq json (endeVon p x)
    rw [drop_endeVon hcut] at hdrop'
    have hend : q = json.length ↔ Lxpd.skipWs x.2 = [] := by
      rw [← hdrop', List.drop_eq_nil_iff]
      have hqle := hin' hle
      omega
    have hrest : ∀ buf, (quiet ((Except.ok x).map (spanneVon p)) : Call LxpdError Spanne).bind
        (fun s => (skipWs json s.2).bind fun rest =>
          if rest ≠ json.length then abgelehnt
          else
            (bereich json s.1 s.2).bind fun s =>
            if (stueck json s).head? ≠ some braceOpen then abgelehnt
            else (parseObjectInto (stueck json s) buf).bind fun r => .ok (s, r)) =
        if q ≠ json.length then abgelehnt
        else if x.1.head? ≠ some braceOpen then abgelehnt
        else (parseObjectInto x.1 buf).bind fun r => .ok (spanneVon p x, r) := by
      intro buf
      change (skipWs json (endeVon p x)).bind _ = _
      rw [hq]
      change (if q ≠ json.length then _ else (bereich json p (endeVon p x)).bind _) = _
      rw [bereich_bind (Nat.le_of_lt hmore) hle, stueck_endeVon hcut]
      rfl
    have htext : Lxpd.topPairs json =
        if Lxpd.skipWs x.2 ≠ [] then .error .badManifest
        else if x.1.head? ≠ some braceOpen then .error .badManifest
        else Lxpd.parseObjectInto maxTopKeys x.1 := by
      rw [Lxpd.topPairs, ← hdrop, hv]
      rfl
    rw [htext]
    simp only [hrest]
    by_cases hq' : q = json.length
    · rw [if_neg (not_not.mpr (hend.mp hq'))]
      simp only [if_neg (not_not.mpr hq')]
      by_cases hopen : x.1.head? = some braceOpen
      · rw [if_neg (not_not.mpr hopen)]
        simp only [if_neg (not_not.mpr hopen)]
        exact .inr ⟨p, x, hv, rfl, fun _ => rfl⟩
      · rw [if_pos hopen]
        simp only [if_pos hopen]
        exact .inl ⟨_, rfl, fun _ => rfl⟩
    · rw [if_pos fun hnil => hq' (hend.mpr hnil)]
      simp only [if_pos hq']
      exact .inl ⟨_, rfl, fun _ => rfl⟩

theorem findLauf_eq (d key : List UInt8) {m i : Nat} (h : i + m ≤ out.length) :
    (findLauf d out key m i).map (stueck d) = Lxpd.find (tafel d ((out.drop i).take m)) key := by
  induction m generalizing i with
  | zero =>
    rw [List.take_zero]
    rfl
  | succ m ih =>
    have hi : i < out.length := by omega
    have hrest := ih (i := i + 1) (by omega)
    rw [List.drop_eq_getElem_cons hi, List.take_succ_cons, findLauf,
      List.getElem?_eq_getElem hi]
    dsimp only
    by_cases hkey : stueck d out[i].key = key
    · rw [if_pos hkey]
      simp [Lxpd.find, tafel, Paar.bytes, hkey]
    · rw [if_neg hkey, hrest]
      simp [Lxpd.find, tafel, Paar.bytes, hkey]

/-- Reading the members as positions and looking a key up gives the part of the text that reading
them as texts and looking it up gives, and the same errors. -/
theorem topPairs_find (json key : List UInt8) (p : Paar) :
    (∀ e, Lxpd.topPairs json = .error e →
      topPairs json (List.replicate maxTopKeys p) = .error (.err e)) ∧
    ∀ t, Lxpd.topPairs json = .ok t → ∃ s out n,
      topPairs json (List.replicate maxTopKeys p) = .ok (s, (out, n)) ∧
      (find (stueck json s) out n key).map (stueck (stueck json s)) = Lxpd.find t key := by
  rcases topPairs_cases json with ⟨e, htext, hrun⟩ | ⟨q, x, hv, htext, hrun⟩
  · rw [htext, hrun]
    refine ⟨fun e' he => ?_, fun t ht => (by cases ht)⟩
    cases he
    rfl
  · obtain ⟨herr, hok⟩ := parseObjectInto_eq x.1 (List.replicate maxTopKeys p)
    rw [List.length_replicate] at herr hok
    rw [htext, hrun]
    refine ⟨fun e he => by rw [herr e he]; rfl, fun t ht => ?_⟩
    obtain ⟨out, n, hread, hafter⟩ := hok t ht
    refine ⟨spanneVon q x, out, n, by rw [hread]; rfl, ?_⟩
    have hn : 0 + n ≤ out.length := by
      rw [Nat.zero_add, hafter.breite]
      exact hafter.le
    have hfind := findLauf_eq x.1 key hn
    rw [List.drop_zero, hafter.tafel] at hfind
    rw [spanneVon, stueck_endeVon (valueSpan_cut hv)]
    exact hfind

theorem findLauf_mem {key : List UInt8} {v : Spanne} {m i : Nat}
    (h : findLauf d out key m i = some v) :
    ∃ p ∈ (out.drop i).take m, stueck d p.key = key ∧ p.val = v := by
  induction m generalizing i with
  | zero => cases h
  | succ m ih =>
    rw [findLauf] at h
    cases hi : out[i]? with
    | none =>
      rw [hi] at h
      obtain ⟨p, hp, -⟩ := ih h
      have hend : out.drop (i + 1) = [] :=
        List.drop_eq_nil_of_le (Nat.le_succ_of_le (List.getElem?_eq_none_iff.mp hi))
      rw [hend, List.take_nil] at hp
      cases hp
    | some p =>
      obtain ⟨hlt, hp⟩ := List.getElem?_eq_some_iff.mp hi
      rw [hi] at h
      dsimp only at h
      rw [List.drop_eq_getElem_cons hlt, List.take_succ_cons, hp]
      by_cases hkey : stueck d p.key = key
      · rw [if_pos hkey] at h
        exact ⟨p, List.mem_cons_self, hkey, Option.some.inj h⟩
      · rw [if_neg hkey] at h
        obtain ⟨q, hq, hrest⟩ := ih h
        exact ⟨q, List.mem_cons_of_mem _ hq, hrest⟩

theorem find_mem {key : List UInt8} {v : Spanne} (h : find d out n key = some v) :
    ∃ p ∈ out.take n, stueck d p.key = key ∧ p.val = v := by
  have hmem := findLauf_mem h
  rwa [List.drop_zero] at hmem

end

theorem ends_skipWs (d : List UInt8) (pos : Nat) : Ends (skipWs d pos) := by
  obtain ⟨p, hp, -⟩ := skipWs_eq d pos
  rw [hp]
  exact ends_ok p

theorem balancedSpan_cut {d : List UInt8} {x : Span} (h : Lxpd.balancedSpan d = .ok x) :
    Cut d x := by
  cases d with
  | nil => cases h
  | cons b d => exact balancedEnd_cut (ite_error_eq_ok.mp h).2

theorem innen_of_cut {d : List UInt8} {pos : Nat} {x : Except LxpdError Span} {s : Spanne}
    (hx : ∀ y, x = .ok y → Cut (d.drop pos) y ∧ Balanciert y.1)
    (h : (quiet (x.map (spanneVon pos)) : Call LxpdError Spanne) = .ok s) :
    s.1 = pos ∧ s.1 < s.2 ∧ s.2 ≤ d.length ∧ Balanciert (stueck d s) := by
  cases x with
  | error e => cases h
  | ok y =>
    cases h
    obtain ⟨hcut, hbal⟩ := hx y rfl
    obtain ⟨hmore, hle⟩ := endeVon_le hcut
    refine ⟨rfl, hmore, hle, ?_⟩
    rw [spanneVon, stueck_endeVon hcut]
    exact hbal

theorem ends_parseObjectInto (span : List UInt8) (out : List Paar) :
    Ends (parseObjectInto span out) := by
  obtain ⟨herr, hok⟩ := parseObjectInto_eq span out
  cases h : Lxpd.parseObjectInto out.length span with
  | error e =>
    rw [herr e h]
    exact ends_err e
  | ok t =>
    obtain ⟨out', n, hrun, -⟩ := hok t h
    rw [hrun]
    exact ends_ok _

/-- On every text, from every position and into every buffer the parser ends without a panic; spans
lie in what they were cut from, values are balanced, and members do not overlap. -/
theorem spannen (d : List UInt8) (pos : Nat) (out : List Paar) :
    (Ends (skipWs d pos) ∧ Ends (stringSpan d pos) ∧ Ends (balancedSpan d pos) ∧
      Ends (valueSpan d pos) ∧ Ends (parseObjectInto d out) ∧ Ends (topPairs d out)) ∧
    (∀ s, stringSpan d pos = .ok s ∨ balancedSpan d pos = .ok s ∨ valueSpan d pos = .ok s →
      s.1 = pos ∧ s.1 < s.2 ∧ s.2 ≤ d.length ∧ Balanciert (stueck d s)) ∧
    (∀ out' n, parseObjectInto d out = .ok (out', n) → n ≤ out'.length ∧
      (∀ p ∈ out'.take n, p.Innen d d.length) ∧ (out'.take n).Pairwise Paar.Getrennt ∧
      ∀ key v, find d out' n key = some v →
        ∃ p ∈ out'.take n, stueck d p.key = key ∧ p.val = v) ∧
    ∀ s out' n, topPairs d out = .ok (s, (out', n)) → s.1 < s.2 ∧ s.2 ≤ d.length ∧
      Balanciert (stueck d s) ∧ parseObjectInto (stueck d s) out = .ok (out', n) := by
  refine ⟨⟨ends_skipWs d pos, ?_, ?_, ?_, ends_parseObjectInto d out, ?_⟩, ?_, ?_, ?_⟩
  · rw [stringSpan_eq]
    exact ends_quiet _
  · rw [balancedSpan_eq]
    exact ends_quiet _
  · rw [valueSpan_eq]
    exact ends_quiet _
  · rcases topPairs_cases d with ⟨e, -, hrun⟩ | ⟨p, x, -, -, hrun⟩
    · rw [hrun]
      exact ends_err e
    · rw [hrun]
      exact (ends_parseObjectInto x.1 out).bind fun r _ => ends_ok _
  · intro s h
    rcases h with h | h | h
    · rw [stringSpan_eq] at h
      exact innen_of_cut (fun y hy => ⟨stringSpan_cut hy, balanciert_stringSpan hy⟩) h
    · rw [balancedSpan_eq] at h
      exact innen_of_cut (fun y hy => ⟨balancedSpan_cut hy, balanciert_balancedSpan hy⟩) h
    · rw [valueSpan_eq] at h
      exact innen_of_cut (fun y hy => ⟨valueSpan_cut hy, balanciert_valueSpan hy⟩) h
  · intro out' n h
    obtain ⟨herr, hok⟩ := parseObjectInto_eq d out
    cases htext : Lxpd.parseObjectInto out.length d with
    | error e =>
        rw [herr e htext] at h
        cases h
    | ok t =>
        obtain ⟨out₁, n₁, hrun, hafter⟩ := hok t htext
        rw [hrun] at h
        cases h
        refine ⟨?_, hafter.fertig.innen, hafter.fertig.getrennt, fun key v => find_mem⟩
        rw [hafter.breite]
        exact hafter.le
  · intro s out' n h
    rcases topPairs_cases d with ⟨e, -, hrun⟩ | ⟨p, x, hv, -, hrun⟩
    · rw [hrun] at h
      cases h
    · rw [hrun] at h
      have hcut := valueSpan_cut hv
      obtain ⟨hmore, hle⟩ := endeVon_le hcut
      cases hread : parseObjectInto x.1 out with
      | error e =>
          rw [hread] at h
          cases h
      | ok r =>
          rw [hread] at h
          cases h
          refine ⟨hmore, hle, ?_, ?_⟩
          · rw [spanneVon, stueck_endeVon hcut]
            exact balanciert_valueSpan hv
          · rw [spanneVon, stueck_endeVon hcut]
            exact hread

/-- `{"a":[1]}`: the value is the part in the brackets. -/
theorem spannen_eintrag :
    (∀ p ∈ [(⟨(2, 3), (5, 8)⟩ : Paar)],
      p.Innen [0x7B, 0x22, 0x61, 0x22, 0x3A, 0x5B, 0x31, 0x5D, 0x7D] 9) ∧
    Balanciert [0x5B, 0x31, 0x5D] := by
  obtain ⟨-, hspan, hread, -⟩ := spannen
    [0x7B, 0x22, 0x61, 0x22, 0x3A, 0x5B, 0x31, 0x5D, 0x7D] 5 [⟨(0, 0), (0, 0)⟩]
  obtain ⟨-, hin, -⟩ := hread [⟨(2, 3), (5, 8)⟩] 1 (by decide)
  obtain ⟨-, -, -, hbal⟩ := hspan (5, 8) (.inr (.inr (by decide)))
  exact ⟨hin, hbal⟩

end Caprock.Lxpd.Stellen
