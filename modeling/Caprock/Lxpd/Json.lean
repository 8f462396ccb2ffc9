import Caprock.Lxpd.Image
import Mathlib.Data.List.DropRight

/-! # Reading JSON spans

A position in the text is modelled by the text from there on: a span function returns the span
and what follows it.  Nothing is decoded; a member of an object is a view on the bytes of its
key and of its value.
-/

namespace Caprock.Lxpd

open Checks

def quote : UInt8 := 0x22
def backslash : UInt8 := 0x5C
def comma : UInt8 := 0x2C
def colon : UInt8 := 0x3A
def braceOpen : UInt8 := 0x7B
def braceClose : UInt8 := 0x7D
def bracketOpen : UInt8 := 0x5B
def bracketClose : UInt8 := 0x5D

def maxTopKeys : Nat := 16
def maxNestKeys : Nat := 8
def maxDepth : Nat := 16
def maxItems : Nat := 1024

def isWs (b : UInt8) : Bool := b == 0x20 || b == 0x09 || b == 0x0A || b == 0x0D

def skipWs (d : List UInt8) : List UInt8 := d.dropWhile isWs

abbrev Span : Type := List UInt8 × List UInt8

/-- The span begins earlier by `s`. -/
def Span.behind (s : List UInt8) (x : Span) : Span := (s ++ x.1, x.2)

/-- The loop of `string_span`. -/
def stringEnd : List UInt8 → Except LxpdError Span
  | [] => .error .badManifest
  | b :: d =>
      if b = quote then .ok ([b], d)
      else if b = backslash then
        match d with
        | [] => .error .badManifest
        | e :: d => (stringEnd d).map (Span.behind [b, e])
      else if b < 0x20 then .error .badManifest
      else (stringEnd d).map (Span.behind [b])

def stringSpan : List UInt8 → Except LxpdError Span
  | [] => .error .badManifest
  | b :: d => if b ≠ quote then .error .badManifest else (stringEnd d).map (Span.behind [b])

/-- `d` is cut in two, and the first part is not empty. -/
structure Cut (d : List UInt8) (x : Span) : Prop where
  eq : x.1 ++ x.2 = d
  ne_nil : x.1 ≠ []

theorem map_eq_ok {α β : Type} {f : α → β} {x : Except LxpdError α} {b : β} :
    x.map f = .ok b ↔ ∃ a, x = .ok a ∧ f a = b := by
  cases x with
  | error e | ok a => simp [Except.map]

theorem Cut.behind {s d : List UInt8} {x : Span} (h : Cut d x) : Cut (s ++ d) (x.behind s) where
  eq := by simp [Span.behind, ← h.eq]
  ne_nil := by simp [Span.behind, h.ne_nil]

theorem Cut.lt {d : List UInt8} {x : Span} (h : Cut d x) : x.2.length < d.length := by
  have hlen := congrArg List.length h.eq
  have hpos := List.length_pos_of_ne_nil h.ne_nil
  rw [List.length_append] at hlen
  omega

theorem stringEnd_cut {d : List UInt8} {x : Span} (h : stringEnd d = .ok x) : Cut d x := by
  fun_induction stringEnd d generalizing x with
  | case1 => cases h
  | case2 d =>
    cases h
    exact ⟨rfl, List.cons_ne_nil _ _⟩
  | case3 => cases h
  | case4 e d hb ih =>
    obtain ⟨x, hx, rfl⟩ := map_eq_ok.mp h
    exact (ih hx).behind (s := [backslash, e])
  | case5 => cases h
  | case6 b d hquote hback hlt ih =>
    obtain ⟨x, hx, rfl⟩ := map_eq_ok.mp h
    exact (ih hx).behind (s := [b])

theorem stringSpan_cut {d : List UInt8} {x : Span} (h : stringSpan d = .ok x) : Cut d x := by
  cases d with
  | nil => cases h
  | cons b d =>
    obtain ⟨-, h⟩ := ite_error_eq_ok.mp h
    obtain ⟨x, hx, rfl⟩ := map_eq_ok.mp h
    exact (stringEnd_cut hx).behind (s := [b])

/-- The closing bracket `b` is of the kind of the opening bracket `o`. -/
def passt (o b : UInt8) : Bool :=
  (o == braceOpen && b == braceClose) || (o == bracketOpen && b == bracketClose)

/-- The loop of `balanced_span`, with the brackets that are open, the innermost first. -/
def balancedEnd (stack : List UInt8) : List UInt8 → Except LxpdError Span
  | [] => .error .badManifest
  | b :: d =>
      if b = quote then
        match _h : stringSpan (b :: d) with
        | .error e => .error e
        | .ok (s, r) => (balancedEnd stack r).map (Span.behind s)
      else if b = braceOpen ∨ b = bracketOpen then
        if maxDepth ≤ stack.length then .error .badManifest
        else (balancedEnd (b :: stack) d).map (Span.behind [b])
      else if b = braceClose ∨ b = bracketClose then
        match stack with
        | [] => .error .badManifest
        | o :: stack =>
            if passt o b = false then .error .badManifest
            else if stack = [] then .ok ([b], d)
            else (balancedEnd stack d).map (Span.behind [b])
      else (balancedEnd stack d).map (Span.behind [b])
termination_by d => d.length
decreasing_by
  · exact (stringSpan_cut _h).lt
  all_goals simp

def balancedSpan : List UInt8 → Except LxpdError Span
  | [] => .error .badManifest
  | b :: d =>
      if b ≠ braceOpen ∧ b ≠ bracketOpen then .error .badManifest else balancedEnd [] (b :: d)

/-- `,`, `}` or `]`. -/
def isDelim (c : UInt8) : Bool := c == comma || c == braceClose || c == bracketClose

def isAlphanumeric (c : UInt8) : Bool :=
  (0x30 ≤ c && c ≤ 0x39) || (0x41 ≤ c && c ≤ 0x5A) || (0x61 ≤ c && c ≤ 0x7A)

/-- A letter, a digit, `.`, `+` or `-`. -/
def isWord (c : UInt8) : Bool := isAlphanumeric c || c == 0x2E || c == 0x2B || c == 0x2D

def literalEnd : List UInt8 → Except LxpdError (List UInt8)
  | [] => .error .badManifest
  | c :: d =>
      if isDelim c then .ok []
      else if (isWord c || isWs c) = false then .error .badManifest
      else (literalEnd d).map (c :: ·)

def valueSpan : List UInt8 → Except LxpdError Span
  | [] => .error .badManifest
  | b :: d =>
      if b = quote then stringSpan (b :: d)
      else if b = braceOpen ∨ b = bracketOpen then balancedSpan (b :: d)
      else
        (literalEnd (b :: d)).bind fun run =>
        let span := run.rdropWhile isWs
        if span = [] then .error .badManifest else .ok (span, (b :: d).drop span.length)

theorem balancedEnd_cut {stack d : List UInt8} {x : Span} (h : balancedEnd stack d = .ok x) :
    Cut d x := by
  fun_induction balancedEnd stack d generalizing x with
  | case1 => cases h
  | case2 => cases h
  | case3 stack d s r hs ih =>
    obtain ⟨x, hx, rfl⟩ := map_eq_ok.mp h
    rw [← (stringSpan_cut hs).eq]
    exact (ih hx).behind
  | case4 => cases h
  | case5 stack b d hquote hopen hlt ih =>
    obtain ⟨x, hx, rfl⟩ := map_eq_ok.mp h
    exact (ih hx).behind (s := [b])
  | case6 => cases h
  | case7 => cases h
  | case8 =>
    cases h
    exact ⟨rfl, List.cons_ne_nil _ _⟩
  | case9 b d hquote hopen hclose o stack hpasst hne ih =>
    obtain ⟨x, hx, rfl⟩ := map_eq_ok.mp h
    exact (ih hx).behind (s := [b])
  | case10 stack b d hquote hopen hclose ih =>
    obtain ⟨x, hx, rfl⟩ := map_eq_ok.mp h
    exact (ih hx).behind (s := [b])

theorem literalEnd_front {d run : List UInt8} (h : literalEnd d = .ok run) : run <+: d := by
  induction d generalizing run with
  | nil => cases h
  | cons c d ih =>
    rw [literalEnd] at h
    split at h
    · cases h
      exact List.nil_prefix
    · obtain ⟨-, h⟩ := ite_error_eq_ok.mp h
      obtain ⟨run, hrun, rfl⟩ := map_eq_ok.mp h
      exact List.cons_prefix_cons.mpr ⟨rfl, ih hrun⟩

theorem valueSpan_cut {d : List UInt8} {x : Span} (h : valueSpan d = .ok x) : Cut d x := by
  cases d with
  | nil => cases h
  | cons b d =>
    rw [valueSpan] at h
    split at h
    · exact stringSpan_cut h
    split at h
    · obtain ⟨-, h⟩ := ite_error_eq_ok.mp h
      exact balancedEnd_cut h
    obtain ⟨run, hrun, h⟩ := bind_eq_ok.mp h
    obtain ⟨hne, h⟩ := ite_error_eq_ok.mp h
    cases h
    have hprefix := (List.rdropWhile_prefix isWs run).trans (literalEnd_front hrun)
    refine ⟨?_, hne⟩
    rw [← List.prefix_iff_eq_append.mp hprefix]
    simp

theorem skipWs_length_le (d : List UInt8) : (skipWs d).length ≤ d.length :=
  (List.dropWhile_suffix isWs).length_le

variable {σ : Type}

/-- Whatever is read leaves less text. -/
def Kuerzer (lies : σ → List UInt8 → Except LxpdError (σ × List UInt8)) : Prop :=
  ∀ s d s' r, lies s d = .ok (s', r) → r.length < d.length

/-- The loop over the items of a bracket: `lies` reads an item, then a comma follows or the
closing bracket `zu`. -/
def eintraege (zu : UInt8) (fehler : LxpdError)
    (lies : σ → List UInt8 → Except LxpdError (σ × List UInt8)) (hlies : Kuerzer lies) (s : σ)
    (d : List UInt8) : Except LxpdError σ :=
  match _h : lies s d with
  | .error e => .error e
  | .ok (s, r) =>
      match _hr : skipWs r with
      | [] => .error fehler
      | b :: rest =>
          if b = comma then eintraege zu fehler lies hlies s (skipWs rest)
          else if b = zu then .ok s
          else .error fehler
termination_by d.length
decreasing_by
  have hless := hlies _ _ _ _ _h
  have hws := congrArg List.length _hr
  have hskip := skipWs_length_le r
  have hrest := skipWs_length_le rest
  simp only [List.length_cons] at hws
  omega

/-- A member of an object. -/
structure Pair (β : Type) where
  key : List UInt8
  val : β
  deriving DecidableEq

variable {β : Type}

/-- The value of the first entry with this key is replaced. -/
def ersetzen (key : List UInt8) (val : β) : List (Pair β) → Option (List (Pair β))
  | [] => none
  | p :: out =>
      if p.key = key then some (⟨p.key, val⟩ :: out) else (ersetzen key val out).map (p :: ·)

/-- A key that is there already keeps its place; a new one needs one of the `cap` places. -/
def ablegen (cap : Nat) (out : List (Pair β)) (key : List UInt8) (val : β) :
    Except LxpdError (List (Pair β)) :=
  match ersetzen key val out with
  | some out => .ok out
  | none => if out.length < cap then .ok (out ++ [⟨key, val⟩]) else .error .badManifest

/-- `s[1..s.len() - 1]`. -/
def innen (s : List UInt8) : List UInt8 := s.tail.dropLast

/-- One turn of the loop of `parse_object_into`. -/
def mitglied (cap : Nat) (out : List (Pair (List UInt8))) (d : List UInt8) :
    Except LxpdError (List (Pair (List UInt8)) × List UInt8) :=
  (stringSpan d).bind fun (k, r) =>
  match skipWs r with
  | [] => .error .badManifest
  | b :: r =>
      if b ≠ colon then .error .badManifest
      else
        (valueSpan (skipWs r)).bind fun (v, r) =>
        (ablegen cap out (innen k) v).map fun out => (out, r)

theorem mitglied_kuerzer (cap : Nat) : Kuerzer (mitglied cap) := by
  intro out d out' r' h
  obtain ⟨⟨k, r⟩, hk, h⟩ := bind_eq_ok.mp h
  have hkey := (stringSpan_cut hk).lt
  have hskip := skipWs_length_le r
  dsimp only at h hkey
  split at h
  · cases h
  · next b r₁ hr₁ =>
    obtain ⟨-, h⟩ := ite_error_eq_ok.mp h
    obtain ⟨⟨v, r₂⟩, hv, h⟩ := bind_eq_ok.mp h
    obtain ⟨out₁, -, h⟩ := map_eq_ok.mp h
    cases h
    have hval := (valueSpan_cut hv).lt
    have hskip' := skipWs_length_le r₁
    rw [hr₁, List.length_cons] at hskip
    omega

def parseObjectInto (cap : Nat) (span : List UInt8) :
    Except LxpdError (List (Pair (List UInt8))) :=
  if span.head? ≠ some braceOpen ∨ span.getLast? ≠ some braceClose then .error .badManifest
  else
    let d := skipWs span.tail
    if d.head? = some braceClose then .ok []
    else eintraege braceClose .badManifest (mitglied cap) (mitglied_kuerzer cap) [] d

def topPairs (json : List UInt8) : Except LxpdError (List (Pair (List UInt8))) :=
  (valueSpan (skipWs json)).bind fun (span, rest) =>
  if skipWs rest ≠ [] then .error .badManifest
  else if span.head? ≠ some braceOpen then .error .badManifest
  else parseObjectInto maxTopKeys span

def find (pairs : List (Pair β)) (key : List UInt8) : Option β :=
  (pairs.find? fun p => decide (p.key = key)).map Pair.val

end Caprock.Lxpd
