import Caprock.Lxpd.Json

/-! # The driver manifest

`manifest_facts` reads the fields that are enforced, `verify_signature` computes the signature
anew.  Both start from the members of the text's one object (`top_pairs`).  The floating-point
arithmetic of the coverage field is a parameter.
-/

namespace Caprock.Lxpd

open Checks

def ascii (s : String) : List UInt8 := s.toList.map fun c => UInt8.ofNat c.toNat

theorem ascii_append (s t : String) : ascii (s ++ t) = ascii s ++ ascii t := by
  rw [ascii, String.toList_append, List.map_append]
  rfl

/-- A literal by its characters: evaluating `toList` of a long literal takes the kernel seconds. -/
theorem ascii_ofList (l : List Char) :
    ascii (String.ofList l) = l.map fun c => UInt8.ofNat c.toNat := by
  rw [ascii, String.toList_ofList]

def fSchemaVersion : List UInt8 := ascii "schema_version"
def fDriver : List UInt8 := ascii "driver"
def fTrampolines : List UInt8 := ascii "trampolines"
def fCoverage : List UInt8 := ascii "coverage_pct"
def fGrantsBar : List UInt8 := ascii "grants_bar"
def fDmaWindow : List UInt8 := ascii "dma_window"
def fSize : List UInt8 := ascii "size"
def fIrqVector : List UInt8 := ascii "irq_vector"
def fSignature : List UInt8 := ascii "signature"

def manifestSchemaVersion : UInt32 := 1
def signatureHexLen : Nat := 16

def isDigit (b : UInt8) : Bool := 0x30 ≤ b && b ≤ 0x39

/-- `v.checked_mul(10)?.checked_add(digit)?` for each digit, with the first number that does
not fit. -/
def ziffern (grenze v : Nat) : List UInt8 → Option Nat
  | [] => some v
  | b :: s =>
      if isDigit b = false then none
      else if grenze ≤ v * 10 then none
      else if grenze ≤ v * 10 + (b - 0x30).toNat then none
      else ziffern grenze (v * 10 + (b - 0x30).toNat) s

def parseDezimal (grenze : Nat) (s : List UInt8) : Option Nat :=
  if s = [] then none else ziffern grenze 0 s

def parseU32 (s : List UInt8) : Option UInt32 := (parseDezimal (2 ^ 32) s).map UInt32.ofNat

def parseU64 (s : List UInt8) : Option UInt64 := (parseDezimal (2 ^ 64) s).map UInt64.ofNat

/-- What `parse_f64` uses of the arithmetic of `f64`. -/
structure Gleitkomma (F : Type) where
  ofU8 : UInt8 → F
  zero : F
  tenth : F
  ten : F
  hundred : F
  infinity : F
  add : F → F → F
  mul : F → F → F
  div : F → F → F
  neg : F → F
  eq : F → F → Bool

variable {F : Type} (A : Gleitkomma F)

/-- The digits in front; there must be one. -/
def ziffernfolge (s : List UInt8) : Option Span :=
  if s.takeWhile isDigit = [] then none else some (s.takeWhile isDigit, s.dropWhile isDigit)

def bruch (v : F) : List UInt8 → Option (F × List UInt8)
  | 0x2E :: s =>
      (ziffernfolge s).map fun (folge, s) =>
        ((folge.foldl (fun (x : F × F) b =>
          (A.add x.1 (A.mul (A.ofU8 (b - 0x30)) x.2), A.mul x.2 A.tenth)) (v, A.tenth)).1, s)
  | s => some (v, s)

def exponentVorzeichen : List UInt8 → Bool × List UInt8
  | 0x2B :: s => (false, s)
  | 0x2D :: s => (true, s)
  | s => (false, s)

def potenz (v : F) (eneg : Bool) (exp : Nat) : F :=
  if 310 < exp then if eneg then A.zero else A.infinity
  else if eneg then (fun v => A.div v A.ten)^[exp] v
  else (fun v => A.mul v A.ten)^[exp] v

def exponent (v : F) : List UInt8 → Option (F × List UInt8)
  | [] => some (v, [])
  | e :: s =>
      if e = 0x65 ∨ e = 0x45 then
        let (eneg, s) := exponentVorzeichen s
        (ziffernfolge s).bind fun (folge, s) =>
        (ziffern (2 ^ 31) 0 folge).map fun exp => (potenz A v eneg exp, s)
      else some (v, e :: s)

def parseF64 (s : List UInt8) : Option F :=
  let neg := s.head? == some 0x2D
  (ziffernfolge (if neg then s.tail else s)).bind fun (folge, s) =>
  let v := folge.foldl (fun v b => A.add (A.mul v A.ten) (A.ofU8 (b - 0x30))) A.zero
  (bruch A v s).bind fun (v, s) =>
  (exponent A v s).bind fun (v, s) =>
  if s ≠ [] then none else some (if neg then A.neg v else v)

/-- Checked facts, without a verdict on the signature. -/
structure ManifestFacts (F : Type) where
  schemaVersion : UInt32
  trampolineNames : Nat
  coveragePct : F
  bars : Nat
  dmaSize : UInt64
  irq : UInt32
  signaturePresent : Bool
  deriving DecidableEq

def isQuoted (s : List UInt8) : Bool :=
  2 ≤ s.length && s.head? == some quote && s.getLast? == some quote

def containsArrow : List UInt8 → Bool
  | a :: b :: s => (a == 0x2D && b == 0x3E) || containsArrow (b :: s)
  | _ => false

/-- One turn of the loop of `count_arrow_strings`. -/
def stubname (n : Nat) (d : List UInt8) : Except LxpdError (Nat × List UInt8) :=
  if maxItems ≤ n then .error .badManifest
  else
    (valueSpan d).bind fun (item, r) =>
    if isQuoted item = false then .error .badManifest
    else if containsArrow (innen item) = false then .error .badManifest
    else .ok (n + 1, r)

theorem stubname_kuerzer : Kuerzer stubname := by
  intro n d n' r h
  obtain ⟨-, h⟩ := ite_error_eq_ok.mp h
  obtain ⟨x, hx, h⟩ := bind_eq_ok.mp h
  obtain ⟨-, h⟩ := ite_error_eq_ok.mp h
  obtain ⟨-, h⟩ := ite_error_eq_ok.mp h
  cases h
  exact (valueSpan_cut hx).lt

def countArrowStrings (span : List UInt8) : Except LxpdError Nat :=
  if span.head? ≠ some bracketOpen then .error .badManifest
  else
    let d := skipWs span.tail
    if d.head? = some bracketClose then .ok 0
    else eintraege bracketClose .badManifest stubname stubname_kuerzer 0 d

/-- The field `size` of a nested object. -/
def groesse (span : List UInt8) : Option UInt64 :=
  match parseObjectInto maxNestKeys span with
  | .error _ => none
  | .ok nest => (find nest fSize).bind parseU64

/-- One turn of the loop of `check_bars`, with the number of entries and the number of those
that have a size. -/
def barEintrag (x : Nat × Nat) (d : List UInt8) : Except LxpdError ((Nat × Nat) × List UInt8) :=
  if maxItems ≤ x.1 then .error .badManifest
  else
    match valueSpan d with
    | .error _ => .error .badGrants
    | .ok (item, r) =>
        let mitGroesse := if (groesse item).any (0 < ·) then x.2 + 1 else x.2
        .ok ((x.1 + 1, mitGroesse), r)

theorem barEintrag_kuerzer : Kuerzer barEintrag := by
  intro x d x' r h
  obtain ⟨-, h⟩ := ite_error_eq_ok.mp h
  split at h
  · cases h
  · next hspan =>
    cases h
    exact (valueSpan_cut hspan).lt

def checkBars (span : List UInt8) : Except LxpdError Nat :=
  if span.head? ≠ some bracketOpen then .error .badGrants
  else
    let d := skipWs span.tail
    if d.head? = some bracketClose then .error .badGrants
    else
      (eintraege bracketClose .badGrants barEintrag barEintrag_kuerzer (0, 0) d).bind
        fun (n, mitGroesse) => if mitGroesse = 0 then .error .badGrants else .ok n

def manifestFacts (json : List UInt8) : Except LxpdError (ManifestFacts F) :=
  (topPairs json).bind fun buf =>
  (okOr .badManifest (find buf fSchemaVersion)).bind fun fassung =>
  (okOr .badManifest (parseU32 fassung)).bind fun version =>
  if version ≠ manifestSchemaVersion then .error .badManifest
  else
    (okOr .badManifest (find buf fDriver)).bind fun treiber =>
    if isQuoted treiber = false ∨ treiber.length = 2 then .error .badManifest
    else
      (okOr .badManifest (find buf fCoverage)).bind fun deckung =>
      (okOr .badManifest (parseF64 A deckung)).bind fun coveragePct =>
      if A.eq coveragePct A.hundred = false then .error .badManifest
      else
        (okOr .badGrants (find buf fGrantsBar)).bind fun barsSpan =>
        (checkBars barsSpan).bind fun bars =>
        (okOr .badGrants (find buf fDmaWindow)).bind fun dmaSpan =>
        (okOr .badGrants (groesse dmaSpan)).bind fun dmaSize =>
        if dmaSize = 0 then .error .badGrants
        else
          (okOr .badGrants (find buf fIrqVector)).bind fun irqSpan =>
          (okOr .badGrants (parseU32 irqSpan)).bind fun irq =>
          if irq = 0 then .error .badGrants
          else
            (okOr .badManifest (find buf fTrampolines)).bind fun trampSpan =>
            (countArrowStrings trampSpan).bind fun trampolineNames =>
            let signaturePresent :=
              (find buf fSignature).any fun s => isQuoted s && decide (2 < s.length)
            .ok ⟨manifestSchemaVersion, trampolineNames, coveragePct, bars, dmaSize, irq,
              signaturePresent⟩

def fnv64Offset : UInt64 := 0xcbf29ce4842225c5

def fnv64Prime : UInt64 := 0x100000001b3

def fnvFeed (h : UInt64) (bytes : List UInt8) : UInt64 :=
  bytes.foldl (fun h b => (h ^^^ b.toUInt64) * fnv64Prime) h

def hexVal (b : UInt8) : Option UInt8 :=
  if 0x30 ≤ b ∧ b ≤ 0x39 then some (b - 0x30)
  else if 0x61 ≤ b ∧ b ≤ 0x66 then some (b - 0x61 + 10)
  else if 0x41 ≤ b ∧ b ≤ 0x46 then some (b - 0x41 + 10)
  else none

def trimAscii (s : List UInt8) : List UInt8 := (s.dropWhile isWs).rdropWhile isWs

def feedHex (h : UInt64) : List UInt8 → UInt64
  | hi :: lo :: t =>
      feedHex (fnvFeed h [((hexVal hi).getD 0 <<< 4) ||| (hexVal lo).getD 0]) t
  | _ => h

def feedKey (h : UInt64) (key : List UInt8) : UInt64 :=
  let t := trimAscii key
  if t.length % 2 == 0 && t.all fun b => (hexVal b).isSome then feedHex h t else fnvFeed h key

def feedCanonicalValue (h : UInt64) : List UInt8 → UInt64
  | [] => h
  | b :: d =>
      if b = quote then
        match _h : stringSpan (b :: d) with
        | .ok (s, r) => feedCanonicalValue (fnvFeed h s) r
        | .error _ => fnvFeed h (b :: d)
      else if isWs b = false then feedCanonicalValue (fnvFeed h [b]) d
      else feedCanonicalValue h d
termination_by d => d.length
decreasing_by
  · exact (stringSpan_cut _h).lt
  all_goals simp

variable {β : Type}

/-- The inner loop of the sort: `x` stands at index `a`, and is exchanged for each later entry
with a smaller key. -/
def durchgang (x : Pair β) : List (Pair β) → Pair β × List (Pair β)
  | [] => (x, [])
  | y :: ys =>
      if y.key < x.key then ((durchgang y ys).1, x :: (durchgang y ys).2)
      else ((durchgang x ys).1, y :: (durchgang x ys).2)

theorem durchgang_length (x : Pair β) (ys : List (Pair β)) :
    (durchgang x ys).2.length = ys.length := by
  induction ys generalizing x with
  | nil => rfl
  | cons y ys ih =>
    unfold durchgang
    split
    · simp [ih]
    · simp [ih]

/-- The outer loop of the sort, from index `a` on. -/
def sortieren : List (Pair β) → List (Pair β)
  | [] => []
  | x :: xs => (durchgang x xs).1 :: sortieren (durchgang x xs).2
termination_by xs => xs.length
decreasing_by
  rw [durchgang_length]
  exact Nat.lt_succ_self _

/-- The members that are signed, in the order of their keys. -/
def signiert (buf : List (Pair β)) : List (Pair β) :=
  sortieren (buf.filter fun p => decide (p.key ≠ fSignature))

def feedMitglied (h : UInt64) (p : Pair (List UInt8)) : UInt64 :=
  feedCanonicalValue (fnvFeed (fnvFeed (fnvFeed h [quote]) p.key) [quote, colon]) p.val

def feedMitglieder (h : UInt64) : List (Pair (List UInt8)) → UInt64
  | [] => h
  | p :: ps => ps.foldl (fun h p => feedMitglied (fnvFeed h [comma]) p) (feedMitglied h p)

def hexTable : List UInt8 := ascii "0123456789abcdef"

/-- `{:016x}`. -/
def hexSignatur (h : UInt64) : List UInt8 :=
  (List.range 8).flatMap fun k =>
    let byte := (h >>> UInt64.ofNat ((7 - k) * 8)).toUInt8
    [hexTable.getD (byte >>> 4).toNat 0, hexTable.getD (byte &&& 0x0f).toNat 0]

def verifySignature (json key : List UInt8) : Except LxpdError Unit :=
  if key = [] then .error .badSignature
  else
    (topPairs json).bind fun buf =>
    (okOr .badSignature (find buf fSignature)).bind fun sig =>
    if isQuoted sig = false then .error .badSignature
    else if (innen sig).length ≠ signatureHexLen then .error .badSignature
    else
      let h := fnvFeed (feedKey fnv64Offset key) [braceOpen]
      let h := fnvFeed (feedMitglieder h (signiert buf)) [braceClose]
      if innen sig = hexSignatur h then .ok () else .error .badSignature

end Caprock.Lxpd
