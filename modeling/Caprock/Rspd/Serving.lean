import Caprock.Lib.Word
import Caprock.Rspd.Framing

/-! # Serving the debugger

`bediene` answers a payload, with a backend behind it that reads and writes the target.  `bedieneM`
puts its frame together byte by byte while it reads; what it sends is the frame of the hex text of
the bytes that the backend returned.
-/

namespace Caprock.Rspd

open Word

/-- The access to the target.  A buffer that is handed out keeps its length. -/
structure Backend (σ : Type) where
  readMem : σ → Nat → Nat → List UInt8 → (Except Nat Nat × List UInt8) × σ
  writeMem : σ → Nat → List UInt8 → Except Nat Nat × σ
  readRegs : σ → List UInt8 → (Except Nat Nat × List UInt8) × σ
  readMem_length : ∀ s va len out, (readMem s va len out).1.2.length = out.length
  readRegs_length : ∀ s out, (readRegs s out).1.2.length = out.length

inductive Befehl where
  | qSupported
  | frage
  | liesRegister
  | schreibRegister
  | liesSpeicher
  | schreibSpeicher
  | fortsetzen
  | einzelschritt
  | unbekannt
  deriving DecidableEq, Repr

/-- `qSupported`. -/
def qSupportedText : List UInt8 := [0x71, 0x53, 0x75, 0x70, 0x70, 0x6f, 0x72, 0x74, 0x65, 0x64]

def qSupportedAntwort : List UInt8 :=
  [0x50, 0x61, 0x63, 0x6b, 0x65, 0x74, 0x53, 0x69, 0x7a, 0x65, 0x3d, 0x32, 0x30, 0x34, 0x38]

def anhaltegrund : List UInt8 := [0x53, 0x30, 0x35]

/-- `E01`. -/
def fehlerBackend : List UInt8 := [0x45, 0x30, 0x31]

/-- `OK`. -/
def okText : List UInt8 := [0x4f, 0x4b]

def beginntMit (nutzlast praefix : List UInt8) : Bool :=
  decide (praefix.length ≤ nutzlast.length) && nutzlast.take praefix.length == praefix

def klassifiziere (nutzlast : List UInt8) : Befehl :=
  if nutzlast = [0x3f] then .frage
  else if nutzlast = [0x67] then .liesRegister
  else if beginntMit nutzlast qSupportedText then .qSupported
  else if nutzlast.head? = some 0x47 then .schreibRegister
  else if nutzlast.head? = some 0x6d then .liesSpeicher
  else if nutzlast.head? = some 0x4d then .schreibSpeicher
  else if nutzlast.head? = some 0x63 then .fortsetzen
  else if nutzlast.head? = some 0x73 then .einzelschritt
  else .unbekannt

def setzeHalbe (z : List UInt8 × Nat) (byte : UInt8) : List UInt8 × Nat :=
  setze (setze z (hexZeichen (byte >>> 4))) (hexZeichen (byte &&& 0x0f))

def hexKodiere (daten aus : List UInt8) : Option Nat × List UInt8 :=
  if aus.length < 2 * daten.length then (none, aus)
  else (some (2 * daten.length), (daten.foldl setzeHalbe (aus, 0)).1)

def halbe (byte : UInt8) : List UInt8 := [hexZeichen (byte >>> 4), hexZeichen (byte &&& 0x0f)]

def hexText (daten : List UInt8) : List UInt8 := daten.flatMap halbe

def hexZiffern : Nat → List UInt8 → Option Nat
  | wert, [] => some wert
  | wert, zeichen :: ziffern =>
      (hexWert zeichen).bind fun z =>
      (checkedMul wert 16).bind fun w =>
      (checkedAdd w z.toNat).bind fun w => hexZiffern w ziffern

def parseHexU64 (ziffern : List UInt8) : Option Nat :=
  if ziffern = [] ∨ 16 < ziffern.length then none else hexZiffern 0 ziffern

def parseM (nutzlast : List UInt8) : Option (Nat × Nat) :=
  if nutzlast.head? ≠ some 0x6d then none
  else
    let rest := nutzlast.drop 1
    (rest.findIdx? (· == 0x2c)).bind fun komma =>
    (parseHexU64 (rest.take komma)).bind fun addr =>
    (parseHexU64 (rest.drop (komma + 1))).map fun len => (addr, len)

def rohLaenge : Nat := 64

def setzeGelesen (zs : (List UInt8 × Nat) × UInt8) (byte : UInt8) : (List UInt8 × Nat) × UInt8 :=
  let hi := hexZeichen (byte >>> 4)
  let lo := hexZeichen (byte &&& 0x0f)
  (setze (setze zs.1 hi) lo, zs.2 + hi + lo)

variable {σ : Type}

/-- The loop of `bediene_m`.  When the backend fails, the buffer is left as it is then. -/
def leseSchleife (B : Backend σ) (s : σ) (addr rest : Nat) (roh : List UInt8)
    (zs : (List UInt8 × Nat) × UInt8) : Except (List UInt8) ((List UInt8 × Nat) × UInt8) × σ :=
  if rest = 0 then (.ok zs, s)
  else
    let stueck := if rest < rohLaenge then rest else rohLaenge
    match B.readMem s addr stueck (roh.take stueck) with
    | ((.error _, _), s) => (.error zs.1.1, s)
    | ((.ok n, out), s) =>
        if stueck < n then (.error zs.1.1, s)
        else if n = 0 then (.ok zs, s)
        else
          let roh := out ++ roh.drop stueck
          let zs := (roh.take n).foldl setzeGelesen zs
          if n < stueck then (.ok zs, s)
          else leseSchleife B s (wadd addr n) (rest - n) roh zs
termination_by rest

def bedieneM (B : Backend σ) (s : σ) (nutzlast aus : List UInt8) :
    (Option Nat × List UInt8) × σ :=
  match parseM nutzlast with
  | none => (kodiereLeer aus, s)
  | some (addr, len) =>
      if len = 0 then (kodiere [] aus, s)
      else if (aus.length - 4) / 2 < len then ((none, aus), s)
      else
        match leseSchleife B s addr len (List.replicate rohLaenge 0)
          (setze (aus, 0) anfangsZeichen, 0) with
        | (.error aus, s) => (kodiere fehlerBackend aus, s)
        | (.ok (z, summe), s) => ((some (setzeSumme z summe).2, (setzeSumme z summe).1), s)

def bedieneG (B : Backend σ) (s : σ) (aus : List UInt8) : (Option Nat × List UInt8) × σ :=
  match B.readRegs s (List.replicate 512 0) with
  | ((.error _, _), s) => (kodiere fehlerBackend aus, s)
  | ((.ok n, roh), s) =>
      if 512 < n then (kodiere fehlerBackend aus, s)
      else
        match hexKodiere (roh.take n) (List.replicate 1024 0) with
        | (none, _) => ((none, aus), s)
        | (some m, hex) => (kodiere (hex.take m) aus, s)

/-- The loop of `parse_gross_m`: the first comma before the first colon. -/
def trenner : Nat → Option Nat → List UInt8 → Option Nat × Option Nat
  | _, komma, [] => (komma, none)
  | i, komma, byte :: rest =>
      let komma := if byte = 0x2c ∧ komma = none then some i else komma
      if byte = 0x3a then (komma, some i) else trenner (i + 1) komma rest

def parseGrossM (nutzlast : List UInt8) : Option (Nat × Nat × Nat) :=
  if nutzlast.head? ≠ some 0x4d then none
  else
    let rest := nutzlast.drop 1
    match trenner 0 none rest with
    | (some komma, some doppel) =>
        if doppel < komma then none
        else
          (parseHexU64 (rest.take komma)).bind fun addr =>
          (parseHexU64 ((rest.take doppel).drop (komma + 1))).map fun len =>
            (addr, len, 1 + doppel + 1)
    | _ => none

def dekodiere : List UInt8 → Option (List UInt8)
  | hi :: lo :: hex =>
      (hexWert hi).bind fun h => (hexWert lo).bind fun l =>
        (dekodiere hex).map fun bytes => ((h <<< 4) ||| l) :: bytes
  | _ => some []

/-- The loop of `bediene_gross_m` over what is left of the hex text. -/
def schreibSchleife (B : Backend σ) (s : σ) (addr : Nat) (hexdaten aus : List UInt8) :
    (Option Nat × List UInt8) × σ :=
  if hexdaten = [] then (kodiere okText aus, s)
  else
    let stueckHex := if hexdaten.length < 128 then hexdaten.length else 128
    let stueck := stueckHex / 2
    match dekodiere (hexdaten.take stueckHex) with
    | none => (kodiereLeer aus, s)
    | some roh =>
        match B.writeMem s addr roh with
        | (.error _, s) => (kodiere fehlerBackend aus, s)
        | (.ok n, s) =>
            if n = stueck then
              schreibSchleife B s (wadd addr stueck) (hexdaten.drop stueckHex) aus
            else (kodiere fehlerBackend aus, s)
termination_by hexdaten.length
decreasing_by
  have hpos : 0 < hexdaten.length := List.length_pos_of_ne_nil (by assumption)
  rw [List.length_drop]
  split <;> omega

def bedieneGrossM (B : Backend σ) (s : σ) (nutzlast aus : List UInt8) :
    (Option Nat × List UInt8) × σ :=
  match parseGrossM nutzlast with
  | none => (kodiereLeer aus, s)
  | some (addr, len, hexAb) =>
      if nutzlast.length < hexAb then ((none, aus), s)
      else
        let hexdaten := nutzlast.drop hexAb
        match checkedMul len 2 with
        | none => (kodiereLeer aus, s)
        | some erwartet =>
            if hexdaten.length ≠ erwartet then (kodiereLeer aus, s)
            else if len = 0 then (kodiere okText aus, s)
            else schreibSchleife B s addr hexdaten aus

def bediene (B : Backend σ) (s : σ) (nutzlast aus : List UInt8) : (Option Nat × List UInt8) × σ :=
  match klassifiziere nutzlast with
  | .qSupported => (kodiere qSupportedAntwort aus, s)
  | .frage => (kodiere anhaltegrund aus, s)
  | .liesRegister => bedieneG B s aus
  | .liesSpeicher => bedieneM B s nutzlast aus
  | .schreibSpeicher => bedieneGrossM B s nutzlast aus
  | .schreibRegister => (kodiereLeer aus, s)
  | .fortsetzen => (kodiereLeer aus, s)
  | .einzelschritt => (kodiereLeer aus, s)
  | .unbekannt => (kodiereLeer aus, s)

/-- The bytes that the backend returns to the calls of `leseSchleife`. -/
def gelesen (B : Backend σ) (s : σ) (addr rest : Nat) (roh : List UInt8) :
    Except Unit (List UInt8) × σ :=
  if rest = 0 then (.ok [], s)
  else
    let stueck := if rest < rohLaenge then rest else rohLaenge
    match B.readMem s addr stueck (roh.take stueck) with
    | ((.error _, _), s) => (.error (), s)
    | ((.ok n, out), s) =>
        if stueck < n then (.error (), s)
        else if n = 0 then (.ok [], s)
        else
          let roh := out ++ roh.drop stueck
          if n < stueck then (.ok (roh.take n), s)
          else
            let r := gelesen B s (wadd addr n) (rest - n) roh
            (r.1.map (roh.take n ++ ·), r.2)
termination_by rest

theorem leseSchleife_eq (B : Backend σ) (s : σ) (addr rest : Nat) (roh : List UInt8)
    (zs : (List UInt8 × Nat) × UInt8) :
    (leseSchleife B s addr rest roh zs).1.toOption =
        (gelesen B s addr rest roh).1.toOption.map (·.foldl setzeGelesen zs) ∧
      (leseSchleife B s addr rest roh zs).2 = (gelesen B s addr rest roh).2 := by
  induction rest using Nat.strong_induction_on generalizing s addr roh zs with
  | _ rest ih =>
    rw [leseSchleife, gelesen]
    by_cases hrest : rest = 0
    · rw [if_pos hrest, if_pos hrest]
      exact ⟨rfl, rfl⟩
    · rw [if_neg hrest, if_neg hrest]
      dsimp only
      generalize hstueck : (if rest < rohLaenge then rest else rohLaenge) = stueck
      rcases B.readMem s addr stueck (roh.take stueck) with ⟨⟨e | n, out⟩, s₁⟩
      · exact ⟨rfl, rfl⟩
      · dsimp only
        by_cases hmore : stueck < n
        · rw [if_pos hmore, if_pos hmore]
          exact ⟨rfl, rfl⟩
        · rw [if_neg hmore, if_neg hmore]
          by_cases hzero : n = 0
          · rw [if_pos hzero, if_pos hzero]
            exact ⟨rfl, rfl⟩
          · rw [if_neg hzero, if_neg hzero]
            by_cases hless : n < stueck
            · rw [if_pos hless, if_pos hless]
              exact ⟨rfl, rfl⟩
            · rw [if_neg hless, if_neg hless]
              obtain ⟨hvalue, hstate⟩ := ih (rest - n) (by omega) s₁ (wadd addr n)
                (out ++ roh.drop stueck)
                (((out ++ roh.drop stueck).take n).foldl setzeGelesen zs)
              refine ⟨hvalue.trans ?_, hstate⟩
              cases (gelesen B s₁ (wadd addr n) (rest - n) (out ++ roh.drop stueck)).1 with
              | error e => rfl
              | ok bytes =>
                exact congrArg some (List.foldl_append).symm

theorem length_gelesen {B : Backend σ} {s s' : σ} {addr rest : Nat} {roh bytes : List UInt8}
    (h : gelesen B s addr rest roh = (.ok bytes, s')) : bytes.length ≤ rest := by
  induction rest using Nat.strong_induction_on generalizing s addr roh bytes with
  | _ rest ih =>
    rw [gelesen] at h
    by_cases hrest : rest = 0
    · rw [if_pos hrest] at h
      cases h
      exact Nat.zero_le _
    · rw [if_neg hrest] at h
      dsimp only at h
      have hstueck : (if rest < rohLaenge then rest else rohLaenge) ≤ rest := by
        split <;> omega
      generalize (if rest < rohLaenge then rest else rohLaenge) = stueck at h hstueck
      generalize B.readMem s addr stueck (roh.take stueck) = antwort at h
      rcases antwort with ⟨⟨e | n, out⟩, s₁⟩
      · cases h
      · dsimp only at h
        have htake : ((out ++ roh.drop stueck).take n).length ≤ n := List.length_take_le _ _
        split at h
        · cases h
        · split at h
          · cases h
            exact Nat.zero_le _
          · split at h
            · cases h
              omega
            · next hmore hzero _ =>
              cases hnext : gelesen B s₁ (wadd addr n) (rest - n) (out ++ roh.drop stueck) with
              | mk r s₂ =>
                rw [hnext] at h
                cases r with
                | error e => cases h
                | ok more =>
                  cases h
                  have hmore := ih (rest - n) (by omega) hnext
                  rw [List.length_append]
                  omega

theorem Geschrieben.foldl_setzeGelesen {aus w : List UInt8} {z : List UInt8 × Nat} (summe : UInt8)
    (h : Geschrieben aus w z) (bytes : List UInt8)
    (hroom : w.length + 2 * bytes.length ≤ aus.length) :
    Geschrieben aus (w ++ hexText bytes) (bytes.foldl setzeGelesen (z, summe)).1 ∧
      (bytes.foldl setzeGelesen (z, summe)).2 = (hexText bytes).foldl (· + ·) summe := by
  induction bytes generalizing w z summe with
  | nil => exact ⟨by simpa [hexText] using h, rfl⟩
  | cons byte bytes ih =>
    rw [List.length_cons] at hroom
    have hhi := h.setze (by omega) (hexZeichen (byte >>> 4))
    have hlo := hhi.setze (by rw [List.length_append, List.length_singleton]; omega)
      (hexZeichen (byte &&& 0x0f))
    rw [List.append_assoc] at hlo
    obtain ⟨htext, hsum⟩ := ih (summe + hexZeichen (byte >>> 4) + hexZeichen (byte &&& 0x0f)) hlo
      (by simp only [List.length_append, List.length_singleton]; omega)
    refine ⟨?_, hsum⟩
    rw [List.append_assoc] at htext
    exact htext

theorem maske_hexZeichen (byte : UInt8) :
    maske (hexZeichen (byte >>> 4)) = [hexZeichen (byte >>> 4)] ∧
    maske (hexZeichen (byte &&& 0x0f)) = [hexZeichen (byte &&& 0x0f)] := by
  have hall : ∀ n < 256, let b := UInt8.ofNat n
      maske (hexZeichen (b >>> 4)) = [hexZeichen (b >>> 4)] ∧
        maske (hexZeichen (b &&& 0x0f)) = [hexZeichen (b &&& 0x0f)] := by
    decide +kernel
  have hbyte := hall byte.toNat byte.toNat_lt
  rwa [UInt8.ofNat_toNat] at hbyte

theorem flatMap_maske_hexText (bytes : List UInt8) :
    (hexText bytes).flatMap maske = hexText bytes := by
  induction bytes with
  | nil => rfl
  | cons byte bytes ih =>
    obtain ⟨hhi, hlo⟩ := maske_hexZeichen byte
    have hhalbe : (halbe byte).flatMap maske = halbe byte := by
      simp only [halbe, List.flatMap_cons, List.flatMap_nil, hhi, hlo]
      rfl
    rw [hexText, List.flatMap_cons, List.flatMap_append, hhalbe]
    exact congrArg (halbe byte ++ ·) ih

@[simp] theorem length_hexText (bytes : List UInt8) :
    (hexText bytes).length = 2 * bytes.length := by
  induction bytes with
  | nil => rfl
  | cons byte bytes ih =>
    rw [hexText] at ih ⊢
    rw [List.flatMap_cons, List.length_append, ih, List.length_cons]
    simp only [halbe, List.length_cons, List.length_nil]
    omega

theorem bedieneM_eq (B : Backend σ) {s s' : σ} {nutzlast aus bytes : List UInt8} {addr len : Nat}
    (hparse : parseM nutzlast = some (addr, len)) (hlen : len ≠ 0)
    (hroom : len ≤ (aus.length - 4) / 2)
    (h : gelesen B s addr len (List.replicate rohLaenge 0) = (.ok bytes, s')) :
    bedieneM B s nutzlast aus = (kodiere (hexText bytes) aus, s') := by
  have hbytes := length_gelesen h
  have hstart := (geschrieben_nil aus).setze (by rw [List.length_nil]; omega) anfangsZeichen
  obtain ⟨htext, hsum⟩ := hstart.foldl_setzeGelesen 0 bytes (by
    simp only [List.nil_append, List.length_singleton]
    omega)
  have hframe := htext.setzeSumme (pruefsumme (hexText bytes)) (by
    simp only [List.nil_append, List.length_append, List.length_singleton, length_hexText]
    omega)
  have hrahmen : [] ++ [anfangsZeichen] ++ hexText bytes ++
      summenText (pruefsumme (hexText bytes)) = rahmen (hexText bytes) := by
    rw [rahmen, flatMap_maske_hexText]
    rfl
  rw [hrahmen] at hframe
  have hloop : leseSchleife B s addr len (List.replicate rohLaenge 0)
      (setze (aus, 0) anfangsZeichen, 0) =
        (.ok (bytes.foldl setzeGelesen (setze (aus, 0) anfangsZeichen, 0)), s') := by
    obtain ⟨hvalue, hstate⟩ := leseSchleife_eq B s addr len (List.replicate rohLaenge 0)
      (setze (aus, 0) anfangsZeichen, 0)
    rw [h] at hvalue hstate
    refine Prod.ext ?_ hstate
    cases hres : (leseSchleife B s addr len (List.replicate rohLaenge 0)
        (setze (aus, 0) anfangsZeichen, 0)).1 with
    | error e =>
      rw [hres] at hvalue
      cases hvalue
    | ok zs =>
      rw [hres] at hvalue
      exact congrArg Except.ok (Option.some.inj hvalue)
  have hneed : ¬ aus.length < kodiertLen (hexText bytes) := by
    rw [kodiertLen_eq, flatMap_maske_hexText, length_hexText]
    omega
  unfold bedieneM
  rw [hparse]
  dsimp only
  rw [if_neg hlen, if_neg (by omega), hloop, kodiere_eq, if_neg hneed]
  dsimp only
  rw [hsum, ← pruefsumme, hframe.eq, length_rahmen]

/-- Frames with acknowledgements between them arrive one by one, a frame that broke off does not
spoil the next one, and the answer of `bedieneM` is a frame like the others. -/
theorem rahmung :
    (∀ nutzlast aus : List UInt8, kodiere nutzlast aus =
      if aus.length < kodiertLen nutzlast then (none, aus)
      else (some (kodiertLen nutzlast), kodiert nutzlast ++ aus.drop (kodiertLen nutzlast))) ∧
    (∀ (p : Parser) (stuecke : List Stueck), p.zustand = .start → (∀ s ∈ stuecke, s.Passt) →
      let r := p.lauf (stuecke.flatMap Stueck.bytes)
      r.1.map Prod.fst = stuecke.map Stueck.ereignis ∧
        r.1.filterMap paketInhalt = stuecke.filterMap Stueck.inhalt ∧ r.2.zustand = .start) ∧
    (∀ (p : Parser) (x y vorn : List UInt8), p.zustand = .start → x.length ≤ maxNutzlast →
      y.length ≤ maxNutzlast → vorn <+: kodiert x → endeZeichen ∉ vorn →
      vorn.getLast? ≠ some escapeZeichen →
      (p.lauf (vorn ++ kodiert y)).1 = [(.paket y.length, y)]) ∧
    ∀ (σ : Type) (B : Backend σ) (s s' : σ) (nutzlast aus bytes : List UInt8) (addr len : Nat),
      parseM nutzlast = some (addr, len) → len ≠ 0 → len ≤ (aus.length - 4) / 2 →
      gelesen B s addr len (List.replicate rohLaenge 0) = (.ok bytes, s') →
      bedieneM B s nutzlast aus = (kodiere (hexText bytes) aus, s') := by
  refine ⟨fun nutzlast aus => ?_, fun p stuecke h hs => p.lauf_stuecke h hs, ?_,
    fun σ B s s' nutzlast aus bytes addr len hparse hlen hroom h =>
      bedieneM_eq B hparse hlen hroom h⟩
  · rw [kodiert_eq, kodiere_eq]
  · intro p x y vorn h hx hy hvorn hoffen hlast
    rw [kodiert_eq] at hvorn ⊢
    obtain ⟨p₁, hfirst, hstate⟩ := p.lauf_abbruch h hx hvorn hoffen hlast
    obtain ⟨p₂, hsecond, -⟩ := p₁.lauf_rahmen hstate hy
    rw [Parser.lauf_append, hfirst, hsecond]
    rfl

def gleichesZiel : Backend Unit where
  readMem _ _ _ out := ((.ok out.length, List.replicate out.length 0xaa), ())
  writeMem _ _ data := (.ok data.length, ())
  readRegs _ out := ((.ok 0, out), ())
  readMem_length _ _ _ _ := List.length_replicate
  readRegs_length _ _ := rfl

/-- Two frames with a `+` between them, a frame that breaks off, and one byte of the target. -/
theorem rahmung_beispiel :
    ((Parser.neu.lauf ([Stueck.rahmen [0x24], .quittung true, .rahmen [0x7d]].flatMap
      Stueck.bytes)).1.filterMap paketInhalt = [[0x24], [0x7d]]) ∧
    (Parser.neu.lauf ([0x24, 0x67] ++ kodiert [0x23])).1 = [(.paket 1, [0x23])] ∧
    bedieneM gleichesZiel () [0x6d, 0x30, 0x2c, 0x31] (List.replicate 6 0) =
      (kodiere (hexText [0xaa]) (List.replicate 6 0), ()) := by
  refine ⟨?_, ?_, ?_⟩
  · refine (rahmung.2.1 Parser.neu _ rfl ?_).2.1
    simp [Stueck.Passt, maxNutzlast]
  · refine rahmung.2.2.1 Parser.neu [0x67] [0x23] _ rfl (by decide) (by decide) ?_ ?_ ?_
    · decide
    · decide
    · decide
  · refine rahmung.2.2.2 Unit gleichesZiel () () _ _ _ 0 1 (by decide) (by decide) (by decide) ?_
    simp [gelesen, gleichesZiel, rohLaenge, Except.map]

end Caprock.Rspd
