import Mathlib.Data.List.Basic

/-! # The frames of the debugger protocol

`kodiere` puts a payload between `$` and `#`, with a mark before the bytes that mean something on
the wire, and a checksum behind.  `Parser.feed` takes the wire byte by byte.  Whatever frames are
sent one behind the other, the parser reports each of them once, and a frame that breaks off does
not spoil the next.
-/

namespace Caprock.Rspd

def maxNutzlast : Nat := 2048

def ack : UInt8 := 0x2b
def nak : UInt8 := 0x2d
def unterbrechung : UInt8 := 0x03
def escapeMaske : UInt8 := 0x20

/-- `$`. -/
def anfangsZeichen : UInt8 := 0x24

/-- `#`. -/
def endeZeichen : UInt8 := 0x23

/-- `}`. -/
def escapeZeichen : UInt8 := 0x7d

def pruefsumme (nutzlast : List UInt8) : UInt8 := nutzlast.foldl (· + ·) 0

def hexWert (zeichen : UInt8) : Option UInt8 :=
  if 0x30 ≤ zeichen ∧ zeichen ≤ 0x39 then some (zeichen - 0x30)
  else if 0x61 ≤ zeichen ∧ zeichen ≤ 0x66 then some (zeichen - 0x61 + 10)
  else if 0x41 ≤ zeichen ∧ zeichen ≤ 0x46 then some (zeichen - 0x41 + 10)
  else none

def hexZeichen (halb : UInt8) : UInt8 := if halb < 10 then 0x30 + halb else 0x61 + (halb - 10)

def brauchtEscape (byte : UInt8) : Bool :=
  byte == escapeZeichen || byte == anfangsZeichen || byte == endeZeichen

def kodiertLen (nutzlast : List UInt8) : Nat :=
  nutzlast.foldl (fun n byte => n + if brauchtEscape byte then 2 else 1) (1 + 3)

/-- `aus[p] = byte; p += 1`.  The state is the buffer and `p`. -/
def setze (z : List UInt8 × Nat) (byte : UInt8) : List UInt8 × Nat := (z.1.set z.2 byte, z.2 + 1)

def setzeMaskiert (z : List UInt8 × Nat) (byte : UInt8) : List UInt8 × Nat :=
  if brauchtEscape byte then setze (setze z escapeZeichen) (byte ^^^ escapeMaske) else setze z byte

/-- `#` and the two digits. -/
def setzeSumme (z : List UInt8 × Nat) (summe : UInt8) : List UInt8 × Nat :=
  setze (setze (setze z endeZeichen) (hexZeichen (summe >>> 4))) (hexZeichen (summe &&& 0x0f))

def kodiere (nutzlast aus : List UInt8) : Option Nat × List UInt8 :=
  if aus.length < kodiertLen nutzlast then (none, aus)
  else
    let z := nutzlast.foldl setzeMaskiert (setze (aus, 0) anfangsZeichen)
    let z := setzeSumme z (pruefsumme nutzlast)
    (some z.2, z.1)

def kodiereLeer (aus : List UInt8) : Option Nat × List UInt8 := kodiere [] aus

/-- The frame of a payload, as `kodiere` writes it into a buffer of its length. -/
def kodiert (nutzlast : List UInt8) : List UInt8 :=
  (kodiere nutzlast (List.replicate (kodiertLen nutzlast) 0)).2

def maske (byte : UInt8) : List UInt8 :=
  if brauchtEscape byte then [escapeZeichen, byte ^^^ escapeMaske] else [byte]

def summenText (summe : UInt8) : List UInt8 :=
  [endeZeichen, hexZeichen (summe >>> 4), hexZeichen (summe &&& 0x0f)]

def rahmen (nutzlast : List UInt8) : List UInt8 :=
  anfangsZeichen :: (nutzlast.flatMap maske ++ summenText (pruefsumme nutzlast))

theorem kodiertLen_eq (nutzlast : List UInt8) :
    kodiertLen nutzlast = (nutzlast.flatMap maske).length + 4 := by
  have hfold : ∀ (xs : List UInt8) (n : Nat),
      xs.foldl (fun n byte => n + if brauchtEscape byte then 2 else 1) n =
        n + (xs.flatMap maske).length := by
    intro xs
    induction xs with
    | nil => simp
    | cons byte xs ih =>
      intro n
      rw [List.foldl_cons, ih, List.flatMap_cons, List.length_append, maske]
      split
      · simp only [List.length_cons, List.length_nil]
        omega
      · simp only [List.length_cons, List.length_nil]
        omega
  rw [kodiertLen, hfold]
  omega

@[simp] theorem length_rahmen (nutzlast : List UInt8) :
    (rahmen nutzlast).length = kodiertLen nutzlast := by
  simp [rahmen, summenText, kodiertLen_eq]

theorem prefix_maske {byte : UInt8} {vorn danach : List UInt8} (h : vorn <+: maske byte ++ danach)
    (hlast : vorn.getLast? ≠ some escapeZeichen) :
    vorn = [] ∨ ∃ rest, vorn = maske byte ++ rest ∧ rest <+: danach ∧
      rest.getLast? ≠ some escapeZeichen := by
  have hend : ∀ (xs : List UInt8) {rest : List UInt8},
      (xs ++ rest).getLast? ≠ some escapeZeichen → rest.getLast? ≠ some escapeZeichen := by
    intro xs rest h heq
    exact h (by rw [List.getLast?_append, heq, Option.some_or])
  cases vorn with
  | nil => exact .inl rfl
  | cons v vorn =>
    right
    by_cases hescape : brauchtEscape byte = true
    · rw [maske, if_pos hescape] at h ⊢
      obtain ⟨rfl, hrest⟩ := List.cons_prefix_cons.mp h
      cases vorn with
      | nil => exact absurd rfl hlast
      | cons v' vorn =>
        obtain ⟨rfl, hrest'⟩ := List.cons_prefix_cons.mp hrest
        exact ⟨vorn, rfl, hrest', hend [escapeZeichen, byte ^^^ escapeMaske] hlast⟩
    · rw [maske, if_neg hescape] at h ⊢
      obtain ⟨rfl, hrest⟩ := List.cons_prefix_cons.mp h
      exact ⟨vorn, rfl, hrest, hend [v] hlast⟩

theorem prefix_of_notMem {vorn body : List UInt8} {summe : UInt8}
    (h : vorn <+: body ++ summenText summe) (hoffen : endeZeichen ∉ vorn) : vorn <+: body := by
  rcases List.prefix_or_prefix_of_prefix h (List.prefix_append body _) with hin | ⟨t, rfl⟩
  · exact hin
  · rw [List.prefix_append_right_inj] at h
    cases t with
    | nil =>
      simp
    | cons b t =>
      obtain ⟨rfl, -⟩ := List.cons_prefix_cons.mp h
      exact absurd (List.mem_append_right _ List.mem_cons_self) hoffen

/-- The bytes `w` stand at the beginning of the buffer, and the next one goes behind them. -/
structure Geschrieben (aus w : List UInt8) (z : List UInt8 × Nat) : Prop where
  puffer : z.1 = w ++ aus.drop w.length
  stelle : z.2 = w.length

variable {aus w : List UInt8} {z : List UInt8 × Nat}

theorem Geschrieben.setze (h : Geschrieben aus w z) (hroom : w.length < aus.length) (byte : UInt8) :
    Geschrieben aus (w ++ [byte]) (Rspd.setze z byte) where
  puffer := by
    rw [Rspd.setze, h.puffer, h.stelle, List.drop_eq_getElem_cons hroom,
      List.set_append_right _ _ (Nat.le_refl _), Nat.sub_self, List.set_cons_zero]
    simp
  stelle := by
    rw [Rspd.setze, h.stelle, List.length_append, List.length_singleton]

theorem Geschrieben.setzeMaskiert (h : Geschrieben aus w z) (byte : UInt8)
    (hroom : w.length + (maske byte).length ≤ aus.length) :
    Geschrieben aus (w ++ maske byte) (Rspd.setzeMaskiert z byte) := by
  unfold Rspd.setzeMaskiert
  unfold maske at hroom ⊢
  split
  · next hescape =>
    rw [if_pos hescape] at hroom
    simp only [List.length_cons, List.length_nil] at hroom
    have hmark := h.setze (by omega) escapeZeichen
    have hlen : (w ++ [escapeZeichen]).length < aus.length := by
      rw [List.length_append, List.length_singleton]
      omega
    have hboth := hmark.setze hlen (byte ^^^ escapeMaske)
    rwa [List.append_assoc] at hboth
  · next hplain =>
    rw [if_neg hplain] at hroom
    exact h.setze hroom byte

theorem Geschrieben.foldl (h : Geschrieben aus w z) (nutzlast : List UInt8)
    (hroom : w.length + (nutzlast.flatMap maske).length ≤ aus.length) :
    Geschrieben aus (w ++ nutzlast.flatMap maske) (nutzlast.foldl Rspd.setzeMaskiert z) := by
  induction nutzlast generalizing w z with
  | nil => simpa using h
  | cons byte nutzlast ih =>
    rw [List.flatMap_cons, List.length_append] at hroom
    have hnext := h.setzeMaskiert byte (by omega)
    have hrest := ih hnext (by rw [List.length_append]; omega)
    rwa [List.append_assoc] at hrest

theorem Geschrieben.setzeSumme (h : Geschrieben aus w z) (summe : UInt8)
    (hroom : w.length + 3 ≤ aus.length) :
    Geschrieben aus (w ++ summenText summe) (Rspd.setzeSumme z summe) := by
  have hend := h.setze (by omega) endeZeichen
  have hhi := hend.setze (by simp only [List.length_append, List.length_singleton]; omega)
    (hexZeichen (summe >>> 4))
  have hlo := hhi.setze (by simp only [List.length_append, List.length_singleton]; omega)
    (hexZeichen (summe &&& 0x0f))
  rw [List.append_assoc, List.append_assoc] at hlo
  exact hlo

theorem geschrieben_nil (aus : List UInt8) : Geschrieben aus [] (aus, 0) := ⟨rfl, rfl⟩

theorem Geschrieben.eq (h : Geschrieben aus w z) : z = (w ++ aus.drop w.length, w.length) :=
  Prod.ext h.puffer h.stelle

/-- What `kodiere` leaves in the buffer. -/
theorem kodiere_eq (nutzlast aus : List UInt8) : kodiere nutzlast aus =
    if aus.length < kodiertLen nutzlast then (none, aus)
    else (some (kodiertLen nutzlast), rahmen nutzlast ++ aus.drop (kodiertLen nutzlast)) := by
  unfold kodiere
  split
  · rfl
  · next hroom =>
    rw [kodiertLen_eq] at hroom
    have hstart := (geschrieben_nil aus).setze (by simp only [List.length_nil]; omega)
      anfangsZeichen
    have hbody := hstart.foldl nutzlast (by
      simp only [List.nil_append, List.length_singleton]
      omega)
    have hall := hbody.setzeSumme (pruefsumme nutzlast) (by
      simp only [List.nil_append, List.length_append, List.length_singleton]
      omega)
    rw [List.nil_append, List.singleton_append, List.cons_append] at hall
    have heq := hall.eq
    change _ = (rahmen nutzlast ++ aus.drop (rahmen nutzlast).length, (rahmen nutzlast).length)
      at heq
    rw [length_rahmen] at heq
    dsimp only
    rw [heq]

theorem kodiert_eq (nutzlast : List UInt8) : kodiert nutzlast = rahmen nutzlast := by
  rw [kodiert, kodiere_eq, List.length_replicate, if_neg (Nat.lt_irrefl _)]
  simp

inductive Ereignis where
  | bestaetigt
  | abgelehnt
  | unterbrechung
  | paket (n : Nat)
  | pruefsummenFehler
  | zuGross
  deriving DecidableEq, Repr

inductive Zustand where
  | start
  | nutzlast
  | escape
  | summeHi
  | summeLo
  deriving DecidableEq, Repr

structure Parser where
  zustand : Zustand
  puffer : List UInt8
  len : Nat
  summeHi : UInt8
  breite : puffer.length = maxNutzlast
  lenLe : len ≤ maxNutzlast

namespace Parser

def neu : Parser where
  zustand := .start
  puffer := List.replicate maxNutzlast 0
  len := 0
  summeHi := 0
  breite := List.length_replicate
  lenLe := Nat.zero_le _

def nutzlast (p : Parser) : List UInt8 := p.puffer.take p.len

def zurueck (p : Parser) : Parser :=
  { p with zustand := .start, len := 0, summeHi := 0, lenLe := Nat.zero_le _ }

/-- `self.puffer[self.len] = byte; self.len += 1`. -/
def lege (p : Parser) (h : ¬ maxNutzlast ≤ p.len) (byte : UInt8) : Parser :=
  { p with
    puffer := p.puffer.set p.len byte
    len := p.len + 1
    breite := List.length_set.trans p.breite
    lenLe := Nat.not_le.mp h }

def feed (p : Parser) (byte : UInt8) : Option Ereignis × Parser :=
  match p.zustand with
  | .start =>
      if byte = anfangsZeichen then
        (none, { p with len := 0, zustand := .nutzlast, lenLe := Nat.zero_le _ })
      else if byte = ack then (some .bestaetigt, p)
      else if byte = nak then (some .abgelehnt, p)
      else if byte = unterbrechung then (some .unterbrechung, p)
      else (none, p)
  | .nutzlast =>
      if byte = anfangsZeichen then (none, { p with len := 0, lenLe := Nat.zero_le _ })
      else if byte = endeZeichen then (none, { p with zustand := .summeHi })
      else if byte = escapeZeichen then (none, { p with zustand := .escape })
      else if h : maxNutzlast ≤ p.len then (some .zuGross, p.zurueck)
      else (none, p.lege h byte)
  | .escape =>
      if h : maxNutzlast ≤ p.len then (some .zuGross, p.zurueck)
      else (none, { p.lege h (byte ^^^ escapeMaske) with zustand := .nutzlast })
  | .summeHi =>
      match hexWert byte with
      | some hi => (none, { p with summeHi := hi, zustand := .summeLo })
      | none => (some .pruefsummenFehler, p.zurueck)
  | .summeLo =>
      match hexWert byte with
      | none => (some .pruefsummenFehler, p.zurueck)
      | some lo =>
          let soll := (p.summeHi <<< 4) ||| lo
          let ist := pruefsumme p.nutzlast
          let p' := { p with zustand := .start, summeHi := 0 }
          if soll = ist then (some (.paket p.len), p') else (some .pruefsummenFehler, p')

/-- What is reported of a part of the wire, each time with the payload that can be read then. -/
def lauf (p : Parser) : List UInt8 → List (Ereignis × List UInt8) × Parser
  | [] => ([], p)
  | byte :: bytes =>
      let r := p.feed byte
      let rest := lauf r.2 bytes
      ((r.1.map fun e => (e, r.2.nutzlast)).toList ++ rest.1, rest.2)

theorem lauf_append (p : Parser) (xs ys : List UInt8) :
    p.lauf (xs ++ ys) =
      ((p.lauf xs).1 ++ ((p.lauf xs).2.lauf ys).1, ((p.lauf xs).2.lauf ys).2) := by
  induction xs generalizing p with
  | nil => rfl
  | cons x xs ih => simp only [List.cons_append, lauf, ih, List.append_assoc]

@[simp] theorem length_nutzlast (p : Parser) : p.nutzlast.length = p.len := by
  rw [nutzlast, List.length_take, p.breite]
  exact Nat.min_eq_left p.lenLe

theorem nutzlast_lege (p : Parser) (h : ¬ maxNutzlast ≤ p.len) (byte : UInt8) :
    (p.lege h byte).nutzlast = p.nutzlast ++ [byte] := by
  have hlt : p.len < p.puffer.length := by
    rw [p.breite]
    omega
  simp only [nutzlast, lege]
  rw [List.take_add_one, List.take_set_of_le (Nat.le_refl _), List.getElem?_set_self hlt]
  rfl

/-- Nothing is reported, and `x` has arrived so far. -/
structure Empfaengt (p : Parser) (x : List UInt8) : Prop where
  zustand : p.zustand = .nutzlast
  nutzlast : p.nutzlast = x

variable {p : Parser} {x : List UInt8}

theorem Empfaengt.maske (h : p.Empfaengt x) (byte : UInt8) (hroom : x.length < maxNutzlast) :
    ∃ p', p.lauf (maske byte) = ([], p') ∧ p'.Empfaengt (x ++ [byte]) := by
  have hlen : ¬ maxNutzlast ≤ p.len := by
    rw [← length_nutzlast, h.nutzlast]
    omega
  have hone := p.nutzlast_lege hlen byte
  rw [h.nutzlast] at hone
  by_cases hescape : brauchtEscape byte = true
  · have hback : byte ^^^ escapeMaske ^^^ escapeMaske = byte := by
      rw [UInt8.xor_assoc, UInt8.xor_self, UInt8.xor_zero]
    rw [Rspd.maske, if_pos hescape]
    refine ⟨{ p.lege hlen byte with zustand := .nutzlast }, ?_, rfl, hone⟩
    have hfirst : p.feed escapeZeichen = (none, { p with zustand := .escape }) := by
      simp only [feed, h.zustand]
      rfl
    have hsecond : ({ p with zustand := .escape } : Parser).feed (byte ^^^ escapeMaske) =
        (none, { p.lege hlen byte with zustand := .nutzlast }) := by
      simp only [feed, dif_neg hlen, hback]
      rfl
    simp only [lauf, hfirst, hsecond]
    rfl
  · rw [Rspd.maske, if_neg hescape]
    have hplain : byte ≠ escapeZeichen ∧ byte ≠ anfangsZeichen ∧ byte ≠ endeZeichen := by
      simpa [brauchtEscape, not_or, and_assoc] using hescape
    refine ⟨p.lege hlen byte, ?_, h.zustand, hone⟩
    have hfeed : p.feed byte = (none, p.lege hlen byte) := by
      simp only [feed, h.zustand, if_neg hplain.2.1, if_neg hplain.2.2, if_neg hplain.1,
        dif_neg hlen]
    simp only [lauf, hfeed]
    rfl

theorem Empfaengt.flatMap (h : p.Empfaengt x) (y : List UInt8)
    (hroom : x.length + y.length ≤ maxNutzlast) :
    ∃ p', p.lauf (y.flatMap Rspd.maske) = ([], p') ∧ p'.Empfaengt (x ++ y) := by
  induction y generalizing p x with
  | nil => exact ⟨p, rfl, by rwa [List.append_nil]⟩
  | cons byte y ih =>
    rw [List.length_cons] at hroom
    obtain ⟨p₁, hfirst, hone⟩ := h.maske byte (by omega)
    obtain ⟨p₂, hrest, hall⟩ := ih hone (by
      rw [List.length_append, List.length_singleton]
      omega)
    refine ⟨p₂, ?_, by rwa [List.append_assoc] at hall⟩
    rw [List.flatMap_cons, lauf_append, hfirst, hrest]
    rfl

theorem Empfaengt.abbruch (h : p.Empfaengt x) {y vorn : List UInt8}
    (hroom : x.length + y.length ≤ maxNutzlast) (hvorn : vorn <+: y.flatMap Rspd.maske)
    (hlast : vorn.getLast? ≠ some escapeZeichen) :
    ∃ p', p.lauf vorn = ([], p') ∧ p'.zustand = .nutzlast := by
  induction y generalizing p x vorn with
  | nil =>
    obtain rfl : vorn = [] := List.prefix_nil.mp hvorn
    exact ⟨p, rfl, h.zustand⟩
  | cons byte y ih =>
    rw [List.length_cons] at hroom
    rw [List.flatMap_cons] at hvorn
    rcases prefix_maske hvorn hlast with rfl | ⟨rest, rfl, hrest, hend⟩
    · exact ⟨p, rfl, h.zustand⟩
    · obtain ⟨p₁, hfirst, hone⟩ := h.maske byte (by omega)
      obtain ⟨p₂, hsecond, hstate⟩ := ih hone (by
        rw [List.length_append, List.length_singleton]
        omega) hrest hend
      refine ⟨p₂, ?_, hstate⟩
      rw [lauf_append, hfirst, hsecond]
      rfl

theorem hexWert_hexZeichen (summe : UInt8) :
    hexWert (hexZeichen (summe >>> 4)) = some (summe >>> 4) ∧
    hexWert (hexZeichen (summe &&& 0x0f)) = some (summe &&& 0x0f) ∧
    ((summe >>> 4) <<< 4) ||| (summe &&& 0x0f) = summe := by
  have hall : ∀ n < 256, let s := UInt8.ofNat n
      hexWert (hexZeichen (s >>> 4)) = some (s >>> 4) ∧
        hexWert (hexZeichen (s &&& 0x0f)) = some (s &&& 0x0f) ∧
        ((s >>> 4) <<< 4) ||| (s &&& 0x0f) = s := by
    decide +kernel
  have hsumme := hall summe.toNat summe.toNat_lt
  rwa [UInt8.ofNat_toNat] at hsumme

/-- The end of a frame is the packet. -/
theorem Empfaengt.summe (h : p.Empfaengt x) :
    ∃ p', p.lauf (summenText (pruefsumme x)) = ([(.paket x.length, x)], p') ∧
      p'.zustand = .start := by
  obtain ⟨hhi, hlo, hback⟩ := hexWert_hexZeichen (pruefsumme x)
  have hlen : p.len = x.length := by rw [← length_nutzlast, h.nutzlast]
  have hfirst : p.feed endeZeichen = (none, { p with zustand := .summeHi }) := by
    simp only [feed, h.zustand]
    rfl
  have hsecond : ({ p with zustand := .summeHi } : Parser).feed
      (hexZeichen (pruefsumme x >>> 4)) =
        (none, { p with summeHi := pruefsumme x >>> 4, zustand := .summeLo }) := by
    simp only [feed, hhi]
  have hthird : ({ p with summeHi := pruefsumme x >>> 4, zustand := .summeLo } : Parser).feed
      (hexZeichen (pruefsumme x &&& 0x0f)) =
        (some (.paket x.length), { p with zustand := .start, summeHi := 0 }) := by
    have hsum : pruefsumme ({ p with summeHi := pruefsumme x >>> 4, zustand := .summeLo } :
        Parser).nutzlast = pruefsumme x := congrArg pruefsumme h.nutzlast
    simp only [feed, hlo, hback]
    exact (if_pos hsum.symm).trans (congrArg (fun n => (some (Ereignis.paket n), _)) hlen)
  refine ⟨{ p with zustand := .start, summeHi := 0 }, ?_, rfl⟩
  simp only [summenText, lauf, hfirst, hsecond, hthird, Option.map_none, Option.map_some,
    Option.toList_none, Option.toList_some, List.nil_append, List.append_nil]
  exact congrArg (fun y => ([(Ereignis.paket x.length, y)], _)) h.nutzlast

theorem lauf_rahmen (h : p.zustand = .start ∨ p.zustand = .nutzlast)
    (hroom : x.length ≤ maxNutzlast) :
    ∃ p', p.lauf (rahmen x) = ([(.paket x.length, x)], p') ∧
      p'.zustand = .start := by
  have hfirst : ∃ p₁, p.feed anfangsZeichen = (none, p₁) ∧ p₁.Empfaengt [] := by
    rcases h with h | h
    · refine ⟨{ p with len := 0, zustand := .nutzlast, lenLe := Nat.zero_le _ }, ?_, rfl, rfl⟩
      simp only [feed, h, if_true]
    · refine ⟨{ p with len := 0, lenLe := Nat.zero_le _ }, ?_, h, rfl⟩
      simp only [feed, h, if_true]
  obtain ⟨p₁, hstart, hnone⟩ := hfirst
  obtain ⟨p₂, hbody, hall⟩ := hnone.flatMap x (by simpa using hroom)
  rw [List.nil_append] at hall
  obtain ⟨p₃, hend, hstate⟩ := hall.summe
  refine ⟨p₃, ?_, hstate⟩
  rw [rahmen, lauf, hstart]
  rw [lauf_append, hbody, hend]
  rfl

theorem lauf_abbruch (h : p.zustand = .start) {vorn : List UInt8} (hroom : x.length ≤ maxNutzlast)
    (hvorn : vorn <+: rahmen x) (hoffen : endeZeichen ∉ vorn)
    (hlast : vorn.getLast? ≠ some escapeZeichen) :
    ∃ p', p.lauf vorn = ([], p') ∧ (p'.zustand = .start ∨ p'.zustand = .nutzlast) := by
  cases vorn with
  | nil => exact ⟨p, rfl, .inl h⟩
  | cons byte vorn =>
    obtain ⟨rfl, hrest⟩ := List.cons_prefix_cons.mp hvorn
    have hinside := prefix_of_notMem hrest fun hmem => hoffen (List.mem_cons_of_mem _ hmem)
    have hend : vorn.getLast? ≠ some escapeZeichen := by
      cases vorn with
      | nil => simp
      | cons b vorn => rwa [List.getLast?_cons_cons] at hlast
    have hfirst : p.feed anfangsZeichen =
        (none, { p with len := 0, zustand := .nutzlast, lenLe := Nat.zero_le _ }) := by
      simp only [feed, h, if_true]
    have hnone : ({ p with len := 0, zustand := .nutzlast, lenLe := Nat.zero_le _ } :
      Parser).Empfaengt [] := ⟨rfl, rfl⟩
    obtain ⟨p', hlauf, hstate⟩ := hnone.abbruch (by simpa using hroom) hinside hend
    refine ⟨p', ?_, .inr hstate⟩
    rw [lauf, hfirst]
    rw [hlauf]
    rfl

end Parser

inductive Stueck where
  | quittung (ja : Bool)
  | rahmen (nutzlast : List UInt8)

namespace Stueck

def bytes : Stueck → List UInt8
  | quittung ja => [if ja then ack else nak]
  | rahmen nutzlast => kodiert nutzlast

def ereignis : Stueck → Ereignis
  | quittung ja => if ja then .bestaetigt else .abgelehnt
  | rahmen nutzlast => .paket nutzlast.length

def Passt : Stueck → Prop
  | quittung _ => True
  | rahmen nutzlast => nutzlast.length ≤ maxNutzlast

def inhalt : Stueck → Option (List UInt8)
  | quittung _ => none
  | rahmen nutzlast => some nutzlast

end Stueck

/-- The payload that stands in the parser when a packet is reported. -/
def paketInhalt : Ereignis × List UInt8 → Option (List UInt8)
  | (.paket _, nutzlast) => some nutzlast
  | _ => none

namespace Parser

theorem lauf_stueck {p : Parser} (h : p.zustand = .start) {s : Stueck} (hs : s.Passt) :
    ∃ p' x, p.lauf s.bytes = ([(s.ereignis, x)], p') ∧ p'.zustand = .start ∧
      paketInhalt (s.ereignis, x) = s.inhalt := by
  cases s with
  | quittung ja =>
    have hfeed : p.feed (if ja then ack else nak) =
        (some (if ja then .bestaetigt else .abgelehnt), p) := by
      simp only [feed, h]
      cases ja <;> rfl
    refine ⟨p, p.nutzlast, ?_, h, ?_⟩
    · simp only [Stueck.bytes, Stueck.ereignis, lauf, hfeed]
      rfl
    · cases ja <;> rfl
  | rahmen nutzlast =>
    obtain ⟨p', hlauf, hstate⟩ := p.lauf_rahmen (.inl h) hs
    exact ⟨p', nutzlast, by rw [Stueck.bytes, kodiert_eq]; exact hlauf, hstate, rfl⟩

theorem lauf_stuecke {p : Parser} (h : p.zustand = .start) {stuecke : List Stueck}
    (hs : ∀ s ∈ stuecke, s.Passt) :
    (p.lauf (stuecke.flatMap Stueck.bytes)).1.map Prod.fst = stuecke.map Stueck.ereignis ∧
      (p.lauf (stuecke.flatMap Stueck.bytes)).1.filterMap paketInhalt =
        stuecke.filterMap Stueck.inhalt ∧
      (p.lauf (stuecke.flatMap Stueck.bytes)).2.zustand = .start := by
  induction stuecke generalizing p with
  | nil => exact ⟨rfl, rfl, h⟩
  | cons s stuecke ih =>
    obtain ⟨p', x, hfirst, hstate, hinhalt⟩ := lauf_stueck h (hs s List.mem_cons_self)
    obtain ⟨hevents, hpayloads, hend⟩ :=
      ih hstate fun s' hs' => hs s' (List.mem_cons_of_mem _ hs')
    rw [List.flatMap_cons, lauf_append, hfirst]
    refine ⟨?_, ?_, hend⟩
    · rw [List.map_append, hevents]
      rfl
    · rw [List.filterMap_append, hpayloads, List.filterMap_cons, List.filterMap_cons, hinhalt]
      cases s.inhalt <;> rfl

end Parser

end Caprock.Rspd
