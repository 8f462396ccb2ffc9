import Caprock.Rspd.Serving

/-! # Writing the memory of the target

`bedieneGrossM` decodes its hex text in pieces of 64 bytes and writes each piece before it looks at
the next.  What is answered with `OK` was written without a gap.  What is refused was not begun,
unless the first wrong digit stands behind the first piece.
-/

namespace Caprock.Rspd

open Word

variable {σ : Type}

/-- One call of `write_mem`. -/
structure Schreibaufruf where
  va : Nat
  data : List UInt8
  antwort : Except Nat Nat

def Backend.protokolliert (B : Backend σ) : Backend (σ × List Schreibaufruf) where
  readMem s va len out :=
    let r := B.readMem s.1 va len out
    (r.1, (r.2, s.2))
  writeMem s va data :=
    let r := B.writeMem s.1 va data
    (r.1, (r.2, s.2 ++ [⟨va, data, r.1⟩]))
  readRegs s out :=
    let r := B.readRegs s.1 out
    (r.1, (r.2, s.2))
  readMem_length s va len out := B.readMem_length s.1 va len out
  readRegs_length s out := B.readRegs_length s.1 out

/-- The frame of `x` stands at the beginning of the buffer. -/
def Antwortet (r : Option Nat × List UInt8) (x : List UInt8) : Prop :=
  r.1.map (fun n => r.2.take n) = some (kodiert x)

instance (r : Option Nat × List UInt8) (x : List UInt8) : Decidable (Antwortet r x) :=
  inferInstanceAs (Decidable (_ = _))

def Geschlossen : Nat → List Schreibaufruf → List UInt8 → Prop
  | _, [], bytes => bytes = []
  | addr, c :: cs, bytes => c.va = addr ∧ c.antwort = .ok c.data.length ∧
      ∃ rest, bytes = c.data ++ rest ∧ Geschlossen (wadd addr c.data.length) cs rest

/-- What a write request promises: refused means not begun, `OK` means written. -/
def HaeltWort (nutzlast : List UInt8) : Prop :=
  ∀ (σ : Type) (B : Backend σ) (s : σ) (aus : List UInt8),
    let r := bediene B.protokolliert (s, []) nutzlast aus
    (Antwortet r.1 [] → r.2 = (s, [])) ∧
      (Antwortet r.1 okText → ∃ addr len hexAb bytes,
        parseGrossM nutzlast = some (addr, len, hexAb) ∧
        dekodiere (nutzlast.drop hexAb) = some bytes ∧ bytes.length = len ∧
        Geschlossen addr r.2.2 bytes)

def istHex (zeichen : UInt8) : Bool := (hexWert zeichen).isSome

def FehlerVorn (nutzlast : List UInt8) : Prop :=
  ∀ addr len hexAb, parseGrossM nutzlast = some (addr, len, hexAb) →
    checkedMul len 2 = some (nutzlast.drop hexAb).length →
      ((nutzlast.drop hexAb).take 128).all istHex = true →
        (nutzlast.drop hexAb).all istHex = true

variable {x hex : List UInt8}

theorem antwortet_kodiere {y aus : List UInt8} (h : Antwortet (kodiere x aus) y) :
    kodiert x = kodiert y := by
  unfold Antwortet at h
  rw [kodiere_eq] at h
  split at h
  · cases h
  · rw [Option.map_some, kodiert_eq] at h
    rw [kodiert_eq, kodiert_eq, ← Option.some.inj h, List.take_left' (length_rahmen x)]

theorem not_antwortet {y : List UInt8} (hne : kodiert x ≠ kodiert y) (aus : List UInt8) :
    ¬ Antwortet (kodiere x aus) y := fun h => hne (antwortet_kodiere h)

theorem ok_ne_leer : kodiert okText ≠ kodiert [] := by decide

theorem fehler_ne_leer : kodiert fehlerBackend ≠ kodiert [] := by decide

theorem fehler_ne_ok : kodiert fehlerBackend ≠ kodiert okText := by decide

theorem bediene_M (B : Backend σ) (s : σ) (rest aus : List UInt8) :
    bediene B s (0x4d :: rest) aus = bedieneGrossM B s (0x4d :: rest) aus := by
  have hklasse : klassifiziere (0x4d :: rest) = .schreibSpeicher := by
    simp [klassifiziere, beginntMit, qSupportedText]
  unfold bediene
  rw [hklasse]

theorem dekodiere_cons (hi lo : UInt8) (hex : List UInt8) : dekodiere (hi :: lo :: hex) =
    (hexWert hi).bind fun h => (hexWert lo).bind fun l =>
      (dekodiere hex).map fun bytes => ((h <<< 4) ||| l) :: bytes := rfl

theorem dekodiere_isSome (heven : 2 ∣ hex.length) : (dekodiere hex).isSome = hex.all istHex := by
  fun_induction dekodiere hex with
  | case1 hi lo hex ih =>
    have hrest : 2 ∣ hex.length := by
      simp only [List.length_cons] at heven
      omega
    rw [List.all_cons, List.all_cons, ← ih hrest, istHex, istHex]
    cases hexWert hi with
    | none => rfl
    | some h =>
      cases hexWert lo with
      | none => rfl
      | some l => cases dekodiere hex <;> rfl
  | case2 hex hshort =>
    cases hex with
    | nil => rfl
    | cons hi hex =>
      cases hex with
      | nil =>
        rw [List.length_singleton] at heven
        omega
      | cons lo hex => exact absurd rfl (hshort hi lo hex)

theorem length_dekodiere {bytes : List UInt8} (heven : 2 ∣ hex.length)
    (h : dekodiere hex = some bytes) : hex.length = 2 * bytes.length := by
  fun_induction dekodiere hex generalizing bytes with
  | case1 hi lo hex ih =>
    have hrest : 2 ∣ hex.length := by
      simp only [List.length_cons] at heven
      omega
    simp only [Option.bind_eq_some_iff, Option.map_eq_some_iff] at h
    obtain ⟨_, -, _, -, rest, hdek, rfl⟩ := h
    have hlen := ih hrest hdek
    simp only [List.length_cons]
    omega
  | case2 hex hshort =>
    cases h
    cases hex with
    | nil => rfl
    | cons hi hex =>
      cases hex with
      | nil =>
        rw [List.length_singleton] at heven
        omega
      | cons lo hex => exact absurd rfl (hshort hi lo hex)

theorem dekodiere_append (heven : 2 ∣ x.length) (y : List UInt8) :
    dekodiere (x ++ y) = (dekodiere x).bind fun bytes => (dekodiere y).map (bytes ++ ·) := by
  fun_induction dekodiere x with
  | case1 hi lo hex ih =>
    have hrest : 2 ∣ hex.length := by
      simp only [List.length_cons] at heven
      omega
    rw [List.cons_append, List.cons_append, dekodiere_cons, ih hrest]
    cases hexWert hi with
    | none => rfl
    | some h =>
      cases hexWert lo with
      | none => rfl
      | some l =>
        cases dekodiere hex with
        | none => rfl
        | some bytes => cases dekodiere y <;> rfl
  | case2 hex hshort =>
    cases hex with
    | nil => cases hy : dekodiere y <;> simp [hy]
    | cons hi hex =>
      cases hex with
      | nil =>
        rw [List.length_singleton] at heven
        omega
      | cons lo hex => exact absurd rfl (hshort hi lo hex)

theorem schreibSchleife_nil (B : Backend σ) (s : σ) (addr : Nat) (aus : List UInt8) :
    schreibSchleife B s addr [] aus = (kodiere okText aus, s) := by
  rw [schreibSchleife, if_pos rfl]

theorem schreibSchleife_eq (B : Backend σ) (s : σ) (addr : Nat) (aus : List UInt8)
    (hne : hex ≠ []) (heven : 2 ∣ hex.length) :
    schreibSchleife B s addr hex aus =
      match dekodiere (hex.take 128) with
      | none => (kodiereLeer aus, s)
      | some roh =>
        match B.writeMem s addr roh with
        | (.error _, s) => (kodiere fehlerBackend aus, s)
        | (.ok n, s) =>
          if n = roh.length then
            schreibSchleife B s (wadd addr roh.length) (hex.drop 128) aus
          else (kodiere fehlerBackend aus, s) := by
  have htake : hex.take (if hex.length < 128 then hex.length else 128) = hex.take 128 := by
    split
    · rw [List.take_length, List.take_of_length_le (by omega)]
    · rfl
  have hdrop : hex.drop (if hex.length < 128 then hex.length else 128) = hex.drop 128 := by
    split
    · rw [List.drop_length, List.drop_of_length_le (by omega)]
    · rfl
  rw [schreibSchleife, if_neg hne]
  dsimp only
  rw [htake, hdrop]
  cases hroh : dekodiere (hex.take 128) with
  | none => rfl
  | some roh =>
    have hlen : (if hex.length < 128 then hex.length else 128) / 2 = roh.length := by
      have hpiece := length_dekodiere (by rw [List.length_take]; omega) hroh
      rw [List.length_take] at hpiece
      split <;> omega
    exact hlen ▸ rfl

theorem not_leer_of_all (B : Backend σ) (s : σ) (addr : Nat) (aus : List UInt8)
    (heven : 2 ∣ hex.length) (hall : hex.all istHex = true) :
    ¬ Antwortet (schreibSchleife B s addr hex aus).1 [] := by
  induction hlen : hex.length using Nat.strong_induction_on generalizing s addr hex with
  | _ n ih =>
    by_cases hne : hex = []
    · subst hne
      rw [schreibSchleife_nil]
      exact not_antwortet ok_ne_leer aus
    · have hpos := List.length_pos_of_ne_nil hne
      have hsplit := hall
      rw [← List.take_append_drop 128 hex, List.all_append, Bool.and_eq_true] at hsplit
      have hroh : (dekodiere (hex.take 128)).isSome = true := by
        rw [dekodiere_isSome (by rw [List.length_take]; omega)]
        exact hsplit.1
      obtain ⟨roh, hroh⟩ := Option.isSome_iff_exists.mp hroh
      rw [schreibSchleife_eq B s addr aus hne heven, hroh]
      dsimp only
      rcases B.writeMem s addr roh with ⟨e | m, s'⟩
      · exact not_antwortet fehler_ne_leer aus
      · dsimp only
        split
        · exact ih (hex.drop 128).length (by rw [List.length_drop]; omega) s' _
            (by rw [List.length_drop]; omega) hsplit.2 rfl
        · exact not_antwortet fehler_ne_leer aus

theorem geschlossen_of_ok (B : Backend σ) (s : σ) (l : List Schreibaufruf) (addr : Nat)
    (aus : List UInt8) (heven : 2 ∣ hex.length)
    (h : Antwortet (schreibSchleife B.protokolliert (s, l) addr hex aus).1 okText) :
    ∃ bytes cs, dekodiere hex = some bytes ∧
      (schreibSchleife B.protokolliert (s, l) addr hex aus).2.2 = l ++ cs ∧
      Geschlossen addr cs bytes := by
  induction hlen : hex.length using Nat.strong_induction_on generalizing s l addr hex with
  | _ n ih =>
    by_cases hne : hex = []
    · subst hne
      rw [schreibSchleife_nil]
      exact ⟨[], [], rfl, (List.append_nil l).symm, rfl⟩
    · have hpos := List.length_pos_of_ne_nil hne
      rw [schreibSchleife_eq B.protokolliert (s, l) addr aus hne heven] at h ⊢
      cases hroh : dekodiere (hex.take 128) with
      | none =>
        rw [hroh] at h
        exact absurd h (not_antwortet ok_ne_leer.symm aus)
      | some roh =>
        rw [hroh] at h
        simp only [Backend.protokolliert] at h ⊢
        cases hwrite : (B.writeMem s addr roh).1 with
        | error e =>
          rw [hwrite] at h
          exact absurd h (not_antwortet fehler_ne_ok aus)
        | ok m =>
          rw [hwrite] at h
          dsimp only at h ⊢
          split at h
          · next hm =>
            obtain ⟨bytes, cs, hdek, hlog, hclosed⟩ :=
              ih (hex.drop 128).length (by rw [List.length_drop]; omega) _ _ _
                (by rw [List.length_drop]; omega) h rfl
            refine ⟨roh ++ bytes, ⟨addr, roh, .ok m⟩ :: cs, ?_, ?_, rfl, congrArg _ hm,
              bytes, rfl, hclosed⟩
            · rw [← List.take_append_drop 128 hex,
                dekodiere_append (by rw [List.length_take]; omega), hroh, hdek]
              rfl
            · rw [if_pos hm]
              refine hlog.trans ?_
              rw [List.append_assoc, List.singleton_append]
          · exact absurd h (not_antwortet fehler_ne_ok aus)

theorem prefix_protokoll (B : Backend σ) (s : σ) (l : List Schreibaufruf) (addr : Nat)
    (aus : List UInt8) (heven : 2 ∣ hex.length) :
    l <+: (schreibSchleife B.protokolliert (s, l) addr hex aus).2.2 := by
  induction hlen : hex.length using Nat.strong_induction_on generalizing s l addr hex with
  | _ n ih =>
    by_cases hne : hex = []
    · subst hne
      simp [schreibSchleife_nil]
    · have hpos := List.length_pos_of_ne_nil hne
      rw [schreibSchleife_eq B.protokolliert (s, l) addr aus hne heven]
      cases hroh : dekodiere (hex.take 128) with
      | none => exact List.prefix_refl l
      | some roh =>
        have hadd : l <+: l ++ [⟨addr, roh, (B.writeMem s addr roh).1⟩] :=
          List.prefix_append l _
        simp only [Backend.protokolliert] at hadd ⊢
        cases hwrite : (B.writeMem s addr roh).1 with
        | error e =>
          rw [hwrite] at hadd
          exact hadd
        | ok m =>
          rw [hwrite] at hadd
          dsimp only
          split
          · exact hadd.trans (ih (hex.drop 128).length (by rw [List.length_drop]; omega) _ _ _
              (by rw [List.length_drop]; omega) rfl)
          · exact hadd

theorem schreibSchleife_fehlerVorn (B : Backend σ) (s : σ) (addr : Nat) (aus : List UInt8)
    (heven : 2 ∣ hex.length) (hbad : (hex.take 128).all istHex = false) :
    schreibSchleife B s addr hex aus = (kodiereLeer aus, s) := by
  have hne : hex ≠ [] := by
    intro hnil
    rw [hnil] at hbad
    cases hbad
  have hnone : dekodiere (hex.take 128) = none := by
    rw [← Option.not_isSome_iff_eq_none, dekodiere_isSome (by rw [List.length_take]; omega), hbad]
    simp
  rw [schreibSchleife_eq B s addr aus hne heven, hnone]

def nimmtAlles : Backend Unit where
  readMem _ _ _ out := ((.ok 0, out), ())
  writeMem _ _ data := (.ok data.length, ())
  readRegs _ out := ((.ok 0, out), ())
  readMem_length _ _ _ _ := rfl
  readRegs_length := gleichesZiel.readRegs_length

theorem leer_of_not_all (l : List Schreibaufruf) (addr : Nat) (aus : List UInt8)
    (heven : 2 ∣ hex.length) (hbad : hex.all istHex = false) :
    (schreibSchleife nimmtAlles.protokolliert ((), l) addr hex aus).1 = kodiereLeer aus := by
  induction hlen : hex.length using Nat.strong_induction_on generalizing l addr hex with
  | _ n ih =>
    by_cases hfirst : (hex.take 128).all istHex = false
    · rw [schreibSchleife_fehlerVorn _ _ addr aus heven hfirst]
    · have hgood : (hex.take 128).all istHex = true := by simpa using hfirst
      have hne : hex ≠ [] := by
        intro hnil
        rw [hnil] at hbad
        cases hbad
      have hpos := List.length_pos_of_ne_nil hne
      have hlater : (hex.drop 128).all istHex = false := by
        rw [← List.take_append_drop 128 hex, List.all_append, hgood, Bool.true_and] at hbad
        exact hbad
      obtain ⟨roh, hroh⟩ := Option.isSome_iff_exists.mp
        ((dekodiere_isSome (by rw [List.length_take]; omega)).trans hgood)
      have hwrite : nimmtAlles.protokolliert.writeMem ((), l) addr roh =
          (.ok roh.length, ((), l ++ [⟨addr, roh, .ok roh.length⟩])) := rfl
      rw [schreibSchleife_eq _ _ addr aus hne heven, hroh]
      dsimp only
      rw [hwrite]
      dsimp only
      rw [if_pos rfl]
      exact ih (hex.drop 128).length (by rw [List.length_drop]; omega) _ _
        (by rw [List.length_drop]; omega) hlater rfl

theorem geschrieben_vor_fehler (addr : Nat) (aus : List UInt8) (heven : 2 ∣ hex.length)
    (hgood : (hex.take 128).all istHex = true) (hbad : hex.all istHex = false) :
    (schreibSchleife nimmtAlles.protokolliert ((), []) addr hex aus).2.2 ≠ [] := by
  have hne : hex ≠ [] := by
    intro hnil
    rw [hnil] at hbad
    cases hbad
  obtain ⟨roh, hroh⟩ := Option.isSome_iff_exists.mp
    ((dekodiere_isSome (by rw [List.length_take]; omega)).trans hgood)
  have hwrite : nimmtAlles.protokolliert.writeMem ((), []) addr roh =
      (.ok roh.length, ((), [⟨addr, roh, .ok roh.length⟩])) := rfl
  have hfront := prefix_protokoll nimmtAlles () [⟨addr, roh, .ok roh.length⟩]
    (wadd addr roh.length) aus (show 2 ∣ (hex.drop 128).length by rw [List.length_drop]; omega)
  rw [schreibSchleife_eq _ _ addr aus hne heven, hroh]
  dsimp only
  rw [hwrite]
  dsimp only
  rw [if_pos rfl]
  exact List.ne_nil_of_mem (hfront.subset List.mem_cons_self)

theorem bedieneGrossM_cases (B : Backend σ) (s : σ) (nutzlast aus : List UInt8) :
    bedieneGrossM B s nutzlast aus = (kodiereLeer aus, s) ∨
      bedieneGrossM B s nutzlast aus = ((none, aus), s) ∨
      ∃ addr len hexAb, parseGrossM nutzlast = some (addr, len, hexAb) ∧
        checkedMul len 2 = some (nutzlast.drop hexAb).length ∧
        bedieneGrossM B s nutzlast aus =
          schreibSchleife B s addr (nutzlast.drop hexAb) aus := by
  unfold bedieneGrossM
  cases hparse : parseGrossM nutzlast with
  | none => exact .inl rfl
  | some v =>
    obtain ⟨addr, len, hexAb⟩ := v
    dsimp only
    by_cases hshort : nutzlast.length < hexAb
    · rw [if_pos hshort]
      exact .inr (.inl rfl)
    · rw [if_neg hshort]
      cases hmul : checkedMul len 2 with
      | none => exact .inl rfl
      | some erwartet =>
        dsimp only
        by_cases hlen : (nutzlast.drop hexAb).length = erwartet
        · rw [if_neg (not_not.mpr hlen)]
          refine .inr (.inr ⟨addr, len, hexAb, rfl, by rw [hmul, hlen], ?_⟩)
          by_cases hzero : len = 0
          · have hnil : nutzlast.drop hexAb = [] := by
              obtain ⟨-, heq⟩ := checkedMul_eq_some.mp hmul
              refine List.eq_nil_of_length_eq_zero ?_
              rw [hlen, heq, hzero]
            rw [if_pos hzero, hnil, schreibSchleife_nil]
          · rw [if_neg hzero]
        · rw [if_pos hlen]
          exact .inl rfl

theorem bedieneGrossM_schleife (B : Backend σ) (s : σ) {nutzlast : List UInt8} (aus : List UInt8)
    {addr len hexAb : Nat} (hparse : parseGrossM nutzlast = some (addr, len, hexAb))
    (hmul : checkedMul len 2 = some (nutzlast.drop hexAb).length)
    (hne : nutzlast.drop hexAb ≠ []) : bedieneGrossM B s nutzlast aus =
      schreibSchleife B s addr (nutzlast.drop hexAb) aus := by
  have hpos := List.length_pos_of_ne_nil hne
  have heq := (checkedMul_eq_some.mp hmul).2
  have hshort : ¬ nutzlast.length < hexAb := by
    rw [List.length_drop] at hpos
    omega
  unfold bedieneGrossM
  rw [hparse]
  dsimp only
  rw [if_neg hshort, hmul]
  dsimp only
  rw [if_neg (not_not.mpr rfl), if_neg (by omega)]

theorem not_haeltWort {rest : List UInt8} {addr len hexAb : Nat}
    (hparse : parseGrossM (0x4d :: rest) = some (addr, len, hexAb))
    (hmul : checkedMul len 2 = some ((0x4d :: rest).drop hexAb).length)
    (hgood : (((0x4d :: rest).drop hexAb).take 128).all istHex = true)
    (hbad : ((0x4d :: rest).drop hexAb).all istHex = false) : ¬ HaeltWort (0x4d :: rest) := by
  intro h
  have hne : (0x4d :: rest).drop hexAb ≠ [] := by
    intro hnil
    rw [hnil] at hbad
    cases hbad
  have heven : 2 ∣ ((0x4d :: rest).drop hexAb).length :=
    ⟨len, (checkedMul_eq_some.mp hmul).2.trans (Nat.mul_comm _ _)⟩
  have hrun := (h Unit nimmtAlles () (List.replicate 4 0)).1
  rw [bediene_M, bedieneGrossM_schleife _ _ _ hparse hmul hne] at hrun
  rw [leer_of_not_all [] addr _ heven hbad] at hrun
  exact geschrieben_vor_fehler addr (List.replicate 4 0) heven hgood hbad
    (congrArg Prod.snd (hrun (by decide)))

/-- Refused means not begun and `OK` means written, exactly for the requests whose first wrong digit
does not stand behind the first 64 bytes. -/
theorem haeltWort_genau (rest : List UInt8) :
    HaeltWort (0x4d :: rest) ↔ FehlerVorn (0x4d :: rest) := by
  constructor
  · intro h addr len hexAb hparse hmul hgood
    by_contra hbad
    exact not_haeltWort hparse hmul hgood (by simpa using hbad) h
  · intro hvorn σ B s aus
    dsimp only
    rw [bediene_M]
    rcases bedieneGrossM_cases B.protokolliert (s, []) (0x4d :: rest) aus with
      heq | heq | ⟨addr, len, hexAb, hparse, hmul, heq⟩
    · rw [heq]
      exact ⟨fun _ => rfl, fun h => absurd h (not_antwortet ok_ne_leer.symm aus)⟩
    · rw [heq]
      refine ⟨fun h => ?_, fun h => ?_⟩
      · cases h
      · cases h
    · have hlen := (checkedMul_eq_some.mp hmul).2
      have heven : 2 ∣ ((0x4d :: rest).drop hexAb).length := ⟨len, hlen.trans (Nat.mul_comm _ _)⟩
      rw [heq]
      constructor
      · intro h
        by_cases hall : ((0x4d :: rest).drop hexAb).all istHex = true
        · exact absurd h (not_leer_of_all _ _ addr aus heven hall)
        · have hfirst : (((0x4d :: rest).drop hexAb).take 128).all istHex = false := by
            by_contra hgood
            exact hall (hvorn addr len hexAb hparse hmul (by simpa using hgood))
          rw [schreibSchleife_fehlerVorn _ _ addr aus heven hfirst]
      · intro h
        obtain ⟨bytes, cs, hdek, hlog, hclosed⟩ := geschlossen_of_ok B s [] addr aus heven h
        have hbytes := length_dekodiere heven hdek
        refine ⟨addr, len, hexAb, bytes, hparse, hdek, by omega, ?_⟩
        rw [hlog]
        exact hclosed

/-- `M0,41:` with 65 bytes of which the last is wrong: 64 are written, and the answer is empty. -/
theorem schreibt_vor_fehler : ¬ HaeltWort (0x4d :: ([0x30, 0x2c, 0x34, 0x31, 0x3a] ++
    List.replicate 129 0x30 ++ [0x7a])) := by
  have hparse : parseGrossM (0x4d :: ([0x30, 0x2c, 0x34, 0x31, 0x3a] ++
      List.replicate 129 0x30 ++ [0x7a])) = some (0, 65, 6) := by decide
  exact not_haeltWort hparse (by decide +kernel) (by decide +kernel) (by decide +kernel)

end Caprock.Rspd
