import Caprock.DeviceTree.Fdt
import Caprock.Lib.Word

/-! # Flattened trees

A tree lies in a blob between two positions: every node as its begin token, its name, its
properties, its children and its end token, with any number of `FDT_NOP` in front of a token.
Children and siblings are one type, a forest.  A walk over the tokens of a tree is a fold over the tree; on bytes
that are no tree it still ends.
-/

namespace Caprock.DeviceTree

open Bytes Checks Panic

/-- The word at `off`. -/
def wort (data : List UInt8) (off : Nat) : Option Nat := (slice data off 4).map beNat

variable {data : List UInt8} {off pos pos' : Nat}

/-- A call that ends like an `Option` in the source. -/
def ergebnis {α : Type} (o : Option α) : Call Unit α := quiet (okOr () o)

theorem be32_eq (data : List UInt8) (off : Nat) : be32 data off = ergebnis (wort data off) := by
  unfold be32 wort
  cases h : slice data off 4 with
  | none => rfl
  | some b =>
    have hlen := slice_length h
    change (reads b 0 4).map beNat = _
    rw [reads_eq (by omega), List.drop_zero, List.take_of_length_le hlen.le]
    rfl

theorem wort_le {n : Nat} (h : wort data off = some n) : off + 4 ≤ data.length := by
  obtain ⟨b, hb, -⟩ := Option.map_eq_some_iff.mp h
  exact slice_le hb

theorem be32_of_wort {n : Nat} (h : wort data off = some n) : be32 data off = .ok n := by
  rw [be32_eq, h]
  rfl

theorem be32_ends (data : List UInt8) (off : Nat) : Ends (be32 data off) := by
  rw [be32_eq]
  exact ends_quiet _

theorem be64_ends (data : List UInt8) (off : Nat) : Ends (be64 data off) :=
  (be32_ends data off).bind fun _ _ => (be32_ends data (off + 4)).bind fun _ _ => ends_ok _

theorem cstr_eq (data : List UInt8) (off : Nat) :
    cstr data off = .ok ((data.drop off).takeWhile (· != 0)) := by
  have hscan : (data.drop off).takeWhile (· != 0) =
      (data.drop off).take ((data.drop off).findIdx (· == 0)) := by
    rw [List.takeWhile_eq_take_findIdx_not]
    simp only [bne, Bool.not_not]
  rw [hscan, cstr]
  by_cases hoff : data.length < off
  · rw [if_pos hoff, List.drop_of_length_le (by omega)]
    rfl
  · rw [if_neg hoff]
    change range _ 0 _ = _
    rw [range, if_pos ⟨Nat.zero_le _, List.findIdx_le_length⟩]
    rfl

theorem cstr_ends (data : List UInt8) (off : Nat) : Ends (cstr data off) := by
  rw [cstr_eq]
  exact ends_ok _

def ZeichenAn (data : List UInt8) (off : Nat) (name : List UInt8) : Prop :=
  (0 : UInt8) ∉ name ∧ slice data off (name.length + 1) = some (name ++ [0])

theorem drop_of_slice {x : List UInt8} (h : slice data off x.length = some x) :
    data.drop off = x ++ (data.drop off).drop x.length := by
  rw [slice, if_pos (slice_le h), Option.some.injEq] at h
  calc data.drop off
      = (data.drop off).take x.length ++ (data.drop off).drop x.length :=
        (List.take_append_drop _ _).symm
    _ = x ++ (data.drop off).drop x.length := by rw [h]

theorem cstr_of_zeichenAn {name : List UInt8} (h : ZeichenAn data off name) :
    cstr data off = .ok name := by
  obtain ⟨hname, hslice⟩ := h
  have hrest : data.drop off = name ++ 0 :: (data.drop off).drop (name.length + 1) := by
    have hlen : (name ++ [0]).length = name.length + 1 := by simp
    have hdrop := drop_of_slice (hlen.symm ▸ hslice)
    rwa [hlen, ← List.append_cons] at hdrop
  have hzero : ∀ x ∈ name, (x != 0) = true := fun x hx =>
    bne_iff_ne.mpr fun heq => hname (heq ▸ hx)
  rw [cstr_eq, hrest, List.takeWhile_append_of_pos hzero, List.takeWhile_cons]
  simp

def aufVier (n : Nat) : Nat := (n + 3) / 4 * 4

theorem align4_eq {n : Nat} (h : n < 2 ^ 32 + 1) : align4 n = aufVier n := by
  have hmask : 2 ^ 64 - 4 = 2 ^ 64 - 2 ^ 2 := rfl
  rw [align4, hmask, Word.and_high_mask (by omega) (by omega)]
  rfl

/-- A property, with the place of its value in the blob. -/
structure Eigenschaft where
  name : List UInt8
  wert : List UInt8
  ort : Nat
  deriving DecidableEq, Repr

/-- A forest: the first node with its children, and the siblings behind it. -/
inductive Wald where
  | leer
  | knoten (name : List UInt8) (props : List Eigenschaft) (kinder rest : Wald)
  deriving DecidableEq, Repr

/-- Any number of `FDT_NOP`. -/
inductive Nops (data : List UInt8) : Nat → Nat → Prop
  | keine {pos : Nat} : Nops data pos pos
  | nop {pos pos' : Nat} (h : wort data pos = some fdtNop) (hs : Nops data (pos + 4) pos') :
      Nops data pos pos'

/-- Behind the token of a property: its length, the offset of its name, and its value. -/
structure EigenschaftAn (data : List UInt8) (offStrings : Nat) (p : Eigenschaft) (pos : Nat) :
    Prop where
  laenge : wort data pos = some p.wert.length
  name : ∃ nameoff, wort data (pos + 4) = some nameoff ∧
    ZeichenAn data (offStrings + nameoff) p.name
  ort : p.ort = pos + 8
  wert : slice data p.ort p.wert.length = some p.wert

inductive LiegenProps (data : List UInt8) (offStrings : Nat) :
    List Eigenschaft → Nat → Nat → Prop
  | keine {pos : Nat} : LiegenProps data offStrings [] pos pos
  | prop {p : Eigenschaft} {ps : List Eigenschaft} {pos₀ pos pos' : Nat}
      (hnops : Nops data pos₀ pos) (htoken : wort data pos = some fdtProp)
      (hprop : EigenschaftAn data offStrings p (pos + 4))
      (hrest : LiegenProps data offStrings ps (pos + 4 + 8 + aufVier p.wert.length) pos') :
      LiegenProps data offStrings (p :: ps) pos₀ pos'

/-- A forest lies between two positions.  The properties of a node have different names. -/
inductive Liegt (data : List UInt8) (offStrings : Nat) : Wald → Nat → Nat → Prop
  | leer {pos : Nat} : Liegt data offStrings .leer pos pos
  | knoten {name : List UInt8} {props : List Eigenschaft} {kinder rest : Wald}
      {pos₀ pos pos₁ pos₂ pos₃ pos' : Nat} (hnops : Nops data pos₀ pos)
      (hbegin : wort data pos = some fdtBeginNode) (hname : ZeichenAn data (pos + 4) name)
      (hnames : (props.map Eigenschaft.name).Nodup)
      (hprops : LiegenProps data offStrings props (pos + 4 + aufVier (name.length + 1)) pos₁)
      (hkinder : Liegt data offStrings kinder pos₁ pos₂) (hnops' : Nops data pos₂ pos₃)
      (hend : wort data pos₃ = some fdtEndNode)
      (hrest : Liegt data offStrings rest (pos₃ + 4) pos') :
      Liegt data offStrings (.knoten name props kinder rest) pos₀ pos'

/-- A device tree: its root. -/
structure Baum where
  name : List UInt8
  props : List Eigenschaft
  kinder : Wald
  deriving DecidableEq, Repr

def Baum.wald (t : Baum) : Wald := .knoten t.name t.props t.kinder .leer

/-- The blob of a tree: header, structure block and the strings that its properties point to. -/
structure Flach (data : List UInt8) (t : Baum) : Prop where
  magie : wort data 0 = some magic
  groesse : wort data 4 = some data.length
  bloecke : ∃ offStruct offStrings pos pos', wort data 8 = some offStruct ∧
    wort data 12 = some offStrings ∧ Liegt data offStrings t.wald offStruct pos ∧
    Nops data pos pos' ∧ wort data pos' = some fdtEnd

/-! ## Finding a tree

Without `FDT_NOP` the place of a forest decides where it ends.
-/

def endeProps (data : List UInt8) (offStrings : Nat) : List Eigenschaft → Nat → Option Nat
  | [], pos => some pos
  | p :: ps, pos => do
      let nameoff ← wort data (pos + 8)
      if wort data pos = some fdtProp ∧ wort data (pos + 4) = some p.wert.length ∧
          (0 : UInt8) ∉ p.name ∧
          slice data (offStrings + nameoff) (p.name.length + 1) = some (p.name ++ [0]) ∧
          p.ort = pos + 12 ∧ slice data p.ort p.wert.length = some p.wert then
        endeProps data offStrings ps (pos + 12 + aufVier p.wert.length)
      else none

/-- The end of the forest that lies at `pos`. -/
def Wald.ende (data : List UInt8) (offStrings : Nat) : Wald → Nat → Option Nat
  | .leer, pos => some pos
  | .knoten name props kinder rest, pos =>
      if wort data pos = some fdtBeginNode ∧ (0 : UInt8) ∉ name ∧
          slice data (pos + 4) (name.length + 1) = some (name ++ [0]) ∧
          (props.map Eigenschaft.name).Nodup then do
        let pos₁ ← endeProps data offStrings props (pos + 4 + aufVier (name.length + 1))
        let pos₂ ← kinder.ende data offStrings pos₁
        if wort data pos₂ = some fdtEndNode then rest.ende data offStrings (pos₂ + 4) else none
      else none

theorem liegenProps_of_ende {offStrings : Nat} {ps : List Eigenschaft}
    (h : endeProps data offStrings ps pos = some pos') :
    LiegenProps data offStrings ps pos pos' := by
  induction ps generalizing pos with
  | nil =>
    cases h
    exact .keine
  | cons p ps ih =>
    obtain ⟨nameoff, hoff, h⟩ := Option.bind_eq_some_iff.mp h
    split at h
    next hp =>
      obtain ⟨htoken, hlen, hzero, hname, hort, hwert⟩ := hp
      exact .prop .keine htoken ⟨hlen, ⟨nameoff, hoff, hzero, hname⟩, hort, hwert⟩ (ih h)
    next => cases h

theorem Wald.liegt_of_ende {offStrings : Nat} {w : Wald}
    (h : w.ende data offStrings pos = some pos') : Liegt data offStrings w pos pos' := by
  induction w generalizing pos pos' with
  | leer =>
    cases h
    exact .leer
  | knoten name props kinder rest ihKinder ihRest =>
    rw [Wald.ende] at h
    split at h
    next hn =>
      obtain ⟨hbegin, hzero, hname, hnames⟩ := hn
      obtain ⟨pos₁, hprops, h⟩ := Option.bind_eq_some_iff.mp h
      obtain ⟨pos₂, hkinder, h⟩ := Option.bind_eq_some_iff.mp h
      split at h
      next hend =>
        exact .knoten .keine hbegin ⟨hzero, hname⟩ hnames (liegenProps_of_ende hprops)
          (ihKinder hkinder) .keine hend (ihRest h)
      next => cases h
    next => cases h

variable {σ α : Type} {A : Leser σ α} {offStrings : Nat}

/-- A loop that is at `pos` with `s` goes on at `pos'`, or it has returned; this takes at most as
many steps as there are bytes between. -/
def Fuehrt (data : List UInt8) (A : Leser σ α) (pos : Nat) (s : σ) (pos' : Nat)
    (x : Except (Option α) σ) : Prop :=
  ∃ d, pos + d ≤ pos' ∧ ∀ k, lauf data A (k + d) pos s =
    match x with
    | .ok s' => lauf data A k pos' s'
    | .error r => ergebnis r

theorem Fuehrt.refl (pos : Nat) (s : σ) : Fuehrt data A pos s pos (.ok s) :=
  ⟨0, le_refl _, fun _ => rfl⟩

theorem Fuehrt.dann {pos₁ : Nat} {s s' : σ} {x : Except (Option α) σ}
    (h : Fuehrt data A pos s pos₁ (.ok s')) (h' : Fuehrt data A pos₁ s' pos' x) :
    Fuehrt data A pos s pos' x := by
  obtain ⟨d, hd, hrun⟩ := h
  obtain ⟨d', hd', hrun'⟩ := h'
  refine ⟨d' + d, by omega, fun k => ?_⟩
  rw [← Nat.add_assoc, hrun]
  exact hrun' k

theorem Fuehrt.bind {pos₁ : Nat} {s : σ} {x : Except (Option α) σ} {f : σ → Except (Option α) σ}
    (h : Fuehrt data A pos s pos₁ x) (hle : pos₁ ≤ pos')
    (hf : ∀ s', Fuehrt data A pos₁ s' pos' (f s')) : Fuehrt data A pos s pos' (x.bind f) := by
  cases x with
  | ok s' => exact h.dann (hf s')
  | error r =>
    obtain ⟨d, hd, hrun⟩ := h
    exact ⟨d, by omega, hrun⟩

theorem lauf_of_wort {tok k : Nat} (h : wort data pos = some tok) (s : σ) :
    lauf data A (k + 1) pos s =
      if tok = fdtBeginNode then
        (cstr data (pos + 4)).bind fun name =>
        lauf data A k (pos + 4 + align4 (name.length + 1)) (A.beginn s name)
      else if tok = fdtEndNode then lauf data A k (pos + 4) (A.ende s)
      else if tok = fdtProp then
        (A.eigenschaft s (pos + 4)).bind fun (pos, r) =>
        match r with
        | .weiter s => lauf data A k pos s
        | .zurueck a => .ok a
      else if tok = fdtNop then lauf data A k (pos + 4) s
      else if tok = fdtEnd then ergebnis (A.schluss s)
      else .error (.err ()) := by
  rw [lauf, be32_of_wort h]
  rfl

theorem Nops.le (h : Nops data pos pos') : pos ≤ pos' := by
  induction h with
  | keine => exact le_refl _
  | nop _ _ ih => omega

theorem Nops.fuehrt (h : Nops data pos pos') (s : σ) : Fuehrt data A pos s pos' (.ok s) := by
  induction h with
  | keine => exact .refl _ _
  | nop h _ ih =>
    have hfirst : Fuehrt data A _ s _ (.ok s) :=
      ⟨1, by omega, fun k => (lauf_of_wort h s).trans rfl⟩
    exact hfirst.dann ih

theorem fuehrt_beginn {name : List UInt8} (h : wort data pos = some fdtBeginNode)
    (hname : ZeichenAn data (pos + 4) name) (hlen : name.length < 2 ^ 32) (s : σ) :
    Fuehrt data A pos s (pos + 4 + aufVier (name.length + 1)) (.ok (A.beginn s name)) := by
  refine ⟨1, by omega, fun k => ?_⟩
  rw [lauf_of_wort h, cstr_of_zeichenAn hname, ← align4_eq (by omega)]
  rfl

theorem fuehrt_ende (h : wort data pos = some fdtEndNode) (s : σ) :
    Fuehrt data A pos s (pos + 4) (.ok (A.ende s)) :=
  ⟨1, by omega, fun _ => lauf_of_wort h s⟩

/-- What a reader does with a property: it keeps a state, or it returns. -/
def Gemaess (data : List UInt8) (offStrings : Nat) (A : Leser σ α)
    (auf : σ → Eigenschaft → Except (Option α) σ) : Prop :=
  ∀ s p pos, EigenschaftAn data offStrings p pos → A.eigenschaft s pos =
    match auf s p with
    | .ok s' => .ok (pos + 8 + align4 p.wert.length, .weiter s')
    | .error none => .error (.err ())
    | .error (some a) => .ok (pos + 8 + align4 p.wert.length, .zurueck a)

variable {auf : σ → Eigenschaft → Except (Option α) σ}

def falteProps (auf : σ → Eigenschaft → Except (Option α) σ) :
    List Eigenschaft → σ → Except (Option α) σ
  | [], s => .ok s
  | p :: ps, s => (auf s p).bind fun s => falteProps auf ps s

def falte (A : Leser σ α) (auf : σ → Eigenschaft → Except (Option α) σ) :
    Wald → σ → Except (Option α) σ
  | .leer, s => .ok s
  | .knoten name props kinder rest, s =>
      (falteProps auf props (A.beginn s name)).bind fun s =>
      (falte A auf kinder s).bind fun s =>
      falte A auf rest (A.ende s)

theorem fuehrt_eigenschaft (hA : Gemaess data offStrings A auf) {p : Eigenschaft}
    (h : wort data pos = some fdtProp) (hprop : EigenschaftAn data offStrings p (pos + 4))
    (hlen : p.wert.length < 2 ^ 32) (s : σ) :
    Fuehrt data A pos s (pos + 4 + 8 + aufVier p.wert.length) (auf s p) := by
  refine ⟨1, by omega, fun k => ?_⟩
  rw [lauf_of_wort h, ← align4_eq (by omega)]
  change (A.eigenschaft s (pos + 4)).bind _ = _
  rw [hA s p (pos + 4) hprop]
  cases auf s p with
  | ok s' => rfl
  | error r =>
    cases r with
    | none => rfl
    | some a => rfl

theorem LiegenProps.le {ps : List Eigenschaft} (h : LiegenProps data offStrings ps pos pos') :
    pos ≤ pos' := by
  induction h with
  | keine => exact le_refl _
  | prop hnops _ _ _ ih =>
    have := hnops.le
    omega

theorem LiegenProps.fuehrt (hA : Gemaess data offStrings A auf) (hdata : data.length < 2 ^ 32)
    {ps : List Eigenschaft} (h : LiegenProps data offStrings ps pos pos') (s : σ) :
    Fuehrt data A pos s pos' (falteProps auf ps s) := by
  induction h generalizing s with
  | keine => exact .refl _ _
  | prop hnops htoken hprop hrest ih =>
    have hlen := slice_le hprop.wert
    exact (hnops.fuehrt s).dann
      ((fuehrt_eigenschaft hA htoken hprop (by omega) s).bind hrest.le ih)

theorem Liegt.le {w : Wald} (h : Liegt data offStrings w pos pos') : pos ≤ pos' := by
  induction h with
  | leer => exact le_refl _
  | knoten hnops _ _ _ hprops _ hnops' _ _ ih ih' =>
    have := hnops.le
    have := hprops.le
    have := hnops'.le
    omega

theorem Liegt.fuehrt (hA : Gemaess data offStrings A auf) (hdata : data.length < 2 ^ 32)
    {w : Wald} (h : Liegt data offStrings w pos pos') (s : σ) :
    Fuehrt data A pos s pos' (falte A auf w s) := by
  induction h generalizing s with
  | leer => exact .refl _ _
  | knoten hnops hbegin hname _ hprops hkinder hnops' hend hrest ih ih' =>
    have hlen := slice_le hname.2
    have hle := hkinder.le
    have hle' := hnops'.le
    have hle'' := hrest.le
    refine (hnops.fuehrt s).dann ((fuehrt_beginn hbegin hname (by omega) s).dann ?_)
    refine (hprops.fuehrt hA hdata _).bind (by omega) fun s' => ?_
    exact (ih s').bind (by omega) fun s' =>
      (hnops'.fuehrt s').dann ((fuehrt_ende hend s').dann (ih' _))

theorem lauf_liegt (hA : Gemaess data offStrings A auf) (hdata : data.length < 2 ^ 32) {w : Wald}
    {pos₁ : Nat} (h : Liegt data offStrings w pos pos₁) (hnops : Nops data pos₁ pos')
    (hend : wort data pos' = some fdtEnd) (s : σ) :
    lauf data A (data.length + 1) pos s =
      match falte A auf w s with
      | .ok s' => ergebnis (A.schluss s')
      | .error r => ergebnis r := by
  have hle := wort_le hend
  have hbind : falte A auf w s = (falte A auf w s).bind .ok := by
    cases falte A auf w s with
    | ok s' | error r => rfl
  obtain ⟨d, hd, hrun⟩ := (h.fuehrt hA hdata s).bind hnops.le fun s' => hnops.fuehrt s'
  rw [← hbind] at hrun
  have hsteps : data.length + 1 = (data.length - d) + 1 + d := by omega
  rw [hsteps, hrun]
  cases falte A auf w s with
  | ok s' => exact lauf_of_wort hend s'
  | error r => rfl

def Vorwaerts (A : Leser σ α) : Prop :=
  ∀ s pos, Ends (A.eigenschaft s pos) ∧
    ∀ pos' r, A.eigenschaft s pos = .ok (pos', r) → pos ≤ pos'

/-- On any bytes a loop ends: every turn reads a word further on. -/
theorem lauf_ends (hA : Vorwaerts A) {k : Nat} (hk : data.length - pos < k) (s : σ) :
    Ends (lauf data A k pos s) := by
  induction k generalizing pos s with
  | zero => omega
  | succ k ih =>
    rw [lauf, be32_eq]
    cases hw : wort data pos with
    | none => exact ends_err ()
    | some tok =>
      have hle := wort_le hw
      refine Ends.ite (fun _ => ?_) fun _ => ?_
      · exact (cstr_ends data (pos + 4)).bind fun name _ => ih (by omega) _
      refine Ends.ite (fun _ => ih (by omega) _) fun _ => Ends.ite (fun _ => ?_) fun _ => ?_
      · refine (hA s (pos + 4)).1.bind fun (pos₁, r) hok => ?_
        have hforward := (hA s (pos + 4)).2 pos₁ r hok
        cases r with
        | weiter s' => exact ih (by omega) s'
        | zurueck a => exact ends_ok a
      refine Ends.ite (fun _ => ih (by omega) _) fun _ => ?_
      exact Ends.ite (fun _ => ends_quiet _) fun _ => ends_err ()

end Caprock.DeviceTree
