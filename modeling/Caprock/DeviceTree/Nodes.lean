import Caprock.DeviceTree.Readers

/-! # Nodes of a tree

The walks over a tree, in terms of its nodes: which processors are counted, which reports are made,
and which `reg` is the memory.
-/

namespace Caprock.DeviceTree

open Bytes

/-- A node of a tree; the root has the depth one. -/
structure Knoten where
  tiefe : Nat
  name : List UInt8
  props : List Eigenschaft
  kinder : Wald
  deriving DecidableEq, Repr

def wertIn (props : List Eigenschaft) (name : List UInt8) : Option (List UInt8) :=
  (props.find? fun p => p.name = name).map Eigenschaft.wert

namespace Knoten

def reg (k : Knoten) : Option (Nat × Nat) := (wertIn k.props regName).bind paar

def numaId (k : Knoten) : Option Nat := (wertIn k.props numaNodeId).bind zelle

def meldung (k : Knoten) : Option (Nat × Nat × Nat) :=
  k.reg.bind fun r => k.numaId.map fun nd => (r.1, r.2, nd)

end Knoten

namespace Wald

def oben (tiefe : Nat) : Wald → List Knoten
  | leer => []
  | knoten name props kinder rest => ⟨tiefe, name, props, kinder⟩ :: rest.oben tiefe

def alle (tiefe : Nat) : Wald → List Knoten
  | leer => []
  | knoten name props kinder rest =>
      ⟨tiefe, name, props, kinder⟩ :: (kinder.alle (tiefe + 1) ++ rest.alle tiefe)

/-- The properties of every node have different names. -/
def Eindeutig : Wald → Prop
  | leer => True
  | knoten _ props kinder rest =>
      (props.map Eigenschaft.name).Nodup ∧ kinder.Eindeutig ∧ rest.Eindeutig

end Wald

variable {data : List UInt8} {offStrings pos pos' : Nat} {w : Wald}

theorem Liegt.eindeutig (h : Liegt data offStrings w pos pos') : w.Eindeutig := by
  induction h with
  | leer => trivial
  | knoten _ _ _ hnames _ _ _ _ _ ih ih' => exact ⟨hnames, ih, ih'⟩

theorem Liegt.alle_le (h : Liegt data offStrings w pos pos') (tiefe : Nat) :
    pos + (w.alle tiefe).length ≤ pos' := by
  induction h generalizing tiefe with
  | leer => exact le_refl _
  | knoten hnops _ _ _ hprops _ hnops' _ _ ih ih' =>
    have hle := hnops.le
    have hle' := hprops.le
    have hle'' := hnops'.le
    have hkinder := ih (tiefe + 1)
    have hrest := ih' tiefe
    rw [Wald.alle, List.length_cons, List.length_append]
    omega

def cpusNach (tiefe : Nat) (name : List UInt8) (c : Option Nat) : Option Nat :=
  if tiefe = 2 ∧ name = cpusName then some tiefe else c

def CpusOffen (c : Option Nat) (tiefe : Nat) : Prop := ∀ a, c = some a → 2 ≤ a ∧ a ≤ tiefe

theorem CpusOffen.nach {c : Option Nat} {tiefe : Nat} (h : CpusOffen c tiefe) (name : List UInt8) :
    CpusOffen (cpusNach (tiefe + 1) name c) (tiefe + 1) := by
  intro a ha
  unfold cpusNach at ha
  by_cases hcpus : tiefe + 1 = 2 ∧ name = cpusName
  · rw [if_pos hcpus] at ha
    cases ha
    omega
  · rw [if_neg hcpus] at ha
    have := h a ha
    omega

theorem CpusOffen.zurueck {c : Option Nat} {tiefe : Nat} (h : CpusOffen c tiefe)
    (name : List UInt8) : (if cpusNach (tiefe + 1) name c = some (tiefe + 1) then none
      else cpusNach (tiefe + 1) name c) = c := by
  unfold cpusNach
  by_cases hcpus : tiefe + 1 = 2 ∧ name = cpusName
  · rw [if_pos hcpus, if_pos rfl]
    cases c with
    | none => rfl
    | some a =>
      have := h a rfl
      omega
  · rw [if_neg hcpus, if_neg]
    intro hc
    have := h _ hc
    omega

def IstCpu (tiefe : Nat) (name : List UInt8) (c : Option Nat) : Prop :=
  (cpusNach tiefe name c).map (· + 1) = some tiefe ∧ cpuAt <+: name

instance (tiefe : Nat) (name : List UInt8) (c : Option Nat) : Decidable (IstCpu tiefe name c) :=
  inferInstanceAs (Decidable (_ ∧ _))

def Wald.gesehen (tiefe : Nat) (c : Option Nat) : Wald → List Knoten
  | leer => []
  | knoten name props kinder rest =>
      (if IstCpu tiefe name c then [⟨tiefe, name, props, kinder⟩] else []) ++
        (kinder.gesehen (tiefe + 1) (cpusNach tiefe name c) ++ rest.gesehen tiefe c)

theorem falteProps_weiter {σ α : Type} (ps : List Eigenschaft) (s : σ) :
    falteProps (fun (s : σ) _ => (.ok s : Except (Option α) σ)) ps s = .ok s := by
  induction ps with
  | nil => rfl
  | cons p ps ih => exact ih

theorem istCpu_of_cpus {tiefe : Nat} {name : List UInt8} {c : Option Nat}
    (h : tiefe = 2 ∧ name = cpusName) : ¬ IstCpu tiefe name c := by
  rintro ⟨hdepth, -⟩
  rw [cpusNach, if_pos h, Option.map_some, Option.some.injEq] at hdepth
  omega

theorem cpuLeser_beginn (d n : Nat) (c : Option Nat) (name : List UInt8) :
    (cpuLeser data).beginn ⟨d, c, n⟩ name = ⟨d + 1, cpusNach (d + 1) name c,
      n + if IstCpu (d + 1) name c then 1 else 0⟩ := by
  change (if d + 1 = 2 ∧ name = cpusName then (⟨d + 1, some (d + 1), n⟩ : CpuStand)
    else if c.map (· + 1) = some (d + 1) ∧ cpuAt <+: name then ⟨d + 1, c, n + 1⟩
    else ⟨d + 1, c, n⟩) = _
  by_cases hcpus : d + 1 = 2 ∧ name = cpusName
  · rw [if_pos hcpus, if_neg (istCpu_of_cpus hcpus), cpusNach, if_pos hcpus]
    rfl
  · have hiff : IstCpu (d + 1) name c ↔ c.map (· + 1) = some (d + 1) ∧ cpuAt <+: name := by
      rw [IstCpu, cpusNach, if_neg hcpus]
    rw [if_neg hcpus, cpusNach, if_neg hcpus]
    by_cases hcpu : c.map (· + 1) = some (d + 1) ∧ cpuAt <+: name
    · rw [if_pos hcpu, if_pos (hiff.mpr hcpu)]
    · rw [if_neg hcpu, if_neg (fun h => hcpu (hiff.mp h))]
      rfl

theorem cpuLeser_ende {d : Nat} {c : Option Nat} (hc : CpusOffen c d) (name : List UInt8)
    (n : Nat) : (cpuLeser data).ende ⟨d + 1, cpusNach (d + 1) name c, n⟩ = ⟨d, c, n⟩ :=
  congrArg (CpuStand.mk d · n) (hc.zurueck name)

theorem falte_cpuLeser (w : Wald) {d : Nat} {c : Option Nat} (hc : CpusOffen c d) (n : Nat) :
    falte (cpuLeser data) (fun s _ => .ok s) w ⟨d, c, n⟩ =
      .ok ⟨d, c, n + (w.gesehen (d + 1) c).length⟩ := by
  induction w generalizing d c n with
  | leer => rfl
  | knoten name props kinder rest ih ih' =>
    rw [falte, falteProps_weiter, cpuLeser_beginn]
    change (falte _ _ kinder _).bind _ = _
    rw [ih (hc.nach name)]
    change falte _ _ rest ((cpuLeser data).ende _) = _
    rw [cpuLeser_ende hc, ih' hc, Wald.gesehen]
    refine congrArg (fun n => Except.ok (CpuStand.mk d c n)) ?_
    rw [List.length_append, List.length_append]
    by_cases hcpu : IstCpu (d + 1) name c
    · rw [if_pos hcpu, if_pos hcpu, List.length_singleton]
      omega
    · rw [if_neg hcpu, if_neg hcpu, List.length_nil]
      omega

/-- Children of `/cpus` whose name begins with `cpu@`. -/
def Baum.cpus (t : Baum) : List Knoten :=
  ((t.kinder.oben 2).filter fun k => k.name = cpusName).flatMap fun k =>
    (k.kinder.oben 3).filter fun k => cpuAt <+: k.name

theorem gesehen_tief (w : Wald) {tiefe : Nat} {c : Option Nat} (htiefe : 3 ≤ tiefe)
    (hc : ∀ a, c = some a → a + 1 < tiefe) : w.gesehen tiefe c = [] := by
  induction w generalizing tiefe with
  | leer => rfl
  | knoten name props kinder rest ih ih' =>
    have hnach : cpusNach tiefe name c = c := if_neg fun h => by omega
    have hno : ¬ IstCpu tiefe name c := by
      rintro ⟨hdepth, -⟩
      rw [hnach] at hdepth
      obtain ⟨a, ha, hdepth⟩ := Option.map_eq_some_iff.mp hdepth
      have := hc a ha
      omega
    rw [Wald.gesehen, if_neg hno, hnach, ih (by omega) (fun a ha => (hc a ha).trans (by omega)),
      ih' htiefe hc]
    rfl

theorem gesehen_cpus (w : Wald) :
    w.gesehen 3 (some 2) = (w.oben 3).filter fun k => cpuAt <+: k.name := by
  induction w with
  | leer => rfl
  | knoten name props kinder rest _ ih =>
    have hnach : cpusNach 3 name (some 2) = some 2 := if_neg fun h => by omega
    have hiff : IstCpu 3 name (some 2) ↔ cpuAt <+: name := by
      rw [IstCpu, hnach]
      exact and_iff_right rfl
    rw [Wald.gesehen, hnach, gesehen_tief kinder (by omega) (fun a ha => by cases ha; omega), ih,
      Wald.oben]
    by_cases hcpu : cpuAt <+: name
    · rw [if_pos (hiff.mpr hcpu), List.filter_cons_of_pos (by simpa using hcpu)]
      rfl
    · rw [if_neg (fun h => hcpu (hiff.mp h)), List.filter_cons_of_neg (by simpa using hcpu)]
      rfl

theorem gesehen_oben (w : Wald) : w.gesehen 2 none =
    ((w.oben 2).filter fun k => k.name = cpusName).flatMap fun k =>
      (k.kinder.oben 3).filter fun k => cpuAt <+: k.name := by
  induction w with
  | leer => rfl
  | knoten name props kinder rest _ ih =>
    rw [Wald.gesehen, Wald.oben, ih]
    by_cases hcpus : name = cpusName
    · have hnach : cpusNach 2 name none = some 2 := if_pos ⟨rfl, hcpus⟩
      rw [if_neg (istCpu_of_cpus ⟨rfl, hcpus⟩), hnach, gesehen_cpus,
        List.filter_cons_of_pos (by simpa using hcpus), List.flatMap_cons]
      rfl
    · have hnach : cpusNach 2 name none = none := if_neg fun h => hcpus h.2
      have hno : ¬ IstCpu 2 name none := by
        rintro ⟨hdepth, -⟩
        rw [hnach] at hdepth
        cases hdepth
      rw [if_neg hno, hnach, gesehen_tief kinder (by omega) (fun a ha => by cases ha),
        List.filter_cons_of_neg (by simpa using hcpus)]
      rfl

theorem gesehen_baum (t : Baum) : t.wald.gesehen 1 none = t.cpus := by
  have hnach : cpusNach 1 t.name none = none := if_neg fun h => by omega
  have hno : ¬ IstCpu 1 t.name none := by
    rintro ⟨hdepth, -⟩
    rw [hnach] at hdepth
    cases hdepth
  rw [Baum.wald, Wald.gesehen, if_neg hno, hnach, gesehen_oben, Wald.gesehen, List.append_nil]
  rfl

theorem gesehen_length_le (w : Wald) (tiefe : Nat) (c : Option Nat) :
    (w.gesehen tiefe c).length ≤ (w.alle tiefe).length := by
  induction w generalizing tiefe c with
  | leer => exact le_refl _
  | knoten name props kinder rest ih ih' =>
    have hkinder := ih (tiefe + 1) (cpusNach tiefe name c)
    have hrest := ih' tiefe c
    have hone : (if IstCpu tiefe name c then [(⟨tiefe, name, props, kinder⟩ : Knoten)]
        else []).length ≤ 1 := by
      by_cases h : IstCpu tiefe name c
      · rw [if_pos h]
        exact le_refl _
      · rw [if_neg h]
        exact Nat.zero_le _
    rw [Wald.gesehen, Wald.alle, List.length_append, List.length_append, List.length_cons,
      List.length_append]
    omega

def Knoten.regEigenschaft (k : Knoten) : Option Eigenschaft :=
  k.props.find? fun p => p.name = regName

def ersteReg (l : List Knoten) : Option Eigenschaft :=
  l.findSome? fun k => if memoryName <+: k.name then k.regEigenschaft else none

/-- How a walk of `memory` ends: at a `reg`, or behind the forest. -/
def memoryAusgang (data : List UInt8) (b : Bool) :
    Option Eigenschaft → Except (Option (Nat × Nat)) Bool
  | some p => .error (paar (data.drop p.ort))
  | none => .ok b

theorem falteProps_memory (ps : List Eigenschaft) (b : Bool) :
    falteProps (memoryNimmt data) ps b =
      memoryAusgang data b (if b then ps.find? fun p => p.name = regName else none) := by
  induction ps with
  | nil =>
    cases b with
    | false => rfl
    | true => rfl
  | cons p ps ih =>
    rw [falteProps, memoryNimmt]
    cases b with
    | false => exact ih
    | true =>
      by_cases hreg : p.name = regName
      · rw [if_pos ⟨rfl, hreg⟩, if_pos rfl, List.find?_cons_of_pos (by simpa using hreg)]
        rfl
      · rw [if_neg fun h => hreg h.2, if_pos rfl,
          List.find?_cons_of_neg (by simpa using hreg)]
        exact ih

theorem falte_memoryLeser (w : Wald) (tiefe : Nat) (b : Bool) :
    falte (memoryLeser data offStrings) (memoryNimmt data) w b =
      memoryAusgang data (b && decide (w = .leer)) (ersteReg (w.alle tiefe)) := by
  induction w generalizing tiefe b with
  | leer =>
    rw [decide_eq_true rfl, Bool.and_true]
    rfl
  | knoten name props kinder rest ih ih' =>
    have hfront : ersteReg ((Wald.knoten name props kinder rest).alle tiefe) =
        ((if memoryName <+: name then props.find? fun p => p.name = regName else none).or
          (ersteReg (kinder.alle (tiefe + 1)))).or (ersteReg (rest.alle tiefe)) := by
      rw [Wald.alle, ersteReg, List.findSome?_cons, List.findSome?_append, ersteReg, ersteReg]
      dsimp only [Knoten.regEigenschaft]
      cases (if memoryName <+: name then props.find? fun p => p.name = regName else none) with
      | some p => rfl
      | none => rfl
    have hprops : falteProps (memoryNimmt data) props
        ((memoryLeser data offStrings).beginn b name) = memoryAusgang data
          (decide (memoryName <+: name))
          (if memoryName <+: name then props.find? fun p => p.name = regName else none) := by
      rw [falteProps_memory]
      by_cases hname : memoryName <+: name
      · rw [if_pos hname]
        change memoryAusgang data (decide (memoryName <+: name)) (if decide (memoryName <+: name)
          then _ else _) = _
        rw [decide_eq_true hname, if_pos rfl]
      · rw [if_neg hname]
        change memoryAusgang data (decide (memoryName <+: name)) (if decide (memoryName <+: name)
          then _ else _) = _
        rw [decide_eq_false hname, if_neg Bool.false_ne_true]
    rw [falte, hprops, hfront]
    cases (if memoryName <+: name then props.find? fun p => p.name = regName else none) with
    | some p => rfl
    | none =>
      change (falte _ _ kinder _).bind _ = _
      rw [ih (tiefe + 1)]
      cases ersteReg (kinder.alle (tiefe + 1)) with
      | some p => rfl
      | none =>
        change falte _ _ rest false = _
        have hne : decide (Wald.knoten name props kinder rest = .leer) = false :=
          decide_eq_false fun h => by cases h
        rw [ih' tiefe, hne, Bool.and_false, Bool.false_and]
        rfl

theorem wertIn_cons_eq {p : Eigenschaft} {ps : List Eigenschaft} {name : List UInt8}
    (h : p.name = name) : wertIn (p :: ps) name = some p.wert := by
  rw [wertIn, List.find?_cons_of_pos (by simpa using h)]
  rfl

theorem wertIn_cons_ne {p : Eigenschaft} {ps : List Eigenschaft} {name : List UInt8}
    (h : p.name ≠ name) : wertIn (p :: ps) name = wertIn ps name := by
  rw [wertIn, List.find?_cons_of_neg (by simpa using h), wertIn]

theorem wertIn_eq_none {ps : List Eigenschaft} {name : List UInt8}
    (h : name ∉ ps.map Eigenschaft.name) : wertIn ps name = none := by
  rw [wertIn, Option.map_eq_none_iff, List.find?_eq_none]
  intro p hp hname
  exact h (List.mem_map.mpr ⟨p, hp, by simpa using hname⟩)

theorem regName_ne : regName ≠ numaNodeId := by decide

theorem falteProps_numa (ps : List Eigenschaft) (hps : (ps.map Eigenschaft.name).Nodup)
    (s : NumaStand) :
    falteProps (fun s p => (.ok (s.nimm p) : Except (Option Numa) NumaStand)) ps s = .ok { s with
      nodeId := ((wertIn ps numaNodeId).bind zelle).or s.nodeId
      reg := (if s.isMem then (wertIn ps regName).bind paar else none).or s.reg } := by
  induction ps generalizing s with
  | nil =>
    have hnone : (if s.isMem then (wertIn [] regName).bind paar else none) = none := by
      cases s.isMem with
      | false => rfl
      | true => rfl
    rw [hnone]
    rfl
  | cons p ps ih =>
    obtain ⟨hnew, hps⟩ := List.nodup_cons.mp hps
    change falteProps _ ps (s.nimm p) = _
    rw [ih hps]
    by_cases hid : p.name = numaNodeId
    · have hreg : p.name ≠ regName := fun h => regName_ne (h.symm.trans hid)
      have hrest : wertIn ps numaNodeId = none := wertIn_eq_none (hid ▸ hnew)
      rw [wertIn_cons_eq hid, wertIn_cons_ne hreg, hrest]
      by_cases hlen : 4 ≤ p.wert.length
      · rw [NumaStand.nimm, if_pos ⟨hid, hlen⟩]
        rw [Option.bind_some, zelle, if_pos hlen]
        rfl
      · rw [NumaStand.nimm, if_neg fun h => hlen h.2, if_neg fun h => hreg h.1, Option.bind_some,
          zelle, if_neg hlen]
        rfl
    · rw [wertIn_cons_ne hid, NumaStand.nimm, if_neg fun h => hid h.1]
      by_cases hreg : p.name = regName
      · have hrest : wertIn ps regName = none := wertIn_eq_none (hreg ▸ hnew)
        rw [wertIn_cons_eq hreg, hrest]
        by_cases hmem : s.isMem ∧ 16 ≤ p.wert.length
        · rw [if_pos ⟨hreg, hmem⟩]
          rw [hmem.1, if_pos rfl, if_pos rfl, Option.bind_some, paar, if_pos hmem.2]
          rfl
        · rw [if_neg fun h => hmem h.2]
          have hnone : (if s.isMem then (some p.wert).bind paar else none) = none := by
            cases hm : s.isMem with
            | false => rfl
            | true =>
              have hlen : ¬ 16 ≤ p.wert.length := fun h => hmem ⟨hm, h⟩
              rw [if_pos rfl, Option.bind_some, paar, if_neg hlen]
          rw [hnone]
          cases s.isMem with
          | false => rfl
          | true => rfl
      · rw [if_neg fun h => hreg h.1, wertIn_cons_ne hreg]

theorem not_cpuAt_of_memory {name : List UInt8} (h : memoryName <+: name) : ¬ cpuAt <+: name := by
  obtain ⟨x, rfl⟩ := h
  rintro ⟨y, hy⟩
  exact absurd (List.cons.inj hy).1 (by decide)

def Knoten.blattMeldung (k : Knoten) : Option (Nat × Nat × Nat) :=
  if memoryName <+: k.name ∧ k.kinder = .leer then k.meldung else none

def blattCpu (x : Knoten × Nat) : Option (Nat × Nat) :=
  if x.1.kinder = .leer then x.1.numaId.map fun nd => (x.2, nd) else none

theorem melde_none {s : NumaStand} (h : s.nodeId = none) : s.melde = s := by
  rw [NumaStand.melde, h]

theorem melde_mem (s : NumaStand) : s.melde.mem = s.mem ++
    (if s.isMem then s.reg.bind fun r => s.nodeId.map fun nd => (r.1, r.2, nd)
      else none).toList := by
  unfold NumaStand.melde
  cases s.nodeId with
  | none =>
    cases s.isMem with
    | false => simp
    | true =>
      cases s.reg with
      | none => simp
      | some r => simp
  | some nd =>
    cases s.isMem with
    | false =>
      cases s.isCpu with
      | false => simp
      | true => simp
    | true =>
      cases s.reg with
      | none => simp
      | some r => simp

theorem melde_cpu (s : NumaStand) : s.melde.cpu = s.cpu ++
    (if s.isMem = false ∧ s.isCpu then s.nodeId.map fun nd => (s.thisCpuOrd, nd)
      else none).toList := by
  unfold NumaStand.melde
  cases s.nodeId with
  | none => simp
  | some nd =>
    cases s.isMem with
    | false =>
      cases s.isCpu with
      | false => simp
      | true => simp
    | true =>
      cases s.reg with
      | none => simp
      | some r => simp

theorem melde_rest (s : NumaStand) : s.melde.cpuOrd = s.cpuOrd ∧
    s.melde.n + s.mem.length + s.cpu.length = s.n + s.melde.mem.length + s.melde.cpu.length := by
  unfold NumaStand.melde
  cases s.nodeId with
  | none => exact ⟨rfl, rfl⟩
  | some nd =>
    cases s.isMem with
    | false =>
      cases s.isCpu with
      | false => exact ⟨rfl, rfl⟩
      | true =>
        refine ⟨rfl, ?_⟩
        simp only [Bool.false_eq_true, if_false, if_true, List.length_append,
          List.length_singleton]
        omega
    | true =>
      cases s.reg with
      | none => exact ⟨rfl, rfl⟩
      | some r =>
        refine ⟨rfl, ?_⟩
        simp only [if_true, List.length_append, List.length_singleton]
        omega

/-- What a forest leaves behind: the reports of its leaves, and no open value. -/
structure Danach (w : Wald) (s s' : NumaStand) : Prop where
  depth : s'.depth = s.depth
  inCpusAt : s'.inCpusAt = s.inCpusAt
  cpuOrd : s'.cpuOrd = s.cpuOrd + (w.gesehen (s.depth + 1) s.inCpusAt).length
  mem : s'.mem = s.mem ++ (w.alle (s.depth + 1)).filterMap Knoten.blattMeldung
  cpu : s'.cpu = s.cpu ++
    ((w.gesehen (s.depth + 1) s.inCpusAt).zipIdx s.cpuOrd).filterMap blattCpu
  n : s'.n + s.mem.length + s.cpu.length = s.n + s'.mem.length + s'.cpu.length
  offen : w = .leer ∧ s' = s ∨ w ≠ .leer ∧ s'.nodeId = none

theorem filterMap_cons_toList {α β : Type} (f : α → Option β) (a : α) (l : List α) :
    (a :: l).filterMap f = (f a).toList ++ l.filterMap f := by
  rw [List.filterMap_cons]
  cases f a with
  | none | some b => rfl

def NumaStand.offen (s : NumaStand) (name : List UInt8) (props : List Eigenschaft) : NumaStand :=
  let isCpu := decide (IstCpu (s.depth + 1) name s.inCpusAt)
  let isMem := decide (memoryName <+: name)
  { s with
    depth := s.depth + 1
    inCpusAt := cpusNach (s.depth + 1) name s.inCpusAt
    isMem := isMem
    isCpu := isCpu
    thisCpuOrd := if isCpu then s.cpuOrd else s.thisCpuOrd
    cpuOrd := if isCpu then (s.cpuOrd + 1) % 2 ^ 32 else s.cpuOrd
    reg := if isMem then (wertIn props regName).bind paar else none
    nodeId := (wertIn props numaNodeId).bind zelle }

theorem falteProps_beginn (s : NumaStand) (name : List UInt8) {props : List Eigenschaft}
    (h : (props.map Eigenschaft.name).Nodup) :
    falteProps (fun s p => (.ok (s.nimm p) : Except (Option Numa) NumaStand)) props
      ((numaLeser data offStrings).beginn s name) = .ok (s.offen name props) := by
  rw [falteProps_numa props h]
  refine congrArg Except.ok ?_
  change NumaStand.mk _ _ _ _ _ _ (Option.or _ none) (Option.or _ none) _ _ _ = _
  rw [Option.or_none, Option.or_none]
  rfl

theorem melde_offen {s s' : NumaStand} {name : List UInt8} {props : List Eigenschaft}
    {kinder : Wald} (h : Danach kinder (s.offen name props) s') :
    s'.melde.mem = s'.mem ++ (Knoten.blattMeldung ⟨s.depth + 1, name, props, kinder⟩).toList ∧
      s'.melde.cpu = s'.cpu ++ (if IstCpu (s.depth + 1) name s.inCpusAt then
        blattCpu (⟨s.depth + 1, name, props, kinder⟩, s.cpuOrd) else none).toList := by
  obtain ⟨hkinder, rfl⟩ | ⟨hkinder, hid⟩ := h.offen
  · rw [melde_mem, melde_cpu]
    constructor
    · by_cases hmem : memoryName <+: name
      · have hopen : (s.offen name props).isMem = true := decide_eq_true hmem
        have hreg : (s.offen name props).reg = (wertIn props regName).bind paar := if_pos hopen
        rw [hopen, if_pos rfl, hreg, Knoten.blattMeldung, if_pos ⟨hmem, hkinder⟩]
        rfl
      · have hopen : (s.offen name props).isMem = false := decide_eq_false hmem
        rw [hopen, if_neg Bool.false_ne_true, Knoten.blattMeldung, if_neg fun h => hmem h.1]
    · by_cases hcpu : IstCpu (s.depth + 1) name s.inCpusAt
      · have hopen : (s.offen name props).isMem = false :=
          decide_eq_false fun h => not_cpuAt_of_memory h hcpu.2
        have hcpu' : (s.offen name props).isCpu = true := decide_eq_true hcpu
        have hord : (s.offen name props).thisCpuOrd = s.cpuOrd := if_pos hcpu'
        rw [if_pos ⟨hopen, hcpu'⟩, if_pos hcpu, blattCpu, if_pos hkinder, hord]
        rfl
      · have hcpu' : (s.offen name props).isCpu = false := decide_eq_false hcpu
        rw [if_neg hcpu, if_neg]
        rw [hcpu']
        exact fun h => Bool.false_ne_true h.2
  · rw [melde_none hid, Knoten.blattMeldung, if_neg fun h => hkinder h.2, blattCpu,
      if_neg hkinder]
    refine ⟨(List.append_nil _).symm, ?_⟩
    rw [ite_self]
    exact (List.append_nil _).symm

theorem falte_numaLeser (w : Wald) (hw : w.Eindeutig) (s : NumaStand)
    (hc : CpusOffen s.inCpusAt s.depth)
    (hord : s.cpuOrd + (w.gesehen (s.depth + 1) s.inCpusAt).length < 2 ^ 32) :
    ∃ s', falte (numaLeser data offStrings) (fun s p => .ok (s.nimm p)) w s = .ok s' ∧
      Danach w s s' := by
  induction w generalizing s with
  | leer =>
    refine ⟨s, rfl, rfl, rfl, rfl, ?_, ?_, rfl, .inl ⟨rfl, rfl⟩⟩
    · exact (List.append_nil _).symm
    · exact (List.append_nil _).symm
  | knoten name props kinder rest ih ih' =>
    obtain ⟨hprops, hkinder, hrest⟩ := hw
    rw [Wald.gesehen, List.length_append, List.length_append] at hord
    have hcount : (s.offen name props).cpuOrd = s.cpuOrd +
        (if IstCpu (s.depth + 1) name s.inCpusAt then
          [(⟨s.depth + 1, name, props, kinder⟩ : Knoten)] else []).length := by
      change (if decide (IstCpu (s.depth + 1) name s.inCpusAt) then (s.cpuOrd + 1) % 2 ^ 32
        else s.cpuOrd) = _
      by_cases hcpu : IstCpu (s.depth + 1) name s.inCpusAt
      · rw [if_pos hcpu, List.length_singleton] at hord
        rw [if_pos (decide_eq_true hcpu), if_pos hcpu, Nat.mod_eq_of_lt (by omega)]
        rfl
      · rw [if_neg (by simpa using hcpu), if_neg hcpu]
        rfl
    obtain ⟨s₁, hs₁, h₁⟩ := ih hkinder (s.offen name props) (hc.nach name) (by
      rw [hcount]
      change _ + (kinder.gesehen (s.depth + 1 + 1)
        (cpusNach (s.depth + 1) name s.inCpusAt)).length < _
      omega)
    have hende : ((numaLeser data offStrings).ende s₁).inCpusAt = s.inCpusAt := by
      change (if s₁.inCpusAt = some s₁.depth then none else s₁.inCpusAt) = _
      rw [h₁.inCpusAt, h₁.depth]
      exact hc.zurueck name
    have hdepth : ((numaLeser data offStrings).ende s₁).depth = s.depth := by
      change s₁.depth - 1 = _
      rw [h₁.depth]
      rfl
    have hzahl : ((numaLeser data offStrings).ende s₁).cpuOrd = s₁.cpuOrd := (melde_rest s₁).1
    have hord₁ : s₁.cpuOrd = (s.offen name props).cpuOrd +
        (kinder.gesehen (s.depth + 1 + 1) (cpusNach (s.depth + 1) name s.inCpusAt)).length :=
      h₁.cpuOrd
    obtain ⟨s', hs', h'⟩ := ih' hrest ((numaLeser data offStrings).ende s₁)
      (by rw [hende, hdepth]; exact hc) (by rw [hzahl, hende, hdepth]; omega)
    obtain ⟨hmem, hcpu⟩ := melde_offen h₁
    refine ⟨s', ?_, h'.depth.trans hdepth, h'.inCpusAt.trans hende, ?_, ?_, ?_, ?_, .inr ⟨?_, ?_⟩⟩
    · rw [falte, falteProps_beginn s name hprops]
      change (falte _ _ kinder _).bind _ = _
      rw [hs₁]
      exact hs'
    · rw [h'.cpuOrd, hzahl, hord₁, hcount, hende, hdepth, Wald.gesehen, List.length_append,
        List.length_append]
      omega
    · have hmem₁ : s₁.mem = s.mem ++
          (kinder.alle (s.depth + 1 + 1)).filterMap Knoten.blattMeldung := h₁.mem
      have hmem₂ : ((numaLeser data offStrings).ende s₁).mem = s₁.melde.mem := rfl
      rw [h'.mem, hmem₂, hmem, hmem₁, hdepth, Wald.alle, filterMap_cons_toList,
        List.filterMap_append]
      obtain ⟨hleer, -⟩ | ⟨hvoll, -⟩ := h₁.offen
      · rw [hleer, Wald.alle, List.filterMap_nil]
        simp only [List.append_assoc, List.append_nil, List.nil_append]
      · rw [Knoten.blattMeldung, if_neg fun h => hvoll h.2]
        simp only [Option.toList_none, List.append_assoc, List.append_nil, List.nil_append]
    · have hcpu₁ : s₁.cpu = s.cpu ++ ((kinder.gesehen (s.depth + 1 + 1)
          (cpusNach (s.depth + 1) name s.inCpusAt)).zipIdx
            (s.offen name props).cpuOrd).filterMap blattCpu := h₁.cpu
      have hcpu₂ : ((numaLeser data offStrings).ende s₁).cpu = s₁.melde.cpu := rfl
      have hkopf : ((if IstCpu (s.depth + 1) name s.inCpusAt then
            [(⟨s.depth + 1, name, props, kinder⟩ : Knoten)] else []).zipIdx s.cpuOrd).filterMap
              blattCpu = (if IstCpu (s.depth + 1) name s.inCpusAt then
                blattCpu (⟨s.depth + 1, name, props, kinder⟩, s.cpuOrd) else none).toList := by
        by_cases hcpu : IstCpu (s.depth + 1) name s.inCpusAt
        · rw [if_pos hcpu, if_pos hcpu, List.zipIdx_singleton, filterMap_cons_toList,
            List.filterMap_nil, List.append_nil]
        · rw [if_neg hcpu, if_neg hcpu]
          rfl
      rw [h'.cpu, hcpu₂, hcpu, hcpu₁, hdepth, hende, hzahl, hord₁, Wald.gesehen,
        List.zipIdx_append, List.zipIdx_append, List.filterMap_append, List.filterMap_append,
        ← hcount, hkopf]
      obtain ⟨hleer, -⟩ | ⟨hvoll, -⟩ := h₁.offen
      · rw [hleer, Wald.gesehen, List.zipIdx_nil, List.filterMap_nil]
        simp only [List.append_assoc, List.append_nil, List.nil_append]
      · rw [blattCpu, if_neg hvoll, ite_self]
        simp only [Option.toList_none, List.append_assoc, List.append_nil, List.nil_append]
    · have hn₁ : s₁.n + s.mem.length + s.cpu.length = s.n + s₁.mem.length + s₁.cpu.length := h₁.n
      have hn₂ := (melde_rest s₁).2
      have hn₃ : s'.n + s₁.melde.mem.length + s₁.melde.cpu.length =
          s₁.melde.n + s'.mem.length + s'.cpu.length := h'.n
      omega
    · exact Wald.noConfusion
    · obtain ⟨-, rfl⟩ | ⟨-, hid⟩ := h'.offen
      · rfl
      · exact hid

end Caprock.DeviceTree
