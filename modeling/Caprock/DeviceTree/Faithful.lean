import Caprock.DeviceTree.Nodes

/-! # Readers and trees

What a device tree says about processors and memory, and when the readers return it.
-/

namespace Caprock.DeviceTree

open Bytes Checks Panic

def memoryAt : List UInt8 := memoryName ++ zeichen ['@']

def IstSpeicher (k : Knoten) : Prop := k.tiefe = 2 ∧ k.name = memoryName ∨ memoryAt <+: k.name

instance (k : Knoten) : Decidable (IstSpeicher k) := inferInstanceAs (Decidable (_ ∨ _))

namespace Baum

def knoten (t : Baum) : List Knoten := t.wald.alle 1

def cpuMeldungen (t : Baum) : List (Nat × Nat) :=
  t.cpus.zipIdx.filterMap fun x => x.1.numaId.map fun nd => (x.2, nd)

def memMeldungen (t : Baum) : List (Nat × Nat × Nat) :=
  (t.knoten.filter fun k => memoryAt <+: k.name).filterMap Knoten.meldung

def speicher (t : Baum) : Option (Nat × Nat) := (t.knoten.find? IstSpeicher).bind Knoten.reg

/-- The reports of `memory@` nodes that have children. -/
def verloren (t : Baum) : List (Nat × Nat × Nat) :=
  (t.knoten.filter fun k => memoryAt <+: k.name ∧ k.kinder ≠ .leer).filterMap Knoten.meldung

/-- What other nodes without children carry whose names begin with `memory`. -/
def fremd (t : Baum) : List (Nat × Nat × Nat) :=
  (t.knoten.filter fun k => (memoryName <+: k.name ∧ ¬ memoryAt <+: k.name) ∧
    k.kinder = .leer).filterMap Knoten.meldung

end Baum

/-- The readers return what the tree says. -/
structure Treu (d : Dtb) (t : Baum) : Prop where
  cpuCount : d.cpuCount = .ok t.cpus.length
  numa : ∃ x, d.numa = .ok x ∧ x.mem.Perm t.memMeldungen ∧ x.cpu.Perm t.cpuMeldungen
  memory : d.memory = ergebnis t.speicher

/-- Processors with an affinity have no children; what is lost of the memories is what is reported
of other nodes; and the first `reg` of a node whose name begins like a memory is that of the first
memory, with a pair in it, or the bytes at its place are the same. -/
structure Passend (data : List UInt8) (t : Baum) : Prop where
  cpu : ∀ k ∈ t.cpus, k.numaId ≠ none → k.kinder = .leer
  mem : t.fremd.Perm t.verloren
  memory : ∀ p, ersteReg t.knoten = some p →
    (∃ k, t.knoten.find? IstSpeicher = some k ∧ k.regEigenschaft = some p ∧ 16 ≤ p.wert.length) ∨
      paar (data.drop p.ort) = t.speicher

variable {data : List UInt8} {offStrings pos pos' : Nat} {w : Wald} {t : Baum}

theorem filterMap_length {α β : Type} {f g : α → Option β} (h : ∀ a, f a = g a ∨ f a = none)
    (l : List α) : (l.filterMap f).length ≤ (l.filterMap g).length ∧
      ((l.filterMap f).length = (l.filterMap g).length → ∀ a ∈ l, f a = g a) := by
  induction l with
  | nil => exact ⟨le_refl _, fun _ a ha => absurd ha List.not_mem_nil⟩
  | cons a l ih =>
    obtain ⟨hle, heq⟩ := ih
    rw [filterMap_cons_toList, filterMap_cons_toList, List.length_append, List.length_append]
    obtain ha | ha := h a
    · rw [ha]
      refine ⟨by omega, fun hlen b hb => ?_⟩
      obtain rfl | hb := List.mem_cons.mp hb
      · exact ha
      · exact heq (by omega) b hb
    · rw [ha, Option.toList_none, List.length_nil]
      refine ⟨by omega, fun hlen b hb => ?_⟩
      have hnone : g a = none := by
        cases hg : g a with
        | none => rfl
        | some x =>
          rw [hg, Option.toList_some, List.length_singleton] at hlen
          omega
      obtain rfl | hb := List.mem_cons.mp hb
      · exact ha.trans hnone.symm
      · rw [hnone, Option.toList_none, List.length_nil] at hlen
        exact heq (by omega) b hb

theorem cpu_perm_iff (t : Baum) : (t.cpus.zipIdx.filterMap blattCpu).Perm t.cpuMeldungen ↔
    ∀ k ∈ t.cpus, k.numaId ≠ none → k.kinder = .leer := by
  have hteil : ∀ x : Knoten × Nat, blattCpu x = x.1.numaId.map (fun nd => (x.2, nd)) ∨
      blattCpu x = none := by
    intro x
    by_cases hleer : x.1.kinder = .leer
    · exact .inl (if_pos hleer)
    · exact .inr (if_neg hleer)
  constructor
  · intro hperm k hk hid
    by_contra hvoll
    obtain ⟨⟨_, i⟩, hi, rfl⟩ : ∃ x ∈ t.cpus.zipIdx, x.1 = k :=
      List.mem_map.mp ((List.zipIdx_map_fst 0 t.cpus).symm ▸ hk)
    have heq := (filterMap_length hteil t.cpus.zipIdx).2 hperm.length_eq _ hi
    rw [blattCpu, if_neg hvoll] at heq
    exact hid (Option.map_eq_none_iff.mp heq.symm)
  · intro hall
    refine List.Perm.of_eq (List.filterMap_congr fun x hx => ?_)
    have hk : x.1 ∈ t.cpus := List.zipIdx_map_fst 0 t.cpus ▸ List.mem_map_of_mem hx
    by_cases hid : x.1.numaId = none
    · rw [hid]
      obtain h | h := hteil x
      · rw [h, hid]
      · exact h
    · exact if_pos (hall x.1 hk hid)

theorem filterMap_split {α β : Type} (f : α → Option β) (p q : α → Prop) [DecidablePred p]
    [DecidablePred q] (l : List α) : ((l.filter fun a => p a).filterMap f).Perm
      ((l.filter fun a => p a ∧ q a).filterMap f ++
        (l.filter fun a => p a ∧ ¬ q a).filterMap f) := by
  have hperm := ((List.filter_append_perm (fun a => q a) (l.filter fun a => p a)).symm).filterMap f
  rw [List.filterMap_append, List.filter_filter, List.filter_filter] at hperm
  have hwith : (fun a => decide (p a ∧ q a)) = fun a => decide (q a) && decide (p a) := by
    funext a
    rw [Bool.decide_and, Bool.and_comm]
  have hwithout : (fun a => decide (p a ∧ ¬ q a)) = fun a => !decide (q a) && decide (p a) := by
    funext a
    rw [Bool.decide_and, Bool.and_comm, decide_not]
  rw [hwith, hwithout]
  exact hperm

theorem memory_of_memoryAt {name : List UInt8} (h : memoryAt <+: name) : memoryName <+: name :=
  (List.prefix_append memoryName _).trans h

theorem mem_perm_iff (t : Baum) : (t.knoten.filterMap Knoten.blattMeldung).Perm t.memMeldungen ↔
    t.fremd.Perm t.verloren := by
  have hcode : t.knoten.filterMap Knoten.blattMeldung =
      (t.knoten.filter fun k => memoryName <+: k.name ∧ k.kinder = .leer).filterMap
        Knoten.meldung := by
    rw [List.filterMap_filter]
    refine List.filterMap_congr fun k _ => ?_
    simp only [Knoten.blattMeldung, decide_eq_true_eq]
  have hboth : (t.knoten.filter fun k =>
      (memoryName <+: k.name ∧ k.kinder = .leer) ∧ memoryAt <+: k.name) =
        t.knoten.filter fun k => memoryAt <+: k.name ∧ ¬ k.kinder ≠ .leer := by
    refine List.filter_congr fun k _ => decide_eq_decide.mpr ?_
    rw [not_not]
    exact ⟨fun h => ⟨h.2, h.1.2⟩, fun h => ⟨⟨memory_of_memoryAt h.1, h.2⟩, h.1⟩⟩
  have hfremd : (t.knoten.filter fun k =>
      (memoryName <+: k.name ∧ k.kinder = .leer) ∧ ¬ memoryAt <+: k.name).filterMap
        Knoten.meldung = t.fremd := by
    refine congrArg (List.filterMap Knoten.meldung) ?_
    exact List.filter_congr fun k _ => decide_eq_decide.mpr
      ⟨fun h => ⟨⟨h.1.1, h.2⟩, h.1.2⟩, fun h => ⟨⟨h.1.1, h.2⟩, h.1.2⟩⟩
  have hleft := filterMap_split Knoten.meldung
    (fun k => memoryName <+: k.name ∧ k.kinder = .leer) (fun k => memoryAt <+: k.name) t.knoten
  have hright := filterMap_split Knoten.meldung (fun k => memoryAt <+: k.name)
    (fun k => k.kinder ≠ .leer) t.knoten
  rw [hboth, hfremd] at hleft
  have hright := hright.trans List.perm_append_comm
  rw [hcode]
  constructor
  · intro h
    exact (List.perm_append_left_iff _).mp (hleft.symm.trans (h.trans hright))
  · intro h
    exact hleft.trans (((List.perm_append_left_iff _).mpr h).trans hright.symm)

theorem LiegenProps.wert {ps : List Eigenschaft} {p : Eigenschaft}
    (h : LiegenProps data offStrings ps pos pos') (hp : p ∈ ps) :
    slice data p.ort p.wert.length = some p.wert := by
  induction h with
  | keine => cases hp
  | prop _ _ hprop _ ih =>
    obtain rfl | hp := List.mem_cons.mp hp
    · exact hprop.wert
    · exact ih hp

theorem Liegt.wert {k : Knoten} {p : Eigenschaft} {tiefe : Nat}
    (h : Liegt data offStrings w pos pos') (hk : k ∈ w.alle tiefe) (hp : p ∈ k.props) :
    slice data p.ort p.wert.length = some p.wert := by
  induction h generalizing tiefe with
  | leer => cases hk
  | knoten _ _ _ _ hprops _ _ _ _ ih ih' =>
    rw [Wald.alle, List.mem_cons, List.mem_append] at hk
    obtain rfl | hk | hk := hk
    · exact hprops.wert hp
    · exact ih hk
    · exact ih' hk

theorem reg_of_regEigenschaft {k : Knoten} {p : Eigenschaft} (h : k.regEigenschaft = some p) :
    k.reg = paar p.wert := by
  rw [Knoten.regEigenschaft] at h
  rw [Knoten.reg, wertIn, h]
  rfl

theorem memory_of_istSpeicher {k : Knoten} (h : IstSpeicher k) : memoryName <+: k.name := by
  obtain ⟨-, hname⟩ | hname := h
  · exact hname ▸ List.prefix_refl _
  · exact memory_of_memoryAt hname

theorem speicher_of_none (h : ersteReg t.knoten = none) : t.speicher = none := by
  rw [ersteReg, List.findSome?_eq_none_iff] at h
  refine Option.bind_eq_none_iff.mpr fun k hk => ?_
  have hnone := h k (List.mem_of_find?_eq_some hk)
  rw [if_pos (memory_of_istSpeicher (by simpa using List.find?_some hk))] at hnone
  rw [Knoten.regEigenschaft] at hnone
  rw [Knoten.reg, wertIn, hnone]
  rfl

theorem Flach.length_lt (h : Flach data t) : data.length < 2 ^ 32 := by
  obtain ⟨b, hb, hlen⟩ := Option.map_eq_some_iff.mp h.groesse
  have hlt := beNat_lt b
  rw [hlen, slice_length hb] at hlt
  exact hlt

theorem Flach.liest (h : Flach data t) : ∃ d, Dtb.parse data = .ok d ∧
    d.cpuCount = .ok t.cpus.length ∧
    d.numa = .ok ⟨t.knoten.filterMap Knoten.blattMeldung, t.cpus.zipIdx.filterMap blattCpu,
      (t.knoten.filterMap Knoten.blattMeldung).length +
        (t.cpus.zipIdx.filterMap blattCpu).length⟩ ∧
    d.memory = ergebnis ((ersteReg t.knoten).bind fun p => paar (data.drop p.ort)) := by
  obtain ⟨offStruct, offStrings, pos, pos', hstruct, hstrings, hliegt, hnops, hend⟩ := h.bloecke
  have hdata := h.length_lt
  have hoffen : CpusOffen none 0 := fun a ha => by cases ha
  refine ⟨⟨data, offStruct, offStrings⟩, ?_, ?_, ?_, ?_⟩
  · rw [Dtb.parse, be32_of_wort h.magie]
    change (be32 data 8).bind _ = _
    rw [be32_of_wort hstruct]
    change (be32 data 12).bind _ = _
    rw [be32_of_wort hstrings]
    rfl
  · rw [Dtb.cpuCount, lauf_liegt (cpuLeser_gemaess data offStrings) hdata hliegt hnops hend,
      falte_cpuLeser t.wald hoffen, gesehen_baum, Nat.zero_add]
    rfl
  · have hnodes := hliegt.alle_le 1
    have hseen := gesehen_length_le t.wald 1 none
    have hle := hnops.le
    have hin := wort_le hend
    have hord : 0 + (t.wald.gesehen 1 none).length < 2 ^ 32 := by omega
    obtain ⟨s', hs', hdanach⟩ : ∃ s', falte (numaLeser data offStrings)
        (fun s p => .ok (s.nimm p)) t.wald
          ⟨0, none, false, false, 0, 0, none, none, [], [], 0⟩ = .ok s' ∧ Danach t.wald _ s' :=
      falte_numaLeser t.wald hliegt.eindeutig _ hoffen hord
    have hmem := hdanach.mem
    have hcpu := hdanach.cpu
    have hn := hdanach.n
    rw [List.nil_append] at hmem hcpu
    rw [gesehen_baum] at hcpu
    have hzahl : s'.n = s'.mem.length + s'.cpu.length := by
      simp only [List.length_nil, Nat.add_zero, Nat.zero_add] at hn
      exact hn
    rw [Dtb.numa, lauf_liegt (numaLeser_gemaess data offStrings) hdata hliegt hnops hend, hs']
    change Except.ok (Numa.mk s'.mem s'.cpu s'.n) = _
    rw [hzahl, hmem, hcpu]
    rfl
  · rw [Dtb.memory, lauf_liegt (memoryLeser_gemaess data offStrings) hdata hliegt hnops hend,
      falte_memoryLeser t.wald 1, Bool.false_and, ← Baum.knoten]
    cases ersteReg t.knoten with
    | none | some p => rfl

theorem ergebnis_injective {α : Type} : Function.Injective (ergebnis : Option α → Call Unit α) := by
  intro a b hab
  cases a with
  | none =>
    cases b with
    | none => rfl
    | some b => cases hab
  | some a =>
    cases b with
    | none => cases hab
    | some b =>
      cases hab
      rfl

theorem leser_treu_iff (data : List UInt8) (t : Baum) (h : Flach data t) :
    (∃ d, Dtb.parse data = .ok d ∧ Treu d t) ↔ Passend data t := by
  obtain ⟨d, hparse, hcpu, hnuma, hmemory⟩ := h.liest
  constructor
  · rintro ⟨d', hparse', htreu⟩
    obtain rfl : d = d' := Except.ok.inj (hparse.symm.trans hparse')
    obtain ⟨x, hx, hmem, hcpus⟩ := htreu.numa
    cases hnuma.symm.trans hx
    refine ⟨(cpu_perm_iff t).mp hcpus, (mem_perm_iff t).mp hmem, fun p hp => .inr ?_⟩
    have heq := ergebnis_injective (hmemory.symm.trans htreu.memory)
    rwa [hp, Option.bind_some] at heq
  · intro hpass
    refine ⟨d, hparse, hcpu, ⟨_, hnuma, (mem_perm_iff t).mpr hpass.mem,
      (cpu_perm_iff t).mpr hpass.cpu⟩, hmemory.trans (congrArg ergebnis ?_)⟩
    cases hp : ersteReg t.knoten with
    | none => exact (speicher_of_none hp).symm
    | some p =>
      obtain ⟨k, hk, hreg, hlen⟩ | heq := hpass.memory p hp
      · obtain ⟨_, offStrings, _, _, -, -, hliegt, -, -⟩ := h.bloecke
        have hslice := hliegt.wert (List.mem_of_find?_eq_some hk) (List.mem_of_find?_eq_some hreg)
        rw [Option.bind_some, drop_of_slice hslice, paar_append hlen, Baum.speicher, hk,
          Option.bind_some, reg_of_regEigenschaft hreg]
      · exact heq

/-! ## A tree with one node

Its `reg` and `numa-node-id` lie behind a name of seventeen bytes.
-/

def wortBytes (n : Nat) : List UInt8 := (leBytes 4 n).reverse

def einzelReg : List UInt8 := wortBytes 0x10 ++ wortBytes 0 ++ wortBytes 0 ++ wortBytes 0x40000000

def einzelBlob (name : List UInt8) : List UInt8 :=
  [magic, 161, 56, 144, 40, 17, 16, 0, 17, 88, 0, 0, 0, 0, fdtBeginNode, 0,
      fdtBeginNode].flatMap wortBytes ++ name ++ [0, 0, 0] ++
    [fdtProp, 16, 0].flatMap wortBytes ++ einzelReg ++
    [fdtProp, 4, 4, 1, fdtEndNode, fdtEndNode, fdtEnd].flatMap wortBytes ++
    regName ++ [0] ++ numaNodeId ++ [0]

def einzelBaum (name : List UInt8) : Baum :=
  ⟨[], [], .knoten name [⟨regName, einzelReg, 100⟩, ⟨numaNodeId, wortBytes 1, 128⟩] .leer .leer⟩

def speicherName : List UInt8 :=
  memoryAt ++ zeichen ['1', '0', '0', '0', '0', '0', '0', '0', '0', '0']

def controllerName : List UInt8 :=
  memoryName ++ zeichen ['-', 'c', 'o', 'n', 't', 'r', 'o', 'l', 'l', 'e', 'r']

theorem flach_einzel : ∀ name ∈ [speicherName, controllerName],
    Flach (einzelBlob name) (einzelBaum name) := by
  have hbytes : ∀ name ∈ [speicherName, controllerName],
      wort (einzelBlob name) 0 = some magic ∧
      wort (einzelBlob name) 4 = some (einzelBlob name).length ∧
      wort (einzelBlob name) 8 = some 56 ∧ wort (einzelBlob name) 12 = some 144 ∧
      (einzelBaum name).wald.ende (einzelBlob name) 144 56 = some 140 ∧
      wort (einzelBlob name) 140 = some fdtEnd := by decide +kernel
  intro name hname
  obtain ⟨hmagic, hsize, hstruct, hstrings, hende, hend⟩ := hbytes name hname
  exact ⟨hmagic, hsize, 56, 144, 140, 140, hstruct, hstrings, Wald.liegt_of_ende hende, .keine,
    hend⟩

theorem flach_speicher : Flach (einzelBlob speicherName) (einzelBaum speicherName) :=
  flach_einzel _ List.mem_cons_self

theorem flach_controller : Flach (einzelBlob controllerName) (einzelBaum controllerName) :=
  flach_einzel _ (List.mem_cons_of_mem _ List.mem_cons_self)

theorem passend_speicher : Passend (einzelBlob speicherName) (einzelBaum speicherName) where
  cpu k hk := by cases hk
  mem := by decide
  memory p hp := by
    have hreg : ersteReg (einzelBaum speicherName).knoten = some ⟨regName, einzelReg, 100⟩ := by
      decide
    cases (hreg.symm.trans hp)
    exact .inl ⟨⟨2, speicherName, [⟨regName, einzelReg, 100⟩, ⟨numaNodeId, wortBytes 1, 128⟩],
      .leer⟩, by decide⟩

/-- On any bytes the readers end; on the blob of a tree they return what it says exactly if the tree
is `Passend`. -/
theorem leser_treu (data : List UInt8) (t : Baum) :
    (Ends (Dtb.parse data) ∧ ∀ d : Dtb, Ends d.cpuCount ∧ Ends d.numa ∧ Ends d.memory) ∧
      (Flach data t → ((∃ d, Dtb.parse data = .ok d ∧ Treu d t) ↔ Passend data t)) :=
  ⟨⟨parse_ends data, Dtb.ends⟩, leser_treu_iff data t⟩

/-- A tree whose only node is a `memory@`, with both properties. -/
theorem leser_treu_speicher : ∃ d, Dtb.parse (einzelBlob speicherName) = .ok d ∧
    Treu d (einzelBaum speicherName) :=
  ((leser_treu _ _).2 flach_speicher).mpr passend_speicher

/-- A tree without memory whose only node is a `memory-controller`: its `reg` is returned. -/
theorem leser_controller : Flach (einzelBlob controllerName) (einzelBaum controllerName) ∧
    ¬ ∃ d, Dtb.parse (einzelBlob controllerName) = .ok d ∧ Treu d (einzelBaum controllerName) := by
  refine ⟨flach_controller, fun htreu => ?_⟩
  have hpass := (leser_treu_iff _ _ flach_controller).mp htreu
  have hnone : (einzelBaum controllerName).knoten.find? IstSpeicher = none := by decide
  obtain ⟨k, hk, -⟩ | hpaar := hpass.memory ⟨regName, einzelReg, 100⟩ (by decide)
  · exact Option.some_ne_none k (hk.symm.trans hnone)
  · exact absurd hpaar (by decide)

end Caprock.DeviceTree
