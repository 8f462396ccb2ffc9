import Caprock.Cap.Portability
import Caprock.Microkit.Caps

/-! # Checkpoints of two machines

The kinds that `build` judges are read out of the cspace of a protection domain, slot by
slot.  Two machines may keep the same domain under other numbers, at other places of the
tables and of memory; its images are the same (`build_portabel`).
-/

namespace Caprock.Microkit

open Cap Mem Checkpoint

def PdTable.capsOf (t : PdTable) (pd : Nat) : List (Option CapPtr) :=
  if t.isUsed pd then
    (List.range ncaps).map fun i =>
      if i < min (t.pds.cell pd).cspaceLen ncaps then
        (t.cspacePool.get ((t.pds.cell pd).cspaceStart + i)).bind id
      else none
  else List.replicate ncaps none

/-- `pd_object_kinds` into a buffer of `len` places: the part of it that was written. -/
def Caps.pdObjectKinds (g : Caps) (pd len : Nat) : List (Option ObjectKind) :=
  ((g.pds.capsOf pd).take len).map fun slot =>
    (slot.bind g.cspace.lookup).map fun (k, _, _) => k

theorem PdTable.capsOf_eq (t : PdTable) (pd : Nat) :
    t.capsOf pd = (List.range ncaps).map (t.capAt pd) := by
  unfold PdTable.capsOf PdTable.capAt PdTable.cspaceLenVon
  by_cases hused : t.isUsed pd
  · rw [if_pos hused, if_pos hused]
    apply List.map_congr_left
    intro i hi
    have hlt : i < ncaps := List.mem_range.mp hi
    have hmin : i < min (t.pds.cell pd).cspaceLen ncaps ↔ i < (t.pds.cell pd).cspaceLen := by
      omega
    simp only [hmin]
  · simp [hused, List.map_const']

/-- The two machines hold the same capabilities under other numbers: the spaces correspond,
and so do the handles at every local slot of every domain. -/
structure Caps.Isomorph (ρ : Umbenennung) (g g' : Caps) : Prop where
  cspace : g.cspace.Isomorph ρ g'.cspace
  plaetze : ∀ pd slot,
    Option.Rel (CapSpace.Entspricht ρ g.cspace g'.cspace) (g.pds.capAt pd slot)
      (g'.pds.capAt (ρ.pd pd) slot)

theorem Caps.Isomorph.pdObjectKinds {ρ : Umbenennung} {g g' : Caps} (h : g.Isomorph ρ g')
    (pd len : Nat) : g'.pdObjectKinds (ρ.pd pd) len = ρ.kinds (g.pdObjectKinds pd len) := by
  have hslot : ∀ slot, ((g'.pds.capAt (ρ.pd pd) slot).bind g'.cspace.lookup).map (·.1) =
      (((g.pds.capAt pd slot).bind g.cspace.lookup).map (·.1)).map ρ.kind := by
    intro slot
    have hrel := h.plaetze pd slot
    cases hp : g.pds.capAt pd slot with
    | none =>
      rw [hp] at hrel
      cases hq : g'.pds.capAt (ρ.pd pd) slot with
      | none => rfl
      | some q =>
        rw [hq] at hrel
        cases hrel
    | some p =>
      rw [hp] at hrel
      cases hq : g'.pds.capAt (ρ.pd pd) slot with
      | none =>
        rw [hq] at hrel
        cases hrel
      | some q =>
        rw [hq] at hrel
        cases hrel with
        | some hpq =>
          rw [Option.bind_some, Option.bind_some, h.cspace.lookup hpq]
          cases g.cspace.lookup p <;> rfl
  simp only [Caps.pdObjectKinds, Umbenennung.kinds, PdTable.capsOf_eq, ← List.map_take,
    List.map_map]
  apply List.map_congr_left
  intro slot _
  exact hslot slot

/-- Whenever `build` returns an image, every capability that the thread holds is portable,
the image carries them in the order of the slots, and no edge crosses the cut.  And two
machines that hold the same capabilities under other numbers return the same images. -/
theorem Caps.build_portabel (kernelHash : Vector UInt8 32) (progress nonce epoch : UInt64) :
    (∀ (kinds : List (Option ObjectKind)) (scope : Scope) (subject : Nat) (edges : List Edge)
        (img : Image),
      Image.build kernelHash progress nonce epoch kinds scope subject edges = .ok img →
        AllePortabel scope kinds ∧
        (∀ e, some e ∈ img.caps.toList → ∃ k p, some k ∈ kinds ∧
          classify k scope = .portable e p) ∧
        img.Traegt ((uebertragbare scope kinds).map Prod.fst) ∧
        ∀ e ∈ edges, e.Stimmig subject scope) ∧
    ∀ (ρ : Umbenennung) (g g' : Caps), g.Isomorph ρ g' →
      ∀ (pd len : Nat) (scope : Scope) (subject : Nat) (edges edges' : List Edge),
        edges'.Perm (edges.map ρ.edge) → ∀ img : Image,
          Image.build kernelHash progress nonce epoch (g'.pdObjectKinds (ρ.pd pd) len)
              (ρ.scope scope) (ρ.thread subject) edges' = .ok img ↔
            Image.build kernelHash progress nonce epoch (g.pdObjectKinds pd len) scope subject
              edges = .ok img := by
  constructor
  · intro kinds scope subject edges img h
    obtain ⟨hportabel, hedges, hle, himg⟩ := Image.build_eq_ok_iff.mp h
    have htraegt : img.Traegt ((uebertragbare scope kinds).map Prod.fst) := by
      have hleer := Image.leer_traegt kernelHash progress nonce epoch
      have hcount : (Image.leer kernelHash progress nonce epoch).capCount = 0 := rfl
      have := hleer.mitnehmen (uebertragbare scope kinds) (by omega)
      rwa [List.nil_append, ← himg] at this
    refine ⟨hportabel, ?_, htraegt, hedges⟩
    intro e he
    have hmem : e ∈ (uebertragbare scope kinds).map Prod.fst := by
      rw [htraegt.caps] at he
      simpa using he
    obtain ⟨⟨_, p⟩, hp, rfl⟩ := List.mem_map.mp hmem
    obtain ⟨k, hk, hkp⟩ := mem_uebertragbare.mp hp
    exact ⟨k, p, hk, hkp⟩
  · intro ρ g g' h pd len scope subject edges edges' hedges img
    rw [h.pdObjectKinds]
    exact Image.build_umbenannt ρ hedges img

def maschine : Caps where
  cspace :=
    { CapSpace.attached (.klein 2 2) with
      slots := ⟨2, fun i => ⟨true, 0, i, .none, 0, none, .empty⟩⟩
      objects := ⟨2, fun i => ⟨true, if i = 0 then .memory ⟨4096, 8192⟩ else .tcb 7, 1, 0⟩⟩ }
  pds :=
    { PdTable.attached 1 2 with
      pds := ⟨1, fun _ => { Pd.empty with used := true, cspaceLen := 2 }⟩
      cspacePool := ⟨2, fun i => some ⟨i, 0⟩⟩ }
  owner _ := none

def verschobeneMaschine : Caps where
  cspace :=
    { CapSpace.attached (.klein 3 3) with
      slots := ⟨3, fun i => ⟨i != 0, 5, i, .none, 0, none, .empty⟩⟩
      objects := ⟨3, fun i => ⟨i != 0, if i = 1 then .memory ⟨0, 8192⟩ else .tcb 12, 1, 9⟩⟩ }
  pds :=
    { PdTable.attached 2 3 with
      pds := ⟨2, fun i => { Pd.empty with used := i != 0, cspaceStart := 1, cspaceLen := 2 }⟩
      cspacePool := ⟨3, fun i => some ⟨i, 5⟩⟩ }
  owner _ := none

def verschiebung : Umbenennung where
  slot := ⟨Nat.succ, Nat.succ_injective⟩
  object := ⟨Nat.succ, Nat.succ_injective⟩
  thread := ⟨(· + 5), add_left_injective 5⟩
  pd := ⟨Nat.succ, Nat.succ_injective⟩
  endpoint := .refl ℕ
  notification := .refl ℕ
  basis _ := 0

theorem maschine_capAt (pd slot : Nat) :
    maschine.pds.capAt pd slot = if pd = 0 ∧ slot < 2 then some ⟨slot, 0⟩ else none := by
  have hstart : Pd.empty.cspaceStart = 0 := rfl
  by_cases hpd : pd = 0 <;> by_cases hslot : slot < 2 <;>
    simp [maschine, PdTable.capAt, PdTable.cspaceLenVon, PdTable.isUsed, Slab.get, hpd, hslot,
      hstart]

theorem verschobeneMaschine_capAt (pd slot : Nat) :
    verschobeneMaschine.pds.capAt (pd + 1) slot =
      if pd = 0 ∧ slot < 2 then some ⟨1 + slot, 5⟩ else none := by
  have hlt : 1 + slot < 3 ↔ slot < 2 := by omega
  have hpd2 : pd + 1 < 2 ↔ pd = 0 := by omega
  by_cases hpd : pd = 0 <;> by_cases hslot : slot < 2 <;>
    simp [verschobeneMaschine, PdTable.capAt, PdTable.cspaceLenVon, PdTable.isUsed, Slab.get, hpd,
      hslot, hlt, hpd2]

theorem maschine_isomorph : maschine.Isomorph verschiebung verschobeneMaschine := by
  have hslot : ∀ i, verschiebung.slot i = i + 1 := fun _ => rfl
  refine ⟨⟨?_, ?_, ?_, ?_⟩, ?_⟩
  · intro i
    have hlt : i + 1 < 3 ↔ i < 2 := by omega
    simp [hslot, maschine, verschobeneMaschine, CapSpace.Used, hlt]
  · intro j _ hused
    have hne : j ≠ 0 := by
      rintro rfl
      cases hused
    exact ⟨j - 1, by rw [hslot]; omega⟩
  · intro i hi _
    have hlt : i < 2 := hi
    obtain rfl | rfl : i = 0 ∨ i = 1 := by omega
    · rfl
    · rfl
  · intro i hi _
    have hlt : i < 2 := hi
    obtain rfl | rfl : i = 0 ∨ i = 1 := by omega
    · rfl
    · rfl
  · intro pd slot
    have hpd : verschiebung.pd pd = pd + 1 := rfl
    rw [hpd, maschine_capAt, verschobeneMaschine_capAt]
    by_cases hplatz : pd = 0 ∧ slot < 2
    · rw [if_pos hplatz, if_pos hplatz]
      exact .some ⟨Nat.add_comm 1 slot, Iff.intro (fun _ => rfl) fun _ => rfl⟩
    · rw [if_neg hplatz, if_neg hplatz]
      exact .none

/-- A thread in its own scope moves; an edge between others stays behind. -/
theorem build_portabel_verschoben :
    ∃ img, Image.build (Vector.replicate 32 7) 4711 1 3 (verschobeneMaschine.pdObjectKinds 1 16)
        ⟨[], [], [12], []⟩ 12 [⟨.endpoint 3, 19, .sender⟩] = .ok img ∧
      some (.region 8192) ∈ img.caps.toList := by
  refine ⟨_, ((Caps.build_portabel (Vector.replicate 32 7) 4711 1 3).2 verschiebung maschine
    verschobeneMaschine maschine_isomorph 0 16 ⟨[], [], [7], []⟩ 7 [⟨.endpoint 3, 14, .sender⟩]
    [⟨.endpoint 3, 19, .sender⟩] (List.Perm.refl _) _).mpr rfl, ?_⟩
  decide

end Caprock.Microkit
