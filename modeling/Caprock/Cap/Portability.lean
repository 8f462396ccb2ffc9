import Mathlib.Data.List.Perm.Basic
import Mathlib.Logic.Embedding.Basic
import Caprock.Cap.Checkpoint
import Caprock.Cap.Links

/-! # What an image depends on

The kinds in a cspace carry numbers of one machine: identifiers of endpoints, threads and
protection domains, and physical addresses.  `build` is decided by the lengths, the budgets
and the places in the scope alone.  First the image is written as a function of what travels
(`build_eq_ok_iff`); then the numbers are exchanged under it (`build_umbenannt`), and a
capability space is compared with a copy of itself under other numbers (`Isomorph`).
-/

namespace Caprock.Cap

open Mem

namespace Checkpoint

def AllePortabel (scope : Scope) (kinds : List (Option ObjectKind)) : Prop :=
  ∀ k, some k ∈ kinds → ∃ e p, classify k scope = .portable e p

/-- Channel and thread of the edge lie on the same side of the cut. -/
def Edge.Stimmig (subject : Nat) (scope : Scope) (e : Edge) : Prop :=
  channelInScope e.channel scope = threadInScope e.thread subject scope

def uebertragbare (scope : Scope) (kinds : List (Option ObjectKind)) :
    List (ExternKind × Option Precondition) :=
  kinds.filterMap fun k =>
    match k.map (classify · scope) with
    | some (.portable e p) => some (e, p)
    | _ => none

theorem classifyEdge_eq_none {subject : Nat} {scope : Scope} {e : Edge} :
    classifyEdge e subject scope = none ↔ e.Stimmig subject scope := by
  unfold classifyEdge Edge.Stimmig
  cases channelInScope e.channel scope <;> cases threadInScope e.thread subject scope <;> simp

theorem classifyCut_eq_ok {subject : Nat} {scope : Scope} {edges : List Edge} {i : Nat} :
    classifyCut subject scope i edges = .ok () ↔ ∀ e ∈ edges, e.Stimmig subject scope := by
  induction edges generalizing i with
  | nil => simp [classifyCut]
  | cons e edges ih =>
    rw [classifyCut, List.forall_mem_cons, ← classifyEdge_eq_none]
    cases classifyEdge e subject scope with
    | none => simp [ih]
    | some r => simp

theorem allePortabel_cons_none {scope : Scope} {kinds : List (Option ObjectKind)} :
    AllePortabel scope (none :: kinds) ↔ AllePortabel scope kinds := by
  simp [AllePortabel]

theorem allePortabel_cons_some {scope : Scope} {k : ObjectKind}
    {kinds : List (Option ObjectKind)} :
    AllePortabel scope (some k :: kinds) ↔
      (∃ e p, classify k scope = .portable e p) ∧ AllePortabel scope kinds := by
  simp [AllePortabel, or_imp, forall_and]

theorem classifyAll_eq_ok {scope : Scope} {kinds : List (Option ObjectKind)} {slot : Nat} :
    classifyAll scope slot kinds = .ok () ↔ AllePortabel scope kinds := by
  induction kinds generalizing slot with
  | nil => simp [classifyAll, AllePortabel]
  | cons k kinds ih =>
    cases k with
    | none => rw [classifyAll, ih, allePortabel_cons_none]
    | some k =>
      rw [classifyAll, allePortabel_cons_some]
      cases hk : classify k scope with
      | refused r => simp
      | portable e p => simp [ih]

theorem mem_uebertragbare {scope : Scope} {kinds : List (Option ObjectKind)} {e : ExternKind}
    {p : Option Precondition} :
    (e, p) ∈ uebertragbare scope kinds ↔
      ∃ k, some k ∈ kinds ∧ classify k scope = .portable e p := by
  rw [uebertragbare, List.mem_filterMap]
  constructor
  · rintro ⟨k, hk, h⟩
    cases k with
    | none => cases h
    | some k =>
      rw [Option.map_some] at h
      cases hc : classify k scope with
      | refused r =>
        rw [hc] at h
        cases h
      | portable e' p' =>
        rw [hc] at h
        cases h
        exact ⟨k, hk, hc⟩
  · rintro ⟨k, hk, h⟩
    exact ⟨some k, hk, by simp [h]⟩

namespace Image

def leer (kernelHash : Vector UInt8 32) (progress nonce epoch : UInt64) : Image :=
  ⟨kernelHash, progress, nonce, epoch, Vector.replicate maxCaps none, 0, 0⟩

def mitnehmen (img : Image) (was : List (ExternKind × Option Precondition)) : Image :=
  was.foldl (fun img k => img.aufnehmen k.1 k.2) img

theorem leer_traegt (kernelHash : Vector UInt8 32) (progress nonce epoch : UInt64) :
    (leer kernelHash progress nonce epoch).Traegt [] :=
  ⟨by decide, rfl, rfl⟩

theorem Traegt.mitnehmen {img : Image} {l : List ExternKind} (h : img.Traegt l)
    (was : List (ExternKind × Option Precondition)) (hle : img.capCount + was.length ≤ maxCaps) :
    (img.mitnehmen was).Traegt (l ++ was.map Prod.fst) := by
  induction was generalizing img l with
  | nil => simpa [Image.mitnehmen] using h
  | cons k was ih =>
    rw [List.length_cons] at hle
    have hnext := h.aufnehmen (by omega) k.1 k.2
    have hcount : (img.aufnehmen k.1 k.2).capCount = img.capCount + 1 := rfl
    have := ih hnext (by omega)
    simpa [Image.mitnehmen] using this

theorem einsammeln_eq_ok {scope : Scope} {kinds : List (Option ObjectKind)} {slot : Nat}
    {img img' : Image} (hle : img.capCount ≤ maxCaps) :
    einsammeln scope slot kinds img = .ok img' ↔
      AllePortabel scope kinds ∧ img.capCount + (uebertragbare scope kinds).length ≤ maxCaps ∧
        img' = img.mitnehmen (uebertragbare scope kinds) := by
  induction kinds generalizing slot img with
  | nil => simp [einsammeln, AllePortabel, uebertragbare, mitnehmen, hle, eq_comm]
  | cons k kinds ih =>
    cases k with
    | none =>
      rw [einsammeln, ih hle, allePortabel_cons_none]
      rfl
    | some k =>
      rw [einsammeln, allePortabel_cons_some]
      cases hk : classify k scope with
      | refused r => simp
      | portable e p =>
        have hwas : uebertragbare scope (some k :: kinds) =
            (e, p) :: uebertragbare scope kinds := by
          simp [uebertragbare, hk]
        have hcount : (img.aufnehmen e p).capCount = img.capCount + 1 := rfl
        dsimp only
        rw [hwas, List.length_cons]
        by_cases hfull : img.capCount = maxCaps
        · rw [if_pos hfull]
          simp only [reduceCtorEq, false_iff, not_and]
          omega
        · rw [if_neg hfull, ih (by omega), hcount]
          have hsum : img.capCount + 1 + (uebertragbare scope kinds).length =
              img.capCount + ((uebertragbare scope kinds).length + 1) := by omega
          simp [hsum, mitnehmen]

/-- `build` returns an image exactly if every capability is portable, every edge lies on one
side of the cut and the capabilities fit; the image then holds what travels. -/
theorem build_eq_ok_iff {kernelHash : Vector UInt8 32} {progress nonce epoch : UInt64}
    {kinds : List (Option ObjectKind)} {scope : Scope} {subject : Nat} {edges : List Edge}
    {img : Image} :
    build kernelHash progress nonce epoch kinds scope subject edges = .ok img ↔
      AllePortabel scope kinds ∧ (∀ e ∈ edges, e.Stimmig subject scope) ∧
        (uebertragbare scope kinds).length ≤ maxCaps ∧
        img = (leer kernelHash progress nonce epoch).mitnehmen (uebertragbare scope kinds) := by
  rw [← @classifyAll_eq_ok _ _ 0, ← @classifyCut_eq_ok _ _ _ 0, build]
  cases hall : classifyAll scope 0 kinds with
  | error r => simp
  | ok u =>
    cases hcut : classifyCut subject scope 0 edges with
    | error r => simp
    | ok v =>
      have hportabel := classifyAll_eq_ok.mp hall
      have hleer : (leer kernelHash progress nonce epoch).capCount = 0 := rfl
      have hsammeln := @einsammeln_eq_ok scope kinds 0 (leer kernelHash progress nonce epoch)
        img (Nat.zero_le _)
      rw [hleer, Nat.zero_add] at hsammeln
      rw [leer] at hsammeln ⊢
      simpa [hportabel] using hsammeln

end Image

/-- Other numbers for the same things.  Identifiers stay apart; of a physical address nothing
is asked. -/
structure Umbenennung where
  slot : ℕ ↪ ℕ
  object : ℕ ↪ ℕ
  thread : ℕ ↪ ℕ
  pd : ℕ ↪ ℕ
  endpoint : ℕ ↪ ℕ
  notification : ℕ ↪ ℕ
  basis : ℕ → ℕ

namespace Umbenennung

variable (ρ : Umbenennung)

def region (r : PhysRegion) : PhysRegion := ⟨ρ.basis r.base, r.len⟩

def kind : ObjectKind → ObjectKind
  | .memory r => .memory (ρ.region r)
  | .endpoint id => .endpoint (ρ.endpoint id)
  | .tcb raw => .tcb (ρ.thread raw)
  | .notification id => .notification (ρ.notification id)
  | .schedContext budget period => .schedContext budget period
  | .reply ep caller => .reply (ρ.endpoint ep) (ρ.thread caller)
  | .pdControl pd => .pdControl (ρ.pd pd)
  | .loader source => .loader source
  | .mmio phys len => .mmio (ρ.basis phys) len
  | .irq intid => .irq intid
  | .dma phys len dir coherence => .dma (ρ.basis phys) len dir coherence
  | .syscallHandler ep pd sidecar len =>
      .syscallHandler (ρ.endpoint ep) (ρ.pd pd) (ρ.basis sidecar) len
  | .faultHandler ep pd sidecar len =>
      .faultHandler (ρ.endpoint ep) (ρ.pd pd) (ρ.basis sidecar) len
  | .debuggable pd => .debuggable (ρ.pd pd)

def kinds (l : List (Option ObjectKind)) : List (Option ObjectKind) := l.map (Option.map ρ.kind)

def scope (s : Scope) : Scope :=
  ⟨s.endpoints.map ρ.endpoint, s.notifications.map ρ.notification, s.threads.map ρ.thread,
    s.pds.map ρ.pd⟩

def channel : Channel → Channel
  | .endpoint id => .endpoint (ρ.endpoint id)
  | .notification id => .notification (ρ.notification id)

def edge (e : Edge) : Edge := ⟨ρ.channel e.channel, ρ.thread e.thread, e.role⟩

end Umbenennung

theorem position_map (f : ℕ ↪ ℕ) (l : List Nat) (x : Nat) :
    position (l.map f) (f x) = position l x := by
  have hf : ((fun y => y == f x) ∘ f) = fun y => y == x := by
    funext y
    simp
  rw [position, position, List.findIdx?_map, hf]

theorem contains_map (f : ℕ ↪ ℕ) (l : List Nat) (x : Nat) :
    (l.map f).contains (f x) = l.contains x := by
  simp

theorem classify_umbenannt (ρ : Umbenennung) (k : ObjectKind) (scope : Scope) :
    classify (ρ.kind k) (ρ.scope scope) = classify k scope := by
  cases k with
  | endpoint id | notification id | tcb raw =>
    simp [classify, Umbenennung.kind, Umbenennung.scope, position_map]
  | _ => rfl

theorem stimmig_umbenannt (ρ : Umbenennung) (subject : Nat) (scope : Scope) (e : Edge) :
    (ρ.edge e).Stimmig (ρ.thread subject) (ρ.scope scope) ↔ e.Stimmig subject scope := by
  have hthread : threadInScope (ρ.thread e.thread) (ρ.thread subject) (ρ.scope scope) =
      threadInScope e.thread subject scope := by
    have heq : (ρ.thread e.thread == ρ.thread subject) = (e.thread == subject) := by
      by_cases h : e.thread = subject <;> simp [h]
    simp only [threadInScope, Umbenennung.scope, contains_map, heq]
  have hchannel : channelInScope (ρ.channel e.channel) (ρ.scope scope) =
      channelInScope e.channel scope := by
    cases e.channel with
    | endpoint id => exact contains_map ρ.endpoint scope.endpoints id
    | notification id => exact contains_map ρ.notification scope.notifications id
  simp only [Edge.Stimmig, Umbenennung.edge, hthread, hchannel]

theorem allePortabel_umbenannt (ρ : Umbenennung) (scope : Scope)
    (kinds : List (Option ObjectKind)) :
    AllePortabel (ρ.scope scope) (ρ.kinds kinds) ↔ AllePortabel scope kinds := by
  simp [AllePortabel, Umbenennung.kinds, classify_umbenannt]

theorem uebertragbare_umbenannt (ρ : Umbenennung) (scope : Scope)
    (kinds : List (Option ObjectKind)) :
    uebertragbare (ρ.scope scope) (ρ.kinds kinds) = uebertragbare scope kinds := by
  induction kinds with
  | nil => rfl
  | cons k kinds ih =>
    cases k with
    | none => exact ih
    | some k =>
      simp only [Umbenennung.kinds, uebertragbare, List.map_cons, List.filterMap_cons,
        Option.map_some, classify_umbenannt] at ih ⊢
      rw [ih]

theorem Image.build_umbenannt (ρ : Umbenennung) {kernelHash : Vector UInt8 32}
    {progress nonce epoch : UInt64} {kinds : List (Option ObjectKind)} {scope : Scope}
    {subject : Nat} {edges edges' : List Edge} (hedges : edges'.Perm (edges.map ρ.edge))
    (img : Image) :
    build kernelHash progress nonce epoch (ρ.kinds kinds) (ρ.scope scope) (ρ.thread subject)
        edges' = .ok img ↔
      build kernelHash progress nonce epoch kinds scope subject edges = .ok img := by
  have hcut : (∀ e ∈ edges', e.Stimmig (ρ.thread subject) (ρ.scope scope)) ↔
      ∀ e ∈ edges, e.Stimmig subject scope := by
    simp only [hedges.mem_iff, List.forall_mem_map, stimmig_umbenannt]
  rw [build_eq_ok_iff, build_eq_ok_iff, allePortabel_umbenannt, uebertragbare_umbenannt, hcut]

end Checkpoint

open Checkpoint

namespace Checkpoint.Umbenennung

variable (ρ : Umbenennung)

def mdb (m : Mdb) : Mdb :=
  ⟨m.parent.map ρ.slot, m.firstChild.map ρ.slot, m.nextSibling.map ρ.slot,
    m.prevSibling.map ρ.slot⟩

/-- The slot under other numbers.  Its generation counts the reuses of one table and is the
other machine's own. -/
def capSlot (gen : Nat) (c : CapSlot) : CapSlot :=
  ⟨c.used, gen, ρ.object c.object, c.rights, c.badge, c.subregion.map ρ.region, ρ.mdb c.mdb⟩

def objekt (gen : Nat) (o : Object) : Object := ⟨o.used, ρ.kind o.kind, o.refcount, gen⟩

end Checkpoint.Umbenennung

/-- `t` is `s` under other numbers: the used slots correspond, with their objects, windows
and links. -/
structure CapSpace.Isomorph (ρ : Umbenennung) (s t : CapSpace) : Prop where
  used : ∀ i, (ρ.slot i < t.slots.len ∧ t.Used (ρ.slot i)) ↔ (i < s.slots.len ∧ s.Used i)
  alle : ∀ j < t.slots.len, t.Used j → ∃ i, ρ.slot i = j
  slot : ∀ i < s.slots.len, s.Used i →
    t.slots.cell (ρ.slot i) = ρ.capSlot (t.slots.cell (ρ.slot i)).gen (s.slots.cell i)
  objekt : ∀ i < s.slots.len, s.Used i →
    t.objects.cell (ρ.object (s.slots.cell i).object) =
      ρ.objekt (t.objects.cell (ρ.object (s.slots.cell i).object)).gen
        (s.objects.cell (s.slots.cell i).object)

/-- `q` names in `t` what `p` names in `s`: the slot corresponds, and one handle is current
exactly if the other is. -/
structure CapSpace.Entspricht (ρ : Umbenennung) (s t : CapSpace) (p q : CapPtr) : Prop where
  slot : q.slot = ρ.slot p.slot
  gen : (t.slots.cell q.slot).gen = q.gen ↔ (s.slots.cell p.slot).gen = p.gen

namespace CapSpace

variable {ρ : Umbenennung} {s t : CapSpace}

theorem Isomorph.kindOfSlot (h : s.Isomorph ρ t) {i : Nat} (hi : i < s.slots.len)
    (hused : s.Used i) : t.kindOfSlot (ρ.slot i) = ρ.kind (s.kindOfSlot i) := by
  have hslot := h.slot i hi hused
  have hkind := congrArg Object.kind (h.objekt i hi hused)
  unfold CapSpace.kindOfSlot
  rw [hslot]
  simp only [Umbenennung.capSlot, hkind, Umbenennung.objekt]
  cases (s.objects.cell (s.slots.cell i).object).kind with
  | memory r => cases (s.slots.cell i).subregion <;> rfl
  | _ => rfl

/-- Corresponding handles are refused together, or name the same rights and the same badge
on corresponding kinds. -/
theorem Isomorph.lookup (h : s.Isomorph ρ t) {p q : CapPtr} (hpq : Entspricht ρ s t p q) :
    t.lookup q = (s.lookup p).map fun (k, rights, badge) => (ρ.kind k, rights, badge) := by
  have hgen := hpq.gen
  have hused := h.used p.slot
  rw [← hpq.slot] at hused
  by_cases hp : p.slot < s.slots.len ∧ s.Used p.slot ∧ (s.slots.cell p.slot).gen = p.gen
  · have hq : q.slot < t.slots.len ∧ t.Used q.slot ∧ (t.slots.cell q.slot).gen = q.gen :=
      ⟨(hused.mpr ⟨hp.1, hp.2.1⟩).1, (hused.mpr ⟨hp.1, hp.2.1⟩).2, hgen.mpr hp.2.2⟩
    have hresp : s.resolve p = .ok p.slot := if_pos hp
    have hresq : t.resolve q = .ok q.slot := if_pos hq
    have hslot := h.slot p.slot hp.1 hp.2.1
    rw [CapSpace.lookup, CapSpace.lookup, hresp, hresq, hpq.slot]
    simp only [Option.map_some, h.kindOfSlot hp.1 hp.2.1]
    rw [hslot]
    rfl
  · have hq : ¬ (q.slot < t.slots.len ∧ t.Used q.slot ∧ (t.slots.cell q.slot).gen = q.gen) := by
      rintro ⟨hlt, hu, hg⟩
      exact hp ⟨(hused.mp ⟨hlt, hu⟩).1, (hused.mp ⟨hlt, hu⟩).2, hgen.mp hg⟩
    have hresp : s.resolve p = .error .invalid := if_neg hp
    have hresq : t.resolve q = .error .invalid := if_neg hq
    rw [CapSpace.lookup, CapSpace.lookup, hresp, hresq]
    rfl

end CapSpace

end Caprock.Cap
