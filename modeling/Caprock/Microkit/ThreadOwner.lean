import Caprock.Microkit.Grant

/-! # From a thread to its domain

The owner table answers for every thread slot which domain the thread belongs to.  Freeing a
domain does not walk through it: the generation of the entry goes up, and whatever was bound to
the earlier occupant no longer matches.  The number of threads of a domain is counted at once.

`bind_thread` does not ask whether the domain is in use.  A binding to a free entry carries the
generation of the next occupant and comes to life with it, uncounted.

The journal beside the table records every binding with the incarnation it was made to.
-/

namespace Caprock.Microkit

open Execution

/-- `ThreadOwner`; the source keeps the thread packed and the domain shifted by one. -/
structure ThreadOwner where
  tid : ThreadId
  pd1 : Nat
  epoch : Nat
  deriving DecidableEq, Repr

def ThreadOwner.empty : ThreadOwner := ⟨⟨0, 0⟩, 0, 0⟩

def ThreadOwner.gehoert (pd epoch : Nat) (e : ThreadOwner) : Bool :=
  e.pd1 == (pd + 1) % 2 ^ 32 && e.epoch == epoch

/-- `PdTable` with the owner table. -/
structure PdIndex where
  tabelle : PdTable
  owner : Slab ThreadOwner

namespace PdIndex

/-- Every table attached; `nown` is the number of thread slots of the system. -/
def attached (npd npool nown : Nat) : PdIndex :=
  ⟨PdTable.attached npd npool, Slab.attach nown fun _ => ThreadOwner.empty⟩

/-- The domain of an overwritten entry loses a thread, if it is still the same occupant. -/
def abmelden (pds : Slab Pd) (alt : ThreadOwner) : Slab Pd :=
  if alt.pd1 ≠ 0 ∧ alt.pd1 - 1 < pds.len ∧ (pds.cell (alt.pd1 - 1)).epoch = alt.epoch ∧
      0 < (pds.cell (alt.pd1 - 1)).nthreads then
    pds.modify (alt.pd1 - 1) fun p => { p with nthreads := p.nthreads - 1 }
  else pds

def vertreten (pds : Slab Pd) (pd : Nat) (thread : ThreadId) : Slab Pd :=
  if (pds.cell pd).thread = none then pds.modify pd fun p => { p with thread := some thread }
  else pds

def bindThread (x : PdIndex) (pd : Nat) (thread : ThreadId) : PdIndex :=
  if x.tabelle.pds.len ≤ pd then x
  else if thread.slot < x.owner.len then
    let pds := abmelden x.tabelle.pds (x.owner.cell thread.slot)
    let owner := x.owner.set thread.slot ⟨thread, (pd + 1) % 2 ^ 32, (pds.cell pd).epoch⟩
    let pds := pds.modify pd fun p => { p with nthreads := (p.nthreads + 1) % 2 ^ 32 }
    ⟨{ x.tabelle with pds := vertreten pds pd thread }, owner⟩
  else { x with tabelle := { x.tabelle with pds := vertreten x.tabelle.pds pd thread } }

/-- `pd_of`: the owner table decides, a system without one searches the representatives. -/
def pdOf (x : PdIndex) (thread : ThreadId) : Option Nat :=
  if x.owner.len ≠ 0 then
    if x.owner.len ≤ thread.slot then none
    else
      let e := x.owner.cell thread.slot
      if e.pd1 = 0 ∨ e.tid ≠ thread then none
      else if x.tabelle.isUsed (e.pd1 - 1) ∧ (x.tabelle.pds.cell (e.pd1 - 1)).epoch = e.epoch then
        some (e.pd1 - 1)
      else none
  else x.tabelle.pds.position fun p => p.used && p.thread == some thread

def threadCount (x : PdIndex) (pd : Nat) : Nat :=
  if x.tabelle.isUsed pd then (x.tabelle.pds.cell pd).nthreads else 0

def anyThread (x : PdIndex) (pd : Nat) (praedikat : ThreadId → Bool) : Bool :=
  if x.tabelle.isUsed pd then
    if x.owner.len = 0 then (x.tabelle.pds.cell pd).thread.any praedikat
    else (List.range x.owner.len).any fun s =>
      (x.owner.cell s).gehoert pd (x.tabelle.pds.cell pd).epoch && praedikat (x.owner.cell s).tid
  else false

def anyThreadOf (x : PdIndex) (pd : Nat) : Option ThreadId :=
  if x.tabelle.isUsed pd then
    if x.owner.len = 0 then (x.tabelle.pds.cell pd).thread
    else
      (x.owner.position fun e => e.gehoert pd (x.tabelle.pds.cell pd).epoch).map fun s =>
        (x.owner.cell s).tid
  else none

end PdIndex

namespace PdTable

/-- The free entry `i` came into use with its old generation and no thread. -/
structure Frisch (t t' : PdTable) (i : Nat) : Prop where
  len : t'.pds.len = t.pds.len
  lt : i < t.pds.len
  frei : (t.pds.cell i).used = false
  used : (t'.pds.cell i).used = true
  thread : (t'.pds.cell i).thread = none
  nthreads : (t'.pds.cell i).nthreads = 0
  epoch : (t'.pds.cell i).epoch = (t.pds.cell i).epoch
  eintrag : ∀ k, k ≠ i → NurLauf (t.pds.cell k) (t'.pds.cell k)

/-- The live entry `i` was given up and its generation went up. -/
structure Beendet (t t' : PdTable) (i : Nat) : Prop where
  len : t'.pds.len = t.pds.len
  used : t.isUsed i
  eintrag_self : t'.pds.cell i =
    { Pd.empty with epoch := ((t.pds.cell i).epoch + 1) % 2 ^ 32 }
  eintrag : ∀ k, k ≠ i → t'.pds.cell k = t.pds.cell k

theorem Belegt.frisch {t t' : PdTable} {n i : Nat} {p : Pd} {pds : Slab Pd}
    {r : Except CspaceAbweisung (Nat × Nat)} {v : Vergabe} (h : t.Belegt n r v pds)
    (hslot : t.freienSlotSuchen = some i) (hpds : t'.pds = pds.set i p) (hused : p.used = true)
    (hthread : p.thread = none) (hn : p.nthreads = 0) (hepoch : p.epoch = (pds.cell i).epoch) :
    t.Frisch t' i := by
  obtain ⟨hi, hfree⟩ := freienSlotSuchen_eq_some hslot
  obtain ⟨start, len, hcell⟩ := h.eintrag i
  have hself : t'.pds.cell i = p := by rw [hpds, Slab.set_cell_self]
  refine ⟨by rw [hpds, Slab.set_len, h.len], hi, hfree, by rw [hself, hused],
    by rw [hself, hthread], by rw [hself, hn], by rw [hself, hepoch, hcell], fun k hk => ?_⟩
  rw [hpds, Slab.set_cell_of_ne _ hk]
  exact h.eintrag k

theorem Angelegt.frisch {t t' : PdTable} {op : Op} (ha : t.Angelegt op t') (h : t.Kurz) :
    t.Unveraendert t' ∨ ∃ i, t.Frisch t' i := by
  cases ha with
  | gleich _ hpds => exact .inl (.of_pds h hpds)
  | ohneLauf _ hn _ hbel =>
    obtain ⟨r', v, pds, hbel', hb⟩ := h.belegen hn
    cases hbel.symm.trans hbel'
    exact .inl hb.unveraendert
  | mitLauf _ hn _ hbel hslot hpds hneu =>
    obtain ⟨r', v, pds, hbel', hb⟩ := h.belegen hn
    cases hbel.symm.trans hbel'
    exact .inr ⟨_, hb.frisch hslot hpds hneu.used hneu.thread hneu.nthreads hneu.epoch⟩

theorem free_beendet {t t' : PdTable} {pd : Nat} {r : Bool} (heq : t.free pd = some (r, t')) :
    t' = t ∨ t.Beendet t' pd := by
  unfold free at heq
  by_cases hused : t.isUsed pd
  · have hlt : pd < t.pds.len := hused.1
    simp only [if_pos hused, Vergabe.freigeben, AnkerAblage.lese, Slab.get, if_pos hlt,
      Option.map_some, AnkerAblage.schreibe, Option.some.injEq, Prod.mk.injEq] at heq
    obtain ⟨-, rfl⟩ := heq
    refine .inr ⟨rfl, hused, Slab.set_cell_self _ _ _, fun k hk => ?_⟩
    rw [Slab.set_cell_of_ne _ hk, Slab.modify_cell_of_ne _ hk]
  · rw [if_neg hused] at heq
    cases heq
    exact .inl rfl

theorem step_wandel {t : PdTable} (h : t.Kurz) (op : Op) :
    ∃ t', t.step op = some t' ∧ t'.Kurz ∧ (t.Unveraendert t' ∨ (∃ i, t.Frisch t' i) ∨
      ∃ i, op = .free i ∧ t.Beendet t' i) := by
  cases op with
  | create domain budget plaetze =>
    obtain ⟨r, t', heq, hkurz, -⟩ := create_spec h domain budget plaetze
    have hstep : t.step (.create domain budget plaetze) = some t' := by rw [step, heq]; rfl
    exact ⟨t', hstep, hkurz, ((angelegt_create hstep).frisch h).imp_right .inl⟩
  | createHardwareBackend partner backendId ep ntfn =>
    obtain ⟨r, t', heq, hkurz, -⟩ := createHardwareBackend_spec h partner backendId ep ntfn
    have hstep : t.step (.createHardwareBackend partner backendId ep ntfn) = some t' := by
      rw [step, heq]
      rfl
    exact ⟨t', hstep, hkurz, ((angelegt_createHardwareBackend hstep).frisch h).imp_right .inl⟩
  | free pd =>
    obtain ⟨r, t', heq, hkurz, -⟩ := free_spec h pd
    refine ⟨t', by rw [step, heq]; rfl, hkurz, ?_⟩
    obtain rfl | hb := free_beendet heq
    · exact .inl (.of_pds h rfl)
    · exact .inr (.inr ⟨pd, rfl, hb⟩)
  | setBudgetDeckel deckel => exact ⟨_, rfl, h.congr rfl rfl, .inl (.of_pds h rfl)⟩
  | installCap pd slot cap =>
    obtain ⟨cell, heq⟩ := t.poolSchreiben_eq pd slot (some cap)
    refine ⟨_, rfl, ?_, .inl ?_⟩ <;> rw [installCap, heq]
    · exact h.congr rfl rfl
    · exact .of_pds h rfl
  | clearCap pd slot =>
    obtain ⟨cell, heq⟩ := t.poolSchreiben_eq pd slot none
    refine ⟨_, rfl, ?_, .inl ?_⟩ <;> rw [clearCap, heq]
    · exact h.congr rfl rfl
    · exact .of_pds h rfl

end PdTable

/-- A binding: the thread, the domain, and which incarnation of the domain was meant. -/
structure Zuordnung where
  thread : ThreadId
  pd : Nat
  inkarnation : Option Nat
  deriving DecidableEq, Repr

/-- The tables with their history: how often each entry came into use and was given up, and all
bindings, newest first. -/
structure Bindebuch where
  index : PdIndex
  geburten : Nat → Nat
  freigaben : Nat → Nat
  bindungen : List Zuordnung

namespace Bindebuch

def attached (npd npool nown : Nat) : Bindebuch :=
  ⟨PdIndex.attached npd npool nown, fun _ => 0, fun _ => 0, []⟩

def inkarnation (b : Bindebuch) (pd : Nat) : Option Nat :=
  if b.index.tabelle.isUsed pd then some (b.geburten pd) else none

/-- The newest binding of a thread slot; a later thread in the slot undoes the binding of the
earlier one. -/
def letzte (b : Bindebuch) (slot : Nat) : Option Zuordnung :=
  b.bindungen.find? fun x => x.thread.slot == slot

/-- The newest binding of `t` was to the present incarnation of `pd`. -/
def Gilt (b : Bindebuch) (t : ThreadId) (pd : Nat) : Prop :=
  ∃ i, b.inkarnation pd = some i ∧ b.letzte t.slot = some ⟨t, pd, some i⟩

inductive Op where
  | tabelle (op : PdTable.Op)
  | bindThread (pd : Nat) (thread : ThreadId)

def nachtragen (b : Bindebuch) (t' : PdTable) : Bindebuch where
  index := { b.index with tabelle := t' }
  geburten k := b.geburten k + if ¬ b.index.tabelle.isUsed k ∧ t'.isUsed k then 1 else 0
  freigaben k := b.freigaben k + if b.index.tabelle.isUsed k ∧ ¬ t'.isUsed k then 1 else 0
  bindungen := b.bindungen

def binden (b : Bindebuch) (pd : Nat) (thread : ThreadId) : Bindebuch :=
  { b with
    index := b.index.bindThread pd thread
    bindungen := ⟨thread, pd, b.inkarnation pd⟩ :: b.bindungen }

/-- A binding to an entry that does not exist is ignored. -/
def step (b : Bindebuch) : Op → Option Bindebuch
  | .tabelle op => (b.index.tabelle.step op).map b.nachtragen
  | .bindThread pd thread =>
      if b.index.tabelle.pds.len ≤ pd then some b else some (b.binden pd thread)

/-- No entry is given up `2 ^ 32` times; a binding names a domain in use, and its thread has a
place in the owner table. -/
def OpOk (b : Bindebuch) : Op → Prop
  | .tabelle (.free pd) => b.index.tabelle.isUsed pd → b.freigaben pd + 1 < 2 ^ 32
  | .tabelle _ => True
  | .bindThread pd thread => pd < b.index.tabelle.pds.len →
      b.index.tabelle.isUsed pd ∧ thread.slot < b.index.owner.len

instance (b : Bindebuch) : ∀ op, Decidable (b.OpOk op)
  | .tabelle (.free pd) =>
      inferInstanceAs (Decidable (b.index.tabelle.isUsed pd → b.freigaben pd + 1 < 2 ^ 32))
  | .tabelle (.create _ _ _) => isTrue trivial
  | .tabelle (.createHardwareBackend _ _ _ _) => isTrue trivial
  | .tabelle (.setBudgetDeckel _) => isTrue trivial
  | .tabelle (.installCap _ _ _) => isTrue trivial
  | .tabelle (.clearCap _ _) => isTrue trivial
  | .bindThread pd thread => inferInstanceAs (Decidable (pd < b.index.tabelle.pds.len →
      b.index.tabelle.isUsed pd ∧ thread.slot < b.index.owner.len))

/-- The reverse index agrees with the journal. -/
structure Stimmt (b : Bindebuch) : Prop where
  pdOf : ∀ t pd, b.index.pdOf t = some pd ↔ b.Gilt t pd
  threadCount : ∀ pd, ∃ ts : List ThreadId, ts.Nodup ∧ (∀ t, t ∈ ts ↔ b.Gilt t pd) ∧
    b.index.threadCount pd = ts.length
  anyThread : ∀ pd praedikat,
    b.index.anyThread pd praedikat = true ↔ ∃ t, b.Gilt t pd ∧ praedikat t = true
  anyThreadOf_some : ∀ pd t, b.index.anyThreadOf pd = some t → b.Gilt t pd
  anyThreadOf_none : ∀ pd, b.index.anyThreadOf pd = none → ∀ t, ¬ b.Gilt t pd

/-- What stands in the owner table for a slot whose newest binding is `x`. -/
def Passt (b : Bindebuch) (e : ThreadOwner) : Option Zuordnung → Prop
  | none => e.pd1 = 0
  | some x => x.pd < b.index.tabelle.pds.len ∧ ∃ n, x.inkarnation = some (n + 1) ∧
      n < b.geburten x.pd ∧ e = ⟨x.thread, x.pd + 1, n⟩

structure Buchung (b : Bindebuch) (k : Nat) : Prop where
  geburten : b.geburten k = b.freigaben k + (b.index.tabelle.pds.cell k).used.toNat
  epoch : (b.index.tabelle.pds.cell k).epoch = b.freigaben k
  epoch_lt : b.freigaben k < 2 ^ 32
  nthreads : (b.index.tabelle.pds.cell k).nthreads =
    b.index.owner.count (ThreadOwner.gehoert k (b.index.tabelle.pds.cell k).epoch)

structure Inv (b : Bindebuch) : Prop where
  kurz : b.index.tabelle.Kurz
  pds_lt : b.index.tabelle.pds.len < 2 ^ 32
  owner_lt : b.index.owner.len < 2 ^ 32
  buchung : ∀ k, k < b.index.tabelle.pds.len → b.Buchung k
  eintrag : ∀ s, s < b.index.owner.len → b.Passt (b.index.owner.cell s) (b.letzte s)
  jenseits : ∀ s, b.index.owner.len ≤ s → b.letzte s = none
  leer : b.index.owner.len = 0 → ∀ k, (b.index.tabelle.pds.cell k).thread = none

variable {b : Bindebuch}

theorem attached_inv {npd npool nown : Nat} (hpd : npd < 2 ^ 32) (hown : nown < 2 ^ 32) :
    (attached npd npool nown).Inv where
  kurz := PdTable.attached_kurz npd npool
  pds_lt := hpd
  owner_lt := hown
  buchung k hk := by
    have hk' : k < npd := hk
    refine ⟨rfl, rfl, by simp [attached], ?_⟩
    symm
    simp [attached, PdIndex.attached, PdTable.attached, Pd.empty, Slab.count, ThreadOwner.gehoert,
      ThreadOwner.empty]
    omega
  eintrag s _ := by simp [attached, PdIndex.attached, letzte, Passt, ThreadOwner.empty]
  jenseits s _ := rfl
  leer _ k := by simp [attached, PdIndex.attached, PdTable.attached, Pd.empty]

theorem Buchung.inkarnation_iff {k n : Nat} (h : b.Buchung k)
    (hk : k < b.index.tabelle.pds.len) :
    b.inkarnation k = some (n + 1) ↔
      (b.index.tabelle.pds.cell k).used = true ∧ (b.index.tabelle.pds.cell k).epoch = n := by
  have hgeburten := h.geburten
  have hepoch := h.epoch
  unfold inkarnation PdTable.isUsed
  by_cases hused : (b.index.tabelle.pds.cell k).used = true
  · rw [hused, Bool.toNat_true] at hgeburten
    simp only [hk, hused, and_self, if_true, Option.some.injEq, true_and]
    omega
  · simp [hused]

theorem letzte_slot {s : Nat} {x : Zuordnung} (h : b.letzte s = some x) : x.thread.slot = s := by
  simpa using List.find?_some h

theorem Inv.gehoert_iff (h : b.Inv) {s k : Nat} (hs : s < b.index.owner.len)
    (hk : b.index.tabelle.isUsed k) :
    (b.index.owner.cell s).gehoert k (b.index.tabelle.pds.cell k).epoch = true ↔
      (b.index.owner.cell s).tid.slot = s ∧ b.Gilt (b.index.owner.cell s).tid k := by
  have hpds := h.pds_lt
  have hklt := hk.1
  have hpasst := h.eintrag s hs
  unfold ThreadOwner.gehoert Gilt
  rw [Bool.and_eq_true, beq_iff_eq, beq_iff_eq, Nat.mod_eq_of_lt (by omega)]
  cases hx : b.letzte s with
  | none =>
    rw [hx] at hpasst
    constructor
    · rintro ⟨hpd, -⟩
      rw [hpasst] at hpd
      cases hpd
    · rintro ⟨hslot, i, -, hbund⟩
      rw [hslot, hx] at hbund
      cases hbund
  | some x =>
    rw [hx] at hpasst
    obtain ⟨hxlt, n, hink, hn, hcell⟩ := hpasst
    have hslot := letzte_slot hx
    have hbuchung := (h.buchung x.pd hxlt).inkarnation_iff hxlt (n := n)
    rw [hcell]
    constructor
    · rintro ⟨hpd, hepoch⟩
      obtain rfl : x.pd = k := by
        have hpd' : x.pd + 1 = k + 1 := hpd
        omega
      refine ⟨hslot, n + 1, hbuchung.mpr ⟨hk.2, hepoch.symm⟩, ?_⟩
      rw [hslot, hx, ← hink]
    · rintro ⟨-, i, hi, hbund⟩
      rw [hslot, hx, Option.some.injEq] at hbund
      have hpd : x.pd = k := congrArg Zuordnung.pd hbund
      have hi' : x.inkarnation = some i := congrArg Zuordnung.inkarnation hbund
      rw [← hi', hink, ← hpd] at hi
      rw [← hpd]
      exact ⟨rfl, (hbuchung.mp hi).2.symm⟩

theorem Inv.pdOf_iff (h : b.Inv) (t : ThreadId) (pd : Nat) :
    b.index.pdOf t = some pd ↔ b.Gilt t pd := by
  unfold PdIndex.pdOf
  by_cases hlen : b.index.owner.len = 0
  · rw [if_neg (by simpa using hlen)]
    constructor
    · intro hpos
      have hp := (Slab.position_eq_some hpos).2
      simp [h.leer hlen pd] at hp
    · rintro ⟨i, -, hbund⟩
      rw [h.jenseits t.slot (by omega)] at hbund
      cases hbund
  · rw [if_pos hlen]
    by_cases hs : t.slot < b.index.owner.len
    · rw [if_neg (by omega)]
      have hpasst := h.eintrag t.slot hs
      unfold Gilt
      cases hx : b.letzte t.slot with
      | none =>
        rw [hx] at hpasst
        have hzero : (b.index.owner.cell t.slot).pd1 = 0 := hpasst
        simp [hzero]
      | some x =>
        rw [hx] at hpasst
        obtain ⟨hxlt, n, hink, hn, hcell⟩ := hpasst
        have hbuchung := (h.buchung x.pd hxlt).inkarnation_iff hxlt (n := n)
        rw [hcell]
        by_cases ht : x.thread = t
        · subst ht
          simp only [Nat.add_eq_zero_iff, Nat.one_ne_zero, and_false, ne_eq, not_true_eq_false,
            or_self, if_false, Nat.add_sub_cancel]
          constructor
          · intro hpd
            split at hpd
            · next hlebt =>
              cases hpd
              exact ⟨n + 1, hbuchung.mpr ⟨hlebt.1.2, hlebt.2⟩, by rw [← hink]⟩
            · cases hpd
          · rintro ⟨i, hi, hbund⟩
            rw [Option.some.injEq] at hbund
            have hpd : x.pd = pd := congrArg Zuordnung.pd hbund
            have hi' : x.inkarnation = some i := congrArg Zuordnung.inkarnation hbund
            rw [← hi', hink, ← hpd] at hi
            have hlebt := hbuchung.mp hi
            rw [if_pos ⟨⟨hxlt, hlebt.1⟩, hlebt.2⟩, hpd]
        · constructor
          · intro hpd
            simp [ht] at hpd
          · rintro ⟨i, hi, hbund⟩
            exact absurd (congrArg Zuordnung.thread (Option.some.inj hbund)) ht
    · rw [if_pos (by omega)]
      constructor
      · intro hpd
        cases hpd
      · rintro ⟨i, -, hbund⟩
        rw [h.jenseits t.slot (by omega)] at hbund
        cases hbund

theorem Inv.cell_of_gilt (h : b.Inv) {t : ThreadId} {pd : Nat} (hg : b.Gilt t pd) :
    b.index.tabelle.isUsed pd ∧ t.slot < b.index.owner.len ∧
      (b.index.owner.cell t.slot).tid = t := by
  obtain ⟨i, hi, hbund⟩ := hg
  have hused : b.index.tabelle.isUsed pd := by
    by_contra hnot
    rw [inkarnation, if_neg hnot] at hi
    cases hi
  have hs : t.slot < b.index.owner.len := by
    by_contra hge
    rw [h.jenseits t.slot (by omega)] at hbund
    cases hbund
  have hpasst := h.eintrag t.slot hs
  rw [hbund] at hpasst
  obtain ⟨-, n, -, -, hcell⟩ := hpasst
  exact ⟨hused, hs, by rw [hcell]⟩

theorem Inv.gehoert_of_gilt (h : b.Inv) {t : ThreadId} {pd : Nat} (hg : b.Gilt t pd) :
    (b.index.owner.cell t.slot).gehoert pd (b.index.tabelle.pds.cell pd).epoch = true := by
  obtain ⟨hused, hs, htid⟩ := h.cell_of_gilt hg
  exact (h.gehoert_iff hs hused).mpr ⟨by rw [htid], by rwa [htid]⟩

theorem Inv.threadCount (h : b.Inv) (pd : Nat) : ∃ ts : List ThreadId, ts.Nodup ∧
    (∀ t, t ∈ ts ↔ b.Gilt t pd) ∧ b.index.threadCount pd = ts.length := by
  by_cases hused : b.index.tabelle.isUsed pd
  · let lebt := fun s =>
      (b.index.owner.cell s).gehoert pd (b.index.tabelle.pds.cell pd).epoch
    refine ⟨((List.range b.index.owner.len).filter lebt).map fun s => (b.index.owner.cell s).tid,
      ?_, fun t => ?_, ?_⟩
    · -- A thread stands at its own slot, so no thread stands at two places.
      apply List.Nodup.map_on _ (List.nodup_range.filter lebt)
      intro s hs s' hs' heq
      rw [List.mem_filter, List.mem_range] at hs hs'
      have hslot := ((h.gehoert_iff hs.1 hused).mp hs.2).1
      have hslot' := ((h.gehoert_iff hs'.1 hused).mp hs'.2).1
      rw [← hslot, heq, hslot']
    · simp only [List.mem_map, List.mem_filter, List.mem_range]
      constructor
      · rintro ⟨s, ⟨hs, hlebt⟩, rfl⟩
        exact ((h.gehoert_iff hs hused).mp hlebt).2
      · intro hg
        obtain ⟨-, hs, htid⟩ := h.cell_of_gilt hg
        exact ⟨t.slot, ⟨hs, h.gehoert_of_gilt hg⟩, htid⟩
    · rw [List.length_map, PdIndex.threadCount, if_pos hused, (h.buchung pd hused.1).nthreads,
        Slab.count, List.countP_eq_length_filter]
  · refine ⟨[], List.nodup_nil, fun t => ?_, by rw [PdIndex.threadCount, if_neg hused]; rfl⟩
    simp only [List.not_mem_nil, false_iff]
    exact fun hg => hused (h.cell_of_gilt hg).1

theorem Inv.anyThread_iff (h : b.Inv) (pd : Nat) (praedikat : ThreadId → Bool) :
    b.index.anyThread pd praedikat = true ↔ ∃ t, b.Gilt t pd ∧ praedikat t = true := by
  unfold PdIndex.anyThread
  by_cases hused : b.index.tabelle.isUsed pd
  · rw [if_pos hused]
    by_cases hlen : b.index.owner.len = 0
    · rw [if_pos hlen, h.leer hlen pd]
      simp only [Option.any_none, Bool.false_eq_true, false_iff, not_exists, not_and]
      intro t hg
      have hs := (h.cell_of_gilt hg).2.1
      omega
    · rw [if_neg hlen, List.any_eq_true]
      constructor
      · rintro ⟨s, hs, hlebt⟩
        rw [Bool.and_eq_true] at hlebt
        exact ⟨_, ((h.gehoert_iff (List.mem_range.mp hs) hused).mp hlebt.1).2, hlebt.2⟩
      · rintro ⟨t, hg, hp⟩
        obtain ⟨-, hs, htid⟩ := h.cell_of_gilt hg
        refine ⟨t.slot, List.mem_range.mpr hs, ?_⟩
        rw [h.gehoert_of_gilt hg, htid, hp]
        rfl
  · rw [if_neg hused]
    simp only [Bool.false_eq_true, false_iff, not_exists, not_and]
    intro t hg
    exact absurd (h.cell_of_gilt hg).1 hused

theorem Inv.anyThreadOf_some (h : b.Inv) {pd : Nat} {t : ThreadId}
    (ht : b.index.anyThreadOf pd = some t) : b.Gilt t pd := by
  unfold PdIndex.anyThreadOf at ht
  by_cases hused : b.index.tabelle.isUsed pd
  · rw [if_pos hused] at ht
    by_cases hlen : b.index.owner.len = 0
    · rw [if_pos hlen, h.leer hlen pd] at ht
      cases ht
    · rw [if_neg hlen] at ht
      obtain ⟨s, hpos, rfl⟩ := Option.map_eq_some_iff.mp ht
      obtain ⟨hs, hlebt⟩ := Slab.position_eq_some hpos
      exact ((h.gehoert_iff hs hused).mp hlebt).2
  · rw [if_neg hused] at ht
    cases ht

theorem Inv.anyThreadOf_none (h : b.Inv) {pd : Nat} (hnone : b.index.anyThreadOf pd = none)
    (t : ThreadId) : ¬ b.Gilt t pd := by
  intro hg
  obtain ⟨hused, hs, -⟩ := h.cell_of_gilt hg
  rw [PdIndex.anyThreadOf, if_pos hused, if_neg (by omega), Option.map_eq_none_iff] at hnone
  have hfalse := Slab.position_eq_none hnone t.slot hs
  rw [h.gehoert_of_gilt hg] at hfalse
  cases hfalse

theorem Inv.stimmt (h : b.Inv) : b.Stimmt where
  pdOf := h.pdOf_iff
  threadCount := h.threadCount
  anyThread := h.anyThread_iff
  anyThreadOf_some _ _ ht := h.anyThreadOf_some ht
  anyThreadOf_none _ hnone := h.anyThreadOf_none hnone

theorem Inv.count_zero (h : b.Inv) {k e : Nat} (hk : k < b.index.tabelle.pds.len)
    (he : b.geburten k ≤ e) : b.index.owner.count (ThreadOwner.gehoert k e) = 0 := by
  have hpds := h.pds_lt
  rw [Slab.count, List.countP_eq_zero]
  intro s hs hlebt
  have hpasst := h.eintrag s (List.mem_range.mp hs)
  rw [ThreadOwner.gehoert, Bool.and_eq_true, beq_iff_eq, beq_iff_eq,
    Nat.mod_eq_of_lt (by omega)] at hlebt
  cases hx : b.letzte s with
  | none =>
    rw [hx] at hpasst
    rw [hpasst] at hlebt
    cases hlebt.1
  | some x =>
    rw [hx] at hpasst
    obtain ⟨-, n, -, hn, hcell⟩ := hpasst
    rw [hcell] at hlebt
    have hpd : x.pd + 1 = k + 1 := hlebt.1
    have hepoch : n = e := hlebt.2
    obtain rfl : x.pd = k := by omega
    omega

theorem Passt.nachtragen {t' : PdTable} (hlen : t'.pds.len = b.index.tabelle.pds.len)
    {e : ThreadOwner} {o : Option Zuordnung} (h : b.Passt e o) : (b.nachtragen t').Passt e o := by
  cases o with
  | none => exact h
  | some x =>
    obtain ⟨hxlt, n, hink, hn, hcell⟩ := h
    exact ⟨hlen ▸ hxlt, n, hink, Nat.lt_of_lt_of_le hn (Nat.le_add_right _ _), hcell⟩

theorem Buchung.nachtragen {t' : PdTable} (hlen : t'.pds.len = b.index.tabelle.pds.len) {k : Nat}
    (h : b.Buchung k) (hlauf : PdTable.NurLauf (b.index.tabelle.pds.cell k) (t'.pds.cell k)) :
    (b.nachtragen t').Buchung k := by
  obtain ⟨start, len, hcell⟩ := hlauf
  have hused : t'.isUsed k ↔ b.index.tabelle.isUsed k := by
    rw [PdTable.isUsed, PdTable.isUsed, hlen, hcell]
  have hgeb : (b.nachtragen t').geburten k = b.geburten k := by simp [Bindebuch.nachtragen, hused]
  have hfrei : (b.nachtragen t').freigaben k = b.freigaben k := by
    simp [Bindebuch.nachtragen, hused]
  have hzelle : (b.nachtragen t').index.tabelle.pds.cell k = t'.pds.cell k := rfl
  have howner : (b.nachtragen t').index.owner = b.index.owner := rfl
  constructor
  · rw [hgeb, hfrei, hzelle, hcell]
    exact h.geburten
  · rw [hfrei, hzelle, hcell]
    exact h.epoch
  · rw [hfrei]
    exact h.epoch_lt
  · rw [hzelle, howner, hcell]
    exact h.nthreads

theorem Inv.nachtragen (h : b.Inv) {t' : PdTable} (hkurz : t'.Kurz)
    (hlen : t'.pds.len = b.index.tabelle.pds.len)
    (hbuchung : ∀ k, k < b.index.tabelle.pds.len → (b.nachtragen t').Buchung k)
    (hthread : ∀ k, (b.index.tabelle.pds.cell k).thread = none → (t'.pds.cell k).thread = none) :
    (b.nachtragen t').Inv where
  kurz := hkurz
  pds_lt := hlen ▸ h.pds_lt
  owner_lt := h.owner_lt
  buchung k hk := hbuchung k (hlen ▸ hk)
  eintrag s hs := (h.eintrag s hs).nachtragen hlen
  jenseits := h.jenseits
  leer hzero k := hthread k (h.leer hzero k)

theorem NurLauf_thread {p p' : Pd} (h : PdTable.NurLauf p p') : p'.thread = p.thread := by
  obtain ⟨start, len, rfl⟩ := h
  rfl

theorem Inv.unveraendert (h : b.Inv) {t' : PdTable} (hkurz : t'.Kurz)
    (hu : b.index.tabelle.Unveraendert t') : (b.nachtragen t').Inv := by
  refine h.nachtragen hkurz hu.len (fun k hk => (h.buchung k hk).nachtragen hu.len (hu.eintrag k))
    fun k hnone => ?_
  rw [NurLauf_thread (hu.eintrag k), hnone]

theorem Inv.frisch (h : b.Inv) {t' : PdTable} (hkurz : t'.Kurz) {i : Nat}
    (hf : b.index.tabelle.Frisch t' i) : (b.nachtragen t').Inv := by
  refine h.nachtragen hkurz hf.len (fun k hk => ?_) fun k hnone => ?_
  · by_cases hki : k = i
    · subst hki
      have hbuchung := h.buchung k hk
      have hgeb := hbuchung.geburten
      rw [hf.frei, Bool.toNat_false, Nat.add_zero] at hgeb
      have hvor : ¬ b.index.tabelle.isUsed k := by simp [PdTable.isUsed, hf.frei]
      have hnach : t'.isUsed k := ⟨hf.len ▸ hk, hf.used⟩
      have hneu : (b.nachtragen t').freigaben k = b.freigaben k := by
        simp [Bindebuch.nachtragen, hvor]
      refine ⟨?_, ?_, ?_, ?_⟩
      · rw [hneu]
        simp [Bindebuch.nachtragen, hvor, hnach, hgeb, hf.used]
      · rw [hneu]
        exact hf.epoch.trans hbuchung.epoch
      · rw [hneu]
        exact hbuchung.epoch_lt
      · have hzero := h.count_zero hk (e := (t'.pds.cell k).epoch)
          (by rw [hf.epoch, hbuchung.epoch, hgeb])
        exact hf.nthreads.trans hzero.symm
    · exact (h.buchung k hk).nachtragen hf.len (hf.eintrag k hki)
  · by_cases hki : k = i
    · rw [hki, hf.thread]
    · rw [NurLauf_thread (hf.eintrag k hki), hnone]

theorem Inv.beendet (h : b.Inv) {t' : PdTable} (hkurz : t'.Kurz) {i : Nat}
    (hb : b.index.tabelle.Beendet t' i) (hlt : b.freigaben i + 1 < 2 ^ 32) :
    (b.nachtragen t').Inv := by
  refine h.nachtragen hkurz hb.len (fun k hk => ?_) fun k hnone => ?_
  · by_cases hki : k = i
    · subst hki
      have hbuchung := h.buchung k hk
      have hgeb := hbuchung.geburten
      rw [hb.used.2, Bool.toNat_true] at hgeb
      have hnach : ¬ t'.isUsed k := by simp [PdTable.isUsed, hb.eintrag_self, Pd.empty]
      have hneu : (b.nachtragen t').freigaben k = b.freigaben k + 1 := by
        simp [Bindebuch.nachtragen, hb.used, hnach]
      have hepoch : (t'.pds.cell k).epoch = b.freigaben k + 1 := by
        rw [hb.eintrag_self, hbuchung.epoch]
        exact Nat.mod_eq_of_lt hlt
      refine ⟨?_, ?_, ?_, ?_⟩
      · rw [hneu]
        simp [Bindebuch.nachtragen, hb.used, hgeb, hb.eintrag_self, Pd.empty]
      · rw [hneu]
        exact hepoch
      · rw [hneu]
        exact hlt
      · have hzero := h.count_zero hk (e := (t'.pds.cell k).epoch) (by rw [hepoch, hgeb])
        refine Eq.trans ?_ hzero.symm
        exact congrArg Pd.nthreads hb.eintrag_self
    · refine (h.buchung k hk).nachtragen hb.len ?_
      rw [hb.eintrag k hki]
      exact PdTable.NurLauf.refl (h.kurz.next_zero k)
  · by_cases hki : k = i
    · rw [hki, hb.eintrag_self]
      rfl
    · rw [hb.eintrag k hki, hnone]

/-- The overwritten entry is taken off the count of the domain it still belonged to. -/
theorem Inv.abmelden (h : b.Inv) {s : Nat} (hs : s < b.index.owner.len) (k : Nat) :
    ∃ m, (PdIndex.abmelden b.index.tabelle.pds (b.index.owner.cell s)).cell k =
        { b.index.tabelle.pds.cell k with nthreads := m } ∧
      (k < b.index.tabelle.pds.len → m + ((b.index.owner.cell s).gehoert k
        (b.index.tabelle.pds.cell k).epoch).toNat = (b.index.tabelle.pds.cell k).nthreads) := by
  have hpds := h.pds_lt
  have hpasst := h.eintrag s hs
  unfold PdIndex.abmelden
  by_cases hab : (b.index.owner.cell s).pd1 ≠ 0 ∧
      (b.index.owner.cell s).pd1 - 1 < b.index.tabelle.pds.len ∧
      (b.index.tabelle.pds.cell ((b.index.owner.cell s).pd1 - 1)).epoch =
        (b.index.owner.cell s).epoch ∧
      0 < (b.index.tabelle.pds.cell ((b.index.owner.cell s).pd1 - 1)).nthreads
  · rw [if_pos hab]
    obtain ⟨hne, hlt, hepoch, hpos⟩ := hab
    by_cases hk : k = (b.index.owner.cell s).pd1 - 1
    · subst hk
      refine ⟨_, Slab.modify_cell_self _ _ _, fun _ => ?_⟩
      have hg : (b.index.owner.cell s).gehoert ((b.index.owner.cell s).pd1 - 1)
          (b.index.tabelle.pds.cell ((b.index.owner.cell s).pd1 - 1)).epoch = true := by
        rw [ThreadOwner.gehoert, hepoch, Nat.mod_eq_of_lt (by omega), Nat.sub_add_cancel (by omega)]
        simp
      rw [hg, Bool.toNat_true]
      omega
    · refine ⟨_, Slab.modify_cell_of_ne _ hk _, fun hklt => ?_⟩
      have hg : (b.index.owner.cell s).gehoert k (b.index.tabelle.pds.cell k).epoch = false := by
        rw [ThreadOwner.gehoert, Nat.mod_eq_of_lt (by omega), Bool.and_eq_false_iff]
        left
        rw [beq_eq_false_iff_ne]
        omega
      rw [hg, Bool.toNat_false, Nat.add_zero]
  · rw [if_neg hab]
    refine ⟨_, rfl, fun hklt => ?_⟩
    -- An entry that still matches is counted, so the count could have gone down.
    have hg : (b.index.owner.cell s).gehoert k (b.index.tabelle.pds.cell k).epoch = false := by
      rw [Bool.eq_false_iff]
      intro hlebt
      have hpos : 0 < (b.index.tabelle.pds.cell k).nthreads := by
        rw [(h.buchung k hklt).nthreads]
        exact Slab.count_pos hs hlebt
      rw [ThreadOwner.gehoert, Nat.mod_eq_of_lt (by omega), Bool.and_eq_true, beq_iff_eq,
        beq_iff_eq] at hlebt
      obtain ⟨hpd, hepoch⟩ := hlebt
      have hpd' : (b.index.owner.cell s).pd1 - 1 = k := by omega
      rw [hpd'] at hab
      exact hab ⟨by omega, hklt, hepoch.symm, hpos⟩
    rw [hg, Bool.toNat_false, Nat.add_zero]

theorem vertreten_cell (pds : Slab Pd) (pd : Nat) (thread : ThreadId) (k : Nat) :
    ∃ th, (PdIndex.vertreten pds pd thread).cell k = { pds.cell k with thread := th } := by
  unfold PdIndex.vertreten
  split
  · rw [Slab.modify_cell]
    split
    · next hk =>
      subst hk
      exact ⟨_, rfl⟩
    · exact ⟨_, rfl⟩
  · exact ⟨_, rfl⟩

theorem vertreten_len (pds : Slab Pd) (pd : Nat) (thread : ThreadId) :
    (PdIndex.vertreten pds pd thread).len = pds.len := by
  unfold PdIndex.vertreten
  split <;> rfl

theorem abmelden_len (pds : Slab Pd) (alt : ThreadOwner) :
    (PdIndex.abmelden pds alt).len = pds.len := by
  unfold PdIndex.abmelden
  split <;> rfl

structure Gebunden (b : Bindebuch) (pd : Nat) (thread : ThreadId) (x : PdIndex) : Prop where
  len : x.tabelle.pds.len = b.index.tabelle.pds.len
  vergabe : x.tabelle.cspaceVergabe = b.index.tabelle.cspaceVergabe
  owner : x.owner = b.index.owner.set thread.slot
    ⟨thread, (pd + 1) % 2 ^ 32, (b.index.tabelle.pds.cell pd).epoch⟩
  eintrag : ∀ k, ∃ m th, x.tabelle.pds.cell k = { b.index.tabelle.pds.cell k with
      nthreads := if k = pd then (m + 1) % 2 ^ 32 else m, thread := th } ∧
    (k < b.index.tabelle.pds.len → m + ((b.index.owner.cell thread.slot).gehoert k
      (b.index.tabelle.pds.cell k).epoch).toNat = (b.index.tabelle.pds.cell k).nthreads)

theorem Inv.bindThread (h : b.Inv) {pd : Nat} {thread : ThreadId}
    (hpd : pd < b.index.tabelle.pds.len) (hs : thread.slot < b.index.owner.len) :
    b.Gebunden pd thread (b.index.bindThread pd thread) := by
  rw [PdIndex.bindThread, if_neg (Nat.not_le.mpr hpd), if_pos hs]
  refine ⟨?_, rfl, ?_, fun k => ?_⟩
  · dsimp only
    rw [vertreten_len, Slab.modify_len, abmelden_len]
  · obtain ⟨m, hm, -⟩ := h.abmelden hs pd
    dsimp only
    rw [hm]
  · obtain ⟨m, hm, hsum⟩ := h.abmelden hs k
    obtain ⟨th, hth⟩ := vertreten_cell
      ((PdIndex.abmelden b.index.tabelle.pds (b.index.owner.cell thread.slot)).modify pd
        fun p => { p with nthreads := (p.nthreads + 1) % 2 ^ 32 }) pd thread k
    refine ⟨m, th, ?_, hsum⟩
    rw [hth, Slab.modify_cell]
    by_cases hk : k = pd
    · subst hk
      rw [if_pos rfl, if_pos rfl, hm]
    · rw [if_neg hk, if_neg hk, hm]

theorem count_le_len (s : Slab ThreadOwner) (p : ThreadOwner → Bool) : s.count p ≤ s.len := by
  have hle := List.countP_le_length (p := fun i => p (s.cell i)) (l := List.range s.len)
  rwa [List.length_range] at hle

theorem letzte_binden (b : Bindebuch) (pd : Nat) (thread : ThreadId) (s : Nat) :
    (b.binden pd thread).letzte s =
      if thread.slot = s then some ⟨thread, pd, b.inkarnation pd⟩ else b.letzte s := by
  simp only [letzte, Bindebuch.binden, List.find?_cons]
  by_cases hts : thread.slot = s
  · simp [hts]
  · have hne : (thread.slot == s) = false := by simpa using hts
    simp [hne, hts]

/-- The counts after a binding: the old domain of the place lost a thread and `pd` gained one. -/
theorem Inv.buchung_binden (h : b.Inv) {pd : Nat} {thread : ThreadId}
    (hpd : pd < b.index.tabelle.pds.len) (hs : thread.slot < b.index.owner.len) {k : Nat}
    (hk : k < b.index.tabelle.pds.len) : (b.binden pd thread).Buchung k := by
  have hpds := h.pds_lt
  have howner_lt := h.owner_lt
  have hbuchung := h.buchung k hk
  obtain ⟨-, -, howner, heintrag⟩ := h.bindThread hpd hs
  obtain ⟨m, th, hcell, hsum⟩ := heintrag k
  have hcell' : (b.binden pd thread).index.tabelle.pds.cell k = _ := hcell
  refine ⟨?_, ?_, hbuchung.epoch_lt, ?_⟩
  · rw [hcell']
    exact hbuchung.geburten
  · rw [hcell']
    exact hbuchung.epoch
  · rw [hcell']
    show (if k = pd then (m + 1) % 2 ^ 32 else m) = (b.index.bindThread pd thread).owner.count
      (ThreadOwner.gehoert k (b.index.tabelle.pds.cell k).epoch)
    have hcount := Slab.count_set b.index.owner hs
      ⟨thread, (pd + 1) % 2 ^ 32, (b.index.tabelle.pds.cell pd).epoch⟩
      (ThreadOwner.gehoert k (b.index.tabelle.pds.cell k).epoch)
    have hle := count_le_len (b.index.bindThread pd thread).owner
      (ThreadOwner.gehoert k (b.index.tabelle.pds.cell k).epoch)
    have hold := hsum hk
    rw [hbuchung.nthreads] at hold
    rw [howner] at hle ⊢
    rw [Slab.set_len] at hle
    by_cases hkp : k = pd
    · subst hkp
      have hneu : ThreadOwner.gehoert k (b.index.tabelle.pds.cell k).epoch
          ⟨thread, (k + 1) % 2 ^ 32, (b.index.tabelle.pds.cell k).epoch⟩ = true := by
        simp [ThreadOwner.gehoert]
      rw [hneu, Bool.toNat_true] at hcount
      rw [if_pos rfl, Nat.mod_eq_of_lt (by omega)]
      omega
    · have hneu : ThreadOwner.gehoert k (b.index.tabelle.pds.cell k).epoch
          ⟨thread, (pd + 1) % 2 ^ 32, (b.index.tabelle.pds.cell pd).epoch⟩ = false := by
        rw [ThreadOwner.gehoert, Bool.and_eq_false_iff, beq_eq_false_iff_ne]
        left
        show (pd + 1) % 2 ^ 32 ≠ (k + 1) % 2 ^ 32
        omega
      rw [hneu, Bool.toNat_false] at hcount
      rw [if_neg hkp]
      omega

theorem Inv.passt_binden (h : b.Inv) {pd : Nat} {thread : ThreadId}
    (hused : b.index.tabelle.isUsed pd) (hs : thread.slot < b.index.owner.len) {s : Nat}
    (hslt : s < b.index.owner.len) :
    (b.binden pd thread).Passt ((b.binden pd thread).index.owner.cell s)
      ((b.binden pd thread).letzte s) := by
  have hpd := hused.1
  have hpds := h.pds_lt
  obtain ⟨hlen, -, howner, -⟩ := h.bindThread hpd hs
  have hink : b.inkarnation pd = some (b.geburten pd) := if_pos hused
  have hgeb := (h.buchung pd hpd).geburten
  rw [hused.2, Bool.toNat_true] at hgeb
  rw [letzte_binden]
  show (b.binden pd thread).Passt ((b.index.bindThread pd thread).owner.cell s) _
  rw [howner]
  by_cases hts : thread.slot = s
  · subst hts
    rw [if_pos rfl, Slab.set_cell_self, hink]
    refine ⟨hlen ▸ hpd, b.freigaben pd, by rw [hgeb], ?_, ?_⟩
    · show b.freigaben pd < b.geburten pd
      omega
    · rw [Nat.mod_eq_of_lt (by omega), (h.buchung pd hpd).epoch]
  · rw [if_neg hts, Slab.set_cell_of_ne _ (Ne.symm hts)]
    have hpasst := h.eintrag s hslt
    cases hx : b.letzte s with
    | none =>
      rw [hx] at hpasst
      exact hpasst
    | some x =>
      rw [hx] at hpasst
      obtain ⟨hxlt, n, hn⟩ := hpasst
      exact ⟨hlen ▸ hxlt, n, hn⟩

theorem Inv.binden (h : b.Inv) {pd : Nat} {thread : ThreadId} (hused : b.index.tabelle.isUsed pd)
    (hs : thread.slot < b.index.owner.len) : (b.binden pd thread).Inv := by
  obtain ⟨hlen, hvergabe, howner, heintrag⟩ := h.bindThread hused.1 hs
  have hlen' : (b.binden pd thread).index.tabelle.pds.len = b.index.tabelle.pds.len := hlen
  have hvergabe' : (b.binden pd thread).index.tabelle.cspaceVergabe =
    b.index.tabelle.cspaceVergabe := hvergabe
  have howner_len : (b.binden pd thread).index.owner.len = b.index.owner.len := by
    have hset := congrArg Slab.len howner
    rwa [Slab.set_len] at hset
  constructor
  · refine ⟨fun i => ?_, by rw [hlen', hvergabe']; exact h.kurz.kopf_lt⟩
    obtain ⟨m, th, hcell, -⟩ := heintrag i
    exact (congrArg Pd.freilaufNext hcell).trans (h.kurz.next_zero i)
  · rw [hlen']
    exact h.pds_lt
  · rw [howner_len]
    exact h.owner_lt
  · intro k hk
    exact h.buchung_binden hused.1 hs (hlen' ▸ hk)
  · intro s hslt
    exact h.passt_binden hused hs (howner_len ▸ hslt)
  · intro s hslt
    rw [howner_len] at hslt
    rw [letzte_binden, if_neg (by omega), h.jenseits s hslt]
  · intro hzero
    rw [howner_len] at hzero
    omega

theorem step_inv (b : Bindebuch) (op : Op) (h : b.Inv) (hok : b.OpOk op) :
    ∃ b', b.step op = some b' ∧ b'.Inv := by
  cases op with
  | bindThread pd thread =>
    by_cases hpd : b.index.tabelle.pds.len ≤ pd
    · exact ⟨b, if_pos hpd, h⟩
    · obtain ⟨hused, hs⟩ := hok (Nat.lt_of_not_le hpd)
      exact ⟨_, if_neg hpd, h.binden hused hs⟩
  | tabelle op =>
    obtain ⟨t', hstep, hkurz, hwandel⟩ := PdTable.step_wandel h.kurz op
    refine ⟨b.nachtragen t', by rw [step, hstep]; rfl, ?_⟩
    rcases hwandel with hu | ⟨i, hf⟩ | ⟨i, rfl, hb⟩
    · exact h.unveraendert hkurz hu
    · exact h.frisch hkurz hf
    · exact h.beendet hkurz hb (hok hb.used)

/-- **The reverse index is right**, after every sequence of creations, releases, cap operations
and bindings, for tables of any size. -/
theorem run_stimmt {npd npool nown : Nat} (hpd : npd < 2 ^ 32) (hown : nown < 2 ^ 32)
    {ops : List Op} (hops : Admissible step OpOk (attached npd npool nown) ops) :
    ∃ b, run step (attached npd npool nown) ops = some b ∧ b.Stimmt := by
  obtain ⟨b, hrun, hinv⟩ := run_total step_inv (attached_inv hpd hown) hops
  exact ⟨b, hrun, hinv.stimmt⟩

/-- Two threads of one domain, which is freed and created anew; one of them is bound again. -/
theorem run_stimmt_rebind :
    ∃ b, run step (attached 2 64 4) [.tabelle (.create .trustedSas 0 0), .bindThread 0 ⟨0, 1⟩,
      .bindThread 0 ⟨1, 1⟩, .tabelle (.free 0), .tabelle (.create .trustedSas 0 0),
      .bindThread 0 ⟨1, 1⟩] = some b ∧ b.Stimmt :=
  run_stimmt (by decide) (by decide) (by decide)

/-- A binding to a free entry comes to life with the next occupant: the domain answers for a
thread that was never bound to it and counts none. -/
theorem run_bind_free_entry :
    ∃ b, run step (attached 1 16 1) [.bindThread 0 ⟨0, 1⟩,
        .tabelle (.create .trustedSas 0 0)] = some b ∧
      b.index.pdOf ⟨0, 1⟩ = some 0 ∧ b.index.threadCount 0 = 0 ∧ ¬ b.Gilt ⟨0, 1⟩ 0 ∧
      ¬ b.Stimmt := by
  have hfehler : ∃ b, run step (attached 1 16 1) [.bindThread 0 ⟨0, 1⟩,
        .tabelle (.create .trustedSas 0 0)] = some b ∧
      b.index.pdOf ⟨0, 1⟩ = some 0 ∧ b.index.threadCount 0 = 0 ∧
      b.letzte 0 = some ⟨⟨0, 1⟩, 0, none⟩ := ⟨_, rfl, by decide, by decide, by decide⟩
  obtain ⟨b, hrun, hpd, hcount, hletzte⟩ := hfehler
  have hnot : ¬ b.Gilt ⟨0, 1⟩ 0 := by
    rintro ⟨i, -, hbund⟩
    rw [hletzte] at hbund
    cases hbund
  exact ⟨b, hrun, hpd, hcount, hnot, fun h => hnot ((h.pdOf _ _).mp hpd)⟩

end Bindebuch

end Caprock.Microkit
