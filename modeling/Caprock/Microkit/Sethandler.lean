import Mathlib
import Caprock.Microkit.Caps
import Caprock.Microkit.HandlerGraph

/-! # Binding threads to a handler

`SETHANDLER` binds a thread to a handler domain or unbinds it.  A binding is kept in
three places: the thread carries the record, the handler domain has one bit per taken
sidecar slot, and the guest domain counts its bound threads.

`Buchfuehrung` says that the three agree.  Every request keeps it, the refused and
rolled-back ones included, with one exception: binding a thread that is bound already
takes a second slot and counts the thread once more, while the old record is simply
overwritten.
-/

namespace Caprock.Microkit

open Execution Cap Mem Function

def keinEp : Nat := 2 ^ 32 - 1

def slotBytes : Nat := 512

def fensterDeckt (slots len : Nat) : Bool := decide (slots * slotBytes ≤ len)

/-- `Bindung`: what a bound thread carries. -/
structure Bindung where
  sysEp : Nat
  faultEp : Nat
  handlerPd : Nat
  slot : Nat
  sidecar : Nat
  deriving DecidableEq, Repr

def Bindung.hatSyscall (b : Bindung) : Bool := b.sysEp != keinEp

/-- The tables a binding lives in, and which threads the scheduler still resolves. -/
structure HandlerSystem where
  caps : Caps
  lebt : ThreadId → Bool
  bindung : ThreadId → Option Bindung

structure HandlerWahl where
  sysEp : Nat
  fltEp : Nat
  handlerPd : Option Nat
  fenster : Option (Nat × Nat)

/-- A request: the caller, its slot with the Tcb capability and the two handler slots. -/
structure Anfrage where
  aufrufer : ThreadId
  tcbSlot : Nat
  sysSlot : Nat
  fltSlot : Nat

def handlerArt (istSys : Bool) : ObjectKind → Option (Nat × Nat × Nat × Nat)
  | .syscallHandler ep pd sidecar len => if istSys then some (ep, pd, sidecar, len) else none
  | .faultHandler ep pd sidecar len => if istSys then none else some (ep, pd, sidecar, len)
  | _ => none

theorem countOnes_lt_iff (w : Nat) : countOnes w < 64 ↔ ∃ i, i < 64 ∧ w.testBit i = false := by
  have hle : countOnes w ≤ (List.range 64).length := List.countP_le_length
  rw [List.length_range] at hle
  constructor
  · intro hlt
    by_contra hall
    have heq : countOnes w = (List.range 64).length := by
      rw [countOnes, List.countP_eq_length]
      intro i hi
      by_contra hbit
      exact hall ⟨i, List.mem_range.mp hi, by simpa using hbit⟩
    rw [List.length_range] at heq
    omega
  · rintro ⟨i, hi, hbit⟩
    refine Nat.lt_of_le_of_ne hle fun heq => ?_
    have hall : countOnes w = (List.range 64).length := by rw [List.length_range, heq]
    rw [countOnes, List.countP_eq_length] at hall
    have hset := hall i (List.mem_range.mpr hi)
    rw [hbit] at hset
    cases hset

theorem trailingOnes_spec {w : Nat} (h : ∃ i, i < 64 ∧ w.testBit i = false) :
    trailingOnes w < 64 ∧ w.testBit (trailingOnes w) = false := by
  obtain ⟨i, hi, hbit⟩ := h
  unfold trailingOnes
  cases hfind : (List.range 64).find? fun i => !w.testBit i with
  | none =>
    have hno := List.find?_eq_none.mp hfind i (List.mem_range.mpr hi)
    simp [hbit] at hno
  | some slot =>
    have hmem := List.mem_of_find?_eq_some hfind
    have hslot := List.find?_some hfind
    exact ⟨List.mem_range.mp hmem, by simpa using hslot⟩

theorem testBit_slotSetzen (p : Pd) (slot i : Nat) :
    (p.slotSetzen slot).sidecarUsed.testBit i = (p.sidecarUsed.testBit i || decide (slot = i)) := by
  simp [Pd.slotSetzen, Nat.testBit_or, Nat.testBit_two_pow]

theorem testBit_slotLoeschen (p : Pd) (slot i : Nat) :
    (p.slotLoeschen slot).sidecarUsed.testBit i =
      (p.sidecarUsed.testBit i && (decide (i < 64) ^^ decide (slot = i))) := by
  simp only [Pd.slotLoeschen, Nat.testBit_and, Nat.testBit_xor, Nat.testBit_two_pow,
    Nat.testBit_two_pow_sub_one]

namespace PdTable

theorem isUsed_aendern {t : PdTable} {pd : Nat} {f : Pd → Pd} (hf : ∀ p, (f p).used = p.used)
    (k : Nat) : (t.aendern pd f).isUsed k ↔ t.isUsed k := by
  unfold isUsed aendern
  simp only [Slab.modify_len, Slab.modify_cell]
  by_cases hk : k = pd
  · simp only [hk, if_true, hf]
  · simp only [hk, if_false]

theorem cell_aendern_self (t : PdTable) (pd : Nat) (f : Pd → Pd) :
    (t.aendern pd f).pds.cell pd = f (t.pds.cell pd) :=
  Slab.modify_cell_self _ _ _

theorem cell_aendern_of_ne (t : PdTable) {pd k : Nat} (f : Pd → Pd) (h : k ≠ pd) :
    (t.aendern pd f).pds.cell k = t.pds.cell k :=
  Slab.modify_cell_of_ne _ h _

theorem sidecarBelegen_of_frei {t : PdTable} {h : Nat} (hfrei : t.sidecarFrei h ≠ 0) :
    t.isUsed h ∧ trailingOnes (t.pds.cell h).sidecarUsed < 64 ∧
      (t.pds.cell h).sidecarUsed.testBit (trailingOnes (t.pds.cell h).sidecarUsed) = false ∧
      t.sidecarBelegen h = (some (trailingOnes (t.pds.cell h).sidecarUsed),
        t.aendern h (·.slotSetzen (trailingOnes (t.pds.cell h).sidecarUsed))) := by
  have hused : t.isUsed h := by
    by_contra hnot
    simp [sidecarFrei, hnot] at hfrei
  have hcount : countOnes (t.pds.cell h).sidecarUsed < 64 := by
    rw [sidecarFrei, if_pos hused, sidecarSlots] at hfrei
    omega
  have hexists := (countOnes_lt_iff _).mp hcount
  obtain ⟨hlt, hbit⟩ := trailingOnes_spec hexists
  refine ⟨hused, hlt, hbit, ?_⟩
  have hvoll : (t.pds.cell h).sidecarUsed ≠ 2 ^ 64 - 1 := by
    intro heq
    rw [heq] at hexists
    obtain ⟨i, hi, hset⟩ := hexists
    rw [Nat.testBit_two_pow_sub_one] at hset
    simp [hi] at hset
  rw [sidecarBelegen, if_pos hused]
  rw [if_neg hvoll]

end PdTable

namespace HandlerSystem

def handlerOf (s : HandlerSystem) (t : ThreadId) : Option Bindung :=
  if s.lebt t then s.bindung t else none

/-- `ops.set_handler`: fails for a thread that no longer exists. -/
def setHandler (s : HandlerSystem) (t : ThreadId) (b : Option Bindung) : Bool × HandlerSystem :=
  if s.lebt t then (true, { s with bindung := update s.bindung t b }) else (false, s)

def mitPds (s : HandlerSystem) (pds : PdTable) : HandlerSystem :=
  { s with caps := { s.caps with pds := pds } }

/-- One handler capability of a bind request; `u64::MAX` leaves its side out. -/
def handlerCapPruefen (s : HandlerSystem) (pd : Nat) (wahl : HandlerWahl) (slot : Nat)
    (istSys : Bool) : Except Ergebnis HandlerWahl :=
  if slot = u64Max then .ok wahl
  else
    match s.caps.pds.capAt pd slot with
    | none => .error .errBadcap
    | some cap =>
        match s.caps.cspace.lookup cap with
        | none => .error .errBadcap
        | some (k, r, _) =>
            if r.contains Rights.write = false then .error .errRights
            else
              match handlerArt istSys k with
              | none => .error .errBadcap
              | some (ep, hp, sc, ln) =>
                  if ∃ x ∈ wahl.handlerPd, x ≠ hp then .error .errHandlerBusy
                  else if ∃ x ∈ wahl.fenster, x ≠ (sc, ln) then .error .errHandlerBusy
                  else if fensterDeckt sidecarSlots ln = false ∨ sc = 0 then .error .errNospace
                  else
                    .ok {
                      sysEp := if istSys then ep else wahl.sysEp
                      fltEp := if istSys then wahl.fltEp else ep
                      handlerPd := some hp
                      fenster := some (sc, ln) }

/-- Both handler capabilities: endpoints, handler domain and window base. -/
def handlerCaps (s : HandlerSystem) (pd sysSlot fltSlot : Nat) :
    Except Ergebnis (Nat × Nat × Nat × Nat) :=
  match s.handlerCapPruefen pd ⟨keinEp, keinEp, none, none⟩ sysSlot true with
  | .error e => .error e
  | .ok wahl =>
      match s.handlerCapPruefen pd wahl fltSlot false with
      | .error e => .error e
      | .ok wahl =>
          match wahl.handlerPd, wahl.fenster with
          | some hp, some (sc, _) => .ok (wahl.sysEp, wahl.fltEp, hp, sc)
          | _, _ => .error .errBadcap

def entbinden (s : HandlerSystem) (ziel : ThreadId) : Ergebnis × HandlerSystem :=
  match s.handlerOf ziel with
  | none => (.ok, s)
  | some alt =>
      match s.setHandler ziel none with
      | (false, s) => (.errBadcap, s)
      | (true, s) =>
          let pds :=
            match s.caps.pdOf ziel with
            | some gast => (s.caps.pds.handlerKanteLoesen gast).2
            | none => s.caps.pds
          (.ok, s.mitPds (pds.sidecarFreigeben alt.handlerPd alt.slot).2)

def bindUrteil (s : HandlerSystem) (gast handlerPd sysEp fltEp : Nat) : BindUrteil :=
  s.caps.pds.urteil (gast % 2 ^ 16) handlerPd (sysEp != keinEp) (fltEp != keinEp)
    (s.caps.pds.sidecarFrei handlerPd)

def absage : BindUrteil → Ergebnis
  | .ok => .ok
  | .zyklus | .selbstBindung | .ketteZuLang => .errHandlerCycle
  | .fremderHandler => .errHandlerBusy
  | .keinSlot => .errNospace
  | .wirkungslos => .errBadcap

/-- The binding half of `SETHANDLER`, after the handler capabilities were looked up. -/
def binden (s : HandlerSystem) (ziel : ThreadId) (sysEp fltEp handlerPd sidecar : Nat) :
    Ergebnis × HandlerSystem :=
  match s.caps.pdOf ziel with
  | none => (.errNopd, s)
  | some gast =>
      match s.bindUrteil gast handlerPd sysEp fltEp with
      | .ok =>
          match s.caps.pds.sidecarBelegen handlerPd with
          | (none, pds) => (.errNospace, s.mitPds pds)
          | (some slot, pds) =>
              let s' := s.mitPds (pds.handlerKanteSetzen gast handlerPd).2
              match s'.setHandler ziel (some ⟨sysEp, fltEp, handlerPd, slot, sidecar⟩) with
              | (true, s') => (.ok, s')
              | (false, s') =>
                  let pds := (s'.caps.pds.handlerKanteLoesen gast).2
                  (.errBadcap, s'.mitPds (pds.sidecarFreigeben handlerPd slot).2)
      | urteil => (absage urteil, s)

def umgeleitet (s : HandlerSystem) (t : ThreadId) : Bool :=
  (s.handlerOf t).any Bindung.hatSyscall

/-- `SETHANDLER`; `none` is a request that does not reach the kernel. -/
def sethandler (s : HandlerSystem) (a : Anfrage) : Option Ergebnis × HandlerSystem :=
  if s.umgeleitet a.aufrufer then (none, s)
  else
    match s.caps.aufloesen a.aufrufer a.tcbSlot with
    | .error e => (some e, s)
    | .ok (pd, .tcb raw, rights, _) =>
        if rights.contains Rights.write = false then (some .errRights, s)
        else if a.sysSlot = u64Max ∧ a.fltSlot = u64Max then
          let r := s.entbinden (threadFromRaw raw)
          (some r.1, r.2)
        else
          match s.handlerCaps pd a.sysSlot a.fltSlot with
          | .error e => (some e, s)
          | .ok (sysEp, fltEp, handlerPd, sidecar) =>
              let r := s.binden (threadFromRaw raw) sysEp fltEp handlerPd sidecar
              (some r.1, r.2)
    | .ok _ => (some .errBadcap, s)

def gebundene (s : HandlerSystem) (g : Nat) : Set ThreadId :=
  {t | s.caps.pdOf t = some g ∧ s.handlerOf t ≠ none}

structure Buchfuehrung (s : HandlerSystem) : Prop where
  slots : ∀ h, s.caps.pds.isUsed h → ∀ i, (s.caps.pds.pds.cell h).sidecarUsed.testBit i = true ↔
    ∃ t b, s.handlerOf t = some b ∧ b.handlerPd = h ∧ b.slot = i
  eindeutig : ∀ t u b c, s.handlerOf t = some b → s.handlerOf u = some c →
    b.handlerPd = c.handlerPd → b.slot = c.slot → t = u
  anzahl : ∀ g, s.caps.pds.isUsed g → (s.gebundene g).Finite ∧
    (s.caps.pds.pds.cell g).handlerBound = (s.gebundene g).ncard
  kante : ∀ g, s.caps.pds.isUsed g → (s.caps.pds.handlerPdOf g = none ↔ s.gebundene g = ∅)

/-- The request would bind its target: everything `SETHANDLER` checks lets it through. -/
def BindetWirklich (s : HandlerSystem) (a : Anfrage) (ziel : ThreadId) : Prop :=
  s.umgeleitet a.aufrufer = false ∧ ¬ (a.sysSlot = u64Max ∧ a.fltSlot = u64Max) ∧
    s.lebt ziel = true ∧
    ∃ pd raw rights badge sysEp fltEp handlerPd sidecar gast,
      s.caps.aufloesen a.aufrufer a.tcbSlot = .ok (pd, .tcb raw, rights, badge) ∧
      ziel = threadFromRaw raw ∧ rights.contains Rights.write = true ∧
      s.handlerCaps pd a.sysSlot a.fltSlot = .ok (sysEp, fltEp, handlerPd, sidecar) ∧
      s.caps.pdOf ziel = some gast ∧ s.bindUrteil gast handlerPd sysEp fltEp = .ok

def KeineZweiteBindung (s : HandlerSystem) (a : Anfrage) : Prop :=
  ∀ ziel, s.BindetWirklich a ziel → s.handlerOf ziel = none

def step (s : HandlerSystem) (a : Anfrage) : Option HandlerSystem := some (s.sethandler a).2

/-- Before the first request: no domain has a handler, no slot is taken, no thread is bound. -/
structure Anfang (s : HandlerSystem) : Prop where
  tabelle : s.caps.pds.pds.len ≤ npds
  pds : ∀ pd, (s.caps.pds.pds.cell pd).handlerPd = keinHandlerPd ∧
    (s.caps.pds.pds.cell pd).handlerBound = 0 ∧ (s.caps.pds.pds.cell pd).sidecarUsed = 0
  threads : ∀ t, s.bindung t = none

/-- The state after `ziel` of domain `gast` was bound with record `b`. -/
def eintragen (s : HandlerSystem) (ziel : ThreadId) (gast : Nat) (b : Bindung) : HandlerSystem :=
  { s with
    caps := { s.caps with
      pds := (s.caps.pds.aendern b.handlerPd (·.slotSetzen b.slot)).aendern gast
        (·.kanteSetzen b.handlerPd) }
    bindung := update s.bindung ziel (some b) }

/-- The state after `ziel` of domain `gast` was unbound from record `b`. -/
def austragen (s : HandlerSystem) (ziel : ThreadId) (gast : Nat) (b : Bindung) : HandlerSystem :=
  { s with
    caps := { s.caps with
      pds := (s.caps.pds.aendern gast (·.kanteLoesen)).aendern b.handlerPd
        (·.slotLoeschen b.slot) }
    bindung := update s.bindung ziel none }

/-- What is known when a binding goes through. -/
structure Passt (s : HandlerSystem) (ziel : ThreadId) (gast : Nat) (b : Bindung) : Prop where
  pd : s.caps.pdOf ziel = some gast
  handler : s.caps.pds.isUsed b.handlerPd
  verschieden : gast ≠ b.handlerPd
  slot_lt : b.slot < 64
  slot_frei : (s.caps.pds.pds.cell b.handlerPd).sidecarUsed.testBit b.slot = false
  kante : s.caps.pds.handlerPdOf gast = none ∨ s.caps.pds.handlerPdOf gast = some b.handlerPd

/-- Tables and records are the same up to how they were written. -/
structure Gleich (s s' : HandlerSystem) : Prop where
  cspace : s'.caps.cspace = s.caps.cspace
  owner : s'.caps.owner = s.caps.owner
  len : s'.caps.pds.pds.len = s.caps.pds.pds.len
  cell : ∀ pd, s'.caps.pds.pds.cell pd = s.caps.pds.pds.cell pd
  lebt : s'.lebt = s.lebt
  bindung : s'.bindung = s.bindung

theorem Gleich.refl (s : HandlerSystem) : s.Gleich s :=
  ⟨rfl, rfl, rfl, fun _ => rfl, rfl, rfl⟩

variable {s s' : HandlerSystem}

theorem bindUrteil_ok {gast h sysEp fltEp : Nat} (hlt : gast < 2 ^ 16)
    (hok : s.bindUrteil gast h sysEp fltEp = .ok) :
    s.caps.pds.sidecarFrei h ≠ 0 ∧ gast ≠ h ∧
      (s.caps.pds.handlerPdOf gast = none ∨ s.caps.pds.handlerPdOf gast = some h) := by
  unfold bindUrteil at hok
  rw [Nat.mod_eq_of_lt hlt, PdTable.urteil_eq] at hok
  have hnone : s.caps.pds.fruehereAbsage gast h (sysEp != keinEp) (fltEp != keinEp)
      (s.caps.pds.sidecarFrei h) = none := by
    cases habsage : s.caps.pds.fruehereAbsage gast h (sysEp != keinEp) (fltEp != keinEp)
        (s.caps.pds.sidecarFrei h) with
    | none => rfl
    | some u =>
      rw [habsage, Option.getD_some] at hok
      exact absurd hok (PdTable.fruehereAbsage_eq_some habsage).1
  unfold PdTable.fruehereAbsage at hnone
  split_ifs at hnone with h1 h2 h3 h4
  refine ⟨h4, h2, ?_⟩
  by_cases hn : s.caps.pds.handlerPdOf gast = none
  · exact .inl hn
  · by_contra hcon
    exact h3 ⟨hn, fun hs => hcon (.inr hs)⟩

structure Inv (s : HandlerSystem) : Prop extends Buchfuehrung s where
  tabelle : s.caps.pds.pds.len ≤ npds
  bindung : ∀ t b, s.handlerOf t = some b → ∃ g, s.caps.pdOf t = some g ∧ g ≠ b.handlerPd ∧
    (s.caps.pds.pds.cell g).handlerPd = b.handlerPd ∧ s.caps.pds.isUsed b.handlerPd ∧ b.slot < 64

theorem handlerOf_eq_none_of_bindung {t : ThreadId} (h : s.bindung t = none) :
    s.handlerOf t = none := by
  simp [handlerOf, h]

theorem Anfang.inv (h : s.Anfang) : s.Inv := by
  have hnone : ∀ t, s.handlerOf t = none := fun t => handlerOf_eq_none_of_bindung (h.threads t)
  have hleer : ∀ g, s.gebundene g = ∅ := by
    intro g
    ext t
    simp [gebundene, hnone]
  refine ⟨⟨fun pd _ i => ?_, fun t u b c ht => ?_, fun g _ => ?_, fun g _ => ?_⟩, h.tabelle, ?_⟩
  · simp [(h.pds pd).2.2, hnone]
  · rw [hnone] at ht
    cases ht
  · rw [hleer, (h.pds g).2.1]
    simp
  · simp [hleer, PdTable.handlerPdOf, (h.pds g).1]
  · intro t b ht
    rw [hnone] at ht
    cases ht

theorem Gleich.handlerOf_eq (h : s.Gleich s') (t : ThreadId) : s'.handlerOf t = s.handlerOf t := by
  simp only [handlerOf, h.lebt, h.bindung]

theorem Gleich.isUsed_iff (h : s.Gleich s') (pd : Nat) :
    s'.caps.pds.isUsed pd ↔ s.caps.pds.isUsed pd := by
  simp only [PdTable.isUsed, h.len, h.cell]

theorem Gleich.inv (hg : s.Gleich s') (h : s.Inv) : s'.Inv := by
  have hpd := Caps.pdOf_congr hg.owner hg.isUsed_iff
  have hgeb : ∀ g, s'.gebundene g = s.gebundene g := by
    intro g
    simp only [gebundene, hpd, hg.handlerOf_eq]
  refine ⟨⟨?_, ?_, ?_, ?_⟩, ?_, ?_⟩
  · intro pd hu i
    simpa only [hg.handlerOf_eq, hg.cell] using h.slots pd ((hg.isUsed_iff pd).mp hu) i
  · simpa only [hg.handlerOf_eq] using h.eindeutig
  · intro g hu
    simpa only [hgeb, hg.cell] using h.anzahl g ((hg.isUsed_iff g).mp hu)
  · intro g hu
    rw [hgeb, PdTable.liest_handlerPdOf hg.len (by rw [hg.cell]) (by rw [hg.cell])]
    exact h.kante g ((hg.isUsed_iff g).mp hu)
  · rw [hg.len]
    exact h.tabelle
  · simpa only [hg.handlerOf_eq, hpd, hg.isUsed_iff, hg.cell] using h.bindung

theorem Inv.ne_keinHandlerPd (h : s.Inv) {pd : Nat} (hu : s.caps.pds.isUsed pd) :
    pd ≠ keinHandlerPd := by
  have hlt := hu.1
  have hle := h.tabelle
  have hnpds : npds = 10000 := rfl
  have hkein : keinHandlerPd = 65535 := rfl
  omega

theorem Inv.ncard_le (h : s.Inv) (g : Nat) : (s.gebundene g).ncard ≤ 64 := by
  have hcard : (Finset.range 64 : Set Nat).ncard = 64 := by
    rw [Set.ncard_coe_finset, Finset.card_range]
  rw [← hcard]
  refine Set.ncard_le_ncard_of_injOn (fun t => ((s.handlerOf t).map Bindung.slot).getD 0) ?_ ?_
    (Finset.finite_toSet _)
  · rintro t ⟨-, ht⟩
    obtain ⟨b, hb⟩ := Option.ne_none_iff_exists'.mp ht
    obtain ⟨-, -, -, -, -, hlt⟩ := h.bindung t b hb
    simpa [hb] using hlt
  · rintro t ⟨hpt, ht⟩ u ⟨hpu, hu⟩ heq
    obtain ⟨b, hb⟩ := Option.ne_none_iff_exists'.mp ht
    obtain ⟨c, hc⟩ := Option.ne_none_iff_exists'.mp hu
    obtain ⟨g₁, hg₁, -, hbh, -⟩ := h.bindung t b hb
    obtain ⟨g₂, hg₂, -, hch, -⟩ := h.bindung u c hc
    rw [hpt] at hg₁
    rw [hpu] at hg₂
    cases hg₁
    cases hg₂
    have hslot : b.slot = c.slot := by simpa [hb, hc] using heq
    exact h.eindeutig t u b c hb hc (hbh.symm.trans hch) hslot

theorem Inv.handlerBound_le (h : s.Inv) {g : Nat} (hu : s.caps.pds.isUsed g) :
    (s.caps.pds.pds.cell g).handlerBound ≤ 64 := by
  rw [(h.anzahl g hu).2]
  exact h.ncard_le g

theorem Inv.handlerPd_of_bound_zero (h : s.Inv) {g : Nat} (hu : s.caps.pds.isUsed g)
    (hzero : (s.caps.pds.pds.cell g).handlerBound = 0) :
    (s.caps.pds.pds.cell g).handlerPd = keinHandlerPd := by
  obtain ⟨hfin, hcount⟩ := h.anzahl g hu
  rw [hzero] at hcount
  have hempty := (Set.ncard_eq_zero hfin).mp hcount.symm
  have hnone := (h.kante g hu).mpr hempty
  by_contra hne
  simp [PdTable.handlerPdOf, hu, hne] at hnone

theorem Inv.handlerBound_pos (h : s.Inv) {g : Nat} {t : ThreadId} (ht : t ∈ s.gebundene g) :
    0 < (s.caps.pds.pds.cell g).handlerBound := by
  have hu := Caps.isUsed_of_pdOf ht.1
  obtain ⟨hfin, hcount⟩ := h.anzahl g hu
  rw [hcount]
  exact (Set.ncard_pos hfin).mpr ⟨t, ht⟩

theorem Inv.testBit_of_le (h : s.Inv) {pd i : Nat} (hu : s.caps.pds.isUsed pd) (hi : 64 ≤ i) :
    (s.caps.pds.pds.cell pd).sidecarUsed.testBit i = false := by
  by_contra hbit
  obtain ⟨t, b, hb, -, hslot⟩ := (h.slots pd hu i).mp (by simpa using hbit)
  obtain ⟨-, -, -, -, -, hlt⟩ := h.bindung t b hb
  omega

section

variable {s : HandlerSystem} {ziel : ThreadId} {gast : Nat} {b : Bindung}

theorem eintragen_isUsed_iff (pd : Nat) :
    (s.eintragen ziel gast b).caps.pds.isUsed pd ↔ s.caps.pds.isUsed pd :=
  (PdTable.isUsed_aendern (f := (·.kanteSetzen b.handlerPd)) (fun _ => rfl) pd).trans
    (PdTable.isUsed_aendern (f := (·.slotSetzen b.slot)) (fun _ => rfl) pd)

theorem eintragen_pdOf (t : ThreadId) :
    (s.eintragen ziel gast b).caps.pdOf t = s.caps.pdOf t := by
  apply Caps.pdOf_congr
  · rfl
  · exact eintragen_isUsed_iff

theorem eintragen_handlerOf_self (hlebt : s.lebt ziel = true) :
    (s.eintragen ziel gast b).handlerOf ziel = some b := by
  simp [handlerOf, eintragen, hlebt]

theorem eintragen_handlerOf_of_ne {t : ThreadId} (ht : t ≠ ziel) :
    (s.eintragen ziel gast b).handlerOf t = s.handlerOf t := by
  simp [handlerOf, eintragen, update_of_ne ht]

theorem eintragen_cell_gast (hne : gast ≠ b.handlerPd) :
    (s.eintragen ziel gast b).caps.pds.pds.cell gast =
      (s.caps.pds.pds.cell gast).kanteSetzen b.handlerPd := by
  simp only [eintragen, PdTable.cell_aendern_self, PdTable.cell_aendern_of_ne _ _ hne]

theorem eintragen_cell_handler (hne : gast ≠ b.handlerPd) :
    (s.eintragen ziel gast b).caps.pds.pds.cell b.handlerPd =
      (s.caps.pds.pds.cell b.handlerPd).slotSetzen b.slot := by
  simp only [eintragen, PdTable.cell_aendern_self,
    PdTable.cell_aendern_of_ne _ _ (Ne.symm hne)]

theorem eintragen_cell_of_ne {pd : Nat} (hg : pd ≠ gast) (hh : pd ≠ b.handlerPd) :
    (s.eintragen ziel gast b).caps.pds.pds.cell pd = s.caps.pds.pds.cell pd := by
  simp only [eintragen, PdTable.cell_aendern_of_ne _ _ hg, PdTable.cell_aendern_of_ne _ _ hh]

theorem eintragen_testBit (hne : gast ≠ b.handlerPd) (pd i : Nat) :
    ((s.eintragen ziel gast b).caps.pds.pds.cell pd).sidecarUsed.testBit i =
      ((s.caps.pds.pds.cell pd).sidecarUsed.testBit i ||
        decide (pd = b.handlerPd) && decide (b.slot = i)) := by
  by_cases hh : pd = b.handlerPd
  · subst hh
    rw [eintragen_cell_handler hne, testBit_slotSetzen]
    simp
  · by_cases hg : pd = gast
    · subst hg
      rw [eintragen_cell_gast hne]
      simp [Pd.kanteSetzen, hh]
    · rw [eintragen_cell_of_ne hg hh]
      simp [hh]

theorem eintragen_cell_kante {pd : Nat} (hne : gast ≠ b.handlerPd) (hg : pd ≠ gast) :
    ((s.eintragen ziel gast b).caps.pds.pds.cell pd).handlerPd =
        (s.caps.pds.pds.cell pd).handlerPd ∧
      ((s.eintragen ziel gast b).caps.pds.pds.cell pd).handlerBound =
        (s.caps.pds.pds.cell pd).handlerBound ∧
      ((s.eintragen ziel gast b).caps.pds.pds.cell pd).used = (s.caps.pds.pds.cell pd).used := by
  by_cases hh : pd = b.handlerPd
  · subst hh
    rw [eintragen_cell_handler hne]
    exact ⟨rfl, rfl, rfl⟩
  · rw [eintragen_cell_of_ne hg hh]
    exact ⟨rfl, rfl, rfl⟩

theorem eintragen_gebundene_of_ne {g : Nat} (hp : s.Passt ziel gast b) (hg : g ≠ gast) :
    (s.eintragen ziel gast b).gebundene g = s.gebundene g := by
  ext t
  simp only [gebundene, Set.mem_ofPred_eq, eintragen_pdOf]
  refine and_congr_right fun hpd => ?_
  have ht : t ≠ ziel := by
    rintro rfl
    rw [hp.pd] at hpd
    exact hg (Option.some.inj hpd).symm
  rw [eintragen_handlerOf_of_ne ht]

theorem eintragen_gebundene_gast (hp : s.Passt ziel gast b) (hlebt : s.lebt ziel = true) :
    (s.eintragen ziel gast b).gebundene gast = insert ziel (s.gebundene gast) := by
  ext t
  simp only [gebundene, Set.mem_ofPred_eq, Set.mem_insert_iff, eintragen_pdOf]
  by_cases ht : t = ziel
  · subst ht
    simp [hp.pd, eintragen_handlerOf_self hlebt]
  · simp [ht, eintragen_handlerOf_of_ne ht]

theorem Inv.slot_ne_of_passt (h : s.Inv) (hp : s.Passt ziel gast b) {u : ThreadId} {c : Bindung}
    (hc : s.handlerOf u = some c) (hpd : c.handlerPd = b.handlerPd) : c.slot ≠ b.slot := by
  intro hslot
  have hbit := (h.slots b.handlerPd hp.handler b.slot).mpr ⟨u, c, hc, hpd, hslot⟩
  rw [hp.slot_frei] at hbit
  cases hbit

theorem eintragen_slots (h : s.Inv) (hp : s.Passt ziel gast b) (hlebt : s.lebt ziel = true)
    (hfrei : s.handlerOf ziel = none) {pd : Nat} (hu : s.caps.pds.isUsed pd) (i : Nat) :
    ((s.eintragen ziel gast b).caps.pds.pds.cell pd).sidecarUsed.testBit i = true ↔
      ∃ t c, (s.eintragen ziel gast b).handlerOf t = some c ∧ c.handlerPd = pd ∧ c.slot = i := by
  have hself : (s.eintragen ziel gast b).handlerOf ziel = some b :=
    eintragen_handlerOf_self hlebt
  rw [eintragen_testBit hp.verschieden]
  constructor
  · intro hbit
    rw [Bool.or_eq_true, Bool.and_eq_true, decide_eq_true_eq, decide_eq_true_eq] at hbit
    rcases hbit with hold | ⟨hpd, hslot⟩
    · obtain ⟨t, c, hc, hcpd, hcslot⟩ := (h.slots pd hu i).mp hold
      have ht : t ≠ ziel := by
        rintro rfl
        rw [hfrei] at hc
        cases hc
      exact ⟨t, c, by rw [eintragen_handlerOf_of_ne ht, hc], hcpd, hcslot⟩
    · exact ⟨ziel, b, hself, hpd.symm, hslot⟩
  · rintro ⟨t, c, hc, hcpd, hcslot⟩
    by_cases ht : t = ziel
    · subst ht
      rw [hself] at hc
      cases hc
      simp [hcpd, hcslot]
    · rw [eintragen_handlerOf_of_ne ht] at hc
      have hold := (h.slots pd hu i).mpr ⟨t, c, hc, hcpd, hcslot⟩
      simp [hold]

theorem eintragen_eindeutig (h : s.Inv) (hp : s.Passt ziel gast b) (hlebt : s.lebt ziel = true)
    {t u : ThreadId} {c d : Bindung} (hc : (s.eintragen ziel gast b).handlerOf t = some c)
    (hd : (s.eintragen ziel gast b).handlerOf u = some d) (hpd : c.handlerPd = d.handlerPd)
    (hslot : c.slot = d.slot) : t = u := by
  by_cases ht : t = ziel
  · by_cases hu : u = ziel
    · rw [ht, hu]
    · rw [ht, eintragen_handlerOf_self hlebt] at hc
      cases hc
      rw [eintragen_handlerOf_of_ne hu] at hd
      exact absurd hslot.symm (h.slot_ne_of_passt hp hd hpd.symm)
  · rw [eintragen_handlerOf_of_ne ht] at hc
    by_cases hu : u = ziel
    · rw [hu, eintragen_handlerOf_self hlebt] at hd
      cases hd
      exact absurd hslot (h.slot_ne_of_passt hp hc hpd)
    · rw [eintragen_handlerOf_of_ne hu] at hd
      exact h.eindeutig t u c d hc hd hpd hslot

theorem eintragen_anzahl (h : s.Inv) (hp : s.Passt ziel gast b) (hlebt : s.lebt ziel = true)
    (hfrei : s.handlerOf ziel = none) {g : Nat} (hu : s.caps.pds.isUsed g) :
    ((s.eintragen ziel gast b).gebundene g).Finite ∧
      ((s.eintragen ziel gast b).caps.pds.pds.cell g).handlerBound =
        ((s.eintragen ziel gast b).gebundene g).ncard := by
  have hne := hp.verschieden
  obtain ⟨hfin, hcount⟩ := h.anzahl g hu
  by_cases hg : g = gast
  · subst hg
    have hziel : ziel ∉ s.gebundene g := fun hmem => hmem.2 hfrei
    have hle := h.ncard_le g
    rw [eintragen_gebundene_gast hp hlebt, eintragen_cell_gast hne]
    refine ⟨hfin.insert ziel, ?_⟩
    rw [Set.ncard_insert_of_notMem hziel hfin, ← hcount]
    -- At most 64 threads of one domain are bound, so the counter does not wrap.
    exact Nat.mod_eq_of_lt (by omega)
  · rw [eintragen_gebundene_of_ne hp hg, (eintragen_cell_kante hne hg).2.1]
    exact ⟨hfin, hcount⟩

theorem eintragen_kante (h : s.Inv) (hp : s.Passt ziel gast b) (hlebt : s.lebt ziel = true)
    {g : Nat} (hu : s.caps.pds.isUsed g) :
    (s.eintragen ziel gast b).caps.pds.handlerPdOf g = none ↔
      (s.eintragen ziel gast b).gebundene g = ∅ := by
  have hne := hp.verschieden
  by_cases hg : g = gast
  · subst hg
    have hu' : (s.eintragen ziel g b).caps.pds.isUsed g := (eintragen_isUsed_iff g).mpr hu
    have hkein := h.ne_keinHandlerPd hp.handler
    have hvoll : insert ziel (s.gebundene g) ≠ ∅ := (Set.insert_nonempty ziel _).ne_empty
    rw [eintragen_gebundene_gast hp hlebt]
    simp [PdTable.handlerPdOf, hu', eintragen_cell_gast hne, Pd.kanteSetzen, hkein, hvoll]
  · obtain ⟨hhandler, -, hused⟩ := @eintragen_cell_kante s ziel gast b g hne hg
    have hkante : (s.eintragen ziel gast b).caps.pds.handlerPdOf g =
        s.caps.pds.handlerPdOf g := PdTable.liest_handlerPdOf rfl hused hhandler
    rw [eintragen_gebundene_of_ne hp hg, hkante]
    exact h.kante g hu

/-- A guest that has an edge already keeps it: the check lets only the same one through. -/
theorem eintragen_handlerPd_eq (h : s.Inv) (hp : s.Passt ziel gast b) {g handler : Nat}
    (hhandler : (s.caps.pds.pds.cell g).handlerPd = handler)
    (hused : s.caps.pds.isUsed handler) :
    ((s.eintragen ziel gast b).caps.pds.pds.cell g).handlerPd = handler := by
  have hne := hp.verschieden
  by_cases hg : g = gast
  · subst hg
    have hgast : s.caps.pds.isUsed g := Caps.isUsed_of_pdOf hp.pd
    have hkante : s.caps.pds.handlerPdOf g = some handler := by
      have hkein := h.ne_keinHandlerPd hused
      simp [PdTable.handlerPdOf, hgast, hhandler, hkein]
    rw [eintragen_cell_gast hne]
    rcases hp.kante with hnone | hsame
    · rw [hkante] at hnone
      cases hnone
    · rw [hkante] at hsame
      exact (Option.some.inj hsame).symm
  · rw [(eintragen_cell_kante hne hg).1, hhandler]

theorem eintragen_inv (h : s.Inv) (hp : s.Passt ziel gast b) (hlebt : s.lebt ziel = true)
    (hfrei : s.handlerOf ziel = none) : (s.eintragen ziel gast b).Inv where
  slots := fun _ hu i => eintragen_slots h hp hlebt hfrei ((eintragen_isUsed_iff _).mp hu) i
  eindeutig := fun _ _ _ _ hc hd hpd hslot => eintragen_eindeutig h hp hlebt hc hd hpd hslot
  anzahl := fun _ hu => eintragen_anzahl h hp hlebt hfrei ((eintragen_isUsed_iff _).mp hu)
  kante := fun _ hu => eintragen_kante h hp hlebt ((eintragen_isUsed_iff _).mp hu)
  tabelle := h.tabelle
  bindung := by
    intro t c hc
    by_cases ht : t = ziel
    · rw [ht, eintragen_handlerOf_self hlebt] at hc
      cases hc
      refine ⟨gast, by rw [ht, eintragen_pdOf, hp.pd], hp.verschieden, ?_, ?_, hp.slot_lt⟩
      · rw [eintragen_cell_gast hp.verschieden]
        rfl
      · rw [eintragen_isUsed_iff]
        exact hp.handler
    · rw [eintragen_handlerOf_of_ne ht] at hc
      obtain ⟨g, hpd, hgne, hhandler, hused, hlt⟩ := h.bindung t c hc
      exact ⟨g, by rw [eintragen_pdOf, hpd], hgne, eintragen_handlerPd_eq h hp hhandler hused,
        by rwa [eintragen_isUsed_iff], hlt⟩

theorem eintragen_not_buchfuehrung (h : s.Inv) (hp : s.Passt ziel gast b)
    (hlebt : s.lebt ziel = true) {alt : Bindung} (halt : s.handlerOf ziel = some alt) :
    ¬ (s.eintragen ziel gast b).Buchfuehrung := by
  intro hbuch
  obtain ⟨-, -, -, -, hused, -⟩ := h.bindung ziel alt halt
  have hbit := (h.slots alt.handlerPd hused alt.slot).mpr ⟨ziel, alt, halt, rfl, rfl⟩
  have hbit' : ((s.eintragen ziel gast b).caps.pds.pds.cell alt.handlerPd).sidecarUsed.testBit
      alt.slot = true := by
    rw [eintragen_testBit hp.verschieden, hbit]
    rfl
  obtain ⟨t, c, hc, hcpd, hcslot⟩ :=
    (hbuch.slots alt.handlerPd ((eintragen_isUsed_iff _).mpr hused) alt.slot).mp hbit'
  by_cases ht : t = ziel
  · subst ht
    rw [eintragen_handlerOf_self hlebt] at hc
    cases hc
    -- The new slot was free, the old one was not.
    have hfrei := hp.slot_frei
    rw [hcpd, hcslot, hbit] at hfrei
    cases hfrei
  · rw [eintragen_handlerOf_of_ne ht] at hc
    exact ht (h.eindeutig t ziel c alt hc halt hcpd hcslot)

theorem austragen_isUsed_iff (pd : Nat) :
    (s.austragen ziel gast b).caps.pds.isUsed pd ↔ s.caps.pds.isUsed pd :=
  (PdTable.isUsed_aendern (f := (·.slotLoeschen b.slot)) (fun _ => rfl) pd).trans
    (PdTable.isUsed_aendern (f := (·.kanteLoesen)) (fun _ => rfl) pd)

theorem austragen_pdOf (t : ThreadId) :
    (s.austragen ziel gast b).caps.pdOf t = s.caps.pdOf t := by
  apply Caps.pdOf_congr
  · rfl
  · exact austragen_isUsed_iff

theorem austragen_handlerOf_self : (s.austragen ziel gast b).handlerOf ziel = none := by
  simp [handlerOf, austragen]

theorem austragen_handlerOf_of_ne {t : ThreadId} (ht : t ≠ ziel) :
    (s.austragen ziel gast b).handlerOf t = s.handlerOf t := by
  simp [handlerOf, austragen, update_of_ne ht]

theorem austragen_cell_gast (hne : gast ≠ b.handlerPd) :
    (s.austragen ziel gast b).caps.pds.pds.cell gast =
      (s.caps.pds.pds.cell gast).kanteLoesen := by
  simp only [austragen, PdTable.cell_aendern_self, PdTable.cell_aendern_of_ne _ _ hne]

theorem austragen_cell_handler (hne : gast ≠ b.handlerPd) :
    (s.austragen ziel gast b).caps.pds.pds.cell b.handlerPd =
      (s.caps.pds.pds.cell b.handlerPd).slotLoeschen b.slot := by
  simp only [austragen, PdTable.cell_aendern_self,
    PdTable.cell_aendern_of_ne _ _ (Ne.symm hne)]

theorem austragen_cell_of_ne {pd : Nat} (hg : pd ≠ gast) (hh : pd ≠ b.handlerPd) :
    (s.austragen ziel gast b).caps.pds.pds.cell pd = s.caps.pds.pds.cell pd := by
  simp only [austragen, PdTable.cell_aendern_of_ne _ _ hg, PdTable.cell_aendern_of_ne _ _ hh]

theorem austragen_testBit (h : s.Inv) (hne : gast ≠ b.handlerPd)
    (hused : s.caps.pds.isUsed b.handlerPd) (pd i : Nat) :
    ((s.austragen ziel gast b).caps.pds.pds.cell pd).sidecarUsed.testBit i =
      ((s.caps.pds.pds.cell pd).sidecarUsed.testBit i &&
        !(decide (pd = b.handlerPd) && decide (b.slot = i))) := by
  by_cases hh : pd = b.handlerPd
  · subst hh
    rw [austragen_cell_handler hne, testBit_slotLoeschen]
    by_cases hi : i < 64
    · simp [hi]
    · rw [h.testBit_of_le hused (Nat.le_of_not_lt hi)]
      rfl
  · by_cases hg : pd = gast
    · subst hg
      rw [austragen_cell_gast hne]
      simp [Pd.kanteLoesen, hh]
    · rw [austragen_cell_of_ne hg hh]
      simp [hh]

theorem austragen_cell_kante {pd : Nat} (hne : gast ≠ b.handlerPd) (hg : pd ≠ gast) :
    ((s.austragen ziel gast b).caps.pds.pds.cell pd).handlerPd =
        (s.caps.pds.pds.cell pd).handlerPd ∧
      ((s.austragen ziel gast b).caps.pds.pds.cell pd).handlerBound =
        (s.caps.pds.pds.cell pd).handlerBound ∧
      ((s.austragen ziel gast b).caps.pds.pds.cell pd).used = (s.caps.pds.pds.cell pd).used := by
  by_cases hh : pd = b.handlerPd
  · subst hh
    rw [austragen_cell_handler hne]
    exact ⟨rfl, rfl, rfl⟩
  · rw [austragen_cell_of_ne hg hh]
    exact ⟨rfl, rfl, rfl⟩

theorem austragen_gebundene (g : Nat) :
    (s.austragen ziel gast b).gebundene g = s.gebundene g \ {ziel} := by
  ext t
  simp only [gebundene, Set.mem_ofPred_eq, Set.mem_sdiff, Set.mem_singleton_iff, austragen_pdOf]
  by_cases ht : t = ziel
  · subst ht
    simp [austragen_handlerOf_self]
  · simp [ht, austragen_handlerOf_of_ne ht]

theorem austragen_anzahl (h : s.Inv) (hpd : s.caps.pdOf ziel = some gast)
    (hb : s.handlerOf ziel = some b) (hne : gast ≠ b.handlerPd) (g : Nat)
    (hu : s.caps.pds.isUsed g) :
    ((s.austragen ziel gast b).gebundene g).Finite ∧
      ((s.austragen ziel gast b).caps.pds.pds.cell g).handlerBound =
        ((s.austragen ziel gast b).gebundene g).ncard := by
  obtain ⟨hfin, hcount⟩ := h.anzahl g hu
  rw [austragen_gebundene]
  refine ⟨hfin.subset Set.sdiff_subset, ?_⟩
  by_cases hg : g = gast
  · subst hg
    have hmem : ziel ∈ s.gebundene g := ⟨hpd, by rw [hb]; simp⟩
    rw [austragen_cell_gast hne, Set.ncard_sdiff_singleton_of_mem hmem, ← hcount]
    rfl
  · have hmem : ziel ∉ s.gebundene g := by
      rintro ⟨hpd', -⟩
      rw [hpd] at hpd'
      exact hg (Option.some.inj hpd').symm
    rw [Set.sdiff_singleton_eq_self hmem, (austragen_cell_kante hne hg).2.1, hcount]

theorem austragen_handlerPd_gast (h : s.Inv) (hpd : s.caps.pdOf ziel = some gast)
    (hb : s.handlerOf ziel = some b) (hne : gast ≠ b.handlerPd) :
    ((s.austragen ziel gast b).gebundene gast = ∅ ∧
        ((s.austragen ziel gast b).caps.pds.pds.cell gast).handlerPd = keinHandlerPd) ∨
      ((s.austragen ziel gast b).gebundene gast ≠ ∅ ∧
        ((s.austragen ziel gast b).caps.pds.pds.cell gast).handlerPd =
          (s.caps.pds.pds.cell gast).handlerPd) := by
  obtain ⟨hfin, hcount⟩ := austragen_anzahl h hpd hb hne gast (Caps.isUsed_of_pdOf hpd)
  rw [austragen_cell_gast hne] at hcount ⊢
  by_cases hlast : (s.caps.pds.pds.cell gast).handlerBound - 1 = 0
  · refine .inl ⟨?_, by simp [Pd.kanteLoesen, hlast]⟩
    rw [← Set.ncard_eq_zero hfin, ← hcount]
    exact hlast
  · refine .inr ⟨fun hempty => ?_, by simp [Pd.kanteLoesen, hlast]⟩
    rw [hempty, Set.ncard_empty] at hcount
    exact hlast hcount

theorem austragen_handlerOf_eq_some {t : ThreadId} {c : Bindung}
    (hc : (s.austragen ziel gast b).handlerOf t = some c) :
    t ≠ ziel ∧ s.handlerOf t = some c := by
  have ht : t ≠ ziel := by
    rintro rfl
    rw [austragen_handlerOf_self] at hc
    cases hc
  rw [austragen_handlerOf_of_ne ht] at hc
  exact ⟨ht, hc⟩

theorem austragen_slots (h : s.Inv) (hb : s.handlerOf ziel = some b) (hne : gast ≠ b.handlerPd)
    (hhandler : s.caps.pds.isUsed b.handlerPd) {pd : Nat} (hu : s.caps.pds.isUsed pd) (i : Nat) :
    ((s.austragen ziel gast b).caps.pds.pds.cell pd).sidecarUsed.testBit i = true ↔
      ∃ t c, (s.austragen ziel gast b).handlerOf t = some c ∧ c.handlerPd = pd ∧ c.slot = i := by
  rw [austragen_testBit h hne hhandler]
  constructor
  · intro hbit
    rw [Bool.and_eq_true, Bool.not_eq_true', Bool.and_eq_false_iff, decide_eq_false_iff_not,
      decide_eq_false_iff_not] at hbit
    obtain ⟨t, c, hc, hcpd, hcslot⟩ := (h.slots pd hu i).mp hbit.1
    have ht : t ≠ ziel := by
      rintro rfl
      rw [hb] at hc
      cases hc
      rcases hbit.2 with hno | hno
      · exact hno hcpd.symm
      · exact hno hcslot
    exact ⟨t, c, by rw [austragen_handlerOf_of_ne ht, hc], hcpd, hcslot⟩
  · rintro ⟨t, c, hc, hcpd, hcslot⟩
    obtain ⟨ht, hc⟩ := austragen_handlerOf_eq_some hc
    have hbit := (h.slots pd hu i).mpr ⟨t, c, hc, hcpd, hcslot⟩
    -- The cleared slot belonged to `ziel` alone.
    have hno : ¬ (pd = b.handlerPd ∧ b.slot = i) := by
      rintro ⟨rfl, rfl⟩
      exact ht (h.eindeutig t ziel c b hc hb hcpd hcslot)
    rw [hbit, Bool.true_and, Bool.not_eq_true', Bool.and_eq_false_iff, decide_eq_false_iff_not,
      decide_eq_false_iff_not]
    exact Classical.not_and_iff_not_or_not.mp hno

theorem austragen_kante (h : s.Inv) (hpd : s.caps.pdOf ziel = some gast)
    (hb : s.handlerOf ziel = some b) (hne : gast ≠ b.handlerPd)
    (hhandler : s.caps.pds.isUsed b.handlerPd)
    (hhandlerPd : (s.caps.pds.pds.cell gast).handlerPd = b.handlerPd) {g : Nat}
    (hu : s.caps.pds.isUsed g) :
    (s.austragen ziel gast b).caps.pds.handlerPdOf g = none ↔
      (s.austragen ziel gast b).gebundene g = ∅ := by
  by_cases hg : g = gast
  · subst hg
    have hu' : (s.austragen ziel g b).caps.pds.isUsed g := (austragen_isUsed_iff g).mpr hu
    rcases austragen_handlerPd_gast h hpd hb hne with ⟨hempty, hkein⟩ | ⟨hvoll, hsame⟩
    · simp [hempty, PdTable.handlerPdOf, hkein]
    · have hkein := h.ne_keinHandlerPd hhandler
      simp [hvoll, PdTable.handlerPdOf, hu', hsame, hhandlerPd, hkein]
  · obtain ⟨hhandlerSame, -, hused⟩ := @austragen_cell_kante s ziel gast b g hne hg
    have heq : (s.austragen ziel gast b).caps.pds.handlerPdOf g =
        s.caps.pds.handlerPdOf g := PdTable.liest_handlerPdOf rfl hused hhandlerSame
    have hmem : ziel ∉ s.gebundene g := by
      rintro ⟨hpd', -⟩
      rw [hpd] at hpd'
      exact hg (Option.some.inj hpd').symm
    rw [heq, austragen_gebundene, Set.sdiff_singleton_eq_self hmem]
    exact h.kante g hu

theorem austragen_handlerPd_eq (h : s.Inv) (hpd : s.caps.pdOf ziel = some gast)
    (hb : s.handlerOf ziel = some b) (hne : gast ≠ b.handlerPd) {g : Nat}
    (hg : ((s.austragen ziel gast b).gebundene g).Nonempty) :
    ((s.austragen ziel gast b).caps.pds.pds.cell g).handlerPd =
      (s.caps.pds.pds.cell g).handlerPd := by
  by_cases heq : g = gast
  · subst heq
    rcases austragen_handlerPd_gast h hpd hb hne with ⟨hempty, -⟩ | ⟨-, hsame⟩
    · exact absurd hempty hg.ne_empty
    · exact hsame
  · exact (austragen_cell_kante hne heq).1

theorem austragen_inv (h : s.Inv) (hpd : s.caps.pdOf ziel = some gast)
    (hb : s.handlerOf ziel = some b) (hne : gast ≠ b.handlerPd) :
    (s.austragen ziel gast b).Inv := by
  obtain ⟨g₀, hg₀, -, hhandlerPd, hhandler, -⟩ := h.bindung ziel b hb
  rw [hpd] at hg₀
  cases hg₀
  refine ⟨⟨fun pd hu i => ?_, fun t u c d hc hd hcd hslot => ?_, fun g hu => ?_, fun g hu => ?_⟩,
    h.tabelle, fun t c hc => ?_⟩
  · exact austragen_slots h hb hne hhandler ((austragen_isUsed_iff pd).mp hu) i
  · exact h.eindeutig t u c d (austragen_handlerOf_eq_some hc).2
      (austragen_handlerOf_eq_some hd).2 hcd hslot
  · exact austragen_anzahl h hpd hb hne g ((austragen_isUsed_iff g).mp hu)
  · exact austragen_kante h hpd hb hne hhandler hhandlerPd ((austragen_isUsed_iff g).mp hu)
  · obtain ⟨g, hgpd, hgne, hghandler, hused, hlt⟩ :=
      h.bindung t c (austragen_handlerOf_eq_some hc).2
    have hgpd' : (s.austragen ziel gast b).caps.pdOf t = some g := by rw [austragen_pdOf, hgpd]
    have hmem : t ∈ (s.austragen ziel gast b).gebundene g := ⟨hgpd', by rw [hc]; simp⟩
    refine ⟨g, hgpd', hgne, ?_, by rwa [austragen_isUsed_iff], hlt⟩
    rw [austragen_handlerPd_eq h hpd hb hne ⟨t, hmem⟩, hghandler]

theorem kanteLoesen_kanteSetzen {p : Pd} {handler : Nat} (hlt : p.handlerBound < 2 ^ 32 - 1)
    (hzero : p.handlerBound = 0 → p.handlerPd = keinHandlerPd)
    (hpos : p.handlerBound ≠ 0 → p.handlerPd = handler) :
    (p.kanteSetzen handler).kanteLoesen = p := by
  have hmod : (p.handlerBound + 1) % 2 ^ 32 = p.handlerBound + 1 := Nat.mod_eq_of_lt (by omega)
  unfold Pd.kanteLoesen Pd.kanteSetzen
  rw [hmod, Nat.add_sub_cancel]
  by_cases h : p.handlerBound = 0
  · rw [if_pos h, ← hzero h]
  · rw [if_neg h, ← hpos h]

theorem slotLoeschen_slotSetzen {p : Pd} {slot : Nat} (hslot : slot < 64)
    (hfrei : p.sidecarUsed.testBit slot = false)
    (hhoch : ∀ i, 64 ≤ i → p.sidecarUsed.testBit i = false) :
    (p.slotSetzen slot).slotLoeschen slot = p := by
  have hbits : ((p.slotSetzen slot).slotLoeschen slot).sidecarUsed = p.sidecarUsed := by
    apply Nat.eq_of_testBit_eq
    intro i
    rw [testBit_slotLoeschen, testBit_slotSetzen]
    by_cases hi : slot = i
    · subst hi
      simp [hfrei, hslot]
    · by_cases hlt : i < 64
      · simp [hi, hlt]
      · simp [hi, hlt, hhoch i (Nat.le_of_not_lt hlt)]
  have hrest : (p.slotSetzen slot).slotLoeschen slot =
      { p with sidecarUsed := ((p.slotSetzen slot).slotLoeschen slot).sidecarUsed } := rfl
  rw [hrest, hbits]

theorem zuruecknehmen_cell (h : s.Inv) (hp : s.Passt ziel gast b) (t : PdTable)
    (ht : t = (s.eintragen ziel gast b).caps.pds) :
    ((t.handlerKanteLoesen gast).2.sidecarFreigeben b.handlerPd b.slot).2.pds.len =
        s.caps.pds.pds.len ∧
      ∀ pd, ((t.handlerKanteLoesen gast).2.sidecarFreigeben b.handlerPd b.slot).2.pds.cell pd =
        s.caps.pds.pds.cell pd := by
  have hne := hp.verschieden
  have hgast : s.caps.pds.isUsed gast := Caps.isUsed_of_pdOf hp.pd
  have hle := h.handlerBound_le hgast
  have hcellG : t.pds.cell gast = (s.caps.pds.pds.cell gast).kanteSetzen b.handlerPd := by
    rw [ht]
    exact eintragen_cell_gast hne
  have hcellH : t.pds.cell b.handlerPd =
      (s.caps.pds.pds.cell b.handlerPd).slotSetzen b.slot := by
    rw [ht]
    exact eintragen_cell_handler hne
  have hused : ∀ pd, t.isUsed pd ↔ s.caps.pds.isUsed pd := by
    rw [ht]
    exact eintragen_isUsed_iff
  have hlen : t.pds.len = s.caps.pds.pds.len := by
    rw [ht]
    rfl
  have hbound : (t.pds.cell gast).handlerBound ≠ 0 := by
    have hmod : ((s.caps.pds.pds.cell gast).handlerBound + 1) % 2 ^ 32 =
        (s.caps.pds.pds.cell gast).handlerBound + 1 := Nat.mod_eq_of_lt (by omega)
    rw [hcellG]
    simp only [Pd.kanteSetzen, hmod]
    omega
  have hloesen : (t.handlerKanteLoesen gast).2 = t.aendern gast (·.kanteLoesen) := by
    rw [PdTable.handlerKanteLoesen, if_pos ⟨(hused gast).mpr hgast, hbound⟩]
  have husedH : (t.aendern gast (·.kanteLoesen)).isUsed b.handlerPd := by
    rw [PdTable.isUsed_aendern (f := (·.kanteLoesen)) (fun _ => rfl), hused]
    exact hp.handler
  have hfrei : ((t.handlerKanteLoesen gast).2.sidecarFreigeben b.handlerPd b.slot).2 =
      (t.aendern gast (·.kanteLoesen)).aendern b.handlerPd (·.slotLoeschen b.slot) := by
    rw [hloesen, PdTable.sidecarFreigeben, if_pos ⟨husedH, hp.slot_lt⟩]
  rw [hfrei]
  refine ⟨hlen, fun pd => ?_⟩
  by_cases hh : pd = b.handlerPd
  · subst hh
    rw [PdTable.cell_aendern_self, PdTable.cell_aendern_of_ne _ _ (Ne.symm hne), hcellH]
    exact slotLoeschen_slotSetzen hp.slot_lt hp.slot_frei fun i hi => h.testBit_of_le hp.handler hi
  · rw [PdTable.cell_aendern_of_ne _ _ hh]
    by_cases hg : pd = gast
    · subst hg
      rw [PdTable.cell_aendern_self, hcellG]
      apply kanteLoesen_kanteSetzen
      · omega
      · exact h.handlerPd_of_bound_zero hgast
      · intro hpos
        -- A counted thread means an edge, and the check let only the same one through.
        obtain ⟨hfin, hcount⟩ := h.anzahl pd hgast
        have hvoll : s.gebundene pd ≠ ∅ := by
          intro hempty
          rw [hempty, Set.ncard_empty] at hcount
          exact hpos hcount
        rcases hp.kante with hnone | hsame
        · exact absurd ((h.kante pd hgast).mp hnone) hvoll
        · unfold PdTable.handlerPdOf at hsame
          split at hsame
          · exact Option.some.inj hsame
          · cases hsame
    · rw [PdTable.cell_aendern_of_ne _ _ hg, ht, eintragen_cell_of_ne hg hh]

end

theorem Inv.gast_lt {s : HandlerSystem} (h : s.Inv) {t : ThreadId} {gast : Nat}
    (hpd : s.caps.pdOf t = some gast) : gast < 2 ^ 16 := by
  have hlt := (Caps.isUsed_of_pdOf hpd).1
  have hle := h.tabelle
  have hnpds : npds = 10000 := rfl
  omega

/-- The binding half of a request: it binds a living target whose domain passes the check,
and otherwise leaves no trace. -/
theorem binden_cases {s : HandlerSystem} (h : s.Inv) (ziel : ThreadId)
    (sysEp fltEp handlerPd sidecar : Nat) :
    (∃ gast b, s.lebt ziel = true ∧ s.caps.pdOf ziel = some gast ∧
        s.bindUrteil gast handlerPd sysEp fltEp = .ok ∧ s.Passt ziel gast b ∧
        (s.binden ziel sysEp fltEp handlerPd sidecar).2 = s.eintragen ziel gast b) ∨
      (¬ (s.lebt ziel = true ∧ ∃ gast, s.caps.pdOf ziel = some gast ∧
          s.bindUrteil gast handlerPd sysEp fltEp = .ok) ∧
        s.Gleich (s.binden ziel sysEp fltEp handlerPd sidecar).2) := by
  unfold binden
  cases hpd : s.caps.pdOf ziel with
  | none => exact .inr ⟨by simp, Gleich.refl s⟩
  | some gast =>
    dsimp only
    by_cases hok : s.bindUrteil gast handlerPd sysEp fltEp = .ok
    · obtain ⟨hfrei, hne, hkante⟩ := bindUrteil_ok (h.gast_lt hpd) hok
      obtain ⟨hused, hlt, hbit, hbelegen⟩ := PdTable.sidecarBelegen_of_frei hfrei
      have hp : s.Passt ziel gast ⟨sysEp, fltEp, handlerPd,
          trailingOnes (s.caps.pds.pds.cell handlerPd).sidecarUsed, sidecar⟩ :=
        ⟨hpd, hused, hne, hlt, hbit, hkante⟩
      have hgast : (s.caps.pds.aendern handlerPd (·.slotSetzen
          (trailingOnes (s.caps.pds.pds.cell handlerPd).sidecarUsed))).isUsed gast := by
        rw [PdTable.isUsed_aendern
          (f := (·.slotSetzen (trailingOnes (s.caps.pds.pds.cell handlerPd).sidecarUsed)))
          (fun _ => rfl)]
        exact Caps.isUsed_of_pdOf hpd
      simp only [hok, hbelegen, PdTable.handlerKanteSetzen, if_pos hgast]
      cases hlebt : s.lebt ziel with
      | true =>
        refine .inl ⟨gast, _, rfl, rfl, hok, hp, ?_⟩
        simp only [setHandler, mitPds, hlebt, if_true]
        rfl
      | false =>
        refine .inr ⟨by simp, ?_⟩
        simp only [setHandler, mitPds, hlebt]
        obtain ⟨hlen, hcell⟩ := zuruecknehmen_cell h hp _ rfl
        exact ⟨rfl, rfl, hlen, hcell, rfl, rfl⟩
    · refine .inr ⟨?_, ?_⟩
      · rintro ⟨-, g, hg, hgok⟩
        cases hg
        exact hok hgok
      · cases hurteil : s.bindUrteil gast handlerPd sysEp fltEp <;>
          first
          | exact absurd hurteil hok
          | exact Gleich.refl s

theorem entbinden_cases {s : HandlerSystem} (h : s.Inv) (ziel : ThreadId) :
    (∃ gast b, s.caps.pdOf ziel = some gast ∧ s.handlerOf ziel = some b ∧ gast ≠ b.handlerPd ∧
        (s.entbinden ziel).2 = s.austragen ziel gast b) ∨
      (s.entbinden ziel).2 = s := by
  unfold entbinden
  cases hb : s.handlerOf ziel with
  | none => exact .inr rfl
  | some b =>
    obtain ⟨gast, hpd, hne, hhandlerPd, hused, hlt⟩ := h.bindung ziel b hb
    have hlebt : s.lebt ziel = true := by
      unfold handlerOf at hb
      split at hb
      · assumption
      · cases hb
    have hgast : s.caps.pds.isUsed gast := Caps.isUsed_of_pdOf hpd
    have hbound : (s.caps.pds.pds.cell gast).handlerBound ≠ 0 := by
      have hpos := h.handlerBound_pos (g := gast) (t := ziel) ⟨hpd, by rw [hb]; simp⟩
      omega
    have husedH : (s.caps.pds.aendern gast (·.kanteLoesen)).isUsed b.handlerPd := by
      rw [PdTable.isUsed_aendern (f := (·.kanteLoesen)) (fun _ => rfl)]
      exact hused
    refine .inl ⟨gast, b, hpd, rfl, hne, ?_⟩
    have hslot : b.slot < sidecarSlots := hlt
    simp only [setHandler, hlebt, if_true, hpd, PdTable.handlerKanteLoesen,
      if_pos (And.intro hgast hbound), PdTable.sidecarFreigeben,
      if_pos (And.intro husedH hslot), mitPds]
    rfl

/-- What one request can do: bind a thread that passes every check, unbind a bound
thread, or nothing. -/
theorem sethandler_cases {s : HandlerSystem} (h : s.Inv) (a : Anfrage) :
    (∃ ziel gast b, s.BindetWirklich a ziel ∧ s.lebt ziel = true ∧ s.Passt ziel gast b ∧
        (s.sethandler a).2 = s.eintragen ziel gast b) ∨
      ((∀ ziel, ¬ s.BindetWirklich a ziel) ∧
        ((∃ ziel gast b, s.caps.pdOf ziel = some gast ∧ s.handlerOf ziel = some b ∧
            gast ≠ b.handlerPd ∧ (s.sethandler a).2 = s.austragen ziel gast b) ∨
          s.Gleich (s.sethandler a).2)) := by
  unfold sethandler
  by_cases hum : s.umgeleitet a.aufrufer = true
  · rw [if_pos hum]
    refine .inr ⟨fun ziel hb => ?_, .inr (Gleich.refl s)⟩
    rw [hb.1] at hum
    cases hum
  rw [if_neg hum]
  cases hauf : s.caps.aufloesen a.aufrufer a.tcbSlot with
  | error e =>
    refine .inr ⟨fun ziel hb => ?_, .inr (Gleich.refl s)⟩
    obtain ⟨-, -, -, pd, raw, rights, badge, -, -, -, -, -, hauf', -⟩ := hb
    rw [hauf] at hauf'
    cases hauf'
  | ok r =>
    obtain ⟨pd, kind, rights, badge⟩ := r
    cases kind with
    | tcb raw =>
      dsimp only
      by_cases hrechte : rights.contains Rights.write = false
      · rw [if_pos hrechte]
        refine .inr ⟨fun ziel hb => ?_, .inr (Gleich.refl s)⟩
        obtain ⟨-, -, -, pd', raw', rights', badge', -, -, -, -, -, hauf', -, hw, -⟩ := hb
        rw [hauf] at hauf'
        cases hauf'
        rw [hrechte] at hw
        cases hw
      · rw [if_neg hrechte]
        by_cases hent : a.sysSlot = u64Max ∧ a.fltSlot = u64Max
        · rw [if_pos hent]
          refine .inr ⟨fun ziel hb => hb.2.1 hent, ?_⟩
          rcases entbinden_cases h (threadFromRaw raw) with ⟨gast, b, hpd, hb, hne, heq⟩ | heq
          · exact .inl ⟨threadFromRaw raw, gast, b, hpd, hb, hne, heq⟩
          · right
            rw [heq]
            exact Gleich.refl s
        · rw [if_neg hent]
          cases hcaps : s.handlerCaps pd a.sysSlot a.fltSlot with
          | error e =>
            refine .inr ⟨fun ziel hb => ?_, .inr (Gleich.refl s)⟩
            obtain ⟨-, -, -, pd', raw', rights', badge', sysEp, fltEp, handlerPd, sidecar,
              gast, hauf', -, -, hcaps', -⟩ := hb
            rw [hauf] at hauf'
            cases hauf'
            rw [hcaps] at hcaps'
            cases hcaps'
          | ok r =>
            obtain ⟨sysEp, fltEp, handlerPd, sidecar⟩ := r
            rcases binden_cases h (threadFromRaw raw) sysEp fltEp handlerPd sidecar with
              ⟨gast, b, hlebt, hpd, hok, hp, heq⟩ | ⟨hnot, hgleich⟩
            · refine .inl ⟨threadFromRaw raw, gast, b, ?_, hlebt, hp, heq⟩
              exact ⟨by simpa using hum, hent, hlebt, pd, raw, rights, badge, sysEp, fltEp,
                handlerPd, sidecar, gast, hauf, rfl, by simpa using hrechte, hcaps, hpd, hok⟩
            · refine .inr ⟨fun ziel hb => ?_, .inr hgleich⟩
              obtain ⟨-, -, hlebt, pd', raw', rights', badge', sysEp', fltEp', handlerPd',
                sidecar', gast, hauf', hziel, -, hcaps', hpd, hok⟩ := hb
              rw [hauf] at hauf'
              cases hauf'
              rw [hcaps] at hcaps'
              cases hcaps'
              subst hziel
              exact hnot ⟨hlebt, gast, hpd, hok⟩
    | _ =>
      refine .inr ⟨fun ziel hb => ?_, .inr (Gleich.refl s)⟩
      obtain ⟨-, -, -, pd', raw', rights', badge', -, -, -, -, -, hauf', -⟩ := hb
      rw [hauf] at hauf'
      cases hauf'

theorem step_inv (s : HandlerSystem) (a : Anfrage) (h : s.Inv) (hok : s.KeineZweiteBindung a) :
    ∃ s', s.step a = some s' ∧ s'.Inv := by
  refine ⟨_, rfl, ?_⟩
  rcases sethandler_cases h a with
    ⟨ziel, gast, b, hbindet, hlebt, hp, heq⟩ | ⟨-, ⟨ziel, gast, b, hpd, hb, hne, heq⟩ | hgleich⟩
  · rw [heq]
    exact eintragen_inv h hp hlebt (hok ziel hbindet)
  · rw [heq]
    exact austragen_inv h hpd hb hne
  · exact hgleich.inv h

theorem step_not_buchfuehrung (s : HandlerSystem) (a : Anfrage) (h : s.Inv)
    (hnot : ¬ s.KeineZweiteBindung a) : ∃ s', s.step a = some s' ∧ ¬ s'.Buchfuehrung := by
  refine ⟨_, rfl, ?_⟩
  simp only [KeineZweiteBindung, not_forall] at hnot
  obtain ⟨ziel, hbindet, halt⟩ := hnot
  rcases sethandler_cases h a with ⟨ziel', gast, b, hbindet', hlebt, hp, heq⟩ | ⟨hkein, -⟩
  · -- A request names one target only.
    have hziel : ziel = ziel' := by
      obtain ⟨-, -, -, pd, raw, rights, badge, -, -, -, -, -, hauf, hz, -⟩ := hbindet
      obtain ⟨-, -, -, pd', raw', rights', badge', -, -, -, -, -, hauf', hz', -⟩ := hbindet'
      rw [hauf] at hauf'
      cases hauf'
      rw [hz, hz']
    subst hziel
    obtain ⟨alt, halt⟩ := Option.ne_none_iff_exists'.mp halt
    rw [heq]
    exact eintragen_not_buchfuehrung h hp hlebt halt
  · exact absurd hbindet (hkein ziel)

/-- From any system in which nothing is bound, the books agree after every prefix of a
sequence of requests exactly when none of them binds a thread that is bound already. -/
theorem run_buchfuehrung_iff (s : HandlerSystem) (hs : s.Anfang) (as : List Anfrage) :
    (∀ xs, xs <+: as → ∃ t, run step s xs = some t ∧ t.Buchfuehrung) ↔
      Admissible step KeineZweiteBindung s as :=
  forall_prefix_iff_admissible (fun _ h => h.toBuchfuehrung) step_inv step_not_buchfuehrung hs.inv as

/-- Two domains of two slots each.  Thread 1 of domain 1 holds a Tcb capability of thread 0
and a handler capability of its own domain. -/
def gastUndHandler : HandlerSystem where
  caps := {
    cspace := (((CapSpace.attached (.klein 2 2)).install (.tcb 0) Rights.rw).2.install
      (.syscallHandler 0 1 4096 32768) Rights.rw).2
    pds := { PdTable.attached 2 4 with
      pds := ⟨2, fun k => { Pd.empty with used := true, cspaceStart := 2 * k, cspaceLen := 2 }⟩
      cspacePool := ⟨4, fun k =>
        if k = 2 then some ⟨0, 0⟩ else if k = 3 then some ⟨1, 0⟩ else none⟩
      cspaceVergabe := ⟨4, 0⟩ }
    owner := fun t => some t.slot }
  lebt := fun t => decide (t.slot < 2 ∧ t.gen = 0)
  bindung := fun _ => none

def bindeGast : Anfrage := ⟨⟨1, 0⟩, 0, 1, u64Max⟩

theorem gastUndHandler_anfang : gastUndHandler.Anfang where
  tabelle := by decide
  pds _ := ⟨rfl, rfl, rfl⟩
  threads _ := rfl

theorem run_buchfuehrung_iff_bindeGast :
    gastUndHandler.Anfang ∧ ∀ xs, xs <+: [bindeGast] →
      ∃ t, run step gastUndHandler xs = some t ∧ t.Buchfuehrung :=
  ⟨gastUndHandler_anfang, (run_buchfuehrung_iff gastUndHandler gastUndHandler_anfang _).mpr
    ⟨fun _ _ => handlerOf_eq_none_of_bindung rfl, fun _ _ => trivial⟩⟩

theorem bindeGast_twice_bindung :
    ((gastUndHandler.sethandler bindeGast).2.sethandler bindeGast).2.bindung =
      update (update (fun _ => none) ⟨0, 0⟩ (some ⟨0, keinEp, 1, 0, 4096⟩))
        ⟨0, 0⟩ (some ⟨0, keinEp, 1, 1, 4096⟩) := rfl

/-- The second request takes slot 1; the bit of slot 0 stays and belongs to nobody. -/
theorem run_bindeGast_twice :
    ∃ t, run step gastUndHandler [bindeGast, bindeGast] = some t ∧ ¬ t.Buchfuehrung := by
  refine ⟨_, rfl, fun h => ?_⟩
  obtain ⟨t, b, ht, -, hslot⟩ := (h.slots 1 (by decide) 0).mp (by decide)
  unfold handlerOf at ht
  split at ht
  · rw [bindeGast_twice_bindung, update_idem, update_apply] at ht
    split at ht
    · cases ht
      cases hslot
    · cases ht
  · cases ht

end HandlerSystem

end Caprock.Microkit
