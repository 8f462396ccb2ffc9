import Mathlib.Logic.Function.Basic
import Caprock.Lib.Checks
import Caprock.Lib.Ranges
import Caprock.Lib.Slots
import Caprock.Dma.Pool
import Caprock.Wait.Mutex

/-! # The memory server

A protection domain holds one arena and lends pieces of it.  A request takes a piece from the free
list by first fit and records it in a table of sixteen grants; the client gets a handle, made of a
generation and a table place, and names its grant by it afterwards.  A returned piece goes back
into the free list, which is sorted and joined on the way.

Offsets and lengths of the arena stay below `arenaLen`, so their sums are plain sums here; where
the source checks a sum, so does the model.
-/

namespace Caprock.MemServer

open Word Checks Ranges
open Caprock.Wait (Tid Mutex LockError)
open Caprock.Dma (DmaPool DmaBuf)

def pageSize : Nat := 4096
def startKapital : Nat := 4096
def pdBoot : Nat := 1
def maxGrants : Nat := 16

inductive Zweck where
  | allgemein
  | dmaPuffer
  | stapel
  | abbildung
  deriving DecidableEq, Repr

def Zweck.kennziffer : Zweck → Nat
  | .allgemein => 0
  | .dmaPuffer => 1
  | .stapel => 2
  | .abbildung => 3

def Zweck.ausKennziffer : Nat → Option Zweck
  | 0 => some .allgemein
  | 1 => some .dmaPuffer
  | 2 => some .stapel
  | 3 => some .abbildung
  | _ => none

inductive SpeicherFehler where
  | leereAnfrage
  | keinPlatz
  | tabelleVoll
  | unbekannterSchein
  | fremderSchein
  | bereitsZurueck
  | zweckAbgelehnt
  | kontingentErschoepft
  | nochAbgebildet
  | nichtAbgebildet
  | entzogen
  | unbekannteArt
  | sperre (e : LockError)
  deriving DecidableEq, Repr

/-- What a client gets for a request. -/
structure GrantSchein where
  handle : Nat
  offset : Nat
  len : Nat
  deriving DecidableEq, Repr

/-- What a handle resolves to: the place in the arena, for the client and for the device. -/
structure GrantSicht where
  offset : Nat
  len : Nat
  cpu : Nat
  dev : Nat
  deriving DecidableEq, Repr

structure Grant where
  handle : Nat
  pd : Nat
  offset : Nat
  len : Nat
  cpu : Nat
  dev : Nat
  zweck : Zweck
  abgebildet : Bool
  entzogen : Bool
  live : Bool
  deriving DecidableEq, Repr

def Grant.bereich (g : Grant) : Range := (g.offset, g.len)

def Grant.kern (g : Grant) : Grant := { g with abgebildet := false, entzogen := false }

/-- `MemMap`: a window of pages from `basis` on. -/
structure MemMap where
  basis : Nat
  seiten : Nat
  deriving DecidableEq, Repr

def MemMap.addrZuPfn (m : MemMap) (addr : Nat) : Option Nat :=
  match checkedMul m.seiten pageSize with
  | none => none
  | some len =>
      match checkedAdd m.basis len with
      | none => none
      | some ende =>
          if addr < m.basis ∨ ende ≤ addr then none else some ((addr - m.basis) / pageSize)

theorem MemMap.addrZuPfn_of_mem {m : MemMap} {addr : Nat}
    (hende : m.basis + m.seiten * pageSize < 2 ^ 64) (hlo : m.basis ≤ addr)
    (hhi : addr < m.basis + m.seiten * pageSize) :
    m.addrZuPfn addr = some ((addr - m.basis) / pageSize) := by
  have hmul : m.seiten * pageSize < 2 ^ 64 := by omega
  simp only [addrZuPfn, checkedMul_eq hmul, checkedAdd_eq hende]
  exact if_neg (by omega)

def ueberlappt (aOff aLen bOff bLen : Nat) : Bool :=
  match checkedAdd aOff aLen, checkedAdd bOff bLen with
  | some aEnde, some bEnde => decide (aOff < bEnde ∧ bOff < aEnde)
  | _, _ => true

theorem ueberlappt_eq_false {aOff aLen bOff bLen : Nat} (ha : aOff + aLen < 2 ^ 64)
    (hb : bOff + bLen < 2 ^ 64) :
    ueberlappt aOff aLen bOff bLen = false ↔ aOff + aLen ≤ bOff ∨ bOff + bLen ≤ aOff := by
  simp only [ueberlappt, checkedAdd_eq ha, checkedAdd_eq hb, decide_eq_false_iff_not]
  omega

def rundeAufSeite (len : Nat) : Option Nat :=
  let r := len % pageSize
  if r = 0 then some len else checkedAdd len (pageSize - r)

/-- The element at the end of a sorted prefix moves down to its place.  The prefix is given from
its end. -/
def einsinken (x : Range) : List Range → List Range
  | [] => [x]
  | y :: ys => if x.1 < y.1 then y :: einsinken x ys else x :: y :: ys

/-- The outer loop of the insertion sort; `pre` is the sorted prefix from its end. -/
def sortieren : List Range → List Range → List Range
  | pre, [] => pre.reverse
  | pre, x :: xs => sortieren (einsinken x pre) xs

/-- The joining pass; `pre` is what was written so far, from its end. -/
def verschmelzen : List Range → List Range → List Range
  | pre, [] => pre.reverse
  | [], r :: rs => verschmelzen [r] rs
  | (o, l) :: pre, r :: rs =>
      if o + l = r.1 then verschmelzen ((o, l + r.2) :: pre) rs
      else verschmelzen (r :: (o, l) :: pre) rs

theorem einsinken_perm (x : Range) (l : List Range) : (einsinken x l).Perm (x :: l) := by
  induction l with
  | nil => exact List.Perm.refl _
  | cons y ys ih =>
    unfold einsinken
    by_cases h : x.1 < y.1
    · rw [if_pos h]
      exact (ih.cons y).trans (List.Perm.swap x y ys)
    · rw [if_neg h]

theorem sortieren_perm (pre l : List Range) : (sortieren pre l).Perm (pre ++ l) := by
  induction l generalizing pre with
  | nil => simp [sortieren]
  | cons x xs ih =>
    have hnext := (einsinken_perm x pre).append_right xs
    exact (ih (einsinken x pre)).trans (hnext.trans List.perm_middle.symm)

theorem length_verschmelzen_le (pre l : List Range) :
    (verschmelzen pre l).length ≤ pre.length + l.length := by
  induction l generalizing pre with
  | nil => simp [verschmelzen]
  | cons r rs ih =>
    cases pre with
    | nil =>
      have hrest := ih [r]
      simp only [verschmelzen, List.length_cons, List.length_nil] at hrest ⊢
      omega
    | cons p pre =>
      obtain ⟨o, l⟩ := p
      unfold verschmelzen
      by_cases h : o + l = r.1
      · have hrest := ih ((o, l + r.2) :: pre)
        rw [if_pos h]
        simp only [List.length_cons] at hrest ⊢
        omega
      · have hrest := ih (r :: (o, l) :: pre)
        rw [if_neg h]
        simp only [List.length_cons] at hrest ⊢
        omega

/-- `freie` up to `freie_n`. -/
structure Freiliste where
  bereiche : List Range
  platz : bereiche.length ≤ maxGrants

namespace Freiliste

/-- `freien_bereich_nehmen`: first fit.  An exact fit is given up by moving the last entry there. -/
def nehmen (f : Freiliste) (bedarf : Nat) : Option (Nat × Freiliste) :=
  match f.bereiche.findIdx? (fun r => decide (bedarf ≤ r.2)) with
  | none => none
  | some i =>
      match f.bereiche[i]? with
      | none => none
      | some (off, len) =>
          if len = bedarf then
            some (off, ⟨(f.bereiche.set i (f.bereiche.getLastD (off, len))).dropLast, by
              have hplatz := f.platz
              rw [List.length_dropLast, List.length_set]
              omega⟩)
          else
            some (off, ⟨f.bereiche.set i (off + bedarf, len - bedarf), by
              rw [List.length_set]
              exact f.platz⟩)

/-- `freien_bereich_ablegen`: a full list drops the range. -/
def ablegen (f : Freiliste) (off len : Nat) : Freiliste :=
  if h : maxGrants ≤ f.bereiche.length then f
  else ⟨verschmelzen [] (sortieren [] (f.bereiche ++ [(off, len)])), by
    have hlen := length_verschmelzen_le [] (sortieren [] (f.bereiche ++ [(off, len)]))
    rw [(sortieren_perm [] _).length_eq] at hlen
    simp only [List.nil_append, List.length_append, List.length_singleton, List.length_nil] at hlen
    omega⟩

theorem nehmen_cases {f f' : Freiliste} {bedarf off : Nat} (h : f.nehmen bedarf = some (off, f')) :
    ∃ rest, f.bereiche.Perm ((off, bedarf) :: rest) ∧ f'.bereiche.Perm rest ∨
      ∃ len, bedarf < len ∧ f.bereiche.Perm ((off, len) :: rest) ∧
        f'.bereiche.Perm ((off + bedarf, len - bedarf) :: rest) := by
  unfold nehmen at h
  cases hi : f.bereiche.findIdx? (fun r => decide (bedarf ≤ r.2)) with
  | none => simp [hi] at h
  | some i =>
    obtain ⟨hlt, hlen, -⟩ := List.findIdx?_eq_some_iff_getElem.mp hi
    cases hr : f.bereiche[i] with
    | mk o len =>
      have hget : f.bereiche[i]? = some (o, len) := by rw [List.getElem?_eq_getElem hlt, hr]
      have hle : bedarf ≤ len := by simpa [hr] using hlen
      simp only [hi, hget] at h
      by_cases hexact : len = bedarf
      · rw [if_pos hexact, Option.some.injEq, Prod.mk.injEq] at h
        obtain ⟨rfl, rfl⟩ := h
        subst hexact
        exact ⟨_, .inl ⟨Slots.perm_swapRemove hget, List.Perm.refl _⟩⟩
      · rw [if_neg hexact, Option.some.injEq, Prod.mk.injEq] at h
        obtain ⟨rfl, rfl⟩ := h
        have hold := List.getElem_cons_eraseIdx_perm hlt
        rw [hr] at hold
        exact ⟨_, .inr ⟨len, by omega, hold.symm, List.set_perm_cons_eraseIdx hlt _⟩⟩

theorem nehmen_joined {f f' : Freiliste} {bedarf off : Nat}
    (h : f.nehmen bedarf = some (off, f')) : Coalesced ((off, bedarf) :: f'.bereiche) f.bereiche := by
  obtain ⟨rest, ⟨hf, hf'⟩ | ⟨len, hlt, hf, hf'⟩⟩ := nehmen_cases h
  · exact .perm ((hf'.cons _).trans hf.symm)
  · have hjoin := Coalesced.join off bedarf (len - bedarf) rest
    rw [Nat.add_sub_cancel' hlt.le] at hjoin
    exact .trans (.perm (hf'.cons _)) (hjoin.trans (.perm hf.symm))

theorem nehmen_aligned {f f' : Freiliste} {bedarf off q : Nat}
    (h : f.nehmen bedarf = some (off, f')) (hq : q ∣ bedarf) (hf : Aligned q f.bereiche) :
    Aligned q ((off, bedarf) :: f'.bereiche) := by
  obtain ⟨rest, ⟨hperm, hf'⟩ | ⟨len, hlt, hperm, hf'⟩⟩ := nehmen_cases h
  · exact hf.perm (hperm.trans (hf'.symm.cons _))
  · obtain ⟨⟨hoff, hlen⟩, hrest⟩ := aligned_cons.mp (hf.perm hperm)
    have hcut : Aligned q ((off + bedarf, len - bedarf) :: rest) :=
      aligned_cons.mpr ⟨⟨Nat.dvd_add hoff hq, Nat.dvd_sub hlen hq⟩, hrest⟩
    exact aligned_cons.mpr ⟨⟨hoff, hq⟩, hcut.perm hf'.symm⟩

theorem verschmelzen_joined (pre l : List Range) : Coalesced (pre ++ l) (verschmelzen pre l) := by
  induction l generalizing pre with
  | nil => exact .perm (by simp [verschmelzen, List.reverse_perm pre |>.symm])
  | cons r rs ih =>
    cases pre with
    | nil => exact ih [r]
    | cons p pre =>
      obtain ⟨o, l⟩ := p
      unfold verschmelzen
      by_cases h : o + l = r.1
      · -- The neighbour comes to the front, is joined there, and the pass goes on.
        have hfront : ((o, l) :: pre ++ r :: rs).Perm ((o, l) :: (o + l, r.2) :: (pre ++ rs)) := by
          rw [h]
          exact List.perm_middle.cons (o, l)
        rw [if_pos h]
        exact .trans (.perm hfront) (.trans (.join o l r.2 _) (ih ((o, l + r.2) :: pre)))
      · rw [if_neg h]
        exact .trans (.perm List.perm_middle) (ih (r :: (o, l) :: pre))

theorem ablegen_joined {f : Freiliste} (off len : Nat) (h : f.bereiche.length < maxGrants) :
    Coalesced ((off, len) :: f.bereiche) (f.ablegen off len).bereiche := by
  unfold ablegen
  rw [dif_neg (Nat.not_le.mpr h)]
  have hsort : ((off, len) :: f.bereiche).Perm (sortieren [] (f.bereiche ++ [(off, len)])) :=
    (List.perm_append_singleton _ _).symm.trans (sortieren_perm [] _).symm
  exact .trans (.perm hsort) (verschmelzen_joined [] _)

theorem ablegen_full {f : Freiliste} (off len : Nat) (h : maxGrants ≤ f.bereiche.length) :
    f.ablegen off len = f := dif_pos h

end Freiliste

/-- What the lock of the server protects. -/
structure Bestand where
  pool : DmaPool
  fenster : MemMap
  cpuBasis : Nat
  grants : List (Option Grant)
  fach : grants.length = maxGrants
  freie : Freiliste
  naechsteGen : Nat
  verbote : BitVec 64
  grenze : Zweck → Nat
  benutzt : Zweck → Nat

namespace Bestand

def setGrant (b : Bestand) (slot : Nat) (g : Grant) : Bestand :=
  { b with grants := b.grants.set slot (some g), fach := by rw [List.length_set]; exact b.fach }

/-- `frisch_handle`; the generation is a `u32` that skips zero. -/
def frischHandle (b : Bestand) (slot : Nat) : Nat × Bestand :=
  let gen := (b.naechsteGen + 1) % 2 ^ 32
  ((b.naechsteGen <<< 32) ||| slot, { b with naechsteGen := if gen = 0 then 1 else gen })

/-- `slot_zu_handle`, with the entry that every caller reads from the place. -/
def slotZuHandle (b : Bestand) (handle : Nat) : Option (Nat × Grant) :=
  let slot := handle &&& 0xFFFFFFFF
  if maxGrants ≤ slot then none
  else
    match b.grants[slot]? with
    | some (some g) => if g.handle = handle then some (slot, g) else none
    | _ => none

/-- The checks of a request before anything is taken: the need, the new account and the place. -/
def anfragePruefen (b : Bestand) (len : Nat) (zweck : Zweck) :
    Except SpeicherFehler (Nat × Nat × Nat) :=
  if len = 0 then .error .leereAnfrage
  else if b.verbote &&& (1#64 <<< zweck.kennziffer) ≠ 0 then .error .zweckAbgelehnt
  else
    (okOr .keinPlatz (rundeAufSeite len)).bind fun bedarf =>
    (okOr .keinPlatz (checkedAdd (b.benutzt zweck) bedarf)).bind fun neuBenutzt =>
    if b.grenze zweck < neuBenutzt then .error .kontingentErschoepft
    else
      (okOr .tabelleVoll (b.grants.findIdx? fun g => !g.any Grant.live)).bind fun slot =>
      .ok (bedarf, neuBenutzt, slot)

/-- The checks of a range that was taken from the free list. -/
def bereichPruefen (b : Bestand) (off bedarf : Nat) : Except SpeicherFehler DmaBuf :=
  if b.grants.any fun g => g.any fun g => g.live && ueberlappt off bedarf g.offset g.len then
    .error .keinPlatz
  else
    (okOr .keinPlatz (checkedAdd b.cpuBasis off)).bind fun cpu =>
    (okOr .keinPlatz (b.pool.map cpu bedarf)).bind fun buf =>
    (okOr .keinPlatz (b.fenster.addrZuPfn cpu)).bind fun _ => .ok buf

/-- `anfordern_inner`.  The checks of the range come after it left the free list. -/
def anfordernInner (b : Bestand) (pd len : Nat) (zweck : Zweck) :
    Except SpeicherFehler GrantSchein × Bestand :=
  match b.anfragePruefen len zweck with
  | .error e => (.error e, b)
  | .ok (bedarf, neuBenutzt, slot) =>
      match b.freie.nehmen bedarf with
      | none => (.error .keinPlatz, b)
      | some (off, freie) =>
          let b := { b with freie := freie }
          match b.bereichPruefen off bedarf with
          | .error e => (.error e, b)
          | .ok buf =>
              let (handle, b) := b.frischHandle slot
              let g : Grant := ⟨handle, pd, off, bedarf, buf.cpu, buf.dev, zweck, false, false, true⟩
              (.ok ⟨handle, off, bedarf⟩,
                { b.setGrant slot g with benutzt := Function.update b.benutzt zweck neuBenutzt })

/-- The checks that every request with a handle begins with. -/
def scheinPruefen (b : Bestand) (pd handle : Nat) : Except SpeicherFehler (Nat × Grant) :=
  (okOr .unbekannterSchein (b.slotZuHandle handle)).bind fun (slot, g) =>
  if g.live = false then .error .bereitsZurueck
  else if g.pd ≠ pd then .error .fremderSchein
  else .ok (slot, g)

def rueckgabePruefen (b : Bestand) (pd handle : Nat) : Except SpeicherFehler (Nat × Grant) :=
  (b.scheinPruefen pd handle).bind fun (slot, g) =>
  if g.abgebildet then .error .nochAbgebildet else .ok (slot, g)

def zurueckgebenInner (b : Bestand) (pd handle : Nat) : Except SpeicherFehler Unit × Bestand :=
  match b.rueckgabePruefen pd handle with
  | .error e => (.error e, b)
  | .ok (slot, g) =>
      (.ok (), { b.setGrant slot { g with live := false } with
        benutzt := Function.update b.benutzt g.zweck (wsub (b.benutzt g.zweck) g.len)
        freie := b.freie.ablegen g.offset g.len })

def abbildenInner (b : Bestand) (pd handle : Nat) : Except SpeicherFehler Unit × Bestand :=
  match b.scheinPruefen pd handle with
  | .error e => (.error e, b)
  | .ok (slot, g) =>
      if g.entzogen then (.error .entzogen, b)
      else (.ok (), b.setGrant slot { g with abgebildet := true })

def ausblendenInner (b : Bestand) (pd handle : Nat) : Except SpeicherFehler Unit × Bestand :=
  match b.scheinPruefen pd handle with
  | .error e => (.error e, b)
  | .ok (slot, g) =>
      if g.abgebildet = false then (.error .nichtAbgebildet, b)
      else (.ok (), b.setGrant slot { g with abgebildet := false })

def entziehenInner (b : Bestand) (pd handle : Nat) : Except SpeicherFehler Unit × Bestand :=
  match b.scheinPruefen pd handle with
  | .error e => (.error e, b)
  | .ok (slot, g) => (.ok (), b.setGrant slot { g with entzogen := true })

def aufloesenInner (b : Bestand) (pd handle : Nat) : Except SpeicherFehler GrantSicht × Bestand :=
  match b.scheinPruefen pd handle with
  | .error e => (.error e, b)
  | .ok (_, g) =>
      if g.entzogen then (.error .entzogen, b) else (.ok ⟨g.offset, g.len, g.cpu, g.dev⟩, b)

def zweckVerbieten (b : Bestand) (zweck : Zweck) (verboten : Bool) : Bestand :=
  if verboten then { b with verbote := b.verbote ||| (1#64 <<< zweck.kennziffer) }
  else { b with verbote := b.verbote &&& ~~~(1#64 <<< zweck.kennziffer) }

def kontingentSetzen (b : Bestand) (zweck : Zweck) (grenze : Nat) : Bestand :=
  { b with grenze := Function.update b.grenze zweck grenze }

def lebende (b : Bestand) : List Grant := b.grants.filterMap fun g => g.filter Grant.live

def vergebenBytes (b : Bestand) : Nat := (b.lebende.map Grant.len).sum

def freieBytes (b : Bestand) : Nat := total b.freie.bereiche

end Bestand

structure MemoryServer where
  bestand : Bestand
  sperre : Mutex

namespace MemoryServer

/-- `neu`: the first page is granted to the boot domain at once. -/
def neu (cpuBasis devBasis arenaLen : Nat) : Option MemoryServer :=
  if arenaLen < startKapital ∨ arenaLen % pageSize ≠ 0 then none
  else
    match DmaPool.new cpuBasis devBasis arenaLen with
    | .error _ => none
    | .ok pool =>
        match pool.map cpuBasis startKapital with
        | none => none
        | some stamm =>
            let s : Bestand := {
              pool := pool
              fenster := ⟨cpuBasis, arenaLen / pageSize⟩
              cpuBasis := cpuBasis
              grants := List.replicate maxGrants none
              fach := List.length_replicate
              freie := ⟨[], Nat.zero_le _⟩
              naechsteGen := 1
              verbote := 0
              grenze := fun _ => 2 ^ 64 - 1
              benutzt := fun _ => 0 }
            let (handle, s) := s.frischHandle 0
            let g : Grant := ⟨handle, pdBoot, 0, startKapital, stamm.cpu, stamm.dev, .allgemein,
              false, false, true⟩
            some {
              bestand := { s.setGrant 0 g with
                freie := ⟨[(startKapital, arenaLen - startKapital)], Nat.succ_le_succ (Nat.zero_le _)⟩
                benutzt := Function.update s.benutzt .allgemein startKapital }
              sperre := Mutex.new }

/-- A request between `lock` and `unlock`; `none` is a caller that would park. -/
def unterSperre {α : Type} (s : MemoryServer) (me : Tid)
    (f : Bestand → Except SpeicherFehler α × Bestand) :
    Option (Except SpeicherFehler α × MemoryServer) :=
  match s.sperre.lockSchritt me with
  | (.parken, _) => none
  | (.fehler e, sperre) => some (.error (.sperre e), { s with sperre := sperre })
  | (.erlangt, sperre) =>
      let (ergebnis, bestand) := f s.bestand
      some (ergebnis, ⟨bestand, (sperre.unlock me).2.2⟩)

def anfordernMitZweck (s : MemoryServer) (me : Tid) (pd len : Nat) (zweck : Zweck) :=
  s.unterSperre me fun b => b.anfordernInner pd len zweck

def zurueckgeben (s : MemoryServer) (me : Tid) (pd handle : Nat) :=
  s.unterSperre me fun b => b.zurueckgebenInner pd handle

def abbildenMelden (s : MemoryServer) (me : Tid) (pd handle : Nat) :=
  s.unterSperre me fun b => b.abbildenInner pd handle

def ausblendenMelden (s : MemoryServer) (me : Tid) (pd handle : Nat) :=
  s.unterSperre me fun b => b.ausblendenInner pd handle

def entziehen (s : MemoryServer) (me : Tid) (pd handle : Nat) :=
  s.unterSperre me fun b => b.entziehenInner pd handle

def aufloesen (s : MemoryServer) (me : Tid) (pd handle : Nat) :=
  s.unterSperre me fun b => b.aufloesenInner pd handle

end MemoryServer

end Caprock.MemServer
