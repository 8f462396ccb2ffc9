import Caprock.MemServer.Server

/-! # Requests to the memory server

Every request runs under the lock, and between two requests the lock is free; so a run of the
server is a sequence of operations on what the lock protects.  `Wirkung` says once what each of
them can do there, and `Geordnet` is the state of the arena that all of them keep.
-/

namespace Caprock.MemServer

open Word Checks Ranges Function
open Caprock.Wait (Tid Mutex LockError)
open Caprock.Dma (DmaPool DmaBuf)

inductive Anfrage where
  | anfordern (pd len : Nat) (zweck : Zweck)
  | zurueckgeben (pd handle : Nat)
  | abbilden (pd handle : Nat)
  | ausblenden (pd handle : Nat)
  | entziehen (pd handle : Nat)
  | aufloesen (pd handle : Nat)
  | zweckVerbieten (zweck : Zweck) (verboten : Bool)
  | kontingentSetzen (zweck : Zweck) (grenze : Nat)
  deriving DecidableEq, Repr

inductive Antwort where
  | schein (s : GrantSchein)
  | sicht (s : GrantSicht)
  | erledigt
  deriving DecidableEq, Repr

/-- The domain and the handle of a request that names a grant. -/
def Anfrage.schein : Anfrage → Option (Nat × Nat)
  | .zurueckgeben pd handle => some (pd, handle)
  | .abbilden pd handle => some (pd, handle)
  | .ausblenden pd handle => some (pd, handle)
  | .entziehen pd handle => some (pd, handle)
  | .aufloesen pd handle => some (pd, handle)
  | _ => none

def MemoryServer.bedienen (s : MemoryServer) (me : Tid) :
    Anfrage → Option (Except SpeicherFehler Antwort × MemoryServer)
  | .anfordern pd len zweck =>
      (s.anfordernMitZweck me pd len zweck).map fun r => (r.1.map .schein, r.2)
  | .zurueckgeben pd handle =>
      (s.zurueckgeben me pd handle).map fun r => (r.1.map fun _ => .erledigt, r.2)
  | .abbilden pd handle =>
      (s.abbildenMelden me pd handle).map fun r => (r.1.map fun _ => .erledigt, r.2)
  | .ausblenden pd handle =>
      (s.ausblendenMelden me pd handle).map fun r => (r.1.map fun _ => .erledigt, r.2)
  | .entziehen pd handle =>
      (s.entziehen me pd handle).map fun r => (r.1.map fun _ => .erledigt, r.2)
  | .aufloesen pd handle => (s.aufloesen me pd handle).map fun r => (r.1.map .sicht, r.2)
  | .zweckVerbieten zweck verboten =>
      some (.ok .erledigt, { s with bestand := s.bestand.zweckVerbieten zweck verboten })
  | .kontingentSetzen zweck grenze =>
      some (.ok .erledigt, { s with bestand := s.bestand.kontingentSetzen zweck grenze })

def Bestand.ausfuehren (b : Bestand) : Anfrage → Except SpeicherFehler Antwort × Bestand
  | .anfordern pd len zweck => ((b.anfordernInner pd len zweck).1.map .schein,
      (b.anfordernInner pd len zweck).2)
  | .zurueckgeben pd handle => ((b.zurueckgebenInner pd handle).1.map fun _ => .erledigt,
      (b.zurueckgebenInner pd handle).2)
  | .abbilden pd handle => ((b.abbildenInner pd handle).1.map fun _ => .erledigt,
      (b.abbildenInner pd handle).2)
  | .ausblenden pd handle => ((b.ausblendenInner pd handle).1.map fun _ => .erledigt,
      (b.ausblendenInner pd handle).2)
  | .entziehen pd handle => ((b.entziehenInner pd handle).1.map fun _ => .erledigt,
      (b.entziehenInner pd handle).2)
  | .aufloesen pd handle => ((b.aufloesenInner pd handle).1.map .sicht,
      (b.aufloesenInner pd handle).2)
  | .zweckVerbieten zweck verboten => (.ok .erledigt, b.zweckVerbieten zweck verboten)
  | .kontingentSetzen zweck grenze => (.ok .erledigt, b.kontingentSetzen zweck grenze)

namespace MemoryServer

/-- Nobody holds the lock between two requests. -/
def Frei (s : MemoryServer) : Prop := s.sperre.gesperrt = false

theorem unterSperre_eq {α : Type} {s : MemoryServer} (h : s.Frei) (me : Tid)
    (f : Bestand → Except SpeicherFehler α × Bestand) :
    ∃ sperre, sperre.gesperrt = false ∧
      s.unterSperre me f = some ((f s.bestand).1, ⟨(f s.bestand).2, sperre⟩) := by
  unfold Frei at h
  simp [unterSperre, Mutex.lockSchritt, Mutex.unlock, h]

/-- A request gets the lock at once and leaves it free. -/
theorem bedienen_eq {s : MemoryServer} (h : s.Frei) (me : Tid) (a : Anfrage) :
    ∃ t, s.bedienen me a = some ((s.bestand.ausfuehren a).1, t) ∧ t.Frei ∧
      t.bestand = (s.bestand.ausfuehren a).2 := by
  cases a with
  | anfordern pd len zweck =>
    obtain ⟨sperre, hfrei, heq⟩ := unterSperre_eq h me fun b => b.anfordernInner pd len zweck
    exact ⟨⟨_, sperre⟩, by simp [bedienen, anfordernMitZweck, heq, Bestand.ausfuehren], hfrei, rfl⟩
  | zurueckgeben pd handle =>
    obtain ⟨sperre, hfrei, heq⟩ := unterSperre_eq h me fun b => b.zurueckgebenInner pd handle
    exact ⟨⟨_, sperre⟩, by simp [bedienen, zurueckgeben, heq, Bestand.ausfuehren], hfrei, rfl⟩
  | abbilden pd handle =>
    obtain ⟨sperre, hfrei, heq⟩ := unterSperre_eq h me fun b => b.abbildenInner pd handle
    exact ⟨⟨_, sperre⟩, by simp [bedienen, abbildenMelden, heq, Bestand.ausfuehren], hfrei, rfl⟩
  | ausblenden pd handle =>
    obtain ⟨sperre, hfrei, heq⟩ := unterSperre_eq h me fun b => b.ausblendenInner pd handle
    exact ⟨⟨_, sperre⟩, by simp [bedienen, ausblendenMelden, heq, Bestand.ausfuehren], hfrei, rfl⟩
  | entziehen pd handle =>
    obtain ⟨sperre, hfrei, heq⟩ := unterSperre_eq h me fun b => b.entziehenInner pd handle
    exact ⟨⟨_, sperre⟩, by simp [bedienen, entziehen, heq, Bestand.ausfuehren], hfrei, rfl⟩
  | aufloesen pd handle =>
    obtain ⟨sperre, hfrei, heq⟩ := unterSperre_eq h me fun b => b.aufloesenInner pd handle
    exact ⟨⟨_, sperre⟩, by simp [bedienen, aufloesen, heq, Bestand.ausfuehren], hfrei, rfl⟩
  | zweckVerbieten zweck verboten | kontingentSetzen zweck grenze => exact ⟨_, rfl, h, rfl⟩

end MemoryServer

namespace Bestand

variable {b : Bestand} {slot : Nat} {g g' : Grant}

theorem mem_lebende : g ∈ b.lebende ↔ ∃ i : Nat, b.grants[i]? = some (some g) ∧ g.live = true := by
  simp only [lebende, List.mem_filterMap, Option.filter_eq_some_iff]
  constructor
  · rintro ⟨_, hmem, rfl, hlive⟩
    obtain ⟨i, hi⟩ := List.mem_iff_getElem?.mp hmem
    exact ⟨i, hi, hlive⟩
  · rintro ⟨i, hi, hlive⟩
    exact ⟨some g, List.mem_iff_getElem?.mpr ⟨i, hi⟩, rfl, hlive⟩

@[simp] theorem setGrant_grants : (b.setGrant slot g).grants = b.grants.set slot (some g) := rfl

theorem lebende_setGrant_neu {alt : Option Grant} (hslot : b.grants[slot]? = some alt)
    (halt : alt.any Grant.live = false) (hg : g.live = true) :
    (b.setGrant slot g).lebende.Perm (g :: b.lebende) := by
  have hperm := (Slots.perm_set (b := some g) hslot).filterMap fun g => g.filter Grant.live
  have hnone : alt.filter Grant.live = none := by
    cases alt with
    | none => rfl
    | some x => simpa [Option.filter] using halt
  have hsome : (some g).filter Grant.live = some g := by simp [Option.filter, hg]
  rwa [List.filterMap_cons_none hnone, List.filterMap_cons_some hsome] at hperm

theorem lebende_setGrant_weg (hslot : b.grants[slot]? = some (some g)) (hg : g.live = true)
    (hg' : g'.live = false) : b.lebende.Perm (g :: (b.setGrant slot g').lebende) := by
  have hperm := (Slots.perm_set (b := some g') hslot).filterMap fun g => g.filter Grant.live
  have hnone : (some g').filter Grant.live = none := by simp [Option.filter, hg']
  have hsome : (some g).filter Grant.live = some g := by simp [Option.filter, hg]
  rw [List.filterMap_cons_none hnone, List.filterMap_cons_some hsome] at hperm
  exact hperm.symm

theorem lebende_setGrant_kern (hslot : b.grants[slot]? = some (some g)) (hk : g'.kern = g.kern) :
    (b.setGrant slot g').lebende.map Grant.kern = b.lebende.map Grant.kern := by
  have hlive : g'.live = g.live := (congrArg Grant.live hk :)
  have hread : ((some g').filter Grant.live).map Grant.kern =
      ((some g).filter Grant.live).map Grant.kern := by
    by_cases hg : g.live = true
    · simp [Option.filter, hlive, hg, hk]
    · simp [Option.filter, hlive, hg]
  rw [lebende, lebende, List.map_filterMap, List.map_filterMap]
  exact Slots.filterMap_set_of_eq hslot hread

/-- The handle names a live grant of the domain. -/
structure Gefunden (b : Bestand) (pd handle slot : Nat) (g : Grant) : Prop where
  fach : b.grants[slot]? = some (some g)
  handle : g.handle = handle
  live : g.live = true
  pd : g.pd = pd

theorem Gefunden.mem {pd handle : Nat} (h : b.Gefunden pd handle slot g) : g ∈ b.lebende :=
  mem_lebende.mpr ⟨slot, h.fach, h.live⟩

theorem slotZuHandle_eq_some {handle : Nat} (h : b.slotZuHandle handle = some (slot, g)) :
    b.grants[slot]? = some (some g) ∧ g.handle = handle := by
  unfold slotZuHandle at h
  by_cases hslot : maxGrants ≤ handle &&& 0xFFFFFFFF
  · simp [hslot] at h
  · simp only [if_neg hslot] at h
    cases hget : b.grants[handle &&& 0xFFFFFFFF]? with
    | none => simp [hget] at h
    | some o =>
      cases o with
      | none => simp [hget] at h
      | some x =>
        by_cases hx : x.handle = handle
        · simp only [hget, if_pos hx, Option.some.injEq, Prod.mk.injEq] at h
          obtain ⟨rfl, rfl⟩ := h
          exact ⟨hget, hx⟩
        · simp [hget, hx] at h

theorem scheinPruefen_eq_ok {pd handle : Nat} (h : b.scheinPruefen pd handle = .ok (slot, g)) :
    b.Gefunden pd handle slot g := by
  simp only [scheinPruefen, bind_eq_ok, okOr_eq_ok, Prod.exists, ite_error_eq_ok, Except.ok.injEq,
    Prod.mk.injEq] at h
  obtain ⟨i, x, hfind, hlive, hpd, rfl, rfl⟩ := h
  obtain ⟨hfach, hhandle⟩ := slotZuHandle_eq_some hfind
  exact ⟨hfach, hhandle, by simpa using hlive, by simpa using hpd⟩

theorem rueckgabePruefen_eq_ok {pd handle : Nat}
    (h : b.rueckgabePruefen pd handle = .ok (slot, g)) :
    b.Gefunden pd handle slot g ∧ g.abgebildet = false := by
  simp only [rueckgabePruefen, bind_eq_ok, Prod.exists, ite_error_eq_ok, Except.ok.injEq,
    Prod.mk.injEq] at h
  obtain ⟨i, x, hfind, hmark, rfl, rfl⟩ := h
  exact ⟨scheinPruefen_eq_ok hfind, by simpa using hmark⟩

/-- The granted request: what was checked, taken and entered. -/
structure Vergabe (b : Bestand) (zweck : Zweck) (slot bedarf off : Nat) (freie : Freiliste) :
    Prop where
  frei : ∃ alt, b.grants[slot]? = some alt ∧ alt.any Grant.live = false
  pos : 0 < bedarf
  seiten : pageSize ∣ bedarf
  wort : b.benutzt zweck + bedarf < 2 ^ 64
  freie : b.freie.nehmen bedarf = some (off, freie)

def nachVergabe (b : Bestand) (slot : Nat) (g : Grant) (freie : Freiliste) : Bestand :=
  { ({ b with freie := freie }.frischHandle slot).2.setGrant slot g with
    benutzt := update b.benutzt g.zweck (b.benutzt g.zweck + g.len) }

def nachRueckgabe (b : Bestand) (slot : Nat) (g : Grant) : Bestand :=
  { b.setGrant slot { g with live := false } with
    benutzt := update b.benutzt g.zweck (wsub (b.benutzt g.zweck) g.len)
    freie := b.freie.ablegen g.offset g.len }

/-- Everything that a request can do. -/
inductive Wirkung (b : Bestand) : Anfrage → Except SpeicherFehler Antwort → Bestand → Prop
  | abgelehnt (a : Anfrage) (e : SpeicherFehler) : Wirkung b a (.error e) b
  | vergeben {pd len slot bedarf off : Nat} {zweck : Zweck} {freie : Freiliste} {g : Grant}
      (buf : DmaBuf) (h : b.Vergabe zweck slot bedarf off freie)
      (hg : g = ⟨(b.naechsteGen <<< 32) ||| slot, pd, off, bedarf, buf.cpu, buf.dev, zweck,
        false, false, true⟩) :
      Wirkung b (.anfordern pd len zweck) (.ok (.schein ⟨g.handle, off, bedarf⟩))
        (b.nachVergabe slot g freie)
  | zurueck {pd handle slot : Nat} {g : Grant} (h : b.Gefunden pd handle slot g)
      (hmark : g.abgebildet = false) :
      Wirkung b (.zurueckgeben pd handle) (.ok .erledigt) (b.nachRueckgabe slot g)
  | abgebildet {pd handle slot : Nat} {g : Grant} (h : b.Gefunden pd handle slot g) :
      Wirkung b (.abbilden pd handle) (.ok .erledigt) (b.setGrant slot { g with abgebildet := true })
  | ausgeblendet {pd handle slot : Nat} {g : Grant} (h : b.Gefunden pd handle slot g) :
      Wirkung b (.ausblenden pd handle) (.ok .erledigt)
        (b.setGrant slot { g with abgebildet := false })
  | entzogen {pd handle slot : Nat} {g : Grant} (h : b.Gefunden pd handle slot g) :
      Wirkung b (.entziehen pd handle) (.ok .erledigt) (b.setGrant slot { g with entzogen := true })
  | gelesen {pd handle slot : Nat} {g : Grant} (h : b.Gefunden pd handle slot g) :
      Wirkung b (.aufloesen pd handle) (.ok (.sicht ⟨g.offset, g.len, g.cpu, g.dev⟩)) b
  | verboten (zweck : Zweck) (v : Bool) :
      Wirkung b (.zweckVerbieten zweck v) (.ok .erledigt) (b.zweckVerbieten zweck v)
  | begrenzt (zweck : Zweck) (grenze : Nat) :
      Wirkung b (.kontingentSetzen zweck grenze) (.ok .erledigt) (b.kontingentSetzen zweck grenze)

theorem Wirkung.gefunden {a : Anfrage} {x : Antwort} {r : Except SpeicherFehler Antwort}
    {c : Bestand} {pd handle : Nat} (hw : b.Wirkung a r c) (ha : a.schein = some (pd, handle))
    (hr : r = .ok x) : ∃ slot g, b.Gefunden pd handle slot g := by
  cases hw with
  | abgelehnt => cases hr
  | vergeben | verboten | begrenzt => cases ha
  | zurueck h _ | abgebildet h | ausgeblendet h | entzogen h | gelesen h =>
    cases ha
    exact ⟨_, _, h⟩

theorem Wirkung.aus_freien {pd len : Nat} {zweck : Zweck} {x : GrantSchein}
    {r : Except SpeicherFehler Antwort} {c : Bestand} (hw : b.Wirkung (.anfordern pd len zweck) r c)
    (hr : r = .ok (.schein x)) : addrs (x.offset, x.len) ⊆ cover b.freie.bereiche := by
  cases hw with
  | abgelehnt => cases hr
  | vergeben buf h hg =>
    cases hr
    rw [← (Freiliste.nehmen_joined h.freie).same.cover, cover_cons]
    exact Set.subset_union_left

/-- Every range the server keeps: the live grants and the free list. -/
def belegung (b : Bestand) : List Range := b.lebende.map Grant.bereich ++ b.freie.bereiche

def zweckBytes (b : Bestand) (zweck : Zweck) : Nat :=
  ((b.lebende.filter fun g => g.zweck = zweck).map Grant.len).sum

/-- The arena of `n` bytes with its grants and its free list. -/
structure Geordnet (n : Nat) (b : Bestand) : Prop where
  apart : Apart b.belegung
  innen : cover b.belegung ⊆ Set.Iio n
  seiten : Aligned pageSize b.belegung
  laenge : ∀ g ∈ b.lebende, 0 < g.len
  konto : ∀ z, b.benutzt z = b.zweckBytes z
  wort : ∀ z, b.benutzt z < 2 ^ 64
  pool : b.pool.cpuBase = b.cpuBasis ∧ b.pool.len = n
  fenster : b.fenster = ⟨b.cpuBasis, n / pageSize⟩
  adressen : b.cpuBasis + n < 2 ^ 64
  ganz : pageSize ∣ n

namespace Geordnet

variable {n : Nat}

theorem apart_freie (h : b.Geordnet n) {r : Range} (hr : addrs r ⊆ cover b.freie.bereiche)
    (hg : g ∈ b.lebende) : Disjoint (addrs r) (addrs g.bereich) := by
  obtain ⟨-, -, hapart⟩ := apart_append.mp h.apart
  have hcover := addrs_subset_cover (List.mem_map_of_mem (f := Grant.bereich) hg)
  exact (hapart.mono hcover hr).symm

theorem ende_le (h : b.Geordnet n) (hg : g ∈ b.lebende) : g.offset + g.len ≤ n :=
  end_le (List.mem_append_left _ (List.mem_map_of_mem hg)) (h.laenge g hg) h.innen

theorem freie_ende_le (h : b.Geordnet n) {r : Range} (hr : addrs r ⊆ cover b.freie.bereiche)
    (hpos : 0 < r.2) : r.1 + r.2 ≤ n := by
  have hlast : r.1 + r.2 - 1 ∈ addrs r := ⟨by omega, by omega⟩
  have hlt : r.1 + r.2 - 1 < n := h.innen (by rw [belegung, cover_append]; exact .inr (hr hlast))
  omega

/-- The overlap check finds nothing: the free list and the live grants lie apart. -/
theorem kein_ueberlapp (h : b.Geordnet n) {off bedarf : Nat}
    (hr : addrs (off, bedarf) ⊆ cover b.freie.bereiche) (hpos : 0 < bedarf) :
    (b.grants.any fun g => g.any fun g => g.live && ueberlappt off bedarf g.offset g.len) =
      false := by
  have hadr := h.adressen
  have hende := h.freie_ende_le hr hpos
  rw [List.any_eq_false]
  rintro o hmem
  cases o with
  | none => simp
  | some g =>
    by_cases hlive : g.live = true
    · obtain ⟨i, hi⟩ := List.mem_iff_getElem?.mp hmem
      have hg : g ∈ b.lebende := mem_lebende.mpr ⟨i, hi, hlive⟩
      have hgende := h.ende_le hg
      have hdis := (disjoint_addrs_iff (r := (off, bedarf)) (s := g.bereich) hpos
        (h.laenge g hg)).mp (h.apart_freie hr hg)
      have hwort : off + bedarf < 2 ^ 64 := by omega
      have hgwort : g.offset + g.len < 2 ^ 64 := by omega
      have hfern : ueberlappt off bedarf g.offset g.len = false :=
        (ueberlappt_eq_false hwort hgwort).mpr hdis
      simp [hfern]
    · simp [hlive]

theorem bereichPruefen_ok (h : b.Geordnet n) {bedarf off : Nat} {freie : Freiliste}
    (hpos : 0 < bedarf) (hfreie : b.freie.nehmen bedarf = some (off, freie)) :
    b.bereichPruefen off bedarf = .ok ⟨b.cpuBasis + off, b.pool.devBase + off, bedarf⟩ := by
  have hsub : addrs (off, bedarf) ⊆ cover b.freie.bereiche := by
    rw [← (Freiliste.nehmen_joined hfreie).same.cover, cover_cons]
    exact Set.subset_union_left
  have hende : off + bedarf ≤ n := h.freie_ende_le hsub hpos
  have hadr := h.adressen
  obtain ⟨hbase, hlen⟩ := h.pool
  have hmap : b.pool.map (b.cpuBasis + off) bedarf =
      some ⟨b.cpuBasis + off, b.pool.devBase + off, bedarf⟩ := by
    rw [← hbase]
    exact DmaPool.map_of_le (by omega) (by omega)
  have hganz : n / pageSize * pageSize = n := Nat.div_mul_cancel h.ganz
  have hpfn : b.fenster.addrZuPfn (b.cpuBasis + off) = some _ :=
    MemMap.addrZuPfn_of_mem (by rw [h.fenster]; simp only [hganz]; exact hadr)
      (by rw [h.fenster]; simp only []; omega)
      (by rw [h.fenster]; simp only [hganz]; omega)
  simp only [bereichPruefen, h.kein_ueberlapp hsub hpos, checkedAdd_eq (show b.cpuBasis + off < 2 ^ 64 by omega),
    okOr, Except.bind, hmap, hpfn]
  rfl

end Geordnet

theorem rundeAufSeite_spec {len bedarf : Nat} (h : rundeAufSeite len = some bedarf)
    (hlen : len ≠ 0) : 0 < bedarf ∧ pageSize ∣ bedarf := by
  unfold rundeAufSeite at h
  by_cases hr : len % pageSize = 0
  · rw [if_pos hr, Option.some.injEq] at h
    exact ⟨by omega, h ▸ Nat.dvd_of_mod_eq_zero hr⟩
  · rw [if_neg hr] at h
    obtain ⟨hlt, rfl⟩ := checkedAdd_eq_some.mp h
    have hmod := Nat.mod_lt len (show 0 < pageSize by decide)
    refine ⟨by omega, len / pageSize + 1, ?_⟩
    have hdiv := Nat.div_add_mod len pageSize
    rw [Nat.mul_add]
    omega

theorem anfragePruefen_eq_ok {len bedarf neuBenutzt : Nat} {zweck : Zweck}
    (h : b.anfragePruefen len zweck = .ok (bedarf, neuBenutzt, slot)) :
    (∃ alt, b.grants[slot]? = some alt ∧ alt.any Grant.live = false) ∧
      (0 < bedarf ∧ pageSize ∣ bedarf) ∧
      b.benutzt zweck + bedarf < 2 ^ 64 ∧ neuBenutzt = b.benutzt zweck + bedarf := by
  simp only [anfragePruefen, ite_error_eq_ok, bind_eq_ok, okOr_eq_ok, Except.ok.injEq,
    Prod.mk.injEq] at h
  obtain ⟨hlen, -, m, hm, u, hu, -, i, hi, rfl, rfl, rfl⟩ := h
  obtain ⟨hwort, rfl⟩ := checkedAdd_eq_some.mp hu
  obtain ⟨hlt, hfrei, -⟩ := List.findIdx?_eq_some_iff_getElem.mp hi
  exact ⟨⟨_, List.getElem?_eq_getElem hlt, by simpa using hfrei⟩, rundeAufSeite_spec hm hlen,
    hwort, rfl⟩

theorem anfordern_wirkung {n : Nat} (h : b.Geordnet n) (pd len : Nat) (zweck : Zweck) :
    b.Wirkung (.anfordern pd len zweck) (b.ausfuehren (.anfordern pd len zweck)).1
      (b.ausfuehren (.anfordern pd len zweck)).2 := by
  cases hp : b.anfragePruefen len zweck with
  | error e =>
    simp only [ausfuehren, anfordernInner, hp]
    exact .abgelehnt _ e
  | ok p =>
    obtain ⟨bedarf, neuBenutzt, slot⟩ := p
    obtain ⟨hfrei, ⟨hpos, hseiten⟩, hwort, rfl⟩ := anfragePruefen_eq_ok hp
    cases hn : b.freie.nehmen bedarf with
    | none =>
      simp only [ausfuehren, anfordernInner, hp, hn]
      exact .abgelehnt _ .keinPlatz
    | some q =>
      obtain ⟨off, freie⟩ := q
      have hok : ({ b with freie := freie } : Bestand).bereichPruefen off bedarf = _ :=
        h.bereichPruefen_ok hpos hn
      simp only [ausfuehren, anfordernInner, hp, hn, hok]
      exact .vergeben ⟨b.cpuBasis + off, b.pool.devBase + off, bedarf⟩
        ⟨hfrei, hpos, hseiten, hwort, hn⟩ rfl

/-- Every request does one of the things of `Wirkung`. -/
theorem ausfuehren_wirkung {n : Nat} (h : b.Geordnet n) (a : Anfrage) :
    b.Wirkung a (b.ausfuehren a).1 (b.ausfuehren a).2 := by
  cases a with
  | anfordern pd len zweck => exact anfordern_wirkung h pd len zweck
  | zurueckgeben pd handle =>
    cases hp : b.rueckgabePruefen pd handle with
    | error e =>
      simp only [ausfuehren, zurueckgebenInner, hp]
      exact .abgelehnt _ e
    | ok p =>
      obtain ⟨hfound, hmark⟩ := rueckgabePruefen_eq_ok hp
      simp only [ausfuehren, zurueckgebenInner, hp]
      exact .zurueck hfound hmark
  | abbilden pd handle =>
    cases hp : b.scheinPruefen pd handle with
    | error e =>
      simp only [ausfuehren, abbildenInner, hp]
      exact .abgelehnt _ e
    | ok p =>
      by_cases he : p.2.entzogen = true
      · simp only [ausfuehren, abbildenInner, hp, if_pos he]
        exact .abgelehnt _ .entzogen
      · simp only [ausfuehren, abbildenInner, hp, if_neg he]
        exact .abgebildet (scheinPruefen_eq_ok hp)
  | ausblenden pd handle =>
    cases hp : b.scheinPruefen pd handle with
    | error e =>
      simp only [ausfuehren, ausblendenInner, hp]
      exact .abgelehnt _ e
    | ok p =>
      by_cases he : p.2.abgebildet = false
      · simp only [ausfuehren, ausblendenInner, hp, if_pos he]
        exact .abgelehnt _ .nichtAbgebildet
      · simp only [ausfuehren, ausblendenInner, hp, if_neg he]
        exact .ausgeblendet (scheinPruefen_eq_ok hp)
  | entziehen pd handle =>
    cases hp : b.scheinPruefen pd handle with
    | error e =>
      simp only [ausfuehren, entziehenInner, hp]
      exact .abgelehnt _ e
    | ok p =>
      simp only [ausfuehren, entziehenInner, hp]
      exact .entzogen (scheinPruefen_eq_ok hp)
  | aufloesen pd handle =>
    cases hp : b.scheinPruefen pd handle with
    | error e =>
      simp only [ausfuehren, aufloesenInner, hp]
      exact .abgelehnt _ e
    | ok p =>
      by_cases he : p.2.entzogen = true
      · simp only [ausfuehren, aufloesenInner, hp, if_pos he]
        exact .abgelehnt _ .entzogen
      · simp only [ausfuehren, aufloesenInner, hp, if_neg he]
        exact .gelesen (scheinPruefen_eq_ok hp)
  | zweckVerbieten zweck v => exact .verboten zweck v
  | kontingentSetzen zweck grenze => exact .begrenzt zweck grenze

theorem nachVergabe_lebende {zweck : Zweck} {bedarf off : Nat} {freie : Freiliste}
    (h : b.Vergabe zweck slot bedarf off freie) (hg : g.live = true) :
    (b.nachVergabe slot g freie).lebende.Perm (g :: b.lebende) := by
  obtain ⟨alt, hslot, halt⟩ := h.frei
  exact lebende_setGrant_neu hslot halt hg

theorem nachRueckgabe_lebende (hslot : b.grants[slot]? = some (some g)) (hg : g.live = true) :
    b.lebende.Perm (g :: (b.nachRueckgabe slot g).lebende) :=
  lebende_setGrant_weg hslot hg rfl

theorem nachVergabe_joined {zweck : Zweck} {bedarf off : Nat} {freie : Freiliste}
    (h : b.Vergabe zweck slot bedarf off freie) (hg : g.live = true)
    (hbereich : g.bereich = (off, bedarf)) :
    Coalesced (b.nachVergabe slot g freie).belegung b.belegung := by
  have hlive := (nachVergabe_lebende h hg).map Grant.bereich
  have hperm : (b.nachVergabe slot g freie).belegung.Perm
      (b.lebende.map Grant.bereich ++ (off, bedarf) :: freie.bereiche) := by
    rw [List.map_cons, hbereich] at hlive
    exact (hlive.append_right freie.bereiche).trans List.perm_middle.symm
  exact .trans (.perm hperm) ((Freiliste.nehmen_joined h.freie).append_left _)

theorem nachRueckgabe_joined (hslot : b.grants[slot]? = some (some g)) (hg : g.live = true)
    (hplatz : b.freie.bereiche.length < maxGrants) :
    Coalesced b.belegung (b.nachRueckgabe slot g).belegung := by
  have hlive := (nachRueckgabe_lebende hslot hg).map Grant.bereich
  have hperm : b.belegung.Perm
      ((b.nachRueckgabe slot g).lebende.map Grant.bereich ++ g.bereich :: b.freie.bereiche) :=
    (hlive.append_right b.freie.bereiche).trans List.perm_middle.symm
  exact .trans (.perm hperm) ((Freiliste.ablegen_joined _ _ hplatz).append_left _)

theorem nachRueckgabe_full (hslot : b.grants[slot]? = some (some g)) (hg : g.live = true)
    (hvoll : maxGrants ≤ b.freie.bereiche.length) :
    b.belegung.Perm (g.bereich :: (b.nachRueckgabe slot g).belegung) := by
  have hlive := (nachRueckgabe_lebende hslot hg).map Grant.bereich
  have hfreie : (b.nachRueckgabe slot g).freie = b.freie := Freiliste.ablegen_full _ _ hvoll
  rw [belegung, belegung, hfreie]
  exact hlive.append_right b.freie.bereiche

theorem zweckBytes_of_perm {l : List Grant} (h : b.lebende.Perm (g :: l)) (z : Zweck) :
    b.zweckBytes z =
      (if g.zweck = z then g.len else 0) + ((l.filter fun g => g.zweck = z).map Grant.len).sum := by
  have hperm := ((h.filter fun g => decide (g.zweck = z)).map Grant.len).sum_eq
  rw [zweckBytes, hperm]
  by_cases hz : g.zweck = z
  · simp [hz]
  · simp [hz]

theorem zweckBytes_congr {c : Bestand} (h : c.lebende.map Grant.kern = b.lebende.map Grant.kern)
    (z : Zweck) : c.zweckBytes z = b.zweckBytes z := by
  have hread : ∀ l : List Grant, (l.filter fun g => g.zweck = z).map Grant.len =
      ((l.map Grant.kern).filter fun g => g.zweck = z).map Grant.len := by
    intro l
    rw [List.filter_map, List.map_map]
    rfl
  rw [zweckBytes, zweckBytes, hread c.lebende, h, ← hread b.lebende]

theorem bereich_congr {c : Bestand} (h : c.lebende.map Grant.kern = b.lebende.map Grant.kern) :
    c.lebende.map Grant.bereich = b.lebende.map Grant.bereich := by
  have hread : ∀ l : List Grant, l.map Grant.bereich = (l.map Grant.kern).map Grant.bereich := by
    intro l
    rw [List.map_map]
    rfl
  rw [hread c.lebende, h, ← hread b.lebende]

namespace Geordnet

variable {n : Nat}

theorem of_kern {c : Bestand} (h : b.Geordnet n)
    (hkern : c.lebende.map Grant.kern = b.lebende.map Grant.kern) (hfreie : c.freie = b.freie)
    (hbenutzt : c.benutzt = b.benutzt)
    (harena : c.pool = b.pool ∧ c.fenster = b.fenster ∧ c.cpuBasis = b.cpuBasis) :
    c.Geordnet n := by
  have hbereich := bereich_congr hkern
  have hbel : c.belegung = b.belegung := by rw [belegung, belegung, hbereich, hfreie]
  obtain ⟨hpool, hfenster, hbasis⟩ := harena
  refine ⟨hbel ▸ h.apart, hbel ▸ h.innen, hbel ▸ h.seiten, ?_, ?_, hbenutzt ▸ h.wort, ?_, ?_, ?_,
    h.ganz⟩
  · intro g hg
    have hmem : g.bereich ∈ b.lebende.map Grant.bereich := hbereich ▸ List.mem_map_of_mem hg
    obtain ⟨g', hg', heq⟩ := List.mem_map.mp hmem
    have hlen : g'.len = g.len := congrArg Prod.snd heq
    exact hlen ▸ h.laenge g' hg'
  · intro z
    rw [hbenutzt, zweckBytes_congr hkern]
    exact h.konto z
  · rw [hpool, hbasis]
    exact h.pool
  · rw [hfenster, hbasis]
    exact h.fenster
  · rw [hbasis]
    exact h.adressen

theorem vermerkt (h : b.Geordnet n) (hslot : b.grants[slot]? = some (some g))
    (hk : g'.kern = g.kern) : (b.setGrant slot g').Geordnet n :=
  h.of_kern (lebende_setGrant_kern hslot hk) rfl rfl ⟨rfl, rfl, rfl⟩

theorem vergabe (h : b.Geordnet n) {zweck : Zweck} {bedarf off : Nat} {freie : Freiliste}
    (hv : b.Vergabe zweck slot bedarf off freie) (hg : g.live = true) (hz : g.zweck = zweck)
    (hbereich : g.bereich = (off, bedarf)) : (b.nachVergabe slot g freie).Geordnet n := by
  have hjoin := nachVergabe_joined hv hg hbereich
  have hsame := hjoin.same
  have hlive := nachVergabe_lebende hv hg
  have hlen : g.len = bedarf := congrArg Prod.snd hbereich
  refine ⟨hsame.apart.mpr h.apart, hsame.cover ▸ h.innen, ?_, ?_, ?_, ?_, h.pool, h.fenster,
    h.adressen, h.ganz⟩
  · -- The cut is at a page, because the need is whole pages.
    obtain ⟨hgrants, hfrei⟩ := aligned_append.mp h.seiten
    have hcut := Freiliste.nehmen_aligned hv.freie hv.seiten hfrei
    have hperm := ((hlive.map Grant.bereich).append_right freie.bereiche).trans
      List.perm_middle.symm
    rw [hbereich] at hperm
    exact (aligned_append.mpr ⟨hgrants, hcut⟩).perm hperm.symm
  · intro x hx
    rcases List.mem_cons.mp (hlive.mem_iff.mp hx) with rfl | hx
    · rw [hlen]
      exact hv.pos
    · exact h.laenge x hx
  · intro z
    rw [zweckBytes_of_perm hlive z]
    have hkonto : ((b.lebende.filter fun g => g.zweck = z).map Grant.len).sum = b.benutzt z :=
      (h.konto z).symm
    rw [hkonto]
    by_cases hzz : g.zweck = z
    · subst hzz
      simp [nachVergabe, Nat.add_comm]
    · simp [nachVergabe, hzz, update_of_ne (Ne.symm hzz)]
  · intro z
    by_cases hzz : z = g.zweck
    · subst hzz
      have hwort := hv.wort
      rw [← hz, ← hlen] at hwort
      simpa [nachVergabe] using hwort
    · simpa [nachVergabe, update_of_ne hzz] using h.wort z

theorem rueckgabe (h : b.Geordnet n) (hslot : b.grants[slot]? = some (some g))
    (hg : g.live = true) : (b.nachRueckgabe slot g).Geordnet n := by
  have hlive := nachRueckgabe_lebende hslot hg
  have hkonto : ∀ z, b.benutzt z =
      (if g.zweck = z then g.len else 0) + (b.nachRueckgabe slot g).zweckBytes z := by
    intro z
    rw [h.konto z]
    exact zweckBytes_of_perm hlive z
  have hsub : wsub (b.benutzt g.zweck) g.len = (b.nachRueckgabe slot g).zweckBytes g.zweck := by
    have heq := hkonto g.zweck
    rw [if_pos rfl] at heq
    rw [wsub_eq (h.wort _) (by omega)]
    omega
  have hlaenge : ∀ x ∈ (b.nachRueckgabe slot g).lebende, 0 < x.len := by
    intro x hx
    exact h.laenge x (hlive.mem_iff.mpr (List.mem_cons_of_mem g hx))
  have hneu : ∀ z, (b.nachRueckgabe slot g).benutzt z = (b.nachRueckgabe slot g).zweckBytes z := by
    intro z
    by_cases hzz : z = g.zweck
    · subst hzz
      rw [← hsub]
      simp [nachRueckgabe]
    · have heq := hkonto z
      have hupd : (b.nachRueckgabe slot g).benutzt z = b.benutzt z := update_of_ne hzz _ _
      rw [if_neg (Ne.symm hzz)] at heq
      omega
  have hwort : ∀ z, (b.nachRueckgabe slot g).benutzt z < 2 ^ 64 := by
    intro z
    have hold := h.wort z
    have heq := hkonto z
    rw [hneu z]
    omega
  by_cases hplatz : b.freie.bereiche.length < maxGrants
  · have hjoin := nachRueckgabe_joined hslot hg hplatz
    exact ⟨hjoin.same.apart.mp h.apart, hjoin.same.cover ▸ h.innen, h.seiten.joined hjoin, hlaenge,
      hneu, hwort, h.pool, h.fenster, h.adressen, h.ganz⟩
  · have hperm := nachRueckgabe_full hslot hg (Nat.le_of_not_lt hplatz)
    have hsame := Same.of_perm hperm
    have hapart := apart_cons.mp (hsame.apart.mp h.apart)
    have hcover : cover (b.nachRueckgabe slot g).belegung ⊆ cover b.belegung := by
      rw [hsame.cover, cover_cons]
      exact Set.subset_union_right
    exact ⟨hapart.2, hcover.trans h.innen, (aligned_cons.mp (h.seiten.perm hperm)).2, hlaenge, hneu,
      hwort, h.pool, h.fenster, h.adressen, h.ganz⟩

theorem wirkung {a : Anfrage} {r : Except SpeicherFehler Antwort} {c : Bestand} (h : b.Geordnet n)
    (hw : b.Wirkung a r c) : c.Geordnet n := by
  cases hw with
  | abgelehnt | gelesen => exact h
  | vergeben buf hv hg =>
    subst hg
    exact h.vergabe hv rfl rfl rfl
  | zurueck hfound _ => exact h.rueckgabe hfound.fach hfound.live
  | abgebildet hfound | ausgeblendet hfound | entzogen hfound => exact h.vermerkt hfound.fach rfl
  | verboten zweck v =>
    cases v with
    | true => exact h.of_kern rfl rfl rfl ⟨rfl, rfl, rfl⟩
    | false => exact h.of_kern rfl rfl rfl ⟨rfl, rfl, rfl⟩
  | begrenzt zweck grenze => exact h.of_kern rfl rfl rfl ⟨rfl, rfl, rfl⟩

end Geordnet

end Bestand

namespace MemoryServer

/-- A new server has the first page granted and the rest in one free range. -/
theorem neu_eq_some {cpuBasis devBasis n : Nat} {s : MemoryServer}
    (h : neu cpuBasis devBasis n = some s) :
    startKapital ≤ n ∧ s.Frei ∧ s.bestand.Geordnet n ∧ s.bestand.naechsteGen = 2 ∧
      s.bestand.freie.bereiche = [(startKapital, n - startKapital)] ∧
      ∃ g, s.bestand.lebende = [g] ∧ g.handle = 2 ^ 32 ∧ g.pd = pdBoot ∧
        g.bereich = (0, startKapital) := by
  unfold neu at h
  by_cases hn : n < startKapital ∨ n % pageSize ≠ 0
  · simp [hn] at h
  · rw [if_neg hn] at h
    rw [not_or, not_not] at hn
    obtain ⟨hle, hseite⟩ := hn
    cases hpool : DmaPool.new cpuBasis devBasis n with
    | error e => simp [hpool] at h
    | ok pool =>
      cases hmap : pool.map cpuBasis startKapital with
      | none => simp [hpool, hmap] at h
      | some stamm =>
        have hganz : pageSize ∣ n := Nat.dvd_of_mod_eq_zero hseite
        simp only [hpool, hmap, Option.some.injEq] at h
        simp only [DmaPool.new, ite_error_eq_ok, Except.ok.injEq, not_or] at hpool
        obtain ⟨-, -, -, ⟨hcpu, -⟩, rfl⟩ := hpool
        have hadr : cpuBasis + n < 2 ^ 64 := by
          cases hsum : checkedAdd cpuBasis n with
          | none => simp [hsum] at hcpu
          | some x => exact (checkedAdd_eq_some.mp hsum).1
        subst h
        have hjoin := (Coalesced.join 0 startKapital (n - startKapital) []).same
        rw [Nat.zero_add, Nat.add_sub_cancel' (Nat.le_of_not_lt hle)] at hjoin
        have hsk : pageSize ∣ startKapital := Nat.dvd_refl pageSize
        refine ⟨Nat.le_of_not_lt hle, rfl, ⟨?_, ?_, ?_, ?_, ?_, ?_, ⟨rfl, rfl⟩, rfl, hadr, hganz⟩,
          rfl, rfl, _, rfl, (by decide : (1 <<< 32) ||| 0 = 2 ^ 32), rfl, rfl⟩
        · exact hjoin.apart.mpr (List.pairwise_singleton _ _)
        · intro x hx
          have hcov : x ∈ cover [(0, n)] := hjoin.cover ▸ hx
          simpa [addrs] using hcov
        · intro r hr
          rcases List.mem_cons.mp hr with rfl | hr
          · exact ⟨Nat.dvd_zero _, hsk⟩
          · obtain rfl := List.mem_singleton.mp hr
            exact ⟨hsk, Nat.dvd_sub hganz hsk⟩
        · intro g hg
          obtain rfl := List.mem_singleton.mp hg
          exact (by decide : 0 < startKapital)
        · intro z
          cases z <;> rfl
        · intro z
          cases z with
          | allgemein => exact (by decide : startKapital < 2 ^ 64)
          | _ => exact (by decide : 0 < 2 ^ 64)

end MemoryServer

end Caprock.MemServer
