import Caprock.MemServer.Requests

/-! # Conservation of the arena

Every byte of the arena is in a live grant or in the free list, until a return meets a full free
list.  The list has sixteen places, and sixteen grants with gaps between them make up to seventeen
free ranges.
-/

namespace Caprock.MemServer

open Execution Ranges
open Caprock.Wait (Tid)

/-- The free list and the live grants cover the arena exactly, and the counters say so. -/
structure Bestand.Erhalten (n : Nat) (b : Bestand) : Prop where
  summe : b.vergebenBytes + b.freieBytes = n
  deckung : cover b.belegung = Set.Iio n
  apart : Apart b.belegung

namespace MemoryServer

def step (s : MemoryServer) (op : Tid × Anfrage) : Option MemoryServer :=
  (s.bedienen op.1 op.2).map Prod.snd

def FindetPlatz (s : MemoryServer) (op : Tid × Anfrage) : Prop :=
  ∀ pd handle p, op.2 = .zurueckgeben pd handle → s.bestand.rueckgabePruefen pd handle = .ok p →
    s.bestand.freie.bereiche.length < maxGrants

end MemoryServer

namespace Bestand

variable {b c : Bestand} {n : Nat}

theorem total_belegung (b : Bestand) : total b.belegung = b.vergebenBytes + b.freieBytes := by
  rw [belegung, total_append, total, List.map_map]
  rfl

theorem erhalten_iff (h : b.Geordnet n) :
    b.Erhalten n ↔ total b.belegung = n ∧ cover b.belegung = Set.Iio n := by
  rw [total_belegung]
  exact ⟨fun he => ⟨he.summe, he.deckung⟩, fun he => ⟨he.1, he.2, h.apart⟩⟩

theorem Erhalten.same (h : b.Erhalten n) (hs : Same c.belegung b.belegung) : c.Erhalten n where
  summe := by
    rw [← total_belegung, hs.total, total_belegung]
    exact h.summe
  deckung := hs.cover.trans h.deckung
  apart := hs.apart.mpr h.apart

theorem Erhalten.of_kern (h : b.Erhalten n)
    (hkern : c.lebende.map Grant.kern = b.lebende.map Grant.kern) (hfreie : c.freie = b.freie) :
    c.Erhalten n := by
  refine h.same ?_
  rw [belegung, belegung, bereich_congr hkern, hfreie]
  exact Same.refl _

/-- No request loses a byte, but for a return that finds the free list full. -/
theorem Erhalten.wirkung {a : Anfrage} {r : Except SpeicherFehler Antwort} (h : b.Erhalten n)
    (hw : b.Wirkung a r c)
    (hplatz : ∀ pd handle, a = .zurueckgeben pd handle → r = .ok .erledigt →
      b.freie.bereiche.length < maxGrants) : c.Erhalten n := by
  cases hw with
  | abgelehnt | gelesen => exact h
  | vergeben buf hv hg =>
    subst hg
    exact h.same (nachVergabe_joined hv rfl rfl).same
  | zurueck hfound _ =>
    exact h.same (nachRueckgabe_joined hfound.fach hfound.live (hplatz _ _ rfl rfl)).same.symm
  | abgebildet hfound | ausgeblendet hfound | entzogen hfound =>
    exact h.of_kern (lebende_setGrant_kern hfound.fach rfl) rfl
  | verboten zweck v =>
    cases v with
    | true => exact h.of_kern rfl rfl
    | false => exact h.of_kern rfl rfl
  | begrenzt zweck grenze => exact h.of_kern rfl rfl

theorem rueckgabe_verliert {pd handle slot : Nat} {g : Grant} (he : b.Erhalten n)
    (hp : b.rueckgabePruefen pd handle = .ok (slot, g))
    (hvoll : maxGrants ≤ b.freie.bereiche.length) :
    (b.ausfuehren (.zurueckgeben pd handle)).2.vergebenBytes +
      (b.ausfuehren (.zurueckgeben pd handle)).2.freieBytes + g.len = n := by
  have hfound := (rueckgabePruefen_eq_ok hp).1
  have hnach : (b.ausfuehren (.zurueckgeben pd handle)).2 = b.nachRueckgabe slot g := by
    simp only [ausfuehren, zurueckgebenInner, hp]
    rfl
  have htotal := (Same.of_perm (nachRueckgabe_full hfound.fach hfound.live hvoll)).total
  rw [total_cons, total_belegung, total_belegung, he.summe] at htotal
  rw [hnach]
  have hlen : g.bereich.2 = g.len := rfl
  omega

end Bestand

namespace MemoryServer

variable {n : Nat}

structure Inv (n : Nat) (s : MemoryServer) : Prop where
  frei : s.Frei
  geordnet : s.bestand.Geordnet n
  erhalten : s.bestand.Erhalten n

theorem neu_inv {cpuBasis devBasis : Nat} {s : MemoryServer} (h : neu cpuBasis devBasis n = some s) :
    s.Inv n := by
  obtain ⟨hle, hfrei, hgeo, -, hfreie, g, hlive, -, -, hbereich⟩ := neu_eq_some h
  have hbel : s.bestand.belegung = [(0, startKapital), (startKapital, n - startKapital)] := by
    rw [Bestand.belegung, hlive, hfreie, List.map_singleton, hbereich]
    rfl
  have hjoin := (Coalesced.join 0 startKapital (n - startKapital) []).same
  rw [Nat.zero_add, Nat.add_sub_cancel' hle, ← hbel] at hjoin
  refine ⟨hfrei, hgeo, (Bestand.erhalten_iff hgeo).mpr ⟨?_, ?_⟩⟩
  · rw [hjoin.total]
    simp
  · rw [hjoin.cover]
    ext x
    simp [addrs]

theorem Inv.step {s : MemoryServer} (h : s.Inv n) (op : Tid × Anfrage) (hok : s.FindetPlatz op) :
    ∃ t, s.step op = some t ∧ t.Inv n := by
  obtain ⟨t, ht, hfrei, hbestand⟩ := bedienen_eq h.frei op.1 op.2
  have hw := Bestand.ausfuehren_wirkung h.geordnet op.2
  rw [← hbestand] at hw
  refine ⟨t, by rw [MemoryServer.step, ht]; rfl, hfrei, h.geordnet.wirkung hw, h.erhalten.wirkung hw ?_⟩
  intro pd handle ha hr
  cases hp : s.bestand.rueckgabePruefen pd handle with
  | error e => simp [ha, Bestand.ausfuehren, Bestand.zurueckgebenInner, hp, Except.map] at hr
  | ok p => exact hok pd handle p ha hp

/-- The arena is conserved in every prefix of a run exactly if every return of the run that passes
its checks finds a free place in the free list. -/
theorem run_arena_erhalten_iff {cpuBasis devBasis : Nat} {s : MemoryServer}
    (h : neu cpuBasis devBasis n = some s) (ops : List (Tid × Anfrage)) :
    (∀ xs, xs <+: ops → ∃ t, run step s xs = some t ∧ t.bestand.Erhalten n) ↔
      Admissible step FindetPlatz s ops := by
  have hgood : ∀ (s : MemoryServer) (op : Tid × Anfrage), Inv n s → FindetPlatz s op →
      ∃ t, step s op = some t ∧ Inv n t :=
    fun s op hs hok => hs.step op hok
  have herhalten : ∀ s : MemoryServer, Inv n s → s.bestand.Erhalten n := fun s hs => hs.erhalten
  refine forall_prefix_iff_admissible herhalten hgood ?_ (neu_inv h) ops
  intro s op hs hnot
  obtain ⟨t, ht, -, hbestand⟩ := bedienen_eq hs.frei op.1 op.2
  refine ⟨t, by rw [step, ht]; rfl, fun he => ?_⟩
  simp only [FindetPlatz, not_forall, Nat.not_lt] at hnot
  obtain ⟨pd, handle, ⟨slot, g⟩, hop, hp, hvoll⟩ := hnot
  have hsumme := Bestand.rueckgabe_verliert hs.erhalten hp hvoll
  have hlen := hs.geordnet.laenge g (Bestand.rueckgabePruefen_eq_ok hp).1.mem
  have hnach := he.summe
  rw [hbestand, hop] at hnach
  omega

def anfordern (len : Nat) : Tid × Anfrage := (1, .anfordern pdBoot len .allgemein)

def zurueck (gen slot : Nat) : Tid × Anfrage := (1, .zurueckgeben pdBoot ((gen <<< 32) ||| slot))

/-- One domain makes sixteen gaps with growing requests: each round returns every other grant of
the round before, and the next requests are too long for the gaps. -/
def zerstueckeln : List (Tid × Anfrage) :=
  List.replicate 15 (anfordern 0x1000) ++
    [zurueck 1 0, zurueck 3 2, zurueck 5 4, zurueck 7 6, zurueck 9 8, zurueck 11 10, zurueck 13 12,
      zurueck 15 14] ++
    List.replicate 8 (anfordern 0x2000) ++
    [zurueck 17 0, zurueck 19 4, zurueck 21 8, zurueck 23 12] ++
    List.replicate 4 (anfordern 0x3000) ++ [zurueck 25 0, zurueck 27 8] ++
    List.replicate 2 (anfordern 0x4000) ++ [zurueck 29 0]

theorem run_arena_erhalten_iff_gaps : ∃ s,
    neu 0x40000000 0x10000000 0x200000 = some s ∧
      ((∀ xs, xs <+: zerstueckeln → ∃ t, run step s xs = some t ∧ t.bestand.Erhalten 0x200000) ↔
        Admissible step FindetPlatz s zerstueckeln) := by
  have hneu : ∃ s, neu 0x40000000 0x10000000 0x200000 = some s := ⟨_, rfl⟩
  obtain ⟨s, hs⟩ := hneu
  exact ⟨s, hs, run_arena_erhalten_iff hs zerstueckeln⟩

/-- With sixteen free ranges and fifteen live grants, the next return loses its page. -/
theorem run_full_free_list_drops : ∃ s t,
    neu 0x40000000 0x10000000 0x200000 = some s ∧
      run step s (zerstueckeln ++ [zurueck 2 1]) = some t ∧
      t.bestand.vergebenBytes + t.bestand.freieBytes = 0x200000 - 0x1000 ∧
      ¬ t.bestand.Erhalten 0x200000 := by
  have hlost : ∃ s t, neu 0x40000000 0x10000000 0x200000 = some s ∧
      run step s (zerstueckeln ++ [zurueck 2 1]) = some t ∧
      t.bestand.vergebenBytes + t.bestand.freieBytes = 0x200000 - 0x1000 :=
    ⟨_, _, rfl, rfl, by decide⟩
  obtain ⟨s, t, hneu, hrun, hsumme⟩ := hlost
  exact ⟨s, t, hneu, hrun, hsumme, fun h => by have hall := h.summe; omega⟩

end MemoryServer

end Caprock.MemServer
