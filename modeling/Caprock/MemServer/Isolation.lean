import Mathlib.Data.List.Nodup
import Caprock.MemServer.Requests

/-! # Isolation of the memory server's clients

Beside the server runs a journal of what it did: which handles it issued, to whom and for which
range, which were returned, and which are reported as mapped.  The table of the server knows a
grant only as long as its place is not used again; the journal knows all of them.
-/

namespace Caprock.MemServer

open Execution Ranges
open Caprock.Wait (Tid)

structure Ausgabe where
  handle : Nat
  pd : Nat
  offset : Nat
  len : Nat
  deriving DecidableEq, Repr

def Ausgabe.bereich (e : Ausgabe) : Range := (e.offset, e.len)

def Grant.ausgabe (g : Grant) : Ausgabe := ⟨g.handle, g.pd, g.offset, g.len⟩

structure Verlauf where
  server : MemoryServer
  ausgegeben : List Ausgabe
  zurueck : List Nat
  gemeldet : List Nat

namespace Verlauf

/-- A new server; its first grant is in the journal. -/
def start (s : MemoryServer) : Verlauf := ⟨s, s.bestand.lebende.map Grant.ausgabe, [], []⟩

def buchen (v : Verlauf) (s : MemoryServer) : Anfrage → Except SpeicherFehler Antwort → Verlauf
  | .anfordern pd _ _, .ok (.schein x) =>
      { v with server := s, ausgegeben := ⟨x.handle, pd, x.offset, x.len⟩ :: v.ausgegeben }
  | .zurueckgeben _ handle, .ok _ => { v with server := s, zurueck := handle :: v.zurueck }
  | .abbilden _ handle, .ok _ => { v with server := s, gemeldet := handle :: v.gemeldet }
  | .ausblenden _ handle, .ok _ =>
      { v with server := s, gemeldet := v.gemeldet.filter fun h => h ≠ handle }
  | _, _ => { v with server := s }

def step (v : Verlauf) (op : Tid × Anfrage) : Option Verlauf :=
  (v.server.bedienen op.1 op.2).map fun r => v.buchen r.2 op.2 r.1

def offen (v : Verlauf) : List Ausgabe := v.ausgegeben.filter fun e => e.handle ∉ v.zurueck

end Verlauf

/-- What the clients of a server with `n` bytes can rely on. -/
structure Isoliert (n : Nat) (v : Verlauf) : Prop where
  /-- The table holds exactly what was issued and not returned. -/
  buch : (v.server.bestand.lebende.map Grant.ausgabe).Perm v.offen
  disjunkt : Apart (v.server.bestand.lebende.map Grant.bereich)
  seiten : ∀ g ∈ v.server.bestand.lebende, pageSize ∣ g.offset ∧ pageSize ∣ g.len
  innen : ∀ g ∈ v.server.bestand.lebende, 0 < g.len ∧ g.offset + g.len ≤ n
  /-- A request for a handle succeeds only for the domain it was issued to, before its return. -/
  erfolg : ∀ (me : Tid) (a : Anfrage) (pd handle : Nat) (r : Antwort) (s : MemoryServer),
    a.schein = some (pd, handle) → v.server.bedienen me a = some (.ok r, s) →
    (∃ e ∈ v.ausgegeben, e.handle = handle) ∧
      (∀ e ∈ v.ausgegeben, e.handle = handle → e.pd = pd) ∧ handle ∉ v.zurueck
  /-- A new grant keeps clear of everything that is not returned or still reported as mapped. -/
  neuvergabe : ∀ (me : Tid) (pd len : Nat) (zweck : Zweck) (x : GrantSchein) (s : MemoryServer),
    v.server.anfordernMitZweck me pd len zweck = some (.ok x, s) →
    ∀ e ∈ v.ausgegeben, e.handle ∉ v.zurueck ∨ e.handle ∈ v.gemeldet →
      Disjoint (addrs (x.offset, x.len)) (addrs e.bereich)
  konto : ∀ z, v.server.bestand.benutzt z = v.server.bestand.zweckBytes z

namespace Verlauf

structure Scheine (v : Verlauf) : Prop where
  gen : v.server.bestand.naechsteGen =
    if v.ausgegeben.length + 1 < 2 ^ 32 then v.ausgegeben.length + 1 else 1
  handles : ∀ e ∈ v.ausgegeben, e.handle / 2 ^ 32 ≤ v.ausgegeben.length
  eindeutig : (v.ausgegeben.map Ausgabe.handle).Nodup
  zurueck : ∀ h ∈ v.zurueck, h ∈ v.ausgegeben.map Ausgabe.handle
  buch : (v.server.bestand.lebende.map Grant.ausgabe).Perm v.offen
  gemeldet : ∀ h ∈ v.gemeldet, ∃ (slot : Nat) (g : Grant),
    v.server.bestand.grants[slot]? = some (some g) ∧ g.handle = h ∧ g.live = true ∧
      g.abgebildet = true

/-- The whole invariant. -/
structure Inv (n : Nat) (v : Verlauf) : Prop where
  frei : v.server.Frei
  geordnet : v.server.bestand.Geordnet n
  scheine : v.ausgegeben.length < 2 ^ 32 → v.Scheine

variable {v : Verlauf} {n : Nat}

theorem mem_offen {e : Ausgabe} : e ∈ v.offen ↔ e ∈ v.ausgegeben ∧ e.handle ∉ v.zurueck := by
  simp [offen]

namespace Scheine

theorem mem_offen_of_live (h : v.Scheine) {g : Grant} (hg : g ∈ v.server.bestand.lebende) :
    g.ausgabe ∈ v.offen := h.buch.mem_iff.mp (List.mem_map_of_mem hg)

theorem eq_of_handle (h : v.Scheine) {e e' : Ausgabe} (he : e ∈ v.ausgegeben)
    (he' : e' ∈ v.ausgegeben) (heq : e.handle = e'.handle) : e = e' :=
  List.inj_on_of_nodup_map h.eindeutig he he' heq

theorem not_mem_zurueck (h : v.Scheine) {handle : Nat} (hm : handle ∈ v.gemeldet) :
    handle ∉ v.zurueck := by
  obtain ⟨slot, g, hslot, rfl, hlive, -⟩ := h.gemeldet handle hm
  have hmem : g ∈ v.server.bestand.lebende := Bestand.mem_lebende.mpr ⟨slot, hslot, hlive⟩
  exact (mem_offen.mp (h.mem_offen_of_live hmem)).2

end Scheine

theorem Inv.isoliert (h : v.Inv n) (hlen : v.ausgegeben.length < 2 ^ 32) : Isoliert n v := by
  have hs := h.scheine hlen
  have hgeo := h.geordnet
  obtain ⟨hapart, -, -⟩ := apart_append.mp hgeo.apart
  obtain ⟨hseiten, -⟩ := aligned_append.mp hgeo.seiten
  refine ⟨hs.buch, hapart, ?_, ?_, ?_, ?_, hgeo.konto⟩
  · intro g hg
    exact hseiten g.bereich (List.mem_map_of_mem hg)
  · intro g hg
    exact ⟨hgeo.laenge g hg, hgeo.ende_le hg⟩
  · intro me a pd handle r s ha hok
    obtain ⟨t, ht, -, -⟩ := MemoryServer.bedienen_eq h.frei me a
    rw [ht, Option.some.injEq, Prod.mk.injEq] at hok
    obtain ⟨slot, g, hfound⟩ := (Bestand.ausfuehren_wirkung hgeo a).gefunden ha hok.1
    have hoff := mem_offen.mp (hs.mem_offen_of_live hfound.mem)
    have hhandle : g.ausgabe.handle = handle := hfound.handle
    refine ⟨⟨g.ausgabe, hoff.1, hhandle⟩, ?_, hhandle ▸ hoff.2⟩
    intro e he heq
    rw [hs.eq_of_handle he hoff.1 (heq.trans hhandle.symm)]
    exact hfound.pd
  · intro me pd len zweck x s hok e he hstand
    have hoff : e ∈ v.offen := by
      rcases hstand with hnot | hmark
      · exact mem_offen.mpr ⟨he, hnot⟩
      · exact mem_offen.mpr ⟨he, hs.not_mem_zurueck hmark⟩
    obtain ⟨g, hg, rfl⟩ := List.mem_map.mp (hs.buch.mem_iff.mpr hoff)
    obtain ⟨t, ht, -, -⟩ := MemoryServer.bedienen_eq h.frei me (.anfordern pd len zweck)
    have hsub := (Bestand.ausfuehren_wirkung hgeo (.anfordern pd len zweck)).aus_freien
      (x := x) (by
        rw [MemoryServer.bedienen, hok] at ht
        exact (congrArg Prod.fst (Option.some.inj ht)).symm)
    exact hgeo.apart_freie hsub hg

@[simp] theorem buchen_error (v : Verlauf) (s : MemoryServer) (a : Anfrage) (e : SpeicherFehler) :
    v.buchen s a (.error e) = { v with server := s } := by
  cases a <;> rfl

theorem handle_div {gen slot : Nat} (h : slot < maxGrants) :
    ((gen <<< 32) ||| slot) / 2 ^ 32 = gen := by
  have hslot : slot < 2 ^ 32 := h.trans (by decide)
  rw [← Nat.shiftLeft_add_eq_or_of_lt hslot, Nat.shiftLeft_eq]
  omega

theorem ausgabe_congr {b c : Bestand} (h : c.lebende.map Grant.kern = b.lebende.map Grant.kern) :
    c.lebende.map Grant.ausgabe = b.lebende.map Grant.ausgabe := by
  have hread : ∀ l : List Grant, l.map Grant.ausgabe = (l.map Grant.kern).map Grant.ausgabe := by
    intro l
    rw [List.map_map]
    rfl
  rw [hread c.lebende, h, ← hread b.lebende]

namespace Scheine

/-- A change of marks in one place of the table. -/
theorem vermerkt (h : v.Scheine) {w : Verlauf} {slot pd handle : Nat} {g g' : Grant}
    (hfound : v.server.bestand.Gefunden pd handle slot g)
    (hw : w.server.bestand = v.server.bestand.setGrant slot g') (hk : g'.kern = g.kern)
    (hausgegeben : w.ausgegeben = v.ausgegeben) (hzurueck : w.zurueck = v.zurueck)
    (hgemeldet : ∀ x ∈ w.gemeldet, x = handle ∧ g'.abgebildet = true ∨
      x ∈ v.gemeldet ∧ (x = handle → g.abgebildet = true → g'.abgebildet = true)) : w.Scheine := by
  have hlebende : w.server.bestand.lebende.map Grant.ausgabe =
      v.server.bestand.lebende.map Grant.ausgabe := by
    rw [hw]
    exact ausgabe_congr (Bestand.lebende_setGrant_kern hfound.fach hk)
  have hlt : slot < v.server.bestand.grants.length := (List.getElem?_eq_some_iff.mp hfound.fach).1
  have hlive : g'.live = true := (congrArg Grant.live hk :).trans hfound.live
  have hhandle : g'.handle = handle := (congrArg Grant.handle hk :).trans hfound.handle
  have hneu : w.server.bestand.grants[slot]? = some (some g') := by
    rw [hw]
    exact List.getElem?_set_self hlt
  refine ⟨?_, ?_, ?_, ?_, ?_, ?_⟩
  · rw [hw, hausgegeben]
    exact h.gen
  · rw [hausgegeben]
    exact h.handles
  · rw [hausgegeben]
    exact h.eindeutig
  · rw [hausgegeben, hzurueck]
    exact h.zurueck
  · rw [hlebende, offen, hausgegeben, hzurueck]
    exact h.buch
  · intro x hx
    rcases hgemeldet x hx with ⟨rfl, hmark⟩ | ⟨hold, hkeep⟩
    · exact ⟨slot, g', hneu, hhandle, hlive, hmark⟩
    · obtain ⟨i, y, hi, hyh, hyl, hym⟩ := h.gemeldet x hold
      by_cases his : i = slot
      · subst his
        obtain rfl : y = g := Option.some.inj (Option.some.inj (hi.symm.trans hfound.fach))
        have hxh : x = handle := hyh.symm.trans hfound.handle
        exact ⟨i, g', hneu, hhandle.trans hxh.symm, hlive, hkeep hxh hym⟩
      · refine ⟨i, y, ?_, hyh, hyl, hym⟩
        rw [hw, Bestand.setGrant_grants, List.getElem?_set_ne (Ne.symm his)]
        exact hi

theorem vergabe (h : v.Scheine) {s : MemoryServer} {slot bedarf off : Nat} {zweck : Zweck}
    {freie : Freiliste} {g : Grant} (hv : v.server.bestand.Vergabe zweck slot bedarf off freie)
    (hg : g.live = true) (hhandle : g.handle = (v.server.bestand.naechsteGen <<< 32) ||| slot)
    (hs : s.bestand = v.server.bestand.nachVergabe slot g freie)
    (hlen : v.ausgegeben.length + 1 < 2 ^ 32) :
    ({ v with server := s, ausgegeben := g.ausgabe :: v.ausgegeben } : Verlauf).Scheine := by
  obtain ⟨alt, hslot, halt⟩ := hv.frei
  have hlt : slot < maxGrants := by
    have hlt := (List.getElem?_eq_some_iff.mp hslot).1
    rwa [v.server.bestand.fach] at hlt
  have hgen : v.server.bestand.naechsteGen = v.ausgegeben.length + 1 := by
    rw [h.gen, if_pos hlen]
  have hdiv : g.handle / 2 ^ 32 = v.ausgegeben.length + 1 := by
    rw [hhandle, handle_div hlt, hgen]
  have hneu : g.handle ∉ v.ausgegeben.map Ausgabe.handle := by
    intro hmem
    obtain ⟨e, he, heq⟩ := List.mem_map.mp hmem
    have hle := h.handles e he
    rw [heq, hdiv] at hle
    omega
  have hnz : g.ausgabe.handle ∉ v.zurueck := fun hmem => hneu (h.zurueck _ hmem)
  have hlive := Bestand.nachVergabe_lebende hv hg
  refine ⟨?_, ?_, ?_, ?_, ?_, ?_⟩
  · have hnext : s.bestand.naechsteGen =
        if (v.server.bestand.naechsteGen + 1) % 2 ^ 32 = 0 then 1
        else (v.server.bestand.naechsteGen + 1) % 2 ^ 32 := by
      rw [hs]
      rfl
    simp only [hnext, hgen, List.length_cons]
    by_cases hmax : v.ausgegeben.length + 1 + 1 < 2 ^ 32
    · rw [Nat.mod_eq_of_lt hmax, if_neg (by omega), if_pos hmax]
    · have hwrap : v.ausgegeben.length + 1 + 1 = 2 ^ 32 := by omega
      rw [hwrap, Nat.mod_self, if_pos rfl, if_neg (Nat.lt_irrefl _)]
  · intro e he
    rw [List.length_cons]
    rcases List.mem_cons.mp he with rfl | he
    · exact hdiv.le
    · exact (h.handles e he).trans (Nat.le_succ _)
  · rw [List.map_cons, List.nodup_cons]
    exact ⟨hneu, h.eindeutig⟩
  · intro x hx
    exact List.mem_cons_of_mem _ (h.zurueck x hx)
  · have hoffen : ({ v with server := s, ausgegeben := g.ausgabe :: v.ausgegeben } : Verlauf).offen =
        g.ausgabe :: v.offen := by
      simp only [offen]
      exact List.filter_cons_of_pos (by simpa using hnz)
    rw [hoffen, hs]
    exact (hlive.map Grant.ausgabe).trans (h.buch.cons _)
  · intro x hx
    obtain ⟨i, y, hi, hyh, hyl, hym⟩ := h.gemeldet x hx
    have hne : slot ≠ i := by
      rintro rfl
      rw [hslot, Option.some.injEq] at hi
      subst hi
      rw [Option.any_some, hyl] at halt
      cases halt
    refine ⟨i, y, ?_, hyh, hyl, hym⟩
    rw [hs]
    exact (List.getElem?_set_ne hne).trans hi

theorem rueckgabe (h : v.Scheine) {s : MemoryServer} {slot pd handle : Nat} {g : Grant}
    (hfound : v.server.bestand.Gefunden pd handle slot g) (hmark : g.abgebildet = false)
    (hs : s.bestand = v.server.bestand.nachRueckgabe slot g) :
    ({ v with server := s, zurueck := handle :: v.zurueck } : Verlauf).Scheine := by
  have hhandle : g.ausgabe.handle = handle := hfound.handle
  have hoff := mem_offen.mp (h.mem_offen_of_live hfound.mem)
  have hlive := (Bestand.nachRueckgabe_lebende hfound.fach hfound.live).map Grant.ausgabe
  rw [List.map_cons] at hlive
  refine ⟨?_, h.handles, h.eindeutig, ?_, ?_, ?_⟩
  · rw [hs]
    exact h.gen
  · intro x hx
    rcases List.mem_cons.mp hx with rfl | hx
    · exact List.mem_map.mpr ⟨g.ausgabe, hoff.1, hhandle⟩
    · exact h.zurueck x hx
  · -- The open entries without the returned handle, on both sides.
    have hperm := hlive.symm.trans h.buch
    have hnodup : ((g.ausgabe :: (v.server.bestand.nachRueckgabe slot g).lebende.map
        Grant.ausgabe).map Ausgabe.handle).Nodup :=
      (hperm.map Ausgabe.handle).nodup_iff.mpr
        (h.eindeutig.sublist (List.filter_sublist.map Ausgabe.handle))
    rw [List.map_cons, List.nodup_cons] at hnodup
    have hfilter := hperm.filter fun e => decide (e.handle ≠ handle)
    rw [List.filter_cons_of_neg (by simp [hhandle]), List.filter_eq_self.mpr ?_] at hfilter
    · rw [hs]
      refine hfilter.trans (List.Perm.of_eq ?_)
      simp only [offen, List.filter_filter]
      congr 1
      funext e
      simp [List.mem_cons, not_or]
    · intro e he
      rw [decide_eq_true_eq]
      intro heq
      exact hnodup.1 (hhandle.trans heq.symm ▸ List.mem_map_of_mem he)
  · intro x hx
    obtain ⟨i, y, hi, hyh, hyl, hym⟩ := h.gemeldet x hx
    have hne : slot ≠ i := by
      rintro rfl
      obtain rfl : y = g := Option.some.inj (Option.some.inj (hi.symm.trans hfound.fach))
      rw [hmark] at hym
      cases hym
    refine ⟨i, y, ?_, hyh, hyl, hym⟩
    rw [hs]
    exact (List.getElem?_set_ne hne).trans hi

end Scheine

theorem Scheine.wirkung {s : MemoryServer} {a : Anfrage} {r : Except SpeicherFehler Antwort}
    (h : v.Scheine) (hw : v.server.bestand.Wirkung a r s.bestand)
    (hlen : (v.buchen s a r).ausgegeben.length < 2 ^ 32) : (v.buchen s a r).Scheine := by
  -- The state after the request is an index of `Wirkung`; it is named for the case distinction.
  generalize hc : s.bestand = c at hw
  cases hw with
  | abgelehnt a e =>
    rw [buchen_error]
    exact ⟨hc ▸ h.gen, h.handles, h.eindeutig, h.zurueck, hc ▸ h.buch, hc ▸ h.gemeldet⟩
  | vergeben buf hv hg =>
    subst hg
    exact h.vergabe hv rfl rfl hc hlen
  | zurueck hfound hmark => exact h.rueckgabe hfound hmark hc
  | abgebildet hfound =>
    refine h.vermerkt hfound hc rfl rfl rfl fun x hx => ?_
    rcases List.mem_cons.mp hx with rfl | hx
    · exact .inl ⟨rfl, rfl⟩
    · exact .inr ⟨hx, fun _ _ => rfl⟩
  | ausgeblendet hfound =>
    refine h.vermerkt hfound hc rfl rfl rfl fun x hx => ?_
    obtain ⟨hx, hne⟩ := List.mem_filter.mp hx
    exact .inr ⟨hx, fun heq => absurd heq (of_decide_eq_true hne)⟩
  | entzogen hfound => exact h.vermerkt hfound hc rfl rfl rfl fun x hx => .inr ⟨hx, fun _ hm => hm⟩
  | gelesen => exact ⟨hc ▸ h.gen, h.handles, h.eindeutig, h.zurueck, hc ▸ h.buch, hc ▸ h.gemeldet⟩
  | verboten zweck verboten =>
    cases verboten with
    | true =>
      exact ⟨hc ▸ h.gen, h.handles, h.eindeutig, h.zurueck, hc ▸ h.buch, hc ▸ h.gemeldet⟩
    | false =>
      exact ⟨hc ▸ h.gen, h.handles, h.eindeutig, h.zurueck, hc ▸ h.buch, hc ▸ h.gemeldet⟩
  | begrenzt zweck grenze =>
    exact ⟨hc ▸ h.gen, h.handles, h.eindeutig, h.zurueck, hc ▸ h.buch, hc ▸ h.gemeldet⟩

theorem buchen_length (v : Verlauf) (s : MemoryServer) (a : Anfrage)
    (r : Except SpeicherFehler Antwort) :
    v.ausgegeben.length ≤ (v.buchen s a r).ausgegeben.length := by
  unfold buchen
  split <;> simp

@[simp] theorem buchen_server (v : Verlauf) (s : MemoryServer) (a : Anfrage)
    (r : Except SpeicherFehler Antwort) : (v.buchen s a r).server = s := by
  unfold buchen
  split <;> rfl

theorem Inv.step (h : v.Inv n) (op : Tid × Anfrage) : ∃ w, v.step op = some w ∧ w.Inv n := by
  obtain ⟨t, ht, hfrei, hbestand⟩ := MemoryServer.bedienen_eq h.frei op.1 op.2
  have hw := Bestand.ausfuehren_wirkung h.geordnet op.2
  rw [← hbestand] at hw
  refine ⟨_, by rw [Verlauf.step, ht]; rfl, ?_, ?_, ?_⟩
  · simpa using hfrei
  · simpa using h.geordnet.wirkung hw
  · intro hlen
    exact (h.scheine (Nat.lt_of_le_of_lt (buchen_length v t op.2 _) hlen)).wirkung hw hlen

theorem start_inv {cpuBasis devBasis : Nat} {s : MemoryServer}
    (h : MemoryServer.neu cpuBasis devBasis n = some s) : (start s).Inv n := by
  obtain ⟨-, hfrei, hgeo, hgen, -, g, hlive, hhandle, -, -⟩ := MemoryServer.neu_eq_some h
  have hausgegeben : (start s).ausgegeben = [g.ausgabe] := by
    rw [start, hlive]
    rfl
  refine ⟨hfrei, hgeo, fun _ => ⟨?_, ?_, ?_, ?_, ?_, ?_⟩⟩
  · rw [hausgegeben]
    exact hgen
  · rw [hausgegeben]
    intro e he
    obtain rfl := List.mem_singleton.mp he
    rw [Grant.ausgabe, hhandle]
    exact (Nat.div_self (Nat.two_pow_pos 32)).le
  · rw [hausgegeben]
    exact List.nodup_singleton _
  · exact fun _ hx => absurd hx List.not_mem_nil
  · rw [offen]
    exact List.Perm.of_eq (List.filter_eq_self.mpr fun e _ => decide_eq_true List.not_mem_nil).symm
  · exact fun _ hx => absurd hx List.not_mem_nil

/-- A server answers every sequence of requests of any domains, and with fewer than `2 ^ 32`
grants its clients stay isolated all the way. -/
theorem run_isoliert {cpuBasis devBasis : Nat} {s : MemoryServer}
    (h : MemoryServer.neu cpuBasis devBasis n = some s) (ops : List (Tid × Anfrage)) :
    ∃ v, run step (start s) ops = some v ∧
      (v.ausgegeben.length < 2 ^ 32 → Isoliert n v) := by
  have hops : Admissible step (fun _ _ => True) (start s) ops :=
    Admissible.of_forall (fun _ _ => trivial) _ ops
  obtain ⟨v, hrun, hinv⟩ :=
    run_total (fun v op (hv : v.Inv n) _ => hv.step op) (start_inv h) hops
  exact ⟨v, hrun, hinv.isoliert⟩

theorem run_isoliert_reuse : ∃ s v,
    MemoryServer.neu 0x40000000 0x10000000 0x200000 = some s ∧
      run step (start s) [(1, .anfordern 2 4096 .stapel), (1, .zurueckgeben 2 0x200000001),
        (2, .anfordern 3 4096 .allgemein)] = some v ∧
      v.ausgegeben.length = 3 ∧ Isoliert 0x200000 v := by
  have hneu : ∃ s, MemoryServer.neu 0x40000000 0x10000000 0x200000 = some s := ⟨_, rfl⟩
  obtain ⟨s, hs⟩ := hneu
  obtain ⟨v, hrun, hiso⟩ := run_isoliert hs [(1, .anfordern 2 4096 .stapel),
    (1, .zurueckgeben 2 0x200000001), (2, .anfordern 3 4096 .allgemein)]
  have hlen : v.ausgegeben.length = 3 := by
    cases hs
    cases hrun
    decide
  exact ⟨s, v, hs, hrun, hlen, hiso (by omega)⟩

end Verlauf

end Caprock.MemServer
