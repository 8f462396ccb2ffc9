import Caprock.Region.Kmalloc
import Caprock.Region.Safety

/-! # Blocks of kmalloc

A pointer is held by a caller or lies in the store, under a length or a key.  Each way of holding
it claims a size and an alignment, and behind each claim stands a block of the heap that has
both.  A pointer changes hands under a claim that the old one covers, so what was granted once
bears every later claim.
-/

namespace Caprock.Region

open Mem Memory Execution

/-- A pointer that was handed out, with the length and the alignment asked for. -/
structure Puffer where
  zeiger : Nat
  len : Nat
  ausr : Nat
  deriving DecidableEq

def Puffer.nutzbar (b : Puffer) : PhysRegion := ⟨b.zeiger, ksize b.len⟩

def Puffer.anspruch (b : Puffer) : Eintrag := ⟨b.zeiger, ksize b.len, b.ausr⟩

def Eintrag.umfang (e : Eintrag) : PhysRegion := ⟨e.zeiger, max e.nutz e.ausr⟩

structure Eintrag.Deckt (e f : Eintrag) : Prop where
  zeiger : f.zeiger = e.zeiger
  nutz_le : max f.nutz f.ausr ≤ max e.nutz e.ausr
  ausr_le : f.ausr ≤ e.ausr
  pow : ∃ k, f.ausr = 2 ^ k
  minalign_le : archKmallocMinalign ≤ f.ausr

structure Eintrag.Getragen (e : Eintrag) (bloecke : List Block) : Prop where
  block : ∃ b ∈ bloecke, b.layout.size ≠ 0 ∧ b.addr = e.zeiger ∧ e.umfang.len ≤ b.umfang.len
  pow : ∃ k, e.ausr = 2 ^ k
  minalign_le : archKmallocMinalign ≤ e.ausr
  dvd : e.ausr ∣ e.zeiger

theorem Eintrag.Getragen.deckt {e f : Eintrag} {bloecke : List Block} (h : e.Getragen bloecke)
    (hd : e.Deckt f) : f.Getragen bloecke := by
  refine ⟨?_, hd.pow, hd.minalign_le, ?_⟩
  · obtain ⟨b, hb, hsize, haddr, hlen⟩ := h.block
    exact ⟨b, hb, hsize, haddr.trans hd.zeiger.symm, hd.nutz_le.trans hlen⟩
  · obtain ⟨i, hi⟩ := h.pow
    obtain ⟨j, hj⟩ := hd.pow
    have hle := hd.ausr_le
    rw [hi, hj] at hle
    have hij : j ≤ i := (Nat.pow_le_pow_iff_right (by decide)).mp hle
    have hdvd : f.ausr ∣ e.ausr := by
      rw [hi, hj]
      exact Nat.pow_dvd_pow 2 hij
    rw [hd.zeiger]
    exact hdvd.trans h.dvd

theorem Eintrag.Getragen.mono {e : Eintrag} {bloecke : List Block} (h : e.Getragen bloecke)
    (b : Block) : e.Getragen (b :: bloecke) := by
  obtain ⟨c, hc, hblock⟩ := h.block
  exact ⟨⟨c, List.mem_cons_of_mem b hc, hblock⟩, h.pow, h.minalign_le, h.dvd⟩

theorem Belegung.andererSpeicher {heap : Heap} {m m' : Mem} {bloecke : List Block}
    (h : Belegung ⟨heap, m, bloecke⟩ fun _ => []) : Belegung ⟨heap, m', bloecke⟩ fun _ => [] :=
  ⟨h.geordnet, fun ci => (h.kette ci).congr (by simp), h.getrennt, h.slots, h.bloecke⟩

/-- The blocks of a heap without free slots, and the claims on them: no pointer is claimed
twice. -/
structure Deckung (heap : Heap) (bloecke : List Block) (ansprueche : List Eintrag) : Prop where
  belegung : ∀ m, Belegung ⟨heap, m, bloecke⟩ fun _ => []
  eigen : (ansprueche.map Eintrag.zeiger).Nodup
  getragen : ∀ e ∈ ansprueche, e.Getragen bloecke

namespace Deckung

variable {heap : Heap} {bloecke : List Block} {es fs : List Eintrag} {e f : Eintrag}

theorem perm (h : Deckung heap bloecke es) (hp : es.Perm fs) : Deckung heap bloecke fs :=
  ⟨h.belegung, (hp.map Eintrag.zeiger).nodup h.eigen, fun e he => h.getragen e (hp.mem_iff.mpr he)⟩

theorem sublist (h : Deckung heap bloecke es) (hs : fs.Sublist es) : Deckung heap bloecke fs :=
  ⟨h.belegung, (hs.map Eintrag.zeiger).nodup h.eigen, fun e he => h.getragen e (hs.subset he)⟩

theorem deckt (h : Deckung heap bloecke (e :: es)) (hd : e.Deckt f) :
    Deckung heap bloecke (f :: es) := by
  refine ⟨h.belegung, ?_, ?_⟩
  · have heigen := h.eigen
    rw [List.map_cons] at heigen ⊢
    rwa [hd.zeiger]
  · intro g hg
    obtain rfl | hg := List.mem_cons.mp hg
    · exact (h.getragen e List.mem_cons_self).deckt hd
    · exact h.getragen g (List.mem_cons_of_mem e hg)

/-- A new block of the heap, and the claim on it. -/
theorem allocate (h : Deckung heap bloecke es) {plan : Layout} (hsize : plan.size ≠ 0)
    {antwort : Option PhysRegion} (hant : heap.source.Liefert plan.minLen antwort) (m : Mem) :
    Deckung (heap.allocate m plan antwort).2 bloecke es ∧
      ∀ a len, (heap.allocate m plan antwort).1 = some (a, len) →
        archKmallocMinalign ≤ plan.align → plan.align ≤ page →
        Deckung (heap.allocate m plan antwort).2 (⟨a, len, plan⟩ :: bloecke)
          (⟨a, plan.size, plan.align⟩ :: es) := by
  obtain ⟨hheap, hblock⟩ :=
    (h.belegung m).allocate hant fun _ ci _ => (h.belegung m).kette ci
  refine ⟨⟨fun _ => hheap.andererSpeicher, h.eigen, h.getragen⟩, ?_⟩
  intro a len hres hmin hmax
  have hbel := hblock a len hres
  have hnew : (⟨a, len, plan⟩ : Block) ∈ (⟨a, len, plan⟩ :: bloecke : List Block) :=
    List.mem_cons_self
  refine ⟨fun _ => hbel.andererSpeicher, ?_, ?_⟩
  · rw [List.map_cons, List.nodup_cons]
    refine ⟨fun hmem => ?_, h.eigen⟩
    obtain ⟨e, he, hzeiger⟩ := List.mem_map.mp hmem
    obtain ⟨c, hc, hcsize, hcaddr, -⟩ := (h.getragen e he).block
    have hc' : c ∈ (⟨a, len, plan⟩ :: bloecke : List Block).erase ⟨a, len, plan⟩ := by
      rwa [List.erase_cons_head]
    exact hbel.addr_ne hnew hc' hsize hcsize (hcaddr.trans hzeiger)
  · intro e he
    obtain rfl | he := List.mem_cons.mp he
    · exact ⟨⟨_, hnew, hsize, rfl, Layout.effective_le hsize⟩, plan.align_pow, hmin,
        hbel.aligned hnew hsize hmax⟩
    · exact (h.getragen e he).mono _

theorem apart (h : Deckung heap bloecke es) (he : e ∈ es) (hf : f ∈ es)
    (hne : e.zeiger ≠ f.zeiger) : Apart e.umfang f.umfang := by
  obtain ⟨b, hb, -, hbaddr, hblen⟩ := (h.getragen e he).block
  obtain ⟨c, hc, -, hcaddr, hclen⟩ := (h.getragen f hf).block
  have hinside : ∀ {g : Eintrag} {d : Block}, d.addr = g.zeiger → g.umfang.len ≤ d.umfang.len →
      g.umfang.Inside d.umfang := by
    intro g d haddr hlen
    have hbase : d.umfang.base = g.umfang.base := haddr
    exact ⟨hbase.le, by omega⟩
  have hpair := (List.pairwise_append.mp (h.belegung fun _ => 0).getrennt).1
  have hbc : b.umfang ≠ c.umfang := by
    intro heq
    have hbase : b.addr = c.addr := congrArg PhysRegion.base heq
    exact hne (hbaddr.symm.trans (hbase.trans hcaddr))
  have hapart := hpair.forall (List.mem_map_of_mem hb) (List.mem_map_of_mem hc) hbc
  exact hapart.mono (hinside hbaddr hblen) (hinside hcaddr hclen)

end Deckung

def neu (erg : Option Nat) (len ausr : Nat) : List Puffer := erg.toList.map fun p => ⟨p, len, ausr⟩

def Quelle.Verlaesslich (q : Quelle) (antwort : Nat → Option PhysRegion) : Prop :=
  ∀ n, q.Liefert n (antwort n)

theorem Quelle.verlaesslich_of_region {q : Quelle} {r : PhysRegion} (hr : RegionOk r)
    (hapart : ∀ t ∈ q.vergeben, Apart r t) :
    q.Verlaesslich fun n => if n ≤ r.len then some r else none := by
  intro n t ht
  dsimp only at ht
  by_cases hle : n ≤ r.len
  · rw [if_pos hle] at ht
    cases ht
    exact ⟨hr, hle, hapart⟩
  · rw [if_neg hle] at ht
    cases ht

namespace Kmalloc

/-- The claims of the callers and those of the store have their blocks. -/
def Traegt (k : Kmalloc) (es : List Eintrag) : Prop :=
  ∃ bloecke, Deckung k.heap bloecke (es ++ k.vorrat.geparkt)

variable {k k' : Kmalloc} {es fs : List Eintrag} {e f : Eintrag}

theorem Traegt.perm (h : k.Traegt es) (hp : es.Perm fs) : k.Traegt fs := by
  obtain ⟨bloecke, hd⟩ := h
  exact ⟨bloecke, hd.perm (hp.append_right _)⟩

theorem Traegt.sublist (h : k.Traegt es) (hs : fs.Sublist es) : k.Traegt fs := by
  obtain ⟨bloecke, hd⟩ := h
  exact ⟨bloecke, hd.sublist (hs.append_right _)⟩

theorem Traegt.deckt (h : k.Traegt (e :: es)) (hd : e.Deckt f) : k.Traegt (f :: es) := by
  obtain ⟨bloecke, hold⟩ := h
  exact ⟨bloecke, Deckung.deckt hold hd⟩

theorem Traegt.congr (h : k.Traegt es) (hheap : k'.heap = k.heap)
    (hgeparkt : k'.vorrat.geparkt = k.vorrat.geparkt) : k'.Traegt es := by
  obtain ⟨bloecke, hd⟩ := h
  refine ⟨bloecke, ?_⟩
  rw [hheap, hgeparkt]
  exact hd

theorem getragen (h : k.Traegt es) (he : e ∈ es) : ∃ bloecke, e.Getragen bloecke := by
  obtain ⟨bloecke, hd⟩ := h
  exact ⟨bloecke, hd.getragen e (List.mem_append_left _ he)⟩

variable {gfp : Gfp} {welt : Umwelt}

theorem deckt_bedarf (zeiger : Nat) {len ausr : Nat} {bedarf : Bedarf}
    (h : bedarfFuer len ausr = some bedarf) :
    Eintrag.Deckt ⟨zeiger, ksize len, ausr⟩ ⟨zeiger, bedarf.nutz, bedarf.ausr⟩ ∧
      Eintrag.Deckt ⟨zeiger, bedarf.nutz, bedarf.ausr⟩ ⟨zeiger, ksize len, ausr⟩ := by
  have hok := bedienbar_of_bedarf h
  have hmax := max_nutz_eq h
  rw [bedarf_ausr h]
  exact ⟨⟨rfl, hmax.le, Nat.le_refl _, hok.pow, hok.minalign_le⟩,
    ⟨rfl, hmax.ge, Nat.le_refl _, hok.pow, hok.minalign_le⟩⟩

theorem deckt_minalign {bloecke : List Block} (h : e.Getragen bloecke) :
    e.Deckt ⟨e.zeiger, e.nutz, archKmallocMinalign⟩ := by
  have hmin := h.minalign_le
  exact ⟨rfl, by dsimp only; omega, hmin, ⟨4, rfl⟩, Nat.le_refl _⟩

theorem Traegt.ausHeap (h : k.Traegt es) {len ausr : Nat} {bedarf : Bedarf}
    (hbedarf : bedarfFuer len ausr = some bedarf) {plan : Layout}
    (hplan : Layout.fromSizeAlign bedarf.nutz bedarf.ausr = some plan)
    {antwort : Option PhysRegion} (hant : k.heap.source.Liefert plan.minLen antwort) (m : Mem) :
    Traegt { k with heap := (k.heap.allocate m plan antwort).2 }
      ((neu ((k.heap.allocate m plan antwort).1.map Prod.fst) len ausr).map Puffer.anspruch ++
        es) := by
  have hok := bedienbar_of_bedarf hbedarf
  obtain ⟨hnutz, halign⟩ := fromSizeAlign_eq_some hplan
  rw [bedarf_ausr hbedarf] at halign
  have hsize : plan.size ≠ 0 := by
    have hpos := hok.len_pos
    have hle := len_le_nutz hbedarf
    omega
  obtain ⟨bloecke, hd⟩ := h
  obtain ⟨hheap, hblock⟩ := hd.allocate hsize hant m
  cases hres : (k.heap.allocate m plan antwort).1 with
  | none => exact ⟨bloecke, hheap⟩
  | some p =>
    have hnew := hblock p.1 p.2 hres (halign ▸ hok.minalign_le) (halign ▸ hok.ausr_le)
    have hdeckt := (deckt_bedarf p.1 hbedarf).2
    rw [bedarf_ausr hbedarf, ← hnutz, ← halign] at hdeckt
    rw [halign] at hdeckt hnew
    exact ⟨_, hnew.deckt hdeckt⟩

theorem Traegt.ausVorrat (h : k.Traegt es) {len ausr : Nat} {bedarf : Bedarf}
    (hbedarf : bedarfFuer len ausr = some bedarf) {v : Vorrat}
    (hperm : k.vorrat.geparkt.Perm (e :: v.geparkt)) (hnutz : bedarf.nutz ≤ e.nutz)
    (halign : bedarf.ausr ≤ e.ausr) :
    Traegt { k with vorrat := v.bedient } (Puffer.anspruch ⟨e.zeiger, len, ausr⟩ :: es) := by
  have hok := bedienbar_of_bedarf hbedarf
  have hausr := bedarf_ausr hbedarf
  have hdeckt : e.Deckt ⟨e.zeiger, bedarf.nutz, bedarf.ausr⟩ := by
    rw [hausr] at halign ⊢
    exact ⟨rfl, by dsimp only; omega, halign, hok.pow, hok.minalign_le⟩
  obtain ⟨bloecke, hd⟩ := h
  have hall : (es ++ k.vorrat.geparkt).Perm (e :: (es ++ v.geparkt)) :=
    (hperm.append_left es).trans List.perm_middle
  have hgenommen := hd.perm hall
  exact ⟨bloecke, (hgenommen.deckt hdeckt).deckt (deckt_bedarf _ hbedarf).2⟩

theorem Traegt.bedienen (h : k.Traegt es) {len ausr : Nat} {bedarf : Bedarf}
    (hbedarf : bedarfFuer len ausr = some bedarf) (hq : k.heap.source.Verlaesslich welt.antwort) :
    (k.bedienen bedarf gfp welt).2.Traegt
      ((neu (k.bedienen bedarf gfp welt).1 len ausr).map Puffer.anspruch ++ es) := by
  unfold Kmalloc.bedienen
  obtain hleer | ⟨e, v, htreffer, hperm, hnutz, halign⟩ := k.vorrat.entnehmen_cases bedarf
  · rw [hleer]
    dsimp only
    by_cases hatomar : gfp.istAtomar = true
    · rw [if_pos hatomar]
      exact h
    rw [if_neg hatomar]
    cases hplan : Layout.fromSizeAlign bedarf.nutz bedarf.ausr with
    | none => exact h
    | some plan => exact h.ausHeap hbedarf hplan (hq _) welt.mem
  · rw [htreffer]
    exact h.ausVorrat hbedarf hperm hnutz halign

theorem kmalloc_eq (k : Kmalloc) (len : Nat) (gfp : Gfp) (welt : Umwelt) :
    k.kmalloc len gfp welt = k.kmallocAusgerichtet len archKmallocMinalign gfp welt := by
  unfold kmalloc kmallocErgebnis kmallocAusgerichtet
  cases bedarfFuer len archKmallocMinalign with
  | none => rfl
  | some bedarf =>
    dsimp only
    cases hres : k.bedienen bedarf gfp welt with
    | mk erg k' => cases erg <;> rfl

theorem Traegt.kmallocAusgerichtet (h : k.Traegt es) (len ausr : Nat) (gfp : Gfp)
    (hq : k.heap.source.Verlaesslich welt.antwort) :
    (k.kmallocAusgerichtet len ausr gfp welt).2.Traegt
      ((neu (k.kmallocAusgerichtet len ausr gfp welt).1 len ausr).map Puffer.anspruch ++ es) := by
  unfold Kmalloc.kmallocAusgerichtet
  cases hbedarf : bedarfFuer len ausr with
  | none => exact h
  | some bedarf => exact h.bedienen hbedarf hq

theorem vorrat_of_none {len ausr : Nat} (h : (k.kmallocAusgerichtet len ausr gfp welt).1 = none) :
    (k.kmallocAusgerichtet len ausr gfp welt).2.vorrat = k.vorrat := by
  unfold kmallocAusgerichtet at h ⊢
  cases hbedarf : bedarfFuer len ausr with
  | none => rfl
  | some bedarf =>
    rw [hbedarf] at h
    dsimp only at h ⊢
    unfold Kmalloc.bedienen at h ⊢
    obtain hleer | ⟨e, v, htreffer, -⟩ := k.vorrat.entnehmen_cases bedarf
    · rw [hleer]
      dsimp only
      split
      · rfl
      · split <;> rfl
    · rw [htreffer] at h
      cases h

theorem heap_of_atomar (hatomar : gfp.istAtomar = true) (len ausr : Nat) (welt : Umwelt) :
    (k.kmallocAusgerichtet len ausr gfp welt).2.heap = k.heap := by
  unfold kmallocAusgerichtet
  cases bedarfFuer len ausr with
  | none => rfl
  | some bedarf =>
    dsimp only
    unfold Kmalloc.bedienen
    obtain hleer | ⟨e, v, htreffer, -⟩ := k.vorrat.entnehmen_cases bedarf
    · rw [hleer]
      dsimp only
      rw [if_pos hatomar]
    · rw [htreffer]

theorem heap_kfreeAusgerichtet (k : Kmalloc) (zeiger len ausr : Nat) :
    (k.kfreeAusgerichtet zeiger len ausr).heap = k.heap := by
  unfold kfreeAusgerichtet
  split
  · rfl
  cases bedarfFuer len ausr with
  | none => rfl
  | some bedarf =>
    dsimp only
    split <;> rfl

theorem Traegt.kfreeAusgerichtet {b : Puffer} (h : k.Traegt (b.anspruch :: es)) :
    (k.kfreeAusgerichtet b.zeiger b.len b.ausr).Traegt es := by
  have hohne : k.Traegt es := h.sublist (List.sublist_cons_self _ _)
  unfold Kmalloc.kfreeAusgerichtet
  by_cases hnull : b.zeiger = 0
  · rw [if_pos hnull]
    exact hohne
  rw [if_neg hnull]
  cases hbedarf : bedarfFuer b.len b.ausr with
  | none => exact hohne.congr rfl rfl
  | some bedarf =>
    dsimp only
    obtain hvoll | ⟨v, hgeparkt, hperm⟩ :=
      k.vorrat.parken_cases ⟨b.zeiger, bedarf.nutz, bedarf.ausr⟩
    · rw [hvoll]
      exact hohne.congr rfl rfl
    · rw [hgeparkt]
      obtain ⟨bloecke, hd⟩ := h
      have hschluessel := hd.deckt (deckt_bedarf _ hbedarf).1
      exact ⟨bloecke, hschluessel.perm (List.perm_middle.symm.trans (hperm.symm.append_left es))⟩

/-- A request for a new length that fails leaves the old block to its caller; otherwise the
caller holds what it got. -/
theorem Traegt.krealloc {b : Puffer} (h : k.Traegt (b.anspruch :: es)) (hne : b.zeiger ≠ 0)
    (neuLen : Nat) (gfp : Gfp) (hq : k.heap.source.Verlaesslich welt.antwort) :
    ((k.krealloc b.zeiger b.len neuLen gfp welt).1 = none ∧ neuLen ≠ 0 →
      (k.krealloc b.zeiger b.len neuLen gfp welt).2.Traegt (b.anspruch :: es)) ∧
    (¬ ((k.krealloc b.zeiger b.len neuLen gfp welt).1 = none ∧ neuLen ≠ 0) →
      (k.krealloc b.zeiger b.len neuLen gfp welt).2.Traegt
        ((neu (k.krealloc b.zeiger b.len neuLen gfp welt).1 neuLen archKmallocMinalign).map
          Puffer.anspruch ++ es)) := by
  let alt : Puffer := ⟨b.zeiger, b.len, archKmallocMinalign⟩
  obtain ⟨bloecke, hgetragen⟩ := getragen h List.mem_cons_self
  have halt : k.Traegt (alt.anspruch :: es) := h.deckt (deckt_minalign hgetragen)
  unfold Kmalloc.krealloc
  rw [if_neg hne]
  by_cases hnull : neuLen = 0
  · rw [if_pos hnull]
    exact ⟨fun hfehl => absurd hnull hfehl.2, fun _ => halt.kfreeAusgerichtet⟩
  rw [if_neg hnull]
  cases hneu : bedarfFuer neuLen archKmallocMinalign with
  | none => exact ⟨fun _ => h, fun hnot => absurd ⟨rfl, hnull⟩ hnot⟩
  | some n =>
    dsimp only
    by_cases hgleich : bedarfFuer b.len archKmallocMinalign = some n
    · -- The key stays, and with it the usable size.
      rw [if_pos hgleich]
      refine ⟨fun hfehl => (nomatch hfehl.1), fun _ => ?_⟩
      have hksize : ksize b.len = ksize neuLen := (ksize_eq hgleich).trans (ksize_eq hneu).symm
      have heq : alt.anspruch = Puffer.anspruch ⟨b.zeiger, neuLen, archKmallocMinalign⟩ := by
        unfold Puffer.anspruch
        rw [← hksize]
      rw [heq] at halt
      exact halt
    · rw [if_neg hgleich, kmalloc_eq]
      have hboth := h.kmallocAusgerichtet neuLen archKmallocMinalign gfp hq
      have hmove := halt.kmallocAusgerichtet neuLen archKmallocMinalign gfp hq
      cases hres : k.kmallocAusgerichtet neuLen archKmallocMinalign gfp welt with
      | mk erg k' =>
        rw [hres] at hboth hmove
        cases erg with
        | none => exact ⟨fun _ => hboth, fun hnot => absurd ⟨rfl, hnull⟩ hnot⟩
        | some p =>
          refine ⟨fun hfehl => (nomatch hfehl.1), fun _ => ?_⟩
          exact (hmove.perm (List.Perm.swap _ _ _)).kfreeAusgerichtet

theorem vorrat_krealloc_of_none {alt altLen neuLen : Nat} (hneu : neuLen ≠ 0)
    (h : (k.krealloc alt altLen neuLen gfp welt).1 = none) :
    (k.krealloc alt altLen neuLen gfp welt).2.vorrat = k.vorrat := by
  unfold krealloc at h ⊢
  by_cases hnull : alt = 0
  · rw [if_pos hnull, kmalloc_eq] at h ⊢
    exact vorrat_of_none h
  rw [if_neg hnull, if_neg hneu] at h ⊢
  cases hbedarf : bedarfFuer neuLen archKmallocMinalign with
  | none => rfl
  | some n =>
    rw [hbedarf] at h
    dsimp only at h ⊢
    by_cases hgleich : bedarfFuer altLen archKmallocMinalign = some n
    · rw [if_pos hgleich] at h
      cases h
    rw [if_neg hgleich, kmalloc_eq] at h ⊢
    have hnone : (k.kmallocAusgerichtet neuLen archKmallocMinalign gfp welt).1 = none →
        (k.kmallocAusgerichtet neuLen archKmallocMinalign gfp welt).2.vorrat = k.vorrat :=
      vorrat_of_none
    cases hres : k.kmallocAusgerichtet neuLen archKmallocMinalign gfp welt with
    | mk erg k' =>
      rw [hres] at h hnone
      cases erg with
      | none => exact hnone rfl
      | some p => cases h

theorem heap_krealloc_of_atomar (hatomar : gfp.istAtomar = true) (alt altLen neuLen : Nat)
    (welt : Umwelt) : (k.krealloc alt altLen neuLen gfp welt).2.heap = k.heap := by
  have hheap := heap_of_atomar (k := k) hatomar neuLen archKmallocMinalign welt
  unfold krealloc
  rw [kmalloc_eq]
  split
  · exact hheap
  split
  · exact heap_kfreeAusgerichtet _ _ _ _
  cases bedarfFuer neuLen archKmallocMinalign with
  | none => rfl
  | some n =>
    dsimp only
    split
    · rfl
    cases hres : k.kmallocAusgerichtet neuLen archKmallocMinalign gfp welt with
    | mk erg k' =>
      rw [hres] at hheap
      cases erg with
      | none => exact hheap
      | some p => exact (heap_kfreeAusgerichtet _ _ _ _).trans hheap

theorem bedienbar_of_some {len ausr p : Nat}
    (h : (k.kmallocAusgerichtet len ausr gfp welt).1 = some p) : Bedienbar len ausr := by
  unfold kmallocAusgerichtet at h
  cases hbedarf : bedarfFuer len ausr with
  | none =>
    rw [hbedarf] at h
    cases h
  | some bedarf => exact bedienbar_of_bedarf hbedarf

theorem bedienbar_of_krealloc {alt altLen neuLen p : Nat}
    (h : (k.krealloc alt altLen neuLen gfp welt).1 = some p) :
    Bedienbar neuLen archKmallocMinalign := by
  unfold krealloc at h
  by_cases hnull : alt = 0
  · rw [if_pos hnull, kmalloc_eq] at h
    exact bedienbar_of_some h
  rw [if_neg hnull] at h
  by_cases hneu : neuLen = 0
  · rw [if_pos hneu] at h
    cases h
  rw [if_neg hneu] at h
  cases hbedarf : bedarfFuer neuLen archKmallocMinalign with
  | none =>
    rw [hbedarf] at h
    cases h
  | some n => exact bedienbar_of_bedarf hbedarf

end Kmalloc

structure Stand where
  k : Kmalloc
  lebt : List Puffer

namespace Stand

def init : Stand := ⟨Kmalloc.new, []⟩

inductive Op where
  | kmalloc (len : Nat) (gfp : Gfp) (welt : Umwelt)
  | kmallocAusgerichtet (len ausr : Nat) (gfp : Gfp) (welt : Umwelt)
  | kfree (zeiger len : Nat)
  | kfreeAusgerichtet (zeiger len ausr : Nat)
  | krealloc (alt altLen neuLen : Nat) (gfp : Gfp) (welt : Umwelt)

def step (s : Stand) : Op → Option Stand
  | .kmalloc len gfp welt =>
      let res := s.k.kmalloc len gfp welt
      some ⟨res.2, neu res.1 len archKmallocMinalign ++ s.lebt⟩
  | .kmallocAusgerichtet len ausr gfp welt =>
      let res := s.k.kmallocAusgerichtet len ausr gfp welt
      some ⟨res.2, neu res.1 len ausr ++ s.lebt⟩
  | .kfree zeiger len =>
      some ⟨s.k.kfree zeiger len, s.lebt.erase ⟨zeiger, len, archKmallocMinalign⟩⟩
  | .kfreeAusgerichtet zeiger len ausr =>
      some ⟨s.k.kfreeAusgerichtet zeiger len ausr, s.lebt.erase ⟨zeiger, len, ausr⟩⟩
  | .krealloc alt altLen neuLen gfp welt =>
      let res := s.k.krealloc alt altLen neuLen gfp welt
      -- `None` for a length other than 0: the old block stays with its caller.
      if res.1 = none ∧ neuLen ≠ 0 then some ⟨res.2, s.lebt⟩
      else
        some ⟨res.2, neu res.1 neuLen archKmallocMinalign ++
          s.lebt.eraseP fun b => b.zeiger == alt && b.len == altLen⟩

/-- The source keeps its contract, and only null pointers and live blocks come back, with the
length and the alignment that they were granted under; `krealloc` names no alignment. -/
def OpOk (s : Stand) : Op → Prop
  | .kmalloc _ _ welt => s.k.heap.source.Verlaesslich welt.antwort
  | .kmallocAusgerichtet _ _ _ welt => s.k.heap.source.Verlaesslich welt.antwort
  | .kfree zeiger len => zeiger = 0 ∨ ⟨zeiger, len, archKmallocMinalign⟩ ∈ s.lebt
  | .kfreeAusgerichtet zeiger len ausr => zeiger = 0 ∨ ⟨zeiger, len, ausr⟩ ∈ s.lebt
  | .krealloc alt altLen _ _ welt =>
      (alt = 0 ∨ ∃ ausr, ⟨alt, altLen, ausr⟩ ∈ s.lebt) ∧
        s.k.heap.source.Verlaesslich welt.antwort

/-- What the callers and the store hold is borne, and every live length can be requested. -/
structure Inv (s : Stand) : Prop where
  traegt : s.k.Traegt (s.lebt.map Puffer.anspruch)
  bedienbar : ∀ b ∈ s.lebt, Bedienbar b.len b.ausr

/-- Live blocks share no byte with each other or with a parked block; each has the length and
the alignment that it was granted under. -/
structure Korrekt (s : Stand) : Prop where
  disjunkt : s.lebt.Pairwise fun b c => Disjoint b.nutzbar.addrs c.nutzbar.addrs
  laenge : ∀ b ∈ s.lebt, b.len ≤ b.nutzbar.len
  ausgerichtet : ∀ b ∈ s.lebt, b.ausr ∣ b.zeiger
  geparkt : ∀ b ∈ s.lebt, ∀ e ∈ s.k.vorrat.geparkt,
    e.zeiger ≠ b.zeiger ∧ Disjoint b.nutzbar.addrs e.umfang.addrs

def Op.atomar : Op → Bool
  | .kmalloc _ gfp _ => gfp.istAtomar
  | .kmallocAusgerichtet _ _ gfp _ => gfp.istAtomar
  | .kfree _ _ => false
  | .kfreeAusgerichtet _ _ _ => false
  | .krealloc _ _ _ gfp _ => gfp.istAtomar

/-- An atomic call does not ask the source, and after a `krealloc` that fails everything is
where it was. -/
structure Schritt (s : Stand) (op : Op) (s' : Stand) : Prop where
  atomar : op.atomar = true → s'.k.heap.source = s.k.heap.source
  misslungen : ∀ alt altLen neuLen gfp welt, op = .krealloc alt altLen neuLen gfp welt →
    neuLen ≠ 0 → (s.k.krealloc alt altLen neuLen gfp welt).1 = none →
    s'.lebt = s.lebt ∧ s'.k.vorrat = s.k.vorrat

theorem init_inv : init.Inv := by
  refine ⟨⟨[], fun m => Belegung.new m, ?_, ?_⟩, by simp [init]⟩
  · simp [init, Kmalloc.new, Vorrat.leer, Vorrat.geparkt, vorratPlaetze]
  · simp [init, Kmalloc.new, Vorrat.leer, Vorrat.geparkt, vorratPlaetze]

variable {s : Stand}

theorem mem_neu {erg : Option Nat} {len ausr : Nat} {b : Puffer} (h : b ∈ neu erg len ausr) :
    erg = some b.zeiger ∧ b.len = len ∧ b.ausr = ausr := by
  cases erg with
  | none => cases h
  | some p =>
    obtain rfl := List.mem_singleton.mp h
    exact ⟨rfl, rfl, rfl⟩

theorem Inv.kmallocAusgerichtet (h : s.Inv) (len ausr : Nat) (gfp : Gfp) {welt : Umwelt}
    (hq : s.k.heap.source.Verlaesslich welt.antwort) :
    Inv ⟨(s.k.kmallocAusgerichtet len ausr gfp welt).2,
      neu (s.k.kmallocAusgerichtet len ausr gfp welt).1 len ausr ++ s.lebt⟩ := by
  refine ⟨?_, ?_⟩
  · rw [List.map_append]
    exact h.traegt.kmallocAusgerichtet len ausr gfp hq
  · intro b hb
    obtain hb | hb := List.mem_append.mp hb
    · obtain ⟨hres, rfl, rfl⟩ := mem_neu hb
      exact Kmalloc.bedienbar_of_some hres
    · exact h.bedienbar b hb

theorem Inv.sublist (h : s.Inv) {lebt : List Puffer} (hs : lebt.Sublist s.lebt) :
    Inv ⟨s.k, lebt⟩ :=
  ⟨h.traegt.sublist (hs.map _), fun b hb => h.bedienbar b (hs.subset hb)⟩

theorem Inv.kfreeAusgerichtet (h : s.Inv) {b : Puffer} (hb : b.zeiger = 0 ∨ b ∈ s.lebt) :
    Inv ⟨s.k.kfreeAusgerichtet b.zeiger b.len b.ausr, s.lebt.erase b⟩ := by
  by_cases hnull : b.zeiger = 0
  · rw [Kmalloc.kfreeAusgerichtet, if_pos hnull]
    exact h.sublist List.erase_sublist
  · have hmem := hb.resolve_left hnull
    have hall := h.traegt.perm ((List.perm_cons_erase hmem).map Puffer.anspruch)
    exact ⟨hall.kfreeAusgerichtet, fun c hc => h.bedienbar c (List.mem_of_mem_erase hc)⟩

theorem Inv.krealloc (h : s.Inv) {b : Puffer} (hne : b.zeiger ≠ 0) (neuLen : Nat)
    (gfp : Gfp) {welt : Umwelt} (hq : s.k.heap.source.Verlaesslich welt.antwort)
    {rest : List Puffer} (hperm : s.lebt.Perm (b :: rest)) :
    ((s.k.krealloc b.zeiger b.len neuLen gfp welt).1 = none ∧ neuLen ≠ 0 →
      Inv ⟨(s.k.krealloc b.zeiger b.len neuLen gfp welt).2, s.lebt⟩) ∧
    (¬ ((s.k.krealloc b.zeiger b.len neuLen gfp welt).1 = none ∧ neuLen ≠ 0) →
      Inv ⟨(s.k.krealloc b.zeiger b.len neuLen gfp welt).2,
        neu (s.k.krealloc b.zeiger b.len neuLen gfp welt).1 neuLen archKmallocMinalign ++ rest⟩) := by
  have hall := hperm.map Puffer.anspruch
  obtain ⟨hfehl, hgut⟩ := (h.traegt.perm hall).krealloc hne neuLen gfp hq
  refine ⟨fun hnone => ⟨(hfehl hnone).perm hall.symm, h.bedienbar⟩, fun hsome => ⟨?_, ?_⟩⟩
  · rw [List.map_append]
    exact hgut hsome
  · intro c hc
    obtain hc | hc := List.mem_append.mp hc
    · obtain ⟨hres, hlen, hausr⟩ := mem_neu hc
      rw [hlen, hausr]
      exact Kmalloc.bedienbar_of_krealloc hres
    · exact h.bedienbar c (hperm.mem_iff.mpr (List.mem_cons_of_mem b hc))

theorem step_inv (s : Stand) (op : Op) (h : s.Inv) (hok : s.OpOk op) :
    ∃ s', s.step op = some s' ∧ s'.Inv := by
  cases op with
  | kmalloc len gfp welt =>
    refine ⟨_, rfl, ?_⟩
    rw [Kmalloc.kmalloc_eq]
    exact h.kmallocAusgerichtet len archKmallocMinalign gfp hok
  | kmallocAusgerichtet len ausr gfp welt =>
    exact ⟨_, rfl, h.kmallocAusgerichtet len ausr gfp hok⟩
  | kfree zeiger len =>
    exact ⟨_, rfl, h.kfreeAusgerichtet (b := ⟨zeiger, len, archKmallocMinalign⟩) hok⟩
  | kfreeAusgerichtet zeiger len ausr =>
    exact ⟨_, rfl, h.kfreeAusgerichtet (b := ⟨zeiger, len, ausr⟩) hok⟩
  | krealloc alt altLen neuLen gfp welt =>
    obtain ⟨halt, hq⟩ := hok
    by_cases hnull : alt = 0
    · -- A null pointer: a request and nothing else.
      have hnew := h.kmallocAusgerichtet neuLen archKmallocMinalign gfp hq
      rw [← Kmalloc.kmalloc_eq] at hnew
      have hres : s.k.krealloc alt altLen neuLen gfp welt = s.k.kmalloc neuLen gfp welt :=
        if_pos hnull
      unfold step
      dsimp only
      rw [hres]
      by_cases hfehl : (s.k.kmalloc neuLen gfp welt).1 = none ∧ neuLen ≠ 0
      · rw [if_pos hfehl]
        rw [hfehl.1] at hnew
        exact ⟨_, rfl, hnew⟩
      · rw [if_neg hfehl]
        exact ⟨_, rfl, hnew.sublist (List.eraseP_sublist.append_left _)⟩
    · obtain ⟨ausr, hmem⟩ := halt.resolve_left hnull
      obtain ⟨b, vor, nach, -, hb, hlebt, herase⟩ :=
        List.exists_of_eraseP (p := fun b => b.zeiger == alt && b.len == altLen) hmem (by simp)
      obtain ⟨hzeiger, hlen⟩ := Bool.and_eq_true_iff.mp hb
      obtain rfl := beq_iff_eq.mp hzeiger
      obtain rfl := beq_iff_eq.mp hlen
      have hperm : s.lebt.Perm (b :: (vor ++ nach)) := by
        rw [hlebt]
        exact List.perm_middle
      obtain ⟨hbleibt, hzieht⟩ := h.krealloc hnull neuLen gfp hq hperm
      unfold step
      dsimp only
      by_cases hfehl : (s.k.krealloc b.zeiger b.len neuLen gfp welt).1 = none ∧ neuLen ≠ 0
      · rw [if_pos hfehl]
        exact ⟨_, rfl, hbleibt hfehl⟩
      · rw [if_neg hfehl, herase]
        exact ⟨_, rfl, hzieht hfehl⟩

theorem Inv.korrekt (h : s.Inv) : s.Korrekt := by
  obtain ⟨bloecke, hd⟩ := h.traegt
  -- The usable bytes lie within the claim.
  have hinside : ∀ b : Puffer, b.nutzbar.Inside b.anspruch.umfang := fun b =>
    ⟨Nat.le_refl _, Nat.add_le_add_left (Nat.le_max_left _ _) _⟩
  have hlebt : ∀ b ∈ s.lebt, b.anspruch ∈ s.lebt.map Puffer.anspruch ++ s.k.vorrat.geparkt :=
    fun b hb => List.mem_append_left _ (List.mem_map_of_mem hb)
  have heigen := hd.eigen
  rw [List.map_append, List.nodup_append, List.map_map] at heigen
  obtain ⟨heigen, -, hfremd⟩ := heigen
  refine ⟨?_, fun b hb => le_ksize (h.bedienbar b hb), ?_, ?_⟩
  · apply (List.pairwise_map.mp heigen).imp_of_mem
    intro b c hb hc hne
    have hapart := hd.apart (hlebt b hb) (hlebt c hc) hne
    exact (hapart.mono (hinside b) (hinside c)).disjoint
  · exact fun b hb => (hd.getragen _ (hlebt b hb)).dvd
  · intro b hb e he
    have hne : b.zeiger ≠ e.zeiger :=
      hfremd _ (List.mem_map_of_mem hb) _ (List.mem_map_of_mem he)
    have hapart := hd.apart (hlebt b hb) (List.mem_append_right _ he) hne
    exact ⟨hne.symm, (hapart.mono (hinside b) (.refl _)).disjoint⟩

theorem step_schritt {op : Op} {s' : Stand} (hstep : s.step op = some s') : s.Schritt op s' := by
  constructor
  · intro hatomar
    cases op with
    | kmalloc len gfp welt =>
      cases hstep
      rw [Kmalloc.kmalloc_eq, Kmalloc.heap_of_atomar hatomar]
    | kmallocAusgerichtet len ausr gfp welt =>
      cases hstep
      rw [Kmalloc.heap_of_atomar hatomar]
    | kfree zeiger len | kfreeAusgerichtet zeiger len ausr => cases hatomar
    | krealloc alt altLen neuLen gfp welt =>
      have hheap : s'.k = (s.k.krealloc alt altLen neuLen gfp welt).2 := by
        unfold step at hstep
        dsimp only at hstep
        split at hstep
        · cases hstep
          rfl
        · cases hstep
          rfl
      rw [hheap, Kmalloc.heap_krealloc_of_atomar hatomar]
  · rintro alt altLen neuLen gfp welt rfl hneu hnone
    unfold step at hstep
    dsimp only at hstep
    rw [if_pos ⟨hnone, hneu⟩] at hstep
    cases hstep
    exact ⟨rfl, Kmalloc.vorrat_krealloc_of_none hneu hnone⟩

/-- **Correctness of kmalloc**, in every state that a run reaches and for every call in it. -/
theorem run_kmalloc_korrekt (ops : List Op) (hops : Admissible step OpOk init ops) :
    ∃ s, run step init ops = some s ∧ s.Korrekt ∧
      ∀ op s', s.OpOk op → s.step op = some s' → s.Schritt op s' ∧ s'.Korrekt := by
  obtain ⟨s, hs, hinv⟩ := run_total step_inv init_inv hops
  refine ⟨s, hs, hinv.korrekt, fun op s' hok hstep => ⟨step_schritt hstep, ?_⟩⟩
  obtain ⟨t, ht, htinv⟩ := step_inv s op hinv hok
  obtain rfl : t = s' := Option.some.inj (ht.symm.trans hstep)
  exact htinv.korrekt

/-- A class block that moves and is parked, an aligned page that keeps its place under a new
key, and an atomic request that the store serves. -/
theorem run_kmalloc_korrekt_move_and_reuse :
    ∃ s, run step init [
      .kmalloc 100 .kernel
        ⟨fun _ => 0, fun n => if n ≤ 0x10000 then some ⟨0x10000, 0x10000⟩ else none⟩,
      .kmallocAusgerichtet 1 4096 .kernel
        ⟨fun _ => 0, fun n => if n ≤ 0x1000 then some ⟨0x40000, 0x1000⟩ else none⟩,
      .krealloc 0x10000 100 1000 .kernel ⟨fun _ => 0, fun _ => none⟩,
      .krealloc 0x40000 1 16 .atomic ⟨fun _ => 0, fun _ => none⟩,
      .kfree 0x40000 16,
      .kmalloc 90 .atomic ⟨fun _ => 0, fun _ => none⟩] = some s ∧ s.Korrekt ∧
      ∀ op s', s.OpOk op → s.step op = some s' → s.Schritt op s' ∧ s'.Korrekt := by
  apply run_kmalloc_korrekt
  have hnichts : ∀ q : Quelle, q.Verlaesslich fun _ => none := fun _ _ _ h => nomatch h
  refine ⟨?_, fun s₁ h₁ => ⟨?_, fun s₂ h₂ => ⟨⟨.inr ⟨16, ?_⟩, hnichts _⟩, fun s₃ h₃ =>
    ⟨⟨.inr ⟨4096, ?_⟩, hnichts _⟩, fun s₄ h₄ => ⟨.inr ?_, fun s₅ h₅ => ⟨hnichts _, fun _ _ =>
      trivial⟩⟩⟩⟩⟩⟩
  · apply Quelle.verlaesslich_of_region (r := ⟨0x10000, 0x10000⟩)
    · exact ⟨by decide, by decide, by decide⟩
    · simp [init, Kmalloc.new, Heap.new]
  · cases h₁
    apply Quelle.verlaesslich_of_region (r := ⟨0x40000, 0x1000⟩)
    · exact ⟨by decide, by decide, by decide⟩
    · intro t ht
      obtain rfl : t = ⟨0x10000, 0x10000⟩ := List.mem_singleton.mp ht
      exact .inr (.inr (.inr (by decide)))
  · cases h₁
    cases h₂
    decide
  · cases h₁
    cases h₂
    cases h₃
    decide
  · cases h₁
    cases h₂
    cases h₃
    cases h₄
    decide

end Stand

end Caprock.Region
