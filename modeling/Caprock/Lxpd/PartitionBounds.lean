import Caprock.Lib.Ranges
import Caprock.Lxpd.LoaderRun

/-! # What the loader service reads from a partition

The directory is checked against the sum of three lengths in bytes; the reader starts every document
on a new sector.  A medium has fixed sectors, and a source of its content may still refuse a read or
answer too little.  Every read is written down, so that all requests of a call can be compared with
the partition.
-/

namespace Caprock.Lxpd

open Bytes Word Checks Ranges

structure Medium where
  inhalt : Nat → List UInt8
  laenge : ∀ lba, (inhalt lba).length = sektor
  kapazitaet : Nat
  breite : kapazitaet < 2 ^ 64

namespace Medium

/-- The bytes of `n` sectors from `lba` on. -/
def sektoren (m : Medium) (lba n : Nat) : List UInt8 :=
  (List.range n).flatMap fun i => m.inhalt (lba + i)

/-- The first `len` bytes from sector `lba` on. -/
def bytes (m : Medium) (lba len : Nat) : List UInt8 :=
  (m.sektoren lba (ceilDiv len sektor)).take len

variable (m : Medium) {lba len n k : Nat}

@[simp] theorem sektoren_length : (m.sektoren lba n).length = n * sektor := by
  unfold sektoren
  rw [List.length_flatMap, List.sum_eq_card_nsmul (m := sektor), List.length_map,
    List.length_range, smul_eq_mul]
  intro x hx
  obtain ⟨i, -, rfl⟩ := List.mem_map.mp hx
  exact m.laenge _

theorem sektoren_add :
    m.sektoren lba (n + k) = m.sektoren lba n ++ m.sektoren (lba + n) k := by
  unfold sektoren
  rw [List.range_add, List.flatMap_append, List.flatMap_map]
  simp only [Nat.add_assoc]

end Medium

theorem stueckSektoren_pos {len : Nat} (h : 0 < len) : 0 < stueckSektoren len := by
  unfold stueckSektoren ceilDiv sektor maxSektorenJeAnfrage
  omega

theorem ceilDiv_stueck (len : Nat) : ceilDiv len sektor =
    stueckSektoren len + ceilDiv (len - stueckSektoren len * sektor) sektor := by
  unfold stueckSektoren ceilDiv sektor maxSektorenJeAnfrage
  omega

theorem ceilDiv_stueckBytes {len k : Nat} (h : ceilDiv len stueckBytes = k + 1) :
    0 < len ∧ ceilDiv (len - stueckSektoren len * sektor) stueckBytes = k := by
  unfold stueckSektoren ceilDiv sektor maxSektorenJeAnfrage
  unfold ceilDiv stueckBytes at h
  unfold stueckBytes
  omega

theorem Medium.bytes_stueck (m : Medium) {lba len : Nat} :
    m.bytes lba len = (m.sektoren lba (stueckSektoren len)).take len ++
      m.bytes (lba + stueckSektoren len) (len - stueckSektoren len * sektor) := by
  unfold Medium.bytes
  rw [ceilDiv_stueck len, m.sektoren_add, List.take_append, m.sektoren_length]

def stuecke (r : Range) : List Range :=
  (List.range (ceilDiv r.2 maxSektorenJeAnfrage)).map fun i =>
    (r.1 + maxSektorenJeAnfrage * i, min (r.2 - maxSektorenJeAnfrage * i) maxSektorenJeAnfrage)

theorem stuecke_zero (lba : Nat) : stuecke (lba, ceilDiv 0 sektor) = [] := by
  have hzero : ceilDiv 0 sektor = 0 := by decide
  have hnone : ceilDiv 0 maxSektorenJeAnfrage = 0 := by decide
  rw [stuecke, hzero, hnone]
  rfl

theorem stuecke_cons {lba len : Nat} (h : 0 < len) : stuecke (lba, ceilDiv len sektor) =
    (lba, stueckSektoren len) ::
      stuecke (lba + stueckSektoren len, ceilDiv (len - stueckSektoren len * sektor) sektor) := by
  have hsplit := ceilDiv_stueck len
  have hn : stueckSektoren len = min (ceilDiv len sektor) maxSektorenJeAnfrage := rfl
  have hpos := stueckSektoren_pos h
  generalize ceilDiv (len - stueckSektoren len * sektor) sektor = rest at hsplit ⊢
  generalize ceilDiv len sektor = n at hsplit hn ⊢
  generalize stueckSektoren len = j at hsplit hn hpos ⊢
  have hcount : ceilDiv n maxSektorenJeAnfrage = ceilDiv rest maxSektorenJeAnfrage + 1 := by
    unfold maxSektorenJeAnfrage at hn ⊢
    unfold ceilDiv
    omega
  unfold stuecke
  rw [hcount, List.range_succ_eq_map, List.map_cons, List.map_map, hn]
  refine congrArg₂ List.cons ?_ (List.map_congr_left fun i hi => ?_)
  · rw [Nat.mul_zero, Nat.add_zero, Nat.sub_zero]
  · have hfull : 0 < rest := by
      rw [List.mem_range] at hi
      unfold ceilDiv maxSektorenJeAnfrage at hi
      omega
    unfold maxSektorenJeAnfrage at hn ⊢
    simp only [Function.comp_apply, Prod.mk.injEq]
    omega

theorem stuecke_sektor (lba : Nat) : stuecke (lba, ceilDiv sektor sektor) = [(lba, 1)] := by
  have hone : ceilDiv sektor sektor = 1 := by decide
  have hpiece : ceilDiv 1 maxSektorenJeAnfrage = 1 := by decide
  rw [stuecke, hone, hpiece]
  rfl

theorem Medium.bytes_sektor (m : Medium) (lba : Nat) : m.bytes lba sektor = m.inhalt lba := by
  have hone : ceilDiv sektor sektor = 1 := by decide
  rw [Medium.bytes, hone, Medium.sektoren, List.range_one, List.flatMap_singleton, Nat.add_zero,
    List.take_of_length_le (m.laenge lba).le]

theorem stuecke_bounds {r a : Range} (h : a ∈ stuecke r) :
    r.1 ≤ a.1 ∧ 0 < a.2 ∧ a.1 + a.2 ≤ r.1 + r.2 := by
  obtain ⟨i, hi, rfl⟩ := List.mem_map.mp h
  rw [List.mem_range] at hi
  unfold ceilDiv maxSektorenJeAnfrage at hi
  unfold maxSektorenJeAnfrage
  omega

variable {F Q : Type}

/-- The capacity of the source is that of the medium, and a read that answers in full leaves its
sectors in the buffer. -/
structure FesterInhalt (quelle : BlockQuelle Q) (m : Medium) : Prop where
  info : ∀ q i q', quelle.info q = (.ok i, q') → i.kapazitaet = m.kapazitaet
  lesen : ∀ q lba n puffer teil q', puffer.length = n * sektor → lba + n ≤ m.kapazitaet →
    quelle.lesen q lba n puffer = (.ok n, teil, q') → teil = m.sektoren lba n

structure Antwortet (quelle : BlockQuelle Q) (m : Medium) : Prop where
  lesen : ∀ q lba n puffer, puffer.length = n * sektor → lba + n ≤ m.kapazitaet →
    ∃ q', quelle.lesen q lba n puffer = (.ok n, m.sektoren lba n, q')

/-- The same source; every read is written down with its first sector and their number. -/
def mitProtokoll (quelle : BlockQuelle Q) : BlockQuelle (Q × List Range) where
  info q := ((quelle.info q.1).1, (quelle.info q.1).2, q.2)
  lesen q lba n puffer :=
    let antwort := quelle.lesen q.1 lba n puffer
    (antwort.1, antwort.2.1, antwort.2.2, q.2 ++ [(lba, n)])
  laenge q lba n puffer := quelle.laenge q.1 lba n puffer

theorem mitProtokoll_lesen {quelle : BlockQuelle Q} {q q' : Q} {lba n : Nat}
    {puffer teil : List UInt8} {antwort : Except BlockFehler Nat}
    (h : quelle.lesen q lba n puffer = (antwort, teil, q')) (log : List Range) :
    (mitProtokoll quelle).lesen (q, log) lba n puffer =
      (antwort, teil, q', log ++ [(lba, n)]) :=
  congrArg (fun x => (x.1, x.2.1, x.2.2, log ++ [(lba, n)])) h

def Medium.quelle (m : Medium) : BlockQuelle Unit where
  info q := (.ok ⟨m.kapazitaet, maxSektorenJeAnfrage⟩, q)
  lesen q lba n puffer :=
    if puffer.length = n * sektor ∧ lba + n ≤ m.kapazitaet then (.ok n, m.sektoren lba n, q)
    else (.error .bereich, puffer, q)
  laenge q lba n puffer := by
    split
    · next h => rw [m.sektoren_length, h.1]
    · rfl

theorem Medium.festerInhalt (m : Medium) : FesterInhalt m.quelle m where
  info q i q' h := by
    cases h
    rfl
  lesen q lba n puffer teil q' hlen hend h := by
    rw [Medium.quelle] at h
    dsimp only at h
    rw [if_pos ⟨hlen, hend⟩] at h
    cases h
    rfl

theorem Medium.antwortet (m : Medium) : Antwortet m.quelle m where
  lesen q _ _ _ hlen hend := ⟨q, if_pos ⟨hlen, hend⟩⟩

variable {quelle : BlockQuelle Q} {m : Medium} {lba n k : Nat} {ziel ziel' : List UInt8} {q q' : Q}
  {log log' : List Range} {r : Except LadeFehler Unit}

/-- One piece: it is refused, or it lies within the capacity and is asked for; if it is answered in
full, the target begins with its bytes. -/
theorem leseStueck_spec (hm : FesterInhalt quelle m)
    (h : leseStueck (mitProtokoll quelle) m.kapazitaet lba n ziel (q, log) =
      (r, ziel', q', log')) :
    (∀ a ∈ log', a ∈ log ∨ a = (lba, n) ∧ lba + n ≤ m.kapazitaet) ∧
      ziel'.length = ziel.length ∧
      (r = .ok () → lba + n ≤ m.kapazitaet ∧
        ziel'.take (n * sektor) = (m.sektoren lba n).take ziel.length) := by
  unfold leseStueck at h
  cases hadd : checkedAdd n lba with
  | none =>
    rw [hadd] at h
    cases h
    exact ⟨fun a ha => .inl ha, rfl, fun h => by cases h⟩
  | some ende =>
    rw [hadd] at h
    dsimp only at h
    obtain ⟨-, rfl⟩ := checkedAdd_eq_some.mp hadd
    by_cases hbereich : m.kapazitaet ≤ lba ∨ m.kapazitaet < n + lba
    · rw [if_pos hbereich] at h
      cases h
      exact ⟨fun a ha => .inl ha, rfl, fun h => by cases h⟩
    · rw [if_neg hbereich] at h
      have hend : lba + n ≤ m.kapazitaet := by omega
      have hneu : ∀ a ∈ log ++ [(lba, n)], a ∈ log ∨ a = (lba, n) ∧ lba + n ≤ m.kapazitaet := by
        intro a ha
        refine (List.mem_append.mp ha).imp_right fun ha => ⟨List.mem_singleton.mp ha, hend⟩
      by_cases hvoll : n * sektor ≤ ziel.length
      · rw [if_pos hvoll] at h
        have hlen : (ziel.take (n * sektor)).length = n * sektor := List.length_take_of_le hvoll
        have hkeep := quelle.laenge q lba n (ziel.take (n * sektor))
        rcases hq : quelle.lesen q lba n (ziel.take (n * sektor)) with ⟨antwort, teil, q₁⟩
        rw [mitProtokoll_lesen hq] at h
        rw [hq, hlen] at hkeep
        have hall : (teil ++ ziel.drop (n * sektor)).length = ziel.length := by
          rw [List.length_append, hkeep, List.length_drop]
          omega
        cases antwort with
        | error e =>
          cases h
          exact ⟨hneu, hall, fun h => by cases h⟩
        | ok got =>
          dsimp only at h
          by_cases hgot : got = n
          · rw [if_neg (not_not.mpr hgot)] at h
            cases h
            refine ⟨hneu, hall, fun _ => ⟨hend, ?_⟩⟩
            rw [List.take_left' hkeep, hm.lesen q lba n _ teil q' hlen hend (hgot ▸ hq),
              List.take_of_length_le (m.sektoren_length.trans_le hvoll)]
          · rw [if_pos hgot] at h
            cases h
            exact ⟨hneu, hall, fun h => by cases h⟩
      · rw [if_neg hvoll] at h
        have hlen : (List.replicate (n * sektor) (0 : UInt8)).length = n * sektor :=
          List.length_replicate
        have hkeep := quelle.laenge q lba n (List.replicate (n * sektor) 0)
        rcases hq : quelle.lesen q lba n (List.replicate (n * sektor) 0) with
          ⟨antwort, puffer, q₁⟩
        rw [mitProtokoll_lesen hq] at h
        rw [hq, hlen] at hkeep
        cases antwort with
        | error e =>
          cases h
          exact ⟨hneu, rfl, fun h => by cases h⟩
        | ok got =>
          dsimp only at h
          by_cases hgot : got = n
          · rw [if_neg (not_not.mpr hgot)] at h
            cases h
            refine ⟨hneu, ?_, fun _ => ⟨hend, ?_⟩⟩
            · rw [List.length_take, hkeep]
              omega
            · rw [hm.lesen q lba n _ puffer q' hlen hend (hgot ▸ hq), List.take_take,
                Nat.min_eq_right (by omega)]
          · rw [if_pos hgot] at h
            cases h
            exact ⟨hneu, rfl, fun h => by cases h⟩

theorem leseStueck_antwortet (ha : Antwortet quelle m) (hend : lba + n ≤ m.kapazitaet)
    (hlba : lba < m.kapazitaet) : ∃ ziel' q',
    leseStueck (mitProtokoll quelle) m.kapazitaet lba n ziel (q, log) =
      (.ok (), ziel', q', log ++ [(lba, n)]) ∧ ziel'.length = ziel.length := by
  have hadd : checkedAdd n lba = some (n + lba) := checkedAdd_eq (by have := m.breite; omega)
  unfold leseStueck
  rw [hadd]
  dsimp only
  rw [if_neg (by omega)]
  by_cases hvoll : n * sektor ≤ ziel.length
  · obtain ⟨q', hq⟩ := ha.lesen q lba n (ziel.take (n * sektor)) (List.length_take_of_le hvoll) hend
    refine ⟨m.sektoren lba n ++ ziel.drop (n * sektor), q', ?_, ?_⟩
    · rw [if_pos hvoll, mitProtokoll_lesen hq]
      exact if_neg (not_not.mpr rfl)
    · rw [List.length_append, m.sektoren_length, List.length_drop]
      omega
  · obtain ⟨q', hq⟩ := ha.lesen q lba n (List.replicate (n * sektor) 0) List.length_replicate hend
    refine ⟨(m.sektoren lba n).take ziel.length, q', ?_, ?_⟩
    · rw [if_neg hvoll, mitProtokoll_lesen hq]
      exact if_neg (not_not.mpr rfl)
    · rw [List.length_take, m.sektoren_length]
      omega

theorem leseStueck_refused {K : Nat} (hend : K < lba + n) :
    leseStueck quelle K lba n ziel q = (.error .bereich, ziel, q) := by
  unfold leseStueck
  cases hadd : checkedAdd n lba with
  | none => rfl
  | some ende =>
    obtain ⟨-, rfl⟩ := checkedAdd_eq_some.mp hadd
    exact if_pos (.inr (by omega))

/-- All pieces.  A full target holds the bytes from `lba` on. -/
theorem leseStuecke_spec (hm : FesterInhalt quelle m) (hk : ceilDiv ziel.length stueckBytes = k)
    (h : leseStuecke (mitProtokoll quelle) m.kapazitaet k lba ziel (q, log) =
      (r, ziel', q', log')) :
    (∀ a ∈ log', a ∈ log ∨
        a ∈ stuecke (lba, ceilDiv ziel.length sektor) ∧ a.1 + a.2 ≤ m.kapazitaet) ∧
      ziel'.length = ziel.length ∧
      (r = .ok () → ziel' = m.bytes lba ziel.length ∧
        (0 < ziel.length → lba + ceilDiv ziel.length sektor ≤ m.kapazitaet)) := by
  induction k generalizing lba ziel ziel' q log with
  | zero =>
    cases h
    have hnil : ziel = [] := by
      apply List.eq_nil_of_length_eq_zero
      unfold ceilDiv stueckBytes at hk
      omega
    subst hnil
    exact ⟨fun a ha => .inl ha, rfl, fun _ => ⟨rfl, fun h => absurd h (lt_irrefl 0)⟩⟩
  | succ k ih =>
    obtain ⟨hpos, hrest⟩ := ceilDiv_stueckBytes hk
    unfold leseStuecke at h
    dsimp only at h
    rcases hs : leseStueck (mitProtokoll quelle) m.kapazitaet lba (stueckSektoren ziel.length)
      ziel (q, log) with ⟨antwort, ziel₁, q₁, log₁⟩
    rw [hs] at h
    obtain ⟨hlog₁, hlen₁, hok₁⟩ := leseStueck_spec hm hs
    have hhead : ∀ a ∈ log₁, a ∈ log ∨
        a ∈ stuecke (lba, ceilDiv ziel.length sektor) ∧ a.1 + a.2 ≤ m.kapazitaet := by
      intro a ha
      apply (hlog₁ a ha).imp_right
      rintro ⟨rfl, hend⟩
      rw [stuecke_cons hpos]
      exact ⟨List.mem_cons_self, hend⟩
    cases antwort with
    | error e =>
      cases h
      exact ⟨hhead, hlen₁, fun h => by cases h⟩
    | ok u =>
      obtain ⟨hend, hziel₁⟩ := hok₁ rfl
      dsimp only at h
      rcases ht : leseStuecke (mitProtokoll quelle) m.kapazitaet k
        (lba + stueckSektoren ziel.length) (ziel₁.drop (stueckSektoren ziel.length * sektor))
        (q₁, log₁) with ⟨r', rest, q₂, log₂⟩
      rw [ht] at h
      cases h
      have hdrop : (ziel₁.drop (stueckSektoren ziel.length * sektor)).length =
          ziel.length - stueckSektoren ziel.length * sektor := by
        rw [List.length_drop, hlen₁]
      obtain ⟨hlog, hlen, hok⟩ := ih (hdrop ▸ hrest) ht
      rw [hdrop] at hlog hlen hok
      refine ⟨fun a ha => ?_, ?_, fun hr => ?_⟩
      · obtain ha | ⟨ha, hle⟩ := hlog a ha
        · exact hhead a ha
        · rw [stuecke_cons hpos]
          exact .inr ⟨List.mem_cons_of_mem _ ha, hle⟩
      · rw [List.length_append, List.length_take, hlen, hlen₁]
        omega
      · obtain ⟨hbytes, hcap⟩ := hok hr
        refine ⟨?_, fun _ => ?_⟩
        · rw [hbytes, hziel₁, ← m.bytes_stueck]
        · rw [ceilDiv_stueck]
          by_cases hmore : 0 < ziel.length - stueckSektoren ziel.length * sektor
          · have := hcap hmore
            omega
          · rw [Nat.eq_zero_of_not_pos hmore]
            exact hend

theorem leseStuecke_antwortet (ha : Antwortet quelle m) (hk : ceilDiv ziel.length stueckBytes = k)
    (h : leseStuecke (mitProtokoll quelle) m.kapazitaet k lba ziel (q, log) =
      (r, ziel', q', log')) :
    log ⊆ log' ∧
      (∀ a ∈ stuecke (lba, ceilDiv ziel.length sektor), a.1 + a.2 ≤ m.kapazitaet → a ∈ log') ∧
      (lba + ceilDiv ziel.length sektor ≤ m.kapazitaet → r = .ok ()) := by
  induction k generalizing lba ziel ziel' q log with
  | zero =>
    cases h
    have hzero : ziel.length = 0 := by
      unfold ceilDiv stueckBytes at hk
      omega
    rw [hzero, stuecke_zero]
    exact ⟨List.Subset.refl _, fun a ha => absurd ha List.not_mem_nil, fun _ => rfl⟩
  | succ k ih =>
    obtain ⟨hpos, hrest⟩ := ceilDiv_stueckBytes hk
    have hn := stueckSektoren_pos hpos
    rw [stuecke_cons hpos, ceilDiv_stueck ziel.length]
    by_cases hend : lba + stueckSektoren ziel.length ≤ m.kapazitaet
    · obtain ⟨ziel₁, q₁, hs, hlen₁⟩ : ∃ ziel₁ q₁,
          leseStueck (mitProtokoll quelle) m.kapazitaet lba (stueckSektoren ziel.length) ziel
            (q, log) = (.ok (), ziel₁, q₁, log ++ [(lba, stueckSektoren ziel.length)]) ∧
          ziel₁.length = ziel.length := leseStueck_antwortet ha hend (by omega)
      unfold leseStuecke at h
      dsimp only at h
      rw [hs] at h
      dsimp only at h
      rcases ht : leseStuecke (mitProtokoll quelle) m.kapazitaet k
        (lba + stueckSektoren ziel.length) (ziel₁.drop (stueckSektoren ziel.length * sektor))
        (q₁, log ++ [(lba, stueckSektoren ziel.length)]) with ⟨r', rest, q₂, log₂⟩
      rw [ht] at h
      cases h
      have hdrop : (ziel₁.drop (stueckSektoren ziel.length * sektor)).length =
          ziel.length - stueckSektoren ziel.length * sektor := by
        rw [List.length_drop, hlen₁]
      obtain ⟨hsub, hall, hok⟩ := ih (hdrop ▸ hrest) ht
      rw [hdrop] at hall hok
      refine ⟨List.Subset.trans (List.subset_append_left _ _) hsub, fun a hmem hle => ?_,
        fun hle => ?_⟩
      · obtain rfl | hmem := List.mem_cons.mp hmem
        · exact hsub (List.mem_append_right _ List.mem_cons_self)
        · exact hall a hmem hle
      · exact hok (by omega)
    · unfold leseStuecke at h
      dsimp only at h
      rw [leseStueck_refused (by omega)] at h
      cases h
      refine ⟨List.Subset.refl _, fun a hmem hle => ?_, fun hle => ?_⟩
      · obtain rfl | hmem := List.mem_cons.mp hmem
        · exact absurd hle hend
        · have := (stuecke_bounds hmem).1
          omega
      · omega

namespace PartSichtung

def eintragLba (s : PartSichtung) : Nat := s.firstLba + 1

def bildLba (s : PartSichtung) (v : BildVerzeichnis) : Nat :=
  s.eintragLba + ceilDiv v.eintragLen sektor

def manifestLba (s : PartSichtung) (v : BildVerzeichnis) : Nat :=
  s.bildLba v + ceilDiv v.bildLen sektor

def bereiche (s : PartSichtung) (v : BildVerzeichnis) : List Range :=
  [(s.eintragLba, ceilDiv v.eintragLen sektor), (s.bildLba v, ceilDiv v.bildLen sektor),
    (s.manifestLba v, ceilDiv v.manifestLen sektor)]

theorem eintragLba_le (s : PartSichtung) {v : BildVerzeichnis} {b : Range} (h : b ∈ s.bereiche v) :
    s.eintragLba ≤ b.1 := by
  unfold bereiche manifestLba bildLba at h
  simp only [List.mem_cons, List.not_mem_nil, or_false] at h
  obtain rfl | rfl | rfl := h
  · exact le_refl _
  · exact Nat.le_add_right _ _
  · dsimp only
    omega

theorem bereiche_apart (s : PartSichtung) (v : BildVerzeichnis) : Apart (s.bereiche v) := by
  have hlt : ∀ {a b n k : Nat}, a + n ≤ b → Disjoint (addrs (a, n)) (addrs (b, k)) := by
    intro a b n k hle
    rw [addrs, addrs, Set.Ico_disjoint_Ico]
    omega
  unfold Apart bereiche manifestLba
  rw [List.pairwise_cons, List.pairwise_pair]
  refine ⟨fun b hb => ?_, hlt (le_refl _)⟩
  obtain rfl | hb := List.mem_cons.mp hb
  · exact hlt (le_refl _)
  · obtain rfl := List.mem_singleton.mp hb
    exact hlt (Nat.le_add_right _ _)

end PartSichtung

theorem parseVerzeichnis_bounds {sec : List UInt8} {n : Nat} {v : BildVerzeichnis}
    (h : parseVerzeichnis sec n = .ok v) : 0 < v.eintragLen ∧ v.eintragLen ≤ maxEintragBytes ∧
      0 < v.bildLen ∧ v.bildLen ≤ maxBildBytes ∧ 0 < v.manifestLen ∧
      v.manifestLen ≤ maxManifestBytes ∧
      ceilDiv (v.eintragLen + v.bildLen + v.manifestLen) sektor + 1 ≤ n := by
  obtain ⟨-, h⟩ := ite_error_eq_ok.mp h
  obtain ⟨-, h⟩ := ite_error_eq_ok.mp h
  obtain ⟨e, -, h⟩ := bind_eq_ok.mp h
  obtain ⟨b, -, h⟩ := bind_eq_ok.mp h
  obtain ⟨k, -, h⟩ := bind_eq_ok.mp h
  obtain ⟨flags, -, h⟩ := bind_eq_ok.mp h
  obtain ⟨-, h⟩ := ite_error_eq_ok.mp h
  obtain ⟨he, h⟩ := ite_error_eq_ok.mp h
  obtain ⟨hemax, h⟩ := ite_error_eq_ok.mp h
  obtain ⟨hb, h⟩ := ite_error_eq_ok.mp h
  obtain ⟨hbmax, h⟩ := ite_error_eq_ok.mp h
  obtain ⟨hk, h⟩ := ite_error_eq_ok.mp h
  obtain ⟨hkmax, h⟩ := ite_error_eq_ok.mp h
  obtain ⟨gesamt, hg, h⟩ := bind_eq_ok.mp h
  obtain ⟨braucht, hbr, h⟩ := bind_eq_ok.mp h
  obtain ⟨hle, h⟩ := ite_error_eq_ok.mp h
  cases h
  obtain ⟨t, ht, hg⟩ := Option.bind_eq_some_iff.mp (okOr_eq_ok.mp hg)
  rw [okOr_eq_ok] at hbr
  rw [checkedAdd_eq_some] at ht hg hbr
  dsimp only
  rw [← ht.2, ← hg.2, ← hbr.2]
  omega

theorem infoHolen_mitProtokoll (hm : FesterInhalt quelle m) {antwort : Except LadeFehler BlockInfo}
    (h : infoHolen (mitProtokoll quelle) (q, log) = (antwort, q', log')) :
    log' = log ∧ ∀ i, antwort = .ok i → i.kapazitaet = m.kapazitaet := by
  have hi : (mitProtokoll quelle).info (q, log) = ((quelle.info q).1, (quelle.info q).2, log) := rfl
  unfold infoHolen at h
  rw [hi] at h
  rcases hq : quelle.info q with ⟨info, q₁⟩
  rw [hq] at h
  cases info with
  | error e =>
    cases h
    exact ⟨rfl, fun i h => by cases h⟩
  | ok info =>
    dsimp only at h
    split at h
    · cases h
      exact ⟨rfl, fun i h => by cases h⟩
    · cases h
      refine ⟨rfl, fun i h => ?_⟩
      cases h
      exact hm.info q info q' hq

theorem pufferFuellen_spec {zuGross : LadeFehler} {len : Nat} {puffer puffer' : List UInt8}
    (hm : FesterInhalt quelle m)
    (h : pufferFuellen (mitProtokoll quelle) m.kapazitaet lba len zuGross puffer (q, log) =
      (r, puffer', q', log')) :
    (∀ a ∈ log', a ∈ log ∨ a ∈ stuecke (lba, ceilDiv len sektor) ∧ a.1 + a.2 ≤ m.kapazitaet) ∧
      (r = .ok () → slice puffer' 0 len = some (m.bytes lba len) ∧
        (0 < len → lba + ceilDiv len sektor ≤ m.kapazitaet)) := by
  unfold pufferFuellen at h
  by_cases hroom : puffer.length < len
  · rw [if_pos hroom] at h
    cases h
    exact ⟨fun a ha => .inl ha, fun h => by cases h⟩
  · rw [if_neg hroom] at h
    rcases hl : leseExakt (mitProtokoll quelle) m.kapazitaet lba (puffer.take len) (q, log) with
      ⟨r', teil, q₁, log₁⟩
    rw [hl] at h
    cases h
    have hlen : (puffer.take len).length = len := List.length_take_of_le (not_lt.mp hroom)
    obtain ⟨hlog, hteil, hok⟩ := leseStuecke_spec hm rfl hl
    rw [hlen] at hlog hteil hok
    refine ⟨hlog, fun hr => ⟨?_, (hok hr).2⟩⟩
    rw [← (hok hr).1]
    exact slice_append (p := []) rfl rfl hteil.symm

theorem pufferFuellen_antwortet {zuGross : LadeFehler} {len : Nat} {puffer puffer' : List UInt8}
    (ha : Antwortet quelle m) (hroom : len ≤ puffer.length)
    (h : pufferFuellen (mitProtokoll quelle) m.kapazitaet lba len zuGross puffer (q, log) =
      (r, puffer', q', log')) :
    log ⊆ log' ∧
      (∀ a ∈ stuecke (lba, ceilDiv len sektor), a.1 + a.2 ≤ m.kapazitaet → a ∈ log') ∧
      (lba + ceilDiv len sektor ≤ m.kapazitaet → r = .ok ()) := by
  rw [pufferFuellen, if_neg (not_lt.mpr hroom)] at h
  rcases hl : leseExakt (mitProtokoll quelle) m.kapazitaet lba (puffer.take len) (q, log) with
    ⟨r', teil, q₁, log₁⟩
  rw [hl] at h
  cases h
  have hall := leseStuecke_antwortet ha rfl hl
  rwa [List.length_take_of_le hroom] at hall

namespace LadeDienst

variable {d d' : LadeDienst F} {s : PartSichtung} {v : BildVerzeichnis}

/-- Every request is a piece of a document, within the capacity; at the end the buffers hold the
documents. -/
theorem dokumenteLesen_bereiche (hm : FesterInhalt quelle m) (hs : d.sichtung = some s)
    (hfirst : s.firstLba + 1 ≤ m.kapazitaet) (he : 0 < v.eintragLen) (hb : 0 < v.bildLen)
    (h : d.dokumenteLesen (mitProtokoll quelle) m.kapazitaet s v (q, log) = (r, d', q', log')) :
    (∀ a ∈ log', a ∈ log ∨ ∃ b ∈ s.bereiche v, a ∈ stuecke b ∧ a.1 + a.2 ≤ m.kapazitaet) ∧
      (r = .ok () → d'.verzeichnis = some v ∧ d'.dokumente = some (s,
        m.bytes s.eintragLba v.eintragLen, m.bytes (s.bildLba v) v.bildLen,
        m.bytes (s.manifestLba v) v.manifestLen)) := by
  have hbreite := m.breite
  have hstep : ∀ {b : Range} {log₀ log₁ : List Range}, b ∈ s.bereiche v →
      (∀ a ∈ log₀, a ∈ log ∨ ∃ b ∈ s.bereiche v, a ∈ stuecke b ∧ a.1 + a.2 ≤ m.kapazitaet) →
      (∀ a ∈ log₁, a ∈ log₀ ∨ a ∈ stuecke b ∧ a.1 + a.2 ≤ m.kapazitaet) →
      ∀ a ∈ log₁, a ∈ log ∨ ∃ b ∈ s.bereiche v, a ∈ stuecke b ∧ a.1 + a.2 ≤ m.kapazitaet := by
    intro b log₀ log₁ hb h₀ h₁ a ha
    obtain ha | ha := h₁ a ha
    · exact h₀ a ha
    · exact .inr ⟨b, hb, ha⟩
  have hlba₁ : wadd s.firstLba 1 = s.eintragLba := wadd_eq (by omega)
  unfold dokumenteLesen at h
  dsimp only at h
  rw [hlba₁] at h
  rcases h₁ : pufferFuellen (mitProtokoll quelle) m.kapazitaet s.eintragLba v.eintragLen
    .eintragZuGross d.eintrag (q, log) with ⟨r₁, puffer₁, q₁, log₁⟩
  rw [h₁] at h
  obtain ⟨hlog₁, hok₁⟩ := pufferFuellen_spec hm h₁
  have hall₁ := hstep List.mem_cons_self (fun a ha => .inl ha) hlog₁
  cases r₁ with
  | error e =>
    cases h
    exact ⟨hall₁, fun h => by cases h⟩
  | ok u =>
    obtain ⟨hslice₁, hcap₁⟩ := hok₁ rfl
    have hlba₂ : wadd s.eintragLba (ceilDiv v.eintragLen sektor) = s.bildLba v :=
      wadd_eq ((hcap₁ he).trans_lt hbreite)
    dsimp only at h
    rw [hlba₂] at h
    rcases h₂ : pufferFuellen (mitProtokoll quelle) m.kapazitaet (s.bildLba v) v.bildLen
      .bildZuGross d.bild (q₁, log₁) with ⟨r₂, puffer₂, q₂, log₂⟩
    rw [h₂] at h
    obtain ⟨hlog₂, hok₂⟩ := pufferFuellen_spec hm h₂
    have hall₂ := hstep (List.mem_cons_of_mem _ List.mem_cons_self) hall₁ hlog₂
    cases r₂ with
    | error e =>
      cases h
      exact ⟨hall₂, fun h => by cases h⟩
    | ok u =>
      obtain ⟨hslice₂, hcap₂⟩ := hok₂ rfl
      have hlba₃ : wadd (s.bildLba v) (ceilDiv v.bildLen sektor) = s.manifestLba v :=
        wadd_eq ((hcap₂ hb).trans_lt hbreite)
      dsimp only at h
      rw [hlba₃] at h
      rcases h₃ : pufferFuellen (mitProtokoll quelle) m.kapazitaet (s.manifestLba v)
        v.manifestLen .manifestZuGross d.manifest (q₂, log₂) with ⟨r₃, puffer₃, q₃, log₃⟩
      rw [h₃] at h
      obtain ⟨hlog₃, hok₃⟩ := pufferFuellen_spec hm h₃
      have hall₃ := hstep
        (List.mem_cons_of_mem _ (List.mem_cons_of_mem _ List.mem_cons_self)) hall₂ hlog₃
      cases r₃ with
      | error e =>
        cases h
        exact ⟨hall₃, fun h => by cases h⟩
      | ok u =>
        cases h
        refine ⟨hall₃, fun _ => ⟨rfl, ?_⟩⟩
        unfold dokumente
        rw [hs, Option.bind_some, Option.bind_some, hslice₁, Option.bind_some, hslice₂,
          Option.bind_some, (hok₃ rfl).1, Option.map_some]

theorem dokumenteLesen_antwortet (hm : FesterInhalt quelle m) (ha : Antwortet quelle m)
    (hfirst : s.firstLba + 1 ≤ m.kapazitaet)
    (he : 0 < v.eintragLen ∧ v.eintragLen ≤ d.eintrag.length)
    (hb : 0 < v.bildLen ∧ v.bildLen ≤ d.bild.length) (hk : v.manifestLen ≤ d.manifest.length)
    (h : d.dokumenteLesen (mitProtokoll quelle) m.kapazitaet s v (q, log) = (r, d', q', log'))
    {a b : Range} (hbereich : b ∈ s.bereiche v) (hstueck : a ∈ stuecke b)
    (hend : a.1 + a.2 ≤ m.kapazitaet) : a ∈ log' := by
  have hbreite := m.breite
  have hstart := (stuecke_bounds hstueck).1
  have hlba₁ : wadd s.firstLba 1 = s.eintragLba := wadd_eq (by omega)
  unfold dokumenteLesen at h
  dsimp only at h
  rw [hlba₁] at h
  rcases h₁ : pufferFuellen (mitProtokoll quelle) m.kapazitaet s.eintragLba v.eintragLen
    .eintragZuGross d.eintrag (q, log) with ⟨r₁, puffer₁, q₁, log₁⟩
  rw [h₁] at h
  obtain ⟨-, hall₁, hok₁⟩ := pufferFuellen_antwortet ha he.2 h₁
  have hcases : b = (s.eintragLba, ceilDiv v.eintragLen sektor) ∨
      b = (s.bildLba v, ceilDiv v.bildLen sektor) ∨
      b = (s.manifestLba v, ceilDiv v.manifestLen sektor) := by
    unfold PartSichtung.bereiche at hbereich
    simpa only [List.mem_cons, List.not_mem_nil, or_false] using hbereich
  have hbild : s.eintragLba + ceilDiv v.eintragLen sektor = s.bildLba v := rfl
  have hmanifest : s.bildLba v + ceilDiv v.bildLen sektor = s.manifestLba v := rfl
  rw [hbild] at hok₁
  cases r₁ with
  | error e =>
    cases h
    obtain rfl | rfl | rfl := hcases
    · exact hall₁ a hstueck hend
    · cases hok₁ (by dsimp only at hstart; omega)
    · cases hok₁ (by dsimp only at hstart; omega)
  | ok u =>
    have hcap₁ := ((pufferFuellen_spec hm h₁).2 rfl).2 he.1
    have hlba₂ : wadd s.eintragLba (ceilDiv v.eintragLen sektor) = s.bildLba v :=
      wadd_eq (hcap₁.trans_lt hbreite)
    dsimp only at h
    rw [hlba₂] at h
    rcases h₂ : pufferFuellen (mitProtokoll quelle) m.kapazitaet (s.bildLba v) v.bildLen
      .bildZuGross d.bild (q₁, log₁) with ⟨r₂, puffer₂, q₂, log₂⟩
    rw [h₂] at h
    obtain ⟨hsub₂, hall₂, hok₂⟩ := pufferFuellen_antwortet ha hb.2 h₂
    rw [hmanifest] at hok₂
    cases r₂ with
    | error e =>
      cases h
      obtain rfl | rfl | rfl := hcases
      · exact hsub₂ (hall₁ a hstueck hend)
      · exact hall₂ a hstueck hend
      · cases hok₂ (by dsimp only at hstart; omega)
    | ok u =>
      have hcap₂ := ((pufferFuellen_spec hm h₂).2 rfl).2 hb.1
      have hlba₃ : wadd (s.bildLba v) (ceilDiv v.bildLen sektor) = s.manifestLba v :=
        wadd_eq (hcap₂.trans_lt hbreite)
      dsimp only at h
      rw [hlba₃] at h
      rcases h₃ : pufferFuellen (mitProtokoll quelle) m.kapazitaet (s.manifestLba v)
        v.manifestLen .manifestZuGross d.manifest (q₂, log₂) with ⟨r₃, puffer₃, q₃, log₃⟩
      rw [h₃] at h
      obtain ⟨hsub₃, hall₃, -⟩ := pufferFuellen_antwortet ha hk h₃
      have hlog : log' = log₃ := by
        cases r₃ with
        | error e =>
          cases h
          rfl
        | ok u =>
          cases h
          rfl
      rw [hlog]
      obtain rfl | rfl | rfl := hcases
      · exact hsub₃ (hsub₂ (hall₁ a hstueck hend))
      · exact hsub₃ (hall₂ a hstueck hend)
      · exact hall₃ a hstueck hend

/-- The requests of `bild_lesen`: the directory, and pieces of the documents. -/
theorem bildLesen_bereiche (hm : FesterInhalt quelle m) (hs : d.sichtung = some s)
    (hv : parseVerzeichnis (m.inhalt s.firstLba) s.sektoren = .ok v)
    (h : d.bildLesen (mitProtokoll quelle) (q, []) = (r, d', q', log')) :
    (∀ a ∈ log', a = (s.firstLba, 1) ∨
        ∃ b ∈ s.bereiche v, a ∈ stuecke b ∧ a.1 + a.2 ≤ m.kapazitaet) ∧
      (r = .ok () → d'.verzeichnis = some v ∧ d'.dokumente = some (s,
        m.bytes s.eintragLba v.eintragLen, m.bytes (s.bildLba v) v.bildLen,
        m.bytes (s.manifestLba v) v.manifestLen)) := by
  unfold bildLesen at h
  rw [hs] at h
  dsimp only at h
  by_cases hphase : d.phase = .verzeichnis
  · rw [if_neg (not_not.mpr hphase)] at h
    rcases hi : infoHolen (mitProtokoll quelle) (q, []) with ⟨info, q₀, log₀⟩
    rw [hi] at h
    obtain ⟨rfl, hcap⟩ := infoHolen_mitProtokoll hm hi
    cases info with
    | error e =>
      cases h
      exact ⟨fun a ha => absurd ha List.not_mem_nil, fun h => by cases h⟩
    | ok info =>
      dsimp only at h
      rw [hcap info rfl] at h
      rcases hd : leseExakt (mitProtokoll quelle) m.kapazitaet s.firstLba
        (List.replicate sektor 0) (q₀, []) with ⟨r₁, sec, q₁, log₁⟩
      rw [hd] at h
      obtain ⟨hlog₁, -, hok₁⟩ := leseStuecke_spec hm rfl hd
      rw [List.length_replicate] at hlog₁ hok₁
      rw [stuecke_sektor] at hlog₁
      have hdir : ∀ a ∈ log₁, a = (s.firstLba, 1) := by
        intro a ha
        obtain ha | ⟨ha, -⟩ := hlog₁ a ha
        · exact absurd ha List.not_mem_nil
        · exact List.mem_singleton.mp ha
      cases r₁ with
      | error e =>
        cases h
        exact ⟨fun a ha => .inl (hdir a ha), fun h => by cases h⟩
      | ok u =>
        obtain ⟨hsec, hfirst⟩ := hok₁ rfl
        rw [m.bytes_sektor] at hsec
        dsimp only at h
        rw [hsec, hv] at h
        obtain ⟨he, -, hb, -⟩ := parseVerzeichnis_bounds hv
        obtain ⟨hlog, hok⟩ := dokumenteLesen_bereiche hm hs (hfirst (by decide)) he hb h
        exact ⟨fun a ha => (hlog a ha).imp_left (hdir a), hok⟩
  · rw [if_pos hphase] at h
    cases h
    exact ⟨fun a ha => absurd ha List.not_mem_nil, fun h => by cases h⟩

theorem bildLesen_antwortet (hv : parseVerzeichnis (m.inhalt s.firstLba) s.sektoren = .ok v)
    (hs : d.sichtung = some s) (hphase : d.phase = .verzeichnis)
    (he : maxEintragBytes ≤ d.eintrag.length) (hb : maxBildBytes ≤ d.bild.length)
    (hk : maxManifestBytes ≤ d.manifest.length)
    (h : d.bildLesen (mitProtokoll m.quelle) ((), []) = (r, d', (), log'))
    {a b : Range} (hbereich : b ∈ s.bereiche v) (hstueck : a ∈ stuecke b)
    (hend : a.1 + a.2 ≤ m.kapazitaet) : a ∈ log' := by
  have hstart : s.firstLba + 1 ≤ a.1 := by
    have hle := (stuecke_bounds hstueck).1
    have hfirst : s.firstLba + 1 ≤ b.1 := s.eintragLba_le hbereich
    omega
  have hinfo : infoHolen (mitProtokoll m.quelle) ((), []) =
      (.ok ⟨m.kapazitaet, maxSektorenJeAnfrage⟩, (), []) := by
    unfold infoHolen mitProtokoll Medium.quelle
    dsimp only
    rw [if_neg (by omega)]
  unfold bildLesen at h
  rw [hs] at h
  dsimp only at h
  rw [if_neg (not_not.mpr hphase), hinfo] at h
  dsimp only at h
  rcases hd : leseExakt (mitProtokoll m.quelle) m.kapazitaet s.firstLba
    (List.replicate sektor 0) ((), []) with ⟨r₁, sec, q₁, log₁⟩
  rw [hd] at h
  obtain ⟨-, -, hok⟩ := leseStuecke_antwortet m.antwortet rfl hd
  rw [List.length_replicate] at hok
  have hone : ceilDiv sektor sektor = 1 := by decide
  obtain rfl := hok (by omega)
  obtain ⟨hsec, -⟩ := (leseStuecke_spec m.festerInhalt rfl hd).2.2 rfl
  rw [List.length_replicate, m.bytes_sektor] at hsec
  dsimp only at h
  rw [hsec, hv] at h
  obtain ⟨he0, hemax, hb0, hbmax, -, hkmax, -⟩ := parseVerzeichnis_bounds hv
  exact dokumenteLesen_antwortet m.festerInhalt m.antwortet (by omega) ⟨he0, hemax.trans he⟩
    ⟨hb0, hbmax.trans hb⟩ (hkmax.trans hk) h hbereich hstueck hend

end LadeDienst

/-- `lese_exakt` asks for no sector behind the capacity; a full target holds the bytes from `lba`
on, and a source that answers fills every target within the capacity. -/
structure LiestExakt (quelle : BlockQuelle Q) (m : Medium) : Prop where
  anfragen : ∀ {lba ziel q r ziel' q' log},
    leseExakt (mitProtokoll quelle) m.kapazitaet lba ziel (q, []) = (r, ziel', q', log) →
      ∀ a ∈ log, addrs a ⊆ Set.Iio m.kapazitaet
  inhalt : ∀ {lba ziel q ziel' q' log},
    leseExakt (mitProtokoll quelle) m.kapazitaet lba ziel (q, []) = (.ok (), ziel', q', log) →
      ziel' = m.bytes lba ziel.length
  gelingt : Antwortet quelle m → ∀ {lba ziel q r ziel' q' log},
    lba + ceilDiv ziel.length sektor ≤ m.kapazitaet →
      leseExakt (mitProtokoll quelle) m.kapazitaet lba ziel (q, []) = (r, ziel', q', log) →
        r = .ok ()

/-- The documents of the directory `v` are read exactly, and only from the partition `s`. -/
structure LiestNurPartition (F : Type) (quelle : BlockQuelle Q) (m : Medium) (s : PartSichtung)
    (v : BildVerzeichnis) : Prop where
  anfragen : ∀ {d : LadeDienst F} {q r d' q' log}, d.sichtung = some s →
    d.bildLesen (mitProtokoll quelle) (q, []) = (r, d', q', log) →
      ∀ a ∈ log, addrs a ⊆ addrs (s.firstLba, s.sektoren)
  getrennt : Apart (s.bereiche v)
  dokumente : ∀ {d : LadeDienst F} {q d' q' log}, d.sichtung = some s →
    d.bildLesen (mitProtokoll quelle) (q, []) = (.ok (), d', q', log) →
      d'.verzeichnis = some v ∧ d'.dokumente = some (s, m.bytes s.eintragLba v.eintragLen,
        m.bytes (s.bildLba v) v.bildLen, m.bytes (s.manifestLba v) v.manifestLen)
  exakt : LiestExakt quelle m

/-- Every piece of a document ends in the partition, or behind the capacity, where the reader
refuses it. -/
def Passt (kapazitaet : Nat) (s : PartSichtung) (v : BildVerzeichnis) : Prop :=
  ∀ b ∈ s.bereiche v, ∀ a ∈ stuecke b,
    a.1 + a.2 ≤ s.firstLba + s.sektoren ∨ kapazitaet < a.1 + a.2

instance (kapazitaet : Nat) (s : PartSichtung) (v : BildVerzeichnis) :
    Decidable (Passt kapazitaet s v) :=
  inferInstanceAs (Decidable (∀ b ∈ s.bereiche v, ∀ a ∈ stuecke b,
    a.1 + a.2 ≤ s.firstLba + s.sektoren ∨ kapazitaet < a.1 + a.2))

variable {s : PartSichtung} {v : BildVerzeichnis}

theorem FesterInhalt.liestExakt (hm : FesterInhalt quelle m) : LiestExakt quelle m where
  anfragen h a ha := by
    obtain ha | ⟨-, hend⟩ := (leseStuecke_spec hm rfl h).1 a ha
    · exact absurd ha List.not_mem_nil
    · exact fun x hx => hx.2.trans_le hend
  inhalt h := ((leseStuecke_spec hm rfl h).2.2 rfl).1
  gelingt ha _ _ _ _ _ _ _ hend h := (leseStuecke_antwortet ha rfl h).2.2 hend

theorem Passt.liest (hp : Passt m.kapazitaet s v) (hm : FesterInhalt quelle m)
    (hv : parseVerzeichnis (m.inhalt s.firstLba) s.sektoren = .ok v) :
    LiestNurPartition F quelle m s v where
  anfragen hs h a ha := by
    obtain rfl | ⟨b, hb, hstueck, hend⟩ := (LadeDienst.bildLesen_bereiche hm hs hv h).1 a ha
    · have hpos : 1 ≤ s.sektoren := by have := parseVerzeichnis_bounds hv; omega
      exact Set.Ico_subset_Ico le_rfl (Nat.add_le_add_left hpos _)
    · have hfirst : s.firstLba + 1 ≤ b.1 := s.eintragLba_le hb
      have hstart := (stuecke_bounds hstueck).1
      refine Set.Ico_subset_Ico (by dsimp only; omega) ?_
      obtain h | h := hp b hb a hstueck
      · exact h
      · omega
  getrennt := s.bereiche_apart v
  dokumente hs h := (LadeDienst.bildLesen_bereiche hm hs hv h).2 rfl
  exakt := hm.liestExakt

def gesucht (F : Type) (s : PartSichtung) : LadeDienst F :=
  { LadeDienst.neu false with sichtung := some s, phase := .verzeichnis }

theorem LiestNurPartition.passt (h : LiestNurPartition F m.quelle m s v)
    (hv : parseVerzeichnis (m.inhalt s.firstLba) s.sektoren = .ok v) : Passt m.kapazitaet s v := by
  intro b hb a ha
  by_contra hnot
  obtain ⟨hout, hcap⟩ := not_or.mp hnot
  rcases hr : (gesucht F s).bildLesen (mitProtokoll m.quelle) ((), []) with ⟨r, d', u, log⟩
  have hlog : a ∈ log := LadeDienst.bildLesen_antwortet hv rfl rfl List.length_replicate.ge
    List.length_replicate.ge List.length_replicate.ge hr hb ha (not_lt.mp hcap)
  obtain ⟨-, hpos, -⟩ := stuecke_bounds ha
  have hlast : a.1 + a.2 - 1 ∈ addrs a := ⟨by omega, by omega⟩
  have hin : a.1 + a.2 - 1 ∈ addrs (s.firstLba, s.sektoren) := h.anfragen rfl hr a hlog hlast
  have hlt : a.1 + a.2 - 1 < s.firstLba + s.sektoren := hin.2
  omega

/-- The directory is accepted by the sum of the lengths; what is read stays in the partition exactly
if every piece does. -/
theorem bildLesen_nurPartition_iff (F : Type) (m : Medium) (s : PartSichtung) (v : BildVerzeichnis)
    (hv : parseVerzeichnis (m.inhalt s.firstLba) s.sektoren = .ok v) :
    (∀ (Q : Type) (quelle : BlockQuelle Q), FesterInhalt quelle m →
      LiestNurPartition F quelle m s v) ↔ Passt m.kapazitaet s v :=
  ⟨fun h => (h Unit m.quelle m.festerInhalt).passt hv, fun h _ _ hm => h.liest hm hv⟩

def verzeichnisMedium : Medium where
  inhalt _ := plattenSektor 3
  laenge _ := by decide +kernel
  kapazitaet := 16
  breite := by decide

/-- Three short documents in a partition of two sectors: image and manifest lie behind it. -/
theorem bildLesen_hinterPartition : ¬ ∀ (m : Medium) (s : PartSichtung) (v : BildVerzeichnis),
    parseVerzeichnis (m.inhalt s.firstLba) s.sektoren = .ok v →
      ∀ (Q : Type) (quelle : BlockQuelle Q), FesterInhalt quelle m →
        LiestNurPartition ℚ quelle m s v := by
  intro h
  have hv : parseVerzeichnis (verzeichnisMedium.inhalt 1) 2 = .ok ⟨279, 25, 165⟩ := by
    decide +kernel
  have hp : Passt 16 ⟨1, 2, [], 0⟩ ⟨279, 25, 165⟩ :=
    (h verzeichnisMedium ⟨1, 2, [], 0⟩ _ hv Unit _ verzeichnisMedium.festerInhalt).passt hv
  revert hp
  decide

/-- In four sectors they fit. -/
theorem bildLesen_inPartition : LiestNurPartition ℚ verzeichnisMedium.quelle verzeichnisMedium
    ⟨1, 4, [], 0⟩ ⟨279, 25, 165⟩ :=
  (bildLesen_nurPartition_iff ℚ verzeichnisMedium ⟨1, 4, [], 0⟩ ⟨279, 25, 165⟩
    (by decide +kernel)).mpr (by decide) Unit verzeichnisMedium.quelle verzeichnisMedium.festerInhalt

end Caprock.Lxpd
