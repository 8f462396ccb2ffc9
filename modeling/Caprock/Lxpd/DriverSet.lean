import Caprock.Lib.Ranges
import Caprock.Lxpd.DriverEntry

/-! # Sets of driver entries

`checkSet` lets a set of entries through in which no two claim the same source: the same module,
the same partition or crossing ranges of sectors.  What an entry denotes is said by the modules and
sectors themselves, over a partition table that the check does not have.  The check keeps apart all
places but one kind: a partition and a range of sectors are never compared.
-/

namespace Caprock.Lxpd

open Checks Word Ranges

def overlap (a b : DriverEntry) : Bool :=
  match a.source, b.source with
  | .boot x, .boot y => x == y
  | .diskGuid x, .diskGuid y => x == y
  | .diskRange s₁ l₁, .diskRange s₂ l₂ =>
      let e₁ := saturatingAdd s₁ l₁
      let e₂ := saturatingAdd s₂ l₂
      decide (s₁ < e₂) && decide (s₂ < e₁)
  | _, _ => false

def checkSet : List DriverEntry → Except LxpdError Unit
  | [] => .ok ()
  | e :: es => if es.any (overlap e) then .error .badManifest else checkSet es

/-- A partition table: every partition has sectors of its own. -/
structure Tabelle where
  bereich : List UInt8 → Option Range
  nichtLeer : ∀ {g r}, bereich g = some r → 0 < r.2
  getrennt : ∀ {g g' r r'}, g ≠ g' → bereich g = some r → bereich g' = some r' →
    Disjoint (addrs r) (addrs r')

abbrev Ort : Type := UInt32 ⊕ Nat

def orte (t : Tabelle) : Source → Set Ort
  | .boot module => {.inl module}
  | .diskGuid guid =>
      match t.bereich guid with
      | none => ∅
      | some r => Set.image Sum.inr (addrs r)
  | .diskRange startLba sectors => Set.image Sum.inr (addrs (startLba, sectors))

theorem disjoint_image_inr {s r : Range} :
    Disjoint (Set.image (Sum.inr : Nat → Ort) (addrs s)) (Set.image Sum.inr (addrs r)) ↔
      Disjoint (addrs s) (addrs r) :=
  Set.disjoint_image_iff Sum.inr_injective

theorem disjoint_boot_image (module : UInt32) (s : Set Nat) :
    Disjoint ({.inl module} : Set Ort) (Set.image Sum.inr s) := by
  rw [Set.disjoint_singleton_left]
  simp

def Gemischt : Source → Source → Prop
  | .diskGuid _, .diskRange _ _ => True
  | .diskRange _ _, .diskGuid _ => True
  | _, _ => False

def BereichGilt : Source → Prop
  | .diskRange startLba sectors => 0 < sectors ∧ startLba + sectors < 2 ^ 64
  | _ => True

theorem diskSource_gilt {guid start len : Option (List UInt8)} {source : Source}
    (h : diskSource guid start len = .ok source) : BereichGilt source := by
  unfold diskSource at h
  split at h
  · simp only [bind_eq_ok, ite_error_eq_ok] at h
    obtain ⟨-, -, bytes, -, -, heq⟩ := h
    cases heq
    trivial
  · simp only [bind_eq_ok, okOr_eq_ok, ite_error_eq_ok, checkedAdd_eq_some] at h
    obtain ⟨startLba, -, sectors, -, hpos, -, ⟨hlt, -⟩, heq⟩ := h
    cases heq
    refine ⟨?_, hlt⟩
    have hne : sectors.toNat ≠ 0 := fun hzero => hpos (UInt64.toNat_inj.mp hzero)
    omega
  · cases h

theorem parseSource_gilt {span : List UInt8} {source : Source} (h : parseSource span = .ok source) :
    BereichGilt source := by
  simp only [parseSource, bind_eq_ok] at h
  obtain ⟨nest, -, kind, -, art, -, hart⟩ := h
  split at hart
  · simp only [bind_eq_ok] at hart
    obtain ⟨modul, -, hmodul⟩ := hart
    cases hparse : okOr LxpdError.badManifest (parseU32 modul) with
    | error e =>
      rw [hparse] at hmodul
      cases hmodul
    | ok index =>
      rw [hparse] at hmodul
      cases hmodul
      trivial
  · split at hart
    · exact diskSource_gilt hart
    · cases hart

theorem parseEntry_gilt {json : List UInt8} {e : DriverEntry} (h : parseEntry json = .ok e) :
    BereichGilt e.source := by
  simp only [parseEntry, bind_eq_ok, ite_error_eq_ok] at h
  obtain ⟨buf, -, fassung, -, version, -, -, d, -, treiber, -, a, -, api, -, quelle, -, -, h⟩ := h
  obtain ⟨source, hsource, ih, -, ihInner, -, imageHash, -, ki, -, kiInner, -, keyId, -, heq⟩ := h
  cases heq
  exact parseSource_gilt hsource

theorem disjoint_of_overlap_false (t : Tabelle) {a b : DriverEntry} (ha : BereichGilt a.source)
    (hb : BereichGilt b.source) (h : overlap a b = false) :
    Disjoint (orte t a.source) (orte t b.source) ∨ Gemischt a.source b.source := by
  unfold overlap at h
  generalize a.source = x at h ha
  generalize b.source = y at h hb
  cases x with
  | boot m =>
    cases y with
    | boot n =>
      left
      simpa [orte] using h
    | diskGuid g =>
      left
      simp only [orte]
      split
      · exact Set.disjoint_empty _
      · exact disjoint_boot_image _ _
    | diskRange s l => exact .inl (disjoint_boot_image _ _)
  | diskGuid g =>
    cases y with
    | boot n =>
      left
      simp only [orte]
      split
      · exact Set.empty_disjoint _
      · exact (disjoint_boot_image _ _).symm
    | diskGuid g' =>
      left
      have hne : g ≠ g' := by simpa using h
      simp only [orte]
      split
      · exact Set.empty_disjoint _
      · next r hr =>
        split
        · exact Set.disjoint_empty _
        · next r' hr' => exact disjoint_image_inr.mpr (t.getrennt hne hr hr')
    | diskRange s l => exact .inr trivial
  | diskRange s l =>
    cases y with
    | boot n => exact .inl (disjoint_boot_image _ _).symm
    | diskGuid g' => exact .inr trivial
    | diskRange s' l' =>
      left
      obtain ⟨hpos, hlt⟩ := ha
      obtain ⟨hpos', hlt'⟩ := hb
      refine disjoint_image_inr.mpr ((disjoint_addrs_iff hpos hpos').mpr ?_)
      have hend : saturatingAdd s l = s + l := by
        unfold saturatingAdd
        omega
      have hend' : saturatingAdd s' l' = s' + l' := by
        unfold saturatingAdd
        omega
      simp only [hend, hend', Bool.and_eq_false_iff, decide_eq_false_iff_not] at h
      omega

theorem pairwise_of_checkSet {es : List DriverEntry} (h : checkSet es = .ok ()) :
    es.Pairwise fun a b => overlap a b = false := by
  induction es with
  | nil => exact List.Pairwise.nil
  | cons e es ih =>
    simp only [checkSet, ite_error_eq_ok] at h
    refine List.pairwise_cons.mpr ⟨fun b hb => ?_, ih h.2⟩
    have hnone := h.1
    rw [Bool.not_eq_true, List.any_eq_false] at hnone
    simpa using hnone b hb

def AlleGelesen (es : List DriverEntry) : Prop := ∀ e ∈ es, ∃ json, parseEntry json = .ok e

/-- In a set that passes, the places of any two entries are apart, unless one names a partition and
the other a range. -/
theorem checkSet_getrennt (t : Tabelle) (es : List DriverEntry) (hes : AlleGelesen es)
    (h : checkSet es = .ok ()) : es.Pairwise fun a b =>
      Disjoint (orte t a.source) (orte t b.source) ∨ Gemischt a.source b.source := by
  refine (pairwise_of_checkSet h).imp_of_mem fun ha hb hfalse => ?_
  obtain ⟨json, hjson⟩ := hes _ ha
  obtain ⟨json', hjson'⟩ := hes _ hb
  exact disjoint_of_overlap_false t (parseEntry_gilt hjson) (parseEntry_gilt hjson') hfalse

def plattenEintrag (source : Source) : DriverEntry :=
  ⟨1, ascii "nic", ascii "X1", source, List.replicate 32 0, List.replicate 16 0, false⟩

def vorQuelle : List UInt8 :=
  ascii "\x7b\"schema_version\":1,\"driver\":\"nic\",\"api_version\":\"X1\",\"source\":\x7b"

def nachQuelle : List UInt8 :=
  ascii "\x7d,\"image_hash\":\"" ++ List.replicate 64 0x30 ++ ascii "\",\"key_id\":\"" ++
    List.replicate 32 0x30 ++ ascii "\"\x7d"

def eintragJson (source : List UInt8) : List UInt8 := vorQuelle ++ source ++ nachQuelle

/-- A partition and two ranges that touch, as texts. -/
theorem parseEntry_tafel :
    parseEntry (eintragJson (ascii "\"kind\":\"disk\",\"part_guid\":\"" ++
      List.replicate 32 0x31 ++ ascii "\"")) =
        .ok (plattenEintrag (.diskGuid (List.replicate 16 0x11))) ∧
    parseEntry (eintragJson (ascii "\"kind\":\"disk\",\"start_lba\":100,\"sectors\":50")) =
      .ok (plattenEintrag (.diskRange 100 50)) ∧
    parseEntry (eintragJson (ascii "\"kind\":\"disk\",\"start_lba\":150,\"sectors\":50")) =
      .ok (plattenEintrag (.diskRange 150 50)) := by
  refine ⟨?_, ?_, ?_⟩
  · rw [eintragJson, vorQuelle, nachQuelle, ascii_ofList, ascii_ofList, ascii_ofList, ascii_ofList,
      ascii_ofList, ascii_ofList]
    decide +kernel
  all_goals
    rw [eintragJson, vorQuelle, nachQuelle, ascii_ofList, ascii_ofList, ascii_ofList, ascii_ofList,
      ascii_ofList]
    decide +kernel

def eineTabelle : Tabelle where
  bereich g := if g = List.replicate 16 0x11 then some (100, 100) else none
  nichtLeer := by
    intro g r h
    split at h
    · cases h
      decide
    · cases h
  getrennt := by
    intro g g' r r' hne h h'
    split at h
    · next hg =>
      split at h'
      · next hg' => exact absurd (hg.trans hg'.symm) hne
      · cases h'
    · cases h

/-- A partition and a range inside it pass the check together. -/
theorem checkSet_bereich_in_partition :
    ¬ ∀ (t : Tabelle) (es : List DriverEntry), AlleGelesen es → checkSet es = .ok () →
      es.Pairwise fun a b => Disjoint (orte t a.source) (orte t b.source) := by
  intro h
  have hes : AlleGelesen [plattenEintrag (.diskGuid (List.replicate 16 0x11)),
      plattenEintrag (.diskRange 100 50)] := by
    intro e he
    rcases List.mem_cons.mp he with rfl | he
    · exact ⟨_, parseEntry_tafel.1⟩
    · obtain rfl := List.mem_singleton.mp he
      exact ⟨_, parseEntry_tafel.2.1⟩
  have hpair := List.rel_of_pairwise_cons (h eineTabelle _ hes rfl) List.mem_cons_self
  have hguid : orte eineTabelle (.diskGuid (List.replicate 16 0x11)) =
      Set.image Sum.inr (addrs (100, 100)) := rfl
  have happart := disjoint_image_inr.mp (hguid ▸ hpair)
  rw [disjoint_addrs_iff (by decide) (by decide)] at happart
  omega

/-- Two ranges that touch. -/
theorem checkSet_bereiche : [plattenEintrag (.diskRange 100 50),
    plattenEintrag (.diskRange 150 50)].Pairwise fun a b =>
      Disjoint (orte eineTabelle a.source) (orte eineTabelle b.source) ∨
        Gemischt a.source b.source := by
  refine checkSet_getrennt eineTabelle _ (fun e he => ?_) (by decide)
  rcases List.mem_cons.mp he with rfl | he
  · exact ⟨_, parseEntry_tafel.2.1⟩
  · obtain rfl := List.mem_singleton.mp he
    exact ⟨_, parseEntry_tafel.2.2⟩

end Caprock.Lxpd
