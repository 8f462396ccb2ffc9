import Caprock.Lxpd.Canonical
import Caprock.Lxpd.LadeDienst

/-! # Runs of the loader service

A run is any sequence of calls of one service, against a block source that may answer as it likes.
Its protocol has one event for each step; what a hand-over passed on is traced back in it to the
last check that passed.
-/

namespace Caprock.Lxpd

open Checks Bytes Word

variable {F Q P : Type} {A : Gleitkomma F} {expectedMachine : Nat}

/-- One successful `pruefen`: the partition and the documents it looked at, its keys, its result. -/
structure Pruefung (F : Type) where
  sichtung : PartSichtung
  eintrag : List UInt8
  bild : List UInt8
  manifest : List UInt8
  schluessel : List UInt8
  pubkey : List UInt8
  summe : PruefSumme F

/-- The entry means this partition. -/
def Bindet (s : PartSichtung) : Source → Prop
  | .diskGuid guid => guid = s.uniqueGuid
  | .diskRange startLba sectors => s.firstLba ≤ startLba ∧ startLba + sectors ≤ s.firstLba + s.sektoren
  | .boot _ => False

def BildGilt (expectedMachine : Nat) (bild : List UInt8) (stubs : Nat) (art : BildArt) : Prop :=
  (isLxpd bild = true ∧ ∃ img, LxpdImage.parse bild = .ok img ∧ stubs = img.trampCount ∧
      art = .lxpdContainer img.trampCount) ∨
    (isElf bild = true ∧ (∃ img, Loader.Elf.ElfImage.parse expectedMachine bild = .ok img) ∧
      art = .elf)

/-- All checks of `pruefen` hold of the documents. -/
structure Pruefung.Gilt (A : Gleitkomma F) (expectedMachine : Nat) (p : Pruefung F) : Prop where
  eintrag : ∃ e, parseEntry p.eintrag = .ok e ∧ sha256 p.bild = e.imageHash ∧
    Bindet p.sichtung e.source ∧ treibernameGleich p.manifest e.driver = true
  zeuge : verifyWitness p.eintrag p.pubkey = .ok ()
  fakten : manifestFacts A p.manifest = .ok p.summe.fakten
  signatur : verifySignature p.manifest p.schluessel = .ok ()
  bild : BildGilt expectedMachine p.bild p.summe.fakten.trampolineNames p.summe.art
  laengen : p.summe.bildLen = p.bild.length ∧ p.summe.manifestLen = p.manifest.length ∧
    p.summe.eintragLen = p.eintrag.length

theorem herkunftBindet_eq_ok {s : PartSichtung} {source : Source} :
    herkunftBindet s source = .ok () → Bindet s source := by
  cases source with
  | boot m => intro h; cases h
  | diskGuid guid =>
    intro h
    exact (ite_ok_error_eq_ok.mp h).1
  | diskRange startLba sectors =>
    intro h
    obtain ⟨plattenEnde, hp, h⟩ := bind_eq_ok.mp h
    obtain ⟨bereichEnde, hb, h⟩ := bind_eq_ok.mp h
    rw [okOr_eq_ok, checkedAdd_eq_some] at hp hb
    obtain ⟨⟨hstart, hende⟩, -⟩ := ite_ok_error_eq_ok.mp h
    rw [hp.2, hb.2] at hende
    exact ⟨hstart, hende⟩

theorem alsContainer_eq_ok {α : Type} {x : Except LxpdError α} {a : α} :
    alsContainer x = .ok a ↔ x = .ok a := by
  cases x with
  | error e | ok b => simp [alsContainer]

theorem fehlerAls_eq_ok {ε ε' α : Type} {e : ε'} {x : Except ε α} {a : α} :
    fehlerAls e x = .ok a ↔ x = .ok a := by
  cases x with
  | error e' | ok b => simp [fehlerAls]

theorem ok_of_map {ε α β : Type} {g : α → β} {x : Except ε α} {b : β} (h : x.map g = .ok b) :
    ∃ a, x = .ok a ∧ g a = b := by
  cases x with
  | error e => cases h
  | ok a => exact ⟨a, rfl, Except.ok.inj h⟩

theorem elfReady_eq_ok {bytes : List UInt8} (h : elfReady expectedMachine bytes = .ok ()) :
    ∃ img, Loader.Elf.ElfImage.parse expectedMachine bytes = .ok img := by
  obtain ⟨-, h⟩ := ite_error_eq_ok.mp h
  cases hp : Loader.Elf.ElfImage.parse expectedMachine bytes with
  | error e => simp [hp] at h
  | ok img => exact ⟨img, rfl⟩

theorem bildPruefen_eq_ok {bild manifest schluessel : List UInt8} {art : BildArt}
    {fakten : ManifestFacts F} (hf : manifestFacts A manifest = .ok fakten)
    (h : bildPruefen A expectedMachine bild manifest schluessel = .ok art) :
    BildGilt expectedMachine bild fakten.trampolineNames art := by
  unfold bildPruefen at h
  by_cases hlxpd : isLxpd bild = true
  · rw [if_pos hlxpd] at h
    obtain ⟨img, himg, h⟩ := bind_eq_ok.mp h
    obtain ⟨facts, hfacts, rfl⟩ := ok_of_map h
    obtain ⟨facts', hfacts', hnames⟩ := bind_eq_ok.mp (alsContainer_eq_ok.mp hfacts)
    obtain rfl : fakten = facts' := Except.ok.inj (hf.symm.trans hfacts')
    obtain ⟨hnames, -⟩ := ite_error_eq_ok.mp hnames
    exact .inl ⟨hlxpd, img, alsContainer_eq_ok.mp himg, not_not.mp hnames, rfl⟩
  · rw [if_neg hlxpd] at h
    by_cases helf : isElf bild = true
    · rw [if_pos helf] at h
      obtain ⟨_, hready, rfl⟩ := ok_of_map h
      exact .inr ⟨helf, elfReady_eq_ok hready, rfl⟩
    · rw [if_neg helf] at h
      cases h

theorem dokumentePruefen_eq_ok {s : PartSichtung} {eintrag bild manifest schluessel pubkey : List UInt8}
    {summe : PruefSumme F}
    (h : dokumentePruefen A expectedMachine s eintrag bild manifest schluessel pubkey = .ok summe) :
    (⟨s, eintrag, bild, manifest, schluessel, pubkey, summe⟩ : Pruefung F).Gilt A expectedMachine := by
  obtain ⟨e, he, h⟩ := bind_eq_ok.mp h
  obtain ⟨_, hherkunft, h⟩ := bind_eq_ok.mp h
  obtain ⟨fakten, hfakten, h⟩ := bind_eq_ok.mp h
  obtain ⟨_, hsignatur, h⟩ := bind_eq_ok.mp h
  obtain ⟨art, hart, h⟩ := bind_eq_ok.mp h
  obtain ⟨_, hbild, h⟩ := bind_eq_ok.mp h
  obtain ⟨_, hzeuge, h⟩ := bind_eq_ok.mp h
  obtain ⟨hname, h⟩ := ite_error_eq_ok.mp h
  rw [alsContainer_eq_ok] at he hfakten hsignatur hzeuge
  cases h
  exact
    { eintrag := ⟨e, he, (ite_ok_error_eq_ok.mp (fehlerAls_eq_ok.mp hbild)).1,
        herkunftBindet_eq_ok hherkunft, Bool.eq_true_of_not_eq_false hname⟩
      zeuge := hzeuge
      fakten := hfakten
      signatur := hsignatur
      bild := bildPruefen_eq_ok hfakten hart
      laengen := ⟨rfl, rfl, rfl⟩ }

theorem pufferFuellen_of_ok {quelle : BlockQuelle Q} {kapazitaet lba len : Nat}
    {zuGross : LadeFehler} {puffer teil : List UInt8} {q q' : Q} (hlen : len ≤ puffer.length)
    (h : leseExakt quelle kapazitaet lba (puffer.take len) q = (.ok (), teil, q')) :
    pufferFuellen quelle kapazitaet lba len zuGross puffer q =
      (.ok (), teil ++ puffer.drop len, q') := by
  rw [pufferFuellen, if_neg (Nat.not_lt.mpr hlen), h]

namespace LadeDienst

variable {quelle : BlockQuelle Q} {anstoss : LadeAnstoss P} {d d' : LadeDienst F} {q q' : Q}

theorem suchen_spec {index : Nat} {r : Except LadeFehler PartSichtung}
    (h : d.suchen quelle index q = (r, d', q')) :
    (∃ e, r = .error e ∧ d' = d) ∨
      ∃ s, r = .ok s ∧ d' = { d with sichtung := some s, phase := .verzeichnis } := by
  unfold suchen at h
  rcases hp : partitionSuchen quelle index q with ⟨r', q₁⟩
  rw [hp] at h
  cases r' with
  | error e =>
    cases h
    exact .inl ⟨e, rfl, rfl⟩
  | ok s =>
    cases h
    exact .inr ⟨s, rfl, rfl⟩

/-- The three documents are read one after the other; only the last sets the phase. -/
theorem dokumenteLesen_spec {kapazitaet : Nat} {s : PartSichtung} {v : BildVerzeichnis}
    {r : Except LadeFehler Unit} (h : d.dokumenteLesen quelle kapazitaet s v q = (r, d', q')) :
    d'.sichtung = d.sichtung ∧ d'.hatLoaderCap = d.hatLoaderCap ∧
      (d'.phase = d.phase ∨ d'.phase = .bild) := by
  unfold dokumenteLesen at h
  dsimp only at h
  split at h
  · cases h
    exact ⟨rfl, rfl, .inl rfl⟩
  · split at h
    · cases h
      exact ⟨rfl, rfl, .inl rfl⟩
    · split at h
      · cases h
        exact ⟨rfl, rfl, .inl rfl⟩
      · cases h
        exact ⟨rfl, rfl, .inr rfl⟩

/-- Reading needs the phase after the search; otherwise neither service nor source is touched. -/
theorem bildLesen_spec {r : Except LadeFehler Unit} (h : d.bildLesen quelle q = (r, d', q')) :
    d'.sichtung = d.sichtung ∧ d'.hatLoaderCap = d.hatLoaderCap ∧
      ((∃ e, r = .error e) ∧ d' = d ∧ q' = q ∨
        d.phase = .verzeichnis ∧ (d'.phase = .verzeichnis ∨ d'.phase = .bild)) := by
  unfold bildLesen at h
  cases hs : d.sichtung with
  | none =>
    rw [hs] at h
    cases h
    exact ⟨hs, rfl, .inl ⟨⟨_, rfl⟩, rfl, rfl⟩⟩
  | some s =>
    rw [hs] at h
    dsimp only at h
    by_cases hphase : d.phase = .verzeichnis
    · rw [if_neg (not_not.mpr hphase)] at h
      have hgleich : ∀ {x : Except LadeFehler Unit × LadeDienst F × Q}, x.2.1 = d →
          x = (r, d', q') → d'.sichtung = some s ∧ d'.hatLoaderCap = d.hatLoaderCap ∧
            ((∃ e, r = .error e) ∧ d' = d ∧ q' = q ∨
              d.phase = .verzeichnis ∧ (d'.phase = .verzeichnis ∨ d'.phase = .bild)) := by
        rintro x hd rfl
        subst hd
        exact ⟨hs, rfl, .inr ⟨hphase, .inl hphase⟩⟩
      split at h
      · exact hgleich rfl h
      · split at h
        · exact hgleich rfl h
        · split at h
          · exact hgleich rfl h
          · obtain ⟨hsicht, hcap, hp⟩ := dokumenteLesen_spec h
            exact ⟨hsicht.trans hs, hcap, .inr ⟨hphase, hp.imp_left fun heq => heq.trans hphase⟩⟩
    · rw [if_pos hphase] at h
      cases h
      exact ⟨hs, rfl, .inl ⟨⟨_, rfl⟩, rfl, rfl⟩⟩

theorem dokumenteLesen_of_ok {quelle : BlockQuelle Q} {kapazitaet : Nat} {s : PartSichtung}
    {v : BildVerzeichnis} {eintrag bild manifest : List UInt8} {q₀ q₁ q₂ q₃ : Q}
    (hs : d.sichtung = some s)
    (heintrag : eintrag.length = v.eintragLen ∧ v.eintragLen ≤ d.eintrag.length ∧
      leseExakt quelle kapazitaet (wadd s.firstLba 1) (d.eintrag.take v.eintragLen) q₀ =
        (.ok (), eintrag, q₁))
    (hbild : bild.length = v.bildLen ∧ v.bildLen ≤ d.bild.length ∧
      leseExakt quelle kapazitaet (wadd (wadd s.firstLba 1) (ceilDiv v.eintragLen sektor))
        (d.bild.take v.bildLen) q₁ = (.ok (), bild, q₂))
    (hmanifest : manifest.length = v.manifestLen ∧ v.manifestLen ≤ d.manifest.length ∧
      leseExakt quelle kapazitaet (wadd (wadd (wadd s.firstLba 1) (ceilDiv v.eintragLen sektor))
        (ceilDiv v.bildLen sektor)) (d.manifest.take v.manifestLen) q₂ =
          (.ok (), manifest, q₃)) :
    ∃ d', d.dokumenteLesen quelle kapazitaet s v q₀ = (.ok (), d', q₃) ∧ d'.phase = .bild ∧
      d'.hatLoaderCap = d.hatLoaderCap ∧ d'.dokumente = some (s, eintrag, bild, manifest) := by
  have hslice : ∀ {x rest : List UInt8} {n : Nat}, x.length = n →
      slice (x ++ rest) 0 n = some x := fun hn =>
    slice_append (p := []) rfl rfl hn.symm
  refine ⟨{ d with
      eintrag := eintrag ++ d.eintrag.drop v.eintragLen
      bild := bild ++ d.bild.drop v.bildLen
      manifest := manifest ++ d.manifest.drop v.manifestLen
      verzeichnis := some v
      phase := .bild }, ?_, rfl, rfl, ?_⟩
  · unfold dokumenteLesen
    dsimp only
    rw [pufferFuellen_of_ok heintrag.2.1 heintrag.2.2]
    dsimp only
    rw [pufferFuellen_of_ok hbild.2.1 hbild.2.2]
    dsimp only
    rw [pufferFuellen_of_ok hmanifest.2.1 hmanifest.2.2]
  · unfold dokumente
    rw [hs, Option.bind_some, Option.bind_some, hslice heintrag.1, Option.bind_some,
      hslice hbild.1, Option.bind_some, hslice hmanifest.1, Option.map_some]

theorem slice_zero_eq {b x : List UInt8} {n : Nat} (h : slice b 0 n = some x) :
    slice b 0 x.length = some x := by
  rw [slice_length h]
  exact h

theorem pruefen_of_ok {schluessel pubkey eintrag bild manifest : List UInt8} {s : PartSichtung}
    {summe : PruefSumme F} (hphase : d.phase = .bild)
    (hdok : d.dokumente = some (s, eintrag, bild, manifest))
    (h : dokumentePruefen A expectedMachine s eintrag bild manifest schluessel pubkey = .ok summe) :
    d.pruefen A expectedMachine schluessel pubkey =
      (.ok summe, { d with summe := some summe, phase := .geprueft }) := by
  rw [pruefen, if_neg (not_not.mpr hphase), hdok]
  dsimp only
  rw [h]

theorem pruefen_spec {schluessel pubkey : List UInt8} {r : Except LadeFehler (PruefSumme F)}
    (h : d.pruefen A expectedMachine schluessel pubkey = (r, d')) :
    (∃ e, r = .error e ∧ d' = d) ∨
      ∃ p : Pruefung F, r = .ok p.summe ∧ d' = { d with summe := some p.summe, phase := .geprueft } ∧
        d.dokumente = some (p.sichtung, p.eintrag, p.bild, p.manifest) ∧
        p.schluessel = schluessel ∧ p.pubkey = pubkey ∧ p.Gilt A expectedMachine := by
  unfold pruefen at h
  by_cases hphase : d.phase = .bild
  · rw [if_neg (not_not.mpr hphase)] at h
    cases hdok : d.dokumente with
    | none =>
      rw [hdok] at h
      cases h
      exact .inl ⟨_, rfl, rfl⟩
    | some x =>
      obtain ⟨s, eintrag, bild, manifest⟩ := x
      rw [hdok] at h
      dsimp only at h
      cases hsumme : dokumentePruefen A expectedMachine s eintrag bild manifest schluessel pubkey with
      | error e =>
        rw [hsumme] at h
        cases h
        exact .inl ⟨e, rfl, rfl⟩
      | ok summe =>
        rw [hsumme] at h
        cases h
        exact .inr ⟨⟨s, eintrag, bild, manifest, schluessel, pubkey, summe⟩, rfl, rfl, rfl, rfl,
          rfl, dokumentePruefen_eq_ok hsumme⟩
  · rw [if_pos hphase] at h
    cases h
    exact .inl ⟨_, rfl, rfl⟩

/-- The service stands as it stood after the check `p`. -/
structure Steht (d : LadeDienst F) (p : Pruefung F) : Prop where
  sichtung : d.sichtung = some p.sichtung
  summe : d.summe = some p.summe
  eintrag : slice d.eintrag 0 p.summe.eintragLen = some p.eintrag
  bild : slice d.bild 0 p.summe.bildLen = some p.bild
  manifest : slice d.manifest 0 p.summe.manifestLen = some p.manifest

theorem steht_of_dokumente {p : Pruefung F} (hp : p.Gilt A expectedMachine)
    (h : d.dokumente = some (p.sichtung, p.eintrag, p.bild, p.manifest)) :
    ({ d with summe := some p.summe, phase := .geprueft } : LadeDienst F).Steht p := by
  obtain ⟨v, -, h⟩ := Option.bind_eq_some_iff.mp h
  obtain ⟨s, hs, h⟩ := Option.bind_eq_some_iff.mp h
  obtain ⟨eintrag, heintrag, h⟩ := Option.bind_eq_some_iff.mp h
  obtain ⟨bild, hbild, h⟩ := Option.bind_eq_some_iff.mp h
  obtain ⟨manifest, hmanifest, htuple⟩ := Option.map_eq_some_iff.mp h
  cases htuple
  exact
    { sichtung := hs
      summe := rfl
      eintrag := hp.laengen.2.2 ▸ slice_zero_eq heintrag
      bild := hp.laengen.1 ▸ slice_zero_eq hbild
      manifest := hp.laengen.2.1 ▸ slice_zero_eq hmanifest }

theorem uebergabe_eq_ok {u : Uebergabe} (h : d.uebergabe = .ok u) :
    d.phase = .geprueft ∧ d.hatLoaderCap = true ∧
      ∀ p, d.Steht p → u = ⟨p.bild, p.manifest, p.eintrag, p.summe.art⟩ := by
  obtain ⟨hphase, h⟩ := ite_error_eq_ok.mp h
  obtain ⟨hcap, h⟩ := ite_error_eq_ok.mp h
  obtain ⟨s, hs, h⟩ := bind_eq_ok.mp h
  obtain ⟨bild, hbild, h⟩ := bind_eq_ok.mp h
  obtain ⟨manifest, hmanifest, h⟩ := bind_eq_ok.mp h
  obtain ⟨eintrag, heintrag, rfl⟩ := ok_of_map h
  rw [okOr_eq_ok] at hs hbild hmanifest heintrag
  refine ⟨not_not.mp hphase, Bool.eq_true_of_not_eq_false hcap, fun p hp => ?_⟩
  obtain rfl : s = p.summe := Option.some.inj (hs.symm.trans hp.summe)
  obtain rfl : bild = p.bild := Option.some.inj (hbild.symm.trans hp.bild)
  obtain rfl : manifest = p.manifest := Option.some.inj (hmanifest.symm.trans hp.manifest)
  obtain rfl : eintrag = p.eintrag := Option.some.inj (heintrag.symm.trans hp.eintrag)
  rfl

theorem Steht.uebergabe {p : Pruefung F} (h : d.Steht p) (hphase : d.phase = .geprueft)
    (hcap : d.hatLoaderCap = true) :
    d.uebergabe = .ok ⟨p.bild, p.manifest, p.eintrag, p.summe.art⟩ := by
  rw [LadeDienst.uebergabe, if_neg (not_not.mpr hphase), hcap, if_neg Bool.true_eq_false.mp, h.summe]
  simp only [okOr, Except.bind, h.bild, h.manifest, h.eintrag]
  rfl

theorem uebergabe_of_ok {schluessel pubkey eintrag bild manifest : List UInt8} {s : PartSichtung}
    {summe : PruefSumme F} (hcap : d.hatLoaderCap = true)
    (hdok : d.dokumente = some (s, eintrag, bild, manifest))
    (h : dokumentePruefen A expectedMachine s eintrag bild manifest schluessel pubkey = .ok summe) :
    ({ d with summe := some summe, phase := .geprueft } : LadeDienst F).uebergabe =
      .ok ⟨bild, manifest, eintrag, summe.art⟩ := by
  have hsteht := steht_of_dokumente (dokumentePruefen_eq_ok h) hdok
  exact hsteht.uebergabe rfl hcap

theorem anstossen_spec {ctx : AnstossKontext} {p p' : P} {r : Except LadeFehler Nat}
    (h : d.anstossen anstoss ctx p = (r, d', p')) :
    (∃ e, r = .error e ∧ d' = d) ∨ ∃ pd, r = .ok pd ∧
      d' = { d with pdId := some pd, phase := .geladen } := by
  unfold anstossen at h
  cases hu : d.uebergabe with
  | error e =>
    rw [hu] at h
    cases h
    exact .inl ⟨e, rfl, rfl⟩
  | ok u =>
    rw [hu] at h
    dsimp only at h
    rcases hl : anstoss.ladeBild p ctx u with ⟨r', p₁⟩
    rw [hl] at h
    cases r' with
    | error e =>
      cases h
      exact .inl ⟨e, rfl, rfl⟩
    | ok pd =>
      cases h
      exact .inr ⟨pd, rfl, rfl⟩

end LadeDienst

/-- One call, with what matters of its outcome.  A call that reads has the source before and
after; a check has the documents it looked at, a hand-over what it passed on. -/
inductive Ereignis (F Q : Type) where
  | suchen (r : Except LadeFehler PartSichtung) (vor nach : Q)
  | bildLesen (r : Except LadeFehler Unit) (vor nach : Q)
  | pruefen (schluessel pubkey : List UInt8)
      (dokumente : Option (PartSichtung × List UInt8 × List UInt8 × List UInt8))
      (r : Except LadeFehler (PruefSumme F))
  | anstossen (u : Except LadeFehler Uebergabe) (r : Except LadeFehler Nat)
  | zuruecksetzen

structure Lauf (F Q P : Type) where
  dienst : LadeDienst F
  quelle : Q
  anstoss : P
  protokoll : List (Ereignis F Q)

inductive Aufruf where
  | suchen (index : Nat)
  | bildLesen
  | pruefen (schluessel pubkey : List UInt8)
  | anstossen (ctx : AnstossKontext)
  | laden (ctx : AnstossKontext) (schluessel pubkey : List UInt8) (index : Nat)
  | zuruecksetzen
  deriving DecidableEq

namespace Lauf

variable (A : Gleitkomma F) (expectedMachine : Nat) (quelle : BlockQuelle Q) (anstoss : LadeAnstoss P)

def notiert (L : Lauf F Q P) (x : Ereignis F Q) : Lauf F Q P :=
  { L with protokoll := L.protokoll ++ [x] }

def suchen (index : Nat) (L : Lauf F Q P) : Bool × Lauf F Q P :=
  match L.dienst.suchen quelle index L.quelle with
  | (r, d, q) => (r.isOk, { L with dienst := d, quelle := q }.notiert (.suchen r L.quelle q))

def bildLesen (L : Lauf F Q P) : Bool × Lauf F Q P :=
  match L.dienst.bildLesen quelle L.quelle with
  | (r, d, q) => (r.isOk, { L with dienst := d, quelle := q }.notiert (.bildLesen r L.quelle q))

def pruefen (schluessel pubkey : List UInt8) (L : Lauf F Q P) : Bool × Lauf F Q P :=
  match L.dienst.pruefen A expectedMachine schluessel pubkey with
  | (r, d) =>
      (r.isOk, { L with dienst := d }.notiert (.pruefen schluessel pubkey L.dienst.dokumente r))

def anstossen (ctx : AnstossKontext) (L : Lauf F Q P) : Bool × Lauf F Q P :=
  match L.dienst.anstossen anstoss ctx L.anstoss with
  | (r, d, p) =>
      (r.isOk, { L with dienst := d, anstoss := p }.notiert (.anstossen L.dienst.uebergabe r))

/-- `?`: the next step, if this one succeeded. -/
def dann (f : Lauf F Q P → Bool × Lauf F Q P) (x : Bool × Lauf F Q P) : Bool × Lauf F Q P :=
  if x.1 then f x.2 else x

def schritt (L : Lauf F Q P) : Aufruf → Lauf F Q P
  | .suchen index => (L.suchen quelle index).2
  | .bildLesen => (L.bildLesen quelle).2
  | .pruefen schluessel pubkey => (L.pruefen A expectedMachine schluessel pubkey).2
  | .anstossen ctx => (L.anstossen anstoss ctx).2
  | .laden ctx schluessel pubkey index =>
      (dann (anstossen anstoss ctx) (dann (pruefen A expectedMachine schluessel pubkey)
        (dann (bildLesen quelle) (L.suchen quelle index)))).2
  | .zuruecksetzen => { L with dienst := L.dienst.zuruecksetzen }.notiert .zuruecksetzen

def start (hatLoaderCap : Bool) (q : Q) (p : P) : Lauf F Q P := ⟨.neu hatLoaderCap, q, p, []⟩

def lauf (L : Lauf F Q P) (aufrufe : List Aufruf) : Lauf F Q P :=
  aufrufe.foldl (schritt A expectedMachine quelle anstoss) L

end Lauf

namespace Ereignis

def Folgenlos : Ereignis F Q → Prop
  | suchen r _ _ => ∃ e, r = .error e
  | bildLesen r vor nach => (∃ e, r = .error e) ∧ nach = vor
  | pruefen _ _ _ r => ∃ e, r = .error e
  | anstossen _ r => ∃ e, r = .error e
  | zuruecksetzen => False

def OhneLesen : Ereignis F Q → Prop
  | suchen _ vor nach => nach = vor
  | bildLesen _ vor nach => nach = vor
  | _ => True

def gefunden (s : Option PartSichtung) : Ereignis F Q → Option PartSichtung
  | suchen (.ok s) _ _ => some s
  | zuruecksetzen => none
  | _ => s

end Ereignis

def Pruefung.ereignis (p : Pruefung F) : Ereignis F Q :=
  .pruefen p.schluessel p.pubkey (some (p.sichtung, p.eintrag, p.bild, p.manifest)) (.ok p.summe)

/-- `u` is what the check `p`, the last that passed in `log`, looked at; what came after it was
`Zwischen`. -/
structure Gedeckt (A : Gleitkomma F) (expectedMachine : Nat) (Zwischen : Ereignis F Q → Prop)
    (log : List (Ereignis F Q)) (u : Uebergabe) (p : Pruefung F) : Prop where
  letzte : ∃ davor mid, log = davor ++ p.ereignis :: mid ∧ (∀ x ∈ mid, x.Folgenlos ∧ Zwischen x) ∧
    davor.foldl Ereignis.gefunden none = some p.sichtung
  gilt : p.Gilt A expectedMachine
  eintrag : u.eintrag = p.eintrag
  bild : u.bild = p.bild
  manifest : u.manifest = p.manifest
  art : u.art = p.summe.art

def NurGeprueft (A : Gleitkomma F) (expectedMachine : Nat) (Zwischen : Ereignis F Q → Prop)
    (hatLoaderCap : Bool) (log : List (Ereignis F Q)) : Prop :=
  ∀ pre u r post, log = pre ++ .anstossen (.ok u) r :: post →
    hatLoaderCap = true ∧ ∃ p, Gedeckt A expectedMachine Zwischen pre u p

theorem Ereignis.gefunden_of_folgenlos {x : Ereignis F Q} (h : x.Folgenlos)
    (s : Option PartSichtung) : Ereignis.gefunden s x = s := by
  cases x with
  | suchen r vor nach =>
    obtain ⟨e, rfl⟩ := h
    rfl
  | bildLesen r vor nach | pruefen schluessel pubkey dokumente r | anstossen u r => rfl
  | zuruecksetzen => cases h

theorem NurGeprueft.append {Zwischen : Ereignis F Q → Prop} {cap : Bool} {log : List (Ereignis F Q)}
    (h : NurGeprueft A expectedMachine Zwischen cap log) {x : Ereignis F Q}
    (hx : ∀ u r, x = .anstossen (.ok u) r →
      cap = true ∧ ∃ p, Gedeckt A expectedMachine Zwischen log u p) :
    NurGeprueft A expectedMachine Zwischen cap (log ++ [x]) := by
  intro pre u r post heq
  rcases List.eq_nil_or_concat post with rfl | ⟨post', y, rfl⟩
  · obtain ⟨rfl, hlast⟩ := List.append_inj' heq rfl
    exact hx u r (List.cons.inj hlast).1
  · have hsplit : log ++ [x] = (pre ++ .anstossen (.ok u) r :: post') ++ [y] := by
      rw [heq, List.concat_eq_append, List.append_assoc, List.cons_append]
    exact h pre u r post' (List.append_inj' hsplit rfl).1

namespace Lauf

/-- The invariant of runs: in the phase after a check, the service stands as after the last check
that passed, and nothing has come of the calls since. -/
structure Inv (A : Gleitkomma F) (expectedMachine : Nat) (cap : Bool) (L : Lauf F Q P) : Prop where
  cap_eq : L.dienst.hatLoaderCap = cap
  sichtung : L.protokoll.foldl Ereignis.gefunden none = L.dienst.sichtung
  steht : L.dienst.phase = .geprueft → ∃ p : Pruefung F, L.dienst.Steht p ∧
    p.Gilt A expectedMachine ∧ ∃ davor mid, L.protokoll = davor ++ p.ereignis :: mid ∧
      (∀ x ∈ mid, x.Folgenlos) ∧ davor.foldl Ereignis.gefunden none = some p.sichtung
  geprueft : NurGeprueft A expectedMachine (fun _ => True) cap L.protokoll

variable {quelle : BlockQuelle Q} {anstoss : LadeAnstoss P} {cap : Bool} {L : Lauf F Q P}

theorem Inv.start (cap : Bool) (q : Q) (p : P) :
    (start cap q p : Lauf F Q P).Inv A expectedMachine cap where
  cap_eq := rfl
  sichtung := rfl
  steht := fun h => by cases h
  geprueft := by
    intro pre u r post h
    cases pre with
    | nil | cons x pre => cases h

namespace Inv

theorem gedeckt (hi : L.Inv A expectedMachine cap) {u : Uebergabe} (h : L.dienst.uebergabe = .ok u) :
    cap = true ∧ ∃ p, Gedeckt A expectedMachine (fun _ => True) L.protokoll u p := by
  obtain ⟨hphase, hcap, hdok⟩ := LadeDienst.uebergabe_eq_ok h
  obtain ⟨p, hp, hgilt, davor, mid, hlog, hmid, hsicht⟩ := hi.steht hphase
  have hu := hdok p hp
  refine ⟨hi.cap_eq ▸ hcap, p, ⟨davor, mid, hlog, fun x hx => ⟨hmid x hx, trivial⟩, hsicht⟩, hgilt,
    ?_, ?_, ?_, ?_⟩
  all_goals rw [hu]

theorem foldl_append (hi : L.Inv A expectedMachine cap) (x : Ereignis F Q) :
    (L.protokoll ++ [x]).foldl Ereignis.gefunden none = Ereignis.gefunden L.dienst.sichtung x := by
  rw [List.foldl_append, hi.sichtung]
  rfl

theorem folgenlos (hi : L.Inv A expectedMachine cap) (x : Ereignis F Q) (hx : x.Folgenlos)
    (hu : ∀ u r, x = .anstossen (.ok u) r → L.dienst.uebergabe = .ok u) (q : Q) (p : P) :
    ({ L with quelle := q, anstoss := p }.notiert x : Lauf F Q P).Inv A expectedMachine cap where
  cap_eq := hi.cap_eq
  sichtung := (hi.foldl_append x).trans (Ereignis.gefunden_of_folgenlos hx _)
  steht := by
    intro hphase
    obtain ⟨s, hs, hgilt, davor, mid, hlog, hmid, hsicht⟩ := hi.steht hphase
    refine ⟨s, hs, hgilt, davor, mid ++ [x], ?_, fun y hy => ?_, hsicht⟩
    · change L.protokoll ++ [x] = _
      rw [hlog, List.append_assoc, List.cons_append]
    · rcases List.mem_append.mp hy with hy | hy
      · exact hmid y hy
      · rw [List.mem_singleton.mp hy]
        exact hx
  geprueft := hi.geprueft.append fun u r heq => hi.gedeckt (hu u r heq)

theorem weg (hi : L.Inv A expectedMachine cap) (x : Ereignis F Q) (d : LadeDienst F)
    (hcap : d.hatLoaderCap = L.dienst.hatLoaderCap) (hphase : d.phase ≠ .geprueft)
    (hsicht : Ereignis.gefunden L.dienst.sichtung x = d.sichtung)
    (hu : ∀ u r, x = .anstossen (.ok u) r → L.dienst.uebergabe = .ok u) (q : Q) (p : P) :
    (notiert ⟨d, q, p, L.protokoll⟩ x).Inv A expectedMachine cap where
  cap_eq := hcap.trans hi.cap_eq
  sichtung := (hi.foldl_append x).trans hsicht
  steht := fun h => absurd h hphase
  geprueft := hi.geprueft.append fun u r heq => hi.gedeckt (hu u r heq)

theorem suchen (hi : L.Inv A expectedMachine cap) (index : Nat) :
    (L.suchen quelle index).2.Inv A expectedMachine cap := by
  unfold Lauf.suchen
  rcases hs : L.dienst.suchen quelle index L.quelle with ⟨r, d, q⟩
  rcases LadeDienst.suchen_spec hs with ⟨e, rfl, rfl⟩ | ⟨s, rfl, rfl⟩
  · exact hi.folgenlos (.suchen (.error e) L.quelle q) ⟨e, rfl⟩ (fun u r h => by cases h) q L.anstoss
  · exact hi.weg (.suchen (.ok s) L.quelle q)
      { L.dienst with sichtung := some s, phase := .verzeichnis } rfl Phase.noConfusion rfl
      (fun u r h => by cases h) q L.anstoss

theorem bildLesen (hi : L.Inv A expectedMachine cap) :
    (L.bildLesen quelle).2.Inv A expectedMachine cap := by
  unfold Lauf.bildLesen
  rcases hs : L.dienst.bildLesen quelle L.quelle with ⟨r, d, q⟩
  obtain ⟨hsicht, hcap, hcase⟩ := LadeDienst.bildLesen_spec hs
  rcases hcase with ⟨hr, rfl, rfl⟩ | ⟨-, hphase⟩
  · exact hi.folgenlos (.bildLesen r L.quelle L.quelle) ⟨hr, rfl⟩ (fun u r h => by cases h) L.quelle
      L.anstoss
  · refine hi.weg (.bildLesen r L.quelle q) d hcap (fun h => ?_) hsicht.symm
      (fun u r h => by cases h) q L.anstoss
    rw [h] at hphase
    rcases hphase with hphase | hphase <;> cases hphase

theorem pruefen (hi : L.Inv A expectedMachine cap) (schluessel pubkey : List UInt8) :
    (L.pruefen A expectedMachine schluessel pubkey).2.Inv A expectedMachine cap := by
  unfold Lauf.pruefen
  rcases hs : L.dienst.pruefen A expectedMachine schluessel pubkey with ⟨r, d⟩
  rcases LadeDienst.pruefen_spec hs with ⟨e, rfl, rfl⟩ | ⟨p, rfl, rfl, hdok, rfl, rfl, hgilt⟩
  · exact hi.folgenlos (.pruefen schluessel pubkey L.dienst.dokumente (.error e)) ⟨e, rfl⟩
      (fun u r h => by cases h) L.quelle L.anstoss
  · have hsteht := LadeDienst.steht_of_dokumente hgilt hdok
    refine ⟨hi.cap_eq, hi.foldl_append _, fun _ => ⟨p, hsteht, hgilt, L.protokoll, [], ?_, ?_, ?_⟩,
      hi.geprueft.append fun u r h => by cases h⟩
    · exact congrArg (fun x => L.protokoll ++ [Ereignis.pruefen p.schluessel p.pubkey x (.ok p.summe)])
        hdok
    · intro x hx
      cases hx
    · exact hi.sichtung.trans hsteht.sichtung

theorem anstossen (hi : L.Inv A expectedMachine cap) (ctx : AnstossKontext) :
    (L.anstossen anstoss ctx).2.Inv A expectedMachine cap := by
  unfold Lauf.anstossen
  rcases hs : L.dienst.anstossen anstoss ctx L.anstoss with ⟨r, d, p⟩
  have hu : ∀ u r', Ereignis.anstossen L.dienst.uebergabe r = (.anstossen (.ok u) r' : Ereignis F Q) →
      L.dienst.uebergabe = .ok u := fun u r' h => (Ereignis.anstossen.inj h).1
  rcases LadeDienst.anstossen_spec hs with ⟨e, rfl, rfl⟩ | ⟨pd, rfl, rfl⟩
  · exact hi.folgenlos (.anstossen L.dienst.uebergabe (.error e)) ⟨e, rfl⟩ hu L.quelle p
  · exact hi.weg (.anstossen L.dienst.uebergabe (.ok pd))
      { L.dienst with pdId := some pd, phase := .geladen } rfl Phase.noConfusion rfl hu L.quelle p

theorem zuruecksetzen (hi : L.Inv A expectedMachine cap) :
    ({ L with dienst := L.dienst.zuruecksetzen }.notiert .zuruecksetzen : Lauf F Q P).Inv A
      expectedMachine cap :=
  hi.weg .zuruecksetzen L.dienst.zuruecksetzen rfl Phase.noConfusion rfl (fun u r h => by cases h)
    L.quelle L.anstoss

theorem dann {f : Lauf F Q P → Bool × Lauf F Q P} {x : Bool × Lauf F Q P}
    (hf : ∀ L, L.Inv A expectedMachine cap → (f L).2.Inv A expectedMachine cap)
    (hx : x.2.Inv A expectedMachine cap) : (Lauf.dann f x).2.Inv A expectedMachine cap := by
  unfold Lauf.dann
  split
  · exact hf _ hx
  · exact hx

theorem schritt (hi : L.Inv A expectedMachine cap) (a : Aufruf) :
    (L.schritt A expectedMachine quelle anstoss a).Inv A expectedMachine cap := by
  cases a with
  | suchen index => exact hi.suchen index
  | bildLesen => exact hi.bildLesen
  | pruefen schluessel pubkey => exact hi.pruefen schluessel pubkey
  | anstossen ctx => exact hi.anstossen ctx
  | zuruecksetzen => exact hi.zuruecksetzen
  | laden ctx schluessel pubkey index =>
    apply dann fun L hL => hL.anstossen ctx
    apply dann fun L hL => hL.pruefen schluessel pubkey
    apply dann fun L hL => hL.bildLesen
    exact hi.suchen index

theorem lauf (hi : L.Inv A expectedMachine cap) (aufrufe : List Aufruf) :
    (L.lauf A expectedMachine quelle anstoss aufrufe).Inv A expectedMachine cap := by
  unfold Lauf.lauf
  induction aufrufe generalizing L with
  | nil => exact hi
  | cons a aufrufe ih => exact ih (hi.schritt a)

end Inv

/-- Whatever is called, and whatever source and hand-over answer: what `lade_bild` gets is what the
last check that passed has looked at, all its checks hold of it, and nothing has filled the buffers
since. -/
theorem lauf_nurGeprueft (A : Gleitkomma F) (expectedMachine : Nat) (quelle : BlockQuelle Q)
    (anstoss : LadeAnstoss P) (hatLoaderCap : Bool) (q : Q) (p : P) (aufrufe : List Aufruf) :
    NurGeprueft A expectedMachine (fun _ => True) hatLoaderCap
      ((start hatLoaderCap q p).lauf A expectedMachine quelle anstoss aufrufe).protokoll :=
  ((Inv.start hatLoaderCap q p).lauf aufrufe).geprueft

theorem lauf_append (L : Lauf F Q P) (xs ys : List Aufruf) :
    L.lauf A expectedMachine quelle anstoss (xs ++ ys) =
      (L.lauf A expectedMachine quelle anstoss xs).lauf A expectedMachine quelle anstoss ys :=
  List.foldl_append

theorem lauf_suchen_anstossen (L : Lauf F Q P) (index : Nat) (ctx : AnstossKontext) :
    L.lauf A expectedMachine quelle anstoss [.suchen index, .anstossen ctx] =
      ((L.suchen quelle index).2.anstossen anstoss ctx).2 :=
  rfl

theorem protokoll_suchen (quelle : BlockQuelle Q) (L : Lauf F Q P) (index : Nat) :
    ∃ r, (L.suchen quelle index).2.protokoll =
      L.protokoll ++ [.suchen r L.quelle (L.suchen quelle index).2.quelle] :=
  ⟨_, rfl⟩

theorem protokoll_anstossen (anstoss : LadeAnstoss P) (L : Lauf F Q P) (ctx : AnstossKontext) :
    ∃ r, (L.anstossen anstoss ctx).2.protokoll =
      L.protokoll ++ [.anstossen L.dienst.uebergabe r] :=
  ⟨_, rfl⟩

theorem not_ohneLesen {log : List (Ereignis F Q)} {s : Except LadeFehler PartSichtung} {vor nach : Q}
    {u : Uebergabe} {r : Except LadeFehler Nat} (hne : nach ≠ vor) :
    ¬ NurGeprueft A expectedMachine Ereignis.OhneLesen cap
      (log ++ [.suchen s vor nach] ++ [.anstossen (.ok u) r]) := by
  intro h
  obtain ⟨-, p, ⟨davor, mid, hlog, hmid, -⟩, -⟩ := h _ u r [] rfl
  rcases List.eq_nil_or_concat mid with rfl | ⟨mid', y, rfl⟩
  · obtain ⟨-, hlast⟩ := List.append_inj' hlog rfl
    cases (List.cons.inj hlast).1
  · have hsplit : log ++ [.suchen s vor nach] = (davor ++ p.ereignis :: mid') ++ [y] := by
      rw [hlog, List.concat_eq_append, List.append_assoc, List.cons_append]
    obtain rfl := (List.cons.inj (List.append_inj' hsplit rfl).2).1
    exact hne (hmid (.suchen s vor nach) (by simp)).2

theorem lauf_suchen_lesen_pruefen {L : Lauf F Q P} {index : Nat} {schluessel pubkey : List UInt8}
    {d₁ d₂ d₃ : LadeDienst F} {q₁ q₂ : Q} {r₁ : Except LadeFehler PartSichtung}
    {r₂ : Except LadeFehler Unit} {r₃ : Except LadeFehler (PruefSumme F)}
    (hsuchen : L.dienst.suchen quelle index L.quelle = (r₁, d₁, q₁))
    (hlesen : d₁.bildLesen quelle q₁ = (r₂, d₂, q₂))
    (hpruefen : d₂.pruefen A expectedMachine schluessel pubkey = (r₃, d₃)) :
    (L.lauf A expectedMachine quelle anstoss
      [.suchen index, .bildLesen, .pruefen schluessel pubkey]).dienst = d₃ ∧
    (L.lauf A expectedMachine quelle anstoss
      [.suchen index, .bildLesen, .pruefen schluessel pubkey]).quelle = q₂ := by
  have hsearch : (L.suchen quelle index).2 =
      ⟨d₁, q₁, L.anstoss, L.protokoll ++ [.suchen r₁ L.quelle q₁]⟩ := by
    rw [suchen, hsuchen]
    rfl
  have hread : ((L.suchen quelle index).2.bildLesen quelle).2 = ⟨d₂, q₂, L.anstoss,
      L.protokoll ++ [.suchen r₁ L.quelle q₁] ++ [.bildLesen r₂ q₁ q₂]⟩ := by
    rw [hsearch, bildLesen, hlesen]
    rfl
  have hrun : L.lauf A expectedMachine quelle anstoss
      [.suchen index, .bildLesen, .pruefen schluessel pubkey] =
        (((L.suchen quelle index).2.bildLesen quelle).2.pruefen A expectedMachine schluessel
          pubkey).2 := rfl
  rw [hrun, hread, pruefen, hpruefen]
  exact ⟨rfl, rfl⟩

theorem suchen_of_error {L : Lauf F Q P} {index : Nat} {e : LadeFehler} {q : Q}
    (h : partitionSuchen quelle index L.quelle = (.error e, q)) :
    (L.suchen quelle index).2.dienst = L.dienst ∧ (L.suchen quelle index).2.quelle = q := by
  rw [suchen, LadeDienst.suchen, h]
  exact ⟨rfl, rfl⟩

end Lauf

/-- A disk with one driver partition, of four sectors: directory, entry, image and manifest. -/
def platte : Nat → List UInt8
  | 1 => Part.signature ++ leBytes 4 0x10000 ++ leBytes 4 92 ++ leBytes 4 3037938041 ++ leBytes 4 0 ++
      leBytes 8 1 ++ leBytes 8 0 ++ leBytes 8 3 ++ leBytes 8 6 ++ List.replicate 16 0 ++ leBytes 8 2 ++
      leBytes 4 1 ++ leBytes 4 128 ++ leBytes 4 1461755448
  | 2 => lxpdPartGuid ++ (List.replicate 15 0 ++ [1]) ++ leBytes 8 3 ++ leBytes 8 6
  | 3 => verzeichnisMagic ++ leBytes 4 279 ++ leBytes 4 25 ++ leBytes 4 165
  | 4 => ascii ("\x7b\"schema_version\":1,\"driver\":\"e\",\"api_version\":\"X1\"," ++
      "\"source\":\x7b\"kind\":\"disk\",\"part_guid\":\"00000000000000000000000000000001\"\x7d," ++
      "\"image_hash\":\"985246d4262362d9daa2a97aebd16b937cbe24ddee3f2a8781aee67a0266f453\"," ++
      "\"key_id\":\"4bb06f8e4e3a7715d201d573d0aa4237\",\"signature\":\"42a788b82e7eeb94\"\x7d")
  | 5 => container 0 []
  | 6 => ascii ("\x7b\"driver\":\"e\",\"coverage_pct\":100,\"irq_vector\":9,\"schema_version\":1," ++
      "\"grants_bar\":[\x7b\"size\":4\x7d],\"dma_window\":\x7b\"size\":8\x7d,\"trampolines\":[]," ++
      "\"signature\":\"16ab53e18f27dc77\"\x7d")
  | _ => []

def plattenSektor (lba : Nat) : List UInt8 :=
  platte lba ++ List.replicate (sektor - (platte lba).length) 0

/-- The disk answers; its state counts the reads. -/
def plattenQuelle : BlockQuelle Nat where
  info q := (.ok ⟨7, 8⟩, q)
  lesen q lba n puffer :=
    (.ok n, (((List.range n).flatMap fun i => plattenSektor (lba + i)) ++ puffer).take puffer.length,
      q + 1)
  laenge q lba n puffer := by
    dsimp only
    rw [List.length_take, List.length_append]
    omega

def annahme : LadeAnstoss Nat where
  ladeBild p _ _ := (.ok p, p + 1)

def geprueft : List Aufruf :=
  [.suchen 0, .bildLesen, .pruefen (ascii "deadbeef") (List.replicate 32 7)]

def geprueftLauf : Lauf ℚ Nat Nat :=
  (Lauf.start true 0 0).lauf genau Loader.Elf.emX86_64 plattenQuelle annahme geprueft

theorem leseExakt_platte {lba : Nat} (hpos : 0 < (platte lba).length)
    (hlen : (platte lba).length < sektor) (hlba : lba < 7) (q : Nat) :
    leseExakt plattenQuelle 7 lba (List.replicate (platte lba).length 0) q =
      (.ok (), platte lba, q + 1) := by
  have hone : ceilDiv (platte lba).length stueckBytes = 1 := by
    unfold ceilDiv stueckBytes
    unfold sektor at hlen
    omega
  have hsektor : stueckSektoren (platte lba).length = 1 := by
    unfold stueckSektoren ceilDiv maxSektorenJeAnfrage
    unfold sektor at hlen ⊢
    omega
  have hadd : checkedAdd 1 lba = some (1 + lba) := by
    rw [checkedAdd, if_pos (by omega)]
  have hlesen : (((List.range 1).flatMap fun i => plattenSektor (lba + i)) ++
      List.replicate (1 * sektor) 0).take (List.replicate (1 * sektor) (0 : UInt8)).length =
        plattenSektor lba := by
    have hall : (plattenSektor lba).length = sektor := by
      unfold plattenSektor
      rw [List.length_append, List.length_replicate]
      omega
    rw [List.range_one, List.flatMap_singleton, Nat.add_zero, List.length_replicate, Nat.one_mul,
      ← hall, List.take_left]
  have hstueck : leseStueck plattenQuelle 7 lba 1 (List.replicate (platte lba).length 0) q =
      (.ok (), platte lba, q + 1) := by
    unfold leseStueck
    rw [hadd]
    dsimp only
    rw [if_neg (by omega), if_neg (by rw [List.length_replicate]; omega)]
    unfold plattenQuelle
    dsimp only
    rw [hlesen, if_neg (not_not.mpr rfl), plattenSektor, List.length_replicate, List.take_left]
  unfold leseExakt
  rw [List.length_replicate, hone, leseStuecke, List.length_replicate, hsektor, hstueck]
  dsimp only
  rw [List.drop_of_length_le (by omega), leseStuecke,
    List.take_of_length_le (by omega), List.append_nil]

def plattenPartition : PartSichtung := ⟨3, 4, List.replicate 15 0 ++ [1], 0⟩

/-- What is computed of the disk: its documents, the two searches and the directory. -/
theorem platten_tafel : ((platte 4).length = 279 ∧ (platte 6).length = 165 ∧
      (dokumentePruefen genau Loader.Elf.emX86_64 plattenPartition (platte 4) (platte 5)
        (platte 6) (ascii "deadbeef") (List.replicate 32 7)).isOk = true) ∧
    partitionSuchen plattenQuelle 0 0 = (.ok plattenPartition, 3) ∧
    partitionSuchen plattenQuelle 1 7 = (.error .keineLxpdPartition, 10) ∧
    leseExakt plattenQuelle 7 3 (List.replicate sektor 0) 3 = (.ok (), plattenSektor 3, 4) ∧
    parseVerzeichnis (plattenSektor 3) 4 = .ok ⟨279, 25, 165⟩ ∧ (platte 5).length = 25 := by
  refine ⟨?_, by decide +kernel⟩
  have heintrag : platte 4 = ascii (_ ++ _ ++ _ ++ _) := rfl
  have hmanifest : platte 6 = ascii (_ ++ _ ++ _) := rfl
  have hschluessel : ascii "deadbeef" = _ := ascii_ofList _
  rw [ascii_append, ascii_append, ascii_append, ascii_ofList, ascii_ofList, ascii_ofList,
    ascii_ofList] at heintrag
  rw [ascii_append, ascii_append, ascii_ofList, ascii_ofList, ascii_ofList] at hmanifest
  rw [heintrag, hmanifest, hschluessel]
  decide +kernel

theorem bildLesen_platte : ∃ d : LadeDienst ℚ,
    ({ LadeDienst.neu true with
      sichtung := some plattenPartition, phase := .verzeichnis } : LadeDienst ℚ).bildLesen
        plattenQuelle 3 = (.ok (), d, 7) ∧ d.phase = .bild ∧ d.hatLoaderCap = true ∧
      d.dokumente = some (plattenPartition, platte 4, platte 5, platte 6) := by
  obtain ⟨⟨heintrag, hmanifest, -⟩, -, -, hsektor, hverzeichnis, hbild⟩ := platten_tafel
  have hread : ∀ {lba n m : Nat} (q : Nat), (platte lba).length = n → n ≤ m → 0 < n → n < sektor →
      lba < 7 → leseExakt plattenQuelle 7 lba ((List.replicate m 0).take n) q =
        (.ok (), platte lba, q + 1) := by
    rintro lba n m q rfl hle hpos hlt hlba
    rw [List.take_replicate, Nat.min_eq_left hle]
    exact leseExakt_platte hpos hlt hlba q
  have hroom : ∀ {n m : Nat}, n ≤ m → n ≤ (List.replicate m (0 : UInt8)).length :=
    fun hle => hle.trans_eq List.length_replicate.symm
  have hentry : 279 ≤ maxEintragBytes := by decide
  have himage : 25 ≤ maxBildBytes := by decide
  have hfacts : 165 ≤ maxManifestBytes := by decide
  obtain ⟨d, hd, hphase, hcap, hdok⟩ := LadeDienst.dokumenteLesen_of_ok (d := { LadeDienst.neu true
      with sichtung := some plattenPartition, phase := .verzeichnis }) (v := ⟨279, 25, 165⟩) rfl
    ⟨heintrag, hroom hentry, hread 4 heintrag hentry (by decide) (by decide) (by decide)⟩
    ⟨hbild, hroom himage, hread 5 hbild himage (by decide) (by decide) (by decide)⟩
    ⟨hmanifest, hroom hfacts, hread 6 hmanifest hfacts (by decide) (by decide) (by decide)⟩
  refine ⟨d, ?_, hphase, hcap, hdok⟩
  rw [LadeDienst.bildLesen]
  dsimp only
  rw [if_neg (not_not.mpr rfl)]
  have hinfo : infoHolen plattenQuelle 3 = (.ok ⟨7, 8⟩, 3) := rfl
  rw [hinfo]
  dsimp only
  have hsec : leseExakt plattenQuelle 7 plattenPartition.firstLba (List.replicate sektor 0) 3 =
      (.ok (), plattenSektor 3, 4) := hsektor
  rw [hsec]
  dsimp only
  have hdir : parseVerzeichnis (plattenSektor 3) plattenPartition.sektoren = .ok ⟨279, 25, 165⟩ :=
    hverzeichnis
  rw [hdir]
  exact hd

/-- There is no second partition: the search reads the table and fails, and the check stands. -/
theorem geprueftLauf_suchen : (geprueftLauf.suchen plattenQuelle 1).2.dienst.uebergabe.isOk = true ∧
    (geprueftLauf.suchen plattenQuelle 1).2.quelle ≠ geprueftLauf.quelle := by
  obtain ⟨d, hlesen, hphase, hcap, hdok⟩ := bildLesen_platte
  obtain ⟨⟨-, -, hgilt⟩, hsuche, hzweite, -⟩ := platten_tafel
  obtain ⟨summe, hsumme⟩ := exists_of_isOk hgilt
  have hsuchen : (LadeDienst.neu true : LadeDienst ℚ).suchen plattenQuelle 0 0 = (.ok plattenPartition,
      { LadeDienst.neu true with sichtung := some plattenPartition, phase := .verzeichnis }, 3) := by
    rw [LadeDienst.suchen, hsuche]
  have hpruefen := LadeDienst.pruefen_of_ok hphase hdok hsumme
  obtain ⟨hdienst, hquelle⟩ : geprueftLauf.dienst =
      { d with summe := some summe, phase := .geprueft } ∧ geprueftLauf.quelle = 7 :=
    Lauf.lauf_suchen_lesen_pruefen hsuchen hlesen hpruefen
  obtain ⟨hfehlt, hgelesen⟩ := Lauf.suchen_of_error (hquelle.symm ▸ hzweite)
  rw [hfehlt, hgelesen, hquelle, hdienst, LadeDienst.uebergabe_of_ok hcap hdok hsumme]
  exact ⟨rfl, by decide⟩

theorem lauf_suche_dazwischen :
    ¬ NurGeprueft genau Loader.Elf.emX86_64 Ereignis.OhneLesen true
      ((Lauf.start true 0 0).lauf genau Loader.Elf.emX86_64 plattenQuelle annahme
        (geprueft ++ [.suchen 1, .anstossen ⟨0, 0, 0, 0, 0, 0⟩])).protokoll := by
  obtain ⟨hok, hne⟩ := geprueftLauf_suchen
  obtain ⟨s, hs⟩ := Lauf.protokoll_suchen plattenQuelle geprueftLauf 1
  obtain ⟨r, hr⟩ := Lauf.protokoll_anstossen annahme (geprueftLauf.suchen plattenQuelle 1).2
    ⟨0, 0, 0, 0, 0, 0⟩
  rw [Lauf.lauf_append, ← geprueftLauf, Lauf.lauf_suchen_anstossen, hr, hs]
  cases hu : (geprueftLauf.suchen plattenQuelle 1).2.dienst.uebergabe with
  | error e =>
      rw [hu] at hok
      cases hok
  | ok u => exact Lauf.not_ohneLesen hne

end Caprock.Lxpd
