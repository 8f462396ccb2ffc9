import Caprock.Loader.Elf
import Caprock.Lxpd.DriverEntry
import Caprock.Part.Gpt

/-! # The loader service

`LadeDienst` brings a driver from a disk: it looks for a partition, reads entry, image and manifest
into fixed buffers, checks them and hands them over.  Block source and hand-over are traits; a
value of `BlockQuelle` or `LadeAnstoss` is any implementation, with its own state.

Block numbers are `u64`: sums that the code does not check wrap, as in a release build.
-/

namespace Caprock.Lxpd

open Bytes Word Checks

def sektor : Nat := 512
def maxSektorenJeAnfrage : Nat := 8
def stueckBytes : Nat := 4096
def maxBildBytes : Nat := 65536
def maxManifestBytes : Nat := 8192
def maxEintragBytes : Nat := 4096
def maxTreiberName : Nat := 64

def lxpdPartGuid : List UInt8 := ascii "LXPD-CAPROCK-DRV"
def verzeichnisMagic : List UInt8 := ascii "LXIMG2" ++ [0, 0]
def verzeichnisLen : Nat := 24

/-- The refusals of the service.  `Container` is split in two: `elfReady` refuses with variants of
`LxpdError` that the parsers of containers and documents do not have. -/
inductive LadeFehler where
  | keineKapazitaet
  | gptSignatur
  | gptRevision
  | gptKopfGroesse
  | gptKopfCrc
  | gptEintragGroesse
  | gptEintragZahl
  | gptEintraegeCrc
  | gptEintragZuGross
  | keineLxpdPartition
  | geraet
  | bereich
  | abgebrochen
  | verzeichnisKaputt
  | bildZuGross
  | manifestZuGross
  | eintragZuGross
  | bildHashWeichtAb
  | keinBildformat
  | container (e : LxpdError)
  | containerNotElf
  | containerLoader (e : Loader.Elf.LoaderError)
  | treiberMismatch
  | ungeprueft
  | keineLoaderCap
  | anstossAbgelehnt
  deriving DecidableEq, Repr

structure BlockInfo where
  kapazitaet : Nat
  maxJeAnfrage : Nat
  deriving DecidableEq, Repr

inductive BlockFehler where
  | geraet
  | bereich
  | abgebrochen
  deriving DecidableEq, Repr

def BlockFehler.lade : BlockFehler → LadeFehler
  | bereich => .bereich
  | abgebrochen => .abgebrochen
  | geraet => .geraet

/-- A block source.  `lesen` gets the buffer and may leave anything in it, of the same length,
whatever it answers. -/
structure BlockQuelle (Q : Type) where
  info : Q → Except BlockFehler BlockInfo × Q
  lesen : Q → Nat → Nat → List UInt8 → Except BlockFehler Nat × List UInt8 × Q
  laenge : ∀ q lba n puffer, (lesen q lba n puffer).2.1.length = puffer.length

structure AnstossKontext where
  loaderSlot : Nat
  bildSlot : Nat
  programmId : Nat
  delegListe : Nat
  delegAnzahl : Nat
  extras : Nat
  deriving DecidableEq, Repr

inductive BildArt where
  | lxpdContainer (stuetz : Nat)
  | elf
  deriving DecidableEq, Repr

/-- What a hand-over passes on. -/
structure Uebergabe where
  bild : List UInt8
  manifest : List UInt8
  eintrag : List UInt8
  art : BildArt
  deriving DecidableEq

/-- The hand-over: `lade_bild`. -/
structure LadeAnstoss (P : Type) where
  ladeBild : P → AnstossKontext → Uebergabe → Except LadeFehler Nat × P

structure BildVerzeichnis where
  eintragLen : Nat
  bildLen : Nat
  manifestLen : Nat
  deriving DecidableEq, Repr

def rdLen (d : List UInt8) (off : Nat) : Option Nat := (slice d off 4).map leNat

def ceilDiv (a b : Nat) : Nat := (a + b - 1) / b

def parseVerzeichnis (s : List UInt8) (partSektoren : Nat) : Except LadeFehler BildVerzeichnis :=
  if s.length < verzeichnisLen then .error .verzeichnisKaputt
  else if s.take 8 ≠ verzeichnisMagic then .error .verzeichnisKaputt
  else
    (okOr .verzeichnisKaputt (rdLen s 8)).bind fun eintragLen =>
    (okOr .verzeichnisKaputt (rdLen s 12)).bind fun bildLen =>
    (okOr .verzeichnisKaputt (rdLen s 16)).bind fun manifestLen =>
    (okOr .verzeichnisKaputt (rdLen s 20)).bind fun flags =>
    if flags ≠ 0 then .error .verzeichnisKaputt
    else if eintragLen = 0 then .error .verzeichnisKaputt
    else if maxEintragBytes < eintragLen then .error .eintragZuGross
    else if bildLen = 0 then .error .verzeichnisKaputt
    else if maxBildBytes < bildLen then .error .bildZuGross
    else if manifestLen = 0 then .error .verzeichnisKaputt
    else if maxManifestBytes < manifestLen then .error .manifestZuGross
    else
      (okOr .verzeichnisKaputt ((checkedAdd eintragLen bildLen).bind fun t =>
        checkedAdd t manifestLen)).bind fun gesamt =>
      (okOr .verzeichnisKaputt (checkedAdd (ceilDiv gesamt sektor) 1)).bind fun braucht =>
      if partSektoren < braucht then .error .verzeichnisKaputt
      else .ok ⟨eintragLen, bildLen, manifestLen⟩

structure PartSichtung where
  firstLba : Nat
  sektoren : Nat
  uniqueGuid : List UInt8
  fremde : Nat
  deriving DecidableEq, Repr

def treiberWert : List UInt8 → Option (List UInt8)
  | [] => none
  | c :: d =>
      if c = quote then some []
      else if c = backslash ∨ c < 0x20 then none
      else (treiberWert d).map (c :: ·)

/-- The loop of `treibername_gleich` over the rest of the text. -/
def treiberSuche (name : List UInt8) : Int → Bool → Bool → List UInt8 → Bool
  | _, _, _, [] => false
  | tiefe, true, escape, b :: d =>
      if escape then treiberSuche name tiefe true false d
      else if b = backslash then treiberSuche name tiefe true true d
      else if b = quote then treiberSuche name tiefe false false d
      else treiberSuche name tiefe true false d
  | tiefe, false, escape, b :: d =>
      if b = quote then
        if tiefe = 1 ∧ (b :: d).take 8 = quote :: fDriver ++ [quote] then
          match skipWs ((b :: d).drop 8) with
          | [] => treiberSuche name tiefe true escape d
          | c :: r =>
              if c ≠ colon then treiberSuche name tiefe true escape d
              else
                match skipWs r with
                | [] => false
                | o :: w => o = quote ∧ treiberWert w = some name
        else treiberSuche name tiefe true escape d
      else if b = braceOpen then treiberSuche name (tiefe + 1) false escape d
      else if b = braceClose then treiberSuche name (tiefe - 1) false escape d
      else treiberSuche name tiefe false escape d

def treibernameGleich (manifestJson name : List UInt8) : Bool :=
  if name = [] ∨ maxTreiberName < name.length then false
  else treiberSuche name 0 false false manifestJson

def isLxpd (data : List UInt8) : Bool := slice data 0 lxpdMagic.length = some lxpdMagic

def isElf (data : List UInt8) : Bool := slice data 0 Loader.Elf.elfMagic.length = some Loader.Elf.elfMagic

/-- `elf_ready`, with its refusals under the names of this module. -/
def elfReady (expectedMachine : Nat) (bytes : List UInt8) : Except LadeFehler Unit :=
  if isElf bytes = false then .error .containerNotElf
  else
    match Loader.Elf.ElfImage.parse expectedMachine bytes with
    | .error e => .error (.containerLoader e)
    | .ok _ => .ok ()

/-- `map_err(LadeFehler::Container)`. -/
def alsContainer {α : Type} : Except LxpdError α → Except LadeFehler α
  | .error e => .error (.container e)
  | .ok a => .ok a

variable {F Q P : Type} (A : Gleitkomma F)

def verifyManifest (img : LxpdImage) (manifestJson key : List UInt8) :
    Except LxpdError (ManifestFacts F) :=
  (manifestFacts A manifestJson).bind fun facts =>
  if facts.trampolineNames ≠ img.trampCount then .error .badManifest
  else (verifySignature manifestJson key).map fun _ => facts

def herkunftBindet (s : PartSichtung) : Source → Except LadeFehler Unit
  | .diskGuid guid => if guid = s.uniqueGuid then .ok () else .error (.container .badManifest)
  | .diskRange startLba sectors =>
      (okOr (.container .badManifest) (checkedAdd s.firstLba s.sektoren)).bind fun plattenEnde =>
      (okOr (.container .badManifest) (checkedAdd startLba sectors)).bind fun bereichEnde =>
      if s.firstLba ≤ startLba ∧ bereichEnde ≤ plattenEnde then .ok ()
      else .error (.container .badManifest)
  | .boot _ => .error (.container .badManifest)

def bildPruefen (expectedMachine : Nat) (bild manifest schluessel : List UInt8) :
    Except LadeFehler BildArt :=
  if isLxpd bild then
    (alsContainer (LxpdImage.parse bild)).bind fun img =>
    (alsContainer (verifyManifest A img manifest schluessel)).map fun _ =>
    .lxpdContainer img.trampCount
  else if isElf bild then (elfReady expectedMachine bild).map fun _ => .elf
  else .error .keinBildformat

structure PruefSumme (F : Type) where
  bildLen : Nat
  manifestLen : Nat
  eintragLen : Nat
  art : BildArt
  bildHash : List UInt8
  fakten : ManifestFacts F
  deriving DecidableEq

/-- The checks of `pruefen` on the three documents. -/
def dokumentePruefen (expectedMachine : Nat) (s : PartSichtung)
    (eintrag bild manifest schluessel pubkey : List UInt8) : Except LadeFehler (PruefSumme F) :=
  (alsContainer (parseEntry eintrag)).bind fun e =>
  (herkunftBindet s e.source).bind fun _ =>
  (alsContainer (manifestFacts A manifest)).bind fun fakten =>
  (alsContainer (verifySignature manifest schluessel)).bind fun _ =>
  (bildPruefen A expectedMachine bild manifest schluessel).bind fun art =>
  (fehlerAls .bildHashWeichtAb (verifyImage e bild)).bind fun _ =>
  (alsContainer (verifyWitness eintrag pubkey)).bind fun _ =>
  if treibernameGleich manifest e.driver = false then .error .treiberMismatch
  else .ok ⟨bild.length, manifest.length, eintrag.length, art, sha256 bild, fakten⟩

/-- One turn of the loop of `lese_exakt`: the first sectors of the target, at most eight.  The last
piece may end within a sector: it is read beside the target, and what is over is dropped. -/
def leseStueck (quelle : BlockQuelle Q) (kapazitaet lba n : Nat) (ziel : List UInt8) (q : Q) :
    Except LadeFehler Unit × List UInt8 × Q :=
  match checkedAdd n lba with
  | none => (.error .bereich, ziel, q)
  | some ende =>
      if kapazitaet ≤ lba ∨ kapazitaet < ende then (.error .bereich, ziel, q)
      else if n * sektor ≤ ziel.length then
        match quelle.lesen q lba n (ziel.take (n * sektor)) with
        | (.error e, teil, q) => (.error e.lade, teil ++ ziel.drop (n * sektor), q)
        | (.ok got, teil, q) =>
            if got ≠ n then (.error .abgebrochen, teil ++ ziel.drop (n * sektor), q)
            else (.ok (), teil ++ ziel.drop (n * sektor), q)
      else
        match quelle.lesen q lba n (List.replicate (n * sektor) 0) with
        | (.error e, _, q) => (.error e.lade, ziel, q)
        | (.ok voll, puffer, q) =>
            if voll ≠ n then (.error .abgebrochen, ziel, q)
            else (.ok (), puffer.take ziel.length, q)

def stueckSektoren (rest : Nat) : Nat := min (ceilDiv rest sektor) maxSektorenJeAnfrage

/-- `while rest > 0`, for a target of `k` pieces. -/
def leseStuecke (quelle : BlockQuelle Q) (kapazitaet : Nat) :
    Nat → Nat → List UInt8 → Q → Except LadeFehler Unit × List UInt8 × Q
  | 0, _, ziel, q => (.ok (), ziel, q)
  | k + 1, lba, ziel, q =>
      let n := stueckSektoren ziel.length
      match leseStueck quelle kapazitaet lba n ziel q with
      | (.error e, ziel, q) => (.error e, ziel, q)
      | (.ok _, ziel, q) =>
          match leseStuecke quelle kapazitaet k (lba + n) (ziel.drop (n * sektor)) q with
          | (r, rest, q) => (r, ziel.take (n * sektor) ++ rest, q)

/-- Fill the target from block `lba` on.  Every piece but the last has `stueckBytes` bytes. -/
def leseExakt (quelle : BlockQuelle Q) (kapazitaet lba : Nat) (ziel : List UInt8) (q : Q) :
    Except LadeFehler Unit × List UInt8 × Q :=
  leseStuecke quelle kapazitaet (ceilDiv ziel.length stueckBytes) lba ziel q

def ausPartError : Part.PartError → LadeFehler
  | .badSignature => .gptSignatur
  | .badRevision => .gptRevision
  | .badHeaderSize => .gptKopfGroesse
  | .headerCrc => .gptKopfCrc
  | .badEntrySize => .gptEintragGroesse
  | .badEntryCount => .gptEintragZahl
  | .entriesCrc => .gptEintraegeCrc
  | .tooShort => .gptKopfGroesse

def infoHolen (quelle : BlockQuelle Q) (q : Q) : Except LadeFehler BlockInfo × Q :=
  match quelle.info q with
  | (.error _, q) => (.error .geraet, q)
  | (.ok i, q) => if i.kapazitaet = 0 then (.error .keineKapazitaet, q) else (.ok i, q)

/-- The pass over all entries, for their checksum: `k` pieces, from byte `gelesen` on. -/
def crcStuecke (quelle : BlockQuelle Q) (h : Part.GptHeader) :
    Nat → Nat → Part.Crc32 → List UInt8 → Q → Except LadeFehler Part.Crc32 × Q
  | 0, _, crc, _, q => (.ok crc, q)
  | k + 1, gelesen, crc, stueck, q =>
      let jetzt := min (h.entriesBytes - gelesen) stueckBytes
      let sektoren := stueckSektoren jetzt
      let lba := wadd h.entryLba (gelesen / sektor)
      match quelle.lesen q lba sektoren (stueck.take (sektoren * sektor)) with
      | (.error e, _, q) => (.error e.lade, q)
      | (.ok got, teil, q) =>
          if got ≠ sektoren then (.error .abgebrochen, q)
          else
            let stueck := teil ++ stueck.drop (sektoren * sektor)
            let nimm := min jetzt (sektoren * sektor)
            crcStuecke quelle h k (gelesen + nimm) (Part.crcUpdate crc (stueck.take nimm)) stueck q

def eintraegeCrc (quelle : BlockQuelle Q) (h : Part.GptHeader) (q : Q) :
    Except LadeFehler Part.Crc32 × Q :=
  crcStuecke quelle h (ceilDiv h.entriesBytes stueckBytes) 0 Part.crcNeu
    (List.replicate stueckBytes 0) q

/-- The pass that looks for the partition: `rest` entries from `i` on. -/
def eintraegeSuchen (quelle : BlockQuelle Q) (kapazitaet : Nat) (h : Part.GptHeader) (index : Nat) :
    Nat → Nat → Nat → Nat → List UInt8 → Q → Except LadeFehler PartSichtung × Q
  | 0, _, _, _, _, q => (.error .keineLxpdPartition, q)
  | rest + 1, i, gefunden, fremde, sec, q =>
      let byteOff := i * h.entrySize
      let lba := wadd h.entryLba (byteOff / sektor)
      match leseExakt quelle kapazitaet lba sec q with
      | (.error e, _, q) => (.error e, q)
      | (.ok _, sec, q) =>
          match slice sec (byteOff % sektor) h.entrySize with
          | none => (.error .bereich, q)
          | some stueck =>
              match Part.entryAt h stueck i i with
              | none => eintraegeSuchen quelle kapazitaet h index rest (i + 1) gefunden fremde sec q
              | some p =>
                  if p.isUsed = false then
                    eintraegeSuchen quelle kapazitaet h index rest (i + 1) gefunden fremde sec q
                  else if p.typeGuid = lxpdPartGuid ∧ p.within h = true then
                    if gefunden = index then
                      match slice stueck 16 16 with
                      | none => (.error .bereich, q)
                      | some guid => (.ok ⟨p.firstLba, p.sectors, guid, fremde⟩, q)
                    else
                      eintraegeSuchen quelle kapazitaet h index rest (i + 1) (gefunden + 1) fremde
                        sec q
                  else
                    eintraegeSuchen quelle kapazitaet h index rest (i + 1) gefunden (fremde + 1)
                      sec q

/-- What `suchen` does with the source. -/
def partitionSuchen (quelle : BlockQuelle Q) (index : Nat) (q : Q) :
    Except LadeFehler PartSichtung × Q :=
  match infoHolen quelle q with
  | (.error e, q) => (.error e, q)
  | (.ok info, q) =>
      match leseExakt quelle info.kapazitaet 1 (List.replicate sektor 0) q with
      | (.error e, _, q) => (.error e, q)
      | (.ok _, kopf, q) =>
          match Part.parseHeader kopf with
          | .error e => (.error (ausPartError e), q)
          | .ok h =>
              if sektor < h.entrySize then (.error .gptEintragZuGross, q)
              else
                match eintraegeCrc quelle h q with
                | (.error e, q) => (.error e, q)
                | (.ok crc, q) =>
                    match Part.verifyEntries h crc with
                    | .error _ => (.error .gptEintraegeCrc, q)
                    | .ok _ =>
                        eintraegeSuchen quelle info.kapazitaet h index h.numEntries 0 0 0
                          (List.replicate sektor 0) q

inductive Phase where
  | leer
  | verzeichnis
  | bild
  | geprueft
  | geladen
  deriving DecidableEq, Repr

structure LadeDienst (F : Type) where
  phase : Phase
  sichtung : Option PartSichtung
  verzeichnis : Option BildVerzeichnis
  eintrag : List UInt8
  bild : List UInt8
  manifest : List UInt8
  summe : Option (PruefSumme F)
  pdId : Option Nat
  hatLoaderCap : Bool

/-- Fill the first `len` bytes of a buffer. -/
def pufferFuellen (quelle : BlockQuelle Q) (kapazitaet lba len : Nat) (zuGross : LadeFehler)
    (puffer : List UInt8) (q : Q) : Except LadeFehler Unit × List UInt8 × Q :=
  if puffer.length < len then (.error zuGross, puffer, q)
  else
    match leseExakt quelle kapazitaet lba (puffer.take len) q with
    | (r, teil, q) => (r, teil ++ puffer.drop len, q)

namespace LadeDienst

def neu (hatLoaderCap : Bool) : LadeDienst F where
  phase := .leer
  sichtung := none
  verzeichnis := none
  eintrag := List.replicate maxEintragBytes 0
  bild := List.replicate maxBildBytes 0
  manifest := List.replicate maxManifestBytes 0
  summe := none
  pdId := none
  hatLoaderCap := hatLoaderCap

def zuruecksetzen (d : LadeDienst F) : LadeDienst F :=
  { d with phase := .leer, sichtung := none, verzeichnis := none, summe := none, pdId := none }

def suchen (quelle : BlockQuelle Q) (index : Nat) (d : LadeDienst F) (q : Q) :
    Except LadeFehler PartSichtung × LadeDienst F × Q :=
  match partitionSuchen quelle index q with
  | (.error e, q) => (.error e, d, q)
  | (.ok s, q) => (.ok s, { d with sichtung := some s, phase := .verzeichnis }, q)

/-- The part of `bild_lesen` after the directory: the three documents. -/
def dokumenteLesen (quelle : BlockQuelle Q) (kapazitaet : Nat) (s : PartSichtung)
    (v : BildVerzeichnis) (d : LadeDienst F) (q : Q) : Except LadeFehler Unit × LadeDienst F × Q :=
  let lba := wadd s.firstLba 1
  match pufferFuellen quelle kapazitaet lba v.eintragLen .eintragZuGross d.eintrag q with
  | (.error e, puffer, q) => (.error e, { d with eintrag := puffer }, q)
  | (.ok _, puffer, q) =>
      let d := { d with eintrag := puffer }
      let lba := wadd lba (ceilDiv v.eintragLen sektor)
      match pufferFuellen quelle kapazitaet lba v.bildLen .bildZuGross d.bild q with
      | (.error e, puffer, q) => (.error e, { d with bild := puffer }, q)
      | (.ok _, puffer, q) =>
          let d := { d with bild := puffer }
          let lba := wadd lba (ceilDiv v.bildLen sektor)
          match pufferFuellen quelle kapazitaet lba v.manifestLen .manifestZuGross d.manifest q with
          | (.error e, puffer, q) => (.error e, { d with manifest := puffer }, q)
          | (.ok _, puffer, q) =>
              (.ok (), { d with manifest := puffer, verzeichnis := some v, phase := .bild }, q)

def bildLesen (quelle : BlockQuelle Q) (d : LadeDienst F) (q : Q) :
    Except LadeFehler Unit × LadeDienst F × Q :=
  match d.sichtung with
  | none => (.error .ungeprueft, d, q)
  | some s =>
      if d.phase ≠ .verzeichnis then (.error .ungeprueft, d, q)
      else
        match infoHolen quelle q with
        | (.error e, q) => (.error e, d, q)
        | (.ok info, q) =>
            match leseExakt quelle info.kapazitaet s.firstLba (List.replicate sektor 0) q with
            | (.error e, _, q) => (.error e, d, q)
            | (.ok _, sec, q) =>
                match parseVerzeichnis sec s.sektoren with
                | .error e => (.error e, d, q)
                | .ok v => d.dokumenteLesen quelle info.kapazitaet s v q

/-- The documents that `pruefen` looks at: entry, image, manifest. -/
def dokumente (d : LadeDienst F) : Option (PartSichtung × List UInt8 × List UInt8 × List UInt8) :=
  d.verzeichnis.bind fun v =>
  d.sichtung.bind fun s =>
  (slice d.eintrag 0 v.eintragLen).bind fun eintrag =>
  (slice d.bild 0 v.bildLen).bind fun bild =>
  (slice d.manifest 0 v.manifestLen).map fun manifest => (s, eintrag, bild, manifest)

def pruefen (expectedMachine : Nat) (schluessel pubkey : List UInt8) (d : LadeDienst F) :
    Except LadeFehler (PruefSumme F) × LadeDienst F :=
  if d.phase ≠ .bild then (.error .ungeprueft, d)
  else
    match d.dokumente with
    | none => (.error .ungeprueft, d)
    | some (s, eintrag, bild, manifest) =>
        match dokumentePruefen A expectedMachine s eintrag bild manifest schluessel pubkey with
        | .error e => (.error e, d)
        | .ok summe => (.ok summe, { d with summe := some summe, phase := .geprueft })

def geprueftesBild (d : LadeDienst F) : Option (List UInt8) :=
  d.summe.bind fun s => if d.phase ≠ .geprueft then none else slice d.bild 0 s.bildLen

/-- The gates of `anstossen`, and what it passes on. -/
def uebergabe (d : LadeDienst F) : Except LadeFehler Uebergabe :=
  if d.phase ≠ .geprueft then .error .ungeprueft
  else if d.hatLoaderCap = false then .error .keineLoaderCap
  else
    (okOr .ungeprueft d.summe).bind fun s =>
    (okOr .ungeprueft (slice d.bild 0 s.bildLen)).bind fun bild =>
    (okOr .ungeprueft (slice d.manifest 0 s.manifestLen)).bind fun manifest =>
    (okOr .ungeprueft (slice d.eintrag 0 s.eintragLen)).map fun eintrag =>
    ⟨bild, manifest, eintrag, s.art⟩

def anstossen (anstoss : LadeAnstoss P) (ctx : AnstossKontext) (d : LadeDienst F) (p : P) :
    Except LadeFehler Nat × LadeDienst F × P :=
  match d.uebergabe with
  | .error e => (.error e, d, p)
  | .ok u =>
      match anstoss.ladeBild p ctx u with
      | (.error e, p) => (.error e, d, p)
      | (.ok pd, p) => (.ok pd, { d with pdId := some pd, phase := .geladen }, p)

end LadeDienst

end Caprock.Lxpd
