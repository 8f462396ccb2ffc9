import Caprock.Lxpd.DriverManifest
import Caprock.Lxpd.Sha256

/-! # Driver entries

An entry says where a driver image lies, which image it is and under which key it was issued.
`parseEntry` reads the facts; `verifyWitness` and `verifyImage` are the two bindings, to the key
and to the bytes of the image.
-/

namespace Caprock.Lxpd

open Checks Word

def fApiVersion : List UInt8 := ascii "api_version"
def fSource : List UInt8 := ascii "source"
def fImageHash : List UInt8 := ascii "image_hash"
def fKeyId : List UInt8 := ascii "key_id"
def fKind : List UInt8 := ascii "kind"
def fModule : List UInt8 := ascii "module"
def fPartGuid : List UInt8 := ascii "part_guid"
def fStartLba : List UInt8 := ascii "start_lba"
def fSectors : List UInt8 := ascii "sectors"

def driverSchemaVersion : UInt32 := 1

/-- Where an image lies. -/
inductive Source where
  | boot (module : UInt32)
  | diskGuid (guid : List UInt8)
  | diskRange (startLba sectors : Nat)
  deriving DecidableEq, Repr

structure DriverEntry where
  schemaVersion : UInt32
  driver : List UInt8
  api : List UInt8
  source : Source
  imageHash : List UInt8
  keyId : List UInt8
  signaturePresent : Bool
  deriving DecidableEq, Repr

/-- `map_err(|_| e)`. -/
def fehlerAls {ε ε' α : Type} (e : ε') : Except ε α → Except ε' α
  | .error _ => .error e
  | .ok a => .ok a

def hexPaare : Nat → List UInt8 → Except LxpdError (List UInt8)
  | 0, _ => .ok []
  | n + 1, hi :: lo :: s =>
      (okOr .badManifest (hexVal hi)).bind fun hi =>
      (okOr .badManifest (hexVal lo)).bind fun lo =>
      (hexPaare n s).map fun out => ((hi <<< 4) ||| lo) :: out
  | _ + 1, _ => .error .badManifest

def decodeHex (n : Nat) (s : List UInt8) : Except LxpdError (List UInt8) :=
  if s.length ≠ n * 2 then .error .badManifest else hexPaare n s

def quotedInner (span : List UInt8) : Except LxpdError (List UInt8) :=
  if isQuoted span = false then .error .badManifest
  else if innen span = [] then .error .badManifest
  else .ok (innen span)

/-- `kind = disk`: by partition or by range. -/
def diskSource : Option (List UInt8) → Option (List UInt8) → Option (List UInt8) →
    Except LxpdError Source
  | some g, none, none =>
      (quotedInner g).bind fun inner =>
      (decodeHex 16 inner).bind fun bytes =>
      if bytes = List.replicate 16 0 then .error .badManifest else .ok (.diskGuid bytes)
  | none, some s, some l =>
      (okOr .badManifest (parseU64 s)).bind fun startLba =>
      (okOr .badManifest (parseU64 l)).bind fun sectors =>
      if sectors = 0 then .error .badManifest
      else
        (okOr .badManifest (checkedAdd startLba.toNat sectors.toNat)).bind fun _ =>
        .ok (.diskRange startLba.toNat sectors.toNat)
  | _, _, _ => .error .badManifest

def parseSource (span : List UInt8) : Except LxpdError Source :=
  (fehlerAls .badManifest (parseObjectInto maxNestKeys span)).bind fun nest =>
  (okOr .badManifest (find nest fKind)).bind fun kind =>
  (quotedInner kind).bind fun art =>
  if art = ascii "boot" then
    (okOr .badManifest (find nest fModule)).bind fun modul =>
    (okOr .badManifest (parseU32 modul)).map Source.boot
  else if art = ascii "disk" then
    diskSource (find nest fPartGuid) (find nest fStartLba) (find nest fSectors)
  else .error .badManifest

def parseEntry (json : List UInt8) : Except LxpdError DriverEntry :=
  (topPairs json).bind fun buf =>
  (okOr .badManifest (find buf fSchemaVersion)).bind fun fassung =>
  (okOr .badManifest (parseU32 fassung)).bind fun version =>
  if version ≠ driverSchemaVersion then .error .badManifest
  else
    (okOr .badManifest (find buf fDriver)).bind fun d =>
    (quotedInner d).bind fun treiber =>
    (okOr .badManifest (find buf fApiVersion)).bind fun a =>
    (quotedInner a).bind fun api =>
    (okOr .badManifest (find buf fSource)).bind fun quelle =>
    if quelle.head? ≠ some braceOpen then .error .badManifest
    else
      (parseSource quelle).bind fun source =>
      (okOr .badManifest (find buf fImageHash)).bind fun ih =>
      (quotedInner ih).bind fun ihInner =>
      (decodeHex 32 ihInner).bind fun imageHash =>
      (okOr .badManifest (find buf fKeyId)).bind fun ki =>
      (quotedInner ki).bind fun kiInner =>
      (decodeHex 16 kiInner).bind fun keyId =>
      let signaturePresent :=
        (find buf fSignature).any fun s => isQuoted s && decide (2 < s.length)
      .ok ⟨driverSchemaVersion, treiber, api, source, imageHash, keyId, signaturePresent⟩

/-- The key that the entry names, and the witness over the raw key and the canonical entry. -/
def verifyWitness (json pubkey : List UInt8) : Except LxpdError Unit :=
  (topPairs json).bind fun buf =>
  (okOr .badSignature (find buf fKeyId)).bind fun ki =>
  (fehlerAls .badSignature (quotedInner ki)).bind fun kidSpan =>
  (fehlerAls .badSignature (decodeHex 16 kidSpan)).bind fun kid =>
  if kid ≠ (sha256 pubkey).take 16 then .error .badSignature
  else
    (okOr .badSignature (find buf fSignature)).bind fun sig =>
    if isQuoted sig = false then .error .badSignature
    else if (innen sig).length ≠ signatureHexLen then .error .badSignature
    else
      let h := fnvFeed (fnvFeed fnv64Offset pubkey) [braceOpen]
      let h := fnvFeed (feedMitglieder h (signiert buf)) [braceClose]
      if innen sig = hexSignatur h then .ok () else .error .badSignature

def verifyImage (entry : DriverEntry) (image : List UInt8) : Except LxpdError Unit :=
  if sha256 image = entry.imageHash then .ok () else .error .badManifest

end Caprock.Lxpd
