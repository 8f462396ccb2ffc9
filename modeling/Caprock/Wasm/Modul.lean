import Caprock.Lib.Bytes
import Caprock.Lib.Checks
import Caprock.Lib.Panic
import Caprock.Lib.Word

/-! # Modules

`parse_modul` walks over the sections of a module and reads the first entry of the first memory
section that has one; `validiere` says whether its memory can be granted.  Loops get a number of
steps, and every index and every shift is a place that may panic.  Positions stay within the slice,
so their sums are exact; the number of sections wraps, as in a release build.
-/

namespace Caprock.Wasm

open Bytes Checks Panic Word

def wasmMagie : List UInt8 := [0x00, 0x61, 0x73, 0x6D]
def wasmVersion : Nat := 1
def sektionSpeicher : UInt8 := 5
def wasmSeite : Nat := 65536
def grantSeite : Nat := 4096

inductive WasmFehler where
  | keinModul
  | magieFalsch
  | versionFalsch
  | unerwartetesEnde
  | sektionAbgeschnitten
  | speicherformAbgelehnt
  deriving DecidableEq, Repr

structure ModulInfo where
  sektionen : Nat
  hatSpeicher : Bool
  speicherMin : Nat
  speicherMax : Option Nat
  deriving DecidableEq, Repr

/-- The loop of `lese_uleb128`: the value and the position behind it. -/
def ulebSchleife (bytes : List UInt8) :
    Nat → Nat → Nat → Nat → Call WasmFehler (Nat × Nat)
  | 0, _, _, _ => .error .outOfSteps
  | k + 1, pos, ergebnis, schicht =>
      (quiet (okOr .unerwartetesEnde bytes[pos]?)).bind fun b =>
      let pos := pos + 1
      if 35 ≤ schicht then .error (.err .unerwartetesEnde)
      else
        let stueck := (b &&& 0x7F).toNat
        if schicht = 28 ∧ 0x0F < stueck then .error (.err .unerwartetesEnde)
        else
          (shl 32 stueck schicht).bind fun s =>
          let ergebnis := ergebnis ||| s
          if b &&& 0x80 = 0 then .ok (ergebnis, pos)
          else ulebSchleife bytes k pos ergebnis (schicht + 7)

def leseUleb128 (bytes : List UInt8) (pos : Nat) : Call WasmFehler (Nat × Nat) :=
  ulebSchleife bytes 6 pos 0 0

/-- The memory section between `start` and `ende`. -/
def speicherLesen (bytes : List UInt8) (start ende : Nat) (info : ModulInfo) :
    Call WasmFehler ModulInfo :=
  (leseUleb128 bytes start).bind fun (eintraege, p) =>
  if 0 < eintraege then
    (leseUleb128 bytes p).bind fun (merkmale, p) =>
    (leseUleb128 bytes p).bind fun (min, p) =>
    if ende < p then .error (.err .sektionAbgeschnitten)
    else
      (if merkmale &&& 1 ≠ 0 then
        (leseUleb128 bytes p).bind fun (m, p) =>
        if ende < p then .error (.err .sektionAbgeschnitten) else .ok (some m)
      else .ok none).bind fun max =>
      .ok { info with hatSpeicher := true, speicherMin := min, speicherMax := max }
  else .ok info

/-- `while pos < bytes.len()`. -/
def sektionenLesen (bytes : List UInt8) : Nat → Nat → ModulInfo → Call WasmFehler ModulInfo
  | 0, _, _ => .error .outOfSteps
  | k + 1, pos, info =>
      if pos < bytes.length then
        (quiet (okOr .unerwartetesEnde bytes[pos]?)).bind fun kennziffer =>
        (leseUleb128 bytes (pos + 1)).bind fun (laenge, start) =>
        if bytes.length - start < laenge then .error (.err .sektionAbgeschnitten)
        else
          let ende := start + laenge
          (if kennziffer = sektionSpeicher ∧ info.hatSpeicher = false then
            speicherLesen bytes start ende info
          else .ok info).bind fun info =>
          sektionenLesen bytes k ende { info with sektionen := (info.sektionen + 1) % 2 ^ 32 }
      else .ok info

/-- Every section takes a step, and the last look at the position one more. -/
def parseModul (bytes : List UInt8) : Call WasmFehler ModulInfo :=
  if bytes = [] then .error (.err .keinModul)
  else if bytes.length < 8 then .error (.err .unerwartetesEnde)
  else
    (reads bytes 0 4).bind fun magie =>
    if magie ≠ wasmMagie then .error (.err .magieFalsch)
    else
      (reads bytes 4 4).bind fun version =>
      if leNat version ≠ wasmVersion then .error (.err .versionFalsch)
      else sektionenLesen bytes (bytes.length + 1) 8 ⟨0, false, 0, none⟩

def validiere (info : ModulInfo) : Except WasmFehler Nat :=
  if info.hatSpeicher = false ∨ info.speicherMin = 0 ∨ info.speicherMax.isSome then
    .error .speicherformAbgelehnt
  else .ok info.speicherMin

def grantLaenge (minSeiten : Nat) : Except WasmFehler Nat :=
  if minSeiten = 0 then .error .speicherformAbgelehnt
  else
    (okOr .speicherformAbgelehnt (checkedMul minSeiten wasmSeite)).bind fun bytes =>
    (okOr .speicherformAbgelehnt (checkedAdd bytes (grantSeite - 1))).bind fun aufgerundet =>
    .ok (aufgerundet / grantSeite * grantSeite)

end Caprock.Wasm
