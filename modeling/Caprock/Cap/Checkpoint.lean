import Mathlib.Algebra.Group.Nat.Defs
import Mathlib.Data.List.Basic
import Caprock.Cap.Object
import Caprock.Lib.Bytes

/-! # Checkpoints

What of a thread may leave the machine, and the byte format it travels in.  `classify`
decides for one capability, `classifyCut` for the open IPC relations; `build` refuses
unless both agree.  `encode` and `decode` are written against fixed offsets, each on its
own; `encode_decode` says that they fit together for every image that `build` returns.

An index outside a buffer is a panic; both functions return `none` there.
-/

namespace Caprock.Cap

open Mem Bytes

namespace Checkpoint

/-- `Scope`: what belongs to the checkpoint. -/
structure Scope where
  endpoints : List Nat
  notifications : List Nat
  threads : List Nat
  pds : List Nat

def Scope.empty : Scope := ⟨[], [], [], []⟩

inductive LocalReason where
  | deviceWindow
  | interruptLine
  | dmaRegion
  | pendingReply
  | handlerBinding
  | peerNotInScope
  | threadNotInScope
  | pdNotInScope
  | loaderSource
  | debugAuthority
  deriving DecidableEq, Repr

inductive Precondition where
  | sameTickSemantics
  deriving DecidableEq, Repr

/-- `ExternKind`: a capability without a number of this machine. -/
inductive ExternKind where
  | region (len : UInt64)
  | endpoint (scopeIndex : UInt32)
  | notification (scopeIndex : UInt32)
  | tcb (scopeIndex : UInt32)
  | schedContext (budget period : UInt32)
  deriving DecidableEq, Repr

inductive Transfer where
  | portable (kind : ExternKind) (precondition : Option Precondition)
  | refused (reason : LocalReason)
  deriving DecidableEq, Repr

def position (haystack : List Nat) (needle : Nat) : Option UInt32 :=
  (haystack.findIdx? (· == needle)).map UInt32.ofNat

def imUmfang (platz : Option UInt32) (kind : UInt32 → ExternKind) (reason : LocalReason) :
    Transfer :=
  match platz with
  | some i => .portable (kind i) none
  | none => .refused reason

def classify (kind : ObjectKind) (scope : Scope) : Transfer :=
  match kind with
  | .memory r => .portable (.region (UInt64.ofNat r.len)) none
  | .schedContext budget period =>
      .portable (.schedContext (UInt32.ofNat budget) (UInt32.ofNat period))
        (some .sameTickSemantics)
  | .endpoint id => imUmfang (position scope.endpoints id) .endpoint .peerNotInScope
  | .notification id => imUmfang (position scope.notifications id) .notification .peerNotInScope
  | .tcb raw => imUmfang (position scope.threads raw) .tcb .threadNotInScope
  -- Refused inside the scope as well.
  | .pdControl _ => .refused .pdNotInScope
  | .reply _ _ => .refused .pendingReply
  | .mmio _ _ => .refused .deviceWindow
  | .irq _ => .refused .interruptLine
  | .dma .. => .refused .dmaRegion
  | .loader _ => .refused .loaderSource
  | .syscallHandler .. | .faultHandler .. => .refused .handlerBinding
  | .debuggable _ => .refused .debugAuthority

def classifyAll (scope : Scope) : Nat → List (Option ObjectKind) → Except (Nat × LocalReason) Unit
  | _, [] => .ok ()
  | slot, none :: kinds => classifyAll scope (slot + 1) kinds
  | slot, some k :: kinds =>
      match classify k scope with
      | .refused r => .error (slot, r)
      | .portable _ _ => classifyAll scope (slot + 1) kinds

inductive Channel where
  | endpoint (id : Nat)
  | notification (id : Nat)
  deriving DecidableEq, Repr

inductive EdgeRole where
  | sender
  | receiver
  | caller
  | replyOwner
  deriving DecidableEq, Repr

/-- `Edge`: one observed role at one channel. -/
structure Edge where
  channel : Channel
  thread : Nat
  role : EdgeRole
  deriving DecidableEq, Repr

inductive CutRefusal where
  | channelNotInScope
  | peerNotInScope
  deriving DecidableEq, Repr

def threadInScope (thread subject : Nat) (scope : Scope) : Bool :=
  thread == subject || scope.threads.contains thread

def channelInScope (channel : Channel) (scope : Scope) : Bool :=
  match channel with
  | .endpoint id => scope.endpoints.contains id
  | .notification id => scope.notifications.contains id

def classifyEdge (edge : Edge) (subject : Nat) (scope : Scope) : Option CutRefusal :=
  match channelInScope edge.channel scope, threadInScope edge.thread subject scope with
  | true, true | false, false => none
  | false, true => some .channelNotInScope
  | true, false => some .peerNotInScope

def classifyCut (subject : Nat) (scope : Scope) : Nat → List Edge → Except (Nat × CutRefusal) Unit
  | _, [] => .ok ()
  | i, e :: edges =>
      match classifyEdge e subject scope with
      | some r => .error (i, r)
      | none => classifyCut subject scope (i + 1) edges

inductive BuildRefusal where
  | cap (slot : Nat) (reason : LocalReason)
  | cut (edge : Nat) (reason : CutRefusal)
  deriving DecidableEq, Repr

def maxCaps : Nat := 16

structure Image where
  kernelHash : Vector UInt8 32
  progress : UInt64
  nonce : UInt64
  epoch : UInt64
  caps : Vector (Option ExternKind) maxCaps
  capCount : Nat
  preconditionBits : UInt32
  deriving DecidableEq

def precondSameTick : UInt32 := 1

namespace Image

/-- One portable capability goes to the next free place.  The place exists: `build` refuses
when all are taken. -/
def aufnehmen (img : Image) (kind : ExternKind) (precondition : Option Precondition) : Image :=
  { img with
    caps := img.caps.setIfInBounds img.capCount (some kind)
    capCount := img.capCount + 1
    preconditionBits :=
      if precondition = some .sameTickSemantics then img.preconditionBits ||| precondSameTick
      else img.preconditionBits }

def einsammeln (scope : Scope) : Nat → List (Option ObjectKind) → Image → Except BuildRefusal Image
  | _, [], img => .ok img
  | slot, none :: kinds, img => einsammeln scope (slot + 1) kinds img
  | slot, some k :: kinds, img =>
      match classify k scope with
      | .portable kind precondition =>
          if img.capCount = maxCaps then .error (.cap slot .peerNotInScope)
          else einsammeln scope (slot + 1) kinds (img.aufnehmen kind precondition)
      | .refused r => .error (.cap slot r)

def build (kernelHash : Vector UInt8 32) (progress nonce epoch : UInt64)
    (kinds : List (Option ObjectKind)) (scope : Scope) (subject : Nat) (edges : List Edge) :
    Except BuildRefusal Image :=
  match classifyAll scope 0 kinds with
  | .error (s, r) => .error (.cap s r)
  | .ok () =>
      match classifyCut subject scope 0 edges with
      | .error (i, r) => .error (.cut i r)
      | .ok () =>
          einsammeln scope 0 kinds
            ⟨kernelHash, progress, nonce, epoch, Vector.replicate maxCaps none, 0, 0⟩

end Image

/-- `MAGIC`, the bytes of `SL4KCKPT`. -/
def magic : List UInt8 := [0x53, 0x4C, 0x34, 0x4B, 0x43, 0x4B, 0x50, 0x54]

def formatVersion : UInt32 := 1

def offMagic : Nat := 0
def offVersion : Nat := 8
def offBodyLen : Nat := 12
def offBody : Nat := 16

/-- `BODY_FIXED`: hash, progress, nonce, epoch, count, bits. -/
def bodyFixed : Nat := 32 + 8 + 8 + 8 + 4 + 4

def bProgress : Nat := 32
def bNonce : Nat := 40
def bEpoch : Nat := 48
def bCapcount : Nat := 56
def bPrecond : Nat := 60

/-- `CAP_BYTES`: tag, padding, value. -/
def capBytes : Nat := 16

def imageBytes (n : Nat) : Nat := offBody + bodyFixed + n * capBytes + 4

inductive ImageError where
  | noImage
  | version (found : UInt32)
  | truncated
  | capOverflow
  | unknownCapTag (tag : UInt32)
  | checksum
  | foreignKernel
  | bufferTooSmall
  deriving DecidableEq, Repr

def tagOf : ExternKind → UInt32 × UInt64
  | .region len => (1, len)
  | .endpoint scopeIndex => (2, scopeIndex.toUInt64)
  | .notification scopeIndex => (3, scopeIndex.toUInt64)
  | .tcb scopeIndex => (4, scopeIndex.toUInt64)
  | .schedContext budget period => (5, budget.toUInt64 ||| (period.toUInt64 <<< 32))

def kindOf (tag : UInt32) (v : UInt64) : Except ImageError ExternKind :=
  if tag = 1 then .ok (.region v)
  else if tag = 2 then .ok (.endpoint v.toUInt32)
  else if tag = 3 then .ok (.notification v.toUInt32)
  else if tag = 4 then .ok (.tcb v.toUInt32)
  else if tag = 5 then .ok (.schedContext v.toUInt32 (v >>> 32).toUInt32)
  else .error (.unknownCapTag tag)

/-- One of the eight rounds per byte of `crc32`. -/
def crcBit (crc : UInt32) : UInt32 :=
  (crc >>> 1) ^^^ (0xEDB88320 &&& (0 - (crc &&& 1)))

def crc32 (data : List UInt8) : UInt32 :=
  ~~~ data.foldl (fun crc b => Nat.repeat crcBit 8 (crc ^^^ b.toUInt32)) 0xFFFFFFFF

/-- `u32::to_le_bytes`. -/
def le32Bytes (v : UInt32) : List UInt8 := leBytes 4 v.toNat

def le64Bytes (v : UInt64) : List UInt8 := leBytes 8 v.toNat

def le32 (b : List UInt8) (off : Nat) : Option UInt32 :=
  (slice b off 4).map fun v => UInt32.ofNat (leNat v)

def le64 (b : List UInt8) (off : Nat) : Option UInt64 :=
  (slice b off 8).map fun v => UInt64.ofNat (leNat v)

namespace Image

def encodedLen (img : Image) : Nat := imageBytes img.capCount

/-- The capability loop of `encode`: buffer and offset behind the last one. -/
def capsSchreiben : List ExternKind → List UInt8 → Nat → Option (List UInt8 × Nat)
  | [], out, o => some (out, o)
  | k :: caps, out, o => do
      let out ← writeSlice out o (le32Bytes (tagOf k).1)
      let o := o + 8
      let out ← writeSlice out o (le64Bytes (tagOf k).2)
      capsSchreiben caps out (o + 8)

/-- `encode`: the result and the buffer afterwards. -/
def encode (img : Image) (out : List UInt8) : Option (Except ImageError Nat × List UInt8) :=
  let total := img.encodedLen
  if out.length < total then some (.error .bufferTooSmall, out)
  else do
    let bodyLen := bodyFixed + img.capCount * capBytes
    let out ← writeSlice out 0 (List.replicate total 0)
    let out ← writeSlice out offMagic magic
    let out ← writeSlice out offVersion (le32Bytes formatVersion)
    let out ← writeSlice out offBodyLen (le32Bytes (UInt32.ofNat bodyLen))
    let o := offBody
    let out ← writeSlice out o img.kernelHash.toList
    let o := o + 32
    let out ← writeSlice out o (le64Bytes img.progress)
    let o := o + 8
    let out ← writeSlice out o (le64Bytes img.nonce)
    let o := o + 8
    let out ← writeSlice out o (le64Bytes img.epoch)
    let o := o + 8
    let out ← writeSlice out o (le32Bytes (UInt32.ofNat img.capCount))
    let o := o + 4
    let out ← writeSlice out o (le32Bytes img.preconditionBits)
    let o := o + 4
    let (out, o) ← capsSchreiben ((img.caps.toList.take img.capCount).filterMap id) out o
    let crc := crc32 (← slice out 0 o)
    let out ← writeSlice out o (le32Bytes crc)
    return (.ok total, out)

/-- The capability loop of `decode`: places `i` up to `i + n`. -/
def capsLesen (bytes : List UInt8) : Nat → Nat → Nat → Vector (Option ExternKind) maxCaps →
    Option (Except ImageError (Vector (Option ExternKind) maxCaps))
  | 0, _, _, caps => some (.ok caps)
  | n + 1, i, o, caps => do
      let tag ← le32 bytes o
      let v ← le64 bytes (o + 8)
      match kindOf tag v with
      | .error e => some (.error e)
      | .ok kind => capsLesen bytes n (i + 1) (o + capBytes) (caps.setIfInBounds i (some kind))

def decode (bytes : List UInt8) (expectKernel : Vector UInt8 32) :
    Option (Except ImageError Image) := do
  if bytes.length < offBody then return .error .truncated
  if (← slice bytes offMagic 8) ≠ magic then return .error .noImage
  let version ← le32 bytes offVersion
  if version ≠ formatVersion then return .error (.version version)
  let bodyLen := (← le32 bytes offBodyLen).toNat
  if bodyLen < bodyFixed ∨ (bodyLen - bodyFixed) % capBytes ≠ 0 then return .error .truncated
  let total := offBody + bodyLen + 4
  if bytes.length < total then return .error .truncated
  let capCount := (← le32 bytes (offBody + bCapcount)).toNat
  if maxCaps < capCount then return .error .capOverflow
  if bodyFixed + capCount * capBytes ≠ bodyLen then return .error .truncated
  let stored ← le32 bytes (offBody + bodyLen)
  if crc32 (← slice bytes 0 (offBody + bodyLen)) ≠ stored then return .error .checksum
  let hash ← slice bytes offBody 32
  if hash ≠ expectKernel.toList then return .error .foreignKernel
  let progress ← le64 bytes (offBody + bProgress)
  let nonce ← le64 bytes (offBody + bNonce)
  let epoch ← le64 bytes (offBody + bEpoch)
  let preconditionBits ← le32 bytes (offBody + bPrecond)
  match ← capsLesen bytes capCount 0 (offBody + bodyFixed) (Vector.replicate maxCaps none) with
  | .error e => return .error e
  | .ok caps =>
      -- The hash that was read is the expected one.
      return .ok ⟨expectKernel, progress, nonce, epoch, caps, capCount, preconditionBits⟩

end Image

@[simp] theorem le32Bytes_length (v : UInt32) : (le32Bytes v).length = 4 := leBytes_length 4 _

@[simp] theorem le64Bytes_length (v : UInt64) : (le64Bytes v).length = 8 := leBytes_length 8 _

theorem le32_eq_some {b : List UInt8} {off : Nat} {v : UInt32} :
    le32 b off = some v ↔ slice b off 4 = some (le32Bytes v) := slice_map_uint32

theorem le64_eq_some {b : List UInt8} {off : Nat} {v : UInt64} :
    le64 b off = some v ↔ slice b off 8 = some (le64Bytes v) := slice_map_uint64

theorem budget_or_period (budget period : UInt32) :
    (budget.toUInt64 ||| (period.toUInt64 <<< 32)).toNat =
      period.toNat * 2 ^ 32 + budget.toNat := by
  have hb := budget.toNat_lt
  have hp := period.toNat_lt
  have hshift : period.toNat <<< 32 % 2 ^ 64 = period.toNat <<< 32 := by
    rw [Nat.shiftLeft_eq]
    omega
  simp only [UInt64.toNat_or, UInt64.toNat_shiftLeft, UInt32.toNat_toUInt64]
  have h32 : (32 : UInt64).toNat % 64 = 32 := rfl
  rw [h32, hshift, Nat.or_comm, ← Nat.shiftLeft_add_eq_or_of_lt hb, Nat.shiftLeft_eq]

theorem kindOf_tagOf (k : ExternKind) : kindOf (tagOf k).1 (tagOf k).2 = .ok k := by
  cases k with
  | region len => rfl
  | endpoint i | notification i | tcb i => simp [kindOf, tagOf]
  | schedContext budget period =>
    have hb := budget.toNat_lt
    have hword := budget_or_period budget period
    have hbudget : (budget.toUInt64 ||| (period.toUInt64 <<< 32)).toUInt32 = budget := by
      apply UInt32.toNat_inj.mp
      rw [UInt64.toNat_toUInt32, hword]
      omega
    have hperiod : ((budget.toUInt64 ||| (period.toUInt64 <<< 32)) >>> 32).toUInt32 = period := by
      have hp := period.toNat_lt
      have h32 : (32 : UInt64).toNat % 64 = 32 := rfl
      apply UInt32.toNat_inj.mp
      rw [UInt64.toNat_toUInt32, UInt64.toNat_shiftRight, hword, h32, Nat.shiftRight_eq_div_pow]
      omega
    simp [kindOf, tagOf, hbudget, hperiod]

namespace Image

/-- The first places hold exactly `l`, the others are empty. -/
structure Traegt (img : Image) (l : List ExternKind) : Prop where
  le : l.length ≤ maxCaps
  count : img.capCount = l.length
  caps : img.caps.toList = l.map some ++ List.replicate (maxCaps - l.length) none

variable {l : List ExternKind} {img : Image}

theorem setIfInBounds_toList {caps : Vector (Option ExternKind) maxCaps}
    (hlt : l.length < maxCaps)
    (h : caps.toList = l.map some ++ List.replicate (maxCaps - l.length) none) (k : ExternKind) :
    (caps.setIfInBounds l.length (some k)).toList =
      (l ++ [k]).map some ++ List.replicate (maxCaps - (l ++ [k]).length) none := by
  have hset : (caps.setIfInBounds l.length (some k)).toList = caps.toList.set l.length (some k) := by
    simp
  have hfrei : maxCaps - l.length = (maxCaps - (l ++ [k]).length) + 1 := by
    simp only [List.length_append, List.length_singleton]
    omega
  rw [hset, h, List.set_append_right _ _ (by simp), hfrei, List.replicate_succ]
  simp

theorem Traegt.aufnehmen (h : img.Traegt l) (hne : img.capCount ≠ maxCaps) (k : ExternKind)
    (p : Option Precondition) : (img.aufnehmen k p).Traegt (l ++ [k]) := by
  have hlt : l.length < maxCaps := by
    have hle := h.le
    rw [h.count] at hne
    omega
  refine ⟨?_, ?_, ?_⟩
  · rw [List.length_append, List.length_singleton]
    exact hlt
  · simp [Image.aufnehmen, h.count]
  · show (img.caps.setIfInBounds img.capCount (some k)).toList = _
    rw [h.count]
    exact setIfInBounds_toList hlt h.caps k

theorem einsammeln_traegt {scope : Scope} {kinds : List (Option ObjectKind)} {slot : Nat}
    {img' : Image} (h : img.Traegt l) (heq : einsammeln scope slot kinds img = .ok img') :
    img'.kernelHash = img.kernelHash ∧ ∃ l', img'.Traegt l' := by
  induction kinds generalizing slot img l with
  | nil =>
    cases heq
    exact ⟨rfl, l, h⟩
  | cons k kinds ih =>
    cases k with
    | none => exact ih h heq
    | some k =>
      rw [einsammeln] at heq
      cases hk : classify k scope with
      | refused r =>
        rw [hk] at heq
        cases heq
      | portable kind p =>
        rw [hk] at heq
        dsimp only at heq
        split at heq
        · cases heq
        · next hne =>
          obtain ⟨hhash, hl⟩ := ih (h.aufnehmen hne kind p) heq
          exact ⟨hhash, hl⟩

theorem build_traegt {kernelHash : Vector UInt8 32} {progress nonce epoch : UInt64}
    {kinds : List (Option ObjectKind)} {scope : Scope} {subject : Nat} {edges : List Edge}
    (h : build kernelHash progress nonce epoch kinds scope subject edges = .ok img) :
    img.kernelHash = kernelHash ∧ ∃ l, img.Traegt l := by
  unfold build at h
  split at h
  · cases h
  · split at h
    · cases h
    · have hleer : Traegt ⟨kernelHash, progress, nonce, epoch, Vector.replicate maxCaps none, 0, 0⟩ [] :=
        ⟨by decide, rfl, rfl⟩
      exact einsammeln_traegt hleer h

def capFeld (k : ExternKind) : List UInt8 :=
  le32Bytes (tagOf k).1 ++ (List.replicate 4 0 ++ le64Bytes (tagOf k).2)

def festteil (img : Image) (n : Nat) : List UInt8 :=
  magic ++ (le32Bytes formatVersion ++ (le32Bytes (UInt32.ofNat (bodyFixed + n * capBytes)) ++
    (img.kernelHash.toList ++ (le64Bytes img.progress ++ (le64Bytes img.nonce ++
    (le64Bytes img.epoch ++ (le32Bytes (UInt32.ofNat n) ++ le32Bytes img.preconditionBits)))))))

def inhalt (img : Image) (l : List ExternKind) : List UInt8 :=
  img.festteil l.length ++ l.flatMap capFeld

def bytes (img : Image) (l : List ExternKind) : List UInt8 :=
  img.inhalt l ++ le32Bytes (crc32 (img.inhalt l))

@[simp] theorem capFeld_length (k : ExternKind) : (capFeld k).length = 16 := by
  simp [capFeld]

theorem festteil_length (img : Image) (n : Nat) :
    (img.festteil n).length = offBody + bodyFixed := by
  simp [festteil, magic, offBody, bodyFixed]

theorem inhalt_length (img : Image) (l : List ExternKind) :
    (img.inhalt l).length = offBody + bodyFixed + l.length * capBytes := by
  simp [inhalt, festteil_length, capBytes]

theorem bytes_length (img : Image) (l : List ExternKind) :
    (img.bytes l).length = imageBytes l.length := by
  simp [bytes, inhalt_length, imageBytes]

theorem capsSchreiben_eq (l : List ExternKind) (p r : List UInt8) (k : Nat) :
    capsSchreiben l (p ++ (List.replicate (l.length * 16 + k) 0 ++ r)) p.length =
      some ((p ++ l.flatMap capFeld) ++ (List.replicate k 0 ++ r), p.length + l.length * 16) := by
  induction l generalizing p with
  | nil => simp [capsSchreiben]
  | cons c l ih =>
    have hsplit : List.replicate (l.length * 16 + k + 12) (0 : UInt8) ++ r =
        List.replicate 4 0 ++ (List.replicate (l.length * 16 + k + 8) 0 ++ r) := by
      rw [← List.append_assoc, ← List.replicate_add]
      congr 2
      omega
    have hfeld : p ++ le32Bytes (tagOf c).1 ++ List.replicate 4 0 ++ le64Bytes (tagOf c).2 =
        p ++ capFeld c := by
      simp [capFeld]
    have hp : p.length + 8 + 8 = (p ++ capFeld c).length := by simp
    rw [capsSchreiben, writeSlice_append (k := l.length * 16 + k + 12) rfl (by simp; omega)]
    simp only [Option.bind_eq_bind, Option.bind_some]
    rw [hsplit, ← List.append_assoc _ (List.replicate 4 0),
      writeSlice_append (k := l.length * 16 + k) (by simp) (by simp; omega), Option.bind_some,
      hfeld, hp, ih]
    simp
    omega

theorem encode_eq_of_caps (hcaps : (img.caps.toList.take img.capCount).filterMap id = l)
    (hcount : img.capCount = l.length) {out : List UInt8} (hout : img.encodedLen ≤ out.length) :
    img.encode out = some (.ok img.encodedLen, img.bytes l ++ out.drop img.encodedLen) := by
  have hlen : img.encodedLen = l.length * 16 + 84 := by
    rw [encodedLen, hcount, imageBytes, offBody, bodyFixed, capBytes]
    omega
  have hnull : writeSlice out 0 (List.replicate img.encodedLen 0) =
      some ([] ++ (List.replicate (l.length * 16 + 84) 0 ++ out.drop img.encodedLen)) := by
    rw [writeSlice, if_pos (by simpa using hout), hlen]
    simp
  unfold encode
  rw [if_neg (by omega)]
  rw [hnull, hcaps]
  simp only [Option.bind_eq_bind, Option.bind_some]
  rw [writeSlice_append (k := l.length * 16 + 76) (by rfl) (by simp [magic]; omega), Option.bind_some,
    writeSlice_append (k := l.length * 16 + 72) (by rfl) (by simp; omega), Option.bind_some,
    writeSlice_append (k := l.length * 16 + 68) (by rfl) (by simp; omega), Option.bind_some,
    writeSlice_append (k := l.length * 16 + 36) (by rfl) (by simp; omega), Option.bind_some,
    writeSlice_append (k := l.length * 16 + 28) (by simp [magic, offBody]) (by simp; omega),
    Option.bind_some,
    writeSlice_append (k := l.length * 16 + 20) (by simp [magic, offBody]) (by simp; omega),
    Option.bind_some,
    writeSlice_append (k := l.length * 16 + 12) (by simp [magic, offBody]) (by simp; omega),
    Option.bind_some,
    writeSlice_append (k := l.length * 16 + 8) (by simp [magic, offBody]) (by simp; omega),
    Option.bind_some,
    writeSlice_append (k := l.length * 16 + 4) (by simp [magic, offBody]) (by simp; omega),
    Option.bind_some]
  have hkopf : [] ++ magic ++ le32Bytes formatVersion ++
      le32Bytes (UInt32.ofNat (bodyFixed + img.capCount * capBytes)) ++ img.kernelHash.toList ++
      le64Bytes img.progress ++ le64Bytes img.nonce ++ le64Bytes img.epoch ++
      le32Bytes (UInt32.ofNat img.capCount) ++ le32Bytes img.preconditionBits =
      img.festteil l.length := by
    rw [hcount]
    simp [festteil]
  have hbody : offBody + 32 + 8 + 8 + 8 + 4 + 4 = (img.festteil l.length).length := by
    rw [festteil_length]
    rfl
  rw [hkopf, hbody, capsSchreiben_eq, Option.bind_some, ← inhalt]
  have hende : (img.festteil l.length).length + l.length * 16 = (img.inhalt l).length := by
    rw [inhalt_length, festteil_length]
    rfl
  have hcrc : slice (img.inhalt l ++ (List.replicate 4 0 ++ out.drop img.encodedLen)) 0
      (img.inhalt l).length = some (img.inhalt l) :=
    slice_append (p := []) (by rfl) rfl rfl
  rw [hende, hcrc, Option.bind_some, writeSlice_append (k := 0) rfl (by simp), Option.bind_some]
  rfl

theorem Traegt.filterMap_caps (h : img.Traegt l) :
    (img.caps.toList.take img.capCount).filterMap id = l := by
  rw [h.caps, h.count, List.take_left' (by simp), List.filterMap_map]
  simp

theorem encode_eq (h : img.Traegt l) {out : List UInt8} (hout : img.encodedLen ≤ out.length) :
    img.encode out = some (.ok img.encodedLen, img.bytes l ++ out.drop img.encodedLen) :=
  encode_eq_of_caps h.filterMap_caps h.count hout

theorem capsLesen_eq (l l₀ : List ExternKind) (caps : Vector (Option ExternKind) maxCaps)
    {b p r : List UInt8} {o : Nat} (hle : (l₀ ++ l).length ≤ maxCaps)
    (h : caps.toList = l₀.map some ++ List.replicate (maxCaps - l₀.length) none)
    (hb : b = p ++ (l.flatMap capFeld ++ r)) (ho : o = p.length) :
    ∃ caps', capsLesen b l.length l₀.length o caps = some (.ok caps') ∧
      caps'.toList = (l₀ ++ l).map some ++ List.replicate (maxCaps - (l₀ ++ l).length) none := by
  induction l generalizing l₀ p o caps with
  | nil => exact ⟨caps, rfl, by simpa using h⟩
  | cons k l ih =>
    have htag : le32 b o = some (tagOf k).1 := by
      apply le32_eq_some.mpr
      refine slice_append (p := p)
        (r := List.replicate 4 0 ++ le64Bytes (tagOf k).2 ++ (l.flatMap capFeld ++ r)) ?_ ho
        (by simp)
      rw [hb]
      simp [capFeld]
    have hwert : le64 b (o + 8) = some (tagOf k).2 := by
      apply le64_eq_some.mpr
      refine slice_append (p := p ++ le32Bytes (tagOf k).1 ++ List.replicate 4 0)
        (r := l.flatMap capFeld ++ r) ?_ (by simp [ho]) (by simp)
      rw [hb]
      simp [capFeld]
    have hlt : l₀.length < maxCaps := by
      simp only [List.length_append, List.length_cons] at hle
      omega
    have hle' : (l₀ ++ [k] ++ l).length ≤ maxCaps := by simpa using hle
    have hb' : b = (p ++ capFeld k) ++ (l.flatMap capFeld ++ r) := by
      rw [hb]
      simp
    have ho' : o + capBytes = (p ++ capFeld k).length := by simp [ho, capBytes]
    obtain ⟨caps', heq, hcaps'⟩ := ih _ _ hle' (setIfInBounds_toList hlt h k) hb' ho'
    refine ⟨caps', ?_, by simpa using hcaps'⟩
    rw [List.length_cons, capsLesen, htag, hwert]
    simp only [Option.bind_eq_bind, Option.bind_some, kindOf_tagOf]
    rwa [List.length_append, List.length_singleton] at heq

structure Lesbar (img : Image) (l : List ExternKind) (b : List UInt8) : Prop where
  magic : slice b offMagic 8 = some magic
  version : le32 b offVersion = some formatVersion
  bodyLen : le32 b offBodyLen = some (UInt32.ofNat (bodyFixed + l.length * capBytes))
  hash : slice b offBody 32 = some img.kernelHash.toList
  progress : le64 b (offBody + bProgress) = some img.progress
  nonce : le64 b (offBody + bNonce) = some img.nonce
  epoch : le64 b (offBody + bEpoch) = some img.epoch
  capCount : le32 b (offBody + bCapcount) = some (UInt32.ofNat l.length)
  precond : le32 b (offBody + bPrecond) = some img.preconditionBits
  inhalt : slice b 0 (offBody + (bodyFixed + l.length * capBytes)) = some (img.inhalt l)
  crc : le32 b (offBody + (bodyFixed + l.length * capBytes)) = some (crc32 (img.inhalt l))

theorem lesbar_bytes (img : Image) (l : List ExternKind) (rest : List UInt8) :
    img.Lesbar l (img.bytes l ++ rest) := by
  let kopf := Checkpoint.magic ++ le32Bytes formatVersion ++
    le32Bytes (UInt32.ofNat (bodyFixed + l.length * capBytes))
  let stand := img.kernelHash.toList ++ le64Bytes img.progress ++ le64Bytes img.nonce ++
    le64Bytes img.epoch
  have hkopf : kopf.length = offBody := by simp [kopf, Checkpoint.magic, offBody]
  have hstand : stand.length = bCapcount := by simp [stand, bCapcount]
  have hb : img.bytes l ++ rest = kopf ++ (stand ++ (le32Bytes (UInt32.ofNat l.length) ++
      (le32Bytes img.preconditionBits ++ (l.flatMap capFeld ++
        (le32Bytes (crc32 (img.inhalt l)) ++ rest))))) := by
    simp [kopf, stand, bytes, Image.inhalt, festteil]
  have hinhalt : img.bytes l ++ rest =
      img.inhalt l ++ (le32Bytes (crc32 (img.inhalt l)) ++ rest) := by
    simp [bytes]
  have hlen : offBody + (bodyFixed + l.length * capBytes) = (img.inhalt l).length := by
    rw [inhalt_length, Nat.add_assoc]
  constructor
  · exact slice_append (p := []) (by rw [hb]; simp [kopf]; rfl) rfl rfl
  · exact le32_eq_some.mpr (slice_append (p := Checkpoint.magic) (by rw [hb]; simp [kopf]; rfl) rfl
      (by simp))
  · exact le32_eq_some.mpr (slice_append (p := Checkpoint.magic ++ le32Bytes formatVersion)
      (by rw [hb]; simp [kopf]; rfl) rfl (by simp))
  · exact slice_append (p := kopf) (by rw [hb]; simp [stand]; rfl) hkopf.symm (by simp)
  · exact le64_eq_some.mpr (slice_append (p := kopf ++ img.kernelHash.toList)
      (by rw [hb]; simp [stand]; rfl) (by simp [hkopf, bProgress]) (by simp))
  · exact le64_eq_some.mpr (slice_append
      (p := kopf ++ img.kernelHash.toList ++ le64Bytes img.progress)
      (by rw [hb]; simp [stand]; rfl) (by simp [hkopf, bNonce]) (by simp))
  · exact le64_eq_some.mpr (slice_append
      (p := kopf ++ img.kernelHash.toList ++ le64Bytes img.progress ++ le64Bytes img.nonce)
      (by rw [hb]; simp [stand]; rfl) (by simp [hkopf, bEpoch]) (by simp))
  · exact le32_eq_some.mpr (slice_append (p := kopf ++ stand) (by rw [hb]; simp; rfl)
      (by simp [hkopf, hstand]) (by simp))
  · exact le32_eq_some.mpr (slice_append (p := kopf ++ stand ++ le32Bytes (UInt32.ofNat l.length))
      (by rw [hb]; simp; rfl) (by simp [hkopf, hstand, bCapcount, bPrecond]) (by simp))
  · exact slice_append (p := []) hinhalt rfl hlen
  · exact le32_eq_some.mpr (slice_append hinhalt hlen (by simp))

theorem decode_bytes (h : img.Traegt l) (rest : List UInt8) :
    decode (img.bytes l ++ rest) img.kernelHash = some (.ok img) := by
  have hb := lesbar_bytes img l rest
  have hmax : l.length ≤ 16 := h.le
  have hcount : (UInt32.ofNat l.length).toNat = l.length := by
    apply UInt32.toNat_ofNat_of_lt'
    exact Nat.lt_of_le_of_lt hmax (by decide)
  have hbody : (UInt32.ofNat (bodyFixed + l.length * capBytes)).toNat =
      bodyFixed + l.length * capBytes := by
    have hle : bodyFixed + l.length * capBytes ≤ 320 := by
      simp only [bodyFixed, capBytes]
      omega
    apply UInt32.toNat_ofNat_of_lt'
    exact Nat.lt_of_le_of_lt hle (by decide)
  have hlang : ¬ (img.bytes l ++ rest).length < offBody + (bodyFixed + l.length * capBytes) + 4 := by
    rw [List.length_append, bytes_length, imageBytes]
    omega
  have hkurz : ¬ (img.bytes l ++ rest).length < offBody := by omega
  have hgrenze : ¬ (bodyFixed + l.length * capBytes < bodyFixed ∨
      (bodyFixed + l.length * capBytes - bodyFixed) % capBytes ≠ 0) := by
    rw [Nat.add_sub_cancel_left, Nat.mul_mod_left]
    omega
  have hrest : img.bytes l ++ rest = img.festteil l.length ++
      (l.flatMap capFeld ++ (le32Bytes (crc32 (img.inhalt l)) ++ rest)) := by
    simp [bytes, inhalt]
  obtain ⟨caps', hlesen, hcaps'⟩ := capsLesen_eq l [] (Vector.replicate maxCaps none)
    (by simpa using h.le) (by rfl) hrest (festteil_length img l.length).symm
  have hcaps : caps' = img.caps := by
    apply Vector.toList_inj.mp
    rw [hcaps', h.caps]
    rfl
  unfold decode
  simp only [Option.bind_eq_bind, Option.pure_def]
  rw [if_neg hkurz, hb.magic, Option.bind_some, if_neg (not_not.mpr rfl), hb.version,
    Option.bind_some, if_neg (not_not.mpr rfl), hb.bodyLen, Option.bind_some, hbody,
    if_neg hgrenze, if_neg hlang, hb.capCount, Option.bind_some, hcount, if_neg (not_lt.mpr h.le),
    if_neg (not_not.mpr rfl), hb.crc, Option.bind_some, hb.inhalt, Option.bind_some,
    if_neg (not_not.mpr rfl), hb.hash, Option.bind_some, if_neg (not_not.mpr rfl), hb.progress,
    Option.bind_some, hb.nonce, Option.bind_some, hb.epoch, Option.bind_some, hb.precond,
    Option.bind_some]
  rw [List.length_nil] at hlesen
  rw [hlesen, Option.bind_some, hcaps, ← h.count]

/-- For every image that `build` returns and every buffer, `encode` refuses without writing
when the buffer is too short; otherwise it writes bytes from which `decode` gets the image
back, whatever follows them. -/
theorem encode_decode (kernelHash : Vector UInt8 32) (progress nonce epoch : UInt64)
    (kinds : List (Option ObjectKind)) (scope : Scope) (subject : Nat) (edges : List Edge)
    (img : Image)
    (h : build kernelHash progress nonce epoch kinds scope subject edges = .ok img)
    (out : List UInt8) :
    (out.length < img.encodedLen ∧ img.encode out = some (.error .bufferTooSmall, out)) ∨
      (img.encodedLen ≤ out.length ∧ ∃ written, written.length = img.encodedLen ∧
        img.encode out = some (.ok img.encodedLen, written ++ out.drop img.encodedLen) ∧
        ∀ rest, decode (written ++ rest) kernelHash = some (.ok img)) := by
  obtain ⟨hhash, l, hl⟩ := build_traegt h
  by_cases hout : out.length < img.encodedLen
  · left
    exact ⟨hout, if_pos hout⟩
  · right
    rw [not_lt] at hout
    refine ⟨hout, img.bytes l, ?_, encode_eq hl hout, fun rest => ?_⟩
    · rw [bytes_length, encodedLen, hl.count]
    · rw [← hhash]
      exact decode_bytes hl rest

/-- Two capabilities and a sector of zeros. -/
theorem encode_decode_sector :
    ∃ img, build (Vector.replicate 32 7) 4711 1 3
        [some (.memory ⟨0, 4096⟩), some (.schedContext 4 10)] Scope.empty 1 [] = .ok img ∧
      ∃ written, img.encode (List.replicate 512 0) =
          some (.ok 116, written ++ (List.replicate 512 0).drop 116) ∧
        decode (written ++ List.replicate 396 0) (Vector.replicate 32 7) = some (.ok img) := by
  refine ⟨_, rfl, ?_⟩
  rcases encode_decode (Vector.replicate 32 7) 4711 1 3
      [some (.memory ⟨0, 4096⟩), some (.schedContext 4 10)] Scope.empty 1 [] _ rfl
      (List.replicate 512 0) with
    ⟨hlt, -⟩ | ⟨-, written, -, henc, hdec⟩
  · rw [List.length_replicate] at hlt
    exact absurd hlt (by decide)
  · exact ⟨written, henc, hdec _⟩

end Image

end Checkpoint

end Caprock.Cap
