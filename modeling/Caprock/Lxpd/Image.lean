import Mathlib.Data.Set.Function
import Caprock.Lib.Bytes
import Caprock.Lib.Checks
import Caprock.Lib.Word

/-! # The driver container

`LxpdImage.parse` accepts a container as a whole: header, exact length, every stub, trailer.
Against it stands the grammar `container`, which writes a container front to back.  The two are
compared range by range: each check of the parser is a statement about one range of the buffer,
and `slice_split` joins neighbouring ranges until the whole buffer is one.
-/

namespace Caprock.Lxpd

open Bytes Word Checks

def lxpdMagic : List UInt8 := [0x4C, 0x58, 0x50, 0x44]
def lxtrMagic : List UInt8 := [0x4C, 0x58, 0x54, 0x52]
def lxendMarker : List UInt8 := [0x4C, 0x58, 0x45, 0x4E, 0x44]
def stubLen : Nat := 32
def headerLen : Nat := 20
def maxTramps : Nat := 256
def nopPad : List UInt8 := List.replicate 16 0x90

inductive LxpdError where
  | tooSmall
  | badMagic
  | badCounts
  | badStub (id : UInt32)
  | badEnd
  | badManifest
  | badSignature
  | badGrants
  deriving DecidableEq, Repr

structure LxpdHeader where
  trampCount : UInt32
  rewiredCount : UInt32
  sectionSize : UInt64
  deriving DecidableEq, Repr

def rdU32 (d : List UInt8) (off : Nat) : Option UInt32 :=
  (slice d off 4).map fun b => UInt32.ofNat (leNat b)

def rdU64 (d : List UInt8) (off : Nat) : Option UInt64 :=
  (slice d off 8).map fun b => UInt64.ofNat (leNat b)

def parseHeader (data : List UInt8) : Except LxpdError LxpdHeader :=
  if data.length < lxpdMagic.length then .error .tooSmall
  else if slice data 0 lxpdMagic.length ≠ some lxpdMagic then .error .badMagic
  else if data.length < headerLen then .error .tooSmall
  else
    (okOr .tooSmall (rdU32 data 4)).bind fun trampCount =>
    (okOr .tooSmall (rdU32 data 8)).bind fun rewiredCount =>
    (okOr .tooSmall (rdU64 data 12)).bind fun sectionSize =>
    if maxTramps < trampCount.toNat then .error .badCounts
    else
      (okOr .badCounts (checkedMul trampCount.toNat stubLen)).bind fun wantSection =>
      if sectionSize.toNat ≠ wantSection then .error .badCounts
      else .ok ⟨trampCount, rewiredCount, sectionSize⟩

structure TrampInfo where
  id : UInt32
  familyHash : UInt32
  sourceHash : UInt32
  deriving DecidableEq, Repr

structure LxpdImage where
  data : List UInt8
  header : LxpdHeader
  deriving DecidableEq, Repr

def stubPruefen (data : List UInt8) (i : Nat) : Except LxpdError Unit :=
  (okOr .tooSmall (slice data (headerLen + i * stubLen) stubLen)).bind fun stub =>
  if slice stub 0 lxtrMagic.length ≠ some lxtrMagic then .error (.badStub (UInt32.ofNat i))
  else
    (okOr .tooSmall (rdU32 stub 4)).bind fun id =>
    if id.toNat ≠ i then .error (.badStub id)
    else if slice stub 16 (stubLen - 16) ≠ some nopPad then .error (.badStub id)
    else .ok ()

/-- `for i in 0..n`: the `rest` stubs from `i` on. -/
def stubsPruefen (data : List UInt8) : Nat → Nat → Except LxpdError Unit
  | 0, _ => .ok ()
  | rest + 1, i => (stubPruefen data i).bind fun _ => stubsPruefen data rest (i + 1)

namespace LxpdImage

def parse (data : List UInt8) : Except LxpdError LxpdImage :=
  (parseHeader data).bind fun header =>
  let n := header.trampCount.toNat
  (okOr .badCounts (checkedMul n stubLen)).bind fun stubsLen =>
  (okOr .badCounts ((checkedAdd headerLen stubsLen).bind fun t =>
    checkedAdd t lxendMarker.length)).bind fun total =>
  if data.length < total then .error .tooSmall
  else if total < data.length then .error .badCounts
  else
    (stubsPruefen data n 0).bind fun _ =>
    if slice data (headerLen + stubsLen) lxendMarker.length ≠ some lxendMarker then .error .badEnd
    else .ok ⟨data, header⟩

def trampCount (img : LxpdImage) : Nat := img.header.trampCount.toNat

def rewiredCount (img : LxpdImage) : UInt32 := img.header.rewiredCount

def trampoline (img : LxpdImage) (i : Nat) : Except LxpdError TrampInfo :=
  if img.trampCount ≤ i then .error .badCounts
  else
    (okOr .tooSmall (slice img.data (headerLen + i * stubLen) stubLen)).bind fun stub =>
    (okOr .tooSmall (rdU32 stub 4)).bind fun id =>
    (okOr .tooSmall (rdU32 stub 8)).bind fun familyHash =>
    (okOr .tooSmall (rdU32 stub 12)).bind fun sourceHash =>
    .ok ⟨id, familyHash, sourceHash⟩

end LxpdImage

def u32 (x : UInt32) : List UInt8 := leBytes 4 x.toNat

def u64 (x : UInt64) : List UInt8 := leBytes 8 x.toNat

/-- A stub: family and source under its number. -/
def stub (i : Nat) (s : UInt32 × UInt32) : List UInt8 :=
  lxtrMagic ++ (u32 (UInt32.ofNat i) ++ (u32 s.1 ++ (u32 s.2 ++ nopPad)))

/-- Stubs numbered from `i` on. -/
def stubs : Nat → List (UInt32 × UInt32) → List UInt8
  | _, [] => []
  | i, s :: rest => stub i s ++ stubs (i + 1) rest

def kopf (h : LxpdHeader) : List UInt8 :=
  lxpdMagic ++ (u32 h.trampCount ++ (u32 h.rewiredCount ++ u64 h.sectionSize))

def ansage (r : UInt32) (ss : List (UInt32 × UInt32)) : LxpdHeader where
  trampCount := UInt32.ofNat ss.length
  rewiredCount := r
  sectionSize := UInt64.ofNat (stubLen * ss.length)

/-- The container with the counter `r` and the stubs `ss`. -/
def container (r : UInt32) (ss : List (UInt32 × UInt32)) : List UInt8 :=
  kopf (ansage r ss) ++ (stubs 0 ss ++ lxendMarker)

@[simp] theorem u32_length (x : UInt32) : (u32 x).length = 4 := leBytes_length _ _

@[simp] theorem u64_length (x : UInt64) : (u64 x).length = 8 := leBytes_length _ _

@[simp] theorem stub_length (i : Nat) (s : UInt32 × UInt32) : (stub i s).length = stubLen := by
  simp [stub, lxtrMagic, nopPad, stubLen]

@[simp] theorem kopf_length (h : LxpdHeader) : (kopf h).length = headerLen := by
  simp [kopf, lxpdMagic, headerLen]

@[simp] theorem stubs_length (i : Nat) (ss : List (UInt32 × UInt32)) :
    (stubs i ss).length = ss.length * stubLen := by
  induction ss generalizing i with
  | nil => simp [stubs]
  | cons s ss ih =>
    rw [stubs, List.length_append, ih, stub_length, List.length_cons, Nat.succ_mul, Nat.add_comm]

theorem rdU32_eq_some {d : List UInt8} {off : Nat} {x : UInt32} :
    rdU32 d off = some x ↔ slice d off 4 = some (u32 x) := slice_map_uint32

theorem rdU64_eq_some {d : List UInt8} {off : Nat} {x : UInt64} :
    rdU64 d off = some x ↔ slice d off 8 = some (u64 x) := slice_map_uint64

theorem parseHeader_eq_ok {d : List UInt8} {h : LxpdHeader} :
    parseHeader d = .ok h ↔ slice d 0 headerLen = some (kopf h) ∧ h.trampCount.toNat ≤ maxTramps ∧
      h.sectionSize.toNat = h.trampCount.toNat * stubLen := by
  have hu := h.trampCount.toNat_lt
  have hkopf : slice d 0 headerLen = some (kopf h) ↔ slice d 0 4 = some lxpdMagic ∧
      slice d 4 4 = some (u32 h.trampCount) ∧ slice d 8 4 = some (u32 h.rewiredCount) ∧
      slice d 12 8 = some (u64 h.sectionSize) := by
    rw [kopf, show headerLen = 4 + (4 + (4 + 8)) from rfl, slice_split (m := 4) rfl (by simp),
      slice_split (m := 4) (by simp) (by simp), slice_split (m := 4) (by simp) (by simp)]
  have hmul : checkedMul h.trampCount.toNat stubLen = some (h.trampCount.toNat * stubLen) :=
    checkedMul_eq (by rw [stubLen]; omega)
  simp only [parseHeader, ite_error_eq_ok, bind_eq_ok, okOr_eq_ok, rdU32_eq_some, rdU64_eq_some,
    hkopf, not_not, Nat.not_lt]
  constructor
  · rintro ⟨-, hmagic, -, n, hn, r, hr, s, hs, hmax, w, hw, hsec, hok⟩
    cases hok
    rw [hmul] at hw
    cases hw
    exact ⟨⟨hmagic, hn, hr, hs⟩, hmax, hsec⟩
  · rintro ⟨⟨hmagic, hn, hr, hs⟩, hmax, hsec⟩
    have hlen := slice_le hs
    refine ⟨by simp only [lxpdMagic, List.length_cons, List.length_nil]; omega, hmagic,
      by rw [headerLen]; omega, _, hn, _, hr, _, hs, hmax, _, hmul, hsec, rfl⟩

theorem slice_stub {b : List UInt8} {off i : Nat} {s : UInt32 × UInt32} :
    slice b off stubLen = some (stub i s) ↔ slice b off 4 = some lxtrMagic ∧
      slice b (off + 4) 4 = some (u32 (UInt32.ofNat i)) ∧ slice b (off + 8) 4 = some (u32 s.1) ∧
      slice b (off + 12) 4 = some (u32 s.2) ∧ slice b (off + 16) 16 = some nopPad := by
  rw [stub, show stubLen = 4 + (4 + (4 + (4 + 16))) from rfl,
    slice_split (m := 4) rfl (by simp [nopPad]), slice_split (m := 4) (by simp) (by simp [nopPad]),
    slice_split (m := 4) (by simp) (by simp [nopPad]),
    slice_split (m := 4) (by simp) (by simp [nopPad])]

theorem stubPruefen_eq_ok {d : List UInt8} {i : Nat} (hi : i < 2 ^ 32) :
    stubPruefen d i = .ok () ↔
      ∃ s, slice d (headerLen + i * stubLen) stubLen = some (stub i s) := by
  simp only [stubPruefen, bind_eq_ok, ite_error_eq_ok, okOr_eq_ok, not_not]
  constructor
  · rintro ⟨b, hb, hmagic, id, hid, hnum, hnop, -⟩
    have hlen : b.length = 32 := slice_length hb
    have hfam : slice b 8 4 = some ((b.drop 8).take 4) := if_pos (by omega)
    have hsrc : slice b 12 4 = some ((b.drop 12).take 4) := if_pos (by omega)
    obtain ⟨f, hf⟩ : ∃ f, rdU32 b 8 = some f := ⟨_, by rw [rdU32, hfam]; rfl⟩
    obtain ⟨q, hq⟩ : ∃ q, rdU32 b 12 = some q := ⟨_, by rw [rdU32, hsrc]; rfl⟩
    have hid' : id = UInt32.ofNat i := by
      rw [← UInt32.toNat_inj, hnum, UInt32.toNat_ofNat', Nat.mod_eq_of_lt hi]
    subst hid'
    rw [rdU32_eq_some] at hid hf hq
    have hbytes : slice b 0 stubLen = some (stub i (f, q)) :=
      slice_stub.mpr ⟨hmagic, hid, hf, hq, hnop⟩
    have hb' := (slice_all (stub_length i (f, q))).mp ⟨hlen, hbytes⟩
    exact ⟨(f, q), by rw [hb, hb']⟩
  · rintro ⟨s, hs⟩
    obtain ⟨hmagic, hid, -, -, hnop⟩ := slice_stub.mp ((slice_all (stub_length i s)).mpr rfl).2
    exact ⟨_, hs, hmagic, UInt32.ofNat i, rdU32_eq_some.mpr hid,
      by rw [UInt32.toNat_ofNat', Nat.mod_eq_of_lt hi], hnop, trivial⟩

theorem stubsPruefen_eq_ok {d : List UInt8} {k i : Nat} (hi : i + k ≤ 2 ^ 32)
    (hd : headerLen + (i + k) * stubLen ≤ d.length) :
    stubsPruefen d k i = .ok () ↔ ∃ ss, ss.length = k ∧
      slice d (headerLen + i * stubLen) (k * stubLen) = some (stubs i ss) := by
  induction k generalizing i with
  | zero =>
    have hnil : slice d (headerLen + i * stubLen) 0 = some [] := by
      rw [slice, if_pos (by simpa using hd), List.take_zero]
    rw [Nat.zero_mul, hnil]
    simp only [stubsPruefen, true_iff]
    exact ⟨[], rfl, rfl⟩
  | succ k ih =>
    have hnext : headerLen + i * stubLen + stubLen = headerLen + (i + 1) * stubLen := by
      rw [Nat.succ_mul, Nat.add_assoc]
    have hweite : (k + 1) * stubLen = stubLen + k * stubLen := by
      rw [Nat.succ_mul, Nat.add_comm]
    have ih' := ih (i := i + 1) (by omega) (by rw [Nat.add_right_comm]; exact hd)
    rw [stubsPruefen, bind_eq_ok, hweite]
    constructor
    · rintro ⟨_, hkopf, hrest⟩
      obtain ⟨s, hs⟩ := (stubPruefen_eq_ok (by omega)).mp hkopf
      obtain ⟨ss, hlen, hss⟩ := ih'.mp hrest
      refine ⟨s :: ss, by rw [List.length_cons, hlen], ?_⟩
      rw [stubs, slice_split (stub_length i s) (by rw [stubs_length, hlen]), hnext]
      exact ⟨hs, hss⟩
    · rintro ⟨ss, hlen, hss⟩
      cases ss with
      | nil => cases hlen
      | cons s ss =>
        simp only [List.length_cons, Nat.add_right_cancel_iff] at hlen
        rw [stubs, slice_split (stub_length i s) (by rw [stubs_length, hlen]), hnext] at hss
        exact ⟨(), (stubPruefen_eq_ok (by omega)).mpr ⟨s, hss.1⟩, ih'.mpr ⟨ss, hlen, hss.2⟩⟩

theorem stubs_getElem {d : List UInt8} {i : Nat} {ss : List (UInt32 × UInt32)}
    (h : slice d (headerLen + i * stubLen) (ss.length * stubLen) = some (stubs i ss)) {j : Nat}
    (hj : j < ss.length) :
    slice d (headerLen + (i + j) * stubLen) stubLen = some (stub (i + j) ss[j]) := by
  induction ss generalizing i j with
  | nil => cases hj
  | cons s ss ih =>
    have hweite : (ss.length + 1) * stubLen = stubLen + ss.length * stubLen := by
      rw [Nat.succ_mul, Nat.add_comm]
    have hnext : headerLen + i * stubLen + stubLen = headerLen + (i + 1) * stubLen := by
      rw [Nat.succ_mul, Nat.add_assoc]
    rw [stubs, List.length_cons, hweite, slice_split (stub_length i s) (stubs_length _ _),
      hnext] at h
    cases j with
    | zero => exact h.1
    | succ j =>
      have hrec := ih h.2 (Nat.lt_of_succ_lt_succ hj)
      rw [Nat.add_right_comm] at hrec
      exact hrec

/-- The length that `parse` demands. -/
def gesamt (n : Nat) : Nat := headerLen + n * stubLen + lxendMarker.length

@[simp] theorem container_length (r : UInt32) (ss : List (UInt32 × UInt32)) :
    (container r ss).length = gesamt ss.length := by
  simp [container, gesamt, Nat.add_assoc]

/-- Each check of `parse` is a range of the buffer. -/
theorem parse_eq_ok {d : List UInt8} {img : LxpdImage} :
    LxpdImage.parse d = .ok img ↔ img.data = d ∧ img.trampCount ≤ maxTramps ∧
      img.header.sectionSize.toNat = img.trampCount * stubLen ∧ d.length = gesamt img.trampCount ∧
      slice d 0 headerLen = some (kopf img.header) ∧
      (∃ ss, ss.length = img.trampCount ∧
        slice d headerLen (img.trampCount * stubLen) = some (stubs 0 ss)) ∧
      slice d (headerLen + img.trampCount * stubLen) lxendMarker.length = some lxendMarker := by
  have hsum : ∀ n, n ≤ maxTramps → checkedMul n stubLen = some (n * stubLen) ∧
      ((checkedAdd headerLen (n * stubLen)).bind fun t =>
        checkedAdd t lxendMarker.length) = some (gesamt n) := by
    intro n hn
    rw [maxTramps] at hn
    have hbound : headerLen + n * stubLen + lxendMarker.length < 2 ^ 64 := by
      simp only [headerLen, stubLen, lxendMarker, List.length_cons, List.length_nil]
      omega
    rw [checkedMul_eq (by omega), checkedAdd_eq (by omega), Option.bind_some,
      checkedAdd_eq hbound]
    exact ⟨rfl, rfl⟩
  have hloop : ∀ n, n ≤ maxTramps → d.length = gesamt n → (stubsPruefen d n 0 = .ok () ↔
      ∃ ss, ss.length = n ∧ slice d headerLen (n * stubLen) = some (stubs 0 ss)) := by
    intro n hn hd
    rw [maxTramps] at hn
    have h := stubsPruefen_eq_ok (d := d) (k := n) (i := 0) (by omega)
      (by rw [hd, gesamt, Nat.zero_add]; omega)
    rwa [Nat.zero_mul, Nat.add_zero] at h
  simp only [LxpdImage.parse, bind_eq_ok, okOr_eq_ok, ite_error_eq_ok, not_not, Nat.not_lt]
  constructor
  · rintro ⟨h, hh, m, hm, t, ht, hle, hge, _, hstubs, htail, hok⟩
    cases hok
    obtain ⟨hkopf, hmax, hsec⟩ := parseHeader_eq_ok.mp hh
    rw [(hsum _ hmax).1] at hm
    cases hm
    rw [(hsum _ hmax).2] at ht
    cases ht
    have hd := Nat.le_antisymm hge hle
    exact ⟨rfl, hmax, hsec, hd, hkopf, (hloop _ hmax hd).mp hstubs, htail⟩
  · rintro ⟨rfl, hmax, hsec, hd, hkopf, hstubs, htail⟩
    exact ⟨_, parseHeader_eq_ok.mpr ⟨hkopf, hmax, hsec⟩, _, (hsum _ hmax).1, _, (hsum _ hmax).2,
      hd.ge, hd.le, (), (hloop _ hmax hd).mpr hstubs, htail, rfl⟩

theorem container_eq_iff {d : List UInt8} {r : UInt32} {ss : List (UInt32 × UInt32)} :
    d = container r ss ↔ d.length = gesamt ss.length ∧
      slice d 0 headerLen = some (kopf (ansage r ss)) ∧
      slice d headerLen (ss.length * stubLen) = some (stubs 0 ss) ∧
      slice d (headerLen + ss.length * stubLen) lxendMarker.length = some lxendMarker := by
  rw [← slice_all (container_length r ss), gesamt, Nat.add_assoc, container,
    slice_split (kopf_length _) (by simp), slice_split (stubs_length _ _) rfl, Nat.zero_add]

/-- What a container says: a counter and as many stubs as a driver may have. -/
structure Inhalt where
  rewired : UInt32
  paare : List (UInt32 × UInt32)
  paare_le : paare.length ≤ maxTramps

namespace Inhalt

def bytes (c : Inhalt) : List UInt8 := container c.rewired c.paare

def image (c : Inhalt) : LxpdImage := ⟨c.bytes, ansage c.rewired c.paare⟩

theorem trampCount_image (c : Inhalt) : c.image.trampCount = c.paare.length := by
  have hle := c.paare_le
  rw [maxTramps] at hle
  rw [LxpdImage.trampCount, image, ansage, UInt32.toNat_ofNat', Nat.mod_eq_of_lt (by omega)]

theorem sectionSize_image (c : Inhalt) :
    c.image.header.sectionSize.toNat = c.image.trampCount * stubLen := by
  have hle := c.paare_le
  rw [maxTramps] at hle
  rw [trampCount_image, image, ansage, UInt64.toNat_ofNat', Nat.mul_comm,
    Nat.mod_eq_of_lt (by rw [stubLen]; omega)]

theorem parse_bytes (c : Inhalt) : LxpdImage.parse c.bytes = .ok c.image := by
  obtain ⟨hlen, hkopf, hstubs, htail⟩ := container_eq_iff.mp (rfl : c.bytes = _)
  have hn := c.trampCount_image
  refine parse_eq_ok.mpr ⟨rfl, hn ▸ c.paare_le, c.sectionSize_image, ?_⟩
  rw [hn]
  exact ⟨hlen, hkopf, ⟨c.paare, rfl, hstubs⟩, htail⟩

theorem trampoline_image (c : Inhalt) {i : Nat} (hi : i < c.paare.length) :
    c.image.trampoline i = .ok ⟨UInt32.ofNat i, c.paare[i].1, c.paare[i].2⟩ := by
  obtain ⟨-, -, hstubs, -⟩ := container_eq_iff.mp (rfl : c.bytes = _)
  have hstub := stubs_getElem (i := 0) (by rwa [Nat.zero_mul, Nat.add_zero]) hi
  rw [Nat.zero_add] at hstub
  obtain ⟨-, hid, hfam, hsrc, -⟩ :=
    slice_stub.mp ((slice_all (stub_length i c.paare[i])).mpr rfl).2
  have hcount : ¬ c.image.trampCount ≤ i := by
    rw [trampCount_image]
    exact Nat.not_le.mpr hi
  simp only [LxpdImage.trampoline, ite_error_eq_ok, bind_eq_ok, okOr_eq_ok, rdU32_eq_some]
  exact ⟨hcount, _, hstub, _, hid, _, hfam, _, hsrc, rfl⟩

theorem exists_of_parse {d : List UInt8} {img : LxpdImage} (h : LxpdImage.parse d = .ok img) :
    ∃ c : Inhalt, d = c.bytes := by
  obtain ⟨rfl, hmax, hsec, hd, hkopf, ⟨ss, hlen, hss⟩, htail⟩ := parse_eq_ok.mp h
  have hheader : img.header = ansage img.rewiredCount ss := by
    have hcount : img.header.trampCount = UInt32.ofNat ss.length := by
      rw [hlen, LxpdImage.trampCount, UInt32.ofNat_toNat]
    have hsize : img.header.sectionSize = UInt64.ofNat (stubLen * ss.length) := by
      rw [hlen, Nat.mul_comm, ← hsec, UInt64.ofNat_toNat]
    rw [ansage, ← hcount, ← hsize]
    rfl
  rw [← hlen] at hd hss htail
  rw [hheader] at hkopf
  exact ⟨⟨img.rewiredCount, ss, hlen ▸ hmax⟩, container_eq_iff.mpr ⟨hd, hkopf, hss, htail⟩⟩

/-- The bytes determine the content: the readers find it again. -/
theorem bytes_injective : Function.Injective bytes := by
  intro c c' h
  have himg : c.image = c'.image := by
    have hparse := c.parse_bytes
    rw [h, c'.parse_bytes] at hparse
    exact (Except.ok.inj hparse).symm
  have hlen : c.paare.length = c'.paare.length := by
    rw [← c.trampCount_image, himg, c'.trampCount_image]
  have hrew : c.rewired = c'.rewired := congrArg LxpdImage.rewiredCount himg
  have hpaare : c.paare = c'.paare := by
    apply List.ext_getElem hlen
    intro i hi hi'
    have htramp := c.trampoline_image hi
    rw [himg, c'.trampoline_image hi'] at htramp
    injection htramp with htramp
    injection htramp with _ hfam hsrc
    exact Prod.ext hfam.symm hsrc.symm
  cases c
  cases c'
  cases hrew
  cases hpaare
  rfl

end Inhalt

/-- A buffer is accepted when it is the container of a counter and at most 256 pairs; the
readers give back what was written, and the accepted buffers stand for the contents one by one. -/
theorem container_grammar :
    (∀ d, (∃ img, LxpdImage.parse d = .ok img) ↔ ∃ c : Inhalt, d = c.bytes) ∧
    (∀ c : Inhalt, ∃ img, LxpdImage.parse c.bytes = .ok img ∧
      img.trampCount = c.paare.length ∧ img.rewiredCount = c.rewired ∧
      ∀ i (hi : i < c.paare.length),
        img.trampoline i = .ok ⟨UInt32.ofNat i, c.paare[i].1, c.paare[i].2⟩) ∧
    Set.BijOn Inhalt.bytes Set.univ {d | ∃ img, LxpdImage.parse d = .ok img} := by
  refine ⟨fun d => ⟨?_, ?_⟩, fun c => ?_, ?_, ?_, ?_⟩
  · rintro ⟨img, h⟩
    exact Inhalt.exists_of_parse h
  · rintro ⟨c, rfl⟩
    exact ⟨c.image, c.parse_bytes⟩
  · exact ⟨c.image, c.parse_bytes, c.trampCount_image, rfl, fun i hi => c.trampoline_image hi⟩
  · intro c _
    exact ⟨c.image, c.parse_bytes⟩
  · exact Inhalt.bytes_injective.injOn
  · rintro d ⟨img, h⟩
    obtain ⟨c, rfl⟩ := Inhalt.exists_of_parse h
    exact ⟨c, trivial, rfl⟩

end Caprock.Lxpd
