import Mathlib.Data.List.Induction
import Caprock.Lib.Memory
import Caprock.Lib.Word

/-! # State that outlives a program

A region that survives a hot reload carries a header in front of its payload: a magic number, whose
state it is, in which version, how long it is and how often it was taken over.  `attach` refuses
instead of guessing, and whoever writes the payload does so through a view that leaves the header
out.

The journal of a run keeps what the calls returned.  Its entry and the bytes of the region agree
after every run.
-/

namespace Caprock.Region

open Bytes Memory Word

/-- `RegionView`: the range its holder may access. -/
structure RegionView where
  base : Nat
  len : Nat
  deriving DecidableEq, Repr

namespace RegionView

/-- The range of `n` bytes at `off` lies in the view. -/
def passt (v : RegionView) (off n : Nat) : Bool :=
  match checkedAdd off n with
  | none => false
  | some ende => ende ≤ v.len

def subview (v : RegionView) (off len : Nat) : Option RegionView :=
  if v.passt off len then some ⟨v.base + off, len⟩ else none

/-- `get` of a type of `w` bytes. -/
def get (v : RegionView) (m : Mem) (w off : Nat) : Option Nat :=
  if v.passt off w then some (leNat (load m (v.base + off) w)) else none

def copyFrom (v : RegionView) (m : Mem) (off : Nat) (src : List UInt8) : Bool × Mem :=
  if v.passt off src.length then (true, store m (v.base + off) src) else (false, m)

/-- `set` of a type of `w` bytes. -/
def set (v : RegionView) (m : Mem) (w off val : Nat) : Bool × Mem :=
  v.copyFrom m off (leBytes w val)

def fill (v : RegionView) (m : Mem) (byte : UInt8) : Mem :=
  store m v.base (List.replicate v.len byte)

/-- `with_bytes`: the closure may change the bytes, not their number. -/
def withBytes (v : RegionView) (m : Mem) (f : List UInt8 → List UInt8) : Mem :=
  store m v.base (f (load m v.base v.len))

theorem passt_iff {v : RegionView} {off n : Nat} :
    v.passt off n = true ↔ off + n ≤ v.len ∧ off + n < 2 ^ 64 := by
  unfold passt
  by_cases hfit : off + n < 2 ^ 64
  · rw [checkedAdd_eq hfit]
    simp only [decide_eq_true_eq]
    exact (and_iff_left hfit).symm
  · rw [checkedAdd, if_neg hfit]
    constructor
    · intro h
      cases h
    · intro h
      exact absurd h.2 hfit

theorem get_eq_some {v : RegionView} {m : Mem} {w off n : Nat} (h : off + w ≤ v.len)
    (hoff : off + w < 2 ^ 64) (hn : n < 256 ^ w)
    (hload : load m (v.base + off) w = leBytes w n) : v.get m w off = some n := by
  rw [get, if_pos (passt_iff.mpr ⟨h, hoff⟩), hload, leNat_leBytes hn]

theorem set_eq {v : RegionView} {m : Mem} {w off val : Nat} (h : off + w ≤ v.len)
    (hoff : off + w < 2 ^ 64) :
    (v.set m w off val).2 = store m (v.base + off) (leBytes w val) := by
  rw [set, copyFrom, if_pos (passt_iff.mpr (by rw [leBytes_length]; exact ⟨h, hoff⟩))]

theorem subview_eq {v : RegionView} {off len : Nat} (h : off + len ≤ v.len)
    (hoff : off + len < 2 ^ 64) : v.subview off len = some ⟨v.base + off, len⟩ :=
  if_pos (passt_iff.mpr ⟨h, hoff⟩)

end RegionView

def stateMagic : Nat := 0x53544154454C414B
def headerLen : Nat := 32
def offMagic : Nat := 0
def offProgram : Nat := 8
def offVersion : Nat := 12
def offPayloadLen : Nat := 16
def offGeneration : Nat := 20

inductive StateError where
  | noState
  | wrongProgram (found : Nat)
  | versionMismatch (found : Nat)
  | tooSmall
  | corrupt (payloadLen : Nat)
  | generationExhausted
  deriving DecidableEq, Repr

/-- `Handover`. -/
structure Handover where
  generation : Nat
  payloadLen : Nat
  deriving DecidableEq, Repr

/-- `init`: the magic number is written last. -/
def init (m : Mem) (v : RegionView) (programId stateVersion payloadLen : UInt32) :
    Except StateError Unit × Mem :=
  match checkedAdd headerLen payloadLen.toNat with
  | none => (.error .tooSmall, m)
  | some need =>
      if v.len < need then (.error .tooSmall, m)
      else
        match v.subview headerLen payloadLen.toNat with
        | none => (.error .tooSmall, m)
        | some payload =>
            let m := payload.fill m 0
            let m := (v.set m 4 offProgram programId.toNat).2
            let m := (v.set m 4 offVersion stateVersion.toNat).2
            let m := (v.set m 4 offPayloadLen payloadLen.toNat).2
            let m := (v.set m 4 offGeneration 0).2
            let m := (v.set m 8 24 0).2
            (.ok (), (v.set m 8 offMagic stateMagic).2)

def attachKopf (m : Mem) (v : RegionView) (programId stateVersion : UInt32) :
    Except StateError Handover × Mem :=
  match v.get m 4 offProgram with
  | none => (.error .tooSmall, m)
  | some foundProgram =>
      if foundProgram ≠ programId.toNat then (.error (.wrongProgram foundProgram), m)
      else
        match v.get m 4 offVersion with
        | none => (.error .tooSmall, m)
        | some foundVersion =>
            if foundVersion ≠ stateVersion.toNat then (.error (.versionMismatch foundVersion), m)
            else
              match v.get m 4 offPayloadLen with
              | none => (.error .tooSmall, m)
              | some payloadLen =>
                  if v.len < saturatingAdd headerLen payloadLen then
                    (.error (.corrupt payloadLen), m)
                  else
                    match v.get m 4 offGeneration with
                    | none => (.error .tooSmall, m)
                    | some gen =>
                        if gen + 1 < 2 ^ 32 then
                          (.ok ⟨gen + 1, payloadLen⟩, (v.set m 4 offGeneration (gen + 1)).2)
                        else (.error .generationExhausted, m)

def attach (m : Mem) (v : RegionView) (programId stateVersion : UInt32) :
    Except StateError Handover × Mem :=
  if v.len < headerLen then (.error .tooSmall, m)
  else if v.get m 8 offMagic ≠ some stateMagic then (.error .noState, m)
  else attachKopf m v programId stateVersion

def payload (m : Mem) (v : RegionView) : Option RegionView :=
  (v.get m 4 offPayloadLen).bind fun payloadLen => v.subview headerLen payloadLen

def generation (m : Mem) (v : RegionView) : Option Nat :=
  if v.get m 8 offMagic ≠ some stateMagic then none else v.get m 4 offGeneration

inductive Schreiben where
  | set (w off val : Nat)
  | copyFrom (off : Nat) (src : List UInt8)
  | fill (byte : UInt8)
  | withBytes (f : List UInt8 → List UInt8) (hf : ∀ l, (f l).length = l.length)

namespace Schreiben

def auf (p : RegionView) (m : Mem) : Schreiben → Bool × Mem
  | .set w off val => p.set m w off val
  | .copyFrom off src => p.copyFrom m off src
  | .fill byte => (true, p.fill m byte)
  | .withBytes f _ => (true, p.withBytes m f)

def neu (l : List UInt8) : Schreiben → List UInt8
  | .set w off val => l.take off ++ leBytes w val ++ l.drop (off + w)
  | .copyFrom off src => l.take off ++ src ++ l.drop (off + src.length)
  | .fill byte => List.replicate l.length byte
  | .withBytes f _ => f l

end Schreiben

/-- What a run returned since the last `init` that succeeded: by whom, in which version and how
long, how many attaches succeeded, and what was written. -/
structure Vermerk where
  program : UInt32
  version : UInt32
  payloadLen : UInt32
  uebernahmen : Nat
  inhalt : List UInt8

/-- Memory, and the journal of what the calls on the region returned. -/
structure Protokoll where
  mem : Mem
  vermerk : Option Vermerk

namespace Protokoll

inductive Op where
  | init (program version payloadLen : UInt32)
  | attach (program version : UInt32)
  | schreiben (w : Schreiben)

def Op.istAttach : Op → Bool
  | .attach _ _ => true
  | _ => false

def step (v : RegionView) (s : Protokoll) : Op → Protokoll
  | .init p ver len =>
      match Region.init s.mem v p ver len with
      | (.ok (), m) => ⟨m, some ⟨p, ver, len, 0, List.replicate len.toNat 0⟩⟩
      | (.error _, m) => ⟨m, s.vermerk⟩
  | .attach p ver =>
      match Region.attach s.mem v p ver with
      | (.ok _, m) => ⟨m, s.vermerk.map fun e => { e with uebernahmen := e.uebernahmen + 1 }⟩
      | (.error _, m) => ⟨m, s.vermerk⟩
  | .schreiben w =>
      match payload s.mem v with
      | none => s
      | some p =>
          match w.auf p s.mem with
          | (true, m) => ⟨m, s.vermerk.map fun e => { e with inhalt := w.neu e.inhalt }⟩
          | (false, m) => ⟨m, s.vermerk⟩

def lauf (v : RegionView) (m : Mem) (ops : List Op) : Protokoll := ops.foldl (step v) ⟨m, none⟩

end Protokoll

/-- The region carries what the entry says. -/
structure Vermerk.Liegt (e : Vermerk) (v : RegionView) (m : Mem) : Prop where
  platz : headerLen + e.payloadLen.toNat ≤ v.len
  magic : load m (v.base + offMagic) 8 = leBytes 8 stateMagic
  program : load m (v.base + offProgram) 4 = leBytes 4 e.program.toNat
  version : load m (v.base + offVersion) 4 = leBytes 4 e.version.toNat
  payloadLen : load m (v.base + offPayloadLen) 4 = leBytes 4 e.payloadLen.toNat
  generation : load m (v.base + offGeneration) 4 = leBytes 4 e.uebernahmen
  inhalt : load m (v.base + headerLen) e.payloadLen.toNat = e.inhalt

theorem u32_lt (x : UInt32) : x.toNat < 256 ^ 4 := x.toNat_lt

theorem headerLen_add_lt (x : UInt32) : headerLen + x.toNat < 2 ^ 64 := by
  have hlt := u32_lt x
  unfold headerLen
  omega

theorem init_cases (m : Mem) (v : RegionView) (p ver len : UInt32) :
    (headerLen + len.toNat ≤ v.len ∧ ∃ m', init m v p ver len = (.ok (), m') ∧
        Vermerk.Liegt ⟨p, ver, len, 0, List.replicate len.toNat 0⟩ v m') ∨
      init m v p ver len = (.error .tooSmall, m) := by
  have hword := headerLen_add_lt len
  unfold init
  rw [checkedAdd_eq hword]
  dsimp only
  by_cases hshort : v.len < headerLen + len.toNat
  · right
    rw [if_pos hshort]
  · left
    have hfit : headerLen + len.toNat ≤ v.len := Nat.le_of_not_lt hshort
    have h32 : 32 ≤ v.len := Nat.le_trans (Nat.le_add_right _ _) hfit
    refine ⟨hfit, ?_⟩
    rw [if_neg hshort, RegionView.subview_eq hfit hword]
    refine ⟨_, rfl, ?_⟩
    have hset : ∀ m w off val, off + w ≤ 32 →
        (v.set m w off val).2 = store m (v.base + off) (leBytes w val) :=
      fun m w off val hin => RegionView.set_eq (by omega) (by omega)
    have hfirst : ∀ (m : Mem) (off w val : Nat),
        load (store m (v.base + off) (leBytes w val)) (v.base + off) w = leBytes w val := by
      intro m off w val
      have hsame := load_store_same m (v.base + off) (leBytes w val)
      rwa [leBytes_length] at hsame
    have hskip : ∀ (m : Mem) (off w off' w' val : Nat), off + w ≤ off' ∨ off' + w' ≤ off →
        load (store m (v.base + off') (leBytes w' val)) (v.base + off) w =
          load m (v.base + off) w := by
      intro m off w off' w' val hdis
      apply load_store_of_disjoint
      rw [leBytes_length]
      omega
    rw [hset _ 4 offProgram _ (by decide), hset _ 4 offVersion _ (by decide),
      hset _ 4 offPayloadLen _ (by decide), hset _ 4 offGeneration _ (by decide),
      hset _ 8 24 _ (by decide), hset _ 8 offMagic _ (by decide)]
    constructor
    · exact hfit
    · exact hfirst ..
    · rw [hskip _ _ _ offMagic _ _ (by decide), hskip _ _ _ 24 _ _ (by decide),
        hskip _ _ _ offGeneration _ _ (by decide), hskip _ _ _ offPayloadLen _ _ (by decide),
        hskip _ _ _ offVersion _ _ (by decide)]
      exact hfirst ..
    · rw [hskip _ _ _ offMagic _ _ (by decide), hskip _ _ _ 24 _ _ (by decide),
        hskip _ _ _ offGeneration _ _ (by decide), hskip _ _ _ offPayloadLen _ _ (by decide)]
      exact hfirst ..
    · rw [hskip _ _ _ offMagic _ _ (by decide), hskip _ _ _ 24 _ _ (by decide),
        hskip _ _ _ offGeneration _ _ (by decide)]
      exact hfirst ..
    · rw [hskip _ _ _ offMagic _ _ (by decide), hskip _ _ _ 24 _ _ (by decide)]
      exact hfirst ..
    · have hbehind : ∀ off w, off + w ≤ 32 →
          headerLen + len.toNat ≤ off ∨ off + w ≤ headerLen := by
        intro off w hin
        right
        exact hin
      rw [hskip _ _ _ offMagic _ _ (hbehind _ _ (by decide)),
        hskip _ _ _ 24 _ _ (hbehind _ _ (by decide)),
        hskip _ _ _ offGeneration _ _ (hbehind _ _ (by decide)),
        hskip _ _ _ offPayloadLen _ _ (hbehind _ _ (by decide)),
        hskip _ _ _ offVersion _ _ (hbehind _ _ (by decide)),
        hskip _ _ _ offProgram _ _ (hbehind _ _ (by decide))]
      have hfill := load_store_same m (v.base + headerLen) (List.replicate len.toNat 0)
      rwa [List.length_replicate] at hfill

theorem Vermerk.Liegt.attach_cases {e : Vermerk} {v : RegionView} {m : Mem} (h : e.Liegt v m)
    (hgen : e.uebernahmen + 1 < 2 ^ 32) (p ver : UInt32) :
    (p = e.program ∧ ver = e.version ∧ ∃ m',
        attach m v p ver = (.ok ⟨e.uebernahmen + 1, e.payloadLen.toNat⟩, m') ∧
        Vermerk.Liegt { e with uebernahmen := e.uebernahmen + 1 } v m') ∨
      (¬ (p = e.program ∧ ver = e.version) ∧ ∃ err, attach m v p ver = (.error err, m)) := by
  have hlen : 32 ≤ v.len := Nat.le_trans (Nat.le_add_right _ _) h.platz
  have hword := headerLen_add_lt e.payloadLen
  have hmagic : v.get m 8 offMagic = some stateMagic :=
    RegionView.get_eq_some (show 0 + 8 ≤ v.len by omega) (by decide) (by decide) h.magic
  have hprogram : v.get m 4 offProgram = some e.program.toNat :=
    RegionView.get_eq_some (show 8 + 4 ≤ v.len by omega) (by decide) (u32_lt _) h.program
  have hversion : v.get m 4 offVersion = some e.version.toNat :=
    RegionView.get_eq_some (show 12 + 4 ≤ v.len by omega) (by decide) (u32_lt _) h.version
  have hpayload : v.get m 4 offPayloadLen = some e.payloadLen.toNat :=
    RegionView.get_eq_some (show 16 + 4 ≤ v.len by omega) (by decide) (u32_lt _) h.payloadLen
  have hgeneration : v.get m 4 offGeneration = some e.uebernahmen :=
    RegionView.get_eq_some (show 20 + 4 ≤ v.len by omega) (by decide)
      (show e.uebernahmen < 256 ^ 4 by omega) h.generation
  have hsat : ¬ v.len < saturatingAdd headerLen e.payloadLen.toNat := by
    have hplatz := h.platz
    unfold saturatingAdd
    omega
  unfold attach attachKopf
  rw [if_neg (show ¬ v.len < headerLen from Nat.not_lt.mpr hlen), hmagic,
    if_neg (not_not.mpr rfl), hprogram]
  dsimp only
  by_cases hp : e.program = p
  · subst hp
    rw [if_neg (not_not.mpr rfl), hversion]
    dsimp only
    by_cases hver : e.version = ver
    · subst hver
      left
      refine ⟨rfl, rfl, ?_⟩
      rw [if_neg (not_not.mpr rfl), hpayload]
      dsimp only
      rw [if_neg hsat, hgeneration]
      dsimp only
      rw [if_pos hgen]
      refine ⟨_, rfl, ?_⟩
      rw [RegionView.set_eq (show offGeneration + 4 ≤ v.len from show 20 + 4 ≤ v.len by omega)
        (by decide)]
      have hskip : ∀ off w, off + w ≤ 20 ∨ 24 ≤ off →
          load (store m (v.base + offGeneration) (leBytes 4 (e.uebernahmen + 1))) (v.base + off) w =
            load m (v.base + off) w := by
        intro off w hdis
        apply load_store_of_disjoint
        rw [leBytes_length]
        unfold offGeneration
        omega
      constructor
      · exact h.platz
      · rw [hskip _ _ (.inl (by decide))]
        exact h.magic
      · rw [hskip _ _ (.inl (by decide))]
        exact h.program
      · rw [hskip _ _ (.inl (by decide))]
        exact h.version
      · rw [hskip _ _ (.inl (by decide))]
        exact h.payloadLen
      · have hsame := load_store_same m (v.base + offGeneration) (leBytes 4 (e.uebernahmen + 1))
        rwa [leBytes_length] at hsame
      · rw [hskip _ _ (.inr (by decide))]
        exact h.inhalt
    · right
      refine ⟨fun hand => hver hand.2.symm, .versionMismatch e.version.toNat, ?_⟩
      rw [if_pos (fun heq => hver (UInt32.toNat_inj.mp heq))]
  · right
    refine ⟨fun hand => hp hand.1.symm, .wrongProgram e.program.toNat, ?_⟩
    rw [if_pos (fun heq => hp (UInt32.toNat_inj.mp heq))]

theorem attach_error {m : Mem} {v : RegionView} {p ver : UInt32} {err : StateError}
    (h : (attach m v p ver).1 = .error err) : (attach m v p ver).2 = m := by
  unfold attach attachKopf at h ⊢
  by_cases hlen : v.len < headerLen
  · rw [if_pos hlen]
  rw [if_neg hlen] at h ⊢
  by_cases hmagic : v.get m 8 offMagic ≠ some stateMagic
  · rw [if_pos hmagic]
  rw [if_neg hmagic] at h ⊢
  cases hprogram : v.get m 4 offProgram with
  | none => rfl
  | some foundProgram =>
  rw [hprogram] at h
  dsimp only at h ⊢
  by_cases hp : foundProgram ≠ p.toNat
  · rw [if_pos hp]
  rw [if_neg hp] at h ⊢
  cases hversion : v.get m 4 offVersion with
  | none => rfl
  | some foundVersion =>
  rw [hversion] at h
  dsimp only at h ⊢
  by_cases hver : foundVersion ≠ ver.toNat
  · rw [if_pos hver]
  rw [if_neg hver] at h ⊢
  cases hpayload : v.get m 4 offPayloadLen with
  | none => rfl
  | some payloadLen =>
  rw [hpayload] at h
  dsimp only at h ⊢
  by_cases hcorrupt : v.len < saturatingAdd headerLen payloadLen
  · rw [if_pos hcorrupt]
  rw [if_neg hcorrupt] at h ⊢
  cases hgen : v.get m 4 offGeneration with
  | none => rfl
  | some gen =>
  rw [hgen] at h
  dsimp only at h ⊢
  by_cases hnext : gen + 1 < 2 ^ 32
  · rw [if_pos hnext] at h
    cases h
  · rw [if_neg hnext]

theorem init_error {m : Mem} {v : RegionView} {p ver len : UInt32} {err : StateError}
    (h : (init m v p ver len).1 = .error err) : (init m v p ver len).2 = m := by
  rcases init_cases m v p ver len with ⟨-, m', hok, -⟩ | hfail
  · rw [hok] at h
    cases h
  · rw [hfail]

theorem Schreiben.auf_spec (w : Schreiben) (p : RegionView) (m : Mem) :
    (∀ x, x < p.base ∨ p.base + p.len ≤ x → (w.auf p m).2 x = m x) ∧
      load (w.auf p m).2 p.base p.len =
        if (w.auf p m).1 then w.neu (load m p.base p.len) else load m p.base p.len := by
  have hcopy : ∀ off src, (∀ x, x < p.base ∨ p.base + p.len ≤ x →
        (p.copyFrom m off src).2 x = m x) ∧
      load (p.copyFrom m off src).2 p.base p.len =
        if (p.copyFrom m off src).1 then
          (load m p.base p.len).take off ++ src ++ (load m p.base p.len).drop (off + src.length)
        else load m p.base p.len := by
    intro off src
    unfold RegionView.copyFrom
    by_cases hfit : p.passt off src.length = true
    · obtain ⟨hin, -⟩ := RegionView.passt_iff.mp hfit
      rw [if_pos hfit]
      constructor
      · intro x hx
        apply store_of_outside
        omega
      · exact load_store_inside m p.base off hin
    · rw [if_neg hfit]
      exact ⟨fun _ _ => rfl, rfl⟩
  cases w with
  | set w off val =>
    have hset := hcopy off (leBytes w val)
    rw [leBytes_length] at hset
    exact hset
  | copyFrom off src => exact hcopy off src
  | fill byte =>
    constructor
    · intro x hx
      apply store_of_outside
      rwa [List.length_replicate]
    · have hsame := load_store_same m p.base (List.replicate p.len byte)
      rw [List.length_replicate] at hsame
      simp only [auf, RegionView.fill, neu, load_length, if_true]
      exact hsame
  | withBytes f hf =>
    have hlen : (f (load m p.base p.len)).length = p.len := by rw [hf, load_length]
    constructor
    · intro x hx
      apply store_of_outside
      rwa [hlen]
    · have hsame := load_store_same m p.base (f (load m p.base p.len))
      rw [hlen] at hsame
      simp only [auf, RegionView.withBytes, neu, if_true]
      exact hsame

theorem Vermerk.Liegt.payload_eq {e : Vermerk} {v : RegionView} {m : Mem} (h : e.Liegt v m) :
    payload m v = some ⟨v.base + headerLen, e.payloadLen.toNat⟩ := by
  have hlen : 32 ≤ v.len := Nat.le_trans (Nat.le_add_right _ _) h.platz
  have hpayload : v.get m 4 offPayloadLen = some e.payloadLen.toNat :=
    RegionView.get_eq_some (show 16 + 4 ≤ v.len by omega) (by decide) (u32_lt _) h.payloadLen
  rw [payload, hpayload]
  exact RegionView.subview_eq h.platz (headerLen_add_lt _)

/-- The header lies outside of the payload. -/
theorem Vermerk.Liegt.schreiben {e : Vermerk} {v : RegionView} {m m' : Mem} (h : e.Liegt v m)
    (hm : ∀ x, x < v.base + headerLen → m' x = m x) {l : List UInt8}
    (hl : load m' (v.base + headerLen) e.payloadLen.toNat = l) :
    Vermerk.Liegt { e with inhalt := l } v m' := by
  have hkopf : ∀ off w, off + w ≤ headerLen → load m' (v.base + off) w = load m (v.base + off) w :=
    fun off w hin => load_congr fun x _ hx => hm x (by omega)
  constructor
  · exact h.platz
  · rw [hkopf _ _ (by decide)]
    exact h.magic
  · rw [hkopf _ _ (by decide)]
    exact h.program
  · rw [hkopf _ _ (by decide)]
    exact h.version
  · rw [hkopf _ _ (by decide)]
    exact h.payloadLen
  · rw [hkopf _ _ (by decide)]
    exact h.generation
  · exact hl

namespace Protokoll

/-- The journal agrees with the region, and counts no more attaches than there were. -/
def Stimmt (v : RegionView) (n : Nat) (s : Protokoll) : Prop :=
  ∀ e, s.vermerk = some e → e.Liegt v s.mem ∧ e.uebernahmen ≤ n

theorem step_stimmt {v : RegionView} {n : Nat} {s : Protokoll} (h : Stimmt v n s) (op : Op)
    (hn : n + 1 < 2 ^ 32) : Stimmt v (n + if op.istAttach then 1 else 0) (step v s op) := by
  cases op with
  | init p ver len =>
    rcases init_cases s.mem v p ver len with ⟨-, m', hok, hliegt⟩ | hfail
    · simp only [step, hok]
      intro e he
      cases he
      exact ⟨hliegt, Nat.zero_le _⟩
    · simp only [step, hfail]
      exact h
  | attach p ver =>
    change Stimmt v (n + 1) _
    cases hs : s.vermerk with
    | none =>
      intro e he
      simp only [step, hs] at he
      cases hres : attach s.mem v p ver with
      | mk res m =>
        rw [hres] at he
        cases res with
        | ok _ => cases he
        | error _ => cases he
    | some e =>
      obtain ⟨hliegt, hle⟩ := h e hs
      rcases hliegt.attach_cases (by omega) p ver with ⟨-, -, m', hok, hliegt'⟩ | ⟨-, err, hfail⟩
      · simp only [step, hok, hs]
        intro e' he'
        cases he'
        exact ⟨hliegt', Nat.succ_le_succ hle⟩
      · simp only [step, hfail, hs]
        intro e' he'
        cases he'
        exact ⟨hliegt, Nat.le_succ_of_le hle⟩
  | schreiben w =>
    cases hs : s.vermerk with
    | none =>
      intro e he
      cases hp : payload s.mem v with
      | none =>
        simp only [step, hp, hs] at he
        cases he
      | some p =>
        rcases hw : w.auf p s.mem with ⟨ok, m⟩
        simp only [step, hp, hw, hs] at he
        cases ok with
        | true => cases he
        | false => cases he
    | some e =>
      obtain ⟨hliegt, hle⟩ := h e hs
      obtain ⟨hout, hin⟩ := w.auf_spec ⟨v.base + headerLen, e.payloadLen.toNat⟩ s.mem
      rcases hw : w.auf ⟨v.base + headerLen, e.payloadLen.toNat⟩ s.mem with ⟨ok, m⟩
      rw [hw] at hout hin
      simp only [step, hliegt.payload_eq, hw, hs]
      have hkopf : ∀ x, x < v.base + headerLen → m x = s.mem x := fun x hx => hout x (.inl hx)
      rw [hliegt.inhalt] at hin
      cases ok with
      | true =>
        intro e' he'
        cases he'
        exact ⟨hliegt.schreiben hkopf hin, hle⟩
      | false =>
        intro e' he'
        cases he'
        exact ⟨hliegt.schreiben hkopf hin, hle⟩

theorem lauf_stimmt (v : RegionView) (m : Mem) (ops : List Op)
    (hfew : ops.countP Op.istAttach < 2 ^ 32 - 1) :
    Stimmt v (ops.countP Op.istAttach) (lauf v m ops) := by
  induction ops using List.reverseRecOn with
  | nil =>
    intro e he
    cases he
  | append_singleton ops op ih =>
    rw [List.countP_append, List.countP_singleton] at hfew ⊢
    have hstep := step_stimmt (ih (by omega)) op (by omega)
    rwa [lauf, List.foldl_append]

/-- What a region with an entry answers. -/
structure Uebergabe (v : RegionView) (s : Protokoll) (e : Vermerk) : Prop where
  attach_iff : ∀ p ver, (∃ hand, (attach s.mem v p ver).1 = .ok hand) ↔
    p = e.program ∧ ver = e.version
  attach_ok : ∀ p ver hand, (attach s.mem v p ver).1 = .ok hand →
    hand = ⟨e.uebernahmen + 1, e.payloadLen.toNat⟩
  inhalt : ∃ pl, payload s.mem v = some pl ∧ load s.mem pl.base pl.len = e.inhalt
  inhalt_attach : ∀ p ver, ∃ pl, payload (attach s.mem v p ver).2 v = some pl ∧
    load (attach s.mem v p ver).2 pl.base pl.len = e.inhalt

/-- What holds of every region. -/
structure Bewahrt (v : RegionView) (m : Mem) : Prop where
  kopf : ∀ w pl, payload m v = some pl →
    load (Schreiben.auf pl m w).2 v.base headerLen = load m v.base headerLen
  attach : ∀ p ver err, (attach m v p ver).1 = .error err → (attach m v p ver).2 = m
  init : ∀ p ver len err, (Region.init m v p ver len).1 = .error err →
    (Region.init m v p ver len).2 = m

theorem bewahrt (v : RegionView) (m : Mem) : Bewahrt v m := by
  refine ⟨?_, fun p ver err h => attach_error h, fun p ver len err h => init_error h⟩
  intro w pl hpl
  have hbase : pl.base = v.base + headerLen := by
    rw [payload, Option.bind_eq_some_iff] at hpl
    obtain ⟨n, -, hsub⟩ := hpl
    unfold RegionView.subview at hsub
    split at hsub
    · cases hsub
      rfl
    · cases hsub
  apply load_congr
  intro x _ hx
  exact (w.auf_spec pl m).1 x (.inl (by omega))

theorem uebergabe_of_stimmt {v : RegionView} {n : Nat} {s : Protokoll} {e : Vermerk}
    (h : Stimmt v n s) (hn : n + 1 < 2 ^ 32) (he : s.vermerk = some e) : Uebergabe v s e := by
  obtain ⟨hliegt, hle⟩ := h e he
  have hcases := hliegt.attach_cases (by omega)
  constructor
  · intro p ver
    rcases hcases p ver with ⟨hp, hver, m', hok, -⟩ | ⟨hno, err, hfail⟩
    · rw [hok]
      exact ⟨fun _ => ⟨hp, hver⟩, fun _ => ⟨_, rfl⟩⟩
    · rw [hfail]
      constructor
      · intro hsome
        obtain ⟨hand, hhand⟩ := hsome
        cases hhand
      · intro hyes
        exact absurd hyes hno
  · intro p ver hand hhand
    rcases hcases p ver with ⟨-, -, m', hok, -⟩ | ⟨-, err, hfail⟩
    · rw [hok] at hhand
      cases hhand
      rfl
    · rw [hfail] at hhand
      cases hhand
  · exact ⟨_, hliegt.payload_eq, hliegt.inhalt⟩
  · intro p ver
    rcases hcases p ver with ⟨-, -, m', hok, hliegt'⟩ | ⟨-, err, hfail⟩
    · rw [hok]
      exact ⟨_, hliegt'.payload_eq, hliegt'.inhalt⟩
    · rw [hfail]
      exact ⟨_, hliegt.payload_eq, hliegt.inhalt⟩

/-- **The state is handed over**, after every run of programs on every region: to the program and
the version of the last `init` and to no other, with the payload that was written last. -/
theorem lauf_uebergabe (v : RegionView) (m : Mem) (ops : List Op)
    (hfew : ops.countP Op.istAttach < 2 ^ 32 - 1) :
    (∀ e, (lauf v m ops).vermerk = some e → Uebergabe v (lauf v m ops) e) ∧
      Bewahrt v (lauf v m ops).mem := by
  refine ⟨fun e he => ?_, bewahrt v _⟩
  exact uebergabe_of_stimmt (lauf_stimmt v m ops hfew) (by omega) he

/-- Eight bytes of program 7 in version 3: another program is refused, the two bytes it wrote are
there after the reload. -/
theorem lauf_uebergabe_reload :
    ∃ e, (lauf ⟨0x1000, 48⟩ (fun _ => 0xFF) [.init 7 3 8, .schreiben (.copyFrom 2 [1, 2]),
        .attach 8 3, .attach 7 3]).vermerk = some e ∧ e.uebernahmen = 1 ∧
      e.inhalt = [0, 0, 1, 2, 0, 0, 0, 0] ∧
      Uebergabe ⟨0x1000, 48⟩ (lauf ⟨0x1000, 48⟩ (fun _ => 0xFF) [.init 7 3 8,
        .schreiben (.copyFrom 2 [1, 2]), .attach 8 3, .attach 7 3]) e := by
  refine ⟨⟨7, 3, 8, 1, [0, 0, 1, 2, 0, 0, 0, 0]⟩, rfl, rfl, rfl, ?_⟩
  exact (lauf_uebergabe ⟨0x1000, 48⟩ (fun _ => 0xFF) _ (by decide)).1 _ rfl

end Protokoll

end Caprock.Region
