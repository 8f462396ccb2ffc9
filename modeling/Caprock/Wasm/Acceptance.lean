import Mathlib.Tactic.Ring
import Caprock.Lib.Leb128
import Caprock.Wasm.Modul

/-! # Accepted modules

A module is its header and a list of sections.  The reader looks for the first memory section with
an entry and reads the numbers there without regard for the end of the section; what it accepts is
compared with the modules that declare exactly one memory.
-/

namespace Caprock.Wasm

open Bytes Checks Panic Word
open Leb128 (Spells decode)

def ulebErgebnis (bytes : List UInt8) : Option (Nat × List UInt8) → Call WasmFehler (Nat × Nat)
  | none => .error (.err .unerwartetesEnde)
  | some (n, r) => .ok (n, bytes.length - r.length)

theorem and_7F (b : UInt8) : (b &&& 0x7F).toNat = b.toNat % 128 := by
  rw [UInt8.toNat_and]
  exact Nat.and_two_pow_sub_one_eq_mod b.toNat 7

theorem and_80 (b : UInt8) : b &&& 0x80 = 0 ↔ b.toNat < 128 := by
  have hbits : ∀ n : Fin 256, n.val &&& 128 = 0 ↔ n.val < 128 := by decide +kernel
  rw [← UInt8.toNat_inj, UInt8.toNat_and]
  exact hbits ⟨b.toNat, b.toNat_lt⟩

theorem or_shift {ergebnis stueck i : Nat} (he : ergebnis < 2 ^ (7 * i))
    (hs : stueck * 2 ^ (7 * i) < 2 ^ 32) :
    ergebnis ||| (stueck <<< (7 * i)) % 2 ^ 32 = ergebnis + 2 ^ (7 * i) * stueck := by
  rw [Nat.shiftLeft_eq, Nat.mod_eq_of_lt hs, Nat.mul_comm, Nat.or_comm,
    ← Nat.two_pow_add_eq_or_of_lt he, Nat.add_comm]

theorem ulebSchleife_sechstes (bytes : List UInt8) (k pos ergebnis : Nat) :
    ulebSchleife bytes (k + 1) pos ergebnis 35 = .error (.err .unerwartetesEnde) := by
  rw [ulebSchleife]
  cases bytes[pos]? with
  | none | some b => rfl

theorem ulebSchleife_eq {bytes : List UInt8} {k i pos ergebnis : Nat} (hk : k + i = 6) (hi : i ≤ 4)
    (he : ergebnis < 2 ^ (7 * i)) :
    ulebSchleife bytes k pos ergebnis (7 * i) =
      ulebErgebnis bytes ((decode (32 - 7 * i) (bytes.drop pos)).map fun x =>
        (ergebnis + 2 ^ (7 * i) * x.1, x.2)) := by
  induction k generalizing i pos ergebnis with
  | zero => omega
  | succ k ih =>
    rw [ulebSchleife]
    by_cases hpos : pos < bytes.length
    · rw [List.getElem?_eq_getElem hpos, List.drop_eq_getElem_cons hpos]
      generalize bytes[pos] = b
      rw [decode]
      change (if 35 ≤ 7 * i then _ else _) = _
      rw [if_neg (by omega), and_7F]
      have hb := b.toNat_lt
      by_cases hgross : 7 * i = 28 ∧ 0x0F < b.toNat % 128
      · obtain ⟨hi28, hstueck⟩ := hgross
        obtain rfl : i = 4 := by omega
        rw [if_pos ⟨rfl, hstueck⟩, if_neg (show ¬ 7 < 32 - 7 * 4 by decide)]
        by_cases hlast : b.toNat < 128
        · rw [if_pos hlast, if_neg (by omega)]
          rfl
        · rw [if_neg hlast]
          rfl
      · have hstueck : b.toNat % 128 * 2 ^ (7 * i) < 2 ^ 32 := by
          obtain rfl | rfl | rfl | rfl | rfl : i = 0 ∨ i = 1 ∨ i = 2 ∨ i = 3 ∨ i = 4 := by omega
          all_goals omega
        rw [if_neg hgross, shl_bind (by omega), or_shift he hstueck]
        by_cases hlast : b.toNat < 128
        · have hwidth : b.toNat < 2 ^ (32 - 7 * i) := by
            obtain rfl | rfl | rfl | rfl | rfl : i = 0 ∨ i = 1 ∨ i = 2 ∨ i = 3 ∨ i = 4 := by omega
            all_goals omega
          rw [if_pos ((and_80 b).mpr hlast), if_pos hlast, if_pos hwidth, Nat.mod_eq_of_lt hlast]
          refine congrArg Except.ok (congrArg (Prod.mk _) ?_)
          rw [List.length_drop]
          omega
        · rw [if_neg (fun h => hlast ((and_80 b).mp h)), if_neg hlast]
          by_cases hfour : i = 4
          · subst hfour
            obtain rfl : k = 1 := by omega
            rw [if_neg (show ¬ 7 < 32 - 7 * 4 by decide)]
            exact ulebSchleife_sechstes bytes 0 _ _
          · have hpow : 2 ^ (7 * (i + 1)) = 2 ^ (7 * i) * 128 := by rw [Nat.mul_add, Nat.pow_add]
            have hle : 2 ^ (7 * i) * (b.toNat % 128) ≤ 2 ^ (7 * i) * 127 :=
              Nat.mul_le_mul_left _ (by omega)
            have hmod : b.toNat % 128 = b.toNat - 128 := by omega
            have hrest : 32 - 7 * (i + 1) = 32 - 7 * i - 7 := by omega
            change ulebSchleife bytes k (pos + 1) _ (7 * (i + 1)) = _
            rw [if_pos (by omega), ih (by omega) (by omega) (by omega), hrest, Option.map_map,
              hpow, hmod]
            refine congrArg (ulebErgebnis bytes) (congrFun (congrArg Option.map ?_) _)
            funext x
            simp only [Function.comp_apply, Prod.mk.injEq, and_true]
            ring
    · rw [List.getElem?_eq_none (not_lt.mp hpos), List.drop_of_length_le (not_lt.mp hpos)]
      rfl

theorem leseUleb128_eq (bytes : List UInt8) (pos : Nat) :
    leseUleb128 bytes pos = ulebErgebnis bytes (decode 32 (bytes.drop pos)) := by
  have hloop : ulebSchleife bytes 6 pos 0 (7 * 0) = _ :=
    ulebSchleife_eq rfl (Nat.zero_le 4) Nat.zero_lt_one
  rw [leseUleb128, hloop]
  cases decode 32 (bytes.drop pos) with
  | none => rfl
  | some x => simp [ulebErgebnis]

theorem leseUleb128_ends (bytes : List UInt8) (pos : Nat) : Ends (leseUleb128 bytes pos) := by
  rw [leseUleb128_eq]
  cases decode 32 (bytes.drop pos) with
  | none => exact ends_err _
  | some x => exact ends_ok _

variable {bytes : List UInt8} {pos : Nat}

theorem drop_of_append {c r : List UInt8} (h : bytes.drop pos = c ++ r) :
    bytes.drop (pos + c.length) = r := by
  rw [← List.drop_drop, h, List.drop_left]

theorem leseUleb128_of_spells {n : Nat} {c r : List UInt8} (hc : Spells 32 n c)
    (h : bytes.drop pos = c ++ r) : leseUleb128 bytes pos = .ok (n, pos + c.length) := by
  have hlen := congrArg List.length h
  have hpos := List.length_pos_of_ne_nil hc.ne_nil
  rw [List.length_drop, List.length_append] at hlen
  rw [leseUleb128_eq, h, hc.decode_append]
  refine congrArg Except.ok (congrArg (Prod.mk n) ?_)
  omega

theorem spells_of_leseUleb128 {n p : Nat} (h : leseUleb128 bytes pos = .ok (n, p)) :
    ∃ c, Spells 32 n c ∧ p = pos + c.length ∧ bytes.drop pos = c ++ bytes.drop p := by
  rw [leseUleb128_eq] at h
  cases hd : decode 32 (bytes.drop pos) with
  | none =>
    rw [hd] at h
    cases h
  | some x =>
    obtain ⟨c, hc, heq⟩ := Leb128.exists_of_decode hd
    have hread := leseUleb128_of_spells hc heq
    rw [leseUleb128_eq, h] at hread
    cases hread
    exact ⟨c, hc, rfl, by rw [heq, drop_of_append heq]⟩

/-- A section as it lies in a module: the length is spelled out in front of the payload. -/
structure Sektion where
  kennziffer : UInt8
  laenge : List UInt8
  last : List UInt8
  gilt : Spells 32 last.length laenge

def Sektion.alsBytes (s : Sektion) : List UInt8 := s.kennziffer :: (s.laenge ++ s.last)

def kodiert (l : List Sektion) : List UInt8 := l.flatMap Sektion.alsBytes

def kopf : List UInt8 := wasmMagie ++ leBytes 4 wasmVersion

theorem kodiert_cons (s : Sektion) (l : List Sektion) :
    kodiert (s :: l) = s.kennziffer :: (s.laenge ++ (s.last ++ kodiert l)) := by
  rw [kodiert, List.flatMap_cons, Sektion.alsBytes, List.cons_append, List.append_assoc, kodiert]

theorem Sektion.unique {s t : Sektion} {x y : List UInt8}
    (h : s.kennziffer :: (s.laenge ++ (s.last ++ x)) =
      t.kennziffer :: (t.laenge ++ (t.last ++ y))) : s = t ∧ x = y := by
  obtain ⟨hk, hrest⟩ := List.cons.inj h
  obtain ⟨hlen, hl, hlast⟩ := s.gilt.unique t.gilt hrest
  obtain ⟨hlast, hxy⟩ := List.append_inj hlast hlen
  clear h hrest
  refine ⟨?_, hxy⟩
  cases s with
  | mk k l p hp =>
    cases hk
    cases hl
    cases hlast
    rfl

theorem kodiert_injective : Function.Injective kodiert := by
  intro l k h
  induction l generalizing k with
  | nil =>
    cases k with
    | nil => rfl
    | cons t k =>
      rw [kodiert_cons] at h
      cases h
  | cons s l ih =>
    cases k with
    | nil =>
      rw [kodiert_cons] at h
      cases h
    | cons t k =>
      rw [kodiert_cons, kodiert_cons] at h
      obtain ⟨rfl, hrest⟩ := Sektion.unique h
      rw [ih hrest]

def Sektion.Beginnt (s : Sektion) (k f m : Nat) : Prop :=
  ∃ c d e rest, Spells 32 k c ∧ Spells 32 f d ∧ Spells 32 m e ∧ s.last = c ++ (d ++ (e ++ rest))

def Sektion.LiestNull (s : Sektion) (r : List UInt8) : Prop :=
  ∃ c rest, Spells 32 0 c ∧ s.last ++ r = c ++ rest

variable {s : Sektion} {info info' : ModulInfo} {start ende k f m : Nat} {r : List UInt8}

theorem speicherLesen_ends (bytes : List UInt8) (start ende : Nat) (info : ModulInfo) :
    Ends (speicherLesen bytes start ende info) := by
  refine (leseUleb128_ends bytes start).bind fun (eintraege, p) _ => ?_
  refine Ends.ite (fun _ => ?_) fun _ => ends_ok _
  refine (leseUleb128_ends bytes p).bind fun (merkmale, p) _ => ?_
  refine (leseUleb128_ends bytes p).bind fun (min, p) _ => ?_
  refine Ends.ite (fun _ => ends_err _) fun _ => Ends.bind ?_ fun max _ => ends_ok _
  refine Ends.ite (fun _ => ?_) fun _ => ends_ok _
  refine (leseUleb128_ends bytes p).bind fun (m, p) _ => ?_
  exact Ends.ite (fun _ => ends_err _) fun _ => ends_ok _

theorem speicherLesen_null (h : bytes.drop start = s.last ++ r) (hs : s.LiestNull r) :
    speicherLesen bytes start ende info = .ok info := by
  obtain ⟨c, rest, hc, heq⟩ := hs
  rw [speicherLesen, leseUleb128_of_spells hc (h.trans heq)]
  rfl

theorem speicherLesen_eintrag (h : bytes.drop start = s.last ++ r)
    (hende : ende = start + s.last.length) (hs : s.Beginnt k f m) (hk : 0 < k) (hf : f % 2 = 0) :
    speicherLesen bytes start ende info =
      .ok { info with hatSpeicher := true, speicherMin := m, speicherMax := none } := by
  obtain ⟨c, d, e, rest, hc, hd, he, hlast⟩ := hs
  have h₁ : bytes.drop start = c ++ (d ++ (e ++ (rest ++ r))) := by
    rw [h, hlast]
    simp only [List.append_assoc]
  have h₂ := drop_of_append h₁
  have h₃ := drop_of_append h₂
  have hflag : ¬ f &&& 1 ≠ 0 := by
    rw [Nat.and_one_is_mod]
    omega
  have hin : ¬ ende < start + c.length + d.length + e.length := by
    have hlen := congrArg List.length hlast
    simp only [List.length_append] at hlen
    omega
  rw [speicherLesen, leseUleb128_of_spells hc h₁]
  change (if 0 < k then _ else _) = _
  rw [if_pos hk, leseUleb128_of_spells hd h₂]
  change Except.bind (leseUleb128 bytes (start + c.length + d.length)) _ = _
  rw [leseUleb128_of_spells he h₃]
  change (if ende < start + c.length + d.length + e.length then _ else _) = _
  rw [if_neg hin, if_neg hflag]
  rfl

theorem speicherLesen_cases (h : bytes.drop start = s.last ++ r)
    (hende : ende = start + s.last.length)
    (hok : speicherLesen bytes start ende info = .ok info') :
    info' = info ∧ s.LiestNull r ∨
      ∃ k f m max, 0 < k ∧ s.Beginnt k f m ∧ (max = none → f % 2 = 0) ∧
        info' = { info with hatSpeicher := true, speicherMin := m, speicherMax := max } := by
  obtain ⟨⟨k, p₁⟩, hk, hok⟩ := bind_eq_ok.mp hok
  obtain ⟨c, hc, rfl, h₁⟩ := spells_of_leseUleb128 hk
  dsimp only at hok
  by_cases hpos : 0 < k
  · rw [if_pos hpos] at hok
    obtain ⟨⟨f, p₂⟩, hf, hok⟩ := bind_eq_ok.mp hok
    obtain ⟨d, hd, rfl, h₂⟩ := spells_of_leseUleb128 hf
    obtain ⟨⟨m, p₃⟩, hm, hok⟩ := bind_eq_ok.mp hok
    obtain ⟨e, he, rfl, h₃⟩ := spells_of_leseUleb128 hm
    obtain ⟨hin, hok⟩ := ite_error_eq_ok.mp hok
    obtain ⟨max, hmax, hok⟩ := bind_eq_ok.mp hok
    cases hok
    have hread : c ++ (d ++ e) <+: s.last ++ r := by
      rw [← h, h₁, h₂, h₃]
      simp only [← List.append_assoc]
      exact List.prefix_append _ _
    have hlen : (c ++ (d ++ e)).length ≤ s.last.length := by
      simp only [List.length_append]
      omega
    obtain ⟨rest, hrest⟩ :=
      List.prefix_of_prefix_length_le hread (List.prefix_append s.last r) hlen
    refine .inr ⟨k, f, m, max, hpos, ⟨c, d, e, rest, hc, hd, he, ?_⟩, fun hnone => ?_, rfl⟩
    · rw [← hrest]
      simp only [List.append_assoc]
    · subst hnone
      by_cases hflag : f &&& 1 ≠ 0
      · rw [if_pos hflag] at hmax
        obtain ⟨⟨x, p₄⟩, -, hmax⟩ := bind_eq_ok.mp hmax
        obtain ⟨-, hmax⟩ := ite_error_eq_ok.mp hmax
        cases hmax
      · rw [not_not, Nat.and_one_is_mod] at hflag
        exact hflag
  · rw [if_neg hpos] at hok
    cases hok
    obtain rfl : k = 0 := by omega
    exact .inl ⟨rfl, c, _, hc, h.symm.trans h₁⟩

/-- A turn of the loop: there is a section at the position, and the loop goes on behind it, or there
is none and the loop ends with an error. -/
theorem sektionenLesen_step (hpos : pos < bytes.length) :
    (∃ (s : Sektion) (start ende : Nat), pos < ende ∧ ende ≤ bytes.length ∧
      bytes.drop pos = s.kennziffer :: (s.laenge ++ (s.last ++ bytes.drop ende)) ∧
      bytes.drop start = s.last ++ bytes.drop ende ∧ ende = start + s.last.length ∧
      ∀ k info, sektionenLesen bytes (k + 1) pos info =
        (if s.kennziffer = sektionSpeicher ∧ info.hatSpeicher = false then
          speicherLesen bytes start ende info
        else .ok info).bind fun info =>
        sektionenLesen bytes k ende { info with sektionen := (info.sektionen + 1) % 2 ^ 32 }) ∨
    (∀ k info, ∃ e, sektionenLesen bytes (k + 1) pos info = .error (.err e)) ∧
      ∀ (s : Sektion) (r : List UInt8),
        bytes.drop pos ≠ s.kennziffer :: (s.laenge ++ (s.last ++ r)) := by
  have hstep : ∀ k info, sektionenLesen bytes (k + 1) pos info =
      (leseUleb128 bytes (pos + 1)).bind fun x =>
      if bytes.length - x.2 < x.1 then .error (.err .sektionAbgeschnitten)
      else
        (if bytes[pos] = sektionSpeicher ∧ info.hatSpeicher = false then
          speicherLesen bytes x.2 (x.2 + x.1) info
        else .ok info).bind fun info =>
        sektionenLesen bytes k (x.2 + x.1)
          { info with sektionen := (info.sektionen + 1) % 2 ^ 32 } := by
    intro k info
    rw [sektionenLesen, if_pos hpos, List.getElem?_eq_getElem hpos]
    rfl
  have hcons := List.drop_eq_getElem_cons hpos
  obtain ⟨⟨n, start⟩, hn⟩ | ⟨e, he⟩ := (leseUleb128_ends bytes (pos + 1)).cases
  · obtain ⟨c, hc, hstart, hdrop⟩ := spells_of_leseUleb128 hn
    by_cases hfit : bytes.length - start < n
    · refine .inr ⟨fun k info => ⟨.sektionAbgeschnitten, ?_⟩, fun s r hs => ?_⟩
      · rw [hstep, hn]
        exact if_pos hfit
      · obtain ⟨-, hrest⟩ := List.cons.inj (hcons.symm.trans hs)
        obtain ⟨rfl, -, hlast⟩ := hc.unique s.gilt (hdrop.symm.trans hrest)
        have hlen := congrArg List.length hlast
        rw [List.length_drop, List.length_append] at hlen
        omega
    · have hlast : ((bytes.drop start).take n).length = n := by
        rw [List.length_take, List.length_drop]
        omega
      have hsplit : bytes.drop start = (bytes.drop start).take n ++ bytes.drop (start + n) := by
        rw [← List.drop_drop, List.take_append_drop]
      have hbound : start ≤ bytes.length := by
        have hlen := congrArg List.length hdrop
        simp only [List.length_append, List.length_drop] at hlen
        omega
      refine .inl ⟨⟨bytes[pos], c, (bytes.drop start).take n, hlast.symm ▸ hc⟩, start, start + n,
        by omega, by omega, ?_, hsplit, by rw [hlast], fun k info => ?_⟩
      · rw [hcons, hdrop, ← hsplit]
      · rw [hstep, hn]
        exact if_neg hfit
  · refine .inr ⟨fun k info => ⟨e, ?_⟩, fun s r hs => ?_⟩
    · rw [hstep, he]
      rfl
    · obtain ⟨-, hrest⟩ := List.cons.inj (hcons.symm.trans hs)
      rw [leseUleb128_of_spells s.gilt hrest] at he
      cases he

theorem sektionenLesen_ends {k : Nat} (hk : bytes.length - pos < k) (info : ModulInfo) :
    Ends (sektionenLesen bytes k pos info) := by
  induction k generalizing pos info with
  | zero => omega
  | succ k ih =>
    by_cases hpos : pos < bytes.length
    · obtain ⟨s, start, ende, hlt, hle, -, -, -, hstep⟩ | ⟨herr, -⟩ := sektionenLesen_step hpos
      · rw [hstep]
        refine Ends.bind ?_ fun info' _ => ih (by omega) _
        exact Ends.ite (fun _ => speicherLesen_ends bytes start ende info) fun _ => ends_ok _
      · obtain ⟨e, he⟩ := herr k info
        rw [he]
        exact ends_err e
    · rw [sektionenLesen, if_neg hpos]
      exact ends_ok info

theorem parseModul_ends (bytes : List UInt8) : Ends (parseModul bytes) := by
  unfold parseModul
  refine Ends.ite (fun _ => ends_err _) fun _ => Ends.ite (fun _ => ends_err _) fun hlen => ?_
  rw [reads_eq (by omega), reads_eq (by omega)]
  refine Ends.ite (fun _ => ends_err _) fun _ => Ends.ite (fun _ => ends_err _) fun _ => ?_
  exact sektionenLesen_ends (by omega) _

theorem kodiert_append (l k : List Sektion) : kodiert (l ++ k) = kodiert l ++ kodiert k :=
  List.flatMap_append

def LesenNull : List Sektion → List UInt8 → Prop
  | [], _ => True
  | s :: l, r => (s.kennziffer = sektionSpeicher → s.LiestNull (kodiert l ++ r)) ∧ LesenNull l r

/-- The bytes are sections, and `t` is the first memory section with an entry, as the reader sees
them: `k` entries, even flags `f` and a minimum `m` within the section. -/
structure ErsterEintrag (b : List UInt8) (davor : List Sektion) (t : Sektion)
    (danach : List Sektion) (k f m : Nat) : Prop where
  bytes : b = kodiert (davor ++ t :: danach)
  davor : LesenNull davor (kodiert (t :: danach))
  kennziffer : t.kennziffer = sektionSpeicher
  anzahl : 0 < k
  merkmale : f % 2 = 0
  eintrag : t.Beginnt k f m
  min : 0 < m

theorem ErsterEintrag.cons {davor danach : List Sektion} {t : Sektion} {b : List UInt8} {n : Nat}
    (h : ErsterEintrag b davor t danach n f m)
    (hs : s.kennziffer = sektionSpeicher → s.LiestNull b) :
    ErsterEintrag (s.kennziffer :: (s.laenge ++ (s.last ++ b))) (s :: davor) t danach n f m where
  bytes := by rw [List.cons_append, kodiert_cons, h.bytes]
  davor := ⟨fun hk => by rw [← kodiert_append, ← h.bytes]; exact hs hk, h.davor⟩
  kennziffer := h.kennziffer
  anzahl := h.anzahl
  merkmale := h.merkmale
  eintrag := h.eintrag
  min := h.min

/-- The section in front is `t` itself, or it reads zero. -/
theorem ErsterEintrag.front {davor danach : List Sektion} {t : Sektion} {b : List UInt8} {n : Nat}
    (h : ErsterEintrag (s.kennziffer :: (s.laenge ++ (s.last ++ b))) davor t danach n f m) :
    davor = [] ∧ t = s ∧ b = kodiert danach ∨
      ∃ rest, davor = s :: rest ∧ (s.kennziffer = sektionSpeicher → s.LiestNull b) ∧
        ErsterEintrag b rest t danach n f m := by
  have hb := h.bytes
  cases davor with
  | nil =>
    rw [List.nil_append, kodiert_cons] at hb
    obtain ⟨rfl, rfl⟩ := Sektion.unique hb
    exact .inl ⟨rfl, rfl, rfl⟩
  | cons s' rest =>
    rw [List.cons_append, kodiert_cons] at hb
    obtain ⟨rfl, hrest⟩ := Sektion.unique hb
    obtain ⟨hnull, hdavor⟩ := h.davor
    rw [← kodiert_append, ← hrest] at hnull
    exact .inr ⟨rest, rfl, hnull, ⟨hrest, hdavor, h.kennziffer, h.anzahl, h.merkmale, h.eintrag,
      h.min⟩⟩

theorem validiere_eq_ok : validiere info = .ok m ↔
    info.hatSpeicher = true ∧ info.speicherMin = m ∧ 0 < m ∧ info.speicherMax = none := by
  unfold validiere
  rw [ite_error_eq_ok]
  simp only [not_or, Bool.not_eq_false, Option.isSome_iff_ne_none, not_not, Except.ok.injEq]
  constructor
  · rintro ⟨⟨hhat, hmin, hmax⟩, rfl⟩
    exact ⟨hhat, rfl, Nat.pos_of_ne_zero hmin, hmax⟩
  · rintro ⟨hhat, rfl, hmin, hmax⟩
    exact ⟨⟨hhat, Nat.ne_of_gt hmin, hmax⟩, rfl⟩

theorem sektionenLesen_weiter {k : Nat} (hk : bytes.length - pos < k) (hpos : pos ≤ bytes.length)
    (hinfo : info.hatSpeicher = true) :
    (∃ info', sektionenLesen bytes k pos info = .ok info' ∧ validiere info' = .ok m) ↔
      (∃ l, bytes.drop pos = kodiert l) ∧ validiere info = .ok m := by
  induction k generalizing pos info with
  | zero => omega
  | succ k ih =>
    by_cases hlt : pos < bytes.length
    · obtain ⟨s, start, ende, hlt, hle, hdrop, -, -, hstep⟩ | ⟨herr, hnone⟩ :=
        sektionenLesen_step hlt
      · have hskip : ¬ (s.kennziffer = sektionSpeicher ∧ info.hatSpeicher = false) := by
          rw [hinfo]
          exact fun h => by cases h.2
        have hcount : ({ info with sektionen := (info.sektionen + 1) % 2 ^ 32 } :
            ModulInfo).hatSpeicher = true := hinfo
        rw [hstep, if_neg hskip]
        refine (ih (by omega) hle hcount).trans (and_congr_left fun _ => ?_)
        rw [hdrop]
        constructor
        · rintro ⟨l, hl⟩
          exact ⟨s :: l, by rw [kodiert_cons, hl]⟩
        · rintro ⟨l, hl⟩
          cases l with
          | nil => cases hl
          | cons t l =>
            rw [kodiert_cons] at hl
            exact ⟨l, (Sektion.unique hl).2⟩
      · obtain ⟨e, he⟩ := herr k info
        rw [he]
        constructor
        · rintro ⟨info', h, -⟩
          cases h
        · rintro ⟨⟨l, hl⟩, -⟩
          cases l with
          | nil => exact absurd hlt (not_lt.mpr (List.drop_eq_nil_iff.mp hl))
          | cons s l => exact absurd (hl.trans (kodiert_cons s l)) (hnone s _)
    · rw [sektionenLesen, if_neg hlt, List.drop_of_length_le (not_lt.mp hlt)]
      constructor
      · rintro ⟨info', h, hm⟩
        cases h
        exact ⟨⟨[], rfl⟩, hm⟩
      · rintro ⟨-, hm⟩
        exact ⟨info, rfl, hm⟩

theorem sektionenLesen_iff {k : Nat} (hk : bytes.length - pos < k) (hpos : pos ≤ bytes.length)
    (hinfo : info.hatSpeicher = false) :
    (∃ info', sektionenLesen bytes k pos info = .ok info' ∧ validiere info' = .ok m) ↔
      ∃ davor t danach n f, ErsterEintrag (bytes.drop pos) davor t danach n f m := by
  induction k generalizing pos info with
  | zero => omega
  | succ k ih =>
    by_cases hlt : pos < bytes.length
    · obtain ⟨s, start, ende, hlt, hle, hdrop, hstart, hende, hstep⟩ | ⟨herr, hnone⟩ :=
        sektionenLesen_step hlt
      · have hcount : ({ info with sektionen := (info.sektionen + 1) % 2 ^ 32 } :
            ModulInfo).hatSpeicher = false := hinfo
        rw [hstep]
        constructor
        · rintro ⟨info', hok, hm⟩
          obtain ⟨info₁, hsec, hlauf⟩ := bind_eq_ok.mp hok
          have hskip : info₁ = info → (s.kennziffer = sektionSpeicher →
              s.LiestNull (bytes.drop ende)) →
                ∃ davor t danach n f, ErsterEintrag (bytes.drop pos) davor t danach n f m := by
            rintro rfl hnull
            obtain ⟨davor, t, danach, n, f, he⟩ := (ih (by omega) hle hcount).mp
              ⟨info', hlauf, hm⟩
            rw [hdrop]
            exact ⟨s :: davor, t, danach, n, f, he.cons hnull⟩
          by_cases hs : s.kennziffer = sektionSpeicher
          · rw [if_pos ⟨hs, hinfo⟩] at hsec
            obtain ⟨hsame, hnull⟩ | ⟨n, f, m', max, hn, hbeginnt, hf, rfl⟩ :=
              speicherLesen_cases hstart hende hsec
            · exact hskip hsame fun _ => hnull
            · obtain ⟨⟨l, hl⟩, hval⟩ :=
                (sektionenLesen_weiter (by omega) hle rfl).mp ⟨info', hlauf, hm⟩
              obtain ⟨-, rfl, hmin, hmax⟩ := validiere_eq_ok.mp hval
              refine ⟨[], s, l, n, f, ⟨?_, trivial, hs, hn, hf hmax, hbeginnt, hmin⟩⟩
              rw [hdrop, hl, List.nil_append, kodiert_cons]
          · rw [if_neg fun h => hs h.1] at hsec
            cases hsec
            exact hskip rfl fun h => absurd h hs
        · rintro ⟨davor, t, danach, n, f, he⟩
          rw [hdrop] at he
          obtain ⟨rfl, rfl, hrest⟩ | ⟨davor, rfl, hnull, he⟩ := he.front
          · rw [if_pos ⟨he.kennziffer, hinfo⟩,
              speicherLesen_eintrag hstart hende he.eintrag he.anzahl he.merkmale]
            exact (sektionenLesen_weiter (by omega) hle rfl).mpr
              ⟨⟨danach, hrest⟩, validiere_eq_ok.mpr ⟨rfl, rfl, he.min, rfl⟩⟩
          · have hsec : (if s.kennziffer = sektionSpeicher ∧ info.hatSpeicher = false then
                speicherLesen bytes start ende info else .ok info) = .ok info := by
              by_cases hs : s.kennziffer = sektionSpeicher
              · rw [if_pos ⟨hs, hinfo⟩, speicherLesen_null hstart (hnull hs)]
              · rw [if_neg fun h => hs h.1]
            rw [hsec]
            exact (ih (by omega) hle hcount).mpr ⟨davor, t, danach, n, f, he⟩
      · obtain ⟨e, he⟩ := herr k info
        rw [he]
        constructor
        · rintro ⟨info', h, -⟩
          cases h
        · rintro ⟨davor, t, danach, n, f, he⟩
          have hl := he.bytes
          cases davor with
          | nil => exact absurd (hl.trans (kodiert_cons t danach)) (hnone t _)
          | cons s davor => exact absurd (hl.trans (kodiert_cons s _)) (hnone s _)
    · rw [sektionenLesen, if_neg hlt]
      constructor
      · rintro ⟨info', h, hm⟩
        cases h
        rw [validiere_eq_ok, hinfo] at hm
        cases hm.1
      · rintro ⟨davor, t, danach, n, f, he⟩
        have hnil := he.bytes
        rw [List.drop_of_length_le (not_lt.mp hlt), kodiert_append, kodiert_cons] at hnil
        exact absurd hnil.symm (List.append_ne_nil_of_right_ne_nil _ (List.cons_ne_nil _ _))

theorem parseModul_iff {b : List UInt8} :
    (∃ info, parseModul b = .ok info ∧ validiere info = .ok m) ↔
      ∃ rest davor t danach n f, b = kopf ++ rest ∧ ErsterEintrag rest davor t danach n f m := by
  have hkopf : kopf.length = 8 := rfl
  by_cases hlen : b.length < 8
  · constructor
    · rintro ⟨info, h, -⟩
      unfold parseModul at h
      rw [if_pos hlen] at h
      exact absurd h (by split <;> simp)
    · rintro ⟨rest, -, -, -, -, -, rfl, -⟩
      rw [List.length_append, hkopf] at hlen
      omega
  · have hne : b ≠ [] := fun h => hlen (by rw [h]; decide)
    have hsplit : b = b.take 4 ++ ((b.drop 4).take 4 ++ b.drop 8) := by
      have hdrop : b.drop 8 = (b.drop 4).drop 4 := by rw [List.drop_drop]
      rw [hdrop, List.take_append_drop, List.take_append_drop]
    have hrest : ∀ {rest}, b = kopf ++ rest → rest = b.drop 8 := by
      rintro rest rfl
      exact (List.drop_left' hkopf).symm
    have hfront : ∀ {rest}, b = kopf ++ rest →
        b.take 4 = wasmMagie ∧ leNat ((b.drop 4).take 4) = wasmVersion := by
      rintro rest rfl
      exact ⟨rfl, rfl⟩
    unfold parseModul
    rw [if_neg hne, if_neg hlen, reads_eq (by omega), reads_eq (by omega)]
    change (∃ info, (if b.take 4 ≠ wasmMagie then _ else if leNat ((b.drop 4).take 4) ≠ wasmVersion
      then _ else _) = _ ∧ _) ↔ _
    by_cases hmagie : b.take 4 = wasmMagie
    · by_cases hversion : leNat ((b.drop 4).take 4) = wasmVersion
      · have hbytes : (b.drop 4).take 4 = leBytes 4 wasmVersion := by
          have hfour : ((b.drop 4).take 4).length = 4 := by
            rw [List.length_take, List.length_drop]
            omega
          have hread := leBytes_leNat ((b.drop 4).take 4)
          rw [hfour, hversion] at hread
          exact hread.symm
        have hall : b = kopf ++ b.drop 8 := by
          rw [kopf, List.append_assoc, ← hmagie, ← hbytes]
          exact hsplit
        rw [if_neg (not_not.mpr hmagie), if_neg (not_not.mpr hversion),
          sektionenLesen_iff (by omega) (by omega) rfl]
        constructor
        · rintro ⟨davor, t, danach, n, f, he⟩
          exact ⟨_, davor, t, danach, n, f, hall, he⟩
        · rintro ⟨rest, davor, t, danach, n, f, hb, he⟩
          exact ⟨davor, t, danach, n, f, hrest hb ▸ he⟩
      · rw [if_neg (not_not.mpr hmagie), if_pos hversion]
        constructor
        · rintro ⟨info, h, -⟩
          cases h
        · rintro ⟨rest, -, -, -, -, -, hb, -⟩
          exact absurd (hfront hb).2 hversion
    · rw [if_pos hmagie]
      constructor
      · rintro ⟨info, h, -⟩
        cases h
      · rintro ⟨rest, -, -, -, -, -, hb, -⟩
        exact absurd (hfront hb).1 hmagie

/-- The memories that a section declares; a memory section begins with their number. -/
def Sektion.speicher (s : Sektion) : Option Nat :=
  if s.kennziffer = sektionSpeicher then (decode 32 s.last).map Prod.fst else some 0

def speicherZahl : List Sektion → Option Nat
  | [] => some 0
  | s :: l => s.speicher.bind fun n => (speicherZahl l).map (n + ·)

/-- Header and sections; the memory sections declare one memory, without a maximum and with the
minimum `m`. -/
def IstModul (b : List UInt8) (m : Nat) : Prop :=
  ∃ l, b = kopf ++ kodiert l ∧ speicherZahl l = some 1 ∧
    (∃ s ∈ l, s.kennziffer = sektionSpeicher ∧ s.Beginnt 1 0 m) ∧ 0 < m

/-- The first entry that the reader sees is not alone: there are more in its section, other flags
than the maximum are set, or a memory section before or after it does not declare zero memories. -/
def Fehlform (b : List UInt8) (m : Nat) : Prop :=
  ∃ rest davor t danach n f, b = kopf ++ rest ∧ ErsterEintrag rest davor t danach n f m ∧
    (1 < n ∨ f ≠ 0 ∨ (∃ s ∈ davor, s.speicher ≠ some 0) ∨ ∃ s ∈ danach, s.speicher ≠ some 0)

theorem speicher_of_beginnt {n : Nat} (hs : s.kennziffer = sektionSpeicher)
    (h : s.Beginnt n f m) : s.speicher = some n := by
  obtain ⟨c, d, e, rest, hc, -, -, hlast⟩ := h
  rw [Sektion.speicher, if_pos hs, hlast, hc.decode_append]
  rfl

theorem liestNull_of_speicher (hs : s.kennziffer = sektionSpeicher) (h : s.speicher = some 0)
    (r : List UInt8) : s.LiestNull r := by
  rw [Sektion.speicher, if_pos hs] at h
  obtain ⟨⟨n, rest⟩, hd, rfl⟩ := Option.map_eq_some_iff.mp h
  obtain ⟨c, hc, hlast⟩ := Leb128.exists_of_decode hd
  exact ⟨c, rest ++ r, hc, by rw [hlast, List.append_assoc]⟩

theorem beginnt_unique {n n' f' m' : Nat} (h : s.Beginnt n f m) (h' : s.Beginnt n' f' m') :
    f = f' := by
  obtain ⟨c, d, e, rest, hc, hd, -, hlast⟩ := h
  obtain ⟨c', d', e', rest', hc', hd', -, hlast'⟩ := h'
  obtain ⟨-, -, hrest⟩ := hc.unique hc' (hlast.symm.trans hlast')
  exact (hd.unique hd' hrest).1

theorem speicherZahl_eq_zero {l : List Sektion} :
    speicherZahl l = some 0 ↔ ∀ s ∈ l, s.speicher = some 0 := by
  induction l with
  | nil => simp [speicherZahl]
  | cons s l ih =>
    rw [List.forall_mem_cons, ← ih, speicherZahl]
    cases s.speicher with
    | none => simp
    | some a =>
      cases speicherZahl l with
      | none => simp
      | some c => simp

theorem speicherZahl_append (l k : List Sektion) : speicherZahl (l ++ k) =
    (speicherZahl l).bind fun n => (speicherZahl k).map (n + ·) := by
  induction l with
  | nil => simp [speicherZahl]
  | cons s l ih =>
    rw [List.cons_append, speicherZahl, ih, speicherZahl]
    cases s.speicher with
    | none => rfl
    | some a =>
      cases speicherZahl l with
      | none => rfl
      | some c =>
        cases speicherZahl k with
        | none => rfl
        | some d => simp [Nat.add_assoc]

theorem speicherZahl_eq_one {davor danach : List Sektion} {t : Sektion} {n : Nat}
    (ht : t.speicher = some n) (hn : 0 < n) : speicherZahl (davor ++ t :: danach) = some 1 ↔
      n = 1 ∧ (∀ s ∈ davor, s.speicher = some 0) ∧ ∀ s ∈ danach, s.speicher = some 0 := by
  rw [← speicherZahl_eq_zero, ← speicherZahl_eq_zero, speicherZahl_append, speicherZahl, ht]
  cases speicherZahl davor with
  | none => simp
  | some a =>
    cases speicherZahl danach with
    | none => simp
    | some c =>
      simp only [Option.bind_some, Option.map_some, Option.some.injEq]
      omega

theorem IstModul.einziger {b rest : List UInt8} {davor danach : List Sektion} {t : Sektion}
    {n : Nat} (h : IstModul b m) (hb : b = kopf ++ rest)
    (he : ErsterEintrag rest davor t danach n f m) :
    n = 1 ∧ f = 0 ∧ (∀ s ∈ davor, s.speicher = some 0) ∧ ∀ s ∈ danach, s.speicher = some 0 := by
  obtain ⟨l, hl, hzahl, ⟨s, hmem, hs, hbeginnt⟩, -⟩ := h
  obtain rfl : l = davor ++ t :: danach :=
    kodiert_injective ((List.append_cancel_left (hl.symm.trans hb)).trans he.bytes)
  obtain ⟨hn, hdavor, hdanach⟩ :=
    (speicherZahl_eq_one (speicher_of_beginnt he.kennziffer he.eintrag) he.anzahl).mp hzahl
  have hone := speicher_of_beginnt hs hbeginnt
  refine ⟨hn, ?_, hdavor, hdanach⟩
  obtain hmem | hmem := List.mem_append.mp hmem
  · cases hone.symm.trans (hdavor s hmem)
  · obtain rfl | hmem := List.mem_cons.mp hmem
    · exact beginnt_unique he.eintrag hbeginnt
    · cases hone.symm.trans (hdanach s hmem)

theorem lesenNull_of_speicher {l : List Sektion} (h : ∀ s ∈ l, s.speicher = some 0)
    (r : List UInt8) : LesenNull l r := by
  induction l with
  | nil => trivial
  | cons s l ih =>
    rw [List.forall_mem_cons] at h
    exact ⟨fun hs => liestNull_of_speicher hs h.1 _, ih h.2⟩

theorem IstModul.angenommen {b : List UInt8} (h : IstModul b m) :
    ∃ info, parseModul b = .ok info ∧ validiere info = .ok m := by
  obtain ⟨l, hl, hzahl, ⟨s, hmem, hs, hbeginnt⟩, hm⟩ := h
  obtain ⟨davor, danach, rfl⟩ := List.append_of_mem hmem
  obtain ⟨-, hdavor, -⟩ :=
    (speicherZahl_eq_one (speicher_of_beginnt hs hbeginnt) Nat.zero_lt_one).mp hzahl
  exact parseModul_iff.mpr ⟨_, davor, s, danach, 1, 0, hl, rfl, lesenNull_of_speicher hdavor _, hs,
    Nat.zero_lt_one, rfl, hbeginnt, hm⟩

/-- The parser ends with a value or a named refusal on every byte string, and it accepts the modules
with one memory and no others, except where the first entry it sees is not the only one. -/
theorem parseModul_genau (b : List UInt8) (m : Nat) : Ends (parseModul b) ∧
    (((∃ info, parseModul b = .ok info ∧ validiere info = .ok m) ↔ IstModul b m) ↔
      ¬ Fehlform b m) := by
  refine ⟨parseModul_ends b, fun hgenau => ?_, fun hform => ⟨fun hok => ?_, IstModul.angenommen⟩⟩
  · rintro ⟨rest, davor, t, danach, n, f, hb, he, hbad⟩
    have hmodul := hgenau.mp (parseModul_iff.mpr ⟨rest, davor, t, danach, n, f, hb, he⟩)
    obtain ⟨rfl, rfl, hdavor, hdanach⟩ := hmodul.einziger hb he
    obtain h | h | ⟨s, hmem, hs⟩ | ⟨s, hmem, hs⟩ := hbad
    · exact absurd h (lt_irrefl 1)
    · exact h rfl
    · exact hs (hdavor s hmem)
    · exact hs (hdanach s hmem)
  · obtain ⟨rest, davor, t, danach, n, f, hb, he⟩ := parseModul_iff.mp hok
    by_contra hno
    refine hform ⟨rest, davor, t, danach, n, f, hb, he, ?_⟩
    by_contra hgood
    simp only [not_or, not_exists, not_and, not_not, not_lt] at hgood
    obtain ⟨hn, rfl, hdavor, hdanach⟩ := hgood
    obtain rfl : n = 1 := by have := he.anzahl; omega
    refine hno ⟨davor ++ t :: danach, by rw [hb, he.bytes], ?_, ⟨t, ?_, he.kennziffer, he.eintrag⟩,
      he.min⟩
    · exact (speicherZahl_eq_one (speicher_of_beginnt he.kennziffer he.eintrag)
        Nat.zero_lt_one).mpr ⟨rfl, hdavor, hdanach⟩
    · exact List.mem_append_right _ List.mem_cons_self

def zweiSpeicher : Sektion := ⟨5, [5], [2, 0, 1, 0, 1], .short (by decide) (by decide)⟩

/-- The module with two memories is accepted. -/
theorem parseModul_zweiSpeicher : ¬ ∀ (b : List UInt8) (m : Nat), Ends (parseModul b) ∧
    ((∃ info, parseModul b = .ok info ∧ validiere info = .ok m) ↔ IstModul b m) := by
  intro h
  have he : ErsterEintrag (kodiert [zweiSpeicher]) [] zweiSpeicher [] 2 0 1 :=
    ⟨rfl, trivial, rfl, by decide, rfl, ⟨[2], [0], [1], [0, 1], .short (by decide) (by decide),
      .short (by decide) (by decide), .short (by decide) (by decide), rfl⟩, by decide⟩
  have hok := parseModul_iff.mpr ⟨_, [], zweiSpeicher, [], 2, 0, rfl, he⟩
  cases (((h _ 1).2.mp hok).einziger rfl he).1

end Caprock.Wasm
