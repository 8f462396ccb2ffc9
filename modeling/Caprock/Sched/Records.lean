import Caprock.Sched.Blockwise
import Caprock.Sched.Registered

/-! # Records of threads

A record of events is kept for every thread.  Calls write to it; it follows the thread from core to
core, begins with the thread and ends with it.  `Aktengesetz` is what a relation between records and
blocks has to bear for it to hold of every thread in every run.
-/

namespace Caprock.Sched

open Execution Scheduler Function

/-- What a call is to the thread in slot `x`, seen from the directory and the core before and
after. -/
abbrev Beobachtung (ε : Type) : Type := Verzeichnis → Scheduler → Scheduler → Aufruf → Nat → List ε

/-- The system with the records of its threads; those under way are in the order of the migrants. -/
structure Protokoll (ε : Type) where
  system : System
  akte : Nat → Nat → List ε
  unterwegs : List (List ε)

namespace Protokoll

variable {ε : Type} (e : Beobachtung ε)

def init (ε : Type) (a : Ausbau) : Protokoll ε := ⟨System.init a, fun _ _ => [], []⟩

/-- The events of operation `op` for the thread in slot `x` of core `c`; only calls have any. -/
def ereignisse (S S' : System) (op : Op) (c x : Nat) : List ε :=
  match op with
  | .aufruf d a => if d = c then e S.verzeichnis (S.cores c) (S'.cores c) a x else []
  | _ => []

/-- The records after a step; the record of a free slot is empty. -/
def fortschreiben (P : Protokoll ε) (op : Op) (S : System) : Protokoll ε where
  system := S
  akte := fun c x =>
    if ((S.cores c).tcb x).used then P.akte c x ++ ereignisse e P.system S op c x else []
  unterwegs := P.unterwegs

/-- The records of threads that leave or reach a core; `P` is the state before the step. -/
def mitnehmen (P Q : Protokoll ε) : Op → Protokoll ε
  | .detachForMigration c tid =>
      match (P.system.cores c).resolve P.system.verzeichnis tid,
          (P.system.cores c).detachForMigration P.system.verzeichnis tid with
      | some i, some _ => { Q with unterwegs := Q.unterwegs ++ [P.akte c i] }
      | _, _ => Q
  | .attachMigrated c k =>
      match P.unterwegs[k]?, (P.system.cores c).free.alloc with
      | some h, some (i, _) =>
          { Q with
            akte := update Q.akte c (update (Q.akte c) i h)
            unterwegs := Q.unterwegs.eraseIdx k }
      | _, _ => Q
  | _ => Q

def step (P : Protokoll ε) (op : Op) : Option (Protokoll ε) :=
  (P.system.step op).map fun S => P.mitnehmen (P.fortschreiben e op S) op

end Protokoll

/-- Relation `R` between records and blocks bears every call with its event, `G` holds of the blocks
of all other threads, and new threads begin with an empty record. -/
structure Aktengesetz {ε : Type} (e : Beobachtung ε) (R : List ε → Tcb → Prop)
    (G : Tcb → Tcb → Prop) (ein aus : Grund → Prop) : Prop where
  duldsam : Duldsam G ein aus
  ein_budget : ein .budget
  aus_budget : aus .budget
  used : ∀ {t t'}, G t t' → t'.used = t.used
  gleich : ∀ {h t t'}, R h t → G t t' → R h t'
  neu : ∀ {t : Tcb}, t.Frisch → R [] t
  aufruf : ∀ {v : Verzeichnis} {s s' : Scheduler} {a : Aufruf} {x : Nat} {h : List ε},
    s.aufruf v a = some s' → (s.tcb x).used = true → R h (s.tcb x) →
      R (h ++ e v s s' a x) (s'.tcb x)

namespace Protokoll

variable {ε : Type} {e : Beobachtung ε} {R : List ε → Tcb → Prop} {G : Tcb → Tcb → Prop}
variable {ein aus : Grund → Prop}

/-- The invariant of runs. -/
structure Inv (R : List ε → Tcb → Prop) (P : Protokoll ε) : Prop where
  gut : P.system.Gut
  passt : ∀ c x, ((P.system.cores c).tcb x).used = true →
    R (P.akte c x) ((P.system.cores c).tcb x)
  leer : ∀ c x, ((P.system.cores c).tcb x).used = false → P.akte c x = []
  laenge : P.unterwegs.length = P.system.migranten.length
  unterwegs : ∀ (k : Nat) (h : List ε) (m : Migrant), P.unterwegs[k]? = some h →
    P.system.migranten[k]? = some m → R h m.tcb

theorem init_inv (R : List ε → Tcb → Prop) (a : Ausbau) : (init ε a).Inv R where
  gut := System.gut_init a
  passt := fun _ _ hused => by cases hused
  leer := fun _ _ _ => rfl
  laenge := rfl
  unterwegs := fun _ _ _ hh => by cases hh

variable {P Q : Protokoll ε} {h : List ε} {t t' : Tcb}

def Gewechselt (G : Tcb → Tcb → Prop) (t t' : Tcb) : Prop :=
  G t t' ∨ t'.used = false ∨ t.used = false ∧ ∃ t₀ : Tcb, t₀.Frisch ∧ G t₀ t'

section

variable {s s' s₁ : Scheduler} {v v' : Verzeichnis} {ms ms' : List Migrant} {c i : Nat} {op : Op}

theorem gewechselt_zugang (hs : s.Gut) (hb : Zugang s s₁ i t) (hrest : Blockweise G s₁ s') (x : Nat) :
    Gewechselt G (s.tcb x) (s'.tcb x) := by
  have hbesetzt := hb.besetzt
  have hx := hrest x
  rw [hbesetzt.tcb] at hx
  split at hx
  · next hxi =>
    obtain ⟨-, -, hneu, -⟩ := hb
    exact .inr (.inr ⟨hxi ▸ hbesetzt.unused hs.1, _, hneu, hx⟩)
  · exact .inl hx

theorem gewechselt_ende (hi : (s'.tcb i).used = false) (hrest : ∀ x, x ≠ i → G (s.tcb x) (s'.tcb x))
    (x : Nat) : Gewechselt G (s.tcb x) (s'.tcb x) := by
  by_cases hx : x = i
  · exact .inr (.inl (hx ▸ hi))
  · exact .inl (hrest x hx)

variable (hR : Duldsam G ein aus)

include hR

theorem gewechselt_detach {tid : ThreadId} {m : Migrant}
    (h : s.detachForMigration v tid = some (m, s')) (x : Nat) :
    Gewechselt G (s.tcb x) (s'.tcb x) := by
  obtain ⟨i, n, -, rfl, -⟩ := detachForMigration_cases h
  have htcb := tcb_slotLeeren (s.removeFromReady i) i
  refine gewechselt_ende (i := i) ?_ (fun x hx => ?_) x
  · exact (congrArg Tcb.used (htcb i)).trans (by rw [if_pos rfl]; rfl)
  · have hx' := (htcb x).trans (if_neg hx)
    exact hx' ▸ hR.of_daten (daten_removeFromReady s i) x

theorem gewechselt_kern (hein : ein .budget) (haus : aus .budget)
    (hused : ∀ {t t'}, G t t' → t'.used = t.used) (hs : s.Gut) (hk : Kernschritt v c s ms op s' ms')
    (hop : ∀ d a, op ≠ .aufruf d a) (hop' : ∀ d k, op ≠ .attachMigrated d k) (x : Nat) :
    Gewechselt G (s.tcb x) (s'.tcb x) := by
  cases hk with
  | aufruf h => exact absurd rfl (hop _ _)
  | initCore h =>
    obtain ⟨t, s₁, hb, rfl⟩ := initCore_cases h
    exact gewechselt_zugang hs hb (hR.of_tcbs rfl) x
  | spawnParked hop h =>
    obtain ⟨t, hb, -⟩ := spawnParked_cases h
    exact gewechselt_zugang hs hb (hR.refl s') x
  | spawn h =>
    obtain rfl | ⟨i, t, s₁, hb, rfl | he⟩ := spawn_cases hs h
    · exact .inl (hR.stets _)
    · exact gewechselt_zugang hs hb (hR.refl s') x
    · have hadm : Blockweise G s₁ (s₁.setAdmitted i) :=
        hR.modifyTcb s₁ i fun _ => hR.neben rfl rfl
      exact gewechselt_zugang hs hb (hR.weiter hadm ((hR.duldet hein haus).enqueueReady he)) x
  | exitCurrent h =>
    obtain ⟨cur, -, hempty, hrest⟩ := hR.exitCurrent hein haus h
    exact gewechselt_ende (hused hempty) hrest x
  | kill h =>
    obtain rfl | ⟨i, hempty, hrest⟩ := hR.kill hein haus h
    · exact .inl (hR.stets _)
    · exact gewechselt_ende (congrArg Tcb.used hempty) hrest x
  | reap h =>
    obtain ⟨-, -, rfl⟩ := reap_eq_some h
    exact .inl (hR.stets _)
  | detachForMigration h => exact gewechselt_detach hR h x
  | attachMigrated hm h => exact absurd rfl (hop' _ _)

omit hR in
theorem used_aufruf {a : Aufruf} (h : s.aufruf v a = some s') (x : Nat) :
    (s'.tcb x).used = (s.tcb x).used := by
  have hused := congrArg Tcb.used ((starr_kennung x).aufruf h)
  exact hused

end

theorem ereignisse_of_ne {S S' : System} {op : Op} (hop : ∀ d a, op ≠ .aufruf d a) (c x : Nat) :
    ereignisse e S S' op c x = [] := by
  cases op <;> first | rfl | exact absurd rfl (hop _ _)

section

variable (hA : Aktengesetz e R G ein aus)

include hA

theorem Inv.passt_schritt (hP : P.Inv R) {op : Op} {S : System} (hstep : P.system.step op = some S)
    (hop : ∀ d k, op ≠ .attachMigrated d k) {c x : Nat} (hused : ((S.cores c).tcb x).used = true) :
    R (P.akte c x ++ ereignisse e P.system S op c x) ((S.cores c).tcb x) := by
  by_cases hcall : ∃ d a, op = .aufruf d a
  · obtain ⟨d, a, rfl⟩ := hcall
    obtain ⟨s, hs, rfl⟩ := Option.map_eq_some_iff.mp hstep
    have hcores : ∀ d', (P.system.weiter d s P.system.verzeichnis).cores d' =
        update P.system.cores d s d' := fun _ => rfl
    unfold ereignisse
    dsimp only
    by_cases hd : d = c
    · subst hd
      have hself := (hcores d).trans (update_self ..)
      rw [if_pos rfl]
      rw [hself] at hused ⊢
      rw [used_aufruf hs] at hused
      exact hA.aufruf hs hused (hP.passt d x hused)
    · have hother := (hcores c).trans (update_of_ne (Ne.symm hd) ..)
      rw [if_neg hd, List.append_nil]
      rw [hother] at hused ⊢
      exact hP.passt c x hused
  · have hnone : ∀ d a, op ≠ .aufruf d a := fun d a heq => hcall ⟨d, a, heq⟩
    rw [ereignisse_of_ne hnone, List.append_nil]
    rcases System.step_kern hstep with ⟨hcores, -, -⟩ | ⟨d, s, hcores, hk⟩
    · rw [hcores] at hused ⊢
      exact hP.passt c x hused
    · rw [hcores] at hused ⊢
      by_cases hd : c = d
      · subst hd
        rw [update_self] at hused ⊢
        rcases gewechselt_kern hA.duldsam hA.ein_budget hA.aus_budget hA.used (hP.gut.1 c) hk hnone
          hop x with hsame | hend | ⟨hfree, t₀, hneu, hsame⟩
        · exact hA.gleich (hP.passt c x ((hA.used hsame).symm.trans hused)) hsame
        · exact absurd (hend.symm.trans hused) Bool.false_ne_true
        · rw [hP.leer c x hfree]
          exact hA.gleich (hA.neu hneu) hsame
      · rw [update_of_ne hd] at hused ⊢
        exact hP.passt c x hused

omit hA in
theorem passt_fortschreiben {op : Op} {S : System}
    (h : ∀ c x, ((S.cores c).tcb x).used = true →
      R (P.akte c x ++ ereignisse e P.system S op c x) ((S.cores c).tcb x)) (c x : Nat)
    (hused : (((P.fortschreiben e op S).system.cores c).tcb x).used = true) :
    R ((P.fortschreiben e op S).akte c x) (((P.fortschreiben e op S).system.cores c).tcb x) := by
  have hakte : (P.fortschreiben e op S).akte c x =
      P.akte c x ++ ereignisse e P.system S op c x :=
    if_pos hused
  rw [hakte]
  exact h c x hused

omit hA in
theorem leer_fortschreiben {op : Op} {S : System} (c x : Nat)
    (hfree : (((P.fortschreiben e op S).system.cores c).tcb x).used = false) :
    (P.fortschreiben e op S).akte c x = [] :=
  if_neg (ne_true_of_eq_false hfree)

theorem Inv.bleibt (hP : P.Inv R) {op : Op} {S : System} (hstep : P.system.step op = some S)
    (hop : ∀ d k, op ≠ .attachMigrated d k) (hms : S.migranten = P.system.migranten) :
    (P.fortschreiben e op S).Inv R where
  gut := System.step_gut _ _ _ hP.gut hstep
  passt := passt_fortschreiben fun _ _ hused => hP.passt_schritt hA hstep hop hused
  leer := leer_fortschreiben
  laenge := hP.laenge.trans (congrArg List.length hms).symm
  unterwegs := fun k h m hh hm => hP.unterwegs k h m hh (hms ▸ hm)

/-- A thread that leaves a core takes its record along. -/
theorem Inv.detach (hP : P.Inv R) {c : Nat} {tid : ThreadId} {S : System}
    (hstep : P.system.step (.detachForMigration c tid) = some S) :
    (P.mitnehmen (P.fortschreiben e (.detachForMigration c tid) S)
      (.detachForMigration c tid)).Inv R := by
  have hpasst := passt_fortschreiben (e := e) fun c' x hused =>
    hP.passt_schritt hA hstep (fun _ _ hop => Op.noConfusion hop) (c := c') (x := x) hused
  have hgut := System.step_gut _ _ _ hP.gut hstep
  unfold mitnehmen
  unfold System.step at hstep
  dsimp only at hstep ⊢
  cases hs : (P.system.cores c).detachForMigration P.system.verzeichnis tid with
  | none =>
    rw [hs] at hstep
    cases hstep
    have hinv : (P.fortschreiben e (.detachForMigration c tid) P.system).Inv R :=
      ⟨hgut, hpasst, leer_fortschreiben, hP.laenge, hP.unterwegs⟩
    split
    · next heq => cases heq
    · exact hinv
  | some r =>
    obtain ⟨m, s⟩ := r
    rw [hs] at hstep
    cases hstep
    obtain ⟨i, n, ⟨hi, -⟩, -, hm⟩ := detachForMigration_cases hs
    rw [hi]
    have hneu : R (P.akte c i) m.tcb := by
      have hout := hA.duldsam.of_daten (daten_removeFromReady (P.system.cores c) i) i
      rw [hm]
      exact hA.gleich (hA.gleich (hP.passt c i (resolve_used hi)) hout)
        (hA.duldsam.neben rfl rfl)
    refine ⟨hgut, hpasst, leer_fortschreiben, ?_, fun k h m' hh hm' => ?_⟩
    · change (P.unterwegs ++ [P.akte c i]).length = (P.system.migranten ++ [m]).length
      simp [hP.laenge]
    · change (P.unterwegs ++ [P.akte c i])[k]? = some h at hh
      change (P.system.migranten ++ [m])[k]? = some m' at hm'
      rcases Nat.lt_trichotomy k P.unterwegs.length with hlt | heq | hgt
      · rw [List.getElem?_append_left hlt] at hh
        rw [List.getElem?_append_left (hP.laenge ▸ hlt)] at hm'
        exact hP.unterwegs k h m' hh hm'
      · subst heq
        rw [List.getElem?_concat_length] at hh
        rw [hP.laenge, List.getElem?_concat_length] at hm'
        cases hh
        cases hm'
        exact hneu
      · rw [List.getElem?_eq_none (by simp; omega)] at hh
        cases hh

omit hA in
theorem akte_update (akte : Nat → Nat → List ε) (c i : Nat) (h : List ε) (d x : Nat) :
    update akte c (update (akte c) i h) d x =
      if d = c ∧ x = i then h else akte d x := by
  by_cases hd : d = c
  · subst hd
    by_cases hx : x = i
    · simp [hx]
    · simp [hx]
  · simp [hd]

/-- A thread with record `h` reaches slot `i` of core `c`. -/
theorem Inv.ankunft (hP : P.Inv R) {c k i : Nat} {S : System} {s : Scheduler} (ankommend : Tcb)
    (hgut : S.Gut) (hcores : S.cores = update P.system.cores c s)
    (hms : S.migranten = P.system.migranten.eraseIdx k) (hused : ankommend.used = true)
    (hneu : R h ankommend)
    (hcore : ∀ x, G (if x = i then ankommend else (P.system.cores c).tcb x) (s.tcb x)) :
    Inv R { P.fortschreiben e (.attachMigrated c k) S with
      akte := update (P.fortschreiben e (.attachMigrated c k) S).akte c
        (update ((P.fortschreiben e (.attachMigrated c k) S).akte c) i h)
      unterwegs := P.unterwegs.eraseIdx k } := by
  have hself := hcore i
  rw [if_pos rfl] at hself
  refine ⟨hgut, fun d x hx => ?_, fun d x hx => ?_, ?_, fun j h' m hh hm => ?_⟩
  · change ((S.cores d).tcb x).used = true at hx
    change R (update (P.fortschreiben e (.attachMigrated c k) S).akte c
      (update ((P.fortschreiben e (.attachMigrated c k) S).akte c) i h) d x)
      ((S.cores d).tcb x)
    rw [akte_update]
    rw [hcores] at hx ⊢
    split
    · next hand =>
      obtain ⟨rfl, rfl⟩ := hand
      rw [update_self]
      exact hA.gleich hneu hself
    · next hand =>
      have hakte : (P.fortschreiben e (.attachMigrated c k) S).akte d x = P.akte d x := by
        change (if ((S.cores d).tcb x).used then P.akte d x ++ [] else []) = P.akte d x
        rw [hcores, if_pos hx, List.append_nil]
      rw [hakte]
      by_cases hd : d = c
      · subst hd
        have hother := hcore x
        rw [if_neg fun hxi => hand ⟨rfl, hxi⟩] at hother
        rw [update_self] at hx ⊢
        exact hA.gleich (hP.passt d x ((hA.used hother).symm.trans hx)) hother
      · rw [update_of_ne hd] at hx ⊢
        exact hP.passt d x hx
  · change ((S.cores d).tcb x).used = false at hx
    change update (P.fortschreiben e (.attachMigrated c k) S).akte c
      (update ((P.fortschreiben e (.attachMigrated c k) S).akte c) i h) d x = []
    rw [akte_update]
    split
    · next hand =>
      obtain ⟨rfl, rfl⟩ := hand
      rw [hcores, update_self, hA.used hself, hused] at hx
      cases hx
    · exact leer_fortschreiben d x hx
  · change (P.unterwegs.eraseIdx k).length = S.migranten.length
    rw [hms, List.length_eraseIdx, List.length_eraseIdx, hP.laenge]
  · change (P.unterwegs.eraseIdx k)[j]? = some h' at hh
    change S.migranten[j]? = some m at hm
    rw [hms] at hm
    rw [List.getElem?_eraseIdx] at hh hm
    split at hh
    · next hlt =>
      rw [if_pos hlt] at hm
      exact hP.unterwegs j h' m hh hm
    · next hge =>
      rw [if_neg hge] at hm
      exact hP.unterwegs (j + 1) h' m hh hm

/-- A thread that reaches a core brings its record. -/
theorem Inv.attach (hP : P.Inv R) {c k : Nat} {S : System}
    (hstep : P.system.step (.attachMigrated c k) = some S) :
    (P.mitnehmen (P.fortschreiben e (.attachMigrated c k) S) (.attachMigrated c k)).Inv R := by
  have hR := hA.duldsam
  have hgut := System.step_gut _ _ _ hP.gut hstep
  have hruhe : (P.fortschreiben e (.attachMigrated c k) P.system).Inv R :=
    ⟨hP.gut, passt_fortschreiben fun d x hused => by
      rw [ereignisse_of_ne fun _ _ hop => Op.noConfusion hop, List.append_nil]
      exact hP.passt d x hused, leer_fortschreiben, hP.laenge, hP.unterwegs⟩
  unfold mitnehmen
  unfold System.step at hstep
  dsimp only at hstep ⊢
  cases hm : P.system.migranten[k]? with
  | none =>
    rw [hm] at hstep
    cases hstep
    have hnone : P.unterwegs[k]? = none := by
      rw [List.getElem?_eq_none_iff] at hm ⊢
      rw [hP.laenge]
      exact hm
    rw [hnone]
    exact hruhe
  | some m =>
    rw [hm] at hstep
    dsimp only at hstep
    have hk : k < P.unterwegs.length := hP.laenge ▸ (List.getElem?_eq_some_iff.mp hm).1
    have hh : P.unterwegs[k]? = some P.unterwegs[k] := List.getElem?_eq_getElem hk
    have hneu := hP.unterwegs k _ m hh hm
    rw [hh]
    cases halloc : (P.system.cores c).free.alloc with
    | none =>
      have herror : (P.system.cores c).attachMigrated P.system.verzeichnis m =
          some (.error m) := by
        unfold attachMigrated
        rw [halloc]
      rw [herror] at hstep
      cases hstep
      exact hruhe
    | some r =>
      obtain ⟨i, free⟩ := r
      split at hstep
      · cases hstep
      · next m' herror =>
        rw [alloc_of_error herror] at halloc
        cases halloc
      · next s v hs =>
        cases hstep
        have hused := hP.gut.2 m (List.mem_of_getElem? hm)
        obtain ⟨j, s₁, hb, hcases⟩ := attachMigrated_cases hs hused
        obtain ⟨free', halloc', -⟩ := hb.free
        rw [halloc] at halloc'
        cases halloc'
        have hrest : Blockweise G s₁ s := by
          rcases hcases with ⟨-, he⟩ | ⟨-, rfl⟩
          · exact (hR.duldet hA.ein_budget hA.aus_budget).enqueueReady he
          · exact hR.refl s
        exact hP.ankunft hA ((P.system.cores c).ankunft m.tcb) hgut rfl rfl hused
          (hA.gleich hneu (hR.neben rfl rfl)) fun x => hb.tcb x ▸ hrest x

omit hA in
theorem migranten_step {S S' : System} {op : Op} (hstep : S.step op = some S')
    (hout : ∀ c tid, op ≠ .detachForMigration c tid) (hin : ∀ c k, op ≠ .attachMigrated c k) :
    S'.migranten = S.migranten := by
  rcases System.step_kern hstep with ⟨-, hms, -⟩ | ⟨d, s, -, hk⟩
  · exact hms
  · generalize S'.migranten = ms' at hk ⊢
    cases hk with
    | detachForMigration h => exact absurd rfl (hout _ _)
    | attachMigrated hm h => exact absurd rfl (hin _ _)
    | _ => rfl

theorem step_inv {op : Op} (hP : P.Inv R) (hstep : P.step e op = some Q) : Q.Inv R := by
  obtain ⟨S, hS, rfl⟩ := Option.map_eq_some_iff.mp hstep
  by_cases hout : ∃ c tid, op = .detachForMigration c tid
  · obtain ⟨c, tid, rfl⟩ := hout
    exact hP.detach hA hS
  · by_cases hin : ∃ c k, op = .attachMigrated c k
    · obtain ⟨c, k, rfl⟩ := hin
      exact hP.attach hA hS
    · have hout' : ∀ c tid, op ≠ .detachForMigration c tid := fun c tid heq => hout ⟨c, tid, heq⟩
      have hin' : ∀ c k, op ≠ .attachMigrated c k := fun c k heq => hin ⟨c, k, heq⟩
      have hstill : P.mitnehmen (P.fortschreiben e op S) op = P.fortschreiben e op S := by
        cases op <;> first
          | rfl
          | exact absurd rfl (hout' _ _)
          | exact absurd rfl (hin' _ _)
      rw [hstill]
      exact hP.bleibt hA hS hin' (migranten_step hS hout' hin')

theorem run_inv {a : Ausbau} {ops : List Op} (hrun : run (step e) (init ε a) ops = some P) :
    P.Inv R :=
  run_invariant_of_step (fun _ _ _ hP hstep => step_inv hA hP hstep) (init_inv R a) hrun

end

end Protokoll

end Caprock.Sched
