import Mathlib.Data.List.Induction
import Mathlib.Data.Set.Subsingleton
import Caprock.Lib.Packed
import Caprock.Lib.Word
import Caprock.Wait.Mutex

/-! # The timer wheel

A protection domain keeps its timers in a packed table of its own memory.  `after` fills
the next place, `expire` wakes everything that is due, and `absagen` takes out the timers
of one thread.

`offen` says what a history of calls has left to wait for: the timers accepted so far that no
later call has taken, oldest first.  The wheel holds exactly these.
-/

namespace Caprock.Wait

def timerplaetze : Nat := 32

/-- `TimerEintrag`: wake `tid` as soon as `faellig` is reached. -/
structure TimerEintrag where
  faellig : Nat
  tid : Tid
  deriving DecidableEq

abbrev TimerWheel : Type := Packed TimerEintrag timerplaetze

namespace TimerWheel

def new : TimerWheel := Packed.empty

/-- `after`; `false` is a full wheel. -/
def after (w : TimerWheel) (now ticks : Nat) (tid : Tid) : Bool × TimerWheel :=
  w.push ⟨Word.saturatingAdd now ticks, tid⟩

/-- `expire`, with the threads handed to `unpark` in order; the source returns their number. -/
def expire (w : TimerWheel) (now : Nat) : List Tid × TimerWheel :=
  let r := w.extract fun e => decide (e.faellig ≤ now)
  (r.1.map TimerEintrag.tid, r.2)

/-- `absagen`: all timers of `tid` go, nobody is woken. -/
def absagen (w : TimerWheel) (tid : Tid) : Bool × TimerWheel :=
  let r := w.extract fun e => decide (e.tid = tid)
  (!r.1.isEmpty, r.2)

inductive Op where
  | after (now ticks : Nat) (tid : Tid)
  | expire (now : Nat)
  | absagen (tid : Tid)

def Op.nimmt : Op → TimerEintrag → Bool
  | .after _ _ _, _ => false
  | .expire now, e => decide (e.faellig ≤ now)
  | .absagen tid, e => decide (e.tid = tid)

def step (w : TimerWheel) : Op → TimerWheel
  | .after now ticks tid => (w.after now ticks tid).2
  | .expire now => (w.expire now).2
  | .absagen tid => (w.absagen tid).2

def stand (ops : List Op) : TimerWheel := ops.foldl step new

/-- The timer that the call at position `i` has put into the wheel. -/
def eingetragen (ops : List Op) (i : Nat) : Option TimerEintrag :=
  match ops[i]? with
  | some (.after now ticks tid) =>
      if ((stand (ops.take i)).after now ticks tid).1 then some ⟨Word.saturatingAdd now ticks, tid⟩
      else none
  | _ => none

/-- The timers accepted so far that no later call has taken, with the position of their
`after`. -/
def offen (ops : List Op) : List (Nat × TimerEintrag) :=
  (List.range ops.length).filterMap fun i =>
    (eingetragen ops i).bind fun e =>
      if (ops.drop (i + 1)).any (·.nimmt e) then none else some (i, e)

/-- The call at position `j` wakes the timer accepted at position `i`. -/
def Geweckt (ops : List Op) (j i : Nat) : Prop :=
  ∃ now e, ops[j]? = some (.expire now) ∧ e.faellig ≤ now ∧ (i, e) ∈ offen (ops.take j)

theorem mem_offen {ops : List Op} {i : Nat} {e : TimerEintrag} :
    (i, e) ∈ offen ops ↔
      eingetragen ops i = some e ∧ ∀ op ∈ ops.drop (i + 1), op.nimmt e = false := by
  have hlt : eingetragen ops i = some e → i < ops.length := by
    intro h
    by_contra hge
    rw [eingetragen, List.getElem?_eq_none (by omega)] at h
    cases h
  unfold offen
  rw [List.mem_filterMap]
  constructor
  · rintro ⟨i', -, h⟩
    obtain ⟨e', he', hif⟩ := Option.bind_eq_some_iff.mp h
    split at hif
    · cases hif
    · rename_i hany
      obtain ⟨rfl, rfl⟩ := Prod.mk.inj (Option.some.inj hif)
      refine ⟨he', ?_⟩
      simpa using hany
  · rintro ⟨he, hall⟩
    refine ⟨i, List.mem_range.mpr (hlt he), ?_⟩
    rw [he, Option.bind_some, if_neg]
    simpa using hall

theorem stand_append (ops : List Op) (op : Op) : stand (ops ++ [op]) = step (stand ops) op := by
  rw [stand, List.foldl_append]
  rfl

theorem eingetragen_append {ops : List Op} {i : Nat} (h : i < ops.length) (rest : List Op) :
    eingetragen (ops ++ rest) i = eingetragen ops i := by
  unfold eingetragen
  rw [List.getElem?_append_left h, List.take_append_of_le_length (Nat.le_of_lt h)]

theorem eingetragen_take {ops : List Op} {i j : Nat} (hij : i < j) :
    eingetragen (ops.take j) i = eingetragen ops i := by
  unfold eingetragen
  rw [List.getElem?_take_of_lt hij, List.take_take, Nat.min_eq_left (Nat.le_of_lt hij)]

theorem offen_append (ops : List Op) (op : Op) :
    offen (ops ++ [op]) =
      (offen ops).filter (fun p => !op.nimmt p.2) ++
        ((eingetragen (ops ++ [op]) ops.length).map (ops.length, ·)).toList := by
  unfold offen
  rw [List.length_append, List.length_singleton, List.range_succ, List.filterMap_append]
  congr 1
  · rw [List.filter_filterMap]
    apply List.filterMap_congr
    intro i hi
    have hlt : i < ops.length := List.mem_range.mp hi
    rw [eingetragen_append hlt, List.drop_append_of_le_length (by omega)]
    cases eingetragen ops i with
    | none => rfl
    | some e =>
      simp only [Option.bind_some, List.any_append, List.any_cons, List.any_nil, Bool.or_false]
      cases (ops.drop (i + 1)).any (·.nimmt e) with
      | true => rfl
      | false => cases hn : op.nimmt e <;> simp [hn, Option.filter]
  · have hdrop : (ops ++ [op]).drop (ops.length + 1) = [] := by simp
    cases he : eingetragen (ops ++ [op]) ops.length with
    | none => simp [he]
    | some e => simp [he, hdrop]

theorem eingetragen_append_last (ops : List Op) (op : Op) :
    eingetragen (ops ++ [op]) ops.length =
      match op with
      | .after now ticks tid =>
        if ((stand ops).after now ticks tid).1 then some ⟨Word.saturatingAdd now ticks, tid⟩
        else none
      | _ => none := by
  unfold eingetragen
  rw [List.getElem?_concat_length, List.take_left]
  cases op <;> rfl

theorem toList_step (w : TimerWheel) (op : Op) :
    (w.step op).toList = w.toList.filter (fun e => !op.nimmt e) ++
      (match op with
        | .after now ticks tid =>
          if (w.after now ticks tid).1 then some ⟨Word.saturatingAdd now ticks, tid⟩ else none
        | _ => none : Option TimerEintrag).toList := by
  cases op with
  | after now ticks tid =>
    obtain ⟨hok, hlist⟩ := Packed.push_spec w ⟨Word.saturatingAdd now ticks, tid⟩
    have hkeep : w.toList.filter (fun e => !(Op.after now ticks tid).nimmt e) = w.toList := by
      simp [Op.nimmt]
    have hstep : (w.step (.after now ticks tid)).toList =
        (w.push ⟨Word.saturatingAdd now ticks, tid⟩).2.toList := rfl
    rw [hstep, hlist, hkeep]
    simp only [after, hok, decide_eq_true_eq]
    split <;> simp
  | expire now =>
    obtain ⟨-, hlist⟩ := Packed.extract_spec w fun e => decide (e.faellig ≤ now)
    rw [Option.toList_none, List.append_nil]
    exact hlist
  | absagen tid =>
    obtain ⟨-, hlist⟩ := Packed.extract_spec w fun e => decide (e.tid = tid)
    rw [Option.toList_none, List.append_nil]
    exact hlist

theorem toList_stand (ops : List Op) : (stand ops).toList = (offen ops).map Prod.snd := by
  induction ops using List.reverseRecOn with
  | nil => rfl
  | append_singleton ops op ih =>
    rw [stand_append, toList_step, offen_append, List.map_append, ih, List.filter_map,
      eingetragen_append_last]
    congr 1
    cases op with
    | after now ticks tid =>
      dsimp only
      split <;> rfl
    | expire now => rfl
    | absagen tid => rfl

theorem pairwise_offen (ops : List Op) : ((offen ops).map Prod.fst).Pairwise (· < ·) := by
  have hmap : (offen ops).map Prod.fst =
      (List.range ops.length).filterMap fun i =>
        ((eingetragen ops i).bind fun e =>
          if (ops.drop (i + 1)).any (·.nimmt e) then none else some (i, e)).map Prod.fst := by
    rw [offen, List.map_filterMap]
  rw [hmap, List.pairwise_filterMap]
  apply List.Pairwise.imp _ List.pairwise_lt_range
  intro i j hij a ha b hb
  have hfst : ∀ k c, ((eingetragen ops k).bind fun e =>
      if (ops.drop (k + 1)).any (·.nimmt e) then none else some (k, e)).map Prod.fst = some c →
      c = k := by
    intro k c hc
    obtain ⟨p, hp, rfl⟩ := Option.map_eq_some_iff.mp hc
    obtain ⟨e, -, he⟩ := Option.bind_eq_some_iff.mp hp
    split at he
    · cases he
    · cases he
      rfl
  rw [hfst i a ha, hfst j b hb]
  exact hij

theorem geweckt_iff (ops : List Op) (j i : Nat) :
    Geweckt ops j i ↔ ∃ now e, eingetragen ops i = some e ∧ i < j ∧
      ops[j]? = some (.expire now) ∧ e.faellig ≤ now ∧
      ∀ k op, i < k → k < j → ops[k]? = some op → op.nimmt e = false := by
  have hbetween : ∀ e, (∀ op ∈ (ops.take j).drop (i + 1), op.nimmt e = false) ↔
      ∀ k op, i < k → k < j → ops[k]? = some op → op.nimmt e = false := by
    intro e
    constructor
    · intro h k op hik hkj hk
      apply h
      apply List.mem_of_getElem? (i := k - (i + 1))
      rw [List.getElem?_drop, List.getElem?_take_of_lt (by omega)]
      rwa [show i + 1 + (k - (i + 1)) = k by omega]
    · intro h op hop
      obtain ⟨m, hm⟩ := List.getElem?_of_mem hop
      rw [List.getElem?_drop] at hm
      have hlt : i + 1 + m < j := by
        by_contra hge
        rw [List.getElem?_take_eq_none (by omega)] at hm
        cases hm
      rw [List.getElem?_take_of_lt hlt] at hm
      exact h (i + 1 + m) op (by omega) hlt hm
  unfold Geweckt
  constructor
  · rintro ⟨now, e, hj, hdue, hopen⟩
    obtain ⟨he, hall⟩ := mem_offen.mp hopen
    have hij : i < j := by
      by_contra hge
      rw [eingetragen, List.getElem?_take_eq_none (by omega)] at he
      cases he
    rw [eingetragen_take hij] at he
    exact ⟨now, e, he, hij, hj, hdue, (hbetween e).mp hall⟩
  · rintro ⟨now, e, he, hij, hj, hdue, hall⟩
    refine ⟨now, e, hj, hdue, mem_offen.mpr ⟨?_, (hbetween e).mpr hall⟩⟩
    rwa [eingetragen_take hij]

theorem geweckt_subsingleton (ops : List Op) (i : Nat) : {j | Geweckt ops j i}.Subsingleton := by
  have hnot : ∀ j j', Geweckt ops j i → Geweckt ops j' i → ¬ j < j' := by
    intro j j' hj hj' hlt
    obtain ⟨now, e, he, hij, hop, hdue, -⟩ := (geweckt_iff ops j i).mp hj
    obtain ⟨now', e', he', -, -, -, hall⟩ := (geweckt_iff ops j' i).mp hj'
    rw [he] at he'
    cases he'
    have hfalse := hall j _ hij hlt hop
    simp only [Op.nimmt, decide_eq_false_iff_not] at hfalse
    exact hfalse hdue
  intro j hj j' hj'
  have h1 := hnot j j' hj hj'
  have h2 := hnot j' j hj' hj
  omega

/-- After any calls, `after` succeeds while fewer timers are open than the wheel has places,
`expire` wakes the open timers that are due in the order in which they were accepted, and
`absagen` reports whether the thread had one.  Every accepted timer is woken by the first
`expire` for which it is due and by no other call, unless it was cancelled before. -/
theorem stand_spec (ops : List Op) :
    (∀ now ticks tid, ((stand ops).after now ticks tid).1 =
      decide ((offen ops).length < timerplaetze)) ∧
    (∀ now, ((stand ops).expire now).1 =
      ((offen ops).filter fun p => decide (p.2.faellig ≤ now)).map fun p => p.2.tid) ∧
    (∀ tid, ((stand ops).absagen tid).1 = (offen ops).any fun p => decide (p.2.tid = tid)) ∧
    (∀ i e, (i, e) ∈ offen ops ↔
      eingetragen ops i = some e ∧ ∀ op ∈ ops.drop (i + 1), op.nimmt e = false) ∧
    ((offen ops).map Prod.fst).Pairwise (· < ·) ∧
    (∀ j i, Geweckt ops j i ↔ ∃ now e, eingetragen ops i = some e ∧ i < j ∧
      ops[j]? = some (.expire now) ∧ e.faellig ≤ now ∧
      ∀ k op, i < k → k < j → ops[k]? = some op → op.nimmt e = false) ∧
    ∀ i, {j | Geweckt ops j i}.Subsingleton := by
  refine ⟨?_, ?_, ?_, fun i e => mem_offen, pairwise_offen ops, geweckt_iff ops,
    geweckt_subsingleton ops⟩
  · intro now ticks tid
    rw [after, (Packed.push_spec _ _).1, toList_stand, List.length_map]
  · intro now
    simp only [expire, (Packed.extract_spec _ _).1, toList_stand, List.filter_map, List.map_map]
    rfl
  · intro tid
    simp only [absagen, (Packed.extract_spec _ _).1, toList_stand]
    rw [Bool.eq_iff_iff]
    simp only [Bool.not_eq_true', List.isEmpty_eq_false_iff, ne_eq, List.filter_eq_nil_iff,
      decide_eq_true_eq, not_forall, Decidable.not_not, List.any_eq_true, List.mem_map]
    constructor
    · rintro ⟨e, ⟨x, hx, rfl⟩, htid⟩
      exact ⟨x, hx, htid⟩
    · rintro ⟨x, hx, htid⟩
      exact ⟨x.2, ⟨x, hx, rfl⟩, htid⟩

/-- A due timer, one that is not due and a cancelled one. -/
example :
    let ops := [Op.after 0 5 1, .after 0 9 2, .after 0 3 3, .absagen 1]
    ((stand ops).expire 5).1 = [3] ∧ ((stand (ops ++ [.expire 5])).expire 9).1 = [2] := by
  decide

end TimerWheel

end Caprock.Wait
