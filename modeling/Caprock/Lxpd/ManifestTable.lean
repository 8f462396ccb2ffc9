import Mathlib.Data.Finset.Card
import Caprock.Lxpd.DriverManifest
import Caprock.Lxpd.JsonObjects

/-! # Tables of members

The table that `parse_object_into` builds has each key once, with the value that the key was
given last.  Whether the members fit is a matter of the number of different keys.  The sort of
`verify_signature` puts a table into the one order of its keys.
-/

namespace Caprock.Lxpd

open Checks

variable {β γ : Type} {R : β → γ → Prop}

def keys (ms : List (Pair β)) : List (List UInt8) := ms.map Pair.key

theorem keys_nil : (keys ([] : List (Pair β))).Nodup := List.nodup_nil

theorem Pair.eq_of {p q : Pair β} (hkey : p.key = q.key) (hval : p.val = q.val) : p = q := by
  cases p
  cases q
  simp only at hkey hval
  rw [hkey, hval]

theorem find_cons (p : Pair β) (ms : List (Pair β)) (key : List UInt8) :
    find (p :: ms) key = if p.key = key then some p.val else find ms key := by
  by_cases hkey : p.key = key
  · simp [find, hkey]
  · simp [find, hkey]

theorem find_append (ms ms' : List (Pair β)) (key : List UInt8) :
    find (ms ++ ms') key = (find ms key).or (find ms' key) := by
  induction ms with
  | nil => rfl
  | cons p ms ih =>
    rw [List.cons_append, find_cons, find_cons, ih]
    split <;> rfl

theorem find_eq_none_iff {ms : List (Pair β)} {key : List UInt8} :
    find ms key = none ↔ key ∉ keys ms := by
  induction ms with
  | nil => simp [find, keys]
  | cons p ms ih =>
    rw [find_cons]
    by_cases hkey : p.key = key
    · simp [keys, hkey]
    · simp only [if_neg hkey, ih, keys, List.map_cons, List.mem_cons, not_or]
      exact ⟨fun h => ⟨fun h' => hkey h'.symm, h⟩, fun h => h.2⟩

theorem mem_iff_find {ms : List (Pair β)} (h : (keys ms).Nodup) {p : Pair β} :
    p ∈ ms ↔ find ms p.key = some p.val := by
  induction ms with
  | nil => simp [find]
  | cons q ms ih =>
    obtain ⟨hq, hms⟩ := List.nodup_cons.mp h
    rw [find_cons, List.mem_cons]
    by_cases hkey : q.key = p.key
    · have hnot : p ∉ ms := fun hp => hq (hkey ▸ List.mem_map_of_mem hp)
      simp only [if_pos hkey, hnot, or_false, Option.some.injEq]
      constructor
      · rintro rfl
        rfl
      · exact fun hval => (Pair.eq_of hkey hval).symm
    · rw [if_neg hkey, ← ih hms]
      constructor
      · rintro (rfl | hp)
        · exact absurd rfl hkey
        · exact hp
      · exact .inr

theorem perm_of_find {t t' : List (Pair β)} (ht : (keys t).Nodup) (ht' : (keys t').Nodup)
    (h : ∀ key, find t' key = find t key) : t'.Perm t := by
  refine (List.perm_ext_iff_of_nodup ht'.of_map ht.of_map).mpr fun p => ?_
  rw [mem_iff_find ht', mem_iff_find ht, h]

theorem ersetzen_eq_none {key : List UInt8} {val : β} {out : List (Pair β)} :
    ersetzen key val out = none ↔ key ∉ keys out := by
  induction out with
  | nil => simp [ersetzen, keys]
  | cons p out ih =>
    rw [ersetzen]
    by_cases hkey : p.key = key
    · simp [keys, hkey]
    · simp only [if_neg hkey, Option.map_eq_none_iff, ih, keys, List.map_cons, List.mem_cons,
        not_or]
      exact ⟨fun h => ⟨fun h' => hkey h'.symm, h⟩, fun h => h.2⟩

theorem ersetzen_eq_some {key : List UInt8} {val : β} {out t : List (Pair β)}
    (h : ersetzen key val out = some t) :
    keys t = keys out ∧ ∀ k, find t k = if key = k then some val else find out k := by
  induction out generalizing t with
  | nil => cases h
  | cons p out ih =>
    rw [ersetzen] at h
    split at h
    · next hkey =>
      cases h
      refine ⟨rfl, fun k => ?_⟩
      rw [find_cons, find_cons, hkey]
      split <;> rfl
    · next hkey =>
      obtain ⟨t, ht, rfl⟩ := Option.map_eq_some_iff.mp h
      obtain ⟨hkeys, hfind⟩ := ih ht
      refine ⟨by rw [keys, keys, List.map_cons, List.map_cons]; exact congrArg _ hkeys, ?_⟩
      intro k
      rw [find_cons, find_cons, hfind]
      by_cases hk : p.key = k
      · have hne : key ≠ k := fun hk' => hkey (hk.trans hk'.symm)
        rw [if_pos hk, if_neg hne]
        exact (if_pos hk).symm
      · rw [if_neg hk, if_neg hk]

theorem ablegen_find {cap : Nat} {out t : List (Pair β)} {key : List UInt8} {val : β}
    (h : ablegen cap out key val = .ok t) (k : List UInt8) :
    find t k = if key = k then some val else find out k := by
  unfold ablegen at h
  split at h
  · next hsome =>
    cases h
    exact (ersetzen_eq_some hsome).2 k
  · next hnone =>
    split at h
    · cases h
      have hnot := ersetzen_eq_none.mp hnone
      rw [find_append, find_cons]
      by_cases hk : key = k
      · subst hk
        rw [find_eq_none_iff.mpr hnot]
        rfl
      · dsimp only
        rw [if_neg hk, if_neg hk]
        cases find out k <;> rfl
    · cases h

theorem ablegen_nodup {cap : Nat} {out t : List (Pair β)} {key : List UInt8} {val : β}
    (hout : (keys out).Nodup) (hcap : out.length ≤ cap) (h : ablegen cap out key val = .ok t) :
    (keys t).Nodup ∧ t.length ≤ cap := by
  unfold ablegen at h
  split at h
  · next hsome =>
    cases h
    have hkeys := (ersetzen_eq_some hsome).1
    have hlen := congrArg List.length hkeys
    simp only [keys, List.length_map] at hlen
    rw [hkeys]
    exact ⟨hout, by omega⟩
  · next hnone =>
    split at h
    · next hlt =>
      cases h
      have hnot := ersetzen_eq_none.mp hnone
      refine ⟨?_, by rw [List.length_append]; exact hlt⟩
      rw [keys, List.map_append]
      refine List.Nodup.append hout (by simp) fun k hk hk' => ?_
      obtain rfl : k = key := by simpa using hk'
      exact hnot hk
    · cases h

theorem alleAblegen_nodup {cap : Nat} {out t ms : List (Pair β)} (hout : (keys out).Nodup)
    (hcap : out.length ≤ cap) (h : alleAblegen cap out ms = .ok t) :
    (keys t).Nodup ∧ t.length ≤ cap := by
  induction ms generalizing out with
  | nil =>
    cases h
    exact ⟨hout, hcap⟩
  | cons m ms ih =>
    obtain ⟨out₁, hout₁, h⟩ := bind_eq_ok.mp h
    obtain ⟨hnodup, hle⟩ := ablegen_nodup hout hcap hout₁
    exact ih hnodup hle h

theorem find_alleAblegen {cap : Nat} {out t ms : List (Pair β)}
    (h : alleAblegen cap out ms = .ok t) (key : List UInt8) :
    find t key =
      ((ms.filter fun m => decide (m.key = key)).getLast?.map Pair.val).or (find out key) := by
  induction ms generalizing out with
  | nil =>
    cases h
    rfl
  | cons m ms ih =>
    obtain ⟨out₁, hout₁, h⟩ := bind_eq_ok.mp h
    rw [ih h, ablegen_find hout₁]
    by_cases hkey : m.key = key
    · rw [List.filter_cons_of_pos (by simpa using hkey), if_pos hkey, List.getLast?_cons]
      cases (ms.filter fun m => decide (m.key = key)).getLast? <;> rfl
    · rw [List.filter_cons_of_neg (by simpa using hkey), if_neg hkey]

theorem alleAblegen_isOk {cap : Nat} {out ms : List (Pair β)} (hout : (keys out).Nodup)
    (hcap : out.length ≤ cap) :
    (∃ t, alleAblegen cap out ms = .ok t) ↔ (keys (out ++ ms)).toFinset.card ≤ cap := by
  induction ms generalizing out with
  | nil =>
    rw [List.append_nil, List.toFinset_card_of_nodup hout]
    simpa [alleAblegen, keys] using hcap
  | cons m ms ih =>
    have hset : keys (out ++ m :: ms) = keys out ++ m.key :: keys ms := by
      simp [keys]
    cases habl : ablegen cap out m.key m.val with
    | ok t =>
      obtain ⟨hnodup, hle⟩ := ablegen_nodup hout hcap habl
      have hsame : (keys (t ++ ms)).toFinset = (keys (out ++ m :: ms)).toFinset := by
        ext k
        have hk := ablegen_find habl k
        have hmem : k ∈ keys t ↔ m.key = k ∨ k ∈ keys out := by
          rw [← not_iff_not, not_or, ← find_eq_none_iff, ← find_eq_none_iff, hk]
          by_cases hkey : m.key = k <;> simp [hkey]
        rw [List.mem_toFinset, List.mem_toFinset, hset, keys, List.map_append,
          List.mem_append, List.mem_append, List.mem_cons]
        change k ∈ keys t ∨ k ∈ keys ms ↔ _
        rw [hmem, eq_comm (a := m.key)]
        tauto
      rw [← hsame, ← ih hnodup hle, alleAblegen, habl]
      rfl
    | error e =>
      have hfull : m.key ∉ keys out ∧ ¬ out.length < cap := by
        unfold ablegen at habl
        split at habl
        · cases habl
        · next hnone =>
          split at habl
          · cases habl
          · next hlt => exact ⟨ersetzen_eq_none.mp hnone, hlt⟩
      rw [alleAblegen, habl]
      constructor
      · rintro ⟨t, ht⟩
        cases ht
      · intro hle
        have hsub : (m.key :: keys out).toFinset ⊆ (keys (out ++ m :: ms)).toFinset := by
          intro k hk
          rw [List.mem_toFinset] at hk ⊢
          rw [hset, List.mem_append, List.mem_cons]
          rcases List.mem_cons.mp hk with rfl | hk
          · exact .inr (.inl rfl)
          · exact .inl hk
        have hcard := Finset.card_le_card hsub
        rw [List.toFinset_card_of_nodup (List.nodup_cons.mpr ⟨hfull.1, hout⟩),
          List.length_cons, keys, List.length_map] at hcard
        omega

theorem alleAblegen_rel {cap : Nat} {out ms : List (Pair β)} {out' ms' : List (Pair γ)}
    (hout : List.Forall₂ (Pair.Rel R) out out') (hms : List.Forall₂ (Pair.Rel R) ms ms')
    {t : List (Pair β)} (h : alleAblegen cap out ms = .ok t) :
    ∃ t', alleAblegen cap out' ms' = .ok t' ∧ List.Forall₂ (Pair.Rel R) t t' := by
  induction hms generalizing out out' with
  | nil =>
    cases h
    exact ⟨out', rfl, hout⟩
  | @cons m m' ms ms' hm hms ih =>
    obtain ⟨out₁, hout₁, h⟩ := bind_eq_ok.mp h
    rcases ablegen_rel cap m.key hout hm.val with
      ⟨e, he, -⟩ | ⟨t₁, t₁', ht₁, ht₁', hrel⟩
    · rw [hout₁] at he
      cases he
    · rw [hout₁] at ht₁
      cases ht₁
      obtain ⟨t', ht', hrel'⟩ := ih hrel h
      refine ⟨t', ?_, hrel'⟩
      rw [alleAblegen, ← hm.key, ht₁']
      exact ht'

/-- For each key the members with this key are the same, in the same order. -/
def Umgestellt (ms ms' : List (Pair β)) : Prop :=
  ∀ key, (ms'.filter fun m => decide (m.key = key)) = ms.filter fun m => decide (m.key = key)

theorem Umgestellt.mem_iff {ms ms' : List (Pair β)} (h : Umgestellt ms ms') (m : Pair β) :
    m ∈ ms' ↔ m ∈ ms := by
  have hm : ∀ xs : List (Pair β), m ∈ xs ↔ m ∈ xs.filter fun x => decide (x.key = m.key) := by
    intro xs
    simp
  rw [hm ms', hm ms, h]

theorem alleAblegen_umgestellt {cap : Nat} {ms ms' t : List (Pair β)} (h : Umgestellt ms ms')
    (ht : alleAblegen cap [] ms = .ok t) :
    ∃ t', alleAblegen cap [] ms' = .ok t' ∧ t'.Perm t ∧ ∀ key, find t' key = find t key := by
  have hset : (keys ms').toFinset = (keys ms).toFinset := by
    ext key
    simp only [List.mem_toFinset, keys, List.mem_map, h.mem_iff]
  have hcard := (alleAblegen_isOk keys_nil (Nat.zero_le cap)).mp ⟨t, ht⟩
  rw [List.nil_append, ← hset] at hcard
  obtain ⟨t', ht'⟩ := (alleAblegen_isOk keys_nil (Nat.zero_le cap)).mpr hcard
  have hfind : ∀ key, find t' key = find t key := fun key => by
    rw [find_alleAblegen ht', find_alleAblegen ht, h]
  exact ⟨t', ht', perm_of_find (alleAblegen_nodup keys_nil (Nat.zero_le cap) ht).1
    (alleAblegen_nodup keys_nil (Nat.zero_le cap) ht').1 hfind, hfind⟩

theorem mem_of_alleAblegen {cap : Nat} {ms t : List (Pair β)}
    (h : alleAblegen cap [] ms = .ok t) {p : Pair β} (hp : p ∈ t) : p ∈ ms := by
  have hnodup := (alleAblegen_nodup keys_nil (Nat.zero_le cap) h).1
  have hfind := (mem_iff_find hnodup).mp hp
  rw [find_alleAblegen h] at hfind
  cases hlast : (ms.filter fun m => decide (m.key = p.key)).getLast? with
  | none =>
    rw [hlast] at hfind
    cases hfind
  | some m =>
    rw [hlast] at hfind
    have hm := List.mem_filter.mp (List.mem_of_getLast? hlast)
    exact Pair.eq_of (of_decide_eq_true hm.2) (Option.some.inj hfind) ▸ hm.1

theorem alleAblegen_self {cap : Nat} {t : List (Pair β)} (ht : (keys t).Nodup)
    (hcap : t.length ≤ cap) : alleAblegen cap [] t = .ok t := by
  have hgen : ∀ out ms : List (Pair β), (keys (out ++ ms)).Nodup → (out ++ ms).length ≤ cap →
      alleAblegen cap out ms = .ok (out ++ ms) := by
    intro out ms
    induction ms generalizing out with
    | nil =>
      intro _ _
      rw [List.append_nil]
      rfl
    | cons m ms ih =>
      intro hnodup hlen
      have hnot : m.key ∉ keys out := by
        rw [keys, List.map_append, List.map_cons] at hnodup
        intro hmem
        exact (List.nodup_append.mp hnodup).2.2 m.key hmem m.key List.mem_cons_self rfl
      have hlt : out.length < cap := by
        rw [List.length_append, List.length_cons] at hlen
        omega
      rw [alleAblegen, ablegen, ersetzen_eq_none.mpr hnot]
      simp only [if_pos hlt, Except.bind]
      have hrest := ih (out ++ [m]) (by rwa [List.append_assoc]) (by rwa [List.append_assoc])
      rw [List.append_assoc] at hrest
      exact hrest
  exact hgen [] t ht hcap

theorem durchgang_perm (x : Pair β) (ys : List (Pair β)) :
    ((durchgang x ys).1 :: (durchgang x ys).2).Perm (x :: ys) := by
  induction ys generalizing x with
  | nil => exact List.Perm.refl _
  | cons y ys ih =>
    rw [durchgang]
    split
    · exact ((List.Perm.swap _ _ _).trans ((ih y).cons x))
    · exact (List.Perm.swap _ _ _).trans (((ih x).cons y).trans (List.Perm.swap _ _ _))

theorem durchgang_le (x : Pair β) (ys : List (Pair β)) :
    ¬ x.key < (durchgang x ys).1.key ∧
      ∀ z ∈ (durchgang x ys).2, ¬ z.key < (durchgang x ys).1.key := by
  induction ys generalizing x with
  | nil => exact ⟨List.lt_irrefl _, by simp [durchgang]⟩
  | cons y ys ih =>
    rw [durchgang]
    split
    · next hlt =>
      obtain ⟨hy, hrest⟩ := ih y
      have hx : ¬ x.key < (durchgang y ys).1.key := List.le_trans hy (List.lt_asymm hlt)
      refine ⟨hx, fun z hz => ?_⟩
      rcases List.mem_cons.mp hz with rfl | hz
      · exact hx
      · exact hrest z hz
    · next hge =>
      obtain ⟨hx, hrest⟩ := ih x
      refine ⟨hx, fun z hz => ?_⟩
      rcases List.mem_cons.mp hz with rfl | hz
      · exact List.le_trans hx hge
      · exact hrest z hz

theorem sortieren_perm (xs : List (Pair β)) : (sortieren xs).Perm xs := by
  fun_induction sortieren xs with
  | case1 => exact List.Perm.refl _
  | case2 x xs ih => exact (ih.cons _).trans (durchgang_perm x xs)

theorem sortieren_sorted (xs : List (Pair β)) :
    (sortieren xs).Pairwise fun p q => ¬ q.key < p.key := by
  fun_induction sortieren xs with
  | case1 => exact List.Pairwise.nil
  | case2 x xs ih =>
    refine List.Pairwise.cons (fun z hz => ?_) ih
    exact (durchgang_le x xs).2 z ((sortieren_perm _).mem_iff.mp hz)

theorem eq_of_key {t : List (Pair β)} (ht : (keys t).Nodup) {p q : Pair β} (hp : p ∈ t)
    (hq : q ∈ t) (h : p.key = q.key) : p = q := by
  have hfind := (mem_iff_find ht).mp hp
  rw [h, (mem_iff_find ht).mp hq] at hfind
  exact Pair.eq_of h (Option.some.inj hfind).symm

theorem sortieren_eq {t t' : List (Pair β)} (ht : (keys t).Nodup) (h : t'.Perm t) :
    sortieren t' = sortieren t := by
  refine List.Perm.eq_of_pairwise (fun p q hp hq hle hge => ?_) (sortieren_sorted t')
    (sortieren_sorted t) ((sortieren_perm t').trans (h.trans (sortieren_perm t).symm))
  have hp' : p ∈ t := h.mem_iff.mp ((sortieren_perm t').mem_iff.mp hp)
  have hq' : q ∈ t := (sortieren_perm t).mem_iff.mp hq
  exact eq_of_key ht hp' hq' (List.le_antisymm hle hge)

theorem durchgang_rel {x : Pair β} {x' : Pair γ} {ys : List (Pair β)} {ys' : List (Pair γ)}
    (hx : Pair.Rel R x x') (hys : List.Forall₂ (Pair.Rel R) ys ys') :
    Pair.Rel R (durchgang x ys).1 (durchgang x' ys').1 ∧
      List.Forall₂ (Pair.Rel R) (durchgang x ys).2 (durchgang x' ys').2 := by
  induction hys generalizing x x' with
  | nil => exact ⟨hx, .nil⟩
  | cons hy hys ih =>
    rw [durchgang, durchgang, ← hx.key, ← hy.key]
    split
    · obtain ⟨hfirst, hrest⟩ := ih hy
      exact ⟨hfirst, .cons hx hrest⟩
    · obtain ⟨hfirst, hrest⟩ := ih hx
      exact ⟨hfirst, .cons hy hrest⟩

theorem sortieren_rel {xs : List (Pair β)} {xs' : List (Pair γ)}
    (h : List.Forall₂ (Pair.Rel R) xs xs') :
    List.Forall₂ (Pair.Rel R) (sortieren xs) (sortieren xs') := by
  fun_induction sortieren xs generalizing xs' with
  | case1 =>
    cases h
    rw [sortieren]
    exact .nil
  | case2 x xs ih =>
    cases h with
    | cons hx hxs =>
      obtain ⟨hfirst, hrest⟩ := durchgang_rel hx hxs
      rw [sortieren]
      exact .cons hfirst (ih hrest)

theorem signiert_rel {t : List (Pair β)} {t' : List (Pair γ)}
    (h : List.Forall₂ (Pair.Rel R) t t') :
    List.Forall₂ (Pair.Rel R) (signiert t) (signiert t') := by
  refine sortieren_rel ?_
  induction h with
  | nil => exact .nil
  | cons hp h ih =>
    rw [List.filter_cons, List.filter_cons, ← hp.key]
    split
    · exact .cons hp ih
    · exact ih

theorem signiert_eq {t t' : List (Pair β)} (ht : (keys t).Nodup) (h : t'.Perm t) :
    signiert t' = signiert t :=
  sortieren_eq (ht.sublist (List.filter_sublist.map _)) (h.filter _)

theorem mem_signiert {t : List (Pair β)} {p : Pair β} :
    p ∈ signiert t ↔ p ∈ t ∧ p.key ≠ fSignature := by
  rw [signiert, (sortieren_perm _).mem_iff, List.mem_filter, decide_eq_true_eq]

theorem keys_signiert_nodup {t : List (Pair β)} (ht : (keys t).Nodup) :
    (keys (signiert t)).Nodup :=
  (((sortieren_perm _).map Pair.key).nodup_iff).mpr (ht.sublist (List.filter_sublist.map _))

theorem length_signiert_le (t : List (Pair β)) : (signiert t).length ≤ t.length := by
  rw [signiert, (sortieren_perm _).length_eq]
  exact List.length_filter_le _ t

theorem find_signiert {t : List (Pair β)} (ht : (keys t).Nodup) (key : List UInt8) :
    find (signiert t) key = if key = fSignature then none else find t key := by
  have hnodup := keys_signiert_nodup ht
  by_cases hkey : key = fSignature
  · rw [if_pos hkey, find_eq_none_iff]
    intro hmem
    obtain ⟨p, hp, hpk⟩ := List.mem_map.mp hmem
    exact (mem_signiert.mp hp).2 (hpk.trans hkey)
  · rw [if_neg hkey]
    cases hfind : find t key with
    | none =>
      rw [find_eq_none_iff] at hfind ⊢
      intro hmem
      obtain ⟨p, hp, rfl⟩ := List.mem_map.mp hmem
      exact hfind (List.mem_map_of_mem (mem_signiert.mp hp).1)
    | some v =>
      have hp : (⟨key, v⟩ : Pair β) ∈ t := (mem_iff_find ht).mpr hfind
      exact (mem_iff_find hnodup).mp (mem_signiert.mpr ⟨hp, hkey⟩)

end Caprock.Lxpd
