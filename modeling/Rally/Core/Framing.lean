/-
Finding where the first of several delimiters starts, in a stream that arrives piece by piece.

- `find`: the first place of one pattern. `first`: the earliest place of any of a list of patterns, as a scan computes it.
- `Ends`, `FirstEnd`: a pattern stands at a place, and none at an earlier one. `first_eq_some`: the scan finds that place.
- `Apart`: no pattern stands inside another before its last element, so that none is complete before one that started
  earlier. `first_append`: what is found then stays the first, whatever arrives later.
- `first_take`: what is found in the whole is found as soon as its pattern is there.
-/
import Mathlib.Data.List.Infix
import Mathlib.Tactic

namespace Framing

variable {α : Type}

/-! ## Places -/

/-- a pattern stands at place `k` -/
def Ends (P : List (List α)) (xs : List α) (k : ℕ) : Prop := ∃ p ∈ P, p <+: xs.drop k

/-- a pattern stands at place `k`, and none before it -/
def FirstEnd (P : List (List α)) (xs : List α) (k : ℕ) : Prop := Ends P xs k ∧ ∀ j < k, ¬ Ends P xs j

/-- every pattern has an element -/
def Filled (P : List (List α)) : Prop := ∀ p ∈ P, p ≠ []

/-- no pattern stands inside another before its last element -/
def Apart (P : List (List α)) : Prop := ∀ p ∈ P, ∀ q ∈ P, ¬ p <:+: q.dropLast

variable {P : List (List α)} {xs ys : List α} {k n : ℕ}

theorem FirstEnd.unique {k' : ℕ} (h : FirstEnd P xs k) (h' : FirstEnd P xs k') : k = k' := by
  rcases lt_trichotomy k k' with hlt | heq | hlt
  · exact absurd h.1 (h'.2 k hlt)
  · exact heq
  · exact absurd h'.1 (h.2 k' hlt)

theorem Ends.le_length (hP : Filled P) (h : Ends P xs k) : k ≤ xs.length := by
  obtain ⟨p, hp, hprefix⟩ := h
  by_contra hlong
  rw [List.drop_eq_nil_of_le (by omega)] at hprefix
  exact hP p hp (List.prefix_nil.1 hprefix)

theorem Ends.append (h : Ends P xs k) : Ends P (xs ++ ys) k := by
  obtain ⟨p, hp, hprefix⟩ := h
  refine ⟨p, hp, ?_⟩
  rw [List.drop_append]
  exact hprefix.trans (List.prefix_append _ _)

/-- a pattern that is complete in the first part stands there already -/
theorem prefix_of_append {p : List α} (h : p <+: (xs ++ ys).drop k) (hroom : k + p.length ≤ xs.length) :
    p <+: xs.drop k := by
  rw [List.drop_append_of_le_length (by omega)] at h
  exact List.prefix_of_prefix_length_le h (List.prefix_append _ _) (by simp only [List.length_drop]; omega)

/-- **What is first stays first.** Where no pattern stands inside another, a pattern that starts earlier than one already
complete is complete too, so later elements do not bring an earlier place. -/
theorem FirstEnd.append (hapart : Apart P) (h : FirstEnd P xs k) : FirstEnd P (xs ++ ys) k := by
  refine ⟨h.1.append, fun j hj ⟨q, hq, hstands⟩ => ?_⟩
  obtain ⟨⟨p, hp, hprefix⟩, hearlier⟩ := h
  by_cases hroom : j + q.length ≤ xs.length
  · exact hearlier j hj ⟨q, hq, prefix_of_append hstands hroom⟩
  -- the pattern found ends within the first part, so before the last element of the one that starts earlier
  · have hlen : p.length ≤ xs.length - k := by simpa using hprefix.length_le
    have hfound : p <+: (xs ++ ys).drop k := by
      rw [List.drop_append]
      exact hprefix.trans (List.prefix_append _ _)
    have hinner : q.drop (k - j) <+: (xs ++ ys).drop k := by
      have := hstands.drop (k - j)
      rwa [List.drop_drop, Nat.add_sub_cancel' hj.le] at this
    by_cases hk : k ≤ xs.length
    · refine hapart p hp q hq ?_
      have hinto : p <+: q.dropLast.drop (k - j) := by
        refine List.prefix_of_prefix_length_le hfound ?_ ?_
        · rw [List.dropLast_eq_take, List.drop_take]
          exact (List.take_prefix _ _).trans hinner
        · simp only [List.length_drop, List.length_dropLast]
          omega
      exact hinto.isInfix.trans (List.drop_suffix _ _).isInfix
    · have hnil : p = [] := List.eq_nil_of_length_eq_zero (by omega)
      exact hapart p hp q hq (hnil ▸ List.nil_infix)

/-! ## One pattern -/

variable [DecidableEq α]

/-- where `p` first stands in a list (`bytes.find`, with `none` for `-1`) -/
def find (p : List α) : List α → Option ℕ
  | [] => if p = [] then some 0 else none
  | x :: xs => if p <+: x :: xs then some 0 else (find p xs).map (· + 1)

/-- the places before the first one have no pattern -/
theorem find_eq_some {p xs : List α} {k : ℕ} :
    find p xs = some k ↔ k ≤ xs.length ∧ p <+: xs.drop k ∧ ∀ j < k, ¬ p <+: xs.drop j := by
  induction xs generalizing k with
  | nil =>
    by_cases hp : p = []
    · cases k <;> simp [find, hp]
    · cases k <;> simp [find, hp]
  | cons x xs ih =>
    by_cases hhere : p <+: x :: xs
    · cases k with
      | zero => simp [find, hhere]
      | succ k =>
        simp only [find, hhere, if_true, Option.some.injEq, reduceCtorEq, false_iff]
        rintro ⟨-, -, hnone⟩
        exact hnone 0 (Nat.succ_pos k) hhere
    · cases k with
      | zero => simp [find, hhere]
      | succ k =>
        simp only [find, hhere, if_false, Option.map_eq_some_iff, Nat.add_right_cancel_iff, exists_eq_right, ih,
          List.length_cons, Nat.add_le_add_iff_right, List.drop_succ_cons]
        refine and_congr_right fun _ => and_congr_right fun _ => ⟨fun hnone j hj => ?_, fun hnone j hj => ?_⟩
        · cases j with
          | zero => exact hhere
          | succ j => exact hnone j (by omega)
        · exact hnone (j + 1) (by omega)

theorem find_eq_none {p xs : List α} : find p xs = none ↔ ∀ k ≤ xs.length, ¬ p <+: xs.drop k := by
  induction xs with
  | nil => by_cases hp : p = [] <;> simp [find, hp]
  | cons x xs ih =>
    by_cases hhere : p <+: x :: xs
    · simp only [find, hhere, if_true, reduceCtorEq, false_iff, not_forall, not_not]
      exact ⟨0, Nat.zero_le _, hhere⟩
    · simp only [find, hhere, if_false, Option.map_eq_none_iff, ih]
      refine ⟨fun hnone k hk => ?_, fun hnone k hk => hnone (k + 1) (Nat.succ_le_succ hk)⟩
      cases k with
      | zero => exact hhere
      | succ k => exact hnone k (Nat.le_of_succ_le_succ hk)

/-! ## Several patterns -/

/-- the earliest place of any pattern: each is searched for, and the least place is kept -/
def first (P : List (List α)) (xs : List α) : Option ℕ := (P.filterMap fun p => find p xs).min?

/-- a pattern that stands somewhere is found there or earlier -/
theorem find_le {p : List α} (hk : k ≤ xs.length) (h : p <+: xs.drop k) : ∃ i ≤ k, find p xs = some i := by
  cases hfind : find p xs with
  | none => exact absurd h (find_eq_none.1 hfind k hk)
  | some i =>
    refine ⟨i, not_lt.1 fun hlt => ?_, rfl⟩
    exact (find_eq_some.1 hfind).2.2 k hlt h

/-- **The scan finds the first place of any pattern.** -/
theorem first_eq_some (hP : Filled P) : first P xs = some k ↔ FirstEnd P xs k := by
  rw [first, List.min?_eq_some_iff]
  constructor
  · rintro ⟨hmem, hleast⟩
    obtain ⟨p, hp, hfind⟩ := List.mem_filterMap.1 hmem
    refine ⟨⟨p, hp, (find_eq_some.1 hfind).2.1⟩, fun j hj hends => ?_⟩
    have hlen := hends.le_length hP
    obtain ⟨q, hq, hprefix⟩ := hends
    obtain ⟨i, hi, hfound⟩ := find_le hlen hprefix
    have hki : k ≤ i := hleast i (List.mem_filterMap.2 ⟨q, hq, hfound⟩)
    omega
  · rintro ⟨hends, hearlier⟩
    have hlen := hends.le_length hP
    obtain ⟨p, hp, hprefix⟩ := hends
    have hle : ∀ j ∈ P.filterMap (fun p => find p xs), k ≤ j := by
      intro j hj
      obtain ⟨q, hq, hfind⟩ := List.mem_filterMap.1 hj
      exact not_lt.1 fun hlt => hearlier j hlt ⟨q, hq, (find_eq_some.1 hfind).2.1⟩
    obtain ⟨i, hi, hfound⟩ := find_le hlen hprefix
    have hmem : i ∈ P.filterMap (fun p => find p xs) := List.mem_filterMap.2 ⟨p, hp, hfound⟩
    have : i = k := le_antisymm hi (hle i hmem)
    exact ⟨this ▸ hmem, hle⟩

theorem first_eq_none (hP : Filled P) : first P xs = none ↔ ∀ k, ¬ Ends P xs k := by
  rw [first, List.min?_eq_none_iff, List.filterMap_eq_nil_iff]
  constructor
  · intro h k hends
    have hlen := hends.le_length hP
    obtain ⟨p, hp, hprefix⟩ := hends
    exact find_eq_none.1 (h p hp) k hlen hprefix
  · exact fun h p hp => find_eq_none.2 fun k _ hprefix => h k ⟨p, hp, hprefix⟩

/-! ## What has arrived -/

/-- **What was found in what has arrived is what is found in the whole.** -/
theorem first_append (hP : Filled P) (hapart : Apart P) (h : first P xs = some k) (ys : List α) :
    first P (xs ++ ys) = some k :=
  (first_eq_some hP).2 (((first_eq_some hP).1 h).append hapart)

/-- **What is first in the whole is found once its pattern has arrived.** -/
theorem first_take (hP : Filled P) (h : first P xs = some k) (hroom : ∀ p ∈ P, k + p.length ≤ n) :
    first P (xs.take n) = some k := by
  rw [first_eq_some hP] at h ⊢
  obtain ⟨⟨p, hp, hstands⟩, hearlier⟩ := h
  refine ⟨⟨p, hp, ?_⟩, fun j hj ⟨q, hq, hstands⟩ => hearlier j hj ⟨q, hq, ?_⟩⟩
  · rw [List.drop_take]
    exact List.prefix_take_iff.2 ⟨hstands, by have := hroom p hp; omega⟩
  · rw [List.drop_take] at hstands
    exact hstands.trans (List.take_prefix _ _)

end Framing
