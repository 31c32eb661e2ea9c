/-
Insertion-ordered dictionaries, as a Python `dict` keeps them: assigning to a present key replaces the value in
place, assigning to a new key appends. Keys are compared with `=`; a program whose keys have a coarser equality uses
the canonical form of the key here.

- `get?_upsert`, `get?_erase`: what a lookup sees after an assignment and after a deletion.
- `Ok`: keys are distinct; every dictionary built by assignments is `Ok` (`ok_upsert`), and then iterating over the
  items and looking keys up agree (`mem_iff`).
- `build`: the dictionary of a comprehension. `get?_build` and `get?_build_isSome` say that the last pair with a key
  wins and that no key is lost.
-/
import Mathlib.Tactic

namespace Dict

variable {κ α β : Type} [DecidableEq κ]

/-- `d.get(k)` -/
def get? (d : List (κ × α)) (k : κ) : Option α := (d.find? (fun p => p.1 = k)).map Prod.snd

/-- `d[k] = f(d.get(k))` -/
def upsert (d : List (κ × α)) (k : κ) (f : Option α → α) : List (κ × α) :=
  match d with
  | [] => [(k, f none)]
  | (l, a) :: d => if l = k then (l, f (some a)) :: d else (l, a) :: upsert d k f

/-- keys are distinct -/
def Ok (d : List (κ × α)) : Prop := (d.map Prod.fst).Nodup

@[simp] theorem get?_nil (k : κ) : get? ([] : List (κ × α)) k = none := rfl

theorem get?_cons (p : κ × α) (d : List (κ × α)) (k : κ) :
    get? (p :: d) k = if p.1 = k then some p.2 else get? d k := by
  unfold get?
  by_cases h : p.1 = k <;> simp [h]

theorem get?_upsert (d : List (κ × α)) (k l : κ) (f : Option α → α) :
    get? (upsert d k f) l = if k = l then some (f (get? d k)) else get? d l := by
  induction d with
  | nil => simp [upsert, get?_cons]
  | cons p d ih =>
    obtain ⟨m, a⟩ := p
    simp only [upsert]
    by_cases hm : m = k
    · subst hm
      by_cases hl : m = l <;> simp [get?_cons, hl]
    · rw [if_neg hm, get?_cons, ih, get?_cons, get?_cons]
      by_cases hl : k = l
      · subst hl; simp [hm]
      · simp [hl]

theorem keys_upsert (d : List (κ × α)) (k : κ) (f : Option α → α) :
    (upsert d k f).map Prod.fst = if k ∈ d.map Prod.fst then d.map Prod.fst else d.map Prod.fst ++ [k] := by
  induction d with
  | nil => simp [upsert]
  | cons p d ih =>
    obtain ⟨m, a⟩ := p
    simp only [upsert]
    by_cases hm : m = k
    · subst hm; simp
    · rw [if_neg hm, List.map_cons, ih]
      by_cases hk : k ∈ d.map Prod.fst
      · simp only [if_pos hk, List.map_cons]
        rw [if_pos (List.mem_cons_of_mem _ hk)]
      · have hne : k ∉ m :: d.map Prod.fst := by
          intro h
          rcases List.mem_cons.1 h with h | h
          · exact hm h.symm
          · exact hk h
        simp only [if_neg hk, List.map_cons]
        rw [if_neg hne]
        rfl

theorem ok_upsert {d : List (κ × α)} (h : Ok d) (k : κ) (f : Option α → α) : Ok (upsert d k f) := by
  unfold Ok
  rw [keys_upsert]
  split_ifs with hk
  · exact h
  · exact List.nodup_append.2 ⟨h, List.nodup_singleton k, fun a ha b hb hab => hk (by simp_all)⟩

/-- `d.pop(k, None)`, for the dictionary -/
def erase (d : List (κ × α)) (k : κ) : List (κ × α) := d.filter fun p => p.1 ≠ k

theorem get?_erase (d : List (κ × α)) (k l : κ) : get? (erase d k) l = if k = l then none else get? d l := by
  induction d with
  | nil => simp [erase]
  | cons p d ih =>
    unfold erase at ih ⊢
    rw [List.filter_cons, get?_cons]
    by_cases hp : p.1 = k
    · rw [if_neg (by simpa using hp), ih]
      by_cases hl : k = l
      · simp [hl]
      · rw [if_neg hl, if_neg hl, if_neg (fun h => hl (hp.symm.trans h))]
    · rw [if_pos (by simpa using hp), get?_cons, ih]
      by_cases hl : k = l
      · subst hl
        simp [hp]
      · simp [hl]

/-- in a dictionary, iterating and looking up agree -/
theorem mem_iff {d : List (κ × α)} (h : Ok d) {k : κ} {a : α} : (k, a) ∈ d ↔ get? d k = some a := by
  induction d with
  | nil => simp
  | cons p d ih =>
    obtain ⟨m, b⟩ := p
    obtain ⟨hm, hd⟩ := List.nodup_cons.1 h
    rw [get?_cons, List.mem_cons]
    by_cases hk : m = k
    · subst hk
      have hno : (m, a) ∉ d := fun hmem => hm (List.mem_map.2 ⟨(m, a), hmem, rfl⟩)
      simp [hno, eq_comm]
    · rw [if_neg hk, ← ih hd]
      simp [Ne.symm hk]

/-! ## Comprehensions -/

/-- `{key(x): value(x) for x in xs}`, with the value allowed to keep something of the one it replaces -/
def build (key : β → κ) (f : β → Option α → α) (xs : List β) : List (κ × α) :=
  xs.foldl (fun d x => upsert d (key x) (f x)) []

theorem build_snoc (key : β → κ) (f : β → Option α → α) (xs : List β) (x : β) :
    build key f (xs ++ [x]) = upsert (build key f xs) (key x) (f x) := by
  simp [build, List.foldl_append]

theorem ok_build (key : β → κ) (f : β → Option α → α) (xs : List β) : Ok (build key f xs) := by
  induction xs using List.reverseRecOn with
  | nil => exact List.nodup_nil
  | append_singleton xs x ih => rw [build_snoc]; exact ok_upsert ih _ _

/-- a value found under a key comes from a member with that key -/
theorem get?_build {key : β → κ} {f : β → Option α → α} {xs : List β} {k : κ} {a : α}
    (h : get? (build key f xs) k = some a) : ∃ x ∈ xs, key x = k ∧ ∃ o, a = f x o := by
  induction xs using List.reverseRecOn with
  | nil => simp [build] at h
  | append_singleton xs x ih =>
    rw [build_snoc, get?_upsert] at h
    split_ifs at h with hk
    · exact ⟨x, by simp, hk, _, (Option.some.inj h).symm⟩
    · obtain ⟨y, hy, hky⟩ := ih h
      exact ⟨y, List.mem_append_left _ hy, hky⟩

/-- no key is lost -/
theorem get?_build_isSome (key : β → κ) (f : β → Option α → α) (xs : List β) (k : κ) :
    (get? (build key f xs) k).isSome ↔ ∃ x ∈ xs, key x = k := by
  induction xs using List.reverseRecOn with
  | nil => simp [build]
  | append_singleton xs x ih =>
    rw [build_snoc, get?_upsert]
    by_cases hk : key x = k
    · simp [hk]
    · rw [if_neg hk, ih]
      simp [hk]

end Dict
