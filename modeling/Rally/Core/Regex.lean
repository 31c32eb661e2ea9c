/-
Regular expressions over any alphabet, with assertions about what stands around a position, and the backtracking matcher
for them. A position in a text is what is behind it, the last character first, and what is ahead.

- `Matches`: what a pattern matches, between what is before it and what is after it.
- `run`: all ends of a match that starts at a position, in the order in which they are tried. `run_iff`: these are the
  matches.
- `search`: the pattern matches somewhere. `search_iff`: which it does.
-/
import Mathlib.Tactic

inductive Regex (α : Type) where
  | empty
  | char (p : α → Bool)
  /-- nothing is matched, but this is so of what is before and of what is after -/
  | test (f : List α → List α → Bool)
  | seq (r r' : Regex α)
  | alt (r r' : Regex α)
  /-- as often as possible -/
  | star (r : Regex α)

namespace Regex

variable {α : Type}

/-! ## Patterns -/

/-- a text, one character for each condition -/
def word (ps : List (α → Bool)) : Regex α := ps.foldr (fun p r => .seq (.char p) r) .empty

def opt (r : Regex α) : Regex α := .alt r .empty

def anyOf (rs : List (Regex α)) : Regex α := rs.foldr .alt (.test fun _ _ => false)

def all (rs : List (Regex α)) : Regex α := rs.foldr .seq .empty

def times (n : ℕ) (r : Regex α) : Regex α := all (List.replicate n r)

def atLeast (n : ℕ) (r : Regex α) : Regex α := .seq (times n r) (.star r)

/-! ## Matches -/

/-- the pattern matches a text between what is before it, the last character first, and what is after it -/
inductive Matches : Regex α → List α → List α → List α → Prop where
  | empty {b a : List α} : Matches .empty b [] a
  | char {p : α → Bool} {c : α} {b a : List α} : p c = true → Matches (.char p) b [c] a
  | test {f : List α → List α → Bool} {b a : List α} : f b a = true → Matches (.test f) b [] a
  | seq {r r' : Regex α} {b m m' a : List α} :
      Matches r b m (m' ++ a) → Matches r' (m.reverse ++ b) m' a → Matches (.seq r r') b (m ++ m') a
  | left {r r' : Regex α} {b m a : List α} : Matches r b m a → Matches (.alt r r') b m a
  | right {r r' : Regex α} {b m a : List α} : Matches r' b m a → Matches (.alt r r') b m a
  | stop {r : Regex α} {b a : List α} : Matches (.star r) b [] a
  | more {r : Regex α} {b m m' a : List α} :
      m ≠ [] → Matches r b m (m' ++ a) → Matches (.star r) (m.reverse ++ b) m' a → Matches (.star r) b (m ++ m') a

/-- the pattern matches somewhere in the text -/
def Occurs (r : Regex α) (s : List α) : Prop := ∃ front m back, s = front ++ (m ++ back) ∧ Matches r front.reverse m back

/-! ## The matcher -/

/-- one after the other, at most so often, each further on than the last -/
def iterate (f : List α → List α → List (List α × List α)) : ℕ → List α → List α → List (List α × List α)
  | 0, b, s => [(b, s)]
  | n + 1, b, s =>
    (((f b s).filter fun x => x.2.length < s.length).flatMap fun x => iterate f n x.1 x.2) ++ [(b, s)]

/-- the ends of the matches from a position on -/
def run : Regex α → List α → List α → List (List α × List α)
  | .empty, b, s => [(b, s)]
  | .char p, b, s =>
    match s with
    | [] => []
    | c :: s => if p c then [(c :: b, s)] else []
  | .test f, b, s => if f b s then [(b, s)] else []
  | .seq r r', b, s => (run r b s).flatMap fun x => run r' x.1 x.2
  | .alt r r', b, s => run r b s ++ run r' b s
  | .star r, b, s => iterate (run r) s.length b s

/-- the end of a match -/
def End (r : Regex α) (b s : List α) (x : List α × List α) : Prop :=
  ∃ m, s = m ++ x.2 ∧ x.1 = m.reverse ++ b ∧ Matches r b m x.2

theorem iterate_iff {r : Regex α} (hr : ∀ b s x, x ∈ run r b s ↔ End r b s x) {n : ℕ} {b s : List α}
    {x : List α × List α} (hn : s.length ≤ n) : x ∈ iterate (run r) n b s ↔ End (.star r) b s x := by
  induction n generalizing b s with
  | zero =>
    obtain rfl : s = [] := List.eq_nil_of_length_eq_zero (by omega)
    simp only [iterate, List.mem_singleton]
    constructor
    · rintro rfl
      exact ⟨[], rfl, rfl, .stop⟩
    · rintro ⟨m, hm, hx, -⟩
      obtain ⟨rfl, hrest⟩ := List.append_eq_nil_iff.1 hm.symm
      exact Prod.ext hx hrest
  | succ n ih =>
    simp only [iterate, List.mem_append, List.mem_flatMap, List.mem_filter, List.mem_singleton, decide_eq_true_eq]
    constructor
    · rintro (⟨y, ⟨hy, hlt⟩, hx⟩ | rfl)
      · obtain ⟨m, rfl, hbefore, hm⟩ := (hr b _ y).1 hy
        obtain ⟨m', hrest, hbefore', hm'⟩ := (ih (by omega)).1 hx
        rw [hrest] at hm hlt
        rw [hbefore] at hbefore' hm'
        refine ⟨m ++ m', by rw [hrest, List.append_assoc], by simp [hbefore'], .more ?_ hm hm'⟩
        rintro rfl
        simp at hlt
      · exact ⟨[], rfl, rfl, .stop⟩
    · rintro ⟨m, rfl, hx, hm⟩
      generalize hstar : Regex.star r = q at hm
      cases hm with
      | stop => exact Or.inr (Prod.ext hx rfl)
      | @more _ _ m m' _ hne hm hm' =>
        cases hstar
        have hpos := List.length_pos_iff.2 hne
        simp only [List.append_assoc, List.length_append] at hn
        refine Or.inl ⟨(m.reverse ++ b, m' ++ x.2), ⟨(hr _ _ _).2 ⟨m, by simp, rfl, hm⟩, by simp; omega⟩, ?_⟩
        exact (ih (by simp; omega)).2 ⟨m', rfl, by simp [hx], hm'⟩
      | _ => cases hstar

/-- **The matcher finds the matches.** -/
theorem run_iff (r : Regex α) (b s : List α) (x : List α × List α) : x ∈ run r b s ↔ End r b s x := by
  induction r generalizing b s x with
  | empty =>
    simp only [run, List.mem_singleton]
    constructor
    · rintro rfl
      exact ⟨[], rfl, rfl, .empty⟩
    · rintro ⟨m, rfl, hx, hm⟩
      cases hm
      exact Prod.ext hx rfl
  | char p =>
    constructor
    · intro h
      cases s with
      | nil => simp [run] at h
      | cons c s =>
        simp only [run] at h
        split_ifs at h with hp
        · rw [List.mem_singleton] at h
          subst h
          exact ⟨[c], rfl, rfl, .char hp⟩
        · cases h
    · rintro ⟨m, rfl, hx, hm⟩
      cases hm with
      | char hp => simp [run, hp, Prod.ext_iff, hx]
  | test f =>
    simp only [run]
    constructor
    · intro h
      split_ifs at h with hf
      · rw [List.mem_singleton] at h
        subst h
        exact ⟨[], rfl, rfl, .test hf⟩
      · cases h
    · rintro ⟨m, rfl, hx, hm⟩
      cases hm with
      | test hf => simp [hf, Prod.ext_iff, hx]
  | seq r r' ih ih' =>
    simp only [run, List.mem_flatMap]
    constructor
    · rintro ⟨y, hy, hx⟩
      obtain ⟨m, rfl, hbefore, hm⟩ := (ih _ _ _).1 hy
      obtain ⟨m', hrest, hbefore', hm'⟩ := (ih' _ _ _).1 hx
      rw [hrest] at hm
      rw [hbefore] at hbefore' hm'
      exact ⟨m ++ m', by rw [hrest, List.append_assoc], by simp [hbefore'], .seq hm hm'⟩
    · rintro ⟨m, rfl, hx, hm⟩
      cases hm with
      | @seq _ _ _ m m' _ hm hm' =>
        refine ⟨(m.reverse ++ b, m' ++ x.2), (ih _ _ _).2 ⟨m, by simp, rfl, hm⟩, (ih' _ _ _).2 ⟨m', rfl, by simp [hx], hm'⟩⟩
  | alt r r' ih ih' =>
    simp only [run, List.mem_append, ih, ih']
    constructor
    · rintro (⟨m, hs, hx, hm⟩ | ⟨m, hs, hx, hm⟩)
      · exact ⟨m, hs, hx, .left hm⟩
      · exact ⟨m, hs, hx, .right hm⟩
    · rintro ⟨m, hs, hx, hm⟩
      cases hm with
      | left hm => exact Or.inl ⟨m, hs, hx, hm⟩
      | right hm => exact Or.inr ⟨m, hs, hx, hm⟩
  | star r ih => exact iterate_iff ih le_rfl

/-- the pattern matches from some position on -/
def found (r : Regex α) (b : List α) : List α → Bool
  | [] => !(run r b []).isEmpty
  | c :: s => !(run r b (c :: s)).isEmpty || found r (c :: b) s

/-- `re.search` -/
def search (r : Regex α) (s : List α) : Bool := found r [] s

theorem run_isEmpty (r : Regex α) (b s : List α) :
    (!(run r b s).isEmpty) = true ↔ ∃ m back, s = m ++ back ∧ Matches r b m back := by
  rw [Bool.not_eq_true', List.isEmpty_eq_false_iff_exists_mem]
  constructor
  · rintro ⟨x, hx⟩
    obtain ⟨m, hs, -, hm⟩ := (run_iff r b s x).1 hx
    exact ⟨m, x.2, hs, hm⟩
  · rintro ⟨m, back, hs, hm⟩
    exact ⟨(m.reverse ++ b, back), (run_iff r b s _).2 ⟨m, hs, rfl, hm⟩⟩

theorem found_iff (r : Regex α) (b s : List α) :
    found r b s = true ↔ ∃ front m back, s = front ++ (m ++ back) ∧ Matches r (front.reverse ++ b) m back := by
  induction s generalizing b with
  | nil =>
    rw [found, run_isEmpty]
    constructor
    · rintro ⟨m, back, hs, hm⟩
      exact ⟨[], m, back, hs, hm⟩
    · rintro ⟨front, m, back, hs, hm⟩
      obtain ⟨rfl, hs'⟩ := List.append_eq_nil_iff.1 hs.symm
      exact ⟨m, back, hs'.symm, hm⟩
  | cons c s ih =>
    rw [found, Bool.or_eq_true, run_isEmpty, ih]
    constructor
    · rintro (⟨m, back, hs, hm⟩ | ⟨front, m, back, rfl, hm⟩)
      · exact ⟨[], m, back, hs, hm⟩
      · exact ⟨c :: front, m, back, rfl, by simpa using hm⟩
    · rintro ⟨front, m, back, hs, hm⟩
      cases front with
      | nil => exact Or.inl ⟨m, back, hs, hm⟩
      | cons d front =>
        obtain ⟨rfl, rfl⟩ := List.cons.inj hs
        exact Or.inr ⟨front, m, back, rfl, by simpa using hm⟩

/-- **A search finds what occurs.** -/
theorem search_iff {r : Regex α} {s : List α} : search r s = true ↔ Occurs r s := by
  rw [search, found_iff]
  simp only [Occurs, List.append_nil]

end Regex
