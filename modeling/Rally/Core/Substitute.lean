/-
Replacing what a rule finds in a text, from left to right and without going back (`str.replace`, `re.sub`), over any
alphabet, and what can then be found in the result.

- `Rewrites`: how a result comes about, a character kept or a match replaced at a time. `substitute_rewrites`: the
  function does this.
- `kept`: a word that no replacement is part of stands in the result where it stood in the text.
- `scrub_clean`: a form that is replaced, a word with a run behind it, is gone.
- `run_stands`: behind several rules, a word stands where all of them left it, or one made it and the later ones left it.
-/
import Mathlib.Tactic

namespace Substitute

variable {α : Type}

/-! ## Rules -/

/-- what is put in the place of what is found at a position, and what follows; the first argument is the character before -/
abbrev Rule (α : Type) := Option α → List α → Option (List α × List α)

/-- each match replaced, where `skip` characters of the last one are still ahead -/
def substitute (f : Rule α) (before : Option α) (skip : ℕ) : List α → List α
  | [] => []
  | c :: s =>
    match skip with
    | n + 1 => substitute f (some c) n s
    | 0 =>
      match f before (c :: s) with
      | some (rep, rest) => rep ++ substitute f (some c) (s.length - rest.length) s
      | none => c :: substitute f (some c) 0 s

/-- a rule finds something -/
def Rule.Takes (f : Rule α) : Prop := ∀ b s rep rest, f b s = some (rep, rest) → ∃ m, m ≠ [] ∧ s = m ++ rest

/-- the result of going through a text -/
inductive Rewrites (f : Rule α) : Option α → List α → List α → Prop where
  | nil {b : Option α} : Rewrites f b [] []
  | keep {b : Option α} {c : α} {s t : List α} :
      f b (c :: s) = none → Rewrites f (some c) s t → Rewrites f b (c :: s) (c :: t)
  | cut {b : Option α} {c : α} {m s rep t : List α} :
      f b (c :: (m ++ s)) = some (rep, s) → Rewrites f (some ((c :: m).getLast (by simp))) s t →
        Rewrites f b (c :: (m ++ s)) (rep ++ t)

section Rules

variable {f : Rule α} {b : Option α} {s t w front back rep : List α}

/-- nothing is replaced in the rest of a match -/
theorem substitute_skip (c : α) (m s : List α) :
    substitute f (some c) m.length (m ++ s) = substitute f (some ((c :: m).getLast (by simp))) 0 s := by
  induction m generalizing c with
  | nil => rfl
  | cons d m ih =>
    rw [List.cons_append, List.length_cons, substitute, ih d]
    rfl

theorem substitute_keep {c : α} (h : f b (c :: s) = none) : substitute f b 0 (c :: s) = c :: substitute f (some c) 0 s := by
  rw [substitute, h]

theorem substitute_cut {c : α} {m : List α} (h : f b (c :: (m ++ s)) = some (rep, s)) :
    substitute f b 0 (c :: (m ++ s)) = rep ++ substitute f (some ((c :: m).getLast (by simp))) 0 s := by
  have hskip : (m ++ s).length - s.length = m.length := by simp
  rw [substitute, h]
  simp only [hskip, substitute_skip]

theorem substitute_rewrites (hf : f.Takes) (b : Option α) (s : List α) : Rewrites f b s (substitute f b 0 s) := by
  induction hn : s.length using Nat.strong_induction_on generalizing b s with
  | _ n ih =>
    cases s with
    | nil => exact .nil
    | cons c s =>
      cases hfound : f b (c :: s) with
      | none =>
        rw [substitute_keep hfound]
        exact .keep hfound (ih s.length (by simp [← hn]) _ _ rfl)
      | some x =>
        obtain ⟨rep, rest⟩ := x
        obtain ⟨m, hm, hs⟩ := hf _ _ _ _ hfound
        obtain ⟨d, m, rfl⟩ := List.exists_cons_of_ne_nil hm
        rw [List.cons_append] at hs
        obtain ⟨rfl, rfl⟩ := List.cons.inj hs
        have hlt : rest.length < n := by
          rw [← hn, List.length_cons, List.length_append]
          omega
        rw [substitute_cut hfound]
        exact .cut hfound (ih rest.length hlt _ _ rfl)

/-- where nothing is found, nothing is changed -/
theorem substitute_none (h : ∀ front back, s = front ++ back → back ≠ [] → f (front.getLast?.or b) back = none) :
    substitute f b 0 s = s := by
  induction s generalizing b with
  | nil => rfl
  | cons c s ih =>
    have hhead : f b (c :: s) = none := by simpa using h [] (c :: s) rfl (by simp)
    rw [substitute, hhead]
    refine congrArg (c :: ·) (ih fun front back hs hne => ?_)
    have hrest := h (c :: front) back (by rw [hs]; rfl) hne
    cases front with
    | nil => exact hrest
    | cons d front => simpa [List.getLast?_cons_cons, List.getLast?_eq_some_getLast] using hrest

/-! ## What is found in a result -/

/-- a word that a replacement cannot be part of, nor bring with it -/
def Foreign (w rep : List α) : Prop := (∃ l ∈ rep.head?, l ∉ w) ∧ (∃ r ∈ rep.getLast?, r ∉ w) ∧ ¬ w <:+: rep

instance [DecidableEq α] (w rep : List α) : Decidable (Foreign w rep) := by
  unfold Foreign
  exact instDecidableAnd

/-- no replacement is in the way of the word -/
def Rule.Spares (f : Rule α) (w : List α) : Prop := ∀ b s rep rest, f b s = some (rep, rest) → Foreign w rep

/-- a word at the front of a result stands at the front of the text -/
theorem kept_front (h : Rewrites f b s (w ++ back)) (hw : ∀ b s rep rest, f b s = some (rep, rest) → ∃ l ∈ rep.head?, l ∉ w) :
    ∃ b' back', s = w ++ back' ∧ Rewrites f b' back' back := by
  induction w generalizing b s with
  | nil => exact ⟨b, s, rfl, h⟩
  | cons c w ih =>
    rw [List.cons_append] at h
    generalize ht : c :: (w ++ back) = t at h
    cases h with
    | nil => cases ht
    | keep _ hrest =>
      obtain ⟨rfl, rfl⟩ := List.cons.inj ht
      obtain ⟨b', back', rfl, hback⟩ := ih hrest fun b s rep rest hfound => by
        obtain ⟨l, hl, hno⟩ := hw b s rep rest hfound
        exact ⟨l, hl, fun hin => hno (List.mem_cons_of_mem _ hin)⟩
      exact ⟨b', back', rfl, hback⟩
    | @cut _ _ _ _ rep _ hfound _ =>
      obtain ⟨l, hl, hno⟩ := hw _ _ _ _ hfound
      cases rep with
      | nil => cases hl
      | cons d rep =>
        obtain ⟨rfl, -⟩ := List.cons.inj ht
        obtain rfl : c = l := by simpa using hl
        exact absurd List.mem_cons_self hno

/-- a word at the front of a result was passed by the rule -/
theorem kept_head {d : α} (h : Rewrites f b s (d :: w ++ back)) (hf : f.Spares (d :: w)) :
    ∃ b' back', s = d :: w ++ back' ∧ f b s = none ∧ Rewrites f b' back' back := by
  have hspare : ∀ b s rep rest, f b s = some (rep, rest) → ∃ l ∈ rep.head?, l ∉ d :: w :=
    fun b s rep rest hfound => (hf b s rep rest hfound).1
  obtain ⟨b', back', rfl, hback⟩ := kept_front h hspare
  refine ⟨b', back', rfl, ?_, hback⟩
  cases hfound : f b (d :: w ++ back') with
  | none => rfl
  | some x =>
    -- otherwise the result starts with a replacement
    generalize hs : d :: w ++ back' = s at h
    generalize ht : d :: w ++ back = t at h
    cases h with
    | nil => cases hs
    | keep hnone => rw [hs, hnone] at hfound; cases hfound
    | @cut _ _ _ _ rep _ hcut _ =>
      obtain ⟨l, hl, hno⟩ := hspare _ _ _ _ hcut
      cases rep with
      | nil => cases hl
      | cons e rep =>
        obtain ⟨rfl, -⟩ := List.cons.inj ht
        obtain rfl : d = l := by simpa using hl
        exact absurd List.mem_cons_self hno

theorem getLast?_or_cons (c : α) (front : List α) (b : Option α) :
    (c :: front).getLast?.or b = front.getLast?.or (some c) := by
  cases front with
  | nil => rfl
  | cons x front => simp [List.getLast?_eq_some_getLast]

/-- **Words stay in their place.** A word that the rule spares stands in the result where it stood in the text, not found
there by the rule; the character before it is the one that was there, or a match ends there. -/
theorem kept {d : α} (h : Rewrites f b s (front ++ (d :: w ++ back))) (hf : f.Spares (d :: w)) :
    ∃ b' b'' front' back', s = front' ++ (d :: w ++ back') ∧ f b' (d :: w ++ back') = none ∧ Rewrites f b'' back' back ∧
      (b' = front.getLast?.or b ∨ ∃ b₀ m rep, f b₀ (m ++ (d :: w ++ back')) = some (rep, d :: w ++ back')) := by
  generalize ht : front ++ (d :: w ++ back) = t at h
  induction h generalizing front with
  | nil => simp at ht
  | @keep b c s t hnone hrest ih =>
    cases front with
    | nil =>
      rw [List.nil_append] at ht
      obtain ⟨b'', back', hs, hno, hback⟩ := kept_head (ht ▸ Rewrites.keep hnone hrest) hf
      exact ⟨b, b'', [], back', hs, hs ▸ hno, hback, Or.inl rfl⟩
    | cons e front =>
      rw [List.cons_append] at ht
      obtain ⟨rfl, rfl⟩ := List.cons.inj ht
      obtain ⟨b', b'', front', back', rfl, hno, hback, hseam⟩ := ih rfl
      refine ⟨b', b'', e :: front', back', rfl, hno, hback, hseam.imp (fun hb => ?_) id⟩
      rw [hb, getLast?_or_cons]
  | @cut b c m s rep t hfound hrest ih =>
    obtain ⟨-, ⟨r, hr, hno⟩, hinfix⟩ := hf _ _ _ _ hfound
    -- the word stands behind the replacement
    obtain ⟨a, rfl, rfl⟩ : ∃ a, front = rep ++ a ∧ t = a ++ (d :: w ++ back) := by
      rcases List.append_eq_append_iff.1 ht with ⟨a, rfl, htail⟩ | ⟨a, hfront, hrest⟩
      · cases a with
        | nil => exact ⟨[], by simp, by simpa using htail.symm⟩
        | cons x a =>
          exfalso
          have hin : r ∈ x :: a := by
            rw [List.getLast?_append_of_ne_nil _ (by simp)] at hr
            exact List.mem_of_getLast? hr
          rcases List.append_eq_append_iff.1 htail with ⟨y, hword, -⟩ | ⟨y, hword, -⟩
          · exact hinfix ⟨front, y, by rw [hword]; simp⟩
          · exact hno (by rw [hword]; exact List.mem_append_left _ hin)
      · exact ⟨a, hfront, hrest⟩
    cases a with
    | nil =>
      obtain ⟨b'', back', hs, hpass, hback⟩ := kept_head hrest hf
      subst hs
      exact ⟨_, b'', c :: m, back', rfl, hpass, hback, Or.inr ⟨b, c :: m, rep, hfound⟩⟩
    | cons x a =>
      obtain ⟨b', b'', front', back', rfl, hpass, hback, hseam⟩ := ih rfl
      refine ⟨b', b'', c :: (m ++ front'), back', by simp, hpass, hback, hseam.imp (fun hb => ?_) id⟩
      rw [hb, List.getLast?_append_of_ne_nil _ (by simp), List.getLast?_eq_some_getLast (by simp)]
      rfl

/-- a word that the rule spares stands in a text where it stands in the result -/
theorem infix_of_rewrites {d : α} (h : Rewrites f b s t) (hf : f.Spares (d :: w)) (ht : d :: w <:+: t) : d :: w <:+: s := by
  obtain ⟨front, back, rfl⟩ := ht
  rw [List.append_assoc] at h
  obtain ⟨-, -, front', back', rfl, -⟩ := kept h hf
  exact ⟨front', back', by simp⟩

/-- how the rest of a result starts -/
theorem Rewrites.head {c : α} (h : Rewrites f b s (c :: t)) :
    (∃ s', s = c :: s') ∨ ∃ rep rest, f b s = some (rep, rest) := by
  generalize ht : c :: t = u at h
  cases h with
  | nil => cases ht
  | keep _ _ =>
    obtain ⟨rfl, -⟩ := List.cons.inj ht
    exact Or.inl ⟨_, rfl⟩
  | cut hfound _ => exact Or.inr ⟨_, _, hfound⟩

end Rules

/-! ## Places -/

/-- on its way through a text, the rule has written something; what is ahead, and the character before it -/
inductive Through (f : Rule α) : Option α → List α → List α → Option α → List α → Prop where
  | here {b : Option α} {s : List α} : Through f b s [] b s
  | keep {b b' : Option α} {c : α} {s s' t : List α} :
      f b (c :: s) = none → Through f (some c) s t b' s' → Through f b (c :: s) (c :: t) b' s'
  | cut {b b' : Option α} {c : α} {m s s' rep t : List α} :
      f b (c :: (m ++ s)) = some (rep, s) → Through f (some ((c :: m).getLast (by simp))) s t b' s' →
        Through f b (c :: (m ++ s)) (rep ++ t) b' s'

/-- a word that the rule goes over without a match -/
inductive Passes (f : Rule α) : Option α → List α → List α → Prop where
  | nil {b : Option α} {s : List α} : Passes f b [] s
  | cons {b : Option α} {c : α} {w s : List α} :
      f b (c :: (w ++ s)) = none → Passes f (some c) w s → Passes f b (c :: w) s

/-- what is replaced is not deleted -/
def Rule.Writes (f : Rule α) : Prop := ∀ b s rep rest, f b s = some (rep, rest) → rep ≠ []

/-- in the result of a text, a word between two others stands over what a match was replaced by -/
def Rule.Makes (f : Rule α) (s x w y : List α) : Prop :=
  substitute f none 0 s = x ++ (w ++ y) ∧ ∃ z b s' rep rest, Through f none s z b s' ∧ f b s' = some (rep, rest) ∧
    x.length < z.length + rep.length ∧ z.length < x.length + w.length

/-- a word between two others is left where it stands, between what becomes of them -/
def Rule.Leaves (f : Rule α) (w x y x' y' : List α) : Prop :=
  ∃ b, Through f none (x ++ (w ++ y)) x' b (w ++ y) ∧ Passes f b w y ∧ substitute f (w.getLast?.or b) 0 y = y'

section Places

variable {f : Rule α} {b b' : Option α} {c : α} {s s' t w x y x' y' rep rest : List α}

theorem Through.result (h : Through f b s t b' s') : substitute f b 0 s = t ++ substitute f b' 0 s' := by
  induction h with
  | here => rfl
  | keep hnone _ ih => rw [substitute_keep hnone, ih, List.cons_append]
  | cut hfound _ ih => rw [substitute_cut hfound, ih, List.append_assoc]

theorem Through.ahead (h : Through f b s t b' s') : ∃ front, s = front ++ s' := by
  induction h with
  | here => exact ⟨[], rfl⟩
  | @keep _ _ c _ _ _ _ _ ih =>
    obtain ⟨front, rfl⟩ := ih
    exact ⟨c :: front, rfl⟩
  | @cut _ _ c m _ _ _ _ _ _ ih =>
    obtain ⟨front, rfl⟩ := ih
    exact ⟨c :: (m ++ front), by simp⟩

/-- where nothing is written, nothing is passed -/
theorem Through.nothing (hf : f.Writes) (h : Through f b s [] b' s') : b' = b ∧ s' = s := by
  generalize ht : ([] : List α) = t at h
  cases h with
  | here => exact ⟨rfl, rfl⟩
  | keep _ _ => cases ht
  | cut hfound _ =>
    obtain ⟨hrep, -⟩ := List.append_eq_nil_iff.1 ht.symm
    exact absurd hrep (hf _ _ _ _ hfound)

theorem Passes.result (h : Passes f b w s) : substitute f b 0 (w ++ s) = w ++ substitute f (w.getLast?.or b) 0 s := by
  induction h with
  | nil => rfl
  | cons hnone _ ih => rw [List.cons_append, substitute_keep hnone, ih, getLast?_or_cons, List.cons_append]

theorem Rule.Leaves.result (h : f.Leaves w x y x' y') : substitute f none 0 (x ++ (w ++ y)) = x' ++ (w ++ y') := by
  obtain ⟨b, hthrough, hpasses, hrest⟩ := h
  rw [hthrough.result, hpasses.result, hrest]

theorem Rewrites.result (h : Rewrites f b s t) : substitute f b 0 s = t := by
  induction h with
  | nil => rfl
  | keep hnone _ ih => rw [substitute_keep hnone, ih]
  | cut hfound _ ih => rw [substitute_cut hfound, ih]

/-- a word of a result stands over what a match was replaced by, or it was passed -/
theorem placed (hf : f.Writes) (h : Rewrites f b s (x ++ (w ++ y))) (hw : w ≠ []) :
    (∃ z b' s' rep rest, Through f b s z b' s' ∧ f b' s' = some (rep, rest) ∧
      x.length < z.length + rep.length ∧ z.length < x.length + w.length) ∨
    ∃ b' y', Through f b s x b' (w ++ y') ∧ Passes f b' w y' ∧ substitute f (w.getLast?.or b') 0 y' = y := by
  generalize ht : x ++ (w ++ y) = t at h
  induction h generalizing x w with
  | nil => exact absurd (List.append_eq_nil_iff.1 (List.append_eq_nil_iff.1 ht).2).1 hw
  | @keep b c s t hnone hrest ih =>
    cases x with
    | nil =>
      obtain ⟨d, w, rfl⟩ := List.exists_cons_of_ne_nil hw
      obtain ⟨rfl, rfl⟩ := List.cons.inj ht
      by_cases hlast : w = []
      · subst hlast
        exact Or.inr ⟨b, s, .here, .cons hnone .nil, hrest.result⟩
      · rcases @ih w [] hlast rfl with ⟨z, b', s', rep, rest, hthrough, hfound, hlt, hlt'⟩ | ⟨b', y', hthrough, hpasses, hy⟩
        · refine Or.inl ⟨d :: z, b', s', rep, rest, .keep hnone hthrough, hfound, ?_, ?_⟩
          · simp only [List.length_nil, List.length_cons] at hlt ⊢
            omega
          · simp only [List.length_nil, List.length_cons] at hlt' ⊢
            omega
        · obtain ⟨rfl, rfl⟩ := hthrough.nothing hf
          refine Or.inr ⟨b, y', .here, .cons hnone hpasses, ?_⟩
          rwa [getLast?_or_cons]
    | cons e x =>
      obtain ⟨rfl, htail⟩ := List.cons.inj ht
      rcases ih hw htail with ⟨z, b', s', rep, rest, hthrough, hfound, hlt, hlt'⟩ | ⟨b', y', hthrough, hpasses, hy⟩
      · refine Or.inl ⟨e :: z, b', s', rep, rest, .keep hnone hthrough, hfound, ?_, ?_⟩
        · simp only [List.length_cons]
          omega
        · simp only [List.length_cons]
          omega
      · exact Or.inr ⟨b', y', .keep hnone hthrough, hpasses, hy⟩
  | @cut b c m s rep t hfound hrest ih =>
    by_cases hover : x.length < rep.length
    · have hpos : 0 < w.length := List.length_pos_of_ne_nil hw
      exact Or.inl ⟨[], b, _, rep, s, .here, hfound, by simpa using hover, by simpa using Nat.add_pos_right _ hpos⟩
    · obtain ⟨x', rfl, rfl⟩ : ∃ x', x = rep ++ x' ∧ t = x' ++ (w ++ y) := by
        rcases List.append_eq_append_iff.1 ht with ⟨a, rfl, htail⟩ | ⟨a, hx, htail⟩
        · obtain rfl : a = [] := by
            rw [← List.length_eq_zero_iff]
            rw [List.length_append] at hover
            omega
          exact ⟨[], by simp, htail.symm⟩
        · exact ⟨a, hx, htail⟩
      rcases ih hw rfl with ⟨z, b', s', rep', rest, hthrough, hfound', hlt, hlt'⟩ | ⟨b', y', hthrough, hpasses, hy⟩
      · refine Or.inl ⟨rep ++ z, b', s', rep', rest, .cut hfound hthrough, hfound', ?_, ?_⟩
        · simp only [List.length_append]
          omega
        · simp only [List.length_append]
          omega
      · exact Or.inr ⟨b', y', .cut hfound hthrough, hpasses, hy⟩

/-- **Words of a result.** A word stands in a result over what a match was replaced by, or was left where it stood. -/
theorem makes_or_leaves (htakes : f.Takes) (hwrites : f.Writes) (hw : w ≠ []) :
    substitute f none 0 s = x ++ (w ++ y) ↔ f.Makes s x w y ∨ ∃ x₀ y₀, s = x₀ ++ (w ++ y₀) ∧ f.Leaves w x₀ y₀ x y := by
  constructor
  · intro h
    rcases placed hwrites (h ▸ substitute_rewrites htakes none s) hw with hmade | ⟨b, y₀, hthrough, hpasses, hrest⟩
    · exact Or.inl ⟨h, hmade⟩
    · obtain ⟨x₀, rfl⟩ := hthrough.ahead
      exact Or.inr ⟨x₀, y₀, rfl, b, hthrough, hpasses, hrest⟩
  · rintro (h | ⟨x₀, y₀, rfl, h⟩)
    · exact h.1
    · exact h.result

/-- a word and a replacement that is foreign to it stand apart -/
theorem foreign_apart {z : List α} (hforeign : Foreign w rep) (h : x ++ (w ++ y) = z ++ (rep ++ t)) :
    x.length + w.length ≤ z.length ∨ z.length + rep.length ≤ x.length := by
  obtain ⟨⟨l, hl, hfirst⟩, ⟨r, hr, hlast⟩, hinside⟩ := hforeign
  rcases List.append_eq_append_iff.1 h with ⟨a, rfl, hrest⟩ | ⟨a, rfl, hrest⟩
  · rcases List.append_eq_append_iff.1 hrest with ⟨a', rfl, -⟩ | ⟨a', rfl, hmore⟩
    · left
      simp only [List.length_append]
      omega
    · cases a' with
      | nil => exact Or.inl (by simp)
      | cons d a' =>
        -- the replacement begins within the word
        cases rep with
        | nil => cases hl
        | cons e rep =>
          obtain rfl : e = l := Option.some.inj hl
          obtain ⟨rfl, -⟩ := List.cons.inj hmore
          exact absurd (by simp) hfirst
  · rcases List.append_eq_append_iff.1 hrest with ⟨a', rfl, -⟩ | ⟨a', rfl, hmore⟩
    · right
      simp only [List.length_append]
      omega
    · by_cases hnil : a' = []
      · subst hnil
        exact Or.inr (by simp)
      · -- it ends within the word, or behind it
        rw [List.getLast?_append_of_ne_nil _ hnil] at hr
        rcases List.append_eq_append_iff.1 hmore with ⟨c, rfl, -⟩ | ⟨c, rfl, -⟩
        · exact absurd ⟨a, c, by simp⟩ hinside
        · exact absurd (List.mem_append_left _ (List.mem_of_getLast? hr)) hlast

/-- a word is not made of replacements that are foreign to it -/
theorem Rule.Makes.not_spares (htakes : f.Takes) (h : f.Makes s x w y) : ¬ f.Spares w := by
  obtain ⟨hresult, z, b, s', rep, rest, hthrough, hfound, hlt, hlt'⟩ := h
  obtain ⟨m, hm, rfl⟩ := htakes _ _ _ _ hfound
  obtain ⟨c, m, rfl⟩ := List.exists_cons_of_ne_nil hm
  rw [hthrough.result, List.cons_append, substitute_cut hfound] at hresult
  intro hspares
  rcases foreign_apart (hspares _ _ _ _ hfound) hresult.symm with hapart | hapart
  · omega
  · omega

/-! ## One rule after another -/

/-- the result of rules that are followed in order -/
def run (rules : List (Rule α)) (s : List α) : List α := rules.foldl (fun s f => substitute f none 0 s) s

theorem run_append (rules rules' : List (Rule α)) (s : List α) : run (rules ++ rules') s = run rules' (run rules s) :=
  List.foldl_append

/-- all the rules leave a word where it stands -/
inductive Stays (w : List α) : List (Rule α) → List α → List α → List α → List α → Prop where
  | nil {x y : List α} : Stays w [] x y x y
  | cons {f : Rule α} {rules : List (Rule α)} {x y x₁ y₁ x' y' : List α} :
      f.Leaves w x y x₁ y₁ → Stays w rules x₁ y₁ x' y' → Stays w (f :: rules) x y x' y'

theorem Stays.result {rules : List (Rule α)} (h : Stays w rules x y x' y') : run rules (x ++ (w ++ y)) = x' ++ (w ++ y') := by
  induction h with
  | nil => rfl
  | cons hleaves _ ih => rw [run, List.foldl_cons, hleaves.result, ← run, ih]

/-- **Words of a last result.** A word stands there because it stood in the text and all rules left it, or because one of them
made it and those behind it left it. -/
theorem run_stands {rules : List (Rule α)} (hrules : ∀ f ∈ rules, f.Takes ∧ f.Writes) (hw : w ≠ []) :
    run rules s = x ++ (w ++ y) ↔ (∃ x₀ y₀, s = x₀ ++ (w ++ y₀) ∧ Stays w rules x₀ y₀ x y) ∨
      ∃ before f after x₁ y₁, rules = before ++ f :: after ∧ f.Makes (run before s) x₁ w y₁ ∧ Stays w after x₁ y₁ x y := by
  constructor
  · intro h
    induction rules generalizing s with
    | nil => exact Or.inl ⟨x, y, h, .nil⟩
    | cons f rules ih =>
      obtain ⟨htakes, hwrites⟩ := hrules f List.mem_cons_self
      rcases ih (fun f' hf' => hrules f' (List.mem_cons_of_mem _ hf')) h with ⟨x₁, y₁, hmid, hstays⟩ | hmade
      · rcases (makes_or_leaves htakes hwrites hw).1 hmid with hmakes | ⟨x₀, y₀, rfl, hleaves⟩
        · exact Or.inr ⟨[], f, rules, x₁, y₁, rfl, hmakes, hstays⟩
        · exact Or.inl ⟨x₀, y₀, rfl, .cons hleaves hstays⟩
      · obtain ⟨before, g, after, x₁, y₁, rfl, hmakes, hstays⟩ := hmade
        exact Or.inr ⟨f :: before, g, after, x₁, y₁, rfl, hmakes, hstays⟩
  · rintro (⟨x₀, y₀, rfl, hstays⟩ | ⟨before, f, after, x₁, y₁, rfl, hmakes, hstays⟩)
    · exact hstays.result
    · rw [run_append, run, List.foldl_cons, hmakes.1, ← run, hstays.result]

end Places

/-! ## Words -/

section Words

variable [DecidableEq α] {b : Option α} {s t w rep : List α}

/-- `str.replace` -/
def replaceRule (w rep : List α) : Rule α := fun _ s => (s.dropPrefix? w).map fun rest => (rep, rest)

theorem dropPrefix_iff : s.dropPrefix? w = some t ↔ s = w ++ t := by
  rw [List.dropPrefix?_eq_some_iff]
  constructor
  · rintro ⟨w', rfl, hw⟩
    rw [eq_of_beq hw]
  · rintro rfl
    exact ⟨w, rfl, beq_self_eq_true w⟩

theorem dropPrefix_append (w t : List α) : (w ++ t).dropPrefix? w = some t := dropPrefix_iff.2 rfl

theorem replaceRule_takes (hw : w ≠ []) : (replaceRule w rep).Takes := by
  intro b s rep' rest h
  obtain ⟨t, ht, heq⟩ := Option.map_eq_some_iff.1 h
  obtain ⟨-, rfl⟩ := Prod.mk.inj heq
  exact ⟨w, hw, dropPrefix_iff.1 ht⟩

theorem replaceRule_spares {v : List α} (hv : Foreign v rep) : (replaceRule w rep).Spares v := by
  intro b s rep' rest h
  obtain ⟨t, -, heq⟩ := Option.map_eq_some_iff.1 h
  obtain ⟨rfl, -⟩ := Prod.mk.inj heq
  exact hv

/-- a word that is not there is not replaced -/
theorem replaceAll_none (h : ¬ w <:+: s) (b : Option α) : substitute (replaceRule w rep) b 0 s = s := by
  refine substitute_none fun front back hs _ => ?_
  rw [replaceRule, Option.map_eq_none_iff]
  by_contra hsome
  obtain ⟨t, ht⟩ := Option.ne_none_iff_exists'.1 hsome
  exact h ⟨front, t, by rw [hs, dropPrefix_iff.1 ht]; simp⟩

/-- a word that no replacement is part of is not brought in -/
theorem replaceAll_infix {v : List α} (hw : w ≠ []) (hv : v ≠ []) (hrep : Foreign v rep)
    (h : v <:+: substitute (replaceRule w rep) b 0 s) : v <:+: s := by
  obtain ⟨d, v, rfl⟩ := List.exists_cons_of_ne_nil hv
  exact infix_of_rewrites (substitute_rewrites (replaceRule_takes hw) b s) (replaceRule_spares hrep) h

end Words

/-! ## Forms -/

/-- one of some words, not behind certain characters, with a run behind it that goes on to a character that stops it -/
structure Form (α : Type) where
  words : List (List α)
  stop : α → Bool
  blocks : α → Bool

section Forms

variable [DecidableEq α] {F G : Form α} {b : Option α} {s t w front back rep : List α}

/-- what follows a run of at least one character -/
def afterRun (stop : α → Bool) : List α → Option (List α)
  | [] => none
  | c :: s => if stop c then none else some (s.dropWhile fun c => !stop c)

/-- the form of a position is replaced -/
def Form.rule (F : Form α) (rep : List α) : Rule α := fun b s =>
  if (b.map F.blocks).getD false then none
  else (F.words.findSome? fun w => (s.dropPrefix? w).bind (afterRun F.stop)).map fun rest => (rep, rest)

/-- the form stands somewhere in a text -/
def Form.Shows (F : Form α) (b : Option α) (s : List α) : Prop :=
  ∃ front w c back, s = front ++ (w ++ c :: back) ∧ w ∈ F.words ∧ F.stop c = false ∧
    ((front.getLast?.or b).map F.blocks).getD false = false

/-- its words start as a run goes on, and no replacement is part of them -/
def Form.Sound (F : Form α) (rep : List α) : Prop :=
  ∀ w ∈ F.words, (∃ c ∈ w.head?, F.stop c = false) ∧ Foreign w rep

instance (F : Form α) (rep : List α) : Decidable (F.Sound rep) := by
  unfold Form.Sound
  infer_instance

omit [DecidableEq α] in
theorem afterRun_some {stop : α → Bool} (h : afterRun stop s = some t) :
    ∃ c m, s = c :: (m ++ t) ∧ stop c = false ∧ ∀ c ∈ t.head?, stop c = true := by
  cases s with
  | nil => cases h
  | cons c s =>
    rw [afterRun] at h
    split_ifs at h with hc
    obtain rfl := Option.some.inj h
    refine ⟨c, s.takeWhile fun c => !stop c, ?_, by simpa using hc, fun d hd => ?_⟩
    · rw [List.takeWhile_append_dropWhile]
    · have hnot := List.head?_dropWhile_not (fun c => !stop c) s
      rw [Option.mem_def.1 hd] at hnot
      simpa using hnot

theorem rule_some {rep' : List α} (h : F.rule rep b s = some (rep', t)) :
    rep' = rep ∧ ∃ w ∈ F.words, ∃ c m, s = w ++ c :: (m ++ t) ∧ F.stop c = false ∧
      ∀ c ∈ t.head?, F.stop c = true := by
  rw [Form.rule] at h
  split_ifs at h
  obtain ⟨rest, hrest, heq⟩ := Option.map_eq_some_iff.1 h
  obtain ⟨rfl, rfl⟩ := Prod.mk.inj heq
  obtain ⟨w, hw, hfound⟩ := List.exists_of_findSome?_eq_some hrest
  obtain ⟨s', hs', hrun⟩ := Option.bind_eq_some_iff.1 hfound
  obtain ⟨c, m, rfl, hc, ht⟩ := afterRun_some hrun
  exact ⟨rfl, w, hw, c, m, dropPrefix_iff.1 hs', hc, ht⟩

theorem rule_takes : (F.rule rep).Takes := by
  intro b s rep' rest h
  obtain ⟨-, w, -, c, m, rfl, -⟩ := rule_some h
  exact ⟨w ++ c :: m, by simp, by simp⟩

theorem rule_spares {v : List α} (hv : Foreign v rep) : (F.rule rep).Spares v := by
  intro b s rep' rest h
  obtain ⟨rfl, -⟩ := rule_some h
  exact hv

/-- the rule passes no form -/
theorem rule_found {c : α} (hw : w ∈ F.words) (hc : F.stop c = false) (hb : (b.map F.blocks).getD false = false) :
    F.rule rep b (w ++ c :: back) ≠ none := by
  rw [Form.rule, hb]
  simp only [Bool.false_eq_true, if_false, ne_eq, Option.map_eq_none_iff, List.findSome?_eq_none_iff, not_forall]
  exact ⟨w, hw, by simp [dropPrefix_append, afterRun, hc]⟩

/-- the run of a match goes on as far as it can -/
theorem rule_greedy {rep' : List α} (h : F.rule rep b s = some (rep', t)) : ∀ c ∈ t.head?, F.stop c = true := by
  obtain ⟨-, -, -, -, -, -, -, ht⟩ := rule_some h
  exact ht

/-- **Forms are gone.** -/
theorem scrub_clean (hF : F.Sound rep) (b : Option α) (s : List α) : ¬ F.Shows b (substitute (F.rule rep) b 0 s) := by
  rintro ⟨front, w, c, back, hout, hw, hc, hbefore⟩
  obtain ⟨⟨d, hd, hgo⟩, hforeign⟩ := hF w hw
  obtain ⟨w, rfl⟩ : ∃ w', w = d :: w' := by
    cases w with
    | nil => cases hd
    | cons e w => exact ⟨w, by rw [Option.some.inj hd]⟩
  have hrewrites := substitute_rewrites (@rule_takes _ _ F rep) b s
  rw [hout] at hrewrites
  obtain ⟨b', b'', front', back', rfl, hpass, hback, hseam⟩ := kept hrewrites (rule_spares hforeign)
  rcases hseam with rfl | ⟨b₀, m, rep', hfound⟩
  · -- what follows the word in the result goes on with the run, or starts another match, which does so too
    rcases hback.head with ⟨s', rfl⟩ | ⟨rep', rest, hfound⟩
    · exact rule_found hw hc hbefore hpass
    · obtain ⟨-, v, hv, e, m, rfl, -⟩ := rule_some hfound
      obtain ⟨x, hx, hgo'⟩ := (hF v hv).1
      cases v with
      | nil => cases hx
      | cons y v =>
        obtain rfl : y = x := Option.some.inj hx
        exact rule_found hw hgo' hbefore hpass
  · have hstop := rule_greedy hfound d (by simp)
    rw [hgo] at hstop
    cases hstop

omit [DecidableEq α] in
/-- a form that can stand behind any character is not brought in -/
theorem shows_of_rewrites {f : Rule α} (hblocks : ∀ c, G.blocks c = false)
    (hG : ∀ w ∈ G.words, w ≠ [] ∧ f.Spares w)
    (hgo : ∀ b s rep rest, f b s = some (rep, rest) → ∃ c ∈ s.head?, G.stop c = false)
    (h : Rewrites f b s t) (ht : G.Shows b t) : G.Shows b s := by
  obtain ⟨front, w, c, back, rfl, hw, hc, -⟩ := ht
  obtain ⟨hne, hspares⟩ := hG w hw
  obtain ⟨d, w, rfl⟩ := List.exists_cons_of_ne_nil hne
  obtain ⟨b', b'', front', back', rfl, -, hback, -⟩ := kept h hspares
  have hfree : ∀ x : Option α, (x.map G.blocks).getD false = false := by
    intro x
    cases x with
    | none => rfl
    | some c => exact hblocks c
  rcases hback.head with ⟨s', rfl⟩ | ⟨rep, rest, hfound⟩
  · exact ⟨front', _, c, s', rfl, hw, hc, hfree _⟩
  · obtain ⟨x, hx, hgo⟩ := hgo _ _ _ _ hfound
    cases back' with
    | nil => cases hx
    | cons y s' =>
      obtain rfl : y = x := Option.some.inj hx
      exact ⟨front', _, y, s', rfl, hw, hgo, hfree _⟩

/-- a text without the form is left as it is -/
theorem scrub_none (h : ¬ F.Shows b s) : substitute (F.rule rep) b 0 s = s := by
  refine substitute_none fun front back hs _ => ?_
  cases hfound : F.rule rep (front.getLast?.or b) back with
  | none => rfl
  | some x =>
    obtain ⟨rep', rest⟩ := x
    obtain ⟨-, w, hw, c, m, rfl, hc, -⟩ := rule_some hfound
    refine absurd ⟨front, w, c, _, hs, hw, hc, ?_⟩ h
    rw [Form.rule] at hfound
    split_ifs at hfound with hb
    simpa using hb

omit [DecidableEq α] in
/-- a form of a part is a form of the text -/
theorem Form.Shows.append (h : F.Shows b s) (back : List α) : F.Shows b (s ++ back) := by
  obtain ⟨front, w, c, back', rfl, hw, hc, hb⟩ := h
  exact ⟨front, w, c, back' ++ back, by simp, hw, hc, hb⟩

end Forms

end Substitute
