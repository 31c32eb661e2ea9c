/-
Exchanging what stands inside a comment or a quoted string of an `Authentication-Results` value, and what the two scans of
`src/ingress.py` make of it.

- `Balanced`: a text whose quoted strings are closed. `outside_iff`: this is `Outside`.
- `uncomment_append`, `comment_swap`: a comment leaves no trace, whatever is in it.
- `Uncommented.at_quote`: a quoted string that is left once the comments are gone stands in the value.
- `cut_at_quote`, `Sections.at_quote`: it stands in one section, and exchanging its text changes that section there.
-/
import Mathlib.Logic.Relation
import Rally.Ingress.Evidence

namespace Rally.Ingress

open Py

/-- a quoted string -/
def inQuotes (b : List Char) : List Char := '"' :: (b ++ ['"'])

/-! ## Closed quoted strings -/

/-- a text whose quoted strings are closed -/
inductive Balanced : List Char → Prop where
  | nil : Balanced []
  | char {c : Char} {s : List Char} : c ≠ '"' → Balanced s → Balanced (c :: s)
  | quoted {b s : List Char} : QuotedBody b → Balanced s → Balanced (inQuotes b ++ s)

section Balanced

variable {a b b' p q s t x y z : List Char} {us l l' : List (List Char)}

theorem foldl_quoted (hb : QuotedBody b) : b.foldl quoting (true, false) = (true, false) := by
  induction hb with
  | nil => rfl
  | @char c s hq he _ ih => simpa [quoting, hq, he] using ih
  | escape c _ ih => simpa [quoting] using ih

theorem foldl_inQuotes (hb : QuotedBody b) (s : List Char) :
    (inQuotes b ++ s).foldl quoting (false, false) = s.foldl quoting (false, false) := by
  simp [inQuotes, List.foldl_append, quoting, foldl_quoted hb]

/-- a scan that ends outside closes the quoted string it is in -/
theorem quoted_of_foldl (n : ℕ) : ∀ {s : List Char}, s.length ≤ n → (s.foldl quoting (true, false)).1 = false →
    ∃ b r, QuotedBody b ∧ s = b ++ '"' :: r ∧ (r.foldl quoting (false, false)).1 = false := by
  induction n with
  | zero =>
    intro s hn h
    rw [List.length_eq_zero_iff.1 (Nat.le_zero.1 hn)] at h
    cases h
  | succ n ih =>
    intro s hn h
    cases s with
    | nil => cases h
    | cons c s =>
      have hs : s.length ≤ n := by simpa using hn
      by_cases he : c = '\\'
      · subst he
        cases s with
        | nil => cases h
        | cons e s =>
          have h' : (s.foldl quoting (true, false)).1 = false := by simpa [quoting] using h
          obtain ⟨b, r, hb, rfl, hr⟩ := ih (by simp at hs; omega) h'
          exact ⟨_, r, hb.escape e, rfl, hr⟩
      · by_cases hq : c = '"'
        · subst hq
          exact ⟨[], s, .nil, rfl, by simpa [quoting] using h⟩
        · have h' : (s.foldl quoting (true, false)).1 = false := by simpa [quoting, he, hq] using h
          obtain ⟨b, r, hb, rfl, hr⟩ := ih hs h'
          exact ⟨_, r, hb.char hq he, rfl, hr⟩

theorem balanced_of_outside (n : ℕ) : ∀ {s : List Char}, s.length ≤ n → Outside s → Balanced s := by
  induction n with
  | zero =>
    intro s hn _
    rw [List.length_eq_zero_iff.1 (Nat.le_zero.1 hn)]
    exact .nil
  | succ n ih =>
    intro s hn h
    cases s with
    | nil => exact .nil
    | cons c s =>
      have hs : s.length ≤ n := by simpa using hn
      by_cases hq : c = '"'
      · subst hq
        have h' : (s.foldl quoting (true, false)).1 = false := by simpa [Outside, quoting] using h
        obtain ⟨b, r, hb, rfl, hr⟩ := quoted_of_foldl s.length le_rfl h'
        have hbal := Balanced.quoted hb (ih (by simp at hs; omega) hr)
        simpa [inQuotes] using hbal
      · refine .char hq (ih hs ?_)
        simpa [Outside, quoting, hq] using h

theorem Balanced.outside (h : Balanced s) : Outside s := by
  induction h with
  | nil => rfl
  | char hq _ ih => simpa [Outside, quoting, hq] using ih
  | quoted hb _ ih => simpa [Outside, foldl_inQuotes hb] using ih

theorem outside_iff : Outside s ↔ Balanced s := ⟨balanced_of_outside s.length le_rfl, Balanced.outside⟩

/-- where a quoted string ends is plain from its start -/
theorem QuotedBody.unique (hb : QuotedBody b) (hb' : QuotedBody b') (h : b ++ '"' :: x = b' ++ '"' :: y) :
    b = b' ∧ x = y := by
  induction hb generalizing b' with
  | nil =>
    cases hb' with
    | nil => exact ⟨rfl, (List.cons.inj h).2⟩
    | char hq => exact absurd (List.cons.inj h).1.symm hq
    | escape => simp at h
  | char hq he _ ih =>
    cases hb' with
    | nil => exact absurd (List.cons.inj h).1 hq
    | char _ _ hb' =>
      obtain ⟨rfl, hrest⟩ := List.cons.inj h
      obtain ⟨rfl, rfl⟩ := ih hb' hrest
      exact ⟨rfl, rfl⟩
    | escape => exact absurd (List.cons.inj h).1 he
  | escape c _ ih =>
    cases hb' with
    | nil => simp at h
    | char _ he => exact absurd (List.cons.inj h).1.symm he
    | escape c' hb' =>
      simp only [List.cons_append, List.cons.injEq, true_and] at h
      obtain ⟨rfl, h⟩ := h
      obtain ⟨rfl, rfl⟩ := ih hb' h
      exact ⟨rfl, rfl⟩

theorem inQuotes_append (b s : List Char) : inQuotes b ++ s = '"' :: (b ++ '"' :: s) := by
  simp [inQuotes]

/-- of a balanced text that starts with a quoted string, the rest is balanced -/
theorem Balanced.tail (h : Balanced p) (hb : QuotedBody b) (hp : p ++ '"' :: s = inQuotes b ++ t) :
    p = [] ∨ ∃ r, p = inQuotes b ++ r ∧ Balanced r ∧ r ++ '"' :: s = t := by
  cases h with
  | nil => exact Or.inl rfl
  | char hq =>
    rw [inQuotes_append, List.cons_append] at hp
    exact absurd (List.cons.inj hp).1 hq
  | @quoted b' r hb' hr =>
    right
    rw [List.append_assoc, inQuotes_append, inQuotes_append] at hp
    obtain ⟨rfl, hrest⟩ := hb'.unique hb (List.cons.inj hp).2
    exact ⟨r, rfl, hr, hrest⟩

/-! ## Comments -/

/-- the scan goes through a text and on -/
theorem uncomment_append (h : Uncommented x t) (y : List Char) :
    withoutComments (x ++ y) = (withoutComments y).map (t ++ ·) := by
  unfold withoutComments
  induction h with
  | nil => simp
  | comment hb _ ih =>
    simp only [List.cons_append, List.append_assoc]
    rw [uncomment]
    simp [uncomment_comment hb 0, uncomment, ih]
  | quoted hb _ ih =>
    simp only [List.cons_append, List.append_assoc]
    rw [uncomment]
    simp [uncomment_quoted hb, uncomment, ih, Function.comp_def]
  | char ho hc hq _ ih => simp [uncomment, ho, hc, hq, ih, Function.comp_def]

theorem uncommented_append (h : Uncommented x t) (h' : Uncommented y s) : Uncommented (x ++ y) (t ++ s) := by
  rw [← withoutComments_iff, uncomment_append h, withoutComments_iff.2 h', Option.map_some]

/-- **A comment leaves no trace.** -/
theorem comment_swap (hx : Uncommented x t) (hb : CommentBody b) (hb' : CommentBody b') :
    withoutComments (x ++ '(' :: (b ++ ')' :: y)) = withoutComments (x ++ '(' :: (b' ++ ')' :: y)) := by
  have hskip : ∀ {b}, CommentBody b → withoutComments ('(' :: (b ++ ')' :: y)) = withoutComments y := by
    intro b hb
    unfold withoutComments
    rw [uncomment]
    simp [uncomment_comment hb 0, uncomment]
  rw [uncomment_append hx, uncomment_append hx, hskip hb, hskip hb']

theorem Uncommented.balanced (h : Uncommented x t) : Balanced t := by
  induction h with
  | nil => exact .nil
  | comment _ _ ih => exact ih
  | quoted hb _ ih => simpa [inQuotes] using Balanced.quoted hb ih
  | char _ _ hq _ ih => exact .char hq ih

theorem uncommented_inQuotes (hb : QuotedBody b) (h : Uncommented y s) : Uncommented (inQuotes b ++ y) (inQuotes b ++ s) := by
  rw [inQuotes_append, inQuotes_append]
  exact .quoted hb h

/-- **A quoted string that is left** once the comments are gone stands in the value. -/
theorem Uncommented.at_quote (h : Uncommented x (p ++ (inQuotes b ++ s))) (hp : Balanced p) (hb : QuotedBody b) :
    ∃ y z, x = y ++ (inQuotes b ++ z) ∧ Uncommented y p ∧ Uncommented z s := by
  generalize ht : p ++ (inQuotes b ++ s) = t at h
  induction h generalizing p with
  | nil => simp [inQuotes] at ht
  | comment hc _ ih =>
    obtain ⟨y, z, rfl, hy, hz⟩ := ih hp ht
    exact ⟨_, z, by simp, .comment hc hy, hz⟩
  | @quoted b' x t hb' hx ih =>
    rw [← inQuotes_append] at ht ⊢
    rcases hp.tail hb' (by rw [← ht, inQuotes_append b s]) with rfl | ⟨r, rfl, hr, hrest⟩
    · rw [List.nil_append, inQuotes_append, inQuotes_append] at ht
      obtain ⟨rfl, rfl⟩ := hb.unique hb' (List.cons.inj ht).2
      exact ⟨[], x, rfl, .nil, hx⟩
    · rw [← inQuotes_append b s] at hrest
      obtain ⟨y, z, rfl, hy, hz⟩ := ih hr hrest
      exact ⟨inQuotes b' ++ y, z, by simp, uncommented_inQuotes hb' hy, hz⟩
  | @char c x t ho hc hq _ ih =>
    cases hp with
    | nil =>
      rw [List.nil_append, inQuotes_append] at ht
      exact absurd (List.cons.inj ht).1.symm hq
    | @char d p hd hp =>
      obtain ⟨rfl, hrest⟩ := List.cons.inj ht
      obtain ⟨y, z, rfl, hy, hz⟩ := ih hp hrest
      exact ⟨d :: y, z, rfl, .char ho hc hq hy, hz⟩
    | @quoted b' r hb' hr =>
      rw [List.append_assoc, inQuotes_append] at ht
      exact absurd (List.cons.inj ht).1.symm hq

/-! ## Sections -/

/-- the section that a place is in has begun: at the front, or behind a semicolon -/
def Begins (p a : List Char) : Prop := p = a ∨ ∃ front, p = front ++ ';' :: a

theorem cut_inQuotes (hb : QuotedBody b) (current q : List Char) :
    cut false false current (inQuotes b ++ q) = cut false false (current ++ inQuotes b) q := by
  rw [inQuotes_append, cut]
  simp [cut_quoted hb, cut, inQuotes]

/-- the second scan goes through a text and on in the section the text ends in -/
theorem cut_balanced (hp : Balanced p) (current : List Char) :
    ∃ init a, (∀ z, cut false false current (p ++ z) = (cut false false a z).map (init ++ ·)) ∧
      (a = current ++ p ∨ Balanced a ∧ ∃ front, p = front ++ ';' :: a) := by
  induction hp generalizing current with
  | nil => exact ⟨[], current, fun z => by simp, Or.inl (by simp)⟩
  | @char c s hq hs ih =>
    by_cases hc : c = ';'
    · subst hc
      obtain ⟨init, a, hcut, hbegins⟩ := ih []
      refine ⟨stripChars current :: init, a, fun z => ?_, Or.inr ?_⟩
      · simp [cut, hcut z, Function.comp_def]
      · rcases hbegins with rfl | ⟨ha, front, rfl⟩
        · exact ⟨by simpa using hs, [], by simp⟩
        · exact ⟨ha, ';' :: front, by simp⟩
    · obtain ⟨init, a, hcut, hbegins⟩ := ih (current ++ [c])
      refine ⟨init, a, fun z => by simp [cut, hq, hc, hcut z], ?_⟩
      rcases hbegins with rfl | ⟨ha, front, rfl⟩
      · exact Or.inl (by simp)
      · exact Or.inr ⟨ha, c :: front, by simp⟩
  | @quoted b s hb hs ih =>
    obtain ⟨init, a, hcut, hbegins⟩ := ih (current ++ inQuotes b)
    refine ⟨init, a, fun z => by rw [List.append_assoc, cut_inQuotes hb, hcut z], ?_⟩
    rcases hbegins with rfl | ⟨ha, front, rfl⟩
    · exact Or.inl (by simp)
    · exact Or.inr ⟨ha, inQuotes b ++ front, by simp⟩

/-- what the second scan makes of a text does not depend on where its first section began -/
theorem cut_from {ss : List (List Char)} (h : cut false false x q = some ss) :
    ∃ z more, ∀ current, cut false false current q = some (stripChars (current ++ z) :: more) := by
  obtain ⟨z, rest, hs, -⟩ := sections_of_cut q.length le_rfl h
  refine ⟨z, rest.map stripChars, fun current => ?_⟩
  cases hs with
  | last hz =>
    have hall := cut_whole hz current []
    simpa [cut] using hall
  | cons hz ht => simp [cut_whole hz, cut, ht.scan]

/-- **A quoted string of a text** stands in one of its sections, and any other one fits there. -/
theorem cut_at_quote (hp : Balanced p) (q : List Char) :
    (∀ b, QuotedBody b → cut false false [] (p ++ (inQuotes b ++ q)) = none) ∨
      ∃ l a z l', Balanced a ∧ Begins p a ∧ ∀ b, QuotedBody b →
        cut false false [] (p ++ (inQuotes b ++ q)) = some (l ++ stripChars (a ++ (inQuotes b ++ z)) :: l') := by
  obtain ⟨init, a, hcut, hbegins⟩ := cut_balanced hp []
  rw [List.nil_append] at hbegins
  cases hrest : cut false false a q with
  | none =>
    left
    intro b hb
    rw [hcut, cut_inQuotes hb]
    cases hother : cut false false (a ++ inQuotes b) q with
    | none => rfl
    | some ss =>
      obtain ⟨z, more, hany⟩ := cut_from hother
      rw [hany] at hrest
      cases hrest
  | some ss =>
    obtain ⟨z, more, hany⟩ := cut_from hrest
    refine Or.inr ⟨init, a, z, more, ?_, ?_, fun b hb => ?_⟩
    · rcases hbegins with rfl | ⟨ha, -⟩
      · exact hp
      · exact ha
    · rcases hbegins with rfl | ⟨-, hfront⟩
      · exact Or.inl rfl
      · exact Or.inr hfront
    · rw [hcut, cut_inQuotes hb, hany, Option.map_some, List.append_assoc]

theorem Whole.balanced (h : Whole s) : Balanced s := by
  induction h with
  | nil => exact .nil
  | quoted hb _ ih => simpa [inQuotes] using Balanced.quoted hb ih
  | char hq _ _ ih => exact .char hq ih

theorem Balanced.append (h : Balanced s) (h' : Balanced t) : Balanced (s ++ t) := by
  induction h with
  | nil => exact h'
  | char hq _ ih => exact .char hq ih
  | quoted hb _ ih =>
    rw [List.append_assoc]
    exact .quoted hb ih

/-- what stands before and after a quoted string of a section could stand in one alone -/
theorem Whole.around (h : Whole (a ++ (inQuotes b ++ z))) (ha : Balanced a) (hb : QuotedBody b) : Whole a ∧ Whole z := by
  induction ha with
  | nil =>
    rw [List.nil_append, inQuotes_append] at h
    generalize hs : '"' :: (b ++ '"' :: z) = s at h
    cases h with
    | nil => cases hs
    | quoted hb' hz =>
      obtain ⟨-, rfl⟩ := hb.unique hb' (List.cons.inj hs).2
      exact ⟨.nil, hz⟩
    | char hq => exact absurd (List.cons.inj hs).1.symm hq
  | @char c a hq _ ih =>
    rw [List.cons_append] at h
    generalize hs : c :: (a ++ (inQuotes b ++ z)) = s at h
    cases h with
    | nil => cases hs
    | quoted => exact absurd (List.cons.inj hs).1 hq
    | char _ hc h =>
      obtain ⟨rfl, rfl⟩ := List.cons.inj hs
      obtain ⟨ha, hz⟩ := ih h
      exact ⟨.char hq hc ha, hz⟩
  | @quoted b' a hb' _ ih =>
    rw [List.append_assoc, inQuotes_append b'] at h
    generalize hs : '"' :: (b' ++ '"' :: (a ++ (inQuotes b ++ z))) = s at h
    cases h with
    | nil => cases hs
    | quoted hb'' h =>
      obtain ⟨-, rfl⟩ := hb'.unique hb'' (List.cons.inj hs).2
      obtain ⟨ha, hz⟩ := ih h
      exact ⟨by simpa [inQuotes] using Whole.quoted hb' ha, hz⟩
    | char hq => exact absurd (List.cons.inj hs).1.symm hq

theorem Whole.append (h : Whole s) (h' : Whole t) : Whole (s ++ t) := by
  induction h with
  | nil => exact h'
  | quoted hb _ ih => simpa using Whole.quoted hb ih
  | char hq hc _ ih => exact .char hq hc ih

theorem Whole.exchange (h : Whole (a ++ (inQuotes b ++ z))) (ha : Balanced a) (hb : QuotedBody b) (hb' : QuotedBody b') :
    Whole (a ++ (inQuotes b' ++ z)) := by
  obtain ⟨ha, hz⟩ := h.around ha hb
  refine ha.append ?_
  rw [inQuotes_append]
  exact .quoted hb' hz

/-- **A quoted string of a section** stands in the text. -/
theorem Sections.at_quote (h : Sections t us) (hus : us = l ++ (a ++ (inQuotes b ++ z)) :: l') (ha : Balanced a)
    (hb : QuotedBody b) :
    ∃ p q, t = p ++ (inQuotes b ++ q) ∧ Balanced p ∧ Begins p a ∧
      ∀ b', QuotedBody b' → Sections (p ++ (inQuotes b' ++ q)) (l ++ (a ++ (inQuotes b' ++ z)) :: l') := by
  induction h generalizing l with
  | @last s hs =>
    cases l with
    | nil =>
      obtain ⟨rfl, rfl⟩ := List.cons.inj hus
      exact ⟨a, z, rfl, ha, Or.inl rfl, fun b' hb' => .last (hs.exchange ha hb hb')⟩
    | cons s' l => simp at hus
  | @cons s t ss hs _ ih =>
    cases l with
    | nil =>
      obtain ⟨rfl, rfl⟩ := List.cons.inj hus
      refine ⟨a, z ++ ';' :: t, by simp, ha, Or.inl rfl, fun b' hb' => ?_⟩
      have hsections := Sections.cons (hs.exchange ha hb hb') ‹Sections t ss›
      simpa using hsections
    | cons s' l =>
      obtain ⟨rfl, rfl⟩ := List.cons.inj hus
      obtain ⟨p, q, rfl, hp, hbegins, hany⟩ := ih rfl
      refine ⟨s ++ ';' :: p, q, by simp, hs.balanced.append (.char (by decide) hp), Or.inr ?_, fun b' hb' => ?_⟩
      · rcases hbegins with rfl | ⟨front, rfl⟩
        · exact ⟨s, rfl⟩
        · exact ⟨s ++ ';' :: front, by simp⟩
      · have hsections := Sections.cons hs (hany b' hb')
        simpa using hsections

end Balanced

end Rally.Ingress
