/-
The two scans of `src/ingress.py` over an `Authentication-Results` value, and the grammar they decide: comments nest and
escape, quoted strings escape, and a semicolon outside a quoted string ends a section.

- `CommentBody`, `QuotedBody`, `Uncommented`, `Whole`, `Sections`: the grammar, one constructor a production.
- `withoutComments_iff`: the first scan returns a text exactly when the value reads as that text with comments put in.
- `cut_iff`, `authSegments_iff`: the second returns the sections, trimmed, and nothing on an open quoted string.
-/
import Rally.Core.Value

namespace Rally.Ingress

open Py

/-! ## Grammar -/

/-- what may stand between the parentheses of a comment -/
inductive CommentBody : List Char → Prop where
  | nil : CommentBody []
  | char {c : Char} {s : List Char} : c ≠ '(' → c ≠ ')' → c ≠ '\\' → CommentBody s → CommentBody (c :: s)
  | escape (c : Char) {s : List Char} : CommentBody s → CommentBody ('\\' :: c :: s)
  | nested {b s : List Char} : CommentBody b → CommentBody s → CommentBody ('(' :: (b ++ ')' :: s))

/-- what may stand between the quotes of a quoted string -/
inductive QuotedBody : List Char → Prop where
  | nil : QuotedBody []
  | char {c : Char} {s : List Char} : c ≠ '"' → c ≠ '\\' → QuotedBody s → QuotedBody (c :: s)
  | escape (c : Char) {s : List Char} : QuotedBody s → QuotedBody ('\\' :: c :: s)

/-- a value, and what is left of it without its comments -/
inductive Uncommented : List Char → List Char → Prop where
  | nil : Uncommented [] []
  | comment {b s t : List Char} : CommentBody b → Uncommented s t → Uncommented ('(' :: (b ++ ')' :: s)) t
  | quoted {b s t : List Char} :
      QuotedBody b → Uncommented s t → Uncommented ('"' :: (b ++ '"' :: s)) ('"' :: (b ++ '"' :: t))
  | char {c : Char} {s t : List Char} :
      c ≠ '(' → c ≠ ')' → c ≠ '"' → Uncommented s t → Uncommented (c :: s) (c :: t)

/-- a text whose quoted strings are closed, without a semicolon outside them -/
inductive Whole : List Char → Prop where
  | nil : Whole []
  | quoted {b s : List Char} : QuotedBody b → Whole s → Whole ('"' :: (b ++ '"' :: s))
  | char {c : Char} {s : List Char} : c ≠ '"' → c ≠ ';' → Whole s → Whole (c :: s)

/-- a text, and its parts between the semicolons outside quoted strings -/
inductive Sections : List Char → List (List Char) → Prop where
  | last {s : List Char} : Whole s → Sections s [s]
  | cons {s t : List Char} {ss : List (List Char)} : Whole s → Sections t ss → Sections (s ++ ';' :: t) (s :: ss)

/-! ## Comments -/

/-- the loop of `_without_comments` -/
def uncomment (depth : ℕ) (quoted escaped : Bool) : List Char → Option (List Char)
  | [] => if 0 < depth ∨ quoted ∨ escaped then none else some []
  | c :: s =>
    if escaped then
      if depth = 0 then (uncomment depth quoted false s).map (c :: ·) else uncomment depth quoted false s
    else if c = '\\' ∧ (0 < depth ∨ quoted) then
      if depth = 0 then (uncomment depth quoted true s).map (c :: ·) else uncomment depth quoted true s
    else if 0 < depth then
      if c = '(' then uncomment (depth + 1) quoted false s
      else if c = ')' then uncomment (depth - 1) quoted false s
      else uncomment depth quoted false s
    else if quoted then (uncomment depth (c ≠ '"') false s).map (c :: ·)
    else if c = '(' then uncomment 1 quoted false s
    else if c = ')' then none
    else (uncomment depth (c = '"') false s).map (c :: ·)

/-- `_without_comments` -/
def withoutComments (value : List Char) : Option (List Char) := uncomment 0 false false value

/-- the scan passes a comment's body at the depth it came in with -/
theorem uncomment_comment {b : List Char} (hb : CommentBody b) (d : ℕ) (r : List Char) :
    uncomment (d + 1) false false (b ++ r) = uncomment (d + 1) false false r := by
  induction hb generalizing d r with
  | nil => rfl
  | char ho hc he _ ih => simp [uncomment, ho, hc, he, ih]
  | escape c _ ih => simp [uncomment, ih]
  | nested _ _ ihb ihs =>
    simp only [List.cons_append, List.append_assoc]
    rw [uncomment]
    simp [ihb (d + 1), uncomment, ihs]

/-- the scan keeps a quoted string's body -/
theorem uncomment_quoted {b : List Char} (hb : QuotedBody b) (r : List Char) :
    uncomment 0 true false (b ++ r) = (uncomment 0 true false r).map (b ++ ·) := by
  induction hb with
  | nil => simp
  | char hq he _ ih => simp [uncomment, hq, he, ih, Function.comp_def]
  | escape c _ ih => simp [uncomment, ih, Function.comp_def]

theorem Uncommented.scan {s t : List Char} (h : Uncommented s t) : withoutComments s = some t := by
  unfold withoutComments
  induction h with
  | nil => simp [uncomment]
  | comment hb _ ih =>
    rw [uncomment]
    simp [uncomment_comment hb 0, uncomment, ih]
  | quoted hb _ ih =>
    rw [uncomment]
    simp [uncomment_quoted hb, uncomment, ih]
  | char ho hc hq _ ih => simp [uncomment, ho, hc, hq, ih]

/-- inside a comment, a scan that ends well passes a body and its closing parenthesis -/
theorem comment_of_uncomment (n : ℕ) : ∀ {d : ℕ} {s t : List Char}, s.length ≤ n →
    uncomment (d + 1) false false s = some t →
    ∃ b r, CommentBody b ∧ s = b ++ ')' :: r ∧ uncomment d false false r = some t := by
  induction n with
  | zero =>
    intro d s t hn h
    rw [List.length_eq_zero_iff.1 (Nat.le_zero.1 hn)] at h
    simp [uncomment] at h
  | succ n ih =>
    intro d s t hn h
    cases s with
    | nil => simp [uncomment] at h
    | cons c s =>
      have hs : s.length ≤ n := by simpa using hn
      by_cases he : c = '\\'
      · subst he
        cases s with
        | nil => simp [uncomment] at h
        | cons e s =>
          have h' : uncomment (d + 1) false false s = some t := by simpa [uncomment] using h
          have hs' : s.length ≤ n := by simp at hs; omega
          obtain ⟨b, r, hb, rfl, hr⟩ := ih hs' h'
          exact ⟨_, r, hb.escape e, rfl, hr⟩
      · by_cases ho : c = '('
        · -- an inner comment, then the rest of this one
          subst ho
          have h' : uncomment (d + 1 + 1) false false s = some t := by simpa [uncomment] using h
          obtain ⟨b, r, hb, rfl, hr⟩ := ih hs h'
          have hlen : r.length ≤ n := by simp at hs; omega
          obtain ⟨b', r', hb', rfl, hr'⟩ := ih hlen hr
          exact ⟨_, r', hb.nested hb', by simp, hr'⟩
        · by_cases hc : c = ')'
          · subst hc
            exact ⟨[], s, .nil, rfl, by simpa [uncomment] using h⟩
          · have h' : uncomment (d + 1) false false s = some t := by simpa [uncomment, he, ho, hc] using h
            obtain ⟨b, r, hb, rfl, hr⟩ := ih hs h'
            exact ⟨_, r, hb.char ho hc he, rfl, hr⟩

/-- inside a quoted string, a scan that ends well keeps a body and its closing quote -/
theorem quoted_of_uncomment (n : ℕ) : ∀ {s t : List Char}, s.length ≤ n → uncomment 0 true false s = some t →
    ∃ b r u, QuotedBody b ∧ s = b ++ '"' :: r ∧ t = b ++ '"' :: u ∧ uncomment 0 false false r = some u := by
  induction n with
  | zero =>
    intro s t hn h
    rw [List.length_eq_zero_iff.1 (Nat.le_zero.1 hn)] at h
    simp [uncomment] at h
  | succ n ih =>
    intro s t hn h
    cases s with
    | nil => simp [uncomment] at h
    | cons c s =>
      have hs : s.length ≤ n := by simpa using hn
      by_cases he : c = '\\'
      · subst he
        cases s with
        | nil => simp [uncomment] at h
        | cons e s =>
          have h' : ∃ u, uncomment 0 true false s = some u ∧ '\\' :: e :: u = t := by
            simpa [uncomment, Function.comp_def] using h
          obtain ⟨u, hu, rfl⟩ := h'
          obtain ⟨b, r, v, hb, rfl, rfl, hr⟩ := ih (by simp at hs; omega) hu
          exact ⟨_, r, v, hb.escape e, rfl, rfl, hr⟩
      · by_cases hq : c = '"'
        · subst hq
          have h' : ∃ u, uncomment 0 false false s = some u ∧ '"' :: u = t := by simpa [uncomment] using h
          obtain ⟨u, hu, rfl⟩ := h'
          exact ⟨[], s, u, .nil, rfl, rfl, hu⟩
        · have h' : ∃ u, uncomment 0 true false s = some u ∧ c :: u = t := by simpa [uncomment, he, hq] using h
          obtain ⟨u, hu, rfl⟩ := h'
          obtain ⟨b, r, v, hb, rfl, rfl, hr⟩ := ih hs hu
          exact ⟨_, r, v, hb.char hq he, rfl, rfl, hr⟩

theorem uncommented_of_scan (n : ℕ) : ∀ {s t : List Char}, s.length ≤ n → uncomment 0 false false s = some t →
    Uncommented s t := by
  induction n with
  | zero =>
    intro s t hn h
    obtain rfl := List.length_eq_zero_iff.1 (Nat.le_zero.1 hn)
    obtain rfl : [] = t := by simpa [uncomment] using h
    exact .nil
  | succ n ih =>
    intro s t hn h
    cases s with
    | nil =>
      obtain rfl : [] = t := by simpa [uncomment] using h
      exact .nil
    | cons c s =>
      have hs : s.length ≤ n := by simpa using hn
      by_cases ho : c = '('
      · subst ho
        have h' : uncomment (0 + 1) false false s = some t := by simpa [uncomment] using h
        obtain ⟨b, r, hb, rfl, hr⟩ := comment_of_uncomment s.length le_rfl h'
        exact .comment hb (ih (by simp at hs; omega) hr)
      · by_cases hc : c = ')'
        · simp [uncomment, hc] at h
        · have h' : ∃ u, uncomment 0 (c = '"') false s = some u ∧ c :: u = t := by
            simpa [uncomment, ho, hc] using h
          obtain ⟨u, hu, rfl⟩ := h'
          by_cases hq : c = '"'
          · subst hq
            obtain ⟨b, r, v, hb, rfl, rfl, hr⟩ := quoted_of_uncomment s.length le_rfl (by simpa using hu)
            exact .quoted hb (ih (by simp at hs; omega) hr)
          · exact .char ho hc hq (ih hs (by simpa [hq] using hu))

/-- the first scan reads the grammar of comments and quoted strings -/
theorem withoutComments_iff {s t : List Char} : withoutComments s = some t ↔ Uncommented s t :=
  ⟨uncommented_of_scan s.length le_rfl, Uncommented.scan⟩

/-! ## Sections -/

/-- the loop of `_auth_segments`, with the characters of the section it is in -/
def cut (quoted escaped : Bool) (current : List Char) : List Char → Option (List (List Char))
  | [] => if quoted ∨ escaped then none else some [stripChars current]
  | c :: s =>
    if escaped then cut quoted false (current ++ [c]) s
    else if c = '\\' ∧ quoted then cut quoted true (current ++ [c]) s
    else if c = '"' then cut (!quoted) false (current ++ [c]) s
    else if c = ';' ∧ !quoted then (cut quoted false [] s).map (stripChars current :: ·)
    else cut quoted false (current ++ [c]) s

/-- `_auth_segments` -/
def authSegments (value : List Char) : Option (List (List Char)) :=
  match withoutComments value with
  | none => none
  | some value => cut false false [] value

theorem cut_quoted {b : List Char} (hb : QuotedBody b) (current r : List Char) :
    cut true false current (b ++ r) = cut true false (current ++ b) r := by
  induction hb generalizing current with
  | nil => simp
  | char hq he _ ih => simp [cut, hq, he, ih]
  | escape c _ ih => simp [cut, ih]

theorem cut_whole {s : List Char} (hs : Whole s) (current r : List Char) :
    cut false false current (s ++ r) = cut false false (current ++ s) r := by
  induction hs generalizing current with
  | nil => simp
  | quoted hb _ ih =>
    simp only [List.cons_append, List.append_assoc]
    rw [cut]
    simp [cut_quoted hb, cut, ih]
  | char hq hc _ ih => simp [cut, hq, hc, ih]

theorem Sections.scan {t : List Char} {ss : List (List Char)} (h : Sections t ss) :
    cut false false [] t = some (ss.map stripChars) := by
  induction h with
  | last hs =>
    have h := cut_whole hs [] []
    simpa [cut] using h
  | cons hs _ ih => simp [cut_whole hs, cut, ih]

/-- a character joins the first section -/
theorem Sections.push {c : Char} (hq : c ≠ '"') (hc : c ≠ ';') {t s : List Char} {ss : List (List Char)}
    (h : Sections t (s :: ss)) : Sections (c :: t) ((c :: s) :: ss) := by
  cases h with
  | last hs => exact .last (hs.char hq hc)
  | cons hs h => exact .cons (hs.char hq hc) h

/-- a quoted string joins the first section -/
theorem Sections.push_quoted {b : List Char} (hb : QuotedBody b) {t s : List Char} {ss : List (List Char)}
    (h : Sections t (s :: ss)) : Sections ('"' :: (b ++ '"' :: t)) (('"' :: (b ++ '"' :: s)) :: ss) := by
  cases h with
  | last hs => exact .last (.quoted hb hs)
  | cons hs h => simpa using Sections.cons (Whole.quoted hb hs) h

theorem quoted_of_cut (n : ℕ) : ∀ {current s : List Char} {ss : List (List Char)}, s.length ≤ n →
    cut true false current s = some ss →
    ∃ b r, QuotedBody b ∧ s = b ++ '"' :: r ∧ cut false false (current ++ b ++ ['"']) r = some ss := by
  induction n with
  | zero =>
    intro current s ss hn h
    rw [List.length_eq_zero_iff.1 (Nat.le_zero.1 hn)] at h
    simp [cut] at h
  | succ n ih =>
    intro current s ss hn h
    cases s with
    | nil => simp [cut] at h
    | cons c s =>
      have hs : s.length ≤ n := by simpa using hn
      by_cases he : c = '\\'
      · subst he
        cases s with
        | nil => simp [cut] at h
        | cons e s =>
          have h' : cut true false (current ++ ['\\'] ++ [e]) s = some ss := by simpa [cut] using h
          have hs' : s.length ≤ n := by simp at hs; omega
          obtain ⟨b, r, hb, rfl, hr⟩ := ih hs' h'
          exact ⟨_, r, hb.escape e, rfl, by simpa using hr⟩
      · by_cases hq : c = '"'
        · subst hq
          exact ⟨[], s, .nil, rfl, by simpa [cut] using h⟩
        · have h' : cut true false (current ++ [c]) s = some ss := by simpa [cut, he, hq] using h
          obtain ⟨b, r, hb, rfl, hr⟩ := ih hs h'
          exact ⟨_, r, hb.char hq he, rfl, by simpa using hr⟩

theorem sections_of_cut (n : ℕ) : ∀ {current t : List Char} {ss : List (List Char)}, t.length ≤ n →
    cut false false current t = some ss →
    ∃ s rest, Sections t (s :: rest) ∧ ss = stripChars (current ++ s) :: rest.map stripChars := by
  induction n with
  | zero =>
    intro current t ss hn h
    obtain rfl := List.length_eq_zero_iff.1 (Nat.le_zero.1 hn)
    exact ⟨[], [], .last .nil, by simpa [cut, eq_comm] using h⟩
  | succ n ih =>
    intro current t ss hn h
    cases t with
    | nil => exact ⟨[], [], .last .nil, by simpa [cut, eq_comm] using h⟩
    | cons c t =>
      have ht : t.length ≤ n := by simpa using hn
      by_cases hq : c = '"'
      · subst hq
        have h' : cut true false (current ++ ['"']) t = some ss := by simpa [cut] using h
        obtain ⟨b, r, hb, rfl, hr⟩ := quoted_of_cut t.length le_rfl h'
        obtain ⟨s, rest, hs, rfl⟩ := ih (by simp at ht; omega) hr
        exact ⟨_, rest, hs.push_quoted hb, by simp⟩
      · by_cases hc : c = ';'
        · subst hc
          have h' : ∃ us, cut false false [] t = some us ∧ stripChars current :: us = ss := by simpa [cut] using h
          obtain ⟨us, hus, rfl⟩ := h'
          obtain ⟨s, rest, hs, rfl⟩ := ih ht hus
          exact ⟨[], s :: rest, .cons .nil hs, by simp⟩
        · have h' : cut false false (current ++ [c]) t = some ss := by simpa [cut, hq, hc] using h
          obtain ⟨s, rest, hs, rfl⟩ := ih ht h'
          exact ⟨_, rest, hs.push hq hc, by simp⟩

/-- the second scan reads the grammar of sections -/
theorem cut_iff {t : List Char} {ss : List (List Char)} :
    cut false false [] t = some ss ↔ ∃ us, Sections t us ∧ ss = us.map stripChars := by
  constructor
  · intro h
    obtain ⟨s, rest, hs, rfl⟩ := sections_of_cut t.length le_rfl h
    exact ⟨s :: rest, hs, by simp⟩
  · rintro ⟨us, hus, rfl⟩
    exact hus.scan

theorem authSegments_iff {value : List Char} {ss : List (List Char)} :
    authSegments value = some ss ↔ ∃ t us, Uncommented value t ∧ Sections t us ∧ ss = us.map stripChars := by
  unfold authSegments
  constructor
  · intro h
    split at h
    · cases h
    · rename_i t ht
      obtain ⟨us, hus, hss⟩ := cut_iff.1 h
      exact ⟨t, us, withoutComments_iff.1 ht, hus, hss⟩
  · rintro ⟨t, us, ht, hus, rfl⟩
    rw [withoutComments_iff.2 ht]
    exact hus.scan

end Rally.Ingress
