/-
The names of mail attachments (`_safe_attachment_name`, `ATTACHMENT_TYPES` and the renaming of duplicates in
`final_artifact_attachments`, in `src/transport.py`).

A name is decomposed, loses what is not ASCII, has every other run of characters outside `[A-Za-z0-9._-]` made a `-`, and
loses the dots, dashes and underscores at both ends. So the dot before the extension goes too where nothing is left of the
stem.

- `uniqueName_fresh`: the renaming of duplicates ends, with a name that is not taken.
- `opens_iff`: a name keeps its extension exactly when a letter or a digit is left of the stem.
- `stemless`: a name in kanji.
-/
import Rally.Ingress.Evidence

namespace Rally.Attachments

open Ingress (lowerChars)

/-! ## Text operations -/

/-- what is left open of the Unicode tables: compatibility decomposition, which takes ASCII for itself and composes nothing
across it, and case folding, which is lower case in ASCII -/
structure Unicode where
  nfkd : List Char → List Char
  casefold : List Char → List Char
  nfkd_append : ∀ s t : List Char, (∀ c ∈ t, c.toNat < 128) → nfkd (s ++ t) = nfkd s ++ t
  casefold_ascii : ∀ s : List Char, (∀ c ∈ s, c.toNat < 128) → casefold s = s.map Char.toLower

/-- what follows the last slash -/
def afterSlash (p : List Char) : List Char := (p.reverse.takeWhile (· ≠ '/')).reverse

/-- what follows the last dot -/
def afterDot (p : List Char) : List Char := (p.reverse.takeWhile (· ≠ '.')).reverse

/-- `os.path.splitext` -/
def splitext (p : List Char) : List Char × List Char :=
  let tail := afterSlash p
  let ext := '.' :: afterDot tail
  if '.' ∈ tail ∧ (tail.take (tail.length - ext.length)).any (· ≠ '.') then (p.take (p.length - ext.length), ext)
  else (p, [])

/-- `s.rstrip(chars)` -/
def rstrip (p : Char → Bool) (s : List Char) : List Char := (s.reverse.dropWhile p).reverse

/-! ## Names -/

/-- `ATTACHMENT_TYPES` -/
def attachmentTypes : List (String × String) :=
  [(".html", "text/html"),
    (".htm", "text/html"),
    (".pdf", "application/pdf"),
    (".pptx", "application/vnd.openxmlformats-officedocument.presentationml.presentation"),
    (".docx", "application/vnd.openxmlformats-officedocument.wordprocessingml.document"),
    (".png", "image/png"),
    (".jpg", "image/jpeg"),
    (".jpeg", "image/jpeg"),
    (".webp", "image/webp"),
    (".gif", "image/gif"),
    (".mp3", "audio/mpeg"),
    (".wav", "audio/wav"),
    (".md", "text/markdown"),
    (".txt", "text/plain")]

/-- the extension of a file's name, in lower case -/
def extensionOf (filename : List Char) : List Char := lowerChars (splitext filename).2

/-- `ATTACHMENT_TYPES.get(extension)` -/
def typeOf (extension : List Char) : Option String :=
  (attachmentTypes.find? fun t => t.1.toList = extension).map Prod.snd

/-- `[A-Za-z0-9._-]` -/
def isPlain (c : Char) : Bool := c.isAlphanum || c = '.' || c = '_' || c = '-'

/-- what is stripped at the ends -/
def isEdge (c : Char) : Bool := c = '.' || c = '-' || c = '_'

/-- `re.sub(r"[^A-Za-z0-9._-]+", "-", s)`; `inRun` within a run that is already replaced -/
def dashed (inRun : Bool) : List Char → List Char
  | [] => []
  | c :: s => if isPlain c then c :: dashed false s else if inRun then dashed true s else '-' :: dashed true s

def deliverable : List Char := "rally-deliverable".toList

/-- the name without what is not ASCII, with dashes, and stripped -/
def normalize (U : Unicode) (name : List Char) : List Char :=
  rstrip isEdge ((dashed false ((U.nfkd name).filter fun c => c.toNat < 128)).dropWhile isEdge)

/-- `_safe_attachment_name` -/
def safeAttachmentName (U : Unicode) (name : List Char) : List Char :=
  let normalized := if normalize U name = [] then deliverable else normalize U name
  let extension := (extensionOf normalized).take 10
  let stem := (splitext normalized).1
  let stem := rstrip isEdge ((if stem = [] then deliverable else stem).take 80)
  (stem ++ extension).take 96

/-- `"%s-%d%s" % (stem[:72], counter, suffix)` -/
def numbered (stem : List Char) (counter : ℕ) (suffix : List Char) : List Char :=
  stem.take 72 ++ '-' :: (Nat.toDigits 10 counter ++ suffix)

/-- the loop that renames duplicates, for so many rounds -/
def rename (U : Unicode) (names : List (List Char)) (stem suffix : List Char) : ℕ → ℕ → List Char → Option (List Char)
  | 0, _, _ => none
  | n + 1, counter, filename =>
    if U.casefold filename ∈ names then rename U names stem suffix n (counter + 1) (numbered stem counter suffix)
    else some filename

/-- a name that is not taken -/
def uniqueName (U : Unicode) (names : List (List Char)) (filename : List Char) : List Char :=
  (rename U names (splitext filename).1 (splitext filename).2 (names.length + 2) 2 filename).getD filename

/-! ## Extensions -/

section Splitext

variable {p x e : List Char} {c : Char}

/-- a text without the character is all behind its last one -/
theorem takeWhile_reverse_all (h : ∀ d ∈ e, d ≠ c) : (e.reverse.takeWhile (· ≠ c)).reverse = e := by
  rw [List.takeWhile_eq_self_iff.2 fun d hd => by simpa using h d (List.mem_reverse.1 hd), List.reverse_reverse]

theorem takeWhile_reverse (h : ∀ d ∈ e, d ≠ c) : ((x ++ c :: e).reverse.takeWhile (· ≠ c)).reverse = e := by
  rw [List.reverse_append, List.reverse_cons, List.append_assoc]
  rw [List.takeWhile_append_of_pos fun d hd => by simpa using h d (List.mem_reverse.1 hd)]
  simp

/-- a text with the character has a last one -/
theorem exists_last (h : c ∈ p) : ∃ x e, p = x ++ c :: e ∧ c ∉ e := by
  obtain ⟨front, back, hp, hfront⟩ := List.eq_append_cons_of_mem (List.mem_reverse.2 h)
  refine ⟨back.reverse, front.reverse, ?_, by simpa using hfront⟩
  rw [← List.reverse_reverse p, hp]
  simp

theorem afterSlash_suffix (p : List Char) : afterSlash p <:+ p := by
  rw [← List.reverse_prefix, afterSlash, List.reverse_reverse]
  exact List.takeWhile_prefix _

theorem afterSlash_append (h : ∀ d ∈ e, d ≠ '/') : afterSlash (x ++ e) = afterSlash x ++ e := by
  rw [afterSlash, List.reverse_append,
    List.takeWhile_append_of_pos fun d hd => by simpa using h d (List.mem_reverse.1 hd)]
  simp [afterSlash]

theorem afterDot_append (h : ∀ d ∈ e, d ≠ '.') : afterDot (x ++ '.' :: e) = e := takeWhile_reverse h

/-- the extension is split off where something other than a dot stands before it -/
theorem splitext_append (he : ∀ d ∈ e, d ≠ '.' ∧ d ≠ '/') (hx : (afterSlash x).any (· ≠ '.') = true) :
    splitext (x ++ '.' :: e) = (x, '.' :: e) := by
  have htail : afterSlash (x ++ '.' :: e) = afterSlash x ++ '.' :: e := by
    refine afterSlash_append fun d hd => ?_
    rcases List.mem_cons.1 hd with rfl | hd
    · decide
    · exact (he d hd).2
  have hdot : afterDot (afterSlash x ++ '.' :: e) = e := afterDot_append fun d hd => (he d hd).1
  have htake : (afterSlash x ++ '.' :: e).take ((afterSlash x ++ '.' :: e).length - ('.' :: e).length) = afterSlash x := by
    simp
  have htake' : (x ++ '.' :: e).take ((x ++ '.' :: e).length - ('.' :: e).length) = x := by
    simp
  simp only [splitext, htail, hdot, htake, htake', hx, and_true]
  rw [if_pos (by simp)]

/-- a text without dots has no extension -/
theorem splitext_plain (h : '.' ∉ p) : splitext p = (p, []) := by
  have htail : '.' ∉ afterSlash p := fun hmem => h ((afterSlash_suffix p).subset hmem)
  simp [splitext, htail]

/-- what is split off is an extension, and leaves a stem -/
theorem splitext_cases (p : List Char) : splitext p = (p, []) ∨
    ∃ x e, p = x ++ '.' :: e ∧ splitext p = (x, '.' :: e) ∧ '.' ∉ e := by
  by_cases h : '.' ∈ afterSlash p ∧
      ((afterSlash p).take ((afterSlash p).length - ('.' :: afterDot (afterSlash p)).length)).any (· ≠ '.') = true
  · right
    obtain ⟨x, e, htail, he⟩ := exists_last h.1
    have hdot : afterDot (afterSlash p) = e := by
      rw [htail]
      exact afterDot_append fun d hd heq => he (heq ▸ hd)
    obtain ⟨front, hfront⟩ := afterSlash_suffix p
    have hp : p = (front ++ x) ++ '.' :: e := by rw [← hfront, htail, List.append_assoc]
    refine ⟨front ++ x, e, hp, ?_, he⟩
    have htake : p.take (p.length - ('.' :: e).length) = front ++ x := by
      rw [hp, List.length_append, Nat.add_sub_cancel]
      exact List.take_left
    rw [hdot] at h
    simp only [splitext, hdot, htake]
    rw [if_pos h]
  · left
    simp only [splitext]
    rw [if_neg h]

end Splitext

/-! ## Renaming -/

section Renaming

variable {U : Unicode} {names : List (List Char)} {stem suffix filename : List Char}

/-- the name has only characters of `[A-Za-z0-9._-]` -/
def Plain (s : List Char) : Prop := ∀ c ∈ s, isPlain c = true

theorem alphanum_ascii {c : Char} (h : c.isAlphanum = true) : c.toNat < 128 := by
  have hranges : ((decide (c.val ≥ 65 ∧ c.val ≤ 90) || (c.val ≥ 97 && c.val ≤ 122)) || (c.val ≥ 48 && c.val ≤ 57)) = true := h
  simp only [Bool.or_eq_true, Bool.and_eq_true, decide_eq_true_eq, UInt32.le_iff_toNat_le, ge_iff_le] at hranges
  have hn : c.toNat = c.val.toNat := rfl
  rcases hranges with (h | h) | h
  · have := h.2
    simp at this
    omega
  · have := h.2
    simp at this
    omega
  · have := h.2
    simp at this
    omega

instance (s : List Char) : Decidable (Plain s) := List.decidableBAll _ s

theorem isPlain_ascii {c : Char} (h : isPlain c = true) : c.toNat < 128 := by
  simp only [isPlain, Bool.or_eq_true, decide_eq_true_eq] at h
  rcases h with ((h | rfl) | rfl) | rfl
  · exact alphanum_ascii h
  · decide
  · decide
  · decide

theorem isPlain_of_alphanum {c : Char} (h : c.isAlphanum = true) : isPlain c = true := by
  simp [isPlain, h]

theorem isDigit_of_toDigits {c : Char} {n : ℕ} (h : c ∈ Nat.toDigits 10 n) : c.isDigit = true :=
  Nat.isDigit_of_mem_toDigits (by decide) (by decide) h

theorem plain_numbered (hstem : Plain stem) (hsuffix : Plain suffix) (n : ℕ) : Plain (numbered stem n suffix) := by
  intro c hc
  simp only [numbered, List.mem_append, List.mem_cons] at hc
  rcases hc with hc | rfl | hc | hc
  · exact hstem c (List.mem_of_mem_take hc)
  · rfl
  · exact isPlain_of_alphanum (by simp [Char.isAlphanum, isDigit_of_toDigits hc])
  · exact hsuffix c hc

/-- a digit has no case -/
theorem toLower_digits (n : ℕ) : (Nat.toDigits 10 n).map Char.toLower = Nat.toDigits 10 n := by
  refine (List.map_congr_left fun c hc => ?_).trans (List.map_id _)
  have hdigit := isDigit_of_toDigits hc
  simp only [Char.isDigit, Bool.and_eq_true, decide_eq_true_eq, UInt32.le_iff_toNat_le] at hdigit
  refine dif_neg fun h => ?_
  have hupper := h.1
  have hle := hdigit.2
  simp only [UInt32.le_iff_toNat_le, ge_iff_le] at hupper
  simp at hupper hle
  omega

/-- the numbered names differ, also without regard to case -/
theorem numbered_inj (hstem : Plain stem) (hsuffix : Plain suffix) {m n : ℕ}
    (h : U.casefold (numbered stem m suffix) = U.casefold (numbered stem n suffix)) : m = n := by
  rw [U.casefold_ascii _ fun c hc => isPlain_ascii (plain_numbered hstem hsuffix m c hc),
    U.casefold_ascii _ fun c hc => isPlain_ascii (plain_numbered hstem hsuffix n c hc)] at h
  simp only [numbered, List.map_append, List.map_cons, toLower_digits] at h
  have hdigits : Nat.toDigits 10 m = Nat.toDigits 10 n := by simpa using h
  calc m = Nat.ofDigitChars 10 (Nat.toDigits 10 m) 0 := Nat.ofDigitChars_ten_toDigits.symm
    _ = Nat.ofDigitChars 10 (Nat.toDigits 10 n) 0 := by rw [hdigits]
    _ = n := Nat.ofDigitChars_ten_toDigits

/-- where the rounds run out, every name that was tried is taken -/
theorem rename_none {n counter : ℕ} (h : rename U names stem suffix n counter filename = none) :
    (0 < n → U.casefold filename ∈ names) ∧
      ∀ k, counter ≤ k → k + 1 < counter + n → U.casefold (numbered stem k suffix) ∈ names := by
  induction n generalizing counter filename with
  | zero => exact ⟨fun hlt => absurd hlt (lt_irrefl 0), fun k hle hlt => by omega⟩
  | succ n ih =>
    rw [rename] at h
    split_ifs at h with htaken
    obtain ⟨hfirst, hrest⟩ := ih h
    refine ⟨fun _ => htaken, fun k hle hlt => ?_⟩
    by_cases hk : k = counter
    · subst hk
      exact hfirst (by omega)
    · exact hrest k (by omega) (by omega)

/-- **The renaming ends.** A round for each name that is taken, and two more, are enough. -/
theorem rename_isSome (hstem : Plain stem) (hsuffix : Plain suffix) {n : ℕ} (hn : names.length + 1 < n) :
    ∃ name, rename U names stem suffix n 2 filename = some name := by
  cases h : rename U names stem suffix n 2 filename with
  | some name => exact ⟨name, rfl⟩
  | none =>
    -- more names than are taken would all be taken
    have htaken := (rename_none h).2
    have hnodup : ((List.range (n - 1)).map fun i => U.casefold (numbered stem (2 + i) suffix)).Nodup :=
      List.Nodup.map (fun i j hij => Nat.add_left_cancel (numbered_inj hstem hsuffix hij)) List.nodup_range
    have hsub : ((List.range (n - 1)).map fun i => U.casefold (numbered stem (2 + i) suffix)) ⊆ names := by
      intro x hx
      obtain ⟨i, hi, rfl⟩ := List.mem_map.1 hx
      have hlt := List.mem_range.1 hi
      exact htaken (2 + i) (by omega) (by omega)
    have hle := (hnodup.subperm hsub).length_le
    rw [List.length_map, List.length_range] at hle
    omega

theorem rename_fresh {n counter : ℕ} {name : List Char} (h : rename U names stem suffix n counter filename = some name) :
    U.casefold name ∉ names := by
  induction n generalizing counter filename with
  | zero => cases h
  | succ n ih =>
    rw [rename] at h
    split_ifs at h with htaken
    · exact ih h
    · cases h
      exact htaken

theorem rename_plain (hstem : Plain stem) (hsuffix : Plain suffix) {n counter : ℕ} {name : List Char}
    (hname : Plain filename) (h : rename U names stem suffix n counter filename = some name) : Plain name := by
  induction n generalizing counter filename with
  | zero => cases h
  | succ n ih =>
    rw [rename] at h
    split_ifs at h with htaken
    · exact ih (plain_numbered hstem hsuffix counter) h
    · cases h
      exact hname

/-- a name that the loop ends with is the first or a numbered one -/
theorem rename_cases {n counter : ℕ} {name : List Char} (h : rename U names stem suffix n counter filename = some name) :
    name = filename ∨ ∃ k, name = numbered stem k suffix := by
  induction n generalizing counter filename with
  | zero => cases h
  | succ n ih =>
    rw [rename] at h
    split_ifs at h with htaken
    · rcases ih h with rfl | hk
      · exact Or.inr ⟨counter, rfl⟩
      · exact Or.inr hk
    · cases h
      exact Or.inl rfl

theorem plain_splitext (h : Plain filename) : Plain (splitext filename).1 ∧ Plain (splitext filename).2 := by
  rcases splitext_cases filename with hsplit | ⟨x, e, hp, hsplit, -⟩
  · rw [hsplit]
    exact ⟨h, fun c hc => nomatch hc⟩
  · rw [hsplit]
    rw [hp] at h
    exact ⟨fun c hc => h c (List.mem_append_left _ hc), fun c hc => h c (List.mem_append_right _ hc)⟩

/-- the loop ends with the unique name -/
theorem uniqueName_eq (h : Plain filename) :
    rename U names (splitext filename).1 (splitext filename).2 (names.length + 2) 2 filename =
      some (uniqueName U names filename) := by
  obtain ⟨name, hname⟩ := @rename_isSome U names _ _ filename (plain_splitext h).1
    (plain_splitext h).2 _ (by omega : names.length + 1 < names.length + 2)
  rw [uniqueName, hname, Option.getD_some]

/-- **A unique name** is not taken, and is plain. -/
theorem uniqueName_fresh (h : Plain filename) :
    U.casefold (uniqueName U names filename) ∉ names ∧ Plain (uniqueName U names filename) :=
  ⟨rename_fresh (uniqueName_eq h), rename_plain (plain_splitext h).1 (plain_splitext h).2 h (uniqueName_eq h)⟩

end Renaming

/-! ## Safe names -/

section Safe

variable {U : Unicode} {s t x e : List Char}

theorem dashed_plain (s : List Char) (inRun : Bool) : Plain (dashed inRun s) := by
  induction s generalizing inRun with
  | nil => exact fun c hc => nomatch hc
  | cons d s ih =>
    rw [dashed]
    split_ifs with hd hrun
    · exact List.forall_mem_cons.2 ⟨hd, ih false⟩
    · exact ih true
    · exact List.forall_mem_cons.2 ⟨rfl, ih true⟩

theorem mem_rstrip {p : Char → Bool} {c : Char} (h : c ∈ rstrip p s) : c ∈ s :=
  List.mem_reverse.1 ((List.dropWhile_sublist p).subset (List.mem_reverse.1 h))

/-- lower case changes letters into letters only -/
theorem toLower_cases (c : Char) : c.toLower = c ∨ c.isAlphanum = true ∧ c.toLower.isAlphanum = true := by
  by_cases hu : c.isUpper = true
  · right
    have hlower : c.toLower.isAlphanum = true := by
      have hbound : 65 ≤ c.toNat ∧ c.toNat ≤ 90 := by
        have hrange : decide (c.val ≥ 65 ∧ c.val ≤ 90) = true := hu
        simpa [UInt32.le_iff_toNat_le] using hrange
      have hc : c = Char.ofNat c.toNat := (Char.ofNat_toNat c).symm
      generalize c.toNat = n at hbound hc
      subst hc
      obtain ⟨h1, h2⟩ := hbound
      interval_cases n <;> decide
    have halphanum : ((c.isUpper || c.isLower) || c.isDigit) = true := by rw [hu, Bool.true_or, Bool.true_or]
    exact ⟨halphanum, hlower⟩
  · left
    refine dif_neg fun h => hu ?_
    show decide (c.val ≥ 65 ∧ c.val ≤ 90) = true
    simpa [UInt32.le_iff_toNat_le] using h

theorem toLower_plain {c : Char} (h : isPlain c = true) : isPlain c.toLower = true := by
  rcases toLower_cases c with hc | ⟨-, hc⟩
  · rwa [hc]
  · exact isPlain_of_alphanum hc

/-- in ASCII, lower case is the lower case of the letters -/
theorem lowerChars_ascii (h : ∀ c ∈ s, c.toNat < 128) : lowerChars s = s.map Char.toLower := by
  refine Ingress.lowerChars_map fun c hc => ?_
  have := h c hc
  omega

theorem lowerChars_plain (h : Plain s) : Plain (lowerChars s) := by
  rw [lowerChars_ascii fun c hc => isPlain_ascii (h c hc)]
  intro c hc
  obtain ⟨d, hd, rfl⟩ := List.mem_map.1 hc
  exact toLower_plain (h d hd)

/-- **A safe name is plain.** -/
theorem safeAttachmentName_plain (U : Unicode) (name : List Char) : Plain (safeAttachmentName U name) := by
  have hdeliverable : Plain deliverable := by decide
  unfold safeAttachmentName
  extract_lets normalized extension stem stem'
  have hnormalized : Plain normalized := by
    intro c hc
    simp only [normalized] at hc
    split_ifs at hc
    · exact hdeliverable c hc
    · exact dashed_plain _ _ c ((List.dropWhile_sublist _).subset (mem_rstrip hc))
  intro c hc
  rcases List.mem_append.1 (List.mem_of_mem_take hc) with hc | hc
  · have hc := List.mem_of_mem_take (mem_rstrip hc)
    split_ifs at hc
    · exact hdeliverable c hc
    · exact (plain_splitext hnormalized).1 c hc
  · exact lowerChars_plain (plain_splitext hnormalized).2 c (List.mem_of_mem_take hc)

/-! ### Where the extension goes -/

theorem dashed_eq (he : Plain e) : dashed false e = e := by
  induction e with
  | nil => rfl
  | cons d e ih => rw [dashed, if_pos (he d List.mem_cons_self), ih fun c hc => he c (List.mem_cons_of_mem _ hc)]

theorem dashed_append (he : Plain e) (inRun : Bool) : dashed inRun (x ++ '.' :: e) = dashed inRun x ++ '.' :: e := by
  induction x generalizing inRun with
  | nil => simp [dashed, isPlain, dashed_eq he]
  | cons d x ih =>
    rw [List.cons_append, dashed, dashed]
    split_ifs <;> simp [ih]

/-- letters and digits stay -/
theorem dashed_any (s : List Char) (inRun : Bool) :
    (dashed inRun s).any Char.isAlphanum = s.any Char.isAlphanum := by
  induction s generalizing inRun with
  | nil => rfl
  | cons d s ih =>
    have hdash : ('-' : Char).isAlphanum = false := rfl
    rw [dashed]
    split_ifs with hd hrun
    · simp [ih]
    · have hnot : d.isAlphanum = false := by
        by_contra h
        exact hd (isPlain_of_alphanum (by simpa using h))
      simp [ih, hnot]
    · have hnot : d.isAlphanum = false := by
        by_contra h
        exact hd (isPlain_of_alphanum (by simpa using h))
      simp [ih, hnot, hdash]

/-- a plain character is stripped unless it is a letter or a digit -/
theorem isEdge_iff {c : Char} (h : isPlain c = true) : isEdge c = !c.isAlphanum := by
  simp only [isPlain, Bool.or_eq_true, decide_eq_true_eq] at h
  rcases h with ((h | rfl) | rfl) | rfl
  · rw [h]
    have hne : ∀ d : Char, d.isAlphanum = false → c ≠ d := fun d hd hcd => by rw [hcd, hd] at h; cases h
    simp [isEdge, hne '.' rfl, hne '-' rfl, hne '_' rfl]
  · rfl
  · rfl
  · rfl

/-- a name of plain characters that starts or ends with a letter or a digit -/
theorem rstrip_last {a : Char} (ha : a.isAlphanum = true) : rstrip isEdge (s ++ [a]) = s ++ [a] := by
  have hedge : isEdge a = false := by rw [isEdge_iff (isPlain_of_alphanum ha), ha]; rfl
  simp [rstrip, hedge]

theorem rstrip_first {a : Char} (ha : a.isAlphanum = true) : ∃ t, rstrip isEdge (a :: s) = a :: t := by
  have hedge : isEdge a = false := by rw [isEdge_iff (isPlain_of_alphanum ha), ha]; rfl
  rw [rstrip, List.reverse_cons, List.dropWhile_append]
  split_ifs
  · exact ⟨[], by simp [hedge]⟩
  · exact ⟨(s.reverse.dropWhile isEdge).reverse, by simp⟩

end Safe

/-! ## Supported extensions -/

/-- the mail program finds an extension at the end of the filename that stands for the content type -/
def Opens (filename : List Char) (contentType : String) : Prop :=
  ∃ t ∈ attachmentTypes, t.2 = contentType ∧ t.1.toList <:+ filename

/-- every extension is a dot and a few letters and digits, which no other characters have for lower case -/
theorem attachmentTypes_plain : ∀ t ∈ attachmentTypes, t.1.toList.head? = some '.' ∧ t.1.toList.tail ≠ [] ∧
    t.1.toList.length ≤ 5 ∧ (∀ c ∈ t.1.toList.tail, c.isAlphanum = true) ∧ 'k' ∉ t.1.toList ∧ '̇' ∉ t.1.toList := by
  decide

/-- a supported extension: how it was written, and the type it stands for -/
structure Supported (e : List Char) (contentType : String) : Prop where
  letters : ∀ c ∈ e, c.isAlphanum = true
  ne_nil : e ≠ []
  short : e.length ≤ 4
  listed : ∃ t ∈ attachmentTypes, t.2 = contentType ∧ t.1.toList = lowerChars ('.' :: e)

theorem Supported.plain {e : List Char} {contentType : String} (h : Supported e contentType) : Plain e :=
  fun c hc => isPlain_of_alphanum (h.letters c hc)

theorem not_slash_dot {c : Char} (h : c.isAlphanum = true) : c ≠ '.' ∧ c ≠ '/' := by
  constructor
  · rintro rfl
    cases h
  · rintro rfl
    cases h

/-- a name with a supported extension -/
theorem supported_of_type {name : List Char} {contentType : String}
    (h : typeOf (extensionOf name) = some contentType) :
    ∃ x e, name = x ++ '.' :: e ∧ splitext name = (x, '.' :: e) ∧ Supported e contentType := by
  obtain ⟨t, hfind, rfl⟩ := Option.map_eq_some_iff.1 h
  have hmem := List.mem_of_find?_eq_some hfind
  have hext : t.1.toList = extensionOf name := by simpa using List.find?_some hfind
  obtain ⟨hhead, htail, hshort, hletters, hk, hi⟩ := attachmentTypes_plain t hmem
  rcases splitext_cases name with hsplit | ⟨x, e, hname, hsplit, -⟩
  · rw [extensionOf, hsplit] at hext
    rw [hext] at hhead
    cases hhead
  · refine ⟨x, e, hname, hsplit, ?_⟩
    rw [extensionOf, hsplit] at hext
    -- no other characters have these for lower case
    have hnames : ('.' :: e).map Char.toLower = t.1.toList := Ingress.names_of_lower hext.symm hk hi
    have htails : e.map Char.toLower = t.1.toList.tail := by rw [← hnames]; rfl
    refine ⟨fun c hc => ?_, ?_, ?_, t, hmem, rfl, hext⟩
    · have hlower := hletters c.toLower (htails ▸ List.mem_map_of_mem hc)
      rcases toLower_cases c with hc' | ⟨hc', -⟩
      · rwa [hc'] at hlower
      · exact hc'
    · rintro rfl
      exact htail htails.symm
    · have hlen := congrArg List.length hnames
      rw [List.length_map, List.length_cons] at hlen
      omega

section Kept

variable {U : Unicode} {names : List (List Char)} {name x e y : List Char} {a : Char} {contentType : String}

theorem filter_any (s : List Char) : (s.filter fun c => c.toNat < 128).any Char.isAlphanum = s.any Char.isAlphanum := by
  rw [List.any_filter]
  refine congrArg (fun p => s.any p) (funext fun c => ?_)
  cases h : c.isAlphanum with
  | false => simp
  | true => simp [alphanum_ascii h]

/-- the name as far as the ends are not stripped yet -/
theorem dashed_name (he : Supported e contentType) :
    dashed false ((U.nfkd (x ++ '.' :: e)).filter fun c => c.toNat < 128) =
      dashed false ((U.nfkd x).filter fun c => c.toNat < 128) ++ '.' :: e := by
  have hascii : ∀ c ∈ '.' :: e, c.toNat < 128 := by
    intro c hc
    rcases List.mem_cons.1 hc with rfl | hc
    · decide
    · exact isPlain_ascii (he.plain c hc)
  rw [U.nfkd_append x _ hascii, List.filter_append, List.filter_eq_self.2 fun c hc => decide_eq_true (hascii c hc),
    dashed_append he.plain]

theorem rstrip_extension (he : Supported e contentType) (s : List Char) : rstrip isEdge (s ++ e) = s ++ e := by
  rcases List.eq_nil_or_concat' e with rfl | ⟨e', b, rfl⟩
  · exact absurd rfl he.ne_nil
  · rw [← List.append_assoc]
    exact rstrip_last (he.letters b (by simp))

/-- a letter or a digit of the stem is left: so is the dot -/
theorem normalize_kept (he : Supported e contentType) (hx : (U.nfkd x).any Char.isAlphanum = true) :
    ∃ a y, a.isAlphanum = true ∧ Plain y ∧ normalize U (x ++ '.' :: e) = (a :: y) ++ '.' :: e := by
  have hany : (dashed false ((U.nfkd x).filter fun c => c.toNat < 128)).any Char.isAlphanum = true := by
    rw [dashed_any, filter_any, hx]
  rw [normalize, dashed_name he, List.dropWhile_append]
  have hplain := dashed_plain ((U.nfkd x).filter fun c => c.toNat < 128) false
  generalize dashed false ((U.nfkd x).filter fun c => c.toNat < 128) = d at hany hplain
  cases hd : d.dropWhile isEdge with
  | nil =>
    obtain ⟨c, hc, hletter⟩ := List.any_eq_true.1 hany
    have hedge := List.dropWhile_eq_nil_iff.1 hd c hc
    rw [isEdge_iff (hplain c hc), hletter] at hedge
    cases hedge
  | cons a y =>
    have hsub : a :: y ⊆ d := hd ▸ (List.dropWhile_sublist isEdge).subset
    have ha : isEdge a = false := by
      have hne : d.dropWhile isEdge ≠ [] := by simp [hd]
      have hhead := List.head_dropWhile_not isEdge hne
      simpa [hd] using hhead
    have hletter : a.isAlphanum = true := by
      rw [isEdge_iff (hplain a (hsub List.mem_cons_self))] at ha
      simpa using ha
    refine ⟨a, y, hletter, fun c hc => hplain c (hsub (List.mem_cons_of_mem a hc)), ?_⟩
    have hsplit : a :: y ++ '.' :: e = (a :: y ++ ['.']) ++ e := by simp
    rw [if_neg (by simp), hsplit, rstrip_extension he]

/-- none is left: the dot goes too -/
theorem normalize_lost (he : Supported e contentType) (hx : (U.nfkd x).any Char.isAlphanum = false) :
    normalize U (x ++ '.' :: e) = e := by
  have hnone : (dashed false ((U.nfkd x).filter fun c => c.toNat < 128)).any Char.isAlphanum = false := by
    rw [dashed_any, filter_any, hx]
  have hall : (dashed false ((U.nfkd x).filter fun c => c.toNat < 128)).dropWhile isEdge = [] := by
    rw [List.dropWhile_eq_nil_iff]
    intro c hc
    rw [isEdge_iff (dashed_plain _ _ c hc), (by simpa using hnone : ∀ c ∈ _, c.isAlphanum = false) c hc]
    rfl
  have hdot : ('.' :: e).dropWhile isEdge = e := by
    obtain ⟨b, e', rfl⟩ := List.exists_cons_of_ne_nil he.ne_nil
    have hb : isEdge b = false := by
      rw [isEdge_iff (he.plain b List.mem_cons_self), he.letters b List.mem_cons_self]
      rfl
    rw [List.dropWhile_cons_of_pos rfl, List.dropWhile_cons_of_neg (by simp [hb])]
  rw [normalize, dashed_name he, List.dropWhile_append, hall, List.isEmpty_nil, if_pos rfl, hdot]
  exact rstrip_extension he []

theorem afterSlash_plain (h : Plain x) : afterSlash x = x := by
  have hslash : ∀ c ∈ x, c ≠ '/' := by
    rintro c hc rfl
    cases h '/' hc
  exact takeWhile_reverse_all hslash

/-- a stem that starts with a letter or a digit keeps the extension -/
theorem splitext_letter (he : ∀ c ∈ e, c.isAlphanum = true) (ha : a.isAlphanum = true) (hy : Plain y) :
    splitext ((a :: y) ++ '.' :: e) = (a :: y, '.' :: e) := by
  refine splitext_append (fun c hc => not_slash_dot (he c hc)) ?_
  rw [afterSlash_plain (List.forall_mem_cons.2 ⟨isPlain_of_alphanum ha, hy⟩)]
  simp [(not_slash_dot ha).1]

/-- the extension in lower case -/
theorem lower_extension (he : Supported e contentType) :
    ∃ e', lowerChars ('.' :: e) = '.' :: e' ∧ (∀ c ∈ e', c.isAlphanum = true) ∧ e'.length ≤ 4 := by
  refine ⟨e.map Char.toLower, ?_, fun c hc => ?_, by simpa using he.short⟩
  · rw [lowerChars_ascii]
    · rfl
    · intro c hc
      rcases List.mem_cons.1 hc with rfl | hc
      · decide
      · exact isPlain_ascii (he.plain c hc)
  · obtain ⟨d, hd, rfl⟩ := List.mem_map.1 hc
    rcases toLower_cases d with hd' | ⟨-, hd'⟩
    · rw [hd']
      exact he.letters d hd
    · exact hd'

/-- what is put together from a stem and an extension -/
theorem safe_eq {stem ext : List Char} (hn : normalize U name = y) (hy : y ≠ []) (hsplit : splitext y = (stem, ext))
    (hstem : stem ≠ []) :
    safeAttachmentName U name = (rstrip isEdge (stem.take 80) ++ (lowerChars ext).take 10).take 96 := by
  simp only [safeAttachmentName, extensionOf, hn, hy, hsplit, hstem, if_false]

/-- with its dot, the extension ends the safe name -/
theorem safe_kept (he : Supported e contentType) (ha : a.isAlphanum = true) (hy : Plain y)
    (hn : normalize U name = (a :: y) ++ '.' :: e) :
    ∃ z, Plain z ∧ safeAttachmentName U name = (a :: z) ++ lowerChars ('.' :: e) := by
  obtain ⟨e', hlower, -, hlen⟩ := lower_extension he
  obtain ⟨z, hz⟩ := rstrip_first (s := y.take 79) ha
  have hplain : Plain z := by
    intro c hc
    have hmem : c ∈ a :: y.take 79 := mem_rstrip (hz ▸ List.mem_cons_of_mem a hc)
    rcases List.mem_cons.1 hmem with rfl | hmem
    · exact isPlain_of_alphanum ha
    · exact hy c (List.mem_of_mem_take hmem)
  have hzlen : z.length ≤ 79 := by
    have hle : (a :: z).length ≤ (a :: y.take 79).length := by
      rw [← hz, rstrip, List.length_reverse, ← @List.length_reverse _ (a :: y.take 79)]
      exact (List.dropWhile_sublist _).length_le
    simp only [List.length_cons, List.length_take] at hle
    omega
  refine ⟨z, hplain, ?_⟩
  rw [safe_eq hn (by simp) (splitext_letter he.letters ha hy) (by simp), hlower, List.take_succ_cons, hz,
    List.take_of_length_le (by rw [List.length_cons]; omega : ('.' :: e').length ≤ 10), List.take_of_length_le]
  simp only [List.length_append, List.length_cons]
  omega

/-- without its dot, it is all of the safe name -/
theorem safe_lost (he : Supported e contentType) (hn : normalize U name = e) : safeAttachmentName U name = e := by
  have hshort := he.short
  have hdot : '.' ∉ e := fun h => (not_slash_dot (he.letters '.' h)).1 rfl
  have hnone : lowerChars [] = [] := lowerChars_ascii fun c hc => nomatch hc
  have hstrip : rstrip isEdge e = e := rstrip_extension he []
  rw [safe_eq hn he.ne_nil (splitext_plain hdot) he.ne_nil, hnone, List.take_nil, List.append_nil,
    List.take_of_length_le (by omega : e.length ≤ 80), hstrip, List.take_of_length_le (by omega)]

end Kept

theorem uniqueName_opens (U : Unicode) (names : List (List Char)) (name : List Char) {contentType : String}
    (h : typeOf (extensionOf name) = some contentType) :
    Opens (uniqueName U names (safeAttachmentName U name)) contentType ↔
      (U.nfkd (splitext name).1).any Char.isAlphanum = true := by
  obtain ⟨x, e, rfl, hsplit, he⟩ := supported_of_type h
  rw [hsplit]
  have hunique := rename_cases (@uniqueName_eq U names _ (safeAttachmentName_plain U (x ++ '.' :: e)))
  cases hx : (U.nfkd x).any Char.isAlphanum with
  | true =>
    refine iff_of_true ?_ rfl
    obtain ⟨a, y, ha, hy, hn⟩ := normalize_kept he hx
    obtain ⟨z, hz, hsafe⟩ := safe_kept he ha hy hn
    obtain ⟨e', hlower, hletters, -⟩ := lower_extension he
    obtain ⟨t, ht, htype, htext⟩ := he.listed
    refine ⟨t, ht, htype, ?_⟩
    rw [htext]
    rw [hsafe, hlower, splitext_letter hletters ha hz] at hunique
    rw [hsafe, hlower]
    rcases hunique with hsame | ⟨k, hnumbered⟩
    · rw [hsame]
      exact List.suffix_append _ _
    · rw [hnumbered, numbered]
      exact ⟨(a :: z).take 72 ++ '-' :: Nat.toDigits 10 k, by simp⟩
  | false =>
    refine iff_of_false ?_ (by decide)
    rw [safe_lost he (normalize_lost he hx), splitext_plain fun hdot => (not_slash_dot (he.letters '.' hdot)).1 rfl] at hunique
    rw [safe_lost he (normalize_lost he hx)]
    rintro ⟨t, ht, -, hsuffix⟩
    have hdot : '.' ∈ t.1.toList := List.mem_of_mem_head? (attachmentTypes_plain t ht).1
    have hmem := hsuffix.subset hdot
    rcases hunique with hsame | ⟨k, hnumbered⟩
    · rw [hsame] at hmem
      exact (not_slash_dot (he.letters '.' hmem)).1 rfl
    · rw [hnumbered, numbered] at hmem
      simp only [List.mem_append, List.mem_cons, List.not_mem_nil, or_false] at hmem
      rcases hmem with hmem | hmem | hmem
      · exact (not_slash_dot (he.letters '.' (List.mem_of_mem_take hmem))).1 rfl
      · cases hmem
      · cases isDigit_of_toDigits hmem

/-- **Names that open.** For a file with a supported extension, whatever its stem and whatever names are taken, the
attachment's name ends in an extension for its content type exactly when the stem, decomposed, has a letter or a digit of
ASCII. -/
theorem opens_iff (U : Unicode) (names : List (List Char)) (name : List Char) {contentType : String}
    (h : typeOf (extensionOf name) = some contentType) :
    Opens (uniqueName U names (safeAttachmentName U name)) contentType ↔
      (U.nfkd (splitext name).1).any Char.isAlphanum = true :=
  uniqueName_opens U names name h

/-- no decomposition, and the case of ASCII: enough for the names below -/
def sampleUnicode : Unicode where
  nfkd := id
  casefold := fun s => s.map Char.toLower
  nfkd_append := fun _ _ _ => rfl
  casefold_ascii := fun _ _ => rfl

/-- a second `final-report.pdf` keeps its extension -/
theorem opens_iff_sample :
    uniqueName sampleUnicode ["final-report.pdf".toList] (safeAttachmentName sampleUnicode "Final Report.PDF".toList) =
      "Final-Report-2.pdf".toList ∧
    Opens (uniqueName sampleUnicode ["final-report.pdf".toList]
      (safeAttachmentName sampleUnicode "Final Report.PDF".toList)) "application/pdf" :=
  ⟨by decide,
    (opens_iff sampleUnicode ["final-report.pdf".toList] "Final Report.PDF".toList (by decide)).2
      (by decide)⟩

/-- **A name in kanji** comes out as `pdf`, without a dot. -/
theorem stemless : typeOf (extensionOf "報告.pdf".toList) = some "application/pdf" ∧
    uniqueName sampleUnicode [] (safeAttachmentName sampleUnicode "報告.pdf".toList) = "pdf".toList ∧
    ¬ Opens (uniqueName sampleUnicode [] (safeAttachmentName sampleUnicode "報告.pdf".toList)) "application/pdf" := by
  refine ⟨by decide, by decide, ?_⟩
  unfold Opens
  decide

end Rally.Attachments
