/-
The verdict on an `Authentication-Results` value (`_auth_property`, `_auth_domain`, `_aligned_domain` and the part of
`_email_authenticates` after the header is found, in `src/ingress.py`), and what its scans find.

Texts are lists of characters. `re.IGNORECASE` takes four characters outside ASCII for letters (`foldCase`); which
characters outside ASCII belong to words is left open.

- `authResult_iff`: the pattern of a result reads the grammar `Resinfo`, with the longest keyword that ends at a word
  boundary as its outcome.
- `places_stand`: a property is read where its name stands, apart from other names, before `=` and its value.
- `emailAuthenticates`: the verdict.
-/
import Mathlib.Data.List.TakeWhile
import Rally.Ingress.Lexical

namespace Rally.Ingress

open Py

/-! ## Characters -/

/-- the letter a character counts as under `re.IGNORECASE` -/
def foldCase (c : Char) : Char :=
  match c.toNat with
  | 0x130 => 'i'
  | 0x131 => 'i'
  | 0x17f => 's'
  | 0x212a => 'k'
  | _ => c.toLower

/-- `[a-z]` under `re.IGNORECASE` -/
def isLetter (c : Char) : Bool :=
  c.isAlpha || c.toNat = 0x130 || c.toNat = 0x131 || c.toNat = 0x17f || c.toNat = 0x212a

/-- `[a-z0-9_-]` -/
def isNameChar (c : Char) : Bool := isLetter c || c.isDigit || c = '_' || c = '-'

/-- `\w`, given which characters outside ASCII it holds -/
def isWord (u : Char → Bool) (c : Char) : Bool := if c.toNat < 128 then c.isAlphanum || c = '_' else u c

/-- `\b` between a character and the next one -/
def boundary (u : Char → Bool) (c : Char) (next : Option Char) : Bool :=
  isWord u c != (next.map (isWord u)).getD false

/-- `s.lower()`, exact for comparison with an ASCII word -/
def lowerChars (s : List Char) : List Char := (lower (String.ofList s)).toList

/-- a word up to the case of its ASCII letters -/
def Names (s : List Char) (word : String) : Prop := s.map Char.toLower = word.toList

instance (s : List Char) (word : String) : Decidable (Names s word) := decEq _ _

/-! ## Results -/

/-- the longest keyword at the front that ends at a word boundary, and what follows -/
def keyword (u : Char → Bool) : List Char → Option (List Char × List Char)
  | [] => none
  | c :: s =>
    if isNameChar c then
      match keyword u s with
      | some (word, rest) => some (c :: word, rest)
      | none => if boundary u c s.head? then some ([c], s) else none
    else none

/-- `(?:/[0-9]+)?` -/
def afterVersion : List Char → Option (List Char)
  | '/' :: s => if (s.head?.map Char.isDigit).getD false then some (s.dropWhile Char.isDigit) else none
  | s => some s

/-- a method's result: the method, its outcome and the details -/
structure Result where
  method : List Char
  outcome : List Char
  details : List Char
deriving DecidableEq

/-- starts with a letter -/
def startsName (s : List Char) : Bool := (s.head?.map isLetter).getD false

/-- `AUTH_RESULT.fullmatch` -/
def authResult (u : Char → Bool) (segment : List Char) : Option Result :=
  if startsName segment then
    match afterVersion (segment.dropWhile isNameChar) with
    | none => none
    | some s =>
      match s.dropWhile isSpace with
      | '=' :: s =>
        if startsName (s.dropWhile isSpace) then
          match keyword u (s.dropWhile isSpace) with
          | some (outcome, details) =>
            if '\n' ∈ details then none else some ⟨segment.takeWhile isNameChar, outcome, details⟩
          | none => none
        else none
      | _ => none
  else none

/-- a word ends at a word boundary -/
def Ends (u : Char → Bool) (word rest : List Char) : Prop := ∃ c ∈ word.getLast?, boundary u c rest.head? = true

/-- the longest keyword at the front of a text that ends at a word boundary -/
structure Keyword (u : Char → Bool) (word rest : List Char) : Prop where
  name : ∀ c ∈ word, isNameChar c = true
  ends : Ends u word rest
  longest : ∀ more rest', rest = more ++ rest' → more ≠ [] → (∀ c ∈ more, isNameChar c = true) →
    ¬ Ends u (word ++ more) rest'

/-- `method[/version] = outcome details` -/
structure Resinfo (u : Char → Bool) (segment : List Char) (r : Result) : Prop where
  shape : ∃ version a b, segment = r.method ++ (version ++ (a ++ '=' :: (b ++ (r.outcome ++ r.details)))) ∧
    (version = [] ∨ ∃ ds, version = '/' :: ds ∧ ds ≠ [] ∧ ∀ c ∈ ds, c.isDigit = true) ∧
    (∀ c ∈ a, isSpace c = true) ∧ ∀ c ∈ b, isSpace c = true
  method : startsName r.method = true ∧ ∀ c ∈ r.method, isNameChar c = true
  outcome : startsName r.outcome = true ∧ Keyword u r.outcome r.details
  line : '\n' ∉ r.details

/-! ### Keywords -/

theorem Ends.ne_nil {u : Char → Bool} {word rest : List Char} (h : Ends u word rest) : word ≠ [] := by
  obtain ⟨c, hc, -⟩ := h
  intro hnil
  rw [hnil] at hc
  cases hc

theorem ends_cons {u : Char → Bool} {c : Char} {word rest : List Char} (hne : word ≠ []) :
    Ends u (c :: word) rest ↔ Ends u word rest := by
  obtain ⟨d, ds, rfl⟩ := List.exists_cons_of_ne_nil hne
  unfold Ends
  rw [List.getLast?_cons_cons]

/-- no keyword at the front ends at a word boundary -/
theorem keyword_none {u : Char → Bool} {s : List Char} (h : keyword u s = none) {word rest : List Char}
    (hs : s = word ++ rest) (hname : ∀ c ∈ word, isNameChar c = true) : ¬ Ends u word rest := by
  induction s generalizing word with
  | nil =>
    intro hends
    exact hends.ne_nil (List.append_eq_nil_iff.1 hs.symm).1
  | cons c s ih =>
    intro hends
    obtain ⟨d, ds, rfl⟩ := List.exists_cons_of_ne_nil hends.ne_nil
    obtain ⟨rfl, rfl⟩ := List.cons.inj hs
    rw [keyword, if_pos (hname c (by simp))] at h
    split at h
    · cases h
    · rename_i hnone
      cases ds with
      | nil =>
        obtain ⟨e, he, hb⟩ := hends
        obtain rfl : c = e := by simpa using he
        have h' : (if boundary u c rest.head? = true then some ([c], rest) else none) = none := h
        rw [if_pos hb] at h'
        cases h'
      | cons e ds =>
        exact ih hnone rfl (fun x hx => hname x (by simp [hx])) ((ends_cons (by simp)).1 hends)

theorem keyword_spec {u : Char → Bool} {s word rest : List Char} (h : keyword u s = some (word, rest)) :
    s = word ++ rest ∧ Keyword u word rest := by
  induction s generalizing word rest with
  | nil => cases h
  | cons c s ih =>
    rw [keyword] at h
    split at h
    · rename_i hc
      split at h
      · rename_i w r hw
        obtain ⟨rfl, rfl⟩ := Prod.mk.inj (Option.some.inj h)
        obtain ⟨rfl, hk⟩ := ih hw
        refine ⟨rfl, ⟨?_, (ends_cons hk.ends.ne_nil).2 hk.ends, ?_⟩⟩
        · intro x hx
          rcases List.mem_cons.1 hx with rfl | hx
          · exact hc
          · exact hk.name x hx
        · intro more rest' hr hne hm hends
          exact hk.longest more rest' hr hne hm ((ends_cons (by simp [hne])).1 hends)
      · rename_i hnone
        split at h
        · rename_i hb
          obtain ⟨rfl, rfl⟩ := Prod.mk.inj (Option.some.inj h)
          refine ⟨rfl, ⟨by simpa using hc, ⟨c, by simp, hb⟩, ?_⟩⟩
          intro more rest' hr hne hm hends
          exact keyword_none hnone hr hm ((ends_cons hne).1 hends)
        · cases h
    · cases h

/-- a text has one longest keyword -/
theorem Keyword.unique {u : Char → Bool} {w r w' r' : List Char} (h : Keyword u w r) (h' : Keyword u w' r')
    (heq : w ++ r = w' ++ r') : w = w' ∧ r = r' := by
  rcases List.append_eq_append_iff.1 heq with ⟨more, hw, hr⟩ | ⟨more, hw, hr⟩
  · by_cases hne : more = []
    · subst hne
      simp_all
    · refine absurd ?_ (h.longest more r' hr hne fun c hc => h'.name c (by simp [hw, hc]))
      rw [← hw]
      exact h'.ends
  · by_cases hne : more = []
    · subst hne
      simp_all
    · refine absurd ?_ (h'.longest more r hr hne fun c hc => h.name c (by simp [hw, hc]))
      rw [← hw]
      exact h.ends

theorem keyword_iff {u : Char → Bool} {s word rest : List Char} :
    keyword u s = some (word, rest) ↔ s = word ++ rest ∧ Keyword u word rest := by
  constructor
  · exact keyword_spec
  · rintro ⟨rfl, hk⟩
    cases h : keyword u (word ++ rest) with
    | none => exact absurd hk.ends (keyword_none h rfl hk.name)
    | some p =>
      obtain ⟨heq, hk'⟩ := keyword_spec h
      obtain ⟨h1, h2⟩ := hk.unique hk' heq
      rw [h1, h2]

/-! ### The pattern of a result -/

/-- a run of characters before one that does not belong to it -/
theorem span_append {p : Char → Bool} {run rest : List Char} (hrun : ∀ c ∈ run, p c = true)
    (hrest : ∀ c ∈ rest.head?, p c = false) : (run ++ rest).takeWhile p = run ∧ (run ++ rest).dropWhile p = rest := by
  rw [List.takeWhile_append_of_pos hrun, List.dropWhile_append_of_pos hrun]
  cases rest with
  | nil => simp
  | cons c rest => simp [hrest c (by simp)]

theorem head_dropWhile {p : Char → Bool} (s : List Char) : ∀ c ∈ (s.dropWhile p).head?, p c = false := by
  induction s with
  | nil => simp
  | cons c s ih =>
    by_cases hc : p c = true
    · simpa [hc] using ih
    · simp [hc]

theorem afterVersion_iff {s rest : List Char} : afterVersion s = some rest ↔
    (s = rest ∧ s.head? ≠ some '/') ∨ ∃ ds, s = '/' :: (ds ++ rest) ∧ ds ≠ [] ∧ (∀ c ∈ ds, c.isDigit = true) ∧
      ∀ c ∈ rest.head?, c.isDigit = false := by
  unfold afterVersion
  split
  · rename_i s
    constructor
    · intro h
      split_ifs at h with hd
      obtain rfl := Option.some.inj h
      refine .inr ⟨s.takeWhile Char.isDigit, by rw [List.takeWhile_append_dropWhile], ?_, ?_, head_dropWhile s⟩
      · cases s with
        | nil => simp at hd
        | cons c s =>
          have hc : c.isDigit = true := by simpa using hd
          simp [hc]
      · exact fun c hc => List.mem_takeWhile_imp hc
    · rintro (⟨-, hne⟩ | ⟨ds, hs, hne, hds, hrest⟩)
      · simp at hne
      · obtain rfl := (List.cons.inj hs).2
        obtain ⟨c, cs, rfl⟩ := List.exists_cons_of_ne_nil hne
        rw [if_pos (by simp [hds c]), (span_append hds hrest).2]
  · rename_i hns
    constructor
    · intro h
      refine .inl ⟨Option.some.inj h, fun hhead => ?_⟩
      obtain ⟨t, ht⟩ := List.head?_eq_some_iff.1 hhead
      exact hns t ht
    · rintro (⟨rfl, -⟩ | ⟨ds, rfl, -, -, -⟩)
      · rfl
      · exact absurd rfl (hns _)

theorem space_not_name {c : Char} (h : isSpace c = true) : isNameChar c = false := by
  have hn : c.val.toNat = c.toNat := rfl
  have hdash : c = '-' ↔ c.toNat = 45 := by rw [← Char.toNat_inj]; rfl
  have hline : c = '_' ↔ c.toNat = 95 := by rw [← Char.toNat_inj]; rfl
  simp only [isSpace, Bool.or_eq_true, Bool.and_eq_true, decide_eq_true_eq] at h
  unfold isNameChar isLetter
  delta Char.isAlpha Char.isUpper Char.isLower Char.isDigit
  simp only [Bool.or_eq_false_iff, Bool.and_eq_false_iff, decide_eq_false_iff_not, hdash, hline, ge_iff_le, UInt32.le_iff_toNat_le, hn]
  simp
  omega

/-- what follows a method's name in a result does not go on with the name -/
theorem head_after_method {version a t : List Char}
    (hv : version = [] ∨ ∃ ds, version = '/' :: ds ∧ ds ≠ [] ∧ ∀ c ∈ ds, c.isDigit = true)
    (ha : ∀ c ∈ a, isSpace c = true) :
    ∀ c ∈ (version ++ (a ++ '=' :: t)).head?, isNameChar c = false := by
  intro c hc
  rcases hv with rfl | ⟨ds, rfl, -, -⟩
  · cases a with
    | nil =>
      obtain rfl : '=' = c := by simpa using hc
      decide
    | cons x a =>
      obtain rfl : x = c := by simpa using hc
      exact space_not_name (ha x (by simp))
  · obtain rfl : '/' = c := by simpa using hc
    decide

theorem startsName_append {s t : List Char} (h : startsName s = true) : startsName (s ++ t) = true := by
  cases s with
  | nil => cases h
  | cons c s => exact h

/-- a name does not start with a blank -/
theorem head_not_space {s t : List Char} (h : startsName s = true) : ∀ c ∈ (s ++ t).head?, isSpace c = false := by
  intro c hc
  cases s with
  | nil => cases h
  | cons d s =>
    obtain rfl : d = c := by simpa using hc
    have hd : isLetter d = true := by simpa [startsName] using h
    by_contra hs
    have hno := space_not_name (by simpa using hs : isSpace d = true)
    simp [isNameChar, hd] at hno

theorem head_blanks_equals {a t : List Char} (ha : ∀ c ∈ a, isSpace c = true) :
    ∀ c ∈ (a ++ '=' :: t).head?, c ≠ '/' ∧ c.isDigit = false := by
  intro c hc
  cases a with
  | nil =>
    obtain rfl : '=' = c := by simpa using hc
    decide
  | cons x a =>
    obtain rfl : x = c := by simpa using hc
    have hno := space_not_name (ha x (by simp))
    refine ⟨?_, ?_⟩
    · rintro rfl
      exact absurd (ha '/' (by simp)) (by decide)
    · simp only [isNameChar, Bool.or_eq_false_iff] at hno
      exact hno.1.1.2

theorem authResult_iff {u : Char → Bool} {segment : List Char} {r : Result} :
    authResult u segment = some r ↔ Resinfo u segment r := by
  constructor
  · intro h
    unfold authResult at h
    split_ifs at h with hstart
    split at h
    · cases h
    rename_i s hs
    split at h
    swap
    · cases h
    rename_i s' hs'
    split_ifs at h with hout
    split at h
    swap
    · cases h
    rename_i outcome details hk
    split_ifs at h with hline
    obtain rfl := Option.some.inj h
    obtain ⟨hsplit, hkey⟩ := keyword_iff.1 hk
    have hend : s = s.takeWhile isSpace ++ '=' :: (s'.takeWhile isSpace ++ (outcome ++ details)) := by
      rw [← hsplit, List.takeWhile_append_dropWhile, ← hs', List.takeWhile_append_dropWhile]
    have hout' : startsName outcome = true := by
      rw [hsplit] at hout
      obtain ⟨c, cs, rfl⟩ := List.exists_cons_of_ne_nil hkey.ends.ne_nil
      exact hout
    have hmethod : startsName (segment.takeWhile isNameChar) = true := by
      cases segment with
      | nil => cases hstart
      | cons c cs =>
        have hc : isLetter c = true := hstart
        simp [startsName, isNameChar, hc]
    have hblank : ∀ t : List Char, ∀ c ∈ t.takeWhile isSpace, isSpace c = true :=
      fun t c hc => List.mem_takeWhile_imp hc
    refine ⟨?_, ⟨hmethod, fun c hc => List.mem_takeWhile_imp hc⟩, ⟨hout', hkey⟩, hline⟩
    rcases afterVersion_iff.1 hs with ⟨hno, -⟩ | ⟨ds, hv, hne, hds, -⟩
    · refine ⟨[], _, _, ?_, .inl rfl, hblank s, hblank s'⟩
      rw [List.nil_append, ← hend, ← hno, List.takeWhile_append_dropWhile]
    · refine ⟨'/' :: ds, _, _, ?_, .inr ⟨ds, rfl, hne, hds⟩, hblank s, hblank s'⟩
      rw [← hend, List.cons_append, ← hv, List.takeWhile_append_dropWhile]
  · intro h
    obtain ⟨⟨version, a, b, rfl, hv, ha, hb⟩, ⟨hm, hmname⟩, ⟨ho, hk⟩, hline⟩ := h
    have hname := span_append hmname (head_after_method (t := b ++ (r.outcome ++ r.details)) hv ha)
    have hversion : afterVersion (version ++ (a ++ '=' :: (b ++ (r.outcome ++ r.details)))) =
        some (a ++ '=' :: (b ++ (r.outcome ++ r.details))) := by
      refine afterVersion_iff.2 ?_
      rcases hv with rfl | ⟨ds, rfl, hne, hds⟩
      · exact .inl ⟨rfl, fun hhead => (head_blanks_equals ha _ hhead).1 rfl⟩
      · exact .inr ⟨ds, rfl, hne, hds, fun c hc => (head_blanks_equals ha c hc).2⟩
    have hequals := @span_append isSpace a ('=' :: (b ++ (r.outcome ++ r.details))) ha (by simp; decide)
    have hword := span_append hb (head_not_space (t := r.details) ho)
    have hkey : keyword u (r.outcome ++ r.details) = some (r.outcome, r.details) := keyword_iff.2 ⟨rfl, hk⟩
    unfold authResult
    rw [if_pos (startsName_append hm), hname.1, hname.2, hversion]
    simp only [hequals.2, hword.2]
    rw [if_pos (startsName_append ho), hkey]
    simp [hline]

/-! ## Properties -/

/-- a property's name, with blanks around its dots -/
def matchName : List Char → List Char → Option (List Char)
  | [], s => some s
  | '.' :: name, s =>
    match s.dropWhile isSpace with
    | '.' :: s => matchName name (s.dropWhile isSpace)
    | _ => none
  | _ :: _, [] => none
  | l :: name, c :: s => if foldCase c = l then matchName name s else none

/-- the rest of a quoted string, `(?:\\.|[^"\\])*"`, and what follows it -/
def closeQuote : List Char → Option (List Char)
  | [] => none
  | '"' :: s => some s
  | ['\\'] => none
  | '\\' :: c :: s => if c = '\n' then none else closeQuote s
  | _ :: s => closeQuote s

/-- what follows a value: a quoted string, or else a run without blanks and semicolons -/
def afterValue (s : List Char) : Option (List Char) :=
  match s with
  | [] => none
  | c :: t =>
    match (if c = '"' then closeQuote t else none) with
    | some rest => some rest
    | none => if isSpace c ∨ c = ';' then none else some (s.dropWhile fun c => !isSpace c && c ≠ ';')

/-- `\s*=\s*` -/
def afterEquals (s : List Char) : Option (List Char) :=
  match s.dropWhile isSpace with
  | '=' :: s => some (s.dropWhile isSpace)
  | _ => none

/-- the value and the rest of the text where a property stands at its front -/
def propertyAt (name : List Char) (s : List Char) : Option (List Char × List Char) := do
  let s ← matchName name s
  let value ← afterEquals s
  let rest ← afterValue value
  some (value, rest)

/-- a match of the pattern of a property: the text before it, the name as it is written, and the value -/
structure Place where
  before : List Char
  written : List Char
  value : List Char
deriving DecidableEq

/-- `[a-z0-9_.-]`, which no property's name follows -/
def joins (c : Char) : Bool := isNameChar c || c = '.'

/-- the matches of the pattern of a property from left to right: `before` is behind, `skip` characters of the last match
are still ahead -/
def places (name : List Char) (before : List Char) (skip : ℕ) : List Char → List Place
  | [] => []
  | c :: s =>
    match skip with
    | n + 1 => places name (before ++ [c]) n s
    | 0 =>
      match (if (before.getLast?.map joins).getD false then none else propertyAt name (c :: s)) with
      | some (value, rest) =>
        ⟨before, (c :: s).take (s.length + 1 - value.length), value.take (value.length - rest.length)⟩ ::
          places name (before ++ [c]) (s.length - rest.length) s
      | none => places name (before ++ [c]) 0 s

/-- `re.sub(r"\\(.)", r"\1", s)` -/
def unescape : List Char → List Char
  | [] => []
  | '\\' :: c :: s => if c = '\n' then '\\' :: c :: unescape s else c :: unescape s
  | c :: s => c :: unescape s

/-- the text a property's value stands for -/
def valueText (raw : List Char) : List Char :=
  match raw with
  | '"' :: inner => unescape inner.dropLast
  | _ => raw

/-- `_auth_property` -/
def authProperty (segment : List Char) (name : String) : Option (List Char) :=
  match places name.toList [] 0 segment with
  | [p] =>
    let value := valueText p.value
    if value = [] ∨ value.any (fun c => c.toNat < 33 || c.toNat = 127) then none else some value
  | _ => none

/-- `DOMAIN_LABEL.fullmatch` -/
def domainLabel (s : List Char) : Bool :=
  1 ≤ s.length && s.length ≤ 63 && s.all (fun c => c.isLower || c.isDigit || c = '-') &&
    s.head? ≠ some '-' && s.getLast? ≠ some '-'

/-- at least two labels, within the length of a domain name -/
def isDomain (s : List Char) : Bool :=
  s.length ≤ 253 && 2 ≤ (s.splitOn '.').length && (s.splitOn '.').all domainLabel

/-- what follows the last `@` -/
def afterAt (s : List Char) : List Char := (s.reverse.takeWhile (· ≠ '@')).reverse

/-- `_auth_domain` -/
def authDomain (value : List Char) (identity : Bool) : Option (List Char) :=
  let candidate := lowerChars (stripChars value)
  if '@' ∈ candidate then
    if candidate.count '@' ≠ 1 then none
    else if !identity ∧ candidate.head? = some '@' then none
    else if isDomain (afterAt candidate) then some (afterAt candidate) else none
  else if isDomain candidate then some candidate else none

/-- `_aligned_domain` -/
def alignedDomain (authenticated visible : List Char) : Bool :=
  authenticated = visible || ('.' :: visible).isSuffixOf authenticated || ('.' :: authenticated).isSuffixOf visible

/-! ## The verdict -/

/-- what follows the name of the trusted service: nothing, or blanks and a version -/
def serviceVersion (s : List Char) : Bool :=
  s = [] || ((s.head?.map isSpace).getD false && s.dropWhile isSpace ≠ [] && (s.dropWhile isSpace).all Char.isDigit)

/-- `TRUSTED_AUTH_SERVICE` -/
def trustedAuthService : String := "amazonses.com"

/-- the match of the first segment -/
def trusts (segment : List Char) : Bool :=
  (segment.take 13).map foldCase = trustedAuthService.toList && serviceVersion (segment.drop 13)

/-- the results of the segments after the first, where each reads as one -/
def readResults (u : Char → Bool) (segments : List (List Char)) : Option (List Result) :=
  (segments.filter fun s => s ≠ []).mapM (authResult u)

/-- the results of a method -/
def ofMethod (name : String) (results : List Result) : List Result :=
  results.filter fun r => lowerChars r.method = name.toList

/-- `_email_authenticates`, given the header and the sender -/
def emailAuthenticates (u : Char → Bool) (header : Option (List Char)) (sender : List Char) : Bool :=
  match header.bind authSegments with
  | none => false
  | some [] => false
  | some (service :: rest) =>
    if trusts service then
      match readResults u rest with
      | none => false
      | some results =>
        match ofMethod "dkim" results, ofMethod "dmarc" results with
        | [dkim], [dmarc] =>
          if lowerChars dkim.outcome = "pass".toList ∧ lowerChars dmarc.outcome = "pass".toList then
            let dkimDomain := (authProperty dkim.details "header.i").bind fun v => authDomain v true
            let dmarcDomain := (authProperty dmarc.details "header.from").bind fun v => authDomain v false
            dmarcDomain = some (afterAt sender) &&
              (dkimDomain.map fun d => alignedDomain d (afterAt sender)).getD false
          else false
        | _, _ => false
    else false

/-! ### Where properties are read -/

theorem matchName_suffix {name s t : List Char} (h : matchName name s = some t) : t <:+ s := by
  induction name, s using matchName.induct with
  | case1 s =>
    obtain rfl := Option.some.inj (by simpa [matchName] using h : some s = some t)
    exact List.suffix_rfl
  | case2 name s s' hs ih =>
    have h' : matchName name (s'.dropWhile isSpace) = some t := by simpa [matchName, hs] using h
    have hdot : '.' :: s' <:+ s := hs ▸ List.dropWhile_suffix _
    exact (ih h').trans ((List.dropWhile_suffix _).trans ((List.suffix_cons _ _).trans hdot))
  | case3 name s hs => simp [matchName] at h
  | case4 => simp [matchName] at h
  | case5 name c s hdot ih =>
    have h' : matchName name s = some t := by simpa [matchName, hdot] using h
    exact (ih h').trans (List.suffix_cons _ _)
  | case6 l name c s hdot hc => simp [matchName, hc] at h

theorem afterEquals_suffix {s t : List Char} (h : afterEquals s = some t) : t <:+ s := by
  unfold afterEquals at h
  split at h
  · rename_i s' hs
    obtain rfl := Option.some.inj h
    have heq : '=' :: s' <:+ s := hs ▸ List.dropWhile_suffix _
    exact (List.dropWhile_suffix _).trans ((List.suffix_cons _ _).trans heq)
  · cases h

theorem closeQuote_suffix {s t : List Char} (h : closeQuote s = some t) : t <:+ s := by
  induction s using closeQuote.induct with
  | case1 => cases h
  | case2 s =>
    obtain rfl := Option.some.inj (by simpa [closeQuote] using h : some s = some t)
    exact List.suffix_cons _ _
  | case3 => cases h
  | case4 s => simp [closeQuote] at h
  | case5 c s hc ih =>
    have h' : closeQuote s = some t := by simpa [closeQuote, hc] using h
    exact (ih h').trans ⟨['\\', c], rfl⟩
  | case6 c s _ _ _ ih =>
    have h' : closeQuote s = some t := by simpa [closeQuote] using h
    exact (ih h').trans (List.suffix_cons _ _)

theorem afterValue_suffix {s t : List Char} (h : afterValue s = some t) : t <:+ s := by
  unfold afterValue at h
  split at h
  · cases h
  rename_i c s
  split at h
  · rename_i rest hq
    obtain rfl := Option.some.inj h
    split_ifs at hq
    exact (closeQuote_suffix hq).trans (List.suffix_cons _ _)
  · split_ifs at h
    obtain rfl := Option.some.inj h
    exact List.dropWhile_suffix _

/-- what stands before a suffix -/
theorem take_append_suffix {s t : List Char} (h : t <:+ s) : s.take (s.length - t.length) ++ t = s := by
  obtain ⟨u, rfl⟩ := h
  simp

/-- **Properties stand.** A property is read where its name stands, no name running into it, before `=` and a value. -/
theorem places_stand {name before s : List Char} {skip : ℕ} {p : Place} (h : p ∈ places name before skip s) :
    ∃ rest, before ++ s = p.before ++ (p.written ++ (p.value ++ rest)) ∧
      (∀ c ∈ p.before.getLast?, joins c = false) ∧
      propertyAt name (p.written ++ (p.value ++ rest)) = some (p.value ++ rest, rest) := by
  induction s generalizing before skip with
  | nil => simp [places] at h
  | cons c s ih =>
    cases skip with
    | succ n => simpa using ih h
    | zero =>
      rw [places] at h
      split at h
      · rename_i value rest hat
        split_ifs at hat with hjoin
        have hat' := hat
        simp only [propertyAt, Option.bind_eq_bind, Option.bind_eq_some_iff, Option.some.injEq] at hat
        obtain ⟨s₁, hs₁, v, hv, r, hr, heq⟩ := hat
        obtain ⟨rfl, rfl⟩ := Prod.mk.inj heq
        have hvalue : v <:+ c :: s := (afterEquals_suffix hv).trans (matchName_suffix hs₁)
        rcases List.mem_cons.1 h with rfl | h
        · have htake : v.take (v.length - r.length) ++ r = v := take_append_suffix (afterValue_suffix hr)
          have hall : (c :: s).take (s.length + 1 - v.length) ++ v = c :: s := take_append_suffix hvalue
          refine ⟨r, ?_, ?_, ?_⟩
          · simp only [htake, hall]
          · intro d hd
            simpa [Option.mem_def.1 hd] using hjoin
          · simp only [htake, hall, hat']
        · simpa using ih h
      · simpa using ih h

end Rally.Ingress
