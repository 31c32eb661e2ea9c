/-
Printed JSON reads back (`json.dumps`, `json.loads`). Nothing here is about one program.

- `Legal`: the values that have a text and no two members under one key.
- `scanNumber_int`, `scanString_jsonString`: printed integers and strings are read back.
- `loads_dumps`: so is every legal value, in any layout with commas, colons and blanks.
-/
import Mathlib.Data.List.TakeWhile
import Rally.Core.JsonText

namespace Py

section Reader

variable {F : List Char → Float}

/-! ## Numbers read back -/

/-- a text that goes on after a number without changing it -/
def Ends (rest : List Char) : Prop := ∀ c ∈ rest.head?, c.isDigit = false ∧ c ∉ ['.', 'e', 'E', '+', '-']

theorem Ends.cons {c : Char} {r : List Char} (hd : c.isDigit = false) (hc : c ∉ ['.', 'e', 'E', '+', '-']) :
    Ends (c :: r) := by
  intro d h
  obtain rfl : c = d := Option.some.inj h
  exact ⟨hd, hc⟩

section Ends

variable {rest : List Char}

theorem digits_append (h : Ends rest) (cs : List Char) :
    (cs ++ rest).takeWhile Char.isDigit = cs.takeWhile Char.isDigit ∧
      (cs ++ rest).dropWhile Char.isDigit = cs.dropWhile Char.isDigit ++ rest := by
  induction cs with
  | nil =>
    cases rest with
    | nil => exact ⟨rfl, rfl⟩
    | cons c r =>
      have hc := (h c rfl).1
      simp [hc]
  | cons c cs ih =>
    cases hc : c.isDigit with
    | false => simp [hc]
    | true => simp [hc, ih.1, ih.2]

theorem minus_append (h : Ends rest) (cs : List Char) : minus (cs ++ rest) = ((minus cs).1, (minus cs).2 ++ rest) := by
  cases cs with
  | nil =>
    cases rest with
    | nil => rfl
    | cons c r =>
      have hc : c ≠ '-' := fun hc => (h c rfl).2 (by simp [hc])
      simp only [List.nil_append, minus]
      split
      · rename_i heq
        cases heq
        exact absurd rfl hc
      · rfl
  | cons c cs =>
    by_cases hc : c = '-'
    · subst hc
      rfl
    · have hsame : ∀ r, minus (c :: r) = ([], c :: r) := by
        intro r
        unfold minus
        split
        · rename_i heq
          cases heq
          exact absurd rfl hc
        · rfl
      rw [List.cons_append, hsame, hsame]
      rfl

theorem whole_append (h : Ends rest) (cs : List Char) : whole (cs ++ rest) = ((whole cs).1, (whole cs).2 ++ rest) := by
  have hplain : ∀ r, (∀ t, r ≠ '0' :: t) → whole r = (r.takeWhile Char.isDigit, r.dropWhile Char.isDigit) := by
    intro r hr
    unfold whole
    split
    · rename_i t
      exact absurd rfl (hr t)
    · rfl
  by_cases hzero : ∃ t, cs = '0' :: t
  · obtain ⟨t, rfl⟩ := hzero
    rfl
  · have hcs : ∀ t, cs ≠ '0' :: t := fun t ht => hzero ⟨t, ht⟩
    have happ : ∀ t, cs ++ rest ≠ '0' :: t := by
      intro t ht
      cases cs with
      | nil =>
        rw [List.nil_append] at ht
        subst ht
        exact absurd (h '0' rfl).1 (by decide)
      | cons c cs =>
        cases ht
        exact hcs cs rfl
    rw [hplain _ hcs, hplain _ happ, (digits_append h cs).1, (digits_append h cs).2]

theorem fraction_append (h : Ends rest) (cs : List Char) :
    fraction (cs ++ rest) = ((fraction cs).1, (fraction cs).2 ++ rest) := by
  have hplain : ∀ r, (∀ t, r ≠ '.' :: t) → fraction r = ([], r) := by
    intro r hr
    unfold fraction
    split
    · rename_i t
      exact absurd rfl (hr t)
    · rfl
  by_cases hdot : ∃ t, cs = '.' :: t
  · obtain ⟨t, rfl⟩ := hdot
    simp only [List.cons_append, fraction, (digits_append h t).1, (digits_append h t).2]
    split_ifs <;> rfl
  · have hcs : ∀ t, cs ≠ '.' :: t := fun t ht => hdot ⟨t, ht⟩
    have happ : ∀ t, cs ++ rest ≠ '.' :: t := by
      intro t ht
      cases cs with
      | nil =>
        rw [List.nil_append] at ht
        subst ht
        exact (h '.' rfl).2 (by decide)
      | cons c cs =>
        cases ht
        exact hcs cs rfl
    rw [hplain _ hcs, hplain _ happ]

theorem sign_append (h : Ends rest) (cs : List Char) : sign (cs ++ rest) = ((sign cs).1, (sign cs).2 ++ rest) := by
  have hplain : ∀ r, (∀ t, r ≠ '-' :: t) → (∀ t, r ≠ '+' :: t) → sign r = ([], r) := by
    intro r hm hp
    unfold sign
    split
    · rename_i t
      exact absurd rfl (hm t)
    · rename_i t
      exact absurd rfl (hp t)
    · rfl
  cases cs with
  | nil =>
    rw [List.nil_append, hplain rest, hplain []]
    · rfl
    · simp
    · simp
    · rintro t rfl
      exact (h '-' rfl).2 (by decide)
    · rintro t rfl
      exact (h '+' rfl).2 (by decide)
  | cons c cs =>
    by_cases hm : c = '-'
    · subst hm
      rfl
    · by_cases hp : c = '+'
      · subst hp
        rfl
      · rw [List.cons_append, hplain, hplain]
        · rfl
        · rintro t ht
          cases ht
          exact hm rfl
        · rintro t ht
          cases ht
          exact hp rfl
        · rintro t ht
          cases ht
          exact hm rfl
        · rintro t ht
          cases ht
          exact hp rfl

theorem exponent_append (h : Ends rest) (cs : List Char) :
    exponent (cs ++ rest) = ((exponent cs).1, (exponent cs).2 ++ rest) := by
  cases cs with
  | nil =>
    cases rest with
    | nil => rfl
    | cons c r =>
      have hc : ¬ ((c = 'e' ∨ c = 'E') ∧ (sign r).2.takeWhile Char.isDigit ≠ []) := by
        rintro ⟨rfl | rfl, -⟩
        · exact (h 'e' rfl).2 (by decide)
        · exact (h 'E' rfl).2 (by decide)
      simp only [List.nil_append, exponent]
      rw [if_neg hc]
  | cons c cs =>
    simp only [List.cons_append, exponent, sign_append h cs, (digits_append h _).1, (digits_append h _).2]
    split_ifs <;> rfl

/-- a number is read alike with more text behind it -/
theorem scanNumber_append (h : Ends rest) {cs r : List Char} {v : Value} (hv : scanNumber F cs = .ok (v, r)) :
    scanNumber F (cs ++ rest) = .ok (v, r ++ rest) := by
  unfold scanNumber at hv ⊢
  simp only [minus_append h, whole_append h, fraction_append h, exponent_append h] at hv ⊢
  split_ifs at hv ⊢
  all_goals
    cases hv
    rfl

end Ends

/-- the digits of a positive number do not begin with a zero -/
theorem head_toDigits (n : ℕ) (hn : 0 < n) : ∃ c r, Nat.toDigits 10 n = c :: r ∧ c ≠ '0' := by
  induction n using Nat.strong_induction_on with
  | _ n ih =>
    rw [Nat.toDigits_eq_if (by omega)]
    by_cases hsmall : n < 10
    · rw [if_pos hsmall]
      refine ⟨n.digitChar, [], rfl, ?_⟩
      have hall : ∀ k < 10, 0 < k → Nat.digitChar k ≠ '0' := by decide
      exact hall n hsmall hn
    · rw [if_neg hsmall]
      obtain ⟨c, r, hc, hne⟩ := ih (n / 10) (by omega) (by omega)
      exact ⟨c, r ++ [(n % 10).digitChar], by rw [hc]; rfl, hne⟩

theorem whole_toDigits (n : ℕ) : whole (Nat.toDigits 10 n) = (Nat.toDigits 10 n, []) := by
  have hdigits : ∀ c ∈ Nat.toDigits 10 n, c.isDigit = true := fun c hc =>
    Nat.isDigit_of_mem_toDigits (by omega) (by omega) hc
  rcases Nat.eq_zero_or_pos n with rfl | hn
  · rfl
  · obtain ⟨c, r, hc, hne⟩ := head_toDigits n hn
    have htake : (Nat.toDigits 10 n).takeWhile Char.isDigit = Nat.toDigits 10 n :=
      List.takeWhile_eq_self_iff.2 hdigits
    have hdrop : (Nat.toDigits 10 n).dropWhile Char.isDigit = [] := List.dropWhile_eq_nil_iff.2 hdigits
    unfold whole
    split
    · rename_i t heq
      rw [heq] at hc
      cases hc
      exact absurd rfl hne
    · rw [htake, hdrop]

/-- the characters of a printed integer -/
theorem toList_int (n : ℤ) : (toString n).toList =
    if 0 ≤ n then Nat.toDigits 10 n.natAbs else '-' :: Nat.toDigits 10 n.natAbs := by
  cases n with
  | ofNat m =>
    rw [if_pos (by simp)]
    exact Nat.toList_repr
  | negSucc m =>
    rw [if_neg (by simp)]
    change ("-" ++ Nat.repr (m + 1)).toList = _
    rw [String.toList_append, Nat.toList_repr]
    rfl

theorem minus_digits (n : ℕ) : minus (Nat.toDigits 10 n) = ([], Nat.toDigits 10 n) := by
  unfold minus
  split
  · rename_i t heq
    have hmem : '-' ∈ Nat.toDigits 10 n := by rw [heq]; exact List.mem_cons_self
    have hdigit := Nat.isDigit_of_mem_toDigits (by omega) (by omega) hmem
    cases hdigit
  · rfl

theorem scanNumber_int {n : ℤ} (h : printable n = true) : scanNumber F (toString n).toList = .ok (.int n, []) := by
  have hlen : (Nat.toDigits 10 n.natAbs).length ≤ maxDigits := by simpa [printable] using h
  rw [toList_int]
  unfold scanNumber
  split_ifs with hn
  · simp only [minus_digits, whole_toDigits, fraction, exponent, Nat.toDigits_ne_nil, if_false, and_self, if_true,
      if_pos hlen, Nat.ofDigitChars_ten_toDigits]
    rw [Int.natAbs_of_nonneg hn]
  · simp only [minus, whole_toDigits, fraction, exponent, Nat.toDigits_ne_nil, if_false, and_self, if_true,
      if_pos hlen, Nat.ofDigitChars_ten_toDigits, List.cons_ne_nil]
    rw [Int.ofNat_natAbs_of_nonpos (by omega), neg_neg]

/-! ## Printed texts read back -/

/-- separators as `json` accepts them: a comma and a colon, with blanks behind them -/
structure Layout.Sound (o : Layout) : Prop where
  comma : ∃ w, o.comma = ',' :: w ∧ ∀ c ∈ w, blank c = true
  colon : ∃ w, o.colon = ':' :: w ∧ ∀ c ∈ w, blank c = true

/-- the layout of `json.dumps` when none is asked for -/
def spaced : Layout := ⟨[',', ' '], [':', ' '], true⟩

theorem spaced_sound : spaced.Sound := ⟨⟨[' '], rfl, by decide⟩, ⟨[' '], rfl, by decide⟩⟩

mutual
/-- values that have a text and are dicts to the bottom: integers of limited length, floats that are read as printed, and
distinct keys -/
def Legal (F : List Char → Float) (P : Runtime) : Value → Prop
  | .int n => printable n = true
  | .float f => scanNumber F (jsonFloat P f).toList = .ok (.float f, [])
  | .list xs => LegalItems F P xs
  | .dict kvs => Dict.Ok kvs ∧ LegalMembers F P kvs
  | _ => True
def LegalItems (F : List Char → Float) (P : Runtime) : List Value → Prop
  | [] => True
  | x :: xs => Legal F P x ∧ LegalItems F P xs
def LegalMembers (F : List Char → Float) (P : Runtime) : List (String × Value) → Prop
  | [] => True
  | (_, x) :: kvs => Legal F P x ∧ LegalMembers F P kvs
end

variable {P : Runtime} {o : Layout}

theorem legal_items {xs : List Value} (h : LegalItems F P xs) : ∀ x ∈ xs, Legal F P x := by
  induction xs with
  | nil => simp
  | cons x xs ih => exact List.forall_mem_cons.2 ⟨h.1, ih h.2⟩

theorem legal_members {kvs : List (String × Value)} (h : LegalMembers F P kvs) : ∀ p ∈ kvs, Legal F P p.2 := by
  induction kvs with
  | nil => simp
  | cons p kvs ih => exact List.forall_mem_cons.2 ⟨h.1, ih h.2⟩

/-- a value whose text is read back, whatever follows it -/
def ReadBack (F : List Char → Float) (P : Runtime) (o : Layout) (v : Value) : Prop :=
  ∀ n rest, (jsonChars P o v).length < n → Ends rest → scanValue F n (jsonChars P o v ++ rest) = .ok (v, rest)

/-! ### String literals -/

/-- code units that stand for a character -/
def Spells (us : List ℕ) (c : Char) : Prop := ∀ vs, joinUnits (us ++ vs) = (joinUnits vs).map fun cs => c :: cs

theorem hexDigit_digitChar (k : ℕ) (h : k < 16) : hexDigit? (Nat.digitChar k) = some k := by
  have hall : ∀ k < 16, hexDigit? (Nat.digitChar k) = some k := by decide
  exact hall k h

theorem scan_hex4 {n : ℕ} (h : n < 0x10000) (cs : List Char) :
    scan .plain (hex4 n ++ cs) = (scan .plain cs).map fun p => (n :: p.1, p.2) := by
  have hsum : (((0 * 16 + n / 16 ^ 3 % 16) * 16 + n / 16 ^ 2 % 16) * 16 + n / 16 ^ 1 % 16) * 16 + n / 16 ^ 0 % 16 = n := by
    omega
  simp only [hex4, List.map_cons, List.map_nil, List.cons_append, List.nil_append, scan, Char.reduceEq, if_false, if_true]
  rw [hexDigit_digitChar _ (Nat.mod_lt _ (by omega)), hexDigit_digitChar _ (Nat.mod_lt _ (by omega)),
    hexDigit_digitChar _ (Nat.mod_lt _ (by omega)), hexDigit_digitChar _ (Nat.mod_lt _ (by omega))]
  simp only [hsum]

theorem escape_cases (ascii : Bool) (c : Char) :
    (∃ letter, (c, letter) ∈ shortEscapes ∧ escape ascii c = ['\\', letter]) ∨
      (c.toNat < 0x10000 ∧ escape ascii c = hex4 c.toNat) ∨
      (0x10000 ≤ c.toNat ∧ escape ascii c =
        hex4 (0xd800 + (c.toNat - 0x10000) / 0x400) ++ hex4 (0xdc00 + (c.toNat - 0x10000) % 0x400)) ∨
      (shortEscapes.lookup c = none ∧ 0x20 ≤ c.toNat ∧ (ascii = true → c.toNat ≤ 0x7e) ∧ escape ascii c = [c]) := by
  unfold escape
  cases hl : shortEscapes.lookup c with
  | some letter =>
    refine Or.inl ⟨letter, ?_, rfl⟩
    obtain ⟨l₁, l₂, hsplit, -⟩ := List.lookup_eq_some_iff.1 hl
    rw [hsplit]
    simp
  | none =>
    simp only
    split_ifs with h1 h2 h3
    · exact Or.inr (Or.inl ⟨by omega, rfl⟩)
    · exact Or.inr (Or.inl ⟨h3, rfl⟩)
    · exact Or.inr (Or.inr (Or.inl ⟨by omega, rfl⟩))
    · exact Or.inr (Or.inr (Or.inr ⟨trivial, by omega, fun ha => by by_contra hc; exact h2 ⟨ha, by omega⟩, rfl⟩))

theorem char_bound (c : Char) : c.toNat < 0x110000 ∧ ¬ (0xd800 ≤ c.toNat ∧ c.toNat < 0xe000) := by
  have h := c.valid
  unfold UInt32.isValidChar Nat.isValidChar at h
  have hn : c.toNat = c.val.toNat := rfl
  omega

theorem spells_single (c : Char) : Spells [c.toNat] c := by
  intro vs
  have hc := (char_bound c).2
  rw [List.singleton_append]
  conv => lhs; unfold joinUnits
  rw [if_neg (by omega), if_neg (by omega), Char.ofNat_toNat]

theorem spells_pair {c : Char} (h : 0x10000 ≤ c.toNat) :
    Spells [0xd800 + (c.toNat - 0x10000) / 0x400, 0xdc00 + (c.toNat - 0x10000) % 0x400] c := by
  intro vs
  have hc := (char_bound c).1
  have hsum : 0x10000 + (0xd800 + (c.toNat - 0x10000) / 0x400 - 0xd800) * 0x400 +
      (0xdc00 + (c.toNat - 0x10000) % 0x400 - 0xdc00) = c.toNat := by omega
  simp only [List.cons_append, List.nil_append]
  conv => lhs; unfold joinUnits
  rw [if_neg (by omega), if_pos (by omega)]
  simp only
  rw [if_pos (by omega), hsum, Char.ofNat_toNat]

/-- a character is read from its escape -/
theorem scan_escape (ascii : Bool) (c : Char) : ∃ us, Spells us c ∧
    ∀ cs, scan .plain (escape ascii c ++ cs) = (scan .plain cs).map fun p => (us ++ p.1, p.2) := by
  have hshort : ∀ p ∈ shortEscapes, unescape p.2 = some p.1.toNat ∧ p.2 ≠ 'u' := by decide
  rcases escape_cases ascii c with ⟨letter, hmem, he⟩ | ⟨hn, he⟩ | ⟨hn, he⟩ | ⟨hl, hn, -, he⟩
  · obtain ⟨hun, hu⟩ := hshort _ hmem
    refine ⟨[c.toNat], spells_single c, fun cs => ?_⟩
    rw [he]
    simp only [List.cons_append, List.nil_append, scan, Char.reduceEq, if_false, if_true, if_neg hu, hun]
  · refine ⟨[c.toNat], spells_single c, fun cs => ?_⟩
    rw [he, scan_hex4 hn]
    rfl
  · have hb := (char_bound c).1
    refine ⟨_, spells_pair hn, fun cs => ?_⟩
    rw [he, List.append_assoc, scan_hex4 (by omega), scan_hex4 (by omega), Option.map_map]
    rfl
  · have hquote : c ≠ '"' := by
      rintro rfl
      cases hl
    have hslash : c ≠ '\\' := by
      rintro rfl
      cases hl
    refine ⟨[c.toNat], spells_single c, fun cs => ?_⟩
    rw [he]
    simp only [List.cons_append, List.nil_append, scan]
    rw [if_neg hquote, if_neg hslash, if_neg (by omega)]

theorem scan_escapes (ascii : Bool) (s cs : List Char) :
    ∃ us, joinUnits us = some s ∧ scan .plain (s.flatMap (escape ascii) ++ '"' :: cs) = some (us, cs) := by
  induction s with
  | nil => exact ⟨[], rfl, rfl⟩
  | cons c s ih =>
    obtain ⟨us, hjoin, hscan⟩ := ih
    obtain ⟨vs, hspells, hc⟩ := scan_escape ascii c
    refine ⟨vs ++ us, ?_, ?_⟩
    · rw [hspells us, hjoin]
      rfl
    · rw [List.flatMap_cons, List.append_assoc, hc, hscan]
      rfl

/-- a printed string is read back -/
theorem scanString_jsonString (ascii : Bool) (s : String) (cs : List Char) :
    ∃ t, jsonString ascii s ++ cs = '"' :: t ∧ scanString t = some (s, cs) := by
  obtain ⟨us, hjoin, hscan⟩ := scan_escapes ascii s.toList cs
  refine ⟨s.toList.flatMap (escape ascii) ++ '"' :: cs, by simp [jsonString], ?_⟩
  simp [scanString, hscan, hjoin]

/-! ### Values -/

theorem skip_blanks {w cs : List Char} (hw : ∀ c ∈ w, blank c = true) : skip (w ++ cs) = skip cs :=
  List.dropWhile_append_of_pos hw

theorem skip_token {c : Char} {r : List Char} (h : blank c = false) : skip (c :: r) = c :: r := by
  simp [skip, h]

theorem expect_token {c d : Char} {r : List Char} (h : blank d = false) :
    expect c (d :: r) = if d = c then some r else none := by
  simp [expect, skip_token h]

/-- how a number begins -/
theorem scanNumber_head {cs r : List Char} {v : Value} (h : scanNumber F cs = .ok (v, r)) :
    ∃ c t, cs = c :: t ∧ (c.isDigit = true ∨ c = '-') := by
  cases cs with
  | nil => cases h
  | cons c t =>
    refine ⟨c, t, rfl, ?_⟩
    by_contra hne
    obtain ⟨hd, hm⟩ := not_or.1 hne
    have hminus : minus (c :: t) = ([], c :: t) := by
      unfold minus
      split
      · rename_i heq
        cases heq
        exact absurd rfl hm
      · rfl
    have hwhole : (whole (c :: t)).1 = [] := by
      unfold whole
      split
      · rename_i heq
        cases heq
        exact absurd rfl hd
      · simp [hd]
    unfold scanNumber at h
    simp only [hminus, hwhole, if_true] at h
    cases h

theorem number_token {c : Char} (h : c.isDigit = true ∨ c = '-') :
    blank c = false ∧ c ∉ ['"', '\x7b', '[', ']', 'n', 't', 'f', 'N', 'I'] := by
  constructor
  · rw [← Bool.not_eq_true]
    intro hb
    simp only [blank, Bool.or_eq_true, decide_eq_true_eq] at hb
    rcases hb with ((rfl | rfl) | rfl) | rfl <;> rcases h with h | h <;> cases h
  · intro hmem
    simp only [List.mem_cons, List.not_mem_nil, or_false] at hmem
    rcases hmem with rfl | rfl | rfl | rfl | rfl | rfl | rfl | rfl | rfl <;> rcases h with h | h <;> cases h

/-- a number is no constant -/
theorem scanLiteral_number {cs r : List Char} {v : Value} (h : scanNumber F cs = .ok (v, r)) :
    scanLiteral cs = none := by
  obtain ⟨c, t, rfl, hc⟩ := scanNumber_head h
  have hne := (number_token hc).2
  refine List.findSome?_eq_none_iff.2 fun p hp => if_neg fun hprefix => ?_
  obtain ⟨u, hu⟩ := List.isPrefixOf_iff_prefix.1 hprefix
  simp only [literals, List.mem_cons, List.not_mem_nil, or_false] at hp
  rcases hp with rfl | rfl | rfl | rfl | rfl | rfl
  all_goals cases hu
  · exact hne (by decide)
  · exact hne (by decide)
  · exact hne (by decide)
  · exact hne (by decide)
  · exact hne (by decide)
  · cases h

theorem readBack_number {v : Value} (h : scanNumber F (jsonChars P o v) = .ok (v, [])) : ReadBack F P o v := by
  intro n rest hn hrest
  have happ := scanNumber_append hrest h
  have hlit := scanLiteral_number happ
  obtain ⟨c, t, heq, hc⟩ := scanNumber_head happ
  have hne := (number_token hc).2
  rw [heq] at happ hlit ⊢
  cases n with
  | zero => omega
  | succ n =>
    simp only [scanValue]
    rw [if_neg fun h => hne (by simp [h]), if_neg fun h => hne (by simp [h]), if_neg fun h => hne (by simp [h]), hlit]
    exact happ

/-- how the text of a value begins -/
theorem jsonChars_head {v : Value} (h : Legal F P v) :
    ∃ c r, jsonChars P o v = c :: r ∧ blank c = false ∧ c ≠ ']' := by
  have hnumber : ∀ {cs r : List Char} {w : Value}, scanNumber F cs = .ok (w, r) →
      ∃ c t, cs = c :: t ∧ blank c = false ∧ c ≠ ']' := by
    intro cs r w hw
    obtain ⟨c, t, hc, hd⟩ := scanNumber_head hw
    exact ⟨c, t, hc, (number_token hd).1, fun h => (number_token hd).2 (by simp [h])⟩
  cases v with
  | none => exact ⟨'n', _, rfl, rfl, by decide⟩
  | bool b => cases b <;> exact ⟨_, _, rfl, rfl, by decide⟩
  | int n => exact hnumber (scanNumber_int (F := F) h)
  | float f => exact hnumber h
  | str s => exact ⟨'"', _, rfl, rfl, by decide⟩
  | list xs =>
    cases xs with
    | nil => exact ⟨'[', [']'], by simp only [jsonChars], rfl, by decide⟩
    | cons x xs => exact ⟨'[', jsonChars P o x ++ jsonItems P o xs, by simp only [jsonChars], rfl, by decide⟩
  | dict kvs =>
    cases kvs with
    | nil => exact ⟨'\x7b', ['\x7d'], by simp only [jsonChars], rfl, by decide⟩
    | cons p kvs =>
      exact ⟨'\x7b', jsonString o.ensureAscii p.1 ++ (o.colon ++ (jsonChars P o p.2 ++ jsonMembers P o kvs)),
        by simp only [jsonChars], rfl, by decide⟩

/-- the members of an array are read back -/
theorem scanItems_back (ho : o.Sound) {x : Value} {xs : List Value} (hx : ReadBack F P o x)
    (hxs : ∀ y ∈ xs, Legal F P y ∧ ReadBack F P o y) (n : ℕ) (rest : List Char)
    (hn : (jsonChars P o x ++ jsonItems P o xs).length < n) :
    scanItems F n (jsonChars P o x ++ jsonItems P o xs ++ rest) = .ok (x :: xs, rest) := by
  obtain ⟨w, hcomma, hw⟩ := ho.comma
  induction xs generalizing x n with
  | nil =>
    cases n with
    | zero => omega
    | succ n =>
      have hends : Ends (']' :: rest) := .cons rfl (by decide)
      simp only [jsonItems, List.length_append, List.length_cons, List.length_nil] at hn
      simp only [scanItems, jsonItems, List.append_assoc, List.cons_append, List.nil_append]
      rw [hx n _ (by omega) hends]
      simp only [bind, Except.bind, expect_token (show blank ']' = false from rfl), if_true]
  | cons y ys ih =>
    cases n with
    | zero => omega
    | succ n =>
      obtain ⟨hlegal, hy⟩ := hxs y List.mem_cons_self
      obtain ⟨c, r, hc, hblank, hne⟩ := jsonChars_head (o := o) hlegal
      have hback := ih hy (fun z hz => hxs z (List.mem_cons_of_mem y hz)) n (by
        simp only [jsonItems, hcomma, List.length_append, List.length_cons] at hn ⊢
        omega)
      have hskip : skip (w ++ (jsonChars P o y ++ (jsonItems P o ys ++ rest))) =
          jsonChars P o y ++ jsonItems P o ys ++ rest := by
        rw [skip_blanks hw, hc, List.cons_append, skip_token hblank]
        simp
      have hends : Ends (',' :: (w ++ (jsonChars P o y ++ (jsonItems P o ys ++ rest)))) := .cons rfl (by decide)
      simp only [jsonItems, hcomma, List.length_append, List.length_cons] at hn
      simp only [scanItems, jsonItems, hcomma, List.append_assoc, List.cons_append]
      rw [hx n _ (by omega) hends]
      simp only [bind, Except.bind, expect_token (show blank ',' = false from rfl), Char.reduceEq, if_false, if_true,
        hskip, hback]

/-- one member of an object, up to its value -/
theorem scanMember_back (ho : o.Sound) {k : String} {x : Value} (hx : Legal F P x) (hxr : ReadBack F P o x) (n : ℕ)
    (tail : List Char) (hn : (jsonChars P o x).length < n) (htail : Ends tail) :
    ∃ t r, jsonString o.ensureAscii k ++ (o.colon ++ (jsonChars P o x ++ tail)) = '"' :: t ∧
      scanString t = some (k, o.colon ++ (jsonChars P o x ++ tail)) ∧
      expect ':' (o.colon ++ (jsonChars P o x ++ tail)) = some r ∧ scanValue F n (skip r) = .ok (x, tail) := by
  obtain ⟨w, hcolon, hw⟩ := ho.colon
  obtain ⟨t, ht, hkey⟩ := scanString_jsonString o.ensureAscii k (o.colon ++ (jsonChars P o x ++ tail))
  obtain ⟨c, r, hc, hblank, -⟩ := jsonChars_head (o := o) hx
  refine ⟨t, w ++ (jsonChars P o x ++ tail), ht, hkey, ?_, ?_⟩
  · rw [hcolon, List.cons_append, expect_token (show blank ':' = false from rfl), if_pos rfl]
  · have hskip : skip (w ++ (jsonChars P o x ++ tail)) = jsonChars P o x ++ tail := by
      rw [skip_blanks hw, hc, List.cons_append, skip_token hblank]
    rw [hskip]
    exact hxr n tail hn htail

/-- the members of an object are read back -/
theorem scanMembers_back (ho : o.Sound) {k : String} {x : Value} {kvs : List (String × Value)} (hx : Legal F P x)
    (hxr : ReadBack F P o x) (hkvs : ∀ p ∈ kvs, Legal F P p.2 ∧ ReadBack F P o p.2) (n : ℕ) (rest : List Char)
    (hn : (jsonString o.ensureAscii k ++ (o.colon ++ (jsonChars P o x ++ jsonMembers P o kvs))).length < n) :
    scanMembers F n (jsonString o.ensureAscii k ++ (o.colon ++ (jsonChars P o x ++ (jsonMembers P o kvs ++ rest)))) =
      .ok ((k, x) :: kvs, rest) := by
  obtain ⟨w, hcomma, hw⟩ := ho.comma
  induction kvs generalizing k x n with
  | nil =>
    cases n with
    | zero => omega
    | succ n =>
      have hends : Ends ('\x7d' :: rest) := .cons rfl (by decide)
      simp only [jsonMembers, List.length_append, List.length_cons, List.length_nil] at hn
      obtain ⟨t, r, ht, hkey, hcolon, hval⟩ := scanMember_back (k := k) ho hx hxr n _ (by omega) hends
      simp only [jsonMembers, List.cons_append, List.nil_append, ht, scanMembers, if_true, hkey, hcolon]
      rw [hval]
      simp only [bind, Except.bind, expect_token (show blank '\x7d' = false from rfl), if_true]
  | cons p kvs ih =>
    obtain ⟨l, y⟩ := p
    cases n with
    | zero => omega
    | succ n =>
      obtain ⟨hlegal, hy⟩ := hkvs _ List.mem_cons_self
      have hback := ih hlegal hy (fun q hq => hkvs q (List.mem_cons_of_mem _ hq)) n (k := l) (by
        simp only [jsonMembers, hcomma, List.length_append, List.length_cons] at hn ⊢
        omega)
      have hskip : ∀ tail, skip (w ++ (jsonString o.ensureAscii l ++ tail)) = jsonString o.ensureAscii l ++ tail := by
        intro tail
        rw [skip_blanks hw]
        exact skip_token rfl
      have hends : Ends (',' :: (w ++ (jsonString o.ensureAscii l ++
          (o.colon ++ (jsonChars P o y ++ (jsonMembers P o kvs ++ rest)))))) := .cons rfl (by decide)
      simp only [jsonMembers, hcomma, List.length_append, List.length_cons] at hn
      obtain ⟨t, r, ht, hkey, hcolon, hval⟩ := scanMember_back (k := k) ho hx hxr n _ (by omega) hends
      simp only [jsonMembers, hcomma, List.append_assoc, List.cons_append, ht, scanMembers, if_true, hkey, hcolon]
      rw [hval]
      simp only [bind, Except.bind, expect_token (show blank ',' = false from rfl), Char.reduceEq, if_false, if_true,
        hskip, hback]

/-- distinct keys stay as they are -/
theorem ofPairs_ok {kvs : List (String × Value)} (h : Dict.Ok kvs) : ofPairs kvs = kvs := by
  induction kvs using List.reverseRecOn with
  | nil => rfl
  | append_singleton kvs p ih =>
    have hok : Dict.Ok kvs ∧ p.1 ∉ kvs.map Prod.fst := by
      unfold Dict.Ok at h ⊢
      rw [List.map_append, List.nodup_append] at h
      exact ⟨h.1, fun hp => h.2.2 p.1 hp p.1 (by simp) rfl⟩
    have hnew : ∀ d : List (String × Value), p.1 ∉ d.map Prod.fst → Dict.upsert d p.1 (fun _ => p.2) = d ++ [p] := by
      intro d hd
      induction d with
      | nil => rfl
      | cons q d ihd =>
        rw [List.map_cons, List.mem_cons, not_or] at hd
        obtain ⟨m, b⟩ := q
        simp only [Dict.upsert]
        rw [if_neg (Ne.symm hd.1), ihd hd.2]
        rfl
    unfold ofPairs at ih ⊢
    rw [Dict.build_snoc, ih hok.1]
    exact hnew kvs hok.2

/-- **Every legal value is read back.** -/
theorem readBack (ho : o.Sound) : (v : Value) → Legal F P v → ReadBack F P o v
  | .none, _ => by
    intro n rest hn _
    cases n with
    | zero => omega
    | succ n => rfl
  | .bool true, _ => by
    intro n rest hn _
    cases n with
    | zero => omega
    | succ n => rfl
  | .bool false, _ => by
    intro n rest hn _
    cases n with
    | zero => omega
    | succ n => rfl
  | .int n, h => readBack_number (scanNumber_int h)
  | .float f, h => readBack_number h
  | .str s, _ => by
    intro n rest hn _
    cases n with
    | zero => omega
    | succ n =>
      obtain ⟨t, ht, hs⟩ := scanString_jsonString o.ensureAscii s rest
      simp only [jsonChars, ht, scanValue, if_true, hs]
  | .list [], _ => by
    intro n rest hn _
    cases n with
    | zero => omega
    | succ n => rfl
  | .list (x :: xs), h => by
    have hall := legal_items h
    have hback : ∀ y ∈ x :: xs, ReadBack F P o y := fun y hy => readBack ho y (hall y hy)
    intro n rest hn _
    cases n with
    | zero => omega
    | succ n =>
      obtain ⟨c, r, hc, hblank, hne⟩ := jsonChars_head (o := o) (hall x List.mem_cons_self)
      simp only [jsonChars, List.length_cons] at hn
      have hitems := scanItems_back ho (hback x List.mem_cons_self)
        (fun y hy => ⟨hall y (List.mem_cons_of_mem x hy), hback y (List.mem_cons_of_mem x hy)⟩) n rest (by omega)
      simp only [jsonChars, List.cons_append, scanValue, Char.reduceEq, if_false, if_true]
      rw [hc, List.cons_append, List.cons_append] at hitems ⊢
      rw [expect_token hblank, if_neg hne, skip_token hblank, hitems]
      rfl
  | .dict [], _ => by
    intro n rest hn _
    cases n with
    | zero => omega
    | succ n => rfl
  | .dict ((k, x) :: kvs), h => by
    have hall := legal_members h.2
    have hback : ∀ p ∈ (k, x) :: kvs, ReadBack F P o p.2 := fun p hp => readBack ho p.2 (hall p hp)
    intro n rest hn _
    cases n with
    | zero => omega
    | succ n =>
      simp only [jsonChars, List.length_cons] at hn
      have hmembers := scanMembers_back (k := k) (x := x) ho (hall _ List.mem_cons_self) (hback _ List.mem_cons_self)
        (fun p hp => ⟨hall p (List.mem_cons_of_mem _ hp), hback p (List.mem_cons_of_mem _ hp)⟩) n rest (by omega)
      have hskip : ∀ tail, skip (jsonString o.ensureAscii k ++ tail) = jsonString o.ensureAscii k ++ tail :=
        fun tail => skip_token rfl
      have hexpect : ∀ tail, expect '\x7d' (jsonString o.ensureAscii k ++ tail) = none := fun tail => rfl
      simp only [jsonChars, List.cons_append, List.append_assoc, scanValue, Char.reduceEq, if_false, if_true, hexpect,
        hskip, hmembers, bind, Except.bind, ofPairs_ok h.1]
termination_by v => sizeOf v
decreasing_by
  · have := List.sizeOf_lt_of_mem hy
    simp only [Value.list.sizeOf_spec]
    omega
  · have := List.sizeOf_lt_of_mem hp
    obtain ⟨l, y⟩ := p
    simp only [Value.dict.sizeOf_spec, Prod.mk.sizeOf_spec] at this ⊢
    omega

/-- **Round trip.** Reading what `dumps` prints gives the value back. -/
theorem loads_dumps (ho : o.Sound) {v : Value} (h : Legal F P v) : loads F (jsonChars P o v) = .ok v := by
  obtain ⟨c, r, hc, hblank, -⟩ := jsonChars_head (o := o) h
  have hskip : skip (jsonChars P o v) = jsonChars P o v := by rw [hc, skip_token hblank]
  have hback := readBack ho v h ((jsonChars P o v).length + 1) [] (by omega) (by intro c hc; cases hc)
  rw [List.append_nil] at hback
  unfold loads
  rw [hskip, hback]
  rfl

end Reader

end Py
