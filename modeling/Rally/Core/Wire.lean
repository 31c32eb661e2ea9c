/-
JSON values on the two ends of a wire: a JavaScript program holds texts as UTF-16 code units, a Python program as code
points, and either may hold halves of surrogate pairs. Nothing here is about one program.

- `decode`: what JSON makes of the code units of a text: pairs become one code point, single surrogates stay.
  `decode_encode`: it inverts the encoding of a text.
- `length_decode_le`, `mem_decode`, `head_decode`, `last_decode`: what it keeps of a text: no more code points than code
  units, and every code point below 0x10000 with its place at either end.
- `chars_decode`: patterns over ASCII see the same text on both ends.
- `trimBy`: trimming, for any notion of a blank. `trimBy_eq_self`: what is left alone.
- `received`: the value a Python program decodes from the text a JavaScript program wrote.
-/
import Mathlib.Tactic

namespace Wire

/-! ## Texts -/

/-- the code units of a text -/
abbrev Units := List UInt16

/-- the first half of a surrogate pair -/
def isHigh (u : UInt16) : Bool := 0xd800 ≤ u.toNat && u.toNat < 0xdc00

/-- the second half of a surrogate pair -/
def isLow (u : UInt16) : Bool := 0xdc00 ≤ u.toNat && u.toNat < 0xe000

/-- the code point of a surrogate pair -/
def pair (h l : UInt16) : ℕ := 0x10000 + (h.toNat - 0xd800) * 0x400 + (l.toNat - 0xdc00)

/-- code points from code units -/
def decode : Units → List ℕ
  | [] => []
  | [u] => [u.toNat]
  | h :: l :: s => if isHigh h && isLow l then pair h l :: decode s else h.toNat :: decode (l :: s)

/-- the halves of the surrogate pair of a code point -/
def highOf (n : ℕ) : UInt16 := UInt16.ofNat (0xd800 + (n - 0x10000) / 0x400)
def lowOf (n : ℕ) : UInt16 := UInt16.ofNat (0xdc00 + (n - 0x10000) % 0x400)

/-- the code units of a character -/
def encodeChar (c : Char) : Units :=
  if c.toNat < 0x10000 then [UInt16.ofNat c.toNat] else [highOf c.toNat, lowOf c.toNat]

/-- the code units of a text -/
def encode (s : String) : Units := s.toList.flatMap encodeChar

/-- the code points of a text -/
def points (s : String) : List ℕ := s.toList.map Char.toNat

theorem points_inj {s t : String} : points s = points t ↔ s = t := by
  unfold points
  constructor
  · intro h
    exact String.toList_inj.1 (List.map_injective_iff.2 (fun _ _ h => Char.toNat_inj.1 h) h)
  · rintro rfl
    rfl

theorem decode_cons_of_not_high {u : UInt16} (h : isHigh u = false) (s : Units) :
    decode (u :: s) = u.toNat :: decode s := by
  cases s with
  | nil => rfl
  | cons l s => simp [decode, h]

theorem toNat_highOf {n : ℕ} (h : n < 0x110000) : (highOf n).toNat = 0xd800 + (n - 0x10000) / 0x400 := by
  unfold highOf
  rw [UInt16.toNat_ofNat']
  apply Nat.mod_eq_of_lt
  omega

theorem toNat_lowOf (n : ℕ) : (lowOf n).toNat = 0xdc00 + (n - 0x10000) % 0x400 := by
  unfold lowOf
  rw [UInt16.toNat_ofNat']
  apply Nat.mod_eq_of_lt
  omega

/-- the halves of a code point make it up again -/
theorem pair_halves {n : ℕ} (hn : 0x10000 ≤ n) (h : n < 0x110000) : pair (highOf n) (lowOf n) = n := by
  unfold pair
  rw [toNat_highOf h, toNat_lowOf]
  omega

theorem decode_encodeChar (c : Char) (s : Units) : decode (encodeChar c ++ s) = c.toNat :: decode s := by
  have hvalid : c.toNat < 0xd800 ∨ 0xdfff < c.toNat ∧ c.toNat < 0x110000 := c.valid
  unfold encodeChar
  split_ifs with hc
  · have hn : (UInt16.ofNat c.toNat).toNat = c.toNat := by
      rw [UInt16.toNat_ofNat']
      exact Nat.mod_eq_of_lt hc
    have hhigh : isHigh (UInt16.ofNat c.toNat) = false := by
      simp only [isHigh, hn, Bool.and_eq_false_iff, decide_eq_false_iff_not]
      omega
    simp [decode_cons_of_not_high hhigh, hn]
  · have hlt : c.toNat < 0x110000 := by omega
    have hhigh : isHigh (highOf c.toNat) = true := by
      simp only [isHigh, toNat_highOf hlt, Bool.and_eq_true, decide_eq_true_eq]
      omega
    have hlow : isLow (lowOf c.toNat) = true := by
      simp only [isLow, toNat_lowOf, Bool.and_eq_true, decide_eq_true_eq]
      omega
    simp [decode, hhigh, hlow, pair_halves (by omega) hlt]

/-- decoding inverts encoding -/
theorem decode_encode (s : String) : decode (encode s) = points s := by
  unfold encode points
  induction s.toList with
  | nil => rfl
  | cons c cs ih => rw [List.flatMap_cons, decode_encodeChar, ih, List.map_cons]

-- texts of a program are told apart as strings, not by their code
attribute [irreducible] encode points

/-- decoding makes no text longer -/
theorem length_decode_le (s : Units) : (decode s).length ≤ s.length := by
  induction s using decode.induct with
  | case1 => simp [decode]
  | case2 u => simp [decode]
  | case3 h l s hp ih =>
    simp only [decode, hp, if_true, List.length_cons]
    omega
  | case4 h l s hp ih =>
    simp only [decode, hp, List.length_cons] at ih ⊢
    simpa using ih

theorem pair_ge (h l : UInt16) : 0x10000 ≤ pair h l := by
  unfold pair
  omega

/-- a small code point that is no surrogate is a code unit of the text -/
theorem mem_decode {s : Units} {n : ℕ} (hn : n < 0xd800) : n ∈ decode s ↔ ∃ u ∈ s, u.toNat = n := by
  induction s using decode.induct with
  | case1 => simp [decode]
  | case2 u => simp [decode, eq_comm]
  | case3 h l s hp ih =>
    have hge := pair_ge h l
    obtain ⟨hh, hl⟩ := Bool.and_eq_true _ _ ▸ hp
    simp only [isHigh, isLow, Bool.and_eq_true, decide_eq_true_eq] at hh hl
    have h1 : n ≠ pair h l := by omega
    have h2 : h.toNat ≠ n := by omega
    have h3 : l.toNat ≠ n := by omega
    simp [decode, hp, ih, h1, h2, h3]
  | case4 h l s hp ih => simp [decode, hp, ih, eq_comm]

/-- the first code point is the first code unit, unless that is a surrogate -/
theorem head_decode {s : Units} {n : ℕ} (hn : n < 0xd800) :
    n ∈ (decode s).head? ↔ ∃ u ∈ s.head?, u.toNat = n := by
  induction s using decode.induct with
  | case1 => simp [decode]
  | case2 u => simp [decode, eq_comm]
  | case3 h l s hp _ =>
    have hge := pair_ge h l
    obtain ⟨hh, -⟩ := Bool.and_eq_true _ _ ▸ hp
    simp only [isHigh, Bool.and_eq_true, decide_eq_true_eq] at hh
    have h1 : pair h l ≠ n := by omega
    have h2 : h.toNat ≠ n := by omega
    simp [decode, hp, h1, h2]
  | case4 h l s hp _ => simp [decode, hp]

theorem decode_ne_nil {u : UInt16} {s : Units} : decode (u :: s) ≠ [] := by
  cases s with
  | nil => simp [decode]
  | cons l s =>
    unfold decode
    split_ifs <;> simp

/-- the last code point is the last code unit, unless that is a surrogate -/
theorem last_decode {s : Units} {n : ℕ} (hn : n < 0xd800) :
    n ∈ (decode s).getLast? ↔ ∃ u ∈ s.getLast?, u.toNat = n := by
  induction s using decode.induct with
  | case1 => simp [decode]
  | case2 u => simp [decode, eq_comm]
  | case3 h l s hp ih =>
    have hge := pair_ge h l
    obtain ⟨-, hl⟩ := Bool.and_eq_true _ _ ▸ hp
    simp only [isLow, Bool.and_eq_true, decide_eq_true_eq] at hl
    have h1 : pair h l ≠ n := by omega
    have h2 : l.toNat ≠ n := by omega
    cases s with
    | nil => simp [decode, hp, h1, h2]
    | cons u s =>
      obtain ⟨d, ds, hd⟩ := List.exists_cons_of_ne_nil (decode_ne_nil (u := u) (s := s))
      rw [hd] at ih
      simp only [decode, hp, if_true, hd, List.getLast?_cons_cons]
      exact ih
  | case4 h l s hp ih =>
    obtain ⟨d, ds, hd⟩ := List.exists_cons_of_ne_nil (decode_ne_nil (u := l) (s := s))
    rw [hd] at ih
    simp only [decode, hp, hd, List.getLast?_cons_cons]
    simpa using ih

/-! ### Patterns over ASCII -/

/-- code units as characters, surrogates as U+0000: what a pattern that names no character outside ASCII sees -/
def unitChars (s : Units) : List Char := s.map fun u => Char.ofNat u.toNat

/-- code points as characters, surrogates as U+0000 -/
def pointChars (s : List ℕ) : List Char := s.map Char.ofNat

/-- a text in which such a pattern sees no U+0000 is the same on both ends -/
theorem chars_decode {s : Units} (h : '\x00' ∉ unitChars s) : pointChars (decode s) = unitChars s := by
  induction s with
  | nil => rfl
  | cons u s ih =>
    have hu : isHigh u = false := by
      by_contra hhigh
      refine h (List.mem_cons.2 (.inl ?_))
      simp only [isHigh, Bool.not_eq_false, Bool.and_eq_true, decide_eq_true_eq] at hhigh
      have hinvalid : ¬ u.toNat.isValidChar := by
        unfold Nat.isValidChar
        omega
      simp [Char.ofNat, hinvalid]
      rfl
    rw [decode_cons_of_not_high hu]
    unfold unitChars pointChars at ih ⊢
    rw [List.map_cons, List.map_cons, ih fun hs => h (List.mem_cons_of_mem _ hs)]

/-! ### Trimming -/

section Trim

variable {α : Type} (blank : α → Bool)

/-- without the blanks at both ends -/
def trimBy (s : List α) : List α := ((s.dropWhile blank).reverse.dropWhile blank).reverse

variable {blank}

theorem dropWhile_eq_self {s : List α} : s.dropWhile blank = s ↔ ∀ a ∈ s.head?, blank a = false := by
  cases s with
  | nil => simp
  | cons a s =>
    by_cases h : blank a = true
    · have hlen : (s.dropWhile blank).length ≤ s.length := (List.dropWhile_suffix _).length_le
      have hne : s.dropWhile blank ≠ a :: s := fun heq => by rw [heq] at hlen; simp at hlen
      simp [h, hne]
    · simp [h]

theorem head_dropWhile (s : List α) : ∀ a ∈ (s.dropWhile blank).head?, blank a = false := by
  intro a ha
  have h := List.head?_dropWhile_not blank s
  rw [Option.mem_def.1 ha] at h
  exact h

/-- a trimmed text has no blank at either end -/
theorem trimBy_ends (s : List α) :
    (∀ a ∈ (trimBy blank s).head?, blank a = false) ∧ ∀ a ∈ (trimBy blank s).getLast?, blank a = false := by
  unfold trimBy
  rw [List.head?_reverse, List.getLast?_reverse]
  refine ⟨fun a ha => ?_, head_dropWhile _⟩
  obtain ⟨front, hfront⟩ := List.dropWhile_suffix (l := (s.dropWhile blank).reverse) blank
  have hlast : a ∈ (s.dropWhile blank).reverse.getLast? := by
    rw [← hfront, List.getLast?_append, Option.mem_def.1 ha]
    simp
  rw [List.getLast?_reverse] at hlast
  exact head_dropWhile s a hlast

/-- trimming leaves alone what has no blank at either end -/
theorem trimBy_eq_self {s : List α} :
    trimBy blank s = s ↔ (∀ a ∈ s.head?, blank a = false) ∧ ∀ a ∈ s.getLast?, blank a = false := by
  constructor
  · intro h
    have hends := @trimBy_ends _ blank s
    rwa [h] at hends
  · rintro ⟨hhead, hlast⟩
    have hreverse : s.reverse.dropWhile blank = s.reverse :=
      dropWhile_eq_self.2 (by rw [List.head?_reverse]; exact hlast)
    rw [trimBy, dropWhile_eq_self.2 hhead, hreverse, List.reverse_reverse]

end Trim

/-! ## Values -/

/-- a JSON value, over texts and numbers -/
inductive Json (σ ν : Type) where
  | null
  | bool (b : Bool)
  | num (n : ν)
  | str (s : σ)
  | arr (vs : List (Json σ ν))
  | obj (kvs : List (σ × Json σ ν))

/-- a number as Python decodes it -/
inductive Number where
  | int (n : ℤ)
  | float (q : ℚ)
deriving DecidableEq

/-- a number as its text tells it: JavaScript writes integers below 10^21 as such -/
def receivedNumber (q : ℚ) : Number := if q.den = 1 ∧ |q| < 10 ^ 21 then .int q.num else .float q

abbrev JsValue := Json Units ℚ
abbrev PyValue := Json (List ℕ) Number

mutual
/-- what Python decodes from the text of a value -/
def received : JsValue → PyValue
  | .null => .null
  | .bool b => .bool b
  | .num q => .num (receivedNumber q)
  | .str s => .str (decode s)
  | .arr vs => .arr (receivedAll vs)
  | .obj kvs => .obj (receivedMembers kvs)
def receivedAll : List JsValue → List PyValue
  | [] => []
  | v :: vs => received v :: receivedAll vs
def receivedMembers : List (Units × JsValue) → List (List ℕ × PyValue)
  | [] => []
  | (k, v) :: kvs => (decode k, received v) :: receivedMembers kvs
end

end Wire
