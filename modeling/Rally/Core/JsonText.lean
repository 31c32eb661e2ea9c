/-
The texts that `json.loads` reads. Nothing here is about one program.

A string literal is first read as UTF-16 code units and then as characters; a lone surrogate, which is no character here,
is refused. The depth of a text is not limited. What a decimal fraction is rounded to is left to a function `F`.

- `loads`: the value of a text, or the exception it raises.
- `Quote`: which characters of a text stand inside a string literal. A text that is read ends outside (`loads_run`), and
  when its literals and what stands between them are swapped, no key has anything but bare characters (`loads_shadow`).
-/
import Rally.Core.Dict
import Rally.Core.Json

namespace Py

/-! ## The reader -/

inductive LoadError where
  /-- `JSONDecodeError` -/
  | decode
  /-- `ValueError` for an integer of too many digits -/
  | digits
deriving DecidableEq, Repr

/-- the blanks between tokens -/
def blank (c : Char) : Bool := c = ' ' || c = '\t' || c = '\n' || c = '\r'

def skip (cs : List Char) : List Char := cs.dropWhile blank

/-- what follows a token of one character, with blanks before it -/
def expect (c : Char) (cs : List Char) : Option (List Char) :=
  match skip cs with
  | [] => none
  | d :: r => if d = c then some r else none

def hexDigit? (c : Char) : Option ℕ :=
  if c.isDigit then some (c.toNat - 48)
  else if 'a' ≤ c ∧ c ≤ 'f' then some (c.toNat - 87)
  else if 'A' ≤ c ∧ c ≤ 'F' then some (c.toNat - 55)
  else none

/-- the unit that a letter after a backslash stands for -/
def unescape (c : Char) : Option ℕ := ((('/', '/') :: shortEscapes).find? fun p => p.2 = c).map fun p => p.1.toNat

/-- where the reader of a string literal is -/
inductive Mode where
  | plain
  | escaped
  | hex (left value : ℕ)
deriving DecidableEq, Repr

/-- the code units up to the closing quote, and what follows it -/
def scan : Mode → List Char → Option (List ℕ × List Char)
  | _, [] => none
  | .plain, c :: r =>
    if c = '"' then some ([], r)
    else if c = '\\' then scan .escaped r
    else if c.toNat < 0x20 then none
    else (scan .plain r).map fun p => (c.toNat :: p.1, p.2)
  | .escaped, c :: r =>
    if c = 'u' then scan (.hex 3 0) r
    else match unescape c with
      | some u => (scan .plain r).map fun p => (u :: p.1, p.2)
      | none => none
  | .hex left value, c :: r =>
    match hexDigit? c, left with
    | none, _ => none
    | some d, 0 => (scan .plain r).map fun p => ((value * 16 + d) :: p.1, p.2)
    | some d, left + 1 => scan (.hex left (value * 16 + d)) r

/-- code units to characters, with the halves of a pair joined -/
def joinUnits : List ℕ → Option (List Char)
  | [] => some []
  | u :: us =>
    if 0xdc00 ≤ u ∧ u < 0xe000 then none
    else if 0xd800 ≤ u ∧ u < 0xdc00 then
      match us with
      | [] => none
      | v :: us =>
        if 0xdc00 ≤ v ∧ v < 0xe000 then
          (joinUnits us).map fun cs => Char.ofNat (0x10000 + (u - 0xd800) * 0x400 + (v - 0xdc00)) :: cs
        else none
    else (joinUnits us).map fun cs => Char.ofNat u :: cs

/-- a string literal, from behind its opening quote -/
def scanString (cs : List Char) : Option (String × List Char) := do
  let (us, r) ← scan .plain cs
  let s ← joinUnits us
  some (String.ofList s, r)

/-- `(\.\d+)?` -/
def fraction : List Char → List Char × List Char
  | '.' :: r =>
    if r.takeWhile Char.isDigit = [] then ([], '.' :: r)
    else ('.' :: r.takeWhile Char.isDigit, r.dropWhile Char.isDigit)
  | cs => ([], cs)

/-- `[-+]?` -/
def sign : List Char → List Char × List Char
  | '-' :: r => (['-'], r)
  | '+' :: r => (['+'], r)
  | cs => ([], cs)

/-- `([eE][-+]?\d+)?` -/
def exponent : List Char → List Char × List Char
  | [] => ([], [])
  | c :: r =>
    if (c = 'e' ∨ c = 'E') ∧ (sign r).2.takeWhile Char.isDigit ≠ [] then
      (c :: (sign r).1 ++ (sign r).2.takeWhile Char.isDigit, (sign r).2.dropWhile Char.isDigit)
    else ([], c :: r)

/-- `-?` -/
def minus : List Char → List Char × List Char
  | '-' :: r => (['-'], r)
  | cs => ([], cs)

/-- `0|[1-9]\d*`, empty where there is no digit -/
def whole : List Char → List Char × List Char
  | '0' :: r => (['0'], r)
  | cs => (cs.takeWhile Char.isDigit, cs.dropWhile Char.isDigit)

section Reader

variable (F : List Char → Float)

/-- a number: an integer unless it has a fraction or an exponent -/
def scanNumber (cs : List Char) : Except LoadError (Value × List Char) :=
  let (neg, cs) := minus cs
  let (int, cs) := whole cs
  let (frac, cs) := fraction cs
  let (exp, cs) := exponent cs
  if int = [] then .error .decode
  else if frac = [] ∧ exp = [] then
    if int.length ≤ maxDigits then
      .ok (.int (if neg = [] then Nat.ofDigitChars 10 int 0 else -(Nat.ofDigitChars 10 int 0 : ℤ)), cs)
    else .error .digits
  else .ok (.float (F (neg ++ int ++ frac ++ exp)), cs)

/-- the constants -/
def literals : List (String × Value) :=
  [("null", .none), ("true", .bool true), ("false", .bool false), ("NaN", .float .nan), ("Infinity", .float .posInf),
    ("-Infinity", .float .negInf)]

def scanLiteral (cs : List Char) : Option (Value × List Char) :=
  literals.findSome? fun p => if p.1.toList.isPrefixOf cs then some (p.2, cs.drop p.1.length) else none

/-- `dict(pairs)`: the last value of a key, where the key stood first -/
def ofPairs (pairs : List (String × Value)) : List (String × Value) := Dict.build Prod.fst (fun p _ => p.2) pairs

mutual
/-- one value, from its first character on -/
def scanValue : ℕ → List Char → Except LoadError (Value × List Char)
  | 0, _ => .error .decode
  | _ + 1, [] => .error .decode
  | n + 1, c :: r =>
    if c = '"' then
      match scanString r with
      | some (s, r) => .ok (.str s, r)
      | none => .error .decode
    else if c = '\x7b' then
      match expect '\x7d' r with
      | some r => .ok (.dict [], r)
      | none => do
        let (kvs, r) ← scanMembers n (skip r)
        .ok (.dict (ofPairs kvs), r)
    else if c = '[' then
      match expect ']' r with
      | some r => .ok (.list [], r)
      | none => do
        let (xs, r) ← scanItems n (skip r)
        .ok (.list xs, r)
    else
      match scanLiteral (c :: r) with
      | some (v, r) => .ok (v, r)
      | none => scanNumber F (c :: r)
/-- the members of an object and its closing brace, from the first key on -/
def scanMembers : ℕ → List Char → Except LoadError (List (String × Value) × List Char)
  | 0, _ => .error .decode
  | _ + 1, [] => .error .decode
  | n + 1, c :: r =>
    if c = '"' then
      match scanString r with
      | none => .error .decode
      | some (k, r) =>
        match expect ':' r with
        | none => .error .decode
        | some r => do
          let (v, r) ← scanValue n (skip r)
          match expect '\x7d' r, expect ',' r with
          | some r, _ => .ok ([(k, v)], r)
          | none, none => .error .decode
          | none, some r => do
            let (kvs, r) ← scanMembers n (skip r)
            .ok ((k, v) :: kvs, r)
    else .error .decode
/-- the members of an array and its closing bracket -/
def scanItems : ℕ → List Char → Except LoadError (List Value × List Char)
  | 0, _ => .error .decode
  | n + 1, cs => do
    let (v, r) ← scanValue n cs
    match expect ']' r, expect ',' r with
    | some r, _ => .ok ([v], r)
    | none, none => .error .decode
    | none, some r => do
      let (xs, r) ← scanItems n (skip r)
      .ok (v :: xs, r)
end

/-- `json.loads` -/
def loads (cs : List Char) : Except LoadError Value := do
  let (v, r) ← scanValue F ((skip cs).length + 1) (skip cs)
  if skip r = [] then .ok v else .error .decode

end Reader

/-! ## Inside and outside of string literals -/

/-- the characters that stand outside of string literals -/
def bareChars : List Char :=
  [' ', '\t', '\n', '\r', '\x7b', '\x7d', '[', ']', ':', ',', '-', '+', '.', 'e', 'E'] ++ "0123456789".toList ++
    literals.flatMap fun p => p.1.toList

/-- where a character of a text stands -/
inductive Quote where
  | outside
  | inside
  | escaped
deriving DecidableEq, Repr

/-- one character further; outside of literals only bare characters stand, and only some are escaped by a letter -/
def Quote.next : Quote → Char → Option Quote
  | .outside, c => if c = '"' then some .inside else if c ∈ bareChars then some .outside else none
  | .inside, c => if c = '"' then some .outside else if c = '\\' then some .escaped else some .inside
  | .escaped, c => if c = 'u' ∨ (unescape c).isSome then some .inside else none

def Quote.run (q : Quote) (cs : List Char) : Option Quote := cs.foldlM Quote.next q

theorem quote_not_bare : '"' ∉ bareChars := by decide

theorem backslash_not_bare : '\\' ∉ bareChars := by decide

theorem bare_small : ∀ c ∈ bareChars, c.toNat < 0x80 := by decide

namespace Quote

@[simp] theorem run_nil (q : Quote) : q.run [] = some q := rfl

theorem run_cons (q : Quote) (c : Char) (cs : List Char) : q.run (c :: cs) = q.next c >>= fun q => q.run cs := by
  simp [run, List.foldlM_cons]

theorem run_append (q : Quote) (xs ys : List Char) : q.run (xs ++ ys) = q.run xs >>= fun q => q.run ys := by
  simp [run, List.foldlM_append]

theorem run_append_of {q q' : Quote} {xs : List Char} (h : q.run xs = some q') (ys : List Char) :
    q.run (xs ++ ys) = q'.run ys := by
  rw [run_append, h]
  rfl

/-- what runs through runs through to any point on the way -/
theorem run_prefix {q q' : Quote} {xs ys : List Char} (h : q.run (xs ++ ys) = some q') :
    ∃ m, q.run xs = some m ∧ m.run ys = some q' := by
  rw [run_append] at h
  exact Option.bind_eq_some_iff.1 h

@[simp] theorem next_outside_quote : next .outside '"' = some .inside := rfl

@[simp] theorem next_inside_quote : next .inside '"' = some .outside := rfl

theorem next_bare {c : Char} (h : c ∈ bareChars) : next .outside c = some .outside := by
  have hne : c ≠ '"' := by
    rintro rfl
    exact quote_not_bare h
  simp [next, hne, h]

theorem next_outside {c : Char} {q : Quote} (h : next .outside c = some q) :
    (c = '"' ∧ q = .inside) ∨ (c ∈ bareChars ∧ q = .outside) := by
  simp only [next] at h
  by_cases hq : c = '"'
  · rw [if_pos hq] at h
    exact Or.inl ⟨hq, (Option.some.inj h).symm⟩
  · rw [if_neg hq] at h
    by_cases hb : c ∈ bareChars
    · rw [if_pos hb] at h
      exact Or.inr ⟨hb, (Option.some.inj h).symm⟩
    · rw [if_neg hb] at h
      cases h

theorem next_text {c : Char} (hq : c ≠ '"') (hs : c ≠ '\\') : next .inside c = some .inside := by
  simp [next, hq, hs]

theorem run_bare {cs : List Char} (h : ∀ c ∈ cs, c ∈ bareChars) : run .outside cs = some .outside := by
  induction cs with
  | nil => rfl
  | cons c cs ih =>
    rw [run_cons, next_bare (h c List.mem_cons_self)]
    exact ih fun d hd => h d (List.mem_cons_of_mem c hd)

theorem run_text {cs : List Char} (h : ∀ c ∈ cs, c ≠ '"' ∧ c ≠ '\\') : run .inside cs = some .inside := by
  induction cs with
  | nil => rfl
  | cons c cs ih =>
    have hc := h c List.mem_cons_self
    rw [run_cons, next_text hc.1 hc.2]
    exact ih fun d hd => h d (List.mem_cons_of_mem c hd)

/-- one run is outside of a literal where the other is inside of one -/
def Swapped (p q : Quote) : Prop := (p = .outside ∧ q = .inside) ∨ (p = .inside ∧ q = .outside)

theorem next_swapped {p q p' q' : Quote} {c : Char} (h : Swapped p q) (hp : p.next c = some p')
    (hq : q.next c = some q') : Swapped p' q' := by
  have hinside : ∀ {a b : Quote}, next .outside c = some a → next .inside c = some b → Swapped a b := by
    intro a b ha hb
    rcases next_outside ha with ⟨rfl, rfl⟩ | ⟨hbare, rfl⟩
    · exact Or.inr ⟨rfl, (Option.some.inj hb).symm⟩
    · have hquote : c ≠ '"' := by
        rintro rfl
        exact quote_not_bare hbare
      have hslash : c ≠ '\\' := by
        rintro rfl
        exact backslash_not_bare hbare
      rw [next_text hquote hslash] at hb
      exact Or.inl ⟨rfl, (Option.some.inj hb).symm⟩
  rcases h with ⟨rfl, rfl⟩ | ⟨rfl, rfl⟩
  · exact hinside hp hq
  · exact (hinside hq hp).symm.imp And.symm And.symm

/-- **Swapped runs.** Two runs that start on different sides of a quote end on different sides. -/
theorem run_swapped {p q p' q' : Quote} {cs : List Char} (h : Swapped p q) (hp : p.run cs = some p')
    (hq : q.run cs = some q') : Swapped p' q' := by
  induction cs generalizing p q with
  | nil =>
    cases hp
    cases hq
    exact h
  | cons c cs ih =>
    rw [run_cons] at hp hq
    obtain ⟨p1, hp1, hp⟩ := Option.bind_eq_some_iff.1 hp
    obtain ⟨q1, hq1, hq⟩ := Option.bind_eq_some_iff.1 hq
    exact ih (next_swapped h hp1 hq1) hp hq

end Quote

/-! ## What the reader takes from a text -/

/-- what was read between two points of a text, whole string literals among it -/
def Eats (cs rest : List Char) : Prop := ∃ used, cs = used ++ rest ∧ Quote.run .outside used = some .outside

/-- with literals and the text between them swapped, the text still runs through -/
def Shadow (cs : List Char) : Prop := (Quote.run .inside cs).isSome = true

namespace Eats

theorem refl (cs : List Char) : Eats cs cs := ⟨[], rfl, rfl⟩

theorem trans {a b c : List Char} (h : Eats a b) (h' : Eats b c) : Eats a c := by
  obtain ⟨u, rfl, hu⟩ := h
  obtain ⟨v, rfl, hv⟩ := h'
  exact ⟨u ++ v, (List.append_assoc u v c).symm, by rw [Quote.run_append_of hu, hv]⟩

theorem of_bare {used rest : List Char} (h : ∀ c ∈ used, c ∈ bareChars) : Eats (used ++ rest) rest :=
  ⟨used, rfl, Quote.run_bare h⟩

theorem cons {c : Char} {r rest : List Char} (hc : c ∈ bareChars) (h : Eats r rest) : Eats (c :: r) rest :=
  (@of_bare [c] _ (by simpa using hc)).trans h

/-- the shadow goes on behind what was read -/
theorem shadow {cs rest : List Char} (h : Eats cs rest) (hs : Shadow cs) : Shadow rest := by
  obtain ⟨used, rfl, hused⟩ := h
  obtain ⟨q, hq⟩ := Option.isSome_iff_exists.1 hs
  obtain ⟨m, hm, hrest⟩ := Quote.run_prefix hq
  rcases Quote.run_swapped (Or.inl ⟨rfl, rfl⟩) hused hm with ⟨-, rfl⟩ | ⟨h, -⟩
  · exact Option.isSome_iff_exists.2 ⟨q, hrest⟩
  · cases h

end Eats

theorem blank_bare {c : Char} (h : blank c = true) : c ∈ bareChars := by
  simp only [blank, Bool.or_eq_true, decide_eq_true_eq] at h
  rcases h with ((rfl | rfl) | rfl) | rfl <;> decide

theorem digit_bare {c : Char} (h : c.isDigit = true) : c ∈ bareChars := by
  have hall : ∀ n < 10, Char.ofNat (48 + n) ∈ bareChars := by decide
  simp only [Char.isDigit, Bool.and_eq_true, decide_eq_true_eq, UInt32.le_iff_toNat_le] at h
  have hlow : 48 ≤ c.toNat := h.1
  have hhigh : c.toNat ≤ 57 := h.2
  have hc := hall (c.toNat - 48) (by omega)
  rwa [show 48 + (c.toNat - 48) = c.toNat by omega, Char.ofNat_toNat] at hc

theorem eats_skip (cs : List Char) : Eats cs (skip cs) := by
  refine ⟨cs.takeWhile blank, (List.takeWhile_append_dropWhile).symm, Quote.run_bare fun c hc => ?_⟩
  exact blank_bare (List.all_eq_true.1 List.all_takeWhile c hc)

theorem eats_expect {c : Char} {cs r : List Char} (hc : c ∈ bareChars) (h : expect c cs = some r) : Eats cs r := by
  refine (eats_skip cs).trans ?_
  unfold expect at h
  cases hs : skip cs with
  | nil =>
    rw [hs] at h
    cases h
  | cons d t =>
    simp only [hs] at h
    by_cases hd : d = c
    · rw [if_pos hd] at h
      cases h
      subst hd
      exact .cons hc (.refl r)
    · rw [if_neg hd] at h
      cases h

/-- the part of a quote run that the reader of a literal is in -/
def Mode.quote : Mode → Quote
  | .plain => .inside
  | .escaped => .escaped
  | .hex _ _ => .inside

theorem hexDigit_text {c : Char} {d : ℕ} (h : hexDigit? c = some d) : c ≠ '"' ∧ c ≠ '\\' := by
  constructor
  · rintro rfl
    cases h
  · rintro rfl
    cases h

/-- a literal runs to its closing quote; in a shadow it is bare characters -/
theorem scan_spec {m : Mode} {cs rest : List Char} {us : List ℕ} (h : scan m cs = some (us, rest)) :
    ∃ used, cs = used ++ '"' :: rest ∧ m.quote.run used = some .inside ∧
      (m = .plain → (Quote.run .outside used).isSome = true → us = used.map Char.toNat ∧ ∀ c ∈ used, c ∈ bareChars) := by
  induction cs generalizing m us with
  | nil => cases m <;> cases h
  | cons c r ih =>
    cases m with
    | plain =>
      simp only [scan] at h
      split_ifs at h with hquote hslash hcontrol
      · cases h
        subst hquote
        exact ⟨[], rfl, rfl, fun _ _ => ⟨rfl, by simp⟩⟩
      · obtain ⟨used, rfl, hrun, -⟩ := ih h
        subst hslash
        refine ⟨'\\' :: used, rfl, hrun, fun _ hs => ?_⟩
        rw [Quote.run_cons] at hs
        cases hs
      · obtain ⟨⟨us', rest'⟩, hp, heq⟩ := Option.map_eq_some_iff.1 h
        cases heq
        obtain ⟨used, rfl, hrun, hshadow⟩ := ih hp
        refine ⟨c :: used, rfl, ?_, fun _ hs => ?_⟩
        · rw [Mode.quote, Quote.run_cons, Quote.next_text hquote hslash]
          exact hrun
        · rw [Quote.run_cons] at hs
          obtain ⟨q, hq⟩ := Option.isSome_iff_exists.1 hs
          obtain ⟨q', hnext, hq⟩ := Option.bind_eq_some_iff.1 hq
          rcases Quote.next_outside hnext with ⟨hc, -⟩ | ⟨hbare, rfl⟩
          · exact absurd hc hquote
          · obtain ⟨hus, hall⟩ := hshadow rfl (Option.isSome_iff_exists.2 ⟨q, hq⟩)
            exact ⟨by rw [hus, List.map_cons], List.forall_mem_cons.2 ⟨hbare, hall⟩⟩
    | escaped =>
      simp only [scan] at h
      have hnext : ∀ (used : List Char), (c = 'u' ∨ (unescape c).isSome = true) →
          Quote.run .inside used = some .inside → Quote.run .escaped (c :: used) = some .inside := by
        intro used hc hrun
        rw [Quote.run_cons]
        simp only [Quote.next]
        rw [if_pos hc]
        exact hrun
      split_ifs at h with hu
      · obtain ⟨used, rfl, hrun, -⟩ := ih h
        exact ⟨c :: used, rfl, hnext used (Or.inl hu) hrun, fun h => by cases h⟩
      · cases hun : unescape c with
        | none =>
          rw [hun] at h
          cases h
        | some u =>
          simp only [hun] at h
          obtain ⟨⟨us', rest'⟩, hp, heq⟩ := Option.map_eq_some_iff.1 h
          cases heq
          obtain ⟨used, rfl, hrun, -⟩ := ih hp
          exact ⟨c :: used, rfl, hnext used (Or.inr (by rw [hun]; rfl)) hrun, fun h => by cases h⟩
    | hex left value =>
      simp only [scan] at h
      cases hd : hexDigit? c with
      | none =>
        rw [hd] at h
        cases h
      | some d =>
        have htext := hexDigit_text hd
        have hnext : ∀ (used : List Char), Quote.run .inside used = some .inside →
            Quote.run .inside (c :: used) = some .inside := by
          intro used hrun
          rw [Quote.run_cons, Quote.next_text htext.1 htext.2]
          exact hrun
        cases left with
        | zero =>
          simp only [hd] at h
          obtain ⟨⟨us', rest'⟩, hp, heq⟩ := Option.map_eq_some_iff.1 h
          cases heq
          obtain ⟨used, rfl, hrun, -⟩ := ih hp
          exact ⟨c :: used, rfl, hnext used hrun, fun h => by cases h⟩
        | succ left =>
          simp only [hd] at h
          obtain ⟨used, rfl, hrun, -⟩ := ih h
          exact ⟨c :: used, rfl, hnext used hrun, fun h => by cases h⟩

/-- the characters of a text below the surrogates are themselves -/
theorem joinUnits_small {cs : List Char} (h : ∀ c ∈ cs, c.toNat < 0x80) : joinUnits (cs.map Char.toNat) = some cs := by
  induction cs with
  | nil => rfl
  | cons c cs ih =>
    have hc := h c List.mem_cons_self
    rw [List.map_cons]
    unfold joinUnits
    rw [if_neg (by omega), if_neg (by omega), ih fun d hd => h d (List.mem_cons_of_mem c hd), Char.ofNat_toNat]
    rfl

/-- a string literal, from behind its opening quote -/
theorem scanString_spec {cs rest : List Char} {s : String} (h : scanString cs = some (s, rest)) :
    Eats ('"' :: cs) rest ∧ (Shadow ('"' :: cs) → ∀ c ∈ s.toList, c ∈ bareChars) := by
  obtain ⟨⟨us, r⟩, hscan, h⟩ := Option.bind_eq_some_iff.1 h
  obtain ⟨s', hjoin, h⟩ := Option.bind_eq_some_iff.1 h
  cases h
  obtain ⟨used, rfl, hrun, hshadow⟩ := scan_spec hscan
  have hrun' : Quote.run .outside ('"' :: used ++ ['"']) = some .outside := by
    rw [List.cons_append, Quote.run_cons, Quote.next_outside_quote]
    change Quote.run .inside (used ++ ['"']) = some .outside
    rw [Quote.run_append_of (show Quote.run .inside used = some .inside from hrun)]
    rfl
  refine ⟨⟨'"' :: used ++ ['"'], by simp, hrun'⟩, fun hs => ?_⟩
  obtain ⟨q, hq⟩ := Option.isSome_iff_exists.1 hs
  rw [Quote.run_cons, Quote.next_inside_quote] at hq
  obtain ⟨m, hm, -⟩ := Quote.run_prefix (show Quote.run .outside (used ++ '"' :: rest) = some q from hq)
  obtain ⟨hus, hall⟩ := hshadow rfl (Option.isSome_iff_exists.2 ⟨m, hm⟩)
  have hsame : joinUnits us = some used := by rw [hus]; exact joinUnits_small fun c hc => bare_small c (hall c hc)
  obtain rfl : s' = used := Option.some.inj (hjoin.symm.trans hsame)
  simpa using hall

/-- the characters of numbers -/
def Numeral (c : Char) : Prop := c.isDigit = true ∨ c ∈ ['-', '+', '.', 'e', 'E']

/-- what was read between two points of a text is made of such characters -/
def Numeric (cs rest : List Char) : Prop := ∃ used, cs = used ++ rest ∧ ∀ c ∈ used, Numeral c

namespace Numeric

theorem refl (cs : List Char) : Numeric cs cs := ⟨[], rfl, by simp⟩

theorem trans {a b c : List Char} (h : Numeric a b) (h' : Numeric b c) : Numeric a c := by
  obtain ⟨u, rfl, hu⟩ := h
  obtain ⟨v, rfl, hv⟩ := h'
  exact ⟨u ++ v, (List.append_assoc u v c).symm, fun d hd => (List.mem_append.1 hd).elim (hu d) (hv d)⟩

theorem cons {c : Char} {r rest : List Char} (hc : Numeral c) (h : Numeric r rest) : Numeric (c :: r) rest := by
  obtain ⟨u, rfl, hu⟩ := h
  exact ⟨c :: u, rfl, List.forall_mem_cons.2 ⟨hc, hu⟩⟩

theorem eats {cs rest : List Char} (h : Numeric cs rest) : Eats cs rest := by
  obtain ⟨used, rfl, hused⟩ := h
  refine .of_bare fun c hc => ?_
  rcases hused c hc with hd | hmem
  · exact digit_bare hd
  · have hall : ∀ c ∈ ['-', '+', '.', 'e', 'E'], c ∈ bareChars := by decide
    exact hall c hmem

theorem digits (cs : List Char) : Numeric cs (cs.dropWhile Char.isDigit) :=
  ⟨cs.takeWhile Char.isDigit, List.takeWhile_append_dropWhile.symm,
    fun c hc => Or.inl (List.all_eq_true.1 List.all_takeWhile c hc)⟩

theorem minus (cs : List Char) : Numeric cs (minus cs).2 := by
  unfold Py.minus
  split
  · exact .cons (Or.inr (by decide)) (.refl _)
  · exact .refl _

theorem whole (cs : List Char) : Numeric cs (whole cs).2 := by
  unfold Py.whole
  split
  · exact .cons (Or.inl (by decide)) (.refl _)
  · exact .digits _

theorem fraction (cs : List Char) : Numeric cs (fraction cs).2 := by
  unfold Py.fraction
  split
  · split_ifs
    · exact .refl _
    · exact .cons (Or.inr (by decide)) (.digits _)
  · exact .refl _

theorem sign (cs : List Char) : Numeric cs (sign cs).2 := by
  unfold Py.sign
  split
  · exact .cons (Or.inr (by decide)) (.refl _)
  · exact .cons (Or.inr (by decide)) (.refl _)
  · exact .refl _

theorem exponent (cs : List Char) : Numeric cs (exponent cs).2 := by
  unfold Py.exponent
  split
  · exact .refl _
  · split_ifs with h
    · refine .cons (Or.inr ?_) ((Numeric.sign _).trans (.digits _))
      rcases h.1 with rfl | rfl <;> decide
    · exact .refl _

end Numeric

section Reader

variable {F : List Char → Float}

theorem scanNumber_spec {cs rest : List Char} {v : Value} (h : scanNumber F cs = .ok (v, rest)) :
    Numeric cs rest ∧ ∀ kvs, v ≠ .dict kvs := by
  have hused := (((Numeric.minus cs).trans (.whole _)).trans (.fraction _)).trans (.exponent _)
  unfold scanNumber at h
  simp only at h
  split_ifs at h
  all_goals
    cases h
    exact ⟨hused, fun kvs hd => by cases hd⟩

theorem scanLiteral_spec {cs rest : List Char} {v : Value} (h : scanLiteral cs = some (v, rest)) :
    Eats cs rest ∧ ∀ kvs, v ≠ .dict kvs := by
  have hplain : ∀ p ∈ literals, (∀ c ∈ p.1.toList, c ∈ bareChars) ∧ ∀ kvs, p.2 ≠ .dict kvs := by
    intro p hp
    refine ⟨fun c hc => ?_, fun kvs hd => ?_⟩
    · exact List.mem_append_right _ (List.mem_flatMap.2 ⟨p, hp, hc⟩)
    · simp only [literals, List.mem_cons, List.not_mem_nil, or_false] at hp
      rcases hp with rfl | rfl | rfl | rfl | rfl | rfl <;> cases hd
  obtain ⟨p, hp, h⟩ := List.exists_of_findSome?_eq_some h
  split_ifs at h with hprefix
  cases h
  obtain ⟨t, rfl⟩ := List.isPrefixOf_iff_prefix.1 hprefix
  refine ⟨?_, (hplain p hp).2⟩
  rw [← String.length_toList, List.drop_left]
  exact .of_bare (hplain p hp).1

/-- the keys of a value, if it is an object, are bare -/
def BareKeys (v : Value) : Prop := ∀ kvs, v = .dict kvs → ∀ p ∈ kvs, ∀ c ∈ p.1.toList, c ∈ bareChars

theorem bareKeys_of_ne {v : Value} (h : ∀ kvs, v ≠ .dict kvs) : BareKeys v := fun kvs hv => absurd hv (h kvs)

/-- no key comes from nowhere -/
theorem ofPairs_keys {pairs : List (String × Value)} {p : String × Value} (h : p ∈ ofPairs pairs) :
    ∃ q ∈ pairs, q.1 = p.1 := by
  have hok : Dict.Ok (ofPairs pairs) := Dict.ok_build _ _ _
  have hget := (Dict.mem_iff hok).1 (show (p.1, p.2) ∈ ofPairs pairs from h)
  obtain ⟨q, hq, hkey, -⟩ := Dict.get?_build hget
  exact ⟨q, hq, hkey⟩

/-- **One value.** What is read is made of whole literals, and in a shadow the keys read are bare. -/
theorem scan_eats (n : ℕ) :
    (∀ cs v rest, scanValue F n cs = .ok (v, rest) → Eats cs rest ∧ (Shadow cs → BareKeys v)) ∧
      (∀ cs kvs rest, scanMembers F n cs = .ok (kvs, rest) →
        Eats cs rest ∧ (Shadow cs → ∀ p ∈ kvs, ∀ c ∈ p.1.toList, c ∈ bareChars)) ∧
      ∀ cs xs rest, scanItems F n cs = .ok (xs, rest) → Eats cs rest := by
  induction n with
  | zero =>
    refine ⟨fun cs v rest h => ?_, fun cs kvs rest h => ?_, fun cs xs rest h => ?_⟩
    · cases h
    · cases h
    · cases h
  | succ n ih =>
    obtain ⟨ihv, ihm, ihi⟩ := ih
    have hopen : '\x7b' ∈ bareChars := by decide
    have hclose : '\x7d' ∈ bareChars := by decide
    have hleft : '[' ∈ bareChars := by decide
    have hright : ']' ∈ bareChars := by decide
    have hcomma : ',' ∈ bareChars := by decide
    have hcolon : ':' ∈ bareChars := by decide
    refine ⟨fun cs v rest h => ?_, fun cs kvs rest h => ?_, fun cs xs rest h => ?_⟩
    · cases cs with
      | nil => cases h
      | cons c r =>
        simp only [scanValue] at h
        split_ifs at h with hquote hbrace hbracket
        · -- a string
          subst hquote
          cases hs : scanString r with
          | none =>
            rw [hs] at h
            cases h
          | some p =>
            rw [hs] at h
            cases h
            exact ⟨(scanString_spec hs).1, fun _ => bareKeys_of_ne (by simp)⟩
        · -- an object
          subst hbrace
          cases he : expect '\x7d' r with
          | some t =>
            rw [he] at h
            cases h
            refine ⟨.cons hopen (eats_expect hclose he), fun _ kvs hv p hp => ?_⟩
            cases hv
            cases hp
          | none =>
            simp only [he] at h
            obtain ⟨⟨pairs, t⟩, hm, h⟩ := bind_ok h
            cases h
            obtain ⟨heats, hkeys⟩ := ihm _ _ _ hm
            have hinto : Eats ('\x7b' :: r) (skip r) := .cons hopen (eats_skip r)
            refine ⟨hinto.trans heats, fun hs kvs hv p hp => ?_⟩
            cases hv
            obtain ⟨q, hq, hqp⟩ := ofPairs_keys hp
            rw [← hqp]
            exact hkeys (hinto.shadow hs) q hq
        · -- an array
          subst hbracket
          cases he : expect ']' r with
          | some t =>
            rw [he] at h
            cases h
            exact ⟨.cons hleft (eats_expect hright he), fun _ => bareKeys_of_ne (by simp)⟩
          | none =>
            simp only [he] at h
            obtain ⟨⟨ys, t⟩, hm, h⟩ := bind_ok h
            cases h
            exact ⟨(Eats.cons hleft (eats_skip r)).trans (ihi _ _ _ hm), fun _ => bareKeys_of_ne (by simp)⟩
        · cases hl : scanLiteral (c :: r) with
          | some p =>
            rw [hl] at h
            cases h
            obtain ⟨heats, hne⟩ := scanLiteral_spec hl
            exact ⟨heats, fun _ => bareKeys_of_ne hne⟩
          | none =>
            rw [hl] at h
            obtain ⟨hnumber, hne⟩ := scanNumber_spec h
            exact ⟨hnumber.eats, fun _ => bareKeys_of_ne hne⟩
    · cases cs with
      | nil => cases h
      | cons c r =>
        simp only [scanMembers] at h
        split_ifs at h with hquote
        subst hquote
        cases hs : scanString r with
        | none =>
          rw [hs] at h
          cases h
        | some p =>
          obtain ⟨k, r1⟩ := p
          simp only [hs] at h
          obtain ⟨hkey, hbare⟩ := scanString_spec hs
          cases hc : expect ':' r1 with
          | none =>
            rw [hc] at h
            cases h
          | some r2 =>
            simp only [hc] at h
            obtain ⟨⟨v, r3⟩, hv, h⟩ := bind_ok h
            have hvalue : Eats ('"' :: r) r3 :=
              ((hkey.trans (eats_expect hcolon hc)).trans (eats_skip r2)).trans (ihv _ _ _ hv).1
            cases hend : expect '\x7d' r3 with
            | some t =>
              simp only [hend] at h
              cases h
              refine ⟨hvalue.trans (eats_expect hclose hend), fun hsh p hp => ?_⟩
              rw [List.mem_singleton] at hp
              subst hp
              exact hbare hsh
            | none =>
              cases hnext : expect ',' r3 with
              | none =>
                simp only [hend, hnext] at h
                cases h
              | some r4 =>
                simp only [hend, hnext] at h
                obtain ⟨⟨kvs', t⟩, hm, h⟩ := bind_ok h
                cases h
                have hrest : Eats ('"' :: r) (skip r4) := (hvalue.trans (eats_expect hcomma hnext)).trans (eats_skip r4)
                obtain ⟨heats, hkeys⟩ := ihm _ _ _ hm
                exact ⟨hrest.trans heats, fun hsh => List.forall_mem_cons.2 ⟨hbare hsh, hkeys (hrest.shadow hsh)⟩⟩
    · simp only [scanItems] at h
      obtain ⟨⟨v, r⟩, hv, h⟩ := bind_ok h
      have hvalue := (ihv _ _ _ hv).1
      cases hend : expect ']' r with
      | some t =>
        simp only [hend] at h
        cases h
        exact hvalue.trans (eats_expect hright hend)
      | none =>
        cases hnext : expect ',' r with
        | none =>
          simp only [hend, hnext] at h
          cases h
        | some r1 =>
          simp only [hend, hnext] at h
          obtain ⟨⟨ys, t⟩, hm, h⟩ := bind_ok h
          cases h
          exact ((hvalue.trans (eats_expect hcomma hnext)).trans (eats_skip r1)).trans (ihi _ _ _ hm)

/-- a text that is read runs through -/
theorem loads_run {cs : List Char} {v : Value} (h : loads F cs = .ok v) : Quote.run .outside cs = some .outside := by
  obtain ⟨⟨w, r⟩, hv, h⟩ := bind_ok h
  simp only at h
  split_ifs at h with hend
  have heats := ((eats_skip cs).trans ((scan_eats _).1 _ _ _ hv).1).trans (eats_skip r)
  rw [hend] at heats
  obtain ⟨used, hused, hrun⟩ := heats
  rwa [hused, List.append_nil]

/-- **Shadows.** A text that runs through from inside of a literal has no key but bare ones. -/
theorem loads_shadow {cs : List Char} {v : Value} (h : loads F cs = .ok v) (hs : Shadow cs) : BareKeys v := by
  obtain ⟨⟨w, r⟩, hv, h⟩ := bind_ok h
  simp only at h
  split_ifs at h with hend
  cases h
  exact ((scan_eats _).1 _ _ _ hv).2 ((eats_skip cs).shadow hs)

end Reader

end Py
