/-
Decoded JSON values as a Python program sees them: truth value, `==`, hash equality, `int()`, `str.strip()` and the
exceptions these raise. Nothing here is about one program.

- Integers are unbounded. A float is its exact value, so each double has exactly one representation.
- `1`, `1.0` and `True` are equal and hash alike. `NaN` is equal to nothing under `==`. The decoder hands out one
  `NaN` object, so containers (which test identity first) find it again.
- Lists and dicts are unhashable: using one as a key raises `TypeError`.
- `Runtime` stands for the text operations that need the Unicode tables or the printing of floats. No result depends
  on what they return.
-/
import Mathlib.Tactic

namespace Py

/-- exceptions raised by the built-in operations -/
inductive Err where
  | typeError
  | valueError
  | overflowError
  | attributeError
  | keyError
deriving DecidableEq, Repr

/-- a double: the exact value, with the zeros told apart -/
inductive Float where
  | nan
  | posInf
  | negInf
  | negZero
  | fin (q : ℚ)
deriving DecidableEq, Repr

/-- a raised exception ends a sequence of operations -/
theorem bind_ok {ε α β : Type} {x : Except ε α} {f : α → Except ε β} {b : β} (h : x >>= f = .ok b) :
    ∃ a, x = .ok a ∧ f a = .ok b := by
  cases x with
  | error e => cases h
  | ok a => exact ⟨a, rfl, h⟩

/-- a comprehension that raises nothing yields one result for each member -/
theorem mapM_ok {ε α β : Type} {f : α → Except ε β} {xs : List α} {ys : List β} (h : xs.mapM f = .ok ys) :
    List.Forall₂ (fun x y => f x = .ok y) xs ys := by
  induction xs generalizing ys with
  | nil => simp only [List.mapM_nil] at h; cases h; exact .nil
  | cons x xs ih =>
    rw [List.mapM_cons] at h
    obtain ⟨y, hy, h⟩ := bind_ok h
    obtain ⟨zs, hzs, h⟩ := bind_ok h
    cases h
    exact .cons hy (ih hzs)

inductive Value where
  | none
  | bool (b : Bool)
  | int (n : ℤ)
  | float (f : Float)
  | str (s : String)
  | list (xs : List Value)
  | dict (kvs : List (String × Value))
deriving Repr

/-! ## Decidable equality of the representation -/

mutual
def Value.decEq : (a b : Value) → Decidable (a = b)
  | .none, b => by cases b <;> first | exact isTrue rfl | exact isFalse (by simp)
  | .bool x, b => by
    cases b with
    | bool y => exact decidable_of_iff (x = y) (by simp)
    | _ => exact isFalse (by simp)
  | .int x, b => by
    cases b with
    | int y => exact decidable_of_iff (x = y) (by simp)
    | _ => exact isFalse (by simp)
  | .float x, b => by
    cases b with
    | float y => exact decidable_of_iff (x = y) (by simp)
    | _ => exact isFalse (by simp)
  | .str x, b => by
    cases b with
    | str y => exact decidable_of_iff (x = y) (by simp)
    | _ => exact isFalse (by simp)
  | .list xs, b => by
    cases b with
    | list ys => exact @decidable_of_iff _ (xs = ys) (by simp) (Value.decEqList xs ys)
    | _ => exact isFalse (by simp)
  | .dict xs, b => by
    cases b with
    | dict ys => exact @decidable_of_iff _ (xs = ys) (by simp) (Value.decEqDict xs ys)
    | _ => exact isFalse (by simp)
def Value.decEqList : (a b : List Value) → Decidable (a = b)
  | [], [] => isTrue rfl
  | [], _ :: _ => isFalse (by simp)
  | _ :: _, [] => isFalse (by simp)
  | x :: xs, y :: ys =>
    match Value.decEq x y, Value.decEqList xs ys with
    | isTrue h, isTrue h' => isTrue (by rw [h, h'])
    | isFalse h, _ => isFalse (by simp [h])
    | _, isFalse h => isFalse (by simp [h])
def Value.decEqDict : (a b : List (String × Value)) → Decidable (a = b)
  | [], [] => isTrue rfl
  | [], _ :: _ => isFalse (by simp)
  | _ :: _, [] => isFalse (by simp)
  | (k, x) :: xs, (l, y) :: ys =>
    match instDecidableEqString k l, Value.decEq x y, Value.decEqDict xs ys with
    | isTrue hk, isTrue h, isTrue h' => isTrue (by rw [hk, h, h'])
    | isFalse h, _, _ => isFalse (by simp [h])
    | _, isFalse h, _ => isFalse (by simp [h])
    | _, _, isFalse h => isFalse (by simp [h])
end

instance : DecidableEq Value := Value.decEq

/-! ## Truth value and numbers -/

/-- the number a value compares as -/
inductive Num where
  | nan
  | posInf
  | negInf
  | fin (q : ℚ)
deriving DecidableEq, Repr

def Float.num : Float → Num
  | .nan => .nan
  | .posInf => .posInf
  | .negInf => .negInf
  | .negZero => .fin 0
  | .fin q => .fin q

def Value.num? : Value → Option Num
  | .bool b => some (.fin (if b then 1 else 0))
  | .int n => some (.fin n)
  | .float f => some f.num
  | _ => Option.none

/-- `bool(v)` -/
def Value.truthy : Value → Bool
  | .none => false
  | .bool b => b
  | .int n => n ≠ 0
  | .float f => f.num ≠ .fin 0
  | .str s => s ≠ ""
  | .list xs => !xs.isEmpty
  | .dict kvs => !kvs.isEmpty

/-- `v or d` -/
def Value.orElse (v d : Value) : Value := if v.truthy then v else d

/-! ## Equality -/

mutual
/-- `a is b or a == b`, which is what containers test -/
def Value.same : Value → Value → Bool
  | .none, .none => true
  | .str s, .str t => s = t
  | .list xs, .list ys => Value.sameList xs ys
  | .dict xs, .dict ys => xs.length = ys.length && Value.sameDict xs ys
  | a, b => match a.num?, b.num? with
    | some m, some n => m = n
    | _, _ => false
def Value.sameList : List Value → List Value → Bool
  | [], [] => true
  | x :: xs, y :: ys => Value.same x y && Value.sameList xs ys
  | _, _ => false
/-- every member of the first dict has an equal one in the second -/
def Value.sameDict : List (String × Value) → List (String × Value) → Bool
  | [], _ => true
  | (k, x) :: xs, ys => ys.any (fun p => p.1 = k && Value.same x p.2) && Value.sameDict xs ys
end

/-- `a == b` -/
def Value.eq (a b : Value) : Bool := a.num? ≠ some .nan && a.same b

@[simp] theorem Value.same_str (v : Value) (s : String) : Value.same v (.str s) = decide (v = .str s) := by
  cases v <;> simp [Value.same, Value.num?]

@[simp] theorem Value.eq_str (v : Value) (s : String) : Value.eq v (.str s) = decide (v = .str s) := by
  cases v <;> simp [Value.eq, Value.num?, Value.same]

@[simp] theorem Value.same_none (v : Value) : Value.same v .none = decide (v = .none) := by
  cases v <;> simp [Value.same, Value.num?]

/-! ## Hash keys -/

/-- what a dict or a set tells keys apart by -/
inductive Key where
  | none
  | num (n : Num)
  | str (s : String)
deriving DecidableEq, Repr

/-- the hash key of a value, `none` for an unhashable one -/
def Value.key? : Value → Option Key
  | .none => some .none
  | .str s => some (.str s)
  | .list _ => Option.none
  | .dict _ => Option.none
  | v => v.num?.map Key.num

/-- `hash(v)`: lists and dicts raise `TypeError` -/
def Value.key (v : Value) : Except Err Key :=
  match v.key? with
  | some k => .ok k
  | Option.none => .error .typeError

theorem Value.key_ok {v : Value} {k : Key} : v.key = .ok k ↔ v.key? = some k := by
  unfold Value.key
  cases v.key? <;> simp

@[simp] theorem Value.key?_str (s : String) : Value.key? (.str s) = some (.str s) := rfl

theorem Value.key?_eq_str {v : Value} {s : String} : v.key? = some (.str s) ↔ v = .str s := by
  cases v <;> simp [Value.key?, Value.num?]

/-- equal keys have the same truth value -/
theorem Value.truthy_of_key {v w : Value} {k : Key} (hv : v.key? = some k) (hw : w.key? = some k) :
    v.truthy = w.truthy := by
  have truth : ∀ u : Value, u.key? = some k →
      u.truthy = decide (k ≠ .none ∧ k ≠ .str "" ∧ k ≠ .num (.fin 0)) := by
    intro u hu
    cases u with
    | none => cases hu; simp [Value.truthy]
    | bool b => cases hu; cases b <;> simp [Value.truthy]
    | int n => cases hu; simp [Value.truthy]
    | float f => cases hu; simp [Value.truthy]
    | str s => cases hu; simp [Value.truthy]
    | list xs => cases hu
    | dict kvs => cases hu
  rw [truth v hv, truth w hw]

/-! ## Reading a dict -/

/-- `v.get(k)` for a dict; anything else has no `get` -/
def Value.get (v : Value) (k : String) : Except Err Value :=
  match v with
  | .dict kvs => .ok ((kvs.lookup k).getD .none)
  | _ => .error .attributeError

/-- iterating a value: lists yield elements, dicts keys, strings characters -/
def Value.iter : Value → Except Err (List Value)
  | .list xs => .ok xs
  | .dict kvs => .ok (kvs.map fun p => .str p.1)
  | .str s => .ok (s.toList.map fun c => .str (String.singleton c))
  | _ => .error .typeError

/-! ## Strings -/

/-- what holds of the characters of a text is decided by going through the text, not through all characters -/
instance (priority := high) decidableForallChar (p : Char → Prop) [DecidablePred p] (cs : List Char) :
    Decidable (∀ c ∈ cs, p c) :=
  List.decidableBAll p cs

/-- `c.isspace()` -/
def isSpace (c : Char) : Bool :=
  let n := c.toNat
  (9 ≤ n && n ≤ 13) || (0x1c ≤ n && n ≤ 0x20) || n = 0x85 || n = 0xa0 || n = 0x1680 ||
    (0x2000 ≤ n && n ≤ 0x200a) || n = 0x2028 || n = 0x2029 || n = 0x202f || n = 0x205f || n = 0x3000

/-- `s.strip()` on a list of characters -/
def stripChars (cs : List Char) : List Char :=
  ((cs.dropWhile isSpace).reverse.dropWhile isSpace).reverse

/-- `s.strip()` -/
def strip (s : String) : String := String.ofList (stripChars s.toList)

/-- `s.startswith(p)` -/
def startsWith (s p : String) : Bool := p.toList.isPrefixOf s.toList

/-- `s.split()` -/
def split (s : String) : List String :=
  ((s.toList.splitOnP isSpace).filter fun w => !w.isEmpty).map String.ofList

/-- `s[:n]` -/
def takeChars (s : String) (n : ℕ) : String := String.ofList (s.toList.take n)

/-- `v[:n]` -/
def Value.sliceTo (v : Value) (n : ℕ) : Except Err Value :=
  match v with
  | .str s => .ok (.str (takeChars s n))
  | .list xs => .ok (.list (xs.take n))
  | _ => .error .typeError

/-- the upper case of a character where it contains an ASCII letter (there are few such characters outside ASCII),
the character itself elsewhere -/
def upperChar (c : Char) : List Char :=
  match c.toNat with
  | 0xdf => ['S', 'S']
  | 0x131 => ['I']
  | 0x149 => ['ʼ', 'N']
  | 0x17f => ['S']
  | 0x1f0 => ['J', '̌']
  | 0x1e96 => ['H', '̱']
  | 0x1e97 => ['T', '̈']
  | 0x1e98 => ['W', '̊']
  | 0x1e99 => ['Y', '̊']
  | 0x1e9a => ['A', 'ʾ']
  | 0xfb00 => ['F', 'F']
  | 0xfb01 => ['F', 'I']
  | 0xfb02 => ['F', 'L']
  | 0xfb03 => ['F', 'F', 'I']
  | 0xfb04 => ['F', 'F', 'L']
  | 0xfb05 => ['S', 'T']
  | 0xfb06 => ['S', 'T']
  | _ => [c.toUpper]

/-- `s.upper()`, exact for comparison with an ASCII word -/
def upper (s : String) : String := String.ofList (s.toList.flatMap upperChar)

/-- `s.lower()`, exact for comparison with an ASCII word: outside ASCII only two characters have an ASCII letter in
their lower case -/
def lower (s : String) : String :=
  String.ofList (s.toList.flatMap fun c =>
    match c.toNat with
    | 0x130 => ['i', '̇']
    | 0x212a => ['k']
    | _ => [c.toLower])

/-- the code points of the digit zero, one for each run of ten decimal digits -/
def digitZeros : List ℕ :=
  [0x30, 0x660, 0x6f0, 0x7c0, 0x966, 0x9e6, 0xa66, 0xae6, 0xb66, 0xbe6, 0xc66, 0xce6, 0xd66, 0xde6, 0xe50, 0xed0,
    0xf20, 0x1040, 0x1090, 0x17e0, 0x1810, 0x1946, 0x19d0, 0x1a80, 0x1a90, 0x1b50, 0x1bb0, 0x1c40, 0x1c50, 0xa620,
    0xa8d0, 0xa900, 0xa9d0, 0xa9f0, 0xaa50, 0xabf0, 0xff10, 0x104a0, 0x10d30, 0x11066, 0x110f0, 0x11136, 0x111d0,
    0x112f0, 0x11450, 0x114d0, 0x11650, 0x116c0, 0x11730, 0x118e0, 0x11950, 0x11c50, 0x11d50, 0x11da0, 0x16a60,
    0x16ac0, 0x16b50, 0x1d7ce, 0x1d7d8, 0x1d7e2, 0x1d7ec, 0x1d7f6, 0x1e140, 0x1e2f0, 0x1e950, 0x1fbf0]

/-- the value of a decimal digit, as `int` and the pattern `\d` read it -/
def digit? (c : Char) : Option ℕ :=
  digitZeros.findSome? fun z => if z ≤ c.toNat ∧ c.toNat < z + 10 then some (c.toNat - z) else none

/-- decimal digits to a number -/
def ofDigits (ds : List ℕ) : ℕ := ds.foldl (fun n d => 10 * n + d) 0

/-- the most digits `int` converts -/
def maxDigits : ℕ := 4300

/-- digits with single underscores between them -/
def digitRun : List Char → Option (List ℕ)
  | [] => none
  | [c] => (digit? c).map ([·])
  | c :: '_' :: rest => do
    let d ← digit? c
    let ds ← digitRun rest
    some (d :: ds)
  | c :: rest => do
    let d ← digit? c
    let ds ← digitRun rest
    some (d :: ds)

/-- the blanks `int` skips: the C ones in an ASCII string, all of them otherwise -/
def intSpace (ascii : Bool) (c : Char) : Bool :=
  if ascii then c.toNat = 0x20 || (9 ≤ c.toNat && c.toNat ≤ 13) else isSpace c

/-- `int(s)` -/
def intOfStr (s : String) : Except Err ℤ :=
  let ascii := s.toList.all fun c => c.toNat < 128
  let body := ((s.toList.dropWhile (intSpace ascii)).reverse.dropWhile (intSpace ascii)).reverse
  let (neg, digits) := match body with
    | '-' :: ds => (true, ds)
    | '+' :: ds => (false, ds)
    | ds => (false, ds)
  match digitRun digits with
  | some ds =>
    if ds.length ≤ maxDigits then .ok (if neg then -(ofDigits ds : ℤ) else ofDigits ds) else .error .valueError
  | none => .error .valueError

/-- `int(v)` -/
def Value.toInt : Value → Except Err ℤ
  | .bool b => .ok (if b then 1 else 0)
  | .int n => .ok n
  | .float .nan => .error .valueError
  | .float .posInf => .error .overflowError
  | .float .negInf => .error .overflowError
  | .float .negZero => .ok 0
  | .float (.fin q) => .ok (q.num.tdiv q.den)
  | .str s => intOfStr s
  | _ => .error .typeError

/-! ## Texts -/

/-- text operations left open here: the printing of floats, lists and dicts, and the lower case of any text -/
structure Runtime where
  repr : Value → String
  lower : String → String

/-- `str(v)` -/
def Value.toStr (P : Runtime) : Value → String
  | .none => "None"
  | .bool b => if b then "True" else "False"
  | .int n => toString n
  | .str s => s
  | v => P.repr v

/-- numbers that print alike are the same -/
theorem toString_inj {m n : ℕ} (h : toString m = toString n) : m = n := by
  have hdigits : Nat.toDigits 10 m = Nat.toDigits 10 n := by
    have h' := congrArg String.toList h
    simpa [toString, Nat.toList_repr] using h'
  calc m = Nat.ofDigitChars 10 (Nat.toDigits 10 m) 0 := Nat.ofDigitChars_ten_toDigits.symm
    _ = Nat.ofDigitChars 10 (Nat.toDigits 10 n) 0 := by rw [hdigits]
    _ = n := Nat.ofDigitChars_ten_toDigits

/-- the text in a string, or `TypeError` (what `", ".join` asks of its parts) -/
def Value.asStr : Value → Except Err String
  | .str s => .ok s
  | _ => .error .typeError

/-- `sep.join(vs)` for values that must be strings -/
def joinStrs (sep : String) (vs : List Value) : Except Err String := do
  let ss ← vs.mapM Value.asStr
  .ok (sep.intercalate ss)

end Py
