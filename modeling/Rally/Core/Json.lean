/-
The texts that `json.dumps` prints. Nothing here is about one program.

- `dumps`: the text of a value in one of the layouts.
- `normalize`: the value with the keys of its dicts sorted, which `sort_keys=True` prints.
- `dumpable`: whether there is a text. Only integers of limited length have one, and `NaN` and the infinities where
  they are allowed.
-/
import Mathlib.Data.List.Sort
import Mathlib.Data.String.Basic
import Rally.Core.Value

namespace Py

/-! ## Texts -/

/-- the layout of `json.dumps` -/
structure Layout where
  comma : List Char
  colon : List Char
  ensureAscii : Bool

/-- `separators=(",", ":"), ensure_ascii=False` -/
def compact : Layout := ⟨[','], [':'], false⟩

/-- `separators=(",", ":")` -/
def compactAscii : Layout := ⟨[','], [':'], true⟩

/-- four hexadecimal digits -/
def hex4 (n : ℕ) : List Char :=
  '\\' :: 'u' :: [3, 2, 1, 0].map fun k => Nat.digitChar (n / 16 ^ k % 16)

/-- the characters that have a short escape, with its letter -/
def shortEscapes : List (Char × Char) :=
  [('"', '"'), ('\\', '\\'), ('\x08', 'b'), ('\t', 't'), ('\n', 'n'), ('\x0c', 'f'), ('\r', 'r')]

/-- one character of a JSON string -/
def escape (ascii : Bool) (c : Char) : List Char :=
  match shortEscapes.lookup c with
  | some letter => ['\\', letter]
  | none =>
    if c.toNat < 0x20 then hex4 c.toNat
    else if ascii ∧ 0x7e < c.toNat then
      -- a character outside the basic plane is written as a pair of surrogates
      if c.toNat < 0x10000 then hex4 c.toNat
      else hex4 (0xd800 + (c.toNat - 0x10000) / 0x400) ++ hex4 (0xdc00 + (c.toNat - 0x10000) % 0x400)
    else [c]

def jsonString (ascii : Bool) (s : String) : List Char :=
  '"' :: (s.toList.flatMap (escape ascii) ++ ['"'])

def jsonFloat (P : Runtime) : Float → String
  | .nan => "NaN"
  | .posInf => "Infinity"
  | .negInf => "-Infinity"
  | f => P.repr (.float f)

mutual
/-- the text of a value, members of a dict in the order it has -/
def jsonChars (P : Runtime) (o : Layout) : Value → List Char
  | .none => ['n', 'u', 'l', 'l']
  | .bool true => ['t', 'r', 'u', 'e']
  | .bool false => ['f', 'a', 'l', 's', 'e']
  | .int n => (toString n).toList
  | .float f => (jsonFloat P f).toList
  | .str s => jsonString o.ensureAscii s
  | .list [] => ['[', ']']
  | .list (x :: xs) => '[' :: (jsonChars P o x ++ jsonItems P o xs)
  | .dict [] => ['\x7b', '\x7d']
  | .dict ((k, x) :: kvs) =>
    '\x7b' :: (jsonString o.ensureAscii k ++ (o.colon ++ (jsonChars P o x ++ jsonMembers P o kvs)))
/-- the rest of a list, from its second member on -/
def jsonItems (P : Runtime) (o : Layout) : List Value → List Char
  | [] => [']']
  | x :: xs => o.comma ++ (jsonChars P o x ++ jsonItems P o xs)
/-- the rest of a dict, from its second member on -/
def jsonMembers (P : Runtime) (o : Layout) : List (String × Value) → List Char
  | [] => ['\x7d']
  | (k, x) :: kvs => o.comma ++ (jsonString o.ensureAscii k ++ (o.colon ++ (jsonChars P o x ++ jsonMembers P o kvs)))
end

/-- `json.dumps` of a value that has a text -/
def dumps (P : Runtime) (o : Layout) (v : Value) : String := String.ofList (jsonChars P o v)

/-! ## Values with a text -/

/-- `int.__repr__` refuses more digits than this -/
def printable (n : ℤ) : Bool := (Nat.toDigits 10 n.natAbs).length ≤ maxDigits

mutual
/-- whether `json.dumps` prints the value, with `nan` allowed or not -/
def dumpable (nan : Bool) : Value → Bool
  | .int n => printable n
  | .float .nan => nan
  | .float .posInf => nan
  | .float .negInf => nan
  | .list xs => dumpableList nan xs
  | .dict kvs => dumpableDict nan kvs
  | _ => true
def dumpableList (nan : Bool) : List Value → Bool
  | [] => true
  | x :: xs => dumpable nan x && dumpableList nan xs
def dumpableDict (nan : Bool) : List (String × Value) → Bool
  | [] => true
  | (_, x) :: kvs => dumpable nan x && dumpableDict nan kvs
end

/-! ## Sorted keys -/

/-- keys in order -/
abbrev KeyLe (p q : String × Value) : Prop := p.1 ≤ q.1

mutual
/-- the value with the keys of every dict in order -/
def normalize : Value → Value
  | .list xs => .list (normalizeList xs)
  | .dict kvs => .dict ((normalizeDict kvs).insertionSort KeyLe)
  | v => v
def normalizeList : List Value → List Value
  | [] => []
  | x :: xs => normalize x :: normalizeList xs
def normalizeDict : List (String × Value) → List (String × Value)
  | [] => []
  | (k, x) :: kvs => (k, normalize x) :: normalizeDict kvs
end

end Py
