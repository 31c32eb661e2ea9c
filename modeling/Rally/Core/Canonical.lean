/-
Canonical JSON texts: what sorting the keys leaves alone, and where the two compact layouts print the same. Nothing here is
about one program.

- `normalize_idem`: sorting the keys a second time changes nothing. `dumpable_normalize`, `plain_normalize`: whether there is
  a text, and whether it is plain, does not depend on the order of the keys.
- `dumps_compact_iff`: the compact layouts print the same text exactly where every character of its strings is at most
  `~`. Everywhere else the one in ASCII is longer.
-/
import Rally.Core.Json

namespace Py

instance : Std.Total KeyLe := ⟨fun p q => le_total p.1 q.1⟩
instance : IsTrans (String × Value) KeyLe := ⟨fun _ _ _ h h' => le_trans h h'⟩

/-! ## Sorting twice -/

theorem normalizeDict_eq (kvs : List (String × Value)) : normalizeDict kvs = kvs.map fun p => (p.1, normalize p.2) := by
  induction kvs with
  | nil => simp [normalizeDict]
  | cons p kvs ih => simp [normalizeDict, ih]

theorem normalizeDict_fixed {kvs : List (String × Value)} (h : ∀ p ∈ kvs, normalize p.2 = p.2) : normalizeDict kvs = kvs := by
  rw [normalizeDict_eq]
  calc kvs.map (fun p => (p.1, normalize p.2)) = kvs.map id := by
        apply List.map_congr_left
        intro p hp
        simp [h p hp]
    _ = kvs := List.map_id kvs

mutual
/-- sorting the keys a second time changes nothing -/
theorem normalize_idem : ∀ v : Value, normalize (normalize v) = normalize v
  | .none => by simp [normalize]
  | .bool _ => by simp [normalize]
  | .int _ => by simp [normalize]
  | .float _ => by simp [normalize]
  | .str _ => by simp [normalize]
  | .list xs => by simp only [normalize, normalizeList_idem xs]
  | .dict kvs => by
    have hfixed : ∀ p ∈ (normalizeDict kvs).insertionSort KeyLe, normalize p.2 = p.2 := by
      intro p hp
      exact normalizeDict_idem kvs p ((List.mem_insertionSort KeyLe).1 hp)
    simp only [normalize, normalizeDict_fixed hfixed]
    rw [(List.pairwise_insertionSort KeyLe (normalizeDict kvs)).insertionSort_eq]
theorem normalizeList_idem : ∀ xs : List Value, normalizeList (normalizeList xs) = normalizeList xs
  | [] => by simp [normalizeList]
  | x :: xs => by simp only [normalizeList, normalize_idem x, normalizeList_idem xs]
theorem normalizeDict_idem : ∀ kvs : List (String × Value), ∀ p ∈ normalizeDict kvs, normalize p.2 = p.2
  | [], p, hp => by simp [normalizeDict] at hp
  | (k, x) :: kvs, p, hp => by
    rw [normalizeDict] at hp
    rcases List.mem_cons.1 hp with rfl | hp
    · exact normalize_idem x
    · exact normalizeDict_idem kvs p hp
end

/-! ## What holds of every member -/

theorem dumpableList_eq (nan : Bool) (xs : List Value) : dumpableList nan xs = xs.all (dumpable nan) := by
  induction xs with
  | nil => simp [dumpableList]
  | cons x xs ih => simp [dumpableList, ih]

theorem dumpableDict_eq (nan : Bool) (kvs : List (String × Value)) :
    dumpableDict nan kvs = kvs.all fun p => dumpable nan p.2 := by
  induction kvs with
  | nil => simp [dumpableDict]
  | cons p kvs ih => simp [dumpableDict, ih]

mutual
/-- a value has a text exactly when it has one with its keys in order -/
theorem dumpable_normalize (nan : Bool) : ∀ v : Value, dumpable nan (normalize v) = dumpable nan v
  | .none => by simp [normalize]
  | .bool _ => by simp [normalize]
  | .int _ => by simp [normalize]
  | .float _ => by simp [normalize]
  | .str _ => by simp [normalize]
  | .list xs => by simp only [normalize, dumpable, dumpableList_normalize nan xs]
  | .dict kvs => by
    simp only [normalize, dumpable]
    rw [dumpableDict_eq, (List.perm_insertionSort KeyLe _).all_eq, ← dumpableDict_eq, dumpableDict_normalize nan kvs]
theorem dumpableList_normalize (nan : Bool) : ∀ xs : List Value, dumpableList nan (normalizeList xs) = dumpableList nan xs
  | [] => by simp [normalizeList]
  | x :: xs => by simp only [normalizeList, dumpableList, dumpable_normalize nan x, dumpableList_normalize nan xs]
theorem dumpableDict_normalize (nan : Bool) :
    ∀ kvs : List (String × Value), dumpableDict nan (normalizeDict kvs) = dumpableDict nan kvs
  | [] => by simp [normalizeDict]
  | (k, x) :: kvs => by simp only [normalizeDict, dumpableDict, dumpable_normalize nan x, dumpableDict_normalize nan kvs]
end

/-! ## Plain texts -/

/-- every character is at most `~` -/
def plainString (s : String) : Bool := s.toList.all fun c => c.toNat ≤ 0x7e

mutual
/-- every character of the strings and the keys is at most `~` -/
def plain : Value → Bool
  | .str s => plainString s
  | .list xs => plainList xs
  | .dict kvs => plainDict kvs
  | _ => true
def plainList : List Value → Bool
  | [] => true
  | x :: xs => plain x && plainList xs
def plainDict : List (String × Value) → Bool
  | [] => true
  | (k, x) :: kvs => plainString k && plain x && plainDict kvs
end

theorem plainDict_eq (kvs : List (String × Value)) : plainDict kvs = kvs.all fun p => plainString p.1 && plain p.2 := by
  induction kvs with
  | nil => simp [plainDict]
  | cons p kvs ih => simp [plainDict, ih]

mutual
theorem plain_normalize : ∀ v : Value, plain (normalize v) = plain v
  | .none => by simp [normalize]
  | .bool _ => by simp [normalize]
  | .int _ => by simp [normalize]
  | .float _ => by simp [normalize]
  | .str _ => by simp [normalize]
  | .list xs => by simp only [normalize, plain, plainList_normalize xs]
  | .dict kvs => by
    simp only [normalize, plain]
    rw [plainDict_eq, (List.perm_insertionSort KeyLe _).all_eq, ← plainDict_eq, plainDict_normalize kvs]
theorem plainList_normalize : ∀ xs : List Value, plainList (normalizeList xs) = plainList xs
  | [] => by simp [normalizeList]
  | x :: xs => by simp only [normalizeList, plainList, plain_normalize x, plainList_normalize xs]
theorem plainDict_normalize : ∀ kvs : List (String × Value), plainDict (normalizeDict kvs) = plainDict kvs
  | [] => by simp [normalizeDict]
  | (k, x) :: kvs => by simp only [normalizeDict, plainDict, plain_normalize x, plainDict_normalize kvs]
end

/-! ## Two layouts -/

/-- `ys` is `xs` where `same` holds, and longer where it does not -/
def Widens (same : Bool) (xs ys : List Char) : Prop := if same then ys = xs else xs.length < ys.length

namespace Widens

theorem refl (xs : List Char) : Widens true xs xs := rfl

theorem length_le {same : Bool} {xs ys : List Char} (h : Widens same xs ys) : xs.length ≤ ys.length := by
  cases same with
  | true => exact (congrArg List.length h).ge
  | false => exact le_of_lt h

/-- texts are the same, or longer, part by part -/
theorem append {a b : Bool} {xs ys xs' ys' : List Char} (h : Widens a xs ys) (h' : Widens b xs' ys') :
    Widens (a && b) (xs ++ xs') (ys ++ ys') := by
  have hle := h.length_le
  have hle' := h'.length_le
  cases a with
  | true =>
    cases b with
    | true =>
      show ys ++ ys' = xs ++ xs'
      rw [show ys = xs from h, show ys' = xs' from h']
    | false =>
      show (xs ++ xs').length < (ys ++ ys').length
      have hlt : xs'.length < ys'.length := h'
      simp only [List.length_append]
      omega
  | false =>
    show (xs ++ xs').length < (ys ++ ys').length
    have hlt : xs.length < ys.length := h
    simp only [List.length_append]
    omega

/-- a part that both layouts print alike -/
theorem framed {same : Bool} {xs ys : List Char} (front : List Char) (h : Widens same xs ys) :
    Widens same (front ++ xs) (front ++ ys) := by
  simpa using (refl front).append h

theorem eq_iff {same : Bool} {xs ys : List Char} (h : Widens same xs ys) : ys = xs ↔ same = true := by
  cases same with
  | true => exact iff_of_true h rfl
  | false =>
    refine iff_of_false ?_ (by simp)
    rintro rfl
    exact lt_irrefl _ h

end Widens

/-- the characters with a short escape are plain -/
theorem shortEscapes_plain : ∀ p ∈ shortEscapes, p.1.toNat ≤ 0x7e := by decide

theorem escape_widens (c : Char) : Widens (c.toNat ≤ 0x7e : Bool) (escape false c) (escape true c) := by
  cases hshort : shortEscapes.lookup c with
  | some letter =>
    have hplain : c.toNat ≤ 0x7e := shortEscapes_plain (c, letter) (List.lookup_eq_some_iff.1 hshort |>.elim
      fun l₁ h => h.elim fun l₂ h => by rw [h.1]; simp)
    simp [Widens, escape, hshort, hplain]
  | none =>
    by_cases hplain : c.toNat ≤ 0x7e
    · simp [Widens, escape, hshort, hplain, not_lt.2 hplain]
    · have hcontrol : ¬ c.toNat < 0x20 := by omega
      have hwide : 0x7e < c.toNat := by omega
      simp only [Widens, escape, hshort, hcontrol, hplain, hwide, if_false, and_true, decide_false, Bool.false_eq_true]
      by_cases hbasic : c.toNat < 0x10000
      · simp [hbasic, hex4]
      · simp [hbasic, hex4]

theorem escapes_widens (s : List Char) :
    Widens (s.all fun c => c.toNat ≤ 0x7e) (s.flatMap (escape false)) (s.flatMap (escape true)) := by
  induction s with
  | nil => exact .refl []
  | cons c s ih =>
    simp only [List.all_cons, List.flatMap_cons]
    exact (escape_widens c).append ih

theorem jsonString_widens (s : String) : Widens (plainString s) (jsonString false s) (jsonString true s) := by
  have h := ((escapes_widens s.toList).append (.refl ['"'])).framed ['"']
  simpa [plainString, jsonString] using h

section Layouts

variable (P : Runtime)

mutual
theorem jsonChars_widens : ∀ v : Value, Widens (plain v) (jsonChars P compact v) (jsonChars P compactAscii v)
  | .none => by simp only [plain, jsonChars]; exact .refl _
  | .bool true => by simp only [plain, jsonChars]; exact .refl _
  | .bool false => by simp only [plain, jsonChars]; exact .refl _
  | .int _ => by simp only [plain, jsonChars]; exact .refl _
  | .float _ => by simp only [plain, jsonChars]; exact .refl _
  | .str s => by simp only [plain, jsonChars]; exact jsonString_widens s
  | .list [] => by simp only [plain, plainList, jsonChars]; exact .refl _
  | .list (x :: xs) => by
    simp only [plain, plainList, jsonChars]
    exact ((jsonChars_widens x).append (jsonItems_widens xs)).framed ['[']
  | .dict [] => by simp only [plain, plainDict, jsonChars]; exact .refl _
  | .dict ((k, x) :: kvs) => by
    simp only [plain, plainDict, jsonChars, Bool.and_assoc]
    exact ((jsonString_widens k).append (((jsonChars_widens x).append (jsonMembers_widens kvs)).framed [':'])).framed ['\x7b']
theorem jsonItems_widens : ∀ xs : List Value, Widens (plainList xs) (jsonItems P compact xs) (jsonItems P compactAscii xs)
  | [] => by simp only [plainList, jsonItems]; exact .refl _
  | x :: xs => by
    simp only [plainList, jsonItems]
    exact ((jsonChars_widens x).append (jsonItems_widens xs)).framed [',']
theorem jsonMembers_widens :
    ∀ kvs : List (String × Value), Widens (plainDict kvs) (jsonMembers P compact kvs) (jsonMembers P compactAscii kvs)
  | [] => by simp only [plainDict, jsonMembers]; exact .refl _
  | (k, x) :: kvs => by
    simp only [plainDict, jsonMembers, Bool.and_assoc]
    exact ((jsonString_widens k).append (((jsonChars_widens x).append (jsonMembers_widens kvs)).framed [':'])).framed [',']
end

/-- the compact layouts print the same text exactly for a plain value -/
theorem dumps_compact_iff (v : Value) : dumps P compactAscii v = dumps P compact v ↔ plain v = true := by
  rw [← (jsonChars_widens P v).eq_iff]
  exact ⟨fun h => String.ofList_injective h, fun h => congrArg String.ofList h⟩

end Layouts

end Py
