/-
Flat JSON objects, as credentials are stored in them: texts, integers, `None` and lists of texts under distinct keys.

- `ReadsBack`: what is relied on of `json`. `jsonLoads_readsBack`: the JSON reader has it.
-/
import Rally.Cloud.Connectors
import Rally.Core.JsonRoundTrip

namespace Rally.Cloud

open Py

/-! ## Flat objects -/

/-- the values of a stored object: texts, integers, `None` and lists of texts -/
inductive Flat : Value → Prop where
  | none : Flat .none
  | text (s : String) : Flat (.str s)
  | int {n : ℤ} (h : printable n = true) : Flat (.int n)
  | texts (ss : List String) : Flat (.list (ss.map .str))

/-- the fields of a stored object -/
structure Fields (fields : List (String × Value)) : Prop where
  distinct : Dict.Ok fields
  flat : ∀ p ∈ fields, Flat p.2

/-- `json.loads` reads flat objects back as they were printed -/
def ReadsBack (L : Libs) : Prop :=
  ∀ fields, Fields fields → L.loads (dumps L.text compactAscii (.dict fields)) = .value (.dict fields)

/-! ## Fields -/

theorem lookup_eq (fields : List (String × Value)) (k : String) : fields.lookup k = Dict.get? fields k := by
  induction fields with
  | nil => rfl
  | cons p fields ih =>
    obtain ⟨l, v⟩ := p
    rw [List.lookup_cons, Dict.get?_cons, ih]
    by_cases h : l = k
    · simp [h]
    · have h' : (k == l) = false := by simpa using Ne.symm h
      simp [h, h']

theorem fields_upsert {fields : List (String × Value)} (h : Fields fields) (k : String) {v : Value} (hv : Flat v) :
    Fields (Dict.upsert fields k fun _ => v) := by
  refine ⟨Dict.ok_upsert h.distinct k _, ?_⟩
  have hflat := h.flat
  clear h
  induction fields with
  | nil => simpa [Dict.upsert] using hv
  | cons p fields ih =>
    obtain ⟨hp, hrest⟩ := List.forall_mem_cons.1 hflat
    rw [Dict.upsert]
    split_ifs
    · exact List.forall_mem_cons.2 ⟨hv, hrest⟩
    · exact List.forall_mem_cons.2 ⟨hp, ih hrest⟩

/-! ## The reader -/

/-- `json.loads`, with fractions rounded by `F` -/
def jsonLoads (F : List Char → Py.Float) (s : String) : Loaded :=
  match loads F s.toList with
  | .ok v => .value v
  | .error _ => .malformed

theorem compactAscii_sound : compactAscii.Sound := ⟨⟨[], rfl, by simp⟩, ⟨[], rfl, by simp⟩⟩

theorem legal_flat {F : List Char → Py.Float} {P : Runtime} {v : Value} (h : Flat v) : Legal F P v := by
  cases h with
  | none => simp [Legal]
  | text s => simp [Legal]
  | int h => simpa [Legal] using h
  | texts ss =>
    simp only [Legal]
    induction ss with
    | nil => simp [LegalItems]
    | cons s ss ih => exact ⟨by simp [Legal], ih⟩

/-- the JSON reader reads flat objects back -/
theorem jsonLoads_readsBack {L : Libs} {F : List Char → Py.Float} (h : L.loads = jsonLoads F) : ReadsBack L := by
  intro fields hfields
  have hmembers : LegalMembers F L.text fields := by
    have hflat := hfields.flat
    clear hfields
    induction fields with
    | nil => simp [LegalMembers]
    | cons p fields ih =>
      obtain ⟨hp, hrest⟩ := List.forall_mem_cons.1 hflat
      exact ⟨legal_flat hp, ih hrest⟩
  have hlegal : Legal F L.text (.dict fields) := by
    rw [Legal]
    exact ⟨hfields.distinct, hmembers⟩
  rw [h, jsonLoads, dumps, String.toList_ofList, loads_dumps compactAscii_sound hlegal]

end Rally.Cloud
