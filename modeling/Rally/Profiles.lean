/-
Who has which connectors enabled (`installation_settings` and `save_local_settings` of `src/connectors.py`): one file of
settings, with a profile for each person, or in the shape of the time before there were profiles.

- `settings_saved`: a person who saves finds exactly what was saved.
- `settings_other`: for others nothing changes, as long as there are profiles or they are not the local user.
- `saves_settings`: so it is over any list of saves, once there is a profile.
- `isolation_exact`: a save leaves everybody else alone exactly unless it is the first one, by somebody else than the local
  user, whose settings of before are then gone and differ from the committed ones (`Loses`).
- `first_profile`: the first save of another person takes a connector away from the local user.
-/
import Rally.Core.Dict
import Rally.Core.Value

namespace Rally.Profiles

open Py (Value)

/-! ## Files -/

/-- `overrides` of a connector, by its id -/
abbrev Overrides := List (String × Value)

/-- the settings of one person, each where it is given; `null` counts as empty -/
structure Profile where
  enabled : Option (List String) := none
  overrides : Option Overrides := none

/-- the settings file: the fields of the shape with one installation, and the profiles -/
structure LocalFile where
  original : Profile := {}
  profiles : List (String × Profile) := []

/-- `cfg["connectors"]` -/
structure Committed where
  enabled : List String := []
  overrides : Overrides := []

/-- `profile_id` without its texts: what is left of a name, and its digest -/
structure Naming where
  strip : String → String
  casefold : String → String
  hexdigest : String → String

/-- the result of `installation_settings` -/
structure Settings where
  enabled : List String
  overrides : Overrides
  profileId : String

section Settings

variable (N : Naming)

/-- `subject or "local"` -/
def orLocal (subject : String) : String := if subject = "" then "local" else subject

/-- `profile_id` -/
def profileId (subject : String) : String :=
  "p-" ++ String.ofList ((N.hexdigest (N.casefold (N.strip (orLocal subject)))).toList.take 20)

/-- the profile that a person's settings are read from -/
def profileOf (file : Option LocalFile) (subject : String) : Profile :=
  let stored := file.getD {}
  if stored.profiles = [] ∧ orLocal subject = "local" then stored.original
  else (Dict.get? stored.profiles (profileId N subject)).getD {}

/-- `committed.get("enabled", [])`, for the local user only -/
def defaultEnabled (committed : Committed) (subject : String) : List String :=
  if subject = "local" then committed.enabled else []

/-- `overrides.update(…)` -/
def overlay (base laid : Overrides) : Overrides := laid.foldl (fun d p => Dict.upsert d p.1 fun _ => p.2) base

/-- `installation_settings` -/
def installationSettings (committed : Committed) (file : Option LocalFile) (subject : String) : Settings :=
  let profile := profileOf N file subject
  { enabled := profile.enabled.getD (defaultEnabled committed subject)
    overrides := overlay committed.overrides (profile.overrides.getD [])
    profileId := profileId N subject }

/-- `save_local_settings`: the file that is written -/
def saveLocalSettings (file : Option LocalFile) (enabled : List String) (overrides : Overrides) (subject : String) :
    LocalFile :=
  let profiles := (file.getD {}).profiles
  { profiles := Dict.upsert profiles (profileId N subject) fun _ =>
      ⟨some (enabled.dedup.insertionSort (· ≤ ·)), some overrides⟩ }

end Settings

/-! ## One save -/

section Save

variable {N : Naming} {committed : Committed} {file : Option LocalFile} {enabled : List String} {overrides : Overrides}
  {subject other : String}

theorem upsert_ne_nil {κ α : Type} [DecidableEq κ] (d : List (κ × α)) (k : κ) (f : Option α → α) : Dict.upsert d k f ≠ [] := by
  cases d with
  | nil => exact List.cons_ne_nil _ _
  | cons p d =>
    rw [Dict.upsert]
    split_ifs
    · exact List.cons_ne_nil _ _
    · exact List.cons_ne_nil _ _

/-- with profiles in the file, everybody has their own -/
theorem profileOf_profiled {stored : LocalFile} (h : stored.profiles ≠ []) :
    profileOf N (some stored) subject = (Dict.get? stored.profiles (profileId N subject)).getD {} :=
  if_neg fun hlocal => h hlocal.1

/-- the profiles after a save -/
theorem profileOf_save : profileOf N (some (saveLocalSettings N file enabled overrides subject)) other =
    if profileId N subject = profileId N other then ⟨some (enabled.dedup.insertionSort (· ≤ ·)), some overrides⟩
    else (Dict.get? (file.getD {}).profiles (profileId N other)).getD {} := by
  rw [profileOf_profiled (upsert_ne_nil _ _ _), saveLocalSettings, Dict.get?_upsert]
  split_ifs <;> rfl

/-- what is saved is what is found: the same connectors, and the overrides over the committed ones -/
theorem settings_saved :
    (∀ id, id ∈ (installationSettings N committed (some (saveLocalSettings N file enabled overrides subject)) subject).enabled ↔
      id ∈ enabled) ∧
    (installationSettings N committed (some (saveLocalSettings N file enabled overrides subject)) subject).overrides =
      overlay committed.overrides overrides := by
  simp [installationSettings, profileOf_save]

/-- a person without a profile of their own in a file of the original shape -/
def ReadsOriginal (file : Option LocalFile) (subject : String) : Prop :=
  (file.getD {}).profiles = [] ∧ orLocal subject = "local"

/-- nothing changes for somebody who is read from the profiles before -/
theorem settings_other (hne : profileId N other ≠ profileId N subject) (h : ¬ ReadsOriginal file other) :
    installationSettings N committed (some (saveLocalSettings N file enabled overrides subject)) other =
      installationSettings N committed file other := by
  have hsame : profileOf N (some (saveLocalSettings N file enabled overrides subject)) other = profileOf N file other := by
    rw [profileOf_save, if_neg hne.symm]
    exact (if_neg h).symm
  unfold installationSettings
  rw [hsame]

/-- settings of before the profiles, that are not the committed ones -/
def Loses (committed : Committed) (file : Option LocalFile) (subject : String) : Prop :=
  ReadsOriginal file subject ∧
    ((file.getD {}).original.enabled.getD (defaultEnabled committed subject) ≠ defaultEnabled committed subject ∨
      overlay committed.overrides ((file.getD {}).original.overrides.getD []) ≠ committed.overrides)

/-- somebody else's settings stay exactly if they lose none -/
theorem settings_other_iff (hne : profileId N other ≠ profileId N subject) :
    installationSettings N committed (some (saveLocalSettings N file enabled overrides subject)) other =
      installationSettings N committed file other ↔ ¬ Loses committed file other := by
  by_cases h : ReadsOriginal file other
  · have hbefore : profileOf N file other = (file.getD {}).original := if_pos h
    have hafter : profileOf N (some (saveLocalSettings N file enabled overrides subject)) other = {} := by
      rw [profileOf_save, if_neg hne.symm, h.1]
      rfl
    unfold installationSettings
    rw [hbefore, hafter, Settings.mk.injEq]
    constructor
    · rintro ⟨henabled, hoverrides, -⟩ ⟨-, hlost | hlost⟩
      · exact hlost henabled.symm
      · exact hlost hoverrides.symm
    · intro hkept
      have hboth := not_or.1 fun hlost => hkept ⟨h, hlost⟩
      exact ⟨(not_not.1 hboth.1).symm, (not_not.1 hboth.2).symm, rfl⟩
  · exact iff_of_true (settings_other hne h) fun hlost => h hlost.1

end Save

/-! ## Everybody else -/

/-- what a save is to do: its own settings are those saved, and nobody else's change -/
structure Isolated (N : Naming) (committed : Committed) (file : Option LocalFile) (enabled : List String)
    (overrides : Overrides) (subject : String) (after : LocalFile) : Prop where
  enabled : ∀ id, id ∈ (installationSettings N committed (some after) subject).enabled ↔ id ∈ enabled
  overrides : (installationSettings N committed (some after) subject).overrides = overlay committed.overrides overrides
  others : ∀ other, profileId N other ≠ profileId N subject →
    installationSettings N committed (some after) other = installationSettings N committed file other

/-- **Who is touched by a save.** The person who saves gets exactly what is saved; and nobody else's settings change,
exactly unless the file has no profiles yet, and the local user, under another profile, has settings in it that are not the
committed ones. -/
theorem isolation_exact (N : Naming) (committed : Committed) (file : Option LocalFile) (enabled : List String)
    (overrides : Overrides) (subject : String) :
    Isolated N committed file enabled overrides subject (saveLocalSettings N file enabled overrides subject) ↔
      ∀ other, profileId N other ≠ profileId N subject → ¬ Loses committed file other := by
  constructor
  · exact fun h other hne => (settings_other_iff hne).1 (h.others other hne)
  · exact fun h => ⟨settings_saved.1, settings_saved.2, fun other hne => (settings_other_iff hne).2 (h other hne)⟩

/-- a save of one person -/
structure Save where
  enabled : List String
  overrides : Overrides
  subject : String

/-- saves one after the other -/
def saves (N : Naming) (file : LocalFile) (l : List Save) : LocalFile :=
  l.foldl (fun file s => saveLocalSettings N (some file) s.enabled s.overrides s.subject) file

/-- with a profile in the file, nobody's settings change by any saves of others -/
theorem saves_settings {N : Naming} {committed : Committed} {file : LocalFile} {l : List Save} {other : String}
    (hprofiles : file.profiles ≠ []) (hl : ∀ s ∈ l, profileId N other ≠ profileId N s.subject) :
    installationSettings N committed (some (saves N file l)) other = installationSettings N committed (some file) other := by
  induction l generalizing file with
  | nil => rfl
  | cons s l ih =>
    obtain ⟨hs, hl⟩ := List.forall_mem_cons.1 hl
    calc installationSettings N committed (some (saves N file (s :: l))) other
        = installationSettings N committed (some (saveLocalSettings N (some file) s.enabled s.overrides s.subject)) other :=
          ih (upsert_ne_nil _ _ _) hl
      _ = installationSettings N committed (some file) other := settings_other hs fun h => hprofiles h.1

/-! ### The first profile -/

/-- a settings file of the original shape -/
def originalFile : LocalFile := { original := ⟨some ["github"], none⟩ }

def sampleNaming : Naming := ⟨id, id, id⟩

/-- after Alice's first save the local user has no connector any more -/
theorem first_profile :
    (installationSettings sampleNaming {} (some originalFile) "local").enabled = ["github"] ∧
      (installationSettings sampleNaming {}
        (some (saveLocalSettings sampleNaming (some originalFile) ["atlassian"] [] "alice@example.com")) "local").enabled = [] ∧
      ¬ Isolated sampleNaming {} (some originalFile) ["atlassian"] [] "alice@example.com"
        (saveLocalSettings sampleNaming (some originalFile) ["atlassian"] [] "alice@example.com") := by
  have hbefore : (installationSettings sampleNaming {} (some originalFile) "local").enabled = ["github"] := by decide
  have hafter : (installationSettings sampleNaming {}
      (some (saveLocalSettings sampleNaming (some originalFile) ["atlassian"] [] "alice@example.com")) "local").enabled = [] := by
    decide
  refine ⟨hbefore, hafter, fun h => ?_⟩
  have hsame := congrArg Settings.enabled (h.others "local" (by decide))
  rw [hbefore, hafter] at hsame
  cases hsame

end Rally.Profiles
