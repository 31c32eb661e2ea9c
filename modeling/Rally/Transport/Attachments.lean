/-
The deliverables that go out with the final mail (`final_artifact_attachments` of `src/transport.py`): the files of a run's
workspace are walked, screened and ordered, and the first of them that fit are read and attached.

The workspace is what the system calls answer, one by one: a file's size as `lstat` has it, its real path, and what is read
once it is opened, which may be another size. Names are valid Unicode.

- `readRegularFile`: the loop that reads a file. `readLoop_eq`: it reads all of it, up to the limit.
- `secretFilename`, `secretContent`: the patterns, with what it is to match them in `Regex.Occurs`.
- `Fit`: what the attachments are at any time: few, small together, under distinct plain names, and each one a file of the
  workspace that looks like no secret. `select_fit`: attaching the next file keeps it.
- `attachments_safe`: so is what goes out.
-/
import Mathlib.Data.String.Basic
import Rally.Core.Base64
import Rally.Core.Regex
import Rally.Transport.AttachmentNames

namespace Rally.Attachments

open Ingress (foldCase)

/-! ## Patterns -/

section Patterns

open Regex

/-- a character, `re.IGNORECASE` -/
def cased (c : Char) : Char → Bool := fun d => foldCase d = c

def casedWord (w : String) : Regex Char := word (w.toList.map cased)

def oneOf (cs : String) : Char → Bool := fun c => cs.toList.contains c

/-- `SECRET_FILENAME` -/
def secretFilename : Regex Char :=
  all
    [.alt (.test fun before _ => before.isEmpty) (.char (oneOf "\\/._-")),
      anyOf
        [casedWord "secret", casedWord "secrets", casedWord "credential", casedWord "credentials", casedWord "token",
          casedWord "tokens", casedWord "password",
          all [casedWord "private", opt (.char (oneOf "-_")), casedWord "key"],
          all [casedWord "api", opt (.char (oneOf "-_")), casedWord "key"]],
      .alt (.char (oneOf "\\/._-")) (.test fun _ after => after = [] || after = ['\n'])]

/-- a byte -/
def byte (c : Char) : UInt8 → Bool := fun b => b.toNat = c.toNat

/-- a byte, `(?i)` -/
def casedByte (c : Char) : UInt8 → Bool := fun b => (Char.ofNat b.toNat).toLower = c

def byteWord (w : String) : Regex UInt8 := word (w.toList.map byte)

def casedByteWord (w : String) : Regex UInt8 := word (w.toList.map casedByte)

/-- one of these, or a letter or a digit of ASCII -/
def byteOf (cs : String) : UInt8 → Bool := fun b =>
  (Char.ofNat b.toNat).isAlphanum || cs.toList.contains (Char.ofNat b.toNat)

/-- one of these -/
def byteAmong (cs : String) : UInt8 → Bool := fun b => cs.toList.contains (Char.ofNat b.toNat)

/-- `\s` -/
def byteSpace : Regex UInt8 := .char fun b => (9 ≤ b.toNat && b.toNat ≤ 13) || b.toNat = 32

def byteSpaces : Regex UInt8 := .star byteSpace

/-- `\b` -/
def byteBoundary : Regex UInt8 :=
  .test fun before after => (before.head?.map (byteOf "_")).getD false != (after.head?.map (byteOf "_")).getD false

/-- `SECRET_CONTENT` -/
def secretContent : List (Regex UInt8) :=
  [all
      [byteWord "-----BEGIN ",
        .star (.char fun b => (65 ≤ b.toNat && b.toNat ≤ 90) || (48 ≤ b.toNat && b.toNat ≤ 57) || b.toNat = 32),
        byteWord "PRIVATE KEY-----"],
    all
      [casedByteWord "authorization", byteSpaces, byteWord ":", byteSpaces, casedByteWord "bearer", byteSpace, byteSpaces,
        atLeast 12 (.char (byteOf "._~+/=-"))],
    all
      [anyOf
          [all [casedByteWord "api", opt (.char (byteAmong "_-")), casedByteWord "key"], casedByteWord "client_secret",
            casedByteWord "access_token", casedByteWord "refresh_token", casedByteWord "password"],
        byteSpaces, opt (.char (byteAmong "\"'")), byteSpaces, .char (byteAmong ":="), byteSpaces,
        .char (byteAmong "\"'"), atLeast 12 (.char (byteOf "._~+/=-"))],
    all [byteBoundary, byteWord "AIza", times 35 (.char (byteOf "_-")), byteBoundary],
    all
      [byteBoundary, anyOf [byteWord "sk", byteWord "ghp", byteWord "github_pat", byteWord "re"], byteWord "_",
        atLeast 20 (.char (byteOf "_-")), byteBoundary],
    anyOf
      [casedByteWord "file://", casedByteWord "/users/",
        all [casedByteWord "/home/", atLeast 1 (.char (byteOf "._-")), byteWord "/"],
        all [.char fun b => (Char.ofNat b.toNat).isAlpha, casedByteWord ":\\\\users\\\\"]]]

/-- `_looks_secret` -/
def looksSecret (filename : List Char) (content : List UInt8) : Bool :=
  search secretFilename filename || secretContent.any fun r => search r content

end Patterns

/-! ## The workspace -/

/-- a file that was opened: whether it is a regular one, its size, and what is read -/
structure Opened where
  regular : Bool
  size : ℕ
  data : List UInt8
deriving DecidableEq

structure File where
  name : List Char
  /-- `os.path.islink` -/
  link : Bool
  /-- `os.lstat(path).st_size`, unless it raises -/
  size : Option ℕ
  /-- `os.path.realpath` -/
  realPath : List Char
  /-- `os.open`, unless it raises -/
  opened : Option Opened
deriving DecidableEq

inductive Node where
  | file (f : File)
  | dir (name : List Char) (link : Bool) (nodes : List Node)

structure Workspace where
  link : Bool
  isDir : Bool
  realPath : List Char
  /-- the real path of the directory of the run -/
  runPath : List Char
  /-- the walk raises no `OSError` -/
  walks : Bool
  nodes : List Node

/-- a file, and the names on the way to it -/
structure Found where
  parents : List (List Char)
  file : File
deriving DecidableEq

/-- the path of a file relative to the workspace -/
def Found.relative (x : Found) : List Char := ['/'].intercalate (x.parents ++ [x.file.name])

def hidden (name : List Char) : Bool := name.head? = some '.'

/-- by name, in the order of the characters' numbers -/
def nameLe (a b : List Char) : Bool := a ≤ b

/-- the files of a directory, by name -/
def filesIn (parents : List (List Char)) (nodes : List Node) : List Found :=
  let files := nodes.filterMap fun n => match n with
    | .file f => some ⟨parents, f⟩
    | .dir _ _ _ => none
  files.mergeSort fun x y => nameLe x.file.name y.file.name

def Node.name : Node → List Char
  | .file f => f.name
  | .dir name _ _ => name

mutual

/-- the files in a directory and below it, if it is walked -/
def Node.files (parents : List (List Char)) : Node → List Found
  | .file _ => []
  | .dir name link nodes =>
    if link ∨ hidden name then []
    else
      filesIn (parents ++ [name]) nodes ++
        ((filesBelow (parents ++ [name]) nodes).mergeSort fun x y => nameLe x.1 y.1).flatMap Prod.snd

/-- the files in each directory among these -/
def filesBelow (parents : List (List Char)) : List Node → List (List Char × List Found)
  | [] => []
  | n :: nodes => (n.name, n.files parents) :: filesBelow parents nodes

end

/-- `os.walk(workspace, followlinks=False)`, with the directories filtered and sorted -/
def walk (nodes : List Node) : List Found :=
  filesIn [] nodes ++ ((filesBelow [] nodes).mergeSort fun x y => nameLe x.1 y.1).flatMap Prod.snd

/-! ## Reading -/

def maxFileBytes : ℕ := 6 * 1024 * 1024
def maxTotalBytes : ℕ := 8 * 1024 * 1024
def maxAttachments : ℕ := 5

/-- the loop of `_read_regular_file`, in chunks of a mebibyte -/
def readLoop (remaining : ℕ) (data : List UInt8) : List UInt8 :=
  if h : remaining = 0 ∨ data = [] then []
  else data.take (min (1024 * 1024) remaining) ++
    readLoop (remaining - min (1024 * 1024) remaining) (data.drop (min (1024 * 1024) remaining))
termination_by remaining
decreasing_by omega

/-- `_read_regular_file` -/
def readRegularFile (f : File) (limit : ℕ) : Option (List UInt8) :=
  match f.opened with
  | none => none
  | some o =>
    if !o.regular ∨ limit < o.size then none
    else
      let content := readLoop (limit + 1) o.data
      if content.length ≤ limit then some content else none

/-! ## Screening -/

structure Candidate where
  found : Found
  size : ℕ
  extension : List Char
deriving DecidableEq

/-- what the walk has seen -/
structure Seen where
  file : Bool
  unsupported : Bool
  isUnsafe : Bool
  oversized : Bool
  candidates : List Candidate

/-- the words of a deliverable's name -/
def deliverableWords : List String := ["final", "deliverable", "brief", "report", "presentation", "output"]

/-- one of the words is in the stem of the name -/
def namedDeliverable (stem : List Char) : Bool := deliverableWords.any fun w => w.toList <:+: stem

/-- the walk comes to a file -/
def screen (U : Unicode) (s : Seen) (x : Found) : Seen :=
  let filename := x.file.name
  if hidden filename ∨ x.file.link then { s with isUnsafe := true }
  else
    let s := { s with file := true }
    if "../".toList <+: x.relative ∨ x.relative = "..".toList then { s with isUnsafe := true }
    else
      let extension := extensionOf filename
      if (typeOf extension).isNone then { s with unsupported := true }
      else if (extension = ".md".toList ∨ extension = ".txt".toList) ∧
          !namedDeliverable (U.casefold (splitext filename).1) then { s with unsupported := true }
      else
        match x.file.size with
        | none => { s with isUnsafe := true }
        | some size =>
          if maxFileBytes < size then { s with oversized := true }
          else { s with candidates := s.candidates ++ [⟨x, size, extension⟩] }

/-- `ATTACHMENT_EXTENSION_ORDER` -/
def extensionOrder : List String :=
  [".pdf", ".pptx", ".docx", ".html", ".htm", ".png", ".jpg", ".jpeg", ".webp", ".gif", ".mp3", ".wav", ".md", ".txt"]

/-- texts are compared as they are decided -/
local instance texts_lawful : LawfulBEq (List Char) := inferInstance

/-- `_candidate_order` -/
def candidateOrder (U : Unicode) (relative : List Char) : ℕ × ℕ × ℕ × List Char :=
  let parts := relative.splitOn '/'
  let (stem, extension) := splitext (U.casefold (parts.getLast?.getD []))
  (if namedDeliverable stem then 0 else 1, parts.length - 1,
    if extension ∈ extensionOrder.map String.toList then (extensionOrder.map String.toList).idxOf extension else 99,
    U.casefold relative)

/-- the order of tuples -/
def orderLe (a b : ℕ × ℕ × ℕ × List Char) : Bool :=
  a.1 < b.1 || a.1 = b.1 && (a.2.1 < b.2.1 || a.2.1 = b.2.1 && (a.2.2.1 < b.2.2.1 ||
    a.2.2.1 = b.2.2.1 && nameLe a.2.2.2 b.2.2.2))

/-! ## Selection -/

structure Attachment where
  filename : List Char
  content : List Char
  contentType : String
  contentId : Option String
deriving DecidableEq

structure Selection where
  attachments : List Attachment
  /-- the names so far, case folded -/
  names : List (List Char)
  total : ℕ
  omitted : Bool
  isUnsafe : Bool

/-- a file is attached -/
def attach (U : Unicode) (s : Selection) (c : Candidate) (content : List UInt8) : Selection :=
  let filename := uniqueName U s.names (safeAttachmentName U (afterSlash c.found.relative))
  { s with
    attachments := s.attachments ++ [⟨filename, Base64.encode content, (typeOf c.extension).getD "", none⟩]
    names := U.casefold filename :: s.names
    total := s.total + content.length }

/-- one round of the loop over the candidates -/
def select (U : Unicode) (W : Workspace) (s : Selection) (c : Candidate) : Selection :=
  if maxTotalBytes < s.total + c.size then { s with omitted := true }
  else if ¬ (W.realPath ++ ['/']) <+: c.found.file.realPath then { s with isUnsafe := true }
  else
    match readRegularFile c.found.file maxFileBytes with
    | none => { s with isUnsafe := true }
    | some content =>
      if maxTotalBytes < s.total + content.length then { s with omitted := true }
      else if looksSecret c.found.relative content then { s with isUnsafe := true }
      else attach U s c content

/-- the loop over the candidates -/
def selectAll (U : Unicode) (W : Workspace) (s : Selection) : List Candidate → Selection
  | [] => s
  | c :: cs =>
    if maxAttachments ≤ s.attachments.length then { s with omitted := true } else selectAll U W (select U W s c) cs

/-- the first picture of the deliverable is shown in the mail -/
def inline (U : Unicode) : List Attachment → List Attachment
  | [] => []
  | a :: as =>
    if "image/".toList <+: a.contentType.toList ∧ "deliverable-image".toList <:+: U.casefold a.filename then
      { a with contentId := some "rally-deliverable-image" } :: as
    else a :: inline U as

/-- what the reader is told -/
def noteFor (seen : Seen) (s : Selection) : String :=
  if s.attachments ≠ [] then
    "Attached " ++ (if s.attachments.length = 1 then "deliverable" else toString s.attachments.length ++ " deliverables") ++
      ": " ++ ", ".intercalate (s.attachments.map fun a => String.ofList a.filename) ++ "." ++
      (if s.omitted ∨ seen.oversized then
        " Additional eligible files were omitted to stay within the 8 MB safety limit." else "") ++
      (if s.isUnsafe then " A candidate that failed the outbound safety check was withheld." else "")
  else if seen.oversized ∨ s.omitted then
    "No artifact was attached because eligible files exceeded the 8 MB safety limit."
  else if s.isUnsafe then
    "Rally withheld the candidate attachment because it failed the outbound safety check."
  else if seen.file ∨ seen.unsupported then
    "No supported final artifact was found; the verified result is included above."
  else "No file attachment was produced; the verified result is included above."

/-- `RUN_ID.fullmatch` -/
def isRunId (runId : Py.Value) : Bool :=
  match runId with
  | .str s =>
    "r-".toList <+: s.toList && 5 ≤ s.toList.length && s.toList.length ≤ 79 &&
      (s.toList.drop 2).all fun c => c.isLower || c.isDigit || c = '-'
  | _ => false

/-- `final_artifact_attachments` -/
def finalArtifactAttachments (U : Unicode) (W : Workspace) (runId : Py.Value) : List Attachment × String :=
  if !isRunId runId then ([], "No file was attached because the run reference was invalid.")
  else if W.link ∨ !W.isDir then
    ([], "No file attachment was produced; the verified result is included above.")
  else if ¬ (W.runPath ++ ['/']) <+: W.realPath then
    ([], "Rally withheld the attachment because it was outside the run boundary.")
  else if !W.walks then
    ([], "Rally could not safely read the deliverable; the verified result is included above.")
  else
    let seen := (walk W.nodes).foldl (screen U) ⟨false, false, false, false, []⟩
    let order := fun c : Candidate => candidateOrder U c.found.relative
    let candidates := seen.candidates.mergeSort fun c d => orderLe (order c) (order d)
    let s := selectAll U W ⟨[], [], 0, false, seen.isUnsafe⟩ candidates
    (inline U s.attachments, noteFor seen s)

/-! ## What goes out -/

/-- how long what it decodes to is -/
def Attachment.size (a : Attachment) : ℕ := ((Base64.decode a.content).getD []).length

/-- the bytes of a file that was read and that looks like no secret -/
structure Harmless (x : Found) (bytes : List UInt8) : Prop where
  read : readRegularFile x.file maxFileBytes = some bytes
  short : bytes.length ≤ maxFileBytes
  path : ¬ Regex.Occurs secretFilename x.relative
  content : ∀ r ∈ secretContent, ¬ Regex.Occurs r bytes

/-- the name and the content type of a file, where these names are taken -/
structure Labelled (U : Unicode) (x : Found) (names : List (List Char)) (filename : List Char) (contentType : String) :
    Prop where
  name : filename = uniqueName U names (safeAttachmentName U (afterSlash x.relative))
  plain : Plain filename
  type : typeOf (extensionOf x.file.name) = some contentType

/-- a harmless file of the workspace, under a name of its own -/
def Deliverable (U : Unicode) (W : Workspace) (filename content : List Char) (contentType : String) : Prop :=
  ∃ x ∈ walk W.nodes, (∃ bytes, Base64.decode content = some bytes ∧ Harmless x bytes) ∧
    ∃ names, Labelled U x names filename contentType

/-- few attachments, together within the limit, under names that differ without regard to case -/
structure Safe (U : Unicode) (W : Workspace) (l : List Attachment) : Prop where
  few : l.length ≤ maxAttachments
  each : ∀ a ∈ l, Deliverable U W a.filename a.content a.contentType
  total : (l.map Attachment.size).sum ≤ maxTotalBytes
  distinct : (l.map fun a => a.filename.map Char.toLower).Nodup

/-- so far the attachments are safe, and the books are kept -/
structure Fit (U : Unicode) (W : Workspace) (s : Selection) : Prop where
  safe : Safe U W s.attachments
  total : s.total = (s.attachments.map Attachment.size).sum
  names : ∀ a ∈ s.attachments, a.filename.map Char.toLower ∈ s.names

section Select

variable {U : Unicode} {W : Workspace} {s : Selection} {c : Candidate} {content : List UInt8}

/-- **The loop reads all of the file**, up to the limit. -/
theorem readLoop_eq (remaining : ℕ) (data : List UInt8) : readLoop remaining data = data.take remaining := by
  induction remaining, data using readLoop.induct with
  | case1 remaining data h =>
    rw [readLoop, dif_pos h]
    rcases h with rfl | rfl <;> simp
  | case2 remaining data h ih =>
    rw [readLoop, dif_neg h, ih]
    have hle : min (1024 * 1024) remaining ≤ remaining := min_le_right _ _
    calc data.take (min (1024 * 1024) remaining) ++
          (data.drop (min (1024 * 1024) remaining)).take (remaining - min (1024 * 1024) remaining)
        = data.take (min (1024 * 1024) remaining + (remaining - min (1024 * 1024) remaining)) := List.take_add.symm
      _ = data.take remaining := by rw [Nat.add_sub_cancel' hle]

theorem readRegularFile_short {f : File} {limit : ℕ} (h : readRegularFile f limit = some content) :
    content.length ≤ limit := by
  unfold readRegularFile at h
  split at h
  · cases h
  · dsimp only at h
    split_ifs at h with hregular hshort
    cases h
    exact hshort

theorem looksSecret_false {filename : List Char} (h : looksSecret filename content = false) :
    ¬ Regex.Occurs secretFilename filename ∧ ∀ r ∈ secretContent, ¬ Regex.Occurs r content := by
  rw [looksSecret, Bool.or_eq_false_iff, List.any_eq_false] at h
  refine ⟨fun hoccurs => ?_, fun r hr hoccurs => ?_⟩
  · rw [Regex.search_iff.2 hoccurs] at h
    cases h.1
  · exact h.2 r hr (Regex.search_iff.2 hoccurs)

/-- a candidate is a file of the workspace with a supported extension -/
structure Walked (W : Workspace) (c : Candidate) : Prop where
  found : c.found ∈ walk W.nodes
  extension : c.extension = extensionOf c.found.file.name
  supported : (typeOf c.extension).isSome = true

/-- a plain name is folded by the case of its letters -/
theorem casefold_plain {name : List Char} (h : Plain name) : U.casefold name = name.map Char.toLower :=
  U.casefold_ascii name fun c hc => isPlain_ascii (h c hc)

theorem attach_fit (h : Fit U W s) (hfew : s.attachments.length < maxAttachments) (hc : Walked W c)
    (hread : readRegularFile c.found.file maxFileBytes = some content)
    (htotal : s.total + content.length ≤ maxTotalBytes) (hsecret : looksSecret c.found.relative content = false) :
    Fit U W (attach U s c content) := by
  obtain ⟨hname, hcontent⟩ := looksSecret_false hsecret
  obtain ⟨hfresh, hplain⟩ := @uniqueName_fresh U s.names _
    (safeAttachmentName_plain U (afterSlash c.found.relative))
  rw [casefold_plain hplain] at hfresh
  have hdecode := Base64.decode_encode content
  refine ⟨⟨?_, ?_, ?_, ?_⟩, ?_, ?_⟩
  · simp only [attach, List.length_append, List.length_singleton]
    omega
  · intro a ha
    rcases List.mem_append.1 ha with ha | ha
    · exact h.safe.each a ha
    · rw [List.mem_singleton] at ha
      subst ha
      obtain ⟨t, ht⟩ := Option.isSome_iff_exists.1 hc.supported
      refine ⟨c.found, hc.found, ⟨content, hdecode, hread, readRegularFile_short hread, hname, hcontent⟩, s.names, rfl,
        hplain, ?_⟩
      rw [← hc.extension, ht, Option.getD_some]
  · simpa [attach, Attachment.size, hdecode, ← h.total] using htotal
  · simp only [attach, List.map_append, List.map_cons, List.map_nil]
    refine List.Nodup.append h.safe.distinct (List.nodup_singleton _) ?_
    rw [List.disjoint_singleton]
    intro hmem
    obtain ⟨a, ha, heq⟩ := List.mem_map.1 hmem
    exact hfresh (heq ▸ h.names a ha)
  · simp [attach, Attachment.size, hdecode, h.total]
  · intro a ha
    rcases List.mem_append.1 ha with ha | ha
    · exact List.mem_cons_of_mem _ (h.names a ha)
    · rw [List.mem_singleton] at ha
      subst ha
      exact List.mem_cons.2 (Or.inl (casefold_plain hplain).symm)

/-- a file that is withheld leaves the attachments -/
theorem Fit.keep (h : Fit U W s) (omitted isUnsafe : Bool) :
    Fit U W { s with omitted := omitted, isUnsafe := isUnsafe } := ⟨h.safe, h.total, h.names⟩

/-- one round -/
theorem select_fit (h : Fit U W s) (hfew : s.attachments.length < maxAttachments) (hc : Walked W c) :
    Fit U W (select U W s c) := by
  unfold select
  by_cases hsize : maxTotalBytes < s.total + c.size
  · rw [if_pos hsize]
    exact h.keep true s.isUnsafe
  by_cases hpath : (W.realPath ++ ['/']) <+: c.found.file.realPath
  · rw [if_neg hsize, if_neg (not_not.2 hpath)]
    cases hread : readRegularFile c.found.file maxFileBytes with
    | none => exact h.keep s.omitted true
    | some content =>
      simp only
      split_ifs with htotal hsecret
      · exact h.keep true s.isUnsafe
      · exact h.keep s.omitted true
      · exact attach_fit h hfew hc hread (by omega) (by simpa using hsecret)
  · rw [if_neg hsize, if_pos hpath]
    exact h.keep s.omitted true

/-- the whole loop -/
theorem selectAll_fit {cs : List Candidate} (h : Fit U W s) (hcs : ∀ c ∈ cs, Walked W c) :
    Fit U W (selectAll U W s cs) := by
  induction cs generalizing s with
  | nil => exact h
  | cons c cs ih =>
    rw [selectAll]
    split_ifs with hfew
    · exact h.keep true s.isUnsafe
    · exact ih (select_fit h (by omega) (hcs c List.mem_cons_self)) fun d hd => hcs d (List.mem_cons_of_mem c hd)

/-- a file that is screened is a candidate or none -/
theorem screen_candidates (U : Unicode) (seen : Seen) (x : Found) : ∀ c ∈ (screen U seen x).candidates,
    c ∈ seen.candidates ∨ c.found = x ∧ c.extension = extensionOf x.file.name ∧ (typeOf c.extension).isSome = true := by
  unfold screen
  intro c hc
  dsimp only at hc
  split_ifs at hc with hhidden hpath htype hwords
  · exact Or.inl hc
  · exact Or.inl hc
  · exact Or.inl hc
  · exact Or.inl hc
  · split at hc
    · exact Or.inl hc
    · split_ifs at hc
      · exact Or.inl hc
      · rcases List.mem_append.1 hc with hc | hc
        · exact Or.inl hc
        · rw [List.mem_singleton] at hc
          have hsome := Option.isNone_eq_false_iff.1 (Bool.eq_false_iff.2 htype)
          have hextension : c.extension = extensionOf x.file.name := by rw [hc]
          rw [← hextension] at hsome
          exact Or.inr ⟨by rw [hc], hextension, hsome⟩

theorem screen_all (U : Unicode) {xs : List Found} {seen : Seen} (hseen : ∀ c ∈ seen.candidates, Walked W c)
    (hxs : ∀ x ∈ xs, x ∈ walk W.nodes) : ∀ c ∈ (xs.foldl (screen U) seen).candidates, Walked W c := by
  induction xs generalizing seen with
  | nil => exact hseen
  | cons x xs ih =>
    refine ih (fun c hc => ?_) fun y hy => hxs y (List.mem_cons_of_mem x hy)
    rcases screen_candidates U seen x c hc with hc | ⟨hfound, hextension, htype⟩
    · exact hseen c hc
    · exact ⟨hfound ▸ hxs x List.mem_cons_self, by rw [hextension, hfound], htype⟩

/-- showing a picture changes nothing else -/
theorem inline_map (U : Unicode) (l : List Attachment) {β : Type} (f : List Char → List Char → String → β) :
    (inline U l).map (fun a => f a.filename a.content a.contentType) =
      l.map fun a => f a.filename a.content a.contentType := by
  induction l with
  | nil => rfl
  | cons a l ih =>
    rw [inline]
    split_ifs
    · rfl
    · rw [List.map_cons, ih, List.map_cons]

theorem inline_safe {l : List Attachment} (h : Safe U W l) : Safe U W (inline U l) where
  few := by
    have hlen := congrArg List.length (inline_map U l fun filename _ _ => filename)
    rw [List.length_map, List.length_map] at hlen
    rw [hlen]
    exact h.few
  each := by
    intro a ha
    have hmap := inline_map U l (Deliverable U W)
    have hmem : Deliverable U W a.filename a.content a.contentType ∈
        (inline U l).map fun a => Deliverable U W a.filename a.content a.contentType := List.mem_map_of_mem ha
    rw [hmap] at hmem
    obtain ⟨b, hb, heq⟩ := List.mem_map.1 hmem
    exact heq ▸ h.each b hb
  total := by
    have hsum := inline_map U l fun _ content _ => ((Base64.decode content).getD []).length
    exact (congrArg List.sum hsum).trans_le h.total
  distinct := by
    rw [inline_map U l fun filename _ _ => filename.map Char.toLower]
    exact h.distinct

end Select

theorem safe_nil (U : Unicode) (W : Workspace) : Safe U W [] where
  few := by simp
  each := fun a ha => nomatch ha
  total := by simp
  distinct := List.nodup_nil

/-- what the walk leads to -/
theorem walked_safe (U : Unicode) (W : Workspace) (isUnsafe : Bool) (le : Candidate → Candidate → Bool) :
    Safe U W (selectAll U W ⟨[], [], 0, false, isUnsafe⟩
      (((walk W.nodes).foldl (screen U) ⟨false, false, false, false, []⟩).candidates.mergeSort le)).attachments := by
  have hfirst : Fit U W ⟨[], [], 0, false, isUnsafe⟩ := ⟨safe_nil U W, rfl, fun a ha => nomatch ha⟩
  refine (selectAll_fit hfirst fun c hc => ?_).safe
  exact screen_all U (fun d hd => absurd hd List.not_mem_nil) (fun x hx => hx) c (List.mem_mergeSort.1 hc)

theorem final_safe (U : Unicode) (W : Workspace) (runId : Py.Value) : Safe U W (finalArtifactAttachments U W runId).1 := by
  unfold finalArtifactAttachments
  split_ifs
  · exact safe_nil U W
  · exact safe_nil U W
  · exact safe_nil U W
  · exact inline_safe (walked_safe U W _ _)
  · exact safe_nil U W

/-- **Safe attachments.** Whatever is in the workspace and whatever its files hold: at most five files go out, each of at
most 6 MiB and together of at most 8 MiB, each a file of the workspace whose path and bytes match none of the patterns of
secrets, under plain names that differ without regard to case; and the loop that finds such a name ends. -/
theorem attachments_safe (U : Unicode) (W : Workspace) (runId : Py.Value) :
    Safe U W (finalArtifactAttachments U W runId).1 ∧
      ∀ (names : List (List Char)) (name : List Char),
        rename U names (splitext (safeAttachmentName U name)).1 (splitext (safeAttachmentName U name)).2
            (names.length + 2) 2 (safeAttachmentName U name) =
          some (uniqueName U names (safeAttachmentName U name)) :=
  ⟨final_safe U W runId, fun _ name => uniqueName_eq (safeAttachmentName_plain U name)⟩

theorem intercalate_last {parents : List (List Char)} (h : parents ≠ []) (name : List Char) :
    ∃ front, ['/'].intercalate (parents ++ [name]) = front ++ '/' :: name := by
  induction parents with
  | nil => exact absurd rfl h
  | cons p parents ih =>
    by_cases hnil : parents = []
    · subst hnil
      exact ⟨p, by simp [List.intercalate_cons_cons]⟩
    · obtain ⟨front, hfront⟩ := ih hnil
      refine ⟨p ++ '/' :: front, ?_⟩
      rw [List.cons_append, List.intercalate_cons_of_ne_nil (by simp), hfront]
      simp

/-- what follows the last slash of a path is the file's name -/
theorem afterSlash_relative {x : Found} (h : '/' ∉ x.file.name) : afterSlash x.relative = x.file.name := by
  have hname : ∀ c ∈ x.file.name, c ≠ '/' := fun c hc hslash => h (hslash ▸ hc)
  by_cases hp : x.parents = []
  · rw [Found.relative, hp, List.nil_append, List.intercalate_singleton]
    exact takeWhile_reverse_all hname
  · obtain ⟨front, hfront⟩ := intercalate_last hp x.file.name
    rw [Found.relative, hfront]
    exact takeWhile_reverse hname

/-- **The names that go out.** Each attachment is a file of the workspace, and its name opens exactly when a letter or a
digit is left of the file's stem. -/
theorem final_opens (U : Unicode) (W : Workspace) (runId : Py.Value) (hnames : ∀ x ∈ walk W.nodes, '/' ∉ x.file.name) :
    ∀ a ∈ (finalArtifactAttachments U W runId).1, ∃ x ∈ walk W.nodes,
      typeOf (extensionOf x.file.name) = some a.contentType ∧
        (Opens a.filename a.contentType ↔ (U.nfkd (splitext x.file.name).1).any Char.isAlphanum = true) := by
  intro a ha
  obtain ⟨x, hx, -, names, hlabel⟩ := (final_safe U W runId).each a ha
  refine ⟨x, hx, hlabel.type, ?_⟩
  rw [hlabel.name, afterSlash_relative (hnames x hx)]
  exact uniqueName_opens U names x.file.name hlabel.type

end Rally.Attachments
