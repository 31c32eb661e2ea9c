/-
URLs as `urllib.parse.urlsplit` takes them apart. Nothing here is about one program.

What needs the Unicode tables or the syntax of bracketed addresses is asked of `Tables`, always about the part between `//`
and the path.

- `split`: the parts of a URL, or `ValueError`. `hostname`, `username`, `password` and `port` depend on one part alone.
- `split_join`: the parts put together again, without query and fragment, are split the same way.
-/
import Mathlib.Data.List.TakeWhile
import Rally.Core.Value

namespace Py.Url

/-! ## Parts -/

structure Tables where
  /-- `lower` of a text that is not ASCII -/
  lower : List Char → List Char
  /-- the NFKC form of a part that is not ASCII has no delimiter in it -/
  nfkcSafe : List Char → Bool
  /-- the check of a part with brackets -/
  bracketed : List Char → Bool

/-- `SplitResult` -/
structure Parts where
  scheme : List Char
  netloc : List Char
  path : List Char
  query : List Char
  fragment : List Char
deriving DecidableEq, Repr

def isAscii (c : Char) : Bool := c.toNat < 0x80

/-- characters that are removed anywhere -/
def isUnsafe (c : Char) : Bool := c = '\t' || c = '\r' || c = '\n'

def schemeChar (c : Char) : Bool := c.isAlphanum || c = '+' || c = '-' || c = '.'

def isDelimiter (c : Char) : Bool := c = '/' || c = '?' || c = '#'

/-- the URL without control characters and blanks in front, and without line ends and tabs -/
def clean (url : List Char) : List Char := (url.dropWhile fun c => c.toNat ≤ 0x20).filter fun c => !isUnsafe c

/-- the scheme, and what follows its colon -/
def splitScheme (cs : List Char) : List Char × List Char :=
  let front := cs.takeWhile (· ≠ ':')
  if ':' ∈ cs ∧ front.head?.any Char.isAlpha ∧ front.all schemeChar then
    (front.map Char.toLower, cs.drop (front.length + 1))
  else ([], cs)

/-- `_splitnetloc`, behind two slashes -/
def splitNetloc : List Char → List Char × List Char
  | '/' :: '/' :: r => (r.takeWhile fun c => !isDelimiter c, r.dropWhile fun c => !isDelimiter c)
  | cs => ([], cs)

/-- `cs.partition(d)`, without the separator -/
def cut (d : Char) (cs : List Char) : List Char × List Char := (cs.takeWhile (· ≠ d), (cs.dropWhile (· ≠ d)).drop 1)

section Tables

variable (T : Tables)

/-- the checks of brackets and `_checknetloc` -/
def validNetloc (n : List Char) : Bool :=
  decide ('[' ∈ n ↔ ']' ∈ n) && (decide ('[' ∉ n) || T.bracketed n) && (n.all isAscii || T.nfkcSafe n)

/-- `urlsplit` -/
def split (url : List Char) : Option Parts :=
  let scheme := splitScheme (clean url)
  let netloc := splitNetloc scheme.2
  if validNetloc T netloc.1 then
    let fragment := cut '#' netloc.2
    let query := cut '?' fragment.1
    some ⟨scheme.1, netloc.1, query.1, query.2, fragment.2⟩
  else none

/-! ## Hosts -/

/-- what follows the last `@` -/
def hostinfo (netloc : List Char) : List Char := (netloc.reverse.takeWhile (· ≠ '@')).reverse

/-- what stands before it -/
def userinfo (netloc : List Char) : Option (List Char) :=
  if '@' ∈ netloc then some ((netloc.reverse.dropWhile (· ≠ '@')).drop 1).reverse else none

/-- `username` -/
def username (netloc : List Char) : Option (List Char) := (userinfo netloc).map fun u => (cut ':' u).1

/-- `password` -/
def password (netloc : List Char) : Option (List Char) :=
  (userinfo netloc).bind fun u => if ':' ∈ u then some (cut ':' u).2 else none

/-- `_hostinfo` -/
def hostPort (netloc : List Char) : List Char × List Char :=
  let info := hostinfo netloc
  if '[' ∈ info then
    let address := cut ']' (cut '[' info).2
    (address.1, (cut ':' address.2).2)
  else cut ':' info

def lower (cs : List Char) : List Char := if cs.all isAscii then cs.map Char.toLower else T.lower cs

/-- `hostname`; a zone behind `%` keeps its case -/
def hostname (netloc : List Char) : Option (List Char) :=
  let host := (hostPort netloc).1
  if host = [] then none else some (lower T (cut '%' host).1 ++ host.dropWhile (· ≠ '%'))

/-- `port`, `none` where it raises `ValueError` -/
def port (netloc : List Char) : Option (Option ℕ) :=
  let digits := (hostPort netloc).2
  if digits = [] then some none
  else if digits.all Char.isDigit ∧ digits.length ≤ maxDigits ∧ Nat.ofDigitChars 10 digits 0 ≤ 65535 then
    some (some (Nat.ofDigitChars 10 digits 0))
  else none

end Tables

/-! ## Joining -/

variable {T : Tables} {url : List Char} {p : Parts}

theorem cut_of_notMem {d : Char} {cs : List Char} (h : d ∉ cs) : cut d cs = (cs, []) := by
  have hne : ∀ c ∈ cs, decide (c ≠ d) = true := by
    intro c hc
    simpa using fun heq : c = d => h (heq ▸ hc)
  rw [cut, List.takeWhile_eq_self_iff.2 hne, List.dropWhile_eq_nil_iff.2 hne]
  rfl

theorem notMem_cut (d : Char) (cs : List Char) : d ∉ (cut d cs).1 := fun h => by
  simpa using List.mem_takeWhile_imp h

theorem cut_sublist (d : Char) (cs : List Char) : (cut d cs).1.Sublist cs := List.takeWhile_sublist _

theorem clean_safe {c : Char} (h : c ∈ clean url) : isUnsafe c = false := by
  simpa using (List.mem_filter.1 h).2

theorem splitScheme_sublist (cs : List Char) : (splitScheme cs).2.Sublist cs := by
  simp only [splitScheme]
  split_ifs
  · exact List.drop_sublist _ _
  · exact List.Sublist.refl _

/-- a path as it is joined -/
def rootPath (path : List Char) : List Char := if path = [] then ['/'] else path

/-- what `split` has found between `//` and the path, and the path -/
structure Sound (netloc path : List Char) : Prop where
  host : ∀ c ∈ netloc, isDelimiter c = false ∧ isUnsafe c = false
  clear : ∀ c ∈ path, c ≠ '?' ∧ c ≠ '#' ∧ isUnsafe c = false
  rooted : path = [] ∨ ∃ rest, path = '/' :: rest

/-- a text behind a host is empty or starts with a delimiter, and so its path is empty or starts with a slash -/
theorem split_rooted {cs : List Char} (h : cs = [] ∨ ∃ c r, cs = c :: r ∧ isDelimiter c = true) :
    (cut '?' (cut '#' cs).1).1 = [] ∨ ∃ rest, (cut '?' (cut '#' cs).1).1 = '/' :: rest := by
  rcases h with rfl | ⟨c, r, rfl, hc⟩
  · exact .inl rfl
  · simp only [isDelimiter, Bool.or_eq_true, decide_eq_true_eq] at hc
    rcases hc with (rfl | rfl) | rfl
    · exact .inr ⟨_, rfl⟩
    · exact .inl rfl
    · exact .inl rfl

theorem splitNetloc_sound {cs : List Char} (hsafe : ∀ c ∈ cs, isUnsafe c = false) (hne : (splitNetloc cs).1 ≠ []) :
    Sound (splitNetloc cs).1 (cut '?' (cut '#' (splitNetloc cs).2).1).1 := by
  unfold splitNetloc at hne ⊢
  split
  · rename_i r
    have hrest : ∀ c ∈ r, isUnsafe c = false := fun c hc => hsafe c (by simp [hc])
    refine ⟨?_, ?_, split_rooted ?_⟩
    · intro c hc
      exact ⟨by simpa using List.mem_takeWhile_imp hc, hrest c ((List.takeWhile_sublist _).subset hc)⟩
    · intro c hc
      have hfront := (cut_sublist '?' _).subset hc
      refine ⟨fun heq => notMem_cut '?' _ (heq ▸ hc), fun heq => notMem_cut '#' _ (heq ▸ hfront), ?_⟩
      exact hrest c ((List.dropWhile_sublist _).subset ((cut_sublist '#' _).subset hfront))
    · cases hdrop : r.dropWhile fun c => !isDelimiter c with
      | nil => exact .inl rfl
      | cons c rest =>
        refine .inr ⟨c, rest, rfl, ?_⟩
        have hhead := List.head_dropWhile_not (fun c => !isDelimiter c) (show r.dropWhile _ ≠ [] by rw [hdrop]; simp)
        simpa [hdrop] using hhead
  · rename_i hno
    exfalso
    apply hne
    split
    · rename_i r
      exact absurd rfl (hno r)
    · rfl

theorem split_sound (h : split T url = some p) (hnetloc : p.netloc ≠ []) :
    validNetloc T p.netloc = true ∧ Sound p.netloc p.path := by
  simp only [split] at h
  split_ifs at h with hvalid
  cases h
  refine ⟨hvalid, splitNetloc_sound (fun c hc => clean_safe ((splitScheme_sublist _).subset hc)) hnetloc⟩

/-- the path is made of characters of the URL -/
theorem split_path_subset (h : split T url = some p) : p.path ⊆ url := by
  simp only [split] at h
  split_ifs at h
  cases h
  have hnetloc : ∀ cs : List Char, (splitNetloc cs).2 ⊆ cs := by
    intro cs
    unfold splitNetloc
    split
    · exact List.Subset.trans (List.dropWhile_sublist _).subset fun c hc => by simp [hc]
    · exact List.Subset.refl _
  have hclean : clean url ⊆ url := List.Subset.trans (List.filter_sublist).subset (List.dropWhile_sublist _).subset
  calc (cut '?' (cut '#' (splitNetloc (splitScheme (clean url)).2).2).1).1
      ⊆ (cut '#' (splitNetloc (splitScheme (clean url)).2).2).1 := (cut_sublist '?' _).subset
    _ ⊆ (splitNetloc (splitScheme (clean url)).2).2 := (cut_sublist '#' _).subset
    _ ⊆ (splitScheme (clean url)).2 := hnetloc _
    _ ⊆ clean url := (splitScheme_sublist _).subset
    _ ⊆ url := hclean

/-- **Joining.** The scheme `https`, a part and a path that have been split off give the same part and path again. -/
theorem split_join (h : split T url = some p) (hnetloc : p.netloc ≠ []) :
    split T ("https://".toList ++ (p.netloc ++ rootPath p.path)) =
      some ⟨"https".toList, p.netloc, rootPath p.path, [], []⟩ := by
  obtain ⟨hvalid, hsound⟩ := split_sound h hnetloc
  obtain ⟨rest, hroot⟩ : ∃ rest, rootPath p.path = '/' :: rest := by
    rcases hsound.rooted with hnil | ⟨rest, hrest⟩
    · exact ⟨[], by simp [rootPath, hnil]⟩
    · exact ⟨rest, by simp [rootPath, hrest]⟩
  have hclear : ∀ c ∈ rootPath p.path, c ≠ '?' ∧ c ≠ '#' ∧ isUnsafe c = false := by
    rw [rootPath]
    split_ifs
    · simp [isUnsafe]
    · exact hsound.clear
  have hclean : clean ("https://".toList ++ (p.netloc ++ rootPath p.path)) =
      "https://".toList ++ (p.netloc ++ rootPath p.path) := by
    have hfront : ("https://".toList ++ (p.netloc ++ rootPath p.path)).dropWhile (fun c => decide (c.toNat ≤ 0x20)) =
        "https://".toList ++ (p.netloc ++ rootPath p.path) := rfl
    rw [clean, hfront, List.filter_eq_self]
    intro c hc
    rcases List.mem_append.1 hc with hc | hc
    · have hsafe : ∀ c ∈ "https://".toList, (!isUnsafe c) = true := by decide
      exact hsafe c hc
    · rcases List.mem_append.1 hc with hc | hc
      · simpa using (hsound.host c hc).2
      · simpa using (hclear c hc).2.2
  have hscheme : splitScheme ("https://".toList ++ (p.netloc ++ rootPath p.path)) =
      ("https".toList, "//".toList ++ (p.netloc ++ rootPath p.path)) := by
    have hfront : ("https://".toList ++ (p.netloc ++ rootPath p.path)).takeWhile (· ≠ ':') = "https".toList := rfl
    rw [splitScheme, hfront, if_pos ⟨by simp, by decide, by decide⟩]
    rfl
  have hloc : splitNetloc ("//".toList ++ (p.netloc ++ rootPath p.path)) = (p.netloc, rootPath p.path) := by
    have hhost : ∀ c ∈ p.netloc, (!isDelimiter c) = true := fun c hc => by simpa using (hsound.host c hc).1
    show (List.takeWhile (fun c => !isDelimiter c) (p.netloc ++ rootPath p.path),
      List.dropWhile (fun c => !isDelimiter c) (p.netloc ++ rootPath p.path)) = _
    rw [List.takeWhile_append_of_pos hhost, List.dropWhile_append_of_pos hhost, hroot, List.takeWhile_cons_of_neg (by decide),
      List.dropWhile_cons_of_neg (by decide), List.append_nil]
  simp only [split, hclean, hscheme, hloc, hvalid, if_true, cut_of_notMem fun hc => (hclear _ hc).2.1 rfl,
    cut_of_notMem fun hc => (hclear _ hc).1 rfl]

end Py.Url
