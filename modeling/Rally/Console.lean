/-
The public text of a run (`_redactions` and `_public_text` of `src/console.py`): the values of the run's state that are
redacted, the markdown links that are unwrapped, and the local URLs and paths that are removed, in this order.

- `no_local`: no text that is published shows a local URL, or a local path where the pattern recognises one.
- `Unwrapped`: a link of the redacted text unwraps into a redacted value. `Completed`: a text that is put in is part of one.
- `clean_iff`: of a state, a text and a limit, a redacted value is published exactly where it is unwrapped or completed.
  `not_completed`: values without brackets that are no part of the texts that are put in are not completed.
- `linkless_clean`: no such value is in the published text of a text that has no links to local files.
- `every_text`: plain values are kept out of every text exactly when each of them shows a local URL or path.
-/
import Mathlib.Data.List.TakeWhile
import Rally.Core.Substitute
import Rally.Core.Dict
import Rally.Core.Value

namespace Rally.Console

open Py Substitute

/-! ## The code -/

/-- what is redacted from where, and what is put there -/
def redactedKeys : List (String × String) :=
  [("workdir", "[workspace]"), ("commissioned_by", "[commissioner]"), ("thread_message_id", "[mail-id]"),
    ("commission_message_id", "[mail-id]"), ("commission_request_key", "[request-key]")]

/-- the text of a value that is redacted: `isinstance(secret, str) and len(secret) >= 4` -/
def secretText : Value → Option (List Char)
  | .str secret => if 4 ≤ secret.toList.length then some secret.toList else none
  | _ => none

/-- `_redactions` -/
def redactions (state : List (String × Value)) : List (List Char × List Char) :=
  (redactedKeys.filterMap fun entry =>
    ((Dict.get? state entry.1).bind secretText).map fun secret => (secret, entry.2.toList)).insertionSort
      fun a b => b.1.length ≤ a.1.length

/-- `[^\s)]` -/
def inUrl (c : Char) : Bool := !isSpace c && c ≠ ')'

/-- `LOCAL_MARKDOWN_FILE_LINK_RE`, replaced by its label -/
def linkRule : Rule Char := fun _ s =>
  match s with
  | '[' :: s =>
    if s.takeWhile (· ≠ ']') = [] then none
    else
      match (s.dropWhile (· ≠ ']')).dropPrefix? "](file:///".toList with
      | none => none
      | some url =>
        if url.takeWhile inUrl = [] then none
        else
          match url.dropWhile inUrl with
          | ')' :: rest => some (s.takeWhile (· ≠ ']'), rest)
          | _ => none
  | _ => none

/-- `LOCAL_FILE_URL_RE` -/
def localFileUrl : Form Char where
  words := ["file:///".toList]
  stop c := isSpace c || c = ')' || c = ']' || c = '>'
  blocks _ := false

/-- `LOCAL_ABSOLUTE_PATH_RE` -/
def localAbsolutePath : Form Char where
  words := ["/Users/".toList, "/home/".toList, "/private/".toList, "/var/folders/".toList, "/tmp/".toList]
  stop c := isSpace c || c = ')' || c = ']' || c = '>' || c = '\x60'
  blocks c := c.isAlphanum

/-- the loop of `_public_text` -/
def redact (redactions : List (List Char × List Char)) (cleaned : List Char) : List Char :=
  redactions.foldl (fun cleaned r => substitute (replaceRule r.1 r.2) none 0 cleaned) cleaned

/-- `_public_text`, of the text that `str` gives of a value -/
def publicText (value : Option (List Char)) (limit : ℕ) (redactions : List (List Char × List Char)) : List Char :=
  let cleaned := (value.map stripChars).getD []
  let cleaned := redact redactions cleaned
  let cleaned := substitute linkRule none 0 cleaned
  let cleaned := substitute (localFileUrl.rule "[local-file]".toList) none 0 cleaned
  let cleaned := substitute (localAbsolutePath.rule "[local-path]".toList) none 0 cleaned
  cleaned.take limit

/-! ## What is kept out -/

/-- the redacted values of a run -/
def secrets (state : List (String × Value)) : List (List Char) := (redactions state).map Prod.fst

/-- none of them is in a text -/
def Clean (state : List (String × Value)) (out : List Char) : Prop := ∀ secret ∈ secrets state, ¬ secret <:+: out

/-- a text without local URLs and paths -/
def NoLocal (out : List Char) : Prop := ¬ localFileUrl.Shows none out ∧ ¬ localAbsolutePath.Shows none out

/-! ## What lets it through -/

/-- a link to a local file, with its label -/
def IsLink (link label : List Char) : Prop :=
  ∃ url, link = '[' :: (label ++ ("](file:///".toList ++ (url ++ [')']))) ∧ label ≠ [] ∧ ']' ∉ label ∧
    url ≠ [] ∧ ∀ c ∈ url, inUrl c = true

/-- the text that is redacted -/
def stripped (value : Option (List Char)) : List Char := (value.map stripChars).getD []

def fileRule : Rule Char := localFileUrl.rule "[local-file]".toList

def pathRule : Rule Char := localAbsolutePath.rule "[local-path]".toList

def redactRules (redactions : List (List Char × List Char)) : List (Rule Char) :=
  redactions.map fun r => replaceRule r.1 r.2

/-- a value that stands between two others, where the rules that follow leave it, ahead of the limit -/
def Published (limit : ℕ) (secret : List Char) (rules : List (Rule Char)) (x y : List Char) : Prop :=
  ∃ x' y', Stays secret rules x y x' y' ∧ x'.length + secret.length ≤ limit

/-- a link of the redacted text unwraps into the value: it stands over the label, and neither the removal of URLs and paths
nor the limit takes it away -/
def Unwrapped (state : List (String × Value)) (value : Option (List Char)) (limit : ℕ) (secret : List Char) : Prop :=
  ∃ x y, linkRule.Makes (redact (redactions state) (stripped value)) x secret y ∧
    Published limit secret [fileRule, pathRule] x y

/-- one of the texts that are put in completes the value, of which it is a part or which is part of it, and neither the later
rules nor the limit takes it away -/
inductive Completed (state : List (String × Value)) (value : Option (List Char)) (limit : ℕ) (secret : List Char) : Prop where
  /-- the text of a redaction -/
  | redaction {before after : List (List Char × List Char)} {r : List Char × List Char} {x y : List Char} :
      redactions state = before ++ r :: after → (replaceRule r.1 r.2).Makes (redact before (stripped value)) x secret y →
        Published limit secret (redactRules after ++ [linkRule, fileRule, pathRule]) x y →
          Completed state value limit secret
  /-- the text for a URL -/
  | file {x y : List Char} :
      fileRule.Makes (run [linkRule] (redact (redactions state) (stripped value))) x secret y →
        Published limit secret [pathRule] x y → Completed state value limit secret
  /-- the text for a path -/
  | path {x y : List Char} :
      pathRule.Makes (run [linkRule, fileRule] (redact (redactions state) (stripped value))) x secret y →
        Published limit secret [] x y → Completed state value limit secret

/-! ## Kinds of values -/

/-- the texts that are put in -/
def fixedTexts : List String := redactedKeys.map Prod.snd ++ ["[local-file]", "[local-path]"]

/-- a value without brackets that is no part of the texts that are put in -/
def Apart (secret : List Char) : Prop := '[' ∉ secret ∧ ']' ∉ secret ∧ ∀ text ∈ fixedTexts, ¬ secret <:+: text.toList

/-- values without parentheses too, which are no part of a URL -/
def Plain (state : List (String × Value)) : Prop :=
  ∀ secret ∈ secrets state, Apart secret ∧ '(' ∉ secret ∧ ')' ∉ secret ∧ ¬ secret <:+: "file:///x".toList

/-- a value that shows a local URL or path, also behind a letter -/
def ShowsLocal (secret : List Char) : Prop :=
  localFileUrl.Shows (some 'a') secret ∨ localAbsolutePath.Shows (some 'a') secret

section Redactions

variable {state : List (String × Value)} {value : Option (List Char)} {limit : ℕ} {secret rep out s : List Char}

theorem mem_redactions (h : (secret, rep) ∈ redactions state) :
    4 ≤ secret.length ∧ ∃ text ∈ redactedKeys.map Prod.snd, rep = text.toList := by
  rw [redactions, List.mem_insertionSort] at h
  obtain ⟨entry, hentry, hfound⟩ := List.mem_filterMap.1 h
  obtain ⟨secret', hsecret, heq⟩ := Option.map_eq_some_iff.1 hfound
  obtain ⟨rfl, rfl⟩ := Prod.mk.inj heq
  obtain ⟨v, -, hv⟩ := Option.bind_eq_some_iff.1 hsecret
  refine ⟨?_, entry.2, List.mem_map_of_mem hentry, rfl⟩
  cases v with
  | str s =>
    rw [secretText] at hv
    split_ifs at hv with hlong
    rw [← Option.some.inj hv]
    exact hlong
  | _ => cases hv

theorem secret_length (h : secret ∈ secrets state) : 4 ≤ secret.length := by
  obtain ⟨⟨secret, rep⟩, hmem, rfl⟩ := List.mem_map.1 h
  exact (mem_redactions hmem).1

/-! ## Local URLs and paths -/

theorem url_sound : localFileUrl.Sound "[local-file]".toList := by decide

theorem path_sound : localAbsolutePath.Sound "[local-path]".toList := by decide

/-- **No local URLs and paths** in a published text. -/
theorem no_local (value : Option (List Char)) (limit : ℕ) (redactions : List (List Char × List Char)) :
    NoLocal (publicText value limit redactions) := by
  have htake : ∀ {F : Form Char} {s : List Char}, ¬ F.Shows none s → ¬ F.Shows none (s.take limit) := by
    intro F s h hshows
    have hwhole := hshows.append (s.drop limit)
    rw [List.take_append_drop] at hwhole
    exact h hwhole
  refine ⟨htake fun hshows => ?_, htake (scrub_clean path_sound none _)⟩
  refine scrub_clean url_sound none _ (shows_of_rewrites (fun _ => rfl) ?_ ?_ (substitute_rewrites rule_takes none _) hshows)
  · intro w hw
    obtain rfl := List.mem_singleton.1 hw
    exact ⟨by decide, rule_spares (by decide)⟩
  · intro b s rep rest hfound
    obtain ⟨-, w, hw, c, m, rfl, -⟩ := rule_some hfound
    refine ⟨'/', ?_, by decide⟩
    have hslash : ∀ w ∈ localAbsolutePath.words, ∃ w', w = '/' :: w' := by
      intro w hw
      simp only [localAbsolutePath, List.mem_cons, List.not_mem_nil, or_false] at hw
      rcases hw with rfl | rfl | rfl | rfl | rfl <;> exact ⟨_, rfl⟩
    obtain ⟨w', rfl⟩ := hslash w hw
    rfl

/-- a form that a value shows behind a letter is shown by every text it is in -/
theorem shown_within {F : Form Char} (hF : F.blocks 'a' = true ∨ ∀ c, F.blocks c = false)
    (h : F.Shows (some 'a') secret) (hin : secret <:+: out) : F.Shows none out := by
  obtain ⟨front, w, c, back, rfl, hw, hc, hb⟩ := h
  obtain ⟨before, after, rfl⟩ := hin
  refine ⟨before ++ front, w, c, back ++ after, by simp, hw, hc, ?_⟩
  rcases hF with hblocks | hfree
  · cases hfront : front.getLast? with
    | none => simp [hfront, hblocks] at hb
    | some d =>
      rw [hfront] at hb
      rw [List.getLast?_append, hfront]
      simpa using hb
  · cases ((before ++ front).getLast?.or none) with
    | none => rfl
    | some d => exact hfree d

/-- **Hidden values.** A value that shows a local URL or path is in no published text. -/
theorem hidden_clean (h : ShowsLocal secret) (value : Option (List Char)) (limit : ℕ)
    (redactions : List (List Char × List Char)) : ¬ secret <:+: publicText value limit redactions := by
  obtain ⟨hurl, hpath⟩ := no_local value limit redactions
  intro hin
  rcases h with h | h
  · exact hurl (shown_within (Or.inr fun _ => rfl) h hin)
  · exact hpath (shown_within (Or.inl (by decide)) h hin)

/-! ## Links -/

theorem linkRule_iff {b : Option Char} {label rest : List Char} :
    linkRule b s = some (label, rest) ↔ ∃ link, IsLink link label ∧ s = link ++ rest := by
  constructor
  · intro h
    unfold linkRule at h
    split at h
    · rename_i s
      split_ifs at h with hlabel
      split at h
      · cases h
      · rename_i url hurl
        split_ifs at h with hempty
        split at h
        · rename_i rest' hrest
          obtain ⟨rfl, rfl⟩ := Prod.mk.inj (Option.some.inj h)
          refine ⟨_, ⟨url.takeWhile inUrl, rfl, hlabel, ?_, hempty, fun c hc => List.mem_takeWhile_imp hc⟩, ?_⟩
          · exact fun hin => by simpa using List.mem_takeWhile_imp hin
          · have hs : s = s.takeWhile (· ≠ ']') ++ ("](file:///".toList ++ (url.takeWhile inUrl ++ ')' :: rest')) := by
              rw [← hrest, List.takeWhile_append_dropWhile, ← dropPrefix_iff.1 hurl, List.takeWhile_append_dropWhile]
            rw [List.cons_append, List.append_assoc, List.append_assoc, List.append_assoc, List.singleton_append, ← hs]
        · cases h
    · cases h
  · rintro ⟨_, ⟨url, rfl, hlabel, hclose, hempty, hurl⟩, rfl⟩
    have hopen : ∀ t, "](file:///".toList ++ t = ']' :: ("(file:///".toList ++ t) := fun _ => rfl
    have hclosed : ∀ c ∈ label, decide (c ≠ ']') = true := fun c hc => by
      simpa using fun h : c = ']' => hclose (h ▸ hc)
    have hlast : inUrl ')' = false := rfl
    simp only [linkRule, List.cons_append, List.append_assoc]
    rw [List.takeWhile_append_of_pos hclosed, List.dropWhile_append_of_pos hclosed, hopen, List.takeWhile_cons_of_neg (by simp),
      List.dropWhile_cons_of_neg (by simp), ← hopen, dropPrefix_append, List.append_nil, if_neg hlabel]
    simp only
    rw [List.takeWhile_append_of_pos hurl, List.dropWhile_append_of_pos hurl,
      List.takeWhile_cons_of_neg (by simp [hlast]), List.dropWhile_cons_of_neg (by simp [hlast]),
      if_neg (by simpa using hempty)]
    rfl

theorem linkRule_takes : linkRule.Takes := by
  intro b s rep rest h
  obtain ⟨link, ⟨url, rfl, -⟩, rfl⟩ := linkRule_iff.1 h
  exact ⟨_, by simp, rfl⟩

theorem linkRule_writes : linkRule.Writes := by
  intro b s rep rest h
  obtain ⟨-, ⟨-, -, hlabel, -⟩, -⟩ := linkRule_iff.1 h
  exact hlabel

/-! ## The rules in order -/

theorem redact_run (pairs : List (List Char × List Char)) (s : List Char) : redact pairs s = run (redactRules pairs) s := by
  rw [redact, run, redactRules, List.foldl_map]

theorem publicText_run (pairs : List (List Char × List Char)) : publicText value limit pairs =
    (run (redactRules pairs ++ [linkRule, fileRule, pathRule]) (stripped value)).take limit := by
  rw [run_append, ← redact_run]
  rfl

theorem fixed_nonempty : ∀ text ∈ redactedKeys.map Prod.snd, text.toList ≠ [] := by decide

theorem rules_sound (state : List (String × Value)) :
    ∀ f ∈ redactRules (redactions state) ++ [linkRule, fileRule, pathRule], f.Takes ∧ f.Writes := by
  intro f hf
  rcases List.mem_append.1 hf with hf | hf
  · obtain ⟨⟨secret, rep⟩, hmem, rfl⟩ := List.mem_map.1 hf
    obtain ⟨hlong, text, htext, rfl⟩ := mem_redactions hmem
    refine ⟨replaceRule_takes ?_, ?_⟩
    · rintro rfl
      simp at hlong
    · intro b s rep' rest hfound
      obtain ⟨t, ht, heq⟩ := Option.map_eq_some_iff.1 hfound
      rw [← (Prod.mk.inj heq).1]
      exact fixed_nonempty text htext
  · simp only [List.mem_cons, List.not_mem_nil, or_false] at hf
    rcases hf with rfl | rfl | rfl
    · exact ⟨linkRule_takes, linkRule_writes⟩
    · exact ⟨rule_takes, fun _ _ _ _ h => (rule_some h).1 ▸ (by decide)⟩
    · exact ⟨rule_takes, fun _ _ _ _ h => (rule_some h).1 ▸ (by decide)⟩

/-- what stands in a text cut off at the limit -/
theorem infix_take : secret <:+: out.take limit ↔ ∃ x y, out = x ++ (secret ++ y) ∧ x.length + secret.length ≤ limit := by
  constructor
  · rintro ⟨x, y, h⟩
    refine ⟨x, y ++ out.drop limit, ?_, ?_⟩
    · rw [← List.append_assoc, ← List.append_assoc, h, List.take_append_drop]
    · have hle := congrArg List.length h
      simp only [List.length_append, List.length_take] at hle
      omega
  · rintro ⟨x, y, rfl, hle⟩
    refine ⟨x, y.take (limit - (x.length + secret.length)), ?_⟩
    rw [← List.append_assoc x secret, List.take_append, List.length_append,
      @List.take_of_length_le _ limit (x ++ secret) (by simpa using hle)]

/-- which of the rules one is -/
theorem rules_split {pairs : List (List Char × List Char)} {f : Rule Char} {before after : List (Rule Char)}
    (h : redactRules pairs ++ [linkRule, fileRule, pathRule] = before ++ f :: after) :
    (∃ p r q, pairs = p ++ r :: q ∧ before = redactRules p ∧ f = replaceRule r.1 r.2 ∧
      after = redactRules q ++ [linkRule, fileRule, pathRule]) ∨
    (before = redactRules pairs ∧ f = linkRule ∧ after = [fileRule, pathRule]) ∨
    (before = redactRules pairs ++ [linkRule] ∧ f = fileRule ∧ after = [pathRule]) ∨
    (before = redactRules pairs ++ [linkRule, fileRule] ∧ f = pathRule ∧ after = []) := by
  induction pairs generalizing before with
  | nil =>
    cases before with
    | nil =>
      obtain ⟨rfl, rfl⟩ := List.cons.inj h
      exact Or.inr (Or.inl ⟨rfl, rfl, rfl⟩)
    | cons g before =>
      obtain ⟨rfl, hfile⟩ := List.cons.inj h
      cases before with
      | nil =>
        obtain ⟨rfl, rfl⟩ := List.cons.inj hfile
        exact Or.inr (Or.inr (Or.inl ⟨rfl, rfl, rfl⟩))
      | cons g' before =>
        obtain ⟨rfl, hpath⟩ := List.cons.inj hfile
        cases before with
        | nil =>
          obtain ⟨rfl, rfl⟩ := List.cons.inj hpath
          exact Or.inr (Or.inr (Or.inr ⟨rfl, rfl, rfl⟩))
        | cons _ before =>
          have hnone := (List.cons.inj hpath).2
          simp at hnone
  | cons r pairs ih =>
    cases before with
    | nil =>
      obtain ⟨rfl, rfl⟩ := List.cons.inj h
      exact Or.inl ⟨[], r, pairs, rfl, rfl, rfl, rfl⟩
    | cons g before =>
      obtain ⟨rfl, hrest⟩ := List.cons.inj h
      rcases ih hrest with ⟨p, r', q, rfl, rfl, rfl, rfl⟩ | ⟨rfl, rfl, rfl⟩ | ⟨rfl, rfl, rfl⟩ | ⟨rfl, rfl, rfl⟩
      · exact Or.inl ⟨r :: p, r', q, rfl, rfl, rfl, rfl⟩
      · exact Or.inr (Or.inl ⟨rfl, rfl, rfl⟩)
      · exact Or.inr (Or.inr (Or.inl ⟨rfl, rfl, rfl⟩))
      · exact Or.inr (Or.inr (Or.inr ⟨rfl, rfl, rfl⟩))

/-- the redaction of a value leaves it nowhere -/
theorem not_stays {rules : List (Rule Char)} {x y x' y' : List Char} (hne : secret ≠ [])
    (hmem : replaceRule secret rep ∈ rules) :
    ¬ Stays secret rules x y x' y' := by
  intro h
  induction h with
  | nil => cases hmem
  | @cons f rules x y x₁ y₁ x' y' hleaves _ ih =>
    rcases List.mem_cons.1 hmem with rfl | hmem
    · obtain ⟨b, -, hpasses, -⟩ := hleaves
      cases hpasses with
      | nil => exact hne rfl
      | cons hnone _ =>
        rw [← List.cons_append, replaceRule, dropPrefix_append] at hnone
        cases hnone
    · exact ih hmem

/-- **What is published.** A redacted value is published exactly where a link unwraps into it, or a text that is put in
completes it. -/
theorem published_iff (hsecret : secret ∈ secrets state) : secret <:+: publicText value limit (redactions state) ↔
    Unwrapped state value limit secret ∨ Completed state value limit secret := by
  obtain ⟨⟨secret, rep⟩, hmem, rfl⟩ := List.mem_map.1 hsecret
  have hne : secret ≠ [] := by
    have hlong := (mem_redactions hmem).1
    rintro rfl
    simp at hlong
  have hown : replaceRule secret rep ∈ redactRules (redactions state) ++ [linkRule, fileRule, pathRule] :=
    List.mem_append_left _ (List.mem_map_of_mem (f := fun r : List Char × List Char => replaceRule r.1 r.2) hmem)
  have hplaced : ∀ before f after {x₁ y₁ x y}, redactRules (redactions state) ++ [linkRule, fileRule, pathRule] =
      before ++ f :: after → f.Makes (run before (stripped value)) x₁ secret y₁ → Stays secret after x₁ y₁ x y →
        run (redactRules (redactions state) ++ [linkRule, fileRule, pathRule]) (stripped value) = x ++ (secret ++ y) :=
    fun before f after x₁ y₁ _ _ hrules hmakes hstays =>
      (run_stands (rules_sound state) hne).2 (Or.inr ⟨before, f, after, x₁, y₁, hrules, hmakes, hstays⟩)
  rw [publicText_run, infix_take]
  constructor
  · rintro ⟨x, y, hout, hlimit⟩
    rcases (run_stands (rules_sound state) hne).1 hout with
      ⟨x₀, y₀, -, hstays⟩ | ⟨before, f, after, x₁, y₁, hrules, hmakes, hstays⟩
    · exact absurd hstays (not_stays hne hown)
    · have hpublished : Published limit secret after x₁ y₁ := ⟨x, y, hstays, hlimit⟩
      rcases rules_split hrules with ⟨p, r, q, hpairs, rfl, rfl, rfl⟩ | ⟨rfl, rfl, rfl⟩ | ⟨rfl, rfl, rfl⟩ | ⟨rfl, rfl, rfl⟩
      · rw [← redact_run] at hmakes
        exact Or.inr (.redaction hpairs hmakes hpublished)
      · rw [← redact_run] at hmakes
        exact Or.inl ⟨x₁, y₁, hmakes, hpublished⟩
      · rw [run_append, ← redact_run] at hmakes
        exact Or.inr (.file hmakes hpublished)
      · rw [run_append, ← redact_run] at hmakes
        exact Or.inr (.path hmakes hpublished)
  · rintro (⟨x₁, y₁, hmakes, x, y, hstays, hlimit⟩ | hcompleted)
    · rw [redact_run] at hmakes
      exact ⟨x, y, hplaced _ _ _ rfl hmakes hstays, hlimit⟩
    · cases hcompleted with
      | @redaction before after r x₁ y₁ hsplit hmakes hpublished =>
        obtain ⟨x, y, hstays, hlimit⟩ := hpublished
        rw [redact_run] at hmakes
        refine ⟨x, y, hplaced _ _ _ ?_ hmakes hstays, hlimit⟩
        rw [hsplit, redactRules, List.map_append, List.map_cons, List.append_assoc]
        rfl
      | file hmakes hpublished =>
        obtain ⟨x, y, hstays, hlimit⟩ := hpublished
        rw [redact_run, ← run_append] at hmakes
        exact ⟨x, y, hplaced _ _ _ (by simp) hmakes hstays, hlimit⟩
      | path hmakes hpublished =>
        obtain ⟨x, y, hstays, hlimit⟩ := hpublished
        rw [redact_run, ← run_append] at hmakes
        exact ⟨x, y, hplaced _ _ _ (by simp) hmakes hstays, hlimit⟩

/-- **Exactness.** No redacted value is published exactly when none is unwrapped or completed. -/
theorem clean_iff : Clean state (publicText value limit (redactions state)) ↔
    ∀ secret ∈ secrets state, ¬ Unwrapped state value limit secret ∧ ¬ Completed state value limit secret := by
  refine forall₂_congr fun secret hsecret => ?_
  rw [published_iff hsecret, not_or]

/-! ## Values apart -/

theorem fixed_ends : ∀ text ∈ fixedTexts, text.toList.head? = some '[' ∧ text.toList.getLast? = some ']' := by
  decide

theorem Apart.foreign (h : Apart secret) {text : String} (htext : text ∈ fixedTexts) : Foreign secret text.toList := by
  obtain ⟨hopen, hclose, hfixed⟩ := h
  obtain ⟨hfront, hback⟩ := fixed_ends text htext
  exact ⟨⟨'[', hfront, hopen⟩, ⟨']', hback, hclose⟩, hfixed text htext⟩

/-- **Values apart** are completed by no text that is put in. -/
theorem not_completed (h : Apart secret) : ¬ Completed state value limit secret := by
  intro hcompleted
  cases hcompleted with
  | @redaction before after r x y hsplit hmakes _ =>
    obtain ⟨hlong, text, htext, hrep⟩ := @mem_redactions state r.1 r.2 (hsplit ▸ by simp)
    have hne : r.1 ≠ [] := by
      intro hnil
      simp [hnil] at hlong
    have hforeign : Foreign secret r.2 := hrep ▸ h.foreign (List.mem_append_left _ htext)
    exact hmakes.not_spares (replaceRule_takes hne) (replaceRule_spares hforeign)
  | file hmakes _ => exact hmakes.not_spares rule_takes (rule_spares (@Apart.foreign _ h "[local-file]" (by decide)))
  | path hmakes _ => exact hmakes.not_spares rule_takes (rule_spares (@Apart.foreign _ h "[local-path]" (by decide)))

/-- a word that no replacement can be part of comes in with none -/
theorem redact_within {pairs : List (List Char × List Char)} {w s : List Char} (hw : w ≠ [])
    (hpairs : ∀ r ∈ pairs, r.1 ≠ [] ∧ Foreign w r.2) (h : w <:+: redact pairs s) : w <:+: s := by
  induction pairs generalizing s with
  | nil => exact h
  | cons r pairs ih =>
    obtain ⟨hne, hforeign⟩ := hpairs r List.mem_cons_self
    have hrest := ih (fun r' hr' => hpairs r' (List.mem_cons_of_mem _ hr')) h
    exact replaceAll_infix hne hw hforeign hrest

theorem strip_within (s : List Char) : stripChars s <:+: s := by
  have hback : ((s.dropWhile isSpace).reverse.dropWhile isSpace).reverse <+: s.dropWhile isSpace := by
    have hsuffix := List.reverse_prefix.2 (List.dropWhile_suffix (l := (s.dropWhile isSpace).reverse) isSpace)
    rwa [List.reverse_reverse] at hsuffix
  exact hback.isInfix.trans (List.dropWhile_suffix _).isInfix

/-- **Texts without links.** Of a text without links to local files, the published text has no redacted value that is
apart. -/
theorem linkless_clean (h : ∀ secret ∈ secrets state, Apart secret) (hlink : ¬ "(file:///".toList <:+: value.getD []) :
    Clean state (publicText value limit (redactions state)) := by
  refine clean_iff.2 fun secret hsecret => ⟨?_, not_completed (h secret hsecret)⟩
  rintro ⟨x, y, ⟨-, z, b, s', label, rest, hthrough, hfound, -⟩, -⟩
  obtain ⟨front, hahead⟩ := hthrough.ahead
  obtain ⟨-, ⟨url, rfl, -⟩, rfl⟩ := linkRule_iff.1 hfound
  have hredacted : "(file:///".toList <:+: redact (redactions state) (stripped value) :=
    ⟨front ++ '[' :: (label ++ [']']), url ++ ')' :: rest, by rw [hahead]; simp⟩
  have hfixed : ∀ text ∈ redactedKeys.map Prod.snd, Foreign "(file:///".toList text.toList := by decide
  have hstripped : "(file:///".toList <:+: stripped value := by
    refine redact_within (by decide) (fun r hr => ?_) hredacted
    obtain ⟨hlong, text, htext, hrep⟩ := @mem_redactions state r.1 r.2 hr
    refine ⟨fun hnil => ?_, hrep ▸ hfixed text htext⟩
    simp [hnil] at hlong
  cases value with
  | none => exact hlink hstripped
  | some s => exact hlink (hstripped.trans (strip_within s))

/-! ## Exposed values -/

/-- each character of a value in a link of its own -/
def wrapped (secret : List Char) : List Char := (secret.flatMap fun c => '[' :: c :: "](file:///x)".toList) ++ [')']

/-- a text that a value is read from once its links are unwrapped -/
def exposing (secret : List Char) : List Char := 'a' :: wrapped secret

/-- a word without a character stands on one side of it -/
theorem infix_split {w x y : List Char} {c : Char} (hc : c ∉ w) (h : w <:+: x ++ c :: y) : w <:+: x ∨ w <:+: y := by
  obtain ⟨front, back, h⟩ := h
  rw [List.append_assoc] at h
  rcases List.append_eq_append_iff.1 h with ⟨a, rfl, hback⟩ | ⟨a, rfl, hback⟩
  · rcases List.append_eq_append_iff.1 hback with ⟨b, rfl, -⟩ | ⟨b, rfl, hy⟩
    · exact Or.inl ⟨front, b, by simp⟩
    · cases b with
      | nil => exact Or.inl ⟨front, [], by simp⟩
      | cons d b =>
        obtain ⟨rfl, -⟩ := List.cons.inj hy
        exact absurd (by simp) hc
  · cases a with
    | nil =>
      rw [List.nil_append] at hback
      cases w with
      | nil => exact Or.inl (List.nil_infix)
      | cons d w =>
        obtain ⟨rfl, -⟩ := List.cons.inj hback
        exact absurd List.mem_cons_self hc
    | cons d a =>
      obtain ⟨-, rfl⟩ := List.cons.inj hback
      exact Or.inr ⟨a, back, by simp⟩

/-- no plain value is in such a text -/
theorem exposing_plain {w : List Char} (hlong : 4 ≤ w.length)
    (hplain : Apart w ∧ '(' ∉ w ∧ ')' ∉ w ∧ ¬ w <:+: "file:///x".toList) (secret : List Char) : ¬ w <:+: exposing secret := by
  obtain ⟨⟨hopen, hclose, -⟩, hround, hroundEnd, hurl⟩ := hplain
  have hshort : ∀ {x : List Char}, x.length < 4 → ¬ w <:+: x := fun hx h => by
    have hle := h.length_le
    omega
  have hrest : ∀ {x : List Char}, x.length < 4 → ¬ w <:+: x ++ wrapped secret := by
    induction secret with
    | nil =>
      intro x hx h
      rcases infix_split hroundEnd h with h | h
      · exact hshort hx h
      · exact hshort (by simp) h
    | cons c secret ih =>
      intro x hx h
      have hsplit : x ++ wrapped (c :: secret) =
          x ++ '[' :: ([c] ++ ']' :: ([] ++ '(' :: ("file:///x".toList ++ ')' :: wrapped secret))) := by
        simp [wrapped]
      rw [hsplit] at h
      rcases infix_split hopen h with h | h
      · exact hshort hx h
      · rcases infix_split hclose h with h | h
        · exact hshort (by simp) h
        · rcases infix_split hround h with h | h
          · exact hshort (by simp) h
          · rcases infix_split hroundEnd h with h | h
            · exact hurl h
            · exact @ih [] (by simp) (by simpa using h)
  exact @hrest ['a'] (by simp)

theorem linkRule_wrapped {c : Char} (hc : c ≠ ']') (b : Option Char) (s : List Char) :
    linkRule b ('[' :: c :: ("](file:///x)".toList ++ s)) = some ([c], s) := by
  have hlabel : ("](file:///x)".toList ++ s).takeWhile (· ≠ ']') = [] := rfl
  have hrest : ("](file:///x)".toList ++ s).dropWhile (· ≠ ']') = "](file:///".toList ++ ('x' :: ')' :: s) := rfl
  have hurl : ('x' :: ')' :: s).takeWhile inUrl = ['x'] := rfl
  have hafter : ('x' :: ')' :: s).dropWhile inUrl = ')' :: s := rfl
  simp only [linkRule]
  rw [List.takeWhile_cons_of_pos (by simpa using hc), List.dropWhile_cons_of_pos (by simpa using hc), hlabel, hrest,
    dropPrefix_append]
  simp [hurl, hafter]

/-- the links around the characters are unwrapped -/
theorem wrapped_unwrapped {secret : List Char} (hsecret : ∀ c ∈ secret, c ≠ ']') (b : Option Char) :
    substitute linkRule b 0 (wrapped secret) = secret ++ [')'] := by
  induction secret generalizing b with
  | nil => rfl
  | cons c secret ih =>
    have hsplit : wrapped (c :: secret) = '[' :: c :: ("](file:///x)".toList ++ wrapped secret) := by simp [wrapped]
    have hskip := @substitute_skip _ linkRule '[' (c :: "](file:///x)".toList) (wrapped secret)
    have hlength : (c :: ("](file:///x)".toList ++ wrapped secret)).length - (wrapped secret).length =
        (c :: "](file:///x)".toList).length := by
      simp only [List.length_cons, List.length_append]
      omega
    rw [hsplit, substitute, linkRule_wrapped (hsecret c List.mem_cons_self)]
    simp only [hlength]
    rw [← List.cons_append, hskip, ih fun d hd => hsecret d (List.mem_cons_of_mem _ hd)]
    rfl

/-- a form that such a text shows is one of the value -/
theorem shows_of_framed {F : Form Char} (hstop : F.stop ')' = true)
    (hwords : F.words.all (fun w => decide (w.head? ≠ some 'a' ∧ w ≠ [])) = true)
    (h : F.Shows none ('a' :: (secret ++ [')']))) : F.Shows (some 'a') secret := by
  obtain ⟨front, w, c, back, heq, hw, hc, hb⟩ := h
  cases front with
  | nil =>
    have hword : w.head? ≠ some 'a' ∧ w ≠ [] := of_decide_eq_true (List.all_eq_true.1 hwords w hw)
    cases w with
    | nil => exact absurd rfl hword.2
    | cons e w =>
      obtain ⟨rfl, -⟩ := List.cons.inj heq
      exact absurd rfl hword.1
  | cons e front =>
    obtain ⟨rfl, htail⟩ := List.cons.inj heq
    rw [getLast?_or_cons] at hb
    rcases List.eq_nil_or_concat back with rfl | ⟨back, x, rfl⟩
    · have hlast : secret ++ [')'] = front ++ w ++ [c] := by rw [htail]; simp
      obtain ⟨-, hclose⟩ := List.append_inj' hlast rfl
      obtain rfl : ')' = c := by simpa using hclose
      rw [hstop] at hc
      cases hc
    · have hlast : secret ++ [')'] = front ++ (w ++ c :: back) ++ [x] := by rw [htail]; simp
      obtain ⟨rfl, -⟩ := List.append_inj' hlast rfl
      exact ⟨front, w, c, back, rfl, hw, hc, hb⟩

/-- **Exposed values.** A plain value that shows no local URL or path is in the published text of some text. -/
theorem exposed (h : Plain state) (hsecret : secret ∈ secrets state) (hshows : ¬ ShowsLocal secret) :
    secret <:+: publicText (some (exposing secret)) (secret.length + 2) (redactions state) := by
  rw [ShowsLocal, not_or] at hshows
  have hredact : ∀ pairs : List (List Char × List Char), (∀ r ∈ pairs, r ∈ redactions state) →
      redact pairs (exposing secret) = exposing secret := by
    intro pairs
    induction pairs with
    | nil => exact fun _ => rfl
    | cons r pairs ih =>
      intro hpairs
      have hr : r.1 ∈ secrets state := List.mem_map_of_mem (hpairs r List.mem_cons_self)
      rw [redact, List.foldl_cons, replaceAll_none (exposing_plain (secret_length hr) (h r.1 hr) secret)]
      exact ih fun r' hr' => hpairs r' (List.mem_cons_of_mem _ hr')
  have hstrip : stripChars (exposing secret) = exposing secret := by
    have hsplit : exposing secret = 'a' :: ((secret.flatMap fun c => '[' :: c :: "](file:///x)".toList) ++ [')']) := rfl
    rw [stripChars, hsplit, List.dropWhile_cons_of_neg (by decide), ← List.cons_append, List.reverse_append,
      List.reverse_singleton, List.singleton_append, List.dropWhile_cons_of_neg (by decide)]
    simp
  have hunwrap : substitute linkRule none 0 (exposing secret) = 'a' :: (secret ++ [')']) := by
    rw [exposing, substitute]
    have hnone : linkRule none ('a' :: wrapped secret) = none := rfl
    rw [hnone]
    exact congrArg _ (wrapped_unwrapped (fun c hc heq => (h secret hsecret).1.2.1 (heq ▸ hc)) _)
  have hurl : ¬ localFileUrl.Shows none ('a' :: (secret ++ [')'])) := fun hs =>
    hshows.1 (shows_of_framed (by decide) rfl hs)
  have hpath : ¬ localAbsolutePath.Shows none ('a' :: (secret ++ [')'])) := fun hs =>
    hshows.2 (shows_of_framed (by decide) rfl hs)
  simp only [publicText, Option.map_some, Option.getD_some, hstrip, hredact _ fun _ hr => hr, hunwrap, scrub_none hurl,
    scrub_none hpath]
  rw [List.take_of_length_le (by simp)]
  exact ⟨['a'], [')'], by simp⟩

/-- **Every text.** Plain values are kept out of every text exactly when each of them shows a local URL or path. -/
theorem every_text (h : Plain state) : (∀ value limit, Clean state (publicText value limit (redactions state))) ↔
    ∀ secret ∈ secrets state, ShowsLocal secret := by
  constructor
  · intro hclean secret hsecret
    by_contra hshows
    exact hclean _ _ secret hsecret (exposed h hsecret hshows)
  · exact fun hshows value limit secret hsecret => hidden_clean (hshows secret hsecret) value limit _

/-! ## Published texts -/

/-- **Public text.** No published text shows a local URL or path. Of a state, a text and a limit, it has no redacted value
exactly when no link of the redacted text unwraps into one, and no text that is put in completes one, which none does for
values without brackets that are no part of these texts. -/
theorem public_text (state : List (String × Value)) (value : Option (List Char)) (limit : ℕ) :
    NoLocal (publicText value limit (redactions state)) ∧
    (Clean state (publicText value limit (redactions state)) ↔
      ∀ secret ∈ secrets state, ¬ Unwrapped state value limit secret ∧ ¬ Completed state value limit secret) ∧
    ∀ secret ∈ secrets state, Apart secret → ¬ Completed state value limit secret :=
  ⟨no_local value limit _, clean_iff, fun _ _ hapart => not_completed hapart⟩

/-- **A link around a folder.** The workspace is published. -/
theorem workspace_published : ∃ state value,
    Dict.get? state "workdir" = some (.str "/srv/rally/work") ∧
      "/srv/rally/work".toList ∈ secrets state ∧
      publicText (some value) 4000 (redactions state) = "in /srv/rally/work/notes.md".toList ∧
      ¬ Clean state (publicText (some value) 4000 (redactions state)) := by
  let state := [("workdir", Value.str "/srv/rally/work")]
  have hout : publicText (some "in /srv/[rally](file:///x)/work/notes.md".toList) 4000 (redactions state) =
      "in /srv/rally/work/notes.md".toList := by decide
  have hsecret : "/srv/rally/work".toList ∈ secrets state := by decide
  refine ⟨state, "in /srv/[rally](file:///x)/work/notes.md".toList, rfl, hsecret, hout, fun hclean => ?_⟩
  exact hclean _ hsecret (hout ▸ ⟨"in ".toList, "/notes.md".toList, by decide⟩)

end Redactions

end Rally.Console
