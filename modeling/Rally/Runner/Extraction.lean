/-
The envelope in a reply (`extract` of `src/envelope.py`).

`_FENCE` finds a block by its text alone: from a fence and a brace to the first brace that a fence follows. The pattern
has no choice to go back on: of the word after the opening fence either nothing or all is skipped, and blanks are
neither braces nor backticks.

- `extract_reply`: an envelope that `json.dumps` printed in a fenced block is found again exactly if none of its strings
  has a brace, spaces and a fence in a row; otherwise no envelope is found.
- `reply_broken`: a narrative that ends its own block.
-/
import Rally.Core.JsonRoundTrip
import Rally.Envelope

namespace Rally.Envelope

open Py

/-! ## Fenced blocks -/

def tick : Char := '\x60'

def fence : List Char := [tick, tick, tick]

/-- `\s*\{`: what follows -/
def brace (cs : List Char) : Option (List Char) :=
  match cs.dropWhile isSpace with
  | [] => none
  | c :: r => if c = '\x7b' then some r else none

/-- the opening fence, the word `json` or not, and the brace: what follows -/
def opening (cs : List Char) : Option (List Char) :=
  if fence.isPrefixOf cs then
    (if "json".toList.isPrefixOf (cs.drop 3) then brace ((cs.drop 3).drop 4) else none) <|> brace (cs.drop 3)
  else none

/-- blanks and the closing fence: what follows -/
def closing (cs : List Char) : Option (List Char) :=
  if fence.isPrefixOf (cs.dropWhile isSpace) then some ((cs.dropWhile isSpace).drop 3) else none

/-- `.*?\}` and the closing fence: the text to the brace, and what follows the fence -/
def body : List Char → Option (List Char × List Char)
  | [] => none
  | c :: r =>
    match if c = '\x7d' then closing r else none with
    | some rest => some ([c], rest)
    | none => (body r).map fun p => (c :: p.1, p.2)

/-- `_FENCE` at the beginning of a text: its group, and what follows -/
def fenceAt (cs : List Char) : Option (List Char × List Char) := do
  let r ← opening cs
  let (b, rest) ← body r
  some ('\x7b' :: b, rest)

/-- `_FENCE.findall`, behind the characters of the match before -/
def findall : ℕ → List Char → List (List Char)
  | _, [] => []
  | k + 1, _ :: r => findall k r
  | 0, c :: r =>
    match fenceAt (c :: r) with
    | some (blob, rest) => blob :: findall (r.length - rest.length) r
    | none => findall 0 r

/-! ## `extract` -/

/-- an object with a checklist -/
def envelopeIn : Value → Option Env
  | .dict kvs => if (kvs.lookup "checklist").isSome then some kvs else none
  | _ => none

/-- the texts that `extract` tries, the last fenced block first -/
def candidates (text : List Char) : List (List Char) :=
  (findall 0 text).reverse ++ if (stripChars text).head? = some '\x7b' then [stripChars text] else []

/-- the first of them that is an object with a checklist; too long an integer is not caught -/
def firstEnvelope (F : List Char → Py.Float) : List (List Char) → Except Err (Option Env)
  | [] => .ok none
  | blob :: rest =>
    match loads F blob with
    | .error .decode => firstEnvelope F rest
    | .error .digits => .error .valueError
    | .ok v =>
      match envelopeIn v with
      | some env => .ok (some env)
      | none => firstEnvelope F rest

/-- `extract` -/
def extract (F : List Char → Py.Float) (text : String) : Except Err (Option Env) :=
  firstEnvelope F (candidates text.toList)

/-- a reply: prose, and the envelope in a fenced block -/
def reply (P : Runtime) (prose : String) (env : Env) : String :=
  prose ++ "```json\n" ++ dumps P spaced (.dict env) ++ "\n```"

/-! ## Where a block ends -/

/-- a brace, spaces and a fence in a row -/
def breaksOff : List Char → Bool
  | [] => false
  | c :: r => (c = '\x7d' && fence.isPrefixOf (r.dropWhile fun d => d = ' ')) || breaksOff r

mutual
/-- the strings in a value, keys among them -/
def texts : Value → List String
  | .str s => [s]
  | .list xs => textsItems xs
  | .dict kvs => textsMembers kvs
  | _ => []
def textsItems : List Value → List String
  | [] => []
  | x :: xs => texts x ++ textsItems xs
def textsMembers : List (String × Value) → List String
  | [] => []
  | (k, x) :: kvs => k :: (texts x ++ textsMembers kvs)
end

/-! ## What the pattern takes -/

theorem tick_not_space : isSpace tick = false := by decide

/-- blanks and a fence, and nothing else, close a block -/
theorem closing_spec {cs rest : List Char} (h : closing cs = some rest) :
    ∃ m, cs = m ++ (fence ++ rest) ∧ ∀ c ∈ m, isSpace c = true := by
  unfold closing at h
  split_ifs at h with hf
  cases h
  obtain ⟨t, ht⟩ := List.isPrefixOf_iff_prefix.1 hf
  refine ⟨cs.takeWhile isSpace, ?_, fun c hc => List.all_eq_true.1 List.all_takeWhile c hc⟩
  have htail : (cs.dropWhile isSpace).drop 3 = t := by
    rw [← ht]
    rfl
  rw [htail, ht, List.takeWhile_append_dropWhile]

theorem closing_blanks {m : List Char} (hm : ∀ c ∈ m, isSpace c = true) (rest : List Char) :
    closing (m ++ (fence ++ rest)) = some rest := by
  have hdrop : (m ++ (fence ++ rest)).dropWhile isSpace = fence ++ rest := by
    rw [List.dropWhile_append_of_pos hm]
    exact List.dropWhile_cons_of_neg (by rw [tick_not_space]; simp)
  unfold closing
  rw [hdrop, if_pos (List.isPrefixOf_iff_prefix.2 (List.prefix_append fence rest))]
  rfl

theorem closing_token {c : Char} {r : List Char} (hs : isSpace c = false) (hc : c ≠ tick) : closing (c :: r) = none := by
  have hdrop : (c :: r).dropWhile isSpace = c :: r := List.dropWhile_cons_of_neg (by rw [hs]; simp)
  unfold closing
  rw [hdrop, if_neg]
  intro hf
  obtain ⟨t, ht⟩ := List.isPrefixOf_iff_prefix.1 hf
  cases ht
  exact hc rfl

/-- an opening runs on inside of a literal -/
theorem opening_spec {cs r : List Char} (h : opening cs = some r) :
    ∃ m, cs = fence ++ (m ++ '\x7b' :: r) ∧ ∀ c ∈ m, c ≠ '"' ∧ c ≠ '\\' ∧ c ≠ tick := by
  have hspace : ∀ c : Char, isSpace c = true → c ≠ '"' ∧ c ≠ '\\' ∧ c ≠ tick := by
    intro c hc
    refine ⟨?_, ?_, ?_⟩ <;> rintro rfl <;> revert hc <;> decide
  have hbrace : ∀ {t r : List Char}, brace t = some r → ∃ m, t = m ++ '\x7b' :: r ∧ ∀ c ∈ m, isSpace c = true := by
    intro t r ht
    unfold brace at ht
    cases hd : t.dropWhile isSpace with
    | nil =>
      rw [hd] at ht
      cases ht
    | cons c u =>
      simp only [hd] at ht
      split_ifs at ht with hc
      cases ht
      subst hc
      refine ⟨t.takeWhile isSpace, ?_, fun c hc => List.all_eq_true.1 List.all_takeWhile c hc⟩
      rw [← hd, List.takeWhile_append_dropWhile]
  unfold opening at h
  split_ifs at h with hf hj
  · obtain ⟨t, rfl⟩ := List.isPrefixOf_iff_prefix.1 hf
    rw [show (fence ++ t).drop 3 = t from rfl] at h hj
    obtain ⟨u, rfl⟩ := List.isPrefixOf_iff_prefix.1 hj
    rcases (Option.orElse_eq_some _ _ _).1 h with h | ⟨-, h⟩
    · obtain ⟨m, hm, hall⟩ := hbrace h
      have hu : u = m ++ '\x7b' :: r := hm
      refine ⟨"json".toList ++ m, by rw [hu, List.append_assoc], fun c hc => ?_⟩
      rcases List.mem_append.1 hc with hc | hc
      · have hword : ∀ c ∈ "json".toList, c ≠ '"' ∧ c ≠ '\\' ∧ c ≠ tick := by decide
        exact hword c hc
      · exact hspace c (hall c hc)
    · obtain ⟨m, hm, hall⟩ := hbrace h
      exact ⟨m, by rw [hm], fun c hc => hspace c (hall c hc)⟩
  · obtain ⟨t, rfl⟩ := List.isPrefixOf_iff_prefix.1 hf
    obtain ⟨m, hm, hall⟩ := hbrace (show brace t = some r from h)
    exact ⟨m, by rw [hm], fun c hc => hspace c (hall c hc)⟩

/-- the group ends with the brace that the closing fence follows -/
theorem body_spec {cs b rest : List Char} (h : body cs = some (b, rest)) :
    ∃ a r, b = a ++ ['\x7d'] ∧ cs = a ++ '\x7d' :: r ∧ closing r = some rest := by
  induction cs generalizing b with
  | nil => cases h
  | cons c r ih =>
    simp only [body] at h
    cases hc : (if c = '\x7d' then closing r else none) with
    | some t =>
      rw [hc] at h
      cases h
      split_ifs at hc with hbrace
      subst hbrace
      exact ⟨[], r, rfl, rfl, hc⟩
    | none =>
      simp only [hc] at h
      obtain ⟨⟨b', rest'⟩, hb, heq⟩ := Option.map_eq_some_iff.1 h
      cases heq
      obtain ⟨a, u, rfl, rfl, hclose⟩ := ih hb
      exact ⟨c :: a, u, rfl, rfl, hclose⟩

/-- no brace of `xs` ends a block when `tail` follows -/
def Open : List Char → List Char → Prop
  | [], _ => True
  | c :: xs, tail => (c = '\x7d' → closing (xs ++ tail) = none) ∧ Open xs tail

theorem open_append (xs ys tail : List Char) : Open (xs ++ ys) tail ↔ Open xs (ys ++ tail) ∧ Open ys tail := by
  induction xs with
  | nil => simp [Open]
  | cons c xs ih => simp only [List.cons_append, Open, ih, List.append_assoc, and_assoc]

theorem open_of_notMem {xs : List Char} (h : '\x7d' ∉ xs) (tail : List Char) : Open xs tail := by
  induction xs with
  | nil => trivial
  | cons c xs ih =>
    rw [List.mem_cons, not_or] at h
    exact ⟨fun hc => absurd hc.symm h.1, ih h.2⟩

/-- a block with no end inside it ends with its last brace -/
theorem body_open {xs tail rest : List Char} (h : Open xs ('\x7d' :: tail)) (hclose : closing tail = some rest) :
    body (xs ++ '\x7d' :: tail) = some (xs ++ ['\x7d'], rest) := by
  induction xs with
  | nil => simp [body, hclose]
  | cons c xs ih =>
    have hc : (if c = '\x7d' then closing (xs ++ '\x7d' :: tail) else none) = none := by
      split_ifs with hb
      · exact h.1 hb
      · rfl
    simp only [List.cons_append, body, hc, ih h.2, Option.map_some]

/-- otherwise it ends before -/
theorem body_not_open {xs tail : List Char} (h : ¬ Open xs tail) :
    ∃ a b rest, xs = a ++ '\x7d' :: b ∧ closing (b ++ tail) = some rest ∧ body (xs ++ tail) = some (a ++ ['\x7d'], rest) := by
  induction xs with
  | nil => exact absurd trivial h
  | cons c xs ih =>
    cases hc : (if c = '\x7d' then closing (xs ++ tail) else none) with
    | some rest =>
      have hbody : body (c :: xs ++ tail) = some ([c], rest) := by simp only [List.cons_append, body, hc]
      split_ifs at hc with hb
      subst hb
      exact ⟨[], xs, rest, rfl, hc, hbody⟩
    | none =>
      have hnot : ¬ Open xs tail := by
        intro hopen
        refine h ⟨fun hb => ?_, hopen⟩
        rwa [if_pos hb] at hc
      obtain ⟨a, b, rest, rfl, hclose, hbody⟩ := ih hnot
      refine ⟨c :: a, b, rest, rfl, hclose, ?_⟩
      simp only [List.cons_append, body, hc, hbody, Option.map_some]

/-! ## Strings that end a block -/

theorem hex4_text (n : ℕ) : ∃ ds, hex4 n = '\\' :: ds ∧ '\x7d' ∉ ds := by
  refine ⟨_, rfl, ?_⟩
  have hall : ∀ k < 16, Nat.digitChar k ≠ '\x7d' := by decide
  intro hmem
  rcases List.mem_cons.1 hmem with h | h
  · cases h
  · obtain ⟨k, -, hk⟩ := List.mem_map.1 h
    exact hall _ (Nat.mod_lt _ (by omega)) hk

/-- an escape is the character itself, a space if it is a blank, or begins with a backslash -/
theorem escape_text (c : Char) : (escape true c = [c] ∧ (isSpace c = true → c = ' ')) ∨
    ∃ ds, escape true c = '\\' :: ds ∧ '\x7d' ∉ ds ∧ c ≠ ' ' ∧ c ≠ tick ∧ c ≠ '\x7d' := by
  have hplain : ∀ d ∈ [' ', tick, '\x7d'], escape true d = [d] ∧ d ≠ '\\' := by decide
  have hlong : ∀ {t : List Char}, escape true c = '\\' :: t → '\x7d' ∉ t →
      ∃ ds, escape true c = '\\' :: ds ∧ '\x7d' ∉ ds ∧ c ≠ ' ' ∧ c ≠ tick ∧ c ≠ '\x7d' := by
    intro t ht hclose
    have hne : c ∉ [' ', tick, '\x7d'] := by
      intro hmem
      obtain ⟨hself, hslash⟩ := hplain c hmem
      rw [hself] at ht
      exact hslash (List.cons.inj ht).1
    simp only [List.mem_cons, List.not_mem_nil, or_false, not_or] at hne
    exact ⟨t, ht, hclose, hne⟩
  rcases escape_cases true c with ⟨letter, hmem, he⟩ | ⟨hn, he⟩ | ⟨hn, he⟩ | ⟨hl, hlow, hhigh, he⟩
  · have hall : ∀ p ∈ shortEscapes, '\x7d' ∉ [p.2] := by decide
    exact Or.inr (hlong he (hall _ hmem))
  · obtain ⟨ds, hds, hclose⟩ := hex4_text c.toNat
    rw [hds] at he
    exact Or.inr (hlong he hclose)
  · obtain ⟨ds, hds, hclose⟩ := hex4_text (0xd800 + (c.toNat - 0x10000) / 0x400)
    obtain ⟨es, hes, hclose'⟩ := hex4_text (0xdc00 + (c.toNat - 0x10000) % 0x400)
    rw [hds, hes, List.cons_append] at he
    refine Or.inr (hlong he ?_)
    simp [hclose, hclose']
  · refine Or.inl ⟨he, fun hs => ?_⟩
    have hhigh := hhigh rfl
    simp only [isSpace, Bool.or_eq_true, Bool.and_eq_true, decide_eq_true_eq] at hs
    have hval : c.toNat = 0x20 := by omega
    rw [← Char.ofNat_toNat c, hval]

/-- escapes begin with the same backticks as the string -/
theorem fence_escapes (w : List Char) (hw : ∀ c ∈ w, c = tick) (r tail : List Char) :
    w.isPrefixOf (r.flatMap (escape true) ++ '"' :: tail) = w.isPrefixOf r := by
  induction w generalizing r with
  | nil => rfl
  | cons t w ih =>
    obtain rfl := hw t List.mem_cons_self
    cases r with
    | nil => rfl
    | cons c r =>
      rcases escape_text c with ⟨he, -⟩ | ⟨ds, he, -, -, hc, -⟩
      · simp only [List.flatMap_cons, he, List.cons_append, List.nil_append, List.isPrefixOf,
          ih (fun d hd => hw d (List.mem_cons_of_mem _ hd))]
      · have hslash : (tick == '\\') = false := by decide
        have hne : (tick == c) = false := by simpa using Ne.symm hc
        simp only [List.flatMap_cons, he, List.cons_append, List.isPrefixOf, hslash, hne, Bool.false_and]

/-- behind a brace in a printed string a block ends exactly if spaces and a fence follow in the string -/
theorem closing_escapes (r tail : List Char) : closing (r.flatMap (escape true) ++ '"' :: tail) = none ↔
    fence.isPrefixOf (r.dropWhile fun d => d = ' ') = false := by
  induction r with
  | nil => exact iff_of_true (closing_token (by decide) (by decide)) rfl
  | cons c r ih =>
    by_cases hspace : c = ' '
    · subst hspace
      have he : escape true ' ' = [' '] := by decide
      have hstep : ∀ t, closing (' ' :: t) = closing t := fun t => rfl
      rw [List.flatMap_cons, he, List.append_assoc, List.singleton_append, hstep, ih]
      rfl
    · have hdrop : (c :: r).dropWhile (fun d => d = ' ') = c :: r := by simp [hspace]
      rw [hdrop]
      by_cases htick : c = tick
      · rw [← fence_escapes fence (by decide) (c :: r) tail]
        have he : escape true tick = [tick] := by decide
        have hstay : ∀ t, (tick :: t).dropWhile isSpace = tick :: t := fun t => rfl
        subst htick
        simp only [List.flatMap_cons, he, List.cons_append, List.nil_append, closing, hstay]
        split_ifs with hf
        · simp [hf]
        · exact iff_of_true rfl (Bool.eq_false_iff.2 hf)
      · have hfalse : fence.isPrefixOf (c :: r) = false := by
          have hne : (tick == c) = false := by simpa using Ne.symm htick
          simp [fence, List.isPrefixOf, hne]
        refine iff_of_true ?_ hfalse
        rcases escape_text c with ⟨he, hs⟩ | ⟨ds, he, -⟩
        · rw [List.flatMap_cons, he]
          refine closing_token ?_ htick
          rw [← Bool.not_eq_true]
          exact fun h => hspace (hs h)
        · rw [List.flatMap_cons, he]
          exact closing_token (by decide) (by decide)

/-- a printed string -/
theorem open_jsonString (s : String) (tail : List Char) :
    Open (jsonString true s) tail ↔ breaksOff s.toList = false := by
  have hchars : ∀ cs : List Char, Open (cs.flatMap (escape true) ++ ['"']) tail ↔ breaksOff cs = false := by
    intro cs
    induction cs with
    | nil => exact iff_of_true ⟨fun h => absurd h (by decide), trivial⟩ rfl
    | cons c cs ih =>
      rw [List.flatMap_cons, List.append_assoc, open_append, ih, List.append_assoc]
      simp only [breaksOff, Bool.or_eq_false_iff]
      refine and_congr_left fun _ => ?_
      rcases escape_text c with ⟨he, -⟩ | ⟨ds, he, hclose, -, -, hc⟩
      · rw [he]
        simp only [Open, and_true, List.nil_append, List.singleton_append, closing_escapes]
        by_cases hb : c = '\x7d'
        · simp [hb]
        · simp [hb]
      · rw [he]
        refine iff_of_true (open_of_notMem ?_ _) (by simp [hc])
        simp [hclose]
  unfold jsonString
  rw [← hchars s.toList]
  exact ⟨fun h => h.2, fun h => ⟨fun hc => absurd hc (by decide), h⟩⟩

section Texts

variable {F : List Char → Py.Float} {P : Runtime}

/-- what follows a value in its container ends no block -/
theorem closing_items (xs : List Value) (tail : List Char) : closing (jsonItems P spaced xs ++ tail) = none := by
  cases xs with
  | nil => exact closing_token (by decide) (by decide)
  | cons x xs => exact closing_token (c := ',') (by decide) (by decide)

theorem closing_members (kvs : List (String × Value)) (tail : List Char) :
    closing (jsonMembers P spaced kvs ++ tail) = none := by
  cases kvs with
  | nil => exact closing_token (by decide) (by decide)
  | cons p kvs => exact closing_token (c := ',') (by decide) (by decide)

/-- a number has no brace -/
theorem open_number {cs : List Char} {v : Value} (h : scanNumber F cs = .ok (v, [])) (tail : List Char) :
    Open cs tail := by
  obtain ⟨⟨used, hused, hall⟩, -⟩ := scanNumber_spec h
  rw [List.append_nil] at hused
  subst hused
  refine open_of_notMem (fun hmem => ?_) tail
  rcases hall _ hmem with hd | hmem
  · cases hd
  · revert hmem
    decide

/-- the strings of a value decide whether a block ends in its text -/
def Keeps (P : Runtime) (v : Value) : Prop := ∀ tail, closing tail = none →
  (Open (jsonChars P spaced v) tail ↔ ∀ s ∈ texts v, breaksOff s.toList = false)

theorem open_cons {c : Char} (hc : c ≠ '\x7d') (xs tail : List Char) : Open (c :: xs) tail ↔ Open xs tail :=
  ⟨fun h => h.2, fun h => ⟨fun hb => absurd hb hc, h⟩⟩

theorem open_items {xs : List Value} (h : ∀ x ∈ xs, Keeps P x) (tail : List Char) :
    Open (jsonItems P spaced xs) tail ↔ ∀ s ∈ textsItems xs, breaksOff s.toList = false := by
  induction xs with
  | nil => exact iff_of_true (open_of_notMem (by simp [jsonItems]) tail) (by simp [textsItems])
  | cons x xs ih =>
    have hx := h x List.mem_cons_self (jsonItems P spaced xs ++ tail) (closing_items xs tail)
    rw [jsonItems, show spaced.comma = [',', ' '] from rfl]
    simp only [List.cons_append, List.nil_append]
    rw [open_cons (by decide), open_cons (by decide), open_append, hx, ih fun y hy => h y (List.mem_cons_of_mem x hy),
      textsItems, List.forall_mem_append]

theorem open_member {k : String} {x : Value} {kvs : List (String × Value)} (hx : Keeps P x) (tail : List Char) :
    Open (jsonString true k ++ (spaced.colon ++ (jsonChars P spaced x ++ jsonMembers P spaced kvs))) tail ↔
      breaksOff k.toList = false ∧ (∀ s ∈ texts x, breaksOff s.toList = false) ∧
        Open (jsonMembers P spaced kvs) tail := by
  rw [open_append, open_jsonString, show spaced.colon = [':', ' '] from rfl]
  simp only [List.cons_append, List.nil_append]
  rw [open_cons (by decide), open_cons (by decide), open_append, hx _ (closing_members kvs tail)]

theorem open_members {kvs : List (String × Value)} (h : ∀ p ∈ kvs, Keeps P p.2) {tail : List Char}
    (htail : closing tail = none) :
    Open (jsonMembers P spaced kvs) tail ↔ ∀ s ∈ textsMembers kvs, breaksOff s.toList = false := by
  induction kvs with
  | nil => exact iff_of_true ⟨fun _ => htail, trivial⟩ (by simp [textsMembers])
  | cons p kvs ih =>
    obtain ⟨k, x⟩ := p
    rw [jsonMembers, show spaced.comma = [',', ' '] from rfl]
    simp only [List.cons_append, List.nil_append]
    rw [open_cons (by decide), open_cons (by decide), show spaced.ensureAscii = true from rfl,
      open_member (h _ List.mem_cons_self), ih fun q hq => h q (List.mem_cons_of_mem _ hq), textsMembers,
      List.forall_mem_cons, List.forall_mem_append]

/-- **Where a printed value ends a block.** -/
theorem keeps : (v : Value) → Legal F P v → Keeps P v
  | .none, _ => fun tail _ => iff_of_true (open_of_notMem (by simp [jsonChars]) tail) (by simp [texts])
  | .bool true, _ => fun tail _ => iff_of_true (open_of_notMem (by simp [jsonChars]) tail) (by simp [texts])
  | .bool false, _ => fun tail _ => iff_of_true (open_of_notMem (by simp [jsonChars]) tail) (by simp [texts])
  | .int n, h => fun tail _ => iff_of_true (open_number (scanNumber_int (F := F) h) tail) (by simp [texts])
  | .float f, h => fun tail _ => iff_of_true (open_number h tail) (by simp [texts])
  | .str s, _ => by
    intro tail _
    rw [jsonChars, texts, List.forall_mem_singleton]
    exact open_jsonString s tail
  | .list [], _ => fun tail _ => iff_of_true (open_of_notMem (by simp [jsonChars]) tail) (by simp [texts, textsItems])
  | .list (x :: xs), h => by
    have hall : ∀ y ∈ x :: xs, Keeps P y := fun y hy => keeps y (legal_items h y hy)
    intro tail _
    rw [jsonChars, open_cons (by decide), open_append, hall x List.mem_cons_self _ (closing_items xs tail),
      open_items fun y hy => hall y (List.mem_cons_of_mem x hy), texts, textsItems, List.forall_mem_append]
  | .dict [], _ => by
    intro tail htail
    refine iff_of_true ⟨fun hc => absurd hc (by decide), fun _ => htail, trivial⟩ (by simp [texts, textsMembers])
  | .dict ((k, x) :: kvs), h => by
    have hall : ∀ p ∈ (k, x) :: kvs, Keeps P p.2 := fun p hp => keeps p.2 (legal_members h.2 p hp)
    intro tail htail
    rw [jsonChars, open_cons (by decide), show spaced.ensureAscii = true from rfl, open_member (hall _ List.mem_cons_self),
      open_members (fun p hp => hall p (List.mem_cons_of_mem _ hp)) htail, texts, textsMembers, List.forall_mem_cons,
      List.forall_mem_append]
termination_by v => sizeOf v
decreasing_by
  · have := List.sizeOf_lt_of_mem hy
    simp only [Value.list.sizeOf_spec]
    omega
  · have := List.sizeOf_lt_of_mem hp
    obtain ⟨l, y⟩ := p
    simp only [Value.dict.sizeOf_spec, Prod.mk.sizeOf_spec] at this ⊢
    omega

end Texts

/-! ## The blocks of a reply -/

/-- the group of a match and all around it -/
theorem fenceAt_spec {cs blob rest : List Char} (h : fenceAt cs = some (blob, rest)) :
    ∃ m r, cs = fence ++ (m ++ (blob ++ r)) ∧ closing r = some rest ∧ (∀ c ∈ m, c ≠ '"' ∧ c ≠ '\\' ∧ c ≠ tick) ∧
      ∃ a, blob = '\x7b' :: (a ++ ['\x7d']) := by
  obtain ⟨t, ht, h⟩ := Option.bind_eq_some_iff.1 h
  obtain ⟨⟨b, rest'⟩, hb, h⟩ := Option.bind_eq_some_iff.1 h
  cases h
  obtain ⟨m, rfl, hm⟩ := opening_spec ht
  obtain ⟨a, r, rfl, rfl, hclose⟩ := body_spec hb
  exact ⟨m, r, by simp, hclose, hm, a, rfl⟩

/-- no block begins in a text without an opening brace -/
theorem findall_of_notMem {cs : List Char} (h : '\x7b' ∉ cs) (k : ℕ) : findall k cs = [] := by
  induction cs generalizing k with
  | nil => cases k <;> rfl
  | cons c r ih =>
    have hr : '\x7b' ∉ r := fun hmem => h (List.mem_cons_of_mem c hmem)
    cases k with
    | succ k => exact ih hr k
    | zero =>
      have hnone : fenceAt (c :: r) = none := by
        cases hf : fenceAt (c :: r) with
        | none => rfl
        | some p =>
          obtain ⟨m, t, ht, -, -, a, ha⟩ := fenceAt_spec hf
          refine absurd ?_ h
          rw [ht, ha]
          simp
      simp only [findall, hnone]
      exact ih hr 0

/-- the characters that a match before takes are passed over -/
theorem findall_skip (xs cs : List Char) (k : ℕ) : findall (xs.length + k) (xs ++ cs) = findall k cs := by
  induction xs with
  | nil => simp
  | cons x xs ih =>
    rw [List.length_cons, show xs.length + 1 + k = xs.length + k + 1 by omega, List.cons_append]
    exact ih

/-- the end of the block of a reply -/
def blockEnd : List Char := '\n' :: fence

/-- **Blocks inside of the printed envelope.** Each begins inside of a string literal. -/
theorem findall_inside {pre cs : List Char} (hrun : Quote.run .outside (pre ++ cs) = some .outside) (k : ℕ) :
    ∀ blob ∈ findall k (cs ++ blockEnd),
      ∃ a b, pre ++ cs = a ++ (blob ++ b) ∧ Quote.run .outside a = some .inside := by
  induction cs generalizing pre k with
  | nil =>
    rw [List.nil_append, findall_of_notMem (by decide)]
    simp
  | cons c r ih =>
    have hstep : pre ++ c :: r = (pre ++ [c]) ++ r := by simp
    have hrest : ∀ k, ∀ blob ∈ findall k (r ++ blockEnd),
        ∃ a b, pre ++ c :: r = a ++ (blob ++ b) ∧ Quote.run .outside a = some .inside := by
      rw [hstep] at hrun ⊢
      exact ih hrun
    cases k with
    | succ k => exact hrest k
    | zero =>
      cases hf : fenceAt (c :: (r ++ blockEnd)) with
      | none =>
        simp only [List.cons_append, findall, hf]
        exact hrest 0
      | some p =>
        obtain ⟨blob, rest⟩ := p
        simp only [List.cons_append, findall, hf]
        refine List.forall_mem_cons.2 ⟨?_, hrest _⟩
        obtain ⟨m, t, ht, -, hm, a, ha⟩ := fenceAt_spec hf
        -- the match lies in the printed text, as the end of the block has no brace
        have hin : ∃ b, c :: r = fence ++ (m ++ (blob ++ b)) := by
          have heq : (c :: r) ++ blockEnd = (fence ++ (m ++ blob)) ++ t := by simpa using ht
          rcases List.append_eq_append_iff.1 heq with ⟨u, hu, hend⟩ | ⟨u, hu, -⟩
          · have hlast : fence ++ (m ++ blob) = (fence ++ (m ++ '\x7b' :: a)) ++ ['\x7d'] := by simp [ha]
            rcases List.eq_nil_or_concat u with rfl | ⟨v, d, rfl⟩
            · exact ⟨[], by simpa using hu.symm⟩
            · have hd : d = '\x7d' := by
                have hsplit : (fence ++ (m ++ '\x7b' :: a)) ++ ['\x7d'] = (c :: r ++ v) ++ [d] := by
                  rw [← hlast, hu]
                  simp
                exact (List.cons.inj (List.append_inj_right' hsplit rfl)).1.symm
              have hmem : '\x7d' ∈ blockEnd := by
                rw [hend, hd]
                simp
              exact absurd hmem (by decide)
          · exact ⟨u, by simpa using hu⟩
        obtain ⟨b, hb⟩ := hin
        refine ⟨pre ++ (fence ++ m), b, by rw [hb]; simp, ?_⟩
        rw [hb] at hrun
        obtain ⟨q, hq, hafter⟩ := Quote.run_prefix hrun
        have hinside : q = .inside := by
          cases q with
          | inside => rfl
          | outside =>
            rw [fence, List.cons_append, Quote.run_cons, show Quote.next .outside tick = none from by decide] at hafter
            cases hafter
          | escaped =>
            rw [fence, List.cons_append, Quote.run_cons, show Quote.next .escaped tick = none from by decide] at hafter
            cases hafter
        subst hinside
        rw [Quote.run_append_of hq]
        refine Quote.run_text fun d hd => ?_
        rcases List.mem_append.1 hd with hd | hd
        · have hall : ∀ d ∈ fence, d ≠ '"' ∧ d ≠ '\\' := by decide
          exact hall d hd
        · exact ⟨(hm d hd).1, (hm d hd).2.1⟩

section Reply

variable {F : List Char → Py.Float} {P : Runtime} {prose : String} {env : Env}

/-- nothing to read, nothing to return -/
theorem firstEnvelope_none {blobs : List (List Char)}
    (h : ∀ blob ∈ blobs, ∀ v, loads F blob = .ok v → envelopeIn v = none) (found : Env) :
    firstEnvelope F blobs ≠ .ok (some found) := by
  induction blobs with
  | nil => simp [firstEnvelope]
  | cons blob blobs ih =>
    have hrest := ih fun b hb => h b (List.mem_cons_of_mem blob hb)
    simp only [firstEnvelope]
    cases hl : loads F blob with
    | error e => cases e <;> simp [hrest]
    | ok v => simp [h blob List.mem_cons_self v hl, hrest]

/-- a block inside of the printed envelope has no checklist -/
theorem inside_none {a blob b : List Char} {v : Value} (hrun : Quote.run .outside (a ++ (blob ++ b)) = some .outside)
    (ha : Quote.run .outside a = some .inside) (hv : loads F blob = .ok v) : envelopeIn v = none := by
  rw [Quote.run_append_of ha] at hrun
  obtain ⟨q, hq, -⟩ := Quote.run_prefix hrun
  have hbare := loads_shadow hv (Option.isSome_iff_exists.2 ⟨q, hq⟩)
  cases v with
  | dict kvs =>
    simp only [envelopeIn]
    rw [if_neg]
    intro hsome
    obtain ⟨x, hx⟩ := Option.isSome_iff_exists.1 hsome
    obtain ⟨l₁, l₂, hsplit, -⟩ := List.lookup_eq_some_iff.1 hx
    have hc : 'c' ∈ bareChars := hbare kvs rfl ("checklist", x) (by rw [hsplit]; simp) 'c'
      (show 'c' ∈ "checklist".toList from by decide)
    revert hc
    decide
  | _ => rfl

/-- what ends outside of a literal does not end with a backtick -/
theorem run_tick (cs : List Char) : Quote.run .outside (cs ++ [tick]) ≠ some .outside := by
  intro h
  obtain ⟨q, -, hq⟩ := Quote.run_prefix h
  cases q <;> revert hq <;> decide

theorem stripChars_tick (cs : List Char) : ∃ zs, stripChars (cs ++ [tick]) = zs ++ [tick] := by
  have hlead : ∃ ys, (cs ++ [tick]).dropWhile isSpace = ys ++ [tick] := by
    induction cs with
    | nil => exact ⟨[], rfl⟩
    | cons c cs ih =>
      cases hc : isSpace c with
      | true =>
        obtain ⟨ys, hys⟩ := ih
        exact ⟨ys, by rw [List.cons_append, List.dropWhile_cons_of_pos hc, hys]⟩
      | false =>
        refine ⟨c :: cs, ?_⟩
        rw [List.cons_append, List.dropWhile_cons_of_neg (by rw [hc]; simp)]
  obtain ⟨ys, hys⟩ := hlead
  refine ⟨ys, ?_⟩
  unfold stripChars
  rw [hys, List.reverse_append, List.reverse_singleton, List.singleton_append,
    List.dropWhile_cons_of_neg (by rw [tick_not_space]; simp)]
  simp

/-- the blank outside of a literal keeps the run there, and a backtick stops it -/
theorem run_stuck {m : List Char} (hm : ∀ c ∈ m, c ≠ '"') (r : List Char) :
    Quote.run .outside (m ++ tick :: r) = none := by
  induction m with
  | nil =>
    rw [List.nil_append, Quote.run_cons, show Quote.next .outside tick = none from by decide]
    rfl
  | cons c m ih =>
    rw [List.cons_append, Quote.run_cons]
    cases hn : Quote.next .outside c with
    | none => rfl
    | some q =>
      rcases Quote.next_outside hn with ⟨hc, -⟩ | ⟨-, rfl⟩
      · exact absurd hc (hm c List.mem_cons_self)
      · exact ih fun d hd => hm d (List.mem_cons_of_mem c hd)

/-- the printed envelope ends with a brace -/
theorem jsonMembers_last (kvs : List (String × Value)) : ∃ ys, jsonMembers P spaced kvs = ys ++ ['\x7d'] := by
  induction kvs with
  | nil => exact ⟨[], by simp only [jsonMembers]; rfl⟩
  | cons p kvs ih =>
    obtain ⟨k, x⟩ := p
    obtain ⟨ys, hys⟩ := ih
    refine ⟨spaced.comma ++ (jsonString spaced.ensureAscii k ++ (spaced.colon ++ (jsonChars P spaced x ++ ys))), ?_⟩
    simp only [jsonMembers, hys, List.append_assoc]

theorem jsonChars_braces (hkey : (env.lookup "checklist").isSome = true) :
    ∃ xs, jsonChars P spaced (.dict env) = '\x7b' :: (xs ++ ['\x7d']) := by
  cases env with
  | nil => cases hkey
  | cons p env =>
    obtain ⟨k, x⟩ := p
    obtain ⟨ys, hys⟩ := jsonMembers_last (P := P) env
    refine ⟨jsonString spaced.ensureAscii k ++ (spaced.colon ++ (jsonChars P spaced x ++ ys)), ?_⟩
    simp only [jsonChars, hys, List.append_assoc]

/-- whether a block ends before a brace does not depend on what follows the brace -/
theorem closing_brace {b t t' : List Char} (h : closing (b ++ '\x7d' :: t) = none) :
    closing (b ++ '\x7d' :: t') = none := by
  cases hc : closing (b ++ '\x7d' :: t') with
  | none => rfl
  | some rest =>
    obtain ⟨m, hm, hall⟩ := closing_spec hc
    have hbrace : '\x7d' ∉ m ++ fence := by
      rw [List.mem_append, not_or]
      exact ⟨fun hmem => absurd (hall _ hmem) (by decide), by decide⟩
    rw [← List.append_assoc] at hm
    rcases List.append_eq_append_iff.1 hm with ⟨u, hu, hend⟩ | ⟨u, hu, -⟩
    · cases u with
      | nil =>
        rw [List.append_nil] at hu
        rw [← hu, List.append_assoc, closing_blanks hall] at h
        cases h
      | cons d u =>
        cases hend
        refine absurd ?_ hbrace
        rw [hu]
        simp
    · rw [hu, List.append_assoc, List.append_assoc, closing_blanks hall] at h
      cases h

theorem open_brace {xs t t' : List Char} (h : Open xs ('\x7d' :: t)) : Open xs ('\x7d' :: t') := by
  induction xs with
  | nil => trivial
  | cons c xs ih => exact ⟨fun hc => closing_brace (h.1 hc), ih h.2⟩

/-- a block that is cut off inside of a string is no JSON -/
theorem cut_unread {a b rest : List Char} {v : Value}
    (hrun : Quote.run .outside ('\x7b' :: (a ++ '\x7d' :: (b ++ ['\x7d']))) = some .outside)
    (hclose : closing (b ++ '\x7d' :: blockEnd) = some rest) : loads F ('\x7b' :: (a ++ ['\x7d'])) ≠ .ok v := by
  intro hv
  have hsplit : '\x7b' :: (a ++ '\x7d' :: (b ++ ['\x7d'])) = '\x7b' :: (a ++ ['\x7d']) ++ (b ++ ['\x7d']) := by simp
  rw [hsplit, Quote.run_append_of (loads_run hv)] at hrun
  obtain ⟨m, hm, hall⟩ := closing_spec hclose
  have hquote : ∀ c ∈ m, c ≠ '"' := by
    rintro c hc rfl
    exact absurd (hall _ hc) (by decide)
  -- the blanks and the first backtick stand before the last brace
  have heq : (b ++ ['\x7d']) ++ blockEnd = (m ++ [tick]) ++ (tick :: tick :: rest) := by
    simpa [fence] using hm
  rcases List.append_eq_append_iff.1 heq with ⟨u, hu, -⟩ | ⟨u, hu, -⟩
  · have hmem : '\x7d' ∈ m ++ [tick] := by
      rw [hu]
      simp
    rcases List.mem_append.1 hmem with h | h
    · exact absurd (hall _ h) (by decide)
    · revert h
      decide
  · rw [hu, List.append_assoc, List.singleton_append, run_stuck hquote] at hrun
    cases hrun

/-- prose without a fence begins no block -/
theorem findall_prose {cs : List Char} (h : ¬ fence <:+: cs) (ys : List Char) :
    findall 0 (cs ++ (fence ++ ys)) = findall 0 (fence ++ ys) := by
  induction cs with
  | nil => rfl
  | cons c cs ih =>
    have hrest : ¬ fence <:+: cs := fun hin => h (hin.trans (List.suffix_cons c cs).isInfix)
    have hnone : fenceAt (c :: (cs ++ (fence ++ ys))) = none := by
      cases hf : fenceAt (c :: (cs ++ (fence ++ ys))) with
      | none => rfl
      | some p =>
        obtain ⟨m, t, ht, -, hm, a, ha⟩ := fenceAt_spec hf
        -- a backtick cannot follow the fence
        have hnext : ∀ u, m ++ (p.1 ++ t) ≠ tick :: u := by
          intro u hu
          cases m with
          | nil =>
            rw [ha] at hu
            cases hu
          | cons d m =>
            cases hu
            exact (hm tick List.mem_cons_self).2.2 rfl
        rcases cs with _ | ⟨d, _ | ⟨e, cs⟩⟩
        · exact absurd (List.cons.inj (List.cons.inj (List.cons.inj ht).2).2).2.symm (hnext _)
        · exact absurd (List.cons.inj (List.cons.inj (List.cons.inj ht).2).2).2.symm (hnext _)
        · obtain ⟨hc, ht⟩ := List.cons.inj ht
          obtain ⟨hd, ht⟩ := List.cons.inj ht
          obtain ⟨he, -⟩ := List.cons.inj ht
          rw [hc, hd, he] at h
          exact absurd (List.prefix_append fence cs).isInfix h
    simp only [List.cons_append, findall, hnone]
    exact ih hrest

theorem reply_toList (prose : String) (env : Env) : (reply P prose env).toList =
    prose.toList ++ (fence ++ ("json\n".toList ++ (jsonChars P spaced (.dict env) ++ blockEnd))) := by
  have hopen : "```json\n".toList = fence ++ "json\n".toList := by decide
  have hend : "\n```".toList = blockEnd := by decide
  simp only [reply, dumps, String.toList_append, String.toList_ofList, hopen, hend, List.append_assoc]

theorem body_length {cs b rest : List Char} (h : body cs = some (b, rest)) : rest.length ≤ cs.length := by
  obtain ⟨a, r, rfl, rfl, hclose⟩ := body_spec h
  obtain ⟨m, rfl, -⟩ := closing_spec hclose
  simp only [List.length_append, List.length_cons]
  omega

/-- the first block of a fence that opens with `json` and a brace, and those behind it -/
theorem findall_block {cs b rest : List Char} (h : body cs = some (b, rest)) :
    findall 0 (fence ++ ("json\n".toList ++ '\x7b' :: cs)) =
      ('\x7b' :: b) :: findall (cs.length + 1 - rest.length) ('\x7b' :: cs) := by
  have hle := body_length h
  have hopening : opening (fence ++ ("json\n".toList ++ '\x7b' :: cs)) = some cs := rfl
  have hat : fenceAt (fence ++ ("json\n".toList ++ '\x7b' :: cs)) = some ('\x7b' :: b, rest) := by
    simp only [fenceAt, hopening, h, bind, Option.bind]
  have hsplit : [tick, tick] ++ ("json\n".toList ++ '\x7b' :: cs) = ([tick, tick] ++ "json\n".toList) ++ '\x7b' :: cs := by
    simp
  have hlength : ([tick, tick] ++ ("json\n".toList ++ '\x7b' :: cs)).length - rest.length =
      ([tick, tick] ++ "json\n".toList).length + (cs.length + 1 - rest.length) := by
    have hword : "json\n".toList.length = 5 := by decide
    simp only [List.length_append, List.length_cons, List.length_nil, hword]
    omega
  rw [show fence ++ ("json\n".toList ++ '\x7b' :: cs) = tick :: ([tick, tick] ++ ("json\n".toList ++ '\x7b' :: cs)) from rfl]
    at hat ⊢
  simp only [findall, hat]
  rw [hlength, hsplit, findall_skip]

/-- **The envelope in a reply.** What `json.dumps` printed in a fenced block is found again exactly if none of its strings
ends the block; if one does, no envelope is found at all. -/
theorem extract_reply (hprose : ¬ fence <:+: prose.toList) (hkey : (env.lookup "checklist").isSome = true)
    (hlegal : Legal F P (.dict env)) :
    (extract F (reply P prose env) = .ok (some env) ↔ ∀ s ∈ texts (.dict env), breaksOff s.toList = false) ∧
      ((∃ found, extract F (reply P prose env) = .ok (some found)) ↔
        ∀ s ∈ texts (.dict env), breaksOff s.toList = false) := by
  obtain ⟨xs, hJ⟩ := jsonChars_braces (P := P) hkey
  have hloads := loads_dumps spaced_sound hlegal
  have hrun := loads_run hloads
  have hkeeps : Open xs ('\x7d' :: blockEnd) ↔ ∀ s ∈ texts (.dict env), breaksOff s.toList = false := by
    rw [← keeps (.dict env) hlegal [','] (by decide), hJ, open_cons (by decide), open_append]
    exact ⟨fun h => ⟨open_brace h, fun _ => by decide, trivial⟩, fun h => open_brace h.1⟩
  have htext : (reply P prose env).toList =
      prose.toList ++ (fence ++ ("json\n".toList ++ '\x7b' :: (xs ++ '\x7d' :: blockEnd))) := by
    rw [reply_toList, hJ]
    simp
  have hfound : Open xs ('\x7d' :: blockEnd) → extract F (reply P prose env) = .ok (some env) := by
    intro hopen
    have hall : findall 0 (reply P prose env).toList = [jsonChars P spaced (.dict env)] := by
      rw [htext, findall_prose hprose, findall_block (body_open hopen (show closing blockEnd = some [] from by decide)), hJ]
      have hnone := findall_skip ('\x7b' :: (xs ++ '\x7d' :: blockEnd)) [] 0
      rw [List.append_nil] at hnone
      rw [show (xs ++ '\x7d' :: blockEnd).length + 1 - ([] : List Char).length =
        ('\x7b' :: (xs ++ '\x7d' :: blockEnd)).length + 0 by simp, hnone]
      rfl
    unfold extract candidates
    rw [hall]
    simp [firstEnvelope, hloads, envelopeIn, hkey]
  have hlost : ¬ Open xs ('\x7d' :: blockEnd) → ∀ found, extract F (reply P prose env) ≠ .ok (some found) := by
    intro hnot
    obtain ⟨a, b, rest, rfl, hclose, hbody⟩ := body_not_open hnot
    rw [hJ] at hrun
    have hall : findall 0 (reply P prose env).toList = ('\x7b' :: (a ++ ['\x7d'])) ::
        findall ((a ++ '\x7d' :: b ++ '\x7d' :: blockEnd).length + 1 - rest.length)
          ('\x7b' :: (a ++ '\x7d' :: b ++ '\x7d' :: blockEnd)) := by
      rw [htext, findall_prose hprose, findall_block hbody]
    refine firstEnvelope_none fun blob hblob v hv => ?_
    rcases List.mem_append.1 hblob with hblob | hblob
    · rw [List.mem_reverse, hall] at hblob
      rcases List.mem_cons.1 hblob with rfl | hblob
      · refine absurd hv (cut_unread ?_ hclose)
        simpa using hrun
      · have hinside := @findall_inside [] _ hrun
        obtain ⟨p, q, hpq, hp⟩ := hinside _ blob (by simpa [blockEnd] using hblob)
        rw [List.nil_append] at hpq
        rw [hpq] at hrun
        exact inside_none hrun hp hv
    · -- the whole reply ends with a backtick
      have hend : (reply P prose env).toList = (prose.toList ++ (fence ++ ("json\n".toList ++
          (jsonChars P spaced (.dict env) ++ ['\n', tick, tick])))) ++ [tick] := by
        rw [reply_toList, blockEnd]
        simp [fence]
      obtain ⟨zs, hzs⟩ := stripChars_tick (prose.toList ++ (fence ++ ("json\n".toList ++
        (jsonChars P spaced (.dict env) ++ ['\n', tick, tick]))))
      rw [← hend] at hzs
      split_ifs at hblob
      · rw [List.mem_singleton] at hblob
        subst hblob
        rw [hzs] at hv
        exact absurd (loads_run hv) (run_tick zs)
      · cases hblob
  rw [← hkeeps]
  constructor
  · refine ⟨fun h => ?_, hfound⟩
    by_contra hnot
    exact hlost hnot env h
  · refine ⟨fun ⟨found, h⟩ => ?_, fun h => ⟨env, hfound h⟩⟩
    by_contra hnot
    exact hlost hnot found h

end Reply

/-! ## Replies -/

/-- every float printed as 0.5 and read as it -/
def halves : Runtime := ⟨fun _ => "0.5", fun s => s⟩

def readHalf : List Char → Py.Float := fun _ => .fin (1 / 2)

def noted (narrative : String) : Env :=
  [("rally_version", .int 1), ("narrative", .str narrative), ("checklist", .list [.dict [("id", .str "c1"),
    ("weight", .float (.fin (1 / 2)))]])]

/-- a narrative that quotes a template and then opens a block of its own -/
theorem reply_broken :
    extract readHalf (reply halves "Done." (noted "Uses $\x7bname\x7d``` throughout")) = .ok none := by
  decide +kernel

theorem extract_reply_sample :
    extract readHalf (reply halves "Done." (noted "Uses ``` and \x7bname\x7d throughout")) =
      .ok (some (noted "Uses ``` and \x7bname\x7d throughout")) := by
  have hlegal : Legal readHalf halves (.dict (noted "Uses ``` and \x7bname\x7d throughout")) := by
    refine ⟨by unfold Dict.Ok; decide, ?_, trivial, ⟨⟨by unfold Dict.Ok; decide, trivial, ?_, trivial⟩, trivial⟩, trivial⟩
    · unfold Legal
      decide
    · unfold Legal
      decide +kernel
  exact (extract_reply (by decide) (by decide) hlegal).1.2 (by decide)

end Rally.Envelope
