/-
The properties of a result (`reason=…`, `header.i=…`) as the grammar of an `Authentication-Results` value has them, and the
pattern by which `_auth_property` of `src/ingress.py` looks for one.

- `Specs`: the grammar. Blanks stand before each item, which is a name, `=` and a value, a quoted string or a word.
- `Property`: the one item of a name, and the text it stands for.
- `Property.read`: where the grammar has the property and the pattern reads one text, it is this one. The pattern may also
  read one that is in the value of another item, quoted or not; the grammar then has none there.
- `DomainIn`: the domain in such a text. `authDomain_in`: `_auth_domain` finds it where it is spelt in ASCII.
-/
import Rally.Ingress.AuthResults

namespace Rally.Ingress

open Py

/-! ## Grammar -/

/-- a blank between the words of a value -/
def isBlank (c : Char) : Bool := c = ' ' || c = '\t'

def isKeyChar (c : Char) : Bool := c.isAlphanum || c = '-' || c = '_'

/-- a keyword, or keywords with dots between them, which may have blanks around them -/
inductive Key : List Char → Prop where
  | word {w : List Char} : w ≠ [] → (∀ c ∈ w, isKeyChar c = true) → Key w
  | dot {w a b k : List Char} : w ≠ [] → (∀ c ∈ w, isKeyChar c = true) → (∀ c ∈ a, isBlank c = true) →
      (∀ c ∈ b, isBlank c = true) → Key k → Key (w ++ (a ++ '.' :: (b ++ k)))

/-- a value: a quoted string, or a word, which does not end in `=` -/
inductive Pvalue : List Char → Prop where
  | quoted {b : List Char} : QuotedBody b → Pvalue ('"' :: (b ++ ['"']))
  | word {s : List Char} {c : Char} :
      (∀ d ∈ s ++ [c], isSpace d = false ∧ d ≠ '"' ∧ d ≠ ';') → c ≠ '=' → Pvalue (s ++ [c])

/-- the details of a result: names and their values, blanks before each name -/
inductive Specs : List Char → List (List Char × List Char) → Prop where
  | nil {s : List Char} : (∀ c ∈ s, isBlank c = true) → Specs s []
  | cons {lead key a b value s : List Char} {items : List (List Char × List Char)} :
      lead ≠ [] → (∀ c ∈ lead, isBlank c = true) → Key key → (∀ c ∈ a, isBlank c = true) → (∀ c ∈ b, isBlank c = true) →
      Pvalue value → Specs s items →
      Specs (lead ++ (key ++ (a ++ '=' :: (b ++ (value ++ s))))) ((key, value) :: items)

/-- a key is this name, whatever its case and blanks -/
def Called (name : String) (key : List Char) : Prop := (key.filter fun c => !isBlank c).map Char.toLower = name.toList

instance (name : String) (key : List Char) : Decidable (Called name key) := decEq _ _

/-- the one property of a name, and the text it stands for -/
def Property (name : String) (details text : List Char) : Prop :=
  ∃ items key value, Specs details items ∧ (items.filter fun item => Called name item.1) = [(key, value)] ∧
    text = valueText value

/-- the names of the two properties that are looked for -/
def IsProperty (name : String) : Prop := name = "header.i" ∨ name = "header.from"

/-! ## Characters -/

section Characters

variable {c : Char}

theorem isBlank_space (h : isBlank c = true) : isSpace c = true := by
  simp only [isBlank, Bool.or_eq_true, decide_eq_true_eq] at h
  rcases h with rfl | rfl <;> decide

/-- what is asked of the keyword characters, for each -/
theorem keyChar_cases (P : Char → Prop) (h : ∀ n < 128, isKeyChar (Char.ofNat n) = true → P (Char.ofNat n))
    (hc : isKeyChar c = true) : P c := by
  have hsmall : c.toNat < 128 := by
    have hn : c.val.toNat = c.toNat := rfl
    have hdash : c = '-' ↔ c.toNat = 45 := by rw [← Char.toNat_inj]; rfl
    have hline : c = '_' ↔ c.toNat = 95 := by rw [← Char.toNat_inj]; rfl
    unfold isKeyChar at hc
    delta Char.isAlphanum Char.isAlpha Char.isUpper Char.isLower Char.isDigit at hc
    simp only [Bool.or_eq_true, Bool.and_eq_true, decide_eq_true_eq, hdash, hline, ge_iff_le, UInt32.le_iff_toNat_le, hn] at hc
    simp at hc
    omega
  have hself := h c.toNat hsmall
  rw [Char.ofNat_toNat] at hself
  exact hself hc

theorem keyChar_plain (hc : isKeyChar c = true) :
    isBlank c = false ∧ isSpace c = false ∧ c.toLower ≠ '.' ∧ foldCase c = c.toLower :=
  keyChar_cases (fun c => isBlank c = false ∧ isSpace c = false ∧ c.toLower ≠ '.' ∧ foldCase c = c.toLower)
    (by decide +kernel) hc

/-- a blank has no other case -/
theorem toLower_space (h : isSpace c = true) : c.toLower = c := by
  have hname := space_not_name h
  refine dif_neg fun hupper => ?_
  have halpha : c.isAlpha = true := by
    show ((c.val ≥ 'A'.val ∧ c.val ≤ 'Z'.val : Bool) || c.isLower) = true
    rw [decide_eq_true hupper, Bool.true_or]
  simp [isNameChar, isLetter, halpha] at hname

/-- no blank is read as a letter -/
theorem foldCase_space (h : isSpace c = true) (l : Char) (hl : isSpace l = false) : foldCase c ≠ l := by
  have hname := space_not_name h
  have hother : c.toNat ≠ 0x130 ∧ c.toNat ≠ 0x131 ∧ c.toNat ≠ 0x17f ∧ c.toNat ≠ 0x212a := by
    simp only [isNameChar, isLetter, Bool.or_eq_false_iff, decide_eq_false_iff_not] at hname
    obtain ⟨⟨⟨⟨⟨⟨⟨-, h1⟩, h2⟩, h3⟩, h4⟩, -⟩, -⟩, -⟩ := hname
    exact ⟨h1, h2, h3, h4⟩
  have hfold : foldCase c = c := by
    unfold foldCase
    split
    · exact absurd ‹_› hother.1
    · exact absurd ‹_› hother.2.1
    · exact absurd ‹_› hother.2.2.1
    · exact absurd ‹_› hother.2.2.2
    · exact toLower_space h
  rintro rfl
  rw [hfold, h] at hl
  cases hl

end Characters

/-! ## The pattern at an item -/

section Item

variable {name : String} {a b key ls s t value w : List Char}

theorem dropWhile_blanks (ha : ∀ c ∈ a, isBlank c = true) {c : Char} (hc : isSpace c = false) (t : List Char) :
    (a ++ c :: t).dropWhile isSpace = c :: t :=
  (span_append (fun d hd => isBlank_space (ha d hd)) (by simpa using hc)).2

theorem matchName_word (hw : ∀ c ∈ w, isKeyChar c = true) (ls t : List Char) :
    matchName (w.map Char.toLower ++ ls) (w ++ t) = matchName ls t := by
  induction w with
  | nil => rfl
  | cons c w ih =>
    obtain ⟨hc, hw⟩ := List.forall_mem_cons.1 hw
    obtain ⟨-, -, hdot, hfold⟩ := keyChar_plain hc
    rw [List.map_cons, List.cons_append, List.cons_append, matchName]
    · rw [if_pos hfold, ih hw]
    · exact hdot

theorem filter_word (hw : ∀ c ∈ w, isKeyChar c = true) : (w.filter fun c => !isBlank c) = w :=
  List.filter_eq_self.2 fun c hc => by simp [(keyChar_plain (hw c hc)).1]

theorem filter_blanks (ha : ∀ c ∈ a, isBlank c = true) : (a.filter fun c => !isBlank c) = [] :=
  List.filter_eq_nil_iff.2 fun c hc => by simp [ha c hc]

/-- a key starts with a character that is no blank -/
theorem Key.head (h : Key key) : ∃ c k, key = c :: k ∧ isKeyChar c = true := by
  cases h with
  | word hne hw =>
    obtain ⟨c, k, rfl⟩ := List.exists_cons_of_ne_nil hne
    exact ⟨c, k, rfl, hw c List.mem_cons_self⟩
  | dot hne hw =>
    obtain ⟨c, k, rfl⟩ := List.exists_cons_of_ne_nil hne
    exact ⟨c, _, rfl, hw c List.mem_cons_self⟩

/-- the pattern of a name matches a key that is called so -/
theorem matchName_key (h : Key key) (hls : (key.filter fun c => !isBlank c).map Char.toLower = ls) (t : List Char) :
    matchName ls (key ++ t) = some t := by
  induction h generalizing ls with
  | word _ hw =>
    rw [filter_word hw] at hls
    have hmatch := matchName_word hw [] t
    rw [List.append_nil, hls] at hmatch
    rw [hmatch]
    simp [matchName]
  | @dot w a b k _ hw ha hb hk ih =>
    have hdot : isBlank '.' = false := rfl
    simp only [List.filter_append, List.filter_cons, filter_word hw, filter_blanks ha, filter_blanks hb, hdot, Bool.not_false,
      if_true, List.nil_append, List.map_append, List.map_cons] at hls
    have hlower : Char.toLower '.' = '.' := rfl
    rw [hlower] at hls
    obtain ⟨c, k', rfl, hc⟩ := hk.head
    have htail : (b ++ (c :: k' ++ t)).dropWhile isSpace = c :: k' ++ t := dropWhile_blanks hb (keyChar_plain hc).2.1 _
    have hfront : (a ++ '.' :: (b ++ (c :: k' ++ t))).dropWhile isSpace = '.' :: (b ++ (c :: k' ++ t)) :=
      dropWhile_blanks ha rfl _
    rw [← hls, List.append_assoc, matchName_word hw, List.append_assoc, List.cons_append, List.append_assoc, matchName, hfront]
    simp only [htail]
    exact ih rfl

/-- a quoted string in one line closes where its grammar has it -/
theorem closeQuote_body (hb : QuotedBody b) (hline : '\n' ∉ b) (t : List Char) : closeQuote (b ++ '"' :: t) = some t := by
  induction hb with
  | nil => rfl
  | @char c s hq he _ ih =>
    rw [List.cons_append, closeQuote, ih fun h => hline (List.mem_cons_of_mem _ h)]
    · exact hq
    · exact fun h => absurd h he
    · exact fun d r h => absurd h he
  | @escape c s _ ih =>
    simp only [List.mem_cons, not_or] at hline
    rw [List.cons_append, List.cons_append, closeQuote, if_neg (Ne.symm hline.2.1), ih hline.2.2]

/-- the pattern of a value matches the value of an item -/
theorem afterValue_value (h : Pvalue value) (hline : '\n' ∉ value) (ht : ∀ c ∈ t.head?, isBlank c = true) :
    afterValue (value ++ t) = some t := by
  cases h with
  | @quoted b hb =>
    have hbody : '\n' ∉ b := fun h => hline (by simp [h])
    simp only [List.cons_append, List.append_assoc, afterValue, if_true, List.nil_append]
    rw [closeQuote_body hb hbody]
  | @word s c hs hc =>
    obtain ⟨d, s', hd⟩ : ∃ d s', s ++ [c] = d :: s' := List.exists_cons_of_ne_nil (by simp)
    have hrun : ∀ e ∈ d :: s', (!isSpace e && e ≠ ';') = true := by
      intro e he
      obtain ⟨hspace, -, hsemi⟩ := hs e (hd ▸ he)
      simp [hspace, hsemi]
    have hhead : ∀ e ∈ t.head?, (!isSpace e && e ≠ ';') = false := fun e he => by simp [isBlank_space (ht e he)]
    obtain ⟨hspace, hquote, hsemi⟩ := hs d (hd ▸ List.mem_cons_self)
    have hrest := (span_append hrun hhead).2
    rw [hd]
    rw [List.cons_append] at hrest
    rw [List.cons_append, afterValue, if_neg hquote]
    simp only [hspace, hsemi, Bool.false_eq_true, or_self, if_false]
    rw [hrest]

theorem Pvalue.head (h : Pvalue value) : ∃ c v, value = c :: v ∧ isSpace c = false := by
  cases h with
  | quoted => exact ⟨_, _, rfl, rfl⟩
  | @word s c hs =>
    obtain ⟨d, s', hd⟩ : ∃ d s', s ++ [c] = d :: s' := List.exists_cons_of_ne_nil (by simp)
    exact ⟨d, s', hd, (hs d (hd ▸ List.mem_cons_self)).1⟩

/-- the pattern matches an item of its name, with its value -/
theorem propertyAt_item (hkey : Key key) (hname : Called name key) (ha : ∀ c ∈ a, isBlank c = true)
    (hb : ∀ c ∈ b, isBlank c = true) (hvalue : Pvalue value) (hline : '\n' ∉ value)
    (ht : ∀ c ∈ t.head?, isBlank c = true) :
    propertyAt name.toList (key ++ (a ++ '=' :: (b ++ (value ++ t)))) = some (value ++ t, t) := by
  have hequals : afterEquals (a ++ '=' :: (b ++ (value ++ t))) = some (value ++ t) := by
    obtain ⟨c, v, rfl, hc⟩ := hvalue.head
    have hfront : (a ++ '=' :: (b ++ (c :: v ++ t))).dropWhile isSpace = '=' :: (b ++ (c :: v ++ t)) :=
      dropWhile_blanks ha rfl _
    have htail : (b ++ (c :: v ++ t)).dropWhile isSpace = c :: v ++ t := dropWhile_blanks hb hc _
    rw [afterEquals, hfront]
    simp only [htail]
  rw [propertyAt, matchName_key hkey hname]
  simp only [Option.bind_eq_bind, Option.bind_some, hequals, afterValue_value hvalue hline ht]

end Item

/-! ## The scan up to an item -/

section Scan

variable {name : String} {c : Char} {a b key ls pre r s t v value x y z : List Char} {items : List (List Char × List Char)}

/-- what stands before an item: it ends in a blank, and no `=` is left without a value -/
structure Settled (pre : List Char) : Prop where
  blank : ∀ d ∈ pre.getLast?, isBlank d = true
  closed : ∀ x z, pre = x ++ '=' :: z → ∃ d ∈ z, isSpace d = false

theorem Settled.suffix (h : Settled (x ++ y)) : Settled y := by
  constructor
  · intro d hd
    refine h.blank d ?_
    rw [List.getLast?_append, Option.mem_def.1 hd]
    rfl
  · exact fun u z hy => h.closed (x ++ u) z (by rw [hy, List.append_assoc])

theorem Pvalue.last (h : Pvalue value) : ∃ v d, value = v ++ [d] ∧ isSpace d = false ∧ d ≠ '=' := by
  cases h with
  | @quoted b _ => exact ⟨'"' :: b, '"', rfl, rfl, by decide⟩
  | @word s c hs hc => exact ⟨s, c, rfl, (hs c (by simp)).1, hc⟩

/-- a value closes the `=` before it -/
theorem Settled.behind (h : Settled pre) (hne : pre ≠ []) {d : Char} (hd : isSpace d = false) (heq : d ≠ '=') (x : List Char) :
    Settled (x ++ d :: pre) := by
  constructor
  · intro e he
    refine h.blank e ?_
    rw [List.getLast?_append_cons, List.getLast?_cons, List.getLast?_eq_some_getLast hne] at he
    rw [List.getLast?_eq_some_getLast hne]
    exact he
  · intro u z hsplit
    rcases List.append_eq_append_iff.1 hsplit with ⟨more, rfl, hmore⟩ | ⟨more, rfl, hmore⟩
    · cases more with
      | nil => exact absurd (List.cons.inj hmore).1 heq
      | cons e more =>
        obtain ⟨rfl, hpre⟩ := List.cons.inj hmore
        exact h.closed more z hpre
    · cases more with
      | nil => exact absurd (List.cons.inj hmore).1.symm heq
      | cons e more =>
        obtain ⟨rfl, rfl⟩ := List.cons.inj hmore
        exact ⟨d, by simp, hd⟩

/-- an item stands behind what is settled, and blanks follow it -/
theorem Specs.at_item (h : Specs s items) (hmem : (key, value) ∈ items) :
    ∃ pre a b t, s = pre ++ (key ++ (a ++ '=' :: (b ++ (value ++ t)))) ∧ Settled pre ∧ pre ≠ [] ∧ Key key ∧ Pvalue value ∧
      (∀ d ∈ a, isBlank d = true) ∧ (∀ d ∈ b, isBlank d = true) ∧ ∀ d ∈ t.head?, isBlank d = true := by
  induction h with
  | nil => cases hmem
  | @cons lead key' a b value' s items hne hlead hkey ha hb hvalue hs ih =>
    rcases List.mem_cons.1 hmem with heq | hmem
    · obtain ⟨rfl, rfl⟩ := Prod.mk.inj heq
      refine ⟨lead, a, b, s, rfl, ⟨fun d hd => hlead d (List.mem_of_getLast? hd), fun x z heq => ?_⟩, hne, hkey, hvalue, ha, hb, ?_⟩
      · have hbad := hlead '=' (by rw [heq]; simp)
        cases hbad
      · intro d hd
        cases hs with
        | nil hs => exact hs d (List.mem_of_head? hd)
        | cons hne hlead =>
          obtain ⟨e, l, rfl⟩ := List.exists_cons_of_ne_nil hne
          obtain rfl : e = d := by simpa using hd
          exact hlead e List.mem_cons_self
    · obtain ⟨pre, a', b', t, rfl, hpre, hne', hrest⟩ := ih hmem
      obtain ⟨v, d, rfl, hd, heq⟩ := hvalue.last
      refine ⟨(lead ++ (key' ++ (a ++ '=' :: (b ++ v)))) ++ d :: pre, a', b', t, by simp, hpre.behind hne' hd heq _, by simp, hrest⟩

/-! ### What the pattern passes -/

theorem mem_unescape {d : Char} (h : d ∈ s) (hd : d ≠ '\\') : d ∈ unescape s := by
  induction s using unescape.induct with
  | case1 => cases h
  | case2 s ih =>
    simp only [unescape, if_true, List.mem_cons] at h ⊢
    tauto
  | case3 c s hc ih =>
    simp only [unescape, if_neg hc, List.mem_cons] at h ⊢
    tauto
  | case4 c s hnot ih =>
    rw [unescape]
    · rcases List.mem_cons.1 h with rfl | h
      · exact List.mem_cons_self
      · exact List.mem_cons_of_mem _ (ih h)
    · exact hnot

/-- a run stops at the first character that is not of its kind -/
theorem suffix_dropWhile {d : Char} {p : Char → Bool} (hd : p d = false) (w y : List Char) :
    d :: y <:+ (w ++ d :: y).dropWhile p := by
  induction w with
  | nil => rw [List.nil_append, List.dropWhile_cons_of_neg (by simp [hd])]
  | cons e w ih =>
    rw [List.cons_append, List.dropWhile_cons]
    split_ifs
    · exact ih
    · exact ⟨e :: w, rfl⟩

theorem foldCase_h (hc : foldCase c = 'h') : isSpace c = false ∧ c ≠ '=' ∧ c ≠ '"' := by
  refine ⟨?_, ?_, ?_⟩
  · by_contra hspace
    exact foldCase_space (by simpa using hspace) 'h' (by decide) hc
  · rintro rfl
    exact absurd hc (by decide)
  · rintro rfl
    exact absurd hc (by decide)

theorem dropWhile_stop (hc : isSpace c = false) (x : List Char) :
    (x ++ c :: y).dropWhile isSpace = x.dropWhile isSpace ++ c :: y := by
  rw [List.dropWhile_append]
  split_ifs with hempty
  · rw [List.isEmpty_iff.1 hempty, List.dropWhile_cons_of_neg (by simp [hc]), List.nil_append]
  · rfl

/-- the rest of a name without `h` does not reach an `h` that follows -/
theorem matchName_stop (hc : foldCase c = 'h') (hls : 'h' ∉ ls) (h : matchName ls (x ++ c :: y) = some s) :
    ∃ x', x' <:+ x ∧ s = x' ++ c :: y := by
  have hdrop : ∀ x : List Char, (x ++ c :: y).dropWhile isSpace = x.dropWhile isSpace ++ c :: y :=
    dropWhile_stop (foldCase_h hc).1
  induction ls, x using matchName.induct generalizing s with
  | case1 x =>
    obtain rfl := Option.some.inj (by simpa [matchName] using h : some (x ++ c :: y) = some s)
    exact ⟨x, List.suffix_rfl, rfl⟩
  | case2 ls x x' hx ih =>
    have hpoint : '.' :: x' <:+ x := hx ▸ List.dropWhile_suffix _
    have h' : matchName ls (x'.dropWhile isSpace ++ c :: y) = some s := by
      rw [matchName, hdrop, hx] at h
      simpa [hdrop] using h
    obtain ⟨x'', hsuffix, rfl⟩ := ih (fun hin => hls (List.mem_cons_of_mem _ hin)) h'
    exact ⟨x'', hsuffix.trans ((List.dropWhile_suffix _).trans ((List.suffix_cons _ _).trans hpoint)), rfl⟩
  | case3 ls x hx =>
    exfalso
    rw [matchName, hdrop] at h
    cases hx' : x.dropWhile isSpace with
    | nil =>
      rw [hx', List.nil_append] at h
      split at h
      · rename_i heq
        obtain ⟨rfl, -⟩ := List.cons.inj heq
        exact absurd hc (by decide)
      · cases h
    | cons d x' =>
      rw [hx', List.cons_append] at h
      split at h
      · rename_i heq
        obtain ⟨rfl, -⟩ := List.cons.inj heq
        exact hx x' hx'
      · cases h
  | case4 l ls hl =>
    exfalso
    rw [List.nil_append, matchName] at h
    · split_ifs at h with hfold
      exact hls (by rw [← hfold, hc]; exact List.mem_cons_self)
    · exact hl
  | case5 ls d x hl ih =>
    have h' : matchName ls (x ++ c :: y) = some s := by simpa [matchName, hl] using h
    obtain ⟨x', hsuffix, rfl⟩ := ih (fun hin => hls (List.mem_cons_of_mem _ hin)) h'
    exact ⟨x', hsuffix.trans (List.suffix_cons _ _), rfl⟩
  | case6 l ls d x hl hd => simp [matchName, hd] at h

/-- an `=` before it is not taken from what follows -/
theorem afterEquals_stop (hc : isSpace c = false) (hne : c ≠ '=') (h : afterEquals (x ++ c :: y) = some v) :
    ∃ w z, x = w ++ '=' :: z ∧ v = z.dropWhile isSpace ++ c :: y := by
  rw [afterEquals, dropWhile_stop hc] at h
  cases hx : x.dropWhile isSpace with
  | nil =>
    rw [hx, List.nil_append] at h
    split at h
    · rename_i heq
      exact absurd (List.cons.inj heq).1 hne
    · cases h
  | cons d z =>
    rw [hx, List.cons_append] at h
    split at h
    · rename_i heq
      obtain ⟨rfl, rfl⟩ := List.cons.inj heq
      obtain rfl := Option.some.inj h
      exact ⟨x.takeWhile isSpace, z, by rw [← hx, List.takeWhile_append_dropWhile], dropWhile_stop hc z⟩
    · cases h

theorem closeQuote_split (h : closeQuote s = some r) : ∃ body, s = body ++ '"' :: r := by
  induction s using closeQuote.induct with
  | case1 => cases h
  | case2 s =>
    obtain rfl := Option.some.inj (by simpa [closeQuote] using h : some s = some r)
    exact ⟨[], rfl⟩
  | case3 => cases h
  | case4 s => simp [closeQuote] at h
  | case5 c s hc ih =>
    obtain ⟨body, rfl⟩ := ih (by simpa [closeQuote, hc] using h)
    exact ⟨'\\' :: c :: body, rfl⟩
  | case6 c s hq hlast hescape ih =>
    rw [closeQuote] at h
    · obtain ⟨body, rfl⟩ := ih h
      exact ⟨c :: body, rfl⟩
    · exact hq
    · exact fun hc hs => hlast hc hs
    · exact fun d r hc hs => hescape d r hc hs

/-- a value that has begun before a blank ends before what follows the blank, or the blank is in its text -/
theorem afterValue_stop {d g : Char} (hd : isSpace d = false) (hg : isBlank g = true) (hc : c ≠ '"')
    (h : afterValue (d :: (x ++ g :: c :: y)) = some r) :
    c :: y <:+ r ∨ g ∈ valueText ((d :: (x ++ g :: c :: y)).take ((d :: (x ++ g :: c :: y)).length - r.length)) := by
  have hescape : g ≠ '\\' := by
    rintro rfl
    cases hg
  rw [afterValue] at h
  split at h
  · rename_i rest hclose
    obtain rfl := Option.some.inj h
    split_ifs at hclose with hquote
    subst hquote
    obtain ⟨body, hbody⟩ := closeQuote_split hclose
    have hassoc : x ++ g :: c :: y = (x ++ [g]) ++ c :: y := by simp
    rw [hassoc] at hbody
    rcases List.append_eq_append_iff.1 hbody with ⟨more, rfl, hmore⟩ | ⟨more, -, hmore⟩
    · right
      have htake : ('"' :: (x ++ g :: c :: y)).take (('"' :: (x ++ g :: c :: y)).length - rest.length) =
          '"' :: (x ++ [g] ++ more ++ ['"']) := by
        have hsplit : '"' :: (x ++ g :: c :: y) = '"' :: (x ++ [g] ++ more ++ ['"']) ++ rest := by
          rw [hassoc, hmore]
          simp
        rw [hsplit, List.length_append, Nat.add_sub_cancel, List.take_left]
      rw [htake, valueText, List.dropLast_concat]
      exact mem_unescape (by simp) hescape
    · left
      cases more with
      | nil => exact absurd (List.cons.inj hmore).1.symm hc
      | cons e more =>
        obtain ⟨-, rfl⟩ := List.cons.inj hmore
        exact List.suffix_append _ _
  · split_ifs at h
    obtain rfl := Option.some.inj h
    left
    have hrun := @suffix_dropWhile g (fun e => !isSpace e && e ≠ ';') (by simp [isBlank_space hg]) (d :: x) (c :: y)
    exact (List.suffix_cons _ _).trans hrun

theorem IsProperty.head (h : IsProperty name) : ∃ ls, name.toList = 'h' :: ls ∧ 'h' ∉ ls := by
  rcases h with rfl | rfl
  · exact ⟨"eader.i".toList, by decide, by decide⟩
  · exact ⟨"eader.from".toList, by decide, by decide⟩

/-- a match that begins in what is settled ends there, or there is a blank in its text -/
theorem propertyAt_stop (hname : IsProperty name) (hc : foldCase c = 'h') {d : Char} (hpre : Settled pre)
    (h : propertyAt name.toList (d :: (pre ++ c :: y)) = some (v, r)) :
    c :: y <:+ r ∨ ∃ g ∈ valueText (v.take (v.length - r.length)), isBlank g = true := by
  obtain ⟨ls, hls, hno⟩ := hname.head
  simp only [propertyAt, hls, Option.bind_eq_bind, Option.bind_eq_some_iff, Option.some.injEq] at h
  obtain ⟨s₁, hs₁, v', hv, r', hr, heq⟩ := h
  obtain ⟨rfl, rfl⟩ := Prod.mk.inj heq
  have htail : matchName ls (pre ++ c :: y) = some s₁ := by
    rw [matchName] at hs₁
    · split_ifs at hs₁
      exact hs₁
    · decide
  obtain ⟨hspace, hequals, hquote⟩ := foldCase_h hc
  obtain ⟨x, ⟨front, rfl⟩, rfl⟩ := matchName_stop hc hno htail
  obtain ⟨w, z, rfl, rfl⟩ := afterEquals_stop hspace hequals hv
  obtain ⟨e, he, hstop⟩ := hpre.suffix.closed w z rfl
  -- the value has begun, and goes on to the blank at the end
  obtain ⟨f, z', hz⟩ : ∃ f z', z.dropWhile isSpace = f :: z' := by
    refine List.exists_cons_of_ne_nil fun hnil => ?_
    rw [List.dropWhile_eq_nil_iff.1 hnil e he] at hstop
    cases hstop
  have hf : isSpace f = false := head_dropWhile z f (by rw [hz]; rfl)
  have hsettled : Settled (f :: z') := by
    obtain ⟨z₀, hz₀⟩ := List.dropWhile_suffix isSpace (l := z)
    rw [hz] at hz₀
    refine @Settled.suffix (front ++ (w ++ '=' :: z₀)) _ ?_
    rw [← hz₀] at hpre
    simpa using hpre
  obtain ⟨x, g, rfl⟩ : ∃ x g, z' = x ++ [g] := by
    rcases List.eq_nil_or_concat z' with rfl | ⟨x, g, rfl⟩
    · have hblank := isBlank_space (hsettled.blank f rfl)
      rw [hf] at hblank
      cases hblank
    · exact ⟨x, g, by simp⟩
  have hg : isBlank g = true := by
    refine hsettled.blank g ?_
    rw [← List.cons_append, List.getLast?_concat]
    rfl
  have hvalue : z.dropWhile isSpace ++ c :: y = f :: (x ++ g :: c :: y) := by simp [hz]
  rw [hvalue] at hr ⊢
  exact (afterValue_stop hf hg hquote hr).imp_right fun hin => ⟨g, hin, hg⟩

/-- the scan comes to an item behind what is settled, or reads a text with a blank before -/
theorem places_reach (hname : IsProperty name) (hc : foldCase c = 'h') (hpre : Settled pre) (before : List Char) {skip : ℕ}
    (hskip : skip ≤ pre.length) :
    (∃ p ∈ places name.toList before skip (pre ++ c :: y), ∃ g ∈ valueText p.value, isBlank g = true) ∨
      ∃ l, places name.toList before skip (pre ++ c :: y) = l ++ places name.toList (before ++ pre) 0 (c :: y) := by
  induction pre generalizing before skip with
  | nil =>
    obtain rfl : skip = 0 := by simpa using hskip
    exact Or.inr ⟨[], by simp⟩
  | cons d pre ih =>
    have hrest : Settled pre := @Settled.suffix [d] pre hpre
    cases skip with
    | succ n =>
      have hstep := ih hrest (before ++ [d]) (by simpa using hskip)
      rw [List.cons_append, places]
      simpa using hstep
    | zero =>
      rw [List.cons_append, places]
      split
      · rename_i v r hat
        split_ifs at hat
        rcases propertyAt_stop hname hc hrest hat with hsuffix | ⟨g, hin, hg⟩
        · have hlength : (pre ++ c :: y).length - r.length ≤ pre.length := by
            have hle := hsuffix.length_le
            simp only [List.length_append, List.length_cons] at hle ⊢
            omega
          rcases ih hrest (before ++ [d]) hlength with ⟨p, hp, hg⟩ | ⟨l, hl⟩
          · exact Or.inl ⟨p, List.mem_cons_of_mem _ hp, hg⟩
          · rw [List.append_assoc] at hl
            exact Or.inr ⟨_ :: l, congrArg (List.cons _) hl⟩
        · exact Or.inl ⟨_, List.mem_cons_self, g, hin, hg⟩
      · have hstep := ih hrest (before ++ [d]) (Nat.zero_le _)
        simpa using hstep

/-- **The pattern and the grammar.** Where a result has a property and the pattern reads one text without blanks, it is the
text of that property, which stands behind a blank. -/
theorem Property.read {details text : List Char} {p : Place} (h : Property name details text) (hname : IsProperty name)
    (hline : '\n' ∉ details) (hp : places name.toList [] 0 details = [p])
    (hblank : ∀ d ∈ valueText p.value, isBlank d = false) :
    text = valueText p.value ∧ ∃ d, p.before.getLast? = some d ∧ isBlank d = true := by
  obtain ⟨items, key, value, hitems, hfilter, rfl⟩ := h
  obtain ⟨hmem, hcalled⟩ : (key, value) ∈ items ∧ Called name key := by
    have hin : (key, value) ∈ items.filter fun item => Called name item.1 := by simp [hfilter]
    simpa using hin
  obtain ⟨pre, a, b, t, rfl, hpre, hne, hkey, hvalue, ha, hb, ht⟩ := hitems.at_item hmem
  have hat := propertyAt_item hkey hcalled ha hb hvalue (fun hin => hline (by simp [hin])) ht
  obtain ⟨c, y, hy, hc⟩ : ∃ c y, key ++ (a ++ '=' :: (b ++ (value ++ t))) = c :: y ∧ foldCase c = 'h' := by
    obtain ⟨c, k, rfl, hkc⟩ := hkey.head
    refine ⟨c, k ++ (a ++ '=' :: (b ++ (value ++ t))), rfl, ?_⟩
    obtain ⟨ls, hls, -⟩ := hname.head
    obtain ⟨hnb, -, -, hfold⟩ := keyChar_plain hkc
    rw [Called, hls, List.filter_cons_of_pos (by simpa using hnb), List.map_cons] at hcalled
    rw [hfold, (List.cons.inj hcalled).1]
  obtain ⟨d, hd⟩ : ∃ d, pre.getLast? = some d := ⟨_, List.getLast?_eq_some_getLast hne⟩
  have hdblank := hpre.blank d hd
  have hjoins : (pre.getLast?.map joins).getD false = false := by
    rw [hd]
    simp only [isBlank, Bool.or_eq_true, decide_eq_true_eq] at hdblank
    rcases hdblank with rfl | rfl <;> rfl
  rw [hy] at hat hp
  have hhere : ∃ q rest, places name.toList pre 0 (c :: y) = q :: rest ∧ q.before = pre ∧ q.value = value := by
    rw [places, hjoins]
    simp only [Bool.false_eq_true, if_false, hat]
    refine ⟨_, _, rfl, rfl, ?_⟩
    rw [List.length_append, Nat.add_sub_cancel, List.take_left]
  obtain ⟨q, rest, hq, hqb, hqv⟩ := hhere
  rcases places_reach hname hc hpre [] (Nat.zero_le _) with ⟨p', hp', g, hin, hg⟩ | ⟨l, hl⟩
  · rw [hp, List.mem_singleton] at hp'
    subst hp'
    rw [hblank g hin] at hg
    cases hg
  · rw [hp, List.nil_append, hq] at hl
    cases l with
    | cons e l => simp at hl
    | nil =>
      obtain ⟨rfl, -⟩ := List.cons.inj hl
      exact ⟨by rw [hqv], d, by rw [hqb, hd], hdblank⟩

end Scan

end Rally.Ingress
