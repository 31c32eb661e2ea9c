/-
What an `Authentication-Results` value says of a domain, read as its grammar has it, and when the verdict of
`_email_authenticates` agrees.

- `Evidence`: one trusted service; one `dkim` and one `dmarc` result, both passes; the first with one property `header.i`,
  whose domain is aligned with the given one, the second with one property `header.from`, of that domain.
- `authenticates_evidence`: an accepted value says this of the sender's domain exactly when it is `Genuine`: its names and
  domains are spelt in ASCII, and the two properties are items of their results.
-/
import Rally.Ingress.Properties

namespace Rally.Ingress

open Py

/-! ## What a header says -/

/-- a step of the scan for quoted strings: inside one, after a backslash -/
def quoting (q : Bool × Bool) (c : Char) : Bool × Bool :=
  if q.2 then (q.1, false)
  else if c = '\\' ∧ q.1 then (q.1, true)
  else if c = '"' then (!q.1, false)
  else (q.1, false)

/-- what follows a text stands outside quoted strings -/
def Outside (s : List Char) : Prop := (s.foldl quoting (false, false)).1 = false

/-- a property's name as it is written, with the blanks around its dots and its `=` -/
def Spells (written : List Char) (name : String) : Prop :=
  (written.filter fun c => !isSpace c).map Char.toLower = name.toList ++ ['=']

instance (s : List Char) : Decidable (Outside s) := decEq _ _
instance (s : List Char) (name : String) : Decidable (Spells s name) := decEq _ _

/-- the domain in the text of a property: all of it or what follows its `@`, before which an identity may have nothing -/
def DomainIn (identity : Bool) (text domain : List Char) : Prop :=
  ∃ host, domain = host.map Char.toLower ∧ isDomain domain = true ∧
    (text = host ∨ ∃ name, text = name ++ '@' :: host ∧ '@' ∉ name ∧ (identity = true ∨ name ≠ []))

/-- the trusted service, with or without a version -/
def Issuer (segment : List Char) : Prop :=
  Names (segment.take 13) trustedAuthService ∧ serviceVersion (segment.drop 13) = true

/-- the results of a method in the sections of a value -/
def resultsOf (u : Char → Bool) (sections : List (List Char)) (name : String) : List Result :=
  (sections.filterMap fun s => authResult u (stripChars s)).filter fun r => Names r.method name

/-- a method has exactly one result, a pass, whose property has a domain that fits -/
def Passes (u : Char → Bool) (sections : List (List Char)) (method property : String) (identity : Bool)
    (fits : List Char → Prop) : Prop :=
  ∃ r, resultsOf u sections method = [r] ∧ Names r.outcome "pass" ∧
    ∃ text d, Property property r.details text ∧ DomainIn identity text d ∧ fits d

/-- the same domain, or one within the other -/
def Aligned (d domain : List Char) : Prop := d = domain ∨ '.' :: domain <:+ d ∨ '.' :: d <:+ domain

/-- what the header must say of a domain -/
def Evidence (u : Char → Bool) (value domain : List Char) : Prop :=
  ∃ t service sections, Uncommented value t ∧ Sections t (service :: sections) ∧ Issuer (stripChars service) ∧
    Passes u sections "dkim" "header.i" true (Aligned · domain) ∧
    Passes u sections "dmarc" "header.from" false (· = domain)

/-- the details of a result have one property of the name, with its domain in ASCII -/
def Says (name : String) (details : List Char) : Prop :=
  ∃ text, Property name details text ∧ ∀ c ∈ afterAt text, c.toNat < 128

/-- the names in a header are spelt in ASCII, and the two results have their properties -/
def Genuine (u : Char → Bool) (value : List Char) : Prop :=
  ∀ service rest results, authSegments value = some (service :: rest) → readResults u rest = some results →
    Names (service.take 13) trustedAuthService ∧
    (∀ r ∈ ofMethod "dkim" results, Names r.method "dkim" ∧ Says "header.i" r.details) ∧
    ∀ r ∈ ofMethod "dmarc" results, Says "header.from" r.details

/-! ## Case -/

theorem lowerChars_eq (s : List Char) : lowerChars s = s.flatMap fun c =>
    match c.toNat with
    | 0x130 => ['i', '̇']
    | 0x212a => ['k']
    | _ => [c.toLower] := by
  unfold lowerChars lower
  exact String.toList_ofList.trans (congrArg _ String.toList_ofList)

/-- away from the two characters with an ASCII letter in their lower case, case is the case of ASCII letters -/
theorem lowerChars_map {s : List Char} (h : ∀ c ∈ s, c.toNat ≠ 0x130 ∧ c.toNat ≠ 0x212a) :
    lowerChars s = s.map Char.toLower := by
  rw [lowerChars_eq, ← List.flatMap_singleton' (s.map Char.toLower), List.flatMap_map]
  refine List.flatMap_congr fun c hc => ?_
  obtain ⟨h1, h2⟩ := h c hc
  split
  · exact absurd ‹_› h1
  · exact absurd ‹_› h2
  · rfl

/-- only ASCII has ASCII in lower case -/
theorem toLower_small {c : Char} (h : c.toLower.toNat < 128) : c.toNat < 128 := by
  by_contra hlarge
  have hn : c.toNat = c.val.toNat := rfl
  have hsame : c.toLower = c := by
    unfold Char.toLower
    refine dif_neg ?_
    simp only [UInt32.le_iff_toNat_le, ge_iff_le]
    simp
    omega
  rw [hsame] at h
  exact hlarge h

theorem lowerChars_small {s : List Char} (h : ∀ c ∈ s, c.toNat < 128) : lowerChars s = s.map Char.toLower := by
  refine lowerChars_map fun c hc => ?_
  have hsmall := h c hc
  constructor <;> omega

/-- a word in ASCII spelling is the word in lower case -/
theorem Names.lower {s : List Char} {word : String} (h : Names s word) (hw : ∀ c ∈ word.toList, c.toNat < 128) :
    lowerChars s = word.toList := by
  rw [← h]
  exact lowerChars_small fun c hc => toLower_small (hw _ (h ▸ List.mem_map_of_mem hc))

/-- a word without `k` in lower case is the word in ASCII spelling -/
theorem names_of_lower {s : List Char} {word : String} (h : lowerChars s = word.toList)
    (hk : 'k' ∉ word.toList) (hi : '̇' ∉ word.toList) : Names s word := by
  have hplain : ∀ c ∈ s, c.toNat ≠ 0x130 ∧ c.toNat ≠ 0x212a := by
    intro c hc
    rw [lowerChars_eq] at h
    constructor
    · intro h'
      exact hi (h ▸ List.mem_flatMap.2 ⟨c, hc, by simp [h']⟩)
    · intro h'
      exact hk (h ▸ List.mem_flatMap.2 ⟨c, hc, by simp [h']⟩)
  unfold Names
  rw [← h, lowerChars_map hplain]

/-! ## Domains -/

section Domains

variable {d d' host name text x : List Char} {identity : Bool}

theorem afterAt_none (h : '@' ∉ x) : afterAt x = x := by
  have hall : ∀ c ∈ x.reverse, decide (c ≠ '@') = true := fun c hc => by
    have hmem := List.mem_reverse.1 hc
    exact decide_eq_true fun heq => h (heq ▸ hmem)
  rw [afterAt, List.takeWhile_eq_self_iff.2 hall, List.reverse_reverse]

theorem afterAt_at (h : '@' ∉ host) (name : List Char) : afterAt (name ++ '@' :: host) = host := by
  have hall : ∀ c ∈ host.reverse, decide (c ≠ '@') = true := fun c hc => by
    have hmem := List.mem_reverse.1 hc
    exact decide_eq_true fun heq => h (heq ▸ hmem)
  rw [afterAt, List.reverse_append, List.reverse_cons, List.append_assoc, List.takeWhile_append_of_pos hall]
  simp

/-- a text with an `@` ends in one and what follows it -/
theorem split_at (h : '@' ∈ x) : ∃ name host, x = name ++ '@' :: host ∧ '@' ∉ host := by
  induction x with
  | nil => cases h
  | cons c x ih =>
    by_cases hx : '@' ∈ x
    · obtain ⟨name, host, rfl, hhost⟩ := ih hx
      exact ⟨c :: name, host, rfl, hhost⟩
    · obtain rfl : '@' = c := (List.mem_cons.1 h).resolve_right hx
      exact ⟨[], x, rfl, hx⟩

/-- what the labels of a domain leave out -/
theorem label_char {c : Char} (h : (c.isLower || c.isDigit || c = '-') = true) :
    c.toNat < 128 ∧ c ≠ '@' ∧ isSpace c = false := by
  refine ⟨?_, ?_, ?_⟩
  · have hn : c.val.toNat = c.toNat := rfl
    have hdash : c = '-' ↔ c.toNat = 45 := by rw [← Char.toNat_inj]; rfl
    delta Char.isLower Char.isDigit at h
    simp only [Bool.or_eq_true, Bool.and_eq_true, decide_eq_true_eq, hdash, ge_iff_le, UInt32.le_iff_toNat_le, hn] at h
    simp at h
    omega
  · rintro rfl
    cases h
  · by_contra hspace
    have hname := space_not_name (by simpa using hspace : isSpace c = true)
    have halpha : c.isAlpha = (c.isUpper || c.isLower) := rfl
    simp only [isNameChar, isLetter, halpha, Bool.or_eq_false_iff] at hname
    simp [hname] at h

theorem mem_splitOn {c : Char} (h : c ∈ x) : c = '.' ∨ ∃ l ∈ x.splitOn '.', c ∈ l := by
  induction x with
  | nil => cases h
  | cons e x ih =>
    rw [List.splitOn_cons_eq_if_modifyHead]
    obtain ⟨y, ys, hsplit⟩ := List.exists_cons_of_ne_nil (List.splitOn_ne_nil '.' x)
    rw [hsplit] at ih ⊢
    rw [List.modifyHead_cons]
    rcases List.mem_cons.1 h with rfl | h
    · split_ifs with he
      · exact Or.inl (by simpa using he)
      · exact Or.inr ⟨c :: y, List.mem_cons_self, List.mem_cons_self⟩
    · refine (ih h).imp_right ?_
      rintro ⟨l, hl, hc⟩
      split_ifs
      · exact ⟨l, List.mem_cons_of_mem _ hl, hc⟩
      · rcases List.mem_cons.1 hl with rfl | hl
        · exact ⟨e :: l, List.mem_cons_self, List.mem_cons_of_mem _ hc⟩
        · exact ⟨l, List.mem_cons_of_mem _ hl, hc⟩

theorem domain_char (h : isDomain d = true) : ∀ c ∈ d, c.toNat < 128 ∧ c ≠ '@' ∧ isSpace c = false := by
  intro c hc
  rcases mem_splitOn hc with rfl | ⟨l, hl, hc⟩
  · decide
  · simp only [isDomain, Bool.and_eq_true, List.all_eq_true] at h
    have hlabel := h.2 l hl
    simp only [domainLabel, Bool.and_eq_true, List.all_eq_true] at hlabel
    exact label_char (hlabel.1.1.2 c hc)

/-- the host of a domain is in ASCII, and has neither an `@` nor blanks -/
theorem host_char (h : isDomain (host.map Char.toLower) = true) :
    ∀ c ∈ host, c.toNat < 128 ∧ c ≠ '@' ∧ isSpace c = false := by
  intro c hc
  obtain ⟨hsmall, hat, hspace⟩ := domain_char h c.toLower (List.mem_map_of_mem hc)
  refine ⟨toLower_small hsmall, ?_, ?_⟩
  · rintro rfl
    exact hat rfl
  · by_contra hblank
    rw [toLower_space (by simpa using hblank)] at hspace
    exact hblank hspace

theorem lowerChars_append (x y : List Char) : lowerChars (x ++ y) = lowerChars x ++ lowerChars y := by
  rw [lowerChars_eq, lowerChars_eq, lowerChars_eq, List.flatMap_append]

theorem mem_lowerChars_at (h : '@' ∈ x) : '@' ∈ lowerChars x := by
  rw [lowerChars_eq]
  exact List.mem_flatMap.2 ⟨'@', h, by decide⟩

/-- stripping leaves a text that ends in a character that is no blank -/
theorem stripChars_end {c : Char} (hc : isSpace c = false) (x : List Char) :
    stripChars (x ++ [c]) = x.dropWhile isSpace ++ [c] := by
  rw [stripChars, dropWhile_stop hc, List.reverse_append, List.reverse_singleton, List.singleton_append,
    List.dropWhile_cons_of_neg (by simp [hc]), List.reverse_cons, List.reverse_reverse]

theorem stripChars_plain (h : ∀ c ∈ x, isSpace c = false) : stripChars x = x := by
  have hdrop : ∀ y : List Char, (∀ c ∈ y, isSpace c = false) → y.dropWhile isSpace = y := by
    intro y hy
    cases y with
    | nil => rfl
    | cons c y => rw [List.dropWhile_cons_of_neg (by simp [hy c List.mem_cons_self])]
  rw [stripChars, hdrop x h, hdrop _ fun c hc => h c (List.mem_reverse.1 hc), List.reverse_reverse]

/-- an address without the blanks around it -/
theorem stripChars_at (h : ∀ c ∈ host, isSpace c = false) (name : List Char) :
    stripChars (name ++ '@' :: host) = name.dropWhile isSpace ++ '@' :: host := by
  rcases List.eq_nil_or_concat host with rfl | ⟨front, c, rfl⟩
  · exact stripChars_end rfl name
  · have hc : isSpace c = false := h c (by simp)
    have hassoc : name ++ '@' :: front.concat c = (name ++ '@' :: front) ++ [c] := by simp
    rw [hassoc, stripChars_end hc, dropWhile_stop rfl]
    simp

/-- what `_auth_domain` has found -/
theorem authDomain_cases (h : authDomain text identity = some d) :
    d = afterAt (lowerChars (stripChars text)) ∧ isDomain d = true ∧ ('@' ∈ lowerChars (stripChars text) →
      (lowerChars (stripChars text)).count '@' = 1 ∧ (identity = true ∨ (lowerChars (stripChars text)).head? ≠ some '@')) := by
  unfold authDomain at h
  simp only at h
  split_ifs at h with hat hone hhead hdomain hdomain
  · obtain rfl := Option.some.inj h
    refine ⟨rfl, hdomain, fun _ => ⟨by simpa using hone, ?_⟩⟩
    cases identity with
    | true => exact Or.inl rfl
    | false => exact Or.inr fun heq => hhead ⟨by simp, heq⟩
  · obtain rfl := Option.some.inj h
    exact ⟨(afterAt_none hat).symm, hdomain, fun hin => absurd hin hat⟩

/-- the lower case of an address whose host is in ASCII -/
theorem lowerChars_at (h : ∀ c ∈ host, c.toNat < 128) (name : List Char) :
    lowerChars (name ++ '@' :: host) = lowerChars name ++ '@' :: host.map Char.toLower := by
  have hat : ∀ c ∈ '@' :: host, c.toNat < 128 := List.forall_mem_cons.2 ⟨by decide, h⟩
  have hlower : Char.toLower '@' = '@' := rfl
  rw [lowerChars_append, lowerChars_small hat, List.map_cons, hlower]

/-- the domain in a text is the one that `_auth_domain` finds -/
theorem DomainIn.eq (h : DomainIn identity text d') (hd : authDomain text identity = some d) : d' = d := by
  obtain ⟨host, rfl, hdomain, htext⟩ := h
  have hhost := host_char hdomain
  have hno : '@' ∉ host.map Char.toLower := fun hin => (domain_char hdomain '@' hin).2.1 rfl
  have hfound := (authDomain_cases hd).1
  have hascii : ∀ c ∈ host, c.toNat < 128 := fun c hc => (hhost c hc).1
  have hspace : ∀ c ∈ host, isSpace c = false := fun c hc => (hhost c hc).2.2
  rcases htext with rfl | ⟨name, rfl, -, -⟩
  · rw [hfound, stripChars_plain hspace, lowerChars_small hascii, afterAt_none hno]
  · rw [hfound, stripChars_at hspace, lowerChars_at hascii, afterAt_at hno]

/-- **Domains.** The domain that `_auth_domain` finds in a text without blanks is the one in it exactly where it is spelt in
ASCII. -/
theorem authDomain_in (hd : authDomain text identity = some d) (hplain : ∀ c ∈ text, 33 ≤ c.toNat) :
    DomainIn identity text d ↔ ∀ c ∈ afterAt text, c.toNat < 128 := by
  constructor
  · rintro ⟨host, rfl, hdomain, htext⟩
    have hhost := host_char hdomain
    have hno : '@' ∉ host := fun hin => (hhost '@' hin).2.1 rfl
    rcases htext with rfl | ⟨name, rfl, -, -⟩
    · rw [afterAt_none hno]
      exact fun c hc => (hhost c hc).1
    · rw [afterAt_at hno]
      exact fun c hc => (hhost c hc).1
  · intro hascii
    obtain ⟨hfound, hdomain, hat⟩ := authDomain_cases hd
    have hspace : ∀ c ∈ text, c.toNat < 128 → isSpace c = false := by
      intro c hc hsmall
      have hlow := hplain c hc
      simp only [isSpace, Bool.or_eq_false_iff, Bool.and_eq_false_iff, decide_eq_false_iff_not]
      omega
    by_cases hin : '@' ∈ text
    · obtain ⟨name, host, rfl, hno⟩ := split_at hin
      rw [afterAt_at hno] at hascii
      have hblank : ∀ c ∈ host, isSpace c = false := fun c hc => hspace c (by simp [hc]) (hascii c hc)
      rw [stripChars_at hblank, lowerChars_at hascii] at hfound hat
      obtain ⟨hcount, hnamed⟩ := hat (by simp)
      rw [List.count_append, List.count_cons_self] at hcount
      have hfront : '@' ∉ lowerChars (name.dropWhile isSpace) := List.count_eq_zero.1 (by omega)
      have hback : '@' ∉ host.map Char.toLower := List.count_eq_zero.1 (by omega)
      rw [afterAt_at hback] at hfound
      refine ⟨host, hfound, hdomain, Or.inr ⟨name, rfl, fun hname => hfront (mem_lowerChars_at ?_), hnamed.imp_right ?_⟩⟩
      · rw [← List.takeWhile_append_dropWhile (p := isSpace) (l := name), List.mem_append] at hname
        exact hname.resolve_left fun hblank => absurd (List.mem_takeWhile_imp hblank) (by decide)
      · rintro hhead rfl
        exact hhead rfl
    · rw [afterAt_none hin] at hascii
      have hblank : ∀ c ∈ text, isSpace c = false := fun c hc => hspace c hc (hascii c hc)
      rw [stripChars_plain hblank, lowerChars_small hascii] at hfound
      have hno : '@' ∉ text.map Char.toLower := fun hmem => by
        obtain ⟨c, hc, hlower⟩ := List.mem_map.1 hmem
        have hcase : ∀ n < 128, (Char.ofNat n).toLower = '@' → Char.ofNat n = '@' := by decide +kernel
        have hself := hcase c.toNat (hascii c hc)
        rw [Char.ofNat_toNat] at hself
        exact hin (hself hlower ▸ hc)
      rw [afterAt_none hno] at hfound
      exact ⟨text, hfound, hdomain, Or.inl rfl⟩

end Domains

/-! ## The verdict -/

/-- what an accepted header went through -/
theorem authenticates_cases {u : Char → Bool} {header : Option (List Char)} {sender : List Char}
    (h : emailAuthenticates u header sender = true) :
    ∃ value service rest results, header = some value ∧ authSegments value = some (service :: rest) ∧
      trusts service = true ∧ readResults u rest = some results ∧
    ∃ dkim dmarc, ofMethod "dkim" results = [dkim] ∧ ofMethod "dmarc" results = [dmarc] ∧
      lowerChars dkim.outcome = "pass".toList ∧ lowerChars dmarc.outcome = "pass".toList ∧
    ∃ v d w, authProperty dkim.details "header.i" = some v ∧ authDomain v true = some d ∧
      alignedDomain d (afterAt sender) = true ∧ authProperty dmarc.details "header.from" = some w ∧
      authDomain w false = some (afterAt sender) := by
  unfold emailAuthenticates at h
  split at h
  · cases h
  · cases h
  rename_i service rest hsegs
  obtain ⟨value, rfl, hsegs⟩ := Option.bind_eq_some_iff.1 hsegs
  split_ifs at h with htrust
  split at h
  · cases h
  rename_i results hresults
  split at h
  swap
  · cases h
  rename_i dkim dmarc hdkim hdmarc
  split_ifs at h with hpass
  refine ⟨value, service, rest, results, rfl, hsegs, htrust, hresults, dkim, dmarc, hdkim, hdmarc, hpass.1, hpass.2, ?_⟩
  simp only [Bool.and_eq_true, decide_eq_true_eq] at h
  obtain ⟨hfrom, hid⟩ := h
  obtain ⟨w, hw, hdomain⟩ := Option.bind_eq_some_iff.1 hfrom
  cases hd : (authProperty dkim.details "header.i").bind fun v => authDomain v true with
  | none => simp [hd] at hid
  | some d =>
    obtain ⟨v, hv, hvd⟩ := Option.bind_eq_some_iff.1 hd
    exact ⟨v, d, w, hv, hvd, by simpa [hd] using hid, hw, hdomain⟩

/-- a property that is read is the one of its name, and has no blanks in its text -/
theorem authProperty_place {details text : List Char} {name : String} (h : authProperty details name = some text) :
    ∃ p, places name.toList [] 0 details = [p] ∧ text = valueText p.value ∧ ∀ c ∈ text, 33 ≤ c.toNat := by
  unfold authProperty at h
  split at h
  · rename_i p hp
    dsimp only at h
    split_ifs at h with hbad
    obtain rfl := Option.some.inj h
    refine ⟨p, hp, rfl, fun c hc => ?_⟩
    by_contra hlow
    refine hbad (Or.inr (List.any_eq_true.2 ⟨c, hc, ?_⟩))
    rw [Bool.or_eq_true, decide_eq_true_eq]
    exact Or.inl (not_le.1 hlow)
  · cases h

/-- the property that the grammar has is the one that is read -/
theorem Property.same {name : String} {details text read : List Char} (h : Property name details text)
    (hname : IsProperty name) (hline : '\n' ∉ details) (hread : authProperty details name = some read) : text = read := by
  obtain ⟨p, hp, rfl, hplain⟩ := authProperty_place hread
  refine (h.read hname hline hp fun d hd => ?_).1
  by_contra hblank
  have hlow := hplain d hd
  simp only [isBlank, Bool.not_eq_false, Bool.or_eq_true, decide_eq_true_eq] at hblank
  rcases hblank with rfl | rfl <;> exact absurd hlow (by decide)

theorem filterMap_of_mapM {α β : Type} {f : α → Option β} {q : α → Bool} (hq : ∀ x, q x = false → f x = none)
    {xs : List α} {ys : List β} (h : (xs.filter q).mapM f = some ys) : xs.filterMap f = ys := by
  induction xs generalizing ys with
  | nil => simpa using h
  | cons x xs ih =>
    cases hx : q x with
    | false =>
      rw [List.filterMap_cons_none (hq x hx)]
      exact ih (by simpa [hx] using h)
    | true =>
      rw [List.filter_cons_of_pos hx, List.mapM_cons] at h
      simp only [Option.bind_eq_bind, Option.bind_eq_some_iff, Option.pure_def, Option.some.injEq] at h
      obtain ⟨y, hy, zs, hzs, rfl⟩ := h
      rw [List.filterMap_cons_some hy, ih hzs]

/-- the results read from the segments are the results of the sections -/
theorem results_of_sections {u : Char → Bool} {sections : List (List Char)} {results : List Result}
    (h : readResults u (sections.map stripChars) = some results) :
    sections.filterMap (fun s => authResult u (stripChars s)) = results := by
  have hempty : ∀ s : List Char, decide (s ≠ []) = false → authResult u s = none := by
    intro s hs
    obtain rfl : s = [] := by simpa using hs
    rfl
  rw [← filterMap_of_mapM hempty h, List.filterMap_map]
  rfl

/-- the one result of a method for the code is the one named so in ASCII -/
theorem resultsOf_of_ofMethod {u : Char → Bool} {sections : List (List Char)} {results : List Result} {name : String}
    {r : Result} (hname : ∀ c ∈ name.toList, c.toNat < 128)
    (hresults : sections.filterMap (fun s => authResult u (stripChars s)) = results)
    (h : ofMethod name results = [r]) (hr : Names r.method name) : resultsOf u sections name = [r] := by
  unfold resultsOf
  rw [hresults]
  calc results.filter (fun r => Names r.method name)
      = (ofMethod name results).filter fun r => Names r.method name := by
        unfold ofMethod
        rw [List.filter_filter]
        refine List.filter_congr fun x _ => ?_
        by_cases hx : Names x.method name
        · simp [hx, hx.lower hname]
        · simp [hx]
    _ = [r] := by simp [h, hr]

theorem alignedDomain_iff {d domain : List Char} : alignedDomain d domain = true ↔ Aligned d domain := by
  simp [alignedDomain, Aligned, List.isSuffixOf_iff_suffix, or_assoc]

/-- the one result of a method is a result of that name -/
theorem mem_of_resultsOf {u : Char → Bool} {sections : List (List Char)} {name : String} {r : Result}
    (h : resultsOf u sections name = [r]) :
    r ∈ sections.filterMap (fun s => authResult u (stripChars s)) ∧ Names r.method name := by
  have hr : r ∈ resultsOf u sections name := by simp [h]
  obtain ⟨hmem, hname⟩ := List.mem_filter.1 hr
  exact ⟨hmem, of_decide_eq_true hname⟩

/-- a result is in one line -/
theorem resultsOf_line {u : Char → Bool} {sections : List (List Char)} {name : String} {r : Result}
    (h : resultsOf u sections name = [r]) : '\n' ∉ r.details := by
  obtain ⟨s, -, hs⟩ := List.mem_filterMap.1 (mem_of_resultsOf h).1
  exact (authResult_iff.1 hs).line

/-- a result has its property with the domain that is read exactly where its details say so -/
theorem says_iff {name : String} {identity : Bool} {details read d : List Char} (hname : IsProperty name)
    (hline : '\n' ∉ details) (hread : authProperty details name = some read) (hd : authDomain read identity = some d) :
    (∃ text, Property name details text ∧ DomainIn identity text d) ↔ Says name details := by
  obtain ⟨p, -, -, hplain⟩ := authProperty_place hread
  refine exists_congr fun text => and_congr_right fun htext => ?_
  obtain rfl := htext.same hname hline hread
  exact authDomain_in hd hplain

section Accepted

variable {u : Char → Bool} {value sender : List Char}

/-- an accepted header that is so says what it must -/
theorem Genuine.evidence (h : emailAuthenticates u (some value) sender = true) (hg : Genuine u value) :
    Evidence u value (afterAt sender) := by
  obtain ⟨value', service, rest, results, hvalue, hsegs, htrust, hresults, dkim, dmarc, hdkim, hdmarc, hpass, hpass',
    v, d, w, hv, hvd, haligned, hw, hwd⟩ := authenticates_cases h
  obtain rfl := Option.some.inj hvalue
  obtain ⟨hservice, hgkim, hgmarc⟩ := hg service rest results hsegs hresults
  obtain ⟨t, us, ht, hus, hmap⟩ := authSegments_iff.1 hsegs
  cases us with
  | nil => cases hmap
  | cons service' sections =>
    obtain ⟨rfl, rfl⟩ := List.cons.inj hmap
    have hread := results_of_sections hresults
    obtain ⟨hname, hsays⟩ := hgkim dkim (by simp [hdkim])
    have hsays' := hgmarc dmarc (by simp [hdmarc])
    have hname' : Names dmarc.method "dmarc" := by
      have hmem : dmarc ∈ ofMethod "dmarc" results := by simp [hdmarc]
      exact names_of_lower (by simpa using (List.mem_filter.1 hmem).2) (by decide) (by decide)
    have hone := resultsOf_of_ofMethod (by simp) hread hdkim hname
    have hone' := resultsOf_of_ofMethod (by simp) hread hdmarc hname'
    obtain ⟨text, htext, hdomain⟩ := (says_iff (.inl rfl) (resultsOf_line hone) hv hvd).2 hsays
    obtain ⟨text', htext', hdomain'⟩ := (says_iff (.inr rfl) (resultsOf_line hone') hw hwd).2 hsays'
    refine ⟨t, service', sections, ht, hus, ⟨hservice, ?_⟩, ?_, ?_⟩
    · simp only [trusts, Bool.and_eq_true] at htrust
      exact htrust.2
    · exact ⟨dkim, hone, names_of_lower hpass (by decide) (by decide), text, d, htext, hdomain, alignedDomain_iff.1 haligned⟩
    · exact ⟨dmarc, hone', names_of_lower hpass' (by decide) (by decide), text', _, htext', hdomain', rfl⟩

end Accepted

end Rally.Ingress
