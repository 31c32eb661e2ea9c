/-
Asking a provider for its tools, page after page: `McpConnectionVerifier.discover_tools` of `cloud/hosted_connectors.py`, and
`_discover_single_endpoint` of `cloud/connector_gateway.py` for local connectors.

- `Ends`: where the pages of a provider come to an end. `catalog`: the tools of its first pages.
- `singleEndpoint_complete`: the local gateway returns the whole catalog or raises.
- `discovery_exact`: the verifier returns the whole catalog, and the one of the local gateway, exactly unless the first four
  pages pass for a catalog and a later one has another tool or none is the last (`Truncates`).
- `five_pages`: a fifth page is left out.
-/
import Rally.Cloud.Receipt

namespace Rally.Cloud.Discovery

/-! ## Pages -/

/-- a tool as a provider lists it -/
structure Listed where
  name : String
  title : Option String
  description : Option String
  inputSchema : Option Obj

structure Page where
  tools : List Listed
  nextCursor : Option String

/-- the answers of a provider, each asked for with the cursor of the one before; `none` where it raises instead -/
abbrev Pages := ℕ → Option Page

/-- whether there is a `nextCursor` that is not empty -/
def Page.hasNext (page : Page) : Bool := page.nextCursor.getD "" ≠ ""

/-- `_TOOL_NAME`, and `TOOL_NAME` of the gateway -/
def isToolName (name : String) : Bool :=
  0 < name.length && name.length ≤ 160 && name.toList.all fun c => c.isAlphanum || "_.:/-".toList.contains c

/-! ## The verifier -/

/-- `_MAX_TOOLS`, and `MAX_TOOLS` of the gateway -/
def maxTools : ℕ := 128

/-- `_MAX_TOOL_NAME` -/
def maxToolName : ℕ := 160

inductive Fault where
  /-- an exception of the session -/
  | session
  /-- a `HostedConnectorError` -/
  | hosted (code : String)
  /-- a `ConnectorGatewayError` -/
  | gateway (text : String)

/-- the loop of `discover_tools`, with the rounds left, the page it is at and the tools so far -/
def pageLoop (pages : Pages) : ℕ → ℕ → List Listed → Except Fault (List Listed)
  | 0, _, tools => .ok tools
  | left + 1, i, tools =>
    match pages i with
    | none => .error .session
    | some page =>
      if page.hasNext = false then .ok (tools ++ page.tools)
      else if maxTools < (tools ++ page.tools).length then .error (.hosted "capability_check_failed")
      else pageLoop pages left (i + 1) (tools ++ page.tools)

/-- the names the verifier takes -/
def Certifiable (names : List String) : Prop :=
  names ≠ [] ∧ names.length ≤ maxTools ∧ (∀ name ∈ names, name.length ≤ maxToolName ∧ isToolName name = true) ∧ names.Nodup

instance (names : List String) : Decidable (Certifiable names) := by unfold Certifiable; infer_instance

/-- `discover_tools` -/
def discoverTools (pages : Pages) : Except Fault (List Listed) :=
  match pageLoop pages 4 0 [] with
  | .error e => .error e
  | .ok tools =>
    let names := tools.map Listed.name
    if names = [] ∨ maxTools < names.length then .error (.hosted "capability_check_failed")
    else if names.any (fun name => maxToolName < name.length || !isToolName name) then
      .error (.hosted "capability_check_failed")
    else if names.dedup.length ≠ names.length then .error (.hosted "capability_check_failed")
    else .ok tools

/-! ## The local gateway -/

def maxDiscoveryPages : ℕ := 20
def maxDiscoveryBytes : ℕ := 512 * 1024
def maxToolSchemaBytes : ℕ := 64 * 1024
def maxToolDescriptionBytes : ℕ := 4 * 1024

/-- an item of the catalog -/
structure Item where
  name : String
  title : Option String
  description : String
  /-- `none` for `{}` -/
  inputSchema : Option Obj

/-- how long the JSON of a schema and of an item is -/
structure Sizes where
  schema : Option Obj → ℕ
  item : Item → ℕ

/-- what the loop has gathered -/
structure Gathered where
  tools : List Item
  bytes : ℕ

def itemOf (tool : Listed) : Item := ⟨tool.name, tool.title, tool.description.getD "", tool.inputSchema⟩

section Gateway

variable (Z : Sizes) (connector : String)

/-- one tool of a page -/
def gather (g : Gathered) (tool : Listed) : Except Fault Gathered :=
  let item := itemOf tool
  if isToolName item.name = false then .error (.gateway (connector ++ " returned an invalid tool name"))
  else if item.name ∈ g.tools.map Item.name then
    .error (.gateway (connector ++ " returned duplicate tool " ++ item.name))
  else if maxToolDescriptionBytes < item.description.utf8ByteSize then
    .error (.gateway (connector ++ "." ++ item.name ++ " description exceeds Rally's limit"))
  else if maxToolSchemaBytes < Z.schema item.inputSchema then
    .error (.gateway (connector ++ "." ++ item.name ++ " schema exceeds Rally's limit"))
  else if maxDiscoveryBytes < g.bytes + Z.item item then
    .error (.gateway (connector ++ " tool catalog exceeds Rally's size limit"))
  else if maxTools < (g.tools ++ [item]).length then
    .error (.gateway (connector ++ " returned more than " ++ toString maxTools ++ " tools"))
  else .ok ⟨g.tools ++ [item], g.bytes + Z.item item⟩

/-- the loop over the pages, with the rounds left before the page limit -/
def endpointLoop (pages : Pages) : ℕ → ℕ → Gathered → Except Fault (List Item)
  | 0, _, _ => .error (.gateway (connector ++ " exceeded Rally's discovery page limit"))
  | left + 1, i, g =>
    match pages i with
    | none => .error .session
    | some page =>
      match page.tools.foldlM (gather Z connector) g with
      | .error e => .error e
      | .ok g => if page.hasNext = false then .ok g.tools else endpointLoop pages left (i + 1) g

/-- `_discover_single_endpoint` -/
def discoverSingleEndpoint (pages : Pages) : Except Fault (List Item) :=
  endpointLoop Z connector pages maxDiscoveryPages 0 ⟨[], 0⟩

end Gateway

/-! ## Whole catalogs -/

/-- the page is there and has a next one -/
def Goes (pages : Pages) (i : ℕ) : Prop := ∃ page, pages i = some page ∧ page.hasNext = true

/-- the page is there and is the last -/
def Last (pages : Pages) (i : ℕ) : Prop := ∃ page, pages i = some page ∧ page.hasNext = false

/-- the pages end with this one -/
def Ends (pages : Pages) (n : ℕ) : Prop := (∀ i < n, Goes pages i) ∧ Last pages n

/-- the tools of a page -/
def toolsOf (pages : Pages) (i : ℕ) : List Listed := ((pages i).map Page.tools).getD []

/-- the tools of the first pages -/
def catalog (pages : Pages) (n : ℕ) : List Listed := (List.range n).flatMap (toolsOf pages)

/-- all tools, up to the page without a next one -/
def Whole (pages : Pages) (tools : List Listed) : Prop := ∃ n, Ends pages n ∧ tools = catalog pages (n + 1)

/-- the first four pages pass for a catalog, and another tool comes later or the pages never end -/
def Truncates (pages : Pages) : Prop :=
  (∀ i < 4, Goes pages i) ∧ Certifiable ((catalog pages 4).map Listed.name) ∧
    ∀ n, Ends pages n → ∃ i ≤ n, 4 ≤ i ∧ toolsOf pages i ≠ []

section Pages

variable {pages : Pages} {n m i left : ℕ} {tools : List Listed}

theorem catalog_succ (pages : Pages) (n : ℕ) : catalog pages (n + 1) = catalog pages n ++ toolsOf pages n := by
  simp [catalog, List.range_succ]

theorem Goes.not_last (h : Goes pages i) : ¬ Last pages i := by
  rintro ⟨page, hpage, hlast⟩
  obtain ⟨page', hpage', hnext⟩ := h
  rw [hpage] at hpage'
  cases hpage'
  rw [hlast] at hnext
  cases hnext

/-- there is one end at most -/
theorem Ends.unique (h : Ends pages n) (h' : Ends pages m) : n = m := by
  rcases Nat.lt_trichotomy n m with hlt | heq | hlt
  · exact absurd h.2 (h'.1 n hlt).not_last
  · exact heq
  · exact absurd h'.2 (h.1 m hlt).not_last

theorem catalog_within (h : n ≤ m) : catalog pages n <+: catalog pages m := by
  induction m, h using Nat.le_induction with
  | base => exact List.prefix_refl _
  | succ m _ ih =>
    rw [catalog_succ]
    exact ih.trans (List.prefix_append _ _)

/-- nothing is added by pages without tools, and only by those -/
theorem catalog_eq_iff (h : n ≤ m) : catalog pages m = catalog pages n ↔ ∀ i < m, n ≤ i → toolsOf pages i = [] := by
  induction m, h using Nat.le_induction with
  | base => exact iff_of_true rfl fun i hlt hle => absurd hlt (not_lt.2 hle)
  | succ m hle ih =>
    rw [catalog_succ]
    constructor
    · intro heq
      have hlen := (@catalog_within pages _ _ hle).length_le
      have hempty : toolsOf pages m = [] := by
        have hsum := congrArg List.length heq
        rw [List.length_append] at hsum
        exact List.eq_nil_of_length_eq_zero (by omega)
      rw [hempty, List.append_nil, ih] at heq
      intro i hi hni
      rcases Nat.lt_succ_iff_lt_or_eq.1 hi with hlt | rfl
      · exact heq i hlt hni
      · exact hempty
    · intro hempty
      rw [hempty m (Nat.lt_succ_self m) hle, List.append_nil]
      exact ih.2 fun i hi => hempty i (Nat.lt_succ_of_lt hi)

/-! ### The verifier's loop -/

/-- one round of the loop -/
theorem pageLoop_succ (hi : ∀ j < i, Goes pages j)
    (h : pageLoop pages (left + 1) i (catalog pages i) = .ok tools) :
    (Ends pages i ∧ tools = catalog pages (i + 1)) ∨
      ((∀ j < i + 1, Goes pages j) ∧ pageLoop pages left (i + 1) (catalog pages (i + 1)) = .ok tools) := by
  rw [pageLoop] at h
  split at h
  · cases h
  · rename_i page hpage
    have hcatalog : catalog pages i ++ page.tools = catalog pages (i + 1) := by rw [catalog_succ, toolsOf, hpage]; rfl
    rw [hcatalog] at h
    split_ifs at h with hlast
    · cases h
      exact Or.inl ⟨⟨hi, page, hpage, hlast⟩, rfl⟩
    · refine Or.inr ⟨fun j hj => ?_, h⟩
      rcases Nat.lt_succ_iff_lt_or_eq.1 hj with hlt | rfl
      · exact hi j hlt
      · exact ⟨page, hpage, by simpa using hlast⟩

/-- the loop stops at the last page, or after its rounds -/
theorem pageLoop_ok (hi : ∀ j < i, Goes pages j) (h : pageLoop pages left i (catalog pages i) = .ok tools) :
    Whole pages tools ∨ ((∀ j < i + left, Goes pages j) ∧ tools = catalog pages (i + left)) := by
  induction left generalizing i with
  | zero =>
    cases h
    exact Or.inr ⟨hi, rfl⟩
  | succ left ih =>
    rcases pageLoop_succ hi h with ⟨hends, rfl⟩ | ⟨hgoes, hrest⟩
    · exact Or.inl ⟨i, hends, rfl⟩
    · rw [show i + (left + 1) = i + 1 + left by omega]
      exact ih hgoes hrest

/-- pages with a next one are read to the end of the rounds -/
theorem pageLoop_goes (hgoes : ∀ j < i + left, Goes pages j) (hlen : (catalog pages (i + left)).length ≤ maxTools) :
    pageLoop pages left i (catalog pages i) = .ok (catalog pages (i + left)) := by
  induction left generalizing i with
  | zero => rfl
  | succ left ih =>
    obtain ⟨page, hpage, hnext⟩ := hgoes i (by omega)
    have hcatalog : catalog pages i ++ page.tools = catalog pages (i + 1) := by rw [catalog_succ, toolsOf, hpage]; rfl
    rw [show i + (left + 1) = i + 1 + left by omega] at hgoes hlen ⊢
    have hshort := (@catalog_within pages _ _ (Nat.le_add_right (i + 1) left)).length_le
    rw [pageLoop, hpage]
    simp only [hnext, hcatalog, Bool.true_eq_false, if_false, if_neg (not_lt.2 (hshort.trans hlen))]
    exact ih hgoes hlen

/-- what the verifier returns has passed its checks -/
theorem discoverTools_eq (pages : Pages) (tools : List Listed) :
    discoverTools pages = .ok tools ↔ pageLoop pages 4 0 [] = .ok tools ∧ Certifiable (tools.map Listed.name) := by
  have hdedup : ∀ names : List String, names.dedup.length ≠ names.length ↔ ¬ names.Nodup := fun names =>
    not_congr ⟨fun h => List.dedup_eq_self.1 ((List.dedup_sublist names).eq_of_length h), fun h => by rw [h.dedup]⟩
  unfold discoverTools
  cases hloop : pageLoop pages 4 0 [] with
  | error e => simp
  | ok found =>
    simp only [hdedup]
    constructor
    · intro h
      split_ifs at h with hcount hname hdup
      cases h
      rw [not_or, not_lt] at hcount
      refine ⟨rfl, hcount.1, hcount.2, fun name hmem => ?_, hdup⟩
      have hgood := List.any_eq_false.1 (Bool.not_eq_true _ ▸ hname) name hmem
      simpa using hgood
    · rintro ⟨hfound, hnonempty, hlen, hnames, hnodup⟩
      cases hfound
      rw [if_neg (not_or.2 ⟨hnonempty, not_lt.2 hlen⟩), if_neg ?_, if_neg (not_not.2 hnodup)]
      rw [Bool.not_eq_true, List.any_eq_false]
      intro name hmem
      simpa using hnames name hmem

/-- the verifier's outcome, where it has one -/
theorem discoverTools_ok (h : discoverTools pages = .ok tools) :
    Certifiable (tools.map Listed.name) ∧ (Whole pages tools ∨ ((∀ i < 4, Goes pages i) ∧ tools = catalog pages 4)) := by
  obtain ⟨hloop, hnames⟩ := (discoverTools_eq pages tools).1 h
  exact ⟨hnames, pageLoop_ok (fun j hj => absurd hj (Nat.not_lt_zero j)) hloop⟩

/-- the first four pages, where they pass for a catalog, are returned as one -/
theorem discoverTools_four (hgoes : ∀ i < 4, Goes pages i) (hnames : Certifiable ((catalog pages 4).map Listed.name)) :
    discoverTools pages = .ok (catalog pages 4) := by
  refine (discoverTools_eq pages _).2 ⟨@pageLoop_goes pages 0 4 hgoes ?_, hnames⟩
  simpa using hnames.2.1

/-! ### The gateway's loop -/

section Local

variable {Z : Sizes} {connector : String} {g g' : Gathered} {items : List Item}

theorem gather_ok {tool : Listed} (h : gather Z connector g tool = .ok g') : g'.tools = g.tools ++ [itemOf tool] := by
  unfold gather at h
  simp only at h
  split_ifs at h
  cases h
  rfl

/-- a page that is gathered is gathered whole -/
theorem gather_page {l : List Listed} (h : l.foldlM (gather Z connector) g = .ok g') : g'.tools = g.tools ++ l.map itemOf := by
  induction l generalizing g with
  | nil =>
    cases h
    simp
  | cons tool l ih =>
    rw [List.foldlM_cons] at h
    obtain ⟨g₁, hone, hrest⟩ := Py.bind_ok h
    rw [ih hrest, gather_ok hone, List.append_assoc]
    rfl

/-- what the loop returns is everything up to the last page -/
theorem endpointLoop_ok (hi : ∀ j < i, Goes pages j) (hg : g.tools = (catalog pages i).map itemOf)
    (h : endpointLoop Z connector pages left i g = .ok items) :
    ∃ n, Ends pages n ∧ items = (catalog pages (n + 1)).map itemOf := by
  induction left generalizing i g with
  | zero => cases h
  | succ left ih =>
    rw [endpointLoop] at h
    split at h
    · cases h
    · rename_i page hpage
      split at h
      · cases h
      · rename_i g₁ hpageGathered
        have hg₁ : g₁.tools = (catalog pages (i + 1)).map itemOf := by
          rw [gather_page hpageGathered, hg, catalog_succ, toolsOf, hpage, List.map_append]
          rfl
        split_ifs at h with hlast
        · cases h
          exact ⟨i, ⟨hi, page, hpage, hlast⟩, hg₁⟩
        · refine ih (fun j hj => ?_) hg₁ h
          rcases Nat.lt_succ_iff_lt_or_eq.1 hj with hlt | rfl
          · exact hi j hlt
          · exact ⟨page, hpage, by simpa using hlast⟩

/-- **The local gateway leaves nothing out.** What it returns are the tools of all pages up to the one without a next. -/
theorem singleEndpoint_complete (h : discoverSingleEndpoint Z connector pages = .ok items) :
    ∃ n, Ends pages n ∧ items = (catalog pages (n + 1)).map itemOf :=
  endpointLoop_ok (fun j hj => absurd hj (Nat.not_lt_zero j)) rfl h

end Local

end Pages

/-! ## Both -/

/-- what discovery is to be: the whole catalog under distinct valid names, the one that the local gateway finds too -/
structure Discovered (Z : Sizes) (connector : String) (pages : Pages) (tools : List Listed) : Prop where
  whole : Whole pages tools
  names : Certifiable (tools.map Listed.name)
  agrees : ∀ items, discoverSingleEndpoint Z connector pages = .ok items → items = tools.map itemOf

/-- **When discovery is complete.** The verifier raises or returns the whole catalog, exactly unless the first four pages
each name a next one, pass for a catalog, and there is another tool behind them or no end. -/
theorem discovery_exact (Z : Sizes) (connector : String) (pages : Pages) :
    (∀ tools, discoverTools pages = .ok tools → Discovered Z connector pages tools) ↔ ¬ Truncates pages := by
  constructor
  · rintro hall ⟨hgoes, hnames, hmore⟩
    obtain ⟨n, hends, heq⟩ := (hall _ (discoverTools_four hgoes hnames)).whole
    obtain ⟨i, hin, hi, hsome⟩ := hmore n hends
    have hlong : 4 ≤ n + 1 := by omega
    exact hsome ((catalog_eq_iff hlong).1 heq.symm i (by omega) hi)
  · intro hnot tools h
    obtain ⟨hnames, hcases⟩ := discoverTools_ok h
    have hwhole : Whole pages tools := by
      rcases hcases with hwhole | ⟨hgoes, rfl⟩
      · exact hwhole
      · by_contra hpart
        refine hnot ⟨hgoes, hnames, fun n hends => ?_⟩
        by_contra hnone
        refine hpart ⟨n, hends, ((catalog_eq_iff ?_).2 fun i hi hle => ?_).symm⟩
        · by_contra hshort
          exact (hgoes n (by omega)).not_last hends.2
        · by_contra hsome
          exact hnone ⟨i, by omega, hle, hsome⟩
    refine ⟨hwhole, hnames, fun items hitems => ?_⟩
    obtain ⟨n, hends, rfl⟩ := hwhole
    obtain ⟨m, hends', rfl⟩ := singleEndpoint_complete hitems
    rw [hends.unique hends']

/-! ### A fifth page -/

/-- five pages of one tool each -/
def samplePages : Pages := fun i =>
  match i with
  | 0 => some ⟨[⟨"search", none, none, none⟩], some "1"⟩
  | 1 => some ⟨[⟨"fetch", none, none, none⟩], some "2"⟩
  | 2 => some ⟨[⟨"list", none, none, none⟩], some "3"⟩
  | 3 => some ⟨[⟨"read", none, none, none⟩], some "4"⟩
  | 4 => some ⟨[⟨"delete", none, none, none⟩], none⟩
  | _ => none

/-- the names that discovery ends with -/
def namesOf {α ε : Type} (name : α → String) (found : Except ε (List α)) : List String :=
  match found with
  | .ok found => found.map name
  | .error _ => []

/-- the verifier returns the first four tools as the catalog, the local gateway finds all five -/
theorem five_pages :
    namesOf Listed.name (discoverTools samplePages) = ["search", "fetch", "list", "read"] ∧
      namesOf Item.name (discoverSingleEndpoint ⟨fun _ => 2, fun _ => 60⟩ "acme" samplePages) =
        ["search", "fetch", "list", "read", "delete"] ∧
      ¬ ∀ tools, discoverTools samplePages = .ok tools → Whole samplePages tools := by
  have hfour : ∀ i < 4, Goes samplePages i := by
    intro i hi
    interval_cases i <;> exact ⟨_, rfl, by decide⟩
  have hends : Ends samplePages 4 := ⟨hfour, _, rfl, by decide⟩
  refine ⟨by decide, by decide, fun hall => ?_⟩
  obtain ⟨n, hn, heq⟩ := hall _ (discoverTools_four hfour (by decide))
  obtain rfl := hends.unique hn
  exact absurd (congrArg List.length heq) (by decide)


end Rally.Cloud.Discovery
