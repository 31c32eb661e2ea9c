/-
The scopes of an OAuth grant over its exchange and any number of refreshes.

A refresh compares the scope it is given with the stored one where both are texts. An answer with `"scope": null` stores
`None`, and the next answer is compared with nothing.

- `refresh_scope`: one refresh with no such answer keeps a text of scopes, and takes no scope that is not in it.
- `scopes_never_widen`: a grant whose flow asks for scopes keeps within them while no answer nulls its scope.
- `nulled_scope_widens`: one answer that does, and the next one is granted anything.
-/
import Rally.Cloud.OAuthGrants
import Rally.Cloud.Printed
import Rally.Core.Canonical

namespace Rally.Cloud.OAuthGrants

open Py OAuthFlows

/-- the scopes in a stored grant -/
def recordedScopes (L : Libs) (stored : String) : List String :=
  match L.loads stored with
  | .value (.dict fields) => scopesOf (textOf (field fields "scope"))
  | _ => []

/-! ## Fields -/

theorem fields_assignAll {raw : List (String × Value)} (h : Fields raw) {updates : List (String × Value)}
    (hupdates : ∀ p ∈ updates, Flat p.2) : Fields (assignAll raw updates) := by
  induction updates generalizing raw with
  | nil => exact h
  | cons p updates ih =>
    obtain ⟨hp, hrest⟩ := List.forall_mem_cons.1 hupdates
    exact ih (fields_upsert h p.1 hp) hrest

theorem flat_optionText (s : Option String) : Flat (optionText s) := by
  cases s with
  | none => exact .none
  | some s => exact .text s

/-- an integer that is printed within an object -/
theorem flat_optionInt {n : Option ℤ} (h : dumpable true (optionInt n) = true) : Flat (optionInt n) := by
  cases n with
  | none => exact .none
  | some n => exact .int (by simpa [optionInt, dumpable] using h)

section Refresh

variable {L : GrantLibs} {item : OAuthConnector} {now stored text : String} {post : TokenRequest → TokenReply}
  {raw refreshed : List (String × Value)} {requested : List String}

theorem printFields_ok {fields : List (String × Value)} (h : printFields L fields = some text) :
    text = dumps L.text compactAscii (.dict fields) ∧ ∀ p ∈ fields, dumpable true p.2 = true := by
  rw [printFields] at h
  split_ifs at h with hdumpable
  cases h
  rw [dumpable, dumpableDict_eq, List.all_eq_true] at hdumpable
  exact ⟨rfl, hdumpable⟩

/-- a value that is looked up is printed -/
theorem dumpable_field {fields : List (String × Value)} (h : ∀ p ∈ fields, dumpable true p.2 = true) {k : String} {v : Value}
    (hv : Dict.get? fields k = some v) : dumpable true v = true := by
  obtain ⟨p, hp, rfl⟩ := Option.map_eq_some_iff.1 hv
  exact h p (List.mem_of_find?_eq_some hp)

/-! ## What a refresh stores -/

theorem get?_updates (raw : List (String × Value)) (now : String) (grant : Grant) (r : Refreshed) :
    Dict.get? (assignAll raw (updatesOf now grant r)) "expires_in" = some (optionInt r.expiresIn) ∧
      Dict.get? (assignAll raw (updatesOf now grant r)) "scope" = some (optionText r.scope) := by
  simp [assignAll, updatesOf, Dict.get?_upsert]

theorem fields_updates (hraw : Fields raw) {grant : Grant} {r : Refreshed}
    (h : ∀ p ∈ assignAll raw (updatesOf now grant r), dumpable true p.2 = true) :
    Fields (assignAll raw (updatesOf now grant r)) := by
  have hexpires := dumpable_field h (get?_updates raw now grant r).1
  apply fields_assignAll hraw
  simp only [updatesOf, List.forall_mem_cons]
  exact ⟨.text _, .text _, .text _, .text _, flat_optionInt hexpires, .text _, flat_optionText _, .text _, by simp⟩

/-- the scope of an answer is that of the object, or the stored one, and within the stored one -/
theorem checkRefreshed_scope {refreshToken : String} {r : Refreshed} (h : checkRefreshed L raw refreshed refreshToken = .ok r) :
    optionOf (getOr refreshed "scope" (field raw "scope")) = .ok r.scope ∧ scopeKept (field raw "scope") r.scope = true := by
  obtain ⟨accessToken, -, h⟩ := bind_ok h
  split at h
  · split_ifs at h with hbearer
    obtain ⟨rotated, -, h⟩ := bind_ok h
    obtain ⟨expiresIn, -, h⟩ := bind_ok h
    obtain ⟨scope, hscope, h⟩ := bind_ok h
    split_ifs at h with hkept
    cases h
    exact ⟨hscope, hkept⟩
  · cases h

theorem refreshFields_ok {updated : List (String × Value)} (h : refreshFields L item now post raw = .ok updated) :
    ∃ grant refreshed r, readReply L (post grant.request) = .ok refreshed ∧
      checkRefreshed L raw refreshed grant.refreshToken = .ok r ∧ updated = assignAll raw (updatesOf now grant r) := by
  rw [refreshFields] at h
  split_ifs at h
  obtain ⟨grant, -, h⟩ := bind_ok h
  obtain ⟨refreshed, hreply, h⟩ := bind_ok h
  obtain ⟨r, hchecked, h⟩ := bind_ok h
  cases h
  exact ⟨grant, refreshed, r, hreply, hchecked, rfl⟩

/-- a refresh of a printed grant prints another one -/
theorem refresh_ok (hjson : ReadsBack L.toLibs) (hraw : Fields raw) (hstored : stored = dumps L.text compactAscii (.dict raw)) :
    refresh L item now post stored = .ok text ↔
      ∃ updated, refreshFields L item now post raw = .ok updated ∧ printFields L updated = some text := by
  rw [refresh, hstored, hjson raw hraw]
  constructor
  · intro h
    obtain ⟨updated, hupdated, h⟩ := bind_ok h
    cases hprint : printFields L updated with
    | none => rw [hprint] at h; cases h
    | some printed =>
      rw [hprint] at h
      cases h
      exact ⟨updated, hupdated, hprint⟩
  · rintro ⟨updated, hupdated, hprint⟩
    simp only [hupdated, bind, Except.bind, hprint]

/-! ## One refresh -/

/-- the object of an answer, where it is one -/
def TokenReply.Says (L : GrantLibs) (reply : TokenReply) (fields : List (String × Value)) : Prop :=
  readReply L reply = .ok fields

/-- an answer with `"scope": null` -/
def TokenReply.Nulls (L : GrantLibs) (reply : TokenReply) : Prop :=
  ∃ fields, reply.Says L fields ∧ fields.lookup "scope" = some .none

/-- an answer with a scope -/
def TokenReply.Names (L : GrantLibs) (reply : TokenReply) (scope : String) : Prop :=
  ∃ fields, reply.Says L fields ∧ ∃ s, fields.lookup "scope" = some (.str s) ∧ scope ∈ split s

/-- a printed grant with a text of requested scopes -/
structure Within (L : GrantLibs) (requested : List String) (stored : String) : Prop where
  printed : ∃ raw, Fields raw ∧ stored = dumps L.text compactAscii (.dict raw) ∧
    ∃ s, field raw "scope" = .str s ∧ split s ⊆ requested

/-- the recorded scopes of such a grant -/
theorem Within.recorded (hjson : ReadsBack L.toLibs) (h : Within L requested stored) :
    recordedScopes L.toLibs stored ⊆ requested := by
  obtain ⟨raw, hraw, rfl, s, hs, hsub⟩ := h.printed
  rw [recordedScopes, hjson raw hraw]
  simpa [hs, textOf, scopesOf] using hsub

/-- a refresh stores the scope of its answer, or the one it had; either is within the one it had -/
theorem refresh_scope (hjson : ReadsBack L.toLibs) (h : Within L requested stored) (hnull : ∀ q, ¬ (post q).Nulls L)
    (hok : refresh L item now post stored = .ok text) : Within L requested text := by
  obtain ⟨raw, hraw, hstored, s, hs, hsub⟩ := h.printed
  obtain ⟨updated, hupdated, hprint⟩ := (refresh_ok hjson hraw hstored).1 hok
  obtain ⟨grant, refreshed, r, hreply, hchecked, rfl⟩ := refreshFields_ok hupdated
  obtain ⟨htext, hdumpable⟩ := printFields_ok hprint
  obtain ⟨hscope, hkept⟩ := checkRefreshed_scope hchecked
  have hr : ∃ t, r.scope = some t := by
    rw [hs, getOr] at hscope
    cases hlookup : refreshed.lookup "scope" with
    | none => rw [hlookup] at hscope; exact ⟨s, (Except.ok.inj hscope).symm⟩
    | some v =>
      rw [hlookup] at hscope
      cases v with
      | none => exact absurd ⟨refreshed, hreply, hlookup⟩ (hnull grant.request)
      | str t => exact ⟨t, (Except.ok.inj hscope).symm⟩
      | bool b => cases hscope
      | int n => cases hscope
      | float f => cases hscope
      | list xs => cases hscope
      | dict kvs => cases hscope
  obtain ⟨t, ht⟩ := hr
  refine ⟨_, fields_updates hraw hdumpable, htext, t, ?_, ?_⟩
  · rw [field, lookup_eq, (get?_updates raw now grant r).2, ht]
    rfl
  · rw [hs, ht] at hkept
    exact List.Subset.trans (of_decide_eq_true hkept) hsub

/-- an answer that names another scope is refused -/
theorem refresh_refuses (hjson : ReadsBack L.toLibs) (h : Within L requested stored) {scope : String}
    (hnames : ∀ q, (post q).Names L scope) (hscope : scope ∉ requested) : refresh L item now post stored ≠ .ok text := by
  intro hok
  obtain ⟨raw, hraw, hstored, s, hs, hsub⟩ := h.printed
  obtain ⟨updated, hupdated, -⟩ := (refresh_ok hjson hraw hstored).1 hok
  obtain ⟨grant, refreshed, r, hreply, hchecked, -⟩ := refreshFields_ok hupdated
  obtain ⟨hread, hkept⟩ := checkRefreshed_scope hchecked
  obtain ⟨fields, hsays, t, ht, hmem⟩ := hnames grant.request
  cases Except.ok.inj (hreply.symm.trans hsays)
  rw [getOr, ht] at hread
  have hrt : r.scope = some t := (Except.ok.inj hread).symm
  rw [hs, hrt] at hkept
  exact hscope (hsub (of_decide_eq_true hkept hmem))

/-! ## An exchange and its refreshes -/

/-- one refresh: the time, and what the token endpoint answers -/
structure Round where
  now : String
  post : TokenRequest → TokenReply

/-- refreshes one after the other, each of what the one before has stored -/
def refreshAll (L : GrantLibs) (item : OAuthConnector) : List Round → String → Except RefreshExn String
  | [], stored => .ok stored
  | round :: rounds, stored => do
    let refreshed ← refresh L item round.now round.post stored
    refreshAll L item rounds refreshed

/-- the scopes stay within those requested over any number of refreshes -/
theorem refreshAll_scope (hjson : ReadsBack L.toLibs) (h : Within L requested stored) {rounds : List Round}
    (hnull : ∀ round ∈ rounds, ∀ q, ¬ (round.post q).Nulls L) (hok : refreshAll L item rounds stored = .ok text) :
    Within L requested text := by
  induction rounds generalizing stored with
  | nil =>
    cases hok
    exact h
  | cons round rounds ih =>
    obtain ⟨refreshed, hround, hok⟩ := bind_ok hok
    obtain ⟨hfirst, hrest⟩ := List.forall_mem_cons.1 hnull
    exact ih (refresh_scope hjson h hfirst hround) hrest hok

theorem boundedText_ok {value text : String} {maximum : ℕ} {code : OAuthCode} (h : boundedText value maximum code = .ok text) :
    text = value := by
  rw [boundedText] at h
  split_ifs at h
  cases h
  rfl

theorem boundedOr_ok {value other result : Option String} {maximum : ℕ} {code : OAuthCode}
    (h : boundedOr value maximum code other = .ok result) : result = other ∨ ∃ text, result = some text := by
  rw [boundedOr] at h
  split_ifs at h
  · obtain ⟨text, -, h⟩ := bind_ok h
    cases h
    exact .inr ⟨text, rfl⟩
  · cases h
    exact .inl rfl

theorem grantMaterial_fields {flow : OAuthFlow} {token : OAuthToken} {accessToken : String}
    {refreshToken scope resource : Option String}
    (h : ∀ p ∈ grantMaterial now flow token accessToken refreshToken scope resource, dumpable true p.2 = true) :
    Fields (grantMaterial now flow token accessToken refreshToken scope resource) := by
  refine ⟨by simp [Dict.Ok, grantMaterial], ?_⟩
  have hexpires := h ("expires_in", optionInt token.expiresIn) (by simp [grantMaterial])
  simp only [grantMaterial, List.forall_mem_cons]
  exact ⟨.text _, .text _, .text _, flat_optionText _, .text _, flat_optionInt hexpires, .text _, flat_optionText _, .text _,
    flat_optionText _, .text _, flat_optionText _, .text _, flat_optionText _, .texts _, by simp⟩

/-- a token that is accepted for a flow with scopes is stored with scopes of the flow -/
theorem checkToken_scope {flow : OAuthFlow} {token : OAuthToken} (hscope : flow.scope ≠ none)
    (h : checkToken L now flow token = .ok raw) :
    ∃ accessToken refreshToken s resource, raw = grantMaterial now flow token accessToken refreshToken (some s) resource ∧
      split s ⊆ scopesOf flow.scope := by
  obtain ⟨accessToken, -, h⟩ := bind_ok h
  obtain ⟨refreshToken, -, h⟩ := bind_ok h
  split_ifs at h with hsoon hrefreshable
  obtain ⟨returned, hreturned, h⟩ := bind_ok h
  split_ifs at h with hwidened hincomplete
  obtain ⟨resource, -, h⟩ := bind_ok h
  cases h
  obtain ⟨s, rfl⟩ : ∃ s, returned = some s := by
    rcases boundedOr_ok hreturned with heq | hsome
    · obtain ⟨s, hs⟩ := Option.ne_none_iff_exists'.1 hscope
      exact ⟨s, heq.trans hs⟩
    · exact hsome
  refine ⟨accessToken, refreshToken, s, resource, rfl, ?_⟩
  by_cases hempty : split s = []
  · rw [hempty]
    exact List.nil_subset _
  · exact not_not.1 fun hnot => hwidened ⟨hempty, .inr hnot⟩

theorem acceptToken_scope {flow : OAuthFlow} {token : OAuthToken} {done : OAuthCompletion} (hscope : flow.scope ≠ none)
    (h : acceptToken L now flow token = .ok done) : Within L (scopesOf flow.scope) done.storedMaterial := by
  obtain ⟨fields, hfields, h⟩ := bind_ok h
  obtain ⟨accessToken, refreshToken, s, resource, rfl, hsub⟩ := checkToken_scope hscope hfields
  cases hprint : printFields L (grantMaterial now flow token accessToken refreshToken (some s) resource) with
  | none => rw [hprint] at h; cases h
  | some stored =>
    rw [hprint] at h
    cases h
    obtain ⟨htext, hdumpable⟩ := printFields_ok hprint
    exact ⟨_, grantMaterial_fields hdumpable, htext, s, rfl, hsub⟩

/-- an exchange accepts the token that the library reads in the answer -/
theorem exchange_ok {flow : OAuthFlow} {code : String} {done : OAuthCompletion} (h : exchange L now flow code post = .ok done) :
    ∃ q status content token, post q = .answered status content ∧ L.validateToken content = some token ∧
      acceptToken L now flow token = .ok done := by
  obtain ⟨bounded, -, h⟩ := bind_ok h
  cases hpost : post (exchangeRequest L flow bounded) with
  | failed => rw [hpost] at h; cases h
  | fault => rw [hpost] at h; cases h
  | answered status content =>
    rw [hpost] at h
    simp only at h
    split_ifs at h
    cases hloads : L.loads content with
    | tooDeep => rw [hloads] at h; cases h
    | malformed => rw [hloads] at h; cases h
    | value rawToken =>
      rw [hloads] at h
      cases htoken : L.validateToken content with
      | none => rw [htoken] at h; cases h
      | some token =>
        simp only [htoken] at h
        cases haccepted : acceptToken L now flow token with
        | error e =>
          simp only [haccepted] at h
          cases e with
          | oauth code => cases h
          | connector code => cases h
          | fault => cases h
        | ok completion =>
          simp only [haccepted] at h
          cases h
          exact ⟨_, status, content, token, hpost, htoken, haccepted⟩

/-- **Scopes.** The grant of a flow that asks for scopes has no others after any number of refreshes, and refuses an answer
that names another one, while no answer sets its scope to `null`. -/
theorem scopes_never_widen {flow : OAuthFlow} {code : String} {done : OAuthCompletion} {rounds : List Round}
    (hjson : ReadsBack L.toLibs) (hscope : flow.scope ≠ none) (hexchange : exchange L now flow code post = .ok done)
    (hnull : ∀ round ∈ rounds, ∀ q, ¬ (round.post q).Nulls L)
    (hrefreshed : refreshAll L item rounds done.storedMaterial = .ok stored) :
    recordedScopes L.toLibs stored ⊆ scopesOf flow.scope ∧
      ∀ round : Round, ∀ scope ∉ scopesOf flow.scope, (∀ q, (round.post q).Names L scope) →
        ∀ text, refresh L item round.now round.post stored ≠ .ok text := by
  obtain ⟨q, status, content, token, -, -, htoken⟩ := exchange_ok hexchange
  have hwithin := refreshAll_scope hjson (acceptToken_scope hscope htoken) hnull hrefreshed
  refine ⟨hwithin.recorded hjson, ?_⟩
  intro round scope hnot hnames text
  exact refresh_refuses hjson hwithin hnames hnot

end Refresh

/-! ## A nulled scope -/

/-- the addresses of one provider -/
def hyperagentUrls (url : String) : Option SplitUrl :=
  if url = "https://hyperagent.com/api/mcp" then
    some ⟨"https", "hyperagent.com", "/api/mcp", "", "", some "hyperagent.com", none, none, none⟩
  else if url = "https://hyperagent.com/token" then
    some ⟨"https", "hyperagent.com", "/token", "", "", some "hyperagent.com", none, none, none⟩
  else none

/-- the answer to a code, and what the library reads in it -/
def grantedText : String :=
  "\x7b\"access_token\":\"at-0\",\"token_type\":\"Bearer\",\"scope\":\"read share\",\"refresh_token\":\"rt-0\"\x7d"

def grantedToken : OAuthToken := ⟨"at-0", "Bearer", none, some "read share", some "rt-0"⟩

def sampleLibs : GrantLibs where
  text := ⟨fun _ => "0.5", id⟩
  sha256 := id
  loads := jsonLoads fun _ => .fin 0
  urlsplit := hyperagentUrls
  casefold s := String.ofList (s.toList.map Char.toLower)
  b64encode := id
  fromisoformat _ := none
  iso _ := ""
  validateToken content := if content = grantedText then some grantedToken else none
  resourceUrl := some
  resourceAllowed _ _ := some true
  quote := id

/-- a flow that asks for two scopes -/
def readFlow : OAuthFlow where
  identity := { uid := "u-1", email := "ada@example.com" }
  connectorId := "hyperagent"
  endpoint := "https://hyperagent.com/api/mcp"
  authorizationEndpoint := "https://hyperagent.com/authorize"
  tokenEndpoint := "https://hyperagent.com/token"
  revocationEndpoint := none
  clientId := "client"
  clientSecret := none
  tokenAuthMethod := .none
  codeVerifier := "verifier"
  scope := some "read share"
  resource := none
  allowedWorkflowIds := []
  issuer := "https://hyperagent.com"
  browserBindingHash := ""
  expiresAt := 0

def hyperagent : OAuthConnector where
  id := "hyperagent"
  endpoint := some "https://hyperagent.com/api/mcp"
  safePreset := "read-minimal"
  oauthHosts := catalogHosts "hyperagent"

/-- an answer of a token endpoint to whatever it is asked -/
def answering (content : String) (_ : TokenRequest) : TokenReply := .answered 200 content

/-- a scope that is narrowed, nulled or widened -/
def narrowed : String := "\x7b\"access_token\":\"at-1\",\"scope\":\"read\"\x7d"

def nulled : String := "\x7b\"access_token\":\"at-1\",\"scope\":null\x7d"

def widened : String := "\x7b\"access_token\":\"at-2\",\"scope\":\"write\"\x7d"

theorem toOption_eq_some {ε α : Type} {x : Except ε α} {a : α} : x.toOption = some a ↔ x = .ok a := by
  cases x <;> simp [Except.toOption]

/-- the fields of the grant after some answers, each of which is accepted -/
def fieldsAfter : List String → List (String × Value) → Option (List (String × Value))
  | [], raw => some raw
  | answer :: answers, raw =>
    ((refreshFields sampleLibs hyperagent "" (answering answer) raw).toOption.filter
      fun updated => dumpable true (.dict updated)).bind (fieldsAfter answers)

/-- the scope that is stored in the end -/
def scopeAfter (answers : List String) : Option Value :=
  ((checkToken sampleLibs "" readFlow grantedToken).toOption.bind (fieldsAfter answers)).map fun raw => field raw "scope"

theorem sampleLibs_readsBack : ReadsBack sampleLibs.toLibs := jsonLoads_readsBack rfl

theorem refreshAll_fieldsAfter {answers : List String} {raw last : List (String × Value)} (hraw : Fields raw)
    (h : fieldsAfter answers raw = some last) :
    refreshAll sampleLibs hyperagent (answers.map fun content => ⟨"", answering content⟩)
      (dumps sampleLibs.text compactAscii (.dict raw)) = .ok (dumps sampleLibs.text compactAscii (.dict last)) ∧ Fields last := by
  induction answers generalizing raw with
  | nil =>
    cases h
    exact ⟨rfl, hraw⟩
  | cons answer answers ih =>
    obtain ⟨updated, hupdated, hrest⟩ := Option.bind_eq_some_iff.1 h
    obtain ⟨hupdated, hdumpable⟩ := Option.filter_eq_some_iff.1 hupdated
    have hfields := toOption_eq_some.1 hupdated
    have hprint : printFields sampleLibs updated = some (dumps sampleLibs.text compactAscii (.dict updated)) := if_pos hdumpable
    have hround := (refresh_ok sampleLibs_readsBack hraw rfl).2 ⟨updated, hfields, hprint⟩
    obtain ⟨grant, refreshed, r, -, -, rfl⟩ := refreshFields_ok hfields
    obtain ⟨hrun, hlast⟩ := ih (fields_updates hraw (printFields_ok hprint).2) hrest
    refine ⟨?_, hlast⟩
    simp only [List.map_cons, refreshAll, hround, bind, Except.bind]
    exact hrun

/-- an exchange and refreshes that end with a scope -/
theorem scopeAfter_run {answers : List String} {scope : String} (h : scopeAfter answers = some (.str scope)) :
    ∃ done stored, exchange sampleLibs "" readFlow "code" (answering grantedText) = .ok done ∧
      refreshAll sampleLibs hyperagent (answers.map fun content => ⟨"", answering content⟩) done.storedMaterial = .ok stored ∧
      recordedScopes sampleLibs.toLibs stored = split scope := by
  obtain ⟨last, hlast, hscope⟩ := Option.map_eq_some_iff.1 h
  obtain ⟨raw, hraw, hlast⟩ := Option.bind_eq_some_iff.1 hlast
  have hexchanged : (exchange sampleLibs "" readFlow "code" (answering grantedText)).toOption.isSome = true := by
    decide +kernel
  obtain ⟨done, hdone⟩ := Option.isSome_iff_exists.1 hexchanged
  obtain ⟨q, status, content, token, hpost, htoken, haccepted⟩ := exchange_ok (toOption_eq_some.1 hdone)
  cases hpost
  have hgranted : sampleLibs.validateToken grantedText = some grantedToken := by decide +kernel
  cases Option.some.inj (htoken.symm.trans hgranted)
  obtain ⟨fields, hfields, haccepted⟩ := bind_ok haccepted
  cases Except.ok.inj (hfields.symm.trans (toOption_eq_some.1 hraw))
  obtain ⟨accessToken, refreshToken, s, resource, rfl, -⟩ := checkToken_scope (by decide) hfields
  cases hprint : printFields sampleLibs (grantMaterial "" readFlow grantedToken accessToken refreshToken (some s) resource) with
  | none => rw [hprint] at haccepted; cases haccepted
  | some stored =>
    rw [hprint] at haccepted
    cases haccepted
    obtain ⟨rfl, hdumpable⟩ := printFields_ok hprint
    obtain ⟨hrun, hfields⟩ := refreshAll_fieldsAfter (grantMaterial_fields hdumpable) hlast
    refine ⟨_, _, toOption_eq_some.1 hdone, hrun, ?_⟩
    rw [recordedScopes, sampleLibs_readsBack last hfields]
    simp [hscope, textOf, scopesOf]

/-- a narrowed grant keeps to what the flow has asked for -/
theorem narrowed_scope_kept :
    ∃ done stored, exchange sampleLibs "" readFlow "code" (answering grantedText) = .ok done ∧
      refreshAll sampleLibs hyperagent [⟨"", answering narrowed⟩] done.storedMaterial = .ok stored ∧
      recordedScopes sampleLibs.toLibs stored ⊆ scopesOf readFlow.scope := by
  obtain ⟨done, stored, hdone, hstored, -⟩ :=
    scopeAfter_run (show scopeAfter [narrowed] = some (.str "read") by decide +kernel)
  have hread : (readReply sampleLibs (.answered 200 narrowed)).toOption =
      some [("access_token", .str "at-1"), ("scope", .str "read")] := by
    decide +kernel
  have hnull : ∀ round ∈ [(⟨"", answering narrowed⟩ : Round)], ∀ q, ¬ (round.post q).Nulls sampleLibs := by
    rintro round hround q ⟨fields, hsays, hlookup⟩
    cases List.mem_singleton.1 hround
    cases Except.ok.inj ((toOption_eq_some.1 hread).symm.trans hsays)
    cases hlookup
  exact ⟨done, stored, hdone, hstored, (scopes_never_widen sampleLibs_readsBack (by decide) hdone hnull hstored).1⟩

/-- **A nulled scope widens.** One answer sets the scope to `null`, and the next one is granted a scope that was never asked
for. -/
theorem nulled_scope_widens :
    ∃ done stored, exchange sampleLibs "" readFlow "code" (answering grantedText) = .ok done ∧
      refreshAll sampleLibs hyperagent [⟨"", answering nulled⟩, ⟨"", answering widened⟩] done.storedMaterial = .ok stored ∧
      ¬ recordedScopes sampleLibs.toLibs stored ⊆ scopesOf readFlow.scope := by
  obtain ⟨done, stored, hdone, hstored, hscopes⟩ :=
    scopeAfter_run (show scopeAfter [nulled, widened] = some (.str "write") by decide +kernel)
  refine ⟨done, stored, hdone, hstored, ?_⟩
  rw [hscopes]
  decide +kernel

end Rally.Cloud.OAuthGrants
