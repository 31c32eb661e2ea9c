/-
No OAuth grant is orphaned: after a callback each token of the answer is stored by Rally, revoked at its provider, or reported
as left behind.

- `Revokes`: an event in which the provider takes a token back. `Attempted`: one try to have it do so, of which there are two,
  `revokeToken_attempted` and `revoke_attempted`.
- `Ends`: a grant is accepted with the tokens of the answer, or refused, with a code that reports them if and only if they are
  still alive. `exchange_run`: so does each exchange of an answer that `json.loads` reads.
- `cleanUp_run`, `failed_run`, `store_run`: the part of the callback with the code, whatever the vault and the provider answer.
- `no_orphan_grant`: every token is accounted for if and only if `json.loads` reads the answer, where it carries a token.
-/
import Rally.Cloud.Callback

namespace Rally.Cloud.Callback

open Py Proc OAuthFlows OAuthGrants

/-! ## Runs of the broker -/

/-- a revocation that the provider confirms -/
def Revokes (token : String) (ev : Ev) : Prop :=
  ∃ request status content, ev = .posted request (.answered status content) ∧ ("token", token) ∈ request.data ∧
    status ∈ [200, 204] ∧ content.utf8ByteSize ≤ maxRevocationBytes

/-- one of the tokens is revoked -/
def Revoked (evs : List Ev) (tokens : List String) : Prop := ∃ ev ∈ evs, ∃ token ∈ tokens, Revokes token ev

/-- nothing but a request, and of no other token -/
def About (token : String) (ev : Ev) : Prop :=
  ∃ request reply, ev = .posted request reply ∧ ∀ t, ("token", t) ∈ request.data → t = token

/-- one try to have a token revoked: it says whether the provider confirms it, or raises what `q` allows -/
structure Attempted (q : Trouble → Prop) (token : String) (s : Locals) (r : Run Ev Trouble Locals Bool) : Prop where
  mem : r.mem = s
  about : ∀ ev ∈ r.evs, About token ev
  revoked : r.out = .ok true ↔ ∃ ev ∈ r.evs, Revokes token ev
  handled : ∀ e, r.out = .error e → q e

section Revocation

variable {L : GrantLibs} {post : TokenRequest → TokenReply} {item : OAuthConnector} {flow : OAuthFlow} {s : Locals}
  {q : Trouble → Prop} {token hint clientId endpoint stored : String} {revocationEndpoint clientSecret : Option String}
  {method : TokenAuthMethod} {fields : List (String × Value)}

/-- nothing is sent -/
theorem Attempted.quiet {out : Except Trouble Bool} (htrue : out ≠ .ok true) (hq : ∀ e, out = .error e → q e) :
    Attempted q token s ⟨[], s, out⟩ := by
  refine ⟨rfl, fun ev h => absurd h List.not_mem_nil, ?_, hq⟩
  constructor
  · intro h
    exact absurd h htrue
  · rintro ⟨ev, hev, -⟩
    exact absurd hev List.not_mem_nil

theorem Attempted.refused {e : Trouble} (he : q e) : Attempted q token s ⟨[], s, .error e⟩ := by
  apply Attempted.quiet
  · intro h
    cases h
  · intro e' h
    cases h
    exact he

/-- nothing to revoke with -/
theorem Attempted.silent : Attempted q token s ⟨[], s, .ok false⟩ := by
  apply Attempted.quiet
  · intro h
    cases h
  · intro e h
    cases h

/-- one request for the token -/
theorem Attempted.sent {request : TokenRequest} {reply : TokenReply} {out : Except Trouble Bool}
    (hdata : ∀ t, ("token", t) ∈ request.data ↔ t = token)
    (hout : out = .ok true ↔ ∃ status content, reply = .answered status content ∧ status ∈ [200, 204] ∧
      content.utf8ByteSize ≤ maxRevocationBytes) (hq : ∀ e, out = .error e → q e) :
    Attempted q token s ⟨[.posted request reply], s, out⟩ := by
  refine ⟨rfl, ?_, hout.trans ?_, hq⟩
  · intro ev hev
    exact ⟨request, reply, List.mem_singleton.1 hev, fun t ht => (hdata t).1 ht⟩
  · constructor
    · rintro ⟨status, content, hreply, hstatus, hsize⟩
      subst hreply
      exact ⟨_, List.mem_singleton.2 rfl, request, status, content, rfl, (hdata token).2 rfl, hstatus, hsize⟩
    · rintro ⟨ev, hev, request', status, content, hposted, -, hstatus, hsize⟩
      cases List.mem_singleton.1 hev
      cases hposted
      exact ⟨status, content, rfl, hstatus, hsize⟩

/-- a try whose errors are handled says whether the token is revoked -/
theorem Attempted.caught {x : Step Bool} {k : Trouble → Step Bool} (h : Attempted q token s (x s))
    (hk : ∀ e, q e → k e = ret false) :
    ∃ l b, Returns (attempt x k) s l s b ∧ (∀ ev ∈ l, About token ev) ∧ (b = true ↔ ∃ ev ∈ l, Revokes token ev) := by
  obtain ⟨l, t, b, hx⟩ | ⟨l, t, e, hx⟩ := returns_or_raises x s
  · rw [hx] at h
    obtain ⟨rfl, habout, hrevoked, -⟩ := h
    exact ⟨l, b, run_attempt hx, habout, by simpa using hrevoked⟩
  · have hrun : x s = ⟨l, t, .error e⟩ := hx
    rw [hrun] at h
    obtain ⟨rfl, habout, hrevoked, hhandled⟩ := h
    refine ⟨l, false, ?_, habout, by simpa using hrevoked⟩
    rw [Returns, run_attempt_raised hx, hk e (hhandled e rfl)]
    simp [ret]

/-- a client adds no token to what it sends -/
theorem clientRequest_data {url t : String} {data : List (String × String)} :
    ("token", t) ∈ (clientRequest L url method clientId clientSecret data).data ↔ ("token", t) ∈ data := by
  unfold clientRequest
  split <;> simp

theorem revocation_data {url t : String} :
    ("token", t) ∈ (clientRequest L url method clientId clientSecret (revocationData token hint clientId)).data ↔
      t = token := by
  rw [clientRequest_data]
  simp [revocationData]

/-- an answer that is read, or none -/
theorem send_cases {maximum : ℕ} {code : OAuthCode} {request : TokenRequest} (hpost : post request ≠ .fault) :
    (∃ status content, post request = .answered status content ∧ content.utf8ByteSize ≤ maximum ∧
      Returns (send post maximum code request) s [.posted request (post request)] s (status, content)) ∨
    (Raises (send post maximum code request) s [.posted request (post request)] s (.oauth code.text) ∧
      ∀ status content, post request = .answered status content → maximum < content.utf8ByteSize) := by
  unfold Returns Raises send
  cases hreply : post request with
  | failed => exact .inr ⟨rfl, fun _ _ h => by cases h⟩
  | fault => exact absurd hreply hpost
  | answered status content =>
    by_cases hsize : maximum < content.utf8ByteSize
    · refine .inr ⟨by simp [hsize], ?_⟩
      intro status' content' h
      cases h
      exact hsize
    · exact .inl ⟨status, content, rfl, not_lt.1 hsize, by simp [hsize]⟩

theorem revokeToken_attempted (hpost : ∀ r, post r ≠ .fault) (hoauth : ∀ code, q (.oauth code))
    (hurl : ∀ code, validateOauthUrl L item (revocationEndpoint.getD "") endpoint = .error (.connector code) →
      q (.connector code)) :
    Attempted q token s (revokeToken L post item endpoint revocationEndpoint token hint clientId clientSecret method s) := by
  rw [revokeToken]
  by_cases hpresent : (!present revocationEndpoint) = true
  · rw [if_pos hpresent]
    exact .silent
  rw [if_neg hpresent]
  cases hvalid : validateOauthUrl L item (revocationEndpoint.getD "") endpoint with
  | error e =>
    obtain ⟨code, rfl⟩ := validateOauthUrl_error hvalid
    have hraises : Raises (given (.error (.connector code)) : Step String) s [] s (.connector code) := rfl
    rw [run_bind_raised hraises]
    exact .refused (hurl code hvalid)
  | ok url =>
    have hreturns : Returns (given (.ok url)) s [] s url := rfl
    rw [run_bind hreturns]
    simp only [List.nil_append]
    by_cases hsize : token = "" ∨ maxMetadataBytes < token.utf8ByteSize
    · rw [if_pos hsize]
      exact .refused (hoauth _)
    rw [if_neg hsize]
    have herror (e : Trouble) (h : (.error (.oauth OAuthCode.revocationFailed.text) : Except Trouble Bool) = .error e) :
        q e := by
      cases h
      exact hoauth _
    rcases send_cases (hpost _) with ⟨status, content, hanswer, hbound, hsend⟩ | ⟨hsend, hlong⟩
    · rw [run_bind hsend]
      by_cases hstatus : status ∈ [200, 204]
      · rw [if_neg (not_not.2 hstatus)]
        refine .sent (fun t => revocation_data) ⟨fun _ => ?_, fun _ => rfl⟩ fun e h => by cases h
        exact ⟨status, content, hanswer, hstatus, hbound⟩
      · rw [if_pos hstatus]
        refine .sent (fun t => revocation_data) ⟨fun h => (by cases h), ?_⟩ herror
        rintro ⟨status', content', hreply, hstatus', -⟩
        cases hanswer.symm.trans hreply
        exact absurd hstatus' hstatus
    · rw [run_bind_raised hsend]
      refine .sent (fun t => revocation_data) ⟨fun h => (by cases h), ?_⟩ herror
      rintro ⟨status, content, hreply, -, hbound⟩
      exact absurd hbound (not_le.2 (hlong status content hreply))

/-! ## Stored material -/

theorem boundedField_cases (fields : List (String × Value)) (key : String) (maximum : ℕ) :
    boundedField fields key maximum = .error materialInvalid ∨
      boundedField fields key maximum = .ok (textOf (field fields key)) := by
  unfold boundedField
  cases field fields key with
  | none => exact .inr rfl
  | str value =>
    dsimp only
    split_ifs
    · exact .inr rfl
    · exact .inl rfl
  | bool b => exact .inl rfl
  | int n => exact .inl rfl
  | float f => exact .inl rfl
  | list xs => exact .inl rfl
  | dict kvs => exact .inl rfl

/-- a check that fails in one way, and then another -/
theorem checked_bind {α β : Type} {x : Except Trouble α} {f : α → Except Trouble β} {a : α} {p : β → Prop}
    (hx : x = .error materialInvalid ∨ x = .ok a) (hf : f a = .error materialInvalid ∨ ∃ b, f a = .ok b ∧ p b) :
    (x >>= f) = .error materialInvalid ∨ ∃ b, (x >>= f) = .ok b ∧ p b := by
  rcases hx with rfl | rfl
  · exact .inl rfl
  · exact hf

/-- stored material is refused, or its tokens are those of the object -/
theorem boundedFields_cases (fields : List (String × Value)) :
    boundedFields L fields = .error materialInvalid ∨ ∃ material, boundedFields L fields = .ok material ∧
      material.accessToken = textOf (field fields "access_token") ∧
      material.refreshToken = textOf (field fields "refresh_token") := by
  unfold boundedFields
  iterate 9 refine checked_bind (boundedField_cases _ _ _) ?_
  split
  · exact .inl rfl
  · split_ifs
    · exact .inl rfl
    · exact .inr ⟨_, rfl, rfl, rfl⟩

theorem storedOauthMaterial_cases (hloads : L.loads stored = .value (.dict fields)) :
    storedOauthMaterial L stored = .error materialInvalid ∨ ∃ material, storedOauthMaterial L stored = .ok material ∧
      material.accessToken = textOf (field fields "access_token") ∧
      material.refreshToken = textOf (field fields "refresh_token") := by
  rw [storedOauthMaterial, hloads]
  dsimp only
  split_ifs
  · exact .inl rfl
  · exact boundedFields_cases fields

/-- the token of an object that is revoked -/
def revocable (fields : List (String × Value)) : String :=
  (orText (textOf (field fields "refresh_token")) (textOf (field fields "access_token"))).getD ""

/-- a `HostedOAuthError` -/
def IsOauth (e : Trouble) : Prop := ∃ code, e = .oauth code

/-- an address that is accepted is accepted again in its canonical form -/
def Revalidates (L : GrantLibs) : Prop := ∀ item value endpoint url,
  validateOauthUrl L item value endpoint = .ok url → ∃ url', validateOauthUrl L item url endpoint = .ok url'

theorem revoke_attempted (hpost : ∀ r, post r ≠ .fault) (hurls : Revalidates L)
    (hloads : L.loads stored = .value (.dict fields)) :
    Attempted IsOauth (revocable fields) s (revoke L post item stored s) := by
  rw [revoke]
  rcases storedOauthMaterial_cases hloads with hmaterial | ⟨material, hmaterial, haccess, hrefresh⟩
  · have hraises : Raises (lift (storedOauthMaterial L stored) : Step StoredMaterial) s [] s materialInvalid := by
      rw [hmaterial]
      rfl
    rw [run_bind_raised hraises]
    exact .refused ⟨_, rfl⟩
  have hreturns : Returns (lift (storedOauthMaterial L stored) : Step StoredMaterial) s [] s material := by
    rw [hmaterial]
    rfl
  rw [run_bind hreturns]
  simp only [List.nil_append]
  by_cases hpresent : (!present material.revocationEndpoint) = true
  · rw [if_pos hpresent]
    exact .silent
  rw [if_neg hpresent]
  cases hvalid : validateOauthUrl L item (material.revocationEndpoint.getD "") (material.endpoint.getD "") with
  | error e =>
    obtain ⟨code, rfl⟩ := validateOauthUrl_error hvalid
    have hraises : Raises (lift (Except.mapError asOauth (.error (.connector code))) : Step String) s [] s (.oauth code) := rfl
    rw [run_bind_raised hraises]
    exact .refused ⟨code, rfl⟩
  | ok url =>
    obtain ⟨url', hagain⟩ := hurls item _ _ url hvalid
    have hurl : Returns (lift (Except.mapError asOauth (.ok url)) : Step String) s [] s url := rfl
    rw [run_bind hurl, hrefresh, haccess]
    simp only [List.nil_append]
    refine revokeToken_attempted hpost (fun code => ⟨code, rfl⟩) ?_
    intro code herror
    cases hagain.symm.trans herror

end Revocation

/-! ## An exchange -/

/-- the tokens in a response -/
def tokens (raw : RawTokens) : List String := raw.refreshToken.toList ++ raw.accessToken.toList

/-- nothing but a request -/
def IsPosted (ev : Ev) : Prop := ∃ request reply, ev = .posted request reply

/-- the callback reports tokens that are left behind -/
def Reports (code : String) : Prop := code = OAuthCode.providerCleanupRequired.text

section Exchange

variable {L : GrantLibs} {post : TokenRequest → TokenReply} {item : OAuthConnector} {flow : OAuthFlow} {s : Locals}
  {code : OAuthCode} {raw : RawTokens} {now content text token : String} {l : List Ev} {v : Value}

theorem About.posted {ev : Ev} (h : About token ev) : IsPosted ev := by
  obtain ⟨request, reply, rfl, -⟩ := h
  exact ⟨request, reply, rfl⟩

/-- where a token is the only one that is asked for, no other one is revoked -/
theorem revoked_about {ts : List String} (habout : ∀ ev ∈ l, About token ev) (hmem : token ∈ ts) :
    Revoked l ts ↔ ∃ ev ∈ l, Revokes token ev := by
  constructor
  · rintro ⟨ev, hev, t, ht, hrevokes⟩
    obtain ⟨request, reply, rfl, honly⟩ := habout ev hev
    obtain ⟨request', status, content, hposted, hdata, hstatus, hsize⟩ := hrevokes
    cases hposted
    obtain rfl := honly t hdata
    exact ⟨_, hev, request, status, content, rfl, hdata, hstatus, hsize⟩
  · rintro ⟨ev, hev, hrevokes⟩
    exact ⟨ev, hev, token, hmem, hrevokes⟩

theorem reports_text (hcode : code ≠ .providerCleanupRequired) : ¬ Reports code.text := by
  unfold Reports
  cases code with
  | providerCleanupRequired => exact absurd rfl hcode
  | codeInvalid => decide
  | tokenExchangeFailed => decide
  | refreshRequired => decide
  | scopeWidened => decide
  | scopeIncomplete => decide
  | revocationFailed => decide

theorem or_token {a b : Option String} (h : a.or b = some token) : token ∈ a.toList ++ b.toList := by
  cases a with
  | none => simpa using h
  | some x => simp_all

/-- a grant that is refused: its tokens are reported where none of them could be revoked -/
theorem reject_run (hitem : oauthConnector flow.connectorId = .ok item) (hpost : ∀ r, post r ≠ .fault)
    (hcode : code ≠ .providerCleanupRequired) (raw : RawTokens) :
    ∃ l text, Raises (rejectUnacceptedGrant L post flow code raw) s l s (.oauth text) ∧ (∀ ev ∈ l, IsPosted ev) ∧
      (Reports text ↔ tokens raw ≠ [] ∧ ¬ Revoked l (tokens raw)) := by
  unfold rejectUnacceptedGrant
  cases htoken : raw.refreshToken.or raw.accessToken with
  | none =>
    have hnone : tokens raw = [] := by
      obtain ⟨hrefresh, haccess⟩ := Option.or_eq_none_iff.1 htoken
      simp [tokens, hrefresh, haccess]
    refine ⟨[], code.text, rfl, fun ev hev => absurd hev List.not_mem_nil, ?_⟩
    constructor
    · intro h
      exact absurd h (reports_text hcode)
    · intro h
      exact absurd hnone h.1
  | some token =>
    have hmem : token ∈ tokens raw := or_token htoken
    have hattempted (hint : String) : Attempted (fun e => IsOauth e ∨ ∃ code, e = .connector code) token s
        ((do
          let item ← given (oauthConnector flow.connectorId)
          revokeToken L post item flow.endpoint flow.revocationEndpoint token hint flow.clientId flow.clientSecret
            flow.tokenAuthMethod : Step Bool) s) := by
      have hreturns : Returns (given (oauthConnector flow.connectorId)) s [] s item := by
        rw [hitem]
        rfl
      rw [run_bind hreturns]
      simp only [List.nil_append]
      exact revokeToken_attempted hpost (fun code => .inl ⟨code, rfl⟩) fun code _ => .inr ⟨code, rfl⟩
    have hhandled (e : Trouble) (he : IsOauth e ∨ ∃ code, e = .connector code) : unrevoked e = ret false := by
      rcases he with ⟨code, rfl⟩ | ⟨code, rfl⟩
      · rfl
      · rfl
    obtain ⟨l, b, hrun, habout, hb⟩ := (hattempted (if raw.refreshToken.isSome then "refresh_token" else "access_token")).caught
      hhandled
    have hposted : ∀ ev ∈ l, IsPosted ev := fun ev hev => (habout ev hev).posted
    have hne : tokens raw ≠ [] := List.ne_nil_of_mem hmem
    cases b with
    | true =>
      refine ⟨l, code.text, ?_, hposted, fun h => absurd h (reports_text hcode), fun h => ?_⟩
      · change (attempt _ unrevoked >>= _) s = _
        rw [run_bind hrun]
        simp [raise]
      · exact absurd ((revoked_about habout hmem).2 (hb.1 rfl)) h.2
    | false =>
      refine ⟨l, _, ?_, hposted, fun _ => ⟨hne, fun h => ?_⟩, fun _ => rfl⟩
      · change (attempt _ unrevoked >>= _) s = _
        rw [run_bind hrun]
        simp [raise]
      · exact Bool.false_ne_true (hb.2 ((revoked_about habout hmem).1 h))

theorem exchange_data {token : String} : ("token", token) ∉ (exchangeRequest L flow text).data := by
  rw [exchangeRequest, clientRequest_data]
  split_ifs <;> simp

theorem exchange_revokes {reply : TokenReply} :
    ¬ Revokes token (.posted (exchangeRequest L flow text) reply) := by
  rintro ⟨request, status, content, hposted, hdata, -⟩
  cases hposted
  exact exchange_data hdata

theorem revoked_exchange {reply : TokenReply} {ts : List String} :
    Revoked (.posted (exchangeRequest L flow text) reply :: l) ts ↔ Revoked l ts := by
  constructor
  · rintro ⟨ev, hev, token, ht, hrevokes⟩
    rcases List.mem_cons.1 hev with rfl | hev
    · exact absurd hrevokes exchange_revokes
    · exact ⟨ev, hev, token, ht, hrevokes⟩
  · rintro ⟨ev, hev, token, ht, hrevokes⟩
    exact ⟨ev, List.mem_cons_of_mem _ hev, token, ht, hrevokes⟩

/-- what the callback relies on in the libraries, for one answer -/
structure Reliable (L : GrantLibs) (json : String → Option Value) (content : String) : Prop where
  readsBack : ReadsBack L.toLibs
  /-- where `json.loads` returns, it returns what the text says -/
  parses : ∀ v, L.loads content = .value v → json content = some v
  /-- the MCP library reads the tokens that `json.loads` reads, and an integer that is printed -/
  validates : ∀ v token, L.loads content = .value v → L.validateToken content = some token →
    (rawTokens v).accessToken = (some token.accessToken).filter (· ≠ "") ∧
      (rawTokens v).refreshToken = token.refreshToken.filter (· ≠ "") ∧ ∀ n ∈ token.expiresIn, printable n = true
  allows : Allows L
  revalidates : Revalidates L

/-- the tokens that the text of an answer carries -/
def tokensIn (json : String → Option Value) (content : String) : List String :=
  ((json content).map (tokens ∘ rawTokens)).getD []

/-- a response with a status 200, of at most `_MAX_METADATA_BYTES`, to a code that is exchanged -/
structure Answered (L : GrantLibs) (flow : OAuthFlow) (post : TokenRequest → TokenReply) (code content : String) : Prop where
  bounded : isBounded code 8192 = true
  reply : post (exchangeRequest L flow code) = .answered 200 content
  size : content.utf8ByteSize ≤ maxMetadataBytes
  listed : ∃ item, oauthConnector flow.connectorId = .ok item
  returns : ∀ r, post r ≠ .fault

/-- the end of an exchange, before anything is done about the grant -/
inductive Ends (L : GrantLibs) (ts : List String) (l : List Ev) : Except Trouble OAuthCompletion → Prop
  | accepted (completion : OAuthCompletion) (fields : List (String × Value))
      (stored : L.loads completion.storedMaterial = .value (.dict fields)) (same : tokens (rawTokens (.dict fields)) = ts)
      (some : ts ≠ []) (alive : ¬ Revoked l ts) : Ends L ts l (.ok completion)
  | refused (text : String) (reported : Reports text ↔ ts ≠ [] ∧ ¬ Revoked l ts) : Ends L ts l (.error (.oauth text))

variable {json : String → Option Value} {code' : String}

theorem grantMaterial_tokens {token : OAuthToken} {refreshToken scope resource : Option String} {accessToken : String}
    (haccess : accessToken ≠ "") (hrefresh : ∀ t ∈ refreshToken, t ≠ "") :
    rawTokens (.dict (grantMaterial now flow token accessToken refreshToken scope resource)) =
      ⟨some accessToken, refreshToken⟩ := by
  cases refreshToken with
  | none => simp [rawTokens, grantMaterial, field, nonempty, textOf, optionText, haccess, List.lookup_cons]
  | some t => simp [rawTokens, grantMaterial, field, nonempty, textOf, optionText, haccess, List.lookup_cons, hrefresh t rfl]

/-- the request of an exchange and its answer -/
theorem Answered.runs (hA : Answered L flow post code' content) :
    Returns (given (boundedText code' 8192 .codeInvalid)) s [] s code' ∧
      Returns (send post maxMetadataBytes .tokenExchangeFailed (exchangeRequest L flow code')) s
        [.posted (exchangeRequest L flow code') (.answered 200 content)] s (200, content) := by
  constructor
  · rw [boundedText, if_pos hA.bounded]
    rfl
  · rcases send_cases (hA.returns (exchangeRequest L flow code')) with ⟨status, content', hanswer, -, hsend⟩ | ⟨-, hlong⟩
    · cases hanswer.symm.trans hA.reply
      rwa [hA.reply] at hsend
    · exact absurd hA.size (not_le.2 (hlong 200 content hA.reply))

/-- an exchange of an answer that `json.loads` reads -/
theorem exchange_run (hR : Reliable L json content) (hA : Answered L flow post code' content)
    (hloads : L.loads content = .value v) :
    ∃ l out, exchange L post now flow code' s = ⟨l, s, out⟩ ∧ (∀ ev ∈ l, IsPosted ev) ∧
      Ends L (tokens (rawTokens v)) l out := by
  obtain ⟨item, hitem⟩ := hA.listed
  obtain ⟨hcode, hsend⟩ := hA.runs (s := s)
  rw [exchange, run_bind hcode]
  simp only [List.nil_append]
  rw [run_bind hsend]
  have hreject (code : OAuthCode) (hcode : code ≠ .providerCleanupRequired) :
      ∃ l out, (⟨[.posted (exchangeRequest L flow code') (.answered 200 content)] ++
          (rejectUnacceptedGrant L post flow code (rawTokens v) s).evs,
          (rejectUnacceptedGrant L post flow code (rawTokens v) s).mem,
          (rejectUnacceptedGrant L post flow code (rawTokens v) s).out⟩ : Run Ev Trouble Locals OAuthCompletion) = ⟨l, s, out⟩ ∧
        (∀ ev ∈ l, IsPosted ev) ∧ Ends L (tokens (rawTokens v)) l out := by
    obtain ⟨l, text, hrun, hposted, hreports⟩ := @reject_run L post item flow s code hitem hA.returns hcode (rawTokens v)
    have hrun' : rejectUnacceptedGrant L post flow code (rawTokens v) s = ⟨l, s, .error (.oauth text)⟩ := hrun
    refine ⟨.posted (exchangeRequest L flow code') (.answered 200 content) :: l, .error (.oauth text), ?_, ?_, ?_⟩
    · rw [hrun', List.singleton_append]
    · exact List.forall_mem_cons.2 ⟨⟨_, _, rfl⟩, hposted⟩
    · exact .refused text (by rwa [revoked_exchange])
  simp only [settleGrant, hloads, ne_eq, not_true_eq_false, if_false]
  cases htoken : L.validateToken content with
  | none => exact hreject .tokenExchangeFailed (by decide)
  | some token =>
    obtain ⟨haccess, hrefresh, hprintable⟩ := hR.validates v token hloads htoken
    dsimp only
    rcases @acceptToken_cases L flow token now hR.allows hR.readsBack hprintable with
      ⟨e, haccepted, ⟨code, rfl, hcode⟩ | ⟨code, rfl⟩⟩ | ⟨done, scope, resource, haccepted, hne, hstored⟩
    · rw [haccepted]
      exact hreject code hcode
    · rw [haccepted]
      exact hreject .tokenExchangeFailed (by decide)
    · rw [haccepted]
      have hraw : rawTokens (.dict (grantMaterial now flow token token.accessToken (token.refreshToken.filter (· ≠ "")) scope
          resource)) = rawTokens v := by
        have hrefreshed : ∀ t ∈ token.refreshToken.filter (· ≠ ""), t ≠ "" := by
          intro t ht
          simpa using (Option.filter_eq_some_iff.1 ht).2
        rw [grantMaterial_tokens hne hrefreshed, ← hrefresh]
        rw [Option.filter_some, if_pos (by simpa using hne)] at haccess
        rw [← haccess]
      refine ⟨[.posted (exchangeRequest L flow code') (.answered 200 content)], .ok done, by simp [ret], ?_, ?_⟩
      · exact List.forall_mem_cons.2 ⟨⟨_, _, rfl⟩, fun ev hev => absurd hev List.not_mem_nil⟩
      · refine .accepted done _ hstored (by rw [hraw]) ?_ ?_
        · rw [Option.filter_some, if_pos (by simpa using hne)] at haccess
          simp [tokens, haccess]
        · rw [revoked_exchange]
          rintro ⟨ev, hev, -⟩
          exact absurd hev List.not_mem_nil

end Exchange

/-! ## The end of a callback -/

section Callback

variable {L : GrantLibs} {json : String → Option Value} {w : World} {item : OAuthConnector} {flow : OAuthFlow} {s u : Locals}
  {now code content : String} {completion : OAuthCompletion} {fields : List (String × Value)} {kept : CallbackStatus}
  {ts : List String} {l l' : List Ev} {v : Value}

/-- the grant is stored for the user and the connector of the flow -/
def Kept (L : GrantLibs) (flow : OAuthFlow) (ts : List String) (evs : List Ev) : Prop :=
  ∃ secret fields, Ev.stored flow.identity.uid flow.connectorId secret (.ok ()) ∈ evs ∧
    L.loads secret.value = .value (.dict fields) ∧ tokens (rawTokens (.dict fields)) = ts

/-- tokens are reported where they are neither stored nor revoked -/
def Reported (L : GrantLibs) (flow : OAuthFlow) (ts : List String) (l : List Ev) (u : Locals) : Prop :=
  u.status = .providerCleanupRequired ↔ ts ≠ [] ∧ ¬ Kept L flow ts l ∧ ¬ Revoked l ts

theorem revoked_append : Revoked (l ++ l') ts ↔ Revoked l ts ∨ Revoked l' ts := by
  constructor
  · rintro ⟨ev, hev, hrevokes⟩
    rcases List.mem_append.1 hev with hev | hev
    · exact .inl ⟨ev, hev, hrevokes⟩
    · exact .inr ⟨ev, hev, hrevokes⟩
  · rintro (⟨ev, hev, hrevokes⟩ | ⟨ev, hev, hrevokes⟩)
    · exact ⟨ev, List.mem_append_left _ hev, hrevokes⟩
    · exact ⟨ev, List.mem_append_right _ hev, hrevokes⟩

theorem revocable_mem (h : tokens (rawTokens (.dict fields)) ≠ []) :
    revocable fields ∈ tokens (rawTokens (.dict fields)) := by
  unfold revocable orText
  simp only [tokens, rawTokens, nonempty] at h ⊢
  cases hrefresh : textOf (field fields "refresh_token") with
  | none => 
    rw [hrefresh] at h
    cases haccess : textOf (field fields "access_token") with
    | none => simp [haccess] at h
    | some access =>
      simp [haccess, Option.filter_some] at h
      simp [Option.filter_some, h]
  | some refresh =>
    by_cases hempty : refresh = ""
    · subst hempty
      rw [hrefresh] at h
      cases haccess : textOf (field fields "access_token") with
      | none => simp [haccess, Option.filter_some] at h
      | some access =>
        simp [haccess, Option.filter_some] at h
        simp [Option.filter_some, h]
    · simp [Option.filter_some, hempty]

/-- the cleanup of a grant that is not stored keeps the status where the grant is revoked, and reports it otherwise -/
theorem cleanUp_run (hitem : oauthConnector flow.connectorId = .ok item) (hpost : ∀ r, w.post r ≠ .fault)
    (hurls : Revalidates L) (hu : u.completion = some completion)
    (hloads : L.loads completion.storedMaterial = .value (.dict fields)) (hsome : tokens (rawTokens (.dict fields)) ≠ []) :
    ∃ l b, Returns (cleanUp L w flow kept) u l { u with status := if b then kept else .providerCleanupRequired } () ∧
      (∀ ev ∈ l, IsPosted ev) ∧ (b = true ↔ Revoked l (tokens (rawTokens (.dict fields)))) := by
  have hattempted : Attempted IsOauth (revocable fields) u
      ((do
        let item ← given (oauthConnector flow.connectorId)
        revoke L w.post item completion.storedMaterial : Step Bool) u) := by
    have hreturns : Returns (given (oauthConnector flow.connectorId)) u [] u item := by
      rw [hitem]
      rfl
    rw [run_bind hreturns]
    simp only [List.nil_append]
    exact revoke_attempted hpost hurls hloads
  have hhandled (e : Trouble) (he : IsOauth e) : leftBehind e = ret false := by
    obtain ⟨code, rfl⟩ := he
    rfl
  obtain ⟨l, b, hrun, habout, hb⟩ := hattempted.caught hhandled
  refine ⟨l, b, ?_, fun ev hev => (habout ev hev).posted, hb.trans (revoked_about habout (revocable_mem hsome)).symm⟩
  have hget : Returns (get : Step Locals) u [] u u := rfl
  unfold cleanUp
  rw [Returns, run_bind hget, hu]
  simp only [List.nil_append]
  rw [revokeCallbackCompletion, run_bind hrun]
  simp [setStatus, Proc.set, hu]

/-- posted events store nothing -/
theorem not_kept_posted (h : ∀ ev ∈ l, IsPosted ev) : ¬ Kept L flow ts l := by
  rintro ⟨secret, fields, hmem, -⟩
  obtain ⟨request, reply, hev⟩ := h _ hmem
  cases hev

theorem not_revokes_stored {uid connectorId token : String} {secret : ConnectorSecret} {answer : Except Trouble Unit} :
    ¬ Revokes token (.stored uid connectorId secret answer) := by
  rintro ⟨request, status, content, hev, -⟩
  cases hev

/-- an error of the vault before the grant is stored leads to its cleanup -/
theorem handle_vault (e : VaultError) (hu : u.persisted = false) : ∃ kept, kept ≠ .providerCleanupRequired ∧
    handle L w flow (.vault e) u = cleanUp L w flow kept u := by
  cases e with
  | conflict => exact ⟨.disconnectFirst, by decide, rfl⟩
  | error =>
    refine ⟨.needsAttention, by decide, ?_⟩
    have hget : Returns (get : Step Locals) u [] u u := rfl
    rw [handle]
    · rw [run_bind hget, hu]
      rfl
    · intro h
      cases h
  | busy =>
    refine ⟨.needsAttention, by decide, ?_⟩
    have hget : Returns (get : Step Locals) u [] u u := rfl
    rw [handle]
    · rw [run_bind hget, hu]
      rfl
    · intro h
      cases h

/-- what is left of the handshake once the vault has failed -/
theorem failed_run (hA : Answered L flow w.post code content) (hurls : Revalidates L) (hu : u.completion = some completion)
    (hpersisted : u.persisted = false) (hloads : L.loads completion.storedMaterial = .value (.dict fields))
    (hsame : tokens (rawTokens (.dict fields)) = ts) (hsome : ts ≠ []) (hkept : ¬ Kept L flow ts l) (hrevoked : ¬ Revoked l ts)
    (e : VaultError) :
    ∃ l' t, Returns (handle L w flow (.vault e)) u l' t () ∧ Reported L flow ts (l ++ l') t := by
  obtain ⟨item, hitem⟩ := hA.listed
  obtain ⟨kept, hne, hhandle⟩ := @handle_vault L w flow u e hpersisted
  have hcleaned := @cleanUp_run L w item flow u completion fields kept hitem hA.returns hurls hu hloads (by rwa [hsame])
  obtain ⟨l', b, hrun, hposted, hb⟩ := hcleaned
  refine ⟨l', _, hhandle.trans hrun, ?_⟩
  have hstored : ¬ Kept L flow ts (l ++ l') := by
    rintro ⟨secret, fields, hmem, hrest⟩
    rcases List.mem_append.1 hmem with hmem | hmem
    · exact hkept ⟨secret, fields, hmem, hrest⟩
    · obtain ⟨request, reply, hev⟩ := hposted _ hmem
      cases hev
  rw [hsame] at hb
  rw [Reported, revoked_append]
  cases b with
  | true =>
    have hl' : Revoked l' ts := hb.1 rfl
    constructor
    · intro h
      exact absurd h hne
    · intro h
      exact absurd (.inr hl') h.2.2
  | false =>
    refine ⟨fun _ => ⟨hsome, hstored, ?_⟩, fun _ => rfl⟩
    rintro (h | h)
    · exact hrevoked h
    · exact Bool.false_ne_true (hb.2 h)

/-- a code whose answer is read: the grant is stored, revoked or reported -/
theorem store_run (hR : Reliable L json content) (hA : Answered L flow w.post code content)
    (hloads : L.loads content = .value v) (hcurrent : w.current = .ok none) (hs : s.persisted = false) :
    ∃ l t, Returns (attempt (storeGrant L now w flow code) (handle L w flow)) s l t () ∧
      Reported L flow (tokens (rawTokens v)) l t := by
  have hget : Returns (lift (w.current.mapError .vault) : Step (Option ConnectorSecret)) s [] s none := by
    rw [hcurrent]
    rfl
  obtain ⟨l, out, hexchange, hposted, hends⟩ := @exchange_run L w.post flow s now content v json code hR hA hloads
  cases hends with
  | refused text hreports =>
    have hraises : Raises (exchange L w.post now flow code) s l s (.oauth text) := hexchange
    have hstore : Raises (storeGrant L now w flow code) s l s (.oauth text) := by
      rw [Raises, storeGrant, run_bind hget]
      simp only [List.nil_append, Option.isSome_none, Bool.false_eq_true, if_false]
      rw [run_bind_raised hraises]
    refine ⟨l, { s with status := if text = OAuthCode.providerCleanupRequired.text then .providerCleanupRequired
      else .needsAttention }, ?_, ?_⟩
    · rw [Returns, run_attempt_raised hstore]
      simp [handle, setStatus, Proc.set]
    · rw [Reported]
      have hstored := @not_kept_posted L flow (tokens (rawTokens v)) l hposted
      by_cases htext : text = OAuthCode.providerCleanupRequired.text
      · simp only [htext, if_true, true_iff]
        obtain ⟨hne, hnot⟩ := hreports.1 htext
        exact ⟨hne, hstored, hnot⟩
      · simp only [htext, if_false, reduceCtorEq, false_iff]
        intro h
        exact htext (hreports.2 ⟨h.1, h.2.2⟩)
  | accepted completion fields hstored hsame hsome hnot =>
    have hreturns : Returns (exchange L w.post now flow code) s l s completion := hexchange
    have hnone := @not_kept_posted L flow (tokens (rawTokens v)) l hposted
    have hset : Returns (Proc.set (fun u => { u with completion := some completion }) : Step Unit) s []
        { s with completion := some completion } () := rfl
    have hfailed (e : VaultError) (l₁ : List Ev) (hkept : ¬ Kept L flow (tokens (rawTokens v)) l₁)
        (hrevoked : ¬ Revoked l₁ (tokens (rawTokens v)))
        (hraises : Raises (storeGrant L now w flow code) s l₁ { s with completion := some completion } (.vault e)) :
        ∃ l t, Returns (attempt (storeGrant L now w flow code) (handle L w flow)) s l t () ∧
          Reported L flow (tokens (rawTokens v)) l t := by
      obtain ⟨l', t, hhandle, hreported⟩ := failed_run (u := { s with completion := some completion }) hA hR.revalidates rfl hs
        hstored hsame hsome hkept hrevoked e
      have hrun : handle L w flow (.vault e) { s with completion := some completion } = ⟨l', t, .ok ()⟩ := hhandle
      exact ⟨l₁ ++ l', t, by rw [Returns, run_attempt_raised hraises, hrun], hreported⟩
    cases hsecret : ConnectorSecret.make completion.storedMaterial .oauthRefreshToken with
    | none =>
      have hlift : Raises (lift (secretFor completion) : Step ConnectorSecret) { s with completion := some completion } []
          { s with completion := some completion } (.vault .error) := by
        rw [secretFor, hsecret]
        rfl
      apply hfailed .error l hnone hnot
      rw [Raises, storeGrant, run_bind hget]
      simp only [List.nil_append, Option.isSome_none, Bool.false_eq_true, if_false]
      rw [run_bind hreturns, run_bind hset, run_bind_raised hlift]
      simp
    | some secret =>
      have hlift : Returns (lift (secretFor completion) : Step ConnectorSecret) { s with completion := some completion } []
          { s with completion := some completion } secret := by
        rw [secretFor, hsecret]
        rfl
      cases hput : w.put with
      | error e =>
        have hawait : Raises (await (.stored flow.identity.uid flow.connectorId secret) (w.put.mapError .vault) : Step Unit)
            { s with completion := some completion } [.stored flow.identity.uid flow.connectorId secret (.error (.vault e))]
            { s with completion := some completion } (.vault e) := by
          rw [hput]
          rfl
        apply hfailed e (l ++ [.stored flow.identity.uid flow.connectorId secret (.error (.vault e))])
        · rintro ⟨secret', fields', hmem, hrest⟩
          rcases List.mem_append.1 hmem with hmem | hmem
          · exact hnone ⟨secret', fields', hmem, hrest⟩
          · cases List.mem_singleton.1 hmem
        · rw [revoked_append]
          rintro (h | ⟨ev, hev, token, -, hrevokes⟩)
          · exact hnot h
          · cases List.mem_singleton.1 hev
            exact not_revokes_stored hrevokes
        · rw [Raises, storeGrant, run_bind hget]
          simp only [List.nil_append, Option.isSome_none, Bool.false_eq_true, if_false]
          rw [run_bind hreturns, run_bind hset, run_bind hlift, run_bind_raised hawait]
          simp
      | ok _ =>
        have hawait : Returns (await (.stored flow.identity.uid flow.connectorId secret) (w.put.mapError .vault) : Step Unit)
            { s with completion := some completion } [.stored flow.identity.uid flow.connectorId secret (.ok ())]
            { s with completion := some completion } () := by
          rw [hput]
          rfl
        have hstore : Returns (storeGrant L now w flow code) s
            (l ++ [.stored flow.identity.uid flow.connectorId secret (.ok ())]) ⟨.verifying, some completion, true⟩ () := by
          rw [Returns, storeGrant, run_bind hget]
          simp only [List.nil_append, Option.isSome_none, Bool.false_eq_true, if_false]
          rw [run_bind hreturns, run_bind hset, run_bind hlift, run_bind hawait]
          simp [Proc.set]
        refine ⟨_, _, run_attempt hstore, ?_⟩
        have hkept : Kept L flow (tokens (rawTokens v))
            (l ++ [.stored flow.identity.uid flow.connectorId secret (.ok ())]) := by
          refine ⟨secret, fields, List.mem_append_right _ (List.mem_singleton.2 rfl), ?_, hsame⟩
          rw [(ConnectorSecret.make_eq_some hsecret).1]
          exact hstored
        constructor
        · intro h
          cases h
        · intro h
          exact absurd hkept h.2.1

/-! ## No orphan -/

/-- a callback with a code, of a flow that is there and a connection that is not -/
structure Exchanges (w : World) (flow : OAuthFlow) (code : String) : Prop where
  consumed : w.consumed = .ok (some flow)
  error : w.error = none
  code : w.code = some code
  current : w.current = .ok none

/-- every token is stored, revoked or reported; with a token, a callback raises nothing but that no one can be signed in -/
structure Accounted (L : GrantLibs) (flow : OAuthFlow) (ts : List String) (r : Run Ev Trouble Locals Redirect) : Prop where
  reported : Reported L flow ts r.evs r.mem
  handled : ts ≠ [] → ∀ e, r.out = .error e → e = .unavailable "browser authentication is unavailable"

theorem Accounted.owned {r : Run Ev Trouble Locals Redirect} (h : Accounted L flow ts r) (hsome : ts ≠ []) :
    Kept L flow ts r.evs ∨ Revoked r.evs ts ∨ r.mem.status = .providerCleanupRequired := by
  by_cases hkept : Kept L flow ts r.evs
  · exact .inl hkept
  · by_cases hrevoked : Revoked r.evs ts
    · exact .inr (.inl hrevoked)
    · exact .inr (.inr (h.reported.2 ⟨hsome, hkept, hrevoked⟩))

/-- the variables when a callback begins -/
def begun : Locals := { status := .needsAttention }

/-- a callback is its part with the code, and then the login code -/
theorem callback_run (hE : Exchanges w flow code) {out : Except Trouble Unit}
    (hrun : attempt (storeGrant L now w flow code) (handle L w flow) begun = ⟨l, u, out⟩) :
    (completeConnectorCallback L now w begun).evs = l ∧ (completeConnectorCallback L now w begun).mem = u ∧
      ∀ e, out = .ok () → (completeConnectorCallback L now w begun).out = .error e →
        e = .unavailable "browser authentication is unavailable" := by
  have hset : Returns (setStatus (if (none : Option String) = some "access_denied" then .cancelled else .needsAttention)) begun
      [] begun () := rfl
  rw [completeConnectorCallback, hE.consumed]
  dsimp only
  rw [hE.error, hE.code, run_bind hset]
  simp only [List.nil_append]
  cases out with
  | error e =>
    have hraises : Raises (attempt (storeGrant L now w flow code) (handle L w flow)) begun l u e := hrun
    rw [run_bind_raised hraises]
    refine ⟨rfl, rfl, ?_⟩
    intro e' h
    cases h
  | ok _ =>
    have hreturns : Returns (attempt (storeGrant L now w flow code) (handle L w flow)) begun l u () := hrun
    rw [run_bind hreturns]
    cases hlogin : w.loginCode with
    | error e =>
      have hlift : Raises (lift (Except.mapError (fun _ => .unavailable "browser authentication is unavailable")
          (.error e : Except Unit String)) : Step String) u [] u (.unavailable "browser authentication is unavailable") := rfl
      rw [run_bind_raised hlift]
      refine ⟨by simp, rfl, ?_⟩
      intro e' _ h
      cases h
      rfl
    | ok loginCode =>
      have hlift : Returns (lift (Except.mapError (fun _ => .unavailable "browser authentication is unavailable")
          (.ok loginCode : Except Unit String)) : Step String) u [] u loginCode := rfl
      have hget : Returns (get : Step Locals) u [] u u := rfl
      rw [run_bind hlift, run_bind hget]
      refine ⟨by simp [ret], rfl, ?_⟩
      intro e' _ h
      cases h

/-- a code whose answer is not read: nothing is stored, revoked or reported -/
theorem unread_run (hA : Answered L flow w.post code content) (hcurrent : w.current = .ok none)
    (hunread : ∀ v, L.loads content ≠ .value v) :
    ∃ l u out, attempt (storeGrant L now w flow code) (handle L w flow) begun = ⟨l, u, out⟩ ∧
      u.status ≠ .providerCleanupRequired ∧ ¬ Kept L flow ts l ∧ ¬ Revoked l ts := by
  have hget : Returns (lift (w.current.mapError .vault) : Step (Option ConnectorSecret)) begun [] begun none := by
    rw [hcurrent]
    rfl
  have hexchange : ∃ e, Raises (exchange L w.post now flow code) begun
      [.posted (exchangeRequest L flow code) (.answered 200 content)] begun e ∧
        (e = .oauth OAuthCode.tokenExchangeFailed.text ∨ e = .fault) := by
    obtain ⟨hcode, hsend⟩ := hA.runs (s := begun)
    unfold Raises
    rw [exchange, run_bind hcode]
    simp only [List.nil_append]
    rw [run_bind hsend]
    cases hloads : L.loads content with
    | value v => exact absurd hloads (hunread v)
    | malformed => exact ⟨_, by simp [settleGrant, hloads, rejectUnacceptedGrant, raise], .inl rfl⟩
    | tooDeep => exact ⟨_, by simp [settleGrant, hloads, raise], .inr rfl⟩
  obtain ⟨e, hraises, he⟩ := hexchange
  have hstore : Raises (storeGrant L now w flow code) begun [.posted (exchangeRequest L flow code) (.answered 200 content)]
      begun e := by
    rw [Raises, storeGrant, run_bind hget]
    simp only [List.nil_append, Option.isSome_none, Bool.false_eq_true, if_false]
    rw [run_bind_raised hraises]
  have hkept : ¬ Kept L flow ts [.posted (exchangeRequest L flow code) (.answered 200 content)] := by
    apply not_kept_posted
    intro ev hev
    exact ⟨_, _, List.mem_singleton.1 hev⟩
  have hrevoked : ¬ Revoked [.posted (exchangeRequest L flow code) (.answered 200 content)] ts := by
    rw [revoked_exchange]
    rintro ⟨ev, hev, -⟩
    exact absurd hev List.not_mem_nil
  have hhandle : ∃ u out, handle L w flow e begun = ⟨[], u, out⟩ ∧ u.status ≠ .providerCleanupRequired := by
    rcases he with rfl | rfl
    · exact ⟨{ begun with status := .needsAttention }, .ok (), rfl, by decide⟩
    · exact ⟨begun, .error .fault, rfl, by decide⟩
  obtain ⟨u, out, hhandle, hstatus⟩ := hhandle
  refine ⟨_, u, out, ?_, hstatus, hkept, hrevoked⟩
  rw [run_attempt_raised hstore, hhandle, List.append_nil]

/-- **No orphan grant.** Each token of an answer is stored, revoked or reported if and only if `json.loads` reads the answer,
where it carries a token. -/
theorem no_orphan_grant (hR : Reliable L json content) (hE : Exchanges w flow code) (hA : Answered L flow w.post code content) :
    Accounted L flow (tokensIn json content) (completeConnectorCallback L now w begun) ↔
      (tokensIn json content ≠ [] → ∃ v, L.loads content = .value v) := by
  constructor
  · intro h hne
    by_contra hunread
    obtain ⟨l, u, out, hrun, hstatus, hkept, hrevoked⟩ := @unread_run L w flow now code content (tokensIn json content) hA
      hE.current fun v hv => hunread ⟨v, hv⟩
    obtain ⟨hevs, hmem, -⟩ := callback_run hE hrun
    have hreported := h.reported
    rw [hevs, hmem] at hreported
    exact hstatus (hreported.2 ⟨hne, hkept, hrevoked⟩)
  · intro h
    by_cases hread : ∃ v, L.loads content = .value v
    · obtain ⟨v, hloads⟩ := hread
      obtain ⟨l, u, hrun, hreported⟩ := @store_run L json w flow begun now code content v hR hA hloads hE.current rfl
      obtain ⟨hevs, hmem, hraised⟩ := callback_run hE hrun
      have htokens : tokensIn json content = tokens (rawTokens v) := by
        rw [tokensIn, hR.parses v hloads]
        rfl
      refine ⟨?_, fun _ e he => hraised e rfl he⟩
      rwa [hevs, hmem, htokens]
    · have hnone : tokensIn json content = [] := not_not.1 fun hne => hread (h hne)
      obtain ⟨l, u, out, hrun, hstatus, -⟩ := @unread_run L w flow now code content (tokensIn json content) hA
        hE.current fun v hv => hread ⟨v, hv⟩
      obtain ⟨hevs, hmem, -⟩ := callback_run hE hrun
      refine ⟨?_, fun hne => absurd hnone hne⟩
      rw [Reported, hevs, hmem]
      constructor
      · intro hreported
        exact absurd hreported hstatus
      · intro hsome
        exact absurd hnone hsome.1

end Callback

/-! ## A grant that is stored -/

def sampleJson (content : String) : Option Value :=
  match sampleLibs.loads content with
  | .value v => some v
  | _ => none

/-- a callback with a code, for which the vault stores what it is given -/
def sampleWorld : World where
  consumed := .ok (some readFlow)
  error := none
  code := some "code"
  current := .ok none
  post := answering grantedText
  put := .ok ()
  loginCode := .ok "login"

/-- the addresses of the sample are canonical -/
theorem sample_canonical {value host path canonical : String}
    (h : canonicalHttps sampleLibs.toLibs value true = .ok (host, path, canonical)) : canonical = value := by
  by_cases hapi : value = "https://hyperagent.com/api/mcp"
  · subst hapi
    have hcanonical : (canonicalHttps sampleLibs.toLibs "https://hyperagent.com/api/mcp" true).toOption =
        some ("hyperagent.com", "/api/mcp", "https://hyperagent.com/api/mcp") := by
      decide +kernel
    cases (toOption_eq_some.1 hcanonical).symm.trans h
    rfl
  · by_cases htoken : value = "https://hyperagent.com/token"
    · subst htoken
      have hcanonical : (canonicalHttps sampleLibs.toLibs "https://hyperagent.com/token" true).toOption =
          some ("hyperagent.com", "/token", "https://hyperagent.com/token") := by
        decide +kernel
      cases (toOption_eq_some.1 hcanonical).symm.trans h
      rfl
    · have hnone : sampleLibs.urlsplit value = none := by
        change hyperagentUrls value = none
        rw [hyperagentUrls, if_neg hapi, if_neg htoken]
      rw [canonicalHttps, hnone] at h
      cases h

theorem sample_revalidates : Revalidates sampleLibs := by
  intro item value endpoint url h
  have hurl : url = value := by
    obtain ⟨⟨host, path, canonical⟩, hvalue, hrest⟩ := bind_ok h
    obtain ⟨⟨endpointHost, endpointPath, endpointUrl⟩, -, hrest⟩ := bind_ok hrest
    dsimp only at hrest
    split_ifs at hrest
    cases hrest
    exact sample_canonical (fromConnector_ok hvalue)
  subst hurl
  exact ⟨url, h⟩

/-- what `json.loads` reads in the answer -/
theorem grantedText_loads : sampleLibs.loads grantedText = .value (.dict [("access_token", .str "at-0"),
    ("token_type", .str "Bearer"), ("scope", .str "read share"), ("refresh_token", .str "rt-0")]) := by
  have hread : (readReply sampleLibs (.answered 200 grantedText)).toOption = some [("access_token", .str "at-0"),
      ("token_type", .str "Bearer"), ("scope", .str "read share"), ("refresh_token", .str "rt-0")] := by
    decide +kernel
  have hreply := toOption_eq_some.1 hread
  unfold readReply at hreply
  dsimp only at hreply
  split_ifs at hreply
  cases hloads : sampleLibs.loads grantedText with
  | malformed =>
    rw [hloads] at hreply
    cases hreply
  | tooDeep =>
    rw [hloads] at hreply
    cases hreply
  | value v =>
    rw [hloads] at hreply
    cases v with
    | dict fields =>
      cases hreply
      rfl
    | none => cases hreply
    | bool b => cases hreply
    | int n => cases hreply
    | float f => cases hreply
    | str text => cases hreply
    | list xs => cases hreply

theorem sample_reliable : Reliable sampleLibs sampleJson grantedText := by
  refine ⟨sampleLibs_readsBack, ?_, ?_, ?_, sample_revalidates⟩
  · intro v hv
    rw [sampleJson, hv]
  · intro v token hv htoken
    cases grantedText_loads.symm.trans hv
    have hgranted : sampleLibs.validateToken grantedText = some grantedToken := by decide +kernel
    cases htoken.symm.trans hgranted
    decide
  · intro endpoint requested value host path canonical _ _ h
    cases h

theorem sample_answered : Answered sampleLibs readFlow sampleWorld.post "code" grantedText := by
  refine ⟨by decide, rfl, by decide, ?_, ?_⟩
  · have hlisted : (oauthConnector readFlow.connectorId).toOption.isSome = true := by decide +kernel
    obtain ⟨item, hitem⟩ := Option.isSome_iff_exists.1 hlisted
    exact ⟨item, toOption_eq_some.1 hitem⟩
  · intro r h
    cases h

/-- a grant that the vault stores is accounted for -/
theorem granted_accounted : tokensIn sampleJson grantedText = ["rt-0", "at-0"] ∧
    Accounted sampleLibs readFlow (tokensIn sampleJson grantedText)
      (completeConnectorCallback sampleLibs "" sampleWorld begun) := by
  constructor
  · rw [tokensIn, sampleJson, grantedText_loads]
    decide
  · exact (no_orphan_grant sample_reliable ⟨rfl, rfl, rfl, rfl⟩ sample_answered).2 fun _ => ⟨_, grantedText_loads⟩

end Rally.Cloud.Callback
