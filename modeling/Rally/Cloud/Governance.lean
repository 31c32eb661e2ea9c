/-
What it takes for a hosted call to return a payload, whatever the vault, the refresher, the provider and the receipt
store do, and whenever the call is cancelled or runs out of time.

- `body_grant`: a body that went through has been granted everything it used.
- `execute_governed`: a call returns a payload only under a `Grant`, and in every other case it raises an error that
  carries a code and the hash of a result at most.
-/
import Rally.Cloud.Execution

namespace Rally.Cloud

open Py Proc

/-! ## Grants -/

/-- the claimed record is ready, under a lease, and its certification agrees with itself -/
structure Certified (L : Libs) (record : ConnectionRecord) (lease : String) : Prop where
  ready : record.status = "ready"
  proof : record.proofVersion = some certificationSchema
  leased : record.executionLease = some lease
  count : record.toolCount = record.certifiedTools.length
  manifest : ∃ hash, record.certifiedManifestSha256 = some hash ∧
    certifiedManifestSha256 L record.certifiedTools = .ok hash

/-- what the credential in use is turned into -/
def InUse.Sound (L : Libs) (item : HostedConnector) (now : ℤ) (inUse : InUse) : Prop :=
  runtimeMaterial L item inUse.secret.value now = .ok inUse.material

/-- what a call is made with -/
structure Grant where
  item : HostedConnector
  arguments : List (String × Value)
  /-- the text of the arguments -/
  encoded : String
  stored : StoredConnection
  lease : String
  /-- the credential whose workflows the policy was checked for -/
  checked : InUse
  preset : ToolPolicy
  constraints : List (String × Value)
  resultCap : ℕ
  policy : String
  schema : String
  /-- the credential of the call that was answered -/
  used : InUse
  endpoint : String
  remoteName : String
  payload : Value
  /-- the text of the payload -/
  text : String

/-- events between the claim and the answered call: the credential is refreshed, or a call fails -/
inductive Ev.Between : Ev → Prop where
  | refresh (previous : ConnectorSecret) (answer : Except Exn String) : Between (.refresh previous answer)
  | rotate (uid connectorId generation lease : String) (expected secret : ConnectorSecret)
      (answer : Except Exn (Option ConnectionRecord)) :
      Between (.vault uid connectorId (.rotate generation lease expected secret answer))
  | winner (uid connectorId : String) (answer : Except Exn (Option StoredConnection)) :
      Between (.vault uid connectorId (.get answer))
  | failed (endpoint : String) (headers : List (String × String)) (name : String) (arguments : List (String × Value))
      (schema : String) (e : Exn) : Between (.tool endpoint headers name arguments schema (.error e))

/-- the body of a call is covered by the grant -/
structure Granted (L : Libs) (req : Request) (w : World) (g : Grant) : Prop where
  connector : connector req.connectorId = .ok g.item
  certified : Certified L g.stored.record g.lease
  checked : g.checked.Sound L g.item w.created
  committed : committedPolicy g.item g.checked.material.allowedWorkflowIds = some g.preset
  enforced : Enforced L g.item req.toolName g.arguments g.preset g.constraints g.encoded g.resultCap g.policy
  schema : (req.toolName, g.schema) ∈ g.stored.record.certifiedTools
  used : g.used.Sound L g.item w.created
  routed : route g.item g.used.material req.toolName = .ok (g.endpoint, g.remoteName)
  answered : ∃ provider ∈ [w.provider, w.providerAgain],
    provider.Answers L g.remoteName g.schema ⟨.json g.payload, false⟩
  text : canonicalJson L (.json g.payload) = .ok g.text
  small : g.text.utf8ByteSize ≤ g.resultCap
  /-- no string of the payload has a private text of the credential in it -/
  clean : ∀ s, HasText g.payload s → ∀ t, Private L g.used.secret.value t → ¬ t.toList <:+: s.toList

/-- the events of a call that returned: the first receipt before everything else, the claim, the answered call with the
certified schema hash, the release, and the last receipt -/
def Grant.Trace (g : Grant) (req : Request) (started completed : ExecutionReceipt) (evs : List Ev) : Prop :=
  ∃ middle, (∀ e ∈ middle, Ev.Between e) ∧
    evs = .receipt req.uid started (.ok ()) ::
      .vault req.uid req.connectorId (.claim (.ok (some g.stored))) :: middle ++
      [.tool g.endpoint g.used.material.headers g.remoteName g.arguments g.schema (.ok ⟨.json g.payload, false⟩),
        .vault req.uid req.connectorId (.release g.lease (.ok true)), .receipt req.uid completed (.ok ())]

/-- the last receipt of a call that returned -/
structure Allowed (L : Libs) (g : Grant) (started completed : ExecutionReceipt) : Prop where
  same : completed.executionId = started.executionId ∧ completed.connectorId = started.connectorId ∧
    completed.toolName = started.toolName
  decision : completed.decision = .allowed
  arguments : completed.argumentsSha256 = L.sha256 g.encoded ∧ completed.argumentBytes = g.encoded.utf8ByteSize
  result : completed.resultSha256 = some (L.sha256 g.text) ∧ completed.resultBytes = some g.text.utf8ByteSize ∧
    completed.resultIsError = some false
  manifest : completed.certifiedManifestSha256 = g.stored.record.certifiedManifestSha256
  policy : completed.policySha256 = some g.policy
  credential : completed.credentialGeneration = some g.used.generation

/-! ## The steps of a call that returned -/

section Steps

variable {L : Libs} {req : Request} {w : World} {s t : Locals} {l : List Ev}

theorem returns_record {receipt : ExecutionReceipt} {answer : Except Fault Unit} {u : Unit}
    (h : Returns (record req receipt answer) s l t u) : l = [.receipt req.uid receipt (.ok ())] ∧ t = s := by
  rcases returns_attempt h with h | ⟨l₁, v, e, l₂, -, h, -⟩
  · obtain ⟨-, hl, ht⟩ := returns_await h
    exact ⟨hl, ht⟩
  · split_ifs at h
    · exact absurd h not_returns_raise
    · exact absurd h not_returns_raise

theorem returns_askVault {α : Type} {call : Except Exn α → VaultCall} {answer : Except VaultExn α} {a : α}
    (h : Returns (askVault req call answer) s l t a) :
    l = [.vault req.uid req.connectorId (call (.ok a))] ∧ t = s :=
  (returns_await h).2

theorem returns_claim {stored : StoredConnection} (h : Returns (claimConnection req w) s l t stored) :
    l = [.vault req.uid req.connectorId (.claim (.ok (some stored)))] ∧ t = s := by
  obtain ⟨l₁, u, claimed, l₂, hclaim, h₁, rfl⟩ := returns_bind h
  rcases returns_attempt hclaim with hclaim | ⟨_, _, e, _, -, hraise, -⟩
  · obtain ⟨rfl, rfl⟩ := returns_askVault hclaim
    cases claimed with
    | some found =>
      obtain ⟨rfl, rfl, rfl⟩ := returns_ret h₁
      exact ⟨rfl, rfl⟩
    | none =>
      obtain ⟨_, _, current, _, -, h₁, -⟩ := returns_bind h₁
      exact absurd h₁ not_returns_raise
  · split at hraise
    · exact absurd hraise not_returns_raise
    · exact absurd hraise not_returns_raise

theorem present_some {value : Option String} (h : present value = true) : ∃ text, value = some text := by
  cases value with
  | none => cases h
  | some text => exact ⟨text, rfl⟩

theorem checkCertification_ok {record : ConnectionRecord} (h : checkCertification L record = .ok ()) :
    Certified L record (record.executionLease.getD "") := by
  unfold checkCertification at h
  split at h
  · cases h
  · rename_i hsound
    obtain ⟨hash, hmanifest, h⟩ := bind_ok h
    split at h
    · cases h
    · rename_i hsame
      simp only [not_or, not_not] at hsound
      obtain ⟨hready, hproof, -, -, -, hlease, hcount⟩ := hsound
      obtain ⟨lease, hsome⟩ := present_some hlease
      exact ⟨hready, hproof, by rw [hsome]; rfl, hcount, hash, not_not.1 hsame, mapError_ok hmanifest⟩

/-! ## Credentials -/

theorem adoptWinner_ok {item : HostedConnector} {previous : ConnectorSecret} {generation lease : String} {now : ℤ}
    {winner : Option StoredConnection} {inUse : InUse}
    (h : adoptWinner L item previous generation lease now winner = .ok inUse) : inUse.Sound L item now := by
  unfold adoptWinner at h
  split at h
  · cases h
  · split at h
    · split at h
      · rename_i material hmaterial
        cases h
        exact hmaterial
      · cases h
      · cases h
    · cases h

theorem returns_refreshMaterial {item : HostedConnector} {previous : ConnectorSecret} {generation lease : String}
    {now : ℤ} {answers : RefreshAnswers} {inUse : InUse}
    (h : Returns (refreshRuntimeMaterial L req item previous generation lease now answers) s l t inUse) :
    inUse.Sound L item now ∧ t = s ∧ ∀ e ∈ l, Ev.Between e := by
  obtain ⟨l₁, u, value, l₂, hvalue, h₁, rfl⟩ := returns_bind h
  obtain ⟨-, rfl, rfl⟩ := returns_await hvalue
  split at h₁
  · exact absurd h₁ not_returns_raise
  · obtain ⟨l₃, u, rotated, l₄, hrotated, h₂, rfl⟩ := returns_bind h₁
    obtain ⟨rfl, rfl⟩ := returns_askVault hrotated
    split at h₂
    · obtain ⟨l₅, u, material, l₆, hlift, h₃, rfl⟩ := returns_bind h₂
      obtain ⟨hmaterial, rfl, rfl⟩ := returns_lift hlift
      obtain ⟨rfl, rfl, rfl⟩ := returns_ret h₃
      refine ⟨hmaterial, rfl, fun e he => ?_⟩
      simp only [List.append_nil, List.cons_append, List.nil_append, List.mem_cons, List.not_mem_nil, or_false] at he
      rcases he with rfl | rfl
      · exact .refresh _ _
      · exact .rotate _ _ _ _ _ _ _
    · obtain ⟨l₅, u, winner, l₆, hwinner, h₃, rfl⟩ := returns_bind h₂
      obtain ⟨rfl, rfl⟩ := returns_askVault hwinner
      obtain ⟨hadopt, rfl, rfl⟩ := returns_lift h₃
      refine ⟨adoptWinner_ok hadopt, rfl, fun e he => ?_⟩
      simp only [List.append_nil, List.cons_append, List.nil_append, List.mem_cons, List.not_mem_nil, or_false] at he
      rcases he with rfl | rfl | rfl
      · exact .refresh _ _
      · exact .rotate _ _ _ _ _ _ _
      · exact .winner _ _ _

/-- the credential in use is the one in the local variables -/
structure Holds (inUse : InUse) (s : Locals) : Prop where
  secret : s.secret = some inUse.secret
  generation : s.generation = some inUse.generation

theorem returns_refresh {item : HostedConnector} {previous : ConnectorSecret} {generation lease : String} {now : ℤ}
    {answers : RefreshAnswers} {inUse : InUse}
    (h : Returns (refresh L req item previous generation lease now answers) s l t inUse) :
    inUse.Sound L item now ∧ t = { s with secret := some inUse.secret, generation := some inUse.generation } ∧
      ∀ e ∈ l, Ev.Between e := by
  obtain ⟨l₁, u, found, l₂, hfound, h₁, rfl⟩ := returns_bind h
  obtain ⟨hsound, rfl, hbetween⟩ := returns_refreshMaterial hfound
  obtain ⟨l₃, v, _, l₄, hset, h₂, rfl⟩ := returns_bind h₁
  obtain ⟨rfl, rfl⟩ := returns_set hset
  obtain ⟨rfl, rfl, rfl⟩ := returns_ret h₂
  refine ⟨hsound, rfl, fun e he => hbetween e ?_⟩
  simpa using he

theorem returns_openCredential {item : HostedConnector} {stored : StoredConnection} {lease : String}
    {inUse : InUse} {refreshedOnce : Bool} (hsecret : s.secret = some stored.secret)
    (hgeneration : s.generation = some stored.record.credentialGeneration)
    (h : Returns (openCredential L req w item stored lease) s l t (inUse, refreshedOnce)) :
    inUse.Sound L item w.created ∧ t = { s with secret := some inUse.secret, generation := some inUse.generation } ∧
      ∀ e ∈ l, Ev.Between e := by
  rcases returns_attempt h with h | ⟨l₁, u, e, l₂, hraise, h₁, rfl⟩
  · obtain ⟨l₁, u, material, l₂, hlift, h₁, rfl⟩ := returns_bind h
    obtain ⟨hmaterial, rfl, rfl⟩ := returns_lift hlift
    obtain ⟨rfl, rfl, heq⟩ := returns_ret h₁
    cases heq
    refine ⟨hmaterial, ?_, fun e he => absurd he (by simp)⟩
    rw [← hsecret, ← hgeneration]
  · have hquiet : l₁ = [] ∧ u = s := by
      rcases raises_bind hraise with hraise | ⟨_, _, _, _, -, hraise, -⟩
      · exact (raises_lift hraise).2
      · cases hraise
    obtain ⟨rfl, rfl⟩ := hquiet
    split at h₁
    · split_ifs at h₁
      · obtain ⟨l₃, v, found, l₄, hfound, h₂, rfl⟩ := returns_bind h₁
        obtain ⟨hsound, rfl, hbetween⟩ := returns_refresh hfound
        obtain ⟨rfl, rfl, heq⟩ := returns_ret h₂
        cases heq
        refine ⟨hsound, rfl, fun e he => hbetween e ?_⟩
        simpa using he
      · exact absurd h₁ not_returns_raise
    · exact absurd h₁ not_returns_raise

/-! ## The call -/

theorem returns_callTool {endpoint name schema : String} {arguments : List (String × Value)}
    {material : RuntimeMaterial} {provider : Provider} {called : HostedCallResult}
    (h : Returns (callTool L endpoint name arguments schema material provider) s l t called) :
    provider.Answers L name schema called ∧ l = [.tool endpoint material.headers name arguments schema (.ok called)] ∧
      t = { s with called := some called } := by
  obtain ⟨l₁, u, answer, l₂, hawait, h₁, rfl⟩ := returns_bind h
  obtain ⟨hanswer, rfl, rfl⟩ := returns_await hawait
  obtain ⟨l₃, v, _, l₄, hset, h₂, rfl⟩ := returns_bind h₁
  obtain ⟨rfl, rfl⟩ := returns_set hset
  obtain ⟨rfl, rfl, rfl⟩ := returns_ret h₂
  exact ⟨call_ok hanswer, rfl, rfl⟩

/-- a call that failed has left nothing but itself -/
theorem raises_callTool {endpoint name schema : String} {arguments : List (String × Value)}
    {material : RuntimeMaterial} {provider : Provider} {e : Exn} {inUse : InUse}
    (h : Raises (do
      let called ← callTool L endpoint name arguments schema material provider
      ret (called, inUse) : Step (HostedCallResult × InUse)) s l t e) : (∀ e ∈ l, Ev.Between e) ∧ t = s := by
  rcases raises_bind h with h | ⟨_, _, _, _, -, h, -⟩
  · rcases raises_bind h with h | ⟨_, _, _, _, -, h, -⟩
    · obtain ⟨-, rfl, rfl⟩ := raises_await h
      refine ⟨fun e he => ?_, rfl⟩
      obtain rfl := List.mem_singleton.1 he
      exact .failed _ _ _ _ _ _
    · rcases raises_bind h with h | ⟨_, _, _, _, -, h, -⟩
      · cases h
      · cases h
  · cases h

theorem returns_callProvider {item : HostedConnector} {arguments : List (String × Value)} {schema lease : String}
    {inUse used : InUse} {refreshedOnce : Bool} {called : HostedCallResult} (hsound : inUse.Sound L item w.created)
    (hsecret : s.secret = some inUse.secret) (hgeneration : s.generation = some inUse.generation)
    (h : Returns (callProvider L req w item arguments schema lease inUse refreshedOnce) s l t (called, used)) :
    ∃ endpoint name middle, used.Sound L item w.created ∧ route item used.material req.toolName = .ok (endpoint, name) ∧
      (∃ provider ∈ [w.provider, w.providerAgain], provider.Answers L name schema called) ∧
      (∀ e ∈ middle, Ev.Between e) ∧
      l = middle ++ [.tool endpoint used.material.headers name arguments schema (.ok called)] ∧
      t = { s with secret := some used.secret, generation := some used.generation, called := some called } := by
  obtain ⟨l₁, u, ⟨endpoint, name⟩, l₂, hlift, h₁, rfl⟩ := returns_bind h
  obtain ⟨hroute, rfl, rfl⟩ := returns_lift hlift
  rcases returns_attempt h₁ with h₂ | ⟨l₃, v, e, l₄, hraise, h₂, rfl⟩
  · obtain ⟨l₃, v, answer, l₄, hcall, h₃, rfl⟩ := returns_bind h₂
    obtain ⟨hanswer, rfl, rfl⟩ := returns_callTool hcall
    obtain ⟨rfl, rfl, heq⟩ := returns_ret h₃
    cases heq
    refine ⟨endpoint, name, [], hsound, hroute, ⟨_, by simp, hanswer⟩, fun e he => absurd he List.not_mem_nil, by simp, ?_⟩
    rw [← hsecret, ← hgeneration]
  · obtain ⟨hfailed, rfl⟩ := raises_callTool hraise
    split at h₂
    · split_ifs at h₂
      · obtain ⟨l₅, v, again, l₆, hrefresh, h₃, rfl⟩ := returns_bind h₂
        obtain ⟨hagain, rfl, hbetween⟩ := returns_refresh hrefresh
        obtain ⟨l₇, v, ⟨endpoint', name'⟩, l₈, hlift, h₄, rfl⟩ := returns_bind h₃
        obtain ⟨hroute', rfl, rfl⟩ := returns_lift hlift
        obtain ⟨l₉, v, answer, l₁₀, hcall, h₅, rfl⟩ := returns_bind h₄
        obtain ⟨hanswer, rfl, rfl⟩ := returns_callTool hcall
        obtain ⟨rfl, rfl, heq⟩ := returns_ret h₅
        cases heq
        refine ⟨endpoint', name', l₃ ++ l₅, hagain, hroute', ⟨_, by simp, hanswer⟩, fun e he => ?_, by simp, rfl⟩
        exact (List.mem_append.1 he).elim (hfailed e) (hbetween e)
      · exact absurd h₂ not_returns_raise
    · exact absurd h₂ not_returns_raise

theorem returns_checkResult {called : HostedCallResult} {material : RuntimeMaterial} {resultCap : ℕ} {u : Unit}
    (h : Returns (checkResult L called material resultCap) s l t u) :
    ∃ payload text, called = ⟨.json payload, false⟩ ∧ canonicalJson L (.json payload) = .ok text ∧
      text.utf8ByteSize ≤ resultCap ∧ containsSecret material.secretValues payload = false ∧ l = [] ∧
      t = { s with
        resultHash := some (L.sha256 text), resultSize := some text.utf8ByteSize, resultIsError := some false } := by
  obtain ⟨l₁, v, text, l₂, hlift, h₁, rfl⟩ := returns_bind h
  obtain ⟨htext, rfl, rfl⟩ := returns_lift hlift
  obtain ⟨l₃, v, _, l₄, hset, h₂, rfl⟩ := returns_bind h₁
  obtain ⟨rfl, rfl⟩ := returns_set hset
  obtain ⟨l₅, v, _, l₆, hlarge, h₃, rfl⟩ := returns_bind h₂
  obtain ⟨hsmall, rfl, rfl⟩ := returns_refuse hlarge
  obtain ⟨l₇, v, _, l₈, hsecret, h₄, rfl⟩ := returns_bind h₃
  obtain ⟨hclean, rfl, rfl⟩ := returns_refuse hsecret
  obtain ⟨herror, rfl, rfl⟩ := returns_refuse h₄
  obtain ⟨o, isError⟩ := called
  obtain ⟨payload, rfl, -⟩ := canonicalJson_ok htext
  obtain rfl : isError = false := by simpa using herror
  exact ⟨payload, text, rfl, htext, not_lt.1 hsmall, by simpa [payloadContains] using hclean, rfl, rfl⟩

/-- **What a body that went through was granted**, and how it leaves the local variables. -/
theorem body_grant {arguments : List (String × Value)} {started : ExecutionReceipt} {u : Unit}
    (h : Returns (body L req w arguments started) s l t u) :
    ∃ g : Grant, Granted L req w g ∧ g.arguments = arguments ∧
      (∃ middle, (∀ e ∈ middle, Ev.Between e) ∧ l = .receipt req.uid started (.ok ()) ::
        .vault req.uid req.connectorId (.claim (.ok (some g.stored))) :: middle ++
        [.tool g.endpoint g.used.material.headers g.remoteName g.arguments g.schema (.ok ⟨.json g.payload, false⟩)]) ∧
      t = { s with
        secret := some g.used.secret, generation := some g.used.generation
        manifest := g.stored.record.certifiedManifestSha256, policy := some g.policy, lease := some g.lease
        called := some ⟨.json g.payload, false⟩, resultHash := some (L.sha256 g.text)
        resultSize := some g.text.utf8ByteSize, resultIsError := some false } := by
  obtain ⟨l₁, v, _, k₁, hrecord, h₁, rfl⟩ := returns_bind h
  obtain ⟨rfl, rfl⟩ := returns_record hrecord
  obtain ⟨l₂, v, item, k₂, hlift, h₂, rfl⟩ := returns_bind h₁
  obtain ⟨hitem, rfl, rfl⟩ := returns_lift hlift
  obtain ⟨l₃, v, stored, k₃, hclaim, h₃, rfl⟩ := returns_bind h₂
  obtain ⟨rfl, rfl⟩ := returns_claim hclaim
  obtain ⟨l₄, v, _, k₄, hset, h₄, rfl⟩ := returns_bind h₃
  obtain ⟨rfl, rfl⟩ := returns_set hset
  obtain ⟨l₅, v, _, k₅, hlift, h₅, rfl⟩ := returns_bind h₄
  obtain ⟨hcheck, rfl, rfl⟩ := returns_lift hlift
  have hcertified := checkCertification_ok hcheck
  obtain ⟨l₆, v, _, k₆, hset, h₆, rfl⟩ := returns_bind h₅
  obtain ⟨rfl, rfl⟩ := returns_set hset
  obtain ⟨l₇, v, ⟨checked, refreshedOnce⟩, k₇, hopen, h₇, rfl⟩ := returns_bind h₆
  obtain ⟨hchecked, rfl, hopening⟩ := returns_openCredential rfl rfl hopen
  obtain ⟨l₈, v, ⟨encoded, resultCap, policy⟩, k₈, hlift, h₈, rfl⟩ := returns_bind h₇
  obtain ⟨henforce, rfl, rfl⟩ := returns_lift hlift
  obtain ⟨preset, constraints, hcommitted, henforced⟩ := enforceToolPolicy_ok henforce
  obtain ⟨l₉, v, _, k₉, hset, h₉, rfl⟩ := returns_bind h₈
  obtain ⟨rfl, rfl⟩ := returns_set hset
  split at h₉
  · exact absurd h₉ not_returns_raise
  · rename_i schema hschema
    obtain ⟨before, after, hmem, -⟩ := List.lookup_eq_some_iff.1 hschema
    obtain ⟨l₁₀, v, ⟨called, used⟩, k₁₀, hcall, h₁₀, rfl⟩ := returns_bind h₉
    obtain ⟨endpoint, name, middle, hused, hroute, hanswer, hmiddle, rfl, rfl⟩ := returns_callProvider hchecked rfl rfl hcall
    obtain ⟨payload, text, rfl, htext, hsmall, hclean, rfl, rfl⟩ := returns_checkResult h₁₀
    refine ⟨⟨item, arguments, encoded, stored, _, checked, preset, constraints, resultCap, policy, schema, used, endpoint,
      name, payload, text⟩, ⟨hitem, hcertified, hchecked, hcommitted, henforced, ?_, hused, hroute, hanswer, htext, hsmall,
      fun s hs t ht hin => ?_⟩, rfl, ⟨l₇ ++ middle, fun e he => ?_, by simp⟩, ?_⟩
    · rw [← List.mem_reverse, hmem]
      simp
    · have hfound := (containsSecret_iff payload).2 ⟨s, hs, t, (runtimeMaterial_private hused t).2 ht, hin⟩
      rw [hclean] at hfound
      cases hfound
    · exact (List.mem_append.1 he).elim (hopening e) (hmiddle e)
    · rw [hcertified.leased]

/-! ## The end of a call that returned -/

/-- nothing failed before a return -/
theorem returns_settle {arguments : List (String × Value)} {started : ExecutionReceipt} {u : Unit}
    (h : Returns (settle L req w arguments started) s l t u) (hok : t.failure = none) :
    Returns (body L req w arguments started) s l t u := by
  rcases returns_attempt h with h | ⟨l₁, v, e, l₂, -, h₁, -⟩
  · exact h
  · split at h₁
    · obtain ⟨-, rfl⟩ := returns_set h₁
      cases hok
    · exact absurd h₁ not_returns_raise

theorem returns_quarantine {u : Unit} (h : Returns (quarantineUnusable req w) s l t u) (hok : t.failure = none) :
    l = [] ∧ t = s := by
  obtain ⟨l₁, v, s', l₂, hget, h₁, rfl⟩ := returns_bind h
  obtain ⟨rfl, rfl, rfl⟩ := returns_get hget
  split at h₁
  · rename_i hfailure _ _ _
    split_ifs at h₁
    · rcases returns_attempt h₁ with h₂ | ⟨l₃, v, e, l₄, -, h₂, -⟩
      · obtain ⟨_, v, _, _, -, h₃, -⟩ := returns_bind h₂
        obtain ⟨-, rfl⟩ := returns_set h₃
        cases hok
      · split at h₂
        · obtain ⟨-, rfl⟩ := returns_set h₂
          cases hok
        · obtain ⟨-, rfl⟩ := returns_set h₂
          cases hok
        · exact absurd h₂ not_returns_raise
    · obtain ⟨rfl, rfl, -⟩ := returns_ret h₁
      exact ⟨rfl, rfl⟩
  · obtain ⟨rfl, rfl, -⟩ := returns_ret h₁
    exact ⟨rfl, rfl⟩

/-- a lease that was held has been released -/
theorem returns_release {u : Unit} (h : Returns (releaseLease req w) s l t u) (hok : t.failure = none) :
    t = s ∧ ∀ lease, s.lease = some lease → l = [.vault req.uid req.connectorId (.release lease (.ok true))] := by
  obtain ⟨l₁, v, s', l₂, hget, h₁, rfl⟩ := returns_bind h
  obtain ⟨rfl, rfl, rfl⟩ := returns_get hget
  split at h₁
  · rename_i hlease
    obtain ⟨rfl, rfl, -⟩ := returns_ret h₁
    exact ⟨rfl, fun lease hsome => nomatch hlease.symm.trans hsome⟩
  · rename_i lease hlease
    rcases returns_attempt h₁ with h₂ | ⟨l₃, v, e, l₄, -, h₂, -⟩
    · obtain ⟨l₃, v, released, l₄, hask, h₃, rfl⟩ := returns_bind h₂
      obtain ⟨rfl, rfl⟩ := returns_askVault hask
      cases released with
      | true =>
        obtain ⟨rfl, rfl, -⟩ := returns_ret h₃
        refine ⟨rfl, fun lease' hsome => ?_⟩
        cases hlease.symm.trans hsome
        rfl
      | false =>
        obtain ⟨-, rfl⟩ := returns_set h₃
        cases hok
    · split at h₂
      · obtain ⟨-, rfl⟩ := returns_set h₂
        cases hok
      · obtain ⟨-, rfl⟩ := returns_set h₂
        cases hok
      · exact absurd h₂ not_returns_raise

/-- a call returns only without a failure, what was called, with its last receipt -/
theorem returns_finish {started : ExecutionReceipt} {result : HostedExecutionResult}
    (h : Returns (finish L req w started) s l t result) :
    s.failure = none ∧ (∃ called, s.called = some called ∧ result.payload = called.payload) ∧
      result.receipt = { started with
        decision := .allowed, completedAt := some (L.iso w.completed), resultSha256 := s.resultHash
        resultBytes := s.resultSize, resultIsError := some false, durationMs := some (max 0 w.elapsedMs).toNat
        credentialGeneration := s.generation, certifiedManifestSha256 := s.manifest, policySha256 := s.policy } ∧
      l = [.receipt req.uid result.receipt (.ok ())] := by
  obtain ⟨l₁, v, s', l₂, hget, h₁, rfl⟩ := returns_bind h
  obtain ⟨rfl, rfl, rfl⟩ := returns_get hget
  split at h₁
  · rename_i called hfailure hcalled
    obtain ⟨l₃, v, _, l₄, hrecord, h₂, rfl⟩ := returns_bind h₁
    obtain ⟨rfl, rfl⟩ := returns_record hrecord
    obtain ⟨rfl, rfl, rfl⟩ := returns_ret h₂
    exact ⟨hfailure, ⟨called, hcalled, rfl⟩, rfl, rfl⟩
  · obtain ⟨_, v, _, _, -, h₂, -⟩ := returns_bind h₁
    exact absurd h₂ not_returns_raise

/-- a call that returned went through its body, and the lease it held was released -/
theorem returns_execute {result : HostedExecutionResult} (h : Returns (execute L req w) {} l t result) :
    ∃ g : Grant, req.arguments = .json (.dict g.arguments) ∧ Granted L req w g ∧
      g.Trace req (startedReceipt L req w g.encoded) result.receipt l ∧ result.payload = .json g.payload ∧
      Allowed L g (startedReceipt L req w g.encoded) result.receipt := by
  obtain ⟨l₁, v, arguments, k₁, hlift, h₁, rfl⟩ := returns_bind h
  obtain ⟨harguments, rfl, rfl⟩ := returns_lift hlift
  obtain ⟨l₂, v, encoded, k₂, hlift, h₂, rfl⟩ := returns_bind h₁
  obtain ⟨hencoded, rfl, rfl⟩ := returns_lift hlift
  obtain ⟨l₃, v, _, k₃, hclean, h₃, rfl⟩ := returns_bind h₂
  obtain ⟨hok, ⟨called, hcalled, hpayload⟩, hreceipt, rfl⟩ := returns_finish h₃
  obtain ⟨l₄, u, k₄, hmain, hrelease, rfl⟩ := returns_cleanup hclean
  obtain ⟨rfl, hreleased⟩ := returns_release hrelease hok
  obtain ⟨l₅, u', _, k₅, hsettle, hquarantine, rfl⟩ := returns_bind hmain
  obtain ⟨rfl, rfl⟩ := returns_quarantine hquarantine hok
  obtain ⟨g, hgranted, rfl, ⟨middle, hmiddle, rfl⟩, rfl⟩ := body_grant (returns_settle hsettle hok)
  obtain rfl : encoded = g.encoded := Except.ok.inj (hencoded.symm.trans hgranted.enforced.text)
  obtain rfl := hreleased g.lease rfl
  cases hcalled
  refine ⟨g, ?_, hgranted, ⟨middle, hmiddle, by simp⟩, hpayload, ?_⟩
  · cases hobj : req.arguments with
    | json v =>
      rw [hobj] at harguments
      cases v with
      | dict kvs => cases harguments; rfl
      | _ => cases harguments
    | foreign => rw [hobj] at harguments; cases harguments
    | tooDeep => rw [hobj] at harguments; cases harguments
  · rw [hreceipt]
    exact ⟨⟨rfl, rfl, rfl⟩, rfl, ⟨rfl, rfl⟩, ⟨rfl, rfl, rfl⟩, rfl, rfl, rfl⟩

end Steps

/-! ## Calls that raise -/

/-- an error that carries nothing of the provider's: a code, at most with a receipt whose result is a hash -/
inductive Withheld (L : Libs) : Exn → Prop where
  | code (code : Code) : Withheld L (hosted code)
  | receipt {code : Code} {receipt : ExecutionReceipt} (hcode : receipt.errorCode = some code)
      (hdecision : receipt.decision = .denied ∨ receipt.decision = .failed)
      (hresult : ∀ hash, receipt.resultSha256 = some hash → ∃ text, hash = L.sha256 text) :
      Withheld L (.hosted code (some receipt))
  | fault (f : Fault) : Withheld L (.fault f)

/-- the result is kept as a hash -/
def Hashed (L : Libs) (s : Locals) : Prop := ∀ hash, s.resultHash = some hash → ∃ text, hash = L.sha256 text

section Raises

variable {L : Libs} {req : Request} {w : World} {s : Locals}

/-- any exception -/
abbrev KeepsHash (L : Libs) {α : Type} (p : Step α) (s : Locals) : Prop := Keeps (Hashed L) (fun _ => True) p s

theorem keeps_record (hs : Hashed L s) (receipt : ExecutionReceipt) (answer : Except Fault Unit) :
    Keeps (Hashed L) (Withheld L) (record req receipt answer) s := by
  have hanswer : ∀ e, answer.mapError Exn.fault = .error e → ∃ f, e = .fault f := by
    intro e he
    cases answer with
    | ok u => cases he
    | error f => cases he; exact ⟨f, rfl⟩
  refine keeps_attempt (keeps_await hs hanswer) fun e u he hu => ?_
  obtain ⟨f, rfl⟩ := he
  split_ifs
  · exact keeps_raise hu (.code _)
  · exact keeps_raise hu (.fault f)

/-- an answer of the vault, or a vault's error or any fault -/
theorem keeps_askVault {α : Type} {q : Exn → Prop} (hs : Hashed L s) (call : Except Exn α → VaultCall)
    (answer : Except VaultExn α) (hvault : ∀ e, q (.vault e)) (hfault : ∀ f, q (.fault f)) :
    Keeps (Hashed L) q (askVault req call answer) s := by
  refine keeps_await hs fun e he => ?_
  cases answer with
  | ok a => cases he
  | error x =>
    cases he
    cases x with
    | vault e => exact hvault e
    | fault f => exact hfault f

theorem keeps_claim (hs : Hashed L s) : KeepsHash L (claimConnection req w) s := by
  refine keeps_bind (keeps_attempt (r := fun _ => True) (keeps_askVault hs _ _ (fun _ => trivial) fun _ => trivial)
    fun e u _ hu => ?_) fun claimed u hu => ?_
  · split
    · exact keeps_raise hu trivial
    · exact keeps_raise hu trivial
  · cases claimed with
    | some stored => exact keeps_ret hu stored
    | none =>
      exact keeps_bind (keeps_askVault hu _ _ (fun _ => trivial) fun _ => trivial) fun _ v hv => keeps_raise hv trivial

theorem keeps_refresh (hs : Hashed L s) (item : HostedConnector) (previous : ConnectorSecret)
    (generation lease : String) (now : ℤ) (answers : RefreshAnswers) :
    KeepsHash L (refresh L req item previous generation lease now answers) s := by
  have hask : ∀ {u : Locals} {α : Type} (call : Except Exn α → VaultCall) (answer : Except VaultExn α), Hashed L u →
      KeepsHash L (askVault req call answer) u :=
    fun call answer hu => keeps_askVault hu call answer (fun _ => trivial) fun _ => trivial
  refine keeps_bind ?_ fun inUse u hu => keeps_bind (keeps_set hu) fun _ v hv => keeps_ret hv inUse
  refine keeps_bind (keeps_await hs fun _ _ => trivial) fun value u hu => ?_
  split
  · exact keeps_raise hu trivial
  · refine keeps_bind (hask _ _ hu) fun rotated v hv => ?_
    cases rotated with
    | some record => exact keeps_bind (keeps_lift hv fun _ _ => trivial) fun material v hv => keeps_ret hv _
    | none => exact keeps_bind (hask _ _ hv) fun winner v hv => keeps_lift hv fun _ _ => trivial

theorem keeps_openCredential (hs : Hashed L s) (item : HostedConnector) (stored : StoredConnection) (lease : String) :
    KeepsHash L (openCredential L req w item stored lease) s := by
  refine keeps_attempt (r := fun _ => True)
    (keeps_bind (keeps_lift hs fun _ _ => trivial) fun material u hu => keeps_ret hu _) fun e u _ hu => ?_
  split
  · split_ifs
    · exact keeps_bind (keeps_refresh hu _ _ _ _ _ _) fun inUse v hv => keeps_ret hv _
    · exact keeps_raise hu trivial
  · exact keeps_raise hu trivial

theorem keeps_callTool (hs : Hashed L s) (endpoint name schema : String) (arguments : List (String × Value))
    (material : RuntimeMaterial) (provider : Provider) :
    KeepsHash L (callTool L endpoint name arguments schema material provider) s :=
  keeps_bind (keeps_await hs fun _ _ => trivial) fun called _ hu =>
    keeps_bind (keeps_set hu) fun _ _ hv => keeps_ret hv called

theorem keeps_callProvider (hs : Hashed L s) (item : HostedConnector) (arguments : List (String × Value))
    (schema lease : String) (inUse : InUse) (refreshedOnce : Bool) :
    KeepsHash L (callProvider L req w item arguments schema lease inUse refreshedOnce) s := by
  refine keeps_bind (keeps_lift hs fun _ _ => trivial) fun routed u hu => ?_
  refine keeps_attempt (r := fun _ => True)
    (keeps_bind (keeps_callTool hu _ _ _ _ _ _) fun called v hv => keeps_ret hv _) fun e v _ hv => ?_
  split
  · split_ifs
    · exact keeps_bind (keeps_refresh hv _ _ _ _ _ _) fun again v hv =>
        keeps_bind (keeps_lift hv fun _ _ => trivial) fun routed v hv =>
          keeps_bind (keeps_callTool hv _ _ _ _ _ _) fun called v hv => keeps_ret hv _
    · exact keeps_raise hv trivial
  · exact keeps_raise hv trivial

/-- the result's text leaves the check as a hash only -/
theorem keeps_checkResult (hs : Hashed L s) (called : HostedCallResult) (material : RuntimeMaterial) (resultCap : ℕ) :
    KeepsHash L (checkResult L called material resultCap) s := by
  refine keeps_bind (keeps_lift hs fun _ _ => trivial) fun encoded u hu => ?_
  refine keeps_bind (keeps_set fun hash hhash => ⟨encoded, (Option.some.inj hhash).symm⟩) fun _ v hv => ?_
  exact keeps_bind (keeps_refuse hv trivial) fun _ v hv =>
    keeps_bind (keeps_refuse hv trivial) fun _ v hv => keeps_refuse hv trivial

theorem keeps_body (hs : Hashed L s) (arguments : List (String × Value)) (started : ExecutionReceipt) :
    KeepsHash L (body L req w arguments started) s := by
  refine keeps_bind ((keeps_record hs _ _).mono fun _ _ => trivial) fun _ u hu => ?_
  refine keeps_bind (keeps_lift hu fun _ _ => trivial) fun item u hu => ?_
  refine keeps_bind (keeps_claim hu) fun stored u hu => ?_
  refine keeps_bind (keeps_set hu) fun _ u hu => ?_
  refine keeps_bind (keeps_lift hu fun _ _ => trivial) fun _ u hu => ?_
  refine keeps_bind (keeps_set hu) fun _ u hu => ?_
  refine keeps_bind (keeps_openCredential hu _ _ _) fun opened u hu => ?_
  refine keeps_bind (keeps_lift hu fun _ _ => trivial) fun enforced u hu => ?_
  refine keeps_bind (keeps_set hu) fun _ u hu => ?_
  split
  · exact keeps_raise hu trivial
  · exact keeps_bind (keeps_callProvider hu _ _ _ _ _ _) fun answered v hv => keeps_checkResult hv _ _ _

theorem keeps_settle (hs : Hashed L s) (arguments : List (String × Value)) (started : ExecutionReceipt) :
    Keeps (Hashed L) (Withheld L) (settle L req w arguments started) s := by
  refine keeps_attempt (keeps_body hs arguments started) fun e u _ hu => ?_
  split
  · exact keeps_set hu
  · rename_i hnone
    cases e with
    | fault f => exact keeps_raise hu (.fault f)
    | _ => cases hnone

theorem keeps_quarantine (hs : Hashed L s) : Keeps (Hashed L) (Withheld L) (quarantineUnusable req w) s := by
  refine keeps_get ?_
  split
  · split_ifs
    · refine keeps_attempt (r := Withheld L) ?_ fun e u he hu => ?_
      · refine keeps_bind (keeps_bind (keeps_attempt (r := fun e => (∃ v, e = .vault v) ∨ ∃ f, e = .fault f)
          (keeps_askVault hs _ _ (fun v => .inl ⟨v, rfl⟩) fun f => .inr ⟨f, rfl⟩) fun e u he hu => ?_)
          fun demoted u hu => keeps_refuse hu (.code _)) fun _ u hu => keeps_set hu
        rcases he with ⟨v, rfl⟩ | ⟨f, rfl⟩
        · exact keeps_raise hu (.code _)
        · exact keeps_raise hu (.fault f)
      · split
        · exact keeps_set hu
        · exact keeps_set hu
        · exact keeps_raise hu he
    · exact keeps_ret hs ()
  · exact keeps_ret hs ()

theorem keeps_release (hs : Hashed L s) : Keeps (Hashed L) (Withheld L) (releaseLease req w) s := by
  refine keeps_get ?_
  split
  · exact keeps_ret hs ()
  · refine keeps_attempt (r := fun e => (∃ v, e = .vault v) ∨ ∃ f, e = .fault f)
      (keeps_bind (keeps_askVault hs _ _ (fun v => .inl ⟨v, rfl⟩) fun f => .inr ⟨f, rfl⟩) fun released u hu => ?_)
      fun e u he hu => ?_
    · split_ifs
      · exact keeps_ret hu ()
      · exact keeps_set hu
    · split
      · exact keeps_set hu
      · exact keeps_set hu
      · rename_i hvault _
        rcases he with ⟨v, rfl⟩ | ⟨f, rfl⟩
        · exact absurd rfl (hvault v)
        · exact keeps_raise hu (.fault f)

theorem keeps_finish (hs : Hashed L s) (started : ExecutionReceipt) :
    Keeps (Hashed L) (Withheld L) (finish L req w started) s := by
  refine keeps_get ?_
  split
  · exact keeps_bind (keeps_record hs _ _) fun _ u hu => keeps_ret hu _
  · refine keeps_bind (keeps_record hs _ _) fun _ u hu => keeps_raise hu ?_
    split_ifs
    · exact .fault _
    all_goals refine .receipt rfl ?_ hs
    · exact .inl rfl
    · exact .inr rfl

theorem keeps_execute : Keeps (Hashed L) (Withheld L) (execute L req w) {} := by
  have hstart : Hashed L {} := fun hash hhash => nomatch hhash
  refine keeps_bind (keeps_lift hstart fun e he => ?_) fun arguments u hu => ?_
  · unfold argumentDict at he
    split at he
    · cases he
    · cases he; exact .fault _
    · cases he; exact .code _
  · refine keeps_bind (keeps_lift hu fun e he => ?_) fun encoded u hu => ?_
    · simp only [canonicalJson] at he
      split_ifs at he
      cases he
      exact .code _
    · refine keeps_bind (keeps_cleanup ?_ fun v hv => keeps_release hv) fun _ v hv => keeps_finish hv _
      exact keeps_bind (keeps_settle hu _ _) fun _ v hv => keeps_quarantine hv

end Raises

/-- **Governed execution.** Whatever the vault, the refresher, the provider and the receipt store answer, and wherever
the call is cut off, it either returns a payload, and then under a grant: the first receipt is recorded before anything
else, the claimed connection is certified, the committed policy allows the tool and the arguments, the provider is
called with the certified schema hash, the result is small and holds nothing private of the credential, the lease is
released, and a receipt with all the hashes is recorded last; or it raises, and withholds what the provider sent. -/
theorem execute_governed (L : Libs) (req : Request) (w : World) :
    (∃ result, (execute L req w {}).out = .ok result ∧ ∃ g : Grant,
      req.arguments = .json (.dict g.arguments) ∧ Granted L req w g ∧
        g.Trace req (startedReceipt L req w g.encoded) result.receipt (execute L req w {}).evs ∧
        result.payload = .json g.payload ∧ Allowed L g (startedReceipt L req w g.encoded) result.receipt) ∨
      ∃ e, (execute L req w {}).out = .error e ∧ Withheld L e := by
  cases hrun : execute L req w {} with
  | mk evs mem out =>
    cases out with
    | ok result => exact .inl ⟨result, rfl, returns_execute hrun⟩
    | error e => exact .inr ⟨e, rfl, keeps_execute.raises e (by rw [hrun])⟩

end Rally.Cloud
