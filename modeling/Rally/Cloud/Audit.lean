/-
The audit trail of connector calls: what the receipts of a call say of it, and whether they can be joined to the approvals.

- `Outcome`, `outcome`: what a call comes to, whatever is written of it.
- `audited_exact`: a call leaves a receipt of its outcome exactly where `Accounted` holds. The connector must be known and
  the arguments printable before any receipt is written, a tool that needs an approval must be enabled, and the approval
  ledger must raise nothing but its own errors.
- `hashes_join_exact`: the hash in the receipts of a call is the one bound into its approval exactly where every character of
  the arguments is at most `~`.
-/
import Rally.Cloud.Gateway

namespace Rally.Gateway

open Py Approvals

section Trail

variable (L : Libs)

/-! ## What is decided -/

/-- what comes of a call -/
inductive Outcome where
  /-- the run does not have the connector -/
  | unknown
  /-- the rule of the tool refuses the call, or there is none -/
  | denied (risk : Risk) (reason : String)
  /-- the run has no approvals -/
  | disabled
  /-- an approval was asked for -/
  | pending (approvalId : String)
  /-- the ledger refused the request or the approval that is named -/
  | refused (kind : Refusal) (approvalId : Option String)
  /-- the call of the provider went wrong -/
  | failed (risk : Risk) (errorType : String)
  | allowed (risk : Risk) (payload : Value) (isError : Bool) (approvalId : Option String)
  /-- something was raised that is handled nowhere -/
  | escaped

/-- what comes of a call that has what it needs -/
def providerOutcome (w : World) (c : Call) (connector : Connector) (rule : Rule) (approvalId : Option String) : Outcome :=
  if hasRoute connector c.toolName then
    match w.remote with
    | .broken => .escaped
    | .raised type => .failed rule.risk type
    | .answered payload isError =>
      if !dumpable true payload then .failed rule.risk "ValueError"
      else if !fits L rule payload then .failed rule.risk "ConnectorGatewayError"
      else
        match w.receiptError 0 with
        | none => .allowed rule.risk payload isError approvalId
        -- a success that cannot be written down is a failure
        | some type => .failed rule.risk type
  else .failed rule.risk "ConnectorGatewayError"

/-- what comes of a call of a tool that needs an approval -/
def approvalOutcome (authority : Authority) (w : World) (c : Call) (connector : Connector) (rule : Rule) (file : File) :
    Outcome :=
  if authority.approvalPath ∧ authority.humanApprovalToolsEnabled then
    match (askLedger L authority w c file).1, c.approvalId with
    | .error .fault, _ => .escaped
    | .error (.approval kind _), id => .refused kind id
    | .ok approval, none => .pending approval.approvalId
    | .ok approval, some _ => providerOutcome L w c connector rule (some approval.approvalId)
  else .disabled

/-- what comes of a call -/
def outcome (authority : Authority) (w : World) (c : Call) (file : File) : Outcome :=
  match connectorById authority c.connectorId with
  | none => .unknown
  | some connector =>
    if printableArguments c.arguments then
      match ruleOf connector c.toolName with
      | none => .denied .deny "not_allowlisted"
      | some rule =>
        match ruleRefusal L rule c, rule.risk with
        | some reason, risk => .denied risk reason
        | none, .verifyFirst => .denied .verifyFirst "independent_pre_execution_verifier_unavailable"
        | none, .humanApproval => approvalOutcome L authority w c connector rule file
        | none, _ => providerOutcome L w c connector rule none
    else .escaped

/-- what a call returns, if it does -/
def Outcome.payload : Outcome → Option Value
  | .allowed _ payload _ _ => some payload
  | _ => none

/-! ## Receipts -/

/-- what a receipt says of the decision: which it is, on what grounds, under which approval and with what result -/
def Outcome.Told (r : Receipt) : Outcome → Prop
  | .unknown | .disabled => r.decision = .denied
  | .escaped => r.decision = .failed
  | .denied risk reason =>
    r.decision = .denied ∧ r.risk = risk ∧ r.reason = some reason ∧ r.approvalId = none
  | .pending approvalId =>
    r.decision = .pendingApproval ∧ r.risk = .humanApproval ∧ r.reason = some "human_approval_required" ∧
      r.approvalId = some approvalId
  | .refused kind approvalId =>
    r.decision = .denied ∧ r.risk = .humanApproval ∧ r.reason = some kind.name ∧ r.approvalId = approvalId
  | .failed risk errorType => r.decision = .failed ∧ r.risk = risk ∧ r.errorType = some errorType
  | .allowed risk payload isError approvalId =>
    r.decision = .allowed ∧ r.risk = risk ∧ r.approvalId = approvalId ∧ r.resultSha256 = some (jsonHash L payload) ∧
      r.resultIsError = some isError

/-- a receipt of the call and its decision -/
structure Describes (c : Call) (o : Outcome) (r : Receipt) : Prop where
  connector : r.connectorId = c.connectorId
  tool : r.tool = c.toolName
  arguments : r.argumentsSha256 = jsonHash L c.arguments.value
  told : o.Told L r

/-- a call has left a receipt of its decision -/
def Audited (c : Call) (o : Outcome) (e : Ending) : Prop := ∃ r ∈ e.2, Describes L c o r

/-- every receipt of a call has the hash of its arguments -/
def Hashed (c : Call) (e : Ending) : Prop := ∀ r ∈ e.2, r.argumentsSha256 = jsonHash L c.arguments.value

/-! ## What a receipt needs -/

/-- the first receipt can be written -/
def World.Writes (w : World) : Prop := w.receiptError 0 = none

/-- a call that reaches its provider leaves a receipt: the session is not broken off, and where the receipt of a success
cannot be written that of a failure can -/
def Sessioned (w : World) (c : Call) (connector : Connector) (rule : Rule) : Prop :=
  if hasRoute connector c.toolName then
    match w.remote with
    | .broken => False
    | .raised _ => w.Writes
    | .answered payload _ => w.Writes ∨ dumpable true payload = true ∧ fits L rule payload = true ∧ w.receiptError 1 = none
  else w.Writes

/-- the approval ledger raises something that is no `ApprovalError` -/
def LedgerRaises (authority : Authority) (w : World) (c : Call) (file : File) : Prop :=
  let scope : Scope := ⟨authority.runId, c.connectorId, c.toolName⟩
  match c.approvalId with
  | none =>
    c.arguments.Unencodable ∨ ∃ record, prepareRequest L w.now defaultTtlSeconds scope c.arguments = .ok record ∧
      StoreRaises L w.disk w.now file (createIn record w.draws)
  | some id =>
    ((∃ i, identifier id "approval_id" = .ok i) ∧ scope.Named ∧ c.arguments.Unencodable) ∨
      ∃ e, prepareConsume L id scope c.arguments = .ok e ∧ StoreRaises L w.disk w.now file (consumeIn L w.now e)

/-- the approval that the call names is consumed -/
def Granted (authority : Authority) (w : World) (c : Call) (file : File) : Prop :=
  c.approvalId ≠ none ∧ ∃ approval, (askLedger L authority w c file).1 = .ok approval

/-- the receipt of a call that its rule allows -/
def Allowed (authority : Authority) (w : World) (c : Call) (connector : Connector) (rule : Rule) (file : File) : Prop :=
  match rule.risk with
  | .verifyFirst => w.Writes
  | .humanApproval =>
    (authority.approvalPath = true ∧ authority.humanApprovalToolsEnabled = true) ∧ ¬ LedgerRaises L authority w c file ∧
      ((Granted L authority w c file → Sessioned L w c connector rule) ∧ (¬ Granted L authority w c file → w.Writes))
  | _ => Sessioned L w c connector rule

/-- the receipt of a call of a known connector -/
def Ruled (authority : Authority) (w : World) (c : Call) (connector : Connector) (file : File) : Prop :=
  match (ruleOf connector c.toolName).filter fun rule => ruleRefusal L rule c = none with
  | none => w.Writes
  | some rule => Allowed L authority w c connector rule file

/-- what a call needs to leave a receipt of its decision -/
def Accounted (authority : Authority) (w : World) (c : Call) (file : File) : Prop :=
  ∃ connector, connectorById authority c.connectorId = some connector ∧ printableArguments c.arguments = true ∧
    Ruled L authority w c connector file

end Trail

/-! ## One exit at a time -/

section Exits

variable {L : Libs} {authority : Authority} {w : World} {c : Call} {connector : Connector} {rule : Rule} {file : File}

/-- raising without a receipt -/
theorem not_audited_nil (o : Outcome) (result : Except Raised Value) : ¬ Audited L c o (result, []) := by
  rintro ⟨r, hr, -⟩
  cases hr

/-- one receipt, which describes the decision -/
theorem audited_single {o : Outcome} {result : Except Raised Value} {r : Receipt} (h : Describes L c o r) :
    Audited L c o (result, [r]) := ⟨r, List.mem_singleton.2 rfl, h⟩

theorem refuseWith_audited {o : Outcome} {r : Receipt} {e : Raised} (h : Describes L c o r) :
    Audited L c o (refuseWith w r e) ↔ w.Writes := by
  rw [refuseWith, World.Writes]
  cases hw : w.receiptError 0 with
  | none => simpa using audited_single h
  | some type => simpa using not_audited_nil _ _

theorem failWith_audited {n : ℕ} {e : Raised} {errorType : String} :
    Audited L c (.failed rule.risk errorType) (failWith L w c rule n e errorType) ↔ w.receiptError n = none := by
  rw [failWith]
  cases hw : w.receiptError n with
  | none =>
    have htold : Outcome.Told L { receiptOf L c rule.risk .failed with errorType := some errorType }
        (.failed rule.risk errorType) := ⟨rfl, rfl, rfl⟩
    simpa using audited_single ⟨rfl, rfl, rfl, htold⟩
  | some type => simpa using not_audited_nil _ _

theorem callProvider_audited {approvalId : Option String} :
    Audited L c (providerOutcome L w c connector rule approvalId) (callProvider L w c connector rule approvalId) ↔
      Sessioned L w c connector rule := by
  simp only [callProvider, providerOutcome, Sessioned]
  cases hasRoute connector c.toolName with
  | false => exact failWith_audited
  | true =>
    cases w.remote with
    | broken => exact iff_of_false (not_audited_nil _ _) id
    | raised type => exact failWith_audited
    | answered payload isError =>
      simp only [World.Writes]
      cases dumpable true payload with
      | false => simpa using failWith_audited
      | true =>
        cases fits L rule payload with
        | false => simpa using failWith_audited
        | true =>
          cases hw : w.receiptError 0 with
          | none =>
            simp only [Bool.not_true, Bool.false_eq_true, if_false, if_true, true_or, iff_true]
            exact audited_single ⟨rfl, rfl, rfl, rfl, rfl, rfl, rfl, rfl⟩
          | some type => simpa using failWith_audited

theorem askLedger_fault : (askLedger L authority w c file).1 = .error .fault ↔ LedgerRaises L authority w c file := by
  simp only [askLedger, LedgerRaises]
  cases c.approvalId with
  | none => exact requestApproval_fault ⟨by decide, by decide⟩
  | some id => exact consume_fault

theorem callApproved_audited (hrisk : rule.risk = .humanApproval) :
    Audited L c (approvalOutcome L authority w c connector rule file) (callApproved L authority w c connector rule file).1 ↔
      Allowed L authority w c connector rule file := by
  simp only [Allowed, hrisk, ← askLedger_fault, Granted, callApproved, approvalOutcome]
  by_cases henabled : authority.approvalPath = true ∧ authority.humanApprovalToolsEnabled = true
  · simp only [henabled, Bool.not_true, Bool.or_self, Bool.false_eq_true, if_false, and_self, if_true, true_and]
    cases (askLedger L authority w c file).1 with
    | error e =>
      cases e with
      | fault => simpa using not_audited_nil _ _
      | approval kind text =>
        simp only [Except.error.injEq, reduceCtorEq, exists_false, and_false, not_false_eq_true, true_and, forall_const,
          false_imp_iff]
        refine refuseWith_audited ?_
        exact ⟨rfl, rfl, rfl, rfl, rfl, rfl, rfl⟩
    | ok approval =>
      cases happroval : c.approvalId with
      | none =>
        simp only [ne_eq, not_true_eq_false, false_and, not_false_eq_true, true_and, forall_const, false_imp_iff,
          reduceCtorEq, if_true]
        refine refuseWith_audited ?_
        exact ⟨rfl, rfl, rfl, rfl, rfl, rfl, rfl⟩
      | some id => simpa using callProvider_audited
  · rw [if_neg henabled, if_pos (by simpa [imp_iff_or_not, or_comm] using henabled)]
    exact iff_of_false (not_audited_nil _ _) fun h => henabled h.1

/-! ## The trail -/

theorem refuseWith_payload (r : Receipt) (e : Raised) : (refuseWith w r e).1.toOption = none := by
  rw [refuseWith]
  split_ifs <;> rfl

theorem failWith_payload (n : ℕ) (e : Raised) (errorType : String) : (failWith L w c rule n e errorType).1.toOption = none := by
  rw [failWith]
  split_ifs <;> rfl

theorem callProvider_payload (approvalId : Option String) :
    (callProvider L w c connector rule approvalId).1.toOption = (providerOutcome L w c connector rule approvalId).payload := by
  simp only [callProvider, providerOutcome]
  cases hasRoute connector c.toolName with
  | false => exact failWith_payload _ _ _
  | true =>
    cases w.remote with
    | broken => rfl
    | raised type => exact failWith_payload _ _ _
    | answered payload isError =>
      simp only [Bool.not_true, Bool.false_eq_true, if_false, if_true]
      cases dumpable true payload with
      | false => simpa [Outcome.payload] using failWith_payload _ _ _
      | true =>
        cases fits L rule payload with
        | false => simpa [Outcome.payload] using failWith_payload _ _ _
        | true =>
          cases w.receiptError 0 with
          | none => rfl
          | some type => simpa [Outcome.payload] using failWith_payload _ _ _

theorem callApproved_payload : (callApproved L authority w c connector rule file).1.1.toOption =
    (approvalOutcome L authority w c connector rule file).payload := by
  simp only [callApproved, approvalOutcome]
  by_cases henabled : authority.approvalPath = true ∧ authority.humanApprovalToolsEnabled = true
  · simp only [henabled, Bool.not_true, Bool.or_self, Bool.false_eq_true, if_false, and_self, if_true]
    cases (askLedger L authority w c file).1 with
    | error e =>
      cases e with
      | fault => rfl
      | approval kind text => exact refuseWith_payload _ _
    | ok approval =>
      cases c.approvalId with
      | none => exact refuseWith_payload _ _
      | some id => exact callProvider_payload _
  · rw [if_neg henabled, if_pos (by simpa [imp_iff_or_not, or_comm] using henabled)]
    rfl

/-- a call returns what comes of it -/
theorem callAllowedTool_payload : (callAllowedTool L authority w c file).1.1.toOption =
    (outcome L authority w c file).payload := by
  cases hconnector : connectorById authority c.connectorId with
  | none => simp [callAllowedTool, outcome, hconnector, Outcome.payload, Except.toOption]
  | some connector =>
    cases hprintable : printableArguments c.arguments with
    | false => simp [callAllowedTool, outcome, hconnector, hprintable, Outcome.payload, Except.toOption]
    | true =>
      cases hrule : ruleOf connector c.toolName with
      | none =>
        simp only [callAllowedTool, outcome, hconnector, hprintable, hrule]
        exact refuseWith_payload _ _
      | some rule =>
        cases hrefusal : ruleRefusal L rule c with
        | some reason =>
          simp only [callAllowedTool, outcome, hconnector, hprintable, hrule, hrefusal]
          exact refuseWith_payload _ _
        | none =>
          cases hrisk : rule.risk with
          | verifyFirst =>
            simp only [callAllowedTool, outcome, hconnector, hprintable, hrule, hrefusal, hrisk]
            exact refuseWith_payload _ _
          | humanApproval =>
            simp only [callAllowedTool, outcome, hconnector, hprintable, hrule, hrefusal, hrisk]
            exact callApproved_payload
          | read =>
            simp only [callAllowedTool, outcome, hconnector, hprintable, hrule, hrefusal, hrisk]
            exact callProvider_payload _
          | deny =>
            simp only [callAllowedTool, outcome, hconnector, hprintable, hrule, hrefusal, hrisk]
            exact callProvider_payload _

/-- **Audit.** A call returns a result exactly where its outcome is to be allowed with that result. It leaves a receipt of its
outcome, with the decision, its grounds and the approval, exactly where the connector is known, the arguments have a text,
the receipt can be written, and what it asks of the approval ledger and the provider ends in one of their own answers. -/
theorem audited_exact (L : Libs) (authority : Authority) (w : World) (c : Call) (file : File) :
    (callAllowedTool L authority w c file).1.1.toOption = (outcome L authority w c file).payload ∧
      (Audited L c (outcome L authority w c file) (callAllowedTool L authority w c file).1 ↔ Accounted L authority w c file) := by
  refine ⟨callAllowedTool_payload, ?_⟩
  cases hconnector : connectorById authority c.connectorId with
  | none =>
    simp only [callAllowedTool, Accounted, hconnector]
    exact iff_of_false (not_audited_nil _ _) (by simp)
  | some connector =>
    cases hprintable : printableArguments c.arguments with
    | false =>
      simp only [callAllowedTool, Accounted, hconnector, hprintable]
      exact iff_of_false (not_audited_nil _ _) (by simp)
    | true =>
      have haccounted : Accounted L authority w c file ↔ Ruled L authority w c connector file := by
        simp [Accounted, hconnector, hprintable]
      rw [haccounted]
      cases hrule : ruleOf connector c.toolName with
      | none =>
        simp only [callAllowedTool, outcome, Ruled, hconnector, hprintable, hrule, Option.filter_none]
        refine refuseWith_audited ?_
        exact ⟨rfl, rfl, rfl, rfl, rfl, rfl, rfl⟩
      | some rule =>
        cases hrefusal : ruleRefusal L rule c with
        | some reason =>
          simp only [callAllowedTool, outcome, Ruled, hconnector, hprintable, hrule, hrefusal, Option.filter_some, reduceCtorEq]
          refine refuseWith_audited ?_
          exact ⟨rfl, rfl, rfl, rfl, rfl, rfl, rfl⟩
        | none =>
          have hruled : Ruled L authority w c connector file ↔ Allowed L authority w c connector rule file := by
            rw [Ruled, hrule, Option.filter_some, if_pos (by simpa using hrefusal)]
          rw [hruled]
          cases hrisk : rule.risk with
          | verifyFirst =>
            simp only [callAllowedTool, outcome, Allowed, hconnector, hprintable, hrule, hrefusal, hrisk]
            refine refuseWith_audited ?_
            exact ⟨rfl, rfl, rfl, rfl, rfl, rfl, rfl⟩
          | humanApproval =>
            simp only [callAllowedTool, outcome, hconnector, hprintable, hrule, hrefusal, hrisk]
            exact callApproved_audited hrisk
          | read =>
            simp only [callAllowedTool, outcome, Allowed, hconnector, hprintable, hrule, hrefusal, hrisk]
            exact callProvider_audited
          | deny =>
            simp only [callAllowedTool, outcome, Allowed, hconnector, hprintable, hrule, hrefusal, hrisk]
            exact callProvider_audited

/-- some library -/
def identityHash : Libs := ⟨⟨fun _ => "0.5", id⟩, id⟩

/-- a call of the connector `github` for repositories -/
def searchCall (query : String) : Call := ⟨"github", "search", { members := [("q", .str query)] }, none⟩

/-- a provider that answers, and a file system without errors -/
def calm : World := { remote := .answered (.dict []) false, receiptError := fun _ => none, now := 0, draws := tally }

/-- a call of a connector that the run does not have leaves no receipt at all -/
theorem unknown_connector :
    ¬ Audited identityHash (searchCall "lean") (outcome identityHash ⟨"run-1", [], true, true⟩ calm (searchCall "lean") .absent)
      (callAllowedTool identityHash ⟨"run-1", [], true, true⟩ calm (searchCall "lean") .absent).1 := by
  rintro ⟨r, hr, -⟩
  cases hr

/-! ## Hashes -/

theorem refuseWith_hashed {r : Receipt} (e : Raised) (h : r.argumentsSha256 = jsonHash L c.arguments.value) :
    Hashed L c (refuseWith w r e) := by
  rw [refuseWith]
  split_ifs
  · simpa [Hashed] using h
  · simp [Hashed]

theorem failWith_hashed (n : ℕ) (e : Raised) (errorType : String) : Hashed L c (failWith L w c rule n e errorType) := by
  rw [failWith]
  split_ifs
  · simp [Hashed, receiptOf]
  · simp [Hashed]

theorem callProvider_hashed (approvalId : Option String) : Hashed L c (callProvider L w c connector rule approvalId) := by
  rw [callProvider]
  split_ifs
  · exact failWith_hashed _ _ _
  · cases w.remote with
    | broken => simp [Hashed]
    | raised type => exact failWith_hashed _ _ _
    | answered payload isError =>
      simp only
      split_ifs
      · exact failWith_hashed _ _ _
      · exact failWith_hashed _ _ _
      · cases w.receiptError 0 with
        | none => simp [Hashed, receiptOf]
        | some type => exact failWith_hashed _ _ _

theorem callApproved_hashed : Hashed L c (callApproved L authority w c connector rule file).1 := by
  rw [callApproved]
  split
  · simp [Hashed]
  · simp only
    cases (askLedger L authority w c file).1 with
    | error e =>
      cases e with
      | fault => simp [Hashed]
      | approval kind text => exact refuseWith_hashed _ rfl
    | ok approval =>
      simp only
      split_ifs
      · exact refuseWith_hashed _ rfl
      · exact callProvider_hashed _

theorem callAllowedTool_hashed (authority : Authority) (w : World) (c : Call) (file : File) :
    Hashed L c (callAllowedTool L authority w c file).1 := by
  rw [callAllowedTool]
  cases connectorById authority c.connectorId with
  | none => simp [Hashed]
  | some connector =>
    simp only
    split_ifs
    · simp [Hashed]
    · cases ruleOf connector c.toolName with
      | none => exact refuseWith_hashed _ rfl
      | some rule =>
        simp only
        cases ruleRefusal L rule c with
        | some reason => exact refuseWith_hashed _ rfl
        | none =>
          cases rule.risk with
          | verifyFirst => exact refuseWith_hashed _ rfl
          | humanApproval => exact callApproved_hashed
          | read => exact callProvider_hashed _
          | deny => exact callProvider_hashed _

/-- what the ledger answers is bound to the canonical text of the arguments -/
theorem askLedger_hash {approval : PublicReceipt} (h : (askLedger L authority w c file).1 = .ok approval) :
    approval.argumentsSha256 = L.sha256 (canonicalText L c.arguments.value) := by
  simp only [askLedger] at h
  cases hid : c.approvalId with
  | none => exact requestApproval_hash (by simpa [hid] using h)
  | some id => exact consume_hash (by simpa [hid] using h)

/-- **Join.** The hash in every receipt of a call is the one bound into the request it has made or consumed exactly where every
character of its arguments is at most `~`, as the gateway hashes a text in ASCII and the ledger does not. -/
theorem hashes_join_exact {L : Libs} {authority : Authority} {w : World} {c : Call} {file : File} {approval : PublicReceipt}
    (happroval : (askLedger L authority w c file).1 = .ok approval)
    (hsha : L.sha256 (receiptText L c.arguments.value) = L.sha256 (canonicalText L c.arguments.value) →
      receiptText L c.arguments.value = canonicalText L c.arguments.value)
    {r : Receipt} (hr : r ∈ (callAllowedTool L authority w c file).1.2) :
    r.argumentsSha256 = approval.argumentsSha256 ↔ plain c.arguments.value = true := by
  rw [callAllowedTool_hashed authority w c file r hr, askLedger_hash happroval, jsonHash]
  calc L.sha256 (receiptText L c.arguments.value) = L.sha256 (canonicalText L c.arguments.value)
      ↔ receiptText L c.arguments.value = canonicalText L c.arguments.value := ⟨hsha, congrArg L.sha256⟩
    _ ↔ plain (normalize c.arguments.value) = true := dumps_compact_iff L.text _
    _ ↔ plain c.arguments.value = true := by rw [plain_normalize]

/-- a run whose searches need an approval -/
def gated : Authority := ⟨"run-1", [{ id := "github", toolPolicy := [("search", { risk := .humanApproval })] }], true, true⟩

/-- the one receipt of a search for plain text can be joined to its request -/
theorem plain_search_joined :
    ∃ approval, (askLedger identityHash gated calm (searchCall "lean") .absent).1 = .ok approval ∧
      ∃ r ∈ (callAllowedTool identityHash gated calm (searchCall "lean") .absent).1.2,
        r.argumentsSha256 = approval.argumentsSha256 := by
  refine ⟨_, rfl, _, List.mem_singleton.2 rfl, ?_⟩
  exact (@hashes_join_exact identityHash gated calm (searchCall "lean") .absent _ rfl (fun h => h) _
    (List.mem_singleton.2 rfl)).2 (by decide)

/-- that of a search for an accented letter cannot -/
theorem accented_search_apart :
    ∃ approval, (askLedger identityHash gated calm (searchCall "é") .absent).1 = .ok approval ∧
      ∃ r ∈ (callAllowedTool identityHash gated calm (searchCall "é") .absent).1.2,
        r.argumentsSha256 ≠ approval.argumentsSha256 := by
  refine ⟨_, rfl, _, List.mem_singleton.2 rfl, ?_⟩
  decide

end Exits

end Rally.Gateway
