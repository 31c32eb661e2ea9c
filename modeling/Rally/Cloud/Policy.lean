/-
The checks a hosted call must pass before and after it reaches the provider (`_enforce_tool_policy`, `_route` and
`_contains_secret` of `cloud/hosted_connector_execution.py`).

- `RuleMet`: what a committed rule asks of the arguments, constraint by constraint.
- `enforceToolPolicy_ok`: a call that passes has a committed read rule, and meets all of it.
- `containsSecret_iff`: a value contains a private text where one of its strings, at any depth, does.
-/
import Rally.Cloud.Material
import Rally.Cloud.Presets

namespace Rally.Cloud

open Py

/-! ## Arguments -/

def maxArgumentBytes : ℕ := 64 * 1024

def maxResultBytes : ℕ := 256 * 1024

/-- `value in container` -/
def isIn (value container : Value) : Except Err Bool :=
  match container, value with
  | .list xs, v => .ok (xs.any fun x => Value.eq v x)
  | .str s, .str t => .ok (decide (t.toList <:+: s.toList))
  | .dict kvs, v => v.key.map fun k => kvs.any fun p => Key.str p.1 = k
  | _, _ => .error .typeError

/-- an `int`, which `True` and `False` are as well -/
def intOf : Value → Option ℤ
  | .int n => some n
  | .bool b => some (if b then 1 else 0)
  | _ => none

/-- the value is no longer than the constraint allows -/
def checkLength (constraint : List (String × Value)) (value : Value) : Except Exn Unit :=
  match field constraint "max_length" with
  | .none => .ok ()
  | maxLength =>
    match intOf maxLength, value with
    | some n, .str s => if n < s.length then .error (hosted .argumentInvalid) else .ok ()
    | _, _ => .error (hosted .argumentInvalid)

/-- the value is one that the constraint allows -/
def checkAllowed (constraint : List (String × Value)) (value : Value) : Except Exn Unit :=
  match field constraint "allowed_values" with
  | .none => .ok ()
  | allowed => do
    let found ← builtin (isIn value allowed)
    if found then .ok () else .error (hosted .argumentNotAllowed)

/-- the checks on one argument -/
def checkArgument (arguments : List (String × Value)) (rule : String × Value) : Except Exn Unit :=
  match rule.2 with
  | .dict constraint =>
    match arguments.lookup rule.1 with
    | none =>
      if field constraint "required" = .bool true then .error (hosted .argumentRequired) else .ok ()
    | some value => do
      checkLength constraint value
      checkAllowed constraint value
  | _ => .error (hosted .safePresetUnavailable)

/-- the checks on one argument after the other -/
def checkArguments (arguments : List (String × Value)) : List (String × Value) → Except Exn Unit
  | [] => .ok ()
  | rule :: rules => do
    checkArgument arguments rule
    checkArguments arguments rules

/-! ## The policy -/

/-- the policy of the connector -/
def committedPolicy (item : HostedConnector) (workflowIds : List String) : Option ToolPolicy :=
  buildConnectorPreset item.id item.safePreset (if item.id = "n8n" then some workflowIds else none)

/-- the policy, and the constraints of its rule for a tool that only reads -/
def readRule (item : HostedConnector) (toolName : String) (workflowIds : List String) :
    Except Exn (ToolPolicy × List (String × Value)) :=
  match committedPolicy item workflowIds with
  | none => .error (hosted .safePresetUnavailable)
  | some preset =>
    match preset.lookup toolName with
    | some (.dict rule) =>
      if field rule "risk" ≠ .str "read" then .error (hosted .humanApprovalRequired)
      else
        match field rule "constraints" with
        | .dict constraints => .ok (preset, constraints)
        | _ => .error (hosted .safePresetUnavailable)
    | _ => .error (hosted .toolNotAllowed)

/-- the constraints on single arguments -/
def argumentRules (constraints : List (String × Value)) : Except Exn (List (String × Value)) :=
  match (constraints.lookup "arguments").getD (.dict []) with
  | .dict rules => .ok rules
  | _ => .error (hosted .safePresetUnavailable)

/-- a size among the constraints -/
def sizeCap (constraints : List (String × Value)) (name : String) (default : ℕ) : Except Exn ℤ :=
  match (constraints.lookup name).getD (.int default) with
  | .int n => .ok n
  | _ => .error (hosted .safePresetUnavailable)

/-- an error where the condition holds -/
def refuseIf (p : Prop) [Decidable p] (code : Code) : Except Exn Unit := if p then .error (hosted code) else .ok ()

/-- `_enforce_tool_policy`: the text of the arguments, the limit of the result and the hash of the policy -/
def enforceToolPolicy (L : Libs) (item : HostedConnector) (toolName : String) (arguments : List (String × Value))
    (workflowIds : List String) : Except Exn (String × ℕ × String) := do
  refuseIf (¬ isToolName toolName) .toolInvalid
  let (preset, constraints) ← readRule item toolName workflowIds
  let rules ← argumentRules constraints
  refuseIf (rules ≠ [] ∧ ¬ ∀ a ∈ arguments, a.1 ∈ rules.map Prod.fst) .argumentNotAllowed
  checkArguments arguments rules
  let encoded ← canonicalJson L (.json (.dict arguments))
  let argumentCap ← sizeCap constraints "max_argument_bytes" maxArgumentBytes
  refuseIf (min argumentCap maxArgumentBytes < encoded.utf8ByteSize) .argumentsTooLarge
  let resultCap ← sizeCap constraints "max_result_bytes" maxResultBytes
  refuseIf (resultCap < 1) .safePresetUnavailable
  let policy ← canonicalJson L (.json (.dict preset))
  .ok (encoded, min resultCap.toNat maxResultBytes, L.sha256 policy)

/-- `_route`: the endpoint and the tool's name there -/
def route (item : HostedConnector) (material : RuntimeMaterial) (toolName : String) :
    Except Exn (String × String) :=
  if item.serviceEndpoints = [] then .ok (material.endpoint, toolName)
  else
    let service := toolName.toList.takeWhile (· ≠ '.')
    let rawName := (toolName.toList.drop service.length).drop 1
    match item.serviceEndpoints.lookup (String.ofList service) with
    | some endpoint => if rawName = [] then .error (hosted .toolNotAllowed) else .ok (endpoint, String.ofList rawName)
    | none => .error (hosted .toolNotAllowed)

/-! ## What a rule asks -/

/-- what a constraint asks of an argument, `none` for one that is not given -/
structure ArgumentMet (constraint : List (String × Value)) (value : Option Value) : Prop where
  required : constraint.lookup "required" = some (.bool true) → value.isSome
  length : ∀ n v, constraint.lookup "max_length" = some (.int n) → value = some v →
    ∃ s, v = .str s ∧ (s.length : ℤ) ≤ n
  allowed : ∀ vs v, constraint.lookup "allowed_values" = some (.list vs) → value = some v →
    ∃ w ∈ vs, Value.eq v w = true

/-- what the constraints of a rule ask of the arguments, of the given size: where single arguments are constrained no
others are given, each meets its own constraint, and all together are small -/
structure RuleMet (constraints : List (String × Value)) (arguments : List (String × Value)) (bytes : ℕ) : Prop where
  listed : ∀ rules, constraints.lookup "arguments" = some (.dict rules) → rules ≠ [] →
    ∀ a ∈ arguments, a.1 ∈ rules.map Prod.fst
  each : ∀ rules, constraints.lookup "arguments" = some (.dict rules) → ∀ rule ∈ rules,
    ∃ constraint, rule.2 = .dict constraint ∧ ArgumentMet constraint (arguments.lookup rule.1)
  small : bytes ≤ maxArgumentBytes
  capped : ∀ n, constraints.lookup "max_argument_bytes" = some (.int n) → (bytes : ℤ) ≤ n

section Rules

variable {L : Libs} {arguments : List (String × Value)}

theorem field_of_lookup {fields : List (String × Value)} {k : String} {v : Value} (h : fields.lookup k = some v) :
    field fields k = v := by
  unfold field
  rw [h]
  rfl

theorem checkLength_ok {constraint : List (String × Value)} {value : Value} (h : checkLength constraint value = .ok ())
    {n : ℤ} (hn : constraint.lookup "max_length" = some (.int n)) : ∃ s, value = .str s ∧ (s.length : ℤ) ≤ n := by
  unfold checkLength at h
  rw [field_of_lookup hn] at h
  cases value with
  | str s =>
    simp only [intOf] at h
    split_ifs at h with hlong
    exact ⟨s, rfl, not_lt.1 hlong⟩
  | _ => cases h

theorem checkAllowed_ok {constraint : List (String × Value)} {value : Value}
    (h : checkAllowed constraint value = .ok ()) {vs : List Value}
    (hvs : constraint.lookup "allowed_values" = some (.list vs)) : ∃ w ∈ vs, Value.eq value w = true := by
  unfold checkAllowed at h
  rw [field_of_lookup hvs] at h
  obtain ⟨found, hfound, h⟩ := bind_ok h
  split_ifs at h with hin
  have heq := mapError_ok hfound
  simp only [isIn, Except.ok.injEq] at heq
  rw [hin] at heq
  exact List.any_eq_true.1 heq

theorem checkArgument_ok {rule : String × Value} (h : checkArgument arguments rule = .ok ()) :
    ∃ constraint, rule.2 = .dict constraint ∧ ArgumentMet constraint (arguments.lookup rule.1) := by
  unfold checkArgument at h
  split at h
  · rename_i constraint hdict
    refine ⟨constraint, hdict, ?_⟩
    split at h
    · rename_i hmissing
      rw [hmissing]
      split_ifs at h with hrequired
      exact ⟨fun hr => absurd (field_of_lookup hr) hrequired, (fun _ _ _ hv => nomatch hv), (fun _ _ _ hv => nomatch hv)⟩
    · rename_i value hgiven
      rw [hgiven]
      obtain ⟨_, hlength, hallowed⟩ := bind_ok h
      refine ⟨fun _ => rfl, fun n v hn hv => ?_, fun vs v hvs hv => ?_⟩
      · cases hv
        exact checkLength_ok hlength hn
      · cases hv
        exact checkAllowed_ok hallowed hvs
  · cases h

theorem checkArguments_ok {rules : List (String × Value)} (h : checkArguments arguments rules = .ok ()) :
    ∀ rule ∈ rules, ∃ constraint, rule.2 = .dict constraint ∧ ArgumentMet constraint (arguments.lookup rule.1) := by
  induction rules with
  | nil => exact fun rule hrule => absurd hrule List.not_mem_nil
  | cons first rules ih =>
    obtain ⟨_, hfirst, hrest⟩ := bind_ok h
    intro rule hrule
    rcases List.mem_cons.1 hrule with rfl | hrule
    · exact checkArgument_ok hfirst
    · exact ih hrest rule hrule

theorem readRule_ok {item : HostedConnector} {toolName : String} {ids : List String} {preset : ToolPolicy}
    {constraints : List (String × Value)} (h : readRule item toolName ids = .ok (preset, constraints)) :
    committedPolicy item ids = some preset ∧ ∃ rule, preset.lookup toolName = some (.dict rule) ∧
      field rule "risk" = .str "read" ∧ field rule "constraints" = .dict constraints := by
  unfold readRule at h
  split at h
  · cases h
  · rename_i committed hcommitted
    split at h
    · rename_i rule hrule
      split at h
      · cases h
      · rename_i hrisk
        split at h
        · rename_i found hconstraints
          cases h
          exact ⟨hcommitted, rule, hrule, not_not.1 hrisk, hconstraints⟩
        · cases h
    · cases h

theorem argumentRules_ok {constraints rules given : List (String × Value)} (h : argumentRules constraints = .ok rules)
    (hgiven : constraints.lookup "arguments" = some (.dict given)) : rules = given := by
  unfold argumentRules at h
  rw [hgiven] at h
  cases h
  rfl

theorem sizeCap_ok {constraints : List (String × Value)} {name : String} {default : ℕ} {cap n : ℤ}
    (h : sizeCap constraints name default = .ok cap) (hn : constraints.lookup name = some (.int n)) : cap = n := by
  unfold sizeCap at h
  rw [hn] at h
  cases h
  rfl

theorem refuseIf_ok {p : Prop} [Decidable p] {code : Code} (h : refuseIf p code = .ok ()) : ¬ p := by
  unfold refuseIf at h
  split_ifs at h with hp
  exact hp

/-- what a passed policy check says: the committed rule of the tool, the arguments, and the limit of the result -/
structure Enforced (L : Libs) (item : HostedConnector) (toolName : String) (arguments : List (String × Value))
    (preset : ToolPolicy) (constraints : List (String × Value)) (encoded : String) (resultCap : ℕ) (policy : String) :
    Prop where
  rule : ∃ rule, preset.lookup toolName = some (.dict rule) ∧ field rule "risk" = .str "read" ∧
    field rule "constraints" = .dict constraints
  text : canonicalJson L (.json (.dict arguments)) = .ok encoded
  met : RuleMet constraints arguments encoded.utf8ByteSize
  bounded : resultCap ≤ maxResultBytes
  capped : ∀ n, constraints.lookup "max_result_bytes" = some (.int n) → (resultCap : ℤ) ≤ n
  hash : ∃ text, canonicalJson L (.json (.dict preset)) = .ok text ∧ policy = L.sha256 text

/-- **The policy check.** A call that passes names a tool of the committed preset with risk `read`, and its arguments
meet every constraint of its rule. -/
theorem enforceToolPolicy_ok {item : HostedConnector} {toolName encoded policy : String} {ids : List String}
    {resultCap : ℕ} (h : enforceToolPolicy L item toolName arguments ids = .ok (encoded, resultCap, policy)) :
    ∃ preset constraints, committedPolicy item ids = some preset ∧
      Enforced L item toolName arguments preset constraints encoded resultCap policy := by
  obtain ⟨_, -, h⟩ := bind_ok h
  obtain ⟨⟨preset, constraints⟩, hrule, h⟩ := bind_ok h
  obtain ⟨rules, hrules, h⟩ := bind_ok h
  obtain ⟨_, hlisted, h⟩ := bind_ok h
  obtain ⟨_, hchecked, h⟩ := bind_ok h
  obtain ⟨text, htext, h⟩ := bind_ok h
  obtain ⟨argumentCap, hargumentCap, h⟩ := bind_ok h
  obtain ⟨_, hsmall, h⟩ := bind_ok h
  obtain ⟨cap, hcap, h⟩ := bind_ok h
  obtain ⟨_, hpositive, h⟩ := bind_ok h
  obtain ⟨policyText, hpolicy, h⟩ := bind_ok h
  cases h
  obtain ⟨hcommitted, hread⟩ := readRule_ok hrule
  have hsize := not_lt.1 (refuseIf_ok hsmall)
  refine ⟨preset, constraints, hcommitted, hread, htext, ?_, min_le_right _ _, fun n hn => ?_, policyText, hpolicy, rfl⟩
  · refine ⟨fun given hgiven hne => ?_, fun given hgiven => ?_, ?_, fun n hn => ?_⟩
    · obtain rfl := argumentRules_ok hrules hgiven
      exact not_not.1 fun hunlisted => refuseIf_ok hlisted ⟨hne, hunlisted⟩
    · obtain rfl := argumentRules_ok hrules hgiven
      exact checkArguments_ok hchecked
    · exact Int.ofNat_le.1 (hsize.trans (min_le_right _ _))
    · obtain rfl := sizeCap_ok hargumentCap hn
      exact hsize.trans (min_le_left _ _)
  · obtain rfl := sizeCap_ok hcap hn
    have hpos := not_lt.1 (refuseIf_ok hpositive)
    have hmin : min cap.toNat maxResultBytes ≤ cap.toNat := min_le_left _ _
    omega

end Rules

/-! ## Private texts in a result -/

mutual
/-- `_contains_secret` -/
def containsSecret (privateValues : List String) : Value → Bool
  | .str s => privateValues.any fun secret => decide (secret.toList <:+: s.toList)
  | .list xs => containsSecretList privateValues xs
  | .dict kvs => containsSecretDict privateValues kvs
  | _ => false
def containsSecretList (privateValues : List String) : List Value → Bool
  | [] => false
  | x :: xs => containsSecret privateValues x || containsSecretList privateValues xs
def containsSecretDict (privateValues : List String) : List (String × Value) → Bool
  | [] => false
  | (k, x) :: kvs =>
    privateValues.any (fun secret => decide (secret.toList <:+: k.toList)) || containsSecret privateValues x ||
      containsSecretDict privateValues kvs
end

/-- a string somewhere in a value: the value itself, in a list, a key of a dict or a value of one -/
inductive HasText : Value → String → Prop where
  | here (s : String) : HasText (.str s) s
  | item {xs : List Value} {x : Value} {s : String} (hx : x ∈ xs) (h : HasText x s) : HasText (.list xs) s
  | key {kvs : List (String × Value)} {k : String} {x : Value} (hk : (k, x) ∈ kvs) : HasText (.dict kvs) k
  | member {kvs : List (String × Value)} {k : String} {x : Value} {s : String} (hk : (k, x) ∈ kvs)
      (h : HasText x s) : HasText (.dict kvs) s

mutual
theorem containsSecret_iff {privateValues : List String} : ∀ v : Value, containsSecret privateValues v = true ↔
    ∃ s, HasText v s ∧ ∃ secret ∈ privateValues, secret.toList <:+: s.toList
  | .str s => by
    simp only [containsSecret, List.any_eq_true, decide_eq_true_eq]
    constructor
    · exact fun h => ⟨s, .here s, h⟩
    · rintro ⟨t, ht, h⟩
      cases ht
      exact h
  | .list xs => by
    rw [containsSecret, containsSecretList_iff]
    constructor
    · rintro ⟨x, hx, s, hs, h⟩
      exact ⟨s, .item hx hs, h⟩
    · rintro ⟨s, hs, h⟩
      cases hs with
      | item hx hs => exact ⟨_, hx, s, hs, h⟩
  | .dict kvs => by
    rw [containsSecret, containsSecretDict_iff]
    constructor
    · rintro ⟨p, hp, h | ⟨s, hs, h⟩⟩
      · exact ⟨p.1, .key hp, h⟩
      · exact ⟨s, .member hp hs, h⟩
    · rintro ⟨s, hs, h⟩
      cases hs with
      | key hk => exact ⟨_, hk, .inl h⟩
      | member hk hs => exact ⟨_, hk, .inr ⟨s, hs, h⟩⟩
  | .none => iff_of_false (by simp [containsSecret]) fun ⟨_, hs, _⟩ => nomatch hs
  | .bool _ => iff_of_false (by simp [containsSecret]) fun ⟨_, hs, _⟩ => nomatch hs
  | .int _ => iff_of_false (by simp [containsSecret]) fun ⟨_, hs, _⟩ => nomatch hs
  | .float _ => iff_of_false (by simp [containsSecret]) fun ⟨_, hs, _⟩ => nomatch hs
theorem containsSecretList_iff {privateValues : List String} : ∀ xs : List Value,
    containsSecretList privateValues xs = true ↔
      ∃ x ∈ xs, ∃ s, HasText x s ∧ ∃ secret ∈ privateValues, secret.toList <:+: s.toList
  | [] => by simp [containsSecretList]
  | x :: xs => by
    rw [containsSecretList, Bool.or_eq_true, containsSecret_iff x, containsSecretList_iff xs]
    simp only [List.mem_cons, exists_eq_or_imp]
theorem containsSecretDict_iff {privateValues : List String} : ∀ kvs : List (String × Value),
    containsSecretDict privateValues kvs = true ↔ ∃ p ∈ kvs,
      (∃ secret ∈ privateValues, secret.toList <:+: p.1.toList) ∨
        ∃ s, HasText p.2 s ∧ ∃ secret ∈ privateValues, secret.toList <:+: s.toList
  | [] => by simp [containsSecretDict]
  | (k, x) :: kvs => by
    rw [containsSecretDict, Bool.or_eq_true, Bool.or_eq_true, containsSecret_iff x, containsSecretDict_iff kvs]
    simp only [List.mem_cons, exists_eq_or_imp, List.any_eq_true, decide_eq_true_eq]
end

/-- no string of the value has one of the texts in it -/
def Clean (privateValues : List String) (v : Value) : Prop :=
  ∀ s, HasText v s → ∀ secret ∈ privateValues, ¬ secret.toList <:+: s.toList

end Rally.Cloud
