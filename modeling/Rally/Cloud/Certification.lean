/-
The certification of a connection (`_validate_certification` of `cloud/credential_vault.py`): what a connector has shown
before its connection is called ready.

- `LiveCertificate`: what the certificate of a ready connection says.
- `validate_ready`: a ready status gets through only with such a certificate.
- `normalize_idem`: a manifest that was put in order stays as it is.
-/
import Rally.Cloud.Record

namespace Rally.Cloud

/-! ## Certificates -/

/-- the part of a record that certifies its tools -/
structure Certificate where
  toolCount : ℤ := 0
  canaryTool : Option String := none
  toolSchemaSha256 : Option String := none
  proofVersion : Option String := none
  certifiedTools : List (String × String) := []
  certifiedManifestSha256 : Option String := none
deriving DecidableEq, Repr

/-- a status that a connection is given, with the certificate for it -/
structure Verdict where
  status : String
  errorCode : Option String := none
  certificate : Certificate := {}
deriving DecidableEq, Repr

namespace ConnectionRecord

def certificate (record : ConnectionRecord) : Certificate where
  toolCount := record.toolCount
  canaryTool := record.canaryTool
  toolSchemaSha256 := record.toolSchemaSha256
  proofVersion := record.proofVersion
  certifiedTools := record.certifiedTools
  certifiedManifestSha256 := record.certifiedManifestSha256

def withCertificate (record : ConnectionRecord) (c : Certificate) : ConnectionRecord :=
  { record with
    toolCount := c.toolCount
    canaryTool := c.canaryTool
    toolSchemaSha256 := c.toolSchemaSha256
    proofVersion := c.proofVersion
    certifiedTools := c.certifiedTools
    certifiedManifestSha256 := c.certifiedManifestSha256 }

end ConnectionRecord

/-- the checks of `_validate_certification` on a ready status -/
def certifies (L : Libs) (tools : List (String × String)) (c : Certificate) : Bool :=
  match c.canaryTool, c.toolSchemaSha256, c.certifiedManifestSha256 with
  | some canary, some schema, some manifest =>
    !decide (c.toolCount < 1) && decide (c.toolCount = tools.length) && isToolName canary && isSha256 schema &&
      decide (tools.lookup canary = some schema) && decide (c.proofVersion = some certificationSchema) &&
      isSha256 manifest && decide ((certifiedManifestSha256 L tools).toOption = some manifest)
  | _, _, _ => false

/-- `_validate_certification` -/
def validateCertification (L : Libs) (v : Verdict) : Except VaultError (List (String × String)) :=
  match normalizeCertifiedTools v.certificate.certifiedTools with
  | .error e => .error e
  | .ok tools =>
    if v.status ≠ "ready" then .ok [] else if certifies L tools v.certificate then .ok tools else .error .error

/-- what is stored of a certificate, with its tools in order: nothing unless the status is ready -/
def Verdict.kept (v : Verdict) (tools : List (String × String)) : Certificate :=
  if v.status = "ready" then { v.certificate with certifiedTools := tools } else {}

/-- what the certificate of a ready connection says -/
structure LiveCertificate (L : Libs) (c : Certificate) : Prop where
  proof : c.proofVersion = some certificationSchema
  nonempty : c.certifiedTools ≠ []
  distinct : (c.certifiedTools.map Prod.fst).Nodup
  named : ∀ tool ∈ c.certifiedTools, isToolName tool.1 = true
  counted : c.toolCount = c.certifiedTools.length
  canary : ∃ tool ∈ c.certifiedTools, c.canaryTool = some tool.1 ∧ c.toolSchemaSha256 = some tool.2
  manifest : ∃ hash, c.certifiedManifestSha256 = some hash ∧ certifiedManifestSha256 L c.certifiedTools = .ok hash

/-! ## Manifests in order -/

instance : Std.Total ToolLe where
  total p q := by
    rcases lt_trichotomy p.1 q.1 with h | h | h
    · exact .inl (.inl h)
    · exact (le_total p.2 q.2).imp (fun h' => .inr ⟨h, h'⟩) fun h' => .inr ⟨h.symm, h'⟩
    · exact .inr (.inl h)

instance : IsTrans (String × String) ToolLe where
  trans p q r hpq hqr := by
    rcases hpq with hpq | ⟨hpq, hpq'⟩
    · rcases hqr with hqr | ⟨hqr, -⟩
      · exact .inl (hpq.trans hqr)
      · exact .inl (hqr ▸ hpq)
    · rcases hqr with hqr | ⟨hqr, hqr'⟩
      · exact .inl (hpq.symm ▸ hqr)
      · exact .inr ⟨hpq.trans hqr, hpq'.trans hqr'⟩

section Manifest

variable {L : Libs} {v : Verdict} {tools normalized : List (String × String)}

theorem normalize_ok (h : normalizeCertifiedTools tools = .ok normalized) :
    normalized = tools.insertionSort ToolLe ∧ tools.length ≤ 128 ∧
      (∀ tool ∈ tools, (isToolName tool.1 && isSha256 tool.2) = true) ∧ (normalized.map Prod.fst).Nodup := by
  unfold normalizeCertifiedTools at h
  simp only at h
  split_ifs at h with hinvalid hdistinct
  cases h
  obtain ⟨hlen, hvalid⟩ := not_or.1 hinvalid
  exact ⟨rfl, not_lt.1 hlen, List.all_eq_true.1 (not_not.1 hvalid), hdistinct⟩

/-- a manifest in order is put in the same order again -/
theorem normalize_idem (h : normalizeCertifiedTools tools = .ok normalized) :
    normalizeCertifiedTools normalized = .ok normalized := by
  obtain ⟨rfl, hlen, hvalid, hdistinct⟩ := normalize_ok h
  have hperm : (tools.insertionSort ToolLe).Perm tools := List.perm_insertionSort ToolLe tools
  have hsorted : (tools.insertionSort ToolLe).insertionSort ToolLe = tools.insertionSort ToolLe :=
    (List.pairwise_insertionSort ToolLe tools).insertionSort_eq
  have hvalid' : (tools.insertionSort ToolLe).all (fun tool => isToolName tool.1 && isSha256 tool.2) = true :=
    List.all_eq_true.2 fun tool htool => hvalid tool (hperm.mem_iff.1 htool)
  unfold normalizeCertifiedTools
  rw [if_neg (not_or.2 ⟨not_lt.2 (hperm.length_eq.trans_le hlen), not_not.2 hvalid'⟩)]
  simp only
  rw [hsorted, if_pos hdistinct]

theorem normalize_nil : normalizeCertifiedTools [] = .ok [] := by decide

/-! ## Verdicts -/

/-- only a ready status keeps tools, and these are in order -/
theorem validate_tools (h : validateCertification L v = .ok tools) : normalizeCertifiedTools tools = .ok tools := by
  unfold validateCertification at h
  split at h
  · cases h
  · rename_i normalized hnormalized
    split_ifs at h
    · cases h
      exact normalize_nil
    · cases h
      exact normalize_idem hnormalized

theorem certifies_iff {c : Certificate} (h : certifies L tools c = true) :
    ∃ canary schema manifest, c.canaryTool = some canary ∧ c.toolSchemaSha256 = some schema ∧
      c.certifiedManifestSha256 = some manifest ∧ ¬ c.toolCount < 1 ∧ c.toolCount = tools.length ∧
      tools.lookup canary = some schema ∧ c.proofVersion = some certificationSchema ∧
      certifiedManifestSha256 L tools = .ok manifest := by
  unfold certifies at h
  split at h
  · rename_i canary schema manifest hcanary hschema hmanifest
    simp only [Bool.and_eq_true, Bool.not_eq_true', decide_eq_false_iff_not, decide_eq_true_eq] at h
    obtain ⟨⟨⟨⟨⟨⟨⟨hone, hcount⟩, -⟩, -⟩, hlookup⟩, hproof⟩, -⟩, hhash⟩ := h
    refine ⟨canary, schema, manifest, hcanary, hschema, hmanifest, hone, hcount, hlookup, hproof, ?_⟩
    cases hm : certifiedManifestSha256 L tools with
    | error e =>
      rw [hm] at hhash
      cases hhash
    | ok hash =>
      rw [hm] at hhash
      cases hhash
      rfl
  · cases h

/-- a ready status gets through only with the certificate for it -/
theorem validate_ready (h : validateCertification L v = .ok tools) (hstatus : v.status = "ready") :
    LiveCertificate L (v.kept tools) := by
  have hnormal := validate_tools h
  obtain ⟨-, -, hvalid, hdistinct⟩ := normalize_ok hnormal
  unfold validateCertification at h
  split at h
  · cases h
  · rw [if_neg (not_not.2 hstatus)] at h
    split_ifs at h with hcertifies
    cases h
    obtain ⟨canary, schema, manifest, hcanary, hschema, hmanifest, hone, hcount, hlookup, hproof, hhash⟩ :=
      certifies_iff hcertifies
    obtain ⟨front, back, hsplit, -⟩ := List.lookup_eq_some_iff.1 hlookup
    have hmem : (canary, schema) ∈ tools := by simp [hsplit]
    unfold Verdict.kept
    rw [if_pos hstatus]
    exact
      { proof := hproof
        nonempty := List.ne_nil_of_mem hmem
        distinct := hdistinct
        named := fun tool htool => ((Bool.and_eq_true _ _).mp (hvalid tool htool)).1
        counted := hcount
        canary := ⟨_, hmem, hcanary, hschema⟩
        manifest := ⟨manifest, hmanifest, hhash⟩ }

end Manifest

end Rally.Cloud
