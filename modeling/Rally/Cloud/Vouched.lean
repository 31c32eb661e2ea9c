/-
What holds of connections over any run of requests (`cloud/control_plane.py`), on either vault of
`cloud/credential_vault.py`: the handlers run in any order, one operation at a time, with any other operations in between.

- `run_sanctioned`: each operation of the vault is allowed by what happened before it.
- `ready_was_certified`: a ready connection has the credential that the verifier certified, or one that rotations under its
  lease have put in the place of this one, and carries that certificate.
- `revoked_before_deleted`: a connection with an OAuth grant is deleted only after the provider has been asked to revoke this
  grant and has not failed.
-/
import Rally.Cloud.Connections

namespace Rally.Cloud.Connections

open Py Vault Vaults OAuthGrants Callback

/-! ## Courses of events -/

section Safety

variable {σ α κ δ : Type} (S : Served σ α κ δ) (L : GrantLibs)

/-- runs of requests, from a vault in this state -/
abbrev RequestRun (s₀ : σ) (tr : List (Entry (System (World σ α) Request Ask Ask.Answer Response) (Turn Request (Outside δ))))
    (T : System (World σ α) Request Ask Ask.Answer Response) : Prop :=
  Trace (System.Step (exec S L) Call.always (code L) fun _ _ => False) ⟨⟨s₀, []⟩, []⟩ tr T

/-- the credential of a connection opens to the secret, or a rotation put it in the place of one that comes from the secret -/
inductive ComesFrom (past : List (Event σ α)) (k : String × String) (secret : ConnectorSecret) : κ → Prop where
  | opens {x : κ} : S.opens k x = some secret → ComesFrom past k secret x
  | rotated {x y : κ} {e : Entry σ α} :
      .vault e ∈ past → S.Rotates e k x y → ComesFrom past k secret x → ComesFrom past k secret y

/-- the record carries a certificate that the verifier gave for the credential, or for one that this one comes from -/
def Vouched (past : List (Event σ α)) (k : String × String) (r : ConnectionRecord) (x : κ) : Prop :=
  ∃ secret v tools, v.status = "ready" ∧ finishTools S.libs v = .ok tools ∧ r.certificate = v.kept tools ∧
    Certified L past k.2 secret v.certificate ∧ ComesFrom S past k secret x

/-- a ready connection is vouched for -/
def ReadyVouched (k : String × String) (w : World σ α) : Prop :=
  ∀ r x, S.view w.now k = some (r, x) → r.status = "ready" → Vouched S L w.past k r x

/-- a connection that is deleted was released before -/
def DeletedReleased (k : String × String) (w : World σ α) : Prop :=
  ∀ front e back, w.past = front ++ .vault e :: back → ∀ r x, S.view e.before k = some (r, x) →
    S.view e.after k = none → ∃ secret, S.opens k x = some secret ∧ Released front k.2 secret

/-- a course of events that the results below are about -/
structure Course (Apart : α → String × String → Prop) (k : String × String) (s₀ : σ) (w : World σ α) : Prop where
  steps : Trace S.step s₀ (vaultSteps w.past) w.now
  sanctioned : Sanctioned S L w.past
  distinct : S.Distinct (vaultSteps w.past)
  seals : ∀ e ∈ vaultSteps w.past, S.seals e.act
  apart : ∀ e ∈ vaultSteps w.past, Apart e.act k

variable {S L} {Apart : α → String × String → Prop} {k : String × String} {s₀ : σ} {w : World σ α}
  {past : List (Event σ α)} {x : κ} {r : ConnectionRecord}

/-! ### Runs of requests -/

theorem exec_past (o : Ask) (outside : Outside δ) (w : World σ α) :
    ∃ event, (exec S L o outside w).1.past = w.past ++ [event] := by
  cases o with
  | vault key op => exact ⟨_, rfl⟩
  | verify item material ids => exact ⟨_, rfl⟩
  | revoke item value => exact ⟨_, rfl⟩

theorem sanctioned_exec {o : Ask} {outside : Outside δ} (h : Sanctioned S L w.past)
    (hkeeps : Keeps S L w (exec S L o outside w).1) : Sanctioned S L (exec S L o outside w).1.past := by
  intro front e back hpast
  obtain ⟨event, hevent⟩ := exec_past (S := S) (L := L) o outside w
  rcases List.eq_nil_or_concat' back with rfl | ⟨back', last, rfl⟩
  · obtain ⟨rfl, hlast⟩ := List.append_inj' (hevent.symm.trans hpast) rfl
    exact hkeeps e hpast
  · have hsplit : w.past ++ [event] = (front ++ .vault e :: back') ++ [last] := by
      rw [← hevent, hpast]
      simp
    exact h front e back' (List.append_inj' hsplit rfl).1

theorem runs_of_does (hS : S.Answers) (w₀ : World σ α) :
    System.Runs (exec S L) Call.always (code L) (fun _ _ => False) (evolution S) (fun _ => Keeps S L)
      (fun _ _ _ => True) w₀ := ⟨fun request _ _ => code_does hS request, fun _ _ _ hother => hother.elim⟩

/-- in every run of requests, each operation of the vault is allowed where it stands -/
theorem run_sanctioned (hS : S.Answers)
    {tr : List (Entry (System (World σ α) Request Ask Ask.Answer Response) (Turn Request (Outside δ)))}
    {T : System (World σ α) Request Ask Ask.Answer Response} (h : RequestRun S L s₀ tr T) :
    Sanctioned S L T.shared.past := by
  induction h with
  | nil =>
    intro front e back hpast
    cases front <;> cases hpast
  | @snoc tr U T m hrun hnext ih =>
    have hguar := @System.run_guar _ _ _ _ _ _ _ _ _ _ _ _ _ _ _ _ _ (runs_of_does hS ⟨s₀, []⟩) (hrun.snoc hnext)
    cases hnext with
    | call request => exact ih
    | act outside hcall hfine =>
      exact sanctioned_exec ih (hguar _ (List.mem_append_right _ List.mem_cons_self) rfl hcall)
    | other hother => exact hother.elim

theorem run_steps (hS : S.Answers)
    {tr : List (Entry (System (World σ α) Request Ask Ask.Answer Response) (Turn Request (Outside δ)))}
    {T : System (World σ α) Request Ask Ask.Answer Response} (h : RequestRun S L s₀ tr T) :
    Trace S.step s₀ (vaultSteps T.shared.past) T.shared.now := by
  obtain ⟨more, hpast, htrace⟩ := (System.run_within (runs_of_does hS ⟨s₀, []⟩) h).1
  rw [List.nil_append] at hpast
  rwa [← hpast] at htrace

/-! ### Parts of a course -/

theorem vaultSteps_vault (past : List (Event σ α)) (e : Entry σ α) :
    vaultSteps (past ++ [.vault e]) = vaultSteps past ++ [e] := vaultSteps_append past [.vault e]

theorem Sanctioned.front {more : List (Event σ α)} (h : Sanctioned S L (past ++ more)) : Sanctioned S L past := by
  intro front e back hpast
  exact h front e (back ++ more) (by rw [hpast, List.append_assoc, List.cons_append])

/-- the course up to a step of the vault -/
theorem Course.before {e : Entry σ α} {more : List (Event σ α)} (h : Course S L Apart k s₀ w)
    (hpast : w.past = past ++ .vault e :: more) : Course S L Apart k s₀ ⟨e.before, past⟩ := by
  have hsteps : vaultSteps w.past = vaultSteps past ++ e :: vaultSteps more := by
    rw [hpast, vaultSteps_append]
    rfl
  refine ⟨?_, ?_, ?_, fun e' he' => h.seals e' ?_, fun e' he' => h.apart e' ?_⟩
  · exact (hsteps ▸ h.steps).before
  · exact (hpast ▸ h.sanctioned).front
  · have hdistinct := h.distinct
    rw [hsteps] at hdistinct
    exact (List.pairwise_append.1 hdistinct).1
  · rw [hsteps]
    exact List.mem_append_left _ he'
  · rw [hsteps]
    exact List.mem_append_left _ he'

/-- a connection of this generation has the credential that was held -/
theorem Course.opens (hM : S.Lawful Apart) (h : Course S L Apart k s₀ w) (hstart : S.view s₀ k = none)
    {secret : ConnectorSecret} (hview : S.view w.now k = some (r, x)) (hheld : Held S w.past k r.credentialGeneration secret) :
    S.opens k x = some secret := by
  obtain ⟨e, he, -, hhas⟩ := hheld
  obtain ⟨-, hnamed, hlast⟩ := hM.named h.steps h.apart h.distinct hstart
  obtain ⟨r', x', hview', hgeneration, hopens⟩ := hhas (h.seals e (mem_vaultSteps.2 he))
  have hafter : e.after ∈ s₀ :: (vaultSteps w.past).map Entry.after :=
    List.mem_cons_of_mem _ (List.mem_map_of_mem (mem_vaultSteps.2 he))
  obtain rfl : x' = x := hnamed e.after hafter w.now hlast _ hview' _ hview hgeneration
  exact hopens

/-! ### Ready connections -/

theorem ComesFrom.mono {past' : List (Event σ α)} {secret : ConnectorSecret} (h : ComesFrom S past k secret x)
    (hsub : past ⊆ past') : ComesFrom S past' k secret x := by
  induction h with
  | opens hopens => exact .opens hopens
  | rotated he hrotates _ ih => exact .rotated (hsub he) hrotates ih

theorem Vouched.mono {past' : List (Event σ α)} (h : Vouched S L past k r x) (hsub : past ⊆ past') :
    Vouched S L past' k r x := by
  obtain ⟨secret, v, tools, hready, htools, hcertificate, hcertified, hfrom⟩ := h
  exact ⟨secret, v, tools, hready, htools, hcertificate, hcertified.mono hsub, hfrom.mono hsub⟩

theorem Vouched.congr {r' : ConnectionRecord} (h : Vouched S L past k r x) (hsame : r'.certificate = r.certificate) :
    Vouched S L past k r' x := by
  obtain ⟨secret, v, tools, hready, htools, hcertificate, hrest⟩ := h
  exact ⟨secret, v, tools, hready, htools, hsame.trans hcertificate, hrest⟩

/-- one operation of the vault -/
theorem ReadyVouched.step (hM : S.Lawful Apart) (hS : S.Answers) (hstart : S.view s₀ k = none) {e : Entry σ α}
    (hcourse : Course S L Apart k s₀ ⟨e.before, past⟩) (hstep : S.step e.before e.act e.after)
    (hapart : Apart e.act k) (hseals : S.seals e.act) (hallowed : Allowed S L past (S.key e.act) (S.op e.act))
    (h : ReadyVouched S L k ⟨e.before, past⟩) : ReadyVouched S L k ⟨e.after, past ++ [.vault e]⟩ := by
  intro r x hview hready
  have hsub : past ⊆ past ++ [.vault e] := List.subset_append_left _ _
  have hafter : e.after = (S.answer e.before e.act).2 := hstep
  by_cases hchanged : S.view e.after k = S.view e.before k
  · exact (h r x (hchanged ▸ hview) hready).mono hsub
  by_cases hk : S.key e.act = k
  · have hw := hM.writes e.before e.act
    have hrotated := hS.rotated e.before e.act
    rw [← hafter, hk] at hw hrotated
    rw [hk] at hallowed
    dsimp only at hview
    rw [hview] at hw
    have hheld : ∀ {r₀ x₀}, S.view e.before k = some (r₀, x₀) → r₀.status = "ready" → Vouched S L past k r₀ x₀ := h _ _
    generalize hbefore : S.view e.before k = before at hw
    generalize hop : S.op e.act = op at hw
    cases hw with
    | same => exact (hheld hbefore hready).mono hsub
    | put => exact absurd hready (by simp [newRecord])
    | rotate hunder =>
      obtain ⟨x₀, y, hrotates⟩ := hrotated _ _ _ _ hop hseals (hbefore ▸ hchanged)
      obtain ⟨secret, v, tools, hv, htools, hcertificate, hcertified, hfrom⟩ := hheld hbefore hunder.1
      obtain ⟨rfl, rfl⟩ : x₀ = _ ∧ y = x := by
        obtain ⟨_, _, _, _, _, -, -, hx₀, -, -, hy, -⟩ := hrotates
        exact ⟨congrArg Prod.snd (Option.some.inj (hx₀.symm.trans hbefore)),
          congrArg Prod.snd (Option.some.inj (hy.symm.trans hview))⟩
      exact ⟨secret, v, tools, hv, htools, hcertificate, hcertified.mono hsub,
        .rotated (List.mem_append_right _ List.mem_cons_self) hrotates (hfrom.mono hsub)⟩
    | quarantine _ => exact absurd hready (by simp [demoted])
    | verify _ => exact absurd hready (by simp [verifying])
    | finish htools hfinishable =>
      rw [hop] at hallowed
      obtain ⟨secret, hsecret, hcertified⟩ := hallowed hready
      rw [← hfinishable.1] at hsecret
      exact ⟨secret, _, _, hready, htools, rfl, hcertified.mono hsub,
        .opens (hcourse.opens hM hstart hbefore hsecret)⟩
    | claim hready' _ => exact ((hheld hbefore hready').mono hsub).congr rfl
    | release _ => exact ((hheld hbefore hready).mono hsub).congr rfl
    | disconnect _ => exact absurd hready (by simp [disconnecting, demoted])
    | mark _ =>
      rw [hop] at hallowed
      exact hallowed.elim
    | markCounted _ =>
      rw [hop] at hallowed
      exact hallowed.elim
  · have hframe := hM.frame e.before e.act k hapart hk
    rw [← hafter] at hframe
    dsimp only at hview
    rw [hframe] at hview
    exact (h r x hview hready).mono hsub

theorem Course.readyVouched (hM : S.Lawful Apart) (hS : S.Answers) (hstart : S.view s₀ k = none) (h : Course S L Apart k s₀ w) :
    ReadyVouched S L k w := by
  obtain ⟨now, past⟩ := w
  induction past using List.reverseRecOn generalizing now with
  | nil =>
    intro r x hview _
    obtain rfl : now = s₀ := h.steps.nil_end
    dsimp only at hview
    rw [hstart] at hview
    cases hview
  | append_singleton past event ih =>
    cases event with
    | vault e =>
      have hcourse : Course S L Apart k s₀ ⟨e.before, past⟩ := h.before rfl
      have hsteps : Trace S.step s₀ (vaultSteps past ++ [e]) now := vaultSteps_vault past e ▸ h.steps
      have he : e ∈ vaultSteps (past ++ [.vault e]) := mem_vaultSteps.2 (List.mem_append_right _ List.mem_cons_self)
      obtain rfl : now = e.after := hsteps.last
      exact (ih e.before hcourse).step hM hS hstart hcourse (h.steps.entry e he) (h.apart e he) (h.seals e he)
        (h.sanctioned past e [] rfl)
    | verified item material ids answer =>
      have hsteps : vaultSteps (past ++ [.verified item material ids answer]) = vaultSteps past := by
        rw [vaultSteps_append]
        exact List.append_nil _
      have hcourse : Course S L Apart k s₀ ⟨now, past⟩ :=
        ⟨hsteps ▸ h.steps, h.sanctioned.front, hsteps ▸ h.distinct, hsteps ▸ h.seals, hsteps ▸ h.apart⟩
      exact fun r x hview hready => (ih now hcourse r x hview hready).mono (List.subset_append_left _ _)
    | revoked item value answer =>
      have hsteps : vaultSteps (past ++ [.revoked item value answer]) = vaultSteps past := by
        rw [vaultSteps_append]
        exact List.append_nil _
      have hcourse : Course S L Apart k s₀ ⟨now, past⟩ :=
        ⟨hsteps ▸ h.steps, h.sanctioned.front, hsteps ▸ h.distinct, hsteps ▸ h.seals, hsteps ▸ h.apart⟩
      exact fun r x hview hready => (ih now hcourse r x hview hready).mono (List.subset_append_left _ _)

/-! ### Deleted connections -/

theorem Course.deletedReleased (hM : S.Lawful Apart) (hstart : S.view s₀ k = none) (h : Course S L Apart k s₀ w) :
    DeletedReleased S k w := by
  intro front e back hpast r x hview hgone
  have hcourse := h.before hpast
  have he : e ∈ vaultSteps w.past := mem_vaultSteps.2 (by rw [hpast]; simp)
  have hafter : e.after = (S.answer e.before e.act).2 := h.steps.entry e he
  have hallowed := h.sanctioned front e back hpast
  by_cases hk : S.key e.act = k
  · have hw := hM.writes e.before e.act
    rw [← hafter, hk, hview, hgone] at hw
    rw [hk] at hallowed
    generalize hop : S.op e.act = op at hw hallowed
    cases hw with
    | delete hdeletable =>
      obtain ⟨g, secret, rfl, hheld, hreleased⟩ := hallowed
      obtain rfl : r.credentialGeneration = g := of_decide_eq_true hdeletable.1
      exact ⟨secret, hcourse.opens hM hstart hview hheld, hreleased⟩
  · have hframe := hM.frame e.before e.act k (h.apart e he) hk
    rw [← hafter, hgone, hview] at hframe
    cases hframe

/-- the course of a run of requests -/
theorem run_course (hS : S.Answers)
    {tr : List (Entry (System (World σ α) Request Ask Ask.Answer Response) (Turn Request (Outside δ)))}
    {T : System (World σ α) Request Ask Ask.Answer Response} (h : RequestRun S L s₀ tr T)
    (hdistinct : S.Distinct (vaultSteps T.shared.past)) (hseals : ∀ e ∈ vaultSteps T.shared.past, S.seals e.act)
    (hapart : ∀ e ∈ vaultSteps T.shared.past, Apart e.act k) : Course S L Apart k s₀ T.shared :=
  ⟨run_steps hS h, run_sanctioned hS h, hdistinct, hseals, hapart⟩

end Safety

/-! ## Both vaults -/

/-- what is asked of a run in memory: its random texts are different -/
structure MemoryRun (libs : Libs) (L : GrantLibs) (T : System (World MemoryStore MemoryCall) Request Ask Ask.Answer Response) :
    Prop where
  run : ∃ tr, RequestRun (memoryServed libs) L [] tr T
  distinct : (memoryServed libs).Distinct (vaultSteps T.shared.past)

/-- what is asked of a run in Firestore, as far as one connection goes: its random texts are different, what is sealed can be
opened, and the documents of two connections have different names -/
structure FirestoreRun (V : Platform) (L : GrantLibs) (k : String × String)
    (T : System (World FirestoreStore FirestoreCall) Request Ask Ask.Answer Response) : Prop where
  run : ∃ tr, RequestRun (firestoreServed V) L [] tr T
  distinct : (firestoreServed V).Distinct (vaultSteps T.shared.past)
  seals : ∀ e ∈ vaultSteps T.shared.past, Seals V e.act
  apart : ∀ e ∈ vaultSteps T.shared.past, DocumentsApart V.libs e.act k

theorem MemoryRun.course {libs : Libs} {L : GrantLibs}
    {T : System (World MemoryStore MemoryCall) Request Ask Ask.Answer Response} (h : MemoryRun libs L T)
    (k : String × String) : Course (memoryServed libs) L (fun _ _ => True) k [] T.shared := by
  obtain ⟨tr, hrun⟩ := h.run
  exact run_course (memoryServed_answers libs) hrun h.distinct (fun _ _ => trivial) fun _ _ => trivial

theorem FirestoreRun.course {V : Platform} {L : GrantLibs} {k : String × String}
    {T : System (World FirestoreStore FirestoreCall) Request Ask Ask.Answer Response} (h : FirestoreRun V L k T) :
    Course (firestoreServed V) L (DocumentsApart V.libs) k [] T.shared := by
  obtain ⟨tr, hrun⟩ := h.run
  exact run_course (firestoreServed_answers V) hrun h.distinct h.seals h.apart

theorem firestore_start (V : Platform) (k : String × String) : (firestoreServed V).view [] k = none := by
  simp [firestoreServed, firestoreVault, documentView]

/-- **Ready means certified.** In any run of requests over either vault from no records, whatever the verifier, the provider
and the services of the vault do, a ready connection carries a certificate that the verifier gave for the credential of this
connection, or for one that this one comes from by rotations, each of which presented the credential that it replaced and the
lease of the connection. -/
theorem ready_was_certified (L : GrantLibs) :
    (∀ libs T, MemoryRun libs L T → ∀ k, ReadyVouched (memoryServed libs) L k T.shared) ∧
      ∀ V k T, FirestoreRun V L k T → ReadyVouched (firestoreServed V) L k T.shared := by
  constructor
  · intro libs T h k
    exact (h.course k).readyVouched (memoryVault_lawful libs) (memoryServed_answers libs) rfl
  · intro V k T h
    exact h.course.readyVouched (firestoreVault_lawful V) (firestoreServed_answers V) (firestore_start V k)

/-- **Revoked before it is deleted.** In any such run, when a connection is deleted, its credential is no OAuth grant, or the
provider has been asked before to revoke this very grant, and has not failed. -/
theorem revoked_before_deleted (L : GrantLibs) :
    (∀ libs T, MemoryRun libs L T → ∀ k, DeletedReleased (memoryServed libs) k T.shared) ∧
      ∀ V k T, FirestoreRun V L k T → DeletedReleased (firestoreServed V) k T.shared := by
  constructor
  · intro libs T h k
    exact (h.course k).deletedReleased (memoryVault_lawful libs) rfl
  · intro V k T h
    exact h.course.deletedReleased (firestoreVault_lawful V) (firestore_start V k)

/-! ## A run of each -/

def slackEndpoint : String := "https://mcp.slack.com/mcp"

def slackRevocation : String := "https://mcp.slack.com/revoke"

/-- the addresses of the sample -/
def slackUrls (value : String) : Option SplitUrl :=
  if value = slackEndpoint then some ⟨"https", "mcp.slack.com", "/mcp", "", "", some "mcp.slack.com", none, none, none⟩
  else if value = slackRevocation then
    some ⟨"https", "mcp.slack.com", "/revoke", "", "", some "mcp.slack.com", none, none, none⟩
  else none

/-- the JSON of the sample: the material of a grant, and the sealed text of a credential with it -/
def slackLoads (text : String) : Loaded :=
  if text = "grant" then
    .value (.dict [("schema", .str oauthSchema), ("endpoint", .str slackEndpoint), ("access_token", .str "at-0"),
      ("token_type", .str "bearer"), ("client_id", .str "client"), ("token_endpoint", .str slackEndpoint),
      ("revocation_endpoint", .str slackRevocation), ("token_auth_method", .str "none")])
  else .value (.dict [("kind", .str "oauth_refresh_token"), ("value", .str "grant")])

def slackLibs : GrantLibs :=
  { certifiedLibs with
    loads := slackLoads
    urlsplit := slackUrls
    casefold := id
    validateToken := fun _ => none
    resourceUrl := some
    resourceAllowed := fun _ _ => some true
    quote := id }

def slackVault : Platform := ⟨slackLibs.toLibs, sampleGoogle.openEnvelope⟩

def slackGrant : ConnectorSecret := ⟨"grant", .oauthRefreshToken, by decide⟩

/-- what the outside does at the `n`th operation: the verifier certifies, and the provider revokes -/
def slackOutside {δ : Type} (services : Draw → δ) (n : ℕ) (digit : Char) : Outside δ :=
  ⟨services ⟨n, n, "1970-01-01T00:00:00Z", sampleText digit⟩, .certified sampleCertificate, fun _ => .answered 200 ""⟩

/-- a grant is stored and verified -/
def verifiedMoves {δ : Type} (services : Draw → δ) : List (Turn Request (Outside δ)) :=
  [.call (.operation ("ann", "slack") ⟨.put slackGrant, trivial⟩), .act 0 (slackOutside services 1 '1'),
    .call (.verify "ann" "slack"), .act 1 (slackOutside services 2 '2'), .act 1 (slackOutside services 3 '3'),
    .act 1 (slackOutside services 4 '4'), .act 1 (slackOutside services 5 '5')]

/-- and disconnected -/
def disconnectedMoves {δ : Type} (services : Draw → δ) : List (Turn Request (Outside δ)) :=
  verifiedMoves services ++ [.call (.disconnect "ann" "slack"), .act 2 (slackOutside services 6 '6'),
    .act 2 (slackOutside services 7 '7'), .act 2 (slackOutside services 8 '8')]

/-- where moves lead from an empty vault -/
def driven {σ α κ δ : Type} (S : Served σ α κ δ) (s₀ : σ) (moves : List (Turn Request (Outside δ))) :
    Option (System (World σ α) Request Ask Ask.Answer Response) :=
  System.drive (exec S slackLibs) Call.always (code slackLibs) ⟨⟨s₀, []⟩, []⟩ moves

/-- the status of the connection, and the random texts of the run -/
def sampleView {σ α κ δ : Type} (S : Served σ α κ δ) (T : System (World σ α) Request Ask Ask.Answer Response) :
    Option String × List String :=
  ((S.view T.shared.now ("ann", "slack")).map fun p => p.1.status,
    (vaultSteps T.shared.past).map fun e => (S.draw e.act).fresh)

def grantServices (draw : Draw) : Services :=
  { draw := draw
    sealing := .ok ⟨"rally.connector-secret/v1", "", "sealed", associatedData "ann" "slack", ""⟩
    commit := .done
    opening := none
    reading := none }

/-- the envelope of an entry opens to what the entry stores, and the entry is about the connection of the sample -/
def fits (e : Entry FirestoreStore FirestoreCall) : Bool :=
  (e.act.op.stored.all fun secret =>
    match e.act.services.sealing with
    | .ok envelope => openEnvelope slackVault (e.act.uid, e.act.connectorId) envelope = some secret
    | .error _ => true) &&
    decide ((e.act.uid, e.act.connectorId) = ("ann", "slack"))

theorem seals_of_fits {e : Entry FirestoreStore FirestoreCall} (h : fits e = true) : Seals slackVault e.act := by
  intro secret hsecret envelope hsealing
  simp only [fits, Bool.and_eq_true, Option.all_eq_true, hsealing, decide_eq_true_eq] at h
  exact h.1 secret hsecret

theorem apart_of_fits {e : Entry FirestoreStore FirestoreCall} (h : fits e = true) :
    DocumentsApart slackVault.libs e.act ("ann", "slack") := by
  simp only [fits, Bool.and_eq_true, decide_eq_true_eq, Prod.mk.injEq] at h
  intro _
  rw [h.2.1, h.2.2]

/-- a run with different random texts -/
theorem distinct_of_texts {σ α κ : Type} {M : Machine σ α κ} {tr : List (Entry σ α)} {texts : List String}
    (h : tr.map (fun e => (M.draw e.act).fresh) = texts) (hnodup : texts.Nodup) : M.Distinct tr := by
  rw [← h] at hnodup
  exact List.pairwise_map.1 hnodup

/-- the run in memory, with the status it ends in -/
theorem memory_driven {moves : List (Turn Request (Outside Draw))} {status : Option String} {texts : List String}
    (h : (driven (memoryServed slackLibs.toLibs) [] moves).map (sampleView (memoryServed slackLibs.toLibs)) =
      some (status, texts)) (hnodup : texts.Nodup) :
    ∃ T, MemoryRun slackLibs.toLibs slackLibs T ∧
      ((memoryServed slackLibs.toLibs).view T.shared.now ("ann", "slack")).map (fun p => p.1.status) = status := by
  obtain ⟨T, hT, hview⟩ := Option.map_eq_some_iff.1 h
  exact ⟨T, ⟨System.drive_trace hT, distinct_of_texts (congrArg Prod.snd hview) hnodup⟩, congrArg Prod.fst hview⟩

/-- the run in Firestore -/
theorem firestore_driven {moves : List (Turn Request (Outside Services))} {status : Option String} {texts : List String}
    (h : (driven (firestoreServed slackVault) [] moves).map (fun T =>
      (sampleView (firestoreServed slackVault) T, (vaultSteps T.shared.past).all fits)) = some ((status, texts), true))
    (hnodup : texts.Nodup) :
    ∃ T, FirestoreRun slackVault slackLibs ("ann", "slack") T ∧
      ((firestoreServed slackVault).view T.shared.now ("ann", "slack")).map (fun p => p.1.status) = status := by
  obtain ⟨T, hT, hview⟩ := Option.map_eq_some_iff.1 h
  obtain ⟨hview, hfits⟩ := Prod.mk.inj hview
  rw [List.all_eq_true] at hfits
  exact ⟨T, ⟨System.drive_trace hT, distinct_of_texts (congrArg Prod.snd hview) hnodup,
    fun e he => seals_of_fits (hfits e he), fun e he => apart_of_fits (hfits e he)⟩, congrArg Prod.fst hview⟩

theorem sample_verified :
    (∃ T, MemoryRun slackLibs.toLibs slackLibs T ∧
      ReadyVouched (memoryServed slackLibs.toLibs) slackLibs ("ann", "slack") T.shared ∧
      ((memoryServed slackLibs.toLibs).view T.shared.now ("ann", "slack")).map (fun p => p.1.status) = some "ready") ∧
    ∃ T, FirestoreRun slackVault slackLibs ("ann", "slack") T ∧
      ReadyVouched (firestoreServed slackVault) slackLibs ("ann", "slack") T.shared ∧
      ((firestoreServed slackVault).view T.shared.now ("ann", "slack")).map (fun p => p.1.status) = some "ready" := by
  obtain ⟨T, hT, hready⟩ := @memory_driven (verifiedMoves id) (some "ready") (['1', '2', '3', '5'].map sampleText)
    (by decide +kernel) (by decide +kernel)
  obtain ⟨U, hU, hready'⟩ := @firestore_driven (verifiedMoves grantServices) (some "ready")
    (['1', '2', '3', '5'].map sampleText) (by decide +kernel) (by decide +kernel)
  exact ⟨⟨T, hT, (ready_was_certified slackLibs).1 _ T hT _, hready⟩, U, hU,
    (ready_was_certified slackLibs).2 slackVault _ U hU, hready'⟩

theorem sample_disconnected :
    (∃ T, MemoryRun slackLibs.toLibs slackLibs T ∧
      DeletedReleased (memoryServed slackLibs.toLibs) ("ann", "slack") T.shared ∧
      ((memoryServed slackLibs.toLibs).view T.shared.now ("ann", "slack")).map (fun p => p.1.status) = none) ∧
    ∃ T, FirestoreRun slackVault slackLibs ("ann", "slack") T ∧
      DeletedReleased (firestoreServed slackVault) ("ann", "slack") T.shared ∧
      ((firestoreServed slackVault).view T.shared.now ("ann", "slack")).map (fun p => p.1.status) = none := by
  obtain ⟨T, hT, hgone⟩ := @memory_driven (disconnectedMoves id) none (['1', '2', '3', '5', '6', '8'].map sampleText)
    (by decide +kernel) (by decide +kernel)
  obtain ⟨U, hU, hgone'⟩ := @firestore_driven (disconnectedMoves grantServices) none
    (['1', '2', '3', '5', '6', '8'].map sampleText) (by decide +kernel) (by decide +kernel)
  exact ⟨⟨T, hT, (revoked_before_deleted slackLibs).1 _ T hT _, hgone⟩, U, hU,
    (revoked_before_deleted slackLibs).2 slackVault _ U hU, hgone'⟩

end Rally.Cloud.Connections
