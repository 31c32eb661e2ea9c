/-
The lease of a connection (`claim_execution` of `cloud/credential_vault.py`) over any run of either vault.

- `Machine`: a vault as a machine whose steps are operations on one connection each. `Machine.Lawful`: its steps do what
  `Writes` says, leave other connections alone, and succeed only under their guards.
- `Held`: a ready connection under a lease. `Held.step`: as long as the lease runs, only its holder ends it.
- `lease_is_exclusive`: what follows for every run of the vault in memory and of the one in Firestore.
-/
import Rally.Cloud.VaultSafety
import Rally.Core.Trace

namespace Rally.Cloud.Vaults

open Vault MemoryVault

/-! ## Operations -/

/-- the generation that an operation presents -/
def Op.generation : Op → Option String
  | .rotate generation _ _ _ => some generation
  | .quarantine generation _ _ _ => some generation
  | .beginVerification generation => some generation
  | .finishVerification generation _ _ => some generation
  | .delete generation _ => generation
  | _ => none

/-- the lease that an operation presents -/
def Op.lease : Op → Option String
  | .rotate _ lease _ _ => some lease
  | .quarantine _ lease _ _ => some lease
  | .finishVerification _ lease _ => some lease
  | .releaseExecution lease => some lease
  | _ => none

/-- the operations that a lease keeps out -/
def Op.Excluded : Op → Prop
  | .claimExecution => True
  | .beginVerification _ => True
  | .beginDisconnect => True
  | .delete _ _ => True
  | _ => False

/-- how the callers use a vault: they do not mark, they end no verification as a pending disconnect, and they delete with a
generation and only what is being disconnected -/
def Op.Careful : Op → Prop
  | .finishVerification _ _ v => v.errorCode ≠ some "disconnect_pending"
  | .mark _ => False
  | .delete generation requireDisconnect => generation.isSome = true ∧ requireDisconnect = true
  | _ => True

instance (op : Op) : Decidable op.Careful :=
  match op with
  | .finishVerification _ _ v => inferInstanceAs (Decidable (v.errorCode ≠ some "disconnect_pending"))
  | .mark _ => inferInstanceAs (Decidable False)
  | .delete generation requireDisconnect =>
    inferInstanceAs (Decidable (generation.isSome = true ∧ requireDisconnect = true))
  | .put _ | .getSecret | .getConnection | .rotate _ _ _ _ | .quarantine _ _ _ _ | .beginVerification _ | .claimExecution
  | .releaseExecution _ | .beginDisconnect => inferInstanceAs (Decidable True)

/-- the guard of an operation that a lease keeps out -/
def Op.Guard (op : Op) (now : ℤ) (record : ConnectionRecord) : Prop :=
  match op with
  | .claimExecution => record.status = "ready" ∧ leaseIsActive record now = false
  | .beginVerification generation => Verifiable record generation now
  | .beginDisconnect => Disconnectable record now
  | .delete generation requireDisconnect => Deletable record generation requireDisconnect
  | _ => True

/-- the answer is not that there was nothing to do -/
def Succeeds : Reply → Prop
  | .ok (.record (some _)) => True
  | .ok (.connection (some _)) => True
  | .ok (.done true) => True
  | _ => False

/-- an operation presents a generation or a lease that the record does not have -/
def Stale {σ : Type} (op : Op) (d : Option (ConnectionRecord × σ)) : Prop :=
  ∃ p ∈ d, (∃ generation ∈ op.generation, p.1.credentialGeneration ≠ generation) ∨
    ∃ lease ∈ op.lease, p.1.executionLease ≠ some lease

/-! ## One connection -/

/-- a ready connection under a lease that runs until its expiry -/
def Held {σ : Type} (lease : String) (expiry : ℤ) (d : Option (ConnectionRecord × σ)) : Prop :=
  ∃ p ∈ d, p.1.status = "ready" ∧ p.1.errorCode ≠ some "disconnect_pending" ∧ p.1.executionLease = some lease ∧
    p.1.executionLeaseExpiresAt = some expiry

/-- a ready connection is not being disconnected -/
def Clean {σ : Type} (d : Option (ConnectionRecord × σ)) : Prop :=
  ∀ p ∈ d, p.1.status = "ready" → p.1.errorCode ≠ some "disconnect_pending"

section Writes

variable {σ : Type} {L : Libs} {connectorId : String} {draw : Draw} {op : Op} {d e : Option (ConnectionRecord × σ)}
  {lease : String} {expiry : ℤ}

theorem Held.active {p : ConnectionRecord × σ} (hlease : isLease lease = true) (h : p.1.executionLease = some lease)
    (hexpiry : p.1.executionLeaseExpiresAt = some expiry) {now : ℤ} (hnow : now < expiry) :
    leaseIsActive p.1 now = true := by
  simp [leaseIsActive, h, hexpiry, hlease, hnow]

/-- the guards of the operations that the lease keeps out fail -/
theorem Held.guard (h : Held lease expiry d) (hlease : isLease lease = true) {now : ℤ} (hnow : now < expiry)
    (hcareful : op.Careful) (hexcluded : op.Excluded) : ∀ p ∈ d, ¬ op.Guard now p.1 := by
  obtain ⟨p, hp, hready, herror, hl, hexpiry⟩ := h
  have hactive := Held.active hlease hl hexpiry hnow
  intro q hq hguard
  obtain rfl : p = q := Option.some.inj ((Option.mem_def.1 hp).symm.trans (Option.mem_def.1 hq))
  cases op with
  | claimExecution => exact absurd (hactive.symm.trans hguard.2) (by simp)
  | beginVerification generation => exact hguard.2.1 hready
  | beginDisconnect =>
    rcases hguard with hverifying | hfree
    · rw [hready] at hverifying
      exact absurd hverifying (by decide)
    · exact absurd (hactive.symm.trans hfree) (by simp)
  | delete generation requireDisconnect => exact herror (hguard.2 hcareful.2)
  | _ => exact hexcluded

/-- an operation under a lease that runs: only its holder changes the credential, and only its holder gives it back -/
theorem Held.step (h : Held lease expiry d) (hlease : isLease lease = true) (hnow : draw.now < expiry)
    (hcareful : op.Careful) (hw : Writes L connectorId draw op d e) :
    (e.map Prod.snd = d.map Prod.snd ∨ ∃ g x y, op = .rotate g lease x y) ∧
      (Held lease expiry e ∨ op = .releaseExecution lease ∨ ∃ g code x, op = .quarantine g lease code x) := by
  have hguard := @Held.guard _ op _ _ _ h hlease _ hnow hcareful
  cases hw with
  | same => exact ⟨.inl rfl, .inl h⟩
  | put =>
    obtain ⟨p, hp, -⟩ := h
    cases hp
  | rotate hunder =>
    obtain ⟨p, hp, hready, herror, hl, hexpiry⟩ := h
    cases hp
    obtain rfl := Option.some.inj (hl.symm.trans hunder.2.2)
    exact ⟨.inr ⟨_, _, _, rfl⟩, .inl ⟨_, rfl, hready, herror, hl, hexpiry⟩⟩
  | quarantine hunder =>
    obtain ⟨p, hp, -, -, hl, -⟩ := h
    cases hp
    obtain rfl := Option.some.inj (hl.symm.trans hunder.2.2)
    exact ⟨.inl rfl, .inr (.inr ⟨_, _, _, rfl⟩)⟩
  | verify hverifiable => exact absurd hverifiable (hguard trivial _ rfl)
  | finish _ hfinishable =>
    obtain ⟨p, hp, hready, -⟩ := h
    cases hp
    exact absurd (hready.symm.trans hfinishable.2.1) (by decide)
  | claim hready hfree => exact absurd ⟨hready, hfree⟩ (hguard trivial _ rfl)
  | release hl' =>
    obtain ⟨p, hp, -, -, hl, -⟩ := h
    cases hp
    obtain rfl := Option.some.inj (hl.symm.trans hl')
    exact ⟨.inl rfl, .inr (.inl rfl)⟩
  | disconnect hdisconnectable => exact absurd hdisconnectable (hguard trivial _ rfl)
  | mark _ => exact hcareful.elim
  | markCounted _ => exact hcareful.elim
  | delete hdeletable => exact absurd hdeletable (hguard trivial _ rfl)

/-- an operation that the lease keeps out changes nothing -/
theorem Held.kept_out (h : Held lease expiry d) (hlease : isLease lease = true) (hnow : draw.now < expiry)
    (hcareful : op.Careful) (hexcluded : op.Excluded) (hw : Writes L connectorId draw op d e) : e = d := by
  have hguard := h.guard hlease hnow hcareful hexcluded
  cases hw with
  | same => rfl
  | put => exact hexcluded.elim
  | rotate _ => exact hexcluded.elim
  | quarantine _ => exact hexcluded.elim
  | verify hverifiable => exact absurd hverifiable (hguard _ rfl)
  | finish _ _ => exact hexcluded.elim
  | claim hready hfree => exact absurd ⟨hready, hfree⟩ (hguard _ rfl)
  | release _ => exact hexcluded.elim
  | disconnect hdisconnectable => exact absurd hdisconnectable (hguard _ rfl)
  | mark _ => exact hexcluded.elim
  | markCounted _ => exact hexcluded.elim
  | delete hdeletable => exact absurd hdeletable (hguard _ rfl)

/-- an operation that presents what the record does not have changes nothing -/
theorem Stale.unchanged (hstale : Stale op d) (hw : Writes L connectorId draw op d e) : e = d := by
  obtain ⟨p, hp, hstale⟩ := hstale
  have hpresents : ∀ g l : String, p.1.credentialGeneration = g → p.1.executionLease = some l →
      op.generation = some g → op.lease = some l → False := by
    intro g l hg hl hop hop'
    rcases hstale with ⟨g', hg', hne⟩ | ⟨l', hl', hne⟩
    · exact hne (hg.trans (Option.some.inj (hop.symm.trans hg')))
    · exact hne (hl.trans (hop'.symm.trans hl'))
  cases hw with
  | same => rfl
  | put => cases hp
  | rotate h =>
    cases hp
    exact (hpresents _ _ h.2.1 h.2.2 rfl rfl).elim
  | quarantine h =>
    cases hp
    exact (hpresents _ _ h.2.1 h.2.2 rfl rfl).elim
  | verify h =>
    cases hp
    rcases hstale with ⟨g, hg, hne⟩ | ⟨l, hl, -⟩
    · exact absurd (h.1.trans (Option.some.inj hg)) hne
    · cases hl
  | finish _ h =>
    cases hp
    exact (hpresents _ _ h.1 h.2.2 rfl rfl).elim
  | claim _ _ =>
    rcases hstale with ⟨g, hg, -⟩ | ⟨l, hl, -⟩
    · cases hg
    · cases hl
  | release h =>
    cases hp
    rcases hstale with ⟨g, hg, -⟩ | ⟨l, hl, hne⟩
    · cases hg
    · exact absurd (h.trans hl) hne
  | disconnect _ =>
    rcases hstale with ⟨g, hg, -⟩ | ⟨l, hl, -⟩
    · cases hg
    · cases hl
  | mark _ =>
    rcases hstale with ⟨g, hg, -⟩ | ⟨l, hl, -⟩
    · cases hg
    · cases hl
  | markCounted _ =>
    rcases hstale with ⟨g, hg, -⟩ | ⟨l, hl, -⟩
    · cases hg
    · cases hl
  | @delete presented _ r x h =>
    cases hp
    rcases hstale with ⟨g, hg, hne⟩ | ⟨l, hl, -⟩
    · obtain rfl : presented = some g := hg
      exact absurd (of_decide_eq_true h.1) hne
    · cases hl

/-- no careful operation leaves a ready connection that is being disconnected -/
theorem Clean.step (h : Clean d) (hcareful : op.Careful) (hw : Writes L connectorId draw op d e) : Clean e := by
  have hkeep : ∀ {r r' : ConnectionRecord} {x y : σ}, Clean (some (r, x)) → r'.status = r.status →
      r'.errorCode = r.errorCode → Clean (some (r', y)) := by
    intro r r' x y hr hstatus herror p hp hready
    cases hp
    exact herror ▸ hr _ rfl (hstatus ▸ hready)
  have hother : ∀ {r : ConnectionRecord} {x : σ}, r.status ≠ "ready" → Clean (some (r, x)) := by
    intro r x hr p hp hready
    cases hp
    exact absurd hready hr
  cases hw with
  | same => exact h
  | put => exact hother (by simp [newRecord])
  | rotate _ => exact hkeep h rfl rfl
  | quarantine _ => exact hother (by simp [demoted])
  | verify _ => exact hother (by simp [verifying])
  | finish _ _ =>
    intro p hp _
    cases hp
    exact hcareful
  | claim _ _ => exact hkeep h rfl rfl
  | release _ => exact hkeep h rfl rfl
  | disconnect _ => exact hother (by simp [disconnecting, demoted])
  | mark _ => exact hcareful.elim
  | markCounted _ => exact hcareful.elim
  | delete _ =>
    intro p hp _
    cases hp

end Writes

/-! ## Vaults as machines -/

/-- a vault: each step is one operation on one connection, and a connection has a record and a credential -/
structure Machine (σ α κ : Type) where
  libs : Libs
  key : α → String × String
  op : α → Op
  draw : α → Draw
  answer : σ → α → Reply × σ
  view : σ → String × String → Option (ConnectionRecord × κ)

namespace Machine

variable {σ α κ : Type} (M : Machine σ α κ)

def step (s : σ) (a : α) (t : σ) : Prop := t = (M.answer s a).2

/-- a claim that the vault answered with a connection under this lease -/
def Claims (k : String × String) (lease : String) (expiry : ℤ) (e : Entry σ α) : Prop :=
  M.key e.act = k ∧ M.op e.act = .claimExecution ∧
    ∃ stored, (M.answer e.before e.act).1 = .ok (.connection (some stored)) ∧
      stored.record.executionLease = some lease ∧ stored.record.executionLeaseExpiresAt = some expiry

/-- the lease is given back: a release or a quarantine presents it, and has an effect -/
def Ends (k : String × String) (lease : String) (e : Entry σ α) : Prop :=
  M.key e.act = k ∧ (M.op e.act = .releaseExecution lease ∨ ∃ g code x, M.op e.act = .quarantine g lease code x) ∧
    M.view e.after k ≠ M.view e.before k

/-- what a run does with the leases of one connection -/
structure LeaseSafe (k : String × String) (tr : List (Entry σ α)) : Prop where
  /-- from a claim until the lease is given back or runs out, nobody else gets in, and only its holder rotates -/
  exclusive : ∀ front c between e rest lease expiry, tr = front ++ c :: (between ++ e :: rest) →
    M.Claims k lease expiry c → (∀ x ∈ between, ¬ M.Ends k lease x) → M.key e.act = k → (M.draw e.act).now < expiry →
      ((M.op e.act).Excluded → ¬ Succeeds (M.answer e.before e.act).1 ∧ M.view e.after k = M.view e.before k) ∧
        ((M.view e.after k).map Prod.snd ≠ (M.view e.before k).map Prod.snd →
          ∃ g x y, M.op e.act = .rotate g lease x y)
  /-- an operation with an old generation or lease changes nothing -/
  stale : ∀ e ∈ tr, M.key e.act = k → Stale (M.op e.act) (M.view e.before k) → M.view e.after k = M.view e.before k
  /-- an operation on another connection changes nothing here -/
  others : ∀ e ∈ tr, M.key e.act ≠ k → M.view e.after k = M.view e.before k

/-- what is needed of a vault; steps on connections that are apart do not meet -/
structure Lawful (Apart : α → String × String → Prop) : Prop where
  writes : ∀ s a, Writes M.libs (M.key a).2 (M.draw a) (M.op a) (M.view s (M.key a)) (M.view (M.answer s a).2 (M.key a))
  frame : ∀ s a k, Apart a k → M.key a ≠ k → M.view (M.answer s a).2 k = M.view s k
  claimed : ∀ s a stored, M.op a = .claimExecution → (M.answer s a).1 = .ok (.connection (some stored)) →
    ∃ r x, M.view s (M.key a) = some (r, x) ∧ r.status = "ready" ∧
      M.view (M.answer s a).2 (M.key a) = some (leased r (M.draw a), x) ∧
      stored.record.executionLease = some (M.draw a).fresh ∧
      stored.record.executionLeaseExpiresAt = some ((M.draw a).started + executionLeaseSeconds)
  guarded : ∀ s a, (M.op a).Excluded → Succeeds (M.answer s a).1 →
    ∃ p ∈ M.view s (M.key a), (M.op a).Guard (M.draw a).now p.1

/-- the callers of a run are careful, their leases are random texts, and its clock does not go back -/
structure Sober (tr : List (Entry σ α)) : Prop where
  careful : ∀ e ∈ tr, (M.op e.act).Careful
  fresh : ∀ e ∈ tr, isLease (M.draw e.act).fresh = true
  clock : tr.Pairwise fun x y => (M.draw x.act).now ≤ (M.draw y.act).now

section Run

variable {M} {Apart : α → String × String → Prop} {k : String × String} {s₀ s : σ} {tr : List (Entry σ α)}

theorem Lawful.writes_at (hM : M.Lawful Apart) (h : Trace M.step s₀ tr s) {e : Entry σ α} (he : e ∈ tr)
    (hk : M.key e.act = k) :
    Writes M.libs k.2 (M.draw e.act) (M.op e.act) (M.view e.before k) (M.view e.after k) := by
  have hstep : e.after = (M.answer e.before e.act).2 := h.entry e he
  rw [hstep, ← hk]
  exact hM.writes e.before e.act

theorem Lawful.frame_at (hM : M.Lawful Apart) (h : Trace M.step s₀ tr s) (hapart : ∀ e ∈ tr, Apart e.act k)
    {e : Entry σ α} (he : e ∈ tr) (hk : M.key e.act ≠ k) : M.view e.after k = M.view e.before k := by
  have hstep : e.after = (M.answer e.before e.act).2 := h.entry e he
  rw [hstep]
  exact hM.frame e.before e.act k (hapart e he) hk

/-- all along a sober run, a ready connection is not being disconnected -/
theorem Lawful.clean (hM : M.Lawful Apart) (h : Trace M.step s₀ tr s) (hapart : ∀ e ∈ tr, Apart e.act k)
    (hcareful : ∀ e ∈ tr, (M.op e.act).Careful) (hstart : M.view s₀ k = none) : Clean (M.view s k) := by
  induction h with
  | nil =>
    rw [hstart]
    exact fun p hp => nomatch hp
  | @snoc tr s t a hrun hnext ih =>
    have hbefore := ih (fun e he => hapart e (List.mem_append_left _ he))
      fun e he => hcareful e (List.mem_append_left _ he)
    have hlast : (⟨s, a, t⟩ : Entry σ α) ∈ tr ++ [⟨s, a, t⟩] := List.mem_append_right _ (List.mem_singleton.2 rfl)
    have hall : Trace M.step s₀ (tr ++ [⟨s, a, t⟩]) t := .snoc hrun hnext
    by_cases hk : M.key a = k
    · exact hbefore.step (hcareful _ hlast) (hM.writes_at hall hlast hk)
    · have hframe := hM.frame_at hall hapart hlast hk
      dsimp only at hframe
      rw [hframe]
      exact hbefore

/-- as long as the lease runs and is not given back, the connection is held -/
theorem Lawful.held (hM : M.Lawful Apart) {lease : String} {expiry : ℤ} (hlease : isLease lease = true)
    (h : Trace M.step s₀ tr s) (hapart : ∀ e ∈ tr, Apart e.act k) (hcareful : ∀ e ∈ tr, (M.op e.act).Careful)
    (hnow : ∀ e ∈ tr, (M.draw e.act).now < expiry) (hends : ∀ e ∈ tr, ¬ M.Ends k lease e)
    (hstart : Held lease expiry (M.view s₀ k)) : Held lease expiry (M.view s k) := by
  induction h with
  | nil => exact hstart
  | @snoc tr s t a hrun hnext ih =>
    have hbefore := ih (fun e he => hapart e (List.mem_append_left _ he))
      (fun e he => hcareful e (List.mem_append_left _ he)) (fun e he => hnow e (List.mem_append_left _ he))
      fun e he => hends e (List.mem_append_left _ he)
    have hlast : (⟨s, a, t⟩ : Entry σ α) ∈ tr ++ [⟨s, a, t⟩] := List.mem_append_right _ (List.mem_singleton.2 rfl)
    have hall : Trace M.step s₀ (tr ++ [⟨s, a, t⟩]) t := .snoc hrun hnext
    by_cases hk : M.key a = k
    · have hw := hM.writes_at hall hlast hk
      rcases (hbefore.step hlease (hnow _ hlast) (hcareful _ hlast) hw).2 with hheld | hgives
      · exact hheld
      · -- an end of the lease without an effect leaves it as it is
        by_contra hnot
        refine hends _ hlast ⟨hk, hgives, fun hsame => hnot ?_⟩
        dsimp only at hsame
        rw [hsame]
        exact hbefore
    · have hframe := hM.frame_at hall hapart hlast hk
      dsimp only at hframe
      rw [hframe]
      exact hbefore

/-- a claim that is answered leaves the connection held -/
theorem Lawful.claim_held (hM : M.Lawful Apart) (h : Trace M.step s₀ tr s) {c : Entry σ α} (hc : c ∈ tr)
    (hclean : Clean (M.view c.before k)) {lease : String} {expiry : ℤ} (hclaims : M.Claims k lease expiry c) :
    lease = (M.draw c.act).fresh ∧ Held lease expiry (M.view c.after k) := by
  obtain ⟨rfl, hop, stored, hreply, hlease, hexpiry⟩ := hclaims
  obtain ⟨r, x, hbefore, hready, hafter, hfresh, hruns⟩ := hM.claimed c.before c.act stored hop hreply
  have hstep : c.after = (M.answer c.before c.act).2 := h.entry c hc
  obtain rfl := Option.some.inj (hlease.symm.trans hfresh)
  obtain rfl := Option.some.inj (hexpiry.symm.trans hruns)
  rw [hstep]
  refine ⟨rfl, _, hafter, hready, ?_, rfl, rfl⟩
  exact hclean (r, x) hbefore hready

/-- **Leases of a lawful vault.** Every sober run from a state without the connection is safe. -/
theorem Lawful.leaseSafe (hM : M.Lawful Apart) (h : Trace M.step s₀ tr s) (hsober : M.Sober tr)
    (hapart : ∀ e ∈ tr, Apart e.act k) (hstart : M.view s₀ k = none) : M.LeaseSafe k tr := by
  refine ⟨?_, fun e he hk hstale => hstale.unchanged (hM.writes_at h he hk), fun e he hk => hM.frame_at h hapart he hk⟩
  rintro front c between e rest lease expiry rfl hclaims hends hk hnow
  have hc : c ∈ front ++ c :: (between ++ e :: rest) := by simp
  have he : e ∈ front ++ c :: (between ++ e :: rest) := by simp
  have hbetween : ∀ x ∈ between, x ∈ front ++ c :: (between ++ e :: rest) := fun x hx => by simp [hx]
  have hfront : ∀ x ∈ front, x ∈ front ++ c :: (between ++ e :: rest) := fun x hx => by simp [hx]
  -- the run up to the claim, and from there to the step
  have hclean : Clean (M.view c.before k) :=
    hM.clean h.before (fun x hx => hapart x (hfront x hx)) (fun x hx => hsober.careful x (hfront x hx)) hstart
  obtain ⟨hfresh, hheld⟩ := hM.claim_held h hc hclean hclaims
  have hlease : isLease lease = true := hfresh ▸ hsober.fresh c hc
  have hupto : Trace M.step s₀ ((front ++ [c]) ++ between) e.before :=
    (show Trace M.step s₀ (((front ++ [c]) ++ between) ++ e :: rest) s by simpa using h).before
  obtain ⟨u, hu, hrun⟩ := hupto.split
  obtain rfl := hu.last
  have hclock : ∀ x ∈ between, (M.draw x.act).now < expiry := by
    intro x hx
    have hpairs := hsober.clock
    rw [List.pairwise_append, List.pairwise_cons, List.pairwise_append] at hpairs
    exact (hpairs.2.1.2.2.2 x hx e List.mem_cons_self).trans_lt hnow
  have hheld := hM.held hlease hrun (fun x hx => hapart x (hbetween x hx))
    (fun x hx => hsober.careful x (hbetween x hx)) hclock hends hheld
  have hw := hM.writes_at h he hk
  refine ⟨fun hexcluded => ⟨fun hsucceeds => ?_, ?_⟩, fun hchanged => ?_⟩
  · obtain ⟨p, hp, hguard⟩ := hM.guarded e.before e.act hexcluded hsucceeds
    rw [hk] at hp
    exact hheld.guard hlease hnow (hsober.careful e he) hexcluded p hp hguard
  · exact hheld.kept_out hlease hnow (hsober.careful e he) hexcluded hw
  · rcases (hheld.step hlease hnow (hsober.careful e he) hw).1 with hsame | hrotates
    · exact absurd hsame hchanged
    · exact hrotates

end Run

end Machine

/-! ## The vault in memory -/

/-- an operation on a connection -/
structure MemoryCall where
  uid : String
  connectorId : String
  draw : Draw
  op : Op

def memoryVault (L : Libs) : Machine MemoryStore MemoryCall ConnectorSecret where
  libs := L
  key a := (a.uid, a.connectorId)
  op := MemoryCall.op
  draw := MemoryCall.draw
  answer s a := MemoryStore.answer L s ⟨a.draw, "", .on a.uid a.connectorId a.op⟩
  view s k := itemView (Dict.get? s k)

section Memory

variable {L : Libs} {connectorId : String} {draw : Draw} {op : Op} {d : Option StoredConnection}

theorem memory_claimed {stored : StoredConnection}
    (h : (inMemory L connectorId draw .claimExecution d).1 = .ok (.connection (some stored))) :
    ∃ item, d = some item ∧ item.record.status = "ready" ∧ stored = { item with record := leased item.record draw } ∧
      (inMemory L connectorId draw .claimExecution d).2 = some stored := by
  simp only [inMemory, answering, MemoryVault.claimExecution] at h ⊢
  split_ifs at h ⊢
  · cases h
  · cases d with
    | none => cases h
    | some item =>
      dsimp only at h ⊢
      split_ifs at h ⊢ with hready hactive
      · cases h
      · cases h
      · cases h
        exact ⟨item, rfl, not_not.1 hready, rfl, rfl⟩

theorem memory_guarded (hexcluded : op.Excluded) (h : Succeeds (inMemory L connectorId draw op d).1) :
    ∃ item, d = some item ∧ op.Guard draw.now item.record := by
  cases op with
  | claimExecution =>
    simp only [inMemory, answering, MemoryVault.claimExecution] at h
    split_ifs at h
    · exact h.elim
    · cases d with
      | none => exact h.elim
      | some item =>
        dsimp only at h
        split_ifs at h with hready hactive
        · exact h.elim
        · exact h.elim
        · exact ⟨item, rfl, not_not.1 hready, by simpa using hactive⟩
  | beginVerification generation =>
    simp only [inMemory, answering, MemoryVault.beginVerification] at h
    split_ifs at h
    · exact h.elim
    · cases d with
      | none => exact h.elim
      | some item =>
        dsimp only at h
        split_ifs at h with hverifiable
        · exact ⟨item, rfl, hverifiable⟩
        · exact h.elim
  | beginDisconnect =>
    simp only [inMemory, answering, MemoryVault.beginDisconnect] at h
    split_ifs at h
    · exact h.elim
    · cases d with
      | none => exact h.elim
      | some item =>
        dsimp only at h
        split_ifs at h with hdisconnectable
        · exact ⟨item, rfl, hdisconnectable⟩
        · exact h.elim
  | delete generation requireDisconnect =>
    simp only [inMemory, answering, MemoryVault.delete] at h
    split_ifs at h
    · exact h.elim
    · cases d with
      | none => exact h.elim
      | some item =>
        dsimp only at h
        split_ifs at h with hdeletable
        · exact ⟨item, rfl, hdeletable⟩
        · exact h.elim
  | _ => exact hexcluded.elim

theorem memoryVault_lawful (L : Libs) : (memoryVault L).Lawful fun _ _ => True where
  writes s a := by
    have hw := memory_writes L a.connectorId a.draw a.op (Dict.get? s (a.uid, a.connectorId))
    simpa only [memoryVault, MemoryStore.answer, Dict.get?_assign, if_true] using hw
  frame s a k _ hk := by
    have hne : (a.uid, a.connectorId) ≠ k := hk
    simp only [memoryVault, MemoryStore.answer, Dict.get?_assign, if_neg hne]
  claimed s a stored hop hreply := by
    obtain ⟨uid, connectorId, draw, op⟩ := a
    obtain rfl : op = .claimExecution := hop
    obtain ⟨item, hd, hready, rfl, hafter⟩ := memory_claimed hreply
    refine ⟨item.record, item.secret, congrArg itemView hd, hready, ?_, rfl, rfl⟩
    simp only [memoryVault, MemoryStore.answer, Dict.get?_assign, if_true]
    exact congrArg itemView hafter
  guarded s a hexcluded hsucceeds := by
    obtain ⟨item, hd, hguard⟩ := memory_guarded hexcluded hsucceeds
    exact ⟨_, congrArg itemView hd, hguard⟩

end Memory

/-! ## The vault in Firestore -/

/-- an operation on a connection, and what Firestore and KMS do to it -/
structure FirestoreCall where
  uid : String
  connectorId : String
  services : Services
  op : Op

def firestoreVault (V : Platform) : Machine FirestoreStore FirestoreCall Envelope where
  libs := V.libs
  key a := (a.uid, a.connectorId)
  op := FirestoreCall.op
  draw a := a.services.draw
  answer s a :=
    let id := documentId V.libs (a.uid, a.connectorId)
    let (reply, document) := inFirestore V a.uid a.connectorId a.services a.op (Dict.get? s id)
    (reply, Dict.assign s id document)
  -- there is no connection to a connector without a valid name
  view s k := if isConnectorId k.2 = true then documentView (Dict.get? s (documentId V.libs k)) else none

/-- the names of the two documents are different texts with different digests, or the same -/
def DocumentsApart (L : Libs) (a : FirestoreCall) (k : String × String) : Prop :=
  documentId L (a.uid, a.connectorId) = documentId L k →
    a.uid ++ "\x00" ++ a.connectorId = k.1 ++ "\x00" ++ k.2

instance (L : Libs) (a : FirestoreCall) (k : String × String) : Decidable (DocumentsApart L a k) := by
  unfold DocumentsApart
  infer_instance

section Firestore

variable {V : Platform} {uid connectorId : String} {i : Services} {op : Op} {d : Option Document}

theorem succeeds_record {x : Except VaultExn (Option ConnectionRecord) × Option Document}
    (h : Succeeds (answeringExn .record x).1) : ∃ r, x.1 = .ok (some r) := by
  obtain ⟨_ | _ | r, e⟩ := x
  · exact h.elim
  · exact h.elim
  · exact ⟨r, rfl⟩

theorem succeeds_connection {x : Except VaultExn (Option StoredConnection) × Option Document}
    (h : Succeeds (answeringExn .connection x).1) : ∃ stored, x.1 = .ok (some stored) := by
  obtain ⟨_ | _ | stored, e⟩ := x
  · exact h.elim
  · exact h.elim
  · exact ⟨stored, rfl⟩

theorem succeeds_done {x : Except VaultExn Bool × Option Document} (h : Succeeds (answeringExn .done x).1) :
    x.1 = .ok true := by
  obtain ⟨_ | _ | _, e⟩ := x
  · exact h.elim
  · exact h.elim
  · rfl

theorem publicAnswer_ok {x : Except VaultExn (Option Document) × Option Document} {r : ConnectionRecord}
    (h : (publicAnswer x).1 = .ok (some r)) : ∃ doc, x.1 = .ok (some doc) := by
  obtain ⟨_ | _ | doc, e⟩ := x
  · cases h
  · cases h
  · exact ⟨doc, rfl⟩

theorem openAnswer_ok {opening : Option Fault} {x : Except VaultExn (Option Document) × Option Document}
    {stored : StoredConnection} (h : (openAnswer V uid connectorId opening x).1 = .ok (some stored)) :
    ∃ doc, x.1 = .ok (some doc) := by
  obtain ⟨_ | _ | doc, e⟩ := x
  · cases h
  · cases h
  · exact ⟨doc, rfl⟩

theorem verifyTransaction_ok {draw : Draw} {generation : String} {doc : Document} {e : Option Document}
    (h : verifyTransaction V uid draw generation d = .ok (some doc, e)) :
    ∃ old, d = some old ∧ Verifiable old.record generation draw.now := by
  unfold verifyTransaction at h
  split at h
  · cases h
  · rename_i old howned
    split_ifs at h with hverifiable
    · exact ⟨old, mem_owned howned, hverifiable⟩
    · cases h

theorem disconnectTransaction_ok {draw : Draw} {doc : Document} {e : Option Document}
    (h : disconnectTransaction V uid draw d = .ok (some doc, e)) :
    ∃ old, d = some old ∧ Disconnectable old.record draw.now := by
  unfold disconnectTransaction at h
  split at h
  · cases h
  · rename_i old howned
    split_ifs at h with hdisconnectable
    exact ⟨old, mem_owned howned, hdisconnectable⟩

theorem claimTransaction_ok {draw : Draw} {claimed : Document} {e : Option Document}
    (h : claimTransaction V uid draw d = .ok (some claimed, e)) :
    ∃ doc, d = some doc ∧ doc.record.status = "ready" ∧ leaseIsActive doc.record draw.now = false ∧
      claimed = { doc with record := leased doc.record draw } ∧ e = some claimed := by
  unfold claimTransaction at h
  split at h
  · cases h
  · rename_i doc
    split_ifs at h with howner hready hactive
    · cases h
    · cases h
    · cases h
      exact ⟨doc, rfl, not_not.1 hready, by simpa using hactive, rfl, rfl⟩

/-- a claim that is answered has gone through, and its answer opens what it stored -/
theorem claim_ok {i : ClaimInput} {stored : StoredConnection}
    (h : (Vault.claimExecution V uid connectorId i d).1 = .ok (some stored)) :
    ∃ claimed, claimTransaction V uid i.draw d = .ok (some claimed, (Vault.claimExecution V uid connectorId i d).2) ∧
      openDocument V uid connectorId claimed = some stored := by
  unfold Vault.claimExecution at h ⊢
  split_ifs at h ⊢
  have hok := @transact_ok d _ i.commit (claimTransaction V uid i.draw d)
  revert h hok
  generalize transact i.commit d (claimTransaction V uid i.draw d) = x
  obtain ⟨_ | _ | claimed, e⟩ := x
  · intro h
    cases h
  · intro h
    cases h
  · intro h hok
    dsimp only at h ⊢
    split at h
    · cases h
    · split at h
      · rename_i hopening opened hopen
        cases h
        refine ⟨claimed, ?_, hopen⟩
        rw [hok rfl]
      · cases h

theorem firestore_claimed {stored : StoredConnection}
    (h : (inFirestore V uid connectorId i .claimExecution d).1 = .ok (.connection (some stored))) :
    ∃ doc, d = some doc ∧ doc.record.status = "ready" ∧
      (inFirestore V uid connectorId i .claimExecution d).2 = some { doc with record := leased doc.record i.draw } ∧
      stored.record.executionLease = some i.draw.fresh ∧
      stored.record.executionLeaseExpiresAt = some (i.draw.started + executionLeaseSeconds) := by
  have hreply : (Vault.claimExecution V uid connectorId ⟨i.draw, i.commit, i.opening⟩ d).1 = .ok (some stored) := by
    simp only [inFirestore, answeringExn, answering] at h
    revert h
    generalize (Vault.claimExecution V uid connectorId ⟨i.draw, i.commit, i.opening⟩ d).1 = x
    intro h
    cases x with
    | error e => cases h
    | ok a =>
      cases h
      rfl
  obtain ⟨claimed, htransaction, hopen⟩ := claim_ok hreply
  obtain ⟨doc, rfl, hready, -, rfl, hafter⟩ := claimTransaction_ok htransaction
  rw [openDocument_leased] at hopen
  obtain ⟨opened, -, rfl⟩ := Option.map_eq_some_iff.1 hopen
  exact ⟨doc, rfl, hready, hafter, rfl, rfl⟩

theorem firestore_guarded (hexcluded : op.Excluded) (h : Succeeds (inFirestore V uid connectorId i op d).1) :
    ∃ doc, d = some doc ∧ op.Guard i.draw.now doc.record := by
  cases op with
  | claimExecution =>
    obtain ⟨stored, hreply⟩ := succeeds_connection h
    obtain ⟨claimed, htransaction, -⟩ := claim_ok hreply
    obtain ⟨doc, hd, hready, hfree, -⟩ := claimTransaction_ok htransaction
    exact ⟨doc, hd, hready, hfree⟩
  | beginVerification generation =>
    obtain ⟨r, hreply⟩ := succeeds_record h
    unfold Vault.beginVerification at hreply
    split_ifs at hreply
    obtain ⟨doc, hdoc⟩ := publicAnswer_ok hreply
    exact verifyTransaction_ok (transact_ok hdoc)
  | beginDisconnect =>
    obtain ⟨stored, hreply⟩ := succeeds_connection h
    unfold Vault.beginDisconnect at hreply
    split_ifs at hreply
    obtain ⟨doc, hdoc⟩ := openAnswer_ok hreply
    exact disconnectTransaction_ok (transact_ok hdoc)
  | delete generation requireDisconnect =>
    have hreply := succeeds_done h
    unfold Vault.delete at hreply
    split_ifs at hreply
    have htransaction := transact_ok hreply
    unfold deleteTransaction at htransaction
    split at htransaction
    · cases htransaction
    · rename_i doc howned
      split_ifs at htransaction with hdeletable
      · exact ⟨doc, mem_owned howned, hdeletable⟩
      · cases htransaction
  | _ => exact hexcluded.elim

/-- only an operation on a connector with a valid name succeeds -/
theorem succeeds_valid (h : Succeeds (inFirestore V uid connectorId i op d).1) : isConnectorId connectorId = true := by
  cases hid : isConnectorId connectorId with
  | true => rfl
  | false =>
    have hrefused := (@op_refused uid connectorId none d V hid i.draw op i).2
    rw [hrefused] at h
    exact h.elim

theorem firestoreVault_lawful (V : Platform) : (firestoreVault V).Lawful (DocumentsApart V.libs) where
  writes s a := by
    have hw := firestore_writes V a.uid a.connectorId a.services a.op
      (Dict.get? s (documentId V.libs (a.uid, a.connectorId)))
    simp only [firestoreVault, Dict.get?_assign, if_true]
    split_ifs
    · exact hw
    · exact .same
  frame s a k hapart hk := by
    simp only [firestoreVault]
    split_ifs with hvalid
    · cases hid : isConnectorId a.connectorId with
      | true =>
        have hne : documentId V.libs (a.uid, a.connectorId) ≠ documentId V.libs k := by
          intro hsame
          exact hk (key_inj hid hvalid (hapart hsame))
        rw [Dict.get?_assign, if_neg hne]
      | false =>
        have hrefused := (@op_refused a.uid a.connectorId none
          (Dict.get? s (documentId V.libs (a.uid, a.connectorId))) V hid a.services.draw a.op a.services).2
        rw [hrefused, Dict.assign_get?]
    · rfl
  claimed s a stored hop hreply := by
    obtain ⟨uid, connectorId, services, op⟩ := a
    obtain rfl : op = .claimExecution := hop
    obtain ⟨doc, hd, hready, hafter, hlease, hexpiry⟩ := firestore_claimed hreply
    have hanswer : (inFirestore V uid connectorId services .claimExecution
        (Dict.get? s (documentId V.libs (uid, connectorId)))).1 = .ok (.connection (some stored)) := hreply
    have hvalid : isConnectorId connectorId = true := succeeds_valid (by rw [hanswer]; trivial)
    refine ⟨doc.record, doc.envelope, ?_, hready, ?_, hlease, hexpiry⟩
    · simp only [firestoreVault, hvalid, if_true]
      exact congrArg documentView hd
    · simp only [firestoreVault, hvalid, if_true, Dict.get?_assign]
      exact congrArg documentView hafter
  guarded s a hexcluded hsucceeds := by
    obtain ⟨doc, hd, hguard⟩ := firestore_guarded hexcluded hsucceeds
    have hvalid : isConnectorId a.connectorId = true := succeeds_valid hsucceeds
    refine ⟨(doc.record, doc.envelope), ?_, hguard⟩
    simp only [firestoreVault, hvalid, if_true]
    exact congrArg documentView hd

end Firestore

/-! ## Runs of both vaults -/

/-- **Leases are exclusive.** In any sober run of either vault from no records: from an answered claim until its lease is
given back or runs out no other claim, verification, disconnect or delete succeeds, and only a rotation under the lease
changes the credential; an operation with an old generation or lease changes nothing, and no operation on another
connection reaches this one. -/
theorem lease_is_exclusive :
    (∀ (L : Libs) (k : String × String) (tr : List (Entry MemoryStore MemoryCall)) (s : MemoryStore),
      Trace (memoryVault L).step [] tr s → (memoryVault L).Sober tr → (memoryVault L).LeaseSafe k tr) ∧
    ∀ (V : Platform) (k : String × String) (tr : List (Entry FirestoreStore FirestoreCall)) (s : FirestoreStore),
      Trace (firestoreVault V).step [] tr s → (firestoreVault V).Sober tr → (∀ e ∈ tr, DocumentsApart V.libs e.act k) →
        (firestoreVault V).LeaseSafe k tr := by
  constructor
  · intro L k tr s hrun hsober
    exact (memoryVault_lawful L).leaseSafe hrun hsober (fun _ _ => trivial) rfl
  · intro V k tr s hrun hsober hapart
    refine (firestoreVault_lawful V).leaseSafe hrun hsober hapart ?_
    simp [firestoreVault, documentView]

/-! ## A run of each -/

/-- the libraries of the sample, and the digest of a manifest of one tool -/
def certifiedLibs : Libs :=
  { sampleGoogle.libs with
    sha256 := fun text =>
      if text = "[[\"search\",\"44136fa355b3678a1146ad16f7e8649e94fb4fc21fe77e8310c060f61caaff8a\"]]" then
        "dcf4f08174acac3e3d9f337bc43db44456f93e9f0901ac0a7768d0a8c78ceb20"
      else sampleGoogle.libs.sha256 text }

def certifiedVault : Platform := ⟨certifiedLibs, sampleGoogle.openEnvelope⟩

/-- the certificate of one tool -/
def sampleCertificate : Certificate where
  toolCount := 1
  canaryTool := some "search"
  toolSchemaSha256 := some "44136fa355b3678a1146ad16f7e8649e94fb4fc21fe77e8310c060f61caaff8a"
  proofVersion := some certificationSchema
  certifiedTools := [("search", "44136fa355b3678a1146ad16f7e8649e94fb4fc21fe77e8310c060f61caaff8a")]
  certifiedManifestSha256 := some "dcf4f08174acac3e3d9f337bc43db44456f93e9f0901ac0a7768d0a8c78ceb20"

/-- a text of 32 digits -/
def sampleText (c : Char) : String := .ofList (List.replicate 32 c)

/-- a credential is stored and verified; two callers claim it, the second before the lease of the first runs out -/
def sampleOps : List (Draw × Op) :=
  [(⟨0, 0, "1970-01-01T00:00:00Z", sampleText '1'⟩, .put sampleToken),
    (⟨1, 1, "1970-01-01T00:00:00Z", sampleText '2'⟩, .beginVerification (sampleText '1')),
    (⟨2, 2, "1970-01-01T00:00:00Z", sampleText '3'⟩,
      .finishVerification (sampleText '1') (sampleText '2') ⟨"ready", none, sampleCertificate⟩),
    (⟨3, 3, "1970-01-01T00:00:00Z", sampleText '4'⟩, .claimExecution),
    (⟨4, 4, "1970-01-01T00:00:00Z", sampleText '5'⟩, .claimExecution)]

def sampleMemoryRun : List (Entry MemoryStore MemoryCall) :=
  entries (fun s a => ((memoryVault certifiedLibs).answer s a).2) [] (sampleOps.map fun p => ⟨"ann", "slack", p.1, p.2⟩)

/-- services that work, with the envelope of the credential -/
def sampleServices (draw : Draw) : Services where
  draw := draw
  sealing := .ok ⟨"rally.connector-secret/v1", "", samplePayload, associatedData "ann" "slack", ""⟩
  commit := .done
  opening := none
  reading := none

def sampleFirestoreRun : List (Entry FirestoreStore FirestoreCall) :=
  entries (fun s a => ((firestoreVault certifiedVault).answer s a).2) [] (sampleOps.map fun p =>
    ⟨"ann", "slack", sampleServices p.1, p.2⟩)

theorem lease_is_exclusive_sample :
    (memoryVault certifiedLibs).LeaseSafe ("ann", "slack") sampleMemoryRun ∧
      (firestoreVault certifiedVault).LeaseSafe ("ann", "slack") sampleFirestoreRun ∧
      sampleMemoryRun.map (fun e => decide (((memoryVault certifiedLibs).answer e.before e.act).1 =
        .error (.vault .busy))) = [false, false, false, false, true] ∧
      sampleFirestoreRun.map (fun e => decide (((firestoreVault certifiedVault).answer e.before e.act).1 =
        .error (.vault .busy))) = [false, false, false, false, true] := by
  obtain ⟨s, hmemory⟩ : ∃ s, Trace (memoryVault certifiedLibs).step [] sampleMemoryRun s :=
    trace_entries _ (fun s a => ((memoryVault certifiedLibs).answer s a).2) [] _ fun e he => entries_after e he
  obtain ⟨t, hfirestore⟩ : ∃ t, Trace (firestoreVault certifiedVault).step [] sampleFirestoreRun t :=
    trace_entries _ (fun s a => ((firestoreVault certifiedVault).answer s a).2) [] _ fun e he => entries_after e he
  refine ⟨lease_is_exclusive.1 certifiedLibs _ sampleMemoryRun s hmemory ?_,
    lease_is_exclusive.2 certifiedVault _ sampleFirestoreRun t hfirestore ?_ ?_, ?_, ?_⟩
  · exact ⟨by decide +kernel, by decide +kernel, by decide +kernel⟩
  · exact ⟨by decide +kernel, by decide +kernel, by decide +kernel⟩
  · decide +kernel
  · decide +kernel
  · decide +kernel

end Rally.Cloud.Vaults
