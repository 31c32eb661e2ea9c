/-
The lease of a hosted call: the claim leaves a lease in the document of the connection, and the call gives it back.

- `Custody`: who knows of a lease while the call runs. `execute_custody`: the call asks for one claim, uses only the lease
  that the claim answered with, and does not end with a lease it knows of and has not tried to give back.
- `Acts`, `History`: what the vault makes of the calls in a trace, with what others write in between.
- `lease_given_back`: a committed lease is given back where the claim's reply came through, and otherwise only runs out.
  `silent_claim_leaks` is a call of the other kind.
-/
import Rally.Cloud.Vault
import Rally.Core.Watch

namespace Rally.Cloud

open Proc

/-! ## Custody -/

/-- where a call stands with its lease -/
inductive Custody where
  | idle
  /-- the claim answered with a connection under this lease -/
  | held (lease : Option String)
  /-- the claim raised -/
  | lost
  | over

/-- what an event does to the custody -/
def Custody.next : Custody → Ev → Custody
  | .idle, .vault _ _ (.claim (.ok (some stored))) => .held stored.record.executionLease
  | .idle, .vault _ _ (.claim (.ok none)) => .over
  | .idle, .vault _ _ (.claim (.error _)) => .lost
  | .held _, .vault _ _ (.quarantine _ _ _ (.ok true)) => .over
  | .held _, .vault _ _ (.release _ _) => .over
  | c, _ => c

/-- an event that may come where the custody stands; calls of the vault are for the connection of the request -/
inductive Custody.Fine (req : Request) : Custody → Ev → Prop where
  | receipt {c : Custody} {uid : String} {r : ExecutionReceipt} {a : Except Exn Unit} : Fine req c (.receipt uid r a)
  | claim {a : Except Exn (Option StoredConnection)} : Fine req .idle (.vault req.uid req.connectorId (.claim a))
  | get {lease : Option String} {a : Except Exn (Option StoredConnection)} :
      Fine req (.held lease) (.vault req.uid req.connectorId (.get a))
  | rotate {lease : Option String} {g l : String} {x y : ConnectorSecret} {a : Except Exn (Option ConnectionRecord)} :
      Fine req (.held lease) (.vault req.uid req.connectorId (.rotate g l x y a))
  | refresh {lease : Option String} {x : ConnectorSecret} {a : Except Exn String} : Fine req (.held lease) (.refresh x a)
  | tool {lease : Option String} {e : String} {h : List (String × String)} {n : String} {v : List (String × Py.Value)}
      {d : String} {a : Except Exn HostedCallResult} : Fine req (.held lease) (.tool e h n v d a)
  | quarantine {lease g : String} {x : ConnectorSecret} {a : Except Exn Bool} :
      Fine req (.held (some lease)) (.vault req.uid req.connectorId (.quarantine g lease x a))
  | release {lease : String} {a : Except Exn Bool} :
      Fine req (.held (some lease)) (.vault req.uid req.connectorId (.release lease a))
  | look {a : Except Exn (Option StoredConnection)} : Fine req .over (.vault req.uid req.connectorId (.get a))

/-- the monitor of custody -/
def custody (req : Request) : Monitor Ev Custody := ⟨Custody.next, Custody.Fine req⟩

/-- the lease in the local variables is the lease in custody -/
def Keeping (s : Locals) (c : Custody) : Prop :=
  match c with
  | .held lease => s.lease = lease
  | _ => s.lease = none

/-- the custody of this lease, and nothing given back -/
def Holding (lease : Option String) (s : Locals) (c : Custody) : Prop := c = .held lease ∧ s.lease = lease

/-- no lease is left in custody -/
def Settled (c : Custody) : Prop := ∀ lease, c ≠ .held (some lease)

theorem Holding.keeping {lease : Option String} {s : Locals} {c : Custody} (h : Holding lease s c) : Keeping s c := by
  obtain ⟨rfl, h⟩ := h
  exact h

section Custody

variable {L : Libs} {req : Request} {w : World} {s : Locals} {c : Custody} {lease : Option String}

/-! ## Steps under custody -/

/-- receipts are no matter of custody -/
theorem next_receipt (c : Custody) (uid : String) (r : ExecutionReceipt) (a : Except Exn Unit) :
    c.next (.receipt uid r a) = c := by
  cases c <;> rfl

/-- a step that neither claims nor gives back -/
abbrev Carries (req : Request) (lease : Option String) {α : Type} (p : Step α) (s : Locals) (c : Custody) : Prop :=
  Watches (custody req) c p s fun _ u d => Holding lease u d

theorem watches_record {q : Locals → Custody → Prop} (h : q s c) (receipt : ExecutionReceipt)
    (answer : Except Fault Unit) : Watches (custody req) c (record req receipt answer) s fun _ u d => q u d := by
  refine watches_attempt (r := fun _ u d => q u d) (watches_await .receipt ?_) (fun _ _ _ h => h) fun e u d hu => ?_
  · rwa [show (custody req).next c _ = c from next_receipt c _ _ _]
  split_ifs
  · exact watches_raise hu
  · exact watches_raise hu

theorem carries_refresh (h : Holding lease s c) (item : HostedConnector) (previous : ConnectorSecret)
    (generation l : String) (now : ℤ) (answers : RefreshAnswers) :
    Carries req lease (refresh L req item previous generation l now answers) s c := by
  refine watches_then (r := Holding lease) ?_ fun inUse u d hu => ?_
  · obtain ⟨rfl, hlease⟩ := h
    refine watches_then (r := Holding lease) (watches_await .refresh ⟨rfl, hlease⟩) fun value u d hu => ?_
    obtain ⟨rfl, hlease⟩ := hu
    cases ConnectorSecret.make value previous.kind with
    | none => exact watches_raise ⟨rfl, hlease⟩
    | some refreshed =>
      refine watches_then (r := Holding lease) (watches_await .rotate ⟨rfl, hlease⟩) fun rotated u d hu => ?_
      obtain ⟨rfl, hlease⟩ := hu
      cases rotated with
      | some record =>
        exact watches_then (r := Holding lease) (watches_lift ⟨rfl, hlease⟩) fun material u d hu => watches_ret hu
      | none =>
        exact watches_then (r := Holding lease) (watches_await .get ⟨rfl, hlease⟩) fun winner u d hu => watches_lift hu
  · exact watches_then (r := Holding lease) (watches_set hu) fun _ u d hu => watches_ret hu

theorem carries_openCredential (h : Holding lease s c) (item : HostedConnector) (stored : StoredConnection) (l : String) :
    Carries req lease (openCredential L req w item stored l) s c := by
  refine watches_attempt (r := fun _ => Holding lease)
    (watches_then (r := Holding lease) (watches_lift h) fun material u d hu => watches_ret hu) (fun _ _ _ h => h)
    fun e u d hu => ?_
  split
  · split_ifs
    · exact watches_then (r := Holding lease) (carries_refresh hu _ _ _ _ _ _) fun inUse u d hu => watches_ret hu
    · exact watches_raise hu
  · exact watches_raise hu

theorem carries_callTool (h : Holding lease s c) (endpoint name schema : String) (arguments : List (String × Py.Value))
    (material : RuntimeMaterial) (provider : Provider) :
    Carries req lease (callTool L endpoint name arguments schema material provider) s c := by
  obtain ⟨rfl, hlease⟩ := h
  refine watches_then (r := Holding lease) (watches_await .tool ⟨rfl, hlease⟩) fun called u d hu => ?_
  exact watches_then (r := Holding lease) (watches_set hu) fun _ u d hu => watches_ret hu

theorem carries_callProvider (h : Holding lease s c) (item : HostedConnector) (arguments : List (String × Py.Value))
    (schema l : String) (inUse : InUse) (refreshedOnce : Bool) :
    Carries req lease (callProvider L req w item arguments schema l inUse refreshedOnce) s c := by
  refine watches_then (r := Holding lease) (watches_lift h) fun routed u d hu => ?_
  refine watches_attempt (r := fun _ => Holding lease)
    (watches_then (r := Holding lease) (carries_callTool hu _ _ _ _ _ _) fun called u d hu => watches_ret hu)
    (fun _ _ _ h => h) fun e u d hu => ?_
  split
  · split_ifs
    · refine watches_then (r := Holding lease) (carries_refresh hu _ _ _ _ _ _) fun again u d hu => ?_
      refine watches_then (r := Holding lease) (watches_lift hu) fun routed u d hu => ?_
      exact watches_then (r := Holding lease) (carries_callTool hu _ _ _ _ _ _) fun called u d hu => watches_ret hu
    · exact watches_raise hu
  · exact watches_raise hu

theorem carries_checkResult (h : Holding lease s c) (called : HostedCallResult) (material : RuntimeMaterial)
    (resultCap : ℕ) : Carries req lease (checkResult L called material resultCap) s c := by
  refine watches_then (r := Holding lease) (watches_lift h) fun encoded u d hu => ?_
  refine watches_then (r := Holding lease) (watches_set hu) fun _ u d hu => ?_
  refine watches_then (r := Holding lease) (watches_refuse (fun _ => hu) fun _ => hu) fun _ u d hu => ?_
  refine watches_then (r := Holding lease) (watches_refuse (fun _ => hu) fun _ => hu) fun _ u d hu => ?_
  exact watches_refuse (fun _ => hu) fun _ => hu

/-! ## Claiming and giving back -/

/-- a claim answers with a connection, whose lease is in custody from then on, or there is none to give back -/
theorem watches_claim (h : s.lease = none) :
    Watches (custody req) .idle (claimConnection req w) s fun out u d =>
      u.lease = none ∧ match out with
        | .ok stored => d = .held stored.record.executionLease
        | .error _ => Settled d ∧ Keeping u d := by
  refine watches_bind (r := fun out u d => u.lease = none ∧ match out with
      | .ok (some stored) => d = .held stored.record.executionLease
      | .ok none => d = .over
      | .error _ => d = .lost) ?_ (fun claimed u d hu => ?_) fun e u d hu => ?_
  · refine watches_attempt (r := fun out u d => u.lease = none ∧ d = Custody.next .idle
        (.vault req.uid req.connectorId (.claim out))) (watches_await .claim ⟨h, rfl⟩) (fun a u d hu => ?_)
      fun e u d hu => ?_
    · cases a with
      | some stored => exact hu
      | none => exact hu
    · split
      · exact watches_raise hu
      · exact watches_raise hu
  · obtain ⟨hlease, hu⟩ := hu
    cases claimed with
    | some stored => exact watches_ret ⟨hlease, hu⟩
    | none =>
      subst hu
      have hover : Settled .over := fun l h => nomatch h
      exact watches_bind (r := fun _ u d => u.lease = none ∧ d = .over) (watches_await .look ⟨hlease, rfl⟩)
        (fun current u d hu => watches_raise ⟨hu.1, hu.2 ▸ hover, hu.2 ▸ hu.1⟩)
        fun e u d hu => ⟨hu.1, hu.2 ▸ hover, hu.2 ▸ hu.1⟩
  · obtain ⟨hlease, rfl⟩ := hu
    have hlost : Settled .lost := fun l h => nomatch h
    refine ⟨hlease, ?_⟩
    exact ⟨hlost, hlease⟩

theorem watches_body (h : s.lease = none) (arguments : List (String × Py.Value)) (started : ExecutionReceipt) :
    Watches (custody req) .idle (body L req w arguments started) s fun _ u d => Keeping u d := by
  refine watches_bind (r := fun _ u d => u.lease = none ∧ d = .idle) (watches_record ⟨h, rfl⟩ _ _) (fun _ u d hu => ?_)
    fun e u d hu => hu.2 ▸ hu.1
  obtain ⟨hlease, rfl⟩ := hu
  refine watches_bind (r := fun _ u d => u.lease = none ∧ d = .idle) (watches_lift ⟨hlease, rfl⟩)
    (fun item u d hu => ?_) fun e u d hu => hu.2 ▸ hu.1
  obtain ⟨hlease, rfl⟩ := hu
  refine watches_bind (watches_claim hlease) (fun stored u d hu => ?_) fun e u d hu => hu.2.2
  obtain ⟨-, rfl⟩ := hu
  -- from here on the lease is in custody, whatever is raised
  refine Watches.mono (q := fun _ => Holding stored.record.executionLease) ?_ fun _ _ _ hu => hu.keeping
  refine watches_then (r := Holding stored.record.executionLease) (watches_set ⟨rfl, rfl⟩) fun _ u d hu => ?_
  refine watches_then (r := Holding stored.record.executionLease) (watches_lift hu) fun _ u d hu => ?_
  refine watches_then (r := Holding stored.record.executionLease) (watches_set hu) fun _ u d hu => ?_
  refine watches_then (r := Holding stored.record.executionLease) (carries_openCredential hu _ _ _)
    fun opened u d hu => ?_
  refine watches_then (r := Holding stored.record.executionLease) (watches_lift hu) fun enforced u d hu => ?_
  refine watches_then (r := Holding stored.record.executionLease) (watches_set hu) fun _ u d hu => ?_
  split
  · exact watches_raise hu
  · exact watches_then (r := Holding stored.record.executionLease) (carries_callProvider hu _ _ _ _ _ _)
      fun answered u d hu => carries_checkResult hu _ _ _

theorem watches_settle (h : s.lease = none) (arguments : List (String × Py.Value)) (started : ExecutionReceipt) :
    Watches (custody req) .idle (settle L req w arguments started) s fun _ u d => Keeping u d := by
  refine watches_attempt (r := fun _ u d => Keeping u d) (watches_body h arguments started) (fun _ _ _ h => h)
    fun e u d hu => ?_
  split
  · exact watches_set (by cases d <;> exact hu)
  · exact watches_raise hu

/-- the custody after a quarantine has answered -/
def afterDemotion (l : String) : Except Exn Bool → Custody
  | .ok true => .over
  | _ => .held (some l)

/-- a quarantine that answers with `true` ends the lease; any other leaves it in custody -/
theorem watches_require {l : String} (h : s.lease = some l) (expected : ConnectorSecret) (generation : String) :
    Watches (custody req) (.held (some l)) (requireReconnect req w expected generation l) s fun out u d =>
      u.lease = some l ∧ match out with
        | .ok _ => d = .over
        | .error _ => d = .held (some l) := by
  refine watches_bind (r := fun out u d => u.lease = some l ∧ d = afterDemotion l out) ?_ (fun demoted u d hu => ?_)
    fun e u d hu => hu
  · refine watches_attempt (r := fun out u d => u.lease = some l ∧ d = Custody.next (.held (some l))
        (.vault req.uid req.connectorId (.quarantine generation l expected out))) (watches_await .quarantine ⟨h, rfl⟩)
      (fun demoted u d hu => ?_) fun e u d hu => ?_
    · cases demoted with
      | true => exact hu
      | false => exact hu
    · split
      · exact watches_raise hu
      · exact watches_raise hu
  · cases demoted with
    | true => exact watches_ret hu
    | false => exact watches_raise hu

theorem watches_quarantine (h : Keeping s c) :
    Watches (custody req) c (quarantineUnusable req w) s fun _ u d => Keeping u d := by
  refine watches_get ?_
  split
  · rename_i code secret generation l hcode hsecret hgeneration hlease
    have hc : c = .held (some l) := by
      cases c with
      | held lease => rw [← show s.lease = lease from h, hlease]
      | _ => exact absurd (hlease.symm.trans h) (by simp)
    subst hc
    split_ifs
    · refine watches_attempt (r := fun out u d => match out with
          | .ok _ => Keeping u d
          | .error _ => Holding (some l) u d) ?_ (fun _ _ _ h => h) fun e u d hu => ?_
      · refine watches_bind (watches_require hlease secret generation) (fun _ u d hu => ?_)
          fun e u d hu => ⟨hu.2, hu.1⟩
        obtain ⟨-, rfl⟩ := hu
        exact watches_set rfl
      · have hfailed : ∀ code, Holding (some l) { u with failure := some code } d := fun code => hu
        split
        · exact watches_set (hfailed _).keeping
        · exact watches_set (hfailed _).keeping
        · exact watches_raise hu.keeping
    · exact watches_ret h
  · exact watches_ret h

/-- the `finally` part asks for the release of a lease that is still in custody -/
theorem watches_release (h : Keeping s c) :
    Watches (custody req) c (releaseLease req w) s fun _ _ d => Settled d := by
  refine watches_get ?_
  split
  · rename_i hlease
    refine watches_ret fun l hc => ?_
    subst hc
    exact absurd (hlease.symm.trans h) (by simp)
  · rename_i l hlease
    have hc : c = .held (some l) := by
      cases c with
      | held lease => rw [← show s.lease = lease from h, hlease]
      | _ => exact absurd (hlease.symm.trans h) (by simp)
    subst hc
    have hover : Settled .over := fun l h => nomatch h
    refine watches_attempt (r := fun _ _ d => Settled d) ?_ (fun _ _ _ h => h) fun e u d hu => ?_
    · refine watches_then (r := fun _ d => Settled d) (watches_await .release hover) fun released u d hu => ?_
      split_ifs
      · exact watches_ret hu
      · exact watches_set hu
    · split
      · exact watches_set hu
      · exact watches_set hu
      · exact watches_raise hu

theorem watches_finish (h : Settled c) (started : ExecutionReceipt) :
    Watches (custody req) c (finish L req w started) s fun _ _ d => Settled d := by
  refine watches_get ?_
  split
  · exact watches_then (r := fun _ d => Settled d) (watches_record h _ _) fun _ u d hu => watches_ret hu
  · exact watches_then (r := fun _ d => Settled d) (watches_record h _ _) fun _ u d hu => watches_raise hu

/-- a call never ends with a lease that it knows of and has not tried to give back -/
theorem execute_custody (L : Libs) (req : Request) (w : World) :
    Watches (custody req) .idle (execute L req w) {} fun _ _ d => Settled d := by
  have hidle : Settled .idle := fun l h => nomatch h
  refine watches_bind (r := fun _ u d => u.lease = none ∧ d = .idle) (watches_lift ⟨rfl, rfl⟩) (fun arguments u d hu => ?_)
    fun e u d hu => hu.2 ▸ hidle
  obtain ⟨hlease, rfl⟩ := hu
  refine watches_bind (r := fun _ u d => u.lease = none ∧ d = .idle) (watches_lift ⟨hlease, rfl⟩)
    (fun encoded u d hu => ?_) fun e u d hu => hu.2 ▸ hidle
  obtain ⟨hlease, rfl⟩ := hu
  refine watches_then (r := fun _ d => Settled d) (watches_cleanup (r := Keeping) ?_ fun u d hu => ?_)
    fun _ u d hu => watches_finish hu _
  · exact watches_then (r := Keeping) (watches_settle hlease _ _) fun _ u d hu => watches_quarantine hu
  · exact (watches_release hu).mono fun _ _ _ h _ => h

/-! ## Traces under custody -/

/-- an event that gives a lease back, whether or not the attempt succeeds -/
inductive GivesBack (req : Request) (lease : String) : Ev → Prop where
  | release {a : Except Exn Bool} : GivesBack req lease (.vault req.uid req.connectorId (.release lease a))
  | quarantine {g : String} {x : ConnectorSecret} :
      GivesBack req lease (.vault req.uid req.connectorId (.quarantine g lease x (.ok true)))

inductive IsClaim : Ev → Prop where
  | claim {uid connectorId : String} {a : Except Exn (Option StoredConnection)} : IsClaim (.vault uid connectorId (.claim a))

/-- what may come once the claim has been answered is no claim, and does not lead back -/
theorem fine_no_claim {ev : Ev} (hc : c ≠ .idle) (h : Custody.Fine req c ev) : ¬ IsClaim ev ∧ c.next ev ≠ .idle := by
  cases h with
  | receipt => rw [next_receipt]; exact ⟨(nomatch ·), hc⟩
  | claim => exact absurd rfl hc
  | quarantine =>
    rename_i a
    refine ⟨(nomatch ·), ?_⟩
    rcases a with e | (_ | _)
    · exact hc
    · exact hc
    · exact (nomatch ·)
  | release => exact ⟨(nomatch ·), (nomatch ·)⟩
  | _ => exact ⟨(nomatch ·), hc⟩

/-- nothing is claimed once the claim has been answered -/
theorem no_claim {l : List Ev} (hc : c ≠ .idle) (h : (custody req).Accepts c l) : ∀ ev ∈ l, ¬ IsClaim ev := by
  induction l generalizing c with
  | nil => exact fun ev hev => nomatch hev
  | cons ev l ih =>
    obtain ⟨hfine, hrest⟩ := ((custody req).accepts_cons c ev l).1 h
    obtain ⟨hclaim, hnext⟩ := fine_no_claim hc hfine
    intro x hx
    rcases List.mem_cons.1 hx with rfl | hx
    · exact hclaim
    · exact ih hnext hrest x hx

/-- a lease does not leave custody but by an attempt to give it back -/
theorem given_back {l : List Ev} {lease : String} (h : (custody req).Accepts (.held (some lease)) l)
    (hend : Settled ((custody req).after (.held (some lease)) l)) :
    ∃ before ev rest, l = before ++ ev :: rest ∧ GivesBack req lease ev ∧ ∀ x ∈ rest, ¬ IsClaim x := by
  induction l with
  | nil => exact absurd rfl (hend lease)
  | cons ev l ih =>
    obtain ⟨hfine, hrest⟩ := ((custody req).accepts_cons _ ev l).1 h
    rw [Monitor.after_cons] at hend
    -- an event that leaves the lease in custody
    have hstays : (custody req).next (.held (some lease)) ev = .held (some lease) →
        ∃ before x rest, ev :: l = before ++ x :: rest ∧ GivesBack req lease x ∧ ∀ y ∈ rest, ¬ IsClaim y := by
      intro hnext
      rw [hnext] at hrest hend
      obtain ⟨before, x, rest, rfl, hgives, hclaims⟩ := ih hrest hend
      exact ⟨ev :: before, x, rest, rfl, hgives, hclaims⟩
    have hover : Custody.over ≠ .idle := nofun
    cases hfine with
    | quarantine =>
      rename_i g x a
      rcases a with e | (_ | _)
      · exact hstays rfl
      · exact hstays rfl
      · exact ⟨[], _, l, rfl, .quarantine, no_claim hover hrest⟩
    | release => exact ⟨[], _, l, rfl, .release, no_claim hover hrest⟩
    | _ => exact hstays rfl

/-- after a claim that raised there are only receipts -/
theorem lost_receipts {l : List Ev} (h : (custody req).Accepts .lost l) :
    ∀ ev ∈ l, ∃ uid r a, ev = .receipt uid r a := by
  induction l with
  | nil => exact fun ev hev => nomatch hev
  | cons ev l ih =>
    obtain ⟨hfine, hrest⟩ := ((custody req).accepts_cons .lost ev l).1 h
    cases hfine with
    | receipt =>
      intro x hx
      rcases List.mem_cons.1 hx with rfl | hx
      · exact ⟨_, _, _, rfl⟩
      · exact ih hrest x hx

end Custody

/-! ## The document during a call -/

open Vault

section History

variable (V : Platform) (uid connectorId : String)

/-- what the vault answers to a call, and the document it leaves -/
inductive Does : Option Document → VaultCall → Option Document → Prop where
  | claim (i : ClaimInput) (d : Option Document) :
      Does d (.claim ((claimExecution V uid connectorId i d).1.mapError VaultExn.exn))
        (claimExecution V uid connectorId i d).2
  | get (i : GetInput) (d : Option Document) :
      Does d (.get ((getConnection V uid connectorId i d).mapError VaultExn.exn)) d
  | rotate (i : WriteInput) (generation lease : String) (expected secret : ConnectorSecret) (d : Option Document) :
      Does d (.rotate generation lease expected secret
          ((rotate V uid connectorId i generation lease expected secret d).1.mapError VaultExn.exn))
        (rotate V uid connectorId i generation lease expected secret d).2
  | quarantine (i : WriteInput) (generation lease : String) (expected : ConnectorSecret) (d : Option Document) :
      Does d (.quarantine generation lease expected
          ((quarantine V uid connectorId i generation lease "reconnect_required" expected d).1.mapError VaultExn.exn))
        (quarantine V uid connectorId i generation lease "reconnect_required" expected d).2
  | release (i : WriteInput) (lease : String) (d : Option Document) :
      Does d (.release lease ((releaseExecution V uid connectorId i lease d).1.mapError VaultExn.exn))
        (releaseExecution V uid connectorId i lease d).2

/-- what an event makes of the document of the connection -/
inductive Acts : Option Document → Ev → Option Document → Prop where
  | vault {d e : Option Document} {call : VaultCall} (h : Does V uid connectorId d call e) :
      Acts d (.vault uid connectorId call) e
  | receipt {d : Option Document} {u : String} {r : ExecutionReceipt} {a : Except Exn Unit} : Acts d (.receipt u r a) d
  | refresh {d : Option Document} {x : ConnectorSecret} {a : Except Exn String} : Acts d (.refresh x a) d
  | tool {d : Option Document} {e : String} {h : List (String × String)} {n : String} {v : List (String × Py.Value)}
      {s : String} {a : Except Exn HostedCallResult} : Acts d (.tool e h n v s a) d

/-- the document from the start to the end of a trace, with what others make of it at any time -/
inductive History (Other : Option Document → Option Document → Prop) :
    Option Document → List Ev → Option Document → Prop where
  | nil {d : Option Document} : History Other d [] d
  | event {d e f : Option Document} {ev : Ev} {l : List Ev} (h : Acts V uid connectorId d ev e)
      (rest : History Other e l f) : History Other d (ev :: l) f
  | other {d e f : Option Document} {l : List Ev} (h : Other d e) (rest : History Other e l f) : History Other d l f

/-- what others do that neither starts this lease nor extends it -/
def Respects (lease : String) (Other : Option Document → Option Document → Prop) : Prop :=
  ∀ d e expiry, Other d e → leaseOf V uid e = some (lease, expiry) → leaseOf V uid d = some (lease, expiry)

/-- the calls of others, whose claims draw other texts -/
inductive Elsewhere (lease : String) : Option Document → Option Document → Prop where
  | claim (i : ClaimInput) (d : Option Document) (h : i.draw.fresh ≠ lease) :
      Elsewhere lease d (claimExecution V uid connectorId i d).2
  | call {d e : Option Document} {call : VaultCall} (h : Does V uid connectorId d call e) (hclaim : ∀ a, call ≠ .claim a) :
      Elsewhere lease d e

/-- the document is under this lease, and it has not run out -/
def Current (lease : String) (now : ℤ) (d : Option Document) : Prop :=
  ∃ doc, d = some doc ∧ doc.ownerHash = ownerHash V uid ∧ doc.record.executionLease = some lease ∧
    leaseIsActive doc.record now = true

/-- an attempt to give the lease back that failed -/
inductive TriedInVain (lease : String) : Ev → Prop where
  | release {x : Exn} : TriedInVain lease (.vault uid connectorId (.release lease (.error x)))
  | quarantine {g : String} {s : ConnectorSecret} {x : Exn} :
      TriedInVain lease (.vault uid connectorId (.quarantine g lease s (.error x)))

/-- the lease of a claim has run out -/
def Expired (i : ClaimInput) (now : ℤ) : Prop := isLease i.draw.fresh = false ∨ i.draw.started + executionLeaseSeconds ≤ now

end History

section Vault

variable {V : Platform} {uid connectorId lease : String} {Other : Option Document → Option Document → Prop}
  {d e f : Option Document}

theorem does_leaseOf {call : VaultCall} (h : Does V uid connectorId d call e) (hclaim : ∀ a, call ≠ .claim a) :
    leaseOf V uid e = leaseOf V uid d ∨ leaseOf V uid e = none := by
  cases h with
  | claim => exact absurd rfl (hclaim _)
  | get => exact .inl rfl
  | rotate => exact .inl rotate_leaseOf
  | quarantine => exact quarantine_leaseOf
  | release => exact release_leaseOf

/-- the calls of others start no lease that they do not draw -/
theorem elsewhere_respects : Respects V uid lease (Elsewhere V uid connectorId lease) := by
  intro d e expiry h hlease
  cases h with
  | claim i d hfresh =>
    rcases @claim_leaseOf V uid connectorId i d with h | ⟨expiry', h⟩
    · rwa [h] at hlease
    · rw [h] at hlease
      exact absurd (Prod.mk.inj (Option.some.inj hlease)).1 hfresh
  | call h hclaim =>
    rcases does_leaseOf h hclaim with h | h
    · rwa [h] at hlease
    · rw [h] at hlease
      cases hlease

theorem acts_leaseOf {ev : Ev} (h : Acts V uid connectorId d ev e) (hclaim : ¬ IsClaim ev) :
    leaseOf V uid e = leaseOf V uid d ∨ leaseOf V uid e = none := by
  cases h with
  | vault h => exact does_leaseOf h fun a ha => hclaim (ha ▸ .claim)
  | _ => exact .inl rfl

/-- without a claim, a lease at the end was there at the start -/
theorem History.lease_before {l : List Ev} {expiry : Option ℤ} (h : History V uid connectorId Other d l e)
    (hother : Respects V uid lease Other) (hclaims : ∀ ev ∈ l, ¬ IsClaim ev)
    (hlease : leaseOf V uid e = some (lease, expiry)) : leaseOf V uid d = some (lease, expiry) := by
  induction h with
  | nil => exact hlease
  | event hacts _ ih =>
    have hrest := ih (fun ev hev => hclaims ev (List.mem_cons_of_mem _ hev)) hlease
    rcases acts_leaseOf hacts (hclaims _ List.mem_cons_self) with h | h
    · rwa [h] at hrest
    · rw [h] at hrest
      cases hrest
  | other hothers _ ih => exact hother _ _ _ hothers (ih hclaims hlease)

/-- a history passes each event -/
theorem History.at_event {before rest : List Ev} {ev : Ev} (h : History V uid connectorId Other d (before ++ ev :: rest) f) :
    ∃ m n, Acts V uid connectorId m ev n ∧ History V uid connectorId Other n rest f := by
  generalize hl : before ++ ev :: rest = l at h
  induction h generalizing before with
  | nil => exact absurd hl (by simp)
  | event hacts htail ih =>
    cases before with
    | nil =>
      obtain ⟨rfl, rfl⟩ := List.cons.inj hl
      exact ⟨_, _, hacts, htail⟩
    | cons x before => exact ih (List.cons.inj hl).2
  | other _ _ ih => exact ih hl

/-- receipts leave the document -/
theorem History.receipts {l : List Ev} (h : ∀ ev ∈ l, ∃ u r a, ev = .receipt u r a) :
    History V uid connectorId Other d l d := by
  induction l with
  | nil => exact .nil
  | cons ev l ih =>
    obtain ⟨u, r, a, rfl⟩ := h ev List.mem_cons_self
    exact .event .receipt (ih fun x hx => h x (List.mem_cons_of_mem _ hx))

/-- an attempt to give a lease back fails, or the document is not under it any more -/
theorem gives_back {req : Request} {ev : Ev} (hgives : GivesBack req lease ev)
    (h : Acts V req.uid req.connectorId d ev e) :
    TriedInVain req.uid req.connectorId lease ev ∨ ∀ expiry, leaseOf V req.uid e ≠ some (lease, expiry) := by
  cases hgives with
  | release =>
    rename_i a
    cases a with
    | error x => exact .inl .release
    | ok released =>
      generalize hanswer : Except.ok released = answer at h
      cases h with
      | vault h =>
        cases h with
        | release i => exact .inr fun expiry => release_ends (mapError_ok hanswer.symm) expiry
  | quarantine =>
    generalize hanswer : Except.ok true = answer at h
    cases h with
    | vault h =>
      cases h with
      | quarantine i =>
        rw [quarantine_ends (mapError_ok hanswer.symm)]
        exact .inr nofun

theorem Current.leaseOf {now : ℤ} (h : Current V uid lease now d) :
    ∃ expiry, leaseOf V uid d = some (lease, some expiry) ∧ isLease lease = true ∧ now < expiry := by
  obtain ⟨doc, rfl, howned, hlease, hactive⟩ := h
  unfold leaseIsActive at hactive
  rw [hlease] at hactive
  cases hexpiry : doc.record.executionLeaseExpiresAt with
  | none => simp [hexpiry] at hactive
  | some expiry =>
    rw [hexpiry] at hactive
    simp only [Bool.and_eq_true, decide_eq_true_eq] at hactive
    exact ⟨expiry, by simp [Vault.leaseOf, howned, hlease, hexpiry], hactive⟩

end Vault

/-! ## Leases given back -/

/-- at the end of a call the document is not under the lease any more, or an attempt to give it back failed -/
def GivenBack (V : Platform) (req : Request) (lease : String) (now : ℤ) (l : List Ev) (e : Option Document) : Prop :=
  ¬ Current V req.uid lease now e ∨ ∃ ev ∈ l, TriedInVain req.uid req.connectorId lease ev

section GivenBack

variable {V : Platform} {req : Request} {w : World} {i : ClaimInput} {doc : Document} {before after : List Ev} {now : ℤ}
  {Other : Option Document → Option Document → Prop} {answer : Except Exn (Option StoredConnection)}

/-- what follows the claim of a call is under custody, and settles it -/
theorem custody_after {L : Libs}
    (hrun : (execute L req w {}).evs = before ++ .vault req.uid req.connectorId (.claim answer) :: after) :
    (custody req).Accepts (Custody.next .idle (.vault req.uid req.connectorId (.claim answer))) after ∧
      Settled ((custody req).after (Custody.next .idle (.vault req.uid req.connectorId (.claim answer))) after) := by
  obtain ⟨haccepts, hend⟩ := execute_custody L req w
  rw [hrun] at haccepts hend
  have hfine := haccepts.fine_at
  rw [Monitor.accepts_append, Monitor.accepts_cons] at haccepts
  rw [Monitor.after_append, Monitor.after_cons] at hend
  revert hfine haccepts hend
  generalize (custody req).after .idle before = c
  intro haccepts hend hfine
  cases hfine with
  | claim => exact ⟨haccepts.2.2, hend⟩

theorem given_back_of_replies (hcommitted : Committed V req.uid req.connectorId i doc)
    (hother : Respects V req.uid i.draw.fresh Other) (hreplies : Replies V req.uid req.connectorId i doc)
    (hrun : (execute V.libs req w {}).evs = before ++ .vault req.uid req.connectorId
      (.claim ((claimExecution V req.uid req.connectorId i (some doc)).1.mapError VaultExn.exn)) :: after)
    {d e : Option Document} (h : History V req.uid req.connectorId Other d after e) :
    GivenBack V req i.draw.fresh now after e := by
  obtain ⟨stored, hanswer, hlease⟩ := claim_answers hcommitted hreplies
  obtain ⟨haccepts, hend⟩ := custody_after hrun
  have hheld : Custody.next .idle (.vault req.uid req.connectorId
      (.claim ((claimExecution V req.uid req.connectorId i (some doc)).1.mapError VaultExn.exn))) =
        .held (some i.draw.fresh) := by
    rw [hanswer, ← hlease]
    rfl
  rw [hheld] at haccepts hend
  obtain ⟨l, ev, rest, rfl, hgives, hclaims⟩ := given_back haccepts hend
  obtain ⟨m, n, hacts, hrest⟩ := h.at_event
  rcases gives_back hgives hacts with hvain | hended
  · exact .inr ⟨ev, by simp, hvain⟩
  · refine .inl fun hcurrent => ?_
    obtain ⟨expiry, hleased, -⟩ := hcurrent.leaseOf
    exact hended _ (hrest.lease_before hother hclaims hleased)

theorem given_back_of_expired (hcommitted : Committed V req.uid req.connectorId i doc)
    (hother : Respects V req.uid i.draw.fresh Other) (hexpired : Expired i now)
    (hrun : (execute V.libs req w {}).evs = before ++ .vault req.uid req.connectorId (.claim answer) :: after)
    {e : Option Document}
    (h : History V req.uid req.connectorId Other (claimExecution V req.uid req.connectorId i (some doc)).2 after e) :
    GivenBack V req i.draw.fresh now after e := by
  refine .inl fun hcurrent => ?_
  obtain ⟨expiry, hleased, hwell, hnow⟩ := hcurrent.leaseOf
  have hnot : Custody.next .idle (.vault req.uid req.connectorId (.claim answer)) ≠ .idle := by
    rcases answer with x | (_ | stored) <;> exact (nomatch ·)
  have hstart := h.lease_before hother (no_claim hnot (custody_after hrun).1) hleased
  rw [claim_leased hcommitted] at hstart
  have hexpiry : i.draw.started + executionLeaseSeconds = expiry := Option.some.inj (Prod.mk.inj (Option.some.inj hstart)).2
  rcases hexpired with hill | hlate
  · rw [hill] at hwell
    cases hwell
  · omega

/-- **Leases given back.** Whatever else happens to a call whose claim left a lease in the document, and whatever others
do that neither start nor extend it: when the call is over the lease is not current any more, or an attempt to give it
back has failed, if and only if the reply of the claim got through with the credential, or the lease has run out. -/
theorem lease_given_back (V : Platform) (req : Request) (w : World) (i : ClaimInput) (doc : Document)
    (Other : Option Document → Option Document → Prop) (before after : List Ev) (now : ℤ)
    (hcommitted : Committed V req.uid req.connectorId i doc) (hother : Respects V req.uid i.draw.fresh Other)
    (hrun : (execute V.libs req w {}).evs = before ++ .vault req.uid req.connectorId
      (.claim ((claimExecution V req.uid req.connectorId i (some doc)).1.mapError VaultExn.exn)) :: after) :
    (∀ e, History V req.uid req.connectorId Other (claimExecution V req.uid req.connectorId i (some doc)).2 after e →
        GivenBack V req i.draw.fresh now after e) ↔
      Replies V req.uid req.connectorId i doc ∨ Expired i now := by
  constructor
  · intro h
    by_contra hnot
    obtain ⟨hsilent, hlive⟩ := not_or.1 hnot
    obtain ⟨x, hx⟩ := claim_silent hcommitted hsilent
    have haccepts := (custody_after hrun).1
    rw [hx] at haccepts
    have hreceipts := lost_receipts haccepts
    rcases h _ (.receipts hreceipts) with hcurrent | ⟨ev, hev, hvain⟩
    · refine hcurrent ⟨_, claim_commits hcommitted, hcommitted.owned, rfl, ?_⟩
      obtain ⟨hwell, hnow⟩ := not_or.1 hlive
      simp only [leaseIsActive, leased, Bool.and_eq_true, decide_eq_true_eq]
      exact ⟨by simpa using hwell, not_le.1 hnow⟩
    · obtain ⟨u, r, a, rfl⟩ := hreceipts ev hev
      cases hvain
  · rintro (hreplies | hexpired) e h
    · exact given_back_of_replies hcommitted hother hreplies hrun h
    · exact given_back_of_expired hcommitted hother hexpired hrun h

end GivenBack

/-! ## Two calls -/

def sampleDigest : String := "49915e0d7d4b402e3017d010bc1c0e83cac6c797d6c16e66340fe3268693a6a1"

def sampleSecret : String := "\x7b\"kind\":\"bearer_token\",\"value\":\"token\"\x7d"

/-- the libraries on the texts of a call without arguments for one owner, and a cipher that only checks who asks -/
def sampleVault : Platform where
  libs :=
    { text := { repr := fun _ => "", lower := Py.lower }
      sha256 := fun text =>
        if text = "ann" then sampleDigest else "44136fa355b3678a1146ad16f7e8649e94fb4fc21fe77e8310c060f61caaff8a"
      loads := fun text =>
        if text = sampleSecret then .value (.dict [("kind", .str "bearer_token"), ("value", .str "token")])
        else .malformed
      urlsplit := fun _ => none
      casefold := Py.lower
      b64encode := id
      fromisoformat := fun _ => none
      iso := fun _ => "1970-01-01T00:00:00+00:00" }
  openEnvelope := fun envelope data => if data = associatedData "ann" "slack" then some envelope.ciphertext else none

/-- a connection that is not certified for any tool -/
def sampleDocument : Document where
  ownerHash := sampleDigest
  record :=
    { connectorId := "slack", credentialKind := "bearer_token", status := "ready"
      createdAt := "1970-01-01T00:00:00+00:00", updatedAt := "1970-01-01T00:00:00+00:00" }
  envelope := ⟨"rally.kms-envelope/v1", "", sampleSecret, "", ""⟩

def sampleRequest : Request := ⟨"ann", "slack", "search", .json (.dict [])⟩

def sampleDraw : Draw := ⟨0, 0, "1970-01-01T00:00:00+00:00", "0123456789abcdef0123456789abcdef"⟩

/-- the claim of a call, and the vault's part in it -/
def sampleClaimed (opening : Option Fault) : Except VaultExn (Option StoredConnection) × Option Document :=
  claimExecution sampleVault "ann" "slack" ⟨sampleDraw, .done, opening⟩ (some sampleDocument)

def sampleWorld (opening : Option Fault) : World where
  created := 0
  completed := 0
  elapsedMs := 0
  executionId := "fedcba9876543210fedcba9876543210"
  started := .ok ()
  claimed := (sampleClaimed opening).1
  current := .ok none
  early := ⟨.error .refused, .ok none, .ok none⟩
  provider := ⟨.ok [], .error .cancelled, none⟩
  late := ⟨.error .refused, .ok none, .ok none⟩
  providerAgain := ⟨.ok [], .error .cancelled, none⟩
  quarantined := .ok false
  released := .ok true
  recorded := .ok ()

/-- the events of a call from its claim on -/
def SampleRun (opening : Option Fault) (first : Ev) (rest : List Ev) : Prop :=
  (execute sampleVault.libs sampleRequest (sampleWorld opening) {}).evs =
    [first] ++ .vault "ann" "slack" (.claim ((sampleClaimed opening).1.mapError VaultExn.exn)) :: rest

theorem sample_committed (opening : Option Fault) :
    Committed sampleVault "ann" "slack" ⟨sampleDraw, .done, opening⟩ sampleDocument where
  connector := by decide
  owned := rfl
  ready := rfl
  free := rfl
  applied := rfl

theorem sample_run : ∃ first uid r a, SampleRun none first
    [.vault "ann" "slack" (.release sampleDraw.fresh (.ok true)), .receipt uid r a] := ⟨_, _, _, _, rfl⟩

/-- a call whose claim is answered gives the lease back, whatever other calls do -/
theorem lease_given_back_sample : ∃ first rest, SampleRun none first rest ∧
    (∃ e, History sampleVault "ann" "slack" (fun _ _ => False) (sampleClaimed none).2 rest e) ∧
    ∀ e now, History sampleVault "ann" "slack" (Elsewhere sampleVault "ann" "slack" sampleDraw.fresh)
      (sampleClaimed none).2 rest e → GivenBack sampleVault sampleRequest sampleDraw.fresh now rest e := by
  obtain ⟨first, uid, r, a, hrun⟩ := sample_run
  refine ⟨first, _, hrun, ?_, fun e now h => ?_⟩
  · have hrelease := @Does.release sampleVault "ann" "slack" ⟨sampleDraw, .error (.vault .error), .done, none⟩
      sampleDraw.fresh (sampleClaimed none).2
    exact ⟨_, .event (.vault hrelease) (.event .receipt .nil)⟩
  · exact (lease_given_back sampleVault sampleRequest (sampleWorld none) ⟨sampleDraw, .done, none⟩ sampleDocument
      (Elsewhere sampleVault "ann" "slack" sampleDraw.fresh) [first] _ now (sample_committed none) elsewhere_respects
      hrun).2 (.inl ⟨rfl, rfl, rfl⟩) e h

/-- where the key service fails after the claim is stored, the call leaves its lease behind and never tries to give it
back -/
theorem silent_claim_leaks : ∃ first rest, SampleRun (some .failed) first rest ∧
    ∃ e, History sampleVault "ann" "slack" (fun _ _ => False) (sampleClaimed (some .failed)).2 rest e ∧
      ¬ GivenBack sampleVault sampleRequest sampleDraw.fresh 0 rest e := by
  refine ⟨_, _, rfl, _, .event .receipt .nil, ?_⟩
  rintro (hcurrent | ⟨ev, hev, hvain⟩)
  · exact hcurrent ⟨_, claim_commits (sample_committed (some .failed)), rfl, rfl, by decide⟩
  · obtain rfl := List.mem_singleton.1 hev
    cases hvain

end Rally.Cloud
