/-
Browser sessions over any run of calls (`get_identity` and `revoke_session` of both stores of `cloud/auth_sessions.py`,
`require_user` and `_session_identity_is_allowed` of `cloud/control_plane.py`).

In Firestore these two calls read a session and delete it in a second call, and any others may come between. A call may
raise, with its write applied or not.

- `codeWrite`, `sessionWrite`: what each step does to the codes and to the sessions, one key at most (`step_codes`,
  `step_sessions`).
- `SignedIn`: a code was issued for an identity and exchanged in time, and nothing was written over the code before, or
  over the session since.
- `identified_iff`: exactly then a token identifies someone, at a time before the session ends.
- `admitted_iff`: a request is admitted through Google, or with a token of such a session for an account that is still
  approved, and never with both.
-/
import Rally.Core.Writes
import Rally.Cloud.AuthSessions
import Rally.Cloud.RateLimits
import Rally.Cloud.Connectors

namespace Rally.Cloud.Sessions

open Py MagicLinks AuthSessions

/-! ## Calls -/

/-- a call of Firestore that is about to delete a session -/
structure Waiting where
  hash : String
  /-- `revoke_session`, or `get_identity` -/
  revokes : Bool

structure Sys where
  auth : Auth
  waiting : List Waiting

inductive Answer where
  | auth (reply : AuthReply)
  | identity (identity : Option UserIdentity)
  | revoked (found : Bool)
  /-- `AuthSessionError` -/
  | raised
  /-- nothing yet -/
  | waits
deriving DecidableEq

/-- the store without a session -/
def withoutSession (hash : String) (s : Auth) : Auth := { s with sessions := Dict.erase s.sessions hash }

section Calls

variable (K : Keys)

/-- `MemoryAuthSessionStore.get_identity` -/
def Memory.getIdentity (now : ℤ) (token : String) (s : Sys) : Answer × Sys :=
  match tokenHash K token with
  | none => (.identity none, s)
  | some hash =>
    match Dict.get? s.auth.sessions hash with
    | none => (.identity none, s)
    | some record =>
      if record.expiresAt ≤ now then (.identity none, { s with auth := withoutSession hash s.auth })
      else (.identity (identityFromRecord record), s)

/-- `MemoryAuthSessionStore.revoke_session` -/
def Memory.revokeSession (token : String) (s : Sys) : Answer × Sys :=
  match tokenHash K token with
  | none => (.revoked false, s)
  | some hash =>
    (.revoked (Dict.get? s.auth.sessions hash).isSome, { s with auth := withoutSession hash s.auth })

/-- `FirestoreAuthSessionStore.get_identity`, up to `document.delete()`; the read may raise -/
def Firestore.getIdentity (now : ℤ) (failed : Bool) (token : String) (s : Sys) : Answer × Sys :=
  match tokenHash K token with
  | none => (.identity none, s)
  | some hash =>
    if failed then (.raised, s)
    else
      match Dict.get? s.auth.sessions hash with
      | none => (.identity none, s)
      | some record =>
        if record.expiresAt ≤ now then (.waits, { s with waiting := s.waiting ++ [⟨hash, false⟩] })
        else (.identity (identityFromRecord record), s)

/-- `FirestoreAuthSessionStore.revoke_session`, up to `document.delete()` -/
def Firestore.revokeSession (failed : Bool) (token : String) (s : Sys) : Answer × Sys :=
  match tokenHash K token with
  | none => (.revoked false, s)
  | some hash =>
    if failed then (.raised, s)
    else
      match Dict.get? s.auth.sessions hash with
      | none => (.revoked false, s)
      | some _ => (.waits, { s with waiting := s.waiting ++ [⟨hash, true⟩] })

/-- `document.delete()`, and what the call answers -/
def delete (k : ℕ) (c : Commit) (s : Sys) : Answer × Sys :=
  match s.waiting[k]? with
  | none => (.waits, s)
  | some w =>
    (match c with
      | .done => if w.revokes then .revoked true else .identity none
      | .raised _ _ => .raised,
      ⟨if c.applied then withoutSession w.hash s.auth else s.auth, s.waiting.eraseIdx k⟩)

inductive Act where
  | code (i : Draws) (identity : UserIdentity)
  | exchange (i : Draws) (code : String)
  | identify (now : ℤ) (failed : Bool) (token : String)
  | revoke (failed : Bool) (token : String)
  | delete (k : ℕ) (c : Commit)
  /-- a call ends where it stands -/
  | abandoned (k : ℕ)

def Sys.step (b : Backend) (s : Sys) : Act → Answer × Sys
  | .code i identity =>
    let (reply, auth) := issueCode K b i identity s.auth
    (.auth reply, { s with auth := auth })
  | .exchange i code =>
    let (reply, auth) := exchangeCode K b i code s.auth
    (.auth reply, { s with auth := auth })
  | .identify now failed token =>
    match b with
    | .memory => Memory.getIdentity K now token s
    | .firestore => Firestore.getIdentity K now failed token s
  | .revoke failed token =>
    match b with
    | .memory => Memory.revokeSession K token s
    | .firestore => Firestore.revokeSession K failed token s
  | .delete k c => delete k c s
  | .abandoned k => (.waits, { s with waiting := s.waiting.eraseIdx k })

/-- the steps of either store -/
def Steps (b : Backend) (s : Sys) (a : Act) (t : Sys) : Prop := t = (s.step K b a).2

end Calls

/-! ## What a step writes -/

/-- whether what a call writes is there afterwards -/
def lands : Backend → Draws → Bool
  | .memory, _ => true
  | .firestore, i => i.commit.applied

/-- the reading of the clock that a code ends 120 seconds after -/
def issuedAt : Backend → Draws → ℤ
  | .memory, i => i.clock 0
  | .firestore, i => i.clock 1

/-- the reading of the clock that a session ends 30 minutes after -/
def openedAt : Backend → Draws → ℤ
  | .memory, i => i.clock 1
  | .firestore, i => i.clock 0

section Writes

variable (K : Keys) (b : Backend)

/-- the code that is issued, where it is stored -/
def issued (i : Draws) (identity : UserIdentity) (s : Auth) : Option (String × AuthRecord) :=
  match tokenHash K i.drawn with
  | none => none
  | some hash =>
    if lands b i = true ∧ (b = .firestore → Dict.get? s.codes hash = none) then
      some (hash, ⟨identity, issuedAt b i + codeTtl⟩)
    else none

/-- the code that an exchange takes away -/
def taken (i : Draws) (code : String) (s : Auth) : Option String :=
  match tokenHash K code with
  | none => none
  | some hash =>
    if (Dict.get? s.codes hash).isSome = true ∧ lands b i = true ∧ (b = .firestore → (tokenHash K i.drawn).isSome = true) then
      some hash
    else none

/-- the session that an exchange opens -/
def opened (i : Draws) (code : String) (s : Auth) : Option (String × AuthRecord) := do
  let hash ← tokenHash K code
  let record ← Dict.get? s.codes hash
  let identity ← identityFromRecord record
  let sessionHash ← tokenHash K i.drawn
  if lands b i = true ∧ i.clock 0 < record.expiresAt then some (sessionHash, ⟨identity, openedAt b i + sessionTtl⟩) else none

/-- what a step writes to the codes -/
def codeWrite (s : Sys) : Act → Option (String × Option AuthRecord)
  | .code i identity => (issued K b i identity s.auth).map fun p => (p.1, some p.2)
  | .exchange i code => (taken K b i code s.auth).map fun hash => (hash, none)
  | _ => none

/-- the session that a call finds expired -/
def expired (now : ℤ) (token : String) (s : Auth) : Option String :=
  (tokenHash K token).filter fun hash => (Dict.get? s.sessions hash).any fun record => record.expiresAt ≤ now

/-- what a step writes to the sessions -/
def sessionWrite (s : Sys) : Act → Option (String × Option AuthRecord)
  | .exchange i code => (opened K b i code s.auth).map fun p => (p.1, some p.2)
  | .identify now _ token => if b = .memory then (expired K now token s.auth).map fun hash => (hash, none) else none
  | .revoke _ token => if b = .memory then (tokenHash K token).map fun hash => (hash, none) else none
  | .delete k c => (s.waiting[k]?).bind fun w => if c.applied then some (w.hash, none) else none
  | _ => none

end Writes

section Lemmas

variable {K : Keys} {b : Backend} {s : Sys} {a : Act} {i : Draws} {identity : UserIdentity} {code : String} {x : Auth}

theorem issueCode_writes : (issueCode K b i identity x).2 =
    ⟨Dict.write ((issued K b i identity x).map fun p => (p.1, some p.2)) x.codes, x.sessions⟩ := by
  unfold issued
  cases b with
  | memory =>
    simp only [issueCode, Memory.issueCode]
    cases tokenHash K i.drawn with
    | none => rfl
    | some hash => simp [lands, withCode, Dict.write, issuedAt]
  | firestore =>
    simp only [issueCode, Firestore.issueCode]
    cases tokenHash K i.drawn with
    | none => rfl
    | some hash =>
      dsimp only
      cases Dict.get? x.codes hash with
      | some record => simp [Dict.write]
      | none =>
        cases hcommit : i.commit with
        | done => simp [guarded, lands, hcommit, Commit.applied, withCode, Dict.write, issuedAt]
        | raised applied call =>
          cases applied with
          | true => simp [guarded, lands, hcommit, Commit.applied, withCode, Dict.write, issuedAt]
          | false => simp [guarded, lands, hcommit, Commit.applied, Dict.write]

/-- what a guarded transaction leaves, where it is applied or not -/
theorem guarded_applied {c : Commit} {y : AuthReply × Auth} : (guarded c x y).2 = if c.applied then y.2 else x := by
  cases c with
  | done => rfl
  | raised applied call =>
    cases applied with
    | true => rfl
    | false => rfl

theorem exchangeCode_writes : (exchangeCode K b i code x).2 =
    ⟨Dict.write ((taken K b i code x).map fun hash => (hash, none)) x.codes,
      Dict.write ((opened K b i code x).map fun p => (p.1, some p.2)) x.sessions⟩ := by
  unfold taken opened
  cases b with
  | memory =>
    simp only [exchangeCode, Memory.exchangeCode, lands, openedAt]
    cases tokenHash K code with
    | none => rfl
    | some hash =>
      cases hrecord : Dict.get? x.codes hash with
      | none => simp [hrecord, Dict.write]
      | some record =>
        by_cases hexpired : record.expiresAt ≤ i.clock 0
        · cases identityFromRecord record <;> cases tokenHash K i.drawn <;>
            simp [hrecord, hexpired, not_lt.2 hexpired, Dict.write, withoutCode]
        · cases hidentity : identityFromRecord record with
          | none => simp [hrecord, hexpired, hidentity, Dict.write, withoutCode]
          | some identity =>
            cases tokenHash K i.drawn with
            | none => simp [hrecord, hexpired, hidentity, Dict.write, withoutCode]
            | some sessionHash =>
              simp [hrecord, hexpired, hidentity, not_le.1 hexpired, Dict.write, withoutCode, withSession]
  | firestore =>
    simp only [exchangeCode, Firestore.exchangeCode, lands, openedAt]
    cases tokenHash K code with
    | none => rfl
    | some hash =>
      cases tokenHash K i.drawn with
      | none => cases Dict.get? x.codes hash with
        | none => simp [Dict.write]
        | some record => cases identityFromRecord record <;> simp [Dict.write]
      | some sessionHash =>
        dsimp only
        rw [guarded_applied]
        by_cases happlied : i.commit.applied = true
        · cases hrecord : Dict.get? x.codes hash with
          | none => simp [hrecord, Dict.write]
          | some record =>
            by_cases hexpired : record.expiresAt ≤ i.clock 0
            · cases identityFromRecord record <;>
                simp [hrecord, happlied, hexpired, not_lt.2 hexpired, Dict.write, withoutCode]
            · cases hidentity : identityFromRecord record with
              | none => simp [hrecord, happlied, hexpired, hidentity, Dict.write, withoutCode]
              | some identity =>
                simp [hrecord, happlied, hexpired, hidentity, not_le.1 hexpired, Dict.write, withoutCode, withSession]
        · cases Dict.get? x.codes hash with
          | none => simp [happlied, Dict.write]
          | some record => cases identityFromRecord record <;> simp [happlied, Dict.write]

/-- **One write a step.** What a step does to the codes, and to the sessions. -/
theorem step_codes : (s.step K b a).2.auth.codes = Dict.write (codeWrite K b s a) s.auth.codes := by
  cases a with
  | code i identity => simp [Sys.step, issueCode_writes, codeWrite]
  | exchange i code => simp [Sys.step, exchangeCode_writes, codeWrite]
  | identify now failed token =>
    cases b with
    | memory =>
      simp only [Sys.step, Memory.getIdentity, codeWrite]
      split
      · rfl
      · split
        · rfl
        · split_ifs <;> rfl
    | firestore =>
      simp only [Sys.step, Firestore.getIdentity, codeWrite]
      split
      · rfl
      · split_ifs
        · rfl
        · split
          · rfl
          · split_ifs <;> rfl
  | revoke failed token =>
    cases b with
    | memory =>
      simp only [Sys.step, Memory.revokeSession, codeWrite]
      split <;> rfl
    | firestore =>
      simp only [Sys.step, Firestore.revokeSession, codeWrite]
      split
      · rfl
      · split_ifs
        · rfl
        · split <;> rfl
  | delete k c =>
    simp only [Sys.step, delete, codeWrite]
    split
    · rfl
    · dsimp only
      split_ifs <;> rfl
  | abandoned k => rfl

theorem step_sessions : (s.step K b a).2.auth.sessions = Dict.write (sessionWrite K b s a) s.auth.sessions := by
  cases a with
  | code i identity => simp [Sys.step, issueCode_writes, sessionWrite, Dict.write]
  | exchange i code => simp [Sys.step, exchangeCode_writes, sessionWrite]
  | identify now failed token =>
    cases b with
    | memory =>
      simp only [Sys.step, Memory.getIdentity, sessionWrite, expired, if_true]
      cases htoken : tokenHash K token with
      | none => rfl
      | some hash =>
        dsimp only
        cases hrecord : Dict.get? s.auth.sessions hash with
        | none => simp [Option.filter_some, hrecord, Dict.write]
        | some record =>
          by_cases hexpired : record.expiresAt ≤ now
          · simp [Option.filter_some, hrecord, hexpired, withoutSession, Dict.write]
          · simp [Option.filter_some, hrecord, hexpired, Dict.write]
    | firestore =>
      simp only [Sys.step, Firestore.getIdentity, sessionWrite, reduceCtorEq, if_false]
      split
      · rfl
      · split_ifs
        · rfl
        · split
          · rfl
          · split_ifs <;> rfl
  | revoke failed token =>
    cases b with
    | memory =>
      simp only [Sys.step, Memory.revokeSession, sessionWrite, if_true]
      cases tokenHash K token with
      | none => rfl
      | some hash => rfl
    | firestore =>
      simp only [Sys.step, Firestore.revokeSession, sessionWrite, reduceCtorEq, if_false]
      split
      · rfl
      · split_ifs
        · rfl
        · split <;> rfl
  | delete k c =>
    simp only [Sys.step, delete, sessionWrite]
    cases s.waiting[k]? with
    | none => rfl
    | some w =>
      dsimp only [Option.bind_some]
      split_ifs <;> rfl
  | abandoned k => rfl

end Lemmas

/-! ## Who is signed in -/

/-- a step stores a code for an identity, at a time -/
def Issues (K : Keys) (b : Backend) (codeHash : String) (identity : UserIdentity) (t : ℤ) (e : Entry Sys Act) : Prop :=
  ∃ i, e.act = .code i identity ∧ t = issuedAt b i ∧
    codeWrite K b e.before e.act = some (codeHash, some ⟨identity, t + codeTtl⟩)

/-- a step exchanges a code for a session; the code is checked at one time, and the session begins at another -/
def Exchanges (K : Keys) (b : Backend) (codeHash hash : String) (checked begins : ℤ) (e : Entry Sys Act) : Prop :=
  ∃ i code, e.act = .exchange i code ∧ tokenHash K code = some codeHash ∧ tokenHash K i.drawn = some hash ∧
    lands b i = true ∧ checked = i.clock 0 ∧ begins = openedAt b i

/-- in a run, a code was issued for an identity and exchanged in time for the session of a token, which has not ended -/
def SignedIn (K : Keys) (b : Backend) (tr : List (Entry Sys Act)) (token : String) (identity : UserIdentity) (now : ℤ) : Prop :=
  ∃ before issue between exchange since codeHash hash issued checked begins,
    tr = (before ++ issue :: between) ++ exchange :: since ∧
    Issues K b codeHash identity issued issue ∧ Dict.Untouched (codeWrite K b) codeHash between ∧
    Exchanges K b codeHash hash checked begins exchange ∧ checked < issued + codeTtl ∧
    tokenHash K token = some hash ∧ Dict.Untouched (sessionWrite K b) hash since ∧ now < begins + sessionTtl ∧
    identity.uid ≠ "" ∧ identity.email ≠ ""

section SignedIn

variable {K : Keys} {b : Backend} {s₀ s : Sys} {tr : List (Entry Sys Act)} {a : Act} {token hash : String}
  {identity : UserIdentity} {now : ℤ} {failed : Bool} {record : AuthRecord}

theorem identityFromRecord_some : identityFromRecord record = some identity ↔
    record.identity = identity ∧ identity.uid ≠ "" ∧ identity.email ≠ "" := by
  unfold identityFromRecord
  constructor
  · intro h
    split_ifs at h with hempty
    cases h
    exact ⟨rfl, not_or.1 hempty⟩
  · rintro ⟨rfl, hne⟩
    rw [if_neg (not_or.2 hne)]

/-- only a code is written with a record -/
theorem codeWrite_some (h : codeWrite K b s a = some (hash, some record)) :
    ∃ i identity, a = .code i identity ∧ record = ⟨identity, issuedAt b i + codeTtl⟩ := by
  cases a with
  | code i identity =>
    obtain ⟨p, hp, hpair⟩ := Option.map_eq_some_iff.1 h
    cases hpair
    unfold issued at hp
    split at hp
    · cases hp
    · split_ifs at hp
      cases hp
      exact ⟨i, identity, rfl, rfl⟩
  | exchange i code =>
    obtain ⟨p, -, hpair⟩ := Option.map_eq_some_iff.1 h
    cases hpair
  | identify now failed token => cases h
  | revoke failed token => cases h
  | delete k c => cases h
  | abandoned k => cases h

/-- only an exchange opens a session -/
theorem sessionWrite_some : sessionWrite K b s a = some (hash, some record) ↔
    ∃ i code codeHash coded, a = .exchange i code ∧ tokenHash K code = some codeHash ∧
      Dict.get? s.auth.codes codeHash = some coded ∧ identityFromRecord coded = some record.identity ∧
      tokenHash K i.drawn = some hash ∧ lands b i = true ∧ i.clock 0 < coded.expiresAt ∧
      record.expiresAt = openedAt b i + sessionTtl := by
  constructor
  · intro h
    cases a with
    | exchange i code =>
      obtain ⟨p, hp, hpair⟩ := Option.map_eq_some_iff.1 h
      cases hpair
      obtain ⟨codeHash, hcode, hp⟩ := Option.bind_eq_some_iff.1 hp
      obtain ⟨coded, hcoded, hp⟩ := Option.bind_eq_some_iff.1 hp
      obtain ⟨identity, hidentity, hp⟩ := Option.bind_eq_some_iff.1 hp
      obtain ⟨sessionHash, hsession, hp⟩ := Option.bind_eq_some_iff.1 hp
      split_ifs at hp with hlands
      cases hp
      exact ⟨i, code, codeHash, coded, rfl, hcode, hcoded, hidentity, hsession, hlands.1, hlands.2, rfl⟩
    | code i identity => cases h
    | identify now failed token =>
      unfold sessionWrite at h
      split_ifs at h
      obtain ⟨p, -, hpair⟩ := Option.map_eq_some_iff.1 h
      cases hpair
    | revoke failed token =>
      unfold sessionWrite at h
      split_ifs at h
      obtain ⟨p, -, hpair⟩ := Option.map_eq_some_iff.1 h
      cases hpair
    | delete k c =>
      obtain ⟨w, -, hpair⟩ := Option.bind_eq_some_iff.1 h
      split_ifs at hpair
      cases hpair
    | abandoned k => cases h
  · rintro ⟨i, code, codeHash, coded, rfl, hcode, hcoded, hidentity, hsession, hlands, hchecked, hends⟩
    have hopened : opened K b i code s.auth = some (hash, ⟨record.identity, openedAt b i + sessionTtl⟩) := by
      simp [opened, hcode, hcoded, hidentity, hsession, hlands, hchecked]
    rw [sessionWrite, hopened, ← hends]
    rfl

/-- what a token is answered with -/
theorem identify_answer : (s.step K b (.identify now failed token)).1 = .identity (some identity) ↔
    (b = .firestore → failed = false) ∧ ∃ hash record, tokenHash K token = some hash ∧
      Dict.get? s.auth.sessions hash = some record ∧ now < record.expiresAt ∧ identityFromRecord record = some identity := by
  cases b with
  | memory =>
    simp only [Sys.step, Memory.getIdentity]
    cases tokenHash K token with
    | none => simp
    | some hash =>
      cases hrecord : Dict.get? s.auth.sessions hash with
      | none => simp [hrecord]
      | some record =>
        by_cases hexpired : record.expiresAt ≤ now
        · simp [hrecord, hexpired, not_lt.2 hexpired]
        · simp [hrecord, hexpired, not_le.1 hexpired]
  | firestore =>
    simp only [Sys.step, Firestore.getIdentity]
    cases tokenHash K token with
    | none => simp
    | some hash =>
      cases failed with
      | true => simp
      | false =>
        cases hrecord : Dict.get? s.auth.sessions hash with
        | none => simp [hrecord]
        | some record =>
          by_cases hexpired : record.expiresAt ≤ now
          · simp [hrecord, hexpired, not_lt.2 hexpired]
          · simp [hrecord, hexpired, not_le.1 hexpired]

/-- a token identifies someone exactly while the session of a sign-in lasts -/
theorem identified_iff (hcodes : s₀.auth.codes = []) (hsessions : s₀.auth.sessions = [])
    (run : Trace (Steps K b) s₀ tr s) :
    (s.step K b (.identify now failed token)).1 = .identity (some identity) ↔
      (b = .firestore → failed = false) ∧ SignedIn K b tr token identity now := by
  have hcodeStep : ∀ s a t, Steps K b s a t → t.auth.codes = Dict.write (codeWrite K b s a) s.auth.codes := by
    intro s a t h
    rw [show t = _ from h, step_codes]
  have hsessionStep : ∀ s a t, Steps K b s a t → t.auth.sessions = Dict.write (sessionWrite K b s a) s.auth.sessions := by
    intro s a t h
    rw [show t = _ from h, step_sessions]
  rw [identify_answer]
  refine and_congr_right fun _ => ⟨?_, ?_⟩
  · rintro ⟨hash, record, htoken, hrecord, hnow, hidentity⟩
    obtain ⟨pre, exchange, since, rfl, hwrite, hsince⟩ := (Dict.get?_run hsessionStep run (by rw [hsessions]; rfl)).1 hrecord
    obtain ⟨i, code, codeHash, coded, hact, hcode, hcoded, hfrom, hdrawn, hlands, hchecked, hends⟩ := sessionWrite_some.1 hwrite
    obtain ⟨before, issue, between, rfl, hissue, hbetween⟩ :=
      (Dict.get?_run hcodeStep run.before (by rw [hcodes]; rfl)).1 hcoded
    obtain ⟨i', identity', hissued, rfl⟩ := codeWrite_some hissue
    obtain ⟨rfl, huid, hemail⟩ := identityFromRecord_some.1 hidentity
    obtain ⟨rfl, -⟩ := identityFromRecord_some.1 hfrom
    exact ⟨before, issue, between, exchange, since, codeHash, hash, issuedAt b i', i.clock 0, openedAt b i, rfl,
      ⟨i', hissued, rfl, hissue⟩, hbetween, ⟨i, code, hact, hcode, hdrawn, hlands, rfl, rfl⟩, hchecked, htoken, hsince,
      hends ▸ hnow, huid, hemail⟩
  · rintro ⟨before, issue, between, exchange, since, codeHash, hash, issued, checked, begins, rfl, ⟨i', hissued, rfl, hissue⟩,
      hbetween, ⟨i, code, hact, hcode, hdrawn, hlands, rfl, rfl⟩, hchecked, htoken, hsince, hnow, huid, hemail⟩
    have hcoded : Dict.get? exchange.before.auth.codes codeHash = some ⟨identity, issuedAt b i' + codeTtl⟩ :=
      (Dict.get?_run hcodeStep run.before (by rw [hcodes]; rfl)).2 ⟨before, issue, between, rfl, hissue, hbetween⟩
    have hwrite : sessionWrite K b exchange.before exchange.act =
        some (hash, some ⟨identity, openedAt b i + sessionTtl⟩) :=
      sessionWrite_some.2 ⟨i, code, codeHash, _, hact, hcode, hcoded, identityFromRecord_some.2 ⟨rfl, huid, hemail⟩, hdrawn,
        hlands, hchecked, rfl⟩
    have hrecord : Dict.get? s.auth.sessions hash = some ⟨identity, openedAt b i + sessionTtl⟩ :=
      (Dict.get?_run hsessionStep run (by rw [hsessions]; rfl)).2 ⟨_, exchange, since, rfl, hwrite, hsince⟩
    exact ⟨hash, _, htoken, hrecord, hnow, identityFromRecord_some.2 ⟨rfl, huid, hemail⟩⟩

end SignedIn

/-! ## Requests -/

/-- an `HTTPException` by its status, with its detail, or another exception -/
inductive Denial where
  /-- 401 -/
  | unauthorized (detail : String)
  /-- 403 -/
  | forbidden (detail : String)
  /-- 503 -/
  | unavailable (detail : String)
  | fault
deriving DecidableEq

/-- `str.startswith` -/
def startsWith (text start : String) : Bool := start.toList.isPrefixOf text.toList

section Requests

variable (W : Site)

/-- `_session_identity_is_allowed`; `domains` are the items of `RALLY_ALLOWED_GOOGLE_DOMAINS`, stripped and folded -/
def sessionIdentityIsAllowed (domains : List String) (identity : UserIdentity) : Bool :=
  if startsWith identity.uid "email:" then (approvedEmail W identity.email).isSome
  else if W.allowed ≠ [] ∧ W.casefold identity.email ∉ W.allowed then false
  else domains = [] || identity.hostedDomain.any fun domain => W.casefold domain ∈ domains

/-- a text that is not empty -/
def given (text : Option String) : Bool := text.getD "" ≠ ""

/-- `require_user`, with the answer of the store, while there is one -/
def requireUser (domains : List String) (verify : String → Except Denial UserIdentity)
    (identityToken sessionToken : Option String) (answer : Answer) : Option (Except Denial UserIdentity) :=
  if given identityToken = given sessionToken then some (.error (.unauthorized "authentication required"))
  else if given identityToken then some (verify (identityToken.getD ""))
  else
    match answer with
    | .raised => some (.error (.unavailable "browser authentication is unavailable"))
    | .identity none => some (.error (.unauthorized "login session is invalid or expired"))
    | .identity (some identity) =>
      if sessionIdentityIsAllowed W domains identity then some (.ok identity)
      else some (.error (.forbidden "this account is no longer approved for Rally"))
    | _ => none

/-- `_SUBJECT.fullmatch` -/
def isSubject (uid : String) : Bool :=
  1 ≤ uid.length && uid.length ≤ 255 && uid.toList.all fun c => c.isAlphanum || c = '.' || c = '_' || c = ':' || c = '-'

/-- a text of 1 to `16 * 1024` bytes without blanks and control characters -/
def isTokenText (token : String) : Bool :=
  token ≠ "" && token.utf8ByteSize ≤ 16 * 1024 && token.toList.all fun c => 33 ≤ c.toNat && c.toNat ≠ 127

/-- the checks of `verify_google_id_token` on what Google has signed -/
def checkClaims (audiences domains : List String) (claims : List (String × Value)) : Except Denial UserIdentity :=
  let hosted := textOf (field claims "hd")
  -- the issuer is looked up in a set, which hashes it
  if (field claims "iss").key? = none then .error .fault
  else if field claims "iss" ∉ [.str "accounts.google.com", .str "https://accounts.google.com"] then
    .error (.unauthorized "invalid identity issuer")
  else if field claims "aud" ∉ audiences.map .str then
    .error (.unauthorized "identity token was issued for another application")
  else
    match (textOf (field claims "sub")).filter isSubject, (textOf (field claims "email")).filter (· ≠ "") with
    | none, _ => .error (.unauthorized "identity token has no valid subject")
    | some _, none => .error (.unauthorized "a verified email address is required")
    | some uid, some email =>
      if field claims "email_verified" ≠ .bool true then .error (.unauthorized "a verified email address is required")
      else if W.allowed ≠ [] ∧ W.casefold email ∉ W.allowed then
        .error (.forbidden "this account is not approved for Rally")
      else if domains ≠ [] ∧ ¬ hosted.any (W.casefold · ∈ domains) then
        .error (.forbidden "this Google Workspace is not approved")
      else .ok ⟨uid, email, textOf (field claims "name"), textOf (field claims "picture"), hosted⟩

/-- `verify_google_id_token`; `signed` is `verify_oauth2_token`, `none` where it raises what is handled -/
def verifyGoogleIdToken (audiences domains : List String) (signed : String → Option (List (String × Value))) (token : String) :
    Except Denial UserIdentity :=
  if audiences = [] then .error (.unavailable "user authentication is not configured")
  else if ¬ isTokenText token then .error (.unauthorized "invalid identity token")
  else
    match signed token with
    | none => .error (.unauthorized "invalid identity token")
    | some claims => checkClaims W audiences domains claims

end Requests

section Admitted

variable {K : Keys} {b : Backend} {s₀ s : Sys} {tr : List (Entry Sys Act)} {W : Site} {audiences domains : List String}
  {signed : String → Option (List (String × Value))} {identityToken sessionToken : Option String} {identity : UserIdentity}
  {now : ℤ} {failed : Bool} {claims : List (String × Value)}

/-- a check that is passed -/
theorem of_guard {α : Type} {c : Prop} [Decidable c] {e : Denial} {y : Except Denial α} {a : α}
    (h : (if c then .error e else y) = .ok a) : ¬ c ∧ y = .ok a := by
  split_ifs at h with hc
  exact ⟨hc, h⟩

/-- an account that Google vouches for is approved -/
theorem checkClaims_allowed (h : checkClaims W audiences domains claims = .ok identity)
    (hgoogle : startsWith identity.uid "email:" = false) : sessionIdentityIsAllowed W domains identity = true := by
  unfold checkClaims at h
  dsimp only at h
  obtain ⟨-, h⟩ := of_guard h
  obtain ⟨-, h⟩ := of_guard h
  obtain ⟨-, h⟩ := of_guard h
  split at h
  · cases h
  · cases h
  · obtain ⟨-, h⟩ := of_guard h
    obtain ⟨hlisted, h⟩ := of_guard h
    obtain ⟨hdomain, h⟩ := of_guard h
    cases h
    have hother : ¬ startsWith _ "email:" = true := Bool.not_eq_true _ ▸ hgoogle
    rw [sessionIdentityIsAllowed, if_neg hother, if_neg hlisted]
    by_cases hnone : domains = []
    · simp [hnone]
    · have hhosted := not_not.1 fun hno => hdomain ⟨hnone, hno⟩
      rw [hhosted, Bool.or_true]

/-- **Admission.** A request is admitted either with an identity that Google vouches for, or with the token of a session that
was opened with a code for that identity and has not ended, while the account is approved. -/
theorem admitted_iff (hcodes : s₀.auth.codes = []) (hsessions : s₀.auth.sessions = []) (run : Trace (Steps K b) s₀ tr s) :
    requireUser W domains (verifyGoogleIdToken W audiences domains signed) identityToken sessionToken
        (s.step K b (.identify now failed (sessionToken.getD ""))).1 = some (.ok identity) ↔
      (given identityToken = true ∧ given sessionToken = false ∧
          verifyGoogleIdToken W audiences domains signed (identityToken.getD "") = .ok identity) ∨
        (given identityToken = false ∧ given sessionToken = true ∧ (b = .firestore → failed = false) ∧
          SignedIn K b tr (sessionToken.getD "") identity now ∧ sessionIdentityIsAllowed W domains identity = true) := by
  have hidentified := @identified_iff K b s₀ s tr (sessionToken.getD "") identity now failed hcodes hsessions run
  rw [← and_assoc (b := SignedIn K b tr (sessionToken.getD "") identity now), ← hidentified]
  generalize (s.step K b (.identify now failed (sessionToken.getD ""))).1 = answer
  unfold requireUser
  cases hgoogle : given identityToken with
  | true =>
    cases hsession : given sessionToken with
    | true => simp
    | false => simp
  | false =>
    cases hsession : given sessionToken with
    | false => simp
    | true =>
      cases answer with
      | auth reply => simp
      | revoked found => simp
      | raised => simp
      | waits => simp
      | identity found =>
        cases found with
        | none => simp
        | some u =>
          by_cases hallowed : sessionIdentityIsAllowed W domains u = true
          · simp only [Bool.false_eq_true, if_false, hallowed, if_true, Option.some.injEq, Except.ok.injEq,
              Answer.identity.injEq, false_and, true_and, false_or, reduceCtorEq]
            constructor
            · rintro rfl
              exact ⟨rfl, hallowed⟩
            · intro h
              exact h.1
          · simp only [Bool.false_eq_true, if_false, hallowed, Option.some.injEq, Answer.identity.injEq, false_and, true_and,
              false_or, reduceCtorEq, false_iff]
            rintro ⟨rfl, h⟩
            exact hallowed h

/-! ## Logout -/

/-- the session that a call is about when it answers that it was revoked -/
def revokedHash (K : Keys) (s : Sys) : Act → Option String
  | .revoke _ token => tokenHash K token
  | .delete k _ => (s.waiting[k]?).map Waiting.hash
  | _ => none

/-- a call that answers that a session was revoked has taken it away -/
theorem revoked_write {a : Act} (h : (s.step K b a).1 = .revoked true) :
    ∃ hash, revokedHash K s a = some hash ∧ sessionWrite K b s a = some (hash, none) := by
  cases a with
  | code i identity => cases h
  | exchange i code => cases h
  | identify now failed token =>
    cases b with
    | memory =>
      simp only [Sys.step, Memory.getIdentity] at h
      split at h
      · cases h
      · split at h
        · cases h
        · split_ifs at h
    | firestore =>
      simp only [Sys.step, Firestore.getIdentity] at h
      split at h
      · cases h
      · split_ifs at h
        split at h
        · cases h
        · split_ifs at h
  | revoke failed token =>
    cases b with
    | memory =>
      simp only [Sys.step, Memory.revokeSession] at h
      cases htoken : tokenHash K token with
      | none => rw [htoken] at h; cases h
      | some hash => exact ⟨hash, htoken, by simp [sessionWrite, htoken]⟩
    | firestore =>
      simp only [Sys.step, Firestore.revokeSession] at h
      split at h
      · cases h
      · split_ifs at h
        split at h
        · cases h
        · cases h
  | delete k c =>
    simp only [Sys.step, delete] at h
    cases hw : s.waiting[k]? with
    | none => rw [hw] at h; cases h
    | some w =>
      rw [hw] at h
      cases c with
      | raised applied call => cases h
      | done => exact ⟨w.hash, by simp [revokedHash, hw], by simp [sessionWrite, hw, Commit.applied]⟩
  | abandoned k => cases h

/-- only a session that is there admits a request -/
theorem admitted_answer {verify : String → Except Denial UserIdentity} {token : String} {answer : Answer}
    (h : requireUser W domains verify none (some token) answer = some (.ok identity)) : answer = .identity (some identity) := by
  unfold requireUser at h
  split_ifs at h
  · cases h
  · contradiction
  · split at h
    · cases h
    · cases h
    · split_ifs at h
      · cases h
        rfl
      · cases h
    · cases h

/-- **Logout is final.** Once a store has answered that a session was revoked, no request is admitted with its token, whatever
calls come between, unless an exchange draws a token with the same hash. -/
theorem logout_final {pre post : List (Entry Sys Act)} {e : Entry Sys Act}
    (hsessions : s₀.auth.sessions = []) (run : Trace (Steps K b) s₀ (pre ++ e :: post) s)
    (hrevoked : (e.before.step K b e.act).1 = .revoked true) :
    ∃ hash, revokedHash K e.before e.act = some hash ∧
      ((∀ e' ∈ post, ∀ i code, e'.act = .exchange i code → tokenHash K i.drawn ≠ some hash) →
        ∀ token, tokenHash K token = some hash → ∀ verify, requireUser W domains verify none (some token)
          (s.step K b (.identify now failed token)).1 ≠ some (.ok identity)) := by
  obtain ⟨hash, hhash, hends⟩ := revoked_write hrevoked
  refine ⟨hash, hhash, ?_⟩
  intro hfresh token htoken verify hadmitted
  obtain ⟨hash', record, htoken', hrecord, -⟩ := (identify_answer.1 (admitted_answer hadmitted)).2
  cases htoken.symm.trans htoken'
  have hstep : ∀ s a t, Steps K b s a t → t.auth.sessions = Dict.write (sessionWrite K b s a) s.auth.sessions := by
    intro s a t h
    rw [show t = _ from h, step_sessions]
  -- the session was written again after the logout, by an exchange that draws its token
  have hlast := (Dict.get?_run hstep run (by rw [hsessions]; rfl)).1 hrecord
  obtain ⟨exchange, hmem, hwrite⟩ := hlast.after hends (by simp)
  obtain ⟨i, code, codeHash, coded, hact, -, -, -, hdrawn, -⟩ := sessionWrite_some.1 hwrite
  exact hfresh exchange hmem i code hact hdrawn

end Admitted

/-! ## A session -/

def ada : UserIdentity := { uid := "u-1", email := "ada@example.com" }

def anyone : Site := ⟨id, id, fun _ => true, id, []⟩

def sampleCode : Act := .code ⟨fun _ => 0, "cccccccccccccccccccccccccccccccc", .done⟩ ada

def sampleExchange : Act :=
  .exchange ⟨fun _ => 1, "ssssssssssssssssssssssssssssssss", .done⟩ "cccccccccccccccccccccccccccccccc"

def noCalls : Sys := ⟨⟨[], []⟩, []⟩

/-- an exchanged code signs in -/
theorem ada_admitted : ∃ s tr, Trace (Steps sampleKeys .firestore) noCalls tr s ∧
    SignedIn sampleKeys .firestore tr "ssssssssssssssssssssssssssssssss" ada 2 := by
  have run := Trace.snoc (a := sampleExchange) (Trace.snoc (a := sampleCode)
    (@Trace.nil _ _ (Steps sampleKeys .firestore) noCalls) rfl) rfl
  refine ⟨_, _, run, ?_⟩
  have hadmitted := (@admitted_iff _ _ _ _ _ anyone [] [] (fun _ => none) none (some "ssssssssssssssssssssssssssssssss") ada 2
    false rfl rfl run).1 (by decide +kernel)
  rcases hadmitted with ⟨hgoogle, -⟩ | ⟨-, -, -, hsigned, -⟩
  · cases hgoogle
  · exact hsigned

/-- and is no longer signed in after the logout -/
theorem ada_logged_out : ∃ s tr, Trace (Steps sampleKeys .memory) noCalls tr s ∧
    ∀ domains verify now identity, requireUser anyone domains verify none (some "ssssssssssssssssssssssssssssssss")
      (s.step sampleKeys .memory (.identify now false "ssssssssssssssssssssssssssssssss")).1 ≠ some (.ok identity) := by
  have run := Trace.snoc (a := .revoke false "ssssssssssssssssssssssssssssssss") (Trace.snoc (a := sampleExchange)
    (Trace.snoc (a := sampleCode) (@Trace.nil _ _ (Steps sampleKeys .memory) noCalls) rfl) rfl) rfl
  refine ⟨_, _, run, ?_⟩
  intro domains verify now identity
  obtain ⟨hash, hhash, hout⟩ := @logout_final _ _ _ _ anyone domains identity now false _ [] _ rfl run (by decide +kernel)
  exact hout (fun e he => absurd he List.not_mem_nil) _ hhash verify

end Rally.Cloud.Sessions
