/-
Login codes and browser sessions (`cloud/auth_sessions.py`): `MemoryAuthSessionStore` and `FirestoreAuthSessionStore`, as far
as a sign-in goes: a code is issued, and exchanged once for a session.

- `issueCode_codes`, `exchange_sessions`: what each call does to the codes and sessions of either store.
-/
import Rally.Cloud.MagicLinks

namespace Rally.Cloud.AuthSessions

open MagicLinks

/-- `_CODE_TTL_SECONDS` and `_SESSION_TTL_SECONDS`, in microseconds -/
def codeTtl : ℤ := 120 * 1000000
def sessionTtl : ℤ := 30 * 60 * 1000000

/-- an identity with its expiry: a code, or a session -/
structure AuthRecord where
  identity : UserIdentity
  expiresAt : ℤ
deriving DecidableEq

/-- the records of either store, under the hashes of codes and of session tokens -/
structure Auth where
  codes : List (String × AuthRecord)
  sessions : List (String × AuthRecord)
deriving DecidableEq

inductive Backend where
  | memory
  | firestore
deriving DecidableEq

/-- the clock and the random text of a call, and what becomes of its write or transaction in Firestore -/
structure Draws where
  clock : ℕ → ℤ
  drawn : String
  commit : Commit

inductive AuthReply where
  | code (code : String)
  | session (token : String) (identity : UserIdentity)
  | nothing
  /-- `AuthSessionError` -/
  | raised
deriving DecidableEq

section Stores

variable (K : Keys)

/-- `_token_hash` -/
def tokenHash (token : String) : Option String :=
  if 32 ≤ token.length ∧ token.length ≤ 128 ∧ token.toList.all isUrlSafe then some (K.sha256 token) else none

/-- `_identity_from_record` -/
def identityFromRecord (record : AuthRecord) : Option UserIdentity :=
  if record.identity.uid = "" ∨ record.identity.email = "" then none else some record.identity

/-- a transaction or a write, under a handler of `Exception` -/
def guarded (c : Commit) (s : Auth) (x : AuthReply × Auth) : AuthReply × Auth :=
  match c with
  | .done => x
  | .raised applied _ => (.raised, if applied then x.2 else s)

/-- the store with a new code -/
def withCode (hash : String) (record : AuthRecord) (s : Auth) : Auth :=
  { s with codes := Dict.upsert s.codes hash fun _ => record }

/-- the store without a code -/
def withoutCode (hash : String) (s : Auth) : Auth := { s with codes := Dict.erase s.codes hash }

/-- the store with a new session -/
def withSession (hash : String) (record : AuthRecord) (s : Auth) : Auth :=
  { s with sessions := Dict.upsert s.sessions hash fun _ => record }

/-- `MemoryAuthSessionStore.issue_code` -/
def Memory.issueCode (i : Draws) (identity : UserIdentity) (s : Auth) : AuthReply × Auth :=
  match tokenHash K i.drawn with
  | none => (.raised, s)
  | some hash => (.code i.drawn, withCode hash ⟨identity, i.clock 0 + codeTtl⟩ s)

/-- `FirestoreAuthSessionStore.issue_code`; `create` raises where the document exists -/
def Firestore.issueCode (i : Draws) (identity : UserIdentity) (s : Auth) : AuthReply × Auth :=
  match tokenHash K i.drawn with
  | none => (.raised, s)
  | some hash =>
    match Dict.get? s.codes hash with
    | some _ => (.raised, s)
    | none => guarded i.commit s (.code i.drawn, withCode hash ⟨identity, i.clock 1 + codeTtl⟩ s)

/-- `MemoryAuthSessionStore.exchange_code` -/
def Memory.exchangeCode (i : Draws) (code : String) (s : Auth) : AuthReply × Auth :=
  match tokenHash K code with
  | none => (.nothing, s)
  | some hash =>
    match Dict.get? s.codes hash with
    | none => (.nothing, s)
    | some record =>
      if record.expiresAt ≤ i.clock 0 then (.nothing, withoutCode hash s)
      else
        match identityFromRecord record with
        | none => (.nothing, withoutCode hash s)
        | some identity =>
          match tokenHash K i.drawn with
          | none => (.raised, withoutCode hash s)
          | some sessionHash =>
            (.session i.drawn identity, withSession sessionHash ⟨identity, i.clock 1 + sessionTtl⟩ (withoutCode hash s))

/-- `FirestoreAuthSessionStore.exchange_code` -/
def Firestore.exchangeCode (i : Draws) (code : String) (s : Auth) : AuthReply × Auth :=
  match tokenHash K code with
  | none => (.nothing, s)
  | some hash =>
    match tokenHash K i.drawn with
    | none => (.raised, s)
    | some sessionHash =>
      guarded i.commit s <|
        match Dict.get? s.codes hash with
        | none => (.nothing, s)
        | some record =>
          if record.expiresAt ≤ i.clock 0 then (.nothing, withoutCode hash s)
          else
            match identityFromRecord record with
            | none => (.nothing, withoutCode hash s)
            | some identity =>
              (.session i.drawn identity,
                withSession sessionHash ⟨identity, i.clock 0 + sessionTtl⟩ (withoutCode hash s))

def issueCode (b : Backend) (i : Draws) (identity : UserIdentity) (s : Auth) : AuthReply × Auth :=
  match b with
  | .memory => Memory.issueCode K i identity s
  | .firestore => Firestore.issueCode K i identity s

def exchangeCode (b : Backend) (i : Draws) (code : String) (s : Auth) : AuthReply × Auth :=
  match b with
  | .memory => Memory.exchangeCode K i code s
  | .firestore => Firestore.exchangeCode K i code s

end Stores

section Lemmas

variable {K : Keys} {b : Backend} {i : Draws} {identity : UserIdentity} {code : String} {s : Auth}

theorem guarded_state (c : Commit) (s : Auth) (x : AuthReply × Auth) : (guarded c s x).2 = s ∨ (guarded c s x).2 = x.2 := by
  cases c with
  | done => exact .inr rfl
  | raised applied call =>
    cases applied with
    | true => exact .inr rfl
    | false => exact .inl rfl

/-- issuing a code changes nothing, or adds the code it draws -/
theorem issueCode_state : (issueCode K b i identity s).2 = s ∨
    ∃ hash expiry, tokenHash K i.drawn = some hash ∧ (issueCode K b i identity s).2 = withCode hash ⟨identity, expiry⟩ s := by
  cases b with
  | memory =>
    simp only [issueCode, Memory.issueCode]
    cases htoken : tokenHash K i.drawn with
    | none => exact .inl rfl
    | some hash => exact .inr ⟨hash, _, rfl, rfl⟩
  | firestore =>
    simp only [issueCode, Firestore.issueCode]
    cases htoken : tokenHash K i.drawn with
    | none => exact .inl rfl
    | some hash =>
      simp only
      cases Dict.get? s.codes hash with
      | some _ => exact .inl rfl
      | none =>
        rcases guarded_state i.commit s (.code i.drawn, withCode hash ⟨identity, i.clock 1 + codeTtl⟩ s) with h | h
        · exact .inl h
        · exact .inr ⟨hash, _, rfl, h⟩

/-- an exchange changes nothing, or takes the code away; it adds a session only where there was the code -/
theorem exchangeCode_state : (exchangeCode K b i code s).2 = s ∨
    ∃ hash, tokenHash K code = some hash ∧ ((exchangeCode K b i code s).2 = withoutCode hash s ∨
      ∃ record sessionHash session, Dict.get? s.codes hash = some record ∧
        (exchangeCode K b i code s).2 = withSession sessionHash session (withoutCode hash s)) := by
  cases b with
  | memory =>
    simp only [exchangeCode, Memory.exchangeCode]
    cases htoken : tokenHash K code with
    | none => exact .inl rfl
    | some hash =>
      simp only
      cases hcode : Dict.get? s.codes hash with
      | none => exact .inl rfl
      | some record =>
        refine .inr ⟨hash, rfl, ?_⟩
        simp only
        split_ifs
        · exact .inl rfl
        · cases identityFromRecord record with
          | none => exact .inl rfl
          | some identity =>
            simp only
            cases tokenHash K i.drawn with
            | none => exact .inl rfl
            | some sessionHash => exact .inr ⟨record, sessionHash, _, hcode, rfl⟩
  | firestore =>
    simp only [exchangeCode, Firestore.exchangeCode]
    cases htoken : tokenHash K code with
    | none => exact .inl rfl
    | some hash =>
      simp only
      cases tokenHash K i.drawn with
      | none => exact .inl rfl
      | some sessionHash =>
        simp only
        cases hcode : Dict.get? s.codes hash with
        | none =>
          rcases guarded_state i.commit s (.nothing, s) with h | h <;> exact .inl h
        | some record =>
          simp only
          split_ifs
          · rcases guarded_state i.commit s (.nothing, withoutCode hash s) with h | h
            · exact .inl h
            · exact .inr ⟨hash, rfl, .inl h⟩
          · cases identityFromRecord record with
            | none =>
              rcases guarded_state i.commit s (.nothing, withoutCode hash s) with h | h
              · exact .inl h
              · exact .inr ⟨hash, rfl, .inl h⟩
            | some identity =>
              rcases guarded_state i.commit s (.session i.drawn identity,
                withSession sessionHash ⟨identity, i.clock 0 + sessionTtl⟩ (withoutCode hash s)) with h | h
              · exact .inl h
              · exact .inr ⟨hash, rfl, .inr ⟨record, sessionHash, _, hcode, h⟩⟩

end Lemmas

end Rally.Cloud.AuthSessions
