/-
Sign-in links (`cloud/magic_links.py`): signed tokens, and the two stores that keep a record of each link under the hash of
its token, `MemoryMagicLinkStore` and `FirestoreMagicLinkStore`.

A call of the Firestore store may raise, before or after the document is written; what becomes of it is an input.

- `stores_agree`: from empty stores and with a working Firestore, both give the same answers exactly as long as no used link
  is activated again, no unknown one is disabled and no token of an unnumbered delivery is drawn twice.
- `stores_part`: a delivery that is repeated after the sign-in.
-/
import Rally.Core.Dict
import Rally.Core.Lockstep

namespace Rally.Cloud.MagicLinks

/-! ## Tokens -/

/-- the HMAC with the signing key of a store, and the encodings -/
structure Keys where
  sign : String → List UInt8
  b64url : List UInt8 → String
  sha256 : String → String

structure UserIdentity where
  uid : String
  email : String
  name : Option String := none
  picture : Option String := none
  hostedDomain : Option String := none
deriving DecidableEq

/-- `_LINK_TTL_SECONDS`, in microseconds -/
def linkTtl : ℤ := 10 * 60 * 1000000

def rateWindowSeconds : ℤ := 15 * 60
def emailRateLimit : ℕ := 5
def globalRateLimit : ℕ := 10000

/-- `int(t.timestamp())` of a time in microseconds -/
def timestamp (t : ℤ) : ℤ := t.tdiv 1000000

section Tokens

variable (K : Keys)

/-- `_binding` -/
def binding (email workspaceId : String) : String :=
  K.b64url ((K.sign ("bind\x00" ++ email ++ "\x00" ++ workspaceId)).take 18)

/-- `_rate_key` -/
def rateKey (kind value : String) (window : ℤ) : String :=
  K.b64url (K.sign ("rate\x00" ++ kind ++ "\x00" ++ value ++ "\x00" ++ toString window))

/-- `".".join` -/
def joined (parts : List String) : String := ".".intercalate parts

/-- `_new_token`: the token, its hash and its expiry, `none` where the expiry is refused; `drawn` is the random text -/
def newToken (email workspaceId : String) (now : ℤ) (drawn : String) (deliveryId : Option String)
    (expiresAt : Option ℤ) : Option (String × String × ℤ) :=
  let expiresAt := expiresAt.getD (now + linkTtl)
  if expiresAt ≤ now ∨ expiresAt > now + linkTtl then none
  else
    let deliveryId := deliveryId.getD ""
    let nonce := if deliveryId ≠ "" then K.b64url ((K.sign ("delivery\x00" ++ deliveryId)).take 32) else drawn
    let unsigned := joined ["ml1", nonce, toString (timestamp expiresAt), binding K email workspaceId]
    let token := unsigned ++ "." ++ K.b64url (K.sign unsigned)
    some (token, K.sha256 token, expiresAt)

/-- the characters of base64 for URLs -/
def isUrlSafe (c : Char) : Bool := c.isAlphanum || c = '-' || c = '_'

structure Parts where
  nonce : String
  expires : String
  binding : String
  signature : String

/-- `_TOKEN.fullmatch` and `token.split(".")` -/
def parts (token : String) : Option Parts :=
  match (token.toList.splitOn '.') with
  | [version, nonce, expires, binding, signature] =>
    if version = ['m', 'l', '1'] ∧ nonce.length = 43 ∧ nonce.all isUrlSafe ∧ expires.length = 10 ∧
        expires.all Char.isDigit ∧ binding.length = 24 ∧ binding.all isUrlSafe ∧ signature.length = 43 ∧
        signature.all isUrlSafe then
      some ⟨.ofList nonce, .ofList expires, .ofList binding, .ofList signature⟩
    else none
  | _ => none

/-- `int` of a text of digits -/
def digitsValue (s : String) : ℕ := s.toList.foldl (fun n c => 10 * n + (c.toNat - 48)) 0

/-- `_validated_token_hash` -/
def validatedTokenHash (token : String) (now : ℤ) : Option String :=
  match parts token with
  | none => none
  | some p =>
    let unsigned := joined ["ml1", p.nonce, p.expires, p.binding]
    if p.signature ≠ K.b64url (K.sign unsigned) then none
    else if (digitsValue p.expires : ℤ) ≤ timestamp now then none
    else some (K.sha256 token)

/-- `_binding_matches` -/
def bindingMatches (token email workspaceId : String) : Bool :=
  match parts token with
  | none => false
  | some p => p.binding = binding K email workspaceId

end Tokens

/-! ## Records -/

structure LinkRecord where
  identity : UserIdentity
  workspaceId : String
  expiresAt : ℤ
  activeAt : Option ℤ
  disabledAt : Option ℤ
  consumedAt : Option ℤ
deriving DecidableEq

/-- records under the hashes of their tokens -/
abbrev Links := List (String × LinkRecord)

/-- `_identity`; the picture is not carried over -/
def identityOf (record : LinkRecord) : Option UserIdentity :=
  let i := record.identity
  if i.uid = "" ∨ i.email = "" then none else some { i with picture := none }

/-- the record of a new link -/
def newRecord (identity : UserIdentity) (workspaceId : String) (expiresAt : ℤ) : LinkRecord :=
  ⟨identity, workspaceId, expiresAt, none, none, none⟩

/-- what both stores ask of a record before a sign-in, other than its binding -/
def Usable (record : LinkRecord) (workspaceId : String) (now : ℤ) : Prop :=
  record.workspaceId = workspaceId ∧ record.activeAt.isSome = true ∧ record.disabledAt = none ∧
    record.consumedAt = none ∧ now < record.expiresAt

instance (record : LinkRecord) (workspaceId : String) (now : ℤ) : Decidable (Usable record workspaceId now) := by
  unfold Usable; infer_instance

/-- a record, written in place or added -/
def store (links : Links) (hash : String) (record : LinkRecord) : Links := Dict.upsert links hash fun _ => record

@[simp] theorem get?_store (links : Links) (hash k : String) (record : LinkRecord) :
    Dict.get? (store links hash record) k = if hash = k then some record else Dict.get? links k :=
  Dict.get?_upsert links hash k _

/-- an answer of a store -/
inductive Reply where
  | allowed (b : Bool)
  | token (token : String)
  | done
  | identity (identity : Option UserIdentity)
  /-- `MagicLinkError` -/
  | raised
  /-- another exception -/
  | fault
deriving DecidableEq

/-! ## The store in memory -/

/-- `MemoryMagicLinkStore` -/
structure Memory where
  links : Links
  rates : List (String × ℤ × ℕ)

namespace Memory

variable (K : Keys)

/-- `self._rates.get(key, (window, 0))[1]` -/
def count (rates : List (String × ℤ × ℕ)) (key : String) : ℕ := ((Dict.get? rates key).map Prod.snd).getD 0

/-- one more under a key -/
def counted (rates : List (String × ℤ × ℕ)) (window : ℤ) (key : String) : List (String × ℤ × ℕ) :=
  Dict.upsert rates key fun old => (window, (old.map Prod.snd).getD 0 + 1)

/-- `reserve_request` -/
def reserveRequest (now : ℤ) (email : String) (s : Memory) : Reply × Memory :=
  let window := timestamp now / rateWindowSeconds
  let keys := [(rateKey K "email" email window, emailRateLimit), (rateKey K "global" "all" window, globalRateLimit)]
  let allowed := keys.all fun k => count s.rates k.1 < k.2
  (.allowed allowed, { s with rates := keys.foldl (fun rates k => counted rates window k.1) s.rates })

/-- `issue` -/
def issue (now : ℤ) (drawn : String) (identity : UserIdentity) (workspaceId : String) (deliveryId : Option String)
    (expiresAt : Option ℤ) (s : Memory) : Reply × Memory :=
  match newToken K identity.email workspaceId now drawn deliveryId expiresAt with
  | none => (.raised, s)
  | some (token, hash, expiresAt) =>
    -- `setdefault`
    match Dict.get? s.links hash with
    | some _ => (.token token, s)
    | none => (.token token, { s with links := store s.links hash (newRecord identity workspaceId expiresAt) })

/-- `activate` -/
def activate (now : ℤ) (token : String) (s : Memory) : Reply × Memory :=
  match Dict.get? s.links (K.sha256 token) with
  | none => (.raised, s)
  | some record =>
    if record.consumedAt.isSome then (.raised, s)
    else
      let active := { record with activeAt := some now, disabledAt := none }
      (.done, { s with links := store s.links (K.sha256 token) active })

/-- `consume`: the clock is read up to three times -/
def consume (clock : ℕ → ℤ) (token workspaceId : String) (s : Memory) : Reply × Memory :=
  match validatedTokenHash K token (clock 0) with
  | none => (.identity none, s)
  | some hash =>
    match Dict.get? s.links hash with
    | none => (.identity none, s)
    | some record =>
      if !Usable record workspaceId (clock 1) then (.identity none, s)
      else if !bindingMatches K token record.identity.email workspaceId then (.identity none, s)
      else
        let consumed := { record with consumedAt := some (clock 2) }
        (.identity (identityOf record), { s with links := store s.links hash consumed })

/-- `invalidate` -/
def invalidate (now : ℤ) (token : String) (s : Memory) : Reply × Memory :=
  match Dict.get? s.links (K.sha256 token) with
  | none => (.done, s)
  | some record =>
    if record.consumedAt.isSome then (.done, s)
    else
      let disabled := { record with activeAt := none, disabledAt := some now }
      (.done, { s with links := store s.links (K.sha256 token) disabled })

end Memory

/-! ## The store in Firestore -/

structure RateDocument where
  count : ℕ
  window : ℤ
  expiresAt : ℤ

/-- the collections of `FirestoreMagicLinkStore` -/
structure Firestore where
  links : Links
  rates : List (String × RateDocument)

/-- how a write or a transaction ends; one that raises may have been applied, and may raise a `GoogleAPICallError` -/
inductive Commit where
  | done
  | raised (applied call : Bool)
deriving DecidableEq

namespace Firestore

/-- under a handler of `Exception` -/
def guarded (c : Commit) (s : Firestore) (x : Reply × Firestore) : Reply × Firestore :=
  match c with
  | .done => x
  | .raised applied _ => (.raised, if applied then x.2 else s)

variable (K : Keys)

def count (rates : List (String × RateDocument)) (key : String) : ℕ :=
  ((Dict.get? rates key).map RateDocument.count).getD 0

/-- `reserve_request`: all counts are read before any is written -/
def reserveRequest (c : Commit) (now : ℤ) (email : String) (s : Firestore) : Reply × Firestore :=
  let window := timestamp now / rateWindowSeconds
  let specs := [(rateKey K "email" email window, emailRateLimit), (rateKey K "global" "all" window, globalRateLimit)]
  let counts := specs.map fun k => count s.rates k.1
  let allowed := (counts.zip specs).all fun p => p.1 < p.2.2
  let written := (counts.zip specs).foldl
    (fun rates p => Dict.upsert rates p.2.1 fun _ => ⟨p.1 + 1, window, now + 24 * 60 * 60 * 1000000⟩) s.rates
  guarded c s (.allowed allowed, { s with rates := written })

/-- `issue` -/
def issue (c : Commit) (now : ℤ) (drawn : String) (identity : UserIdentity) (workspaceId : String)
    (deliveryId : Option String) (expiresAt : Option ℤ) (s : Firestore) : Reply × Firestore :=
  match newToken K identity.email workspaceId now drawn deliveryId expiresAt with
  | none => (.raised, s)
  | some (token, hash, expiresAt) =>
    guarded c s <|
      match Dict.get? s.links hash with
      | some _ => (if deliveryId = none then .raised else .token token, s)
      | none => (.token token, { s with links := store s.links hash (newRecord identity workspaceId expiresAt) })

/-- `update` of a document raises where there is none -/
def update (hash : String) (f : LinkRecord → LinkRecord) (s : Firestore) : Reply × Firestore :=
  match Dict.get? s.links hash with
  | none => (.raised, s)
  | some record => (.done, { s with links := store s.links hash (f record) })

/-- `activate` -/
def activate (c : Commit) (now : ℤ) (token : String) (s : Firestore) : Reply × Firestore :=
  guarded c s (update (K.sha256 token) (fun record => { record with activeAt := some now, disabledAt := none }) s)

/-- `consume`: the clock is read once, before the transaction -/
def consume (c : Commit) (now : ℤ) (token workspaceId : String) (s : Firestore) : Reply × Firestore :=
  match validatedTokenHash K token now with
  | none => (.identity none, s)
  | some hash =>
    guarded c s <|
      match Dict.get? s.links hash with
      | none => (.identity none, s)
      | some record =>
        if !Usable record workspaceId now || !bindingMatches K token record.identity.email workspaceId then
          (.identity none, s)
        else
          match identityOf record with
          | none => (.identity none, s)
          | some identity =>
            let consumed := { record with consumedAt := some now }
            (.identity (some identity), { s with links := store s.links hash consumed })

/-- `invalidate`: only a `GoogleAPICallError` is handled -/
def invalidate (c : Commit) (now : ℤ) (token : String) (s : Firestore) : Reply × Firestore :=
  let disabled := update (K.sha256 token) (fun record => { record with activeAt := none, disabledAt := some now }) s
  match c with
  | .raised _ false => (.fault, (guarded c s disabled).2)
  | _ => guarded c s disabled

end Firestore

/-! ## One contract -/

/-- a call of a store, as the protocol `MagicLinkStore` has it -/
inductive Call where
  | reserveRequest (email : String)
  | issue (identity : UserIdentity) (workspaceId : String) (deliveryId : Option String) (expiresAt : Option ℤ)
  | activate (token : String)
  | consume (token workspaceId : String)
  | invalidate (token : String)
deriving DecidableEq

/-- a call with the reading of the clock and the random text it draws -/
structure Request where
  now : ℤ
  drawn : String
  call : Call
deriving DecidableEq

section Contract

variable (K : Keys)

def Memory.answer (s : Memory) (q : Request) : Reply × Memory :=
  match q.call with
  | .reserveRequest email => s.reserveRequest K q.now email
  | .issue identity workspaceId deliveryId expiresAt => s.issue K q.now q.drawn identity workspaceId deliveryId expiresAt
  | .activate token => s.activate K q.now token
  | .consume token workspaceId => s.consume K (fun _ => q.now) token workspaceId
  | .invalidate token => s.invalidate K q.now token

/-- a Firestore that works -/
def Firestore.answer (s : Firestore) (q : Request) : Reply × Firestore :=
  match q.call with
  | .reserveRequest email => s.reserveRequest K .done q.now email
  | .issue identity workspaceId deliveryId expiresAt =>
    s.issue K .done q.now q.drawn identity workspaceId deliveryId expiresAt
  | .activate token => s.activate K .done q.now token
  | .consume token workspaceId => s.consume K .done q.now token workspaceId
  | .invalidate token => s.invalidate K .done q.now token

/-- the calls that both stores answer alike, in a state of the one in memory: no link is activated after its sign-in, only
known ones are disabled, and a token of an unnumbered delivery is new -/
def Alike (s : Memory) (q : Request) : Prop :=
  match q.call with
  | .issue identity workspaceId none expiresAt =>
    ((newToken K identity.email workspaceId q.now q.drawn none expiresAt).bind fun t => Dict.get? s.links t.2.1) = none
  | .activate token => ((Dict.get? s.links (K.sha256 token)).bind LinkRecord.consumedAt) = none
  | .invalidate token => (Dict.get? s.links (K.sha256 token)).isSome = true
  | _ => True

instance (s : Memory) (q : Request) : Decidable (Alike K s q) := by
  unfold Alike
  split <;> infer_instance

/-- the counters of an address and of all requests are different ones -/
def RatesApart : Prop := ∀ email window, rateKey K "email" email window ≠ rateKey K "global" "all" window

end Contract

/-- the same link in both stores; after a sign-in that the one in memory took down, only that neither lets another through -/
structure SameLink (m f : LinkRecord) : Prop where
  identity : f.identity = m.identity
  fresh : m.consumedAt = none → f = m
  spent : m.consumedAt.isSome = true → f.consumedAt.isSome = true ∨ identityOf f = none

/-- what the two stores hold of the same calls -/
structure Corresponds (m : Memory) (f : Firestore) : Prop where
  links : ∀ hash, Option.Rel SameLink (Dict.get? m.links hash) (Dict.get? f.links hash)
  rates : ∀ key, Memory.count m.rates key = Firestore.count f.rates key

section Lockstep

variable {K : Keys} {m : Memory} {f : Firestore} {r r' : LinkRecord} {hash : String}

theorem SameLink.refl (r : LinkRecord) (h : r.consumedAt = none) : SameLink r r :=
  ⟨rfl, fun _ => rfl, fun hspent => by rw [h] at hspent; cases hspent⟩

/-- a link that is written in both stores -/
theorem Corresponds.written (h : Corresponds m f) (hr : SameLink r r') :
    Corresponds { m with links := store m.links hash r } { f with links := store f.links hash r' } := by
  refine ⟨fun k => ?_, h.rates⟩
  simp only [get?_store]
  split_ifs
  · exact .some hr
  · exact h.links k

/-- a link that is written in Firestore alone -/
theorem Corresponds.writtenRight (h : Corresponds m f) (hm : Dict.get? m.links hash = some r) (hr : SameLink r r') :
    Corresponds m { f with links := store f.links hash r' } := by
  refine ⟨fun k => ?_, h.rates⟩
  simp only [get?_store]
  split_ifs with hk
  · rw [← hk, hm]
    exact .some hr
  · exact h.links k

theorem Corresponds.absent (h : Corresponds m f) (hm : Dict.get? m.links hash = none) : Dict.get? f.links hash = none := by
  have hlink := h.links hash
  rw [hm] at hlink
  generalize Dict.get? f.links hash = o at hlink
  cases hlink
  rfl

theorem Corresponds.present (h : Corresponds m f) (hm : Dict.get? m.links hash = some r) :
    ∃ r', Dict.get? f.links hash = some r' ∧ SameLink r r' := by
  have hlink := h.links hash
  rw [hm] at hlink
  generalize Dict.get? f.links hash = o at hlink
  cases hlink with
  | some hsame => exact ⟨_, rfl, hsame⟩

/-! ### Counters -/

theorem Memory.count_counted (rates : List (String × ℤ × ℕ)) (window : ℤ) (key k : String) :
    Memory.count (Memory.counted rates window key) k = if key = k then Memory.count rates key + 1 else Memory.count rates k := by
  unfold Memory.count Memory.counted
  rw [Dict.get?_upsert]
  split_ifs <;> rfl

theorem Firestore.count_upsert (rates : List (String × RateDocument)) (d : RateDocument) (key k : String) :
    Firestore.count (Dict.upsert rates key fun _ => d) k = if key = k then d.count else Firestore.count rates k := by
  unfold Firestore.count
  rw [Dict.get?_upsert]
  split_ifs <;> rfl

/-- both stores count a request under both keys -/
theorem reserve_alike (hapart : RatesApart K) (h : Corresponds m f) (now : ℤ) (email : String) :
    (m.reserveRequest K now email).1 = (f.reserveRequest K .done now email).1 ∧
      Corresponds (m.reserveRequest K now email).2 (f.reserveRequest K .done now email).2 := by
  have hne := hapart email (timestamp now / rateWindowSeconds)
  constructor
  · simp [Memory.reserveRequest, Firestore.reserveRequest, Firestore.guarded, h.rates]
  · refine ⟨h.links, fun k => ?_⟩
    simp only [Memory.reserveRequest, Firestore.reserveRequest, Firestore.guarded, List.map_cons, List.map_nil,
      List.zip_cons_cons, List.zip_nil_right, List.foldl_cons, List.foldl_nil, Memory.count_counted,
      Firestore.count_upsert, if_neg hne, h.rates]

/-! ### Links -/

theorem issue_alike (h : Corresponds m f) (now : ℤ) (drawn : String) (identity : UserIdentity) (workspaceId : String)
    (deliveryId : Option String) (expiresAt : Option ℤ) :
    ((m.issue K now drawn identity workspaceId deliveryId expiresAt).1 =
        (f.issue K .done now drawn identity workspaceId deliveryId expiresAt).1 ↔
      Alike K m ⟨now, drawn, .issue identity workspaceId deliveryId expiresAt⟩) ∧
      Corresponds (m.issue K now drawn identity workspaceId deliveryId expiresAt).2
        (f.issue K .done now drawn identity workspaceId deliveryId expiresAt).2 := by
  unfold Memory.issue Firestore.issue
  cases htoken : newToken K identity.email workspaceId now drawn deliveryId expiresAt with
  | none =>
    refine ⟨iff_of_true rfl ?_, h⟩
    cases deliveryId with
    | none => simp [Alike, htoken]
    | some id => trivial
  | some t =>
    obtain ⟨token, hash, expiry⟩ := t
    cases hm : Dict.get? m.links hash with
    | none =>
      simp only [Firestore.guarded, hm, h.absent hm]
      refine ⟨iff_of_true trivial ?_, h.written (.refl _ rfl)⟩
      cases deliveryId with
      | none => simp [Alike, htoken, hm]
      | some id => trivial
    | some r =>
      obtain ⟨r', hf, -⟩ := h.present hm
      simp only [Firestore.guarded, hm, hf]
      refine ⟨?_, h⟩
      cases deliveryId with
      | none => simp [Alike, htoken, hm]
      | some id => exact iff_of_true rfl trivial

theorem activate_alike (h : Corresponds m f) (now : ℤ) (drawn token : String) :
    ((m.activate K now token).1 = (f.activate K .done now token).1 ↔ Alike K m ⟨now, drawn, .activate token⟩) ∧
      Corresponds (m.activate K now token).2 (f.activate K .done now token).2 := by
  unfold Memory.activate Firestore.activate Firestore.update
  cases hm : Dict.get? m.links (K.sha256 token) with
  | none => simp [Firestore.guarded, h.absent hm, Alike, hm, h]
  | some r =>
    obtain ⟨r', hf, hsame⟩ := h.present hm
    cases hspent : r.consumedAt with
    | none =>
      obtain rfl := hsame.fresh hspent
      simp only [Firestore.guarded, hf, hspent, Option.isSome_none, Bool.false_eq_true, if_false]
      exact ⟨iff_of_true trivial (by simp [Alike, hm, hspent]), h.written (.refl _ rfl)⟩
    | some t =>
      simp only [Firestore.guarded, hf, hspent, Option.isSome_some, if_true]
      refine ⟨by simp [Alike, hm, hspent], h.writtenRight hm ?_⟩
      exact ⟨hsame.identity, fun hfresh => (by rw [hspent] at hfresh; cases hfresh), fun _ => hsame.spent (by simp [hspent])⟩

theorem invalidate_alike (h : Corresponds m f) (now : ℤ) (drawn token : String) :
    ((m.invalidate K now token).1 = (f.invalidate K .done now token).1 ↔ Alike K m ⟨now, drawn, .invalidate token⟩) ∧
      Corresponds (m.invalidate K now token).2 (f.invalidate K .done now token).2 := by
  unfold Memory.invalidate Firestore.invalidate Firestore.update
  cases hm : Dict.get? m.links (K.sha256 token) with
  | none => simp [Firestore.guarded, h.absent hm, Alike, hm, h]
  | some r =>
    obtain ⟨r', hf, hsame⟩ := h.present hm
    cases hspent : r.consumedAt with
    | none =>
      obtain rfl := hsame.fresh hspent
      simp only [Firestore.guarded, hf, hspent, Option.isSome_none, Bool.false_eq_true, if_false]
      exact ⟨iff_of_true trivial (by simp [Alike, hm]), h.written (.refl _ rfl)⟩
    | some t =>
      simp only [Firestore.guarded, hf, hspent, Option.isSome_some, if_true]
      refine ⟨iff_of_true trivial (by simp [Alike, hm]), h.writtenRight hm ?_⟩
      exact ⟨hsame.identity, fun hfresh => (by rw [hspent] at hfresh; cases hfresh), fun _ => hsame.spent (by simp [hspent])⟩

theorem consume_alike (h : Corresponds m f) (now : ℤ) (token workspaceId : String) :
    (m.consume K (fun _ => now) token workspaceId).1 = (f.consume K .done now token workspaceId).1 ∧
      Corresponds (m.consume K (fun _ => now) token workspaceId).2 (f.consume K .done now token workspaceId).2 := by
  unfold Memory.consume Firestore.consume
  cases validatedTokenHash K token now with
  | none => exact ⟨rfl, h⟩
  | some hash =>
    simp only [Firestore.guarded]
    cases hm : Dict.get? m.links hash with
    | none =>
      rw [h.absent hm]
      exact ⟨rfl, h⟩
    | some r =>
      obtain ⟨r', hf, hsame⟩ := h.present hm
      rw [hf]
      simp only
      cases hspent : r.consumedAt with
      | some t =>
        -- the link is used up in memory, so Firestore lets nobody in either
        have hclosed : ¬ Usable r workspaceId now := fun hu => by rw [hu.2.2.2.1] at hspent; cases hspent
        rcases hsame.spent (by simp [hspent]) with hused | hnobody
        · have hclosed' : ¬ Usable r' workspaceId now := fun hu => by rw [hu.2.2.2.1] at hused; cases hused
          simp [hclosed, hclosed', h]
        · simp only [hclosed, hnobody, decide_false, Bool.not_false, if_true]
          split_ifs <;> exact ⟨rfl, h⟩
      | none =>
        obtain rfl := hsame.fresh hspent
        by_cases hu : Usable r' workspaceId now
        · by_cases hb : bindingMatches K token r'.identity.email workspaceId = true
          · simp only [hu, hb, decide_true, Bool.not_true, Bool.or_self, Bool.false_eq_true, if_false]
            cases hid : identityOf r' with
            | none =>
              refine ⟨rfl, ?_⟩
              constructor
              · intro k
                rw [get?_store]
                split_ifs with hk
                · rw [← hk, hf]
                  exact .some ⟨rfl, fun hfresh => (by cases hfresh), fun _ => .inr hid⟩
                · exact h.links k
              · exact h.rates
            | some identity =>
              exact ⟨rfl, h.written ⟨rfl, fun hfresh => (by cases hfresh), fun _ => .inl rfl⟩⟩
          · simp [hu, hb, h]
        · simp [hu, h]

/-- one call: the stores stay together, and answer alike exactly to the calls that are alike -/
theorem answer_alike (hapart : RatesApart K) (h : Corresponds m f) (q : Request) :
    ((m.answer K q).1 = (f.answer K q).1 ↔ Alike K m q) ∧ Corresponds (m.answer K q).2 (f.answer K q).2 := by
  obtain ⟨now, drawn, call⟩ := q
  cases call with
  | reserveRequest email => exact ⟨iff_of_true (reserve_alike hapart h now email).1 trivial, (reserve_alike hapart h now email).2⟩
  | issue identity workspaceId deliveryId expiresAt => exact issue_alike h now drawn identity workspaceId deliveryId expiresAt
  | activate token => exact activate_alike h now drawn token
  | consume token workspaceId => exact ⟨iff_of_true (consume_alike h now token workspaceId).1 trivial, (consume_alike h now token workspaceId).2⟩
  | invalidate token => exact invalidate_alike h now drawn token

/-- **When the two stores are one contract.** From empty stores, any list of calls gets the same answers from both exactly
if no used link is activated, no unknown link is disabled and no unnumbered delivery draws a token again. -/
theorem stores_agree (hapart : RatesApart K) (calls : List Request) :
    Lockstep.replies (Memory.answer K) ⟨[], []⟩ calls = Lockstep.replies (Firestore.answer K) ⟨[], []⟩ calls ↔
      Lockstep.Along (Memory.answer K) (Alike K) ⟨[], []⟩ calls :=
  Lockstep.replies_eq_iff (fun _ _ q h => (answer_alike hapart h q).1) (fun _ _ q h _ => (answer_alike hapart h q).2)
    (R := Corresponds) ⟨fun _ => .none, fun _ => rfl⟩ calls

end Lockstep

/-! ### Sample keys -/

def urlChar (n : ℕ) : Char :=
  ("ABCDEFGHIJKLMNOPQRSTUVWXYZabcdefghijklmnopqrstuvwxyz0123456789-_".toList[n]?).getD 'A'

/-- base64 for URLs, without padding -/
def base64url : List UInt8 → List Char
  | a :: b :: c :: rest =>
    urlChar (a.toNat / 4) :: urlChar (a.toNat % 4 * 16 + b.toNat / 16) :: urlChar (b.toNat % 16 * 4 + c.toNat / 64) ::
      urlChar (c.toNat % 64) :: base64url rest
  | [a, b] => [urlChar (a.toNat / 4), urlChar (a.toNat % 4 * 16 + b.toNat / 16), urlChar (b.toNat % 16 * 4)]
  | [a] => [urlChar (a.toNat / 4), urlChar (a.toNat % 4 * 16)]
  | [] => []

/-- 32 bytes: six letters of the text, and the digits of a number made of all of it -/
def sampleSign (text : String) : List UInt8 :=
  let letters := text.toList
  let h := letters.foldl (fun h c => (h * 16777619 + c.toNat) % 2 ^ 208) 7
  (letters.take 6).map (fun c => .ofNat c.toNat) ++ (List.range 26).map fun i => .ofNat (h / 256 ^ i)

def sampleKeys : Keys := ⟨sampleSign, fun bytes => .ofList (base64url bytes), fun text => "#" ++ text⟩

theorem sampleKeys_apart : RatesApart sampleKeys := by
  intro email window h
  have hchars := congrArg (fun s : String => s.toList.drop 7) h
  simp [rateKey, sampleKeys, sampleSign, base64url] at hchars
  exact absurd hchars.1 (by decide)

def owner : UserIdentity := ⟨"email:owner", "owner@example.com", some "Owner", none, some "example.com"⟩

/-- in November 2023 -/
def sampleNow : ℤ := 1700000000 * 1000000

/-- the link of a numbered delivery -/
def sampleIssue : Call :=
  .issue owner "workspace" (some "AAAAAAAAAAAAAAAAAAAAAAAAAAAAAAAA") (some (sampleNow + 600 * 1000000))

/-- its token -/
def sampleToken : String :=
  "ml1.ZGVsaXZlAZdZRup8UTWMVyC-AjD3d1AMR27P90TFup4.1700000600.YmluZABv7YAFhIkF8CUZWftJ." ++
    "bWwxLlpHTEzamSzXwFuLj8NdpOFiIwiDx_OxTNP1bS8"

/-- a delivery, the sign-in with its link, and the same delivery again -/
def redelivered : List Request :=
  [⟨sampleNow, "", sampleIssue⟩, ⟨sampleNow + 1, "", .activate sampleToken⟩,
    ⟨sampleNow + 2, "", .consume sampleToken "workspace"⟩, ⟨sampleNow + 3, "", sampleIssue⟩,
    ⟨sampleNow + 4, "", .activate sampleToken⟩]

theorem stores_agree_sample :
    Lockstep.replies (Memory.answer sampleKeys) ⟨[], []⟩ (redelivered.take 4) =
      Lockstep.replies (Firestore.answer sampleKeys) ⟨[], []⟩ (redelivered.take 4) :=
  (stores_agree sampleKeys_apart (redelivered.take 4)).2 (by decide +kernel)

/-- the store in memory refuses to activate the used link, Firestore does it -/
theorem stores_part :
    Lockstep.replies (Memory.answer sampleKeys) ⟨[], []⟩ redelivered =
        [.token sampleToken, .done, .identity (some owner), .token sampleToken, .raised] ∧
      Lockstep.replies (Firestore.answer sampleKeys) ⟨[], []⟩ redelivered =
        [.token sampleToken, .done, .identity (some owner), .token sampleToken, .done] ∧
      Lockstep.replies (Memory.answer sampleKeys) ⟨[], []⟩ redelivered ≠
        Lockstep.replies (Firestore.answer sampleKeys) ⟨[], []⟩ redelivered := by
  have hboth : Lockstep.replies (Memory.answer sampleKeys) ⟨[], []⟩ redelivered =
        [.token sampleToken, .done, .identity (some owner), .token sampleToken, .raised] ∧
      Lockstep.replies (Firestore.answer sampleKeys) ⟨[], []⟩ redelivered =
        [.token sampleToken, .done, .identity (some owner), .token sampleToken, .done] := by decide +kernel
  obtain ⟨hmemory, hfirestore⟩ := hboth
  refine ⟨hmemory, hfirestore, ?_⟩
  rw [hmemory, hfirestore]
  simp

end Rally.Cloud.MagicLinks
