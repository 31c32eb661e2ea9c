/-
Signing in by mail (`consume_magic_link`, `deliver_magic_link` and `exchange_login_code` of `cloud/control_plane.py`), with
either store of links and either store of sessions.

Any number of deliveries, of the same message too, and of sign-ins are under way at once; each takes its steps between the
steps of the others, and may end after any of them. Beside them anyone may call the store of links.

- `parts_tokenText`: a token says whom it is for and when it ends.
- `Changed`: what a call does to the links of either store. `call_changed`, `call_lets`, `call_disables`.
- `one_link_one_session`: a token lets one sign-in through, to one code and one session, in the name, the workspace and the
  time it was issued for, and only while it is activated.
-/
import Rally.Cloud.AuthSessions
import Rally.Core.Trace

namespace Rally.Cloud.SignIn

open MagicLinks AuthSessions

/-! ## What a token says -/

section Tokens

/-- a list that is not split -/
theorem of_splitOn_singleton {x y : List Char} (h : x.splitOn '.' = [y]) : x = y := by
  have hback := @List.intercalate_splitOn _ x _ _ '.'
  rw [h] at hback
  simpa using hback.symm

/-- five texts with points between them that fall apart into five are those -/
theorem splitOn_five {a b c d e : List Char} {l : List (List Char)} (hl : l.length = 5)
    (h : (a ++ '.' :: (b ++ '.' :: (c ++ '.' :: (d ++ '.' :: e)))).splitOn '.' = l) : l = [a, b, c, d, e] := by
  simp only [List.splitOn_append_cons_self] at h
  have hone : ∀ x : List Char, 1 ≤ (x.splitOn '.').length := fun x => List.length_pos_iff.2 (List.splitOn_ne_nil _ _)
  have hlen := congrArg List.length h
  simp only [List.length_append, hl] at hlen
  have hsingle : ∀ x ∈ [a, b, c, d, e], x.splitOn '.' = [x] := by
    intro x hx
    have hx1 : (x.splitOn '.').length = 1 := by
      have ha := hone a
      have hb := hone b
      have hc := hone c
      have hd := hone d
      have he := hone e
      simp only [List.mem_cons, List.not_mem_nil, or_false] at hx
      rcases hx with rfl | rfl | rfl | rfl | rfl <;> omega
    obtain ⟨y, hy⟩ := List.length_eq_one_iff.1 hx1
    rw [hy, ← of_splitOn_singleton hy]
  rw [← h, hsingle a (by simp), hsingle b (by simp), hsingle c (by simp), hsingle d (by simp), hsingle e (by simp)]
  rfl

variable {K : Keys} {email workspaceId drawn token hash : String} {now x : ℤ} {deliveryId : Option String}
  {expiresAt : Option ℤ}

/-- the text of a token -/
def tokenText (K : Keys) (nonce email workspaceId : String) (x : ℤ) : String :=
  let unsigned := joined ["ml1", nonce, toString (timestamp x), binding K email workspaceId]
  unsigned ++ "." ++ K.b64url (K.sign unsigned)

/-- the nonce of a token -/
def nonceOf (K : Keys) (drawn : String) (deliveryId : Option String) : String :=
  if deliveryId.getD "" ≠ "" then K.b64url ((K.sign ("delivery\x00" ++ deliveryId.getD "")).take 32) else drawn

theorem newToken_eq : newToken K email workspaceId now drawn deliveryId expiresAt =
    let expiresAt := expiresAt.getD (now + linkTtl)
    if expiresAt ≤ now ∨ expiresAt > now + linkTtl then none
    else
      let token := tokenText K (nonceOf K drawn deliveryId) email workspaceId expiresAt
      some (token, K.sha256 token, expiresAt) := rfl

theorem newToken_some (h : newToken K email workspaceId now drawn deliveryId expiresAt = some (token, hash, x)) :
    token = tokenText K (nonceOf K drawn deliveryId) email workspaceId x ∧ hash = K.sha256 token := by
  rw [newToken_eq] at h
  simp only at h
  split_ifs at h
  cases h
  exact ⟨rfl, rfl⟩

theorem digitsValue_toString {z : ℤ} (h : (toString z).toList.all Char.isDigit = true) :
    (digitsValue (toString z) : ℤ) = z := by
  cases z with
  | ofNat n =>
    change (digitsValue n.repr : ℤ) = n
    unfold digitsValue
    rw [Nat.toList_repr]
    exact_mod_cast Nat.ofDigitChars_ten_toDigits
  | negSucc n =>
    -- a sign is no digit
    change ("-" ++ (n + 1).repr).toList.all Char.isDigit = true at h
    simp at h

/-- the parts of a token are those it was made of -/
theorem parts_tokenText {nonce : String} {p : Parts} (hp : parts (tokenText K nonce email workspaceId x) = some p) :
    (digitsValue p.expires : ℤ) = timestamp x ∧ p.binding = binding K email workspaceId := by
  unfold parts at hp
  split at hp
  · rename_i version n e b s hsplit
    unfold tokenText joined at hsplit
    simp only [String.toList_append, String.toList_intercalate, List.map_cons, List.map_nil] at hsplit
    have hfive := @splitOn_five "ml1".toList nonce.toList (toString (timestamp x)).toList
      (binding K email workspaceId).toList _ _ rfl (by simpa using hsplit)
    split_ifs at hp with hform
    cases hp
    obtain ⟨-, -, rfl, rfl, -⟩ : _ ∧ _ ∧ _ ∧ _ ∧ _ := by simpa using hfive
    exact ⟨by simpa using digitsValue_toString hform.2.2.2.2.1, by simp⟩
  · cases hp

/-- one delivery id, address, workspace and expiry make one token -/
theorem newToken_same {now' x' : ℤ} {drawn' token' hash' : String} {id : String} {expiresAt' : Option ℤ} (hid : id ≠ "")
    (h : newToken K email workspaceId now drawn (some id) expiresAt = some (token, hash, x))
    (h' : newToken K email workspaceId now' drawn' (some id) expiresAt' = some (token', hash', x')) (hx : x = x') :
    token = token' := by
  rw [(newToken_some h).1, (newToken_some h').1, hx]
  simp [nonceOf, hid]

/-- a token that passes the first check has not ended -/
theorem validated_before {t : ℤ} (h : newToken K email workspaceId now drawn deliveryId expiresAt = some (token, hash, x))
    (hvalid : (validatedTokenHash K token t).isSome = true) : t < x := by
  obtain ⟨rfl, -⟩ := newToken_some h
  unfold validatedTokenHash at hvalid
  split at hvalid
  · cases hvalid
  · rename_i p hparts
    rw [(parts_tokenText hparts).1] at hvalid
    simp only at hvalid
    split_ifs at hvalid with _ hended
    · cases hvalid
    · cases hvalid
    · by_contra hle
      exact hended (Int.tdiv_le_tdiv (by norm_num) (not_lt.1 hle))

end Tokens

/-! ## Either store of links -/

inductive LinkStore where
  | memory (m : MagicLinks.Memory)
  | firestore (f : MagicLinks.Firestore)

def LinkStore.links : LinkStore → Links
  | .memory m => m.links
  | .firestore f => f.links

/-- a call of the store -/
def LinkStore.call (K : Keys) (i : Draws) (q : Call) : LinkStore → Reply × LinkStore
  | .memory m =>
    let (reply, m') :=
      match q with
      | .reserveRequest email => m.reserveRequest K (i.clock 0) email
      | .issue identity workspaceId deliveryId expiresAt =>
        m.issue K (i.clock 0) i.drawn identity workspaceId deliveryId expiresAt
      | .activate token => m.activate K (i.clock 0) token
      | .consume token workspaceId => m.consume K i.clock token workspaceId
      | .invalidate token => m.invalidate K (i.clock 0) token
    (reply, .memory m')
  | .firestore f =>
    let (reply, f') :=
      match q with
      | .reserveRequest email => f.reserveRequest K i.commit (i.clock 0) email
      | .issue identity workspaceId deliveryId expiresAt =>
        f.issue K i.commit (i.clock 0) i.drawn identity workspaceId deliveryId expiresAt
      | .activate token => f.activate K i.commit (i.clock 0) token
      | .consume token workspaceId => f.consume K i.commit (i.clock 0) token workspaceId
      | .invalidate token => f.invalidate K i.commit (i.clock 0) token
    (reply, .firestore f')

/-- what a call may do to the links -/
inductive Changed (K : Keys) (i : Draws) (l : Links) : Call → Links → Prop where
  | unchanged {q : Call} : Changed K i l q l
  | issued {identity : UserIdentity} {workspaceId token hash : String} {deliveryId : Option String} {expiresAt : Option ℤ}
      {x : ℤ} (made : newToken K identity.email workspaceId (i.clock 0) i.drawn deliveryId expiresAt = some (token, hash, x))
      (new : Dict.get? l hash = none) :
      Changed K i l (.issue identity workspaceId deliveryId expiresAt) (store l hash (newRecord identity workspaceId x))
  | activated {token : String} {r : LinkRecord} (found : Dict.get? l (K.sha256 token) = some r) :
      Changed K i l (.activate token)
        (store l (K.sha256 token) { r with activeAt := some (i.clock 0), disabledAt := none })
  | disabled {token : String} {r : LinkRecord} (found : Dict.get? l (K.sha256 token) = some r) :
      Changed K i l (.invalidate token)
        (store l (K.sha256 token) { r with activeAt := none, disabledAt := some (i.clock 0) })
  | consumed {token workspaceId : String} {r : LinkRecord} {t : ℤ} (found : Dict.get? l (K.sha256 token) = some r) :
      Changed K i l (.consume token workspaceId) (store l (K.sha256 token) { r with consumedAt := some t })

section Calls

variable {K : Keys} {i : Draws} {s : LinkStore} {q : Call} {token workspaceId : String}

theorem guarded_changed {f : MagicLinks.Firestore} {c : Commit} {x : Reply × MagicLinks.Firestore} (h : Changed K i f.links q x.2.links) :
    Changed K i f.links q (MagicLinks.Firestore.guarded c f x).2.links := by
  cases c with
  | done => exact h
  | raised applied call =>
    cases applied with
    | true => exact h
    | false => exact .unchanged

theorem validated_hash {t : ℤ} {hash : String} (h : validatedTokenHash K token t = some hash) : hash = K.sha256 token := by
  unfold validatedTokenHash at h
  split at h
  · cases h
  · simp only at h
    split_ifs at h
    exact (Option.some.inj h).symm

/-- what a call does to the links of either store -/
theorem call_changed (K : Keys) (i : Draws) (q : Call) (s : LinkStore) : Changed K i s.links q (s.call K i q).2.links := by
  cases s with
  | memory m =>
    cases q with
    | reserveRequest email => exact .unchanged
    | issue identity workspaceId deliveryId expiresAt =>
      simp only [LinkStore.call, LinkStore.links, MagicLinks.Memory.issue]
      cases hmade : newToken K identity.email workspaceId (i.clock 0) i.drawn deliveryId expiresAt with
      | none => exact .unchanged
      | some t =>
        obtain ⟨token, hash, x⟩ := t
        cases hfound : Dict.get? m.links hash with
        | none => simpa only [hfound] using .issued hmade hfound
        | some r => simpa only [hfound] using .unchanged
    | activate token =>
      simp only [LinkStore.call, LinkStore.links, MagicLinks.Memory.activate]
      cases hfound : Dict.get? m.links (K.sha256 token) with
      | none => exact .unchanged
      | some r =>
        simp only
        split_ifs
        · exact .unchanged
        · exact .activated hfound
    | consume token workspaceId =>
      simp only [LinkStore.call, LinkStore.links, MagicLinks.Memory.consume]
      cases hvalid : validatedTokenHash K token (i.clock 0) with
      | none => exact .unchanged
      | some hash =>
        obtain rfl := validated_hash hvalid
        cases hfound : Dict.get? m.links (K.sha256 token) with
        | none => simpa only [hfound] using .unchanged
        | some r =>
          simp only [hfound]
          split_ifs
          · exact .unchanged
          · exact .unchanged
          · exact .consumed hfound
    | invalidate token =>
      simp only [LinkStore.call, LinkStore.links, MagicLinks.Memory.invalidate]
      cases hfound : Dict.get? m.links (K.sha256 token) with
      | none => exact .unchanged
      | some r =>
        simp only
        split_ifs
        · exact .unchanged
        · exact .disabled hfound
  | firestore f =>
    cases q with
    | reserveRequest email => exact guarded_changed .unchanged
    | issue identity workspaceId deliveryId expiresAt =>
      simp only [LinkStore.call, LinkStore.links, MagicLinks.Firestore.issue]
      cases hmade : newToken K identity.email workspaceId (i.clock 0) i.drawn deliveryId expiresAt with
      | none => exact .unchanged
      | some t =>
        obtain ⟨token, hash, x⟩ := t
        refine guarded_changed ?_
        cases hfound : Dict.get? f.links hash with
        | none => exact .issued hmade hfound
        | some r => exact .unchanged
    | activate token =>
      refine guarded_changed ?_
      unfold MagicLinks.Firestore.update
      cases hfound : Dict.get? f.links (K.sha256 token) with
      | none => exact .unchanged
      | some r => exact .activated hfound
    | consume token workspaceId =>
      simp only [LinkStore.call, LinkStore.links, MagicLinks.Firestore.consume]
      cases hvalid : validatedTokenHash K token (i.clock 0) with
      | none => exact .unchanged
      | some hash =>
        obtain rfl := validated_hash hvalid
        refine guarded_changed ?_
        cases hfound : Dict.get? f.links (K.sha256 token) with
        | none => exact .unchanged
        | some r =>
          simp only
          split_ifs
          · exact .unchanged
          · cases identityOf r with
            | none => exact .unchanged
            | some identity => exact .consumed hfound
    | invalidate token =>
      have hupdate : Changed K i f.links (.invalidate token)
          (MagicLinks.Firestore.update (K.sha256 token)
            (fun record => { record with activeAt := none, disabledAt := some (i.clock 0) }) f).2.links := by
        unfold MagicLinks.Firestore.update
        cases hfound : Dict.get? f.links (K.sha256 token) with
        | none => exact .unchanged
        | some r => exact .disabled hfound
      simp only [LinkStore.call, LinkStore.links, MagicLinks.Firestore.invalidate]
      split <;> exact guarded_changed hupdate

/-- a record that lets a sign-in through -/
structure Lets (K : Keys) (i : Draws) (l l' : Links) (token workspaceId : String) (identity : UserIdentity)
    (r : LinkRecord) : Prop where
  found : Dict.get? l (K.sha256 token) = some r
  valid : (validatedTokenHash K token (i.clock 0)).isSome = true
  workspace : r.workspaceId = workspaceId
  active : r.activeAt.isSome = true
  enabled : r.disabledAt = none
  fresh : r.consumedAt = none
  bound : bindingMatches K token r.identity.email workspaceId = true
  named : identityOf r = some identity
  spent : ∃ t, l' = store l (K.sha256 token) { r with consumedAt := some t }

/-- a sign-in that gets through -/
theorem call_lets {identity : UserIdentity}
    (h : (s.call K i (.consume token workspaceId)).1 = .identity (some identity)) :
    ∃ r, Lets K i s.links (s.call K i (.consume token workspaceId)).2.links token workspaceId identity r := by
  cases s with
  | memory m =>
    simp only [LinkStore.call, LinkStore.links, MagicLinks.Memory.consume] at h ⊢
    cases hvalid : validatedTokenHash K token (i.clock 0) with
    | none => rw [hvalid] at h; cases h
    | some hash =>
      obtain rfl := validated_hash hvalid
      rw [hvalid] at h
      simp only at h ⊢
      cases hfound : Dict.get? m.links (K.sha256 token) with
      | none => rw [hfound] at h; cases h
      | some r =>
        rw [hfound] at h
        simp only at h ⊢
        split_ifs at h ⊢ with husable hbound
        · cases h
        · cases h
        · simp only [Bool.not_eq_true, Bool.not_eq_false', decide_eq_true_eq] at husable hbound
          exact ⟨r, hfound, by rw [hvalid]; rfl, husable.1, husable.2.1, husable.2.2.1, husable.2.2.2.1, hbound,
            Reply.identity.inj h, _, rfl⟩
  | firestore f =>
    simp only [LinkStore.call, LinkStore.links, MagicLinks.Firestore.consume] at h ⊢
    cases hvalid : validatedTokenHash K token (i.clock 0) with
    | none => rw [hvalid] at h; cases h
    | some hash =>
      obtain rfl := validated_hash hvalid
      rw [hvalid] at h
      cases hcommit : i.commit with
      | raised applied call => simp [hcommit, MagicLinks.Firestore.guarded] at h
      | done =>
        simp only [hcommit, MagicLinks.Firestore.guarded] at h ⊢
        cases hfound : Dict.get? f.links (K.sha256 token) with
        | none => rw [hfound] at h; cases h
        | some r =>
          rw [hfound] at h
          simp only at h ⊢
          split_ifs at h ⊢ with husable
          · cases h
          · simp only [Bool.or_eq_true, Bool.not_eq_true', not_or, Bool.not_eq_false, decide_eq_true_eq] at husable
            obtain ⟨husable, hbound⟩ := husable
            cases hnamed : identityOf r with
            | none => rw [hnamed] at h; cases h
            | some identity =>
              rw [hnamed] at h
              cases h
              exact ⟨r, hfound, by rw [hvalid]; rfl, husable.1, husable.2.1, husable.2.2.1, husable.2.2.2.1, hbound, hnamed,
                _, rfl⟩

/-- a link that a call has disabled is out of use -/
theorem call_disables (h : (s.call K i (.invalidate token)).1 = .done) {r : LinkRecord}
    (hr : Dict.get? (s.call K i (.invalidate token)).2.links (K.sha256 token) = some r) :
    r.consumedAt.isSome = true ∨ r.activeAt = none := by
  cases s with
  | memory m =>
    simp only [LinkStore.call, LinkStore.links, MagicLinks.Memory.invalidate] at hr
    cases hfound : Dict.get? m.links (K.sha256 token) with
    | none => rw [hfound] at hr; simp [hfound] at hr
    | some r₀ =>
      rw [hfound] at hr
      simp only at hr
      split_ifs at hr with hspent
      · rw [hfound] at hr
        cases hr
        exact .inl hspent
      · rw [get?_store, if_pos rfl] at hr
        cases hr
        exact .inr rfl
  | firestore f =>
    simp only [LinkStore.call, LinkStore.links, MagicLinks.Firestore.invalidate, MagicLinks.Firestore.update] at h hr
    cases hcommit : i.commit with
    | raised applied call => cases call <;> simp [hcommit, MagicLinks.Firestore.guarded] at h
    | done =>
      simp only [hcommit, MagicLinks.Firestore.guarded] at h hr
      cases hfound : Dict.get? f.links (K.sha256 token) with
      | none => rw [hfound] at h; cases h
      | some r₀ =>
        rw [hfound] at hr
        simp only [get?_store, if_true] at hr
        cases hr
        exact .inr rfl

end Calls

/-! ## Deliveries and sign-ins under way -/

/-- `deliver_magic_link` after its first call, with the token it is about -/
inductive Flight where
  | sending (token : String)
  | activating (token : String)
  | failing (token : String)

/-- `consume_magic_link` between its two calls -/
structure Pending where
  token : String
  identity : UserIdentity

structure Sys where
  links : LinkStore
  auth : Auth
  flights : List Flight
  pending : List Pending

inductive Act where
  /-- any call of the store of links -/
  | call (i : Draws) (q : Call)
  /-- a message arrives, for the first time or again: `issue` -/
  | deliver (i : Draws) (identity : UserIdentity) (workspaceId deliveryId : String) (expiresAt : ℤ)
  /-- the mail of a delivery is sent, or it is refused -/
  | send (k : ℕ) (sent : Bool)
  | activate (k : ℕ) (i : Draws)
  | invalidate (k : ℕ) (i : Draws)
  /-- a token is presented; the address may have lost its approval -/
  | consume (i : Draws) (token workspaceId : String) (approved : Bool)
  /-- `issue_code` for a sign-in under way, and for one that came another way -/
  | code (k : ℕ) (i : Draws)
  | login (i : Draws) (identity : UserIdentity)
  | exchange (i : Draws) (code : String)
  /-- a delivery or a sign-in ends where it stands -/
  | lost (k : ℕ)
  | abandoned (k : ℕ)

def Sys.step (K : Keys) (b : Backend) (s : Sys) : Act → Sys
  | .call i q => { s with links := (s.links.call K i q).2 }
  | .deliver i identity workspaceId deliveryId expiresAt =>
    let (reply, links) := s.links.call K i (.issue identity workspaceId (some deliveryId) (some expiresAt))
    match reply with
    | .token token => { s with links := links, flights := s.flights ++ [.sending token] }
    | _ => { s with links := links }
  | .send k sent =>
    match s.flights[k]? with
    | some (.sending token) =>
      { s with flights := s.flights.set k (if sent then .activating token else .failing token) }
    | _ => s
  | .activate k i =>
    match s.flights[k]? with
    | some (.activating token) =>
      let (reply, links) := s.links.call K i (.activate token)
      -- a delivery that cannot activate its link disables it
      if reply = .done then { s with links := links, flights := s.flights.eraseIdx k }
      else { s with links := links, flights := s.flights.set k (.failing token) }
    | _ => s
  | .invalidate k i =>
    match s.flights[k]? with
    | some (.failing token) =>
      { s with links := (s.links.call K i (.invalidate token)).2, flights := s.flights.eraseIdx k }
    | _ => s
  | .consume i token workspaceId approved =>
    let (reply, links) := s.links.call K i (.consume token workspaceId)
    match reply with
    | .identity (some identity) =>
      if approved then { s with links := links, pending := s.pending ++ [⟨token, identity⟩] } else { s with links := links }
    | _ => { s with links := links }
  | .code k i =>
    match s.pending[k]? with
    | some p => { s with auth := (issueCode K b i p.identity s.auth).2, pending := s.pending.eraseIdx k }
    | none => s
  | .login i identity => { s with auth := (issueCode K b i identity s.auth).2 }
  | .exchange i code => { s with auth := (exchangeCode K b i code s.auth).2 }
  | .lost k => { s with flights := s.flights.eraseIdx k }
  | .abandoned k => { s with pending := s.pending.eraseIdx k }

/-- the steps of the system, with either store of sessions -/
def Steps (K : Keys) (b : Backend) (s : Sys) (a : Act) (t : Sys) : Prop := t = s.step K b a

/-! ## What is seen of a step -/

/-- the call of the store of links that a step makes -/
def callOf (s : Sys) : Act → Option (Draws × Call)
  | .call i q => some (i, q)
  | .deliver i identity workspaceId deliveryId expiresAt =>
    some (i, .issue identity workspaceId (some deliveryId) (some expiresAt))
  | .activate k i =>
    match s.flights[k]? with
    | some (.activating token) => some (i, .activate token)
    | _ => none
  | .invalidate k i =>
    match s.flights[k]? with
    | some (.failing token) => some (i, .invalidate token)
    | _ => none
  | .consume i token workspaceId _ => some (i, .consume token workspaceId)
  | _ => none

/-- the code that a step issues, and for whom -/
def codeOf (s : Sys) : Act → Option (Draws × UserIdentity)
  | .code k i => (s.pending[k]?).map fun p => (i, p.identity)
  | .login i identity => some (i, identity)
  | _ => none

abbrev Moment := Entry Sys Act

structure Issue where
  token : String
  identity : UserIdentity
  workspaceId : String
  deliveryId : Option String
  expiresAt : ℤ

/-- a step that makes a token -/
def issueOf (K : Keys) (e : Moment) : Option Issue :=
  match callOf e.before e.act with
  | some (i, .issue identity workspaceId deliveryId expiresAt) =>
    (newToken K identity.email workspaceId (i.clock 0) i.drawn deliveryId expiresAt).map fun t =>
      ⟨t.1, identity, workspaceId, deliveryId, t.2.2⟩
  | _ => none

structure Passage where
  token : String
  workspaceId : String
  identity : UserIdentity
  now : ℤ

/-- a step in which a token yields an identity -/
def passageOf (K : Keys) (e : Moment) : Option Passage :=
  match callOf e.before e.act with
  | some (i, .consume token workspaceId) =>
    match (e.before.links.call K i (.consume token workspaceId)).1 with
    | .identity (some identity) => some ⟨token, workspaceId, identity, i.clock 0⟩
    | _ => none
  | _ => none

def lets (K : Keys) (token : String) (e : Moment) : Bool := (passageOf K e).any fun p => p.token = token

/-- a step that issues the code of a sign-in with this token -/
def codedFor (token : String) (e : Moment) : Bool :=
  match e.act with
  | .code k _ => (e.before.pending[k]?).any fun p => p.token = token
  | _ => false

/-- the hash of the code that a step draws -/
def drawnCode (K : Keys) (e : Moment) : Option String := (codeOf e.before e.act).bind fun c => tokenHash K c.1.drawn

/-- the hash of the code for which a step opens a session -/
def openedBy (K : Keys) (e : Moment) : Option String :=
  match e.act with
  | .exchange _ code => if e.after.auth.sessions ≠ e.before.auth.sessions then tokenHash K code else none
  | _ => none

/-- a session is opened for a code that was issued to a sign-in with this token -/
def opensFor (K : Keys) (tr : List Moment) (token : String) (e : Moment) : Bool :=
  (openedBy K e).isSome && tr.any fun e' => codedFor token e' && drawnCode K e' = openedBy K e

/-- a step that leaves the link of this token active -/
def Activates (K : Keys) (token : String) (e : Moment) : Prop :=
  ∃ i, callOf e.before e.act = some (i, .activate token) ∧
    ∃ r, Dict.get? e.after.links.links (K.sha256 token) = some r ∧ r.activeAt = some (i.clock 0) ∧ r.disabledAt = none

/-- a step in which the link of this token is disabled and the caller is told so -/
def Disables (K : Keys) (token : String) (e : Moment) : Prop :=
  ∃ i, callOf e.before e.act = some (i, .invalidate token) ∧ (e.before.links.call K i (.invalidate token)).1 = .done

/-- the tokens that a step makes, or is given -/
def tokensOf (K : Keys) (e : Moment) : List String :=
  match callOf e.before e.act with
  | some (_, .issue ..) => ((issueOf K e).map Issue.token).toList
  | some (_, .activate token) => [token]
  | some (_, .invalidate token) => [token]
  | some (_, .consume token _) => [token]
  | _ => []

/-- in this run no two codes, no two tokens and no two bindings have the same hash -/
structure NoCollision (K : Keys) (tr : List Moment) : Prop where
  codes : (tr.filterMap (drawnCode K)).Nodup
  tokens : ∀ t ∈ tr.flatMap (tokensOf K), ∀ u ∈ tr.flatMap (tokensOf K), K.sha256 t = K.sha256 u → t = u
  bindings : ∀ x ∈ tr.filterMap (issueOf K), ∀ y ∈ tr.filterMap (issueOf K),
    binding K x.identity.email x.workspaceId = binding K y.identity.email y.workspaceId →
      x.identity.email = y.identity.email ∧ x.workspaceId = y.workspaceId

section Steps

variable {K : Keys} {b : Backend} {s : Sys} {a : Act} {token : String}

/-- a step changes the links by the call it makes -/
theorem step_links (K : Keys) (b : Backend) (s : Sys) (a : Act) : (s.step K b a).links =
    match callOf s a with
    | some (i, q) => (s.links.call K i q).2
    | none => s.links := by
  cases a with
  | call i q => rfl
  | deliver i identity workspaceId deliveryId expiresAt =>
    simp only [Sys.step, callOf]
    split <;> rfl
  | send k sent =>
    simp only [Sys.step, callOf]
    split <;> rfl
  | activate k i =>
    simp only [Sys.step, callOf]
    split
    · split_ifs <;> rfl
    · rfl
  | invalidate k i =>
    simp only [Sys.step, callOf]
    split <;> rfl
  | consume i token workspaceId approved =>
    simp only [Sys.step, callOf]
    split
    · split_ifs <;> rfl
    · rfl
  | code k i =>
    simp only [Sys.step, callOf]
    split <;> rfl
  | login i identity => rfl
  | exchange i code => rfl
  | lost k => rfl
  | abandoned k => rfl

/-- what a step does to the links -/
theorem step_changed (K : Keys) (b : Backend) (s : Sys) (a : Act) : (s.step K b a).links.links = s.links.links ∧ callOf s a = none ∨
    ∃ i q, callOf s a = some (i, q) ∧ (s.step K b a).links = (s.links.call K i q).2 ∧
      Changed K i s.links.links q (s.step K b a).links.links := by
  have hlinks := step_links K b s a
  cases hcall : callOf s a with
  | none =>
    rw [hcall] at hlinks
    exact .inl ⟨congrArg LinkStore.links hlinks, rfl⟩
  | some c =>
    obtain ⟨i, q⟩ := c
    rw [hcall] at hlinks
    simp only at hlinks
    refine .inr ⟨i, q, rfl, hlinks, ?_⟩
    rw [hlinks]
    exact call_changed K i q s.links

/-- a step changes the codes and sessions by the code it issues or exchanges -/
theorem step_auth (K : Keys) (b : Backend) (s : Sys) (a : Act) : (s.step K b a).auth =
    match codeOf s a, a with
    | some (i, identity), _ => (issueCode K b i identity s.auth).2
    | none, .exchange i code => (exchangeCode K b i code s.auth).2
    | none, _ => s.auth := by
  cases a with
  | call i q => rfl
  | deliver i identity workspaceId deliveryId expiresAt =>
    simp only [Sys.step, codeOf]
    split <;> rfl
  | send k sent =>
    simp only [Sys.step, codeOf]
    split <;> rfl
  | activate k i =>
    simp only [Sys.step, codeOf]
    split
    · split_ifs <;> rfl
    · rfl
  | invalidate k i =>
    simp only [Sys.step, codeOf]
    split <;> rfl
  | consume i token workspaceId approved =>
    simp only [Sys.step, codeOf]
    split
    · split_ifs <;> rfl
    · rfl
  | code k i =>
    simp only [Sys.step, codeOf]
    cases s.pending[k]? <;> rfl
  | login i identity => rfl
  | exchange i code => rfl
  | lost k => rfl
  | abandoned k => rfl

end Steps

/-! ## One sign-in -/

section Once

variable {K : Keys} {b : Backend} {s t s₀ : Sys} {a : Act} {token : String} {e : Moment} {tr : List Moment}

/-- the link of a token is used up -/
def used (K : Keys) (token : String) (s : Sys) : Bool :=
  ((Dict.get? s.links.links (K.sha256 token)).bind LinkRecord.consumedAt).isSome

theorem used_iff : used K token s = true ↔
    ∃ r, Dict.get? s.links.links (K.sha256 token) = some r ∧ r.consumedAt.isSome = true := by
  unfold used
  cases Dict.get? s.links.links (K.sha256 token) with
  | none => simp
  | some r => simp

/-- a used link stays used, whatever is called -/
theorem used_step (h : used K token s = true) (b : Backend) (a : Act) : used K token (s.step K b a) = true := by
  obtain ⟨r, hr, hspent⟩ := used_iff.1 h
  rw [used_iff]
  rcases step_changed K b s a with ⟨hsame, -⟩ | ⟨i, q, -, -, hchanged⟩
  · exact ⟨r, by rw [hsame, hr], hspent⟩
  · generalize (s.step K b a).links.links = l at hchanged ⊢
    cases hchanged with
    | unchanged => exact ⟨r, hr, hspent⟩
    | issued hmade hnew =>
      refine ⟨r, ?_, hspent⟩
      rw [get?_store, if_neg, hr]
      rintro rfl
      rw [hr] at hnew
      cases hnew
    | activated hfound | disabled hfound =>
      rw [get?_store]
      split_ifs with hk
      · rw [hk, hr] at hfound
        cases hfound
        exact ⟨_, rfl, hspent⟩
      · exact ⟨r, hr, hspent⟩
    | consumed hfound =>
      rw [get?_store]
      split_ifs with hk
      · exact ⟨_, rfl, rfl⟩
      · exact ⟨r, hr, hspent⟩

/-- a token that yields an identity passes all the checks -/
theorem passage_lets {p : Passage} (hstep : e.after = e.before.step K b e.act) (h : passageOf K e = some p) :
    ∃ i r, callOf e.before e.act = some (i, .consume p.token p.workspaceId) ∧ p.now = i.clock 0 ∧
      Lets K i e.before.links.links e.after.links.links p.token p.workspaceId p.identity r := by
  unfold passageOf at h
  split at h
  · rename_i i token workspaceId hcall
    split at h
    · rename_i identity hreply
      cases h
      obtain ⟨r, hr⟩ := call_lets hreply
      have hlinks := step_links K b e.before e.act
      rw [hcall] at hlinks
      refine ⟨i, r, hcall, rfl, ?_⟩
      rw [hstep, hlinks]
      exact hr
    · cases h
  · cases h

theorem lets_iff : lets K token e = true ↔ ∃ p, passageOf K e = some p ∧ p.token = token := by
  unfold lets
  cases passageOf K e with
  | none => simp
  | some p => simp

theorem lets_uses (hstep : e.after = e.before.step K b e.act) (h : lets K token e = true) :
    used K token e.before = false ∧ used K token e.after = true := by
  obtain ⟨p, hp, rfl⟩ := lets_iff.1 h
  obtain ⟨i, r, -, -, hlets⟩ := passage_lets hstep hp
  constructor
  · unfold used
    rw [hlets.found]
    simp [hlets.fresh]
  · obtain ⟨t, ht⟩ := hlets.spent
    rw [used_iff, ht, get?_store, if_pos rfl]
    exact ⟨_, rfl, rfl⟩

/-- a token yields an identity at most once -/
theorem lets_once (run : Trace (Steps K b) s₀ tr s) : tr.countP (lets K token) ≤ if used K token s then 1 else 0 := by
  induction run with
  | nil => simp
  | @snoc tr s t a _ hnext ih =>
    rw [List.countP_append, List.countP_singleton]
    cases hlets : lets K token ⟨s, a, t⟩ with
    | true =>
      obtain ⟨hbefore, hafter⟩ := lets_uses (e := ⟨s, a, t⟩) hnext hlets
      simp only at hbefore hafter
      rw [hbefore] at ih
      rw [hafter]
      simpa using ih
    | false =>
      cases hused : used K token s with
      | true =>
        have hafter : used K token t = true := hnext ▸ used_step hused b a
        rw [hused] at ih
        simpa [hafter] using ih
      | false =>
        rw [hused] at ih
        have hzero : tr.countP (lets K token) = 0 := by simpa using ih
        simp [hzero]

/-! ## One code -/

/-- sign-ins under way with a token -/
def underWay (token : String) (s : Sys) : ℕ := s.pending.countP fun p => p.token = token

theorem countP_eraseIdx {α : Type} (p : α → Bool) (l : List α) (k : ℕ) :
    (l.eraseIdx k).countP p + (if (l[k]?).any p then 1 else 0) = l.countP p := by
  induction l generalizing k with
  | nil => simp
  | cons x l ih =>
    cases k with
    | zero => simp [List.countP_cons]
    | succ k =>
      simp only [List.eraseIdx_cons_succ, List.countP_cons, List.getElem?_cons_succ]
      have := ih k
      omega

/-- a sign-in gets under way as its token yields an identity, and ends as its code is issued -/
theorem underWay_step (hstep : e.after = e.before.step K b e.act) :
    underWay token e.after + (if codedFor token e then 1 else 0) ≤
      underWay token e.before + if lets K token e then 1 else 0 := by
  obtain ⟨s, a, t⟩ := e
  simp only at hstep ⊢
  have hunder : underWay token t = underWay token (s.step K b a) := by rw [hstep]
  have hsteady : (s.step K b a).pending = s.pending → codedFor token ⟨s, a, t⟩ = false →
      underWay token t + (if codedFor token ⟨s, a, t⟩ then 1 else 0) ≤
        underWay token s + if lets K token ⟨s, a, t⟩ then 1 else 0 := by
    intro hpending hcoded
    rw [hunder, hcoded]
    simp [underWay, hpending]
  cases a with
  | call i q => exact hsteady rfl rfl
  | deliver i identity workspaceId deliveryId expiresAt =>
    refine hsteady ?_ rfl
    simp only [Sys.step]
    split <;> rfl
  | send k sent =>
    refine hsteady ?_ rfl
    simp only [Sys.step]
    split <;> rfl
  | activate k i =>
    refine hsteady ?_ rfl
    simp only [Sys.step]
    split
    · split_ifs <;> rfl
    · rfl
  | invalidate k i =>
    refine hsteady ?_ rfl
    simp only [Sys.step]
    split <;> rfl
  | consume i presented workspaceId approved =>
    have hpassage : passageOf K ⟨s, .consume i presented workspaceId approved, t⟩ =
        match (s.links.call K i (.consume presented workspaceId)).1 with
        | .identity (some identity) => some ⟨presented, workspaceId, identity, i.clock 0⟩
        | _ => none := rfl
    rw [hunder]
    simp only [lets, hpassage, codedFor, underWay, Sys.step]
    cases hreply : (s.links.call K i (.consume presented workspaceId)).1 with
    | identity o =>
      cases o with
      | none => simp
      | some identity => cases approved <;> simp [List.countP_append, List.countP_singleton]
    | _ => simp
  | code k i =>
    rw [hunder]
    have hlets : lets K token ⟨s, .code k i, t⟩ = false := rfl
    have herase := countP_eraseIdx (fun p : Pending => decide (p.token = token)) s.pending k
    rw [hlets]
    rcases Option.eq_none_or_eq_some s.pending[k]? with hk | ⟨p, hk⟩
    · simp [codedFor, underWay, Sys.step, hk]
    · rw [hk, Option.any_some] at herase
      simp only [codedFor, underWay, Sys.step, hk, Option.any_some, Bool.false_eq_true, if_false]
      omega
  | login i identity => exact hsteady rfl rfl
  | exchange i code => exact hsteady rfl rfl
  | lost k => exact hsteady rfl rfl
  | abandoned k =>
    rw [hunder]
    have herase := countP_eraseIdx (fun p : Pending => decide (p.token = token)) s.pending k
    simp only [codedFor, underWay, Sys.step, Bool.false_eq_true, if_false]
    omega

/-- as many codes as sign-ins, at most -/
theorem codes_le (hempty : s₀.pending = []) (run : Trace (Steps K b) s₀ tr s) :
    tr.countP (codedFor token) + underWay token s ≤ tr.countP (lets K token) := by
  induction run with
  | nil => simp [underWay, hempty]
  | @snoc tr s t a _ hnext ih =>
    have hstep := @underWay_step _ _ token ⟨s, a, t⟩ hnext
    simp only at hstep
    rw [List.countP_append, List.countP_append, List.countP_singleton, List.countP_singleton]
    omega

/-! ## One session -/

/-- there is a code with this hash -/
def standing (hash : String) (s : Sys) : ℕ := if (Dict.get? s.auth.codes hash).isSome then 1 else 0

/-- a code starts to stand as it is drawn, and ends as a session is opened for it -/
theorem standing_step {hash : String} (hstep : e.after = e.before.step K b e.act) :
    standing hash e.after + (if openedBy K e = some hash then 1 else 0) ≤
      standing hash e.before + if drawnCode K e = some hash then 1 else 0 := by
  obtain ⟨s, a, t⟩ := e
  simp only at hstep
  have hauth := hstep ▸ step_auth K b s a
  cases hcode : codeOf s a with
  | some c =>
    obtain ⟨i, identity⟩ := c
    have hopened : openedBy K ⟨s, a, t⟩ = none := by
      cases a with
      | exchange i code => cases hcode
      | _ => rfl
    simp only [hcode] at hauth
    simp only [hopened, drawnCode, hcode, Option.bind_some, standing, reduceCtorEq, if_false, add_zero]
    rcases @issueCode_state K b i identity s.auth with h | ⟨drawn, expiry, hdrawn, h⟩
    · rw [hauth, h]
      exact Nat.le_add_right _ _
    · rw [hauth, h, hdrawn]
      simp only [withCode, Dict.get?_upsert, Option.some.injEq]
      by_cases hk : drawn = hash
      · simp [hk]
      · simp [hk]
  | none =>
    have hdrawn : drawnCode K ⟨s, a, t⟩ = none := by simp [drawnCode, hcode]
    rw [hdrawn]
    simp only [hcode] at hauth
    cases a with
    | exchange i code =>
      simp only at hauth
      have hopened : openedBy K ⟨s, .exchange i code, t⟩ =
          if t.auth.sessions ≠ s.auth.sessions then tokenHash K code else none := rfl
      simp only [hopened, standing, reduceCtorEq, if_false, add_zero]
      rcases @exchangeCode_state K b i code s.auth with h | ⟨found, hfound, h | ⟨record, sessionHash, session, hget, h⟩⟩
      · simp [hauth, h]
      · simp only [hauth, h, withoutCode, Dict.get?_erase]
        by_cases hk : found = hash <;> simp [hk]
      · simp only [hauth, h, hfound, withSession, withoutCode, Dict.get?_erase]
        by_cases hk : found = hash
        · subst hk
          simp only [if_true, hget, Option.isSome_none, Option.isSome_some, Bool.false_eq_true, if_false, zero_add]
          split_ifs <;> simp
        · simp [hk]
    | _ =>
      simp only at hauth
      simp [openedBy, standing, hauth]

/-- as many sessions for a code as it was drawn, at most -/
theorem opens_le {hash : String} (hempty : s₀.auth.codes = []) (run : Trace (Steps K b) s₀ tr s) :
    tr.countP (fun e => openedBy K e = some hash) + standing hash s ≤ tr.countP fun e => drawnCode K e = some hash := by
  induction run with
  | nil => simp [standing, hempty]
  | @snoc tr s t a _ hnext ih =>
    have hstep := @standing_step _ _ ⟨s, a, t⟩ hash hnext
    simp only at hstep
    rw [List.countP_append, List.countP_append, List.countP_singleton, List.countP_singleton]
    simp only [decide_eq_true_eq]
    omega

/-! ## For whom, and while it is active -/

/-- a record is of a link that was issued -/
theorem records_issued (hempty : s₀.links.links = []) (run : Trace (Steps K b) s₀ tr s) {hash : String} {r : LinkRecord}
    (hr : Dict.get? s.links.links hash = some r) :
    ∃ e ∈ tr, ∃ x, issueOf K e = some x ∧ K.sha256 x.token = hash ∧ x.identity = r.identity ∧
      x.workspaceId = r.workspaceId := by
  induction run generalizing r with
  | nil => rw [hempty] at hr; cases hr
  | @snoc tr s t a _ hnext ih =>
    have hlater : ∀ {r₀ : LinkRecord}, Dict.get? s.links.links hash = some r₀ → r₀.identity = r.identity →
        r₀.workspaceId = r.workspaceId → ∃ e ∈ tr ++ [⟨s, a, t⟩], ∃ x, issueOf K e = some x ∧ K.sha256 x.token = hash ∧
          x.identity = r.identity ∧ x.workspaceId = r.workspaceId := by
      intro r₀ hr₀ hidentity hworkspace
      obtain ⟨e, he, x, hx, hhash, hxi, hxw⟩ := ih hr₀
      exact ⟨e, List.mem_append_left _ he, x, hx, hhash, hxi.trans hidentity, hxw.trans hworkspace⟩
    rcases step_changed K b s a with ⟨hsame, -⟩ | ⟨i, q, hcall, -, hchanged⟩
    · rw [hnext, hsame] at hr
      exact hlater hr rfl rfl
    · rw [← hnext] at hchanged
      generalize t.links.links = l at hchanged hr
      cases hchanged with
      | unchanged => exact hlater hr rfl rfl
      | @issued identity workspaceId token made deliveryId expiresAt x hmade hnew =>
        rw [get?_store] at hr
        split_ifs at hr with hk
        · cases hr
          refine ⟨_, List.mem_append_right _ (List.mem_singleton.2 rfl), ⟨token, identity, workspaceId, deliveryId, x⟩, ?_,
            ?_, rfl, rfl⟩
          · simp [issueOf, hcall, hmade]
          · rw [← hk, (newToken_some hmade).2]
        · exact hlater hr rfl rfl
      | activated hfound | disabled hfound | consumed hfound =>
        rw [get?_store] at hr
        split_ifs at hr with hk
        · cases hr
          rw [hk] at hfound
          exact hlater hfound rfl rfl
        · exact hlater hr rfl rfl

/-- an open link was activated, and not disabled since -/
theorem active_since (hempty : s₀.links.links = []) (run : Trace (Steps K b) s₀ tr s)
    (hsame : ∀ u ∈ tr.flatMap (tokensOf K), K.sha256 u = K.sha256 token → u = token) {r : LinkRecord}
    (hr : Dict.get? s.links.links (K.sha256 token) = some r) (hfresh : r.consumedAt = none)
    (hactive : r.activeAt.isSome = true) (henabled : r.disabledAt = none) :
    ∃ before m after, tr = before ++ m :: after ∧ Activates K token m ∧ ∀ e ∈ after, ¬ Disables K token e := by
  induction run generalizing r with
  | nil => rw [hempty] at hr; cases hr
  | @snoc tr s t a _ hnext ih =>
    have hnext' : t = s.step K b a := hnext
    -- the record was open before, and this step did not disable it
    have hlater : Dict.get? s.links.links (K.sha256 token) = some r →
        ∃ before m after, tr ++ [⟨s, a, t⟩] = before ++ m :: after ∧ Activates K token m ∧
          ∀ e ∈ after, ¬ Disables K token e := by
      intro hbefore
      obtain ⟨before, m, after, rfl, hm, hafter⟩ :=
        ih (fun u hu => hsame u (by rw [List.flatMap_append]; exact List.mem_append_left _ hu)) hbefore hfresh hactive
          henabled
      refine ⟨before, m, after ++ [⟨s, a, t⟩], by simp, hm, ?_⟩
      intro e he
      rcases List.mem_append.1 he with he | he
      · exact hafter e he
      · rw [List.mem_singleton.1 he]
        rintro ⟨i, hcall, hdone⟩
        have hlinks := step_links K b s a
        simp only at hcall
        rw [hcall] at hlinks
        rw [hnext', hlinks] at hr
        rcases call_disables hdone hr with hspent | hoff
        · rw [hfresh] at hspent
          cases hspent
        · rw [hoff] at hactive
          cases hactive
    rcases step_changed K b s a with ⟨hlinks, -⟩ | ⟨i, q, hcall, -, hchanged⟩
    · exact hlater (by rw [← hlinks, ← hnext']; exact hr)
    · rw [← hnext'] at hchanged
      have hmine : ∀ u ∈ tokensOf K ⟨s, a, t⟩, K.sha256 u = K.sha256 token → u = token := by
        intro u hu
        refine hsame u ?_
        rw [List.flatMap_append]
        exact List.mem_append_right _ (by simpa using hu)
      generalize hl : t.links.links = l at hchanged hr
      cases hchanged with
      | unchanged => exact hlater hr
      | issued hmade hnew =>
        rw [get?_store] at hr
        split_ifs at hr with hk
        · cases hr
          cases hactive
        · exact hlater hr
      | @activated presented r₀ hfound =>
        rw [get?_store] at hr
        split_ifs at hr with hk
        · obtain rfl : presented = token := hmine presented (by simp [tokensOf, hcall]) hk
          cases hr
          refine ⟨tr, ⟨s, a, t⟩, [], rfl, ⟨i, hcall, ?_⟩, fun e he => by cases he⟩
          refine ⟨{ r₀ with activeAt := some (i.clock 0), disabledAt := none }, ?_, rfl, rfl⟩
          simp only [hl]
          rw [get?_store, if_pos rfl]
        · exact hlater hr
      | disabled hfound =>
        rw [get?_store] at hr
        split_ifs at hr with hk
        · cases hr
          cases hactive
        · exact hlater hr
      | consumed hfound =>
        rw [get?_store] at hr
        split_ifs at hr with hk
        · cases hr
          cases hfresh
        · exact hlater hr

/-- two tokens of one text are for the same address and workspace, as far as their bindings tell, and a binding that
matches is theirs -/
theorem issue_bound {x : Issue} {email workspaceId : String} (hx : issueOf K e = some x)
    (hbound : bindingMatches K x.token email workspaceId = true) :
    binding K x.identity.email x.workspaceId = binding K email workspaceId := by
  unfold issueOf at hx
  split at hx
  · obtain ⟨made, hmade, rfl⟩ := Option.map_eq_some_iff.1 hx
    obtain ⟨token, hash, expiry⟩ := made
    unfold bindingMatches at hbound
    simp only at hbound ⊢
    rw [(newToken_some hmade).1] at hbound
    split at hbound
    · cases hbound
    · rename_i p hparts
      rw [← (parts_tokenText hparts).2]
      simpa using hbound
  · cases hx

theorem issue_before {x : Issue} {t : ℤ} (hx : issueOf K e = some x)
    (hvalid : (validatedTokenHash K x.token t).isSome = true) : t < x.expiresAt := by
  unfold issueOf at hx
  split at hx
  · obtain ⟨made, hmade, rfl⟩ := Option.map_eq_some_iff.1 hx
    obtain ⟨token, hash, expiry⟩ := made
    exact validated_before hmade hvalid
  · cases hx

theorem issue_same {e' : Moment} {x y : Issue} {id : String} (hx : issueOf K e = some x) (hy : issueOf K e' = some y)
    (hid : id ≠ "") (hxid : x.deliveryId = some id) (hyid : y.deliveryId = some id)
    (hemail : x.identity.email = y.identity.email) (hworkspace : x.workspaceId = y.workspaceId)
    (hexpiry : x.expiresAt = y.expiresAt) : x.token = y.token := by
  unfold issueOf at hx hy
  split at hx
  · split at hy
    · obtain ⟨made, hmade, rfl⟩ := Option.map_eq_some_iff.1 hx
      obtain ⟨made', hmade', rfl⟩ := Option.map_eq_some_iff.1 hy
      obtain ⟨token, hash, expiry⟩ := made
      obtain ⟨token', hash', expiry'⟩ := made'
      simp only at hxid hyid hemail hworkspace hexpiry ⊢
      rw [hxid, hemail, hworkspace] at hmade
      rw [hyid] at hmade'
      exact newToken_same hid hmade hmade' hexpiry
    · cases hy
  · cases hx

theorem countP_le_one_eq {α : Type} {p : α → Bool} {l : List α} (h : l.countP p ≤ 1) {x y : α} (hx : x ∈ l) (hy : y ∈ l)
    (hpx : p x = true) (hpy : p y = true) : x = y := by
  rw [List.countP_eq_length_filter] at h
  have hxf : x ∈ l.filter p := List.mem_filter.2 ⟨hx, hpx⟩
  have hyf : y ∈ l.filter p := List.mem_filter.2 ⟨hy, hpy⟩
  match hl : l.filter p with
  | [] => rw [hl] at hxf; cases hxf
  | [z] =>
    rw [hl, List.mem_singleton] at hxf hyf
    rw [hxf, hyf]
  | _ :: _ :: _ => rw [hl] at h; simp at h

/-- at most one session for the code of one sign-in -/
theorem sessions_once (hempty : s₀.auth.codes = []) (run : Trace (Steps K b) s₀ tr s)
    (hcodes : (tr.filterMap (drawnCode K)).Nodup) (honce : tr.countP (codedFor token) ≤ 1) :
    tr.countP (opensFor K tr token) ≤ 1 := by
  by_cases hany : ∃ e ∈ tr, codedFor token e = true ∧ (drawnCode K e).isSome = true
  · obtain ⟨e, he, hcoded, hdrawn⟩ := hany
    obtain ⟨hash, hhash⟩ := Option.isSome_iff_exists.1 hdrawn
    have hle : tr.countP (opensFor K tr token) ≤ tr.countP fun e => openedBy K e = some hash := by
      refine List.countP_mono_left fun m hm hopens => ?_
      unfold opensFor at hopens
      simp only [Bool.and_eq_true, List.any_eq_true, decide_eq_true_eq] at hopens ⊢
      obtain ⟨-, e', he', hcoded', hdrawn'⟩ := hopens
      rw [← hdrawn', countP_le_one_eq honce he' he hcoded' hcoded, hhash]
    have hdraws : tr.countP (fun e => drawnCode K e = some hash) ≤ 1 := by
      have hcount := List.nodup_iff_count_le_one.1 hcodes hash
      rw [List.count_filterMap] at hcount
      refine le_of_eq_of_le (List.countP_congr fun e _ => ?_) hcount
      simp
    have hopens := @opens_le _ _ _ _ _ hash hempty run
    omega
  · have hzero : tr.countP (opensFor K tr token) = 0 := by
      rw [List.countP_eq_zero]
      intro m _ hopens
      unfold opensFor at hopens
      simp only [Bool.and_eq_true, List.any_eq_true, decide_eq_true_eq] at hopens
      obtain ⟨hsome, e', he', hcoded', hdrawn'⟩ := hopens
      exact hany ⟨e', he', hcoded', by rw [hdrawn']; exact hsome⟩
    omega

/-- **One link, one session.** From empty stores of either kind, in any order of calls, deliveries, sign-ins and
exchanges, a token yields an identity at most once, to at most one code and one session; and then it was issued, in the
workspace and for the address of every issue of it and before their expiry, activated with no disabling since, and is
used up for good. Deliveries of one message make one token. -/
theorem one_link_one_session (hlinks : s₀.links.links = []) (hauth : s₀.auth.codes = []) (hpending : s₀.pending = [])
    (run : Trace (Steps K b) s₀ tr s) (hdistinct : NoCollision K tr) :
    (∀ token, tr.countP (lets K token) ≤ 1 ∧ tr.countP (codedFor token) ≤ 1 ∧ tr.countP (opensFor K tr token) ≤ 1) ∧
    (∀ pre e post p, tr = pre ++ e :: post → passageOf K e = some p →
      (∃ e' ∈ pre, ∃ x, issueOf K e' = some x ∧ x.token = p.token) ∧
      (∀ e' ∈ pre, ∀ x, issueOf K e' = some x → x.token = p.token →
        p.identity.email = x.identity.email ∧ p.workspaceId = x.workspaceId ∧ p.now < x.expiresAt) ∧
      (∃ before m after, pre = before ++ m :: after ∧ Activates K p.token m ∧ ∀ e' ∈ after, ¬ Disables K p.token e') ∧
      used K p.token s = true) ∧
    ∀ e ∈ tr, ∀ e' ∈ tr, ∀ x y id, issueOf K e = some x → issueOf K e' = some y → id ≠ "" → x.deliveryId = some id →
      y.deliveryId = some id → x.identity.email = y.identity.email → x.workspaceId = y.workspaceId →
        x.expiresAt = y.expiresAt → x.token = y.token := by
  have hlets : ∀ token, tr.countP (lets K token) ≤ 1 := by
    intro token
    have h := @lets_once _ _ _ _ token _ run
    split_ifs at h <;> omega
  have hcoded : ∀ token, tr.countP (codedFor token) ≤ 1 := by
    intro token
    have h := @codes_le _ _ _ _ token _ hpending run
    have := hlets token
    omega
  refine ⟨fun token => ⟨hlets token, hcoded token, sessions_once hauth run hdistinct.codes (hcoded token)⟩, ?_, ?_⟩
  · rintro pre e post p rfl hp
    have hpre := run.before
    have hmem : e ∈ pre ++ e :: post := List.mem_append_right _ List.mem_cons_self
    obtain ⟨i, r, hcall, hnow, hlet⟩ := passage_lets (run.entry e hmem) hp
    have hpassed : p.token ∈ tokensOf K e := by simp [tokensOf, hcall]
    have htokens : ∀ {e' u}, e' ∈ pre ++ e :: post → u ∈ tokensOf K e' → u ∈ (pre ++ e :: post).flatMap (tokensOf K) :=
      fun he' hu => List.mem_flatMap.2 ⟨_, he', hu⟩
    have hissues : ∀ {e' x}, e' ∈ pre → issueOf K e' = some x → x ∈ (pre ++ e :: post).filterMap (issueOf K) :=
      fun he' hx => List.mem_filterMap.2 ⟨_, List.mem_append_left _ he', hx⟩
    obtain ⟨e₀, he₀, x₀, hx₀, hhash, hidentity, hworkspace⟩ := records_issued hlinks hpre hlet.found
    have hx₀token : x₀.token ∈ tokensOf K e₀ := by
      have hissue := hx₀
      unfold issueOf at hissue
      split at hissue
      · rename_i hcall₀
        simp [tokensOf, hcall₀, hx₀]
      · cases hissue
    refine ⟨⟨e₀, he₀, x₀, hx₀, ?_⟩, ?_, ?_, ?_⟩
    · exact hdistinct.tokens _ (htokens (List.mem_append_left _ he₀) hx₀token) _ (htokens hmem hpassed) hhash
    · intro e' he' x hx htoken
      have hbound := issue_bound hx (htoken ▸ hlet.bound)
      have hsame := hdistinct.bindings x (hissues he' hx) x₀ (hissues he₀ hx₀)
        (by rw [hbound, hidentity, hworkspace, hlet.workspace])
      have hemail : p.identity.email = r.identity.email := by
        have hnamed := hlet.named
        unfold identityOf at hnamed
        simp only at hnamed
        split_ifs at hnamed
        rw [← Option.some.inj hnamed]
      refine ⟨?_, ?_, ?_⟩
      · rw [hemail, ← hidentity, hsame.1]
      · rw [← hlet.workspace, ← hworkspace, hsame.2]
      · rw [hnow]
        exact issue_before hx (htoken ▸ hlet.valid)
    · refine active_since hlinks hpre ?_ hlet.found hlet.fresh hlet.active hlet.enabled
      intro u hu hsha
      obtain ⟨e', he', hu'⟩ := List.mem_flatMap.1 hu
      exact hdistinct.tokens u (htokens (List.mem_append_left _ he') hu') _ (htokens hmem hpassed) hsha
    · have hone := @lets_once _ _ _ _ p.token _ run
      have hpos : 0 < (pre ++ e :: post).countP (lets K p.token) :=
        List.countP_pos_iff.2 ⟨e, hmem, lets_iff.2 ⟨p, hp, rfl⟩⟩
      by_contra hunused
      rw [if_neg hunused] at hone
      omega
  · intro e _ e' _ x y id hx hy hid hxid hyid hemail hworkspace hexpiry
    exact issue_same hx hy hid hxid hyid hemail hworkspace hexpiry

end Once

/-! ### A sample run -/

def sampleDraws (t : ℤ) (drawn : String) : Draws := ⟨fun _ => sampleNow + t, drawn, .done⟩

def emptySys : Sys := ⟨.memory ⟨[], []⟩, ⟨[], []⟩, [], []⟩

/-- a delivery and its redelivery, and a sign-in between them -/
def sampleRun : List Act :=
  [.deliver (sampleDraws 0 "") owner "workspace" "AAAAAAAAAAAAAAAAAAAAAAAAAAAAAAAA" (sampleNow + 600 * 1000000),
    .send 0 true, .activate 0 (sampleDraws 1 ""), .consume (sampleDraws 2 "") sampleToken "workspace" true,
    .code 0 (sampleDraws 3 "cccccccccccccccccccccccccccccccc"),
    .deliver (sampleDraws 4 "") owner "workspace" "AAAAAAAAAAAAAAAAAAAAAAAAAAAAAAAA" (sampleNow + 600 * 1000000),
    .exchange (sampleDraws 5 "ssssssssssssssssssssssssssssssss") "cccccccccccccccccccccccccccccccc"]

def sampleTrace : List Moment := entries (Sys.step sampleKeys .memory) emptySys sampleRun

/-- the sample run draws one code -/
theorem sampleTrace_codes : (sampleTrace.filterMap (drawnCode sampleKeys)).Nodup := by
  simp only [sampleTrace, sampleRun, entries, List.filterMap_cons, List.filterMap_nil, drawnCode, codeOf, Option.bind_none]
  split <;> simp

/-- and makes links for one owner -/
theorem sampleTrace_issues {x : Issue} (h : x ∈ sampleTrace.filterMap (issueOf sampleKeys)) :
    x.identity = owner ∧ x.workspaceId = "workspace" := by
  obtain ⟨e, he, hx⟩ := List.mem_filterMap.1 h
  have hcall : ∀ i identity workspaceId deliveryId expiresAt,
      callOf e.before e.act = some (i, .issue identity workspaceId deliveryId expiresAt) →
        identity = owner ∧ workspaceId = "workspace" := by
    intro i identity workspaceId deliveryId expiresAt hcall
    simp only [sampleTrace, sampleRun, entries, List.mem_cons, List.not_mem_nil, or_false] at he
    rcases he with rfl | rfl | rfl | rfl | rfl | rfl | rfl <;> simp only [callOf] at hcall <;> grind
  unfold issueOf at hx
  split at hx
  · rename_i i identity workspaceId deliveryId expiresAt hissue
    obtain ⟨t, -, rfl⟩ := Option.map_eq_some_iff.1 hx
    exact hcall _ _ _ _ _ hissue
  · cases hx

theorem sampleRun_distinct : NoCollision sampleKeys sampleTrace where
  codes := sampleTrace_codes
  tokens t _ u _ h := by
    have hlist := congrArg String.toList h
    simp only [sampleKeys, String.toList_append] at hlist
    exact String.toList_injective (List.append_cancel_left hlist)
  bindings x hx y hy _ := by
    rw [(sampleTrace_issues hx).1, (sampleTrace_issues hy).1, (sampleTrace_issues hx).2, (sampleTrace_issues hy).2]
    exact ⟨rfl, rfl⟩

/-- in the sample run the token lets its one sign-in through, to one code and one session -/
theorem one_link_one_session_sample :
    sampleTrace.countP (lets sampleKeys sampleToken) = 1 ∧
      sampleTrace.countP (codedFor sampleToken) ≤ 1 ∧
      sampleTrace.countP (opensFor sampleKeys sampleTrace sampleToken) ≤ 1 := by
  obtain ⟨s, hrun⟩ := trace_entries (Steps sampleKeys .memory) (Sys.step sampleKeys .memory) emptySys sampleRun
    entries_after
  have h := (one_link_one_session rfl rfl rfl hrun sampleRun_distinct).1 sampleToken
  exact ⟨by decide +kernel, h.2.1, h.2.2⟩

end Rally.Cloud.SignIn
