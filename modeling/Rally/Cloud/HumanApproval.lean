/-
Human approvals over whole runs (`cloud/connector_approvals.py`, `call_allowed_tool` of `cloud/connector_gateway.py`): any
number of processes ask, approve, look and call on one ledger, in any order, with any clocks and any failures of the file
system. An operation takes the lock of the ledger once, which puts the operations in order.

- `Effect`: all that an operation can make of one request. `ledger_advances`: in every run a request is made pending, is
  approved, is consumed or expires, in this order, and is given up only when it has ended; there are never more than
  `maxRecords` of them.
- `Called`: a call reaches the provider, that is, what it ends in depends on what the provider does.
- `executions_approved`, `executed_once`: in every run the provider is called for tools that may be read, and for a tool that
  needs a human once for each request that a human approved for this very call, before the request expires.
-/
import Rally.Core.Trace
import Rally.Cloud.Audit

namespace Rally.Gateway

open Py Approvals

/-! ## Operations -/

/-- one operation of some process -/
inductive Act where
  | review (d : Disk) (now : ℤ) (approvalId : String)
  | list (d : Disk) (now : ℤ) (status : Option Status)
  | approve (d : Disk) (now : ℤ) (approvalId human : String)
  | call (authority : Authority) (w : World) (c : Call)

/-- what its clock reads -/
def Act.clock : Act → ℤ
  | .review _ now _ => now
  | .list _ now _ => now
  | .approve _ now _ _ => now
  | .call _ w _ => w.now

/-- the requests in a file -/
def requestsOf : File → Requests
  | .ledger requests => requests
  | _ => []

/-- what a call asks an approval for -/
def scopeOf (authority : Authority) (c : Call) : Scope := ⟨authority.runId, c.connectorId, c.toolName⟩

section Operations

variable (L : Libs)

/-- the file after an operation -/
def fileAfter (file : File) : Act → File
  | .review d now approvalId => (getForReview L d now file approvalId).2
  | .list d now status => (listPublic L d now file status).2
  | .approve d now approvalId human => (Approvals.approve L d now file approvalId human).2
  | .call authority w c => (callAllowedTool L authority w c file).2

/-- one operation after the other -/
def Operation (file : File) (act : Act) (file' : File) : Prop := file' = fileAfter L file act

/-- the request is for exactly the call -/
structure Bound (r : Record) (authority : Authority) (c : Call) : Prop where
  run : r.runId = strip authority.runId
  connector : r.connectorId = strip c.connectorId
  tool : r.toolName = strip c.toolName
  arguments : canonicalText L r.arguments.value = canonicalText L c.arguments.value
  hash : r.argumentsSha256 = L.sha256 (canonicalText L c.arguments.value)

/-- the request that a call without an approval makes -/
structure Requested (r : Record) (authority : Authority) (w : World) (c : Call) : Prop where
  unnamed : c.approvalId = none
  bound : Bound L r authority c
  pending : r.status = .pending
  expires : r.expiresAt = w.now + defaultTtlSeconds * 1000000

/-- all that an operation can make of the request with an id -/
inductive Effect (act : Act) (id : String) : Option Record → Option Record → Prop where
  | kept (before : Option Record) : Effect act id before before
  | expired {r : Record} (active : r.status = .pending ∨ r.status = .approved) (late : r.expiresAt ≤ act.clock) :
    Effect act id (some r) (some { r with status := .expired, expiredAt := some act.clock })
  | evicted {r : Record} {authority : Authority} {w : World} {c : Call} (asked : act = .call authority w c)
    (unnamed : c.approvalId = none) (ended : (expireRecord w.now r).status.isTerminal = true) : Effect act id (some r) none
  | made {before : Option Record} {r : Record} {authority : Authority} {w : World} {c : Call}
    (asked : act = .call authority w c) (ended : ∀ r' ∈ before, (expireRecord w.now r').status.isTerminal = true)
    (requested : Requested L r authority w c) (named : r.approvalId = id) : Effect act id before (some r)
  | approved {r : Record} {d : Disk} {now : ℤ} {approvalId human : String} (asked : act = .approve d now approvalId human)
    (named : identifier approvalId "approval_id" = .ok id) (pending : r.status = .pending) (early : now < r.expiresAt) :
    Effect act id (some r)
      (some { r with status := .approved, approvedAt := some now, approvedBy := some (strip human) })
  | consumed {r : Record} {authority : Authority} {w : World} {c : Call} {approvalId : String}
    (asked : act = .call authority w c) (given : c.approvalId = some approvalId)
    (named : identifier approvalId "approval_id" = .ok id) (approved : r.status = .approved) (early : w.now < r.expiresAt)
    (bound : Bound L r authority c) :
    Effect act id (some r) (some { r with status := .consumed, consumedAt := some w.now })

/-- the keys of the ledger are distinct and not too many -/
structure Sound (requests : Requests) : Prop where
  distinct : Dict.Ok requests
  bounded : requests.length ≤ maxRecords

end Operations

/-! ## One transaction -/

section Transactions

variable {L : Libs} {d : Disk} {now : ℤ} {file : File} {id : String} {requests : Requests} {act : Act}

theorem loadLedger_requests (h : loadLedger L d file = .ok requests) : requests = requestsOf file := by
  simp only [loadLedger, refuse] at h
  split at h
  · cases h
  · cases h
    rfl
  · obtain ⟨_, -, h⟩ := bind_ok h
    cases h
    rfl
  · cases h

/-- a transaction leaves the file, or writes what its operation makes of the requests -/
theorem transaction_file {α : Type} (operation : Requests → Except Approvals.Exn (α × Bool) × Requests) :
    (transaction L d now file operation).2 = file ∨
      (transaction L d now file operation).2 = .ledger (operation (expire now (requestsOf file)).1).2 := by
  simp only [transaction]
  cases d.lock with
  | raised => exact .inl rfl
  | irregular => exact .inl rfl
  | taken =>
    cases hload : loadLedger L d file with
    | error e => exact .inl rfl
    | ok requests =>
      obtain rfl := loadLedger_requests hload
      simp only
      split_ifs
      · exact .inl rfl
      · cases d.write with
        | done => exact .inr rfl
        | raised replaced =>
          cases replaced with
          | false => exact .inl rfl
          | true => exact .inr rfl

/-- one that returns from a changing operation has written it -/
theorem transaction_wrote {α : Type} {operation : Requests → Except Approvals.Exn (α × Bool) × Requests} {v : α}
    (h : (transaction L d now file operation).1 = .ok v)
    (hchanges : ∀ requests v changed, (operation requests).1 = .ok (v, changed) → changed = true) :
    (operation (expire now (requestsOf file)).1).1 = .ok (v, true) ∧
      (transaction L d now file operation).2 = .ledger (operation (expire now (requestsOf file)).1).2 := by
  obtain ⟨requests, hload, changed, hoperation⟩ := transaction_ok h
  obtain rfl := hchanges _ _ _ hoperation
  obtain rfl := loadLedger_requests hload
  refine ⟨hoperation, ?_⟩
  simp only [transaction] at h ⊢
  cases hlock : d.lock with
  | raised => simp [hlock] at h
  | irregular => simp [hlock, refuse] at h
  | taken =>
    have hwritten : written (expire now (requestsOf file)).2 (operation (expire now (requestsOf file)).1).1 = true := by
      rw [hoperation, written, Bool.or_true]
    simp only [hlock, hload, hwritten, Bool.not_true, Bool.false_eq_true, if_false] at h ⊢
    cases hwrite : d.write with
    | done => rfl
    | raised replaced => simp [hwrite] at h

theorem get?_expire (requests : Requests) :
    Dict.get? (expire now requests).1 id = (Dict.get? requests id).map (expireRecord now) := by
  simp only [expire]
  induction requests with
  | nil => rfl
  | cons p rest ih =>
    rw [List.map_cons, Dict.get?_cons, Dict.get?_cons, ih]
    split_ifs <;> rfl

/-- a request that has not ended has not expired -/
theorem expireRecord_active {r : Record} (h : (expireRecord now r).status.isTerminal = false) :
    expireRecord now r = r ∧ now < r.expiresAt := by
  rw [expireRecord] at h ⊢
  split_ifs at h ⊢ with hlate
  · cases h
  · refine ⟨rfl, ?_⟩
    by_contra hnow
    apply hlate
    refine ⟨?_, not_lt.1 hnow⟩
    cases hstatus : r.status with
    | pending => exact .inl rfl
    | approved => exact .inr rfl
    | consumed => rw [hstatus] at h; cases h
    | expired => rw [hstatus] at h; cases h

theorem expire_effect (hnow : act.clock = now) (before : Option Record) :
    Effect L act id before (before.map (expireRecord now)) := by
  subst hnow
  cases before with
  | none => exact .kept none
  | some r =>
    rw [Option.map_some, expireRecord]
    split_ifs with hlate
    · exact .expired hlate.1 hlate.2
    · exact .kept _

/-- it is enough to look at what the operation makes of the requests that have not expired -/
theorem transaction_effect {α : Type} {operation : Requests → Except Approvals.Exn (α × Bool) × Requests}
    (h : Effect L act id (Dict.get? (requestsOf file) id)
      (Dict.get? (operation (expire now (requestsOf file)).1).2 id)) :
    Effect L act id (Dict.get? (requestsOf file) id)
      (Dict.get? (requestsOf (transaction L d now file operation).2) id) := by
  rcases @transaction_file L d now file α operation with heq | heq
  · rw [heq]
    exact .kept _
  · rw [heq]
    exact h

/-- an operation that only reads -/
theorem read_effect {α : Type} {operation : Requests → Except Approvals.Exn (α × Bool) × Requests} (hnow : act.clock = now)
    (h : ∀ requests, (operation requests).2 = requests) :
    Effect L act id (Dict.get? (requestsOf file) id)
      (Dict.get? (requestsOf (transaction L d now file operation).2) id) := by
  apply transaction_effect
  rw [h, get?_expire]
  exact expire_effect hnow _

/-! ## Space -/

theorem get?_without (requests : Requests) (gone : List String) :
    Dict.get? (requests.filter fun p => p.1 ∉ gone) id = if id ∈ gone then none else Dict.get? requests id := by
  induction requests with
  | nil => simp
  | cons p rest ih =>
    rw [List.filter_cons, Dict.get?_cons]
    by_cases hp : p.1 ∈ gone
    · rw [if_neg (by simpa using hp), ih]
      split_ifs with hid hkey
      · rfl
      · exact absurd (hkey ▸ hp) hid
      · rfl
    · rw [if_pos (by simpa using hp), Dict.get?_cons, ih]
      split_ifs with hkey hid
      · exact absurd (hkey ▸ hid) hp
      · rfl
      · rfl
      · rfl

/-- only ended requests are given up -/
theorem get?_makeSpace (h : Dict.Ok requests) :
    Dict.get? (makeSpace requests) id = Dict.get? requests id ∨
      Dict.get? (makeSpace requests) id = none ∧ ∃ r, Dict.get? requests id = some r ∧ r.status.isTerminal = true := by
  rw [makeSpace]
  split_ifs with hroom
  · exact .inl rfl
  · simp only [get?_without]
    split_ifs with hgone
    · obtain ⟨p, hp, rfl⟩ := List.mem_map.1 hgone
      have hterminal := List.mem_of_mem_take hp
      rw [List.mem_insertionSort, List.mem_filter] at hterminal
      exact .inr ⟨rfl, p.2, (Dict.mem_iff h).1 hterminal.1, hterminal.2⟩
    · exact .inl rfl

theorem makeSpace_sublist (requests : Requests) : (makeSpace requests).Sublist requests := by
  rw [makeSpace]
  split_ifs
  · exact List.Sublist.refl _
  · exact List.filter_sublist

/-- a request is made under a key that is not taken, where there is room -/
theorem createIn_after (record : Record) (draws : Draws) (requests : Requests) :
    (createIn record draws requests).2 = makeSpace requests ∨
      ∃ newId, newId ∉ (makeSpace requests).map Prod.fst ∧ (makeSpace requests).length < maxRecords ∧
        (createIn record draws requests).2 =
          Dict.upsert (makeSpace requests) newId fun _ => { record with approvalId := newId } := by
  by_cases hroom : (makeSpace requests).length < maxRecords
  · have htaken : ((makeSpace requests).map Prod.fst).length < maxRecords := by simpa using hroom
    refine .inr ⟨draws.first _ htaken, Nat.find_spec (draws.fresh _ htaken), hroom, ?_⟩
    rw [createIn]
    simp only [hroom, dite_true]
  · refine .inl ?_
    rw [createIn]
    simp only [hroom, dite_false]

theorem get?_fresh (h : id ∉ requests.map Prod.fst) : Dict.get? requests id = none := by
  cases hget : Dict.get? requests id with
  | none => rfl
  | some r =>
    obtain ⟨p, hp, -⟩ := Option.map_eq_some_iff.1 hget
    have hkey : p.1 = id := by simpa using List.find?_some hp
    exact absurd (List.mem_map.2 ⟨p, List.mem_of_find?_eq_some hp, hkey⟩) h

/-! ## Sound ledgers -/

theorem sound_expire (h : Sound requests) : Sound (expire now requests).1 := by
  refine ⟨?_, by simpa [expire] using h.bounded⟩
  have hkeys : ((expire now requests).1).map Prod.fst = requests.map Prod.fst := by simp [expire, Function.comp_def]
  rw [Dict.Ok, hkeys]
  exact h.distinct

theorem sound_makeSpace (h : Sound requests) : Sound (makeSpace requests) :=
  ⟨h.distinct.sublist ((makeSpace_sublist requests).map Prod.fst), (makeSpace_sublist requests).length_le.trans h.bounded⟩

theorem length_upsert_le (requests : Requests) (f : Option Record → Record) :
    (Dict.upsert requests id f).length ≤ requests.length + 1 := by
  have hkeys := congrArg List.length (Dict.keys_upsert requests id f)
  rw [List.length_map] at hkeys
  rw [hkeys]
  split_ifs <;> simp

/-- a request that is there is replaced -/
theorem sound_upsert (h : Sound requests) {r : Record} (hr : Dict.get? requests id = some r) (f : Option Record → Record) :
    Sound (Dict.upsert requests id f) := by
  have hmem : id ∈ requests.map Prod.fst := by
    by_contra hfresh
    rw [get?_fresh hfresh] at hr
    cases hr
  have hkeys := congrArg List.length (Dict.keys_upsert requests id f)
  rw [if_pos hmem, List.length_map, List.length_map] at hkeys
  exact ⟨Dict.ok_upsert h.distinct _ _, hkeys ▸ h.bounded⟩

theorem sound_createIn (h : Sound requests) (record : Record) (draws : Draws) : Sound (createIn record draws requests).2 := by
  rcases createIn_after record draws requests with heq | ⟨newId, -, hroom, heq⟩
  · rw [heq]
    exact sound_makeSpace h
  · rw [heq]
    refine ⟨Dict.ok_upsert (sound_makeSpace h).distinct _ _, ?_⟩
    calc (Dict.upsert (makeSpace requests) newId _).length
        ≤ (makeSpace requests).length + 1 := length_upsert_le _ _
      _ ≤ maxRecords := hroom

theorem sound_approveIn (h : Sound requests) (approver : String) : Sound (approveIn now id approver requests).2 := by
  rw [approveIn]
  cases hget : Dict.get? requests id with
  | none => exact h
  | some r =>
    simp only
    cases r.status with
    | pending => exact sound_upsert h hget _
    | approved => exact h
    | consumed => exact h
    | expired => exact h

theorem sound_consumeIn (h : Sound requests) (e : Expected) : Sound (consumeIn L now e requests).2 := by
  rw [consumeIn]
  cases hget : Dict.get? requests e.approvalId with
  | none => exact h
  | some r =>
    simp only
    cases r.status with
    | pending => exact h
    | consumed => exact h
    | expired => exact h
    | approved =>
      simp only
      cases matchRecord L r e with
      | error raised => exact h
      | ok _ => exact sound_upsert h hget _

theorem sound_transaction {α : Type} {operation : Requests → Except Approvals.Exn (α × Bool) × Requests}
    (h : Sound (requestsOf file)) (hoperation : ∀ requests, Sound requests → Sound (operation requests).2) :
    Sound (requestsOf (transaction L d now file operation).2) := by
  rcases @transaction_file L d now file α operation with heq | heq
  · rw [heq]
    exact h
  · rw [heq]
    exact hoperation _ (sound_expire h)

end Transactions

/-! ## One operation -/

section Steps

variable {L : Libs} {d : Disk} {now : ℤ} {file : File} {id key approvalId human : String} {requests : Requests} {act : Act}
  {authority : Authority} {w : World} {c : Call} {record r : Record} {e : Expected}

theorem identifier_ok {value label text : String} (h : identifier value label = .ok text) : text = strip value := by
  simp only [identifier, refuse] at h
  split_ifs at h
  exact (Except.ok.inj h).symm

/-- what a call prepares is a request for it, under any id -/
theorem prepareRequest_requested (hunnamed : c.approvalId = none)
    (h : prepareRequest L w.now defaultTtlSeconds (scopeOf authority c) c.arguments = .ok record) (newId : String) :
    Requested L { record with approvalId := newId } authority w c := by
  rw [prepareRequest, if_neg (by decide)] at h
  obtain ⟨kept, hkept, h⟩ := bind_ok h
  obtain ⟨hash, hhash, h⟩ := bind_ok h
  obtain ⟨runId, hrun, h⟩ := bind_ok h
  obtain ⟨connectorId, hconnector, h⟩ := bind_ok h
  obtain ⟨toolName, htool, h⟩ := bind_ok h
  cases h
  rw [(privateArguments_kept hkept).2] at hhash
  have htext := (canonicalJson_ok (privateArguments_kept hkept).1).2.2
  exact ⟨hunnamed, ⟨identifier_ok hrun, identifier_ok hconnector, identifier_ok htool, htext.symm, (Except.ok.inj hhash).symm⟩,
    rfl, rfl⟩

theorem createIn_effect (asked : act = .call authority w c) (hok : Dict.Ok requests)
    (hrequested : ∀ newId, Requested L { record with approvalId := newId } authority w c) (draws : Draws) :
    Effect L act id (Dict.get? requests id) (Dict.get? (createIn record draws (expire w.now requests).1).2 id) := by
  have hspace : ∀ id, Dict.get? (makeSpace (expire w.now requests).1) id = (Dict.get? requests id).map (expireRecord w.now) ∨
      Dict.get? (makeSpace (expire w.now requests).1) id = none ∧
        ∃ r, Dict.get? requests id = some r ∧ (expireRecord w.now r).status.isTerminal = true := by
    intro id
    have hexpired : Dict.Ok (expire w.now requests).1 := by
      simpa [Dict.Ok, expire, Function.comp_def] using hok
    rcases get?_makeSpace hexpired with heq | ⟨hnone, r, hr, hterminal⟩
    · exact .inl (heq.trans (get?_expire requests))
    · rw [get?_expire] at hr
      obtain ⟨r', hr', rfl⟩ := Option.map_eq_some_iff.1 hr
      exact .inr ⟨hnone, r', hr', hterminal⟩
  have hleft : Effect L act id (Dict.get? requests id) (Dict.get? (makeSpace (expire w.now requests).1) id) := by
    rcases hspace id with heq | ⟨hnone, r, hr, hterminal⟩
    · rw [heq]
      exact expire_effect (asked ▸ rfl) _
    · rw [hnone, hr]
      exact .evicted asked (hrequested id).unnamed hterminal
  rcases createIn_after record draws (expire w.now requests).1 with heq | ⟨newId, hfresh, -, heq⟩
  · rw [heq]
    exact hleft
  · rw [heq, Dict.get?_upsert]
    split_ifs with hid
    · subst hid
      refine .made asked ?_ (hrequested newId) rfl
      intro r hr
      rcases hspace newId with hsome | ⟨-, r', hr', hterminal⟩
      · rw [get?_fresh hfresh, Option.mem_def.1 hr] at hsome
        cases hsome
      · cases Option.some.inj (hr'.symm.trans hr)
        exact hterminal
    · exact hleft

theorem approveIn_effect (named : identifier approvalId "approval_id" = .ok key) :
    Effect L (.approve d now approvalId human) id (Dict.get? requests id)
      (Dict.get? (approveIn now key (strip human) (expire now requests).1).2 id) := by
  have hexpired : Effect L (.approve d now approvalId human) id (Dict.get? requests id)
      (Dict.get? (expire now requests).1 id) := by
    rw [get?_expire]
    exact expire_effect rfl _
  rw [approveIn, get?_expire]
  cases hget : Dict.get? requests key with
  | none => exact hexpired
  | some r =>
    simp only [Option.map_some]
    cases hstatus : (expireRecord now r).status with
    | approved => exact hexpired
    | consumed => exact hexpired
    | expired => exact hexpired
    | pending =>
      obtain ⟨hsame, hearly⟩ := @expireRecord_active now r (by rw [hstatus]; rfl)
      simp only [Dict.get?_upsert]
      split_ifs with hid
      · subst hid
        rw [hget, hsame]
        exact .approved rfl named (hsame ▸ hstatus) hearly
      · exact hexpired

/-- what a call that names an approval expects of it -/
structure Expects (L : Libs) (authority : Authority) (c : Call) (approvalId : String) (e : Expected) : Prop where
  named : identifier approvalId "approval_id" = .ok e.approvalId
  run : e.scope.runId = strip authority.runId
  connector : e.scope.connectorId = strip c.connectorId
  tool : e.scope.toolName = strip c.toolName
  arguments : canonicalJson L e.arguments = .ok (canonicalText L c.arguments.value)
  hash : e.argumentsSha256 = L.sha256 (canonicalText L c.arguments.value)

theorem prepareConsume_expects (h : prepareConsume L approvalId (scopeOf authority c) c.arguments = .ok e) :
    Expects L authority c approvalId e := by
  obtain ⟨id, hid, h⟩ := bind_ok h
  obtain ⟨runId, hrun, h⟩ := bind_ok h
  obtain ⟨connectorId, hconnector, h⟩ := bind_ok h
  obtain ⟨toolName, htool, h⟩ := bind_ok h
  obtain ⟨kept, hkept, h⟩ := bind_ok h
  obtain ⟨hash, hhash, h⟩ := bind_ok h
  cases h
  rw [(privateArguments_kept hkept).2] at hhash
  exact ⟨hid, identifier_ok hrun, identifier_ok hconnector, identifier_ok htool, (privateArguments_kept hkept).1,
    (Except.ok.inj hhash).symm⟩

/-- a request that matches is for the call -/
theorem matchRecord_bound (he : Expects L authority c approvalId e) (h : matchRecord L r e = .ok ()) :
    Bound L r authority c := by
  simp only [matchRecord, mismatchOf, refuse] at h
  by_cases hrun : r.runId = e.scope.runId
  · by_cases hconnector : r.connectorId = e.scope.connectorId
    · by_cases htool : r.toolName = e.scope.toolName
      · simp only [hrun, hconnector, htool, ne_eq, not_true_eq_false, if_false] at h
        split_ifs at h with hhash
        obtain ⟨stored, hstored, h⟩ := bind_ok h
        obtain ⟨given, hgiven, h⟩ := bind_ok h
        split_ifs at h with htexts
        have htext : canonicalText L r.arguments.value = canonicalText L c.arguments.value := by
          rw [he.arguments] at hgiven
          rw [← (canonicalJson_ok hstored).2.2, htexts]
          exact (Except.ok.inj hgiven).symm
        exact ⟨hrun.trans he.run, hconnector.trans he.connector, htool.trans he.tool, htext, hhash.trans he.hash⟩
      · simp [hrun, hconnector, htool] at h
    · simp [hrun, hconnector] at h
  · simp [hrun] at h

/-- a request is consumed where it is approved, has not expired and is for the call; else it only expires -/
theorem consumeIn_cases (he : Expects L authority c approvalId e) (requests : Requests) :
    (∃ r, Dict.get? requests e.approvalId = some r ∧ r.status = .approved ∧ now < r.expiresAt ∧ Bound L r authority c ∧
      (consumeIn L now e (expire now requests).1).2 =
        Dict.upsert (expire now requests).1 e.approvalId fun _ => { r with status := .consumed, consumedAt := some now }) ∨
    (∃ raised, (consumeIn L now e (expire now requests).1).1 = .error raised) ∧
      (consumeIn L now e (expire now requests).1).2 = (expire now requests).1 := by
  rw [consumeIn, get?_expire]
  cases hget : Dict.get? requests e.approvalId with
  | none => exact .inr ⟨⟨_, rfl⟩, rfl⟩
  | some r =>
    simp only [Option.map_some]
    cases hstatus : (expireRecord now r).status with
    | pending => exact .inr ⟨⟨_, rfl⟩, rfl⟩
    | consumed => exact .inr ⟨⟨_, rfl⟩, rfl⟩
    | expired => exact .inr ⟨⟨_, rfl⟩, rfl⟩
    | approved =>
      obtain ⟨hsame, hearly⟩ := @expireRecord_active now r (by rw [hstatus]; rfl)
      rw [hsame] at hstatus ⊢
      simp only
      cases hmatch : matchRecord L r e with
      | error raised => exact .inr ⟨⟨raised, rfl⟩, rfl⟩
      | ok _ => exact .inl ⟨r, rfl, hstatus, hearly, matchRecord_bound he hmatch, rfl⟩

theorem consume_effect (asked : act = .call authority w c) (given : c.approvalId = some approvalId) :
    Effect L act id (Dict.get? (requestsOf file) id)
      (Dict.get? (requestsOf (consume L w.disk w.now file approvalId (scopeOf authority c) c.arguments).2) id) := by
  rw [consume]
  cases hprepared : prepareConsume L approvalId (scopeOf authority c) c.arguments with
  | error raised => exact .kept _
  | ok e =>
    have he := prepareConsume_expects hprepared
    apply transaction_effect
    rcases @consumeIn_cases L w.now approvalId authority c e he (requestsOf file) with
      ⟨r, hget, hstatus, hearly, hbound, heq⟩ | ⟨-, heq⟩
    · rw [heq, Dict.get?_upsert]
      split_ifs with hid
      · subst hid
        rw [hget]
        exact .consumed asked given he.named hstatus hearly hbound
      · rw [get?_expire]
        exact expire_effect (asked ▸ rfl) _
    · rw [heq, get?_expire]
      exact expire_effect (asked ▸ rfl) _

/-- a request that is consumed is approved and for the call, and has not expired -/
theorem consume_consumed {receipt : PublicReceipt}
    (h : (consume L w.disk w.now file approvalId (scopeOf authority c) c.arguments).1 = .ok receipt) :
    ∃ id r, identifier approvalId "approval_id" = .ok id ∧ Dict.get? (requestsOf file) id = some r ∧ r.status = .approved ∧
      w.now < r.expiresAt ∧ Bound L r authority c ∧
      Dict.get? (requestsOf (consume L w.disk w.now file approvalId (scopeOf authority c) c.arguments).2) id =
        some { r with status := .consumed, consumedAt := some w.now } := by
  rw [consume] at h ⊢
  cases hprepared : prepareConsume L approvalId (scopeOf authority c) c.arguments with
  | error raised =>
    rw [hprepared] at h
    cases h
  | ok e =>
    rw [hprepared] at h
    have he := prepareConsume_expects hprepared
    have hchanges : ∀ requests v changed, (consumeIn L w.now e requests).1 = .ok (v, changed) → changed = true := by
      intro requests v changed hconsumed
      rw [consumeIn] at hconsumed
      cases hget : Dict.get? requests e.approvalId with
      | none => rw [hget] at hconsumed; cases hconsumed
      | some r =>
        simp only [hget] at hconsumed
        cases hstatus : r.status with
        | pending => rw [hstatus] at hconsumed; cases hconsumed
        | consumed => rw [hstatus] at hconsumed; cases hconsumed
        | expired => rw [hstatus] at hconsumed; cases hconsumed
        | approved =>
          simp only [hstatus] at hconsumed
          cases hmatch : matchRecord L r e with
          | error raised => rw [hmatch] at hconsumed; cases hconsumed
          | ok _ => rw [hmatch] at hconsumed; cases hconsumed; rfl
    obtain ⟨hok, hwritten⟩ := transaction_wrote h hchanges
    rcases @consumeIn_cases L w.now approvalId authority c e he (requestsOf file) with
      ⟨r, hget, hstatus, hearly, hbound, heq⟩ | ⟨⟨raised, hraised⟩, -⟩
    · refine ⟨e.approvalId, r, he.named, hget, hstatus, hearly, hbound, ?_⟩
      show Dict.get? (requestsOf (transaction L w.disk w.now file (consumeIn L w.now e)).2) e.approvalId = _
      rw [hwritten, requestsOf, heq, Dict.get?_upsert, if_pos rfl]
    · rw [hraised] at hok
      cases hok

/-! ## Calls -/

/-- a call touches the ledger only by asking it -/
theorem callAllowedTool_file :
    (callAllowedTool L authority w c file).2 = file ∨
      (callAllowedTool L authority w c file).2 = (askLedger L authority w c file).2 := by
  rw [callAllowedTool]
  cases connectorById authority c.connectorId with
  | none => exact .inl rfl
  | some connector =>
    simp only
    split_ifs
    · exact .inl rfl
    · cases ruleOf connector c.toolName with
      | none => exact .inl rfl
      | some rule =>
        simp only
        cases ruleRefusal L rule c with
        | some reason => exact .inl rfl
        | none =>
          cases rule.risk with
          | read => exact .inl rfl
          | deny => exact .inl rfl
          | verifyFirst => exact .inl rfl
          | humanApproval =>
            simp only [callApproved]
            split
            · exact .inl rfl
            · refine .inr ?_
              cases (askLedger L authority w c file).1 with
              | error raised => cases raised <;> rfl
              | ok approval =>
                simp only
                split <;> rfl

theorem askLedger_effect (asked : act = .call authority w c) (h : Sound (requestsOf file)) :
    Effect L act id (Dict.get? (requestsOf file) id) (Dict.get? (requestsOf (askLedger L authority w c file).2) id) := by
  rw [askLedger]
  cases hid : c.approvalId with
  | some approvalId => exact consume_effect asked hid
  | none =>
    simp only [requestApproval]
    cases hprepared : prepareRequest L w.now defaultTtlSeconds (scopeOf authority c) c.arguments with
    | error raised =>
      rw [scopeOf] at hprepared
      rw [hprepared]
      exact .kept _
    | ok record =>
      have hrequested := prepareRequest_requested hid hprepared
      rw [scopeOf] at hprepared
      rw [hprepared]
      exact transaction_effect (createIn_effect asked h.distinct hrequested w.draws)

theorem sound_askLedger (h : Sound (requestsOf file)) : Sound (requestsOf (askLedger L authority w c file).2) := by
  rw [askLedger]
  cases c.approvalId with
  | some approvalId =>
    simp only [consume]
    cases prepareConsume L approvalId ⟨authority.runId, c.connectorId, c.toolName⟩ c.arguments with
    | error raised => exact h
    | ok e => exact sound_transaction h fun _ hrequests => sound_consumeIn hrequests e
  | none =>
    simp only [requestApproval]
    cases prepareRequest L w.now defaultTtlSeconds ⟨authority.runId, c.connectorId, c.toolName⟩ c.arguments with
    | error raised => exact h
    | ok record => exact sound_transaction h fun _ hrequests => sound_createIn hrequests record w.draws

/-- **One operation.** What it makes of each request. -/
theorem effect (h : Sound (requestsOf file)) (act : Act) (id : String) :
    Effect L act id (Dict.get? (requestsOf file) id) (Dict.get? (requestsOf (fileAfter L file act)) id) := by
  cases act with
  | review d now approvalId =>
    simp only [fileAfter, getForReview]
    cases identifier approvalId "approval_id" with
    | error raised => exact .kept _
    | ok key =>
      refine read_effect rfl fun requests => ?_
      cases Dict.get? requests key <;> rfl
  | list d now status => exact read_effect rfl fun _ => rfl
  | approve d now approvalId human =>
    simp only [fileAfter, Approvals.approve]
    cases hkey : identifier approvalId "approval_id" with
    | error raised => exact .kept _
    | ok key =>
      cases hhuman : identifier human "human_identity" with
      | error raised => exact .kept _
      | ok approver =>
        obtain rfl := identifier_ok hhuman
        exact transaction_effect (approveIn_effect hkey)
  | call authority w c =>
    rcases @callAllowedTool_file L file authority w c with heq | heq
    · simp only [fileAfter, heq]
      exact .kept _
    · simp only [fileAfter, heq]
      exact askLedger_effect rfl h

theorem sound_after (h : Sound (requestsOf file)) (act : Act) : Sound (requestsOf (fileAfter L file act)) := by
  cases act with
  | review d now approvalId =>
    simp only [fileAfter, getForReview]
    cases identifier approvalId "approval_id" with
    | error raised => exact h
    | ok key =>
      refine sound_transaction h fun requests hrequests => ?_
      cases Dict.get? requests key <;> exact hrequests
  | list d now status => exact sound_transaction h fun _ hrequests => hrequests
  | approve d now approvalId human =>
    simp only [fileAfter, Approvals.approve]
    cases identifier approvalId "approval_id" with
    | error raised => exact h
    | ok key =>
      cases identifier human "human_identity" with
      | error raised => exact h
      | ok approver => exact sound_transaction h fun _ hrequests => sound_approveIn hrequests approver
  | call authority w c =>
    rcases @callAllowedTool_file L file authority w c with heq | heq
    · simp only [fileAfter, heq]
      exact h
    · simp only [fileAfter, heq]
      exact sound_askLedger h

end Steps

/-! ## Executions -/

/-- the provider is called: how the call ends depends on what the provider does -/
def Called (L : Libs) (authority : Authority) (w : World) (c : Call) (file : File) : Prop :=
  ∃ remote remote' : Remote, callAllowedTool L authority { w with remote := remote } c file ≠
    callAllowedTool L authority { w with remote := remote' } c file

section Executions

variable {L : Libs} {authority : Authority} {w : World} {c : Call} {file : File} {id : String}

/-- the provider makes a difference to a call that needs an approval only where the call has consumed one -/
theorem callApproved_remote {connector : Connector} {rule : Rule} {remote remote' : Remote}
    (h : callApproved L authority { w with remote := remote } c connector rule file ≠
      callApproved L authority { w with remote := remote' } c connector rule file) :
    ∃ approvalId, c.approvalId = some approvalId ∧
      (∃ receipt, (consume L w.disk w.now file approvalId (scopeOf authority c) c.arguments).1 = .ok receipt) ∧
      (callApproved L authority w c connector rule file).2 =
        (consume L w.disk w.now file approvalId (scopeOf authority c) c.arguments).2 := by
  have hask : ∀ remote, askLedger L authority { w with remote := remote } c file = askLedger L authority w c file :=
    fun _ => rfl
  cases henabled : !authority.approvalPath || !authority.humanApprovalToolsEnabled with
  | true => exact absurd (by simp only [callApproved, henabled, if_true]) h
  | false =>
    cases hanswer : (askLedger L authority w c file).1 with
    | error raised =>
      refine absurd ?_ h
      simp only [callApproved, henabled, hask, hanswer]
      cases raised <;> rfl
    | ok receipt =>
      cases happroval : c.approvalId with
      | none =>
        refine absurd ?_ h
        simp only [callApproved, henabled, hask, hanswer, happroval]
        rfl
      | some approvalId =>
        have hconsume : askLedger L authority w c file =
            consume L w.disk w.now file approvalId (scopeOf authority c) c.arguments := by
          rw [askLedger, happroval]
          rfl
        refine ⟨approvalId, rfl, ⟨receipt, hconsume ▸ hanswer⟩, ?_⟩
        rw [← hconsume]
        simp [callApproved, henabled, hanswer, happroval]

/-- the provider is called for a tool that may be read, or for one whose approval the call has consumed -/
theorem called_cases (h : Called L authority w c file) :
    ∃ connector rule, connectorById authority c.connectorId = some connector ∧ ruleOf connector c.toolName = some rule ∧
      (rule.risk = .read ∨ rule.risk = .humanApproval ∧ ∃ approvalId, c.approvalId = some approvalId ∧
        (∃ receipt, (consume L w.disk w.now file approvalId (scopeOf authority c) c.arguments).1 = .ok receipt) ∧
        (callAllowedTool L authority w c file).2 =
          (consume L w.disk w.now file approvalId (scopeOf authority c) c.arguments).2) := by
  obtain ⟨remote, remote', hne⟩ := h
  cases hconnector : connectorById authority c.connectorId with
  | none => exact absurd (by simp only [callAllowedTool, hconnector]) hne
  | some connector =>
    cases hprintable : printableArguments c.arguments with
    | false => exact absurd (by simp [callAllowedTool, hconnector, hprintable]) hne
    | true =>
      cases hrule : ruleOf connector c.toolName with
      | none =>
        refine absurd ?_ hne
        simp only [callAllowedTool, hconnector, hprintable, hrule]
        rfl
      | some rule =>
        refine ⟨connector, rule, rfl, hrule, ?_⟩
        cases hrefusal : ruleRefusal L rule c with
        | some reason =>
          refine absurd ?_ hne
          simp only [callAllowedTool, hconnector, hprintable, hrule, hrefusal]
          rfl
        | none =>
          cases hrisk : rule.risk with
          | read => exact .inl rfl
          | deny => exact absurd hrisk (by simpa using (Option.filter_eq_some_iff.1 hrule).2)
          | verifyFirst =>
            refine absurd ?_ hne
            simp only [callAllowedTool, hconnector, hprintable, hrule, hrefusal, hrisk]
            rfl
          | humanApproval =>
            refine .inr ⟨rfl, ?_⟩
            have hcall : ∀ w : World, callAllowedTool L authority w c file =
                callApproved L authority w c connector rule file := by
              intro w
              simp [callAllowedTool, hconnector, hprintable, hrule, hrefusal, hrisk]
            rw [hcall, hcall] at hne
            rw [hcall]
            exact callApproved_remote hne

/-- a call that needs a human is executed under an approval -/
def Executes (L : Libs) (e : Entry File Act) (id : String) : Prop :=
  ∃ authority w c connector rule approvalId, e.act = .call authority w c ∧ Called L authority w c e.before ∧
    connectorById authority c.connectorId = some connector ∧ ruleOf connector c.toolName = some rule ∧
    rule.risk = .humanApproval ∧ c.approvalId = some approvalId ∧ identifier approvalId "approval_id" = .ok id

/-- an execution consumes an approved request for the call -/
theorem executes_consumed {e : Entry File Act} (hstep : e.after = fileAfter L e.before e.act) (h : Executes L e id) :
    ∃ r, Dict.get? (requestsOf e.after) id = some r ∧ r.status = .consumed := by
  obtain ⟨authority, w, c, connector, rule, approvalId, hact, hcalled, hconnector, hrule, hrisk, happroval, hid⟩ := h
  obtain ⟨connector', rule', hconnector', hrule', hcases⟩ := called_cases hcalled
  cases Option.some.inj (hconnector.symm.trans hconnector')
  cases Option.some.inj (hrule.symm.trans hrule')
  rcases hcases with hread | ⟨-, approvalId', happroval', ⟨receipt, hreceipt⟩, hfile⟩
  · rw [hrisk] at hread
    cases hread
  · cases Option.some.inj (happroval.symm.trans happroval')
    obtain ⟨key, r, hkey, -, -, -, -, hafter⟩ := consume_consumed hreceipt
    cases Except.ok.inj (hid.symm.trans hkey)
    rw [← hfile] at hafter
    rw [hstep, hact]
    exact ⟨_, hafter, rfl⟩

/-- a call makes a request -/
def Asks (L : Libs) (e : Entry File Act) (r : Record) : Prop :=
  ∃ authority w c, e.act = .call authority w c ∧ Requested L r authority w c ∧
    Dict.get? (requestsOf e.after) r.approvalId = some r

/-- a human approves a request that is there, in time -/
def Approves (e : Entry File Act) (made r : Record) : Prop :=
  ∃ d now approvalId human, e.act = .approve d now approvalId human ∧
    identifier approvalId "approval_id" = .ok made.approvalId ∧ now < made.expiresAt ∧
    r = { made with status := .approved, approvedAt := some now, approvedBy := some (strip human) } ∧
    Dict.get? (requestsOf e.before) made.approvalId = some made ∧ Dict.get? (requestsOf e.after) r.approvalId = some r

/-- the request was made in the run, and nothing was executed under its id since -/
def Made (L : Libs) (tr : List (Entry File Act)) (r : Record) : Prop :=
  ∃ front e back, tr = front ++ e :: back ∧ Asks L e r ∧ ∀ x ∈ back, ¬ Executes L x r.approvalId

/-- so was it, and then a human approved it in time, and nothing was executed under its id since -/
def Approved (L : Libs) (tr : List (Entry File Act)) (r : Record) : Prop :=
  ∃ front e back made, tr = front ++ e :: back ∧ Made L front made ∧ Approves e made r ∧
    ∀ x ∈ back, ¬ Executes L x r.approvalId

/-- a new request is made under the id, and after it a human approves this request -/
def Renewed (L : Libs) (tr : List (Entry File Act)) (id : String) : Prop :=
  ∃ front x middle a back made r, tr = front ++ x :: (middle ++ a :: back) ∧ Asks L x made ∧ made.approvalId = id ∧
    Approves a made r

/-- what the requests in a ledger tell of the run -/
structure Told (L : Libs) (tr : List (Entry File Act)) (file : File) : Prop where
  named : ∀ id r, Dict.get? (requestsOf file) id = some r → r.approvalId = id
  pending : ∀ id r, Dict.get? (requestsOf file) id = some r → r.status = .pending → Made L tr r
  approved : ∀ id r, Dict.get? (requestsOf file) id = some r → r.status = .approved → Approved L tr r

end Executions

/-! ## Runs -/

section Runs

variable {L : Libs} {tr front middle back : List (Entry File Act)} {e e' : Entry File Act} {s t file : File} {act : Act}
  {r : Record} {id : String}

theorem Made.snoc (h : Made L tr r) (he : ¬ Executes L e r.approvalId) : Made L (tr ++ [e]) r := by
  obtain ⟨front, x, back, rfl, hasks, hback⟩ := h
  refine ⟨front, x, back ++ [e], by simp, hasks, fun y hy => ?_⟩
  rcases List.mem_append.1 hy with hy | hy
  · exact hback y hy
  · exact List.mem_singleton.1 hy ▸ he

theorem Approved.snoc (h : Approved L tr r) (he : ¬ Executes L e r.approvalId) : Approved L (tr ++ [e]) r := by
  obtain ⟨front, x, back, made, rfl, hmade, happroves, hback⟩ := h
  refine ⟨front, x, back ++ [e], made, by simp, hmade, happroves, fun y hy => ?_⟩
  rcases List.mem_append.1 hy with hy | hy
  · exact hback y hy
  · exact List.mem_singleton.1 hy ▸ he

/-- one more operation: a request that has not ended was there before, is made now or is approved now -/
theorem told_snoc (h : Told L tr s) (hsound : Sound (requestsOf s)) (hstep : Operation L s act t) :
    Told L (tr ++ [⟨s, act, t⟩]) t := by
  have heffect : ∀ id, Effect L act id (Dict.get? (requestsOf s) id) (Dict.get? (requestsOf t) id) := by
    intro id
    rw [hstep]
    exact effect hsound act id
  -- an execution ends its request
  have hquiet : ∀ id r, Dict.get? (requestsOf t) id = some r → r.status ≠ .consumed → ¬ Executes L ⟨s, act, t⟩ id := by
    intro id r hr hstatus hexecutes
    obtain ⟨r', hr', hconsumed⟩ := @executes_consumed L id ⟨s, act, t⟩ hstep hexecutes
    cases Option.some.inj (hr.symm.trans hr')
    exact hstatus hconsumed
  constructor
  · intro id r hr
    have hid := heffect id
    rw [hr] at hid
    generalize hbefore : Dict.get? (requestsOf s) id = before at hid
    cases hid with
    | kept => exact h.named id r hbefore
    | made _ _ _ hnamed => exact hnamed
    | expired _ _ =>
      have hkey := h.named id _ hbefore
      exact hkey
    | approved _ _ _ _ =>
      have hkey := h.named id _ hbefore
      exact hkey
    | consumed _ _ _ _ _ _ =>
      have hkey := h.named id _ hbefore
      exact hkey
  · intro id r hr hpending
    have hid := heffect id
    rw [hr] at hid
    generalize hbefore : Dict.get? (requestsOf s) id = before at hid
    cases hid with
    | kept =>
      refine (h.pending id r hbefore hpending).snoc ?_
      rw [h.named id r hbefore]
      exact hquiet id r hr (by rw [hpending]; decide)
    | expired _ _ => cases hpending
    | made hasked _ hrequested hnamed =>
      exact ⟨tr, _, [], rfl, ⟨_, _, _, hasked, hrequested, hnamed ▸ hr⟩, fun x hx => by cases hx⟩
    | approved _ _ _ _ => cases hpending
    | consumed _ _ _ _ _ _ => cases hpending
  · intro id r hr happroved
    have hid := heffect id
    rw [hr] at hid
    generalize hbefore : Dict.get? (requestsOf s) id = before at hid
    cases hid with
    | kept =>
      refine (h.approved id r hbefore happroved).snoc ?_
      rw [h.named id r hbefore]
      exact hquiet id r hr (by rw [happroved]; decide)
    | expired _ _ => cases happroved
    | made _ _ hrequested _ =>
      rw [hrequested.pending] at happroved
      cases happroved
    | approved hasked hnamed hpending hearly =>
      have hkey := h.named id _ hbefore
      refine ⟨tr, _, [], _, rfl, h.pending id _ hbefore hpending, ?_, fun x hx => by cases hx⟩
      exact ⟨_, _, _, _, hasked, hkey ▸ hnamed, hearly, rfl, hkey ▸ hbefore, hkey ▸ hr⟩
    | consumed _ _ _ _ _ _ => cases happroved

theorem run_sound (h : Trace (Operation L) .absent tr file) :
    Sound (requestsOf file) ∧ ∀ e ∈ tr, Sound (requestsOf e.before) ∧ Sound (requestsOf e.after) := by
  refine h.inv (p := fun file => Sound (requestsOf file)) ⟨List.nodup_nil, Nat.zero_le _⟩ fun s act t hs hstep => ?_
  rw [hstep]
  exact sound_after hs act

theorem run_told (h : Trace (Operation L) .absent tr file) : Told L tr file := by
  induction h with
  | nil =>
    constructor
    · intro id r hr
      cases hr
    · intro id r hr
      cases hr
    · intro id r hr
      cases hr
  | snoc hrun hnext ih => exact told_snoc ih (run_sound hrun).1 hnext

/-- **The ledger advances.** In every run a request is made pending under an id that is free or whose request has ended, is
approved while it is pending, is consumed by a call it is for while it is approved, or expires, and is given up only when it
has ended. There are never more than `maxRecords` of them. -/
theorem ledger_advances (h : Trace (Operation L) .absent tr file) :
    (requestsOf file).length ≤ maxRecords ∧ ∀ e ∈ tr, ∀ id,
      Effect L e.act id (Dict.get? (requestsOf e.before) id) (Dict.get? (requestsOf e.after) id) := by
  obtain ⟨hsound, hentries⟩ := run_sound h
  refine ⟨hsound.bounded, fun e he id => ?_⟩
  rw [h.entry e he]
  exact effect (hentries e he).1 e.act id

/-- **Executions are approved.** In every run the provider is called for a tool that may be read, or for one that needs a
human, under a request for this very call that a human approved, that has not expired, and under whose id nothing was executed
since it was made. -/
theorem executions_approved {authority : Authority} {w : World} {c : Call}
    (h : Trace (Operation L) .absent (front ++ ⟨s, .call authority w c, t⟩ :: back) file) (hcalled : Called L authority w c s) :
    ∃ connector rule, connectorById authority c.connectorId = some connector ∧ ruleOf connector c.toolName = some rule ∧
      (rule.risk = .read ∨ rule.risk = .humanApproval ∧ ∃ approvalId r, c.approvalId = some approvalId ∧
        identifier approvalId "approval_id" = .ok r.approvalId ∧ Approved L front r ∧ Bound L r authority c ∧
        w.now < r.expiresAt) := by
  obtain ⟨connector, rule, hconnector, hrule, hcases⟩ := called_cases hcalled
  refine ⟨connector, rule, hconnector, hrule, ?_⟩
  rcases hcases with hread | ⟨hrisk, approvalId, happroval, ⟨receipt, hreceipt⟩, -⟩
  · exact .inl hread
  · obtain ⟨id, r, hid, hr, hstatus, hearly, hbound, -⟩ := consume_consumed hreceipt
    have htold := run_told h.before
    obtain rfl := htold.named id r hr
    exact .inr ⟨hrisk, approvalId, r, happroval, hid, htold.approved _ r hr hstatus, hbound, hearly⟩

/-- what comes after all that has a property -/
theorem split_behind {α : Type} {p : α → Prop} {front middle k rest : List α} {x : α} (h : front ++ x :: middle = k ++ rest)
    (hx : p x) (hrest : ∀ y ∈ rest, ¬ p y) : ∃ l, middle = l ++ rest := by
  rcases List.append_eq_append_iff.1 h with ⟨l, -, hl⟩ | ⟨l, -, hl⟩
  · cases l with
    | nil => exact absurd hx (hrest x (by rw [List.nil_append] at hl; rw [← hl]; exact List.mem_cons_self))
    | cons y l => exact ⟨l, (List.cons.inj hl).2⟩
  · exact absurd hx (hrest x (by rw [hl]; simp))

/-- **One execution each.** After an execution under an id there is no other one unless a new request is made under the id in
between, and approved. -/
theorem executed_once (h : Trace (Operation L) .absent (front ++ e :: middle ++ e' :: back) file) (he : Executes L e id)
    (hquiet : ¬ Renewed L middle id) : ¬ Executes L e' id := by
  intro he'
  obtain ⟨authority, w, c, connector, rule, approvalId, hact, hcalled, hconnector, hrule, hrisk, happroval, hid⟩ := he'
  obtain ⟨s, a, t⟩ := e'
  cases hact
  obtain ⟨connector', rule', hconnector', hrule', hcases⟩ := executions_approved h hcalled
  cases Option.some.inj (hconnector.symm.trans hconnector')
  cases Option.some.inj (hrule.symm.trans hrule')
  rcases hcases with hread | ⟨-, approvalId', r, happroval', hid', happroved, -, -⟩
  · rw [hrisk] at hread
    cases hread
  · cases Option.some.inj (happroval.symm.trans happroval')
    cases Except.ok.inj (hid.symm.trans hid')
    obtain ⟨l, a, l', made, hsplit, ⟨k, x, k', rfl, hasks, hk'⟩, happroves, hl'⟩ := happroved
    have hname : made.approvalId = r.approvalId := by
      obtain ⟨d, now, approvalId', human, -, -, -, rfl, -, -⟩ := happroves
      rfl
    -- neither the call that asks nor the approval executes anything
    have hasked : ¬ Executes L x r.approvalId := by
      obtain ⟨_, _, c', hx, hrequested, -⟩ := hasks
      rintro ⟨_, _, _, _, _, _, hact, -, -, -, -, hgiven, -⟩
      rw [hx] at hact
      cases hact
      rw [hrequested.unnamed] at hgiven
      cases hgiven
    have hlooked : ¬ Executes L a r.approvalId := by
      obtain ⟨_, _, _, _, ha, -⟩ := happroves
      rintro ⟨_, _, _, _, _, _, hact, -⟩
      rw [ha] at hact
      cases hact
    have hrest : ∀ y ∈ x :: (k' ++ a :: l'), ¬ Executes L y r.approvalId := by
      intro y hy
      rcases List.mem_cons.1 hy with rfl | hy
      · exact hasked
      · rcases List.mem_append.1 hy with hy | hy
        · exact hname ▸ hk' y hy
        · rcases List.mem_cons.1 hy with rfl | hy
          · exact hlooked
          · exact hl' y hy
    obtain ⟨m, rfl⟩ := split_behind (show front ++ e :: middle = k ++ x :: (k' ++ a :: l') by simpa using hsplit) he hrest
    exact hquiet ⟨m, x, k', a, l', made, r, rfl, hasks, hname, happroves⟩

end Runs

/-! ## One request -/

/-- a search under the first approval -/
def namedSearch : Call := { searchCall "lean" with approvalId := some "apr_" }

def searchRequest : Record where
  approvalId := "apr_"
  status := .pending
  runId := "run-1"
  connectorId := "github"
  toolName := "search"
  argumentsSha256 := canonicalText identityHash (searchCall "lean").arguments.value
  arguments := (searchCall "lean").arguments
  createdAt := 0
  expiresAt := 300000000

/-- the request once ann has approved it, and once it is consumed -/
def approvedRequest : Record :=
  { searchRequest with status := .approved, approvedAt := some 0, approvedBy := some "ann" }

def consumedRequest : Record := { approvedRequest with status := .consumed, consumedAt := some 0 }

/-- a request for another search, made in vain -/
def otherRequest : Record :=
  { searchRequest with
    approvalId := "apr_0"
    argumentsSha256 := canonicalText identityHash (searchCall "mathlib").arguments.value
    arguments := (searchCall "mathlib").arguments }

def lateRequest : Record := { otherRequest with status := .expired, expiredAt := some 300000000 }

/-- searching without an approval -/
def reading : Authority := ⟨"run-1", [{ id := "github", toolPolicy := [("search", { risk := .read })] }], true, true⟩

theorem tally_first (h : ([] : List String).length < maxRecords) : tally.first [] h = "apr_" := by
  have hzero : Nat.find (tally.fresh [] h) = 0 := (Nat.find_eq_zero _).2 List.not_mem_nil
  rw [Draws.first, hzero]
  rfl

theorem tally_second (h : ["apr_"].length < maxRecords) : tally.first ["apr_"] h = "apr_0" := by
  have hone : Nat.find (tally.fresh ["apr_"] h) = 1 := by
    rw [Nat.find_eq_iff]
    refine ⟨by decide, fun n hn => ?_⟩
    obtain rfl : n = 0 := by omega
    exact not_not_intro (by decide)
  rw [Draws.first, hone]
  rfl

theorem search_asked :
    fileAfter identityHash .absent (.call gated calm (searchCall "lean")) = .ledger [("apr_", searchRequest)] := by
  have hroom : ([] : List String).length < maxRecords := by decide
  have hfile : fileAfter identityHash .absent (.call gated calm (searchCall "lean")) =
      .ledger [(tally.first [] hroom, { searchRequest with approvalId := tally.first [] hroom })] := rfl
  rw [hfile, tally_first]
  rfl

theorem other_asked : fileAfter identityHash (.ledger [("apr_", consumedRequest)]) (.call gated calm (searchCall "mathlib")) =
    .ledger [("apr_", consumedRequest), ("apr_0", otherRequest)] := by
  have hroom : ["apr_"].length < maxRecords := by decide
  have hfile : fileAfter identityHash (.ledger [("apr_", consumedRequest)]) (.call gated calm (searchCall "mathlib")) =
      .ledger (Dict.upsert [("apr_", consumedRequest)] (tally.first ["apr_"] hroom)
        fun _ => { otherRequest with approvalId := tally.first ["apr_"] hroom }) := rfl
  rw [hfile, tally_second]
  rfl

/-- a search is asked for, approved and made -/
def askStep : Entry File Act := ⟨.absent, .call gated calm (searchCall "lean"), .ledger [("apr_", searchRequest)]⟩

def approveStep : Entry File Act :=
  ⟨.ledger [("apr_", searchRequest)], .approve {} 0 "apr_" "ann", .ledger [("apr_", approvedRequest)]⟩

def callStep : Entry File Act :=
  ⟨.ledger [("apr_", approvedRequest)], .call gated calm namedSearch, .ledger [("apr_", consumedRequest)]⟩

/-- a call that only reads, another request, an approval that is refused, and a look when the other request is late -/
def quietSteps : List (Entry File Act) :=
  [⟨.ledger [("apr_", consumedRequest)], .call reading calm (searchCall "lean"), .ledger [("apr_", consumedRequest)]⟩,
    ⟨.ledger [("apr_", consumedRequest)], .call gated calm (searchCall "mathlib"),
      .ledger [("apr_", consumedRequest), ("apr_0", otherRequest)]⟩,
    ⟨.ledger [("apr_", consumedRequest), ("apr_0", otherRequest)], .approve {} 0 "apr_" "ann",
      .ledger [("apr_", consumedRequest), ("apr_0", otherRequest)]⟩,
    ⟨.ledger [("apr_", consumedRequest), ("apr_0", otherRequest)], .list {} 300000000 none,
      .ledger [("apr_", consumedRequest), ("apr_0", lateRequest)]⟩]

/-- the search is tried again -/
def repeatStep : Entry File Act :=
  ⟨.ledger [("apr_", consumedRequest), ("apr_0", lateRequest)], .call gated calm namedSearch,
    .ledger [("apr_", consumedRequest), ("apr_0", lateRequest)]⟩

theorem searches_run : Trace (Operation identityHash) .absent ([askStep, approveStep] ++ callStep :: quietSteps ++ [repeatStep])
    (.ledger [("apr_", consumedRequest), ("apr_0", lateRequest)]) := by
  have hask : Trace (Operation identityHash) .absent [askStep] askStep.after := .single search_asked.symm
  have hmade : Trace (Operation identityHash) .absent [askStep, approveStep, callStep] callStep.after :=
    (hask.snoc rfl).snoc rfl
  have hread := hmade.snoc (show Operation identityHash _ (.call reading calm (searchCall "lean")) callStep.after from rfl)
  have hother := hread.snoc (show Operation identityHash _ _ _ from other_asked.symm)
  have hrefused := hother.snoc (show Operation identityHash _ (.approve {} 0 "apr_" "ann")
    (.ledger [("apr_", consumedRequest), ("apr_0", otherRequest)]) from rfl)
  have hlate := hrefused.snoc (show Operation identityHash _ (.list {} 300000000 none)
    (.ledger [("apr_", consumedRequest), ("apr_0", lateRequest)]) from rfl)
  exact hlate.snoc rfl

/-- the search is made once the request is approved -/
theorem search_called : Called identityHash gated calm namedSearch (.ledger [("apr_", approvedRequest)]) :=
  ⟨.broken, .raised "Timeout", fun h => absurd (congrArg (fun x => x.1.2.length) h) (by decide)⟩

theorem ledger_advances_sample : (requestsOf repeatStep.after).length ≤ maxRecords ∧
    ∀ e ∈ [askStep, approveStep] ++ callStep :: quietSteps ++ [repeatStep], ∀ id,
      Effect identityHash e.act id (Dict.get? (requestsOf e.before) id) (Dict.get? (requestsOf e.after) id) :=
  ledger_advances searches_run

/-- the search that is made has been approved -/
theorem search_approved :
    ∃ r, Approved identityHash [askStep, approveStep] r ∧ Bound identityHash r gated namedSearch ∧ calm.now < r.expiresAt := by
  have hrun : Trace (Operation identityHash) .absent
      ([askStep, approveStep] ++
        ⟨approveStep.after, .call gated calm namedSearch, callStep.after⟩ :: (quietSteps ++ [repeatStep])) repeatStep.after :=
    searches_run
  obtain ⟨connector, rule, hconnector, hrule, hcases⟩ := executions_approved hrun search_called
  cases Option.some.inj hconnector
  cases Option.some.inj hrule
  rcases hcases with hread | ⟨-, approvalId, r, -, -, happroved, hbound, hearly⟩
  · cases hread
  · exact ⟨r, happroved, hbound, hearly⟩

/-- where the request stays consumed, none is made under its id -/
theorem not_renewed {tr : List (Entry File Act)}
    (h : ∀ x ∈ tr, Dict.get? (requestsOf x.after) "apr_" = some consumedRequest) : ¬ Renewed identityHash tr "apr_" := by
  rintro ⟨front, x, middle, a, back, made, r, rfl, ⟨authority, w, c, -, hrequested, hstored⟩, hname, -⟩
  rw [hname, h x (by simp)] at hstored
  obtain rfl := Option.some.inj hstored
  cases hrequested.pending

/-- it is not made again, whatever comes in between -/
theorem search_made_once : ¬ Executes identityHash repeatStep "apr_" := by
  have hcall : Executes identityHash callStep "apr_" :=
    ⟨gated, calm, namedSearch, _, _, "apr_", rfl, search_called, rfl, rfl, rfl, rfl, rfl⟩
  refine @executed_once identityHash [askStep, approveStep] quietSteps [] callStep repeatStep _ "apr_" searches_run hcall
    (not_renewed fun x hx => ?_)
  simp only [quietSteps, List.mem_cons, List.not_mem_nil, or_false] at hx
  rcases hx with rfl | rfl | rfl | rfl <;> rfl

end Rally.Gateway
