/-
The Worker's mail inbox (`src/worker/index.js`, `schema.sql`): signed events of the mail provider are stored
(`/inbound`), the runner collects them (`/pending`) and deletes what it has taken (`/ack`).

- Each request makes one statement that counts, so any interleaving is a list of requests. What the second lookup of
  `/inbound` finds is open, and a write may be lost, or done although it is reported lost.
- `handed_once`: while no event comes again after its acknowledgement, no event reaches the runner as two messages.
- `redelivered`: an event that does come again is pending again.
-/
import Rally.Core.Table
import Rally.Worker.Console

namespace Rally.Worker.Inbox

open Wire

/-! ## Requests -/

/-- the tokens and the secret of the deployment -/
structure Config where
  ingestToken : Units
  pollToken : Units
  webhookSecret : Units

/-- `JSON.parse`, `Number` where it is finite, and the signature in base64, `none` where the secret does not decode -/
structure Webhook where
  platform : Platform
  parse : Units → Option JsValue
  number : Units → Option ℚ
  sign : Units → Units → Option Units

/-- a request to `/inbound`; a header that is absent is empty, a body over the limit is `none` -/
structure Delivery where
  token : Units
  svixId : Units
  svixTimestamp : Units
  svixSignature : Units
  raw : Option Units

/-- what a delivery draws: the clock in milliseconds and as a text, a random id, and the fate of the write -/
structure Draw where
  now : ℤ
  receivedAt : Units
  id : Units
  write : Write

inductive Reply where
  | refused (status : ℕ) (error : String)
  | ignored
  | stored (id : Units) (duplicate : Bool)
  | pending (messages : List Message)
  | acked (count : ℕ)
  /-- the handler throws -/
  | failed

/-- the unique columns of `messages` -/
def columns : List (Message → Units) := [Message.id, Message.eventId]

/-! ## Storing -/

/-- `signedByResend`, `none` where it throws -/
def signedByResend (W : Webhook) (secret : Units) (now : ℤ) (d : Delivery) (raw : Units) : Option Bool :=
  if secret = [] then some false
  else
    match W.number d.svixTimestamp with
    | none => some false
    | some timestamp =>
      let age := |((now / 1000 : ℤ) : ℚ) - timestamp|
      if d.svixId = [] ∨ d.svixTimestamp = [] ∨ 300 < age then some false
      else
        let key := if secret.take 6 = encode "whsec_" then secret.drop 6 else secret
        let text := d.svixId ++ encode "." ++ d.svixTimestamp ++ encode "." ++ raw
        (W.sign key text).map fun expected =>
          (d.svixSignature.splitOn 0x20).any fun part =>
            match part.splitOn 0x2c with
            | [_, signature] => signature = expected
            | _ => false

/-- the checks of `/inbound`: the payload of a received mail, or the reply -/
def received (W : Webhook) (c : Config) (now : ℤ) (d : Delivery) : Except Reply JsValue :=
  if d.token ≠ c.ingestToken then .error (.refused 404 "not found")
  else
    match d.raw with
    | none => .error (.refused 413 "too large")
    | some raw =>
      match signedByResend W c.webhookSecret now d raw with
      | none => .error .failed
      | some false => .error (.refused 401 "invalid signature")
      | some true =>
        match W.parse raw with
        | none => .error (.refused 400 "invalid json")
        | some payload =>
          match prop payload "type" with
          | some (.str type) => if type = encode "email.received" then .ok payload else .error .ignored
          | _ => .error .ignored

/-- the event id: the first of `svix-id`, `email_id` and the random id that is not empty -/
def eventIdOf (P : Platform) (d : Delivery) (payload : JsValue) (id : Units) : Units :=
  let emailId := textOr P ((prop payload "data").bind fun data => prop data "email_id")
  if d.svixId ≠ [] then d.svixId else if emailId ≠ [] then emailId else id

/-- `POST /inbound`: the reply and the table; `later` is the table of the second lookup -/
def inbound (W : Webhook) (c : Config) (messages later : List Message) (draw : Draw) (d : Delivery) :
    Reply × List Message :=
  match received W c draw.now d with
  | .error reply => (reply, messages)
  | .ok payload =>
    let eventId := eventIdOf W.platform d payload draw.id
    let row : Message := ⟨draw.id, eventId, draw.receivedAt, some payload⟩
    match draw.write with
    | .lost => (.failed, messages)
    | .late => (.failed, Table.insertOrIgnore columns messages row)
    | .done =>
      if Table.Fits columns messages row then (.stored draw.id false, messages ++ [row])
      else
        let existing := (later.find? fun m => m.eventId = eventId).map Message.id
        (.stored (if existing.getD [] = [] then draw.id else existing.getD []) true, messages)

/-! ## Collecting -/

/-- the order of texts in the table -/
def textLe : Units → Units → Bool
  | [], _ => true
  | _ :: _, [] => false
  | a :: s, b :: t => a.toNat < b.toNat || (a = b && textLe s t)

/-- `SELECT … ORDER BY received_at ASC LIMIT 25` -/
def oldest (messages : List Message) : List Message :=
  (messages.insertionSort fun m n => textLe m.receivedAt n.receivedAt = true).take 25

/-- `GET /pending` -/
def pending (c : Config) (messages : List Message) (token : Units) : Reply :=
  if token ≠ c.pollToken then .refused 401 "unauthorized"
  else
    let results := oldest messages
    if results.all fun m => m.payload.isSome then .pending results else .failed

/-- `/^[0-9a-f-]{36}$/i` -/
def isMessageId (s : List Char) : Bool :=
  s.length = 36 && s.all fun c => c.isDigit || c = '-' || ('a'.toNat ≤ c.toLower.toNat && c.toLower.toNat ≤ 'f'.toNat)

/-- a text among the values -/
def asText : JsValue → Option Units
  | .str s => some s
  | _ => none

/-- the ids an acknowledgement names, or the reply -/
def ackIds (body : Option JsValue) : Except Reply (List Units) :=
  match body with
  | none => .error (.refused 400 "invalid json")
  | some .null => .error (.refused 400 "invalid json")
  | some body =>
    match prop body "ids" with
    | some (.arr values) =>
      match values.mapM asText with
      | none => .error (.refused 400 "invalid ids")
      | some ids =>
        let ids := ids.dedup
        if 25 < ids.length ∨ ids.any fun id => !isMessageId (unitChars id) then .error (.refused 400 "invalid ids")
        else .ok ids
    | _ => .ok []

/-- `POST /ack`: the reply, and the ids whose rows are deleted -/
def ack (c : Config) (token : Units) (body : Option JsValue) (write : Write) : Reply × List Units :=
  if token ≠ c.pollToken then (.refused 401 "unauthorized", [])
  else
    match ackIds body with
    | .error reply => (reply, [])
    | .ok [] => (.acked 0, [])
    | .ok ids =>
      match write with
      | .done => (.acked ids.length, ids)
      | .late => (.failed, ids)
      | .lost => (.failed, [])

/-! ## The system -/

structure Sys where
  messages : List Message
  /-- the messages in the replies of `/pending` -/
  handed : List Message
  /-- the events whose message was acknowledged -/
  acked : List Units

inductive Op where
  | inbound (draw : Draw) (later : List Message) (d : Delivery)
  | pending (token : Units)
  | ack (token : Units) (body : Option JsValue) (write : Write)

/-- the messages a reply hands over -/
def Reply.handed : Reply → List Message
  | .pending messages => messages
  | _ => []

/-- units are compared as they are decided -/
local instance units_lawful : LawfulBEq Units := inferInstance

/-- `DELETE FROM messages WHERE id IN (…)` -/
def delete (s : Sys) (ids : List Units) : Sys :=
  { s with
    messages := s.messages.filter fun m => m.id ∉ ids
    acked := s.acked ++ (s.messages.filter fun m => m.id ∈ ids).map Message.eventId }

def step (W : Webhook) (c : Config) (s : Sys) : Op → Sys
  | .inbound draw later d => { s with messages := (inbound W c s.messages later draw d).2 }
  | .pending token => { s with handed := s.handed ++ (pending c s.messages token).handed }
  | .ack token body write => delete s (ack c token body write).2

def run (W : Webhook) (c : Config) (s : Sys) (ops : List Op) : Sys := ops.foldl (step W c) s

/-- nothing handed over and nothing acknowledged yet -/
structure Sys.Start (s : Sys) : Prop where
  unique : Table.Unique columns s.messages
  handed : s.handed = []
  acked : s.acked = []

/-- the request does not store an event that was acknowledged -/
def NotAgain (W : Webhook) (c : Config) (s : Sys) : Op → Prop
  | .inbound draw _ d => ∀ payload, received W c draw.now d = .ok payload → d.svixId ∉ s.acked
  | _ => True

/-- no request of a run stores an event that was acknowledged -/
def NeverAgain (W : Webhook) (c : Config) : Sys → List Op → Prop
  | _, [] => True
  | s, op :: ops => NotAgain W c s op ∧ NeverAgain W c (step W c s op) ops

/-! ## What a request does -/

/-- a received event has an id of the provider -/
theorem received_signed {W : Webhook} {c : Config} {now : ℤ} {d : Delivery} {payload : JsValue}
    (h : received W c now d = .ok payload) : d.svixId ≠ [] := by
  intro hid
  unfold received at h
  split_ifs at h
  split at h
  · cases h
  rename_i raw hraw
  have hsign : signedByResend W c.webhookSecret now d raw ≠ some true := by
    unfold signedByResend
    by_cases hsecret : c.webhookSecret = []
    · simp [hsecret]
    · rw [if_neg hsecret]
      split <;> simp [hid]
  split at h
  · cases h
  · cases h
  · rename_i hsigned
    exact hsign hsigned

/-- `/inbound` adds at most the row of a received event, and only where it fits -/
theorem inbound_cases (W : Webhook) (c : Config) (messages later : List Message) (draw : Draw) (d : Delivery) :
    (inbound W c messages later draw d).2 = messages ∨
      ∃ payload row, received W c draw.now d = .ok payload ∧ row.eventId = d.svixId ∧ Table.Fits columns messages row ∧
        (inbound W c messages later draw d).2 = messages ++ [row] := by
  unfold inbound
  split
  · exact Or.inl rfl
  rename_i payload hpassed
  have hevent : eventIdOf W.platform d payload draw.id = d.svixId := by simp [eventIdOf, received_signed hpassed]
  dsimp only
  split
  · exact Or.inl rfl
  · unfold Table.insertOrIgnore
    split_ifs with hfits
    · exact Or.inr ⟨payload, _, hpassed, hevent, hfits, rfl⟩
    · exact Or.inl rfl
  · split_ifs with hfits
    · exact Or.inr ⟨payload, _, hpassed, hevent, hfits, rfl⟩
    · exact Or.inl rfl
    · exact Or.inl rfl

/-- `/pending` hands over messages of the table -/
theorem mem_pending {c : Config} {messages : List Message} {token : Units} {m : Message}
    (h : m ∈ (pending c messages token).handed) : m ∈ messages := by
  unfold pending at h
  split_ifs at h
  · cases h
  dsimp only at h
  split_ifs at h
  · exact (List.mem_insertionSort _).1 (List.mem_of_mem_take h)
  · cases h

/-! ## The invariant -/

structure Inv (s : Sys) : Prop where
  unique : Table.Unique columns s.messages
  /-- an acknowledged event is not pending -/
  gone : ∀ m ∈ s.messages, m.eventId ∉ s.acked
  /-- a message handed over is still there, or its event is acknowledged -/
  kept : ∀ m ∈ s.handed, m ∈ s.messages ∨ m.eventId ∈ s.acked
  once : ∀ m ∈ s.handed, ∀ n ∈ s.handed, m.eventId = n.eventId → m = n

theorem inv_start {s : Sys} (h : s.Start) : Inv s := by
  refine ⟨h.unique, ?_, ?_, ?_⟩
  · simp [h.acked]
  · simp [h.handed]
  · simp [h.handed]

theorem inv_inbound {W : Webhook} {c : Config} {s : Sys} {draw : Draw} {later : List Message} {d : Delivery}
    (h : Inv s) (hop : NotAgain W c s (.inbound draw later d)) : Inv (step W c s (.inbound draw later d)) := by
  simp only [step]
  rcases inbound_cases W c s.messages later draw d with heq | ⟨payload, row, hpassed, hevent, hfits, heq⟩
  · rw [heq]; exact h
  · rw [heq]
    refine { h with unique := h.unique.append hfits, gone := fun m hm => ?_, kept := fun m hm => ?_ }
    · rcases List.mem_append.1 hm with hm | hm
      · exact h.gone m hm
      · obtain rfl := List.mem_singleton.1 hm
        rw [hevent]
        exact hop payload hpassed
    · rcases h.kept m hm with hm | hm
      · exact Or.inl (List.mem_append_left _ hm)
      · exact Or.inr hm

theorem inv_pending {W : Webhook} {c : Config} {s : Sys} {token : Units} (h : Inv s) :
    Inv (step W c s (.pending token)) := by
  -- an old message of the event of a new one cannot be acknowledged, since the new one is pending
  have hcross : ∀ m ∈ s.handed, ∀ n ∈ s.messages, m.eventId = n.eventId → m = n := by
    intro m hm n hn hmn
    rcases h.kept m hm with hm | hm
    · exact h.unique.eq (by simp [columns]) hm hn hmn
    · exact absurd (hmn ▸ hm) (h.gone n hn)
  refine { h with kept := fun m hm => ?_, once := fun m hm n hn hmn => ?_ }
  · rcases List.mem_append.1 hm with hm | hm
    · exact h.kept m hm
    · exact Or.inl (mem_pending hm)
  · rcases List.mem_append.1 hm with hm | hm <;> rcases List.mem_append.1 hn with hn | hn
    · exact h.once m hm n hn hmn
    · exact hcross m hm n (mem_pending hn) hmn
    · exact (hcross n hn m (mem_pending hm) hmn.symm).symm
    · exact h.unique.eq (by simp [columns]) (mem_pending hm) (mem_pending hn) hmn

theorem inv_delete {s : Sys} (h : Inv s) (ids : List Units) : Inv (delete s ids) := by
  refine ⟨h.unique.filter _, fun m hm hacked => ?_, fun m hm => ?_, h.once⟩
  · obtain ⟨hm, hid⟩ := List.mem_filter.1 hm
    rcases List.mem_append.1 hacked with hacked | hacked
    · exact h.gone m hm hacked
    · obtain ⟨n, hn, hnm⟩ := List.mem_map.1 hacked
      obtain ⟨hn, hnid⟩ := List.mem_filter.1 hn
      obtain rfl := h.unique.eq (by simp [columns]) hn hm hnm
      simp_all
  · rcases h.kept m hm with hmem | hmem
    · by_cases hid : m.id ∈ ids
      · exact Or.inr (List.mem_append_right _ (List.mem_map.2 ⟨m, List.mem_filter.2 ⟨hmem, by simpa using hid⟩, rfl⟩))
      · exact Or.inl (List.mem_filter.2 ⟨hmem, by simpa using hid⟩)
    · exact Or.inr (List.mem_append_left _ hmem)

theorem step_inv {W : Webhook} {c : Config} {s : Sys} {op : Op} (h : Inv s) (hop : NotAgain W c s op) :
    Inv (step W c s op) := by
  cases op with
  | inbound draw later d => exact inv_inbound h hop
  | pending token => exact inv_pending h
  | ack token body write => exact inv_delete h _

theorem run_inv {W : Webhook} {c : Config} (ops : List Op) {s : Sys} (h : Inv s) (hops : NeverAgain W c s ops) :
    Inv (run W c s ops) := by
  induction ops generalizing s with
  | nil => exact h
  | cons op ops ih => exact ih (step_inv h hops.1) hops.2

/-! ## Results -/

/-- an event acknowledged before comes in again, and is pending again -/
theorem redelivered {W : Webhook} {c : Config} {s : Sys} {draw : Draw} {later : List Message} {d : Delivery}
    {payload : JsValue} (h : Inv s) (hpassed : received W c draw.now d = .ok payload) (hagain : d.svixId ∈ s.acked)
    (hid : ∀ m ∈ s.messages, m.id ≠ draw.id) (hwrite : draw.write = .done) :
    ∃ m ∈ (step W c s (.inbound draw later d)).messages, m.eventId = d.svixId := by
  have hevent : eventIdOf W.platform d payload draw.id = d.svixId := by simp [eventIdOf, received_signed hpassed]
  have hfits : Table.Fits columns s.messages ⟨draw.id, d.svixId, draw.receivedAt, some payload⟩ := by
    intro k hk m hm
    rcases List.mem_pair.1 hk with rfl | rfl
    · exact hid m hm
    · exact fun heq => h.gone m hm (by rw [heq]; exact hagain)
  refine ⟨⟨draw.id, d.svixId, draw.receivedAt, some payload⟩, ?_, rfl⟩
  simp [step, inbound, hpassed, hwrite, hevent, hfits]

/-- **One message an event.** In a run in which no event is stored after its acknowledgement, the messages handed over
for one event are one message, and no acknowledged event is pending. -/
theorem handed_once {W : Webhook} {c : Config} {s₀ : Sys} {ops : List Op} (h0 : s₀.Start)
    (hops : NeverAgain W c s₀ ops) :
    (∀ m ∈ (run W c s₀ ops).handed, ∀ n ∈ (run W c s₀ ops).handed, m.eventId = n.eventId → m = n) ∧
      ∀ m ∈ (run W c s₀ ops).messages, m.eventId ∉ (run W c s₀ ops).acked := by
  have h := run_inv ops (inv_start h0) hops
  exact ⟨h.once, h.gone⟩

/-! ## A sample -/

def sampleText : Units := encode "\x7b\"type\":\"email.received\"\x7d"

/-- `sampleText` as a value -/
def samplePayload : JsValue := .obj [(encode "type", .str (encode "email.received"))]

def sampleWebhook : Webhook where
  platform := ⟨fun _ => [], fun _ => [], id, fun _ s => s⟩
  parse s := if s = sampleText then some samplePayload else none
  number s := if s = encode "1000" then some 1000 else none
  sign key text :=
    if key = encode "AAAA" ∧ text = encode "evt_1.1000." ++ sampleText then
      some (encode "kPGRtn3GcKAteARf0krM4keJx++RjwWssP7pkDLhwQ4=")
    else none

def sampleConfig : Config := ⟨encode "ingest", encode "poll", encode "whsec_AAAA"⟩

def sampleDelivery : Delivery :=
  ⟨encode "ingest", encode "evt_1", encode "1000", encode "v1,kPGRtn3GcKAteARf0krM4keJx++RjwWssP7pkDLhwQ4=",
    some sampleText⟩

/-- a random id that ends in this digit -/
def sampleId (digit : String) : Units := encode ("00000000-0000-4000-8000-00000000000" ++ digit)

def sampleStart : Sys := ⟨[], [], []⟩

/-- the event comes in, with this random id -/
def sampleArrival (digit : String) : Op :=
  .inbound ⟨1000000, encode "1970-01-01T00:16:40.000Z", sampleId digit, .done⟩ [] sampleDelivery

def samplePoll : Op := .pending (encode "poll")

def sampleAck (digit : String) : Op :=
  .ack (encode "poll") (some (.obj [(encode "ids", .arr [.str (sampleId digit)])])) .done

theorem handed_once_sample :
    let s := run sampleWebhook sampleConfig sampleStart [sampleArrival "1", sampleArrival "2", samplePoll, sampleAck "1"]
    (s.handed.length = 1 ∧ s.acked = [encode "evt_1"]) ∧
      (∀ m ∈ s.handed, ∀ n ∈ s.handed, m.eventId = n.eventId → m = n) ∧ ∀ m ∈ s.messages, m.eventId ∉ s.acked := by
  refine ⟨by decide +kernel, handed_once ⟨by decide, rfl, rfl⟩ ?_⟩
  exact ⟨fun _ _ => List.not_mem_nil, fun _ _ => List.not_mem_nil, trivial, trivial, trivial⟩

/-- an event delivered again after its acknowledgement is handed over as a second message -/
theorem redelivered_handed_twice :
    let s := run sampleWebhook sampleConfig sampleStart
      [sampleArrival "1", samplePoll, sampleAck "1", sampleArrival "2", samplePoll]
    s.handed.map (fun m => (m.eventId, m.id)) =
        [(encode "evt_1", sampleId "1"), (encode "evt_1", sampleId "2")] ∧
      s.acked = [encode "evt_1"] ∧ s.messages.map Message.eventId = [encode "evt_1"] := by
  decide +kernel

end Rally.Worker.Inbox
