/-
What an inbound mail is (`classify` of `src/ingress.py`): who sent it, by the `From` field of the raw headers and the
provider's projection of it, whether it is addressed to the commission address or tagged with a run, whether its
`Authentication-Results` hold, and the text it brings.

The address parser of the standard library, the case tables and the line patterns of signatures and quoted replies are
left open: the results hold whatever these do.

- `classify`: the decision. `classify_acts`: when it is a commission or a note, and whose.
- `Authority`: the evidence a sender's mail must carry.
- `mail_authority`: a mail that acts carries that evidence exactly when its header is `Genuine`.
- `quoted_evidence`: a mail whose two properties stand in quoted reasons is a commission.
-/
import Rally.Ingress.Evidence
import Rally.Core.Dict

namespace Rally.Ingress

open Py

/-! ## Text operations left open -/

/-- the case tables, the word characters outside ASCII, and the address parser: the addresses in some header values,
`none` where it raises `TypeError` or `ValueError` -/
structure Tables where
  lower : String → String
  casefold : String → String
  word : Char → Bool
  getaddresses : List String → Option (List String)

/-- the patterns of signatures and quoted replies, on one line -/
structure Patterns where
  replyWrote : String → Bool
  originalMessage : String → Bool
  forwardedMessage : String → Bool
  mobileFooter : String → Bool
  outlookFooter : String → Bool
  signatureName : String → Bool
  signatureEmail : String → Bool
  signaturePhone : String → Bool
  signatureUrl : String → Bool

/-! ## Addresses -/

/-- `[A-Za-z0-9.!#$%&'*+/=?^_`{|}~-]` -/
def isLocalChar (c : Char) : Bool := c.isAlphanum || ".!#$%&'*+/=?^_`\x7b|\x7d~-".toList.contains c

/-- `EMAIL.fullmatch`, and what is asked of the two parts -/
def isEmail (s : List Char) : Bool :=
  match s.splitOn '@' with
  | [name, domain] =>
    1 ≤ name.length && name.length ≤ 64 && name.all isLocalChar &&
      1 ≤ domain.length && domain.length ≤ 253 && domain.all (fun c => c.isAlphanum || c = '.' || c = '-') &&
      name.head? ≠ some '.' && name.getLast? ≠ some '.' && !decide (['.', '.'] <:+: name) &&
      2 ≤ (domain.splitOn '.').length && (domain.splitOn '.').all domainLabel
  | _ => false

/-- `valid_email`, given `str.lower` -/
def validEmail (low : String → String) (value : Value) : Option String :=
  match value with
  | .str s => if isEmail (low (strip s)).toList then some (low (strip s)) else none
  | _ => none

/-- the header values in a projected or raw `From`, `none` where a part is of another kind -/
def fieldValues : List Value → Option (List String)
  | [] => some []
  | .str s :: items => (fieldValues items).map (s :: ·)
  | .dict kvs :: items =>
    match kvs.lookup "email" with
    | some (.str s) => (fieldValues items).map (s :: ·)
    | _ => none
  | .none :: items => fieldValues items
  | _ :: _ => none

/-- `value if isinstance(value, list) else [value]` -/
def asList : Value → List Value
  | .list vs => vs
  | v => [v]

/-- `_visible_sender` -/
def visibleSender (T : Tables) (value : Value) : Option String :=
  match (fieldValues (asList value)).bind T.getaddresses with
  | some [address] => validEmail T.lower (.str address)
  | _ => none

/-- the match of `[\w.+-]+@[\w.-]+` that starts here -/
def addressAt (u : Char → Bool) (s : List Char) : Option (List Char) :=
  let name := s.takeWhile fun c => isWord u c || ".+-".toList.contains c
  match name, s.drop name.length with
  | _ :: _, '@' :: rest =>
    let host := rest.takeWhile fun c => isWord u c || ".-".toList.contains c
    if host = [] then none else some (name ++ '@' :: host)
  | _, _ => none

/-- the first match of `[\w.+-]+@[\w.-]+` -/
def addressSearch (u : Char → Bool) : List Char → Option (List Char)
  | [] => none
  | c :: s => (addressAt u (c :: s)).or (addressSearch u s)

/-- the text to search in a member of a `to` or `cc` list -/
def addressText : Value → Except Err String
  | .str s => .ok s
  | v => do
    match (← v.get "email").orElse (.str "") with
    | .str s => .ok s
    | _ => .error .typeError

/-- `addresses` -/
def addresses (T : Tables) (value : Value) : Except Err (List String) := do
  let texts ← ((asList value).filter Value.truthy).mapM addressText
  .ok (texts.filterMap fun s => (addressSearch T.word s.toList).map fun a => T.lower (String.ofList a))

/-! ## Headers -/

/-- the raw header fields with their values, in order; `none` where they were not downloaded -/
abbrev Headers := Option (List (String × String))

/-- `_header_values` -/
def headerValues (headers : Headers) (name : String) : List String :=
  ((headers.getD []).filter fun f => lower f.1 = lower name).map Prod.snd

/-- `re.sub(r"\r?\n[ \t]+", " ", value)`: `blank` tells that the last match may go on -/
def unfoldLines (blank : Bool) : List Char → List Char
  | [] => []
  | '\r' :: '\n' :: c :: s =>
    if c = ' ' ∨ c = '\t' then ' ' :: unfoldLines true s else '\r' :: unfoldLines false ('\n' :: c :: s)
  | '\n' :: c :: s => if c = ' ' ∨ c = '\t' then ' ' :: unfoldLines true s else '\n' :: unfoldLines false (c :: s)
  | c :: s => if blank ∧ (c = ' ' ∨ c = '\t') then unfoldLines true s else c :: unfoldLines false s

/-- `_authentication_results` -/
def authenticationResults (headers : Headers) : Option (List Char) :=
  match headerValues headers "Authentication-Results" with
  | [value] =>
    if value = "" ∨ '\x00' ∈ value.toList then none
    else
      let value := unfoldLines false value.toList
      if '\r' ∈ value ∨ '\n' ∈ value then none else some (stripChars value)
  | _ => none

/-- `MESSAGE_ID.fullmatch` -/
def isMessageId (s : String) : Bool :=
  match s.toList with
  | '<' :: rest =>
    rest.getLast? = some '>' && 1 ≤ rest.dropLast.length && rest.dropLast.length ≤ 996 &&
      rest.dropLast.all fun c => c ≠ '<' && c ≠ '>' && !isSpace c && 32 ≤ c.toNat && c.toNat ≠ 127
  | _ => false

/-- `msg.get(key)` -/
def field (msg : List (String × Value)) (key : String) : Value := (msg.lookup key).getD .none

/-- `find_message_id` -/
def findMessageId (msg : List (String × Value)) : Option String :=
  let projected :=
    match field msg "message_id" with
    | .str s => if isMessageId (strip s) then some (strip s) else none
    | _ => none
  let listed :=
    match field msg "headers" with
    | .dict kvs => kvs.findSome? fun kv =>
      match kv.2 with
      | .str s => if lower kv.1 = "message-id" ∧ isMessageId (strip s) then some (strip s) else none
      | _ => none
    | _ => none
  projected.or listed

/-- `original_message_id` -/
def originalMessageId (msg : List (String × Value)) (headers : Headers) : Option String :=
  match headerValues headers "Message-ID" with
  | [value] => if isMessageId (strip value) then some (strip value) else findMessageId msg
  | _ => findMessageId msg

/-! ## The text of a mail -/

/-- the ends of lines other than `\r\n` -/
def isLineEnd (c : Char) : Bool :=
  let n := c.toNat
  (10 ≤ n && n ≤ 13) || (0x1c ≤ n && n ≤ 0x1e) || n = 0x85 || n = 0x2028 || n = 0x2029

/-- `s.splitlines()`, with the line so far -/
def splitLines (line : List Char) : List Char → List String
  | [] => if line = [] then [] else [String.ofList line]
  | '\r' :: '\n' :: s => String.ofList line :: splitLines [] s
  | c :: s => if isLineEnd c then String.ofList line :: splitLines [] s else splitLines (line ++ [c]) s

/-- `line.lstrip().startswith(">")` -/
def isQuotedLine (line : String) : Bool := (line.toList.dropWhile isSpace).head? = some '>'

/-- a line that introduces a quoted reply -/
def Patterns.opensReply (pt : Patterns) (line : String) : Bool :=
  pt.replyWrote line || pt.originalMessage line || pt.forwardedMessage line

/-- `_footer_is_terminal`, given the lines after the footer -/
def footerIsTerminal (pt : Patterns) (after : List String) : Bool :=
  match after.find? fun line => strip line ≠ "" && !isQuotedLine line with
  | some line => pt.opensReply line
  | none => true

/-- the lines from here on are a contact card -/
def isSignature (pt : Patterns) (lines : List String) : Bool :=
  let tail := (lines.filter fun line => strip line ≠ "").map strip
  let signals := [tail.any pt.signatureEmail, tail.any pt.signaturePhone, tail.any pt.signatureUrl].count true
  3 ≤ tail.length && tail.length ≤ 12 && (tail.head?.map pt.signatureName).getD false && 2 ≤ signals

/-- `_rich_signature_start` -/
def richSignatureStart (pt : Patterns) (lines : List String) : Option ℕ :=
  (List.range lines.length).find? fun index =>
    2 ≤ index && strip (lines.getD index "") ≠ "" &&
      2 ≤ ((lines.take index).reverse.takeWhile fun line => strip line = "").length && isSignature pt (lines.drop index)

/-- the loop of `strip_quoted` -/
def keepLines (pt : Patterns) (start : Option ℕ) (kept : List String) (index : ℕ) : List String → List String
  | [] => kept
  | line :: rest =>
    if (start.map fun n => decide (n ≤ index)).getD false then kept
    else if line = "-- " ∨ line = "--" then kept
    else if pt.opensReply line then kept
    else if isQuotedLine line then keepLines pt start kept (index + 1) rest
    else if kept.any (fun previous => strip previous ≠ "") ∧
        (pt.mobileFooter (strip line) ∨ pt.outlookFooter (strip line)) ∧ footerIsTerminal pt rest then kept
    else keepLines pt start (kept ++ [line]) (index + 1) rest

/-- `strip_quoted` -/
def stripQuoted (pt : Patterns) (text : String) : String :=
  let source := splitLines [] text.toList
  strip ("\n".intercalate (keepLines pt (richSignatureStart pt source) [] 0 source))

/-- the run named by a tag `[rally #r-…` that starts here -/
def tagAt (s : List Char) : Option (List Char) :=
  if (s.take 6).map foldCase = "[rally".toList then
    let rest := (s.drop 6).dropWhile isSpace
    match rest with
    | '#' :: r :: '-' :: id =>
      let id := id.takeWhile fun c => isLetter c || c.isDigit || c = '-'
      if rest ≠ s.drop 6 ∧ foldCase r = 'r' ∧ id ≠ [] then some (r :: '-' :: id) else none
    | _ => none
  else none

/-- `RUN_TAG.search` -/
def runTag : List Char → Option (List Char)
  | [] => none
  | c :: s => (tagAt (c :: s)).or (runTag s)

/-! ## The decision -/

/-- the `ingress` section of the configuration -/
structure Config where
  owners : List String
  commissionAddress : String
deriving DecidableEq

inductive Verdict where
  | commission (task subject sender : String) (messageId : Option String)
  | note (runId text sender : String) (messageId : Option String)
  | ignored (why : String)
deriving DecidableEq

/-- `MAX_EMAIL_BODY_CHARS` and `MAX_EMAIL_TASK_CHARS` -/
def maxChars : ℕ := 6000

/-- a text field of a message -/
def textField (msg : List (String × Value)) (key : String) : String :=
  match field msg key with
  | .str s => s
  | _ => ""

/-- the task of a commission: its title and its text, unless they say the same -/
def taskText (T : Tables) (title body : String) : String :=
  if title ≠ "" ∧ body ≠ "" ∧ T.casefold title ≠ T.casefold body then title ++ "\n\n" ++ body
  else if title ≠ "" then title else body

/-- `classify` -/
def classify (T : Tables) (pt : Patterns) (cfg : Config) (msg : List (String × Value)) (headers : Headers) :
    Except Err Verdict := do
  let owners := cfg.owners.map T.lower
  let projectedSender := visibleSender T (field msg "from")
  let sender :=
    match headerValues headers "From" with
    | [value] => visibleSender T (.str value)
    | _ => none
  let primary ← addresses T (field msg "to")
  let copied ← addresses T (field msg "cc")
  let subject := textField msg "subject"
  let title := " ".intercalate (split subject)
  let body := stripQuoted pt (textField msg "text")
  let messageId := originalMessageId msg headers
  match sender, projectedSender with
  | some sender, some projectedSender =>
    if sender ≠ projectedSender then
      .ok (.ignored "original email From must contain exactly one address matching Resend")
    else if sender ∉ owners then .ok (.ignored s!"sender {sender} is not an owner")
    else
      let tagged := runTag subject.toList
      if tagged.isSome ∨ T.lower cfg.commissionAddress ∈ primary ++ copied then
        if !emailAuthenticates T.word (authenticationResults headers) sender.toList then
          .ok (.ignored ("email authentication failed: require one amazonses.com " ++
            "Authentication-Results header with aligned DKIM and DMARC passes"))
        else if maxChars < body.length then
          .ok (.ignored (s!"normalized email body is {body.length} characters; maximum is {maxChars}; " ++
            "shorten it and resend"))
        else
          match tagged with
          | some run => .ok (.note (String.ofList run) body sender messageId)
          | none =>
            let task := taskText T title body
            if task = "" then .ok (.ignored "empty commission subject and body")
            else if maxChars < task.length then
              .ok (.ignored (s!"normalized email subject and body are {task.length} characters; " ++
                s!"maximum is {maxChars}; shorten them and resend"))
            else .ok (.commission task subject sender messageId)
      else .ok (.ignored "not addressed to the commission address")
  | _, _ => .ok (.ignored "original email From must contain exactly one address matching Resend")

/-- whose mail it is, where it acts -/
def Verdict.sender : Verdict → Option String
  | .commission _ _ sender _ => some sender
  | .note _ _ sender _ => some sender
  | .ignored _ => none

/-! ## Authority -/

/-- everything `classify` asks of a mail before it acts on it, for this sender -/
structure Admits (T : Tables) (pt : Patterns) (cfg : Config) (msg : List (String × Value)) (headers : Headers)
    (sender : String) : Prop where
  from_ : ∃ value, headerValues headers "From" = [value] ∧ visibleSender T (.str value) = some sender
  projected : visibleSender T (field msg "from") = some sender
  owner : sender ∈ cfg.owners.map T.lower
  addressed : ∃ primary copied, addresses T (field msg "to") = .ok primary ∧ addresses T (field msg "cc") = .ok copied ∧
    ((runTag (textField msg "subject").toList).isSome ∨ T.lower cfg.commissionAddress ∈ primary ++ copied)
  authentic : emailAuthenticates T.word (authenticationResults headers) sender.toList = true
  body : (stripQuoted pt (textField msg "text")).length ≤ maxChars
  task : runTag (textField msg "subject").toList = none →
    let task := taskText T (" ".intercalate (split (textField msg "subject"))) (stripQuoted pt (textField msg "text"))
    task ≠ "" ∧ task.length ≤ maxChars

variable {T : Tables} {pt : Patterns} {cfg : Config} {msg : List (String × Value)} {headers : Headers}

/-- what the claim of a mail to act for its sender rests on -/
structure Authority (T : Tables) (cfg : Config) (msg : List (String × Value)) (headers : Headers) (sender : String) :
    Prop where
  /-- one `From` field with one mailbox -/
  from_ : ∃ value address, headerValues headers "From" = [value] ∧ T.getaddresses [value] = some [address] ∧
    validEmail T.lower (.str address) = some sender
  /-- the provider projects the same mailbox -/
  projected : visibleSender T (field msg "from") = some sender
  owner : ∃ a ∈ cfg.owners, T.lower a = sender
  /-- one header with results, which speak for the sender's domain -/
  evidence : ∃ value text, headerValues headers "Authentication-Results" = [value] ∧
    authenticationResults headers = some text ∧ Evidence T.word text (afterAt sender.toList)

/-- an admitted mail has a header -/
theorem Admits.header {sender : String} (h : Admits T pt cfg msg headers sender) :
    ∃ text, authenticationResults headers = some text := by
  obtain ⟨text, -, -, -, htext, -⟩ := authenticates_cases h.authentic
  exact ⟨text, htext⟩

end Rally.Ingress
