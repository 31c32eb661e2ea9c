/-
The envelope of a credential (`KmsEnvelopeCipher` of `cloud/credential_vault.py`): a random key seals the credential with
AES-GCM, for one owner and one connector, and KMS wraps the key.

A credential is at most 64 KiB of UTF-8. What is sealed is its JSON, with quotes and escapes, and that is at most 64 KiB too.

- `open_seal`, `open_other`: an envelope opens with its own associated data, and with no other.
- `sealed_secrets_exact`: a credential that is stored, or that replaces another, is read back by its owner and opens for
  nobody else exactly where its JSON is not too long, and the one it replaces is ASCII.
- `longest_secret_refused`: the longest credential is not stored.
-/
import Rally.Core.Base64
import Rally.Cloud.Printed
import Rally.Cloud.VaultContract

namespace Rally.Cloud.Sealing

open Py Vault Vaults

/-! ## Bytes -/

abbrev Bytes := List UInt8

def utf8 (s : String) : Bytes := s.toByteArray.data.toList

/-- `none` where the bytes are not UTF-8 -/
def fromUtf8 (bytes : Bytes) : Option String := String.fromUTF8? ⟨bytes.toArray⟩

theorem fromUtf8_utf8 (s : String) : fromUtf8 (utf8 s) = some s := by
  rw [fromUtf8, utf8, Array.toArray_toList, String.fromUTF8?, dif_pos s.isValidUTF8]
  rfl

theorem utf8_injective : Function.Injective utf8 := by
  intro s t h
  have hsome := congrArg fromUtf8 h
  rw [fromUtf8_utf8, fromUtf8_utf8] at hsome
  exact Option.some.inj hsome

theorem length_utf8 (s : String) : (utf8 s).length = s.utf8ByteSize := rfl

/-- `_encode` -/
def encode (bytes : Bytes) : String := .ofList (Base64.encode bytes)

/-- only the last group of four characters is filled up -/
def finalPadding : List Char → Bool
  | _ :: _ :: _ :: z :: rest => (rest = [] || z ≠ '=') && finalPadding rest
  | _ => true

/-- `_decode`, `none` where it raises -/
def decode (value : String) : Option Bytes := if finalPadding value.toList then Base64.decode value.toList else none

theorem finalPadding_encode (bytes : Bytes) : finalPadding (Base64.encode bytes) = true := by
  induction bytes using Base64.encode.induct with
  | case1 => rfl
  | case2 a => rfl
  | case3 a b => rfl
  | case4 a b c rest ih =>
    have hc := c.toNat_lt
    have hlast := (Base64.value_char (n := c.toNat % 64) (by omega)).2
    simp [Base64.encode, finalPadding, hlast, ih]

theorem decode_encode (bytes : Bytes) : decode (encode bytes) = some bytes := by
  rw [decode, encode, String.toList_ofList, if_pos (finalPadding_encode bytes), Base64.decode_encode]

/-! ## The cipher -/

/-- AES-GCM and KMS -/
structure Crypto where
  /-- `AESGCM(dek).encrypt(nonce, plaintext, associated_data)` -/
  encrypt : Bytes → Bytes → Bytes → Bytes → Bytes
  /-- `AESGCM(dek).decrypt(nonce, ciphertext, associated_data)`, `none` where it raises -/
  decrypt : Bytes → Bytes → Bytes → Bytes → Option Bytes
  /-- KMS under the key of a name, with randomness of its own, `none` where it raises -/
  kmsEncrypt : String → Bytes → Bytes → Option Bytes
  kmsDecrypt : String → Bytes → Option Bytes

/-- the names that its constructor accepts -/
def isKeyName (s : String) : Bool := "projects/".toList.isPrefixOf s.toList && decide ("/cryptoKeys/".toList <:+: s.toList)

/-- `KmsEnvelopeCipher`, as the vault makes it -/
structure KmsEnvelopeCipher extends Crypto where
  keyName : String
  named : isKeyName keyName = true

def envelopeSchema : String := "rally.connector-secret/v1"

/-- what one sealing draws, and what KMS draws -/
structure Random where
  dek : Bytes
  nonce : Bytes
  salt : Bytes
  dekSize : dek.length = 32
  nonceSize : nonce.length = 12

namespace KmsEnvelopeCipher

variable (C : KmsEnvelopeCipher)

/-- `seal` -/
def sealEnvelope (random : Random) (plaintext data : Bytes) : Except VaultError Envelope :=
  if plaintext = [] ∨ maxSecretBytes < plaintext.length then .error .error
  else
    match C.kmsEncrypt C.keyName random.salt random.dek with
    | none => .error .error
    | some wrappedDek =>
      .ok ⟨envelopeSchema, encode random.nonce, encode (C.encrypt random.dek random.nonce plaintext data), encode wrappedDek,
        C.keyName⟩

/-- `open` -/
def openEnvelope (envelope : Envelope) (data : Bytes) : Except VaultError Bytes :=
  if envelope.schema ≠ envelopeSchema then .error .error
  else if envelope.kmsKey ≠ C.keyName then .error .error
  else
    match plaintext with
    | some bytes => .ok bytes
    | none => .error .error
where
  /-- the calls of KMS and AES -/
  plaintext : Option Bytes := do
    let wrappedDek ← decode envelope.wrappedDek
    let dek ← C.kmsDecrypt C.keyName wrappedDek
    let nonce ← decode envelope.nonce
    let ciphertext ← decode envelope.ciphertext
    C.decrypt dek nonce ciphertext data

end KmsEnvelopeCipher

/-- AES-GCM authenticates its associated data, and KMS works -/
structure Crypto.Sound (K : Crypto) : Prop where
  decrypts : ∀ dek nonce plaintext data, dek.length = 32 → nonce.length = 12 →
    K.decrypt dek nonce (K.encrypt dek nonce plaintext data) data = some plaintext
  authentic : ∀ dek nonce plaintext data other, dek.length = 32 → nonce.length = 12 → other ≠ data →
    K.decrypt dek nonce (K.encrypt dek nonce plaintext data) other = none
  unwraps : ∀ key salt dek, ∃ wrapped, K.kmsEncrypt key salt dek = some wrapped ∧ K.kmsDecrypt key wrapped = some dek

section Cipher

variable {C : KmsEnvelopeCipher} {random : Random} {plaintext data other : Bytes} {envelope : Envelope}

/-- what is not empty and not too long is sealed -/
theorem seal_ok (hC : C.Sound) (hne : plaintext ≠ []) (hlength : plaintext.length ≤ maxSecretBytes) :
    ∃ envelope, C.sealEnvelope random plaintext data = .ok envelope := by
  obtain ⟨wrapped, hwrap, -⟩ := hC.unwraps C.keyName random.salt random.dek
  rw [KmsEnvelopeCipher.sealEnvelope, if_neg (not_or.2 ⟨hne, not_lt.2 hlength⟩), hwrap]
  exact ⟨_, rfl⟩

theorem seal_long (hlength : maxSecretBytes < plaintext.length) : C.sealEnvelope random plaintext data = .error .error := by
  rw [KmsEnvelopeCipher.sealEnvelope, if_pos (.inr hlength)]

/-- opening an envelope decrypts what was encrypted -/
theorem plaintext_sealed (hC : C.Sound) (h : C.sealEnvelope random plaintext data = .ok envelope) (other : Bytes) :
    envelope.schema = envelopeSchema ∧ envelope.kmsKey = C.keyName ∧
      KmsEnvelopeCipher.openEnvelope.plaintext C envelope other =
        C.decrypt random.dek random.nonce (C.encrypt random.dek random.nonce plaintext data) other := by
  obtain ⟨wrapped, hwrap, hunwrap⟩ := hC.unwraps C.keyName random.salt random.dek
  rw [KmsEnvelopeCipher.sealEnvelope] at h
  split_ifs at h
  rw [hwrap] at h
  cases h
  exact ⟨rfl, rfl, by simp [KmsEnvelopeCipher.openEnvelope.plaintext, decode_encode, hunwrap]⟩

/-- an envelope opens -/
theorem open_seal (hC : C.Sound) (h : C.sealEnvelope random plaintext data = .ok envelope) :
    C.openEnvelope envelope data = .ok plaintext := by
  obtain ⟨hschema, hkey, hplain⟩ := plaintext_sealed hC h data
  rw [KmsEnvelopeCipher.openEnvelope, if_neg (not_not.2 hschema), if_neg (not_not.2 hkey), hplain,
    hC.decrypts _ _ _ _ random.dekSize random.nonceSize]

/-- an envelope does not open with other associated data -/
theorem open_other (hC : C.Sound) (h : C.sealEnvelope random plaintext data = .ok envelope) (hother : other ≠ data) :
    C.openEnvelope envelope other = .error .error := by
  obtain ⟨hschema, hkey, hplain⟩ := plaintext_sealed hC h other
  rw [KmsEnvelopeCipher.openEnvelope, if_neg (not_not.2 hschema), if_neg (not_not.2 hkey), hplain,
    hC.authentic _ _ _ _ _ random.dekSize random.nonceSize hother]

end Cipher

/-! ## The vault over the cipher -/

/-- the libraries with the cipher; what is opened is read as UTF-8 -/
def platform (C : KmsEnvelopeCipher) (L : Libs) : Platform where
  libs := L
  openEnvelope envelope data := (C.openEnvelope envelope (utf8 data)).toOption.bind fromUtf8

/-- the sealing of a credential for an owner and a connector -/
def sealing (C : KmsEnvelopeCipher) (L : Libs) (uid connectorId : String) (random : Random) (secret : ConnectorSecret) :
    Except VaultExn Envelope :=
  (C.sealEnvelope random (utf8 (payload L secret)) (utf8 (associatedData uid connectorId))).mapError .vault

/-- a write whose services all do what they are for -/
def writing (C : KmsEnvelopeCipher) (L : Libs) (uid connectorId : String) (draw : Draw) (random : Random)
    (secret : ConnectorSecret) : WriteInput :=
  ⟨draw, sealing C L uid connectorId random secret, .done, none⟩

/-- a document whose owner reads the credential, and whose envelope opens for no other owner and connector -/
structure Keeps (C : KmsEnvelopeCipher) (L : Libs) (uid connectorId : String) (secret : ConnectorSecret) (doc : Document) :
    Prop where
  read : ∃ record, getConnection (platform C L) uid connectorId ⟨none, none⟩ (some doc) = .ok (some ⟨record, secret⟩)
  apart : ∀ uid' connectorId', isConnectorId connectorId' = true → (uid', connectorId') ≠ (uid, connectorId) →
    C.openEnvelope doc.envelope (utf8 (associatedData uid' connectorId')) = .error .error

/-- a call holds a connection: the document is under its generation and lease, with the credential it expects -/
structure Held (C : KmsEnvelopeCipher) (L : Libs) (uid connectorId : String) (generation lease : String)
    (expected : ConnectorSecret) (doc : Document) : Prop where
  presents : Presents (platform C L) uid doc generation lease
  opens : ∃ record, openDocument (platform C L) uid connectorId doc = some ⟨record, expected⟩

section Vault

variable {C : KmsEnvelopeCipher} {L : Libs} {uid connectorId generation lease : String} {draw : Draw} {random : Random}
  {secret expected : ConnectorSecret} {doc : Document} {envelope : Envelope} {record : ConnectionRecord}

/-! ## Associated data -/

/-- the associated data names one owner and one connector -/
theorem associatedData_inj {uid' connectorId' : String} (h : isConnectorId connectorId = true)
    (h' : isConnectorId connectorId' = true) (hdata : associatedData uid connectorId = associatedData uid' connectorId') :
    (uid, connectorId) = (uid', connectorId') := by
  have hkey := @key_inj ("rally.connector-secret/v1\x00" ++ uid, connectorId)
    ("rally.connector-secret/v1\x00" ++ uid', connectorId') h h' hdata
  obtain ⟨huid, hconnector⟩ := Prod.mk.inj hkey
  have hlist := congrArg String.toList huid
  rw [String.toList_append, String.toList_append] at hlist
  exact Prod.ext (String.toList_injective (List.append_cancel_left hlist)) hconnector

/-! ## Payloads -/

/-- the JSON of a credential is read as it was written -/
theorem reads_payload (hL : ReadsBack L) (secret : ConnectorSecret) : Reads L secret := by
  apply hL
  refine ⟨by simp [Dict.Ok], ?_⟩
  simp only [List.forall_mem_cons]
  exact ⟨.text _, .text _, by simp⟩

theorem payload_ne (L : Libs) (secret : ConnectorSecret) : utf8 (payload L secret) ≠ [] := by
  intro h
  have hempty : utf8 "" = [] := rfl
  have hlist := congrArg String.toList (utf8_injective (h.trans hempty.symm))
  rw [payload, dumps, String.toList_ofList] at hlist
  cases hlist

/-- a credential is sealed exactly where its JSON is not too long -/
theorem sealing_iff (hC : C.Sound) :
    (∃ envelope, sealing C L uid connectorId random secret = .ok envelope) ↔ Sealable L secret := by
  rw [sealing, Sealable, ← length_utf8]
  constructor
  · rintro ⟨envelope, h⟩
    by_contra hlong
    rw [seal_long (not_le.1 hlong)] at h
    cases h
  · intro hlength
    obtain ⟨envelope, h⟩ := @seal_ok C random _ (utf8 (associatedData uid connectorId)) hC (payload_ne L secret) hlength
    exact ⟨envelope, by rw [h]; rfl⟩

/-! ## Reading back -/

theorem sealed_envelope (h : sealing C L uid connectorId random secret = .ok envelope) :
    C.sealEnvelope random (utf8 (payload L secret)) (utf8 (associatedData uid connectorId)) = .ok envelope :=
  mapError_ok h

theorem openSecret_sealed (hC : C.Sound) (hL : ReadsBack L) (h : sealing C L uid connectorId random secret = .ok envelope)
    (henvelope : doc.envelope = envelope) : openSecret (platform C L) uid connectorId doc = some secret := by
  apply openSecret_payload _ (reads_payload hL secret)
  simp only [platform, henvelope, open_seal hC (sealed_envelope h), Except.toOption, Option.bind_some, fromUtf8_utf8]

/-- a document with the envelope of a credential keeps it -/
theorem keeps_sealed (hC : C.Sound) (hL : ReadsBack L) (hid : isConnectorId connectorId = true)
    (h : sealing C L uid connectorId random secret = .ok envelope) (henvelope : doc.envelope = envelope)
    (howner : doc.ownerHash = ownerHash (platform C L) uid) (hrecord : publicRecord doc.record = some record) :
    Keeps C L uid connectorId secret doc where
  read := by
    have hopen : openDocument (platform C L) uid connectorId doc = some ⟨record, secret⟩ := by
      rw [openDocument, openSecret_sealed hC hL h henvelope, hrecord]
    refine ⟨record, ?_⟩
    simp [getConnection, hid, howner, hopen]
  apart := by
    intro uid' connectorId' hid' hne
    rw [henvelope]
    apply open_other hC (sealed_envelope h)
    intro hdata
    exact hne (associatedData_inj hid' hid (utf8_injective hdata))

/-! ## Storing -/

theorem put_refused (h : isConnectorId connectorId = false) :
    put (platform C L) uid connectorId (writing C L uid connectorId draw random secret) secret none =
      (.error (.vault .error), none) := by
  simp [put, h]

/-- what `put` stores and answers where the credential is sealed -/
theorem put_sealed (hid : isConnectorId connectorId = true) (h : sealing C L uid connectorId random secret = .ok envelope) :
    put (platform C L) uid connectorId (writing C L uid connectorId draw random secret) secret none =
      (.ok (some (newRecord connectorId secret draw)),
        some ⟨ownerHash (platform C L) uid, newRecord connectorId secret draw, envelope⟩) := by
  have hrecord : publicRecord (newRecord connectorId secret draw) = some (newRecord connectorId secret draw) :=
    publicRecord_valid hid normalize_nil
  simp [put, hid, writing, h, putTransaction, stores, transact, publicAnswer, hrecord]

theorem put_unsealable (h : ¬ Sealable L secret) :
    put (platform C L) uid connectorId (writing C L uid connectorId draw random secret) secret none =
      (.error (.vault .error), none) := by
  have hlong : maxSecretBytes < (utf8 (payload L secret)).length := not_le.1 h
  have hsealing : sealing C L uid connectorId random secret = .error (.vault .error) := by
    rw [sealing, seal_long hlong]
    rfl
  cases hid : isConnectorId connectorId <;> simp [put, hid, writing, hsealing]

theorem put_iff (hC : C.Sound) (hL : ReadsBack L) :
    (∃ record doc, put (platform C L) uid connectorId (writing C L uid connectorId draw random secret) secret none =
        (.ok (some record), some doc) ∧ Keeps C L uid connectorId secret doc) ↔
      isConnectorId connectorId = true ∧ Sealable L secret := by
  constructor
  · rintro ⟨record, doc, hput, -⟩
    cases hid : isConnectorId connectorId with
    | false =>
      rw [put_refused hid] at hput
      cases hput
    | true =>
      refine ⟨rfl, ?_⟩
      by_contra hlong
      rw [put_unsealable hlong] at hput
      cases hput
  · rintro ⟨hid, hsealable⟩
    obtain ⟨envelope, henvelope⟩ := (sealing_iff hC).2 hsealable
    exact ⟨_, _, put_sealed hid henvelope,
      keeps_sealed hC hL hid henvelope rfl rfl (publicRecord_valid hid normalize_nil)⟩

/-! ## Replacing -/

theorem publicRecord_rotated (h : publicRecord doc.record = some record) (secret : ConnectorSecret) (envelope : Envelope)
    (draw : Draw) : ∃ record, publicRecord (rotated doc secret envelope draw).record = some record := by
  rw [publicRecord] at h
  split_ifs at h with hid
  cases htools : normalizeCertifiedTools doc.record.certifiedTools with
  | error e => rw [htools] at h; cases h
  | ok tools =>
    simp only [publicRecord, rotated, if_neg hid, htools]
    exact ⟨_, rfl⟩

theorem sameSecret_self (expected : ConnectorSecret) :
    sameSecret expected expected = if isAscii expected.value then some true else none := by
  simp [sameSecret, compareDigest]

/-- what `rotate` stores and answers where the new credential is sealed -/
theorem rotate_sealed (hid : isConnectorId connectorId = true) (hheld : Held C L uid connectorId generation lease expected doc)
    (hkind : secret.kind = expected.kind) (h : sealing C L uid connectorId random secret = .ok envelope) :
    rotate (platform C L) uid connectorId (writing C L uid connectorId draw random secret) generation lease expected secret
        (some doc) =
      if isAscii expected.value then
        ((publicRecord (rotated doc secret envelope draw).record).elim (.error (.vault .error)) fun record => .ok (some record),
          some (rotated doc secret envelope draw))
      else (.error (.vault .error), some doc) := by
  obtain ⟨record, hopens⟩ := hheld.opens
  have hpresenting : presenting (platform C L) uid connectorId none generation lease (some doc) = .ok (some (doc, expected)) := by
    simp [presenting, hheld.presents, (openDocument_some hopens).1]
  simp only [rotate, hid, writing, h, rotateTransaction, hpresenting, sameSecret_self, if_neg (not_not.2 hkind)]
  by_cases hascii : isAscii expected.value = true
  · simp only [if_pos hascii, transact, Bool.not_true, Bool.false_eq_true, if_false]
    cases publicRecord (rotated doc secret envelope draw).record <;> rfl
  · simp only [if_neg hascii, transact, Bool.not_true, Bool.false_eq_true, if_false]

theorem rotate_iff (hC : C.Sound) (hL : ReadsBack L) (hheld : Held C L uid connectorId generation lease expected doc)
    (hkind : secret.kind = expected.kind) :
    (∃ record doc', rotate (platform C L) uid connectorId (writing C L uid connectorId draw random secret) generation lease
        expected secret (some doc) = (.ok (some record), some doc') ∧ Keeps C L uid connectorId secret doc') ↔
      isConnectorId connectorId = true ∧ Sealable L secret ∧ isAscii expected.value = true := by
  constructor
  · rintro ⟨record, doc', hrotate, -⟩
    cases hid : isConnectorId connectorId with
    | false => simp [rotate, hid] at hrotate
    | true =>
      refine ⟨rfl, ?_⟩
      cases hsealing : sealing C L uid connectorId random secret with
      | error e => simp [rotate, hid, writing, hsealing] at hrotate
      | ok envelope =>
        refine ⟨(sealing_iff hC).1 ⟨envelope, hsealing⟩, ?_⟩
        rw [rotate_sealed hid hheld hkind hsealing] at hrotate
        split_ifs at hrotate with hascii
        · exact hascii
        · cases hrotate
  · rintro ⟨hid, hsealable, hascii⟩
    obtain ⟨envelope, henvelope⟩ := (sealing_iff hC).2 hsealable
    obtain ⟨stored, hopens⟩ := hheld.opens
    obtain ⟨record, hrecord⟩ := publicRecord_rotated (openDocument_some hopens).2 secret envelope draw
    refine ⟨record, rotated doc secret envelope draw, ?_, ?_⟩
    · rw [rotate_sealed hid hheld hkind henvelope, if_pos hascii, hrecord]
      rfl
    · exact keeps_sealed hC hL hid henvelope rfl hheld.presents.1 hrecord

/-- **Sealed secrets.** A credential that is stored is kept exactly where the connector has a valid name and its JSON is not too
long to seal; one that replaces another of its kind, exactly where that one is ASCII too. -/
theorem sealed_secrets_exact (hC : C.Sound) (hL : ReadsBack L) (uid connectorId : String) (secret : ConnectorSecret)
    (draw : Draw) (random : Random) :
    ((∃ record doc, put (platform C L) uid connectorId (writing C L uid connectorId draw random secret) secret none =
          (.ok (some record), some doc) ∧ Keeps C L uid connectorId secret doc) ↔
        isConnectorId connectorId = true ∧ Sealable L secret) ∧
      ∀ generation lease expected doc, Held C L uid connectorId generation lease expected doc → secret.kind = expected.kind →
        ((∃ record doc', rotate (platform C L) uid connectorId (writing C L uid connectorId draw random secret) generation
            lease expected secret (some doc) = (.ok (some record), some doc') ∧ Keeps C L uid connectorId secret doc') ↔
          isConnectorId connectorId = true ∧ Sealable L secret ∧ isAscii expected.value = true) :=
  ⟨put_iff hC hL, fun _ _ _ _ hheld hkind => rotate_iff hC hL hheld hkind⟩

end Vault

/-! ## A longest credential -/

/-- associated data before a plaintext, told apart by marks -/
def frame : Bytes → Bytes → Bytes
  | [], plaintext => 1 :: plaintext
  | b :: data, plaintext => 0 :: b :: frame data plaintext

def unframe : Bytes → Option (Bytes × Bytes)
  | 1 :: plaintext => some ([], plaintext)
  | 0 :: b :: rest => (unframe rest).map fun p => (b :: p.1, p.2)
  | _ => none

theorem unframe_frame (data plaintext : Bytes) : unframe (frame data plaintext) = some (data, plaintext) := by
  induction data with
  | nil => rfl
  | cons b data ih => simp [frame, unframe, ih]

/-- a cipher that hides nothing, but checks its associated data -/
def openCrypto : Crypto where
  encrypt _ _ plaintext data := frame data plaintext
  decrypt _ _ ciphertext data := (unframe ciphertext).bind fun p => if p.1 = data then some p.2 else none
  kmsEncrypt _ _ dek := some dek
  kmsDecrypt _ wrapped := some wrapped

theorem openCrypto_sound : openCrypto.Sound where
  decrypts dek nonce plaintext data _ _ := by simp [openCrypto, unframe_frame]
  authentic dek nonce plaintext data other _ _ hother := by simp [openCrypto, unframe_frame, Ne.symm hother]
  unwraps key salt dek := ⟨dek, rfl, rfl⟩

def sampleCipher : KmsEnvelopeCipher where
  toCrypto := openCrypto
  keyName := "projects/rally/locations/eu/keyRings/r/cryptoKeys/k"
  named := by decide

def sampleLibs : Libs := { sampleGoogle.libs with loads := jsonLoads fun _ => .fin 0 }

def sampleDraw : Draw := ⟨0, 0, "1970-01-01T00:00:00Z", "0123456789abcdef0123456789abcdef"⟩

def sampleRandom : Random where
  dek := List.replicate 32 7
  nonce := List.replicate 12 9
  salt := []
  dekSize := rfl
  nonceSize := rfl

/-- a document under a lease, with the envelope of a token -/
def leasedDocument (envelope : Envelope) : Document where
  ownerHash := ownerHash (platform sampleCipher sampleLibs) "ann"
  record :=
    { newRecord "slack" sampleToken sampleDraw with status := "ready", executionLease := some "fedcba9876543210fedcba9876543210" }
  envelope := envelope

/-- a token is stored and kept, and under a lease another one takes its place -/
theorem token_kept :
    (∃ record doc, put (platform sampleCipher sampleLibs) "ann" "slack"
          (writing sampleCipher sampleLibs "ann" "slack" sampleDraw sampleRandom sampleToken) sampleToken none =
        (.ok (some record), some doc) ∧ Keeps sampleCipher sampleLibs "ann" "slack" sampleToken doc) ∧
      ∃ leased record doc, rotate (platform sampleCipher sampleLibs) "ann" "slack"
          (writing sampleCipher sampleLibs "ann" "slack" sampleDraw sampleRandom sampleToken) sampleDraw.fresh
          "fedcba9876543210fedcba9876543210" sampleToken sampleToken (some leased) = (.ok (some record), some doc) ∧
        Keeps sampleCipher sampleLibs "ann" "slack" sampleToken doc := by
  have hreads : ReadsBack sampleLibs := jsonLoads_readsBack rfl
  have hsealable : Sealable sampleLibs sampleToken := by decide
  have hexact := sealed_secrets_exact (C := sampleCipher) openCrypto_sound hreads "ann" "slack" sampleToken sampleDraw sampleRandom
  obtain ⟨envelope, henvelope⟩ := (@sealing_iff sampleCipher sampleLibs "ann" "slack" sampleRandom sampleToken openCrypto_sound).2
    hsealable
  have hopens : openDocument (platform sampleCipher sampleLibs) "ann" "slack" (leasedDocument envelope) =
      some ⟨(leasedDocument envelope).record, sampleToken⟩ := by
    rw [openDocument, openSecret_sealed openCrypto_sound hreads henvelope rfl, publicRecord_valid (show isConnectorId "slack" = true by decide)
      normalize_nil]
  exact ⟨hexact.1.2 ⟨by decide, hsealable⟩, leasedDocument envelope,
    (hexact.2 _ _ _ _ ⟨⟨rfl, rfl, rfl, rfl⟩, _, hopens⟩ rfl).2 ⟨by decide, hsealable, by decide⟩⟩

/-- a text of letters -/
def letters (n : ℕ) : String := .ofList (List.replicate n 'a')

theorem utf8Len_letters (n : ℕ) : String.utf8Len (List.replicate n 'a') = n := by
  induction n with
  | zero => rfl
  | succ n ih =>
    rw [List.replicate_succ, String.utf8Len_cons, ih]
    rfl

theorem size_letters (n : ℕ) : (letters n).utf8ByteSize = n := by
  rw [letters, String.utf8ByteSize_ofList, utf8Len_letters]

theorem escape_letters (n : ℕ) : (List.replicate n 'a').flatMap (escape true) = List.replicate n 'a' := by
  induction n with
  | zero => rfl
  | succ n ih =>
    have hone : escape true 'a' = ['a'] := rfl
    rw [List.replicate_succ, List.flatMap_cons, ih, hone, List.singleton_append]

/-- the JSON of letters is longer than they are -/
theorem payload_letters (L : Libs) {n : ℕ} {secret : ConnectorSecret} (h : secret.value = letters n) :
    n < (payload L secret).utf8ByteSize := by
  have hquote : 0 < '"'.utf8Size := by decide
  rw [payload, dumps, String.utf8ByteSize_ofList]
  simp only [jsonChars, jsonMembers, h, letters, jsonString, compactAscii, String.toList_ofList, escape_letters,
    String.utf8Len_append, String.utf8Len_cons, utf8Len_letters]
  omega

/-- as long as a credential may be -/
def longestSecret : ConnectorSecret where
  value := letters maxSecretBytes
  kind := .apiKey
  sound := by
    have hne : letters maxSecretBytes ≠ "" := by
      intro hempty
      have hsize := size_letters maxSecretBytes
      rw [hempty] at hsize
      cases hsize
    have hplain : ∀ c ∈ (letters maxSecretBytes).toList, c = 'a' := by
      intro c hc
      rw [letters, String.toList_ofList] at hc
      exact List.eq_of_mem_replicate hc
    simp only [secretText, size_letters, Bool.and_eq_true, decide_eq_true_eq, List.all_eq_true]
    refine ⟨⟨hne, le_refl _⟩, fun c hc => ?_⟩
    rw [hplain c hc]
    decide

/-- the longest credential is accepted and not stored -/
theorem longest_secret_refused :
    longestSecret.value.utf8ByteSize = maxSecretBytes ∧ isConnectorId "slack" = true ∧
      put (platform sampleCipher sampleLibs) "ann" "slack"
          (writing sampleCipher sampleLibs "ann" "slack" sampleDraw sampleRandom longestSecret) longestSecret none =
        (.error (.vault .error), none) := by
  have hvalue : longestSecret.value = letters maxSecretBytes := rfl
  have hlong : ¬ Sealable sampleLibs longestSecret := not_le.2 (payload_letters sampleLibs hvalue)
  exact ⟨by rw [hvalue, size_letters], by decide, put_unsealable hlong⟩

end Rally.Cloud.Sealing
