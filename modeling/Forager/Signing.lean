import Mathlib.Algebra.Order.Ring.Abs
import Forager.Base64
import Forager.GoTime
import Forager.JsonDecode
import Forager.Registry

/-!
# Signed messages

`pkg/signing`: `Signer.Sign` of the API server and `Verifier.Verify` of the
agent. A message is JSON text; the signature covers `signed_payload`, a JSON
object of its own that repeats some fields of the message. `Verify` compares
these with the message, the time of signing with the clock and the nonce with
those it has seen.

Ed25519 is a parameter. A clock reading is an input of the call that makes it.
-/

namespace Forager

open GoJson JsonText GoTime

abbrev Text := List Char

/-- `crypto/ed25519`: keys and signatures are byte strings. -/
structure Ed25519 where
  sign : List UInt8 → String → List UInt8
  verify : List UInt8 → String → List UInt8 → Bool

/-! ## Signing -/

structure Signer where
  privateKey : List UInt8
  keyID : String

def signingFields : List (String × List String) :=
  [("datasource_config_sync", ["action", "account_id", "datasources"]),
   ("db_query", ["action", "datasource_id", "params"]),
   ("db_execute", ["action", "datasource_id", "params"]),
   ("db_metadata", ["action", "datasource_id", "params"]),
   ("ssh_command", ["action", "datasource_id", "params"]),
   ("ssh_upload", ["action", "datasource_id", "params"]),
   ("ssh_download", ["action", "datasource_id", "params"]),
   ("ssh_list_dir", ["action", "datasource_id", "params"]),
   ("http_request", ["action", "datasource_id", "method", "url", "header", "body"]),
   ("mcp_request", ["action", "datasource_id", "params"]),
   ("redis_command", ["action", "datasource_id", "params"]),
   ("mongo_query", ["action", "datasource_id", "params"]),
   ("mongo_aggregate", ["action", "datasource_id", "params"])]

def defaultSigningFields : List String := ["action", "datasource_id", "params"]

def signingFieldsFor (action : String) : List String :=
  (signingFields.lookup action).getD defaultSigningFields

def rawFields (msg : Text) : Option (Go.StrMap Json) × Bool := unmarshal none (mapOf .null raw) msg

/-- The action that `Sign` looks the fields up by. -/
def signingAction (raw : Go.StrMap Json) : String :=
  let action := (raw.get "action").elim "" fun j => (string "" j).1
  if action ≠ "" then action
  else match raw.get "body" with
    | none => ""
    | some body => match mapOf Json.null GoJson.raw none body with
      | (some body, true) => (body.get "action_name").elim "" fun j => (string "" j).1
      | _ => ""

/-- One field to sign, if the message has it. -/
def selectField (raw payload : Go.StrMap Json) (field : String) : Go.StrMap Json :=
  match raw.get field with
  | some val => payload.insert field val
  | none => payload

/-- `signPayload`: the fields to sign that the message has. -/
def signPayload (raw : Go.StrMap Json) : Go.StrMap Json :=
  (signingFieldsFor (signingAction raw)).foldl (selectField raw) []

def marshalRaw (m : Go.StrMap Json) : Json := .obj (m.map fun e => (quote e.1, htmlEscape e.2))

def signedPayloadText (raw : Go.StrMap Json) : String :=
  String.ofList (print (marshalRaw (signPayload raw)))

/-- The metadata that one call of `Sign` adds to a message. -/
structure Production where
  signedPayload : String
  signature : String
  signedAt : String
  nonce : String
deriving DecidableEq, Repr

/-- The metadata for the fields `raw`, at time `now` and with the UUID `nonce`. -/
def produce (ed : Ed25519) (s : Signer) (now : Int) (nonce : String) (raw : Go.StrMap Json) :
    Production :=
  let payload := signedPayloadText raw
  { signedPayload := payload
    signature := String.ofList (Base64.encode (ed.sign s.privateKey payload))
    signedAt := formatRFC3339 now
    nonce := nonce }

inductive SignError
  | invalidJSON
  /-- The message is `null`: the assignment to the nil map panics. -/
  | nilMap
deriving DecidableEq, Repr

def sign (ed : Ed25519) (s : Signer) (now : Int) (nonce : String) (msg : Text) :
    Except SignError Text :=
  match rawFields msg with
  | (_, false) => .error .invalidJSON
  | (none, true) => .error .nilMap
  | (some raw, true) =>
    let p := produce ed s now nonce raw
    let str (s : String) : Json := .str (quote s)
    let raw := raw.insert "signed_payload" (str p.signedPayload)
    let raw := raw.insert "signature" (str p.signature)
    let raw := raw.insert "signed_at" (str p.signedAt)
    let raw := raw.insert "nonce" (str p.nonce)
    let raw := if s.keyID ≠ "" then raw.insert "key_id" (str s.keyID) else raw
    .ok (print (marshalRaw raw))

/-! ## Verification -/

structure SignatureEnvelope where
  signedPayload : String := ""
  signature : String := ""
  signedAt : String := ""
  nonce : String := ""
  keyID : String := ""
deriving DecidableEq, Repr

def signatureEnvelopeFields : List (StructField SignatureEnvelope) :=
  [field "signed_payload" (·.signedPayload) (fun e v => { e with signedPayload := v }) string,
   field "signature" (·.signature) (fun e v => { e with signature := v }) string,
   field "signed_at" (·.signedAt) (fun e v => { e with signedAt := v }) string,
   field "nonce" (·.nonce) (fun e v => { e with nonce := v }) string,
   field "key_id" (·.keyID) (fun e v => { e with keyID := v }) string]

def signatureEnvelope (msg : Text) : SignatureEnvelope × Bool :=
  unmarshal {} (struct signatureEnvelopeFields) msg

structure Verifier where
  publicKey : List UInt8
  enabled : Bool
  seenNonces : GoMap Int

/-- The clock readings of one call: for the window, for the nonce and for the
eviction. -/
structure Clock where
  window : Int
  record : Int
  evict : Int
deriving DecidableEq, Repr

def maxTimestampSkew : Int := 5 * minute

def maxNonces : Nat := 10000

inductive PayloadError
  | payloadNotJSON
  | messageNotJSON
  | fieldNotFound (key : String)
  | badPayloadValue (key : String)
  | badMessageValue (key : String)
  | substituted (key : String)
deriving DecidableEq, Repr

inductive VerifyError
  | envelope
  | missingSignature
  | missingPayload
  | missingSignedAt
  | missingNonce
  | badSignedAt
  | outsideWindow
  | badEncoding
  | badSignature
  | payload (err : PayloadError)
  | replay (nonce : String)
deriving DecidableEq, Repr

def absDuration (d : Int) : Int := if d < 0 then wrap64 (-d) else d

/-- `canonicalJSON`. Two values marshal to the same text exactly if they are
equal, so the value stands for its text. -/
def canonicalJSON (raw : Json) : Option Go.Any :=
  match anyOf raw with
  | (v, true) => some v
  | (_, false) => none

/-- The loop of `verifyPayloadMatchesMessage`; the order only decides which
mismatch is reported. -/
def matchFields (msgFields : Go.StrMap Json) : Go.StrMap Json → Except PayloadError Unit
  | [] => .ok ()
  | (key, payloadVal) :: rest =>
    match msgFields.get key with
    | none => .error (.fieldNotFound key)
    | some msgVal =>
      match canonicalJSON payloadVal, canonicalJSON msgVal with
      | none, _ => .error (.badPayloadValue key)
      | some _, none => .error (.badMessageValue key)
      | some a, some b => if a = b then matchFields msgFields rest else .error (.substituted key)

def verifyPayloadMatchesMessage (signedPayload : String) (msg : Text) : Except PayloadError Unit :=
  match rawFields signedPayload.toList with
  | (_, false) => .error .payloadNotJSON
  | (payloadFields, true) => match rawFields msg with
    | (_, false) => .error .messageNotJSON
    | (msgFields, true) => matchFields (msgFields.getD []) (payloadFields.getD [])

/-- The nonces recorded at `cutoff` or later. -/
def evictBefore (cutoff : Int) (m : GoMap Int) : GoMap Int :=
  ⟨m.entries.filter fun e => cutoff ≤ e.2, m.nodupKeys.sublist List.filter_sublist⟩

/-- `checkAndRecordNonce`: whether the nonce was seen, and the table after. -/
def checkAndRecordNonce (seen : GoMap Int) (clock : Clock) (nonce : String) : Bool × GoMap Int :=
  if (seen.lookup nonce).isSome then (true, seen)
  else
    let seen := seen.insert nonce clock.record
    if seen.entries.length > maxNonces ∧ seen.entries.length % 100 = 0 then
      (false, evictBefore (clock.evict - maxTimestampSkew * 2) seen)
    else (false, seen)

def verifySignature (ed : Ed25519) (v : Verifier) (now : Int) (msg : Text) :
    Except VerifyError SignatureEnvelope :=
  match signatureEnvelope msg with
  | (_, false) => .error .envelope
  | (env, true) =>
    if env.signature = "" then .error .missingSignature
    else if env.signedPayload = "" then .error .missingPayload
    else if env.signedAt = "" then .error .missingSignedAt
    else if env.nonce = "" then .error .missingNonce
    else match parseRFC3339 env.signedAt.toList with
      | none => .error .badSignedAt
      | some signedAt =>
        if absDuration (sub now signedAt) > maxTimestampSkew then .error .outsideWindow
        else match Base64.decode env.signature.toList with
          | none => .error .badEncoding
          | some sig =>
            if ¬ ed.verify v.publicKey env.signedPayload sig then .error .badSignature
            else match verifyPayloadMatchesMessage env.signedPayload msg with
              | .error err => .error (.payload err)
              | .ok () => .ok env

def verify (ed : Ed25519) (v : Verifier) (clock : Clock) (msg : Text) :
    Except VerifyError Unit × Verifier :=
  if ¬ v.enabled then (.ok (), v)
  else match verifySignature ed v clock.window msg with
    | .error err => (.error err, v)
    | .ok env => match checkAndRecordNonce v.seenNonces clock env.nonce with
      | (true, _) => (.error (.replay env.nonce), v)
      | (false, seen) => (.ok (), { v with seenNonces := seen })

/-- What `Verify` checks of a message before the nonce. -/
structure Passed (ed : Ed25519) (v : Verifier) (now : Int) (msg : Text) (env : SignatureEnvelope) :
    Prop where
  decoded : signatureEnvelope msg = (env, true)
  signature_ne : env.signature ≠ ""
  payload_ne : env.signedPayload ≠ ""
  signedAt_ne : env.signedAt ≠ ""
  nonce_ne : env.nonce ≠ ""
  window : ∃ signedAt, parseRFC3339 env.signedAt.toList = some signedAt ∧
    absDuration (sub now signedAt) ≤ maxTimestampSkew
  signed : ∃ sig, Base64.decode env.signature.toList = some sig ∧
    ed.verify v.publicKey env.signedPayload sig = true
  matched : verifyPayloadMatchesMessage env.signedPayload msg = .ok ()

namespace SigningLemmas

variable {ed : Ed25519} {v : Verifier} {now : Int} {clock : Clock} {msg : Text}
  {env : SignatureEnvelope}

theorem verifySignature_ok_iff :
    verifySignature ed v now msg = .ok env ↔ Passed ed v now msg env := by
  constructor
  · intro h
    unfold verifySignature at h
    split at h
    · cases h
    · next env' hdec =>
      split at h
      · cases h
      split at h
      · cases h
      split at h
      · cases h
      split at h
      · cases h
      split at h
      · cases h
      next hsig hpay hat hnonce _ t ht =>
      split at h
      · cases h
      split at h
      · cases h
      next hwin _ sig hdecode =>
      split at h
      · cases h
      split at h
      · cases h
      next hver _ hmatch =>
      cases h
      exact ⟨hdec, hsig, hpay, hat, hnonce, ⟨t, ht, not_lt.mp hwin⟩,
        ⟨sig, hdecode, not_not.mp hver⟩, hmatch⟩
  · rintro ⟨hdec, hsig, hpay, hat, hnonce, ⟨t, ht, hwin⟩, ⟨sig, hdecode, hver⟩, hmatch⟩
    simp [verifySignature, hdec, hsig, hpay, hat, hnonce, ht, not_lt.mpr hwin, hdecode, hver,
      hmatch]

theorem verify_ok_iff (hen : v.enabled = true) : (verify ed v clock msg).1 = .ok () ↔
    ∃ env, Passed ed v clock.window msg env ∧
      (checkAndRecordNonce v.seenNonces clock env.nonce).1 = false := by
  unfold verify
  rw [if_neg (by simp [hen])]
  cases hs : verifySignature ed v clock.window msg with
  | error err =>
    simp only [reduceCtorEq, false_iff, not_exists, not_and]
    intro env hp
    rw [verifySignature_ok_iff.mpr hp] at hs
    cases hs
  | ok env =>
    have hp := verifySignature_ok_iff.mp hs
    dsimp only
    rcases hc : checkAndRecordNonce v.seenNonces clock env.nonce with ⟨_ | _, seen⟩
    · exact iff_of_true rfl ⟨env, hp, by rw [hc]⟩
    · simp only [reduceCtorEq, false_iff, not_exists, not_and]
      intro env' hp'
      obtain rfl : env' = env := by
        have := hp'.decoded.symm.trans hp.decoded
        exact (Prod.ext_iff.mp this).1
      simp [hc]

/-! ## The window -/

theorem absDuration_sub_of_lt {now t : Int} (h : minDuration < now - t) :
    absDuration (sub now t) = min maxDuration |now - t| := by
  rw [sub_of_lt h]
  unfold absDuration
  split
  · next hneg =>
    have hlt : now - t < 0 := by
      unfold maxDuration at hneg
      omega
    have hmin : min maxDuration (now - t) = now - t := min_eq_right (by unfold maxDuration; omega)
    rw [hmin, wrap64_neg h hlt, abs_of_neg hlt, min_eq_right]
    unfold minDuration at h
    unfold maxDuration
    omega
  · next hneg =>
    have hnn : 0 ≤ now - t := by
      by_contra hlt
      exact hneg (lt_of_le_of_lt (min_le_right _ _) (not_le.mp hlt))
    rw [abs_of_nonneg hnn]

theorem abs_le_of_window {now t : Int} (hwin : absDuration (sub now t) ≤ maxTimestampSkew)
    (h : minDuration < now - t) : |now - t| ≤ 5 * minute := by
  rw [absDuration_sub_of_lt h] at hwin
  rcases min_le_iff.mp hwin with hmax | habs
  · unfold maxDuration maxTimestampSkew minute second at hmax
    omega
  · exact habs

end SigningLemmas

/-! ## Results -/

open SigningLemmas in
/-- For a message that an enabled verifier accepts at `clock`, the exact
distance to `signed_at` is at most five minutes exactly if `signed_at` is less
than 2⁶³ nanoseconds ahead of the clock. -/
theorem freshness_window_iff (ed : Ed25519) (v : Verifier) (clock : Clock) (msg : Text)
    (signedAt : Int) (hen : v.enabled = true) (hok : (verify ed v clock msg).1 = .ok ())
    (hat : parseRFC3339 (signatureEnvelope msg).1.signedAt.toList = some signedAt) :
    |clock.window - signedAt| ≤ 5 * minute ↔ -2 ^ 63 < clock.window - signedAt := by
  obtain ⟨env, hp, -⟩ := (verify_ok_iff hen).mp hok
  obtain ⟨t, ht, hwin⟩ := hp.window
  rw [hp.decoded, ht] at hat
  obtain rfl := Option.some.inj hat
  constructor
  · intro hle
    have := neg_le_of_abs_le hle
    unfold minute second at this
    omega
  · exact abs_le_of_window hwin

def messageOf (p : Production) (fields : List (String × Json)) : Text :=
  let metadata := [("signed_payload", p.signedPayload), ("signature", p.signature),
    ("signed_at", p.signedAt), ("nonce", p.nonce)]
  print (.obj (fields.map (fun e => (quote e.1, e.2)) ++
    metadata.map fun e => (quote e.1, .str (quote e.2))))

/-- A message with an empty signed payload. -/
def emptyPayloadMessage (signedAt : String) : Text :=
  messageOf ⟨String.ofList (print (.obj [])), "c2ln", signedAt, "n"⟩ []

/-- A scheme that accepts every signature. -/
def lenientEd : Ed25519 := ⟨fun _ _ => [], fun _ _ _ => true⟩

/-- An ideal scheme on ASCII payloads: the only signature of a payload is the
payload. -/
def echoEd : Ed25519 where
  sign _ p := p.toList.map fun c => UInt8.ofNat c.toNat
  verify _ p sig := sig = p.toList.map fun c => UInt8.ofNat c.toNat

theorem freshness_window_epoch :
    |(0 : Int) - 240 * second| ≤ 5 * minute ↔ -2 ^ 63 < (0 : Int) - 240 * second :=
  freshness_window_iff lenientEd ⟨[], true, ∅⟩ ⟨0, 0, 0⟩
    (emptyPayloadMessage "1970-01-01T00:04:00Z") (240 * second) rfl (by decide +kernel)
    (by decide +kernel)

/-- Not every accepted message is fresh: at the epoch, a message signed in the
year 9999 passes the window check. -/
theorem freshness_far_future :
    ¬ ∀ (ed : Ed25519) (v : Verifier) (clock : Clock) (msg : Text) (signedAt : Int),
      v.enabled = true → (verify ed v clock msg).1 = .ok () →
      parseRFC3339 (signatureEnvelope msg).1.signedAt.toList = some signedAt →
      |clock.window - signedAt| ≤ 5 * minute := by
  intro h
  have hfar := h lenientEd ⟨[], true, ∅⟩ ⟨0, 0, 0⟩
    (emptyPayloadMessage "9999-12-31T23:59:59Z") (253402300799 * second) rfl
    (by decide +kernel) (by decide +kernel)
  revert hfar
  decide +kernel

end Forager
