import Forager.JsonRaw
import Forager.SignedValue

/-!
# What a signature covers

Three tables decide which fields of a message are protected: the fields that
`Sign` selects by action, the keys that `Verify` compares, which are those of
the signed payload, and the fields that the branch of `HandleMessage` reads.
-/

namespace Forager

open GoJson JsonText Go

inductive Branch
  | configSync | testConfig | request | legacyAction | legacyHTTP
deriving DecidableEq, Repr

def Dispatch.branch {P : Type} : Dispatch P → Option Branch
  | .configSync _ => some .configSync
  | .testConfig _ => some .testConfig
  | .request _ _ => some .request
  | .legacyAction _ _ => some .legacyAction
  | .legacyHTTP _ _ => some .legacyHTTP
  | .reply _ | .failed _ => none

/-- The top-level fields that the branch decodes and acts on. -/
def Branch.fields : Branch → List String
  | .configSync => ["action", "datasources"]
  | .testConfig => ["action", "datasource"]
  | .request => ["action", "datasource_id", "params", "method", "url", "header", "body"]
  | .legacyAction => ["action", "body"]
  | .legacyHTTP => ["action", "method", "url", "header", "body"]

/-- The message has a member that a struct field with this tag takes. -/
def Present (msg : Text) (tag : String) : Prop := spelled tag (membersOf msg) ≠ []

/-- Every field that the branch acts on and that the message carries is a key
of the signed payload. -/
def Covered (b : Branch) (msg : Text) : Prop :=
  ∀ f ∈ b.fields, Present msg f → ((payloadFields msg).get f).isSome

/-- `Sign` was called on a message with the fields `raw`. -/
def SignedFrom (origs : List Text) (raw : StrMap Json) : Prop :=
  ∃ orig ∈ origs, rawFields orig = (some raw, true)

namespace CoverageLemmas

/-! ## The keys of a signed payload -/

theorem get_selectField (raw payload : StrMap Json) (field k : String) :
    (selectField raw payload field).get k =
      if k = field ∧ (raw.get k).isSome then raw.get k else payload.get k := by
  unfold selectField
  by_cases hk : k = field
  · subst hk
    cases hr : raw.get k with
    | none => simp
    | some val => simp [StrMap.get_insert]
  · cases raw.get field with
    | none => simp [hk]
    | some val => simp [StrMap.get_insert, hk]

theorem get_foldl_selectField (raw : StrMap Json) (fields : List String) (payload : StrMap Json)
    (k : String) :
    (fields.foldl (selectField raw) payload).get k =
      if k ∈ fields ∧ (raw.get k).isSome then raw.get k else payload.get k := by
  induction fields generalizing payload with
  | nil => simp
  | cons field fields ih =>
    rw [List.foldl_cons, ih, get_selectField]
    cases raw.get k with
    | none => simp
    | some val => by_cases hk : k = field <;> simp [hk]

/-- The keys of a signed payload are the selected fields that the signed message had. -/
theorem get_signPayload (raw : StrMap Json) (k : String) :
    ((signPayload raw).get k).isSome ↔
      k ∈ signingFieldsFor (signingAction raw) ∧ (raw.get k).isSome := by
  rw [signPayload, get_foldl_selectField]
  split
  · next h => exact iff_of_true h.2 h
  · next h => exact iff_of_false (by simp) h

theorem isSome_get_iff {β : Type} (m : StrMap β) (k : String) :
    (m.get k).isSome ↔ k ∈ m.map (·.1) := by
  induction m with
  | nil => simp
  | cons e m ih =>
    rw [StrMap.get_cons, List.map_cons, List.mem_cons, ← ih]
    split <;> simp_all

theorem isSome_get_foldl {ι β : Type} (key : ι → String) (val : ι → β) (ok : ι → Bool)
    (es : List ι) (acc : StrMap β × Bool) (k : String) :
    ((es.foldl (fun acc e => (acc.1.insert (key e) (val e), acc.2 && ok e)) acc).1.get k).isSome ↔
      (acc.1.get k).isSome ∨ k ∈ es.map key := by
  induction es generalizing acc with
  | nil => simp
  | cons e es ih =>
    rw [List.foldl_cons, ih, StrMap.get_insert, List.map_cons, List.mem_cons, ← or_assoc]
    refine or_congr_left ?_
    split
    · next h => simp [h]
    · next h => simp [h]

theorem key_marshalRaw {m : StrMap Json} {fields : Option (StrMap Json)}
    (h : rawFields (print (marshalRaw m)) = (fields, true)) (k : String) :
    ((fields.getD []).get k).isSome ↔ (m.get k).isSome := by
  unfold rawFields unmarshal at h
  rw [parse_print] at h
  split at h
  · cases h
  · next j hj =>
    split at hj
    · obtain rfl := Option.some.inj hj
      have hfields := (congrArg Prod.fst h).symm
      dsimp only at hfields
      rw [hfields, isSome_get_iff m]
      refine (isSome_get_foldl _ _ _ _ _ k).trans ?_
      simp [List.map_map, Function.comp_def]
    · cases hj

theorem key_signedPayloadText {raw : StrMap Json} {fields : Option (StrMap Json)}
    (h : rawFields (signedPayloadText raw).toList = (fields, true)) (k : String) :
    ((fields.getD []).get k).isSome ↔
      k ∈ signingFieldsFor (signingAction raw) ∧ (raw.get k).isSome := by
  rw [signedPayloadText, String.toList_ofList] at h
  rw [key_marshalRaw h, get_signPayload]

theorem payload_of_accepted {ed : Ed25519} {v : Verifier} {clock : Clock} {msg : Text}
    (hen : v.enabled = true) (hok : (verify ed v clock msg).1 = .ok ()) :
    (∃ fields, rawFields (signatureEnvelope msg).1.signedPayload.toList = (fields, true)) ∧
      ∃ sig, ed.verify v.publicKey (signatureEnvelope msg).1.signedPayload sig = true := by
  obtain ⟨env, hp, -⟩ := (SigningLemmas.verify_ok_iff hen).mp hok
  obtain ⟨sig, -, hsig⟩ := hp.signed
  have hmatch := hp.matched
  rw [hp.decoded]
  refine ⟨?_, sig, hsig⟩
  unfold verifyPayloadMatchesMessage at hmatch
  split at hmatch
  · cases hmatch
  · next fields hfields => exact ⟨fields, hfields⟩

theorem dispatched_of_branch {P : Type} {d : Dispatch P} {b : Branch} (h : d.branch = some b) :
    DispatchLemmas.Dispatched d := by
  cases d with
  | reply err | failed what => cases h
  | configSync push | testConfig req | request p req | legacyAction p req | legacyHTTP p req =>
    trivial

end CoverageLemmas

/-! ## Results -/

open CoverageLemmas in
/-- Let the only payloads with a valid signature be those that `Sign` made for
the messages `origs`. A message that `HandleMessage` hands on with verification
enabled is covered exactly if every field that its branch acts on and that it
carries is one that `Sign` selects for the action of the message it signed, and
one that this message had. -/
theorem coverage_iff {P : Type} (ed : Ed25519) (h : Handler P) (v : Verifier) (clock : Clock)
    (msg : Text) (b : Branch) (origs : List Text) (hv : h.verifier = some v)
    (hen : v.enabled = true)
    (hunforgeable : ∀ p sig, ed.verify v.publicKey p sig = true →
      ∃ raw, SignedFrom origs raw ∧ signedPayloadText raw = p)
    (hd : (handleMessage ed h clock msg).1.branch = some b) :
    Covered b msg ↔
      ∃ raw, SignedFrom origs raw ∧
        signedPayloadText raw = (signatureEnvelope msg).1.signedPayload ∧
        ∀ f ∈ b.fields, Present msg f →
          f ∈ signingFieldsFor (signingAction raw) ∧ (raw.get f).isSome := by
  obtain ⟨hok, -⟩ := DispatchLemmas.handleMessage_verified hv hen (dispatched_of_branch hd)
  obtain ⟨⟨fields, hfields⟩, sig, hsig⟩ := payload_of_accepted hen hok
  -- the keys of the payload, for any message it was made for
  have hkeys : ∀ raw, signedPayloadText raw = (signatureEnvelope msg).1.signedPayload → ∀ k,
      (((payloadFields msg).get k).isSome ↔
        k ∈ signingFieldsFor (signingAction raw) ∧ (raw.get k).isSome) := by
    intro raw hraw k
    rw [payloadFields, exactFields, hfields]
    rw [← hraw] at hfields
    exact key_signedPayloadText hfields k
  constructor
  · intro hcov
    obtain ⟨raw, hfrom, hraw⟩ := hunforgeable _ _ hsig
    exact ⟨raw, hfrom, hraw, fun f hf hpresent => (hkeys raw hraw f).mp (hcov f hf hpresent)⟩
  · rintro ⟨raw, -, hraw, hall⟩ f hf hpresent
    exact (hkeys raw hraw f).mpr (hall f hf hpresent)

/-- An ideal scheme with which one payload was signed. -/
def signedOnce (payload : String) : Ed25519 where
  sign := echoEd.sign
  verify key p sig := p = payload ∧ echoEd.verify key p sig

def original (signed : StrMap Json) : Text := print (marshalRaw signed)

/-- The scheme with which only the message with the fields `signed` was signed. -/
def signedOnly (signed : StrMap Json) : Ed25519 :=
  signedOnce (signedPayloadText (exactFields (original signed)))

/-- A message with the metadata of the one message signed, and the fields `sent`. -/
def sentWith (signed sent : StrMap Json) : Text :=
  messageOf (produce (signedOnly signed) ⟨[], ""⟩ 0 "n" (exactFields (original signed))) sent

def freshHandler : Handler Unit := ⟨Registry.new, fun _ => "", some ⟨[], true, ∅⟩⟩

def configTest (proxyType : String) : StrMap Json :=
  [("action", .str (quote "test_datasource_config")),
   ("datasource", .obj [(quote "proxy_type", .str (quote proxyType))])]

def emptySync : StrMap Json :=
  [("action", .str (quote "datasource_config_sync")), ("datasources", .arr [])]

namespace CoverageLemmas

theorem rawFields_obj {msg : Text} {ms : List (StrLit × Json)}
    (hmsg : parse msg = some (.obj ms)) : rawFields msg = (some (mapFrom id ms), true) := by
  rw [rawFields, unmarshal, hmsg]
  exact mapOf_raw ms

theorem signedFrom_original {signed : StrMap Json}
    (h : depth (marshalRaw signed) ≤ maxNestingDepth) :
    SignedFrom [original signed] (exactFields (original signed)) := by
  have hparse : parse (original signed) = some (marshalRaw signed) := by
    rw [original, parse_print, if_pos h]
  refine ⟨_, List.mem_singleton.mpr rfl, ?_⟩
  rw [exactFields, rawFields_obj hparse]
  rfl

theorem signedOnly_unforgeable {signed : StrMap Json}
    (h : depth (marshalRaw signed) ≤ maxNestingDepth) (key : List UInt8) (p : String)
    (sig : List UInt8) (hver : (signedOnly signed).verify key p sig = true) :
    ∃ raw, SignedFrom [original signed] raw ∧ signedPayloadText raw = p := by
  refine ⟨_, signedFrom_original h, ?_⟩
  simp only [signedOnly, signedOnce, decide_eq_true_eq] at hver
  exact hver.1.symm

end CoverageLemmas

open CoverageLemmas in
theorem coverage_sync : Covered .configSync (sentWith emptySync emptySync) ↔
    ∃ raw, SignedFrom [original emptySync] raw ∧
      signedPayloadText raw =
        (signatureEnvelope (sentWith emptySync emptySync)).1.signedPayload ∧
      ∀ f ∈ Branch.configSync.fields, Present (sentWith emptySync emptySync) f →
        f ∈ signingFieldsFor (signingAction raw) ∧ (raw.get f).isSome :=
  coverage_iff (signedOnly emptySync) freshHandler ⟨[], true, ∅⟩ ⟨0, 0, 0⟩
    (sentWith emptySync emptySync) .configSync [original emptySync] rfl rfl
    (signedOnly_unforgeable (by decide) _) (by decide +kernel)

open CoverageLemmas in
/-- Not every message is covered: `Sign` does not select the datasource of a
config test, so another one can be put in its place. -/
theorem coverage_misses_datasource :
    ¬ ∀ (P : Type) (ed : Ed25519) (h : Handler P) (v : Verifier) (clock : Clock) (msg : Text)
      (b : Branch) (origs : List Text), h.verifier = some v → v.enabled = true →
      (∀ p sig, ed.verify v.publicKey p sig = true →
        ∃ raw, SignedFrom origs raw ∧ signedPayloadText raw = p) →
      (handleMessage ed h clock msg).1.branch = some b → Covered b msg := by
  intro h
  let msg := sentWith (configTest "db-proxy") (configTest "mcp-proxy")
  have hcov := h Unit (signedOnly (configTest "db-proxy")) freshHandler ⟨[], true, ∅⟩ ⟨0, 0, 0⟩ msg
    .testConfig [original (configTest "db-proxy")] rfl rfl
    (signedOnly_unforgeable (by decide) _) (by decide +kernel)
  have hpresent : Present msg "datasource" := by
    rw [Present, ← List.isEmpty_eq_false_iff]
    decide +kernel
  have hkey := hcov "datasource" (by decide) hpresent
  revert hkey
  decide +kernel

end Forager
