import Forager.Calendar
import Forager.Coverage
import Forager.JsonRaw
import Forager.Replay

/-!
# Signing, then verifying

The two ends of `pkg/signing` together, with what may happen to a message in
between. `Sign` puts the fields of its message through `json.Marshal` twice:
once into the signed payload, which it then embeds as a string, and once with
the metadata added. `Verify` takes the same way back.

An intermediary may re-space and reorder the message, and add, change and drop
members, except those that the signature needs: the signed fields and the
members that a field of `SignatureEnvelope` takes.
-/

namespace Forager

open GoJson JsonText Go GoTime

def envelopeNames : List String := signatureEnvelopeFields.map (·.tag)

def signedKeys (msg : Text) : List String := (signPayload (exactFields msg)).map (·.1)

def Needed (signed : List String) (name : String) : Bool :=
  name ∈ signed || envelopeNames.any (foldName name = foldName ·)

/-- The members of a message, with what `canonicalJSON` makes of their values. -/
def canonicalMembers (msg : Text) : List (String × Option Any) :=
  (membersOf msg).map fun e => (text e.1, canonicalJSON e.2)

/-- An intermediary made `m` of `out`: the members that the signature needs are
canonically the same, in any order. -/
structure Relayed (signed : List String) (out m : Text) : Prop where
  isObject : ∃ ms, parse m = some (.obj ms)
  kept : ((canonicalMembers m).filter (Needed signed ·.1)).Perm
    ((canonicalMembers out).filter (Needed signed ·.1))

namespace SignVerifyLemmas

/-! ## What is signed -/

/-- The fields of the message with the metadata added. -/
def addMetadata (p : Production) (keyID : String) (raw : StrMap Json) : StrMap Json :=
  let raw := raw.insert "signed_payload" (.str (quote p.signedPayload))
  let raw := raw.insert "signature" (.str (quote p.signature))
  let raw := raw.insert "signed_at" (.str (quote p.signedAt))
  let raw := raw.insert "nonce" (.str (quote p.nonce))
  if keyID ≠ "" then raw.insert "key_id" (.str (quote keyID)) else raw

variable {ed : Ed25519} {s : Signer} {v : Verifier} {now : Int} {nonce : String} {msg : Text}
  {ms : List (StrLit × Json)} {raw : StrMap Json} {p : Production} {keyID : String}
variable {k : String} {j : Json}

theorem sign_eq (hraw : rawFields msg = (some raw, true)) :
    sign ed s now nonce msg =
      .ok (print (marshalRaw (addMetadata (produce ed s now nonce raw) s.keyID raw))) := by
  unfold sign
  rw [hraw]
  rfl

theorem forall_addMetadata {q : String × Json → Prop} (hraw : ∀ e ∈ raw, q e)
    (hstr : ∀ k ∈ envelopeNames, ∀ x, q (k, .str (quote x))) :
    ∀ e ∈ addMetadata p keyID raw, q e := by
  have hinsert : ∀ {m : StrMap Json} {k : String} (x : String), k ∈ envelopeNames →
      (∀ e ∈ m, q e) → ∀ e ∈ m.insert k (.str (quote x)), q e := by
    intro m k x hk hm e he
    rcases StrMap.mem_insert he with rfl | he
    · exact hstr k hk x
    · exact hm e he
  have hfour := hinsert p.nonce (by decide : "nonce" ∈ envelopeNames)
    (hinsert p.signedAt (by decide : "signed_at" ∈ envelopeNames)
      (hinsert p.signature (by decide : "signature" ∈ envelopeNames)
        (hinsert p.signedPayload (by decide : "signed_payload" ∈ envelopeNames) hraw)))
  unfold addMetadata
  dsimp only
  split
  · exact hinsert keyID (by decide) hfour
  · exact hfour

theorem sorted_addMetadata (h : raw.Sorted) : (addMetadata p keyID raw).Sorted := by
  have hfour := (((h.insert "signed_payload" (.str (quote p.signedPayload))).insert "signature"
    (.str (quote p.signature))).insert "signed_at" (.str (quote p.signedAt))).insert "nonce"
    (.str (quote p.nonce))
  unfold addMetadata
  dsimp only
  split
  · exact hfour.insert _ _
  · exact hfour

theorem get_addMetadata (hk : k ∉ envelopeNames) : (addMetadata p keyID raw).get k = raw.get k := by
  have hne : ∀ name ∈ envelopeNames, k ≠ name := fun name hname h => hk (h ▸ hname)
  have h1 := hne "signed_payload" (by decide)
  have h2 := hne "signature" (by decide)
  have h3 := hne "signed_at" (by decide)
  have h4 := hne "nonce" (by decide)
  have h5 := hne "key_id" (by decide)
  unfold addMetadata
  dsimp only
  split <;> simp only [StrMap.get_insert, h1, h2, h3, h4, h5, if_false]

theorem folded_addMetadata (hraw : ∀ tag ∈ envelopeNames, folded tag raw = []) :
    folded "signed_payload" (addMetadata p keyID raw) = [.str (quote p.signedPayload)] ∧
    folded "signature" (addMetadata p keyID raw) = [.str (quote p.signature)] ∧
    folded "signed_at" (addMetadata p keyID raw) = [.str (quote p.signedAt)] ∧
    folded "nonce" (addMetadata p keyID raw) = [.str (quote p.nonce)] := by
  have hkeyID : ∀ (tag : String) (m : StrMap Json), foldName "key_id" ≠ foldName tag →
      folded tag (if keyID ≠ "" then m.insert "key_id" (.str (quote keyID)) else m) =
        folded tag m := by
    intro tag m hne
    split
    · exact folded_insert_ne hne _ _
    · rfl
  have h1 := hraw "signed_payload" (by decide)
  have h2 := hraw "signature" (by decide)
  have h3 := hraw "signed_at" (by decide)
  have h4 := hraw "nonce" (by decide)
  unfold addMetadata
  refine ⟨?_, ?_, ?_, ?_⟩
  · rw [hkeyID _ _ (by decide), folded_insert_ne (by decide), folded_insert_ne (by decide),
      folded_insert_ne (by decide), folded_insert_of_nil rfl _ h1]
  · rw [hkeyID _ _ (by decide), folded_insert_ne (by decide), folded_insert_ne (by decide),
      folded_insert_of_nil rfl]
    rw [folded_insert_ne (by decide), h2]
  · rw [hkeyID _ _ (by decide), folded_insert_ne (by decide), folded_insert_of_nil rfl]
    rw [folded_insert_ne (by decide), folded_insert_ne (by decide), h3]
  · rw [hkeyID _ _ (by decide), folded_insert_of_nil rfl]
    rw [folded_insert_ne (by decide), folded_insert_ne (by decide), folded_insert_ne (by decide),
      h4]

/-! ## Members that are kept -/

variable {signed : List String} {out m : Text}

theorem relayed_filter (h : Relayed signed out m) {q : String → Bool}
    (hq : ∀ name, q name = true → Needed signed name = true) :
    ((canonicalMembers m).filter (q ·.1)).Perm ((canonicalMembers out).filter (q ·.1)) := by
  have hsub : ∀ es : List (String × Option Any),
      (es.filter (Needed signed ·.1)).filter (q ·.1) = es.filter (q ·.1) := by
    intro es
    rw [List.filter_filter]
    exact List.filter_congr fun e _ => by
      cases hqe : q e.1 with
      | false => rfl
      | true => rw [hq e.1 hqe]; rfl
  have hp := h.kept.filter (q ·.1)
  rwa [hsub, hsub] at hp

/-- What the output has once is there once. -/
theorem relayed_one (h : Relayed signed out m) {q : String → Bool}
    (hq : ∀ name, q name = true → Needed signed name = true) {v : Option Any}
    (hone : (canonicalMembers out).filter (q ·.1) = [(k, v)]) :
    ∃ e, (membersOf m).filter (q <| text ·.1) = [e] ∧ canonicalJSON e.2 = v := by
  have hp := relayed_filter h hq
  rw [hone, List.perm_singleton, canonicalMembers, List.filter_map, List.map_eq_singleton_iff] at hp
  obtain ⟨e, he, heq⟩ := hp
  exact ⟨e, he, congrArg Prod.snd heq⟩

theorem needed_of_envelope {tag : String} (htag : tag ∈ envelopeNames) :
    ∀ name, decide (foldName name = foldName tag) = true → Needed signed name = true :=
  fun _ hname => Bool.or_eq_true_iff.mpr (.inr (List.any_eq_true.mpr ⟨tag, htag, hname⟩))

theorem canonicalJSON_eq (j : Json) :
    canonicalJSON j = if (anyOf j).2 then some (anyOf j).1 else none := by
  unfold canonicalJSON
  split
  · next hj => rw [hj, if_pos rfl]
  · next hj => rw [hj]; rfl

theorem canonicalJSON_of_inRange (h : InRange j) : canonicalJSON j = some (anyOf j).1 :=
  (canonicalJSON_eq j).trans (if_pos h)

theorem str_of_canonicalJSON {x : String} (h : canonicalJSON j = some (.string x)) :
    ∃ l, j = .str l ∧ text l = x := by
  rw [canonicalJSON_eq] at h
  split at h
  · cases j with
    | str l => exact ⟨l, rfl, Any.string.inj (Option.some.inj h)⟩
    | num n => cases hn : toFloat n <;> simp [anyOf, hn] at h
    | _ => cases h
  · cases h

/-- The members of an object, also of one that is nested in others, may change places. -/
theorem relayed_of_reordered (hout : parse out = some (.obj ms)) (hm : parse m = some j)
    (h : Reordered (.obj ms) j) : Relayed signed out m := by
  obtain ⟨ms', rfl⟩ := h.isObject
  have hcanonical : ∀ {msg ms}, parse msg = some (.obj ms) → canonicalMembers msg =
      (ms.map fun e => (text e.1, anyOf e.2)).map
        fun e => (e.1, if e.2.2 then some e.2.1 else none) := by
    intro msg ms hmsg
    rw [canonicalMembers, membersOf, hmsg, List.map_map]
    simp only [canonicalJSON_eq]
    rfl
  refine ⟨⟨ms', hm⟩, List.Perm.filter _ ?_⟩
  rw [hcanonical hm, hcanonical hout]
  exact h.members_perm.map _

/-! ## The envelope -/

theorem signatureEnvelopeFields_distinct :
    (signatureEnvelopeFields.map (foldName ·.tag)).Nodup := by decide

def envelopeStrings : List (String × (SignatureEnvelope → String)) :=
  [("signed_payload", (·.signedPayload)), ("signature", (·.signature)),
   ("signed_at", (·.signedAt)), ("nonce", (·.nonce))]

theorem envelope_get {tag : String} {get : SignatureEnvelope → String}
    (h : (tag, get) ∈ envelopeStrings) (m : Text) :
    get (signatureEnvelope m).1 = stored string "" (spelled tag (membersOf m)) := by
  simp only [envelopeStrings, List.mem_cons, List.not_mem_nil, or_false, Prod.mk.injEq] at h
  rcases h with ⟨rfl, rfl⟩ | ⟨rfl, rfl⟩ | ⟨rfl, rfl⟩ | ⟨rfl, rfl⟩ <;>
  exact Decodes.unmarshal_get ⟨signatureEnvelopeFields_distinct, by decide,
    by simp [signatureEnvelopeFields, field]⟩ {} m

theorem decode_envelope_string {f : StructField SignatureEnvelope}
    (hf : f ∈ signatureEnvelopeFields) (env : SignatureEnvelope) (l : StrLit) :
    (f.decode env (.str l)).2 = true := by
  simp only [signatureEnvelopeFields, List.mem_cons, List.not_mem_nil, or_false] at hf
  rcases hf with rfl | rfl | rfl | rfl | rfl <;> rfl

theorem signatureEnvelope_ok (hm : parse m = some (.obj ms))
    (hstr : ∀ tag ∈ envelopeNames, ∀ j ∈ spelled tag ms, ∃ l, j = .str l) :
    (signatureEnvelope m).2 = true := by
  rw [signatureEnvelope, unmarshal, hm]
  refine struct_ok (fun e he f hf hsp env => ?_) _
  obtain ⟨l, hl⟩ := hstr f.tag (List.mem_map_of_mem hf) e.2
    (List.mem_map_of_mem (List.mem_filter.mpr ⟨he, hsp⟩))
  rw [hl]
  exact decode_envelope_string hf env l

/-! ## What is read back -/

theorem parse_marshalRaw (h : ∀ e ∈ raw, depth e.2 < maxNestingDepth) :
    parse (print (marshalRaw raw)) = some (marshalRaw raw) := by
  rw [parse_print, if_pos]
  refine Nat.succ_le_of_lt (Nat.lt_of_le_pred (by decide) ((depthMembers_le_iff _ _).mpr ?_))
  intro e he
  obtain ⟨e', he', rfl⟩ := List.mem_map.mp he
  rw [depth_htmlEscape]
  exact Nat.le_pred_of_lt (h e' he')

theorem canonicalMembers_marshalRaw (h : ∀ e ∈ raw, depth e.2 < maxNestingDepth) :
    canonicalMembers (print (marshalRaw raw)) =
      raw.map fun e => (e.1, canonicalJSON (htmlEscape e.2)) := by
  rw [canonicalMembers, membersOf, parse_marshalRaw h]
  simp [marshalRaw, members, Function.comp_def]

theorem get_signPayload_eq (h : (signPayload raw).get k = some j) : raw.get k = some j := by
  rw [signPayload, CoverageLemmas.get_foldl_selectField] at h
  split at h
  · exact h
  · cases h

theorem sorted_signPayload (raw : StrMap Json) : (signPayload raw).Sorted := by
  suffices hfold : ∀ (fields : List String) (m : StrMap Json), m.Sorted →
      (fields.foldl (selectField raw) m).Sorted from hfold _ _ List.Pairwise.nil
  intro fields
  induction fields with
  | nil => exact fun _ hm => hm
  | cons f fields ih =>
    intro m hm
    refine ih _ ?_
    unfold selectField
    split
    · exact hm.insert _ _
    · exact hm

theorem matchFields_ok {msgFields payload : StrMap Json} (h : ∀ e ∈ payload,
      ∃ j, msgFields.get e.1 = some j ∧ canonicalJSON j = canonicalJSON e.2 ∧ InRange e.2) :
    matchFields msgFields payload = .ok () := by
  induction payload with
  | nil => rfl
  | cons e payload ih =>
    obtain ⟨j, hget, hcanonical, hrange⟩ := h e List.mem_cons_self
    unfold matchFields
    rw [hget]
    dsimp only
    rw [hcanonical, canonicalJSON_of_inRange hrange]
    dsimp only
    rw [if_pos rfl]
    exact ih fun e he => h e (List.mem_cons_of_mem _ he)

/-! ## A relayed message -/

/-- Fields that can be signed: no key is spelled like a name of the envelope,
the values are nested no deeper than `encoding/json` reads, and their numbers
are in range. -/
structure Signable (raw : StrMap Json) : Prop where
  sorted : raw.Sorted
  names : ∀ tag ∈ envelopeNames, folded tag raw = []
  nesting : ∀ e ∈ raw, depth e.2 < maxNestingDepth
  range : ∀ e ∈ raw, InRange e.2

theorem signable_of_parse (hmsg : parse msg = some (.obj ms))
    (hnames : ∀ e ∈ ms, ∀ tag ∈ envelopeNames, spells tag e.1 = false)
    (hrange : InRange (.obj ms)) : Signable (mapFrom id ms) where
  sorted := sorted_mapFrom id ms
  names tag htag := by
    refine List.map_eq_nil_iff.mpr (List.filter_eq_nil_iff.mpr fun e he => ?_)
    obtain ⟨e', he', hkey, -⟩ := mem_of_mapFrom he
    have hsp := hnames e' he' tag htag
    rw [spells, hkey] at hsp
    simp [hsp]
  nesting e he := by
    obtain ⟨e', he', -, hval⟩ := mem_of_mapFrom he
    rw [← hval]
    have hdepth : depthMembers ms + 1 ≤ maxNestingDepth := depth_le_of_parse hmsg
    exact Nat.lt_of_le_of_lt ((depthMembers_le_iff ms _).mp le_rfl e' he') hdepth
  range e he := by
    obtain ⟨e', he', -, hval⟩ := mem_of_mapFrom he
    exact hval ▸ (inRange_obj ms).mp hrange e' he'

theorem Signable.nesting_addMetadata (h : Signable raw) :
    ∀ e ∈ addMetadata p keyID raw, depth e.2 < maxNestingDepth :=
  forall_addMetadata h.nesting fun _ _ _ => (by decide : 0 < maxNestingDepth)

theorem Signable.not_mem_names (h : Signable raw) (hk : raw.get k = some j) :
    k ∉ envelopeNames := by
  intro hname
  have hmem : (k, j) ∈ raw.filter (foldName ·.1 = foldName k) :=
    List.mem_filter.mpr ⟨(h.sorted.get_eq_some_iff k j).mp hk, decide_eq_true rfl⟩
  have hnil := h.names k hname
  rw [folded, List.map_eq_nil_iff] at hnil
  rw [hnil] at hmem
  cases hmem

theorem Signable.folded_string (h : Signable raw) {tag : String} (htag : tag ∈ envelopeNames) :
    ∀ j ∈ folded tag (addMetadata p keyID raw), ∃ x, j = .str (quote x) := by
  intro j hj
  obtain ⟨e, he, rfl⟩ := List.mem_map.mp hj
  obtain ⟨hmem, hfold⟩ := List.mem_filter.mp he
  refine forall_addMetadata (q := fun e => foldName e.1 = foldName tag → ∃ x, e.2 = .str (quote x))
    (fun e he hfold => ?_) (fun _ _ x _ => ⟨x, rfl⟩) e hmem (of_decide_eq_true hfold)
  have hnil := h.names tag htag
  rw [folded, List.map_eq_nil_iff, List.filter_eq_nil_iff] at hnil
  exact absurd (decide_eq_true hfold) (hnil e he)

theorem envelope_relayed (h : Signable raw)
    (hm : Relayed signed (print (marshalRaw (addMetadata p keyID raw))) m) :
    ∃ keyID, signatureEnvelope m =
      (⟨p.signedPayload, p.signature, p.signedAt, p.nonce, keyID⟩, true) := by
  have hmembers := canonicalMembers_marshalRaw (@Signable.nesting_addMetadata _ p keyID h)
  have hstring : ∀ x, canonicalJSON (htmlEscape (.str (quote x))) = some (.string x) := by
    intro x
    rw [htmlEscape_quote, canonicalJSON_eq, anyOf, text_quote]
    rfl
  obtain ⟨hpayload, hsignature, hsignedAt, hnonce⟩ :=
    @folded_addMetadata raw p keyID h.names
  -- one string under a name, so the order does not matter
  have hone : ∀ tag x, tag ∈ envelopeNames →
      folded tag (addMetadata p keyID raw) = [.str (quote x)] →
      stored string "" (spelled tag (membersOf m)) = x := by
    intro tag x htag hfolded
    obtain ⟨e, he, hval⟩ := List.map_eq_singleton_iff.mp hfolded
    obtain ⟨e', he', hcanonical⟩ := relayed_one (v := some (.string x)) hm
      (needed_of_envelope htag) (by
        rw [hmembers, List.filter_map, Function.comp_def, he, List.map_singleton, hval, hstring])
    obtain ⟨l, hl, rfl⟩ := str_of_canonicalJSON hcanonical
    have hspelled : spelled tag (membersOf m) = [e'.2] := congrArg (List.map Prod.snd) he'
    rw [hspelled, hl]
    rfl
  obtain ⟨ms, hparse⟩ := hm.isObject
  have hok : (signatureEnvelope m).2 = true := by
    refine signatureEnvelope_ok hparse fun tag htag j hj => ?_
    obtain ⟨e, he, rfl⟩ := List.mem_map.mp hj
    obtain ⟨he, hname⟩ := List.mem_filter.mp he
    have hmem : (text e.1, canonicalJSON e.2) ∈ (canonicalMembers m).filter
        fun e => decide (foldName e.1 = foldName tag) := by
      rw [canonicalMembers, membersOf, hparse]
      exact List.mem_filter.mpr ⟨List.mem_map_of_mem he, hname⟩
    rw [(relayed_filter hm (needed_of_envelope htag)).mem_iff, hmembers] at hmem
    obtain ⟨hmem, hfold⟩ := List.mem_filter.mp hmem
    obtain ⟨e', he', heq⟩ := List.mem_map.mp hmem
    obtain ⟨hkey, hval⟩ := Prod.mk.inj heq
    obtain ⟨x, hx⟩ := h.folded_string htag e'.2 (List.mem_map_of_mem (List.mem_filter.mpr
      ⟨he', hkey ▸ hfold⟩))
    rw [hx, hstring] at hval
    obtain ⟨l, hl, -⟩ := str_of_canonicalJSON hval.symm
    exact ⟨l, hl⟩
  have hread : ∀ tag get x, (tag, get) ∈ envelopeStrings → tag ∈ envelopeNames →
      folded tag (addMetadata p keyID raw) = [.str (quote x)] → get (signatureEnvelope m).1 = x :=
    fun tag get x hmem htag hfolded => (envelope_get hmem m).trans (hone tag x htag hfolded)
  have hpayload' := hread _ (·.signedPayload) _ (by simp [envelopeStrings]) (by decide) hpayload
  have hsignature' := hread _ (·.signature) _ (by simp [envelopeStrings]) (by decide) hsignature
  have hsignedAt' := hread _ (·.signedAt) _ (by simp [envelopeStrings]) (by decide) hsignedAt
  have hnonce' := hread _ (·.nonce) _ (by simp [envelopeStrings]) (by decide) hnonce
  refine ⟨(signatureEnvelope m).1.keyID, Prod.ext ?_ hok⟩
  rw [← hpayload', ← hsignature', ← hsignedAt', ← hnonce']

theorem matches_relayed (h : Signable raw)
    (hm : Relayed ((signPayload raw).map (·.1)) (print (marshalRaw (addMetadata p keyID raw))) m) :
    verifyPayloadMatchesMessage (signedPayloadText raw) m = .ok () := by
  have hpayload : ∀ e ∈ signPayload raw, raw.get e.1 = some e.2 := fun e he =>
    get_signPayload_eq (((sorted_signPayload raw).get_eq_some_iff e.1 e.2).mpr he)
  have hmem : ∀ e ∈ signPayload raw, e ∈ raw := fun e he =>
    (h.sorted.get_eq_some_iff e.1 e.2).mp (hpayload e he)
  have hread := parse_marshalRaw fun e he => h.nesting e (hmem e he)
  obtain ⟨ms, hparse⟩ := hm.isObject
  unfold verifyPayloadMatchesMessage signedPayloadText
  rw [String.toList_ofList, CoverageLemmas.rawFields_obj hread, CoverageLemmas.rawFields_obj hparse]
  refine matchFields_ok fun e he => ?_
  obtain ⟨e', he', hkey, hval⟩ := mem_of_mapFrom he
  obtain ⟨⟨k, j⟩, hsigned, rfl⟩ := List.mem_map.mp he'
  rw [text_quote] at hkey
  dsimp only at hkey hval
  rw [← hkey, ← hval]
  -- the field that was signed is in the output once, and so in the relayed message
  have hget : (addMetadata p keyID raw).get k = some j := by
    rw [get_addMetadata (h.not_mem_names (hpayload _ hsigned)), hpayload _ hsigned]
  have hone : (canonicalMembers (print (marshalRaw (addMetadata p keyID raw)))).filter (·.1 = k) =
      [(k, canonicalJSON (htmlEscape j))] := by
    rw [canonicalMembers_marshalRaw h.nesting_addMetadata, List.filter_map, Function.comp_def,
      filter_key (sorted_addMetadata h.sorted) hget]
    rfl
  have hneeded : ∀ name, decide (name = k) = true →
      Needed ((signPayload raw).map (·.1)) name = true := by
    intro name hname
    have hin : k ∈ (signPayload raw).map (·.1) := List.mem_map_of_mem hsigned
    exact Bool.or_eq_true_iff.mpr (.inl (decide_eq_true (of_decide_eq_true hname ▸ hin)))
  obtain ⟨e, he, hcanonical⟩ := relayed_one hm hneeded hone
  refine ⟨e.2, ?_, hcanonical, inRange_htmlEscape j (h.range _ (hmem _ hsigned))⟩
  rw [membersOf, hparse] at he
  rw [Option.getD_some, get_mapFrom, Option.map_id, lastUnder_eq]
  exact congrArg (fun es => (es.map Prod.snd).getLast?) he

theorem produced_ne_empty (now : Int) (nonce : String)
    (hsig : ed.sign s.privateKey (signedPayloadText raw) ≠ []) :
    (produce ed s now nonce raw).signature ≠ "" ∧
      (produce ed s now nonce raw).signedPayload ≠ "" := by
  constructor
  · intro h
    have hdec := Base64.decode_encode (ed.sign s.privateKey (signedPayloadText raw))
    rw [String.ofList_eq_empty_iff.mp h] at hdec
    exact hsig (Option.some.inj hdec).symm
  · intro h
    obtain ⟨c, t, hc, -⟩ := print_cons (marshalRaw (signPayload raw))
    have hnil := String.ofList_eq_empty_iff.mp h
    rw [hc] at hnil
    cases hnil

theorem passed_relayed (h : Signable raw) (hnow : InYears now) (hnonce : nonce ≠ "")
    (hsig : ∀ p, ed.sign s.privateKey p ≠ [])
    (hcorrect : ∀ p, ed.verify v.publicKey p (ed.sign s.privateKey p) = true) {window : Int}
    (hwindow : |window - now / second * second| ≤ 5 * minute)
    (hm : Relayed ((signPayload raw).map (·.1))
      (print (marshalRaw (addMetadata (produce ed s now nonce raw) keyID raw))) m) :
    ∃ env, Passed ed v window m env ∧ env.nonce = nonce := by
  obtain ⟨keyID', henv⟩ := envelope_relayed h hm
  obtain ⟨hsignature, hpayload⟩ := produced_ne_empty now nonce (hsig _)
  have hread : parseRFC3339 (formatRFC3339 now).toList = some (now / second * second) :=
    parseRFC3339_formatRFC3339 hnow
  refine ⟨_, ⟨henv, hsignature, hpayload, ?_, hnonce, ⟨_, hread, ?_⟩, ?_, matches_relayed h hm⟩,
    rfl⟩
  · intro hempty
    have hnone : parseRFC3339 (formatRFC3339 now).toList = none := by
      rw [show formatRFC3339 now = "" from hempty]
      rfl
    rw [hnone] at hread
    cases hread
  · have hlt : minDuration < window - now / second * second :=
      lt_of_lt_of_le (by decide : minDuration < -(5 * minute)) (neg_le_of_abs_le hwindow)
    rw [SigningLemmas.absDuration_sub_of_lt hlt]
    exact (min_le_right _ _).trans hwindow
  · refine ⟨_, ?_, hcorrect _⟩
    rw [produce, String.toList_ofList, Base64.decode_encode]

end SignVerifyLemmas

/-! ## Results -/

open SignVerifyLemmas in
/-- `Sign` of a JSON object whose keys are not spelled like the envelope and
whose numbers are in range returns a message that a verifier with the matching
key accepts within five minutes of `signed_at` if it has not seen the nonce;
and it accepts whatever an intermediary makes of that message, with the members
of its objects in any order at every level. -/
theorem sign_verify (ed : Ed25519) (s : Signer) (v : Verifier) (clock : Clock) (now : Int)
    (nonce : String) (msg : Text) (ms : List (StrLit × Json))
    (hcorrect : ∀ p, ed.verify v.publicKey p (ed.sign s.privateKey p) = true)
    (hsig : ∀ p, ed.sign s.privateKey p ≠ []) (hnonce : nonce ≠ "") (hnow : InYears now)
    (hmsg : parse msg = some (.obj ms))
    (hnames : ∀ e ∈ ms, ∀ tag ∈ envelopeNames, spells tag e.1 = false)
    (hrange : InRange (.obj ms))
    (hwindow : |clock.window - now / second * second| ≤ 5 * minute)
    (hunseen : v.seenNonces.lookup nonce = none) :
    ∃ out jout, sign ed s now nonce msg = .ok out ∧ parse out = some jout ∧
      (verify ed v clock out).1 = .ok () ∧
      (∀ m, Relayed (signedKeys msg) out m → (verify ed v clock m).1 = .ok ()) ∧
      ∀ m j, parse m = some j → Reordered jout j → (verify ed v clock m).1 = .ok () := by
  have hraw := CoverageLemmas.rawFields_obj hmsg
  have hsignable := signable_of_parse hmsg hnames hrange
  have hkeys : signedKeys msg = (signPayload (mapFrom id ms)).map (·.1) := by
    rw [signedKeys, exactFields, hraw]
    rfl
  have hrelayed : ∀ m, Relayed (signedKeys msg) (print (marshalRaw (addMetadata
      (produce ed s now nonce (mapFrom id ms)) s.keyID (mapFrom id ms)))) m →
      (verify ed v clock m).1 = .ok () := by
    intro m hm
    cases hen : v.enabled with
    | false => simp [verify, hen]
    | true =>
      rw [hkeys] at hm
      obtain ⟨env, hpassed, rfl⟩ :=
        passed_relayed hsignable hnow hnonce hsig hcorrect hwindow hm
      exact (SigningLemmas.verify_ok_iff hen).mpr
        ⟨env, hpassed, ReplayLemmas.checkAndRecordNonce_fst.mpr hunseen⟩
  have hout := parse_marshalRaw (@Signable.nesting_addMetadata _
    (produce ed s now nonce (mapFrom id ms)) s.keyID hsignable)
  exact ⟨_, _, sign_eq hraw, hout, hrelayed _ ⟨⟨_, hout⟩, List.Perm.refl _⟩, hrelayed,
    fun m j hm h => hrelayed m (relayed_of_reordered hout hm h)⟩

def queryMembers : List (StrLit × Json) :=
  [(quote "action", .str (quote "db_query")), (quote "datasource_id", .str (quote "d")),
   (quote "params", .obj [(quote "query", .str (quote "SELECT 1 < 2")), (quote "max", .null)]),
   (quote "trace", .null)]

/-- A scheme in which the signature is the payload behind one byte. -/
def taggedEd : Ed25519 where
  sign _ p := 0 :: echoEd.sign [] p
  verify _ p sig := sig = 0 :: echoEd.sign [] p

theorem sign_verify_query : ∃ out jout,
    sign taggedEd ⟨[], "key"⟩ 0 "n" (print (.obj queryMembers)) = .ok out ∧
      parse out = some jout ∧
      (verify taggedEd ⟨[], true, ∅⟩ ⟨minute, minute, minute⟩ out).1 = .ok () ∧
      (∀ m, Relayed (signedKeys (print (.obj queryMembers))) out m →
        (verify taggedEd ⟨[], true, ∅⟩ ⟨minute, minute, minute⟩ m).1 = .ok ()) ∧
      ∀ m j, parse m = some j → Reordered jout j →
        (verify taggedEd ⟨[], true, ∅⟩ ⟨minute, minute, minute⟩ m).1 = .ok () :=
  sign_verify taggedEd ⟨[], "key"⟩ ⟨[], true, ∅⟩ ⟨minute, minute, minute⟩ 0 "n" _ queryMembers
    (fun p => decide_eq_true rfl) (fun p => List.cons_ne_nil _ _) (by decide) (by decide)
    (by rw [parse_print]; exact if_pos (by decide +kernel)) (by decide +kernel)
    (by decide +kernel) (by decide) rfl

end Forager
