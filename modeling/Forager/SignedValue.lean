import Forager.Dispatch
import Forager.JsonRuns

/-!
# The signed value and the executed value

`Verify` compares a field of `signed_payload` with the member of the message
that has exactly its key, the last one if there are several. `HandleMessage`
decodes the same message into structs, which take every member spelled like
the field, in order, into one variable. The two agree only as far as the other
spellings leave the variable alone.
-/

namespace Forager

open GoJson JsonText Go

/-- A field that may be signed and that `HandleMessage` decodes. -/
inductive Slot
  | action | datasourceID | params | method | url | header | datasources
deriving DecidableEq, Repr

namespace Slot

def key : Slot → String
  | .action => "action"
  | .datasourceID => "datasource_id"
  | .params => "params"
  | .method => "method"
  | .url => "url"
  | .header => "header"
  | .datasources => "datasources"

/-- The Go type of the field. -/
abbrev Value : Slot → Type
  | .action | .datasourceID | .method | .url => String
  | .params => Option (StrMap Any)
  | .header => Option Header
  | .datasources => Option (List Datasource)

/-- A fresh variable of that type after the values `js` were stored into it. -/
def decode : (k : Slot) → List Json → k.Value
  | .action, js | .datasourceID, js | .method, js | .url, js => stored string "" js
  | .params, js => stored paramsDecoder none js
  | .header, js => stored headerDecoder none js
  | .datasources, js => (stored datasourcesDecoder .nil js).elems.map (·.map DatasourceCell.value)

end Slot

/-- The values that `HandleMessage` gets for a field: in its envelope, in the
`ActionRequest` of `handleRequest` and in the push of `handleConfigSync`. -/
inductive Obtains (msg : Text) : (k : Slot) → k.Value → Prop
  | envelopeAction : Obtains msg .action (envelope msg).1.action
  | envelopeDatasourceID : Obtains msg .datasourceID (envelope msg).1.datasourceID
  | requestAction : Obtains msg .action (actionRequest msg).1.action
  | requestDatasourceID : Obtains msg .datasourceID (actionRequest msg).1.datasourceID
  | requestParams : Obtains msg .params (actionRequest msg).1.params
  | requestMethod : Obtains msg .method (actionRequest msg).1.method
  | requestURL : Obtains msg .url (actionRequest msg).1.url
  | requestHeader : Obtains msg .header (actionRequest msg).1.header
  | pushAction : Obtains msg .action (configPush msg).1.action
  | pushDatasources : Obtains msg .datasources (configPush msg).1.values

/-- The fields of the message by exact key. -/
def exactFields (msg : Text) : StrMap Json := (rawFields msg).1.getD []

def payloadFields (msg : Text) : StrMap Json :=
  exactFields (signatureEnvelope msg).1.signedPayload.toList

/-- Under every tag of a datasource, the members of the objects that are spelled
like it agree. -/
def DatasourceAgree (xs ys : List Json) : Prop :=
  let under (objs : List Json) (tag : String) := objs.flatMap fun j => spelled tag (members j)
  (∀ tag ∈ ["id", "type", "proxy_type", "name", "credential_source", "credential_ref"],
    TextAgree (under xs tag) (under ys tag)) ∧
  MapAgree (fun j => (anyOf j).1) (under xs "config") (under ys "config") ∧
  MapAgree (fun j => lastText [j]) (under xs "credentials") (under ys "credentials") ∧
  SliceAgree TextAgree (under xs "allowed_hosts") (under ys "allowed_hosts")

/-- The values of a field agree: the last string is the same; for a map, under
each name the last value is; for datasources, each element is under every tag. -/
def Slot.Agree : Slot → List Json → List Json → Prop
  | .action | .datasourceID | .method | .url => TextAgree
  | .params => MapAgree fun j => (anyOf j).1
  | .header => MapAgree fun j => anySlice anyString (anyOf j).1
  | .datasources => SliceAgree DatasourceAgree

/-- All spellings of a field in the message together agree with the exactly
spelled one alone. The elements of `datasources` are structs, which take other
spellings in turn: there they have to agree with the signed value `j`. -/
def Slot.Undisturbed (msg : Text) (j : Json) (k : Slot) : Prop :=
  ∀ exact, (exactFields msg).get k.key = some exact →
    k.Agree (spelled k.key (membersOf msg)) [if k = .datasources then j else exact]

namespace SignedValueLemmas

open DispatchLemmas

/-! ## What is executed -/

theorem eq_of_obtains {msg : Text} {k : Slot} {v : k.Value} (h : Obtains msg k v) :
    v = k.decode (spelled k.key (membersOf msg)) := by
  cases h with
  | envelopeAction => exact envelope_action.unmarshal_get {} msg
  | envelopeDatasourceID => exact envelope_datasourceID.unmarshal_get {} msg
  | requestAction => exact request_action.unmarshal_get {} msg
  | requestDatasourceID => exact request_datasourceID.unmarshal_get {} msg
  | requestParams => exact request_params.unmarshal_get {} msg
  | requestMethod => exact request_method.unmarshal_get {} msg
  | requestURL => exact request_url.unmarshal_get {} msg
  | requestHeader => exact request_header.unmarshal_get {} msg
  | pushAction => exact push_action.unmarshal_get {} msg
  | pushDatasources =>
    exact congrArg (fun s : Slice DatasourceCell => s.elems.map (·.map DatasourceCell.value))
      (push_datasources.unmarshal_get {} msg)

theorem exists_obtains (msg : Text) (k : Slot) : ∃ v, Obtains msg k v := by
  cases k with
  | action => exact ⟨_, .envelopeAction⟩
  | datasourceID => exact ⟨_, .envelopeDatasourceID⟩
  | params => exact ⟨_, .requestParams⟩
  | method => exact ⟨_, .requestMethod⟩
  | url => exact ⟨_, .requestURL⟩
  | header => exact ⟨_, .requestHeader⟩
  | datasources => exact ⟨_, .pushDatasources⟩

theorem obtains_iff (msg : Text) (k : Slot) (v : k.Value) :
    Obtains msg k v ↔ v = k.decode (spelled k.key (membersOf msg)) := by
  refine ⟨eq_of_obtains, fun h => ?_⟩
  obtain ⟨w, hw⟩ := exists_obtains msg k
  rwa [h, ← eq_of_obtains hw]

/-! ## What is signed -/

theorem matchFields_ok {msgFields payload : StrMap Json}
    (h : matchFields msgFields payload = .ok ()) {key : String} {j : Json}
    (hj : payload.get key = some j) :
    ∃ exact, msgFields.get key = some exact ∧ (anyOf j).1 = (anyOf exact).1 := by
  induction payload with
  | nil => cases hj
  | cons e payload ih =>
    obtain ⟨k, val⟩ := e
    unfold matchFields at h
    split at h
    · cases h
    · next exact hexact =>
      split at h
      · cases h
      · cases h
      · next a b ha hb =>
        split at h
        · next hab =>
          rw [StrMap.get_cons] at hj
          split at hj
          · next hkey =>
            obtain rfl := Option.some.inj hj
            refine ⟨exact, hkey ▸ hexact, ?_⟩
            unfold canonicalJSON at ha hb
            split at ha
            · next hva =>
              split at hb
              · next hvb =>
                rw [hva, hvb]
                cases ha
                cases hb
                exact hab
              · cases hb
            · cases ha
          · exact ih h hj
        · cases h

theorem exact_of_accepted {ed : Ed25519} {v : Verifier} {clock : Clock} {msg : Text}
    (hen : v.enabled = true) (hok : (verify ed v clock msg).1 = .ok ()) {key : String} {j : Json}
    (hj : (payloadFields msg).get key = some j) :
    ∃ exact, (exactFields msg).get key = some exact ∧ (anyOf j).1 = (anyOf exact).1 := by
  obtain ⟨env, hp, -⟩ := (SigningLemmas.verify_ok_iff hen).mp hok
  have hmatch := hp.matched
  unfold payloadFields exactFields at hj
  rw [hp.decoded] at hj
  unfold verifyPayloadMatchesMessage at hmatch
  unfold exactFields
  split at hmatch
  · cases hmatch
  · next hpay =>
    split at hmatch
    · cases hmatch
    · next hmsg =>
      rw [hpay] at hj
      rw [hmsg]
      exact matchFields_ok hmatch hj

theorem decode_of_any {j j' : Json} (h : (anyOf j).1 = (anyOf j').1) {k : Slot}
    (hk : k ≠ .datasources) : k.decode [j] = k.decode [j'] := by
  have hstr : (string "" j).1 = (string "" j').1 := by rw [string_fresh, string_fresh, h]
  cases k with
  | action | datasourceID | method | url => exact hstr
  | params =>
    have hmap : ∀ j, (paramsDecoder none j).1 = anyMap (fun a => a) (anyOf j).1 :=
      mapOf_fresh fun _ => rfl
    show (paramsDecoder none j).1 = (paramsDecoder none j').1
    rw [hmap, hmap, h]
  | header =>
    have hmap : ∀ j, (headerDecoder none j).1 = anyMap (anySlice anyString) (anyOf j).1 :=
      mapOf_fresh fun j => freshSliceOf_fresh string_fresh none j
    show (headerDecoder none j).1 = (headerDecoder none j').1
    rw [hmap, hmap, h]
  | datasources => exact absurd rfl hk

/-! ## Agreement -/

theorem params_eq_iff (js ks : List Json) :
    stored paramsDecoder none js = stored paramsDecoder none ks ↔
      MapAgree (fun j => (anyOf j).1) js ks :=
  stored_mapOf_eq_iff .nil any js ks

theorem header_eq_iff (js ks : List Json) :
    stored headerDecoder none js = stored headerDecoder none ks ↔
      MapAgree (fun j => anySlice anyString (anyOf j).1) js ks := by
  have hval : (fun j => (freshSliceOf "" string none j).1) =
      fun j => anySlice anyString (anyOf j).1 :=
    funext fun j => freshSliceOf_fresh string_fresh none j
  rw [← hval]
  exact stored_mapOf_eq_iff none (freshSliceOf "" string) js ks

theorem creds_eq_iff (js ks : List Json) :
    stored credsDecoder none js = stored credsDecoder none ks ↔
      MapAgree (fun j => lastText [j]) js ks := by
  have hval : (fun j => (string "" j).1) = fun j => lastText [j] :=
    funext fun j => stored_string [j]
  rw [← hval]
  exact stored_mapOf_eq_iff "" string js ks

theorem hosts_eq_iff (js ks : List Json) :
    (stored (sliceOf "" string) .nil js).elems = (stored (sliceOf "" string) .nil ks).elems ↔
      SliceAgree TextAgree js ks := by
  have h := @stored_slice_eq_iff String String "" string id TextAgree stored_string_eq_iff js ks
  simpa using h

theorem datasource_eq_iff (xs ys : List Json) :
    (stored (struct datasourceFields) {} xs).value =
      (stored (struct datasourceFields) {} ys).value ↔ DatasourceAgree xs ys := by
  rw [stored_datasource, stored_datasource]
  unfold readDatasource DatasourceAgree
  simp only [Datasource.mk.injEq, stored_string_eq_iff, params_eq_iff, creds_eq_iff, hosts_eq_iff,
    List.forall_mem_cons]
  constructor
  · rintro ⟨hid, htype, hproxy, hname, hconfig, hcreds, hsource, href, hhosts⟩
    exact ⟨⟨hid, htype, hproxy, hname, hsource, href, List.forall_mem_nil _⟩,
      hconfig, hcreds, hhosts⟩
  · rintro ⟨⟨hid, htype, hproxy, hname, hsource, href, -⟩, hconfig, hcreds, hhosts⟩
    exact ⟨hid, htype, hproxy, hname, hconfig, hcreds, hsource, href, hhosts⟩

theorem decode_eq_iff (k : Slot) (js ks : List Json) :
    k.decode js = k.decode ks ↔ k.Agree js ks := by
  cases k with
  | action | datasourceID | method | url => exact stored_string_eq_iff js ks
  | params => exact params_eq_iff js ks
  | header => exact header_eq_iff js ks
  | datasources => exact stored_slice_eq_iff datasource_eq_iff js ks

end SignedValueLemmas

/-! ## Results -/

open SignedValueLemmas in
/-- For a message that an enabled verifier accepts and a field of its signed
payload, `HandleMessage` gets the signed value exactly if no other spelling of
the field disturbs it. -/
theorem signed_value_iff (ed : Ed25519) (v : Verifier) (clock : Clock) (msg : Text) (k : Slot)
    (j : Json) (hen : v.enabled = true) (hok : (verify ed v clock msg).1 = .ok ())
    (hj : (payloadFields msg).get k.key = some j) :
    (∀ w, Obtains msg k w → w = k.decode [j]) ↔ k.Undisturbed msg j := by
  have hvalue : (∀ w, Obtains msg k w → w = k.decode [j]) ↔
      k.decode (spelled k.key (membersOf msg)) = k.decode [j] := by
    simp only [obtains_iff, forall_eq]
  obtain ⟨exact, hexact, hany⟩ := exact_of_accepted hen hok hj
  have hcompared : k.decode [j] = k.decode [if k = .datasources then j else exact] := by
    split
    · rfl
    · next hk => exact decode_of_any hany hk
  rw [hvalue, hcompared, decode_eq_iff]
  constructor
  · intro h exact' hexact'
    obtain rfl := Option.some.inj (hexact.symm.trans hexact')
    exact h
  · exact fun h => h exact hexact

def queryWith (added : List (String × Json)) : Text :=
  let signed := [("action", Json.str (quote "db_query"))]
  messageOf (produce echoEd ⟨[], ""⟩ 0 "n" signed) (signed ++ added)

theorem signed_value_query : ∃ j, (payloadFields (queryWith [])).get "action" = some j ∧
    ((∀ w, Obtains (queryWith []) .action w → w = Slot.action.decode [j]) ↔
      Slot.action.Undisturbed (queryWith []) j) := by
  obtain ⟨j, hj⟩ := Option.isSome_iff_exists.mp
    (show ((payloadFields (queryWith [])).get "action").isSome by decide +kernel)
  exact ⟨j, hj, signed_value_iff echoEd ⟨[], true, ∅⟩ ⟨0, 0, 0⟩ (queryWith []) .action j rfl
    (by decide +kernel) hj⟩

/-- Not for every accepted message, whatever the scheme: a second action under
a key in another case is executed in place of the signed one. -/
theorem signed_value_recased :
    ¬ ∀ (ed : Ed25519) (signer : Signer) (v : Verifier) (clock : Clock) (msg : Text) (k : Slot)
      (j : Json),
      (∀ p sig, ed.verify v.publicKey p sig = true ↔ sig = ed.sign signer.privateKey p) →
      v.enabled = true → (verify ed v clock msg).1 = .ok () →
      (payloadFields msg).get k.key = some j → ∀ w, Obtains msg k w → w = k.decode [j] := by
  intro h
  let msg := queryWith [("Action", .str (quote "ssh_command"))]
  have hsigned : ((payloadFields msg).get "action").map (fun j => stored string "" [j]) =
      some "db_query" := by decide +kernel
  obtain ⟨j, hj, hstored⟩ := Option.map_eq_some_iff.mp hsigned
  have hexecuted : (envelope msg).1.action = "ssh_command" := by decide +kernel
  have heq := h echoEd ⟨[], ""⟩ ⟨[], true, ∅⟩ ⟨0, 0, 0⟩ msg .action j (by simp [echoEd]) rfl
    (by decide +kernel) hj _ .envelopeAction
  rw [hexecuted] at heq
  have hsame := heq.trans hstored
  revert hsame
  decide

end Forager
