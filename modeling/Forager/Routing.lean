import Forager.Dispatch
import Forager.JsonMarshal

/-!
# Requests there and back

A request as the API server sends it, and what the agent makes of it:
`HandleMessage` with the call of `HandleRequest` and the response. The message
is decoded twice, into the envelope of `HandleMessage` and into an
`ActionRequest`; `body` is an object in the one and a string in the other.
-/

namespace Forager

open GoJson JsonText Go

/-! ## Encoding a request -/

def headerValue : Option (List String) → Json
  | none => .null
  | some xs => .arr (xs.map fun s => .str (quote s))

def ActionRequest.members (r : ActionRequest) : List (String × Option Json) :=
  [("request_id", some (.str (quote r.requestID))),
   ("datasource_id", some (.str (quote r.datasourceID))),
   ("action", some (.str (quote r.action))),
   ("params", omitEmptyMap ofAny r.params),
   ("method", omitEmpty r.method),
   ("url", omitEmpty r.url),
   ("header", omitEmptyMap headerValue r.header),
   ("body", omitEmpty r.body)]

def ActionRequest.marshal (r : ActionRequest) : Text := print (marshalStruct r.members)

/-- The request with empty maps as nil maps. -/
def ActionRequest.norm (r : ActionRequest) : ActionRequest :=
  { r with params := dropEmpty r.params, header := dropEmpty r.header }

/-- The parameters are JSON values, and maps are in key order. -/
structure ActionRequest.Wellformed (r : ActionRequest) : Prop where
  params : ∀ m, r.params = some m → IsJson (.map m)
  header : ∀ m, r.header = some m → m.Sorted

/-! ## Responses -/

structure ActionResponse where
  statusCode : Int
  requestID : String := ""
  action : String := ""
  errorCode : String := ""
  data : String := ""
  result : Option Json := none

def ActionResponse.marshal (r : ActionResponse) : Text :=
  print (marshalStruct
    [("status_code", some (.num (intLit r.statusCode))),
     ("request_id", some (.str (quote r.requestID))),
     ("action", omitEmpty r.action),
     ("error_code", omitEmpty r.errorCode),
     ("data", omitEmpty r.data),
     ("result", r.result.map htmlEscape)])

/-- An error of `HandleRequest`; `unreachable` is
`errors.Is(err, ErrUpstreamUnreachable)`. -/
structure RequestFailure where
  text : String
  unreachable : Bool

/-- What `HandleMessage` gets from elsewhere. -/
structure RequestWorld (P : Type) where
  handleRequest : P → ActionRequest → Except RequestFailure ActionResponse
  /-- `%q` of `fmt.Sprintf`. -/
  formatQuoted : String → String
  /-- The error of decoding a message as an `ActionRequest`. -/
  decodeError : Text → String
  /-- `handleConfigSync`; `none` is an error. -/
  configSync : ConfigPush → String → Option Text
  /-- `handleTestDatasourceConfig`. -/
  testConfig : TestConfig → String → Option Text

def ReplyError.message (decodeError : String) : ReplyError → String
  | .signature => "signature verification failed"
  | .datasourceNotFound id => "datasource " ++ id ++ " not found"
  | .invalidRequest => "invalid request: " ++ decodeError
  | .missingDatasourceID => "missing datasource_id"
  | .noHTTPProxy => "no http-proxy datasource configured"
  | .ambiguousHTTPProxy n =>
    toString n ++ " http-proxy datasources configured; datasource_id is required"
  | .unrecognized => "unrecognized message format"

section Serve

variable {P : Type} (w : RequestWorld P)

def buildCodedErrorResponse (requestID : String) (statusCode : Int) (code message : String) :
    Text :=
  ActionResponse.marshal
    { statusCode, requestID, errorCode := code,
      data := "\x7b\"error\": " ++ w.formatQuoted message ++ "\x7d" }

def buildProxyErrorResponse (requestID : String) (err : RequestFailure) : Text :=
  buildCodedErrorResponse w requestID 500 (if err.unreachable then "upstream_unreachable" else "")
    err.text

/-- The call of `HandleRequest` and the response made of its result. -/
def callProxy (requestID : String) (p : P) (req : ActionRequest) : Text :=
  match w.handleRequest p req with
  | .error err => buildProxyErrorResponse w requestID err
  | .ok resp => { resp with requestID }.marshal

/-- What one call of `HandleMessage` does: the calls of `HandleRequest` it
makes and what it returns, `none` for an error. -/
structure Served (P : Type) where
  calls : List (P × ActionRequest)
  returned : Option Text

/-- What follows on the dispatch of a message. -/
def serve (msg : Text) (requestID : String) : Dispatch P → Served P
  | .configSync push => ⟨[], w.configSync push requestID⟩
  | .testConfig req => ⟨[], w.testConfig req requestID⟩
  | .request p req | .legacyAction p req | .legacyHTTP p req =>
    ⟨[(p, req)], some (callProxy w requestID p req)⟩
  | .reply err =>
    ⟨[], some (buildCodedErrorResponse w requestID err.status err.code
      (err.message (w.decodeError msg)))⟩
  | .failed _ => ⟨[], none⟩

def serveMessage (ed : Ed25519) (h : Handler P) (clock : Clock) (msg : Text) : Served P :=
  serve w msg (envelope msg).1.requestID (handleMessage ed h clock msg).1

end Serve

/-- `HandleRequest` of `p` was called once with the request, and the response
carries its id. -/
def RoundTrip {P : Type} (p : P) (r : ActionRequest) (s : Served P) : Prop :=
  (∃ req, s.calls = [(p, req)] ∧ req.norm = r.norm) ∧
    ∃ resp : ActionResponse, s.returned = some resp.marshal ∧ resp.requestID = r.requestID

namespace RoutingLemmas

variable {P : Type} {r : ActionRequest}

theorem decode_headerValue (v : Option (List String)) :
    freshSliceOf "" string none (headerValue v) = (v, true) := by
  cases v with
  | none => rfl
  | some xs => exact freshSliceOf_marshalled (fun x _ => string_quote "" x) none

theorem actionRequest_members (hr : r.Wellformed) :
    struct actionRequestFields {} (marshalStruct r.members) = (r.norm, true) := by
  have hparams : ∀ m, r.params = some m →
      m.Sorted ∧ ∀ e ∈ m, any .nil (ofAny e.2) = (e.2, true) := fun m hm => by
    have hj := hr.params m hm
    rw [IsJson] at hj
    exact ⟨hj.1, haveJson_forall m hj.2⟩
  have hheader : ∀ m, r.header = some m →
      m.Sorted ∧ ∀ e ∈ m, freshSliceOf "" string none (headerValue e.2) = (e.2, true) :=
    fun m hm => ⟨hr.header m hm, fun e _ => decode_headerValue e.2⟩
  rw [struct_marshalStruct, ActionRequest.members]
  simp only [List.foldl_cons, List.foldl_nil]
  -- the variable after each member
  let r1 : ActionRequest := { requestID := r.requestID }
  let r2 := { r1 with datasourceID := r.datasourceID }
  let r3 := { r2 with action := r.action }
  let r4 := { r3 with params := dropEmpty r.params }
  let r5 := { r4 with method := r.method }
  let r6 := { r5 with url := r.url }
  let r7 := { r6 with header := dropEmpty r.header }
  have h1 : memberStep actionRequestFields ({}, true)
      ("request_id", some (.str (quote r.requestID))) = (r1, true) :=
    step_string (by rfl) (by rfl)
  have h2 : memberStep actionRequestFields (r1, true)
      ("datasource_id", some (.str (quote r.datasourceID))) = (r2, true) :=
    step_string (by rfl) (by rfl)
  have h3 : memberStep actionRequestFields (r2, true)
      ("action", some (.str (quote r.action))) = (r3, true) :=
    step_string (by rfl) (by rfl)
  have h4 : memberStep actionRequestFields (r3, true)
      ("params", omitEmptyMap ofAny r.params) = (r4, true) :=
    step_omitEmptyMap (by rfl) (by rfl) (by rfl) (by rfl) hparams
  have h5 : memberStep actionRequestFields (r4, true) ("method", omitEmpty r.method) = (r5, true) :=
    step_omitEmpty (by rfl) (by rfl) (by rfl)
  have h6 : memberStep actionRequestFields (r5, true) ("url", omitEmpty r.url) = (r6, true) :=
    step_omitEmpty (by rfl) (by rfl) (by rfl)
  have h7 : memberStep actionRequestFields (r6, true)
      ("header", omitEmptyMap headerValue r.header) = (r7, true) :=
    step_omitEmptyMap (by rfl) (by rfl) (by rfl) (by rfl) hheader
  have h8 : memberStep actionRequestFields (r7, true) ("body", omitEmpty r.body) = (r.norm, true) :=
    step_omitEmpty (by rfl) (by rfl) (by rfl)
  rw [h1, h2, h3, h4, h5, h6, h7, h8]

theorem envelope_members (r : ActionRequest) :
    struct envelopeFields {} (marshalStruct r.members) =
      memberStep envelopeFields (⟨r.action, r.requestID, r.datasourceID, {}⟩, true)
        ("body", omitEmpty r.body) := by
  have hskip : ∀ tag ∈ ["params", "method", "url", "header"], ∀ acc v,
      memberStep envelopeFields acc (tag, v) = acc := by
    intro tag htag acc v
    have hnone : ∀ tag ∈ ["params", "method", "url", "header"],
        (findField envelopeFields tag).isNone = true := by decide
    exact step_none (Option.isNone_iff_eq_none.mp (hnone tag htag)) acc v
  let e1 : Envelope := { requestID := r.requestID }
  let e2 := { e1 with datasourceID := r.datasourceID }
  let e3 := { e2 with action := r.action }
  have h1 : memberStep envelopeFields ({}, true)
      ("request_id", some (.str (quote r.requestID))) = (e1, true) :=
    step_string (by rfl) (by rfl)
  have h2 : memberStep envelopeFields (e1, true)
      ("datasource_id", some (.str (quote r.datasourceID))) = (e2, true) :=
    step_string (by rfl) (by rfl)
  have h3 : memberStep envelopeFields (e2, true)
      ("action", some (.str (quote r.action))) = (e3, true) :=
    step_string (by rfl) (by rfl)
  rw [struct_marshalStruct, ActionRequest.members]
  simp only [List.foldl_cons, List.foldl_nil]
  rw [h1, h2, h3, hskip "params" (by decide), hskip "method" (by decide), hskip "url" (by decide),
    hskip "header" (by decide)]

theorem envelope_no_body (hbody : r.body = "") :
    struct envelopeFields {} (marshalStruct r.members) =
      (⟨r.action, r.requestID, r.datasourceID, {}⟩, true) := by
  rw [envelope_members, hbody]
  rfl

theorem envelope_body (hbody : r.body ≠ "") :
    (struct envelopeFields {} (marshalStruct r.members)).2 = false := by
  rw [envelope_members, omitEmpty, if_neg hbody]
  rfl

theorem handleMessage_disabled {ed : Ed25519} {h : Handler P} {clock : Clock} {msg : Text}
    {env : Envelope} (henv : envelope msg = (env, true))
    (hoff : ∀ v, h.verifier = some v → v.enabled = false) :
    (handleMessage ed h clock msg).1 = route h env msg := by
  unfold handleMessage
  rw [henv]
  cases hv : h.verifier with
  | none => rfl
  | some v =>
    have hver : verify ed v clock msg = (.ok (), v) := by simp [verify, hoff v hv]
    dsimp only
    rw [hver]
    dsimp only
    repeat' split
    all_goals rfl

theorem callProxy_marshal (w : RequestWorld P) (requestID : String) (p : P) (req : ActionRequest) :
    ∃ resp : ActionResponse, callProxy w requestID p req = resp.marshal ∧
      resp.requestID = requestID := by
  unfold callProxy
  cases w.handleRequest p req with
  | error err => exact ⟨_, rfl, rfl⟩
  | ok resp => exact ⟨_, rfl, rfl⟩

theorem dropEmpty_dropEmpty {β : Type} (m : Option (StrMap β)) :
    dropEmpty (dropEmpty m) = dropEmpty m := by
  match m with
  | none | some [] | some (_ :: _) => rfl

end RoutingLemmas

open RoutingLemmas in
/-- With verification off, a request for a registered datasource that is no
config message gets through as it was sent exactly if it has no body and is
not nested deeper than `encoding/json` reads. -/
theorem routing_round_trip_iff {P : Type} (ed : Ed25519) (w : RequestWorld P) (h : Handler P)
    (clock : Clock) (p : P) (r : ActionRequest) (hid : r.datasourceID ≠ "")
    (hreg : h.registry.proxies.lookup r.datasourceID = some p)
    (hsync : r.action ≠ "datasource_config_sync") (htest : r.action ≠ "test_datasource_config")
    (hoff : ∀ v, h.verifier = some v → v.enabled = false) (hr : r.Wellformed) :
    RoundTrip p r (serveMessage w ed h clock r.marshal) ↔
      r.body = "" ∧ depth (marshalStruct r.members) ≤ maxNestingDepth := by
  have henv : envelope r.marshal = if depth (marshalStruct r.members) ≤ maxNestingDepth then
      struct envelopeFields {} (marshalStruct r.members) else ({}, false) := unmarshal_print _ _ _
  have hfailed : ∀ env, envelope r.marshal = (env, false) →
      ¬ RoundTrip p r (serveMessage w ed h clock r.marshal) := by
    rintro env hfalse ⟨⟨req, hcalls, -⟩, -⟩
    have hmsg : (handleMessage ed h clock r.marshal).1 = .failed .envelope := by
      unfold handleMessage
      rw [hfalse]
    rw [serveMessage, hmsg] at hcalls
    cases hcalls
  constructor
  · intro hround
    by_contra hnot
    by_cases hdepth : depth (marshalStruct r.members) ≤ maxNestingDepth
    · have hbody := envelope_body fun hbody => hnot ⟨hbody, hdepth⟩
      rw [if_pos hdepth] at henv
      exact hfailed _ (henv.trans (Prod.ext rfl hbody)) hround
    · rw [if_neg hdepth] at henv
      exact hfailed _ henv hround
  · rintro ⟨hbody, hdepth⟩
    rw [if_pos hdepth, envelope_no_body hbody] at henv
    have hreq : actionRequest r.marshal = (r.norm, true) := by
      rw [actionRequest, ActionRequest.marshal, unmarshal_print, if_pos hdepth,
        actionRequest_members hr]
    have hroute : (handleMessage ed h clock r.marshal).1 = .request p r.norm := by
      rw [handleMessage_disabled henv hoff]
      simp only [route, if_neg hsync, if_neg htest, handleRequest, if_neg hid, hreg, hreq]
    obtain ⟨resp, hresp, hrid⟩ := callProxy_marshal w r.requestID p r.norm
    refine ⟨⟨r.norm, ?_, ?_⟩, resp, ?_, hrid⟩
    · rw [serveMessage, hroute]
      rfl
    · simp only [ActionRequest.norm, dropEmpty_dropEmpty]
    · rw [serveMessage, hroute, henv, ← hresp]
      rfl

def plainHandler : Handler Unit :=
  ⟨Registry.new.register "d" ⟨"d", "http", "http-proxy", "d", "", ""⟩ (), fun _ => "http-proxy",
    none⟩

/-- Every request gets a 204. -/
def emptyWorld : RequestWorld Unit :=
  ⟨fun _ _ => .ok { statusCode := 204 }, id, fun _ => "", fun _ _ => none, fun _ _ => none⟩

def postRequest (body : String) : ActionRequest :=
  { requestID := "1", datasourceID := "d", action := "http_request", method := "POST",
    url := "/items", header := some [("Accept", some ["text/plain"])], body }

theorem wellformed_postRequest (body : String) : (postRequest body).Wellformed :=
  ⟨fun _ h => (nomatch h), fun _ h => Option.some.inj h ▸ List.pairwise_singleton _ _⟩

theorem routing_round_trip_no_body :
    RoundTrip () (postRequest "")
      (serveMessage emptyWorld echoEd plainHandler ⟨0, 0, 0⟩ (postRequest "").marshal) :=
  (routing_round_trip_iff echoEd emptyWorld plainHandler ⟨0, 0, 0⟩ () (postRequest "") (by decide)
    rfl (by decide) (by decide) (by simp [plainHandler]) (wellformed_postRequest "")).mpr
    ⟨rfl, by decide +kernel⟩

/-- A request with a body gets an error, and its datasource no call. -/
theorem routing_loses_body :
    ¬ ∀ (ed : Ed25519) (w : RequestWorld Unit) (h : Handler Unit) (clock : Clock) (p : Unit)
      (r : ActionRequest), r.datasourceID ≠ "" →
      h.registry.proxies.lookup r.datasourceID = some p → r.action ≠ "datasource_config_sync" →
      r.action ≠ "test_datasource_config" → (∀ v, h.verifier = some v → v.enabled = false) →
      r.Wellformed → RoundTrip p r (serveMessage w ed h clock r.marshal) := by
  intro hall
  have hround := hall echoEd emptyWorld plainHandler ⟨0, 0, 0⟩ () (postRequest "x") (by decide) rfl
    (by decide) (by decide) (by simp [plainHandler]) (wellformed_postRequest "x")
  obtain ⟨⟨req, hcalls, -⟩, -⟩ := hround
  have hnone : (serveMessage emptyWorld echoEd plainHandler ⟨0, 0, 0⟩
      (postRequest "x").marshal).calls = [] := by decide +kernel
  rw [hnone] at hcalls
  cases hcalls

end Forager
