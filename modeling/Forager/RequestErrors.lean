import Forager.Registry
import Forager.When
import Mathlib.Logic.Function.Basic

/-!
# Request failures

`RecordRequestResult` of `pkg/proxy/registry.go` keeps the last unrecovered request
failure of a datasource for the next health report. It is given the datasource id
only, after a request of any length: between `Get` and the recording the proxy may
have been replaced.
-/

namespace Forager

/-! ## Recording -/

/-- An error of `HandleRequest`: its text and what it wraps. -/
structure ProxyError where
  text : String
  netError : Bool := false
  eof : Bool := false
  unexpectedEOF : Bool := false
deriving DecidableEq, Repr

def integrationErrorMarkers : List String :=
  ["connection refused", "connection reset", "broken pipe", "no such host",
    "i/o timeout", "network is unreachable", "no route to host",
    "handshake failed", "unable to authenticate", "authentication failed",
    "password authentication", "access denied for user", "permission denied (publickey",
    "host key", "x509:", "tls:", "sasl", "noauth", "wrongpass"]

/-- `unicode.ToLower`, for characters with an ASCII result. The markers are ASCII,
so what the others become does not matter. -/
def lowerRune (c : Char) : Char :=
  if c = Char.ofNat 0x212a then 'k' else if c = Char.ofNat 0x130 then 'i' else c.toLower

def isIntegrationError (err : ProxyError) : Bool :=
  err.netError || err.eof || err.unexpectedEOF ||
    integrationErrorMarkers.any fun m => containsText (err.text.toList.map lowerRune) m.toList

def requestErrorTTL : Int := 15 * 60 * 1000000000

namespace Registry

variable {P : Type}

/-- `RecordRequestResult`; `cancelled` is `ctx.Err() != nil`, `redact` is
`RedactError`. -/
def recordRequestResult (redact : String → String) (r : Registry P) (cancelled : Bool)
    (id : String) (err : Option ProxyError) (now : Int) : Registry P :=
  if err.any fun e => cancelled || !isIntegrationError e then r
  else
    match r.proxies.lookup id with
    | none => r
    | some _ =>
      match err with
      | none => { r with reqErrors := r.reqErrors.erase id }
      | some e => { r with reqErrors := r.reqErrors.insert id ⟨redact e.text, now⟩ }

/-- The result is a failure that `RecordRequestResult` puts on record. -/
def putsOnRecord (r : Registry P) (cancelled : Bool) (id : String) (err : Option ProxyError) :
    Bool :=
  (r.proxies.lookup id).isSome && err.any fun e => !cancelled && isIntegrationError e

/-- `recentRequestError`: drops a failure that is too old. -/
def recentRequestError (r : Registry P) (id : String) (now : Int) : Registry P × Option String :=
  match r.reqErrors.lookup id with
  | none => (r, none)
  | some e =>
    if requestErrorTTL < now - e.at_ then ({ r with reqErrors := r.reqErrors.erase id }, none)
    else (r, some e.msg)

end Registry

/-! ## Requests in flight -/

inductive RequestPhase (P : Type)
  | start
  /-- Inside `HandleRequest` of the proxy. -/
  | handling (p : P)
  /-- `HandleRequest` has returned. -/
  | handled (p : P) (err : Option ProxyError)
  | done
deriving DecidableEq, Repr

/-- The registry with the requests in flight. `source` notes, for each id, the
proxy whose failure was recorded last; no step reads it. -/
structure RequestState (ι P : Type) where
  registry : Registry P
  phase : ι → RequestPhase P
  source : String → Option P

inductive RequestAct (ι P : Type)
  /-- `Get`. -/
  | get (i : ι)
  /-- `HandleRequest` returns. -/
  | handle (i : ι) (err : Option ProxyError)
  /-- `RecordRequestResult`, with `ctx.Err() != nil` and the clock. -/
  | record (i : ι) (cancelled : Bool) (now : Int)
  | register (id : String) (entry : DatasourceEntry) (p : P)
  | remove (id : String) (closeErr : Option String)
  /-- A health report asks `recentRequestError`. -/
  | recent (id : String) (now : Int)

section Model

variable {ι P : Type} [DecidableEq ι]

def RequestState.new : RequestState ι P := ⟨.new, fun _ => .start, fun _ => none⟩

def RequestState.goto (s : RequestState ι P) (i : ι) (p : RequestPhase P) : RequestState ι P :=
  { s with phase := Function.update s.phase i p }

variable (req : ι → String) (redact : String → String)

/-- One step; `req i` is the datasource id of the request. -/
def requestStep (s : RequestState ι P) : RequestAct ι P → RequestState ι P
  | .get i =>
    match s.phase i with
    | .start => s.goto i (match s.registry.get (req i) with
      | some p => .handling p
      | none => .done)
    | _ => s
  | .handle i err =>
    match s.phase i with
    | .handling p => s.goto i (.handled p err)
    | _ => s
  | .record i cancelled now =>
    match s.phase i with
    | .handled p err =>
      { s with
        registry := s.registry.recordRequestResult redact cancelled (req i) err now
        source :=
          if s.registry.putsOnRecord cancelled (req i) err then
            Function.update s.source (req i) (some p)
          else s.source }.goto i .done
    | _ => s
  | .register id entry p => { s with registry := s.registry.register id entry p }
  | .remove id closeErr => { s with registry := (s.registry.remove id closeErr).1 }
  | .recent id now => { s with registry := (s.registry.recentRequestError id now).1 }

def requestRun (acts : List (RequestAct ι P)) : RequestState ι P :=
  Runs.Run (requestStep req redact) .new acts

/-- Every failure on record was produced by the registered proxy. -/
def Attributed (s : RequestState ι P) : Prop :=
  ∀ id e, s.registry.reqErrors.lookup id = some e →
    ∃ p, s.registry.get id = some p ∧ s.source id = some p

/-- The steps that may clear the failure `e` of the proxy `p` under `id`. -/
inductive Clears (s : RequestState ι P) (id : String) (p : P) (e : RequestError) :
    RequestAct ι P → Prop
  | success {i : ι} {cancelled : Bool} {now : Int} : req i = id → s.phase i = .handled p none →
      Clears s id p e (.record i cancelled now)
  | expired {now : Int} : requestErrorTTL < now - e.at_ → Clears s id p e (.recent id now)
  | register {entry : DatasourceEntry} {q : P} : Clears s id p e (.register id entry q)
  | remove {closeErr : Option String} : Clears s id p e (.remove id closeErr)

/-- A failure of the registered proxy is gone after the step only if the step may
clear it. -/
def ClearsRightly (s : RequestState ι P) (a : RequestAct ι P) : Prop :=
  ∀ id e p, s.registry.reqErrors.lookup id = some e → s.registry.get id = some p →
    s.source id = some p → (requestStep req redact s a).registry.reqErrors.lookup id = none →
    Clears req s id p e a

/-- The recording changes what is on record. -/
def TakesEffect (s : RequestState ι P) (i : ι) (cancelled : Bool) (err : Option ProxyError) :
    Prop :=
  s.registry.putsOnRecord cancelled (req i) err ∨
    (err = none ∧ req i ∈ s.registry.proxies ∧ req i ∈ s.registry.reqErrors)

/-- A result that takes effect is recorded while the proxy that produced it is
still registered. -/
def RecordsCurrent (s : RequestState ι P) (a : RequestAct ι P) : Prop :=
  ∀ i cancelled now p err, a = .record i cancelled now → s.phase i = .handled p err →
    TakesEffect req s i cancelled err → s.registry.get (req i) = some p

end Model

namespace RequestLemmas

variable {P : Type} {r : Registry P} {redact : String → String} {cancelled : Bool} {id : String}
  {err : Option ProxyError} {now : Int}

theorem recordRequestResult_cases (redact : String → String) (r : Registry P) (cancelled : Bool)
    (id : String) (err : Option ProxyError) (now : Int) :
    (∃ e, err = some e ∧ r.putsOnRecord cancelled id err ∧
      r.recordRequestResult redact cancelled id err now =
        { r with reqErrors := r.reqErrors.insert id ⟨redact e.text, now⟩ }) ∨
    (err = none ∧ id ∈ r.proxies ∧ r.putsOnRecord cancelled id err = false ∧
      r.recordRequestResult redact cancelled id err now =
        { r with reqErrors := r.reqErrors.erase id }) ∨
    (r.putsOnRecord cancelled id err = false ∧
      r.recordRequestResult redact cancelled id err now = r) := by
  unfold Registry.recordRequestResult Registry.putsOnRecord
  cases hid : r.proxies.lookup id with
  | none => simp
  | some p =>
    have hmem : id ∈ r.proxies := AList.lookup_isSome.mp (hid ▸ rfl)
    cases err with
    | none => simp [hmem]
    | some e => cases cancelled <;> cases hint : isIntegrationError e <;> simp [hint]

theorem recentRequestError_lookup_ne {id' : String} (h : id ≠ id') :
    (r.recentRequestError id' now).1.reqErrors.lookup id = r.reqErrors.lookup id := by
  unfold Registry.recentRequestError
  split
  · rfl
  · split
    · exact AList.lookup_erase_ne h
    · rfl

theorem recentRequestError_proxies : (r.recentRequestError id now).1.proxies = r.proxies := by
  unfold Registry.recentRequestError
  split
  · rfl
  · split <;> rfl

theorem recentRequestError_lookup (r : Registry P) (id : String) (now : Int) :
    (r.recentRequestError id now).1.reqErrors.lookup id = r.reqErrors.lookup id ∨
    ∃ e, r.reqErrors.lookup id = some e ∧ requestErrorTTL < now - e.at_ ∧
      (r.recentRequestError id now).1.reqErrors.lookup id = none := by
  unfold Registry.recentRequestError
  split
  · exact .inl rfl
  · rename_i e he
    split
    · rename_i hold
      exact .inr ⟨e, he, hold, AList.lookup_erase _ _⟩
    · exact .inl rfl

theorem remove_errors_ne {id' : String} {closeErr : Option String} (h : id ≠ id') :
    (r.remove id' closeErr).1.reqErrors.lookup id = r.reqErrors.lookup id := by
  unfold Registry.remove
  split
  · rfl
  · split
    · rfl
    · exact AList.lookup_erase_ne h

theorem remove_errors (r : Registry P) (id : String) (closeErr : Option String) :
    (r.remove id closeErr).1.reqErrors.lookup id = none ∨
    ((r.remove id closeErr).1.reqErrors = r.reqErrors ∧
      (r.remove id closeErr).1.proxies = r.proxies) := by
  unfold Registry.remove
  split
  · exact .inr ⟨rfl, rfl⟩
  · split
    · exact .inr ⟨rfl, rfl⟩
    · exact .inl (AList.lookup_erase _ _)

variable {ι : Type} [DecidableEq ι] {req : ι → String} {s : RequestState ι P}
  {a : RequestAct ι P} {acts : List (RequestAct ι P)}

/-- What a step from `s` to `s'` does to the failure on record for `id`. -/
inductive ErrorMove (req : ι → String) (s s' : RequestState ι P) (id : String) :
    RequestAct ι P → Prop
  | kept {a : RequestAct ι P} :
      s'.registry.reqErrors.lookup id = s.registry.reqErrors.lookup id →
      s'.source id = s.source id →
      s'.registry.get id = s.registry.get id → ErrorMove req s s' id a
  | failed {i : ι} {cancelled : Bool} {now : Int} {p : P} {err : Option ProxyError}
      {e : RequestError} : req i = id → s.phase i = .handled p err →
      s.registry.putsOnRecord cancelled (req i) err →
      s'.registry.reqErrors.lookup id = some e → s'.source id = some p →
      s'.registry.get id = s.registry.get id → ErrorMove req s s' id (.record i cancelled now)
  | succeeded {i : ι} {cancelled : Bool} {now : Int} {p : P} : req i = id →
      s.phase i = .handled p none → req i ∈ s.registry.proxies →
      s'.registry.reqErrors.lookup id = none → ErrorMove req s s' id (.record i cancelled now)
  | expired {now : Int} {e : RequestError} : s.registry.reqErrors.lookup id = some e →
      requestErrorTTL < now - e.at_ → s'.registry.reqErrors.lookup id = none →
      ErrorMove req s s' id (.recent id now)
  | registered {entry : DatasourceEntry} {p : P} : s'.registry.reqErrors.lookup id = none →
      ErrorMove req s s' id (.register id entry p)
  | removed {closeErr : Option String} : s'.registry.reqErrors.lookup id = none →
      ErrorMove req s s' id (.remove id closeErr)

omit [DecidableEq ι] in
theorem ErrorMove.same {s' : RequestState ι P} (hr : s'.registry = s.registry)
    (hs : s'.source = s.source) : ErrorMove req s s' id a :=
  .kept (by rw [hr]) (by rw [hs]) (by rw [hr])

theorem record_failed {i : ι} {p : P} (hi : s.phase i = .handled p err)
    (hput : s.registry.putsOnRecord cancelled (req i) err) :
    let s' := requestStep req redact s (.record i cancelled now)
    (∃ e, s'.registry.reqErrors.lookup (req i) = some e) ∧ s'.source (req i) = some p ∧
      s'.registry.get (req i) = s.registry.get (req i) := by
  simp only [requestStep, hi, if_pos hput]
  rcases recordRequestResult_cases redact s.registry cancelled (req i) err now with
    ⟨e, -, -, hr⟩ | ⟨-, -, hno, -⟩ | ⟨hno, -⟩
  · rw [hr]
    exact ⟨⟨_, AList.lookup_insert _⟩, Function.update_self .., rfl⟩
  · rw [hput] at hno; cases hno
  · rw [hput] at hno; cases hno

theorem record_succeeded {i : ι} {p : P} (hi : s.phase i = .handled p none)
    (hmem : req i ∈ s.registry.proxies) :
    (requestStep req redact s (.record i cancelled now)).registry.reqErrors.lookup (req i) =
      none := by
  obtain ⟨q, hq⟩ := Option.isSome_iff_exists.mp (AList.lookup_isSome.mpr hmem)
  simp only [requestStep, hi, Registry.recordRequestResult, Option.any_none, Bool.false_eq_true,
    if_false, hq]
  exact AList.lookup_erase _ _

theorem errors_record {i : ι} {p : P} (hi : s.phase i = .handled p err) :
    ErrorMove req s (requestStep req redact s (.record i cancelled now)) id
      (.record i cancelled now) := by
  rcases recordRequestResult_cases redact s.registry cancelled (req i) err now with
    ⟨e, rfl, hput, hr⟩ | ⟨rfl, hmem, hput, hr⟩ | ⟨hput, hr⟩
  · rcases eq_or_ne id (req i) with rfl | hne
    · obtain ⟨⟨e', he'⟩, hsource, hget⟩ := record_failed hi hput
      exact .failed rfl hi hput he' hsource hget
    · simp only [requestStep, hi, if_pos hput, hr]
      exact .kept (AList.lookup_insert_ne hne) (Function.update_of_ne hne ..) rfl
  · rcases eq_or_ne id (req i) with rfl | hne
    · exact .succeeded rfl hi hmem (record_succeeded hi hmem)
    · simp only [requestStep, hi, hput, hr]
      exact .kept (AList.lookup_erase_ne hne) rfl rfl
  · simp only [requestStep, hi, hput, hr]
    exact .kept rfl rfl rfl

theorem errors_step (req : ι → String) (redact : String → String) (s : RequestState ι P)
    (a : RequestAct ι P) (id : String) : ErrorMove req s (requestStep req redact s a) id a := by
  cases a with
  | get i =>
    simp only [requestStep]
    split <;> exact .same rfl rfl
  | handle i err =>
    simp only [requestStep]
    split <;> exact .same rfl rfl
  | record i cancelled now =>
    cases hi : s.phase i with
    | handled p err => exact errors_record hi
    | start | handling | done =>
      simp only [requestStep, hi]
      exact .same rfl rfl
  | register id' entry p =>
    rcases eq_or_ne id id' with rfl | hne
    · exact .registered (AList.lookup_erase _ _)
    · exact .kept (AList.lookup_erase_ne hne) rfl (Registry.register_lookup_ne hne)
  | remove id' closeErr =>
    rcases eq_or_ne id id' with rfl | hne
    · rcases remove_errors s.registry id closeErr with h | ⟨he, hp⟩
      · exact .removed h
      · exact .kept (congrArg (AList.lookup id) he) rfl (congrArg (AList.lookup id) hp)
    · exact .kept (remove_errors_ne hne) rfl (Registry.remove_lookup_ne hne)
  | recent id' now =>
    have hget : (requestStep req redact s (.recent id' now)).registry.get id =
        s.registry.get id := congrArg (AList.lookup id) recentRequestError_proxies
    rcases eq_or_ne id id' with rfl | hne
    · rcases recentRequestError_lookup s.registry id now with h | ⟨e, he, hold, h⟩
      · exact .kept h rfl hget
      · exact .expired he hold h
    · exact .kept (recentRequestError_lookup_ne hne) rfl hget

theorem attributed_step (h : Attributed s) (hok : RecordsCurrent req s a) :
    Attributed (requestStep req redact s a) := by
  intro id e he
  cases errors_step req redact s a id with
  | kept herr hsource hget =>
    rw [herr] at he
    rw [hget, hsource]
    exact h id e he
  | failed hreq hi hput _ hsource hget =>
    rw [hget, hsource, ← hreq]
    exact ⟨_, hok _ _ _ _ _ rfl hi (.inl hput), rfl⟩
  | succeeded _ _ _ hnone | expired _ _ hnone | registered hnone | removed hnone =>
    rw [hnone] at he
    cases he

theorem attributed_run
    (hok : ∀ pre a, pre ++ [a] <+: acts → RecordsCurrent req (requestRun req redact pre) a) :
    Attributed (requestRun req redact acts) := by
  refine Runs.run_invariant (fun as => Attributed (requestRun req redact as))
    (fun pre a => RecordsCurrent req (requestRun req redact pre) a) ?_ (fun pre a hpa hpre => ?_)
    hok
  · intro id e he
    cases he
  · rw [requestRun, Runs.run_snoc]
    exact attributed_step hpre hpa

theorem clearsRightly_step (hok : RecordsCurrent req s a) : ClearsRightly req redact s a := by
  intro id e p he hp _ hnone
  cases errors_step req redact s a id with
  | kept herr => rw [herr, he] at hnone; cases hnone
  | failed _ _ _ hsome => rw [hsome] at hnone; cases hnone
  | succeeded hreq hi hmem _ =>
    have hrec : id ∈ s.registry.reqErrors := AList.lookup_isSome.mp (Option.isSome_of_mem he)
    have hget := hok _ _ _ _ _ rfl hi (.inr ⟨rfl, hmem, hreq ▸ hrec⟩)
    rw [hreq, hp] at hget
    exact .success hreq (Option.some.inj hget ▸ hi)
  | expired he' hold _ =>
    rw [he] at he'
    exact .expired (Option.some.inj he' ▸ hold)
  | registered => exact .register
  | removed => exact .remove

theorem recordsCurrent_of (h : Attributed s) (h' : Attributed (requestStep req redact s a))
    (hclear : ClearsRightly req redact s a) : RecordsCurrent req s a := by
  rintro i cancelled now p err rfl hi (hput | ⟨rfl, hmem, hrec⟩)
  · obtain ⟨⟨e, he⟩, hsource, hget⟩ := record_failed hi hput
    obtain ⟨q, hq, hq'⟩ := h' (req i) e he
    rw [← hget, hq, ← hq', hsource]
  · obtain ⟨e, he⟩ := Option.isSome_iff_exists.mp (AList.lookup_isSome.mpr hrec)
    obtain ⟨q, hq, hq'⟩ := h (req i) e he
    -- the success is by the proxy whose failure it clears
    cases hclear (req i) e q he hq hq' (record_succeeded hi hmem) with
    | success _ hi' =>
      rw [hi] at hi'
      cases hi'
      exact hq

end RequestLemmas

open RequestLemmas in
/-- Along a run of requests, `Register` and `Remove`, every failure on record was
produced by the registered proxy and is cleared rightly, exactly when every result
that takes effect is recorded while the proxy that produced it is registered. -/
theorem request_failures_current_iff {ι P : Type} [DecidableEq ι] (req : ι → String)
    (redact : String → String) (acts : List (RequestAct ι P)) :
    ((∀ pre, pre <+: acts → Attributed (requestRun req redact pre)) ∧
      ∀ pre a, pre ++ [a] <+: acts → ClearsRightly req redact (requestRun req redact pre) a) ↔
    ∀ pre a, pre ++ [a] <+: acts → RecordsCurrent req (requestRun req redact pre) a := by
  constructor
  · rintro ⟨hattr, hclear⟩ pre a hp
    have hnext := hattr _ hp
    rw [requestRun, Runs.run_snoc] at hnext
    exact recordsCurrent_of (hattr pre ((List.prefix_append pre [a]).trans hp)) hnext
      (hclear pre a hp)
  · intro hok
    exact ⟨fun pre hp => attributed_run fun p a ha => hok p a (ha.trans hp),
      fun pre a hp => clearsRightly_step (hok pre a hp)⟩

def dbEntry : DatasourceEntry := ⟨"db", "postgresql", "db-proxy", "orders", "local", ""⟩

/-- Two requests, the first in flight while its proxy is replaced. -/
def straddling (old new : Option ProxyError) : List (RequestAct Bool Nat) :=
  [.register "db" dbEntry 1, .get false, .register "db" dbEntry 2, .get true, .handle true new,
    .record true false 0, .handle false old, .record false false 0]

/-- Not for a request that straddles a `Register`: the failure of proxy 1 is on
record for proxy 2, or a success of proxy 1 clears the failure of proxy 2. -/
theorem request_failure_straddles :
    let refused : ProxyError := { text := "dial tcp: connection refused" }
    let charged := requestRun (fun _ => "db") id (straddling (some refused) none)
    let cleared := requestRun (fun _ => "db") id (straddling none (some refused))
    let before := requestRun (fun _ => "db") id ((straddling none (some refused)).take 7)
    (charged.registry.reqErrors.lookup "db" = some ⟨refused.text, 0⟩ ∧
      charged.source "db" = some 1 ∧ charged.registry.get "db" = some 2) ∧
    before.registry.reqErrors.lookup "db" = some ⟨refused.text, 0⟩ ∧
      before.source "db" = some 2 ∧ before.phase false = .handled 1 none ∧
      cleared.registry.reqErrors.lookup "db" = none := by
  decide +kernel

end Forager
