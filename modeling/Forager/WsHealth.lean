import Forager.HealthReport
import Forager.WsWriters

/-!
# Health reports across sessions

`healthReportLoop` of `pkg/ws/client.go` runs once a session, under the context of
the session. Its reports go to the send queue, which outlives the session: what the
write loop of one session leaves, the next one writes. `HealthReport` under a
cancelled context reports every datasource it has not checked as an error.

The sessions follow each other: the next one connects after the loops of the last
one have returned.
-/

namespace Forager

/-- A health report that was queued. The number of its session, and whether a step
of it was taken after the session was cancelled, are notes that no step reads. -/
structure HealthUpdate where
  report : GoMap DatasourceHealth
  session : Nat
  late : Bool

inductive WsMessage
  /-- `datasource_health_update`. -/
  | health (update : HealthUpdate)
  | other

inductive LoopPhase (P : Type)
  /-- At its first `select`. -/
  | delay
  /-- Before the pending trigger is drained. -/
  | drain
  /-- Inside `healthFn`. -/
  | reporting (ph : ReportPhase P)
  /-- Before `Send`. -/
  | sending (report : GoMap DatasourceHealth)
  /-- At the `select` of the loop. -/
  | select
  | returned

/-- The client: the current session and what outlives it. -/
structure WsState (P : Type) where
  registry : Registry P
  session : Nat
  cancelled : Bool
  loop : LoopPhase P
  /-- `writeLoop` runs. -/
  writerUp : Bool
  /-- The timer of the loop has fired. -/
  tick : Bool
  /-- `healthNow` holds a trigger. -/
  trigger : Bool
  queue : List WsMessage
  /-- The messages given to `conn.WriteMessage`, with the session. -/
  written : List (Nat × WsMessage)
  /-- Notes for the report under way that it is late. -/
  late : Bool

/-- The case that a `select` of the loop takes. -/
inductive Wake
  | done | tick | trigger

inductive WsAct (P : Type)
  /-- A new session starts its goroutines. -/
  | connect
  /-- `readLoop` returns, or the client stops. -/
  | cancel
  | tick
  /-- `TriggerHealthReport`. -/
  | trigger
  | wake (w : Wake)
  | drain
  | report (a : ReportAct)
  | send
  /-- `Send` of another message. -/
  | enqueue
  | write (ok : Bool)
  /-- `writeLoop` returns for the cancelled context. -/
  | stopWriter
  | op (o : Registry.Op P)
  | request (cancelled : Bool) (id : String) (err : Option ProxyError) (now : Int)

namespace LoopPhase

variable {P : Type}

def waits : LoopPhase P → Bool
  | .delay | .select => true
  | .drain | .reporting _ | .sending _ | .returned => false

/-- The loop has taken up a report and not computed it yet. -/
def computing : LoopPhase P → Bool
  | .drain | .reporting _ => true
  | .delay | .select | .sending _ | .returned => false

def ended : LoopPhase P → Bool
  | .returned => true
  | .delay | .drain | .reporting _ | .sending _ | .select => false

/-- After a step inside `healthFn`. -/
def ofReport : ReportPhase P → LoopPhase P
  | .finished _ report => .sending report
  | ph => .reporting ph

end LoopPhase

/-- The step reads `ctx.Err()`. -/
def ReportAct.under (ctxErr : Option String) : ReportAct → ReportAct
  | .start _ now => .start ctxErr now
  | .take _ => .take ctxErr
  | a => a

section Model

variable {P : Type} [DecidableEq P]

def WsState.new : WsState P :=
  { registry := .new, session := 0, cancelled := false, loop := .returned, writerUp := false
    tick := false, trigger := false, queue := [], written := [], late := false }

def WsState.ctxErr (s : WsState P) : Option String :=
  if s.cancelled then some "context canceled" else none

/-- `Send`: a full queue drops the message. -/
def sendTo (queue : List WsMessage) (m : WsMessage) : List WsMessage :=
  if queue.length < sendCapacity then queue ++ [m] else queue

variable (redact : String → String)

def wsStep (s : WsState P) : WsAct P → WsState P
  | .connect =>
    if s.loop.ended && !s.writerUp then
      { s with session := s.session + 1, cancelled := false, loop := .delay, writerUp := true
               tick := false }
    else s
  | .cancel => { s with cancelled := true }
  | .tick => if s.loop.ended then s else { s with tick := true }
  | .trigger => { s with trigger := true }
  | .wake .done => if s.loop.waits && s.cancelled then { s with loop := .returned } else s
  | .wake .tick =>
    if s.loop.waits && s.tick then { s with tick := false, loop := .drain } else s
  | .wake .trigger =>
    -- the ticker is new, or reset
    if s.loop.waits && s.trigger then
      { s with trigger := false, tick := false, loop := .drain }
    else s
  | .drain =>
    match s.loop with
    | .drain => { s with trigger := false, loop := .reporting .idle, late := false }
    | _ => s
  | .report a =>
    match s.loop with
    | .reporting ph =>
      let (r, ph') := reportStep redact s.registry ph (a.under s.ctxErr)
      { s with registry := r, loop := .ofReport ph', late := s.late || s.cancelled }
    | _ => s
  | .send =>
    match s.loop with
    | .sending report =>
      { s with
        loop := .select
        queue := if report.keys.isEmpty then s.queue
          else sendTo s.queue (.health ⟨report, s.session, s.late⟩) }
    | _ => s
  | .enqueue => { s with queue := sendTo s.queue .other }
  | .write ok =>
    match s.queue with
    | m :: rest =>
      if s.writerUp then
        { s with queue := rest, written := s.written ++ [(s.session, m)], writerUp := ok }
      else s
    | [] => s
  | .stopWriter => if s.cancelled then { s with writerUp := false } else s
  | .op o => { s with registry := s.registry.step o }
  | .request cancelled id err now =>
    { s with registry := s.registry.recordRequestResult redact cancelled id err now }

def wsRun (acts : List (WsAct P)) : WsState P := Runs.Run (wsStep redact) .new acts

/-- The entry `health` was made for `id` in session `n` while its context was live,
and because the health check failed or a request failure was on record. -/
def LiveCause (acts : List (WsAct P)) (n : Nat) (id : String) (health : DatasourceHealth) :
    Prop :=
  ∃ pre k since run t err latencyMs, pre ++ [.report (.record k since)] <+: acts ∧
    ((wsRun redact pre).session = n ∧ (wsRun redact pre).cancelled = false) ∧
    (wsRun redact pre).loop = .reporting (.running run) ∧
    run.targets[k]? = some t ∧ t.id = id ∧ run.slots k = .checked err latencyMs ∧
    (recordCheck redact (wsRun redact pre).registry t run.now err latencyMs since).2 =
      some health ∧
    (err ≠ none ∨ ((wsRun redact pre).registry.recentRequestError id since).2 ≠ none)

/-- Every error entry of the report has a live cause in session `n`. -/
def EntriesLive (acts : List (WsAct P)) (n : Nat) (report : GoMap DatasourceHealth) : Prop :=
  ∀ id health, report.lookup id = some health → health.status = .error →
    LiveCause redact acts n id health

end Model

/-- A session is lost only while its health loop computes no report and has no timer
or trigger pending, and none comes before the loop has returned. -/
def LostAtRest {P : Type} (s : WsState P) : WsAct P → Prop
  | .cancel => s.loop.ended ∨ (s.loop.computing = false ∧ s.tick = false ∧ s.trigger = false)
  | .tick | .trigger => s.cancelled → s.loop.ended
  | .connect | .wake _ | .drain | .report _ | .send | .enqueue | .write _ | .stopWriter | .op _
  | .request _ _ _ _ => True

namespace WsHealthLemmas

variable {P : Type} [DecidableEq P] {redact : String → String} {acts : List (WsAct P)}
  {a : WsAct P} {s : WsState P} {n : Nat}

/-- A cancelled session computes no report and starts none. -/
def Restful (s : WsState P) : Prop :=
  s.cancelled → s.loop.ended ∨ (s.loop.computing = false ∧ s.tick = false ∧ s.trigger = false)

omit [DecidableEq P] in
theorem Restful.not_cancelled (h : Restful s) (hended : s.loop.ended = false)
    (hbusy : s.loop.computing ∨ s.tick ∨ s.trigger) : s.cancelled = false := by
  by_contra hc
  rcases h (Bool.eq_true_of_not_eq_false hc) with he | ⟨hcomp, htick, htrig⟩
  · rw [hended] at he; cases he
  · rw [hcomp, htick, htrig] at hbusy
    simp at hbusy

omit [DecidableEq P] in
theorem restful_of_live (h : s.cancelled = false) : Restful s :=
  fun hc => absurd (h.symm.trans hc) Bool.false_ne_true

/-- While sessions are lost at rest, no report is computed under a cancelled context. -/
theorem restful_step (h : Restful s) (hok : LostAtRest s a) : Restful (wsStep redact s a) := by
  have hwaits : s.loop.waits → s.loop.ended = false := by
    cases s.loop <;> simp [LoopPhase.waits, LoopPhase.ended]
  cases a with
  | connect =>
    simp only [wsStep]
    split
    · exact restful_of_live rfl
    · exact h
  | cancel => exact fun _ => hok
  | tick =>
    simp only [wsStep]
    split
    · exact h
    · rename_i hrun
      exact fun hc => absurd (hok hc) hrun
  | trigger => exact fun hc => .inl (hok hc)
  | wake w =>
    cases w with
    | done =>
      simp only [wsStep]
      split
      · exact fun _ => .inl rfl
      · exact h
    | tick =>
      simp only [wsStep]
      split
      · rename_i hg
        obtain ⟨hw, ht⟩ := Bool.and_eq_true_iff.mp hg
        exact restful_of_live (h.not_cancelled (hwaits hw) (.inr (.inl ht)))
      · exact h
    | trigger =>
      simp only [wsStep]
      split
      · rename_i hg
        obtain ⟨hw, ht⟩ := Bool.and_eq_true_iff.mp hg
        exact restful_of_live (h.not_cancelled (hwaits hw) (.inr (.inr ht)))
      · exact h
  | drain =>
    simp only [wsStep]
    split
    · rename_i hloop
      exact restful_of_live (h.not_cancelled (by rw [hloop]; rfl) (.inl (by rw [hloop]; rfl)))
    · exact h
  | report b =>
    simp only [wsStep]
    split
    · rename_i ph hloop
      exact restful_of_live (h.not_cancelled (by rw [hloop]; rfl) (.inl (by rw [hloop]; rfl)))
    · exact h
  | send =>
    simp only [wsStep]
    split
    · rename_i report hloop
      intro hc
      rcases h hc with he | ⟨-, htick, htrig⟩
      · rw [hloop] at he; cases he
      · exact .inr ⟨rfl, htick, htrig⟩
    · exact h
  | write ok =>
    simp only [wsStep]
    split
    · split <;> exact h
    · exact h
  | stopWriter =>
    simp only [wsStep]
    split <;> exact h
  | enqueue | op | request => exact h

/-! ## Where error entries come from -/

omit [DecidableEq P] in
theorem recentRequestError_success (r : Registry P) (success : GoMap String) (id : String)
    (now : Int) :
    (Registry.recentRequestError { r with lastSuccess := success } id now).2 =
      (r.recentRequestError id now).2 := by
  simp only [Registry.recentRequestError]
  cases r.reqErrors.lookup id with
  | none => rfl
  | some e => simp only; split <;> rfl

theorem recordCheck_error {r : Registry P} {t : HealthTarget P} {now : String}
    {err : Option String} {latencyMs since : Int} {health : DatasourceHealth}
    (h : (recordCheck redact r t now err latencyMs since).2 = some health)
    (herror : health.status = .error) :
    err ≠ none ∨ (r.recentRequestError t.id since).2 ≠ none := by
  cases err with
  | some e => exact .inl (Option.some_ne_none e)
  | none =>
    refine .inr fun hnone => ?_
    unfold recordCheck at h
    split at h
    · cases h
    · simp only [Option.some.injEq] at h
      rw [← h, recentRequestError_success, hnone] at herror
      cases herror

theorem LiveCause.extend {id : String} {health : DatasourceHealth}
    (h : LiveCause redact acts n id health) (a : WsAct P) :
    LiveCause redact (acts ++ [a]) n id health := by
  obtain ⟨pre, k, since, run, t, err, latencyMs, hp, h⟩ := h
  exact ⟨pre, k, since, run, t, err, latencyMs, hp.trans (List.prefix_append acts [a]), h⟩

theorem EntriesLive.extend {report : GoMap DatasourceHealth} (h : EntriesLive redact acts n report)
    (a : WsAct P) : EntriesLive redact (acts ++ [a]) n report :=
  fun id health hl he => LiveCause.extend (h id health hl he) a

/-- The error entries recorded so far have live causes. -/
def SlotsLive (redact : String → String) (acts : List (WsAct P)) (n : Nat)
    (targets : List (HealthTarget P)) (slots : Nat → CheckSlot) : Prop :=
  ∀ k t health, targets[k]? = some t → slots k = .recorded health → health.status = .error →
    LiveCause redact acts n t.id health

def ReportLive (redact : String → String) (acts : List (WsAct P)) (n : Nat) :
    ReportPhase P → Prop
  | .idle | .snapped _ => True
  | .running run => SlotsLive redact acts n run.targets run.slots
  | .finished _ report => EntriesLive redact acts n report

def LoopLive (redact : String → String) (acts : List (WsAct P)) (n : Nat) : LoopPhase P → Prop
  | .delay | .drain | .select | .returned => True
  | .reporting ph => ReportLive redact acts n ph
  | .sending report => EntriesLive redact acts n report

theorem ReportLive.ofReport {ph : ReportPhase P} (h : ReportLive redact acts n ph) :
    LoopLive redact acts n (.ofReport ph) := by
  cases ph <;> exact h

theorem SlotsLive.extend {targets : List (HealthTarget P)} {slots : Nat → CheckSlot}
    (h : SlotsLive redact acts n targets slots) (a : WsAct P) :
    SlotsLive redact (acts ++ [a]) n targets slots :=
  fun k t health ht hs he => LiveCause.extend (h k t health ht hs he) a

theorem ReportLive.extend {ph : ReportPhase P} (h : ReportLive redact acts n ph) (a : WsAct P) :
    ReportLive redact (acts ++ [a]) n ph := by
  cases ph with
  | idle | snapped => trivial
  | running run => exact SlotsLive.extend h a
  | finished targets report => exact EntriesLive.extend h a

theorem LoopLive.extend {loop : LoopPhase P} (h : LoopLive redact acts n loop) (a : WsAct P) :
    LoopLive redact (acts ++ [a]) n loop := by
  cases loop with
  | delay | drain | select | returned => trivial
  | reporting ph => exact ReportLive.extend h a
  | sending report => exact EntriesLive.extend h a

theorem SlotsLive.set {run : ReportRun P} {k : Nat} {slot : CheckSlot}
    (h : SlotsLive redact acts n run.targets run.slots)
    (hk : ∀ t health, run.targets[k]? = some t → slot = .recorded health →
      health.status = .error → LiveCause redact acts n t.id health) :
    SlotsLive redact acts n run.targets (run.set k slot).slots := by
  intro m t health ht hs he
  rcases eq_or_ne m k with rfl | hne
  · exact hk t health ht ((Function.update_self ..).symm.trans hs) he
  · exact h m t health ht ((Function.update_of_ne hne ..).symm.trans hs) he

theorem reportLive_move {ph ph' : ReportPhase P} {r' : Registry P} {b : ReportAct}
    (hlive : (wsRun redact acts).cancelled = false)
    (hloop : (wsRun redact acts).loop = .reporting ph)
    (h : ReportLive redact acts (wsRun redact acts).session ph)
    (hmove : HealthLemmas.ReportMove redact (wsRun redact acts).registry ph (b.under none) r' ph') :
    ReportLive redact (acts ++ [.report b]) (wsRun redact acts).session ph' := by
  generalize hb : b.under none = b' at hmove
  have h' := h.extend (.report b)
  cases hmove with
  | stay => exact h'
  | snapshot => trivial
  | start => exact fun k t health _ hs => by cases hs
  | startEmpty => exact fun id health hl => by cases hl
  | startCancelled | takeCancelled => cases b <;> cases hb
  | take run => exact SlotsLive.set h' fun t health _ hs => by cases hs
  | check run k err latencyMs => exact SlotsLive.set h' fun t health _ hs => by cases hs
  | record run k since t err latencyMs ht hk =>
    refine SlotsLive.set h' fun u health hu hs he => ?_
    obtain rfl := Option.some.inj (ht.symm.trans hu)
    have hentry : (recordCheck redact (wsRun redact acts).registry t run.now err latencyMs
        since).2 = some health := by
      cases hrec : (recordCheck redact (wsRun redact acts).registry t run.now err latencyMs
        since).2 <;> rw [hrec] at hs <;> cases hs
      rfl
    have hact : b = .record k since := by cases b <;> cases hb; rfl
    exact ⟨acts, k, since, run, t, err, latencyMs, hact ▸ List.prefix_refl _, ⟨rfl, hlive⟩, hloop,
      ht, rfl, hk, hentry, recordCheck_error hentry he⟩
  | finish run hended =>
    intro id health hl he
    obtain ⟨k, t, hk, rfl, hs⟩ := HealthLemmas.mem_buildReport hl
    exact h' k t health hk hs he

/-- The error entries of the update have live causes, and it is not late. -/
def UpdateLive (redact : String → String) (acts : List (WsAct P)) (u : HealthUpdate) : Prop :=
  EntriesLive redact acts u.session u.report ∧ u.late = false

/-- The reports under way, queued and written. -/
structure Sound (redact : String → String) (acts : List (WsAct P)) (s : WsState P) : Prop where
  notLate : s.late = false
  loop : LoopLive redact acts s.session s.loop
  queued : ∀ u, .health u ∈ s.queue → UpdateLive redact acts u
  wrote : ∀ m u, (m, .health u) ∈ s.written → UpdateLive redact acts u

theorem UpdateLive.extend {u : HealthUpdate} (h : UpdateLive redact acts u) (a : WsAct P) :
    UpdateLive redact (acts ++ [a]) u :=
  ⟨EntriesLive.extend h.1 a, h.2⟩

theorem Sound.extend (h : Sound redact acts s) (a : WsAct P) :
    Sound redact (acts ++ [a]) s where
  notLate := h.notLate
  loop := h.loop.extend a
  queued u hu := (h.queued u hu).extend a
  wrote m u hu := (h.wrote m u hu).extend a

theorem mem_sendTo {queue : List WsMessage} {m m' : WsMessage} (h : m ∈ sendTo queue m') :
    m ∈ queue ∨ m = m' := by
  unfold sendTo at h
  split at h
  · exact (List.mem_append.mp h).imp_right List.mem_singleton.mp
  · exact .inl h

theorem sound_report {b : ReportAct} (h : Sound redact acts (wsRun redact acts))
    (hrest : Restful (wsRun redact acts)) :
    Sound redact (acts ++ [.report b]) (wsStep redact (wsRun redact acts) (.report b)) := by
  have h' := h.extend (.report b)
  simp only [wsStep]
  split
  · rename_i ph hloop
    have hlive := hrest.not_cancelled (by rw [hloop]; rfl) (.inl (by rw [hloop]; rfl))
    have hph : ReportLive redact acts (wsRun redact acts).session ph := by
      have := h.loop
      rwa [hloop] at this
    have hctx : (wsRun redact acts).ctxErr = none := by rw [WsState.ctxErr, hlive]; rfl
    rw [hctx]
    exact ⟨by rw [h.notLate, hlive]; rfl,
      (reportLive_move hlive hloop hph (HealthLemmas.reportStep_move ..)).ofReport,
      h'.queued, h'.wrote⟩
  · exact h'

theorem sound_send (h : Sound redact acts s) : Sound redact acts (wsStep redact s .send) := by
  simp only [wsStep]
  split
  · rename_i report hloop
    have hreport := h.loop
    rw [hloop] at hreport
    refine ⟨h.notLate, trivial, fun u hu => ?_, h.wrote⟩
    split at hu
    · exact h.queued u hu
    · rcases mem_sendTo hu with hold | hnew
      · exact h.queued u hold
      · cases hnew
        exact ⟨hreport, h.notLate⟩
  · exact h

theorem sound_write {ok : Bool} (h : Sound redact acts s) :
    Sound redact acts (wsStep redact s (.write ok)) := by
  simp only [wsStep]
  split
  · rename_i m rest hqueue
    split
    · refine ⟨h.notLate, h.loop, fun u hu => h.queued u ?_, fun n u hu => ?_⟩
      · rw [hqueue]
        exact List.mem_cons_of_mem m hu
      · rcases List.mem_append.mp hu with hold | hnew
        · exact h.wrote n u hold
        · cases List.mem_singleton.mp hnew
          refine h.queued u ?_
          rw [hqueue]
          exact List.mem_cons_self
    · exact h
  · exact h

theorem sound_step (h : Sound redact acts (wsRun redact acts))
    (hrest : Restful (wsRun redact acts)) :
    Sound redact (acts ++ [a]) (wsRun redact (acts ++ [a])) := by
  have h' := h.extend a
  rw [show wsRun redact (acts ++ [a]) = wsStep redact (wsRun redact acts) a from
    Runs.run_snoc _ _ _ _]
  cases a with
  | report b => exact sound_report h hrest
  | send => exact sound_send h'
  | write ok => exact sound_write h'
  | enqueue =>
    refine ⟨h'.notLate, h'.loop, fun u hu => ?_, h'.wrote⟩
    exact (mem_sendTo hu).elim (h'.queued u) fun hnew => by cases hnew
  | connect =>
    simp only [wsStep]
    split
    · exact ⟨h'.notLate, trivial, h'.queued, h'.wrote⟩
    · exact h'
  | wake w =>
    cases w <;> simp only [wsStep] <;> split
    all_goals first
      | exact h'
      | exact ⟨h'.notLate, trivial, h'.queued, h'.wrote⟩
  | drain =>
    simp only [wsStep]
    split
    · exact ⟨rfl, trivial, h'.queued, h'.wrote⟩
    · exact h'
  | tick =>
    simp only [wsStep]
    split
    · exact h'
    · exact ⟨h'.notLate, h'.loop, h'.queued, h'.wrote⟩
  | stopWriter =>
    simp only [wsStep]
    split
    · exact ⟨h'.notLate, h'.loop, h'.queued, h'.wrote⟩
    · exact h'
  | cancel | trigger | op | request => exact ⟨h'.notLate, h'.loop, h'.queued, h'.wrote⟩

theorem sound_run
    (hok : ∀ pre a, pre ++ [a] <+: acts → LostAtRest (wsRun redact pre) a) :
    Sound redact acts (wsRun redact acts) := by
  refine (Runs.run_invariant
    (fun as => Restful (wsRun redact as) ∧ Sound redact as (wsRun redact as))
    (fun pre a => LostAtRest (wsRun redact pre) a) ?_ (fun pre a hpa hpre => ?_) hok).2
  · refine ⟨fun hc => absurd hc Bool.false_ne_true, rfl, trivial, fun u hu => ?_, fun m u hu => ?_⟩
    · exact absurd hu List.not_mem_nil
    · exact absurd hu List.not_mem_nil
  · refine ⟨?_, sound_step hpre.2 hpre.1⟩
    rw [wsRun, Runs.run_snoc]
    exact restful_step hpre.1 hpa

end WsHealthLemmas

open WsHealthLemmas in
/-- In a run whose sessions are lost at rest, every error entry of a written health
report was made while the context of its session was live, for a failed check or a
request failure, and no late report is written to a later session. -/
theorem no_false_outage {P : Type} [DecidableEq P] (redact : String → String)
    (acts : List (WsAct P))
    (hok : ∀ pre a, pre ++ [a] <+: acts → LostAtRest (wsRun redact pre) a) (n : Nat)
    (u : HealthUpdate) (h : (n, .health u) ∈ (wsRun redact acts).written) :
    EntriesLive redact acts u.session u.report ∧ (u.late → ¬ u.session < n) := by
  obtain ⟨hlive, hlate⟩ := (sound_run hok).wrote n u h
  exact ⟨hlive, fun ht => absurd (hlate.symm.trans ht) Bool.false_ne_true⟩

instance {P : Type} (s : WsState P) : (a : WsAct P) → Decidable (LostAtRest s a)
  | .cancel => inferInstanceAs (Decidable (_ ∨ _))
  | .tick | .trigger => inferInstanceAs (Decidable (_ → _))
  | .connect | .wake _ | .drain | .report _ | .send | .enqueue | .write _ | .stopWriter | .op _
  | .request _ _ _ _ => inferInstanceAs (Decidable True)

/-- A check fails, the report is queued as its session is lost, and the next session
writes it. -/
def lostAfterReport : List (WsAct Nat) :=
  [.op (.register "db" dbEntry 1), .connect, .tick, .wake .tick, .drain,
    .report (.snapshot keysInOrder), .report (.start none "2026-01-01T00:00:00Z"),
    .report (.take none), .report (.check 0 (some "refused") 1), .report (.record 0 0),
    .report .finish, .cancel, .send, .wake .done, .stopWriter, .connect, .write true]

/-- The entry of the failed check. -/
def refusedEntry : DatasourceHealth :=
  { type := "postgresql", proxyType := "db-proxy", name := "orders", status := .error
    error := "refused", errorClass := "datasource_integration_failure"
    lastCheck := "2026-01-01T00:00:00Z", reachable := false, latencyMs := 1, lastSuccess := "" }

theorem no_false_outage_lost_after :
    (wsRun id lostAfterReport).written =
      [(2, .health ⟨AList.insert "db" refusedEntry ∅, 1, false⟩)] ∧
    LiveCause id lostAfterReport 1 "db" refusedEntry := by
  have hwritten : (wsRun id lostAfterReport).written =
      [(2, .health ⟨AList.insert "db" refusedEntry ∅, 1, false⟩)] := by rfl
  have h := no_false_outage id lostAfterReport (Runs.forall_steps (by decide +kernel)) 2
    ⟨AList.insert "db" refusedEntry ∅, 1, false⟩ (by rw [hwritten]; exact List.mem_singleton_self _)
  exact ⟨hwritten, h.1 "db" refusedEntry (AList.lookup_insert _) rfl⟩

/-- The session is lost between the snapshot of a report and its start. -/
def lostDuringReport : List (WsAct Nat) :=
  [.op (.register "db" dbEntry 1), .connect, .tick, .wake .tick, .drain,
    .report (.snapshot keysInOrder), .cancel, .report (.start none "2026-01-01T00:00:00Z"),
    .stopWriter, .send, .wake .done, .connect, .write true]

def uncheckedEntry : DatasourceHealth :=
  { type := "postgresql", proxyType := "db-proxy", name := "orders", status := .error
    error := "context canceled", errorClass := "datasource_integration_failure"
    lastCheck := "2026-01-01T00:00:00Z", reachable := false, latencyMs := 0, lastSuccess := "" }

/-- Not for a session lost during a report: the next session is told of an outage of
a datasource that nobody checked, by a report of the lost session. -/
theorem false_outage :
    (wsRun id lostDuringReport).written =
      [(2, .health ⟨AList.insert "db" uncheckedEntry ∅, 1, true⟩)] ∧
    ¬ LiveCause id lostDuringReport 1 "db" uncheckedEntry := by
  refine ⟨by rfl, ?_⟩
  rintro ⟨pre, k, since, run, t, err, latencyMs, hp, -⟩
  have hmem := hp.subset (List.mem_append_right pre (List.mem_singleton_self _))
  simp [lostDuringReport] at hmem

end Forager
