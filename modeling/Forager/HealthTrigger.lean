import Forager.WsHealth

/-!
# Triggers of the health loop

`TriggerHealthReport` and `healthReportLoop` of `pkg/ws/client.go`. A trigger is put into a
channel with one slot, or dropped if the slot is taken. The loop takes the slot at its two
`select`s and once more right before it calls `healthFn`; a trigger between that and the
call stays in the slot.

`WsHealth` has the same loop with its reports and the queue, where taking the slot and
calling `healthFn` are one step. Here they are two, and the triggers and the calls since the
loop started are noted in their order; no step reads the notes.
-/

namespace Forager

/-! ## The loop -/

inductive TriggerPos
  | delay
  | drain
  /-- Before the call of `healthFn`. -/
  | call
  | reporting
  | sending
  | select
  | returned
deriving DecidableEq, Repr

def TriggerPos.waits : TriggerPos → Bool
  | .delay | .select => true
  | .drain | .call | .reporting | .sending | .returned => false

def TriggerPos.calls : TriggerPos → Bool
  | .drain | .call => true
  | .delay | .reporting | .sending | .select | .returned => false

/-- `TriggerHealthReport` was called, or the loop called `healthFn`. -/
inductive LoopEvent
  | triggered
  | began
deriving DecidableEq, Repr

structure TriggerState where
  pos : TriggerPos
  cancelled : Bool
  tick : Bool
  trigger : Bool
  /-- What happened since the loop started. -/
  log : List LoopEvent
deriving DecidableEq, Repr

inductive TriggerAct
  | connect
  | cancel
  | tick
  | trigger
  | wake (w : Wake)
  | drain
  | call
  | finish
  | send

def TriggerState.new : TriggerState :=
  { pos := .returned, cancelled := false, tick := false, trigger := false, log := [] }

def triggerStep (s : TriggerState) : TriggerAct → TriggerState
  | .connect =>
    if s.pos = .returned then
      { s with pos := .delay, cancelled := false, tick := false, log := [] }
    else s
  | .cancel => { s with cancelled := true }
  | .tick => if s.pos = .returned then s else { s with tick := true }
  | .trigger => { s with trigger := true, log := s.log ++ [.triggered] }
  | .wake .done => if s.pos.waits && s.cancelled then { s with pos := .returned } else s
  | .wake .tick =>
    if s.pos.waits && s.tick then { s with tick := false, pos := .drain } else s
  | .wake .trigger =>
    -- the ticker is new, or reset
    if s.pos.waits && s.trigger then
      { s with trigger := false, tick := false, pos := .drain }
    else s
  | .drain => if s.pos = .drain then { s with trigger := false, pos := .call } else s
  | .call =>
    if s.pos = .call then { s with pos := .reporting, log := s.log ++ [.began] } else s
  | .finish => if s.pos = .reporting then { s with pos := .sending } else s
  | .send => if s.pos = .sending then { s with pos := .select } else s

def triggerRun (acts : List TriggerAct) : TriggerState := Runs.Run triggerStep .new acts

/-- Every trigger was followed by a call of `healthFn`. -/
def TriggersCovered (log : List LoopEvent) : Prop :=
  ∀ pre post, log = pre ++ .triggered :: post → .began ∈ post

namespace HealthTriggerLemmas

variable {s : TriggerState}

theorem triggersCovered_nil : TriggersCovered [] := by
  intro pre post h
  simp at h

theorem triggersCovered_began (log : List LoopEvent) : TriggersCovered (log ++ [.began]) := by
  intro pre post h
  cases post using List.reverseRecOn with
  | nil =>
    obtain ⟨-, hlast⟩ := List.append_inj' h rfl
    cases hlast
  | append_singleton post e =>
    have hassoc : log ++ [.began] = (pre ++ .triggered :: post) ++ [e] := by simpa using h
    obtain ⟨-, hlast⟩ := List.append_inj' hassoc rfl
    obtain rfl := List.singleton_inj.mp hlast
    simp

/-- Away from the positions before the call, a trigger that no call has followed is in the
slot. -/
def Pending (s : TriggerState) : Prop :=
  s.pos.calls = false → TriggersCovered s.log ∨ s.trigger = true

theorem Pending.of_same (h : Pending s) {s' : TriggerState} (hlog : s'.log = s.log)
    (htrigger : s'.trigger = s.trigger) (hpos : s.pos.calls = false) : Pending s' := by
  intro _
  rw [hlog, htrigger]
  exact h hpos

theorem calls_of_waits {p : TriggerPos} (h : p.waits = true) : p.calls = false := by
  cases p <;> first | rfl | cases h

theorem pending_step (h : Pending s) (a : TriggerAct) : Pending (triggerStep s a) := by
  cases a with
  | connect =>
    simp only [triggerStep]
    split
    · exact fun _ => .inl triggersCovered_nil
    · exact h
  | cancel => exact h
  | tick =>
    simp only [triggerStep]
    split
    · exact h
    · exact h
  | trigger => exact fun _ => .inr rfl
  | wake w =>
    cases w with
    | done =>
      simp only [triggerStep]
      split
      · next hw => exact h.of_same rfl rfl (calls_of_waits (Bool.and_eq_true_iff.mp hw).1)
      · exact h
    | tick =>
      simp only [triggerStep]
      split
      · rintro ⟨⟩
      · exact h
    | trigger =>
      simp only [triggerStep]
      split
      · rintro ⟨⟩
      · exact h
  | drain =>
    simp only [triggerStep]
    split
    · rintro ⟨⟩
    · exact h
  | call =>
    simp only [triggerStep]
    split
    · exact fun _ => .inl (triggersCovered_began _)
    · exact h
  | finish =>
    simp only [triggerStep]
    split
    · next hp => exact h.of_same rfl rfl (hp ▸ rfl)
    · exact h
  | send =>
    simp only [triggerStep]
    split
    · next hp => exact h.of_same rfl rfl (hp ▸ rfl)
    · exact h

theorem pending_run (acts : List TriggerAct) : Pending (triggerRun acts) := by
  refine Runs.run_invariant (fun pre => Pending (triggerRun pre)) (fun _ _ => True)
    (fun _ => .inl triggersCovered_nil) (fun pre a _ hpre => ?_) fun _ _ _ => trivial
  rw [show triggerRun (pre ++ [a]) = triggerStep (triggerRun pre) a from Runs.run_snoc _ _ _ _]
  exact pending_step hpre a

end HealthTriggerLemmas

open HealthTriggerLemmas in
/-- In every state that an interleaving reaches in which the loop waits and the channel is
empty, every trigger since the loop started was followed by a call of `healthFn` by this
loop, whether or not the session is cancelled. -/
theorem no_trigger_lost (acts : List TriggerAct) (hwaits : (triggerRun acts).pos.waits = true)
    (hempty : (triggerRun acts).trigger = false) : TriggersCovered (triggerRun acts).log := by
  rcases pending_run acts (calls_of_waits hwaits) with hcovered | hpending
  · exact hcovered
  · exact absurd (hempty.symm.trans hpending) Bool.false_ne_true

/-- A trigger between the drained slot and the call of `healthFn`, and one during the report:
a second report follows. -/
theorem no_trigger_lost_twice :
    let acts : List TriggerAct := [.connect, .trigger, .wake .trigger, .drain, .trigger, .call,
      .trigger, .finish, .send, .wake .trigger, .drain, .call, .finish, .send]
    (triggerRun acts).log = [.triggered, .triggered, .began, .triggered, .began] ∧
      TriggersCovered (triggerRun acts).log := by
  intro acts
  exact ⟨by decide, no_trigger_lost acts (by decide) (by decide)⟩

/-! ## The loop of `WsHealth` -/

/-- The position without the report. -/
def LoopPhase.pos {P : Type} : LoopPhase P → TriggerPos
  | .delay => .delay
  | .drain => .drain
  | .reporting _ => .reporting
  | .sending _ => .sending
  | .select => .select
  | .returned => .returned

section View

variable {P : Type} [DecidableEq P] (redact : String → String)

/-- The client as far as the loop sees it. -/
def WsState.view (s : WsState P) (log : List LoopEvent) : TriggerState :=
  { pos := s.loop.pos, cancelled := s.cancelled, tick := s.tick, trigger := s.trigger, log }

/-- The steps of the loop in a step of the client. -/
def loopActs (s : WsState P) : WsAct P → List TriggerAct
  | .connect => if s.loop.ended && !s.writerUp then [.connect] else []
  | .cancel => [.cancel]
  | .tick => [.tick]
  | .trigger => [.trigger]
  | .wake w => [.wake w]
  | .drain => [.drain, .call]
  | .report a => if (wsStep redact s (.report a)).loop.pos = .sending then [.finish] else []
  | .send => [.send]
  | .enqueue | .write _ | .stopWriter | .op _ | .request _ _ _ _ => []

end View

namespace HealthTriggerLemmas

variable {P : Type} [DecidableEq P] {redact : String → String}

theorem pos_report (redact : String → String) (registry : Registry P) (ph : ReportPhase P)
    (b : ReportAct) :
    (LoopPhase.ofReport (reportStep redact registry ph b).2).pos = .reporting ∨
      (LoopPhase.ofReport (reportStep redact registry ph b).2).pos = .sending := by
  cases (reportStep redact registry ph b).2 with
  | finished targets report => exact .inr rfl
  | idle | snapped | running => exact .inl rfl

/-- A step of the client is some steps of the loop. -/
theorem ws_step_view (redact : String → String) (s : WsState P) (a : WsAct P)
    (log : List LoopEvent) :
    ∃ log', (wsStep redact s a).view log' =
      (loopActs redact s a).foldl triggerStep (s.view log) := by
  obtain ⟨registry, session, cancelled, loop, writerUp, tick, trigger, queue, written, late⟩ := s
  cases a with
  | connect => cases loop <;> cases writerUp <;> exact ⟨_, rfl⟩
  | cancel => exact ⟨log, rfl⟩
  | tick => cases loop <;> exact ⟨log, rfl⟩
  | trigger => exact ⟨log ++ [.triggered], rfl⟩
  | wake w =>
    cases w with
    | done => cases loop <;> cases cancelled <;> exact ⟨log, rfl⟩
    | tick => cases loop <;> cases tick <;> exact ⟨log, rfl⟩
    | trigger => cases loop <;> cases trigger <;> exact ⟨log, rfl⟩
  | drain => cases loop <;> exact ⟨_, rfl⟩
  | report b =>
    cases loop with
    | reporting ph =>
      refine ⟨log, ?_⟩
      rcases pos_report redact registry ph (b.under (WsState.ctxErr
        ⟨registry, session, cancelled, .reporting ph, writerUp, tick, trigger, queue, written,
          late⟩)) with hpos | hpos
      · simp only [loopActs, wsStep, WsState.view, hpos]
        rfl
      · simp only [loopActs, wsStep, WsState.view, hpos]
        rfl
    | delay | drain | sending | select | returned => exact ⟨log, rfl⟩
  | send => cases loop <;> exact ⟨log, rfl⟩
  | enqueue => exact ⟨log, rfl⟩
  | write ok => cases queue <;> cases writerUp <;> exact ⟨log, rfl⟩
  | stopWriter => cases cancelled <;> exact ⟨log, rfl⟩
  | op o => exact ⟨log, rfl⟩
  | request cancelled' id err now => exact ⟨log, rfl⟩

/-- A run of the client is a run of the loop. -/
theorem ws_run_view (acts : List (WsAct P)) :
    ∃ loop log, (wsRun redact acts).view log = triggerRun loop := by
  induction acts using List.reverseRecOn with
  | nil => exact ⟨[], [], rfl⟩
  | append_singleton acts a ih =>
    obtain ⟨loop, log, hrun⟩ := ih
    obtain ⟨log', hstep⟩ := ws_step_view redact (wsRun redact acts) a log
    refine ⟨loop ++ loopActs redact (wsRun redact acts) a, log', ?_⟩
    rw [show wsRun redact (acts ++ [a]) = wsStep redact (wsRun redact acts) a from
      Runs.run_snoc _ _ _ _, hstep, hrun]
    exact (Runs.run_append _ _ _ _).symm

end HealthTriggerLemmas

end Forager
