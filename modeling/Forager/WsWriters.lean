import Forager.Runs
import Mathlib.Data.Fintype.Basic
import Mathlib.Logic.Function.Basic

/-!
# The writers of one session

`connectAndServe` of `pkg/ws/client.go` writes the greeting and then starts three
goroutines that write to the connection: `writeLoop` for each message of the send
queue, `pingLoop` for each tick of its ticker, and a closer once the session is
cancelled. Nothing keeps two of them from calling `conn.WriteMessage` at the same
time, which the websocket library forbids.

A writer is busy from the moment its event is there (a queued message, a tick, the
cancellation) to the end of its write.
-/

namespace Forager

/-- The code that writes to the connection of a session. -/
inductive Writer
  | greeting | writeLoop | pingLoop | closer
deriving DecidableEq, Repr

instance : Fintype Writer :=
  ⟨{.greeting, .writeLoop, .pingLoop, .closer}, fun w => by cases w <;> decide⟩

inductive WriterPhase
  | off
  /-- At its `select`, or at `<-ctx.Done()`. -/
  | waiting
  /-- Before `conn.WriteMessage`. -/
  | ready
  /-- Inside `conn.WriteMessage`. -/
  | writing
  | returned
  /-- Returned with the error of the write. -/
  | failed
deriving DecidableEq, Repr

/-- One session: the send queue, whether the ping ticker has fired, whether the
session is cancelled, and the writers. -/
structure SessionState (μ : Type) where
  queue : List μ
  tick : Bool
  cancelled : Bool
  phase : Writer → WriterPhase

inductive SessionAct (μ : Type)
  /-- `Send`, by any goroutine of the client. -/
  | send (msg : μ)
  | tick
  | cancel
  /-- `connectAndServe` starts the goroutines. -/
  | start
  /-- The writer receives its event. -/
  | take (w : Writer)
  /-- The `select` of a loop takes `<-ctx.Done()`. -/
  | leave (w : Writer)
  | beginWrite (w : Writer)
  | endWrite (w : Writer) (ok : Bool)

def sendCapacity : Nat := 64

/-- What the writer does after its write. -/
def afterWrite : Writer → Bool → WriterPhase
  | .greeting, ok => if ok then .returned else .failed
  | .writeLoop, ok | .pingLoop, ok => if ok then .waiting else .failed
  | .closer, _ => .returned

def WriterPhase.running : WriterPhase → Bool
  | .waiting | .ready | .writing => true
  | .off | .returned | .failed => false

namespace SessionState

variable {μ : Type}

/-- The session after the dial, with what earlier sessions left in the queue. -/
def dialed (queue : List μ) (cancelled : Bool) : SessionState μ :=
  ⟨queue, false, cancelled, fun w => if w = .greeting then .ready else .off⟩

def goto (s : SessionState μ) (w : Writer) (p : WriterPhase) : SessionState μ :=
  { s with phase := Function.update s.phase w p }

/-- The event the writer waits for is there. -/
def due (s : SessionState μ) : Writer → Bool
  | .greeting => false
  | .writeLoop => !s.queue.isEmpty
  | .pingLoop => s.tick
  | .closer => s.cancelled

/-- The writer takes its event. The cancellation stays. -/
def consume (s : SessionState μ) : Writer → SessionState μ
  | .writeLoop => { s with queue := s.queue.tail }
  | .pingLoop => { s with tick := false }
  | .greeting | .closer => s

/-- The writer writes, is about to, or has its event waiting. -/
def busy (s : SessionState μ) (w : Writer) : Bool :=
  match s.phase w with
  | .ready | .writing => true
  | .waiting => s.due w
  | .off | .returned | .failed => false

end SessionState

section Model

variable {μ : Type}

def sessionStep (s : SessionState μ) : SessionAct μ → SessionState μ
  | .send msg =>
    -- a full queue drops the message
    if s.queue.length < sendCapacity then { s with queue := s.queue ++ [msg] } else s
  | .tick => if (s.phase .pingLoop).running then { s with tick := true } else s
  | .cancel => { s with cancelled := true }
  | .start =>
    if s.phase .greeting = .returned ∧ s.phase .writeLoop = .off then
      { s with tick := false, phase := fun w => if w = .greeting then .returned else .waiting }
    else s
  | .take w => if s.phase w = .waiting ∧ s.due w then (s.consume w).goto w .ready else s
  | .leave w =>
    if s.phase w = .waiting ∧ s.cancelled ∧ (w = .writeLoop ∨ w = .pingLoop) then
      s.goto w .returned
    else s
  | .beginWrite w => if s.phase w = .ready then s.goto w .writing else s
  | .endWrite w ok => if s.phase w = .writing then s.goto w (afterWrite w ok) else s

def sessionRun (queue : List μ) (cancelled : Bool) (acts : List (SessionAct μ)) :
    SessionState μ :=
  Runs.Run sessionStep (.dialed queue cancelled) acts

/-- The writer whose event the step brings. -/
def SessionAct.wakes : SessionAct μ → Option Writer
  | .send _ => some .writeLoop
  | .tick => some .pingLoop
  | .cancel => some .closer
  | .start | .take _ | .leave _ | .beginWrite _ | .endWrite _ _ => none

/-- If the writer runs, no other one is busy. -/
def SessionState.ComesAlone (s : SessionState μ) (v : Writer) : Prop :=
  (s.phase v).running → ∀ w, w ≠ v → s.busy w = false

/-- An event for a running writer comes only while no other writer is busy, and the
goroutines do not start with both a queued message and a cancelled session. -/
def ComesApart (s : SessionState μ) : SessionAct μ → Prop
  | .send _ => s.ComesAlone .writeLoop
  | .tick => s.ComesAlone .pingLoop
  | .cancel => s.ComesAlone .closer
  | .start => s.queue.isEmpty ∨ s.cancelled = false
  | .take _ | .leave _ | .beginWrite _ | .endWrite _ _ => True

instance (s : SessionState μ) (v : Writer) : Decidable (s.ComesAlone v) :=
  inferInstanceAs (Decidable (_ → ∀ w, w ≠ v → s.busy w = false))

instance (s : SessionState μ) : (a : SessionAct μ) → Decidable (ComesApart s a)
  | .send _ | .tick | .cancel => inferInstanceAs (Decidable (s.ComesAlone _))
  | .start => inferInstanceAs (Decidable (_ ∨ _))
  | .take _ | .leave _ | .beginWrite _ | .endWrite _ _ => inferInstanceAs (Decidable True)

end Model

namespace WriterLemmas

variable {μ : Type} {s : SessionState μ} {v w : Writer} {p : WriterPhase} {a : SessionAct μ}

theorem busy_congr {s' : SessionState μ} (hp : s'.phase w = s.phase w)
    (hd : s'.due w = s.due w) : s'.busy w = s.busy w := by
  simp only [SessionState.busy, hp, hd]

theorem busy_of_writing (h : s.phase w = .writing) : s.busy w := by
  simp [SessionState.busy, h]

theorem running_of_busy (h : s.busy w) : (s.phase w).running := by
  revert h
  cases hp : s.phase w <;> simp [SessionState.busy, WriterPhase.running, hp]

theorem goto_phase_of_ne (h : w ≠ v) : (s.goto v p).phase w = s.phase w :=
  Function.update_of_ne h ..

theorem due_consume_of_ne (h : w ≠ v) : (s.consume v).due w = s.due w := by
  cases v <;> cases w <;> first | rfl | exact absurd rfl h

theorem busy_of_goto {s' : SessionState μ} (hv : s.busy v) (hp : s'.phase = s.phase)
    (hd : w ≠ v → s'.due w = s.due w) (h : (s'.goto v p).busy w) : s.busy w := by
  rcases eq_or_ne w v with rfl | hne
  · exact hv
  · rw [← busy_congr ((goto_phase_of_ne hne).trans (congrFun hp w)) (hd hne)]
    exact h

theorem due_wakes (hw : a.wakes ≠ some w) (hstart : a.wakes ≠ none) :
    (sessionStep s a).due w = s.due w := by
  cases a with
  | send | tick =>
    cases w <;> simp only [SessionAct.wakes, ne_eq, not_true_eq_false] at hw <;>
      simp only [sessionStep] <;> split <;> rfl
  | cancel => cases w <;> simp only [SessionAct.wakes, ne_eq, not_true_eq_false] at hw <;> rfl
  | start | take | leave | beginWrite | endWrite => exact absurd rfl hstart

theorem phase_wakes (h : a.wakes = some v) : (sessionStep s a).phase = s.phase := by
  cases a with
  | send msg => simp only [sessionStep]; split <;> rfl
  | tick => simp only [sessionStep]; split <;> rfl
  | cancel => rfl
  | start | take | leave | beginWrite | endWrite => cases h

theorem busy_step (hstart : a ≠ .start) (h : (sessionStep s a).busy w) :
    s.busy w ∨ (a.wakes = some w ∧ (s.phase w).running) := by
  cases hwakes : a.wakes with
  | some v =>
    have hphase := phase_wakes (s := s) hwakes
    rcases eq_or_ne v w with rfl | hne
    · exact .inr ⟨rfl, hphase ▸ running_of_busy h⟩
    · refine .inl ((busy_congr (congrFun hphase w) (due_wakes ?_ ?_)).symm.trans h)
      · rw [hwakes]; exact fun he => hne (Option.some.inj he)
      · rw [hwakes]; exact Option.some_ne_none v
  | none =>
    refine .inl ?_
    revert h
    cases a with
    | send | tick | cancel => cases hwakes
    | start => exact absurd rfl hstart
    | take v =>
      simp only [sessionStep]
      split
      case isTrue hg =>
        refine busy_of_goto ?_ (by cases v <;> rfl) due_consume_of_ne
        simp [SessionState.busy, hg.1, hg.2]
      case isFalse => exact id
    | leave v =>
      simp only [sessionStep]
      split
      case isTrue hg =>
        intro h
        have hne : w ≠ v := by
          rintro rfl
          simp [SessionState.busy, SessionState.goto] at h
        exact (busy_congr (goto_phase_of_ne hne) (by cases w <;> rfl)).symm.trans h
      case isFalse => exact id
    | beginWrite v =>
      simp only [sessionStep]
      split
      case isTrue hg => exact busy_of_goto (by simp [SessionState.busy, hg]) rfl fun _ => rfl
      case isFalse => exact id
    | endWrite v ok =>
      simp only [sessionStep]
      split
      case isTrue hg => exact busy_of_goto (busy_of_writing hg) rfl fun _ => rfl
      case isFalse => exact id

def Alone (s : SessionState μ) : Prop := ∀ v w, s.busy v → s.busy w → v = w

theorem alone_start (h : Alone s) (hok : s.queue.isEmpty ∨ s.cancelled = false) :
    Alone (sessionStep s .start) := by
  simp only [sessionStep]
  split
  case isTrue =>
    intro v w
    rcases hok with hok | hok <;> cases v <;> cases w <;>
      simp [SessionState.busy, SessionState.due, hok]
  case isFalse => exact h

/-- While events come only when no other writer is busy, at most one writer is. -/
theorem alone_step (h : Alone s) (hok : ComesApart s a) : Alone (sessionStep s a) := by
  rcases eq_or_ne a .start with rfl | hstart
  · exact alone_start h hok
  have hcomes : ∀ u, a.wakes = some u → s.ComesAlone u := by
    intro u hu
    cases a <;> cases hu <;> exact hok
  -- the writer that an event wakes is the only one that was busy before
  have hwoken : ∀ u x, a.wakes = some u ∧ (s.phase u).running → s.busy x → u = x := by
    intro u x hu hx
    by_contra hne
    exact Bool.false_ne_true ((hcomes u hu.1 hu.2 x (Ne.symm hne)).symm.trans hx)
  intro v w hv hw
  rcases busy_step hstart hv with hv | hv <;> rcases busy_step hstart hw with hw | hw
  · exact h v w hv hw
  · exact (hwoken w v hw hv).symm
  · exact hwoken v w hv hw
  · exact Option.some.inj (hv.1.symm.trans hw.1)

theorem alone_run {queue : List μ} {cancelled : Bool} {acts : List (SessionAct μ)}
    (hok : ∀ pre a, pre ++ [a] <+: acts → ComesApart (sessionRun queue cancelled pre) a) :
    Alone (sessionRun queue cancelled acts) := by
  refine Runs.run_invariant (fun as => Alone (sessionRun queue cancelled as))
    (fun pre a => ComesApart (sessionRun queue cancelled pre) a) ?_ (fun pre a hpa hpre => ?_) hok
  · intro v w
    cases v <;> cases w <;> simp [sessionRun, SessionState.dialed, SessionState.busy]
  · rw [sessionRun, Runs.run_snoc]
    exact alone_step hpre hpa

end WriterLemmas

open WriterLemmas in
/-- In a session whose events come apart, at most one writer is inside
`conn.WriteMessage`. -/
theorem one_writer {μ : Type} (queue : List μ) (cancelled : Bool) (acts : List (SessionAct μ))
    (hok : ∀ pre a, pre ++ [a] <+: acts → ComesApart (sessionRun queue cancelled pre) a)
    (v w : Writer) (hv : (sessionRun queue cancelled acts).phase v = .writing)
    (hw : (sessionRun queue cancelled acts).phase w = .writing) : v = w :=
  alone_run hok v w (busy_of_writing hv) (busy_of_writing hw)

/-- The greeting, a message, a ping and the close, one after the other. -/
def orderlySession : List (SessionAct Nat) :=
  [.beginWrite .greeting, .endWrite .greeting true, .send 1, .start, .take .writeLoop,
    .beginWrite .writeLoop, .endWrite .writeLoop true, .tick, .take .pingLoop,
    .beginWrite .pingLoop, .endWrite .pingLoop true, .cancel, .leave .writeLoop,
    .leave .pingLoop, .take .closer, .beginWrite .closer]

theorem one_writer_orderly :
    (sessionRun [] false orderlySession).phase .closer = .writing ∧
    ∀ w, (sessionRun [] false orderlySession).phase w = .writing → w = .closer := by
  have hcloser : (sessionRun [] false orderlySession).phase .closer = .writing := by
    decide +kernel
  exact ⟨hcloser, fun w hw =>
    one_writer [] false orderlySession (Runs.forall_steps (by decide +kernel)) w .closer hw hcloser⟩

def collidingSession : List (SessionAct Nat) :=
  [.beginWrite .greeting, .endWrite .greeting true, .start, .send 1, .tick, .take .writeLoop,
    .take .pingLoop, .beginWrite .writeLoop, .beginWrite .pingLoop]

/-- Not for events that coincide: two writers are inside `conn.WriteMessage`. -/
theorem writers_collide :
    (sessionRun [] false collidingSession).phase .writeLoop = .writing ∧
    (sessionRun [] false collidingSession).phase .pingLoop = .writing := by
  decide +kernel

end Forager
