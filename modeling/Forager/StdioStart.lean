import Forager.Runs
import Mathlib.Data.List.Basic
import Mathlib.Algebra.Ring.Nat
import Mathlib.Data.Fintype.Basic

/-!
# Starting the MCP process

`handleStdio` of `pkg/proxy/mcp/proxy.go` starts the child process on the first
request. It stores the process object in `p.stdio` before it starts it, and
without a lock, while every message is handled in a goroutine of its own. A step
is one read or write of `p.stdio`, one `start` or one `send`.

An object is named by the call that created it, a running process by the call
whose `start` launched it.
-/

namespace Forager

inductive StartPhase (ι : Type)
  /-- Before `p.stdio == nil`. -/
  | entry
  /-- Before the write of a new object to `p.stdio`. -/
  | create
  /-- Before the read of `p.stdio` for `start`. -/
  | created
  /-- Before `start` on the object. -/
  | starting (object : Option ι)
  /-- `start` failed; before the write of `nil`. -/
  | failed
  /-- Before `buildRequestBody`. -/
  | build
  /-- Before the read of `p.stdio` for `send`. -/
  | built
  /-- Before `send` on the object. -/
  | sending (object : Option ι)
  | done
deriving DecidableEq, Repr

/-- `p.stdio`, the process that was started on each object, and all processes that
were started. -/
structure StartState (ι : Type) where
  stdio : Option ι
  cmd : ι → Option ι
  launched : List ι
  phase : ι → StartPhase ι

/-- The next step of a call; `ok` is what `start` or `buildRequestBody` returns. -/
structure StartAct (ι : Type) where
  call : ι
  ok : Bool

section Model

variable {ι : Type} [DecidableEq ι]

def StartState.new : StartState ι := ⟨none, fun _ => none, [], fun _ => .entry⟩

def StartState.goto (s : StartState ι) (i : ι) (p : StartPhase ι) : StartState ι :=
  { s with phase := Function.update s.phase i p }

def startStep (s : StartState ι) (a : StartAct ι) : StartState ι :=
  let i := a.call
  match s.phase i with
  | .entry => s.goto i (if s.stdio = none then .create else .build)
  | .create => { s with stdio := some i }.goto i .created
  | .created => s.goto i (.starting s.stdio)
  | .starting none => s.goto i .done -- a nil pointer, which panics
  | .starting (some o) =>
    if a.ok then
      { s with cmd := Function.update s.cmd o (some i), launched := s.launched ++ [i] }.goto i
        .build
    else s.goto i .failed
  | .failed => { s with stdio := none }.goto i .done
  | .build => s.goto i (if a.ok then .built else .done)
  | .built => s.goto i (.sending s.stdio)
  | .sending _ => s.goto i .done
  | .done => s

def startRun (acts : List (StartAct ι)) : StartState ι := Runs.Run startStep .new acts

end Model

/-- The process that `Close` terminates. -/
def StartState.closes {ι : Type} (s : StartState ι) : Option ι := s.stdio.bind s.cmd

/-- The call has found no process and has not ended its start. -/
def StartPhase.isStarting {ι : Type} : StartPhase ι → Bool
  | .create | .created | .starting _ | .failed => true
  | .entry | .build | .built | .sending _ | .done => false

/-- A call enters only while no other one is starting the process. -/
def EntersAlone {ι : Type} (s : StartState ι) (a : StartAct ι) : Prop :=
  s.phase a.call = .entry → ∀ j, (s.phase j).isStarting = false

namespace StartLemmas

variable {ι : Type} [DecidableEq ι] {s : StartState ι} {a : StartAct ι} {acts : List (StartAct ι)}

/-- The call has not entered, or has ended. -/
def Away (p : StartPhase ι) : Prop := p = .entry ∨ p = .done

/-- The call uses the object `o`, or is away. -/
def Uses (o : ι) (p : StartPhase ι) : Prop :=
  Away p ∨ p = .build ∨ p = .built ∨ p = .sending (some o)

/-- Where the call that starts the process is, and what `p.stdio` holds then. -/
def Starts (i : ι) (stdio : Option ι) (p : StartPhase ι) : Prop :=
  (p = .create ∧ stdio = none) ∨
    ((p = .created ∨ p = .starting (some i) ∨ p = .failed) ∧ stdio = some i)

/-- Nothing runs, one call starts the process, or it runs and is in `p.stdio`. -/
inductive Settled (s : StartState ι) : Prop
  | down : s.stdio = none → s.launched = [] → (∀ j, Away (s.phase j)) → Settled s
  | starting (i : ι) : s.launched = [] → Starts i s.stdio (s.phase i) →
      (∀ j, j ≠ i → Away (s.phase j)) → Settled s
  | up (o c : ι) : s.stdio = some o → s.cmd o = some c → s.launched = [c] →
      (∀ j, Uses o (s.phase j)) → Settled s

theorem forall_goto {Q : StartPhase ι → Prop} {i : ι} {p : StartPhase ι} (hp : Q p)
    (h : ∀ j, j ≠ i → Q (s.phase j)) (j : ι) : Q ((s.goto i p).phase j) :=
  (Function.forall_update_iff s.phase (p := fun _ p => Q p)).mpr ⟨hp, h⟩ j

theorem goto_self (s : StartState ι) (i : ι) (p : StartPhase ι) : (s.goto i p).phase i = p :=
  Function.update_self ..

theorem away_goto {i : ι} {p : StartPhase ι} (h : ∀ j, j ≠ i → Away (s.phase j)) (j : ι)
    (hj : j ≠ i) : Away ((s.goto i p).phase j) := by
  rw [show (s.goto i p).phase j = s.phase j from Function.update_of_ne hj ..]
  exact h j hj

theorem settled_down (hstdio : s.stdio = none) (hlaunched : s.launched = [])
    (haway : ∀ j, Away (s.phase j)) : Settled (startStep s a) := by
  unfold startStep
  rcases haway a.call with hi | hi
  · simp only [hi, hstdio, if_true]
    refine .starting a.call hlaunched (.inl ⟨goto_self .., hstdio⟩) ?_
    exact away_goto fun j _ => haway j
  · simp only [hi]
    exact .down hstdio hlaunched haway

theorem settled_starting {i : ι} (hlaunched : s.launched = []) (hi : Starts i s.stdio (s.phase i))
    (haway : ∀ j, j ≠ i → Away (s.phase j)) (ha : a.call = i) : Settled (startStep s a) := by
  unfold startStep
  rw [ha]
  rcases hi with ⟨hi, hstdio⟩ | ⟨hi | hi | hi, hstdio⟩
  · simp only [hi]
    exact .starting i hlaunched (.inr ⟨.inl (goto_self ..), rfl⟩) (away_goto haway)
  · simp only [hi, hstdio]
    exact .starting i hlaunched (.inr ⟨.inr (.inl (goto_self ..)), hstdio⟩) (away_goto haway)
  · simp only [hi]
    split
    · refine .up i i hstdio (Function.update_self ..) (by simp [StartState.goto, hlaunched]) ?_
      exact forall_goto (.inr (.inl rfl)) fun j hj => .inl (haway j hj)
    · exact .starting i hlaunched (.inr ⟨.inr (.inr (goto_self ..)), hstdio⟩) (away_goto haway)
  · simp only [hi]
    exact .down rfl hlaunched (forall_goto (.inr rfl) haway)

theorem settled_up {o c : ι} (hstdio : s.stdio = some o) (hcmd : s.cmd o = some c)
    (hlaunched : s.launched = [c]) (huses : ∀ j, Uses o (s.phase j)) :
    Settled (startStep s a) := by
  have hgoto : ∀ p, Uses o p → Settled (s.goto a.call p) := fun p hp =>
    .up o c hstdio hcmd hlaunched (forall_goto hp fun j _ => huses j)
  unfold startStep
  rcases huses a.call with (hi | hi) | hi | hi | hi
  · simp only [hi, hstdio, reduceCtorEq, if_false]
    exact hgoto _ (.inr (.inl rfl))
  · simp only [hi]
    exact .up o c hstdio hcmd hlaunched huses
  · simp only [hi]
    split
    · exact hgoto _ (.inr (.inr (.inl rfl)))
    · exact hgoto _ (.inl (.inr rfl))
  · simp only [hi, hstdio]
    exact hgoto _ (.inr (.inr (.inr rfl)))
  · simp only [hi]
    exact hgoto _ (.inl (.inr rfl))

/-- While no call enters during the start of another one, either nothing runs or one process,
which `p.stdio` holds. -/
theorem settled_step (h : Settled s) (hok : EntersAlone s a) : Settled (startStep s a) := by
  cases h with
  | down hstdio hlaunched haway => exact settled_down hstdio hlaunched haway
  | up o c hstdio hcmd hlaunched huses => exact settled_up hstdio hcmd hlaunched huses
  | starting i hlaunched hi haway =>
    by_cases ha : a.call = i
    · exact settled_starting hlaunched hi haway ha
    · -- another call cannot enter now, so it has ended
      rcases haway a.call ha with hentry | hdone
      · have hstarting : (s.phase i).isStarting = true := by
          rcases hi with ⟨hi, -⟩ | ⟨hi | hi | hi, -⟩ <;> rw [hi] <;> rfl
        rw [hok hentry i] at hstarting
        cases hstarting
      · unfold startStep
        simp only [hdone]
        exact .starting i hlaunched hi haway

theorem settled_run (hok : ∀ pre a, pre ++ [a] <+: acts → EntersAlone (startRun pre) a) :
    Settled (startRun acts) := by
  refine Runs.run_invariant (fun pre => Settled (startRun pre)) _
    (.down rfl rfl fun _ => .inl rfl) (fun pre a hok h => ?_) hok
  have hsnoc : startRun (pre ++ [a]) = startStep (startRun pre) a := Runs.run_snoc _ _ pre a
  rw [hsnoc]
  exact settled_step h hok

omit [DecidableEq ι] in
theorem Settled.closes (h : Settled s) {c : ι} (hc : c ∈ s.launched) : s.closes = some c := by
  cases h with
  | down _ hlaunched | starting _ hlaunched =>
    rw [hlaunched] at hc
    cases hc
  | up o c' hstdio hcmd hlaunched =>
    rw [hlaunched] at hc
    obtain rfl := List.mem_singleton.mp hc
    unfold StartState.closes
    rw [hstdio]
    exact hcmd

theorem Settled.sends (h : Settled s) {i : ι} {o : Option ι} (hi : s.phase i = .sending o) :
    o.bind s.cmd ≠ none := by
  have haway : ¬ Away (s.phase i) := by simp [hi, Away]
  cases h with
  | down _ _ hall => exact absurd (hall i) haway
  | starting j _ hj hall =>
    by_cases hij : i = j
    · subst hij
      simp [Starts, hi] at hj
    · exact absurd (hall i hij) haway
  | up o' c _ hcmd _ huses =>
    rcases huses i with hu | hu | hu | hu
    · exact absurd hu haway
    · simp [hi] at hu
    · simp [hi] at hu
    · rw [hi] at hu
      cases hu
      simp [hcmd]

end StartLemmas

open StartLemmas in
/-- In a run where no call enters while another one is starting the process,
`send` is invoked only on an object with a started process, and every process
that was started is the one that `Close` terminates. -/
theorem stdio_start_alone {ι : Type} [DecidableEq ι] (acts : List (StartAct ι))
    (hok : ∀ pre a, pre ++ [a] <+: acts → EntersAlone (startRun pre) a) :
    (∀ pre a o, pre ++ [a] <+: acts → (startRun pre).phase a.call = .sending o →
      o.bind (startRun pre).cmd ≠ none) ∧
    ∀ c ∈ (startRun acts).launched, (startRun acts).closes = some c := by
  refine ⟨fun pre a o hp hi => ?_, fun c hc => (settled_run hok).closes hc⟩
  exact (settled_run fun p b hb => hok p b (hb.trans ((List.prefix_append pre [a]).trans hp))).sends
    hi

instance {ι : Type} [Fintype ι] [DecidableEq ι] (s : StartState ι) (a : StartAct ι) :
    Decidable (EntersAlone s a) :=
  inferInstanceAs (Decidable (s.phase a.call = .entry → ∀ j, (s.phase j).isStarting = false))

inductive Caller
  | first
  | second
  | third
deriving DecidableEq

instance fintypeCaller : Fintype Caller :=
  ⟨{.first, .second, .third}, by rintro ⟨⟩ <;> decide⟩

/-- The first call fails to start the process, the second one starts it and the
third one uses it. -/
def inSequence : List (StartAct Caller) :=
  List.replicate 3 ⟨.first, true⟩ ++ [⟨.first, false⟩, ⟨.first, true⟩] ++
    List.replicate 7 ⟨.second, true⟩ ++ List.replicate 4 ⟨.third, true⟩

theorem stdio_start_alone_sequence :
    (startRun inSequence).launched = [.second] ∧ (startRun inSequence).closes = some .second := by
  have h := stdio_start_alone inSequence (Runs.forall_steps (by decide +kernel))
  have hlaunched : (startRun inSequence).launched = [.second] := by decide +kernel
  exact ⟨hlaunched, h.2 .second (by rw [hlaunched]; exact List.mem_singleton.mpr rfl)⟩

/-- The first call has stored its object, the second one goes on to `send`. -/
def sendsEarly : List (StartAct Bool) :=
  List.replicate 2 ⟨false, true⟩ ++ List.replicate 3 ⟨true, true⟩

def startsTwice : List (StartAct Bool) :=
  [⟨false, true⟩, ⟨true, true⟩] ++ List.replicate 3 ⟨false, true⟩ ++ List.replicate 3 ⟨true, true⟩

/-- Not for two first requests at once: `send` is invoked on an object without a
process, and of two started processes `Close` terminates one. -/
theorem stdio_start_races :
    ((startRun sendsEarly).phase true = .sending (some false) ∧
      (startRun sendsEarly).cmd false = none) ∧
    (startRun startsTwice).launched = [false, true] ∧
      (startRun startsTwice).closes = some true := by
  decide +kernel

end Forager
