import Forager.FlowControl

/-!
# The output of a command of the SSH proxy

`handleExec` of `pkg/proxy/ssh/proxy.go` reads the output of a command in
sequence, standard output up to the cap or its end and then standard error, and
waits for the command, with its timeout, only after that. The two are the streams
of one SSH channel and share its window.
-/

namespace Forager

open FlowControl

/-- The two calls of `io.ReadAll`. -/
structure ExecRead where
  stdout : List UInt8
  stdoutDone : Bool
  stderr : List UInt8
  stderrDone : Bool
deriving DecidableEq, Repr

def ExecRead.start : ExecRead := ⟨[], false, [], false⟩

/-- The first `io.ReadAll` has returned: at the end of the stream or at the limit. -/
def ExecRead.atStderr (maxOut : Int) (r : ExecRead) : Bool :=
  r.stdoutDone ∨ maxOut ≤ r.stdout.length

/-- The reads of `handleExec`; `maxOut` is `MaxOutputBytes`. -/
def execReader (maxOut : Int) : Reader UInt8 ExecRead where
  wants r
    | .out => !r.atStderr maxOut
    | .err => r.atStderr maxOut && !r.stderrDone && r.stderr.length < maxOut
  take r
    | .out, b => { r with stdout := r.stdout ++ [b] }
    | .err, b => { r with stderr := r.stderr ++ [b] }
  eof r
    | .out => { r with stdoutDone := true }
    | .err => { r with stderrDone := true }
  settle _ _ := none

/-- A command of the SSH proxy before its first byte of output. -/
def execStart (window : Nat) (writes : List (Stream × List UInt8)) : Conn UInt8 ExecRead :=
  .start window (bytesOf writes) .start

/-- Standard error fills the window while standard output is short of the cap, or the rest
of standard output does while standard error is. -/
def Filled (window : Nat) (maxOut : Int) (sent : List (Stream × UInt8)) : Prop :=
  ((only .err sent).length = window ∧ ((only .out sent).length : Int) < maxOut) ∨
    ((only .out sent).length = maxOut.toNat + window ∧ ((only .err sent).length : Int) < maxOut)

namespace SshExecLemmas

variable {maxOut : Int} {c c' : Conn UInt8 ExecRead} {e : Event} {window : Nat}
  {bytes : List (Stream × UInt8)}

/-- What has been read, and in which order. -/
structure ExecInv (maxOut : Int) (c : Conn UInt8 ExecRead) : Prop where
  stdout : c.reader.stdout = c.taken .out
  stderr : c.reader.stderr = c.taken .err
  capped : c.reader.stdout.length ≤ maxOut.toNat
  stdoutDone : c.reader.stdoutDone = true → c.exited = true
  stderrDone : c.reader.stderrDone = true → c.exited = true
  /-- Standard error is not read before standard output is. -/
  inOrder : c.reader.atStderr maxOut = false → c.taken .err = []

theorem execInv_start (window : Nat) : ExecInv maxOut (Conn.start window bytes .start) :=
  ⟨rfl, rfl, Nat.zero_le _, nofun, nofun, fun _ => rfl⟩

theorem execInv_step (h : ExecInv maxOut c) (hs : Step (execReader maxOut) c e c') :
    ExecInv maxOut c' := by
  obtain ⟨x, b, rest, hp, hw, rfl⟩ | ⟨hp, -, rfl⟩ | ⟨x, b, rest, hw, hb, rfl⟩ |
    ⟨x, hw, -, hx, rfl⟩ | ⟨x, r, hr, -⟩ := step_cases hs
  · exact ⟨h.stdout, h.stderr, h.capped, h.stdoutDone, h.stderrDone, h.inOrder⟩
  · exact ⟨h.stdout, h.stderr, h.capped, fun _ => rfl, fun _ => rfl, h.inOrder⟩
  · cases x with
    | out =>
      have hat : c.reader.atStderr maxOut = false := by simpa [execReader] using hw
      refine ⟨?_, h.stderr, ?_, h.stdoutDone, h.stderrDone, fun _ => h.inOrder hat⟩
      · simp [Conn.read, execReader, h.stdout]
      · simp only [ExecRead.atStderr, decide_eq_false_iff_not, not_or] at hat
        simp only [Conn.read, execReader, List.length_append, List.length_singleton]
        omega
    | err =>
      have hat : c.reader.atStderr maxOut = true := by
        simp only [execReader, Bool.and_eq_true] at hw
        exact hw.1.1
      refine ⟨h.stdout, ?_, h.capped, h.stdoutDone, h.stderrDone, fun hnot => ?_⟩
      · simp [Conn.read, execReader, h.stderr]
      · exact absurd hat (Bool.eq_false_iff.mp hnot)
  · cases x with
    | out =>
      refine ⟨h.stdout, h.stderr, h.capped, fun _ => hx, h.stderrDone, fun hnot => ?_⟩
      simp [execReader, ExecRead.atStderr] at hnot
    | err => exact ⟨h.stdout, h.stderr, h.capped, h.stdoutDone, fun _ => hx, h.inOrder⟩
  · cases hr

theorem execInv_reach
    (h : Runs.Reach (Step (execReader maxOut)) (Conn.start window bytes .start) c) :
    ExecInv maxOut c :=
  Runs.reach_invariant (ExecInv maxOut) (execInv_start window)
    (fun _ _ _ h hs => execInv_step h hs) h

theorem ExecInv.notDone (h : ExecInv maxOut c) (hexited : c.exited = false) :
    c.reader.stdoutDone = false ∧ c.reader.stderrDone = false := by
  constructor
  · refine Bool.eq_false_iff.mpr fun hdone => ?_
    rw [h.stdoutDone hdone] at hexited
    cases hexited
  · refine Bool.eq_false_iff.mpr fun hdone => ?_
    rw [h.stderrDone hdone] at hexited
    cases hexited

theorem filled_of_wedged (ha : Accounted window bytes c) (h : ExecInv maxOut c)
    (hw : Wedged (execReader maxOut) c) : Filled window maxOut c.sent := by
  obtain ⟨hp, hzero, ⟨x, hx⟩, hempty⟩ := hw
  have hdone := h.notDone (ha.running hp)
  have hcredit := ha.credit
  have hout := ha.length_only .out
  have herr := ha.length_only .err
  have hnil := hempty x hx
  rw [Conn.inFlight, hzero] at hcredit
  have hstdout := congrArg List.length h.stdout
  have hstderr := congrArg List.length h.stderr
  cases x with
  | out =>
    have hat : c.reader.atStderr maxOut = false := by simpa [execReader] using hx
    rw [h.inOrder hat] at herr
    simp only [ExecRead.atStderr, decide_eq_false_iff_not, not_or] at hat
    rw [hnil] at hout hcredit
    simp only [List.length_nil] at hout herr hcredit
    exact .inl ⟨by omega, by omega⟩
  | err =>
    simp only [execReader, Bool.and_eq_true, ExecRead.atStderr, decide_eq_true_eq] at hx
    obtain ⟨⟨hend | hcap, -⟩, hlt⟩ := hx
    · rw [hdone.1] at hend
      cases hend
    · have hcapped := h.capped
      rw [hnil] at herr hcredit
      simp only [List.length_nil] at herr hcredit
      exact .inr ⟨by omega, by omega⟩

theorem wedged_of_filled (ha : Accounted window bytes c) (h : ExecInv maxOut c)
    (hp : c.pending ≠ []) (hd : Drained (execReader maxOut) c) (hf : Filled window maxOut c.sent) :
    Wedged (execReader maxOut) c := by
  have hdone := h.notDone (ha.running hp)
  have hcredit := ha.credit
  rw [Conn.inFlight] at hcredit
  have hout := ha.length_only .out
  have herr := ha.length_only .err
  have hstdout := congrArg List.length h.stdout
  have hstderr := congrArg List.length h.stderr
  have hcapped := h.capped
  cases hat : c.reader.atStderr maxOut with
  | false =>
    -- standard output is read to its last byte, and none of standard error
    have hwant : (execReader maxOut).wants c.reader .out = true := by simp [execReader, hat]
    have hnil := hd .out hwant
    rw [h.inOrder hat] at herr
    simp only [ExecRead.atStderr, decide_eq_false_iff_not, not_or] at hat
    rw [hnil] at hout hcredit
    simp only [List.length_nil] at hout herr hcredit
    refine ⟨hp, ?_, ⟨.out, hwant⟩, hd⟩
    obtain ⟨hfull, -⟩ | ⟨hfull, -⟩ := hf <;> omega
  | true =>
    have hcap : maxOut ≤ c.reader.stdout.length := by
      simpa [ExecRead.atStderr, hdone.1] using hat
    obtain ⟨-, hlt⟩ | ⟨hfull, hlt⟩ := hf
    · omega
    · have hwant : (execReader maxOut).wants c.reader .err = true := by
        simp only [execReader, hat, hdone.2, Bool.not_false, Bool.and_self, Bool.true_and,
          decide_eq_true_eq]
        omega
      have hnil := hd .err hwant
      rw [hnil] at herr hcredit
      simp only [List.length_nil] at herr hcredit
      exact ⟨hp, by omega, ⟨.err, hwant⟩, hd⟩

theorem not_filled_of_idle (ha : Accounted window bytes c) (h : ExecInv maxOut c)
    (hp : c.pending ≠ []) (hidle : ∀ x, (execReader maxOut).wants c.reader x = false)
    {target : List (Stream × UInt8)} (ht : c.sent <+: target) : ¬ Filled window maxOut target := by
  have hdone := h.notDone (ha.running hp)
  have hout := hidle .out
  have herr := hidle .err
  simp only [execReader, ExecRead.atStderr, hdone.1, Bool.not_eq_false', Bool.false_eq_true,
    false_or, decide_eq_true_eq] at hout
  simp only [execReader, ExecRead.atStderr, hdone.1, hdone.2, Bool.false_eq_true, false_or, hout,
    decide_true, Bool.not_false, Bool.and_self, Bool.true_and, decide_eq_false_iff_not] at herr
  rw [h.stdout] at hout
  rw [h.stderr] at herr
  have hsent := ha.length_only .out
  have hsent' := ha.length_only .err
  have hle := length_only_le ht .out
  have hle' := length_only_le ht .err
  rintro (⟨-, hlt⟩ | ⟨-, hlt⟩) <;> omega

theorem exists_wedged_or_sent {target : List (Stream × UInt8)} (ht : target <+: bytes)
    (hf : Filled window maxOut target) (pre : List (Stream × UInt8)) (hpre : pre <+: target) :
    (∃ c, Runs.Reach (Step (execReader maxOut)) (Conn.start window bytes .start) c ∧
      Wedged (execReader maxOut) c) ∨
    ∃ c, Runs.Reach (Step (execReader maxOut)) (Conn.start window bytes .start) c ∧
      Drained (execReader maxOut) c ∧ c.sent = pre := by
  induction pre using List.reverseRecOn with
  | nil => exact .inr ⟨_, .init, fun _ _ => rfl, rfl⟩
  | append_singleton pre p ih =>
    obtain hwedged | ⟨c, hreach, hd, hsent⟩ := ih ((List.prefix_append pre [p]).trans hpre)
    · exact .inl hwedged
    have ha := accounted_reach hreach
    have hinv := execInv_reach hreach
    obtain ⟨post, hpost⟩ := hpre.trans ht
    have hpending : c.pending = p :: post := by
      have hsplit := ha.split
      rw [hsent, ← hpost, List.append_assoc] at hsplit
      exact List.append_cancel_left hsplit
    have hp : c.pending ≠ [] := by simp [hpending]
    rcases Nat.eq_zero_or_pos c.window with hzero | hpos
    · by_cases hx : ∃ x, (execReader maxOut).wants c.reader x = true
      · exact .inl ⟨c, hreach, hp, hzero, hx, hd⟩
      · have hidle : ∀ x, (execReader maxOut).wants c.reader x = false := by simpa using hx
        have hsub : c.sent <+: target := hsent ▸ (List.prefix_append pre [p]).trans hpre
        exact absurd hf (not_filled_of_idle ha hinv hp hidle hsub)
    · obtain ⟨c', hreach', ⟨hsent', -⟩, hd'⟩ :=
        exists_drained (execReader maxOut) (c.send p.1 p.2 post)
      refine .inr ⟨c', (hreach.step (step_send hpending hpos)).trans hreach', hd', ?_⟩
      rw [hsent', ← hsent]
      rfl

end SshExecLemmas

open SshExecLemmas in
/-- For every sequence of writes, window and cap: no run of `handleExec` comes to a state in
which the remote side waits for the window and the local side for data, exactly if no part
of the output short of the whole is `Filled`. -/
theorem exec_never_wedged_iff (window : Nat) (maxOut : Int) (writes : List (Stream × List UInt8)) :
    (∀ c, Runs.Reach (Step (execReader maxOut)) (execStart window writes) c →
      ¬ Wedged (execReader maxOut) c) ↔
    ∀ sent, sent <+: bytesOf writes → sent ≠ bytesOf writes → ¬ Filled window maxOut sent := by
  constructor
  · intro hnever sent hpre hne hf
    obtain ⟨c, hreach, hw⟩ | ⟨c, hreach, hd, rfl⟩ :=
      exists_wedged_or_sent hpre hf sent (List.prefix_refl _)
    · exact hnever c hreach hw
    · have ha := accounted_reach hreach
      have hp : c.pending ≠ [] := by
        intro hnil
        have hsplit := ha.split
        rw [hnil, List.append_nil] at hsplit
        exact hne hsplit
      exact hnever c hreach (wedged_of_filled ha (execInv_reach hreach) hp hd hf)
  · intro hnot c hreach hw
    have ha := accounted_reach hreach
    refine hnot c.sent ⟨c.pending, ha.split⟩ (fun hall => hw.1 ?_)
      (filled_of_wedged ha (execInv_reach hreach) hw)
    have hsplit := ha.split
    rw [hall] at hsplit
    exact List.append_right_eq_self.mp hsplit

/-- A window of two bytes, and a command that writes three bytes to standard error before
its first byte of standard output. -/
def warnings : List (Stream × List UInt8) := [(.err, [119, 97, 114]), (.out, [111])]

/-- `handleExec` waits for standard output, which the command cannot get to. -/
theorem stderr_first_wedges :
    ∃ c, Runs.Reach (Step (execReader 1048576)) (execStart 2 warnings) c ∧
      Wedged (execReader 1048576) c ∧ c.exited = false ∧
      c.buffered .err = [119, 97] ∧ c.pending = [(.err, 114), (.out, 111)] := by
  refine ⟨_, .step (i := .send) (.step (i := .send) .init rfl) rfl, ?_, rfl, rfl, rfl⟩
  refine ⟨nofun, rfl, ⟨.out, rfl⟩, fun x hx => ?_⟩
  cases x with
  | out => rfl
  | err => cases hx

end Forager
