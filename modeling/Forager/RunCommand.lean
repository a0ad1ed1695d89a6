import Mathlib.Algebra.Order.Ring.Int
import Forager.FlowControl
import Forager.GoTime

/-!
# The output of a discovery command

`runCommand` of `pkg/proxy/discovery/executor.go` reads the two streams of a
command concurrently. Each reader collects one byte more than the cap, which tells
it whether the stream is longer than that, cuts what it has to the cap, and
discards the rest of the stream. The readers share the flag `truncated`, which is
read after both are done.
-/

namespace Forager

open FlowControl GoTime

/-- Where the reader of one stream is, with what `io.ReadAll` has so far or has
left after the cut. -/
inductive StreamReader
  /-- In `io.ReadAll` of the limited pipe. -/
  | collecting (data : List UInt8)
  /-- In `io.Copy(io.Discard, pipe)`. -/
  | discarding (data : List UInt8)
  | done (data : List UInt8)
deriving DecidableEq, Repr

structure RunRead where
  readers : Stream → StreamReader
  truncated : Bool

def RunRead.start : RunRead := ⟨fun _ => .collecting [], false⟩

/-- The reader of one stream moves on. -/
def RunRead.set (r : RunRead) (x : Stream) (reader : StreamReader) : RunRead :=
  { r with readers := Function.update r.readers x reader }

def outputCap (maxOutputBytes : Int) : Int := if maxOutputBytes < 0 then 0 else maxOutputBytes

/-- `int64(cfg.maxOutputBytes)+1`, the limit of `io.LimitReader`. -/
def readLimit (maxOutputBytes : Int) : Int := wrap64 (maxOutputBytes + 1)

/-- What a reader does between `io.ReadAll` and `io.Copy`. -/
def RunRead.cut (maxOutputBytes : Int) (r : RunRead) (x : Stream) (data : List UInt8) : RunRead :=
  if maxOutputBytes < data.length then
    { r.set x (.discarding (data.take maxOutputBytes.toNat)) with truncated := true }
  else r.set x (.discarding data)

/-- The readers of `runCommand`. A limited reader is at its end as soon as the limit is
reached, and at once if it is not positive. -/
def runReader (maxOutputBytes : Int) : Reader UInt8 RunRead where
  wants r x :=
    match r.readers x with
    | .collecting data => data.length < readLimit maxOutputBytes
    | .discarding _ => true
    | .done _ => false
  take r x b :=
    match r.readers x with
    | .collecting data => r.set x (.collecting (data ++ [b]))
    | .discarding _ | .done _ => r
  eof r x :=
    match r.readers x with
    | .collecting data => r.cut maxOutputBytes x data
    | .discarding data => r.set x (.done data)
    | .done _ => r
  settle r x :=
    match r.readers x with
    | .collecting data =>
      if readLimit maxOutputBytes ≤ data.length then some (r.cut maxOutputBytes x data) else none
    | _ => none

/-- How `session.Wait` and the timeout end. -/
inductive WaitOutcome
  | exited (exitCode : Int)
  | failed (err : String)
  | timedOut
deriving DecidableEq, Repr

structure RunOutput where
  stdout : List UInt8
  stderr : List UInt8
  exitCode : Int
  truncated : Bool
deriving DecidableEq, Repr

/-- The result of `runCommand`: without both readers there is only the timeout. -/
def runResult (r : RunRead) (w : WaitOutcome) : Except String RunOutput :=
  match r.readers .out, r.readers .err with
  | .done stdout, .done stderr =>
    match w with
    | .exited exitCode => .ok ⟨stdout, stderr, exitCode, r.truncated⟩
    | .failed err => .error ("wait: " ++ err)
    | .timedOut => .error "command timed out"
  | _, _ => .error "command timed out"

/-- A discovery command before its first byte of output. -/
def runStart (window : Nat) (writes : List (Stream × List UInt8)) : Conn UInt8 RunRead :=
  .start window (bytesOf writes) .start

/-! ## The invariant -/

/-- What a reader keeps of a stream. -/
def keptOf (n : Int) (l : List UInt8) : List UInt8 := (l.take (readLimit n).toNat).take n.toNat

/-- The probe byte is there. -/
def Over (n : Int) (l : List UInt8) : Prop := n.toNat < (l.take (readLimit n).toNat).length

namespace RunCommandLemmas

variable {n : Int} {c c' : Conn UInt8 RunRead} {e : Event} {window : Nat}
  {bytes : List (Stream × UInt8)} {x y : Stream}

/-- There is nothing left to read on the stream. -/
def AtEnd (c : Conn UInt8 RunRead) (x : Stream) : Prop := c.exited = true ∧ c.buffered x = []

/-- The reader is past `io.ReadAll`. -/
def StreamReader.settled : StreamReader → Bool
  | .collecting _ => false
  | .discarding _ | .done _ => true

/-- A reader in terms of what was read from its stream. -/
def ReaderInv (n : Int) (c : Conn UInt8 RunRead) (x : Stream) : StreamReader → Prop
  | .collecting data => data = c.taken x ∧ data.length ≤ (readLimit n).toNat
  | .discarding data =>
    data = keptOf n (c.taken x) ∧ ((readLimit n).toNat ≤ (c.taken x).length ∨ AtEnd c x)
  | .done data => data = keptOf n (c.taken x) ∧ AtEnd c x

structure RunInv (n : Int) (c : Conn UInt8 RunRead) : Prop where
  readers : ∀ x, ReaderInv n c x (c.reader.readers x)
  flag : c.reader.truncated = true ↔
    ∃ x, StreamReader.settled (c.reader.readers x) = true ∧ Over n (c.taken x)

theorem runInv_start (n : Int) (window : Nat) : RunInv n (Conn.start window bytes .start) where
  readers _ := ⟨rfl, Nat.zero_le _⟩
  flag := ⟨nofun, nofun⟩

/-! ### Steps -/

theorem set_self (r : RunRead) (x : Stream) (col : StreamReader) : (r.set x col).readers x = col :=
  Function.update_self _ _ _

theorem set_of_ne (r : RunRead) (col : StreamReader) (h : y ≠ x) :
    (r.set x col).readers y = r.readers y :=
  Function.update_of_ne h _ _

theorem cut_readers (h0 : 0 ≤ n) (r : RunRead) (x : Stream) (data : List UInt8) :
    (r.cut n x data).readers = (r.set x (.discarding (data.take n.toNat))).readers := by
  unfold RunRead.cut
  split
  · rfl
  · next hle => rw [List.take_of_length_le (by omega)]

theorem cut_truncated (r : RunRead) (x : Stream) (data : List UInt8) :
    (r.cut n x data).truncated = true ↔ r.truncated = true ∨ n < data.length := by
  unfold RunRead.cut
  split
  · next hlt => exact iff_of_true rfl (.inr hlt)
  · next hle => exact (or_iff_left hle).symm

theorem readerInv_mono {col : StreamReader} (h : ReaderInv n c x col)
    (htaken : c'.taken x = c.taken x) (hend : AtEnd c x → AtEnd c' x) : ReaderInv n c' x col := by
  cases col with
  | collecting data => exact ⟨htaken ▸ h.1, h.2⟩
  | discarding data => exact ⟨htaken ▸ h.1, htaken ▸ h.2.imp_right hend⟩
  | done data => exact ⟨htaken ▸ h.1, hend h.2⟩

theorem runInv_cut (h0 : 0 ≤ n) (h : RunInv n c) {data : List UInt8}
    (hcol : c.reader.readers x = .collecting data)
    (hend : (readLimit n).toNat ≤ data.length ∨ AtEnd c x) :
    RunInv n { c with reader := c.reader.cut n x data } := by
  have hx := h.readers x
  rw [hcol] at hx
  obtain ⟨rfl, hle⟩ := hx
  have hall : (c.taken x).take (readLimit n).toNat = c.taken x := List.take_of_length_le hle
  have hover : Over n (c.taken x) ↔ n < (c.taken x).length := by
    rw [Over, hall]
    omega
  refine ⟨fun y => ?_, ?_⟩
  · rw [cut_readers h0]
    rcases eq_or_ne y x with rfl | hne
    · rw [set_self]
      exact ⟨by rw [keptOf, hall], hend⟩
    · rw [set_of_ne _ _ hne]
      exact readerInv_mono (h.readers y) rfl id
  · rw [cut_truncated, h.flag, cut_readers h0, ← hover]
    constructor
    · rintro (⟨y, hy, ho⟩ | ho)
      · refine ⟨y, ?_, ho⟩
        rcases eq_or_ne y x with rfl | hne
        · rw [set_self]
          rfl
        · rwa [set_of_ne _ _ hne]
      · exact ⟨x, by rw [set_self]; rfl, ho⟩
    · rintro ⟨y, hy, ho⟩
      rcases eq_or_ne y x with rfl | hne
      · exact .inr ho
      · rw [set_of_ne _ _ hne] at hy
        exact .inl ⟨y, hy, ho⟩

theorem take_readLimit_append {l : List UInt8} (h : (readLimit n).toNat ≤ l.length) (b : UInt8) :
    (l ++ [b]).take (readLimit n).toNat = l.take (readLimit n).toNat :=
  List.take_append_of_le_length h

theorem runInv_take {b : UInt8} {rest : List UInt8} (h : RunInv n c)
    (hw : (runReader n).wants c.reader x = true) (hb : c.buffered x = b :: rest) :
    RunInv n (c.read (runReader n) x b rest) := by
  have hx := h.readers x
  have hnot : ¬ AtEnd c x := fun hend => by rw [hend.2] at hb; cases hb
  have hother {y : Stream} (hne : y ≠ x) :
      ReaderInv n (c.read (runReader n) x b rest) y (c.reader.readers y) := by
    refine readerInv_mono (h.readers y) (read_taken_of_ne _ c x b rest hne) fun hend => ⟨hend.1, ?_⟩
    rw [read_buffered_of_ne _ c x b rest hne, hend.2]
  cases hcol : c.reader.readers x with
  | collecting data =>
    rw [hcol] at hx
    obtain ⟨rfl, hle⟩ := hx
    simp only [runReader, hcol, decide_eq_true_eq] at hw
    have hreaders : (c.read (runReader n) x b rest).reader =
        c.reader.set x (.collecting (c.taken x ++ [b])) := by
      simp only [Conn.read, runReader, hcol]
    refine ⟨fun y => ?_, ?_⟩
    · rw [hreaders]
      rcases eq_or_ne y x with rfl | hne
      · rw [set_self]
        refine ⟨(read_taken_self _ c y b rest).symm, ?_⟩
        rw [List.length_append, List.length_singleton]
        omega
      · rw [set_of_ne _ _ hne]
        exact hother hne
    · rw [hreaders]
      refine h.flag.trans (exists_congr fun y => ?_)
      rcases eq_or_ne y x with rfl | hne
      · rw [set_self, hcol]
        refine iff_of_false ?_ ?_
        · rintro ⟨⟨⟩, -⟩
        · rintro ⟨⟨⟩, -⟩
      · rw [set_of_ne _ _ hne, read_taken_of_ne _ c x b rest hne]
  | discarding data =>
    rw [hcol] at hx
    obtain ⟨rfl, hlim⟩ := hx
    have hlong := hlim.resolve_right hnot
    have hreaders : (c.read (runReader n) x b rest).reader = c.reader := by
      simp only [Conn.read, runReader, hcol]
    have hcut := take_readLimit_append hlong b
    refine ⟨fun y => ?_, ?_⟩
    · rw [hreaders]
      rcases eq_or_ne y x with rfl | hne
      · rw [hcol]
        refine ⟨?_, .inl ?_⟩
        · rw [read_taken_self, keptOf, keptOf, hcut]
        · rw [read_taken_self, List.length_append]
          exact hlong.trans (Nat.le_add_right _ _)
      · exact hother hne
    · rw [hreaders]
      refine h.flag.trans (exists_congr fun y => and_congr_right fun _ => ?_)
      rcases eq_or_ne y x with rfl | hne
      · rw [read_taken_self, Over, Over, hcut]
      · rw [read_taken_of_ne _ c x b rest hne]
  | done data => simp [runReader, hcol] at hw

theorem runInv_step (h0 : 0 ≤ n) (ha : Accounted window bytes c) (h : RunInv n c)
    (hs : Step (runReader n) c e c') : RunInv n c' := by
  obtain ⟨x, b, rest, hp, hw, rfl⟩ | ⟨-, -, rfl⟩ | ⟨x, b, rest, hw, hb, rfl⟩ |
    ⟨x, hw, hb, hexited, rfl⟩ | ⟨x, r, hr, rfl⟩ := step_cases hs
  · -- output is only sent before the exit
    have hrunning := ha.running (by rw [hp]; exact List.cons_ne_nil _ _)
    refine ⟨fun y => readerInv_mono (h.readers y) rfl fun hend => ?_, h.flag⟩
    rw [hend.1] at hrunning
    cases hrunning
  · exact ⟨fun y => readerInv_mono (h.readers y) rfl fun hend => ⟨rfl, hend.2⟩, h.flag⟩
  · exact runInv_take h hw hb
  · have hx := h.readers x
    cases hcol : c.reader.readers x with
    | collecting data =>
      have heof : (runReader n).eof c.reader x = c.reader.cut n x data := by
        simp only [runReader, hcol]
      rw [heof]
      exact runInv_cut h0 h hcol (.inr ⟨hexited, hb⟩)
    | discarding data =>
      rw [hcol] at hx
      have heof : (runReader n).eof c.reader x = c.reader.set x (.done data) := by
        simp only [runReader, hcol]
      rw [heof]
      refine ⟨fun y => ?_, h.flag.trans (exists_congr fun y => ?_)⟩
      · rcases eq_or_ne y x with rfl | hne
        · rw [set_self]
          exact ⟨hx.1, hexited, hb⟩
        · rw [set_of_ne _ _ hne]
          exact readerInv_mono (h.readers y) rfl id
      · rcases eq_or_ne y x with rfl | hne
        · rw [set_self, hcol]
          exact Iff.rfl
        · rw [set_of_ne _ _ hne]
    | done data => simp [runReader, hcol] at hw
  · simp only [runReader] at hr
    split at hr
    · next data hcol =>
      obtain ⟨hle, ⟨⟩⟩ := Option.ite_none_right_eq_some.mp hr
      exact runInv_cut h0 h hcol (.inl (Int.toNat_le.mpr hle))
    · cases hr

theorem runInv_reach (h0 : 0 ≤ n)
    (h : Runs.Reach (Step (runReader n)) (Conn.start window bytes .start) c) :
    Accounted window bytes c ∧ RunInv n c :=
  Runs.reach_invariant (fun c => Accounted window bytes c ∧ RunInv n c)
    ⟨accounted_start, runInv_start n window⟩
    (fun _ _ _ h hs => ⟨accounted_step h.1 hs, runInv_step h0 h.1 h.2 hs⟩) h

/-! ### Progress -/

/-- The steps that a reader takes without reading. -/
def StreamReader.left : StreamReader → Nat
  | .collecting _ => 2
  | .discarding _ => 1
  | .done _ => 0

/-- A bound on the steps that are left. -/
def stepsLeft (c : Conn UInt8 RunRead) : Nat :=
  2 * c.pending.length + c.inFlight + (if c.exited then 0 else 1) +
    (StreamReader.left (c.reader.readers .out) + StreamReader.left (c.reader.readers .err))

theorem set_left_lt (r : RunRead) {col : StreamReader}
    (h : StreamReader.left col < StreamReader.left (r.readers x)) :
    StreamReader.left ((r.set x col).readers .out) +
        StreamReader.left ((r.set x col).readers .err) <
      StreamReader.left (r.readers .out) + StreamReader.left (r.readers .err) := by
  cases x with
  | out => rwa [set_self, set_of_ne _ _ (by decide), Nat.add_lt_add_iff_right]
  | err => rwa [set_self, set_of_ne _ _ (by decide), Nat.add_lt_add_iff_left]

theorem stepsLeft_reader_lt {r : RunRead}
    (h : StreamReader.left (r.readers .out) + StreamReader.left (r.readers .err) <
      StreamReader.left (c.reader.readers .out) + StreamReader.left (c.reader.readers .err)) :
    stepsLeft { c with reader := r } < stepsLeft c :=
  Nat.add_lt_add_left h _

theorem cut_left_lt (h0 : 0 ≤ n) {r : RunRead} {data : List UInt8}
    (hcol : r.readers x = .collecting data) :
    StreamReader.left ((r.cut n x data).readers .out) +
        StreamReader.left ((r.cut n x data).readers .err) <
      StreamReader.left (r.readers .out) + StreamReader.left (r.readers .err) := by
  rw [cut_readers h0]
  refine set_left_lt r ?_
  rw [hcol]
  exact Nat.lt_succ_self 1

theorem take_left (n : Int) (r : RunRead) (x y : Stream) (b : UInt8) :
    StreamReader.left (((runReader n).take r x b).readers y) =
      StreamReader.left (r.readers y) := by
  simp only [runReader]
  split
  · next data hcol =>
    rcases eq_or_ne y x with rfl | hne
    · rw [set_self, hcol]
      rfl
    · rw [set_of_ne _ _ hne]
  · rfl
  · rfl

/-- Every step of either side brings the end nearer. -/
theorem measure_step (h0 : 0 ≤ n) (hs : Step (runReader n) c e c') :
    stepsLeft c' < stepsLeft c := by
  obtain ⟨x, b, rest, hp, hw, rfl⟩ | ⟨-, hexited, rfl⟩ | ⟨x, b, rest, hw, hb, rfl⟩ |
    ⟨x, hw, hb, -, rfl⟩ | ⟨x, r, hr, rfl⟩ := step_cases hs
  · have hflight := inFlight_send c x b rest
    have hlen : c.pending.length = (c.send x b rest).pending.length + 1 := by rw [hp]; rfl
    refine Nat.add_lt_add_right (Nat.add_lt_add_right ?_ _) _
    omega
  · refine Nat.add_lt_add_right (Nat.add_lt_add_left ?_ _) _
    rw [hexited]
    exact Nat.zero_lt_one
  · have hflight := inFlight_read (R := runReader n) hb
    have hleft : ∀ y, StreamReader.left ((c.read (runReader n) x b rest).reader.readers y) =
        StreamReader.left (c.reader.readers y) := fun y => take_left n c.reader x y b
    unfold stepsLeft
    rw [hleft, hleft]
    refine Nat.add_lt_add_right (Nat.add_lt_add_right (Nat.add_lt_add_left ?_ _) _) _
    exact Nat.lt_of_succ_le hflight.le
  · refine stepsLeft_reader_lt ?_
    cases hcol : c.reader.readers x with
    | collecting data =>
      rw [show (runReader n).eof c.reader x = c.reader.cut n x data by simp only [runReader, hcol]]
      exact cut_left_lt h0 hcol
    | discarding data =>
      simp only [runReader, hcol]
      refine set_left_lt c.reader ?_
      rw [hcol]
      exact Nat.zero_lt_one
    | done data => simp [runReader, hcol] at hw
  · refine stepsLeft_reader_lt ?_
    simp only [runReader] at hr
    split at hr
    · next data hcol =>
      obtain ⟨-, ⟨⟩⟩ := Option.ite_none_right_eq_some.mp hr
      exact cut_left_lt h0 hcol
    · cases hr

theorem exists_step_reader (hinv : ReaderInv n c x (c.reader.readers x))
    (hleft : ¬ AtEnd c x ∨ ∀ data, c.reader.readers x ≠ .done data)
    (hdata : c.buffered x ≠ [] ∨ c.exited = true) : ∃ e c', Step (runReader n) c e c' := by
  by_cases hwants : (runReader n).wants c.reader x = true
  · cases hb : c.buffered x with
    | cons b rest => exact ⟨.take x, _, step_take hwants hb⟩
    | nil =>
      have hexited := hdata.resolve_left (not_not.mpr hb)
      refine ⟨.eof x, { c with reader := (runReader n).eof c.reader x }, ?_⟩
      simp only [Step, Conn.step]
      exact if_pos ⟨hwants, by rw [hb]; rfl, hexited⟩
  · cases hcol : c.reader.readers x with
    | collecting data =>
      simp only [runReader, hcol, decide_eq_true_eq, not_lt] at hwants
      refine ⟨.settle x, { c with reader := c.reader.cut n x data }, ?_⟩
      simp only [Step, Conn.step, runReader, hcol, if_pos hwants, Option.map_some]
    | discarding data => simp [runReader, hcol] at hwants
    | done data =>
      rw [hcol] at hinv
      obtain hnot | hnot := hleft
      · exact absurd hinv.2 hnot
      · exact absurd hcol (hnot data)

theorem not_stuck (ha : Accounted window bytes c) (h : RunInv n c)
    (hopen : 0 < window ∨ bytes = []) : ¬ Stuck (runReader n) c := by
  rintro ⟨hrunning, hnone⟩
  have hp : c.pending ≠ [] := by
    intro hnil
    have hexit := hnone .exit
    simp [Conn.step, hnil, hrunning] at hexit
  have hzero : c.window = 0 := by
    by_contra hpos
    obtain ⟨p, rest, hpending⟩ := List.exists_cons_of_ne_nil hp
    have hsend := hnone .send
    have hstep := step_send (R := runReader n) hpending (Nat.pos_of_ne_zero hpos)
    rw [Step, hsend] at hstep
    cases hstep
  have hwindow : 0 < window := by
    refine hopen.resolve_right fun hnil => hp ?_
    have hsplit := ha.split
    rw [hnil] at hsplit
    exact (List.append_eq_nil_iff.mp hsplit).2
  -- the whole window is in flight, so there is something to read
  obtain ⟨x, hx⟩ : ∃ x, c.buffered x ≠ [] := by
    by_contra hempty
    push Not at hempty
    have hcredit := ha.credit
    rw [hzero, Conn.inFlight, hempty, hempty] at hcredit
    exact hwindow.ne hcredit
  obtain ⟨e, c', hstep⟩ := exists_step_reader (h.readers x) (.inl fun hend => hx hend.2) (.inl hx)
  rw [Step, hnone e] at hstep
  cases hstep

def Completed (c : Conn UInt8 RunRead) : Prop := ∀ x, ∃ data, c.reader.readers x = .done data

theorem exists_completed (h0 : 0 ≤ n) (ha : Accounted window bytes c) (h : RunInv n c)
    (hopen : 0 < window ∨ bytes = []) :
    ∃ c', Runs.Reach (Step (runReader n)) c c' ∧ Completed c' := by
  have hprogress : ∀ c, Accounted window bytes c ∧ RunInv n c → ¬ Completed c →
      ∃ e c', Step (runReader n) c e c' ∧ (Accounted window bytes c' ∧ RunInv n c') ∧
        stepsLeft c' < stepsLeft c := by
    rintro c ⟨ha, h⟩ hnot
    obtain ⟨e, c', hstep⟩ : ∃ e c', Step (runReader n) c e c' := by
      cases hexited : c.exited with
      | false =>
        have hstuck := not_stuck ha h hopen
        simp only [Stuck, hexited, true_and] at hstuck
        push Not at hstuck
        obtain ⟨e, he⟩ := hstuck
        obtain ⟨c', hc'⟩ := Option.ne_none_iff_exists'.mp he
        exact ⟨e, c', hc'⟩
      | true =>
        unfold Completed at hnot
        push Not at hnot
        obtain ⟨x, hx⟩ := hnot
        exact exists_step_reader (h.readers x) (.inr hx) (.inr hexited)
    exact ⟨e, c', hstep, ⟨accounted_step ha hstep, runInv_step h0 ha h hstep⟩,
      measure_step h0 hstep⟩
  obtain ⟨c', hreach, -, hdone⟩ :=
    Runs.exists_reach_of_progress _ Completed stepsLeft hprogress ⟨ha, h⟩
  exact ⟨c', hreach, hdone⟩

/-! ### Results -/

theorem runResult_eq_ok {r : RunRead} {w : WaitOutcome} {o : RunOutput}
    (h : runResult r w = .ok o) :
    r.readers .out = .done o.stdout ∧ r.readers .err = .done o.stderr ∧
      o.truncated = r.truncated := by
  unfold runResult at h
  split at h
  · next hout herr =>
    cases w with
    | exited code =>
      obtain rfl := Except.ok.inj h
      exact ⟨hout, herr, rfl⟩
    | failed err => cases h
    | timedOut => cases h
  · cases h

theorem AtEnd.taken (h : AtEnd c x) (ha : Accounted window bytes c) :
    c.taken x = only x bytes := by
  have hsplit := ha.split
  have hdata := ha.data x
  rw [ha.ended h.1, List.append_nil] at hsplit
  rwa [h.2, List.append_nil, hsplit] at hdata

theorem runResult_ok (ha : Accounted window bytes c) (h : RunInv n c) {w : WaitOutcome}
    {o : RunOutput} (hres : runResult c.reader w = .ok o) :
    o.stdout = keptOf n (only .out bytes) ∧ o.stderr = keptOf n (only .err bytes) ∧
      (o.truncated = true ↔ Over n (only .out bytes) ∨ Over n (only .err bytes)) ∧
      ∀ x, c.taken x = only x bytes := by
  obtain ⟨hout, herr, htrunc⟩ := runResult_eq_ok hres
  have hrout := h.readers .out
  have hrerr := h.readers .err
  rw [hout] at hrout
  rw [herr] at hrerr
  have htaken : ∀ x, c.taken x = only x bytes := by
    intro x
    cases x with
    | out => exact hrout.2.taken ha
    | err => exact hrerr.2.taken ha
  refine ⟨?_, ?_, ?_, htaken⟩
  · rw [hrout.1, htaken]
  · rw [hrerr.1, htaken]
  · rw [htrunc, h.flag]
    constructor
    · rintro ⟨x, -, hover⟩
      rw [htaken] at hover
      cases x with
      | out => exact .inl hover
      | err => exact .inr hover
    · rintro (hover | hover)
      · exact ⟨.out, by rw [hout]; rfl, by rwa [htaken]⟩
      · exact ⟨.err, by rw [herr]; rfl, by rwa [htaken]⟩

theorem Completed.exists_result (h : Completed c) :
    ∃ o, runResult c.reader (.exited 0) = .ok o := by
  obtain ⟨out, hout⟩ := h .out
  obtain ⟨err, herr⟩ := h .err
  exact ⟨⟨out, err, 0, c.reader.truncated⟩, by simp only [runResult, hout, herr]⟩

/-! ### The limit -/

theorem readLimit_eq (h0 : 0 ≤ n) (h : n < 2 ^ 63 - 1) : (readLimit n).toNat = n.toNat + 1 := by
  rw [readLimit, wrap64_of_small (by omega) (by omega)]
  omega

theorem keptOf_eq (h0 : 0 ≤ n) (h : n < 2 ^ 63 - 1) (l : List UInt8) :
    keptOf n l = l.take n.toNat := by
  rw [keptOf, readLimit_eq h0 h, List.take_take, Nat.min_eq_left (Nat.le_succ _)]

theorem over_iff (h0 : 0 ≤ n) (h : n < 2 ^ 63 - 1) (l : List UInt8) :
    Over n l ↔ n < l.length := by
  rw [Over, readLimit_eq h0 h, List.length_take]
  omega

theorem keptOf_max (l : List UInt8) : keptOf (2 ^ 63 - 1) l = [] := by
  have hlimit : (readLimit (2 ^ 63 - 1)).toNat = 0 := by decide
  rw [keptOf, hlimit, List.take_zero, List.take_nil]

theorem keptOf_nil (n : Int) : keptOf n [] = [] := by
  rw [keptOf, List.take_nil, List.take_nil]

theorem not_over_nil (n : Int) : ¬ Over n [] := by
  rw [Over, List.take_nil]
  exact Nat.not_lt_zero _

end RunCommandLemmas

open RunCommandLemmas

/-- The output is what the streams start with, the flag says whether one of them goes on
behind the cap, and both were read to their end. -/
structure Faithful (n : Int) (bytes : List (Stream × UInt8)) (c : Conn UInt8 RunRead)
    (o : RunOutput) : Prop where
  stdout : o.stdout = (only .out bytes).take n.toNat
  stderr : o.stderr = (only .err bytes).take n.toNat
  truncated : o.truncated = true ↔ n < (only .out bytes).length ∨ n < (only .err bytes).length
  read : ∀ x, c.taken x = only x bytes

namespace RunCommandLemmas

variable {n : Int} {c : Conn UInt8 RunRead} {window : Nat} {bytes : List (Stream × UInt8)}

theorem faithful_of_lt (h0 : 0 ≤ n) (hn : n < 2 ^ 63 - 1 ∨ bytes = [])
    (ha : Accounted window bytes c) (h : RunInv n c) {w : WaitOutcome} {o : RunOutput}
    (hres : runResult c.reader w = .ok o) : Faithful n bytes c o := by
  obtain ⟨hout, herr, htrunc, hread⟩ := runResult_ok ha h hres
  obtain hlt | rfl := hn
  · refine ⟨?_, ?_, ?_, hread⟩
    · rw [hout, keptOf_eq h0 hlt]
    · rw [herr, keptOf_eq h0 hlt]
    · rw [htrunc, over_iff h0 hlt, over_iff h0 hlt]
  · refine ⟨?_, ?_, ?_, hread⟩
    · rw [hout, only_nil, keptOf_nil, List.take_nil]
    · rw [herr, only_nil, keptOf_nil, List.take_nil]
    · rw [htrunc, only_nil, only_nil]
      have hneg : ¬ n < ([] : List UInt8).length := not_lt.mpr h0
      exact iff_of_false (by simp [not_over_nil]) (by simpa using hneg)

theorem exists_only_ne_nil (h : bytes ≠ []) : ∃ x, only x bytes ≠ [] := by
  obtain ⟨⟨x, b⟩, rest, rfl⟩ := List.exists_cons_of_ne_nil h
  refine ⟨x, ?_⟩
  rw [← List.singleton_append, only_append, only_singleton, if_pos rfl]
  exact List.cons_ne_nil _ _

theorem not_faithful_max (hb : bytes ≠ []) (ha : Accounted window bytes c)
    (h : RunInv (2 ^ 63 - 1) c) {w : WaitOutcome} {o : RunOutput}
    (hres : runResult c.reader w = .ok o) : ¬ Faithful (2 ^ 63 - 1) bytes c o := by
  intro hf
  obtain ⟨hout, herr, -, -⟩ := runResult_ok ha h hres
  obtain ⟨x, hx⟩ := exists_only_ne_nil hb
  have hnil : (only x bytes).take ((2 ^ 63 - 1 : Int).toNat) = [] := by
    cases x with
    | out => rw [← hf.stdout, hout, keptOf_max]
    | err => rw [← hf.stderr, herr, keptOf_max]
  rw [List.take_eq_nil_iff] at hnil
  exact hx (hnil.resolve_left (by decide))

theorem exists_stuck (h0 : 0 ≤ n) (hb : bytes ≠ []) :
    ∃ c, Runs.Reach (Step (runReader n)) (Conn.start 0 bytes .start) c ∧
      Stuck (runReader n) c := by
  let Closed (c : Conn UInt8 RunRead) : Prop :=
    c.window = 0 ∧ c.pending ≠ [] ∧ (∀ x, c.buffered x = []) ∧ c.exited = false
  have hprogress : ∀ c, Closed c → ¬ Stuck (runReader n) c →
      ∃ e c', Step (runReader n) c e c' ∧ Closed c' ∧ stepsLeft c' < stepsLeft c := by
    rintro c ⟨hwindow, hp, hempty, hexited⟩ hnot
    simp only [Stuck, hexited, true_and] at hnot
    push Not at hnot
    obtain ⟨e, he⟩ := hnot
    obtain ⟨c', hc'⟩ := Option.ne_none_iff_exists'.mp he
    refine ⟨e, c', hc', ?_, measure_step h0 hc'⟩
    obtain ⟨x, b, rest, -, hpos, -⟩ | ⟨hnil, -⟩ | ⟨x, b, rest, -, hb, -⟩ | ⟨x, -, -, hend, -⟩ |
      ⟨x, r, -, rfl⟩ := step_cases hc'
    · exact absurd hwindow hpos.ne'
    · exact absurd hnil hp
    · rw [hempty x] at hb
      cases hb
    · rw [hexited] at hend
      cases hend
    · exact ⟨hwindow, hp, hempty, hexited⟩
  obtain ⟨c, hreach, -, hstuck⟩ := Runs.exists_reach_of_progress Closed (Stuck (runReader n))
    stepsLeft hprogress (s := Conn.start 0 bytes .start) ⟨rfl, hb, fun _ => rfl, rfl⟩
  exact ⟨c, hreach, hstuck⟩

end RunCommandLemmas

/-- For every sequence of writes and every cap that an `int64` can hold: every run that
returns without an error returns the output faithfully, and no run is stuck before the
exit, exactly if the cap has a successor and the window is open, or there is no output. -/
theorem run_command_iff (n : Int) (h0 : 0 ≤ n) (hmax : n < 2 ^ 63) (window : Nat)
    (writes : List (Stream × List UInt8)) :
    (∀ c, Runs.Reach (Step (runReader (outputCap n))) (runStart window writes) c →
      (∀ w o, runResult c.reader w = .ok o → Faithful n (bytesOf writes) c o) ∧
        ¬ Stuck (runReader (outputCap n)) c) ↔
    (n < 2 ^ 63 - 1 ∨ bytesOf writes = []) ∧ (0 < window ∨ bytesOf writes = []) := by
  rw [outputCap, if_neg (not_lt.mpr h0)]
  constructor
  · intro hall
    by_cases hb : bytesOf writes = []
    · exact ⟨.inr hb, .inr hb⟩
    have hwindow : 0 < window := by
      by_contra hzero
      obtain rfl := Nat.eq_zero_of_not_pos hzero
      obtain ⟨c, hreach, hstuck⟩ := exists_stuck h0 hb
      exact (hall c hreach).2 hstuck
    refine ⟨.inl ?_, .inl hwindow⟩
    by_contra hge
    obtain rfl : n = 2 ^ 63 - 1 := by omega
    have hstart : RunInv (2 ^ 63 - 1) (Conn.start window (bytesOf writes) .start) :=
      runInv_start _ window
    obtain ⟨c, hreach, hdone⟩ := exists_completed h0 accounted_start hstart (.inl hwindow)
    obtain ⟨ha, hinv⟩ := runInv_reach h0 hreach
    obtain ⟨o, hres⟩ := hdone.exists_result
    exact not_faithful_max hb ha hinv hres ((hall c hreach).1 _ o hres)
  · rintro ⟨hn, hopen⟩ c hreach
    obtain ⟨ha, hinv⟩ := runInv_reach h0 hreach
    exact ⟨fun w o hres => faithful_of_lt h0 hn ha hinv hres, not_stuck ha hinv hopen⟩

def listing : List (Stream × List UInt8) := [(.out, [97, 98, 99, 100, 101]), (.err, [119])]

/-- With a cap of three bytes and a window of two. -/
theorem listing_faithful :
    (0 : Int) ≤ 3 ∧ ∀ c, Runs.Reach (Step (runReader (outputCap 3))) (runStart 2 listing) c →
      (∀ w o, runResult c.reader w = .ok o → Faithful 3 (bytesOf listing) c o) ∧
        ¬ Stuck (runReader (outputCap 3)) c :=
  ⟨by decide, (run_command_iff 3 (by decide) (by decide) 2 listing).mpr
    ⟨.inl (by decide), .inl (by decide)⟩⟩

def oneByteRun : List Event :=
  [.settle .out, .settle .err, .send, .take .out, .exit, .eof .out, .eof .err]

/-- With the largest cap the byte is read and thrown away, and the flag is not set. -/
theorem largest_cap_loses_output :
    only .out (bytesOf [(Stream.out, [(111 : UInt8)])]) = [111] ∧
    ∃ c, Runs.Reach (Step (runReader (outputCap (2 ^ 63 - 1)))) (runStart 1 [(.out, [111])]) c ∧
      runResult c.reader (.exited 0) = .ok ⟨[], [], 0, false⟩ := by
  refine ⟨by decide, ((runStart 1 [(.out, [111])]).run (runReader (outputCap (2 ^ 63 - 1)))
    oneByteRun).get (by decide +kernel), ?_, by decide +kernel⟩
  exact Runs.reach_of_foldlM (Option.some_get _).symm

end Forager
