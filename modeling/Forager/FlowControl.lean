import Mathlib.Data.List.Basic
import Mathlib.Logic.Function.Basic
import Forager.Runs

/-!
# Two streams over one window

A remote command writes to two streams and exits. Both go through one channel
with a flow-control window: the remote side sends a byte only while the window
is open, and the window is replenished by what the local side reads. A byte that
nobody reads keeps its share of the window, whichever stream it is on.

The local side is a `Reader`: a program that wants to read from some of the
streams, depending on what it has read. A packet or a read of several bytes is
several steps.

* `Accounted`: every byte is with the remote side, in flight or read, in order,
  and the window is what the bytes in flight leave of it (`accounted_reach`).
* `Wedged`: the remote side waits for the window, the local side for data.
* `Stuck`: nobody can move and the command has not exited.
* `exists_drained`: the local side can read all it wants to of what is there.
-/

namespace FlowControl

variable {β ρ : Type}

inductive Stream
  | out
  | err
deriving DecidableEq, Repr

def only (x : Stream) (bytes : List (Stream × β)) : List β :=
  bytes.filterMap fun p => if p.1 = x then some p.2 else none

def bytesOf (writes : List (Stream × List β)) : List (Stream × β) :=
  writes.flatMap fun w => w.2.map fun b => (w.1, b)

/-- How the local side reads. -/
structure Reader (β ρ : Type) where
  /-- A read from the stream is next, or waits for data. -/
  wants : ρ → Stream → Bool
  take : ρ → Stream → β → ρ
  eof : ρ → Stream → ρ
  /-- A step of the program that reads the stream, between two reads. -/
  settle : ρ → Stream → Option ρ

structure Conn (β ρ : Type) where
  window : Nat
  sent : List (Stream × β)
  pending : List (Stream × β)
  /-- Received, and not read. -/
  buffered : Stream → List β
  /-- Read. -/
  taken : Stream → List β
  exited : Bool
  reader : ρ

def Conn.start (window : Nat) (bytes : List (Stream × β)) (r : ρ) : Conn β ρ where
  window := window
  sent := []
  pending := bytes
  buffered _ := []
  taken _ := []
  exited := false
  reader := r

inductive Event
  | send
  | exit
  | take (x : Stream)
  | eof (x : Stream)
  | settle (x : Stream)
deriving DecidableEq, Repr

def Conn.send (c : Conn β ρ) (x : Stream) (b : β) (rest : List (Stream × β)) : Conn β ρ :=
  { c with window := c.window - 1, sent := c.sent ++ [(x, b)], pending := rest,
           buffered := Function.update c.buffered x (c.buffered x ++ [b]) }

variable (R : Reader β ρ)

def Conn.read (c : Conn β ρ) (x : Stream) (b : β) (rest : List β) : Conn β ρ :=
  { c with window := c.window + 1, buffered := Function.update c.buffered x rest,
           taken := Function.update c.taken x (c.taken x ++ [b]), reader := R.take c.reader x b }

/-- `none`: the event is not possible. -/
def Conn.step (c : Conn β ρ) : Event → Option (Conn β ρ)
  | .send =>
    match c.pending with
    | [] => none
    | (x, b) :: rest => if 0 < c.window then some (c.send x b rest) else none
  | .exit => if c.pending.isEmpty ∧ c.exited = false then some { c with exited := true } else none
  | .take x =>
    match c.buffered x with
    | [] => none
    | b :: rest => if R.wants c.reader x then some (c.read R x b rest) else none
  | .eof x =>
    if R.wants c.reader x ∧ (c.buffered x).isEmpty ∧ c.exited = true then
      some { c with reader := R.eof c.reader x }
    else none
  | .settle x => (R.settle c.reader x).map fun r => { c with reader := r }

/-- The state after the events, if each is possible when it comes. -/
def Conn.run (c : Conn β ρ) (evs : List Event) : Option (Conn β ρ) := evs.foldlM (Conn.step R) c

def Step (c : Conn β ρ) (e : Event) (c' : Conn β ρ) : Prop := c.step R e = some c'

/-- The remote side waits for the window, and the local side waits for data on the
streams it wants to read. -/
def Wedged (c : Conn β ρ) : Prop :=
  c.pending ≠ [] ∧ c.window = 0 ∧ (∃ x, R.wants c.reader x = true) ∧
    ∀ x, R.wants c.reader x = true → c.buffered x = []

/-- Nothing can happen, and the command has not exited. -/
def Stuck (c : Conn β ρ) : Prop := c.exited = false ∧ ∀ e, c.step R e = none

/-- All that the local side wants to read is read. -/
def Drained (c : Conn β ρ) : Prop := ∀ x, R.wants c.reader x = true → c.buffered x = []

/-! ## Streams -/

@[simp] theorem only_nil (x : Stream) : only x ([] : List (Stream × β)) = [] := rfl

theorem only_append (x : Stream) (l l' : List (Stream × β)) :
    only x (l ++ l') = only x l ++ only x l' :=
  List.filterMap_append

theorem only_singleton (x y : Stream) (b : β) :
    only x [(y, b)] = if y = x then [b] else [] := by
  unfold only
  split <;> simp [*]

/-! ## Steps -/

variable {R} {c c' : Conn β ρ} {e : Event}
variable {x : Stream} {rest : List β} {b : β}

theorem step_cases (h : Step R c e c') :
    (∃ x b rest, c.pending = (x, b) :: rest ∧ 0 < c.window ∧ c' = c.send x b rest) ∨
    (c.pending = [] ∧ c.exited = false ∧ c' = { c with exited := true }) ∨
    (∃ x b rest, R.wants c.reader x = true ∧ c.buffered x = b :: rest ∧
      c' = c.read R x b rest) ∨
    (∃ x, R.wants c.reader x = true ∧ c.buffered x = [] ∧ c.exited = true ∧
      c' = { c with reader := R.eof c.reader x }) ∨
    ∃ x r, R.settle c.reader x = some r ∧ c' = { c with reader := r } := by
  unfold Step at h
  cases e with
  | send =>
    simp only [Conn.step] at h
    split at h
    · cases h
    · next x b rest hp =>
      obtain ⟨hw, ⟨⟩⟩ := Option.ite_none_right_eq_some.mp h
      exact .inl ⟨x, b, rest, hp, hw, rfl⟩
  | exit =>
    obtain ⟨⟨hp, hx⟩, ⟨⟩⟩ := Option.ite_none_right_eq_some.mp h
    exact .inr (.inl ⟨List.isEmpty_iff.mp hp, hx, rfl⟩)
  | take x =>
    simp only [Conn.step] at h
    split at h
    · cases h
    · next b rest hb =>
      obtain ⟨hw, ⟨⟩⟩ := Option.ite_none_right_eq_some.mp h
      exact .inr (.inr (.inl ⟨x, b, rest, hw, hb, rfl⟩))
  | eof x =>
    obtain ⟨⟨hw, hb, hx⟩, ⟨⟩⟩ := Option.ite_none_right_eq_some.mp h
    exact .inr (.inr (.inr (.inl ⟨x, hw, List.isEmpty_iff.mp hb, hx, rfl⟩)))
  | settle x =>
    obtain ⟨r, hr, rfl⟩ := Option.map_eq_some_iff.mp h
    exact .inr (.inr (.inr (.inr ⟨x, r, hr, rfl⟩)))

theorem step_send {rest : List (Stream × β)} (hp : c.pending = (x, b) :: rest) (hw : 0 < c.window) :
    Step R c .send (c.send x b rest) := by
  simp only [Step, Conn.step, hp, if_pos hw]

theorem step_take (hw : R.wants c.reader x = true) (hb : c.buffered x = b :: rest) :
    Step R c (.take x) (c.read R x b rest) := by
  simp only [Step, Conn.step, hb, if_pos hw]

section Fields

variable (R) (c) (x : Stream) (b : β) (rest : List β) {y : Stream}

theorem read_taken_self : (c.read R x b rest).taken x = c.taken x ++ [b] :=
  Function.update_self _ _ _

theorem read_taken_of_ne (h : y ≠ x) : (c.read R x b rest).taken y = c.taken y :=
  Function.update_of_ne h _ _

theorem read_buffered_of_ne (h : y ≠ x) : (c.read R x b rest).buffered y = c.buffered y :=
  Function.update_of_ne h _ _

end Fields

/-! ## Accounts -/

def Conn.inFlight (c : Conn β ρ) : Nat := (c.buffered .out).length + (c.buffered .err).length

structure Accounted (window : Nat) (bytes : List (Stream × β)) (c : Conn β ρ) : Prop where
  split : c.sent ++ c.pending = bytes
  credit : c.window + c.inFlight = window
  data : ∀ x, c.taken x ++ c.buffered x = only x c.sent
  ended : c.exited = true → c.pending = []

variable {window : Nat} {bytes : List (Stream × β)} {r : ρ}

theorem accounted_start : Accounted window bytes (Conn.start window bytes r) :=
  ⟨rfl, rfl, fun _ => rfl, nofun⟩

theorem inFlight_send (c : Conn β ρ) (x : Stream) (b : β) (rest : List (Stream × β)) :
    (c.send x b rest).inFlight = c.inFlight + 1 := by
  cases x <;> simp [Conn.inFlight, Conn.send] <;> omega

theorem inFlight_read (h : c.buffered x = b :: rest) :
    (c.read R x b rest).inFlight + 1 = c.inFlight := by
  cases x <;> simp [Conn.inFlight, Conn.read, h] <;> omega

theorem accounted_send {rest : List (Stream × β)} (h : Accounted window bytes c)
    (hp : c.pending = (x, b) :: rest) (hw : 0 < c.window) :
    Accounted window bytes (c.send x b rest) where
  split := by
    rw [← h.split, hp, Conn.send, List.append_assoc]
    rfl
  credit := by
    have hwindow : (c.send x b rest).window + 1 = c.window := Nat.sub_add_cancel hw
    rw [← h.credit, inFlight_send, ← hwindow]
    omega
  data y := by
    rw [Conn.send, only_append, only_singleton, ← h.data y]
    rcases eq_or_ne x y with rfl | hne
    · simp
    · simp [hne, Function.update_of_ne hne.symm]
  ended hx := by
    have hnil := h.ended hx
    rw [hp] at hnil
    cases hnil

theorem accounted_read (h : Accounted window bytes c) (hb : c.buffered x = b :: rest) :
    Accounted window bytes (c.read R x b rest) where
  split := h.split
  credit := by
    have hwindow : (c.read R x b rest).window = c.window + 1 := rfl
    rw [← h.credit, ← inFlight_read (R := R) hb, hwindow]
    omega
  data y := by
    refine Eq.trans ?_ (h.data y)
    rcases eq_or_ne y x with rfl | hne
    · simp [Conn.read, hb]
    · rw [read_taken_of_ne R c x b rest hne, read_buffered_of_ne R c x b rest hne]
  ended := h.ended

theorem accounted_step (h : Accounted window bytes c) (hs : Step R c e c') :
    Accounted window bytes c' := by
  obtain ⟨x, b, rest, hp, hw, rfl⟩ | ⟨hp, -, rfl⟩ | ⟨x, b, rest, hw, hb, rfl⟩ |
    ⟨x, -, -, -, rfl⟩ | ⟨x, r, -, rfl⟩ := step_cases hs
  · exact accounted_send h hp hw
  · exact ⟨h.split, h.credit, h.data, fun _ => hp⟩
  · exact accounted_read h hb
  · exact ⟨h.split, h.credit, h.data, h.ended⟩
  · exact ⟨h.split, h.credit, h.data, h.ended⟩

theorem accounted_reach (h : Runs.Reach (Step R) (Conn.start window bytes r) c) :
    Accounted window bytes c :=
  Runs.reach_invariant (Accounted window bytes) accounted_start
    (fun _ _ _ h hs => accounted_step h hs) h

theorem Accounted.running (h : Accounted window bytes c) (hp : c.pending ≠ []) :
    c.exited = false :=
  Bool.eq_false_iff.mpr fun hx => hp (h.ended hx)

theorem Accounted.length_only (h : Accounted window bytes c) (x : Stream) :
    (c.taken x).length + (c.buffered x).length = (only x c.sent).length := by
  rw [← h.data x, List.length_append]

theorem length_only_le {pre l : List (Stream × β)} (h : pre <+: l) (x : Stream) :
    (only x pre).length ≤ (only x l).length := by
  obtain ⟨rest, rfl⟩ := h
  rw [only_append, List.length_append]
  exact Nat.le_add_right _ _

/-! ## Draining -/

theorem exists_drained (R : Reader β ρ) (c : Conn β ρ) :
    ∃ c', Runs.Reach (Step R) c c' ∧ (c'.sent = c.sent ∧ c'.pending = c.pending) ∧
      Drained R c' := by
  refine Runs.exists_reach_of_progress
    (fun c' => c'.sent = c.sent ∧ c'.pending = c.pending) (Drained R) Conn.inFlight ?_ ⟨rfl, rfl⟩
  intro c' hc' hnot
  unfold Drained at hnot
  push Not at hnot
  obtain ⟨x, hw, hne⟩ := hnot
  obtain ⟨b, rest, hb⟩ := List.exists_cons_of_ne_nil hne
  refine ⟨.take x, _, step_take hw hb, hc', ?_⟩
  exact Nat.lt_of_succ_le (inFlight_read hb).le

end FlowControl
