import Mathlib.Data.Set.Basic
import Mathlib.Data.Fintype.Defs
import Mathlib.Logic.Function.Basic
import Forager.Runs

/-!
# Threads and locks

Threads indexed by any type run fixed sequences of lock operations. A lock is
a read-write lock with Go's writer preference: `announce` takes the writer's
place and keeps new readers out, `acquire` waits for the readers that are in.
A plain mutex is a lock that is only ever acquired.

* `Deadlocked s S`: every thread of `S` waits for another thread of `S`.
* `not_deadlocked_of_rank`: no set is deadlocked in a state in which every
  thread asks for a lock of higher rank than those it holds.
-/

namespace Locks

/-- How a thread stands to a lock. -/
inductive Mode
  | free
  | read
  | pending
  | write
deriving DecidableEq, Repr

inductive Act (L : Type)
  | rlock (l : L)
  | runlock (l : L)
  | announce (l : L)
  | acquire (l : L)
  | unlock (l : L)
deriving DecidableEq, Repr

variable {ι L : Type}

namespace Act

def target : Act L → L
  | rlock l | runlock l | announce l | acquire l | unlock l => l

/-- How the thread stands to that lock afterwards. -/
def result : Act L → Mode
  | rlock _ => .read
  | runlock _ => .free
  | announce _ => .pending
  | acquire _ => .write
  | unlock _ => .free

/-- A thread standing in mode `m` to the lock keeps another one from doing
the operation. -/
def BlockedBy : Act L → Mode → Prop
  | rlock _, m | announce _, m => m = .pending ∨ m = .write
  | acquire _, m => m = .read ∨ m = .write
  | runlock _, _ | unlock _, _ => False

instance (a : Act L) (m : Mode) : Decidable (a.BlockedBy m) :=
  match a with
  | rlock _ | announce _ => inferInstanceAs (Decidable (m = .pending ∨ m = .write))
  | acquire _ => inferInstanceAs (Decidable (m = .read ∨ m = .write))
  | runlock _ | unlock _ => inferInstanceAs (Decidable False)

end Act

/-- The operations every thread has left, and how it stands to every lock. -/
structure State (ι L : Type) where
  todo : ι → List (Act L)
  mode : ι → L → Mode

def State.init (progs : ι → List (Act L)) : State ι L := ⟨progs, fun _ _ => .free⟩

/-- Thread `i` can do its next operation. -/
def Enabled (s : State ι L) (i : ι) : Prop :=
  match s.todo i with
  | [] => False
  | a :: _ => ∀ j, j ≠ i → ¬ a.BlockedBy (s.mode j a.target)

instance [DecidableEq ι] [Fintype ι] (s : State ι L) (i : ι) : Decidable (Enabled s i) :=
  match h : s.todo i with
  | [] => isFalse (by simp [Enabled, h])
  | a :: _ => decidable_of_iff (∀ j, j ≠ i → ¬ a.BlockedBy (s.mode j a.target))
      (by simp [Enabled, h])

def exec [DecidableEq ι] [DecidableEq L] (s : State ι L) (i : ι) : State ι L :=
  match s.todo i with
  | [] => s
  | a :: rest =>
    { todo := Function.update s.todo i rest
      mode := Function.update s.mode i (Function.update (s.mode i) a.target a.result) }

def Step [DecidableEq ι] [DecidableEq L] (s : State ι L) (i : ι) (s' : State ι L) : Prop :=
  Enabled s i ∧ s' = exec s i

/-- Thread `i` cannot go on because of thread `j`. -/
def Waits (s : State ι L) (i j : ι) : Prop :=
  j ≠ i ∧ ∃ a rest, s.todo i = a :: rest ∧ a.BlockedBy (s.mode j a.target)

/-- Every thread of the non-empty set waits for another one of it. -/
def Deadlocked (s : State ι L) (S : Set ι) : Prop :=
  S.Nonempty ∧ ∀ i ∈ S, ∃ j ∈ S, Waits s i j

/-! ## One step -/

variable {s : State ι L} {i j : ι} {a : Act L} {rest : List (Act L)}

theorem Enabled.exists_cons (h : Enabled s i) : ∃ a rest, s.todo i = a :: rest := by
  unfold Enabled at h
  split at h
  · exact h.elim
  · exact ⟨_, _, ‹_›⟩

section Exec

variable [DecidableEq ι] [DecidableEq L]

theorem exec_todo_self (h : s.todo i = a :: rest) : (exec s i).todo i = rest := by
  simp [exec, h]

theorem exec_mode_self (h : s.todo i = a :: rest) :
    (exec s i).mode i = Function.update (s.mode i) a.target a.result := by
  simp [exec, h]

theorem exec_todo_ne (h : j ≠ i) : (exec s i).todo j = s.todo j := by
  unfold exec
  split
  · rfl
  · simp [h]

theorem exec_mode_ne (h : j ≠ i) : (exec s i).mode j = s.mode j := by
  unfold exec
  split
  · rfl
  · simp [h]

end Exec

/-! ## Lock order -/

/-- Every thread asks for a lock of higher rank than those it holds, and one
that has announced itself as a writer does nothing before it has the lock. -/
def Ranked (rank : L → Nat) (s : State ι L) : Prop :=
  ∀ i a rest l, s.todo i = a :: rest →
    (s.mode i l = .read ∨ s.mode i l = .write → ∀ m, a.BlockedBy m → rank l < rank a.target) ∧
    (s.mode i l = .pending → a = .acquire l)

theorem exists_rank_ge {rank : L → Nat} {S : Set ι} (hr : Ranked rank s) (hd : Deadlocked s S)
    (n : Nat) : ∃ i ∈ S, ∃ j ∈ S, ∃ a rest, s.todo i = a :: rest ∧
      a.BlockedBy (s.mode j a.target) ∧ n ≤ rank a.target := by
  induction n with
  | zero =>
    obtain ⟨⟨i, hi⟩, hS⟩ := hd
    obtain ⟨j, hj, -, a, rest, ha, hb⟩ := hS i hi
    exact ⟨i, hi, j, hj, a, rest, ha, hb, Nat.zero_le _⟩
  | succ n ih =>
    obtain ⟨-, -, j, hj, a, -, -, hb, hn⟩ := ih
    -- a holder of `a.target` in the set asks for a lock of higher rank
    have hholder : ∀ k ∈ S, s.mode k a.target = .read ∨ s.mode k a.target = .write →
        ∃ i ∈ S, ∃ j ∈ S, ∃ a rest, s.todo i = a :: rest ∧
          a.BlockedBy (s.mode j a.target) ∧ n + 1 ≤ rank a.target := by
      intro k hk hm
      obtain ⟨j', hj', -, a', rest', ha', hb'⟩ := hd.2 k hk
      have hlt := (hr k a' rest' a.target ha').1 hm _ hb'
      exact ⟨k, hk, j', hj', a', rest', ha', hb', by omega⟩
    cases hm : s.mode j a.target with
    | free => cases a <;> simp_all [Act.BlockedBy]
    | read => exact hholder j hj (.inl hm)
    | write => exact hholder j hj (.inr hm)
    | pending =>
      obtain ⟨k, hk, -, a', rest', ha', hb'⟩ := hd.2 j hj
      have he := (hr j a' rest' a.target ha').2 hm
      rw [he] at hb'
      exact hholder k hk hb'

theorem not_deadlocked_of_rank {rank : L → Nat} (bound : Nat) (hb : ∀ l, rank l < bound)
    (hr : Ranked rank s) (S : Set ι) : ¬ Deadlocked s S := by
  intro hd
  obtain ⟨-, -, -, -, a, -, -, -, hn⟩ := exists_rank_ge hr hd bound
  exact absurd (hb a.target) (by omega)

end Locks
