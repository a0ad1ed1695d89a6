import Forager.Runs
import Mathlib.Data.Finset.Card
import Mathlib.Data.Finset.Range
import Mathlib.Logic.Function.Basic

/-!
# Fan-out under a semaphore

`n` tasks run at the same time, each of which writes its result into its own place.
The semaphore is a channel of capacity `c`: a task sends to it before it runs, and
receives from it when it has ended. A task that has not passed the semaphore when the
context is cancelled may give up, with a result of its own for that case.
-/

namespace FanOut

inductive Task (ρ : Type)
  | waiting
  | running
  | ended (r : ρ)

structure State (ρ : Type) where
  task : Nat → Task ρ
  /-- How many values are in the channel. -/
  sem : Nat
  cancelled : Bool

inductive Act (ρ : Type)
  /-- The task passes the semaphore. -/
  | acquire (i : Nat)
  | finish (i : Nat) (r : ρ)
  /-- The task gives up for the cancelled context. -/
  | giveUp (i : Nat)
  | cancel

namespace Task

variable {ρ : Type}

def isWaiting : Task ρ → Bool
  | .waiting => true
  | .running | .ended _ => false

def isRunning : Task ρ → Bool
  | .running => true
  | .waiting | .ended _ => false

end Task

section System

variable {ρ : Type} (n c : Nat) (skipped : Nat → ρ)

def State.start (cancelled : Bool) : State ρ := ⟨fun _ => .waiting, 0, cancelled⟩

def State.active (s : State ρ) : Finset Nat := (Finset.range n).filter fun i => (s.task i).isRunning

def State.set (s : State ρ) (i : Nat) (t : Task ρ) (sem : Nat) : State ρ :=
  { s with task := Function.update s.task i t, sem := sem }

def step (s : State ρ) : Act ρ → State ρ
  | .acquire i =>
    if i < n ∧ (s.task i).isWaiting ∧ s.sem < c then s.set i .running (s.sem + 1) else s
  | .finish i r =>
    if i < n ∧ (s.task i).isRunning then s.set i (.ended r) (s.sem - 1) else s
  | .giveUp i =>
    if i < n ∧ (s.task i).isWaiting ∧ s.cancelled then s.set i (.ended (skipped i)) s.sem else s
  | .cancel => { s with cancelled := true }

/-- The results of the first `n` tasks in their order, when all have ended. -/
def State.results (s : State ρ) : Nat → Option (List ρ)
  | 0 => some []
  | n + 1 =>
    match s.results n, s.task n with
    | some rs, .ended r => some (rs ++ [r])
    | _, _ => none

end System

variable {ρ : Type} {n c : Nat} {skipped : Nat → ρ} {s : State ρ} {a : Act ρ}
variable {i : Nat} {r : ρ}

@[simp] theorem mem_active : i ∈ s.active n ↔ i < n ∧ (s.task i).isRunning := by
  rw [State.active, Finset.mem_filter, Finset.mem_range]

theorem set_self (i : Nat) (t : Task ρ) (k : Nat) : (s.set i t k).task i = t :=
  Function.update_self ..

theorem set_of_ne {i j k : Nat} {t : Task ρ} (h : j ≠ i) : (s.set i t k).task j = s.task j :=
  Function.update_of_ne h ..

theorem active_set_ended (i : Nat) (r : ρ) (k : Nat) :
    (s.set i (.ended r) k).active n = (s.active n).erase i := by
  ext j
  rw [mem_active, Finset.mem_erase, mem_active]
  rcases eq_or_ne j i with rfl | hne
  · simp [set_self, Task.isRunning]
  · simp [set_of_ne hne, hne]

theorem active_set_running (h : i < n) (k : Nat) :
    (s.set i .running k).active n = insert i (s.active n) := by
  ext j
  rw [mem_active, Finset.mem_insert, mem_active]
  rcases eq_or_ne j i with rfl | hne
  · simp [set_self, Task.isRunning, h]
  · simp [set_of_ne hne, hne]

theorem notMem_active (h : (s.task i).isWaiting) : i ∉ s.active n := by
  rw [mem_active]
  cases ht : s.task i with
  | waiting => rintro ⟨-, ⟨⟩⟩
  | running | ended => rw [ht] at h; cases h

/-- The channel has a value for each task that runs. -/
structure Metered (n c : Nat) (s : State ρ) : Prop where
  sem_eq : s.sem = (s.active n).card
  sem_le : s.sem ≤ c

theorem Metered.card_le (h : Metered n c s) : (s.active n).card ≤ c := h.sem_eq ▸ h.sem_le

theorem metered_start (cancelled : Bool) : Metered n c (.start cancelled : State ρ) := by
  have hempty : (State.start cancelled : State ρ).active n = ∅ :=
    Finset.filter_eq_empty_iff.mpr fun _ _ h => by cases h
  exact ⟨by rw [hempty]; rfl, Nat.zero_le _⟩

theorem Metered.step (h : Metered n c s) : Metered n c (step n c skipped s a) := by
  cases a with
  | acquire i =>
    simp only [FanOut.step]
    split
    next hg =>
      refine ⟨?_, hg.2.2⟩
      rw [active_set_running hg.1, Finset.card_insert_of_notMem (notMem_active hg.2.1), ← h.sem_eq]
      rfl
    next => exact h
  | finish i r =>
    simp only [FanOut.step]
    split
    next hg =>
      refine ⟨?_, (Nat.sub_le _ _).trans h.sem_le⟩
      rw [active_set_ended, Finset.card_erase_of_mem (mem_active.mpr hg), ← h.sem_eq]
      rfl
    next => exact h
  | giveUp i =>
    simp only [FanOut.step]
    split
    next hg =>
      refine ⟨?_, h.sem_le⟩
      rw [active_set_ended, Finset.erase_eq_of_notMem (notMem_active hg.2.1)]
      exact h.sem_eq
    next => exact h
  | cancel => exact ⟨h.sem_eq, h.sem_le⟩

/-- When a step ends a task, and with which result; an ended task stays so. -/
theorem ended_step_iff :
    (step n c skipped s a).task i = .ended r ↔
      s.task i = .ended r ∨ (i < n ∧
        ((a = .finish i r ∧ (s.task i).isRunning) ∨
          (a = .giveUp i ∧ (s.task i).isWaiting ∧ s.cancelled ∧ r = skipped i))) := by
  -- the task `j` that a step sets is not ended before it
  have hset {j k : Nat} {t : Task ρ} (hj : ∀ r', s.task j ≠ .ended r') :
      (s.set j t k).task i = .ended r ↔ s.task i = .ended r ∨ (i = j ∧ t = .ended r) := by
    rcases eq_or_ne i j with rfl | hne
    · rw [set_self]
      exact ⟨fun h => .inr ⟨rfl, h⟩, fun h => (h.resolve_left (hj r)).2⟩
    · rw [set_of_ne hne]
      exact ⟨.inl, fun h => h.resolve_right fun h' => hne h'.1⟩
  have hwaiting {j : Nat} (h : (s.task j).isWaiting) (r' : ρ) : s.task j ≠ .ended r' := by
    intro h'
    rw [h'] at h
    cases h
  have hrunning {j : Nat} (h : (s.task j).isRunning) (r' : ρ) : s.task j ≠ .ended r' := by
    intro h'
    rw [h'] at h
    cases h
  cases a with
  | acquire j =>
    simp only [step]
    split
    next hg => rw [hset (hwaiting hg.2.1)]; simp
    next => simp
  | finish j r' =>
    simp only [step]
    split
    next hg => rw [hset (hrunning hg.2)]; grind
    next => grind
  | giveUp j =>
    simp only [step]
    split
    next hg => rw [hset (hwaiting hg.2.1)]; grind
    next => grind
  | cancel => simp [step]

/-- The result of a task is an old one, the one it finishes with, or the one for a
task that gives up. -/
theorem ended_step (h : (step n c skipped s a).task i = .ended r) :
    s.task i = .ended r ∨ (i < n ∧ (a = .finish i r ∨ (a = .giveUp i ∧ r = skipped i))) := by
  rcases ended_step_iff.mp h with hold | ⟨hlt, ⟨ha, -⟩ | ⟨ha, -, -, hr⟩⟩
  · exact .inl hold
  · exact .inr ⟨hlt, .inl ha⟩
  · exact .inr ⟨hlt, .inr ⟨ha, hr⟩⟩

/-- The context is cancelled by a cancellation only. -/
theorem cancelled_step (h : (step n c skipped s a).cancelled) : s.cancelled ∨ a = .cancel := by
  cases a with
  | acquire | finish | giveUp =>
    simp only [step] at h
    split at h <;> exact .inl h
  | cancel => exact .inr rfl

theorem results_some {rs : List ρ} (h : s.results n = some rs) :
    rs.length = n ∧ ∀ (i : Nat) (r : ρ), rs[i]? = some r → s.task i = .ended r := by
  induction n generalizing rs with
  | zero =>
    cases h
    exact ⟨rfl, fun i r hr => by cases hr⟩
  | succ n ih =>
    simp only [State.results] at h
    split at h
    · rename_i rs' r' hrs hr'
      obtain ⟨hlen, hall⟩ := ih hrs
      cases h
      refine ⟨by rw [List.length_append, hlen]; rfl, fun i r hr => ?_⟩
      rw [List.getElem?_append] at hr
      split at hr
      · exact hall i r hr
      · rename_i hge
        rw [List.getElem?_singleton] at hr
        split at hr
        · rename_i hzero
          have hi : i = n := by omega
          cases hr
          rw [hi]
          exact hr'
        · cases hr
    · cases h

section Progress

variable {β : Type} {f : β → Act ρ}

variable (hacquire : ∀ i, ∃ b, f b = .acquire i) (hfinish : ∀ i, ∃ b r, f b = .finish i r)
  (hc : 0 < c)

end Progress

/-! ## Runs -/

section Run

variable (n c skipped) (cancelled : Bool)

/-- The state after the steps, from a context that may be cancelled already. -/
def run (acts : List (Act ρ)) : State ρ := Runs.Run (step n c skipped) (.start cancelled) acts

end Run

variable {cancelled : Bool} {acts : List (Act ρ)} {i : Nat}

theorem run_snoc : run n c skipped cancelled (acts ++ [a])
    = step n c skipped (run n c skipped cancelled acts) a := Runs.run_snoc ..

theorem metered_run : Metered n c (run n c skipped cancelled acts) := by
  induction acts using List.reverseRecOn with
  | nil => exact metered_start cancelled
  | append_singleton acts a ih =>
    rw [run_snoc]
    exact ih.step

end FanOut
