import Mathlib.Tactic.Common
import Forager.Locks

/-!
# The locks of the SSH proxy

`pkg/proxy/ssh/proxy.go`: one `Proxy` has the read-write lock `p.mu` over its
configuration and the mutex `p.poolMu` over its connection pool. Each operation
is the sequence of its acquisitions and releases, cut into the critical
sections the functions are made of. `getPooledClient` takes `p.mu` while it
holds `p.poolMu` when it has to dial; `Close` and `Configure` hold `p.mu` while
they take `p.poolMu`.
-/

namespace Forager

open Locks

inductive SshLock
  | mu
  | poolMu
deriving DecidableEq, Repr

/-! ## Operations -/

/-- The critical sections of the proxy's methods. -/
inductive Section
  /-- `p.mu.RLock(); ...; p.mu.RUnlock()`. -/
  | read
  /-- `p.poolMu.Lock(); ...; p.poolMu.Unlock()`: a pool hit in
  `getPooledClient`, `cleanupExpiredConnections`, `CollectMetadata`. -/
  | pool
  /-- `getPooledClient` when it dials: it reads `p.sshConfig` under `p.poolMu`. -/
  | dial
  /-- `closeAllLocked` under `p.mu.Lock()`. -/
  | close
deriving DecidableEq, Repr

open Act SshLock in
def Section.acts : Section → List (Act SshLock)
  | .read => [rlock mu, runlock mu]
  | .pool => [acquire poolMu, unlock poolMu]
  | .dial => [acquire poolMu, rlock mu, runlock mu, unlock poolMu]
  | .close => [announce mu, acquire mu, acquire poolMu, unlock poolMu, unlock mu]

/-- How `getClient` ends in dynamic mode: the request is refused before the
pool is looked at, a pooled client is alive, or it dials. -/
inductive ClientPath
  | refused
  | pooled
  | dialed
  | dialFailed
deriving DecidableEq, Repr

def getClient : ClientPath → List Section
  | .refused => [.read]
  | .pooled => [.read, .pool]
  | .dialed => [.read, .dial]
  | .dialFailed => [.read, .dial]

def getSFTP (c : ClientPath) : List Section := .read :: getClient c

inductive SshOp
  | exec (c : ClientPath)
  | upload (c : ClientPath)
  | download (c : ClientPath)
  | listDir (c : ClientPath)
  | close
  | configure
  | collectMetadata
  | healthCheck
  | cleanupLoop (ticks : Nat)
deriving DecidableEq, Repr

/-- The critical sections of an operation in dynamic mode, in order. -/
def SshOp.sections : SshOp → List Section
  | .exec c => getClient c ++ match c with
    | .pooled | .dialed => [.read]
    | .refused | .dialFailed => []
  | .upload c => getSFTP c
  | .download c => .read :: getSFTP c
  | .listDir c => getSFTP c
  | .close => [.close]
  | .configure => [.close]
  | .collectMetadata => [.read, .pool]
  | .healthCheck => [.read, .read]
  | .cleanupLoop ticks => .read :: List.replicate ticks .pool

def actsOf (secs : List Section) : List (Act SshLock) := secs.flatMap Section.acts

def sshInit {ι : Type} (ops : ι → SshOp) : State ι SshLock :=
  State.init fun i => actsOf (ops i).sections

/-! ## The condition -/

variable {ι : Type}

/-- The thread holds `p.poolMu` and is about to read `p.mu`: it is in
`getPooledClient`, between the pool lookup and the dial. -/
def Dialing (s : State ι SshLock) (i : ι) : Prop :=
  s.mode i .poolMu = .write ∧ ∃ rest, s.todo i = .rlock .mu :: rest

/-- The thread has called `p.mu.Lock()` and is still to take `p.poolMu`: it is
in `Close` or `Configure`, at or before `closeAllLocked`'s `p.poolMu.Lock()`. -/
def Closing (s : State ι SshLock) (i : ι) : Prop :=
  (s.mode i .mu = .pending ∧ ∃ rest, s.todo i = .acquire .mu :: .acquire .poolMu :: rest) ∨
  (s.mode i .mu = .write ∧ ∃ rest, s.todo i = .acquire .poolMu :: rest)

/-- The condition on a step of thread `i`: a request that will dial takes
`p.poolMu` only while nobody is closing, and `Close` or `Configure` calls
`p.mu.Lock()` only while nobody is dialing. -/
def Orderly (s : State ι SshLock) (i : ι) : Prop :=
  (∀ rest, s.todo i = .acquire .poolMu :: .rlock .mu :: rest → ∀ j, ¬ Closing s j) ∧
  (∀ rest, s.todo i = .announce .mu :: rest → ∀ j, ¬ Dialing s j)

def OrderlyStep [DecidableEq ι] (s : State ι SshLock) (i : ι) (s' : State ι SshLock) : Prop :=
  Step s i s' ∧ Orderly s i

/-! ## Local states -/

namespace SshLocksLemmas

def modes (m pm : Mode) : SshLock → Mode
  | .mu => m
  | .poolMu => pm

theorem update_mu (m pm x : Mode) : Function.update (modes m pm) .mu x = modes x pm := by
  funext l
  cases l <;> rfl

theorem update_poolMu (m pm x : Mode) : Function.update (modes m pm) .poolMu x = modes m x := by
  funext l
  cases l <;> rfl

open Act SshLock in
/-- The local states of a thread: how it stands to the locks at each point of
the section it is in, with the sections `secs` after it. -/
inductive Placed : (SshLock → Mode) → List (Act SshLock) → Prop
  | between (secs : List Section) : Placed (modes .free .free) (actsOf secs)
  | reading (secs : List Section) : Placed (modes .read .free) (runlock mu :: actsOf secs)
  | inPool (secs : List Section) : Placed (modes .free .write) (unlock poolMu :: actsOf secs)
  | dialing (secs : List Section) :
    Placed (modes .free .write) (rlock mu :: runlock mu :: unlock poolMu :: actsOf secs)
  | dialReading (secs : List Section) :
    Placed (modes .read .write) (runlock mu :: unlock poolMu :: actsOf secs)
  | announced (secs : List Section) :
    Placed (modes .pending .free)
      (acquire mu :: acquire poolMu :: unlock poolMu :: unlock mu :: actsOf secs)
  | locked (secs : List Section) :
    Placed (modes .write .free) (acquire poolMu :: unlock poolMu :: unlock mu :: actsOf secs)
  | closingPool (secs : List Section) :
    Placed (modes .write .write) (unlock poolMu :: unlock mu :: actsOf secs)
  | closed (secs : List Section) : Placed (modes .write .free) (unlock mu :: actsOf secs)

theorem placed_step {m : SshLock → Mode} {a : Act SshLock} {rest : List (Act SshLock)}
    (h : Placed m (a :: rest)) : Placed (Function.update m a.target a.result) rest := by
  generalize ht : a :: rest = todo at h
  cases h with
  | between secs =>
    rcases secs with _ | ⟨sec, secs⟩
    · cases ht
    · cases sec <;> obtain ⟨rfl, rfl⟩ := List.cons.inj ht <;>
        simp only [Act.target, Act.result, update_mu, update_poolMu]
      · exact .reading secs
      · exact .inPool secs
      · exact .dialing secs
      · exact .announced secs
  | reading secs => cases ht; simpa only [Act.target, Act.result, update_mu] using .between secs
  | inPool secs => cases ht; simpa only [Act.target, Act.result, update_poolMu] using .between secs
  | dialing secs => cases ht; simpa only [Act.target, Act.result, update_mu] using .dialReading secs
  | dialReading secs => cases ht; simpa only [Act.target, Act.result, update_mu] using .inPool secs
  | announced secs => cases ht; simpa only [Act.target, Act.result, update_mu] using .locked secs
  | locked secs =>
    cases ht
    simpa only [Act.target, Act.result, update_poolMu] using .closingPool secs
  | closingPool secs =>
    cases ht
    simpa only [Act.target, Act.result, update_poolMu] using .closed secs
  | closed secs => cases ht; simpa only [Act.target, Act.result, update_mu] using .between secs

/-- The invariant of an orderly run: every thread is in a local state, and no
dialing thread meets a closing one. -/
structure Calm (s : State ι SshLock) : Prop where
  placed : ∀ i, Placed (s.mode i) (s.todo i)
  apart : ∀ d w, Dialing s d → ¬ Closing s w

theorem calm_init (ops : ι → SshOp) : Calm (sshInit ops) where
  placed i := by
    have hfree : modes .free .free = fun _ => .free := by
      funext l
      cases l <;> rfl
    have h := Placed.between (ops i).sections
    rw [hfree] at h
    exact h
  apart d w hd := by simp [Dialing, sshInit, State.init] at hd

variable {s s' : State ι SshLock} {i : ι}

theorem not_dialing_closing (hd : Dialing s i) (hc : Closing s i) : False := by
  obtain ⟨-, rest, hd⟩ := hd
  rcases hc with ⟨-, rest', hc⟩ | ⟨-, rest', hc⟩ <;> rw [hd] at hc <;> cases hc

section Steps

variable [DecidableEq ι]

theorem dialing_exec {a : Act SshLock} {rest : List (Act SshLock)}
    (hp : Placed (s.mode i) (s.todo i)) (ht : s.todo i = a :: rest)
    (hd : Dialing (exec s i) i) : ∃ rest', s.todo i = .acquire .poolMu :: .rlock .mu :: rest' := by
  obtain ⟨hm, rest', hr⟩ := hd
  rw [exec_todo_self ht] at hr
  rw [exec_mode_self ht] at hm
  subst hr
  rw [ht] at hp ⊢
  generalize s.mode i = m at hp hm
  generalize htodo : a :: Act.rlock .mu :: rest' = todo at hp ⊢
  cases hp with
  | between secs =>
    rcases secs with _ | ⟨sec, secs⟩
    · cases htodo
    · cases sec with
      | dial => exact ⟨_, rfl⟩
      | _ => cases htodo
  | dialing | dialReading | announced | locked | closingPool => cases htodo
  | reading | inPool | closed =>
    -- the step leaves `p.poolMu` free
    obtain ⟨rfl, -⟩ := List.cons.inj htodo
    cases hm

theorem closing_exec {a : Act SshLock} {rest : List (Act SshLock)}
    (hp : Placed (s.mode i) (s.todo i)) (ht : s.todo i = a :: rest)
    (hc : Closing (exec s i) i) : Closing s i ∨ ∃ rest', s.todo i = .announce .mu :: rest' := by
  unfold Closing at hc
  rw [exec_todo_self ht, exec_mode_self ht] at hc
  unfold Closing
  rw [ht] at hp ⊢
  generalize s.mode i = m at hp hc ⊢
  generalize htodo : a :: rest = todo at hp ⊢
  cases hp with
  | between secs =>
    rcases secs with _ | ⟨sec, secs⟩
    · cases htodo
    · cases sec with
      | close => exact .inr ⟨_, rfl⟩
      | _ =>
        obtain ⟨rfl, rfl⟩ := List.cons.inj htodo
        rcases hc with ⟨hc, -⟩ | ⟨hc, -⟩ <;> cases hc
  | announced secs => exact .inl (.inl ⟨rfl, _, rfl⟩)
  | locked secs => exact .inl (.inr ⟨rfl, _, rfl⟩)
  | closingPool =>
    obtain ⟨rfl, rfl⟩ := List.cons.inj htodo
    rcases hc with ⟨hc, -⟩ | ⟨-, _, hr⟩
    · cases hc
    · cases hr
  | _ =>
    obtain ⟨rfl, rfl⟩ := List.cons.inj htodo
    rcases hc with ⟨hc, -⟩ | ⟨hc, -⟩ <;> cases hc

theorem dialing_ne {d : ι} (h : d ≠ i) : Dialing (exec s i) d ↔ Dialing s d := by
  simp only [Dialing, exec_todo_ne h, exec_mode_ne h]

theorem closing_ne {w : ι} (h : w ≠ i) : Closing (exec s i) w ↔ Closing s w := by
  simp only [Closing, exec_todo_ne h, exec_mode_ne h]

theorem calm_step (h : Calm s) (hs : OrderlyStep s i s') : Calm s' := by
  obtain ⟨⟨hen, rfl⟩, hdial, hclose⟩ := hs
  obtain ⟨a, rest, ht⟩ := hen.exists_cons
  refine ⟨fun j => ?_, fun d w hd hw => ?_⟩
  · by_cases hj : j = i
    · subst hj
      rw [exec_todo_self ht, exec_mode_self ht]
      exact placed_step (ht ▸ h.placed j)
    · rw [exec_todo_ne hj, exec_mode_ne hj]
      exact h.placed j
  · by_cases hdi : d = i
    · subst hdi
      have hne : w ≠ d := by
        rintro rfl
        exact not_dialing_closing hd hw
      obtain ⟨rest', hacq⟩ := dialing_exec (h.placed d) ht hd
      exact hdial rest' hacq w ((closing_ne hne).mp hw)
    · rw [dialing_ne hdi] at hd
      by_cases hwi : w = i
      · subst hwi
        rcases closing_exec (h.placed w) ht hw with hw | ⟨rest', hann⟩
        · exact h.apart d w hd hw
        · exact hclose rest' hann d hd
      · exact h.apart d w hd ((closing_ne hwi).mp hw)

end Steps

/-! ## Lock order -/

/-- `p.mu` before `p.poolMu`, the order of `Close` and `Configure`. -/
def muFirst : SshLock → Nat
  | .mu => 0
  | .poolMu => 1

/-- `p.poolMu` before `p.mu`, the order of a dial. -/
def poolMuFirst : SshLock → Nat
  | .mu => 1
  | .poolMu => 0

theorem free_ranked {rank : SshLock → Nat} {a : Act SshLock} (l : SshLock) :
    (modes .free .free l = .read ∨ modes .free .free l = .write →
      ∀ m, a.BlockedBy m → rank l < rank a.target) ∧
    (modes .free .free l = .pending → a = .acquire l) := by
  cases l <;> simp [modes]

theorem ranked_muFirst (hp : ∀ i, Placed (s.mode i) (s.todo i)) (hd : ∀ i, ¬ Dialing s i) :
    Ranked muFirst s := by
  intro i a rest l ht
  have hp := hp i
  have hd := hd i
  unfold Dialing at hd
  rw [ht] at hp hd
  generalize s.mode i = m at hp hd ⊢
  generalize htodo : a :: rest = todo at hp hd
  cases hp with
  | between secs => exact free_ranked l
  | dialing secs => exact absurd ⟨rfl, _, rfl⟩ hd
  | _ =>
    obtain ⟨rfl, rfl⟩ := List.cons.inj htodo
    cases l <;> simp [modes, Act.BlockedBy, Act.target, muFirst]

theorem ranked_poolMuFirst (hp : ∀ i, Placed (s.mode i) (s.todo i)) (hw : ∀ i, ¬ Closing s i) :
    Ranked poolMuFirst s := by
  intro i a rest l ht
  have hp := hp i
  have hw := hw i
  unfold Closing at hw
  rw [ht] at hp hw
  generalize s.mode i = m at hp hw ⊢
  generalize htodo : a :: rest = todo at hp hw
  cases hp with
  | between secs => exact free_ranked l
  | locked secs => exact absurd (.inr ⟨rfl, _, rfl⟩) hw
  | _ =>
    obtain ⟨rfl, rfl⟩ := List.cons.inj htodo
    cases l <;> simp [modes, Act.BlockedBy, Act.target, poolMuFirst]

end SshLocksLemmas

/-! ## Deadlock freedom -/

open SshLocksLemmas in
/-- Any number of threads, any operations: in every state reached by orderly
steps no set of threads is deadlocked. At most one of the two lock orders is
in use at a time. -/
theorem ssh_no_deadlock [DecidableEq ι] (ops : ι → SshOp) {s : State ι SshLock}
    (h : Runs.Reach OrderlyStep (sshInit ops) s) (S : Set ι) : ¬ Deadlocked s S := by
  have hcalm : Calm s := Runs.reach_invariant Calm (calm_init ops)
    (fun _ _ _ hc hs => calm_step hc hs) h
  by_cases hd : ∃ d, Dialing s d
  · obtain ⟨d, hd⟩ := hd
    have hr := ranked_poolMuFirst hcalm.placed fun w => hcalm.apart d w hd
    exact not_deadlocked_of_rank 2 (fun l => by cases l <;> decide) hr S
  · have hr := ranked_muFirst hcalm.placed fun d hdd => hd ⟨d, hdd⟩
    exact not_deadlocked_of_rank 2 (fun l => by cases l <;> decide) hr S

/-- A request that dials, and a removal of the datasource. -/
def dialAndClose : Bool → SshOp
  | false => .exec .dialed
  | true => .close

/-- The condition at a run in which `Close` announces itself while the request
reads `p.mu` inside `getPooledClient`. -/
theorem ssh_no_deadlock_dial_then_close :
    let s := [false, false, false, false, true].foldl exec (sshInit dialAndClose)
    Runs.Reach OrderlyStep (sshInit dialAndClose) s ∧ ∀ S, ¬ Deadlocked s S := by
  intro s
  have hreach : Runs.Reach OrderlyStep (sshInit dialAndClose) s := by
    refine .step (i := true) (.step (i := false) (.step (i := false) (.step (i := false)
      (.step (i := false) .init ⟨⟨by decide, rfl⟩, ?_⟩) ⟨⟨by decide, rfl⟩, ?_⟩)
      ⟨⟨by decide, rfl⟩, ?_⟩) ⟨⟨by decide, rfl⟩, ?_⟩) ⟨⟨by decide, rfl⟩, ?_⟩
    · exact ⟨nofun, nofun⟩
    · exact ⟨nofun, nofun⟩
    · refine ⟨fun _ _ j => ?_, nofun⟩
      rintro (⟨h, -⟩ | ⟨h, -⟩) <;> cases j <;> exact absurd h (by decide)
    · exact ⟨nofun, nofun⟩
    · refine ⟨nofun, fun _ _ j => ?_⟩
      rintro ⟨h, _, ht⟩
      cases j
      · cases ht
      · exact absurd h (by decide)
  exact ⟨hreach, fun S => ssh_no_deadlock dialAndClose hreach S⟩

/-- The request looks up the pool under `p.poolMu`, `Close` takes `p.mu`, and
each waits for the lock the other holds. -/
theorem ssh_close_deadlocks_dial :
    let s := [false, false, false, true, true].foldl exec (sshInit dialAndClose)
    Runs.Reach Step (sshInit dialAndClose) s ∧
    s.mode false .poolMu = .write ∧ s.mode true .mu = .write ∧ Deadlocked s Set.univ := by
  refine ⟨?_, rfl, rfl, ⟨false, trivial⟩, fun i _ => ⟨!i, trivial, by simp, ?_⟩⟩
  · exact .step (i := true) (.step (i := true) (.step (i := false) (.step (i := false)
      (.step (i := false) .init ⟨by decide, rfl⟩) ⟨by decide, rfl⟩) ⟨by decide, rfl⟩)
      ⟨by decide, rfl⟩) ⟨by decide, rfl⟩
  · cases i
    · exact ⟨_, _, rfl, .inr rfl⟩
    · exact ⟨_, _, rfl, .inr rfl⟩

end Forager
