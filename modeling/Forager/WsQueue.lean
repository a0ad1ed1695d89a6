import Forager.WsWriters

/-!
# The send queue across sessions

`Send` of `pkg/ws/client.go` does not block: it queues a message, or drops it if the
queue is full. The queue outlives the session, so that the next session writes what the last
one left. `writeLoop` takes a message out of the queue before it writes it, and returns when a
write fails.
-/

namespace Forager

/-- The client: its session and the number of its dials. The other fields are notes that no
step reads: the messages that `Send` queued, the one that `writeLoop` has taken and not yet
written, and those it has written, with whether the write succeeded. -/
structure RelayState (μ : Type) where
  session : SessionState μ
  dials : Nat
  queued : List μ
  taken : Option μ
  writes : List (μ × Bool)

inductive RelayAct (μ : Type)
  | act (a : SessionAct μ)
  /-- `connectAndServe` has returned, and the next call of it has dialed. -/
  | redial (cancelled : Bool)

/-- The writer has taken its event and not yet written. -/
def WriterPhase.holds : WriterPhase → Bool
  | .ready | .writing => true
  | .off | .waiting | .returned | .failed => false

section Model

variable {μ : Type}

namespace RelayState

def new : RelayState μ := ⟨.dialed [] false, 1, [], none, []⟩

/-- What is noted of a step of the session. -/
def note (s : RelayState μ) : SessionAct μ → RelayState μ
  | .send msg =>
    if s.session.queue.length < sendCapacity then { s with queued := s.queued ++ [msg] } else s
  | .take .writeLoop =>
    if s.session.phase .writeLoop = .waiting then { s with taken := s.session.queue.head? } else s
  | .endWrite .writeLoop ok =>
    if s.session.phase .writeLoop = .writing then
      { s with taken := none, writes := s.writes ++ s.taken.toList.map (·, ok) }
    else s
  | _ => s

end RelayState

def relayStep (s : RelayState μ) : RelayAct μ → RelayState μ
  | .act a => { s.note a with session := sessionStep s.session a }
  | .redial cancelled =>
    -- `wg.Wait` has returned
    if ∀ w, (s.session.phase w).running = false then
      { s with session := .dialed s.session.queue cancelled, dials := s.dials + 1 }
    else s

def relayRun (acts : List (RelayAct μ)) : RelayState μ := Runs.Run relayStep .new acts

end Model

namespace RelayLemmas

variable {μ : Type} {s : RelayState μ} {t : SessionState μ}

structure RelayOk (s : RelayState μ) : Prop where
  order : s.queued = s.writes.map (·.1) ++ s.taken.toList ++ s.session.queue
  taken : s.taken.isSome = (s.session.phase .writeLoop).holds
  /-- A failed write is the last one of its session. -/
  losses : s.writes.countP (!·.2) +
    (if s.session.phase .writeLoop = .failed then 0 else 1) ≤ s.dials
  room : s.session.queue.length ≤ sendCapacity

theorem RelayOk.frame (h : RelayOk s) (hqueue : t.queue = s.session.queue)
    (hholds : (t.phase .writeLoop).holds = (s.session.phase .writeLoop).holds)
    (hfailed : t.phase .writeLoop = .failed ↔ s.session.phase .writeLoop = .failed) :
    RelayOk { s with session := t } := by
  refine ⟨?_, h.taken.trans hholds.symm, ?_, ?_⟩
  · simpa only [hqueue] using h.order
  · simpa only [hfailed] using h.losses
  · simpa only [hqueue] using h.room

/-- A step of another writer. -/
theorem RelayOk.other {w : Writer} {p : WriterPhase} (h : RelayOk s) (hw : w ≠ .writeLoop)
    (hqueue : t.queue = s.session.queue) (hphase : t.phase = s.session.phase) :
    RelayOk { s with session := t.goto w p } := by
  have hsame : (t.goto w p).phase .writeLoop = s.session.phase .writeLoop := by
    rw [WriterLemmas.goto_phase_of_ne hw.symm, hphase]
  exact h.frame hqueue (by rw [hsame]) (by rw [hsame])

theorem RelayOk.move {p q : WriterPhase} (h : RelayOk s) (hp : s.session.phase .writeLoop = p)
    (hholds : q.holds = p.holds) (hfailed : q = .failed ↔ p = .failed) :
    RelayOk { s with session := s.session.goto .writeLoop q } := by
  have hself : (s.session.goto .writeLoop q).phase .writeLoop = q := by
    simp [SessionState.goto]
  exact h.frame rfl (by rw [hself, hp, hholds]) (by rw [hself, hp, hfailed])

theorem relayOk_send (h : RelayOk s) (msg : μ) : RelayOk (relayStep s (.act (.send msg))) := by
  simp only [relayStep, RelayState.note, sessionStep]
  split
  · next hroom =>
    refine ⟨?_, h.taken, h.losses, ?_⟩
    · rw [h.order, List.append_assoc _ s.session.queue]
    · rw [List.length_append, List.length_singleton]
      exact hroom
  · exact h

theorem relayOk_take (h : RelayOk s) : RelayOk (relayStep s (.act (.take .writeLoop))) := by
  simp only [relayStep, RelayState.note, sessionStep]
  by_cases hwait : s.session.phase .writeLoop = .waiting
  · have hnone : s.taken = none := by
      rw [← Option.not_isSome_iff_eq_none, h.taken, hwait]
      exact Bool.false_ne_true
    have horder := h.order
    have hlosses := h.losses
    have hroom := h.room
    rw [if_pos hwait]
    cases hqueue : s.session.queue with
    | nil =>
      rw [if_neg (by simp [SessionState.due, hqueue]), List.head?_nil, ← hnone]
      exact h
    | cons msg rest =>
      rw [if_pos ⟨hwait, by simp [SessionState.due, hqueue]⟩]
      refine ⟨?_, rfl, ?_, ?_⟩
      · rw [horder, hnone, hqueue]
        simp [SessionState.consume, SessionState.goto, hqueue]
      · rw [hwait] at hlosses
        exact hlosses
      · rw [hqueue, List.length_cons] at hroom
        simp only [SessionState.consume, SessionState.goto, hqueue, List.tail_cons]
        omega
  · rw [if_neg hwait, if_neg fun hg => hwait hg.1]
    exact h

theorem relayOk_endWrite (h : RelayOk s) (ok : Bool) :
    RelayOk (relayStep s (.act (.endWrite .writeLoop ok))) := by
  simp only [relayStep, RelayState.note, sessionStep]
  split
  · next hwrite =>
    have htaken := h.taken
    have horder := h.order
    have hlosses := h.losses
    rw [hwrite] at htaken hlosses
    obtain ⟨msg, hmsg⟩ := Option.isSome_iff_exists.mp htaken
    rw [hmsg] at horder
    refine ⟨?_, ?_, ?_, h.room⟩
    · rw [horder, hmsg]
      simp [SessionState.goto]
    · cases ok <;> rfl
    · rw [hmsg]
      cases ok <;> simp [List.countP_append, SessionState.goto, afterWrite] at hlosses ⊢ <;> omega
  · exact h

theorem holds_eq_false {p : WriterPhase} (h : p.running = false) : p.holds = false := by
  cases p <;> first | rfl | exact absurd h (by decide)

theorem relayOk_redial (h : RelayOk s) (cancelled : Bool) :
    RelayOk (relayStep s (.redial cancelled)) := by
  simp only [relayStep]
  split
  · next hdone =>
    refine ⟨h.order, h.taken.trans (holds_eq_false (hdone .writeLoop)), ?_, h.room⟩
    refine le_trans (Nat.add_le_add_left ?_ _) (Nat.add_le_add_right
      ((Nat.le_add_right ..).trans h.losses) 1)
    split <;> omega
  · exact h

theorem relayOk_step (h : RelayOk s) (a : RelayAct μ) : RelayOk (relayStep s a) := by
  cases a with
  | redial cancelled => exact relayOk_redial h cancelled
  | act a =>
    cases a with
    | send msg => exact relayOk_send h msg
    | cancel => exact h.frame rfl rfl .rfl
    | tick =>
      simp only [relayStep, RelayState.note, sessionStep]
      split
      · exact h.frame rfl rfl .rfl
      · exact h
    | start =>
      simp only [relayStep, RelayState.note, sessionStep]
      split
      · next hoff =>
        refine h.frame rfl (by rw [hoff.2]; rfl) ?_
        rw [hoff.2]
        constructor <;> rintro ⟨⟩
      · exact h
    | take w =>
      rcases eq_or_ne w .writeLoop with rfl | hw
      · exact relayOk_take h
      · have hnote : s.note (.take w) = s := by cases w <;> first | rfl | exact absurd rfl hw
        simp only [relayStep, hnote, sessionStep]
        split
        · exact h.other hw (by cases w <;> first | rfl | exact absurd rfl hw) (by cases w <;> rfl)
        · exact h
    | leave w =>
      simp only [relayStep, RelayState.note, sessionStep]
      split
      · next hg =>
        rcases eq_or_ne w .writeLoop with rfl | hw
        · exact h.move hg.1 rfl (by decide)
        · exact h.other hw rfl rfl
      · exact h
    | beginWrite w =>
      simp only [relayStep, RelayState.note, sessionStep]
      split
      · next hready =>
        rcases eq_or_ne w .writeLoop with rfl | hw
        · exact h.move hready rfl (by decide)
        · exact h.other hw rfl rfl
      · exact h
    | endWrite w ok =>
      rcases eq_or_ne w .writeLoop with rfl | hw
      · exact relayOk_endWrite h ok
      · have hnote : s.note (.endWrite w ok) = s := by
          cases w <;> first | rfl | exact absurd rfl hw
        simp only [relayStep, hnote, sessionStep]
        split
        · exact h.other hw rfl rfl
        · exact h

theorem relayOk_run (acts : List (RelayAct μ)) : RelayOk (relayRun acts) := by
  refine Runs.run_invariant (fun as => RelayOk (relayRun as)) (fun _ _ => True)
    ⟨rfl, rfl, Nat.le_refl 1, Nat.zero_le _⟩ (fun pre a _ hpre => ?_) fun _ _ _ => trivial
  rw [relayRun, Runs.run_snoc]
  exact relayOk_step hpre a

end RelayLemmas

open RelayLemmas in
/-- Over any number of sessions, the messages that `Send` queued are, in this order and each
once, those that were written, the one being written and those in the queue; no more writes
fail than there were dials, and at most 64 wait. -/
theorem relay_keeps_order {μ : Type} (acts : List (RelayAct μ)) :
    let s := relayRun acts
    s.queued = s.writes.map (·.1) ++ s.taken.toList ++ s.session.queue ∧
      s.writes.countP (!·.2) ≤ s.dials ∧ s.session.queue.length ≤ sendCapacity := by
  have h := relayOk_run acts
  exact ⟨h.order, (Nat.le_add_right ..).trans h.losses, h.room⟩

end Forager
