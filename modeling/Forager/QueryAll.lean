import Forager.FanOut
import Forager.ServiceMap

/-!
# The queries of the service map

`queryAll` of `pkg/proxy/http/vmservicemap.go` starts its queries in order, at most eight at
once. A query that fails cancels the context of all, and the queries still under way may then
fail because of that. When all have ended the error of the first query in the list that has
one is returned, which need not be the first error in time.
-/

namespace Forager

open ServiceMap

namespace QueryAll

/-! ## The goroutines -/

inductive QueryError
  /-- The query failed on its own. -/
  | own (text : String)
  /-- The query failed because the context was cancelled. -/
  | induced (text : String)
deriving DecidableEq, Repr

/-- What `q` returns. -/
abbrev Answer := Except QueryError (List Sample)

def errorOf : Answer → Option QueryError
  | .error e => some e
  | .ok _ => none

def samplesOf : Answer → List Sample
  | .error _ => []
  | .ok samples => samples

def isInduced : Answer → Bool
  | .error (.induced _) => true
  | .error (.own _) | .ok _ => false

def serviceMapConcurrency : Nat := 8

/-- A run of `queryAll`. A task runs from the moment the loop has sent to the semaphore for
it, and has ended when it has received from it. -/
structure State where
  tasks : FanOut.State Answer
  /-- The query the loop is at. -/
  next : Nat
  /-- `results` and `errs`, where they are written. -/
  answers : Nat → Option Answer
  /-- The queries whose error has been looked at. -/
  checked : Nat → Bool

inductive Act
  /-- The loop sends to the semaphore and starts the next query. -/
  | start
  /-- `q` returns. -/
  | answer (i : Nat) (r : Answer)
  /-- A query that has failed cancels the context. -/
  | check (i : Nat)
  /-- A query receives from the semaphore. -/
  | release (i : Nat)

def State.init : State := ⟨.start false, 0, fun _ => none, fun _ => false⟩

/-- `q` may return `r` to the query: a cancelled context is needed for an induced error. -/
def State.MayAnswer (n : Nat) (st : State) (i : Nat) (r : Answer) : Prop :=
  i < n ∧ (st.tasks.task i).isRunning ∧ (st.answers i).isNone ∧
    (isInduced r → st.tasks.cancelled)

instance (n : Nat) (st : State) (i : Nat) (r : Answer) : Decidable (st.MayAnswer n i r) :=
  inferInstanceAs (Decidable (_ ∧ _ ∧ _ ∧ (_ → _)))

/-- A step of the tasks. None of them gives up before it has started. -/
def taskStep (n : Nat) (s : FanOut.State Answer) (a : FanOut.Act Answer) : FanOut.State Answer :=
  FanOut.step n serviceMapConcurrency (fun _ => .ok []) s a

def step (n : Nat) (st : State) : Act → State
  | .start =>
    let tasks := taskStep n st.tasks (.acquire st.next)
    if (tasks.task st.next).isRunning then { st with tasks := tasks, next := st.next + 1 } else st
  | .answer i r =>
    if st.MayAnswer n i r then { st with answers := Function.update st.answers i (some r) }
    else st
  | .check i =>
    match st.answers i with
    | some (.error _) =>
      { st with tasks := taskStep n st.tasks .cancel, checked := Function.update st.checked i true }
    | some (.ok _) => { st with checked := Function.update st.checked i true }
    | none => st
  | .release i =>
    match st.answers i with
    | some r => if st.checked i then { st with tasks := taskStep n st.tasks (.finish i r) } else st
    | none => st

def run (n : Nat) (acts : List Act) : State := Runs.Run (step n) .init acts

def returns (answers : List Answer) : Except QueryError (List (List Sample)) :=
  match answers.findSome? errorOf with
  | some e => .error e
  | none => .ok (answers.map samplesOf)

/-- What `queryAll` returns, once `wg.Wait` has returned. -/
def State.result (n : Nat) (st : State) : Option (Except QueryError (List (List Sample))) :=
  (st.tasks.results n).map returns

/-- In the run the query is answered with `r`. -/
def Answered (n : Nat) (acts : List Act) (i : Nat) (r : Answer) : Prop :=
  ∃ pre, pre ++ [.answer i r] <+: acts ∧ (run n pre).MayAnswer n i r

/-- If a query fails then `res` is the error of a query that failed on its own. -/
def FirstErrorWins (n : Nat) (acts : List Act) (res : Except QueryError (List (List Sample))) :
    Prop :=
  ∀ i e, Answered n acts i (.error e) →
    ∃ j text, Answered n acts j (.error (.own text)) ∧ res = .error (.own text)

end QueryAll

open QueryAll

/-! ## What a step does -/

namespace QueryAllLemmas

variable {n : Nat} {st : State} {a : Act} {i : Nat} {r : Answer} {acts : List Act}
variable {e : QueryError} {rs : List Answer}

theorem answers_step :
    (step n st a).answers i = some r ↔
      st.answers i = some r ∨ (a = .answer i r ∧ st.MayAnswer n i r) := by
  have hold {a : Act} (ha : a ≠ .answer i r) (h : (step n st a).answers i = st.answers i) :
      (step n st a).answers i = some r ↔
        st.answers i = some r ∨ (a = .answer i r ∧ st.MayAnswer n i r) := by
    rw [h]
    exact ⟨.inl, fun h' => h'.resolve_right fun hact => ha hact.1⟩
  cases a with
  | start =>
    refine hold nofun ?_
    simp only [step]
    split <;> rfl
  | check j =>
    refine hold nofun ?_
    simp only [step]
    split <;> rfl
  | release j =>
    refine hold nofun ?_
    simp only [step]
    split
    · split <;> rfl
    · rfl
  | answer j r' =>
    simp only [step, Act.answer.injEq]
    split
    next h =>
      dsimp only
      rcases eq_or_ne i j with rfl | hne
      · -- a query is answered once
        rw [Function.update_self, Option.isNone_iff_eq_none.mp h.2.2.1, Option.some.injEq]
        exact ⟨fun hr => .inr ⟨⟨rfl, hr⟩, hr ▸ h⟩, fun h' => (h'.resolve_left nofun).1.2⟩
      · rw [Function.update_of_ne hne]
        exact ⟨.inl, fun h' => h'.resolve_right fun hact => hne hact.1.1.symm⟩
    next h =>
      refine ⟨.inl, fun h' => h'.resolve_right ?_⟩
      rintro ⟨⟨rfl, rfl⟩, hmay⟩
      exact h hmay

/-- A step of the tasks that the stored answers allow: a task ends with its answer, and the
context is cancelled after an error. -/
def Allowed (st : State) : FanOut.Act Answer → Prop
  | .acquire _ => True
  | .finish j r => st.answers j = some r
  | .giveUp _ => False
  | .cancel => ∃ j e, st.answers j = some (.error e)

theorem tasks_step (n : Nat) (st : State) (a : Act) : (step n st a).tasks = st.tasks ∨
    ∃ b, Allowed st b ∧ (step n st a).tasks = taskStep n st.tasks b := by
  cases a with
  | start =>
    simp only [step]
    split
    · exact .inr ⟨.acquire st.next, trivial, rfl⟩
    · exact .inl rfl
  | answer j r' =>
    simp only [step]
    split <;> exact .inl rfl
  | check j =>
    simp only [step]
    split
    next e he => exact .inr ⟨.cancel, ⟨j, e, he⟩, rfl⟩
    next => exact .inl rfl
    next => exact .inl rfl
  | release j =>
    simp only [step]
    split
    next r' hr' =>
      split
      · exact .inr ⟨.finish j r', hr', rfl⟩
      · exact .inl rfl
    next => exact .inl rfl

theorem ended_step (h : (step n st a).tasks.task i = .ended r) :
    st.tasks.task i = .ended r ∨ st.answers i = some r := by
  rcases tasks_step n st a with htasks | ⟨b, hb, htasks⟩
  · rw [htasks] at h
    exact .inl h
  · rw [htasks] at h
    rcases FanOut.ended_step h with hold | ⟨-, rfl | ⟨rfl, -⟩⟩
    · exact .inl hold
    · exact .inr hb
    · exact hb.elim

theorem cancelled_step (h : (step n st a).tasks.cancelled) :
    st.tasks.cancelled ∨ ∃ j e, st.answers j = some (.error e) := by
  rcases tasks_step n st a with htasks | ⟨b, hb, htasks⟩
  · rw [htasks] at h
    exact .inl h
  · rw [htasks] at h
    rcases FanOut.cancelled_step h with hold | rfl
    · exact .inl hold
    · exact .inr hb

theorem metered_step (h : FanOut.Metered n serviceMapConcurrency st.tasks) :
    FanOut.Metered n serviceMapConcurrency (step n st a).tasks := by
  rcases tasks_step n st a with htasks | ⟨b, -, htasks⟩
  · rw [htasks]
    exact h
  · rw [htasks]
    exact h.step

/-! ## Runs -/

theorem run_snoc : run n (acts ++ [a]) = step n (run n acts) a := Runs.run_snoc ..

theorem answers_iff : (run n acts).answers i = some r ↔ Answered n acts i r := by
  induction acts using List.reverseRecOn with
  | nil =>
    refine ⟨fun h => (by cases h), fun ⟨pre, h, _⟩ => ?_⟩
    cases List.append_ne_nil_of_right_ne_nil _ (List.cons_ne_nil _ _) (List.prefix_nil.mp h)
  | append_singleton acts a ih =>
    rw [run_snoc, answers_step, ih]
    unfold Answered
    simp only [Runs.snoc_prefix_snoc, or_and_right, exists_or]
    rw [or_comm]
    refine or_congr_left ⟨fun ⟨ha, h⟩ => ⟨acts, ⟨rfl, ha.symm⟩, h⟩, ?_⟩
    rintro ⟨_, ⟨rfl, ha⟩, h⟩
    exact ⟨ha.symm, h⟩

theorem metered_run (n : Nat) (acts : List Act) :
    FanOut.Metered n serviceMapConcurrency (run n acts).tasks := by
  induction acts using List.reverseRecOn with
  | nil => exact FanOut.metered_start false
  | append_singleton acts a ih =>
    rw [run_snoc]
    exact metered_step ih

/-- The channel counts the queries that are under way, at most eight at once. -/
theorem active_le (n : Nat) (acts : List Act) :
    (run n acts).tasks.sem = ((run n acts).tasks.active n).card ∧
      ((run n acts).tasks.active n).card ≤ serviceMapConcurrency :=
  ⟨(metered_run n acts).sem_eq, (metered_run n acts).card_le⟩

theorem answered_snoc (h : Answered n acts i r) (a : Act) : Answered n (acts ++ [a]) i r := by
  obtain ⟨pre, hpre, hmay⟩ := h
  exact ⟨pre, hpre.trans (List.prefix_append _ _), hmay⟩

/-- A query that failed because of the cancellation has a cause: the context is cancelled
only after a query has failed on its own. -/
theorem cause_exists (h : (run n acts).tasks.cancelled ∨
      ∃ i text, Answered n acts i (.error (.induced text))) :
    ∃ j text, Answered n acts j (.error (.own text)) := by
  induction acts using List.reverseRecOn with
  | nil =>
    rcases h with h | ⟨i, text, h⟩
    · cases h
    · cases answers_iff.mpr h
  | append_singleton acts a ih =>
    have hbefore : ∃ j text, Answered n acts j (.error (.own text)) := by
      rcases h with h | ⟨i, text, h⟩
      · rw [run_snoc] at h
        rcases cancelled_step h with hold | ⟨j, e, he⟩
        · exact ih (.inl hold)
        · cases e with
          | own text => exact ⟨j, text, answers_iff.mp he⟩
          | induced text => exact ih (.inr ⟨j, text, answers_iff.mp he⟩)
      · rw [← answers_iff, run_snoc, answers_step] at h
        rcases h with hold | ⟨-, hmay⟩
        · exact ih (.inr ⟨i, text, answers_iff.mp hold⟩)
        · exact ih (.inl (hmay.2.2.2 rfl))
    obtain ⟨j, text, hj⟩ := hbefore
    exact ⟨j, text, answered_snoc hj a⟩

theorem answers_of_ended (h : (run n acts).tasks.task i = .ended r) :
    (run n acts).answers i = some r := by
  induction acts using List.reverseRecOn with
  | nil => cases h
  | append_singleton acts a ih =>
    rw [run_snoc] at h ⊢
    exact answers_step.mpr (.inl ((ended_step h).elim ih id))

/-- The answers of a run that has ended, in the order of the queries. -/
theorem results_iff (h : (run n acts).tasks.results n = some rs) :
    rs[i]? = some r ↔ Answered n acts i r := by
  obtain ⟨hlength, hended⟩ := FanOut.results_some h
  have hanswer {r : Answer} (hr : rs[i]? = some r) : (run n acts).answers i = some r :=
    answers_of_ended (hended i r hr)
  refine ⟨fun hr => answers_iff.mp (hanswer hr), fun hr => ?_⟩
  have hlt : i < rs.length := by
    obtain ⟨pre, -, hmay⟩ := hr
    exact hlength ▸ hmay.1
  have hget := List.getElem?_eq_getElem hlt
  rw [hget, ← answers_iff.mpr hr, hanswer hget]

theorem errorOf_eq_some (h : errorOf r = some e) : r = .error e := by
  cases r with
  | error e' => exact congrArg Except.error (Option.some.inj h)
  | ok => cases h

/-- The returned error is that of the first query in the list that failed. -/
theorem first_of_returns (h : returns rs = .error e) :
    ∃ j : Nat, rs[j]? = some (.error e) ∧ ∀ k < j, ∀ e', rs[k]? ≠ some (.error e') := by
  unfold returns at h
  split at h
  next e' hfirst =>
    cases h
    obtain ⟨before, r, after, rfl, hr, hnone⟩ := List.findSome?_eq_some_iff.mp hfirst
    refine ⟨before.length, ?_, fun k hk e' hk' => ?_⟩
    · rw [List.getElem?_append_right le_rfl, Nat.sub_self, errorOf_eq_some hr]
      rfl
    · rw [List.getElem?_append_left hk] at hk'
      cases hnone _ (List.mem_of_getElem? hk')
  next => cases h

theorem result_of_error (h : (st.tasks.results n).bind (·.findSome? errorOf) = some e) :
    st.result n = some (.error e) := by
  obtain ⟨rs, hrs, hfirst⟩ := Option.bind_eq_some_iff.mp h
  rw [State.result, hrs, Option.map_some, returns, hfirst]

theorem returns_of_error {i : Nat} (h : rs[i]? = some (.error e)) :
    ∃ e', returns rs = .error e' := by
  unfold returns
  split
  next e' _ => exact ⟨e', rfl⟩
  next hnone => cases List.findSome?_eq_none_iff.mp hnone _ (List.mem_of_getElem? h)

end QueryAllLemmas

/-! ## The returned error -/

open QueryAllLemmas in
/-- For a run that has ended: if a query failed, the returned error is that of a query that
failed on its own, iff each query that failed because of the cancellation has one before it
in the list that failed on its own. -/
theorem first_error_wins_iff (n : Nat) (acts : List Act)
    (res : Except QueryError (List (List Sample))) (h : (run n acts).result n = some res) :
    FirstErrorWins n acts res ↔
      ∀ i text, Answered n acts i (.error (.induced text)) →
        ∃ j < i, ∃ text', Answered n acts j (.error (.own text')) := by
  obtain ⟨rs, hrs, rfl⟩ := Option.map_eq_some_iff.mp h
  have hanswered {i : Nat} {r : Answer} : Answered n acts i r ↔ rs[i]? = some r :=
    (results_iff hrs).symm
  unfold FirstErrorWins
  simp only [hanswered]
  constructor
  · intro hwins i text hi
    obtain ⟨j, text', hj, hres⟩ := hwins i _ hi
    obtain ⟨m, hm, hleast⟩ := first_of_returns hres
    refine ⟨m, not_le.mp fun hle => ?_, text', hm⟩
    rcases hle.eq_or_lt with rfl | hlt
    · rw [hi] at hm
      cases hm
    · exact hleast i hlt _ hi
  · intro hbefore i e hi
    obtain ⟨e', hres⟩ := returns_of_error hi
    obtain ⟨m, hm, hleast⟩ := first_of_returns hres
    cases e' with
    | own text => exact ⟨m, text, hm, hres⟩
    | induced text =>
      obtain ⟨j, hlt, text', hj⟩ := hbefore m text hm
      exact absurd hj (hleast j hlt _)

namespace QueryAll

def ends (i : Nat) (r : Answer) : List Act := [.answer i r, .check i, .release i]

/-- The steps of `n` queries. The first two are under way when `i`, one of them, fails on its
own; the other one and all later ones fail because of that. -/
def oneFails (n i : Nat) : List Act :=
  [.start, .start] ++ (ends i (.error (.own "store answered 422")) ++
    (ends (1 - i) (.error (.induced "context canceled")) ++
      (List.range' 2 (n - 2)).flatMap fun k =>
        .start :: ends k (.error (.induced "context canceled"))))

end QueryAll

open QueryAllLemmas in
theorem cause_exists_two : ∃ j text, Answered 2 (oneFails 2 0) j (.error (.own text)) :=
  cause_exists (.inr ⟨1, "context canceled", answers_iff.mp rfl⟩)

open QueryAllLemmas in
/-- The first of two queries fails on its own, and its error is returned. -/
theorem first_query_error_returned :
    (run 2 (oneFails 2 0)).result 2 = some (.error (.own "store answered 422")) ∧
      FirstErrorWins 2 (oneFails 2 0) (.error (.own "store answered 422")) := by
  have hresult : (run 2 (oneFails 2 0)).result 2 = some (.error (.own "store answered 422")) :=
    result_of_error (by decide)
  refine ⟨hresult, (first_error_wins_iff 2 _ _ hresult).mpr fun i text hi => ?_⟩
  have hfirst : Answered 2 (oneFails 2 0) 0 (.error (.own "store answered 422")) :=
    answers_iff.mp rfl
  refine ⟨0, Nat.pos_of_ne_zero ?_, _, hfirst⟩
  rintro rfl
  cases (answers_iff.mpr hi).symm.trans (answers_iff.mpr hfirst)

/-- The second query of `buildServiceMap` fails on its own, and the error of the first one is
returned, which failed because of that. -/
theorem induced_error_returned :
    (run (grpcErrIdx + 1) (oneFails (grpcErrIdx + 1) 1)).result (grpcErrIdx + 1)
        = some (.error (.induced "context canceled")) ∧
      Answered (grpcErrIdx + 1) (oneFails (grpcErrIdx + 1) 1) 1
        (.error (.own "store answered 422")) :=
  ⟨QueryAllLemmas.result_of_error (by decide +kernel),
    [.start, .start], ⟨_, rfl⟩, by decide +kernel⟩

end Forager
