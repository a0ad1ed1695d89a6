import Forager.Dispatch
import Forager.Runs

/-!
# Requests over the pipes of an MCP process

`stdioProcess.send` of `pkg/proxy/mcp/stdio.go`: a request is one line on the
standard input of a child process, its response one line on the standard output.
Calls take turns with a mutex, but the line is written and read by a goroutine
that outlives a cancelled call, while the mutex is free for the next one.
Nothing on the pipe says which request a line answers; the model tags each line
with the call whose request line it answers.
-/

namespace Forager

open GoJson JsonText Go

/-! ## The request -/

def rpcRequest (method : String) (params : Option Any) : StrMap Any :=
  let envelope : StrMap Any :=
    [("id", .int 1), ("jsonrpc", .string "2.0"), ("method", .string method)]
  match params with
  | none | some .nil => envelope
  | some params => envelope ++ [("params", params)]

def buildRequestBody (req : ActionRequest) : Except String Text :=
  if req.body ≠ "" then .ok req.body.toList
  else match req.params with
    | none => .error "no request body or params provided"
    | some params =>
      match params.get "method" with
      | some (.string method) =>
        if method ≠ "" then .ok (print (ofAny (.map (rpcRequest method (params.get "params")))))
        else .ok (print (ofAny (.map params)))
      | _ => .ok (print (ofAny (.map params)))

/-- The lines of the request with the line break that `send` appends. -/
def requestLines (request : Text) : List Text := request.splitOn '\n'

/-! ## The process -/

/-- What `send` returns: a line, tagged with the call it answers, or an error. -/
inductive SendResult (ι : Type)
  | line (owner : ι) (data : Text)
  | cancelled
  | failed
deriving DecidableEq, Repr

inductive SendPhase (ι : Type)
  /-- Before `mu.Lock`. -/
  | waiting
  /-- At the `select`. -/
  | inside
  | returned (r : SendResult ι)
deriving DecidableEq, Repr

/-- The goroutine of a call. -/
inductive WorkerPhase (ι : Type)
  | off
  | writing
  | reading
  /-- The result is in the channel. -/
  | ended (r : SendResult ι)
deriving DecidableEq, Repr

/-- A process and the calls of `send` on it. -/
structure StdioState (ι : Type) where
  lock : Option ι
  send : ι → SendPhase ι
  worker : ι → WorkerPhase ι
  /-- Request lines that are not answered yet, with their call. -/
  stdin : List (ι × Text)
  /-- Response lines that are not read yet, with the call of the request line. -/
  stdout : List (ι × Text)
  writable : Bool
  readable : Bool

inductive StdioAct (ι : Type)
  /-- `mu.Lock` and the check of `ProcessState`. -/
  | lock (i : ι) (exited : Bool)
  /-- `stdin.Write`; a write that fails may have passed on some lines. -/
  | write (i : ι) (failed : Option Nat)
  /-- The process answers the next request line. -/
  | answer (data : Text)
  /-- `reader.ReadBytes`. -/
  | read (i : ι) (ok : Bool)
  /-- The call takes the result of its goroutine. -/
  | receive (i : ι)
  /-- The call takes `ctx.Done()`. -/
  | cancel (i : ι)

section Model

variable {ι : Type} [DecidableEq ι]

def StdioState.new : StdioState ι :=
  ⟨none, fun _ => .waiting, fun _ => .off, [], [], true, true⟩

def StdioState.work (s : StdioState ι) (i : ι) (p : WorkerPhase ι) : StdioState ι :=
  { s with worker := Function.update s.worker i p }

/-- The call `i` returns, which releases the mutex. -/
def StdioState.finish (s : StdioState ι) (i : ι) (r : SendResult ι) : StdioState ι :=
  { s with lock := none, send := Function.update s.send i (.returned r) }

/-- The write of a goroutine. A pipe that failed fails again. -/
def writeRequest (s : StdioState ι) (i : ι) (lines : List Text) (failed : Option Nat) :
    StdioState ι :=
  if s.writable then
    match failed with
    | none => { s with stdin := s.stdin ++ lines.map (i, ·) }.work i .reading
    | some n =>
      -- the last byte, the line break of the last line, was not written
      { s with stdin := s.stdin ++ (lines.dropLast.take n).map (i, ·), writable := false }.work i
        (.ended .failed)
  else s.work i (.ended .failed)

/-- The read of a goroutine, which blocks while there is no line. -/
def readResponse (s : StdioState ι) (i : ι) (ok : Bool) : StdioState ι :=
  if ok ∧ s.readable then
    match s.stdout with
    | (owner, data) :: rest => { s with stdout := rest }.work i (.ended (.line owner data))
    | [] => s
  else { s with readable := false }.work i (.ended .failed)

/-- One step. A step that is not the call's turn does nothing. -/
def stdioStep (req : ι → ActionRequest) (s : StdioState ι) : StdioAct ι → StdioState ι
  | .lock i exited => match buildRequestBody (req i), s.send i, s.lock with
    | .ok _, .waiting, none =>
      if exited then s.finish i .failed
      else { s with lock := some i, send := Function.update s.send i .inside }.work i .writing
    | _, _, _ => s
  | .write i failed => match buildRequestBody (req i), s.worker i with
    | .ok request, .writing => writeRequest s i (requestLines request) failed
    | _, _ => s
  | .answer data => match s.stdin with
    | (i, _) :: rest => { s with stdin := rest, stdout := s.stdout ++ [(i, data)] }
    | [] => s
  | .read i ok => match s.worker i with
    | .reading => readResponse s i ok
    | _ => s
  | .receive i => match s.send i, s.worker i with
    | .inside, .ended r => s.finish i r
    | _, _ => s
  | .cancel i => match s.send i with
    | .inside => s.finish i .cancelled
    | _ => s

/-- The state after some steps, where call `i` sends `req i`. -/
def stdioRun (req : ι → ActionRequest) (acts : List (StdioAct ι)) : StdioState ι :=
  Runs.Run (stdioStep req) .new acts

end Model

/-- The goroutine is between its start and its result. -/
def WorkerPhase.atWork {ι : Type} : WorkerPhase ι → Bool
  | .writing | .reading => true
  | .off | .ended _ => false

/-- A call starts only beside goroutines that are done, and its request body has
no line break. -/
def StartsAlone {ι : Type} (req : ι → ActionRequest) (s : StdioState ι) : StdioAct ι → Prop
  | .lock i _ => s.send i = .waiting → s.lock = none →
      '\n' ∉ (req i).body.toList ∧ ∀ j, (s.worker j).atWork = false
  | _ => True

namespace StdioLemmas

/-! ## Line breaks -/

theorem printStr_plain (s : StrLit) : '\n' ∉ printStr s := by
  unfold printStr
  rw [List.mem_append, List.mem_flatMap, List.mem_singleton]
  rintro (⟨item, -, h⟩ | h)
  · match item with
    | .plain c hc =>
      obtain rfl := List.mem_singleton.mp h
      revert hc
      decide
    | .esc e => cases e <;> revert h <;> decide
    | .unicode a b c d =>
      have hhex : ∀ x : Hex, x.char ≠ '\n' := fun x hx => by
        have := x.valid
        rw [hx] at this
        revert this
        decide
      simp only [StrItem.print, List.mem_cons, List.not_mem_nil, or_false] at h
      rcases h with h | h | h | h | h | h
      · revert h; decide
      · revert h; decide
      · exact hhex a h.symm
      · exact hhex b h.symm
      · exact hhex c h.symm
      · exact hhex d h.symm
  · revert h
    decide

theorem num_plain (n : NumLit) : '\n' ∉ n.text := fun h => by
  have := n.numChars _ h
  revert this
  decide

mutual
theorem print_plain : ∀ j : Json, '\n' ∉ print j
  | .null | .bool true | .bool false | .arr [] | .obj [] => by decide
  | .num n => num_plain n
  | .str s => List.not_mem_cons_of_ne_of_not_mem (by decide) (printStr_plain s)
  | .arr (x :: xs) => by
    rw [print]
    refine List.not_mem_cons_of_ne_of_not_mem (by decide) ?_
    exact List.not_mem_append (print_plain x) (printElements_plain xs)
  | .obj ((k, x) :: ms) => by
    rw [print]
    refine List.not_mem_cons_of_ne_of_not_mem (by decide)
      (List.not_mem_cons_of_ne_of_not_mem (by decide) (List.not_mem_append (printStr_plain k) ?_))
    refine List.not_mem_cons_of_ne_of_not_mem (by decide) ?_
    exact List.not_mem_append (print_plain x) (printMembers_plain ms)

theorem printElements_plain : ∀ xs : List Json, '\n' ∉ printElements xs
  | [] => by decide
  | x :: xs => by
    rw [printElements]
    refine List.not_mem_cons_of_ne_of_not_mem (by decide) ?_
    exact List.not_mem_append (print_plain x) (printElements_plain xs)

theorem printMembers_plain : ∀ ms : List (StrLit × Json), '\n' ∉ printMembers ms
  | [] => by decide
  | (k, x) :: ms => by
    rw [printMembers]
    refine List.not_mem_cons_of_ne_of_not_mem (by decide)
      (List.not_mem_cons_of_ne_of_not_mem (by decide) (List.not_mem_append (printStr_plain k) ?_))
    refine List.not_mem_cons_of_ne_of_not_mem (by decide) ?_
    exact List.not_mem_append (print_plain x) (printMembers_plain ms)
end

theorem requestLines_eq {req : ActionRequest} {request : Text}
    (h : buildRequestBody req = .ok request) (hbody : '\n' ∉ req.body.toList) :
    requestLines request = [request] := by
  refine List.splitOn_eq_singleton ?_
  unfold buildRequestBody at h
  split at h
  · cases h
    exact hbody
  · repeat' split at h
    all_goals cases h
    all_goals exact print_plain _

/-! ## One goroutine at a time -/

variable {ι : Type} [DecidableEq ι] {req : ι → ActionRequest} {s : StdioState ι}
  {a : StdioAct ι} {acts : List (StdioAct ι)}
variable {i : ι}

/-- The calls whose lines are on the pipes, the next line to be read first. -/
def inFlight (s : StdioState ι) : List ι := (s.stdout ++ s.stdin).map (·.1)

/-- At most one goroutine is at work; the lines on the pipes are those it waits
for, and no call has taken another one's. -/
structure Aligned (req : ι → ActionRequest) (s : StdioState ι) : Prop where
  alone : ∀ i j, (s.worker i).atWork = true → (s.worker j).atWork = true → i = j
  oneLine : ∀ i, s.worker i = .writing → '\n' ∉ (req i).body.toList
  idle : (∀ i, s.worker i ≠ .reading) → s.readable = true → inFlight s = []
  waits : ∀ i, s.worker i = .reading → s.readable = true → inFlight s = [i]
  ended : ∀ i o data, s.worker i = .ended (.line o data) → o = i
  returned : ∀ i o data, s.send i = .returned (.line o data) → o = i

theorem work_self (s : StdioState ι) (i : ι) (p : WorkerPhase ι) : (s.work i p).worker i = p :=
  Function.update_self ..

theorem work_ne {i j : ι} (h : j ≠ i) (s : StdioState ι) (p : WorkerPhase ι) :
    (s.work i p).worker j = s.worker j :=
  Function.update_of_ne h ..

theorem Aligned.finish (h : Aligned req s) {r : SendResult ι}
    (hr : ∀ o data, r = .line o data → o = i) : Aligned req (s.finish i r) := by
  refine ⟨h.alone, h.oneLine, h.idle, h.waits, h.ended, ?_⟩
  refine (Function.forall_update_iff s.send
    (p := fun j p => ∀ o data, p = .returned (.line o data) → o = j)).mpr ⟨?_, ?_⟩
  · intro o data he
    exact hr o data (SendPhase.returned.inj he)
  · exact fun j _ => h.returned j

omit [DecidableEq ι] in
theorem Aligned.others (h : Aligned req s) (hi : (s.worker i).atWork = true) (j : ι) (hj : j ≠ i) :
    (s.worker j).atWork = false :=
  Bool.eq_false_iff.mpr fun hw => hj (h.alone j i hw hi)

theorem aligned_work {p : WorkerPhase ι} (hothers : ∀ j, j ≠ i → (s.worker j).atWork = false)
    (hended : ∀ j o data, s.worker j = .ended (.line o data) → o = j)
    (hreturned : ∀ j o data, s.send j = .returned (.line o data) → o = j)
    (hline : p = .writing → '\n' ∉ (req i).body.toList)
    (hidle : p ≠ .reading → s.readable = true → inFlight s = [])
    (hwaits : p = .reading → s.readable = true → inFlight s = [i])
    (hp : ∀ o data, p = .ended (.line o data) → o = i) : Aligned req (s.work i p) := by
  have honly : ∀ j w, WorkerPhase.atWork w = true → (s.work i p).worker j = w →
      j = i ∧ p = w := by
    intro j w hw he
    by_cases hj : j = i
    · subst hj
      rw [work_self] at he
      exact ⟨rfl, he⟩
    · rw [work_ne hj] at he
      rw [← he, hothers j hj] at hw
      cases hw
  refine ⟨fun j k hj hk => ?_, fun j hj => ?_, fun hno => hidle fun hreading => ?_,
    fun j hj => ?_, ?_, hreturned⟩
  · exact (honly j _ hj rfl).1.trans (honly k _ hk rfl).1.symm
  · obtain ⟨rfl, hw⟩ := honly j _ rfl hj
    exact hline hw
  · exact hno i (by rw [work_self, hreading])
  · obtain ⟨rfl, hr⟩ := honly j _ rfl hj
    exact hwaits hr
  · refine (Function.forall_update_iff s.worker
      (p := fun j w => ∀ o data, w = .ended (.line o data) → o = j)).mpr ⟨hp, ?_⟩
    exact fun j _ => hended j

theorem aligned_lock (h : Aligned req s) (hbody : '\n' ∉ (req i).body.toList)
    (hoff : ∀ j, (s.worker j).atWork = false) :
    Aligned req
      ({ s with lock := some i, send := Function.update s.send i .inside }.work i .writing) := by
  refine aligned_work (fun j _ => hoff j) h.ended ?_ (fun _ => hbody) (fun _ => ?_) (by simp)
    (by simp)
  · refine (Function.forall_update_iff s.send
      (p := fun j p => ∀ o data, p = .returned (.line o data) → o = j)).mpr ⟨by simp, ?_⟩
    exact fun j _ => h.returned j
  · refine h.idle fun j hj => ?_
    have := hoff j
    rw [hj] at this
    cases this

theorem aligned_write {request : Text} (h : Aligned req s) (hi : s.worker i = .writing)
    (hreq : buildRequestBody (req i) = .ok request) (failed : Option Nat) :
    Aligned req (writeRequest s i (requestLines request) failed) := by
  have hwork : (s.worker i).atWork = true := by rw [hi]; rfl
  have hothers := h.others hwork
  have hempty : s.readable = true → inFlight s = [] := by
    refine h.idle fun j hj => ?_
    have : j = i := h.alone j i (by rw [hj]; rfl) hwork
    rw [this, hi] at hj
    cases hj
  rw [requestLines_eq hreq (h.oneLine i hi)]
  unfold writeRequest
  split
  · cases failed with
    | none =>
      refine aligned_work hothers h.ended h.returned (by simp) (by simp) (fun _ hread => ?_)
        (by simp)
      have hlines := hempty hread
      simp only [inFlight, List.map_append, List.map_cons, List.map_nil] at hlines ⊢
      rw [← List.append_assoc, hlines]
      rfl
    | some n =>
      refine aligned_work hothers h.ended h.returned (by simp) (fun _ => ?_) (by simp) (by simp)
      simpa [inFlight] using hempty
  · exact aligned_work hothers h.ended h.returned (by simp) (fun _ => hempty) (by simp) (by simp)

theorem aligned_read (h : Aligned req s) (hi : s.worker i = .reading) (ok : Bool) :
    Aligned req (readResponse s i ok) := by
  have hothers := h.others (i := i) (by rw [hi]; rfl)
  unfold readResponse
  split
  · next hread =>
    have hline := h.waits i hi hread.2
    split
    · next owner data rest hout =>
      -- the one line on the pipes is the goroutine's own
      simp only [inFlight, hout, List.cons_append, List.map_cons, List.cons.injEq] at hline
      refine aligned_work hothers h.ended h.returned (by simp) (fun _ _ => hline.2) (by simp) ?_
      rintro o d he
      cases he
      exact hline.1
    · exact h
  · exact aligned_work hothers h.ended h.returned (by simp) (by simp) (by simp) (by simp)

/-- While no call starts beside the goroutine of another one, the lines on the pipes are those
of the one goroutine at work. -/
theorem aligned_step (h : Aligned req s) (hok : StartsAlone req s a) :
    Aligned req (stdioStep req s a) := by
  cases a with
  | lock i exited =>
    simp only [stdioStep]
    split
    · next hreq hsend hlock =>
      obtain ⟨hbody, hoff⟩ := hok hsend hlock
      split
      · exact h.finish (by simp)
      · exact aligned_lock h hbody hoff
    · exact h
  | write i failed =>
    simp only [stdioStep]
    split
    · next hreq hi => exact aligned_write h hi hreq failed
    · exact h
  | answer data =>
    simp only [stdioStep]
    split
    · next i line rest hin =>
      have hsame : inFlight { s with stdin := rest, stdout := s.stdout ++ [(i, data)] } =
          inFlight s := by simp [inFlight, hin]
      refine ⟨h.alone, h.oneLine, fun hno hread => ?_, fun j hj hread => ?_, h.ended,
        h.returned⟩
      · exact hsame.trans (h.idle hno hread)
      · exact hsame.trans (h.waits j hj hread)
    · exact h
  | read i ok =>
    simp only [stdioStep]
    split
    · next hi => exact aligned_read h hi ok
    · exact h
  | receive i =>
    simp only [stdioStep]
    split
    · next r hsend hi => exact h.finish fun o data hr => h.ended i o data (hr ▸ hi)
    · exact h
  | cancel i =>
    simp only [stdioStep]
    split
    · exact h.finish (by simp)
    · exact h

theorem stdioRun_snoc (pre : List (StdioAct ι)) (a : StdioAct ι) :
    stdioRun req (pre ++ [a]) = stdioStep req (stdioRun req pre) a :=
  Runs.run_snoc _ _ pre a

theorem aligned_run
    (hok : ∀ pre a, pre ++ [a] <+: acts → StartsAlone req (stdioRun req pre) a) :
    Aligned req (stdioRun req acts) := by
  refine Runs.run_invariant (fun pre => Aligned req (stdioRun req pre)) _ ?_
    (fun pre a hok h => ?_) hok
  · exact ⟨by simp [stdioRun, StdioState.new, WorkerPhase.atWork],
      by simp [stdioRun, StdioState.new], fun _ _ => rfl, by simp [stdioRun, StdioState.new],
      by simp [stdioRun, StdioState.new], by simp [stdioRun, StdioState.new]⟩
  · rw [stdioRun_snoc]
    exact aligned_step h hok

end StdioLemmas

open StdioLemmas in
/-- In a run where no call starts beside a goroutine that is still at work, and
no request body has a line break, a call that returns a line returns the
response to its own request. -/
theorem stdio_answers_own {ι : Type} [DecidableEq ι] (req : ι → ActionRequest)
    (acts : List (StdioAct ι))
    (hok : ∀ pre a, pre ++ [a] <+: acts → StartsAlone req (stdioRun req pre) a) (i owner : ι)
    (data : Text) (h : (stdioRun req acts).send i = .returned (.line owner data)) : owner = i :=
  (aligned_run hok).returned i owner data h

def bodyRequest (body : String) : ActionRequest := { body := body }

/-- A call is cancelled; its goroutine reads the response before the next call
starts. -/
def cancelThenSend : List (StdioAct Bool) :=
  [.lock false false, .write false none, .cancel false, .answer ['a'], .read false true,
   .lock true false, .write true none, .answer ['b'], .read true true, .receive true]

theorem stdio_answers_own_late :
    (stdioRun (fun _ => bodyRequest "x") cancelThenSend).send true =
      .returned (.line true ['b']) ∧
    ∀ owner data, (stdioRun (fun _ => bodyRequest "x") cancelThenSend).send true =
      .returned (.line owner data) → owner = true := by
  refine ⟨by decide +kernel, stdio_answers_own _ cancelThenSend (fun pre a hp => ?_) true⟩
  obtain ⟨n, hn, ha, rfl⟩ := Runs.snoc_prefix_take hp
  match n, hn, ha with
  | 0, _, rfl | 5, _, rfl => exact fun _ _ => ⟨by decide, by decide +kernel⟩
  | 1, _, rfl | 2, _, rfl | 3, _, rfl | 4, _, rfl | 6, _, rfl | 7, _, rfl | 8, _, rfl | 9, _, rfl =>
    trivial

/-- The next call starts while the goroutine of a cancelled one is between its
write and its read. -/
def overtaking : List (StdioAct Bool) :=
  [.lock false false, .write false none, .cancel false, .lock true false, .write true none,
   .answer ['a'], .read true true, .receive true]

def inTurn : List (StdioAct Bool) :=
  [.lock false false, .write false none, .answer ['a'], .answer ['b'], .read false true,
   .receive false, .lock true false, .write true none, .read true true, .receive true]

/-- Not in every run: a call gets the response to the request of a cancelled call,
or, without any cancellation, to the second line of an earlier request. -/
theorem stdio_answers_cross :
    (stdioRun (fun _ => bodyRequest "x") overtaking).send true =
      .returned (.line false ['a']) ∧
    (stdioRun (fun i => bodyRequest (if i then "x" else "x\ny")) inTurn).send true =
      .returned (.line false ['b']) := by
  decide +kernel

end Forager
