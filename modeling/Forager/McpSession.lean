import Forager.Dispatch
import Forager.Runs

/-!
# MCP sessions

The upstream sessions of `pkg/proxy/mcp`: one for each conversation, opened by
an `initialize` handshake and kept in a map under the caller's `session_id`.
The handshake runs outside the lock, so the critical sections of many requests
interleave with one another, with the sweep of idle sessions and with `Close`.

A step is one critical section or one answer of the server. The terminations
that the code starts in the background read and write none of this state.
-/

namespace Forager

open GoTime Go

/-! ## The proxy -/

def sessionIdleTTL : Int := 30 * minute

structure McpSession where
  id : String
  lastUsed : Int
deriving DecidableEq, Repr

/-- `time.Since(s.lastUsed) < sessionIdleTTL`. -/
def McpSession.live (s : McpSession) (now : Int) : Bool := now - s.lastUsed < sessionIdleTTL

def sessionKey (req : ActionRequest) : String :=
  Any.asString ((req.params.getD []).get "session_id")

/-- The answer to a POST: an error, or the status with `Mcp-Session-Id`. -/
inductive McpAnswer
  | error
  | status (code : Nat) (sessionID : String)
deriving DecidableEq, Repr

/-- `initializeSession`: the id, `sessionless`, and whether it returns an error. -/
def initializeSession : McpAnswer → String × Bool × Bool
  | .error => ("", false, true)
  | .status code sessionID =>
    if code ≥ 400 then ("", decide (code < 500), true)
    else if sessionID = "" then ("", true, false)
    else (sessionID, false, false)

def sessionGone (answer : McpAnswer) (sessionID : String) : Bool :=
  match answer with
  | .error => false
  | .status code _ => sessionID ≠ "" && code = 404

/-- How `handleWithSession` ends. -/
inductive McpOutcome
  | response | closed | initFailed | postFailed
deriving DecidableEq, Repr

/-- Where a call of `handleWithSession` is; `retry` after a 404. -/
inductive McpPhase
  /-- Before `ensureSession`. -/
  | ready (retry : Bool)
  /-- The initialize request was sent. -/
  | handshake (retry : Bool)
  /-- The server answered without sessions; `failed` if that was a 4xx. -/
  | sessionless (retry failed : Bool)
  /-- The server answered with an id. -/
  | storing (retry : Bool) (id : String)
  /-- The request was posted with an id, or without one if it is empty. -/
  | posting (retry : Bool) (id : String)
  /-- The post with the id was answered with 404. -/
  | dropping (id : String)
  | done (outcome : McpOutcome)
deriving DecidableEq, Repr

inductive EnsureError
  | closed | initFailed

/-- What `handleWithSession` does when `ensureSession` returns. -/
def afterEnsure (retry : Bool) : Except EnsureError String → McpPhase
  | .ok id => .posting retry id
  | .error .closed => .done .closed
  | .error .initFailed => if retry then .done .initFailed else .posting false ""

/-- The session state of the proxy, the calls on it, and two records of the
past: the ids that handshakes obtained, with the key of the call, and the ids
that a 404 was answered to. -/
structure McpState (ι : Type) where
  sessions : GoMap McpSession
  sessionlessUntil : Int
  closed : Bool
  phase : ι → McpPhase
  issued : List (String × String)
  gone : List String

/-- A step, with its clock readings in their order. -/
inductive McpAct (ι : Type)
  /-- The first critical section of `ensureSession`. -/
  | lookup (i : ι) (before since used : Int)
  /-- The answer to initialize. -/
  | initialized (i : ι) (answer : McpAnswer)
  /-- The write of `sessionlessUntil`. -/
  | mark (i : ι) (now : Int)
  /-- The last critical section of `ensureSession`. -/
  | store (i : ι) (since used : Int)
  /-- The answer to the request. -/
  | posted (i : ι) (answer : McpAnswer)
  /-- `dropSession`. -/
  | drop (i : ι)
  /-- `takeSessions` of a sweep; the clock is read for each session. -/
  | sweep (first : Int) (now : String → Int) (last : Int)
  /-- The critical section of `Close`. -/
  | close
  /-- `takeSessions` of `Close`. -/
  | closeTake

/-- `takeSessions`: the map without the sessions that match. -/
def takeSessions (matches_ : String → McpSession → Bool) (m : GoMap McpSession) :
    GoMap McpSession :=
  ⟨m.entries.filter fun e => ¬ matches_ e.1 e.2, m.nodupKeys.sublist List.filter_sublist⟩

section Model

variable {ι : Type} [DecidableEq ι]

def McpState.goto (s : McpState ι) (i : ι) (p : McpPhase) : McpState ι :=
  { s with phase := Function.update s.phase i p }

def McpState.new : McpState ι := ⟨∅, -62135596800 * second, false, fun _ => .ready false, [], []⟩

def lookupSession (s : McpState ι) (i : ι) (key : String) (retry : Bool)
    (before since used : Int) : McpState ι :=
  if s.closed then s.goto i (afterEnsure retry (.error .closed))
  else if before < s.sessionlessUntil then s.goto i (afterEnsure retry (.ok ""))
  else match s.sessions.lookup key with
    | none => s.goto i (.handshake retry)
    | some m =>
      if m.live since then
        { s with sessions := s.sessions.insert key ⟨m.id, used⟩ }.goto i
          (afterEnsure retry (.ok m.id))
      else { s with sessions := s.sessions.erase key }.goto i (.handshake retry)

def finishInitialize (s : McpState ι) (i : ι) (key : String) (retry : Bool)
    (answer : McpAnswer) : McpState ι :=
  match initializeSession answer with
  | (_, true, failed) => s.goto i (.sessionless retry failed)
  | (_, false, true) => s.goto i (afterEnsure retry (.error .initFailed))
  | (id, false, false) => { s with issued := s.issued ++ [(key, id)] }.goto i (.storing retry id)

def storeSession (s : McpState ι) (i : ι) (key : String) (retry : Bool) (id : String)
    (since used : Int) : McpState ι :=
  if s.closed then s.goto i (afterEnsure retry (.error .closed))
  else match s.sessions.lookup key with
    | some m =>
      -- a concurrent request for the key was first
      if m.live since then
        { s with sessions := s.sessions.insert key ⟨m.id, used⟩ }.goto i
          (afterEnsure retry (.ok m.id))
      else { s with sessions := s.sessions.insert key ⟨id, used⟩ }.goto i
          (afterEnsure retry (.ok id))
    | none => { s with sessions := s.sessions.insert key ⟨id, used⟩ }.goto i
        (afterEnsure retry (.ok id))

def dropSession (key sessionID : String) (m : GoMap McpSession) : GoMap McpSession :=
  match m.lookup key with
  | some s => if s.id = sessionID then m.erase key else m
  | none => m

/-- The answer to the request; only a first 404 is followed by a retry. -/
def finishPost (s : McpState ι) (i : ι) (retry : Bool) (id : String) (answer : McpAnswer) :
    McpState ι :=
  let s := if sessionGone answer id then { s with gone := s.gone ++ [id] } else s
  match answer with
  | .error => s.goto i (.done .postFailed)
  | .status _ _ =>
    if sessionGone answer id ∧ ¬ retry then s.goto i (.dropping id) else s.goto i (.done .response)

/-- One step. A step that is not the call's turn does nothing. -/
def mcpStep (key : ι → String) (s : McpState ι) : McpAct ι → McpState ι
  | .lookup i before since used => match s.phase i with
    | .ready retry => lookupSession s i (key i) retry before since used
    | _ => s
  | .initialized i answer => match s.phase i with
    | .handshake retry => finishInitialize s i (key i) retry answer
    | _ => s
  | .mark i now => match s.phase i with
    | .sessionless retry failed =>
      { s with sessionlessUntil := now + sessionIdleTTL }.goto i
        (afterEnsure retry (if failed then .error .initFailed else .ok ""))
    | _ => s
  | .store i since used => match s.phase i with
    | .storing retry id => storeSession s i (key i) retry id since used
    | _ => s
  | .posted i answer => match s.phase i with
    | .posting retry id => finishPost s i retry id answer
    | _ => s
  | .drop i => match s.phase i with
    | .dropping id =>
      { s with sessions := dropSession (key i) id s.sessions }.goto i (.ready true)
    | _ => s
  | .sweep _ now _ =>
    { s with sessions := takeSessions (fun k m => ¬ m.live (now k)) s.sessions }
  | .close => { s with closed := true }
  | .closeTake =>
    if s.closed then { s with sessions := takeSessions (fun _ _ => true) s.sessions } else s

/-- The state after some steps on a new proxy, where call `i` is for `req i`. -/
def mcpRun (req : ι → ActionRequest) (acts : List (McpAct ι)) : McpState ι :=
  Runs.Run (mcpStep fun i => sessionKey (req i)) .new acts

end Model

/-- The call holds the id outside the map. -/
def McpPhase.Carries (p : McpPhase) (id : String) : Prop :=
  (∃ retry, p = .storing retry id) ∨ (id ≠ "" ∧ ∃ retry, p = .posting retry id)

/-- The id that a handshake obtains was not obtained before. -/
def freshAct {ι : Type} (s : McpState ι) : McpAct ι → Bool
  | .initialized _ answer => match initializeSession answer with
    | (id, false, false) => id ∉ s.issued.map (·.2)
    | _ => true
  | _ => true

/-- The server never issues an id twice. -/
def FreshIds {ι : Type} [DecidableEq ι] (req : ι → ActionRequest) (acts : List (McpAct ι)) :
    Prop :=
  ∀ pre a, pre ++ [a] <+: acts → freshAct (mcpRun req pre) a = true

namespace McpLemmas

variable {ι : Type} [DecidableEq ι] {key : ι → String} {req : ι → ActionRequest}
  {s s' : McpState ι} {a : McpAct ι} {acts : List (McpAct ι)}

/-! ## The session map -/

theorem lookup_erase_some {m : GoMap McpSession} {k k' : String} {x : McpSession}
    (h : (m.erase k).lookup k' = some x) : m.lookup k' = some x := by
  by_cases hk : k' = k
  · rw [hk, AList.lookup_erase] at h
    cases h
  · rwa [AList.lookup_erase_ne hk] at h

theorem lookup_takeSessions {m : GoMap McpSession} {f : String → McpSession → Bool} {k : String}
    {x : McpSession} :
    (takeSessions f m).lookup k = some x ↔ m.lookup k = some x ∧ f k x = false := by
  have hmem : ∀ m : GoMap McpSession, m.lookup k = some x ↔ Sigma.mk k x ∈ m.entries :=
    fun m => AList.mem_lookup_iff
  rw [hmem, hmem]
  unfold takeSessions
  rw [List.mem_filter]
  simp

theorem lookup_dropSession {m : GoMap McpSession} {key id k : String} {x : McpSession} :
    (dropSession key id m).lookup k = some x ↔
      m.lookup k = some x ∧ ¬ (k = key ∧ x.id = id) := by
  unfold dropSession
  cases hkey : m.lookup key with
  | none =>
    refine ⟨fun h => ⟨h, ?_⟩, fun h => h.1⟩
    rintro ⟨rfl, -⟩
    rw [hkey] at h
    cases h
  | some y =>
    by_cases hk : k = key
    · subst hk
      dsimp only
      split
      · next hid =>
        rw [AList.lookup_erase, hkey]
        constructor
        · intro h
          cases h
        · rintro ⟨h, hne⟩
          obtain rfl := Option.some.inj h
          exact absurd ⟨rfl, hid⟩ hne
      · next hid =>
        refine ⟨fun h => ⟨h, ?_⟩, fun h => h.1⟩
        rintro ⟨-, hx⟩
        rw [hkey] at h
        obtain rfl := Option.some.inj h
        exact hid hx
    · dsimp only
      split
      · rw [AList.lookup_erase_ne hk]
        exact ⟨fun h => ⟨h, fun hx => hk hx.1⟩, fun h => h.1⟩
      · exact ⟨fun h => ⟨h, fun hx => hk hx.1⟩, fun h => h.1⟩

/-! ## One step -/

/-- Sessions may go and calls may let go of their id; nothing is added. -/
structure Frees (s s' : McpState ι) : Prop where
  sessions : ∀ k x, s'.sessions.lookup k = some x → s.sessions.lookup k = some x
  issued : s'.issued = s.issued
  phase : ∀ i, s'.phase i = s.phase i ∨ ∀ id, ¬ (s'.phase i).Carries id

omit [DecidableEq ι] in
theorem Frees.refl (s : McpState ι) : Frees s s := ⟨fun _ _ h => h, rfl, fun _ => .inl rfl⟩

omit [DecidableEq ι] in
theorem frees_sessions {m : GoMap McpSession}
    (h : ∀ k x, m.lookup k = some x → s.sessions.lookup k = some x) :
    Frees s { s with sessions := m } :=
  ⟨h, rfl, fun _ => .inl rfl⟩

theorem goto_phase_self (s : McpState ι) (i : ι) (p : McpPhase) : (s.goto i p).phase i = p :=
  Function.update_self ..

theorem goto_phase_ne {i j : ι} (h : j ≠ i) (s : McpState ι) (p : McpPhase) :
    (s.goto i p).phase j = s.phase j :=
  Function.update_of_ne h ..

theorem goto_phase_of (P : McpPhase → Prop) {i j : ι} {p : McpPhase}
    (h : P ((s.goto i p).phase j)) : (j = i ∧ P p) ∨ P (s.phase j) :=
  (Runs.of_update P h).imp_right And.right

theorem Frees.goto (h : Frees s s') (i : ι) {p : McpPhase} (hp : ∀ id, ¬ p.Carries id) :
    Frees s (s'.goto i p) := by
  refine ⟨h.sessions, h.issued, fun j => ?_⟩
  by_cases hji : j = i
  · subst hji
    right
    rwa [goto_phase_self]
  · rw [goto_phase_ne hji]
    exact h.phase j

theorem not_carries_afterEnsure (retry : Bool) {r : Except EnsureError String}
    (hr : ∀ id, r = .ok id → id = "") (id : String) : ¬ (afterEnsure retry r).Carries id := by
  rintro (⟨retry', h⟩ | ⟨hne, retry', h⟩)
  · match r with
    | .ok _ | .error .closed => cases h
    | .error .initFailed => cases retry <;> cases h
  · match r with
    | .ok x =>
      obtain rfl := hr x rfl
      injection h with _ hid
      exact hne hid.symm
    | .error .closed => cases h
    | .error .initFailed =>
      cases retry
      · injection h with _ hid
        exact hne hid.symm
      · cases h

theorem initializeSession_cases (answer : McpAnswer) :
    (∃ failed, initializeSession answer = ("", true, failed)) ∨
    initializeSession answer = ("", false, true) ∨
    ∃ id, id ≠ "" ∧ initializeSession answer = (id, false, false) := by
  match answer with
  | .error => exact .inr (.inl rfl)
  | .status code id =>
    simp only [initializeSession]
    split
    · by_cases h500 : code < 500
      · exact .inl ⟨true, by simp [h500]⟩
      · exact .inr (.inl (by simp [h500]))
    · split
      · exact .inl ⟨false, rfl⟩
      · next hid => exact .inr (.inr ⟨id, hid, rfl⟩)

/-- The branches of a step, each with its conditions and its result. -/
inductive Move (key : ι → String) (s : McpState ι) : McpAct ι → McpState ι → Prop
  | idle (a : McpAct ι) : Move key s a s
  | lookupClosed {i retry before since used} : s.phase i = .ready retry → s.closed = true →
      Move key s (.lookup i before since used) (s.goto i (.done .closed))
  | lookupSessionless {i retry before since used} : s.phase i = .ready retry →
      before < s.sessionlessUntil →
      Move key s (.lookup i before since used) (s.goto i (.posting retry ""))
  | lookupNone {i retry before since used} : s.phase i = .ready retry →
      s.sessions.lookup (key i) = none →
      Move key s (.lookup i before since used) (s.goto i (.handshake retry))
  | lookupLive {i retry before since used m} : s.phase i = .ready retry →
      s.sessionlessUntil ≤ before → s.sessions.lookup (key i) = some m → m.live since = true →
      Move key s (.lookup i before since used)
        ({ s with sessions := s.sessions.insert (key i) ⟨m.id, used⟩ }.goto i
          (.posting retry m.id))
  | lookupIdle {i retry before since used m} : s.phase i = .ready retry →
      s.sessions.lookup (key i) = some m → m.live since = false →
      Move key s (.lookup i before since used)
        ({ s with sessions := s.sessions.erase (key i) }.goto i (.handshake retry))
  | initSessionless {i retry answer failed} : s.phase i = .handshake retry →
      initializeSession answer = ("", true, failed) →
      Move key s (.initialized i answer) (s.goto i (.sessionless retry failed))
  | initFailed {i retry answer} : s.phase i = .handshake retry →
      initializeSession answer = ("", false, true) →
      Move key s (.initialized i answer) (s.goto i (afterEnsure retry (.error .initFailed)))
  | initialized {i retry answer id} : s.phase i = .handshake retry →
      initializeSession answer = (id, false, false) →
      Move key s (.initialized i answer)
        ({ s with issued := s.issued ++ [(key i, id)] }.goto i (.storing retry id))
  | mark {i retry failed now} : s.phase i = .sessionless retry failed →
      Move key s (.mark i now) ({ s with sessionlessUntil := now + sessionIdleTTL }.goto i
        (afterEnsure retry (if failed then .error .initFailed else .ok "")))
  | storeClosed {i retry id since used} : s.phase i = .storing retry id → s.closed = true →
      Move key s (.store i since used) (s.goto i (.done .closed))
  | storeLost {i retry id since used m} : s.phase i = .storing retry id →
      s.sessions.lookup (key i) = some m → m.live since = true →
      Move key s (.store i since used)
        ({ s with sessions := s.sessions.insert (key i) ⟨m.id, used⟩ }.goto i
          (.posting retry m.id))
  | storeNew {i retry id since used} : s.phase i = .storing retry id →
      (∀ m, s.sessions.lookup (key i) = some m → m.live since = false) →
      Move key s (.store i since used)
        ({ s with sessions := s.sessions.insert (key i) ⟨id, used⟩ }.goto i (.posting retry id))
  | postGone {i retry id answer p} : s.phase i = .posting retry id →
      sessionGone answer id = true → p = .dropping id ∨ p = .done .response →
      Move key s (.posted i answer) ({ s with gone := s.gone ++ [id] }.goto i p)
  | posted {i retry id answer outcome} : s.phase i = .posting retry id →
      sessionGone answer id = false → Move key s (.posted i answer) (s.goto i (.done outcome))
  | drop {i id} : s.phase i = .dropping id →
      Move key s (.drop i)
        ({ s with sessions := dropSession (key i) id s.sessions }.goto i (.ready true))
  | sweep (first : Int) (now : String → Int) (last : Int) : Move key s (.sweep first now last)
      { s with sessions := takeSessions (fun k m => ¬ m.live (now k)) s.sessions }
  | close : Move key s .close { s with closed := true }
  | closeTake : s.closed = true →
      Move key s .closeTake { s with sessions := takeSessions (fun _ _ => true) s.sessions }

theorem lookupSession_move {i : ι} {retry : Bool} {before since used : Int}
    (hi : s.phase i = .ready retry) : Move key s (.lookup i before since used)
      (lookupSession s i (key i) retry before since used) := by
  unfold lookupSession
  split
  · next hclosed => exact .lookupClosed hi hclosed
  split
  · next hbefore => exact .lookupSessionless hi hbefore
  next hbefore =>
  split
  · next hm => exact .lookupNone hi hm
  · next m hm =>
    split
    · next hlive => exact .lookupLive hi (not_lt.mp hbefore) hm hlive
    · next hlive => exact .lookupIdle hi hm (Bool.eq_false_iff.mpr hlive)

theorem finishInitialize_move {i : ι} {retry : Bool} {answer : McpAnswer}
    (hi : s.phase i = .handshake retry) : Move key s (.initialized i answer)
      (finishInitialize s i (key i) retry answer) := by
  unfold finishInitialize
  rcases initializeSession_cases answer with ⟨failed, hans⟩ | hans | ⟨id, -, hans⟩
  · rw [hans]
    exact .initSessionless hi hans
  · rw [hans]
    exact .initFailed hi hans
  · rw [hans]
    exact .initialized hi hans

theorem storeSession_move {i : ι} {retry : Bool} {id : String} {since used : Int}
    (hi : s.phase i = .storing retry id) : Move key s (.store i since used)
      (storeSession s i (key i) retry id since used) := by
  unfold storeSession
  split
  · next hclosed => exact .storeClosed hi hclosed
  split
  · next m hm =>
    split
    · next hlive => exact .storeLost hi hm hlive
    · next hlive =>
      refine .storeNew hi fun m' hm' => ?_
      rw [hm] at hm'
      obtain rfl := Option.some.inj hm'
      exact Bool.eq_false_iff.mpr hlive
  · next hm =>
    refine .storeNew hi fun m' hm' => ?_
    rw [hm] at hm'
    cases hm'

theorem finishPost_move {i : ι} {retry : Bool} {id : String} {answer : McpAnswer}
    (hi : s.phase i = .posting retry id) :
    Move key s (.posted i answer) (finishPost s i retry id answer) := by
  unfold finishPost
  cases answer with
  | error => exact .posted hi rfl
  | status code sessionID =>
    dsimp only
    cases hgone : sessionGone (.status code sessionID) id with
    | false => exact .posted hi hgone
    | true =>
      cases retry with
      | false => exact .postGone hi hgone (.inl rfl)
      | true => exact .postGone hi hgone (.inr rfl)

theorem mcpStep_move (key : ι → String) (s : McpState ι) (a : McpAct ι) :
    Move key s a (mcpStep key s a) := by
  cases a with
  | lookup i before since used =>
    simp only [mcpStep]
    split
    · next hi => exact lookupSession_move hi
    · exact .idle _
  | initialized i answer =>
    simp only [mcpStep]
    split
    · next hi => exact finishInitialize_move hi
    · exact .idle _
  | mark i now =>
    simp only [mcpStep]
    split
    · next hi => exact .mark hi
    · exact .idle _
  | store i since used =>
    simp only [mcpStep]
    split
    · next hi => exact storeSession_move hi
    · exact .idle _
  | posted i answer =>
    simp only [mcpStep]
    split
    · next hi => exact finishPost_move hi
    · exact .idle _
  | drop i =>
    simp only [mcpStep]
    split
    · next hi => exact .drop hi
    · exact .idle _
  | sweep first now last => exact .sweep first now last
  | close => exact .close
  | closeTake =>
    simp only [mcpStep]
    split
    · next hclosed => exact .closeTake hclosed
    · exact .idle _

theorem mcpStep_cases (key : ι → String) (s : McpState ι) (a : McpAct ι) :
    Frees s (mcpStep key s a) ∨
    (∃ i retry m used, s.sessions.lookup (key i) = some m ∧ mcpStep key s a =
      { s with sessions := s.sessions.insert (key i) ⟨m.id, used⟩ }.goto i
        (.posting retry m.id)) ∨
    (∃ i retry answer id, a = .initialized i answer ∧
      initializeSession answer = (id, false, false) ∧ mcpStep key s a =
        { s with issued := s.issued ++ [(key i, id)] }.goto i (.storing retry id)) ∨
    (∃ i retry id used, s.phase i = .storing retry id ∧ mcpStep key s a =
      { s with sessions := s.sessions.insert (key i) ⟨id, used⟩ }.goto i
        (.posting retry id)) := by
  have hmove := mcpStep_move key s a
  generalize mcpStep key s a = s' at hmove ⊢
  cases hmove with
  | idle => exact .inl (Frees.refl s)
  | lookupClosed | lookupSessionless | lookupNone | initSessionless | storeClosed | posted =>
    exact .inl ((Frees.refl s).goto _ (by simp [McpPhase.Carries]))
  | initFailed => exact .inl ((Frees.refl s).goto _ (not_carries_afterEnsure _ (by simp)))
  | lookupLive _ _ hm | storeLost _ hm => exact .inr (.inl ⟨_, _, _, _, hm, rfl⟩)
  | lookupIdle =>
    exact .inl ((frees_sessions fun _ _ h => lookup_erase_some h).goto _
      (by simp [McpPhase.Carries]))
  | initialized _ hans => exact .inr (.inr (.inl ⟨_, _, _, _, rfl, hans, rfl⟩))
  | @mark i retry failed now =>
    have hmark : Frees s { s with sessionlessUntil := now + sessionIdleTTL } :=
      ⟨fun _ _ h => h, rfl, fun _ => .inl rfl⟩
    exact .inl (hmark.goto i (not_carries_afterEnsure retry (by cases failed <;> simp)))
  | storeNew hi => exact .inr (.inr (.inr ⟨_, _, _, _, hi, rfl⟩))
  | @postGone i retry id answer p _ _ hp =>
    have hgone : Frees s { s with gone := s.gone ++ [id] } :=
      ⟨fun _ _ h => h, rfl, fun _ => .inl rfl⟩
    refine .inl (hgone.goto i ?_)
    rcases hp with rfl | rfl <;> simp [McpPhase.Carries]
  | drop =>
    exact .inl ((frees_sessions fun _ _ h => (lookup_dropSession.mp h).1).goto _
      (by simp [McpPhase.Carries]))
  | sweep => exact .inl (frees_sessions fun _ _ h => (lookup_takeSessions.mp h).1)
  | close => exact .inl ⟨fun _ _ h => h, rfl, fun _ => .inl rfl⟩
  | closeTake => exact .inl (frees_sessions fun _ _ h => (lookup_takeSessions.mp h).1)

/-! ## Isolation -/

/-- Every id in the map or with a call was obtained by a handshake for its key,
and no id was obtained twice. -/
structure Isolated (key : ι → String) (s : McpState ι) : Prop where
  nodup : (s.issued.map (·.2)).Nodup
  sessions : ∀ k x, s.sessions.lookup k = some x → (k, x.id) ∈ s.issued
  carried : ∀ i id, (s.phase i).Carries id → (key i, id) ∈ s.issued

theorem lookup_insert_some {m : GoMap McpSession} {k k' : String} {x y : McpSession}
    (h : (m.insert k x).lookup k' = some y) : (k' = k ∧ y = x) ∨ m.lookup k' = some y := by
  by_cases hk : k' = k
  · rw [hk, AList.lookup_insert] at h
    exact .inl ⟨hk, (Option.some.inj h).symm⟩
  · rw [AList.lookup_insert_ne hk] at h
    exact .inr h

omit [DecidableEq ι] in
theorem isolated_frees (h : Isolated key s) (hf : Frees s s') : Isolated key s' := by
  refine ⟨hf.issued ▸ h.nodup, fun k x hx => ?_, fun i id hid => ?_⟩
  · rw [hf.issued]
    exact h.sessions k x (hf.sessions k x hx)
  · rw [hf.issued]
    rcases hf.phase i with hsame | hnone
    · exact h.carried i id (hsame ▸ hid)
    · exact absurd hid (hnone id)

theorem isolated_insert (h : Isolated key s) {i : ι} {id : String} {used : Int} {retry : Bool}
    (hid : (key i, id) ∈ s.issued) :
    Isolated key ({ s with sessions := s.sessions.insert (key i) ⟨id, used⟩ }.goto i
      (.posting retry id)) := by
  refine ⟨h.nodup, fun k x hx => ?_, fun j id' hc => ?_⟩
  · rcases lookup_insert_some hx with ⟨rfl, rfl⟩ | hx
    · exact hid
    · exact h.sessions k x hx
  · rcases goto_phase_of (·.Carries id') hc with ⟨rfl, ⟨r, hp⟩ | ⟨-, r, hp⟩⟩ | hc
    · cases hp
    · cases hp
      exact hid
    · exact h.carried j id' hc

/-- Every id in the map and in flight was obtained by a handshake for its own key. -/
theorem isolated_step (h : Isolated key s) (hfresh : freshAct s a = true) :
    Isolated key (mcpStep key s a) := by
  rcases mcpStep_cases key s a with hf | ⟨i, retry, m, used, hm, he⟩ |
    ⟨i, retry, answer, id, ha, hans, he⟩ | ⟨i, retry, id, used, hi, he⟩
  · exact isolated_frees h hf
  · rw [he]
    exact isolated_insert h (h.sessions _ _ hm)
  · rw [he]
    refine ⟨?_, fun k x hx => List.mem_append_left _ (h.sessions k x hx), fun j id' hc => ?_⟩
    · subst ha
      have hnew : id ∉ s.issued.map (·.2) := by simpa [freshAct, hans] using hfresh
      change ((s.issued ++ [(key i, id)]).map (·.2)).Nodup
      rw [List.map_append]
      exact List.Nodup.append h.nodup (List.nodup_singleton _) (List.disjoint_singleton.mpr hnew)
    · rcases goto_phase_of (·.Carries id') hc with ⟨rfl, ⟨r, hp⟩ | ⟨-, r, hp⟩⟩ | hc
      · cases hp
        exact List.mem_append_right _ (List.mem_singleton.mpr rfl)
      · cases hp
      · exact List.mem_append_left _ (h.carried j id' hc)
  · rw [he]
    exact isolated_insert h (h.carried i id (.inl ⟨retry, hi⟩))

theorem mcpRun_snoc (pre : List (McpAct ι)) (a : McpAct ι) :
    mcpRun req (pre ++ [a]) = mcpStep (fun i => sessionKey (req i)) (mcpRun req pre) a :=
  Runs.run_snoc _ _ pre a

theorem isolated_run (hfresh : FreshIds req acts) :
    Isolated (fun i => sessionKey (req i)) (mcpRun req acts) := by
  refine Runs.run_invariant (fun pre => Isolated (fun i => sessionKey (req i)) (mcpRun req pre))
    (fun pre a => freshAct (mcpRun req pre) a = true)
    ⟨List.nodup_nil, fun _ _ h => ?_, fun _ _ h => ?_⟩ (fun pre a hok h => ?_) hfresh
  · exact (Option.some_ne_none _ h.symm).elim
  · rcases h with ⟨_, h⟩ | ⟨-, _, h⟩ <;> cases h
  · rw [mcpRun_snoc]
    exact isolated_step h hok

theorem freshIds_of_forall
    (h : ∀ n (hn : n < acts.length), freshAct (mcpRun req (acts.take n)) acts[n] = true) :
    FreshIds req acts :=
  Runs.forall_steps h

end McpLemmas

/-- The id `new` was obtained after `old`. -/
def Newer (issued : List (String × String)) (old new : String) : Prop :=
  ∃ n m : Nat, n < m ∧ (issued.map (·.2))[n]? = some old ∧ (issued.map (·.2))[m]? = some new

open McpLemmas in
/-- For any interleaving of requests, sweeps and `Close` on one proxy, with a
server that never issues an id twice: a request is posted without a session or
with an id that a handshake for its key obtained; no id is in the map under two
keys; and dropping an id that a 404 was answered to leaves a newer session of
the key alone. -/
theorem mcp_isolated {ι : Type} [DecidableEq ι] (req : ι → ActionRequest)
    (acts : List (McpAct ι)) (hfresh : FreshIds req acts) :
    (∀ i retry id, (mcpRun req acts).phase i = .posting retry id →
      id = "" ∨ (sessionKey (req i), id) ∈ (mcpRun req acts).issued) ∧
    (∀ k k' x x', (mcpRun req acts).sessions.lookup k = some x →
      (mcpRun req acts).sessions.lookup k' = some x' → x.id = x'.id → k = k') ∧
    ∀ pre i old x, pre ++ [.drop i] <+: acts → (mcpRun req pre).phase i = .dropping old →
      (mcpRun req pre).sessions.lookup (sessionKey (req i)) = some x →
      Newer (mcpRun req pre).issued old x.id →
      (mcpRun req (pre ++ [.drop i])).sessions.lookup (sessionKey (req i)) = some x := by
  have hiso := isolated_run hfresh
  refine ⟨fun i retry id hi => ?_, fun k k' x x' hx hx' hid => ?_,
    fun pre i old x hpre hi hx hn => ?_⟩
  · rw [or_iff_not_imp_left]
    exact fun hne => hiso.carried i id (.inr ⟨hne, retry, hi⟩)
  · have hk := hiso.sessions k x hx
    have hk' := hiso.sessions k' x' hx'
    rw [hid] at hk
    exact (Prod.ext_iff.mp (List.inj_on_of_nodup_map hiso.nodup hk hk' rfl)).1
  · obtain ⟨n, m, hnm, hold, hnew⟩ := hn
    have hpreFresh : FreshIds req pre := fun p a hp =>
      hfresh p a (hp.trans ((List.prefix_append pre _).trans hpre))
    have hne : x.id ≠ old := by
      intro heq
      rw [heq, ← hold] at hnew
      have hlt := (List.getElem?_eq_some_iff.mp hold).1
      exact hnm.ne ((List.getElem?_inj hlt (isolated_run hpreFresh).nodup).mp hnew.symm)
    rw [mcpRun_snoc]
    simp only [mcpStep, hi]
    exact lookup_dropSession.mpr ⟨hx, fun h => hne h.2⟩

def conversation (k : String) : ActionRequest := { params := some [("session_id", .string k)] }

/-- Two calls of one conversation get a 404; the second one opens a new session
before the first one drops the old. -/
def staleDrop : List (McpAct Bool) :=
  [.lookup false 0 0 0, .initialized false (.status 200 "s1"), .store false 0 0,
   .lookup true 0 0 0, .posted false (.status 404 ""), .posted true (.status 404 ""), .drop true,
   .lookup true 0 0 0, .initialized true (.status 200 "s2"), .store true 0 0]

theorem mcp_isolated_stale_drop :
    (mcpRun (fun _ => conversation "a") (staleDrop ++ [.drop false])).sessions.lookup "a" =
      some ⟨"s2", 0⟩ :=
  (mcp_isolated (fun _ => conversation "a") (staleDrop ++ [.drop false])
    (McpLemmas.freshIds_of_forall (by decide +kernel))).2.2
    staleDrop false "s1" ⟨"s2", 0⟩ (List.prefix_refl _) (by decide +kernel) (by decide +kernel)
    ⟨0, 1, by decide, by decide +kernel, by decide +kernel⟩

end Forager
