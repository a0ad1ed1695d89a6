import Forager.McpKept

/-!
# Where the MCP sessions go

Every id that a handshake returned is in one place: with the `ensureSession` call
that opened it, in the map, handed to `terminateSession`, or dropped after a 404.
A ledger beside the proxy records the moves. The law is a balance: the ids that
were opened are, up to order, the ids in the four places together.

An id could only be lost where the last critical section of `ensureSession`
overwrites an entry of the map. The entry was used after the handshake began, so
it is live unless the handshake took as long as `sessionIdleTTL`.
-/

namespace Forager

open GoTime Go

/-! ## The ledger -/

def sessionIds (m : GoMap McpSession) : List String := m.entries.map (·.2.id)

def takenIds (matches_ : String → McpSession → Bool) (m : GoMap McpSession) : List String :=
  (m.entries.filter fun e => matches_ e.1 e.2).map (·.2.id)

/-- The proxy with a record of the ids: those that a call of `ensureSession`
holds, those handed to `terminateSession` and those dropped after a 404. For a
call that is in its handshake, `began` is a time after its first critical
section read the clock. -/
structure McpLedger (ι : Type) where
  state : McpState ι
  held : List (ι × String)
  terminated : List String
  dropped : List String
  began : ι → Int

section Model

variable {ι : Type} [DecidableEq ι]

/-- The ids that a step hands to `terminateSession`. -/
def terminates (key : ι → String) (s : McpState ι) : McpAct ι → List String
  | .lookup i before since _ => match s.phase i with
    | .ready _ =>
      if s.closed then []
      else if before < s.sessionlessUntil then []
      else match s.sessions.lookup (key i) with
        | none => []
        | some m => if m.live since then [] else [m.id]
    | _ => []
  | .store i since _ => match s.phase i with
    | .storing _ id =>
      if s.closed then [id]
      else match s.sessions.lookup (key i) with
        | some m => if m.live since then [id] else []
        | none => []
    | _ => []
  | .sweep _ now _ => takenIds (fun k m => ¬ m.live (now k)) s.sessions
  | .closeTake => if s.closed then takenIds (fun _ _ => true) s.sessions else []
  | _ => []

/-- The id that a step removes from the map after a 404. -/
def drops (key : ι → String) (s : McpState ι) : McpAct ι → List String
  | .drop i => match s.phase i with
    | .dropping id => match s.sessions.lookup (key i) with
      | some m => if m.id = id then [id] else []
      | none => []
    | _ => []
  | _ => []

/-- The ids that calls hold after a step. -/
def heldAfter (s : McpState ι) (held : List (ι × String)) : McpAct ι → List (ι × String)
  | .initialized i answer => match s.phase i, initializeSession answer with
    | .handshake _, (id, false, false) => held ++ [(i, id)]
    | _, _ => held
  | .store i _ _ => match s.phase i with
    | .storing _ id => held.erase (i, id)
    | _ => held
  | _ => held

def beganAfter (s : McpState ι) (began : ι → Int) : McpAct ι → ι → Int
  | .lookup i _ _ used => match s.phase i with
    | .ready _ => Function.update began i used
    | _ => began
  | _ => began

def ledgerStep (key : ι → String) (l : McpLedger ι) (a : McpAct ι) : McpLedger ι where
  state := mcpStep key l.state a
  held := heldAfter l.state l.held a
  terminated := l.terminated ++ terminates key l.state a
  dropped := l.dropped ++ drops key l.state a
  began := beganAfter l.state l.began a

def McpLedger.new : McpLedger ι := ⟨.new, [], [], [], fun _ => 0⟩

def ledgerRun (req : ι → ActionRequest) (acts : List (McpAct ι)) : McpLedger ι :=
  Runs.Run (ledgerStep fun i => sessionKey (req i)) .new acts

def McpLedger.opened (l : McpLedger ι) : List String := l.state.issued.map (·.2)

inductive IdPlace
  | held | stored | terminated | dropped
deriving DecidableEq, Repr

def McpLedger.count (l : McpLedger ι) (id : String) : IdPlace → Nat
  | .held => (l.held.map (·.2)).count id
  | .stored => (sessionIds l.state.sessions).count id
  | .terminated => l.terminated.count id
  | .dropped => l.dropped.count id

/-- A call is at its last critical section less than `sessionIdleTTL` after its
handshake began. -/
def shortAct (l : McpLedger ι) : McpAct ι → Bool
  | .store i since _ => match l.state.phase i with
    | .storing _ _ => since - l.began i < sessionIdleTTL
    | _ => true
  | _ => true

/-- Every handshake is shorter than `sessionIdleTTL`. -/
def ShortHandshakes (req : ι → ActionRequest) (acts : List (McpAct ι)) : Prop :=
  ∀ pre a, pre ++ [a] <+: acts → shortAct (ledgerRun req pre) a = true

end Model

namespace McpLedgerLemmas

open McpLemmas McpKeptLemmas

variable {ι : Type} [DecidableEq ι] {key : ι → String} {req : ι → ActionRequest}
  {s : McpState ι} {l l' : McpLedger ι} {a : McpAct ι} {acts : List (McpAct ι)}
variable {i : ι} {m : GoMap McpSession} {id : String} {p : McpPhase} {k : String} {x : McpSession}

/-! ## The ids of the map -/

theorem sessionIds_lookup (h : m.lookup k = some x) :
    (sessionIds m).Perm (x.id :: sessionIds (m.erase k)) := by
  have hkey : k ∈ m.entries.keys := AList.lookup_isSome.mp (by rw [h]; rfl)
  obtain ⟨y, l₁, l₂, hnot, hentries, herase⟩ := List.exists_of_kerase hkey
  have hx : y = x := by
    have hmem : Sigma.mk k y ∈ m.entries := by rw [hentries]; simp
    exact Option.some.inj ((List.mem_dlookup m.nodupKeys hmem).symm.trans h)
  change (m.entries.map (·.2.id)).Perm (x.id :: (m.entries.kerase k).map (·.2.id))
  rw [herase, hentries, hx, List.map_append, List.map_cons, List.map_append]
  exact List.perm_middle

theorem sessionIds_erase_of_none (h : m.lookup k = none) :
    sessionIds (m.erase k) = sessionIds m := by
  have hkey : k ∉ m.entries.keys := AList.lookup_eq_none.mp h
  change (m.entries.kerase k).map (·.2.id) = m.entries.map (·.2.id)
  rw [List.kerase_of_notMem_keys hkey]

theorem sessionIds_take (f : String → McpSession → Bool) (m : GoMap McpSession) :
    (sessionIds m).Perm (takenIds f m ++ sessionIds (takeSessions f m)) := by
  unfold sessionIds takenIds takeSessions
  rw [← List.map_append]
  refine List.Perm.map _ ?_
  have h := List.filter_append_perm (fun e : (_ : String) × McpSession => f e.1 e.2) m.entries
  simpa using h.symm

theorem sessionIds_touch (h : m.lookup k = some x) (used : Int) :
    (sessionIds (m.insert k ⟨x.id, used⟩)).Perm (sessionIds m) :=
  (sessionIds_lookup h).symm

/-! ## One step -/

def Holds (s : McpState ι) (i : ι) (id : String) : Prop := ∃ retry, s.phase i = .storing retry id

/-- What a step moves. -/
inductive Flow (key : ι → String) (l l' : McpLedger ι) : Prop
  /-- Ids leave the map and are terminated; none if nothing moves. -/
  | take (ids : List String) : l'.state.issued = l.state.issued → l'.held = l.held →
      (sessionIds l.state.sessions).Perm (ids ++ sessionIds l'.state.sessions) →
      l'.terminated = l.terminated ++ ids → l'.dropped = l.dropped →
      (∀ j id, Holds l'.state j id ↔ Holds l.state j id) → Flow key l l'
  | opens (i : ι) (id : String) : l'.state.issued = l.state.issued ++ [(key i, id)] →
      l'.held = l.held ++ [(i, id)] →
      sessionIds l'.state.sessions = sessionIds l.state.sessions →
      l'.terminated = l.terminated → l'.dropped = l.dropped →
      (∀ j id', Holds l'.state j id' ↔ (j = i ∧ id' = id) ∨ Holds l.state j id') → Flow key l l'
  /-- An id goes from a call to the map or to be terminated. -/
  | settle (i : ι) (id : String) (stored terminated : List String) :
      stored ++ terminated = [id] → Holds l.state i id →
      l'.state.issued = l.state.issued → l'.held = l.held.erase (i, id) →
      (sessionIds l'.state.sessions).Perm (stored ++ sessionIds l.state.sessions) →
      l'.terminated = l.terminated ++ terminated → l'.dropped = l.dropped →
      (∀ j id', Holds l'.state j id' ↔ j ≠ i ∧ Holds l.state j id') → Flow key l l'
  | drop (id : String) : l'.state.issued = l.state.issued → l'.held = l.held →
      (sessionIds l.state.sessions).Perm (id :: sessionIds l'.state.sessions) →
      l'.terminated = l.terminated → l'.dropped = l.dropped ++ [id] →
      (∀ j id, Holds l'.state j id ↔ Holds l.state j id) → Flow key l l'

theorem holds_goto {j : ι} :
    Holds (s.goto i p) j id ↔
      (j = i ∧ ∃ retry, p = .storing retry id) ∨ (j ≠ i ∧ Holds s j id) := by
  unfold Holds
  by_cases hji : j = i
  · subst hji
    simp [goto_phase_self]
  · simp [goto_phase_ne hji, hji]

theorem holds_goto_of_not (hi : ∀ id, ¬ Holds s i id) (hp : ∀ retry id, p ≠ .storing retry id)
    (j : ι) (id : String) : Holds (s.goto i p) j id ↔ Holds s j id := by
  rw [holds_goto]
  constructor
  · rintro (⟨-, retry, h⟩ | ⟨-, h⟩)
    · exact absurd h (hp retry id)
    · exact h
  · intro h
    refine .inr ⟨?_, h⟩
    rintro rfl
    exact hi id h

omit [DecidableEq ι] in
theorem not_holds_of_phase (hi : s.phase i = p) (hp : ∀ retry id, p ≠ .storing retry id)
    (id : String) : ¬ Holds s i id := by
  rintro ⟨retry, h⟩
  exact hp retry id (hi.symm.trans h)

theorem afterEnsure_ne_storing (retry : Bool) (r : Except EnsureError String) (retry' : Bool)
    (id : String) : afterEnsure retry r ≠ .storing retry' id := by
  match r with
  | .ok _ | .error .closed => simp [afterEnsure]
  | .error .initFailed => cases retry <;> simp [afterEnsure]

/-- The entry that a call finds at its last critical section is live. -/
def Unspoiled (key : ι → String) (s : McpState ι) : McpAct ι → Prop
  | .store i since _ => ∀ retry id, s.phase i = .storing retry id →
      ∀ m, s.sessions.lookup (key i) = some m → m.live since = true
  | _ => True

theorem Flow.still (hstate : l'.state.issued = l.state.issued)
    (hids : (sessionIds l.state.sessions).Perm (sessionIds l'.state.sessions))
    (hheld : l'.held = l.held) (hterm : l'.terminated = l.terminated)
    (hdrop : l'.dropped = l.dropped)
    (hholds : ∀ j id, Holds l'.state j id ↔ Holds l.state j id) : Flow key l l' :=
  .take [] hstate hheld hids (by rw [hterm, List.append_nil]) hdrop hholds

theorem idle_flow (hstate : mcpStep key l.state a = l.state)
    (hheld : heldAfter l.state l.held a = l.held) (hterm : terminates key l.state a = [])
    (hdrop : drops key l.state a = []) :
    Flow key l (ledgerStep key l a) := by
  refine .still ?_ ?_ hheld ?_ ?_ fun j id => ?_
  · exact congrArg McpState.issued hstate
  · exact .of_eq (congrArg (fun s => sessionIds s.sessions) hstate).symm
  · exact (congrArg (l.terminated ++ ·) hterm).trans (List.append_nil _)
  · exact (congrArg (l.dropped ++ ·) hdrop).trans (List.append_nil _)
  · exact .of_eq (congrArg (fun s => Holds s j id) hstate)

theorem lookup_flow {before since used : Int} :
    Flow key l (ledgerStep key l (.lookup i before since used)) := by
  obtain ⟨s, held, terminated, dropped, began⟩ := l
  have hnil : ∀ ids : List String, ids ++ [] = ids := List.append_nil
  cases hi : s.phase i with
  | ready retry =>
    have hnot := not_holds_of_phase hi (by simp)
    simp only [ledgerStep, mcpStep, terminates, drops, heldAfter, hi, lookupSession, hnil]
    split
    · exact .still rfl (.refl _) rfl (hnil _) rfl
        (holds_goto_of_not hnot (afterEnsure_ne_storing _ _))
    split
    · exact .still rfl (.refl _) rfl (hnil _) rfl
        (holds_goto_of_not hnot (afterEnsure_ne_storing _ _))
    cases hm : s.sessions.lookup (key i) with
    | none => exact .still rfl (.refl _) rfl (hnil _) rfl (holds_goto_of_not hnot (by simp))
    | some m =>
      dsimp only
      cases hlive : m.live since with
      | true =>
        exact .still rfl (sessionIds_touch hm used).symm rfl (hnil _) rfl
          (holds_goto_of_not hnot (afterEnsure_ne_storing _ _))
      | false =>
        exact .take [m.id] rfl rfl (sessionIds_lookup hm) rfl rfl
          (holds_goto_of_not hnot (by simp))
  | _ =>
    exact idle_flow (by simp only [mcpStep, hi]) rfl (by simp only [terminates, hi]) rfl

theorem holds_goto_of_held (hp : ∀ retry id, p ≠ .storing retry id) (j : ι) (id : String) :
    Holds (s.goto i p) j id ↔ j ≠ i ∧ Holds s j id := by
  rw [holds_goto]
  constructor
  · rintro (⟨-, retry, h⟩ | h)
    · exact absurd h (hp retry id)
    · exact h
  · exact .inr

theorem store_flow {since used : Int} (hok : Unspoiled key l.state (.store i since used)) :
    Flow key l (ledgerStep key l (.store i since used)) := by
  obtain ⟨s, held, terminated, dropped, began⟩ := l
  have hnil : ∀ ids : List String, ids ++ [] = ids := List.append_nil
  cases hi : s.phase i with
  | storing retry id =>
    have hheld : Holds s i id := ⟨retry, hi⟩
    have hlive := hok retry id hi
    simp only [ledgerStep, mcpStep, terminates, drops, heldAfter, hi, storeSession, hnil]
    split
    · exact .settle i id [] [id] rfl hheld rfl rfl (.refl _) rfl rfl
        (holds_goto_of_held (afterEnsure_ne_storing _ _))
    cases hm : s.sessions.lookup (key i) with
    | none =>
      refine .settle i id [id] [] rfl hheld rfl rfl ?_ rfl rfl
        (holds_goto_of_held (afterEnsure_ne_storing _ _))
      exact .of_eq (congrArg (id :: ·) (sessionIds_erase_of_none hm))
    | some m =>
      simp only [hlive m hm, if_true]
      exact .settle i id [] [id] rfl hheld rfl rfl (sessionIds_touch hm used) rfl rfl
        (holds_goto_of_held (afterEnsure_ne_storing _ _))
  | _ =>
    exact idle_flow (by simp only [mcpStep, hi]) (by simp only [heldAfter, hi])
      (by simp only [terminates, hi]) rfl

theorem initialized_flow {answer : McpAnswer} :
    Flow key l (ledgerStep key l (.initialized i answer)) := by
  obtain ⟨s, held, terminated, dropped, began⟩ := l
  have hnil : ∀ ids : List String, ids ++ [] = ids := List.append_nil
  cases hi : s.phase i with
  | handshake retry =>
    have hnot := not_holds_of_phase hi (by simp)
    simp only [ledgerStep, mcpStep, terminates, drops, heldAfter, hi, finishInitialize, hnil]
    rcases initializeSession_cases answer with ⟨failed, hans⟩ | hans | ⟨id, -, hans⟩
    · rw [hans]
      exact .still rfl (.refl _) rfl rfl rfl (holds_goto_of_not hnot (by simp))
    · rw [hans]
      exact .still rfl (.refl _) rfl rfl rfl
        (holds_goto_of_not hnot (afterEnsure_ne_storing _ _))
    · rw [hans]
      refine .opens i id rfl rfl rfl rfl rfl fun j id' => ?_
      refine holds_goto.trans (or_congr ?_ ?_)
      · simp [eq_comm]
      · refine ⟨fun h => h.2, fun h => ⟨?_, h⟩⟩
        rintro rfl
        exact hnot id' h
  | _ =>
    exact idle_flow (by simp only [mcpStep, hi]) (by simp only [heldAfter, hi]) rfl rfl

theorem drop_flow : Flow key l (ledgerStep key l (.drop i)) := by
  obtain ⟨s, held, terminated, dropped, began⟩ := l
  have hnil : ∀ ids : List String, ids ++ [] = ids := List.append_nil
  cases hi : s.phase i with
  | dropping id =>
    have hholds : ∀ (m : GoMap McpSession) j id',
        Holds ({ s with sessions := m }.goto i (.ready true)) j id' ↔ Holds s j id' := fun m =>
      holds_goto_of_not (s := { s with sessions := m }) (not_holds_of_phase hi (by simp)) (by simp)
    simp only [ledgerStep, mcpStep, terminates, drops, heldAfter, hi, dropSession, hnil]
    cases hm : s.sessions.lookup (key i) with
    | none => exact .still rfl (.refl _) rfl rfl (hnil _) (hholds _)
    | some m =>
      dsimp only
      split
      · next hid =>
        refine .drop id rfl rfl ?_ rfl rfl (hholds _)
        rw [← hid]
        exact sessionIds_lookup hm
      · exact .still rfl (.refl _) rfl rfl (hnil _) (hholds _)
  | _ =>
    exact idle_flow (by simp only [mcpStep, hi]) rfl rfl (by simp only [drops, hi])

theorem posted_flow {answer : McpAnswer} : Flow key l (ledgerStep key l (.posted i answer)) := by
  have hsame : (mcpStep key l.state (.posted i answer)).issued = l.state.issued ∧
      (mcpStep key l.state (.posted i answer)).sessions = l.state.sessions ∧
      ∀ j id, Holds (mcpStep key l.state (.posted i answer)) j id ↔ Holds l.state j id := by
    have hmove := mcpStep_move key l.state (.posted i answer)
    generalize mcpStep key l.state (.posted i answer) = s' at hmove ⊢
    cases hmove with
    | idle => exact ⟨rfl, rfl, fun _ _ => .rfl⟩
    | @postGone _ _ id _ p hi _ hp =>
      refine ⟨rfl, rfl, ?_⟩
      refine holds_goto_of_not (s := { l.state with gone := l.state.gone ++ [id] })
        (not_holds_of_phase hi (by simp)) fun retry' id' => ?_
      rcases hp with rfl | rfl <;> simp
    | posted hi =>
      exact ⟨rfl, rfl, holds_goto_of_not (not_holds_of_phase hi (by simp)) (by simp)⟩
  refine .still hsame.1 ?_ rfl (List.append_nil _) (List.append_nil _) hsame.2.2
  exact .of_eq (congrArg sessionIds hsame.2.1).symm

theorem ledgerStep_flow (hok : Unspoiled key l.state a) : Flow key l (ledgerStep key l a) := by
  have hnil : ∀ ids : List String, ids ++ [] = ids := List.append_nil
  cases a with
  | lookup i before since used => exact lookup_flow
  | initialized i answer => exact initialized_flow
  | store i since used => exact store_flow hok
  | drop i => exact drop_flow
  | mark i now =>
    cases hi : l.state.phase i with
    | sessionless retry failed =>
      refine .still ?_ ?_ rfl (hnil _) (hnil _) ?_
      all_goals simp only [ledgerStep, mcpStep, hi]
      · rfl
      · exact .refl _
      · exact holds_goto_of_not (s := { l.state with sessionlessUntil := now + sessionIdleTTL })
          (not_holds_of_phase hi (by simp)) (afterEnsure_ne_storing _ _)
    | _ => exact idle_flow (by simp only [mcpStep, hi]) rfl rfl rfl
  | posted i answer => exact posted_flow
  | sweep first now last =>
    exact .take _ rfl rfl (sessionIds_take _ _) rfl (hnil _) fun _ _ => .rfl
  | close => exact .still rfl (.refl _) rfl (hnil _) (hnil _) fun _ _ => .rfl
  | closeTake =>
    cases hclosed : l.state.closed with
    | true =>
      refine .take (takenIds (fun _ _ => true) l.state.sessions) ?_ rfl ?_ ?_ (hnil _) ?_
      all_goals simp only [ledgerStep, mcpStep, terminates, hclosed, if_true]
      · exact sessionIds_take _ _
      · exact fun _ _ => .rfl
    | false => exact idle_flow (by simp [mcpStep, hclosed]) rfl (by simp [terminates, hclosed]) rfl

/-! ## The balance -/

/-- The opened ids are those in the four places. -/
structure Balanced (l : McpLedger ι) : Prop where
  nodup : l.opened.Nodup
  balance : ∀ id, l.opened.count id =
    l.count id .held + l.count id .stored + l.count id .terminated + l.count id .dropped
  holder : ∀ i id, (i, id) ∈ l.held ↔ Holds l.state i id

omit [DecidableEq ι] in
theorem Balanced.held_nodup (h : Balanced l) : (l.held.map (·.2)).Nodup := by
  refine List.nodup_iff_count_le_one.mpr fun id => ?_
  have hone := List.nodup_iff_count_le_one.mp h.nodup id
  have hbal := h.balance id
  change l.count id .held ≤ 1
  omega

omit [DecidableEq ι] in
theorem opened_of_issued (h : l'.state.issued = l.state.issued) : l'.opened = l.opened := by
  unfold McpLedger.opened
  rw [h]

theorem balanced_flow (h : Balanced l) (hflow : Flow key l l')
    (hfresh : ∀ k id, l'.state.issued = l.state.issued ++ [(k, id)] → id ∉ l.opened) :
    Balanced l' := by
  cases hflow with
  | take ids hissued hheld hids hterm hdrop hholds =>
    have hopened := opened_of_issued hissued
    refine ⟨hopened ▸ h.nodup, fun id => ?_, fun i id => ?_⟩
    · have hbal := h.balance id
      have hcount := hids.count_eq id
      simp only [McpLedger.count, hopened, hheld, hterm, hdrop, List.count_append] at hbal hcount ⊢
      omega
    · rw [hheld, h.holder, hholds]
  | drop dropped hissued hheld hids hterm hdrop hholds =>
    have hopened := opened_of_issued hissued
    refine ⟨hopened ▸ h.nodup, fun id => ?_, fun i id => ?_⟩
    · have hbal := h.balance id
      have hcount := hids.count_eq id
      simp only [McpLedger.count, hopened, hheld, hterm, hdrop, List.count_append,
        List.count_cons, List.count_nil] at hbal hcount ⊢
      omega
    · rw [hheld, h.holder, hholds]
  | opens i new hissued hheld hids hterm hdrop hholds =>
    have hopened : l'.opened = l.opened ++ [new] := by
      unfold McpLedger.opened
      rw [hissued, List.map_append, List.map_singleton]
    refine ⟨?_, fun id => ?_, fun j id => ?_⟩
    · rw [hopened]
      exact List.Nodup.append h.nodup (List.nodup_singleton _)
        (List.disjoint_singleton.mpr (hfresh _ _ hissued))
    · have hbal := h.balance id
      simp only [McpLedger.count, hopened, hheld, hids, hterm, hdrop, List.count_append,
        List.map_append, List.map_singleton] at hbal ⊢
      omega
    · rw [hheld, hholds, List.mem_append, List.mem_singleton, h.holder, Prod.mk.injEq, or_comm]
  | settle i done stored terminated heq hi hissued hheld hids hterm hdrop hholds =>
    have hopened := opened_of_issued hissued
    have hmem : (i, done) ∈ l.held := (h.holder i done).mpr hi
    refine ⟨hopened ▸ h.nodup, fun id => ?_, fun j id => ?_⟩
    · have hbal := h.balance id
      have hcount := hids.count_eq id
      have hone := congrArg (List.count id) heq
      have herase := ((List.perm_cons_erase hmem).map (·.2)).count_eq id
      simp only [McpLedger.count, hopened, hheld, hterm, hdrop, List.count_append, List.map_cons,
        List.count_cons, List.count_nil] at hbal hcount hone herase ⊢
      omega
    · -- a call holds one id at most
      have hpair : l.held.Nodup := h.held_nodup.of_map
      rw [hheld, hpair.mem_erase_iff, h.holder, hholds]
      refine and_congr_left fun hj => not_congr ⟨fun he => (Prod.mk.inj he).1, ?_⟩
      rintro rfl
      obtain ⟨retry, hphase⟩ := hj
      obtain ⟨retry', hphase'⟩ := hi
      rw [hphase] at hphase'
      rw [(McpPhase.storing.inj hphase').2]

/-! ## Handshakes and the clock -/

/-- The call is between its two critical sections, on the way to an id. -/
def InHandshake (p : McpPhase) : Prop :=
  (∃ retry, p = .handshake retry) ∨ ∃ retry id, p = .storing retry id

theorem not_inHandshake_afterEnsure (retry : Bool) (r : Except EnsureError String) :
    ¬ InHandshake (afterEnsure retry r) := by
  rintro (⟨_, h⟩ | ⟨_, _, h⟩)
  · match r with
    | .ok _ | .error .closed => cases h
    | .error .initFailed => cases retry <;> cases h
  · exact afterEnsure_ne_storing _ _ _ _ h

theorem inHandshake_step (h : InHandshake ((mcpStep key s a).phase i)) :
    InHandshake (s.phase i) ∨ ∃ before since used retry, a = .lookup i before since used ∧
      s.phase i = .ready retry ∧ (mcpStep key s a).sessions.lookup (key i) = none := by
  have hmove := mcpStep_move key s a
  generalize mcpStep key s a = s' at hmove h ⊢
  cases hmove with
  | idle | sweep | close | closeTake => exact .inl h
  | lookupNone hi hnone =>
    rcases goto_phase_of InHandshake h with ⟨rfl, -⟩ | h
    · exact .inr ⟨_, _, _, _, rfl, hi, hnone⟩
    · exact .inl h
  | lookupIdle hi hm =>
    rcases goto_phase_of InHandshake h with ⟨rfl, -⟩ | h
    · exact .inr ⟨_, _, _, _, rfl, hi, AList.lookup_erase _ _⟩
    · exact .inl h
  | initialized hi =>
    rcases goto_phase_of InHandshake h with ⟨rfl, -⟩ | h
    · exact .inl (.inl ⟨_, hi⟩)
    · exact .inl h
  | initFailed | mark =>
    exact .inl ((goto_phase_of InHandshake h).resolve_left
      fun hp => not_inHandshake_afterEnsure _ _ hp.2)
  | postGone _ _ hp =>
    refine .inl ((goto_phase_of InHandshake h).resolve_left fun hd => ?_)
    rcases hp with rfl | rfl <;> simp [InHandshake] at hd
  | _ =>
    exact .inl ((goto_phase_of InHandshake h).resolve_left fun hp => by simp [InHandshake] at hp)

theorem beganAfter_of_inHandshake (h : InHandshake (s.phase i)) (began : ι → Int) :
    beganAfter s began a i = began i := by
  cases a with
  | lookup j before since used =>
    cases hj : s.phase j with
    | ready retry =>
      have hne : i ≠ j := by
        rintro rfl
        rw [hj] at h
        simp [InHandshake] at h
      simp only [beganAfter, hj]
      exact Function.update_of_ne hne ..
    | _ => simp only [beganAfter, hj]
  | _ => rfl

/-- An entry for the key of a call in its handshake was used since the handshake
began, and that is a time the clock has passed. -/
structure Recent (key : ι → String) (l : McpLedger ι) (readings : List Int) : Prop where
  read : ∀ i, InHandshake (l.state.phase i) → l.began i ∈ readings
  used : ∀ i, InHandshake (l.state.phase i) → ∀ x, l.state.sessions.lookup (key i) = some x →
    l.began i ≤ x.lastUsed

/-- An entry for the key of a call in its handshake was used after the handshake began. -/
theorem recent_step {rs : List Int} (h : Recent key l rs)
    (hclock : ∀ r ∈ rs, ∀ t ∈ a.readings, r ≤ t) :
    Recent key (ledgerStep key l a) (rs ++ a.readings) := by
  have hbegan : ∀ i, InHandshake (l.state.phase i) → (ledgerStep key l a).began i = l.began i :=
    fun i hi => beganAfter_of_inHandshake hi _
  constructor
  · intro i hi
    rcases inHandshake_step hi with hbefore | ⟨before, since, used, retry, rfl, hready, -⟩
    · rw [hbegan i hbefore]
      exact List.mem_append_left _ (h.read i hbefore)
    · have hused : (ledgerStep key l (.lookup i before since used)).began i = used := by
        simp [ledgerStep, beganAfter, hready]
      rw [hused]
      exact List.mem_append_right _ (by simp [McpAct.readings])
  · intro i hi x hx
    rcases inHandshake_step hi with hbefore | ⟨_, _, _, _, _, _, hnone⟩
    · rw [hbegan i hbefore]
      have hread := h.read i hbefore
      rcases sessions_step hx with hx | ⟨j, before, since, rfl, -⟩ | ⟨j, since, _, _, rfl, -⟩
      · exact h.used i hbefore x hx
      · exact hclock _ hread _ (by simp [McpAct.readings])
      · exact hclock _ hread _ (by simp [McpAct.readings])
    · exact absurd (hnone.symm.trans hx) (by simp)

omit [DecidableEq ι] in
theorem unspoiled_of_short {rs : List Int} (h : Recent key l rs) (hshort : shortAct l a = true) :
    Unspoiled key l.state a := by
  cases a with
  | store i since used =>
    intro retry id hi m hm
    have hused := h.used i (.inr ⟨retry, id, hi⟩) m hm
    have hlt : since - l.began i < sessionIdleTTL := by simpa [shortAct, hi] using hshort
    exact decide_eq_true (lt_of_le_of_lt (Int.sub_le_sub_left hused since) hlt)
  | _ => trivial

/-! ## Runs -/

theorem ledgerRun_snoc (pre : List (McpAct ι)) (a : McpAct ι) :
    ledgerRun req (pre ++ [a]) = ledgerStep (fun i => sessionKey (req i)) (ledgerRun req pre) a :=
  Runs.run_snoc _ _ pre a

theorem ledgerRun_state (acts : List (McpAct ι)) :
    (ledgerRun req acts).state = mcpRun req acts := by
  induction acts using List.reverseRecOn with
  | nil => rfl
  | append_singleton pre a ih =>
    rw [ledgerRun_snoc, mcpRun_snoc, ← ih]
    rfl

theorem issued_step {k id : String} (h : (mcpStep key s a).issued = s.issued ++ [(k, id)])
    (hfresh : freshAct s a = true) : id ∉ s.issued.map (·.2) := by
  rcases mcpStep_cases key s a with hf | ⟨i, retry, m, used, hm, he⟩ |
    ⟨i, retry, answer, id', rfl, hans, he⟩ | ⟨i, retry, id', used, hi, he⟩
  · rw [hf.issued] at h
    simp at h
  · rw [he] at h
    simp [McpState.goto] at h
  · rw [he] at h
    have hid : (key i, id') = (k, id) := List.singleton_inj.mp (List.append_cancel_left h)
    have hnew : id' ∉ s.issued.map (·.2) := by simpa [freshAct, hans] using hfresh
    rwa [(Prod.mk.inj hid).2] at hnew
  · rw [he] at h
    simp [McpState.goto] at h

/-- What a step of the run assumes about the clock, the handshake and the id. -/
structure LedgerOk (req : ι → ActionRequest) (pre : List (McpAct ι)) (a : McpAct ι) : Prop where
  clock : ∀ r ∈ pre.flatMap McpAct.readings, ∀ t ∈ a.readings, r ≤ t
  short : shortAct (ledgerRun req pre) a = true
  fresh : freshAct (mcpRun req pre) a = true

theorem ledgerOk_of_run (hfresh : FreshIds req acts) (hclock : McpClock acts)
    (hshort : ShortHandshakes req acts) {pre : List (McpAct ι)} {a : McpAct ι}
    (h : pre ++ [a] <+: acts) : LedgerOk req pre a where
  clock := by
    obtain ⟨rest, rfl⟩ := h
    have hsorted := hclock.1
    rw [List.append_assoc, List.flatMap_append] at hsorted
    intro r hr t ht
    exact (List.pairwise_append.mp hsorted).2.2 r hr t (by simp [ht])
  short := hshort pre a h
  fresh := hfresh pre a h

theorem ledger_run (hok : ∀ pre a, pre ++ [a] <+: acts → LedgerOk req pre a) :
    Balanced (ledgerRun req acts) ∧
      Recent (fun i => sessionKey (req i)) (ledgerRun req acts)
        (acts.flatMap McpAct.readings) := by
  refine Runs.run_invariant (fun pre => Balanced (ledgerRun req pre) ∧
      Recent (fun i => sessionKey (req i)) (ledgerRun req pre) (pre.flatMap McpAct.readings))
    _ ⟨⟨List.nodup_nil, fun _ => rfl, fun i id => ?_⟩, ⟨fun i h => ?_, fun i h => ?_⟩⟩
    (fun pre a hok h => ?_) hok
  · simp [ledgerRun, McpLedger.new, McpState.new, Holds]
  · simp [ledgerRun, McpLedger.new, McpState.new, InHandshake] at h
  · simp [ledgerRun, McpLedger.new, McpState.new, InHandshake] at h
  · obtain ⟨hbal, hrecent⟩ := h
    rw [ledgerRun_snoc, List.flatMap_append, List.flatMap_singleton]
    refine ⟨balanced_flow hbal (ledgerStep_flow (unspoiled_of_short hrecent hok.short)) ?_,
      recent_step hrecent hok.clock⟩
    intro k id hid
    exact issued_step hid (ledgerRun_state pre ▸ hok.fresh)

/-! ## After `Close` -/

theorem closed_mono (h : s.closed = true) : (mcpStep key s a).closed = true := by
  by_cases ha : a = .close
  · rw [ha]
    rfl
  · rw [closed_step ha]
    exact h

theorem closed_sessions_step (hclosed : s.closed = true)
    (h : (mcpStep key s a).sessions.lookup k = some x) : s.sessions.lookup k = some x := by
  rcases sessions_step h with hx | ⟨i, before, since, rfl, -⟩ | ⟨i, since, retry, id, rfl, hi⟩
  · exact hx
  · cases hi : s.phase i with
    | ready retry =>
      simp only [mcpStep, hi, lookupSession, hclosed, if_true] at h
      exact h
    | _ => simpa only [mcpStep, hi] using h
  · simp only [mcpStep, hi, storeSession, hclosed, if_true] at h
    exact h

/-- Closed, and with an empty map. -/
structure Emptied (l : McpLedger ι) : Prop where
  closed : l.state.closed = true
  empty : ∀ k, l.state.sessions.lookup k = none

theorem emptied_step (h : Emptied l) : Emptied (ledgerStep key l a) := by
  refine ⟨closed_mono h.closed, fun k => Option.eq_none_iff_forall_not_mem.mpr fun x hx => ?_⟩
  have hbefore := closed_sessions_step h.closed hx
  rw [h.empty] at hbefore
  cases hbefore

omit [DecidableEq ι] in
theorem drops_of_emptied (h : Emptied l) : drops key l.state a = [] := by
  cases a with
  | drop i => cases hi : l.state.phase i <;> simp [drops, hi, h.empty]
  | _ => rfl

theorem emptied_closeTake (h : l.state.closed = true) : Emptied (ledgerStep key l .closeTake) := by
  refine ⟨closed_mono h, fun k => Option.eq_none_iff_forall_not_mem.mpr fun x hx => ?_⟩
  simp only [ledgerStep, mcpStep, h, if_true] at hx
  simpa using (lookup_takeSessions.mp hx).2

theorem emptied_run {pre : List (McpAct ι)} (h : (ledgerRun req pre).state.closed = true)
    (post : List (McpAct ι)) :
    Emptied (ledgerRun req (pre ++ .closeTake :: post)) ∧
      (ledgerRun req (pre ++ .closeTake :: post)).dropped = (ledgerRun req pre).dropped := by
  induction post using List.reverseRecOn with
  | nil =>
    rw [ledgerRun_snoc]
    exact ⟨emptied_closeTake h, List.append_nil _⟩
  | append_singleton post a ih =>
    obtain ⟨hempty, hdropped⟩ := ih
    rw [← List.cons_append, ← List.append_assoc, ledgerRun_snoc]
    refine ⟨emptied_step hempty, Eq.trans ?_ hdropped⟩
    change _ ++ drops _ _ a = _
    rw [drops_of_emptied hempty, List.append_nil]

omit [DecidableEq ι] in
theorem terminates_of_closed (hclosed : s.closed = true) (hi : Holds s i id) (since used : Int) :
    terminates key s (.store i since used) = [id] := by
  obtain ⟨retry, hi⟩ := hi
  simp only [terminates, hi, hclosed, if_true]

/-! ## Exactly one place -/

omit [DecidableEq ι] in
theorem Balanced.one_place (h : Balanced l) (hid : id ∈ l.opened) :
    ∃ p, l.count id p = 1 ∧ ∀ q, q ≠ p → l.count id q = 0 := by
  have hone : l.opened.count id = 1 := List.count_eq_one_of_mem h.nodup hid
  have hsum := h.balance id
  rw [hone] at hsum
  by_cases hh : l.count id .held = 1
  · refine ⟨.held, hh, fun q hq => ?_⟩
    cases q <;> first | exact absurd rfl hq | omega
  by_cases hs : l.count id .stored = 1
  · refine ⟨.stored, hs, fun q hq => ?_⟩
    cases q <;> first | exact absurd rfl hq | omega
  by_cases ht : l.count id .terminated = 1
  · refine ⟨.terminated, ht, fun q hq => ?_⟩
    cases q <;> first | exact absurd rfl hq | omega
  · refine ⟨.dropped, by omega, fun q hq => ?_⟩
    cases q <;> first | exact absurd rfl hq | omega

omit [DecidableEq ι] in
theorem Balanced.dropped_opened (h : Balanced l) (hid : id ∈ l.dropped) : id ∈ l.opened := by
  have hpos : 0 < l.count id .dropped := List.count_pos_iff.mpr hid
  have hsum := h.balance id
  exact List.count_pos_iff.mp (by omega)

omit [DecidableEq ι] in
theorem sessions_of_emptied (h : Emptied l) : l.state.sessions = ∅ := by
  refine AList.ext (List.eq_nil_iff_forall_not_mem.mpr fun e he => ?_)
  have hlookup := AList.mem_lookup_iff.mpr he
  rw [h.empty] at hlookup
  cases hlookup

omit [DecidableEq ι] in
theorem Balanced.held_or_terminated (h : Balanced l) (hempty : Emptied l) (hid : id ∈ l.opened)
    (hdrop : id ∉ l.dropped) : (∃ i, (i, id) ∈ l.held) ∨ id ∈ l.terminated := by
  have hpos := List.count_pos_iff.mpr hid
  have hsum := h.balance id
  have hdropped : l.count id .dropped = 0 := List.count_eq_zero.mpr hdrop
  have hstored : l.count id .stored = 0 := by
    unfold McpLedger.count
    rw [sessions_of_emptied hempty]
    rfl
  by_cases hterm : id ∈ l.terminated
  · exact .inr hterm
  · have hzero : l.count id .terminated = 0 := List.count_eq_zero.mpr hterm
    have hheld : id ∈ l.held.map (·.2) := List.count_pos_iff.mp (by
      change 0 < l.count id .held
      omega)
    obtain ⟨⟨i, id'⟩, hmem, rfl⟩ := List.mem_map.mp hheld
    exact .inl ⟨i, hmem⟩

theorem shortHandshakes_of_forall
    (h : ∀ n (hn : n < acts.length), shortAct (ledgerRun req (acts.take n)) acts[n] = true) :
    ShortHandshakes req acts :=
  Runs.forall_steps h

end McpLedgerLemmas

open McpLedgerLemmas in
/-- For any interleaving of requests, sweeps and `Close`, with a server that never
issues an id twice and handshakes shorter than `sessionIdleTTL`: every id that a
handshake returned is once in exactly one place, and the calls that hold an id are
those at their last critical section with it. Once `Close` has taken the
sessions, the map stays empty; an id that is opened later is held by its call
until it is terminated, and is terminated at the call's last critical section. -/
theorem mcp_sessions_accounted {ι : Type} [DecidableEq ι] (req : ι → ActionRequest)
    (acts : List (McpAct ι)) (hfresh : FreshIds req acts) (hclock : McpClock acts)
    (hshort : ShortHandshakes req acts) :
    (∀ id ∈ (ledgerRun req acts).opened, ∃ p, (ledgerRun req acts).count id p = 1 ∧
      ∀ q, q ≠ p → (ledgerRun req acts).count id q = 0) ∧
    (∀ i id, (i, id) ∈ (ledgerRun req acts).held ↔
      ∃ retry, (ledgerRun req acts).state.phase i = .storing retry id) ∧
    ∀ pre post, acts = pre ++ .closeTake :: post → (ledgerRun req pre).state.closed = true →
      (ledgerRun req acts).state.sessions = ∅ ∧
      (∀ id ∈ (ledgerRun req acts).opened, id ∉ (ledgerRun req pre).opened →
        (∃ i, (i, id) ∈ (ledgerRun req acts).held) ∨ id ∈ (ledgerRun req acts).terminated) ∧
      ∀ i id since used, (i, id) ∈ (ledgerRun req acts).held →
        id ∈ (ledgerRun req (acts ++ [.store i since used])).terminated := by
  have hok : ∀ pre a, pre ++ [a] <+: acts → LedgerOk req pre a := fun _ _ =>
    ledgerOk_of_run hfresh hclock hshort
  have hbal := (ledger_run hok).1
  refine ⟨fun id hid => hbal.one_place hid, hbal.holder, fun pre post hacts hclosed => ?_⟩
  subst hacts
  obtain ⟨hempty, hdropped⟩ := emptied_run hclosed post
  refine ⟨sessions_of_emptied hempty, fun id hid hlater => ?_, fun i id since used hheld => ?_⟩
  · refine hbal.held_or_terminated hempty hid fun hdrop => hlater ?_
    -- what was dropped was dropped, and so opened, before `Close`
    have hpre := (ledger_run fun p b hp => hok p b (hp.trans (List.prefix_append pre _))).1
    exact hpre.dropped_opened (hdropped ▸ hdrop)
  · rw [ledgerRun_snoc]
    refine List.mem_append_right _ ?_
    rw [terminates_of_closed hempty.closed ((hbal.holder i id).mp hheld)]
    exact List.mem_singleton.mpr rfl

def closedRun : List (McpAct Bool) := staleDrop ++ [.drop false, .close]

theorem mcp_sessions_accounted_closed :
    (∃ p, (ledgerRun (fun _ => conversation "a") (closedRun ++ [.closeTake])).count "s1" p = 1 ∧
      ∀ q, q ≠ p → (ledgerRun (fun _ => conversation "a")
        (closedRun ++ [.closeTake])).count "s1" q = 0) ∧
    (ledgerRun (fun _ => conversation "a") (closedRun ++ [.closeTake])).state.sessions = ∅ := by
  have h := mcp_sessions_accounted (fun _ => conversation "a") (closedRun ++ [.closeTake])
    (McpLemmas.freshIds_of_forall (by decide +kernel))
    ⟨by decide +kernel, by simp [closedRun, staleDrop, McpAct.Timely]⟩
    (McpLedgerLemmas.shortHandshakes_of_forall (by decide +kernel))
  exact ⟨h.1 "s1" (by decide +kernel), (h.2.2 closedRun [] rfl (by decide +kernel)).1⟩

end Forager
