import Forager.McpSession

/-!
# Keeping an MCP session

Whether a conversation that is not idle keeps its session. The deadline
`sessionlessUntil` belongs to the whole proxy: one handshake that the server
answers without sessions, or with a 4xx, takes the sessions of all other
conversations out of use. A handshake that fails does the same to one request.
-/

namespace Forager

open GoTime Go

namespace McpAct

variable {ι : Type}

def readings : McpAct ι → List Int
  | lookup _ before since used => [before, since, used]
  | mark _ now => [now]
  | store _ since used => [since, used]
  | sweep first _ last => [first, last]
  | initialized _ _ | posted _ _ | drop _ | close | closeTake => []

/-- A sweep reads the clock between its start and its end. -/
def Timely : McpAct ι → Prop
  | sweep first now last => ∀ k, first ≤ now k ∧ now k ≤ last
  | _ => True

end McpAct

section Statement

variable {ι : Type} [DecidableEq ι]

def McpClock (acts : List (McpAct ι)) : Prop :=
  (acts.flatMap McpAct.readings).Pairwise (· ≤ ·) ∧ ∀ a ∈ acts, a.Timely

/-- In this step, the session `id` of the conversation `k` is found idle for too
long, a 404 is answered to a request with it, or the proxy is closed. -/
def SessionEnds (k id : String) (s : McpState ι) (a : McpAct ι) : Prop :=
  (∃ used, s.sessions.lookup k = some ⟨id, used⟩ ∧
    ∃ r ∈ a.readings, sessionIdleTTL ≤ r - used) ∨
  (∃ i answer retry, a = .posted i answer ∧ s.phase i = .posting retry id ∧
    sessionGone answer id = true) ∨
  a = .close

/-- The map held `id` for `k` at some time, and nothing has ended it since. -/
inductive SessionHeld (req : ι → ActionRequest) (k id : String) : List (McpAct ι) → Prop
  | start {pre : List (McpAct ι)} (used : Int) :
      (mcpRun req pre).sessions.lookup k = some ⟨id, used⟩ → (mcpRun req pre).closed = false →
      id ∉ (mcpRun req pre).gone → SessionHeld req k id pre
  | step {pre : List (McpAct ι)} {a : McpAct ι} :
      SessionHeld req k id pre → ¬ SessionEnds k id (mcpRun req pre) a →
      SessionHeld req k id (pre ++ [a])

/-- With this step, the call `i` posts its request with `id`. -/
def Posts (key : ι → String) (s : McpState ι) (a : McpAct ι) (i : ι) (id : String) : Prop :=
  (∀ retry id', s.phase i ≠ .posting retry id') ∧
    ∃ retry, (mcpStep key s a).phase i = .posting retry id

/-- Every request of a conversation with a session that has not ended is posted
with the session. -/
def KeepsSession (req : ι → ActionRequest) (acts : List (McpAct ι)) : Prop :=
  ∀ pre a i id id', pre ++ [a] <+: acts → SessionHeld req (sessionKey (req i)) id pre →
    ¬ SessionEnds (sessionKey (req i)) id (mcpRun req pre) a →
    Posts (fun i => sessionKey (req i)) (mcpRun req pre) a i id' → id' = id

/-- The step does not put the sessions in the map out of use: no deadline is set
while one is live, none is stored while a deadline lies ahead, and no first
handshake fails while there is one for its key. -/
def Undisturbed (key : ι → String) (s : McpState ι) : McpAct ι → Prop
  | .mark i now => ∀ retry failed, s.phase i = .sessionless retry failed →
      ∀ k x, s.sessions.lookup k = some x → x.live now = false
  | .store i _ used => ∀ retry id, s.phase i = .storing retry id → s.sessionlessUntil ≤ used
  | .initialized i answer => s.phase i = .handshake false →
      initializeSession answer = ("", false, true) → s.sessions.lookup (key i) = none
  | _ => True

end Statement

namespace McpKeptLemmas

open McpLemmas

variable {ι : Type} [DecidableEq ι] {key : ι → String} {req : ι → ActionRequest}
  {s : McpState ι} {a : McpAct ι} {acts : List (McpAct ι)}
variable {x : McpSession} {id : String}

/-! ## One step -/

theorem live_anti {t t' : Int} (h : t ≤ t') (hx : x.live t = false) : x.live t' = false := by
  simp only [McpSession.live, decide_eq_false_iff_not, not_lt] at hx ⊢
  exact hx.trans (Int.sub_le_sub_right h _)

theorem idle_of_not_live {t : Int} (h : x.live t = false) : sessionIdleTTL ≤ t - x.lastUsed := by
  simpa [McpSession.live] using h

theorem sessions_step {k : String} (h : (mcpStep key s a).sessions.lookup k = some x) :
    s.sessions.lookup k = some x ∨
    (∃ i before since, a = .lookup i before since x.lastUsed ∧ s.sessionlessUntil ≤ before) ∨
    (∃ i since retry id, a = .store i since x.lastUsed ∧ s.phase i = .storing retry id) := by
  have hmove := mcpStep_move key s a
  generalize mcpStep key s a = s' at hmove h
  cases hmove with
  | lookupLive _ hbefore =>
    rcases lookup_insert_some h with ⟨-, rfl⟩ | h
    · exact .inr (.inl ⟨_, _, _, rfl, hbefore⟩)
    · exact .inl h
  | storeLost hi | storeNew hi =>
    rcases lookup_insert_some h with ⟨-, rfl⟩ | h
    · exact .inr (.inr ⟨_, _, _, _, rfl, hi⟩)
    · exact .inl h
  | lookupIdle => exact .inl (lookup_erase_some h)
  | drop => exact .inl (lookup_dropSession.mp h).1
  | sweep | closeTake => exact .inl (lookup_takeSessions.mp h).1
  | _ => exact .inl h

theorem lookup_insert_kept {m : GoMap McpSession} {k k' : String} {x y : McpSession}
    (h : m.lookup k = some x) (hy : k' = k → y.id = x.id) :
    ∃ used, (m.insert k' y).lookup k = some ⟨x.id, used⟩ := by
  by_cases hk : k = k'
  · refine ⟨y.lastUsed, ?_⟩
    rw [← hk, AList.lookup_insert, ← hy hk.symm]
  · exact ⟨x.lastUsed, by rw [AList.lookup_insert_ne hk, h]⟩

theorem session_kept (key : ι → String) {k : String} (h : s.sessions.lookup k = some x)
    (htimely : a.Timely) :
    (∃ used, (mcpStep key s a).sessions.lookup k = some ⟨x.id, used⟩) ∨
    (∃ r ∈ a.readings, sessionIdleTTL ≤ r - x.lastUsed) ∨
    (∃ i, s.phase i = .dropping x.id) ∨ s.closed = true := by
  have hmove := mcpStep_move key s a
  generalize mcpStep key s a = s' at hmove ⊢
  cases hmove with
  | lookupLive _ _ hm | storeLost _ hm =>
    -- the session of the call's key is written back with its id
    refine .inl (lookup_insert_kept h fun hk => ?_)
    rw [hk, h] at hm
    rw [Option.some.inj hm]
  | @lookupIdle i _ _ since _ m _ hm hlive =>
    by_cases hk : k = key i
    · rw [← hk, h] at hm
      obtain rfl := Option.some.inj hm
      exact .inr (.inl ⟨since, by simp [McpAct.readings], idle_of_not_live hlive⟩)
    · exact .inl ⟨x.lastUsed, (AList.lookup_erase_ne hk).trans h⟩
  | @storeNew i _ _ since _ _ hnone =>
    by_cases hk : key i = k
    · have hlive := hnone x (hk ▸ h)
      exact .inr (.inl ⟨since, by simp [McpAct.readings], idle_of_not_live hlive⟩)
    · exact .inl (lookup_insert_kept h fun hk' => absurd hk' hk)
  | @drop i id hi =>
    by_cases hid : x.id = id
    · exact .inr (.inr (.inl ⟨i, by rw [hi, hid]⟩))
    · exact .inl ⟨x.lastUsed, lookup_dropSession.mpr ⟨h, fun hx => hid hx.2⟩⟩
  | sweep first now last =>
    cases hlive : x.live (now k) with
    | true => exact .inl ⟨x.lastUsed, lookup_takeSessions.mpr ⟨h, by simp [hlive]⟩⟩
    | false =>
      have hidle := idle_of_not_live hlive
      exact .inr (.inl ⟨last, by simp [McpAct.readings],
        hidle.trans (Int.sub_le_sub_right (htimely k).2 _)⟩)
  | closeTake hclosed => exact .inr (.inr (.inr hclosed))
  | _ => exact .inl ⟨x.lastUsed, h⟩

theorem sessionlessUntil_step (key : ι → String) (s : McpState ι) (a : McpAct ι) :
    (mcpStep key s a).sessionlessUntil = s.sessionlessUntil ∨
    ∃ i now retry failed, a = .mark i now ∧ s.phase i = .sessionless retry failed ∧
      (mcpStep key s a).sessions = s.sessions := by
  have hmove := mcpStep_move key s a
  generalize mcpStep key s a = s' at hmove ⊢
  cases hmove with
  | mark hi => exact .inr ⟨_, _, _, _, rfl, hi, rfl⟩
  | _ => exact .inl rfl

theorem closed_step (ha : a ≠ .close) : (mcpStep key s a).closed = s.closed := by
  have hmove := mcpStep_move key s a
  generalize mcpStep key s a = s' at hmove ⊢
  cases hmove with
  | close => exact absurd rfl ha
  | _ => rfl

theorem gone_step (h : id ∈ (mcpStep key s a).gone) :
    id ∈ s.gone ∨ ∃ i answer retry, a = .posted i answer ∧ s.phase i = .posting retry id ∧
      sessionGone answer id = true := by
  have hmove := mcpStep_move key s a
  generalize mcpStep key s a = s' at hmove h
  cases hmove with
  | postGone hi hgone =>
    rcases List.mem_append.mp h with h | h
    · exact .inl h
    · obtain rfl := List.mem_singleton.mp h
      exact .inr ⟨_, _, _, rfl, hi, hgone⟩
  | _ => exact .inl h

theorem afterEnsure_ne_dropping (retry : Bool) (r : Except EnsureError String) (id : String) :
    afterEnsure retry r ≠ .dropping id := by
  match r with
  | .ok _ | .error .closed => simp [afterEnsure]
  | .error .initFailed => cases retry <;> simp [afterEnsure]

theorem dropping_step (h : ∀ i id, s.phase i = .dropping id → id ∈ s.gone) {i : ι}
    (hi : (mcpStep key s a).phase i = .dropping id) : id ∈ (mcpStep key s a).gone := by
  have hmove := mcpStep_move key s a
  generalize mcpStep key s a = s' at hmove hi ⊢
  cases hmove with
  | idle | sweep | close | closeTake => exact h i id hi
  | postGone _ _ hp =>
    rcases goto_phase_of (· = .dropping id) hi with ⟨-, hd⟩ | hi
    · rcases hp with rfl | rfl <;> cases hd
      exact List.mem_append_right _ (List.mem_singleton.mpr rfl)
    · exact List.mem_append_left _ (h i id hi)
  | initFailed | mark =>
    rcases goto_phase_of (· = .dropping id) hi with ⟨-, hd⟩ | hi
    · exact absurd hd (afterEnsure_ne_dropping _ _ id)
    · exact h i id hi
  | _ =>
    rcases goto_phase_of (· = .dropping id) hi with ⟨-, hd⟩ | hi
    · cases hd
    · exact h i id hi

theorem goto_posting {i j : ι} {p : McpPhase} {retry : Bool}
    (h : (s.goto i p).phase j = .posting retry id)
    (hbefore : ∀ retry' id', s.phase j ≠ .posting retry' id') : j = i ∧ p = .posting retry id :=
  (goto_phase_of (· = .posting retry id) h).resolve_right (hbefore retry id)

theorem posts_cases {i : ι} (h : Posts key s a i id) :
    (∃ before since used, a = .lookup i before since used ∧ before < s.sessionlessUntil) ∨
    (∃ m, s.sessions.lookup (key i) = some m ∧ id = m.id) ∨
    (∃ answer, a = .initialized i answer ∧ s.phase i = .handshake false ∧
      initializeSession answer = ("", false, true)) ∨
    (∃ now retry failed, a = .mark i now ∧ s.phase i = .sessionless retry failed) ∨
    (∃ since used, a = .store i since used ∧
      ∀ m, s.sessions.lookup (key i) = some m → m.live since = false) := by
  obtain ⟨hbefore, retry, hpost⟩ := h
  have hmove := mcpStep_move key s a
  generalize mcpStep key s a = s' at hmove hpost
  cases hmove with
  | idle | sweep | close | closeTake => exact absurd hpost (hbefore _ _)
  | lookupSessionless _ hlt =>
    obtain ⟨rfl, -⟩ := goto_posting hpost hbefore
    exact .inl ⟨_, _, _, rfl, hlt⟩
  | lookupLive _ _ hm | storeLost _ hm =>
    obtain ⟨rfl, hp⟩ := goto_posting hpost hbefore
    cases hp
    exact .inr (.inl ⟨_, hm, rfl⟩)
  | @initFailed _ retry' _ hi hans =>
    obtain ⟨rfl, hp⟩ := goto_posting hpost hbefore
    cases retry' with
    | false => exact .inr (.inr (.inl ⟨_, rfl, hi, hans⟩))
    | true => cases hp
  | mark hi =>
    obtain ⟨rfl, -⟩ := goto_posting hpost hbefore
    exact .inr (.inr (.inr (.inl ⟨_, _, _, rfl, hi⟩)))
  | storeNew _ hnone =>
    obtain ⟨rfl, -⟩ := goto_posting hpost hbefore
    exact .inr (.inr (.inr (.inr ⟨_, _, rfl, hnone⟩)))
  | postGone _ _ hp =>
    obtain ⟨-, hd⟩ := goto_posting hpost hbefore
    rcases hp with rfl | rfl <;> cases hd
  | _ =>
    obtain ⟨-, hp⟩ := goto_posting hpost hbefore
    cases hp

/-! ## Runs -/

/-- From the last clock reading on, no session in the map is live while the
deadline lies ahead. -/
def Lapsed (s : McpState ι) (readings : List Int) : Prop :=
  ∀ t, (∀ r ∈ readings, r ≤ t) → t < s.sessionlessUntil →
    ∀ k x, s.sessions.lookup k = some x → x.live t = false

/-- While the deadline lies ahead, no session in the map is live. -/
theorem lapsed_step {rs : List Int} (hok : Undisturbed key s a) (h : Lapsed s rs) :
    Lapsed (mcpStep key s a) (rs ++ a.readings) := by
  intro t ht hlt k x hx
  have hrs : ∀ r ∈ rs, r ≤ t := fun r hr => ht r (List.mem_append_left _ hr)
  have hnow : ∀ r ∈ a.readings, r ≤ t := fun r hr => ht r (List.mem_append_right _ hr)
  rcases sessionlessUntil_step key s a with
    huntil | ⟨i, now, retry, failed, rfl, hi, hsame⟩
  · rw [huntil] at hlt
    rcases sessions_step hx with hx | ⟨i, before, since, rfl, hle⟩ |
      ⟨i, since, retry, id, rfl, hi⟩
    · exact h t hrs hlt k x hx
    · -- the lookup found the deadline in the past
      have := hnow before (by simp [McpAct.readings])
      exact absurd (hle.trans this) (not_le.mpr hlt)
    · have hle := hok retry id hi
      have := hnow x.lastUsed (by simp [McpAct.readings])
      exact absurd (hle.trans this) (not_le.mpr hlt)
  · rw [hsame] at hx
    exact live_anti (hnow now (by simp [McpAct.readings])) (hok retry failed hi k x hx)

theorem lapsed_run
    (hok : ∀ pre a, pre ++ [a] <+: acts →
      Undisturbed (fun i => sessionKey (req i)) (mcpRun req pre) a) :
    Lapsed (mcpRun req acts) (acts.flatMap McpAct.readings) := by
  refine Runs.run_invariant
    (fun pre => Lapsed (mcpRun req pre) (pre.flatMap McpAct.readings)) _
    (fun t _ _ k x h => ?_) (fun pre a hok h => ?_) hok
  · exact (Option.some_ne_none _ h.symm).elim
  · rw [mcpRun_snoc, List.flatMap_append, List.flatMap_singleton]
    exact lapsed_step hok h

theorem dropping_run (acts : List (McpAct ι)) :
    ∀ i id, (mcpRun req acts).phase i = .dropping id → id ∈ (mcpRun req acts).gone := by
  refine Runs.run_invariant
    (fun pre => ∀ i id, (mcpRun req pre).phase i = .dropping id → id ∈ (mcpRun req pre).gone)
    (fun _ _ => True) (fun i id h => ?_) (fun pre a _ h i id hi => ?_) (fun _ _ _ => trivial)
  · cases h
  · rw [mcpRun_snoc] at hi ⊢
    exact dropping_step h hi

theorem held_run {k id : String} {pre : List (McpAct ι)} (h : SessionHeld req k id pre)
    (htimely : ∀ a ∈ pre, a.Timely) :
    (∃ used, (mcpRun req pre).sessions.lookup k = some ⟨id, used⟩) ∧
      (mcpRun req pre).closed = false ∧ id ∉ (mcpRun req pre).gone := by
  induction h with
  | start used hmap hclosed hgone => exact ⟨⟨used, hmap⟩, hclosed, hgone⟩
  | @step pre a _ hends ih =>
    obtain ⟨⟨used, hmap⟩, hclosed, hgone⟩ := ih fun b hb => htimely b (List.mem_append_left _ hb)
    have ha : a.Timely := htimely a (List.mem_append_right _ (List.mem_singleton.mpr rfl))
    rw [mcpRun_snoc]
    refine ⟨?_, ?_, fun hin => ?_⟩
    · rcases session_kept (fun i => sessionKey (req i)) hmap ha with
        hkept | hidle | ⟨i, hi⟩ | hc
      · exact hkept
      · exact absurd (.inl ⟨used, hmap, hidle⟩) hends
      · exact absurd (dropping_run pre i id hi) hgone
      · rw [hclosed] at hc
        cases hc
    · rw [closed_step fun hc => hends (.inr (.inr hc))]
      exact hclosed
    · rcases gone_step hin with hin | hnow
      · exact hgone hin
      · exact hends (.inr (.inl hnow))

end McpKeptLemmas

open McpLemmas McpKeptLemmas in
/-- In a run whose steps are all undisturbed, every request of a conversation is
posted with the session that the map holds for it, until the session was idle
for too long, a 404 was answered to it or the proxy is closed. -/
theorem mcp_session_kept {ι : Type} [DecidableEq ι] (req : ι → ActionRequest)
    (acts : List (McpAct ι)) (hclock : McpClock acts)
    (hok : ∀ pre a, pre ++ [a] <+: acts →
      Undisturbed (fun i => sessionKey (req i)) (mcpRun req pre) a) :
    KeepsSession req acts := by
  intro pre a i id id' hpre hheld hends hposts
  obtain ⟨hsorted, htimely⟩ := hclock
  have hmem : ∀ b ∈ pre, b ∈ acts := fun b hb =>
    hpre.subset (List.mem_append_left _ hb)
  obtain ⟨⟨used, hmap⟩, -, -⟩ := held_run hheld fun b hb => htimely b (hmem b hb)
  -- a reading of this step at which the session is not live ends it
  have hlive : ∀ r ∈ a.readings, McpSession.live ⟨id, used⟩ r ≠ false := fun r hr hidle =>
    hends (.inl ⟨used, hmap, r, hr, idle_of_not_live hidle⟩)
  rcases posts_cases hposts with ⟨before, since, used', rfl, hlt⟩ | ⟨m, hm, rfl⟩ |
    ⟨answer, rfl, hi, hans⟩ | ⟨now, retry, failed, rfl, hi⟩ | ⟨since, used', rfl, hnone⟩
  · have hlapsed : Lapsed (mcpRun req pre) (pre.flatMap McpAct.readings) :=
      lapsed_run fun p b hp => hok p b (hp.trans ((List.prefix_append pre _).trans hpre))
    have hpast : ∀ r ∈ pre.flatMap McpAct.readings, r ≤ before := by
      obtain ⟨rest, rfl⟩ := hpre
      rw [List.append_assoc, List.flatMap_append] at hsorted
      intro r hr
      exact (List.pairwise_append.mp hsorted).2.2 r hr before (by simp [McpAct.readings])
    exact absurd (hlapsed before hpast hlt _ _ hmap) (hlive before (by simp [McpAct.readings]))
  · rw [hmap] at hm
    rw [← Option.some.inj hm]
  · have hnone := hok pre _ hpre hi hans
    rw [hmap] at hnone
    cases hnone
  · exact absurd (hok pre _ hpre retry failed hi _ _ hmap)
      (hlive now (by simp [McpAct.readings]))
  · exact absurd (hnone _ hmap) (hlive since (by simp [McpAct.readings]))

def slowTalk : List (McpAct Bool) :=
  [.lookup false 0 0 0, .initialized false (.status 200 "s"), .store false 0 0,
   .lookup true (29 * minute) (29 * minute) (29 * minute)]

theorem mcp_session_kept_slow :
    KeepsSession (fun _ => conversation "a") slowTalk ∧
      (mcpRun (fun _ => conversation "a") slowTalk).phase true = .posting false "s" := by
  refine ⟨mcp_session_kept _ slowTalk ⟨by decide +kernel, ?_⟩ fun pre a hp => ?_,
    by decide +kernel⟩
  · simp [slowTalk, McpAct.Timely]
  · obtain ⟨n, hn, ha, rfl⟩ := Runs.snoc_prefix_take hp
    match n, hn, ha with
    | 0, _, rfl | 3, _, rfl => trivial
    | 1, _, rfl => exact fun _ h => absurd h (by decide)
    | 2, _, rfl => exact fun _ _ _ => by decide +kernel

/-- The first and the last call are of the conversation `a`, the other one is
not. -/
def threeCalls (i : Fin 3) : ActionRequest := conversation (if i = 1 then "b" else "a")

/-- A session is opened for `a`; initialize for `b` is answered with 429. -/
def refused : List (McpAct (Fin 3)) :=
  [.lookup 0 0 0 0, .initialized 0 (.status 200 "s"), .store 0 0 0,
   .lookup 1 0 0 0, .initialized 1 (.status 429 ""), .mark 1 0]

/-- The next request for `a` is posted without its session. -/
theorem mcp_session_lost :
    McpClock (refused ++ [.lookup 2 0 0 0]) ∧
      ¬ KeepsSession threeCalls (refused ++ [.lookup 2 0 0 0]) := by
  refine ⟨⟨by decide +kernel, by simp [refused, McpAct.Timely]⟩, fun h => ?_⟩
  have hmap : (mcpRun threeCalls refused).sessions.lookup "a" = some ⟨"s", 0⟩ := by
    decide +kernel
  have hends : ¬ SessionEnds "a" "s" (mcpRun threeCalls refused) (.lookup 2 0 0 0) := by
    rintro (⟨used, hused, r, hr, hidle⟩ | ⟨_, _, _, hp, -⟩ | hc)
    · rw [hmap] at hused
      cases hused
      have hr0 : r = 0 := by simpa [McpAct.readings] using hr
      subst hr0
      exact absurd hidle (by decide)
    · cases hp
    · cases hc
  have hready : (mcpRun threeCalls refused).phase 2 = .ready false := by decide +kernel
  have hpost : (mcpStep (fun i => sessionKey (threeCalls i)) (mcpRun threeCalls refused)
      (.lookup 2 0 0 0)).phase 2 = .posting false "" := by decide +kernel
  have hid := h refused (.lookup 2 0 0 0) 2 "s" "" (List.prefix_refl _)
    (.start 0 hmap (by decide +kernel) (by decide +kernel)) hends
    ⟨fun _ _ => by rw [hready]; simp, false, hpost⟩
  exact absurd hid (by decide)

end Forager
