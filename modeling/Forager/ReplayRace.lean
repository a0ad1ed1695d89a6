import Forager.SignVerify

/-!
# Replay between two steps

Concurrent calls of `Verifier.Verify`. A call reads the clock and checks the
window without a lock; later, with the lock, it looks its nonce up and records
it, and every hundredth nonce of a large table evicts those that are ten
minutes old. A nonce that is evicted belongs to a message that no longer passes
the window check, but a call that passed it before may still wait for the lock.
-/

namespace Forager

open GoJson JsonText GoTime

inductive CallPhase
  | idle
  /-- All checks but that of the nonce passed. -/
  | waiting (env : SignatureEnvelope)
  | accepted
  | rejected
deriving DecidableEq, Repr

structure Traffic (ι : Type) where
  seenNonces : GoMap Int
  phase : ι → CallPhase

/-- A step of the call `i`, with its clock readings. -/
inductive VerifyAct (ι : Type)
  | check (i : ι) (now : Int)
  | record (i : ι) (now evict : Int)

namespace VerifyAct

variable {ι : Type}

def call : VerifyAct ι → ι
  | check i _ | record i _ _ => i

/-- The clock readings of the step, in order. -/
def readings : VerifyAct ι → List Int
  | check _ now => [now]
  | record _ now evict => [now, evict]

end VerifyAct

section Model

variable {ι : Type} [DecidableEq ι] (ed : Ed25519) (publicKey : List UInt8) (msg : ι → Text)

/-- One step. The two steps of a call come in their order; a step that is not
its turn does nothing. -/
def trafficStep (s : Traffic ι) : VerifyAct ι → Traffic ι
  | .check i now => match s.phase i with
    | .idle => match verifySignature ed ⟨publicKey, true, s.seenNonces⟩ now (msg i) with
      | .error _ => { s with phase := Function.update s.phase i .rejected }
      | .ok env => { s with phase := Function.update s.phase i (.waiting env) }
    | _ => s
  | .record i now evict => match s.phase i with
    -- the reading for the window is that of the check
    | .waiting env => match checkAndRecordNonce s.seenNonces ⟨now, now, evict⟩ env.nonce with
      | (true, _) => { s with phase := Function.update s.phase i .rejected }
      | (false, seen) => ⟨seen, Function.update s.phase i .accepted⟩
    | _ => s

def traffic (seen : GoMap Int) (acts : List (VerifyAct ι)) : Traffic ι :=
  Runs.Run (trafficStep ed publicKey msg) ⟨seen, fun _ => .idle⟩ acts

def ClockForward (acts : List (VerifyAct ι)) : Prop :=
  (acts.flatMap VerifyAct.readings).Pairwise (· ≤ ·)

/-- Timestamps that pass the window check really are within five minutes. -/
def RealWindow (acts : List (VerifyAct ι)) : Prop :=
  ∀ i now, .check i now ∈ acts →
    ∀ env t, Passed ed ⟨publicKey, true, ∅⟩ now (msg i) env →
      parseRFC3339 env.signedAt.toList = some t → |now - t| ≤ 5 * minute

def Evicts (seen : GoMap Int) (nonce : String) : Prop :=
  seen.lookup nonce = none ∧ seen.entries.length + 1 > maxNonces ∧
    (seen.entries.length + 1) % 100 = 0

instance (seen : GoMap Int) (nonce : String) : Decidable (Evicts seen nonce) :=
  inferInstanceAs (Decidable (_ ∧ _ ∧ _))

/-- If the step evicts, then not the nonce of another call that waits. -/
def SparesWaiting (s : Traffic ι) : VerifyAct ι → Prop
  | .check _ _ => True
  | .record i now evict => ∀ env, s.phase i = .waiting env → Evicts s.seenNonces env.nonce →
      ∀ j env', j ≠ i → s.phase j = .waiting env' →
        ∀ r, (s.seenNonces.insert env.nonce now).lookup env'.nonce = some r →
          evict - 10 * minute ≤ r

/-- Calls with the same message that are accepted are one call, and the steps
of a call that is rejected leave the nonce table alone. -/
def NoReplay (seen : GoMap Int) (acts : List (VerifyAct ι)) : Prop :=
  (∀ i j, (traffic ed publicKey msg seen acts).phase i = .accepted →
    (traffic ed publicKey msg seen acts).phase j = .accepted → msg i = msg j → i = j) ∧
  ∀ pre a, pre ++ [a] <+: acts →
    (traffic ed publicKey msg seen acts).phase a.call = .rejected →
      (traffic ed publicKey msg seen (pre ++ [a])).seenNonces =
        (traffic ed publicKey msg seen pre).seenNonces

end Model

namespace ReplayRaceLemmas

variable {ι : Type} [DecidableEq ι] {ed : Ed25519} {publicKey : List UInt8} {msg : ι → Text}
  {s : Traffic ι} {a : VerifyAct ι} {seen : GoMap Int} {pre acts : List (VerifyAct ι)}
variable {env : SignatureEnvelope} {readings : List Int} {now evict : Int} {i : ι}

/-! ## One step -/

theorem passed_seen {v : Verifier} {now : Int} {m : Text} (h : Passed ed v now m env)
    (seen : GoMap Int) : Passed ed ⟨v.publicKey, true, seen⟩ now m env :=
  ⟨h.decoded, h.signature_ne, h.payload_ne, h.signedAt_ne, h.nonce_ne, h.window, h.signed,
    h.matched⟩

variable (ed publicKey msg) in
theorem trafficStep_cases (s : Traffic ι) (a : VerifyAct ι) :
    trafficStep ed publicKey msg s a = s ∨
    (s.phase a.call ≠ .accepted ∧ trafficStep ed publicKey msg s a =
      { s with phase := Function.update s.phase a.call .rejected }) ∨
    (∃ i now env, a = .check i now ∧ s.phase i = .idle ∧
      Passed ed ⟨publicKey, true, ∅⟩ now (msg i) env ∧ trafficStep ed publicKey msg s a =
        { s with phase := Function.update s.phase i (.waiting env) }) ∨
    (∃ i now evict env, a = .record i now evict ∧ s.phase i = .waiting env ∧
      s.seenNonces.lookup env.nonce = none ∧ trafficStep ed publicKey msg s a =
        ⟨(checkAndRecordNonce s.seenNonces ⟨now, now, evict⟩ env.nonce).2,
          Function.update s.phase i .accepted⟩) := by
  cases a with
  | check i now =>
    cases hi : s.phase i with
    | idle =>
      simp only [trafficStep, hi]
      cases hv : verifySignature ed ⟨publicKey, true, s.seenNonces⟩ now (msg i) with
      | error err => exact .inr (.inl ⟨by simp [VerifyAct.call, hi], rfl⟩)
      | ok env =>
        have hp := SigningLemmas.verifySignature_ok_iff.mp hv
        exact .inr (.inr (.inl ⟨i, now, env, rfl, hi, passed_seen hp ∅, rfl⟩))
    | _ => exact .inl (by simp only [trafficStep, hi])
  | record i now evict =>
    cases hi : s.phase i with
    | waiting env =>
      simp only [trafficStep, hi]
      rcases hc : checkAndRecordNonce s.seenNonces ⟨now, now, evict⟩ env.nonce with ⟨_ | _, seen⟩
      · refine .inr (.inr (.inr ⟨i, now, evict, env, rfl, hi, ?_, by rw [hc]⟩))
        exact ReplayLemmas.checkAndRecordNonce_fst.mp (by rw [hc])
      · exact .inr (.inl ⟨by simp [VerifyAct.call, hi], rfl⟩)
    | _ => exact .inl (by simp only [trafficStep, hi])

theorem traffic_snoc (pre : List (VerifyAct ι)) (a : VerifyAct ι) :
    traffic ed publicKey msg seen (pre ++ [a]) =
      trafficStep ed publicKey msg (traffic ed publicKey msg seen pre) a :=
  Runs.run_snoc _ _ pre a

theorem accepted_step (h : s.phase i = .accepted) :
    (trafficStep ed publicKey msg s a).phase i = .accepted := by
  rcases trafficStep_cases ed publicKey msg s a with
    he | ⟨hne, he⟩ | ⟨j, now, env, rfl, hj, -, he⟩ | ⟨j, now, evict, env, rfl, hj, -, he⟩
  · rw [he, h]
  · have hij : i ≠ a.call := fun hij => hne (hij ▸ h)
    rw [he]
    exact (Function.update_of_ne hij _ _).trans h
  all_goals
    have hij : i ≠ j := by
      rintro rfl
      rw [h] at hj
      cases hj
    rw [he]
    exact (Function.update_of_ne hij _ _).trans h

/-- Only a step that accepts its call changes the nonce table. -/
theorem seenNonces_step (h : (trafficStep ed publicKey msg s a).phase a.call ≠ .accepted) :
    (trafficStep ed publicKey msg s a).seenNonces = s.seenNonces := by
  rcases trafficStep_cases ed publicKey msg s a with
    he | ⟨-, he⟩ | ⟨j, now, env, rfl, hj, -, he⟩ | ⟨j, now, evict, env, rfl, hj, -, he⟩
  · rw [he]
  · rw [he]
  · rw [he]
  · rw [he] at h
    exact absurd (Function.update_self _ _ _) h

theorem checkAndRecordNonce_new {nonce : String} (hnew : seen.lookup nonce = none) :
    checkAndRecordNonce seen ⟨now, now, evict⟩ nonce =
      (false, if Evicts seen nonce then
        evictBefore (evict - maxTimestampSkew * 2) (seen.insert nonce now)
      else seen.insert nonce now) := by
  have hlen : (seen.insert nonce now).entries.length = seen.entries.length + 1 := by
    rw [AList.entries_insert_of_notMem (AList.lookup_eq_none.mp hnew), List.length_cons]
  simp only [checkAndRecordNonce, Evicts, hnew, hlen, Option.isSome_none, Bool.false_eq_true,
    if_false, true_and]
  split <;> rfl

/-- A nonce that was just recorded or recorded before stays, unless the step
evicts and the nonce is ten minutes old. -/
theorem lookup_record {nonce n : String} {now r : Int} (evict : Int)
    (hnew : seen.lookup nonce = none) (h : (seen.insert nonce now).lookup n = some r) :
    (checkAndRecordNonce seen ⟨now, now, evict⟩ nonce).2.lookup n = some r ∨
      (Evicts seen nonce ∧ r < evict - 10 * minute) := by
  rw [checkAndRecordNonce_new hnew]
  split
  · next hev =>
    rcases ReplayLemmas.lookup_evictBefore (evict - maxTimestampSkew * 2) _ n h with hin | hlt
    · exact .inl hin
    · have hskew : maxTimestampSkew * 2 = 10 * minute := by decide
      exact .inr ⟨hev, hskew ▸ hlt⟩
  · exact .inl h

theorem check_passed {now : Int} (hi : s.phase i = .idle)
    (hp : Passed ed ⟨publicKey, true, ∅⟩ now (msg i) env) :
    trafficStep ed publicKey msg s (.check i now) =
      { s with phase := Function.update s.phase i (.waiting env) } := by
  have hv := SigningLemmas.verifySignature_ok_iff.mpr (passed_seen hp s.seenNonces)
  simp only [trafficStep, hi, hv]

theorem record_new (hi : s.phase i = .waiting env) (hnew : s.seenNonces.lookup env.nonce = none) :
    trafficStep ed publicKey msg s (.record i now evict) =
      ⟨if Evicts s.seenNonces env.nonce then
          evictBefore (evict - maxTimestampSkew * 2) (s.seenNonces.insert env.nonce now)
        else s.seenNonces.insert env.nonce now,
        Function.update s.phase i .accepted⟩ := by
  simp only [trafficStep, hi, checkAndRecordNonce_new hnew]

theorem record_accepts (env : SignatureEnvelope) (hi : s.phase i = .waiting env)
    (hnew : s.seenNonces.lookup env.nonce = none) :
    (trafficStep ed publicKey msg s (.record i now evict)).phase i = .accepted := by
  rw [record_new hi hnew]
  exact Function.update_self ..

theorem length_step (s : Traffic ι) (a : VerifyAct ι) :
    (trafficStep ed publicKey msg s a).seenNonces.entries.length ≤
      s.seenNonces.entries.length + 1 := by
  rcases trafficStep_cases ed publicKey msg s a with
    he | ⟨-, he⟩ | ⟨j, now, env, -, -, -, he⟩ | ⟨j, now, evict, env, -, -, hnew, he⟩
  · rw [he]; exact Nat.le_succ _
  · rw [he]; exact Nat.le_succ _
  · rw [he]; exact Nat.le_succ _
  · have hlen : (s.seenNonces.insert env.nonce now).entries.length =
        s.seenNonces.entries.length + 1 := by
      rw [AList.entries_insert_of_notMem (AList.lookup_eq_none.mp hnew), List.length_cons]
    rw [he, checkAndRecordNonce_new hnew]
    dsimp only
    split
    · exact (List.length_filter_le _ _).trans hlen.le
    · exact hlen.le

theorem sparesWaiting_of_short (h : pre.length < maxNonces) :
    SparesWaiting (traffic ed publicKey msg ∅ pre) a := by
  have hlen : ∀ acts : List (VerifyAct ι),
      (traffic ed publicKey msg ∅ acts).seenNonces.entries.length ≤ acts.length := by
    intro acts
    induction acts using List.reverseRecOn with
    | nil => exact Nat.le_refl 0
    | append_singleton acts a ih =>
      rw [traffic_snoc, List.length_append]
      exact (length_step _ _).trans (Nat.succ_le_succ ih)
  cases a with
  | check => trivial
  | record i now evict =>
    intro env _ hev
    have hsize : maxNonces < (traffic ed publicKey msg ∅ pre).seenNonces.entries.length + 1 :=
      hev.2.1
    have := hlen pre
    omega

/-! ## What the table remembers -/

def readingsOf (acts : List (VerifyAct ι)) : List Int := acts.flatMap VerifyAct.readings

/-- The time for which the message of an accepted call passes the window check
is covered by the nonce table, or over. -/
def Barred (msg : ι → Text) (s : Traffic ι) (readings : List Int) (i : ι) (t : Int) : Prop :=
  (∃ r, s.seenNonces.lookup (signatureEnvelope (msg i)).1.nonce = some r ∧ t - 5 * minute ≤ r) ∨
  ((∃ e ∈ readings, t + 5 * minute < e) ∧ ∀ j env, msg j = msg i → s.phase j ≠ .waiting env)

/-- What holds after the steps `pre`. -/
structure Guarded (msg : ι → Text) (s : Traffic ι) (readings : List Int) : Prop where
  waiting : ∀ i env, s.phase i = .waiting env → env = (signatureEnvelope (msg i)).1 ∧
    ∃ t, parseRFC3339 env.signedAt.toList = some t ∧ ∃ w ∈ readings, t - 5 * minute ≤ w
  accepted : ∀ i, s.phase i = .accepted → ∃ t,
    parseRFC3339 (signatureEnvelope (msg i)).1.signedAt.toList = some t ∧ Barred msg s readings i t
  unique : ∀ i j, s.phase i = .accepted → s.phase j = .accepted → msg i = msg j → i = j

/-- What a step may assume: the clock went on, a passed window check is right,
and no nonce of a waiting call is evicted. -/
structure StepOk (ed : Ed25519) (publicKey : List UInt8) (msg : ι → Text) (s : Traffic ι)
    (readings : List Int) (a : VerifyAct ι) : Prop where
  forward : (readings ++ a.readings).Pairwise (· ≤ ·)
  window : RealWindow ed publicKey msg [a]
  quiet : SparesWaiting s a

omit [DecidableEq ι] in
theorem Guarded.nonce_seen (h : Guarded msg s readings) {i j : ι} (hj : s.phase j = .waiting env)
    (hi : s.phase i = .accepted) (hmsg : msg i = msg j) : s.seenNonces.lookup env.nonce ≠ none := by
  obtain ⟨t, -, ⟨r, hr, -⟩ | ⟨-, hnone⟩⟩ := h.accepted i hi
  · rw [(h.waiting j env hj).1, ← hmsg, hr]
    exact Option.some_ne_none r
  · exact absurd hj (hnone j env hmsg.symm)

theorem guarded_reject (h : Guarded msg s readings) (c : ι) (more : List Int) :
    Guarded msg { s with phase := Function.update s.phase c .rejected } (readings ++ more) := by
  have hkept : ∀ i (p : CallPhase), p ≠ .rejected → Function.update s.phase c .rejected i = p →
      s.phase i = p := by
    intro i p hp hi
    rcases Runs.of_update_eq hi with ⟨-, hnew⟩ | ⟨-, hold⟩
    · exact absurd hnew.symm hp
    · exact hold
  refine ⟨fun i env hi => ?_, fun i hi => ?_, fun i j hi hj => ?_⟩
  · obtain ⟨henv, t, ht, w, hw, hle⟩ := h.waiting i env (hkept i _ (by simp) hi)
    exact ⟨henv, t, ht, w, List.mem_append_left _ hw, hle⟩
  · obtain ⟨t, ht, hcov⟩ := h.accepted i (hkept i _ (by simp) hi)
    refine ⟨t, ht, hcov.imp_right fun ⟨⟨e, he, hlt⟩, hnone⟩ =>
      ⟨⟨e, List.mem_append_left _ he, hlt⟩, fun j env hmsg hj => ?_⟩⟩
    exact hnone j env hmsg (hkept j _ (by simp) hj)
  · exact h.unique i j (hkept i _ (by simp) hi) (hkept j _ (by simp) hj)

/-- A call that passes the window check: the messages whose time is over do
not. -/
theorem guarded_check (h : Guarded msg s readings) {c : ι} {now : Int}
    (hpass : Passed ed ⟨publicKey, true, ∅⟩ now (msg c) env)
    (hok : StepOk ed publicKey msg s readings (.check c now)) :
    Guarded msg { s with phase := Function.update s.phase c (.waiting env) }
      (readings ++ [now]) := by
  obtain ⟨t, ht, -⟩ := hpass.window
  have hdist := abs_le.mp (hok.window c now (List.mem_singleton.mpr rfl) env t hpass ht)
  have henv : env = (signatureEnvelope (msg c)).1 := by rw [hpass.decoded]
  have hold : ∀ i, Function.update s.phase c (.waiting env) i = .accepted →
      s.phase i = .accepted := by
    intro i hi
    rcases Runs.of_update_eq hi with ⟨-, hnew⟩ | ⟨-, hold⟩
    · cases hnew
    · exact hold
  refine ⟨fun i env' hi => ?_, fun i hi => ?_,
    fun i j hi hj => h.unique i j (hold i hi) (hold j hj)⟩
  · rcases Runs.of_update_eq hi with ⟨rfl, hnew⟩ | ⟨-, hi⟩
    · obtain rfl := CallPhase.waiting.inj hnew
      refine ⟨henv, t, ht, now, List.mem_append_right _ (List.mem_singleton.mpr rfl), ?_⟩
      omega
    · obtain ⟨henv', t', ht', w, hw, hle⟩ := h.waiting i env' hi
      exact ⟨henv', t', ht', w, List.mem_append_left _ hw, hle⟩
  · obtain ⟨t', ht', hcov⟩ := h.accepted i (hold i hi)
    refine ⟨t', ht', hcov.imp_right fun ⟨⟨e, he, hlt⟩, hnone⟩ =>
      ⟨⟨e, List.mem_append_left _ he, hlt⟩, fun j env' hmsg hj => ?_⟩⟩
    rcases Runs.of_update_eq hj with ⟨rfl, -⟩ | ⟨-, hj⟩
    · -- the message was accepted before and its time is over, so it cannot pass now
      rw [← hmsg, ← henv, ht] at ht'
      obtain rfl := Option.some.inj ht'
      have hle : e ≤ now := (List.pairwise_append.mp hok.forward).2.2 e he now
        (List.mem_singleton.mpr rfl)
      omega
    · exact hnone j env' hmsg hj

/-- A call whose nonce is new: no call with its message was accepted, and what
the step evicts belongs to messages whose time is over. -/
theorem guarded_record (h : Guarded msg s readings) {c : ι} (hc : s.phase c = .waiting env)
    (hnew : s.seenNonces.lookup env.nonce = none)
    (hok : StepOk ed publicKey msg s readings (.record c now evict)) :
    Guarded msg ⟨(checkAndRecordNonce s.seenNonces ⟨now, now, evict⟩ env.nonce).2,
      Function.update s.phase c .accepted⟩ (readings ++ [now, evict]) := by
  have hwaits : ∀ j env', Function.update s.phase c .accepted j = .waiting env' →
      j ≠ c ∧ s.phase j = .waiting env' := by
    intro j env' hj
    rcases Runs.of_update_eq hj with ⟨-, hnew⟩ | hold
    · cases hnew
    · exact hold
  have hcover : ∀ i t r, (s.seenNonces.insert env.nonce now).lookup
      (signatureEnvelope (msg i)).1.nonce = some r → t - 5 * minute ≤ r →
      Barred msg ⟨(checkAndRecordNonce s.seenNonces ⟨now, now, evict⟩ env.nonce).2,
        Function.update s.phase c .accepted⟩ (readings ++ [now, evict]) i t := by
    intro i t r hr hle
    rcases lookup_record evict hnew hr with hin | ⟨hev, hlt⟩
    · exact .inl ⟨r, hin, hle⟩
    · refine .inr ⟨⟨evict, by simp, by omega⟩, fun j env' hmsg hj => ?_⟩
      obtain ⟨hjc, hj⟩ := hwaits j env' hj
      rw [← hmsg, ← (h.waiting j env' hj).1] at hr
      exact absurd (hok.quiet env hc hev j env' hjc hj r hr) (not_le.mpr hlt)
  obtain ⟨henv, t, ht, w, hw, hwle⟩ := h.waiting c env hc
  have hold : ∀ i, Function.update s.phase c .accepted i = .accepted →
      i = c ∨ s.phase i = .accepted := by
    intro i hi
    exact (Runs.of_update_eq hi).imp And.left And.right
  refine ⟨fun j env' hj => ?_, fun i hi => ?_, fun i j hi hj hmsg => ?_⟩
  · obtain ⟨henv', t', ht', w', hw', hle'⟩ := h.waiting j env' (hwaits j env' hj).2
    exact ⟨henv', t', ht', w', List.mem_append_left _ hw', hle'⟩
  · rcases hold i hi with rfl | hi
    · rw [henv] at ht
      have hle : w ≤ now := (List.pairwise_append.mp hok.forward).2.2 w hw now List.mem_cons_self
      exact ⟨t, ht, hcover i t now (by rw [← henv]; exact AList.lookup_insert _) (by omega)⟩
    · obtain ⟨t', ht', ⟨r, hr, hle⟩ | ⟨⟨e, he, hlt⟩, hnone⟩⟩ := h.accepted i hi
      · refine ⟨t', ht', hcover i t' r ?_ hle⟩
        rw [AList.lookup_insert_ne, hr]
        intro heq
        rw [← heq, hr] at hnew
        cases hnew
      · exact ⟨t', ht', .inr ⟨⟨e, List.mem_append_left _ he, hlt⟩,
          fun j env' hmsg hj => hnone j env' hmsg (hwaits j env' hj).2⟩⟩
  · rcases hold i hi with hic | hi'
    · subst hic
      rcases hold j hj with hji | hj'
      · exact hji.symm
      · exact absurd hnew (h.nonce_seen hc hj' hmsg.symm)
    · rcases hold j hj with hjc | hj'
      · subst hjc
        exact absurd hnew (h.nonce_seen hc hi' hmsg)
      · exact h.unique i j hi' hj' hmsg

/-- The nonce of an accepted message is in the table, or its time is over and no call with the
message waits. -/
theorem guarded_step (h : Guarded msg s readings) (hok : StepOk ed publicKey msg s readings a) :
    Guarded msg (trafficStep ed publicKey msg s a) (readings ++ a.readings) := by
  rcases trafficStep_cases ed publicKey msg s a with
    he | ⟨-, he⟩ | ⟨c, now, env, rfl, -, hpass, he⟩ | ⟨c, now, evict, env, rfl, hc, hnew, he⟩
  · rw [he]
    refine ⟨fun i env hi => ?_, fun i hi => ?_, h.unique⟩
    · obtain ⟨henv, t, ht, w, hw, hle⟩ := h.waiting i env hi
      exact ⟨henv, t, ht, w, List.mem_append_left _ hw, hle⟩
    · obtain ⟨t, ht, hcov⟩ := h.accepted i hi
      exact ⟨t, ht, hcov.imp_right fun ⟨⟨e, he, hlt⟩, hnone⟩ =>
        ⟨⟨e, List.mem_append_left _ he, hlt⟩, hnone⟩⟩
  · rw [he]
    exact guarded_reject h a.call a.readings
  · rw [he]
    exact guarded_check h hpass hok
  · rw [he]
    exact guarded_record h hc hnew hok

/-! ## Whole runs -/

theorem stepOk_of_run (hclock : ClockForward acts) (hreal : RealWindow ed publicKey msg acts)
    (hquiet : ∀ pre a, pre ++ [a] <+: acts → SparesWaiting (traffic ed publicKey msg seen pre) a)
    (h : pre ++ [a] <+: acts) :
    StepOk ed publicKey msg (traffic ed publicKey msg seen pre) (readingsOf pre) a where
  forward := by
    obtain ⟨rest, rfl⟩ := h
    unfold ClockForward at hclock
    rw [List.flatMap_append, List.flatMap_append, List.flatMap_singleton] at hclock
    exact (List.pairwise_append.mp hclock).1
  window i now hmem := hreal i now (h.subset (List.mem_append_right _ hmem))
  quiet := hquiet pre a h

theorem guarded_run (hclock : ClockForward acts) (hreal : RealWindow ed publicKey msg acts)
    (hquiet : ∀ pre a, pre ++ [a] <+: acts → SparesWaiting (traffic ed publicKey msg seen pre) a) :
    Guarded msg (traffic ed publicKey msg seen acts) (readingsOf acts) := by
  refine Runs.run_invariant
    (fun pre => Guarded msg (traffic ed publicKey msg seen pre) (readingsOf pre))
    (fun pre a => StepOk ed publicKey msg (traffic ed publicKey msg seen pre) (readingsOf pre) a)
    ⟨by simp [traffic], by simp [traffic], by simp [traffic]⟩ (fun pre a hok h => ?_)
    (fun pre a h => stepOk_of_run hclock hreal hquiet h)
  rw [traffic_snoc, readingsOf, List.flatMap_append, List.flatMap_singleton]
  exact guarded_step h hok

theorem accepted_run (h : pre <+: acts)
    (hi : (traffic ed publicKey msg seen pre).phase i = .accepted) :
    (traffic ed publicKey msg seen acts).phase i = .accepted := by
  obtain ⟨rest, rfl⟩ := h
  induction rest using List.reverseRecOn with
  | nil => rwa [List.append_nil]
  | append_singleton rest a ih =>
    rw [← List.append_assoc, traffic_snoc]
    exact accepted_step ih

end ReplayRaceLemmas

open ReplayRaceLemmas in
/-- The two steps of a call, one right after the other, are `verify`. -/
theorem check_record {ι : Type} [DecidableEq ι] (ed : Ed25519) (publicKey : List UInt8)
    (msg : ι → Text) (s : Traffic ι) (i : ι) (clock : Clock) (hidle : s.phase i = .idle) :
    let r := verify ed ⟨publicKey, true, s.seenNonces⟩ clock (msg i)
    let s' := Runs.Run (trafficStep ed publicKey msg) s
      [.check i clock.window, .record i clock.record clock.evict]
    s'.seenNonces = r.2.seenNonces ∧ (s'.phase i = .accepted ↔ r.1 = .ok ()) := by
  intro r s'
  have hs' : s' = trafficStep ed publicKey msg
      (trafficStep ed publicKey msg s (.check i clock.window))
      (.record i clock.record clock.evict) := rfl
  have hrecord : ∀ seen nonce,
      checkAndRecordNonce seen ⟨clock.record, clock.record, clock.evict⟩ nonce =
        checkAndRecordNonce seen clock nonce := fun _ _ => rfl
  rw [hs']
  simp only [r, verify, not_true_eq_false, if_false, trafficStep, hidle]
  cases hv : verifySignature ed ⟨publicKey, true, s.seenNonces⟩ clock.window (msg i) with
  | error err => simp
  | ok env =>
    simp only [Function.update_self, hrecord]
    rcases checkAndRecordNonce s.seenNonces clock env.nonce with ⟨_ | _, seen⟩ <;> simp

open ReplayRaceLemmas in
/-- Interleaved calls on an enabled verifier, with a clock that does not go
back and timestamps that really are within five minutes when they pass: if no
eviction takes the nonce of another call that waits for the lock, no message is
accepted twice, and a rejected call adds no nonce. -/
theorem replay_race_quiet {ι : Type} [DecidableEq ι] (ed : Ed25519) (publicKey : List UInt8)
    (msg : ι → Text) (seen : GoMap Int) (acts : List (VerifyAct ι)) (hclock : ClockForward acts)
    (hreal : RealWindow ed publicKey msg acts)
    (hquiet : ∀ pre a, pre ++ [a] <+: acts → SparesWaiting (traffic ed publicKey msg seen pre) a) :
    NoReplay ed publicKey msg seen acts := by
  refine ⟨(guarded_run hclock hreal hquiet).unique, fun pre a h hrej => ?_⟩
  rw [traffic_snoc]
  refine seenNonces_step fun hacc => ?_
  rw [← traffic_snoc] at hacc
  rw [accepted_run h hacc] at hrej
  cases hrej

/-! ## Examples -/

/-- A message that `Sign` makes of the empty object. -/
def stamped (now : Int) (nonce : String) : Text :=
  match sign taggedEd ⟨[], ""⟩ now nonce (print (.obj [])) with
  | .ok out => out
  | .error _ => []

namespace ReplayRaceLemmas

section Stamped

open SignVerifyLemmas

variable {now : Int} {nonce : String}

theorem signable_nil : Signable [] := ⟨List.Pairwise.nil, fun _ _ => rfl, by simp, by simp⟩

theorem relayed_stamped : Relayed ((signPayload []).map (·.1)) (print (marshalRaw (addMetadata
    (produce taggedEd ⟨[], ""⟩ now nonce []) "" []))) (stamped now nonce) := by
  have hraw : rawFields (print (.obj [])) = (some [], true) :=
    CoverageLemmas.rawFields_obj
      (by rw [parse_print]; rfl : parse (print (.obj [])) = some (.obj []))
  rw [stamped, sign_eq hraw]
  exact ⟨⟨_, parse_marshalRaw signable_nil.nesting_addMetadata⟩, List.Perm.refl _⟩

theorem envelope_stamped (now : Int) (nonce : String) :
    (signatureEnvelope (stamped now nonce)).1.signedAt = formatRFC3339 now ∧
      (signatureEnvelope (stamped now nonce)).1.nonce = nonce := by
  obtain ⟨keyID, henv⟩ := envelope_relayed signable_nil (@relayed_stamped now nonce)
  rw [henv]
  exact ⟨rfl, rfl⟩

theorem passed_stamped (now : Int) (nonce : String) (window : Int) (hnow : InYears now)
    (hnonce : nonce ≠ "") (hwindow : |window - now / second * second| ≤ 5 * minute) :
    Passed taggedEd ⟨[], true, ∅⟩ window (stamped now nonce)
      (signatureEnvelope (stamped now nonce)).1 := by
  obtain ⟨env, hp, -⟩ := passed_relayed (v := ⟨[], true, ∅⟩) signable_nil hnow hnonce
    (fun _ => List.cons_ne_nil _ _) (fun _ => decide_eq_true rfl) hwindow relayed_stamped
  rwa [hp.decoded]

theorem realWindow_stamped {i : Int} (hnow : InYears now)
    (hwindow : |i - now / second * second| ≤ 5 * minute) (env : SignatureEnvelope) (t : Int)
    (hp : Passed taggedEd ⟨[], true, ∅⟩ i (stamped now nonce) env)
    (ht : parseRFC3339 env.signedAt.toList = some t) : |i - t| ≤ 5 * minute := by
  obtain rfl : env = (signatureEnvelope (stamped now nonce)).1 := by rw [hp.decoded]
  rw [(envelope_stamped now nonce).1, parseRFC3339_formatRFC3339 hnow] at ht
  rwa [← Option.some.inj ht]

end Stamped

end ReplayRaceLemmas

open ReplayRaceLemmas in
theorem replay_race_quiet_twice :
    NoReplay taggedEd [] (fun _ : Bool => stamped 0 "n") ∅
      [.check false 0, .check true 0, .record true 0 0, .record false 0 0] :=
  replay_race_quiet taggedEd [] _ ∅ _ (by simp [ClockForward, VerifyAct.readings])
    (fun i now hmem => realWindow_stamped (by decide)
      (by
        obtain rfl : now = 0 := by
          rcases (by simpa using hmem : i = false ∧ now = 0 ∨ i = true ∧ now = 0) with h | h
          all_goals exact h.2
        decide))
    (fun pre a h => sparesWaiting_of_short (by
      have hle : pre.length + 1 ≤ 4 := by simpa using h.length_le
      unfold maxNonces
      omega))

/-- The calls of the race: call `k` of the first 10098 has the nonce of `k + 1`
times the letter x; two calls have one message; the last has another. -/
def raceMessage (k : Nat) : Text :=
  if k < 10098 then stamped 0 (String.ofList (List.replicate (k + 1) 'x'))
  else if k < 10100 then stamped (5 * minute) "a"
  else stamped (10 * minute) "c"

/-- The first `n` calls, one after the other at time 0. -/
def fillTable (n : Nat) : List (VerifyAct Nat) :=
  (List.range n).flatMap fun k => [.check k 0, .record k 0 0]

/-- Call 10098 is accepted at time 0. -/
def raceStart : List (VerifyAct Nat) := fillTable 10098 ++ [.check 10098 0, .record 10098 0 0]

/-- Ten minutes later its message passes the window check once more, and before
call 10099 gets the lock, call 10100 evicts. -/
def raceEnd : List (VerifyAct Nat) :=
  [.check 10099 (10 * minute), .check 10100 (10 * minute + 1),
   .record 10100 (10 * minute + 1) (10 * minute + 1),
   .record 10099 (10 * minute + 1) (10 * minute + 1)]

namespace ReplayRaceLemmas

/-- The table after `n` calls at time 0, and the calls that are left. -/
structure Filled (n : Nat) (s : Traffic Nat) : Prop where
  length : s.seenNonces.entries.length = n
  zero : ∀ nonce r, s.seenNonces.lookup nonce = some r → r = 0
  absent : ∀ nonce, (∀ k < n, nonce ≠ (signatureEnvelope (raceMessage k)).1.nonce) →
    s.seenNonces.lookup nonce = none
  idle : ∀ i, n ≤ i → s.phase i = .idle
  accepted : ∀ i < n, s.phase i = .accepted

theorem Filled.succ {n : Nat} {s : Traffic Nat} (h : Filled n s) (hn : n < 10099)
    (hpass : Passed taggedEd ⟨[], true, ∅⟩ 0 (raceMessage n) (signatureEnvelope (raceMessage n)).1)
    (hnew : ∀ k < n, (signatureEnvelope (raceMessage n)).1.nonce ≠
      (signatureEnvelope (raceMessage k)).1.nonce) :
    Filled (n + 1) (Runs.Run (trafficStep taggedEd [] raceMessage) s
      [.check n 0, .record n 0 0]) := by
  have hlookup := h.absent _ hnew
  have hev : ¬ Evicts s.seenNonces (signatureEnvelope (raceMessage n)).1.nonce := by
    rintro ⟨-, hsize, hmod⟩
    rw [h.length] at hsize hmod
    unfold maxNonces at hsize
    omega
  have hrun : Runs.Run (trafficStep taggedEd [] raceMessage) s [.check n 0, .record n 0 0] =
      ⟨s.seenNonces.insert (signatureEnvelope (raceMessage n)).1.nonce 0,
        Function.update (Function.update s.phase n
          (.waiting (signatureEnvelope (raceMessage n)).1)) n .accepted⟩ := by
    simp only [Runs.Run, List.foldl_cons, List.foldl_nil]
    rw [check_passed (h.idle n le_rfl) hpass,
      record_new (s := { s with phase := Function.update s.phase n _ }) (Function.update_self ..)
        hlookup, if_neg hev]
  rw [hrun]
  refine ⟨?_, fun nonce r hr => ?_, fun nonce hne => ?_, fun i hi => ?_, fun i hi => ?_⟩
  · rw [AList.entries_insert_of_notMem (AList.lookup_eq_none.mp hlookup), List.length_cons,
      h.length]
  · by_cases heq : nonce = (signatureEnvelope (raceMessage n)).1.nonce
    · rw [heq, AList.lookup_insert] at hr
      exact (Option.some.inj hr).symm
    · rw [AList.lookup_insert_ne heq] at hr
      exact h.zero nonce r hr
  · rw [AList.lookup_insert_ne (hne n (Nat.lt_succ_self n))]
    exact h.absent nonce fun k hk => hne k (Nat.lt_succ_of_lt hk)
  · have hin : i ≠ n := by omega
    exact (Function.update_of_ne hin _ _).trans
      ((Function.update_of_ne hin _ _).trans (h.idle i (by omega)))
  · rcases Nat.lt_succ_iff_lt_or_eq.mp hi with hlt | rfl
    · exact (Function.update_of_ne hlt.ne _ _).trans
        ((Function.update_of_ne hlt.ne _ _).trans (h.accepted i hlt))
    · exact Function.update_self ..

theorem nonce_filler {k : Nat} (hk : k < 10098) :
    (signatureEnvelope (raceMessage k)).1.nonce = String.ofList (List.replicate (k + 1) 'x') := by
  rw [raceMessage, if_pos hk]
  exact (envelope_stamped 0 _).2

theorem nonce_ne {nonce : String} (hnonce : nonce.toList.head? ≠ some 'x') (k : Nat)
    (hk : k < 10098) : nonce ≠ (signatureEnvelope (raceMessage k)).1.nonce := by
  rintro rfl
  rw [nonce_filler hk, String.toList_ofList] at hnonce
  exact hnonce rfl

theorem filled_fillTable {n : Nat} (hn : n ≤ 10098) :
    Filled n (traffic taggedEd [] raceMessage ∅ (fillTable n)) := by
  induction n with
  | zero =>
    exact ⟨rfl, fun _ _ h => (Option.some_ne_none _ h.symm).elim, fun _ _ => rfl, fun _ _ => rfl,
      fun _ h => absurd h (Nat.not_lt_zero _)⟩
  | succ n ih =>
    have hsplit : fillTable (n + 1) = fillTable n ++ [.check n 0, .record n 0 0] := by
      simp [fillTable, List.range_succ]
    have hpass : Passed taggedEd ⟨[], true, ∅⟩ 0 (raceMessage n)
        (signatureEnvelope (raceMessage n)).1 := by
      rw [raceMessage, if_pos (by omega)]
      refine passed_stamped 0 _ 0 (by decide) (fun h => ?_) (by decide)
      cases String.ofList_eq_empty_iff.mp h
    rw [hsplit, traffic, Runs.run_append]
    refine (ih (by omega)).succ (by omega) hpass fun k hk heq => ?_
    rw [nonce_filler (by omega), nonce_filler (by omega), String.ofList_inj] at heq
    have := congrArg List.length heq
    simp only [List.length_replicate] at this
    omega

theorem clockForward_race : ClockForward (raceStart ++ raceEnd) := by
  have hzero : ∀ r ∈ (fillTable 10098).flatMap VerifyAct.readings, r = 0 := by
    intro r hr
    obtain ⟨a, ha, hr⟩ := List.mem_flatMap.mp hr
    obtain ⟨k, -, ha⟩ := List.mem_flatMap.mp ha
    rcases (by simpa using ha : a = .check k 0 ∨ a = .record k 0 0) with rfl | rfl
    all_goals simpa [VerifyAct.readings] using hr
  rw [ClockForward, raceStart, List.append_assoc, List.flatMap_append, List.pairwise_append]
  refine ⟨List.Pairwise.imp_of_mem (fun ha hb _ => ?_) (List.pairwise_of_forall fun _ _ => trivial),
    by decide, fun r hr t ht => ?_⟩
  · rw [hzero _ ha, hzero _ hb]
  · rw [hzero r hr]
    revert t
    decide

theorem realWindow_race : RealWindow taggedEd [] raceMessage (raceStart ++ raceEnd) := by
  intro i now hmem env t hp
  rw [raceStart, List.append_assoc] at hmem
  rcases List.mem_append.mp hmem with hfill | hrest
  · obtain ⟨k, hk, ha⟩ := List.mem_flatMap.mp hfill
    obtain ⟨rfl, rfl⟩ : i = k ∧ now = 0 := by simpa using ha
    rw [raceMessage, if_pos (List.mem_range.mp hk)] at hp
    exact realWindow_stamped (by decide) (by decide) env t hp
  · have hcases : (i = 10098 ∧ now = 0) ∨ (i = 10099 ∧ now = 10 * minute) ∨
        (i = 10100 ∧ now = 10 * minute + 1) := by simpa [raceEnd] using hrest
    rcases hcases with ⟨rfl, rfl⟩ | ⟨rfl, rfl⟩ | ⟨rfl, rfl⟩
    all_goals exact realWindow_stamped (by decide) (by decide) env t hp

theorem filled_first :
    Filled 10099 (traffic taggedEd [] raceMessage ∅ raceStart) := by
  rw [traffic, raceStart, Runs.run_append]
  refine (filled_fillTable le_rfl).succ (by omega) ?_ fun k hk => ?_
  · exact passed_stamped (5 * minute) "a" 0 (by decide) (by decide) (by decide)
  · rw [show raceMessage 10098 = stamped (5 * minute) "a" from rfl, (envelope_stamped _ _).2]
    exact nonce_ne (by decide) k hk

theorem lookup_of_evictBefore {cutoff r : Int} {m : GoMap Int} {nonce : String}
    (h : (evictBefore cutoff m).lookup nonce = some r) : m.lookup nonce = some r ∧ cutoff ≤ r := by
  obtain ⟨hmem, hle⟩ := List.mem_filter.mp (AList.mem_lookup_iff.mp h)
  exact ⟨AList.mem_lookup_iff.mpr hmem, of_decide_eq_true hle⟩

theorem accepted_again {s : Traffic Nat} (h : Filled 10099 s) :
    (Runs.Run (trafficStep taggedEd [] raceMessage) s raceEnd).phase 10099 = .accepted := by
  have hagain : Passed _ _ _ (raceMessage 10099) _ :=
    passed_stamped (5 * minute) "a" (10 * minute) (by decide) (by decide) (by decide)
  have hlast : Passed _ _ _ (raceMessage 10100) _ :=
    passed_stamped (10 * minute) "c" (10 * minute + 1) (by decide) (by decide) (by decide)
  have hidle : Function.update s.phase 10099
      (.waiting (signatureEnvelope (stamped (5 * minute) "a")).1) 10100 = .idle :=
    (Function.update_of_ne (by decide) _ _).trans (h.idle 10100 (by decide))
  have hnew : s.seenNonces.lookup
      (signatureEnvelope (stamped (10 * minute) "c")).1.nonce = none := by
    rw [(envelope_stamped _ _).2]
    refine h.absent "c" fun k hk => ?_
    rcases Nat.lt_succ_iff_lt_or_eq.mp hk with hk | rfl
    · exact nonce_ne (by decide) k hk
    · rw [show raceMessage 10098 = stamped (5 * minute) "a" from rfl, (envelope_stamped _ _).2]
      decide
  have hev : Evicts s.seenNonces (signatureEnvelope (stamped (10 * minute) "c")).1.nonce :=
    ⟨hnew, by rw [h.length]; decide, by rw [h.length]⟩
  -- all that was recorded at time 0 is evicted
  have hgone : (evictBefore (10 * minute + 1 - maxTimestampSkew * 2) (s.seenNonces.insert
      (signatureEnvelope (stamped (10 * minute) "c")).1.nonce (10 * minute + 1))).lookup
      (signatureEnvelope (stamped (5 * minute) "a")).1.nonce = none := by
    rw [(envelope_stamped _ _).2, (envelope_stamped _ _).2, Option.eq_none_iff_forall_ne_some]
    intro r hr
    obtain ⟨hin, hle⟩ := lookup_of_evictBefore hr
    rw [AList.lookup_insert_ne (by decide)] at hin
    rw [h.zero _ r hin] at hle
    exact absurd hle (by decide)
  simp only [Runs.Run, raceEnd, List.foldl_cons, List.foldl_nil]
  rw [check_passed (h.idle 10099 le_rfl) hagain,
    check_passed (s := ⟨s.seenNonces, Function.update s.phase 10099 _⟩) hidle hlast,
    record_new (s := ⟨s.seenNonces, Function.update _ 10100 _⟩) (Function.update_self ..) hnew,
    if_pos hev]
  refine record_accepts (signatureEnvelope (stamped (5 * minute) "a")).1 ?_ hgone
  have hne : (10099 : Nat) ≠ 10100 := by decide
  simp only [Function.update_of_ne hne, Function.update_self]

end ReplayRaceLemmas

open ReplayRaceLemmas in
/-- A message can be accepted twice: a call that passed the window check waits
for the lock until its nonce, which another call with the same message recorded,
is evicted. -/
theorem replay_race :
    ¬ ∀ (ed : Ed25519) (publicKey : List UInt8) (msg : Nat → Text) (acts : List (VerifyAct Nat)),
      ClockForward acts → RealWindow ed publicKey msg acts →
      NoReplay ed publicKey msg ∅ acts := by
  intro h
  have hunique := (h taggedEd [] raceMessage (raceStart ++ raceEnd) clockForward_race
    realWindow_race).1
  have hfirst := accepted_run (List.prefix_append raceStart raceEnd)
    (filled_first.accepted 10098 (by decide))
  have hsecond : (traffic taggedEd [] raceMessage ∅ (raceStart ++ raceEnd)).phase 10099 =
      .accepted := by
    rw [traffic, Runs.run_append]
    exact accepted_again filled_first
  have hmsg : raceMessage 10098 = raceMessage 10099 := by
    simp only [raceMessage, Nat.reduceLT, if_true, if_false]
  exact absurd (hunique 10098 10099 hfirst hsecond hmsg) (by decide)

end Forager
