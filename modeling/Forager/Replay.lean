import Mathlib.Data.List.Perm.Subperm
import Forager.Runs
import Forager.Signing

/-!
# Replay

Whole runs of `Verifier.Verify`: how often a pair of signed payload and
signature is accepted, against how often `Sign` produced it. The signature
covers neither the nonce nor `signed_at`, so what is in the nonce table only
says something about messages that still carry their own.
-/

namespace Forager

open GoTime

structure Call where
  clock : Clock
  msg : Text

/-- The metadata that a message carries. -/
def Call.carried (c : Call) : Production :=
  let env := (signatureEnvelope c.msg).1
  ⟨env.signedPayload, env.signature, env.signedAt, env.nonce⟩

/-- The pair of signed payload and signature. -/
def Production.pair (p : Production) : String × String := (p.signedPayload, p.signature)

/-- One more call; the accepted ones are kept. -/
def verifyStep (ed : Ed25519) (s : Verifier × List Call) (c : Call) : Verifier × List Call :=
  let r := verify ed s.1 c.clock c.msg
  (r.2, if r.1 = .ok () then s.2 ++ [c] else s.2)

/-- The verifier and the accepted calls after a run. -/
def verifyRun (ed : Ed25519) (v : Verifier) (calls : List Call) : Verifier × List Call :=
  Runs.Run (verifyStep ed) (v, []) calls

/-- The clock never goes back, within a call and from call to call. -/
def ClockRuns (calls : List Call) : Prop :=
  (∀ c ∈ calls, c.clock.window ≤ c.clock.record ∧ c.clock.record ≤ c.clock.evict) ∧
    calls.Pairwise fun c d => c.clock.evict ≤ d.clock.window

/-- The call carries its metadata as `Sign` made it, with a time less than 2⁶³
nanoseconds ahead of the clock. -/
def Carries (productions : List Production) (c : Call) : Prop :=
  c.carried ∈ productions ∧
    ∀ t, parseRFC3339 c.carried.signedAt.toList = some t → minDuration < c.clock.window - t

namespace ReplayLemmas

variable {productions : List Production} {s : Verifier × List Call}

variable {ed : Ed25519} {v : Verifier} {calls pre : List Call} {c d : Call}

/-! ## The nonce table -/

theorem lookup_evictBefore (cutoff : Int) (m : GoMap Int) (n : String) {r : Int}
    (h : m.lookup n = some r) : (evictBefore cutoff m).lookup n = some r ∨ r < cutoff := by
  rw [or_iff_not_imp_right, not_lt]
  intro hle
  have hmem := AList.mem_lookup_iff.mp h
  exact AList.mem_lookup_iff.mpr (List.mem_filter.mpr ⟨hmem, by simpa using hle⟩)

theorem lookup_checkAndRecordNonce {seen : GoMap Int} {clock : Clock} {nonce n : String} {r : Int}
    (hnew : seen.lookup nonce = none)
    (h : seen.lookup n = some r ∨ (n = nonce ∧ r = clock.record)) :
    (checkAndRecordNonce seen clock nonce).2.lookup n = some r ∨ r + 10 * minute < clock.evict := by
  have hins : (seen.insert nonce clock.record).lookup n = some r := by
    rcases h with h | ⟨rfl, rfl⟩
    · rw [AList.lookup_insert_ne, h]
      rintro rfl
      rw [h] at hnew
      cases hnew
    · exact AList.lookup_insert seen
  unfold checkAndRecordNonce
  rw [if_neg (by simp [hnew])]
  dsimp only
  split
  · rcases lookup_evictBefore (clock.evict - maxTimestampSkew * 2) _ n hins with hin | hlt
    · exact .inl hin
    · right
      unfold maxTimestampSkew at hlt
      omega
  · exact .inl hins

theorem checkAndRecordNonce_fst {seen : GoMap Int} {clock : Clock} {nonce : String} :
    (checkAndRecordNonce seen clock nonce).1 = false ↔ seen.lookup nonce = none := by
  unfold checkAndRecordNonce
  cases h : seen.lookup nonce with
  | some r => simp
  | none =>
    simp only [Option.isSome_none, Bool.false_eq_true, if_false]
    split <;> simp

/-! ## One call -/

theorem verifyStep_cases (hen : s.1.enabled = true) (c : Call) :
    verifyStep ed s c = s ∨
    (Passed ed s.1 c.clock.window c.msg (signatureEnvelope c.msg).1 ∧
      s.1.seenNonces.lookup c.carried.nonce = none ∧
      verifyStep ed s c = ({ s.1 with seenNonces :=
        (checkAndRecordNonce s.1.seenNonces c.clock c.carried.nonce).2 }, s.2 ++ [c])) := by
  unfold verifyStep verify
  rw [if_neg (by simp [hen])]
  cases hs : verifySignature ed s.1 c.clock.window c.msg with
  | error err => exact .inl (by simp)
  | ok env =>
    have hp := SigningLemmas.verifySignature_ok_iff.mp hs
    obtain rfl : env = (signatureEnvelope c.msg).1 := by rw [hp.decoded]
    dsimp only
    rcases hc : checkAndRecordNonce s.1.seenNonces c.clock (signatureEnvelope c.msg).1.nonce with
      ⟨_ | _, seen⟩
    · refine .inr ⟨hp, checkAndRecordNonce_fst.mp (by rw [Call.carried, hc]), ?_⟩
      simp [Call.carried, hc]
    · exact .inl (by simp)

/-- The window check of an accepted call. -/
def InWindow (c : Call) : Prop :=
  ∃ t, parseRFC3339 c.carried.signedAt.toList = some t ∧
    absDuration (sub c.clock.window t) ≤ maxTimestampSkew

/-- What holds of the verifier and the accepted calls after the calls `pre`. -/
structure Remembered (s : Verifier × List Call) (pre : List Call) : Prop where
  enabled : s.1.enabled = true
  mem : ∀ c ∈ s.2, c ∈ pre
  inWindow : ∀ c ∈ s.2, InWindow c
  nonce : ∀ c ∈ s.2, s.1.seenNonces.lookup c.carried.nonce = some c.clock.record ∨
    ∃ d ∈ pre, c.clock.record + 10 * minute < d.clock.evict

/-- An accepted nonce is in the table, or ten minutes have passed. -/
theorem remembered_step (h : Remembered s pre) (c : Call) :
    Remembered (verifyStep ed s c) (pre ++ [c]) := by
  rcases verifyStep_cases h.enabled c with he | ⟨hp, hnew, he⟩
  · rw [he]
    refine ⟨h.enabled, fun d hd => List.mem_append_left _ (h.mem d hd), h.inWindow, fun d hd => ?_⟩
    refine (h.nonce d hd).imp_right fun ⟨e, hmem, hlt⟩ => ⟨e, List.mem_append_left _ hmem, hlt⟩
  · rw [he]
    refine ⟨h.enabled, fun d hd => ?_, fun d hd => ?_, fun d hd => ?_⟩
    all_goals rcases List.mem_append.mp hd with hd | hd
    · exact List.mem_append_left _ (h.mem d hd)
    · exact List.mem_append_right _ hd
    · exact h.inWindow d hd
    · rw [List.mem_singleton.mp hd]
      exact hp.window
    · rcases h.nonce d hd with hin | ⟨e, hmem, hlt⟩
      · refine (lookup_checkAndRecordNonce hnew (.inl hin)).imp_right fun hlt => ?_
        exact ⟨c, by simp, hlt⟩
      · exact .inr ⟨e, List.mem_append_left _ hmem, hlt⟩
    · rw [List.mem_singleton.mp hd]
      refine (lookup_checkAndRecordNonce hnew (.inr ⟨rfl, rfl⟩)).imp_right fun hlt => ?_
      exact ⟨c, by simp, hlt⟩

theorem remembered_run (ed : Ed25519) (hen : v.enabled = true) (calls : List Call) :
    Remembered (verifyRun ed v calls) calls := by
  refine Runs.run_invariant (fun pre => Remembered (verifyRun ed v pre) pre) (fun _ _ => True)
    ?_ (fun pre c _ h => ?_) (fun _ _ _ => trivial)
  · exact ⟨hen, by simp [verifyRun], by simp [verifyRun], by simp [verifyRun]⟩
  · unfold verifyRun at h ⊢
    rw [Runs.run_snoc]
    exact remembered_step h c

/-! ## Two accepted calls -/

theorem InWindow.dist (h : InWindow c) (hc : Carries productions c) {t : Int}
    (ht : parseRFC3339 c.carried.signedAt.toList = some t) :
    c.clock.window - t ≤ 5 * minute ∧ t - c.clock.window ≤ 5 * minute := by
  obtain ⟨t', ht', hwin⟩ := h
  obtain rfl := Option.some.inj (ht.symm.trans ht')
  have habs := abs_le.mp (SigningLemmas.abs_le_of_window hwin (hc.2 t ht))
  omega

theorem carried_ne (h : Remembered s pre) (hclock : ClockRuns (pre ++ [c])) (hd : d ∈ s.2)
    (hcd : Carries productions d) (hcc : Carries productions c) (hwin : InWindow c)
    (hnew : s.1.seenNonces.lookup c.carried.nonce = none) : d.carried ≠ c.carried := by
  intro he
  obtain ⟨t, ht, -⟩ := h.inWindow d hd
  have hdist := (h.inWindow d hd).dist hcd ht
  have hdist' := hwin.dist hcc (he ▸ ht)
  obtain ⟨hin, hpair⟩ := hclock
  have hrec := (hin d (List.mem_append_left _ (h.mem d hd))).1
  rcases h.nonce d hd with hl | ⟨e, hmem, hlt⟩
  · rw [he, hnew] at hl
    cases hl
  · -- ten minutes have passed, so one of the two was outside its window
    have hle := (List.pairwise_append.mp hpair).2.2 e hmem c (by simp)
    omega

/-- The metadata of the accepted calls on a pair. -/
def acceptedOn (s : Verifier × List Call) (pair : String × String) : List Production :=
  (s.2.map Call.carried).filter (·.pair = pair)

theorem nodup_acceptedOn (ed : Ed25519) {pair : String × String} (hen : v.enabled = true)
    (hclock : ClockRuns calls)
    (hcarries : ∀ c ∈ calls, c.carried.pair = pair → Carries productions c) :
    (acceptedOn (verifyRun ed v calls) pair).Nodup := by
  refine Runs.run_invariant (fun pre => (acceptedOn (verifyRun ed v pre) pair).Nodup)
    (fun pre c => ClockRuns (pre ++ [c]) ∧
      ∀ d ∈ pre ++ [c], d.carried.pair = pair → Carries productions d)
    List.nodup_nil (fun pre c ⟨hclock, hcarries⟩ ih => ?_) (fun pre c hp => ?_)
  · have hrem := remembered_run ed hen pre
    unfold verifyRun at ih hrem ⊢
    rw [Runs.run_snoc]
    generalize Runs.Run (verifyStep ed) (v, []) pre = s at ih hrem
    rcases verifyStep_cases hrem.enabled c with he | ⟨hp, hnew, he⟩
    · rwa [he]
    · rw [he]
      simp only [acceptedOn, List.map_append, List.filter_append] at ih ⊢
      by_cases hpair : c.carried.pair = pair
      · simp only [List.map_singleton, List.filter_singleton, hpair, decide_true, cond_true]
        refine List.nodup_append.mpr ⟨ih, List.nodup_singleton _, ?_⟩
        rintro _ ha _ hb rfl
        rw [List.mem_singleton] at hb
        obtain ⟨d, hd, hde⟩ := List.mem_map.mp (List.mem_of_mem_filter ha)
        have hdp : d.carried.pair = pair := by rw [hde, hb, hpair]
        exact carried_ne hrem hclock hd (hcarries d (List.mem_append_left _ (hrem.mem d hd)) hdp)
          (hcarries c (by simp) hpair) hp.window hnew (hde.trans hb)
      · simpa [hpair] using ih
  · have hsub := hp.sublist
    exact ⟨⟨fun c hc => hclock.1 c (hsub.subset hc), hclock.2.sublist hsub⟩,
      fun d hd => hcarries d (hsub.subset hd)⟩

end ReplayLemmas

/-! ## Results -/

/-- One call of `Sign` on a JSON object. -/
structure SignCall where
  now : Int
  nonce : String
  fields : Go.StrMap JsonText.Json

def productions (ed : Ed25519) (signer : Signer) (signs : List SignCall) : List Production :=
  signs.map fun c => produce ed signer c.now c.nonce c.fields

open ReplayLemmas in
/-- If the clock never goes back and every call on a pair carries the nonce and
the time of one of its productions, then the pair is accepted at most as often
as it was produced. -/
theorem replay_bound (ed : Ed25519) (signer : Signer) (signs : List SignCall) (v : Verifier)
    (calls : List Call) (pair : String × String) (hen : v.enabled = true)
    (hclock : ClockRuns calls)
    (hcarries : ∀ c ∈ calls, c.carried.pair = pair → Carries (productions ed signer signs) c) :
    ((verifyRun ed v calls).2.filter (·.carried.pair = pair)).length ≤
      ((productions ed signer signs).filter (·.pair = pair)).length := by
  have hnodup := nodup_acceptedOn ed hen hclock hcarries
  have hsub : acceptedOn (verifyRun ed v calls) pair ⊆
      (productions ed signer signs).filter (·.pair = pair) := by
    intro p hp
    obtain ⟨hp, hpair⟩ := List.mem_filter.mp hp
    obtain ⟨c, hc, rfl⟩ := List.mem_map.mp hp
    have hmem := (remembered_run ed hen calls).mem c hc
    exact List.mem_filter.mpr ⟨(hcarries c hmem (by simpa using hpair)).1, hpair⟩
  have hlen := (List.subperm_of_subset hnodup hsub).length_le
  rwa [acceptedOn, List.filter_map, List.length_map] at hlen

def querySign : SignCall :=
  ⟨0, "n", [("action", .str (GoJson.quote "db_query"))]⟩

def queryProduction : Production :=
  produce echoEd ⟨[], ""⟩ querySign.now querySign.nonce querySign.fields

def queryCall : Call := ⟨⟨0, 0, 0⟩, messageOf queryProduction querySign.fields⟩

def renoncedCall : Call :=
  ⟨⟨1, 1, 1⟩, messageOf { queryProduction with nonce := "m" } querySign.fields⟩

theorem replay_bound_query :
    ((verifyRun echoEd ⟨[], true, ∅⟩ [queryCall, queryCall]).2.filter
        (·.carried.pair = queryProduction.pair)).length ≤
      ((productions echoEd ⟨[], ""⟩ [querySign]).filter
        (·.pair = queryProduction.pair)).length := by
  refine replay_bound echoEd ⟨[], ""⟩ [querySign] ⟨[], true, ∅⟩ [queryCall, queryCall]
    queryProduction.pair rfl ⟨by decide, by decide⟩ ?_
  intro c hc _
  obtain rfl : c = queryCall := by simpa using hc
  refine ⟨by decide +kernel, fun t ht => ?_⟩
  have h0 : parseRFC3339 queryCall.carried.signedAt.toList = some 0 := by decide +kernel
  obtain rfl := Option.some.inj (h0.symm.trans ht)
  decide

/-- Not in every run, whatever the scheme: the nonce is not signed, and with a
new one a single production is accepted twice. -/
theorem replay_fresh_nonce :
    ¬ ∀ (ed : Ed25519) (signer : Signer) (signs : List SignCall) (v : Verifier)
      (calls : List Call) (pair : String × String),
      (∀ p sig, ed.verify v.publicKey p sig = true ↔ sig = ed.sign signer.privateKey p) →
      v.enabled = true → ClockRuns calls →
      ((verifyRun ed v calls).2.filter (·.carried.pair = pair)).length ≤
        ((productions ed signer signs).filter (·.pair = pair)).length := by
  intro h
  have htwice := h echoEd ⟨[], ""⟩ [querySign] ⟨[], true, ∅⟩ [queryCall, renoncedCall]
    queryProduction.pair (by simp [echoEd]) rfl ⟨by decide, by decide⟩
  revert htwice
  decide +kernel

end Forager
