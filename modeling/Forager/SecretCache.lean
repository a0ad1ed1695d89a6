import Forager.ConfigTest
import Forager.GoTime

/-!
# The secret cache

`Resolve` and `InvalidateCache` of `pkg/secrets/manager.go`, with any number of calls at
the same time: loading a cache entry, comparing its expiry with the clock, deleting it,
looking up the provider and the answer of `GetSecret` are steps of their own. A secret is
stored at the instant at which it was obtained.

Each secret carries the source and the reference that it was obtained for; no step reads
them. The cache has one text for both, so that a source with a colon can find the secret
of another one, even if no provider has its name.
-/

namespace Forager

open GoTime

/-! ## Definitions -/

/-- What `GetSecret(ref)` of the provider `source` returned, and when. -/
structure Secret where
  source : String
  ref : String
  values : Creds
  obtained : Int

structure SecretEntry where
  secret : Secret
  expires : Int

def secretTTL : Int := 5 * minute

inductive ResolvePhase
  | idle
  | looking
  | loaded (entry : SecretEntry)
  | expired
  | missed
  /-- Inside `GetSecret`. -/
  | fetching
  | returned (result : Except String Secret) (at_ : Int)

/-- The clock, the cache and the calls. `obtained` has every secret that a provider has
returned; no step reads it. -/
structure SecretState (ι : Type) where
  now : Int
  cache : GoMap SecretEntry
  phase : ι → ResolvePhase
  obtained : List Secret

inductive SecretAct (ι : Type)
  | start (i : ι)
  | load (i : ι)
  | check (i : ι)
  | delete (i : ι)
  /-- `order` is that of `availableProviders`. -/
  | lookup (i : ι) (order : IterOrder)
  | answer (i : ι) (result : Except String Creds)
  /-- `InvalidateCache`. -/
  | invalidate (source ref : String)
  | tick (now : Int)

/-- What a run is about: the names of the registered providers, the arguments of each call,
and `%q`. -/
structure SecretWorld (ι : Type) where
  providers : List String
  source : ι → String
  ref : ι → String
  formatQuoted : String → String

section Model

variable {ι : Type} [DecidableEq ι]

def SecretState.new (now : Int) : SecretState ι := ⟨now, ∅, fun _ => .idle, []⟩

def SecretState.goto (s : SecretState ι) (i : ι) (p : ResolvePhase) : SecretState ι :=
  { s with phase := Function.update s.phase i p }

variable (w : SecretWorld ι) (s : SecretState ι) (i : ι)

def SecretWorld.key : String := secretKey (w.source i) (w.ref i)

/-- The sources that `Resolve` refuses. -/
def startResolve : SecretState ι :=
  match s.phase i with
  | .idle =>
    if w.source i = "cloud_push" ∨ w.source i = "local" then
      s.goto i (.returned (.error ("source " ++ w.formatQuoted (w.source i) ++
        " should be resolved by caller, not secret manager")) s.now)
    else s.goto i .looking
  | _ => s

def loadEntry : SecretState ι :=
  match s.phase i with
  | .looking =>
    match s.cache.lookup (w.key i) with
    | some entry => s.goto i (.loaded entry)
    | none => s.goto i .missed
  | _ => s

def checkEntry : SecretState ι :=
  match s.phase i with
  | .loaded entry =>
    if s.now < entry.expires then s.goto i (.returned (.ok entry.secret) s.now)
    else s.goto i .expired
  | _ => s

def deleteEntry : SecretState ι :=
  match s.phase i with
  | .expired => { s.goto i .missed with cache := s.cache.erase (w.key i) }
  | _ => s

def lookupProvider (order : IterOrder) : SecretState ι :=
  match s.phase i with
  | .missed =>
    if w.source i ∈ w.providers then s.goto i .fetching
    else s.goto i (.returned (.error ("unknown credential source: " ++
      w.formatQuoted (w.source i) ++ " (available: [" ++
      " ".intercalate (order.visit w.providers) ++ "])")) s.now)
  | _ => s

/-- `GetSecret` returns, and its secret is stored. -/
def answerSecret (result : Except String Creds) : SecretState ι :=
  match s.phase i with
  | .fetching =>
    match result with
    | .error err =>
      s.goto i (.returned (.error ("fetching secret from " ++ w.source i ++ ": " ++ err)) s.now)
    | .ok values =>
      let secret : Secret := ⟨w.source i, w.ref i, values, s.now⟩
      { s.goto i (.returned (.ok secret) s.now) with
        cache := s.cache.insert (w.key i) ⟨secret, s.now + secretTTL⟩
        obtained := s.obtained ++ [secret] }
  | _ => s

def tickTo (now : Int) : SecretState ι := if s.now ≤ now then { s with now } else s

def secretStep (s : SecretState ι) : SecretAct ι → SecretState ι
  | .start i => startResolve w s i
  | .load i => loadEntry w s i
  | .check i => checkEntry s i
  | .delete i => deleteEntry w s i
  | .lookup i order => lookupProvider w s i order
  | .answer i result => answerSecret w s i result
  | .invalidate source ref => { s with cache := s.cache.erase (secretKey source ref) }
  | .tick now => tickTo s now

def secretRun (t : Int) (acts : List (SecretAct ι)) : SecretState ι :=
  Runs.Run (secretStep w) (.new t) acts

/-- The secret is right for a call that returns it at an instant: its provider is
registered, and it was obtained for the source and the reference of the call, at most five
minutes earlier. -/
structure RightSecret (w : SecretWorld ι) (obtained : List Secret) (i : ι) (secret : Secret)
    (at_ : Int) : Prop where
  registered : w.source i ∈ w.providers
  source_eq : secret.source = w.source i
  ref_eq : secret.ref = w.ref i
  obtained : secret ∈ obtained
  before : secret.obtained ≤ at_
  recent : at_ ≤ secret.obtained + secretTTL

/-- Every call that has returned a secret has returned a right one. -/
def ReturnsRight (s : SecretState ι) : Prop :=
  ∀ i secret at_, s.phase i = .returned (.ok secret) at_ → RightSecret w s.obtained i secret at_

/-- A call that finds an unexpired entry finds one of its own source and reference. -/
def FindsOwn (s : SecretState ι) (a : SecretAct ι) : Prop :=
  ∀ i entry, a = .check i → s.phase i = .loaded entry → s.now < entry.expires →
    entry.secret.source = w.source i ∧ entry.secret.ref = w.ref i

end Model

namespace SecretCacheLemmas

variable {ι : Type} {w : SecretWorld ι} {s : SecretState ι} {obtained obtained' : List Secret}
  {now now' : Int}
variable {p : ResolvePhase}

/-! ## The invariant -/

/-- The entry under a key was obtained from a registered provider, for a source and a
reference with that key, and expires after its time. -/
structure EntryOk (providers : List String) (obtained : List Secret) (now : Int) (key : String)
    (e : SecretEntry) : Prop where
  key_eq : key = secretKey e.secret.source e.secret.ref
  registered : e.secret.source ∈ providers
  obtained : e.secret ∈ obtained
  before : e.secret.obtained ≤ now
  expires : e.expires = e.secret.obtained + secretTTL

def PhaseOk (w : SecretWorld ι) (obtained : List Secret) (now : Int) (i : ι) : ResolvePhase → Prop
  | .loaded entry => EntryOk w.providers obtained now (w.key i) entry
  | .fetching => w.source i ∈ w.providers
  | .returned (.ok secret) at_ => RightSecret w obtained i secret at_
  | _ => True

structure Inv (w : SecretWorld ι) (s : SecretState ι) : Prop where
  cache : ∀ key e, s.cache.lookup key = some e → EntryOk w.providers s.obtained s.now key e
  phase : ∀ i, PhaseOk w s.obtained s.now i (s.phase i)

theorem EntryOk.later {key : String} {e : SecretEntry}
    (h : EntryOk w.providers obtained now key e) (hobtained : obtained ⊆ obtained')
    (hnow : now ≤ now') : EntryOk w.providers obtained' now' key e :=
  ⟨h.key_eq, h.registered, hobtained h.obtained, h.before.trans hnow, h.expires⟩

theorem PhaseOk.later {i : ι} (h : PhaseOk w obtained now i p) (hobtained : obtained ⊆ obtained')
    (hnow : now ≤ now') : PhaseOk w obtained' now' i p := by
  cases p with
  | loaded entry => exact EntryOk.later h hobtained hnow
  | fetching => exact h
  | returned result at_ =>
    cases result with
    | ok secret =>
      have hright : RightSecret w obtained i secret at_ := h
      exact { hright with obtained := hobtained hright.obtained }
    | error err => trivial
  | idle | looking | expired | missed => trivial

theorem Inv.later (h : Inv w s) (hobtained : s.obtained ⊆ obtained') (hnow : s.now ≤ now') :
    Inv w { s with obtained := obtained', now := now' } :=
  ⟨fun key e he => (h.cache key e he).later hobtained hnow,
    fun i => (h.phase i).later hobtained hnow⟩

theorem Inv.erase (h : Inv w s) (key : String) :
    Inv w { s with cache := s.cache.erase key } := by
  refine ⟨fun key' e he => ?_, h.phase⟩
  rcases eq_or_ne key' key with rfl | hne
  · rw [AList.lookup_erase] at he
    cases he
  · exact h.cache key' e ((AList.lookup_erase_ne hne).symm.trans he)

theorem Inv.insert (h : Inv w s) {key : String} {e : SecretEntry}
    (he : EntryOk w.providers s.obtained s.now key e) :
    Inv w { s with cache := s.cache.insert key e } := by
  refine ⟨fun key' e' he' => ?_, h.phase⟩
  rcases eq_or_ne key' key with rfl | hne
  · exact Option.some.inj ((AList.lookup_insert _).symm.trans he') ▸ he
  · exact h.cache key' e' ((AList.lookup_insert_ne hne).symm.trans he')

theorem Inv.at (h : Inv w s) {i : ι} (hi : s.phase i = p) :
    PhaseOk w s.obtained s.now i p := hi ▸ h.phase i

theorem Inv.returnsRight (h : Inv w s) : ReturnsRight w s := fun _ _ _ hi => h.at hi

variable [DecidableEq ι]

theorem Inv.goto (h : Inv w s) {i : ι} (hp : PhaseOk w s.obtained s.now i p) :
    Inv w (s.goto i p) := by
  refine ⟨h.cache, fun j => ?_⟩
  show PhaseOk w s.obtained s.now j (Function.update s.phase i p j)
  rcases eq_or_ne j i with rfl | hne
  · rw [Function.update_self]
    exact hp
  · rw [Function.update_of_ne hne]
    exact h.phase j

/-! ## Steps -/

theorem Inv.startResolve (h : Inv w s) (i : ι) : Inv w (startResolve w s i) := by
  unfold Forager.startResolve
  split
  · split
    · exact h.goto (p := .returned (.error _) _) trivial
    · exact h.goto (p := .looking) trivial
  · exact h

theorem Inv.loadEntry (h : Inv w s) (i : ι) : Inv w (loadEntry w s i) := by
  unfold Forager.loadEntry
  split
  · split
    · next hentry => exact h.goto (p := .loaded _) (h.cache _ _ hentry)
    · exact h.goto (p := .missed) trivial
  · exact h

theorem Inv.checkEntry (h : Inv w s) (i : ι) (hown : FindsOwn w s (.check i)) :
    Inv w (checkEntry s i) := by
  unfold Forager.checkEntry
  split
  · next entry hi =>
    have hentry : EntryOk w.providers s.obtained s.now (w.key i) entry := h.at hi
    split
    · next hlive =>
      obtain ⟨hsource, href⟩ := hown i entry rfl hi hlive
      have hrecent : s.now ≤ entry.secret.obtained + secretTTL := by
        rw [← hentry.expires]
        exact hlive.le
      exact h.goto (p := .returned (.ok _) _) ⟨hsource ▸ hentry.registered, hsource, href,
        hentry.obtained, hentry.before, hrecent⟩
    · exact h.goto (p := .expired) trivial
  · exact h

theorem Inv.deleteEntry (h : Inv w s) (i : ι) : Inv w (deleteEntry w s i) := by
  unfold Forager.deleteEntry
  split
  · exact (h.goto (p := .missed) trivial).erase _
  · exact h

theorem Inv.lookupProvider (h : Inv w s) (i : ι) (order : IterOrder) :
    Inv w (lookupProvider w s i order) := by
  unfold Forager.lookupProvider
  split
  · split
    · next hreg => exact h.goto (p := .fetching) hreg
    · exact h.goto (p := .returned (.error _) _) trivial
  · exact h

theorem Inv.answerSecret (h : Inv w s) (i : ι) (result : Except String Creds) :
    Inv w (answerSecret w s i result) := by
  unfold Forager.answerSecret
  split
  · next hi =>
    have hreg : w.source i ∈ w.providers := h.at hi
    cases result with
    | error err => exact h.goto (p := .returned (.error _) _) trivial
    | ok values =>
      -- first what was obtained is noted, then come the result and the entry
      let secret : Secret := ⟨w.source i, w.ref i, values, s.now⟩
      have hlater := h.later (List.subset_append_left s.obtained [secret]) (le_refl s.now)
      have hmem : secret ∈ s.obtained ++ [secret] := by simp
      have hrecent : s.now ≤ s.now + secretTTL := Int.le_add_of_nonneg_right (by decide)
      have hreturned := hlater.goto (i := i) (p := .returned (.ok secret) s.now)
        ⟨hreg, rfl, rfl, hmem, le_rfl, hrecent⟩
      exact hreturned.insert (e := ⟨secret, s.now + secretTTL⟩) ⟨rfl, hreg, hmem, le_rfl, rfl⟩
  · exact h

theorem inv_step (h : Inv w s) (a : SecretAct ι) (hown : FindsOwn w s a) :
    Inv w (secretStep w s a) := by
  cases a with
  | start i => exact h.startResolve i
  | load i => exact h.loadEntry i
  | check i => exact h.checkEntry i hown
  | delete i => exact h.deleteEntry i
  | lookup i order => exact h.lookupProvider i order
  | answer i result => exact h.answerSecret i result
  | invalidate source ref => exact h.erase _
  | tick now =>
    show Inv w (tickTo s now)
    unfold tickTo
    split
    · next hnow => exact h.later (fun _ hx => hx) hnow
    · exact h

theorem secretRun_snoc (t : Int) (pre : List (SecretAct ι)) (a : SecretAct ι) :
    secretRun w t (pre ++ [a]) = secretStep w (secretRun w t pre) a := Runs.run_snoc _ _ _ _

theorem inv_new (t : Int) : Inv w (secretRun w t []) := by
  refine ⟨fun key e he => ?_, fun _ => trivial⟩
  cases he

/-- A call returns a right secret only from an own entry. -/
theorem findsOwn_of_right {a : SecretAct ι} (h : ReturnsRight w (secretStep w s a)) :
    FindsOwn w s a := by
  rintro i entry rfl hi hlive
  have hreturned : (secretStep w s (.check i)).phase i = .returned (.ok entry.secret) s.now := by
    show (checkEntry s i).phase i = _
    unfold checkEntry
    rw [hi]
    simp only [if_pos hlive]
    exact Function.update_self ..
  have hright := h i entry.secret s.now hreturned
  exact ⟨hright.source_eq, hright.ref_eq⟩

/-- Sources without a colon have a key of their own for each reference. -/
theorem secretKey_inj {a b r q : String} (ha : ':' ∉ a.toList) (hb : ':' ∉ b.toList)
    (h : secretKey a r = secretKey b q) : a = b ∧ r = q := by
  have hlist : a.toList ++ ':' :: r.toList = b.toList ++ ':' :: q.toList := by
    simpa [secretKey] using congrArg String.toList h
  have hne {l : List Char} (hl : ':' ∉ l) : ∀ c ∈ l, (c != ':') = true := by
    rintro c hc
    exact bne_iff_ne.mpr fun he => hl (he ▸ hc)
  have hab := congrArg (List.takeWhile (· != ':')) hlist
  rw [List.takeWhile_append_of_pos (hne ha), List.takeWhile_append_of_pos (hne hb)] at hab
  have hab : a.toList = b.toList := by simpa using hab
  rw [hab] at hlist
  exact ⟨String.toList_inj.mp hab,
    String.toList_inj.mp (List.cons.inj (List.append_cancel_left hlist)).2⟩

end SecretCacheLemmas

open SecretCacheLemmas in
/-- For all providers and calls and every interleaving of the calls of `Resolve` with
`InvalidateCache` and a clock that does not go back: all secrets that are returned are right
in every state that is reached exactly if every unexpired entry that a call finds belongs to
its own source and reference. -/
theorem secret_right_iff {ι : Type} [DecidableEq ι] (w : SecretWorld ι) (t : Int)
    (acts : List (SecretAct ι)) :
    (∀ pre, pre <+: acts → ReturnsRight w (secretRun w t pre)) ↔
      ∀ pre a, pre ++ [a] <+: acts → FindsOwn w (secretRun w t pre) a := by
  constructor
  · intro h pre a hp
    have hafter := h _ hp
    rw [secretRun_snoc] at hafter
    exact findsOwn_of_right hafter
  · intro h pre hpre
    refine Inv.returnsRight (Runs.run_invariant (fun pre => Inv w (secretRun w t pre))
      (fun pre a => FindsOwn w (secretRun w t pre) a) (inv_new t) (fun pre a hown hinv => ?_)
      fun pre' a hp => h pre' a (hp.trans hpre))
    rw [secretRun_snoc]
    exact inv_step hinv a hown

open SecretCacheLemmas in
/-- Where neither the names of the providers nor the sources of the calls have a colon, all
secrets that are returned are right, whatever else goes on at the same time. -/
theorem secret_right_of_colon_free {ι : Type} [DecidableEq ι] (w : SecretWorld ι) (t : Int)
    (hproviders : ∀ name ∈ w.providers, ':' ∉ name.toList)
    (hcalls : ∀ i, ':' ∉ (w.source i).toList) (acts : List (SecretAct ι)) :
    ReturnsRight w (secretRun w t acts) := by
  refine Inv.returnsRight (Runs.run_invariant (fun pre => Inv w (secretRun w t pre))
    (fun _ _ => True) (inv_new t) (fun pre a _ hinv => ?_) fun _ _ _ => trivial)
  rw [secretRun_snoc]
  refine inv_step hinv a fun i entry _ hi _ => ?_
  have hentry : EntryOk w.providers _ _ (w.key i) entry := hinv.at hi
  obtain ⟨hs, hr⟩ := secretKey_inj (hcalls i) (hproviders _ hentry.registered) hentry.key_eq
  exact ⟨hs.symm, hr.symm⟩

/-- Any number of calls of one provider. -/
def awsWorld : SecretWorld Nat := ⟨["aws_sm"], fun _ => "aws_sm", Nat.repr, id⟩

theorem secret_right_aws :
    ReturnsRight awsWorld (secretRun awsWorld 0 [.start 0, .load 0, .lookup 0 .asKept, .start 1,
      .answer 0 (.ok []), .load 1]) :=
  secret_right_of_colon_free awsWorld 0 (by decide)
    (fun _ => (by decide : ':' ∉ "aws_sm".toList)) _

/-- Two calls with one key: `aws_sm` with the reference `arn:x`, and the source `aws_sm:arn`
with the reference `x`. -/
def collidingWorld : SecretWorld Bool where
  providers := ["aws_sm"]
  source other := if other then "aws_sm:arn" else "aws_sm"
  ref other := if other then "x" else "arn:x"
  formatQuoted s := s.quote

def collidingActs : List (SecretAct Bool) :=
  [.start false, .load false, .lookup false .asKept,
    .answer false (.ok [("password", "s3cret")]), .start true, .load true, .check true]

/-- The source `aws_sm:arn`, which no provider has, gets the secret of `aws_sm`. -/
theorem secret_of_other_source :
    let s := secretRun collidingWorld 0 collidingActs
    s.phase true = .returned (.ok ⟨"aws_sm", "arn:x", [("password", "s3cret")], 0⟩) 0 ∧
      collidingWorld.source true ∉ collidingWorld.providers ∧ ¬ ReturnsRight collidingWorld s := by
  intro s
  have hreturned : s.phase true =
      .returned (.ok ⟨"aws_sm", "arn:x", [("password", "s3cret")], 0⟩) 0 := by rfl
  have hunknown : collidingWorld.source true ∉ collidingWorld.providers := by decide
  exact ⟨hreturned, hunknown, fun h => hunknown (h true _ 0 hreturned).registered⟩

end Forager
