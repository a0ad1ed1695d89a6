import Mathlib.Logic.Equiv.List
import Forager.ConfigSync
import Forager.GoText
import Forager.Runs

/-!
# The credential store

`CloudPushStore` of `pkg/secrets/cloud_push.go` keeps the pushed credentials in a map
and in an encrypted file. `Set` and `Delete` change the map and then save it.
`os.WriteFile` truncates the file before it writes, so a save that fails may leave the
file as it was or leave any piece of the new one.

AES-GCM and `encoding/json` are parameters (`CredCodec`). They are assumed to round
trip, and AES-GCM to reject truncated data (`CredCodec.Lawful`).
-/

namespace Forager

open GoText (Bytes)
def nonceSize : Nat := 12

abbrev Nonce := { b : Bytes // b.length = nonceSize }

/-- The library functions that the store calls. `V` is `map[string]string`, of which
the store reads nothing. The key is part of `gcmSeal` and `gcmOpen`. -/
structure CredCodec (V : Type) where
  /-- `json.Marshal`, which does not fail on a map of strings. -/
  marshal : GoMap V → Bytes
  /-- `json.Unmarshal` into an empty map. -/
  unmarshal : Bytes → Except String (GoMap V)
  /-- `gcm.Seal` of a nonce and a plaintext, without the nonce in front. -/
  gcmSeal : Bytes → Bytes → Bytes
  /-- `gcm.Open` of a nonce and a ciphertext. -/
  gcmOpen : Bytes → Bytes → Except String Bytes

def SameMap {V : Type} (m m' : GoMap V) : Prop := ∀ id, m.lookup id = m'.lookup id

namespace CredCodec

variable {V : Type} (c : CredCodec V)

structure Lawful : Prop where
  open_seal : ∀ nonce plaintext, c.gcmOpen nonce (c.gcmSeal nonce plaintext) = .ok plaintext
  open_truncated : ∀ nonce plaintext b, b <+: c.gcmSeal nonce plaintext →
    b ≠ c.gcmSeal nonce plaintext → ∃ err, c.gcmOpen nonce b = .error err
  unmarshal_marshal : ∀ m, ∃ m', c.unmarshal (c.marshal m) = .ok m' ∧ SameMap m' m

def encryptAESGCM (nonce : Nonce) (plaintext : Bytes) : Bytes :=
  nonce.1 ++ c.gcmSeal nonce.1 plaintext

def decryptAESGCM (ciphertext : Bytes) : Except String Bytes :=
  if ciphertext.length < nonceSize then .error "ciphertext too short"
  else c.gcmOpen (ciphertext.take nonceSize) (ciphertext.drop nonceSize)

def loadFromDisk (data : Bytes) : Except String (GoMap V) :=
  match c.decryptAESGCM data with
  | .error err => .error ("decrypting: " ++ err)
  | .ok plaintext => c.unmarshal plaintext

/-- `NewCloudPushStore` on the file, `none` if there is no file. -/
def newCloudPushStore : Option Bytes → Except String (GoMap V)
  | none => .ok ∅
  | some data =>
    match c.loadFromDisk data with
    | .error err => .error ("loading credentials: " ++ err)
    | .ok creds => .ok creds

end CredCodec

inductive SaveFault
  /-- No random bytes for the nonce. -/
  | encrypt (err : String)
  | mkdir (err : String)
  /-- `os.WriteFile` cannot open the file. -/
  | openFile (err : String)
  /-- `os.WriteFile` has truncated the file and written `written` bytes. -/
  | write (written : Nat) (err : String)

/-- `saveToDisk`: the file it leaves and its error. -/
def saveToDisk {V : Type} (c : CredCodec V) (creds : GoMap V) (file : Option Bytes)
    (nonce : Nonce) : Option SaveFault → Option Bytes × Option String
  | some (.encrypt err) => (file, some ("encrypting: " ++ err))
  | some (.mkdir err) => (file, some ("creating data dir: " ++ err))
  | some (.openFile err) => (file, some err)
  | some (.write written err) =>
    (some ((c.encryptAESGCM nonce (c.marshal creds)).take written), some err)
  | none => (some (c.encryptAESGCM nonce (c.marshal creds)), none)

structure CloudPushStore (V : Type) where
  creds : GoMap V
  file : Option Bytes

inductive CredEdit (V : Type)
  | set (datasourceID : String) (creds : V)
  | delete (datasourceID : String)

namespace CloudPushStore

variable {V : Type} (c : CredCodec V) (s : CloudPushStore V)

/-- The store after a save of its map, and the error. -/
def save (nonce : Nonce) (fault : Option SaveFault) : CloudPushStore V × Option String :=
  let (file, err) := saveToDisk c s.creds s.file nonce fault
  ({ s with file := file }, err)

def set (datasourceID : String) (creds : V) (nonce : Nonce) (fault : Option SaveFault) :
    CloudPushStore V × Option String :=
  { s with creds := s.creds.insert datasourceID creds }.save c nonce fault

def delete (datasourceID : String) (nonce : Nonce) (fault : Option SaveFault) :
    CloudPushStore V × Option String :=
  { s with creds := s.creds.erase datasourceID }.save c nonce fault

def call (nonce : Nonce) (fault : Option SaveFault) :
    CredEdit V → CloudPushStore V × Option String
  | .set id creds => s.set c id creds nonce fault
  | .delete id => s.delete c id nonce fault

end CloudPushStore

def CredEdit.apply {V : Type} (m : GoMap V) : CredEdit V → GoMap V
  | .set id creds => m.insert id creds
  | .delete id => m.erase id

/-! ## Runs -/

/-- A call, with what its save meets, or a restart of the agent. -/
inductive CredAct (V : Type)
  | call (e : CredEdit V) (nonce : Nonce) (fault : Option SaveFault)
  | restart

/-- The agent along a run. `acked` and `short` are notes that no step reads. -/
structure CredState (V : Type) where
  /-- The store, `none` after `NewCloudPushStore` has failed. -/
  store : Option (GoMap V)
  file : Option Bytes
  /-- The map of exactly the calls that returned nil. -/
  acked : GoMap V
  /-- The last save that truncated the file did not write all of it. -/
  short : Bool

namespace CredState

variable {V : Type}

/-- The first start, without a file. -/
def new : CredState V := ⟨some ∅, none, ∅, false⟩

def get (s : CredState V) (id : String) : Option V := s.store.bind (·.lookup id)

def shortAfter (c : CredCodec V) (short : Bool) (creds : GoMap V) (nonce : Nonce) :
    Option SaveFault → Bool
  | some (.write written _) =>
    decide (written < (c.encryptAESGCM nonce (c.marshal creds)).length)
  | some (.encrypt _) | some (.mkdir _) | some (.openFile _) => short
  | none => false

end CredState

section Step

variable {V : Type} (c : CredCodec V)

def credStep (s : CredState V) : CredAct V → CredState V
  | .call e nonce fault =>
    match s.store with
    | none => s
    | some creds =>
      let (st, err) := CloudPushStore.call c ⟨creds, s.file⟩ nonce fault e
      { store := some st.creds
        file := st.file
        acked := if err.isNone then e.apply s.acked else s.acked
        short := CredState.shortAfter c s.short st.creds nonce fault }
  | .restart => { s with store := (c.newCloudPushStore s.file).toOption }

def credErr (s : CredState V) : CredAct V → Option String
  | .call e nonce fault =>
    s.store.bind fun creds => (CloudPushStore.call c ⟨creds, s.file⟩ nonce fault e).2
  | .restart => none

def credRun (acts : List (CredAct V)) : CredState V := Runs.Run (credStep c) .new acts

/-- A failed call leaves `Get` as it was; after a restart the store is open and `Get`
agrees with the acknowledged calls. -/
structure AtomicDurable (acts : List (CredAct V)) : Prop where
  atomic : ∀ pre a, pre ++ [a] <+: acts → credErr c (credRun c pre) a ≠ none →
    ∀ id, (credRun c (pre ++ [a])).get id = (credRun c pre).get id
  durable : ∀ pre, pre ++ [.restart] <+: acts →
    (credRun c (pre ++ [.restart])).store.isSome ∧
      ∀ id, (credRun c (pre ++ [.restart])).get id = (credRun c pre).acked.lookup id

end Step

/-- A call whose save fails sets what is stored already or deletes what is not there,
and a restart does not find a short file. -/
def SafeAct {V : Type} (s : CredState V) : CredAct V → Prop
  | .call (.set id creds) _ (some _) => s.get id = some creds
  | .call (.delete id) _ (some _) => s.get id = none
  | .call _ _ none => True
  | .restart => s.short = false

instance {V : Type} [DecidableEq V] (s : CredState V) (a : CredAct V) : Decidable (SafeAct s a) :=
  match a with
  | .call (.set id creds) _ (some _) => inferInstanceAs (Decidable (s.get id = some creds))
  | .call (.delete id) _ (some _) => inferInstanceAs (Decidable (s.get id = none))
  | .call (.set _ _) _ none | .call (.delete _) _ none => inferInstanceAs (Decidable True)
  | .restart => inferInstanceAs (Decidable (s.short = false))

namespace CloudPushLemmas

variable {V : Type} {c : CredCodec V} {s : CredState V} {m m' : GoMap V}

/-! ## The file -/

theorem decrypt_encrypt (hc : c.Lawful) (nonce : Nonce) (plaintext : Bytes) :
    c.decryptAESGCM (c.encryptAESGCM nonce plaintext) = .ok plaintext := by
  have hlen : ¬ (nonce.1 ++ c.gcmSeal nonce.1 plaintext).length < nonceSize := by
    rw [List.length_append, nonce.2]
    exact Nat.not_lt.mpr (Nat.le_add_right ..)
  rw [CredCodec.decryptAESGCM, CredCodec.encryptAESGCM, if_neg hlen,
    List.take_left' nonce.2, List.drop_left' nonce.2]
  exact hc.open_seal nonce.1 plaintext

theorem decrypt_short (hc : c.Lawful) (nonce : Nonce) (plaintext : Bytes) {written : Nat}
    (h : written < (c.encryptAESGCM nonce plaintext).length) :
    ∃ err, c.decryptAESGCM ((c.encryptAESGCM nonce plaintext).take written) = .error err := by
  unfold CredCodec.decryptAESGCM
  split
  · exact ⟨_, rfl⟩
  · rename_i hlen
    rw [List.length_take, Nat.min_eq_left h.le, Nat.not_lt] at hlen
    unfold CredCodec.encryptAESGCM at h ⊢
    rw [List.length_append, nonce.2] at h
    rw [List.take_take, Nat.min_eq_left hlen, List.take_left' nonce.2, List.drop_take,
      List.drop_left' nonce.2]
    refine hc.open_truncated _ plaintext _ (List.take_prefix ..) fun heq => ?_
    have := congrArg List.length heq
    rw [List.length_take] at this
    omega

theorem newCloudPushStore_saved (hc : c.Lawful) (nonce : Nonce) (m : GoMap V) :
    ∃ m', c.newCloudPushStore (some (c.encryptAESGCM nonce (c.marshal m))) = .ok m' ∧
      SameMap m' m := by
  obtain ⟨m', hm', hsame⟩ := hc.unmarshal_marshal m
  refine ⟨m', ?_, hsame⟩
  simp only [CredCodec.newCloudPushStore, CredCodec.loadFromDisk, decrypt_encrypt hc, hm']

theorem newCloudPushStore_torn (hc : c.Lawful) (nonce : Nonce) (m : GoMap V) {written : Nat}
    (h : written < (c.encryptAESGCM nonce (c.marshal m)).length) :
    ∃ err, c.newCloudPushStore
      (some ((c.encryptAESGCM nonce (c.marshal m)).take written)) = .error err := by
  obtain ⟨err, herr⟩ := decrypt_short hc nonce (c.marshal m) h
  refine ⟨"loading credentials: " ++ ("decrypting: " ++ err), ?_⟩
  simp only [CredCodec.newCloudPushStore, CredCodec.loadFromDisk, herr]

/-! ## The map -/

theorem SameMap.trans {m'' : GoMap V} (h : SameMap m m') (h' : SameMap m' m'') : SameMap m m'' :=
  fun id => (h id).trans (h' id)

theorem SameMap.apply (h : SameMap m m') (e : CredEdit V) : SameMap (e.apply m) (e.apply m') := by
  intro id
  cases e with
  | set id' creds =>
    rcases eq_or_ne id id' with rfl | hne
    · exact (AList.lookup_insert m).trans (AList.lookup_insert m').symm
    · exact (AList.lookup_insert_ne hne).trans ((h id).trans (AList.lookup_insert_ne hne).symm)
  | delete id' =>
    rcases eq_or_ne id id' with rfl | hne
    · exact (AList.lookup_erase id m).trans (AList.lookup_erase id m').symm
    · exact (AList.lookup_erase_ne hne).trans ((h id).trans (AList.lookup_erase_ne hne).symm)

/-- The map has what the edit would bring about. -/
def Idle (m : GoMap V) : CredEdit V → Prop
  | .set id creds => m.lookup id = some creds
  | .delete id => m.lookup id = none

theorem sameMap_apply_iff (e : CredEdit V) : SameMap (e.apply m) m ↔ Idle m e := by
  cases e with
  | set id creds =>
    refine ⟨fun h => (h id).symm.trans (AList.lookup_insert m), fun h id' => ?_⟩
    rcases eq_or_ne id' id with rfl | hne
    · exact (AList.lookup_insert m).trans h.symm
    · exact AList.lookup_insert_ne hne
  | delete id =>
    refine ⟨fun h => (h id).symm.trans (AList.lookup_erase id m), fun h id' => ?_⟩
    rcases eq_or_ne id' id with rfl | hne
    · exact (AList.lookup_erase id' m).trans h.symm
    · exact AList.lookup_erase_ne hne

/-! ## Steps -/

/-- The store is open and has the acknowledged map; the file has it too, or is short. -/
structure Consistent (c : CredCodec V) (s : CredState V) : Prop where
  memory : ∃ m, s.store = some m ∧ SameMap m s.acked
  whole : s.short = false → ∃ m, c.newCloudPushStore s.file = .ok m ∧ SameMap m s.acked
  torn : s.short = true → ∃ err, c.newCloudPushStore s.file = .error err

theorem consistent_new : Consistent c .new :=
  ⟨⟨∅, rfl, fun _ => rfl⟩, fun _ => ⟨∅, rfl, fun _ => rfl⟩, fun h => by cases h⟩

theorem call_eq (st : CloudPushStore V) (e : CredEdit V) (nonce : Nonce)
    (fault : Option SaveFault) :
    st.call c nonce fault e =
      (⟨e.apply st.creds, (saveToDisk c (e.apply st.creds) st.file nonce fault).1⟩,
        (saveToDisk c (e.apply st.creds) st.file nonce fault).2) := by
  cases e <;> rfl

theorem credStep_call (hm : s.store = some m) (e : CredEdit V) (nonce : Nonce)
    (fault : Option SaveFault) :
    credStep c s (.call e nonce fault) =
      { store := some (e.apply m)
        file := (saveToDisk c (e.apply m) s.file nonce fault).1
        acked := if (saveToDisk c (e.apply m) s.file nonce fault).2.isNone then e.apply s.acked
          else s.acked
        short := CredState.shortAfter c s.short (e.apply m) nonce fault } := by
  simp only [credStep, hm, call_eq]

theorem saveToDisk_fault (m : GoMap V) (file : Option Bytes) (nonce : Nonce) (f : SaveFault) :
    ∃ err, (saveToDisk c m file nonce (some f)).2 = some err := by
  cases f <;> exact ⟨_, rfl⟩

theorem safeAct_fault (hm : s.store = some m) (e : CredEdit V) (nonce : Nonce) (f : SaveFault) :
    SafeAct s (.call e nonce (some f)) ↔ SameMap (e.apply m) m := by
  have hget : ∀ id, s.get id = m.lookup id := fun id => by rw [CredState.get, hm]; rfl
  rw [sameMap_apply_iff]
  cases e with
  | set id creds => rw [SafeAct, Idle, hget]
  | delete id => rw [SafeAct, Idle, hget]

/-- A save of a map that agrees with `acked`, on a file that does. -/
theorem saved_consistent (hc : c.Lawful) (hs : Consistent c s) {acked : GoMap V}
    (hsame : SameMap m acked) (nonce : Nonce) (fault : Option SaveFault)
    (hacked : fault ≠ none → acked = s.acked) :
    Consistent c
      { store := some m, file := (saveToDisk c m s.file nonce fault).1, acked := acked
        short := CredState.shortAfter c s.short m nonce fault } := by
  have hsaved : ∃ m', c.newCloudPushStore (some (c.encryptAESGCM nonce (c.marshal m))) = .ok m' ∧
      SameMap m' acked := by
    obtain ⟨m', hm', h⟩ := newCloudPushStore_saved hc nonce m
    exact ⟨m', hm', SameMap.trans h hsame⟩
  refine ⟨⟨m, rfl, hsame⟩, ?_, ?_⟩ <;> intro hshort
  · match fault with
    | none => exact hsaved
    | some (.encrypt err) | some (.mkdir err) | some (.openFile err) =>
      rw [hacked (Option.some_ne_none _)]
      exact hs.whole hshort
    | some (.write written err) =>
      have hlen := Nat.le_of_not_lt (of_decide_eq_false hshort)
      simp only [saveToDisk, List.take_of_length_le hlen]
      exact hsaved
  · match fault with
    | none => cases hshort
    | some (.encrypt err) | some (.mkdir err) | some (.openFile err) => exact hs.torn hshort
    | some (.write written err) =>
      exact newCloudPushStore_torn hc nonce m (of_decide_eq_true hshort)

/-- What a safe step keeps of the map, the file and the acknowledged calls. -/
theorem consistent_step (hc : c.Lawful) (hs : Consistent c s) {a : CredAct V}
    (hsafe : SafeAct s a) : Consistent c (credStep c s a) := by
  obtain ⟨m, hm, hsame⟩ := hs.memory
  cases a with
  | call e nonce fault =>
    rw [credStep_call hm]
    cases fault with
    | none => exact saved_consistent hc hs (SameMap.apply hsame e) nonce none (absurd rfl)
    | some f =>
      obtain ⟨err, herr⟩ := saveToDisk_fault (c := c) (e.apply m) s.file nonce f
      rw [herr]
      have hidle := (safeAct_fault hm e nonce f).mp hsafe
      exact saved_consistent hc hs (SameMap.trans hidle hsame) nonce (some f) fun _ => rfl
  | restart =>
    obtain ⟨m', hm', hsame'⟩ := hs.whole hsafe
    exact ⟨⟨m', by rw [credStep, hm']; rfl, hsame'⟩, hs.whole, hs.torn⟩

theorem consistent_run (hc : c.Lawful) {acts : List (CredAct V)}
    (hsafe : ∀ pre a, pre ++ [a] <+: acts → SafeAct (credRun c pre) a) :
    Consistent c (credRun c acts) := by
  refine Runs.run_invariant (fun pre => Consistent c (credRun c pre))
    (fun pre a => SafeAct (credRun c pre) a) consistent_new (fun pre a hok hinv => ?_) hsafe
  rw [credRun, Runs.run_snoc]
  exact consistent_step hc hinv hok

/-! ## One step of the property -/

structure StepAtomicDurable (c : CredCodec V) (s : CredState V) (a : CredAct V) : Prop where
  atomic : credErr c s a ≠ none → ∀ id, (credStep c s a).get id = s.get id
  durable : a = .restart → (credStep c s a).store.isSome ∧
    ∀ id, (credStep c s a).get id = s.acked.lookup id

theorem get_call (hm : s.store = some m) (e : CredEdit V) (nonce : Nonce)
    (fault : Option SaveFault) (id : String) :
    (credStep c s (.call e nonce fault)).get id = (e.apply m).lookup id := by
  rw [credStep_call hm]
  rfl

theorem stepAtomicDurable_iff (hs : Consistent c s) (a : CredAct V) :
    StepAtomicDurable c s a ↔ SafeAct s a := by
  obtain ⟨m, hm, -⟩ := hs.memory
  cases a with
  | call e nonce fault =>
    have hget : ∀ id, s.get id = m.lookup id := fun id => by rw [CredState.get, hm]; rfl
    have herr : credErr c s (.call e nonce fault) =
        (saveToDisk c (e.apply m) s.file nonce fault).2 := by
      rw [credErr, hm, Option.bind_some, call_eq]
    cases fault with
    | none =>
      refine ⟨fun _ => by cases e <;> trivial, fun _ => ⟨fun h => absurd herr h, fun h => ?_⟩⟩
      cases h
    | some f =>
      obtain ⟨err, hf⟩ := saveToDisk_fault (c := c) (e.apply m) s.file nonce f
      rw [safeAct_fault hm]
      constructor
      · intro h id
        have hfail : credErr c s (.call e nonce (some f)) ≠ none := by
          rw [herr, hf]
          exact Option.some_ne_none err
        rw [← get_call hm e nonce (some f), h.atomic hfail, hget]
      · refine fun h => ⟨fun _ id => ?_, fun h => by cases h⟩
        rw [get_call hm, hget]
        exact h id
  | restart =>
    constructor
    · intro h
      obtain ⟨hopen, -⟩ := h.durable rfl
      by_contra hshort
      obtain ⟨err, herr⟩ := hs.torn (Bool.eq_true_of_not_eq_false hshort)
      rw [credStep, herr] at hopen
      cases hopen
    · intro hsafe
      refine ⟨fun h => absurd rfl h, fun _ => ?_⟩
      obtain ⟨m', hm', hsame⟩ := hs.whole hsafe
      rw [credStep, hm']
      exact ⟨rfl, hsame⟩

theorem atomicDurable_iff_steps (acts : List (CredAct V)) :
    AtomicDurable c acts ↔
      ∀ pre a, pre ++ [a] <+: acts → StepAtomicDurable c (credRun c pre) a := by
  have hrun : ∀ pre a, credRun c (pre ++ [a]) = credStep c (credRun c pre) a :=
    fun pre a => Runs.run_snoc ..
  constructor
  · intro h pre a hp
    refine ⟨fun herr id => ?_, ?_⟩
    · rw [← hrun]
      exact h.atomic pre a hp herr id
    · rintro rfl
      rw [← hrun]
      exact h.durable pre hp
  · intro h
    refine ⟨fun pre a hp herr id => ?_, fun pre hp => ?_⟩
    · rw [hrun]
      exact (h pre a hp).atomic herr id
    · rw [hrun]
      exact (h pre .restart hp).durable rfl

end CloudPushLemmas

open CloudPushLemmas in
/-- A run of `Set`, `Delete` and restarts is atomic and durable exactly when each
failed call would have changed nothing and no restart finds a short file. -/
theorem atomic_durable_iff {V : Type} (c : CredCodec V) (hc : c.Lawful)
    (acts : List (CredAct V)) :
    AtomicDurable c acts ↔ ∀ pre a, pre ++ [a] <+: acts → SafeAct (credRun c pre) a := by
  rw [atomicDurable_iff_steps]
  constructor
  · intro h
    -- the steps before a safe one are safe, so the state at each step is consistent
    induction acts using List.reverseRecOn with
    | nil => exact fun pre a hp => by simp at hp
    | append_singleton acts b ih =>
      have hold := ih fun pre a hp => h pre a (hp.trans (List.prefix_append acts [b]))
      intro pre a hp
      rcases Runs.snoc_prefix_snoc.mp hp with ⟨rfl, rfl⟩ | hp'
      · exact (stepAtomicDurable_iff (consistent_run hc hold) a).mp (h pre a hp)
      · exact hold pre a hp'
  · intro h pre a hp
    have hpre : ∀ p b, p ++ [b] <+: pre → SafeAct (credRun c p) b := fun p b hb =>
      h p b (hb.trans ((List.prefix_append pre [a]).trans hp))
    exact (stepAtomicDurable_iff (consistent_run hc hpre) a).mpr (h pre a hp)

/-! ## A lawful codec -/

namespace MarkedCodec

instance encodableString : Encodable String :=
  Encodable.ofLeftInjection (fun s => s.toList.map Char.toNat)
    (fun l => some (String.ofList (l.map Char.ofNat)))
    fun s => by simp [Function.comp_def, Char.ofNat_toNat]

/-- Every byte after a mark, and a mark at the end. -/
def mark : Bytes → Bytes
  | [] => [0]
  | b :: bs => 1 :: b :: mark bs

def unmark : Bytes → Except String Bytes
  | [0] => .ok []
  | 1 :: b :: bs => (unmark bs).map (b :: ·)
  | _ => .error "cipher: message authentication failed"

theorem unmark_mark (p : Bytes) : unmark (mark p) = .ok p := by
  induction p with
  | nil => rfl
  | cons b bs ih => rw [mark, unmark, ih]; rfl

theorem unmark_truncated (p : Bytes) : ∀ b, b <+: mark p → b ≠ mark p →
    ∃ err, unmark b = .error err := by
  induction p with
  | nil =>
    intro b hb hne
    match b, hb, hne with
    | [], _, _ => exact ⟨_, rfl⟩
    | x :: b, hb, hne =>
      obtain ⟨rfl, hnil⟩ := List.cons_prefix_cons.mp hb
      rw [List.prefix_nil.mp hnil] at hne
      exact absurd rfl hne
  | cons y ys ih =>
    intro b hb hne
    match b, hb, hne with
    | [], _, _ => exact ⟨_, rfl⟩
    | [x], hb, _ =>
      obtain ⟨rfl, -⟩ := List.cons_prefix_cons.mp hb
      exact ⟨_, rfl⟩
    | x :: z :: b, hb, hne =>
      obtain ⟨rfl, hrest⟩ := List.cons_prefix_cons.mp hb
      obtain ⟨rfl, htail⟩ := List.cons_prefix_cons.mp hrest
      obtain ⟨err, herr⟩ := ih b htail fun h => hne (by rw [h]; rfl)
      exact ⟨err, by rw [unmark, herr]; rfl⟩

def codec : CredCodec Creds where
  marshal m := List.replicate (Encodable.encode m.entries) 0
  unmarshal b :=
    match (Encodable.decode b.length : Option (List (Sigma fun _ : String => Creds))) with
    | some entries => .ok entries.toAList
    | none => .error "unexpected end of JSON input"
  gcmSeal _ := mark
  gcmOpen _ := unmark

theorem codec_lawful : codec.Lawful where
  open_seal _ := unmark_mark
  open_truncated _ := unmark_truncated
  unmarshal_marshal m := by
    refine ⟨m.entries.toAList, ?_, fun id => AList.lookup_to_alist m.entries⟩
    simp only [codec, List.length_replicate, Encodable.encodek]

end MarkedCodec

def zeroNonce : Nonce := ⟨List.replicate nonceSize 0, rfl⟩

def dbCreds : Creds := [("password", "s3cret")]

/-- A push is stored, pushed again while the disk is full, and kept by a restart after
the next save. -/
def refusedRetry : List (CredAct Creds) :=
  [.call (.set "db" dbCreds) zeroNonce none,
    .call (.set "db" dbCreds) zeroNonce (some (.write 0 "no space left on device")),
    .call (.delete "cache") zeroNonce none, .restart]

theorem atomic_durable_iff_refusedRetry : AtomicDurable MarkedCodec.codec refusedRetry :=
  (atomic_durable_iff MarkedCodec.codec MarkedCodec.codec_lawful refusedRetry).mpr
    (Runs.forall_steps (by decide +kernel))

def refusedSet : List (CredAct Creds) :=
  [.call (.set "db" dbCreds) zeroNonce (some (.mkdir "mkdir /data: read-only file system"))]

/-- A push is stored, pushed again while the disk is full, and the agent restarts. -/
def tornSet : List (CredAct Creds) :=
  [.call (.set "db" dbCreds) zeroNonce none,
    .call (.set "db" dbCreds) zeroNonce (some (.write 0 "no space left on device")), .restart]

/-- Whatever the codec, `Get` returns what `Set` could not save. -/
theorem not_atomicDurable_refusedSet (c : CredCodec Creds) : ¬ AtomicDurable c refusedSet := by
  intro h
  have hget := h.atomic [] _ (List.prefix_refl _) (Option.some_ne_none _) "db"
  cases hget

/-- Whatever the codec, an empty file does not open. -/
theorem not_atomicDurable_tornSet (c : CredCodec Creds) : ¬ AtomicDurable c tornSet := by
  intro h
  have hopen := (h.durable [_, _] (List.prefix_refl _)).1
  cases hopen

/-- A `Set` that fails before it touches the file is seen by `Get`, and one that fails
after it truncated the file leaves a store that does not open. -/
theorem credentials_lost :
    MarkedCodec.codec.Lawful ∧ ¬ AtomicDurable MarkedCodec.codec refusedSet ∧
      ¬ AtomicDurable MarkedCodec.codec tornSet :=
  ⟨MarkedCodec.codec_lawful, not_atomicDurable_refusedSet _, not_atomicDurable_tornSet _⟩

end Forager
