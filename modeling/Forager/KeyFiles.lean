import Forager.GoCase
import Forager.GoRange

/-!
# Credentials from files

`resolveKeyFiles` of `cmd/app.go` replaces each credential `x_file` by a credential `x` with
the contents of the file that it names. It collects the keys in the order of a `range`,
and then reads and rewrites a copy of the map, one key after the other.

With both `x_file` and `x_file_file` in the map, the order decides: the first is removed
when it comes first, and `x_file` is then free for the contents of the second; the other
way round `x_file` is taken and the function fails.
-/

namespace Forager

open GoRange
open GoText (Bytes ascii lf cr)

/-! ## Definitions -/

abbrev CredMap := AList fun _ : Bytes => Bytes

def credAt (m : CredMap) (k : Bytes) : Bytes := (m.lookup k).getD []

def fileSuffix : Bytes := ascii "_file"

def targetOf (k : Bytes) : Bytes :=
  if fileSuffix <:+ k then k.take (k.length - fileSuffix.length) else k

/-- The key has the suffix and a value. -/
def namesFile (creds : CredMap) (k : Bytes) : Bool := fileSuffix <:+ k ∧ credAt creds k ≠ []

/-- `toResolve`, in the order in which the keys are visited. -/
def toResolve (order : Visit Bytes) (creds : CredMap) : List Bytes :=
  (order.visit creds.keys).filter (namesFile creds)

def copyCreds (order : Visit Bytes) (creds : CredMap) : CredMap :=
  (order.visit creds.keys).foldl (fun out k => out.insert k (credAt creds k)) ∅

def fileValue (data : Bytes) : Bytes := Lines.trimRight (fun b => b = cr ∨ b = lf) data

variable (readFile : Bytes → Except Bytes Bytes)

/-- The contents of the file at `path` take the place of the key. -/
def replaceKey (out : CredMap) (fileKey path : Bytes) : Except Bytes CredMap :=
  match readFile path with
  | .error err => .error (ascii "reading " ++ fileKey ++ ascii ": " ++ err)
  | .ok data =>
    if GoText.trimSpace data = [] then .error (fileKey ++ ascii " is empty: " ++ path)
    else .ok ((out.insert (targetOf fileKey) (fileValue data)).erase fileKey)

def resolveOne (out : CredMap) (fileKey : Bytes) : Except Bytes CredMap :=
  let target := targetOf fileKey
  if credAt out target ≠ [] then
    .error (ascii "both " ++ target ++ ascii " and " ++ fileKey ++
      ascii " are set; provide one")
  else replaceKey readFile out fileKey (credAt out fileKey)

def resolveKeyFiles (order copyOrder : Visit Bytes) (creds : CredMap) : Except Bytes CredMap :=
  let keys := toResolve order creds
  if keys = [] then .ok creds
  else keys.foldlM (resolveOne readFile) (copyCreds copyOrder creds)

/-! ## What it should do -/

/-- What replaces the key: the contents of the file that it names, if they can be read and
are not blank. -/
def fileContents (creds : CredMap) (k : Bytes) : Option Bytes :=
  match readFile (credAt creds k) with
  | .error _ => none
  | .ok data => if GoText.trimSpace data = [] then none else some (fileValue data)

/-- Both fail, or both return the same map. -/
def SameOutcome : Except Bytes CredMap → Except Bytes CredMap → Prop
  | .error _, .error _ => True
  | .ok m, .ok m' => ∀ k, m.lookup k = m'.lookup k
  | _, _ => False

/-- Every key with the suffix and a value is gone, and the contents of its file are there. -/
def Replaced (creds m : CredMap) : Prop :=
  ∀ k, namesFile creds k = true →
    m.lookup k = none ∧ ∃ v, fileContents readFile creds k = some v ∧ m.lookup (targetOf k) = some v

/-- The order decides nothing, and a map that is returned has all keys replaced. -/
def OrderFree (creds : CredMap) : Prop :=
  ∀ order copyOrder order' copyOrder',
    SameOutcome (resolveKeyFiles readFile order copyOrder creds)
      (resolveKeyFiles readFile order' copyOrder' creds) ∧
    ∀ m, resolveKeyFiles readFile order copyOrder creds = .ok m → Replaced readFile creds m

/-- A key and the same key with one more suffix both name files. -/
def Chained (creds : CredMap) : Prop :=
  ∃ k, namesFile creds k = true ∧ namesFile creds (k ++ fileSuffix) = true

/-- Some key names a file that cannot be read or is blank, or stands beside a value that is
set and names no file. -/
def Blocked (creds : CredMap) : Prop :=
  ∃ k, namesFile creds k = true ∧ (fileContents readFile creds k = none ∨
    (credAt creds (targetOf k) ≠ [] ∧ namesFile creds (targetOf k) = false))

namespace KeyFilesLemmas

variable {readFile : Bytes → Except Bytes Bytes} {creds out : CredMap} {k : Bytes}
  {done keys : List Bytes}

/-! ## Keys -/

theorem targetOf_append (x : Bytes) : targetOf (x ++ fileSuffix) = x := by
  unfold targetOf
  rw [if_pos (List.suffix_append _ _), List.length_append, Nat.add_sub_cancel, List.take_left]

theorem targetOf_append_suffix (h : namesFile creds k = true) : targetOf k ++ fileSuffix = k := by
  obtain ⟨hsuffix, -⟩ := of_decide_eq_true h
  obtain ⟨x, rfl⟩ := hsuffix
  rw [targetOf_append]

theorem append_suffix_ne (x : Bytes) : x ++ fileSuffix ≠ x := by
  intro h
  have hnil := List.append_right_eq_self.mp h
  exact absurd hnil (by decide)

theorem credAt_ne_of_namesFile (h : namesFile creds k = true) : credAt creds k ≠ [] :=
  (of_decide_eq_true h).2

theorem mem_toResolve (order : Visit Bytes) :
    k ∈ toResolve order creds ↔ namesFile creds k = true := by
  unfold toResolve
  rw [List.mem_filter, Visit.mem_visit, and_iff_right_iff_imp]
  intro h
  by_contra hk
  have hnone : creds.lookup k = none := AList.lookup_eq_none.mpr hk
  exact credAt_ne_of_namesFile h (by rw [credAt, hnone]; rfl)

theorem nodup_toResolve (order : Visit Bytes) : (toResolve order creds).Nodup :=
  (order.nodup_visit creds.keys_nodup).filter _

theorem lookup_foldl_insert (keys : List Bytes) (out : CredMap) (x : Bytes) :
    (keys.foldl (fun out k => out.insert k (credAt creds k)) out).lookup x =
      if x ∈ keys then some (credAt creds x) else out.lookup x := by
  induction keys generalizing out with
  | nil => rfl
  | cons k keys ih =>
    rw [List.foldl_cons, ih]
    rcases eq_or_ne x k with rfl | hne
    · rw [AList.lookup_insert, ite_self, if_pos List.mem_cons_self]
    · rw [AList.lookup_insert_ne hne]
      simp only [List.mem_cons, hne, false_or]

theorem lookup_copyCreds (order : Visit Bytes) (creds : CredMap) (x : Bytes) :
    (copyCreds order creds).lookup x = creds.lookup x := by
  unfold copyCreds
  rw [lookup_foldl_insert]
  cases hx : creds.lookup x with
  | none =>
    have hmem : x ∉ order.visit creds.keys := by
      rw [Visit.mem_visit]
      exact AList.lookup_eq_none.mp hx
    rw [if_neg hmem]
    rfl
  | some v =>
    have hmem : x ∈ order.visit creds.keys := by
      rw [Visit.mem_visit]
      exact AList.lookup_isSome.mp (by rw [hx]; rfl)
    rw [if_pos hmem, credAt, hx]
    rfl

/-! ## One key -/

/-- The keys `done` are replaced. A key that names a file is still there when the key with
one more suffix is not done. -/
structure After (readFile : Bytes → Except Bytes Bytes) (creds : CredMap) (done : List Bytes)
    (out : CredMap) : Prop where
  lookup : ∀ x, out.lookup x =
    if x ++ fileSuffix ∈ done then fileContents readFile creds (x ++ fileSuffix)
    else if x ∈ done then none else creds.lookup x
  order : ∀ k, namesFile creds k = true → k ++ fileSuffix ∈ done → k ∈ done

/-- The key can be replaced after the keys `done`. -/
structure Passes (readFile : Bytes → Except Bytes Bytes) (creds : CredMap) (done : List Bytes)
    (k : Bytes) : Prop where
  free : targetOf k ∈ done ∨ credAt creds (targetOf k) = []
  readable : fileContents readFile creds k ≠ none

theorem After.start {m : CredMap} (h : ∀ x, m.lookup x = creds.lookup x) :
    After readFile creds [] m := by
  refine ⟨fun x => ?_, fun k _ hk => absurd hk List.not_mem_nil⟩
  simp [h]

theorem After.credAt_target (h : After readFile creds done out) (hk : namesFile creds k = true)
    (hnew : k ∉ done) :
    credAt out (targetOf k) = if targetOf k ∈ done then [] else credAt creds (targetOf k) := by
  unfold credAt
  rw [h.lookup, targetOf_append_suffix hk, if_neg hnew]
  split <;> rfl

theorem After.credAt_self (h : After readFile creds done out) (hk : namesFile creds k = true)
    (hnew : k ∉ done) : credAt out k = credAt creds k := by
  unfold credAt
  rw [h.lookup, if_neg (fun hdone => hnew (h.order k hk hdone)), if_neg hnew]

theorem After.snoc (h : After readFile creds done out) (hk : namesFile creds k = true)
    (hnew : k ∉ done) (hpass : Passes readFile creds done k) {v : Bytes}
    (hv : fileContents readFile creds k = some v) :
    After readFile creds (done ++ [k]) ((out.insert (targetOf k) v).erase k) := by
  have htarget := targetOf_append_suffix hk
  constructor
  · intro x
    rcases eq_or_ne x k with rfl | hxk
    · have hlater : x ++ fileSuffix ∉ done ++ [x] := by
        rw [List.mem_append, List.mem_singleton, not_or]
        exact ⟨fun hdone => hnew (h.order x hk hdone), append_suffix_ne x⟩
      rw [AList.lookup_erase, if_neg hlater, if_pos (by simp)]
    rw [AList.lookup_erase_ne hxk]
    rcases eq_or_ne x (targetOf k) with rfl | hxt
    · rw [AList.lookup_insert, htarget, if_pos (by simp), hv]
    · have hne : x ++ fileSuffix ≠ k := fun heq => hxt (by rw [← heq, targetOf_append])
      rw [AList.lookup_insert_ne hxt, h.lookup]
      simp only [List.mem_append, List.mem_singleton, hne, hxk, or_false]
  · intro j hj hmem
    rw [List.mem_append, List.mem_singleton] at hmem ⊢
    rcases hmem with hdone | hlast
    · exact .inl (h.order j hj hdone)
    · have hjk : targetOf k = j := by rw [← hlast, targetOf_append]
      rcases hpass.free with hfree | hempty
      · exact .inl (hjk ▸ hfree)
      · exact absurd (hjk ▸ hempty) (credAt_ne_of_namesFile hj)

theorem resolveOne_spec (h : After readFile creds done out) (hk : namesFile creds k = true)
    (hnew : k ∉ done) :
    (Passes readFile creds done k ∧
      ∃ out', resolveOne readFile out k = .ok out' ∧ After readFile creds (done ++ [k]) out') ∨
    (¬ Passes readFile creds done k ∧ ∃ err, resolveOne readFile out k = .error err) := by
  have htarget := h.credAt_target hk hnew
  have hself := h.credAt_self hk hnew
  by_cases hset : credAt out (targetOf k) ≠ []
  · refine .inr ⟨fun hpass => ?_, _, if_pos hset⟩
    rw [htarget] at hset
    rcases hpass.free with hdone | hempty
    · exact hset (if_pos hdone)
    · rw [hempty, ite_self] at hset
      exact hset rfl
  · have hfree : targetOf k ∈ done ∨ credAt creds (targetOf k) = [] := by
      rw [htarget, not_not, ite_eq_left_iff] at hset
      exact or_iff_not_imp_left.mpr hset
    have hone : resolveOne readFile out k = replaceKey readFile out k (credAt creds k) := by
      rw [← hself]
      exact if_neg hset
    rw [hone]
    unfold replaceKey
    cases hread : readFile (credAt creds k) with
    | error err =>
      refine .inr ⟨fun hpass => hpass.readable ?_, _, rfl⟩
      unfold fileContents
      rw [hread]
    | ok data =>
      by_cases hblank : GoText.trimSpace data = []
      · refine .inr ⟨fun hpass => hpass.readable ?_, _, if_pos hblank⟩
        unfold fileContents
        rw [hread]
        exact if_pos hblank
      · have hv : fileContents readFile creds k = some (fileValue data) := by
          unfold fileContents
          rw [hread]
          exact if_neg hblank
        have hpass : Passes readFile creds done k := ⟨hfree, by rw [hv]; rintro ⟨⟩⟩
        exact .inl ⟨hpass, _, if_neg hblank, h.snoc hk hnew hpass hv⟩

/-! ## All keys -/

theorem foldlM_spec (keys : List Bytes) (h : After readFile creds done out)
    (hkeys : ∀ k ∈ keys, namesFile creds k = true) (hnodup : (done ++ keys).Nodup) :
    ((∀ pre k post, keys = pre ++ k :: post → Passes readFile creds (done ++ pre) k) ∧
      ∃ out', keys.foldlM (resolveOne readFile) out = .ok out' ∧
        After readFile creds (done ++ keys) out') ∨
    ((∃ pre k post, keys = pre ++ k :: post ∧ ¬ Passes readFile creds (done ++ pre) k) ∧
      ∃ err, keys.foldlM (resolveOne readFile) out = .error err) := by
  induction keys generalizing done out with
  | nil =>
    refine .inl ⟨fun pre k post hsplit => by simp at hsplit, out, rfl, ?_⟩
    rwa [List.append_nil]
  | cons k keys ih =>
    have hnew : k ∉ done :=
      fun hk => (List.nodup_append.mp hnodup).2.2 k hk k List.mem_cons_self rfl
    rw [List.append_cons] at hnodup
    obtain ⟨hpass, out', hone, hafter⟩ | ⟨hfail, err, hone⟩ :=
      resolveOne_spec h (hkeys k List.mem_cons_self) hnew
    · rw [List.foldlM_cons, hone]
      obtain ⟨hall, hok⟩ | ⟨⟨pre, j, post, hsplit, hfail⟩, hbad⟩ :=
        ih hafter (fun j hj => hkeys j (List.mem_cons_of_mem k hj)) hnodup
      · refine .inl ⟨fun pre j post hsplit => ?_, by rwa [List.append_cons]⟩
        cases pre with
        | nil =>
          obtain ⟨rfl, -⟩ := List.cons.inj hsplit
          rwa [List.append_nil]
        | cons k' pre =>
          obtain ⟨rfl, hrest⟩ := List.cons.inj hsplit
          rw [List.append_cons]
          exact hall pre j post hrest
      · refine .inr ⟨⟨k :: pre, j, post, by rw [hsplit]; rfl, ?_⟩, hbad⟩
        rwa [List.append_cons]
    · refine .inr ⟨⟨[], k, keys, rfl, by rwa [List.append_nil]⟩, err, ?_⟩
      rw [List.foldlM_cons, hone]
      rfl

def resolvedAt (readFile : Bytes → Except Bytes Bytes) (creds : CredMap) (x : Bytes) :
    Option Bytes :=
  if namesFile creds (x ++ fileSuffix) then fileContents readFile creds (x ++ fileSuffix)
  else if namesFile creds x then none else creds.lookup x

theorem resolveKeyFiles_spec (readFile : Bytes → Except Bytes Bytes) (creds : CredMap)
    (order copyOrder : Visit Bytes) :
    ((∀ pre k post, toResolve order creds = pre ++ k :: post → Passes readFile creds pre k) ∧
      ∃ m, resolveKeyFiles readFile order copyOrder creds = .ok m ∧
        ∀ x, m.lookup x = resolvedAt readFile creds x) ∨
    ((∃ pre k post, toResolve order creds = pre ++ k :: post ∧ ¬ Passes readFile creds pre k) ∧
      ∃ err, resolveKeyFiles readFile order copyOrder creds = .error err) := by
  have hmap {m : CredMap} (h : After readFile creds (toResolve order creds) m) (x : Bytes) :
      m.lookup x = resolvedAt readFile creds x := by
    rw [h.lookup]
    simp only [mem_toResolve]
    rfl
  unfold resolveKeyFiles
  by_cases hnone : toResolve order creds = []
  · refine .inl ⟨fun pre k post hsplit => ?_, creds, if_pos hnone, ?_⟩
    · rw [hnone] at hsplit
      simp at hsplit
    · exact hmap (hnone ▸ After.start fun _ => rfl)
  · simp only [if_neg hnone]
    have hstart : After readFile creds [] (copyCreds copyOrder creds) :=
      After.start (lookup_copyCreds copyOrder creds)
    have hloop := foldlM_spec (toResolve order creds) hstart
      (fun k hk => (mem_toResolve order).mp hk) (nodup_toResolve order)
    simp only [List.nil_append] at hloop
    obtain ⟨hall, m, hok, hafter⟩ | hbad := hloop
    · exact .inl ⟨hall, m, hok, hmap hafter⟩
    · exact .inr hbad

theorem fails_of_blocked (h : Blocked readFile creds) (order copyOrder : Visit Bytes) :
    ∃ err, resolveKeyFiles readFile order copyOrder creds = .error err := by
  obtain ⟨k, hk, hblocked⟩ := h
  obtain ⟨hall, -⟩ | ⟨-, hbad⟩ := resolveKeyFiles_spec readFile creds order copyOrder
  · obtain ⟨pre, post, hsplit⟩ := List.append_of_mem ((mem_toResolve order).mpr hk)
    have hpass := hall pre k post hsplit
    rcases hblocked with hnone | ⟨hset, hinline⟩
    · exact absurd hnone hpass.readable
    · rcases hpass.free with hdone | hempty
      · have hnamed : namesFile creds (targetOf k) = true := by
          rw [← mem_toResolve order, hsplit]
          exact List.mem_append_left _ hdone
        exact absurd (hinline.symm.trans hnamed) Bool.false_ne_true
      · exact absurd hempty hset
  · exact hbad

theorem passes_of_not_blocked (h : ¬ Blocked readFile creds) (hk : namesFile creds k = true)
    (hplace : namesFile creds (targetOf k) = true → targetOf k ∈ done) :
    Passes readFile creds done k := by
  refine ⟨?_, fun hnone => h ⟨k, hk, .inl hnone⟩⟩
  by_cases hempty : credAt creds (targetOf k) = []
  · exact .inr hempty
  · cases hnamed : namesFile creds (targetOf k) with
    | true => exact .inl (hplace hnamed)
    | false => exact absurd ⟨k, hk, .inr ⟨hempty, hnamed⟩⟩ h

def byLength : Visit Bytes :=
  ⟨fun ks => ks.insertionSort (KeyLe List.length), fun ks => List.perm_insertionSort _ ks⟩

theorem byLength_succeeds (h : ¬ Blocked readFile creds) (copyOrder : Visit Bytes) :
    ∃ m, resolveKeyFiles readFile byLength copyOrder creds = .ok m := by
  obtain ⟨-, m, hok, -⟩ | ⟨⟨pre, k, post, hsplit, hfail⟩, -⟩ :=
    resolveKeyFiles_spec readFile creds byLength copyOrder
  · exact ⟨m, hok⟩
  · refine absurd (passes_of_not_blocked h ?_ fun hnamed => ?_) hfail
    · rw [← mem_toResolve byLength, hsplit]
      simp
    · have hk : namesFile creds k = true := by
        rw [← mem_toResolve byLength, hsplit]
        simp
      have hshort : (targetOf k).length < k.length := by
        conv_rhs => rw [← targetOf_append_suffix hk, List.length_append]
        exact Nat.lt_add_of_pos_right (by decide)
      have hsorted : (pre ++ k :: post).Pairwise (KeyLe List.length) := by
        rw [← hsplit]
        exact (List.pairwise_insertionSort (KeyLe List.length) _).filter _
      have hmem : targetOf k ∈ pre ++ k :: post := by
        rw [← hsplit]
        exact (mem_toResolve byLength).mpr hnamed
      rcases List.mem_append.mp hmem with hpre | htail
      · exact hpre
      · have hrest := (List.pairwise_append.mp hsorted).2.1
        rcases List.mem_cons.mp htail with heq | hpost
        · exact absurd (congrArg List.length heq) hshort.ne
        · exact absurd ((List.pairwise_cons.mp hrest).1 _ hpost) hshort.not_ge

theorem longer_first_fails (readFile : Bytes → Except Bytes Bytes) (hk : namesFile creds k = true)
    (hlong : namesFile creds (k ++ fileSuffix) = true) (copyOrder : Visit Bytes) :
    ∃ err, resolveKeyFiles readFile (Visit.first (k ++ fileSuffix)) copyOrder creds =
      .error err := by
  have hmem : k ++ fileSuffix ∈ creds.keys := by
    rw [← Visit.mem_visit Visit.stored]
    exact (List.mem_filter.mp ((mem_toResolve Visit.stored).mpr hlong)).1
  obtain ⟨post, hsplit⟩ : ∃ post, toResolve (Visit.first (k ++ fileSuffix)) creds =
      [] ++ (k ++ fileSuffix) :: post := by
    unfold toResolve
    rw [Visit.first_visit hmem, List.filter_cons_of_pos hlong]
    exact ⟨_, rfl⟩
  obtain ⟨hall, -⟩ | ⟨-, hbad⟩ := resolveKeyFiles_spec readFile creds
    (Visit.first (k ++ fileSuffix)) copyOrder
  · rcases (hall _ _ _ hsplit).free with hdone | hempty
    · exact absurd hdone List.not_mem_nil
    · rw [targetOf_append] at hempty
      exact absurd hempty (credAt_ne_of_namesFile hk)
  · exact hbad

theorem succeeds_of_not_chained (hblocked : ¬ Blocked readFile creds) (hchain : ¬ Chained creds)
    (order copyOrder : Visit Bytes) :
    ∃ m, resolveKeyFiles readFile order copyOrder creds = .ok m ∧
      ∀ x, m.lookup x = resolvedAt readFile creds x := by
  obtain ⟨-, hok⟩ | ⟨⟨pre, k, post, hsplit, hfail⟩, -⟩ :=
    resolveKeyFiles_spec readFile creds order copyOrder
  · exact hok
  · have hk : namesFile creds k = true := by
      rw [← mem_toResolve order, hsplit]
      simp
    refine absurd (passes_of_not_blocked hblocked hk fun hnamed => ?_) hfail
    exact absurd ⟨targetOf k, hnamed, (targetOf_append_suffix hk).symm ▸ hk⟩ hchain

theorem replaced_of_not_chained (hblocked : ¬ Blocked readFile creds) (hchain : ¬ Chained creds)
    {m : CredMap} (hm : ∀ x, m.lookup x = resolvedAt readFile creds x) :
    Replaced readFile creds m := by
  intro k hk
  have hlonger : namesFile creds (k ++ fileSuffix) = false :=
    Bool.eq_false_iff.mpr fun hlong => hchain ⟨k, hk, hlong⟩
  constructor
  · rw [hm, resolvedAt, hlonger, hk]
    rfl
  · cases hv : fileContents readFile creds k with
    | none => exact absurd ⟨k, hk, .inl hv⟩ hblocked
    | some v =>
      refine ⟨v, rfl, ?_⟩
      rw [hm, resolvedAt, targetOf_append_suffix hk, hk]
      exact hv

end KeyFilesLemmas

open KeyFilesLemmas in
/-- For every map of credentials and all files: the orders decide nothing and a map that is
returned has all keys replaced, exactly if the map has no key beside the same key with one
more suffix that both name files, or some key is blocked, so that every order fails. -/
theorem key_files_order_iff (readFile : Bytes → Except Bytes Bytes) (creds : CredMap) :
    OrderFree readFile creds ↔ ¬ Chained creds ∨ Blocked readFile creds := by
  by_cases hblocked : Blocked readFile creds
  · refine iff_of_true (fun order copyOrder order' copyOrder' => ?_) (.inr hblocked)
    obtain ⟨err, herr⟩ := fails_of_blocked hblocked order copyOrder
    obtain ⟨err', herr'⟩ := fails_of_blocked hblocked order' copyOrder'
    rw [herr, herr']
    exact ⟨trivial, by rintro m ⟨⟩⟩
  · rw [or_iff_left hblocked]
    constructor
    · rintro hfree ⟨k, hk, hlong⟩
      obtain ⟨m, hok⟩ := byLength_succeeds hblocked Visit.stored
      obtain ⟨err, herr⟩ := longer_first_fails readFile hk hlong Visit.stored
      have hsame := (hfree byLength Visit.stored (Visit.first (k ++ fileSuffix)) Visit.stored).1
      rw [hok, herr] at hsame
      exact hsame
    · intro hchain order copyOrder order' copyOrder'
      obtain ⟨m, hok, hm⟩ := succeeds_of_not_chained hblocked hchain order copyOrder
      obtain ⟨m', hok', hm'⟩ := succeeds_of_not_chained hblocked hchain order' copyOrder'
      rw [hok, hok']
      refine ⟨fun x => (hm x).trans (hm' x).symm, ?_⟩
      rintro _ ⟨⟩
      exact replaced_of_not_chained hblocked hchain hm

def chainedCreds : CredMap :=
  (AList.insert (ascii "key_file") (ascii "/a") ∅).insert (ascii "key_file_file") (ascii "/b")

def samePem (_ : Bytes) : Except Bytes Bytes := .ok (ascii "pem\n")

/-- In the order in which the longer key comes first the function fails, in the other one it
returns a map. -/
theorem key_files_order_decides :
    resolveKeyFiles samePem (Visit.first (ascii "key_file_file")) Visit.stored chainedCreds =
      .error (ascii "both key_file and key_file_file are set; provide one") ∧
    (∃ m, resolveKeyFiles samePem (Visit.first (ascii "key_file")) Visit.stored chainedCreds =
      .ok m ∧ m.lookup (ascii "key_file") = some (ascii "pem")) ∧
    ¬ OrderFree samePem chainedCreds := by
  have hfails : resolveKeyFiles samePem (Visit.first (ascii "key_file_file")) Visit.stored
      chainedCreds = .error (ascii "both key_file and key_file_file are set; provide one") := by
    rfl
  obtain ⟨m, hok, hm⟩ : ∃ m, resolveKeyFiles samePem (Visit.first (ascii "key_file")) Visit.stored
      chainedCreds = .ok m ∧ m.lookup (ascii "key_file") = some (ascii "pem") := ⟨_, rfl, rfl⟩
  refine ⟨hfails, ⟨m, hok, hm⟩, fun h => ?_⟩
  have hsame := (h (Visit.first (ascii "key_file")) Visit.stored
    (Visit.first (ascii "key_file_file")) Visit.stored).1
  rw [hok, hfails] at hsame
  exact hsame

end Forager
