import Forager.Inventory
import Forager.WhenEval

/-!
# Collecting from one host

`inventoryHost` of `pkg/proxy/discovery/executor.go` dials a host, probes its facts,
lets `Pack.Select` choose the collectors whose guards match and runs their commands in
order. A command may fail, and the context may end before any of them.

The outcome of the dial, of the probe and of the `k`-th command and the state of the
context before it are given by the environment, and so are the facts that
`parseFacts` reads, so that the results hold for every map of facts.
-/

namespace Forager

open Go

/-! ## Choosing the collectors -/

/-- The text of an error of `parseWhen`; `quote` is `%q`. -/
def WhenError.text (quote : String → String) : WhenError → String
  | .empty => "empty when expression"
  | .noOperator s => "when expression " ++ quote s ++ ": expected == or !="
  | .unknownFact fact => "when expression references unknown fact " ++ quote fact
  | .notQuoted s => "when expression " ++ quote s ++ ": value must be quoted"
  | .quoteInside s => "when expression " ++ quote s ++ ": value contains a quote character"

def MissingFact.text (quote : String → String) (err : MissingFact) : String :=
  "fact " ++ quote err.fact ++ " not available for this host"

/-- What `Select` finds for one collector: whether it runs, or why it is skipped. The
guard that `validate` cached is the one it parses. -/
def guardOutcome (quote : String → String) (facts : StrMap String) (c : Collector) :
    Except String Bool :=
  if c.guard = "" then .ok true
  else match parseWhen c.guard with
    | .error err => .error (err.text quote)
    | .ok expr => match WhenExpr.eval facts expr with
      | .error err => .error (err.text quote)
      | .ok b => .ok b

def selectFrom (quote : String → String) (facts : StrMap String) :
    List Collector → List Collector × List SkippedCollector
  | [] => ([], [])
  | c :: rest =>
    let (run, skipped) := selectFrom quote facts rest
    match guardOutcome quote facts c with
    | .error reason => (run, ⟨c.id, reason⟩ :: skipped)
    | .ok true => (c :: run, skipped)
    | .ok false => (run, skipped)

def Pack.select (quote : String → String) (p : Pack) (facts : StrMap String) :
    List Collector × List SkippedCollector :=
  selectFrom quote facts p.collectors

/-! ## Running the commands -/

/-- What `runCommand` returns without an error. -/
structure CommandOutput where
  stdout : String
  stderr : String
  exitCode : Int
  truncated : Bool
deriving DecidableEq, Repr

/-- What a host and the context do during one call of `inventoryHost`. -/
structure HostRun where
  dial : Except String Unit
  /-- The outcome of `factsProbe`. -/
  probe : Except String CommandOutput
  /-- The context has ended before the `k`-th command. -/
  expired : Nat → Bool
  /-- The outcome of the `k`-th command. -/
  outcome : Nat → Except String CommandOutput

/-- The functions that `inventoryHost` uses: `strings.ToLower`, `%q` and
`parseFacts`. -/
structure HostTools where
  toLower : String → String
  quote : String → String
  parseFacts : String → StrMap String

/-- The four maps that the collection writes. -/
structure Collection where
  collected : StrMap String := []
  exitCodes : StrMap Int := []
  truncated : StrMap Bool := []
  failed : StrMap String := []
deriving DecidableEq, Repr

def classifyDialError (toLower : String → String) (err : String) : TargetStatus :=
  let msg := (toLower err).toList
  let has (part : String) : Bool := containsText msg part.toList
  if has "unable to authenticate" ∨ has "no supported methods remain" ∨
      has "permission denied" then .sshAuthFailed
  else if has "connection refused" ∨ has "no route to host" ∨ has "network is unreachable" ∨
      has "connection reset" then .sshRefused
  else if has "timeout" ∨ has "deadline exceeded" ∨ has "i/o timeout" then .timeout
  else .error

/-- What the loop writes for the collector `c` and the outcome of its command. -/
def Collection.record (m : Collection) (c : Collector) :
    Except String CommandOutput → Collection
  | .error err => { m with failed := m.failed.insert c.id err }
  | .ok out =>
    { m with
      exitCodes := m.exitCodes.insert c.id out.exitCode
      truncated := m.truncated.insert c.id out.truncated
      collected := m.collected.insert c.id
        (if out.stderr ≠ "" then out.stdout ++ "\n[stderr]\n" ++ out.stderr else out.stdout) }

/-- The loop of `inventoryHost` from the `k`-th command on: the maps, whether the context
ended before a command, and the commands that were run. -/
def collectLoop (run : HostRun) : Nat → List Collector → Collection →
    Collection × Bool × List String
  | _, [], m => (m, false, [])
  | k, c :: rest, m =>
    if run.expired k then (m, true, [])
    else
      let (m', expired, cmds) := collectLoop run (k + 1) rest (m.record c (run.outcome k))
      (m', expired, c.cmd :: cmds)

def factsProbe : String := "cat /etc/os-release 2>/dev/null; echo \"---\"; uname -m"

/-- `inventoryHost`: the result without its duration, and the commands that were run.
`limit` is `maxOutputBytes`. -/
def inventoryHost (tools : HostTools) (host : String) (pack : Pack) (limit : Int) (run : HostRun) :
    TargetResult × List String :=
  match run.dial with
  | .error err =>
    ({ host := host, status := classifyDialError tools.toLower err, error := err }, [])
  | .ok () =>
    match run.probe with
    | .error err => ({ host := host, status := .error, error := "facts probe: " ++ err },
        [factsProbe])
    | .ok out =>
      let facts := tools.parseFacts out.stdout
      let (collectors, skipped) := pack.select tools.quote facts
      let (m, expired, cmds) := collectLoop run 0 collectors {}
      ({ host := host
         status := if expired then .timeout else .ok
         error := if expired then "host timeout during collection" else ""
         facts := facts
         collected := m.collected
         collectorExitCodes := m.exitCodes
         collectorTruncated := m.truncated
         collectorOutputLimitBytes := limit
         failed := m.failed
         skipped := skipped }, factsProbe :: cmds)

/-! ## Accounting -/

def HasKey {β : Type} (m : StrMap β) (k : String) : Prop := (m.get k).isSome = true

inductive Place
  | collected | failed | skipped
  /-- Its guard was evaluated to false. -/
  | notMatching
deriving DecidableEq, Repr

/-- The collector `c` is found at the place. -/
def FoundAt (quote : String → String) (res : TargetResult) (c : Collector) : Place → Prop
  | .collected => HasKey res.collected c.id
  | .failed => HasKey res.failed c.id
  | .skipped => ∃ s ∈ res.skipped, s.id = c.id
  | .notMatching => guardOutcome quote res.facts c = .ok false

def selected (quote : String → String) (p : Pack) (facts : StrMap String) : List Collector :=
  p.collectors.filter fun c => guardOutcome quote facts c = .ok true

/-- What a result with the status ok says of the collectors of the pack. -/
structure Accounted (quote : String → String) (p : Pack) (res : TargetResult)
    (cmds : List String) : Prop where
  /-- Each collector is at exactly one place. -/
  place : ∀ c ∈ p.collectors, ∃! place, FoundAt quote res c place
  /-- A skipped collector is one whose guard could not be evaluated. -/
  skipped : ∀ s ∈ res.skipped, ∃ c ∈ p.collectors, c.id = s.id ∧
    guardOutcome quote res.facts c = .error s.reason
  exitCodes : ∀ k, HasKey res.collectorExitCodes k ↔ HasKey res.collected k
  truncated : ∀ k, HasKey res.collectorTruncated k ↔ HasKey res.collected k
  /-- The commands of the selected collectors were run after the probe, in pack order. -/
  commands : cmds = factsProbe :: (selected quote p res.facts).map (·.cmd)

namespace HostInventoryLemmas

variable {cmds : List String} {res : TargetResult}

variable {quote : String → String} {facts : StrMap String} {p : Pack} {run : HostRun}
  {cs : List Collector} {c : Collector} {m : Collection} {id : String}

/-! ## The pack -/

theorem validateCollectors_nodup {i : Nat} {seen : List String}
    (h : validateCollectors i seen cs = .ok ()) :
    (cs.map (·.id)).Nodup ∧ ∀ c ∈ cs, c.id ∉ seen := by
  induction cs generalizing i seen with
  | nil => simp
  | cons c cs ih =>
    unfold validateCollectors at h
    split at h
    · cases h
    · split at h
      · cases h
      · next hseen =>
        split at h
        · cases h
        · have hrest : validateCollectors (i + 1) (c.id :: seen) cs = .ok () := by
            split at h
            · exact h
            · split at h
              · cases h
              · exact h
          obtain ⟨hnodup, hfresh⟩ := ih hrest
          rw [List.map_cons, List.nodup_cons]
          refine ⟨⟨?_, hnodup⟩, List.forall_mem_cons.mpr ⟨hseen, fun d hd hmem => ?_⟩⟩
          · intro hmem
            obtain ⟨d, hd, hid⟩ := List.mem_map.mp hmem
            exact hfresh d hd (hid ▸ List.mem_cons_self)
          · exact hfresh d hd (List.mem_cons_of_mem _ hmem)

theorem validate_nodup (h : p.validate = .ok ()) : (p.collectors.map (·.id)).Nodup := by
  unfold Pack.validate at h
  split at h
  · cases h
  · split at h
    · cases h
    · split at h
      · cases h
      · exact (validateCollectors_nodup h).1

def skippedRecord (quote : String → String) (facts : StrMap String) (c : Collector) :
    Option SkippedCollector :=
  match guardOutcome quote facts c with
  | .error reason => some ⟨c.id, reason⟩
  | .ok _ => none

theorem skippedRecord_eq_some {s : SkippedCollector} : skippedRecord quote facts c = some s ↔
    c.id = s.id ∧ guardOutcome quote facts c = .error s.reason := by
  obtain ⟨id, why⟩ := s
  unfold skippedRecord
  cases guardOutcome quote facts c with
  | error reason => simp
  | ok b => simp

theorem selectFrom_eq (quote : String → String) (facts : StrMap String) (cs : List Collector) :
    selectFrom quote facts cs = (cs.filter (fun c => guardOutcome quote facts c = .ok true),
      cs.filterMap (skippedRecord quote facts)) := by
  induction cs with
  | nil => rfl
  | cons c cs ih =>
    rw [selectFrom, ih, List.filter_cons, List.filterMap_cons, skippedRecord]
    match guardOutcome quote facts c with
    | .error reason => rfl
    | .ok true => rfl
    | .ok false => rfl

/-! ## The loop -/

def recordAll (run : HostRun) : Nat → List Collector → Collection → Collection
  | _, [], m => m
  | k, c :: rest, m => recordAll run (k + 1) rest (m.record c (run.outcome k))

theorem collectLoop_ok {k : Nat} {m' : Collection}
    (h : collectLoop run k cs m = (m', false, cmds)) :
    m' = recordAll run k cs m ∧ cmds = cs.map (·.cmd) := by
  induction cs generalizing k m cmds with
  | nil =>
    obtain ⟨rfl, -, rfl⟩ := by simpa [collectLoop] using h
    exact ⟨rfl, rfl⟩
  | cons c cs ih =>
    unfold collectLoop at h
    split at h
    · simp at h
    · rcases hrest : collectLoop run (k + 1) cs (m.record c (run.outcome k)) with
        ⟨m₁, expired, cmds₁⟩
      rw [hrest] at h
      obtain ⟨rfl, rfl, rfl⟩ := by simpa using h
      obtain ⟨rfl, rfl⟩ := ih hrest
      exact ⟨rfl, rfl⟩

theorem keys_recordAll {keys : Collection → String → Prop} {P : Except String CommandOutput → Prop}
    (hkeys : ∀ m c out id, keys (m.record c out) id ↔ keys m id ∨ c.id = id ∧ P out)
    (k : Nat) (cs : List Collector) (m : Collection) (id : String) :
    keys (recordAll run k cs m) id ↔
      keys m id ∨ ∃ j c, cs[j]? = some c ∧ c.id = id ∧ P (run.outcome (k + j)) := by
  induction cs generalizing k m with
  | nil => simp [recordAll]
  | cons c cs ih =>
    rw [recordAll, ih, hkeys, or_assoc]
    refine or_congr_right ?_
    constructor
    · rintro (⟨hid, hP⟩ | ⟨j, d, hd, hid, hP⟩)
      · exact ⟨0, c, rfl, hid, hP⟩
      · exact ⟨j + 1, d, hd, hid, by rwa [Nat.add_assoc, Nat.add_comm 1 j] at hP⟩
    · rintro ⟨j, d, hd, hid, hP⟩
      cases j with
      | zero =>
        obtain rfl := Option.some.inj hd
        exact .inl ⟨hid, hP⟩
      | succ j => exact .inr ⟨j, d, hd, hid, by rwa [Nat.add_assoc, Nat.add_comm 1 j]⟩

/-! ## The maps -/

theorem hasKey_insert {β : Type} (m : StrMap β) (k : String) (v : β) (k' : String) :
    HasKey (m.insert k v) k' ↔ HasKey m k' ∨ k = k' := by
  unfold HasKey
  rw [StrMap.get_insert]
  by_cases h : k' = k
  · simp [h]
  · simp [h, Ne.symm h]

theorem hasKey_record (m : Collection) (c : Collector) (out : Except String CommandOutput)
    (id : String) :
    (HasKey (m.record c out).collected id ↔ HasKey m.collected id ∨ c.id = id ∧ out.isOk = true) ∧
    (HasKey (m.record c out).exitCodes id ↔ HasKey m.exitCodes id ∨ c.id = id ∧ out.isOk = true) ∧
    (HasKey (m.record c out).truncated id ↔ HasKey m.truncated id ∨ c.id = id ∧ out.isOk = true) ∧
    (HasKey (m.record c out).failed id ↔ HasKey m.failed id ∨ c.id = id ∧ out.isOk = false) := by
  cases out with
  | error err => simp [Collection.record, hasKey_insert, Except.isOk, Except.toBool]
  | ok out => simp [Collection.record, hasKey_insert, Except.isOk, Except.toBool]

theorem hasKey_nil {β : Type} (k : String) : ¬ HasKey ([] : StrMap β) k := Bool.false_ne_true

/-- The `j`-th selected collector is `c`, and its command returned without an error. -/
def RanAt (run : HostRun) (cs : List Collector) (c : Collector) (ok : Bool) : Prop :=
  ∃ j, cs[j]? = some c ∧ (run.outcome j).isOk = ok

theorem keys_iff (keys : Collection → String → Prop) {ok : Bool}
    (hkeys : ∀ m c out id, keys (m.record c out) id ↔ keys m id ∨ c.id = id ∧ out.isOk = ok)
    (hnil : ∀ id, ¬ keys {} id) :
    keys (recordAll run 0 cs {}) id ↔ ∃ c, RanAt run cs c ok ∧ c.id = id := by
  rw [keys_recordAll hkeys, or_iff_right (hnil id)]
  constructor
  · rintro ⟨j, c, hc, hid, hout⟩
    exact ⟨c, ⟨j, hc, by rwa [Nat.zero_add] at hout⟩, hid⟩
  · rintro ⟨c, ⟨j, hc, hout⟩, hid⟩
    exact ⟨j, c, hc, hid, by rwa [Nat.zero_add]⟩

theorem hasKey_recordAll (run : HostRun) (cs : List Collector) (id : String) :
    (HasKey (recordAll run 0 cs {}).collected id ↔ ∃ c, RanAt run cs c true ∧ c.id = id) ∧
    (HasKey (recordAll run 0 cs {}).exitCodes id ↔ ∃ c, RanAt run cs c true ∧ c.id = id) ∧
    (HasKey (recordAll run 0 cs {}).truncated id ↔ ∃ c, RanAt run cs c true ∧ c.id = id) ∧
    (HasKey (recordAll run 0 cs {}).failed id ↔ ∃ c, RanAt run cs c false ∧ c.id = id) :=
  ⟨keys_iff (fun m => HasKey m.collected)
      (fun m c out id => (hasKey_record m c out id).1) hasKey_nil,
    keys_iff (fun m => HasKey m.exitCodes)
      (fun m c out id => (hasKey_record m c out id).2.1) hasKey_nil,
    keys_iff (fun m => HasKey m.truncated)
      (fun m c out id => (hasKey_record m c out id).2.2.1) hasKey_nil,
    keys_iff (fun m => HasKey m.failed)
      (fun m c out id => (hasKey_record m c out id).2.2.2) hasKey_nil⟩

/-! ## One place for each collector -/

theorem eq_of_id_eq (hnodup : (cs.map (·.id)).Nodup) {d : Collector} (hc : c ∈ cs) (hd : d ∈ cs)
    (h : c.id = d.id) : c = d :=
  List.inj_on_of_nodup_map hnodup hc hd h

theorem ranAt_mem {ok : Bool} (h : RanAt run cs c ok) : c ∈ cs := by
  obtain ⟨j, hj, -⟩ := h
  exact List.mem_of_getElem? hj

theorem ranAt_unique (hnodup : cs.Nodup) {ok ok' : Bool} (h : RanAt run cs c ok)
    (h' : RanAt run cs c ok') : ok = ok' := by
  obtain ⟨j, hj, rfl⟩ := h
  obtain ⟨j', hj', rfl⟩ := h'
  have hlt := (List.getElem?_eq_some_iff.mp hj).1
  rw [(List.getElem?_inj hlt hnodup).mp (hj.trans hj'.symm)]

theorem exists_ranAt (run : HostRun) (hc : c ∈ cs) : ∃ ok, RanAt run cs c ok := by
  obtain ⟨j, hj⟩ := List.mem_iff_getElem?.mp hc
  exact ⟨_, j, hj, rfl⟩

/-- The result of a collection that ran every command. -/
structure Complete (quote : String → String) (p : Pack) (run : HostRun) (res : TargetResult)
    (cmds : List String) : Prop where
  maps : ∃ m, m = recordAll run 0 (selected quote p res.facts) {} ∧ res.collected = m.collected ∧
    res.collectorExitCodes = m.exitCodes ∧ res.collectorTruncated = m.truncated ∧
    res.failed = m.failed
  skipped : res.skipped = p.collectors.filterMap (skippedRecord quote res.facts)
  commands : cmds = factsProbe :: (selected quote p res.facts).map (·.cmd)

theorem classifyDialError_ne_ok (toLower : String → String) (err : String) :
    classifyDialError toLower err ≠ .ok := by
  unfold classifyDialError
  dsimp only
  split_ifs <;> exact nofun

theorem inventoryHost_complete {tools : HostTools} {host : String} {limit : Int}
    (hres : inventoryHost tools host p limit run = (res, cmds)) (h : res.status = .ok) :
    Complete tools.quote p run res cmds := by
  unfold inventoryHost at hres
  split at hres
  · obtain ⟨rfl, -⟩ := Prod.mk.inj hres
    exact absurd h (classifyDialError_ne_ok _ _)
  · split at hres
    · obtain ⟨rfl, -⟩ := Prod.mk.inj hres
      cases h
    · next out _ =>
      have hselect : p.select tools.quote (tools.parseFacts out.stdout) =
          (selected tools.quote p (tools.parseFacts out.stdout), _) := selectFrom_eq _ _ _
      rcases hloop : collectLoop run 0 (selected tools.quote p (tools.parseFacts out.stdout)) {}
        with ⟨m, expired, cmds'⟩
      dsimp only at hres
      rw [hselect] at hres
      dsimp only at hres
      rw [hloop] at hres
      obtain ⟨rfl, rfl⟩ := Prod.mk.inj hres
      cases expired with
      | true => cases h
      | false =>
        obtain ⟨hm, hcmds⟩ := collectLoop_ok hloop
        exact ⟨⟨m, hm, rfl, rfl, rfl, rfl⟩, rfl, by rw [hcmds]⟩

theorem foundAt_iff (hnodup : (p.collectors.map (·.id)).Nodup) (h : Complete quote p run res cmds)
    (hc : c ∈ p.collectors) :
    (FoundAt quote res c .collected ↔ RanAt run (selected quote p res.facts) c true) ∧
    (FoundAt quote res c .failed ↔ RanAt run (selected quote p res.facts) c false) ∧
    (FoundAt quote res c .skipped ↔ ∃ reason, guardOutcome quote res.facts c = .error reason) := by
  obtain ⟨_, rfl, hcollected, -, -, hfailed⟩ := h.maps
  have hran : ∀ ok, (∃ d, RanAt run (selected quote p res.facts) d ok ∧ d.id = c.id) ↔
      RanAt run (selected quote p res.facts) c ok := by
    intro ok
    constructor
    · rintro ⟨d, hd, hid⟩
      have hmem := List.mem_of_mem_filter (ranAt_mem hd)
      exact eq_of_id_eq hnodup hmem hc hid ▸ hd
    · exact fun hran => ⟨c, hran, rfl⟩
  obtain ⟨hcol, -, -, hfail⟩ := hasKey_recordAll run (selected quote p res.facts) c.id
  refine ⟨?_, ?_, ?_⟩
  · rw [← hran true, ← hcol, ← hcollected]
    rfl
  · rw [← hran false, ← hfail, ← hfailed]
    rfl
  · simp only [FoundAt, h.skipped, List.mem_filterMap, skippedRecord_eq_some]
    constructor
    · rintro ⟨s, ⟨d, hd, hid, hout⟩, hs⟩
      obtain rfl := eq_of_id_eq hnodup hd hc (hid.trans hs)
      exact ⟨_, hout⟩
    · rintro ⟨reason, hout⟩
      exact ⟨⟨c.id, reason⟩, ⟨c, hc, rfl, hout⟩, rfl⟩

theorem place_unique (hnodup : (p.collectors.map (·.id)).Nodup) (h : Complete quote p run res cmds)
    (hc : c ∈ p.collectors) : ∃! place, FoundAt quote res c place := by
  obtain ⟨hcollected, hfailed, hskipped⟩ := foundAt_iff hnodup h hc
  have hselected : (selected quote p res.facts).Nodup := (List.Nodup.of_map _ hnodup).filter _
  have hran : ∀ ok, RanAt run (selected quote p res.facts) c ok →
      guardOutcome quote res.facts c = .ok true := by
    intro ok hran
    exact of_decide_eq_true (List.mem_filter.mp (ranAt_mem hran)).2
  cases hout : guardOutcome quote res.facts c with
  | error reason =>
    refine ⟨.skipped, hskipped.mpr ⟨reason, hout⟩, ?_⟩
    rintro (_ | _ | _ | _) hfound
    · cases hout.symm.trans (hran _ (hcollected.mp hfound))
    · cases hout.symm.trans (hran _ (hfailed.mp hfound))
    · rfl
    · cases hout.symm.trans hfound
  | ok b =>
    have hnot : ¬ FoundAt quote res c .skipped := by
      intro hfound
      obtain ⟨reason, herror⟩ := hskipped.mp hfound
      cases hout.symm.trans herror
    cases b with
    | false =>
      refine ⟨.notMatching, hout, ?_⟩
      rintro (_ | _ | _ | _) hfound
      · cases hout.symm.trans (hran _ (hcollected.mp hfound))
      · cases hout.symm.trans (hran _ (hfailed.mp hfound))
      · exact absurd hfound hnot
      · rfl
    | true =>
      have hmem : c ∈ selected quote p res.facts := List.mem_filter.mpr ⟨hc, decide_eq_true hout⟩
      obtain ⟨ok, hok⟩ := exists_ranAt run hmem
      cases ok with
      | true =>
        refine ⟨.collected, hcollected.mpr hok, ?_⟩
        rintro (_ | _ | _ | _) hfound
        · rfl
        · cases ranAt_unique hselected hok (hfailed.mp hfound)
        · exact absurd hfound hnot
        · cases hout.symm.trans hfound
      | false =>
        refine ⟨.failed, hfailed.mpr hok, ?_⟩
        rintro (_ | _ | _ | _) hfound
        · cases ranAt_unique hselected hok (hcollected.mp hfound)
        · rfl
        · exact absurd hfound hnot
        · cases hout.symm.trans hfound

end HostInventoryLemmas

open HostInventoryLemmas in
/-- For a validated pack and any facts, outcomes of the commands and end of the
context: if the result has the status ok, each collector of the pack is at exactly one
place, the exit codes and the truncation marks have the keys of the collected outputs,
and the commands of the selected collectors were run in pack order, each once. -/
theorem collectors_accounted (p : Pack) (hp : p.validate = .ok ()) (tools : HostTools)
    (host : String) (limit : Int) (run : HostRun)
    (hok : (inventoryHost tools host p limit run).1.status = .ok) :
    Accounted tools.quote p (inventoryHost tools host p limit run).1
      (inventoryHost tools host p limit run).2 := by
  have h := inventoryHost_complete (Prod.mk.eta).symm hok
  obtain ⟨_, rfl, hcollected, hexit, htruncated, -⟩ := h.maps
  refine ⟨fun c hc => place_unique (validate_nodup hp) h hc, fun s hs => ?_, fun k => ?_,
    fun k => ?_, h.commands⟩
  · rw [h.skipped, List.mem_filterMap] at hs
    obtain ⟨c, hc, hrecord⟩ := hs
    exact ⟨c, hc, skippedRecord_eq_some.mp hrecord⟩
  · obtain ⟨hcol, hcodes, -⟩ := hasKey_recordAll run
      (selected tools.quote p (inventoryHost tools host p limit run).1.facts) k
    rw [hexit, hcollected, hcodes, hcol]
  · obtain ⟨hcol, -, htrunc, -⟩ := hasKey_recordAll run
      (selected tools.quote p (inventoryHost tools host p limit run).1.facts) k
    rw [htruncated, hcollected, htrunc, hcol]

def debianPack : Pack where
  version := 1
  kind := "inventory"
  collectors := [⟨"kernel", "", "uname -r"⟩, ⟨"packages", "os_family == 'debian'", "dpkg -l"⟩]
  signature := ""

/-- A host without facts on which every command fails: the first collector has failed,
and the second is skipped. -/
theorem debianPack_accounted :
    Accounted id debianPack
      (inventoryHost ⟨id, id, fun _ => []⟩ "db-1" debianPack 1024
        ⟨.ok (), .ok ⟨"", "", 0, false⟩, fun _ => false, fun _ => .error "command timed out"⟩).1
      [factsProbe, "uname -r"] :=
  collectors_accounted debianPack (by decide) ⟨id, id, fun _ => []⟩ "db-1" 1024
    ⟨.ok (), .ok ⟨"", "", 0, false⟩, fun _ => false, fun _ => .error "command timed out"⟩
    (by decide)

end Forager
