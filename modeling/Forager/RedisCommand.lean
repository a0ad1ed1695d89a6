import Forager.GoCase
import Forager.GoValue

/-!
# Commands of the Redis proxy

`HandleRequest` and `handleCommand` of `pkg/proxy/redis/proxy.go`. The name that is
checked is the first field of the `command` parameter in lower case; what is sent is the
parameter itself, followed by the `args`.
-/

namespace Forager

open Go GoText

def readOnlyCommands : List Bytes :=
  ["get", "mget", "keys", "scan", "type", "ttl", "pttl", "exists", "dbsize", "info", "slowlog",
   "client", "memory", "cluster", "llen", "scard", "zcard", "hlen", "hgetall", "lrange", "smembers",
   "zrange", "strlen", "object"].map ascii

/-- What a request does before the server answers. -/
inductive RedisStep
  | missingCommand
  | notAllowed (cmdLower : Bytes)
  | unknownAction (action : String)
  /-- A slice is indexed out of range. -/
  | panics
  /-- The elements that are sent: the name of the command and its arguments. -/
  | sends (name : Bytes) (args : List Any)

/-- `x.([]any)` on a possibly absent map entry. -/
def asSlice : Option Any → List Any
  | some (.slice xs) => xs
  | _ => []

def handleCommand (params : StrMap Any) : RedisStep :=
  let command := utf8 (Any.asString (params.get "command"))
  if command = [] then .missingCommand
  else match fields command with
    | [] => .panics
    | field :: _ =>
      let cmdLower := lower.map field
      if readOnlyCommands.any (· = cmdLower) then
        .sends command (asSlice (params.get "args"))
      else .notAllowed cmdLower

def slowlogCount (params : StrMap Any) : Int :=
  match params.get "count" with
  | some (.float f) => if f.neg = false ∧ f.mant ≠ 0 then f.toInt else 10
  | _ => 10

def handleInfo (infoSection : String) : RedisStep :=
  .sends (ascii "info") (if infoSection ≠ "" then [.string infoSection] else [])

def handleRedis (action : String) (params : StrMap Any) : RedisStep :=
  match action with
  | "redis_info" => handleInfo ""
  | "redis_info_section" => handleInfo (Any.asString (params.get "section"))
  | "redis_slowlog" => .sends (ascii "slowlog") [.string "get", .int (slowlogCount params)]
  | "redis_client_list" => .sends (ascii "client") [.string "list"]
  | "redis_memory_stats" => .sends (ascii "MEMORY") [.string "STATS"]
  | "redis_command" => handleCommand params
  | "redis_cluster_info" => .sends (ascii "cluster") [.string "info"]
  | "redis_keyspace_stats" => handleInfo "keyspace"
  | _ => .unknownAction action

/-! ## Admission -/

/-- The server takes the name for a command on the list: it compares names without regard
to the case of ASCII letters. -/
def IsReadOnly (name : Bytes) : Prop := readOnlyCommands.any (· = lower.inPlace name) = true

instance decidableIsReadOnly (name : Bytes) : Decidable (IsReadOnly name) :=
  inferInstanceAs (Decidable (_ = true))

/-- No panic, and nothing is sent but commands on the list. -/
def RedisStep.Admitted : RedisStep → Prop
  | .panics => False
  | .sends name _ => IsReadOnly name
  | .missingCommand | .notAllowed _ | .unknownAction _ => True

def PlainCommand (command : Bytes) : Prop := ∀ b ∈ command, IsAscii b ∧ IsSolid b

/-- The first field of the command is not on the list. -/
def Refused (command : Bytes) : Prop :=
  ∃ field rest, fields command = field :: rest ∧
    readOnlyCommands.any (· = lower.map field) = false

namespace RedisLemmas

variable {command : Bytes}

theorem quiet_of_isSolid {b : UInt8} (h : IsSolid b) : Lines.Quiet spaces b := by
  intro q hq
  cases q with
  | nil => exact absurd rfl (spaces_ne_nil [] hq)
  | cons c q =>
    have hne : c ≠ b := by
      rintro rfl
      exact h _ hq List.mem_cons_self
    simpa using hne

theorem fields_plain (h : PlainCommand command) (hne : command ≠ []) :
    fields command = [command] := by
  rw [fields, Lines.split_quiet fun b hb => quiet_of_isSolid (h b hb).2]
  exact List.filter_eq_self.mpr fun l hl => by
    rw [List.mem_singleton.mp hl]
    exact decide_eq_true hne

theorem map_plain (h : PlainCommand command) : lower.map command = lower.inPlace command := by
  have hmap := CaseMap.map_ascii_append (κ := lower) (fun b hb => (h b hb).1) []
  rwa [List.append_nil, CaseMap.map_nil, List.append_nil] at hmap

theorem letters_readOnly : ∀ name ∈ readOnlyCommands, ∀ b ∈ name, 0x61 ≤ b ∧ b ≤ 0x7A := by
  have hall : readOnlyCommands.all (fun name => name.all fun b => 0x61 ≤ b ∧ b ≤ 0x7A) = true := by
    decide +kernel
  intro name hname b hb
  exact of_decide_eq_true (List.all_eq_true.mp (List.all_eq_true.mp hall name hname) b hb)

theorem plain_of_lowerByte : ∀ n < 256, 0x61 ≤ lowerByte (.ofNat n) ∧ lowerByte (.ofNat n) ≤ 0x7A →
    IsAscii (.ofNat n) ∧ IsSolid (.ofNat n) := by
  decide +kernel

theorem plain_of_isReadOnly (h : IsReadOnly command) : PlainCommand command := by
  obtain ⟨name, hname, heq⟩ := List.any_eq_true.mp h
  obtain rfl := of_decide_eq_true heq
  intro b hb
  have hletter := letters_readOnly _ hname (lowerByte b) (List.mem_map_of_mem hb)
  have hbyte := plain_of_lowerByte b.toNat b.toNat_lt
  rw [UInt8.ofNat_toNat] at hbyte
  exact hbyte hletter

/-- The name that is checked is the name that is sent exactly if the command is plain. -/
theorem isReadOnly_iff {field : Bytes} {rest : List Bytes}
    (hfields : fields command = field :: rest)
    (hallowed : readOnlyCommands.any (· = lower.map field) = true) :
    IsReadOnly command ↔ PlainCommand command := by
  refine ⟨plain_of_isReadOnly, fun h => ?_⟩
  have hne : command ≠ [] := by
    rintro rfl
    cases hfields
  rw [fields_plain h hne] at hfields
  obtain ⟨rfl, -⟩ := List.cons.inj hfields
  rwa [IsReadOnly, ← map_plain h]

theorem handleCommand_admitted_iff (params : StrMap Any) :
    (handleCommand params).Admitted ↔
      PlainCommand (utf8 (Any.asString (params.get "command"))) ∨
        Refused (utf8 (Any.asString (params.get "command"))) := by
  unfold handleCommand
  generalize utf8 (Any.asString (params.get "command")) = command
  dsimp only
  split
  · next hnil =>
    rw [hnil]
    exact iff_of_true trivial (.inl fun b hb => absurd hb List.not_mem_nil)
  · next hne =>
    split
    · next hfields =>
      refine iff_of_false id ?_
      rintro (hplain | ⟨field, rest, hcons, -⟩)
      · rw [fields_plain hplain hne] at hfields
        cases hfields
      · rw [hfields] at hcons
        cases hcons
    · next field rest hfields =>
      have hrefused : Refused command ↔ readOnlyCommands.any (· = lower.map field) = false := by
        constructor
        · rintro ⟨field', rest', hcons, h⟩
          rw [hfields] at hcons
          rwa [(List.cons.inj hcons).1]
        · exact fun h => ⟨field, rest, hfields, h⟩
      rw [hrefused]
      split
      · next hallowed =>
        rw [hallowed, or_iff_left Bool.noConfusion]
        exact isReadOnly_iff hfields hallowed
      · next hnot => exact iff_of_true trivial (.inr (Bool.eq_false_iff.mpr hnot))

end RedisLemmas

open RedisLemmas in
/-- A `redis_command` request does not panic and sends nothing but commands on the list
exactly if its command is ASCII without white space, or its first field is refused. -/
theorem redis_admission_iff (params : StrMap Any) :
    (handleRedis "redis_command" params).Admitted ↔
      PlainCommand (utf8 (Any.asString (params.get "command"))) ∨
        Refused (utf8 (Any.asString (params.get "command"))) :=
  handleCommand_admitted_iff params

/-- The other actions send nothing but commands on the list. -/
theorem handleRedis_other {action : String} (h : action ≠ "redis_command") (params : StrMap Any) :
    (handleRedis action params).Admitted := by
  have hnames : ["info", "slowlog", "client", "MEMORY", "cluster"].all
      (fun name => IsReadOnly (ascii name)) = true := by decide +kernel
  have hname (name : String) (hn : name ∈ ["info", "slowlog", "client", "MEMORY", "cluster"]) :
      IsReadOnly (ascii name) := of_decide_eq_true (List.all_eq_true.mp hnames name hn)
  unfold handleRedis
  split
  · exact hname "info" (by decide)
  · exact hname "info" (by decide)
  · exact hname "slowlog" (by decide)
  · exact hname "client" (by decide)
  · exact hname "MEMORY" (by decide)
  · exact absurd rfl h
  · exact hname "cluster" (by decide)
  · exact hname "info" (by decide)
  · trivial

/-- Not in general: a blank command is indexed at its first field, which it does not have,
and `get k` is sent as the name of a command. -/
theorem redis_admission_fails :
    handleRedis "redis_command" [("command", .string " ")] = .panics ∧
    handleRedis "redis_command" [("command", .string "get k")] = .sends (ascii "get k") [] ∧
    ¬ IsReadOnly (ascii "get k") := by
  exact ⟨rfl, rfl, by decide +kernel⟩

end Forager
