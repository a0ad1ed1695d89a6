import Forager.GoCase

/-!
# Queries wrapped in a command line

`sanitizeQuery` of `pkg/proxy/db/proxy.go`, which takes the SQL text out of a
`psql`, `mysql`, `mariadb`, `sqlcmd` or `sqlplus` command, with
`extractFlagArg` and `stripQuotes`. A slice expression out of range panics,
which is `none`.
-/

namespace Forager

open GoText

/-! ## Slices -/

/-- `s[i:]`. -/
def sliceFrom (s : Bytes) (i : Nat) : Option Bytes := if i ≤ s.length then some (s.drop i) else none

/-- `s[i:j]`. -/
def sliceRange (s : Bytes) (i j : Nat) : Option Bytes :=
  if i ≤ j ∧ j ≤ s.length then some ((s.take j).drop i) else none

/-! ## Arguments -/

def squote : UInt8 := 0x27

def quotation : UInt8 := 0x22

def bslash : UInt8 := 0x5C

/-- The loop of `extractFlagArg` over the segments of a single-quoted argument,
with what it has written so far. An unclosed quote gives the empty text. -/
def singleQuoted (inner result : Bytes) : Bytes :=
  match _found : index inner [squote] with
  | none => []
  | some e =>
    let result := result ++ inner.take e
    let rest := inner.drop (e + 1)
    if [bslash, squote, squote] <+: rest then singleQuoted (rest.drop 3) (result ++ [squote])
    else result
termination_by inner.length
decreasing_by
  have hle := index_le _found
  simp only [List.length_drop, List.length_singleton] at hle ⊢
  omega

/-- The argument that the trimmed text after a flag starts with. -/
def flagArg (argPart : Bytes) : Bytes :=
  match argPart with
  | [] => []
  | c :: inner =>
    if c = quotation then
      match index inner [quotation] with
      | none => []
      | some e => inner.take e
    else if c = squote then singleQuoted inner []
    else match fields argPart with
      | [] => []
      | token :: _ => token

def extractFlagArg (original lowered flag : Bytes) : Option Bytes :=
  match index lowered flag with
  | none => some []
  | some idx => do
    let argPart ← sliceFrom original (idx + flag.length)
    return flagArg (GoText.trimSpace argPart)

def stripQuotes (s : Bytes) : Bytes :=
  if 2 ≤ s.length ∧ (s.head? = some quotation ∧ s.getLast? = some quotation ∨
      s.head? = some squote ∧ s.getLast? = some squote) then
    (s.drop 1).dropLast
  else s

/-! ## The query -/

inductive Wrapping
  | psql
  | mariadb
  | sqlcmd
  | piped (pipeIdx : Nat)
  | sqlplus
  | plain
deriving DecidableEq, Repr

/-- The tests of `sanitizeQuery` on the lowered query, in their order. -/
def wrapping (lowered : Bytes) : Wrapping :=
  if ascii "psql" <+: lowered then .psql
  else if ascii "mariadb" <+: lowered ∨ ascii "mysql" <+: lowered then .mariadb
  else if ascii "sqlcmd" <+: lowered then .sqlcmd
  else match index lowered (ascii "| sqlplus") with
    | some pipeIdx => .piped pipeIdx
    | none => if ascii "sqlplus" <+: lowered then .sqlplus else .plain

/-- The offsets between which the SQL text of a `\copy (SQL) TO` argument is cut
out, if its last `) TO` is at `closeMark`. -/
def copyRange (arg : Bytes) (closeMark : Option Nat) : Option (Nat × Nat) :=
  match index arg (ascii "("), closeMark with
  | some open_, some closeMark => if closeMark ≤ open_ then none else some (open_ + 1, closeMark)
  | _, _ => none

/-- The SQL text of a `\copy` argument; without the form it is the query `q`. -/
def copyQuery (q arg : Bytes) : Option Bytes :=
  match copyRange arg (lastIndex (upper.map arg) (ascii ") TO")) with
  | none => some q
  | some (i, j) => do
    let text ← sliceRange arg i j
    return GoText.trimSpace text

/-- The argument of `flag`, and the query where there is none. -/
def flagQuery (q lowered flag : Bytes) : Option Bytes := do
  let arg ← extractFlagArg q lowered flag
  return if arg = [] then q else arg

def sanitizeQuery (query : Bytes) : Option Bytes :=
  let q := GoText.trimSpace query
  let lowered := lower.map q
  match wrapping lowered with
  | .psql => do
    let arg ← extractFlagArg q lowered (ascii " -c ")
    if arg = [] then return q
    else if ascii "\\copy" <+: lower.map arg then copyQuery q arg
    else return arg
  | .mariadb => flagQuery q lowered (ascii " -e ")
  | .sqlcmd => flagQuery q lowered (ascii " -q ")
  | .piped pipeIdx => do
    let before ← sliceRange q 0 pipeIdx
    let before := GoText.trimSpace before
    if ascii "echo " <+: lower.map before then
      let text ← sliceFrom before 5
      return stripQuotes (GoText.trimSpace text)
    else return q
  | .sqlplus => do
    let arg ← extractFlagArg q lowered (ascii " -q ")
    -- go-ora rejects a trailing semicolon.
    if arg ≠ [] then return Lines.trimRight (· ∈ ascii "; \t\n") arg
    else match index q (ascii "<<<") with
      | some hereIdx => do
        let text ← sliceFrom q (hereIdx + 3)
        return stripQuotes (GoText.trimSpace text)
      | none => return q
  | .plain => return q

/-! ## The commands of the callers -/

/-- A command that takes SQL text as the argument of a flag. -/
inductive QueryTool
  | psql
  | mysql
  | mariadb
  | sqlcmd
deriving DecidableEq, Repr

def QueryTool.command : QueryTool → Bytes
  | .psql => ascii "psql"
  | .mysql => ascii "mysql"
  | .mariadb => ascii "mariadb"
  | .sqlcmd => ascii "sqlcmd"

def QueryTool.flag : QueryTool → Bytes
  | .psql => ascii " -c "
  | .mysql => ascii " -e "
  | .mariadb => ascii " -e "
  | .sqlcmd => ascii " -q "

/-- The text starts with `\copy` in any case. -/
def IsCopy (s : Bytes) : Prop := ascii "\\copy" <+: lower.inPlace s

instance (s : Bytes) : Decidable (IsCopy s) := inferInstanceAs (Decidable (_ <+: _))

def escapeSingle (s : Bytes) : Bytes :=
  s.flatMap fun b => if b = squote then [squote, bslash, squote, squote] else [b]

/-- Text for a double-quoted argument: a backslash before every `"` and `\`. -/
def escapeDouble (s : Bytes) : Bytes :=
  s.flatMap fun b => if b = quotation ∨ b = bslash then [bslash, b] else [b]

namespace DbQueryLemmas

variable {b : UInt8} {tool : QueryTool} {w : Bytes} {s : Bytes}

/-! ## Single quotes -/

theorem singleQuoted_append (hw : squote ∉ w) (t result : Bytes) :
    singleQuoted (w ++ squote :: t) result =
      if [bslash, squote, squote] <+: t then singleQuoted (t.drop 3) (result ++ w ++ [squote])
      else result ++ w := by
  rw [singleQuoted]
  split
  · next h =>
    rw [index_letter hw] at h
    cases h
  · next e h =>
    rw [index_letter hw] at h
    cases h
    simp

theorem singleQuoted_escape {t : Bytes} (ht : ¬ [bslash, squote, squote] <+: t) (s : Bytes) :
    ∀ w result : Bytes, squote ∉ w →
      singleQuoted (w ++ (escapeSingle s ++ squote :: t)) result = result ++ w ++ s := by
  induction s with
  | nil =>
    intro w result hw
    rw [escapeSingle, List.flatMap_nil, List.nil_append, singleQuoted_append hw, if_neg ht,
      List.append_nil]
  | cons b s ih =>
    intro w result hw
    by_cases hb : b = squote
    · subst hb
      have hesc : escapeSingle (squote :: s) =
          squote :: bslash :: squote :: squote :: escapeSingle s := by
        simp [escapeSingle]
      rw [hesc, List.cons_append, singleQuoted_append hw, if_pos (by simp)]
      have hnext := ih [] (result ++ w ++ [squote]) List.not_mem_nil
      simpa using hnext
    · have hesc : escapeSingle (b :: s) = b :: escapeSingle s := by simp [escapeSingle, hb]
      have hnext := ih (w ++ [b]) result (by simpa [hw] using Ne.symm hb)
      rw [hesc]
      simpa using hnext

/-! ## The argument of a flag -/

theorem length_map_ascii (hs : ∀ b ∈ s, IsAscii b) : (lower.map s).length = s.length := by
  have h := CaseMap.map_ascii_append (κ := lower) hs []
  rw [List.append_nil, CaseMap.map_nil, List.append_nil] at h
  rw [h, CaseMap.inPlace, List.length_map]

theorem isMark_flag (tool : QueryTool) : lower.IsMark tool.flag := by
  cases tool <;> exact isMark_lower (List.all_iff_forall_prop.mp (by decide))

theorem isMark_copy : lower.IsMark (ascii "\\copy") :=
  isMark_lower (List.all_iff_forall_prop.mp (by decide))

theorem isCopy_iff (arg : Bytes) : ascii "\\copy" <+: lower.map arg ↔ IsCopy arg :=
  CaseMap.isPrefix_map isMark_copy (by decide) arg

theorem extractFlagArg_at {mark before flag rest : Bytes} (hmark : lower.IsMark mark)
    (hne : mark ≠ []) (hflag : lower.inPlace flag = mark) (hbefore : ∀ b ∈ before, IsAscii b)
    (hfirst : index (lower.inPlace (before ++ flag ++ rest)) mark = some before.length) :
    extractFlagArg (before ++ flag ++ rest) (lower.map (before ++ flag ++ rest)) mark =
      some (flagArg (GoText.trimSpace rest)) := by
  have hlength : flag.length = mark.length := by rw [← hflag, CaseMap.inPlace, List.length_map]
  have hindex : index (lower.map (before ++ flag ++ rest)) mark = some before.length := by
    rw [CaseMap.index_map hmark hne, hfirst, Option.map_some, CaseMap.offset, List.append_assoc,
      List.take_left, length_map_ascii hbefore]
  have hslice : sliceFrom (before ++ flag ++ rest) (before.length + mark.length) = some rest := by
    rw [sliceFrom, if_pos (by simp [hlength]), ← hlength, ← List.length_append, List.drop_left]
  rw [extractFlagArg, hindex]
  show (sliceFrom _ _ >>= fun argPart => _) = _
  rw [hslice]
  rfl

/-! ## The command -/

theorem wrapping_command (tool : QueryTool) (rest : Bytes) :
    wrapping (tool.command ++ rest) = match tool with
      | .psql => .psql
      | .mysql => .mariadb
      | .mariadb => .mariadb
      | .sqlcmd => .sqlcmd := by
  cases tool <;> simp [wrapping, QueryTool.command, ascii]

theorem command_ascii {command : Bytes} (h : lower.inPlace command = tool.command) :
    ∀ b ∈ command, IsAscii b := by
  intro b hb
  by_contra hhigh
  have hmem : lowerByte b ∈ tool.command := h ▸ List.mem_map_of_mem hb
  have hascii : ∀ a ∈ tool.command, IsAscii a := by
    cases tool <;> exact List.all_iff_forall_prop.mp (by decide)
  exact lower.high b hhigh (hascii _ hmem)

theorem flagQuery_eq {q lowered flag arg : Bytes}
    (harg : extractFlagArg q lowered flag = some arg) (hne : arg ≠ []) :
    flagQuery q lowered flag = some arg := by
  rw [flagQuery, harg]
  exact congrArg some (if_neg hne)

theorem sanitizeQuery_tool {command rest : Bytes} {query arg : Bytes}
    (hcommand : lower.inPlace command = tool.command)
    (hq : GoText.trimSpace query = command ++ rest)
    (harg : extractFlagArg (command ++ rest) (lower.map (command ++ rest)) tool.flag = some arg)
    (hne : arg ≠ []) (hcopy : tool = .psql → ¬ IsCopy arg) : sanitizeQuery query = some arg := by
  have hlower : lower.map (command ++ rest) = tool.command ++ lower.map rest := by
    rw [CaseMap.map_ascii_append (command_ascii hcommand), hcommand]
  have hwrap := wrapping_command tool (lower.map rest)
  rw [← hlower] at hwrap
  unfold sanitizeQuery
  dsimp only
  rw [hq, hwrap]
  cases tool with
  | psql =>
    show (extractFlagArg _ _ (ascii " -c ") >>= fun arg => _) = _
    rw [show extractFlagArg _ _ (ascii " -c ") = some arg from harg]
    show (if arg = [] then _ else if ascii "\\copy" <+: lower.map arg then _ else _) = _
    rw [if_neg hne, if_neg (fun h => hcopy rfl ((isCopy_iff arg).mp h))]
    rfl
  | mysql | mariadb | sqlcmd => exact flagQuery_eq harg hne

/-! ## Trimming -/

theorem isSolid_of_lowerByte (h : IsSolid (lowerByte b)) : IsSolid b := by
  unfold lowerByte at h
  split at h
  · next hletter =>
    have hnone : ∀ c ∈ spaces.flatten, ¬ (0x41 ≤ c ∧ c ≤ 0x5A) :=
      List.all_iff_forall_prop.mp (by decide +kernel)
    exact fun q hq hb => hnone b (List.mem_flatten_of_mem hq hb) hletter
  · exact h

theorem trimSpace_command {command : Bytes} (hcommand : lower.inPlace command = tool.command)
    {c : UInt8} (hc : IsSolid c) (x tail : Bytes) :
    GoText.trimSpace (command ++ (x ++ c :: tail)) =
      command ++ (x ++ c :: trimRightSpace tail) := by
  cases command with
  | nil => cases tool <;> cases hcommand
  | cons b command =>
    have hb : IsSolid b := by
      have hhead : tool.command.head? = some (lowerByte b) := by rw [← hcommand]; rfl
      have hsolid : ∀ a, tool.command.head? = some a → IsSolid a := by
        cases tool <;> (rintro a ⟨⟩; decide +kernel)
      exact isSolid_of_lowerByte (hsolid _ hhead)
    have hframe := trimSpace_frame hb hc (command ++ x) tail
    simpa using hframe

theorem isSolid_squote : IsSolid squote := by decide +kernel

theorem isSolid_quotation : IsSolid quotation := by decide +kernel

theorem index_of_prefix {s t sub : Bytes} {i : Nat} (h : index t sub = some i) (hs : s <+: t)
    (hocc : OccursAt s sub i) : index s sub = some i := by
  have hspec := index_spec t sub
  rw [h] at hspec
  refine index_eq_some hocc fun j hj => hspec.2 j ?_
  obtain ⟨u, v, rfl, hu⟩ := hj
  obtain ⟨w, rfl⟩ := hs
  exact ⟨u, v ++ w, by simp, hu⟩

/-! ## Double quotes -/

theorem takeWhile_ne_self {a : UInt8} (hw : a ∉ w) : w.takeWhile (· ≠ a) = w :=
  List.takeWhile_eq_self_iff.mpr fun _ hb => decide_eq_true (ne_of_mem_of_not_mem hb hw)

theorem takeWhile_ne {a : UInt8} (hw : a ∉ w) (t : Bytes) :
    (w ++ a :: t).takeWhile (· ≠ a) = w := by
  rw [List.takeWhile_append_of_pos fun _ hb => decide_eq_true (ne_of_mem_of_not_mem hb hw)]
  simp

theorem flagArg_quotation (x : Bytes) :
    flagArg (quotation :: x ++ [quotation]) = x.takeWhile (· ≠ quotation) := by
  have hread : ∀ w t : Bytes, quotation ∉ w → flagArg (quotation :: (w ++ quotation :: t)) = w := by
    intro w t hw
    simp only [flagArg, if_pos, index_letter hw, List.take_left]
  by_cases hx : quotation ∈ x
  · obtain ⟨w, t, rfl, hw⟩ := List.eq_append_cons_of_mem hx
    rw [takeWhile_ne hw]
    simpa using hread w (t ++ [quotation]) hw
  · rw [takeWhile_ne_self hx]
    exact hread x [] hx

/-- What is left of `s` when its escaped form is cut at the first `"`. -/
def cutArg (s : Bytes) : Bytes := (escapeDouble s).takeWhile (· ≠ quotation)

theorem escapeDouble_cons_special (hb : b = quotation ∨ b = bslash) (s : Bytes) :
    escapeDouble (b :: s) = bslash :: b :: escapeDouble s := by
  simp [escapeDouble, hb]

theorem escapeDouble_cons_plain (hb : ¬ (b = quotation ∨ b = bslash)) (s : Bytes) :
    escapeDouble (b :: s) = b :: escapeDouble s := by
  simp [escapeDouble, hb]

theorem cutArg_head (b : UInt8) (s : Bytes) :
    cutArg (b :: s) = [bslash] ∨ (∃ t, cutArg (b :: s) = bslash :: bslash :: t) ∨
      ∃ t, b ≠ bslash ∧ cutArg (b :: s) = b :: t := by
  unfold cutArg
  by_cases hb : b = quotation ∨ b = bslash
  · rw [escapeDouble_cons_special hb]
    rcases hb with rfl | rfl
    · exact .inl (by simp [bslash, quotation])
    · exact .inr (.inl ⟨_, by simp [bslash, quotation]; rfl⟩)
  · rw [escapeDouble_cons_plain hb]
    rw [not_or] at hb
    exact .inr (.inr ⟨_, hb.2, by simp [hb.1]; rfl⟩)

theorem lowerByte_eq_bslash (h : lowerByte b = bslash) : b = bslash := by
  unfold lowerByte at h
  split at h
  · next hletter =>
    have hnat := congrArg UInt8.toNat h
    have hlo := UInt8.le_iff_toNat_le.mp hletter.1
    have hhi := UInt8.le_iff_toNat_le.mp hletter.2
    simp [bslash] at hnat hlo hhi
    omega
  · exact h

theorem not_isCopy_cutArg (s : Bytes) : ¬ IsCopy (cutArg s) := by
  cases s with
  | nil => decide
  | cons b s =>
    rintro ⟨z, hz⟩
    rcases cutArg_head b s with h | ⟨t, h⟩ | ⟨t, hb, h⟩
    · rw [h] at hz
      simp [ascii, CaseMap.inPlace, bslash] at hz
    · rw [h] at hz
      simp [ascii, CaseMap.inPlace, lower, lowerByte, bslash] at hz
    · rw [h] at hz
      obtain ⟨hfirst, -⟩ := List.cons.inj hz
      exact hb (lowerByte_eq_bslash hfirst.symm)

theorem cutArg_ne_nil (hs : s ≠ []) : cutArg s ≠ [] := by
  cases s with
  | nil => exact absurd rfl hs
  | cons b s =>
    rcases cutArg_head b s with h | ⟨t, h⟩ | ⟨t, -, h⟩
    · rw [h]; exact List.cons_ne_nil _ _
    · rw [h]; exact List.cons_ne_nil _ _
    · rw [h]; exact List.cons_ne_nil _ _

theorem length_escapeDouble (s : Bytes) :
    (escapeDouble s).length = s.length + s.countP (fun b => b = quotation ∨ b = bslash) := by
  induction s with
  | nil => rfl
  | cons b s ih =>
    by_cases hb : b = quotation ∨ b = bslash
    · rw [escapeDouble_cons_special hb, List.countP_cons_of_pos (by simpa using hb)]
      simp only [List.length_cons, ih]
      omega
    · rw [escapeDouble_cons_plain hb, List.countP_cons_of_neg (by simpa using hb)]
      simp only [List.length_cons, ih]
      omega

theorem mem_escapeDouble (h : b ∈ escapeDouble s) : b ∈ s ∨ b = bslash := by
  obtain ⟨a, ha, hb⟩ := List.mem_flatMap.mp h
  split at hb
  · rcases List.mem_cons.mp hb with rfl | hb
    · exact .inr rfl
    · exact .inl (List.mem_singleton.mp hb ▸ ha)
  · exact .inl (List.mem_singleton.mp hb ▸ ha)

theorem cutArg_eq_iff (s : Bytes) : cutArg s = s ↔ quotation ∉ s ∧ bslash ∉ s := by
  have hnot : quotation ∉ cutArg s := fun h => by simpa using List.mem_takeWhile_imp h
  constructor
  · intro h
    have hquotation : quotation ∉ s := h ▸ hnot
    refine ⟨hquotation, fun hb => ?_⟩
    have hlength := length_escapeDouble s
    have hpos : 0 < s.countP (fun b => b = quotation ∨ b = bslash) :=
      List.countP_pos_iff.mpr ⟨bslash, hb, by simp⟩
    have hall : cutArg s = escapeDouble s := by
      refine takeWhile_ne_self fun hmem => ?_
      rcases mem_escapeDouble hmem with hmem | hmem
      · exact hquotation hmem
      · exact absurd hmem (by decide)
    rw [← hall, h] at hlength
    omega
  · rintro ⟨hquotation, hbslash⟩
    have hself : escapeDouble s = s := by
      refine (List.flatMap_congr fun b hb => if_neg ?_).trans (List.flatMap_singleton' s)
      rintro (rfl | rfl)
      · exact hquotation hb
      · exact hbslash hb
    rw [cutArg, hself]
    exact takeWhile_ne_self hquotation

end DbQueryLemmas

/-- A command line with SQL text as a single-quoted argument. -/
def singleQuotedQuery (command f flag s tail : Bytes) : Bytes :=
  command ++ f ++ flag ++ [squote] ++ escapeSingle s ++ [squote] ++ tail

open DbQueryLemmas in
/-- A single-quoted argument is unwrapped exactly, in whatever case the command and
the flag are written. -/
theorem single_quoted_exact (tool : QueryTool) (command f flag s tail : Bytes)
    (hcommand : lower.inPlace command = tool.command) (hflag : lower.inPlace flag = tool.flag)
    (hf : ∀ b ∈ f, IsAscii b)
    (hfirst : index (lower.inPlace (singleQuotedQuery command f flag s tail)) tool.flag =
      some (command ++ f).length)
    (hs : s ≠ []) (hcopy : tool = .psql → ¬ IsCopy s)
    (htail : tail = [] ∨ tail.head? = some 0x20) :
    sanitizeQuery (singleQuotedQuery command f flag s tail) = some s := by
  have hquery : ∀ t, singleQuotedQuery command f flag s t =
      command ++ ((f ++ flag ++ squote :: escapeSingle s) ++ squote :: t) := by
    intro t
    simp [singleQuotedQuery]
  have hsplit : ∀ t, command ++ ((f ++ flag ++ squote :: escapeSingle s) ++ squote :: t) =
      (command ++ f) ++ flag ++ (squote :: escapeSingle s ++ squote :: t) := by
    intro t
    simp
  have hbefore : ∀ b ∈ command ++ f, IsAscii b := by
    intro b hb
    exact (List.mem_append.mp hb).elim (command_ascii hcommand b) (hf b)
  have hne : tool.flag ≠ [] := by cases tool <;> decide
  -- The query without the white space after it starts as the query does.
  have hfirst' : index (lower.inPlace ((command ++ f) ++ flag ++
      (squote :: escapeSingle s ++ squote :: trimRightSpace tail))) tool.flag =
      some (command ++ f).length := by
    refine index_of_prefix hfirst (List.IsPrefix.map _ ?_) ?_
    · rw [hquery, hsplit]
      refine (List.prefix_append_right_inj _).mpr ?_
      rw [List.prefix_append_right_inj, List.cons_prefix_cons]
      exact ⟨rfl, trimRightSpace_prefix_self tail⟩
    · refine CaseMap.occursAt_inPlace.mpr ⟨command ++ f, flag, _, rfl, hflag, rfl⟩
  have harg := extractFlagArg_at (isMark_flag tool) hne hflag hbefore hfirst'
  have hrest : ¬ [bslash, squote, squote] <+: trimRightSpace (trimRightSpace tail) := by
    intro h
    have hpre := h.trans ((trimRightSpace_prefix_self _).trans (trimRightSpace_prefix_self tail))
    rcases htail with rfl | hspace
    · exact absurd (List.prefix_nil.mp hpre) (List.cons_ne_nil _ _)
    · obtain ⟨rest, rfl⟩ := hpre
      exact absurd hspace (by simp [bslash])
  have hunquoted : flagArg (GoText.trimSpace
      (squote :: escapeSingle s ++ squote :: trimRightSpace tail)) = s := by
    rw [trimSpace_frame isSolid_squote isSolid_squote]
    exact singleQuoted_escape hrest s [] [] List.not_mem_nil
  rw [hunquoted, ← hsplit] at harg
  refine sanitizeQuery_tool hcommand ?_ harg hs hcopy
  rw [hquery, trimSpace_command hcommand isSolid_squote]

/-- `psql -h db -C 'it'\''s' -q`: the flag in upper case, a quote inside the text. -/
theorem single_quoted_psql :
    sanitizeQuery (ascii "psql -h db -C 'it'\\''s' -q") = some (ascii "it's") := by
  refine (congrArg sanitizeQuery ?_).trans (single_quoted_exact .psql (ascii "psql")
    (ascii " -h db") (ascii " -C ") (ascii "it's") (ascii " -q") (by decide) (by decide)
    (List.all_iff_forall_prop.mp (by decide)) (by decide +kernel) (by decide) (fun _ => by decide)
    (.inr rfl))
  decide

def doubleQuotedQuery (s : Bytes) : Bytes :=
  ascii "psql -c \"" ++ escapeDouble s ++ [quotation]

open DbQueryLemmas in
/-- A double-quoted argument of `psql` is unwrapped exactly when it has nothing to
escape. -/
theorem double_quoted_exact_iff (s : Bytes) (hs : s ≠ []) :
    sanitizeQuery (doubleQuotedQuery s) = some s ↔ quotation ∉ s ∧ bslash ∉ s := by
  have hquery : doubleQuotedQuery s =
      ascii "psql" ++ ((ascii " -c " ++ quotation :: escapeDouble s) ++ [quotation]) := by
    simp [doubleQuotedQuery, ascii, quotation]
  have hsplit : ascii "psql" ++ ((ascii " -c " ++ quotation :: escapeDouble s) ++ [quotation]) =
      ascii "psql" ++ ascii " -c " ++ (quotation :: escapeDouble s ++ [quotation]) := by
    simp
  have harg : extractFlagArg
      (ascii "psql" ++ ascii " -c " ++ (quotation :: escapeDouble s ++ [quotation]))
      (lower.map (ascii "psql" ++ ascii " -c " ++ (quotation :: escapeDouble s ++ [quotation])))
      QueryTool.psql.flag = _ :=
    extractFlagArg_at (isMark_flag .psql) (by decide) (by decide)
      (List.all_iff_forall_prop.mp (by decide)) rfl
  have hcommand : lower.inPlace (ascii "psql") = QueryTool.psql.command := by decide
  rw [trimSpace_frame isSolid_quotation isSolid_quotation, ← hsplit] at harg
  have hcut : sanitizeQuery (doubleQuotedQuery s) = some (cutArg s) := by
    refine sanitizeQuery_tool hcommand ?_
      (harg.trans (congrArg some (flagArg_quotation _))) (cutArg_ne_nil hs)
      fun _ => not_isCopy_cutArg s
    rw [hquery, trimSpace_command hcommand isSolid_quotation]
    rfl
  rw [hcut, Option.some_inj]
  exact cutArg_eq_iff s

theorem double_quoted_select :
    sanitizeQuery (ascii "psql -c \"select 1\"") = some (ascii "select 1") :=
  (double_quoted_exact_iff (ascii "select 1") (by decide)).mpr (by decide)

/-- Not in general: a quoted identifier ends the argument. -/
theorem double_quoted_cut :
    doubleQuotedQuery (ascii "select \"a\" from t") =
      ascii "psql -c \"select \\\"a\\\" from t\"" ∧
    sanitizeQuery (doubleQuotedQuery (ascii "select \"a\" from t")) =
      some (ascii "select \\") := by
  decide +kernel

end Forager
