import Forager.GoValue
import Forager.Lines

/-!
# The guard language of content packs

`pkg/proxy/discovery/when.go`: comparisons of a known fact with a quoted
literal, joined by `&&` and `||`. Texts are lists of characters.
-/

namespace Forager

/-! ## String functions -/

def isSpace (c : Char) : Bool :=
  c ∈ ['\t', '\n', Char.ofNat 0x0b, Char.ofNat 0x0c, '\r', ' ', Char.ofNat 0x85, Char.ofNat 0xa0,
    Char.ofNat 0x1680, Char.ofNat 0x2028, Char.ofNat 0x2029, Char.ofNat 0x202f, Char.ofNat 0x205f,
    Char.ofNat 0x3000] ∨ (Char.ofNat 0x2000 ≤ c ∧ c ≤ Char.ofNat 0x200a)

def trimSpace (s : List Char) : List Char := Lines.trimRight isSpace (s.dropWhile isSpace)

def containsText (s sub : List Char) : Bool := s.tails.any (sub.isPrefixOf ·)

/-- `strings.SplitN(s, sep, 2)` of a text that contains `sep`. -/
def cutText (s sep : List Char) : List Char × List Char :=
  let before := (Lines.split [sep] s).headD []
  (before, s.drop (before.length + sep.length))

/-! ## Parsing -/

inductive CmpOp
  | eq
  | ne
deriving DecidableEq, Repr

def CmpOp.text : CmpOp → List Char
  | .eq => ['=', '=']
  | .ne => ['!', '=']

structure Comparison where
  fact : String
  op : CmpOp
  value : String
deriving DecidableEq, Repr

inductive WhenError
  | empty
  | noOperator (s : String)
  | unknownFact (fact : String)
  | notQuoted (s : String)
  | quoteInside (s : String)
deriving DecidableEq, Repr

def knownFacts : List String := ["os_family", "os_id", "os_major", "arch"]

def quotes : List Char := [Char.ofNat 0x22, Char.ofNat 0x27]

/-- `unquote`, on the value of the comparison `s`. -/
def unquote (s : String) : List Char → Except WhenError String
  | [] => .error (.notQuoted s)
  | first :: rest =>
    if rest.getLast? ≠ some first ∨ first ∉ quotes then .error (.notQuoted s)
    else if rest.dropLast.any (· ∈ quotes) then .error (.quoteInside s)
    else .ok (String.ofList rest.dropLast)

/-- The two sides of a comparison with the operator `op`. -/
def parseSides (s : List Char) (op : CmpOp) : Except WhenError Comparison :=
  let (left, right) := cutText s op.text
  let fact := String.ofList (trimSpace left)
  if fact ∉ knownFacts then .error (.unknownFact fact)
  else match unquote (String.ofList s) (trimSpace right) with
    | .error e => .error e
    | .ok value => .ok ⟨fact, op, value⟩

/-- `parseComparison`: `==` is looked for first. -/
def parseComparison (s : List Char) : Except WhenError Comparison :=
  let s := trimSpace s
  if containsText s CmpOp.eq.text then parseSides s .eq
  else if containsText s CmpOp.ne.text then parseSides s .ne
  else .error (.noOperator (String.ofList s))

/-- `whenExpr`: the disjunction of conjunctions. -/
abbrev WhenExpr := List (List Comparison)

def parseWhen (s : String) : Except WhenError WhenExpr :=
  let s := trimSpace s.toList
  if s = [] then .error .empty
  else (Lines.split [['|', '|']] s).mapM fun orPart =>
    (Lines.split [['&', '&']] orPart).mapM parseComparison

/-! ## Known facts -/

example : parseWhen " os_family == \"rhel\" && os_major!='7' " =
    .ok [[⟨"os_family", .eq, "rhel"⟩, ⟨"os_major", .ne, "7"⟩]] := by decide

end Forager
