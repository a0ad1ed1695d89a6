import Forager.GoQuote
import Forager.Routing

/-!
# The payload of an error response

`buildCodedErrorResponse` puts the message of an error into the `data` of a
response as `{"error": %q}`. The verb `%q` writes a Go string literal, and what
is around it is JSON.
-/

namespace Forager

open GoJson JsonText Go

/-- The world with `%q` as it is. -/
def RequestWorld.quoting {P : Type} (w : RequestWorld P) (wide : Char → Bool) : RequestWorld P :=
  { w with formatQuoted := GoQuote.quote wide }

def dataFields : List (StructField String) := [field "data" id (fun _ s => s) string]

/-- The `data` of a response as the peer decodes it. -/
def replyData (reply : Text) : String × Bool := unmarshal "" (struct dataFields) reply

/-- The text is a JSON object whose member `error` is the message. -/
def IsErrorPayload (data message : String) : Prop :=
  ∃ m : StrMap Any,
    unmarshal .nil any data.toList = (.map m, true) ∧ m.get "error" = some (.string message)

namespace PayloadLemmas

theorem depth_marshalStruct_le {ms : List (String × Option Json)} {n : Nat}
    (h : ∀ e ∈ ms, ∀ j ∈ e.2, depth j ≤ n) : depth (marshalStruct ms) ≤ n + 1 := by
  rw [marshalStruct, depth, Nat.add_le_add_iff_right, depthMembers_le_iff]
  intro e he
  obtain ⟨m, hm, he⟩ := List.mem_flatMap.mp he
  obtain ⟨j, hj, rfl⟩ := List.mem_map.mp he
  exact h m hm j (Option.mem_toList.mp hj)

theorem depth_omitEmpty (s : String) {j : Json} (hj : j ∈ omitEmpty s) : depth j = 0 := by
  unfold omitEmpty at hj
  split at hj
  · cases hj
  · obtain rfl := Option.mem_some.mp hj
    rfl

def head : Text := lbrace :: dquote :: (printStr (quote "error") ++ [':', ' ', dquote])

theorem payload_toList (wide : Char → Bool) (message : String) :
    ("\x7b\"error\": " ++ GoQuote.quote wide message ++ "\x7d").toList =
      head ++ (GoQuote.quoteTail wide message.toList ++ [rbrace]) := by
  have hhead : "\x7b\"error\": ".toList ++ [dquote] = head := by decide
  simp only [String.toList_append, GoQuote.quote, String.toList_ofList]
  rw [← hhead]
  simp [rbrace]

theorem readValue_head (n : Nat) (t : Text) :
    readValue (n + 3) (head ++ t) =
      (readStr t).bind fun r => (readMembers (n + 2) r.2).map fun q =>
        (.obj ((quote "error", .str r.1) :: q.1), q.2) := by
  have hvalue : readValue (n + 1) (' ' :: dquote :: t) =
      (readStr t).map fun r => (.str r.1, r.2) := by
    rw [readValue, show skipSpace (' ' :: dquote :: t) = dquote :: t by
      simp [skipSpace, isSpace, dquote]]
    simp [show dquote ≠ '[' by decide, show dquote ≠ lbrace by decide]
  have hmember : readMember (n + 2) (dquote :: (printStr (quote "error") ++
      ':' :: ' ' :: dquote :: t)) = (readStr t).map fun r => ((quote "error", .str r.1), r.2) := by
    rw [readMember, skipSpace_cons (by decide)]
    simp only [if_true]
    rw [readStr_print]
    simp only [Option.bind_eq_bind, Option.bind_some]
    rw [skipSpace_cons (by decide)]
    simp only [if_true, hvalue]
    cases readStr t <;> rfl
  have htext : head ++ t = lbrace :: dquote :: (printStr (quote "error") ++
      ':' :: ' ' :: dquote :: t) := by
    simp [head]
  rw [htext, readValue, skipSpace_cons (by decide)]
  simp only [show lbrace ≠ '[' by decide, if_false, if_true]
  rw [skipSpace_cons (by decide)]
  simp only [show dquote ≠ rbrace by decide, if_false, hmember]
  cases readStr t with
  | none => rfl
  | some r =>
    simp only [Option.map_some, Option.bind_eq_bind, Option.bind_some]
    cases readMembers (n + 2) r.2 <;> rfl

theorem parse_head_none {t : Text} (h : readStr t = none) : parse (head ++ t) = none := by
  have hlen : (head ++ t).length + 1 = (head ++ t).length - 2 + 3 := by
    rw [List.length_append, show head.length = 11 by decide]
    omega
  rw [parse, hlen, readValue_head, h]
  rfl

theorem parse_head {t : Text} {items : StrLit} (h : readStr t = some (items, [rbrace])) :
    parse (head ++ t) = some (.obj [(quote "error", .str items)]) := by
  have hlen : (head ++ t).length + 1 = (head ++ t).length - 2 + 3 := by
    rw [List.length_append, show head.length = 11 by decide]
    omega
  have hend : ∀ n, readMembers (n + 2) [rbrace] = some ([], []) := by
    intro n
    rw [readMembers, skipSpace_cons (by decide)]
    rfl
  rw [parse, hlen, readValue_head, h]
  simp only [Option.bind_some, hend, Option.map_some, Option.bind_eq_bind]
  exact if_pos ⟨rfl, by simp [depth, depthMembers, maxNestingDepth]⟩

theorem isErrorPayload_iff (wide : Char → Bool) (message : String) :
    IsErrorPayload ("\x7b\"error\": " ++ GoQuote.quote wide message ++ "\x7d") message ↔
      ∀ c ∈ message.toList, GoQuote.Shared wide c := by
  rw [IsErrorPayload, payload_toList]
  constructor
  · rintro ⟨m, hm, -⟩
    by_contra hown
    push Not at hown
    have hnone := parse_head_none (GoQuote.readStr_quoteTail_none hown [rbrace])
    simp only [unmarshal, hnone] at hm
    exact Bool.noConfusion (Prod.mk.inj hm).2
  · intro hshared
    obtain ⟨items, hread, hitems⟩ := GoQuote.readStr_quoteTail hshared [rbrace]
    have hany : any .nil (.obj [(quote "error", .str items)]) =
        (.map [("error", .string message)], true) := by
      have htext : text items = message := by rw [text, hitems, String.ofList_toList]
      simp [any, anyOf, anyMembers, htext, StrMap.insert]
    refine ⟨[("error", .string message)], ?_, by simp [StrMap.get_cons]⟩
    rw [unmarshal, parse_head hread]
    exact hany

end PayloadLemmas

section Payload

open PayloadLemmas

variable {P : Type} (w : RequestWorld P)

theorem replyData_buildCodedErrorResponse (requestID : String) (statusCode : Int)
    (code message : String) :
    replyData (buildCodedErrorResponse w requestID statusCode code message) =
      ("\x7b\"error\": " ++ w.formatQuoted message ++ "\x7d", true) := by
  unfold buildCodedErrorResponse ActionResponse.marshal replyData
  rw [unmarshal_print, if_pos, struct_marshalStruct]
  · have hother : ∀ tag ∈ ["status_code", "request_id", "action", "error_code", "result"],
        findField dataFields tag = none := by decide
    simp only [List.foldl_cons, List.foldl_nil]
    rw [step_none (hother "result" (by decide)), step_none (hother "status_code" (by decide)),
      step_none (hother "request_id" (by decide)), step_none (hother "action" (by decide)),
      step_none (hother "error_code" (by decide))]
    have hdata : findField dataFields "data" =
        some (field "data" id (fun _ s => s) string) := rfl
    exact step_omitEmpty hdata rfl rfl
  · refine (depth_marshalStruct_le fun e he j hj => ?_).trans (by decide : 0 + 1 ≤ _)
    simp only [List.mem_cons, List.not_mem_nil, or_false] at he
    obtain rfl | rfl | rfl | rfl | rfl | rfl := he
    · obtain rfl := Option.mem_some.mp hj
      rfl
    · obtain rfl := Option.mem_some.mp hj
      rfl
    · exact (depth_omitEmpty "" hj).le
    · exact (depth_omitEmpty code hj).le
    · exact (depth_omitEmpty ("\x7b\"error\": " ++ w.formatQuoted message ++ "\x7d") hj).le
    · cases hj

/-- An error response carries its message to the peer exactly if `%q` writes
every character of it in a way JSON has too. -/
theorem error_payload_iff (wide : Char → Bool) (requestID : String) (statusCode : Int)
    (code message : String) :
    IsErrorPayload
        (replyData (buildCodedErrorResponse (w.quoting wide) requestID statusCode code message)).1
        message ↔
      ∀ c ∈ message.toList, GoQuote.Shared wide c := by
  rw [replyData_buildCodedErrorResponse]
  exact isErrorPayload_iff wide message

end Payload

def quietWorld : RequestWorld Unit where
  handleRequest _ _ := .error ⟨"", false⟩
  formatQuoted := id
  decodeError _ := ""
  configSync _ _ := none
  testConfig _ _ := none

/-- `error` in red, as a terminal prints it. -/
def coloredError : String := String.ofList (Char.ofNat 0x1B :: "[31merror".toList)

/-- The escape character is written as `\x1b`, so the payload is not JSON. -/
theorem colored_error_lost :
    (replyData (buildCodedErrorResponse (quietWorld.quoting fun _ => true) "r1" 500 ""
        coloredError)).1 = "\x7b\"error\": \"\\x1b[31merror\"\x7d" ∧
      parse "\x7b\"error\": \"\\x1b[31merror\"\x7d".toList = none ∧
      ¬ IsErrorPayload "\x7b\"error\": \"\\x1b[31merror\"\x7d" coloredError := by
  have hparse : parse "\x7b\"error\": \"\\x1b[31merror\"\x7d".toList = none := by decide +kernel
  refine ⟨by rw [replyData_buildCodedErrorResponse]; decide +kernel, hparse, ?_⟩
  rintro ⟨m, hm, -⟩
  rw [unmarshal, hparse] at hm
  exact Bool.noConfusion (Prod.mk.inj hm).2

end Forager
