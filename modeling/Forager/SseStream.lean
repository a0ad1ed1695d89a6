import Forager.GoText
import Forager.Json
import Forager.LineScanner

/-!
# Unwrapping an event stream

`parseSSE` of `pkg/proxy/mcp/proxy.go` joins the `data: ` lines of a response. It reads
the lines with a `bufio.Scanner`, whose buffer has 64 KiB.

A JSON payload on one line therefore comes back only if its line is shorter than the
buffer. The scanner also takes a carriage return off the end of a line, which is white
space of the JSON text when it is its last byte.
-/

namespace Forager

open GoText JsonText LineScanner

def dataPrefix : Bytes := ascii "data: "

def doneMark : Bytes := ascii "[DONE]"

def maxScanTokenSize : Nat := 64 * 1024

/-- The loop: the data so far, and whether the end marker stopped it. -/
def collectData (result : Bytes) : List Bytes → Bytes × Bool
  | [] => (result, false)
  | line :: rest =>
    if dataPrefix <+: line then
      let data := line.drop dataPrefix.length
      if data = doneMark then (result, true) else collectData (result ++ data) rest
    else collectData result rest

def parseSSE (respBody : Bytes) : Except Bytes Bytes :=
  let (lines, tooLong) := scan maxScanTokenSize respBody
  let (result, done) := collectData [] lines
  -- the error of the scanner is seen only if the loop has read up to it
  if tooLong ∧ done = false then
    .error (ascii "reading MCP SSE stream: bufio.Scanner: token too long")
  else if result = [] then .ok respBody
  else .ok result

def oneEvent (p : Bytes) : Bytes := ascii "event: message\ndata: " ++ p ++ ascii "\n\n"

/-- The text is a JSON value between white space. -/
def IsJsonText (s : List Char) : Prop :=
  ∃ n j rest, readValue n s = some (j, rest) ∧ skipSpace rest = []

namespace SseStreamLemmas

theorem oneEvent_eq (p : Bytes) :
    oneEvent p = ascii "event: message" ++ lineFeed :: ((dataPrefix ++ p) ++ lineFeed ::
      ([] ++ lineFeed :: [])) := by
  have hhead : ascii "event: message\ndata: " =
      ascii "event: message" ++ lineFeed :: dataPrefix := by decide
  have htail : ascii "\n\n" = [lineFeed, lineFeed] := by decide
  unfold oneEvent
  rw [hhead, htail]
  simp

theorem scan_oneEvent {p : Bytes} (hp : lineFeed ∉ p) :
    scan maxScanTokenSize (oneEvent p) =
      if p.length + 6 < maxScanTokenSize then
        ([ascii "event: message", dropReturn (dataPrefix ++ p), []], false)
      else ([ascii "event: message"], true) := by
  have hevent : lineFeed ∉ ascii "event: message" := by decide
  have hdata : lineFeed ∉ dataPrefix ++ p :=
    fun h => (List.mem_append.mp h).elim (by decide) hp
  have hlen : (dataPrefix ++ p).length = p.length + 6 := by
    rw [List.length_append, Nat.add_comm]
    rfl
  have hname : dropReturn (ascii "event: message") = ascii "event: message" := by decide
  have hempty : scan maxScanTokenSize ([] ++ lineFeed :: []) = ([[]], false) :=
    scan_line (by decide) (by decide) []
  rw [oneEvent_eq, scan_line hevent (by decide), hname]
  split
  · next hfits => rw [scan_line hdata (hlen ▸ hfits), hempty]
  · next hlong => rw [scan_long hdata (hlen ▸ not_lt.mp hlong)]

theorem dropReturn_append {p : Bytes} (hp : p ≠ []) (w : Bytes) :
    dropReturn (w ++ p) = w ++ dropReturn p := by
  unfold dropReturn
  rw [List.getLast?_append_of_ne_nil w hp, List.dropLast_append_of_ne_nil hp]
  split <;> rfl

theorem collectData_event (data : Bytes) :
    collectData [] [ascii "event: message", dataPrefix ++ data, []] =
      if data = doneMark then ([], true) else (data, false) := by
  have hname : ¬ dataPrefix <+: ascii "event: message" := by decide
  have hblank : ¬ dataPrefix <+: [] := by decide
  simp only [collectData, if_neg hname, if_neg hblank, if_pos (List.prefix_append _ _),
    List.drop_left, List.nil_append]

theorem parseSSE_event {p : Bytes} (hp : lineFeed ∉ p) (hne : p ≠ []) :
    parseSSE (oneEvent p) =
      if p.length + 6 < maxScanTokenSize then
        if dropReturn p = doneMark ∨ dropReturn p = [] then .ok (oneEvent p)
        else .ok (dropReturn p)
      else .error (ascii "reading MCP SSE stream: bufio.Scanner: token too long") := by
  unfold parseSSE
  rw [scan_oneEvent hp]
  by_cases hfits : p.length + 6 < maxScanTokenSize
  · rw [if_pos hfits, if_pos hfits, dropReturn_append hne]
    simp only [collectData_event]
    by_cases hdone : dropReturn p = doneMark
    · simp [hdone]
    · simp [hdone]
  · rw [if_neg hfits, if_neg hfits]
    rfl

theorem length_oneEvent (p : Bytes) : (oneEvent p).length = p.length + 23 := by
  have hhead : (ascii "event: message\ndata: ").length = 21 := by decide
  have htail : (ascii "\n\n").length = 2 := by decide
  unfold oneEvent
  rw [List.length_append, List.length_append, hhead, htail]
  omega

/-! ## JSON texts -/

theorem not_json_of_skipSpace {s : List Char} (h : skipSpace s = []) : ¬ IsJsonText s := by
  rintro ⟨n, j, rest, hread, -⟩
  cases n with
  | zero => cases hread
  | succ n =>
    rw [readValue, h] at hread
    cases hread

theorem not_json_done : ¬ IsJsonText "[DONE]".toList := by
  rintro ⟨n, j, rest, hread, -⟩
  have hnone : readValue n "[DONE]".toList = none := by
    match n with
    | 0 => rfl
    | 1 => rfl
    | n + 2 => rfl
  rw [hnone] at hread
  cases hread

theorem chars_of_ascii {s : List Char}
    (h : ∀ b ∈ s.flatMap fun c => encodeRune c.toNat, IsAscii b) :
    (s.flatMap fun c => encodeRune c.toNat).map (fun b => Char.ofNat b.toNat) = s := by
  induction s with
  | nil => rfl
  | cons c s ih =>
    rw [List.flatMap_cons, List.forall_mem_append] at h
    have hc : c.toNat < 0x80 := by
      by_contra hhigh
      obtain ⟨b, hb⟩ := List.exists_mem_of_ne_nil _ (encodeRune_ne_nil c.toNat)
      exact encodeRune_high (not_lt.mp hhigh) b hb (h.1 b hb)
    have hbyte : (UInt8.ofNat c.toNat).toNat = c.toNat := by
      rw [UInt8.toNat_ofNat']
      omega
    rw [List.flatMap_cons, List.map_append, ih h.2, encodeRune_ascii hc, List.map_singleton,
      hbyte, Char.ofNat_toNat, List.singleton_append]

theorem payload_of_json {s : String} (h : IsJsonText s.toList) :
    utf8 s ≠ [] ∧ utf8 s ≠ doneMark := by
  have hback {w : Bytes} (hw : w.all (·.toNat < 0x80) = true) (hs : utf8 s = w) :
      s.toList = w.map fun b => Char.ofNat b.toNat := by
    have hchars := chars_of_ascii (s := s.toList) fun b hb => by
      have hb' : b ∈ w := hs ▸ hb
      exact of_decide_eq_true (List.all_eq_true.mp hw b hb')
    exact hchars.symm.trans (congrArg _ hs)
  refine ⟨fun hnil => ?_, fun hdone => ?_⟩
  · rw [hback rfl hnil] at h
    exact not_json_of_skipSpace rfl h
  · rw [hback (by decide) hdone] at h
    exact not_json_done h

end SseStreamLemmas

open SseStreamLemmas in
/-- For every JSON text on one line: `parseSSE` returns it from a stream with one event
exactly if its line is shorter than the buffer and it does not end with a carriage
return. -/
theorem parse_sse_iff (s : String) (hjson : IsJsonText s.toList) (hline : lineFeed ∉ utf8 s) :
    parseSSE (oneEvent (utf8 s)) = .ok (utf8 s) ↔
      (utf8 s).length + 6 < maxScanTokenSize ∧ (utf8 s).getLast? ≠ some carriageReturn := by
  obtain ⟨hne, hdone⟩ := payload_of_json hjson
  generalize utf8 s = p at *
  rw [parseSSE_event hline hne]
  by_cases hfits : p.length + 6 < maxScanTokenSize
  · rw [if_pos hfits]
    by_cases hlast : p.getLast? = some carriageReturn
    · -- the stream and the shortened payload both differ from the payload in length
      have hshort : (dropReturn p).length < p.length := by
        have hpos := List.length_pos_iff.mpr hne
        unfold dropReturn
        rw [if_pos hlast, List.length_dropLast]
        omega
      refine iff_of_false (fun h => ?_) (fun h => h.2 hlast)
      split at h
      · have hlen := congrArg List.length (Except.ok.inj h)
        rw [length_oneEvent] at hlen
        omega
      · exact hshort.ne (congrArg List.length (Except.ok.inj h))
    · rw [dropReturn_of_last hlast, if_neg (not_or.mpr ⟨hdone, hne⟩)]
      exact iff_of_true rfl ⟨hfits, hlast⟩
  · rw [if_neg hfits]
    exact iff_of_false (by rintro ⟨⟩) (fun h => hfits h.1)

/-- A short response. -/
theorem parse_sse_short :
    let s := "[true, null]"
    IsJsonText s.toList ∧ lineFeed ∉ utf8 s ∧ parseSSE (oneEvent (utf8 s)) = .ok (utf8 s) := by
  have hjson : IsJsonText "[true, null]".toList := ⟨4, .arr [.bool true, .null], [], rfl, rfl⟩
  have hline : lineFeed ∉ utf8 "[true, null]" := by decide
  exact ⟨hjson, hline, (parse_sse_iff _ hjson hline).mpr (by decide)⟩

def letters (n : Nat) : Json := .str (List.replicate n (.plain 'a' (by decide)))

namespace SseStreamLemmas

theorem isJson_letters (n : Nat) : IsJsonText (print (letters n)) := by
  have hread := readValue_str (List.replicate n (.plain 'a' (by decide))) 0 []
  rw [List.append_nil] at hread
  exact ⟨1, letters n, [], hread, rfl⟩

theorem utf8_letters (n : Nat) :
    utf8 (String.ofList (print (letters n))) = 0x22 :: (List.replicate n 0x61 ++ [0x22]) := by
  have hquote : encodeRune dquote.toNat = [0x22] := by decide
  have hletter : encodeRune 'a'.toNat = [0x61] := by decide
  have hletters : (List.replicate n 'a').flatMap (fun c => encodeRune c.toNat) =
      List.replicate n 0x61 := by
    rw [List.flatMap_replicate, hletter, List.flatten_replicate_singleton]
  have hprint : print (letters n) = dquote :: (List.replicate n 'a' ++ [dquote]) := by
    unfold letters
    rw [print, printStr, List.flatMap_replicate]
    exact congrArg (fun l => dquote :: (l ++ [dquote])) List.flatten_replicate_singleton
  unfold utf8
  rw [String.toList_ofList, hprint, List.flatMap_cons, List.flatMap_append, hletters,
    List.flatMap_singleton, hquote]
  rfl

theorem lineFeed_notMem_letters (n : Nat) :
    lineFeed ∉ utf8 (String.ofList (print (letters n))) := by
  rw [utf8_letters]
  simp only [List.mem_cons, List.mem_append, List.mem_replicate]
  simp [lineFeed]

end SseStreamLemmas

open SseStreamLemmas in
/-- A JSON string with 64 KiB less eight letters fails, since its line fills the buffer;
and a payload with a carriage return at its end comes back without it. -/
theorem payloads_lost :
    let long := String.ofList (print (letters (64 * 1024 - 8)))
    let padded := "null\r"
    (IsJsonText long.toList ∧ lineFeed ∉ utf8 long ∧ parseSSE (oneEvent (utf8 long)) =
      .error (ascii "reading MCP SSE stream: bufio.Scanner: token too long")) ∧
    IsJsonText padded.toList ∧ lineFeed ∉ utf8 padded ∧
      parseSSE (oneEvent (utf8 padded)) = .ok (utf8 "null") := by
  have hjson : IsJsonText "null\r".toList := ⟨1, .null, ['\r'], rfl, rfl⟩
  have hline := lineFeed_notMem_letters (64 * 1024 - 8)
  intro long padded
  have hlen : (utf8 long).length = 64 * 1024 - 6 := by
    rw [show utf8 long = _ from utf8_letters _]
    simp only [List.length_cons, List.length_append, List.length_replicate, List.length_nil]
  refine ⟨⟨?_, hline, ?_⟩, hjson, by decide, ?_⟩
  · rw [show long.toList = _ from String.toList_ofList]
    exact isJson_letters _
  · have hne : utf8 long ≠ [] := fun h => by
      rw [h] at hlen
      cases hlen
    rw [parseSSE_event hline hne, if_neg]
    rw [hlen]
    decide
  · have hshort : dropReturn (utf8 padded) = utf8 "null" := by decide
    rw [parseSSE_event (by decide) (by decide), if_pos (by decide), if_neg (by decide), hshort]

end Forager
