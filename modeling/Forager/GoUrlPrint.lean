import Forager.GoUrl

/-!
# Printed URLs

What `Parse` makes of the output of `URL.String`.

* `parseHost_escape_iff`: a host that was parsed reads back from its printed form
  exactly if its zone, if it has one, is plain.
* `parse_string`: a printed URL with a scheme and a host leads where its scheme, its
  user and its printed host do, whatever its path, query and fragment are.
* `parse_ok`: where the host and the query of a parsed URL come from.
-/

namespace GoUrl

variable {scheme host : Bytes} {port : Bytes} {b : UInt8} {c : UInt8}

open GoText

/-! ## Hosts that were parsed -/

theorem survives_host {s t : Bytes} (h : unescape .host s = .ok t) :
    ∀ b ∈ t, Survives .host .host b := by
  intro b hb
  have hbyte := (mem_unescape (by decide) h b hb).imp_left fun h => h.2.2
  unfold Survives
  cases hesc : shouldEscape b .host with
  | false => simp [rawAllowed, hesc]
  | true => simpa [rawAllowed, escapedAllowed, hesc] using hbyte

theorem mem_of_unescape_host {s t : Bytes} (h : unescape .host s = .ok t) (hb : b ∈ t)
    (hnot : escapedAllowed .host b = false) : b ∈ s := by
  rcases mem_unescape (by decide) h b hb with hmem | hesc
  · exact hmem.1
  · rw [hnot] at hesc
    cases hesc

/-- The bytes of a zone that was parsed. -/
def ZoneByte (b : UInt8) : Prop := rawAllowed .zone b ∨ escapedAllowed .zone b

instance (b : UInt8) : Decidable (ZoneByte b) := inferInstanceAs (Decidable (_ ∨ _))

theorem survives_zone (h : ZoneByte b) : Survives .host .zone b ↔ IsAscii b := by
  unfold Survives
  cases hesc : shouldEscape b .host with
  | false =>
    refine iff_of_true (by simp [rawAllowed, shouldEscape_zone, hesc]) ?_
    by_contra hhigh
    rw [shouldEscape_high hhigh] at hesc
    cases hesc
  | true =>
    have hcases : 0x80 ≤ b ∨ b = percent ∨ b = space := by
      simpa [ZoneByte, rawAllowed, escapedAllowed, shouldEscape_zone, hesc, or_assoc] using h
    simp only [if_pos, escapedAllowed, hesc, not_true_eq_false, or_false, decide_eq_true_eq]
    constructor
    · rintro (rfl | rfl) <;> decide
    · intro hascii
      refine hcases.resolve_left fun hhigh => ?_
      exact absurd hascii (Nat.not_lt.mpr (UInt8.le_iff_toNat_le.mp hhigh))

theorem high_of_survives (h : Survives .host .host b) (hesc : shouldEscape b .host)
    (hb : b ≠ percent) : 0x80 ≤ b.toNat := by
  rw [Survives, if_pos hesc] at h
  simp only [escapedAllowed, decide_eq_true_eq, hb, or_false] at h
  exact UInt8.le_iff_toNat_le.mp h

theorem index_cons_ne (hc : c ≠ percent) (s : Bytes) :
    index (c :: s) (chars "%25") = (index s (chars "%25")).map (· + 1) := by
  rw [index, if_neg]
  exact fun h => hc (List.cons_prefix_cons.mp h).1.symm

theorem index_escape_host {a : Bytes} (ha : ∀ b ∈ a, b ≠ percent ∧ Survives .host .host b)
    (w : Bytes) : index (escape .host a ++ w) (chars "%25") =
      (index w (chars "%25")).map (· + (escape .host a).length) := by
  induction a with
  | nil => simp [escape]
  | cons b a ih =>
    obtain ⟨⟨hb, hsurvives⟩, ha⟩ := List.forall_mem_cons.mp ha
    rw [escape_cons, List.append_assoc, escapeByte]
    cases hesc : shouldEscape b .host with
    | false =>
      rw [if_neg (by decide), List.singleton_append, index_cons_ne hb, ih ha, Option.map_map]
      congr 1
    | true =>
      have hhigh := high_of_survives hsurvives hesc hb
      have hlt := b.toNat_lt
      have hdigit : ∀ n < 16, upperhex n ≠ percent ∧ (8 ≤ n → upperhex n ≠ 0x32) := by decide
      have hfirst := hdigit (b.toNat / 16) (by omega)
      have hsecond := hdigit (b.toNat % 16) (by omega)
      rw [if_pos rfl, if_neg fun h => absurd h.2 (by decide)]
      simp only [List.cons_append, List.nil_append]
      rw [index, if_neg, index_cons_ne hfirst.1, index_cons_ne hsecond.1, ih ha]
      · simp only [Option.map_map, List.length_cons]
        congr 1
      · intro h
        exact hfirst.2 (by omega) (List.cons_prefix_cons.mp (List.cons_prefix_cons.mp h).2).1.symm

theorem unescapeLiteral_ok {hostname uh : Bytes} (h : unescapeLiteral hostname = .ok uh) :
    ∃ a z, uh = a ++ z ∧ (∀ b ∈ a, b ≠ percent ∧ Survives .host .host b) ∧
      (lbracket ∈ a → lbracket ∈ hostname) ∧
      (z = [] ∨ ∃ z', z = percent :: z' ∧ ∀ b ∈ z', ZoneByte b) := by
  have hspec := index_spec hostname (chars "%25")
  unfold unescapeLiteral at h
  cases hi : index hostname (chars "%25") with
  | none =>
    rw [hi] at h hspec
    refine ⟨uh, [], (List.append_nil uh).symm, fun b hb => ⟨?_, survives_host h b hb⟩,
      fun hb => mem_of_unescape_host h hb (by decide), .inl rfl⟩
    rintro rfl
    obtain ⟨j, hj⟩ := occurs_of_percent h hb
    exact hspec j hj
  | some i =>
    rw [hi] at h hspec
    obtain ⟨⟨u, v, rfl, rfl⟩, hfirst⟩ := hspec
    dsimp only at h
    rw [List.append_assoc, List.take_left, List.drop_left] at h
    obtain ⟨a, ha, h⟩ := Go.bind_eq_ok.mp h
    obtain ⟨z, hz, h⟩ := Go.bind_eq_ok.mp h
    cases h
    refine ⟨a, z, rfl, fun b hb => ⟨?_, survives_host ha b hb⟩, fun hb => ?_, .inr ?_⟩
    · rintro rfl
      obtain ⟨j, x, y, rfl, rfl⟩ := occurs_of_percent ha hb
      have hle := hfirst x.length ⟨x, y ++ chars "%25" ++ v, by simp, rfl⟩
      simp [chars] at hle
    · have hu := mem_of_unescape_host ha hb (by decide)
      simp [hu]
    · rcases unescape_cons_ok (by decide) (show unescape .zone (percent :: _) = .ok z from hz) with
        ⟨t', hc, -⟩ | ⟨c, d, s', hi', lo, t', -, hs, hc, hd, -, hrest, rfl⟩
      · exact absurd rfl hc
      · cases hs
        cases hc
        cases hd
        refine ⟨t', rfl, fun b hb => ?_⟩
        exact (mem_unescape (by decide) hrest b hb).imp_left fun h => h.2.2

theorem escape_percent_cons (z : Bytes) :
    escape .host (percent :: z) = chars "%25" ++ escape .host z := by
  rw [escape_cons]
  congr 1

theorem unescapeLiteral_escape_plain {a : Bytes}
    (ha : ∀ b ∈ a, b ≠ percent ∧ Survives .host .host b) :
    unescapeLiteral (escape .host a) = .ok a := by
  have hindex := index_escape_host ha []
  rw [List.append_nil] at hindex
  rw [unescapeLiteral, hindex]
  exact unescape_escape (by decide) (by decide) fun b hb => (ha b hb).2

theorem unescapeLiteral_escape_zone {a z : Bytes}
    (ha : ∀ b ∈ a, b ≠ percent ∧ Survives .host .host b) :
    unescapeLiteral (escape .host (a ++ percent :: z)) =
      (unescape .zone (escape .host (percent :: z))).map (a ++ ·) := by
  have hindex : index (escape .host a ++ (chars "%25" ++ escape .host z)) (chars "%25") =
      some (escape .host a).length := by
    rw [index_escape_host ha, index_eq_some (occursAt_zero.mpr (List.prefix_append _ _))
      fun j _ => Nat.zero_le j]
    simp
  rw [escape_append, escape_percent_cons, unescapeLiteral, hindex]
  dsimp only
  rw [List.take_left, List.drop_left,
    unescape_escape (by decide) (by decide) fun b hb => (ha b hb).2]
  cases unescape .zone (chars "%25" ++ escape .host z) with
  | error e => rfl
  | ok t => rfl

theorem port_byte : ∀ b, b = colon ∨ isDigit b →
    shouldEscape b .host = false ∧ b ∉ [percent, lbracket, rbracket] ∧ rawAllowed .host b ∧
      Survives .host .host b := forall_byte (by decide +kernel)

theorem mem_port (h : validOptionalPort port) : ∀ b ∈ port, b = colon ∨ isDigit b := by
  cases port with
  | nil => exact fun b hb => absurd hb List.not_mem_nil
  | cons c ds =>
    simp only [validOptionalPort, decide_eq_true_eq, List.all_eq_true] at h
    exact List.forall_mem_cons.mpr ⟨.inl h.1, fun b hb => .inr (h.2 b hb)⟩

theorem escape_port (h : validOptionalPort port) : escape .host port = port :=
  escape_of_kept fun b hb => (port_byte b (mem_port h b hb)).1

theorem unescape_port (h : validOptionalPort port) : unescape .host port = .ok port := by
  refine unescape_self (by decide) fun b hb => ?_
  obtain ⟨-, hnot, hraw, -⟩ := port_byte b (mem_port h b hb)
  exact ⟨fun heq => hnot (by simp [heq]), hraw⟩

theorem notMem_port (h : validOptionalPort port) (hb : b ∈ [percent, lbracket, rbracket]) :
    b ∉ port :=
  fun hmem => (port_byte b (mem_port h b hmem)).2.1 hb

/-! ## Printing and reading a host -/

/-- Either the host has no brackets, and a port may follow what has no colon; or it is a
bracketed address with an optional port. -/
inductive Parsed : Bytes → Prop
  | name {pre port : Bytes} (kept : ∀ b ∈ pre, Survives .host .host b) (noBracket : lbracket ∉ pre)
      (noColon : colon ∉ pre) (valid : validOptionalPort port) : Parsed (pre ++ port)
  | literal {a z port : Bytes} (kept : ∀ b ∈ a, b ≠ percent ∧ Survives .host .host b)
      (noBracket : lbracket ∉ a)
      (zone : z = [] ∨ ∃ z', z = percent :: z' ∧ ∀ b ∈ z', ZoneByte b)
      (address : isIPv6 (a ++ z)) (valid : validOptionalPort port) :
      Parsed (lbracket :: (a ++ z) ++ rbracket :: port)

theorem portText_nil (h : colon ∉ host) : portText scheme host = [] := by
  rw [portText, index_letter_none h]

theorem portText_cons {scheme pre rest : Bytes} (hs : scheme ∉ hostListSchemes)
    (h : colon ∉ pre) : portText scheme (pre ++ colon :: rest) = colon :: rest := by
  have hlast : ∃ j, lastIndex (pre ++ colon :: rest) [colon] = some j := by
    obtain ⟨w, t, heq, ht⟩ := eq_append_cons_of_last
      (show colon ∈ pre ++ colon :: rest by simp)
    exact ⟨w.length, by rw [heq, lastIndex_letter ht]⟩
  obtain ⟨j, hj⟩ := hlast
  rw [portText, index_letter h, hj]
  dsimp only
  rw [if_neg hs, List.drop_left]

theorem exists_port {scheme : Bytes} (hs : scheme ∉ hostListSchemes) (host : Bytes) :
    ∃ pre, host = pre ++ portText scheme host ∧ colon ∉ pre ∧
      (portText scheme host = [] ∨ ∃ rest, portText scheme host = colon :: rest) := by
  by_cases h : colon ∈ host
  · obtain ⟨pre, rest, rfl, hpre⟩ := List.eq_append_cons_of_mem h
    rw [portText_cons hs hpre]
    exact ⟨pre, rfl, hpre, .inr ⟨rest, rfl⟩⟩
  · rw [portText_nil h]
    exact ⟨host, (List.append_nil host).symm, h, .inl rfl⟩

theorem parseHost_name {scheme raw host : Bytes} (hs : scheme ∉ hostListSchemes)
    (hraw : lbracket ∉ raw) (hport : validOptionalPort (portText scheme raw))
    (h : unescape .host raw = .ok host) : Parsed host := by
  obtain ⟨pre, heq, hcolon, hshape⟩ := exists_port hs raw
  generalize portText scheme raw = port at *
  subst heq
  have hname : ∀ pre', unescape .host pre = .ok pre' → Parsed (pre' ++ port) := by
    intro pre' hpre'
    refine .name (survives_host hpre') (fun hb => ?_) (fun hb => ?_) hport
    · exact hraw (List.mem_append_left _ (mem_of_unescape_host hpre' hb (by decide)))
    · exact hcolon (mem_of_unescape_host hpre' hb (by decide))
  rcases hshape with rfl | ⟨rest, rfl⟩
  · rw [List.append_nil] at h
    simpa using hname host h
  · obtain ⟨pre', port', hpre', hport', rfl⟩ := unescape_split (by decide) (by decide) h
    rw [unescape_port hport] at hport'
    cases hport'
    exact hname pre' hpre'

theorem parseHost_parsed {scheme raw host : Bytes} (hs : scheme ∉ hostListSchemes)
    (h : parseHost scheme raw = .ok host) : Parsed host := by
  unfold parseHost at h
  split at h
  · next hopen =>
    obtain ⟨w, r, rfl, hr, hw⟩ := lastIndex_letter_some hopen
    obtain rfl := List.length_eq_zero_iff.mp hw
    rw [List.nil_append] at h
    split at h
    · cases h
    · next close hclose =>
      obtain ⟨x, port, hx, -, rfl⟩ := lastIndex_letter_some hclose
      obtain ⟨hostname, rfl⟩ : ∃ hostname, x = lbracket :: hostname := by
        cases x with
        | nil => cases hx
        | cons c x =>
          obtain ⟨rfl, -⟩ := List.cons.inj hx
          exact ⟨x, rfl⟩
      obtain ⟨-, rfl : r = hostname ++ rbracket :: port⟩ := List.cons.inj hx
      have hdrop : (lbracket :: (hostname ++ rbracket :: port)).drop
          ((lbracket :: hostname).length + 1) = port := by
        simp
      have htake : ((lbracket :: (hostname ++ rbracket :: port)).take
          (lbracket :: hostname).length).drop 1 = hostname := by
        simp
      dsimp only at h
      rw [hdrop, htake] at h
      split at h
      · next hport =>
        rw [unescape_port hport] at h
        obtain ⟨_, ⟨⟩, h⟩ := Go.bind_eq_ok.mp h
        obtain ⟨uh, huh, h⟩ := Go.bind_eq_ok.mp h
        split at h
        · next haddress =>
          cases h
          obtain ⟨a, z, rfl, ha, hbracket, hz⟩ := unescapeLiteral_ok huh
          exact .literal ha (fun hb => hr (List.mem_append_left _ (hbracket hb))) hz haddress hport
        · cases h
      · cases h
  · cases h
  · next hopen =>
    split at h
    · next hport =>
      refine parseHost_name hs (fun hmem => ?_) hport h
      obtain ⟨w, t, rfl, ht⟩ := eq_append_cons_of_last hmem
      rw [lastIndex_letter ht] at hopen
      cases hopen
    · cases h

/-- A host whose zone, if it is a bracketed address with one, is ASCII without brackets.
The zone is all there is after the first percent sign. -/
def PlainZone (host : Bytes) : Prop :=
  host.head? = some lbracket →
    ∀ b ∈ host.dropWhile (· ≠ percent), IsAscii b ∧ b ≠ lbracket

instance (host : Bytes) : Decidable (PlainZone host) := inferInstanceAs (Decidable (_ → _))

theorem dropWhile_ne {a w : Bytes} (ha : percent ∉ a) :
    (a ++ w).dropWhile (· ≠ percent) = w.dropWhile (· ≠ percent) :=
  List.dropWhile_append_of_pos fun _ hb => decide_eq_true (ne_of_mem_of_not_mem hb ha)

theorem parseHost_literal {scheme e port : Bytes} (he : lbracket ∉ e)
    (hport : validOptionalPort port) :
    parseHost scheme (lbracket :: e ++ rbracket :: port) =
      unescapeLiteral e >>= fun hostname =>
        if isIPv6 hostname then .ok (lbracket :: hostname ++ rbracket :: port)
        else .error .invalidLiteral := by
  have hopen : lastIndex (lbracket :: e ++ rbracket :: port) [lbracket] = some 0 := by
    refine lastIndex_letter (w := []) ?_
    intro hmem
    rcases List.mem_append.mp hmem with hmem | hmem
    · exact he hmem
    · rcases List.mem_cons.mp hmem with h | hmem
      · exact absurd h (by decide)
      · exact notMem_port hport (by decide) hmem
  have hclose : lastIndex (lbracket :: e ++ rbracket :: port) [rbracket] =
      some (lbracket :: e).length :=
    lastIndex_letter (notMem_port hport (by decide)) _
  have hdrop : (lbracket :: e ++ rbracket :: port).drop ((lbracket :: e).length + 1) = port := by
    simp
  have htake : ((lbracket :: e ++ rbracket :: port).take (lbracket :: e).length).drop 1 = e := by
    simp
  rw [parseHost, hopen]
  dsimp only
  rw [hclose]
  dsimp only
  rw [hdrop, htake, if_pos hport, unescape_port hport]
  rfl

theorem parseHost_bracket {scheme e rest : Bytes} (he : lbracket ∈ e) :
    parseHost scheme (lbracket :: e ++ rest) = .error .invalidLiteral := by
  obtain ⟨w, t, heq, ht⟩ := eq_append_cons_of_last (List.mem_append_left rest he)
  have hopen : lastIndex (lbracket :: e ++ rest) [lbracket] = some (w.length + 1) := by
    rw [List.cons_append, heq, ← List.cons_append, lastIndex_letter ht]
    rfl
  rw [parseHost, hopen]

theorem parseHost_escape_name {scheme pre port : Bytes} (hs : scheme ∉ hostListSchemes)
    (kept : ∀ b ∈ pre, Survives .host .host b) (noBracket : lbracket ∉ pre)
    (noColon : colon ∉ pre) (valid : validOptionalPort port) :
    parseHost scheme (escape .host (pre ++ port)) = .ok (pre ++ port) := by
  have hread : unescape .host (escape .host (pre ++ port)) = .ok (pre ++ port) := by
    refine unescape_escape (by decide) (by decide) fun b hb => ?_
    rcases List.mem_append.mp hb with hb | hb
    · exact kept b hb
    · exact (port_byte b (mem_port valid b hb)).2.2.2
  have hprinted : escape .host (pre ++ port) = escape .host pre ++ port := by
    rw [escape_append, escape_port valid]
  have hcolon : colon ∉ escape .host pre := by
    rw [mem_escape_iff (by decide) (by decide +kernel) (by decide)]
    exact noColon
  have hbracket : lbracket ∉ escape .host pre ++ port := by
    rw [List.mem_append, mem_escape_iff (by decide) (by decide +kernel) (by decide)]
    exact not_or.mpr ⟨noBracket, notMem_port valid (by decide)⟩
  have hport : portText scheme (escape .host pre ++ port) = port := by
    cases port with
    | nil =>
      rw [List.append_nil]
      exact portText_nil hcolon
    | cons c ds =>
      obtain rfl : c = colon := by
        simp only [validOptionalPort, decide_eq_true_eq] at valid
        exact valid.1
      exact portText_cons hs hcolon
  rw [hprinted] at hread ⊢
  rw [parseHost, lastIndex_letter_none hbracket]
  dsimp only
  rw [hport, if_pos valid, hread]

theorem escape_literal {uh port : Bytes} (valid : validOptionalPort port) :
    escape .host (lbracket :: uh ++ rbracket :: port) =
      lbracket :: escape .host uh ++ rbracket :: port := by
  have hbrackets : escapeByte .host lbracket = [lbracket] ∧
      escapeByte .host rbracket = [rbracket] := by decide +kernel
  rw [escape_append, escape_cons, escape_cons, hbrackets.1, hbrackets.2, escape_port valid]
  rfl

theorem plainZone_literal {a z port : Bytes} (ha : ∀ b ∈ a, b ≠ percent)
    (hz : z = [] ∨ ∃ z', z = percent :: z') (valid : validOptionalPort port) :
    PlainZone (lbracket :: (a ++ z) ++ rbracket :: port) ↔
      ∀ b ∈ z, IsAscii b ∧ b ≠ lbracket := by
  have hnot : percent ∉ lbracket :: a := by
    rw [List.mem_cons, not_or]
    exact ⟨by decide, fun hmem => ha _ hmem rfl⟩
  have hport : percent ∉ rbracket :: port := by
    rw [List.mem_cons, not_or]
    exact ⟨by decide, notMem_port valid (by decide)⟩
  have hascii : ∀ b ∈ rbracket :: port, IsAscii b ∧ b ≠ lbracket := by
    have hbyte : ∀ b, b = colon ∨ isDigit b → IsAscii b ∧ b ≠ lbracket :=
      forall_byte (by decide +kernel)
    exact List.forall_mem_cons.mpr ⟨by decide, fun b hb => hbyte b (mem_port valid b hb)⟩
  have hdrop : (lbracket :: (a ++ z) ++ rbracket :: port).dropWhile (· ≠ percent) =
      (z ++ rbracket :: port).dropWhile (· ≠ percent) :=
    (congrArg _ (by simp)).trans (dropWhile_ne hnot)
  unfold PlainZone
  rw [hdrop, List.cons_append, List.head?_cons]
  rcases hz with rfl | ⟨z', rfl⟩
  · have hnone := dropWhile_ne (w := []) hport
    rw [List.append_nil, List.dropWhile_nil] at hnone
    rw [List.nil_append, hnone]
    exact ⟨fun _ b hb => absurd hb List.not_mem_nil, fun _ _ b hb => absurd hb List.not_mem_nil⟩
  · have hall : (percent :: z' ++ rbracket :: port).dropWhile (· ≠ percent) =
        percent :: z' ++ rbracket :: port := by
      rw [List.cons_append, List.dropWhile_cons_of_neg (by simp)]
    rw [hall]
    constructor
    · exact fun h b hb => h rfl b (List.mem_append_left _ hb)
    · intro h _ b hb
      exact (List.mem_append.mp hb).elim (h b) (hascii b)

theorem parseHost_escape_cases (hs : scheme ∉ hostListSchemes) (h : Parsed host) :
    (parseHost scheme (escape .host host) = .ok host ∧ PlainZone host) ∨
      ((∃ e, parseHost scheme (escape .host host) = .error e) ∧ ¬ PlainZone host) := by
  cases h with
  | @name pre port kept noBracket noColon valid =>
    refine .inl ⟨parseHost_escape_name hs kept noBracket noColon valid, fun hhead => ?_⟩
    have hmem : lbracket ∈ pre ++ port := List.mem_of_mem_head? hhead
    rcases List.mem_append.mp hmem with hmem | hmem
    · exact absurd hmem noBracket
    · exact absurd hmem (notMem_port valid (by decide))
  | @literal a z port kept noBracket zone address valid =>
    rw [plainZone_literal (fun b hb => (kept b hb).1)
      (zone.imp_right fun ⟨z', hz, _⟩ => ⟨z', hz⟩) valid, escape_literal valid]
    have hmem : lbracket ∈ escape .host (a ++ z) ↔ lbracket ∈ z := by
      rw [mem_escape_iff (by decide) (by decide +kernel) (by decide), List.mem_append,
        or_iff_right noBracket]
    by_cases hz : lbracket ∈ z
    · exact .inr ⟨⟨_, parseHost_bracket (hmem.mpr hz)⟩, fun hall => (hall _ hz).2 rfl⟩
    · rw [parseHost_literal (fun h => hz (hmem.mp h)) valid]
      rcases zone with rfl | ⟨z', rfl, hzone⟩
      · rw [List.append_nil] at address ⊢
        rw [unescapeLiteral_escape_plain kept]
        exact .inl ⟨if_pos address, fun b hb => absurd hb List.not_mem_nil⟩
      · rw [unescapeLiteral_escape_zone kept]
        have hbytes : ∀ b ∈ percent :: z', ZoneByte b :=
          List.forall_mem_cons.mpr ⟨by decide +kernel, hzone⟩
        have hsurvives : (∀ b ∈ percent :: z', Survives .host .zone b) ↔
            ∀ b ∈ percent :: z', IsAscii b ∧ b ≠ lbracket :=
          forall₂_congr fun b hb => (survives_zone (hbytes b hb)).trans
            (and_iff_left fun (heq : b = lbracket) => hz (heq ▸ hb)).symm
        rw [← hsurvives]
        cases hread : unescape .zone (escape .host (percent :: z')) with
        | error e =>
          refine .inr ⟨⟨e, rfl⟩, fun hall => ?_⟩
          rw [unescape_escape (by decide) (by decide) hall] at hread
          cases hread
        | ok t =>
          have hall := survives_of_unescape_escape (by decide) (by decide) hread
          rw [unescape_escape (by decide) (by decide) hall] at hread
          cases hread
          exact .inl ⟨if_pos address, hall⟩

theorem parseHost_escape_iff (hs : scheme ∉ hostListSchemes) (h : Parsed host) :
    parseHost scheme (escape .host host) = .ok host ↔ PlainZone host := by
  rcases parseHost_escape_cases hs h with ⟨hok, hplain⟩ | ⟨⟨e, he⟩, hplain⟩
  · exact iff_of_true hok hplain
  · rw [he]
    exact iff_of_false nofun hplain

/-! ## Printing and reading a user -/

theorem cut_append {w : Bytes} (hw : c ∉ w) (t : Bytes) : cut c (w ++ c :: t) = (w, t) := by
  rw [cut, index_letter hw]
  simp

theorem cut_none {w : Bytes} (hw : c ∉ w) : cut c w = (w, []) := by
  rw [cut, index_letter_none hw]

/-- A character that `escape` never writes in the given mode. -/
def Absent (m : Encoding) (c : UInt8) : Prop :=
  shouldEscape c m ∧ c ≠ percent ∧ c ∉ chars "0123456789ABCDEF"

instance (m : Encoding) (c : UInt8) : Decidable (Absent m c) := inferInstanceAs (Decidable (_ ∧ _))

theorem Absent.notMem {m : Encoding} (h : Absent m c) (hm : m ≠ .queryComponent) (s : Bytes) :
    c ∉ escape m s := notMem_escape hm h.1 h.2.1 h.2.2 s

theorem absent_ctl {m : Encoding} (hm : m ∈ [.path, .host, .userPassword]) :
    ∀ c, isCTL c → Absent m c := by
  simp only [List.mem_cons, List.not_mem_nil, or_false] at hm
  rcases hm with rfl | rfl | rfl
  · exact forall_byte (by decide +kernel)
  · exact forall_byte (by decide +kernel)
  · exact forall_byte (by decide +kernel)

theorem validUserinfo_escape (s : Bytes) : validUserinfo (escape .userPassword s) := by
  have hkept : ∀ b, shouldEscape b .userPassword = false →
      isLetter b ∨ isDigit b ∨ b ∈ chars "-._:~!$&'()*+,;=%@" := by
    intro b hb
    by_contra hnot
    rw [← or_assoc, not_or] at hnot
    have hmark : b ∉ chars "-_.~" := by
      have hsub : ∀ c ∈ chars "-_.~", c ∈ chars "-._:~!$&'()*+,;=%@" :=
        List.all_iff_forall_prop.mp (by decide)
      exact fun hmem => hnot.2 (hsub b hmem)
    have hreserved : b ∈ chars "$&+,/:;=?@" → reservedEscape b .userPassword = true := by
      have hsub : ∀ c ∈ chars "$&+,/:;=?@", reservedEscape c .userPassword = false →
          c ∈ chars "-._:~!$&'()*+,;=%@" := List.all_iff_forall_prop.mp (by decide)
      exact fun hmem => by_contra fun hkeep => hnot.2 (hsub b hmem (by simpa using hkeep))
    rw [shouldEscape, if_neg hnot.1, if_neg fun h => absurd h.1 (by decide), if_neg hmark] at hb
    split_ifs at hb with hmem hfragment
    · rw [hreserved hmem] at hb
      cases hb
    · exact absurd hfragment.1 (by decide)
  have hdigit : ∀ b ∈ chars "0123456789ABCDEF", isLetter b ∨ isDigit b :=
    List.all_iff_forall_prop.mp (by decide)
  refine List.all_eq_true.mpr fun b hb => decide_eq_true ?_
  obtain ⟨c, -, hc⟩ := List.mem_flatMap.mp hb
  rcases mem_escapeByte (by decide) hc with ⟨rfl, hkeep⟩ | rfl | hd
  · exact hkept b hkeep
  · exact .inr (.inr (by decide))
  · exact (hdigit b hd).imp_right .inl

theorem unescape_userPassword (s : Bytes) :
    unescape .userPassword (escape .userPassword s) = .ok s :=
  unescape_escape (by decide) (by decide) fun b _ => survives_self (by decide) (by decide) b

theorem parseUserinfo_string (ui : Userinfo) : parseUserinfo ui.string = .ok ui := by
  obtain ⟨username, password⟩ := ui
  have hcolon := Absent.notMem (show Absent .userPassword colon by decide +kernel) (by decide)
  unfold parseUserinfo Userinfo.string
  cases password with
  | none =>
    dsimp only
    rw [List.append_nil, if_pos (validUserinfo_escape username), if_neg (hcolon username),
      unescape_userPassword]
    rfl
  | some password =>
    dsimp only
    have hvalid : validUserinfo (escape .userPassword username ++
        colon :: escape .userPassword password) := by
      have hu := validUserinfo_escape username
      have hp := validUserinfo_escape password
      unfold validUserinfo at hu hp ⊢
      rw [List.all_append, hu, List.all_cons, hp]
      decide
    rw [if_pos hvalid, if_pos (by simp), cut_append (hcolon username)]
    dsimp only
    rw [unescape_userPassword, unescape_userPassword]
    rfl

theorem parseAuthority_authority (u : URL) (scheme : Bytes) :
    parseAuthority scheme u.authority =
      (parseHost scheme (escape .host u.host)).map fun h => (u.user, h) := by
  have hat : atSign ∉ escape .host u.host :=
    Absent.notMem (by decide +kernel) (by decide) _
  unfold parseAuthority URL.authority
  cases hu : u.user with
  | none =>
    dsimp only
    rw [List.nil_append, lastIndex_letter_none hat]
    dsimp only
    cases parseHost scheme (escape .host u.host) with
    | error e => rfl
    | ok h => rfl
  | some ui =>
    have hdrop : (ui.string ++ atSign :: escape .host u.host).drop (ui.string.length + 1) =
        escape .host u.host := by
      simp
    dsimp only
    rw [List.append_assoc, List.singleton_append, lastIndex_letter hat]
    dsimp only
    rw [List.take_left, hdrop, parseUserinfo_string]
    cases parseHost scheme (escape .host u.host) with
    | error e => rfl
    | ok h => rfl

/-! ## Printing and reading a URL -/

/-- What a URL says about where it leads. -/
def URL.origin (u : URL) : Bytes × Option Userinfo × Bytes := (u.scheme, u.user, u.host)

/-- Where a URL leads, and its path as it is sent. -/
def URL.route (u : URL) : (Bytes × Option Userinfo × Bytes) × Bytes := (u.origin, u.escapedPath)

def URL.printedPath (u : URL) : Bytes :=
  (if u.escapedPath ≠ [] ∧ u.escapedPath.head? ≠ some slash then [slash] else []) ++ u.escapedPath

/-- A scheme that is read as it is printed. -/
structure PlainScheme (s : Bytes) : Prop where
  ne_nil : s ≠ []
  read : ∀ rest, getScheme (s ++ colon :: rest) = .ok (s, rest)
  lowered : lower.map s = s
  quiet : ∀ b ∈ s, b ≠ hash ∧ isCTL b = false

/-- A URL with a scheme and a host, and no hints on how to print it. -/
structure Plain (u : URL) : Prop where
  scheme : PlainScheme u.scheme
  host : u.host ≠ []
  noOpaque : u.opaquePart = []
  noRawPath : u.rawPath = []
  noRawFragment : u.rawFragment = []
  query : ∀ b ∈ u.rawQuery, b ≠ hash ∧ isCTL b = false

section PrintedURL

variable {c : UInt8}

variable {u : URL}

theorem beforeQuery_eq (hu : Plain u) :
    u.beforeQuery = u.scheme ++ colon :: slash :: slash :: (u.authority ++ u.printedPath) := by
  have hs := hu.scheme.ne_nil
  unfold URL.beforeQuery URL.beforePath URL.printedPath
  simp [hu.noOpaque, hs, hu.host]
  rfl

theorem escapedPath_eq (hu : Plain u) :
    u.escapedPath = if u.path = chars "*" then chars "*" else escape .path u.path := by
  simp [URL.escapedPath, encodingHint, hu.noRawPath]

theorem escapedFragment_eq (hu : Plain u) :
    u.escapedFragment = escape .fragment u.fragment := by
  simp [URL.escapedFragment, encodingHint, hu.noRawFragment]

theorem printedPath_shape (u : URL) : u.printedPath = [] ∨ ∃ t, u.printedPath = slash :: t := by
  unfold URL.printedPath
  cases h : u.escapedPath with
  | nil => exact .inl rfl
  | cons c t =>
    by_cases hc : c = slash
    · exact .inr ⟨t, by simp [hc]⟩
    · exact .inr ⟨c :: t, by simp [hc]⟩

theorem unescape_escapedPath (u : URL) : unescape .path u.escapedPath = .ok u.path := by
  unfold URL.escapedPath encodingHint
  split
  · next h => exact h.2.2
  · show unescape .path (if u.path = chars "*" then chars "*" else escape .path u.path) = _
    split
    · next hstar =>
      rw [hstar]
      decide
    · exact unescape_escape (by decide) (by decide) fun b _ =>
        survives_self (by decide) (by decide) b

theorem unescape_slash_cons (s : Bytes) :
    unescape .path (slash :: s) = (unescape .path s).map (slash :: ·) := by
  rw [unescape_cons_raw (by decide) (by decide)]
  rfl

theorem escape_slash_cons (s : Bytes) : escape .path (slash :: s) = slash :: escape .path s := rfl

theorem setPath_printedPath (hu : Plain u) (v : URL) :
    ∃ w, setPath v u.printedPath = .ok w ∧ w.origin = v.origin ∧
      w.escapedPath = u.printedPath := by
  obtain ⟨p, hp⟩ : ∃ p, unescape .path u.printedPath = .ok p := by
    unfold URL.printedPath
    split
    · refine ⟨slash :: u.path, ?_⟩
      rw [List.singleton_append, unescape_slash_cons, unescape_escapedPath]
      rfl
    · exact ⟨u.path, unescape_escapedPath u⟩
  let w : URL := { v with
    path := p, rawPath := if u.printedPath = escape .path p then [] else u.printedPath }
  have hw : setPath v u.printedPath = .ok w := by
    rw [setPath, hp]
    rfl
  refine ⟨w, hw, rfl, ?_⟩
  have hvalid : validEncoded .path u.printedPath := by
    have hdigit : ∀ c ∈ chars "0123456789ABCDEF", shouldEscape c .path = false :=
      List.all_iff_forall_prop.mp (by decide +kernel)
    have hkept : ∀ {b : UInt8}, shouldEscape b .path = false →
        (b ∈ chars "!$&'()*+,;=:@[]%" ∨ ¬ shouldEscape b .path) := fun h => .inr (by simp [h])
    refine List.all_eq_true.mpr fun b hb => decide_eq_true ?_
    unfold URL.printedPath at hb
    rcases List.mem_append.mp hb with hslash | hb
    · split at hslash
      · rw [List.mem_singleton.mp hslash]
        exact hkept (by decide)
      · exact absurd hslash List.not_mem_nil
    · rw [escapedPath_eq hu] at hb
      split at hb
      · rw [List.mem_singleton.mp hb]
        exact .inl (by decide)
      · obtain ⟨c, -, hc⟩ := List.mem_flatMap.mp hb
        rcases mem_escapeByte (by decide) hc with ⟨rfl, hkeep⟩ | rfl | hmem
        · exact hkept hkeep
        · exact .inl (by decide)
        · exact hkept (hdigit b hmem)
  have hstar : p ≠ chars "*" := by
    rintro rfl
    rcases printedPath_shape u with hnil | ⟨t, ht⟩
    · rw [hnil] at hp
      cases hp
    · rw [ht, unescape_slash_cons] at hp
      cases ht : unescape .path t with
      | error e => rw [ht] at hp; cases hp
      | ok t' => rw [ht] at hp; cases hp
  show (encodingHint .path (if u.printedPath = escape .path p then [] else u.printedPath) p).getD
    (if p = chars "*" then chars "*" else escape .path p) = _
  rw [if_neg hstar]
  split
  · next h => exact h.symm
  · next hne =>
    have hnil : u.printedPath ≠ [] := by
      rintro hnil
      rw [hnil] at hp hne
      cases hp
      exact hne rfl
    rw [encodingHint, if_pos ⟨hnil, hvalid, hp⟩]
    rfl

theorem notMem_authority (hhost : Absent .host c) (huser : Absent .userPassword c) (hc : c ≠ colon)
    (hat : c ≠ atSign) (u : URL) : c ∉ u.authority := by
  have hnotUser := huser.notMem (by decide)
  unfold URL.authority
  rw [List.mem_append, not_or]
  refine ⟨?_, hhost.notMem (by decide) _⟩
  cases u.user with
  | none => exact List.not_mem_nil
  | some ui =>
    obtain ⟨username, password⟩ := ui
    cases password with
    | none => simpa [Userinfo.string, hat] using hnotUser username
    | some password =>
      simpa [Userinfo.string, hat, hc] using ⟨hnotUser username, hnotUser password⟩

theorem notMem_printedPath (hu : Plain u) (h : Absent .path c) (hs : c ≠ slash)
    (hstar : c ∉ chars "*") : c ∉ u.printedPath := by
  have hescaped : c ∉ u.escapedPath := by
    rw [escapedPath_eq hu]
    split
    · exact hstar
    · exact h.notMem (by decide) _
  unfold URL.printedPath
  rw [List.mem_append, not_or]
  refine ⟨?_, hescaped⟩
  split
  · simpa using hs
  · exact List.not_mem_nil

theorem splitQuery_eq {pre : Bytes} (hpre : question ∉ pre) (q : Bytes) :
    (splitQuery (pre ++ question :: q)).1 = pre := by
  unfold splitQuery
  split
  · next h =>
    cases q with
    | nil => simp
    | cons c q =>
      -- The question mark at the end is a second one.
      have hlast : question ∈ c :: q := by
        refine List.mem_of_mem_getLast? ?_
        have hlast := h.1
        rw [List.getLast?_append_of_ne_nil _ (List.cons_ne_nil _ _),
          List.getLast?_cons_cons] at hlast
        exact hlast
      have hcount := h.2
      rw [List.count_append, List.count_cons_self] at hcount
      have hpos := List.count_pos_iff.mpr hlast
      omega
  · rw [cut_append hpre]

theorem splitQuery_none {pre : Bytes} (hpre : question ∉ pre) : (splitQuery pre).1 = pre := by
  unfold splitQuery
  rw [if_neg, cut_none hpre]
  exact fun h => hpre (List.mem_of_mem_getLast? h.1)

theorem splitAuthority_eq {w p : Bytes} (hw : slash ∉ w) (hp : p = [] ∨ ∃ t, p = slash :: t) :
    splitAuthority (w ++ p) = (w, p) := by
  unfold splitAuthority
  rcases hp with rfl | ⟨t, rfl⟩
  · rw [List.append_nil, index_letter_none hw]
  · rw [index_letter hw]
    simp

def URL.body (u : URL) : Bytes :=
  u.beforeQuery ++ if u.forceQuery ∨ u.rawQuery ≠ [] then question :: u.rawQuery else []

theorem notMem_body (hu : Plain u) (hc : c = hash ∨ isCTL c) : c ∉ u.body := by
  have habsent : ∀ m ∈ [Encoding.path, .host, .userPassword], Absent m c := by
    intro m hm
    rcases hc with rfl | hctl
    · simp only [List.mem_cons, List.not_mem_nil, or_false] at hm
      rcases hm with rfl | rfl | rfl <;> decide +kernel
    · exact absent_ctl hm c hctl
  have hother : c ∉ [colon, slash, question, atSign] ++ chars "*" := by
    have hbyte : ∀ c, c = hash ∨ isCTL c → c ∉ [colon, slash, question, atSign] ++ chars "*" :=
      forall_byte (by decide +kernel)
    exact hbyte c hc
  simp only [List.mem_append, List.mem_cons, List.not_mem_nil, or_false, not_or] at hother
  obtain ⟨⟨hcolon, hslash, hquestion, hat⟩, hstar⟩ := hother
  have hquiet : ∀ s : Bytes, (∀ b ∈ s, b ≠ hash ∧ isCTL b = false) → c ∉ s := by
    intro s hs hmem
    rcases hc with rfl | hctl
    · exact (hs _ hmem).1 rfl
    · rw [(hs c hmem).2] at hctl
      cases hctl
  unfold URL.body
  rw [beforeQuery_eq hu]
  simp only [List.mem_append, List.mem_cons, not_or]
  refine ⟨⟨hquiet _ hu.scheme.quiet, hcolon, hslash, hslash, ?_, ?_⟩, ?_⟩
  · exact notMem_authority (habsent _ (by simp)) (habsent _ (by simp)) hcolon hat u
  · exact notMem_printedPath hu (habsent _ (by simp)) hslash hstar
  · split
    · rw [List.mem_cons, not_or]
      exact ⟨hquestion, hquiet _ hu.query⟩
    · exact List.not_mem_nil

theorem parseHierarchy_printed (hu : Plain u) (v : URL) (hv : v.scheme = u.scheme) :
    (parseHierarchy v (slash :: slash :: (u.authority ++ u.printedPath))).map URL.route =
      (parseHost u.scheme (escape .host u.host)).map fun h =>
        ((u.scheme, u.user, h), u.printedPath) := by
  have hslash : slash ∉ u.authority :=
    notMem_authority (by decide +kernel) (by decide +kernel) (by decide) (by decide) u
  have hcond : (v.scheme ≠ [] ∨
        ¬ chars "///" <+: slash :: slash :: (u.authority ++ u.printedPath)) ∧
      chars "//" <+: slash :: slash :: (u.authority ++ u.printedPath) :=
    ⟨.inl (hv ▸ hu.scheme.ne_nil), List.prefix_append (chars "//") _⟩
  rw [parseHierarchy, if_pos hcond]
  dsimp only [List.drop]
  rw [splitAuthority_eq hslash (printedPath_shape u), hv]
  dsimp only
  rw [parseAuthority_authority]
  cases parseHost u.scheme (escape .host u.host) with
  | error e => rfl
  | ok h =>
    obtain ⟨w, hw, horigin, hpath⟩ :=
      setPath_printedPath hu { v with scheme := u.scheme, user := u.user, host := h }
    show (setPath { v with scheme := u.scheme, user := u.user, host := h }
      u.printedPath).map URL.route = _
    rw [hw]
    show Except.ok (w.origin, w.escapedPath) = _
    rw [horigin, hpath]
    rfl

theorem parseBody_body (hu : Plain u) :
    (parseBody u.body).map URL.route =
      (parseHost u.scheme (escape .host u.host)).map fun h =>
        ((u.scheme, u.user, h), u.printedPath) := by
  have hctl : u.body.any isCTL = false := by
    rw [List.any_eq_false]
    exact fun c hmem hc => notMem_body hu (.inr hc) hmem
  have hquestion : question ∉ slash :: slash :: (u.authority ++ u.printedPath) := by
    simp only [List.mem_cons, List.mem_append, not_or]
    refine ⟨by decide, by decide, ?_, ?_⟩
    · exact notMem_authority (by decide +kernel) (by decide +kernel) (by decide) (by decide) u
    · exact notMem_printedPath hu (by decide +kernel) (by decide) (by decide)
  -- What follows the scheme, and the text that is left of it without the query.
  obtain ⟨rest, hrest, hsplit⟩ : ∃ rest, u.body = u.scheme ++ colon :: rest ∧
      (splitQuery rest).1 = slash :: slash :: (u.authority ++ u.printedPath) := by
    unfold URL.body
    rw [beforeQuery_eq hu]
    split
    · exact ⟨_, by simp, splitQuery_eq hquestion u.rawQuery⟩
    · exact ⟨_, by simp, splitQuery_none hquestion⟩
  have hstar : u.body ≠ chars "*" := by
    intro h
    have hcolon : colon ∈ chars "*" := h ▸ hrest ▸ (by simp)
    exact absurd hcolon (by decide)
  unfold parseBody
  rw [hctl, if_neg (by decide), if_neg hstar, hrest, hu.scheme.read]
  show (parseAfterScheme (lower.map u.scheme) rest).map URL.route = _
  rw [hu.scheme.lowered]
  unfold parseAfterScheme
  rcases hq : splitQuery rest with ⟨pre, rawQuery, forceQuery⟩
  rw [hq] at hsplit
  obtain rfl : pre = slash :: slash :: (u.authority ++ u.printedPath) := hsplit
  dsimp only
  rw [if_pos (by simp)]
  exact parseHierarchy_printed hu _ rfl

theorem parse_string_route (hu : Plain u) :
    (parse u.string).map URL.route =
      (parseHost u.scheme (escape .host u.host)).map fun h =>
        ((u.scheme, u.user, h), u.printedPath) := by
  have hhash : hash ∉ u.body := notMem_body hu (.inl rfl)
  have hstring :
      u.string = u.body ++ if u.fragment ≠ [] then hash :: u.escapedFragment else [] := rfl
  rw [← parseBody_body hu, hstring, parse]
  split
  · rw [cut_append hhash, escapedFragment_eq hu]
    dsimp only
    cases parseBody u.body with
    | error e => rfl
    | ok v =>
      show (if escape .fragment u.fragment = [] then _
        else setFragment v _ : Except UrlError URL).map URL.route = _
      split
      · rfl
      · rw [setFragment, unescape_escape (by decide) (by decide) fun b _ =>
          survives_self (by decide) (by decide) b]
        rfl
  · rw [List.append_nil, cut_none hhash]
    dsimp only
    cases parseBody u.body with
    | error e => rfl
    | ok v => rfl

theorem parse_string (hu : Plain u) :
    (parse u.string).map URL.origin =
      (parseHost u.scheme (escape .host u.host)).map fun h => (u.scheme, u.user, h) := by
  have hfst : ∀ {α β γ : Type} (e : Except UrlError α) (f : α → β × γ),
      (e.map f).map Prod.fst = e.map fun a => (f a).1 := by
    intro α β γ e f
    cases e <;> rfl
  have h := congrArg (Except.map Prod.fst) (parse_string_route hu)
  rwa [hfst, hfst] at h

end PrintedURL

/-! ## What parsing gives -/

theorem setPath_ok {u v : URL} {p : Bytes} (h : setPath u p = .ok v) :
    v.scheme = u.scheme ∧ v.host = u.host ∧ v.rawQuery = u.rawQuery := by
  obtain ⟨path, -, h⟩ := Go.bind_eq_ok.mp h
  cases h
  exact ⟨rfl, rfl, rfl⟩

theorem parseAuthority_ok {scheme authority host : Bytes} {user : Option Userinfo}
    (h : parseAuthority scheme authority = .ok (user, host)) :
    ∃ raw, parseHost scheme raw = .ok host := by
  unfold parseAuthority at h
  split at h
  · obtain ⟨host', hhost, h⟩ := Go.bind_eq_ok.mp h
    cases h
    exact ⟨_, hhost⟩
  · obtain ⟨host', hhost, h⟩ := Go.bind_eq_ok.mp h
    obtain ⟨user', -, h⟩ := Go.bind_eq_ok.mp h
    cases h
    exact ⟨_, hhost⟩

/-- A URL with the given scheme and query, whose host, if it has one, came from
`parseHost`. -/
def Reads (scheme rawQuery : Bytes) (v : URL) : Prop :=
  v.scheme = scheme ∧ v.rawQuery = rawQuery ∧
    (v.host ≠ [] → ∃ raw, parseHost scheme raw = .ok v.host)

theorem parseHierarchy_ok {u v : URL} {rest : Bytes} (hu : u.host = [])
    (h : parseHierarchy u rest = .ok v) : Reads u.scheme u.rawQuery v := by
  unfold parseHierarchy at h
  split at h
  · dsimp only at h
    obtain ⟨⟨user, host⟩, hauthority, h⟩ := Go.bind_eq_ok.mp h
    obtain ⟨hscheme, hhost, hquery⟩ := setPath_ok h
    refine ⟨hscheme, hquery, fun _ => ?_⟩
    rw [hhost]
    exact parseAuthority_ok hauthority
  · obtain ⟨hscheme, hhost, hquery⟩ := setPath_ok h
    exact ⟨hscheme, hquery, fun hne => absurd (hhost.trans hu) hne⟩

theorem parseAfterScheme_ok {scheme rest : Bytes} {v : URL}
    (h : parseAfterScheme scheme rest = .ok v) : Reads scheme (splitQuery rest).2.1 v := by
  unfold parseAfterScheme at h
  dsimp only at h
  split at h
  · exact parseHierarchy_ok rfl h
  · split at h
    · cases h
      exact ⟨rfl, rfl, fun hne => absurd rfl hne⟩
    · split at h
      · cases h
      · exact parseHierarchy_ok rfl h

theorem getSchemeFrom_suffix {rawURL seen s scheme rest : Bytes} (hs : s <:+ rawURL)
    (h : getSchemeFrom rawURL seen s = .ok (scheme, rest)) : rest <:+ rawURL := by
  induction s generalizing seen with
  | nil =>
    cases h
    exact List.suffix_rfl
  | cons c s ih =>
    have htail : s <:+ rawURL := (List.suffix_cons c s).trans hs
    unfold getSchemeFrom at h
    split_ifs at h
    · exact ih htail h
    · cases h
      exact List.suffix_rfl
    · exact ih htail h
    · cases h
      exact htail
    · cases h
      exact List.suffix_rfl

theorem mem_cut_snd {c b : UInt8} {s : Bytes} (h : b ∈ (cut c s).2) : b ∈ s := by
  unfold cut at h
  split at h
  · exact List.mem_of_mem_drop h
  · exact absurd h List.not_mem_nil

theorem mem_splitQuery {rest : Bytes} (h : b ∈ (splitQuery rest).2.1) : b ∈ rest := by
  unfold splitQuery at h
  split at h
  · exact absurd h List.not_mem_nil
  · exact mem_cut_snd h

theorem notMem_cut_fst (c : UInt8) (s : Bytes) : c ∉ (cut c s).1 := by
  by_cases h : c ∈ s
  · obtain ⟨w, t, rfl, hw⟩ := List.eq_append_cons_of_mem h
    rw [cut_append hw]
    exact hw
  · rw [cut_none h]
    exact h

theorem parseBody_ok {rawURL : Bytes} {v : URL} (h : parseBody rawURL = .ok v) :
    ∃ scheme query, Reads scheme query v ∧ ∀ b ∈ query, b ∈ rawURL ∧ isCTL b = false := by
  unfold parseBody at h
  split at h
  · cases h
  · next hctl =>
    split at h
    · cases h
      exact ⟨[], [], ⟨rfl, rfl, fun hne => absurd rfl hne⟩, fun b hb => absurd hb List.not_mem_nil⟩
    · obtain ⟨⟨scheme, rest⟩, hscheme, h⟩ := Go.bind_eq_ok.mp h
      refine ⟨_, _, parseAfterScheme_ok h, fun b hb => ?_⟩
      have hmem := (getSchemeFrom_suffix List.suffix_rfl hscheme).subset (mem_splitQuery hb)
      rw [Bool.not_eq_true, List.any_eq_false] at hctl
      exact ⟨hmem, by simpa using hctl b hmem⟩

theorem parse_ok {rawURL : Bytes} {u : URL} (h : parse rawURL = .ok u) :
    (u.host ≠ [] → ∃ raw, parseHost u.scheme raw = .ok u.host) ∧
      ∀ b ∈ u.rawQuery, b ≠ hash ∧ isCTL b = false := by
  obtain ⟨v, hv, h⟩ := Go.bind_eq_ok.mp h
  obtain ⟨scheme, query, ⟨rfl, rfl, hhost⟩, hquery⟩ := parseBody_ok hv
  have hnothash : ∀ b ∈ v.rawQuery, b ≠ hash ∧ isCTL b = false := by
    intro b hb
    refine ⟨?_, (hquery b hb).2⟩
    rintro rfl
    exact notMem_cut_fst hash rawURL (hquery _ hb).1
  dsimp only at h
  split at h
  · cases h
    exact ⟨hhost, hnothash⟩
  · obtain ⟨frag, -, h⟩ := Go.bind_eq_ok.mp h
    cases h
    exact ⟨hhost, hnothash⟩

end GoUrl
