import Forager.GoUrlPrint

/-!
# Paths of Go URLs

How the path of a `net/url` URL and its escaped form hang together.
-/

namespace GoUrl

open GoText (Bytes)
theorem escapedPath_cases (u : URL) :
    (u.rawPath ≠ [] ∧ u.escapedPath = u.rawPath) ∨
      (u.path = chars "*" ∧ u.escapedPath = chars "*") ∨
      (u.path ≠ chars "*" ∧ u.escapedPath = escape .path u.path) := by
  unfold URL.escapedPath encodingHint
  split
  · next h => exact .inl ⟨h.1, rfl⟩
  · refine .inr ?_
    show _ ∧ (if u.path = chars "*" then chars "*" else escape .path u.path) = _ ∨
      _ ∧ (if u.path = chars "*" then chars "*" else escape .path u.path) = _
    split
    · next h => exact .inl ⟨h, rfl⟩
    · next h => exact .inr ⟨h, rfl⟩

/-! ## Paths that were parsed -/

/-- The path of the URL was read from the text `p`. -/
structure ReadPath (u : URL) (p : Bytes) : Prop where
  path : unescape .path p = .ok u.path
  raw : u.rawPath = if p = escape .path u.path then [] else p
  rooted : u.host ≠ [] → p = [] ∨ ∃ t, p = slash :: t

theorem readPath_setPath {u v : URL} {p : Bytes} (h : setPath u p = .ok v)
    (hp : u.host ≠ [] → p = [] ∨ ∃ t, p = slash :: t) : ReadPath v p := by
  obtain ⟨path, hpath, h⟩ := Go.bind_eq_ok.mp h
  cases h
  exact ⟨hpath, rfl, hp⟩

theorem splitAuthority_shape (rest : Bytes) :
    (splitAuthority rest).2 = [] ∨ ∃ t, (splitAuthority rest).2 = slash :: t := by
  by_cases h : slash ∈ rest
  · obtain ⟨w, t, rfl, hw⟩ := List.eq_append_cons_of_mem h
    rw [splitAuthority_eq hw (.inr ⟨t, rfl⟩)]
    exact .inr ⟨t, rfl⟩
  · have hsplit := splitAuthority_eq h (.inl rfl)
    rw [List.append_nil] at hsplit
    rw [hsplit]
    exact .inl rfl

theorem readPath_parseHierarchy {u v : URL} {rest : Bytes} (hu : u.host = [])
    (h : parseHierarchy u rest = .ok v) : ∃ p, ReadPath v p := by
  unfold parseHierarchy at h
  split at h
  · dsimp only at h
    obtain ⟨⟨user, host⟩, -, h⟩ := Go.bind_eq_ok.mp h
    exact ⟨_, readPath_setPath h fun _ => splitAuthority_shape _⟩
  · exact ⟨rest, readPath_setPath h fun hne => absurd hu hne⟩

theorem readPath_parseAfterScheme {scheme rest : Bytes} {v : URL}
    (h : parseAfterScheme scheme rest = .ok v) : ∃ p, ReadPath v p := by
  unfold parseAfterScheme at h
  dsimp only at h
  split at h
  · exact readPath_parseHierarchy rfl h
  · split at h
    · cases h
      exact ⟨[], rfl, rfl, fun hne => absurd rfl hne⟩
    · split at h
      · cases h
      · exact readPath_parseHierarchy rfl h

theorem readPath_parseBody {rawURL : Bytes} {v : URL} (h : parseBody rawURL = .ok v) :
    ∃ p, ReadPath v p := by
  unfold parseBody at h
  split at h
  · cases h
  · split at h
    · cases h
      exact ⟨escape .path (chars "*"), by decide, by decide, fun hne => absurd rfl hne⟩
    · obtain ⟨⟨scheme, rest⟩, -, h⟩ := Go.bind_eq_ok.mp h
      exact readPath_parseAfterScheme h

theorem exists_readPath {rawURL : Bytes} {u : URL} (h : parse rawURL = .ok u) :
    ∃ p, ReadPath u p := by
  obtain ⟨v, hv, h⟩ := Go.bind_eq_ok.mp h
  obtain ⟨p, hp⟩ := readPath_parseBody hv
  dsimp only at h
  split at h
  · cases h
    exact ⟨p, hp⟩
  · obtain ⟨frag, -, h⟩ := Go.bind_eq_ok.mp h
    cases h
    exact ⟨p, hp.path, hp.raw, hp.rooted⟩

theorem ReadPath.shape {u : URL} {p : Bytes} (h : ReadPath u p) (hhost : u.host ≠ []) :
    (u.path = [] ∧ u.escapedPath = []) ∨
      (u.path.head? = some slash ∧ u.escapedPath.head? = some slash) := by
  obtain ⟨hpath, hraw, hrooted⟩ := h
  rcases hrooted hhost with rfl | ⟨t, rfl⟩
  · have hnil : u.path = [] := (Except.ok.inj hpath).symm
    rw [hnil] at hraw
    refine .inl ⟨hnil, ?_⟩
    rcases escapedPath_cases u with ⟨hne, -⟩ | ⟨hstar, -⟩ | ⟨-, he⟩
    · exact absurd (hraw.trans (if_pos rfl)) hne
    · rw [hnil] at hstar
      cases hstar
    · rw [he, hnil]
      rfl
  · obtain ⟨t', ht'⟩ : ∃ t', u.path = slash :: t' := by
      rw [unescape_slash_cons] at hpath
      cases ht : unescape .path t with
      | error e =>
        rw [ht] at hpath
        cases hpath
      | ok t' =>
        rw [ht] at hpath
        exact ⟨t', (Except.ok.inj hpath).symm⟩
    refine .inr ⟨by rw [ht']; rfl, ?_⟩
    rcases escapedPath_cases u with ⟨hne, he⟩ | ⟨hstar, -⟩ | ⟨-, he⟩
    · rw [he, hraw]
      split
      · next heq => exact absurd (hraw.trans (if_pos heq)) hne
      · rfl
    · rw [ht'] at hstar
      cases hstar
    · rw [he, ht']
      rfl

theorem ReadPath.ne_star {u : URL} {p : Bytes} (h : ReadPath u p)
    (he : u.escapedPath = escape .path u.path) : u.path ≠ chars "*" := by
  intro hstar
  rcases escapedPath_cases u with ⟨hne, hraw⟩ | ⟨-, hraw⟩ | ⟨hnot, -⟩
  · rw [h.raw] at hne hraw
    split at hne
    · exact hne rfl
    · next hp =>
      rw [if_neg hp] at hraw
      exact hp (hraw.symm.trans he)
  · rw [he, hstar] at hraw
    exact absurd hraw (by decide)
  · exact hnot hstar

/-! ## Encodings from the left -/

theorem append_eq_of_unescape {r : Encoding} (hr : r ≠ .queryComponent) {x x' y y' a : Bytes}
    (hx : unescape r x = .ok a) (hx' : unescape r x' = .ok a) (h : x ++ y = x' ++ y') :
    x = x' ∧ y = y' := by
  induction a generalizing x x' with
  | nil =>
    have hnil : ∀ {z : Bytes}, unescape r z = .ok [] → z = [] := by
      intro z hz
      cases z with
      | nil => rfl
      | cons c z =>
        rcases unescape_cons_ok hr hz with ⟨t', -, -, -, ht⟩ |
          ⟨_, _, _, _, _, t', -, -, -, -, -, -, ht⟩ <;> cases ht
    rw [hnil hx, hnil hx'] at h ⊢
    exact ⟨rfl, h⟩
  | cons b a ih =>
    cases x with
    | nil => cases hx
    | cons c x =>
      cases x' with
      | nil => cases hx'
      | cons c' x' =>
        obtain ⟨rfl, hrest⟩ := List.cons.inj h
        -- the first byte tells whether one byte or three are read
        rcases unescape_cons_ok hr hx with ⟨t, hc, -, ht, heq⟩ |
            ⟨d, e, s, hi, lo, t, hc, rfl, -, -, -, ht, heq⟩ <;>
          rcases unescape_cons_ok hr hx' with ⟨t', hc', -, ht', heq'⟩ |
            ⟨d', e', s', hi', lo', t', hc', rfl, -, -, -, ht', heq'⟩
        · obtain ⟨-, rfl⟩ := List.cons.inj heq
          obtain ⟨-, rfl⟩ := List.cons.inj heq'
          obtain ⟨rfl, hy⟩ := ih ht ht' hrest
          exact ⟨rfl, hy⟩
        · exact absurd hc' hc
        · exact absurd hc hc'
        · obtain ⟨-, rfl⟩ := List.cons.inj heq
          obtain ⟨-, rfl⟩ := List.cons.inj heq'
          obtain ⟨rfl, hrest₁⟩ := List.cons.inj hrest
          obtain ⟨rfl, hrest₂⟩ := List.cons.inj hrest₁
          obtain ⟨rfl, hy⟩ := ih ht ht' hrest₂
          exact ⟨rfl, hy⟩

end GoUrl
