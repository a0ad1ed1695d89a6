import Forager.ConnStrings
import Forager.GoTime
import Forager.Runs

/-!
# The OAuth token cache of the MCP proxy

`getOAuthToken` of `pkg/proxy/mcp/proxy.go` keeps the last token until a deadline that
it computes from `expires_in` in 64-bit nanoseconds: the lifetime less half a minute,
or less half of a lifetime that is shorter than a minute.

The multiplication can overflow. What is left of the lifetime is then shorter than the
one the server sent, often negative, and a token with a deadline in the past is fetched
again by every request.
-/

namespace Forager

open GoTime GoUrl
open GoText (Bytes)

/-! ## Definitions -/

structure TokenRequest where
  url : Bytes
  form : Bytes
  username : Bytes
  password : Bytes
deriving DecidableEq, Repr

/-- A response of the token endpoint: its body is read as text or decoded, and `readAt`
is the instant after it was read. -/
structure TokenResponse where
  statusCode : Int
  body : Bytes
  /-- `access_token` and `expires_in`. -/
  decoded : Except Bytes (Bytes × Int)
  readAt : Int

/-- What comes of a request. -/
inductive TokenAnswer where
  | invalid (err : Bytes)
  | failed (err : Bytes)
  | response (r : TokenResponse)

structure OAuthCache where
  token : Bytes
  expAt : Int
deriving DecidableEq, Repr

/-- A call at the instant `now`, with what its request would be answered. -/
structure TokenCall where
  now : Int
  answer : TokenRequest → TokenAnswer

/-- What a call returns; a token is the one of the cache or a new one. -/
inductive TokenReply where
  | cached (token : Bytes)
  | fetched (token : Bytes)
  | failed (err : Bytes)
deriving DecidableEq, Repr

/-- The request; reading a credential that is not there gives the empty text. -/
def tokenRequest (creds : String → Bytes) : TokenRequest :=
  let scope := creds "oauth_scope"
  let audience := creds "oauth_audience"
  { url := creds "oauth_token_url"
    -- `Encode` orders the values by their keys
    form := encodeValues
      ((if audience ≠ [] then [(chars "audience", audience)] else []) ++
        [(chars "grant_type", chars "client_credentials")] ++
        (if scope ≠ [] then [(chars "scope", scope)] else []))
    username := creds "oauth_client_id"
    password := creds "oauth_client_secret" }

def tokenWindow (expiresIn : Int) : Int :=
  if 0 < expiresIn then
    let lifetime := wrap64 (expiresIn * second)
    let buffer := if lifetime.tdiv 2 < 30 * second then lifetime.tdiv 2 else 30 * second
    wrap64 (lifetime - buffer)
  else 5 * minute

def fetchToken (creds : String → Bytes) (c : OAuthCache) (answer : TokenRequest → TokenAnswer) :
    TokenReply × OAuthCache :=
  if creds "oauth_token_url" = [] ∨ creds "oauth_client_id" = [] ∨
      creds "oauth_client_secret" = [] then
    (.failed (chars
      "oauth2 requires oauth_token_url, oauth_client_id, and oauth_client_secret"), c)
  else match answer (tokenRequest creds) with
    | .invalid err => (.failed (chars "creating token request: " ++ err), c)
    | .failed err => (.failed (chars "token request failed: " ++ err), c)
    | .response r =>
      if r.statusCode ≠ 200 then
        (.failed (chars "token endpoint returned " ++ decimal r.statusCode ++ chars ": " ++
          r.body), c)
      else match r.decoded with
        | .error err => (.failed (chars "decoding token response: " ++ err), c)
        | .ok (token, expiresIn) =>
          if token = [] then
            (.failed (chars "token endpoint returned empty access_token"), c)
          else (.fetched token, ⟨token, r.readAt + tokenWindow expiresIn⟩)

def getOAuthToken (creds : String → Bytes) (c : OAuthCache) (call : TokenCall) :
    TokenReply × OAuthCache :=
  if c.token ≠ [] ∧ call.now < c.expAt then (.cached c.token, c)
  else fetchToken creds c call.answer

def tokenRun (creds : String → Bytes) (c : OAuthCache) (calls : List TokenCall) : OAuthCache :=
  Runs.Run (fun c call => (getOAuthToken creds c call).2) c calls

/-- What a call returns after some calls. -/
def tokenReply (creds : String → Bytes) (c : OAuthCache) (calls : List TokenCall)
    (call : TokenCall) : TokenReply :=
  (getOAuthToken creds (tokenRun creds c calls) call).1

/-! ## The window of a token -/

/-- The call takes a token with its `expires_in` from the endpoint, at the instant `t`. -/
def Receives (creds : String → Bytes) (c : OAuthCache) (call : TokenCall) (token : Bytes)
    (expiresIn t : Int) : Prop :=
  (getOAuthToken creds c call).1 = .fetched token ∧
    ∃ r, call.answer (tokenRequest creds) = .response r ∧ r.decoded = .ok (token, expiresIn) ∧
      r.readAt = t

/-- The instant is in the first half of the lifetime, as far as a duration can hold it. -/
def InFirstHalf (t expiresIn now : Int) : Prop :=
  t ≤ now ∧ 2 * (now - t) < min (expiresIn * second) maxDuration

/-- No call at the end of the lifetime or later returns the cached token, as long as no
other one was fetched. -/
def NotServedLate (creds : String → Bytes) (c : OAuthCache) (t expiresIn : Int) : Prop :=
  ∀ calls call, t + expiresIn * second ≤ call.now →
    (∀ pre a, pre ++ [a] <+: calls → ∀ other, tokenReply creds c pre a ≠ .fetched other) →
    ∀ token, tokenReply creds c calls call ≠ .cached token

/-- As long as all calls are in the first half of the lifetime, each returns the cached
token. -/
def ServedEarly (creds : String → Bytes) (c : OAuthCache) (token : Bytes) (t expiresIn : Int) :
    Prop :=
  ∀ calls, (∀ a ∈ calls, InFirstHalf t expiresIn a.now) →
    ∀ pre a, pre ++ [a] <+: calls → tokenReply creds c pre a = .cached token

/-- The lifetime fits into a duration, or what is left of it is at least half of the
longest duration and half a minute. -/
def LifetimeKept (expiresIn : Int) : Prop :=
  expiresIn * second < 2 ^ 63 ∨
    (2 ^ 62 + 30 * second ≤ expiresIn * second % 2 ^ 64 ∧ expiresIn * second % 2 ^ 64 < 2 ^ 63)

namespace OAuthTokenLemmas

variable {creds : String → Bytes} {c : OAuthCache} {call : TokenCall} {token : Bytes}
  {expiresIn t : Int}

/-! ## The deadline -/

theorem wrap64_cases (x : Int) :
    (x % 2 ^ 64 < 2 ^ 63 ∧ wrap64 x = x % 2 ^ 64) ∨
      (2 ^ 63 ≤ x % 2 ^ 64 ∧ wrap64 x = x % 2 ^ 64 - 2 ^ 64) := by
  unfold wrap64
  rw [Int.bmod_def]
  norm_num
  omega

theorem wrap64_of_range {x : Int} (h0 : -2 ^ 63 ≤ x) (h : x < 2 ^ 63) : wrap64 x = x := by
  unfold wrap64
  rw [Int.bmod_eq_of_le_mul_two] <;> omega

theorem tokenWindow_cases (h0 : 0 < expiresIn) :
    let lifetime := wrap64 (expiresIn * second)
    (lifetime < 0 ∧ tokenWindow expiresIn ≤ 0) ∨
    (0 ≤ lifetime ∧ lifetime < 60 * second ∧
      tokenWindow expiresIn = lifetime - lifetime / 2) ∨
    (60 * second ≤ lifetime ∧ tokenWindow expiresIn = lifetime - 30 * second) := by
  intro lifetime
  have hrange : -2 ^ 63 ≤ lifetime ∧ lifetime < 2 ^ 63 := by
    have hcases := wrap64_cases (expiresIn * second)
    have hmod := Int.emod_nonneg (expiresIn * second) (b := 2 ^ 64) (by decide)
    have hlt := Int.emod_lt_of_pos (expiresIn * second) (b := 2 ^ 64) (by decide)
    omega
  have hsecond : second = 1000000000 := by decide
  have hwindow : tokenWindow expiresIn =
      wrap64 (lifetime - if lifetime.tdiv 2 < 30 * second then lifetime.tdiv 2 else 30 * second) :=
    if_pos h0
  rw [hwindow]
  rcases lt_or_ge lifetime 0 with hneg | hpos
  · -- halving rounds towards zero
    have hhalf : lifetime.tdiv 2 = -(-lifetime / 2) := by
      rw [← Int.tdiv_eq_ediv_of_nonneg (by omega), Int.neg_tdiv, neg_neg]
    rw [hhalf, if_pos (by omega), wrap64_of_range (by omega) (by omega)]
    exact .inl ⟨hneg, by omega⟩
  · have hhalf : lifetime.tdiv 2 = lifetime / 2 := Int.tdiv_eq_ediv_of_nonneg hpos
    rw [hhalf]
    split
    · next hshort =>
      rw [wrap64_of_range (by omega) (by omega)]
      exact .inr (.inl ⟨hpos, by omega, rfl⟩)
    · next hlong =>
      rw [wrap64_of_range (by omega) (by omega)]
      exact .inr (.inr ⟨by omega, rfl⟩)

theorem deadline_le (h0 : 0 < expiresIn) : tokenWindow expiresIn ≤ expiresIn * second := by
  have hpos : 0 < expiresIn * second := mul_pos h0 (by decide)
  have hlifetime := wrap64_cases (expiresIn * second)
  have hwindow := tokenWindow_cases h0
  have hsecond : 0 < second := by decide
  simp only at hwindow
  omega

theorem first_half_iff (h0 : 0 < expiresIn) (t : Int) :
    (∀ now, InFirstHalf t expiresIn now → now < t + tokenWindow expiresIn) ↔
      LifetimeKept expiresIn := by
  have hpos : 0 < expiresIn * second := mul_pos h0 (by decide)
  have hlifetime := wrap64_cases (expiresIn * second)
  have hwindow := tokenWindow_cases h0
  have hsecond : second = 1000000000 := by decide
  simp only at hwindow
  unfold InFirstHalf LifetimeKept
  constructor
  · intro h
    by_contra hlost
    -- the last instant of the first half of the longest duration
    have hlast := h (t + (2 ^ 62 - 1)) (by unfold maxDuration; omega)
    omega
  · rintro hkept now ⟨hfrom, hto⟩
    unfold maxDuration at hto
    omega

/-! ## Calls -/

theorem fetchToken_cases (creds : String → Bytes) (c : OAuthCache)
    (answer : TokenRequest → TokenAnswer) :
    (∃ err, fetchToken creds c answer = (.failed err, c)) ∨
      ∃ r token expiresIn, answer (tokenRequest creds) = .response r ∧
        r.decoded = .ok (token, expiresIn) ∧ token ≠ [] ∧
        fetchToken creds c answer =
          (.fetched token, ⟨token, r.readAt + tokenWindow expiresIn⟩) := by
  unfold fetchToken
  split
  · exact .inl ⟨_, rfl⟩
  split
  · exact .inl ⟨_, rfl⟩
  · exact .inl ⟨_, rfl⟩
  · next r hanswer =>
    split
    · exact .inl ⟨_, rfl⟩
    split
    · exact .inl ⟨_, rfl⟩
    · next token expiresIn hdecoded =>
      split
      · exact .inl ⟨_, rfl⟩
      · next htoken => exact .inr ⟨r, token, expiresIn, hanswer, hdecoded, htoken, rfl⟩

theorem reply_cached_iff (call : TokenCall) :
    (getOAuthToken creds c call).1 = .cached token ↔
      c.token = token ∧ token ≠ [] ∧ call.now < c.expAt := by
  unfold getOAuthToken
  split
  · next hlive =>
    simp only [TokenReply.cached.injEq]
    exact ⟨fun h => ⟨h, h ▸ hlive.1, hlive.2⟩, fun h => h.1⟩
  · next hdead =>
    refine ⟨fun h => ?_, fun h => absurd ⟨h.1 ▸ h.2.1, h.2.2⟩ hdead⟩
    obtain ⟨err, hfail⟩ | ⟨r, token', e, -, -, -, hok⟩ := fetchToken_cases creds c call.answer
    · rw [hfail] at h
      cases h
    · rw [hok] at h
      cases h

theorem getOAuthToken_keeps (h : ∀ other, (getOAuthToken creds c call).1 ≠ .fetched other) :
    (getOAuthToken creds c call).2 = c := by
  unfold getOAuthToken at *
  split at h <;> rename_i hlive
  · rw [if_pos hlive]
  · rw [if_neg hlive]
    obtain ⟨err, hfail⟩ | ⟨r, token', e, -, -, -, hok⟩ := fetchToken_cases creds c call.answer
    · rw [hfail]
    · exact absurd (congrArg Prod.fst hok) (h token')

theorem cache_of_receives (h : Receives creds c call token expiresIn t) :
    token ≠ [] ∧ (getOAuthToken creds c call).2 = ⟨token, t + tokenWindow expiresIn⟩ := by
  obtain ⟨hreply, r, hanswer, hdecoded, rfl⟩ := h
  unfold getOAuthToken at *
  split at hreply <;> rename_i hlive
  · cases hreply
  · rw [if_neg hlive]
    obtain ⟨err, hfail⟩ | ⟨r', token', e', hanswer', hdecoded', htoken, hok⟩ :=
      fetchToken_cases creds c call.answer
    · rw [hfail] at hreply
      cases hreply
    · obtain rfl := TokenAnswer.response.inj (hanswer.symm.trans hanswer')
      obtain ⟨⟩ := hdecoded.symm.trans hdecoded'
      exact ⟨htoken, congrArg Prod.snd hok⟩

theorem tokenRun_keeps (calls : List TokenCall)
    (h : ∀ pre a, pre ++ [a] <+: calls → ∀ other, tokenReply creds c pre a ≠ .fetched other) :
    tokenRun creds c calls = c := by
  induction calls using List.reverseRecOn with
  | nil => rfl
  | append_singleton calls a ih =>
    have hbefore : tokenRun creds c calls = c :=
      ih fun pre b hp => h pre b (hp.trans (List.prefix_append _ _))
    have hlast := h calls a List.prefix_rfl
    unfold tokenReply at hlast
    rw [hbefore] at hlast
    calc tokenRun creds c (calls ++ [a])
        = (getOAuthToken creds (tokenRun creds c calls) a).2 := Runs.run_snoc _ _ _ _
      _ = (getOAuthToken creds c a).2 := by rw [hbefore]
      _ = c := getOAuthToken_keeps hlast

theorem tokenRun_of_live (htoken : c.token ≠ []) (calls : List TokenCall)
    (h : ∀ a ∈ calls, a.now < c.expAt) : tokenRun creds c calls = c := by
  induction calls with
  | nil => rfl
  | cons a calls ih =>
    have ha : getOAuthToken creds c a = (.cached c.token, c) :=
      if_pos ⟨htoken, h a List.mem_cons_self⟩
    calc tokenRun creds c (a :: calls)
        = tokenRun creds (getOAuthToken creds c a).2 calls := rfl
      _ = tokenRun creds c calls := by rw [ha]
      _ = c := ih fun b hb => h b (List.mem_cons_of_mem a hb)

theorem notServedLate_of_le (h : c.expAt ≤ t + expiresIn * second) :
    NotServedLate creds c t expiresIn := by
  intro calls call hlate hquiet token hserved
  unfold tokenReply at hserved
  rw [tokenRun_keeps calls hquiet] at hserved
  obtain ⟨-, -, hlive⟩ := (reply_cached_iff call).mp hserved
  omega

theorem servedEarly_iff (creds : String → Bytes) (htoken : c.token ≠ []) (t expiresIn : Int) :
    ServedEarly creds c c.token t expiresIn ↔
      ∀ now, InFirstHalf t expiresIn now → now < c.expAt := by
  constructor
  · intro h now hnow
    let call : TokenCall := ⟨now, fun _ => .failed []⟩
    have hserved := h [call] (by simpa [call] using hnow) [] call List.prefix_rfl
    exact ((reply_cached_iff call).mp hserved).2.2
  · intro h calls hcalls pre a hp
    have hmem : ∀ b ∈ pre ++ [a], b.now < c.expAt :=
      fun b hb => h b.now (hcalls b (hp.subset hb))
    have hpre : tokenRun creds c pre = c :=
      tokenRun_of_live htoken pre fun b hb => hmem b (List.mem_append_left _ hb)
    unfold tokenReply
    rw [hpre]
    exact (reply_cached_iff a).mpr ⟨rfl, htoken, hmem a (by simp)⟩

end OAuthTokenLemmas

open OAuthTokenLemmas in
/-- After the reception of a token with a positive `expires_in`, for every such reception
and every later calls: the token is not served from the end of its lifetime on, and is
served in the first half of the lifetime exactly if the lifetime is kept. -/
theorem oauth_window_iff (creds : String → Bytes) (c : OAuthCache) (call : TokenCall)
    (token : Bytes) (expiresIn t : Int) (h0 : 0 < expiresIn)
    (hreceives : Receives creds c call token expiresIn t) :
    let kept := (getOAuthToken creds c call).2
    (NotServedLate creds kept t expiresIn ∧ ServedEarly creds kept token t expiresIn) ↔
      LifetimeKept expiresIn := by
  intro kept
  obtain ⟨htoken, hkept⟩ := cache_of_receives hreceives
  have hlate : NotServedLate creds kept t expiresIn := by
    apply notServedLate_of_le
    have hle := deadline_le h0
    simp only [kept, hkept]
    omega
  have hearly : ServedEarly creds kept token t expiresIn ↔ LifetimeKept expiresIn := by
    have hserved := servedEarly_iff creds (c := ⟨token, t + tokenWindow expiresIn⟩) htoken t
      expiresIn
    simp only [kept, hkept]
    exact hserved.trans (first_half_iff h0 t)
  exact ⟨fun h => hearly.mp h.2, fun h => ⟨hlate, hearly.mpr h⟩⟩

/-- An endpoint that answers every request with the token `T` and its `expires_in`, at the
instant 0. -/
def steadyEndpoint (expiresIn : Int) : TokenRequest → TokenAnswer :=
  fun _ => .response ⟨200, [], .ok (chars "T", expiresIn), 0⟩

/-- A token of an hour. -/
theorem oauth_window_of_hour :
    let creds := fun _ => chars "x"
    let call : TokenCall := ⟨0, steadyEndpoint 3600⟩
    Receives creds ⟨[], 0⟩ call (chars "T") 3600 0 ∧
      ServedEarly creds (getOAuthToken creds ⟨[], 0⟩ call).2 (chars "T") 0 3600 := by
  intro creds call
  have hreceives : Receives creds ⟨[], 0⟩ call (chars "T") 3600 0 :=
    ⟨by decide, _, rfl, rfl, rfl⟩
  have h := oauth_window_iff creds ⟨[], 0⟩ call (chars "T") 3600 0 (by decide) hreceives
  exact ⟨hreceives, (h.mpr (.inl (by decide))).2⟩

/-- A server that sends the largest `int64` for a token that does not expire: the token is
fetched, and a call at the same instant is not answered from the cache. -/
theorem never_expiring_token_refetched :
    let creds := fun _ => chars "x"
    let call : TokenCall := ⟨0, steadyEndpoint maxDuration⟩
    Receives creds ⟨[], 0⟩ call (chars "T") maxDuration 0 ∧
      tokenReply creds ⟨[], 0⟩ [call] call = .fetched (chars "T") ∧
      ¬ ServedEarly creds (getOAuthToken creds ⟨[], 0⟩ call).2 (chars "T") 0 maxDuration := by
  intro creds call
  have hagain : tokenReply creds ⟨[], 0⟩ [call] call = .fetched (chars "T") := by decide
  refine ⟨⟨by decide, _, rfl, rfl, rfl⟩, hagain, fun h => ?_⟩
  have hearly : ∀ a ∈ [call], InFirstHalf 0 maxDuration a.now := by
    intro a ha
    rw [List.mem_singleton.mp ha]
    unfold InFirstHalf
    decide
  have hserved := h [call] hearly [] call List.prefix_rfl
  have hboth : TokenReply.fetched (chars "T") = .cached (chars "T") := hagain.symm.trans hserved
  cases hboth

end Forager
