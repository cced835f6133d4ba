/-
Which headers authentication answers.

With authentication on, a request is to be admitted or refused with 401, whatever its
header holds.  The comparison of the token with the keys is partial: it raises at a text
that is not ASCII, and a header may hold any character of Latin-1.  `comparable` says
exactly when no comparison raises, and `anyM_compareDigest` what the loop over the keys
comes to in either case; all that is promised follows the first one.
-/
import SpurApi.Auth

namespace SpurApi

variable {keys : List (List Char)} {token : List Char} {authorization : Option HeaderValue}

/-! ### Comparing a token with the keys -/

/-- No comparison on the way to the first key that equals the token raises. -/
def comparable (token : List Char) (keys : List (List Char)) : Bool :=
  keys.isEmpty ||
    (PyText.isAscii token && (keys.takeWhile fun k => k != token).all PyText.isAscii)

/-- **The loop decides membership where it can compare, and raises where it cannot.** -/
theorem anyM_compareDigest (token : List Char) (keys : List (List Char)) :
    keys.anyM (compareDigest token) =
      if comparable token keys then .ok (decide (token ∈ keys)) else .error notAscii := by
  induction keys with
  | nil => rfl
  | cons k ks ih =>
      rw [List.anyM]
      by_cases hboth : PyText.isAscii token = true ∧ PyText.isAscii k = true
      · have hcompare : compareDigest token k = .ok (token == k) := by
          simp [compareDigest, hboth]
        rw [hcompare]
        by_cases heq : token = k
        · subst heq
          have hok : comparable token (token :: ks) = true := by simp [comparable, hboth]
          rw [hok, beq_self_eq_true]
          simp [bind, Except.bind, pure, Except.pure]
        · -- the loop goes on, with nothing to fear from this key
          have hsame : comparable token (k :: ks) = comparable token ks := by
            cases ks <;> simp [comparable, hboth, Ne.symm heq]
          have hmem : decide (token ∈ k :: ks) = decide (token ∈ ks) := by simp [heq]
          rw [hsame, hmem, ← ih, beq_false_of_ne heq]
          rfl
      · have hcompare : compareDigest token k = .error notAscii := by
          simp [compareDigest, hboth]
        -- were the key equal to the token, both would be ASCII or neither
        have hnot : comparable token (k :: ks) = false := by
          by_cases htoken : PyText.isAscii token = true
          · have hne : k ≠ token := by
              rintro rfl
              exact hboth ⟨htoken, htoken⟩
            have hk : PyText.isAscii k = false := by simpa [htoken] using hboth
            simp [comparable, hne, htoken, hk]
          · simp [comparable, htoken]
        rw [hcompare, hnot]
        rfl

/-! ### The headers that are answered -/

/-- A bearer header, and what is left of it without the scheme and the white space around. -/
def IsBearer (authorization : Option HeaderValue) (token : List Char) : Prop :=
  ∃ header rest, authorization = some header ∧ header.chars = bearer ++ rest ∧
    token = PyText.strip PyText.isSpace rest

theorem IsBearer.unique {token' : List Char} (h : IsBearer authorization token)
    (h' : IsBearer authorization token') : token = token' := by
  obtain ⟨header, rest, hheader, hchars, rfl⟩ := h
  obtain ⟨header', rest', hheader', hchars', rfl⟩ := h'
  rw [hheader, Option.some.injEq] at hheader'
  subst hheader'
  rw [hchars, List.append_right_inj] at hchars'
  rw [hchars']

theorem currentPrincipal_of_bearer (h : IsBearer authorization token) :
    currentPrincipal ⟨true, keys⟩ authorization =
      if comparable token keys then
        if token ∈ keys then .ok ⟨keyFingerprint token⟩
        else .error (.httpException 401 "Invalid API key")
      else .error (.unhandled notAscii) := by
  obtain ⟨header, rest, rfl, hchars, rfl⟩ := h
  have hstarts : bearer.isPrefixOf header.chars = true := by
    rw [hchars, List.isPrefixOf_iff_prefix]
    exact List.prefix_append ..
  have hdrop : header.chars.drop bearer.length = rest := by
    rw [hchars, List.drop_left]
  unfold currentPrincipal
  simp only [hstarts, hdrop, anyM_compareDigest, Bool.not_true, Bool.false_eq_true, if_false]
  cases comparable (PyText.strip PyText.isSpace rest) keys with
  | false => rfl
  | true =>
      by_cases hmem : PyText.strip PyText.isSpace rest ∈ keys
      · simp [hmem]
      · simp [hmem]

theorem currentPrincipal_of_not_bearer (h : ∀ token, ¬ IsBearer authorization token) :
    currentPrincipal ⟨true, keys⟩ authorization =
      .error (.httpException 401 "Missing or malformed Authorization header") := by
  unfold currentPrincipal
  cases authorization with
  | none => rfl
  | some header =>
      have hstarts : bearer.isPrefixOf header.chars = false := by
        rw [← Bool.not_eq_true, List.isPrefixOf_iff_prefix]
        rintro ⟨rest, hrest⟩
        exact h _ ⟨header, rest, rfl, hrest.symm, rfl⟩
      simp [hstarts]

/-- Whoever is admitted is known by the fingerprint of the token. -/
theorem eq_of_admitted {principal : StaticPrincipal}
    (h : currentPrincipal ⟨true, keys⟩ authorization = .ok principal)
    (hbearer : IsBearer authorization token) : principal = ⟨keyFingerprint token⟩ := by
  rw [currentPrincipal_of_bearer hbearer] at h
  split at h
  · split at h
    · exact (Except.ok.inj h).symm
    · simp at h
  · simp at h

/-- Where no comparison raises, a request is admitted by a key or refused with 401. -/
theorem admitted_or_refused
    (h : ∀ token, IsBearer authorization token → comparable token keys = true) :
    (∃ token ∈ keys, IsBearer authorization token ∧
        currentPrincipal ⟨true, keys⟩ authorization = .ok ⟨keyFingerprint token⟩) ∨
      (∀ token ∈ keys, ¬ IsBearer authorization token) ∧
        ∃ detail, currentPrincipal ⟨true, keys⟩ authorization =
          .error (.httpException 401 detail) := by
  by_cases hexists : ∃ token, IsBearer authorization token
  · obtain ⟨token, hbearer⟩ := hexists
    have hanswer : currentPrincipal ⟨true, keys⟩ authorization = _ :=
      currentPrincipal_of_bearer hbearer
    rw [if_pos (h token hbearer)] at hanswer
    by_cases hmem : token ∈ keys
    · rw [if_pos hmem] at hanswer
      exact .inl ⟨token, hmem, hbearer, hanswer⟩
    · rw [if_neg hmem] at hanswer
      refine .inr ⟨fun token' hmem' hbearer' => hmem ?_, _, hanswer⟩
      rw [hbearer.unique hbearer']
      exact hmem'
  · rw [not_exists] at hexists
    exact .inr ⟨fun token _ => hexists token, _, currentPrincipal_of_not_bearer hexists⟩

/-- What is promised of a request with this header, where these keys are configured. -/
structure Authenticates (keys : List (List Char)) (authorization : Option HeaderValue) :
    Prop where
  /-- it is refused with 401 -/
  refused : ∀ e, currentPrincipal ⟨true, keys⟩ authorization = .error e →
    ∃ detail, e = .httpException 401 detail
  /-- or admitted, for a bearer header with a key -/
  admitted : (∃ principal, currentPrincipal ⟨true, keys⟩ authorization = .ok principal) ↔
    ∃ token ∈ keys, IsBearer authorization token
  identified : ∀ principal token, currentPrincipal ⟨true, keys⟩ authorization = .ok principal →
    IsBearer authorization token → principal.id = keyFingerprint token
  /-- as is any other request with that key -/
  padded : ∀ authorization' token principal principal',
    currentPrincipal ⟨true, keys⟩ authorization = .ok principal →
    currentPrincipal ⟨true, keys⟩ authorization' = .ok principal' →
    IsBearer authorization token → IsBearer authorization' token → principal = principal'

/-- **Authentication keeps its promise exactly where no comparison raises**: the header is no
bearer header, or no key is configured, or the token is ASCII and so is every key in front of the
first one that equals it. -/
theorem authenticates_iff (keys : List (List Char)) (authorization : Option HeaderValue) :
    Authenticates keys authorization ↔
      ∀ token, IsBearer authorization token → comparable token keys = true := by
  constructor
  · intro h token hbearer
    by_contra hraises
    obtain ⟨detail, hdetail⟩ := h.refused (.unhandled notAscii) (by
      rw [currentPrincipal_of_bearer hbearer, if_neg hraises])
    simp at hdetail
  · intro hcomparable
    have hanswer := admitted_or_refused hcomparable
    refine ⟨?_, ?_, ?_, ?_⟩
    · intro e he
      rcases hanswer with ⟨token, -, -, hok⟩ | ⟨-, detail, herror⟩
      · simp [hok] at he
      · rw [herror] at he
        exact ⟨detail, (Except.error.inj he).symm⟩
    · constructor
      · rintro ⟨principal, hprincipal⟩
        rcases hanswer with ⟨token, hmem, hbearer, -⟩ | ⟨-, detail, herror⟩
        · exact ⟨token, hmem, hbearer⟩
        · simp [herror] at hprincipal
      · rintro ⟨token, hmem, hbearer⟩
        rcases hanswer with ⟨token', -, -, hok⟩ | ⟨hnone, -⟩
        · exact ⟨_, hok⟩
        · exact absurd hbearer (hnone token hmem)
    · intro principal token hprincipal hbearer
      rw [eq_of_admitted hprincipal hbearer]
    · intro authorization' token principal principal' hprincipal hprincipal' hbearer hbearer'
      rw [eq_of_admitted hprincipal hbearer, eq_of_admitted hprincipal' hbearer']

/-- `Bearer é`: a header whose token is one Latin-1 character outside ASCII. -/
def accented : HeaderValue where
  chars := bearer ++ ['é']
  latin1 := by simp [bearer]

/-- **A wrong key that is not ASCII is not refused with 401**: comparing it raises. -/
theorem accented_key_raises : ¬ Authenticates [['k', 'e', 'y']] (some accented) := by
  intro h
  have hraises : currentPrincipal ⟨true, [['k', 'e', 'y']]⟩ (some accented) =
      .error (.unhandled notAscii) := by rfl
  obtain ⟨detail, hdetail⟩ := h.refused _ hraises
  simp at hdetail

end SpurApi
