/-
The `If-Match` header of a save.
-/
import SpurApi.Exceptions
import SpurApi.Lib.PyText

namespace SpurApi

/-- `_version_from`: the version in an `If-Match` header, given bare or as a quoted ETag. -/
def versionFrom : Option HeaderValue → Except ApiError (Option Int)
  | none => .ok none
  | some ifMatch =>
      match PyText.int (PyText.strip (· == '"') (PyText.strip PyText.isSpace ifMatch.chars)) with
      | some n => .ok (some n)
      | none => .error .badVersion

/-- **Only an absent header is an unconditional save.** -/
theorem versionFrom_none_iff {ifMatch : Option HeaderValue} :
    versionFrom ifMatch = .ok none ↔ ifMatch = none := by
  cases ifMatch with
  | none => simp [versionFrom]
  | some h =>
      simp only [versionFrom, reduceCtorEq, iff_false]
      split <;> simp

/-- A header that is refused is answered with 400. -/
theorem versionFrom_error {ifMatch : Option HeaderValue} {e : ApiError}
    (h : versionFrom ifMatch = .error e) : e.status = 400 := by
  cases ifMatch with
  | none => simp [versionFrom] at h
  | some hd =>
      simp only [versionFrom] at h
      split at h
      · simp at h
      · simp only [Except.error.injEq] at h
        rw [← h]
        rfl

/-- A number written in decimal is a header value. -/
def bareVersion (n : Nat) : HeaderValue where
  chars := Nat.toDigits 10 n
  latin1 := fun c hc => by
    have hd := Char.isDigit_iff_toNat.mp (Nat.isDigit_of_mem_toDigits (by omega) (by omega) hc)
    simp only [show '9'.toNat = 57 from rfl] at hd
    omega

/-- And so is the same in double quotes. -/
def quotedVersion (n : Nat) : HeaderValue where
  chars := '"' :: (Nat.toDigits 10 n ++ ['"'])
  latin1 := fun c hc => by
    simp only [List.mem_cons, List.mem_append, List.not_mem_nil, or_false] at hc
    rcases hc with rfl | hc | rfl
    · decide
    · exact (bareVersion n).latin1 c hc
    · decide

private theorem digit_not_space {n : Nat} : ∀ c ∈ Nat.toDigits 10 n, PyText.isSpace c = false :=
  fun _ hc => PyText.isSpace_digit (Nat.isDigit_of_mem_toDigits (by omega) (by omega) hc)

private theorem digit_not_quote {n : Nat} : ∀ c ∈ Nat.toDigits 10 n, (c == '"') = false := by
  intro c hc
  have hd : c.isDigit = true := Nat.isDigit_of_mem_toDigits (by omega) (by omega) hc
  refine beq_eq_false_iff_ne.mpr ?_
  rintro rfl
  exact absurd hd (by decide)

theorem versionFrom_bare {n : Nat} (hn : (Nat.toDigits 10 n).length ≤ PyText.maxStrDigits) :
    versionFrom (some (bareVersion n)) = .ok (some (n : Int)) := by
  simp only [versionFrom, bareVersion]
  rw [PyText.strip_of_forall digit_not_space, PyText.strip_of_forall digit_not_quote,
    PyText.int_toDigits hn]

theorem versionFrom_quoted {n : Nat} (hn : (Nat.toDigits 10 n).length ≤ PyText.maxStrDigits) :
    versionFrom (some (quotedVersion n)) = .ok (some (n : Int)) := by
  have hspace : ∀ c ∈ '"' :: (Nat.toDigits 10 n ++ ['"']), PyText.isSpace c = false := by
    intro c hc
    simp only [List.mem_cons, List.mem_append, List.not_mem_nil, or_false] at hc
    rcases hc with rfl | hc | rfl
    · decide
    · exact digit_not_space c hc
    · decide
  simp only [versionFrom, quotedVersion]
  rw [PyText.strip_of_forall hspace,
    PyText.strip_surrounded (by decide) (by decide) Nat.toDigits_ne_nil digit_not_quote,
    PyText.int_toDigits hn]

end SpurApi
