/-
The text functions of Python that a request header goes through: `str.strip`,
`str.isascii` and `int`.

A text is its list of characters.  `int` reads an optional sign and decimal
digits, single underscores between digits allowed, with white space around them;
it refuses a text of more than `maxStrDigits` digits, as CPython does.  White space is
not quite the same to `int` as to `strip`: of the ASCII characters `int` knows only those
of C's `isspace`, so it refuses the separators 28 to 31.  A decimal digit is one of `0`
to `9`: these are the only ones among the Latin-1 characters, which is what a header is
decoded to.
-/
import Mathlib.Data.List.DropRight

namespace PyText

/-- `str.isspace` of one character. -/
def isSpace (c : Char) : Bool :=
  let n := c.toNat
  (9 ≤ n && n ≤ 13) || (28 ≤ n && n ≤ 32) || n == 0x85 || n == 0xA0 || n == 0x1680 ||
    (0x2000 ≤ n && n ≤ 0x200A) || n == 0x2028 || n == 0x2029 || n == 0x202F || n == 0x205F ||
    n == 0x3000

/-- `s.strip(...)`: the characters satisfying `p` are dropped at both ends. -/
def strip (p : Char → Bool) (s : List Char) : List Char := (s.dropWhile p).rdropWhile p

/-- `s.isascii()`. -/
def isAscii (s : List Char) : Bool := s.all fun c => c.toNat < 128

/-- `sys.int_info.default_max_str_digits`. -/
def maxStrDigits : Nat := 4300

/-- Digits with single underscores between them; `afterDigit` says what came before. -/
def digitsOk : (afterDigit : Bool) → List Char → Bool
  | afterDigit, [] => afterDigit
  | afterDigit, c :: cs =>
      if c.isDigit then digitsOk true cs else c == '_' && afterDigit && digitsOk false cs

/-- The number that unsigned decimal digits denote; `none` where `int` raises `ValueError`. -/
def natural (s : List Char) : Option Nat :=
  let digits := s.filter Char.isDigit
  if digitsOk false s && digits.length ≤ maxStrDigits then
    some (Nat.ofDigitChars 10 digits 0)
  else none

/-- What `int` skips at both ends. -/
def isIntSpace (c : Char) : Bool :=
  let n := c.toNat
  if n < 127 then (9 ≤ n && n ≤ 13) || n == 32 else isSpace c

/-- `int(s)`; `none` where it raises `ValueError`. -/
def int (s : List Char) : Option Int :=
  match strip isIntSpace s with
  | '+' :: ds => (natural ds).map Int.ofNat
  | '-' :: ds => (natural ds).map fun n => -Int.ofNat n
  | ds => (natural ds).map Int.ofNat

/-! ### Stripping what has nothing to strip -/

theorem strip_of_forall {p : Char → Bool} {s : List Char} (h : ∀ c ∈ s, p c = false) :
    strip p s = s := by
  have hl : s.dropWhile p = s := by
    cases s with
    | nil => rfl
    | cons c cs => simp [h c (by simp)]
  have hr : s.rdropWhile p = s := by
    cases s using List.reverseRecOn with
    | nil => rfl
    | append_singleton s c => exact List.rdropWhile_concat_neg _ _ _ (by simp [h c (by simp)])
  rw [strip, hl, hr]

/-- A text between two strippable characters is what stripping leaves of it. -/
theorem strip_surrounded {p : Char → Bool} {a b : Char} {s : List Char} (ha : p a = true)
    (hb : p b = true) (hs : s ≠ []) (h : ∀ c ∈ s, p c = false) :
    strip p (a :: (s ++ [b])) = s := by
  have hl : (a :: (s ++ [b])).dropWhile p = s ++ [b] := by
    rw [List.dropWhile_cons_of_pos ha]
    cases s with
    | nil => exact absurd rfl hs
    | cons c cs => simp [h c (by simp)]
  have hr : (s ++ [b]).rdropWhile p = s := by
    rw [List.rdropWhile_concat_pos _ _ _ hb]
    cases s using List.reverseRecOn with
    | nil => rfl
    | append_singleton s c => exact List.rdropWhile_concat_neg _ _ _ (by simp [h c (by simp)])
  rw [strip, hl, hr]

/-- What was stripped at the end is not touched by stripping the start. -/
private theorem dropWhile_rdropWhile {p : Char → Bool} {s : List Char}
    (h : s.dropWhile p = s) : (s.rdropWhile p).dropWhile p = s.rdropWhile p := by
  cases s with
  | nil => rfl
  | cons c cs =>
      have hc : ¬ p c := List.dropWhile_eq_self_iff.mp h (Nat.succ_pos _)
      cases hr : (c :: cs).rdropWhile p with
      | nil => rfl
      | cons d ds =>
          obtain ⟨t, ht⟩ := List.rdropWhile_prefix p (c :: cs)
          rw [hr, List.cons_append] at ht
          rw [List.dropWhile_cons_of_neg]
          rwa [(List.cons.inj ht).1]

/-- Stripping twice is stripping once. -/
theorem strip_strip (p : Char → Bool) (s : List Char) : strip p (strip p s) = strip p s := by
  have hstart : (strip p s).dropWhile p = strip p s :=
    dropWhile_rdropWhile (List.dropWhile_idempotent p s)
  rw [strip, hstart, strip, List.rdropWhile_idempotent]

/-! ### Plain decimal numbers are read back -/

theorem isSpace_digit {c : Char} (h : c.isDigit = true) : isSpace c = false := by
  have hc := Char.isDigit_iff_toNat.mp h
  simp only [show '0'.toNat = 48 from rfl, show '9'.toNat = 57 from rfl] at hc
  simp only [isSpace, Bool.or_eq_false_iff, Bool.and_eq_false_iff, decide_eq_false_iff_not,
    beq_eq_false_iff_ne]
  omega

/-- Whatever `int` skips, `strip` strips. -/
theorem isSpace_of_isIntSpace {c : Char} (h : isIntSpace c = true) : isSpace c = true := by
  simp only [isIntSpace] at h
  split at h
  · simp only [Bool.or_eq_true, Bool.and_eq_true, decide_eq_true_iff, beq_iff_eq] at h
    simp only [isSpace, Bool.or_eq_true, Bool.and_eq_true, decide_eq_true_iff, beq_iff_eq]
    omega
  · exact h

theorem isIntSpace_digit {c : Char} (h : c.isDigit = true) : isIntSpace c = false := by
  refine Bool.eq_false_iff.mpr fun hspace => ?_
  have hstripped := isSpace_of_isIntSpace hspace
  rw [isSpace_digit h] at hstripped
  cases hstripped

private theorem digitsOk_of_isDigit {s : List Char} (h : ∀ c ∈ s, c.isDigit = true) :
    ∀ afterDigit : Bool, (afterDigit = true ∨ s ≠ []) → digitsOk afterDigit s = true := by
  induction s with
  | nil => intro afterDigit ha; simpa [digitsOk] using ha
  | cons c cs ih =>
      intro afterDigit _
      rw [digitsOk, if_pos (h c (by simp))]
      exact ih (fun d hd => h d (by simp [hd])) true (Or.inl rfl)

/-- **The decimal digits of a number denote it**, as long as `int` takes that many. -/
theorem natural_toDigits {n : Nat} (hn : (Nat.toDigits 10 n).length ≤ maxStrDigits) :
    natural (Nat.toDigits 10 n) = some n := by
  have hdig : ∀ c ∈ Nat.toDigits 10 n, c.isDigit = true := fun c hc =>
    Nat.isDigit_of_mem_toDigits (by omega) (by omega) hc
  have hfilter : (Nat.toDigits 10 n).filter Char.isDigit = Nat.toDigits 10 n :=
    List.filter_eq_self.mpr hdig
  have hok : digitsOk false (Nat.toDigits 10 n) = true :=
    digitsOk_of_isDigit hdig false (Or.inr Nat.toDigits_ne_nil)
  simp only [natural, hfilter, hok, hn, decide_true, Bool.and_self, if_true,
    Nat.ofDigitChars_ten_toDigits]

theorem int_toDigits {n : Nat} (hn : (Nat.toDigits 10 n).length ≤ maxStrDigits) :
    int (Nat.toDigits 10 n) = some (n : Int) := by
  have hdig : ∀ c ∈ Nat.toDigits 10 n, c.isDigit = true := fun c hc =>
    Nat.isDigit_of_mem_toDigits (by omega) (by omega) hc
  rw [int, strip_of_forall fun c hc => isIntSpace_digit (hdig c hc)]
  have hnat := natural_toDigits hn
  split
  · rename_i ds heq
    have := hdig '+' (by rw [heq]; simp)
    exact absurd this (by decide)
  · rename_i ds heq
    have := hdig '-' (by rw [heq]; simp)
    exact absurd this (by decide)
  · rw [hnat]
    rfl

example : int [' ', '+', '1', '_', '0'] = some 10 := by decide

example : int ['1', Char.ofNat 28] = none := by decide

end PyText
