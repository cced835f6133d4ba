/-
Reading the bodies of the run requests: `RunCreate` and `RunUpdate`.

Every field is read by itself, and the errors of all fields are reported together.  How
pydantic reads an integer is a parameter: it takes more than JSON integers.  What is
accepted carries its bounds in its type, so a `RunCreate` cannot be built from anything
else.
-/
import SpurApi.Lib.Json
import SpurApi.Lib.PyText
import SpurApi.Schemas.Run

namespace SpurApi

/-- `MAX_RUN_NAME_LENGTH` -/
def maxRunNameLength : Nat := 200

/-- A check that a value fails. -/
inductive FieldCheck
  | missing
  | notAnObject
  /-- what pydantic says of a value that it does not read as an integer -/
  | notAnInt (type : String)
  | greaterThanEqual (bound : Int)
  | lessThanEqual (bound : Int)
  | notAString
  | stringTooLong (maxLength : Nat)
  | valueError (text : String)
deriving DecidableEq

/-- One error of a request that is answered with 422: where, and which check failed. -/
structure FieldError where
  loc : List String
  check : FieldCheck
deriving DecidableEq

/-- How pydantic reads an integer from a value. -/
abbrev ReadInt := Json → Except FieldCheck Int

/-- Whatever else it reads, an integer is read as itself. -/
def ReadInt.Law (readInt : ReadInt) : Prop := ∀ n, readInt (.int n) = .ok n

/-- Only integers are integers. -/
def strictInt : ReadInt
  | .int n => .ok n
  | _ => .error (.notAnInt "int_type")

theorem strictInt_law : ReadInt.Law strictInt := fun _ => rfl

/-- `Field(ge=lo, le=hi)` -/
def boundedInt (readInt : ReadInt) (lo hi : Int) (v : Json) :
    Except FieldCheck { n : Int // lo ≤ n ∧ n ≤ hi } :=
  match readInt v with
  | .error e => .error e
  | .ok n =>
      if hhi : n ≤ hi then
        if hlo : lo ≤ n then .ok ⟨n, hlo, hhi⟩ else .error (.greaterThanEqual lo)
      else .error (.lessThanEqual hi)

/-- A field that may be null, and may be left out. -/
def optionalField {α : Type} (read : Json → Except FieldCheck α) :
    Option Json → Except FieldCheck (Option α)
  | none | some .null => .ok none
  | some v => (read v).map some

/-- A field that may be left out, but not be null. -/
def defaultField {α : Type} (value : α) (read : Json → Except FieldCheck α) :
    Option Json → Except FieldCheck α
  | none => .ok value
  | some v => read v

/-- `RunName`: a text is trimmed first (`_blank_is_none`), and nothing left of it is no name. -/
def runName : Json → Except FieldCheck (Option String)
  | .null => .ok none
  | .str s =>
      let trimmed := PyText.strip PyText.isSpace s.toList
      if trimmed.isEmpty then .ok none
      else if trimmed.length ≤ maxRunNameLength then .ok (some (String.ofList trimmed))
      else .error (.stringTooLong maxRunNameLength)
  | _ => .error .notAString

/-- A field of a body. -/
def bodyField {α : Type} (d : Json.Object) (name : String)
    (read : Option Json → Except FieldCheck α) : Except FieldError α :=
  match read (d.fields.lookup name) with
  | .ok a => .ok a
  | .error check => .error ⟨["body", name], check⟩

/-- The error of a field, if it has one. -/
def fieldErrors {α : Type} : Except FieldError α → List FieldError
  | .ok _ => []
  | .error e => [e]

/-- `_seeds_fit` -/
def seedsFit (seed : Option { n : Int // 0 ≤ n ∧ n ≤ maxSeed })
    (seeds : { n : Int // 1 ≤ n ∧ n ≤ (maxSeeds : Int) }) : Bool :=
  seed.all fun s => s.1 + seeds.1 - 1 ≤ maxSeed

theorem seedsFit_iff {seed : Option { n : Int // 0 ≤ n ∧ n ≤ maxSeed }}
    {seeds : { n : Int // 1 ≤ n ∧ n ≤ (maxSeeds : Int) }} :
    seedsFit seed seeds = true ↔ ∀ s ∈ seed, s.1 + seeds.1 - 1 ≤ maxSeed := by
  cases seed <;> simp [seedsFit]

/-- The error of `_seeds_fit`. -/
def seedsDoNotFit (seeds : Int) : FieldError :=
  ⟨["body"], .valueError s!"Value error, seed is too large to count {seeds} seeds up from it"⟩

/-- A `RunCreate` of fields that were read. -/
def RunCreate.ofFields (untilTime chunkSize : Option Int)
    (seed : Option { n : Int // 0 ≤ n ∧ n ≤ maxSeed })
    (seeds : { n : Int // 1 ≤ n ∧ n ≤ (maxSeeds : Int) }) (name : Option String)
    (h : seedsFit seed seeds = true) : RunCreate where
  untilTime := untilTime
  chunkSize := chunkSize
  seed := seed.map Subtype.val
  seeds := seeds.1.toNat
  name := name
  seed_range := by
    intro s hs
    obtain ⟨n, -, rfl⟩ := Option.map_eq_some_iff.mp hs
    exact n.2
  seeds_range := by
    have := seeds.2
    omega
  seeds_fit := by
    intro s hs
    obtain ⟨n, hn, rfl⟩ := Option.map_eq_some_iff.mp hs
    have hfit := seedsFit_iff.mp h n hn
    have := seeds.2
    omega

/-- `RunCreate`, read from the object that was sent. -/
def RunCreate.ofObject (readInt : ReadInt) (d : Json.Object) :
    Except (List FieldError) RunCreate :=
  let untilTime := bodyField d "until" (optionalField readInt)
  let chunkSize := bodyField d "chunk_size" (optionalField readInt)
  let seed := bodyField d "seed" (optionalField (boundedInt readInt 0 maxSeed))
  let seeds := bodyField d "seeds" (defaultField ⟨1, by decide⟩ (boundedInt readInt 1 maxSeeds))
  let name := bodyField d "name" (defaultField none runName)
  match untilTime, chunkSize, seed, seeds, name with
  | .ok untilTime, .ok chunkSize, .ok seed, .ok seeds, .ok name =>
      if h : seedsFit seed seeds = true then
        .ok (.ofFields untilTime chunkSize seed seeds name h)
      else .error [seedsDoNotFit seeds.1]
  | _, _, _, _, _ =>
      .error (fieldErrors untilTime ++ fieldErrors chunkSize ++ fieldErrors seed ++
        fieldErrors seeds ++ fieldErrors name)

/-- `RunUpdate`, read from the object that was sent: the name has to be there. -/
def runUpdate (d : Json.Object) : Except (List FieldError) (Option String) :=
  match bodyField d "name" fun v => (v.elim (.error .missing) runName) with
  | .ok name => .ok name
  | .error e => .error [e]

end SpurApi
