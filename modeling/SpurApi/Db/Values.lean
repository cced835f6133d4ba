/-
What the columns of the tables hold.

A Python integer has no bound and a Python text may hold any character.  A column of type
`integer` holds 32 bits, and neither a text nor a JSON value holds the character 0.  A
statement with any other value is refused with a `DataError`, by asyncpg or by Postgres,
before it does anything.

Requests write what a client sent; a worker writes what a model makes of a spec and a target
that are stored, which is taken to fit.

Everything else is assumed to come back as it was stored.  Of a `JSONB` column that leaves out
one thing: it keeps a number as a decimal, so a float that JSON writes with an exponent can
come back as the integer it equals.
-/
import SpurApi.Basic
import SpurApi.Lib.Json

namespace SpurApi

/-- The largest value of a column of type `integer`. -/
def maxInteger : Int := 2147483647

/-- A column of type `integer` holds the number. -/
def holdsInteger (n : Int) : Bool := -maxInteger - 1 ≤ n && n ≤ maxInteger

/-- A text column holds the text. -/
def holdsText (s : String) : Bool := !s.toList.contains (Char.ofNat 0)

mutual

/-- A `JSONB` column holds the value. -/
def holdsJson : Json → Bool
  | .str s => holdsText s
  | .arr items => holdsItems items
  | .obj fields => holdsFields fields
  | _ => true

def holdsItems : List Json → Bool
  | [] => true
  | x :: xs => holdsJson x && holdsItems xs

def holdsFields : List (String × Json) → Bool
  | [] => true
  | (k, v) :: fs => holdsText k && holdsJson v && holdsFields fs

end

/-- What is raised for a value that its column does not hold. -/
def dataError : Exn := ⟨.other, "invalid input for query argument"⟩

end SpurApi
