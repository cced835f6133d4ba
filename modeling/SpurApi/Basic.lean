/-
What every module speaks of: identifiers, instants, header values, and the exceptions
that are raised or pass through.
-/
import Mathlib.Init

namespace SpurApi

/-- A UUID is its 128-bit number; Postgres orders UUIDs as these numbers. -/
abbrev Uuid := BitVec 128

/-- The text of a UUID: 32 hexadecimal digits in groups of 8, 4, 4, 4 and 12. -/
def Uuid.text (u : Uuid) : String :=
  let ds := u.toHex.toList
  String.ofList (ds.take 8 ++ '-' :: (ds.drop 8).take 4 ++ '-' :: (ds.drop 12).take 4 ++
    '-' :: (ds.drop 16).take 4 ++ '-' :: ds.drop 20)

/-- An instant, as a clock reads it. -/
abbrev Time := Nat

/-- A header's value: the server decodes its bytes as Latin-1. -/
structure HeaderValue where
  chars : List Char
  latin1 : ∀ c ∈ chars, c.toNat < 256

/-- The classes of exception that the code tells apart, or that its libraries raise at it. -/
inductive ExnKind
  | spurError
  | keyError
  | valueError
  | typeError
  | zeroDivisionError
  | attributeError
  | invalidProjectError
  | staleDataError
  | integrityError
  | invalidRequestError
  | pendingRollbackError
  | inputMismatchError
  | other
deriving DecidableEq, Repr

/-- An exception: its class and `str(e)`. -/
structure Exn where
  kind : ExnKind
  text : String
deriving DecidableEq, Repr

/-- What an `UPDATE` raises that matches no row. -/
def staleData (table : String) : Exn :=
  ⟨.staleDataError,
    s!"UPDATE statement on table '{table}' expected to update 1 row(s); 0 were matched."⟩

/-- What an insert raises that refers to a row which is not there. -/
def missingReference (table : String) : Exn :=
  ⟨.integrityError, s!"insert or update on table \"{table}\" violates foreign key constraint"⟩

/-- What an insert raises that meets an entry of a unique index. -/
def duplicateKey (index : String) : Exn :=
  ⟨.integrityError, s!"duplicate key value violates unique constraint \"{index}\""⟩

end SpurApi
