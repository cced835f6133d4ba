/-
How an object-relational session writes a column back.

A session holds a copy of a row: the value each column had when it was loaded, and
the value assigned to it since.  A flush updates only the columns whose assigned
value differs from the loaded one, so a column nobody assigned keeps what is
stored, however old the copy is.  Several sessions holding copies of one row then
overwrite each other only in columns they both assign.

Values are compared as the language compares them.  Where equal values need not be the same,
a column that is assigned an equal value keeps the one it had.
-/
import Mathlib.Logic.Basic

namespace Column

section

variable {α : Type} (eq : α → α → Bool)

/-- The stored value after a flush of a copy loaded as `loaded` and now `assigned`, for a column
whose values are compared by `eq`. -/
def flushBy (loaded assigned stored : α) : α := if eq assigned loaded then stored else assigned

/-- The column keeps what is stored or takes what was assigned. -/
theorem flushBy_mem (loaded assigned stored : α) :
    flushBy eq loaded assigned stored = stored ∨ flushBy eq loaded assigned stored = assigned := by
  unfold flushBy
  split
  · exact .inl rfl
  · exact .inr rfl

/-- On a copy that is up to date the column ends with a value that equals the assigned one. -/
theorem eq_flushBy (hrefl : ∀ a, eq a a = true) (hsymm : ∀ a b, eq a b = true → eq b a = true)
    (loaded assigned : α) : eq (flushBy eq loaded assigned loaded) assigned = true := by
  unfold flushBy
  split
  · exact hsymm _ _ ‹_›
  · exact hrefl assigned

end

variable {α : Type} [DecidableEq α]

/-- The stored value after a flush of a copy loaded as `loaded` and now `assigned`. -/
def flush (loaded assigned stored : α) : α := if assigned = loaded then stored else assigned

/-- A column that was not assigned is not written. -/
@[simp] theorem flush_unassigned (loaded stored : α) : flush loaded loaded stored = stored :=
  if_pos rfl

/-- A column whose copy is up to date takes the assigned value. -/
theorem flush_current {loaded stored : α} (h : stored = loaded) (assigned : α) :
    flush loaded assigned stored = assigned := by
  unfold flush
  split
  · rename_i heq
    rw [h, heq]
  · rfl

/-- A flush either leaves the column or writes the assigned value. -/
theorem flush_cases (loaded assigned stored : α) :
    flush loaded assigned stored = stored ∨ flush loaded assigned stored = assigned := by
  unfold flush
  split
  · exact Or.inl rfl
  · exact Or.inr rfl

end Column
