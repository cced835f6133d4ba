/-
JSON values up to null-valued keys.

`UpToNulls` is the smallest congruence that contains Python's `==` and lets a key with
the value null be put into an object or taken out of it.  A congruence acts on one item
of an array, or on the value of one key, at a time; that it acts on all of them at once
follows by changing one after the other.

Objects bind each key once.  The constructors keep it so, and transitivity asks it of
the value in the middle, about which the two ends say nothing.
-/
import SpurApi.Lib.Json

namespace Json

/-- Two values are related when they differ in null-valued keys only. -/
inductive UpToNulls : Json → Json → Prop
  | equal {a b : Json} (h : pyEq a b = true) : UpToNulls a b
  /-- a key with the value null is put in at any place -/
  | nullKey {fs gs : List (String × Json)} {k : String} (hk : k ∉ (fs ++ gs).map Prod.fst) :
      UpToNulls (.obj (fs ++ gs)) (.obj (fs ++ (k, .null) :: gs))
  | item {xs ys : List Json} {x y : Json} (h : UpToNulls x y) :
      UpToNulls (.arr (xs ++ x :: ys)) (.arr (xs ++ y :: ys))
  | value {fs gs : List (String × Json)} {k : String} {v w : Json} (h : UpToNulls v w) :
      UpToNulls (.obj (fs ++ (k, v) :: gs)) (.obj (fs ++ (k, w) :: gs))
  | symm {a b : Json} (h : UpToNulls a b) : UpToNulls b a
  | trans {a b c : Json} (hb : b.distinctKeys = true) (h : UpToNulls a b) (h' : UpToNulls b c) :
      UpToNulls a c

namespace UpToNulls

theorem refl {a : Json} (h : a.distinctKeys = true) : UpToNulls a a := .equal (pyEq_refl a h)

/-- Items are changed one after the other. -/
theorem items {xs ys : List Json} (hys : ∀ y ∈ ys, y.distinctKeys = true)
    (h : List.Forall₂ UpToNulls xs ys) :
    ∀ before : List Json, (∀ x ∈ before ++ xs, x.distinctKeys = true) →
      UpToNulls (.arr (before ++ xs)) (.arr (before ++ ys)) := by
  induction h with
  | nil =>
      intro before hdistinct
      exact refl (distinctKeys_arr.mpr hdistinct)
  | @cons x y xs ys hxy _ ih =>
      intro before hdistinct
      have hmiddle : ∀ z ∈ before ++ y :: xs, z.distinctKeys = true := by
        intro z hz
        rcases List.mem_append.mp hz with hz | hz
        · exact hdistinct z (List.mem_append_left _ hz)
        · rcases List.mem_cons.mp hz with rfl | hz
          · exact hys z (by simp)
          · exact hdistinct z (by simp [hz])
      have hrest := ih (fun z hz => hys z (by simp [hz])) (before ++ [y]) (by simpa using hmiddle)
      rw [List.append_assoc, List.append_assoc] at hrest
      exact .trans (distinctKeys_arr.mpr hmiddle) (.item hxy) hrest

end UpToNulls

end Json
