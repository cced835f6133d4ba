/-
Families of depth one.

A store has members, each on its own or below one other member.  It is flat when whoever
stands above somebody stands on its own.  A member is added once, below a member that stands
on its own or below none, and when a member is removed those below it come to stand on their
own.  The store stays flat under both, since nobody who is there ever comes to stand below
somebody.
-/
import Mathlib.Logic.Function.Basic
import Mathlib.Logic.Relation

namespace Family

variable {α : Type} [DecidableEq α]

/-- `none` for who is not there, `some none` for who stands on its own, and `some (some b)` for
who stands below `b`. -/
abbrev Store (α : Type) := α → Option (Option α)

/-- Who stands above somebody is there and stands on its own. -/
def Flat (f : Store α) : Prop := ∀ a b, f a = some (some b) → f b = some none

/-- `a` stands below `b`. -/
def Below (f : Store α) (a b : α) : Prop := f a = some (some b)

omit [DecidableEq α] in
/-- In a flat store nobody stands further below than one step. -/
theorem Flat.transGen_iff {f : Store α} (h : Flat f) {a b : α} :
    Relation.TransGen (Below f) a b ↔ Below f a b := by
  refine ⟨fun hpath => ?_, .single⟩
  induction hpath with
  | single hbelow => exact hbelow
  | @tail b c _ hbelow ih =>
      have hself : f b = some none := h a b ih
      rw [Below, hself] at hbelow
      simp at hbelow

/-- The store without `b`. -/
def without (f : Store α) (b : α) : Store α := fun a =>
  if a = b then none else (f a).map fun base => if base = some b then none else base

/-- What happens to a store. -/
inductive Move (f g : Store α) : Prop
  | same (h : g = f)
  | add {a : α} {base : Option α} (hfresh : f a = none)
      (hbase : ∀ b, base = some b → f b = some none) (h : g = Function.update f a (some base))
  | remove {b : α} (h : g = without f b)

/-- **A move keeps the store flat.** -/
theorem Flat.move {f g : Store α} (h : Flat f) (hmove : Move f g) : Flat g := by
  intro a b hab
  cases hmove with
  | same hsame =>
      rw [hsame] at hab ⊢
      exact h a b hab
  | @add c base hfresh hbase hadd =>
      rw [hadd] at hab ⊢
      have hb : f b = some none := by
        by_cases hc : a = c
        · subst hc
          rw [Function.update_self, Option.some.injEq] at hab
          exact hbase b hab
        · rw [Function.update_of_ne hc] at hab
          exact h a b hab
      have hne : b ≠ c := by
        rintro rfl
        simp [hfresh] at hb
      rw [Function.update_of_ne hne, hb]
  | @remove c hremove =>
      rw [hremove, without] at hab ⊢
      split at hab
      · simp at hab
      · obtain ⟨base, hbase, hkept⟩ := Option.map_eq_some_iff.mp hab
        split at hkept
        · simp at hkept
        · rename_i hne
          subst hkept
          have hbc : b ≠ c := fun heq => hne (heq ▸ rfl)
          simp [hbc, h a b hbase]

/-- What becomes of a member that stays: it keeps its place, or who stood above it is gone. -/
theorem Move.kept {f g : Store α} (hflat : Flat f) (hmove : Move f g) {a : α}
    {base base' : Option α} (ha : f a = some base) (ha' : g a = some base') :
    (base' = base ∧ ∀ b, base = some b → g b ≠ none) ∨
      ∃ b, base = some b ∧ f b ≠ none ∧ g b = none ∧ base' = none := by
  have habove : ∀ b, base = some b → f b = some none := fun b hb => hflat a b (hb ▸ ha)
  cases hmove with
  | same hsame =>
      rw [hsame, ha, Option.some.injEq] at ha'
      exact .inl ⟨ha'.symm, fun b hb => by simp [hsame, habove b hb]⟩
  | @add c _ hfresh _ hadd =>
      have hne : ∀ {b x}, f b = some x → b ≠ c := by
        rintro b x hb rfl
        simp [hfresh] at hb
      rw [hadd, Function.update_of_ne (hne ha), ha, Option.some.injEq] at ha'
      refine .inl ⟨ha'.symm, fun b hb => ?_⟩
      rw [hadd, Function.update_of_ne (hne (habove b hb)), habove b hb]
      simp
  | @remove c hremove =>
      rw [hremove, without] at ha'
      split at ha'
      · simp at ha'
      · rw [ha, Option.map_some, Option.some.injEq] at ha'
        split at ha'
        · rename_i hc
          exact .inr ⟨c, hc, by simp [habove c hc], by simp [hremove, without], ha'.symm⟩
        · rename_i hc
          refine .inl ⟨ha'.symm, fun b hb => ?_⟩
          have hbc : b ≠ c := fun heq => hc (heq ▸ hb)
          simp [hremove, without, hbc, habove b hb]

/-- Who stands on its own does so for good. -/
theorem Move.alone {f g : Store α} (hflat : Flat f) (hmove : Move f g) {a : α}
    (ha : f a = some none) : g a = some none ∨ g a = none := by
  cases ha' : g a with
  | none => exact .inr rfl
  | some base' =>
      rcases hmove.kept hflat ha ha' with ⟨rfl, -⟩ | ⟨b, hb, -⟩
      · exact .inl rfl
      · simp at hb

end Family
