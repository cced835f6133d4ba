/-
When two specs give a simulation the same inputs.

`SameInputs` is the comparison the service makes of two specs, section by section,
stated as a relation.  A chain of saves that each change nothing by this comparison
changes nothing from its first spec to its last, so the relation has to be
transitive, and reflexive for the empty chain.  Both come from Python's `==`, once
dropping nulls is known to keep keys distinct.
-/
import SpurApi.Services.Projects

namespace SpurApi

/-! ### Dropping nulls keeps keys distinct -/

theorem withoutNullsFields_keys (fs : List (String × Json)) :
    ((withoutNullsFields fs).map Prod.fst).Sublist (fs.map Prod.fst) := by
  induction fs with
  | nil => exact List.Sublist.refl _
  | cons kv fs ih =>
      obtain ⟨k, v⟩ := kv
      cases v with
      | null => exact ih.cons k
      | _ => exact ih.cons_cons k

private theorem withoutNullsItems_distinct {xs : List Json}
    (h : ∀ x ∈ xs, (withoutNulls x).distinctKeys = true) :
    ∀ y ∈ withoutNullsItems xs, y.distinctKeys = true := by
  induction xs with
  | nil => simp [withoutNullsItems]
  | cons x xs ih =>
      rw [withoutNullsItems, List.forall_mem_cons]
      exact ⟨h x (by simp), ih fun y hy => h y (by simp [hy])⟩

private theorem withoutNullsFields_distinct {fs : List (String × Json)}
    (h : ∀ kv ∈ fs, (withoutNulls kv.2).distinctKeys = true) :
    ∀ kv ∈ withoutNullsFields fs, kv.2.distinctKeys = true := by
  induction fs with
  | nil => simp [withoutNullsFields]
  | cons kv fs ih =>
      obtain ⟨k, v⟩ := kv
      have hv := h (k, v) (by simp)
      have hrest := ih fun kv hkv => h kv (by simp [hkv])
      cases v with
      | null => exact hrest
      | _ =>
          rw [withoutNullsFields, List.forall_mem_cons]
          · exact ⟨hv, hrest⟩
          · simp

theorem withoutNulls_distinctKeys :
    ∀ j : Json, j.distinctKeys = true → (withoutNulls j).distinctKeys = true := by
  refine Json.induct (fun h => h) (fun _ h => h) (fun _ h => h) (fun _ h => h) (fun _ h => h)
    ?_ ?_
  · intro xs ih hd
    rw [Json.distinctKeys_arr] at hd
    rw [withoutNulls, Json.distinctKeys_arr]
    exact withoutNullsItems_distinct fun x hx => ih x hx (hd x hx)
  · intro fs ih hd
    rw [Json.distinctKeys_obj] at hd
    rw [withoutNulls, Json.distinctKeys_obj]
    exact ⟨hd.1.sublist (withoutNullsFields_keys fs),
      withoutNullsFields_distinct fun kv hkv => ih kv hkv (hd.2 kv hkv)⟩

/-! ### The same inputs -/

/-- The four sections are equal by Python's `==` once null-valued keys are dropped. -/
def SameInputs (old new : Json.Object) : Prop :=
  ∀ s ∈ simulationInputs, (withoutNulls (old.get s)).pyEq (withoutNulls (new.get s)) = true

theorem inputsDiffer_eq_false_iff {old new : Json.Object} :
    inputsDiffer old new = false ↔ SameInputs old new := by
  simp only [inputsDiffer, SameInputs, List.any_eq_false, Bool.not_eq_true', Bool.not_eq_false]

theorem SameInputs.refl (spec : Json.Object) : SameInputs spec spec := fun s _ =>
  Json.pyEq_refl _ (withoutNulls_distinctKeys _ (spec.distinctKeys_get s))

theorem SameInputs.symm {a b : Json.Object} (h : SameInputs a b) : SameInputs b a := fun s hs =>
  Json.pyEq_symm _ _ (withoutNulls_distinctKeys _ (a.distinctKeys_get s))
    (withoutNulls_distinctKeys _ (b.distinctKeys_get s)) (h s hs)

theorem SameInputs.trans {a b c : Json.Object} (hab : SameInputs a b) (hbc : SameInputs b c) :
    SameInputs a c := fun s hs => Json.pyEq_trans _ _ _ (hab s hs) (hbc s hs)

end SpurApi
