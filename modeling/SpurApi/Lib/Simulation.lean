/-
Machines that show the same at different paces.

A view shows something of an entry or nothing.  A machine mirrors another when each
step of that one is matched by an execution that shows the same: a step that shows
nothing may be matched by no step at all, and one step by several.  Two machines that
mirror each other show the same histories.

What a history shows determines it when the view shows the actions; `rename` is for
actions that differ in what the machine does not look at.
-/
import SpurApi.Lib.Transition

namespace Transition

variable {σ τ α β ω : Type}

/-- What an execution shows. -/
def shown (view : Entry σ α → Option ω) (tr : List (Entry σ α)) : List ω := tr.filterMap view

section

variable (view : Entry σ α → Option ω)

@[simp] theorem shown_nil : shown view ([] : List (Entry σ α)) = [] := rfl

@[simp] theorem shown_append (tr tr' : List (Entry σ α)) :
    shown view (tr ++ tr') = shown view tr ++ shown view tr' := List.filterMap_append

@[simp] theorem shown_single (e : Entry σ α) : shown view [e] = (view e).toList := by
  cases h : view e <;> simp [shown, h]

end

/-! ### Mirroring a machine -/

/-- `M` mirrors `N` along `R`: it has an execution for each step of `N` that shows the same. -/
def Mirrors (M : Machine σ α) (N : Machine τ β) (R : σ → τ → Prop)
    (view : Entry σ α → Option ω) (view' : Entry τ β → Option ω) : Prop :=
  ∀ {s t b t'}, R s t → N.step t b = some t' →
    ∃ tr s', Exec M s tr s' ∧ R s' t' ∧ shown view tr = (view' ⟨t, b, t'⟩).toList

/-- Then it has one for each execution. -/
theorem Mirrors.exec {M : Machine σ α} {N : Machine τ β} {R : σ → τ → Prop}
    {view : Entry σ α → Option ω} {view' : Entry τ β → Option ω}
    (hmirrors : Mirrors M N R view view') {s : σ} {t t' : τ} {tr' : List (Entry τ β)} (hR : R s t)
    (h : Exec N t tr' t') :
    ∃ tr s', Exec M s tr s' ∧ R s' t' ∧ shown view tr = shown view' tr' := by
  induction h with
  | nil => exact ⟨[], s, Exec.nil, hR, rfl⟩
  | @snoc tr' u u' b _ hstep ih =>
      obtain ⟨tr₁, s₁, hexec₁, hR₁, hshown₁⟩ := ih
      obtain ⟨tr₂, s₂, hexec₂, hR₂, hshown₂⟩ := hmirrors hR₁ hstep
      refine ⟨tr₁ ++ tr₂, s₂, hexec₁.append hexec₂, hR₂, ?_⟩
      rw [shown_append, shown_append, shown_single, hshown₁, hshown₂]

/-! ### Executions with the same actions -/

section

variable {M : Machine σ α} {s₀ s s' : σ} {tr tr' : List (Entry σ α)}

/-- The actions determine an execution. -/
theorem Exec.determined (h : Exec M s₀ tr s) :
    ∀ {tr' s'}, Exec M s₀ tr' s' → tr.map Entry.act = tr'.map Entry.act → tr = tr' ∧ s = s' := by
  induction h with
  | nil =>
      intro tr' s' h' hacts
      obtain rfl : tr' = [] := List.map_eq_nil_iff.mp hacts.symm
      exact ⟨rfl, h'.nil_inv.symm⟩
  | @snoc tr s s₁ a _ hstep ih =>
      intro tr' s' h' hacts
      rw [List.map_append] at hacts
      obtain ⟨tr₁, tr₂, rfl, hacts₁, hacts₂⟩ := List.map_eq_append_iff.mp hacts.symm
      obtain ⟨e, rfl, hact⟩ := List.map_eq_singleton_iff.mp hacts₂
      obtain ⟨h₁, hstep', rfl⟩ := h'.snoc_inv
      obtain ⟨rfl, rfl⟩ := ih h₁ hacts₁.symm
      have hpost : some s₁ = some e.post := by
        rw [← hstep, ← hstep']
        exact congrArg (M.step e.pre) hact.symm
      rw [Option.some.injEq] at hpost
      subst hpost hact
      exact ⟨rfl, rfl⟩

/-- The entry with its action renamed. -/
def Entry.rename (f : α → α) (e : Entry σ α) : Entry σ α := { e with act := f e.act }

/-- An execution goes through with its actions renamed if the machine takes no notice in the
states that are reached. -/
theorem Exec.rename {f : α → α} {I : σ → Prop} (hI : ∀ s a s', I s → M.step s a = some s' → I s')
    (hf : ∀ s a, I s → M.step s (f a) = M.step s a) (h₀ : I s₀) (h : Exec M s₀ tr s) :
    Exec M s₀ (tr.map (Entry.rename f)) s := by
  induction h with
  | nil => exact Exec.nil
  | snoc h hstep ih =>
      rw [List.map_append]
      exact Exec.snoc ih ((hf _ _ (h.invariant h₀ hI)).trans hstep)

/-- So executions whose actions are the same up to such a renaming are. -/
theorem Exec.determined_rename {f : α → α} {I : σ → Prop}
    (hI : ∀ s a s', I s → M.step s a = some s' → I s')
    (hf : ∀ s a, I s → M.step s (f a) = M.step s a) (h₀ : I s₀)
    (h : Exec M s₀ tr s) (h' : Exec M s₀ tr' s')
    (hacts : tr.map (fun e => f e.act) = tr'.map (fun e => f e.act)) :
    tr.map (Entry.rename f) = tr'.map (Entry.rename f) ∧ s = s' := by
  refine (h.rename hI hf h₀).determined (h'.rename hI hf h₀) ?_
  rw [List.map_map, List.map_map]
  exact hacts

end

end Transition
