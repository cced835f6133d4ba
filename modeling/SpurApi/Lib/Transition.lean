/-
Machines that move one action at a time, and their executions.

A machine is a partial step function: in a state an action either is not enabled
or leads to one state.  Everything that is left open — which actor moves next,
what an outside call answers — is part of the action, so an execution is a list
of actions played from a start state, and a property of every interleaving is a
property of every execution.

An execution records each step as an entry: the state before, the action, the
state after.  What a history means — which saves it holds, which calls were made
in it — is then a function of its entries, and no history variable has to be
added to the state.
-/
import Mathlib.Data.List.Induction

namespace Transition

/-- A machine with states `σ` and actions `α`; `none` when the action is not enabled. -/
structure Machine (σ α : Type) where
  step : σ → α → Option σ

/-- One step of an execution. -/
structure Entry (σ α : Type) where
  pre : σ
  act : α
  post : σ

variable {σ α β : Type}

/-- `Exec M s₀ tr s`: the entries `tr` lead from `s₀` to `s`. -/
inductive Exec (M : Machine σ α) (s₀ : σ) : List (Entry σ α) → σ → Prop
  | nil : Exec M s₀ [] s₀
  | snoc {tr : List (Entry σ α)} {s s' : σ} {a : α} (h : Exec M s₀ tr s)
      (hstep : M.step s a = some s') : Exec M s₀ (tr ++ [⟨s, a, s'⟩]) s'

namespace Exec

variable {M : Machine σ α} {s₀ s s' : σ} {tr tr₁ tr₂ : List (Entry σ α)}

/-! ### Putting executions together and taking them apart -/

theorem single {a : α} (hstep : M.step s a = some s') : Exec M s [⟨s, a, s'⟩] s' :=
  show Exec M s ([] ++ [⟨s, a, s'⟩]) s' from Exec.snoc Exec.nil hstep

theorem append (h₁ : Exec M s₀ tr₁ s) (h₂ : Exec M s tr₂ s') : Exec M s₀ (tr₁ ++ tr₂) s' := by
  induction h₂ with
  | nil => simpa using h₁
  | snoc _ hstep ih =>
      rw [← List.append_assoc]
      exact Exec.snoc ih hstep

theorem cons {a : α} (hstep : M.step s₀ a = some s) (h : Exec M s tr s') :
    Exec M s₀ (⟨s₀, a, s⟩ :: tr) s' :=
  append (single hstep) h

/-- The last entry of a nonempty execution is a step into its final state. -/
theorem snoc_inv {e : Entry σ α} (h : Exec M s₀ (tr ++ [e]) s) :
    Exec M s₀ tr e.pre ∧ M.step e.pre e.act = some e.post ∧ e.post = s := by
  generalize htr : tr ++ [e] = tr' at h
  cases h with
  | nil => simp at htr
  | snoc hinit hstep =>
      obtain ⟨rfl, he⟩ := List.append_inj' htr rfl
      simp only [List.cons.injEq, and_true] at he
      subst he
      exact ⟨hinit, hstep, rfl⟩

theorem nil_inv (h : Exec M s₀ [] s) : s = s₀ := by
  generalize htr : ([] : List (Entry σ α)) = tr' at h
  cases h with
  | nil => rfl
  | snoc => simp at htr

/-- The entries determine where an execution ends. -/
theorem unique (h : Exec M s₀ tr s) (h' : Exec M s₀ tr s') : s = s' := by
  cases h with
  | nil => exact h'.nil_inv.symm
  | snoc _ _ => exact h'.snoc_inv.2.2

/-- An execution can be cut at any point. -/
theorem split (h : Exec M s₀ (tr₁ ++ tr₂) s) : ∃ m, Exec M s₀ tr₁ m ∧ Exec M m tr₂ s := by
  induction tr₂ using List.reverseRecOn generalizing s with
  | nil => exact ⟨s, by simpa using h, Exec.nil⟩
  | append_singleton tr₂ e ih =>
      rw [← List.append_assoc] at h
      obtain ⟨hinit, hstep, rfl⟩ := snoc_inv h
      obtain ⟨m, h₁, h₂⟩ := ih hinit
      exact ⟨m, h₁, Exec.snoc h₂ hstep⟩

theorem cons_inv {e : Entry σ α} (h : Exec M s₀ (e :: tr) s) :
    e.pre = s₀ ∧ M.step s₀ e.act = some e.post ∧ Exec M e.post tr s := by
  have h' : Exec M s₀ ([] ++ [e] ++ tr) s := h
  obtain ⟨m, h₁, h₂⟩ := split h'
  obtain ⟨hnil, hstep, rfl⟩ := snoc_inv h₁
  have hpre := nil_inv hnil
  subst hpre
  exact ⟨rfl, hstep, h₂⟩

/-- Cutting at an entry gives the state before it, its step, and the rest. -/
theorem split_at {e : Entry σ α} (h : Exec M s₀ (tr₁ ++ e :: tr₂) s) :
    Exec M s₀ tr₁ e.pre ∧ M.step e.pre e.act = some e.post ∧ Exec M e.post tr₂ s := by
  obtain ⟨m, h₁, h₂⟩ := split h
  obtain ⟨rfl, hstep, h₃⟩ := cons_inv h₂
  exact ⟨h₁, hstep, h₃⟩

/-- The `i`-th entry is reached by the `i` entries before it. -/
theorem at_index {e : Entry σ α} {i : Nat} (h : Exec M s₀ tr s) (he : tr[i]? = some e) :
    Exec M s₀ (tr.take i) e.pre ∧ M.step e.pre e.act = some e.post := by
  obtain ⟨hi, rfl⟩ := List.getElem?_eq_some_iff.mp he
  have hcut : tr.take i ++ tr[i] :: tr.drop (i + 1) = tr := by
    rw [← List.drop_eq_getElem_cons, List.take_append_drop]
  rw [← hcut] at h
  obtain ⟨hpre, hstep, -⟩ := h.split_at
  exact ⟨hpre, hstep⟩

/-- Every entry of an execution is reached by the entries before it. -/
theorem of_mem {e : Entry σ α} (h : Exec M s₀ tr s) (he : e ∈ tr) :
    ∃ tr₁ tr₂, tr = tr₁ ++ e :: tr₂ ∧ Exec M s₀ tr₁ e.pre ∧
      M.step e.pre e.act = some e.post ∧ Exec M e.post tr₂ s := by
  obtain ⟨tr₁, tr₂, rfl⟩ := List.append_of_mem he
  exact ⟨tr₁, tr₂, rfl, split_at h⟩

/-! ### Invariants -/

/-- What holds at the start and survives every step holds at the end. -/
theorem invariant {I : σ → Prop} (h : Exec M s₀ tr s) (h₀ : I s₀)
    (hstep : ∀ s a s', I s → M.step s a = some s' → I s') : I s := by
  induction h with
  | nil => exact h₀
  | snoc _ hs ih => exact hstep _ _ _ ih hs

/-- What holds at the start and not at the end is lost by some step. -/
theorem exists_lost {P : σ → Prop} (h : Exec M s₀ tr s) (h₀ : P s₀) (hs : ¬ P s) :
    ∃ tr₁ e tr₂, tr = tr₁ ++ e :: tr₂ ∧ P e.pre ∧ ¬ P e.post := by
  induction h with
  | nil => exact absurd h₀ hs
  | @snoc tr s s' a h hstep ih =>
      by_cases hpre : P s
      · exact ⟨tr, ⟨s, a, s'⟩, [], rfl, hpre, hs⟩
      · obtain ⟨tr₁, e, tr₂, rfl, he, hlost⟩ := ih hpre
        exact ⟨tr₁, e, tr₂ ++ [⟨s, a, s'⟩], by simp, he, hlost⟩

/-- Steps that lower the rank are no more than it, when no step raises it. -/
theorem count_le_rank {I : σ → Prop} {rank : σ → Nat} {lowers : Entry σ α → Bool} (hI : I s₀)
    (hstep : ∀ s a s', I s → M.step s a = some s' → I s' ∧ rank s' ≤ rank s ∧
      (lowers ⟨s, a, s'⟩ = true → rank s' < rank s)) (h : Exec M s₀ tr s) :
    I s ∧ tr.countP lowers + rank s ≤ rank s₀ := by
  induction h with
  | nil => exact ⟨hI, by simp⟩
  | @snoc tr s s' a _ hs ih =>
      obtain ⟨hI', hcount⟩ := ih
      obtain ⟨hI'', hle, hlt⟩ := hstep s a s' hI' hs
      refine ⟨hI'', ?_⟩
      rw [List.countP_append, List.countP_singleton]
      split
      · have hlow := hlt ‹_›
        omega
      · omega

end Exec

/-! ### Playing a list of actions

An execution with fixed actions is computed, which is how a concrete
interleaving is exhibited.
-/

/-- The execution of a list of actions, if each is enabled in turn. -/
def Machine.play (M : Machine σ α) (s : σ) : List α → Option (List (Entry σ α) × σ)
  | [] => some ([], s)
  | a :: rest =>
      match M.step s a with
      | none => none
      | some s' =>
          match M.play s' rest with
          | none => none
          | some (tr, final) => some (⟨s, a, s'⟩ :: tr, final)

/-- Playing a list whose first action is enabled. -/
theorem Machine.play_cons {M : Machine σ α} {s s' : σ} {a : α} {rest : List α}
    {tr : List (Entry σ α)} (h : M.play s (a :: rest) = some (tr, s')) :
    ∃ m tr', M.step s a = some m ∧ M.play m rest = some (tr', s') ∧ tr = ⟨s, a, m⟩ :: tr' := by
  rw [play] at h
  cases hstep : M.step s a with
  | none => simp [hstep] at h
  | some m =>
      cases hplay : M.play m rest with
      | none => simp [hstep, hplay] at h
      | some r =>
          simp only [hstep, hplay, Option.some.injEq, Prod.mk.injEq] at h
          obtain ⟨rfl, rfl⟩ := h
          exact ⟨m, r.1, rfl, hplay, rfl⟩

theorem Machine.play_exec {M : Machine σ α} :
    ∀ {acts : List α} {s s' : σ} {tr : List (Entry σ α)},
      M.play s acts = some (tr, s') → Exec M s tr s' := by
  intro acts
  induction acts with
  | nil =>
      intro s s' tr h
      simp only [play, Option.some.injEq, Prod.mk.injEq] at h
      obtain ⟨rfl, rfl⟩ := h
      exact Exec.nil
  | cons a rest ih =>
      intro s s' tr h
      obtain ⟨m, tr', hstep, hplay, rfl⟩ := play_cons h
      exact Exec.cons hstep (ih hplay)

theorem Machine.play_acts {M : Machine σ α} :
    ∀ {acts : List α} {s s' : σ} {tr : List (Entry σ α)},
      M.play s acts = some (tr, s') → tr.map Entry.act = acts := by
  intro acts
  induction acts with
  | nil =>
      intro s s' tr h
      simp only [play, Option.some.injEq, Prod.mk.injEq] at h
      rw [← h.1, List.map_nil]
  | cons a rest ih =>
      intro s s' tr h
      obtain ⟨m, tr', -, hplay, rfl⟩ := play_cons h
      rw [List.map_cons, ih hplay]

/-- The entries and the final state of a list of actions that are all enabled. -/
def Machine.played (M : Machine σ α) (s : σ) (acts : List α)
    (h : (M.play s acts).isSome = true) : List (Entry σ α) × σ := (M.play s acts).get h

theorem Machine.played_exec {M : Machine σ α} {s : σ} {acts : List α}
    (h : (M.play s acts).isSome = true) :
    Exec M s (M.played s acts h).1 (M.played s acts h).2 :=
  play_exec (Option.some_get h).symm

/-- What is true of every action is true of every entry. -/
theorem Machine.played_all {M : Machine σ α} {s : σ} {acts : List α}
    (h : (M.play s acts).isSome = true) {p : α → Bool} (hall : acts.all p = true) :
    ∀ e ∈ (M.played s acts h).1, p e.act = true := by
  intro e he
  have hacts : (M.played s acts h).1.map Entry.act = acts := play_acts (Option.some_get h).symm
  exact List.all_eq_true.mp hall e.act (hacts ▸ List.mem_map_of_mem he)

/-! ### Two kinds of steps

Some things can happen to a system that are no steps of its own.  They are a second
machine on the same states, and the executions of the first are those in which none
of them happens.
-/

/-- A machine that can also do what `N` does. -/
def Machine.or (M : Machine σ α) (N : Machine σ β) : Machine σ (α ⊕ β) where
  step s := Sum.elim (M.step s) (N.step s)

/-- A step of the first machine is a step of both. -/
def Entry.inl (β : Type) (e : Entry σ α) : Entry σ (α ⊕ β) := ⟨e.pre, .inl e.act, e.post⟩

theorem Exec.inl {M : Machine σ α} (N : Machine σ β) {s₀ s : σ} {tr : List (Entry σ α)}
    (h : Exec M s₀ tr s) : Exec (M.or N) s₀ (tr.map (Entry.inl β)) s := by
  induction h with
  | nil => exact Exec.nil
  | snoc _ hstep ih =>
      rw [List.map_append]
      exact Exec.snoc ih hstep

end Transition
