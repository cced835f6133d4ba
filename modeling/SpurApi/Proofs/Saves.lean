/-
The saves of a project, in the order they were committed.

`saves` reads them off a history, so no history variable is needed.  The main result
is `Lineage`: at any point of any interleaving the row is the first row the project
ever had, revised by its saves so far.  Versions, the sequence the saves form and the
out-of-date test are all read off that.
-/
import SpurApi.Proofs.Locks

namespace SpurApi

open Transition

/-- A save that was committed, with the rows before and after it. -/
structure Save where
  request : RequestId
  ifMatch : Option HeaderValue
  body : ProjectSpec
  expected : Option Int
  replaced : ProjectRow
  stored : ProjectRow

section

variable {μ : Type}

/-- The committed row of a project. -/
def State.projectRow (s : State μ) (p : Uuid) : Option ProjectRow := s.backend.db.projects p

/-- The save of a project that an entry is: a `PUT` that passed the version check commits. -/
def saveOf (p : Uuid) (e : Entry (State μ) Action) : Option Save :=
  match e.act with
  | .request r _ =>
      match e.pre.requests r, e.post.requests r with
      | some (.updateProject id ifMatch body (.checked expected _)),
          some (.updateProject _ _ _ .saved) =>
          if id = p then
            match e.pre.projectRow p, e.post.projectRow p with
            | some replaced, some stored => some ⟨r, ifMatch, body, expected, replaced, stored⟩
            | _, _ => none
          else none
      | _, _ => none
  | _ => none

/-- The saves of a project in a history. -/
def saves (p : Uuid) (tr : List (Entry (State μ) Action)) : List Save := tr.filterMap (saveOf p)

/-- The specs that were stored after them. -/
def savedSpecs (p : Uuid) (tr : List (Entry (State μ) Action)) : List Json.Object :=
  (saves p tr).map fun v => v.stored.spec

theorem saves_append (p : Uuid) (tr₁ tr₂ : List (Entry (State μ) Action)) :
    saves p (tr₁ ++ tr₂) = saves p tr₁ ++ saves p tr₂ := List.filterMap_append

theorem saves_cons (p : Uuid) (e : Entry (State μ) Action) (tr : List (Entry (State μ) Action)) :
    saves p (e :: tr) = (saveOf p e).toList ++ saves p tr := by
  rw [saves, List.filterMap_cons]
  cases saveOf p e <;> rfl

@[simp] theorem saves_singleton (p : Uuid) (e : Entry (State μ) Action) :
    saves p [e] = (saveOf p e).toList := by
  rw [saves_cons]
  exact List.append_nil _

theorem savedSpecs_append (p : Uuid) (tr₁ tr₂ : List (Entry (State μ) Action)) :
    savedSpecs p (tr₁ ++ tr₂) = savedSpecs p tr₁ ++ savedSpecs p tr₂ := by
  rw [savedSpecs, saves_append, List.map_append]
  rfl

@[simp] theorem length_savedSpecs (p : Uuid) (tr : List (Entry (State μ) Action)) :
    (savedSpecs p tr).length = (saves p tr).length := List.length_map ..

/-- Every save of a history is one of its entries. -/
theorem exists_entry_of_mem_saves {p : Uuid} {tr : List (Entry (State μ) Action)} {v : Save}
    (hv : v ∈ saves p tr) : ∃ e ∈ tr, saveOf p e = some v := List.mem_filterMap.mp hv

/-- And the save with `k` saves before it is an entry with `k` saves before it. -/
theorem exists_entry_of_getElem? {p : Uuid} {tr : List (Entry (State μ) Action)} {v : Save}
    {k : Nat} (hv : (saves p tr)[k]? = some v) :
    ∃ tr₁ e tr₂, tr = tr₁ ++ e :: tr₂ ∧ saveOf p e = some v ∧ (saves p tr₁).length = k := by
  induction tr generalizing k with
  | nil => simp [saves] at hv
  | cons e tr ih =>
      rw [saves_cons] at hv
      cases he : saveOf p e with
      | none =>
          rw [he] at hv
          obtain ⟨tr₁, e', tr₂, rfl, hsave, hk⟩ := ih hv
          exact ⟨e :: tr₁, e', tr₂, rfl, hsave, by rw [saves_cons, he]; exact hk⟩
      | some w =>
          rw [he] at hv
          cases k with
          | zero =>
              have hwv : w = v := by simpa using hv
              exact ⟨[], e, tr, rfl, hwv ▸ he, rfl⟩
          | succ k =>
              have hv' : (saves p tr)[k]? = some v := by simpa using hv
              obtain ⟨tr₁, e', tr₂, rfl, hsave, hk⟩ := ih hv'
              refine ⟨e :: tr₁, e', tr₂, rfl, hsave, ?_⟩
              rw [saves_cons, he]
              simp [hk]

variable {env : Env μ} {s₀ s s' : State μ} {a : Action} {p : Uuid}
  {tr tr₁ tr₂ : List (Entry (State μ) Action)}

/-! ### One step -/

/-- What a save does. -/
structure IsSave (e : Entry (State μ) Action) (p : Uuid) (v : Save) : Prop where
  actor : ∃ io, e.act = .request v.request io
  checked : ∃ row, e.pre.put p v.request v.ifMatch v.body (.checked v.expected row)
  saved : e.post.put p v.request v.ifMatch v.body .saved
  parsed : versionFrom v.ifMatch = .ok v.expected
  current : ∀ n, v.expected = some n → n = v.replaced.version
  replaced : e.pre.projectRow p = some v.replaced
  stored : e.post.projectRow p = some v.stored
  doc : v.stored.doc = v.replaced.doc.revise SameInputs v.stored.spec
  spec : v.stored.spec =
    Column.flushBy Json.Object.pyEq v.replaced.spec v.body.dump v.replaced.spec
  name : v.stored.name = v.body.name
  spurVersion : v.stored.spurVersion = v.body.spurVersion
  holds : (replaceSpec v.replaced v.body).holds = true

/-- What is stored equals what was sent, by Python's `==`. -/
theorem IsSave.spec_pyEq {e : Entry (State μ) Action} {v : Save} (h : IsSave e p v) :
    v.stored.spec.pyEq v.body.dump = true := by
  rw [h.spec]
  exact Column.eq_flushBy _ Json.Object.pyEq_refl Json.Object.pyEq_symm _ _

/-- It is exactly what was sent, unless that equals the spec it replaces and is another value. -/
theorem IsSave.same_iff {e : Entry (State μ) Action} {v : Save} (h : IsSave e p v) :
    v.stored.spec.same v.body.dump = true ↔
      (v.body.dump.pyEq v.replaced.spec = true → v.replaced.spec.same v.body.dump = true) := by
  rw [h.spec, Column.flushBy]
  split
  · exact ⟨fun hsame _ => hsame, fun hsame => hsame ‹_›⟩
  · exact ⟨fun _ heq => absurd heq ‹_›, fun _ => Json.Object.same_refl _⟩

theorem IsSave.version {e : Entry (State μ) Action} {v : Save} (h : IsSave e p v) :
    v.stored.version = v.replaced.version + 1 := by
  have hdoc := congrArg Revision.Doc.version h.doc
  exact hdoc

/-- Only a `PUT` that arrives at `saved` saves. -/
private theorem saveOf_of_put {r : RequestId} {io : Io} {ifMatch : Option HeaderValue}
    {body : ProjectSpec} {q' : UpdateProject} (hput' : s'.put p r ifMatch body q')
    (hq' : q' ≠ .saved) : saveOf p ⟨s, .request r io, s'⟩ = none := by
  rw [State.put] at hput'
  simp only [saveOf, hput']
  split
  · rename_i hsaved
    cases hsaved
    exact absurd rfl hq'
  · rfl

private theorem saveOf_frame
    (hact : ∀ r io, a = .request r io → ∀ ifMatch body q, ¬ s.put p r ifMatch body q) :
    saveOf p ⟨s, a, s'⟩ = none := by
  cases a with
  | request r io =>
      simp only [saveOf]
      split
      · rename_i id ifMatch body expected row _ _ _ hput _
        rw [if_neg]
        rintro rfl
        exact hact r io rfl _ _ _ hput
      · rfl
  | _ => rfl

/-- And it does save there, over the row that is there. -/
theorem saveOf_saved {r : RequestId} {io : Io} {ifMatch : Option HeaderValue}
    {body : ProjectSpec} {expected : Option Int} {row replaced stored : ProjectRow}
    (hput : s.put p r ifMatch body (.checked expected row))
    (hput' : s'.put p r ifMatch body .saved)
    (hreplaced : s.projectRow p = some replaced) (hstored : s'.projectRow p = some stored) :
    saveOf p ⟨s, .request r io, s'⟩ =
      some ⟨r, ifMatch, body, expected, replaced, stored⟩ := by
  rw [State.put] at hput hput'
  simp only [saveOf, hput, hput', if_true, hreplaced, hstored]

/-- A step is a save, or leaves the document, or makes it. -/
theorem save_or_keep (h : PutsHold s p) (hstep : s.step env a = some s') :
    (∃ v, saveOf p ⟨s, a, s'⟩ = some v ∧ IsSave ⟨s, a, s'⟩ p v) ∨
    (saveOf p ⟨s, a, s'⟩ = none ∧ ∀ row', s'.projectRow p = some row' →
      (∃ row, s.projectRow p = some row ∧ row'.doc = row.doc) ∨
      (p ∉ s.backend.minted ∧ row'.inputsVersion = 1 ∧ row'.version = 1)) := by
  cases step_project hstep p with
  | put ha hpre hpost hothers hmove =>
      subst ha
      have hholds := h.points hpre
      generalize hb : s'.backend = b' at hmove
      cases hmove with
      | vanished hgone =>
          obtain ⟨-, -, -, stored, hstored, -⟩ := hholds
          rw [hgone] at hstored
          simp at hstored
      | @saved expected row replaced hreplaced hfits =>
          rename_i r io ifMatch body
          obtain ⟨hparsed, -, hcurrent, -⟩ := hholds
          have hsame := h.sameButBase hpre hreplaced
          have hnew : s'.projectRow p = some { row.saved body io.now with
              baseProjectId := replaced.baseProjectId } := by
            rw [← flush_replaceSpec hsame body io.now, State.projectRow, hb]
            exact Function.update_self ..
          refine .inl ⟨_, saveOf_saved hpre hpost hreplaced hnew, ⟨io, rfl⟩, ⟨row, hpre⟩, hpost,
            hparsed, ?_, hreplaced, hnew, ?_, ?_, row.saved_name body io.now,
            row.saved_spurVersion body io.now, ?_⟩
          · intro n hn
            rw [hcurrent n hn]
            exact (congrArg Revision.Doc.version hsame.doc).symm
          · rw [hsame.doc]
            exact doc_saved row body io.now
          · rw [show replaced.spec = row.spec from congrArg Revision.Doc.content hsame.doc]
            exact row.saved_spec body io.now
          · rw [hsame]
            exact hfits
      | _ =>
          refine .inr ⟨saveOf_of_put hpost (by simp), fun row' hrow' => .inl ⟨row', ?_, rfl⟩⟩
          rw [State.projectRow, hb] at hrow'
          exact hrow'
  | frame hf _ _ hact =>
      refine .inr ⟨saveOf_frame hact, fun row' hrow' => ?_⟩
      rw [State.projectRow] at hrow'
      cases hf.row with
      | same hsame => exact .inl ⟨row', hsame.symm.trans hrow', rfl⟩
      | created hfresh _ hnew =>
          rw [hnew, Option.some.injEq] at hrow'
          subst hrow'
          exact .inr ⟨hfresh, rfl, rfl⟩
      | deleted _ hgone => simp [hgone] at hrow'
      | unlinked hrow hnew =>
          rw [hnew, Option.some.injEq] at hrow'
          subst hrow'
          exact .inl ⟨_, hrow, rfl⟩

/-! ### Whole histories -/

/-- The first row a project ever had. -/
def firstRow (p : Uuid) (tr : List (Entry (State μ) Action)) (s : State μ) : Option ProjectRow :=
  (tr.findSome? fun e => e.pre.projectRow p).or (s.projectRow p)

theorem firstRow_snoc : firstRow p (tr ++ [⟨s, a, s'⟩]) s' =
    (firstRow p tr s).or (s'.projectRow p) := by
  simp only [firstRow, List.findSome?_append, List.findSome?_cons, List.findSome?_nil]
  cases s.projectRow p <;> simp

theorem firstRow_of_row (tr : List (Entry (State μ) Action)) {row : ProjectRow}
    (h : s.projectRow p = some row) : ∃ row₀, firstRow p tr s = some row₀ := by
  rw [firstRow, h]
  cases tr.findSome? fun e => e.pre.projectRow p <;> simp

/-- The first row stays the first row. -/
theorem firstRow_append {row₀ : ProjectRow} (h₁ : firstRow p tr₁ s = some row₀)
    (h : Exec (system env) s tr₂ s') : firstRow p (tr₁ ++ tr₂) s' = some row₀ := by
  induction h with
  | nil => simpa using h₁
  | snoc _ _ ih => rw [← List.append_assoc, firstRow_snoc, ih, Option.some_or]

/-- What the history of a project comes to: it is minted once, with both its numbers equal, and
its row is its first row revised by its saves. -/
structure Lineage (s₀ : State μ) (tr : List (Entry (State μ) Action)) (s : State μ) (p : Uuid) :
    Prop where
  first : ∀ row₀, firstRow p tr s = some row₀ →
    row₀.inputsVersion = row₀.version ∧ 1 ≤ row₀.version ∧
      (s₀.projectRow p = none → row₀.version = 1) ∧ p ∈ s.backend.minted
  unborn : firstRow p tr s = none → saves p tr = []
  doc : ∀ row₀ row, firstRow p tr s = some row₀ → s.projectRow p = some row →
    row.doc = row₀.doc.after SameInputs (savedSpecs p tr)

private theorem Lineage.start (h : s₀.Initial) : Lineage s₀ [] s₀ p := by
  refine ⟨fun row₀ hrow₀ => ?_, fun _ => rfl, fun row₀ row hrow₀ hrow => ?_⟩
  · have hrow : s₀.backend.db.projects p = some row₀ := hrow₀
    obtain ⟨heq, hpos⟩ := h.versions p row₀ hrow
    refine ⟨heq, hpos, fun hnone => ?_, h.minted p row₀ hrow⟩
    rw [State.projectRow, hrow] at hnone
    simp at hnone
  · have heq : firstRow p [] s₀ = s₀.projectRow p := rfl
    rw [heq, hrow, Option.some.injEq] at hrow₀
    subst hrow₀
    rfl

private theorem Lineage.snoc_save (h : Lineage s₀ tr s p) (hstep : s.step env a = some s')
    {v : Save} (hv : saveOf p ⟨s, a, s'⟩ = some v) (hsave : IsSave ⟨s, a, s'⟩ p v) :
    Lineage s₀ (tr ++ [⟨s, a, s'⟩]) s' p := by
  obtain ⟨row₀, hrow₀⟩ := firstRow_of_row tr hsave.replaced
  have hfirst : firstRow p (tr ++ [⟨s, a, s'⟩]) s' = some row₀ := by
    rw [firstRow_snoc, hrow₀, Option.some_or]
  have hspecs : savedSpecs p (tr ++ [⟨s, a, s'⟩]) = savedSpecs p tr ++ [v.stored.spec] := by
    rw [savedSpecs_append]
    simp [savedSpecs, hv]
  refine ⟨fun row hrow => ?_, fun hnone => ?_, fun row row' hrow hrow' => ?_⟩
  · rw [hfirst, ← hrow₀] at hrow
    obtain ⟨heq, hpos, hone, hminted⟩ := h.first row hrow.symm.symm
    exact ⟨heq, hpos, hone, minted_mono hstep hminted⟩
  · rw [hfirst] at hnone
    simp at hnone
  · rw [hfirst, Option.some.injEq] at hrow
    subst hrow
    rw [hsave.stored, Option.some.injEq] at hrow'
    subst hrow'
    rw [hspecs, Revision.Doc.after_concat, hsave.doc, h.doc _ _ hrow₀ hsave.replaced]

private theorem Lineage.snoc_keep (hputs : PutsHold s p) (h : Lineage s₀ tr s p)
    (hstep : s.step env a = some s') (hnone : saveOf p ⟨s, a, s'⟩ = none)
    (hkeep : ∀ row', s'.projectRow p = some row' →
      (∃ row, s.projectRow p = some row ∧ row'.doc = row.doc) ∨
      (p ∉ s.backend.minted ∧ row'.inputsVersion = 1 ∧ row'.version = 1)) :
    Lineage s₀ (tr ++ [⟨s, a, s'⟩]) s' p := by
  have hsaves : saves p (tr ++ [⟨s, a, s'⟩]) = saves p tr := by
    rw [saves_append, saves_singleton, hnone]
    exact List.append_nil _
  have hspecs : savedSpecs p (tr ++ [⟨s, a, s'⟩]) = savedSpecs p tr := by
    rw [savedSpecs, hsaves, savedSpecs]
  cases hfirst : firstRow p tr s with
  | some row₀ =>
      have hfirst' : firstRow p (tr ++ [⟨s, a, s'⟩]) s' = some row₀ := by
        rw [firstRow_snoc, hfirst, Option.some_or]
      obtain ⟨heq, hpos, hone, hminted⟩ := h.first row₀ hfirst
      refine ⟨fun row hrow => ?_, fun hnone => ?_, fun row row' hrow hrow' => ?_⟩
      · rw [hfirst', Option.some.injEq] at hrow
        subst hrow
        exact ⟨heq, hpos, hone, minted_mono hstep hminted⟩
      · rw [hfirst'] at hnone
        simp at hnone
      · rw [hfirst', Option.some.injEq] at hrow
        subst hrow
        rcases hkeep row' hrow' with ⟨old, hold, hdoc⟩ | ⟨hfresh, -⟩
        · rw [hspecs, hdoc, h.doc _ _ hfirst hold]
        · exact absurd hminted hfresh
  | none =>
      have hunborn : s.projectRow p = none := by
        cases hrow : s.projectRow p with
        | none => rfl
        | some row =>
            obtain ⟨_, hsome⟩ := firstRow_of_row tr hrow
            rw [hfirst] at hsome
            simp at hsome
      have hfirst' : firstRow p (tr ++ [⟨s, a, s'⟩]) s' = s'.projectRow p := by
        rw [firstRow_snoc, hfirst, Option.none_or]
      refine ⟨fun row hrow => ?_, fun _ => hsaves.trans (h.unborn hfirst),
        fun row row' hrow hrow' => ?_⟩
      · rw [hfirst'] at hrow
        rcases hkeep row hrow with ⟨old, hold, -⟩ | ⟨-, hinputs, hversion⟩
        · rw [hunborn] at hold
          simp at hold
        · exact ⟨hinputs.trans hversion.symm, by omega, fun _ => hversion,
            (hputs.step hstep).minted row hrow⟩
      · rw [hfirst', hrow', Option.some.injEq] at hrow
        subst hrow
        rw [hspecs, savedSpecs, h.unborn hfirst]
        rfl

/-- **The history of a project**, in any interleaving. -/
theorem lineage (h₀ : s₀.Initial) (h : Exec (system env) s₀ tr s) (p : Uuid) :
    Lineage s₀ tr s p := by
  induction h with
  | nil => exact .start h₀
  | snoc h hstep ih =>
      have hputs := (h₀.putsHold p).exec h
      rcases save_or_keep hputs hstep with ⟨v, hv, hsave⟩ | ⟨hnone, hkeep⟩
      · exact ih.snoc_save hstep hv hsave
      · exact ih.snoc_keep hputs hstep hnone hkeep

/-! ### What follows for a history -/

/-- Every save of a history is a save. -/
theorem isSave_of_entry (h₀ : s₀.Initial) (h : Exec (system env) s₀ tr s)
    {e : Entry (State μ) Action} {v : Save} (he : e ∈ tr) (hv : saveOf p e = some v) :
    IsSave e p v := by
  obtain ⟨_, _, _, hpre, hstep, _⟩ := h.of_mem he
  rcases save_or_keep ((h₀.putsHold p).exec hpre) hstep with ⟨w, hw, hsave⟩ | ⟨hnone, -⟩
  · rw [show (⟨e.pre, e.act, e.post⟩ : Entry (State μ) Action) = e from rfl, hv,
      Option.some.injEq] at hw
    exact hw ▸ hsave
  · rw [show (⟨e.pre, e.act, e.post⟩ : Entry (State μ) Action) = e from rfl, hv] at hnone
    simp at hnone

/-- A row that is there is the first row, revised. -/
theorem doc_of_row (h₀ : s₀.Initial) (h : Exec (system env) s₀ tr s) {row : ProjectRow}
    (hrow : s.projectRow p = some row) : ∃ row₀, firstRow p tr s = some row₀ ∧
      row.doc = row₀.doc.after SameInputs (savedSpecs p tr) := by
  obtain ⟨row₀, hrow₀⟩ := firstRow_of_row tr hrow
  exact ⟨row₀, hrow₀, (lineage h₀ h p).doc row₀ row hrow₀ hrow⟩

/-- So its version counts the saves. -/
theorem version_of_row (h₀ : s₀.Initial) (h : Exec (system env) s₀ tr s) {row : ProjectRow}
    (hrow : s.projectRow p = some row) : ∃ row₀, firstRow p tr s = some row₀ ∧
      row.version = row₀.version + (saves p tr).length := by
  obtain ⟨row₀, hrow₀, hdoc⟩ := doc_of_row h₀ h hrow
  refine ⟨row₀, hrow₀, ?_⟩
  have hversion := congrArg Revision.Doc.version hdoc
  rw [Revision.Doc.version_after, length_savedSpecs] at hversion
  exact hversion

end

end SpurApi
