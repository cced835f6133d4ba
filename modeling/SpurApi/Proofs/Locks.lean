/-
What holds of a `PUT` at each of its points.

The locked read decides a save: from then on the lock is held, nobody else can
write the project or delete it, and the row that was read stays the committed one
up to the link to its base, which no save writes.  So a save that passed the version
check is committed over the row it checked, and one that was refused writes nothing.
-/
import SpurApi.Proofs.ProjectSteps
import SpurApi.Proofs.Nulls
import SpurApi.Lib.Revision

namespace SpurApi

open Transition

/-! ### A project as a document -/

instance (old new : Json.Object) : Decidable (SameInputs old new) :=
  decidable_of_iff _ inputsDiffer_eq_false_iff

/-- A project row as a document that counts its revisions; what matters of its spec is what a
simulation reads. -/
def ProjectRow.doc (row : ProjectRow) : Revision.Doc Json.Object :=
  ⟨row.spec, row.version, row.inputsVersion⟩

/-- The two rows differ in the link to the base at most. -/
def SameButBase (row stored : ProjectRow) : Prop :=
  stored = { row with baseProjectId := stored.baseProjectId }

theorem SameButBase.refl (row : ProjectRow) : SameButBase row row := rfl

theorem SameButBase.unlink {row stored : ProjectRow} (h : SameButBase row stored) :
    SameButBase row { stored with baseProjectId := none } := by
  rw [SameButBase] at h ⊢
  rw [h]

theorem SameButBase.doc {row stored : ProjectRow} (h : SameButBase row stored) :
    stored.doc = row.doc := by rw [h]; rfl

/-- What a save stores over a row that is still the one it read. -/
theorem flush_replaceSpec {row stored : ProjectRow} (h : SameButBase row stored)
    (body : ProjectSpec) (now : Time) :
    row.flush (replaceSpec row body) stored now =
      { row.saved body now with baseProjectId := stored.baseProjectId } := by
  rw [h]
  rfl

/-- It saves the row that is stored. -/
theorem flush_eq_saved {row stored : ProjectRow} (h : SameButBase row stored)
    (body : ProjectSpec) (now : Time) :
    row.flush (replaceSpec row body) stored now = stored.saved body now := by
  rw [h]
  rfl

/-- A save is one revision of the document, to the spec that is stored then: a simulation reads
the same from it as from the one that was sent. -/
theorem doc_saved (row : ProjectRow) (body : ProjectSpec) (now : Time) :
    (row.saved body now).doc = row.doc.revise SameInputs (row.saved body now).spec := by
  have hstored : SameInputs (row.saved body now).spec body.dump :=
    sameInputs_of_pyEq (row.saved_spec_pyEq body now)
  by_cases h : SameInputs row.spec body.dump
  · have hkept := h.trans hstored.symm
    have hd : inputsDiffer row.spec body.dump = false := inputsDiffer_eq_false_iff.mpr h
    simp [ProjectRow.doc, Revision.Doc.revise, ProjectRow.saved_inputsVersion, hkept, hd]
  · have hnot : ¬ SameInputs row.spec (row.saved body now).spec := fun hkept =>
      h (hkept.trans hstored)
    have hd : inputsDiffer row.spec body.dump = true := by
      rw [← inputsDiffer_eq_false_iff, Bool.not_eq_false] at h
      exact h
    simp [ProjectRow.doc, Revision.Doc.revise, ProjectRow.saved_inputsVersion, hnot, hd]

/-! ### The points of a `PUT` -/

/-- What holds while a `PUT` stands at a point. -/
def UpdateProject.Holds (b : Backend) (p : Uuid) (r : RequestId) (ifMatch : Option HeaderValue) :
    UpdateProject → Prop
  | .reading expected => versionFrom ifMatch = .ok expected
  | .checked expected row =>
      versionFrom ifMatch = .ok expected ∧ b.locks p = some r ∧
        (∀ n, expected = some n → n = row.version) ∧
        ∃ stored, b.db.projects p = some stored ∧ SameButBase row stored
  | .refused e => b.locks p = some r ∧ e.status = 412
  | _ => True

/-- What holds of a project and the `PUT`s on it, in every state that is reached. -/
structure PutsHold (s : State μ) (p : Uuid) : Prop where
  minted : ∀ row, s.backend.db.projects p = some row → p ∈ s.backend.minted
  points : ∀ {r ifMatch body q}, s.put p r ifMatch body q → q.Holds s.backend p r ifMatch

section

variable {μ : Type} {env : Env μ} {s s' : State μ} {a : Action} {p : Uuid}

theorem State.Initial.putsHold (h : s.Initial) (p : Uuid) : PutsHold s p :=
  ⟨h.minted p, fun hput => by simp [State.put, h.requests] at hput⟩

/-- A point that does not hold the lock is not disturbed by the others. -/
private theorem holds_of_unlocked {b b' : Backend} {r : RequestId} {ifMatch : Option HeaderValue}
    {q : UpdateProject} (h : q.Holds b p r ifMatch) (hlock : b.locks p ≠ some r) :
    q.Holds b' p r ifMatch := by
  cases q with
  | checked expected row => exact absurd h.2.1 hlock
  | refused e => exact absurd h.1 hlock
  | _ => exact h

private theorem holds_frame {b b' : Backend} {r : RequestId} {ifMatch : Option HeaderValue}
    {q : UpdateProject} (hminted : ∀ row, b.db.projects p = some row → p ∈ b.minted)
    (h : q.Holds b p r ifMatch) (hf : ProjectFrame b b' p) : q.Holds b' p r ifMatch := by
  cases q with
  | refused e => exact ⟨hf.locks.trans h.1, h.2⟩
  | checked expected row =>
      obtain ⟨hparsed, hlock, hversion, stored, hstored, hsame⟩ := h
      refine ⟨hparsed, hf.locks.trans hlock, hversion, ?_⟩
      cases hf.row with
      | same hrow => exact ⟨stored, hrow.trans hstored, hsame⟩
      | created hfresh => exact absurd (hminted stored hstored) hfresh
      | deleted hfree => simp [hfree] at hlock
      | unlinked hrow hnew =>
          rw [hstored, Option.some.injEq] at hrow
          subst hrow
          exact ⟨_, hnew, hsame.unlink⟩
  | _ => exact h

/-- The request that moves arrives at a point that holds. -/
private theorem holds_of_putMove {b b' : Backend} {r : RequestId} {ifMatch : Option HeaderValue}
    {body : ProjectSpec} {io : Io} {q q' : UpdateProject} (h : q.Holds b p r ifMatch)
    (hmove : PutMove r p ifMatch body io b q q' b') : q'.Holds b' p r ifMatch := by
  cases hmove with
  | parsed hv => exact hv
  | stale => exact ⟨Function.update_self .., rfl⟩
  | passed hfree hrow hn => exact ⟨h, Function.update_self .., hn, _, hrow, .refl _⟩
  | _ => trivial

/-- Whoever else holds the lock keeps the request from moving where the lock is needed, so the
lock and the row are left alone or free. -/
private theorem unlocked_of_putMove {b b' : Backend} {r r' : RequestId}
    {ifMatch : Option HeaderValue} {body : ProjectSpec} {io : Io} {q q' : UpdateProject}
    (h : q.Holds b p r ifMatch) (hmove : PutMove r p ifMatch body io b q q' b') (hr : r' ≠ r) :
    b' = b ∨ b.locks p ≠ some r' := by
  cases hmove with
  | stale hfree | passed hfree => exact .inr (by simp [hfree])
  | unstorable | vanished | saved =>
      refine .inr fun hlock => hr ?_
      rw [h.2.1, Option.some.injEq] at hlock
      exact hlock.symm
  | closed =>
      refine .inr fun hlock => hr ?_
      rw [h.1, Option.some.injEq] at hlock
      exact hlock.symm
  | _ => exact .inl rfl

private theorem minted_of_putMove {b b' : Backend} {r : RequestId}
    {ifMatch : Option HeaderValue} {body : ProjectSpec} {io : Io} {q q' : UpdateProject}
    (hminted : ∀ row, b.db.projects p = some row → p ∈ b.minted)
    (hmove : PutMove r p ifMatch body io b q q' b') :
    ∀ row, b'.db.projects p = some row → p ∈ b'.minted := by
  cases hmove with
  | saved hrow => exact fun _ _ => hminted _ hrow
  | _ => exact hminted

theorem PutsHold.step (h : PutsHold s p) (hstep : s.step env a = some s') : PutsHold s' p := by
  cases step_project hstep p with
  | put ha hpre hpost hothers hmove =>
      refine ⟨minted_of_putMove h.minted hmove, ?_⟩
      rename_i r io ifMatch body q q'
      intro r' ifMatch' body' q'' hput
      by_cases hr : r' = r
      · subst hr
        rw [State.put, hpost, Option.some.injEq, Request.updateProject.injEq] at hput
        obtain ⟨-, rfl, -, rfl⟩ := hput
        exact holds_of_putMove (h.points hpre) hmove
      · rw [State.put, hothers r' hr] at hput
        rcases unlocked_of_putMove (h.points hpre) hmove hr with hb | hfree
        · rw [hb]
          exact h.points hput
        · exact holds_of_unlocked (h.points hput) hfree
  | frame hf hputs _ _ =>
      refine ⟨fun row hrow => ?_, fun hput => ?_⟩
      · cases hf.row with
        | same hsame => exact hf.minted (h.minted row (hsame ▸ hrow))
        | created _ hminted _ => exact hminted
        | deleted _ hgone => simp [hgone] at hrow
        | unlinked hold _ => exact hf.minted (h.minted _ hold)
      · rcases hputs hput with hold | rfl
        · exact holds_frame h.minted (h.points hold) hf
        · trivial

/-- The row that a save checked is still the stored one. -/
theorem PutsHold.sameButBase (h : PutsHold s p) {r : RequestId} {ifMatch : Option HeaderValue}
    {body : ProjectSpec} {expected : Option Int} {row stored : ProjectRow}
    (hput : s.put p r ifMatch body (.checked expected row))
    (hstored : s.backend.db.projects p = some stored) : SameButBase row stored := by
  obtain ⟨-, -, -, stored', hstored', hsame⟩ := h.points hput
  rw [hstored, Option.some.injEq] at hstored'
  subst hstored'
  exact hsame

theorem PutsHold.exec {s₀ : State μ} {tr : List (Entry (State μ) Action)} (h₀ : PutsHold s₀ p)
    (h : Exec (system env) s₀ tr s) : PutsHold s p :=
  h.invariant (I := fun s => PutsHold s p) h₀ fun _ _ _ hI hstep => hI.step hstep

end

end SpurApi
