/-
What the clients of a run write, column by column.

`RunTouch` says which columns a request can change at all.  Here it is said what it writes to
them, and which request that is: an edit flushes the one column it assigned, and a submission
flushes the job ids of its batch.  The copy a request flushes can be old; a column that it did
not assign is not written.
-/
import SpurApi.Proofs.Gone
import SpurApi.Proofs.Submissions

namespace SpurApi

open Transition

section

variable {μ : Type} {env : Env μ} {s₀ m s s' : State μ} {a : Action} {run : Uuid}
  {tr : List (Entry (State μ) Action)} {row row' : SimulationRunRow}

/-- By this step an edit of the run is committed, of a request that loaded `copy`. -/
def EditCommits (s : State μ) (a : Action) (s' : State μ) (run : Uuid) (edit : RunEdit)
    (copy : SimulationRunRow) : Prop :=
  ∃ r io, a = .request r io ∧ s.requests r = some (.editRun run edit (.loaded copy)) ∧
    s'.requests r = some (.editRun run edit .committed)

/-- By this step a submission commits the job id of the run. -/
def JobIdCommits (s : State μ) (a : Action) (run : Uuid) (sub : Submitted) : Prop :=
  ∃ r io project body rows, a = .request r io ∧
    s.requests r = some (.submitRun project body (.recording rows)) ∧ sub ∈ rows ∧ sub.id = run

/-- What a step that is not its worker's does to a run that is there. -/
inductive ClientWrite (s : State μ) (a : Action) (s' : State μ) (run : Uuid)
    (row : SimulationRunRow) : Prop
  | same (hquiet : ∀ edit copy, ¬ EditCommits s a s' run edit copy)
      (h : s'.slice run = s.slice run)
  | edited {edit : RunEdit} {copy : SimulationRunRow} (hedit : EditCommits s a s' run edit copy)
      (h : s'.slice run =
        ⟨some (SimulationRunRow.flush copy (edit.apply copy) row), (s.slice run).events⟩)
  | recorded {sub : Submitted} (hquiet : ∀ edit copy, ¬ EditCommits s a s' run edit copy)
      (hrecords : JobIdCommits s a run sub)
      (h : s'.slice run =
        ⟨some (SimulationRunRow.flush sub.row sub.assigned row), (s.slice run).events⟩)
  | deleted (h : DeleteCommits s a run)

/-! ### The requests -/

/-- What the commit of the job ids writes. -/
theorem commitJobIds_runs {rows : List Submitted} :
    ∀ {b b' : Backend}, b.commitJobIds rows = .ok b' → (rows.map Submitted.id).Nodup →
      (∀ id, id ∉ rows.map Submitted.id → b'.slice id = b.slice id) ∧
      ∀ sub ∈ rows, b'.slice sub.id =
        ⟨(b.db.runs sub.id).map (SimulationRunRow.flush sub.row sub.assigned),
          b.db.events sub.id⟩ := by
  induction rows with
  | nil =>
      intro b b' h _
      simp only [Backend.commitJobIds, Except.ok.injEq] at h
      exact ⟨fun _ _ => by rw [h], by simp⟩
  | cons s rest ih =>
      intro b b' h hnodup
      rw [List.map_cons, List.nodup_cons] at hnodup
      rw [Backend.commitJobIds] at h
      split at h
      · simp at h
      · rename_i stored hupdate
        have hstored : stored = (b.db.runs s.id).map (SimulationRunRow.flush s.row s.assigned) := by
          cases hrow : b.db.runs s.id with
          | some row =>
              rw [hrow, updateRun_some, Except.ok.injEq] at hupdate
              rw [← hupdate, Option.map_some]
          | none =>
              rw [hrow, updateRun] at hupdate
              split at hupdate
              · simp at hupdate
              · simpa using hupdate.symm
        have hother : ∀ id ≠ s.id, (b.setRun s.id stored).slice id = b.slice id := by
          intro id hne
          simp [Backend.slice, Backend.setRun, Db.setRun, hne]
        obtain ⟨hkept, hset⟩ := ih h hnodup.2
        refine ⟨fun id hid => ?_, fun sub hsub => ?_⟩
        · rw [List.map_cons, List.mem_cons, not_or] at hid
          rw [hkept id hid.2, hother id hid.1]
        · rcases List.mem_cons.mp hsub with rfl | hsub
          · rw [hkept _ hnodup.1, hstored]
            simp [Backend.slice, Backend.setRun, Db.setRun]
          · have hne : sub.id ≠ s.id := fun heq =>
              hnodup.1 (heq ▸ List.mem_map_of_mem hsub)
            have hslice := hother sub.id hne
            simp only [Backend.slice, RunSlice.mk.injEq] at hslice
            rw [hset sub hsub, hslice.1, hslice.2]

private theorem not_editCommits {r : RequestId} {io : Io} {q : Request}
    (hq : s.requests r = some q) (hne : ∀ edit copy, q ≠ .editRun run edit (.loaded copy))
    (edit : RunEdit) (copy : SimulationRunRow) :
    ¬ EditCommits s (.request r io) s' run edit copy := by
  rintro ⟨r', io', ha, hreq, -⟩
  rw [Action.request.injEq] at ha
  rw [← ha.1, hq, Option.some.injEq] at hreq
  exact hne edit copy hreq

private theorem clientWrite_of_request (hapart : IdsApart s) {r : RequestId} {io : Io}
    {q q' : Request} {b : Backend} (hq : s.requests r = some q)
    (hstep : q.step env r io s.backend = some (q', b)) (hrow : (s.slice run).row = some row) :
    ClientWrite s (.request r io) (s.setRequest r q' b) run row := by
  have hrow₁ : s.backend.db.runs run = some row := hrow
  have hquiet : (∀ edit copy, q ≠ .editRun run edit (.loaded copy)) → ∀ edit copy,
      ¬ EditCommits s (.request r io) (s.setRequest r q' b) run edit copy :=
    not_editCommits hq
  cases q with
  | updateProject id ifMatch body point =>
      simp only [Request.step, Option.map_eq_some_iff, Prod.exists, Prod.mk.injEq] at hstep
      obtain ⟨_, _, hpoint, rfl, rfl⟩ := hstep
      exact .same (hquiet (by simp)) ((putMove_of_step hpoint).slice run)
  | createProject body owner base point =>
      simp only [Request.step, Option.map_eq_some_iff, Prod.exists, Prod.mk.injEq] at hstep
      obtain ⟨_, _, hpoint, rfl, rfl⟩ := hstep
      exact .same (hquiet (by simp)) ((createMove_of_step hpoint).slice run)
  | deleteProject id point =>
      simp only [Request.step, Option.map_eq_some_iff, Prod.exists, Prod.mk.injEq] at hstep
      obtain ⟨_, _, hpoint, rfl, rfl⟩ := hstep
      cases point with
      | received =>
          rw [DeleteProject.step] at hpoint
          split at hpoint <;> simp only [Option.some.injEq, Prod.mk.injEq] at hpoint <;>
            obtain ⟨rfl, rfl⟩ := hpoint <;> exact .same (hquiet (by simp)) rfl
      | deleting =>
          rw [DeleteProject.step] at hpoint
          split at hpoint
          · simp at hpoint
          · simp only [Option.some.injEq, Prod.mk.injEq] at hpoint
            obtain ⟨rfl, rfl⟩ := hpoint
            cases hof : s.backend.db.runOf id run with
            | true => exact .deleted (.project rfl hq hof)
            | false =>
                refine .same (hquiet (by simp)) ?_
                simp [State.slice, State.setRequest, Db.deleteProject, hof]
      | answered answer => simp [DeleteProject.step] at hpoint
  | submitRun project body point =>
      simp only [Request.step, Option.map_eq_some_iff, Prod.exists, Prod.mk.injEq] at hstep
      obtain ⟨_, _, hpoint, rfl, rfl⟩ := hstep
      cases submitMove_of_step hpoint with
      | @inserted rows =>
          refine .same (hquiet (by simp)) (insertRuns_of_notMem fun hrun => ?_)
          obtain ⟨hblank, -⟩ := hapart.pending r _ hq run hrun
          rw [hblank] at hrow
          simp [RunSlice.blank] at hrow
      | @recorded sub rest _ hcommit =>
          obtain ⟨hkept, hset⟩ := commitJobIds_runs hcommit (hapart.nodup r _ hq)
          by_cases hrun : run ∈ (sub :: rest).map Submitted.id
          · obtain ⟨sub', hsub', rfl⟩ := List.mem_map.mp hrun
            refine .recorded (hquiet (by simp)) ⟨r, io, _, _, _, rfl, hq, hsub', rfl⟩ ?_
            have hslice := hset sub' hsub'
            rw [hrow₁, Option.map_some] at hslice
            exact hslice
          · exact .same (hquiet (by simp)) (hkept run hrun)
      | _ => exact .same (hquiet (by simp)) rfl
  | editRun id edit point =>
      simp only [Request.step, Option.map_eq_some_iff, Prod.exists, Prod.mk.injEq] at hstep
      obtain ⟨point', b₁, hpoint, rfl, rfl⟩ := hstep
      cases editMove_of_step hpoint with
      | unstorable | updateRaised =>
          refine .same ?_ rfl
          rintro edit' copy' ⟨r', io', ha, -, hpost⟩
          rw [Action.request.injEq] at ha
          rw [← ha.1, State.setRequest_requests_self] at hpost
          simp at hpost
      | @committed _ stored _ hupdate =>
          by_cases hrun : run = id
          · subst hrun
            rw [hrow₁, updateRun_some, Except.ok.injEq] at hupdate
            refine .edited ⟨r, io, rfl, hq, State.setRequest_requests_self ..⟩ ?_
            simp [State.slice, State.setRequest, Backend.setRun, Db.setRun, ← hupdate]
          · refine .same (hquiet fun edit' copy' heq => ?_) ?_
            · rw [Request.editRun.injEq] at heq
              exact hrun heq.1.symm
            · simp [State.slice, State.setRequest, Backend.setRun, Db.setRun, hrun]
      | _ => exact .same (hquiet (by simp)) rfl
  | deleteRun id point =>
      simp only [Request.step, Option.map_eq_some_iff, Prod.exists, Prod.mk.injEq] at hstep
      obtain ⟨_, _, hpoint, rfl, rfl⟩ := hstep
      cases point with
      | received =>
          rw [DeleteRun.step] at hpoint
          split at hpoint <;> simp only [Option.some.injEq, Prod.mk.injEq] at hpoint <;>
            obtain ⟨rfl, rfl⟩ := hpoint <;> exact .same (hquiet (by simp)) rfl
      | deleting =>
          simp only [DeleteRun.step, Option.some.injEq, Prod.mk.injEq] at hpoint
          obtain ⟨rfl, rfl⟩ := hpoint
          by_cases hrun : run = id
          · subst hrun
            exact .deleted (.run rfl hq (by rw [hrow]; rfl))
          · refine .same (hquiet (by simp)) ?_
            simp [State.slice, State.setRequest, Db.deleteRun, Db.setRun, Db.setEvents, hrun]
      | answered answer => simp [DeleteRun.step] at hpoint

/-- **What a step that is not its worker's does to a run that is there.** -/
theorem client_write (hapart : IdsApart s) (hstep : s.step env a = some s')
    (hact : ∀ io, a ≠ .work run io) (hrow : (s.slice run).row = some row) :
    ClientWrite s a s' run row := by
  have hquiet : (∀ r io, a ≠ .request r io) → ∀ edit copy, ¬ EditCommits s a s' run edit copy := by
    rintro hne edit copy ⟨r, io, ha, -⟩
    exact hne r io ha
  cases service_step hstep with
  | arrive | read | deliver => exact .same (hquiet (by simp)) rfl
  | request hq hqstep => exact clientWrite_of_request hapart hq hqstep hrow
  | @work run' io =>
      have hne : run ≠ run' := by
        rintro rfl
        exact hact io rfl
      exact .same (hquiet (by simp)) (slice_of_work_ne hstep hne)

/-- A run goes by its deletion only. -/
theorem deleteCommits_of_none (hapart : IdsApart s) (hstep : s.step env a = some s')
    (hrow : (s.slice run).row = some row) (hnone : (s'.slice run).row = none) :
    DeleteCommits s a run := by
  rcases a.client_or_work run with hact | ⟨io, rfl⟩
  · cases client_write hapart hstep hact hrow with
    | same _ h => simp [h, hrow] at hnone
    | edited _ h | recorded _ _ h => simp [h] at hnone
    | deleted h => exact h
  · cases step_run hapart hstep run with
    | client hact | inserted hact => exact absurd rfl (hact io)
    | delivered ha => simp at ha
    | worked _ _ _ hpstep =>
        have hmove := workerMove_of_step hpstep
        generalize s.slice run = d at hrow hmove
        obtain ⟨_ | old, events⟩ := d
        · simp at hrow
        · obtain ⟨row', hrow', -⟩ := hmove.extends
          simp [hrow'] at hnone

/-- A run that was there and is not has been deleted. -/
theorem exists_deleteCommits (hm : IdsApart m) (h : Exec (system env) m tr s)
    (hrow : (m.slice run).row = some row) : (s.slice run).row = none →
      ∃ e ∈ tr, DeleteCommits e.pre e.act run := by
  induction h with
  | nil =>
      intro hnone
      simp [hrow] at hnone
  | @snoc tr s s' a h hstep ih =>
      intro hnone
      have hapart : IdsApart s := h.invariant hm fun _ _ _ hI hstep => hI.step hstep
      cases hold : (s.slice run).row with
      | none =>
          obtain ⟨e, he, hdeleted⟩ := ih hold
          exact ⟨e, List.mem_append_left _ he, hdeleted⟩
      | some old =>
          exact ⟨⟨s, a, s'⟩, List.mem_append_right _ (List.mem_singleton.mpr rfl),
            deleteCommits_of_none hapart hstep hold hnone⟩

end

end SpurApi
