/-
Where the row of a run comes from.

A submission reads the project once, and from what it reads and draws then it builds the rows
of its batch; it inserts them later.  `Build` is what it read and drew, and `origin_of_row`
traces every row back to the step at which it was built, however long ago.
-/
import SpurApi.Proofs.Submissions

namespace SpurApi

open Transition

/-! ### Building the rows of a batch -/

/-- What a submission reads and draws when it builds its rows. -/
structure Build where
  read : ProjectRow
  target : Int
  batch : Uuid
  ids : List Uuid
  draw : Int

/-- The rows it builds. -/
def Build.rows (w : Build) (project : Uuid) (body : RunCreate) : List Submitted :=
  runRows project w.read body w.target (if 1 < body.seeds then some w.batch else none)
    (firstSeed body w.draw) w.ids

@[simp] theorem Build.rows_ids (w : Build) (project : Uuid) (body : RunCreate) :
    (w.rows project body).map Submitted.id = w.ids := runRows_ids ..

theorem mem_runRows_iff {project : Uuid} {read : ProjectRow} {body : RunCreate} {target : Int}
    {batch : Option Uuid} {sub : Submitted} {ids : List Uuid} :
    ∀ {seed : Int}, sub ∈ runRows project read body target batch seed ids ↔
      ∃ i : Nat, ∃ id, ids[i]? = some id ∧
        sub = ⟨id, newRun project read body target (seed + i) batch, none⟩ := by
  induction ids with
  | nil => simp [runRows]
  | cons id ids ih =>
      intro seed
      rw [runRows, List.mem_cons, ih]
      constructor
      · rintro (rfl | ⟨i, id', hid, rfl⟩)
        · exact ⟨0, id, rfl, by simp⟩
        · refine ⟨i + 1, id', by simpa using hid, ?_⟩
          rw [show seed + 1 + (i : Int) = seed + (i + 1 : Nat) by omega]
      · rintro ⟨i, id', hid, rfl⟩
        cases i with
        | zero =>
            rw [List.getElem?_cons_zero, Option.some.injEq] at hid
            exact .inl (by simp [hid])
        | succ i =>
            rw [List.getElem?_cons_succ] at hid
            refine .inr ⟨i, id', hid, ?_⟩
            rw [show seed + 1 + (i : Int) = seed + (i + 1 : Nat) by omega]

/-- The `i`-th row of a batch. -/
theorem Build.mem_rows_iff {w : Build} {project : Uuid} {body : RunCreate} {sub : Submitted} :
    sub ∈ w.rows project body ↔ ∃ i : Nat, ∃ id, w.ids[i]? = some id ∧
      sub = ⟨id, newRun project w.read body w.target (firstSeed body w.draw + i)
        (if 1 < body.seeds then some w.batch else none), none⟩ := mem_runRows_iff

section

variable {μ : Type} {env : Env μ} {s₀ s s' : State μ} {a : Action} {r : RequestId}
  {project run : Uuid} {body : RunCreate} {tr : List (Entry (State μ) Action)}

/-- The submission goes ahead on this: the project is valid, it has a target, the ids are new, and
the random draw is in its range. -/
structure Build.Valid (env : Env μ) (b : Backend) (project : Uuid) (body : RunCreate)
    (w : Build) : Prop where
  read : b.db.projects project = some w.read
  accepted : (env.spur.validate w.read.spec).valid = true
  target : submittedTarget env.settings w.read body = .ok w.target
  fresh : b.fresh (w.batch :: w.ids) = true
  length : w.ids.length = body.seeds
  drawable : drawable body.seeds w.draw = true

/-- At this entry the request built the rows of its batch. -/
structure BuiltAt (env : Env μ) (r : RequestId) (project : Uuid) (body : RunCreate) (w : Build)
    (e : Entry (State μ) Action) : Prop where
  act : ∃ io, e.act = .request r io
  pre : e.pre.requests r = some (.submitRun project body .received)
  post : e.post.requests r = some (.submitRun project body (.inserting (w.rows project body)))
  valid : w.Valid env e.pre.backend project body
  minted : e.post.backend = e.pre.backend.mint (w.batch :: w.ids)

/-- A submission is about to insert only what it has just built. -/
theorem build_of_step {io : Io} {b b' : Backend} {q : SubmitRun} {rows : List Submitted}
    (h : q.step env.spur env.settings project body io b = some (.inserting rows, b')) :
    q = .received ∧ ∃ w : Build, w.Valid env b project body ∧ rows = w.rows project body ∧
      b' = b.mint (w.batch :: w.ids) := by
  cases q with
  | received =>
      refine ⟨rfl, ?_⟩
      rw [SubmitRun.step] at h
      split at h
      · simp at h
      · rename_i read hread
        split at h
        · rename_i hvalid
          split at h
          · simp at h
          · rename_i target htarget
            split at h
            · rename_i batch ids hids
              split at h
              · rename_i hguard
                simp only [Option.some.injEq, Prod.mk.injEq, SubmitRun.inserting.injEq] at h
                simp only [Bool.and_eq_true, beq_iff_eq] at hguard
                exact ⟨⟨read, target, batch, ids, io.draw⟩,
                  ⟨hread, hvalid, htarget, hguard.1.1, hguard.1.2, hguard.2⟩, h.1.symm, h.2.symm⟩
              · simp at h
            · simp at h
        · simp at h
  | inserting rows' =>
      rw [SubmitRun.step] at h
      split at h
      · split at h
        · simp at h
        · cases rows' <;> simp [SubmitRun.loop] at h
      · simp at h
  | enqueueing done next todo =>
      rw [SubmitRun.step] at h
      split at h
      · simp at h
      · cases todo <;> simp [SubmitRun.loop] at h
  | refreshing done next todo =>
      rw [SubmitRun.step] at h
      split at h
      · simp at h
      · split at h <;> simp at h
  | recording rows' =>
      rw [SubmitRun.step] at h
      split at h
      · simp at h
      · split at h <;> simp at h
  | reloading id =>
      rw [SubmitRun.step] at h
      split at h <;> simp at h
  | answered answer => simp [SubmitRun.step] at h

/-- Rows that are about to be inserted were built at some step before. -/
theorem built_of_inserting (h₀ : s₀.Initial) (h : Exec (system env) s₀ tr s) :
    ∀ {rows : List Submitted}, s.requests r = some (.submitRun project body (.inserting rows)) →
      ∃ e ∈ tr, ∃ w, BuiltAt env r project body w e ∧ rows = w.rows project body := by
  induction h with
  | nil =>
      intro rows hreq
      simp [h₀.requests] at hreq
  | @snoc tr s s' a h hstep ih =>
      intro rows hreq'
      cases request_step hstep hreq' with
      | kept _ hreq =>
          obtain ⟨e, he, hbuilt⟩ := ih hreq
          exact ⟨e, List.mem_append_left _ he, hbuilt⟩
      | arrived _ _ hreceived => simp [Request.isReceived] at hreceived
      | @stepped io q ha hpre hqstep =>
          cases q with
          | submitRun project' body' point =>
              simp only [Request.step, Option.map_eq_some_iff, Prod.exists, Prod.mk.injEq,
                Request.submitRun.injEq] at hqstep
              obtain ⟨_, _, hpoint, ⟨rfl, rfl, rfl⟩, hb⟩ := hqstep
              obtain ⟨rfl, w, hvalid, rfl, hminted⟩ := build_of_step hpoint
              exact ⟨⟨s, a, s'⟩, List.mem_append_right _ (List.mem_singleton.mpr rfl), w,
                ⟨⟨io, ha⟩, hpre, hreq', hvalid, hb.symm.trans hminted⟩, rfl⟩
          | _ =>
              simp only [Request.step, Option.map_eq_some_iff, Prod.exists, Prod.mk.injEq] at hqstep
              obtain ⟨_, _, _, hq, _⟩ := hqstep
              simp at hq

/-! ### Tracing a row back -/

/-- A submission stays one. -/
theorem submitRun_step {q : SubmitRun} (hstep : s.step env a = some s')
    (hreq : s.requests r = some (.submitRun project body q)) :
    ∃ q', s'.requests r = some (.submitRun project body q') := by
  obtain ⟨q', hreq'⟩ := Option.isSome_iff_exists.mp
    (requests_isSome_step (r := r) hstep (by rw [hreq]; rfl))
  cases request_step hstep hreq' with
  | kept _ hkept => exact ⟨q, by rw [hreq', ← hkept, hreq]⟩
  | arrived _ hnone => simp [hreq] at hnone
  | stepped _ hpre hqstep =>
      rw [hreq, Option.some.injEq] at hpre
      subst hpre
      simp only [Request.step, Option.map_eq_some_iff, Prod.exists, Prod.mk.injEq] at hqstep
      obtain ⟨_, _, _, rfl, _⟩ := hqstep
      exact ⟨_, hreq'⟩

/-- The row of a run goes back to a submission that built it and committed it. -/
structure Origin (env : Env μ) (tr : List (Entry (State μ) Action)) (s : State μ) (run : Uuid)
    (row : SimulationRunRow) (r : RequestId) (project : Uuid) (body : RunCreate) (w : Build)
    (sub : Submitted) : Prop where
  request : ∃ q, s.requests r = some (.submitRun project body q)
  built : ∃ e ∈ tr, BuiltAt env r project body w e
  mem : sub ∈ w.rows project body
  id : sub.id = run
  created : CreatedBy tr r run
  submission : row.submission = sub.row.submission

/-- **Every row goes back to a submission.** -/
theorem origin_of_row (h₀ : s₀.Initial) (h : Exec (system env) s₀ tr s) :
    ∀ row, (s.slice run).row = some row →
      ∃ r project body w sub, Origin env tr s run row r project body w sub := by
  induction h with
  | nil =>
      intro row hrow
      exact (h₀.not_row hrow).elim
  | @snoc tr s s' a h hstep ih =>
      intro row' hrow'
      have hok := RunsOk.exec h₀ h
      have hkept : ∀ row, (s.slice run).row = some row → row'.submission = row.submission →
          ∃ r project body w sub, Origin env (tr ++ [⟨s, a, s'⟩]) s' run row' r project body w
            sub := by
        intro row hrow hsame
        obtain ⟨r, project, body, w, sub, ⟨q, hreq⟩, ⟨e, he, hbuilt⟩, hmem, hid, hcreated,
          hsub⟩ := ih row hrow
        exact ⟨r, project, body, w, sub, submitRun_step hstep hreq,
          ⟨e, List.mem_append_left _ he, hbuilt⟩, hmem, hid, hcreated.snoc, hsame.trans hsub⟩
      cases run_change hok hstep hrow' with
      | edited _ hrow _ _ hedit => exact hkept _ hrow hedit.same.submission
      | delivered _ _ _ hslice => exact hkept row' (hslice ▸ hrow') rfl
      | worked _ hrow _ _ hpok hmove =>
          exact hkept _ hrow (hmove.write hpok.copies hrow').submission
      | @inserted r project body rows sub _ _ hreq hsub hid hrow _ hblank =>
          obtain ⟨e, he, w, hbuilt, rfl⟩ := built_of_inserting h₀ h hreq
          have hnone : (s.slice run).row = none := by rw [hblank]; rfl
          have hsome : (s'.slice run).row.isSome := by rw [hrow']; rfl
          obtain ⟨io, ha⟩ := request_of_created hok.apart hstep hreq
            (List.mem_map.mpr ⟨sub, hsub, hid⟩) hsome
          exact ⟨r, project, body, w, sub, submitRun_step hstep hreq,
            ⟨e, List.mem_append_left _ he, hbuilt⟩, hsub, hid,
            ⟨⟨s, a, s'⟩, List.mem_append_right _ (List.mem_singleton.mpr rfl), io, ha, hnone,
              hsome⟩, by rw [← hrow]⟩

end

end SpurApi
