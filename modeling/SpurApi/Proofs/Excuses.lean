/-
Why a request fails with 500.

A session reads a row, awaits, and goes on as if the row were still there.  What can go
wrong in between is that the row is deleted, and the schema's cascades widen this: the
runs of a project go with it.  So every 500 of a request that writes is put down to what
happened while the request was in flight: a deletion of a row it works on, a failure of
Redis, a project whose tours do not say when they end, or a value that its column does not
hold.  A deletion never fails, and a save of values that their columns hold fails only after
it was committed, since nobody deletes a project under its lock.  What the database raises
by itself, for a lost connection or for locks that wait for each other in a circle, is left
out.
-/
import SpurApi.Proofs.Termination

namespace SpurApi

open Transition

section

variable {μ : Type} {env : Env μ} {s₀ s s' : State μ} {a : Action} {r : RequestId} {p run : Uuid}
  {tr : List (Entry (State μ) Action)} {q q' : Request} {e : Entry (State μ) Action}
  {P : Entry (State μ) Action → Prop} {io : Io} {b b' : Backend}

/-! ### What happened while a request was in flight -/

def InFlight (r : RequestId) (s : State μ) : Prop :=
  ∃ q, s.requests r = some q ∧ q.isAnswered = false

/-- It happened in a step that was taken while the request was in flight. -/
def Meanwhile (tr : List (Entry (State μ) Action)) (r : RequestId)
    (P : Entry (State μ) Action → Prop) : Prop := ∃ e ∈ tr, InFlight r e.pre ∧ P e

/-- The step deletes the project. -/
def DeletesProject (env : Env μ) (p : Uuid) (e : Entry (State μ) Action) : Prop :=
  opOf env e = some (.deleteProject p)

/-- The step deletes the run, by itself or with its project. -/
def DeletesRun (env : Env μ) (run : Uuid) (e : Entry (State μ) Action) : Prop :=
  opOf env e = some (.deleteRun run) ∨
    ∃ p, DeletesProject env p e ∧ e.pre.backend.db.runOf p run = true

/-- The run is one of those that the request has submitted. -/
def Submitter (env : Env μ) (tr : List (Entry (State μ) Action)) (r : RequestId)
    (project run : Uuid) : Prop :=
  ∃ runs, .submit project runs ∈ ownOps env r tr ∧ run ∈ runs.map Prod.fst

/-- A scenario that names the first project is made to point at the second. -/
def PointsAt (tr : List (Entry (State μ) Action)) (named base : Uuid) : Prop :=
  base = named ∨ ∃ e ∈ tr, ∃ row, e.pre.projectRow named = some row ∧ row.baseProjectId = some base

/-- The submission read a project whose latest deletion time cannot be computed. -/
def Unreadable (env : Env μ) (tr : List (Entry (State μ) Action)) (r : RequestId) (project : Uuid)
    (body : RunCreate) : Prop :=
  ∃ e ∈ tr, ∃ io row exn, e.act = .request r io ∧ e.pre.projectRow project = some row ∧
    body.untilTime = none ∧ deriveUntil env.settings row.spec = .error exn

/-- The save would write a value that its column does not hold. -/
def SaveOverflows (tr : List (Entry (State μ) Action)) (r : RequestId) (id : Uuid)
    (body : ProjectSpec) : Prop :=
  ∃ e ∈ tr, ∃ io row, e.act = .request r io ∧ e.pre.projectRow id = some row ∧
    (replaceSpec row body).holds = false

/-- So would the insert of one of the submission's runs. -/
def SubmitOverflows (tr : List (Entry (State μ) Action)) (r : RequestId) (project : Uuid)
    (body : RunCreate) : Prop :=
  ∃ e ∈ tr, ∃ io rows, e.act = .request r io ∧
    e.pre.requests r = some (.submitRun project body (.inserting rows)) ∧
    ∃ sub ∈ rows, sub.row.holds = false

/-- A call of the request to Redis failed. -/
def RedisFailed (tr : List (Entry (State μ) Action)) (r : RequestId) : Prop :=
  ∃ e ∈ tr, ∃ io f, e.act = .request r io ∧ io.fault = some f

/-- What explains that the request fails with 500. -/
def Request.Excused (env : Env μ) (tr : List (Entry (State μ) Action)) (r : RequestId) :
    Request → Prop
  | .updateProject id _ body _ =>
      (Meanwhile tr r (DeletesProject env id) ∧ ∃ now, .save id body now ∈ ownOps env r tr) ∨
        SaveOverflows tr r id body
  | .createProject body owner base _ =>
      (∃ named p, base = some named ∧ PointsAt tr named p ∧ Meanwhile tr r (DeletesProject env p)) ∨
        (∃ id base now, .create id body owner base now ∈ ownOps env r tr ∧
          Meanwhile tr r (DeletesProject env id)) ∨
        ∃ baseId now, (newProject body owner baseId now).holds = false
  | .submitRun project body _ =>
      Unreadable env tr r project body ∨ Meanwhile tr r (DeletesProject env project) ∨
        (∃ run, Submitter env tr r project run ∧ Meanwhile tr r (DeletesRun env run)) ∨
        RedisFailed tr r ∨ SubmitOverflows tr r project body
  | .editRun run edit _ => Meanwhile tr r (DeletesRun env run) ∨ edit.holds = false
  | .deleteProject _ _ | .deleteRun _ _ => False

/-- The exception that ended the request. -/
def Request.unhandled : Request → Option Exn
  | .updateProject _ _ _ (.answered (.error (.unhandled e))) => some e
  | .createProject _ _ _ (.answered (.error (.unhandled e))) => some e
  | .deleteProject _ (.answered (.error (.unhandled e))) => some e
  | .submitRun _ _ (.answered (.error (.unhandled e))) => some e
  | .editRun _ _ (.answered (.error (.unhandled e))) => some e
  | .deleteRun _ (.answered (.error (.unhandled e))) => some e
  | _ => none

private theorem mem_last : e ∈ tr ++ [e] := List.mem_append_right _ (List.mem_singleton_self e)

theorem Meanwhile.mono (h : Meanwhile tr r P) : Meanwhile (tr ++ [e]) r P := by
  obtain ⟨e', he', hP⟩ := h
  exact ⟨e', List.mem_append_left _ he', hP⟩

theorem Meanwhile.last (hflight : InFlight r e.pre) (h : P e) : Meanwhile (tr ++ [e]) r P :=
  ⟨e, mem_last, hflight, h⟩

theorem ownOps_mono {op : Op} (h : op ∈ ownOps env r tr) : op ∈ ownOps env r (tr ++ [e]) := by
  rw [ownOps, shown_append]
  exact List.mem_append_left _ h

theorem Submitter.mono {project : Uuid} (h : Submitter env tr r project run) :
    Submitter env (tr ++ [e]) r project run := by
  obtain ⟨runs, hmem, hrun⟩ := h
  exact ⟨runs, ownOps_mono hmem, hrun⟩

theorem PointsAt.mono {named base : Uuid} (h : PointsAt tr named base) :
    PointsAt (tr ++ [e]) named base := by
  rcases h with h | ⟨e', he', row, hrow, hbase⟩
  · exact .inl h
  · exact .inr ⟨e', List.mem_append_left _ he', row, hrow, hbase⟩

theorem Request.Excused.mono (h : q.Excused env tr r) : q.Excused env (tr ++ [e]) r := by
  cases q with
  | updateProject id _ body _ =>
      rcases h with ⟨hgone, now, hsave⟩ | ⟨e', he', hoverflows⟩
      · exact .inl ⟨hgone.mono, now, ownOps_mono hsave⟩
      · exact .inr ⟨e', List.mem_append_left _ he', hoverflows⟩
  | createProject body owner base _ =>
      rcases h with
        ⟨named, p, hbase, hpoints, hgone⟩ | ⟨id, base', now, hcreate, hgone⟩ | hoverflows
      · exact .inl ⟨named, p, hbase, hpoints.mono, hgone.mono⟩
      · exact .inr (.inl ⟨id, base', now, ownOps_mono hcreate, hgone.mono⟩)
      · exact .inr (.inr hoverflows)
  | submitRun project body _ =>
      rcases h with ⟨e', he', hread⟩ | hgone | ⟨run, hown, hgone⟩ | ⟨e', he', hfault⟩ |
        ⟨e', he', hoverflows⟩
      · exact .inl ⟨e', List.mem_append_left _ he', hread⟩
      · exact .inr (.inl hgone.mono)
      · exact .inr (.inr (.inl ⟨run, hown.mono, hgone.mono⟩))
      · exact .inr (.inr (.inr (.inl ⟨e', List.mem_append_left _ he', hfault⟩)))
      · exact .inr (.inr (.inr (.inr ⟨e', List.mem_append_left _ he', hoverflows⟩)))
  | editRun run _ _ => exact h.imp_left Meanwhile.mono
  | deleteProject | deleteRun => exact h

/-! ### Rows go by deletions only -/

theorem project_gone (h₀ : s₀.Initial) (h : Exec (system env) s₀ tr s)
    (hstep : s.step env a = some s') (hrow : (s.backend.db.projects p).isSome = true) :
    (s'.backend.db.projects p).isSome = true ∨ DeletesProject env p ⟨s, a, s'⟩ := by
  obtain ⟨row, hrow⟩ := Option.isSome_iff_exists.mp hrow
  have htakes := takes_of_exec h₀ h hstep
  unfold Takes at htakes
  split at htakes
  · exact .inl (by rw [htakes, hrow, Option.isSome_some])
  · rename_i op hop
    rcases Op.project_kept htakes hrow with rfl | ⟨row', hrow', -⟩
    · exact .inr hop
    · exact .inl (by rw [hrow', Option.isSome_some])

theorem run_gone (h₀ : s₀.Initial) (h : Exec (system env) s₀ tr s)
    (hstep : s.step env a = some s') (hrow : (s.backend.db.runs run).isSome = true) :
    (s'.backend.db.runs run).isSome = true ∨ DeletesRun env run ⟨s, a, s'⟩ := by
  have htakes := takes_of_exec h₀ h hstep
  unfold Takes at htakes
  split at htakes
  · exact .inl (by rw [htakes, hrow])
  · rename_i op hop
    cases Op.fate htakes run with
    | kept _ hrow' => exact .inl (by rw [hrow', Option.isSome_map, hrow])
    | reported _ _ hrow' | submitted _ _ _ _ hrow' => exact .inl (by rw [hrow', Option.isSome_some])
    | deleted hdelete =>
        rcases hdelete with rfl | ⟨p, rfl, hof⟩
        · exact .inr (.inl hop)
        · exact .inr (.inr ⟨p, hop, hof⟩)

/-- The project is there, or was deleted while the request was in flight. -/
def HasProject (env : Env μ) (tr : List (Entry (State μ) Action)) (r : RequestId) (s : State μ)
    (p : Uuid) : Prop :=
  (s.backend.db.projects p).isSome = true ∨ Meanwhile tr r (DeletesProject env p)

/-- So is the run. -/
def HasRun (env : Env μ) (tr : List (Entry (State μ) Action)) (r : RequestId) (s : State μ)
    (run : Uuid) : Prop :=
  (s.backend.db.runs run).isSome = true ∨ Meanwhile tr r (DeletesRun env run)

theorem HasProject.step (h : HasProject env tr r s p) (h₀ : s₀.Initial)
    (hexec : Exec (system env) s₀ tr s) (hflight : InFlight r s)
    (hstep : s.step env a = some s') : HasProject env (tr ++ [⟨s, a, s'⟩]) r s' p := by
  rcases h with hrow | hgone
  · exact (project_gone h₀ hexec hstep hrow).imp_right (Meanwhile.last hflight)
  · exact .inr hgone.mono

theorem HasRun.step (h : HasRun env tr r s run) (h₀ : s₀.Initial)
    (hexec : Exec (system env) s₀ tr s) (hflight : InFlight r s)
    (hstep : s.step env a = some s') : HasRun env (tr ++ [⟨s, a, s'⟩]) r s' run := by
  rcases h with hrow | hgone
  · exact (run_gone h₀ hexec hstep hrow).imp_right (Meanwhile.last hflight)
  · exact .inr hgone.mono

theorem HasProject.gone (h : HasProject env tr r s p) (hnone : s.backend.db.projects p = none) :
    Meanwhile tr r (DeletesProject env p) := h.resolve_left (by simp [hnone])

theorem HasRun.gone (h : HasRun env tr r s run) (hnone : s.backend.db.runs run = none) :
    Meanwhile tr r (DeletesRun env run) := h.resolve_left (by simp [hnone])

/-! ### What an open request goes on from -/

/-- The runs a submission still awaits to find. -/
def SubmitRun.awaited : SubmitRun → List Uuid
  | .inserting _ => []
  | .reloading first => [first]
  | point => point.ids

/-- The rows that the request goes on from are there, or were deleted in the meantime. -/
def Request.Sees (env : Env μ) (tr : List (Entry (State μ) Action)) (r : RequestId) (s : State μ) :
    Request → Prop
  | .updateProject id _ _ point => point = .saved → HasProject env tr r s id
  | .createProject _ _ base point =>
      (∀ p, point = .inserting (some p) → HasProject env tr r s p ∧
        ∃ named, base = some named ∧ PointsAt tr named p) ∧
      ∀ id, point = .created id → HasProject env tr r s id
  | .submitRun project _ point =>
      (∀ rows, point = .inserting rows → HasProject env tr r s project) ∧
      ∀ run ∈ point.awaited, HasRun env tr r s run ∧ Submitter env tr r project run
  | .editRun run _ point => point ≠ .received → HasRun env tr r s run
  | .deleteProject _ _ | .deleteRun _ _ => True

/-- The others' steps leave it so. -/
theorem Request.Sees.step (h : q.Sees env tr r s) (h₀ : s₀.Initial)
    (hexec : Exec (system env) s₀ tr s) (hflight : InFlight r s)
    (hstep : s.step env a = some s') : q.Sees env (tr ++ [⟨s, a, s'⟩]) r s' := by
  cases q with
  | updateProject id _ _ point => exact fun hq => (h hq).step h₀ hexec hflight hstep
  | createProject _ _ base point =>
      refine ⟨fun p hq => ?_, fun id hq => (h.2 id hq).step h₀ hexec hflight hstep⟩
      obtain ⟨hbase, named, hnamed, hpoints⟩ := h.1 p hq
      exact ⟨hbase.step h₀ hexec hflight hstep, named, hnamed, hpoints.mono⟩
  | submitRun project _ point =>
      refine ⟨fun rows hq => (h.1 rows hq).step h₀ hexec hflight hstep, fun run hrun => ?_⟩
      obtain ⟨hhas, hown⟩ := h.2 run hrun
      exact ⟨hhas.step h₀ hexec hflight hstep, hown.mono⟩
  | editRun run _ point => exact fun hq => (h hq).step h₀ hexec hflight hstep
  | deleteProject | deleteRun => trivial

/-- What holds of a request at every point. -/
def Request.Accounts (env : Env μ) (tr : List (Entry (State μ) Action)) (r : RequestId)
    (s : State μ) (q : Request) : Prop :=
  (q.isAnswered = false → q.Sees env tr r s) ∧
    ∀ exn, q.unhandled = some exn → q.Excused env tr r

theorem inFlight_of_step (hreq : s.requests r = some q) (h : q.step env r io b = some (q', b')) :
    InFlight r s := by
  refine ⟨q, hreq, ?_⟩
  have hlt := Request.rank_lt h
  rw [← Bool.not_eq_true, Request.isAnswered_iff]
  omega

/-! ### The steps of a request -/

theorem unhandled_of_status {id : Uuid} {ifMatch : Option HeaderValue} {body : ProjectSpec}
    {e : ApiError} (h : e.status ≠ 500) :
    (Request.updateProject id ifMatch body (.answered (.error e))).unhandled = none := by
  cases e with
  | unhandled => exact absurd rfl h
  | _ => rfl

theorem sees_updateProject {id : Uuid} {ifMatch : Option HeaderValue} {body : ProjectSpec}
    {point point' : UpdateProject} (h₀ : s₀.Initial) (hexec : Exec (system env) s₀ tr s)
    (hreq : s.requests r = some (.updateProject id ifMatch body point))
    (hsees : (Request.updateProject id ifMatch body point).Sees env tr r s)
    (hmove : PutMove r id ifMatch body io s.backend point point' s'.backend) :
    (Request.updateProject id ifMatch body point').Accounts env (tr ++ [⟨s, .request r io, s'⟩])
      r s' := by
  have hdid := request_did h₀ hexec hreq
  have hholds := ((h₀.putsHold id).exec hexec).points hreq
  generalize hb : s'.backend = b' at hmove
  cases hmove with
  | badHeader hheader =>
      have h400 := versionFrom_error hheader
      exact ⟨by simp [Request.isAnswered], by simp [unhandled_of_status, h400]⟩
  | @unstorable expected row hoverflows =>
      obtain ⟨-, -, -, stored, hstored, hsame⟩ := hholds
      refine ⟨by simp [Request.isAnswered],
        fun _ _ => .inr ⟨_, mem_last, io, stored, rfl, hstored, ?_⟩⟩
      rw [hsame]
      exact hoverflows
  | vanished hnone =>
      obtain ⟨-, -, -, stored, hstored, -⟩ := hholds
      simp [hnone] at hstored
  | saved hstored =>
      refine ⟨fun _ _ => .inl ?_, by simp [Request.unhandled]⟩
      rw [hb]
      simp [Backend.unlock, Backend.setProject, Db.setProject]
  | closed =>
      obtain ⟨-, h412⟩ := hholds
      exact ⟨by simp [Request.isAnswered], by simp [unhandled_of_status, h412]⟩
  | reloadFailed hnone =>
      obtain ⟨now, hsave⟩ := hdid
      refine ⟨by simp [Request.isAnswered],
        fun _ _ => .inl ⟨((hsees rfl).gone hnone).mono, now, ?_⟩⟩
      exact ownOps_mono (by rw [hsave]; exact List.mem_singleton_self _)
  | _ => exact ⟨fun _ hq => by simp at hq, by simp [Request.unhandled, projectNotFound]⟩

theorem sees_createProject {body : ProjectSpec} {owner : Option String} {base : Option Uuid}
    {point point' : CreateProject} (h₀ : s₀.Initial) (hexec : Exec (system env) s₀ tr s)
    (hreq : s.requests r = some (.createProject body owner base point))
    (hsees : (Request.createProject body owner base point).Sees env tr r s) (he : e.pre = s)
    (hmove : CreateMove body owner base io s.backend point point' s'.backend) :
    (Request.createProject body owner base point').Accounts env (tr ++ [e]) r s' := by
  have hdid := request_did h₀ hexec hreq
  generalize hb : s'.backend = b' at hmove
  cases hmove with
  | alone => exact ⟨fun _ => ⟨by simp, by simp⟩, by simp [Request.unhandled]⟩
  | missing => exact ⟨by simp [Request.isAnswered], by simp [Request.unhandled, projectNotFound]⟩
  | @named named read hbase hread =>
      refine ⟨fun _ => ⟨fun p hq => ?_, by simp⟩, by simp [Request.unhandled]⟩
      simp only [CreateProject.inserting.injEq, Option.some.injEq] at hq
      subst hq
      cases hpoint : read.baseProjectId with
      | none => exact ⟨.inl (by rw [hb]; simp [hread]), named, hbase, .inl rfl⟩
      | some p =>
          obtain ⟨tr', hstore, -⟩ := exists_store_exec h₀ hexec
          obtain ⟨baseRow, hbaseRow⟩ := (h₀.sound.exec hstore).bases hread hpoint
          refine ⟨.inl (by rw [hb]; simp [hbaseRow]), named, hbase, .inr ⟨e, mem_last, read, ?_⟩⟩
          exact ⟨he ▸ hread, hpoint⟩
  | inserted =>
      refine ⟨fun _ => ⟨by simp, fun id hq => ?_⟩, by simp [Request.unhandled]⟩
      simp only [CreateProject.created.injEq] at hq
      subst hq
      refine .inl ?_
      rw [hb]
      simp [Backend.setProject, Db.setProject]
  | unstorable _ hoverflows =>
      exact ⟨by simp [Request.isAnswered], fun _ _ => .inr (.inr ⟨_, _, hoverflows⟩)⟩
  | @baseGone baseId id _ hbase =>
      refine ⟨by simp [Request.isAnswered], fun _ _ => ?_⟩
      cases baseId with
      | none => simp [Db.hasBase] at hbase
      | some p =>
          obtain ⟨hhas, named, hnamed, hpoints⟩ := hsees.1 p rfl
          have hnone : s.backend.db.projects p = none := by simpa [Db.hasBase] using hbase
          exact .inl ⟨named, p, hnamed, hpoints.mono, (hhas.gone hnone).mono⟩
  | @reloadFailed id hnone =>
      obtain ⟨base', now, hcreate⟩ := hdid
      refine ⟨by simp [Request.isAnswered], fun _ _ => .inr (.inl ⟨id, base', now, ?_, ?_⟩)⟩
      · exact ownOps_mono (by rw [hcreate]; exact List.mem_singleton_self _)
      · exact ((hsees.2 id rfl).gone hnone).mono
  | reloaded => exact ⟨by simp [Request.isAnswered], by simp [Request.unhandled]⟩

/-- An `UPDATE` of a run raises only when the run is gone. -/
theorem updateRun_error {loaded assigned : SimulationRunRow} {stored : Option SimulationRunRow}
    {exn : Exn} (h : updateRun loaded assigned stored = .error exn) : stored = none := by
  cases stored with
  | none => rfl
  | some row => simp [updateRun_some] at h

theorem autoflush_error {db : Db} {done : List Submitted} {exn : Exn}
    (h : autoflush db done = .error exn) : ∃ sub ∈ done, db.runs sub.id = none := by
  rw [autoflush] at h
  split at h
  · simp at h
  · rename_i sub hlast
    split at h
    · rename_i hupdate
      exact ⟨sub, List.mem_of_getLast? hlast, updateRun_error hupdate⟩
    · simp at h

theorem commitJobIds_error {rows : List Submitted} {exn : Exn} :
    ∀ {b : Backend}, b.commitJobIds rows = .error exn →
      ∃ sub ∈ rows, b.db.runs sub.id = none := by
  induction rows with
  | nil => simp [Backend.commitJobIds]
  | cons sub rest ih =>
      intro b h
      rw [Backend.commitJobIds] at h
      split at h
      · rename_i hupdate
        exact ⟨sub, List.mem_cons_self, updateRun_error hupdate⟩
      · rename_i row hupdate
        obtain ⟨sub', hsub', hnone⟩ := ih h
        refine ⟨sub', List.mem_cons_of_mem _ hsub', ?_⟩
        by_cases hid : sub'.id = sub.id
        · -- the run was not there to be updated either
          rw [hid] at hnone ⊢
          cases hrow : b.db.runs sub.id with
          | none => rfl
          | some stored =>
              rw [hrow, updateRun_some, Except.ok.injEq] at hupdate
              simp [← hupdate, Backend.setRun, Db.setRun] at hnone
        · simpa [Backend.setRun, Db.setRun, hid] using hnone

/-- A submission fails when one of its runs is gone. -/
theorem excused_of_run {project : Uuid} {body : RunCreate} {point point' : SubmitRun}
    (hsees : (Request.submitRun project body point).Sees env tr r s) (hrun : run ∈ point.awaited)
    (hnone : s.backend.db.runs run = none) :
    (Request.submitRun project body point').Excused env (tr ++ [e]) r := by
  obtain ⟨hhas, hown⟩ := hsees.2 run hrun
  exact .inr (.inr (.inl ⟨run, hown.mono, (hhas.gone hnone).mono⟩))

theorem accounts_loop {project : Uuid} {body : RunCreate} {done todo : List Submitted}
    (h : ∀ run ∈ (done ++ todo).map Submitted.id,
      HasRun env tr r s run ∧ Submitter env tr r project run) :
    (Request.submitRun project body (SubmitRun.loop done todo)).Accounts env tr r s := by
  rw [← SubmitRun.loop_ids] at h
  cases todo with
  | nil =>
      exact ⟨fun _ => ⟨fun _ hq => by simp [SubmitRun.loop] at hq, h⟩,
        fun _ hexn => by simp [SubmitRun.loop, Request.unhandled] at hexn⟩
  | cons =>
      exact ⟨fun _ => ⟨fun _ hq => by simp [SubmitRun.loop] at hq, h⟩,
        fun _ hexn => by simp [SubmitRun.loop, Request.unhandled] at hexn⟩

theorem sees_submitRun {project : Uuid} {body : RunCreate} {point point' : SubmitRun}
    (h₀ : s₀.Initial) (hexec : Exec (system env) s₀ tr s)
    (hstep : s.step env (.request r io) = some s')
    (hreq : s.requests r = some (.submitRun project body point))
    (hreq' : s'.requests r = some (.submitRun project body point')) (hflight : InFlight r s)
    (hsees : (Request.submitRun project body point).Sees env tr r s)
    (hmove : SubmitMove env.spur env.settings project body io s.backend point point' s'.backend) :
    (Request.submitRun project body point').Accounts env (tr ++ [⟨s, .request r io, s'⟩]) r s' := by
  have hkept := hsees.step h₀ hexec hflight hstep
  have hstep' : (system env).step s (.request r io) = some s' := hstep
  have hdid' := request_did h₀ (hexec.snoc hstep') hreq'
  generalize hb : s'.backend = b' at hmove
  cases hmove with
  | missing | invalid | reloaded =>
      exact ⟨by simp [Request.isAnswered],
        by simp [Request.unhandled, projectNotFound, projectInvalid]⟩
  | unstorable hholds =>
      obtain ⟨sub, hsub, hoverflows⟩ := List.all_eq_false.mp hholds
      exact ⟨by simp [Request.isAnswered], fun _ _ => .inr (.inr (.inr (.inr
        ⟨_, mem_last, io, _, rfl, hreq, sub, hsub, Bool.not_eq_true _ ▸ hoverflows⟩)))⟩
  | @noTarget row exn hread htarget =>
      refine ⟨by simp [Request.isAnswered], fun _ _ =>
        .inl ⟨_, mem_last, io, row, exn, rfl, hread, ?_⟩⟩
      rw [submittedTarget] at htarget
      split at htarget
      · simp at htarget
      · exact ⟨‹_›, htarget⟩
  | built hread =>
      refine ⟨fun _ => ⟨fun _ _ => .inl ?_, by simp [SubmitRun.awaited]⟩,
        by simp [Request.unhandled]⟩
      rw [hb]
      simp [Backend.mint, hread]
  | @insertRefused rows _ hnone =>
      exact ⟨by simp [Request.isAnswered],
        fun _ _ => .inr (.inl ((hsees.1 rows rfl).gone hnone).mono)⟩
  | @inserted rows _ hread =>
      have hnodup : (rows.map Submitted.id).Nodup := (RunsOk.exec h₀ hexec).apart.nodup r _ hreq
      obtain ⟨runs, hdid, -, hruns⟩ : Submits project body.seeds (SubmitRun.loop [] rows).ids
          (ownOps env r (tr ++ [⟨s, .request r io, s'⟩])) := by cases rows <;> exact hdid'
      rw [SubmitRun.loop_ids, List.nil_append] at hruns
      refine accounts_loop fun run hrun => ⟨.inl ?_, runs, by simp [hdid], hruns ▸ hrun⟩
      obtain ⟨sub, hsub, rfl⟩ := List.mem_map.mp hrun
      have hslice : (s.backend.insertRuns rows).slice sub.id = ⟨some sub.row, _⟩ :=
        insertRuns_of_mem hsub hnodup
      have hrow := congrArg RunSlice.row hslice
      rw [hb]
      exact Option.isSome_iff_exists.mpr ⟨_, hrow⟩
  | flushRaised hflush =>
      obtain ⟨sub, hsub, hnone⟩ := autoflush_error hflush
      refine ⟨by simp [Request.isAnswered], fun _ _ => excused_of_run hsees ?_ hnone⟩
      simp only [SubmitRun.awaited, SubmitRun.ids, List.map_append, List.mem_append]
      exact .inl (List.mem_map_of_mem hsub)
  | @refreshRaised done todo next _ hnone =>
      exact ⟨by simp [Request.isAnswered], fun _ _ => excused_of_run hsees
        (by simp [SubmitRun.awaited, SubmitRun.ids]) hnone⟩
  | @refreshed done todo next row =>
      refine ⟨fun _ => ⟨by simp, fun run hrun => hkept.2 run ?_⟩, by simp [Request.unhandled]⟩
      simpa [SubmitRun.awaited, SubmitRun.ids] using hrun
  | @enqueueRaised _ _ _ f hfault =>
      exact ⟨by simp [Request.isAnswered],
        fun _ _ => .inr (.inr (.inr (.inl ⟨_, mem_last, io, f, rfl, hfault⟩)))⟩
  | @enqueued done todo next =>
      refine accounts_loop fun run hrun => hkept.2 run ?_
      simpa [SubmitRun.awaited, SubmitRun.ids] using hrun
  | commitRaised hcommit =>
      obtain ⟨sub, hsub, hnone⟩ := commitJobIds_error hcommit
      exact ⟨by simp [Request.isAnswered],
        fun _ _ => excused_of_run hsees (List.mem_map_of_mem hsub) hnone⟩
  | @recorded sub rest =>
      refine ⟨fun _ => ⟨by simp, fun run hrun => hkept.2 run ?_⟩, by simp [Request.unhandled]⟩
      simp only [SubmitRun.awaited, List.mem_singleton] at hrun
      simp [SubmitRun.awaited, SubmitRun.ids, hrun]
  | reloadFailed hnone =>
      exact ⟨by simp [Request.isAnswered],
        fun _ _ => excused_of_run hsees (List.mem_singleton_self _) hnone⟩

theorem sees_editRun {edit : RunEdit} {point point' : EditRun}
    (hkept : (Request.editRun run edit point).Sees env (tr ++ [e]) r s')
    (hsees : (Request.editRun run edit point).Sees env tr r s)
    (hmove : EditMove run edit s.backend point point' s'.backend) :
    (Request.editRun run edit point').Accounts env (tr ++ [e]) r s' := by
  generalize hb : s'.backend = b' at hmove
  cases hmove with
  | missing => exact ⟨by simp [Request.isAnswered], by simp [Request.unhandled, runNotFound]⟩
  | loaded hrow =>
      refine ⟨fun _ _ => .inl ?_, by simp [Request.unhandled]⟩
      rw [hb, hrow, Option.isSome_some]
  | unstorable _ hholds => exact ⟨by simp [Request.isAnswered], fun _ _ => .inr hholds⟩
  | updateRaised _ hupdate =>
      exact ⟨by simp [Request.isAnswered],
        fun _ _ => .inl ((hsees (by simp)).gone (updateRun_error hupdate)).mono⟩
  | committed => exact ⟨fun _ _ => hkept (by simp), by simp [Request.unhandled]⟩
  | reloadFailed hnone =>
      exact ⟨by simp [Request.isAnswered], fun _ _ => .inl ((hsees (by simp)).gone hnone).mono⟩
  | reloaded => exact ⟨by simp [Request.isAnswered], by simp [Request.unhandled]⟩

theorem sees_deleteProject {id : Uuid} {point point' : DeleteProject}
    (hmove : point.step id b = some (point', b')) :
    (Request.deleteProject id point').Accounts env tr r s := by
  refine ⟨fun _ => trivial, fun exn hexn => ?_⟩
  cases point <;> simp only [DeleteProject.step] at hmove
  all_goals repeat' split at hmove
  all_goals cases hmove <;> simp [Request.unhandled, projectNotFound] at hexn

theorem sees_deleteRun {point point' : DeleteRun} (hmove : point.step run b = some (point', b')) :
    (Request.deleteRun run point').Accounts env tr r s := by
  refine ⟨fun _ => trivial, fun exn hexn => ?_⟩
  cases point <;> simp only [DeleteRun.step] at hmove
  all_goals repeat' split at hmove
  all_goals cases hmove <;> simp [Request.unhandled, runNotFound] at hexn

/-! ### Every run of the service -/

theorem accounts_of_isReceived (h : q.isReceived = true) : q.Accounts env tr r s := by
  cases q with
  | updateProject _ _ _ point =>
      cases point <;>
        simp_all [Request.isReceived, Request.Accounts, Request.Sees, Request.unhandled]
  | createProject _ _ _ point =>
      cases point <;>
        simp_all [Request.isReceived, Request.Accounts, Request.Sees, Request.unhandled]
  | deleteProject _ point =>
      cases point <;>
        simp_all [Request.isReceived, Request.Accounts, Request.Sees, Request.unhandled]
  | submitRun _ _ point =>
      cases point <;> simp_all [Request.isReceived, Request.Accounts, Request.Sees,
        Request.unhandled, SubmitRun.awaited, SubmitRun.ids]
  | editRun _ _ point =>
      cases point <;>
        simp_all [Request.isReceived, Request.Accounts, Request.Sees, Request.unhandled]
  | deleteRun _ point =>
      cases point <;>
        simp_all [Request.isReceived, Request.Accounts, Request.Sees, Request.unhandled]

theorem accounts (h₀ : s₀.Initial) (h : Exec (system env) s₀ tr s) :
    ∀ {q : Request}, s.requests r = some q → q.Accounts env tr r s := by
  induction h with
  | nil =>
      intro q hq
      simp [h₀.requests] at hq
  | @snoc tr s s' a h hstep ih =>
      intro q' hq'
      cases request_step hstep hq' with
      | kept _ hq =>
          obtain ⟨hsees, hexcused⟩ := ih hq
          exact ⟨fun hopen => (hsees hopen).step h₀ h ⟨q', hq, hopen⟩ hstep,
            fun exn hexn => (hexcused exn hexn).mono⟩
      | arrived _ _ hreceived => exact accounts_of_isReceived hreceived
      | @stepped io q ha hq hqstep =>
          subst ha
          obtain ⟨q₀, hq₀, hopen⟩ := inFlight_of_step hq hqstep
          rw [hq, Option.some.injEq] at hq₀
          subst hq₀
          have hsees := (ih hq).1 hopen
          have hflight : InFlight r s := ⟨q, hq, hopen⟩
          cases q with
          | updateProject id ifMatch body point =>
              simp only [Request.step, Option.map_eq_some_iff, Prod.exists, Prod.mk.injEq] at hqstep
              obtain ⟨_, _, hpoint, rfl, rfl⟩ := hqstep
              exact sees_updateProject h₀ h hq hsees (putMove_of_step hpoint)
          | createProject body owner base point =>
              simp only [Request.step, Option.map_eq_some_iff, Prod.exists, Prod.mk.injEq] at hqstep
              obtain ⟨_, _, hpoint, rfl, rfl⟩ := hqstep
              exact sees_createProject h₀ h hq hsees rfl (createMove_of_step hpoint)
          | deleteProject id point =>
              simp only [Request.step, Option.map_eq_some_iff, Prod.exists, Prod.mk.injEq] at hqstep
              obtain ⟨_, _, hpoint, rfl, rfl⟩ := hqstep
              exact sees_deleteProject hpoint
          | submitRun project body point =>
              simp only [Request.step, Option.map_eq_some_iff, Prod.exists, Prod.mk.injEq] at hqstep
              obtain ⟨_, _, hpoint, rfl, rfl⟩ := hqstep
              exact sees_submitRun h₀ h hstep hq hq' hflight hsees (submitMove_of_step hpoint)
          | editRun run edit point =>
              have hserved : s.step env (.request r io) = some s' := hstep
              have hkept := hsees.step h₀ h hflight hserved
              simp only [Request.step, Option.map_eq_some_iff, Prod.exists, Prod.mk.injEq] at hqstep
              obtain ⟨_, _, hpoint, rfl, rfl⟩ := hqstep
              exact sees_editRun hkept hsees (editMove_of_step hpoint)
          | deleteRun run point =>
              simp only [Request.step, Option.map_eq_some_iff, Prod.exists, Prod.mk.injEq] at hqstep
              obtain ⟨_, _, hpoint, rfl, rfl⟩ := hqstep
              exact sees_deleteRun hpoint

/-- **Every 500 is explained**: a request that fails with it works on a row that was deleted while
the request was in flight, was let down by Redis, submits a project whose tours cannot be compared,
or writes a value that its column does not hold. -/
theorem failures_are_excused (h₀ : s₀.Initial) (h : Exec (system env) s₀ tr s) {exn : Exn}
    (hreq : s.requests r = some q) (hfailed : q.unhandled = some exn) : q.Excused env tr r :=
  (accounts h₀ h hreq).2 exn hfailed

end

/-- A project is deleted while a run of it is submitted, after the commit of the run. -/
def cutOffSubmission : List (Entry (State Int) Action) × State Int :=
  (system clockEnv).played State.empty
    [.arrive 0 (.createProject (.blank "A") none none .received), .request 0 {},
      .request 0 { ids := [1] }, .arrive 1 (.submitRun 1 (.single none none) .received),
      .request 1 { ids := [2, 3] }, .request 1 {}, .arrive 2 (.deleteProject 1 .received),
      .request 2 {}, .request 2 {}, .request 1 {}] (by decide)

theorem cut_off_submission_is_excused :
    cutOffSubmission.2.requests 1 = some (.submitRun 1 (.single none none)
        (.answered (.error (.unhandled refreshFailed)))) ∧
      Request.Excused clockEnv cutOffSubmission.1 1 (.submitRun 1 (.single none none)
        (.answered (.error (.unhandled refreshFailed)))) :=
  ⟨rfl, failures_are_excused State.empty_initial (Machine.played_exec _) rfl rfl⟩

end SpurApi
