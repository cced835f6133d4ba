/-
Nothing is written that a call which was let in did not ask for.

A history of the application is one of the service in which only the calls that were let
in arrive.  A request keeps what it arrived with, so each operation it commits is traced
back to the call it came in with, and from there to the key that let it in.
-/
import SpurApi.Main
import SpurApi.Proofs.Auth
import SpurApi.Proofs.Atomic
import SpurApi.Proofs.Provenance
import SpurApi.Proofs.Scenarios

namespace SpurApi

open Transition

/-! ### Who is let in -/

/-- Why authentication lets a call in, and as whom. -/
inductive Admitted (settings : AuthSettings) (authorization : Option HeaderValue) :
    StaticPrincipal → Prop
  | anonymous (hoff : settings.authEnabled = false) :
      Admitted settings authorization SpurApi.anonymous
  | key {token : List Char} (hon : settings.authEnabled = true) (hmem : token ∈ settings.apiKeys)
      (hbearer : IsBearer authorization token) :
      Admitted settings authorization ⟨keyFingerprint token⟩

theorem admitted_of_ok {settings : AuthSettings} {authorization : Option HeaderValue}
    {principal : StaticPrincipal} (h : currentPrincipal settings authorization = .ok principal) :
    Admitted settings authorization principal := by
  obtain ⟨enabled, keys⟩ := settings
  cases enabled with
  | false =>
      obtain rfl : SpurApi.anonymous = principal := Except.ok.inj h
      exact .anonymous rfl
  | true =>
      by_cases hexists : ∃ token, IsBearer authorization token
      · obtain ⟨token, hbearer⟩ := hexists
        rw [currentPrincipal_of_bearer hbearer] at h
        split at h
        · split at h
          · obtain rfl := Except.ok.inj h
            exact .key rfl ‹_› hbearer
          · simp at h
        · simp at h
      · rw [currentPrincipal_of_not_bearer (not_exists.mp hexists)] at h
        simp at h

/-- A call that became a request was let in, and its route made the request. -/
theorem HttpCall.of_dispatch {settings : AppSettings} {c : HttpCall} {q : Option Request}
    (h : c.dispatch settings = .ok q) :
    ∃ principal, Admitted settings.auth c.authorization principal ∧
      c.route.request settings.readInt principal = .ok q := by
  unfold HttpCall.dispatch at h
  split at h
  · simp at h
  · split at h
    · simp at h
    · rename_i principal hprincipal
      exact ⟨principal, admitted_of_ok hprincipal, h⟩

/-! ### The service behind the routes -/

/-- What the service sees of an action. -/
def AppAction.served (settings : AppSettings) : AppAction → Option Action
  | .call r c =>
      match c.dispatch settings with
      | .ok (some q) => some (.arrive r q)
      | _ => none
  | .serve a => if a.isServed then some a else none

section

variable {μ : Type} {settings : AppSettings} {env : Env μ} {s₀ s s' : AppState μ}
  {tr : List (Entry (AppState μ) AppAction)}

theorem AppState.step_served {a : AppAction} (h : s.step settings env a = some s') :
    match a.served settings with
    | none => s'.service = s.service
    | some b => s.service.step env b = some s'.service := by
  cases a with
  | call r c =>
      rw [AppState.step] at h
      split at h
      · rw [AppAction.served]
        cases hdispatch : c.dispatch settings with
        | error e =>
            rw [hdispatch, AppState.answer, Option.some.injEq] at h
            exact h ▸ rfl
        | ok q =>
            rw [hdispatch] at h
            cases q with
            | none => exact (Option.some.inj h) ▸ rfl
            | some q =>
                obtain ⟨t, hstep, rfl⟩ := Option.map_eq_some_iff.mp h
                exact hstep
      · simp at h
  | serve a =>
      rw [AppState.step] at h
      split at h
      · rename_i hserved
        obtain ⟨t, hstep, rfl⟩ := Option.map_eq_some_iff.mp h
        rw [AppAction.served, if_pos hserved]
        exact hstep
      · simp at h

private theorem system_mirrors_app (settings : AppSettings) (env : Env μ) :
    Mirrors (system env) (app settings env) (fun t s => t = s.service)
      (fun e => some e.act) (fun e => e.act.served settings) := by
  intro t s a s' ht hstep
  subst ht
  have hserved := AppState.step_served hstep
  cases ha : a.served settings with
  | none =>
      rw [ha] at hserved
      exact ⟨[], _, Exec.nil, hserved.symm, by simp [ha]⟩
  | some b =>
      rw [ha] at hserved
      have hstep' : (system env).step s.service b = some s'.service := hserved
      exact ⟨_, _, Exec.single hstep', rfl, by simp [ha]⟩

/-- **The history of the application is one of the service.** -/
theorem exists_service_exec (h : Exec (app settings env) s₀ tr s) :
    ∃ tr', Exec (system env) s₀.service tr' s.service ∧
      tr'.map Entry.act = shown (fun e => e.act.served settings) tr := by
  have hmirrors : Mirrors (system env) (app settings env) (fun t s => t = s.service)
      (fun e => some e.act) (fun e => e.act.served settings) := system_mirrors_app settings env
  obtain ⟨tr', t, hexec, ht, hshown⟩ := hmirrors.exec rfl h
  subst ht
  exact ⟨tr', hexec, (congrFun List.filterMap_eq_map tr').symm.trans hshown⟩

/-- What arrives at the service came in through a call that was let in. -/
theorem call_of_arrive {tr' : List (Entry (State μ) Action)} {r : RequestId} {q : Request}
    (hacts : tr'.map Entry.act = shown (fun e => e.act.served settings) tr)
    (harrive : .arrive r q ∈ tr'.map Entry.act) :
    ∃ e ∈ tr, ∃ c, e.act = .call r c ∧ c.dispatch settings = .ok (some q) := by
  rw [hacts] at harrive
  obtain ⟨e, he, hserved⟩ := List.mem_filterMap.mp harrive
  refine ⟨e, he, ?_⟩
  cases hact : e.act with
  | call r' c =>
      rw [hact, AppAction.served] at hserved
      split at hserved
      · rename_i hdispatch
        simp only [Option.some.injEq, Action.arrive.injEq] at hserved
        obtain ⟨rfl, rfl⟩ := hserved
        exact ⟨c, rfl, hdispatch⟩
      · simp at hserved
  | serve a =>
      rw [hact, AppAction.served] at hserved
      split at hserved
      · rename_i hserves
        obtain rfl := Option.some.inj hserved
        simp [Action.isServed] at hserves
      · simp at hserved

end

/-! ### What a request keeps -/

/-- The request as it arrived. -/
def Request.arrived : Request → Request
  | .updateProject id ifMatch body _ => .updateProject id ifMatch body .received
  | .createProject body owner base _ => .createProject body owner base .received
  | .deleteProject id _ => .deleteProject id .received
  | .submitRun project body _ => .submitRun project body .received
  | .editRun run e _ => .editRun run e .received
  | .deleteRun run _ => .deleteRun run .received

theorem Request.arrived_of_isReceived {q : Request} (h : q.isReceived = true) : q.arrived = q := by
  cases q with
  | updateProject _ _ _ point | createProject _ _ _ point | deleteProject _ point
  | submitRun _ _ point | editRun _ _ point | deleteRun _ point =>
      cases point <;> first | rfl | simp [Request.isReceived] at h

section

variable {μ : Type} {env : Env μ} {s₀ s s' : State μ} {tr : List (Entry (State μ) Action)}
  {r : RequestId} {q q' : Request}

theorem Request.step_arrived {io : Io} {b b' : Backend}
    (h : q.step env r io b = some (q', b')) : q'.arrived = q.arrived := by
  cases q with
  | updateProject | createProject | deleteProject | submitRun | editRun | deleteRun =>
      simp only [Request.step, Option.map_eq_some_iff, Prod.exists, Prod.mk.injEq] at h
      obtain ⟨_, _, -, rfl, -⟩ := h
      rfl

/-- Every request arrived once, as what it still says it is. -/
theorem arrive_of_request (h₀ : s₀.Initial) (h : Exec (system env) s₀ tr s) :
    ∀ {q}, s.requests r = some q → .arrive r q.arrived ∈ tr.map Entry.act := by
  induction h with
  | nil =>
      intro q hreq
      simp [h₀.requests] at hreq
  | @snoc tr s s' a h hstep ih =>
      intro q' hreq'
      rw [List.map_append, List.mem_append]
      cases request_step hstep hreq' with
      | kept _ hreq => exact .inl (ih hreq)
      | arrived ha _ hreceived =>
          rw [Request.arrived_of_isReceived hreceived]
          exact .inr (List.mem_singleton.mpr ha.symm)
      | stepped _ hreq hqstep =>
          rw [Request.step_arrived hqstep]
          exact .inl (ih hreq)

end

/-! ### What a request asks for -/

/-- The operations that a request asks for which has done these.  A project is created below
another one if the call names a base, and job ids are recorded for the runs that were submitted. -/
def Request.Asks (did : List Op) (q : Request) : Op → Prop
  | .create _ body owner baseId _ => ∃ base, q = .createProject body owner base .received ∧
      baseId.isSome = base.isSome
  | .save id body _ => ∃ ifMatch, q = .updateProject id ifMatch body .received
  | .deleteProject id => q = .deleteProject id .received
  | .submit project runs => ∃ body, q = .submitRun project body .received ∧
      runs.length = body.seeds ∧ ∀ run ∈ runs, run.2.name = body.name ∧
        run.2.requestedUntil = body.untilTime ∧ run.2.chunkSize = body.chunkSize
  | .record jobs => ∃ project body runs, q = .submitRun project body .received ∧
      .submit project runs ∈ did ∧ jobs.map Prod.fst = runs.map Prod.fst
  | .edit run e => q = .editRun run e .received
  | .deleteRun run => q = .deleteRun run .received
  | _ => False

section

variable {μ : Type} {env : Env μ} {s₀ s s' : State μ} {tr : List (Entry (State μ) Action)}
  {r : RequestId} {q q' : Request} {op : Op}

/-- The rows a submission is about to insert say what its body says. -/
theorem body_of_inserting {project : Uuid} {body : RunCreate} {rows : List Submitted}
    (h₀ : s₀.Initial) (h : Exec (system env) s₀ tr s)
    (hreq : s.requests r = some (.submitRun project body (.inserting rows))) {sub : Submitted}
    (hsub : sub ∈ rows) :
    sub.row.name = body.name ∧ sub.row.requestedUntil = body.untilTime ∧
      sub.row.chunkSize = body.chunkSize := by
  obtain ⟨_, _, w, _, rfl⟩ := built_of_inserting h₀ h hreq
  obtain ⟨i, id, -, rfl⟩ := Build.mem_rows_iff.mp hsub
  exact ⟨rfl, rfl, rfl⟩

/-- A base that a creation inserts below was named by its call. -/
theorem BaseRead.isSome {base baseId : Option Uuid} (h : BaseRead tr r base baseId) :
    baseId.isSome = base.isSome := by
  cases h <;> rfl

/-- The job ids that a submission records are those of its runs. -/
theorem recorded_of_recording {project : Uuid} {body : RunCreate} {rows : List Submitted}
    (h₀ : s₀.Initial) (h : Exec (system env) s₀ tr s)
    (hreq : s.requests r = some (.submitRun project body (.recording rows))) :
    ∃ runs, .submit project runs ∈ ownOps env r tr ∧
      (rows.filterMap fun s => s.jobId.map fun j => (s.id, j)).map Prod.fst =
        runs.map Prod.fst := by
  obtain ⟨runs, hdid, -, hids⟩ := request_did h₀ h hreq
  obtain ⟨-, hjobs⟩ := SubmitRun.records h₀ h hreq
  refine ⟨runs, by rw [hdid]; exact List.mem_singleton_self _, ?_⟩
  rw [hids, SubmitRun.ids, List.map_filterMap, ← List.filterMap_eq_map]
  refine List.filterMap_congr fun sub hsub => ?_
  obtain ⟨jobId, hjob, -⟩ := hjobs sub hsub
  rw [hjob]
  rfl

/-- **A request commits only what it asks for.** -/
theorem asks_of_op {db : Db} {io : Io} (h₀ : s₀.Initial) (h : Exec (system env) s₀ tr s)
    (hreq : s.requests r = some q) (hop : q.op db io q' = some op) :
    q.arrived.Asks (ownOps env r tr) op := by
  unfold Request.op at hop
  split at hop
  case h_1 => cases hop; exact ⟨_, rfl⟩
  case h_2 => cases hop; exact ⟨_, rfl, (baseRead_of_inserting h₀ h hreq).isSome⟩
  case h_5 rows _ =>
    cases hop
    obtain ⟨-, hlen⟩ := request_did h₀ h hreq
    refine ⟨_, rfl, by rw [List.length_map, hlen], fun run hrun => ?_⟩
    obtain ⟨sub, hsub, rfl⟩ := List.mem_map.mp hrun
    exact body_of_inserting h₀ h hreq hsub
  case h_6 =>
    cases hop
    obtain ⟨runs, hsubmitted, hjobs⟩ := recorded_of_recording h₀ h hreq
    exact ⟨_, _, runs, rfl, hsubmitted, hjobs⟩
  all_goals (try split at hop) <;> cases hop <;> rfl

theorem Request.Asks.mono {did did' : List Op} (h : q.Asks did op) (hsub : did ⊆ did') :
    q.Asks did' op := by
  cases op with
  | record jobs =>
      obtain ⟨project, body, runs, hq, hmem, hjobs⟩ := h
      exact ⟨project, body, runs, hq, hsub hmem, hjobs⟩
  | _ => exact h

end

/-! ### What is written -/

/-- Whether this is the work of a worker. -/
def Op.isWork : Op → Bool
  | .start _ _ => true
  | .report _ _ _ => true
  | .fail _ _ _ => true
  | .finish _ _ _ => true
  | _ => false

/-- The runs that have to be there for this. -/
def Op.needs : Op → List Uuid
  | .record jobs => jobs.map Prod.fst
  | .edit run _ => [run]
  | .deleteRun run => [run]
  | .start run _ => [run]
  | .report run _ _ => [run]
  | .fail run _ _ => [run]
  | .finish run _ _ => [run]
  | _ => []

section

variable {db₀ db db' : Db} {op : Op} {run : Uuid} {tr : List (Entry Db Op)}

theorem Db.record_needs {jobs : List (Uuid × String)} :
    ∀ {db db' : Db}, db.record jobs = some db' → ∀ run ∈ jobs.map Prod.fst,
      (db.runs run).isSome := by
  induction jobs with
  | nil => simp
  | cons job rest ih =>
      obtain ⟨id, jobId⟩ := job
      intro db db' h run hrun
      rw [Db.record] at h
      split at h
      · simp at h
      · rename_i db₁ hmodify
        obtain ⟨row, hrow, -, rfl⟩ := Db.modify_eq_some hmodify
        by_cases hid : run = id
        · rw [hid, hrow]
          rfl
        · rcases List.mem_cons.mp hrun with heq | hmem
          · exact absurd heq hid
          · have hsome := ih h run hmem
            simpa only [Db.setRun, Function.update_of_ne hid] using hsome

theorem Op.needs_row (h : op.apply db = some db') (hrun : run ∈ op.needs) :
    (db.runs run).isSome := by
  cases op with
  | create | save | deleteProject | submit => simp [needs] at hrun
  | record jobs => exact Db.record_needs h run hrun
  | deleteRun id =>
      rw [needs, List.mem_singleton] at hrun
      subst hrun
      rw [apply, Option.ite_none_right_eq_some] at h
      exact h.1
  | report id simTimeNow events =>
      rw [needs, List.mem_singleton] at hrun
      subst hrun
      rw [apply, Option.map_eq_some_iff] at h
      obtain ⟨_, hmodify, -⟩ := h
      obtain ⟨row, hrow, -⟩ := Db.modify_eq_some hmodify
      rw [hrow]
      rfl
  | edit | start | fail | finish =>
      rw [needs, List.mem_singleton] at hrun
      subst hrun
      obtain ⟨row, hrow, -⟩ := Db.modify_eq_some h
      rw [hrow]
      rfl

/-- A run that is stored was submitted. -/
theorem submitted_of_row (h : Exec store db₀ tr db) (h₀ : db₀.runs run = none) :
    ∀ {row}, db.runs run = some row →
      ∃ project runs, .submit project runs ∈ tr.map Entry.act ∧ run ∈ runs.map Prod.fst := by
  induction h with
  | nil =>
      intro row hrow
      simp [h₀] at hrow
  | @snoc tr db db' op _ hstep ih =>
      intro row' hrow'
      rw [List.map_append]
      have hkept : ∀ row, db.runs run = some row → ∃ project runs,
          .submit project runs ∈ tr.map Entry.act ++ [op] ∧ run ∈ runs.map Prod.fst := by
        intro row hrow
        obtain ⟨project, runs, hmem, hrun⟩ := ih hrow
        exact ⟨project, runs, List.mem_append_left _ hmem, hrun⟩
      cases Op.fate hstep run with
      | kept _ hrow =>
          obtain ⟨row, hold, -⟩ := Option.map_eq_some_iff.mp (hrow.symm.trans hrow')
          exact hkept row hold
      | reported _ hold => exact hkept _ hold
      | deleted _ hrow => simp [hrow] at hrow'
      | submitted hop hmem =>
          exact ⟨_, _, List.mem_append_right _ (List.mem_singleton.mpr hop.symm),
            List.mem_map_of_mem hmem⟩

/-- Only what was submitted is worked on, edited or deleted. -/
theorem submitted_of_needs (h : Exec store db₀ tr db) (h₀ : db₀.runs run = none)
    (hop : op ∈ tr.map Entry.act) (hrun : run ∈ op.needs) :
    ∃ project runs, .submit project runs ∈ tr.map Entry.act ∧ run ∈ runs.map Prod.fst := by
  obtain ⟨e, he, rfl⟩ := List.mem_map.mp hop
  obtain ⟨tr₁, tr₂, rfl, hpre, hstep, -⟩ := h.of_mem he
  obtain ⟨row, hrow⟩ := Option.isSome_iff_exists.mp (Op.needs_row hstep hrun)
  obtain ⟨project, runs, hmem, hin⟩ := submitted_of_row hpre h₀ hrow
  refine ⟨project, runs, ?_, hin⟩
  rw [List.map_append]
  exact List.mem_append_left _ hmem

end

section

variable {μ : Type} {env : Env μ} {s₀ s : State μ} {tr : List (Entry (State μ) Action)}
  {op : Op}

/-- **Each operation of the service is one of a request that arrived and asks for it, or is the
work of a worker.** -/
theorem asked_or_work (h₀ : s₀.Initial) (h : Exec (system env) s₀ tr s) (hop : op ∈ ops env tr) :
    (∃ r q, .arrive r q ∈ tr.map Entry.act ∧ op ∈ ownOps env r tr ∧
      q.Asks (ownOps env r tr) op) ∨ op.isWork = true := by
  obtain ⟨e, he, hopOf⟩ := List.mem_filterMap.mp hop
  obtain ⟨tr₁, tr₂, htr, hpre, -, -⟩ := h.of_mem he
  have hopOf' := hopOf
  unfold opOf at hopOf
  split at hopOf
  · rename_i r io hact
    split at hopOf
    · rename_i q q' hq hq'
      have hown : ownOp env r e = some op := by
        rw [ownOp, hact]
        exact (if_pos rfl).trans hopOf'
      have hprefix : ownOps env r tr₁ ⊆ ownOps env r tr := by
        rw [htr, ownOps, ownOps, shown_append]
        exact List.subset_append_left ..
      refine .inl ⟨r, q.arrived, ?_, List.mem_filterMap.mpr ⟨e, he, hown⟩,
        (asks_of_op h₀ hpre hq hopOf).mono hprefix⟩
      rw [htr, List.map_append]
      exact List.mem_append_left _ (arrive_of_request h₀ hpre hq)
    · simp at hopOf
  · split at hopOf
    · unfold WorkerPoint.op at hopOf
      split at hopOf <;> cases hopOf <;> exact .inr rfl
    · simp at hopOf
  · simp at hopOf

end

/-! ### The application -/

section

variable {μ : Type} {settings : AppSettings} {env : Env μ} {s₀ s : AppState μ}
  {tr : List (Entry (AppState μ) AppAction)}

/-- A call of the history that was let in asks for the operation, and it was the request behind
this call that did it. -/
def AskedFor (settings : AppSettings) (env : Env μ) (tr : List (Entry (AppState μ) AppAction))
    (served : List (Entry (State μ) Action)) (op : Op) : Prop :=
  ∃ e ∈ tr, ∃ r c principal q, e.act = .call r c ∧
    Admitted settings.auth c.authorization principal ∧
    c.route.request settings.readInt principal = .ok (some q) ∧
    op ∈ ownOps env r served ∧ q.Asks (ownOps env r served) op

/-- This is what the service behind the application did in its history. -/
structure Serves (settings : AppSettings) (env : Env μ) (s₀ : AppState μ)
    (tr : List (Entry (AppState μ) AppAction)) (s : AppState μ)
    (served : List (Entry (State μ) Action)) : Prop where
  exec : Exec (system env) s₀.service served s.service
  acts : served.map Entry.act = shown (fun e => e.act.served settings) tr

/-- What is promised of everything that was written. -/
structure Mediated (settings : AppSettings) (env : Env μ) (tr : List (Entry (AppState μ) AppAction))
    (served : List (Entry (State μ) Action)) (history : List Op) : Prop where
  asked : ∀ op ∈ history, op.isWork = true ∨ AskedFor settings env tr served op
  submitted : ∀ op ∈ history, ∀ run ∈ op.needs,
    ∃ project runs, .submit project runs ∈ history ∧ run ∈ runs.map Prod.fst
  /-- so nothing at all is written where no call is let in -/
  closed : (∀ e ∈ tr, ∀ r c principal, e.act = .call r c →
    ¬ Admitted settings.auth c.authorization principal) → history = []

/-- What the service behind an application did, each operation asked for or the work of a
worker. -/
theorem asked_of_serves {served : List (Entry (State μ) Action)} {op : Op} (h₀ : s₀.Initial)
    (h : Serves settings env s₀ tr s served) (hop : op ∈ ops env served) :
    op.isWork = true ∨ AskedFor settings env tr served op := by
  rcases asked_or_work h₀.service h.exec hop with ⟨r, q, harrive, hown, hasks⟩ | hwork
  · obtain ⟨e, he, c, hact, hdispatch⟩ := call_of_arrive h.acts harrive
    obtain ⟨principal, hadmitted, hrequest⟩ := HttpCall.of_dispatch hdispatch
    exact .inr ⟨e, he, r, c, principal, q, hact, hadmitted, hrequest, hown, hasks⟩
  · exact .inl hwork

/-- **Complete mediation**: in every history of the application, what is stored is what the
operations leave that the calls which were let in asked for, with the work on the runs that these
submitted. -/
theorem writes_are_asked_for (h₀ : s₀.Initial) (h : Exec (app settings env) s₀ tr s) :
    ∃ served history, Serves settings env s₀ tr s served ∧
      Exec store s₀.service.backend.db history s.service.backend.db ∧
      Mediated settings env tr served (history.map Entry.act) := by
  obtain ⟨served, hexec, hacts⟩ := exists_service_exec h
  obtain ⟨history, hstore, hops⟩ := exists_store_exec h₀.service hexec
  have hasked : ∀ op ∈ history.map Entry.act,
      op.isWork = true ∨ AskedFor settings env tr served op :=
    fun op hop => asked_of_serves h₀ ⟨hexec, hacts⟩ (hops ▸ hop)
  have hsubmitted : ∀ op ∈ history.map Entry.act, ∀ run ∈ op.needs, ∃ project runs,
      .submit project runs ∈ history.map Entry.act ∧ run ∈ runs.map Prod.fst :=
    fun op hop run hrun => submitted_of_needs hstore (h₀.service.runs run) hop hrun
  refine ⟨served, history, ⟨hexec, hacts⟩, hstore, hasked, hsubmitted, fun hclosed => ?_⟩
  have hwork : ∀ op ∈ history.map Entry.act, op.isWork = true := by
    intro op hop
    refine (hasked op hop).resolve_right ?_
    rintro ⟨e, he, r, c, principal, q, hact, hadmitted, -⟩
    exact hclosed e he r c principal hact hadmitted
  -- a worker has work only where something was submitted
  refine List.eq_nil_iff_forall_not_mem.mpr fun op hop => ?_
  have hneeds : ∃ run, run ∈ op.needs := by
    have := hwork op hop
    cases op <;> simp [Op.isWork, Op.needs] at this ⊢
  obtain ⟨run, hrun⟩ := hneeds
  obtain ⟨project, runs, hmem, -⟩ := hsubmitted op hop run hrun
  exact absurd (hwork _ hmem) (by simp [Op.isWork])

/-! ### Whose the projects are -/

/-- Where the owner of a project comes from: from before the history, or from the call whose
request created this project. -/
inductive Owned (settings : AppSettings) (env : Env μ) (tr : List (Entry (AppState μ) AppAction))
    (served : List (Entry (State μ) Action)) (p : Uuid) (first : Option ProjectRow)
    (row : ProjectRow) : Prop
  | before {row₀ : ProjectRow} (hfirst : first = some row₀) (howner : row.owner = row₀.owner)
  | created {e : Entry (AppState μ) AppAction} {r : RequestId} {c : HttpCall}
      {principal : StaticPrincipal} {body : ProjectSpec} {base baseId : Option Uuid} (he : e ∈ tr)
      (hact : e.act = .call r c) (hroute : c.route = .createProject body base)
      (hadmitted : Admitted settings.auth c.authorization principal)
      (hcreates : .create p body row.owner baseId row.createdAt ∈ ownOps env r served)
      (howner : row.owner = some principal.id)

theorem route_of_createProject {readInt : ReadInt} {principal : StaticPrincipal} {route : Route}
    {body : ProjectSpec} {owner : Option String} {base : Option Uuid} {point : CreateProject}
    (h : route.request readInt principal = .ok (some (.createProject body owner base point))) :
    route = .createProject body base ∧ owner = some principal.id := by
  cases route with
  | createProject body' base' =>
      simp only [Route.request, Except.ok.injEq, Option.some.injEq,
        Request.createProject.injEq] at h
      obtain ⟨rfl, rfl, rfl, -⟩ := h
      exact ⟨rfl, rfl⟩
  | submitRun | renameRun =>
      simp only [Route.request] at h
      split at h <;> simp [renameRun] at h
  | _ => simp [Route.request, requestCancel] at h

/-- **A project is its creator's for good**: whoever saves it, its owner is the principal of the
call that created it. -/
theorem owner_is_creator (h₀ : s₀.Initial) (h : Exec (app settings env) s₀ tr s) {p : Uuid}
    {row : ProjectRow} (hrow : s.service.projectRow p = some row) :
    ∃ served, Serves settings env s₀ tr s served ∧
      Owned settings env tr served p (s₀.service.projectRow p) row := by
  obtain ⟨served, hexec, hacts⟩ := exists_service_exec h
  obtain ⟨history, hstore, hops⟩ := exists_store_exec h₀.service hexec
  refine ⟨served, ⟨hexec, hacts⟩, ?_⟩
  rcases (writtenBy_of_exec hstore hrow).origin with ⟨body, base, hop⟩ | ⟨row₀, hfirst, howner, -⟩
  · rw [hops] at hop
    rcases asked_of_serves h₀ ⟨hexec, hacts⟩ hop with
      hwork | ⟨e, he, r, c, principal, q, hact, hadmitted, hreq, hown, base', rfl, -⟩
    · simp [Op.isWork] at hwork
    · obtain ⟨hroute, howner⟩ := route_of_createProject hreq
      exact .created he hact hroute hadmitted hown howner
  · exact .before hfirst howner

end

/-- The header of a client with the key `k`. -/
def keyHeader : HeaderValue where
  chars := bearer ++ ['k']
  latin1 := List.forall_iff_forall_mem.mp (by decide)

/-- The application with that key. -/
def keyed : AppSettings := ⟨⟨true, [['k']]⟩, strictInt⟩

/-- A call without a key is refused, and one with it creates a project. -/
def keyedProject : List (Entry (AppState Int) AppAction) × AppState Int :=
  (app keyed clockEnv).played AppState.empty
    [.call 0 ⟨none, .createProject (.blank "X") none⟩,
      .call 1 ⟨some keyHeader, .createProject (.blank "A") none⟩, .serve (.request 1 {}),
      .serve (.request 1 { ids := [1] })] (by decide)

theorem keyed_project_is_asked_for : (keyedProject.2.service.projectRow 1).isSome = true ∧
    ∃ served history, Serves keyed clockEnv AppState.empty keyedProject.1 keyedProject.2 served ∧
      Exec store (AppState.empty : AppState Int).service.backend.db history
        keyedProject.2.service.backend.db ∧
      Mediated keyed clockEnv keyedProject.1 served (history.map Entry.act) :=
  ⟨rfl, writes_are_asked_for AppState.empty_initial (Machine.played_exec _)⟩

theorem keyed_project_is_owned : ∃ row, keyedProject.2.service.projectRow 1 = some row ∧
    row.owner = some (keyFingerprint ['k']) ∧
      ∃ served, Serves keyed clockEnv AppState.empty keyedProject.1 keyedProject.2 served ∧
        Owned keyed clockEnv keyedProject.1 served 1 none row := by
  have hrow : keyedProject.2.service.projectRow 1 = some _ := rfl
  exact ⟨_, hrow, rfl, owner_is_creator AppState.empty_initial (Machine.played_exec _) hrow⟩

end SpurApi
