/-
The check of a draft and the check before a run.

`validate_project` and `submit_run` both ask `spur.validation`, but only the first asks
`ProjectEnvelope` as well.  They agree on every project that is stored, for it had the shape
of a `ProjectSpec` when it was saved, and the envelope has nothing to add to that.

`ProjectSpec` itself is spur's, so what it accepts is a parameter here.
-/
import SpurApi.Routers.Validate
import SpurApi.Proofs.Origins
import SpurApi.Proofs.Scenarios

namespace SpurApi

open Transition

/-! ### The envelope -/

section

variable {d : Json.Object} {name : String} {accepts : Json → Bool} {type : String}

theorem requiredField_eq_nil_iff (hnull : accepts .null = false) :
    requiredField d name accepts type = [] ↔ accepts (d.get name) = true := by
  rw [requiredField, Json.Object.get]
  cases d.fields.lookup name with
  | none => simp [hnull]
  | some v => simp

theorem nullableField_eq_nil_iff :
    nullableField d name accepts type = [] ↔ d.get name = .null ∨ accepts (d.get name) = true := by
  rw [Json.Object.get]
  cases hvalue : d.fields.lookup name with
  | none => simp [nullableField, hvalue]
  | some v => cases v <;> simp [nullableField, hvalue]

/-- The four sections are lists. -/
def HasSections (d : Json.Object) : Prop :=
  ∀ name ∈ simulationInputs, ∃ items, d.get name = .arr items

theorem envelopeErrors_eq_nil_iff : envelopeErrors d = [] ↔
    isProjectType (d.get "type") = true ∧ isText (d.get "spur_version") = true ∧
      (d.get "name" = .null ∨ isText (d.get "name") = true) ∧
      (d.get "extensions" = .null ∨ isDict (d.get "extensions") = true) := by
  have hrequired (name type : String) : requiredField d name isText type = [] ↔
      isText (d.get name) = true := requiredField_eq_nil_iff rfl
  have htype : requiredField d "type" isProjectType "literal_error" = [] ↔
      isProjectType (d.get "type") = true := requiredField_eq_nil_iff rfl
  simp only [envelopeErrors, List.append_eq_nil_iff, hrequired, htype, nullableField_eq_nil_iff,
    and_assoc]

/-- The shape is what the envelope accepts, with four sections that are lists. -/
theorem hasSpecShape_iff : hasSpecShape d = true ↔ envelopeErrors d = [] ∧ HasSections d := by
  simp only [hasSpecShape, envelopeErrors_eq_nil_iff, Bool.and_eq_true, and_assoc]
  refine and_congr ?_ (and_congr ?_ (and_congr ?_ (and_congr ?_ ?_)))
  · cases d.get "type" <;> simp [isProjectType]
  · cases d.get "spur_version" <;> simp [isText]
  · cases d.get "name" <;> simp [isText]
  · cases d.get "extensions" <;> simp [isDict]
  · rw [List.all_eq_true]
    refine forall₂_congr fun name _ => ?_
    constructor
    · intro h
      cases hvalue : d.get name with
      | arr items => exact ⟨items, rfl⟩
      | _ => rw [hvalue] at h; cases h
    · rintro ⟨items, hitems⟩
      rw [hitems]
      rfl

end

/-! ### A project that is stored -/

/-- What is relied on of `ProjectSpec` and `spur.validation`: the schema asks for the fields of
the envelope, and for nothing that `validate` does not check besides. -/
structure Spur.SchemaLaw {μ : Type} (spur : Spur μ) (projectSpec : Json.Object → Bool) : Prop where
  envelope : ∀ d, projectSpec d = true → envelopeErrors d = []
  checked : ∀ d, envelopeErrors d = [] → (spur.validate d).valid = true → projectSpec d = true

/-- `POST /v1/validate` calls the draft valid. -/
def DraftValid {μ : Type} (spur : Spur μ) (validation : Validation) (d : Json.Object) : Prop :=
  ∃ result, validateProject spur validation (.json d) = .ok result ∧ result.valid = true

section

variable {μ : Type} {spur : Spur μ} {validation : Validation} {d : Json.Object}
  {projectSpec : Json.Object → Bool}

/-- Where the envelope finds nothing, `validate` decides. -/
theorem validateProject_of_envelope (h : envelopeErrors d = []) :
    validateProject spur validation (.json d) = .ok (spur.validate d) := by
  simp only [validateProject, h]

/-- A draft that is valid has no error in its envelope. -/
theorem draftValid_iff_envelope :
    DraftValid spur validation d ↔ envelopeErrors d = [] ∧ (spur.validate d).valid = true := by
  constructor
  · rintro ⟨result, hresult, hvalid⟩
    cases herrors : envelopeErrors d with
    | nil =>
        rw [validateProject_of_envelope herrors, Except.ok.injEq] at hresult
        exact ⟨rfl, hresult ▸ hvalid⟩
    | cons error errors =>
        simp only [validateProject, herrors, Except.ok.injEq] at hresult
        subst hresult
        cases hvalid
  · rintro ⟨henvelope, hvalid⟩
    exact ⟨_, validateProject_of_envelope henvelope, hvalid⟩

theorem draftValid_iff (hschema : spur.SchemaLaw projectSpec) :
    DraftValid spur validation d ↔ projectSpec d = true ∧ (spur.validate d).valid = true := by
  rw [draftValid_iff_envelope]
  exact and_congr_left fun hvalid =>
    ⟨fun henvelope => hschema.checked d henvelope hvalid, hschema.envelope d⟩

/-- The shape of a spec leaves the decision to `validate`. -/
theorem draftValid_of_shape (hshape : hasSpecShape d = true) :
    DraftValid spur validation d ↔ (spur.validate d).valid = true := by
  rw [draftValid_iff_envelope, and_iff_right (hasSpecShape_iff.mp hshape).1]

end

section

variable {μ : Type} {env : Env μ} {s₀ s s' : State μ} {r : RequestId} {io : Io} {project : Uuid}
  {body : RunCreate} {row : ProjectRow} {b b' : Backend} {point point' : SubmitRun}
  {tr : List (Entry (State μ) Action)} {validation : Validation}

/-- A submission is refused for its project only when it has read it. -/
theorem of_projectInvalid {detail : String} {issues : List Issue}
    (h : SubmitMove env.spur env.settings project body io b point
      (.answered (.error (.projectInvalid detail issues))) b') :
    ∃ row, b.db.projects project = some row ∧ (env.spur.validate row.spec).valid = false ∧
      .projectInvalid detail issues = projectInvalid project (env.spur.validate row.spec) := by
  generalize hanswer : SubmitRun.answered (.error (.projectInvalid detail issues)) = answer at h
  cases h with
  | invalid hrow hvalid =>
      simp only [SubmitRun.answered.injEq, Except.error.injEq] at hanswer
      exact ⟨_, hrow, hvalid, hanswer⟩
  | @inserted rows => cases rows <;> simp [SubmitRun.loop] at hanswer
  | @enqueued done todo => cases todo <;> simp [SubmitRun.loop] at hanswer
  | _ => simp [projectNotFound] at hanswer

/-- A submission that has read the project goes on, or is refused with what is wrong with it. -/
theorem refused_iff_invalid
    (h : SubmitRun.step env.spur env.settings project body io b .received = some (point, b'))
    (hrow : b.db.projects project = some row) :
    (∃ detail issues, point = .answered (.error (.projectInvalid detail issues))) ↔
      (env.spur.validate row.spec).valid = false := by
  cases hvalid : (env.spur.validate row.spec).valid with
  | false =>
      simp only [SubmitRun.step, hrow, hvalid, Bool.false_eq_true, if_false, Option.some.injEq,
        Prod.mk.injEq] at h
      exact iff_of_true ⟨_, _, h.1.symm⟩ rfl
  | true =>
      refine iff_of_false ?_ (by simp)
      rintro ⟨detail, issues, rfl⟩
      obtain ⟨read, hread, hinvalid, -⟩ := of_projectInvalid (submitMove_of_step h)
      rw [hrow, Option.some.injEq] at hread
      subst hread
      simp [hvalid] at hinvalid

theorem SpecsShaped.exec (h : Exec (system env) s₀ tr s) (hspecs : SpecsShaped s₀) :
    SpecsShaped s :=
  h.invariant (I := fun s => SpecsShaped s) hspecs fun _ _ _ hI hstep => hI.step hstep

/-- A refusal goes back to the step in which the project was read. -/
theorem read_of_refused (h₀ : s₀.Initial) (h : Exec (system env) s₀ tr s) {detail : String}
    {issues : List Issue} : s.requests r = some
      (.submitRun project body (.answered (.error (.projectInvalid detail issues)))) →
    ∃ e ∈ tr, ∃ io row, e.act = .request r io ∧ e.pre.backend.db.projects project = some row ∧
      (env.spur.validate row.spec).valid = false ∧
      .projectInvalid detail issues = projectInvalid project (env.spur.validate row.spec) := by
  induction h with
  | nil =>
      intro hreq
      simp [h₀.requests] at hreq
  | @snoc tr s s' a h hstep ih =>
      intro hreq'
      cases request_step hstep hreq' with
      | kept _ hreq =>
          obtain ⟨e, he, hread⟩ := ih hreq
          exact ⟨e, List.mem_append_left _ he, hread⟩
      | arrived _ _ hreceived => simp [Request.isReceived] at hreceived
      | @stepped io q ha hpre hqstep =>
          refine ⟨⟨s, a, s'⟩, List.mem_append_right _ (List.mem_singleton_self _), io, ?_⟩
          cases q with
          | submitRun project' body' point =>
              simp only [Request.step, Option.map_eq_some_iff, Prod.exists, Prod.mk.injEq,
                Request.submitRun.injEq] at hqstep
              obtain ⟨_, b, hpoint, ⟨rfl, rfl, rfl⟩, rfl⟩ := hqstep
              obtain ⟨row, hrow⟩ := of_projectInvalid (submitMove_of_step hpoint)
              exact ⟨row, ha, hrow⟩
          | _ =>
              simp only [Request.step, Option.map_eq_some_iff, Prod.exists, Prod.mk.injEq] at hqstep
              obtain ⟨_, _, _, hq, _⟩ := hqstep
              simp at hq

/-- The two checks in a history. -/
structure ValidationAgrees (env : Env μ) (projectSpec : Json.Object → Bool)
    (validation : Validation) (tr : List (Entry (State μ) Action)) (s : State μ) : Prop where
  /-- valid is what can be saved and then passes the check before a run -/
  draft : ∀ d, DraftValid env.spur validation d ↔
    projectSpec d = true ∧ (env.spur.validate d).valid = true
  /-- a submission that reads a project is refused when a draft like it is not valid -/
  gate : ∀ e ∈ tr, ∀ r io project body row, e.act = .request r io →
    e.pre.requests r = some (.submitRun project body .received) →
    e.pre.backend.db.projects project = some row →
    ((∃ detail issues, e.post.requests r = some
        (.submitRun project body (.answered (.error (.projectInvalid detail issues))))) ↔
      ¬ DraftValid env.spur validation row.spec)
  /-- and is given the issues that the draft is given -/
  refused : ∀ r project body detail issues, s.requests r = some
    (.submitRun project body (.answered (.error (.projectInvalid detail issues)))) →
    ∃ e ∈ tr, ∃ io row result, e.act = .request r io ∧
      e.pre.backend.db.projects project = some row ∧
      validateProject env.spur validation (.json row.spec) = .ok result ∧
      result.valid = false ∧ .projectInvalid detail issues = projectInvalid project result
  /-- what runs is valid -/
  runs : ∀ run row, s.backend.db.runs run = some row →
    ∃ d, row.specSnapshot = some d ∧ DraftValid env.spur validation d

/-- **A draft is valid when a run of it would not be refused**, and a submission that is refused for
its project is told what `POST /v1/validate` tells of it. -/
theorem validation_agrees {projectSpec : Json.Object → Bool}
    (hschema : env.spur.SchemaLaw projectSpec) (h₀ : s₀.Initial) (hspecs : SpecsShaped s₀)
    (h : Exec (system env) s₀ tr s) : ValidationAgrees env projectSpec validation tr s := by
  refine ⟨fun d => draftValid_iff hschema, fun e he r io project body row hact hreq hrow => ?_,
    fun r project body detail issues hreq => ?_, fun run row hrow => ?_⟩
  · obtain ⟨_, _, _, hpre, hstep, _⟩ := h.of_mem he
    obtain ⟨pre, act, post⟩ := e
    simp only at hact hreq hrow hpre hstep ⊢
    subst hact
    obtain ⟨q', hqstep, hreq'⟩ := step_of_request hstep hreq
    simp only [Request.step, Option.map_eq_some_iff, Prod.exists, Prod.mk.injEq] at hqstep
    obtain ⟨point, b, hpoint, rfl, -⟩ := hqstep
    rw [draftValid_of_shape (hspecs.exec hpre _ _ hrow), Bool.not_eq_true,
      ← refused_iff_invalid hpoint hrow]
    simp [hreq']
  · obtain ⟨e, he, io, row, hact, hrow, hvalid, hdetail⟩ := read_of_refused h₀ h hreq
    obtain ⟨_, _, _, hpre, _, _⟩ := h.of_mem he
    have henvelope := (hasSpecShape_iff.mp (hspecs.exec hpre _ _ hrow)).1
    exact ⟨e, he, io, row, _, hact, hrow, validateProject_of_envelope henvelope, hvalid, hdetail⟩
  · obtain ⟨_, _, _, w, sub, horigin⟩ := origin_of_row h₀ h row hrow
    obtain ⟨e, he, hbuilt⟩ := horigin.built
    obtain ⟨_, _, _, hpre, _, _⟩ := h.of_mem he
    have hshape := hspecs.exec hpre _ _ hbuilt.valid.read
    refine ⟨w.read.spec, ?_, (draftValid_of_shape hshape).mpr hbuilt.valid.accepted⟩
    obtain ⟨i, id, -, hsub⟩ := Build.mem_rows_iff.mp horigin.mem
    have hsame := congrArg Submission.specSnapshot horigin.submission
    rw [hsub] at hsame
    exact hsame

end

/-! ### A project without components is not run -/

/-- A check that asks for the sections and for one component at least. -/
def wantsComponents (d : Json.Object) : ValidationResult :=
  match d.get "components", d.get "routes", d.get "tours", d.get "trains" with
  | .arr (_ :: _), .arr _, .arr _, .arr _ => ⟨true, []⟩
  | _, _, _, _ => ⟨false, [⟨"error", "components", "There are no components"⟩]⟩

def wantingClock : Spur Int := { Spur.clock with validate := wantsComponents }

theorem wantingClock_schemaLaw : wantingClock.SchemaLaw hasSpecShape := by
  refine ⟨fun d h => (hasSpecShape_iff.mp h).1, fun d henvelope h =>
    hasSpecShape_iff.mpr ⟨henvelope, fun name hname => ?_⟩⟩
  simp only [wantingClock, wantsComponents] at h
  split at h
  · simp only [simulationInputs, List.mem_cons, List.not_mem_nil, or_false] at hname
    rcases hname with rfl | rfl | rfl | rfl <;> exact ⟨_, ‹_›⟩
  · cases h

/-- A blank project is created and submitted. -/
def refusedBlank : List (Entry (State Int) Action) × State Int :=
  (system ⟨wantingClock, {}⟩).played State.empty
    [.arrive 0 (.createProject (.blank "A") none none .received), .request 0 { now := 1 },
      .request 0 { ids := [1], now := 2 },
      .arrive 1 (.submitRun 1 (.single none none) .received), .request 1 {}] (by decide)

theorem refused_blank_is_invalid :
    ValidationAgrees (⟨wantingClock, {}⟩ : Env Int) hasSpecShape ⟨⟨false, []⟩, fun _ => []⟩
        refusedBlank.1 refusedBlank.2 ∧
      refusedBlank.2.requests 1 = some (.submitRun 1 (.single none none)
        (.answered (.error (projectInvalid 1 (wantsComponents (ProjectSpec.blank "A").dump))))) :=
  ⟨validation_agrees wantingClock_schemaLaw State.empty_initial
    (by intro p row hrow; simp [State.empty] at hrow) (Machine.played_exec _), by rfl⟩

end SpurApi
