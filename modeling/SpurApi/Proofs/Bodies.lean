/-
What the service says of a run can be sent back to it.

The names that validation lets through are trimmed, and a trimmed name goes through
unchanged.  Nothing else writes names, so a run's name is always one that can be sent
again.  With its target and its seed it makes the body of a submission that is accepted as
it stands.
-/
import SpurApi.Proofs.Batches
import SpurApi.Proofs.Mediation

namespace SpurApi

open Transition

/-! ### Names -/

/-- No name, or one with nothing to trim that is not too long. -/
def NameOk (name : Option String) : Prop :=
  ∀ s, name = some s → s ≠ "" ∧ PyText.strip PyText.isSpace s.toList = s.toList ∧
    s.length ≤ maxRunNameLength

theorem nameOk_none : NameOk none := by simp [NameOk]

/-- Validation makes a name of this kind of whatever it accepts. -/
theorem nameOk_of_runName {v : Json} {name : Option String} (h : runName v = .ok name) :
    NameOk name := by
  cases v with
  | null =>
      obtain rfl : none = name := Except.ok.inj h
      exact nameOk_none
  | str s =>
      simp only [runName] at h
      split at h
      · obtain rfl : none = name := Except.ok.inj h
        exact nameOk_none
      · rename_i hne
        split at h
        · rename_i hlength
          obtain rfl := Except.ok.inj h
          intro t ht
          obtain rfl := Option.some.inj ht
          refine ⟨fun hempty => hne ?_, ?_, ?_⟩
          · rw [List.isEmpty_iff]
            simpa using congrArg String.toList hempty
          · rw [String.toList_ofList, PyText.strip_strip]
          · simpa using hlength
        · simp at h
  | _ => simp [runName] at h

/-- A text or null. -/
def nameJson (name : Option String) : Json := name.elim .null .str

/-- And it accepts each of them as it is. -/
theorem runName_nameJson {name : Option String} (h : NameOk name) :
    runName (nameJson name) = .ok name := by
  cases name with
  | none => rfl
  | some s =>
      obtain ⟨hne, htrimmed, hlength⟩ := h s rfl
      have hnonempty : s.toList.isEmpty = false := by
        rw [List.isEmpty_eq_false_iff]
        exact fun hnil => hne (String.toList_eq_nil_iff.mp hnil)
      simp only [nameJson, Option.elim_some, runName, htrimmed, hnonempty, Bool.false_eq_true,
        if_false, String.length_toList, hlength, if_true, String.ofList_toList]

/-- A field that was read, read back. -/
theorem bodyField_eq_ok {α : Type} {d : Json.Object} {name : String}
    {read : Option Json → Except FieldCheck α} {a : α} :
    bodyField d name read = .ok a ↔ read (d.fields.lookup name) = .ok a := by
  rw [bodyField]
  cases read (d.fields.lookup name) <;> simp

theorem nameOk_of_ofObject {readInt : ReadInt} {d : Json.Object} {body : RunCreate}
    (h : RunCreate.ofObject readInt d = .ok body) : NameOk body.name := by
  simp only [RunCreate.ofObject] at h
  split at h
  · rename_i name _ _ _ _ hname
    split at h
    · obtain rfl := Except.ok.inj h
      rw [bodyField_eq_ok] at hname
      cases hlookup : d.fields.lookup "name" with
      | none =>
          rw [hlookup, defaultField, Except.ok.injEq] at hname
          exact hname ▸ nameOk_none
      | some v =>
          rw [hlookup, defaultField] at hname
          exact nameOk_of_runName hname
    · simp at h
  · simp at h

theorem nameOk_of_runUpdate {d : Json.Object} {name : Option String} (h : runUpdate d = .ok name) :
    NameOk name := by
  rw [runUpdate] at h
  split at h
  · rename_i hname
    obtain rfl := Except.ok.inj h
    rw [bodyField_eq_ok] at hname
    cases hlookup : d.fields.lookup "name" with
    | none => simp [hlookup] at hname
    | some v =>
        rw [hlookup, Option.elim_some] at hname
        exact nameOk_of_runName hname
  · simp at h

/-! ### Who writes names -/

/-- The names that the operation writes. -/
def Op.NamesOk : Op → Prop
  | .submit _ runs => ∀ r ∈ runs, NameOk r.2.name
  | .edit _ (.rename name) => NameOk name
  | _ => True

theorem RawBody.read_eq_ok {α : Type} {read : Json.Object → Except (List FieldError) α}
    {body : RawBody} {a : α} (h : body.read read = .ok a) : ∃ d, read d = .ok a := by
  cases body with
  | json d =>
      rw [RawBody.read] at h
      split at h
      · rename_i hread
        obtain rfl := Except.ok.inj h
        exact ⟨d, hread⟩
      · simp at h
  | _ => simp [RawBody.read] at h

section

variable {μ : Type} {settings : AppSettings} {env : Env μ} {s₀ s : AppState μ}
  {tr : List (Entry (AppState μ) AppAction)} {run : Uuid} {row : SimulationRunRow} {op : Op}

theorem namesOk_of_askedFor {served : List (Entry (State μ) Action)}
    (h : AskedFor settings env tr served op) : op.NamesOk := by
  obtain ⟨e, he, r, c, principal, q, -, -, hrequest, -, hasks⟩ := h
  cases op with
  | submit project runs =>
      obtain ⟨body, rfl, -, hruns⟩ := hasks
      have hbody : NameOk body.name := by
        cases hroute : c.route with
        | submitRun project' raw =>
            rw [hroute, Route.request] at hrequest
            split at hrequest
            · simp at hrequest
            · rename_i hread
              simp only [Except.ok.injEq, Option.some.injEq, Request.submitRun.injEq] at hrequest
              obtain ⟨-, rfl, -⟩ := hrequest
              obtain ⟨d, hd⟩ := RawBody.read_eq_ok hread
              exact nameOk_of_ofObject hd
        | renameRun run raw =>
            rw [hroute, Route.request] at hrequest
            split at hrequest <;> simp [renameRun] at hrequest
        | _ => simp [hroute, Route.request, requestCancel] at hrequest
      intro r hr
      rw [(hruns r hr).1]
      exact hbody
  | edit run e =>
      cases e with
      | cancel => trivial
      | rename name =>
          obtain rfl : q = .editRun run (.rename name) .received := hasks
          cases hroute : c.route with
          | renameRun run' raw =>
              rw [hroute, Route.request] at hrequest
              split at hrequest
              · simp at hrequest
              · rename_i hread
                simp only [renameRun, Except.ok.injEq, Option.some.injEq, Request.editRun.injEq,
                  RunEdit.rename.injEq] at hrequest
                obtain ⟨-, rfl, -⟩ := hrequest
                obtain ⟨d, hd⟩ := RawBody.read_eq_ok hread
                exact nameOk_of_runUpdate hd
          | submitRun project raw =>
              rw [hroute, Route.request] at hrequest
              split at hrequest <;> simp at hrequest
          | _ => simp [hroute, Route.request, requestCancel] at hrequest
  | _ => trivial

end

/-! ### What every row of a run has -/

/-- The run is not there, or its row has the property. -/
def RunSlice.RowIs (P : SimulationRunRow → Prop) (d : RunSlice) : Prop :=
  ∀ row, d.row = some row → P row

/-- The property speaks of what a submission fixes and of the name. -/
def NameAndSubmission (P : SimulationRunRow → Prop) : Prop :=
  ∀ ⦃row row' : SimulationRunRow⦄, row'.name = row.name → row'.submission = row.submission →
    P row → P row'

/-- What the operation writes to a run that has the property has it again. -/
def Op.Writes (P : SimulationRunRow → Prop) (run : Uuid) (d : RunSlice) : Op → Prop
  | .submit _ runs => ∀ r ∈ runs, P r.2
  | .edit id (.rename name) => id = run →
      ∀ row, d.row = some row → P row → P { row with name := name }
  | _ => True

section

variable {P : SimulationRunRow → Prop} {run : Uuid}

theorem RunSlice.rowIs_blank : RunSlice.blank.RowIs P := by simp [RunSlice.RowIs, RunSlice.blank]

theorem RunSlice.RowIs.mapRow {d : RunSlice} {f : SimulationRunRow → SimulationRunRow}
    (h : d.RowIs P) (hf : ∀ row, d.row = some row → P row → P (f row)) : (d.mapRow f).RowIs P := by
  intro row hrow
  obtain ⟨row₀, hrow₀, rfl⟩ := Option.map_eq_some_iff.mp hrow
  exact hf row₀ hrow₀ (h row₀ hrow₀)

theorem RunSlice.RowIs.submitted {runs : List (Uuid × SimulationRunRow)}
    (hruns : ∀ r ∈ runs, P r.2) :
    ∀ {d : RunSlice}, d.RowIs P → (runs.foldl (RunSlice.submitted run) d).RowIs P := by
  induction runs with
  | nil => exact id
  | cons r rest ih =>
      intro d h
      refine ih (fun r' hr' => hruns r' (List.mem_cons_of_mem _ hr')) ?_
      rw [RunSlice.submitted]
      split
      · intro row hrow
        obtain rfl := Option.some.inj hrow
        exact hruns r List.mem_cons_self
      · exact h

theorem RunSlice.RowIs.recorded (hP : NameAndSubmission P) {jobs : List (Uuid × String)} :
    ∀ {d : RunSlice}, d.RowIs P → (jobs.foldl (RunSlice.recorded run) d).RowIs P := by
  induction jobs with
  | nil => exact id
  | cons job rest ih =>
      intro d h
      refine ih ?_
      rw [RunSlice.recorded]
      split
      · exact h.mapRow fun _ _ => hP rfl rfl
      · exact h

theorem Op.NamesOk.writes {d : RunSlice} {op : Op} (h : op.NamesOk) :
    op.Writes (fun row => SpurApi.NameOk row.name) run d := by
  cases op with
  | edit id e =>
      cases e with
      | rename name => exact fun _ _ _ _ => h
      | cancel => trivial
  | submit => exact h
  | _ => trivial

/-- **Operations that write such rows keep them.** -/
theorem Op.onRun_rowIs (hP : NameAndSubmission P) {d : RunSlice} {op : Op}
    (hop : op.Writes P run d) (h : d.RowIs P) : (op.onRun run d).RowIs P := by
  cases op with
  | create | save => exact h
  | deleteProject | deleteRun =>
      rw [onRun]
      split
      · exact RunSlice.rowIs_blank
      · exact h
  | submit project runs => exact RunSlice.RowIs.submitted hop h
  | record jobs => exact RunSlice.RowIs.recorded hP h
  | edit id e =>
      rw [onRun]
      split
      · rename_i hrun
        cases e with
        | rename name => exact h.mapRow (hop hrun)
        | cancel => exact h.mapRow fun _ _ => hP rfl rfl
      · exact h
  | start | fail | finish =>
      rw [onRun]
      split
      · exact h.mapRow fun _ _ => hP rfl rfl
      · exact h
  | report id simTimeNow events =>
      rw [onRun]
      split
      · exact h.mapRow (f := markProgress simTimeNow) fun _ _ => hP rfl rfl
      · exact h

end

/-! ### Rows that are stored were storable -/

section

variable {μ : Type} {env : Env μ} {s₀ s s' : State μ} {a : Action}
  {tr : List (Entry (State μ) Action)}

theorem SimulationRunRow.holds_nameAndSubmission :
    NameAndSubmission fun row => row.holds = true := by
  intro row row' hname hsubmission h
  have hrequested := congrArg Submission.requestedUntil hsubmission
  have htarget := congrArg Submission.untilTarget hsubmission
  have hchunk := congrArg Submission.chunkSize hsubmission
  simp only [submission] at hrequested htarget hchunk
  rwa [holds, hname, hrequested, htarget, hchunk]

theorem SimulationRunRow.holds_rename {row : SimulationRunRow} {name : Option String}
    (h : row.holds = true) (hname : name.all holdsText = true) :
    SimulationRunRow.holds { row with name := name } = true := by
  simp only [holds, Bool.and_eq_true] at h ⊢
  exact ⟨⟨⟨hname, h.1.1.2⟩, h.1.2⟩, h.2⟩

/-- A rename is committed only with a name that the column holds. -/
theorem EditMove.writes {run id : Uuid} {e : RunEdit} {io : Io} {b b' : Backend} {q q' : EditRun}
    {op : Op} (h : EditMove id e b q q' b')
    (hop : Request.op b.db io (.editRun id e q) (.editRun id e q') = some op) :
    op.Writes (fun row => row.holds = true) run (b.slice run) := by
  cases h with
  | @loaded copy hcopy =>
      rw [Request.op, Option.ite_none_left_eq_some] at hop
      obtain ⟨hclean, hop⟩ := hop
      obtain rfl := Option.some.inj hop
      cases e with
      | cancel => trivial
      | rename name =>
          -- no statement is issued: the row has this name already
          rintro rfl row hrow hholds
          obtain rfl : copy = row := Option.some.inj (hcopy.symm.trans hrow)
          have hsame := RunEdit.apply_of_clean (by simpa using hclean)
          exact hsame.symm ▸ hholds
  | committed hholds =>
      rw [Request.op, Option.ite_none_right_eq_some] at hop
      obtain ⟨hdirty, hop⟩ := hop
      obtain rfl := Option.some.inj hop
      cases e with
      | cancel => trivial
      | rename name =>
          exact fun _ row _ hrow => SimulationRunRow.holds_rename hrow (hholds hdirty)
  | _ => simp [Request.op] at hop

/-- A batch is inserted only with rows that the columns hold. -/
theorem SubmitMove.writes {spur : Spur μ} {settings : Settings} {run id : Uuid} {body : RunCreate}
    {io : Io} {b b' : Backend} {q q' : SubmitRun} {op : Op}
    (h : SubmitMove spur settings id body io b q q' b')
    (hop : Request.op b.db io (.submitRun id body q) (.submitRun id body q') = some op) :
    op.Writes (fun row => row.holds = true) run (b.slice run) := by
  cases h with
  | @inserted rows _ _ hholds =>
      cases rows with
      | nil =>
          obtain rfl := Option.some.inj hop
          simp [Op.Writes]
      | cons sub rest =>
          obtain rfl := Option.some.inj hop
          intro r hr
          obtain ⟨sub', hsub, rfl⟩ := List.mem_map.mp hr
          exact List.all_eq_true.mp hholds sub' hsub
  | recorded =>
      obtain rfl := Option.some.inj hop
      trivial
  | @enqueued done todo => cases todo <;> simp [Request.op] at hop
  | _ => simp [Request.op] at hop

theorem holds_of_opOf {op : Op} (hstep : s.step env a = some s')
    (hop : opOf env ⟨s, a, s'⟩ = some op) (run : Uuid) :
    op.Writes (fun row => row.holds = true) run (s.slice run) := by
  cases service_step hstep with
  | arrive | read | deliver => simp [opOf] at hop
  | work =>
      simp only [opOf] at hop
      split at hop
      · unfold WorkerPoint.op at hop
        split at hop <;> cases hop <;> trivial
      · simp at hop
  | @request r io q q' b hreq hqstep =>
      rw [opOf_request hreq] at hop
      cases q with
      | submitRun project body point =>
          simp only [Request.step, Option.map_eq_some_iff, Prod.exists, Prod.mk.injEq] at hqstep
          obtain ⟨_, _, hpoint, rfl, rfl⟩ := hqstep
          exact (submitMove_of_step hpoint).writes hop
      | editRun id edit point =>
          simp only [Request.step, Option.map_eq_some_iff, Prod.exists, Prod.mk.injEq] at hqstep
          obtain ⟨_, _, hpoint, rfl, rfl⟩ := hqstep
          exact (editMove_of_step hpoint).writes hop
      | _ =>
          simp only [Request.step, Option.map_eq_some_iff, Prod.exists, Prod.mk.injEq] at hqstep
          obtain ⟨_, _, -, rfl, -⟩ := hqstep
          unfold Request.op at hop
          split at hop <;> (try split at hop) <;> simp at hop <;> subst hop <;> trivial

/-- **The columns hold every row that is stored.** -/
theorem holds_of_row {run : Uuid} (h₀ : s₀.Initial) (h : Exec (system env) s₀ tr s) :
    (s.slice run).RowIs fun row => row.holds = true := by
  induction h with
  | nil => exact fun row hrow => (h₀.not_row hrow).elim
  | @snoc tr s s' a h hstep ih =>
      have htakes := takes_of_exec h₀ h hstep
      unfold Takes at htakes
      split at htakes
      · simpa only [State.slice, htakes] using ih
      · rename_i op hop
        have hslice : s'.slice run = op.onRun run (s.slice run) := Op.apply_slice htakes run
        rw [hslice]
        exact Op.onRun_rowIs SimulationRunRow.holds_nameAndSubmission
          (holds_of_opOf hstep hop run) ih

end

/-! ### Sending an answer back -/

/-- An integer or null. -/
def intJson (n : Option Int) : Json := n.elim .null .int

/-- The body that asks for a run once more, from what the service answers about it. -/
def Run.again (answer : Run) : Json.Object where
  fields := [("until", intJson answer.untilTarget), ("seed", intJson answer.seed),
    ("name", nameJson answer.name)]
  distinct := by
    have hint : ∀ n, (intJson n).distinctKeys = true := fun n => by cases n <;> rfl
    have hname : (nameJson answer.name).distinctKeys = true := by cases answer.name <;> rfl
    simp [Json.distinctKeys_obj, hint, hname]

theorem optionalField_intJson {readInt : ReadInt} (hread : readInt.Law) (n : Option Int) :
    optionalField readInt (some (intJson n)) = .ok n := by
  cases n with
  | none => rfl
  | some n =>
      show (readInt (.int n)).map some = .ok (some n)
      rw [hread]
      rfl

theorem boundedInt_int {readInt : ReadInt} (hread : readInt.Law) {lo hi n : Int}
    (h : lo ≤ n ∧ n ≤ hi) : boundedInt readInt lo hi (.int n) = .ok ⟨n, h⟩ := by
  rw [boundedInt, hread]
  simp only [h.1, h.2, dite_true]

/-- The body is accepted: one run, to this target, with this seed and name. -/
theorem again_accepted {readInt : ReadInt} (hread : readInt.Law) {answer : Run} {seed : Int}
    (hseed : answer.seed = some seed) (hrange : 0 ≤ seed ∧ seed ≤ maxSeed)
    (hname : NameOk answer.name) : ∃ body, RunCreate.ofObject readInt answer.again = .ok body ∧
      body.untilTime = answer.untilTarget ∧ body.chunkSize = none ∧ body.seed = some seed ∧
        body.seeds = 1 ∧ body.name = answer.name := by
  have hfit : seedsFit (some ⟨seed, hrange⟩) ⟨1, by decide⟩ = true := by
    rw [seedsFit_iff]
    intro s hs
    obtain rfl := Option.some.inj hs
    show seed + 1 - 1 ≤ maxSeed
    omega
  have huntil : bodyField answer.again "until" (optionalField readInt) = .ok answer.untilTarget :=
    bodyField_eq_ok.mpr (optionalField_intJson hread _)
  have hchunk : bodyField answer.again "chunk_size" (optionalField readInt) = .ok none := rfl
  have hseed' : bodyField answer.again "seed" (optionalField (boundedInt readInt 0 maxSeed)) =
      .ok (some ⟨seed, hrange⟩) := by
    refine bodyField_eq_ok.mpr ?_
    show optionalField _ (some (intJson answer.seed)) = _
    rw [hseed]
    show (boundedInt readInt 0 maxSeed (.int seed)).map some = _
    rw [boundedInt_int hread hrange]
    rfl
  have hseeds : bodyField answer.again "seeds"
      (defaultField ⟨1, by decide⟩ (boundedInt readInt 1 maxSeeds)) = .ok ⟨1, by decide⟩ := rfl
  have hname' : bodyField answer.again "name" (defaultField none runName) = .ok answer.name :=
    bodyField_eq_ok.mpr (runName_nameJson hname)
  refine ⟨.ofFields answer.untilTarget none (some ⟨seed, hrange⟩) ⟨1, by decide⟩ answer.name hfit,
    ?_, rfl, rfl, rfl, rfl, rfl⟩
  simp only [RunCreate.ofObject, huntil, hchunk, hseed', hseeds, hname', hfit, dite_true]

/-- The run that a submission makes simulates what this one did, under its name. -/
structure RunsAgain (row made : SimulationRunRow) : Prop where
  project : made.projectId = row.projectId
  spec : made.specSnapshot = row.specSnapshot
  target : made.untilTarget = row.untilTarget
  seed : made.seed = row.seed
  name : made.name = row.name

/-- Submitted where the project has the spec of the run, the body makes one row, and this is
stored when the project is still there. -/
def SubmitsAgain (env : Env μ) (row : SimulationRunRow) (body : RunCreate) : Prop :=
  ∀ {b : Backend} {project : ProjectRow} {io : Io} {batch id : Uuid},
    b.db.projects row.projectId = some project → row.specSnapshot = some project.spec →
    io.ids = [batch, id] → b.fresh [batch, id] = true → drawable 1 io.draw = true →
      ∃ made, RunsAgain row made ∧
        SubmitRun.step env.spur env.settings row.projectId body io b .received =
          some (.inserting [⟨id, made, none⟩], b.mint [batch, id]) ∧
        ∀ {io' : Io} {b' : Backend}, (b'.db.projects row.projectId).isSome →
          ∃ q b'', SubmitRun.step env.spur env.settings row.projectId body io' b'
            (.inserting [⟨id, made, none⟩]) = some (q, b'') ∧ b''.db.runs id = some made

/-- What the service says of a run, sent back to it. -/
structure SendsBack (env : Env μ) (readInt : ReadInt) (run : Uuid) (row : SimulationRunRow) :
    Prop where
  name : NameOk row.name
  /-- renaming the run to its own name -/
  rename : ∀ d : Json.Object, d.fields.lookup "name" = some (nameJson (toRun run row).name) →
    runUpdate d = .ok row.name
  /-- submitting it again is accepted, and if the project still has its spec, this makes and
  stores one run, of the same spec, target, seed and name -/
  again : ∃ body, RunCreate.ofObject readInt (toRun run row).again = .ok body ∧
    SubmitsAgain env row body

section

variable {μ : Type} {settings : AppSettings} {env : Env μ} {s₀ s : AppState μ}
  {tr : List (Entry (AppState μ) AppAction)} {run : Uuid} {row : SimulationRunRow}

/-- Every name that is stored went through validation. -/
theorem nameOk_of_row (h₀ : s₀.Initial) (h : Exec (app settings env) s₀ tr s)
    (hrow : (s.service.slice run).row = some row) : NameOk row.name := by
  obtain ⟨served, hexec, hacts⟩ := exists_service_exec h
  obtain ⟨history, hstore, hops⟩ := exists_store_exec h₀.service hexec
  have hP : NameAndSubmission fun row => NameOk row.name := by
    intro row row' hname _ hok
    rwa [hname]
  have hfold : ∀ ops : List Op, (∀ op ∈ ops, op.NamesOk) → ∀ d : RunSlice,
      (d.RowIs fun row => NameOk row.name) →
        (ops.foldl (Op.onRun run) d).RowIs fun row => NameOk row.name := by
    intro ops
    induction ops with
    | nil => exact fun _ _ hd => hd
    | cons op rest ih =>
        intro hops d hd
        exact ih (fun op' hop' => hops op' (List.mem_cons_of_mem _ hop')) _
          (Op.onRun_rowIs hP (hops op List.mem_cons_self).writes hd)
  have hnames : ∀ op ∈ history.map Entry.act, op.NamesOk := by
    intro op hop
    rcases asked_of_serves h₀ ⟨hexec, hacts⟩ (hops ▸ hop) with hwork | hasks
    · cases op <;> trivial
    · exact namesOk_of_askedFor hasks
  have hslice := hfold _ hnames (s₀.service.backend.db.slice run)
    fun row₀ hrow₀ => (h₀.service.not_row hrow₀).elim
  rw [← store_slice hstore run] at hslice
  exact hslice row hrow

/-- The seed of a run is one that can be asked for. -/
theorem seed_of_row {s₀ s : State μ} {tr : List (Entry (State μ) Action)} (h₀ : s₀.Initial)
    (h : Exec (system env) s₀ tr s) (hrow : (s.slice run).row = some row) :
    ∃ seed, row.seed = some seed ∧ 0 ≤ seed ∧ seed ≤ maxSeed := by
  obtain ⟨r, project, body, w, sub, horigin⟩ := origin_of_row h₀ h row hrow
  obtain ⟨e, -, hbuilt⟩ := horigin.built
  obtain ⟨i, id, hid, rfl⟩ := Build.mem_rows_iff.mp horigin.mem
  obtain ⟨hpos, hfit⟩ := hbuilt.valid.first_range
  have hi : i < body.seeds := by
    rw [← hbuilt.valid.length]
    exact (List.getElem?_eq_some_iff.mp hid).1
  refine ⟨firstSeed body w.draw + i, congrArg Submission.seed horigin.submission, ?_, ?_⟩
  · rw [Build.first] at hpos
    omega
  · rw [Build.first] at hfit
    omega

/-- The spec a run was submitted with passed validation. -/
theorem accepted_of_row {s₀ s : State μ} {tr : List (Entry (State μ) Action)} (h₀ : s₀.Initial)
    (h : Exec (system env) s₀ tr s) (hrow : (s.slice run).row = some row) {spec : Json.Object}
    (hspec : row.specSnapshot = some spec) : (env.spur.validate spec).valid = true := by
  obtain ⟨r, project, body, w, sub, horigin⟩ := origin_of_row h₀ h row hrow
  obtain ⟨e, -, hbuilt⟩ := horigin.built
  obtain ⟨i, id, -, rfl⟩ := Build.mem_rows_iff.mp horigin.mem
  have hsnapshot := congrArg Submission.specSnapshot horigin.submission
  obtain rfl : spec = w.read.spec := Option.some.inj (hspec.symm.trans hsnapshot)
  exact hbuilt.valid.accepted

/-- Rows that the columns hold are inserted below a project that is there. -/
theorem step_inserting {body : RunCreate} {io : Io} {b : Backend} {rows : List Submitted}
    {p : Uuid} {project : ProjectRow} (hholds : rows.all (fun s => s.row.holds) = true)
    (hproject : b.db.projects p = some project) :
    SubmitRun.step env.spur env.settings p body io b (.inserting rows) =
      some (SubmitRun.loop [] rows, b.insertRuns rows) := by
  simp only [SubmitRun.step, hholds, if_true, hproject]

/-- A body that asks for what the run did is submitted again. -/
theorem submitsAgain_of_row {s₀ s : State μ} {tr : List (Entry (State μ) Action)} {body : RunCreate}
    (h₀ : s₀.Initial) (h : Exec (system env) s₀ tr s) (hrow : (s.slice run).row = some row)
    {target seed : Int} (htarget : row.untilTarget = some target) (hseed : row.seed = some seed)
    (huntil : body.untilTime = some target) (hchunk : body.chunkSize = none)
    (hfirst : body.seed = some seed) (hseeds : body.seeds = 1) (hname : body.name = row.name) :
    SubmitsAgain env row body := by
  intro b project io batch id hproject hspec hids hfresh hdraw
  have hvalid := accepted_of_row h₀ h hrow hspec
  have hholds : (newRun row.projectId project body target seed none).holds = true := by
    have hrow := holds_of_row h₀ h row hrow
    simp only [SimulationRunRow.holds, Bool.and_eq_true, htarget, Option.all_some] at hrow
    simp [SimulationRunRow.holds, newRun, huntil, hchunk, hname, hrow]
  refine ⟨newRun row.projectId project body target seed none,
    ⟨rfl, hspec.symm, htarget.symm, hseed.symm, hname⟩, ?_, fun {io' b'} hproject' => ?_⟩
  · have hdraw' : drawable body.seeds io.draw = true := hseeds ▸ hdraw
    simp [SubmitRun.step, hproject, hvalid, submittedTarget, huntil, hids, hfresh, hseeds, hdraw,
      firstSeed, hfirst, runRows]
  · obtain ⟨project', hproject'⟩ := Option.isSome_iff_exists.mp hproject'
    refine ⟨_, _, step_inserting (by simpa using hholds) hproject', ?_⟩
    simp [Backend.insertRuns, Backend.setRun, Db.setRun]

/-- **Whatever the service says of a run can be sent back to it**: in every state of the
application the name of a run is one that validation lets through unchanged, and the answer about
a run makes a submission that is accepted and asks for the same simulation. -/
theorem answers_send_back (hread : settings.readInt.Law) (h₀ : s₀.Initial)
    (h : Exec (app settings env) s₀ tr s) (hrow : (s.service.slice run).row = some row) :
    SendsBack env settings.readInt run row := by
  have hname := nameOk_of_row h₀ h hrow
  obtain ⟨served, hexec, -⟩ := exists_service_exec h
  obtain ⟨seed, hseed, hrange⟩ := seed_of_row h₀.service hexec hrow
  obtain ⟨target, htarget⟩ := Option.isSome_iff_exists.mp
    ((RunsOk.exec h₀.service hexec).runs run row hrow).1.target
  refine ⟨hname, fun d hd => ?_, ?_⟩
  · have hfield : bodyField d "name" (fun v => (v.elim (.error .missing) runName)) =
        .ok row.name := by
      rw [bodyField_eq_ok, hd]
      exact runName_nameJson hname
    rw [runUpdate, hfield]
  · have hanswer : (toRun run row).seed = some seed := hseed
    obtain ⟨body, haccepted, huntil, hchunk, hfirst, hseeds, hname'⟩ :=
      again_accepted hread hanswer hrange hname
    exact ⟨body, haccepted, submitsAgain_of_row h₀.service hexec hrow htarget hseed
      (huntil.trans htarget) hchunk hfirst hseeds hname'⟩

end

/-- A run of that project is submitted, with a name to trim. -/
def baselineRun : List (Entry (AppState Int) AppAction) × AppState Int :=
  (app keyed clockEnv).played keyedProject.2
    [.call 2 ⟨some keyHeader, .submitRun 1 (.json ⟨[("until", .int 2), ("seed", .int 7),
        ("name", .str " Baseline ")], rfl⟩)⟩,
      .serve (.request 2 { ids := [2, 3] }), .serve (.request 2 {})] (by decide)

theorem baseline_sends_back : ∃ row, (baselineRun.2.service.slice 3).row = some row ∧
    row.name = some "Baseline" ∧ SendsBack clockEnv strictInt 3 row := by
  have hexec : Exec (app keyed clockEnv) AppState.empty (keyedProject.1 ++ baselineRun.1)
      baselineRun.2 := (Machine.played_exec _).append (Machine.played_exec _)
  have hrow : (baselineRun.2.service.slice 3).row = some _ := rfl
  exact ⟨_, hrow, by decide, answers_send_back strictInt_law AppState.empty_initial hexec hrow⟩

end SpurApi
