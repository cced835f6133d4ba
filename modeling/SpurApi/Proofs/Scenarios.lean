/-
Scenarios and their bases.

A scenario is created below the base that its creation read, a deletion is the only thing that
takes a base away, and so listing the scenarios of a project lists its whole family.  A
creation whose base is missing when it is read, or gone when it is inserted, stores nothing.
-/
import SpurApi.Proofs.Families
import SpurApi.Proofs.Submissions

namespace SpurApi

open Transition

section

variable {μ : Type} {env : Env μ} {s₀ s s' : State μ} {a : Action} {b p : Uuid}
  {tr : List (Entry (State μ) Action)} {r : RequestId}

/-! ### What a creation has read and stored -/

/-- How a creation came to the base it inserts: it names no project, or it has read the one it
names. -/
inductive BaseRead (tr : List (Entry (State μ) Action)) (r : RequestId) :
    Option Uuid → Option Uuid → Prop
  | alone : BaseRead tr r none none
  | named {e : Entry (State μ) Action} {io : Io} {body : ProjectSpec} {owner : Option String}
      {named : Uuid} {read : ProjectRow} (he : e ∈ tr) (ha : e.act = .request r io)
      (hreq : e.pre.requests r = some (.createProject body owner (some named) .received))
      (hread : e.pre.backend.db.projects named = some read) :
      BaseRead tr r (some named) (some (read.baseProjectId.getD named))

theorem BaseRead.snoc {base baseId : Option Uuid} (h : BaseRead tr r base baseId)
    (e : Entry (State μ) Action) : BaseRead (tr ++ [e]) r base baseId := by
  cases h with
  | alone => exact .alone
  | named he ha hreq hread => exact .named (List.mem_append_left _ he) ha hreq hread

/-- **The base of an insert was read by the same creation.** -/
theorem baseRead_of_inserting (h₀ : s₀.Initial) (h : Exec (system env) s₀ tr s)
    {body : ProjectSpec} {owner : Option String} {base baseId : Option Uuid}
    (hreq : s.requests r = some (.createProject body owner base (.inserting baseId))) :
    BaseRead tr r base baseId := by
  induction h with
  | nil => simp [h₀.requests] at hreq
  | @snoc tr s s' a h hstep ih =>
      cases request_step hstep hreq with
      | kept _ hreq => exact (ih hreq).snoc _
      | arrived _ _ hreceived => simp [Request.isReceived] at hreceived
      | stepped ha hpre hqstep =>
          obtain ⟨point, rfl, hmove⟩ := createMove_of_request hqstep
          generalize s'.backend = b' at hmove
          cases hmove with
          | alone hbase =>
              subst hbase
              exact .alone
          | named hbase hread =>
              subst hbase
              exact .named (List.mem_append_right _ (List.mem_singleton.mpr rfl)) ha hpre hread

/-- The creation has not inserted its row, and will not once it is answered. -/
def CreateProject.unstored : CreateProject → Prop
  | .received | .inserting _ => True
  | .created _ | .answered (.ok _) => False
  | .answered (.error e) => e ≠ .unhandled refreshFailed

/-- What is stored was stored by a step that leads past the insert. -/
theorem CreateMove.unstored {body : ProjectSpec} {owner : Option String} {base : Option Uuid}
    {io : Io} {b b' : Backend} {q q' : CreateProject}
    (h : CreateMove body owner base io b q q' b') (hq' : q'.unstored) :
    q.unstored ∧ b'.db = b.db := by
  cases h with
  | inserted | reloaded => exact hq'.elim
  | reloadFailed => exact absurd rfl hq'
  | _ => exact ⟨trivial, rfl⟩

/-- **A creation that is not past its insert has changed nothing.** -/
theorem unstored_run (h₀ : s₀.Initial) (h : Exec (system env) s₀ tr s) {body : ProjectSpec}
    {owner : Option String} {base : Option Uuid} {point : CreateProject}
    (hreq : s.requests r = some (.createProject body owner base point)) (hpoint : point.unstored) :
    ∀ e ∈ tr, ∀ io, e.act = .request r io → e.post.backend.db = e.pre.backend.db := by
  induction h generalizing point with
  | nil => simp [h₀.requests] at hreq
  | @snoc tr s s' a h hstep ih =>
      intro e he io hact
      rw [List.mem_append, List.mem_singleton] at he
      cases request_step hstep hreq with
      | kept hne hreq =>
          rcases he with he | rfl
          · exact ih hreq hpoint e he io hact
          · exact absurd hact (hne io)
      | arrived ha hnone =>
          rcases he with he | rfl
          · exact absurd hact (not_acted_of_none h hnone e he io)
          · simp [ha] at hact
      | stepped ha hpre hqstep =>
          obtain ⟨q, rfl, hmove⟩ := createMove_of_request hqstep
          obtain ⟨hq, hdb⟩ := hmove.unstored hpoint
          rcases he with he | rfl
          · exact ih hpre hq e he io hact
          · exact hdb

/-- The project that a creation is about to read or to refer to is not there. -/
inductive BaseMissing (s : State μ) : Option Uuid → CreateProject → Prop
  | named {named : Uuid} (h : s.backend.db.projects named = none) :
      BaseMissing s (some named) .received
  | base {base : Option Uuid} {baseId : Uuid} (h : s.backend.db.projects baseId = none) :
      BaseMissing s base (.inserting (some baseId))

/-- What such a creation answers, without storing anything. -/
theorem BaseMissing.refused {body : ProjectSpec} {owner : Option String} {base : Option Uuid}
    {io : Io} {q : CreateProject} (hstep : s.step env (.request r io) = some s')
    (hreq : s.requests r = some (.createProject body owner base q)) (h : BaseMissing s base q) :
    ∃ err, s'.requests r = some (.createProject body owner base (.answered (.error err))) ∧
      err ≠ .unhandled refreshFailed := by
  obtain ⟨q', hqstep, hreq'⟩ := step_of_request hstep hreq
  simp only [Request.step, Option.map_eq_some_iff, Prod.exists, Prod.mk.injEq] at hqstep
  obtain ⟨_, _, hpoint, rfl, -⟩ := hqstep
  cases h with
  | named hnone =>
      cases createMove_of_step hpoint with
      | alone hbase => simp at hbase
      | missing => exact ⟨_, hreq', by simp [projectNotFound]⟩
      | named hbase hread =>
          rw [Option.some.injEq] at hbase
          simp [← hbase, hnone] at hread
  | base hnone =>
      cases createMove_of_step hpoint with
      | inserted _ hbase => simp [Db.hasBase, hnone] at hbase
      | baseGone => exact ⟨_, hreq', by simp [missingReference, refreshFailed]⟩
      | unstorable => exact ⟨_, hreq', by simp [dataError, refreshFailed]⟩

/-! ### Listing -/

theorem mem_projectRows_iff {b : Backend} {row : ProjectRow} :
    (p, row) ∈ b.projectRows ↔ p ∈ b.minted ∧ b.db.projects p = some row := by
  simp only [Backend.projectRows, List.mem_filterMap, List.mem_dedup, Option.map_eq_some_iff,
    Prod.mk.injEq]
  constructor
  · rintro ⟨id, hid, row', hrow, rfl, rfl⟩
    exact ⟨hid, hrow⟩
  · rintro ⟨hp, hrow⟩
    exact ⟨p, hp, row, hrow, rfl, rfl⟩

theorem projectRows_nodup (b : Backend) : (b.projectRows.map Prod.fst).Nodup := by
  have hsub : (b.projectRows.map Prod.fst).Sublist b.minted.dedup := by
    rw [Backend.projectRows]
    induction b.minted.dedup with
    | nil => exact List.nil_sublist _
    | cons id ids ih =>
        cases hrow : b.db.projects id with
        | none => simpa [hrow] using ih.cons id
        | some row => simpa [hrow] using ih
  exact hsub.nodup b.minted.nodup_dedup

theorem toSummary_id {row : ProjectRow} {summary : ProjectSummary}
    (h : toSummary p row = .ok summary) : summary.id = p := by
  simp only [toSummary, bind, Except.bind, pure, Except.pure] at h
  repeat' split at h
  all_goals cases h
  rfl

/-- The ids of a page are a page of the ids. -/
theorem listProjects_ids {rows : List (Uuid × ProjectRow)} {limit offset : Nat}
    {base : Option Uuid} {page : List ProjectSummary}
    (h : listProjects rows limit offset base = .ok page) :
    page.map ProjectSummary.id =
      Paging.page ((selectProjects rows base).map Prod.fst) offset limit := by
  have hids : ∀ {rows : List (Uuid × ProjectRow)} {summaries : List ProjectSummary},
      rows.mapM (fun p => toSummary p.1 p.2) = .ok summaries →
        summaries.map ProjectSummary.id = rows.map Prod.fst := by
    intro rows
    induction rows with
    | nil =>
        intro summaries hok
        cases hok
        rfl
    | cons row rows ih =>
        intro summaries hok
        simp only [List.mapM_cons, bind, Except.bind, pure, Except.pure] at hok
        split at hok
        · simp at hok
        · rename_i summary hsummary
          split at hok
          · simp at hok
          · rename_i rest hrest
            cases hok
            rw [List.map_cons, List.map_cons, toSummary_id hsummary, ih hrest]
  rw [listProjects] at h
  split at h
  · simp at h
  · rename_i summaries hok
    simp only [Except.ok.injEq] at h
    rw [← h, hids hok, Paging.page_map]

/-- Every stored spec has the shape of a `ProjectSpec`. -/
def SpecsShaped (s : State μ) : Prop :=
  ∀ p row, s.backend.db.projects p = some row → hasSpecShape row.spec = true

theorem SpecsShaped.step (h : SpecsShaped s) (hstep : s.step env a = some s') :
    SpecsShaped s' := by
  intro p row' hrow'
  cases step_project hstep p with
  | @put r io ifMatch body q q' _ _ _ _ hmove =>
      generalize s'.backend = b' at hmove hrow'
      cases hmove with
      | @saved expected row stored hstored =>
          simp only [Backend.setProject, Backend.unlock, Db.setProject, Function.update_self,
            Option.some.injEq] at hrow'
          subst hrow'
          have hspec : (row.flush (replaceSpec row body) stored io.now).spec =
              Column.flushBy Json.Object.pyEq row.spec body.dump stored.spec := rfl
          rcases Column.flushBy_mem Json.Object.pyEq row.spec body.dump stored.spec with
            hkept | hwritten
          · rw [hspec, hkept]
            exact h p stored hstored
          · rw [hspec, hwritten]
            exact body.shape
      | _ => exact h p row' hrow'
  | frame hframe =>
      cases hframe.row with
      | same hsame => exact h p row' (hsame ▸ hrow')
      | @created body _ _ _ _ _ hnew =>
          rw [hnew, Option.some.injEq] at hrow'
          rw [← hrow']
          exact body.shape
      | deleted _ hnone => simp [hnone] at hrow'
      | unlinked hrow hnew =>
          rw [hnew, Option.some.injEq] at hrow'
          subst hrow'
          have hspec := h p _ hrow
          exact hspec

/-- A section that is a list is counted by its length. -/
theorem sectionCount_of_get {spec : Json.Object} {name : String} {items : List Json}
    (h : spec.get name = .arr items) : sectionCount spec name = .ok items.length := by
  unfold Json.Object.get at h
  unfold sectionCount
  cases hvalue : spec.fields.lookup name with
  | none => simp [hvalue] at h
  | some value =>
      rw [hvalue, Option.getD_some] at h
      rw [h]

theorem sectionCount_of_shape {spec : Json.Object} (h : hasSpecShape spec = true)
    (name : String) (hname : name ∈ simulationInputs) :
    ∃ n, sectionCount spec name = .ok n := by
  obtain ⟨items, hitems⟩ := section_of_hasSpecShape h hname
  exact ⟨items.length, sectionCount_of_get hitems⟩

theorem toSummary_of_shape {row : ProjectRow} (h : hasSpecShape row.spec = true) (p : Uuid) :
    ∃ summary, toSummary p row = .ok summary := by
  have hcount := sectionCount_of_shape h
  obtain ⟨_, h1⟩ := hcount "components" (by simp [simulationInputs])
  obtain ⟨_, h2⟩ := hcount "routes" (by simp [simulationInputs])
  obtain ⟨_, h3⟩ := hcount "tours" (by simp [simulationInputs])
  obtain ⟨_, h4⟩ := hcount "trains" (by simp [simulationInputs])
  rw [toSummary, h1, h2, h3, h4]
  exact ⟨_, rfl⟩

/-- Listing is answered when every row can be summarised. -/
theorem listProjects_isOk {rows : List (Uuid × ProjectRow)}
    (h : ∀ p ∈ rows, ∃ summary, toSummary p.1 p.2 = .ok summary) (limit offset : Nat)
    (base : Option Uuid) : ∃ page, listProjects rows limit offset base = .ok page := by
  have hok : ∀ {selected : List (Uuid × ProjectRow)}, selected ⊆ rows →
      ∃ page, selected.mapM (fun p => toSummary p.1 p.2) = .ok page := by
    intro selected
    induction selected with
    | nil => exact fun _ => ⟨[], rfl⟩
    | cons p selected ih =>
        intro hsub
        obtain ⟨summary, hsummary⟩ := h p (hsub List.mem_cons_self)
        obtain ⟨page, hpage⟩ := ih fun q hq => hsub (List.mem_cons_of_mem p hq)
        exact ⟨summary :: page, by
          simp only [List.mapM_cons, hsummary, hpage, bind, Except.bind, pure, Except.pure]⟩
  have hselected : selectProjects rows base ⊆ rows := by
    intro p hp
    rw [selectProjects.eq_def, (List.mergeSort_perm _ _).mem_iff] at hp
    cases base with
    | none => exact hp
    | some b => exact List.mem_of_mem_filter hp
  obtain ⟨page, hpage⟩ := hok fun p hp => hselected ((Paging.page_sublist _ offset limit).mem hp)
  exact ⟨page, by rw [listProjects, hpage]⟩

/-- The scenarios that are listed for a project, in their order. -/
def State.scenarios (s : State μ) (b : Uuid) : List Uuid :=
  (selectProjects s.backend.projectRows (some b)).map Prod.fst

theorem scenarios_nodup (s : State μ) (b : Uuid) : (s.scenarios b).Nodup := by
  rw [State.scenarios, selectProjects, ((List.mergeSort_perm _ _).map _).nodup_iff]
  exact (List.filter_sublist.map _).nodup (projectRows_nodup _)

/-- **What is listed for a project is what is stored below it.** -/
theorem mem_scenarios_iff (hok : FamiliesOk s) :
    p ∈ s.scenarios b ↔ Family.Below s.bases p b := by
  rw [State.scenarios, selectProjects, ((List.mergeSort_perm _ _).map _).mem_iff, Family.Below,
    State.bases, Db.bases_eq_some_iff]
  simp only [List.mem_map, List.mem_filter, beq_iff_eq, Prod.exists, exists_and_right,
    exists_eq_right]
  refine exists_congr fun row => and_congr_left fun _ => ?_
  rw [mem_projectRows_iff]
  exact ⟨And.right, fun hrow => ⟨hok.minted p row hrow, hrow⟩⟩

/-! ### The families of a run -/

/-- What is promised of the families in a history `tr` that ends in `s`. -/
structure Families (s₀ : State μ) (tr : List (Entry (State μ) Action))
    (s : State μ) : Prop where
  /-- who is pointed at is there and points at nobody -/
  depth : ∀ p row b, s.backend.db.projects p = some row → row.baseProjectId = some b →
    ∃ baseRow, s.backend.db.projects b = some baseRow ∧ baseRow.baseProjectId = none
  /-- a project is created below the base that its creation read -/
  created : ∀ tr₁ e tr₂, tr = tr₁ ++ e :: tr₂ → ∀ p row,
    e.pre.backend.db.projects p = none → e.post.backend.db.projects p = some row →
      ∃ r io body owner base, e.act = .request r io ∧
        e.pre.requests r = some (.createProject body owner base (.inserting row.baseProjectId)) ∧
        BaseRead tr₁ r base row.baseProjectId
  /-- and stays there as long as its base does; without it, it is on its own -/
  kept : ∀ e ∈ tr, ∀ p row row', e.pre.backend.db.projects p = some row →
    e.post.backend.db.projects p = some row' →
      (∀ b, row.baseProjectId = some b → e.post.backend.db.projects b = none →
        row'.baseProjectId = none) ∧
      ((∀ b, row.baseProjectId = some b → e.post.backend.db.projects b ≠ none) →
        row'.baseProjectId = row.baseProjectId)
  /-- a base goes when it is deleted, and only then -/
  deleted : ∀ e ∈ tr, ∀ p, (e.pre.backend.db.projects p).isSome = true →
    (e.post.backend.db.projects p = none ↔ ProjectDeletes e.pre e.act p)
  /-- the pages of a listing are pages of the scenarios, each of which is there once -/
  listed : ∀ b, (s.scenarios b).Nodup ∧
    (∀ p, p ∈ s.scenarios b ↔ Family.Below s.bases p b) ∧
    (∀ p, p ∈ s.scenarios b ↔ Relation.TransGen (Family.Below s.bases) p b) ∧
    ∀ limit offset page, listProjects s.backend.projectRows limit offset (some b) = .ok page →
      page.map ProjectSummary.id = Paging.page (s.scenarios b) offset limit
  /-- and it is answered -/
  answered : SpecsShaped s₀ → ∀ b limit offset, ∃ page,
    listProjects s.backend.projectRows limit offset (some b) = .ok page
  /-- a creation whose base is missing is refused and stores nothing, then or ever -/
  refused : ∀ e ∈ tr, ∀ r io body owner base q, e.act = .request r io →
    e.pre.requests r = some (.createProject body owner base q) → BaseMissing e.pre base q →
      (∃ err, s.requests r = some (.createProject body owner base (.answered (.error err)))) ∧
        ∀ e' ∈ tr, ∀ io', e'.act = .request r io' → e'.post.backend.db = e'.pre.backend.db

/-- An answer is final. -/
theorem answered_step {body : ProjectSpec} {owner : Option String} {base : Option Uuid}
    {answer : Except ApiError Project}
    (hreq : s.requests r = some (.createProject body owner base (.answered answer)))
    (hstep : s.step env a = some s') :
    s'.requests r = some (.createProject body owner base (.answered answer)) := by
  obtain ⟨q', hreq'⟩ := Option.isSome_iff_exists.mp
    (requests_isSome_step (r := r) hstep (by rw [hreq]; rfl))
  cases request_step hstep hreq' with
  | kept _ h => rw [hreq', ← h, hreq]
  | arrived _ hnone => simp [hnone] at hreq
  | stepped _ hpre hqstep =>
      rw [hreq, Option.some.injEq] at hpre
      subst hpre
      simp [Request.step, CreateProject.step] at hqstep

/-- A project that a step removes was deleted by it. -/
theorem gone_iff_deletes (hok : FamiliesOk s) (hstep : s.step env a = some s')
    (hrow : (s.backend.db.projects p).isSome = true) :
    s'.backend.db.projects p = none ↔ ProjectDeletes s a p := by
  rw [← Db.bases_eq_none_iff, ← State.bases]
  have hsome : s.bases p ≠ none := Db.bases_ne_none_iff.mpr hrow
  cases family_step hstep with
  | same h hkept => exact ⟨fun hnone => absurd (h ▸ hnone) hsome, fun hp => absurd hp (hkept p)⟩
  | @created _ _ _ _ _ _ id ha hreq hfresh _ h =>
      have hne : p ≠ id := by
        rintro rfl
        exact hsome (hok.bases_none hfresh)
      refine ⟨fun hnone => absurd ?_ hsome, fun hp => ?_⟩
      · rwa [h, Function.update_of_ne hne] at hnone
      · obtain ⟨ha', hreq'⟩ := hp
        rw [ha, Action.request.injEq] at ha'
        simp [ha'.1 ▸ hreq'] at hreq
  | @deleted id hid h =>
      constructor
      · intro hnone
        by_cases hne : p = id
        · exact hne ▸ hid
        · rw [h, Family.without, if_neg hne, Option.map_eq_none_iff] at hnone
          exact absurd hnone hsome
      · intro hp
        obtain ⟨ha, hreq⟩ := hp
        obtain ⟨ha', hreq'⟩ := hid
        rw [ha, Action.request.injEq] at ha'
        rw [← ha'.1, hreq, Option.some.injEq, Request.deleteProject.injEq] at hreq'
        rw [h, Family.without, if_pos hreq'.1]

/-- **Families have depth one**, in every interleaving of any number of requests and workers. -/
theorem families_have_depth_one (h₀ : s₀.Initial) (h : Exec (system env) s₀ tr s) :
    Families s₀ tr s where
  depth p row b hrow hbase := by
    have hbelow : s.bases p = some (some b) := (Db.bases_of_row hrow).trans (congrArg some hbase)
    exact Db.bases_eq_some_iff.mp ((FamiliesOk.exec h₀ h).flat p b hbelow)
  created tr₁ e tr₂ htr p row hnone hrow := by
    subst htr
    obtain ⟨hpre, hstep, -⟩ := h.split_at
    have hbases : e.pre.bases p = none := Db.bases_eq_none_iff.mpr hnone
    have hbases' : e.post.bases p = some row.baseProjectId := Db.bases_of_row hrow
    cases family_step hstep with
    | same h => simp [h, hbases] at hbases'
    | @created r io body owner base baseId id ha hreq _ _ h =>
        have hid : p = id := by
          by_contra hne
          rw [h, Function.update_of_ne hne, hbases] at hbases'
          simp at hbases'
        subst hid
        rw [h, Function.update_self, Option.some.injEq] at hbases'
        subst hbases'
        exact ⟨r, io, body, owner, base, ha, hreq, baseRead_of_inserting h₀ hpre hreq⟩
    | deleted _ h =>
        rw [h, Family.without, hbases] at hbases'
        simp at hbases'
  kept e he p row row' hrow hrow' := by
    obtain ⟨_, _, _, hpre, hstep, _⟩ := h.of_mem he
    have hok := FamiliesOk.exec h₀ hpre
    have hkept := ((family_step hstep).move hok).kept hok.flat (a := p)
      (Db.bases_of_row hrow) (Db.bases_of_row hrow')
    rcases hkept with ⟨hsame, hthere⟩ | ⟨b, hbase, -, hgone, hnone⟩
    · refine ⟨fun b hbase hgone => ?_, fun _ => hsame⟩
      exact absurd (Db.bases_eq_none_iff.mpr hgone) (hthere b hbase)
    · refine ⟨fun _ _ _ => hnone, fun hthere => ?_⟩
      exact absurd (Db.bases_eq_none_iff.mp hgone) (hthere b hbase)
  deleted e he p hrow := by
    obtain ⟨_, _, _, hpre, hstep, _⟩ := h.of_mem he
    exact gone_iff_deletes (FamiliesOk.exec h₀ hpre) hstep hrow
  listed b := by
    have hok := FamiliesOk.exec h₀ h
    refine ⟨scenarios_nodup s b, fun p => mem_scenarios_iff hok, fun p => ?_,
      fun limit offset page hpage => listProjects_ids hpage⟩
    rw [hok.flat.transGen_iff, mem_scenarios_iff hok]
  answered hspecs b limit offset := by
    have hshaped := h.invariant (I := fun s => SpecsShaped s) hspecs
      fun _ _ _ hI hstep => hI.step hstep
    refine listProjects_isOk (fun row hrow => ?_) limit offset (some b)
    obtain ⟨-, hstored⟩ := mem_projectRows_iff.mp (show (row.1, row.2) ∈ _ from hrow)
    exact toSummary_of_shape (hshaped row.1 row.2 hstored) row.1
  refused e he r io body owner base q ha hreq hmissing := by
    obtain ⟨_, _, _, hpre, hstep, hrest⟩ := h.of_mem he
    rw [ha] at hstep
    obtain ⟨err, hanswered, hne⟩ := hmissing.refused hstep hreq
    have hfinal : s.requests r =
        some (.createProject body owner base (.answered (.error err))) :=
      hrest.invariant (I := fun s => s.requests r = _) hanswered
        fun _ _ _ hI hstep => answered_step hI hstep
    exact ⟨⟨err, hfinal⟩, unstored_run h₀ h hfinal hne⟩

end

/-- A project, a scenario of it, a scenario of the scenario. -/
def createFamily : List Action :=
  [.arrive 1 (.createProject (.blank "A") none none .received), .request 1 {},
    .request 1 { ids := [1] },
    .arrive 2 (.createProject (.blank "B") none (some 1) .received), .request 2 {},
    .request 2 { ids := [2] },
    .arrive 3 (.createProject (.blank "C") none (some 2) .received), .request 3 {},
    .request 3 { ids := [3] }]

/-- One more scenario is on its way while the base is deleted. -/
def brokenFamily : List (Entry (State Int) Action) × State Int :=
  (system clockEnv).played State.empty (createFamily ++
    [.arrive 4 (.createProject (.blank "D") none (some 3) .received), .request 4 {},
      .arrive 5 (.deleteProject 1 .received), .request 5 {}, .request 5 {},
      .request 4 { ids := [4] }]) (by decide)

/-- The scenarios stand on their own, and the one on its way is refused. -/
theorem broken_family_has_depth_one :
    (brokenFamily.2.backend.minted = [4, 3, 2, 1]) ∧
      ([1, 2, 3, 4].map brokenFamily.2.bases) = [none, some none, some none, none] ∧
      Families State.empty brokenFamily.1 brokenFamily.2 :=
  ⟨rfl, by decide, families_have_depth_one State.empty_initial (Machine.played_exec _)⟩

end SpurApi
