/-
`alembic upgrade head`, from every version a database can be at.

What the revisions do to the schema is computed, version by version, and so is what the
rows could refuse (`checked`).  That every database of the version goes through then, and
what becomes of its rows, are general facts about lists of changes.
-/
import SpurApi.Alembic

namespace SpurApi

open Relational

/-- No revision yet, or one of those there are. -/
def knownVersions : List (Option String) := none :: Alembic.versions.map fun r => some r.id

/-- The changes from the empty database up to a version. -/
def changesUpTo (version : Option String) : List SqlOp :=
  (revisionsUpTo Alembic.versions version).flatMap Revision.upgrade

/-- What `alembic upgrade head` does at a version. -/
def changesToHead (version : Option String) : List SqlOp :=
  upgradeHead Alembic.versions version

/-- What `alembic downgrade` to the version does from there. -/
def changesBack (version : Option String) : List SqlOp :=
  downgradeTo Alembic.versions version

/-- The schema of a version. -/
def schemaAt (version : Option String) : Option (Schema SqlType) :=
  onSchemaAll postgres (changesUpTo version) ⟨[], []⟩

/-- A database of this version. -/
structure AtVersion (version : Option String) (db : SqlDatabase) : Prop where
  known : version ∈ knownVersions
  schema : schemaAt version = some db.schema
  ok : db.Ok postgres

/-! ### What is computed -/

/-- From this schema the changes lead to the tables that `db/models.py` declares, whatever the
rows are, and touch no column that is there; runs and events only get nulls. -/
def leadsToHead (ops : List SqlOp) (schema : Schema SqlType) : Bool :=
  (onSchemaAll postgres ops schema).any (·.same metadata) && safe postgres ops [] [] &&
    ops.all (·.keeps schema) && ops.all (·.blanks postgres "simulation_runs") &&
      ops.all (·.blanks postgres "run_events")

/-- The changes lead back to this schema, and touch none of its columns. -/
def leadsBack (ops : List SqlOp) (head : Option (Schema SqlType))
    (schema : Schema SqlType) : Bool :=
  head.bind (onSchemaAll postgres ops) == some schema && safe postgres ops [] [] &&
    ops.all (·.keeps schema)

/-- All the way back there are no tables left, and nothing leads up again. -/
def leadsToBase (head : Option (Schema SqlType)) : Bool :=
  ((head.bind (onSchemaAll postgres (changesBack none))).any fun base =>
    base.tables.isEmpty && (onSchemaAll postgres (changesToHead none) base).isNone) &&
      safe postgres (changesBack none) [] []

def checked (version : Option String) : Bool :=
  (schemaAt version).any fun schema =>
    leadsToHead (changesToHead version) schema &&
      leadsToBase (onSchemaAll postgres (changesToHead version) schema) &&
      (version.isNone ||
        leadsBack (changesBack version) (onSchemaAll postgres (changesToHead version) schema)
          schema)

theorem checked_of_known : ∀ version ∈ knownVersions, checked version = true := by
  decide +kernel

/-! ### A database with one old project -/

def oldProject : Row SqlValue := fun column =>
  if column = "spur_version" then .string "0.1.0"
  else if column = "spec" then .jsonb (ProjectSpec.blank "A").dump
  else if column = "created_at" then .dateTime 0
  else if column = "updated_at" then .dateTime 0
  else .null

/-- At the version before projects had versions. -/
def oneProject : SqlDatabase where
  schema := (schemaAt (some "c41d7a9e2b63")).getD ⟨[], []⟩
  rows name := if name = "projects" then [(.uuid 0, oldProject)] else []

theorem oneProject_typed : ((oneProject.schema.lookup "projects").any fun table =>
    table.cols.all (fun col => col.admits postgres (oldProject col.name)) &&
      ["spur_version", "spec", "created_at", "updated_at"].all table.names.contains &&
        table.idType == .uuid && table.refs.isEmpty && table.indexes.isEmpty) = true := by
  decide +kernel

theorem oneProject_at : AtVersion (some "c41d7a9e2b63") oneProject := by
  obtain ⟨projects, hprojects, hall⟩ := (Option.any_eq_true _ _).mp oneProject_typed
  simp only [Bool.and_eq_true, List.all_eq_true, List.isEmpty_iff, beq_iff_eq] at hall
  obtain ⟨⟨⟨⟨htyped, hnames⟩, hid⟩, hrefs⟩, hindexes⟩ := hall
  refine ⟨by decide, by rfl, fun name => ?_, fun name table hlookup => ?_, fun name hlookup => ?_⟩
  · by_cases hname : name = "projects" <;> simp [Database.keys, oneProject, hname]
  · have hwf : table.wf = true := by
      have hall : (oneProject.schema.tables.all fun t => t.2.wf) = true := by decide +kernel
      exact List.all_eq_true.mp hall _ (mem_of_lookup hlookup)
    by_cases hname : name = "projects"
    · subst hname
      obtain rfl : projects = table := Option.some.inj (hprojects.symm.trans hlookup)
      simp only [oneProject, if_true]
      refine ⟨hwf, ?_, ?_, ?_, by simp [hrefs], by simp [hindexes]⟩
      · simp [hid, postgres, SqlKey.value, SqlType.has]
      · simpa using htyped
      · intro r hr column hcolumn
        rw [List.mem_singleton] at hr
        subst hr
        simp only [List.contains_iff_mem, List.forall_mem_cons] at hnames
        have hne {c : String} (hc : c ∈ projects.names) : column ≠ c := by
          rintro rfl
          exact hcolumn hc
        simp [oldProject, hne hnames.1, hne hnames.2.1, hne hnames.2.2.1, hne hnames.2.2.2.1,
          postgres]
    · simp only [oneProject, if_neg hname]
      exact ⟨hwf, by simp, by simp, by simp, by simp, by simp⟩
  · have hname : name ≠ "projects" := by
      rintro rfl
      rw [hprojects] at hlookup
      cases hlookup
    exact if_neg hname

/-! ### What becomes of a database -/

section

variable {version : Option String} {db db' : SqlDatabase}

theorem leadsToHead_iff {ops : List SqlOp} {schema : Schema SqlType} :
    leadsToHead ops schema = true ↔
      (∃ head, onSchemaAll postgres ops schema = some head ∧ head.same metadata = true) ∧
        safe postgres ops [] [] = true ∧ (∀ op ∈ ops, op.keeps schema = true) ∧
          (∀ op ∈ ops, op.blanks postgres "simulation_runs" = true) ∧
            ∀ op ∈ ops, op.blanks postgres "run_events" = true := by
  simp only [leadsToHead, Bool.and_eq_true, Option.any_eq_true, List.all_eq_true, and_assoc]

theorem leadsBack_iff {ops : List SqlOp} {head schema : Schema SqlType} :
    leadsBack ops (some head) schema = true ↔
      onSchemaAll postgres ops head = some schema ∧ safe postgres ops [] [] = true ∧
        ∀ op ∈ ops, op.keeps schema = true := by
  simp only [leadsBack, Option.bind_some, Bool.and_eq_true, beq_iff_eq, List.all_eq_true,
    and_assoc]

theorem leadsToBase_iff {head : Schema SqlType} :
    leadsToBase (some head) = true ↔
      (∃ base, onSchemaAll postgres (changesBack none) head = some base ∧ base.tables = [] ∧
        onSchemaAll postgres (changesToHead none) base = none) ∧
          safe postgres (changesBack none) [] [] = true := by
  simp only [leadsToBase, Option.bind_some, Bool.and_eq_true, Option.any_eq_true,
    List.isEmpty_iff, Option.isNone_iff_eq_none]

theorem AtVersion.checked (h : AtVersion version db) :
    leadsToHead (changesToHead version) db.schema = true ∧
      leadsToBase (onSchemaAll postgres (changesToHead version) db.schema) = true ∧
      (version ≠ none → leadsBack (changesBack version)
        (onSchemaAll postgres (changesToHead version) db.schema) db.schema = true) := by
  have hchecked := checked_of_known version h.known
  rw [SpurApi.checked, h.schema, Option.any_some, Bool.and_eq_true, Bool.and_eq_true,
    Bool.or_eq_true, Option.isNone_iff_eq_none] at hchecked
  obtain ⟨⟨hhead, hbase⟩, hback⟩ := hchecked
  exact ⟨hhead, hbase, fun hne => hback.resolve_left hne⟩

/-- A table of the schema has the rows it had, and in them the values it had. -/
def Kept (table : Table SqlType) (rows rows' : List (SqlKey × Row SqlValue)) : Prop :=
  List.Forall₂ (fun r r' => r'.1 = r.1 ∧ ∀ column ∈ table.names, r'.2 column = r.2 column)
    rows rows'

/-- What an upgrade made of a database of this version. -/
structure Upgraded (version : Option String) (db db' : SqlDatabase) : Prop where
  ok : db'.Ok postgres
  declared : db'.schema.same metadata = true
  kept : ∀ name table, db.schema.lookup name = some table →
    Kept table (db.rows name) (db'.rows name)
  runs : db'.rows "simulation_runs" = db.rows "simulation_runs"
  events : db'.rows "run_events" = db.rows "run_events"
  back : version ≠ none → applyAll postgres (changesBack version) db' = some db
  /-- a downgrade of all revisions leaves the type `runstatus`, with which none can be made again -/
  base : ∃ db₀, applyAll postgres (changesBack none) db' = some db₀ ∧ db₀.schema.tables = [] ∧
    applyAll postgres (changesToHead none) db₀ = none

theorem upgraded_of_applyAll (h : AtVersion version db)
    (happly : applyAll postgres (changesToHead version) db = some db') :
    Upgraded version db db' := by
  obtain ⟨hhead, hbase, hback⟩ := h.checked
  obtain ⟨⟨head, hschema, hsame⟩, -, hkeeps, hruns, hevents⟩ := leadsToHead_iff.mp hhead
  have hok' := applyAll_ok h.ok happly
  obtain rfl : db'.schema = head :=
    Option.some.inj ((applyAll_schema happly).symm.trans hschema)
  refine ⟨hok', hsame, fun name table hlookup => ?_, applyAll_rows_eq h.ok happly hkeeps hruns,
    applyAll_rows_eq h.ok happly hkeeps hevents, fun hne => ?_, ?_⟩
  · rw [applyAll_rows happly (not_dropped_of_keeps hkeeps hlookup), Kept,
      List.forall₂_map_right_iff]
    exact List.forall₂_same.mpr fun r _ =>
      ⟨rfl, fun column hcolumn => onRowAll_keeps hkeeps hlookup hcolumn r.2⟩
  · have hleads := hback hne
    rw [hschema, leadsBack_iff] at hleads
    obtain ⟨hdown, hsafe, hkeepsBack⟩ := hleads
    obtain ⟨db₀, hdb₀, hschema₀⟩ := applyAll_of_safe hok' hdown (by simp [AllNull]) (by simp) hsafe
    -- there and back again is one list of changes from the database to its own schema
    have hround : applyAll postgres (changesToHead version ++ changesBack version) db =
        some db₀ := by
      rw [applyAll_append, happly, Option.bind_some, hdb₀]
    have hrestored : db₀ = db := applyAll_restores h.ok hround
      (fun op hop => (List.mem_append.mp hop).elim (hkeeps op) (hkeepsBack op)) hschema₀
    rw [hdb₀, hrestored]
  · rw [hschema, leadsToBase_iff] at hbase
    obtain ⟨⟨base, hdown, hempty, hclosed⟩, hsafe⟩ := hbase
    obtain ⟨db₀, hdb₀, hschema₀⟩ := applyAll_of_safe hok' hdown (by simp [AllNull]) (by simp) hsafe
    refine ⟨db₀, hdb₀, hschema₀ ▸ hempty, Option.eq_none_iff_forall_ne_some.mpr fun db₁ hdb₁ => ?_⟩
    have hup := applyAll_schema hdb₁
    rw [hschema₀, hclosed] at hup
    cases hup

theorem exists_upgraded (h : AtVersion version db) :
    ∃ db', applyAll postgres (changesToHead version) db = some db' := by
  obtain ⟨⟨head, hschema, -⟩, hsafe, -⟩ := leadsToHead_iff.mp h.checked.1
  obtain ⟨db', happly, -⟩ :=
    applyAll_of_safe h.ok hschema (by simp [AllNull]) (by simp) hsafe
  exact ⟨db', happly⟩

/-- **An upgrade goes through and keeps everything, and a downgrade undoes it.** -/
theorem upgrades_keep_data (h : AtVersion version db) :
    ∃ db', applyAll postgres (changesToHead version) db = some db' ∧ Upgraded version db db' := by
  obtain ⟨db', happly⟩ := exists_upgraded h
  exact ⟨db', happly, upgraded_of_applyAll h happly⟩

theorem one_project_is_kept : ∃ db',
    applyAll postgres (changesToHead (some "c41d7a9e2b63")) oneProject = some db' ∧
      Upgraded (some "c41d7a9e2b63") oneProject db' :=
  upgrades_keep_data oneProject_at

/-! ### Rows as the service loads them -/

/-- A value of a type, by the type. -/
theorem exists_of_has {type : SqlType} {v : SqlValue} (h : type.has v = true) :
    match type with
    | .uuid => ∃ u, v.asUuid = some u
    | .string => ∃ s, v.asString = some s
    | .jsonb => ∃ d, v.asObject = some d
    | .dateTime => ∃ t, v.asTime = some t
    | .integer | .bigInteger => ∃ n, v.asInt = some n
    | .boolean => ∃ b, v.asBool = some b
    | .runstatus => ∃ s, v.asStatus = some s := by
  cases type <;> cases v <;> first | exact ⟨_, rfl⟩ | cases h

/-- A column that `db/models.py` declares as required holds a value of its type. -/
theorem Upgraded.typed (h : Upgraded version db db') {name : String} {r : SqlKey × Row SqlValue}
    (hr : r ∈ db'.rows name) (col : Col SqlType) (hnullable : col.nullable = false)
    (hcol : ((metadata.lookup name).any fun table => table.cols.contains col) = true) :
    col.type.has (r.2 col.name) = true := by
  obtain ⟨table, hdeclared, hmem⟩ := (Option.any_eq_true _ _).mp hcol
  rw [List.contains_iff_mem] at hmem
  obtain ⟨table', hlookup, hsame⟩ := Schema.same_lookup h.declared hdeclared
  have hcols := (Table.of_same hsame).2.1
  have hadmits := (h.ok.tables name table' hlookup).typed r hr col (hcols.mem_iff.mpr hmem)
  rw [Col.admits, hnullable] at hadmits
  split at hadmits
  · cases hadmits
  · exact hadmits

/-- Every project loads. -/
theorem Upgraded.exists_readProject (h : Upgraded version db db') {r : SqlKey × Row SqlValue}
    (hr : r ∈ db'.rows "projects") : ∃ p, readProject r.2 = some p := by
  obtain ⟨spurVersion, h1⟩ :=
    exists_of_has (h.typed hr (required "spur_version" .string) rfl (by decide))
  obtain ⟨spec, h2⟩ := exists_of_has (h.typed hr (required "spec" .jsonb) rfl (by decide))
  obtain ⟨v, h3⟩ := exists_of_has (h.typed hr (defaulted "version" .integer "1") rfl (by decide))
  obtain ⟨inputs, h4⟩ :=
    exists_of_has (h.typed hr (defaulted "inputs_version" .integer "1") rfl (by decide))
  obtain ⟨created, h5⟩ :=
    exists_of_has (h.typed hr (defaulted "created_at" .dateTime "now()") rfl (by decide))
  obtain ⟨updated, h6⟩ :=
    exists_of_has (h.typed hr (defaulted "updated_at" .dateTime "now()") rfl (by decide))
  simp only [required, defaulted] at h1 h2 h3 h4 h5 h6
  simp [readProject, h1, h2, h3, h4, h5, h6]

/-- And so does every run. -/
theorem Upgraded.exists_readRun (h : Upgraded version db db') {r : SqlKey × Row SqlValue}
    (hr : r ∈ db'.rows "simulation_runs") : ∃ run, readRun r.2 = some run := by
  obtain ⟨project, h1⟩ :=
    exists_of_has (h.typed hr (required "project_id" .uuid) rfl (by decide))
  obtain ⟨status, h2⟩ := exists_of_has (h.typed hr (required "status" .runstatus) rfl (by decide))
  obtain ⟨cancel, h3⟩ :=
    exists_of_has (h.typed hr (required "cancel_requested" .boolean) rfl (by decide))
  simp only [required] at h1 h2 h3
  simp [readRun, h1, h2, h3]

/-- What a row of `projects` from before the upgrade says about the project that is loaded: a
project without a version has version 1, and its inputs are taken to be of its latest version. -/
structure Carried (row : Row SqlValue) (p : ProjectRow) : Prop where
  owner : p.owner = (row "owner").asString
  name : p.name = (row "name").asString
  spurVersion : some p.spurVersion = (row "spur_version").asString
  spec : some p.spec = (row "spec").asObject
  version : p.version = (row "version").asInt.getD 1
  inputsVersion : p.inputsVersion = (row "inputs_version").asInt.getD p.version
  baseProjectId : p.baseProjectId = (row "base_project_id").asUuid
  createdAt : some p.createdAt = (row "created_at").asTime
  updatedAt : some p.updatedAt = (row "updated_at").asTime

theorem readProject_eq_some {row : Row SqlValue} {p : ProjectRow}
    (h : readProject row = some p) :
    p.owner = (row "owner").asString ∧ p.name = (row "name").asString ∧
      (row "spur_version").asString = some p.spurVersion ∧
        (row "spec").asObject = some p.spec ∧ (row "version").asInt = some p.version ∧
          (row "inputs_version").asInt = some p.inputsVersion ∧
            p.baseProjectId = (row "base_project_id").asUuid ∧
              (row "created_at").asTime = some p.createdAt ∧
                (row "updated_at").asTime = some p.updatedAt := by
  simp only [readProject, Option.bind_eq_bind, Option.bind_eq_some_iff, Option.pure_def,
    Option.some.injEq] at h
  obtain ⟨spurVersion, h1, spec, h2, v, h3, inputs, h4, created, h5, updated, h6, rfl⟩ := h
  exact ⟨rfl, rfl, h1, h2, h3, h4, rfl, h5, h6⟩

/-! ### What the columns that are added hold -/

/-- Where an upgrade takes a column of `projects` from. -/
def projectOrigin (version : Option String) (column : String) : Origin SqlValue :=
  originAll postgres (changesToHead version) "projects" column

/-- `names` are the columns that `projects` has at this version. -/
def fillsProjects (version : Option String) (names : List String) : Bool :=
  ["owner", "name", "spur_version", "spec", "created_at", "updated_at"].all names.contains &&
    (names.contains "version" ||
      (projectOrigin version "version").fills fun v => v.asInt == some 1) &&
    (names.contains "inputs_version" ||
      if names.contains "version" then (projectOrigin version "inputs_version").reads "version"
      else (projectOrigin version "inputs_version").fills fun v => v.asInt == some 1) &&
    (names.contains "base_project_id" ||
      (projectOrigin version "base_project_id").fills SqlValue.isNull)

theorem fillsProjects_of_known : ∀ version ∈ knownVersions,
    ((schemaAt version).all fun schema => (schema.lookup "projects").all fun table =>
      fillsProjects version table.names) = true := by
  decide +kernel

/-- **An upgraded project says what its row said.** -/
theorem carried_of_readProject (h : AtVersion version db) {k : SqlKey} {row : Row SqlValue}
    (hr : (k, row) ∈ db.rows "projects") {p : ProjectRow}
    (hp : readProject (onRowAll postgres (changesToHead version) "projects" row) = some p) :
    Carried row p := by
  cases hlookup : db.schema.lookup "projects" with
  | none =>
      rw [h.ok.absent _ hlookup] at hr
      cases hr
  | some table =>
      have hfills := fillsProjects_of_known version h.known
      rw [h.schema, Option.all_some, hlookup, Option.all_some] at hfills
      simp only [fillsProjects, Bool.and_eq_true, Bool.or_eq_true, List.contains_iff_mem,
        List.all_cons, List.all_nil, and_true, and_assoc] at hfills
      obtain ⟨howner, hname, hspur, hspec, hcreated, hupdated, hversion, hinputs, hbase⟩ := hfills
      obtain ⟨-, -, hkeeps, -⟩ := leadsToHead_iff.mp h.checked.1
      obtain ⟨powner, pname, pspur, pspec, pversion, pinputs, pbase, pcreated, pupdated⟩ :=
        readProject_eq_some hp
      have hold : ∀ column ∈ table.names, onRowAll postgres (changesToHead version) "projects" row
          column = row column := fun column hcolumn =>
        onRowAll_keeps hkeeps hlookup hcolumn row
      have hnew : ∀ column, column ∉ table.names → row column = .null :=
        (h.ok.tables _ table hlookup).blank _ hr
      have hfilled : ∀ column, onRowAll postgres (changesToHead version) "projects" row column =
          (projectOrigin version column).read row := fun column =>
        onRowAll_eq_read _ _ column row
      have hversion' : p.version = (row "version").asInt.getD 1 := by
        by_cases hmem : "version" ∈ table.names
        · rw [hold _ hmem] at pversion
          rw [pversion, Option.getD_some]
        · have hone := Origin.read_of_fills (hversion.resolve_left hmem) row
          rw [← hfilled, pversion, beq_iff_eq, Option.some.injEq] at hone
          rw [hnew _ hmem, hone]
          rfl
      refine ⟨?_, ?_, ?_, ?_, hversion', ?_, ?_, ?_, ?_⟩
      · rw [powner, hold _ howner]
      · rw [pname, hold _ hname]
      · rw [← pspur, hold _ hspur]
      · rw [← pspec, hold _ hspec]
      · by_cases hmem : "inputs_version" ∈ table.names
        · rw [hold _ hmem] at pinputs
          rw [pinputs, Option.getD_some]
        · rw [hnew _ hmem]
          show p.inputsVersion = p.version
          have horigin := hinputs.resolve_left hmem
          split at horigin
          · rename_i hver
            rw [hfilled, Origin.read_of_reads horigin] at pinputs
            rw [hversion', pinputs, Option.getD_some]
          · rename_i hver
            have hone := Origin.read_of_fills horigin row
            rw [← hfilled, pinputs, beq_iff_eq, Option.some.injEq] at hone
            rw [hversion', hone, hnew _ hver]
            rfl
      · rw [pbase]
        by_cases hmem : "base_project_id" ∈ table.names
        · rw [hold _ hmem]
        · have hnull := Origin.read_of_fills (hbase.resolve_left hmem) row
          rw [← hfilled] at hnull
          rw [hnew _ hmem, (postgres.isNull_iff _).mp hnull]
          rfl
      · rw [← pcreated, hold _ hcreated]
      · rw [← pupdated, hold _ hupdated]

/-! ### The service over an upgraded database -/

/-- What is found by id are these rows, as `R` says. -/
def Loads {α : Type} (rows : List (SqlKey × Row SqlValue)) (found : Uuid → Option α)
    (R : Row SqlValue → α → Prop) : Prop :=
  (∀ r ∈ rows, ∃ id x, r.1 = .uuid id ∧ found id = some x ∧ R r.2 x) ∧
    ∀ id x, found id = some x → ∃ row, (.uuid id, row) ∈ rows ∧ R row x

theorem Upgraded.uuid_key (h : Upgraded version db db') {name : String}
    {r : SqlKey × Row SqlValue} (hr : r ∈ db'.rows name)
    (hid : ((metadata.lookup name).any fun table => table.idType == .uuid) = true) :
    ∃ id, r.1 = .uuid id := by
  obtain ⟨table, hdeclared, huuid⟩ := (Option.any_eq_true _ _).mp hid
  obtain ⟨table', hlookup, hsame⟩ := Schema.same_lookup h.declared hdeclared
  have hkey : postgres.keyOf table'.idType r.1 = true := (h.ok.tables name table' hlookup).ids r hr
  rw [(Table.of_same hsame).1, beq_iff_eq.mp huuid] at hkey
  obtain ⟨key, row⟩ := r
  cases key with
  | uuid id => exact ⟨id, rfl⟩
  | int n => cases hkey

theorem projects_load (h : AtVersion version db)
    (happly : applyAll postgres (changesToHead version) db = some db') :
    Loads (db.rows "projects") (readDb db').projects Carried := by
  have hup := upgraded_of_applyAll h happly
  have hrows : db'.rows "projects" = (db.rows "projects").map fun r =>
      (r.1, onRowAll postgres (changesToHead version) "projects" r.2) := by
    cases hlookup : db.schema.lookup "projects" with
    | none => rw [h.ok.absent _ hlookup, applyAll_rows_nil happly (h.ok.absent _ hlookup)]; rfl
    | some table =>
        have hkeeps := (leadsToHead_iff.mp h.checked.1).2.2.1
        exact applyAll_rows happly (not_dropped_of_keeps hkeeps hlookup)
  refine ⟨fun r hr => ?_, fun id p hp => ?_⟩
  · have hr' : (r.1, onRowAll postgres (changesToHead version) "projects" r.2) ∈
        db'.rows "projects" := by
      rw [hrows]
      exact List.mem_map_of_mem hr
    obtain ⟨id, hid⟩ := hup.uuid_key hr' (by decide)
    obtain ⟨p, hp⟩ := hup.exists_readProject hr'
    refine ⟨id, p, hid, ?_, carried_of_readProject h hr hp⟩
    show ((db'.rows "projects").lookup (.uuid id)).bind readProject = some p
    rw [← show r.1 = .uuid id from hid, lookup_of_mem (hup.ok.keyed _) hr', Option.bind_some, hp]
  · obtain ⟨row', hlookup, hread⟩ := Option.bind_eq_some_iff.mp hp
    have hmem := mem_of_lookup hlookup
    rw [hrows] at hmem
    obtain ⟨r, hr, heq⟩ := List.mem_map.mp hmem
    rw [Prod.mk.injEq] at heq
    obtain ⟨hkey, rfl⟩ := heq
    refine ⟨r.2, ?_, carried_of_readProject h hr hread⟩
    rw [← hkey]
    exact hr

theorem runs_load (h : AtVersion version db)
    (happly : applyAll postgres (changesToHead version) db = some db') :
    Loads (db.rows "simulation_runs") (readDb db').runs fun row run => readRun row = some run := by
  have hup := upgraded_of_applyAll h happly
  rw [← hup.runs]
  refine ⟨fun r hr => ?_, fun id run hrun => ?_⟩
  · obtain ⟨id, hid⟩ := hup.uuid_key hr (by decide)
    obtain ⟨run, hrun⟩ := hup.exists_readRun hr
    refine ⟨id, run, hid, ?_, hrun⟩
    show ((db'.rows "simulation_runs").lookup (.uuid id)).bind readRun = some run
    rw [← hid, lookup_of_mem (hup.ok.keyed _) hr, Option.bind_some, hrun]
  · obtain ⟨row, hlookup, hread⟩ := Option.bind_eq_some_iff.mp hrun
    exact ⟨row, mem_of_lookup hlookup, hread⟩

/-- **Every project and every run loads, as what it was.** -/
theorem migrated_rows_load (h : AtVersion version db) :
    ∃ db', applyAll postgres (changesToHead version) db = some db' ∧
      Loads (db.rows "projects") (readDb db').projects Carried ∧
        Loads (db.rows "simulation_runs") (readDb db').runs
          fun row run => readRun row = some run := by
  obtain ⟨db', happly⟩ := exists_upgraded h
  exact ⟨db', happly, projects_load h happly, runs_load h happly⟩

theorem one_project_loads : ∃ db',
    applyAll postgres (changesToHead (some "c41d7a9e2b63")) oneProject = some db' ∧
      Loads (oneProject.rows "projects") (readDb db').projects Carried ∧
        Loads (oneProject.rows "simulation_runs") (readDb db').runs
          fun row run => readRun row = some run :=
  migrated_rows_load oneProject_at

/-- The revision is among those that an upgrade from this version makes. -/
def ToCome (revision : SqlRevision) (version : Option String) : Prop :=
  revision.id ∈ (revisionsAfter Alembic.versions Alembic.versions.length version).map Revision.id

instance (revision : SqlRevision) (version : Option String) :
    Decidable (ToCome revision version) :=
  inferInstanceAs (Decidable (_ ∈ _))

theorem columns_to_come : ∀ version ∈ knownVersions, ToCome Alembic.addInputsVersion version →
    ((schemaAt version).all fun schema => (schema.lookup "projects").all fun table =>
      !table.names.contains "inputs_version" && !table.names.contains "base_project_id") =
        true := by
  decide +kernel

/-- Before the revision projects have no such columns. -/
theorem AtVersion.columns_null (h : AtVersion version db)
    (hcome : ToCome Alembic.addInputsVersion version) {k : SqlKey} {row : Row SqlValue}
    (hr : (k, row) ∈ db.rows "projects") :
    row "inputs_version" = .null ∧ row "base_project_id" = .null := by
  cases hlookup : db.schema.lookup "projects" with
  | none =>
      rw [h.ok.absent _ hlookup] at hr
      cases hr
  | some table =>
      have hcolumns := columns_to_come version h.known hcome
      rw [h.schema, Option.all_some, hlookup, Option.all_some] at hcolumns
      simp only [Bool.and_eq_true, Bool.not_eq_true', List.contains_eq_mem,
        decide_eq_false_iff_not] at hcolumns
      have hblank := (h.ok.tables _ table hlookup).blank _ hr
      exact ⟨hblank _ hcolumns.1, hblank _ hcolumns.2⟩

/-- Without runs there are no events. -/
theorem Upgraded.no_events (h : Upgraded version db db')
    (hruns : db'.rows "simulation_runs" = []) : db'.rows "run_events" = [] := by
  obtain ⟨table, hlookup, hsame⟩ :=
    Schema.same_lookup h.declared (show metadata.lookup "run_events" = some _ from rfl)
  obtain ⟨ref, href, hcolumn, htable⟩ := (Table.of_same hsame).2.2 _ List.mem_cons_self
  refine List.eq_nil_iff_forall_not_mem.mpr fun r hr => ?_
  have hholds := (h.ok.tables _ table hlookup).refer ref href r hr
  have hrun : SqlType.uuid.has (r.2 "run_id") = true :=
    h.typed hr (required "run_id" .uuid) rfl (by decide)
  have hkeys : db'.keys "simulation_runs" = [] := by
    rw [Database.keys, hruns]
    rfl
  simp only [ForeignKey.holds, hcolumn, htable, hkeys] at hholds
  cases hvalue : r.2 "run_id" with
  | uuid u => simp [hvalue, postgres, SqlValue.key] at hholds
  | _ => simp [hvalue, SqlType.has] at hrun

/-- **The service starts on a database that was upgraded from before `inputs_version`.** -/
theorem migrated_service_starts {μ : Type} (h : AtVersion version db)
    (hcome : ToCome Alembic.addInputsVersion version)
    (hruns : db.rows "simulation_runs" = [])
    (hversions : ∀ r ∈ db.rows "projects", ∀ n, (r.2 "version").asInt = some n → 1 ≤ n) :
    ∃ db', applyAll postgres (changesToHead version) db = some db' ∧
      (serving db' : State μ).Initial := by
  obtain ⟨db', happly⟩ := exists_upgraded h
  have hup := upgraded_of_applyAll h happly
  have hprojects := (projects_load h happly).2
  have hnone : db'.rows "simulation_runs" = [] := hup.runs.trans hruns
  refine ⟨db', happly, ?_⟩
  refine ⟨fun _ => rfl, fun _ => rfl, fun run => ?_, fun run => ?_, rfl, fun _ => rfl,
    fun id p hp => ?_, fun id p hp => ?_, fun id p base hp hbase => ?_⟩
  · show ((db'.rows "simulation_runs").lookup (.uuid run)).bind readRun = none
    rw [hnone]
    rfl
  · show (db'.rows "run_events").filterMap _ = []
    rw [hup.no_events hnone]
    rfl
  · obtain ⟨row, hlookup, -⟩ := Option.bind_eq_some_iff.mp hp
    exact List.mem_filterMap.mpr ⟨_, mem_of_lookup hlookup, rfl⟩
  · obtain ⟨row, hr, hcarried⟩ := hprojects id p hp
    have hinputs := hcarried.inputsVersion
    rw [(h.columns_null hcome hr).1] at hinputs
    refine ⟨hinputs, ?_⟩
    rw [hcarried.version]
    cases hread : (row "version").asInt with
    | none => exact Int.le_refl 1
    | some n => exact hversions _ hr n hread
  · obtain ⟨row, hr, hcarried⟩ := hprojects id p hp
    rw [hcarried.baseProjectId, (h.columns_null hcome hr).2] at hbase
    cases hbase

theorem one_project_is_served : ∃ db',
    applyAll postgres (changesToHead (some "c41d7a9e2b63")) oneProject = some db' ∧
      (serving db' : State Int).Initial :=
  migrated_service_starts oneProject_at (by decide) rfl (by
    intro r hr n hn
    simp only [oneProject, if_true, List.mem_singleton] at hr
    subst hr
    simp [oldProject, SqlValue.asInt] at hn)

end

end SpurApi
