/-
Migrations: lists of changes, and chains of revisions.

What a list of changes makes of a row is one function of the row (`onRowAll`), so changes
that touch none of the columns of an earlier schema keep all that was stored under it, and
if they lead back to that schema they restore the database.  `safe` is a check of the list
alone: a list that passes it and goes through on the schema goes through on every database
that is as the schema says.
-/
import SpurApi.Lib.Relational

namespace Relational

section

variable {T V K : Type} [DecidableEq T] [DecidableEq K] {D : Domain T V K} {table : Table T}
  {op : Op T V}

/-- Make the changes of a list, one after another. -/
def applyAll (D : Domain T V K) :
    List (Op T V) → Database T V K → Option (Database T V K)
  | [], db => some db
  | op :: rest, db =>
      match op.apply D db with
      | none => none
      | some db' => applyAll D rest db'

/-- **A list of changes keeps the database as its schema says.** -/
theorem applyAll_ok {ops : List (Op T V)} :
    ∀ {db db' : Database T V K}, db.Ok D → applyAll D ops db = some db' → db'.Ok D := by
  induction ops with
  | nil =>
      intro db db' h happly
      obtain rfl := Option.some.inj happly
      exact h
  | cons op rest ih =>
      intro db db' h happly
      rw [applyAll] at happly
      split at happly
      · simp at happly
      · exact ih (Op.apply_ok h ‹_›) happly

/-- What a list of changes makes of a row of the table. -/
def onRowAll (D : Domain T V K) (ops : List (Op T V)) (table : String) (row : Row V) : Row V :=
  ops.foldl (fun row op => op.onRow D table row) row

/-- The schema that a list of changes leads to, if none is refused. -/
def onSchemaAll (D : Domain T V K) : List (Op T V) → Schema T → Option (Schema T)
  | [], schema => some schema
  | op :: rest, schema =>
      match op.onSchema D schema with
      | none => none
      | some schema' => onSchemaAll D rest schema'

theorem Op.apply_eq_some {db db' : Database T V K} (h : op.apply D db = some db') :
    op.onSchema D db.schema = some db'.schema ∧ op.check D db.rows = true ∧
      db'.rows = op.onRows D db.rows := by
  rw [Op.apply] at h
  split at h
  · simp at h
  · rename_i schema hschema
    rw [Option.ite_none_right_eq_some, Option.some.injEq] at h
    obtain ⟨hcheck, rfl⟩ := h
    exact ⟨hschema, hcheck, rfl⟩

omit [DecidableEq K] [DecidableEq T] in
theorem Op.onRows_eq {name : String} (h : op ≠ .dropTable name)
    (contents : String → List (K × Row V)) :
    op.onRows D contents name = (contents name).map fun r => (r.1, op.onRow D name r.2) := by
  cases op with
  | dropTable other => exact if_neg (by rintro rfl; exact h rfl)
  | _ => rfl

theorem applyAll_schema {ops : List (Op T V)} :
    ∀ {db db' : Database T V K}, applyAll D ops db = some db' →
      onSchemaAll D ops db.schema = some db'.schema := by
  induction ops with
  | nil =>
      intro db db' h
      obtain rfl := Option.some.inj h
      rfl
  | cons op rest ih =>
      intro db db' h
      rw [applyAll] at h
      split at h
      · simp at h
      · rename_i happly
        rw [onSchemaAll, (Op.apply_eq_some happly).1]
        exact ih h

theorem applyAll_append (ops ops' : List (Op T V)) (db : Database T V K) :
    applyAll D (ops ++ ops') db = (applyAll D ops db).bind (applyAll D ops') := by
  induction ops generalizing db with
  | nil => rfl
  | cons op rest ih =>
      rw [List.cons_append, applyAll, applyAll]
      split
      · rfl
      · exact ih _

/-- **The rows of a table that is not dropped are changed one by one.** -/
theorem applyAll_rows {ops : List (Op T V)} {name : String} :
    ∀ {db db' : Database T V K}, applyAll D ops db = some db' → .dropTable name ∉ ops →
      db'.rows name = (db.rows name).map fun r => (r.1, onRowAll D ops name r.2) := by
  induction ops with
  | nil =>
      intro db db' h _
      obtain rfl := Option.some.inj h
      exact (map_id_rows _).symm
  | cons op rest ih =>
      intro db db' h hdrop
      rw [List.mem_cons, not_or] at hdrop
      rw [applyAll] at h
      split at h
      · simp at h
      · rename_i happly
        rw [ih h hdrop.2, (Op.apply_eq_some happly).2.2, Op.onRows_eq (Ne.symm hdrop.1),
          List.map_map]
        rfl

/-! ### Where the values of a column come from -/

/-- A value that was filled in, or what a column held before. -/
inductive Origin (V : Type)
  | filled (v : V)
  | column (name : String)

def Origin.read (row : Row V) : Origin V → V
  | .filled v => v
  | .column name => row name

/-- The value was filled in, and it is as `p` says. -/
def Origin.fills (p : V → Bool) : Origin V → Bool
  | .filled v => p v
  | .column _ => false

/-- The value was in this column. -/
def Origin.reads (name : String) : Origin V → Bool
  | .filled _ => false
  | .column name' => name' == name

theorem Origin.read_of_fills {p : V → Bool} {o : Origin V} (h : o.fills p = true) (row : Row V) :
    p (o.read row) = true := by
  cases o with
  | filled v => exact h
  | column _ => cases h

theorem Origin.read_of_reads {name : String} {o : Origin V} (h : o.reads name = true)
    (row : Row V) : o.read row = row name := by
  cases o with
  | filled _ => cases h
  | column name' => rw [Origin.read, beq_iff_eq.mp h]

/-- Where a value in a row of the table comes from, seen before the change. -/
def Op.origin (D : Domain T V K) (op : Op T V) (table : String) : Origin V → Origin V
  | .filled v => .filled v
  | .column name =>
      match op with
      | .addColumn t col fill =>
          if t = table ∧ name = col.name then .filled fill else .column name
      | .dropColumn t dropped =>
          if t = table ∧ name = dropped then .filled D.null else .column name
      | .copyColumn t target source =>
          if t = table ∧ name = target then .column source else .column name
      | _ => .column name

/-- Where the values of a column come from, seen before all changes. -/
def originAll (D : Domain T V K) (ops : List (Op T V)) (table column : String) : Origin V :=
  ops.foldr (fun op o => op.origin D table o) (.column column)

omit [DecidableEq K] [DecidableEq T] in
theorem Op.read_origin (name : String) (row : Row V) (o : Origin V) :
    (op.origin D name o).read row = o.read (op.onRow D name row) := by
  cases o with
  | filled v => rfl
  | column column =>
      have hupdate : ∀ (t other : String) (v : V),
          (if t = name then Function.update row other v else row) column =
            if t = name ∧ column = other then v else row column := by
        intro t other v
        by_cases ht : t = name
        · rw [if_pos ht, Function.update_apply]
          simp only [ht, true_and]
        · rw [if_neg ht, if_neg fun h => ht h.1]
      cases op with
      | addColumn t col fill =>
          rw [Op.origin, Op.onRow, Origin.read, hupdate]
          split <;> rfl
      | dropColumn t dropped =>
          rw [Op.origin, Op.onRow, Origin.read, hupdate]
          split <;> rfl
      | copyColumn t target source =>
          rw [Op.origin, Op.onRow, Origin.read, hupdate]
          split <;> rfl
      | _ => rfl

omit [DecidableEq K] [DecidableEq T] in
/-- **A row holds after the changes what its columns' origins held before them.** -/
theorem onRowAll_eq_read (ops : List (Op T V)) (name column : String) :
    ∀ row : Row V, onRowAll D ops name row column = (originAll D ops name column).read row := by
  induction ops with
  | nil => exact fun _ => rfl
  | cons op rest ih =>
      intro row
      rw [onRowAll, List.foldl_cons]
      exact (ih (op.onRow D name row)).trans (Op.read_origin name row _).symm

/-! ### Changes that keep what was there -/

/-- The change touches no column of the schema. -/
def Op.keeps (schema : Schema T) (op : Op T V) : Bool :=
  let free (name column : String) : Bool :=
    (schema.lookup name).all fun table => !table.names.contains column
  match op with
  | .addColumn name col _ => free name col.name
  | .dropColumn name column => free name column
  | .copyColumn name target _ => free name target
  | .dropTable name => (schema.lookup name).isNone
  | _ => true

omit [DecidableEq K] [DecidableEq T] in
theorem Op.onRow_keeps {schema : Schema T} {name column : String} (h : op.keeps schema = true)
    (hlookup : schema.lookup name = some table) (hcolumn : column ∈ table.names) (row : Row V) :
    op.onRow D name row column = row column := by
  have hfree : ∀ other, ((schema.lookup name).all fun table => !table.names.contains other) =
      true → column ≠ other := by
    rintro other hother rfl
    rw [hlookup, Option.all_some] at hother
    simp [hcolumn] at hother
  cases op with
  | addColumn name' col fill =>
      by_cases heq : name' = name
      · subst heq
        rw [Op.onRow, if_pos rfl, Function.update_of_ne (hfree _ h)]
      · rw [Op.onRow, if_neg heq]
  | dropColumn name' dropped =>
      by_cases heq : name' = name
      · subst heq
        rw [Op.onRow, if_pos rfl, Function.update_of_ne (hfree _ h)]
      · rw [Op.onRow, if_neg heq]
  | copyColumn name' target source =>
      by_cases heq : name' = name
      · subst heq
        rw [Op.onRow, if_pos rfl, Function.update_of_ne (hfree _ h)]
      · rw [Op.onRow, if_neg heq]
  | _ => rfl

omit [DecidableEq K] [DecidableEq T] in
/-- **The columns of the schema keep their values.** -/
theorem onRowAll_keeps {ops : List (Op T V)} {schema : Schema T} {name column : String}
    (h : ∀ op ∈ ops, op.keeps schema = true) (hlookup : schema.lookup name = some table)
    (hcolumn : column ∈ table.names) : ∀ row : Row V,
      onRowAll D ops name row column = row column := by
  induction ops with
  | nil => exact fun _ => rfl
  | cons op rest ih =>
      intro row
      rw [onRowAll, List.foldl_cons]
      exact (ih (fun op' hop' => h op' (List.mem_cons_of_mem _ hop')) _).trans
        (Op.onRow_keeps (h op List.mem_cons_self) hlookup hcolumn row)

omit [DecidableEq K] [DecidableEq T] in
theorem not_dropped_of_keeps {ops : List (Op T V)} {schema : Schema T} {name : String}
    (h : ∀ op ∈ ops, op.keeps schema = true) (hlookup : schema.lookup name = some table) :
    .dropTable name ∉ ops := by
  intro hmem
  have hkeeps := h _ hmem
  rw [Op.keeps, hlookup] at hkeeps
  simp at hkeeps

/-- **Changes that lead back to their schema, and keep it on the way, restore the database.** -/
theorem applyAll_restores {ops : List (Op T V)} {db db' : Database T V K} (hok : db.Ok D)
    (h : applyAll D ops db = some db') (hkeeps : ∀ op ∈ ops, op.keeps db.schema = true)
    (hschema : db'.schema = db.schema) : db' = db := by
  have hok' := applyAll_ok hok h
  obtain ⟨schema, contents⟩ := db
  obtain ⟨schema', contents'⟩ := db'
  obtain rfl : schema' = schema := hschema
  congr 1
  funext name
  cases hlookup : schema'.lookup name with
  | none => exact (hok'.absent name hlookup).trans (hok.absent name hlookup).symm
  | some table =>
      have hrows : contents' name = (contents name).map fun r => (r.1, onRowAll D ops name r.2) :=
        applyAll_rows h (not_dropped_of_keeps hkeeps hlookup)
      refine hrows.trans ((List.map_congr_left fun r hr => ?_).trans (map_id_rows _))
      congr 1
      funext column
      by_cases hcolumn : column ∈ table.names
      · exact onRowAll_keeps hkeeps hlookup hcolumn r.2
      · have hmem : (r.1, onRowAll D ops name r.2) ∈ contents' name := by
          rw [hrows]
          exact List.mem_map_of_mem hr
        exact ((hok'.tables name table hlookup).blank _ hmem column hcolumn).trans
          ((hok.tables name table hlookup).blank r hr column hcolumn).symm

/-- What the change puts into the columns of this table is null. -/
def Op.blanks (D : Domain T V K) (name : String) (op : Op T V) : Bool :=
  match op with
  | .addColumn other _ fill => other != name || D.isNull fill
  | .copyColumn other _ _ => other != name
  | _ => true

omit [DecidableEq K] [DecidableEq T] in
theorem onRowAll_blanks {ops : List (Op T V)} {name : String}
    (h : ∀ op ∈ ops, op.blanks D name = true) : ∀ (row : Row V) (column : String),
      onRowAll D ops name row column = row column ∨ onRowAll D ops name row column = D.null := by
  induction ops with
  | nil => exact fun _ _ => .inl rfl
  | cons op rest ih =>
      intro row column
      have hop : op.onRow D name row column = row column ∨
          op.onRow D name row column = D.null := by
        have hblanks := h op List.mem_cons_self
        cases op with
        | addColumn other col fill =>
            simp only [Op.blanks, Bool.or_eq_true, bne_iff_ne, D.isNull_iff] at hblanks
            rw [Op.onRow]
            split
            · rename_i heq
              by_cases hcolumn : column = col.name
              · rw [hcolumn, Function.update_self]
                exact .inr (hblanks.resolve_left (absurd heq))
              · rw [Function.update_of_ne hcolumn]
                exact .inl rfl
            · exact .inl rfl
        | dropColumn other dropped =>
            rw [Op.onRow]
            split
            · by_cases hcolumn : column = dropped
              · rw [hcolumn, Function.update_self]
                exact .inr rfl
              · rw [Function.update_of_ne hcolumn]
                exact .inl rfl
            · exact .inl rfl
        | copyColumn other target source =>
            rw [Op.blanks, bne_iff_ne] at hblanks
            rw [Op.onRow, if_neg hblanks]
            exact .inl rfl
        | _ => exact .inl rfl
      rw [onRowAll, List.foldl_cons]
      rcases ih (fun op' hop' => h op' (List.mem_cons_of_mem _ hop')) (op.onRow D name row) column
        with hrest | hrest
      · rcases hop with hsame | hnull
        · exact .inl (hrest.trans hsame)
        · exact .inr (hrest.trans hnull)
      · exact .inr hrest

omit [DecidableEq K] [DecidableEq T] in
theorem Op.onRows_nil {contents : String → List (K × Row V)} {name : String}
    (h : contents name = []) : op.onRows D contents name = [] := by
  cases op <;> simp [Op.onRows, h]

/-- A table without rows gets none. -/
theorem applyAll_rows_nil {ops : List (Op T V)} {name : String} :
    ∀ {db db' : Database T V K}, applyAll D ops db = some db' → db.rows name = [] →
      db'.rows name = [] := by
  induction ops with
  | nil =>
      intro db db' h hrows
      obtain rfl := Option.some.inj h
      exact hrows
  | cons op rest ih =>
      intro db db' h hrows
      rw [applyAll] at h
      split at h
      · simp at h
      · rename_i happly
        refine ih h ?_
        rw [(Op.apply_eq_some happly).2.2]
        exact Op.onRows_nil hrows

/-- **Rows to which only nulls are added stay as they are.** -/
theorem applyAll_rows_eq {ops : List (Op T V)} {db db' : Database T V K} {name : String}
    (hok : db.Ok D) (h : applyAll D ops db = some db')
    (hkeeps : ∀ op ∈ ops, op.keeps db.schema = true)
    (hblanks : ∀ op ∈ ops, op.blanks D name = true) : db'.rows name = db.rows name := by
  cases hlookup : db.schema.lookup name with
  | none =>
      have hrows := hok.absent name hlookup
      rw [hrows]
      exact applyAll_rows_nil h hrows
  | some table =>
      rw [applyAll_rows h (not_dropped_of_keeps hkeeps hlookup)]
      refine (List.map_congr_left fun r hr => ?_).trans (map_id_rows _)
      congr 1
      funext column
      by_cases hcolumn : column ∈ table.names
      · exact onRowAll_keeps hkeeps hlookup hcolumn r.2
      · have hold := (hok.tables name table hlookup).blank r hr column hcolumn
        rcases onRowAll_blanks hblanks r.2 column with hsame | hnull
        · exact hsame
        · exact hnull.trans hold.symm

/-! ### Lists of changes that go through -/

/-- The columns, by their tables, that are null in all rows after a change. -/
def Op.nulls (D : Domain T V K) (op : Op T V) (nulls : List (String × String)) :
    List (String × String) :=
  match op with
  | .addColumn name col fill =>
      if D.isNull fill then (name, col.name) :: nulls
      else nulls.filter fun c => c != (name, col.name)
  | .copyColumn name target _ => nulls.filter fun c => c != (name, target)
  | _ => nulls

/-- The tables that have no rows after a change. -/
def Op.created (op : Op T V) (created : List String) : List String :=
  match op with
  | .createTable name _ => name :: created
  | _ => created

/-- What the change checks of the rows holds where these columns are null and these tables have
no rows. -/
def Op.safe (op : Op T V) (nulls : List (String × String)) (created : List String) : Bool :=
  match op with
  | .createIndex name index => !index.unique || created.contains name
  | .createForeignKey name ref => nulls.contains (name, ref.column)
  | _ => true

/-- No change of the list can be refused for what the rows hold. -/
def safe (D : Domain T V K) : List (Op T V) → List (String × String) → List String → Bool
  | [], _, _ => true
  | op :: rest, nulls, created =>
      op.safe nulls created && safe D rest (op.nulls D nulls) (op.created created)

/-- The columns are null in all rows. -/
def AllNull (D : Domain T V K) (contents : String → List (K × Row V))
    (nulls : List (String × String)) : Prop :=
  ∀ name column, (name, column) ∈ nulls → ∀ r ∈ contents name, r.2 column = D.null

omit [DecidableEq T] in
theorem Op.check_of_safe {contents : String → List (K × Row V)} {nulls : List (String × String)}
    {created : List String} (hnull : AllNull D contents nulls)
    (hempty : ∀ name ∈ created, contents name = []) (h : op.safe nulls created = true) :
    op.check D contents = true := by
  cases op with
  | createIndex name index =>
      rw [Op.safe, Bool.or_eq_true, Bool.not_eq_true', List.contains_iff_mem] at h
      rcases h with hunique | hcreated
      · simp [Op.check, hunique]
      · simp [Op.check, hempty name hcreated]
  | createForeignKey name ref =>
      rw [Op.safe, List.contains_iff_mem] at h
      refine List.all_eq_true.mpr fun r hr => ?_
      rw [ForeignKey.holds, hnull name ref.column h r hr, D.key_null]
      exact (D.isNull_iff _).mpr rfl
  | _ => rfl

/-- The tables that a change adds have no rows yet. -/
theorem Op.created_empty {db db' : Database T V K} {created : List String} (hok : db.Ok D)
    (happly : op.apply D db = some db') (hempty : ∀ name ∈ created, db.rows name = []) :
    ∀ name ∈ op.created created, db'.rows name = [] := by
  obtain ⟨hschema, -, hrows⟩ := Op.apply_eq_some happly
  intro name hmem
  rw [hrows]
  refine Op.onRows_nil ?_
  cases op with
  | createTable name' table =>
      rcases List.mem_cons.mp hmem with rfl | hold
      · rw [Op.onSchema, Option.ite_none_right_eq_some, Bool.and_eq_true,
          Option.isNone_iff_eq_none] at hschema
        exact hok.absent name hschema.1.1
      · exact hempty name hold
  | _ => exact hempty name hmem

omit [DecidableEq K] [DecidableEq T] in
theorem Op.onRows_allNull {contents : String → List (K × Row V)} {nulls : List (String × String)}
    (hnull : AllNull D contents nulls) : AllNull D (op.onRows D contents) (op.nulls D nulls) := by
  intro name column hmem r hr
  by_cases hdrop : op = .dropTable name
  · subst hdrop
    simp [Op.onRows] at hr
  · rw [Op.onRows_eq hdrop] at hr
    obtain ⟨r₀, hr₀, rfl⟩ := List.mem_map.mp hr
    -- the value in the column is an old null, or the null that was filled in
    have hold : (name, column) ∈ nulls → r₀.2 column = D.null := fun h => hnull name column h r₀ hr₀
    cases op with
    | addColumn name' col fill =>
        simp only [Op.onRow]
        rw [Op.nulls] at hmem
        by_cases hname : name' = name
        · rw [if_pos hname]
          by_cases hcol : column = col.name
          · rw [hcol, Function.update_self]
            by_cases hfill : D.isNull fill = true
            · exact (D.isNull_iff fill).mp hfill
            · rw [if_neg hfill] at hmem
              simp [hname, hcol] at hmem
          · rw [Function.update_of_ne hcol]
            refine hold ?_
            split at hmem
            · simpa [hcol] using hmem
            · exact List.mem_of_mem_filter hmem
        · rw [if_neg hname]
          refine hold ?_
          split at hmem
          · simpa [Ne.symm hname] using hmem
          · exact List.mem_of_mem_filter hmem
    | copyColumn name' target source =>
        simp only [Op.onRow]
        rw [Op.nulls, List.mem_filter] at hmem
        by_cases hname : name' = name
        · have hcol : column ≠ target := by
            rintro rfl
            simp [hname] at hmem
          rw [if_pos hname, Function.update_of_ne hcol]
          exact hold hmem.1
        · rw [if_neg hname]
          exact hold hmem.1
    | dropColumn name' dropped =>
        simp only [Op.onRow]
        split
        · by_cases hcol : column = dropped
          · rw [hcol, Function.update_self]
          · rw [Function.update_of_ne hcol]
            exact hold hmem
        · exact hold hmem
    | _ => exact hold hmem

/-- **What passes the check goes through on every database of the schema.** -/
theorem applyAll_of_safe {ops : List (Op T V)} :
    ∀ {db : Database T V K} {schema : Schema T} {nulls : List (String × String)}
      {created : List String}, db.Ok D → onSchemaAll D ops db.schema = some schema →
        AllNull D db.rows nulls → (∀ name ∈ created, db.rows name = []) →
          safe D ops nulls created = true →
            ∃ db', applyAll D ops db = some db' ∧ db'.schema = schema := by
  induction ops with
  | nil =>
      intro db schema nulls created _ hschema _ _ _
      exact ⟨db, rfl, Option.some.inj hschema⟩
  | cons op rest ih =>
      intro db schema nulls created hok hschema hnull hempty hsafe
      rw [safe, Bool.and_eq_true] at hsafe
      rw [onSchemaAll] at hschema
      split at hschema
      · simp at hschema
      · rename_i schema' hop
        have happly : op.apply D db = some ⟨schema', op.onRows D db.rows⟩ := by
          rw [Op.apply, hop]
          exact if_pos (Op.check_of_safe hnull hempty hsafe.1)
        rw [applyAll, happly]
        exact ih (Op.apply_ok hok happly) hschema (Op.onRows_allNull hnull)
          (Op.created_empty hok happly hempty) hsafe.2

end

/-! ### Revisions -/

/-- A revision: the one it comes after, and its changes in either direction. -/
structure Revision (T V : Type) where
  id : String
  downRevision : Option String
  upgrade : List (Op T V)
  downgrade : List (Op T V)

section

variable {T V : Type}

/-- The revisions after a version, each following the one before it; the fuel bounds their
number. -/
def revisionsAfter (revs : List (Revision T V)) :
    (fuel : Nat) → (version : Option String) → List (Revision T V)
  | 0, _ => []
  | fuel + 1, version =>
      match revs.find? fun r => r.downRevision == version with
      | none => []
      | some r => r :: revisionsAfter revs fuel (some r.id)

/-- The revisions that lead from the empty database to this version. -/
def revisionsUpTo (revs : List (Revision T V)) (version : Option String) : List (Revision T V) :=
  (revisionsAfter revs revs.length none).filter fun r =>
    !(revisionsAfter revs revs.length version).any fun r' => r'.id == r.id

/-- What `upgrade head` does to a database of this version. -/
def upgradeHead (revs : List (Revision T V)) (version : Option String) : List (Op T V) :=
  (revisionsAfter revs revs.length version).flatMap Revision.upgrade

/-- What a downgrade from there back to this version does. -/
def downgradeTo (revs : List (Revision T V)) (version : Option String) : List (Op T V) :=
  (revisionsAfter revs revs.length version).reverse.flatMap Revision.downgrade

end

end Relational
