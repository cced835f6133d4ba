/-
Tables and named types, and the changes that migrations make to them.

A row gives every column name a value, null for the names its table does not have.  A
change acts on the schema, and on each row by itself: that is why what a change
does to the rows is one function of a row (`onRow`).  A change that the schema or the rows
do not allow is refused, and `apply_ok` says that the others keep the database as its
schema says: typed, with references that find their rows and unique indexes that are.
-/
import Mathlib.Data.List.Nodup
import Mathlib.Logic.Function.Basic

namespace Relational

/-- What is used of the values: which one is null, which are of a type, and which name a row. -/
structure Domain (T V K : Type) where
  null : V
  isNull : V → Bool
  ofType : T → V → Bool
  key : V → Option K
  /-- the keys of a type -/
  keyOf : T → K → Bool
  isNull_iff : ∀ v, isNull v = true ↔ v = null
  key_null : key null = none

/-- What becomes of a row whose reference is deleted. -/
inductive OnDelete
  | cascade
  | setNull
deriving DecidableEq

/-- A column; `serverDefault` is the text of the default that the server fills in. -/
structure Col (T : Type) where
  name : String
  type : T
  nullable : Bool
  serverDefault : Option String := none
deriving DecidableEq

structure ForeignKey where
  name : String
  column : String
  table : String
  onDelete : OnDelete
deriving DecidableEq

structure Index where
  name : String
  columns : List String
  unique : Bool := false
deriving DecidableEq

/-- A table: the type of its primary key, and what it has besides. -/
structure Table (T : Type) where
  idType : T
  cols : List (Col T)
  refs : List ForeignKey := []
  indexes : List Index := []
deriving DecidableEq

/-- The tables, and the types that were created under a name. -/
structure Schema (T : Type) where
  tables : List (String × Table T)
  types : List String := []
deriving DecidableEq

abbrev Row (V : Type) := String → V

/-- A database: its schema, and under each table name the rows by their primary keys. -/
structure Database (T V K : Type) where
  schema : Schema T
  rows : String → List (K × Row V)

/-- A change, as a migration states it. -/
inductive Op (T V : Type)
  | createTable (name : String) (table : Table T)
  | dropTable (name : String)
  /-- `fill` is what the column holds in the rows that are there -/
  | addColumn (table : String) (col : Col T) (fill : V)
  | dropColumn (table column : String)
  | createIndex (table : String) (index : Index)
  | dropIndex (table name : String)
  | createForeignKey (table : String) (ref : ForeignKey)
  | dropConstraint (table name : String)
  /-- `UPDATE table SET target = source` -/
  | copyColumn (table target source : String)
  /-- `CREATE TYPE name` -/
  | createType (name : String)

section

variable {T V K : Type}

/-! ### Changing the schema -/

def Table.names (table : Table T) : List String := table.cols.map Col.name

/-- The columns that a reference or an index uses. -/
def Table.used (table : Table T) : List String :=
  table.refs.map ForeignKey.column ++ table.indexes.flatMap Index.columns

/-- No two columns share a name, and references and indexes use columns that are there. -/
def Table.wf (table : Table T) : Bool :=
  decide table.names.Nodup && table.used.all fun name => table.names.contains name

theorem Table.wf_iff {table : Table T} :
    table.wf = true ↔ table.names.Nodup ∧ ∀ name ∈ table.used, name ∈ table.names := by
  simp [Table.wf]

def Schema.lookup (schema : Schema T) (name : String) : Option (Table T) :=
  schema.tables.lookup name

/-- Whether some table refers to this one. -/
def Schema.refersTo (schema : Schema T) (name : String) : Bool :=
  schema.tables.any fun t => t.1 != name && t.2.refs.any fun ref => ref.table == name

/-- Whether some table has an index of this name. -/
def Schema.hasIndex (schema : Schema T) (name : String) : Bool :=
  schema.tables.any fun t => t.2.indexes.any fun index => index.name == name

/-- The same columns, references and indexes, in any order; references may differ in their
names. -/
def Table.same [DecidableEq T] (table table' : Table T) : Bool :=
  decide (table.idType = table'.idType) && table.cols.isPerm table'.cols &&
    (table.refs.map fun ref => (ref.column, ref.table, ref.onDelete)).isPerm
      (table'.refs.map fun ref => (ref.column, ref.table, ref.onDelete)) &&
    table.indexes.isPerm table'.indexes

def Schema.same [DecidableEq T] (schema schema' : Schema T) : Bool :=
  (schema.tables.map Prod.fst).isPerm (schema'.tables.map Prod.fst) &&
    (schema.tables.all fun t => (schema'.lookup t.1).any t.2.same) &&
    schema.types.isPerm schema'.types

/-- Change one table. -/
def Schema.modify (schema : Schema T) (name : String) (f : Table T → Option (Table T)) :
    Option (Schema T) :=
  match schema.lookup name with
  | none => none
  | some table =>
      (f table).map fun table' =>
        { schema with tables := schema.tables.map fun t =>
            if t.1 = name then (t.1, table') else t }

/-- What a change makes of one table; `none` where it is refused. -/
def Op.onTable [DecidableEq T] (D : Domain T V K) (op : Op T V) (table : Table T) :
    Option (Table T) :=
  match op with
  | .addColumn _ col fill =>
      if !table.names.contains col.name &&
          (if D.isNull fill then col.nullable else D.ofType col.type fill) then
        some { table with cols := table.cols ++ [col] }
      else none
  | .dropColumn _ column =>
      if table.names.contains column && !table.used.contains column then
        some { table with cols := table.cols.filter fun c => c.name != column }
      else none
  | .createIndex _ index =>
      if index.columns.all fun name => table.names.contains name then
        some { table with indexes := table.indexes ++ [index] }
      else none
  | .dropIndex _ name =>
      if table.indexes.any fun index => index.name == name then
        some { table with indexes := table.indexes.filter fun index => index.name != name }
      else none
  | .createForeignKey _ ref =>
      if table.names.contains ref.column && table.refs.all fun ref' => ref'.name != ref.name then
        some { table with refs := table.refs ++ [ref] }
      else none
  | .dropConstraint _ name =>
      if table.refs.any fun ref => ref.name == name then
        some { table with refs := table.refs.filter fun ref => ref.name != name }
      else none
  | .copyColumn _ target source =>
      match table.cols.find? (fun c => c.name == target),
        table.cols.find? (fun c => c.name == source) with
      | some t, some s =>
          if t.type = s.type ∧ (s.nullable = true → t.nullable = true) ∧
              table.used.contains target = false then
            some table
          else none
      | _, _ => none
  | .createTable _ _ => none
  | .dropTable _ => none
  | .createType _ => none

/-- The table that a change is about, or the type. -/
def Op.table : Op T V → String
  | .createTable name _ => name
  | .dropTable name => name
  | .addColumn table _ _ => table
  | .dropColumn table _ => table
  | .createIndex table _ => table
  | .dropIndex table _ => table
  | .createForeignKey table _ => table
  | .dropConstraint table _ => table
  | .copyColumn table _ _ => table
  | .createType name => name

/-- What a change makes of the schema. -/
def Op.onSchema [DecidableEq T] (D : Domain T V K) (op : Op T V) (schema : Schema T) :
    Option (Schema T) :=
  match op with
  | .createTable name table =>
      if (schema.lookup name).isNone && table.wf then
        some { schema with tables := schema.tables ++ [(name, table)] }
      else none
  | .dropTable name =>
      if (schema.lookup name).isSome && !schema.refersTo name then
        some { schema with tables := schema.tables.filter fun t => t.1 != name }
      else none
  | .createIndex table index =>
      if schema.hasIndex index.name then none else schema.modify table (op.onTable D)
  | .createForeignKey table ref =>
      if (schema.lookup ref.table).isSome then schema.modify table (op.onTable D) else none
  | .createType name =>
      if schema.types.contains name then none
      else some { schema with types := schema.types ++ [name] }
  | op => schema.modify op.table (op.onTable D)

/-! ### Changing the rows -/

/-- What a change makes of a row of the table. -/
def Op.onRow (D : Domain T V K) (op : Op T V) (table : String) (row : Row V) : Row V :=
  match op with
  | .addColumn t col fill => if t = table then Function.update row col.name fill else row
  | .dropColumn t column => if t = table then Function.update row column D.null else row
  | .copyColumn t target source =>
      if t = table then Function.update row target (row source) else row
  | _ => row

/-- The rows after a change. -/
def Op.onRows (D : Domain T V K) (op : Op T V) (rows : String → List (K × Row V))
    (table : String) : List (K × Row V) :=
  match op with
  | .dropTable name =>
      if name = table then [] else (rows table).map fun r => (r.1, op.onRow D table r.2)
  | op => (rows table).map fun r => (r.1, op.onRow D table r.2)

/-- The keys in the columns of an index; rows with a null among them never clash. -/
def Index.entry (D : Domain T V K) (index : Index) (row : Row V) : Option (List K) :=
  index.columns.mapM fun name => D.key (row name)

/-- The reference of a row is null or finds a row. -/
def ForeignKey.holds [DecidableEq K] (D : Domain T V K) (ref : ForeignKey) (keys : List K)
    (row : Row V) : Bool :=
  match D.key (row ref.column) with
  | some k => keys.contains k
  | none => D.isNull (row ref.column)

/-- What a change checks of the rows. -/
def Op.check [DecidableEq K] (D : Domain T V K) (op : Op T V)
    (rows : String → List (K × Row V)) : Bool :=
  match op with
  | .createIndex table index =>
      !index.unique || decide ((rows table).filterMap fun r => index.entry D r.2).Nodup
  | .createForeignKey table ref =>
      (rows table).all fun r => ref.holds D ((rows ref.table).map Prod.fst) r.2
  | _ => true

/-- Make a change, unless it is refused. -/
def Op.apply [DecidableEq T] [DecidableEq K] (D : Domain T V K) (op : Op T V)
    (db : Database T V K) : Option (Database T V K) :=
  match op.onSchema D db.schema with
  | none => none
  | some schema => if op.check D db.rows then some ⟨schema, op.onRows D db.rows⟩ else none

/-! ### Databases that are as their schema says -/

/-- The column can hold the value. -/
def Col.admits (D : Domain T V K) (col : Col T) (v : V) : Bool :=
  if D.isNull v then col.nullable else D.ofType col.type v

/-- The rows of a table are as it says; `keys` are the primary keys under each table name. -/
structure TableOk [DecidableEq K] (D : Domain T V K) (table : Table T) (keys : String → List K)
    (rows : List (K × Row V)) : Prop where
  wf : table.wf = true
  ids : ∀ r ∈ rows, D.keyOf table.idType r.1 = true
  typed : ∀ r ∈ rows, ∀ col ∈ table.cols, col.admits D (r.2 col.name) = true
  blank : ∀ r ∈ rows, ∀ name, name ∉ table.names → r.2 name = D.null
  refer : ∀ ref ∈ table.refs, ∀ r ∈ rows, ref.holds D (keys ref.table) r.2 = true
  unique : ∀ index ∈ table.indexes, index.unique = true →
    (rows.filterMap fun r => index.entry D r.2).Nodup

/-- The primary keys under each table name. -/
def Database.keys (db : Database T V K) (table : String) : List K := (db.rows table).map Prod.fst

structure Database.Ok [DecidableEq K] (D : Domain T V K) (db : Database T V K) : Prop where
  keyed : ∀ name, (db.keys name).Nodup
  tables : ∀ name table, db.schema.lookup name = some table →
    TableOk D table db.keys (db.rows name)
  absent : ∀ name, db.schema.lookup name = none → db.rows name = []

variable {D : Domain T V K} {table table' : Table T} {op : Op T V}
  {rows : List (K × Row V)} {keys : String → List K}

/-- A binding that is found is there. -/
theorem mem_of_lookup {α β : Type} [DecidableEq α] {l : List (α × β)} {k : α} {v : β}
    (h : l.lookup k = some v) : (k, v) ∈ l := by
  obtain ⟨l₁, l₂, rfl, -⟩ := List.lookup_eq_some_iff.mp h
  exact List.mem_append_right _ List.mem_cons_self

theorem map_id_rows (rows : List (K × Row V)) : (rows.map fun r => (r.1, r.2)) = rows :=
  List.map_id' rows

/-- An entry reads the columns of its index only. -/
theorem entry_congr {index : Index} {row row' : Row V}
    (h : ∀ name ∈ index.columns, row' name = row name) :
    index.entry D row' = index.entry D row := by
  rw [Index.entry, Index.entry]
  generalize index.columns = columns at h
  induction columns with
  | nil => rfl
  | cons name rest ih =>
      rw [List.mapM_cons, List.mapM_cons, h name List.mem_cons_self,
        ih fun name' hname' => h name' (List.mem_cons_of_mem _ hname')]

variable [DecidableEq K]

theorem TableOk.ids_map (h : TableOk D table keys rows) (f : Row V → Row V) :
    ∀ r ∈ rows.map (fun r => (r.1, f r.2)), D.keyOf table.idType r.1 = true := by
  intro r hr
  obtain ⟨r₀, hr₀, rfl⟩ := List.mem_map.mp hr
  exact h.ids r₀ hr₀

/-- Rows that are changed outside of the columns in use keep their references and stay apart. -/
theorem TableOk.refer_map (h : TableOk D table keys rows) {f : Row V → Row V}
    (hf : ∀ row, ∀ name ∈ table.used, f row name = row name) :
    ∀ ref ∈ table.refs, ∀ r ∈ rows.map (fun r => (r.1, f r.2)),
      ref.holds D (keys ref.table) r.2 = true := by
  intro ref href r hr
  obtain ⟨r₀, hr₀, rfl⟩ := List.mem_map.mp hr
  have hused : ref.column ∈ table.used :=
    List.mem_append_left _ (List.mem_map_of_mem href)
  have hold := h.refer ref href r₀ hr₀
  simpa only [ForeignKey.holds, hf _ _ hused] using hold

theorem TableOk.unique_map (h : TableOk D table keys rows) {f : Row V → Row V}
    (hf : ∀ row, ∀ name ∈ table.used, f row name = row name) :
    ∀ index ∈ table.indexes, index.unique = true →
      ((rows.map fun r => (r.1, f r.2)).filterMap fun r => index.entry D r.2).Nodup := by
  intro index hindex hunique
  have hsame : ∀ row, index.entry D (f row) = index.entry D row := fun row =>
    entry_congr fun name hname => hf row name
      (List.mem_append_right _ (List.mem_flatMap.mpr ⟨index, hindex, hname⟩))
  rw [List.filterMap_map]
  simpa only [Function.comp_def, hsame] using h.unique index hindex hunique

/-! ### Each change of a table -/

/-- A fresh column that is filled with a value it admits. -/
theorem TableOk.addColumn (h : TableOk D table keys rows) {col : Col T} {fill : V}
    (hfresh : col.name ∉ table.names) (hfill : col.admits D fill = true) :
    TableOk D { table with cols := table.cols ++ [col] } keys
      (rows.map fun r => (r.1, Function.update r.2 col.name fill)) := by
  obtain ⟨hnodup, hused⟩ := Table.wf_iff.mp h.wf
  have hother : ∀ row : Row V, ∀ name ∈ table.names,
      Function.update row col.name fill name = row name :=
    fun row name hname => Function.update_of_ne (by rintro rfl; exact hfresh hname) ..
  have hsame := fun row name hname => hother row name (hused name hname)
  refine ⟨?_, h.ids_map fun row => Function.update row col.name fill, ?_, ?_,
    h.refer_map hsame, h.unique_map hsame⟩
  · rw [Table.wf_iff]
    refine ⟨?_, fun name hname => ?_⟩
    · rw [Table.names, List.map_append, List.nodup_append]
      refine ⟨hnodup, by simp, fun name hname other hother heq => hfresh ?_⟩
      rw [List.map_singleton, List.mem_singleton] at hother
      rw [← hother, ← heq]
      exact hname
    · rw [Table.names, List.map_append]
      exact List.mem_append_left _ (hused name hname)
  · intro r hr c hc
    obtain ⟨r₀, hr₀, rfl⟩ := List.mem_map.mp hr
    rcases List.mem_append.mp hc with hold | hnew
    · show c.admits D (Function.update r₀.2 col.name fill c.name) = true
      rw [hother _ _ (List.mem_map_of_mem hold)]
      exact h.typed r₀ hr₀ c hold
    · rw [List.mem_singleton] at hnew
      subst hnew
      show c.admits D (Function.update r₀.2 c.name fill c.name) = true
      rw [Function.update_self]
      exact hfill
  · intro r hr name hname
    obtain ⟨r₀, hr₀, rfl⟩ := List.mem_map.mp hr
    simp only [Table.names, List.map_append, List.mem_append, List.map_singleton,
      List.mem_singleton, not_or] at hname
    show Function.update r₀.2 col.name fill name = D.null
    rw [Function.update_of_ne hname.2]
    exact h.blank r₀ hr₀ name hname.1

theorem mem_names_filter {column name : String} :
    name ∈ ({ table with cols := table.cols.filter fun c => c.name != column } : Table T).names ↔
      name ∈ table.names ∧ name ≠ column := by
  simp only [Table.names, List.mem_map, List.mem_filter, bne_iff_ne]
  constructor
  · rintro ⟨c, ⟨hc, hne⟩, rfl⟩
    exact ⟨⟨c, hc, rfl⟩, hne⟩
  · rintro ⟨⟨c, hc, rfl⟩, hne⟩
    exact ⟨c, ⟨hc, hne⟩, rfl⟩

/-- A column that nothing uses. -/
theorem TableOk.dropColumn (h : TableOk D table keys rows) {column : String}
    (hunused : column ∉ table.used) :
    TableOk D { table with cols := table.cols.filter fun c => c.name != column } keys
      (rows.map fun r => (r.1, Function.update r.2 column D.null)) := by
  obtain ⟨hnodup, hused⟩ := Table.wf_iff.mp h.wf
  have hsame : ∀ row : Row V, ∀ name ∈ table.used,
      Function.update row column D.null name = row name :=
    fun row name hname => Function.update_of_ne (by rintro rfl; exact hunused hname) ..
  refine ⟨?_, h.ids_map fun row => Function.update row column D.null, ?_, ?_,
    h.refer_map hsame, h.unique_map hsame⟩
  · rw [Table.wf_iff]
    refine ⟨hnodup.sublist (List.filter_sublist.map _), fun name hname => ?_⟩
    exact mem_names_filter.mpr ⟨hused name hname, fun heq => hunused (heq ▸ hname)⟩
  · intro r hr c hc
    obtain ⟨r₀, hr₀, rfl⟩ := List.mem_map.mp hr
    obtain ⟨hcol, hne⟩ := List.mem_filter.mp hc
    show c.admits D (Function.update r₀.2 column D.null c.name) = true
    rw [Function.update_of_ne (bne_iff_ne.mp hne)]
    exact h.typed r₀ hr₀ c hcol
  · intro r hr name hname
    obtain ⟨r₀, hr₀, rfl⟩ := List.mem_map.mp hr
    show Function.update r₀.2 column D.null name = D.null
    by_cases heq : name = column
    · rw [heq, Function.update_self]
    · rw [Function.update_of_ne heq]
      exact h.blank r₀ hr₀ name fun hmem => hname (mem_names_filter.mpr ⟨hmem, heq⟩)

/-- A column that nothing uses takes the values of one of its type. -/
theorem TableOk.copyColumn (h : TableOk D table keys rows) {target source : Col T}
    (htarget : target ∈ table.cols) (hsource : source ∈ table.cols)
    (htype : target.type = source.type)
    (hnull : source.nullable = true → target.nullable = true)
    (hunused : target.name ∉ table.used) :
    TableOk D table keys
      (rows.map fun r => (r.1, Function.update r.2 target.name (r.2 source.name))) := by
  obtain ⟨hnodup, hused⟩ := Table.wf_iff.mp h.wf
  have hsame : ∀ row : Row V, ∀ name ∈ table.used,
      Function.update row target.name (row source.name) name = row name :=
    fun row name hname => Function.update_of_ne (by rintro rfl; exact hunused hname) ..
  refine ⟨h.wf, h.ids_map fun row => Function.update row target.name (row source.name), ?_, ?_,
    h.refer_map (f := fun row => _) hsame, h.unique_map (f := fun row => _) hsame⟩
  · intro r hr c hc
    obtain ⟨r₀, hr₀, rfl⟩ := List.mem_map.mp hr
    show c.admits D (Function.update r₀.2 target.name (r₀.2 source.name) c.name) = true
    by_cases heq : c.name = target.name
    · obtain rfl : c = target := List.inj_on_of_nodup_map hnodup hc htarget heq
      rw [Function.update_self]
      have hold := h.typed r₀ hr₀ source hsource
      rw [Col.admits] at hold ⊢
      split
      · rename_i hisnull
        rw [if_pos hisnull] at hold
        exact hnull hold
      · rename_i hisnull
        rw [if_neg hisnull] at hold
        rw [htype]
        exact hold
    · rw [Function.update_of_ne heq]
      exact h.typed r₀ hr₀ c hc
  · intro r hr name hname
    obtain ⟨r₀, hr₀, rfl⟩ := List.mem_map.mp hr
    show Function.update r₀.2 target.name (r₀.2 source.name) name = D.null
    have hne : name ≠ target.name := by
      rintro rfl
      exact hname (List.mem_map_of_mem htarget)
    rw [Function.update_of_ne hne]
    exact h.blank r₀ hr₀ name hname

variable [DecidableEq T] {contents : String → List (K × Row V)}

/-- **A change that is not refused leaves its table as it says.** -/
theorem onTable_ok (h : TableOk D table keys (contents op.table))
    (hkeys : keys = fun name => (contents name).map Prod.fst)
    (hop : op.onTable D table = some table') (hcheck : op.check D contents = true) :
    TableOk D table' keys
      ((contents op.table).map fun r => (r.1, op.onRow D op.table r.2)) := by
  cases op with
  | createTable | dropTable | createType => simp [Op.onTable] at hop
  | addColumn name col fill =>
      rw [Op.onTable, Option.ite_none_right_eq_some, Option.some.injEq,
        Bool.and_eq_true] at hop
      obtain ⟨⟨hfresh, hfill⟩, rfl⟩ := hop
      simp only [Op.onRow, Op.table, if_true]
      exact h.addColumn (by simpa using hfresh) hfill
  | dropColumn name column =>
      rw [Op.onTable, Option.ite_none_right_eq_some, Option.some.injEq,
        Bool.and_eq_true] at hop
      obtain ⟨⟨-, hunused⟩, rfl⟩ := hop
      simp only [Op.onRow, Op.table, if_true]
      exact h.dropColumn (by simpa using hunused)
  | copyColumn name target source =>
      rw [Op.onTable] at hop
      split at hop
      · rename_i t s ht hs
        rw [Option.ite_none_right_eq_some, Option.some.injEq] at hop
        obtain ⟨⟨htype, hnull, hunused⟩, rfl⟩ := hop
        obtain rfl : t.name = target := by simpa using List.find?_some ht
        obtain rfl : s.name = source := by simpa using List.find?_some hs
        simp only [Op.onRow, Op.table, if_true]
        exact h.copyColumn (List.mem_of_find?_eq_some ht) (List.mem_of_find?_eq_some hs) htype
          hnull (by simpa using hunused)
      · simp at hop
  | createIndex name index =>
      rw [Op.onTable, Option.ite_none_right_eq_some, Option.some.injEq] at hop
      obtain ⟨hcols, rfl⟩ := hop
      simp only [Op.onRow, map_id_rows]
      obtain ⟨hnodup, hused⟩ := Table.wf_iff.mp h.wf
      refine ⟨Table.wf_iff.mpr ⟨hnodup, fun column hcolumn => ?_⟩, h.ids, h.typed, h.blank, h.refer,
        fun index' hindex' hunique => ?_⟩
      · simp only [Table.used, List.flatMap_append, List.mem_append] at hcolumn
        rcases hcolumn with href | hold | hnew
        · exact hused column (List.mem_append_left _ href)
        · exact hused column (List.mem_append_right _ hold)
        · rw [List.flatMap_singleton] at hnew
          show column ∈ table.names
          simpa using List.all_eq_true.mp hcols column hnew
      · rcases List.mem_append.mp hindex' with hold | hnew
        · exact h.unique index' hold hunique
        · rw [List.mem_singleton] at hnew
          subst hnew
          simpa [Op.check, Op.table, hunique] using hcheck
  | dropIndex name index =>
      rw [Op.onTable, Option.ite_none_right_eq_some, Option.some.injEq] at hop
      obtain ⟨-, rfl⟩ := hop
      simp only [Op.onRow, map_id_rows]
      obtain ⟨hnodup, hused⟩ := Table.wf_iff.mp h.wf
      refine ⟨Table.wf_iff.mpr ⟨hnodup, fun column hcolumn => ?_⟩, h.ids, h.typed, h.blank, h.refer,
        fun index' hindex' hunique => h.unique index' (List.mem_of_mem_filter hindex') hunique⟩
      rcases List.mem_append.mp hcolumn with href | hindex
      · exact hused column (List.mem_append_left _ href)
      · obtain ⟨index', hindex', hmem⟩ := List.mem_flatMap.mp hindex
        exact hused column (List.mem_append_right _
          (List.mem_flatMap.mpr ⟨index', List.mem_of_mem_filter hindex', hmem⟩))
  | createForeignKey name ref =>
      rw [Op.onTable, Option.ite_none_right_eq_some, Option.some.injEq] at hop
      obtain ⟨hop, rfl⟩ := hop
      have hcol := (Bool.and_eq_true_iff.mp hop).1
      simp only [Op.onRow, map_id_rows]
      obtain ⟨hnodup, hused⟩ := Table.wf_iff.mp h.wf
      refine ⟨Table.wf_iff.mpr ⟨hnodup, fun column hcolumn => ?_⟩, h.ids, h.typed, h.blank,
        fun ref' href' r hr => ?_, h.unique⟩
      · simp only [Table.used, List.map_append, List.mem_append, List.map_singleton,
          List.mem_singleton] at hcolumn
        rcases hcolumn with (hold | rfl) | hindex
        · exact hused column (List.mem_append_left _ hold)
        · show ref.column ∈ table.names
          simpa using hcol
        · exact hused column (List.mem_append_right _ hindex)
      · rcases List.mem_append.mp href' with hold | hnew
        · exact h.refer ref' hold r hr
        · rw [List.mem_singleton] at hnew
          subst hnew
          rw [hkeys]
          exact List.all_eq_true.mp hcheck r hr
  | dropConstraint name constraint =>
      rw [Op.onTable, Option.ite_none_right_eq_some, Option.some.injEq] at hop
      obtain ⟨-, rfl⟩ := hop
      simp only [Op.onRow, map_id_rows]
      obtain ⟨hnodup, hused⟩ := Table.wf_iff.mp h.wf
      refine ⟨Table.wf_iff.mpr ⟨hnodup, fun column hcolumn => ?_⟩, h.ids, h.typed, h.blank,
        fun ref' href' => h.refer ref' (List.mem_of_mem_filter href'), h.unique⟩
      rcases List.mem_append.mp hcolumn with href | hindex
      · obtain ⟨ref', href', rfl⟩ := List.mem_map.mp href
        exact hused _ (List.mem_append_left _
          (List.mem_map_of_mem (List.mem_of_mem_filter href')))
      · exact hused column (List.mem_append_right _ hindex)

/-! ### Changes of the database -/

omit [DecidableEq K] [DecidableEq T] in
theorem lookup_replace (tables : List (String × Table T)) (name : String) (table' : Table T)
    (other : String) :
    (tables.map fun t => if t.1 = name then (t.1, table') else t).lookup other =
      if other = name then (tables.lookup name).map fun _ => table' else tables.lookup other := by
  induction tables with
  | nil => simp
  | cons t rest ih =>
      obtain ⟨n, table⟩ := t
      rw [List.map_cons]
      by_cases hn : n = name
      · subst hn
        by_cases ho : other = n
        · simp [ho]
        · rw [if_pos rfl, List.lookup_cons, beq_false_of_ne ho, ih, if_neg ho, if_neg ho,
            List.lookup_cons, beq_false_of_ne ho]
      · by_cases ho : other = n
        · subst ho
          simp [hn]
        · rw [if_neg hn, List.lookup_cons, beq_false_of_ne ho, ih, List.lookup_cons,
            beq_false_of_ne (Ne.symm hn), List.lookup_cons, beq_false_of_ne ho]

omit [DecidableEq K] [DecidableEq T] in
/-- Changing one table leaves the others. -/
theorem Schema.modify_eq_some {schema schema' : Schema T} {name : String}
    {f : Table T → Option (Table T)} (h : schema.modify name f = some schema') :
    ∃ table table', schema.lookup name = some table ∧ f table = some table' ∧
      ∀ other, schema'.lookup other =
        if other = name then some table' else schema.lookup other := by
  rw [Schema.modify] at h
  split at h
  · simp at h
  · rename_i table hlookup
    obtain ⟨table', htable, rfl⟩ := Option.map_eq_some_iff.mp h
    refine ⟨table, table', hlookup, htable, fun other => ?_⟩
    rw [Schema.lookup] at hlookup
    rw [Schema.lookup, lookup_replace, hlookup, Option.map_some, Schema.lookup]

omit [DecidableEq K] [DecidableEq T] in
theorem Op.onRow_of_ne {name : String} (h : op.table ≠ name) (row : Row V) :
    op.onRow D name row = row := by
  cases op with
  | addColumn | dropColumn | copyColumn => exact if_neg h
  | _ => rfl

/-- A change of one table that is there. -/
private theorem ok_of_modify {db : Database T V K} (h : db.Ok D) {schema : Schema T}
    (hdrop : ∀ name, op ≠ .dropTable name)
    (hmodify : db.schema.modify op.table (op.onTable D) = some schema)
    (hcheck : op.check D db.rows = true) :
    (⟨schema, op.onRows D db.rows⟩ : Database T V K).Ok D := by
  obtain ⟨table, table', hlookup, htable, hothers⟩ := Schema.modify_eq_some hmodify
  have hrows : ∀ name, op.onRows D db.rows name =
      (db.rows name).map fun r => (r.1, op.onRow D name r.2) := by
    intro name
    cases op with
    | dropTable other => exact absurd rfl (hdrop other)
    | _ => rfl
  have hsame : ∀ name, op.table ≠ name → op.onRows D db.rows name = db.rows name := by
    intro name hne
    rw [hrows]
    simp only [Op.onRow_of_ne hne, map_id_rows]
  have hkeys : (⟨schema, op.onRows D db.rows⟩ : Database T V K).keys = db.keys := by
    funext name
    show (op.onRows D db.rows name).map Prod.fst = (db.rows name).map Prod.fst
    rw [hrows, List.map_map]
    rfl
  refine ⟨fun name => by rw [hkeys]; exact h.keyed name, fun name table₁ hname => ?_,
    fun name hname => ?_⟩
  · rw [hkeys]
    rw [hothers] at hname
    by_cases heq : name = op.table
    · rw [if_pos heq, Option.some.injEq] at hname
      subst hname heq
      show TableOk D table' db.keys (op.onRows D db.rows op.table)
      rw [hrows]
      exact onTable_ok (h.tables _ table hlookup) rfl htable hcheck
    · rw [if_neg heq] at hname
      show TableOk D table₁ db.keys (op.onRows D db.rows name)
      rw [hsame name (Ne.symm heq)]
      exact h.tables name table₁ hname
  · rw [hothers] at hname
    by_cases heq : name = op.table
    · simp [heq] at hname
    · rw [if_neg heq] at hname
      show op.onRows D db.rows name = []
      rw [hsame name (Ne.symm heq)]
      exact h.absent name hname

omit [DecidableEq K] [DecidableEq T] in
theorem lookup_drop (tables : List (String × Table T)) (name other : String) :
    (tables.filter fun t => t.1 != name).lookup other =
      if other = name then none else tables.lookup other := by
  induction tables with
  | nil => simp
  | cons t rest ih =>
      obtain ⟨n, table⟩ := t
      by_cases hn : n = name
      · rw [List.filter_cons_of_neg (by simp [hn]), ih]
        by_cases ho : other = name
        · rw [if_pos ho, if_pos ho]
        · rw [if_neg ho, if_neg ho, List.lookup_cons, beq_false_of_ne (hn ▸ ho)]
      · rw [List.filter_cons_of_pos (by simpa using hn), List.lookup_cons]
        by_cases ho : other = n
        · subst ho
          simp [hn]
        · rw [beq_false_of_ne ho, ih, List.lookup_cons, beq_false_of_ne ho]

omit [DecidableEq K] [DecidableEq T] in
theorem Schema.refersTo_eq_false {schema : Schema T} {name other : String} {table : Table T}
    (h : schema.refersTo name = false) (hlookup : schema.lookup other = some table)
    (hne : other ≠ name) : ∀ ref ∈ table.refs, ref.table ≠ name := by
  rintro ref href rfl
  rw [Schema.refersTo, List.any_eq_false] at h
  have hmem : (other, table) ∈ schema.tables := mem_of_lookup hlookup
  refine h _ hmem ?_
  rw [Bool.and_eq_true, bne_iff_ne, List.any_eq_true]
  exact ⟨hne, ref, href, beq_self_eq_true _⟩

/-- **A change that is not refused keeps the database as its schema says.** -/
theorem Op.apply_ok {db db' : Database T V K} (h : db.Ok D) (happly : op.apply D db = some db') :
    db'.Ok D := by
  rw [Op.apply] at happly
  split at happly
  · simp at happly
  · rename_i schema hschema
    rw [Option.ite_none_right_eq_some, Option.some.injEq] at happly
    obtain ⟨hcheck, rfl⟩ := happly
    cases op with
    | createTable name table =>
        rw [Op.onSchema, Option.ite_none_right_eq_some, Option.some.injEq, Bool.and_eq_true,
          Option.isNone_iff_eq_none] at hschema
        obtain ⟨⟨hnone, hwf⟩, rfl⟩ := hschema
        have hrows : (Op.createTable name table).onRows D db.rows = db.rows := by
          funext other
          exact map_id_rows _
        have hlookup : ∀ other, Schema.lookup
            { db.schema with tables := db.schema.tables ++ [(name, table)] } other =
              if other = name then some table else db.schema.lookup other := by
          intro other
          rw [Schema.lookup] at hnone
          rw [Schema.lookup, Schema.lookup, List.lookup_append]
          by_cases heq : other = name
          · rw [heq, hnone, if_pos rfl, Option.none_or, List.lookup_cons_self]
          · rw [if_neg heq, List.lookup_cons, beq_false_of_ne heq, List.lookup_nil, Option.or_none]
        rw [hrows]
        refine ⟨h.keyed, fun other table' hother => ?_, fun other hother => ?_⟩
        · rw [hlookup] at hother
          by_cases heq : other = name
          · rw [if_pos heq, Option.some.injEq] at hother
            subst hother heq
            show TableOk D table _ (db.rows other)
            rw [h.absent other hnone]
            exact ⟨hwf, by simp, by simp, by simp, by simp, by simp⟩
          · rw [if_neg heq] at hother
            exact h.tables other table' hother
        · rw [hlookup] at hother
          by_cases heq : other = name
          · simp [heq] at hother
          · rw [if_neg heq] at hother
            exact h.absent other hother
    | dropTable name =>
        rw [Op.onSchema, Option.ite_none_right_eq_some, Option.some.injEq, Bool.and_eq_true,
          Bool.not_eq_true'] at hschema
        obtain ⟨⟨-, hrefers⟩, rfl⟩ := hschema
        have hrows : ∀ other, (Op.dropTable name).onRows D db.rows other =
            if other = name then [] else db.rows other := by
          intro other
          by_cases heq : name = other
          · simp [Op.onRows, heq]
          · simp only [Op.onRows, heq, Ne.symm heq, if_false]
            exact map_id_rows _
        have hlookup : ∀ other, Schema.lookup
            { db.schema with tables := db.schema.tables.filter fun t => t.1 != name } other =
              if other = name then none else db.schema.lookup other :=
          lookup_drop db.schema.tables name
        refine ⟨fun other => ?_, fun other table hother => ?_, fun other hother => ?_⟩
        · show (((Op.dropTable name).onRows D db.rows other).map Prod.fst).Nodup
          rw [hrows]
          split
          · exact List.nodup_nil
          · exact h.keyed other
        · rw [hlookup] at hother
          by_cases heq : other = name
          · simp [heq] at hother
          · rw [if_neg heq] at hother
            obtain ⟨hwf, hids, htyped, hblank, hrefer, hunique⟩ := h.tables other table hother
            show TableOk D table _ ((Op.dropTable name).onRows D db.rows other)
            rw [hrows, if_neg heq]
            refine ⟨hwf, hids, htyped, hblank, fun ref href r hr => ?_, hunique⟩
            have hne := Schema.refersTo_eq_false hrefers hother heq ref href
            show ref.holds D (((Op.dropTable name).onRows D db.rows ref.table).map Prod.fst) r.2 =
              true
            rw [hrows, if_neg hne]
            exact hrefer ref href r hr
        · show (Op.dropTable name).onRows D db.rows other = []
          rw [hrows]
          by_cases heq : other = name
          · rw [if_pos heq]
          · rw [hlookup, if_neg heq] at hother
            rw [if_neg heq]
            exact h.absent other hother
    | createIndex name index =>
        rw [Op.onSchema, Option.ite_none_left_eq_some] at hschema
        exact ok_of_modify h (by simp) hschema.2 hcheck
    | createForeignKey name ref =>
        rw [Op.onSchema, Option.ite_none_right_eq_some] at hschema
        exact ok_of_modify h (by simp) hschema.2 hcheck
    | createType name =>
        rw [Op.onSchema, Option.ite_none_left_eq_some, Option.some.injEq] at hschema
        obtain ⟨-, rfl⟩ := hschema
        have hrows : (Op.createType name).onRows D db.rows = db.rows := by
          funext other
          exact map_id_rows _
        rw [hrows]
        exact ⟨h.keyed, h.tables, h.absent⟩
    | _ => exact ok_of_modify h (by simp) hschema hcheck

/-! ### Finding rows and tables -/

omit [DecidableEq T] in
theorem lookup_of_mem {k : K} {row : Row V} (hkeys : (rows.map Prod.fst).Nodup)
    (h : (k, row) ∈ rows) : rows.lookup k = some row := by
  induction rows with
  | nil => simp at h
  | cons r rest ih =>
      rw [List.map_cons, List.nodup_cons] at hkeys
      rcases List.mem_cons.mp h with rfl | hrest
      · exact List.lookup_cons_self
      · have hne : k ≠ r.1 := by
          rintro rfl
          exact hkeys.1 (List.mem_map.mpr ⟨_, hrest, rfl⟩)
        rw [List.lookup_cons, beq_false_of_ne hne]
        exact ih hkeys.2 hrest

omit [DecidableEq K] in
/-- Tables that are the same have the same type of ids, columns and references. -/
theorem Table.of_same (h : table.same table' = true) :
    table.idType = table'.idType ∧ table.cols.Perm table'.cols ∧
      ∀ ref' ∈ table'.refs, ∃ ref ∈ table.refs,
        ref.column = ref'.column ∧ ref.table = ref'.table := by
  rw [Table.same] at h
  simp only [Bool.and_eq_true, List.isPerm_iff, decide_eq_true_eq] at h
  obtain ⟨⟨⟨hid, hcols⟩, hrefs⟩, -⟩ := h
  refine ⟨hid, hcols, fun ref' href' => ?_⟩
  obtain ⟨ref, href, heq⟩ := List.mem_map.mp (hrefs.mem_iff.mpr (List.mem_map_of_mem href'))
  rw [Prod.mk.injEq, Prod.mk.injEq] at heq
  exact ⟨ref, href, heq.1, heq.2.1⟩

omit [DecidableEq K] in
/-- A table of the one schema is a table of the other. -/
theorem Schema.same_lookup {schema schema' : Schema T} {name : String}
    (h : schema.same schema' = true) (hlookup : schema'.lookup name = some table') :
    ∃ table, schema.lookup name = some table ∧ table.same table' = true := by
  rw [Schema.same, Bool.and_eq_true, Bool.and_eq_true, List.isPerm_iff] at h
  obtain ⟨⟨hnames, htables⟩, -⟩ := h
  have hmem : (name, table') ∈ schema'.tables := mem_of_lookup hlookup
  have hname : name ∈ schema.tables.map Prod.fst := hnames.mem_iff.mpr (List.mem_map_of_mem hmem)
  cases hfound : schema.lookup name with
  | none =>
      obtain ⟨t, ht, rfl⟩ := List.mem_map.mp hname
      have hnone := List.lookup_eq_none_iff.mp hfound t ht
      simp at hnone
  | some table =>
      refine ⟨table, rfl, ?_⟩
      have hmem : (name, table) ∈ schema.tables := mem_of_lookup hfound
      have hsame := List.all_eq_true.mp htables _ hmem
      rwa [hlookup, Option.any_some] at hsame

end

end Relational
