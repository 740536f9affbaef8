import Mathlib.Data.List.Nodup
import Mathlib.Logic.Function.Basic

/-!
# SQL scripts that change a schema

A database is a catalog of tables and indexes, and the rows of each table. A
statement checks and changes the catalog without a look at the rows (`define`),
carries the rows over (`move`), and is refused when it would break a unique index
(`admits`). A script whose unique indexes are all on tables that it has just made
is never refused, whatever the other tables hold.
-/

namespace Sql

inductive ColumnType where
  | uuid
  | text
  | boolean
  | integer
  deriving DecidableEq, Repr

inductive Scalar where
  | uuid (u : BitVec 128)
  | text (s : String)
  | boolean (b : Bool)
  | integer (n : Int)
  deriving DecidableEq, Repr

def Scalar.type : Scalar → ColumnType
  | .uuid _ => .uuid
  | .text _ => .text
  | .boolean _ => .boolean
  | .integer _ => .integer

/-- `none` is NULL. -/
abbrev Cell := Option Scalar

abbrev Tuple := List Cell

structure Column where
  name : String
  type : ColumnType
  notNull : Bool
  deriving DecidableEq, Repr

def Column.admits (k : Column) : Cell → Bool
  | none => !k.notNull
  | some v => v.type == k.type

structure Relation where
  name : String
  columns : List Column
  /-- The column of the primary key, whose index has a name that the system chooses. -/
  key : String
  deriving DecidableEq, Repr

/-- A row of the table: a value of its type in each column, or NULL where that is allowed. -/
def Relation.Fits (r : Relation) (row : Tuple) : Prop :=
  List.Forall₂ (fun (k : Column) c => k.admits c = true) r.columns row

structure Index where
  name : String
  table : String
  column : String
  unique : Bool
  deriving DecidableEq, Repr

structure Catalog where
  tables : List Relation
  indexes : List Index
  deriving DecidableEq, Repr

structure Database where
  catalog : Catalog
  rows : String → List Tuple

/-- Nothing has been created yet. -/
def Database.empty : Database := ⟨⟨[], []⟩, fun _ => []⟩

inductive Stmt where
  /-- `CREATE TABLE name (columns, PRIMARY KEY (key))`. -/
  | createTable (name : String) (columns : List Column) (key : String)
  /-- `CREATE [UNIQUE] INDEX name ON table (column)`. -/
  | createIndex (unique : Bool) (name table column : String)
  /-- `ALTER TABLE name RENAME TO newName`. -/
  | renameTable (name newName : String)
  /-- `ALTER TABLE table RENAME COLUMN column TO newName`. -/
  | renameColumn (table column newName : String)
  /-- `ALTER INDEX name RENAME TO newName`. -/
  | renameIndex (name newName : String)
  /-- `ALTER TABLE table ADD COLUMN column DEFAULT value, ..`. -/
  | addColumns (table : String) (columns : List (Column × Scalar))
  /-- `UPDATE table SET column = value WHERE test = old`. -/
  | update (table column : String) (value : Scalar) (test : String) (old : Scalar)
  deriving DecidableEq, Repr

/-! ## The catalog -/

namespace Catalog

/-- Tables and indexes share their names. -/
def named (c : Catalog) (name : String) : Bool :=
  c.tables.any (·.name == name) || c.indexes.any (·.name == name)

def table? (c : Catalog) (name : String) : Option Relation := c.tables.find? (·.name == name)

def column? (c : Catalog) (table column : String) : Option Column :=
  (c.table? table).bind fun r => r.columns.find? (·.name == column)

def position (c : Catalog) (table column : String) : Option Nat :=
  (c.table? table).bind fun r => r.columns.findIdx? (·.name == column)

/-- Where the columns stand in which the rows of the table must differ, the key first. -/
def uniquePositions (c : Catalog) (table : String) : List Nat :=
  (((c.table? table).toList.map (·.key)) ++
    (c.indexes.filter fun i => i.unique && i.table == table).map (·.column)).filterMap
      (c.position table)

end Catalog

/-- `none` where the statement is an error whatever the rows are. -/
def Stmt.define : Stmt → Catalog → Option Catalog
  | .createTable name columns key, c =>
    if !c.named name && decide (columns.map (·.name)).Nodup && columns.any (·.name == key) then
      some { c with tables := c.tables ++ [⟨name, columns, key⟩] }
    else none
  | .createIndex unique name table column, c =>
    if !c.named name && (c.column? table column).isSome then
      some { c with indexes := c.indexes ++ [⟨name, table, column, unique⟩] }
    else none
  | .renameTable name newName, c =>
    if (c.table? name).isSome && !c.named newName then
      some {
        tables := c.tables.map fun r => if r.name = name then { r with name := newName } else r
        indexes := c.indexes.map fun i =>
          if i.table = name then { i with table := newName } else i }
    else none
  | .renameColumn table column newName, c =>
    if (c.column? table column).isSome && (c.column? table newName).isNone then
      some {
        tables := c.tables.map fun r =>
          if r.name = table then
            { r with
              columns := r.columns.map fun k =>
                if k.name = column then { k with name := newName } else k
              key := if r.key = column then newName else r.key }
          else r
        indexes := c.indexes.map fun i =>
          if i.table = table ∧ i.column = column then { i with column := newName } else i }
    else none
  | .renameIndex name newName, c =>
    if c.indexes.any (·.name == name) && !c.named newName then
      some { c with indexes := c.indexes.map fun i =>
        if i.name = name then { i with name := newName } else i }
    else none
  | .addColumns table columns, c =>
    if (c.table? table).isSome && decide (columns.map (·.1.name)).Nodup &&
        columns.all fun p => (c.column? table p.1.name).isNone && p.1.type == p.2.type then
      some { c with tables := c.tables.map fun r =>
        if r.name = table then { r with columns := r.columns ++ columns.map (·.1) } else r }
    else none
  | .update table column value test old, c =>
    if (c.column? table column).any (·.type == value.type) &&
        (c.column? table test).any (·.type == old.type) then
      some c
    else none

/-! ## The rows -/

/-- The row after `UPDATE`, with the positions of the two columns. -/
def assign (column : Nat) (value : Scalar) (test : Nat) (old : Scalar) (row : Tuple) : Tuple :=
  if row[test]? = some (some old) then row.set column (some value) else row

def Stmt.move : Stmt → Catalog → (String → List Tuple) → String → List Tuple
  | .createTable name _ _, _, rows => Function.update rows name []
  | .renameTable name newName, _, rows =>
    Function.update (Function.update rows newName (rows name)) name []
  | .addColumns table columns, _, rows =>
    Function.update rows table ((rows table).map (· ++ columns.map fun p => some p.2))
  | .update table column value test old, c, rows =>
    match c.position table column, c.position table test with
    | some p, some q => Function.update rows table ((rows table).map (assign p value q old))
    | _, _ => rows
  | _, _, rows => rows

/-- No two rows have the same value in the column; NULL is no value. -/
def Distinct (position : Nat) (rows : List Tuple) : Prop :=
  (rows.filterMap fun row => row[position]?.join).Nodup

instance (position : Nat) (rows : List Tuple) : Decidable (Distinct position rows) :=
  inferInstanceAs (Decidable (List.Nodup _))

theorem distinct_map {α : Type} {position : Nat} {xs : List α} {f : α → Tuple} (hxs : xs.Nodup)
    (h : ∀ x ∈ xs, ∀ y ∈ xs, (f x)[position]?.join = (f y)[position]?.join → x = y) :
    Distinct position (xs.map f) := by
  unfold Distinct
  rw [List.filterMap_map, List.Nodup, List.pairwise_filterMap]
  refine hxs.imp_of_mem fun {x y} hx hy hne v hv w hw he => hne (h x hx y hy ?_)
  exact hv.trans ((congrArg some he).trans hw.symm)

/-- The table whose unique indexes the statement may break. -/
def Stmt.checks : Stmt → Option String
  | .createIndex true _ table _ => some table
  | .update table _ _ _ _ => some table
  | _ => none

/-- The unique indexes hold, with the catalog and the rows that the statement leaves. -/
def Stmt.admits (s : Stmt) (c : Catalog) (rows : String → List Tuple) : Bool :=
  s.checks.all fun table => (c.uniquePositions table).all fun p => decide (Distinct p (rows table))

def Stmt.exec (s : Stmt) (db : Database) : Option Database :=
  (s.define db.catalog).bind fun c =>
    if s.admits c (s.move db.catalog db.rows) then some ⟨c, s.move db.catalog db.rows⟩ else none

/-! ## Scripts -/

/-- The first error ends the script. -/
def run (ss : List Stmt) (db : Database) : Option Database := ss.foldlM (fun db s => s.exec db) db

def defineAll (ss : List Stmt) (c : Catalog) : Option Catalog :=
  ss.foldlM (fun c s => s.define c) c

section scripts

variable {s : Stmt} {ss ss' : List Stmt} {db db' : Database} {c c' : Catalog}
  {rows : String → List Tuple} {made : List String}

@[simp] theorem run_nil : run [] db = some db := rfl

theorem run_cons : run (s :: ss) db = (s.exec db).bind (run ss) := rfl

theorem run_append : run (ss ++ ss') db = (run ss db).bind (run ss') := by
  unfold run
  exact List.foldlM_append ..

theorem defineAll_cons : defineAll (s :: ss) c = (s.define c).bind (defineAll ss) := rfl

theorem exec_of (hdef : s.define db.catalog = some c)
    (hadmits : s.admits c (s.move db.catalog db.rows) = true) :
    s.exec db = some ⟨c, s.move db.catalog db.rows⟩ := by
  simp only [Stmt.exec, hdef, Option.bind_some, hadmits, if_true]

theorem admits_of_checks (h : s.checks = none) : s.admits c rows = true := by
  simp [Stmt.admits, h]

theorem admits_of_empty {table : String} (h : s.checks = some table) (hempty : rows table = []) :
    s.admits c rows = true := by
  simp [Stmt.admits, h, hempty, Distinct]

/-- Tables that are known to be empty after the statement. -/
def Stmt.makes (made : List String) : Stmt → List String
  | .createTable name _ _ => name :: made
  | .createIndex .. => made
  | _ => []

/-- Updates nothing, and has its unique indexes on tables that it has just made. -/
def Unrefused : List String → List Stmt → Bool
  | _, [] => true
  | made, s :: ss =>
    (match s with
      | .createIndex true _ table _ => made.contains table
      | .update .. => false
      | _ => true) && Unrefused (s.makes made) ss

/-- What the statements do to the rows, where the catalog does not matter. -/
def carry (ss : List Stmt) (rows : String → List Tuple) : String → List Tuple :=
  ss.foldl (fun rows s => s.move ⟨[], []⟩ rows) rows

/-- **Scripts.** A script that its catalog allows, with its unique indexes on tables that it has
just made, is carried out whatever the rows are. -/
theorem run_unrefused (hss : Unrefused made ss = true) (hmade : ∀ name ∈ made, rows name = [])
    (hdef : defineAll ss c = some c') : run ss ⟨c, rows⟩ = some ⟨c', carry ss rows⟩ := by
  induction ss generalizing made c rows with
  | nil =>
    cases hdef
    rfl
  | cons s ss ih =>
    rw [defineAll_cons, Option.bind_eq_some_iff] at hdef
    obtain ⟨c₁, h₁, hdef⟩ := hdef
    simp only [Unrefused, Bool.and_eq_true] at hss
    obtain ⟨hs, hss⟩ := hss
    have hmove : s.move c rows = s.move ⟨[], []⟩ rows := by
      cases s with
      | update => cases hs
      | _ => rfl
    have hadmits : s.admits c₁ (s.move c rows) = true := by
      cases s with
      | update => cases hs
      | createIndex unique name table column =>
        cases unique with
        | false => exact admits_of_checks rfl
        | true => exact admits_of_empty rfl (hmade table (List.contains_iff_mem.mp hs))
      | _ => exact admits_of_checks rfl
    have hleft : ∀ name ∈ s.makes made, s.move c rows name = [] := by
      intro name hname
      cases s with
      | createTable table columns key =>
        by_cases he : name = table
        · rw [he]
          exact Function.update_self ..
        · exact (Function.update_of_ne he ..).trans
            (hmade name ((List.mem_cons.mp hname).resolve_left he))
      | createIndex => exact hmade name hname
      | _ => cases hname
    rw [run_cons, exec_of h₁ hadmits, Option.bind_some, ih hss hleft hdef, hmove]
    rfl

theorem run_of_define (hss : Unrefused [] ss = true) (hdef : defineAll ss db.catalog = some c) :
    run ss db = some ⟨c, carry ss db.rows⟩ :=
  run_unrefused hss (fun _ h => absurd h List.not_mem_nil) hdef

/-- The table that the statement makes. -/
def Stmt.made? : Stmt → Option String
  | .createTable name _ _ => some name
  | _ => none

/-- Makes a table or an index. -/
def Stmt.creates : Stmt → Bool
  | .createTable .. | .createIndex .. => true
  | _ => false

/-- Scripts that only create leave the tables alone that they do not make. -/
theorem carry_creates (hss : ss.all Stmt.creates = true) (name : String) :
    carry ss rows name = if name ∈ ss.filterMap Stmt.made? then [] else rows name := by
  induction ss generalizing rows with
  | nil => rfl
  | cons s ss ih =>
    rw [List.all_cons, Bool.and_eq_true] at hss
    obtain ⟨hs, hss⟩ := hss
    show carry ss (s.move ⟨[], []⟩ rows) name = _
    rw [ih hss]
    cases s with
    | createTable table columns key =>
      by_cases he : name = table
      · simp [Stmt.made?, Stmt.move, he]
      · simp [Stmt.made?, Stmt.move, he]
    | createIndex => rfl
    | _ => cases hs

/-- An update whose rows differ in their unique columns is carried out. -/
theorem exec_update {table column test : String} {value old : Scalar} {p q : Nat}
    (hdef : (Stmt.update table column value test old).define c = some c)
    (hp : c.position table column = some p) (hq : c.position table test = some q)
    (hdistinct : ∀ u ∈ c.uniquePositions table,
      Distinct u ((rows table).map (assign p value q old))) :
    (Stmt.update table column value test old).exec ⟨c, rows⟩ =
      some ⟨c, Function.update rows table ((rows table).map (assign p value q old))⟩ := by
  have hmove : (Stmt.update table column value test old).move c rows =
      Function.update rows table ((rows table).map (assign p value q old)) := by
    simp only [Stmt.move, hp, hq]
  have hadmits : (Stmt.update table column value test old).admits c
      ((Stmt.update table column value test old).move c rows) = true := by
    rw [hmove]
    simpa [Stmt.admits, Stmt.checks] using hdistinct
  rw [exec_of hdef hadmits, hmove]

end scripts

end Sql
