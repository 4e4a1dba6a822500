import GittyUp.Lib.Prog
import GittyUp.Lib.Sql
/-!
# The SQL manager

`src/sql_lib.cc`: the statement texts that it builds from selectors, the
parameters it binds to them, and what it makes of the replies. Values are bound
as C strings, and columns are read back as C strings.
-/
open Lib Lib.Sql

namespace GittyUp.SqlLib

/-- `query_params`: column names with values. -/
abbrev QueryParams := List (Str × Str)

/-- The loops that write a list of selectors: each with its position from `i`
on, and behind it `sep`, or `last` behind the last one. -/
def writeList {α : Type} (item : Nat → α → Str) (sep last : Str) : Nat → List α → Str
  | _, [] => []
  | i, [x] => item i x ++ last
  | i, x :: xs => item i x ++ sep ++ writeList item sep last (i + 1) xs

/-- `q += first + "= ?" + bind_param` -/
def equality (i : Nat) (column : Str) : Str := column ++ str "= ?" ++ dec i

def whereClause (lead : Str) (i : Nat) (columns : List Str) : Str :=
  if columns = [] then [] else lead ++ writeList equality " AND " ";" i columns

def createText (tableName : Str) (tableParams : QueryParams) : Str :=
  str "CREATE TABLE IF NOT EXISTS " ++ tableName ++ str "(" ++
    writeList (fun _ s => s.1 ++ str " " ++ s.2) "," ");" 1 tableParams

def insertText (tableName : Str) (columns : List Str) : Str :=
  str "INSERT INTO " ++ tableName ++ str "(" ++ writeList (fun _ c => c) "," ") VALUES(" 1 columns ++
    writeList (fun i _ => str "?" ++ dec i) "," ");" 1 columns

def updateText (tableName : Str) (setColumns whereColumns : List Str) : Str :=
  str "UPDATE " ++ tableName ++ str " SET " ++ writeList equality "," [] 1 setColumns ++
    whereClause " WHERE " (setColumns.length + 1) whereColumns

def deleteText (tableName : Str) (columns : List Str) : Str :=
  str "DELETE FROM " ++ tableName ++ str " " ++ whereClause "WHERE " 1 columns

def selectText (tableName : Str) (columns : List Str) : Str :=
  str "SELECT * FROM " ++ tableName ++ str " " ++ whereClause "WHERE " 1 columns

def searchText (tableName : Str) (columns : List Str) : Str :=
  str "SELECT * FROM " ++ tableName ++ str " " ++
    if columns = [] then []
    else str "WHERE " ++ writeList (fun i c => c ++ str " LIKE '%' || ?" ++ dec i ++ str "|| '%'") " OR " ";" 1 columns

/-- The `sqlite3_bind_text` calls, from parameter 1 on. -/
def bindTexts (values : List Str) : Binds := (values.zipIdx 1).map fun v => (v.2, cStr v.1)

/-! ## The methods -/

/-- A piece of the program that makes calls to SQLite. -/
abbrev SqlProg := Prog Call Reply StdException

/-- A call, with its reply. -/
def perform (c : Call) : SqlProg Reply := .call c .ret

/-- `connect`, whose result nobody looks at. -/
def connect (dbName : Str) : SqlProg Unit := do
  let _ ← perform (.connect dbName)
  return ()

/-- `create_table`, whose result nobody looks at. -/
def createTable (tableName : Str) (tableParams : QueryParams) : SqlProg Unit := do
  let _ ← perform (.exec (createText tableName tableParams))
  return ()

/-- Run a statement that returns no rows. It is finalized only if it succeeds. -/
def change (sql : Str) (values : List Str) : SqlProg Bool := do
  let r ← perform (.run sql (bindTexts values))
  if r.done then
    let _ ← perform .finalize
    return true
  else return false

def insertRecord (tableName : Str) (tableParams : QueryParams) : SqlProg Bool :=
  change (insertText tableName (tableParams.map Prod.fst)) (tableParams.map Prod.snd)

def updateRecord (tableName : Str) (setParams whereParams : QueryParams) : SqlProg Bool :=
  change (updateText tableName (setParams.map Prod.fst) (whereParams.map Prod.fst))
    (setParams.map Prod.snd ++ whereParams.map Prod.snd)

def deleteRecord (tableName : Str) (tableParams : QueryParams) : SqlProg Bool :=
  change (deleteText tableName (tableParams.map Prod.fst)) (tableParams.map Prod.snd)

/-- Run a statement and collect its rows. It is finalized only if it ends with success. -/
def collect (sql : Str) (values : List Str) : SqlProg (List Row) := do
  let r ← perform (.run sql (bindTexts values))
  if r.done then
    let _ ← perform .finalize
    return r.rows.map (·.map cStr)
  else return r.rows.map (·.map cStr)

def selectRecord (tableName : Str) (tableParams : QueryParams) : SqlProg (List Row) :=
  collect (selectText tableName (tableParams.map Prod.fst)) (tableParams.map Prod.snd)

def searchRecord (tableName : Str) (tableParams : QueryParams) : SqlProg (List Row) :=
  collect (searchText tableName (tableParams.map Prod.fst)) (tableParams.map Prod.snd)

/-! ## The calls of a method -/

variable {α : Type}

theorem change_bind (sql : Str) (values : List Str) (k : Bool → SqlProg α) :
    change sql values >>= k = .call (.run sql (bindTexts values)) fun r =>
      if r.done then .call .finalize fun _ => k true else k false := by
  unfold change perform
  rw [Prog.call_bind, Prog.call_bind]
  congr 1
  funext r
  rw [Prog.ret_bind]
  cases r.done <;> rfl

theorem collect_bind (sql : Str) (values : List Str) (k : List Row → SqlProg α) :
    collect sql values >>= k = .call (.run sql (bindTexts values)) fun r =>
      if r.done then .call .finalize fun _ => k (r.rows.map (·.map cStr)) else k (r.rows.map (·.map cStr)) := by
  unfold collect perform
  rw [Prog.call_bind, Prog.call_bind]
  congr 1
  funext r
  rw [Prog.ret_bind]
  cases r.done <;> rfl

/-- A statement that is run, and finalized if it ends with success. -/
def runOnce (sql : Str) (values : List Str) (k : Reply → α) : SqlProg α :=
  .call (.run sql (bindTexts values)) fun r => if r.done then .call .finalize fun _ => .ret (k r) else .ret (k r)

theorem change_eq (sql : Str) (values : List Str) : change sql values = runOnce sql values Reply.done := by
  rw [← Prog.bind_ret (change sql values), change_bind]
  unfold runOnce
  congr 1
  funext r
  cases r.done <;> rfl

theorem collect_eq (sql : Str) (values : List Str) :
    collect sql values = runOnce sql values fun r => r.rows.map (·.map cStr) := by
  rw [← Prog.bind_ret (collect sql values), collect_bind]
  rfl

end GittyUp.SqlLib
