import GittyUp.Lib.Like
import Mathlib.Data.List.Perm.Subperm
/-!
# A fragment of SQL

The statements that create a table of text columns, insert a row, and update,
delete or select the rows that equalities or `LIKE` patterns pick, with numbered
parameters: their texts (`parseSql`) and their documented effect on a database
(`Exec`). `Documented` says that a database engine does no more than that.
-/
open Lib

namespace Lib.Sql

/-- The keywords of the fragment that are no names anywhere. -/
inductive Keyword
  | CREATE | TABLE | NOT | EXISTS | INSERT | INTO | VALUES | UPDATE | SET | WHERE | AND | OR | DELETE
  | FROM | SELECT | PRIMARY | NULL
deriving DecidableEq

inductive Token
  | kw (k : Keyword)
  | name (s : Str)
  | param (n : Nat)
  | text (s : Str)
  | lparen | rparen | comma | semicolon | equals | star | concat
deriving DecidableEq

def keywords : List (Str × Keyword) :=
  [("CREATE", .CREATE), ("TABLE", .TABLE), ("NOT", .NOT), ("EXISTS", .EXISTS), ("INSERT", .INSERT), ("INTO", .INTO),
   ("VALUES", .VALUES), ("UPDATE", .UPDATE), ("SET", .SET), ("WHERE", .WHERE), ("AND", .AND), ("OR", .OR),
   ("DELETE", .DELETE), ("FROM", .FROM), ("SELECT", .SELECT), ("PRIMARY", .PRIMARY), ("NULL", .NULL)]

/-- The words that SQLite keeps for itself, in lower case and by their first letter.
It takes its other keywords for names where no keyword can stand, `KEY` and `LIKE` among them. -/
def reserved (c : Byte) : List Str :=
  if c = 'a' then ["add", "all", "alter", "and", "as", "autoincrement"]
  else if c = 'b' then ["between"]
  else if c = 'c' then ["case", "check", "collate", "commit", "constraint", "create"]
  else if c = 'd' then ["default", "deferrable", "delete", "distinct", "drop"]
  else if c = 'e' then ["else", "escape", "except", "exists"]
  else if c = 'f' then ["foreign", "from"]
  else if c = 'g' then ["group"]
  else if c = 'h' then ["having"]
  else if c = 'i' then ["in", "index", "insert", "intersect", "into", "is", "isnull"]
  else if c = 'j' then ["join"]
  else if c = 'l' then ["limit"]
  else if c = 'n' then ["not", "nothing", "notnull", "null"]
  else if c = 'o' then ["on", "or", "order"]
  else if c = 'p' then ["primary"]
  else if c = 'r' then ["references", "returning"]
  else if c = 's' then ["select", "set"]
  else if c = 't' then ["table", "then", "to", "transaction"]
  else if c = 'u' then ["union", "unique", "update", "using"]
  else if c = 'v' then ["values"]
  else if c = 'w' then ["when", "where"]
  else []

/-- In no case of its letters such a word names anything. -/
def isReserved (w : Str) : Bool := w.map toLower ∈ reserved (toLower (w.headD 0))

/-- A column that can be compared: these words are names elsewhere, but begin something else in an expression. -/
def isOperand (w : Str) : Bool :=
  w.map toLower ∉ ([str "cast", str "current_date", str "current_time", str "current_timestamp", str "raise"] : List Str)

/-- A byte order mark. In front of a word it is skipped. -/
def byteOrderMark : Str := [0xEF, 0xBB, 0xBF]

/-- What a name goes on with. -/
def isNameChar (c : Byte) : Bool := isWord c || c = '$' || 128 ≤ c

/-- What a name begins with. -/
def isNameStart (c : Byte) : Bool := isWord c && !isDigit c || 128 ≤ c

/-- A keyword or a name. -/
def wordToken (w : Str) : Option Token :=
  match keywords.lookup w with
  | some k => some (.kw k)
  | none => if isReserved w then none else some (.name w)

/-- The byte around a text literal. -/
def quote : Byte := 39

def punctuation (c : Byte) : Option Token :=
  if c = '(' then some .lparen
  else if c = ')' then some .rparen
  else if c = ',' then some .comma
  else if c = ';' then some .semicolon
  else if c = '=' then some .equals
  else if c = '*' then some .star
  else none

def lex : Nat → Str → Option (List Token)
  | 0, _ => none
  | _ + 1, [] => some []
  | fuel + 1, c :: s =>
    if isSpace c then lex fuel s
    else if isNameStart c then
      if byteOrderMark <+: c :: s then lex fuel (s.drop 2)
      else do
        let t ← wordToken ((c :: s).takeWhile isNameChar)
        return t :: (← lex fuel ((c :: s).dropWhile isNameChar))
    else if c = '?' then
      if s.takeWhile isDigit = [] then none
      else do
        let ts ← lex fuel (s.dropWhile isDigit)
        return .param (digitsVal (s.takeWhile isDigit)) :: ts
    else if c = quote then
      match s.dropWhile (· ≠ quote) with
      | [] => none
      | _ :: s' => do
        let ts ← lex fuel s'
        return .text (s.takeWhile (· ≠ quote)) :: ts
    else if c = '|' then
      match s with
      | [] => none
      | d :: s' => if d = '|' then do return .concat :: (← lex fuel s') else none
    else do
      let t ← punctuation c
      return t :: (← lex fuel s)

theorem lex_nil (fuel : Nat) : lex (fuel + 1) [] = some [] := by
  unfold lex
  rfl

/-! ## Statements -/

/-- A column with whether it is the key; a column with the number of the parameter it is compared with or set to. -/
inductive Stmt
  | create (table : Str) (columns : List (Str × Bool))
  | insert (table : Str) (columns : List Str) (params : List Nat)
  | update (table : Str) (sets wheres : List (Str × Nat))
  | delete (table : Str) (wheres : List (Str × Nat))
  | select (table : Str) (wheres : List (Str × Nat))
  | search (table : Str) (likes : List (Str × Nat))
deriving DecidableEq

/-- Text columns, of which one may be the key. -/
def parseColumns : List Token → Option (List (Str × Bool) × List Token)
  | .name c :: .name ty :: .kw .PRIMARY :: .name k :: .kw .NOT :: .kw .NULL :: .comma :: ts =>
    if ty = str "TEXT" ∧ k = str "KEY" then (parseColumns ts).map fun (cs, ts) => ((c, true) :: cs, ts) else none
  | .name c :: .name ty :: .kw .NOT :: .kw .NULL :: .comma :: ts =>
    if ty = str "TEXT" then (parseColumns ts).map fun (cs, ts) => ((c, false) :: cs, ts) else none
  | .name c :: .name ty :: .kw .PRIMARY :: .name k :: .kw .NOT :: .kw .NULL :: .rparen :: ts =>
    if ty = str "TEXT" ∧ k = str "KEY" then some ([(c, true)], ts) else none
  | .name c :: .name ty :: .kw .NOT :: .kw .NULL :: .rparen :: ts => if ty = str "TEXT" then some ([(c, false)], ts) else none
  | _ => none

def parseNames : List Token → Option (List Str × List Token)
  | .name c :: .comma :: ts => (parseNames ts).map fun (cs, ts) => (c :: cs, ts)
  | .name c :: .rparen :: ts => some ([c], ts)
  | _ => none

def parseParams : List Token → Option (List Nat × List Token)
  | .param n :: .comma :: ts => (parseParams ts).map fun (ns, ts) => (n :: ns, ts)
  | .param n :: .rparen :: ts => some ([n], ts)
  | _ => none

/-- `c = ?n`, separated by `sep`. -/
def parseEqualities (sep : Token) : List Token → Option (List (Str × Nat) × List Token)
  | [.name c, .equals, .param n] => some ([(c, n)], [])
  | .name c :: .equals :: .param n :: t :: ts =>
    if t = sep then (parseEqualities sep ts).map fun (es, ts) => ((c, n) :: es, ts) else some ([(c, n)], t :: ts)
  | _ => none

/-- `c LIKE '%' || ?n || '%'`, separated by `OR`. -/
def parseLikes : List Token → Option (List (Str × Nat) × List Token)
  | .name c :: .name l :: .text p :: .concat :: .param n :: .concat :: .text q :: .kw .OR :: ts =>
    if l = str "LIKE" ∧ p = str "%" ∧ q = str "%" then (parseLikes ts).map fun (es, ts) => ((c, n) :: es, ts) else none
  | .name c :: .name l :: .text p :: .concat :: .param n :: .concat :: .text q :: ts =>
    if l = str "LIKE" ∧ p = str "%" ∧ q = str "%" then some ([(c, n)], ts) else none
  | _ => none

/-- Only if each column can be compared. -/
def compared (r : Option (List (Str × Nat) × List Token)) : Option (List (Str × Nat) × List Token) :=
  r.filter fun r => r.1.all fun e => isOperand e.1

def parseWhere : List Token → Option (List (Str × Nat) × List Token)
  | .kw .WHERE :: ts => compared (parseEqualities (.kw .AND) ts)
  | ts => some ([], ts)

/-- The end of a statement. -/
def parseEnd {α : Type} (a : α) : List Token → Option α
  | [] => some a
  | [.semicolon] => some a
  | _ => none

def parseTokens : List Token → Option Stmt
  | .kw .CREATE :: .kw .TABLE :: .name i :: .kw .NOT :: .kw .EXISTS :: .name t :: .lparen :: ts => do
    let (cs, ts) ← parseColumns ts
    if i = str "IF" then parseEnd (.create t cs) ts else none
  | .kw .INSERT :: .kw .INTO :: .name t :: .lparen :: ts => do
    let (cs, ts) ← parseNames ts
    match ts with
    | .kw .VALUES :: .lparen :: ts => do
      let (ns, ts) ← parseParams ts
      parseEnd (.insert t cs ns) ts
    | _ => none
  | .kw .UPDATE :: .name t :: .kw .SET :: ts => do
    let (ss, ts) ← parseEqualities .comma ts
    let (ws, ts) ← parseWhere ts
    parseEnd (.update t ss ws) ts
  | .kw .DELETE :: .kw .FROM :: .name t :: ts => do
    let (ws, ts) ← parseWhere ts
    parseEnd (.delete t ws) ts
  | .kw .SELECT :: .star :: .kw .FROM :: .name t :: .kw .WHERE :: .name c :: .name l :: ts => do
    let (es, ts) ← compared (parseLikes (.name c :: .name l :: ts))
    parseEnd (.search t es) ts
  | .kw .SELECT :: .star :: .kw .FROM :: .name t :: ts => do
    let (ws, ts) ← parseWhere ts
    parseEnd (.select t ws) ts
  | _ => none

def parseSql (sql : Str) : Option Stmt := (lex (sql.length + 1) sql).bind parseTokens

/-! ## Databases -/

abbrev Row := List Str

/-- Text columns, each with whether it is the key, and the rows. -/
structure Table where
  columns : List (Str × Bool)
  rows : List Row
deriving DecidableEq

abbrev Db := List (Str × Table)

/-- The texts bound to the numbered parameters. -/
abbrev Binds := List (Nat × Str)

namespace Table

def index (t : Table) (c : Str) : Option Nat := t.columns.findIdx? (·.1 = c)

def keyIndex (t : Table) : Option Nat := t.columns.findIdx? (·.2)

/-- The positions of the columns and the texts of their parameters. -/
def resolve (t : Table) (b : Binds) (es : List (Str × Nat)) : Option (List (Nat × Str)) :=
  es.mapM fun e => do return (← t.index e.1, ← b.lookup e.2)

/-- The row of an `INSERT` whose columns are those of the table. -/
def newRow (t : Table) (b : Binds) (columns : List Str) (params : List Nat) : Option Row :=
  if columns.all fun c => (t.index c).isSome then
    t.columns.mapM fun c => do b.lookup (← (columns.zip params).lookup c.1)
  else none

def clashes (t : Table) (row : Row) : Prop :=
  ∃ k row', t.keyIndex = some k ∧ row' ∈ t.rows ∧ row'[k]? = row[k]?

/-- The key is among the assigned positions. -/
def setsKey (t : Table) (es : List (Nat × Str)) : Bool := t.keyIndex.any (· ∈ es.map Prod.fst)

/-- No two rows have the same key. -/
def keyed (t : Table) : Bool := t.keyIndex.all fun k => (t.rows.map (·[k]?)).Nodup

end Table

def picks (es : List (Nat × Str)) (row : Row) : Bool := es.all fun e => row[e.1]? = some e.2

def assign (es : List (Nat × Str)) (row : Row) : Row := es.foldl (fun row e => row.set e.1 e.2) row

/-- `LIKE` with the text in the middle of the pattern. -/
def picksLike (like : Str → Str → Bool) (es : List (Nat × Str)) (row : Row) : Bool :=
  es.any fun e => row[e.1]?.any (like (str "%" ++ e.2 ++ str "%"))

/-- The table in which the rows that `ws` picks are assigned `ss`. -/
def Table.updated (t : Table) (ss ws : List (Nat × Str)) : Table :=
  { t with rows := t.rows.map fun row => if picks ws row then assign ss row else row }

def put (db : Db) (name : Str) (t : Table) : Db := db.map fun e => if e.1 = name then (name, t) else e

/-- The rows that stepping through a statement returns, and whether it ends with success. -/
structure Reply where
  rows : List Row
  done : Bool

/-- The documented effect of a statement whose tables and columns exist and
whose parameters are bound; about other statements nothing is said. Rows are
selected in any order, and a key that is taken makes an `INSERT` or an `UPDATE` fail. -/
def Exec (like : Str → Str → Bool) (stmt : Stmt) (b : Binds) (db : Db) (r : Reply) (db' : Db) : Prop :=
  match stmt with
  | .create name columns => r = ⟨[], true⟩ ∧ (db.lookup name = none → db' = db ++ [(name, ⟨columns, []⟩)]) ∧
      ((db.lookup name).isSome → db' = db)
  | .insert name columns params => ∀ t row, db.lookup name = some t → columns.length = params.length →
      t.newRow b columns params = some row →
        (t.clashes row → r = ⟨[], false⟩ ∧ db' = db) ∧
        (¬ t.clashes row → r = ⟨[], true⟩ ∧ db' = put db name { t with rows := t.rows ++ [row] })
  | .update name sets wheres => ∀ t ss ws, db.lookup name = some t → t.resolve b sets = some ss →
      t.resolve b wheres = some ws →
        if t.setsKey ss ∧ ¬ (t.updated ss ws).keyed then r = ⟨[], false⟩ ∧ db' = db
        else r = ⟨[], true⟩ ∧ db' = put db name (t.updated ss ws)
  | .delete name wheres => ∀ t ws, db.lookup name = some t → t.resolve b wheres = some ws →
      r = ⟨[], true⟩ ∧ db' = put db name { t with rows := t.rows.filter fun row => !picks ws row }
  | .select name wheres => ∀ t ws, db.lookup name = some t → t.resolve b wheres = some ws →
      r.rows.Perm (t.rows.filter (picks ws)) ∧ r.done = true ∧ db' = db
  | .search name likes => ∀ t es, db.lookup name = some t → t.resolve b likes = some es →
      r.rows.Perm (t.rows.filter (picksLike like es)) ∧ r.done = true ∧ db' = db

/-! ## The engine -/

/-- The calls of the C interface that reach the database. Preparing a statement,
binding its parameters and stepping to its end is one call. -/
inductive Call
  | connect (name : Str)
  | exec (sql : Str)
  | run (sql : Str) (b : Binds)
  | finalize
deriving DecidableEq

/-- An engine all of whose calls succeed, and do what is documented. -/
structure Documented (like : Str → Str → Bool) (engine : Db → Call → Reply → Db → Prop) : Prop where
  connect : ∀ {db name r db'}, engine db (.connect name) r db' → db' = db
  finalize : ∀ {db r db'}, engine db .finalize r db' → db' = db
  exec : ∀ {db sql stmt r db'}, parseSql sql = some stmt → engine db (.exec sql) r db' → Exec like stmt [] db r db'
  run : ∀ {db sql stmt b r db'}, parseSql sql = some stmt → engine db (.run sql b) r db' → Exec like stmt b db r db'

/-! ## Calls that fail -/

/-- A call that opens, prepares or steps, and ends with an error. -/
def failed : Call × Reply → Bool
  | (.finalize, _) => false
  | (_, r) => !r.done

/-- The table that has to be there. -/
def Stmt.needs : Stmt → Option Str
  | create _ _ => none
  | insert table _ _ | update table _ _ | delete table _ | select table _ | search table _ => some table

/-- A statement either ends with success, and then its table is there and its
effect is the documented one, or it leaves the database as it was; the rows that
it has returned until then are not restricted. -/
structure Tried (like : Str → Str → Bool) (stmt : Stmt) (b : Binds) (db : Db) (r : Reply) (db' : Db) : Prop where
  known : r.done = true → ∀ table, stmt.needs = some table → (db.lookup table).isSome
  effect : r.done = true → Exec like stmt b db r db'
  unchanged : r.done = false → db' = db

/-- An engine each of whose calls may fail. -/
structure Attempts (like : Str → Str → Bool) (engine : Db → Call → Reply → Db → Prop) : Prop where
  connect : ∀ {db name r db'}, engine db (.connect name) r db' → db' = db
  finalize : ∀ {db r db'}, engine db .finalize r db' → db' = db
  exec : ∀ {db sql stmt r db'}, parseSql sql = some stmt → engine db (.exec sql) r db' → Tried like stmt [] db r db'
  run : ∀ {db sql stmt b r db'}, parseSql sql = some stmt → engine db (.run sql b) r db' → Tried like stmt b db r db'

/-- What a query that fails has returned until then: some of the rows that it would return. -/
def Stmt.Returned (like : Str → Str → Bool) (b : Binds) (db : Db) (r : Reply) : Stmt → Prop
  | select name wheres => (db.lookup name = none → r.rows = []) ∧
      ∀ t ws, db.lookup name = some t → t.resolve b wheres = some ws → r.rows.Subperm (t.rows.filter (picks ws))
  | search name likes => (db.lookup name = none → r.rows = []) ∧
      ∀ t es, db.lookup name = some t → t.resolve b likes = some es → r.rows.Subperm (t.rows.filter (picksLike like es))
  | _ => True

/-- An engine each of whose calls may fail, and a query also behind some of its rows. -/
structure Interruptible (like : Str → Str → Bool) (engine : Db → Call → Reply → Db → Prop) : Prop
    extends Attempts like engine where
  returned : ∀ {db sql stmt b r db'}, parseSql sql = some stmt → engine db (.run sql b) r db' → r.done = false →
    stmt.Returned like b db r

/-- The calls that succeed do what is documented. -/
theorem Attempts.documented {like : Str → Str → Bool} {engine : Db → Call → Reply → Db → Prop}
    (h : Attempts like engine) : Documented like fun db c r db' => engine db c r db' ∧ failed (c, r) = false where
  connect hc := h.connect hc.1
  finalize hc := h.finalize hc.1
  exec hp hc := (h.exec hp hc.1).effect (by simpa [failed] using hc.2)
  run hp hc := (h.run hp hc.1).effect (by simpa [failed] using hc.2)

/-! ## An engine that computes -/

def Table.clashesWith (t : Table) (row : Row) : Bool :=
  match t.keyIndex with
  | none => false
  | some k => t.rows.any fun row' => row'[k]? = row[k]?

theorem Table.clashesWith_iff (t : Table) (row : Row) : t.clashesWith row = true ↔ t.clashes row := by
  unfold clashesWith clashes
  cases t.keyIndex with
  | none => simp
  | some k => simp

/-- The effect of a statement, on rows in the order in which they were inserted. Others fail. -/
def execute (like : Str → Str → Bool) (stmt : Stmt) (b : Binds) (db : Db) : Option (Reply × Db) :=
  match stmt with
  | .create name columns =>
    some (⟨[], true⟩, if (db.lookup name).isSome then db else db ++ [(name, ⟨columns, []⟩)])
  | .insert name columns params => do
    let t ← db.lookup name
    let row ← t.newRow b columns params
    return if t.clashesWith row then (⟨[], false⟩, db) else (⟨[], true⟩, put db name { t with rows := t.rows ++ [row] })
  | .update name sets wheres => do
    let t ← db.lookup name
    let ss ← t.resolve b sets
    let ws ← t.resolve b wheres
    return if t.setsKey ss ∧ ¬ (t.updated ss ws).keyed then (⟨[], false⟩, db)
      else (⟨[], true⟩, put db name (t.updated ss ws))
  | .delete name wheres => do
    let t ← db.lookup name
    let ws ← t.resolve b wheres
    return (⟨[], true⟩, put db name { t with rows := t.rows.filter fun row => !picks ws row })
  | .select name wheres => do
    let t ← db.lookup name
    let ws ← t.resolve b wheres
    return (⟨t.rows.filter (picks ws), true⟩, db)
  | .search name likes => do
    let t ← db.lookup name
    let es ← t.resolve b likes
    return (⟨t.rows.filter (picksLike like es), true⟩, db)

/-- Read the text of a statement and execute it. -/
def executeText (like : Str → Str → Bool) (sql : Str) (b : Binds) (db : Db) : Reply × Db :=
  ((parseSql sql).bind fun stmt => execute like stmt b db).getD (⟨[], false⟩, db)

def textEngine (like : Str → Str → Bool) (db : Db) : Call → Reply × Db
  | .connect _ | .finalize => (⟨[], true⟩, db)
  | .exec sql => executeText like sql [] db
  | .run sql b => executeText like sql b db

/-- The engine as a relation. -/
def computes (like : Str → Str → Bool) (db : Db) (c : Call) (r : Reply) (db' : Db) : Prop :=
  textEngine like db c = (r, db')

theorem exec_execute (like : Str → Str → Bool) (stmt : Stmt) (b : Binds) (db : Db) :
    Exec like stmt b db ((execute like stmt b db).getD (⟨[], false⟩, db)).1
      ((execute like stmt b db).getD (⟨[], false⟩, db)).2 := by
  cases stmt with
  | create name columns =>
    refine ⟨rfl, fun h => ?_, fun h => ?_⟩
    · simp [execute, h]
    · simp [execute, h]
  | insert name columns params =>
    intro t row ht _ hrow
    simp only [execute, ht, hrow, Option.bind_eq_bind, Option.bind_some, Option.pure_def, Option.getD_some]
    constructor
    · intro hc
      rw [if_pos ((t.clashesWith_iff row).2 hc)]
      exact ⟨rfl, rfl⟩
    · intro hc
      rw [if_neg (mt (t.clashesWith_iff row).1 hc)]
      exact ⟨rfl, rfl⟩
  | update name sets wheres =>
    intro t ss ws ht hs hw
    simp only [execute, ht, hs, hw, Option.bind_eq_bind, Option.bind_some, Option.pure_def, Option.getD_some]
    split_ifs <;> exact ⟨rfl, rfl⟩
  | delete name wheres =>
    intro t ws ht hw
    simp [execute, ht, hw]
  | select name wheres =>
    intro t ws ht hw
    simp [execute, ht, hw]
  | search name likes =>
    intro t es ht he
    simp [execute, ht, he]

theorem documented_computes (like : Str → Str → Bool) : Documented like (computes like) where
  connect h := (congrArg Prod.snd h).symm
  finalize h := (congrArg Prod.snd h).symm
  exec {db sql stmt r db'} hp h := by
    have := exec_execute like stmt [] db
    simp only [computes, textEngine, executeText, hp, Option.bind_some] at h
    rwa [h] at this
  run {db sql stmt b r db'} hp h := by
    have := exec_execute like stmt b db
    simp only [computes, textEngine, executeText, hp, Option.bind_some] at h
    rwa [h] at this

/-! ## An engine with faults -/

/-- The calls that `fails` picks fail, the others are computed. -/
def faultyEngine (fails : Call → Bool) (like : Str → Str → Bool) (db : Db) (c : Call) : Reply × Db :=
  if fails c then (⟨[], false⟩, db) else textEngine like db c

def faulty (fails : Call → Bool) (like : Str → Str → Bool) (db : Db) (c : Call) (r : Reply) (db' : Db) : Prop :=
  faultyEngine fails like db c = (r, db')

/-- A statement that executes finds its table. -/
theorem execute_known {like : Str → Str → Bool} {stmt : Stmt} {b : Binds} {db : Db} {x : Reply × Db}
    (h : execute like stmt b db = some x) {table : Str} (ht : stmt.needs = some table) : (db.lookup table).isSome := by
  cases stmt with
  | create => cases ht
  | insert | update | delete | select | search =>
    cases ht
    obtain ⟨t, hl, -⟩ := Option.bind_eq_some_iff.1 h
    rw [hl]
    rfl

/-- Only an `INSERT` or an `UPDATE` whose key is taken executes without success. -/
theorem execute_unchanged {like : Str → Str → Bool} {stmt : Stmt} {b : Binds} {db : Db} {x : Reply × Db}
    (h : execute like stmt b db = some x) (hd : x.1.done = false) : x.2 = db := by
  cases stmt with
  | create =>
    cases h
    cases hd
  | insert name columns params =>
    obtain ⟨t, -, h⟩ := Option.bind_eq_some_iff.1 h
    obtain ⟨row, -, h⟩ := Option.bind_eq_some_iff.1 h
    cases h
    split_ifs at hd ⊢
    rfl
  | update =>
    obtain ⟨t, -, h⟩ := Option.bind_eq_some_iff.1 h
    obtain ⟨ss, -, h⟩ := Option.bind_eq_some_iff.1 h
    obtain ⟨ws, -, h⟩ := Option.bind_eq_some_iff.1 h
    cases h
    split_ifs at hd ⊢
    rfl
  | delete | select | search =>
    obtain ⟨t, -, h⟩ := Option.bind_eq_some_iff.1 h
    obtain ⟨ws, -, h⟩ := Option.bind_eq_some_iff.1 h
    cases h
    cases hd

theorem tried_executeText {like : Str → Str → Bool} {sql : Str} {stmt : Stmt} {b : Binds} {db db' : Db} {r : Reply}
    (hp : parseSql sql = some stmt) (h : executeText like sql b db = (r, db')) : Tried like stmt b db r db' := by
  have he := exec_execute like stmt b db
  unfold executeText at h
  rw [hp, Option.bind_some] at h
  rw [h] at he
  cases hx : execute like stmt b db with
  | none =>
    rw [hx] at h
    cases h
    exact ⟨nofun, nofun, fun _ => rfl⟩
  | some x =>
    rw [hx] at h
    cases h
    exact ⟨fun _ _ ht => execute_known hx ht, fun _ => he, execute_unchanged hx⟩

/-- A statement that is not executed, or whose key is taken, returns no rows. -/
theorem rows_executeText {like : Str → Str → Bool} {sql : Str} {b : Binds} {db db' : Db} {r : Reply}
    (h : executeText like sql b db = (r, db')) (hr : r.done = false) : r.rows = [] := by
  unfold executeText at h
  cases hx : (parseSql sql).bind fun stmt => execute like stmt b db with
  | none =>
    rw [hx] at h
    cases h
    rfl
  | some x =>
    rw [hx, Option.getD_some] at h
    subst h
    obtain ⟨stmt, -, hx⟩ := Option.bind_eq_some_iff.1 hx
    cases stmt with
    | create =>
      cases hx
      rfl
    | insert =>
      obtain ⟨t, -, hx⟩ := Option.bind_eq_some_iff.1 hx
      obtain ⟨row, -, hx⟩ := Option.bind_eq_some_iff.1 hx
      split at hx
      · cases hx
        rfl
      · cases hx
        rfl
    | update =>
      obtain ⟨t, -, hx⟩ := Option.bind_eq_some_iff.1 hx
      obtain ⟨ss, -, hx⟩ := Option.bind_eq_some_iff.1 hx
      obtain ⟨ws, -, hx⟩ := Option.bind_eq_some_iff.1 hx
      split at hx
      · cases hx
        rfl
      · cases hx
        rfl
    | delete =>
      obtain ⟨t, -, hx⟩ := Option.bind_eq_some_iff.1 hx
      obtain ⟨ws, -, hx⟩ := Option.bind_eq_some_iff.1 hx
      cases hx
      rfl
    | select | search =>
      obtain ⟨t, -, hx⟩ := Option.bind_eq_some_iff.1 hx
      obtain ⟨ws, -, hx⟩ := Option.bind_eq_some_iff.1 hx
      cases hx
      cases hr

theorem attempts_faulty (fails : Call → Bool) (like : Str → Str → Bool) : Attempts like (faulty fails like) where
  connect {db name r db'} h := by
    unfold faulty faultyEngine at h
    split_ifs at h <;> exact (congrArg Prod.snd h).symm
  finalize {db r db'} h := by
    unfold faulty faultyEngine at h
    split_ifs at h <;> exact (congrArg Prod.snd h).symm
  exec {db sql stmt r db'} hp h := by
    unfold faulty faultyEngine at h
    split_ifs at h
    · cases h
      exact ⟨nofun, nofun, fun _ => rfl⟩
    · exact tried_executeText hp h
  run {db sql stmt b r db'} hp h := by
    unfold faulty faultyEngine at h
    split_ifs at h
    · cases h
      exact ⟨nofun, nofun, fun _ => rfl⟩
    · exact tried_executeText hp h

/-- Its queries fail before their first row. -/
theorem interruptible_faulty (fails : Call → Bool) (like : Str → Str → Bool) : Interruptible like (faulty fails like) where
  toAttempts := attempts_faulty fails like
  returned {db sql stmt b r db'} hp h hr := by
    have hrows : r.rows = [] := by
      unfold faulty faultyEngine at h
      split_ifs at h
      · cases h
        rfl
      · exact rows_executeText h hr
    cases stmt with
    | select | search => exact ⟨fun _ => hrows, fun _ _ _ _ => hrows ▸ List.nil_subperm⟩
    | create | insert | update | delete => trivial

end Lib.Sql
