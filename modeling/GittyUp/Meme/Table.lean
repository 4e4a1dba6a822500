import GittyUp.Meme.Handler
import GittyUp.Statements
import Mathlib.Data.List.Perm.Basic
/-!
# The meme table

The statements of the handler as operations on a list of memes. `Statement.acts`
goes from the text of each statement and the texts bound to its parameters to
what the statement does to that list.
-/
open Lib Lib.Sql GittyUp.Http GittyUp.SqlLib

namespace GittyUp.Meme

/-- A row of the table. -/
structure Record where
  id : Str
  memeTemplate : Str
  topCaption : Str
  bottomCaption : Str
  timesViewed : Str

def Record.row (m : Record) : Row := [m.id, m.memeTemplate, m.topCaption, m.bottomCaption, m.timesViewed]

/-- The columns that the constructor asks for. -/
def columns : List (Str × Bool) :=
  [("id", true), ("img_path", false), ("top_caption", false), ("bot_caption", false), ("times_viewed", false)]

def memeTable (ms : List Record) : Table := ⟨columns, ms.map Record.row⟩

/-- The database whose only table holds these memes. -/
def memeDb (ms : List Record) : Db := [(tableName, memeTable ms)]

theorem record_row_injective : Function.Injective Record.row := by
  rintro ⟨_, _, _, _, _⟩ ⟨_, _, _, _, _⟩ h
  cases h
  rfl

theorem memeDb_injective : Function.Injective memeDb := by
  intro ms ms' h
  have hrows : ms.map Record.row = ms'.map Record.row := by
    have := congrArg (fun db : Db => (db.map fun e => e.2.rows)) h
    exact (List.cons.inj this).1
  exact record_row_injective.list_map hrows

/-! ## Statements -/

/-- The calls that the handler makes, each with the values that it passes. -/
inductive Statement
  | opening
  | creating
  | insert (id memeTemplate topCaption bottomCaption : Str)
  | edit (id memeTemplate topCaption bottomCaption : Str)
  | count (id timesViewed : Str)
  | remove (id : Str)
  | find (id : Str)
  | all
  | search (query : Str)
  | closing

namespace Statement

def createSql : Str := createText tableName
  [(fieldName 0, "TEXT PRIMARY KEY NOT NULL"), (fieldName 1, "TEXT NOT NULL"), (fieldName 2, "TEXT NOT NULL"),
   (fieldName 3, "TEXT NOT NULL"), (fieldName 4, "TEXT NOT NULL")]
def insertSql : Str := insertText tableName [fieldName 0, fieldName 1, fieldName 2, fieldName 3, fieldName 4]
def editSql : Str := updateText tableName [fieldName 1, fieldName 2, fieldName 3] [fieldName 0]
def countSql : Str := updateText tableName [fieldName 4] [fieldName 0]
def removeSql : Str := deleteText tableName [fieldName 0]
def findSql : Str := selectText tableName [fieldName 0]
def allSql : Str := selectText tableName []
def searchSql : Str := searchText tableName [fieldName 2, fieldName 3]

def call : Statement → Call
  | opening => .connect "meme.db"
  | creating => .exec createSql
  | insert id t p b => .run insertSql (bindTexts [id, t, p, b, "0"])
  | edit id t p b => .run editSql (bindTexts [t, p, b, id])
  | count id v => .run countSql (bindTexts [v, id])
  | remove id => .run removeSql (bindTexts [id])
  | find id => .run findSql (bindTexts [id])
  | all => .run allSql (bindTexts [])
  | search q => .run searchSql (bindTexts [q, q])
  | closing => .finalize

/-- What a query returns: the memes that `keep` keeps, in some order. -/
def Finds (keep : Record → Bool) (ms : List Record) (r : Reply) (ms' : List Record) : Prop :=
  (∃ found : List Record, r.rows = found.map Record.row ∧ found.Perm (ms.filter keep)) ∧ r.done = true ∧ ms' = ms

/-- A meme with the query in one of its captions. -/
def matching (like : Str → Str → Bool) (q : Str) (m : Record) : Bool :=
  like (str "%" ++ cStr q ++ str "%") m.topCaption || like (str "%" ++ cStr q ++ str "%") m.bottomCaption

def Acts (like : Str → Str → Bool) (ms : List Record) (r : Reply) (ms' : List Record) : Statement → Prop
  | opening | creating | closing => ms' = ms
  | insert id t p b =>
    ((∃ m ∈ ms, m.id = cStr id) → r.done = false ∧ ms' = ms) ∧
    ((∀ m ∈ ms, m.id ≠ cStr id) → r.done = true ∧ ms' = ms ++ [⟨cStr id, cStr t, cStr p, cStr b, "0"⟩])
  | edit id t p b => r.done = true ∧ ms' = ms.map fun m => if m.id = cStr id then
      { m with memeTemplate := cStr t, topCaption := cStr p, bottomCaption := cStr b } else m
  | count id v => r.done = true ∧ ms' = ms.map fun m => if m.id = cStr id then { m with timesViewed := cStr v } else m
  | remove id => r.done = true ∧ ms' = ms.filter fun m => m.id ≠ cStr id
  | find id => Finds (fun m => m.id = cStr id) ms r ms'
  | all => Finds (fun _ => true) ms r ms'
  | search q => Finds (matching like q) ms r ms'

/-! ## Texts -/

theorem sqlName_tableName : SqlName tableName := by decide +kernel

theorem sqlName_fieldName (i : Nat) (h : i < 5) : SqlName (fieldName i) := by
  have hall : ∀ c ∈ fieldNames, SqlName c := by decide +kernel
  refine hall _ ?_
  rw [fieldName, List.getD_eq_getElem?_getD, List.getElem?_eq_getElem h]
  exact List.getElem_mem h

theorem sqlName_columns (is : List Nat) (h : ∀ i ∈ is, i < 5) : ∀ c ∈ is.map fieldName, SqlName c := by
  intro c hc
  obtain ⟨i, hi, rfl⟩ := List.mem_map.1 hc
  exact sqlName_fieldName i (h i hi)

theorem parse_createSql : parseSql createSql = some (.create tableName columns) := by decide +kernel

theorem parse_insertSql : parseSql insertSql = some (.insert tableName fieldNames [1, 2, 3, 4, 5]) :=
  parse_insert sqlName_tableName (List.cons_ne_nil _ _) (sqlName_columns [0, 1, 2, 3, 4] (by decide))

theorem parse_editSql : parseSql editSql =
    some (.update tableName [("img_path", 1), ("top_caption", 2), ("bot_caption", 3)] [("id", 4)]) :=
  parse_update sqlName_tableName (List.cons_ne_nil _ _) (sqlName_columns [1, 2, 3] (by decide))
    (sqlName_columns [0] (by decide))

theorem parse_countSql : parseSql countSql = some (.update tableName [("times_viewed", 1)] [("id", 2)]) :=
  parse_update sqlName_tableName (List.cons_ne_nil _ _) (sqlName_columns [4] (by decide))
    (sqlName_columns [0] (by decide))

theorem parse_removeSql : parseSql removeSql = some (.delete tableName [("id", 1)]) :=
  parse_delete sqlName_tableName (List.cons_ne_nil _ _) (sqlName_columns [0] (by decide))

theorem parse_findSql : parseSql findSql = some (.select tableName [("id", 1)]) :=
  parse_select sqlName_tableName (List.cons_ne_nil _ _) (sqlName_columns [0] (by decide))

theorem parse_allSql : parseSql allSql = some (.select tableName []) := by decide +kernel

theorem parse_searchSql : parseSql searchSql = some (.search tableName [("top_caption", 1), ("bot_caption", 2)]) :=
  parse_search sqlName_tableName (List.cons_ne_nil _ _) (sqlName_columns [2, 3] (by decide))

/-! ## The table and its rows -/

theorem lookup_memeDb (ms : List Record) : (memeDb ms).lookup tableName = some (memeTable ms) := by
  simp [memeDb]

theorem put_memeDb (ms : List Record) (t : Table) : put (memeDb ms) tableName t = [(tableName, t)] := by
  simp [put, memeDb]

@[simp] theorem picks_id (x : Str) (m : Record) : picks [(0, x)] m.row = decide (m.id = x) := by
  simp [picks, Record.row]

/-- A permutation of rows is one of the memes. -/
theorem rows_perm {rows : List Row} {ms : List Record} (h : rows.Perm (ms.map Record.row)) :
    ∃ found : List Record, rows = found.map Record.row ∧ found.Perm ms := by
  have := congrFun (congrFun (List.eq_map_comp_perm Record.row) rows) ms
  exact this.mpr h

section Effects
variable {like : Str → Str → Bool} {ms : List Record} {b : Binds} {r : Reply} {db' : Db}

theorem exec_update {sets wheres : List (Str × Nat)} (ss : List (Nat × Str)) (x : Str) (f : Record → Record)
    (h : Exec like (.update tableName sets wheres) b (memeDb ms) r db') (hs : (memeTable ms).resolve b sets = some ss)
    (hw : (memeTable ms).resolve b wheres = some [(0, x)]) (hk : 0 ∉ ss.map Prod.fst)
    (hf : ∀ m : Record, assign ss m.row = (f m).row) :
    r.done = true ∧ db' = memeDb (ms.map fun m => if m.id = x then f m else m) := by
  have h := h _ _ _ (lookup_memeDb ms) hs hw
  have hkey : (memeTable ms).setsKey ss = false := decide_eq_false hk
  rw [if_neg (by simp [hkey])] at h
  obtain ⟨rfl, rfl⟩ := h
  refine ⟨rfl, ?_⟩
  rw [put_memeDb]
  simp only [memeDb, memeTable, Table.updated, List.map_map]
  congr 4
  funext m
  by_cases hm : m.id = x <;> simp [hm, hf]

theorem exec_select {wheres : List (Str × Nat)} (ws : List (Nat × Str)) {keep : Record → Bool}
    (h : Exec like (.select tableName wheres) b (memeDb ms) r db')
    (hw : (memeTable ms).resolve b wheres = some ws) (hk : ∀ m : Record, picks ws m.row = keep m) :
    db' = memeDb ms ∧ Finds keep ms r ms := by
  obtain ⟨hrows, hdone, rfl⟩ := h _ _ (lookup_memeDb ms) hw
  refine ⟨rfl, rows_perm ?_, hdone, rfl⟩
  rw [memeTable, List.filter_map] at hrows
  have : picks ws ∘ Record.row = keep := funext hk
  rwa [this] at hrows

theorem exec_insert {id t p v : Str}
    (h : Exec like (.insert tableName fieldNames [1, 2, 3, 4, 5]) (bindTexts [id, t, p, v, "0"]) (memeDb ms) r db') :
    ∃ ms', db' = memeDb ms' ∧ Acts like ms r ms' (.insert id t p v) := by
  have hrow : (memeTable ms).newRow (bindTexts [id, t, p, v, "0"]) fieldNames [1, 2, 3, 4, 5] =
      some (Record.row ⟨cStr id, cStr t, cStr p, cStr v, "0"⟩) := rfl
  obtain ⟨hclash, hfree⟩ := h _ _ (lookup_memeDb ms) rfl hrow
  have hiff : (memeTable ms).clashes (Record.row ⟨cStr id, cStr t, cStr p, cStr v, "0"⟩) ↔ ∃ m ∈ ms, m.id = cStr id := by
    constructor
    · rintro ⟨k, row, ⟨rfl⟩, hrow, he⟩
      obtain ⟨m, hm, rfl⟩ := List.mem_map.1 hrow
      exact ⟨m, hm, Option.some.inj he⟩
    · rintro ⟨m, hm, he⟩
      exact ⟨0, m.row, rfl, List.mem_map_of_mem hm, congrArg some he⟩
  by_cases hc : ∃ m ∈ ms, m.id = cStr id
  · obtain ⟨rfl, rfl⟩ := hclash (hiff.2 hc)
    refine ⟨ms, rfl, fun _ => ⟨rfl, rfl⟩, fun hn => ?_⟩
    obtain ⟨m, hm, he⟩ := hc
    exact absurd he (hn m hm)
  · obtain ⟨rfl, rfl⟩ := hfree (mt hiff.1 hc)
    refine ⟨_, ?_, fun hm => absurd hm hc, fun _ => ⟨rfl, rfl⟩⟩
    rw [put_memeDb]
    simp [memeDb, memeTable]

/-- What each call of the handler does to the table. -/
theorem acts {engine : Db → Call → Reply → Db → Prop} (hd : Documented like engine) (st : Statement)
    (h : engine (memeDb ms) st.call r db') : ∃ ms', db' = memeDb ms' ∧ st.Acts like ms r ms' := by
  cases st with
  | opening => exact ⟨ms, hd.connect h, rfl⟩
  | closing => exact ⟨ms, hd.finalize h, rfl⟩
  | creating =>
    obtain ⟨-, -, h⟩ := hd.exec parse_createSql h
    exact ⟨ms, h (by rw [lookup_memeDb]; rfl), rfl⟩
  | insert id t p v => exact exec_insert (hd.run parse_insertSql h)
  | edit id t p v =>
    have h := hd.run parse_editSql h
    obtain ⟨h1, h2⟩ := exec_update [(1, cStr t), (2, cStr p), (3, cStr v)] (cStr id)
      (fun m => { m with memeTemplate := cStr t, topCaption := cStr p, bottomCaption := cStr v }) h rfl rfl
      (by simp) fun _ => rfl
    exact ⟨_, h2, h1, rfl⟩
  | count id v =>
    have h := hd.run parse_countSql h
    obtain ⟨h1, h2⟩ := exec_update [(4, cStr v)] (cStr id) (fun m => { m with timesViewed := cStr v }) h
      rfl rfl (by simp) fun _ => rfl
    exact ⟨_, h2, h1, rfl⟩
  | remove id =>
    have h := hd.run parse_removeSql h
    obtain ⟨rfl, rfl⟩ := h (memeTable ms) [(0, cStr id)] (lookup_memeDb ms) rfl
    refine ⟨_, ?_, rfl, rfl⟩
    rw [put_memeDb]
    simp only [memeDb, memeTable, List.filter_map]
    congr 4
    exact List.filter_congr fun m _ => by simp
  | find id => exact ⟨ms, exec_select [(0, cStr id)] (hd.run parse_findSql h) rfl (picks_id (cStr id))⟩
  | all => exact ⟨ms, exec_select [] (hd.run parse_allSql h) rfl fun _ => rfl⟩
  | search q =>
    have h := hd.run parse_searchSql h
    obtain ⟨hrows, hdone, rfl⟩ := h (memeTable ms) [(2, cStr q), (3, cStr q)] (lookup_memeDb ms) rfl
    refine ⟨ms, rfl, rows_perm ?_, hdone, rfl⟩
    rw [memeTable, List.filter_map] at hrows
    have : picksLike like [(2, cStr q), (3, cStr q)] ∘ Record.row = matching like q := by
      funext m
      simp [picksLike, Record.row, matching]
    rwa [this] at hrows

end Effects

end Statement

end GittyUp.Meme
