import GittyUp.Lib.SqlText
import GittyUp.SqlLib
/-!
# What the statements say

The texts that `src/sql_lib.cc` builds, for any table and any selectors, read back as
statements: of five methods, each written item by item with "last element" tests.
-/
open Lib Lib.Sql

namespace GittyUp.SqlLib

/-! ## What a method is asked for -/

inductive Action
  | insert (table : Str) (params : QueryParams)
  | update (table : Str) (sets wheres : QueryParams)
  | delete (table : Str) (wheres : QueryParams)
  | select (table : Str) (wheres : QueryParams)
  | search (table : Str) (likes : QueryParams)

namespace Action

def table : Action → Str
  | insert table _ | update table _ _ | delete table _ | select table _ | search table _ => table

/-- The selectors, in the order in which they are bound. -/
def selectors : Action → QueryParams
  | update _ sets wheres => sets ++ wheres
  | insert _ params | delete _ params | select _ params | search _ params => params

/-- The statement that is built. -/
def text : Action → Str
  | insert table params => insertText table (params.map Prod.fst)
  | update table sets wheres => updateText table (sets.map Prod.fst) (wheres.map Prod.fst)
  | delete table wheres => deleteText table (wheres.map Prod.fst)
  | select table wheres => selectText table (wheres.map Prod.fst)
  | search table likes => searchText table (likes.map Prod.fst)

def values (a : Action) : List Str := a.selectors.map Prod.snd

/-- The first call of the method. -/
def first : Action → Option Call
  | insert table params => (insertRecord table params).first
  | update table sets wheres => (updateRecord table sets wheres).first
  | delete table wheres => (deleteRecord table wheres).first
  | select table wheres => (selectRecord table wheres).first
  | search table likes => (searchRecord table likes).first

/-- A method begins with its statement, run with its values. -/
theorem first_run (a : Action) : a.first = some (.run a.text (bindTexts a.values)) := by
  cases a with
  | update table sets wheres =>
    unfold values selectors
    rw [List.map_append]
    rfl
  | insert | delete | select | search => rfl

end Action

/-! ## Reading the texts -/

section Texts
variable {α : Type} {s : Str} {ts : List Token}

theorem reads_writeList {item : Nat → α → Str} {toks : Nat → α → List Token} {sep last : Str} {t : Token} {xs : List α}
    (hxs : xs ≠ []) (i : Nat)
    (hitem : ∀ i, ∀ x ∈ xs, ∀ s ts, StopsAt isNameChar s → Reads s ts → Reads (item i x ++ s) (toks i x ++ ts))
    (hsep : ∀ s ts, Reads s ts → Reads (sep ++ s) (t :: ts))
    (hstop : ∀ s, StopsAt isNameChar (sep ++ s)) (hlast : Reads (last ++ s) ts) (hend : StopsAt isNameChar (last ++ s)) :
    Reads (writeList item sep last i xs ++ s) (joinTokens toks t i xs ++ ts) := by
  induction xs generalizing i with
  | nil => exact absurd rfl hxs
  | cons x xs ih =>
    have hx := hitem i x List.mem_cons_self
    cases xs with
    | nil =>
      show Reads (item i x ++ last ++ s) (toks i x ++ ts)
      rw [List.append_assoc]
      exact hx _ _ hend hlast
    | cons y xs =>
      have hrest := ih (List.cons_ne_nil _ _) (i + 1) fun i x hx => hitem i x (List.mem_cons_of_mem _ hx)
      show Reads (item i x ++ sep ++ writeList item sep last (i + 1) (y :: xs) ++ s) _
      rw [joinTokens_cons _ _ _ _ (List.cons_ne_nil _ _), List.append_assoc, List.append_assoc, List.append_assoc]
      exact hx _ _ (hstop _) (hsep _ _ hrest)

/-- A text that begins with a byte that is in no name. -/
theorem stops_of_head {c : Byte} (hc : isNameChar c = false) (s : Str) : StopsAt isNameChar (c :: s) := by
  rintro _ ⟨rfl⟩
  exact hc

theorem stops_digit (h : StopsAt isNameChar s) : StopsAt isDigit s := by
  intro c hc
  have hall : ∀ c : Byte, isNameChar c = false → isDigit c = false := forall_byte (by decide +kernel)
  exact hall c (h c hc)

theorem reads_param (i : Nat) (hs : StopsAt isNameChar s) (h : Reads s ts) :
    Reads (str "?" ++ dec i ++ s) ([.param i] ++ ts) := by
  rw [List.append_assoc]
  exact h.param i (stops_digit hs)

theorem reads_equality (i : Nat) {c : Str} (hc : SqlName c) (hs : StopsAt isNameChar s) (h : Reads s ts) :
    Reads (equality i c ++ s) (equalityTokens i c ++ ts) := by
  have htext : equality i c ++ s = c ++ (('=' : Byte) :: ((' ' : Byte) :: (str "?" ++ (dec i ++ s)))) := by
    simp [equality, str]
  rw [htext]
  exact ((h.param i (stops_digit hs)).space.mark rfl).name hc (stops_of_head (by decide) _)

/-- `q += first + " LIKE '%' || ?" + bind_param + "|| '%'"` -/
def likeText (i : Nat) (c : Str) : Str := c ++ str " LIKE '%' || ?" ++ dec i ++ str "|| '%'"

theorem reads_like (i : Nat) {c : Str} (hc : SqlName c) (h : Reads s ts) :
    Reads (likeText i c ++ s) (likeTokens i c ++ ts) := by
  have hpercent : quote ∉ str "%" := by decide
  have hbehind : Reads (str "|| '%'" ++ s) (.concat :: .text (str "%") :: ts) := (h.text hpercent).space.concat
  have hparam := hbehind.param i (stops_digit (stops_of_head (by decide) _))
  have hfront : Reads (str " '%' || ?" ++ (dec i ++ (str "|| '%'" ++ s))) _ := (hparam.space.concat.space.text hpercent).space
  have hlike : Reads (str " LIKE '%' || ?" ++ (dec i ++ (str "|| '%'" ++ s))) _ :=
    (hfront.name (w := str "LIKE") (by decide +kernel) (stops_of_head (by decide) _)).space
  unfold likeText
  simp only [List.append_assoc]
  exact hlike.name hc (stops_of_head (by decide) _)

/-- The equalities of a `WHERE`, from the first on. -/
theorem reads_equalities {columns : List Str} (hc : columns ≠ []) (hnames : ∀ c ∈ columns, SqlName c) (i : Nat) :
    Reads (writeList equality " AND " ";" i columns) (joinTokens equalityTokens (.kw .AND) i columns ++ [.semicolon]) := by
  have h : Reads (writeList equality " AND " ";" i columns ++ [])
      (joinTokens equalityTokens (.kw .AND) i columns ++ [.semicolon]) :=
    reads_writeList hc i (fun i c hc s ts hs h => reads_equality i (hnames c hc) hs h)
      (fun s ts h => (Reads.keyword (e := (str "AND", .AND)) (by decide) (stops_of_head (by decide) _) h.space).space)
      (fun s => stops_of_head (by decide) _) (reads_nil.mark rfl) (stops_of_head (by decide) _)
  rwa [List.append_nil] at h

end Texts

/-! ## The statements -/

namespace Action

/-- The statement that is meant. -/
def stmt : Action → Stmt
  | insert table params => .insert table (params.map Prod.fst) (List.range' 1 params.length)
  | update table sets wheres =>
    .update table ((sets.map Prod.fst).zipIdx 1) ((wheres.map Prod.fst).zipIdx (sets.length + 1))
  | delete table wheres => .delete table ((wheres.map Prod.fst).zipIdx 1)
  | select table wheres => .select table ((wheres.map Prod.fst).zipIdx 1)
  | search table likes => .search table ((likes.map Prod.fst).zipIdx 1)

/-- A list that has to have a selector has one, with each column once. -/
def Proper : Action → Prop
  | update _ sets _ => sets ≠ []
  | insert _ params | delete _ params | select _ params | search _ params =>
    params ≠ [] ∧ (params.map Prod.fst).Nodup

/-- The selectors of the condition. -/
def conditions : Action → QueryParams
  | insert _ _ => []
  | update _ _ wheres => wheres
  | delete _ params | select _ params | search _ params => params

/-- The table and the columns have names of SQL, and those of the condition can be compared. -/
def Named (a : Action) : Prop :=
  SqlName a.table ∧ (∀ s ∈ a.selectors, SqlName s.1) ∧ ∀ s ∈ a.conditions, isOperand s.1 = true

instance (a : Action) : Decidable a.Named :=
  inferInstanceAs (Decidable (SqlName a.table ∧ (∀ s ∈ a.selectors, SqlName s.1) ∧ ∀ s ∈ a.conditions, isOperand s.1 = true))

end Action

section Parse
variable {table : Str} {columns : List Str}

theorem parse_insert (ht : SqlName table) (hc : columns ≠ []) (hnames : ∀ c ∈ columns, SqlName c) :
    parseSql (insertText table columns) = some (.insert table columns (List.range' 1 columns.length)) := by
  have hvalues : Reads (writeList (fun i _ => str "?" ++ dec i) "," ");" 1 columns)
      (joinTokens (fun i _ => [.param i]) .comma 1 columns ++ [.rparen, .semicolon]) := by
    have h : Reads (writeList (fun i _ => str "?" ++ dec i) "," ");" 1 columns ++ [])
        (joinTokens (fun i _ => [.param i]) .comma 1 columns ++ [.rparen, .semicolon]) :=
      reads_writeList hc 1 (fun i c hc s ts hs h => reads_param i hs h) (fun s ts h => h.mark rfl)
        (fun s => stops_of_head (by decide) _) ((reads_nil.mark rfl).mark rfl) (stops_of_head (by decide) _)
    rwa [List.append_nil] at h
  have hkeyword := Reads.keyword (e := (str "VALUES", .VALUES)) (by decide) (stops_of_head (by decide) _)
    (hvalues.mark (c := '(') rfl)
  have hcolumns : Reads (writeList (fun _ c => c) "," ") VALUES(" 1 columns ++
      writeList (fun i _ => str "?" ++ dec i) "," ");" 1 columns) (joinTokens (fun _ c => [.name c]) .comma 1 columns ++
        .rparen :: .kw .VALUES :: .lparen :: (joinTokens (fun i _ => [.param i]) .comma 1 columns ++ [.rparen, .semicolon])) :=
    reads_writeList hc 1 (fun i c hc s ts hs h => h.name (hnames c hc) hs) (fun s ts h => h.mark rfl)
      (fun s => stops_of_head (by decide) _) (hkeyword.space.mark rfl) (stops_of_head (by decide) _)
  have h := Reads.phrase [(str "INSERT", .INSERT), (str "INTO", .INTO)] (by decide)
    ((hcolumns.mark (c := '(') rfl).name ht (stops_of_head (by decide) _))
  have htext : insertText table columns = [(str "INSERT", Keyword.INSERT), (str "INTO", .INTO)].flatMap
      (fun e => e.1 ++ str " ") ++ (table ++ (('(' : Byte) :: (writeList (fun _ c => c) "," ") VALUES(" 1 columns ++
        writeList (fun i _ => str "?" ++ dec i) "," ");" 1 columns))) := by
    unfold insertText
    simp only [List.append_assoc]
    rfl
  have hparams : parseParams (joinTokens (fun i _ => [.param i]) .comma 1 columns ++ [.rparen, .semicolon]) =
      some (List.range' 1 columns.length, [.semicolon]) := parseParams_join hc 1 [.semicolon]
  rw [htext, h.parse]
  show ((parseNames _).bind _) = _
  rw [parseNames_join hc, Option.bind_some]
  show ((parseParams _).bind _) = _
  rw [hparams]
  rfl

theorem reads_where {lead : Str} (hlead : ∀ s ts, Reads s ts → Reads (lead ++ s) (.kw .WHERE :: ts)) (hc : columns ≠ [])
    (hnames : ∀ c ∈ columns, SqlName c) (i : Nat) :
    Reads (whereClause lead i columns) (.kw .WHERE :: (joinTokens equalityTokens (.kw .AND) i columns ++ [.semicolon])) := by
  unfold whereClause
  rw [if_neg hc]
  exact hlead _ _ (reads_equalities hc hnames i)

theorem reads_WHERE (s : Str) (ts : List Token) (h : Reads s ts) : Reads (str "WHERE " ++ s) (.kw .WHERE :: ts) :=
  Reads.phrase [(str "WHERE", .WHERE)] (by decide) h

theorem parseWhere_join (hc : columns ≠ []) (i : Nat) :
    parseWhere (.kw .WHERE :: (joinTokens equalityTokens (.kw .AND) i columns ++ [.semicolon])) =
      if columns.all isOperand then some (columns.zipIdx i, [.semicolon]) else none := by
  show compared (parseEqualities _ _) = _
  rw [parseEqualities_join hc i (by rintro _ ⟨rfl⟩; decide), compared_columns]

theorem parse_delete (ht : SqlName table) (hc : columns ≠ []) (hnames : ∀ c ∈ columns, SqlName c) :
    parseSql (deleteText table columns) =
      if columns.all isOperand then some (.delete table (columns.zipIdx 1)) else none := by
  have hwhere := (reads_where reads_WHERE hc hnames 1).space
  have h := Reads.phrase [(str "DELETE", .DELETE), (str "FROM", .FROM)] (by decide)
    (hwhere.name ht (stops_of_head (by decide) _))
  have htext : deleteText table columns = [(str "DELETE", Keyword.DELETE), (str "FROM", .FROM)].flatMap
      (fun e => e.1 ++ str " ") ++ (table ++ ((' ' : Byte) :: whereClause "WHERE " 1 columns)) := by
    unfold deleteText
    simp only [List.append_assoc]
    rfl
  rw [htext, h.parse]
  show ((parseWhere _).bind _) = _
  rw [parseWhere_join hc]
  cases columns.all isOperand <;> rfl

/-- A `SELECT` whose condition begins with an equality. -/
theorem parseTokens_select (hc : columns ≠ []) : parseTokens (.kw .SELECT :: .star :: .kw .FROM :: .name table :: .kw .WHERE ::
    (joinTokens equalityTokens (.kw .AND) 1 columns ++ [.semicolon])) =
      if columns.all isOperand then some (.select table (columns.zipIdx 1)) else none := by
  have hwhere := parseWhere_join hc 1
  have hread : parseTokens (.kw .SELECT :: .star :: .kw .FROM :: .name table :: .kw .WHERE ::
      (joinTokens equalityTokens (.kw .AND) 1 columns ++ [.semicolon])) =
        (parseWhere (.kw .WHERE :: (joinTokens equalityTokens (.kw .AND) 1 columns ++ [.semicolon]))).bind fun r =>
          parseEnd (.select table r.1) r.2 := by
    obtain ⟨c, cs, rfl⟩ := List.exists_cons_of_ne_nil hc
    cases cs <;> rfl
  rw [hread, hwhere]
  cases columns.all isOperand <;> rfl

/-- A `SELECT` whose condition begins with a pattern. -/
theorem parseTokens_search (hc : columns ≠ []) : parseTokens (.kw .SELECT :: .star :: .kw .FROM :: .name table :: .kw .WHERE ::
    (joinTokens likeTokens (.kw .OR) 1 columns ++ [.semicolon])) =
      if columns.all isOperand then some (.search table (columns.zipIdx 1)) else none := by
  have hlikes := parseLikes_join hc 1 (show ∀ t ∈ [Token.semicolon].head?, t ≠ .kw .OR by rintro _ ⟨rfl⟩; decide)
  have hread : parseTokens (.kw .SELECT :: .star :: .kw .FROM :: .name table :: .kw .WHERE ::
      (joinTokens likeTokens (.kw .OR) 1 columns ++ [.semicolon])) =
        (compared (parseLikes (joinTokens likeTokens (.kw .OR) 1 columns ++ [.semicolon]))).bind fun r =>
          parseEnd (.search table r.1) r.2 := by
    obtain ⟨c, cs, rfl⟩ := List.exists_cons_of_ne_nil hc
    cases cs <;> rfl
  rw [hread, hlikes, compared_columns]
  cases columns.all isOperand <;> rfl

theorem parse_select (ht : SqlName table) (hc : columns ≠ []) (hnames : ∀ c ∈ columns, SqlName c) :
    parseSql (selectText table columns) =
      if columns.all isOperand then some (.select table (columns.zipIdx 1)) else none := by
  have hwhere := (reads_where reads_WHERE hc hnames 1).space
  have hfrom := Reads.phrase [(str "FROM", .FROM)] (by decide) (hwhere.name ht (stops_of_head (by decide) _))
  have h := Reads.phrase [(str "SELECT", .SELECT)] (by decide) (hfrom.space.mark (c := '*') rfl)
  have htext : selectText table columns = [(str "SELECT", Keyword.SELECT)].flatMap (fun e => e.1 ++ str " ") ++
      (('*' : Byte) :: ((' ' : Byte) :: ([(str "FROM", Keyword.FROM)].flatMap (fun e => e.1 ++ str " ") ++
        (table ++ ((' ' : Byte) :: whereClause "WHERE " 1 columns))))) := by
    unfold selectText
    simp only [List.append_assoc]
    rfl
  rw [htext, h.parse]
  exact parseTokens_select hc

theorem parse_search (ht : SqlName table) (hc : columns ≠ []) (hnames : ∀ c ∈ columns, SqlName c) :
    parseSql (searchText table columns) =
      if columns.all isOperand then some (.search table (columns.zipIdx 1)) else none := by
  have hlikes : Reads (writeList likeText " OR " ";" 1 columns) (joinTokens likeTokens (.kw .OR) 1 columns ++ [.semicolon]) := by
    have h : Reads (writeList likeText " OR " ";" 1 columns ++ [])
        (joinTokens likeTokens (.kw .OR) 1 columns ++ [.semicolon]) :=
      reads_writeList hc 1 (fun i c hc s ts _ h => reads_like i (hnames c hc) h)
        (fun s ts h => (Reads.keyword (e := (str "OR", .OR)) (by decide) (stops_of_head (by decide) _) h.space).space)
        (fun s => stops_of_head (by decide) _) (reads_nil.mark rfl) (stops_of_head (by decide) _)
    rwa [List.append_nil] at h
  have hfrom := Reads.phrase [(str "FROM", .FROM)] (by decide)
    ((reads_WHERE _ _ hlikes).space.name ht (stops_of_head (by decide) _))
  have h := Reads.phrase [(str "SELECT", .SELECT)] (by decide) (hfrom.space.mark (c := '*') rfl)
  have htext : searchText table columns = [(str "SELECT", Keyword.SELECT)].flatMap (fun e => e.1 ++ str " ") ++
      (('*' : Byte) :: ((' ' : Byte) :: ([(str "FROM", Keyword.FROM)].flatMap (fun e => e.1 ++ str " ") ++
        (table ++ ((' ' : Byte) :: (str "WHERE " ++ writeList likeText " OR " ";" 1 columns)))))) := by
    have hitems : searchText table columns = str "SELECT * FROM " ++ table ++ str " " ++
        (str "WHERE " ++ writeList likeText " OR " ";" 1 columns) := by
      unfold searchText
      rw [if_neg hc]
      rfl
    rw [hitems]
    simp only [List.append_assoc]
    rfl
  rw [htext, h.parse]
  exact parseTokens_search hc

theorem parse_update {wheres : List Str} (ht : SqlName table) (hc : columns ≠ []) (hnames : ∀ c ∈ columns, SqlName c)
    (hwheres : ∀ c ∈ wheres, SqlName c) :
    parseSql (updateText table columns wheres) =
      if wheres.all isOperand then some (.update table (columns.zipIdx 1) (wheres.zipIdx (columns.length + 1))) else none := by
  have hstop : StopsAt isNameChar (whereClause " WHERE " (columns.length + 1) wheres) := by
    unfold whereClause
    split_ifs with hw
    · rintro _ ⟨⟩
    · exact stops_of_head (by decide) _
  -- however the condition is read
  have hread : ∀ ts, Reads (whereClause " WHERE " (columns.length + 1) wheres) ts →
      parseSql (updateText table columns wheres) =
        parseTokens (.kw .UPDATE :: .name table :: .kw .SET :: (joinTokens equalityTokens .comma 1 columns ++ ts)) := by
    intro ts hts
    have hsets : Reads (writeList equality "," [] 1 columns ++ whereClause " WHERE " (columns.length + 1) wheres)
        (joinTokens equalityTokens .comma 1 columns ++ ts) :=
      reads_writeList hc 1 (fun i c hc s ts hs h => reads_equality i (hnames c hc) hs h) (fun s ts h => h.mark rfl)
        (fun s => stops_of_head (by decide) _) hts hstop
    have hset := Reads.phrase [(str "SET", .SET)] (by decide) hsets
    have h := Reads.phrase [(str "UPDATE", .UPDATE)] (by decide) (hset.space.name ht (stops_of_head (by decide) _))
    have htext : updateText table columns wheres = [(str "UPDATE", Keyword.UPDATE)].flatMap (fun e => e.1 ++ str " ") ++
        (table ++ ((' ' : Byte) :: ([(str "SET", Keyword.SET)].flatMap (fun e => e.1 ++ str " ") ++
          (writeList equality "," [] 1 columns ++ whereClause " WHERE " (columns.length + 1) wheres)))) := by
      unfold updateText
      simp only [List.append_assoc]
      rfl
    rw [htext, h.parse]
    rfl
  by_cases hw : wheres = []
  · subst hw
    rw [hread [] reads_nil]
    show (parseEqualities _ _).bind _ = _
    rw [parseEqualities_join hc 1 (by rintro _ ⟨⟩)]
    rfl
  · rw [hread _ (reads_where (fun s ts h => (reads_WHERE s ts h).space) hw hwheres _)]
    show (parseEqualities _ _).bind _ = _
    rw [parseEqualities_join hc 1 (by rintro _ ⟨rfl⟩; decide), Option.bind_some]
    show (parseWhere _).bind _ = _
    rw [parseWhere_join hw]
    cases wheres.all isOperand <;> rfl

end Parse

/-- With names of SQL, a method's text is the statement that is meant if each column of
its condition can be compared, and no statement otherwise. -/
theorem Action.parse {a : Action} (hp : a.Proper) (ht : SqlName a.table) (hnames : ∀ s ∈ a.selectors, SqlName s.1) :
    parseSql a.text = if (a.conditions.map Prod.fst).all isOperand then some a.stmt else none := by
  have columns : ∀ {params : QueryParams}, (∀ s ∈ params, SqlName s.1) → ∀ c ∈ params.map Prod.fst, SqlName c := by
    intro params h c hc
    obtain ⟨s, hs, rfl⟩ := List.mem_map.1 hc
    exact h s hs
  have nonempty : ∀ {params : QueryParams}, params ≠ [] → params.map Prod.fst ≠ [] := by
    intro params h hm
    exact h (List.map_eq_nil_iff.1 hm)
  cases a with
  | insert table params =>
    have h := parse_insert ht (nonempty hp.1) (columns hnames)
    rwa [List.length_map] at h
  | update table sets wheres =>
    have h := parse_update ht (nonempty hp) (columns fun s hs => hnames s (List.mem_append_left _ hs))
      (columns fun s hs => hnames s (List.mem_append_right _ hs))
    rwa [List.length_map] at h
  | delete table wheres => exact parse_delete ht (nonempty hp.1) (columns hnames)
  | select table wheres => exact parse_select ht (nonempty hp.1) (columns hnames)
  | search table likes => exact parse_search ht (nonempty hp.1) (columns hnames)

/-- The selectors' columns, each with its place from 1 on. -/
theorem Action.stmt_beside (a : Action) : a.stmt.beside = (a.selectors.map Prod.fst).zipIdx 1 := by
  cases a with
  | insert table params =>
    show (params.map Prod.fst).zip (List.range' 1 params.length) = _
    rw [List.zipIdx_eq_zip_range', List.length_map]
    rfl
  | update table sets wheres =>
    show (sets.map Prod.fst).zipIdx 1 ++ (wheres.map Prod.fst).zipIdx (sets.length + 1) = _
    unfold selectors
    rw [List.map_append, List.zipIdx_append, List.length_map, Nat.add_comm]
  | delete | select | search => rfl

theorem Action.stmt_placeholders (a : Action) : a.stmt.placeholders = List.range' 1 a.selectors.length := by
  have hsnd : a.stmt.beside.map Prod.snd = List.range' 1 a.selectors.length := by
    rw [a.stmt_beside, List.zipIdx_map_snd, List.length_map]
  cases a with
  | insert => rfl
  | update | delete | select | search => exact hsnd

end GittyUp.SqlLib
