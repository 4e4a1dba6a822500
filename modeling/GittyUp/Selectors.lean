import GittyUp.Statements
import Mathlib.Data.List.Forall2
/-!
# What the statements do

The effect that a method of `src/sql_lib.cc` is asked for, in terms of its selectors.
`agrees_iff`: a method's statement and its bindings agree on that effect just when the
names are names of SQL and no value has a NUL in it.
-/
open Lib Lib.Sql

namespace GittyUp.SqlLib

/-! ## The meaning of the selectors -/

section Meaning
variable (t : Table) (selectors : QueryParams)

/-- The text in a column of a row. -/
def cell (c : Str) (row : Row) : Option Str := (t.index c).bind (row[·]?)

/-- The table has the columns. -/
def Known : Prop := ∀ s ∈ selectors, (t.index s.1).isSome

/-- Every column has the value beside it. -/
def satisfies (row : Row) : Bool := selectors.all fun s => cell t s.1 row = some s.2

/-- A column has the value in it, as a pattern. -/
def satisfiesLike (like : Str → Str → Bool) (row : Row) : Bool :=
  selectors.any fun s => (cell t s.1 row).any (like (str "%" ++ s.2 ++ str "%"))

def setCell (row : Row) (s : Str × Str) : Row :=
  match t.index s.1 with
  | some k => row.set k s.2
  | none => row

def setCells (row : Row) : Row := selectors.foldl (setCell t) row

/-- The key is among the columns. -/
def namesKey : Bool := t.keyIndex.any fun k => selectors.any fun s => t.index s.1 = some k

end Meaning

/-- What is asked for, of a database with the table and the columns. -/
def Action.Effect (like : Str → Str → Bool) (db : Db) (r : Reply) (db' : Db) : Action → Prop
  | insert table params => ∀ t row, db.lookup table = some t → Known t params →
      t.columns.mapM (fun c => params.lookup c.1) = some row →
        (t.clashes row → r = ⟨[], false⟩ ∧ db' = db) ∧
        (¬ t.clashes row → r = ⟨[], true⟩ ∧ db' = put db table { t with rows := t.rows ++ [row] })
  | update table sets wheres => ∀ t t', db.lookup table = some t → Known t sets → Known t wheres →
      t' = { t with rows := t.rows.map fun row => if satisfies t wheres row then setCells t sets row else row } →
        if namesKey t sets ∧ ¬ t'.keyed then r = ⟨[], false⟩ ∧ db' = db else r = ⟨[], true⟩ ∧ db' = put db table t'
  | delete table wheres => ∀ t, db.lookup table = some t → Known t wheres →
      r = ⟨[], true⟩ ∧ db' = put db table { t with rows := t.rows.filter fun row => !satisfies t wheres row }
  | select table wheres => ∀ t, db.lookup table = some t → Known t wheres →
      r.rows.Perm (t.rows.filter (satisfies t wheres)) ∧ r.done = true ∧ db' = db
  | search table likes => ∀ t, db.lookup table = some t → Known t likes →
      r.rows.Perm (t.rows.filter (satisfiesLike t likes like)) ∧ r.done = true ∧ db' = db

/-! ## Positions for columns -/

section Resolved
variable {t : Table} {b : Binds} {selectors : QueryParams} {es : List (Nat × Str)}

/-- The positions of the columns, with the selectors' values. -/
def Resolved (t : Table) (selectors : QueryParams) (es : List (Nat × Str)) : Prop :=
  List.Forall₂ (fun s e => t.index s.1 = some e.1 ∧ e.2 = s.2) selectors es

/-- From parameter `i` on, each has the value of its selector. -/
def Bound (b : Binds) (i : Nat) (selectors : QueryParams) : Prop :=
  ∀ j s, selectors[j]? = some s → b.lookup (i + j) = some s.2

theorem Bound.tail {i : Nat} {s : Str × Str} (h : Bound b i (s :: selectors)) : Bound b (i + 1) selectors := by
  intro j s' hs
  have := h (j + 1) s' hs
  rwa [Nat.add_assoc, Nat.add_comm 1 j]

theorem Bound.left {i : Nat} {others : QueryParams} (h : Bound b i (selectors ++ others)) : Bound b i selectors := by
  intro j s hs
  exact h j s (by rw [List.getElem?_append_left (List.getElem?_eq_some_iff.1 hs).1, hs])

theorem Bound.right {i : Nat} {others : QueryParams} (h : Bound b i (others ++ selectors)) :
    Bound b (i + others.length) selectors := by
  intro j s hs
  rw [Nat.add_assoc]
  exact h (others.length + j) s (by rw [List.getElem?_append_right (by omega), Nat.add_sub_cancel_left, hs])

theorem resolve_selectors {i : Nat} (hb : Bound b i selectors) (hk : Known t selectors) :
    ∃ es, t.resolve b ((selectors.map Prod.fst).zipIdx i) = some es ∧ Resolved t selectors es := by
  induction selectors generalizing i with
  | nil => exact ⟨[], rfl, .nil⟩
  | cons s selectors ih =>
    obtain ⟨es, hes, hr⟩ := ih hb.tail fun s hs => hk s (List.mem_cons_of_mem _ hs)
    obtain ⟨k, hindex⟩ := Option.isSome_iff_exists.1 (hk s List.mem_cons_self)
    refine ⟨(k, s.2) :: es, ?_, .cons ⟨hindex, rfl⟩ hr⟩
    unfold Table.resolve at hes ⊢
    rw [List.map_cons, List.zipIdx_cons, List.mapM_cons, hes, hindex, show b.lookup i = some s.2 from hb 0 s rfl]
    rfl

theorem picks_eq (h : Resolved t selectors es) (row : Row) : picks es row = satisfies t selectors row := by
  induction h with
  | nil => rfl
  | @cons s e selectors es he _ ih =>
    show (decide (row[e.1]? = some e.2) && picks es row) = (decide (cell t s.1 row = some s.2) && satisfies t selectors row)
    unfold cell
    rw [ih, he.1, he.2]
    rfl

theorem picksLike_eq (like : Str → Str → Bool) (h : Resolved t selectors es) (row : Row) :
    picksLike like es row = satisfiesLike t selectors like row := by
  induction h with
  | nil => rfl
  | @cons s e selectors es he _ ih =>
    show (row[e.1]?.any (like (str "%" ++ e.2 ++ str "%")) || picksLike like es row) =
      ((cell t s.1 row).any (like (str "%" ++ s.2 ++ str "%")) || satisfiesLike t selectors like row)
    unfold cell
    rw [ih, he.1, he.2]
    rfl

theorem assign_eq (h : Resolved t selectors es) (row : Row) : assign es row = setCells t selectors row := by
  induction h generalizing row with
  | nil => rfl
  | cons he _ ih =>
    show assign _ (row.set _ _) = setCells t _ (setCell t row _)
    rw [ih]
    unfold setCell
    rw [he.1, he.2]

theorem setsKey_eq (h : Resolved t selectors es) : t.setsKey es = namesKey t selectors := by
  unfold Table.setsKey namesKey
  cases t.keyIndex with
  | none => rfl
  | some k =>
    show decide (k ∈ es.map Prod.fst) = selectors.any fun s => t.index s.1 = some k
    induction h with
    | nil => rfl
    | cons he _ ih =>
      rw [List.any_cons, ← ih, he.1, List.map_cons, Bool.eq_iff_iff]
      simp only [List.mem_cons, Bool.or_eq_true, decide_eq_true_eq, Option.some.injEq, @eq_comm _ k]

/-- The value beside a column. -/
theorem lookup_param {i : Nat} (hb : Bound b i selectors) (c : Str) :
    (((selectors.map Prod.fst).zip (List.range' i selectors.length)).lookup c).bind (fun n => b.lookup n) =
      selectors.lookup c := by
  induction selectors generalizing i with
  | nil => rfl
  | cons s selectors ih =>
    obtain ⟨c', v⟩ := s
    show (((c', i) :: (selectors.map Prod.fst).zip (List.range' (i + 1) selectors.length)).lookup c).bind _ = _
    rw [List.lookup_cons, List.lookup_cons]
    cases c == c' with
    | true => exact hb 0 _ rfl
    | false => exact ih hb.tail

theorem newRow_eq (hb : Bound b 1 selectors) (hk : Known t selectors) :
    t.newRow b (selectors.map Prod.fst) (List.range' 1 selectors.length) =
      t.columns.mapM fun c => selectors.lookup c.1 := by
  have hall : ((selectors.map Prod.fst).all fun c => (t.index c).isSome) = true := by
    rw [List.all_map, List.all_eq_true]
    exact hk
  unfold Table.newRow
  rw [if_pos hall]
  congr 1
  funext c
  exact lookup_param hb c.1

end Resolved

/-! ## The bindings -/

theorem lookup_bindTexts (values : List Str) (j : Nat) : (bindTexts values).lookup (1 + j) = values[j]?.map cStr := by
  have from_i : ∀ i j, ((values.zipIdx i).map fun v => (v.2, cStr v.1)).lookup (i + j) = values[j]?.map cStr := by
    induction values with
    | nil => exact fun _ _ => rfl
    | cons v values ih =>
      intro i j
      rw [List.zipIdx_cons, List.map_cons, List.lookup_cons]
      cases j with
      | zero =>
        rw [Nat.add_zero, beq_self_eq_true]
        rfl
      | succ j =>
        rw [beq_eq_false_iff_ne.2 (by simp), ← Nat.add_assoc, Nat.add_right_comm]
        exact ih (i + 1) j
  exact from_i 1 j

/-- The values are bound as they are if they have no NUL. -/
theorem bound_iff (selectors : QueryParams) :
    Bound (bindTexts (selectors.map Prod.snd)) 1 selectors ↔ ∀ s ∈ selectors, ∀ c ∈ s.2, c ≠ 0 := by
  constructor
  · intro h s hs
    obtain ⟨j, hj⟩ := List.mem_iff_getElem?.1 hs
    have hb := h j s hj
    rw [lookup_bindTexts, List.getElem?_map, hj] at hb
    have he : cStr s.2 = s.2 := Option.some.inj hb
    rw [← he]
    exact noNul_cStr s.2
  · intro h j s hs
    rw [lookup_bindTexts, List.getElem?_map, hs]
    exact congrArg some (cStr_of_noNul (h s (List.mem_of_getElem? hs)))

/-- What is documented of the statement is what is asked for. -/
theorem Action.effect {a : Action} {b : Binds} (hb : Bound b 1 a.selectors) {like : Str → Str → Bool} {db db' : Db}
    {r : Reply} (h : Exec like a.stmt b db r db') : a.Effect like db r db' := by
  cases a with
  | insert table params =>
    intro t row ht hk hrow
    exact h t row ht (by rw [List.length_map, List.length_range']) ((newRow_eq hb hk).trans hrow)
  | update table sets wheres =>
    rintro t t' ht hks hkw rfl
    obtain ⟨ss, hss, hrs⟩ := resolve_selectors hb.left hks
    obtain ⟨ws, hws, hrw⟩ := resolve_selectors hb.right hkw
    rw [Nat.add_comm] at hws
    have hupdated : t.updated ss ws =
        { t with rows := t.rows.map fun row => if satisfies t wheres row then setCells t sets row else row } := by
      unfold Table.updated
      congr 2
      funext row
      rw [picks_eq hrw, assign_eq hrs]
    have h := h t ss ws ht hss hws
    rwa [setsKey_eq hrs, hupdated] at h
  | delete table wheres =>
    intro t ht hk
    obtain ⟨ws, hws, hr⟩ := resolve_selectors hb hk
    have hpicks : picks ws = satisfies t wheres := funext (picks_eq hr)
    have h := h t ws ht hws
    rwa [hpicks] at h
  | select table wheres =>
    intro t ht hk
    obtain ⟨ws, hws, hr⟩ := resolve_selectors hb hk
    have hpicks : picks ws = satisfies t wheres := funext (picks_eq hr)
    have h := h t ws ht hws
    rwa [hpicks] at h
  | search table likes =>
    intro t ht hk
    obtain ⟨es, hes, hr⟩ := resolve_selectors hb hk
    have hpicks : picksLike like es = satisfiesLike t likes like := funext (picksLike_eq like hr)
    have h := h t es ht hes
    rwa [hpicks] at h

/-! ## Agreement -/

/-- The text and the bindings of a method agree. -/
structure Action.Agrees (a : Action) : Prop where
  called : a.first = some (.run a.text (bindTexts a.values))
  /-- One statement about the table, with the parameters `?1` to `?k`, each beside the column of its selector. -/
  written : ∃ stmt, parseSql a.text = some stmt ∧ stmt.needs = some a.table ∧
    stmt.placeholders = List.range' 1 a.selectors.length ∧ stmt.beside = (a.selectors.map Prod.fst).zipIdx 1
  /-- Each parameter has the value of its selector. -/
  bound : Bound (bindTexts a.values) 1 a.selectors
  effect : ∀ like engine, Documented like engine → ∀ db r db', engine db (.run a.text (bindTexts a.values)) r db' →
    a.Effect like db r db'

theorem operands_iff (a : Action) :
    (a.conditions.map Prod.fst).all isOperand = true ↔ ∀ s ∈ a.conditions, isOperand s.1 = true := by
  rw [List.all_map, List.all_eq_true]
  rfl

theorem agrees_iff (a : Action) (h : a.Proper) : a.Agrees ↔ a.Named ∧ ∀ s ∈ a.selectors, ∀ c ∈ s.2, c ≠ 0 := by
  constructor
  · intro ha
    obtain ⟨stmt, hparse, hneeds, -, hbeside⟩ := ha.written
    obtain ⟨htable, hcolumns⟩ := parseSql_names hparse
    have hnames : ∀ s ∈ a.selectors, SqlName s.1 := by
      intro s hs
      have hmem : s.1 ∈ (stmt.beside.map Prod.fst) := by
        rw [hbeside, List.zipIdx_map_fst]
        exact List.mem_map_of_mem hs
      obtain ⟨e, he, hes⟩ := List.mem_map.1 hmem
      rw [← hes]
      exact hcolumns e he
    rw [Action.parse h (htable _ hneeds) hnames] at hparse
    split_ifs at hparse with hoperands
    exact ⟨⟨htable _ hneeds, hnames, (operands_iff a).1 hoperands⟩, (bound_iff _).1 ha.bound⟩
  · rintro ⟨⟨ht, hnames, hoperands⟩, hvalues⟩
    have hparse : parseSql a.text = some a.stmt := by
      rw [Action.parse h ht hnames, if_pos ((operands_iff a).2 hoperands)]
    have hb : Bound (bindTexts a.values) 1 a.selectors := (bound_iff _).2 hvalues
    have hneeds : a.stmt.needs = some a.table := by cases a <;> rfl
    exact ⟨a.first_run, ⟨a.stmt, hparse, hneeds, a.stmt_placeholders, a.stmt_beside⟩, hb,
      fun like engine hd db r db' hc => Action.effect hb (hd.run hparse hc)⟩

theorem agrees_update :
    (Action.update "plan" [("view", "y = x; --"), ("action", "2")] [("key", "1")]).Agrees := by
  have hproper : (Action.update "plan" [("view", "y = x; --"), ("action", "2")] [("key", "1")]).Proper :=
    List.cons_ne_nil _ _
  exact (agrees_iff _ hproper).2 ⟨by decide +kernel, by decide +kernel⟩

/-- A value is bound up to its first NUL: the row of another `id` is deleted. -/
theorem deletes_other : let a := Action.delete "meme_table" [("id", "1\x00x")]
    let t : Table := ⟨[("id", true), ("top_caption", false)], [["1", "hello"]]⟩
    a.Proper ∧ a.Named ∧ ¬ a.Agrees ∧ t.rows.filter (satisfies t a.selectors) = [] ∧
    ((textEngine (fun _ _ => false) [("meme_table", t)] (.run a.text (bindTexts a.values))).2.lookup (str "meme_table")).map
      Table.rows = some [] := by
  intro a t
  refine ⟨⟨List.cons_ne_nil _ _, by decide⟩, by decide +kernel, fun h => ?_, by decide +kernel, by decide +kernel⟩
  exact absurd (h.bound 0 _ rfl) (by decide +kernel)

end GittyUp.SqlLib
