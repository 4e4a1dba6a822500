import GittyUp.Lib.Prefix
import GittyUp.Lib.Sql
/-!
# Texts of SQL statements

What is written token by token is read token by token (`Reads`), and a list that is
written with a separator is read as that list. `parseSql_names`: the names in a
statement that was read are names of SQL.
-/
open Lib

namespace Lib.Sql

/-! ## Names -/

/-- A name that can stand in a statement as it is. -/
structure SqlName (w : Str) : Prop where
  ne_nil : w ≠ []
  start : ∀ c ∈ w.head?, isNameStart c = true
  chars : ∀ c ∈ w, isNameChar c = true
  unmarked : ¬ byteOrderMark <+: w
  free : isReserved w = false

instance (w : Str) : Decidable (SqlName w) :=
  decidable_of_iff
    (w ≠ [] ∧ (∀ c ∈ w.head?, isNameStart c = true) ∧ (∀ c ∈ w, isNameChar c = true) ∧ ¬ byteOrderMark <+: w ∧
      isReserved w = false)
    ⟨fun ⟨h₁, h₂, h₃, h₄, h₅⟩ => ⟨h₁, h₂, h₃, h₄, h₅⟩, fun ⟨h₁, h₂, h₃, h₄, h₅⟩ => ⟨h₁, h₂, h₃, h₄, h₅⟩⟩

theorem SqlName.token {w : Str} (h : SqlName w) : wordToken w = some (.name w) := by
  have hk : keywords.lookup w = none := by
    cases hl : keywords.lookup w with
    | none => rfl
    | some k =>
      have hall : ∀ e ∈ keywords, isReserved e.1 = true := by decide +kernel
      exact absurd (hall _ (mem_of_lookup hl)) (by simp [h.free])
  unfold wordToken
  rw [hk]
  exact if_neg (by simp [h.free])

theorem wordToken_name {w v : Str} (h : wordToken w = some (.name v)) : v = w ∧ isReserved w = false := by
  unfold wordToken at h
  split at h
  · cases h
  · split_ifs at h with hr
    cases h
    exact ⟨rfl, by simpa using hr⟩

theorem isNameStart_cases {c : Byte} (h : isNameStart c = true) : isSpace c = false ∧ isNameChar c = true := by
  have hall : ∀ c : Byte, isNameStart c = true → isSpace c = false ∧ isNameChar c = true := forall_byte (by decide +kernel)
  exact hall c h

/-! ## Tokens -/

/-- The text is read as these tokens. -/
def Reads (s : Str) (ts : List Token) : Prop := ∀ fuel, s.length < fuel → lex fuel s = some ts

section Reads
variable {s : Str} {ts : List Token}

theorem reads_nil : Reads [] [] := by
  intro fuel hf
  cases fuel with
  | zero => cases hf
  | succ fuel => exact lex_nil fuel

theorem Reads.space (h : Reads s ts) : Reads (' ' :: s) ts := by
  intro fuel hf
  cases fuel with
  | zero => cases hf
  | succ fuel =>
    rw [lex.eq_def]
    dsimp only
    rw [if_pos (by decide)]
    exact h fuel (Nat.lt_of_succ_lt_succ hf)

/-- The bytes of a mark go on a name, so a word that has none begins none. -/
theorem unmarked_append {w : Str} (hmark : ¬ byteOrderMark <+: w) (hs : StopsAt isNameChar s) :
    ¬ byteOrderMark <+: w ++ s := by
  intro h
  rcases Nat.lt_or_ge w.length byteOrderMark.length with hlt | hge
  · -- the mark goes on behind the word
    obtain ⟨rest, hrest⟩ := List.prefix_of_prefix_length_le (List.prefix_append w s) h hlt.le
    obtain ⟨c, rest, rfl⟩ : ∃ c cs, rest = c :: cs := List.exists_cons_of_ne_nil (by
      rintro rfl
      rw [List.append_nil] at hrest
      rw [hrest] at hlt
      exact absurd hlt (lt_irrefl _))
    have hall : ∀ c ∈ byteOrderMark, isNameChar c = true := by decide
    have hc : isNameChar c = true := hall c (by rw [← hrest]; simp)
    obtain ⟨more, hmore⟩ := h
    rw [← hrest, List.append_assoc, List.append_cancel_left_eq, List.cons_append] at hmore
    have hno := hs c (by rw [← hmore]; rfl)
    exact Bool.noConfusion (hno.symm.trans hc)
  · exact hmark (List.prefix_of_prefix_length_le h (List.prefix_append w s) hge)

theorem Reads.word {w : Str} {t : Token} (hw : w ≠ []) (hstart : ∀ c ∈ w.head?, isNameStart c = true)
    (hchars : ∀ c ∈ w, isNameChar c = true) (hmark : ¬ byteOrderMark <+: w) (ht : wordToken w = some t)
    (hs : StopsAt isNameChar s) (h : Reads s ts) : Reads (w ++ s) (t :: ts) := by
  intro fuel hf
  have hunmarked := unmarked_append hmark hs
  obtain ⟨c, w, rfl⟩ := List.exists_cons_of_ne_nil hw
  cases fuel with
  | zero => cases hf
  | succ fuel =>
    have hc : isNameStart c = true := hstart c rfl
    have hspace : isSpace c = false := (isNameStart_cases hc).1
    have hlen : s.length < fuel := by
      rw [List.length_append, List.length_cons] at hf
      omega
    rw [List.cons_append] at hunmarked
    rw [List.cons_append, lex.eq_def]
    dsimp only
    rw [if_neg (by simp [hspace]), if_pos hc, if_neg hunmarked, ← List.cons_append, takeWhile_run hchars hs,
      dropWhile_run hchars hs, ht, h fuel hlen]
    rfl

theorem Reads.name {w : Str} (hw : SqlName w) (hs : StopsAt isNameChar s) (h : Reads s ts) :
    Reads (w ++ s) (.name w :: ts) :=
  h.word hw.ne_nil hw.start hw.chars hw.unmarked hw.token hs

theorem Reads.param (n : Nat) (hs : StopsAt isDigit s) (h : Reads s ts) : Reads (str "?" ++ (dec n ++ s)) (.param n :: ts) := by
  intro fuel hf
  cases fuel with
  | zero => cases hf
  | succ fuel =>
    have hlen : s.length < fuel := by
      simp only [List.length_append] at hf
      have : (str "?").length = 1 := rfl
      omega
    show lex (fuel + 1) (('?' : Byte) :: (dec n ++ s)) = _
    rw [lex.eq_def]
    dsimp only
    rw [if_neg (by decide), if_neg (by decide), if_pos rfl, takeWhile_run (dec_digits n) hs,
      dropWhile_run (dec_digits n) hs, if_neg (dec_ne_nil n), digitsVal_dec, h fuel hlen]
    rfl

theorem Reads.mark {c : Byte} {t : Token} (ht : punctuation c = some t) (h : Reads s ts) : Reads (c :: s) (t :: ts) := by
  have hall : ∀ c : Byte, (punctuation c).isSome → isSpace c = false ∧ isNameStart c = false ∧ c ≠ '?' ∧ c ≠ quote ∧ c ≠ '|' :=
    forall_byte (by decide +kernel)
  obtain ⟨h₁, h₂, h₃, h₄, h₅⟩ := hall c (by rw [ht]; rfl)
  intro fuel hf
  cases fuel with
  | zero => cases hf
  | succ fuel =>
    rw [lex.eq_def]
    dsimp only
    rw [if_neg (by simp [h₁]), if_neg (by simp [h₂]), if_neg h₃, if_neg h₄, if_neg h₅, ht,
      h fuel (Nat.lt_of_succ_lt_succ hf)]
    rfl

theorem Reads.text {p : Str} (hp : quote ∉ p) (h : Reads s ts) : Reads (quote :: (p ++ quote :: s)) (.text p :: ts) := by
  have hrun : ∀ c ∈ p, decide (c ≠ quote) = true := by
    intro c hc
    exact decide_eq_true fun he => hp (he ▸ hc)
  have hstop : StopsAt (fun c => decide (c ≠ quote)) (quote :: s) := by
    rintro _ ⟨rfl⟩
    simp
  intro fuel hf
  cases fuel with
  | zero => cases hf
  | succ fuel =>
    have hlen : s.length < fuel := by
      simp only [List.length_cons, List.length_append] at hf
      omega
    rw [lex.eq_def]
    dsimp only
    rw [if_neg (by decide), if_neg (by decide), if_neg (by decide), if_pos rfl, takeWhile_run hrun hstop,
      dropWhile_run hrun hstop]
    dsimp only
    rw [h fuel hlen]
    rfl

theorem Reads.concat (h : Reads s ts) : Reads (str "||" ++ s) (.concat :: ts) := by
  intro fuel hf
  cases fuel with
  | zero => cases hf
  | succ fuel =>
    have hlen : s.length < fuel := by
      rw [List.length_append, show (str "||").length = 2 from rfl] at hf
      omega
    show lex (fuel + 1) (('|' : Byte) :: ('|' : Byte) :: s) = _
    rw [lex.eq_def]
    dsimp only
    rw [if_neg (by decide), if_neg (by decide), if_neg (by decide), if_neg (by decide), if_pos rfl, if_pos rfl,
      h fuel hlen]
    rfl

theorem Reads.keyword {e : Str × Keyword} (he : e ∈ keywords) (hs : StopsAt isNameChar s) (h : Reads s ts) :
    Reads (e.1 ++ s) (.kw e.2 :: ts) := by
  have hall : ∀ e ∈ keywords, e.1 ≠ [] ∧ (∀ c ∈ e.1.head?, isNameStart c = true) ∧ (∀ c ∈ e.1, isNameChar c = true) ∧
      ¬ byteOrderMark <+: e.1 ∧ wordToken e.1 = some (.kw e.2) := by decide +kernel
  obtain ⟨hne, hstart, hchars, hmark, ht⟩ := hall e he
  exact h.word hne hstart hchars hmark ht hs

/-- Keywords with a space behind each. -/
theorem Reads.phrase (ks : List (Str × Keyword)) (hks : ∀ e ∈ ks, e ∈ keywords) (h : Reads s ts) :
    Reads (ks.flatMap (fun e => e.1 ++ str " ") ++ s) (ks.map (fun e => .kw e.2) ++ ts) := by
  induction ks with
  | nil => exact h
  | cons e ks ih =>
    have hstop : ∀ t : Str, StopsAt isNameChar (str " " ++ t) := by
      rintro t _ ⟨rfl⟩
      decide
    have hrest := ih fun e he => hks e (List.mem_cons_of_mem _ he)
    rw [List.flatMap_cons, List.append_assoc, List.append_assoc]
    exact Reads.keyword (hks e List.mem_cons_self) (hstop _) hrest.space

theorem Reads.parse (h : Reads s ts) : parseSql s = parseTokens ts := by
  unfold parseSql
  rw [h _ (Nat.lt_succ_self _), Option.bind_some]

end Reads

/-! ## Lists -/

section Lists
variable {α : Type}

/-- The tokens of a list: of each item with its position from `i` on, and `sep` between two. -/
def joinTokens (item : Nat → α → List Token) (sep : Token) : Nat → List α → List Token
  | _, [] => []
  | i, [x] => item i x
  | i, x :: xs => item i x ++ sep :: joinTokens item sep (i + 1) xs

theorem joinTokens_cons (item : Nat → α → List Token) (sep : Token) (i : Nat) (x : α) {xs : List α} (h : xs ≠ []) :
    joinTokens item sep i (x :: xs) = item i x ++ sep :: joinTokens item sep (i + 1) xs := by
  obtain ⟨y, xs, rfl⟩ := List.exists_cons_of_ne_nil h
  rfl

/-- By the items of a list that is not empty: the last one, and one in front of others. -/
theorem list_induction {P : Nat → List α → Prop} (single : ∀ i x, P i [x])
    (cons : ∀ i x xs, xs ≠ [] → P (i + 1) xs → P i (x :: xs)) {xs : List α} (h : xs ≠ []) (i : Nat) : P i xs := by
  induction xs generalizing i with
  | nil => exact absurd rfl h
  | cons x xs ih =>
    cases xs with
    | nil => exact single i x
    | cons y xs => exact cons i x _ (List.cons_ne_nil _ _) (ih (List.cons_ne_nil _ _) (i + 1))

theorem parseNames_join {cs : List Str} (h : cs ≠ []) (i : Nat) (ts : List Token) :
    parseNames (joinTokens (fun _ c => [.name c]) .comma i cs ++ .rparen :: ts) = some (cs, ts) := by
  refine list_induction (P := fun i cs =>
    parseNames (joinTokens (fun _ c => [.name c]) .comma i cs ++ .rparen :: ts) = some (cs, ts)) ?_ ?_ h i
  · intro i c
    rfl
  · intro i c cs hcs ih
    rw [joinTokens_cons _ _ _ _ hcs, List.append_assoc, List.cons_append]
    exact congrArg (Option.map fun r => (c :: r.1, r.2)) ih

theorem parseParams_join {cs : List α} (h : cs ≠ []) (i : Nat) (ts : List Token) :
    parseParams (joinTokens (fun i _ => [.param i]) .comma i cs ++ .rparen :: ts) = some (List.range' i cs.length, ts) := by
  refine list_induction (P := fun i cs => parseParams (joinTokens (fun i _ => [.param i]) .comma i cs ++ .rparen :: ts) =
    some (List.range' i cs.length, ts)) ?_ ?_ h i
  · intro i c
    rfl
  · intro i c cs hcs ih
    rw [joinTokens_cons _ _ _ _ hcs, List.append_assoc, List.cons_append]
    exact congrArg (Option.map fun r => (i :: r.1, r.2)) ih

/-- A column with the number of the parameter that it is compared with or set to. -/
def equalityTokens (i : Nat) (c : Str) : List Token := [.name c, .equals, .param i]

theorem parseEqualities_join {sep : Token} {cs : List Str} (h : cs ≠ []) (i : Nat) {ts : List Token}
    (hts : ∀ t ∈ ts.head?, t ≠ sep) :
    parseEqualities sep (joinTokens equalityTokens sep i cs ++ ts) = some (cs.zipIdx i, ts) := by
  refine list_induction (P := fun i cs => parseEqualities sep (joinTokens equalityTokens sep i cs ++ ts) =
    some (cs.zipIdx i, ts)) ?_ ?_ h i
  · intro i c
    cases ts with
    | nil => rfl
    | cons t ts =>
      show (if t = sep then _ else _) = _
      rw [if_neg (hts t rfl)]
      rfl
  · intro i c cs hcs ih
    rw [joinTokens_cons _ _ _ _ hcs, List.append_assoc, List.cons_append]
    show (if sep = sep then (parseEqualities sep _).map _ else _) = _
    rw [if_pos rfl, ih]
    rfl

/-- A column that is compared with a pattern around a parameter. -/
def likeTokens (i : Nat) (c : Str) : List Token :=
  [.name c, .name (str "LIKE"), .text (str "%"), .concat, .param i, .concat, .text (str "%")]

theorem parseLikes_join {cs : List Str} (h : cs ≠ []) (i : Nat) {ts : List Token} (hts : ∀ t ∈ ts.head?, t ≠ .kw .OR) :
    parseLikes (joinTokens likeTokens (.kw .OR) i cs ++ ts) = some (cs.zipIdx i, ts) := by
  refine list_induction (P := fun i cs => parseLikes (joinTokens likeTokens (.kw .OR) i cs ++ ts) = some (cs.zipIdx i, ts))
    ?_ ?_ h i
  · intro i c
    cases ts with
    | nil => rfl
    | cons t ts =>
      have ht := hts t rfl
      cases t with
      | kw k =>
        cases k with
        | OR => exact absurd rfl ht
        | _ => rfl
      | _ => rfl
  · intro i c cs hcs ih
    rw [joinTokens_cons _ _ _ _ hcs, List.append_assoc, List.cons_append]
    show (if _ then (parseLikes _).map _ else _) = _
    rw [if_pos ⟨rfl, rfl, rfl⟩, ih]
    rfl

/-- Columns that are compared, each with its place. -/
theorem compared_columns (columns : List Str) (i : Nat) (ts : List Token) : compared (some (columns.zipIdx i, ts)) =
    if columns.all isOperand then some (columns.zipIdx i, ts) else none := by
  have hall : ((columns.zipIdx i).all fun e => isOperand e.1) = columns.all isOperand := by
    conv_rhs => rw [← List.zipIdx_map_fst i columns, List.all_map]
    rfl
  unfold compared
  rw [Option.filter_some, hall]

end Lists

/-! ## The names in a statement -/

/-- A name that is read is a name of SQL. -/
theorem lex_names {fuel : Nat} {s : Str} {ts : List Token} (h : lex fuel s = some ts) {w : Str} (hw : .name w ∈ ts) :
    SqlName w := by
  induction fuel generalizing s ts with
  | zero => cases h
  | succ fuel ih =>
    -- behind a token that is no name
    have behind : ∀ {t : Token} {s' : Str}, t ≠ .name w →
        (do return t :: (← lex fuel s') : Option (List Token)) = some ts → SqlName w := by
      intro t s' ht h
      obtain ⟨ts', hl, he⟩ := Option.bind_eq_some_iff.1 h
      cases he
      exact ih hl ((List.mem_cons.1 hw).resolve_left (Ne.symm ht))
    cases s with
    | nil =>
      cases h
      cases hw
    | cons c s =>
      rw [lex.eq_def] at h
      dsimp only at h
      split_ifs at h with h₁ h₂ hmark h₃ h₄ h₅ h₆
      · exact ih h hw
      · exact ih h hw
      · obtain ⟨t, ht, h⟩ := Option.bind_eq_some_iff.1 h
        by_cases htw : t = .name w
        · rw [htw] at ht
          obtain ⟨rfl, hfree⟩ := wordToken_name ht
          have hchars : isNameChar c = true := (isNameStart_cases h₂).2
          refine ⟨?_, ?_, fun d hd => List.mem_takeWhile_imp hd, fun hm => ?_, hfree⟩
          · rw [List.takeWhile_cons_of_pos hchars]
            exact List.cons_ne_nil _ _
          · rw [List.takeWhile_cons_of_pos hchars]
            rintro _ ⟨rfl⟩
            exact h₂
          · exact hmark (hm.trans (List.takeWhile_prefix _))
        · exact behind htw h
      · exact behind (by simp) h
      · split at h
        · cases h
        · exact behind (by simp) h
      · split at h
        · cases h
        · split_ifs at h
          exact behind (by simp) h
      · obtain ⟨t, ht, h⟩ := Option.bind_eq_some_iff.1 h
        refine behind ?_ h
        rintro rfl
        unfold punctuation at ht
        split_ifs at ht <;> cases ht

theorem parseNames_mem {ts ts' : List Token} {cs : List Str} (h : parseNames ts = some (cs, ts')) :
    (∀ c ∈ cs, .name c ∈ ts) ∧ ts' ⊆ ts := by
  fun_induction parseNames ts generalizing cs ts' with
  | case1 c ts ih =>
    obtain ⟨⟨cs₀, ts₀⟩, h₀, he⟩ := Option.map_eq_some_iff.1 h
    cases he
    obtain ⟨hcs, hts⟩ := ih h₀
    refine ⟨fun d hd => ?_, fun t ht => by simp [hts ht]⟩
    rcases List.mem_cons.1 hd with rfl | hd
    · exact List.mem_cons_self
    · simp [hcs d hd]
  | case2 c ts =>
    cases h
    exact ⟨by simp, fun t ht => by simp [ht]⟩
  | case3 => cases h

theorem parseEqualities_mem {sep : Token} {ts ts' : List Token} {es : List (Str × Nat)}
    (h : parseEqualities sep ts = some (es, ts')) : (∀ e ∈ es, .name e.1 ∈ ts) ∧ ts' ⊆ ts := by
  fun_induction parseEqualities sep ts generalizing es ts' with
  | case1 c n =>
    cases h
    exact ⟨by simp, by simp⟩
  | case2 c n ts ih =>
    obtain ⟨⟨es₀, ts₀⟩, h₀, he⟩ := Option.map_eq_some_iff.1 h
    cases he
    obtain ⟨hes, hts⟩ := ih h₀
    refine ⟨fun e he => ?_, fun t ht => by simp [hts ht]⟩
    rcases List.mem_cons.1 he with rfl | he
    · exact List.mem_cons_self
    · simp [hes e he]
  | case3 c n t ts ht =>
    cases h
    exact ⟨by simp, fun t ht => by simp [ht]⟩
  | case4 => cases h

theorem parseLikes_mem {ts ts' : List Token} {es : List (Str × Nat)} (h : parseLikes ts = some (es, ts')) :
    (∀ e ∈ es, .name e.1 ∈ ts) ∧ ts' ⊆ ts := by
  fun_induction parseLikes ts generalizing es ts' with
  | case1 c l p n q ts hpq ih =>
    obtain ⟨⟨es₀, ts₀⟩, h₀, he⟩ := Option.map_eq_some_iff.1 h
    cases he
    obtain ⟨hes, hts⟩ := ih h₀
    refine ⟨fun e he => ?_, fun t ht => by simp [hts ht]⟩
    rcases List.mem_cons.1 he with rfl | he
    · exact List.mem_cons_self
    · simp [hes e he]
  | case2 => cases h
  | case3 c l p n q ts _ hpq =>
    cases h
    exact ⟨by simp, fun t ht => by simp [ht]⟩
  | case4 => cases h
  | case5 => cases h

theorem compared_some {r : Option (List (Str × Nat) × List Token)} {x : List (Str × Nat) × List Token}
    (h : compared r = some x) : r = some x ∧ ∀ e ∈ x.1, isOperand e.1 = true := by
  obtain ⟨hr, hall⟩ := Option.filter_eq_some_iff.1 h
  exact ⟨hr, List.all_eq_true.1 hall⟩

theorem parseWhere_mem {ts ts' : List Token} {es : List (Str × Nat)} (h : parseWhere ts = some (es, ts')) :
    (∀ e ∈ es, .name e.1 ∈ ts) ∧ ts' ⊆ ts := by
  unfold parseWhere at h
  split at h
  · obtain ⟨hes, hts⟩ := parseEqualities_mem (compared_some h).1
    exact ⟨fun e he => List.mem_cons_of_mem _ (hes e he), fun t ht => List.mem_cons_of_mem _ (hts ht)⟩
  · cases h
    exact ⟨by simp, fun t ht => ht⟩

/-- The columns of a statement, each with the parameter beside it. -/
def Stmt.beside : Stmt → List (Str × Nat)
  | create _ _ => []
  | insert _ columns params => columns.zip params
  | update _ sets wheres => sets ++ wheres
  | delete _ wheres | select _ wheres => wheres
  | search _ likes => likes

/-- The parameters of a statement in the order of its text. -/
def Stmt.placeholders : Stmt → List Nat
  | create _ _ => []
  | insert _ _ params => params
  | update _ sets wheres => (sets ++ wheres).map Prod.snd
  | delete _ wheres | select _ wheres => wheres.map Prod.snd
  | search _ likes => likes.map Prod.snd

theorem parseEnd_eq {α : Type} {a b : α} {ts : List Token} (h : parseEnd a ts = some b) : b = a := by
  unfold parseEnd at h
  split at h
  · exact (Option.some.inj h).symm
  · exact (Option.some.inj h).symm
  · cases h

/-- A statement about this table. -/
theorem names_of {stmt : Stmt} {table : Str} {ts : List Token} (hneeds : stmt.needs = some table) (htable : .name table ∈ ts)
    (hbeside : ∀ e ∈ stmt.beside, .name e.1 ∈ ts) :
    (∀ table, stmt.needs = some table → .name table ∈ ts) ∧ ∀ e ∈ stmt.beside, .name e.1 ∈ ts := by
  refine ⟨fun table' h => ?_, hbeside⟩
  cases hneeds.symm.trans h
  exact htable

theorem parseTokens_names {ts : List Token} {stmt : Stmt} (h : parseTokens ts = some stmt) :
    (∀ table, stmt.needs = some table → .name table ∈ ts) ∧ ∀ e ∈ stmt.beside, .name e.1 ∈ ts := by
  unfold parseTokens at h
  split at h
  · obtain ⟨⟨cs, ts'⟩, -, h⟩ := Option.bind_eq_some_iff.1 h
    dsimp only at h
    split_ifs at h
    rw [parseEnd_eq h]
    exact ⟨nofun, nofun⟩
  · obtain ⟨⟨cs, ts'⟩, hcs, h⟩ := Option.bind_eq_some_iff.1 h
    obtain ⟨hmem, -⟩ := parseNames_mem hcs
    dsimp only at h
    split at h
    · obtain ⟨⟨ns, ts''⟩, -, h⟩ := Option.bind_eq_some_iff.1 h
      rw [parseEnd_eq h]
      exact names_of rfl (by simp) fun e he => by simp [hmem e.1 (List.of_mem_zip he).1]
    · cases h
  · obtain ⟨⟨ss, ts'⟩, hss, h⟩ := Option.bind_eq_some_iff.1 h
    obtain ⟨⟨ws, ts''⟩, hws, h⟩ := Option.bind_eq_some_iff.1 h
    obtain ⟨hsets, hrest⟩ := parseEqualities_mem hss
    obtain ⟨hwheres, -⟩ := parseWhere_mem hws
    rw [parseEnd_eq h]
    refine names_of rfl (by simp) fun e he => ?_
    rcases List.mem_append.1 he with he | he
    · simp [hsets e he]
    · simp [hrest (hwheres e he)]
  · obtain ⟨⟨ws, ts'⟩, hws, h⟩ := Option.bind_eq_some_iff.1 h
    obtain ⟨hwheres, -⟩ := parseWhere_mem hws
    rw [parseEnd_eq h]
    exact names_of rfl (by simp) fun e he => by simp [hwheres e he]
  · obtain ⟨⟨es, ts'⟩, hes, h⟩ := Option.bind_eq_some_iff.1 h
    obtain ⟨hlikes, -⟩ := parseLikes_mem (compared_some hes).1
    rw [parseEnd_eq h]
    refine names_of rfl (by simp) fun e he => ?_
    have := hlikes e he
    simp only [List.mem_cons] at this ⊢
    tauto
  · obtain ⟨⟨ws, ts'⟩, hws, h⟩ := Option.bind_eq_some_iff.1 h
    obtain ⟨hwheres, -⟩ := parseWhere_mem hws
    rw [parseEnd_eq h]
    exact names_of rfl (by simp) fun e he => by simp [hwheres e he]
  · cases h

/-- The names in a statement that is read are names of SQL. -/
theorem parseSql_names {sql : Str} {stmt : Stmt} (h : parseSql sql = some stmt) :
    (∀ table, stmt.needs = some table → SqlName table) ∧ ∀ e ∈ stmt.beside, SqlName e.1 := by
  obtain ⟨ts, hl, h⟩ := Option.bind_eq_some_iff.1 h
  obtain ⟨htable, hcolumns⟩ := parseTokens_names h
  exact ⟨fun table ht => lex_names hl (htable table ht), fun e he => lex_names hl (hcolumns e he)⟩

end Lib.Sql
