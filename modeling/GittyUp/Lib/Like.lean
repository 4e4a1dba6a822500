import GittyUp.Lib.Bytes
import Mathlib.Data.List.Infix
/-!
# Patterns

`LIKE` of SQLite on UTF-8 text: `%` stands for any text, `_` for one character,
and every other byte for itself or for the other case of an ASCII letter.
-/

namespace Lib

def percent : Byte := '%'
def underscore : Byte := '_'

/-- ASCII letters in lower case. -/
def toLower (c : Byte) : Byte := if 'A' ≤ c && c ≤ 'Z' then c + 32 else c

/-- What is behind the first character: a lead byte takes the bytes that continue it. -/
def skipChar : Str → Option Str
  | [] => none
  | c :: s => some (if 192 ≤ c then s.dropWhile fun d => 128 ≤ d && d < 192 else s)

/-- The text begins with `c`, and `rest` matches what is behind it. -/
def takes (c : Byte) (rest : Str → Bool) : Str → Bool
  | [] => false
  | d :: s => toLower c = toLower d && rest s

/-- The rest of a pattern matches the text, or with `wild` what is behind any part of it. -/
def likeFrom : Bool → Str → Str → Bool
  | wild, [], s => wild || s = []
  | wild, c :: p, s =>
    if c = percent then likeFrom true p s
    else if c = underscore then (skipChar s).any (likeFrom wild p)
    else if wild then s.tails.any (takes c (likeFrom false p))
    else takes c (likeFrom false p) s

/-- `s LIKE p` -/
def like (p s : Str) : Bool := likeFrom false p s

/-- The text is somewhere in `s`, up to the case of ASCII letters. -/
def contains (q s : Str) : Bool := q.map toLower <:+: s.map toLower

example : like "%aB_%" "xxAbC" = true := by decide
example : like "a%" "ba" = false := by decide

/-- A text without wildcards. -/
def Literal (q : Str) : Prop := ∀ c ∈ q, c ≠ percent ∧ c ≠ underscore

theorem likeFrom_literal {c : Byte} (hc : c ≠ percent ∧ c ≠ underscore) (wild : Bool) (p s : Str) :
    likeFrom wild (c :: p) s =
      if wild then s.tails.any (takes c (likeFrom false p)) else takes c (likeFrom false p) s := by
  rw [likeFrom, if_neg hc.1, if_neg hc.2]

/-! ## A text between percent signs -/

/-- A text with a percent sign behind it is matched by what begins with it. -/
theorem likeFrom_prefix {q : Str} (hq : Literal q) (s : Str) :
    likeFrom false (q ++ [percent]) s = true ↔ q.map toLower <+: s.map toLower := by
  induction q generalizing s with
  | nil => simp [likeFrom]
  | cons c q ih =>
    have hc := hq c List.mem_cons_self
    have ih := ih fun c hc => hq c (List.mem_cons_of_mem _ hc)
    rw [List.cons_append, likeFrom_literal hc, if_neg (by decide)]
    cases s with
    | nil => simp [takes]
    | cons d s => simp [takes, ih, List.cons_prefix_cons]

theorem map_infix_iff (f : Byte → Byte) (q s : Str) :
    q.map f <:+: s.map f ↔ ∃ t ∈ s.tails, q.map f <+: t.map f := by
  rw [List.infix_iff_prefix_suffix]
  constructor
  · rintro ⟨t, hq, ht⟩
    obtain ⟨u, hu⟩ := ht
    obtain ⟨a, b, rfl, -, rfl⟩ := List.map_eq_append_iff.1 hu.symm
    exact ⟨b, (List.mem_tails _ _).2 (List.suffix_append a b), hq⟩
  · rintro ⟨t, ht, hq⟩
    exact ⟨t.map f, hq, ((List.mem_tails _ _).1 ht).map f⟩

/-- Between percent signs it is matched by what contains it. -/
theorem like_literal {q : Str} (hq : Literal q) (s : Str) :
    like ([percent] ++ q ++ [percent]) s = contains q s := by
  rw [Bool.eq_iff_iff, contains, decide_eq_true_eq]
  show likeFrom true (q ++ [percent]) s = true ↔ _
  cases q with
  | nil => simp [likeFrom]
  | cons c q =>
    have hc := hq c List.mem_cons_self
    rw [List.cons_append, likeFrom_literal hc, if_pos rfl, map_infix_iff, List.any_eq_true]
    refine exists_congr fun t => and_congr_right fun _ => ?_
    rw [← likeFrom_prefix hq t, List.cons_append, likeFrom_literal hc]
    rfl

/-! ## A text with wildcards -/

/-- Without the percent signs, and with a letter for each underscore. -/
def fill : Str → Str
  | [] => []
  | c :: q => if c = percent then fill q else if c = underscore then ('a' : Char) :: fill q else c :: fill q

theorem likeFrom_fill (wild : Bool) (q : Str) : likeFrom wild (q ++ [percent]) (fill q) = true := by
  induction q generalizing wild with
  | nil => cases wild <;> rfl
  | cons c q ih =>
    rw [List.cons_append, likeFrom, fill]
    split_ifs with h1 h2
    · exact ih true
    · exact ih wild
    · rw [List.any_eq_true]
      refine ⟨c :: fill q, (List.mem_tails _ _).2 List.suffix_rfl, ?_⟩
      simp [takes, ih]
    · simp [takes, ih]

theorem literal_fill (q : Str) : Literal (fill q) := by
  induction q with
  | nil => exact nofun
  | cons c q ih =>
    rw [fill]
    split_ifs with h1 h2
    · exact ih
    · exact List.forall_mem_cons.2 ⟨by decide, ih⟩
    · exact List.forall_mem_cons.2 ⟨⟨h1, h2⟩, ih⟩

/-- No letter has a wildcard for its other case. -/
theorem toLower_wildcard (c : Byte) :
    (toLower c = toLower percent → c = percent) ∧ (toLower c = toLower underscore → c = underscore) := by
  revert c
  exact forall_byte (by decide +kernel)

/-- What has no wildcards contains only texts that have none. -/
theorem literal_of_contains {q s : Str} (hs : Literal s) (h : contains q s = true) : Literal q := by
  have hsub : q.map toLower ⊆ s.map toLower := (of_decide_eq_true h).sublist.subset
  intro c hc
  obtain ⟨d, hd, he⟩ := List.mem_map.1 (hsub (List.mem_map_of_mem hc))
  constructor
  · rintro rfl
    exact (hs d hd).1 ((toLower_wildcard d).1 he)
  · rintro rfl
    exact (hs d hd).2 ((toLower_wildcard d).2 he)

end Lib
