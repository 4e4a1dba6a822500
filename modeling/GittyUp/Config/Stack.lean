import GittyUp.Config.Stream
import GittyUp.Config.Tree
import Mathlib.Logic.Relation
/-!
# The stack of the parser

The `while` loop of `Parse` turn by turn, without fuel: what holds at the head of
the loop, of a text that is accepted or not. `parse_sound`: the loop ends, its stack
is as high as the open blocks ask for, and `statements_.back()` is a statement that
waits for a token or for a block.
-/
open Lib

namespace GittyUp.Config

/-! ## Turns of the loop -/

/-- A turn that another one follows. -/
inductive Turn : Parser × Str → Parser × Str → Prop
  | skip {p input text rest} : parseToken input = (.comment, text, rest) → Turn (p, input) (p, rest)
  | read {p p' input type token rest} : parseToken input = (type, token, rest) → feed p type token = some p' →
      Turn (p, input) (p', rest)

/-- The last turn, with what `Parse` returns and leaves behind. An error of the lexer is refused like a token. -/
inductive Stop : Parser × Str → Bool × NginxConfig → Prop
  | refused {p input type token rest} : parseToken input = (type, token, rest) → type ≠ .comment → type ≠ .eof →
      feed p type token = none → Stop (p, input) (false, tree p.stack)
  | eof {p input text rest} : parseToken input = (.eof, text, rest) → Stop (p, input) (accepts p, tree p.stack)

/-- The locals and the unread input at the head of the loop. -/
def Visited (text : Str) (s : Parser × Str) : Prop := Relation.ReflTransGen Turn (initial, text) s

/-- `statements_.back()` in the turn on a token of this type, if the turn takes it.
It is `none` inside where the stack or the block on top is empty. -/
def back (p : Parser) (type : TokenType) : Option (Option Statement) :=
  match type with
  | .normal =>
    if p.last = .start ∨ p.last = .statementEnd ∨ p.last = .startBlock ∨ p.last = .endBlock ∨ p.last = .normal then
      let stack := if p.last ≠ .normal then onTop (· ++ [.line []]) p.stack else p.stack
      some (stack.head?.bind List.getLast?)
    else none
  | .startBlock => if p.last ≠ .normal then none else some (p.stack.head?.bind List.getLast?)
  | _ => none

/-! ## Progress -/

/-- A token that is not the last one takes characters, also if one is put back. -/
theorem parseTokenLoop_shortens (state : TokenParserState) (value input : Str) {type : TokenType} {token rest : Str}
    (h : parseTokenLoop state value input = (type, token, rest)) (he : type ≠ .error) (hf : type ≠ .eof) :
    rest.length ≤ input.length ∧ (state ≠ .normal → rest.length < input.length) := by
  induction input generalizing state value with
  | nil =>
    unfold parseTokenLoop at h
    split_ifs at h
    · cases h
      exact absurd rfl he
    · cases h
      exact absurd rfl hf
  | cons c s ih =>
    -- the characters behind this one
    have onward : ∀ {state value}, parseTokenLoop state value s = (type, token, rest) →
        rest.length ≤ (c :: s).length ∧ rest.length < (c :: s).length := by
      intro state value h
      have := (ih state value h).1
      rw [List.length_cons]
      omega
    have here : rest = s → rest.length ≤ (c :: s).length ∧ rest.length < (c :: s).length := by
      rintro rfl
      rw [List.length_cons]
      omega
    cases state with
    | initialWhitespace =>
      unfold parseTokenLoop at h
      split_ifs at h
      all_goals first
        | exact (onward h).imp_right fun h _ => h
        | (cases h; exact (here rfl).imp_right fun h _ => h)
    | singleQuote | doubleQuote | comment =>
      unfold parseTokenLoop at h
      split_ifs at h
      · cases h
        exact (here rfl).imp_right fun h _ => h
      · exact (onward h).imp_right fun h _ => h
    | normal =>
      unfold parseTokenLoop at h
      split_ifs at h
      · cases h
        exact ⟨le_rfl, fun h => absurd rfl h⟩
      · exact (onward h).imp_right fun h _ => h

theorem parseToken_shortens {input token rest : Str} {type : TokenType} (h : parseToken input = (type, token, rest))
    (he : type ≠ .error) (hf : type ≠ .eof) : rest.length < input.length :=
  (parseTokenLoop_shortens _ _ _ h he hf).2 (by simp)

theorem turn_shortens {s s' : Parser × Str} (h : Turn s s') : s'.2.length < s.2.length := by
  cases h with
  | skip h => exact parseToken_shortens h (by simp) (by simp)
  | read h hf =>
    refine parseToken_shortens h ?_ ?_
    · rintro rfl
      cases hf
    · rintro rfl
      cases hf

/-- The loop reaches its last turn before its fuel is used up. -/
theorem parseLoop_stop (fuel : Nat) {p : Parser} {input : Str} (h : input.length < fuel) :
    ∃ s, Relation.ReflTransGen Turn (p, input) s ∧ Stop s (parseLoop fuel p input) := by
  induction fuel generalizing p input with
  | zero => cases h
  | succ fuel ih =>
    rcases hread : parseToken input with ⟨type, token, rest⟩
    -- the turns behind one that goes on
    have onward : ∀ {p' : Parser}, Turn (p, input) (p', rest) →
        ∃ s, Relation.ReflTransGen Turn (p, input) s ∧ Stop s (parseLoop fuel p' rest) := by
      intro p' ht
      have hlen : rest.length < fuel := Nat.lt_of_lt_of_le (turn_shortens ht) (Nat.le_of_lt_succ h)
      obtain ⟨s, hs, hstop⟩ := ih (p := p') hlen
      exact ⟨s, .head ht hs, hstop⟩
    rw [parseLoop_turn, hread]
    cases type with
    | comment => exact onward (.skip hread)
    | eof => exact ⟨_, .refl, .eof hread⟩
    | error => exact ⟨_, .refl, .refused hread (by simp) (by simp) rfl⟩
    | start => exact ⟨_, .refl, .refused hread (by simp) (by simp) rfl⟩
    | normal | startBlock | endBlock | statementEnd =>
      unfold turn
      dsimp only
      split
      · rename_i hf
        exact ⟨_, .refl, .refused hread (by simp) (by simp) hf⟩
      · rename_i hf
        exact onward (.read hread hf)

/-! ## The head of the loop -/

/-- The token in a turn of the loop, if it is given one. -/
def given : TokenType → Str → List Token
  | .normal, token => [.word token]
  | .statementEnd, _ => [.semicolon]
  | .startBlock, _ => [.openBrace]
  | .endBlock, _ => [.closeBrace]
  | _, _ => []

theorem reads_given {ts : List Token} {p p' : Parser} {type : TokenType} {token : Str} (h : Reads ts p)
    (hf : feed p type token = some p') : Reads (ts ++ given type token) p' := by
  cases type with
  | normal => exact reads_step (t := .word token) h hf
  | statementEnd => exact reads_step (t := .semicolon) h hf
  | startBlock => exact reads_step (t := .openBrace) h hf
  | endBlock => exact reads_step (t := .closeBrace) h hf
  | start | comment | eof | error => cases hf

theorem visited_reads {text : Str} {s : Parser × Str} (h : Visited text s) : ∃ ts, Reads ts s.1 := by
  induction h with
  | refl => exact ⟨[], reads_initial⟩
  | tail _ ht ih =>
    obtain ⟨ts, hr⟩ := ih
    cases ht with
    | skip => exact ⟨ts, hr⟩
    | read _ hf => exact ⟨_, reads_given hr hf⟩

/-- What `back()` is taken of: a statement that has tokens and no block, or the one just added for the token. -/
theorem reads_back {ts : List Token} {p : Parser} (h : Reads ts p) {type : TokenType} {taken : Option Statement}
    (hb : back p type = some taken) : ∃ s, taken = some s ∧ s.childBlock = none ∧
      (s.tokens = [] → type = .normal ∧ p.last ≠ .normal) := by
  cases h with
  | between hl =>
    cases type with
    | normal =>
      have hne : ∀ {l : TokenType}, Ready l → l ≠ .normal := by rintro l (rfl | rfl | rfl | rfl) <;> simp
      unfold back at hb
      dsimp only at hb
      split_ifs at hb with _ hlast
      · cases hb
        refine ⟨.line [], ?_, rfl, fun _ => ⟨rfl, hlast⟩⟩
        simp [onTop]
      · exact absurd (hne hl) hlast
    | startBlock => rcases hl with rfl | rfl | rfl | rfl <;> simp [back] at hb
    | _ => cases hb
  | @inside _ c rest ws n hw =>
    have htop : ((c ++ [.line ws]) :: rest).head?.bind List.getLast? = some (Statement.line ws) := by simp
    cases type with
    | normal | startBlock =>
      unfold back at hb
      simp only [ne_eq, not_true, if_false, or_true, if_true] at hb
      cases hb
      exact ⟨.line ws, htop, rfl, fun h => absurd h hw⟩
    | _ => cases hb

/-! ## Accepted texts -/

theorem derives_ne_nil {ts : List Token} {c : NginxConfig} (h : Derives ts c) : c ≠ [] := by
  induction h with
  | line | block => exact List.cons_ne_nil _ _
  | append _ _ ih => exact fun h => ih (List.append_eq_nil_iff.1 h).1

/-- No block of the tree is empty. -/
theorem derives_blocks {ts : List Token} {c : NginxConfig} (h : Derives ts c) {s : Statement} (hs : Within s c)
    {child : NginxConfig} (hc : s.childBlock = some child) : child ≠ [] := by
  have hnil : ¬ Within s [] := by rintro (h | ⟨h, -, -⟩) <;> cases h
  induction h with
  | line =>
    obtain rfl | ⟨d, hd, -⟩ | h := within_cons.1 hs
    · cases hc
    · cases hd
    · exact absurd h hnil
  | block _ hd ih =>
    obtain rfl | ⟨d, he, h⟩ | h := within_cons.1 hs
    · cases hc
      exact derives_ne_nil hd
    · cases he
      exact ih h
    · exact absurd h hnil
  | append _ _ ih₁ ih₂ => exact (within_append.1 hs).elim ih₁ ih₂

/-- Only the root is left where the loop accepts. -/
theorem reads_root {ts : List Token} {p : Parser} (h : Reads ts p) (ha : accepts p = true) : p.stack = [tree p.stack] := by
  obtain ⟨top, rest, hs, hn⟩ := reads_height h
  have hzero : p.startBlock = 0 := by
    unfold accepts at ha
    exact of_decide_eq_true (Bool.and_eq_true_iff.1 ha).2
  have hrest : rest = [] := List.length_eq_zero_iff.1 (by omega)
  rw [hs, hrest]
  rfl

/-! ## The loop -/

/-- What is promised of `Parse` on a text. -/
structure ParseSound (text : Str) : Prop where
  ends : ∃ s, Visited text s ∧ Stop s (parse text) ∧ ((parse text).1 = true → s.1.stack = [(parse text).2])
  shortens : ∀ s s', Visited text s → Turn s s' → s'.2.length < s.2.length
  height : ∀ p input, Visited text (p, input) → (p.stack.length : Int) = p.startBlock + 1 ∧ 1 ≤ p.stack.length
  /-- A statement without tokens was added in the same turn. -/
  back : ∀ p input type token rest taken, Visited text (p, input) → parseToken input = (type, token, rest) →
    back p type = some taken → ∃ s, taken = some s ∧ s.childBlock = none ∧
      (s.tokens = [] → type = .normal ∧ p.last ≠ .normal)
  worded : Worded (parse text).2
  blocks : (parse text).1 = true → ∀ s child, Within s (parse text).2 → s.childBlock = some child → child ≠ []

theorem parse_sound (text : Str) : ParseSound text := by
  obtain ⟨s, hs, hstop⟩ : ∃ s, Visited text s ∧ Stop s (parse text) := parseLoop_stop _ (Nat.lt_succ_self _)
  constructor
  case ends =>
    refine ⟨s, hs, hstop, fun ha => ?_⟩
    obtain ⟨ts, hr⟩ := visited_reads hs
    generalize parse text = result at hstop ha ⊢
    cases hstop with
    | refused => cases ha
    | eof => exact reads_root hr ha
  case shortens => exact fun s s' _ h => turn_shortens h
  case height =>
    intro p input h
    obtain ⟨ts, hr⟩ := visited_reads h
    obtain ⟨top, rest, hstack, hn⟩ := reads_height hr
    rw [hstack, hn, List.length_cons]
    exact ⟨by push_cast; rfl, Nat.succ_le_succ (Nat.zero_le _)⟩
  case back =>
    intro p input type token rest taken h _ hb
    obtain ⟨ts, hr⟩ := visited_reads h
    exact reads_back hr hb
  case worded => exact parse_worded text
  case blocks =>
    intro ha s child hs hc
    obtain ⟨ts, t, -, hd⟩ := (parse_iff text (parse text).2).1 (by rw [← ha])
    exact derives_blocks hd hs hc

/-- The first word of a statement goes to a statement that has no token yet. -/
theorem back_added : ¬ ∀ p input type token rest s, Visited "a;" (p, input) → parseToken input = (type, token, rest) →
    back p type = some (some s) → s.tokens ≠ [] ∧ s.childBlock = none := by
  intro h
  have hread : parseToken (str "a;") = (.normal, str "a", str ";") := rfl
  exact (h initial (str "a;") _ _ _ (.line []) .refl hread rfl).1 rfl

end GittyUp.Config
