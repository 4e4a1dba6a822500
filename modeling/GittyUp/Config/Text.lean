import Mathlib.Data.List.ModifyLast
import GittyUp.Config.Parser
/-!
# What a config text says

`Text s ts cut` describes the tokens of a text without the lexer: `ts` are its
words and marks, and `cut` is the unquoted word that the end of the file cuts
off, if there is one. `parse_text` says that the parser runs its token automaton
over `ts` and never looks at `cut`.
-/
open Lib

namespace GittyUp.Config

/-! ## Tokens of a text -/

inductive Token
  | word (w : Str)
  | semicolon
  | openBrace
  | closeBrace
  deriving DecidableEq

/-- White space between tokens. -/
abbrev isBlank (c : Byte) : Prop := c = ' ' ∨ c = '\t' ∨ c = '\n' ∨ c = '\r'

/-- What ends an unquoted word. A carriage return does not: it is part of the word. -/
abbrev endsWord (c : Byte) : Prop := c = ' ' ∨ c = '\t' ∨ c = '\n' ∨ c = ';' ∨ c = '{' ∨ c = '}'

/-- What an unquoted word may start with. -/
abbrev startsWord (c : Byte) : Prop :=
  ¬ isBlank c ∧ c ≠ '{' ∧ c ≠ '}' ∧ c ≠ '#' ∧ c ≠ '"' ∧ c ≠ '\'' ∧ c ≠ ';'

abbrev isEol (c : Byte) : Prop := c = '\n' ∨ c = '\r'

abbrev isQuote (q : Byte) : Prop := q = '"' ∨ q = '\''

/-- An unquoted word: it may hold '#' and quotes after its first character. -/
inductive PlainWord : Str → Prop
  | mk (c : Byte) (w : Str) : startsWord c → (∀ x ∈ w, ¬ endsWord x) → PlainWord (c :: w)

/-- A quoted word, with its quotes. -/
inductive QuotedWord : Str → Prop
  | mk (q : Byte) (body : Str) : isQuote q → q ∉ body → QuotedWord (q :: body ++ [q])

theorem PlainWord.length_pos {w : Str} (h : PlainWord w) : 0 < w.length := by
  cases h
  exact Nat.succ_pos _

theorem QuotedWord.length_pos {w : Str} (h : QuotedWord w) : 0 < w.length := by
  cases h
  exact Nat.succ_pos _

inductive Text : Str → List Token → Option Str → Prop
  | done : Text [] [] none
  | cut {w} : PlainWord w → Text w [] (some w)
  | blank {c s ts t} : isBlank c → Text s ts t → Text (c :: s) ts t
  | comment {body c s ts t} : (∀ x ∈ body, ¬ isEol x) → isEol c → Text s ts t →
      Text ('#' :: (body ++ c :: s)) ts t
  | lastComment {body} : (∀ x ∈ body, ¬ isEol x) → Text ('#' :: body) [] none
  | semicolon {s ts t} : Text s ts t → Text (';' :: s) (.semicolon :: ts) t
  | openBrace {s ts t} : Text s ts t → Text ('{' :: s) (.openBrace :: ts) t
  | closeBrace {s ts t} : Text s ts t → Text ('}' :: s) (.closeBrace :: ts) t
  | quoted {w s ts t} : QuotedWord w → Text s ts t → Text (w ++ s) (.word w :: ts) t
  | plain {w c s ts t} : PlainWord w → endsWord c → Text (c :: s) ts t →
      Text (w ++ c :: s) (.word w :: ts) t

/-- The shapes of the words of a text. -/
def WordOk (w : Str) : Prop := PlainWord w ∨ QuotedWord w

theorem text_words {s : Str} {ts : List Token} {t : Option Str} (h : Text s ts t) :
    ∀ w, .word w ∈ ts → WordOk w := by
  induction h with
  | quoted hw _ ih | plain hw _ _ ih =>
    intro v hv
    rcases List.mem_cons.1 hv with hv | hv
    · cases hv; first | exact .inl hw | exact .inr hw
    · exact ih v hv
  | _ => simp_all

/-! ## The lexer, shape by shape -/

theorem parseTokenLoop_comment (v : Str) (c : Byte) (s : Str) : parseTokenLoop .comment v (c :: s) =
    if isEol c then (.comment, v, s) else parseTokenLoop .comment (v ++ [c]) s := rfl

theorem parseTokenLoop_normal (v : Str) (c : Byte) (s : Str) : parseTokenLoop .normal v (c :: s) =
    if endsWord c then (.normal, v, c :: s) else parseTokenLoop .normal (v ++ [c]) s := by
  refine if_congr ?_ rfl rfl
  unfold endsWord
  tauto

theorem parseToken_blank {c : Byte} (h : isBlank c) (s : Str) : parseToken (c :: s) = parseToken s := by
  rcases h with rfl | rfl | rfl | rfl <;> rfl

/-- A loop that appends characters until one of them stops it. -/
theorem parseTokenLoop_run {state : TokenParserState} {goes : Byte → Prop}
    (h : ∀ c, goes c → ∀ v s, parseTokenLoop state v (c :: s) = parseTokenLoop state (v ++ [c]) s)
    (body : Str) (hb : ∀ x ∈ body, goes x) (v s : Str) :
    parseTokenLoop state v (body ++ s) = parseTokenLoop state (v ++ body) s := by
  induction body generalizing v with
  | nil => simp
  | cons c body ih =>
    rw [List.cons_append, h c (hb c (by simp)), ih (fun x hx => hb x (by simp [hx]))]
    simp

theorem comment_run (body : Str) (hb : ∀ x ∈ body, ¬ isEol x) (v s : Str) :
    parseTokenLoop .comment v (body ++ s) = parseTokenLoop .comment (v ++ body) s :=
  parseTokenLoop_run (fun c h v s => (parseTokenLoop_comment v c s).trans (if_neg h)) body hb v s

theorem normal_run (body : Str) (hb : ∀ x ∈ body, ¬ endsWord x) (v s : Str) :
    parseTokenLoop .normal v (body ++ s) = parseTokenLoop .normal (v ++ body) s :=
  parseTokenLoop_run (fun c h v s => (parseTokenLoop_normal v c s).trans (if_neg h)) body hb v s

/-- The state of the lexer inside a quote. -/
def quoteState (q : Byte) : TokenParserState := if q = '"' then .doubleQuote else .singleQuote

theorem quote_run {q : Byte} (hq : isQuote q) (body : Str) (hb : q ∉ body) (v s : Str) :
    parseTokenLoop (quoteState q) v (body ++ s) = parseTokenLoop (quoteState q) (v ++ body) s := by
  have stays : ∀ c, c ≠ q → ∀ v s,
      parseTokenLoop (quoteState q) v (c :: s) = parseTokenLoop (quoteState q) (v ++ [c]) s := by
    intro c h v s
    rcases hq with rfl | rfl <;> exact if_neg h
  exact parseTokenLoop_run stays body (fun x hx e => hb (e ▸ hx)) v s

theorem parseToken_quote {q : Byte} (hq : isQuote q) (s : Str) :
    parseToken (q :: s) = parseTokenLoop (quoteState q) [q] s := by
  rcases hq with rfl | rfl <;> rfl

theorem parseToken_start {c : Byte} (h : startsWord c) (s : Str) :
    parseToken (c :: s) = parseTokenLoop .normal [c] s := by
  obtain ⟨h0, h1, h2, h3, h4, h5, h6⟩ := h
  calc parseToken (c :: s)
    _ = if isBlank c then parseTokenLoop .initialWhitespace [] s else parseTokenLoop .normal [c] s :=
        (if_neg h1).trans ((if_neg h2).trans ((if_neg h3).trans ((if_neg h4).trans ((if_neg h5).trans (if_neg h6)))))
    _ = parseTokenLoop .normal [c] s := if_neg h0

theorem parseToken_comment {body : Str} {c : Byte} (hb : ∀ x ∈ body, ¬ isEol x) (hc : isEol c) (s : Str) :
    parseToken ('#' :: (body ++ c :: s)) = ((.comment, '#' :: body, s) : TokenType × Str × Str) := by
  have h : parseToken ('#' :: (body ++ c :: s)) = parseTokenLoop .comment ['#'] (body ++ c :: s) := rfl
  rw [h, comment_run body hb, parseTokenLoop_comment, if_pos hc]
  rfl

theorem parseToken_lastComment {body : Str} (hb : ∀ x ∈ body, ¬ isEol x) :
    parseToken ('#' :: body) = ((.eof, '#' :: body, []) : TokenType × Str × Str) := by
  have h : parseToken ('#' :: body) = parseTokenLoop .comment ['#'] (body ++ []) := by simp; rfl
  rw [h, comment_run body hb]
  rfl

theorem parseToken_quoted {w : Str} (hw : QuotedWord w) (s : Str) : parseToken (w ++ s) = (.normal, w, s) := by
  obtain ⟨q, body, hq, hb⟩ := hw
  rw [List.cons_append, List.cons_append, List.append_assoc, parseToken_quote hq, quote_run hq body hb]
  rcases hq with rfl | rfl <;> rfl

theorem parseToken_plain {w : Str} (hw : PlainWord w) {c : Byte} (hc : endsWord c) (s : Str) :
    parseToken (w ++ c :: s) = (.normal, w, c :: s) := by
  obtain ⟨c0, w, hs, hw⟩ := hw
  rw [List.cons_append, parseToken_start hs, normal_run w hw, parseTokenLoop_normal, if_pos hc]
  rfl

/-- The end of the file cuts a word off: it is reported as the end of the file. -/
theorem parseToken_cut {w : Str} (hw : PlainWord w) : parseToken w = (.eof, w, []) := by
  obtain ⟨c, w, hs, hw⟩ := hw
  rw [parseToken_start hs, ← List.append_nil w, normal_run w hw, List.append_nil]
  rfl

theorem parseToken_unclosed {q : Byte} (hq : isQuote q) {body : Str} (hb : q ∉ body) :
    parseToken (q :: body) = (.error, q :: body, []) := by
  rw [parseToken_quote hq, ← List.append_nil body, quote_run hq body hb, List.append_nil]
  rcases hq with rfl | rfl
  · rfl
  · rfl

/-! ## The token loop over a text -/

def Token.type : Token → TokenType
  | .word _ => .normal
  | .semicolon => .statementEnd
  | .openBrace => .startBlock
  | .closeBrace => .endBlock

def Token.text : Token → Str
  | .word w => w
  | .semicolon => [';']
  | .openBrace => ['{']
  | .closeBrace => ['}']

/-- The loop on tokens alone. -/
def run : Parser → List Token → Bool × NginxConfig
  | p, [] => (accepts p, tree p.stack)
  | p, t :: ts =>
    match feed p t.type t.text with
    | none => (false, tree p.stack)
    | some p' => run p' ts

/-- The rest of a turn of `Parse`, after `ParseToken`. -/
def turn (fuel : Nat) (p : Parser) (read : TokenType × Str × Str) : Bool × NginxConfig :=
  match read.1 with
  | .error => (false, tree p.stack)
  | .comment => parseLoop fuel p read.2.2
  | .eof => (accepts p, tree p.stack)
  | type =>
    match feed p type read.2.1 with
    | none => (false, tree p.stack)
    | some p' => parseLoop fuel p' read.2.2

theorem parseLoop_turn (fuel : Nat) (p : Parser) (s : Str) : parseLoop (fuel + 1) p s = turn fuel p (parseToken s) := by
  rw [parseLoop]
  generalize parseToken s = read
  obtain ⟨type, token, rest⟩ := read
  cases type <;> rfl

/-- A token that is given to the loop. -/
theorem turn_given (fuel : Nat) (p : Parser) (t : Token) (rest : Str) : turn fuel p (t.type, t.text, rest) =
    match feed p t.type t.text with
    | none => (false, tree p.stack)
    | some p' => parseLoop fuel p' rest := by
  cases t <;> rfl

theorem parseLoop_blank {c : Byte} (h : isBlank c) (fuel : Nat) (p : Parser) (s : Str) :
    parseLoop fuel p (c :: s) = parseLoop fuel p s := by
  cases fuel with
  | zero => rfl
  | succ n => rw [parseLoop_turn, parseLoop_turn, parseToken_blank h]

/-- One token, and what is left of the text. -/
theorem parseLoop_token {s rest : Str} {t : Token} {ts : List Token}
    (h : parseToken s = (t.type, t.text, rest)) (hlt : rest.length < s.length)
    (ih : ∀ fuel, rest.length < fuel → ∀ p, parseLoop fuel p rest = run p ts)
    (fuel : Nat) (hf : s.length < fuel) (p : Parser) : parseLoop fuel p s = run p (t :: ts) := by
  obtain ⟨n, rfl⟩ : ∃ n, fuel = n + 1 := ⟨fuel - 1, by omega⟩
  rw [parseLoop_turn, h, turn_given, run]
  cases feed p t.type t.text with
  | none => rfl
  | some p' => exact ih n (by omega) p'

theorem parseLoop_eof {s v : Str} (h : parseToken s = (.eof, v, [])) (fuel : Nat) (hf : s.length < fuel)
    (p : Parser) : parseLoop fuel p s = run p [] := by
  obtain ⟨n, rfl⟩ : ∃ n, fuel = n + 1 := ⟨fuel - 1, by omega⟩
  rw [parseLoop_turn, h]
  rfl

/-- On a text that lexes, the parser is its token automaton. -/
theorem parseLoop_text {s : Str} {ts : List Token} {t : Option Str} (h : Text s ts t) :
    ∀ fuel, s.length < fuel → ∀ p, parseLoop fuel p s = run p ts := by
  induction h with
  | done => exact parseLoop_eof rfl
  | cut hw => exact parseLoop_eof (parseToken_cut hw)
  | blank hc _ ih =>
    intro fuel hf p
    rw [parseLoop_blank hc, ih _ (by simp at hf; omega)]
  | comment hb hc _ ih =>
    intro fuel hf p
    obtain ⟨n, rfl⟩ : ∃ n, fuel = n + 1 := ⟨fuel - 1, by omega⟩
    rw [parseLoop_turn, parseToken_comment hb hc]
    exact ih n (by simp at hf; omega) p
  | lastComment hb => exact parseLoop_eof (parseToken_lastComment hb)
  | semicolon _ ih => exact parseLoop_token (t := .semicolon) rfl (by simp) ih
  | openBrace _ ih => exact parseLoop_token (t := .openBrace) rfl (by simp) ih
  | closeBrace _ ih => exact parseLoop_token (t := .closeBrace) rfl (by simp) ih
  | quoted hw _ ih =>
    exact parseLoop_token (t := .word _) (parseToken_quoted hw _) (by cases hw; simp; omega) ih
  | plain hw hc _ ih =>
    refine parseLoop_token (t := .word _) (parseToken_plain hw hc _) ?_ ih
    cases hw
    simp only [List.length_append, List.length_cons]
    omega

/-! ## Every text lexes or has an open quote -/

/-- An error of the lexer stops the parser wherever it stands. -/
theorem parseLoop_error {s v r : Str} (h : parseToken s = (.error, v, r)) (fuel : Nat) (p : Parser) :
    (parseLoop fuel p s).1 = false := by
  cases fuel with
  | zero => rfl
  | succ n =>
    rw [parseLoop_turn, h]
    rfl

theorem parseLoop_reject {s rest : Str} {t : Token} (h : parseToken s = (t.type, t.text, rest))
    (ih : ∀ fuel p, (parseLoop fuel p rest).1 = false) (fuel : Nat) (p : Parser) :
    (parseLoop fuel p s).1 = false := by
  cases fuel with
  | zero => rfl
  | succ n =>
    rw [parseLoop_turn, h, turn_given]
    cases feed p t.type t.text with
    | none => rfl
    | some p' => exact ih n p'

/-- A list splits at its first element with a property, if it has one. -/
theorem split_at_first (P : Byte → Prop) (s : Str) :
    (∀ x ∈ s, ¬ P x) ∨ ∃ a c b, s = a ++ c :: b ∧ (∀ x ∈ a, ¬ P x) ∧ P c := by
  induction s with
  | nil => simp
  | cons c s ih =>
    by_cases hc : P c
    · exact .inr ⟨[], c, s, rfl, by simp, hc⟩
    · rcases ih with h | ⟨a, d, b, rfl, ha, hd⟩
      · exact .inl (by simpa [hc] using h)
      · exact .inr ⟨c :: a, d, b, rfl, by simpa [hc] using ha, hd⟩

/-- How a text starts. -/
inductive Start : Str → Prop
  | done : Start []
  | cut {w} : PlainWord w → Start w
  | blank {c} (s) : isBlank c → Start (c :: s)
  | comment {body c} (s) : (∀ x ∈ body, ¬ isEol x) → isEol c → Start ('#' :: (body ++ c :: s))
  | lastComment {body} : (∀ x ∈ body, ¬ isEol x) → Start ('#' :: body)
  | semicolon (s) : Start (';' :: s)
  | openBrace (s) : Start ('{' :: s)
  | closeBrace (s) : Start ('}' :: s)
  | quoted {w} (s) : QuotedWord w → Start (w ++ s)
  | plain {w c} (s) : PlainWord w → endsWord c → Start (w ++ c :: s)
  | unclosed {q body} : isQuote q → q ∉ body → Start (q :: body)

theorem text_start (s : Str) : Start s := by
  cases s with
  | nil => exact .done
  | cons c s =>
    by_cases hb : isBlank c
    · exact .blank s hb
    by_cases h1 : c = '{'
    · subst h1; exact .openBrace s
    by_cases h2 : c = '}'
    · subst h2; exact .closeBrace s
    by_cases h3 : c = ';'
    · subst h3; exact .semicolon s
    by_cases h4 : c = '#'
    · subst h4
      rcases split_at_first isEol s with hs | ⟨a, d, b, rfl, ha, hd⟩
      · exact .lastComment hs
      · exact .comment b ha hd
    by_cases h5 : isQuote c
    · rcases split_at_first (· = c) s with hs | ⟨a, d, b, rfl, ha, rfl⟩
      · exact .unclosed h5 fun h => hs c h rfl
      · have e : d :: (a ++ d :: b) = (d :: a ++ [d]) ++ b := by simp
        rw [e]
        exact .quoted b (.mk d a h5 fun h => ha d h rfl)
    · have hst : startsWord c := by
        simp only [isQuote, not_or] at h5
        exact ⟨hb, h1, h2, h4, h5.1, h5.2, h3⟩
      rcases split_at_first endsWord s with hs | ⟨a, d, b, rfl, ha, hd⟩
      · exact .cut (.mk c s hst hs)
      · exact .plain b (.mk c a hst ha) hd

/-- A text either has tokens or is rejected whatever the parser has read before. -/
theorem text_or_reject (s : Str) :
    (∃ ts t, Text s ts t) ∨ ∀ fuel p, (parseLoop fuel p s).1 = false := by
  induction hn : s.length using Nat.strong_induction_on generalizing s with
  | _ n ih =>
    subst hn
    -- what follows the first token, when that token is read without error
    have next : ∀ {s rest : Str} {t : Token}, parseToken s = (t.type, t.text, rest) →
        ((∃ ts t, Text rest ts t) ∨ ∀ fuel p, (parseLoop fuel p rest).1 = false) →
        (∀ ts t', Text rest ts t' → Text s (t :: ts) t') →
        (∃ ts t, Text s ts t) ∨ ∀ fuel p, (parseLoop fuel p s).1 = false := by
      intro s rest t h hrest hcons
      rcases hrest with ⟨ts, t', ht⟩ | hr
      · exact .inl ⟨_, _, hcons ts t' ht⟩
      · exact .inr (parseLoop_reject h hr)
    cases text_start s with
    | done => exact .inl ⟨_, _, .done⟩
    | cut hw => exact .inl ⟨_, _, .cut hw⟩
    | blank s hb =>
      rcases ih _ (by simp) s rfl with ⟨ts, t, ht⟩ | hr
      · exact .inl ⟨_, _, .blank hb ht⟩
      · exact .inr fun fuel p => by rw [parseLoop_blank hb, hr]
    | @comment body c s hb hc =>
      rcases ih s.length (by simp; omega) s rfl with ⟨ts, t, ht⟩ | hr
      · exact .inl ⟨_, _, .comment hb hc ht⟩
      · right
        rintro (_ | fuel) p
        · rfl
        · rw [parseLoop_turn, parseToken_comment hb hc]
          exact hr fuel p
    | lastComment hb => exact .inl ⟨_, _, .lastComment hb⟩
    | semicolon s => exact next (t := .semicolon) rfl (ih _ (by simp) s rfl) fun _ _ => .semicolon
    | openBrace s => exact next (t := .openBrace) rfl (ih _ (by simp) s rfl) fun _ _ => .openBrace
    | closeBrace s => exact next (t := .closeBrace) rfl (ih _ (by simp) s rfl) fun _ _ => .closeBrace
    | @quoted w s hw =>
      have hlt : s.length < (w ++ s).length := by
        rw [List.length_append]
        exact Nat.lt_add_of_pos_left hw.length_pos
      exact next (t := .word w) (parseToken_quoted hw s) (ih _ hlt s rfl) fun _ _ => .quoted hw
    | @plain w c s hw hc =>
      have hlt : (c :: s).length < (w ++ c :: s).length := by
        rw [List.length_append]
        exact Nat.lt_add_of_pos_left hw.length_pos
      exact next (t := .word w) (parseToken_plain hw hc s) (ih _ hlt _ rfl) fun _ _ => .plain hw hc
    | unclosed hq hb => exact .inr (parseLoop_error (parseToken_unclosed hq hb))

end GittyUp.Config
