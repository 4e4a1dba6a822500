import GittyUp.Config.Stack
/-!
# One text behind another

What the parser makes of an accepted text with more text behind it, from the next
line on. `parse_append_iff` says that the statements of the two texts stand one
after the other, but for a word at the end of the first text: it was in no
statement, and becomes the first word of the second text.
-/
open Lib

namespace GittyUp.Config

/-- The word that the end of the file cuts off, if there is one. -/
def cutWord (s : Str) : Str :=
  if (eofValue (s.length + 1) s).head? = some '#' then [] else eofValue (s.length + 1) s

/-- Blanks and comments, and perhaps a word that the end of the file cuts off. -/
def Tokenless (s : Str) : Prop := ∃ cut, Text s [] cut

def onBottom (f : NginxConfig → NginxConfig) : List NginxConfig → List NginxConfig
  | [] => []
  | [c] => [f c]
  | c :: below :: rest => c :: onBottom f (below :: rest)

/-- The parser as it is if it has read the statements of `c` before. -/
def Parser.behind (c : NginxConfig) (p : Parser) : Parser := ⟨onBottom (c ++ ·) p.stack, p.last, p.startBlock⟩

/-! ## The token loop -/

/-- The config on top, and what is below it: what is put at its end is put there in
either parser. -/
theorem onBottom_top (c d : NginxConfig) (rest : List NginxConfig) :
    ∃ pre below, ∀ e, onBottom (c ++ ·) ((d ++ e) :: rest) = (pre ++ e) :: below := by
  cases rest with
  | nil => exact ⟨c ++ d, [], fun e => by simp [onBottom]⟩
  | cons below rest => exact ⟨d, onBottom (c ++ ·) (below :: rest), fun _ => rfl⟩

/-- A token does the same to the parser that has read `c` before. -/
theorem feed_behind {ts : List Token} {p : Parser} (h : Reads ts p) (c : NginxConfig) (t : Token) :
    feed (p.behind c) t.type t.text = (feed p t.type t.text).map (Parser.behind c) := by
  cases h with
  | @between _ d rest l n hl hs hne hn =>
    obtain ⟨pre, below, he⟩ := onBottom_top c d rest
    have hd := he []
    rw [List.append_nil, List.append_nil] at hd
    unfold Parser.behind
    cases t with
    | word w =>
      simp only [Token.type, hd]
      rw [feed_first hl, feed_first hl, Option.map_some, he]
    | semicolon | openBrace => rcases hl with rfl | rfl | rfl | rfl <;> rfl
    | closeBrace =>
      simp only [Token.type, feed]
      split_ifs with hlast hnone
      · rfl
      · rfl
      · cases hs with
        | root => simp at hn; omega
        | @nest _ below' rest' ws _ _ _ _ _ =>
          obtain ⟨pre', rest'', he'⟩ := onBottom_top c below' rest'
          have hpop : pop (onBottom (c ++ ·) (d :: (below' ++ [.line ws]) :: rest')) =
              onBottom (c ++ ·) (pop (d :: (below' ++ [.line ws]) :: rest')) := by
            rw [onBottom, he', pop, pop, setChild_line, setChild_line, he']
          rw [Option.map_some, hpop]
  | @inside _ d rest ws n hw hs hn =>
    obtain ⟨pre, below, he⟩ := onBottom_top c d rest
    unfold Parser.behind
    cases t with
    | word w =>
      simp only [Token.type, he]
      rw [feed_word, feed_word, Option.map_some, he]
    | semicolon => rfl
    | openBrace => simp [Token.type, feed, he, onBottom]
    | closeBrace => rfl

/-- At the end of an accepted text only the root is left. -/
theorem reads_alone {ts : List Token} {p : Parser} (h : Reads ts p) (ha : accepts p = true) : ∃ d, p.stack = [d] := by
  obtain ⟨d, rest, hstack, hn⟩ := reads_height h
  simp only [accepts, Bool.and_eq_true, decide_eq_true_eq] at ha
  have hrest : rest = [] := List.eq_nil_of_length_eq_zero (by omega)
  exact ⟨d, hrest ▸ hstack⟩

/-- What is read from `p` on does not depend on what is before it. -/
theorem run_behind (c : NginxConfig) {us : List Token} : ∀ {ts : List Token} {p : Parser}, Reads ts p → ∀ e,
    run (p.behind c) us = (true, e) ↔ ∃ d, e = c ++ d ∧ run p us = (true, d) := by
  induction us with
  | nil =>
    intro ts p h e
    have hb : accepts (p.behind c) = accepts p := rfl
    simp only [run, Prod.mk.injEq, hb]
    constructor
    · rintro ⟨ha, rfl⟩
      obtain ⟨d, hd⟩ := reads_alone h ha
      exact ⟨d, by simp [Parser.behind, hd, onBottom, tree], ha, by simp [hd, tree]⟩
    · rintro ⟨d, rfl, ha, rfl⟩
      obtain ⟨d, hd⟩ := reads_alone h ha
      exact ⟨ha, by simp [Parser.behind, hd, onBottom, tree]⟩
  | cons t us ih =>
    intro ts p h e
    rw [run, run, feed_behind h]
    cases hf : feed p t.type t.text with
    | none => simp
    | some p' => exact ih (reads_step h hf) e

/-- What follows the statements of an accepted text. -/
theorem run_after {l : TokenType} (hl : Ended l) (c : NginxConfig) (us : List Token) (e : NginxConfig) :
    run ⟨[c], l, 0⟩ us = (true, e) ↔ (us = [] ∧ e = c) ∨ ∃ d, e = c ++ d ∧ run initial us = (true, d) := by
  cases us with
  | nil => rcases hl with rfl | rfl <;> simp [run, accepts, tree, initial, eq_comm]
  | cons t us =>
    cases t with
    | word w =>
      have hfirst : feed initial .normal w = some ⟨[[.line [w]]], .normal, 0⟩ := feed_first (.inl rfl) [] [] 0 w
      have hb : run ⟨[c ++ [.line [w]]], .normal, 0⟩ us = (true, e) ↔ _ :=
        run_behind c (reads_step (t := .word w) reads_initial hfirst) e
      rw [run, run]
      simp only [Token.type, Token.text]
      rw [feed_first hl.ready, hfirst]
      simpa using hb
    | semicolon | openBrace | closeBrace =>
      rcases hl with rfl | rfl <;> simp [run, Token.type, feed, initial]

/-! ## The texts -/

theorem cutWord_text {s : Str} {ts : List Token} {cut : Option Str} (h : Text s ts cut) : cutWord s = cut.getD [] := by
  have ht := text_tail h (s.length + 1) (Nat.lt_succ_self _)
  unfold cutWord
  cases cut with
  | none =>
    rcases ht with h | h
    · rw [h]; rfl
    · rw [if_pos h]; rfl
  | some w =>
    obtain ⟨he, hw⟩ := ht
    rw [he]
    cases hw with
    | mk x w hx _ => exact if_neg fun h => hx.2.2.2.1 (Option.some.inj h)

/-- A text without tokens has no other reading. -/
theorem tokenless_iff {s : Str} {ts : List Token} {cut : Option Str} (h : Text s ts cut) : Tokenless s ↔ ts = [] := by
  constructor
  · rintro ⟨cut', h'⟩
    have hrun := (parseLoop_text h _ (Nat.lt_succ_self _) ⟨[[]], .statementEnd, 0⟩).symm.trans
      (parseLoop_text h' _ (Nat.lt_succ_self _) _)
    rcases (run_after (.inl rfl) [] ts []).1 hrun with ⟨hts, -⟩ | ⟨d, hd, hrun⟩
    · exact hts
    · exact absurd (List.append_eq_nil_iff.1 hd.symm).2 (derives_ne_nil ((run_iff ts d).1 hrun))
  · rintro rfl
    exact ⟨cut, h⟩

/-- A line break before a text says nothing. -/
theorem text_newline {t : Str} {us : List Token} {cut : Option Str} (h : Text (('\n' : Byte) :: t) us cut) :
    Text t us cut := by
  generalize hs : ('\n' : Byte) :: t = s at h
  cases h with
  | blank _ h =>
    cases hs
    exact h
  | cut hw =>
    cases hw with
    | mk x w hx _ =>
      cases hs
      exact absurd (.inr (.inr (.inl rfl))) hx.1
  | quoted hw =>
    cases hw with
    | mk q body hq _ =>
      cases hs
      rcases hq with hq | hq <;> cases hq
  | plain hw =>
    cases hw with
    | mk x w hx _ =>
      cases hs
      exact absurd (.inr (.inr (.inl rfl))) hx.1
  | _ => cases hs

/-- The tokens of the second text follow those of the first one, whose cut word
becomes one of the second. -/
theorem text_append {s : Str} {ts : List Token} {cut : Option Str} (h : Text s ts cut) {t : Str} {us : List Token}
    {cut' : Option Str} (ht : Text (cut.getD [] ++ ('\n' : Byte) :: t) us cut') :
    Text (s ++ ('\n' : Byte) :: t) (ts ++ us) cut' := by
  induction h with
  | done => exact ht
  | cut => exact ht
  | blank hc _ ih => exact .blank hc (ih ht)
  | comment hb hc _ ih =>
    rw [List.cons_append, List.append_assoc, List.cons_append]
    exact .comment hb hc (ih ht)
  | lastComment hb => exact .comment hb (.inl rfl) (text_newline ht)
  | semicolon _ ih => exact .semicolon (ih ht)
  | openBrace _ ih => exact .openBrace (ih ht)
  | closeBrace _ ih => exact .closeBrace (ih ht)
  | quoted hw _ ih =>
    rw [List.append_assoc]
    exact .quoted hw (ih ht)
  | plain hw hc _ ih =>
    rw [List.append_assoc]
    exact .plain hw hc (ih ht)

/-- A text that cannot be read is not read behind another one either. -/
theorem reject_append {s : Str} {ts : List Token} {cut : Option Str} (h : Text s ts cut) {t : Str}
    (ht : ∀ fuel p, (parseLoop fuel p (cut.getD [] ++ ('\n' : Byte) :: t)).1 = false) :
    ∀ fuel p, (parseLoop fuel p (s ++ ('\n' : Byte) :: t)).1 = false := by
  induction h with
  | done => exact ht
  | cut => exact ht
  | blank hc _ ih =>
    intro fuel p
    rw [List.cons_append, parseLoop_blank hc]
    exact ih ht fuel p
  | comment hb hc _ ih =>
    rintro (_ | fuel) p
    · rfl
    · rw [List.cons_append, List.append_assoc, List.cons_append, parseLoop_turn, parseToken_comment hb hc]
      exact ih ht fuel p
  | lastComment hb =>
    rintro (_ | fuel) p
    · rfl
    · rw [List.cons_append, parseLoop_turn, parseToken_comment hb (.inl rfl)]
      exact (congrArg Prod.fst (parseLoop_blank (.inr (.inr (.inl rfl))) fuel p t)).symm.trans (ht fuel p)
  | semicolon _ ih => exact parseLoop_reject (t := .semicolon) rfl (ih ht)
  | openBrace _ ih => exact parseLoop_reject (t := .openBrace) rfl (ih ht)
  | closeBrace _ ih => exact parseLoop_reject (t := .closeBrace) rfl (ih ht)
  | @quoted w _ _ _ hw _ ih =>
    rw [List.append_assoc]
    exact parseLoop_reject (t := .word w) (parseToken_quoted hw _) (ih ht)
  | @plain w _ _ _ _ hw hc _ ih =>
    rw [List.append_assoc]
    exact parseLoop_reject (t := .word w) (parseToken_plain hw hc _) (ih ht)

/-- The parser accepts an accepted text with more text behind it if and only if it
accepts that text, with the word before it that the end of the first text has cut
off, or finds no token in it. The statements of the two stand one after the other. -/
theorem parse_append_iff {s : Str} {c : NginxConfig} (h : parse s = (true, c)) (t : Str) (e : NginxConfig) :
    parse (s ++ ('\n' : Byte) :: t) = (true, e) ↔ (e = c ∧ Tokenless (cutWord s ++ ('\n' : Byte) :: t)) ∨
      ∃ d, e = c ++ d ∧ parse (cutWord s ++ ('\n' : Byte) :: t) = (true, d) := by
  obtain ⟨ts, cut, htext, hd⟩ := (parse_iff s c).1 h
  rw [cutWord_text htext]
  rcases text_or_reject (cut.getD [] ++ ('\n' : Byte) :: t) with ⟨us, cut', hu⟩ | hr
  · obtain ⟨l, hl, hrun⟩ := run_derives hd (l := .start) (.inl rfl) [] [] 0 (Int.le_refl 0) us
    rw [parse_text (text_append htext hu), parse_text hu, tokenless_iff hu, initial, hrun, and_comm]
    exact run_after hl c us e
  · have hjoined : parse (s ++ ('\n' : Byte) :: t) ≠ (true, e) := fun he =>
      Bool.noConfusion ((congrArg Prod.fst he).symm.trans (reject_append htext hr _ _))
    have hrest : ∀ d, parse (cut.getD [] ++ ('\n' : Byte) :: t) ≠ (true, d) := fun d hd =>
      Bool.noConfusion ((congrArg Prod.fst hd).symm.trans (hr _ _))
    have htokens : ¬ Tokenless (cut.getD [] ++ ('\n' : Byte) :: t) := by
      rintro ⟨cut', h'⟩
      have hrun := parseLoop_text h' _ (Nat.lt_succ_self _) ⟨[[]], .statementEnd, 0⟩
      cases (congrArg Prod.fst hrun).symm.trans (hr _ _)
    refine iff_of_false hjoined ?_
    rintro (⟨-, ht⟩ | ⟨d, -, hd⟩)
    · exact htokens ht
    · exact hrest d hd

/-- Alone, neither text has `b` in a statement. -/
theorem parse_append_word : (parse "a; b").2 ++ (parse "c;").2 = [.line ["a"], .line ["c"]] ∧
    parse (str "a; b" ++ ('\n' : Byte) :: str "c;") = (true, [.line ["a"], .line ["b", "c"]]) := by
  have hfirst : parse (str "a; b") = (true, [.line [str "a"]]) := by rfl
  have hrest : parse (cutWord (str "a; b") ++ ('\n' : Byte) :: str "c;") = (true, [.line [str "b", str "c"]]) := by rfl
  exact ⟨by rfl, (parse_append_iff hfirst _ _).2 (.inr ⟨_, rfl, hrest⟩)⟩

end GittyUp.Config
