import GittyUp.Config.Text
/-!
# What the parser accepts

`Derives` is the grammar `config := stmt+`, `stmt := word+ ';' | word+ '{' config '}'`
on tokens, with the tree of each derivation. `run_iff` says that the token
automaton accepts exactly the grammar and builds the tree of the derivation. The
parser is that automaton on the tokens before a word cut off by the end of the
file, so it accepts a text that is a config followed by such a word, and the word
is in no statement (`parse_faithful_iff`).
-/
open Lib

namespace GittyUp.Config

/-! ## The grammar -/

inductive Derives : List Token → NginxConfig → Prop
  | line {ws} : ws ≠ [] → Derives (ws.map .word ++ [.semicolon]) [.line ws]
  | block {ws ts c} : ws ≠ [] → Derives ts c →
      Derives (ws.map .word ++ .openBrace :: (ts ++ [.closeBrace])) [.block ws c]
  | append {ts c us d} : Derives ts c → Derives us d → Derives (ts ++ us) (c ++ d)

/-- A config ends in ';' or '}'. -/
theorem derives_last {ts : List Token} {c : NginxConfig} (h : Derives ts c) :
    ∃ us, ts = us ++ [.semicolon] ∨ ts = us ++ [.closeBrace] := by
  induction h with
  | line => exact ⟨_, .inl rfl⟩
  | @block ws ts => exact ⟨ws.map .word ++ .openBrace :: ts, .inr (by simp)⟩
  | @append ts _ _ _ _ _ _ ih =>
    obtain ⟨us, rfl | rfl⟩ := ih
    · exact ⟨ts ++ us, .inl (by simp)⟩
    · exact ⟨ts ++ us, .inr (by simp)⟩

theorem not_derives_word (ts : List Token) (w : Str) (c : NginxConfig) : ¬ Derives (ts ++ [.word w]) c := by
  intro h
  obtain ⟨us, h | h⟩ := derives_last h <;> simp at h

/-- `s` is a statement of the config, at some depth. -/
inductive Within (s : Statement) : NginxConfig → Prop
  | here {c : NginxConfig} : s ∈ c → Within s c
  | child {t : Statement} {c d : NginxConfig} : t ∈ c → t.childBlock = some d → Within s d → Within s c

theorem within_cons {s t : Statement} {c : NginxConfig} :
    Within s (t :: c) ↔ s = t ∨ (∃ d, t.childBlock = some d ∧ Within s d) ∨ Within s c := by
  constructor
  · rintro (h | ⟨h, hd, hw⟩)
    · exact (List.mem_cons.1 h).imp_right fun h => .inr (.here h)
    · rcases List.mem_cons.1 h with rfl | h
      · exact .inr (.inl ⟨_, hd, hw⟩)
      · exact .inr (.inr (.child h hd hw))
  · rintro (rfl | ⟨d, hd, hw⟩ | h)
    · exact .here (by simp)
    · exact .child (by simp) hd hw
    · cases h with
      | here h => exact .here (by simp [h])
      | child h hd hw => exact .child (by simp [h]) hd hw

theorem within_append {s : Statement} {c d : NginxConfig} : Within s (c ++ d) ↔ Within s c ∨ Within s d := by
  induction c with
  | nil =>
    have : ¬ Within s [] := by rintro (h | ⟨h, -, -⟩) <;> cases h
    simp [this]
  | cons t c ih => rw [List.cons_append, within_cons, within_cons, ih, or_assoc, or_assoc]

/-- A statement of the tree has words, and they are words of the text. -/
theorem derives_within {ts : List Token} {c : NginxConfig} (h : Derives ts c) {s : Statement} (hs : Within s c) :
    s.tokens ≠ [] ∧ ∀ w ∈ s.tokens, .word w ∈ ts := by
  have hnil : ¬ Within s [] := by rintro (h | ⟨h, -, -⟩) <;> cases h
  induction h with
  | line hw =>
    obtain rfl | ⟨d, hd, -⟩ | h := within_cons.1 hs
    · exact ⟨hw, by simp +contextual⟩
    · cases hd
    · exact absurd h hnil
  | block hw _ ih =>
    obtain rfl | ⟨d, hd, h⟩ | h := within_cons.1 hs
    · exact ⟨hw, by simp +contextual⟩
    · cases hd
      obtain ⟨hne, hm⟩ := ih h
      exact ⟨hne, fun w h => by simp [hm w h]⟩
    · exact absurd h hnil
  | append _ _ ih₁ ih₂ =>
    rcases within_append.1 hs with h | h
    · exact ⟨(ih₁ h).1, fun w hw => List.mem_append_left _ ((ih₁ h).2 w hw)⟩
    · exact ⟨(ih₂ h).1, fun w hw => List.mem_append_right _ ((ih₂ h).2 w hw)⟩

/-! ## Every derivation is accepted -/

/-- A statement may begin after `l`. -/
def Ready (l : TokenType) : Prop := l = .start ∨ l = .statementEnd ∨ l = .startBlock ∨ l = .endBlock

/-- A statement was just ended. -/
def Ended (l : TokenType) : Prop := l = .statementEnd ∨ l = .endBlock

theorem Ended.ready {l : TokenType} (h : Ended l) : Ready l := h.elim (fun h => .inr (.inl h)) fun h => .inr (.inr (.inr h))

@[simp] theorem pushToken_line (c : NginxConfig) (ws : List Str) (w : Str) :
    pushToken w (c ++ [.line ws]) = c ++ [.line (ws ++ [w])] := by
  simp [pushToken, List.modifyLast_concat]

@[simp] theorem setChild_line (d c : NginxConfig) (ws : List Str) :
    setChild d (c ++ [.line ws]) = c ++ [.block ws d] := by
  simp [setChild, List.modifyLast_concat]

theorem feed_first {l : TokenType} (hl : Ready l) (c : NginxConfig) (rest : List NginxConfig) (n : Int) (w : Str) :
    feed ⟨c :: rest, l, n⟩ .normal w = some ⟨(c ++ [.line [w]]) :: rest, .normal, n⟩ := by
  rcases hl with rfl | rfl | rfl | rfl <;> simp [feed, onTop, pushToken_line c []]

theorem feed_word (c : NginxConfig) (ws : List Str) (rest : List NginxConfig) (n : Int) (w : Str) :
    feed ⟨(c ++ [.line ws]) :: rest, .normal, n⟩ .normal w =
      some ⟨(c ++ [.line (ws ++ [w])]) :: rest, .normal, n⟩ := by
  simp [feed, onTop]

theorem run_words (c : NginxConfig) (ws vs : List Str) (rest : List NginxConfig) (n : Int) (us : List Token) :
    run ⟨(c ++ [.line ws]) :: rest, .normal, n⟩ (vs.map .word ++ us) =
      run ⟨(c ++ [.line (ws ++ vs)]) :: rest, .normal, n⟩ us := by
  induction vs generalizing ws with
  | nil => simp
  | cons v vs ih =>
    rw [List.map_cons, List.cons_append, run]
    simp only [Token.type, Token.text, feed_word]
    rw [ih]; simp

theorem run_statement {l : TokenType} (hl : Ready l) (c : NginxConfig) {ws : List Str} (hw : ws ≠ [])
    (rest : List NginxConfig) (n : Int) (us : List Token) :
    run ⟨c :: rest, l, n⟩ (ws.map .word ++ us) = run ⟨(c ++ [.line ws]) :: rest, .normal, n⟩ us := by
  obtain ⟨w, ws, rfl⟩ := List.exists_cons_of_ne_nil hw
  rw [List.map_cons, List.cons_append, run]
  simp only [Token.type, Token.text, feed_first hl]
  exact run_words c [w] ws rest n us

/-- Reading a config appends its tree to the config on top. -/
theorem run_derives {ts : List Token} {d : NginxConfig} (h : Derives ts d) :
    ∀ {l : TokenType} (_ : Ready l) (c : NginxConfig) (rest : List NginxConfig) (n : Int) (_ : 0 ≤ n)
      (us : List Token), ∃ l', Ended l' ∧ run ⟨c :: rest, l, n⟩ (ts ++ us) = run ⟨(c ++ d) :: rest, l', n⟩ us := by
  induction h with
  | line hw =>
    intro l hl c rest n hn us
    refine ⟨.statementEnd, .inl rfl, ?_⟩
    rw [List.append_assoc, run_statement hl c hw]
    rfl
  | @block ws ts d hw _ ih =>
    intro l hl c rest n hn us
    obtain ⟨l', hl', e⟩ := ih (l := .startBlock) (.inr (.inr (.inl rfl))) [] ((c ++ [.line ws]) :: rest) (n + 1)
      (by omega) (.closeBrace :: us)
    refine ⟨.endBlock, .inr rfl, ?_⟩
    calc run ⟨c :: rest, l, n⟩ (ws.map .word ++ .openBrace :: (ts ++ [.closeBrace]) ++ us)
        = run ⟨(c ++ [.line ws]) :: rest, .normal, n⟩ (.openBrace :: (ts ++ .closeBrace :: us)) := by
          rw [List.append_assoc, run_statement hl c hw]; simp
      _ = run ⟨[] :: (c ++ [.line ws]) :: rest, .startBlock, n + 1⟩ (ts ++ .closeBrace :: us) := rfl
      _ = run ⟨([] ++ d) :: (c ++ [.line ws]) :: rest, l', n + 1⟩ (.closeBrace :: us) := e
      _ = run ⟨(c ++ [.block ws d]) :: rest, .endBlock, n⟩ us := by
          have hc : ¬ (l' ≠ .statementEnd ∧ l' ≠ .endBlock) := by rcases hl' with rfl | rfl <;> simp
          rw [run]
          simp only [Token.type, feed, if_neg hc, Int.add_sub_cancel, if_neg (Int.not_lt.2 hn), pop,
            List.nil_append, setChild_line]
  | append _ _ ih1 ih2 =>
    intro l hl c rest n hn us
    obtain ⟨l1, hl1, e1⟩ := ih1 hl c rest n hn (_ ++ us)
    obtain ⟨l2, hl2, e2⟩ := ih2 hl1.ready _ rest n hn us
    exact ⟨l2, hl2, by rw [List.append_assoc, e1, e2, List.append_assoc]⟩

/-- The parser before its first token. -/
def initial : Parser := ⟨[[]], .start, 0⟩

theorem run_of_derives {ts : List Token} {c : NginxConfig} (h : Derives ts c) : run initial ts = (true, c) := by
  obtain ⟨l, hl, e⟩ := run_derives h (l := .start) (.inl rfl) [] [] 0 (Int.le_refl 0) []
  rw [List.append_nil] at e
  rw [initial, e]
  rcases hl with rfl | rfl <;> simp [run, accepts, tree]

/-! ## Everything accepted is derived -/

/-- The statements of `c` were read from `ts`; none may have been. -/
def Done (ts : List Token) (c : NginxConfig) : Prop := (ts = [] ∧ c = []) ∨ Derives ts c

theorem Done.extend {ts us : List Token} {c d : NginxConfig} (h : Done ts c) (hd : Derives us d) :
    Done (ts ++ us) (c ++ d) := by
  rcases h with ⟨rfl, rfl⟩ | h
  · exact .inr hd
  · exact .inr (.append h hd)

theorem Done.derives {ts : List Token} {c : NginxConfig} (h : Done ts c) (hc : c ≠ []) : Derives ts c :=
  h.resolve_left fun h => hc h.2

/-- The tokens that filled the stack: each config but the top one waits for the
block of its last statement. -/
inductive Stacked : List Token → List NginxConfig → Prop
  | root {ts c} : Done ts c → Stacked ts [c]
  | nest {ts below rest ws us top} : Stacked ts (below :: rest) → ws ≠ [] → Done us top →
      Stacked (ts ++ ws.map .word ++ .openBrace :: us) (top :: (below ++ [.line ws]) :: rest)

theorem Stacked.extend {ts us : List Token} {c d : NginxConfig} {rest : List NginxConfig}
    (h : Stacked ts (c :: rest)) (hd : Derives us d) : Stacked (ts ++ us) ((c ++ d) :: rest) := by
  cases h with
  | root hc => exact .root (hc.extend hd)
  | nest hs hw hc =>
    rw [List.append_assoc, List.cons_append]
    exact .nest hs hw (hc.extend hd)

/-- The parser has read `ts`: between two statements, or inside one. -/
inductive Reads : List Token → Parser → Prop
  | between {ts c rest l n} : Ready l → Stacked ts (c :: rest) → (Ended l → c ≠ []) → n = (rest.length : Int) →
      Reads ts ⟨c :: rest, l, n⟩
  | inside {ts c rest ws n} : ws ≠ [] → Stacked ts (c :: rest) → n = (rest.length : Int) →
      Reads (ts ++ ws.map .word) ⟨(c ++ [.line ws]) :: rest, .normal, n⟩

/-- What one token can do to the parser. -/
theorem reads_step {ts : List Token} {p p' : Parser} {t : Token} (h : Reads ts p)
    (hf : feed p t.type t.text = some p') : Reads (ts ++ [t]) p' := by
  cases h with
  | @between ts c rest l n hl hs hne hn =>
    cases t with
    | word w =>
      rw [Token.type, feed_first hl] at hf
      cases hf
      exact @Reads.inside ts c rest [w] n (by simp) hs hn
    | semicolon | openBrace =>
      rcases hl with rfl | rfl | rfl | rfl <;> simp [Token.type, feed] at hf
    | closeBrace =>
      simp only [Token.type, feed] at hf
      split at hf
      · cases hf
      have hc : Ended l := by unfold Ended; tauto
      split at hf
      · cases hf
      cases hf
      cases hs with
      | root => simp at *; omega
      | @nest ts below rest ws us _ hs hw hd =>
        have hb := hs.extend (.block hw (hd.derives (hne hc)))
        simp only [pop, setChild_line]
        rw [show ts ++ ws.map .word ++ .openBrace :: us ++ [.closeBrace] =
          ts ++ (ws.map .word ++ .openBrace :: (us ++ [.closeBrace])) by simp]
        exact .between (.inr (.inr (.inr rfl))) hb (by simp) (by simp at hn; omega)
  | @inside ts c rest ws n hw hs hn =>
    cases t with
    | word w =>
      rw [Token.type, feed_word] at hf
      cases hf
      rw [List.append_assoc, ← List.map_singleton, ← List.map_append]
      exact .inside (by simp) hs hn
    | semicolon =>
      simp [Token.type, feed] at hf
      subst hf
      rw [List.append_assoc]
      exact .between (.inr (.inl rfl)) (hs.extend (.line hw)) (by simp) hn
    | openBrace =>
      simp [Token.type, feed] at hf
      subst hf
      exact .between (.inr (.inr (.inl rfl))) (.nest hs hw (.inl ⟨rfl, rfl⟩)) (by simp [Ended]) (by simp; omega)
    | closeBrace => simp [Token.type, feed] at hf

theorem reads_accepts {ts : List Token} {p : Parser} (h : Reads ts p) (ha : accepts p = true) :
    Derives ts (tree p.stack) := by
  simp only [accepts, Bool.and_eq_true, Bool.or_eq_true, decide_eq_true_eq] at ha
  cases h with
  | between hl hs hne hn =>
    cases hs with
    | root hc => exact hc.derives (hne ha.1)
    | nest => simp at hn ha; omega
  | inside => simp at ha

theorem derives_of_run {us : List Token} : ∀ {ts : List Token} {p : Parser} {c : NginxConfig}, Reads ts p →
    run p us = (true, c) → Derives (ts ++ us) c := by
  induction us with
  | nil =>
    intro ts p c h hr
    simp only [run, Prod.mk.injEq] at hr
    rw [List.append_nil, ← hr.2]
    exact reads_accepts h hr.1
  | cons t us ih =>
    intro ts p c h hr
    rw [run] at hr
    cases hf : feed p t.type t.text with
    | none => rw [hf] at hr; cases hr
    | some p' =>
      rw [hf] at hr
      have := ih (reads_step h hf) hr
      rwa [List.append_assoc] at this

/-- The token automaton accepts the grammar, with the tree of the derivation. -/
theorem run_iff (ts : List Token) (c : NginxConfig) : run initial ts = (true, c) ↔ Derives ts c := by
  refine ⟨fun h => ?_, run_of_derives⟩
  have h0 : Reads [] initial := .between (.inl rfl) (.root (.inl ⟨rfl, rfl⟩)) (by simp [Ended]) rfl
  exact derives_of_run h0 h

/-! ## The parser -/

theorem parse_text {s : Str} {ts : List Token} {t : Option Str} (h : Text s ts t) : parse s = run initial ts :=
  parseLoop_text h _ (Nat.lt_succ_self _) _

/-- Exactly what `Parse` accepts: a config, whatever word the end of the file cuts off after it. -/
theorem parse_iff (s : Str) (c : NginxConfig) :
    parse s = (true, c) ↔ ∃ ts t, Text s ts t ∧ Derives ts c := by
  constructor
  · intro h
    rcases text_or_reject s with ⟨ts, t, ht⟩ | hr
    · exact ⟨ts, t, ht, (run_iff ts c).1 (parse_text ht ▸ h)⟩
    · have := hr (s.length + 1) initial
      rw [show parseLoop (s.length + 1) initial s = (true, c) from h] at this
      cases this
  · rintro ⟨ts, t, ht, hd⟩
    rw [parse_text ht, (run_iff ts c).2 hd]

/-- Every statement of an accepted config has words, and none of them is empty. -/
theorem parse_within {s : Str} {c : NginxConfig} (h : parse s = (true, c)) {st : Statement} (hs : Within st c) :
    st.tokens ≠ [] ∧ ∀ w ∈ st.tokens, w ≠ [] := by
  obtain ⟨ts, t, ht, hd⟩ := (parse_iff s c).1 h
  obtain ⟨hne, hw⟩ := derives_within hd hs
  refine ⟨hne, fun w hm => ?_⟩
  rcases text_words ht w (hw w hm) with h | h <;> cases h <;> simp

/-! ## The word the end of the file cuts off -/

/-- What the lexer has written to `value` when it meets the end of the file. -/
def eofValue : Nat → Str → Str
  | 0, _ => []
  | fuel + 1, input =>
    match parseToken input with
    | (.eof, value, _) => value
    | (_, _, rest) => eofValue fuel rest

/-- `v` is the cut word, or is empty or a comment when there is none. -/
def IsTail (v : Str) : Option Str → Prop
  | some w => v = w ∧ PlainWord w
  | none => v = [] ∨ v.head? = some '#'

theorem eofValue_next {s rest : Str} {ty : TokenType} {v : Str} {t : Option Str} (h : parseToken s = (ty, v, rest))
    (hty : ty ≠ .eof) (hlt : rest.length < s.length) (ih : ∀ fuel, rest.length < fuel → IsTail (eofValue fuel rest) t)
    (fuel : Nat) (hf : s.length < fuel) : IsTail (eofValue fuel s) t := by
  obtain ⟨n, rfl⟩ : ∃ n, fuel = n + 1 := ⟨fuel - 1, by omega⟩
  rw [eofValue, h]
  cases ty <;> first | exact absurd rfl hty | exact ih n (by omega)

theorem eofValue_eof {s v : Str} {t : Option Str} (h : parseToken s = (.eof, v, [])) (hv : IsTail v t)
    (fuel : Nat) (hf : s.length < fuel) : IsTail (eofValue fuel s) t := by
  obtain ⟨n, rfl⟩ : ∃ n, fuel = n + 1 := ⟨fuel - 1, by omega⟩
  rw [eofValue, h]; exact hv

theorem text_tail {s : Str} {ts : List Token} {t : Option Str} (h : Text s ts t) :
    ∀ fuel, s.length < fuel → IsTail (eofValue fuel s) t := by
  induction h with
  | done => exact eofValue_eof rfl (.inl rfl)
  | cut hw => exact eofValue_eof (parseToken_cut hw) ⟨rfl, hw⟩
  | @blank c s _ _ hc _ ih =>
    intro fuel hf
    obtain ⟨n, rfl⟩ : ∃ n, fuel = n + 1 := ⟨fuel - 1, by omega⟩
    rw [show eofValue (n + 1) (c :: s) = eofValue (n + 1) s by rw [eofValue, eofValue, parseToken_blank hc]]
    exact ih _ (by simp at hf; omega)
  | comment hb hc _ ih => exact eofValue_next (parseToken_comment hb hc _) (by simp) (by simp; omega) ih
  | lastComment hb => exact eofValue_eof (parseToken_lastComment hb) (.inr rfl)
  | semicolon _ ih | openBrace _ ih | closeBrace _ ih => exact eofValue_next rfl (by simp) (by simp) ih
  | quoted hw _ ih => exact eofValue_next (parseToken_quoted hw _) (by simp) (by cases hw; simp; omega) ih
  | plain hw hc _ ih =>
    refine eofValue_next (parseToken_plain hw hc _) (by simp) ?_ ih
    cases hw
    simp only [List.length_append, List.length_cons]
    omega

/-- A text whose last word is cut off has no reading without it. -/
theorem text_cut_unique {s : Str} {ts us : List Token} {w : Str} (h : Text s ts (some w)) : ¬ Text s us none := by
  intro h'
  obtain ⟨e, hw⟩ := text_tail h (s.length + 1) (Nat.lt_succ_self _)
  have hn := text_tail h' (s.length + 1) (Nat.lt_succ_self _)
  rw [e] at hn
  cases hw with
  | mk c w hc _ =>
    rcases hn with h | h
    · cases h
    · exact hc.2.2.2.1 (Option.some.inj h)

/-- The words of the whole text, in its statements: `s` is a config with the tree `c`. -/
def Describes (s : Str) (c : NginxConfig) : Prop :=
  ∃ ts cut, Text s ts cut ∧ Derives (ts ++ (cut.map Token.word).toList) c

theorem describes_iff {s : Str} {c : NginxConfig} : Describes s c ↔ ∃ ts, Text s ts none ∧ Derives ts c := by
  constructor
  · rintro ⟨ts, cut, ht, hd⟩
    cases cut with
    | none => exact ⟨ts, ht, by simpa using hd⟩
    | some w => exact absurd hd (not_derives_word ts w c)
  · rintro ⟨ts, ht, hd⟩
    exact ⟨ts, none, ht, by simpa using hd⟩

/-- The parser answers truthfully for `s`: it accepts exactly a config, and its
tree then holds every word of the text in the statement it was written in. -/
def Faithful (s : Str) : Prop :=
  ((parse s).1 = true ↔ ∃ c, Describes s c) ∧ ((parse s).1 = true → Describes s (parse s).2)

theorem not_faithful_of_cut {s w : Str} {ts : List Token} {c : NginxConfig} (ht : Text s ts (some w))
    (hd : Derives ts c) : ¬ Faithful s := by
  rintro ⟨h, -⟩
  have hp : parse s = (true, c) := (parse_iff s c).2 ⟨ts, _, ht, hd⟩
  obtain ⟨c', hc'⟩ := h.1 (by rw [hp])
  obtain ⟨us, hu, -⟩ := describes_iff.1 hc'
  exact text_cut_unique ht hu

/-- The parser is truthful except on a config followed by a word that the end of
the file cuts off: it accepts that text and drops the word. -/
theorem parse_faithful_iff (s : Str) :
    Faithful s ↔ ¬ ∃ ts w c, Text s ts (some w) ∧ Derives ts c := by
  constructor
  · rintro h ⟨ts, w, c, ht, hd⟩
    exact not_faithful_of_cut ht hd h
  · intro hn
    have sound : (parse s).1 = true → Describes s (parse s).2 := by
      intro ha
      obtain ⟨ts, t, ht, hd⟩ := (parse_iff s (parse s).2).1 (by rw [← ha])
      cases t with
      | none => exact describes_iff.2 ⟨ts, ht, hd⟩
      | some w => exact absurd ⟨ts, w, _, ht, hd⟩ hn
    refine ⟨⟨fun ha => ⟨_, sound ha⟩, ?_⟩, sound⟩
    rintro ⟨c, hc⟩
    obtain ⟨ts, ht, hd⟩ := describes_iff.1 hc
    rw [(parse_iff s c).2 ⟨ts, none, ht, hd⟩]

/-- `a; b` is accepted, and `b` is in no statement. -/
theorem parse_drops_last_word : parse "a; b" = (true, [.line ["a"]]) ∧ ¬ Faithful "a; b" := by
  have hp : parse (str "a; b") = (true, [.line [str "a"]]) := by rfl
  refine ⟨hp, ?_⟩
  have ht : Text (str "a; b") [.word (str "a"), .semicolon] (some (str "b")) := by
    have ha : PlainWord (str "a") := .mk 'a' [] (by decide) (by simp)
    have hb : PlainWord (str "b") := .mk 'b' [] (by decide) (by simp)
    exact .plain (c := ';') ha (by decide) (.semicolon (.blank (c := ' ') (by decide) (.cut hb)))
  exact not_faithful_of_cut ht (@Derives.line [str "a"] (by simp))

end GittyUp.Config
