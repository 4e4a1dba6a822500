import GittyUp.Config.Stack
/-!
# What is read of a text

`Parse` stops at the first token it does not take, and leaves the statements it has
made so far. `parse_listed` and `parse_stands` say which these are: those that stand
in the first tokens of the text behind whole statements, whatever comes after them.
-/
open Lib

namespace GittyUp.Config

/-- The text starts with these tokens. -/
def Beginning (text : Str) (ts : List Token) : Prop := ∃ a b us cut, text = a ++ b ∧ Text a (ts ++ us) cut

/-- Behind whole statements, outside all blocks, the words `ws` and then `rest`. -/
def Stands (ts : List Token) (ws : List Str) (rest : List Token) : Prop :=
  ∃ before c, ts = before ++ (ws.map .word ++ rest) ∧ Done before c

/-- The tokens of the statement stand among `ts`, with the brace behind them if it has a block. -/
def Listed (ts : List Token) (s : Statement) : Prop :=
  ∃ rest, Stands ts s.tokens rest ∧ (s.childBlock.isSome → rest.head? = some .openBrace)

/-- `d` has the statements of `c`, perhaps with more tokens, and those with a block as they are. -/
def Grows (c d : NginxConfig) : Prop :=
  ∀ s ∈ c, ∃ t ∈ d, s.tokens <+: t.tokens ∧ (s.childBlock.isSome → t.childBlock.isSome ∧ t.tokens = s.tokens)

/-! ## The first tokens -/

theorem text_nil {ts : List Token} {cut : Option Str} (h : Text [] ts cut) : ts = [] := by
  generalize hs : ([] : Str) = s at h
  cases h with
  | done | cut => rfl
  | quoted hw => cases hw; cases hs
  | plain hw => cases hw; cases hs
  | _ => cases hs

/-- What ends a word is a blank or a mark. -/
theorem text_endsWord {c : Byte} (h : endsWord c) : ∃ us, Text [c] us none := by
  rcases h with rfl | rfl | rfl | rfl | rfl | rfl
  · exact ⟨_, .blank (.inl rfl) .done⟩
  · exact ⟨_, .blank (.inr (.inl rfl)) .done⟩
  · exact ⟨_, .blank (.inr (.inr (.inl rfl))) .done⟩
  · exact ⟨_, .semicolon .done⟩
  · exact ⟨_, .openBrace .done⟩
  · exact ⟨_, .closeBrace .done⟩

theorem beginning_nil (text : Str) : Beginning text [] := ⟨[], text, [], none, rfl, .done⟩

/-- The token that the lexer returns comes before those of the rest. -/
theorem beginning_read {s token rest : Str} {type : TokenType} (h : parseToken s = (type, token, rest))
    (he : type ≠ .error) (hf : type ≠ .eof) {ts : List Token} (hr : Beginning rest ts) :
    Beginning s (given type token ++ ts) := by
  induction hn : s.length generalizing s with
  | zero =>
    rw [List.length_eq_zero_iff.1 hn] at h
    cases h
    exact absurd rfl hf
  | succ n ih =>
    cases text_start s with
    | done => cases hn
    | cut hw =>
      rw [parseToken_cut hw] at h
      cases h
      exact absurd rfl hf
    | blank s hb =>
      rw [parseToken_blank hb] at h
      obtain ⟨a, b, us, cut, rfl, ht⟩ := ih h (Nat.succ.inj hn)
      exact ⟨_ :: a, b, us, cut, rfl, .blank hb ht⟩
    | comment s hb hc =>
      rw [parseToken_comment hb hc] at h
      cases h
      obtain ⟨a, b, us, cut, rfl, ht⟩ := hr
      exact ⟨_, b, us, cut, by simp, .comment hb hc ht⟩
    | lastComment hb =>
      rw [parseToken_lastComment hb] at h
      cases h
      exact absurd rfl hf
    | semicolon | openBrace | closeBrace =>
      cases h
      obtain ⟨a, b, us, cut, rfl, ht⟩ := hr
      first
        | exact ⟨_ :: a, b, us, cut, rfl, .semicolon ht⟩
        | exact ⟨_ :: a, b, us, cut, rfl, .openBrace ht⟩
        | exact ⟨_ :: a, b, us, cut, rfl, .closeBrace ht⟩
    | quoted s hw =>
      rw [parseToken_quoted hw] at h
      cases h
      obtain ⟨a, b, us, cut, rfl, ht⟩ := hr
      exact ⟨_, b, us, cut, by simp, .quoted hw ht⟩
    | @plain w c s hw hc =>
      rw [parseToken_plain hw hc] at h
      cases h
      obtain ⟨a, b, us, cut, hab, ht⟩ := hr
      cases a with
      | nil =>
        -- no more than the character that ends the word
        obtain ⟨vs, hv⟩ := text_endsWord hc
        obtain ⟨rfl, -⟩ := List.append_eq_nil_iff.1 (text_nil ht)
        exact ⟨token ++ [c], s, vs, none, by simp, .plain hw hc hv⟩
      | cons c' a =>
        cases hab
        exact ⟨token ++ c :: a, b, us, cut, by simp, .plain hw hc ht⟩
    | unclosed hq hb =>
      rw [parseToken_unclosed hq hb] at h
      cases h
      exact absurd rfl he

/-- What the loop has read are the first tokens of the text. -/
theorem turns_beginning {s s' : Parser × Str} (h : Relation.ReflTransGen Turn s s') :
    ∀ {ts : List Token}, Reads ts s.1 → ∃ us, Reads (ts ++ us) s'.1 ∧ Beginning s.2 us := by
  induction h using Relation.ReflTransGen.head_induction_on with
  | refl => exact fun hr => ⟨[], by rwa [List.append_nil], beginning_nil _⟩
  | head ht _ ih =>
    intro ts hr
    cases ht with
    | skip hread =>
      obtain ⟨us, hus, hb⟩ := ih hr
      exact ⟨us, hus, beginning_read hread (by simp) (by simp) hb⟩
    | read hread hf =>
      obtain ⟨us, hus, hb⟩ := ih (reads_given hr hf)
      rw [List.append_assoc] at hus
      exact ⟨_, hus, beginning_read hread (by rintro rfl; cases hf) (by rintro rfl; cases hf) hb⟩

/-! ## The statements of the tree -/

theorem Done.append {ts us : List Token} {c d : NginxConfig} (h : Done ts c) (h' : Done us d) :
    Done (ts ++ us) (c ++ d) := by
  rcases h' with ⟨rfl, rfl⟩ | h'
  · simpa using h
  · exact h.extend h'

namespace Listed
variable {ts us : List Token} {s : Statement}

theorem more (h : Listed ts s) (us : List Token) : Listed (ts ++ us) s := by
  obtain ⟨rest, ⟨before, c, rfl, hc⟩, hb⟩ := h
  refine ⟨rest ++ us, ⟨before, c, by simp, hc⟩, fun hs => ?_⟩
  rw [List.head?_append, hb hs]
  rfl

theorem behind (h : Listed us s) {c : NginxConfig} (hc : Done ts c) : Listed (ts ++ us) s := by
  obtain ⟨rest, ⟨before, d, rfl, hd⟩, hb⟩ := h
  exact ⟨rest, ⟨ts ++ before, c ++ d, by simp, hc.append hd⟩, hb⟩

theorem line (ws : List Str) (rest : List Token) : Listed (ws.map .word ++ rest) (.line ws) :=
  ⟨rest, ⟨[], [], rfl, .inl ⟨rfl, rfl⟩⟩, nofun⟩

theorem block (ws : List Str) (c : NginxConfig) (rest : List Token) :
    Listed (ws.map .word ++ .openBrace :: rest) (.block ws c) :=
  ⟨.openBrace :: rest, ⟨[], [], rfl, .inl ⟨rfl, rfl⟩⟩, fun _ => rfl⟩

end Listed

theorem derives_listed {ts : List Token} {c : NginxConfig} (h : Derives ts c) : ∀ s ∈ c, Listed ts s := by
  induction h with
  | line =>
    intro s hs
    rw [List.mem_singleton.1 hs]
    exact .line _ _
  | block =>
    intro s hs
    rw [List.mem_singleton.1 hs]
    exact .block _ _ _
  | append h _ ih₁ ih₂ =>
    intro s hs
    rcases List.mem_append.1 hs with hs | hs
    · exact (ih₁ s hs).more _
    · exact (ih₂ s hs).behind (.inr h)

theorem Done.listed {ts : List Token} {c : NginxConfig} (h : Done ts c) : ∀ s ∈ c, Listed ts s := by
  rcases h with ⟨-, rfl⟩ | h
  · simp
  · exact derives_listed h

/-- The bottom of the stack holds what stands in the tokens, with what was just read on top. -/
theorem Stacked.listed {ts : List Token} {c : NginxConfig} {rest : List NginxConfig} (h : Stacked ts (c :: rest)) :
    ∀ {us : List Token} {d : NginxConfig}, (∀ s ∈ d, Listed us s) →
      ∀ s ∈ tree ((c ++ d) :: rest), Listed (ts ++ us) s := by
  generalize hs : c :: rest = stack at h
  induction h generalizing c rest with
  | root hc =>
    cases hs
    intro us d hd s hs
    rcases List.mem_append.1 hs with hs | hs
    · exact (hc.listed s hs).more us
    · exact (hd s hs).behind hc
  | @nest ts below rest ws vs top _ _ _ ih =>
    cases hs
    intro us d _ s hs
    have e : tree ((top ++ d) :: (below ++ [.line ws]) :: rest) = tree ((below ++ [.block ws (top ++ d)]) :: rest) := by
      simp [tree]
    rw [e] at hs
    have hblock : ∀ s ∈ [Statement.block ws (top ++ d)], Listed (ws.map .word ++ .openBrace :: (vs ++ us)) s := by
      intro s hs
      rw [List.mem_singleton.1 hs]
      exact .block _ _ _
    have h := ih rfl hblock s hs
    simpa using h

/-- The statements that the parser has made stand in what it has read. -/
theorem reads_listed {ts : List Token} {p : Parser} (h : Reads ts p) : ∀ s ∈ tree p.stack, Listed ts s := by
  cases h with
  | between _ hs =>
    intro s hmem
    have hnone : ∀ s ∈ ([] : List Statement), Listed [] s := nofun
    have h := hs.listed hnone s (by simpa using hmem)
    simpa using h
  | @inside _ _ _ ws _ _ hs =>
    refine hs.listed fun s hmem => ?_
    rw [List.mem_singleton.1 hmem]
    have h := Listed.line ws []
    rwa [List.append_nil] at h

/-- What `Parse` leaves is the tree that its last turn finds. -/
theorem stop_tree {s : Parser × Str} {result : Bool × NginxConfig} (h : Stop s result) : result.2 = tree s.1.stack := by
  cases h with
  | refused => rfl
  | eof => rfl

/-- What `Parse` leaves stands in the first tokens of the text. -/
theorem parse_listed (text : Str) : ∃ a b ts cut, text = a ++ b ∧ Text a ts cut ∧ ∀ s ∈ (parse text).2, Listed ts s := by
  obtain ⟨s, hs, hstop⟩ : ∃ s, Visited text s ∧ Stop s (parse text) := parseLoop_stop _ (Nat.lt_succ_self _)
  obtain ⟨ts, hr, a, b, us, cut, hab, ht⟩ := turns_beginning hs reads_initial
  refine ⟨a, b, ts ++ us, cut, hab, ht, fun st hst => ?_⟩
  rw [stop_tree hstop] at hst
  exact (reads_listed hr st hst).more us

/-! ## Statements stay -/

namespace Grows
variable {c d e : NginxConfig}

theorem refl (c : NginxConfig) : Grows c c := fun s hs => ⟨s, hs, List.prefix_refl _, fun h => ⟨h, rfl⟩⟩

theorem trans (h : Grows c d) (h' : Grows d e) : Grows c e := by
  intro s hs
  obtain ⟨t, ht, hpre, hblock⟩ := h s hs
  obtain ⟨u, hu, hpre', hblock'⟩ := h' t ht
  refine ⟨u, hu, hpre.trans hpre', fun hc => ?_⟩
  obtain ⟨hc', he⟩ := hblock hc
  obtain ⟨hc'', he'⟩ := hblock' hc'
  exact ⟨hc'', he'.trans he⟩

/-- Only what comes last has changed. -/
theorem last (c : NginxConfig) (h : Grows d e) : Grows (c ++ d) (c ++ e) := by
  intro s hs
  rcases List.mem_append.1 hs with hs | hs
  · exact ⟨s, List.mem_append_left e hs, List.prefix_refl _, fun h => ⟨h, rfl⟩⟩
  · obtain ⟨t, ht, hst⟩ := h s hs
    exact ⟨t, List.mem_append_right c ht, hst⟩

theorem line {ws vs : List Str} (h : ws <+: vs) : Grows [.line ws] [.line vs] := by
  intro s hs
  rw [List.mem_singleton.1 hs]
  exact ⟨_, List.mem_singleton_self _, h, nofun⟩

theorem block (ws : List Str) (c : NginxConfig) : Grows [.line ws] [.block ws c] := by
  intro s hs
  rw [List.mem_singleton.1 hs]
  exact ⟨_, List.mem_singleton_self _, List.prefix_refl _, nofun⟩

/-- A block may be any other one. -/
theorem setChild (below : NginxConfig) : Grows (setChild c below) (setChild d below) := by
  rcases List.eq_nil_or_concat below with rfl | ⟨below, s, rfl⟩
  · exact refl _
  · unfold Config.setChild
    rw [List.concat_eq_append, List.modifyLast_concat, List.modifyLast_concat]
    refine last below fun t ht => ⟨_, List.mem_singleton_self _, ?_⟩
    rw [List.mem_singleton.1 ht]
    exact ⟨List.prefix_refl _, fun _ => ⟨rfl, rfl⟩⟩

theorem tree (h : Grows c d) (rest : List NginxConfig) : Grows (tree (c :: rest)) (tree (d :: rest)) := by
  unfold Config.tree
  induction rest generalizing c d with
  | nil => exact h
  | cons below rest ih => exact ih (setChild below)

end Grows

/-- What one token can do to the tree. -/
theorem feed_grows {ts : List Token} {p p' : Parser} {t : Token} (h : Reads ts p)
    (hf : feed p t.type t.text = some p') : Grows (tree p.stack) (tree p'.stack) := by
  cases h with
  | @between ts c rest l n hl hs hne hn =>
    cases t with
    | word w =>
      rw [Token.type, feed_first hl] at hf
      cases hf
      have h := Grows.last c (d := []) (e := [.line [w]]) (by simp [Grows])
      rw [List.append_nil] at h
      exact h.tree rest
    | semicolon | openBrace => rcases hl with rfl | rfl | rfl | rfl <;> cases hf
    | closeBrace =>
      simp only [Token.type, feed] at hf
      split_ifs at hf
      cases hf
      cases rest with
      | nil => simp at hn; omega
      | cons below rest => exact Grows.refl _
  | @inside ts c rest ws n hw hs hn =>
    cases t with
    | word w =>
      rw [Token.type, feed_word] at hf
      cases hf
      exact (Grows.last c (.line (List.prefix_append ws [w]))).tree rest
    | semicolon =>
      cases hf
      exact Grows.refl _
    | openBrace =>
      cases hf
      have h := (Grows.last c (.block ws [])).tree rest
      rwa [← setChild_line] at h
    | closeBrace => cases hf

theorem run_grows (us : List Token) : ∀ {ts : List Token} {p : Parser}, Reads ts p →
    Grows (tree p.stack) (run p us).2 := by
  induction us with
  | nil => exact fun _ => Grows.refl _
  | cons t us ih =>
    intro ts p h
    rw [run]
    cases hf : feed p t.type t.text with
    | none => exact Grows.refl _
    | some p' => exact (feed_grows h hf).trans (ih (reads_step h hf))

/-! ## What stands in the tokens is in the tree -/

theorem turns_grow {s s' : Parser × Str} (h : Relation.ReflTransGen Turn s s') :
    ∀ {ts : List Token}, Reads ts s.1 → Grows (tree s.1.stack) (tree s'.1.stack) := by
  induction h using Relation.ReflTransGen.head_induction_on with
  | refl => exact fun _ => Grows.refl _
  | head ht _ ih =>
    intro ts hr
    cases ht with
    | skip => exact ih hr
    | @read p p' input type token rest hread hf =>
      refine Grows.trans ?_ (ih (reads_given hr hf))
      cases type with
      | normal => exact feed_grows (t := .word token) hr hf
      | statementEnd => exact feed_grows (t := .semicolon) hr hf
      | startBlock => exact feed_grows (t := .openBrace) hr hf
      | endBlock => exact feed_grows (t := .closeBrace) hr hf
      | start | comment | eof | error => cases hf

theorem parseLoop_grows {fuel : Nat} {input : Str} (hf : input.length < fuel) {ts : List Token} {p : Parser}
    (h : Reads ts p) : Grows (tree p.stack) (parseLoop fuel p input).2 := by
  obtain ⟨s, hs, hstop⟩ := parseLoop_stop fuel (p := p) hf
  rw [stop_tree hstop]
  exact turns_grow hs h

/-- The tree of the first tokens only grows with the rest of the text. -/
theorem text_grows {a : Str} {ts : List Token} {cut : Option Str} (h : Text a ts cut) (b : Str) :
    ∀ fuel, (a ++ b).length < fuel → ∀ {us : List Token} {p : Parser}, Reads us p →
      Grows (run p ts).2 (parseLoop fuel p (a ++ b)).2 := by
  -- one token, and what is left of the text
  have token : ∀ {s rest : Str} {t : Token} {ts : List Token}, parseToken s = (t.type, t.text, rest) →
      rest.length < s.length → (∀ fuel, rest.length < fuel → ∀ {us : List Token} {p : Parser}, Reads us p →
        Grows (run p ts).2 (parseLoop fuel p rest).2) →
      ∀ fuel, s.length < fuel → ∀ {us : List Token} {p : Parser}, Reads us p →
        Grows (run p (t :: ts)).2 (parseLoop fuel p s).2 := by
    intro s rest t ts hread hlt ih fuel hf us p hr
    obtain ⟨n, rfl⟩ : ∃ n, fuel = n + 1 := ⟨fuel - 1, by omega⟩
    rw [parseLoop_turn, hread, turn_given, run]
    cases he : feed p t.type t.text with
    | none => exact Grows.refl _
    | some p' => exact ih n (by omega) (reads_step hr he)
  induction h with
  | done | cut | lastComment => exact fun fuel hf us p hr => parseLoop_grows hf hr
  | blank hc _ ih =>
    intro fuel hf us p hr
    rw [List.cons_append, parseLoop_blank hc]
    exact ih fuel (by simp at hf ⊢; omega) hr
  | comment hb hc _ ih =>
    intro fuel hf us p hr
    obtain ⟨n, rfl⟩ : ∃ n, fuel = n + 1 := ⟨fuel - 1, by omega⟩
    rw [List.cons_append, List.append_assoc, List.cons_append, parseLoop_turn, parseToken_comment hb hc]
    exact ih n (by simp at hf ⊢; omega) hr
  | semicolon _ ih => exact token (t := .semicolon) rfl (by simp) ih
  | openBrace _ ih => exact token (t := .openBrace) rfl (by simp) ih
  | closeBrace _ ih => exact token (t := .closeBrace) rfl (by simp) ih
  | @quoted w _ _ _ hw _ ih =>
    rw [List.append_assoc]
    refine token (t := .word w) (parseToken_quoted hw _) ?_ ih
    have := hw.length_pos
    simp only [List.length_append]
    omega
  | @plain w _ _ _ _ hw hc _ ih =>
    rw [List.append_assoc]
    refine token (t := .word w) (parseToken_plain hw hc _) ?_ ih
    rw [List.length_append]
    exact Nat.lt_add_of_pos_left hw.length_pos

/-- Whole statements are read, and the words behind them then make a statement. -/
theorem run_stands {ts : List Token} {ws : List Str} {rest : List Token} (h : Stands ts ws rest) (hw : ws ≠ []) :
    ∃ p c before, Reads before p ∧ p = ⟨[c ++ [.line ws]], .normal, 0⟩ ∧ run initial ts = run p rest := by
  obtain ⟨before, c, rfl, hc⟩ := h
  refine ⟨_, c, _, .inside hw (.root hc) rfl, rfl, ?_⟩
  rcases hc with ⟨rfl, rfl⟩ | hd
  · exact run_statement (.inl rfl) [] hw [] 0 rest
  · obtain ⟨l, hl, he⟩ := run_derives hd (l := .start) (.inl rfl) [] [] 0 le_rfl (ws.map .word ++ rest)
    rw [initial, he, List.nil_append]
    exact run_statement hl.ready c hw [] 0 rest

/-- Words that stand in the first tokens of the text are in the tree, whatever comes
after them. A brace right behind them makes them a statement with a block. -/
theorem parse_stands {a : Str} {ts : List Token} {cut : Option Str} (h : Text a ts cut) (b : Str) {ws : List Str}
    {rest : List Token} (hs : Stands ts ws rest) (hw : ws ≠ []) : ∃ s ∈ (parse (a ++ b)).2, ws <+: s.tokens ∧
      (rest.head? = some .openBrace → s.childBlock.isSome ∧ s.tokens = ws) := by
  have hgrows := text_grows h b _ (Nat.lt_succ_self _) reads_initial
  obtain ⟨p, c, before, hr, rfl, he⟩ := run_stands hs hw
  rw [he] at hgrows
  by_cases hbrace : rest.head? = some .openBrace
  · obtain ⟨rest, rfl⟩ : ∃ us, rest = .openBrace :: us := List.head?_eq_some_iff.1 hbrace
    have hopen : feed ⟨[c ++ [.line ws]], .normal, 0⟩ Token.openBrace.type Token.openBrace.text =
        some ⟨[[], c ++ [.line ws]], .startBlock, 1⟩ := rfl
    rw [run, hopen] at hgrows
    have hblock := (run_grows rest (reads_step hr hopen)).trans hgrows
    obtain ⟨t, ht, hpre, hc⟩ := hblock (.block ws []) (by simp [tree])
    exact ⟨t, ht, hpre, fun _ => hc rfl⟩
  · obtain ⟨t, ht, hpre, -⟩ := ((run_grows rest hr).trans hgrows) (.line ws) (by simp [tree])
    exact ⟨t, ht, hpre, fun h => absurd h hbrace⟩

end GittyUp.Config
