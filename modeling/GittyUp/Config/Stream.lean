import GittyUp.Config.Grammar
/-!
# The parser, one character at a time

`ParseToken` and `Parse` are two nested loops, and a word's last character is put
back between them. `advance` is the two loops as one step on a character, and
`parse_stream` says that the parser is that step folded over the text, so what it
does with an appended text only depends on where the first part left it.
-/
open Lib

namespace GittyUp.Config

/-- The parser between two characters: the locals of `ParseToken` and of `Parse`. -/
structure Scan where
  state : TokenParserState
  value : Str
  parser : Parser

/-- Nothing read of the next token. -/
def Scan.gap (p : Parser) : Scan := ⟨.initialWhitespace, [], p⟩

/-- A token given to the loop. A loop that stops leaves its tree behind. -/
def emit (p : Parser) (type : TokenType) (token : Str) : Except NginxConfig Parser :=
  match feed p type token with
  | none => .error (tree p.stack)
  | some p' => .ok p'

/-- A character where a token may start. -/
def openToken (p : Parser) (c : Byte) : Except NginxConfig Scan :=
  if c = '{' then (emit p .startBlock [c]).map .gap
  else if c = '}' then (emit p .endBlock [c]).map .gap
  else if c = '#' then .ok ⟨.comment, [c], p⟩
  else if c = '"' then .ok ⟨.doubleQuote, [c], p⟩
  else if c = '\'' then .ok ⟨.singleQuote, [c], p⟩
  else if c = ';' then (emit p .statementEnd [c]).map .gap
  else if isBlank c then .ok (.gap p)
  else .ok ⟨.normal, [c], p⟩

def advance (q : Scan) (c : Byte) : Except NginxConfig Scan :=
  match q.state with
  | .initialWhitespace => openToken q.parser c
  | .singleQuote =>
    if c = '\'' then (emit q.parser .normal (q.value ++ [c])).map .gap
    else .ok ⟨.singleQuote, q.value ++ [c], q.parser⟩
  | .doubleQuote =>
    if c = '"' then (emit q.parser .normal (q.value ++ [c])).map .gap
    else .ok ⟨.doubleQuote, q.value ++ [c], q.parser⟩
  | .comment => if isEol c then .ok (.gap q.parser) else .ok ⟨.comment, q.value ++ [c], q.parser⟩
  | .normal =>
    -- the word ends before the character, which then starts the next token
    if endsWord c then (emit q.parser .normal q.value).bind (openToken · c)
    else .ok ⟨.normal, q.value ++ [c], q.parser⟩

/-- What `Parse` returns and leaves behind when the text ends here. -/
def outcome : Except NginxConfig Scan → Bool × NginxConfig
  | .error c => (false, c)
  | .ok q =>
    if q.state = .singleQuote ∨ q.state = .doubleQuote then (false, tree q.parser.stack)
    else (accepts q.parser, tree q.parser.stack)

/-- The text read from `q` on. -/
def scan (q : Scan) (s : Str) : Except NginxConfig Scan := s.foldlM advance q

@[simp] theorem scan_nil (q : Scan) : scan q [] = .ok q := rfl

@[simp] theorem scan_cons (q : Scan) (c : Byte) (s : Str) : scan q (c :: s) = (advance q c).bind (scan · s) := rfl

theorem scan_append (q : Scan) (s t : Str) : scan q (s ++ t) = (scan q s).bind (scan · t) := by
  unfold scan
  rw [List.foldlM_append]
  rfl

/-! ## The nested loops -/

/-- A turn on a token that is given to the loop. -/
theorem turn_token {type : TokenType} (ht : type ≠ .error ∧ type ≠ .comment ∧ type ≠ .eof) {fuel : Nat} {rest : Str}
    {next : Parser → Except NginxConfig Scan} (hn : ∀ p', parseLoop fuel p' rest = outcome (next p'))
    (p : Parser) (token : Str) : turn fuel p (type, token, rest) = outcome ((emit p type token).bind next) := by
  have e : turn fuel p (type, token, rest) = match feed p type token with
      | none => (false, tree p.stack)
      | some p' => parseLoop fuel p' rest := by
    cases type <;> first | rfl | simp at ht
  rw [e, emit]
  cases feed p type token with
  | none => rfl
  | some p' => exact hn p'

theorem map_gap_bind (m : Except NginxConfig Parser) (s : Str) :
    (m.map Scan.gap).bind (scan · s) = m.bind fun p => scan (.gap p) s := by
  cases m <;> rfl

/-- The two loops are the one step, from any point inside a token. The character
put back after a word costs the outer loop one more turn. -/
theorem turn_scan (s : Str) : ∀ (st : TokenParserState) (v : Str) (p : Parser) (fuel : Nat),
    (st = .initialWhitespace → v = []) → s.length + (if st = .normal then 1 else 0) ≤ fuel →
    turn fuel p (parseTokenLoop st v s) = outcome (scan ⟨st, v, p⟩ s) := by
  induction s with
  | nil =>
    intro st v p fuel _ _
    cases st <;> rfl
  | cons c s ih =>
    -- the outer loop over what follows a token
    have next : ∀ fuel, s.length < fuel → ∀ p', parseLoop fuel p' s = outcome (scan (.gap p') s) := by
      intro fuel hf p'
      obtain ⟨n, rfl⟩ : ∃ n, fuel = n + 1 := ⟨fuel - 1, by omega⟩
      rw [parseLoop_turn, parseToken, ih .initialWhitespace [] p' n (fun _ => rfl) (by simp; omega)]
      rfl
    have first : ∀ p fuel, s.length < fuel → turn fuel p (parseTokenLoop .initialWhitespace [] (c :: s)) =
        outcome ((openToken p c).bind (scan · s)) := by
      intro p fuel hf
      have token : ∀ {type : TokenType}, type ≠ .error ∧ type ≠ .comment ∧ type ≠ .eof →
          turn fuel p (type, [c], s) = outcome (((emit p type [c]).map Scan.gap).bind (scan · s)) := by
        intro type ht
        rw [map_gap_bind]
        exact turn_token ht (next fuel hf) p [c]
      unfold parseTokenLoop openToken
      split_ifs with h1 h2 h3 h4 h5 h6 h7
      · exact token (by simp)
      · exact token (by simp)
      · exact ih .comment [c] p fuel (by simp) (by simp; omega)
      · exact ih .doubleQuote [c] p fuel (by simp) (by simp; omega)
      · exact ih .singleQuote [c] p fuel (by simp) (by simp; omega)
      · exact token (by simp)
      · exact ih .initialWhitespace [] p fuel (fun _ => rfl) (by simp; omega)
      · exact ih .normal [c] p fuel (by simp) (by simp; omega)
    intro st v p fuel hv hf
    rw [List.length_cons] at hf
    rw [scan_cons]
    cases st with
    | initialWhitespace => rw [hv rfl]; exact first p fuel (by simp at hf; omega)
    | singleQuote | doubleQuote =>
      unfold parseTokenLoop advance
      dsimp only
      split_ifs
      · rw [map_gap_bind]
        exact turn_token (by simp) (next fuel (by simp at hf; omega)) p _
      · exact ih _ _ p fuel (by simp) (by simp at hf ⊢; omega)
    | comment =>
      rw [parseTokenLoop_comment]
      unfold advance
      dsimp only
      split_ifs
      · exact next fuel (by simp at hf; omega) p
      · exact ih .comment _ p fuel (by simp) (by simp at hf ⊢; omega)
    | normal =>
      rw [parseTokenLoop_normal]
      unfold advance
      dsimp only
      split_ifs
      · rw [if_pos rfl] at hf
        have hnext : ∀ p', parseLoop fuel p' (c :: s) = outcome ((openToken p' c).bind (scan · s)) := by
          intro p'
          obtain ⟨n, rfl⟩ : ∃ n, fuel = n + 1 := ⟨fuel - 1, by omega⟩
          rw [parseLoop_turn, parseToken]
          exact first p' n (by omega)
        rw [turn_token (by simp) hnext p v]
        cases emit p .normal v <;> rfl
      · exact ih .normal _ p fuel (by simp) (by simp at hf ⊢; omega)

/-- `Parse` reads its text one character at a time. -/
theorem parse_stream (s : Str) : parse s = outcome (scan (.gap initial) s) := by
  rw [parse, parseLoop_turn, parseToken]
  exact turn_scan s .initialWhitespace [] initial s.length (fun _ => rfl) (by simp)

/-! ## The words in the tree -/

mutual
/-- The tokens of a statement and of its block, in order. -/
def Statement.words : Statement → List Str
  | .line ts => ts
  | .block ts c => ts ++ NginxConfig.words c

def NginxConfig.words : NginxConfig → List Str
  | [] => []
  | s :: ss => s.words ++ NginxConfig.words ss
end

@[simp] theorem words_nil : NginxConfig.words [] = [] := rfl

@[simp] theorem words_cons (s : Statement) (c : NginxConfig) :
    NginxConfig.words (s :: c) = s.words ++ NginxConfig.words c := rfl

@[simp] theorem words_append (c d : NginxConfig) :
    NginxConfig.words (c ++ d) = NginxConfig.words c ++ NginxConfig.words d := by
  induction c with
  | nil => rfl
  | cons s c ih => rw [List.cons_append, words_cons, ih, words_cons, List.append_assoc]

def Token.word? : Token → Option Str
  | .word w => some w
  | _ => none

/-- The words among the tokens. -/
def wordsOf (ts : List Token) : List Str := ts.filterMap Token.word?

@[simp] theorem wordsOf_append (ts us : List Token) : wordsOf (ts ++ us) = wordsOf ts ++ wordsOf us :=
  List.filterMap_append

@[simp] theorem wordsOf_words (ws : List Str) : wordsOf (ws.map .word) = ws := by
  induction ws with
  | nil => rfl
  | cons w ws ih => exact congrArg (w :: ·) ih

@[simp] theorem wordsOf_word (w : Str) (ts : List Token) : wordsOf (.word w :: ts) = w :: wordsOf ts := rfl

@[simp] theorem wordsOf_mark {t : Token} (h : t.word? = none) (ts : List Token) : wordsOf (t :: ts) = wordsOf ts :=
  List.filterMap_cons_none h

theorem derives_words {ts : List Token} {c : NginxConfig} (h : Derives ts c) : NginxConfig.words c = wordsOf ts := by
  induction h with
  | line =>
    rw [wordsOf_append, wordsOf_words, wordsOf_mark rfl]
    rfl
  | @block ws ts _ _ _ ih =>
    rw [wordsOf_append, wordsOf_words, wordsOf_mark rfl, wordsOf_append, wordsOf_mark rfl [], ← ih]
    simp [Statement.words, wordsOf]
  | append _ _ ih₁ ih₂ => rw [words_append, wordsOf_append, ih₁, ih₂]

theorem Done.words {ts : List Token} {c : NginxConfig} (h : Done ts c) : NginxConfig.words c = wordsOf ts := by
  rcases h with ⟨rfl, rfl⟩ | h
  · rfl
  · exact derives_words h

/-- The tree below a stack holds the words that filled the stack, and then those of the top. -/
theorem Stacked.words {ts : List Token} {c : NginxConfig} {rest : List NginxConfig} (h : Stacked ts (c :: rest)) :
    ∀ d, NginxConfig.words (tree ((c ++ d) :: rest)) = wordsOf ts ++ NginxConfig.words d := by
  generalize hs : c :: rest = stack at h
  induction h generalizing c rest with
  | root hc =>
    cases hs
    intro d
    rw [tree, List.foldl_nil, words_append, hc.words]
  | @nest ts below rest ws us top _ _ ht ih =>
    cases hs
    intro d
    have e : tree ((top ++ d) :: (below ++ [.line ws]) :: rest) = tree ((below ++ [.block ws (top ++ d)]) :: rest) := by
      simp [tree]
    rw [e, ih rfl, wordsOf_append, wordsOf_mark rfl]
    simp [Statement.words, ht.words]

/-- The tree left behind holds exactly the words read, in their order. -/
theorem reads_words {ts : List Token} {p : Parser} (h : Reads ts p) :
    NginxConfig.words (tree p.stack) = wordsOf ts := by
  cases h with
  | between _ hs =>
    have e := hs.words []
    simpa using e
  | inside _ hs =>
    rw [hs.words]
    simp [Statement.words]

theorem reads_initial : Reads [] initial := .between (.inl rfl) (.root (.inl ⟨rfl, rfl⟩)) (by simp [Ended]) rfl

/-- The brace counter is the number of open blocks, and the root is below them. -/
theorem reads_height {ts : List Token} {p : Parser} (h : Reads ts p) :
    ∃ top rest, p.stack = top :: rest ∧ p.startBlock = (rest.length : Int) := by
  cases h with
  | between _ _ _ hn => exact ⟨_, _, rfl, hn⟩
  | inside _ _ hn => exact ⟨_, _, rfl, hn⟩

/-- A word is never refused. -/
theorem emit_word {ts : List Token} {p : Parser} (h : Reads ts p) (w : Str) :
    ∃ p', emit p .normal w = .ok p' ∧ p'.last = .normal ∧ Reads (ts ++ [.word w]) p' := by
  have hf : ∃ p', feed p .normal w = some p' ∧ p'.last = .normal := by
    cases h with
    | between hl => exact ⟨_, feed_first hl _ _ _ w, rfl⟩
    | inside => exact ⟨_, feed_word _ _ _ _ w, rfl⟩
  obtain ⟨p', hf, hl⟩ := hf
  exact ⟨p', by rw [emit, hf], hl, reads_step (t := .word w) h hf⟩

/-- A mark is read, or it stops the parser with the tree as it is. -/
theorem emit_mark {ts : List Token} {p : Parser} (h : Reads ts p) (t : Token) :
    (∃ p', emit p t.type t.text = .ok p' ∧ Reads (ts ++ [t]) p') ∨
      emit p t.type t.text = .error (tree p.stack) := by
  cases hf : feed p t.type t.text with
  | none => exact .inr (by rw [emit, hf])
  | some p' => exact .inl ⟨p', by rw [emit, hf], reads_step h hf⟩

/-- `m` goes on from the tokens `ts`: it has read more of them, or it has stopped
on a tree with more words. -/
def Onward (ts : List Token) : Except NginxConfig Scan → Prop
  | .ok q => ∃ us, Reads (ts ++ us) q.parser
  | .error c => ∃ us, NginxConfig.words c = wordsOf (ts ++ us)

theorem Onward.more {ts us : List Token} {m : Except NginxConfig Scan} (h : Onward (ts ++ us) m) : Onward ts m := by
  cases m with
  | error c => obtain ⟨vs, h⟩ := h; exact ⟨us ++ vs, by rw [h, List.append_assoc]⟩
  | ok q => obtain ⟨vs, h⟩ := h; exact ⟨us ++ vs, by rwa [← List.append_assoc]⟩

theorem onward_here {ts : List Token} {q : Scan} (h : Reads ts q.parser) : Onward ts (.ok q) :=
  ⟨[], by rwa [List.append_nil]⟩

theorem onward_mark {ts : List Token} {p : Parser} (h : Reads ts p) (t : Token) :
    Onward ts ((emit p t.type t.text).map .gap) := by
  rcases emit_mark h t with ⟨p', he, hr⟩ | he
  · rw [he]; exact ⟨[t], hr⟩
  · rw [he]; exact ⟨[], by rw [List.append_nil, reads_words h]⟩

theorem openToken_onward {ts : List Token} {p : Parser} (h : Reads ts p) (c : Byte) : Onward ts (openToken p c) := by
  unfold openToken
  split_ifs with h1 h2 h3 h4 h5 h6 h7
  · subst h1; exact onward_mark h .openBrace
  · subst h2; exact onward_mark h .closeBrace
  · exact onward_here h
  · exact onward_here h
  · exact onward_here h
  · subst h6; exact onward_mark h .semicolon
  · exact onward_here h
  · exact onward_here h

/-- What one character can do. -/
theorem advance_onward {ts : List Token} {q : Scan} (h : Reads ts q.parser) (c : Byte) : Onward ts (advance q c) := by
  unfold advance
  split
  · exact openToken_onward h c
  · split_ifs
    · exact onward_mark h (.word _)
    · exact onward_here h
  · split_ifs
    · exact onward_mark h (.word _)
    · exact onward_here h
  · split_ifs
    · exact onward_here h
    · exact onward_here h
  · split_ifs
    · obtain ⟨p', he, -, hr⟩ := emit_word h q.value
      rw [he]
      exact (openToken_onward hr c).more
    · exact onward_here h

/-- What a text can do. -/
theorem scan_onward (s : Str) : ∀ {ts : List Token} {q : Scan}, Reads ts q.parser → Onward ts (scan q s) := by
  induction s with
  | nil => intro ts q h; exact onward_here h
  | cons c s ih =>
    intro ts q h
    have hc := advance_onward h c
    rw [scan_cons]
    cases ha : advance q c with
    | error d => rw [ha] at hc; exact hc
    | ok q' =>
      rw [ha] at hc
      obtain ⟨us, hr⟩ := hc
      exact (ih hr).more

theorem outcome_words {ts : List Token} {m : Except NginxConfig Scan} (h : Onward ts m) :
    ∃ us, NginxConfig.words (outcome m).2 = wordsOf (ts ++ us) := by
  cases m with
  | error c => exact h
  | ok q =>
    obtain ⟨us, h⟩ := h
    refine ⟨us, ?_⟩
    rw [← reads_words h, outcome]
    split <;> rfl

end GittyUp.Config
