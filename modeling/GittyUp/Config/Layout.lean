import GittyUp.Config.Stream
/-!
# White space between tokens

The initial state of `ParseToken` skips the four blanks, and its normal state ends
a word at three of them: a carriage return right after a word is part of the word.
`parse_layout_iff` compares one run of blanks with another at the same place.
-/
open Lib

namespace GittyUp.Config

/-- The state of the lexer after one more character. -/
def place (st : TokenParserState) (c : Byte) : TokenParserState :=
  match st with
  | .initialWhitespace =>
    if c = '#' then .comment
    else if c = '"' then .doubleQuote
    else if c = '\'' then .singleQuote
    else if startsWord c then .normal
    else .initialWhitespace
  | .singleQuote => if c = '\'' then .initialWhitespace else .singleQuote
  | .doubleQuote => if c = '"' then .initialWhitespace else .doubleQuote
  | .comment => if isEol c then .initialWhitespace else .comment
  | .normal => if endsWord c then .initialWhitespace else .normal

/-- Where a text stops: between tokens, or in a quote, a comment or a word. -/
def placeAfter (s : Str) : TokenParserState := s.foldl place .initialWhitespace

/-- A run of white space that may stand for another one. -/
def BlankRun (r : Str) : Prop := r ≠ [] ∧ ∀ c ∈ r, isBlank c

/-- What a word takes from the text behind it. The end of the file does not end it. -/
def wordEnd (s : Str) : Option Str :=
  if ∃ c ∈ s, endsWord c then some (s.takeWhile fun c => ¬ endsWord c) else none

/-- Some config starts with this text. -/
def Begins (s : Str) : Prop := ∃ z c, Describes (s ++ z) c

/-! ## Places -/

theorem openToken_place {p : Parser} {c : Byte} {q : Scan} (h : openToken p c = .ok q) :
    q.state = place .initialWhitespace c := by
  have mark : ∀ {type : TokenType}, (emit p type [c]).map Scan.gap = .ok q → q.state = .initialWhitespace := by
    intro type h
    cases he : emit p type [c] with
    | error => rw [he] at h; cases h
    | ok => rw [he] at h; cases h; rfl
  unfold openToken at h
  unfold place startsWord
  split_ifs at h with h1 h2 h3 h4 h5 h6 h7
  · subst h1; exact mark h
  · subst h2; exact mark h
  · cases h; simp [h3]
  · cases h; subst h4; rfl
  · cases h; subst h5; rfl
  · subst h6; exact mark h
  · cases h; rw [if_neg h3, if_neg h4, if_neg h5, if_neg (fun h => h.1 h7)]; rfl
  · cases h; rw [if_neg h3, if_neg h4, if_neg h5, if_pos ⟨h7, h1, h2, h3, h4, h5, h6⟩]

theorem advance_place {q q' : Scan} {c : Byte} (h : advance q c = .ok q') : q'.state = place q.state c := by
  have word : ∀ {v : Str}, (emit q.parser .normal v).map Scan.gap = .ok q' → q'.state = .initialWhitespace := by
    intro v h
    cases he : emit q.parser .normal v with
    | error => rw [he] at h; cases h
    | ok => rw [he] at h; cases h; rfl
  unfold advance at h
  split at h
  · rename_i hs; rw [hs]; exact openToken_place h
  · rename_i hs
    rw [hs, place]
    split_ifs at h ⊢
    · exact word h
    · cases h; rfl
  · rename_i hs
    rw [hs, place]
    split_ifs at h ⊢
    · exact word h
    · cases h; rfl
  · rename_i hs
    rw [hs, place]
    split_ifs at h ⊢
    · cases h; rfl
    · cases h; rfl
  · rename_i hs
    rw [hs, place]
    split_ifs at h ⊢ with hc
    · -- the character that ends a word starts no other word, quote or comment
      cases he : emit q.parser .normal q.value with
      | error => rw [he] at h; cases h
      | ok p =>
        rw [he] at h
        rw [openToken_place h]
        rcases hc with rfl | rfl | rfl | rfl | rfl | rfl <;> rfl
    · cases h; rfl

theorem scan_place (s : Str) : ∀ {q q' : Scan}, scan q s = .ok q' → q'.state = s.foldl place q.state := by
  induction s with
  | nil => intro q q' h; cases h; rfl
  | cons c s ih =>
    intro q q' h
    rw [scan_cons] at h
    cases ha : advance q c with
    | error => rw [ha] at h; cases h
    | ok q₁ =>
      rw [ha] at h
      rw [ih h, advance_place ha]
      rfl

/-! ## Blanks between tokens -/

@[simp] theorem openToken_blank {c : Byte} (h : isBlank c) (p : Parser) : openToken p c = .ok (.gap p) := by
  rcases h with rfl | rfl | rfl | rfl <;> rfl

theorem scan_blanks (r : Str) (hr : ∀ c ∈ r, isBlank c) (p : Parser) (s : Str) :
    scan (.gap p) (r ++ s) = scan (.gap p) s := by
  induction r with
  | nil => rfl
  | cons c r ih =>
    have hc : advance (.gap p) c = .ok (.gap p) := openToken_blank (hr c List.mem_cons_self) p
    rw [List.cons_append, scan_cons, hc]
    exact ih fun x hx => hr x (List.mem_cons_of_mem c hx)

/-- After a token a run of blanks is only its presence. -/
theorem scan_gap {q : Scan} (hq : q.state = .initialWhitespace) {r : Str} (hr : BlankRun r) (s : Str) :
    scan q (r ++ s) = scan (.gap q.parser) s := by
  obtain ⟨hne, hr⟩ := hr
  obtain ⟨c, r, rfl⟩ := List.exists_cons_of_ne_nil hne
  have hc : advance q c = .ok (.gap q.parser) := by
    rw [advance, hq]
    exact openToken_blank (hr c List.mem_cons_self) q.parser
  rw [List.cons_append, scan_cons, hc]
  exact scan_blanks r (fun x hx => hr x (List.mem_cons_of_mem c hx)) q.parser s

theorem scan_dropBlanks (p : Parser) (s : Str) :
    scan (.gap p) s = scan (.gap p) (s.dropWhile fun c => isBlank c) := by
  conv_lhs => rw [← List.takeWhile_append_dropWhile (p := fun c => decide (isBlank c)) (l := s)]
  refine scan_blanks _ (fun c hc => ?_) p _
  have h := List.mem_takeWhile_imp hc
  exact of_decide_eq_true h

/-! ## Blanks after a word -/

theorem wordEnd_none {s : Str} (h : ∀ c ∈ s, ¬ endsWord c) : wordEnd s = none :=
  if_neg fun ⟨c, hc, he⟩ => h c hc he

theorem wordEnd_some {w : Str} (hw : ∀ c ∈ w, ¬ endsWord c) {c : Byte} (hc : endsWord c) (s : Str) :
    wordEnd (w ++ c :: s) = some w := by
  have ht : (w ++ c :: s).takeWhile (fun c => decide (¬ endsWord c)) = w := by
    rw [List.takeWhile_append_of_pos fun x hx => decide_eq_true (hw x hx)]
    rw [List.takeWhile_cons_of_neg (by rw [decide_eq_true_eq]; exact not_not_intro hc), List.append_nil]
  rw [wordEnd, if_pos ⟨c, by simp, hc⟩, ht]

/-- A word that the file ends in is never given to the loop. -/
theorem scan_cut {s : Str} (hs : ∀ c ∈ s, ¬ endsWord c) (v : Str) (p : Parser) :
    scan ⟨.normal, v, p⟩ s = .ok ⟨.normal, v ++ s, p⟩ := by
  induction s generalizing v with
  | nil => rw [List.append_nil]; rfl
  | cons c s ih =>
    have hc : advance ⟨.normal, v, p⟩ c = .ok ⟨.normal, v ++ [c], p⟩ := if_neg (hs c List.mem_cons_self)
    rw [scan_cons, hc, Except.bind, ih fun x hx => hs x (List.mem_cons_of_mem c hx)]
    simp

theorem scan_word {w : Str} (hw : ∀ c ∈ w, ¬ endsWord c) {c : Byte} (hc : endsWord c) (v : Str) (p : Parser) (s : Str) :
    scan ⟨.normal, v, p⟩ (w ++ c :: s) = (emit p .normal (v ++ w)).bind fun p' => scan (.gap p') (c :: s) := by
  have he : advance ⟨.normal, v ++ w, p⟩ c = (emit p .normal (v ++ w)).bind (openToken · c) := if_pos hc
  rw [scan_append, scan_cut hw, Except.bind, scan_cons, he]
  cases emit p .normal (v ++ w) <;> rfl

/-- Two lists that agree up to their first stop agree behind it. -/
theorem split_unique {a a' x x' : Str} {c c' : Byte} (ha : ∀ b ∈ a, ¬ endsWord b) (ha' : ∀ b ∈ a', ¬ endsWord b)
    (hc : endsWord c) (hc' : endsWord c') (h : a ++ c :: x = a' ++ c' :: x') : c :: x = c' :: x' := by
  rcases List.append_eq_append_iff.1 h with ⟨e, rfl, he⟩ | ⟨e, rfl, he⟩
  · cases e with
    | nil => exact he
    | cons b e => cases he; exact absurd hc (ha' _ (by simp))
  · cases e with
    | nil => exact he.symm
    | cons b e => cases he; exact absurd hc' (ha _ (by simp))

/-- Behind the same word, two runs leave the same text up to blanks. -/
theorem behind_word {r r' b w x x' : Str} {c c' : Byte} (hr : ∀ c ∈ r, isBlank c) (hr' : ∀ c ∈ r', isBlank c)
    (hw : ∀ c ∈ w, ¬ endsWord c) (hc : endsWord c) (hc' : endsWord c') (h : r ++ b = w ++ c :: x)
    (h' : r' ++ b = w ++ c' :: x') :
    (c :: x).dropWhile (fun c => isBlank c) = (c' :: x').dropWhile fun c => isBlank c := by
  have drop : ∀ {u : Str} (_ : ∀ c ∈ u, isBlank c) (s : Str),
      (u ++ s).dropWhile (fun c => decide (isBlank c)) = s.dropWhile fun c => isBlank c := fun hu s =>
    List.dropWhile_append_of_pos fun c hc => decide_eq_true (hu c hc)
  by_cases hb : ∀ c ∈ w, isBlank c
  · calc (c :: x).dropWhile (fun c => decide (isBlank c))
        = (r ++ b).dropWhile fun c => isBlank c := by rw [h, drop hb]
      _ = (r' ++ b).dropWhile fun c => isBlank c := by rw [drop hr, drop hr']
      _ = (c' :: x').dropWhile fun c => isBlank c := by rw [h', drop hb]
  · -- the word goes on in `b`, with all of either run in it
    have past : ∀ {u y : Str}, (∀ c ∈ u, isBlank c) → u ++ b = w ++ y → ∃ a, w = u ++ a ∧ b = a ++ y := by
      intro u y hu he
      rcases List.append_eq_append_iff.1 he with ⟨a, hwa, hba⟩ | ⟨a, rfl, -⟩
      · exact ⟨a, hwa, hba⟩
      · exact absurd (fun c hc => hu c (List.mem_append_left a hc)) hb
    obtain ⟨a, rfl, hba⟩ := past hr h
    obtain ⟨a', hwa, hba'⟩ := past hr' h'
    have ha : ∀ c ∈ a, ¬ endsWord c := fun c hc => hw c (List.mem_append_right r hc)
    have ha' : ∀ c ∈ a', ¬ endsWord c := fun c hc => hw c (hwa ▸ List.mem_append_right r' hc)
    rw [split_unique ha ha' hc hc' (hba ▸ hba')]

/-- The run after a word matters only through what it adds to the word. -/
theorem outcome_of_wordEnd {r r' b : Str} (hr : ∀ c ∈ r, isBlank c) (hr' : ∀ c ∈ r', isBlank c)
    (h : wordEnd (r ++ b) = wordEnd (r' ++ b)) (v : Str) (p : Parser) :
    outcome (scan ⟨.normal, v, p⟩ (r ++ b)) = outcome (scan ⟨.normal, v, p⟩ (r' ++ b)) := by
  rcases split_at_first endsWord (r ++ b) with hs | ⟨w, c, x, hx, hw, hc⟩
  · rcases split_at_first endsWord (r' ++ b) with hs' | ⟨w', c', x', hx', hw', hc'⟩
    · rw [scan_cut hs, scan_cut hs']
      rfl
    · rw [wordEnd_none hs, hx', wordEnd_some hw' hc'] at h
      cases h
  · rcases split_at_first endsWord (r' ++ b) with hs' | ⟨w', c', x', hx', hw', hc'⟩
    · rw [wordEnd_none hs', hx, wordEnd_some hw hc] at h
      cases h
    · rw [hx, hx', wordEnd_some hw hc, wordEnd_some hw' hc'] at h
      cases h
      rw [hx, hx', scan_word hw hc, scan_word hw hc']
      have hd := behind_word hr hr' hw hc hc' hx hx'
      cases emit p .normal (v ++ w) with
      | error => rfl
      | ok p' =>
        simp only [Except.bind]
        rw [scan_dropBlanks p' (c :: x), hd, ← scan_dropBlanks]

/-- The tree shows what was added to the word, or that there was no end of it. -/
theorem words_after_word {ts : List Token} {p : Parser} (h : Reads ts p) (v s : Str) :
    (wordEnd s = none ∧ NginxConfig.words (outcome (scan ⟨.normal, v, p⟩ s)).2 = wordsOf ts) ∨
      ∃ w more, wordEnd s = some w ∧
        NginxConfig.words (outcome (scan ⟨.normal, v, p⟩ s)).2 = wordsOf ts ++ (v ++ w) :: more := by
  rcases split_at_first endsWord s with hs | ⟨w, c, x, rfl, hw, hc⟩
  · refine .inl ⟨wordEnd_none hs, ?_⟩
    rw [scan_cut hs, ← reads_words h]
    rfl
  · obtain ⟨p', he, -, hr⟩ := emit_word h (v ++ w)
    obtain ⟨us, hu⟩ := outcome_words (scan_onward (c :: x) (q := .gap p') hr)
    refine .inr ⟨w, wordsOf us, wordEnd_some hw hc x, ?_⟩
    rw [scan_word hw hc, he]
    exact hu.trans (by simp)

theorem wordEnd_of_outcome {ts : List Token} {p : Parser} (h : Reads ts p) {v s s' : Str}
    (he : outcome (scan ⟨.normal, v, p⟩ s) = outcome (scan ⟨.normal, v, p⟩ s')) : wordEnd s = wordEnd s' := by
  rcases words_after_word h v s with ⟨hw, hs⟩ | ⟨w, more, hw, hs⟩
  · rcases words_after_word h v s' with ⟨hw', -⟩ | ⟨w', more', -, hs'⟩
    · rw [hw, hw']
    · rw [← he, hs] at hs'
      simp at hs'
  · rcases words_after_word h v s' with ⟨-, hs'⟩ | ⟨w', more', hw', hs'⟩
    · rw [← he, hs] at hs'
      simp at hs'
    · rw [← he, hs] at hs'
      simp only [List.append_cancel_left_eq, List.cons.injEq] at hs'
      rw [hw, hw', hs'.1]

/-! ## Texts that a config starts with -/

/-- The end of a statement, and of the blocks around it. -/
def closing (n : Nat) : Str := ';' :: List.replicate n '}'

/-- The parser has not stopped, after a word: it can be led to the end of a config. -/
theorem scan_closes {ts : List Token} {v : Str} {p : Parser} (h : Reads ts p) :
    ∃ n, (outcome (scan ⟨.normal, v, p⟩ (closing n))).1 = true := by
  -- each brace closes the block on top, whatever is in it
  have close : ∀ (rest : List NginxConfig) (top : NginxConfig) (l : TokenType), Ended l →
      (outcome (scan (.gap ⟨top :: rest, l, rest.length⟩) (List.replicate rest.length '}'))).1 = true := by
    intro rest
    induction rest with
    | nil => intro top l hl; rcases hl with rfl | rfl <;> rfl
    | cons below rest ih =>
      intro top l hl
      have hf : feed ⟨top :: below :: rest, l, (below :: rest).length⟩ .endBlock ['}'] =
          some ⟨setChild top below :: rest, .endBlock, rest.length⟩ := by
        have hn : ¬ (((below :: rest).length : Int) - 1 < 0) := by simp
        have hl : ¬ (l ≠ .statementEnd ∧ l ≠ .endBlock) := by rcases hl with rfl | rfl <;> simp
        simp only [feed, if_neg hl, if_neg hn, pop]
        simp
      have ha : advance (.gap ⟨top :: below :: rest, l, (below :: rest).length⟩) '}' =
          .ok (.gap ⟨setChild top below :: rest, .endBlock, rest.length⟩) := by
        have he : emit ⟨top :: below :: rest, l, (below :: rest).length⟩ .endBlock ['}'] =
            .ok ⟨setChild top below :: rest, .endBlock, rest.length⟩ := by rw [emit, hf]
        exact congrArg (Except.map Scan.gap) he
      rw [List.length_cons, List.replicate_succ, scan_cons, ← List.length_cons (a := below), ha]
      exact ih _ _ (.inr rfl)
  obtain ⟨p', he, hl, hr⟩ := emit_word h v
  obtain ⟨top, rest, hs, hn⟩ := reads_height hr
  obtain ⟨_, _, _⟩ := p'
  subst hl hs hn
  refine ⟨rest.length, ?_⟩
  have ha : advance ⟨.normal, v, p⟩ ';' = .ok (.gap ⟨top :: rest, .statementEnd, rest.length⟩) := by
    show (emit p .normal v).bind (openToken · ';') = _
    rw [he]
    rfl
  rw [closing, scan_cons, ha]
  exact close rest top .statementEnd (.inl rfl)

theorem text_cut_suffix {s w : Str} {ts : List Token} {t : Option Str} (h : Text s ts t) :
    t = some w → PlainWord w ∧ w <:+ s := by
  induction h with
  | done | lastComment => intro h; cases h
  | cut hw => intro h; cases h; exact ⟨hw, List.suffix_refl _⟩
  | blank _ _ ih | semicolon _ ih | openBrace _ ih | closeBrace _ ih =>
    intro h; exact ⟨(ih h).1, (ih h).2.trans (List.suffix_cons _ _)⟩
  | @comment body c s _ _ _ _ _ ih =>
    intro h
    have hs : s <:+ '#' :: (body ++ c :: s) := ⟨'#' :: (body ++ [c]), by simp⟩
    exact ⟨(ih h).1, (ih h).2.trans hs⟩
  | quoted _ _ ih => intro h; exact ⟨(ih h).1, (ih h).2.trans (List.suffix_append _ _)⟩
  | plain _ _ _ ih => intro h; exact ⟨(ih h).1, (ih h).2.trans (List.suffix_append _ _)⟩

/-- A text that ends in a mark has no word cut off. -/
theorem text_of_mark {s : Str} {ts : List Token} {t : Option Str} {c : Byte} (hc : endsWord c)
    (h : Text (s ++ [c]) ts t) (hb : ¬ startsWord c) : t = none := by
  cases t with
  | none => rfl
  | some w =>
    obtain ⟨hw, u, hu⟩ := text_cut_suffix h rfl
    obtain ⟨d, w, hd, hw⟩ := hw
    rcases List.eq_nil_or_concat w with rfl | ⟨w, e, rfl⟩
    · have hcd : d = c := by simpa using (List.append_inj_right' hu rfl)
      exact absurd (hcd ▸ hd) hb
    · have hec : e = c := by
        rw [List.concat_eq_append, ← List.cons_append, ← List.append_assoc] at hu
        simpa using (List.append_inj_right' hu rfl)
      exact absurd hc (hec ▸ hw e (by simp))

/-- After a word, the texts a config starts with are those the parser has not stopped in. -/
theorem begins_iff {a : Str} (ha : placeAfter a = .normal) : Begins a ↔ ∃ q, scan (.gap initial) a = .ok q := by
  constructor
  · rintro ⟨z, c, hd⟩
    obtain ⟨ts, ht, hd⟩ := describes_iff.1 hd
    have hp := (parse_iff (a ++ z) c).2 ⟨ts, none, ht, hd⟩
    rw [parse_stream, scan_append] at hp
    cases hs : scan (.gap initial) a with
    | ok q => exact ⟨q, rfl⟩
    | error d => rw [hs] at hp; cases hp
  · rintro ⟨⟨st, v, p⟩, hs⟩
    have hst : st = .normal := (scan_place a hs).trans ha
    subst hst
    have hr := scan_onward a (q := .gap initial) reads_initial
    rw [hs] at hr
    obtain ⟨us, hr⟩ := hr
    obtain ⟨n, hn⟩ := scan_closes (v := v) hr
    have hp : (parse (a ++ closing n)).1 = true := by
      rw [parse_stream, scan_append, hs]
      exact hn
    obtain ⟨ts, t, ht, hd⟩ := (parse_iff _ _).1 (Prod.ext hp rfl)
    refine ⟨closing n, _, describes_iff.2 ⟨ts, ?_, hd⟩⟩
    have hmark : ∃ u c, a ++ closing n = u ++ [c] ∧ endsWord c ∧ ¬ startsWord c := by
      cases n with
      | zero => exact ⟨a, ';', rfl, by decide, by decide⟩
      | succ n => exact ⟨a ++ closing n, '}', by simp [closing, List.replicate_succ'], by decide, by decide⟩
    obtain ⟨u, c, hu, hc, hb⟩ := hmark
    have htn : t = none := by
      rw [hu] at ht
      exact text_of_mark hc ht hb
    rw [← htn]
    exact ht

/-! ## The parser -/

/-- One run of blanks may stand for another, outside quotes and comments, except
right after a word of what may still become a config: there both have to add the
same to the word. -/
theorem parse_layout_iff (a b r r' : Str) (ha : placeAfter a = .initialWhitespace ∨ placeAfter a = .normal)
    (hr : BlankRun r) (hr' : BlankRun r') :
    parse (a ++ r ++ b) = parse (a ++ r' ++ b) ↔
      (placeAfter a = .normal → Begins a → wordEnd (r ++ b) = wordEnd (r' ++ b)) := by
  rw [parse_stream, parse_stream, List.append_assoc, List.append_assoc, scan_append, scan_append]
  have hq := scan_onward a (q := .gap initial) reads_initial
  cases hs : scan (.gap initial) a with
  | error c =>
    refine ⟨fun _ hn hb => ?_, fun _ => rfl⟩
    obtain ⟨q, he⟩ := (begins_iff hn).1 hb
    rw [hs] at he
    cases he
  | ok q =>
    rw [hs] at hq
    obtain ⟨us, hq⟩ := hq
    have hst : q.state = placeAfter a := scan_place a hs
    simp only [Except.bind]
    rcases ha with hg | hn
    · rw [scan_gap (hst.trans hg) hr, scan_gap (hst.trans hg) hr']
      simp [hg]
    · obtain ⟨st, v, p⟩ := q
      have hst : st = .normal := hst.trans hn
      subst hst
      constructor
      · intro he _ _
        exact wordEnd_of_outcome hq he
      · intro h
        exact outcome_of_wordEnd hr.2 hr'.2 (h hn ((begins_iff hn).2 ⟨_, hs⟩)) v p

/-- Between tokens the two runs always stand for each other. -/
theorem parse_layout_space : parse (str "a;" ++ str "\r\n" ++ str "b;") = parse (str "a;" ++ str " " ++ str "b;") := by
  refine (parse_layout_iff _ _ _ _ ?_ ?_ ?_).2 ?_
  · left; rfl
  · exact ⟨by simp [str], by decide⟩
  · exact ⟨by simp [str], by decide⟩
  · intro h; cases h

/-- A file with CRLF line ends is another config: its word holds the carriage return. -/
theorem parse_crlf : placeAfter "port" = .normal ∧ BlankRun "\r\n" ∧ BlankRun "\n" ∧
    parse (str "port" ++ str "\r\n" ++ str "80;") ≠ parse (str "port" ++ str "\n" ++ str "80;") := by
  have h : parse (str "port" ++ str "\r\n" ++ str "80;") = (true, [.line [str "port\r", str "80"]]) := by rfl
  have h' : parse (str "port" ++ str "\n" ++ str "80;") = (true, [.line [str "port", str "80"]]) := by rfl
  refine ⟨rfl, ⟨by simp [str], by decide⟩, ⟨by simp [str], by decide⟩, fun e => ?_⟩
  rw [h, h'] at e
  simp [str] at e

end GittyUp.Config
