import GittyUp.Config.Grammar
/-!
# Printing and parsing again

Every word the lexer can produce lexes to itself between the separators and the
indentation that the printer adds, so the text printed for an accepted tree is a
text of that tree.
-/
open Lib

namespace GittyUp.Config

/-! ## What the printer writes -/

theorem text_indent {s : Str} {ts : List Token} (h : Text s ts none) (depth : Nat) :
    Text (indent depth ++ s) ts none := by
  induction depth with
  | zero => exact h
  | succ n ih =>
    rw [indent, List.append_assoc]
    exact .blank (c := ' ') (by decide) (.blank (c := ' ') (by decide) ih)

theorem text_word {w s : Str} {c : Byte} {ts : List Token} (hw : WordOk w) (hc : endsWord c)
    (h : Text (c :: s) ts none) : Text (w ++ c :: s) (.word w :: ts) none := by
  rcases hw with hw | hw
  · exact .plain hw hc h
  · exact .quoted hw h

theorem text_spaced {ws : List Str} {s : Str} {c : Byte} {ts : List Token} (hne : ws ≠ [])
    (hw : ∀ w ∈ ws, WordOk w) (hc : endsWord c) (h : Text (c :: s) ts none) :
    Text (spaced ws ++ c :: s) (ws.map .word ++ ts) none := by
  induction ws with
  | nil => exact absurd rfl hne
  | cons w ws ih =>
    rcases ws with _ | ⟨v, ws⟩
    · simpa [spaced] using text_word (hw w (by simp)) hc h
    · have := ih (by simp) (fun x hx => hw x (by simp [hx]))
      have e : spaced (w :: v :: ws) ++ c :: s = w ++ (str " " ++ (spaced (v :: ws) ++ c :: s)) := by
        simp [spaced]
      rw [e, List.map_cons, List.cons_append]
      exact text_word (hw w (by simp)) (by decide) (.blank (c := ' ') (by decide) this)

theorem toString_append (c d : NginxConfig) (depth : Nat) :
    NginxConfig.toString (c ++ d) depth = NginxConfig.toString c depth ++ NginxConfig.toString d depth := by
  induction c with
  | nil => rfl
  | cons s c ih => rw [List.cons_append, NginxConfig.toString, NginxConfig.toString, ih, List.append_assoc]

/-- The printed tree reads as the tokens it was derived from, at every depth and
whatever text follows. -/
theorem text_toString {ts : List Token} {c : NginxConfig} (h : Derives ts c) (hw : ∀ w, .word w ∈ ts → WordOk w) :
    ∀ depth {s us}, Text s us none → Text (NginxConfig.toString c depth ++ s) (ts ++ us) none := by
  induction h with
  | @line ws hne =>
    intro depth s us hs
    have hs' : Text (str ";\n" ++ s) (.semicolon :: us) none := .semicolon (.blank (c := '\n') (by decide) hs)
    have e : NginxConfig.toString [.line ws] depth ++ s = indent depth ++ (spaced ws ++ (str ";\n" ++ s)) := by
      simp [NginxConfig.toString, Statement.toString, str]
    rw [e, List.append_assoc]
    exact text_indent (text_spaced hne (fun w h => hw w (by simp [h])) (by decide) hs') depth
  | @block ws ts c hne _ ih =>
    intro depth s us hs
    have hs' : Text (str "\x7d\n" ++ s) (.closeBrace :: us) none := .closeBrace (.blank (c := '\n') (by decide) hs)
    have hc := ih (fun w h => hw w (by simp [h])) (depth + 1) (text_indent hs' depth)
    have ho : Text (str " \x7b\n" ++ (NginxConfig.toString c (depth + 1) ++ (indent depth ++ (str "\x7d\n" ++ s))))
        (.openBrace :: (ts ++ .closeBrace :: us)) none :=
      .blank (c := ' ') (by decide) (.openBrace (.blank (c := '\n') (by decide) hc))
    have e : NginxConfig.toString [.block ws c] depth ++ s = indent depth ++ (spaced ws ++
        (str " \x7b\n" ++ (NginxConfig.toString c (depth + 1) ++ (indent depth ++ (str "\x7d\n" ++ s))))) := by
      simp [NginxConfig.toString, Statement.toString, str]
    have et : ws.map Token.word ++ .openBrace :: (ts ++ [.closeBrace]) ++ us =
        ws.map Token.word ++ (.openBrace :: (ts ++ .closeBrace :: us)) := by simp
    rw [e, et]
    exact text_indent (text_spaced hne (fun w h => hw w (by simp [h])) (by decide) ho) depth
  | append _ _ ih1 ih2 =>
    intro depth s us hs
    rw [toString_append, List.append_assoc, List.append_assoc]
    exact ih1 (fun w h => hw w (by simp [h])) depth (ih2 (fun w h => hw w (by simp [h])) depth hs)

/-- Printing an accepted config and parsing the print gives the config back. -/
theorem parse_toString (s : Str) (c : NginxConfig) (h : parse s = (true, c)) :
    parse (NginxConfig.toString c 0) = (true, c) := by
  obtain ⟨ts, t, ht, hd⟩ := (parse_iff s c).1 h
  have := text_toString hd (text_words ht) 0 .done
  rw [List.append_nil, List.append_nil] at this
  exact (parse_iff _ c).2 ⟨ts, none, this, hd⟩

/-- Quotes, a '#' and a carriage return inside words, and a nested block. -/
theorem parse_toString_nested :
    parse (NginxConfig.toString [.line [str "a#b\r", str "'c; \x7b\n'"], .block [str "d"] [.line [str "e'"]]] 0) =
      (true, [.line [str "a#b\r", str "'c; \x7b\n'"], .block [str "d"] [.line [str "e'"]]]) :=
  parse_toString "a#b\r 'c; \x7b\n'; # x\n d \x7b e'; \x7d" _ (by
    simp [parse, parseLoop, parseToken, parseTokenLoop, str, feed, onTop, pushToken, setChild, pop, accepts, tree,
      List.modifyLast, List.modifyLast.go])

end GittyUp.Config
