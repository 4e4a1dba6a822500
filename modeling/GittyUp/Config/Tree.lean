import Mathlib.Data.List.ModifyLast
import GittyUp.Config.Grammar
/-!
# The trees that the parser builds

A statement is only made for a token, so none is empty, at any depth and whether
the text is accepted or not (`parse_worded`). The code that reads `tokens_[0]` of
a block relies on it.
-/
open Lib

namespace GittyUp.Config

/-- Every statement has a token, in the blocks too. -/
def Worded (c : NginxConfig) : Prop := ∀ s, Within s c → s.tokens ≠ []

theorem worded_cons {t : Statement} {c : NginxConfig} :
    Worded (t :: c) ↔ t.tokens ≠ [] ∧ (∀ child, t.childBlock = some child → Worded child) ∧ Worded c := by
  constructor
  · intro h
    refine ⟨h t (within_cons.2 (.inl rfl)), fun child hc s hs => ?_, fun s hs => ?_⟩
    · exact h s (within_cons.2 (.inr (.inl ⟨child, hc, hs⟩)))
    · exact h s (within_cons.2 (.inr (.inr hs)))
  · rintro ⟨ht, hchild, hc⟩ s hs
    obtain rfl | ⟨d, hd, hs⟩ | hs := within_cons.1 hs
    · exact ht
    · exact hchild d hd s hs
    · exact hc s hs

namespace Worded

@[simp] theorem nil : Worded [] := by
  rintro s (h | ⟨h, -, -⟩)
  · cases h
  · cases h

theorem tokens {c : NginxConfig} (h : Worded c) : ∀ s ∈ c, s.tokens ≠ [] := fun s hs => h s (.here hs)

theorem append {c c' : NginxConfig} (h : Worded c) (h' : Worded c') : Worded (c ++ c') := fun s hs =>
  (within_append.1 hs).elim (h s) (h' s)

theorem of_append {c c' : NginxConfig} (h : Worded (c ++ c')) : Worded c ∧ Worded c' :=
  ⟨fun s hs => h s (within_append.2 (.inl hs)), fun s hs => h s (within_append.2 (.inr hs))⟩

@[simp] theorem cons_line {ts : List Str} {c : NginxConfig} : Worded (.line ts :: c) ↔ ts ≠ [] ∧ Worded c := by
  simp [worded_cons]

@[simp] theorem cons_block {ts : List Str} {child c : NginxConfig} :
    Worded (.block ts child :: c) ↔ ts ≠ [] ∧ Worded child ∧ Worded c := by
  simp [worded_cons]

/-- Only the last statement changes. -/
theorem modifyLast {c : NginxConfig} (h : Worded c) {f : Statement → Statement}
    (hf : ∀ s, Worded [s] → Worded [f s]) : Worded (c.modifyLast f) := by
  rcases List.eq_nil_or_concat c with rfl | ⟨c, s, rfl⟩
  · exact h
  · rw [List.concat_eq_append] at h ⊢
    rw [List.modifyLast_concat]
    exact h.of_append.1.append (hf s h.of_append.2)

theorem setChild {c child : NginxConfig} (h : Worded c) (hchild : Worded child) : Worded (setChild child c) :=
  h.modifyLast fun _ hs => cons_block.2 ⟨(worded_cons.1 hs).1, hchild, .nil⟩

/-- A token goes to a statement that has one, or to a new one. -/
theorem pushToken {c : NginxConfig} (h : Worded c) (token : Str) : Worded (pushToken token c) := by
  refine h.modifyLast fun s hs => ?_
  cases s with
  | line ts => simp
  | block ts child => exact cons_block.2 ⟨by simp, (cons_block.1 hs).2⟩

theorem pushNew {c : NginxConfig} (h : Worded c) (token : Str) : Worded (Config.pushToken token (c ++ [.line []])) := by
  unfold Config.pushToken
  rw [List.modifyLast_concat]
  exact h.append (by simp)

end Worded

/-! ## The token loop -/

theorem onTop_worded {f : NginxConfig → NginxConfig} (hf : ∀ c, Worded c → Worded (f c)) {stack : List NginxConfig}
    (h : ∀ c ∈ stack, Worded c) : ∀ c ∈ onTop f stack, Worded c := by
  cases stack with
  | nil => exact h
  | cons top rest =>
    intro c hc
    rcases List.mem_cons.1 hc with rfl | hc
    · exact hf _ (h _ List.mem_cons_self)
    · exact h c (List.mem_cons_of_mem _ hc)

/-- What one token can do to the stack. -/
theorem feed_worded {p p' : Parser} {type : TokenType} {token : Str} (h : feed p type token = some p')
    (hp : ∀ c ∈ p.stack, Worded c) : ∀ c ∈ p'.stack, Worded c := by
  cases type with
  | start | comment | eof | error => cases h
  | normal =>
    simp only [feed] at h
    split_ifs at h with hlast hnormal
    · -- the token goes to a new statement
      cases h
      intro c hc
      cases hs : p.stack with
      | nil => rw [hs] at hc; cases hc
      | cons top rest =>
        rw [hs] at hc hp
        rcases List.mem_cons.1 hc with rfl | hc
        · exact (hp top List.mem_cons_self).pushNew token
        · exact hp c (List.mem_cons_of_mem _ hc)
    · cases h
      exact onTop_worded (fun c hc => hc.pushToken token) hp
  | statementEnd =>
    simp only [feed] at h
    split_ifs at h
    cases h
    exact hp
  | startBlock =>
    simp only [feed] at h
    split_ifs at h
    cases h
    intro c hc
    rcases List.mem_cons.1 hc with rfl | hc
    · -- the new block has no statement yet
      exact .nil
    · exact hp c hc
  | endBlock =>
    simp only [feed] at h
    split_ifs at h
    cases h
    intro c hc
    rcases hs : p.stack with _ | ⟨top, _ | ⟨below, rest⟩⟩
    · rw [hs] at hc; cases hc
    · rw [hs] at hc; cases hc
    · -- the block on top is closed, and goes to the last statement below it
      rw [hs] at hc hp
      rcases List.mem_cons.1 hc with rfl | hc
      · exact (hp below (by simp)).setChild (hp top (by simp))
      · exact hp c (by simp [hc])

theorem tree_worded {stack : List NginxConfig} (h : ∀ c ∈ stack, Worded c) : Worded (tree stack) := by
  cases stack with
  | nil => exact .nil
  | cons top rest =>
    unfold tree
    have htop := h top List.mem_cons_self
    have hrest : ∀ c ∈ rest, Worded c := fun c hc => h c (List.mem_cons_of_mem _ hc)
    clear h
    induction rest generalizing top with
    | nil => exact htop
    | cons below rest ih =>
      exact ih _ ((hrest below List.mem_cons_self).setChild htop) fun c hc => hrest c (List.mem_cons_of_mem _ hc)

theorem parseLoop_worded (fuel : Nat) {p : Parser} (hp : ∀ c ∈ p.stack, Worded c) (input : Str) :
    Worded (parseLoop fuel p input).2 := by
  induction fuel generalizing p input with
  | zero => exact tree_worded hp
  | succ fuel ih =>
    unfold parseLoop
    split
    · exact tree_worded hp
    · exact ih hp _
    · exact tree_worded hp
    · split
      · exact tree_worded hp
      · rename_i hf
        exact ih (feed_worded hf hp) _

/-- No statement of the tree is without a token, whether the text is accepted or not. -/
theorem parse_worded (configFile : Str) : Worded (parse configFile).2 := by
  refine parseLoop_worded _ (fun c hc => ?_) configFile
  rw [List.mem_singleton.1 hc]
  exact .nil

end GittyUp.Config
