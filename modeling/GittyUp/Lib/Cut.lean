import Mathlib.Data.List.Basic
import Mathlib.Data.List.Infix
/-!
# Cutting lists at a separator

The first occurrence of a separator in a list, and the pieces between all its
occurrences. `cutAt_skip` and `cutAt_here` find the first occurrence in what was
joined from pieces that the separator does not begin in.
-/

namespace Lib
variable {α : Type} [DecidableEq α]

/-- What is in front of the first `sep`, and what is behind it. -/
def cutAt (sep : List α) : List α → Option (List α × List α)
  | [] => if sep = [] then some ([], []) else none
  | c :: s => if sep <+: c :: s then some ([], (c :: s).drop sep.length) else (cutAt sep s).map fun p => (c :: p.1, p.2)

/-- The pieces between separators, at most `n + 1`. -/
def pieces (sep : List α) : Nat → List α → List (List α)
  | 0, s => [s]
  | n + 1, s =>
    match cutAt sep s with
    | none => [s]
    | some (w, t) => w :: pieces sep n t

theorem cutAt_here (sep t : List α) : cutAt sep (sep ++ t) = some ([], t) := by
  cases sep with
  | nil => cases t <;> simp [cutAt]
  | cons c sep => simp [cutAt, List.cons_append]

theorem cutAt_cons {sep : List α} {c : α} {s : List α} (h : ¬ sep <+: c :: s) :
    cutAt sep (c :: s) = (cutAt sep s).map fun p => (c :: p.1, p.2) := by
  rw [cutAt, if_neg h]

/-- No separator begins in `w`. -/
theorem cutAt_skip {sep w s : List α} (h : ∀ u v, w = u ++ v → v ≠ [] → ¬ sep <+: v ++ s) :
    cutAt sep (w ++ s) = (cutAt sep s).map fun p => (w ++ p.1, p.2) := by
  induction w with
  | nil => simp
  | cons c w ih =>
    have hc : ¬ sep <+: c :: (w ++ s) := h [] (c :: w) rfl (List.cons_ne_nil _ _)
    rw [List.cons_append, cutAt_cons hc, ih fun u v e hv => h (c :: u) v (by rw [e]; rfl) hv, Option.map_map]
    rfl

/-- The first byte of the separator is not in `w`. -/
theorem cutAt_skip_mem {d : α} {sep w : List α} (h : d ∉ w) (s : List α) :
    cutAt (d :: sep) (w ++ s) = (cutAt (d :: sep) s).map fun p => (w ++ p.1, p.2) := by
  refine cutAt_skip fun u v e hv hp => ?_
  obtain ⟨c, v, rfl⟩ := List.exists_cons_of_ne_nil hv
  rw [List.cons_append, List.cons_prefix_cons] at hp
  exact h (by rw [e, hp.1]; simp)

theorem cutAt_mem {d : α} {sep w : List α} (h : d ∉ w) (t : List α) :
    cutAt (d :: sep) (w ++ (d :: sep ++ t)) = some (w, t) := by
  rw [cutAt_skip_mem h, cutAt_here]
  simp

/-- Of a separator that starts with `a` and `b`, nothing begins in a text without
`b`, unless the next element is one. -/
theorem cutAt_skip_pair {a b : α} {sep w s : List α} (hw : b ∉ w) (hs : s.head? ≠ some b) :
    cutAt (a :: b :: sep) (w ++ s) = (cutAt (a :: b :: sep) s).map fun p => (w ++ p.1, p.2) := by
  refine cutAt_skip fun u v e hv hp => ?_
  obtain ⟨c, v, rfl⟩ := List.exists_cons_of_ne_nil hv
  rw [List.cons_append, List.cons_prefix_cons] at hp
  cases v with
  | nil =>
    obtain ⟨t, ht⟩ := hp.2
    exact hs (by rw [← List.nil_append s, ← ht]; rfl)
  | cons d v =>
    rw [List.cons_append, List.cons_prefix_cons] at hp
    exact hw (by rw [e, hp.2.1]; simp)

theorem cutAt_pair {a b : α} {sep w : List α} (hw : b ∉ w) (hab : a ≠ b) (t : List α) :
    cutAt (a :: b :: sep) (w ++ (a :: b :: sep ++ t)) = some (w, t) := by
  rw [cutAt_skip_pair hw (by simpa using hab), cutAt_here]
  simp

theorem cutAt_none_pair {a b : α} {sep w : List α} (hw : b ∉ w) : cutAt (a :: b :: sep) w = none := by
  have : cutAt (a :: b :: sep) (w ++ []) = _ := cutAt_skip_pair hw (by simp)
  rwa [List.append_nil, cutAt, if_neg (List.cons_ne_nil _ _)] at this

theorem cutAt_none {d : α} {sep w : List α} (h : d ∉ w) : cutAt (d :: sep) w = none := by
  have : cutAt (d :: sep) (w ++ []) = _ := cutAt_skip_mem h []
  rwa [List.append_nil, cutAt, if_neg (List.cons_ne_nil _ _)] at this

theorem cutAt_some {sep s a b : List α} (h : cutAt sep s = some (a, b)) : s = a ++ (sep ++ b) := by
  induction s generalizing a with
  | nil =>
    unfold cutAt at h
    split_ifs at h with hs
    cases h
    rw [hs]
    rfl
  | cons c s ih =>
    unfold cutAt at h
    split_ifs at h with hp
    · cases h
      exact List.prefix_append_drop hp
    · obtain ⟨⟨w, t⟩, hw, he⟩ := Option.map_eq_some_iff.1 h
      cases he
      rw [ih hw]
      rfl

/-- What is behind the text does not move its first separator. -/
theorem cutAt_extend {sep s a b : List α} (h : cutAt sep s = some (a, b)) (t : List α) :
    cutAt sep (s ++ t) = some (a, b ++ t) := by
  induction s generalizing a with
  | nil =>
    unfold cutAt at h
    split_ifs at h with hs
    cases h
    subst hs
    exact cutAt_here [] t
  | cons c s ih =>
    rw [cutAt] at h
    rw [List.cons_append, cutAt]
    split_ifs at h with hp
    · cases h
      have hp' : sep <+: c :: (s ++ t) := hp.trans (List.prefix_append (c :: s) t)
      rw [if_pos hp', ← List.cons_append, List.drop_append_of_le_length hp.length_le]
    · obtain ⟨⟨w, u⟩, hw, he⟩ := Option.map_eq_some_iff.1 h
      cases he
      have hp' : ¬ sep <+: c :: (s ++ t) := by
        intro hp'
        have hlen : sep.length ≤ (c :: s).length := by
          rw [cutAt_some hw]
          simp only [List.length_cons, List.length_append]
          omega
        exact hp (List.prefix_of_prefix_length_le hp' (List.prefix_append (c :: s) t) hlen)
      rw [if_neg hp', ih hw]
      rfl

/-- The pieces of lines that are joined by separators, if each ends where it is joined. -/
theorem pieces_lines {sep line : List α} {lines : List (List α)} {n : Nat}
    (hcut : ∀ l ∈ line :: lines, ∀ t, cutAt sep (l ++ (sep ++ t)) = some (l, t))
    (hlast : ∀ l ∈ line :: lines, cutAt sep l = none) (hn : lines.length ≤ n) :
    pieces sep n (line ++ lines.flatMap (sep ++ ·)) = line :: lines := by
  induction lines generalizing line n with
  | nil =>
    rw [List.flatMap_nil, List.append_nil]
    cases n with
    | zero => rfl
    | succ n => rw [pieces, hlast line (by simp)]
  | cons l lines ih =>
    cases n with
    | zero => cases hn
    | succ n =>
      rw [List.flatMap_cons, pieces, List.append_assoc, hcut line (by simp)]
      simp only
      rw [ih (fun x hx => hcut x (List.mem_cons_of_mem _ hx)) (fun x hx => hlast x (List.mem_cons_of_mem _ hx))
        (Nat.le_of_succ_le_succ hn)]

end Lib
