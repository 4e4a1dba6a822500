import Mathlib.Data.List.Sort
/-!
# Stable sorting with a comparison that may fail

The stable order of a list whose comparison can throw. Every element of a list
of two or more is compared, so the sort throws when an element has no key.
-/

namespace Lib
variable {ε α : Type}

/-- Put `x` in front of the first element that is not less. -/
def insertStable (lt : α → α → Except ε Bool) (x : α) : List α → Except ε (List α)
  | [] => .ok [x]
  | y :: ys => do
    if ← lt y x then return y :: (← insertStable lt x ys)
    else return x :: y :: ys

def stableSort (lt : α → α → Except ε Bool) : List α → Except ε (List α)
  | [] => .ok []
  | x :: xs => do insertStable lt x (← stableSort lt xs)

section Keys
variable {lt : α → α → Except ε Bool} (key : α → ℤ)

theorem insertStable_ok {x : α} {l : List α} (h : ∀ y ∈ l, lt y x = .ok (decide (key y < key x))) :
    insertStable lt x l = .ok (l.orderedInsert (fun a b => key a ≤ key b) x) := by
  induction l with
  | nil => rfl
  | cons y ys ih =>
    rw [insertStable, h y List.mem_cons_self, ih fun z hz => h z (List.mem_cons_of_mem _ hz)]
    simp only [List.orderedInsert_cons, ← not_lt]
    by_cases hy : key y < key x <;> simp [hy, bind, Except.bind, pure, Except.pure]

/-- Where the comparison is one of keys, the sort is the stable order of the keys. -/
theorem stableSort_ok {l : List α} (h : ∀ x ∈ l, ∀ y ∈ l, lt x y = .ok (decide (key x < key y))) :
    stableSort lt l = .ok (l.insertionSort fun a b => key a ≤ key b) := by
  induction l with
  | nil => rfl
  | cons x xs ih =>
    rw [stableSort, ih fun y hy z hz => h y (List.mem_cons_of_mem _ hy) z (List.mem_cons_of_mem _ hz)]
    refine insertStable_ok key fun y hy => h y ?_ x List.mem_cons_self
    exact List.mem_cons_of_mem _ ((List.mem_insertionSort _).1 hy)

end Keys

/-! ## What comes out -/

theorem insertStable_perm {lt : α → α → Except ε Bool} {x : α} {l l' : List α} (h : insertStable lt x l = .ok l') :
    l'.Perm (x :: l) := by
  induction l generalizing l' with
  | nil =>
    cases h
    exact .refl _
  | cons y ys ih =>
    unfold insertStable at h
    cases hlt : lt y x with
    | error e => rw [hlt] at h; cases h
    | ok less =>
      rw [hlt] at h
      cases less with
      | false =>
        cases h
        exact .refl _
      | true =>
        cases hys : insertStable lt x ys with
        | error e =>
          simp only [bind, Except.bind, hys, if_true] at h
          cases h
        | ok zs =>
          simp only [bind, Except.bind, hys, if_true, pure, Except.pure] at h
          cases h
          exact ((ih hys).cons y).trans (.swap x y ys)

theorem stableSort_perm {lt : α → α → Except ε Bool} {l l' : List α} (h : stableSort lt l = .ok l') : l'.Perm l := by
  induction l generalizing l' with
  | nil =>
    cases h
    exact .refl _
  | cons x xs ih =>
    unfold stableSort at h
    cases hxs : stableSort lt xs with
    | error e => rw [hxs] at h; cases h
    | ok ys =>
      rw [hxs] at h
      exact (insertStable_perm h).trans ((ih hxs).cons x)

/-! ## When it throws -/

theorem insertStable_returns {lt : α → α → Except ε Bool} {x : α} {l : List α} (h : ∀ y ∈ l, ∃ b, lt y x = .ok b) :
    ∃ l', insertStable lt x l = .ok l' := by
  induction l with
  | nil => exact ⟨_, rfl⟩
  | cons y ys ih =>
    obtain ⟨less, hy⟩ := h y List.mem_cons_self
    obtain ⟨zs, hzs⟩ := ih fun z hz => h z (List.mem_cons_of_mem _ hz)
    unfold insertStable
    rw [hy, hzs]
    cases less
    · exact ⟨_, rfl⟩
    · exact ⟨_, rfl⟩

section Throws
variable {lt : α → α → Except ε Bool} {key : α → Except ε ℤ}

/-- The comparison is one of keys, and throws when it has to compute one that is not there. -/
def ComparesKeys (lt : α → α → Except ε Bool) (key : α → Except ε ℤ) : Prop :=
  ∀ x y, lt x y = do return decide ((← key x) < (← key y))

variable (hlt : ComparesKeys lt key)
include hlt

theorem lt_error_iff (x y : α) : (∃ e, lt x y = .error e) ↔ (∃ e, key x = .error e) ∨ ∃ e, key y = .error e := by
  rw [hlt]
  cases key x <;> cases key y <;> simp [bind, Except.bind, pure, Except.pure]

theorem lt_returns {x y : α} (hx : ¬ ∃ e, key x = .error e) (hy : ¬ ∃ e, key y = .error e) : ∃ b, lt x y = .ok b := by
  have := mt (lt_error_iff hlt x y).1 (not_or.2 ⟨hx, hy⟩)
  cases h : lt x y with
  | error e => exact absurd ⟨e, h⟩ this
  | ok b => exact ⟨b, rfl⟩

/-- The first element is compared with `x`, and the others have keys. -/
theorem insertStable_error_iff {x z : α} {zs : List α} (hzs : ∀ w ∈ zs, ¬ ∃ e, key w = .error e) :
    (∃ e, insertStable lt x (z :: zs) = .error e) ↔ (∃ e, key z = .error e) ∨ ∃ e, key x = .error e := by
  rw [← lt_error_iff hlt z x]
  by_cases hzx : ∃ e, lt z x = .error e
  · obtain ⟨e, he⟩ := hzx
    refine iff_of_true ⟨e, ?_⟩ ⟨e, he⟩
    unfold insertStable
    rw [he]
    rfl
  · obtain ⟨hz, hx⟩ := not_or.1 (mt (lt_error_iff hlt z x).2 hzx)
    obtain ⟨l', hl'⟩ : ∃ l', insertStable lt x (z :: zs) = .ok l' := by
      refine insertStable_returns fun w hw => ?_
      rcases List.mem_cons.1 hw with rfl | hw
      · exact lt_returns hlt hz hx
      · exact lt_returns hlt (hzs w hw) hx
    rw [hl']
    exact iff_of_false nofun hzx

/-- The sort throws if and only if there are two elements to compare and one of them has no key. -/
theorem stableSort_error_iff (l : List α) :
    (∃ e, stableSort lt l = .error e) ↔ 2 ≤ l.length ∧ ∃ x ∈ l, ∃ e, key x = .error e := by
  induction l with
  | nil => exact iff_of_false nofun (by simp)
  | cons x xs ih =>
    unfold stableSort
    cases hxs : stableSort lt xs with
    | error e =>
      obtain ⟨hlen, y, hy, he⟩ := ih.1 ⟨e, hxs⟩
      refine iff_of_true ⟨e, rfl⟩ ⟨?_, y, List.mem_cons_of_mem _ hy, he⟩
      exact Nat.le_succ_of_le hlen
    | ok ys =>
      have hperm := stableSort_perm hxs
      have hno := mt ih.2 (by rw [hxs]; nofun)
      show (∃ e, insertStable lt x ys = .error e) ↔ _
      cases ys with
      | nil =>
        rw [← hperm.nil_eq]
        exact iff_of_false nofun (by simp)
      | cons z zs =>
        -- one element, or a tail whose keys are all there
        have hzs : ∀ w ∈ zs, ¬ ∃ e, key w = .error e := by
          intro w hw he
          refine hno ⟨?_, w, hperm.subset (List.mem_cons_of_mem _ hw), he⟩
          rw [← hperm.length_eq, List.length_cons]
          exact Nat.succ_le_succ (List.length_pos_of_mem hw)
        rw [insertStable_error_iff hlt hzs]
        have hlen : 2 ≤ (x :: xs).length := by
          rw [List.length_cons, ← hperm.length_eq, List.length_cons]
          omega
        constructor
        · rintro (h | h)
          · exact ⟨hlen, z, List.mem_cons_of_mem _ (hperm.subset List.mem_cons_self), h⟩
          · exact ⟨hlen, x, List.mem_cons_self, h⟩
        · rintro ⟨-, y, hy, h⟩
          rcases List.mem_cons.1 hy with rfl | hy
          · exact .inr h
          · rcases List.mem_cons.1 (hperm.symm.subset hy) with rfl | hy
            · exact .inl h
            · exact absurd h (hzs y hy)

end Throws

end Lib
