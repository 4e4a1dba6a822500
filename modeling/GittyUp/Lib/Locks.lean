import Mathlib.Data.Finset.Max
import Mathlib.Data.List.Basic
/-!
# Threads that take locks

Code that takes and releases locks and acts on what is shared, in any number of
threads. A lock is not recursive: a thread that asks for one that it holds waits
for itself. `Reachable.follows` goes from the order in which the code nests its
locks to every thread of every reachable pool, and `no_deadlock_of_rank` from a
ranking of the locks to the absence of a deadlock in one pool.
-/

namespace Lib.Locks
variable {L S : Type}

/-- What is left of a thread's call, from the next instruction on. -/
inductive Code (L S : Type)
  | done
  | lock (l : L) (k : Code L S)
  | unlock (l : L) (k : Code L S)
  /-- Change what is shared, and go on by what it was. -/
  | act (f : S → S) (k : S → Code L S)

structure Thread (L S : Type) where
  held : List L
  code : Code L S

/-- The lock that a thread asks for next. -/
def Thread.wants (t : Thread L S) : Option L :=
  match t.code with
  | .lock l _ => some l
  | _ => none

structure Pool (L S : Type) where
  shared : S
  threads : List (Thread L S)

def idle : Thread L S := ⟨[], .done⟩

/-! ## Steps -/

/-- The next instruction of one thread, beside the threads `others`; a thread
that has nothing left to do calls one of the methods. -/
inductive Move [DecidableEq L] (methods : Code L S → Prop) (others : List (Thread L S)) :
    S → Thread L S → S → Thread L S → Prop
  | call {s h m} : methods m → Move methods others s ⟨h, .done⟩ s ⟨h, m⟩
  | lock {s h l k} : l ∉ h → (∀ t ∈ others, l ∉ t.held) → Move methods others s ⟨h, .lock l k⟩ s ⟨l :: h, k⟩
  | unlock {s h l k} : Move methods others s ⟨h, .unlock l k⟩ s ⟨h.erase l, k⟩
  | act {s h f k} : Move methods others s ⟨h, .act f k⟩ (f s) ⟨h, k s⟩

section Runs
variable [DecidableEq L] (methods : Code L S → Prop)
  (guard : List (Thread L S) → Thread L S → Thread L S → Prop)

/-- A step of a pool, by a thread whose step is allowed beside the others. -/
inductive Step : Pool L S → Pool L S → Prop
  | move {s ts t ts' s' t'} : Move methods (ts ++ ts') s t s' t' → guard (ts ++ ts') t t' →
      Step ⟨s, ts ++ t :: ts'⟩ ⟨s', ts ++ t' :: ts'⟩

/-- The pools that `n` threads can come to. -/
inductive Reachable (n : ℕ) (s₀ : S) : Pool L S → Prop
  | init : Reachable n s₀ ⟨s₀, List.replicate n idle⟩
  | step {p p'} : Reachable n s₀ p → Step methods guard p p' → Reachable n s₀ p'

/-! Two threads. -/

variable {methods guard} {n : ℕ} {s₀ s s' : S} {t t' u u' : Thread L S}

theorem Reachable.first (h : Reachable methods guard n s₀ ⟨s, [t, u]⟩) (hm : Move methods [u] s t s' t')
    (hg : guard [u] t t') : Reachable methods guard n s₀ ⟨s', [t', u]⟩ :=
  h.step (show Step methods guard ⟨s, [] ++ t :: [u]⟩ ⟨s', [] ++ t' :: [u]⟩ from .move hm hg)

theorem Reachable.second (h : Reachable methods guard n s₀ ⟨s, [t, u]⟩) (hm : Move methods [t] s u s' u')
    (hg : guard [t] u u') : Reachable methods guard n s₀ ⟨s', [t, u']⟩ :=
  h.step (show Step methods guard ⟨s, [t] ++ u :: []⟩ ⟨s', [t] ++ u' :: []⟩ from .move hm hg)

end Runs

/-! ## Nesting -/

/-- Where `l` is taken while `m` is held, `nested m l`; and at the end nothing is held. -/
def Follows [DecidableEq L] (nested : L → L → Prop) : List L → Code L S → Prop
  | h, .done => h = []
  | h, .lock l k => (∀ m ∈ h, nested m l) ∧ Follows nested (l :: h) k
  | h, .unlock l k => Follows nested (h.erase l) k
  | h, .act _ k => ∀ s, Follows nested h (k s)

section Nesting
variable [DecidableEq L] {methods : Code L S → Prop} {guard : List (Thread L S) → Thread L S → Thread L S → Prop}
  {nested : L → L → Prop}

theorem Follows.wants {t : Thread L S} (h : Follows nested t.held t.code) {l : L} (hl : t.wants = some l) :
    ∀ m ∈ t.held, nested m l := by
  obtain ⟨held, code⟩ := t
  cases code with
  | lock l' k =>
    cases hl
    exact h.1
  | done | unlock | act => cases hl

theorem Move.follows (hm : ∀ m, methods m → Follows nested [] m) {others : List (Thread L S)} {s s' : S}
    {t t' : Thread L S} (h : Move methods others s t s' t') (ht : Follows nested t.held t.code) :
    Follows nested t'.held t'.code := by
  cases h with
  | call hc =>
    cases ht
    exact hm _ hc
  | lock => exact ht.2
  | unlock => exact ht
  | act => exact ht _

/-- Every thread keeps to the order in which its methods nest the locks. -/
theorem Reachable.follows (hm : ∀ m, methods m → Follows nested [] m) {n : ℕ} {s₀ : S} {p : Pool L S}
    (h : Reachable methods guard n s₀ p) : ∀ t ∈ p.threads, Follows nested t.held t.code := by
  induction h with
  | init =>
    intro t ht
    rw [List.eq_of_mem_replicate ht]
    rfl
  | step _ hs ih =>
    cases hs with
    | move hmove _ =>
      intro u hu
      simp only [List.mem_append, List.mem_cons] at hu ih
      rcases hu with hu | rfl | hu
      · exact ih u (.inl hu)
      · exact hmove.follows hm (ih _ (.inr (.inl rfl)))
      · exact ih u (.inr (.inr hu))

end Nesting

/-! ## Deadlocks -/

/-- Some threads, each waiting for a lock that one of them holds. -/
def Deadlock (p : Pool L S) : Prop :=
  ∃ I : Finset ℕ, I.Nonempty ∧ ∀ i ∈ I, ∃ t l, p.threads[i]? = some t ∧ t.wants = some l ∧
    ∃ j ∈ I, ∃ u, p.threads[j]? = some u ∧ l ∈ u.held

/-- There is no deadlock where every thread asks for locks of a higher rank than those that it holds. -/
theorem no_deadlock_of_rank (rank : L → ℕ) {p : Pool L S}
    (h : ∀ t ∈ p.threads, ∀ l, t.wants = some l → ∀ m ∈ t.held, rank m < rank l) : ¬ Deadlock p := by
  rintro ⟨I, hne, hI⟩
  -- the thread that waits for the lock of the highest rank
  let wanted (i : ℕ) : ℕ := ((p.threads[i]?.bind Thread.wants).map rank).getD 0
  obtain ⟨i, hi, hmax⟩ := I.exists_max_image wanted hne
  obtain ⟨t, l, ht, hl, j, hj, u, hu, hlu⟩ := hI i hi
  obtain ⟨u', m, hu', hm, -⟩ := hI j hj
  cases hu.symm.trans hu'
  have hlt := h u (List.mem_of_getElem? hu) m hm l hlu
  have hle := hmax j hj
  simp only [wanted, ht, hu, Option.bind_some, hl, hm, Option.map_some, Option.getD_some] at hle
  omega

/-- Two threads that each ask for a lock that the other holds. -/
theorem deadlock_of_pair {p : Pool L S} {i j : ℕ} {t u : Thread L S} {l m : L} (ht : p.threads[i]? = some t)
    (hu : p.threads[j]? = some u) (htl : t.wants = some l) (hl : l ∈ u.held) (hum : u.wants = some m) (hm : m ∈ t.held) :
    Deadlock p := by
  refine ⟨{i, j}, by simp, fun k hk => ?_⟩
  rcases Finset.mem_insert.1 hk with rfl | hk
  · exact ⟨t, l, ht, htl, j, by simp, u, hu, hl⟩
  · rw [Finset.mem_singleton.1 hk]
    exact ⟨u, m, hu, hum, i, by simp, t, ht, hm⟩

end Lib.Locks
