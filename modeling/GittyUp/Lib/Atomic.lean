import GittyUp.Lib.Prog
import Mathlib.Data.List.Nodup
import Mathlib.Tactic.Tauto
/-!
# Objects whose operations are atomic

An object takes its inputs one at a time. A system of threads is linearizable to
it if beside each of its runs there is a serial history of the object that only
grows: a thread's input enters it between its arrival and its answer, with that
answer. `Instants.sound` is the rule: a thread that takes effect at one of its
calls, and at no other, is enough.
-/

namespace Lib

/-- The inputs that have taken effect, in order, with their answers. -/
abbrev History (ι ε α : Type) := List (ι × Except ε α)

structure AtomicObject (A ι ε α : Type) where
  init : A
  perform : A → ι → Except ε α → A → Prop

/-- A history of the object, one input at a time. -/
inductive AtomicObject.Serial {A ι ε α : Type} (obj : AtomicObject A ι ε α) : History ι ε α → A → Prop
  | nil : Serial obj [] obj.init
  | snoc {h a i x a'} : Serial obj h a → obj.perform a i x a' → Serial obj (h ++ [(i, x)]) a'

/-- A history that goes on where another has ended. -/
theorem AtomicObject.Serial.append {A ι ε α : Type} {perform : A → ι → Except ε α → A → Prop} {a₀ a a' : A}
    {h h' : History ι ε α} (hh : Serial ⟨a₀, perform⟩ h a) (hh' : Serial ⟨a, perform⟩ h' a') :
    Serial ⟨a₀, perform⟩ (h ++ h') a' := by
  induction hh' with
  | nil =>
    rw [List.append_nil]
    exact hh
  | snoc _ hp ih =>
    rw [← List.append_assoc]
    exact .snoc ih hp

/-- An object that performs more has every history of the other. -/
theorem AtomicObject.Serial.mono {A ι ε α : Type} {perform perform' : A → ι → Except ε α → A → Prop} {a₀ a : A}
    {h : History ι ε α} (hle : ∀ {a i x a'}, perform a i x a' → perform' a i x a') (hh : Serial ⟨a₀, perform⟩ h a) :
    Serial ⟨a₀, perform'⟩ h a := by
  induction hh with
  | nil => exact .nil
  | snoc _ hp ih => exact .snoc ih (hle hp)

section Linearizations
variable {S Op Reply ε α ι A : Type} (sys : System S Op Reply ε α ι) (s₀ : S) (obj : AtomicObject A ι ε α)
  (rel : S → A → Prop)

/-- The history tells of inputs of the pool, of each once at most, and of those
that are answered with their answers. -/
structure Tells (p : Pool S Op Reply ε α ι) (h : History ι ε α) : Prop where
  nodup : (h.map Prod.fst).Nodup
  arrived : ∀ i ∈ h.map Prod.fst, i ∈ p.world.inputs
  returned : ∀ t ∈ p.threads, ∀ a, t.prog = .ret a → (t.input, .ok a) ∈ h
  thrown : ∀ t ∈ p.threads, ∀ e, t.prog = .throw e → (t.input, .error e) ∈ h

/-- A history of the object that tells of the pool, and ends where the store is. -/
structure Fitting (p : Pool S Op Reply ε α ι) (h : History ι ε α) : Prop extends Tells p h where
  serial : ∃ a, obj.Serial h a ∧ rel p.world.store a

/-- The object keeps pace with every run: its history fits each pool, and is
only continued. So what is answered before another input arrives stands before it. -/
def Linearizable : Prop :=
  ∃ beside : Pool S Op Reply ε α ι → History ι ε α → Prop,
    beside ⟨⟨[], s₀, []⟩, []⟩ [] ∧ (∀ p h, beside p h → Fitting obj rel p h) ∧
      ∀ p h p', beside p h → Step sys p p' → ∃ h', h <+: h' ∧ beside p' h'

variable {sys s₀ obj rel} in
/-- Every pool that is reached has a history that fits it. -/
theorem Linearizable.fitting (hl : Linearizable sys s₀ obj rel) {p : Pool S Op Reply ε α ι} (h : Reachable sys s₀ p) :
    ∃ h, Fitting obj rel p h := by
  obtain ⟨beside, hinit, hfits, hstep⟩ := hl
  suffices ∃ h, beside p h by
    obtain ⟨h, hb⟩ := this
    exact ⟨h, hfits p h hb⟩
  induction h with
  | init => exact ⟨[], hinit⟩
  | step _ hs ih =>
    obtain ⟨h, hb⟩ := ih
    obtain ⟨h', -, hb'⟩ := hstep _ _ _ hb hs
    exact ⟨h', hb'⟩

variable {sys s₀ rel} in
theorem Linearizable.mono {perform perform' : A → ι → Except ε α → A → Prop} {a₀ : A}
    (hle : ∀ {a i x a'}, perform a i x a' → perform' a i x a') (hl : Linearizable sys s₀ ⟨a₀, perform⟩ rel) :
    Linearizable sys s₀ ⟨a₀, perform'⟩ rel := by
  obtain ⟨beside, hinit, hfits, hstep⟩ := hl
  refine ⟨beside, hinit, fun p h hb => ?_, hstep⟩
  obtain ⟨htells, a, hserial, hrel⟩ := hfits p h hb
  exact ⟨htells, a, hserial.mono hle, hrel⟩

/-! ## The instant at which a thread takes effect -/

section Threads
variable (inv : World S Op Reply ι → A → Prop) (rely guar : World S Op Reply ι → World S Op Reply ι → Prop)

/-- A thread that has taken effect with the answer `x`: what is left of it changes nothing. -/
def Effected (x : Except ε α) : Prog Op Reply ε α → List (Op × Reply) → World S Op Reply ι → Prop
  | .ret a, _, _ => x = .ok a
  | .throw e, _, _ => x = .error e
  | .call op k, tr, w => ∀ w₁ a, rely w w₁ → inv w₁ a → ∀ r s, sys.sem w₁.store op r s →
      sys.allowed tr op w₁ (w₁.after op r s) → guar w₁ (w₁.after op r s) ∧ inv (w₁.after op r s) a ∧
        Effected x (k r) (tr ++ [(op, r)]) (w₁.after op r s)

/-- A thread that takes effect at one of the calls before it. -/
def Effective (i : ι) : Prog Op Reply ε α → List (Op × Reply) → World S Op Reply ι → Prop
  | .ret _, _, _ => False
  | .throw _, _, _ => False
  | .call op k, tr, w => ∀ w₁ a, rely w w₁ → inv w₁ a → ∀ r s, sys.sem w₁.store op r s →
      sys.allowed tr op w₁ (w₁.after op r s) → guar w₁ (w₁.after op r s) ∧
        ((inv (w₁.after op r s) a ∧ Effective i (k r) (tr ++ [(op, r)]) (w₁.after op r s)) ∨
          ∃ x a', obj.perform a i x a' ∧ inv (w₁.after op r s) a' ∧
            Effected sys inv rely guar x (k r) (tr ++ [(op, r)]) (w₁.after op r s))

variable {sys obj inv rely guar}

theorem Effected.mono (htrans : ∀ w w₁ w₂, rely w w₁ → rely w₁ w₂ → rely w w₂) {x : Except ε α}
    {p : Prog Op Reply ε α} {tr : List (Op × Reply)} {w w₁ : World S Op Reply ι} (hw : rely w w₁)
    (h : Effected sys inv rely guar x p tr w) : Effected sys inv rely guar x p tr w₁ := by
  cases p with
  | ret a => exact h
  | throw e => exact h
  | call op k => exact fun w₂ a hw₂ => h w₂ a (htrans _ _ _ hw hw₂)

theorem Effective.mono (htrans : ∀ w w₁ w₂, rely w w₁ → rely w₁ w₂ → rely w w₂) {i : ι}
    {p : Prog Op Reply ε α} {tr : List (Op × Reply)} {w w₁ : World S Op Reply ι} (hw : rely w w₁)
    (h : Effective sys obj inv rely guar i p tr w) : Effective sys obj inv rely guar i p tr w₁ := by
  cases p with
  | ret a => exact h
  | throw e => exact h
  | call op k => exact fun w₂ a hw₂ => h w₂ a (htrans _ _ _ hw hw₂)

end Threads

/-- A proof outline by which each thread takes effect at one of its calls. -/
structure Instants where
  /-- The world, and the object beside it. -/
  inv : World S Op Reply ι → A → Prop
  rely : ι → World S Op Reply ι → World S Op Reply ι → Prop
  guar : ι → World S Op Reply ι → World S Op Reply ι → Prop
  init : inv ⟨[], s₀, []⟩ obj.init
  inv_rel : ∀ {w a}, inv w a → rel w.store a
  rely_refl : ∀ i w, rely i w w
  rely_trans : ∀ i {w w₁ w₂}, rely i w w₁ → rely i w₁ w₂ → rely i w w₂
  distinct_ne : ∀ {i j}, sys.distinct i j → i ≠ j
  guar_rely : ∀ {i j w w₁}, sys.distinct i j ∨ sys.distinct j i → guar i w w₁ → rely j w w₁
  arrive_inv : ∀ {i w a}, inv w a → inv (w.arrive i) a
  arrive_rely : ∀ i j w, rely j w (w.arrive i)
  start : ∀ {i w a}, sys.admissible i → (∀ j ∈ w.inputs, sys.distinct i j) → inv w a →
    Effective sys obj inv (rely i) (guar i) i (sys.start i) [] (w.arrive i)

namespace Instants
variable {sys s₀ obj rel} (c : Instants sys s₀ obj rel)

/-- What is known of a thread, by the history so far. -/
def Covers (h : History ι ε α) (w : World S Op Reply ι) (t : Thread Op Reply ε α ι) : Prop :=
  (t.input ∉ h.map Prod.fst ∧
      Effective sys obj c.inv (c.rely t.input) (c.guar t.input) t.input t.prog t.trace w) ∨
    ∃ x, (t.input, x) ∈ h ∧ Effected sys c.inv (c.rely t.input) (c.guar t.input) x t.prog t.trace w

def Beside (p : Pool S Op Reply ε α ι) (h : History ι ε α) : Prop :=
  Reachable sys s₀ p ∧ (∃ a, obj.Serial h a ∧ c.inv p.world a) ∧ (h.map Prod.fst).Nodup ∧
    (∀ i ∈ h.map Prod.fst, i ∈ p.world.inputs) ∧ ∀ t ∈ p.threads, c.Covers h p.world t

variable {c} {h h' : History ι ε α} {w w₁ : World S Op Reply ι} {t : Thread Op Reply ε α ι}

theorem Covers.mono (hc : c.Covers h w t) (hw : c.rely t.input w w₁) (hh : h <+: h')
    (hnew : t.input ∈ h'.map Prod.fst → t.input ∈ h.map Prod.fst) : c.Covers h' w₁ t := by
  rcases hc with ⟨hn, he⟩ | ⟨x, hx, he⟩
  · refine .inl ⟨mt hnew hn, Effective.mono ?_ hw he⟩
    exact fun _ _ _ => c.rely_trans t.input
  · refine .inr ⟨x, hh.subset hx, Effected.mono ?_ hw he⟩
    exact fun _ _ _ => c.rely_trans t.input

/-- An answered thread has taken effect, with its answer. -/
theorem Covers.answered (hc : c.Covers h w t) :
    (∀ a, t.prog = .ret a → (t.input, .ok a) ∈ h) ∧ ∀ e, t.prog = .throw e → (t.input, .error e) ∈ h := by
  obtain ⟨i, tr, p⟩ := t
  rcases hc with ⟨-, he⟩ | ⟨x, hx, he⟩
  · cases p with
    | ret a => exact he.elim
    | throw e => exact he.elim
    | call op k => exact ⟨nofun, nofun⟩
  · refine ⟨?_, ?_⟩
    · rintro a rfl
      cases he
      exact hx
    · rintro e rfl
      cases he
      exact hx

theorem Beside.fitting {p : Pool S Op Reply ε α ι} (hb : c.Beside p h) : Fitting obj rel p h := by
  obtain ⟨-, ⟨a, hserial, hinv⟩, hnodup, harrived, hcovers⟩ := hb
  exact ⟨⟨hnodup, harrived, fun t ht => (hcovers t ht).answered.1, fun t ht => (hcovers t ht).answered.2⟩,
    a, hserial, c.inv_rel hinv⟩

theorem Beside.step {p p' : Pool S Op Reply ε α ι} (hb : c.Beside p h) (hs : Step sys p p') :
    ∃ h', h <+: h' ∧ c.Beside p' h' := by
  obtain ⟨hr, ⟨a, hserial, hinv⟩, hnodup, harrived, hcovers⟩ := hb
  have hr' : Reachable sys s₀ p' := .step hr hs
  cases hs with
  | @arrive w ts i ha hd =>
    refine ⟨h, List.prefix_rfl, hr', ⟨a, hserial, c.arrive_inv hinv⟩, hnodup, fun j hj => ?_, fun t ht => ?_⟩
    · exact List.mem_append_left _ (harrived j hj)
    · rcases List.mem_append.1 ht with ht | ht
      · exact (hcovers t ht).mono (c.arrive_rely _ _ _) List.prefix_rfl id
      · rw [List.mem_singleton.1 ht]
        refine .inl ⟨fun hmem => ?_, c.start ha hd hinv⟩
        exact c.distinct_ne (hd i (harrived i hmem)) rfl
  | @call w ts ts' i tr op k r s hsem hal =>
    -- the other threads have inputs distinct from that of this one
    have hdist := hr.distinct
    rw [← hr.inputs] at hdist
    simp only [List.map_append, List.map_cons, List.pairwise_append, List.pairwise_cons] at hdist
    obtain ⟨-, ⟨hafter, -⟩, hbefore⟩ := hdist
    have hother : ∀ t ∈ ts ++ ts', sys.distinct i t.input ∨ sys.distinct t.input i := by
      intro t ht
      rcases List.mem_append.1 ht with ht | ht
      · exact .inl (hbefore t.input (List.mem_map_of_mem ht) i (by simp))
      · exact .inr (hafter t.input (List.mem_map_of_mem ht))
    have hne : ∀ t ∈ ts ++ ts', t.input ≠ i := fun t ht => by
      rcases hother t ht with hd | hd
      · exact (c.distinct_ne hd).symm
      · exact c.distinct_ne hd
    have hmem : i ∈ w.inputs := by
      rw [← hr.inputs]
      simp
    -- the others are covered as before, whatever this one adds to the history
    have hothers : ∀ h', h <+: h' → (∀ j ∈ h'.map Prod.fst, j ≠ i → j ∈ h.map Prod.fst) →
        c.guar i w (w.after op r s) → c.Covers h' (w.after op r s) ⟨i, tr ++ [(op, r)], k r⟩ →
          ∀ t ∈ ts ++ ⟨i, tr ++ [(op, r)], k r⟩ :: ts', c.Covers h' (w.after op r s) t := by
      intro h' hh hold hg hthis t ht
      have hsplit : t ∈ ts ++ ts' ∨ t = ⟨i, tr ++ [(op, r)], k r⟩ := by
        simp only [List.mem_append, List.mem_cons] at ht ⊢
        tauto
      rcases hsplit with ht | rfl
      · have hmem' : t ∈ ts ++ ⟨i, tr, .call op k⟩ :: ts' := by
          simp only [List.mem_append, List.mem_cons] at ht ⊢
          tauto
        exact (hcovers t hmem').mono (c.guar_rely (hother t ht) hg) hh fun hj => hold _ hj (hne t ht)
      · exact hthis
    rcases hcovers ⟨i, tr, .call op k⟩ (by simp) with ⟨hn, he⟩ | ⟨x, hx, he⟩
    · obtain ⟨hg, ⟨hinv', he'⟩ | ⟨x, a', hp, hinv', he'⟩⟩ := he w a (c.rely_refl i w) hinv r s hsem hal
      · exact ⟨h, List.prefix_rfl, hr', ⟨a, hserial, hinv'⟩, hnodup, harrived,
          hothers h List.prefix_rfl (fun _ hj _ => hj) hg (.inl ⟨hn, he'⟩)⟩
      · -- the thread takes effect now
        refine ⟨h ++ [(i, x)], List.prefix_append _ _, hr', ⟨a', .snoc hserial hp, hinv'⟩, ?_, fun j hj => ?_,
          hothers _ (List.prefix_append _ _) (fun j hj hji => ?_) hg (.inr ⟨x, by simp, he'⟩)⟩
        · rw [List.map_append, List.nodup_append]
          refine ⟨hnodup, List.nodup_singleton _, ?_⟩
          rintro j hj _ hj' rfl
          rw [List.mem_singleton.1 hj'] at hj
          exact hn hj
        · rw [List.map_append, List.mem_append] at hj
          rcases hj with hj | hj
          · exact harrived j hj
          · rw [List.mem_singleton.1 hj]
            exact hmem
        · rw [List.map_append, List.mem_append] at hj
          exact hj.resolve_right fun hj => hji (List.mem_singleton.1 hj)
    · obtain ⟨hg, hinv', he'⟩ := he w a (c.rely_refl i w) hinv r s hsem hal
      exact ⟨h, List.prefix_rfl, hr', ⟨a, hserial, hinv'⟩, hnodup, harrived,
        hothers h List.prefix_rfl (fun _ hj _ => hj) hg (.inr ⟨x, hx, he'⟩)⟩

/-- A system whose threads each take effect at one of their calls is linearizable. -/
theorem sound (c : Instants sys s₀ obj rel) : Linearizable sys s₀ obj rel := by
  refine ⟨c.Beside, ⟨.init, ⟨_, .nil, c.init⟩, .nil, nofun, nofun⟩, fun p h hb => hb.fitting, fun p h p' hb hs => ?_⟩
  exact hb.step hs

end Instants

end Linearizations

/-! ## Other inputs -/

section Through
variable {S Op Reply ε ε' α β ι κ A : Type} (f : κ → ι) (g : κ → Except ε α → Except ε' β)

/-- The world with the inputs that its inputs stand for. -/
def World.through (w : World S Op Reply κ) : World S Op Reply ι := ⟨w.inputs.map f, w.store, w.log⟩

/-- Inputs that stand for those of a system, and make their own of its answers. -/
def System.through (sys : System S Op Reply ε α ι) : System S Op Reply ε' β κ where
  start j := (sys.start (f j)).finish (g j)
  admissible j := sys.admissible (f j)
  distinct j j' := sys.distinct (f j) (f j')
  sem := sys.sem
  allowed tr op w w' := sys.allowed tr op (w.through f) (w'.through f)

def AtomicObject.through (obj : AtomicObject A ι ε α) : AtomicObject A κ ε' β where
  init := obj.init
  perform a j y a' := ∃ x, y = g j x ∧ obj.perform a (f j) x a'

variable {f g} {sys : System S Op Reply ε α ι} {obj : AtomicObject A ι ε α} {inv : World S Op Reply ι → A → Prop}
  {rely guar : World S Op Reply ι → World S Op Reply ι → Prop}

theorem World.through_arrive (w : World S Op Reply κ) (j : κ) : (w.arrive j).through f = (w.through f).arrive (f j) := by
  simp [World.through, World.arrive]

/-- What a thread ends with is made of what its program ends with. -/
theorem Effected.through {x : Except ε α} {p : Prog Op Reply ε α} {tr : List (Op × Reply)} {w : World S Op Reply κ} {j : κ}
    (h : Effected sys inv rely guar x p tr (w.through f)) :
    Effected (sys.through f g) (fun w => inv (w.through f)) (fun w w₁ => rely (w.through f) (w₁.through f))
      (fun w w₁ => guar (w.through f) (w₁.through f)) (g j x) (p.finish (g j)) tr w := by
  induction p generalizing tr w with
  | ret a =>
    cases h
    unfold Prog.finish
    cases hg : g j (.ok a) <;> exact rfl
  | throw e =>
    cases h
    unfold Prog.finish
    cases hg : g j (.error e) <;> exact rfl
  | call op k ih =>
    intro w₁ a hw hinv r s hsem hal
    obtain ⟨hguar, hinv', h'⟩ := h _ a hw hinv r s hsem hal
    exact ⟨hguar, hinv', ih r h'⟩

theorem Effective.through {p : Prog Op Reply ε α} {tr : List (Op × Reply)} {w : World S Op Reply κ} {j : κ}
    (h : Effective sys obj inv rely guar (f j) p tr (w.through f)) :
    Effective (sys.through f g) (obj.through f g) (fun w => inv (w.through f))
      (fun w w₁ => rely (w.through f) (w₁.through f)) (fun w w₁ => guar (w.through f) (w₁.through f)) j
      (p.finish (g j)) tr w := by
  induction p generalizing tr w with
  | ret a => exact h.elim
  | throw e => exact h.elim
  | call op k ih =>
    intro w₁ a hw hinv r s hsem hal
    obtain ⟨hguar, ⟨hinv', h'⟩ | ⟨x, a', hp, hinv', h'⟩⟩ := h _ a hw hinv r s hsem hal
    · exact ⟨hguar, .inl ⟨hinv', ih r h'⟩⟩
    · exact ⟨hguar, .inr ⟨g j x, a', ⟨x, rfl, hp⟩, hinv', h'.through⟩⟩

/-- An outline of the system is one of the inputs that stand for its own. -/
def Instants.through {s₀ : S} {rel : S → A → Prop} (c : Instants sys s₀ obj rel) (f : κ → ι)
    (g : κ → Except ε α → Except ε' β) : Instants (sys.through f g) s₀ (obj.through f g) rel where
  inv w := c.inv (w.through f)
  rely j w w₁ := c.rely (f j) (w.through f) (w₁.through f)
  guar j w w₁ := c.guar (f j) (w.through f) (w₁.through f)
  init := c.init
  inv_rel := c.inv_rel
  rely_refl j w := c.rely_refl (f j) _
  rely_trans j := c.rely_trans (f j)
  distinct_ne h he := c.distinct_ne h (congrArg f he)
  guar_rely := c.guar_rely
  arrive_inv h := World.through_arrive _ _ ▸ c.arrive_inv h
  arrive_rely i j w := World.through_arrive w i ▸ c.arrive_rely (f i) (f j) (w.through f)
  start {j w a} hadm hdist hinv := by
    refine Effective.through ?_
    rw [World.through_arrive]
    refine c.start hadm (fun i hi => ?_) hinv
    obtain ⟨j', hj', rfl⟩ := List.mem_map.1 hi
    exact hdist j' hj'

end Through

end Lib
