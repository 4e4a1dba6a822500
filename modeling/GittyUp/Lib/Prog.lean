import Mathlib.Data.List.Basic
import Mathlib.Data.List.Induction
import Mathlib.Data.List.Perm.Basic
import Mathlib.Data.List.Pairwise
/-!
# Programs that share a store

A program is a tree of calls to a service, each continued with the reply.
`Runs` runs one program alone. A pool interleaves the calls of many programs:
inputs arrive at any time and each starts a thread, and a step is one call of
one thread; `Among` is one program with the calls of others around its own. A
`Contract` is a rely-guarantee proof outline, and `Contract.sound` the rule: what
each program keeps on its own holds in every reachable pool.
-/

namespace Lib

inductive Prog (Op Reply ε α : Type)
  | ret (a : α)
  | throw (e : ε)
  | call (op : Op) (k : Reply → Prog Op Reply ε α)

namespace Prog
variable {Op Reply ε α β : Type}

def bind : Prog Op Reply ε α → (α → Prog Op Reply ε β) → Prog Op Reply ε β
  | ret a, f => f a
  | throw e, _ => throw e
  | call op k, f => call op fun r => (k r).bind f

instance : Monad (Prog Op Reply ε) where
  pure := ret
  bind := bind

def ofExcept : Except ε α → Prog Op Reply ε α
  | .ok a => ret a
  | .error e => throw e

@[simp] theorem pure_eq (a : α) : (pure a : Prog Op Reply ε α) = ret a := rfl
@[simp] theorem ret_bind (a : α) (f : α → Prog Op Reply ε β) : ret a >>= f = f a := rfl
@[simp] theorem throw_bind (e : ε) (f : α → Prog Op Reply ε β) : throw e >>= f = throw e := rfl
@[simp] theorem call_bind (op : Op) (k : Reply → Prog Op Reply ε α) (f : α → Prog Op Reply ε β) :
    call op k >>= f = call op fun r => k r >>= f := rfl

theorem bind_ret (p : Prog Op Reply ε α) : p >>= ret = p := by
  induction p with
  | ret a => rfl
  | throw e => rfl
  | call op k ih => exact congrArg (call op) (funext ih)

/-- The call that a program begins with. -/
def first : Prog Op Reply ε α → Option Op
  | call op _ => some op
  | _ => none

/-- The program against a service that replies with more than it looks at. -/
def comap {Reply' : Type} (f : Reply' → Reply) : Prog Op Reply ε α → Prog Op Reply' ε α
  | ret a => ret a
  | throw e => throw e
  | call op k => call op fun r => (k (f r)).comap f

theorem comap_bind {Reply' : Type} (f : Reply' → Reply) (p : Prog Op Reply ε α) (g : α → Prog Op Reply ε β) :
    (p >>= g).comap f = p.comap f >>= fun a => (g a).comap f := by
  induction p with
  | ret a => rfl
  | throw e => rfl
  | call op k ih => exact congrArg (call op) (funext fun r => ih (f r))

/-- The program with its outcome made into another one. -/
def finish {ε' : Type} (g : Except ε α → Except ε' β) : Prog Op Reply ε α → Prog Op Reply ε' β
  | ret a => ofExcept (g (.ok a))
  | throw e => ofExcept (g (.error e))
  | call op k => call op fun r => (k r).finish g

end Prog

/-! ## One program alone -/

section Alone
variable {S Op Reply ε α β : Type} {sem : S → Op → Reply → S → Prop}

/-- The outcome of a program and the store it leaves, when nobody else calls. -/
inductive Runs (sem : S → Op → Reply → S → Prop) : S → Prog Op Reply ε α → Except ε α → S → Prop
  | ret {s a} : Runs sem s (.ret a) (.ok a) s
  | throw {s e} : Runs sem s (.throw e) (.error e) s
  | call {s op k r s₁ x s₂} : sem s op r s₁ → Runs sem s₁ (k r) x s₂ → Runs sem s (.call op k) x s₂

theorem runs_ret {s s' : S} {a : α} {x : Except ε α} :
    Runs sem s (Prog.ret a : Prog Op Reply ε α) x s' ↔ x = .ok a ∧ s' = s :=
  ⟨fun h => by cases h; exact ⟨rfl, rfl⟩, fun ⟨h1, h2⟩ => by subst h1 h2; exact .ret⟩

theorem runs_throw {s s' : S} {e : ε} {x : Except ε α} :
    Runs sem s (Prog.throw e : Prog Op Reply ε α) x s' ↔ x = .error e ∧ s' = s :=
  ⟨fun h => by cases h; exact ⟨rfl, rfl⟩, fun ⟨h1, h2⟩ => by subst h1 h2; exact .throw⟩

theorem runs_call {s s' : S} {op : Op} {k : Reply → Prog Op Reply ε α} {x : Except ε α} :
    Runs sem s (.call op k) x s' ↔ ∃ r s₁, sem s op r s₁ ∧ Runs sem s₁ (k r) x s' :=
  ⟨fun h => by cases h with | call h h' => exact ⟨_, _, h, h'⟩, fun ⟨_, _, h, h'⟩ => .call h h'⟩

theorem runs_bind {p : Prog Op Reply ε α} {f : α → Prog Op Reply ε β} {s s' : S} {x : Except ε β} :
    Runs sem s (p >>= f) x s' ↔
      (∃ a s₁, Runs sem s p (.ok a) s₁ ∧ Runs sem s₁ (f a) x s') ∨ ∃ e, Runs sem s p (.error e) s' ∧ x = .error e := by
  induction p generalizing s with
  | ret a =>
    rw [Prog.ret_bind]
    constructor
    · exact fun h => .inl ⟨a, s, .ret, h⟩
    · rintro (⟨_, _, h, h'⟩ | ⟨_, h, -⟩)
      · cases h
        exact h'
      · cases h
  | throw e =>
    rw [Prog.throw_bind, runs_throw]
    constructor
    · rintro ⟨rfl, rfl⟩
      exact .inr ⟨e, .throw, rfl⟩
    · rintro (⟨_, _, h, -⟩ | ⟨_, h, rfl⟩)
      · cases h
      · cases h
        exact ⟨rfl, rfl⟩
  | call op k ih =>
    simp only [Prog.call_bind, runs_call, ih]
    constructor
    · rintro ⟨r, s₁, h, ⟨a, s₂, h₁, h₂⟩ | ⟨e, h₁, rfl⟩⟩
      · exact .inl ⟨a, s₂, ⟨r, s₁, h, h₁⟩, h₂⟩
      · exact .inr ⟨e, ⟨r, s₁, h, h₁⟩, rfl⟩
    · rintro (⟨a, s₂, ⟨r, s₁, h, h₁⟩, h₂⟩ | ⟨e, ⟨r, s₁, h, h₁⟩, rfl⟩)
      · exact ⟨r, s₁, h, .inl ⟨a, s₂, h₁, h₂⟩⟩
      · exact ⟨r, s₁, h, .inr ⟨e, h₁, rfl⟩⟩

/-- Whatever is replied, a result of the program has `P`. -/
def Prog.Returns (P : α → Prop) : Prog Op Reply ε α → Prop
  | .ret a => P a
  | .throw _ => True
  | .call _ k => ∀ r, (k r).Returns P

theorem Prog.Returns.bind {P : β → Prop} (p : Prog Op Reply ε α) {f : α → Prog Op Reply ε β}
    (h : ∀ a, (f a).Returns P) : (p >>= f).Returns P := by
  induction p with
  | ret a => exact h a
  | throw e => trivial
  | call op k ih => exact fun r => ih r

theorem Prog.Returns.runs {P : α → Prop} {p : Prog Op Reply ε α} (hp : p.Returns P) {s s' : S} {a : α}
    (h : Runs sem s p (.ok a) s') : P a := by
  induction p generalizing s with
  | ret b =>
    obtain ⟨hb, -⟩ := runs_ret.1 h
    cases hb
    exact hp
  | throw e =>
    obtain ⟨he, -⟩ := runs_throw.1 h
    cases he
  | call op k ih =>
    obtain ⟨r, s₁, -, h⟩ := runs_call.1 h
    exact ih r (hp r) h

/-- Whatever is replied, each call of the program has `P`. -/
def Prog.Calls (P : Op → Prop) : Prog Op Reply ε α → Prop
  | .ret _ => True
  | .throw _ => True
  | .call op k => P op ∧ ∀ r, (k r).Calls P

theorem Prog.Calls.bind {P : Op → Prop} {p : Prog Op Reply ε α} (hp : p.Calls P) {f : α → Prog Op Reply ε β}
    (h : ∀ a, (f a).Calls P) : (p >>= f).Calls P := by
  induction p with
  | ret a => exact h a
  | throw e => trivial
  | call op k ih => exact ⟨hp.1, fun r => ih r (hp.2 r)⟩

theorem Prog.Calls.ofExcept {P : Op → Prop} (x : Except ε α) :
    (Prog.ofExcept x : Prog Op Reply ε α).Calls P := by
  cases x <;> trivial

/-- Whatever is replied, the calls of the program with their replies have `P` when it ends. -/
def Prog.Ends (P : List (Op × Reply) → Prop) : Prog Op Reply ε α → Prop
  | .ret _ => P []
  | .throw _ => P []
  | .call op k => ∀ r, (k r).Ends fun tr => P ((op, r) :: tr)

theorem Prog.Ends.bind {P Q R : List (Op × Reply) → Prop} {p : Prog Op Reply ε α} (hp : p.Ends P)
    {f : α → Prog Op Reply ε β} (hf : ∀ a, (f a).Ends Q) (hthrow : ∀ tr, P tr → R tr)
    (happend : ∀ tr tr', P tr → Q tr' → R (tr ++ tr')) : (p >>= f).Ends R := by
  have mono : ∀ {P Q : List (Op × Reply) → Prop} {q : Prog Op Reply ε β}, (∀ tr, P tr → Q tr) → q.Ends P → q.Ends Q := by
    intro P Q q h hq
    induction q generalizing P Q with
    | ret b => exact h [] hq
    | throw e => exact h [] hq
    | call op k ih => exact fun r => ih r (fun tr => h ((op, r) :: tr)) (hq r)
  induction p generalizing P R with
  | ret a => exact mono (happend [] · hp) (hf a)
  | throw e => exact hthrow [] hp
  | call op k ih =>
    exact fun r => ih r (hp r) (fun tr => hthrow ((op, r) :: tr)) fun tr tr' => happend ((op, r) :: tr) tr'

/-- The run against a service that computes its replies. -/
def Prog.eval (step : S → Op → Reply × S) : Prog Op Reply ε α → S → Except ε α × S
  | .ret a, s => (.ok a, s)
  | .throw e, s => (.error e, s)
  | .call op k, s => (k (step s op).1).eval step (step s op).2

theorem runs_eval {step : S → Op → Reply × S} (hstep : ∀ s op, sem s op (step s op).1 (step s op).2)
    (p : Prog Op Reply ε α) (s : S) : Runs sem s p (p.eval step s).1 (p.eval step s).2 := by
  induction p generalizing s with
  | ret a => exact .ret
  | throw e => exact .throw
  | call op k ih => exact .call (hstep s op) (ih _ _)

/-- The service, with the calls and their replies written down behind the store. -/
def logged (sem : S → Op → Reply → S → Prop) (s : S × List (Op × Reply)) (op : Op) (r : Reply)
    (s' : S × List (Op × Reply)) : Prop :=
  sem s.1 op r s'.1 ∧ s'.2 = s.2 ++ [(op, r)]

theorem Runs.logged_call {s : S} {l : List (Op × Reply)} {op : Op} {k : Reply → Prog Op Reply ε α} {x : Except ε α}
    {s' : S × List (Op × Reply)} (h : Runs (logged sem) (s, l) (.call op k) x s') :
    ∃ r s₁, sem s op r s₁ ∧ Runs (logged sem) (s₁, l ++ [(op, r)]) (k r) x s' := by
  obtain ⟨r, ⟨s₁, l₁⟩, ⟨hs, rfl⟩, h⟩ := runs_call.1 h
  exact ⟨r, s₁, hs, h⟩

/-- The step of a service that computes its replies, with the log. -/
def loggedStep (step : S → Op → Reply × S) (s : S × List (Op × Reply)) (op : Op) : Reply × S × List (Op × Reply) :=
  let (r, s₁) := step s.1 op
  (r, s₁, s.2 ++ [(op, r)])

theorem logged_step {step : S → Op → Reply × S} (hstep : ∀ s op, sem s op (step s op).1 (step s op).2)
    (s : S × List (Op × Reply)) (op : Op) : logged sem s op (loggedStep step s op).1 (loggedStep step s op).2 :=
  ⟨hstep s.1 op, rfl⟩

/-- The programs of some inputs, each run alone when the one before has ended. -/
inductive RunsEach {ι : Type} (sem : S → Op → Reply → S → Prop) (start : ι → Prog Op Reply ε α) (s₀ : S) :
    List ι → List (Except ε α) → S → Prop
  | nil : RunsEach sem start s₀ [] [] s₀
  | snoc {is xs s i x s'} : RunsEach sem start s₀ is xs s → Runs sem s (start i) x s' →
      RunsEach sem start s₀ (is ++ [i]) (xs ++ [x]) s'

/-- The runs one after another against a service that computes its replies. -/
def evalEach {ι : Type} (step : S → Op → Reply × S) (start : ι → Prog Op Reply ε α) (is : List ι) (s₀ : S) :
    List (Except ε α) × S :=
  is.foldl (fun acc i => let r := (start i).eval step acc.2; (acc.1 ++ [r.1], r.2)) ([], s₀)

theorem runsEach_eval {ι : Type} {step : S → Op → Reply × S} (hstep : ∀ s op, sem s op (step s op).1 (step s op).2)
    (start : ι → Prog Op Reply ε α) (is : List ι) (s₀ : S) :
    RunsEach sem start s₀ is (evalEach step start is s₀).1 (evalEach step start is s₀).2 := by
  induction is using List.reverseRecOn with
  | nil => exact .nil
  | append_singleton is i ih =>
    unfold evalEach at ih ⊢
    rw [List.foldl_append]
    exact .snoc ih (runs_eval hstep (start i) _)

/-- A simulation of each program by a step of `next` is one of the whole run. -/
theorem RunsEach.simulates {ι A : Type} {start : ι → Prog Op Reply ε α} (rel : S → A → Prop) {next : A → ι → A}
    (answers : A → ι → Except ε α → Prop) {P : List ι → Prop} {s₀ : S} {a₀ : A} (hP : ∀ is i, P (is ++ [i]) → P is)
    (h₀ : rel s₀ a₀)
    (hstep : ∀ is i s x s', P (is ++ [i]) → rel s (is.foldl next a₀) → Runs sem s (start i) x s' →
      rel s' (next (is.foldl next a₀) i) ∧ answers (is.foldl next a₀) i x)
    {is : List ι} {xs : List (Except ε α)} {s : S} (h : RunsEach sem start s₀ is xs s) (hp : P is) :
    rel s (is.foldl next a₀) ∧ xs.length = is.length ∧
      ∀ (k : Nat) i x, is[k]? = some i → xs[k]? = some x → answers ((is.take k).foldl next a₀) i x := by
  induction h with
  | nil => exact ⟨h₀, rfl, by simp⟩
  | @snoc is xs s i x s' _ hr ih =>
    obtain ⟨hrel, hlen, hans⟩ := ih (hP is i hp)
    obtain ⟨hrel', hans'⟩ := hstep is i s x s' hp hrel hr
    refine ⟨by simpa using hrel', by simp [hlen], fun k j y hj hy => ?_⟩
    by_cases hk : k < is.length
    · rw [List.getElem?_append_left hk] at hj
      rw [List.getElem?_append_left (hlen ▸ hk)] at hy
      rw [List.take_append_of_le_length (Nat.le_of_lt hk)]
      exact hans k j y hj hy
    · have hk' : k = is.length := by
        have := (List.getElem?_eq_some_iff.1 hj).1
        rw [List.length_append, List.length_singleton] at this
        omega
      subst hk'
      rw [List.getElem?_concat_length] at hj
      rw [← hlen, List.getElem?_concat_length] at hy
      cases hj
      cases hy
      rw [List.take_left]
      exact hans'

end Alone

/-! ## One program among others -/

section Amid
variable {S Op Reply ε α : Type} (sem : S → Op → Reply → S → Prop) (others : Op → Prop)

/-- Calls that others make, in order. -/
inductive Others : S → List (Op × Reply) → S → Prop
  | none {s} : Others s [] s
  | call {s op r s₁ log s₂} : others op → sem s op r s₁ → Others s₁ log s₂ → Others s ((op, r) :: log) s₂

/-- The outcome of a program while others make calls at any time, and all the calls, in order. -/
inductive Among : S → Prog Op Reply ε α → List (Op × Reply) → Except ε α → S → Prop
  | ret {s a} : Among s (.ret a) [] (.ok a) s
  | throw {s e} : Among s (.throw e) [] (.error e) s
  | call {s op r s₁ k log x s₂} : sem s op r s₁ → Among s₁ (k r) log x s₂ → Among s (.call op k) ((op, r) :: log) x s₂
  | other {s op r s₁ p log x s₂} : others op → sem s op r s₁ → Among s₁ p log x s₂ → Among s p ((op, r) :: log) x s₂

variable {sem others} {s s' : S} {log : List (Op × Reply)} {x : Except ε α}

theorem Others.among {s₁ : S} {p : Prog Op Reply ε α} {log' : List (Op × Reply)} (h : Others sem others s log s₁)
    (hp : Among sem others s₁ p log' x s') : Among sem others s p (log ++ log') x s' := by
  induction h with
  | none => exact hp
  | call ho hs _ ih => exact .other ho hs (ih hp)

theorem among_ret {a : α} : Among sem others s (Prog.ret a : Prog Op Reply ε α) log x s' ↔
    x = .ok a ∧ Others sem others s log s' := by
  constructor
  · intro h
    generalize hp : (Prog.ret a : Prog Op Reply ε α) = p at h
    induction h with
    | ret =>
      cases hp
      exact ⟨rfl, .none⟩
    | throw => cases hp
    | call => cases hp
    | other ho hs _ ih => exact ⟨(ih hp).1, .call ho hs (ih hp).2⟩
  · rintro ⟨rfl, h⟩
    have := h.among (.ret (a := a) (ε := ε))
    rwa [List.append_nil] at this

theorem among_throw {e : ε} : Among sem others s (Prog.throw e : Prog Op Reply ε α) log x s' ↔
    x = .error e ∧ Others sem others s log s' := by
  constructor
  · intro h
    generalize hp : (Prog.throw e : Prog Op Reply ε α) = p at h
    induction h with
    | throw =>
      cases hp
      exact ⟨rfl, .none⟩
    | ret => cases hp
    | call => cases hp
    | other ho hs _ ih => exact ⟨(ih hp).1, .call ho hs (ih hp).2⟩
  · rintro ⟨rfl, h⟩
    have := h.among (.throw (e := e) (α := α))
    rwa [List.append_nil] at this

/-- What others have called when the program makes its next call, and the rest. -/
theorem among_call {op : Op} {k : Reply → Prog Op Reply ε α} : Among sem others s (.call op k) log x s' ↔
    ∃ log₁ s₁ r s₂ log₂, log = log₁ ++ (op, r) :: log₂ ∧ Others sem others s log₁ s₁ ∧ sem s₁ op r s₂ ∧
      Among sem others s₂ (k r) log₂ x s' := by
  constructor
  · intro h
    generalize hp : (Prog.call op k : Prog Op Reply ε α) = p at h
    induction h with
    | ret => cases hp
    | throw => cases hp
    | call hs h _ =>
      cases hp
      exact ⟨[], _, _, _, _, rfl, .none, hs, h⟩
    | other ho hs _ ih =>
      obtain ⟨log₁, s₁, r, s₂, log₂, rfl, h₁, h₂, h₃⟩ := ih hp
      exact ⟨_ :: log₁, s₁, r, s₂, log₂, rfl, .call ho hs h₁, h₂, h₃⟩
  · rintro ⟨log₁, s₁, r, s₂, log₂, rfl, h₁, h₂, h₃⟩
    exact h₁.among (.call h₂ h₃)

end Amid

/-! ## Many programs -/

/-- The inputs that have arrived, the store, and the calls with their replies. -/
structure World (S Op Reply ι : Type) where
  inputs : List ι
  store : S
  log : List (Op × Reply)

namespace World
variable {S Op Reply ι : Type}

def arrive (w : World S Op Reply ι) (i : ι) : World S Op Reply ι := { w with inputs := w.inputs ++ [i] }

def after (w : World S Op Reply ι) (op : Op) (r : Reply) (s : S) : World S Op Reply ι :=
  { w with store := s, log := w.log ++ [(op, r)] }

@[simp] theorem arrive_inputs (w : World S Op Reply ι) (i : ι) : (w.arrive i).inputs = w.inputs ++ [i] := rfl
@[simp] theorem arrive_store (w : World S Op Reply ι) (i : ι) : (w.arrive i).store = w.store := rfl
@[simp] theorem arrive_log (w : World S Op Reply ι) (i : ι) : (w.arrive i).log = w.log := rfl
@[simp] theorem after_inputs (w : World S Op Reply ι) (op : Op) (r : Reply) (s : S) : (w.after op r s).inputs = w.inputs := rfl
@[simp] theorem after_store (w : World S Op Reply ι) (op : Op) (r : Reply) (s : S) : (w.after op r s).store = s := rfl
@[simp] theorem after_log (w : World S Op Reply ι) (op : Op) (r : Reply) (s : S) :
    (w.after op r s).log = w.log ++ [(op, r)] := rfl

end World

/-- Programs over a service: what an input starts, which inputs can arrive, what
a call does, and a condition on the calls of the runs under consideration. -/
structure System (S Op Reply ε α ι : Type) where
  start : ι → Prog Op Reply ε α
  admissible : ι → Prop
  /-- Two inputs that may both arrive. -/
  distinct : ι → ι → Prop
  sem : S → Op → Reply → S → Prop
  /-- By the calls that the thread has made, its next call, and the worlds before and after. -/
  allowed : List (Op × Reply) → Op → World S Op Reply ι → World S Op Reply ι → Prop

structure Thread (Op Reply ε α ι : Type) where
  input : ι
  trace : List (Op × Reply)
  prog : Prog Op Reply ε α

structure Pool (S Op Reply ε α ι : Type) where
  world : World S Op Reply ι
  threads : List (Thread Op Reply ε α ι)

section Pools
variable {S Op Reply ε α ι : Type} (sys : System S Op Reply ε α ι)

inductive Step : Pool S Op Reply ε α ι → Pool S Op Reply ε α ι → Prop
  | arrive {w ts i} : sys.admissible i → (∀ j ∈ w.inputs, sys.distinct i j) →
      Step ⟨w, ts⟩ ⟨w.arrive i, ts ++ [⟨i, [], sys.start i⟩]⟩
  | call {w ts ts' i tr op k r s} : sys.sem w.store op r s → sys.allowed tr op w (w.after op r s) →
      Step ⟨w, ts ++ ⟨i, tr, .call op k⟩ :: ts'⟩ ⟨w.after op r s, ts ++ ⟨i, tr ++ [(op, r)], k r⟩ :: ts'⟩

inductive Reachable (s₀ : S) : Pool S Op Reply ε α ι → Prop
  | init : Reachable s₀ ⟨⟨[], s₀, []⟩, []⟩
  | step {p p'} : Reachable s₀ p → Step sys p p' → Reachable s₀ p'

variable {sys} {s₀ : S}

/-- The threads are those of the inputs. -/
theorem Reachable.inputs {p : Pool S Op Reply ε α ι} (h : Reachable sys s₀ p) :
    p.threads.map Thread.input = p.world.inputs := by
  induction h with
  | init => rfl
  | step _ hs ih =>
    cases hs with
    | arrive => simpa using ih
    | call => simpa using ih

/-- The log is an interleaving of the calls of the threads. -/
theorem Reachable.log_perm {p : Pool S Op Reply ε α ι} (h : Reachable sys s₀ p) :
    p.world.log.Perm (p.threads.flatMap Thread.trace) := by
  induction h with
  | init => exact .refl _
  | step _ hs ih =>
    cases hs with
    | arrive => simpa using ih
    | call _ _ =>
      simp only [List.flatMap_append, List.flatMap_cons, World.after_log] at ih ⊢
      refine (ih.append_right _).trans ?_
      simp only [List.append_assoc]
      exact (List.perm_append_comm.append_left _).append_left _

theorem Reachable.distinct {p : Pool S Op Reply ε α ι} (h : Reachable sys s₀ p) :
    p.world.inputs.Pairwise (fun i j => sys.distinct j i) := by
  induction h with
  | init => exact .nil
  | step _ hs ih =>
    cases hs with
    | arrive _ hd => exact List.pairwise_append.2 ⟨ih, List.pairwise_singleton .., by simpa using hd⟩
    | call => exact ih

/-- What each call with `P` preserves holds of every store, if the programs make no other calls. -/
theorem Reachable.store {P : Op → Prop} {I : S → Prop} (hstart : ∀ i, (sys.start i).Calls P) (h₀ : I s₀)
    (hstep : ∀ {s op r s'}, P op → I s → sys.sem s op r s' → I s') {p : Pool S Op Reply ε α ι}
    (h : Reachable sys s₀ p) : I p.world.store := by
  have key : I p.world.store ∧ ∀ t ∈ p.threads, t.prog.Calls P := by
    induction h with
    | init => exact ⟨h₀, nofun⟩
    | step _ hs ih =>
      obtain ⟨hi, ht⟩ := ih
      cases hs with
      | arrive =>
        refine ⟨hi, fun t hmem => ?_⟩
        rcases List.mem_append.1 hmem with hmem | hmem
        · exact ht t hmem
        · cases List.mem_singleton.1 hmem
          exact hstart _
      | @call w ts ts' i tr op k r s hsem _ =>
        obtain ⟨hop, hk⟩ := ht ⟨i, tr, .call op k⟩ (by simp)
        refine ⟨hstep hop hi hsem, fun t hmem => ?_⟩
        rcases List.mem_append.1 hmem with hmem | hmem
        · exact ht t (List.mem_append_left _ hmem)
        · rcases List.mem_cons.1 hmem with rfl | hmem
          · exact hk r
          · exact ht t (by simp [hmem])
  exact key.1

/-- What is left of each program ends with what the program ends with. -/
theorem Reachable.ends {P : List (Op × Reply) → Prop} (hstart : ∀ i, (sys.start i).Ends P) {p : Pool S Op Reply ε α ι}
    (h : Reachable sys s₀ p) : ∀ t ∈ p.threads, t.prog.Ends fun tr => P (t.trace ++ tr) := by
  induction h with
  | init => exact nofun
  | step _ hs ih =>
    cases hs with
    | arrive =>
      intro t hmem
      rcases List.mem_append.1 hmem with hmem | hmem
      · exact ih t hmem
      · cases List.mem_singleton.1 hmem
        exact hstart _
    | @call w ts ts' i tr op k r s hsem _ =>
      intro t hmem
      rcases List.mem_append.1 hmem with hmem | hmem
      · exact ih t (List.mem_append_left _ hmem)
      · rcases List.mem_cons.1 hmem with rfl | hmem
        · have := ih ⟨i, tr, .call op k⟩ (by simp) r
          simpa using this
        · exact ih t (by simp [hmem])

/-- What a call does to the store, by its reply, adds up along the log. -/
theorem Reachable.store_log {f : S → Op × Reply → S} {P : Op × Reply → Prop}
    (hsem : ∀ {s op r s'}, sys.sem s op r s' → P (op, r) ∧ s' = f s (op, r)) {p : Pool S Op Reply ε α ι}
    (h : Reachable sys s₀ p) : (∀ c ∈ p.world.log, P c) ∧ p.world.store = p.world.log.foldl f s₀ := by
  induction h with
  | init => exact ⟨nofun, rfl⟩
  | step _ hs ih =>
    cases hs with
    | arrive => exact ih
    | call hs _ =>
      obtain ⟨hP, rfl⟩ := hsem hs
      obtain ⟨hlog, hstore⟩ := ih
      refine ⟨fun c hc => ?_, ?_⟩
      · rcases List.mem_append.1 hc with hc | hc
        · exact hlog c hc
        · rw [List.mem_singleton.1 hc]
          exact hP
      · rw [World.after_store, World.after_log, List.foldl_append, ← hstore]
        rfl

/-- Only the steps into a world with `B`. -/
def System.restrict (sys : System S Op Reply ε α ι) (B : World S Op Reply ι → Prop) : System S Op Reply ε α ι :=
  { sys with allowed := fun tr op w w' => sys.allowed tr op w w' ∧ B w' }

/-- A run into a world with `B` had it all along, if steps never establish `B`. -/
theorem Reachable.restrict {B : World S Op Reply ι → Prop} (hcall : ∀ w op r s, B (w.after op r s) → B w)
    (harr : ∀ w i, B (w.arrive i) → B w) {p : Pool S Op Reply ε α ι} (h : Reachable sys s₀ p) (hB : B p.world) :
    Reachable (sys.restrict B) s₀ p := by
  induction h with
  | init => exact .init
  | step _ hs ih =>
    cases hs with
    | arrive ha hd => exact .step (ih (harr _ _ hB)) (.arrive ha hd)
    | call hs hal => exact .step (ih (hcall _ _ _ _ hB)) (.call hs ⟨hal, hB⟩)

/-! ## Runs by schedule -/

/-- What happens next: an input arrives, or the thread at a position makes its next call. -/
inductive Event (ι : Type)
  | arrive (i : ι)
  | call (n : Nat)

/-- Runs by schedule, against a service that computes its replies: which inputs
may arrive after which, and which calls are considered, is computed too. -/
structure Replay (S Op Reply ε α ι : Type) where
  start : ι → Prog Op Reply ε α
  step : S → Op → Reply × S
  fresh : ι → List ι → Bool
  considered : List (Op × Reply) → Op → World S Op Reply ι → World S Op Reply ι → Bool

def Replay.next (c : Replay S Op Reply ε α ι) (p : Pool S Op Reply ε α ι) :
    Event ι → Option (Pool S Op Reply ε α ι)
  | .arrive i => if c.fresh i p.world.inputs then some ⟨p.world.arrive i, p.threads ++ [⟨i, [], c.start i⟩]⟩ else none
  | .call n =>
    match p.threads[n]? with
    | some ⟨i, tr, .call op k⟩ =>
      let r := c.step p.world.store op
      let w := p.world.after op r.1 r.2
      if c.considered tr op p.world w then some ⟨w, p.threads.set n ⟨i, tr ++ [(op, r.1)], k r.1⟩⟩ else none
    | _ => none

def Replay.run (c : Replay S Op Reply ε α ι) (s₀ : S) (es : List (Event ι)) : Option (Pool S Op Reply ε α ι) :=
  es.foldlM c.next ⟨⟨[], s₀, []⟩, []⟩

/-- The events that a replay computes are steps of the system. -/
structure Replay.Fits (c : Replay S Op Reply ε α ι) (sys : System S Op Reply ε α ι) : Prop where
  start : c.start = sys.start
  step : ∀ s op, sys.sem s op (c.step s op).1 (c.step s op).2
  fresh : ∀ i is, c.fresh i is = true → sys.admissible i ∧ ∀ j ∈ is, sys.distinct i j
  considered : ∀ tr op w w', c.considered tr op w w' = true → sys.allowed tr op w w'

theorem Replay.Fits.next {c : Replay S Op Reply ε α ι} (hc : c.Fits sys) {p p' : Pool S Op Reply ε α ι}
    (h : Reachable sys s₀ p) {e : Event ι} (he : c.next p e = some p') : Reachable sys s₀ p' := by
  cases e with
  | arrive i =>
    rw [Replay.next] at he
    split_ifs at he with hf
    cases he
    rw [hc.start]
    exact .step h (.arrive (hc.fresh i _ hf).1 (hc.fresh i _ hf).2)
  | call n =>
    rw [Replay.next] at he
    split at he
    · rename_i i tr op k hget
      simp only at he
      split_ifs at he with hf
      cases he
      obtain ⟨hn, hget⟩ := List.getElem?_eq_some_iff.1 hget
      have hsplit : p.threads = p.threads.take n ++ ⟨i, tr, .call op k⟩ :: p.threads.drop (n + 1) := by
        rw [← hget, List.getElem_cons_drop, List.take_append_drop]
      have hset : p.threads.set n ⟨i, tr ++ [(op, (c.step p.world.store op).1)], k (c.step p.world.store op).1⟩ =
          p.threads.take n ++ ⟨i, tr ++ [(op, (c.step p.world.store op).1)], k (c.step p.world.store op).1⟩ ::
            p.threads.drop (n + 1) := List.set_eq_take_append_cons_drop ▸ by rw [if_pos hn]
      rw [hset]
      have hp : p = ⟨p.world, p.threads.take n ++ ⟨i, tr, .call op k⟩ :: p.threads.drop (n + 1)⟩ := by
        rw [← hsplit]
      rw [hp] at h
      exact .step h (.call (hc.step _ _) (hc.considered _ _ _ _ hf))
    · cases he

theorem Replay.Fits.reachable {c : Replay S Op Reply ε α ι} (hc : c.Fits sys) {es : List (Event ι)}
    {p : Pool S Op Reply ε α ι} (h : c.run s₀ es = some p) : Reachable sys s₀ p := by
  have key : ∀ (es : List (Event ι)) (q : Pool S Op Reply ε α ι), Reachable sys s₀ q →
      es.foldlM c.next q = some p → Reachable sys s₀ p := by
    intro es
    induction es with
    | nil =>
      rintro q hq ⟨⟩
      exact hq
    | cons e es ih =>
      intro q hq he
      rw [List.foldlM_cons, Option.bind_eq_bind, Option.bind_eq_some_iff] at he
      obtain ⟨q', hq', he⟩ := he
      exact ih q' (hc.next hq hq') he
  exact key es _ .init h

/-! ## Rely and guarantee -/

/-- A thread at this program, with these calls behind it, keeps `inv` and
`guar` at each of its calls while others keep `rely`, and ends in `post`. -/
def Holds (sys : System S Op Reply ε α ι) (inv : World S Op Reply ι → Prop)
    (rely guar : World S Op Reply ι → World S Op Reply ι → Prop) {β : Type}
    (post : Except ε β → List (Op × Reply) → World S Op Reply ι → Prop) :
    Prog Op Reply ε β → List (Op × Reply) → World S Op Reply ι → Prop
  | .ret b, tr, w => post (.ok b) tr w
  | .throw e, tr, w => post (.error e) tr w
  | .call op k, tr, w => ∀ w₁, rely w w₁ → inv w₁ → ∀ r s, sys.sem w₁.store op r s →
      sys.allowed tr op w₁ (w₁.after op r s) → inv (w₁.after op r s) ∧ guar w₁ (w₁.after op r s) ∧
        Holds sys inv rely guar post (k r) (tr ++ [(op, r)]) (w₁.after op r s)

section Rules
variable {inv : World S Op Reply ι → Prop} {rely guar : World S Op Reply ι → World S Op Reply ι → Prop} {β γ : Type}

/-- What others do does not matter. -/
theorem Holds.mono {post : Except ε β → List (Op × Reply) → World S Op Reply ι → Prop}
    (htrans : ∀ w w₁ w₂, rely w w₁ → rely w₁ w₂ → rely w w₂)
    (hpost : ∀ x tr w w₁, rely w w₁ → post x tr w → post x tr w₁) {p : Prog Op Reply ε β} {tr : List (Op × Reply)}
    {w w₁ : World S Op Reply ι} (hw : rely w w₁) (h : Holds sys inv rely guar post p tr w) :
    Holds sys inv rely guar post p tr w₁ := by
  cases p with
  | ret b => exact hpost _ _ _ _ hw h
  | throw e => exact hpost _ _ _ _ hw h
  | call op k => exact fun w₂ hw₂ => h w₂ (htrans _ _ _ hw hw₂)

theorem Holds.bind {post : Except ε γ → List (Op × Reply) → World S Op Reply ι → Prop} {p : Prog Op Reply ε β}
    {f : β → Prog Op Reply ε γ} {tr : List (Op × Reply)} {w : World S Op Reply ι}
    (h : Holds sys inv rely guar (fun x tr w =>
      match x with
      | .ok b => Holds sys inv rely guar post (f b) tr w
      | .error e => post (.error e) tr w) p tr w) :
    Holds sys inv rely guar post (p >>= f) tr w := by
  induction p generalizing tr w with
  | ret b => exact h
  | throw e => exact h
  | call op k ih =>
    intro w₁ hw hi r s hs ha
    obtain ⟨h1, h2, h3⟩ := h w₁ hw hi r s hs ha
    exact ⟨h1, h2, ih r h3⟩

end Rules

/-- A proof outline for all the programs of a system. -/
structure Contract (sys : System S Op Reply ε α ι) where
  inv : World S Op Reply ι → Prop
  rely : ι → World S Op Reply ι → World S Op Reply ι → Prop
  guar : ι → World S Op Reply ι → World S Op Reply ι → Prop
  post : ι → Except ε α → List (Op × Reply) → World S Op Reply ι → Prop
  rely_refl : ∀ i w, rely i w w
  rely_trans : ∀ i {w w₁ w₂}, rely i w w₁ → rely i w₁ w₂ → rely i w w₂
  post_stable : ∀ i {x tr w w₁}, rely i w w₁ → post i x tr w → post i x tr w₁
  guar_rely : ∀ {i j w w₁}, sys.distinct i j ∨ sys.distinct j i → guar i w w₁ → rely j w w₁
  arrive_inv : ∀ {i w}, sys.admissible i → (∀ j ∈ w.inputs, sys.distinct i j) → inv w → inv (w.arrive i)
  arrive_rely : ∀ i j w, rely j w (w.arrive i)
  start : ∀ {i w}, sys.admissible i → (∀ j ∈ w.inputs, sys.distinct i j) → inv w →
    Holds sys inv (rely i) (guar i) (post i) (sys.start i) [] (w.arrive i)

/-- The state of every thread is covered by the outline, in every reachable pool. -/
theorem Contract.sound (c : Contract sys) (h₀ : c.inv ⟨[], s₀, []⟩) {p : Pool S Op Reply ε α ι}
    (h : Reachable sys s₀ p) : c.inv p.world ∧ ∀ t ∈ p.threads,
      Holds sys c.inv (c.rely t.input) (c.guar t.input) (c.post t.input) t.prog t.trace p.world := by
  induction h with
  | init => exact ⟨h₀, by simp⟩
  | step hr hs ih =>
    obtain ⟨hi, ht⟩ := ih
    have keep : ∀ {w w₁ : World S Op Reply ι} (t : Thread Op Reply ε α ι), c.rely t.input w w₁ →
        Holds sys c.inv (c.rely t.input) (c.guar t.input) (c.post t.input) t.prog t.trace w →
        Holds sys c.inv (c.rely t.input) (c.guar t.input) (c.post t.input) t.prog t.trace w₁ := by
      intro w w₁ t hw h
      refine Holds.mono ?_ ?_ hw h
      · exact fun _ _ _ => c.rely_trans t.input
      · exact fun _ _ _ _ => c.post_stable t.input
    cases hs with
    | arrive ha hd =>
      refine ⟨c.arrive_inv ha hd hi, fun t hmem => ?_⟩
      rcases List.mem_append.1 hmem with hmem | hmem
      · exact keep t (c.arrive_rely _ _ _) (ht t hmem)
      · cases List.mem_singleton.1 hmem
        exact c.start ha hd hi
    | @call w ts ts' i tr op k r s hsem hal =>
      obtain ⟨h1, h2, h3⟩ := ht ⟨i, tr, .call op k⟩ (by simp) w (c.rely_refl i w) hi r s hsem hal
      refine ⟨h1, fun t hmem => ?_⟩
      -- the other threads have inputs distinct from that of this one
      have hdist := hr.distinct
      rw [← hr.inputs] at hdist
      simp only [List.map_append, List.map_cons, List.pairwise_append, List.pairwise_cons] at hdist
      obtain ⟨-, ⟨hafter, -⟩, hbefore⟩ := hdist
      rcases List.mem_append.1 hmem with hmem | hmem
      · have hd := hbefore t.input (List.mem_map_of_mem hmem) i (by simp)
        exact keep t (c.guar_rely (.inl hd) h2) (ht t (List.mem_append_left _ hmem))
      · rcases List.mem_cons.1 hmem with rfl | hmem
        · exact h3
        · have hd := hafter t.input (List.mem_map_of_mem hmem)
          exact keep t (c.guar_rely (.inr hd) h2) (ht t (by simp [hmem]))

end Pools

end Lib
