import GittyUp.Meme.Refinement
import Mathlib.Algebra.BigOperators.Group.List.Basic
import Mathlib.Algebra.Group.Int.Defs
import Mathlib.Algebra.Group.Prod
/-!
# Connections and statements

What the requests open and prepare, and what they close and finalize, whatever
SQLite replies. No request closes its connection, for `disconnect` is never
called, and a statement that fails is not finalized.
-/
open Lib Lib.Sql GittyUp.Http GittyUp.SqlLib

namespace GittyUp.Meme

/-- A call with its reply, and whether it made a handle. -/
abbrev Outcome := Call × Reply × Bool

/-- Open connections, and statements that are not finalized. -/
abbrev Handles := ℤ × ℤ

/-- A call that succeeds or returns a row has its handle; only these two kinds of calls make one. -/
def Possible : Outcome → Prop
  | (.connect _, r, handle) => r.done = true → handle = true
  | (.run _ _, r, handle) => r.done = true ∨ r.rows ≠ [] → handle = true
  | (_, _, handle) => handle = false

def made : Outcome → Handles
  | (.connect _, _, handle) => (if handle then 1 else 0, 0)
  | (.run _ _, _, handle) => (0, if handle then 1 else 0)
  | (.exec _, _, _) => (0, 0)
  | (.finalize, _, _) => (0, -1)

/-- What some calls have made and not released. -/
def held (tr : List Outcome) : Handles := (tr.map made).sum

/-- An opened connection. -/
def opens : Outcome → Bool
  | (.connect _, _, handle) => handle
  | _ => false

/-- A prepared statement that does not end with success. -/
def abandons : Outcome → Bool
  | (.run _ _, r, handle) => handle && !r.done
  | _ => false

/-- Requests, whose calls have any outcomes. -/
def handleSystem : System Handles Call (Reply × Bool) StdException Response Input where
  start i := (serve i.2.text i.1).comap Prod.fst
  admissible _ := True
  distinct _ _ := True
  sem h c o h' := Possible (c, o) ∧ h' = h + made (c, o)
  allowed _ _ _ _ := True

/-! ## What a request leaves -/

/-- What is left is the connections that were opened and the statements that were abandoned. -/
def Accounted (tr : List Outcome) : Prop :=
  (∀ o ∈ tr, Possible o) → held tr = ((tr.countP opens : ℤ), (tr.countP abandons : ℤ))

theorem held_append (tr tr' : List Outcome) : held (tr ++ tr') = held tr + held tr' := by
  unfold held
  rw [List.map_append, List.sum_append]

theorem accounted_nil : Accounted [] := fun _ => rfl

theorem Accounted.append {tr tr' : List Outcome} (h : Accounted tr) (h' : Accounted tr') : Accounted (tr ++ tr') := by
  intro hp
  rw [held_append, h fun o ho => hp o (List.mem_append_left _ ho), h' fun o ho => hp o (List.mem_append_right _ ho),
    List.countP_append, List.countP_append]
  simp

/-- A program each of whose runs is accounted for. -/
def Accounts {α : Type} (p : SqlProg α) : Prop := (p.comap (Prod.fst : Reply × Bool → Reply)).Ends Accounted

/-- A statement that is finalized if it ends with success. -/
theorem accounts_runOnce {α : Type} (sql : Str) (values : List Str) (k : Reply → α) : Accounts (runOnce sql values k) := by
  rintro ⟨r, handle⟩
  beta_reduce
  cases hdone : r.done with
  | true =>
    rintro ⟨r', handle'⟩ hp
    -- it was prepared, or it would not have succeeded
    have hhandle : handle = true := hp (.run sql (bindTexts values), r, handle) (by simp) (.inl hdone)
    simp [held, made, opens, abandons, hhandle, hdone]
  | false =>
    intro _
    cases handle with
    | true => simp [held, made, opens, abandons, hdone]
    | false => simp [held, made, opens, abandons]

/-- The constructor opens a connection, which nothing closes. -/
theorem accounts_opening : Accounts (perform Statement.opening.call) := by
  rintro ⟨r, handle⟩ _
  cases handle with
  | true => rfl
  | false => rfl

theorem accounts : Composable Accounts where
  ofExcept x := by cases x <;> exact accounted_nil
  bind hp hf := by
    unfold Accounts
    rw [Prog.comap_bind]
    exact Prog.Ends.bind hp hf (fun _ h => h) fun _ _ h h' => h.append h'
  opening := accounts_opening
  creating := fun _ _ => rfl
  runOnce _ k _ _ := accounts_runOnce _ _ k

/-! ## Reachable pools -/

abbrev HandlePool := Pool Handles Call (Reply × Bool) StdException Response Input

abbrev HandleThread := Thread Call (Reply × Bool) StdException Response Input

/-- No call is left: the handler has returned, or it has thrown and the session answers with 500. -/
def Answered (t : HandleThread) : Prop := t.prog.first = none

/-- Every answered request has released what it acquired. -/
def Released (p : HandlePool) : Prop := ∀ t ∈ p.threads, Answered t → held t.trace = 0

/-- No answered request opened a connection, or prepared a statement that did not end with success. -/
def Harmless (p : HandlePool) : Prop :=
  ∀ t ∈ p.threads, Answered t → ∀ o ∈ t.trace, opens o = false ∧ abandons o = false

theorem held_perm {tr tr' : List Outcome} (h : tr.Perm tr') : held tr = held tr' := (h.map made).sum_eq

theorem held_flatMap (ts : List HandleThread) : held (ts.flatMap Thread.trace) = (ts.map fun t => held t.trace).sum := by
  induction ts with
  | nil => rfl
  | cons t ts ih => rw [List.flatMap_cons, held_append, ih, List.map_cons, List.sum_cons]

theorem foldl_made (tr : List Outcome) (h : Handles) : tr.foldl (fun h o => h + made o) h = h + held tr := by
  induction tr generalizing h with
  | nil => exact (add_zero h).symm
  | cons o tr ih => rw [List.foldl_cons, ih, add_assoc, held, held, List.map_cons, List.sum_cons]

/-- All that is left open is what the requests have left. -/
theorem reachable_handles {h₀ : Handles} {p : HandlePool} (h : Reachable handleSystem h₀ p) :
    p.world.store = h₀ + (p.threads.map fun t => held t.trace).sum ∧ ∀ o ∈ p.world.log, Possible o := by
  obtain ⟨hlog, hstore⟩ := h.store_log (f := fun h o => h + made o) (P := Possible) fun hs => hs
  refine ⟨?_, hlog⟩
  rw [hstore, foldl_made, held_perm h.log_perm, held_flatMap]

theorem reachable_accounted {h₀ : Handles} {p : HandlePool} (h : Reachable handleSystem h₀ p) {t : HandleThread}
    (ht : t ∈ p.threads) (hend : Answered t) :
    held t.trace = ((t.trace.countP opens : ℤ), (t.trace.countP abandons : ℤ)) := by
  have hserve : ∀ i, (handleSystem.start i).Ends Accounted := fun i => accounts.serve i.2 i.1
  have hacc : Accounted t.trace := by
    have h := h.ends hserve t ht
    unfold Answered at hend
    -- nothing is called after this, whether the handler returns or throws
    cases hprog : t.prog with
    | ret resp => simpa [hprog, Prog.Ends] using h
    | throw e => simpa [hprog, Prog.Ends] using h
    | call op k => rw [hprog] at hend; cases hend
  exact hacc fun o ho => (reachable_handles h).2 o (h.log_perm.mem_iff.2 (List.mem_flatMap.2 ⟨t, ht, ho⟩))

/-- Answered requests have released what they acquired if and only if they did no
more than fail to open a connection and run statements that end with success. -/
theorem released_iff {h₀ : Handles} {p : HandlePool} (h : Reachable handleSystem h₀ p) :
    p.world.store = h₀ + (p.threads.map fun t => held t.trace).sum ∧ (Released p ↔ Harmless p) := by
  refine ⟨(reachable_handles h).1, forall₂_congr fun t ht => forall_congr' fun hend => ?_⟩
  rw [reachable_accounted h ht hend, Prod.mk_eq_zero, Int.natCast_eq_zero, Int.natCast_eq_zero,
    List.countP_eq_zero, List.countP_eq_zero, ← forall₂_and]
  exact forall₂_congr fun o _ => by rw [Bool.not_eq_true, Bool.not_eq_true]

/-! ## Replays -/

/-- The requests when each call has the outcome that it always has. -/
def handleReplay (outcome : Call → Reply × Bool) : Replay Handles Call (Reply × Bool) StdException Response Input where
  start i := (serve i.2.text i.1).comap Prod.fst
  step h c := (outcome c, h + made (c, outcome c))
  fresh _ _ := true
  considered _ _ _ _ := true

theorem handleReplay_fits {outcome : Call → Reply × Bool} (h : ∀ c, Possible (c, outcome c)) :
    (handleReplay outcome).Fits handleSystem where
  start := rfl
  step _ c := ⟨h c, rfl⟩
  fresh _ _ _ := ⟨trivial, fun _ _ => trivial⟩
  considered _ _ _ _ _ := trivial

/-- No connection can be opened. -/
def noMemory (_ : Call) : Reply × Bool := (⟨[], false⟩, false)

theorem noMemory_possible (c : Call) : Possible (c, noMemory c) := by
  cases c with
  | connect _ => exact fun h => h
  | run _ _ => exact fun h => h.elim id fun hrows => absurd rfl hrows
  | exec _ => rfl
  | finalize => rfl

/-- Everything succeeds but insertions. -/
def noInsertion : Call → Reply × Bool
  | .connect _ => (⟨[], true⟩, true)
  | .run sql _ => (⟨[], sql ≠ Statement.insertSql⟩, true)
  | _ => (⟨[], true⟩, false)

theorem noInsertion_possible (c : Call) : Possible (c, noInsertion c) := by
  cases c with
  | connect _ => exact fun _ => rfl
  | run _ _ => exact fun _ => rfl
  | exec _ => rfl
  | finalize => rfl

def listing (uuid : MemeId) : Input := (ask "GET" "/memes" [], uuid)

/-- The list is answered also without a connection. -/
theorem released_listing : ∃ p, (handleReplay noMemory).run 0
    [.arrive (listing firstId), .call 0, .call 0, .call 0] = some p ∧ (∀ t ∈ p.threads, Answered t) ∧
    p.world.store = 0 + (p.threads.map fun t => held t.trace).sum ∧ (Released p ↔ Harmless p) := by
  have h : ((handleReplay noMemory).run 0 [.arrive (listing firstId), .call 0, .call 0, .call 0]).any
      (fun p => p.threads.all fun t => t.prog.first.isNone) = true := by
    decide +kernel
  obtain ⟨p, hp, hend⟩ := (Option.any_eq_true _ _).1 h
  have hreach : Reachable handleSystem 0 p := (handleReplay_fits noMemory_possible).reachable hp
  exact ⟨p, hp, fun t ht => Option.isNone_iff_eq_none.1 (List.all_eq_true.1 hend t ht), released_iff hreach⟩

def badSearch (uuid : MemeId) : Input := (ask "GET" "/memes/search/%zz" [], uuid)

/-- A list, which is answered with success, a creation, which fails, and a search that throws. -/
def leaks : List (Event Input) :=
  [.arrive (listing firstId), .arrive creation, .arrive (badSearch firstId), .call 0, .call 1, .call 2,
   .call 0, .call 1, .call 2, .call 0, .call 1, .call 0]

theorem released_leaks : ∃ p, Reachable handleSystem 0 p ∧ (∀ t ∈ p.threads, Answered t) ∧ p.world.store = (3, 1) ∧
    ¬ Released p := by
  have h : ((handleReplay noInsertion).run 0 leaks).any
      (fun p => p.threads.all (fun t => t.prog.first.isNone) && decide (p.world.store = (3, 1))) = true := by
    decide +kernel
  obtain ⟨p, hp, hend⟩ := (Option.any_eq_true _ _).1 h
  rw [Bool.and_eq_true, decide_eq_true_eq] at hend
  have hreach : Reachable handleSystem 0 p := (handleReplay_fits noInsertion_possible).reachable hp
  have hanswered : ∀ t ∈ p.threads, Answered t := fun t ht => Option.isNone_iff_eq_none.1 (List.all_eq_true.1 hend.1 t ht)
  refine ⟨p, hreach, hanswered, hend.2, fun hreleased => ?_⟩
  have hsum : (p.threads.map fun t => held t.trace).sum = 0 := by
    apply List.sum_eq_zero
    intro n hn
    obtain ⟨t, ht, rfl⟩ := List.mem_map.1 hn
    exact hreleased t ht (hanswered t ht)
  have hstore := (reachable_handles hreach).1
  rw [hend.2, hsum] at hstore
  exact absurd hstore (by decide)

end GittyUp.Meme
