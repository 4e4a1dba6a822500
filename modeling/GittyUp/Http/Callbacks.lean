import GittyUp.Http.Session
/-!
# The callbacks of a session

`src/session.cc` and `handle_accept` of `src/server.cc` once more, as programs
that the worker threads call when an operation on a session's socket completes.
A callback may throw, it starts operations whose completion calls back again,
and the `this` that it was bound to may be gone by then.
-/
open Lib

namespace GittyUp.Http

/-- An operation that calls back: `handle_accept`, `handle_read`, `handle_write`. -/
inductive Operation
  | accept
  | read
  | write
deriving DecidableEq

inductive Effect
  /-- A response is handed to `async_write`. -/
  | handed (bytes : Str)
  /-- `delete this`. -/
  | deleted
deriving DecidableEq

/-- A session's object, what its socket still has to call back for, and what has been done. -/
structure Object where
  ipAddr : Str
  pending : List Operation
  effects : List Effect

/-- Code that keeps what it has done when it throws. -/
abbrev Callback := ExceptT StdException (StateM Object)

namespace Callback

/-- A call that throws, or returns a value. -/
def attempt {α : Type} (outcome : Except StdException α) : Callback α := ExceptT.mk (pure outcome)

def await (op : Operation) : Callback Unit := modify fun o => { o with pending := o.pending ++ [op] }

def effect (x : Effect) : Callback Unit := modify fun o => { o with effects := o.effects ++ [x] }

def read : Callback Unit := await .read

def write (bytes : Str) : Callback Unit := do
  effect (.handed bytes)
  await .write

/-- `start`: the address of the peer is not needed. -/
def start (remoteEndpoint : Except StdException Str) : Callback Unit := do
  let ipAddr ← tryCatch (attempt remoteEndpoint) fun _ => pure "not given"
  modify fun o => { o with ipAddr := ipAddr }
  read

/-- `close`, by the overloads of `shutdown` and `close` that throw. The source has no
`return` at its end; nobody uses the value. -/
def close (shutdown close : Except StdException Unit) : Callback Unit := do
  attempt shutdown
  attempt close
  effect .deleted

variable (e : Surroundings)

def handleError : Callback Unit := write (errorResponse.generateResponse e.visit)

def handleValidRequest (req : Request) : Callback Unit := do
  let holder ← attempt (e.routeRequest req)
  write (holder.generateResponse e.visit)

def handleInvalidRequest (req : Request) : Callback Unit :=
  write ((invalidResponse e.beyond req).generateResponse e.visit)

def handleSuccess (data : Str) : Callback Unit :=
  let req := parseRequest e.stale data
  if req.valid then tryCatch (handleValidRequest e req) fun _ => handleError e
  else handleInvalidRequest e req

def handleRead (error : Bool) (data : Str) : Callback Unit := if error then handleError e else handleSuccess e data

def handleWrite (error : Bool) (shutdown close : Except StdException Unit) : Callback Unit :=
  if error then effect .deleted else Callback.close shutdown close

/-- `handle_accept`. The session that it accepts next is another object. -/
def handleAccept (error : Bool) (remoteEndpoint : Except StdException Str) : Callback Unit :=
  if error then effect .deleted else start remoteEndpoint

end Callback

/-! ## Runs -/

/-- The completion of an operation, with what the calls come to that its callback makes. -/
inductive Event
  | accept (error : Bool) (remoteEndpoint : Except StdException Str)
  | read (error : Bool) (data : Str)
  | write (error : Bool) (shutdown close : Except StdException Unit)

namespace Event

def operation : Event → Operation
  | accept .. => .accept
  | read .. => .read
  | write .. => .write

def callback (e : Surroundings) : Event → Callback Unit
  | accept error remoteEndpoint => Callback.handleAccept error remoteEndpoint
  | read error data => Callback.handleRead e error data
  | write error shutdown close => Callback.handleWrite error shutdown close

/-- A write that succeeded lets the socket be shut down and closed. -/
def Closes : Event → Prop
  | write false shutdown close => shutdown = .ok () ∧ close = .ok ()
  | _ => True

end Event

/-- Some operation completes, and a worker thread runs its callback. -/
def Object.step (e : Surroundings) (o : Object) (ev : Event) : Option (Except StdException Unit × Object) :=
  if ev.operation ∈ o.pending then
    some ((ev.callback e).run.run { o with pending := o.pending.erase ev.operation })
  else none

theorem step_some {e : Surroundings} {o o' : Object} {ev : Event} {out : Except StdException Unit}
    (h : o.step e ev = some (out, o')) : ev.operation ∈ o.pending ∧
      (ev.callback e).run.run { o with pending := o.pending.erase ev.operation } = (out, o') := by
  unfold Object.step at h
  split at h
  · exact ⟨‹_›, Option.some.inj h⟩
  · cases h

/-- The completions of a session's operations, what came out of each callback, and the object in the end. -/
inductive Run (e : Surroundings) (o₀ : Object) : List Event → List (Except StdException Unit) → Object → Prop
  | start : Run e o₀ [] [] o₀
  | step {evs outs o ev out o'} : Run e o₀ evs outs o → o.step e ev = some (out, o') →
      Run e o₀ (evs ++ [ev]) (outs ++ [out]) o'

/-- A session whose socket waits for a connection. -/
def Object.waiting : Object := ⟨[], [.accept], []⟩

/-- A session that has been started. -/
def Object.started (ipAddr : Str) : Object := ⟨ipAddr, [.read], []⟩

/-! ## What a callback does -/

section Spec
variable (e : Surroundings) (o : Object)

/-- The response to the completion of a read. -/
def answer (error : Bool) (data : Str) : Response := if error then errorResponse else handleSuccess e data

theorem run_handleAccept (remoteEndpoint : Except StdException Str) :
    (Callback.handleAccept true remoteEndpoint).run.run o = (.ok (), { o with effects := o.effects ++ [.deleted] }) ∧
    ∃ ipAddr, (Callback.handleAccept false remoteEndpoint).run.run o =
      (.ok (), { o with ipAddr := ipAddr, pending := o.pending ++ [.read] }) := by
  refine ⟨rfl, ?_⟩
  cases remoteEndpoint with
  | error _ => exact ⟨"not given", rfl⟩
  | ok ipAddr => exact ⟨ipAddr, rfl⟩

/-- One response is handed over, whatever the read came to and the handler does. -/
theorem run_handleRead (error : Bool) (data : Str) :
    (Callback.handleRead e error data).run.run o =
      (.ok (), { o with
        pending := o.pending ++ [.write]
        effects := o.effects ++ [.handed ((answer e error data).generateResponse e.visit)] }) := by
  cases error with
  | true => rfl
  | false =>
    unfold Callback.handleRead Callback.handleSuccess answer handleSuccess
    by_cases hv : (parseRequest e.stale data).valid
    · simp only [hv, Bool.false_eq_true, if_false, if_true]
      unfold Callback.handleValidRequest
      cases e.routeRequest (parseRequest e.stale data) <;> rfl
    · simp only [hv, Bool.false_eq_true, if_false]
      rfl

theorem run_close {shutdown close : Except StdException Unit} (h : shutdown = .ok () ∧ close = .ok ()) :
    (Callback.handleWrite false shutdown close).run.run o = (.ok (), { o with effects := o.effects ++ [.deleted] }) := by
  rw [h.1, h.2]
  rfl

/-- If one of the two calls fails, its exception leaves the callback. -/
theorem run_close_throws {shutdown close : Except StdException Unit} (h : ¬ (shutdown = .ok () ∧ close = .ok ())) :
    ∃ x, (Callback.handleWrite false shutdown close).run.run o = (.error x, o) := by
  cases shutdown with
  | error x => exact ⟨x, rfl⟩
  | ok u =>
    cases close with
    | error x => exact ⟨x, rfl⟩
    | ok u' => exact absurd ⟨rfl, rfl⟩ h

/-- A callback throws if and only if it closes a socket that cannot be shut down or closed. -/
theorem callback_returns_iff (ev : Event) : ((ev.callback e).run.run o).1 = .ok () ↔ ev.Closes := by
  cases ev with
  | accept error remoteEndpoint =>
    obtain ⟨h, ip, h'⟩ := run_handleAccept o remoteEndpoint
    refine iff_of_true ?_ trivial
    cases error with
    | true => exact congrArg Prod.fst h
    | false => exact congrArg Prod.fst h'
  | read error data => exact iff_of_true (congrArg Prod.fst (run_handleRead e o error data)) trivial
  | write error shutdown close =>
    cases error with
    | true => exact iff_of_true rfl trivial
    | false =>
      by_cases h : shutdown = .ok () ∧ close = .ok ()
      · exact iff_of_true (congrArg Prod.fst (run_close o h)) h
      · obtain ⟨x, hx⟩ := run_close_throws o h
        refine iff_of_false (fun hr => ?_) h
        have := (congrArg Prod.fst hx).symm.trans hr
        cases this

end Spec

/-! ## What escapes -/

/-- Nothing leaves the callbacks of a run if and only if every socket whose
write succeeded could be shut down and closed. -/
theorem nothing_escapes_iff {e : Surroundings} {evs : List Event} {outs : List (Except StdException Unit)} {o : Object}
    (h : Run e .waiting evs outs o) : (∀ out ∈ outs, out = .ok ()) ↔ ∀ ev ∈ evs, ev.Closes := by
  induction h with
  | start => exact iff_of_true (by simp) (by simp)
  | @step evs outs o ev out o' _ hs ih =>
    have hout : out = .ok () ↔ ev.Closes := by
      rw [show out = (out, o').1 from rfl, ← congrArg Prod.fst (step_some hs).2]
      exact callback_returns_iff e _ ev
    simp only [List.mem_append, List.mem_singleton]
    constructor
    · rintro hall ev' (hev | rfl)
      · exact ih.1 (fun out ho => hall out (.inl ho)) ev' hev
      · exact hout.1 (hall out (.inr rfl))
    · rintro hall out' (ho | rfl)
      · exact ih.2 (fun ev hev => hall ev (.inl hev)) out' ho
      · exact hout.2 (hall ev (.inr rfl))

/-- A router that answers every request in the same way. -/
def alwaysOk : Surroundings := ⟨fun _ => .ok (.new 200 "OK"), id, fun _ qs => qs, []⟩

/-- What a session goes through whose socket comes to this in the end. -/
def served (shutdown : Except StdException Unit) : List Event :=
  [.accept false (.ok "127.0.0.1"), .read false getRequest, .write false shutdown (.ok ())]

theorem run_served (shutdown : Except StdException Unit) :
    ∃ o, Run alwaysOk .waiting (served shutdown) [.ok (), .ok (), shutdown] o := by
  cases shutdown with
  | ok u => exact ⟨_, .step (.step (.step .start rfl) rfl) rfl⟩
  | error x => exact ⟨_, .step (.step (.step .start rfl) rfl) rfl⟩

/-- A session that ends well. -/
theorem nothing_escapes_served : ∃ outs o, Run alwaysOk .waiting (served (.ok ())) outs o ∧ ∀ out ∈ outs, out = .ok () := by
  obtain ⟨o, h⟩ := run_served (.ok ())
  refine ⟨_, o, h, (nothing_escapes_iff h).2 ?_⟩
  simp [served, Event.Closes]

/-- The peer is gone when its response has been written. -/
theorem escapes_close : ¬ ∀ evs outs o, Run alwaysOk .waiting evs outs o →
    ∀ out ∈ outs, out = .ok () := by
  intro hall
  obtain ⟨o, h⟩ := run_served (.error (.runtimeError "shutdown: Transport endpoint is not connected"))
  have := hall _ _ _ h (.error (.runtimeError "shutdown: Transport endpoint is not connected")) (by simp)
  cases this

/-! ## One response -/

/-- What a started session has done when it has been called back for these completions. -/
inductive Stage (e : Surroundings) : List Event → Object → Prop
  | reading {ip} : Stage e [] ⟨ip, [.read], []⟩
  | writing {ip error data} :
      Stage e [.read error data] ⟨ip, [.write], [.handed ((answer e error data).generateResponse e.visit)]⟩
  | finished {ip error data error' shutdown close} :
      Stage e [.read error data, .write error' shutdown close]
        ⟨ip, [], [.handed ((answer e error data).generateResponse e.visit), .deleted]⟩

theorem Stage.step {e : Surroundings} {evs : List Event} {o o' : Object} {ev : Event} {out : Except StdException Unit}
    (h : Stage e evs o) (hc : ev.Closes) (hs : o.step e ev = some (out, o')) : Stage e (evs ++ [ev]) o' := by
  obtain ⟨hmem, hs⟩ := step_some hs
  cases h with
  | reading =>
    cases ev with
    | read error data =>
      rw [Event.callback, run_handleRead] at hs
      cases hs
      exact .writing
    | accept _ _ => simp [Event.operation] at hmem
    | write _ _ _ => simp [Event.operation] at hmem
  | writing =>
    cases ev with
    | write error shutdown close =>
      cases error with
      | true =>
        cases hs
        exact .finished
      | false =>
        rw [Event.callback, run_close _ hc] at hs
        cases hs
        exact .finished
    | accept _ _ => simp [Event.operation] at hmem
    | read _ _ => simp [Event.operation] at hmem
  | finished => simp at hmem

theorem run_stage {e : Surroundings} {ip : Str} {evs : List Event} {outs : List (Except StdException Unit)} {o : Object}
    (h : Run e (.started ip) evs outs o) (hc : ∀ ev ∈ evs, ev.Closes) : Stage e evs o := by
  induction h with
  | start => exact .reading
  | step _ hs ih =>
    exact (ih fun ev hev => hc ev (List.mem_append_left _ hev)).step (hc _ (by simp)) hs

/-- A started session waits for one completion at a time, its read and then its
write. Then it has handed one response over, the one to its read, and has been
deleted once after that, and there is no callback left that could run. -/
theorem one_response {e : Surroundings} {ip : Str} {evs : List Event} {outs : List (Except StdException Unit)} {o : Object}
    (h : Run e (.started ip) evs outs o) (hc : ∀ ev ∈ evs, ev.Closes) :
    (evs.length < 2 ∧ (∃ op, o.pending = [op]) ∧ .deleted ∉ o.effects) ∨
    ∃ error data error' shutdown close, evs = [.read error data, .write error' shutdown close] ∧
      o.effects = [.handed ((answer e error data).generateResponse e.visit), .deleted] ∧
      ∀ ev, o.step e ev = none := by
  cases run_stage h hc with
  | reading => exact .inl ⟨by simp, ⟨_, rfl⟩, by simp⟩
  | writing => exact .inl ⟨by simp, ⟨_, rfl⟩, by simp⟩
  | finished => exact .inr ⟨_, _, _, _, _, rfl, rfl, fun ev => by simp [Object.step]⟩

/-- The answer to an error in a read. -/
theorem one_response_error : ∃ o, Run alwaysOk (.started "127.0.0.1") [.read true [], .write true (.ok ()) (.ok ())]
    [.ok (), .ok ()] o ∧ o.effects = [.handed (errorResponse.generateResponse id), .deleted] := by
  have h : Run alwaysOk (.started "127.0.0.1") [.read true [], .write true (.ok ()) (.ok ())] [.ok (), .ok ()] _ :=
    .step (.step .start rfl) rfl
  refine ⟨_, h, ?_⟩
  rcases one_response h (by simp [Event.Closes]) with ⟨hlen, -⟩ | ⟨_, _, _, _, _, he, ho, -⟩
  · exact absurd hlen (by decide)
  · cases he
    exact ho

end GittyUp.Http
