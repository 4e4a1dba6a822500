import GittyUp.Http.Callbacks
/-!
# The server and its sessions

`src/server.cc`: `start_accept` makes a session that waits for a connection, and
`handle_accept` makes the next one. The worker threads run the callbacks of all
sessions, in whatever order their operations complete. An exception that leaves
a callback leaves its thread, which ends the process.
-/
open Lib

namespace GittyUp.Http

/-- Every session that was made, in order, and whether the process is still there. -/
structure Server where
  sessions : List Object
  alive : Bool

namespace Server

/-- `start_accept`, with a router. -/
def startAccept (s : Server) : Server := { s with sessions := s.sessions ++ [.waiting] }

/-- The server of `main`, before it runs. -/
def start : Server := startAccept ⟨[], true⟩

/-- An operation of the session `j` completes. What the router does then is `e`. -/
def step (s : Server) (j : Nat) (e : Surroundings) (ev : Event) : Option Server :=
  if s.alive then
    match s.sessions[j]? with
    | none => none
    | some o =>
      match o.step e ev with
      | none => none
      | some (.error _, o') => some ⟨s.sessions.set j o', false⟩
      | some (.ok _, o') =>
        let s' : Server := ⟨s.sessions.set j o', true⟩
        some (if ev.operation = .accept then s'.startAccept else s')
  else none

end Server

/-- A completion: the session, what the router does, and the event. -/
abbrev Completed := Nat × Surroundings × Event

inductive ServerRun : List Completed → Server → Prop
  | start : ServerRun [] .start
  | step {cs s j e ev s'} : ServerRun cs s → s.step j e ev = some s' → ServerRun (cs ++ [(j, e, ev)]) s'

/-- The completions of one session. -/
def ofSession (j : Nat) (cs : List Completed) : List (Surroundings × Event) :=
  (cs.filter fun c => c.1 = j).map Prod.snd

/-! ## A session among others -/

/-- What a session has done by its own completions. -/
inductive Life : List (Surroundings × Event) → Object → Prop
  | waiting : Life [] .waiting
  | refused {e peer} : Life [(e, .accept true peer)] ⟨[], [], [.deleted]⟩
  | reading {e peer ip} : Life [(e, .accept false peer)] ⟨ip, [.read], []⟩
  | writing {e peer ip e₁ error data} : Life [(e, .accept false peer), (e₁, .read error data)]
      ⟨ip, [.write], [.handed ((answer e₁ error data).generateResponse e₁.visit)]⟩
  | finished {e peer ip e₁ error data e₂ error' shutdown close} : (Event.write error' shutdown close).Closes →
      Life [(e, .accept false peer), (e₁, .read error data), (e₂, .write error' shutdown close)]
        ⟨ip, [], [.handed ((answer e₁ error data).generateResponse e₁.visit), .deleted]⟩
  | thrown {e peer ip e₁ error data e₂ error' shutdown close} : ¬ (Event.write error' shutdown close).Closes →
      Life [(e, .accept false peer), (e₁, .read error data), (e₂, .write error' shutdown close)]
        ⟨ip, [], [.handed ((answer e₁ error data).generateResponse e₁.visit)]⟩

/-- A completion goes on with the life of its session. -/
theorem Life.step {es : List (Surroundings × Event)} {o o' : Object} {e : Surroundings} {ev : Event}
    {out : Except StdException Unit} (h : Life es o) (hs : o.step e ev = some (out, o')) : Life (es ++ [(e, ev)]) o' := by
  obtain ⟨hmem, hs⟩ := step_some hs
  cases h with
  | waiting =>
    cases ev with
    | accept error peer =>
      obtain ⟨hrefused, ip, hstarted⟩ := run_handleAccept ⟨[], [], []⟩ peer
      cases error with
      | true =>
        cases hrefused.symm.trans hs
        exact .refused
      | false =>
        cases hstarted.symm.trans hs
        exact .reading
    | read _ _ => simp [Object.waiting, Event.operation] at hmem
    | write _ _ _ => simp [Object.waiting, Event.operation] at hmem
  | reading =>
    cases ev with
    | read error data =>
      rw [Event.callback, run_handleRead] at hs
      cases hs
      exact .writing
    | accept _ _ => simp [Event.operation] at hmem
    | write _ _ _ => simp [Event.operation] at hmem
  | writing =>
    cases ev with
    | write error shutdown close =>
      cases error with
      | true =>
        cases hs
        exact .finished trivial
      | false =>
        by_cases hc : shutdown = .ok () ∧ close = .ok ()
        · rw [Event.callback, run_close _ hc] at hs
          cases hs
          exact .finished hc
        · obtain ⟨x, hx⟩ := run_close_throws _ hc
          rw [Event.callback, hx] at hs
          cases hs
          exact .thrown hc
    | accept _ _ => simp [Event.operation] at hmem
    | read _ _ => simp [Event.operation] at hmem
  | refused | finished | thrown => simp at hmem

/-- Only a session that has not been called back has an accept to complete. -/
theorem Life.accept_iff {es : List (Surroundings × Event)} {o : Object} (h : Life es o) :
    Operation.accept ∈ o.pending ↔ es = [] := by
  cases h with
  | waiting => exact iff_of_true List.mem_cons_self rfl
  | refused | reading | writing | finished | thrown => exact iff_of_false (by simp) (by simp)

/-- A session waits for one operation at a time. -/
theorem Life.pending_unique {es : List (Surroundings × Event)} {o : Object} (h : Life es o) {op op' : Operation}
    (hop : op ∈ o.pending) (hop' : op' ∈ o.pending) : op = op' := by
  cases h with
  | waiting => rw [List.mem_singleton.1 hop, List.mem_singleton.1 hop']
  | reading | writing => rw [List.mem_singleton.1 hop, List.mem_singleton.1 hop']
  | refused | finished | thrown => cases hop

/-! ## Every run -/

/-- What a completion leaves of the server. A session is made with a connection,
and the process ends with a socket that cannot be shut down or closed. -/
theorem Server.step_some {s s' : Server} {j : Nat} {e : Surroundings} {ev : Event} (h : s.step j e ev = some s') :
    s.alive = true ∧ ∃ o out o', s.sessions[j]? = some o ∧ o.step e ev = some (out, o') ∧
      s'.sessions = s.sessions.set j o' ++ (if ev.operation = .accept then [.waiting] else []) ∧
      (s'.alive = true ↔ ev.Closes) := by
  unfold Server.step at h
  by_cases ha : s.alive = true
  · rw [if_pos ha] at h
    cases ho : s.sessions[j]? with
    | none => simp [ho] at h
    | some o =>
      cases hs : o.step e ev with
      | none => simp [ho, hs] at h
      | some r =>
        obtain ⟨out, o'⟩ := r
        have hout : out = .ok () ↔ ev.Closes := by
          rw [show out = (out, o').1 from rfl, ← congrArg Prod.fst (GittyUp.Http.step_some hs).2]
          exact callback_returns_iff e _ ev
        refine ⟨ha, o, out, o', rfl, hs, ?_⟩
        cases out with
        | error x =>
          have hc : ¬ ev.Closes := fun hc => by cases hout.2 hc
          have hop : ev.operation ≠ .accept := by
            cases ev with
            | accept _ _ => exact absurd trivial hc
            | read _ _ => exact absurd trivial hc
            | write _ _ _ => simp [Event.operation]
          simp only [ho, hs, Option.some.injEq] at h
          subst h
          exact ⟨by simp [hop], by simp [hc]⟩
        | ok u =>
          have hc : ev.Closes := hout.1 rfl
          simp only [ho, hs, Option.some.injEq] at h
          subst h
          by_cases hop : ev.operation = .accept
          · simp [hop, hc, Server.startAccept]
          · simp [hop, hc]
  · simp [ha] at h

theorem ofSession_snoc (j : Nat) (cs : List Completed) (c : Completed) :
    ofSession j (cs ++ [c]) = ofSession j cs ++ if c.1 = j then [c.2] else [] := by
  unfold ofSession
  rw [List.filter_append, List.map_append]
  by_cases h : c.1 = j <;> simp [h]

/-- A session that is not there yet has not been called back. -/
theorem ofSession_of_forall_ne {j : Nat} {cs : List Completed} (h : ∀ c ∈ cs, c.1 ≠ j) : ofSession j cs = [] := by
  unfold ofSession
  rw [List.filter_eq_nil_iff.2 fun c hc => by simpa using h c hc, List.map_nil]

/-- What holds of a server by what has completed. -/
structure Serving (cs : List Completed) (s : Server) : Prop where
  /-- Each session is what its own completions have made of it. -/
  lives : ∀ j o, s.sessions[j]? = some o → Life (ofSession j cs) o
  /-- No other session has been called back. -/
  made : ∀ c ∈ cs, c.1 < s.sessions.length
  /-- The process ends with the first socket that cannot be shut down or closed. -/
  alive_iff : s.alive = true ↔ ∀ c ∈ cs, c.2.2.Closes
  /-- The last session waits for a connection, and no other does. -/
  waits : ∀ j o, s.sessions[j]? = some o → (Operation.accept ∈ o.pending ↔ j + 1 = s.sessions.length)
  /-- A session was made at first, and one with each connection. -/
  count : s.sessions.length = 1 + cs.countP fun c => c.2.2.operation = .accept

theorem serving_start : Serving [] .start := by
  have hone : ∀ j o, (Server.start.sessions)[j]? = some o → j = 0 ∧ o = .waiting := fun j o h => by
    cases j with
    | zero => exact ⟨rfl, (Option.some.inj h).symm⟩
    | succ j => cases h
  exact {
    lives := fun j o h => (hone j o h).2 ▸ .waiting
    made := fun _ hc => nomatch hc
    alive_iff := iff_of_true rfl fun _ hc => nomatch hc
    waits := fun j o h => by
      obtain ⟨rfl, rfl⟩ := hone j o h
      exact iff_of_true List.mem_cons_self rfl
    count := rfl }

/-- The last session is the one that has not been called back. -/
theorem Serving.last_iff {cs : List Completed} {s : Server} (h : Serving cs s) {k : Nat} (hk : k < s.sessions.length) :
    ofSession k cs = [] ↔ k + 1 = s.sessions.length := by
  have hget := List.getElem?_eq_getElem hk
  rw [← (h.lives k _ hget).accept_iff, h.waits k _ hget]

/-- A completion for a session, seen by each session that is there afterwards. -/
theorem Serving.lives_step {cs : List Completed} {s : Server} {j : Nat} {e : Surroundings} {ev : Event}
    {o o' : Object} {out : Except StdException Unit} {fresh : List Object} (h : Serving cs s)
    (ho : s.sessions[j]? = some o) (hs : o.step e ev = some (out, o')) (hf : ∀ x ∈ fresh, x = .waiting) (k : Nat)
    (x : Object) (hk : (s.sessions.set j o' ++ fresh)[k]? = some x) : Life (ofSession k (cs ++ [(j, e, ev)])) x := by
  have hj : j < s.sessions.length := (List.getElem?_eq_some_iff.1 ho).1
  rw [ofSession_snoc]
  rcases Nat.lt_or_ge k s.sessions.length with hlt | hge
  · rw [List.getElem?_append_left (by simpa using hlt)] at hk
    by_cases hjk : j = k
    · subst hjk
      rw [List.getElem?_set_self hj] at hk
      cases hk
      simpa using (h.lives j o ho).step hs
    · rw [List.getElem?_set_ne hjk] at hk
      simpa [hjk] using h.lives k x hk
  · -- the session that the connection has made
    have hx : x = .waiting := by
      rw [List.getElem?_append_right (by simpa using hge)] at hk
      exact hf x (List.mem_of_getElem? hk)
    have hne : j ≠ k := by omega
    rw [hx, if_neg hne, List.append_nil,
      ofSession_of_forall_ne fun c hc hck => absurd (h.made c hc) (by omega)]
    exact .waiting

theorem Serving.step {cs : List Completed} {s s' : Server} {j : Nat} {e : Surroundings} {ev : Event}
    (h : Serving cs s) (hs : s.step j e ev = some s') : Serving (cs ++ [(j, e, ev)]) s' := by
  obtain ⟨ha, o, out, o', ho, hos, hsess, halive⟩ := Server.step_some hs
  have hj : j < s.sessions.length := (List.getElem?_eq_some_iff.1 ho).1
  -- a connection comes to the last session, and nothing else does
  have hop : ev.operation = .accept ↔ j + 1 = s.sessions.length := by
    have hpend : ev.operation ∈ o.pending := (GittyUp.Http.step_some hos).1
    rw [← h.waits j o ho]
    exact ⟨fun he => he ▸ hpend, fun hacc => (h.lives j o ho).pending_unique hpend hacc⟩
  have hfresh : ∀ x ∈ (if ev.operation = .accept then [Object.waiting] else []), x = .waiting := by
    intro x hx
    split at hx
    · exact List.mem_singleton.1 hx
    · cases hx
  have hlives := h.lives_step ho hos hfresh
  have hlen : s'.sessions.length = s.sessions.length + if ev.operation = .accept then 1 else 0 := by
    rw [hsess]
    split <;> simp
  exact {
    lives := fun k x hk => hlives k x (hsess ▸ hk)
    made := by
      intro c hc
      rcases List.mem_append.1 hc with hc | hc
      · have := h.made c hc
        omega
      · rw [List.mem_singleton.1 hc]
        omega
    alive_iff := by
      rw [halive]
      constructor
      · intro hc c hmem
        rcases List.mem_append.1 hmem with hmem | hmem
        · exact h.alive_iff.1 ha c hmem
        · rw [List.mem_singleton.1 hmem]
          exact hc
      · exact fun hall => hall _ (List.mem_append_right _ List.mem_cons_self)
    waits := by
      intro k x hk
      have hks' : k < s'.sessions.length := (List.getElem?_eq_some_iff.1 hk).1
      rw [(hlives k x (hsess ▸ hk)).accept_iff, ofSession_snoc, List.append_eq_nil_iff]
      rcases Nat.lt_or_ge k s.sessions.length with hlt | hge
      · rw [h.last_iff hlt, hlen]
        by_cases hacc : ev.operation = .accept
        · have := hop.1 hacc
          by_cases hjk : j = k
          · simp [hacc, hjk]
            omega
          · simp [hacc, hjk]
            omega
        · have := mt hop.2 hacc
          by_cases hjk : j = k
          · simp [hacc, hjk]
            omega
          · simp [hacc, hjk]
      · have hne : j ≠ k := by omega
        refine iff_of_true ⟨ofSession_of_forall_ne fun c hc hck => absurd (h.made c hc) (by omega), if_neg hne⟩ ?_
        split at hlen <;> omega
    count := by
      rw [hlen, h.count, List.countP_append, List.countP_singleton]
      by_cases hop : ev.operation = .accept <;> simp [hop]; omega }

theorem ServerRun.serving {cs : List Completed} {s : Server} (h : ServerRun cs s) : Serving cs s := by
  induction h with
  | start => exact serving_start
  | step _ hs ih => exact ih.step hs

/-- However the completions of the sessions come, each session is what its own
have made of it: it has answered what it has read itself, once. One session
waits for a connection, and gets it, until a socket cannot be shut down or closed. -/
theorem server_serves {cs : List Completed} {s : Server} (h : ServerRun cs s) : Serving cs s ∧
    ∀ e error peer, (∃ s', s.step (s.sessions.length - 1) e (.accept error peer) = some s') ↔
      ∀ c ∈ cs, c.2.2.Closes := by
  have hs := h.serving
  refine ⟨hs, fun e error peer => ?_⟩
  rw [← hs.alive_iff]
  constructor
  · rintro ⟨s', hstep⟩
    exact (Server.step_some hstep).1
  · intro ha
    have hlast : s.sessions.length - 1 < s.sessions.length := by
      have := hs.count
      omega
    have hget := List.getElem?_eq_getElem hlast
    have hacc : Operation.accept ∈ (s.sessions[s.sessions.length - 1]).pending := (hs.waits _ _ hget).2 (by omega)
    refine Option.isSome_iff_exists.1 ?_
    have hstep : ((s.sessions[s.sessions.length - 1]).step e (.accept error peer)).isSome := by
      unfold Object.step
      rw [if_pos (show (Event.accept error peer).operation ∈ _ from hacc)]
      rfl
    obtain ⟨⟨out, o'⟩, hstep⟩ := Option.isSome_iff_exists.1 hstep
    unfold Server.step
    rw [if_pos ha, hget]
    cases out with
    | error x => simp only [hstep, Option.isSome_some]
    | ok u => simp only [hstep, Option.isSome_some]

/-- Two connections. The one that comes second is answered first. -/
def overtaken : List Completed :=
  [(0, alwaysOk, .accept false (.ok "127.0.0.1")), (1, alwaysOk, .accept false (.ok "127.0.0.1")),
    (1, alwaysOk, .read false getRequest), (0, alwaysOk, .read true []),
    (1, alwaysOk, .write false (.ok ()) (.ok ())), (0, alwaysOk, .write true (.ok ()) (.ok ()))]

theorem server_serves_overtaken : ∃ s, ServerRun overtaken s ∧ s.alive = true ∧ s.sessions.length = 3 := by
  have h : ServerRun overtaken _ := .step (.step (.step (.step (.step (.step .start rfl) rfl) rfl) rfl) rfl) rfl
  have hs := (server_serves h).1
  refine ⟨_, h, hs.alive_iff.2 ?_, hs.count⟩
  simp [overtaken, Event.Closes]

end GittyUp.Http
