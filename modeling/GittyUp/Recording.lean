import GittyUp.Blocks
import GittyUp.Meme.Refinement
import GittyUp.Routing
/-!
# What the recorder is told

`route_request` of `src/router.cc` inside `handle_success` of `src/session.cc`:
a code is recorded on the way, and what is sent is only settled behind it.
`recorded_iff` says when the recorder's list is that of the answers.
-/
open Lib GittyUp.Http GittyUp.Config GittyUp.Router GittyUp.SqlLib

namespace GittyUp.Handlers

/-! ## A valid request -/

/-- A router that has its routes, the orders in which its maps are visited, and the
`handle_request` of its handlers, each created with a block of the config. -/
structure Site where
  config : NginxConfig
  routeMap : RouteMap
  visit : RouteMap
  headers : List (Str × Str)
  handleRequest : Recorder → Handler → Option NginxConfig → Request → Option (SqlProg Response)

namespace Site
variable (site : Site) (recorder : Recorder) (req : Request)

/-- The handler that `select_handler` creates, at work on the request. -/
def answer : Option (SqlProg Response) := do
  let (handler, block) ← createHandler site.config site.routeMap site.visit req.uri
  site.handleRequest recorder handler block req

/-- `route_request`, from where the handler has returned or thrown. -/
def routeRequest (output : Except StdException Response) : Except StdException (Response × Recorder) := do
  let output ← output
  return (applyDefaultHeaders site.headers output, recorder.requestRecorder req.uri output.statusCode)

/-- `handle_success` for a valid request: what is written, and the recorder behind it. -/
def handleSuccess (output : Except StdException Response) : Response × Recorder :=
  match site.routeRequest recorder req output with
  | .ok (holder, recorder) => (holder, recorder)
  | .error _ => (errorResponse, recorder)

theorem answer_created {handler : Handler} {block : Option NginxConfig}
    (h : createHandler site.config site.routeMap site.visit req.uri = some (handler, block)) :
    site.answer recorder req = site.handleRequest recorder handler block req := by
  unfold answer
  rw [h]
  rfl

theorem handleSuccess_sent (output : Except StdException Response) :
    (site.handleSuccess recorder req output).1 = sent site.headers output := by
  cases output <;> rfl

/-- A session that gets this answer writes this response. -/
theorem handleSuccess_session (stale : Str → Str → Str) (visit : List (Str × Str) → List (Str × Str)) (beyond data : Str)
    (output : Except StdException Response) (h : (parseRequest stale data).valid = true) :
    Http.handleSuccess ⟨fun req => (site.routeRequest recorder req output).map Prod.fst, visit, stale, beyond⟩ data =
      (site.handleSuccess recorder (parseRequest stale data) output).1 := by
  unfold Http.handleSuccess
  simp only [h, if_true]
  cases output <;> rfl

end Site

/-! ## Runs -/

/-- A request, what its handler came to, and the response that was written. -/
structure Exchange where
  req : Request
  output : Except StdException Response
  response : Response

/-- A thread serves valid requests one after the other, from a recorder and a database. -/
inductive Serves {S : Type} (engine : S → Sql.Call → Sql.Reply → S → Prop) (site : Site) :
    Recorder × S → List Exchange → Recorder × S → Prop
  | rest {w} : Serves engine site w [] w
  | request {recorder db db' w stale data req p output exchanges} : parseRequest stale data = req → req.valid = true →
      site.answer recorder req = some p → Runs engine db p output db' →
      Serves engine site ((site.handleSuccess recorder req output).2, db') exchanges w →
      Serves engine site (recorder, db) (⟨req, output, (site.handleSuccess recorder req output).1⟩ :: exchanges) w

/-- The entry that `route_request` makes: none for a handler that has thrown. -/
def Exchange.recorded (x : Exchange) : Option (Str × Nat) :=
  match x.output with
  | .ok output => some (x.req.uri, output.statusCode)
  | .error _ => none

/-- The entry that tells what the client was sent. -/
def Exchange.truth (x : Exchange) : Str × Nat := (x.req.uri, x.response.statusCode)

section Serving
variable {S : Type} {engine : S → Sql.Call → Sql.Reply → S → Prop} {site : Site}

theorem handleSuccess_recorded (recorder : Recorder) (req : Request) (output : Except StdException Response) :
    (site.handleSuccess recorder req output).2.urlResponseList = recorder.urlResponseList ++
      (Exchange.recorded ⟨req, output, (site.handleSuccess recorder req output).1⟩).toList := by
  cases output with
  | ok output => rfl
  | error e => exact (List.append_nil _).symm

/-- In a run, the entries made are those of the handlers that returned. -/
theorem Serves.urlResponseList {w w' : Recorder × S} {exchanges : List Exchange}
    (h : Serves engine site w exchanges w') :
    w'.1.urlResponseList = w.1.urlResponseList ++ exchanges.filterMap Exchange.recorded := by
  induction h with
  | rest => exact (List.append_nil _).symm
  | request _ _ _ _ _ ih =>
    -- the handler has read the recorder, if at all, and left it as it was
    rw [ih, handleSuccess_recorded, List.filterMap_cons, List.append_assoc]
    congr 1
    cases Exchange.recorded _ <;> rfl

/-- An entry is made and tells the truth just when the handler returns. -/
theorem Serves.recorded_truth {w w' : Recorder × S} {exchanges : List Exchange} (h : Serves engine site w exchanges w') :
    ∀ x ∈ exchanges, (x.recorded = some x.truth ↔ ∃ output, x.output = .ok output) := by
  induction h with
  | rest => nofun
  | @request recorder db db' w stale data req p output exchanges _ _ _ _ _ ih =>
    intro x hx
    rcases List.mem_cons.1 hx with rfl | hx
    · cases output with
      | ok output =>
        refine ⟨fun _ => ⟨output, rfl⟩, fun _ => ?_⟩
        show some (req.uri, output.statusCode) = some (req.uri, (applyDefaultHeaders site.headers output).statusCode)
        rw [applyDefaultHeaders_eq]
      | error e =>
        refine ⟨nofun, ?_⟩
        rintro ⟨_, ⟨⟩⟩
    · exact ih x hx

/-- The recorder gets one entry for each request, in order and with the code that was
sent, if and only if no handler throws. -/
theorem recorded_iff {w w' : Recorder × S} {exchanges : List Exchange} (h : Serves engine site w exchanges w') :
    w'.1.urlResponseList = w.1.urlResponseList ++ exchanges.map Exchange.truth ↔
      ∀ x ∈ exchanges, ∃ output, x.output = .ok output := by
  rw [h.urlResponseList, List.append_right_inj, List.filterMap_eq_map_iff_forall_eq_some]
  exact forall₂_congr h.recorded_truth

end Serving

/-! ## The handlers of the program -/

/-- Only the reverse proxy and the meme handler can throw. -/
theorem handleRequest_ret {m : Host} {recorder : Recorder} {handler : Handler} {block : Option NginxConfig} {req : Request}
    {p : SqlProg Response} (hproxy : handler ≠ .proxy) (hmeme : handler ≠ .meme)
    (h : handleRequest m recorder handler block req = some p) : ∃ output, p = .ret output := by
  cases handler with
  | proxy => exact absurd rfl hproxy
  | meme => exact absurd rfl hmeme
  | staticFile | status =>
    simp only [handleRequest] at h
    obtain ⟨_, -, rfl⟩ := Option.map_eq_some_iff.1 h
    exact ⟨_, rfl⟩
  | echo | health | default =>
    cases h
    exact ⟨_, rfl⟩

/-- In a run that reaches neither of the two, every handler returns. -/
theorem Serves.returns {S : Type} {engine : S → Sql.Call → Sql.Reply → S → Prop} {site : Site} {m : Host}
    (hsite : site.handleRequest = handleRequest m) {w w' : Recorder × S} {exchanges : List Exchange}
    (h : Serves engine site w exchanges w')
    (hreached : ∀ x ∈ exchanges, ∀ handler block,
      createHandler site.config site.routeMap site.visit x.req.uri = some (handler, block) →
        handler ≠ .proxy ∧ handler ≠ .meme) : ∀ x ∈ exchanges, ∃ output, x.output = .ok output := by
  induction h with
  | rest => nofun
  | request _ _ hanswer hrun _ ih =>
    have hfirst := hreached _ List.mem_cons_self
    obtain ⟨⟨handler, block⟩, hcreate, hp⟩ := Option.bind_eq_some_iff.1 hanswer
    rw [hsite] at hp
    obtain ⟨hproxy, hmeme⟩ := hfirst handler block hcreate
    obtain ⟨output, rfl⟩ := handleRequest_ret hproxy hmeme hp
    obtain ⟨rfl, -⟩ := runs_ret.1 hrun
    intro x hx
    rcases List.mem_cons.1 hx with rfl | hx
    · exact ⟨output, rfl⟩
    · exact ih (fun x hx => hreached x (List.mem_cons_of_mem _ hx)) x hx

/-- A request whose text does not decode throws, whatever the database replies. -/
theorem runs_undecoded {S : Type} {engine : S → Sql.Call → Sql.Reply → S → Prop} {uuid : Meme.MemeId} {req : Request}
    {e : StdException} (hcommand : Meme.command req = .settled (.error e)) {db db' : S}
    {output : Except StdException Response} (h : Runs engine db (Meme.serve uuid.text req) output db') :
    output = .error e := by
  rw [Meme.serve_eq, hcommand] at h
  -- the constructor makes its two calls
  obtain ⟨r, db₁, -, h⟩ := runs_call.1 h
  obtain ⟨r', db₂, -, h⟩ := runs_call.1 h
  exact (runs_throw.1 h).1

/-- So does a search. -/
theorem runs_search_undecoded {S : Type} {engine : S → Sql.Call → Sql.Reply → S → Prop} {uuid : Meme.MemeId} {req : Request}
    {query : Str} {e : StdException} (hmethod : req.method = str "GET") (huri : Meme.checkUri req.uri = str "search/" ++ query)
    (hquery : query ≠ []) (hdecode : uriDecode query = .error e) {db db' : S} {output : Except StdException Response}
    (h : Runs engine db (Meme.serve uuid.text req) output db') : output = .error e := by
  refine runs_undecoded ?_ h
  rw [Meme.command_get hmethod, huri, Meme.getCommand_search hquery, hdecode]

/-! ## Two requests -/

/-- The meme handler and the health check of a program that has no files. -/
def memeSite : Site where
  config := [.block [str "handler", str "meme"] [.line [str "location", str "/memes"]],
    .block [str "handler", str "health"] [.line [str "location", str "/health"]]]
  routeMap := [(str "/memes", str "meme"), (str "/health", str "health")]
  visit := [(str "/memes", str "meme"), (str "/health", str "health")]
  headers := []
  handleRequest := handleRequest ⟨[], fun _ => none, [], Meme.firstId.text, fun _ _ => .error .invalidArgument⟩

def healthRequest : Request := parseRequest (fun _ q => q) "GET /health HTTP/1.1\r\n\r\n"

def searchRequest : Request := parseRequest (fun _ q => q) "GET /memes/search/%zz HTTP/1.1\r\n\r\n"

theorem healthRequest_reads : healthRequest.valid = true ∧ healthRequest.uri = str "/health" := by decide +kernel

theorem searchRequest_reads : searchRequest.valid = true ∧ searchRequest.method = str "GET" ∧
    searchRequest.uri = str "/memes/search/%zz" ∧ Meme.checkUri searchRequest.uri = str "search/" ++ str "%zz" ∧
    uriDecode "%zz" = .error decodeFailure := by
  decide +kernel

theorem answer_health (recorder : Recorder) :
    memeSite.answer recorder healthRequest = some (.ret (Meme.respond 200 "text/plain" "OK")) := by
  have hanswer : healthResponse healthRequest = Meme.respond 200 "text/plain" "OK" := by
    unfold healthResponse
    rw [if_pos healthRequest_reads.2]
  unfold Site.answer
  rw [healthRequest_reads.2, ← hanswer]
  rfl

theorem answer_search (recorder : Recorder) : memeSite.answer recorder searchRequest = some (Meme.serve Meme.firstId.text searchRequest) := by
  unfold Site.answer
  rw [searchRequest_reads.2.2.1]
  rfl

theorem runs_search : ∃ db', Runs (Sql.computes fun _ _ => true) [] (Meme.serve Meme.firstId.text searchRequest) (.error decodeFailure) db' := by
  obtain ⟨-, hmethod, -, hcheck, hdecode⟩ := searchRequest_reads
  have h : Runs (Sql.computes fun _ _ => true) [] (Meme.serve Meme.firstId.text searchRequest) _ _ := runs_eval (fun _ _ => rfl) _ _
  have he := runs_search_undecoded hmethod hcheck (by decide) hdecode h
  rw [he] at h
  exact ⟨_, h⟩

/-- The health check, asked twice. -/
theorem recorded_iff_health : ∃ exchanges w, Serves (Sql.computes fun _ _ => true) memeSite (⟨[], []⟩, []) exchanges w ∧
    exchanges.map Exchange.truth = [(str "/health", 200), (str "/health", 200)] ∧
    w.1.urlResponseList = exchanges.map Exchange.truth := by
  have hrun : Serves (Sql.computes fun _ _ => true) memeSite (⟨[], []⟩, []) _ _ :=
    .request rfl healthRequest_reads.1 (answer_health _) .ret (.request rfl healthRequest_reads.1 (answer_health _) .ret .rest)
  refine ⟨_, _, hrun, ?_, (recorded_iff hrun).2 fun x hx => ?_⟩
  · show [(healthRequest.uri, 200), (healthRequest.uri, 200)] = _
    rw [healthRequest_reads.2]
  · rcases List.mem_cons.1 hx with rfl | hx
    · exact ⟨_, rfl⟩
    · rw [List.mem_singleton.1 hx]
      exact ⟨_, rfl⟩

/-- A search that does not decode is answered with 500, and the recorder is not told. -/
theorem recorded_search : ∃ exchanges w, Serves (Sql.computes fun _ _ => true) memeSite (⟨[], []⟩, []) exchanges w ∧
    exchanges.map Exchange.truth = [(str "/health", 200), (str "/memes/search/%zz", 500)] ∧
    w.1.urlResponseList = [(str "/health", 200)] := by
  obtain ⟨db', hsearch⟩ := runs_search
  refine ⟨_, _, .request rfl healthRequest_reads.1 (answer_health _) .ret
    (.request rfl searchRequest_reads.1 (answer_search _) hsearch .rest), ?_, ?_⟩
  · show [(healthRequest.uri, 200), (searchRequest.uri, 500)] = _
    rw [healthRequest_reads.2, searchRequest_reads.2.2.1]
  · show [(healthRequest.uri, 200)] = _
    rw [healthRequest_reads.2]

end GittyUp.Handlers
