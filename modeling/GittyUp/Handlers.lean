import GittyUp.Http.Framing
import GittyUp.Router
import GittyUp.StatusHandler
/-!
# The route handlers

What each handler class of `src/` answers. A handler is a program that makes
calls to the database, though only the meme handler makes any; the reverse proxy
is an argument. `handleRequest_bare`: whatever is asked and whatever the database
replies, a handler sets one header, and its value fits on a line.
-/
open Lib GittyUp.Http GittyUp.Config GittyUp.Meme GittyUp.Router GittyUp.SqlLib

namespace GittyUp.Handlers

/-! ## What is shared -/

/-- What the handlers use besides a request and their block of the config. -/
structure Host where
  /-- The root path that the config names. -/
  rootPath : Str
  /-- The contents of the file that a path opens. -/
  files : Str → Option Str
  /-- The memory behind the copy of the raw request. -/
  beyond : Str
  /-- What the UUID generator yields. -/
  uuid : Str
  /-- The reverse proxy, given its block. -/
  proxy : Option NginxConfig → Request → Except StdException Response

/-! ## The handlers -/

/-- `generate_echo_response`. -/
def generateEchoResponse (beyond : Str) (req : Request) : Response :=
  respond 200 "text/plain" (cStr (req.rawRequest ++ beyond))

/-- `generate_404_response`. -/
def generate404Response (req : Request) : Response :=
  respond 404 "text/plain" (str "The requested resource at " ++ req.uri ++ str " could not be found!")

/-- `health_handler::handle_request`. -/
def healthResponse (req : Request) : Response :=
  if req.uri = str "/health" then respond 200 "text/plain" "OK"
  else respond 400 "text/plain" "Requested file was not found!\n"

/-- `get_static_file_path`: the path of the last `root` statement. -/
def getStaticFilePath (config : NginxConfig) : Str :=
  config.foldl (fun output statement =>
    match statement.tokens with
    | [directive, path] => if directive = str "root" then path else output
    | _ => output) []

/-- `\/(\w+)(\.\w+)$` -/
def fileRe : Re := .lit '/' [] ++ .group 1 (.plus isWord) ++ .group 2 (.lit '.' [] ++ .plus isWord) ++ .textEnd

/-- `parse_file_info`: the name and the extension. -/
def parseFileInfo (uri : Str) : Option (Str × Str) :=
  (fileRe.search uri).map fun m => (Re.capture m 1, Re.capture m 2)

/-- `serve_file`, from the directory `path`. -/
def serveFile (files : Str → Option Str) (path : Str) (req : Request) : Response :=
  match parseFileInfo req.uri with
  | none => respond 404 "text/plain" "The requested file could not be found!\n"
  | some (name, extension) =>
    match files (path ++ str "/" ++ name ++ extension) with
    | none => respond 404 "text/plain" "The requested file could not be found!\n"
    | some f => respond 200 (getMimeType extension) f

/-- `static_file_handler::handle_request`, with the block that the constructor reads. -/
def staticFileResponse (m : Host) (config : NginxConfig) (req : Request) : Response :=
  if req.method = str "GET" then serveFile m.files (m.rootPath ++ getStaticFilePath config) req
  else respond 405 "text/plain" "This route only supports the HTTP GET method!"

/-- `handle_request` of the class `handler`, created with the block `config`. `none` is
a static file handler without a block, which reads through a null pointer, or a status
handler that ends the process. -/
def handleRequest (m : Host) (recorder : Recorder) (handler : Handler) (config : Option NginxConfig) (req : Request) :
    Option (SqlProg Response) :=
  match handler with
  | .echo => some (return generateEchoResponse m.beyond req)
  | .staticFile _ => config.map fun block => return staticFileResponse m block req
  | .status => (statusResponse recorder).map fun output => return output
  | .proxy => some (.ofExcept (m.proxy config req))
  | .meme => some (serve m.uuid req)
  | .health => some (return healthResponse req)
  | .default => some (return generate404Response req)

/-! ## What a handler answers -/

/-- The codes of `response_codes`. -/
def responseCodes : List Nat := [200, 201, 303, 400, 404, 405, 500]

/-- The types that `get_mime_type` knows, and the one for all others. -/
def contentTypes : List Str := str "application/octet-stream" :: mimeTypes.map Prod.snd

/-- What holds of every answer: of one with a code, a type and any body, and of one
that redirects to a place that fits on a line. -/
structure Every (P : Response → Prop) : Prop where
  answers : ∀ code ∈ responseCodes, ∀ contentType ∈ contentTypes, ∀ body, P (respond code contentType body)
  redirects : ∀ location : Str, (∀ c ∈ location, notEol c) → P (redirectTo location)

theorem getMimeType_mem (extension : Str) : getMimeType extension ∈ contentTypes := by
  unfold getMimeType
  cases h : mimeTypes.lookup extension with
  | none => exact List.mem_cons_self
  | some value => exact List.mem_cons_of_mem _ (List.mem_map_of_mem (mem_of_lookup h))

theorem contentTypes_line : ∀ t ∈ contentTypes, ∀ c ∈ t, notEol c := by decide

/-- A MIME type fits on a line, whatever the extension. -/
theorem getMimeType_line (extension : Str) : ∀ c ∈ getMimeType extension, notEol c :=
  contentTypes_line _ (getMimeType_mem extension)

/-- What `check_uri` takes from a URI is matched by dots. -/
theorem checkUri_line (uri : Str) : ∀ c ∈ checkUri uri, notEol c := by
  unfold checkUri
  cases h : uriRe.search uri with
  | none => simp
  | some m =>
    obtain ⟨_, b, s', -, _, _, ⟨t, _, hlit, _, ⟨cs, hcs, rfl, rfl⟩, rfl⟩, -, -, rfl⟩ := Re.search_sound h
    obtain ⟨-, rfl⟩ := Re.matches_lit.1 hlit
    simpa [Re.capture] using hcs

section Answers
variable {P : Response → Prop} (h : Every P)
include h

theorem Every.plain (code : Nat) (hcode : code ∈ responseCodes) (body : Str) : P (respond code "text/plain" body) :=
  h.answers code hcode _ (by decide) body

theorem Every.json (code : Nat) (hcode : code ∈ responseCodes) (body : Str) :
    P (respond code "application/json" body) :=
  h.answers code hcode _ (by decide) body

theorem Every.redirectRequest {location : Str} (hl : ∀ c ∈ location, notEol c) : P (redirectRequest location) := by
  have line : ∀ {lead s : Str}, (∀ c ∈ lead, notEol c) → (∀ c ∈ s, notEol c) → ∀ c ∈ lead ++ s, notEol c := by
    intro lead s hl hs c hc
    rcases List.mem_append.1 hc with hc | hc
    · exact hl c hc
    · exact hs c hc
  unfold Meme.redirectRequest
  split_ifs
  · exact h.redirects _ (by decide)
  · exact h.redirects _ (by decide)
  · exact h.redirects _ (line (by decide) fun c hc => hl c (List.mem_of_mem_drop hc))
  · exact h.redirects _ (line (by decide) hl)

theorem Every.answerList (result : List Lib.Sql.Row) : (answerList result).Returns P :=
  Prog.Returns.bind _ fun _ => h.answers 200 (by decide) _ (getMimeType_mem _) _

theorem Every.viewRows (result : List Lib.Sql.Row) : (viewRows result).Returns P := by
  unfold Meme.viewRows
  split
  · refine .bind _ fun _ => .bind _ fun _ => ?_
    split_ifs
    · exact h.answers 400 (by decide) _ (getMimeType_mem _) _
    · exact h.answers 200 (by decide) _ (getMimeType_mem _) _
  · exact h.plain 404 (by decide) _

theorem Every.handleGet {check : Str} (hl : ∀ c ∈ check, notEol c) : (handleGet check).Returns P := by
  unfold Meme.handleGet
  split_ifs
  · exact h.redirectRequest (by decide)
  · exact h.redirectRequest (by decide)
  · exact h.redirectRequest hl
  · exact h.redirectRequest fun c hc => hl c (List.mem_of_mem_drop hc)
  · exact .bind _ h.answerList
  · exact .bind _ fun _ => .bind _ h.answerList
  · exact .bind _ h.viewRows

theorem Every.serve (uuid : Str) (req : Request) : (serve uuid req).Returns P := by
  refine .bind _ fun _ => ?_
  unfold Meme.handleRequest
  split_ifs
  · refine .bind _ fun check => ?_
    cases check with
    | none => exact h.plain 400 (by decide) _
    | some params =>
      refine .bind _ fun created => ?_
      cases created
      · exact h.plain 500 (by decide) _
      · exact h.json 201 (by decide) _
  · refine .bind _ fun check => ?_
    split
    · refine .bind _ fun updated => ?_
      cases updated
      · exact h.plain 500 (by decide) _
      · exact h.json 200 (by decide) _
    · exact h.plain 400 (by decide) _
  · unfold deleteMeme
    split
    · refine .bind _ fun deleted => ?_
      cases deleted
      · exact h.plain 500 (by decide) _
      · exact h.json 200 (by decide) _
    · exact h.plain 400 (by decide) _
  · exact h.handleGet (checkUri_line _)
  · exact h.plain 405 (by decide) _

theorem Every.serveFile (files : Str → Option Str) (path : Str) (req : Request) : P (serveFile files path req) := by
  unfold Handlers.serveFile
  split
  · exact h.plain 404 (by decide) _
  · split
    · exact h.plain 404 (by decide) _
    · exact h.answers 200 (by decide) _ (getMimeType_mem _) _

/-- Of what a handler answers, whatever is asked and whatever the database replies. -/
theorem Every.handleRequest {m : Host} {recorder : Recorder} {handler : Handler} {config : Option NginxConfig}
    {req : Request} {p : SqlProg Response} (hp : handler ≠ .proxy)
    (hr : handleRequest m recorder handler config req = some p) : p.Returns P := by
  cases handler with
  | echo =>
    cases hr
    exact h.plain 200 (by decide) _
  | staticFile name =>
    obtain ⟨block, -, rfl⟩ := Option.map_eq_some_iff.1 hr
    show P (staticFileResponse m block req)
    unfold staticFileResponse
    split_ifs
    · exact h.serveFile _ _ _
    · exact h.plain 405 (by decide) _
  | status =>
    simp only [Handlers.handleRequest] at hr
    obtain ⟨output, hout, rfl⟩ := Option.map_eq_some_iff.1 hr
    obtain ⟨body, rfl⟩ := statusResponse_some hout
    show P (respond 200 "text/html" body)
    exact h.answers 200 (by decide) _ (by decide) body
  | proxy => exact absurd rfl hp
  | meme =>
    cases hr
    exact h.serve _ _
  | health =>
    cases hr
    show P (healthResponse req)
    unfold healthResponse
    split_ifs
    · exact h.plain 200 (by decide) _
    · exact h.plain 400 (by decide) _
  | default =>
    cases hr
    exact h.plain 404 (by decide) _

end Answers

/-! ## The header that a handler sets -/

/-- One header is set, of one of two names, and its value fits on a line. -/
def Bare (r : Response) : Prop :=
  ∃ name value, (name = str "Content-Type" ∨ name = str "Location") ∧ r.responseHeaders = [(name, value)] ∧
    ∀ c ∈ value, notEol c

theorem bare_respond (code : Nat) {contentType : Str} (h : ∀ c ∈ contentType, notEol c) (body : Str) :
    Bare (respond code contentType body) :=
  ⟨_, contentType, .inl rfl, rfl, h⟩

theorem every_bare : Every Bare where
  answers code _ contentType h body := bare_respond code (contentTypes_line contentType h) body
  redirects location h := ⟨_, location, .inr rfl, rfl, h⟩

theorem handleRequest_bare {m : Host} {recorder : Recorder} {handler : Handler} {config : Option NginxConfig}
    {req : Request} {p : SqlProg Response} (hp : handler ≠ .proxy)
    (h : handleRequest m recorder handler config req = some p) : p.Returns Bare :=
  every_bare.handleRequest hp h

end GittyUp.Handlers
