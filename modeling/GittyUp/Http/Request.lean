import GittyUp.Lib.Prefix
import GittyUp.Lib.Regex
/-!
# HTTP requests

`src/request.cc`: what a request object extracts from the bytes it was given.
`parse_query_string` reads the query through match iterators into a string that
it has just assigned to; what they yield then is the argument `stale`.
-/
open Lib

namespace GittyUp.Http

structure Request where
  rawRequest : Str
  method : Str
  uri : Str
  requestHeaders : List (Str × Str)
  requestBody : Str
  queryString : List (Str × Str)
  valid : Bool

/-- `^(\w+) (.+) HTTP\/(\d\.\d)\r\n` -/
def statusLineRe : Re :=
  .textStart ++ .group 1 (.plus isWord) ++ .lit ' ' [] ++ .group 2 (.plus notEol) ++ .lit ' ' "HTTP/" ++
    .group 3 (.one isDigit ++ .lit '.' [] ++ .one isDigit) ++ .lit '\r' "\n"

/-- `\n(.+)\: (.+)\r` -/
def headerRe : Re :=
  .lit '\n' [] ++ .group 1 (.plus notEol) ++ .lit ':' " " ++ .group 2 (.plus notEol) ++ .lit '\r' []

/-- `\r\n\r\n(.+)$` -/
def bodyRe : Re := .lit '\r' "\n\r\n" ++ .group 1 (.plus notEol) ++ .textEnd

/-- `^(.+)\?(.*)$` -/
def queryRe : Re :=
  .textStart ++ .group 1 (.plus notEol) ++ .lit '?' [] ++ .group 2 (.many notEol) ++ .textEnd

/-- `(.+?)=(.+?)(&*)` -/
def paramRe : Re :=
  .group 1 (.plusLazy notEol) ++ .lit '=' [] ++ .group 2 (.plusLazy notEol) ++ .group 3 (.many (· == ('&' : Char)))

/-- What a loop over matches inserts: group 1 with group 2, unless group 1 has a value. -/
def insertAll (ms : List Captures) : List (Str × Str) :=
  ms.foldl (fun m caps => bindNew m (Re.capture caps 1) (Re.capture caps 2)) []

/-- `parse_query_string`: the URI that is left, and the parameters. -/
def parseQueryString (stale : Str → Str → Str) (uri : Str) : Str × List (Str × Str) :=
  match queryRe.search uri with
  | none => (uri, [])
  | some m =>
    let uri := Re.capture m 1
    let qs := stale uri (Re.capture m 2)
    (uri, insertAll (paramRe.findAll qs))

def parseHeaders (req : Str) : List (Str × Str) := insertAll (headerRe.findAll req)

def parseBody (req : Str) : Str :=
  match bodyRe.search req with
  | none => []
  | some m => Re.capture m 1

/-- `parse_request`. Only the status line can make a request invalid: each match
of the other expressions has all its groups. -/
def parseRequest (stale : Str → Str → Str) (data : Str) : Request :=
  match statusLineRe.search data with
  | none => ⟨data, [], [], [], [], [], false⟩
  | some m =>
    let (uri, queryString) := parseQueryString stale (Re.capture m 2)
    ⟨data, Re.capture m 1, uri, parseHeaders data, parseBody data, queryString, true⟩

@[simp] theorem parseRequest_raw (stale : Str → Str → Str) (data : Str) : (parseRequest stale data).rawRequest = data := by
  unfold parseRequest
  split <;> rfl

theorem parseRequest_valid (stale : Str → Str → Str) (data : Str) :
    (parseRequest stale data).valid = (statusLineRe.search data).isSome := by
  unfold parseRequest
  split <;> simp_all

/-- `get_header`. -/
def Request.getHeader (req : Request) (name : Str) : Str := (req.requestHeaders.lookup name).getD []

/-! ## The grammar of a request -/

/-- A visible character that is no separator of the grammar. -/
def isTokenChar (c : Byte) : Bool := 33 ≤ c && c < 127 && c ≠ ':'

def headerLine (header : Str × Str) : Str := header.1 ++ str ": " ++ header.2 ++ str "\r\n"

/-- Request line, headers, blank line and body. -/
def requestText (method target : Str) (headers : List (Str × Str)) (body : Str) : Str :=
  method ++ str " " ++ target ++ str " HTTP/1.1\r\n" ++ headers.flatMap headerLine ++ str "\r\n" ++ body

def WellFormed (data : Str) : Prop :=
  ∃ method target headers body, data = requestText method target headers body ∧
    (method ≠ [] ∧ ∀ c ∈ method, isTokenChar c) ∧ (target ≠ [] ∧ ∀ c ∈ target, 33 ≤ c ∧ c < 127) ∧
    ∀ h ∈ headers, (h.1 ≠ [] ∧ ∀ c ∈ h.1, isTokenChar c) ∧ ∀ c ∈ h.2, notEol c ∧ c ≠ 0

end GittyUp.Http
