import GittyUp.Lib.Bytes
/-!
# HTTP responses

`src/response.cc`. The headers are an unordered map, so the order in which
`generate_header_lines` visits them is an argument.
-/
open Lib

namespace GittyUp.Http

structure Response where
  statusCode : Nat
  responseHeaders : List (Str × Str)
  responseBody : Str
deriving DecidableEq

namespace Response

/-- The constructor. -/
def new (statusCode : Nat) (body : Str) : Response := ⟨statusCode, [], body⟩

/-- `set_header`: the last value of a name stays. -/
def setHeader (r : Response) (hName hValue : Str) : Response :=
  { r with responseHeaders :=
      match r.responseHeaders.lookup hName with
      | some _ => r.responseHeaders.map fun h => if h.1 = hName then (hName, hValue) else h
      | none => r.responseHeaders ++ [(hName, hValue)] }

/-- `response_codes`, as `get_status_word` looks it up. -/
def getStatusWord : Nat → Str
  | 200 => "OK"
  | 201 => "Created"
  | 303 => "See Other"
  | 400 => "Bad Request"
  | 404 => "Not Found"
  | 405 => "Method Not Allowed"
  | 500 => "Internal Server Error"
  | _ => []

def generateStatusLine (r : Response) : Str :=
  str "HTTP/1.1 " ++ dec r.statusCode ++ str " " ++ getStatusWord r.statusCode ++ str "\r\n"

def generateHeaderLines (visit : List (Str × Str) → List (Str × Str)) (r : Response) : Str :=
  (visit r.responseHeaders).flatMap (fun header => header.1 ++ str ": " ++ header.2 ++ str "\r\n") ++ str "\r\n"

def generateResponse (visit : List (Str × Str) → List (Str × Str)) (r : Response) : Str :=
  r.generateStatusLine ++ r.generateHeaderLines visit ++ r.responseBody

@[simp] theorem statusCode_setHeader (r : Response) (n v : Str) : (r.setHeader n v).statusCode = r.statusCode := rfl
@[simp] theorem responseBody_setHeader (r : Response) (n v : Str) : (r.setHeader n v).responseBody = r.responseBody := rfl
@[simp] theorem statusCode_new (code : Nat) (body : Str) : (new code body).statusCode = code := rfl
@[simp] theorem responseBody_new (code : Nat) (body : Str) : (new code body).responseBody = body := rfl

/-- The bytes of a response tell its status code. -/
theorem statusCode_of_bytes {visit visit' : List (Str × Str) → List (Str × Str)} {r r' : Response}
    (h : r.generateResponse visit = r'.generateResponse visit') : r.statusCode = r'.statusCode := by
  have hstop : ∀ s, StopsAt isDigit (str " " ++ s) := by
    rintro s _ ⟨rfl⟩
    decide
  unfold generateResponse generateStatusLine at h
  simp only [List.append_assoc] at h
  have := congrArg (List.takeWhile isDigit) (List.append_cancel_left h)
  rw [takeWhile_run (dec_digits _) (hstop _), takeWhile_run (dec_digits _) (hstop _)] at this
  exact dec_injective this

end Response

end GittyUp.Http
