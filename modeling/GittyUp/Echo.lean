import GittyUp.Handlers
import GittyUp.Http.Session
/-!
# Echoes of a request

Three places of `src/` answer with the raw request: the echo handler, the
session for an invalid request, and the proxy for a redirect. Each makes a
string of the constructor's counted copy as if it were a C string.
-/
open Lib GittyUp.Http GittyUp.Handlers

namespace GittyUp.Echo

/-- What `constructGetRequest` returns, and the members that it sets. -/
structure Fetched where
  responseStr : Str
  redirect : Bool
  mimeType : Str

/-- `Reverse_proxy_handler::handle_request`, with what was fetched. -/
def proxyResponse (beyond : Str) (fetched : Fetched) (req : Request) : Response :=
  if fetched.redirect then
    let resp := (Response.new 200 (cStr (req.rawRequest ++ beyond))).setHeader "Content-Type" "text/plain"
    resp.setHeader "Content-Length" (dec resp.responseBody.length)
  else
    let resp := (Response.new 200 fetched.responseStr).setHeader "Content-Type" fetched.mimeType
    resp.setHeader "Content-Length" (dec fetched.responseStr.length)

/-- How many bytes are read to make a string of the copy of `data`: up to a NUL,
and that one too. -/
def bytesRead (beyond data : Str) : Nat := (cStr (data ++ beyond)).length + 1

/-- The body is what was received, and nothing behind the copy of it was read. -/
def Faithful (beyond data : Str) (r : Response) : Prop := r.responseBody = data ∧ bytesRead beyond data ≤ data.length

/-- The body is right if there is no NUL in the buffer and one behind it. -/
theorem body_iff (beyond data : Str) : cStr (data ++ beyond) = data ↔ (∀ c ∈ data, c ≠ 0) ∧ cStr beyond = [] :=
  cStr_append_eq_iff data beyond

/-- The copy is left unless there is a NUL in it. -/
theorem bytesRead_iff (beyond data : Str) : bytesRead beyond data ≤ data.length ↔ 0 ∈ data :=
  length_cStr_append_lt_iff data beyond

/-- So one of the two is always wrong. -/
theorem not_faithful {beyond data : Str} {r : Response} (hr : r.responseBody = cStr (data ++ beyond)) :
    ¬ Faithful beyond data r := by
  rintro ⟨hbody, hread⟩
  rw [hr, body_iff] at hbody
  rw [bytesRead_iff] at hread
  exact hbody.1 0 hread rfl

/-- No echo is faithful, whatever was received and whatever the memory holds. -/
theorem echo_not_faithful (stale : Str → Str → Str) (beyond data responseStr mimeType : Str) :
    ¬ Faithful beyond data (generateEchoResponse beyond (parseRequest stale data)) ∧
    ¬ Faithful beyond data (invalidResponse beyond (parseRequest stale data)) ∧
    ¬ Faithful beyond data (proxyResponse beyond ⟨responseStr, true, mimeType⟩ (parseRequest stale data)) := by
  refine ⟨not_faithful ?_, not_faithful ?_, not_faithful ?_⟩
  · simp [generateEchoResponse, Meme.respond]
  · simp [invalidResponse]
  · simp [proxyResponse]

/-- What is behind a NUL is lost, and without one the memory behind the copy is read. -/
theorem echo_nul : (generateEchoResponse [0] (parseRequest (fun _ q => q)
      (str "GET /echo HTTP/1.1\r\n\r\na" ++ [0] ++ str "b"))).responseBody = str "GET /echo HTTP/1.1\r\n\r\na" ∧
    bytesRead [0] (str "GET /echo HTTP/1.1\r\n\r\n") = (str "GET /echo HTTP/1.1\r\n\r\n").length + 1 := by
  decide +kernel

end GittyUp.Echo
