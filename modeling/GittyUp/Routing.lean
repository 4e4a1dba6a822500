import GittyUp.Handlers
import GittyUp.Http.Session
/-!
# Routing a request

The default headers of `src/router.cc`, and what a client can read back from the
bytes of an answer (`decode_sent`). `headers_` is an unordered map: it is
visited in an order of its own.
-/
open Lib GittyUp.Http GittyUp.Config GittyUp.Router GittyUp.SqlLib

namespace GittyUp.Handlers

/-! ## Default headers -/

/-- `register_default_header`: the last value of a name stays. -/
def registerDefaultHeader (headers : List (Str × Str)) (headerName headerValue : Str) : List (Str × Str) :=
  match headers.lookup headerName with
  | some _ => headers.map fun h => if h.1 = headerName then (headerName, headerValue) else h
  | none => headers ++ [(headerName, headerValue)]

/-- `headers_` after these calls. -/
def defaultHeaders (calls : List (Str × Str)) : List (Str × Str) :=
  calls.foldl (fun headers call => registerDefaultHeader headers call.1 call.2) []

/-- `apply_default_headers`, visiting `headers_` in the order `headers`. -/
def applyDefaultHeaders (headers : List (Str × Str)) (res : Response) : Response :=
  headers.foldl (fun res header => res.setHeader header.1 header.2) res

/-- The response to a valid request, by what the handler did. -/
def sent (headers : List (Str × Str)) : Except StdException Response → Response
  | .ok output => applyDefaultHeaders headers output
  | .error _ => errorResponse

theorem registerDefaultHeader_eq (headers : List (Str × Str)) (headerName headerValue : Str) :
    registerDefaultHeader headers headerName headerValue = bindLast headers headerName headerValue := by
  unfold registerDefaultHeader bindLast
  cases headers.lookup headerName with
  | some _ => simp
  | none => rfl

theorem setHeader_headers (res : Response) (hName hValue : Str) :
    (res.setHeader hName hValue).responseHeaders = bindLast res.responseHeaders hName hValue :=
  registerDefaultHeader_eq res.responseHeaders hName hValue

theorem defaultHeaders_eq (calls : List (Str × Str)) : defaultHeaders calls = rebindAll [] calls := by
  unfold defaultHeaders rebindAll
  congr 1
  funext headers call
  exact registerDefaultHeader_eq headers call.1 call.2

/-- The response keeps its code and body, and its headers are bound anew. -/
theorem applyDefaultHeaders_eq (headers : List (Str × Str)) (res : Response) :
    applyDefaultHeaders headers res = ⟨res.statusCode, rebindAll res.responseHeaders headers, res.responseBody⟩ := by
  induction headers generalizing res with
  | nil => rfl
  | cons header headers ih =>
    have := ih (res.setHeader header.1 header.2)
    rw [setHeader_headers] at this
    exact this

/-! ## What a client reads -/

/-- The header `name` has the value of the last default header of that name, and
else the one that the handler set. -/
def Valued (calls : List (Str × Str)) (x : Except StdException Response) (headers : List (Str × Str)) : Prop :=
  ∀ output, x = .ok output → ∀ name,
    headers.lookup name = (calls.reverse.lookup name).or (output.responseHeaders.lookup name)

section Sent
variable {calls headers : List (Str × Str)}

theorem valued_sent (horder : headers.Perm (defaultHeaders calls)) (x : Except StdException Response) :
    Valued calls x (sent headers x).responseHeaders := by
  rintro output rfl name
  have hn : ((defaultHeaders calls).map Prod.fst).Nodup := by
    rw [defaultHeaders_eq]
    exact nodup_rebindAll (m := []) List.nodup_nil calls
  have hperm := (List.reverse_perm headers).trans horder
  unfold sent
  simp only
  rw [applyDefaultHeaders_eq, lookup_rebindAll, lookup_perm hperm ((hperm.map Prod.fst).nodup_iff.2 hn), defaultHeaders_eq,
    lookup_rebindAll]
  simp

/-- What is sent has each name once: the names of the default headers, and one more. -/
theorem headers_sent (horder : headers.Perm (defaultHeaders calls)) {x : Except StdException Response}
    (hx : ∀ output, x = .ok output → Bare output) :
    ((sent headers x).responseHeaders.map Prod.fst).Nodup ∧ ∃ name value,
      (name = str "Content-Type" ∨ name = str "Location") ∧ (∀ c ∈ value, notEol c) ∧
        ∀ header ∈ (sent headers x).responseHeaders, header ∈ calls ∨ header = (name, value) := by
  cases x with
  | error e =>
    show (errorResponse.responseHeaders.map Prod.fst).Nodup ∧ _
    exact ⟨by decide, _, str "text/plain", .inl rfl, by decide, fun header hh => .inr (List.mem_singleton.1 hh)⟩
  | ok output =>
    obtain ⟨name, value, hname, hout, hvalue⟩ := hx output rfl
    unfold sent
    simp only
    rw [applyDefaultHeaders_eq, hout]
    refine ⟨nodup_rebindAll (m := [(name, value)]) (List.pairwise_singleton ..) _, name, value, hname, hvalue, fun header hh => ?_⟩
    rcases mem_rebindAll hh with hh | hh
    · have hh := horder.subset hh
      rw [defaultHeaders_eq] at hh
      rcases mem_rebindAll hh with hh | hh
      · exact .inl hh
      · cases hh
    · exact .inr (List.mem_singleton.1 hh)

/-- A client that cuts an answer at the first blank line, and the head at the
line ends and each header at its first ": ", reads the status code, the headers
and the body that were sent, if every default header is plain. -/
theorem decode_sent {S : Type} {engine : S → Lib.Sql.Call → Lib.Sql.Reply → S → Prop} (m : Host) (recorder : Recorder)
    {handler : Handler} (block : Option NginxConfig) (stale : Str → Str → Str) (data : Str)
    {p : SqlProg Response} {db db' : S} {x : Except StdException Response} {visit : List (Str × Str) → List (Str × Str)}
    (hproxy : handler ≠ .proxy) (hcalls : ∀ call ∈ calls, PlainHeader call)
    (horder : headers.Perm (defaultHeaders calls)) (hvisit : ∀ l, (visit l).Perm l)
    (hp : handleRequest m recorder handler block (parseRequest stale data) = some p) (hrun : Runs engine db p x db') :
    decodeResponse ((sent headers x).generateResponse visit) =
        some ((sent headers x).statusCode, visit (sent headers x).responseHeaders, (sent headers x).responseBody) ∧
      ((sent headers x).responseHeaders.map Prod.fst).Nodup ∧ Valued calls x (sent headers x).responseHeaders ∧
      ∃ name, (name = str "Content-Type" ∨ name = str "Location") ∧
        ∀ header ∈ (sent headers x).responseHeaders, header ∈ calls ∨ header.1 = name := by
  have hbare : ∀ output, x = .ok output → Bare output := by
    rintro output rfl
    exact (handleRequest_bare hproxy hp).runs hrun
  obtain ⟨hnodup, name, value, hname, hvalue, hmem⟩ := headers_sent horder hbare
  have hplain : PlainHeader (name, value) := by
    rcases hname with rfl | rfl
    · exact ⟨show ∀ c ∈ str "Content-Type", notEol c by decide, hvalue, show ¬ str ": " <:+: str "Content-Type" by decide⟩
    · exact ⟨show ∀ c ∈ str "Location", notEol c by decide, hvalue, show ¬ str ": " <:+: str "Location" by decide⟩
  refine ⟨decode_generate visit _ fun header hh => ?_, hnodup, valued_sent horder x, name, hname, fun header hh => ?_⟩
  · rcases hmem header ((hvisit _).subset hh) with hh | rfl
    · exact hcalls header hh
    · exact hplain
  · exact (hmem header hh).imp_right fun h => congrArg Prod.fst h

end Sent

def echoRequest : Str := "GET /echo HTTP/1.1\r\nServer: c\r\n\r\nServer: d\r\n\r\n"

/-- The blank lines and headers of an echoed request stay in the body. -/
theorem decode_sent_echo :
    decodeResponse ((sent [(str "Server", str "b")]
      (.ok (generateEchoResponse [] (parseRequest (fun _ q => q) echoRequest)))).generateResponse List.reverse) =
        some (200, [(str "Server", str "b"), (str "Content-Type", str "text/plain")], echoRequest) := by
  have hplain : ∀ call ∈ [(str "Server", str "a"), (str "Server", str "b")], PlainHeader call := by
    intro call hc
    rcases List.mem_cons.1 hc with rfl | hc
    · exact ⟨by decide, by decide, by decide⟩
    · rw [List.mem_singleton.1 hc]
      exact ⟨by decide, by decide, by decide⟩
  have h := decode_sent ⟨[], fun _ => none, [], [], fun _ _ => .error .invalidArgument⟩ ⟨[], []⟩ none (fun _ q => q)
    echoRequest (show Handler.echo ≠ .proxy from nofun) hplain (List.Perm.refl _) List.reverse_perm rfl
    (.ret : Runs (fun (_ : Unit) _ _ _ => True) () (.ret _) _ ())
  exact h.1.trans (by decide +kernel)

/-- The name of a default header ends at its first ": " for a client. -/
theorem decode_sent_colon : (∀ c ∈ str "a: b" ++ str "c", notEol c) ∧
    (parseRequest (fun _ q => q) "GET /health HTTP/1.1\r\n\r\n").valid = true ∧
    let r := sent (defaultHeaders [(str "a: b", str "c")])
      (.ok (healthResponse (parseRequest (fun _ q => q) "GET /health HTTP/1.1\r\n\r\n")))
    r.responseHeaders = [(str "Content-Type", str "text/plain"), (str "a: b", str "c")] ∧
      decodeResponse (r.generateResponse id) =
        some (200, [(str "Content-Type", str "text/plain"), (str "a", str "b: c")], str "OK") := by
  refine ⟨by decide, by decide +kernel, ?_, ?_⟩
  · decide +kernel
  · decide +kernel

end GittyUp.Handlers
