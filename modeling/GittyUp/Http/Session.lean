import GittyUp.Http.Request
import GittyUp.Http.Response
/-!
# Sessions

`src/session.cc`: a session is driven by the completions of its socket
operations. It reads once, answers what that read delivered, and is deleted
when the answer is written. The router and its handlers are a function of the
parsed request.
-/
open Lib

namespace GittyUp.Http

/-- `max_length`, the size of the read buffer. -/
def maxLength : Nat := 1024

/-- What a session's answers depend on besides the bytes it received. -/
structure Surroundings where
  /-- `router::route_request`. -/
  routeRequest : Request → Except StdException Response
  /-- The order in which a response's headers are visited. -/
  visit : List (Str × Str) → List (Str × Str)
  /-- The query string read back through stale iterators. -/
  stale : Str → Str → Str
  /-- The memory behind the copy of the raw request, which has no NUL of its own. -/
  beyond : Str

/-- `handle_error`. -/
def errorResponse : Response :=
  (Response.new 500 "Oops! Looks like something went wrong on our side. Please try again later.").setHeader
    "Content-Type" "text/plain"

/-- `handle_invalid_request`: the raw request as a C string. -/
def invalidResponse (beyond : Str) (req : Request) : Response :=
  (Response.new 400 (cStr (req.rawRequest ++ beyond))).setHeader "Content-Type" "text/plain"

/-- `handle_success`: the response to the bytes of one read. -/
def handleSuccess (e : Surroundings) (data : Str) : Response :=
  let req := parseRequest e.stale data
  if req.valid then
    match e.routeRequest req with
    | .ok holder => holder
    | .error _ => errorResponse
  else invalidResponse e.beyond req

/-- The pending operation of a session. -/
inductive Phase
  | reading
  | writing (bytes : Str)
  | deleted

structure Session where
  phase : Phase
  /-- What was handed to `write`, in order. -/
  written : List Str

inductive Completion
  | read (data : Str)
  | readFailed
  | wrote
  | writeFailed

/-- `write`. -/
def Session.write (s : Session) (resp : Response) (visit : List (Str × Str) → List (Str × Str)) : Session :=
  let bytes := resp.generateResponse visit
  ⟨.writing bytes, s.written ++ [bytes]⟩

/-- `handle_read` and `handle_write`. A completion of an operation that is not pending cannot occur. -/
def Session.step (e : Surroundings) (s : Session) (c : Completion) : Session :=
  match s.phase, c with
  | .reading, .read data => s.write (handleSuccess e data) e.visit
  | .reading, .readFailed => s.write errorResponse e.visit
  | .writing _, .wrote => { s with phase := .deleted }
  | .writing _, .writeFailed => { s with phase := .deleted }
  | _, _ => s

/-- `start`. -/
def Session.start : Session := ⟨.reading, []⟩

/-- The next chunk arrives: a read that waits for it completes, and its answer is written. -/
def Session.receive (e : Surroundings) (s : Session) (chunk : Str) : Session :=
  (s.step e (.read chunk)).step e .wrote

/-- The bytes that the client gets when its request arrives in these chunks. -/
def reply (e : Surroundings) (chunks : List Str) : Str :=
  (chunks.foldl (Session.receive e) Session.start).written.flatten

/-! ## One read, one answer -/

theorem receive_deleted (e : Surroundings) {s : Session} (h : s.phase = .deleted) (chunk : Str) :
    s.receive e chunk = s := by
  unfold Session.receive Session.step
  simp [h]

theorem foldl_receive_deleted (e : Surroundings) (chunks : List Str) {s : Session} (h : s.phase = .deleted) :
    chunks.foldl (Session.receive e) s = s := by
  induction chunks with
  | nil => rfl
  | cons c chunks ih => rw [List.foldl_cons, receive_deleted e h, ih]

/-- A session answers the first chunk, and no other. -/
theorem reply_first (e : Surroundings) (c : Str) (chunks : List Str) :
    reply e (c :: chunks) = (handleSuccess e c).generateResponse e.visit := by
  unfold reply
  rw [List.foldl_cons, foldl_receive_deleted e chunks rfl]
  exact List.append_nil _

/-! ## Segmentation -/

/-- More bytes keep a valid request valid. -/
theorem valid_extend (stale : Str → Str → Str) {data more : Str} (h : data <+: more)
    (hv : (parseRequest stale data).valid = true) : (parseRequest stale more).valid = true := by
  obtain ⟨t, rfl⟩ := h
  rw [parseRequest_valid] at hv ⊢
  apply Re.search_extend _ hv
  simp [Re.NoEnd, statusLineRe, HAppend.hAppend, Append.append, Re.plus, Re.lit, str]

theorem handleSuccess_invalid (e : Surroundings) {data : Str} (h : (parseRequest e.stale data).valid = false) :
    handleSuccess e data = (Response.new 400 (cStr (data ++ e.beyond))).setHeader "Content-Type" "text/plain" := by
  simp [handleSuccess, h, invalidResponse]

section Segments
variable (visit : List (Str × Str) → List (Str × Str)) (stale : Str → Str → Str)

/-- The same bytes, whatever the handlers do and the memory holds. -/
def SameReply (chunks chunks' : List Str) : Prop :=
  ∀ route beyond, reply ⟨route, visit, stale, beyond⟩ chunks = reply ⟨route, visit, stale, beyond⟩ chunks'

/-- A handler tells a valid request from every other one. -/
theorem not_sameReply_of_valid {f w : Str} {fs ws : List Str} (hne : f ≠ w)
    (hv : (parseRequest stale f).valid = true ∨ (parseRequest stale w).valid = true) :
    ¬ SameReply visit stale (f :: fs) (w :: ws) := by
  intro h
  have h := h (fun req => .ok (.new (if req.rawRequest = f then 200 else 201) [])) []
  rw [reply_first, reply_first] at h
  have h := Response.statusCode_of_bytes h
  unfold handleSuccess at h
  cases hf : (parseRequest stale f).valid <;> cases hw : (parseRequest stale w).valid <;>
    simp [hf, hw, Ne.symm hne, invalidResponse] at h hv

/-- Two invalid requests, one the beginning of the other: what the client gets
back is cut off at a NUL, and only then it can be the same. -/
theorem sameReply_invalid_iff {f w : Str} {fs ws : List Str} (hp : f <+: w) (hne : f ≠ w)
    (hf : (parseRequest stale f).valid = false) (hw : (parseRequest stale w).valid = false) :
    SameReply visit stale (f :: fs) (w :: ws) ↔ 0 ∈ f := by
  have hbody : SameReply visit stale (f :: fs) (w :: ws) ↔ ∀ beyond, cStr (f ++ beyond) = cStr (w ++ beyond) := by
    unfold SameReply
    refine ⟨fun h beyond => ?_, fun h route beyond => ?_⟩
    · have h := h (fun _ => .ok errorResponse) beyond
      rw [reply_first, reply_first, handleSuccess_invalid _ hf, handleSuccess_invalid _ hw] at h
      exact List.append_cancel_left h
    · rw [reply_first, reply_first, handleSuccess_invalid _ hf, handleSuccess_invalid _ hw, h beyond]
  rw [hbody]
  constructor
  · intro h
    by_contra h0
    have hf0 : ∀ c ∈ f, c ≠ 0 := fun c hc e => h0 (e ▸ hc)
    obtain ⟨u, rfl⟩ := hp
    cases u with
    | nil => simp at hne
    | cons d u =>
      have h := h (if d = 0 then [1] else [0])
      rw [List.append_assoc, cStr_append_of_noNul hf0, cStr_append_of_noNul hf0] at h
      have h := List.append_cancel_left h
      by_cases hd : d = 0
      · simp [hd, cStr] at h
      · simp [hd, cStr] at h
  · intro h0 beyond
    obtain ⟨u, rfl⟩ := hp
    rw [List.append_assoc, cStr_append_of_mem h0, cStr_append_of_mem h0]

/-- A request that arrives in chunks gets the reply to the whole request if and
only if the first chunk is all that one read can take of it, or neither is a
valid request and the chunk has a NUL, where the echo of the request ends. -/
theorem sameReply_whole_iff (first : Str) (rest : List Str) (hlen : first.length ≤ maxLength) :
    SameReply visit stale (first :: rest) [(first :: rest).flatten.take maxLength] ↔
      first = (first :: rest).flatten.take maxLength ∨
        ((parseRequest stale ((first :: rest).flatten.take maxLength)).valid = false ∧ 0 ∈ first) := by
  have hp : first <+: (first :: rest).flatten.take maxLength := by
    rw [List.flatten_cons, List.take_append]
    exact ⟨rest.flatten.take (maxLength - first.length), by rw [List.take_of_length_le hlen]⟩
  generalize (first :: rest).flatten.take maxLength = whole at hp ⊢
  by_cases he : first = whole
  · subst he
    refine ⟨fun _ => .inl rfl, fun _ route beyond => ?_⟩
    rw [reply_first, reply_first]
  · rw [or_iff_right he]
    cases hw : (parseRequest stale whole).valid with
    | true => simp [not_sameReply_of_valid visit stale he (.inr hw)]
    | false =>
      have hf : (parseRequest stale first).valid = false := by
        cases hf : (parseRequest stale first).valid with
        | false => rfl
        | true => rw [valid_extend stale hp hf] at hw; cases hw
      rw [sameReply_invalid_iff visit stale hp he hf hw]
      simp

end Segments

def getRequest : Str := requestText "GET" "/" [(str "Host", str "a")] []

/-- All of a request in one chunk. -/
theorem sameReply_whole_get : SameReply id (fun _ qs => qs) [getRequest] [[getRequest].flatten.take maxLength] :=
  (sameReply_whole_iff id (fun _ qs => qs) getRequest [] (by decide)).2 (.inl (by decide))

/-- Cut inside the request line, the same request is answered as an invalid one. -/
theorem sameReply_whole_split : WellFormed getRequest ∧
    [str "GET / HT", str "TP/1.1\r\nHost: a\r\n\r\n"].flatten = getRequest ∧
    ¬ SameReply id (fun _ qs => qs) [str "GET / HT", str "TP/1.1\r\nHost: a\r\n\r\n"]
      [getRequest.take maxLength] := by
  refine ⟨⟨_, _, _, _, rfl, by decide, by decide, by decide⟩, by decide, ?_⟩
  exact not_sameReply_of_valid id _ (by decide) (.inr (by decide +kernel))

end GittyUp.Http
