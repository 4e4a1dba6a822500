import GittyUp.Http.Fields
import GittyUp.Http.Query
import GittyUp.Lib.Json
import GittyUp.Lib.Like
import GittyUp.Routing
/-!
# A client of the server

What `$.ajax` sends for a page, and what it hands to the page of the answer. A
request is taken by `src/request.cc` as it was meant if its target has no query
and its body is one line, whatever else a browser puts into its head.
-/
open Lib GittyUp.Http GittyUp.Handlers GittyUp.Meme

namespace GittyUp.Client

/-! ## Requests -/

/-- The parts of a request that the server takes as they are. -/
structure Plain (method target body : Str) : Prop where
  method : method ≠ [] ∧ ∀ c ∈ method, isWord c
  target : target ≠ [] ∧ ∀ c ∈ target, notEol c ∧ c ≠ '?'
  body : ∀ c ∈ body, notEol c

/-- They are read as they were sent, behind any headers. -/
theorem parseRequest_plain (stale : Str → Str → Str) {method target body : Str} (h : Plain method target body)
    (headers : List (Str × Str)) :
    let req := parseRequest stale (requestText method target headers body)
    req.valid = true ∧ req.method = method ∧ req.uri = target ∧ req.requestBody = body := by
  have hline : ∀ c ∈ target, notEol c := fun c hc => (h.target.2 c hc).1
  have hone : isDigit ('1' : Char) := by decide
  have htext : requestText method target headers body =
      targetText method target '1' '1' (headers.flatMap headerLine ++ str "\r\n" ++ body) := by
    simp [requestText, targetText, str]
  have hreq : Requests (requestText method target headers body) := by
    rw [htext]
    exact ⟨_, _, rfl, method, target, '1', '1', rfl, h.method, ⟨h.target.1, hline⟩, hone, hone⟩
  obtain ⟨hmethod, huri, -⟩ := parseRequest_target stale (headers.flatMap headerLine ++ str "\r\n" ++ body) h.method
    ⟨h.target.1, hline⟩ hone hone
  rw [parseQueryString_plain stale fun hc => (h.target.2 _ hc).2 rfl] at huri
  refine ⟨(valid_iff stale _).2 hreq, ?_, ?_, ?_⟩
  · rw [htext]
    exact hmethod
  · rw [htext]
    exact huri
  · -- the blank line in front of the body ends the line before it, a header or not
    have hblank : ∃ a, requestText method target headers body = a ++ str "\r\n\r\n" ++ body := by
      rcases headers.eq_nil_or_concat with rfl | ⟨hs, h, rfl⟩
      · exact ⟨method ++ str " " ++ target ++ str " HTTP/1.1", by simp [requestText, str]⟩
      · exact ⟨method ++ str " " ++ target ++ str " HTTP/1.1\r\n" ++ hs.flatMap headerLine ++ h.1 ++ str ": " ++ h.2,
          by simp [requestText, headerLine, str]⟩
    obtain ⟨a, ha⟩ := hblank
    rw [requestBody_valid stale hreq, ha]
    exact parseBody_line a h.body

/-! ## Answers -/

/-- What is handed to `success`. -/
inductive Data
  | object (members : List (Str × Str))
  | array (elements : List Str)
  | text (body : Str)
deriving DecidableEq

/-- The name of a header is read in any case. -/
def isContentType (header : Str × Str) : Bool := header.1.map toLower = str "content-type"

/-- The data of a body, by its type. Of JSON, only arrays and objects of strings are read. -/
def dataOf (contentType body : Str) : Option Data :=
  if str "json" <:+: contentType then
    ((Json.strings body).map .array).or ((Json.members body).map .object)
  else some (.text body)

/-- The data for `success`, or `none` if `error` is called instead. -/
def ajax (bytes : Str) : Option Data := do
  let (code, headers, body) ← decodeResponse bytes
  if 200 ≤ code ∧ code < 300 then dataOf (((headers.find? isContentType).map Prod.snd).getD []) body else none

/-- The default headers that leave an answer its type. -/
structure Untyped (calls : List (Str × Str)) : Prop where
  plain : ∀ call ∈ calls, PlainHeader call
  untyped : ∀ call ∈ calls, isContentType call = false

theorem untyped_nil : Untyped [] := ⟨fun _ h => absurd h List.not_mem_nil, fun _ h => absurd h List.not_mem_nil⟩

theorem headers_nil : [].Perm (defaultHeaders []) := .refl _

theorem order_id (l : List (Str × Str)) : (id l).Perm l := .refl l

theorem isContentType_type (value : Str) : isContentType (str "Content-Type", value) = true :=
  decide_eq_true (show (str "Content-Type").map toLower = str "content-type" by decide)

/-- No default header has a name that a test is true of, if it is false of them all. -/
theorem lookup_unset {calls : List (Str × Str)} {test : Str × Str → Bool} (hc : ∀ call ∈ calls, test call = false)
    {name : Str} (htest : ∀ value, test (name, value) = true) : calls.reverse.lookup name = none := by
  by_contra hne
  obtain ⟨v, hv⟩ := Option.ne_none_iff_exists'.1 hne
  have := hc _ (List.mem_reverse.1 (mem_of_lookup hv))
  rw [htest] at this
  cases this

theorem Untyped.lookup_type {calls : List (Str × Str)} (h : Untyped calls) :
    calls.reverse.lookup (str "Content-Type") = none :=
  lookup_unset h.untyped isContentType_type

section Sent
variable {calls headers : List (Str × Str)} (horder : headers.Perm (defaultHeaders calls))
  {visit : List (Str × Str) → List (Str × Str)} (hvisit : ∀ l, (visit l).Perm l) {r : Response}
include horder hvisit

/-- What a session writes of a handler's answer is read back. -/
theorem decode_bare (hc : ∀ call ∈ calls, PlainHeader call) (hr : Bare r) :
    decodeResponse ((sent headers (.ok r)).generateResponse visit) =
      some (r.statusCode, visit (sent headers (.ok r)).responseHeaders, r.responseBody) := by
  obtain ⟨-, name, value, hname, hvalue, hall⟩ := headers_sent horder (x := .ok r) fun output h => by
    cases h
    exact hr
  have hplain : PlainHeader (name, value) := by
    rcases hname with rfl | rfl
    · exact ⟨show ∀ c ∈ str "Content-Type", notEol c by decide, hvalue, show ¬ str ": " <:+: str "Content-Type" by decide⟩
    · exact ⟨show ∀ c ∈ str "Location", notEol c by decide, hvalue, show ¬ str ": " <:+: str "Location" by decide⟩
  have hsent : sent headers (.ok r) = ⟨r.statusCode, rebindAll r.responseHeaders headers, r.responseBody⟩ :=
    applyDefaultHeaders_eq headers r
  rw [decode_generate visit _ fun h hh => (hall h ((hvisit _).subset hh)).elim (hc h) fun he => he ▸ hplain, hsent]

/-- The header that the handler gave is found by its name, wherever it is, if no
default header has that name. -/
theorem find?_sent {test : Str × Str → Bool} (hc : ∀ call ∈ calls, test call = false) {name value : Str}
    (hr : r.responseHeaders = [(name, value)]) (hbare : Bare r) (htest : ∀ value, test (name, value) = true) :
    (visit (sent headers (.ok r)).responseHeaders).find? test = some (name, value) := by
  have hcall : ∀ {header}, test header = true → header ∉ calls := fun ht hmem =>
    Bool.false_ne_true ((hc _ hmem).symm.trans ht)
  have hmem : (name, value) ∈ (sent headers (.ok r)).responseHeaders := by
    refine mem_of_lookup ?_
    rw [valued_sent horder _ _ rfl, lookup_unset hc htest, hr]
    simp
  obtain ⟨-, name', value', -, -, hall⟩ := headers_sent horder (x := .ok r) fun output h => by
    cases h
    exact hbare
  obtain ⟨h, hh⟩ := Option.isSome_iff_exists.1 (List.find?_isSome.2 ⟨_, (hvisit _).symm.subset hmem, htest value⟩)
  have hfound := (hall h ((hvisit _).subset (List.mem_of_find?_eq_some hh))).resolve_left (hcall (List.find?_some hh))
  rw [hh, hfound, (hall _ hmem).resolve_left (hcall (htest value))]

/-- A page gets the data that a handler has answered with, if that reports a success. -/
theorem ajax_sent (hc : Untyped calls) (code : Nat) {contentType : Str} (htype : ∀ c ∈ contentType, notEol c)
    (body : Str) : ajax ((sent headers (.ok (respond code contentType body))).generateResponse visit) =
      if 200 ≤ code ∧ code < 300 then dataOf contentType body else none := by
  have hbare := bare_respond code htype body
  unfold ajax
  rw [decode_bare horder hvisit hc.plain hbare]
  simp only [Option.bind_eq_bind, Option.bind_some, find?_sent horder hvisit hc.untyped rfl hbare isContentType_type,
    Option.map_some, Option.getD_some]
  rfl

end Sent

end GittyUp.Client
