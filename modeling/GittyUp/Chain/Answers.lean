import GittyUp.Chain.Servers
/-!
# The answer of a chain

`chain_relays` is about any answer that comes back through all the proxies,
`chain_serves` about that of a server of this program. What a proxy has cut out of
a line may end in a return, so the lines of these answers are not plain.
-/
open Lib GittyUp.Http GittyUp.Config GittyUp.Router GittyUp.Handlers GittyUp.Client GittyUp.Echo GittyUp.Proxy
open GittyUp.Upstream GittyUp.Meme GittyUp.SqlLib

namespace GittyUp.Chain

/-! ## The answer of one proxy -/

/-- The type that the next proxy reads in a line of this type. -/
def passedType (t : Str) : Str :=
  substrTo (headerText (str "Content-Type", t) ++ [carriageReturn]) 14
    (find ';' (headerText (str "Content-Type", t) ++ [carriageReturn]))

/-- There is one line `Content-Type`, with the value `t`. -/
def TypedBy (headers : List (Str × Str)) (t : Str) : Prop :=
  ∃ pre post, headers = pre ++ (str "Content-Type", t) :: post ∧ ∀ h ∈ pre ++ post, h.1 ≠ str "Content-Type"

/-- Lines whose one type is `t`. -/
structure Typed (headers : List (Str × Str)) (t : Str) : Prop where
  lined : ∀ h ∈ headers, Lined h
  typed : TypedBy headers t

/-- An answer that a proxy passes on: not a redirection to another host, and its
type is given in one line. -/
structure Relayable (code : ℕ) (reason : Str) (headers : List (Str × Str)) (t : Str) : Prop where
  small : code < 2 ^ 32
  stays : code ≠ 301 ∧ code ≠ 302
  line : lineFeed ∉ reason
  typed : Typed headers t

/-- A proxy's own answer is one of them. -/
theorem Typed.relayable {headers : List (Str × Str)} {t : Str} (h : Typed headers t) :
    Relayable 200 (str "OK") headers t :=
  ⟨by decide, by decide, by decide, h⟩

theorem Typed.line {headers : List (Str × Str)} {t : Str} (h : Typed headers t) : lineFeed ∉ t := by
  obtain ⟨hlined, pre, post, rfl, -⟩ := h
  exact (hlined (str "Content-Type", t) (by simp)).value

theorem Typed.ne_nil {headers : List (Str × Str)} {t : Str} (h : Typed headers t) : headers ≠ [] := by
  obtain ⟨-, pre, post, rfl, -⟩ := h
  simp

theorem headerTurn_lined {h : Str × Str} (hl : Lined h) (hne : h.1 ≠ str "Content-Type") (mimeType : Str) :
    headerTurn mimeType (headerText h ++ [carriageReturn]) = mimeType := by
  have hno : ¬ str "Content-Type: " <+: headerText h ++ [carriageReturn] := by
    rintro ⟨t, ht⟩
    -- the first ": " of the line is behind the name
    have hcut := cutAt_extend (headerText_cut hl.whole) [carriageReturn]
    rw [← ht, show str "Content-Type: " ++ t = str "Content-Type" ++ (str ": " ++ t) from rfl] at hcut
    have hcolon : ((':' : Char) : Byte) ∉ str "Content-Type" := by decide
    have hname := (cutAt_mem hcolon t).symm.trans hcut
    exact hne (congrArg Prod.fst (Option.some.inj hname)).symm
  unfold headerTurn
  rw [if_neg hno]
  exact ite_self _

theorem headerTurns_lined {hs : List (Str × Str)} (h : ∀ x ∈ hs, Lined x ∧ x.1 ≠ str "Content-Type") (mimeType : Str) :
    (hs.map headerText).foldl (fun m l => headerTurn m (l ++ [carriageReturn])) mimeType = mimeType := by
  induction hs with
  | nil => rfl
  | cons x hs ih =>
    rw [List.map_cons, List.foldl_cons, headerTurn_lined (h x List.mem_cons_self).1 (h x List.mem_cons_self).2]
    exact ih fun y hy => h y (List.mem_cons_of_mem _ hy)

/-- The type that is read in a header. -/
theorem Typed.read {headers : List (Str × Str)} {t : Str} (h : Typed headers t) (mimeType : Str) :
    (headers.map headerText).foldl (fun m l => headerTurn m (l ++ [carriageReturn])) mimeType = passedType t := by
  obtain ⟨hlined, pre, post, rfl, hne⟩ := h
  have hpre : ∀ x ∈ pre, Lined x ∧ x.1 ≠ str "Content-Type" := fun x hx =>
    ⟨hlined x (by simp [hx]), hne x (List.mem_append_left _ hx)⟩
  have hpost : ∀ x ∈ post, Lined x ∧ x.1 ≠ str "Content-Type" := fun x hx =>
    ⟨hlined x (by simp [hx]), hne x (List.mem_append_right _ hx)⟩
  rw [List.map_append, List.map_cons, List.foldl_append, List.foldl_cons, headerTurns_lined hpre,
    headerTurns_lined hpost, headerTurn_type]
  rfl

theorem passedType_untyped {t : Str} (h : (';' : Byte) ∉ t) (hsize : t.length + 15 < 2 ^ 63) :
    passedType t = t ++ [carriageReturn] := substrTo_untyped h hsize

theorem passedType_typed {t : Str} (h : (';' : Byte) ∈ t) (hsize : t.length + 15 < 2 ^ 31) :
    passedType t = mediaType t := by
  have hlen : (mediaType t).length ≤ t.length := (List.takeWhile_prefix _).length_le
  exact (substrTo_type (by omega)).2 ⟨h, by omega⟩

section Answer
variable (n : Node)

/-- What a client gets from a proxy whose upstream gave this type and this body:
its own default headers may say something else of the length, but not of the type. -/
def Passed (t body answer : Str) : Prop :=
  ∃ headers, answer = responseText (statusText 200) headers body ∧ Typed headers t ∧
    headers.lookup (str "Content-Length") = (n.calls.reverse.lookup (str "Content-Length")).or (some (dec body.length))

/-- One header of each name, and one of them is the type. -/
theorem typedBy_of_nodup {headers : List (Str × Str)} {t : Str} (hnodup : (headers.map Prod.fst).Nodup)
    (hmem : (str "Content-Type", t) ∈ headers) : TypedBy headers t := by
  obtain ⟨pre, post, rfl⟩ := List.append_of_mem hmem
  refine ⟨pre, post, rfl, fun x hx he => ?_⟩
  rw [List.map_append, List.map_cons, List.nodup_middle, List.nodup_cons, ← List.map_append] at hnodup
  exact hnodup.1 (List.mem_map.2 ⟨x, hx, he⟩)

theorem typed_order {headers : List (Str × Str)} {t : Str} (hnodup : (headers.map Prod.fst).Nodup)
    (hlined : ∀ x ∈ headers, Lined x) (ht : headers.lookup (str "Content-Type") = some t) :
    Typed (n.order headers) t := by
  have horder := n.order_perm headers
  refine ⟨fun x hx => hlined x (horder.subset hx), typedBy_of_nodup ?_ (horder.symm.subset (mem_of_lookup ht))⟩
  exact (horder.map Prod.fst).nodup_iff.2 hnodup

/-- The headers of an answer, in the order in which they are visited. -/
theorem typed_sent {r : Response} {t : Str} (hnodup : (r.responseHeaders.map Prod.fst).Nodup)
    (hlined : ∀ x ∈ r.responseHeaders, Lined x) (ht : r.responseHeaders.lookup (str "Content-Type") = some t) :
    Typed (n.order (applyDefaultHeaders n.headers r).responseHeaders) t ∧
      ∀ name, (n.order (applyDefaultHeaders n.headers r).responseHeaders).lookup name =
        (n.calls.reverse.lookup name).or (r.responseHeaders.lookup name) := by
  have hheaders : (applyDefaultHeaders n.headers r).responseHeaders = rebindAll r.responseHeaders n.headers := by
    rw [applyDefaultHeaders_eq]
  have hlookup : ∀ name, (applyDefaultHeaders n.headers r).responseHeaders.lookup name =
      (n.calls.reverse.lookup name).or (r.responseHeaders.lookup name) := valued_sent n.headers_perm (.ok r) r rfl
  have hnodup' : ((applyDefaultHeaders n.headers r).responseHeaders.map Prod.fst).Nodup := by
    rw [hheaders]
    exact nodup_rebindAll hnodup _
  have hlined' : ∀ x ∈ (applyDefaultHeaders n.headers r).responseHeaders, Lined x := by
    intro x hx
    rw [hheaders] at hx
    rcases mem_rebindAll hx with hx | hx
    · have hx := n.headers_perm.subset hx
      rw [defaultHeaders_eq] at hx
      exact (n.untyped.plain x ((mem_rebindAll hx).resolve_right List.not_mem_nil)).lined
    · exact hlined x hx
  refine ⟨typed_order n hnodup' hlined' (by rw [hlookup, n.untyped.lookup_type, ht]; rfl), fun name => ?_⟩
  rw [← lookup_perm (n.order_perm _).symm hnodup', hlookup]

/-- The two headers that a proxy sets. -/
theorem relayed_headers {t : Str} (ht : lineFeed ∉ t) (length : ℕ) :
    ∀ x ∈ [(str "Content-Type", t), (str "Content-Length", dec length)], Lined x := by
  intro x hx
  simp only [List.mem_cons, List.not_mem_nil, or_false] at hx
  rcases hx with rfl | rfl
  · exact ⟨show lineFeed ∉ str "Content-Type" by decide, ht, show ¬ str ": " <:+: str "Content-Type" by decide⟩
  · exact ⟨show lineFeed ∉ str "Content-Length" by decide,
      fun hc => (notEol_ne (isDigit_notEol (dec_digits _ _ hc))).1 rfl,
      show ¬ str ": " <:+: str "Content-Length" by decide⟩

theorem proxyResponse_fetched (beyond mimeType body : Str) (req : Request) :
    proxyResponse beyond ⟨body, false, mimeType⟩ req =
      ⟨200, [(str "Content-Type", mimeType), (str "Content-Length", dec body.length)], body⟩ := rfl

/-- What the proxy makes of an answer that reaches it. -/
theorem answer_passed {data first more rest : Str} (hvalid : (parseRequest n.stale data).valid = true) {code : ℕ}
    {reason t body : Str} {headers : List (Str × Str)} (ho : Relayable code reason headers t)
    (hline : lineFeed ∉ passedType t)
    (hd : Delivered (responseText (statusLine code reason) headers body) first more rest) :
    ∃ answer, n.answer data first more rest = some answer ∧ Passed n (passedType t) body answer := by
  have hfetched := sendGetRequest_text ho.small ho.line ho.typed.lined ho.typed.ne_nil hd []
  rw [ho.typed.read, decide_eq_false ho.stays.1, decide_eq_false ho.stays.2] at hfetched
  let r : Response := ⟨200, [(str "Content-Type", passedType t), (str "Content-Length", dec body.length)], body⟩
  obtain ⟨htyped, hlookup⟩ := typed_sent n (r := r) (show [str "Content-Type", str "Content-Length"].Nodup by decide)
    (relayed_headers hline body.length) rfl
  have hrelay : relay n.beyond (parseRequest n.stale data) first more rest =
      some r := by
    rw [relay, hfetched, Bool.or_self, Option.map_some, proxyResponse_fetched]
  refine ⟨_, by rw [Node.answer, hrelay]; exact Option.map_some _ _, ⟨_, ?_, htyped, hlookup _⟩⟩
  rw [generateResponse_text]
  unfold handleSuccess
  simp only [hvalid, if_true, applyDefaultHeaders_eq]
  rfl

end Answer

/-! ## The answer of a chain -/

theorem mediaType_untyped {t : Str} (h : (';' : Byte) ∉ t) : mediaType t = t :=
  List.takeWhile_eq_self_iff.2 fun _ hc => decide_eq_true fun e => h (e ▸ hc)

theorem not_mem_mediaType (t : Str) : (';' : Byte) ∉ mediaType t := by
  by_cases h : (';' : Byte) ∈ t
  · exact (mediaType_cut h).1
  · rwa [mediaType_untyped h]

/-- The returns that `k + 1` proxies leave behind a type. -/
def returns (t : Str) (k : ℕ) : Str := List.replicate (if (';' : Byte) ∈ t then k else k + 1) carriageReturn

/-- The first proxy cuts off the parameters, or takes the return. -/
theorem passedType_first {t : Str} (hsize : t.length + 15 < 2 ^ 31) : passedType t = mediaType t ++ returns t 0 := by
  unfold returns
  split_ifs with h
  · rw [passedType_typed h hsize, List.replicate_zero, List.append_nil]
  · rw [passedType_untyped h (by omega), mediaType_untyped h]
    rfl

/-- Each one behind it takes one more. -/
theorem passedType_next {t : Str} {k : ℕ} (hsize : t.length + k + 16 < 2 ^ 31) :
    passedType (mediaType t ++ returns t k) = mediaType t ++ returns t (k + 1) := by
  have hlen : (mediaType t).length ≤ t.length := (List.takeWhile_prefix _).length_le
  have hreturns : (returns t k).length ≤ k + 1 := by
    rw [returns, List.length_replicate]
    split_ifs <;> omega
  have hno : (';' : Byte) ∉ mediaType t ++ returns t k := by
    rw [List.mem_append]
    rintro (h | h)
    · exact not_mem_mediaType t h
    · exact absurd (List.eq_of_mem_replicate h) (by decide)
  have hsucc : returns t k ++ [carriageReturn] = returns t (k + 1) := by
    unfold returns
    split_ifs
    · exact List.replicate_succ'.symm
    · exact List.replicate_succ'.symm
  rw [passedType_untyped hno (by rw [List.length_append]; omega), List.append_assoc, hsucc]

theorem passed_line {t : Str} (h : lineFeed ∉ t) (k : ℕ) : lineFeed ∉ mediaType t ++ returns t k := by
  rw [List.mem_append]
  rintro (hc | hc)
  · exact h ((List.takeWhile_prefix _).subset hc)
  · exact absurd (List.eq_of_mem_replicate hc) (by decide)

section Chains
variable {net : Network} {code : ℕ} {reason t body : Str} {headers : List (Str × Str)}

/-- An answer can arrive in one part. -/
theorem Relayable.delivered (ho : Relayable code reason headers t) (body : Str) :
    let bytes := responseText (statusLine code reason) headers body
    Delivered bytes bytes [] [] := by
  intro bytes
  refine ⟨by rw [List.append_nil, List.append_nil], ?_, ?_⟩
  · have hcut : ∀ s, cutAt crlf (statusLine code reason ++ (crlf ++ s)) = some (statusLine code reason, s) :=
      cutAt_pair (statusLine_line code ho.line) (by decide)
    show (cutAt crlf (responseText _ _ _)).isSome
    rw [responseText, List.append_assoc, List.append_assoc, List.append_assoc, hcut]
    rfl
  · rw [List.append_nil]
    show (cutAt (crlf ++ crlf) (responseText _ _ _)).isSome
    rw [responseText_eq, cutAt_head (statusLine_line code ho.line) (lines_of_lined ho.typed.lined)]
    rfl

/-- What comes back through `k` proxies: the next one can pass it on. -/
def Brings (t body : Str) (k : ℕ) (bytes : Str) : Prop :=
  ∃ code reason headers t', bytes = responseText (statusLine code reason) headers body ∧
    Relayable code reason headers t' ∧ passedType t' = mediaType t ++ returns t k

theorem Relayable.brings (ho : Relayable code reason headers t) (hsize : t.length + 15 < 2 ^ 31) (body : Str) :
    Brings t body 0 (responseText (statusLine code reason) headers body) :=
  ⟨code, reason, headers, t, rfl, ho, passedType_first hsize⟩

theorem Passed.brings {n : Node} {k : ℕ} {answer : Str} (h : Passed n (mediaType t ++ returns t k) body answer)
    (hsize : t.length + k + 16 < 2 ^ 31) : Brings t body (k + 1) answer := by
  obtain ⟨hs, htext, htyped, -⟩ := h
  exact ⟨200, str "OK", hs, _, htext, htyped.relayable, passedType_next hsize⟩

theorem Brings.passed {n : Node} {x y : Sending} (hhop : Hop net n x y) {k : ℕ} {bytes first more rest : Str}
    (hb : Brings t body k bytes) (ht : lineFeed ∉ t) (hd : Delivered bytes first more rest) :
    ∃ answer, n.answer x.data first more rest = some answer ∧ Passed n (mediaType t ++ returns t k) body answer := by
  obtain ⟨code, reason, headers, t', rfl, ho, hnext⟩ := hb
  have := answer_passed n hhop.valid ho (hnext ▸ passed_line ht k) hd
  rwa [hnext] at this

theorem Brings.delivered {k : ℕ} {bytes : Str} (hb : Brings t body k bytes) : Delivered bytes bytes [] [] := by
  obtain ⟨code, reason, headers, t', rfl, ho, -⟩ := hb
  exact ho.delivered body

theorem fetched_brings (ho : Relayable code reason headers t) {k : ℕ} {x z : Sending} {answer : Str}
    (h : Fetched net (responseText (statusLine code reason) headers body) k x z answer)
    (hsize : t.length + k + 15 < 2 ^ 31) : Brings t body k answer ∧
      (k ≠ 0 → ∃ n, net x.address = some n ∧ Passed n (mediaType t ++ returns t (k - 1)) body answer) := by
  induction h with
  | here => exact ⟨ho.brings (by omega) body, fun h => absurd rfl h⟩
  | @hop k n x y z bytes first more rest answer hhop hf hd hans ih =>
    obtain ⟨answer', hans', hp⟩ := (ih (by omega)).1.passed hhop ho.typed.line hd
    cases hans.symm.trans hans'
    exact ⟨hp.brings (by omega), fun _ => ⟨n, hhop.listens, hp⟩⟩

/-- Every proxy on the way has an answer. -/
theorem fetched_exists (ho : Relayable code reason headers t) {k : ℕ} {x z : Sending} (h : Asked net k x z)
    (hsize : t.length + k + 15 < 2 ^ 31) :
    ∃ answer, Fetched net (responseText (statusLine code reason) headers body) k x z answer := by
  induction h with
  | here => exact ⟨_, .here⟩
  | hop hhop _ ih =>
    obtain ⟨bytes, hf⟩ := ih (by omega)
    have hb := (fetched_brings ho hf (by omega)).1
    obtain ⟨answer, hans, -⟩ := hb.passed hhop ho.typed.line hb.delivered
    exact ⟨answer, .hop hhop hf hb.delivered hans⟩

theorem TypedBy.lookup (h : TypedBy headers t) : headers.lookup (str "Content-Type") = some t := by
  obtain ⟨pre, post, rfl, hne⟩ := h
  have hpre : pre.lookup (str "Content-Type") = none := by
    by_contra hsome
    obtain ⟨v, hv⟩ := Option.ne_none_iff_exists'.1 hsome
    exact hne _ (List.mem_append_left _ (mem_of_lookup hv)) rfl
  rw [List.lookup_append, hpre]
  simp

/-- What a client can read when the answer has come through `k + 1` proxies. -/
def Relays (net : Network) (origin : Str) (k : ℕ) (x z : Sending) (type body : Str) : Prop :=
  (∃ answer, Fetched net origin (k + 1) x z answer) ∧ ∀ answer, Fetched net origin (k + 1) x z answer →
    ∃ n headers, net x.address = some n ∧ decodeResponse answer = some (200, headers, body) ∧
      headers.lookup (str "Content-Type") = some type ∧ headers.lookup (str "Content-Length") =
        (n.calls.reverse.lookup (str "Content-Length")).or (some (dec body.length))

theorem relays (ho : Relayable code reason headers t) {k : ℕ} {x z : Sending} (h : Asked net (k + 1) x z)
    (hsize : t.length + k + 16 < 2 ^ 31) (body : Str) :
    Relays net (responseText (statusLine code reason) headers body) k x z (mediaType t ++ returns t k) body := by
  refine ⟨fetched_exists ho h (by omega), fun answer hf => ?_⟩
  obtain ⟨n, hn, hpassed⟩ := (fetched_brings ho hf (by omega)).2 (Nat.succ_ne_zero k)
  obtain ⟨hs, rfl, htyped, hlength⟩ := hpassed
  exact ⟨n, hs, hn, decode_text htyped.lined body, htyped.typed.lookup, hlength⟩

/-- Through any number of proxies, and however the bytes arrive at each of them,
an answer keeps its body; its status becomes 200, and its type loses its
parameters and gets a return from every proxy that finds none. -/
theorem chain_relays (ho : Relayable code reason headers t) {k : ℕ} {x z : Sending} (h : Asked net (k + 1) x z)
    (hsize : t.length + k + 16 < 2 ^ 31) (body : Str) :
    Relays net (responseText (statusLine code reason) headers body) k x z (mediaType t ++ returns t k) body :=
  relays ho h hsize body

/-- That a page is missing is not told by the status any more. -/
theorem chain_relays_links : ∃ answer headers',
    Fetched links (responseText (statusLine 404 "Not Found") [(str "Content-Type", str "text/plain")] "no") 2 farRequest
      lastRequest answer ∧
    decodeResponse answer = some (200, headers', str "no") ∧
    headers'.lookup (str "Content-Type") = some (str "text/plain\r\r") := by
  have hlined : ∀ h ∈ [(str "Content-Type", str "text/plain")], Lined h := by
    intro h hh
    rw [List.mem_singleton.1 hh]
    exact ⟨show lineFeed ∉ str "Content-Type" by decide, show lineFeed ∉ str "text/plain" by decide,
      show ¬ str ": " <:+: str "Content-Type" by decide⟩
  have ho : Relayable 404 (str "Not Found") [(str "Content-Type", str "text/plain")] (str "text/plain") :=
    ⟨by decide, by decide, by decide, hlined, [], [], rfl, fun _ h => absurd h List.not_mem_nil⟩
  obtain ⟨⟨answer, hf⟩, hall⟩ := chain_relays ho asked_links (by decide) (str "no")
  obtain ⟨-, headers', -, hdecode, htype, -⟩ := hall answer hf
  exact ⟨answer, headers', hf, hdecode, htype⟩

end Chains

/-! ## A server of this program at the end -/

/-- What a session of the last server writes. -/
def Node.own (n : Node) (data : Str) (output : Except StdException Response) : Str :=
  (handleSuccess ⟨fun _ => output.map (applyDefaultHeaders n.headers), n.order, n.stale, n.beyond⟩
    data).generateResponse n.order

/-- A handler of the server, not its proxy, comes to `output`. -/
structure Handled {S : Type} (engine : S → Lib.Sql.Call → Lib.Sql.Reply → S → Prop) (n : Node) (host : Host)
    (recorder : Recorder) (data : Str) (output : Except StdException Response) : Prop where
  valid : (parseRequest n.stale data).valid = true
  handled : ∃ handler block p db db', handler ≠ .proxy ∧
    createHandler n.config n.routeMap n.visit (parseRequest n.stale data).uri = some (handler, block) ∧
    handleRequest host recorder handler block (parseRequest n.stale data) = some p ∧ Runs engine db p output db'

/-- A code, a type and a body. -/
def Own (r : Response) : Prop := ∃ code ∈ responseCodes, ∃ t ∈ contentTypes, ∃ body, r = respond code t body

theorem every_own : Every fun r => r.statusCode = 303 ∨ Own r where
  answers code hcode t ht body := .inr ⟨code, hcode, t, ht, body, rfl⟩
  redirects _ _ := .inl rfl

theorem responseCodes_plain : ∀ code ∈ responseCodes,
    code < 2 ^ 32 ∧ (code ≠ 301 ∧ code ≠ 302) ∧ lineFeed ∉ Response.getStatusWord code := by decide

theorem contentTypes_short : ∀ t ∈ contentTypes, lineFeed ∉ t ∧ (';' : Byte) ∉ t ∧ t.length < 100 := by decide

/-- What the session writes has the code and the body of the response, and its type. -/
theorem own_relayable {n : Node} {data : Str} (hvalid : (parseRequest n.stale data).valid = true)
    {output : Except StdException Response} (hown : ∀ r, output = .ok r → Own r) :
    ∃ code headers, ∃ t ∈ contentTypes, Relayable code (Response.getStatusWord code) headers t ∧
      (sent n.headers output).responseHeaders.lookup (str "Content-Type") = some t ∧
      n.own data output =
        responseText (statusLine code (Response.getStatusWord code)) headers (sent n.headers output).responseBody := by
  have htext : n.own data output = responseText (statusText (sent n.headers output).statusCode)
      (n.order (sent n.headers output).responseHeaders) (sent n.headers output).responseBody := by
    rw [Node.own, generateResponse_text]
    unfold handleSuccess
    simp only [hvalid, if_true]
    cases output <;> rfl
  have hone : ∀ {t : Str}, lineFeed ∉ t → ∀ x ∈ [(str "Content-Type", t)], Lined x := by
    intro t ht x hx
    rw [List.mem_singleton.1 hx]
    exact ⟨show lineFeed ∉ str "Content-Type" by decide, ht, show ¬ str ": " <:+: str "Content-Type" by decide⟩
  have relayable : ∀ {code headers t}, code ∈ responseCodes → Typed headers t →
      Relayable code (Response.getStatusWord code) headers t := fun hcode htyped =>
    have hplain := responseCodes_plain _ hcode
    ⟨hplain.1, hplain.2.1, hplain.2.2, htyped⟩
  cases output with
  | error e =>
    have htyped : Typed (n.order errorResponse.responseHeaders) (str "text/plain") :=
      typed_order n (by decide) (hone (by decide)) rfl
    exact ⟨500, _, str "text/plain", by decide, relayable (by decide) htyped, rfl, htext⟩
  | ok r =>
    obtain ⟨code, hcode, t, ht, body, rfl⟩ := hown r rfl
    obtain ⟨htyped, hlookup⟩ := typed_sent n (r := respond code t body) (List.pairwise_singleton ..)
      (hone (contentTypes_short t ht).1) rfl
    have hstatus : (applyDefaultHeaders n.headers (respond code t body)).statusCode = code := by
      rw [applyDefaultHeaders_eq]
      rfl
    refine ⟨code, _, t, ht, relayable hcode htyped, ?_, ?_⟩
    · rw [valued_sent n.headers_perm (.ok (respond code t body)) _ rfl, n.untyped.lookup_type]
      rfl
    · rw [htext]
      show responseText (statusText (applyDefaultHeaders _ _).statusCode) _ _ = _
      rw [hstatus]
      rfl

/-- Whatever handler the last server answers with, but for a redirection, a client
reads the same body through any number of proxies as it would from that server. -/
theorem chain_serves {S : Type} {engine : S → Lib.Sql.Call → Lib.Sql.Reply → S → Prop} {net : Network} {k : ℕ}
    {x z : Sending} (h : Asked net (k + 1) x z) (hk : k < 2 ^ 30) {n : Node} {host : Host} {recorder : Recorder}
    {output : Except StdException Response} (hs : Handled engine n host recorder z.data output)
    (hstay : ∀ r, output = .ok r → r.statusCode ≠ 303) :
    ∃ t, (sent n.headers output).responseHeaders.lookup (str "Content-Type") = some t ∧
      Relays net (n.own z.data output) k x z (t ++ List.replicate (k + 1) carriageReturn)
        (sent n.headers output).responseBody := by
  have hown : ∀ r, output = .ok r → Own r := by
    rintro r rfl
    obtain ⟨handler, block, p, db, db', hproxy, -, hp, hrun⟩ := hs.handled
    exact ((every_own.handleRequest hproxy hp).runs hrun).resolve_left (hstay r rfl)
  obtain ⟨code, headers, t, ht, hrel, hlookup, htext⟩ := own_relayable hs.valid hown
  obtain ⟨-, hplain, hshort⟩ := contentTypes_short t ht
  have hrelays := relays hrel h (by omega) (sent n.headers output).responseBody
  rw [returns, if_neg hplain, mediaType_untyped hplain, ← htext] at hrelays
  exact ⟨t, hlookup, hrelays⟩


def missing : Response := respond 404 "text/plain" "The requested resource at /x/ could not be found!"

/-- Behind the links is a server without routes. -/
theorem handled_last : Handled (fun (_ : Unit) _ _ _ => False) (server [] [])
    ⟨[], fun _ => none, [], [], fun _ _ => .error .invalidArgument⟩ ⟨[], []⟩ lastRequest.data (.ok missing) := by
  have huri : (parseRequest (server [] []).stale lastRequest.data).uri = str "/x/" := by decide +kernel
  have hmissing : generate404Response (parseRequest (server [] []).stale lastRequest.data) = missing := by
    unfold generate404Response
    rw [huri]
    rfl
  refine ⟨by decide +kernel, .default, none, _, (), (), by decide, ?_, rfl, ?_⟩
  · rw [huri]
    rfl
  · rw [hmissing]
    exact .ret

theorem chain_serves_links : ∃ answer headers,
    Fetched links ((server [] []).own lastRequest.data (.ok missing)) 2 farRequest lastRequest answer ∧
      decodeResponse answer = some (200, headers, missing.responseBody) := by
  have hstay : ∀ r, (Except.ok missing : Except StdException Response) = .ok r → r.statusCode ≠ 303 := by
    rintro r ⟨⟩
    decide
  obtain ⟨t, -, ⟨answer, hf⟩, hall⟩ := chain_serves asked_links (by decide) handled_last hstay
  obtain ⟨-, headers, -, hdecode, -⟩ := hall answer hf
  exact ⟨answer, headers, hf, hdecode⟩

end GittyUp.Chain
