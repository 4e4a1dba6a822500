import GittyUp.Http.Response
import GittyUp.Lib.Cut
import GittyUp.Lib.Regex
/-!
# The framing of a response

A client's reading of a response: cut it at the first blank line, the head into
lines, and each header at its first ": ". `decode_generate` says that this gives
back what was generated, whatever the order of the headers, if the headers are
plain.
-/
open Lib

namespace GittyUp.Http

/-! ## Reading a response -/

def crlf : Str := [carriageReturn, lineFeed]

def decodeStatus (line : Str) : Option Nat :=
  if str "HTTP/1.1 " <+: line ∧ (line.drop 9).takeWhile isDigit ≠ [] then
    some (digitsVal ((line.drop 9).takeWhile isDigit))
  else none

def decodeHead (head : Str) : Option (Nat × List (Str × Str)) :=
  match pieces crlf head.length head with
  | [] => none
  | line :: lines => do return (← decodeStatus line, ← lines.mapM (cutAt (str ": ")))

/-- The status code, the headers and the body. -/
def decodeResponse (bytes : Str) : Option (Nat × List (Str × Str) × Str) := do
  let (head, body) ← cutAt (crlf ++ crlf) bytes
  let (code, headers) ← decodeHead head
  return (code, headers, body)

/-! ## Plain headers -/

/-- A header that a line can hold, with a name that ends at the first ": ". -/
structure PlainHeader (h : Str × Str) : Prop where
  name : ∀ c ∈ h.1, notEol c
  value : ∀ c ∈ h.2, notEol c
  whole : ¬ str ": " <:+: h.1

def headerText (h : Str × Str) : Str := h.1 ++ str ": " ++ h.2

/-- The first ": " of a header's text is the one behind its name. -/
theorem headerText_cut {h : Str × Str} (hw : ¬ str ": " <:+: h.1) : cutAt (str ": ") (headerText h) = some h := by
  unfold headerText
  rw [List.append_assoc, cutAt_skip, cutAt_here]
  · simp
  · intro u v e hv hpre
    rcases v with _ | ⟨c, _ | ⟨d, v⟩⟩
    · exact hv rfl
    · -- behind the last byte of the name comes a ':'
      exact absurd (List.cons_prefix_cons.1 (List.cons_prefix_cons.1 hpre).2).1 (by decide)
    · have h2 : str ": " = [c, d] := List.prefix_iff_eq_take.1 hpre
      exact hw ⟨u, v, by rw [h2, e, List.append_assoc]; rfl⟩

/-- A header that may have returns in it, but does not end its line. -/
structure Lined (h : Str × Str) : Prop where
  name : lineFeed ∉ h.1
  value : lineFeed ∉ h.2
  whole : ¬ str ": " <:+: h.1

theorem PlainHeader.lined {h : Str × Str} (hp : PlainHeader h) : Lined h :=
  ⟨fun hc => (notEol_ne (hp.name _ hc)).1 rfl, fun hc => (notEol_ne (hp.value _ hc)).1 rfl, hp.whole⟩

theorem Lined.line {h : Str × Str} (hl : Lined h) : headerText h ≠ [] ∧ lineFeed ∉ headerText h := by
  refine ⟨by simp [headerText, str], ?_⟩
  unfold headerText
  simp only [List.mem_append]
  rintro ((hc | hc) | hc)
  · exact hl.name hc
  · exact absurd hc (by decide)
  · exact hl.value hc

theorem lines_of_lined {hs : List (Str × Str)} (h : ∀ header ∈ hs, Lined header) :
    ∀ l ∈ hs.map headerText, l ≠ [] ∧ lineFeed ∉ l := by
  intro l hl
  obtain ⟨x, hx, rfl⟩ := List.mem_map.1 hl
  exact (h x hx).line

/-! ## The head -/

/-- A status line without its end. -/
def statusText (code : Nat) : Str := str "HTTP/1.1 " ++ dec code ++ str " " ++ Response.getStatusWord code

theorem statusText_line (code : Nat) : lineFeed ∉ statusText code := by
  have hword : lineFeed ∉ Response.getStatusWord code := by
    unfold Response.getStatusWord
    split <;> decide
  unfold statusText
  simp only [List.mem_append]
  rintro (((hc | hc) | hc) | hc)
  · exact absurd hc (by decide)
  · exact absurd (dec_digits code _ hc) (by decide)
  · exact absurd hc (by decide)
  · exact hword hc

theorem decodeStatus_text (code : Nat) : decodeStatus (statusText code) = some code := by
  have hstop : StopsAt isDigit (str " " ++ Response.getStatusWord code) := by
    intro c hc
    cases hc
    decide
  have hdrop : (statusText code).drop 9 = dec code ++ (str " " ++ Response.getStatusWord code) := by
    simp [statusText, str]
  have hpre : str "HTTP/1.1 " <+: statusText code := by
    unfold statusText
    rw [List.append_assoc, List.append_assoc]
    exact List.prefix_append _ _
  unfold decodeStatus
  rw [hdrop, takeWhile_run (dec_digits code) hstop, if_pos ⟨hpre, dec_ne_nil code⟩, digitsVal_dec]

/-- Behind a line end, a line that is not empty is skipped with it. -/
theorem cutAt_line {l rest : Str} (hne : l ≠ []) (hl : lineFeed ∉ l) (hrest : rest.head? = some carriageReturn) :
    cutAt (crlf ++ crlf) (crlf ++ (l ++ rest)) =
      (cutAt (crlf ++ crlf) (l ++ rest)).map fun p => (crlf ++ p.1, p.2) := by
  have hreturn : ¬ crlf ++ crlf <+: carriageReturn :: lineFeed :: (l ++ rest) := by
    intro hp
    have hp := (List.cons_prefix_cons.1 (List.cons_prefix_cons.1 hp).2).2
    obtain ⟨c, l, rfl⟩ := List.exists_cons_of_ne_nil hne
    have hp := (List.cons_prefix_cons.1 hp).2
    rcases l with _ | ⟨d, l⟩
    · obtain ⟨rest, rfl⟩ := List.head?_eq_some_iff.1 hrest
      exact absurd (List.cons_prefix_cons.1 hp).1 (by decide)
    · exact hl (by rw [← (List.cons_prefix_cons.1 hp).1]; simp)
  have hfeed : ¬ crlf ++ crlf <+: lineFeed :: (l ++ rest) := fun hp =>
    absurd (List.cons_prefix_cons.1 hp).1 (by decide)
  show cutAt (crlf ++ crlf) (carriageReturn :: lineFeed :: (l ++ rest)) = _
  rw [cutAt_cons hreturn, cutAt_cons hfeed, Option.map_map]
  rfl

/-- The blank line is the first place where one line end follows another. -/
theorem cutAt_head {w : Str} {lines : List Str} (hw : lineFeed ∉ w) (hl : ∀ l ∈ lines, l ≠ [] ∧ lineFeed ∉ l)
    (body : Str) :
    cutAt (crlf ++ crlf) (w ++ (lines.flatMap (crlf ++ ·) ++ (crlf ++ crlf ++ body))) =
      some (w ++ lines.flatMap (crlf ++ ·), body) := by
  induction lines generalizing w with
  | nil =>
    rw [List.flatMap_nil, List.nil_append, List.append_nil]
    exact cutAt_pair hw (by decide) body
  | cons l lines ih =>
    obtain ⟨hne, hlf⟩ := hl l (by simp)
    have ih := ih hlf fun x hx => hl x (List.mem_cons_of_mem _ hx)
    have hrest : (lines.flatMap (crlf ++ ·) ++ (crlf ++ crlf ++ body)).head? = some carriageReturn := by
      cases lines <;> rfl
    rw [List.flatMap_cons, List.append_assoc, List.append_assoc]
    refine (cutAt_skip_pair hw ?_).trans ?_
    · exact fun h => absurd (Option.some.inj h) (by decide)
    · show Option.map _ (cutAt (crlf ++ crlf) (crlf ++ (l ++ _))) = _
      rw [cutAt_line hne hlf hrest, ih]
      simp

/-- Line ends behind the lines are line ends between them. -/
theorem shift_crlf (lines : List Str) : crlf ++ lines.flatMap (· ++ crlf) = lines.flatMap (crlf ++ ·) ++ crlf := by
  induction lines with
  | nil => rfl
  | cons l lines ih => rw [List.flatMap_cons, List.flatMap_cons, List.append_assoc, ih]; simp

theorem mapM_cut {hs : List (Str × Str)} (h : ∀ header ∈ hs, Lined header) :
    (hs.map headerText).mapM (cutAt (str ": ")) = some hs := by
  induction hs with
  | nil => rfl
  | cons x hs ih =>
    rw [List.map_cons, List.mapM_cons, headerText_cut (h x List.mem_cons_self).whole,
      ih fun y hy => h y (List.mem_cons_of_mem _ hy)]
    rfl

theorem decodeHead_text {code : Nat} {hs : List (Str × Str)} (h : ∀ header ∈ hs, Lined header) :
    decodeHead (statusText code ++ (hs.map headerText).flatMap (crlf ++ ·)) = some (code, hs) := by
  have hlen : ∀ lines : List Str, lines.length ≤ (lines.flatMap (crlf ++ ·)).length := by
    intro lines
    induction lines with
    | nil => simp
    | cons l lines ih =>
      rw [List.flatMap_cons, List.length_append, List.length_append, List.length_cons, show crlf.length = 2 from rfl]
      omega
  have hline : ∀ l ∈ statusText code :: hs.map headerText, lineFeed ∉ l := by
    intro l hl
    rcases List.mem_cons.1 hl with rfl | hl
    · exact statusText_line code
    · exact (lines_of_lined h l hl).2
  have hp : pieces crlf (statusText code ++ (hs.map headerText).flatMap (crlf ++ ·)).length
      (statusText code ++ (hs.map headerText).flatMap (crlf ++ ·)) = statusText code :: hs.map headerText :=
    pieces_lines (fun l hl => cutAt_pair (hline l hl) (by decide)) (fun l hl => cutAt_none_pair (hline l hl))
      (by rw [List.length_append]; exact (hlen _).trans (Nat.le_add_left _ _))
  unfold decodeHead
  rw [hp]
  simp only [decodeStatus_text, mapM_cut h]
  rfl

/-! ## A whole response -/

/-- The bytes of a response with this status line. -/
def responseText (statusLine : Str) (headers : List (Str × Str)) (body : Str) : Str :=
  statusLine ++ crlf ++ (headers.map headerText).flatMap (· ++ crlf) ++ crlf ++ body

theorem responseText_eq (statusLine : Str) (headers : List (Str × Str)) (body : Str) :
    responseText statusLine headers body = statusLine ++ ((headers.map headerText).flatMap (crlf ++ ·) ++ (crlf ++ crlf ++ body)) := by
  have := shift_crlf (headers.map headerText)
  rw [← List.append_assoc, ← List.append_assoc, ← List.append_assoc, List.append_assoc statusLine, ← this]
  simp only [responseText, List.append_assoc]

theorem generateResponse_text (visit : List (Str × Str) → List (Str × Str)) (r : Response) :
    r.generateResponse visit = responseText (statusText r.statusCode) (visit r.responseHeaders) r.responseBody := by
  have hlines : (fun h : Str × Str => headerText h ++ crlf) = fun h => h.1 ++ str ": " ++ h.2 ++ str "\r\n" := rfl
  unfold Response.generateResponse Response.generateHeaderLines responseText
  rw [show r.generateStatusLine = statusText r.statusCode ++ crlf from rfl, List.flatMap_map, ← hlines]
  simp only [List.append_assoc]
  rfl

theorem decode_text {code : Nat} {hs : List (Str × Str)} (h : ∀ header ∈ hs, Lined header) (body : Str) :
    decodeResponse (responseText (statusText code) hs body) = some (code, hs, body) := by
  unfold decodeResponse
  rw [responseText_eq, cutAt_head (statusText_line _) (lines_of_lined h)]
  simp [decodeHead_text h]

/-- What is generated is read back: the status code, the headers in the order in
which they were visited, and the body. -/
theorem decode_generate (visit : List (Str × Str) → List (Str × Str)) (r : Response)
    (h : ∀ header ∈ visit r.responseHeaders, PlainHeader header) :
    decodeResponse (r.generateResponse visit) = some (r.statusCode, visit r.responseHeaders, r.responseBody) := by
  rw [generateResponse_text]
  exact decode_text (fun x hx => (h x hx).lined) _

end GittyUp.Http
