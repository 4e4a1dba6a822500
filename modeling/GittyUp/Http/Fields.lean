import GittyUp.Http.Head
/-!
# The fields of a request

What `get_header` and `get_body` of `src/request.cc` return for a request that is
put together from header lines and a body. The name of a header is taken as long
as it can be, and a body is looked for within one line.
-/
open Lib

namespace GittyUp.Http

/-! ## Headers -/

/-- A name without a colon, and a value. -/
def HeaderField (h : Str × Str) : Prop :=
  (h.1 ≠ [] ∧ ∀ c ∈ h.1, notEol c ∧ c ≠ ':') ∧ (h.2 ≠ [] ∧ ∀ c ∈ h.2, notEol c)

/-- There is a ": " with something behind it. -/
def Splits (value : Str) : Prop := ∃ a b, value = a ++ str ": " ++ b ∧ b ≠ []

/-- What the expression makes of a header. -/
def readField (h : Str × Str) : Str × Str :=
  match splitLast h.2 with
  | some (a, b) => (h.1 ++ str ": " ++ a, b)
  | none => h

theorem splitLast_isSome_iff (s : Str) : (splitLast s).isSome ↔ Splits s := by
  constructor
  · intro h
    obtain ⟨⟨a, b⟩, hs⟩ := Option.isSome_iff_exists.1 h
    exact ⟨a, b, splitLast_eq hs⟩
  · rintro ⟨a, b, rfl, hb⟩
    induction a with
    | nil =>
      -- a ": " at the start, unless there is a later one
      show (splitLast ((':' : Char) :: (' ' : Char) :: b)).isSome
      rw [splitLast]
      split
      · rfl
      · rw [if_pos ⟨⟨b, rfl⟩, hb⟩]
        rfl
    | cons c a ih =>
      obtain ⟨x, hx⟩ := Option.isSome_iff_exists.1 ih
      show (splitLast (c :: (a ++ str ": " ++ b))).isSome
      rw [splitLast, hx]
      rfl

theorem splitLast_append {s a b : Str} (h : splitLast s = some (a, b)) (n : Str) :
    splitLast (n ++ s) = some (n ++ a, b) := by
  induction n with
  | nil => exact h
  | cons c n ih => rw [List.cons_append, splitLast, ih]; rfl

/-- A header line is read as some header. -/
theorem lineHeader_field {h : Str × Str} (hh : HeaderField h) :
    lineHeader (h.1 ++ str ": " ++ h.2) = some (readField h) := by
  obtain ⟨⟨hne, -⟩, hv, -⟩ := hh
  unfold lineHeader readField
  cases hs : splitLast h.2 with
  | some x =>
    rw [splitLast_append hs]
    simp [hne]
  | none =>
    have hsep : splitLast (str ": " ++ h.2) = some ([], h.2) := by
      have hblank : splitLast ((' ' : Char) :: h.2) = none := by
        rw [splitLast, hs]
        refine if_neg fun hp => ?_
        obtain ⟨⟨t, ht⟩, -⟩ := hp
        exact absurd (List.cons.inj ht).1 (by decide)
      show splitLast ((':' : Char) :: (' ' : Char) :: h.2) = some ([], h.2)
      rw [splitLast, hblank]
      exact if_pos ⟨⟨h.2, rfl⟩, hv⟩
    rw [List.append_assoc, splitLast_append hsep, List.append_nil]
    simp [hne]

/-- The lines behind the request line, one header for each. -/
theorem headersIn_lines {headers : List (Str × Str)} (hh : ∀ h ∈ headers, HeaderField h) (body : Str) :
    headersIn (lineFeed :: (headers.flatMap headerLine ++ str "\r\n" ++ body)) =
      headers.map readField ++ bodyHeaders body := by
  induction headers with
  | nil => rfl
  | cons h headers ih =>
    have ih := ih fun h' hh' => hh h' (List.mem_cons_of_mem _ hh')
    have hf := hh h List.mem_cons_self
    have hline : ∀ c ∈ h.1 ++ str ": " ++ h.2, notEol c := by
      intro c hc
      simp only [List.mem_append] at hc
      rcases hc with (hc | hc) | hc
      · exact (hf.1.2 c hc).1
      · revert c
        decide
      · exact hf.2.2 c hc
    generalize hmore : headers.flatMap headerLine ++ str "\r\n" ++ body = more at ih
    have htext : (h :: headers).flatMap headerLine ++ str "\r\n" ++ body =
        (h.1 ++ str ": " ++ h.2) ++ carriageReturn :: (lineFeed :: more) := by
      rw [← hmore]
      simp [headerLine, str, carriageReturn, lineFeed]
    have hstop : StopsAt notEol (carriageReturn :: (lineFeed :: more)) := by
      rintro _ ⟨rfl⟩
      decide
    have hat : headerAt ((h.1 ++ str ": " ++ h.2) ++ carriageReturn :: (lineFeed :: more)) = some (readField h) := by
      unfold headerAt
      rw [dropWhile_run hline hstop, takeWhile_run hline hstop, lineHeader_field hf]
      rfl
    rw [htext, headersIn, if_pos rfl, hat, headersIn_run fun c hc => (notEol_ne (hline c hc)).1, headersIn,
      if_neg (by decide), ih]
    rfl

theorem RequestLine.headersIn {line : Str} (hl : RequestLine line) {headers : List (Str × Str)}
    (hh : ∀ h ∈ headers, HeaderField h) (body : Str) :
    headersIn (line ++ str "\r\n" ++ headers.flatMap headerLine ++ str "\r\n" ++ body) =
      headers.map readField ++ bodyHeaders body := by
  have htext : line ++ str "\r\n" ++ headers.flatMap headerLine ++ str "\r\n" ++ body =
      (line ++ [carriageReturn]) ++ lineFeed :: (headers.flatMap headerLine ++ str "\r\n" ++ body) := by
    simp [str, carriageReturn, lineFeed]
  rw [htext, headersIn_run, headersIn_lines hh]
  intro c hc
  rcases List.mem_append.1 hc with hc | hc
  · exact (notEol_ne (hl.notEol c hc)).1
  · rw [List.mem_singleton.1 hc]
    decide

theorem readField_splits {h : Str × Str} (hs : Splits h.2) : ((':' : Char) : Byte) ∈ (readField h).1 ∧ (readField h).2 ≠ [] := by
  obtain ⟨⟨a, b⟩, hx⟩ := Option.isSome_iff_exists.1 ((splitLast_isSome_iff h.2).2 hs)
  unfold readField
  rw [hx]
  exact ⟨by simp [str], (splitLast_eq hx).2⟩

theorem readField_whole {h : Str × Str} (hs : ¬ Splits h.2) : readField h = h := by
  unfold readField
  rw [Option.not_isSome_iff_eq_none.1 (mt (splitLast_isSome_iff h.2).1 hs)]

/-- Each name gives the value of its first line, if and only if no value has a ": "
with something behind it. -/
theorem getHeader_first_iff (stale : Str → Str → Str) {line : Str} (hl : RequestLine line) {headers : List (Str × Str)}
    (hh : ∀ h ∈ headers, HeaderField h) :
    (∀ name, (parseRequest stale (line ++ str "\r\n" ++ headers.flatMap headerLine ++ str "\r\n")).getHeader name =
      (headers.lookup name).getD []) ↔ ∀ h ∈ headers, ¬ Splits h.2 := by
  have hr : Requests (line ++ str "\r\n" ++ headers.flatMap headerLine ++ str "\r\n") :=
    ⟨line, _, List.append_assoc _ _ _, hl⟩
  have hin : headersIn (line ++ str "\r\n" ++ headers.flatMap headerLine ++ str "\r\n") = headers.map readField := by
    have := hl.headersIn hh []
    rwa [List.append_nil, show bodyHeaders [] = [] from rfl, List.append_nil] at this
  simp only [getHeader_valid stale hr, hin]
  constructor
  · intro h x hx hs
    obtain ⟨hcolon, -⟩ := readField_splits hs
    -- the name that was read is the name of no line
    have hnone : headers.lookup (readField x).1 = none := by
      rw [← Option.not_isSome_iff_eq_none, lookup_isSome_iff]
      intro hm
      obtain ⟨y, hy, he⟩ := List.mem_map.1 hm
      rw [← he] at hcolon
      exact ((hh y hy).1.2 _ hcolon).2 rfl
    have hsome : ((headers.map readField).lookup (readField x).1).isSome := by
      rw [lookup_isSome_iff, List.map_map]
      exact List.mem_map_of_mem hx
    obtain ⟨v, hv⟩ := Option.isSome_iff_exists.1 hsome
    have hvalue : v ≠ [] := (mem_headersIn (hin ▸ mem_of_lookup hv)).2
    have := h (readField x).1
    rw [hv, hnone] at this
    exact hvalue this
  · intro h name
    rw [List.map_congr_left fun x hx => readField_whole (h x hx), List.map_id']

def refererLine : Str := "GET / HTTP/1.1"

theorem refererLine_requests : RequestLine refererLine :=
  ⟨"GET", "/", '1', '1', by decide, ⟨by decide, by decide⟩, ⟨by decide, by decide⟩, by decide, by decide⟩

theorem getHeader_first_host : (parseRequest (fun _ q => q) (refererLine ++ str "\r\n" ++
    [(str "Host", str "a:80"), (str "Host", str "b")].flatMap headerLine ++ str "\r\n")).getHeader "Host" = str "a:80" := by
  have hh : ∀ h ∈ [(str "Host", str "a:80"), (str "Host", str "b")], HeaderField h := by
    unfold HeaderField
    decide
  have hwhole : ∀ h ∈ [(str "Host", str "a:80"), (str "Host", str "b")], (splitLast h.2).isSome = false := by decide
  refine ((getHeader_first_iff _ refererLine_requests hh).2 (fun h hm hs => ?_) "Host").trans (by decide)
  rw [← splitLast_isSome_iff, hwhole h hm] at hs
  cases hs

/-- A value with a separator in it goes to a name of its own. -/
theorem getHeader_first_referer : HeaderField (str "Referer", str "a: b") ∧
    (parseRequest (fun _ q => q) (refererLine ++ str "\r\n" ++
      [(str "Referer", str "a: b")].flatMap headerLine ++ str "\r\n")).getHeader "Referer" = [] ∧
    (parseRequest (fun _ q => q) (refererLine ++ str "\r\n" ++
      [(str "Referer", str "a: b")].flatMap headerLine ++ str "\r\n")).getHeader "Referer: a" = str "b" := by
  refine ⟨by unfold HeaderField; decide, ?_, ?_⟩
  · decide +kernel
  · decide +kernel

/-! ## The body -/

/-- What is behind the last line of a text is found from its end. -/
theorem behindLast_unique {a b w v : Str} (hw : ∀ c ∈ w, notEol c) (hv : ∀ c ∈ v, notEol c)
    (h : a ++ str "\r\n\r\n" ++ w = b ++ str "\r\n\r\n" ++ v) : w = v := by
  have hend : ∀ {a w : Str}, (∀ c ∈ w, notEol c) →
      ((a ++ str "\r\n\r\n" ++ w).reverse).takeWhile notEol = w.reverse := by
    intro a w hw
    rw [List.append_assoc, List.reverse_append, List.reverse_append, List.append_assoc]
    refine takeWhile_run (fun c hc => hw c (List.mem_reverse.1 hc)) ?_
    rintro _ ⟨rfl⟩
    decide
  have := hend (a := a) hw
  rw [h, hend hv] at this
  exact (List.reverse_injective this).symm

/-- What is found is a last line that is not empty, behind a blank one. -/
theorem bodyRe_search {req : Str} {m : Captures} (h : bodyRe.search req = some m) :
    ∃ a w, req = a ++ str "\r\n\r\n" ++ w ∧ w ≠ [] ∧ (∀ c ∈ w, notEol c) ∧ Re.capture m 1 = w := by
  obtain ⟨a, b, s', rfl, _, _, ⟨t, _, hlit, _, hplus, rfl⟩, rfl, rfl, rfl⟩ := Re.search_sound h
  obtain ⟨rfl, rfl⟩ := Re.matches_lit.1 hlit
  obtain ⟨w, hne, hw, rfl, rfl⟩ := Re.matches_plus.1 hplus
  exact ⟨a, w, by simp [str], hne, hw, by simp [Re.capture]⟩

/-- And it is found if it is there. -/
theorem bodyRe_line (a : Str) {w : Str} (hne : w ≠ []) (hw : ∀ c ∈ w, notEol c) :
    (bodyRe.search (a ++ str "\r\n\r\n" ++ w)).isSome := by
  rw [Re.search_isSome_iff]
  refine ⟨a, str "\r\n\r\n" ++ w, List.append_assoc _ _ _, ?_⟩
  generalize (a ++ str "\r\n\r\n" ++ w).length = n
  have blank : (Re.lit '\r' "\n\r\n").Matches n (str "\r\n\r\n" ++ w) [] w [] := Re.matches_lit.2 ⟨rfl, rfl⟩
  have line : (Re.plus notEol).Matches n w [] [] [] :=
    Re.matches_plus.2 ⟨w, hne, hw, (List.append_nil w).symm, rfl⟩
  exact ⟨[], _, [], _, ⟨w, [], blank, [], line, rfl⟩, rfl, rfl, rfl⟩

theorem parseBody_line (a : Str) {w : Str} (hw : ∀ c ∈ w, notEol c) : parseBody (a ++ str "\r\n\r\n" ++ w) = w := by
  unfold parseBody
  cases h : bodyRe.search (a ++ str "\r\n\r\n" ++ w) with
  | none =>
    -- nothing is found in place of an empty body
    by_contra hne
    have := bodyRe_line a (Ne.symm hne) hw
    rw [h] at this
    cases this
  | some m =>
    obtain ⟨b, v, he, -, hv, hm⟩ := bodyRe_search h
    exact hm.trans (behindLast_unique hw hv he).symm

theorem parseBody_notEol (req : Str) : ∀ c ∈ parseBody req, notEol c := by
  unfold parseBody
  cases h : bodyRe.search req with
  | none => exact nofun
  | some m =>
    obtain ⟨-, w, -, -, hw, rfl⟩ := bodyRe_search h
    exact hw

theorem requestBody_valid (stale : Str → Str → Str) {data : Str} (h : Requests data) :
    (parseRequest stale data).requestBody = parseBody data := by
  have hv := (valid_iff stale data).2 h
  unfold parseRequest at hv ⊢
  split
  · rename_i hs
    rw [hs] at hv
    cases hv
  · rfl

/-- What is behind the head is the body if and only if it is a single line. -/
theorem getBody_iff (stale : Str → Str → Str) {head : Str} (h : Requests (head ++ str "\r\n\r\n")) (body : Str) :
    (parseRequest stale (head ++ str "\r\n\r\n" ++ body)).requestBody = body ↔ ∀ c ∈ body, notEol c := by
  rw [requestBody_valid stale ((requests_head head body).2 h)]
  constructor
  · intro he
    rw [← he]
    exact parseBody_notEol _
  · exact parseBody_line head

def postHead : Str := "POST /memes HTTP/1.1\r\nHost: a"

theorem postHead_requests : Requests (postHead ++ str "\r\n\r\n") :=
  ⟨"POST /memes HTTP/1.1", "Host: a\r\n\r\n", by decide +kernel, "POST", "/memes", '1', '1', by decide,
    ⟨by decide, by decide⟩, ⟨by decide, by decide⟩, by decide, by decide⟩

theorem getBody_form :
    (parseRequest (fun _ q => q) (postHead ++ str "\r\n\r\n" ++ str "a=b")).requestBody = str "a=b" :=
  (getBody_iff _ postHead_requests "a=b").2 (by decide)

/-- Of two lines nothing is left, and behind a blank line a part of the body. -/
theorem getBody_lines :
    (parseRequest (fun _ q => q) (postHead ++ str "\r\n\r\n" ++ str "a\r\nb")).requestBody = [] ∧
    (parseRequest (fun _ q => q) (postHead ++ str "\r\n\r\n" ++ str "a\r\n\r\nb")).requestBody = str "b" := by
  decide +kernel

end GittyUp.Http
