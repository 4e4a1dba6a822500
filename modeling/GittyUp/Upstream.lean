import GittyUp.Echo
import GittyUp.Http.Framing
import GittyUp.Lib.Like
import GittyUp.Proxy
/-!
# The proxy and its upstream

`constructGetRequest` and `sendGetRequest` of `src/reverse_proxy_handler.cc`: the
request that is sent, and what is taken from the bytes that come back, however
they arrive. `rewrite_iff` is about the path of the request, `relay_iff` about the
answer of an upstream that had no trouble.
-/
open Lib GittyUp.Http GittyUp.Echo GittyUp.Proxy

namespace GittyUp.Upstream

/-! ## The request -/

/-- What `sendGetRequest` writes to the socket. -/
def requestText (host path : Str) : Str :=
  str "GET " ++ path ++ str " HTTP/1.1\r\n" ++ str "Host: " ++ host ++ str "\r\n" ++ str "Accept: */*\r\n" ++
    str "Content-Base: " ++ host ++ str "\r\n" ++ str "Connection: close\r\n\r\n"

/-- Where it connects to, and what it writes there. -/
def sentRequest (before : Byte) (m : List (Str × Str)) (uri : Str) : Option (Str × Str) :=
  (constructGetRequest before m uri).map fun (host, path) => (host, requestText host path)

/-- The rest of the path with a slash at its end, as the code makes it. -/
def slashedTail (tail : Str) : Str := if tail.getLast? = some slash then tail else tail ++ [slash]

/-- What is looked up and what is sent for a URI behind a location of one segment. -/
theorem constructGetRequest_segment (before : Byte) (m : List (Str × Str)) {seg tail : Str} (hne : seg ≠ [])
    (hseg : slash ∉ seg) (htail : tail = [] ∨ tail.head? = some slash) :
    constructGetRequest before m (slash :: (seg ++ tail)) =
      (m.lookup (slash :: seg)).map fun host => (cStr host, cStr (slashedTail tail)) := by
  have hnot : ∀ c ∈ seg, decide (c ≠ slash) = true := fun c hc => decide_eq_true fun e => hseg (e ▸ hc)
  have hfirst : firstSegment (slash :: (seg ++ tail)) = slash :: seg := by
    rw [firstSegment, List.drop_one, List.tail_cons, takeWhile_run hnot]
    intro c hc
    rcases htail with rfl | ht
    · cases hc
    · rw [ht] at hc
      cases hc
      exact decide_eq_false fun h => h rfl
  have hlast : ((seg ++ tail).getLast?.getD before ≠ slash) ↔ tail.getLast? ≠ some slash := by
    rcases List.eq_nil_or_concat tail with rfl | ⟨t, c, rfl⟩
    · rw [List.append_nil, List.getLast?_eq_some_getLast hne]
      refine ⟨fun _ h => ?_, fun _ h => hseg ?_⟩
      · cases h
      · exact h ▸ List.getLast_mem hne
    · simp [List.concat_eq_append, ← List.append_assoc]
  have hslashed : slashed before (slash :: (seg ++ tail)) = some (seg ++ slashedTail tail) := by
    unfold slashed slashedTail
    dsimp only
    by_cases h : tail.getLast? = some slash
    · rw [if_neg (fun hl => hlast.1 hl h), if_pos h]
    · rw [if_pos (hlast.2 h), if_neg h, List.append_assoc]
  have hstart : ∃ t, slashedTail tail = slash :: t := by
    unfold slashedTail
    rcases htail with rfl | ht
    · exact ⟨[], rfl⟩
    · cases tail with
      | nil => cases ht
      | cons c t =>
        cases ht
        split_ifs
        · exact ⟨t, rfl⟩
        · exact ⟨t ++ [slash], rfl⟩
  obtain ⟨t, ht⟩ := hstart
  have hdrop : (seg ++ slashedTail tail).dropWhile (fun c => decide (c ≠ slash)) = slashedTail tail := by
    rw [ht]
    refine dropWhile_run hnot fun c hc => ?_
    cases hc
    exact decide_eq_false fun h => h rfl
  unfold constructGetRequest
  rw [findHost_eq before m (List.cons_ne_nil _ _), hfirst, hslashed]
  cases m.lookup (slash :: seg) with
  | none => rfl
  | some host =>
    simp only [Option.bind_eq_bind, Option.bind_some, Option.map_some, hdrop]
    exact if_pos (by rw [ht]; simp)

theorem requestText_injective {host path path' : Str} (h : requestText host path = requestText host path') :
    path = path' := by
  unfold requestText at h
  simp only [List.append_assoc] at h
  exact List.append_cancel_right (List.append_cancel_left h)

/-- The path behind the location is forwarded as it is if and only if it ends in a
slash or there is none, and what is forwarded has no NUL. -/
theorem rewrite_iff (before : Byte) {m : List (Str × Str)} {seg host : Str} (hne : seg ≠ []) (hseg : slash ∉ seg)
    (hm : m.lookup (slash :: seg) = some host) (tail : Str) (htail : tail = [] ∨ tail.head? = some slash) :
    sentRequest before m (slash :: (seg ++ tail)) =
        some (host, requestText host (if tail = [] then [slash] else tail)) ↔
      (∀ c ∈ host, c ≠ 0) ∧ (tail = [] ∨ tail.getLast? = some slash ∧ ∀ c ∈ tail, c ≠ 0) := by
  have hsent : sentRequest before m (slash :: (seg ++ tail)) =
      some (cStr host, requestText (cStr host) (cStr (slashedTail tail))) := by
    rw [sentRequest, constructGetRequest_segment before m hne hseg htail, hm]
    rfl
  have hself : ∀ s : Str, cStr s = s ↔ ∀ c ∈ s, c ≠ 0 := fun s => by
    have h := cStr_append_eq_iff s []
    rw [List.append_nil] at h
    exact h.trans (and_iff_left rfl)
  have hpath : cStr (slashedTail tail) = (if tail = [] then [slash] else tail) ↔
      tail = [] ∨ tail.getLast? = some slash ∧ ∀ c ∈ tail, c ≠ 0 := by
    by_cases h0 : tail = []
    · subst h0
      exact ⟨fun _ => .inl rfl, fun _ => rfl⟩
    · rw [if_neg h0, slashedTail]
      by_cases hl : tail.getLast? = some slash
      · rw [if_pos hl, hself]
        exact ⟨fun h => .inr ⟨hl, h⟩, fun h => (h.resolve_left h0).2⟩
      · rw [if_neg hl, cStr_append_eq_iff]
        constructor
        · rintro ⟨-, h⟩
          cases h
        · rintro (h | ⟨h, -⟩)
          · exact absurd h h0
          · exact absurd h hl
  rw [hsent, Option.some.injEq, Prod.mk.injEq, hself, ← hpath]
  constructor
  · rintro ⟨hh, ht⟩
    rw [(hself host).2 hh] at ht
    exact ⟨hh, requestText_injective ht⟩
  · rintro ⟨hh, hp⟩
    exact ⟨hh, by rw [(hself host).2 hh, hp]⟩

/-- A directory is forwarded. -/
theorem rewrite_directory : sentRequest 0 [(str "/ucla", str "www.ucla.edu")] (slash :: (str "ucla" ++ str "/a/")) =
    some (str "www.ucla.edu", requestText (str "www.ucla.edu") (str "/a/")) :=
  (rewrite_iff 0 (by simp [str]) (by decide) rfl (str "/a/") (.inr rfl)).2 ⟨by decide, .inr ⟨rfl, by decide⟩⟩

/-- A file is not: `/ucla/a.css` asks for `/a.css/`. -/
theorem rewrite_file : sentRequest 0 [(str "/ucla", str "www.ucla.edu")] "/ucla/a.css" =
    some (str "www.ucla.edu", requestText (str "www.ucla.edu") (str "/a.css/")) ∧
    requestText (str "www.ucla.edu") (str "/a.css/") ≠ requestText (str "www.ucla.edu") (str "/a.css") := by
  refine ⟨by decide +kernel, fun h => ?_⟩
  have := requestText_injective h
  revert this
  decide

/-! ## The response -/

/-- `operator>>` into a string: the word, and what is left. -/
def readWord (s : Str) : Str × Str := (s.dropWhile isSpace).span fun c => !isSpace c

/-- `operator>>` into an `unsigned int`: the value, whether the stream is still good,
and what is left. Where there is nothing to read the variable is not written. -/
def readUnsigned (s : Str) : Option (Nat × Bool × Str) :=
  match s.dropWhile isSpace with
  | [] => none
  | c :: s =>
    let (neg, s) := if c = '-' then (true, s) else if c = '+' then (false, s) else (false, c :: s)
    let (digits, rest) := s.span isDigit
    let n := digitsVal digits
    if digits = [] then some (0, false, rest)
    else if n < 2 ^ 32 then some (if neg then (2 ^ 32 - n) % 2 ^ 32 else n, true, rest)
    else some (2 ^ 32 - 1, false, rest)

/-- The status line: the code, whether the stream is still good, and what is left. -/
def readStatus (s : Str) : Option (Nat × Bool × Str) :=
  match readUnsigned (readWord s).2 with
  | none => none
  | some (code, false, s) => some (code, false, s)
  | some (code, true, s) =>
    match cutAt [lineFeed] s with
    | none => some (code, false, [])
    | some (_, s) => some (code, true, s)

/-- `find`, with `npos`. -/
def find (c : Byte) (s : Str) : Nat := (s.findIdx? (· = c)).getD (2 ^ 64 - 1)

/-- `substr` from `offset`, up to `stop`: an `int`, and then the difference is unsigned. -/
def substrTo (s : Str) (offset : Nat) (stop : Nat) : Str :=
  (s.drop offset).take (((stop : Int).bmod (2 ^ 32) - offset) % 2 ^ 64).toNat

/-- A line of the header. The length is only logged. -/
def headerTurn (mimeType header : Str) : Str :=
  if str "Content-Length: " <+: header then mimeType
  else if str "Content-Type: " <+: header then substrTo header 14 (find ';' header)
  else mimeType

/-- The loop over the lines, with the part of a line that has been read: the type
that it leaves, and what is behind the blank line. -/
def headerLoop : Str → Str → Str → Str × Str
  | mimeType, line, [] => (headerTurn mimeType line, [])
  | mimeType, line, c :: s =>
    if c = lineFeed then
      if line = [carriageReturn] then (mimeType, s) else headerLoop (headerTurn mimeType line) [] s
    else headerLoop mimeType (line ++ [c]) s

/-- `sendGetRequest`, where `first` is in the buffer after the first `read_until`,
`more` comes with the second one, and then `rest` until the connection is closed.
`none` is an exception, or a status code that was never set. -/
def sendGetRequest (mimeType : Str) (redirect : Bool) (first more rest : Str) : Option Fetched := do
  let _ ← cutAt crlf first
  let (code, good, s) ← readStatus first
  let _ ← cutAt (crlf ++ crlf) (s ++ more)
  let (mimeType, s) := if good then headerLoop mimeType [] (s ++ more) else (mimeType, s ++ more)
  return ⟨s ++ rest, redirect || code = 301 || code = 302, mimeType⟩

/-- `handle_request` on a new handler. -/
def relay (beyond : Str) (req : Request) (first more rest : Str) : Option Response :=
  (sendGetRequest [] false first more rest).map (proxyResponse beyond · req)

/-! ## A response without trouble -/

/-- A status line and lines `Name: Value`. -/
structure WellFormed (reason : Str) (headers : List (Str × Str)) : Prop where
  reason : ∀ c ∈ reason, notEol c
  names : ∀ h ∈ headers, ∀ c ∈ h.1, notEol c ∧ c ≠ ':'
  values : ∀ h ∈ headers, ∀ c ∈ h.2, notEol c

def upstreamStatus (reason : Str) : Str := str "HTTP/1.1 200 " ++ reason

def lower (name : Str) : Str := name.map toLower

/-- `name` is the name of the one line that gives the type, in whatever case. -/
structure TypeLine (pre : List (Str × Str)) (name : Str) (post : List (Str × Str)) : Prop where
  name : lower name = str "content-type"
  others : ∀ h ∈ pre ++ post, lower h.1 ≠ str "content-type"

/-- The bytes of the response. -/
def upstreamText (reason : Str) (headers : List (Str × Str)) (body : Str) : Str :=
  upstreamStatus reason ++ crlf ++ (headers.map headerText).flatMap (· ++ crlf) ++ crlf ++ body

/-- The bytes arrive in three parts, and each `read_until` finds what it waits for. -/
structure Delivered (bytes first more rest : Str) : Prop where
  whole : first ++ more ++ rest = bytes
  lineEnd : (cutAt crlf first).isSome
  blankLine : (cutAt (crlf ++ crlf) (first ++ more)).isSome

/-- The type without its parameters. -/
def mediaType (value : Str) : Str := value.takeWhile (· ≠ ';')

/-- The answer is the upstream's, and a client can read it. -/
structure Relayed (media body : Str) (r : Response) : Prop where
  content : r.responseBody = body
  contentType : r.responseHeaders.lookup (str "Content-Type") = some media
  line : ∀ c ∈ media, notEol c
  contentLength : r.responseHeaders.lookup (str "Content-Length") = some (dec body.length)
  framed : ∀ visit : List (Str × Str) → List (Str × Str), (∀ hs, (visit hs).Perm hs) →
    decodeResponse (r.generateResponse visit) = some (r.statusCode, visit r.responseHeaders, body)

theorem WellFormed.lines {reason : Str} {headers : List (Str × Str)} (h : WellFormed reason headers) :
    lineFeed ∉ reason ∧ ∀ x ∈ headers, Lined x := by
  refine ⟨fun hc => (notEol_ne (h.reason _ hc)).1 rfl, fun x hx => ?_⟩
  have hname := h.names x hx
  refine ⟨fun hc => (notEol_ne (hname _ hc).1).1 rfl, fun hc => (notEol_ne (h.values x hx _ hc)).1 rfl, fun hw => ?_⟩
  exact (hname ':' (hw.subset (by decide))).2 rfl

/-! ## Reading it -/

/-- A status line, which need not be that of a success. -/
def statusLine (code : Nat) (reason : Str) : Str := str "HTTP/1.1 " ++ dec code ++ str " " ++ reason

theorem statusLine_line (code : Nat) {reason : Str} (h : lineFeed ∉ reason) : lineFeed ∉ statusLine code reason := by
  unfold statusLine
  simp only [List.mem_append]
  rintro (((hc | hc) | hc) | hc)
  · exact absurd hc (by decide)
  · exact absurd (dec_digits code _ hc) (by decide)
  · exact absurd hc (by decide)
  · exact h hc

/-- The status line, with anything behind it. -/
theorem readStatus_ok {code : Nat} (hcode : code < 2 ^ 32) {reason : Str} (h : lineFeed ∉ reason) (t : Str) :
    readStatus (statusLine code reason ++ (crlf ++ t)) = some (code, true, t) := by
  have hline : lineFeed ∉ str " " ++ reason ++ [carriageReturn] := by
    simp only [List.mem_append]
    rintro ((hc | hc) | hc)
    · exact absurd hc (by decide)
    · exact h hc
    · exact absurd hc (by decide)
  have hcut : cutAt [lineFeed] (str " " ++ reason ++ [carriageReturn] ++ ([lineFeed] ++ t)) =
      some (str " " ++ reason ++ [carriageReturn], t) := cutAt_mem hline t
  have hword : (readWord (statusLine code reason ++ (crlf ++ t))).2 =
      str " " ++ (dec code ++ (str " " ++ reason ++ [carriageReturn] ++ ([lineFeed] ++ t))) := by
    simp only [statusLine, crlf, List.append_assoc]
    rfl
  have hstop : StopsAt isDigit (str " " ++ reason ++ [carriageReturn] ++ ([lineFeed] ++ t)) := by
    rintro c ⟨⟩
    rfl
  have hread : readUnsigned (readWord (statusLine code reason ++ (crlf ++ t))).2 =
      some (code, true, str " " ++ reason ++ [carriageReturn] ++ ([lineFeed] ++ t)) := by
    rw [hword]
    generalize str " " ++ reason ++ [carriageReturn] ++ ([lineFeed] ++ t) = rest at hstop
    obtain ⟨c, s, hs⟩ := List.exists_cons_of_ne_nil (dec_ne_nil code)
    obtain ⟨hspace, hminus, hplus⟩ := isDigit_cases (dec_digits code c (by simp [hs]))
    have hspan : (c :: (s ++ rest)).span isDigit = (dec code, rest) := by
      rw [← List.cons_append, ← hs, List.span_eq_takeWhile_dropWhile, takeWhile_run (dec_digits code) hstop,
        dropWhile_run (dec_digits code) hstop]
    have hdrop : (str " " ++ (dec code ++ rest)).dropWhile isSpace = c :: (s ++ rest) := by
      show (dec code ++ rest).dropWhile isSpace = _
      rw [hs, List.cons_append, List.dropWhile_cons_of_neg (by simp [hspace])]
    unfold readUnsigned
    rw [hdrop]
    simp only [if_neg hminus, if_neg hplus, hspan, if_neg (dec_ne_nil code), digitsVal_dec, if_pos hcode]
    rfl
  rw [readStatus, hread]
  dsimp only
  rw [hcut]

/-- Up to the end of a line its bytes are gathered. -/
theorem headerLoop_run {l : Str} (hl : lineFeed ∉ l) (mimeType line s : Str) :
    headerLoop mimeType line (l ++ s) = headerLoop mimeType (line ++ l) s := by
  induction l generalizing line with
  | nil => rw [List.nil_append, List.append_nil]
  | cons c l ih =>
    have hc : c ≠ lineFeed := fun e => hl (by simp [e])
    rw [List.cons_append, headerLoop, if_neg hc, ih (fun h => hl (List.mem_cons_of_mem c h)), List.append_assoc]
    rfl

/-- The lines one after the other, and then the blank one. -/
theorem headerLoop_lines {lines : List Str} (h : ∀ l ∈ lines, l ≠ [] ∧ lineFeed ∉ l)
    (mimeType body : Str) : headerLoop mimeType [] (lines.flatMap (· ++ crlf) ++ (crlf ++ body)) =
      (lines.foldl (fun m l => headerTurn m (l ++ [carriageReturn])) mimeType, body) := by
  induction lines generalizing mimeType with
  | nil => rfl
  | cons l lines ih =>
    obtain ⟨hne, hlf⟩ := h l List.mem_cons_self
    have hret : lineFeed ∉ l ++ [carriageReturn] := by
      rw [List.mem_append]
      rintro (hc | hc)
      · exact hlf hc
      · exact absurd hc (by decide)
    have hline : l ++ [carriageReturn] ≠ [carriageReturn] := fun e => hne (List.append_left_eq_self.1 e)
    have htext : (l :: lines).flatMap (· ++ crlf) ++ (crlf ++ body) =
        (l ++ [carriageReturn]) ++ lineFeed :: (lines.flatMap (· ++ crlf) ++ (crlf ++ body)) := by
      rw [List.flatMap_cons]
      simp [crlf]
    rw [htext, headerLoop_run hret, List.nil_append, headerLoop, if_pos rfl, if_neg hline,
      ih fun x hx => h x (List.mem_cons_of_mem _ hx)]
    rfl

/-- However a response arrives, its body is taken whole, and its header line by line. -/
theorem sendGetRequest_text {code : Nat} (hcode : code < 2 ^ 32) {reason body first more rest : Str}
    {headers : List (Str × Str)} (hreason : lineFeed ∉ reason) (hlined : ∀ x ∈ headers, Lined x) (hne : headers ≠ [])
    (hd : Delivered (responseText (statusLine code reason) headers body) first more rest) (mimeType : Str) :
    sendGetRequest mimeType false first more rest = some ⟨body, decide (code = 301) || decide (code = 302),
      (headers.map headerText).foldl (fun m l => headerTurn m (l ++ [carriageReturn])) mimeType⟩ := by
  have hstatus := statusLine_line code hreason
  have hlines := lines_of_lined hlined
  obtain ⟨hbytes, hfirst, hmore⟩ := hd
  obtain ⟨⟨w, t⟩, hcut⟩ := Option.isSome_iff_exists.1 hfirst
  obtain ⟨⟨a, b⟩, hcut'⟩ := Option.isSome_iff_exists.1 hmore
  -- the first line end is that of the status line
  have hw' : w = statusLine code reason := by
    have h := cutAt_extend hcut (more ++ rest)
    rw [← List.append_assoc, hbytes, responseText, List.append_assoc, List.append_assoc, List.append_assoc] at h
    exact (congrArg Prod.fst (Option.some.inj ((cutAt_pair hstatus (by decide) _).symm.trans h))).symm
  -- the first blank line is the end of the header
  have hhead : t ++ more = (headers.map headerText).flatMap (· ++ crlf) ++ (crlf ++ b) ∧ b ++ rest = body := by
    have h := cutAt_extend hcut' rest
    rw [hbytes, responseText_eq, cutAt_head hstatus hlines] at h
    obtain ⟨ha, hb⟩ := Prod.mk.inj (Option.some.inj h)
    refine ⟨?_, hb.symm⟩
    have he := cutAt_some hcut'
    rw [cutAt_some hcut, hw', ← ha] at he
    simp only [List.append_assoc] at he
    have he := List.append_cancel_left he
    rw [← List.append_assoc _ crlf, ← shift_crlf] at he
    simp only [List.append_assoc] at he
    exact List.append_cancel_left he
  obtain ⟨hrest, hbody⟩ := hhead
  have hblank : (cutAt (crlf ++ crlf) (t ++ more)).isSome := by
    obtain ⟨x, headers, rfl⟩ := List.exists_cons_of_ne_nil hne
    rw [List.map_cons] at hlines
    have hx := hlines (headerText x) List.mem_cons_self
    rw [hrest, List.map_cons, List.flatMap_cons, List.append_assoc, List.append_assoc, ← List.append_assoc crlf,
      shift_crlf, List.append_assoc, ← List.append_assoc crlf crlf b,
      cutAt_head hx.2 fun l hl => hlines l (List.mem_cons_of_mem _ hl)]
    rfl
  rw [hrest] at hblank
  obtain ⟨y, hy⟩ := Option.isSome_iff_exists.1 hblank
  have hread : readStatus first = some (code, true, t) := by
    rw [cutAt_some hcut, hw']
    exact readStatus_ok hcode hreason t
  unfold sendGetRequest
  rw [hcut, hread]
  simp only [Option.bind_eq_bind, Option.bind_some, hy, if_true, hrest, headerLoop_lines hlines, hbody]
  rfl

theorem sendGetRequest_delivered {reason body first more rest : Str} {headers : List (Str × Str)}
    (hw : WellFormed reason headers) (hne : headers ≠ [])
    (hd : Delivered (upstreamText reason headers body) first more rest) (mimeType : Str) :
    sendGetRequest mimeType false first more rest = some ⟨body, false,
      (headers.map headerText).foldl (fun m l => headerTurn m (l ++ [carriageReturn])) mimeType⟩ := by
  obtain ⟨hreason, hlined⟩ := hw.lines
  have hcode : 200 < 2 ^ 32 := by decide
  exact sendGetRequest_text hcode hreason hlined hne hd mimeType

/-! ## The type -/

theorem headerText_begins (key : Str) {name value : Str} (hk : (':' : Byte) ∉ key) (hn : (':' : Byte) ∉ name) :
    key ++ str ": " <+: headerText (name, value) ++ [carriageReturn] ↔ name = key := by
  have stop : ∀ s : Str, StopsAt (fun c => decide (c ≠ ':')) (str ": " ++ s) := by
    intro s c hc
    cases hc
    rfl
  have all : ∀ {s : Str}, (':' : Byte) ∉ s → ∀ c ∈ s, decide (c ≠ ':') = true := fun hs c hc =>
    decide_eq_true fun e => hs (e ▸ hc)
  unfold headerText
  rw [List.append_assoc, List.append_assoc]
  constructor
  · rintro ⟨t, ht⟩
    rw [List.append_assoc] at ht
    have h := congrArg (List.takeWhile fun c : Byte => decide (c ≠ ':')) ht
    rw [takeWhile_run (all hk) (stop _), takeWhile_run (all hn) (stop _)] at h
    exact h.symm
  · rintro rfl
    exact ⟨value ++ [carriageReturn], List.append_assoc _ _ _⟩

/-- A line of another name leaves the type as it is. -/
theorem headerTurn_other {name value : Str} (hn : (':' : Byte) ∉ name) (hne : name ≠ str "Content-Type") (mimeType : Str) :
    headerTurn mimeType (headerText (name, value) ++ [carriageReturn]) = mimeType := by
  have h : ¬ str "Content-Type: " <+: headerText (name, value) ++ [carriageReturn] := fun h =>
    hne ((headerText_begins "Content-Type" (by decide) hn).1 h)
  unfold headerTurn
  rw [if_neg h]
  exact ite_self _

theorem headerTurn_type (mimeType value : Str) : headerTurn mimeType (headerText (str "Content-Type", value) ++ [carriageReturn]) =
    substrTo (headerText (str "Content-Type", value) ++ [carriageReturn]) 14
      (find ';' (headerText (str "Content-Type", value) ++ [carriageReturn])) := by
  have hl : ¬ str "Content-Length: " <+: headerText (str "Content-Type", value) ++ [carriageReturn] := fun h =>
    absurd ((headerText_begins "Content-Length" (by decide) (by decide)).1 h) (by decide)
  have ht : str "Content-Type: " <+: headerText (str "Content-Type", value) ++ [carriageReturn] :=
    (headerText_begins "Content-Type" (by decide) (by decide)).2 rfl
  rw [headerTurn, if_neg hl, if_pos ht]

theorem find_none {c : Byte} {s : Str} (h : c ∉ s) : find c s = 2 ^ 64 - 1 := by
  have hn : s.findIdx? (fun d => decide (d = c)) = none := by
    rw [List.findIdx?_eq_none_iff]
    exact fun d hd => decide_eq_false fun e => h (e ▸ hd)
  rw [find, hn]
  rfl

theorem find_some {c : Byte} {a : Str} (h : c ∉ a) (b : Str) : find c (a ++ c :: b) = a.length := by
  have hn : a.findIdx? (fun d => decide (d = c)) = none := by
    rw [List.findIdx?_eq_none_iff]
    exact fun d hd => decide_eq_false fun e => h (e ▸ hd)
  rw [find, List.findIdx?_append, hn, List.findIdx?_cons]
  simp

/-- Where an `int` cannot hold the place, the text is not cut there. -/
theorem bmod_ne {p : Nat} (h : 2 ^ 31 ≤ p) (h' : p < 2 ^ 63) :
    (((p : Int).bmod (2 ^ 32) - (14 : Nat)) % 2 ^ 64).toNat ≠ p - 14 := by
  have hlo : -(2 ^ 31 : Int) ≤ (p : Int).bmod (2 ^ 32) := Int.le_bmod (by decide)
  have hhi : (p : Int).bmod (2 ^ 32) < 2 ^ 31 := Int.bmod_lt (by decide)
  omega

/-- The media type goes up to the first semicolon. -/
theorem mediaType_cut {value : Str} (hv : (';' : Byte) ∈ value) :
    (';' : Byte) ∉ mediaType value ∧ ∃ params, value = mediaType value ++ (';' : Byte) :: params := by
  have hmedia : (';' : Byte) ∉ mediaType value := by
    intro h
    have hp := List.mem_takeWhile_imp h
    revert hp
    decide
  refine ⟨hmedia, ?_⟩
  obtain ⟨hs, -, hstop⟩ := span_run (fun c : Byte => decide (c ≠ ';')) value
  cases hd : value.dropWhile (fun c : Byte => decide (c ≠ ';')) with
  | nil =>
    rw [hd, List.append_nil] at hs
    exact absurd (by rw [mediaType, ← hs]; exact hv) hmedia
  | cons c params =>
    rw [hd] at hs hstop
    have hc : c = ';' := by simpa using hstop c rfl
    exact ⟨params, hc ▸ hs⟩

theorem find_type {value : Str} (hv : (';' : Byte) ∈ value) :
    find ';' (headerText (str "Content-Type", value) ++ [carriageReturn]) = 14 + (mediaType value).length := by
  obtain ⟨hmedia, params, hparams⟩ := mediaType_cut hv
  have htext : headerText (str "Content-Type", value) ++ [carriageReturn] =
      (str "Content-Type: " ++ mediaType value) ++ (';' : Byte) :: (params ++ [carriageReturn]) := by
    conv_lhs => rw [hparams]
    simp [headerText, str]
  rw [htext, find_some, List.length_append]
  · rfl
  · rw [List.mem_append]
    rintro (hc | hc)
    · exact absurd hc (by decide)
    · exact hmedia hc

theorem find_untyped {value : Str} (hv : (';' : Byte) ∉ value) :
    find ';' (headerText (str "Content-Type", value) ++ [carriageReturn]) = 2 ^ 64 - 1 := by
  refine find_none ?_
  unfold headerText
  simp only [List.mem_append]
  rintro (((hc | hc) | hc) | hc)
  · exact absurd hc (by decide)
  · exact absurd hc (by decide)
  · exact hv hc
  · exact absurd hc (by decide)

/-- Without a ';' the line is taken whole, with its return. -/
theorem substrTo_untyped {value : Str} (hv : (';' : Byte) ∉ value) (hsize : value.length + 15 < 2 ^ 63) :
    substrTo (headerText (str "Content-Type", value) ++ [carriageReturn]) 14
      (find ';' (headerText (str "Content-Type", value) ++ [carriageReturn])) = value ++ [carriageReturn] := by
  have hdrop : (headerText (str "Content-Type", value) ++ [carriageReturn]).drop 14 = value ++ [carriageReturn] := rfl
  have hcount : (((2 ^ 64 - 1 : Nat) : Int).bmod (2 ^ 32) - (14 : Nat)) % 2 ^ 64 = 2 ^ 64 - 15 := by decide
  rw [substrTo, hdrop, find_untyped hv, hcount, List.take_of_length_le (by simp; omega)]

/-- What the code cuts out is the media type if and only if a ';' stops it, where
an `int` can hold its place. Without one the line end is cut out too. -/
theorem substrTo_type {value : Str} (hsize : value.length + 15 < 2 ^ 63) :
    substrTo (headerText (str "Content-Type", value) ++ [carriageReturn]) 14
        (find ';' (headerText (str "Content-Type", value) ++ [carriageReturn])) = mediaType value ↔
      (';' : Byte) ∈ value ∧ 14 + (mediaType value).length < 2 ^ 31 := by
  have hdrop : (headerText (str "Content-Type", value) ++ [carriageReturn]).drop 14 = value ++ [carriageReturn] := rfl
  by_cases hv : (';' : Byte) ∈ value
  · obtain ⟨-, params, hparams⟩ := mediaType_cut hv
    have hvalue : value ++ [carriageReturn] = mediaType value ++ ((';' : Byte) :: params ++ [carriageReturn]) := by
      conv_lhs => rw [hparams, List.append_assoc]
    have hlen : (mediaType value).length < (value ++ [carriageReturn]).length := by
      rw [hvalue, List.length_append, List.cons_append, List.length_cons]
      omega
    rw [substrTo, hdrop, find_type hv]
    by_cases hp : 14 + (mediaType value).length < 2 ^ 31
    · have hcount : ((((14 + (mediaType value).length : Nat) : Int).bmod (2 ^ 32) - (14 : Nat)) % 2 ^ 64).toNat =
          (mediaType value).length := by
        rw [Int.bmod_eq_of_le (by omega) (by omega)]
        omega
      rw [hcount, hvalue]
      exact iff_of_true List.take_left ⟨hv, hp⟩
    · refine iff_of_false (fun h => ?_) fun h => hp h.2
      have hlen' := congrArg List.length h
      rw [List.length_take] at hlen'
      have hne := bmod_ne (p := 14 + (mediaType value).length) (by omega) (by
        rw [List.length_append, List.length_singleton] at hlen
        omega)
      generalize ((((14 + (mediaType value).length : Nat) : Int).bmod (2 ^ 32) - (14 : Nat)) % 2 ^ 64).toNat = n at hlen' hne
      omega
  · have hall : mediaType value = value := List.takeWhile_eq_self_iff.2 fun c hc => decide_eq_true fun e => hv (e ▸ hc)
    rw [substrTo_untyped hv hsize, hall]
    refine iff_of_false (fun h => ?_) fun h => hv h.1
    simpa using congrArg List.length h

theorem headerTurns_other {headers : List (Str × Str)}
    (h : ∀ x ∈ headers, (':' : Byte) ∉ x.1 ∧ x.1 ≠ str "Content-Type") (mimeType : Str) :
    headers.foldl (fun m x => headerTurn m (headerText x ++ [carriageReturn])) mimeType = mimeType := by
  induction headers with
  | nil => rfl
  | cons x headers ih =>
    obtain ⟨hn, hne⟩ := h x List.mem_cons_self
    rw [List.foldl_cons, headerTurn_other hn hne]
    exact ih fun y hy => h y (List.mem_cons_of_mem x hy)

/-! ## The answer -/

/-- Of the answer only the type can be wrong. -/
theorem relayed_iff {value : Str} (hvalue : ∀ c ∈ value, notEol c) (beyond body mimeType : Str) (req : Request) :
    Relayed (mediaType value) body (proxyResponse beyond ⟨body, false, mimeType⟩ req) ↔ mimeType = mediaType value := by
  have hheaders : (proxyResponse beyond ⟨body, false, mimeType⟩ req).responseHeaders =
      [(str "Content-Type", mimeType), (str "Content-Length", dec body.length)] := rfl
  have hline : ∀ c ∈ mediaType value, notEol c := fun c hc => hvalue c ((List.takeWhile_prefix _).subset hc)
  constructor
  · intro h
    have ht := h.contentType
    rw [hheaders] at ht
    exact Option.some.inj ht
  · rintro rfl
    refine ⟨rfl, by rw [hheaders]; rfl, hline, by rw [hheaders]; rfl, fun visit hperm => ?_⟩
    refine decode_generate visit _ fun x hx => ?_
    have hx := (hperm _).mem_iff.1 hx
    rw [hheaders] at hx
    have plain : ∀ {n v : Str}, (∀ c ∈ n, notEol c) → ¬ str ": " <:+: n → (∀ c ∈ v, notEol c) → PlainHeader (n, v) :=
      fun hn hw hv => ⟨hn, hv, hw⟩
    rcases List.mem_cons.1 hx with rfl | hx
    · exact plain (by decide) (by decide) hline
    · rw [List.mem_singleton.1 hx]
      refine plain (by decide) (by decide) fun c hc => ?_
      have hs := (isDigit_cases (dec_digits _ c hc)).1
      unfold notEol
      rw [Bool.and_eq_true, decide_eq_true_eq, decide_eq_true_eq]
      constructor
      · rintro rfl
        cases hs
      · rintro rfl
        cases hs

/-- The proxy passes on a response without trouble if and only if the line of its
type is spelled `Content-Type` and has parameters, which start where an `int` can
say; of a line in another case, which it does not see, it can only pass on the empty type. -/
theorem relay_iff (beyond : Str) (req : Request) {reason name value body first more rest : Str}
    {pre post : List (Str × Str)} (hw : WellFormed reason (pre ++ (name, value) :: post))
    (hline : TypeLine pre name post)
    (hsize : (upstreamText reason (pre ++ (name, value) :: post) body).length < 2 ^ 63)
    (hd : Delivered (upstreamText reason (pre ++ (name, value) :: post) body) first more rest) :
    (∃ r, relay beyond req first more rest = some r ∧ Relayed (mediaType value) body r) ↔
      (name = str "Content-Type" ∧ (';' : Byte) ∈ value ∧ 14 + (mediaType value).length < 2 ^ 31) ∨
        (name ≠ str "Content-Type" ∧ mediaType value = []) := by
  have hnames : ∀ x ∈ pre ++ (name, value) :: post, (':' : Byte) ∉ x.1 := fun x hx hc => (hw.names x hx _ hc).2 rfl
  have htype : lower (str "Content-Type") = str "content-type" := by decide
  have hothers : ∀ x ∈ pre ++ post, (':' : Byte) ∉ x.1 ∧ x.1 ≠ str "Content-Type" := by
    intro x hx
    refine ⟨hnames x ?_, fun e => hline.others x hx (by rw [e]; exact htype)⟩
    rcases List.mem_append.1 hx with hx | hx
    · exact List.mem_append_left _ hx
    · exact List.mem_append_right _ (List.mem_cons_of_mem _ hx)
  have hmem : (name, value) ∈ pre ++ (name, value) :: post := by simp
  -- what the header leaves is what the line of the type leaves
  have hfold : ((pre ++ (name, value) :: post).map headerText).foldl (fun m l => headerTurn m (l ++ [carriageReturn])) [] =
      headerTurn [] (headerText (name, value) ++ [carriageReturn]) := by
    rw [List.foldl_map, List.foldl_append, List.foldl_cons,
      headerTurns_other fun x hx => hothers x (List.mem_append_left _ hx),
      headerTurns_other fun x hx => hothers x (List.mem_append_right _ hx)]
  have hrelay : relay beyond req first more rest =
      some (proxyResponse beyond ⟨body, false, headerTurn [] (headerText (name, value) ++ [carriageReturn])⟩ req) := by
    rw [relay, sendGetRequest_delivered hw (by simp) hd, hfold]
    rfl
  have hanswer : (∃ r, relay beyond req first more rest = some r ∧ Relayed (mediaType value) body r) ↔
      headerTurn [] (headerText (name, value) ++ [carriageReturn]) = mediaType value := by
    rw [hrelay, ← relayed_iff (hw.values _ hmem) beyond body _ req]
    simp
  rw [hanswer]
  by_cases he : name = str "Content-Type"
  · have hlen : value.length + 15 < 2 ^ 63 := by
      have hpart : (headerText (name, value) ++ crlf).length ≤
          (upstreamText reason (pre ++ (name, value) :: post) body).length := by
        unfold upstreamText
        simp only [List.map_append, List.map_cons, List.flatMap_append, List.flatMap_cons, List.length_append]
        omega
      have hl : (headerText (name, value) ++ crlf).length = 16 + value.length := by
        rw [he]
        simp [headerText, str, crlf]
        omega
      omega
    rw [he, headerTurn_type, substrTo_type hlen]
    exact ⟨fun h => .inl ⟨rfl, h⟩, fun h => h.elim (·.2) fun h => absurd rfl h.1⟩
  · rw [headerTurn_other (hnames _ hmem) he]
    exact ⟨fun h => .inr ⟨he, h.symm⟩, fun h => h.elim (fun h => absurd h.1 he) fun h => h.2.symm⟩

/-- A page with its parameters. -/
theorem relay_html : ∃ r, relay [] ⟨[], str "GET", str "/ucla", [], [], [], true⟩
      (upstreamText "OK" [(str "Content-Type", str "text/html; charset=utf-8")] "<p>") [] [] = some r ∧
    Relayed (mediaType "text/html; charset=utf-8") "<p>" r := by
  have hw : WellFormed "OK" ([] ++ (str "Content-Type", str "text/html; charset=utf-8") :: []) :=
    ⟨by decide, by simp only [List.nil_append, List.mem_singleton, forall_eq]; decide,
      by simp only [List.nil_append, List.mem_singleton, forall_eq]; decide⟩
  have hline : TypeLine [] (str "Content-Type") [] := ⟨by decide, by simp⟩
  have hsize : (upstreamText "OK" ([] ++ (str "Content-Type", str "text/html; charset=utf-8") :: []) "<p>").length < 2 ^ 63 := by
    decide +kernel
  have hd : Delivered (upstreamText "OK" ([] ++ (str "Content-Type", str "text/html; charset=utf-8") :: []) "<p>")
      (upstreamText "OK" ([] ++ (str "Content-Type", str "text/html; charset=utf-8") :: []) "<p>") [] [] :=
    ⟨by simp, by decide +kernel, by decide +kernel⟩
  exact (relay_iff [] _ hw hline hsize hd).2 (.inl ⟨rfl, by decide, by decide⟩)

/-- A style sheet without parameters gets the line end into its type. -/
theorem relay_css : relay [] ⟨[], str "GET", str "/ucla", [], [], [], true⟩
      (upstreamText "OK" [(str "Content-Type", str "text/css")] "a") [] [] =
    some ⟨200, [(str "Content-Type", str "text/css\r"), (str "Content-Length", str "1")], str "a"⟩ ∧
    mediaType "text/css" = str "text/css" := by
  decide +kernel

end GittyUp.Upstream
