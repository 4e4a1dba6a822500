import GittyUp.Http.Request
/-!
# The head of a request

What `parse_request` takes for a request line and for headers, line by line and
without the matcher. The expression for a header is tried behind every line
feed of the request, so the body's lines are read as headers too.
-/
open Lib

namespace GittyUp.Http

/-! ## Header lines -/

/-- Split at the last ": " with something behind it. -/
def splitLast : Str → Option (Str × Str)
  | [] => none
  | c :: s =>
    match splitLast s with
    | some (name, value) => some (c :: name, value)
    | none => if str ": " <+: c :: s ∧ s.tail ≠ [] then some ([], s.tail) else none

/-- The name and the value in a line. -/
def lineHeader (line : Str) : Option (Str × Str) := (splitLast line).filter (·.1 ≠ [])

/-- The header in the first line of a text, if a CR ends that line. -/
def headerAt (s : Str) : Option (Str × Str) :=
  if (s.dropWhile notEol).head? = some carriageReturn then lineHeader (s.takeWhile notEol) else none

/-- The headers in the lines that begin behind a line feed. -/
def headersIn : Str → List (Str × Str)
  | [] => []
  | c :: s => (if c = lineFeed then (headerAt s).toList else []) ++ headersIn s

/-- The lines of a body that have the form of a header. Its first line is one,
for a line feed is the last byte in front of it. -/
def bodyHeaders (body : Str) : List (Str × Str) := headersIn (lineFeed :: body)

theorem splitLast_eq {s name value : Str} (h : splitLast s = some (name, value)) :
    s = name ++ str ": " ++ value ∧ value ≠ [] := by
  induction s generalizing name with
  | nil => cases h
  | cons c s ih =>
    unfold splitLast at h
    split at h
    · rename_i m v hs
      cases h
      obtain ⟨e, hv⟩ := ih hs
      exact ⟨by rw [e]; rfl, hv⟩
    · split at h
      · rename_i hc
        obtain ⟨⟨t, ht⟩, hv⟩ := hc
        cases h
        obtain ⟨rfl, rfl⟩ := List.cons.inj ht
        exact ⟨rfl, hv⟩
      · cases h

theorem headerAt_eq {s name value : Str} (h : headerAt s = some (name, value)) : name ≠ [] ∧ value ≠ [] := by
  unfold headerAt lineHeader at h
  split at h
  · obtain ⟨hs, hne⟩ := Option.filter_eq_some_iff.1 h
    exact ⟨by simpa using hne, (splitLast_eq hs).2⟩
  · cases h

theorem mem_headersIn {s : Str} {header : Str × Str} (h : header ∈ headersIn s) : header.1 ≠ [] ∧ header.2 ≠ [] := by
  induction s with
  | nil => cases h
  | cons c s ih =>
    rcases List.mem_append.1 h with h | h
    · split at h
      · exact headerAt_eq (Option.mem_toList.1 h)
      · cases h
    · exact ih h

/-! ## The matcher finds the header lines -/

/-- What the expression makes of the text behind the name, of which the name is part. -/
def behindName (n : Nat) (start s : Str) : Option (Str × Captures) :=
  (Re.lit ':' " " ++ .group 2 (.plus notEol) ++ .lit '\r' []).run n s [(1, start.take (start.length - s.length))]
    fun s caps => some (s, caps)

theorem behindName_eq (n : Nat) (a s : Str) : behindName n (a ++ s) s =
    if str ": " <+: s ∧ (s.drop 2).takeWhile notEol ≠ [] ∧
        ((s.drop 2).dropWhile notEol).head? = some carriageReturn then
      some (((s.drop 2).dropWhile notEol).tail, [(2, (s.drop 2).takeWhile notEol), (1, a)])
    else none := by
  have hlen : (str " ").length + 1 = 2 := rfl
  unfold behindName
  rw [take_sub_append, Re.run_append, Re.run_append, Re.run_lit, hlen]
  by_cases h : str ": " <+: s
  · rw [if_pos (by exact h), Re.run, Re.run_plus]
    · by_cases h0 : (s.drop 2).takeWhile notEol = []
      · rw [if_pos h0, if_neg fun h' => h'.2.1 h0]
      · rw [if_neg h0, Re.run_lit, take_sub_dropWhile]
        cases (s.drop 2).dropWhile notEol with
        | nil => simp
        | cons c t =>
          by_cases hc : carriageReturn = c
          · subst hc
            rw [if_pos ⟨t, rfl⟩, if_pos ⟨h, h0, rfl⟩]
            rfl
          · rw [if_neg, if_neg]
            · rintro ⟨-, -, ⟨rfl⟩⟩
              exact hc rfl
            · rintro ⟨_, ht⟩
              exact hc (List.cons.inj ht).1
    · intro c t caps hc
      rw [Re.run_lit, if_neg]
      rintro ⟨t', ht⟩
      rw [← (List.cons.inj ht).1] at hc
      exact absurd hc (by decide)
  · rw [if_neg (by exact h), if_neg fun h' => h h'.1]

/-- The repetition of the name stops at the last ": " of the line. -/
theorem run_name (n : Nat) (a : Str) {w rest : Str} (hw : ∀ c ∈ w, notEol c) (hrest : StopsAt notEol rest) :
    Re.runMany notEol (behindName n (a ++ (w ++ rest))) (w ++ rest) =
      if rest.head? = some carriageReturn then
        (splitLast w).map fun h => (rest.tail, [(2, h.2), (1, a ++ h.1)])
      else none := by
  induction w generalizing a with
  | nil =>
    have stop : behindName n (a ++ rest) rest = none := by
      rw [behindName_eq, if_neg]
      rintro ⟨⟨t, ht⟩, -⟩
      have := hrest (':' : Char) (by rw [← ht]; rfl)
      exact absurd this (by decide)
    have : Re.runMany notEol (behindName n (a ++ rest)) rest = behindName n (a ++ rest) rest := by
      cases rest with
      | nil => rfl
      | cons c rest => rw [Re.runMany, if_neg (by simp [hrest c rfl])]
    rw [List.nil_append, this, stop]
    split <;> rfl
  | cons c w ih =>
    have ih := ih (a ++ [c]) fun c hc => hw c (List.mem_cons_of_mem _ hc)
    rw [List.append_assoc, List.singleton_append] at ih
    rw [List.cons_append, Re.runMany, if_pos (hw c List.mem_cons_self), ih, behindName_eq]
    cases w with
    | nil =>
      -- a ": " cannot reach over the end of the line
      have hno : ¬ str ": " <+: c :: rest := by
        rintro ⟨t, ht⟩
        have hr : str " " ++ t = rest := (List.cons.inj ht).2
        have := hrest (' ' : Char) (by rw [← hr]; rfl)
        exact absurd this (by decide)
      have hsplit : splitLast [c] = none := by simp [splitLast]
      rw [hsplit, splitLast]
      simp [hno]
    | cons d w =>
      have hw' : ∀ c ∈ w, notEol c := fun c hc => hw c (by simp [hc])
      have hdrop : (c :: (d :: w ++ rest)).drop 2 = w ++ rest := rfl
      have hpre : (str ": " <+: c :: (d :: w ++ rest)) ↔ str ": " <+: c :: d :: w := by
        simp [str, List.cons_prefix_cons]
      have hsplit : splitLast (c :: d :: w) = match splitLast (d :: w) with
          | some (name, value) => some (c :: name, value)
          | none => if str ": " <+: c :: d :: w ∧ w ≠ [] then some ([], w) else none := rfl
      rw [hdrop, takeWhile_run hw' hrest, dropWhile_run hw' hrest, hsplit]
      simp only [hpre]
      by_cases hr : rest.head? = some carriageReturn
      · rw [if_pos hr, if_pos hr]
        cases splitLast (d :: w) with
        | some h => simp
        | none =>
          by_cases hc : str ": " <+: c :: d :: w ∧ w ≠ []
          · rw [if_pos ⟨hc.1, hc.2, hr⟩, if_pos hc]
            simp
          · rw [if_neg fun h => hc ⟨h.1, h.2.1⟩, if_neg hc]
            rfl
      · rw [if_neg hr, if_neg hr, if_neg fun h => hr h.2.2]
        rfl

theorem lineHeader_cons (c : Byte) (w : Str) :
    lineHeader (c :: w) = (splitLast w).map fun h => (c :: h.1, h.2) := by
  unfold lineHeader
  rw [splitLast]
  cases splitLast w with
  | some h => simp
  | none => by_cases hc : str ": " <+: c :: w ∧ w.tail ≠ [] <;> simp [hc]

/-- A match begins with a line feed, and takes the line behind it and the CR. -/
theorem headerRe_matchAt (n : Nat) (c : Byte) (s : Str) : headerRe.matchAt n (c :: s) =
    if c = lineFeed then (headerAt s).map fun h => ((s.dropWhile notEol).tail, [(2, h.2), (1, h.1)]) else none := by
  by_cases hc : c = lineFeed
  · rw [if_pos hc]
    have start : headerRe.matchAt n (c :: s) =
        (Re.plus notEol).run n s [] fun s' _ => behindName n s s' := by
      rw [hc]
      rfl
    rw [start]
    cases s with
    | nil => rfl
    | cons d t =>
      unfold Re.plus
      rw [Re.run_append, Re.run]
      by_cases hd : notEol d
      · obtain ⟨ht, hw, hrest⟩ := span_run notEol t
        rw [if_pos hd, Re.run, headerAt, List.takeWhile_cons_of_pos hd, List.dropWhile_cons_of_pos hd,
          lineHeader_cons]
        have := run_name n [d] hw hrest
        rw [← ht] at this
        rw [List.singleton_append] at this
        rw [this]
        split <;> simp [Function.comp_def]
      · rw [if_neg hd, headerAt, List.takeWhile_cons_of_neg hd]
        split <;> rfl
  · rw [if_neg hc]
    have start : headerRe.matchAt n (c :: s) =
        if c == lineFeed then (Re.plus notEol).run n s [] fun s' _ => behindName n s s' else none := rfl
    rw [start, if_neg (by simpa using hc)]

/-- No line feed, no header. -/
theorem headersIn_run {w : Str} (hw : ∀ c ∈ w, c ≠ lineFeed) (s : Str) : headersIn (w ++ s) = headersIn s := by
  induction w with
  | nil => rfl
  | cons c w ih =>
    rw [List.cons_append, headersIn, if_neg (hw c List.mem_cons_self), List.nil_append,
      ih fun c hc => hw c (List.mem_cons_of_mem _ hc)]

/-- The line that was matched has no other header. -/
theorem headersIn_behind {s : Str} (h : (s.dropWhile notEol).head? = some carriageReturn) :
    headersIn (s.dropWhile notEol).tail = headersIn s := by
  obtain ⟨hs, hw, -⟩ := span_run notEol s
  obtain ⟨t, ht⟩ := List.head?_eq_some_iff.1 h
  rw [ht] at hs ⊢
  conv_rhs => rw [hs]
  rw [headersIn_run fun c hc => (notEol_ne (hw c hc)).1, headersIn, if_neg (by decide)]
  rfl

theorem head_of_headerAt {s : Str} {header : Str × Str} (h : headerAt s = some header) :
    (s.dropWhile notEol).head? = some carriageReturn := by
  unfold headerAt at h
  by_contra hr
  rw [if_neg hr] at h
  cases h

theorem length_behind (s : Str) : (s.dropWhile notEol).tail.length ≤ s.length := by
  have := (List.dropWhile_sublist notEol (l := s)).length_le
  rw [List.length_tail]
  omega

/-- The matcher's iteration yields the header lines. -/
theorem findAll_headers (s : Str) :
    (headerRe.findAll s).map (fun caps => (Re.capture caps 1, Re.capture caps 2)) = headersIn s := by
  have key : ∀ (n fuel : Nat) (s : Str), s.length < fuel →
      (headerRe.findAllFrom n fuel s).map (fun caps => (Re.capture caps 1, Re.capture caps 2)) = headersIn s := by
    intro n fuel s
    -- on the fuel for what is behind a match, on the text for where the match begins
    induction fuel generalizing s with
    | zero => intro h; cases h
    | succ fuel ih =>
      induction s with
      | nil => intro _; rfl
      | cons c s ih' =>
        intro h
        have hm := headerRe_matchAt n c s
        have hlen : s.length < fuel := Nat.lt_of_succ_lt_succ h
        by_cases hc : c = lineFeed
        · rw [if_pos hc] at hm
          cases hh : headerAt s with
          | none =>
            rw [hh] at hm
            rw [Re.findAllFrom_congr (t := s) n (fuel + 1) (by rw [Re.searchFrom, hm]; rfl), ih' (by omega)]
            rw [headersIn, if_pos hc, hh]
            rfl
          | some header =>
            rw [hh] at hm
            -- the search goes on behind the CR of the line
            have hle := length_behind s
            have hfound : headerRe.searchFrom n (c :: s) =
                some ((s.dropWhile notEol).tail, [(2, header.2), (1, header.1)]) := Re.searchFrom_here hm
            rw [Re.findAllFrom, hfound, headersIn, if_pos hc, hh, ← headersIn_behind (head_of_headerAt hh)]
            rw [← ih _ (by omega)]
            rfl
        · rw [if_neg hc] at hm
          rw [Re.findAllFrom_congr (t := s) n (fuel + 1) (by rw [Re.searchFrom, hm]; rfl), ih' (by omega)]
          rw [headersIn, if_neg hc]
          rfl
  exact key s.length (s.length + 1) s (Nat.lt_succ_self _)

/-- A text up to a line feed, and what is behind it, have headers of their own. -/
theorem headersIn_append (h b : Str) :
    headersIn (h ++ lineFeed :: b) = headersIn (h ++ [lineFeed]) ++ bodyHeaders b := by
  induction h with
  | nil => rfl
  | cons c h ih =>
    have line : headerAt (h ++ lineFeed :: b) = headerAt (h ++ [lineFeed]) := by
      unfold headerAt
      rw [dropWhile_append_stop notEol_lineFeed, dropWhile_append_stop notEol_lineFeed,
        takeWhile_append_stop notEol_lineFeed, takeWhile_append_stop notEol_lineFeed]
      cases h.dropWhile notEol <;> rfl
    rw [List.cons_append, headersIn, ih, line]
    exact (List.append_assoc ..).symm

/-! ## Request lines -/

/-- A method, a target and a version. -/
def RequestLine (line : Str) : Prop :=
  ∃ (method target : Str) (major minor : Byte),
    line = method ++ str " " ++ target ++ str " HTTP/" ++ [major] ++ str "." ++ [minor] ∧
    (method ≠ [] ∧ ∀ c ∈ method, isWord c) ∧ (target ≠ [] ∧ ∀ c ∈ target, notEol c) ∧ isDigit major ∧ isDigit minor

theorem isWord_notEol {c : Byte} (h : isWord c) : notEol c := by
  revert h
  exact forall_byte (P := fun c => isWord c → notEol c) (by decide +kernel) c

theorem isDigit_notEol {c : Byte} (h : isDigit c) : notEol c :=
  isWord_notEol (by unfold isWord; rw [h]; rfl)

theorem RequestLine.notEol {line : Str} (h : RequestLine line) : ∀ c ∈ line, Lib.notEol c := by
  obtain ⟨method, target, major, minor, rfl, ⟨-, hm⟩, ⟨-, ht⟩, hj, hn⟩ := h
  intro c hc
  simp only [List.mem_append, List.mem_singleton] at hc
  rcases hc with (((((hc | hc) | hc) | hc) | rfl) | hc) | rfl
  · exact isWord_notEol (hm c hc)
  · revert c; decide
  · exact ht c hc
  · revert c; decide
  · exact isDigit_notEol hj
  · revert c; decide
  · exact isDigit_notEol hn

/-- The text begins with a request line. -/
def Requests (data : Str) : Prop := ∃ line rest, data = line ++ str "\r\n" ++ rest ∧ RequestLine line

/-- What the matcher finds is the request line, with its method and its target. -/
theorem statusLine_sound {data : Str} {m : Captures} (h : statusLineRe.search data = some m) :
    ∃ (method target : Str) (major minor : Byte) (rest : Str),
      data = method ++ str " " ++ target ++ str " HTTP/" ++ [major] ++ str "." ++ [minor] ++ str "\r\n" ++ rest ∧
      (method ≠ [] ∧ ∀ c ∈ method, isWord c) ∧ (target ≠ [] ∧ ∀ c ∈ target, Lib.notEol c) ∧
      isDigit major ∧ isDigit minor ∧ Re.capture m 1 = method ∧ Re.capture m 2 = target := by
  obtain ⟨pre, s, rest, rfl, t₅, _, ⟨t₄, _, ⟨t₃, _, ⟨t₂, _, ⟨t₁, _, ⟨t₀, _, hstart, _, h₁, rfl⟩, h₂⟩, _, h₃, rfl⟩, h₄⟩,
    _, ⟨u₁, _, ⟨u₀, _, ⟨major, hmajor, rfl, rfl⟩, hdot⟩, ⟨minor, hminor, rfl, rfl⟩⟩, rfl⟩, h₅⟩ := Re.search_sound h
  obtain ⟨hlen, rfl, rfl⟩ := hstart
  -- the match starts where the text does
  have hpre : pre = [] := by
    rw [List.length_append] at hlen
    exact List.length_eq_zero_iff.1 (by omega)
  obtain ⟨method, hm0, hm, rfl, rfl⟩ := Re.matches_plus.1 h₁
  obtain ⟨rfl, rfl⟩ := Re.matches_lit.1 h₂
  obtain ⟨target, ht0, ht, rfl, rfl⟩ := Re.matches_plus.1 h₃
  obtain ⟨e₄, rfl⟩ := Re.matches_lit.1 h₄
  obtain ⟨e₅, rfl⟩ := Re.matches_lit.1 hdot
  obtain ⟨e₆, rfl⟩ := Re.matches_lit.1 h₅
  refine ⟨method, target, major, minor, rest, ?_, ⟨hm0, hm⟩, ⟨ht0, ht⟩, hmajor, hminor, ?_, ?_⟩
  · rw [hpre, e₄, e₅, e₆]
    simp [str]
  · exact take_sub_append _ _
  · exact take_sub_append _ _

/-- Validity is decided by the first line alone. -/
theorem valid_iff (stale : Str → Str → Str) (data : Str) :
    (parseRequest stale data).valid = true ↔ Requests data := by
  rw [parseRequest_valid]
  constructor
  · intro h
    obtain ⟨m, hm⟩ := Option.isSome_iff_exists.1 h
    obtain ⟨method, target, major, minor, rest, rfl, hmethod, htarget, hmajor, hminor, -, -⟩ := statusLine_sound hm
    exact ⟨_, rest, rfl, method, target, major, minor, rfl, hmethod, htarget, hmajor, hminor⟩
  · rw [Re.search_isSome_iff]
    rintro ⟨_, rest, rfl, method, target, major, minor, rfl, ⟨hm0, hm⟩, ⟨ht0, ht⟩, hmajor, hminor⟩
    refine ⟨[], _, rfl, rest, _, _, _, ⟨_, _, ⟨_, _, ⟨_, _, ⟨_, _, ⟨_, _, ⟨rfl, rfl, rfl⟩, _,
      Re.matches_plus.2 ⟨method, hm0, hm, ?_, rfl⟩, rfl⟩, Re.matches_lit.2 ⟨rfl, rfl⟩⟩, _,
      Re.matches_plus.2 ⟨target, ht0, ht, rfl, rfl⟩, rfl⟩, Re.matches_lit.2 ⟨rfl, rfl⟩⟩,
      _, ⟨_, _, ⟨_, _, ⟨major, hmajor, rfl, rfl⟩, Re.matches_lit.2 ⟨rfl, rfl⟩⟩, ⟨minor, hminor, rfl, rfl⟩⟩, rfl⟩,
      Re.matches_lit.2 ⟨rfl, rfl⟩⟩
    simp [str]

/-! ## Headers from the body -/

/-- What follows the blank line does not make a request line. -/
theorem requests_head (h b : Str) : Requests (h ++ str "\r\n\r\n" ++ b) ↔ Requests (h ++ str "\r\n\r\n") := by
  constructor
  · rintro ⟨line, rest, he, hl⟩
    have hstop : StopsAt Lib.notEol (str "\r\n" ++ rest) := by
      intro c hc
      cases hc
      decide
    rw [List.append_assoc, List.append_assoc] at he
    have hd : h.dropWhile Lib.notEol ++ (str "\r\n\r\n" ++ b) = str "\r\n" ++ rest := by
      rw [← dropWhile_run hl.notEol hstop, ← he]
      exact (dropWhile_append_stop notEol_return h _).symm
    have ht : h.takeWhile Lib.notEol = line := by
      rw [← takeWhile_run hl.notEol hstop, ← he]
      exact (takeWhile_append_stop notEol_return h _).symm
    refine ⟨line, (h.dropWhile Lib.notEol ++ str "\r\n\r\n").drop 2, ?_, hl⟩
    conv_lhs => rw [← List.takeWhile_append_dropWhile (p := Lib.notEol) (l := h), ht]
    rw [List.append_assoc, List.append_assoc]
    congr 1
    -- the text behind the first line begins with CR LF, and so does the part of it in the head
    generalize h.dropWhile Lib.notEol = u at hd
    rcases u with _ | ⟨c, _ | ⟨d, t⟩⟩
    · rfl
    · exact absurd (List.cons.inj (List.cons.inj hd).2).1 (by decide)
    · have h2 : [c, d] = str "\r\n" := congrArg (List.take 2) hd
      rw [show c :: d :: t = [c, d] ++ t from rfl, h2]
      rfl
  · rintro ⟨line, rest, he, hl⟩
    exact ⟨line, rest ++ b, by rw [he, List.append_assoc], hl⟩

theorem parseHeaders_eq (data : Str) : parseHeaders data = bindAll [] (headersIn data) := by
  rw [← findAll_headers, bindAll, List.foldl_map]
  rfl

/-- The first header line of a name gives its value. -/
theorem getHeader_valid (stale : Str → Str → Str) {data : Str} (h : Requests data) (name : Str) :
    (parseRequest stale data).getHeader name = ((headersIn data).lookup name).getD [] := by
  have hv := (valid_iff stale data).2 h
  unfold Request.getHeader
  unfold parseRequest at hv ⊢
  split
  · rename_i hs
    rw [hs] at hv
    cases hv
  · simp only [parseHeaders_eq, lookup_bindAll, List.lookup_nil, Option.none_or]

theorem getHeader_invalid (stale : Str → Str → Str) {data : Str} (h : ¬ Requests data) (name : Str) :
    (parseRequest stale data).getHeader name = [] := by
  have hv := mt (valid_iff stale data).1 h
  unfold Request.getHeader
  unfold parseRequest at hv ⊢
  split
  · rfl
  · rename_i hs
    rw [hs] at hv
    exact absurd rfl hv

theorem headersIn_head (h b : Str) :
    headersIn (h ++ str "\r\n\r\n" ++ b) = headersIn (h ++ str "\r\n\r\n") ++ bodyHeaders b := by
  have := headersIn_append (h ++ str "\r\n\r") b
  rw [List.append_assoc, List.append_assoc] at this
  rw [List.append_assoc]
  exact this

/-- A value is never empty, so an empty text says that there is no header. -/
theorem lookup_headersIn_congr {l l' : List (Str × Str)} (hl : ∀ h ∈ l, h.2 ≠ []) (hl' : ∀ h ∈ l', h.2 ≠ []) (name : Str) :
    (l.lookup name).getD [] = (l'.lookup name).getD [] ↔ l.lookup name = l'.lookup name := by
  have value : ∀ {l : List (Str × Str)}, (∀ h ∈ l, h.2 ≠ []) → ∀ v, l.lookup name = some v → v ≠ [] := by
    intro l hl v e
    obtain ⟨_, _, rfl, -⟩ := List.lookup_eq_some_iff.1 e
    exact hl (name, v) (by simp)
  cases e : l.lookup name with
  | none =>
    cases e' : l'.lookup name with
    | none => simp
    | some v' => simpa using Ne.symm (value hl' v' e')
  | some v =>
    cases e' : l'.lookup name with
    | none => simpa using value hl v e
    | some v' => simp

/-- Two requests with the same head have the same headers if and only if the
head has no request line, or their bodies agree on every header line with a name
that is not in the head. -/
theorem headers_of_head_iff (stale₁ stale₂ : Str → Str → Str) (h b₁ b₂ : Str) :
    (∀ name, (parseRequest stale₁ (h ++ str "\r\n\r\n" ++ b₁)).getHeader name =
        (parseRequest stale₂ (h ++ str "\r\n\r\n" ++ b₂)).getHeader name) ↔
      ¬ Requests (h ++ str "\r\n\r\n") ∨
        ∀ name, name ∉ (headersIn (h ++ str "\r\n\r\n")).map Prod.fst →
          (bodyHeaders b₁).lookup name = (bodyHeaders b₂).lookup name := by
  by_cases hr : Requests (h ++ str "\r\n\r\n")
  · rw [or_iff_right (not_not.2 hr)]
    refine forall_congr' fun name => ?_
    rw [getHeader_valid _ ((requests_head h b₁).2 hr), getHeader_valid _ ((requests_head h b₂).2 hr),
      lookup_headersIn_congr (fun x hx => (mem_headersIn hx).2) (fun x hx => (mem_headersIn hx).2),
      headersIn_head, headersIn_head, List.lookup_append, List.lookup_append, ← lookup_isSome_iff]
    cases (headersIn (h ++ str "\r\n\r\n")).lookup name <;> simp
  · refine iff_of_true (fun name => ?_) (.inl hr)
    rw [getHeader_invalid _ (mt (requests_head h b₁).1 hr), getHeader_invalid _ (mt (requests_head h b₂).1 hr)]

/-- A line of the body puts the echo handler to sleep. -/
theorem headers_from_body : ¬ ∀ name,
    (parseRequest (fun _ qs => qs) (str "POST /echo HTTP/1.1\r\nHost: a" ++ str "\r\n\r\n" ++
        str "Thread-Sleep: 1\r\n")).getHeader name =
      (parseRequest (fun _ qs => qs) (str "POST /echo HTTP/1.1\r\nHost: a" ++ str "\r\n\r\n" ++ [])).getHeader name := by
  intro h
  have := h "Thread-Sleep"
  revert this
  decide +kernel

/-! ## The grammar of a head -/

/-- Header lines, a blank line, and then anything. -/
def HeadersAndBody (rest : Str) : Prop :=
  ∃ (headers : List (Str × Str)) (body : Str), rest = headers.flatMap headerLine ++ str "\r\n" ++ body ∧
    ∀ h ∈ headers, (h.1 ≠ [] ∧ ∀ c ∈ h.1, notEol c) ∧ (h.2 ≠ [] ∧ ∀ c ∈ h.2, notEol c)

/-- A request line, header lines, a blank line and a body. -/
def InGrammar (data : Str) : Prop :=
  ∃ line rest, data = line ++ str "\r\n" ++ rest ∧ RequestLine line ∧ HeadersAndBody rest

/-- A buffer is valid just when it is in the grammar, if and only if whatever it
has behind a request line is header lines, a blank line and a body. -/
theorem valid_grammar_iff (stale : Str → Str → Str) (data : Str) :
    ((parseRequest stale data).valid = true ↔ InGrammar data) ↔
      ∀ line rest, data = line ++ str "\r\n" ++ rest → RequestLine line → HeadersAndBody rest := by
  rw [valid_iff]
  constructor
  · intro h line rest he hl
    obtain ⟨line', rest', he', hl', hrest⟩ := h.1 ⟨line, rest, he, hl⟩
    -- the request line is the first line, so there is one way to split it off
    have stop : ∀ rest, StopsAt Lib.notEol (str "\r\n" ++ rest) := by
      intro rest c hc
      cases hc
      decide
    rw [List.append_assoc] at he he'
    have hd := dropWhile_run hl.notEol (stop rest)
    rw [← he, he', dropWhile_run hl'.notEol (stop rest')] at hd
    rwa [← List.append_cancel_left hd]
  · intro h
    constructor
    · rintro ⟨line, rest, he, hl⟩
      exact ⟨line, rest, he, hl, h line rest he hl⟩
    · rintro ⟨line, rest, he, hl, -⟩
      exact ⟨line, rest, he, hl⟩

/-- A head that was cut off behind its first line is valid. -/
theorem valid_cut_off : ¬ ((parseRequest (fun _ qs => qs) (str "GET / HTTP/1.1\r\n")).valid = true ↔
    InGrammar (str "GET / HTTP/1.1\r\n")) := by
  intro h
  have hv : (parseRequest (fun _ qs => qs) (str "GET / HTTP/1.1\r\n")).valid = true := by decide +kernel
  obtain ⟨line, rest, he, -, headers, body, rfl, -⟩ := h.1 hv
  -- a head in the grammar has two line feeds
  have hcount := congrArg (List.count lineFeed) he
  simp only [List.count_append] at hcount
  have h1 : List.count lineFeed (str "GET / HTTP/1.1\r\n") = 1 := by decide +kernel
  have h2 : List.count lineFeed (str "\r\n") = 1 := by decide +kernel
  omega

end GittyUp.Http
