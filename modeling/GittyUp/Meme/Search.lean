import GittyUp.Http.Query
import GittyUp.Lib.Like
import GittyUp.Meme.Failure
import GittyUp.Meme.Store
import GittyUp.UriCodec
/-!
# Searches

From the target of a search to the rows that it lists: the query is encoded in the
URI, decoded by the handler and put between the percent signs of a pattern. The
pattern takes `%` and `_` in the query for wildcards.
-/
open Lib Lib.Sql GittyUp.Http GittyUp.SqlLib

namespace GittyUp.Meme

/-! ## The query in the URI -/

/-- `GET /memes/search/` with an encoded query. -/
def searchText (q rest : Str) : Str :=
  targetText (str "GET") (str "/memes/search/" ++ uriEncode q) '1' '1' rest

theorem uriEncode_chars (q : Str) : ∀ c ∈ uriEncode q, notEol c ∧ c ≠ '?' := by
  have safe : ∀ c : Byte, (isSafe c ∨ isLowerHex c ∨ c = '%') → notEol c ∧ c ≠ '?' :=
    forall_byte (by decide +kernel)
  intro c hc
  obtain ⟨d, -, hc⟩ := List.mem_flatMap.1 hc
  refine safe c ?_
  rcases encodeChar_group d with ⟨e, he, hs⟩ | ⟨h, l, he, hh, hl⟩
  · rw [he, List.mem_singleton] at hc
    rw [hc]
    exact .inl hs
  · simp only [he, List.mem_cons, List.not_mem_nil, or_false] at hc
    rcases hc with rfl | rfl | rfl
    · exact .inr (.inr rfl)
    · exact .inr (.inl hh)
    · exact .inr (.inl hl)

theorem uriEncode_ne_nil {q : Str} (hq : q ≠ []) : uriEncode q ≠ [] := by
  intro h
  have := uriDecode_uriEncode q
  rw [h] at this
  exact hq (Except.ok.inj this).symm

/-- What is behind the first `/memes/`. -/
theorem checkUri_memes {w : Str} (hw : ∀ c ∈ w, notEol c) : checkUri (str "/memes/" ++ w) = w := by
  -- the match is at the start of the URI
  have hstart : ∀ n, (uriRe.matchAt n (str "/memes/" ++ w)).isSome := by
    intro n
    have hlit : (Re.lit '/' "memes/").Matches n (str "/memes/" ++ w) [] w [] := Re.matches_lit.2 ⟨rfl, rfl⟩
    have hmany : (Re.many notEol).Matches n w [] [] [] := ⟨w, hw, (List.append_nil w).symm, rfl⟩
    exact Re.run_complete (k := fun s caps => some (s, caps))
      ⟨[], _, ⟨w, [], hlit, [], hmany, rfl⟩, rfl, rfl, rfl⟩ rfl
  obtain ⟨⟨s', m⟩, hm⟩ := Option.isSome_iff_exists.1 (hstart (str "/memes/" ++ w).length)
  have hsearch : uriRe.search (str "/memes/" ++ w) = some m := by
    rw [Re.search, Re.searchFrom_here hm]
    rfl
  obtain ⟨s', caps, ⟨t, _, ⟨u, _, hlit, _, ⟨cs, -, rfl, rfl⟩, rfl⟩, rfl, rfl, rfl⟩, he⟩ := Re.run_sound hm
  cases he
  obtain ⟨hu, rfl⟩ := Re.matches_lit.1 hlit
  unfold checkUri
  rw [hsearch]
  have hw : w = cs ++ [] := List.append_cancel_left (show str "/memes/" ++ w = str "/memes/" ++ (cs ++ []) from hu)
  rw [hw]
  exact (take_sub_append cs []).trans (List.append_nil cs).symm

/-- A `GET` for what is behind `/memes/`, without a query. -/
theorem parseRequest_memes (stale : Str → Str → Str) {major minor : Byte} (hj : isDigit major) (hn : isDigit minor)
    (rest : Str) {w : Str} (hw : ∀ c ∈ w, notEol c ∧ c ≠ '?') :
    (parseRequest stale (targetText (str "GET") (str "/memes/" ++ w) major minor rest)).method = str "GET" ∧
    checkUri (parseRequest stale (targetText (str "GET") (str "/memes/" ++ w) major minor rest)).uri = w := by
  have hlead : ∀ c ∈ str "/memes/", notEol c ∧ c ≠ '?' := by decide
  have hline : ∀ c ∈ str "/memes/" ++ w, notEol c ∧ c ≠ '?' := by
    intro c hc
    rcases List.mem_append.1 hc with hc | hc
    · exact hlead c hc
    · exact hw c hc
  have hget : str "GET" ≠ [] ∧ ∀ c ∈ str "GET", isWord c := ⟨by decide, by decide⟩
  obtain ⟨hmethod, huri, -⟩ := parseRequest_target stale rest hget ⟨by simp [str], fun c hc => (hline c hc).1⟩ hj hn
  rw [parseQueryString_plain stale fun hc => (hline _ hc).2 rfl] at huri
  rw [huri]
  exact ⟨hmethod, checkUri_memes fun c hc => (hw c hc).1⟩

/-- A search asks for its query. -/
theorem command_search (stale : Str → Str → Str) (rest : Str) {q : Str} (hq : q ≠ []) :
    command (parseRequest stale (searchText q rest)) = .search q := by
  have hpath : ∀ c ∈ str "search/", notEol c ∧ c ≠ '?' := by decide
  have hline : ∀ c ∈ str "search/" ++ uriEncode q, notEol c ∧ c ≠ '?' := by
    intro c hc
    rcases List.mem_append.1 hc with hc | hc
    · exact hpath c hc
    · exact uriEncode_chars q c hc
  have hone : isDigit ('1' : Char) := by decide
  obtain ⟨hmethod, hcheck⟩ := parseRequest_memes stale hone hone rest hline
  have htext : searchText q rest = targetText (str "GET") (str "/memes/" ++ (str "search/" ++ uriEncode q)) '1' '1' rest := rfl
  rw [htext, command_get hmethod, hcheck, getCommand_search (uriEncode_ne_nil hq), uriDecode_uriEncode q]

/-! ## What is listed -/

/-- The query is in the top or the bottom caption. -/
def captioned (q : Str) (m : Record) : Bool := contains q m.topCaption || contains q m.bottomCaption

/-- The answer lists these memes, and no others. -/
def Lists (keep : Record → Bool) (ms : List Record) (x : Except StdException Response) : Prop :=
  ∃ rows : List Row, rows.Perm ((ms.filter keep).map fun m => m.row.map cStr) ∧
    x = .ok (respond 200 (getMimeType ".json") (listOutput rows))

/-- Each counter in the table is an `int`. -/
def Counted (ms : List Record) : Prop := ∀ m ∈ ms, ∃ n, stoi (cStr m.timesViewed) = .ok n

/-- In a reachable table they are. -/
theorem counted_of_valid {ms : List Record} (h : ∀ m ∈ ms, m.Valid) : Counted ms := by
  intro m hm
  obtain ⟨n, hn, hs⟩ := (h m hm).timesViewed
  refine ⟨n, ?_⟩
  rw [hn, cStr_dec, ← hn]
  exact hs

section Answers
variable {engine : Db → Call → Reply → Db → Prop} {ms : List Record} {db' : Db} {x : Except StdException Response}

/-- A search lists what its pattern matches. -/
theorem runs_search (hd : Documented like engine) (hc : Counted ms) (stale : Str → Str → Str) (rest : Str) {q : Str}
    (hq : q ≠ []) {uuid : MemeId}
    (h : Runs engine (memeDb ms) (serve uuid.text (parseRequest stale (searchText q rest))) x db') :
    Lists (Statement.matching like q) ms x := by
  have hcommand := command_search stale rest hq
  generalize parseRequest stale (searchText q rest) = req at h hcommand
  have h := runs_command hd (req, uuid) h
  rw [hcommand] at h
  obtain ⟨r, hf, h⟩ := runs_collect hd (.search q) rfl h _ id
  obtain ⟨⟨found, hrows, hperm⟩, -⟩ := hf
  have hread : (r.rows.map (·.map cStr)).Perm ((ms.filter (Statement.matching like q)).map fun m => m.row.map cStr) := by
    rw [hrows, List.map_map]
    exact hperm.map _
  obtain ⟨-, ⟨hbad, -⟩ | ⟨-, sorted, hsorted, rfl⟩⟩ := runs_sorted h
  · -- every row that was found has a counter
    obtain ⟨-, row, hrow, e, he⟩ := hbad
    obtain ⟨m, hm, rfl⟩ := List.mem_map.1 (hread.subset hrow)
    obtain ⟨n, hn⟩ := hc m (List.mem_filter.1 hm).1
    cases he.symm.trans hn
  · exact ⟨sorted, hsorted.trans hread, rfl⟩

end Answers

/-- Without wildcards, the pattern matches what contains the query. -/
theorem matching_literal {q : Str} (hq : Literal q) (hnul : ∀ c ∈ q, c ≠ 0) : Statement.matching like q = captioned q := by
  funext m
  have hpattern := like_literal hq
  unfold Statement.matching captioned
  rw [cStr_of_noNul hnul, ← hpattern, ← hpattern]
  rfl

/-- A meme whose captions the pattern matches and that do not contain the query. -/
def decoy (q : Str) : Record := ⟨sampleId.text, "a.jpg", fill q, fill q, "0"⟩

theorem decoy_matching {q : Str} (hnul : ∀ c ∈ q, c ≠ 0) : Statement.matching like q (decoy q) = true := by
  have : like (str "%" ++ q ++ str "%") (fill q) = true := likeFrom_fill true q
  unfold Statement.matching
  rw [cStr_of_noNul hnul]
  show (like _ (fill q) || like _ (fill q)) = true
  rw [this]
  rfl

theorem decoy_not_captioned {q : Str} (hq : ¬ Literal q) : captioned q (decoy q) = false := by
  have : contains q (fill q) = false := by
    rw [Bool.eq_false_iff]
    exact fun h => hq (literal_of_contains (literal_fill q) h)
  show (contains q (fill q) || contains q (fill q)) = false
  rw [this]
  rfl

theorem listOutput_ne (row : Row) : listOutput [row] ≠ listOutput [] := by
  intro h
  have hlen := congrArg List.length h
  rw [listOutput_eq, listOutput_eq] at hlen
  simp [str, listEntry] at hlen

/-- The answer tells whether the only meme is listed. -/
theorem lists_unique {keep keep' : Record → Bool} {m : Record} {x : Except StdException Response} (h : Lists keep [m] x)
    (h' : Lists keep' [m] x) (hm : keep m = true) : keep' m = true := by
  obtain ⟨rows, hrows, hx⟩ := h
  obtain ⟨rows', hrows', hx'⟩ := h'
  have hbody : listOutput rows = listOutput rows' := congrArg Response.responseBody (Except.ok.inj (hx.symm.trans hx'))
  rw [List.filter_cons_of_pos hm, List.filter_nil, List.map_singleton, List.perm_singleton] at hrows
  by_contra hm'
  rw [List.filter_cons_of_neg hm', List.filter_nil, List.map_nil, List.perm_nil] at hrows'
  rw [hrows, hrows'] at hbody
  exact listOutput_ne _ hbody

/-- A new meme has a counter. -/
theorem counted_new {m : Record} (h : m.timesViewed = str "0") : Counted [m] := by
  intro m' hm
  have hzero : cStr (str "0") = dec 0 := by decide
  rw [List.mem_singleton.1 hm, h, hzero]
  exact ⟨_, stoi_dec (Nat.two_pow_pos 31)⟩

/-- For every table a search lists the memes with the query in a caption, and no
others, if and only if the query has no wildcards. -/
theorem search_iff (stale : Str → Str → Str) (rest : Str) {q : Str} (hq : q ≠ []) (hnul : ∀ c ∈ q, c ≠ 0) :
    (∀ (engine : Db → Call → Reply → Db → Prop) (ms : List Record) (uuid : MemeId) (x : Except StdException Response)
        (db' : Db), Documented like engine → Counted ms →
        Runs engine (memeDb ms) (serve uuid.text (parseRequest stale (searchText q rest))) x db' →
        Lists (captioned q) ms x) ↔ Literal q := by
  constructor
  · intro h
    by_contra hl
    have hd : Documented like (computes like) := documented_computes like
    have hc : Counted [decoy q] := counted_new rfl
    have hrun : Runs (computes like) (memeDb [decoy q])
        (serve sampleId.text (parseRequest stale (searchText q rest))) _ _ := runs_eval (fun _ _ => rfl) _ _
    -- the decoy is listed and should not be
    have := lists_unique (runs_search hd hc stale rest hq hrun) (h _ _ _ _ _ hd hc hrun) (decoy_matching hnul)
    rw [decoy_not_captioned hl] at this
    cases this
  · intro hl engine ms uuid x db' hd hc hrun
    rw [← matching_literal hl hnul]
    exact runs_search hd hc stale rest hq hrun

/-- In a reachable table, too, a query without wildcards lists what contains it. -/
theorem search_reachable {engine : Db → Call → Reply → Db → Prop} (hd : Documented like engine)
    {p : Pool Db Call Reply StdException Response Input} (hp : Reachable (memeSystem engine anyOrder) (memeDb []) p)
    (hviews : FewViews p.world) (stale : Str → Str → Str) (rest : Str) {q : Str} (hq : q ≠ []) (hnul : ∀ c ∈ q, c ≠ 0)
    (hl : Literal q) {uuid : MemeId} {x : Except StdException Response} {db' : Db}
    (h : Runs engine p.world.store (serve uuid.text (parseRequest stale (searchText q rest))) x db') :
    ∃ ms, p.world.store = memeDb ms ∧ Lists (captioned q) ms x := by
  obtain ⟨ms, hms, -, hvalid⟩ := reachable_valid hd hp hviews
  rw [hms] at h
  refine ⟨ms, hms, ?_⟩
  rw [← matching_literal hl hnul]
  exact runs_search hd (counted_of_valid hvalid) stale rest hq h

/-- The answer to a search when the sample is stored. -/
def searched (q : Str) : Except StdException Response :=
  ((serve firstId.text (parseRequest (fun _ q => q) (searchText q (str "\r\n")))).eval (textEngine like) (memeDb [sample])).1

theorem runs_searched (q : Str) : ∃ db', Runs (computes like) (memeDb [sample])
    (serve firstId.text (parseRequest (fun _ q => q) (searchText q (str "\r\n")))) (searched q) db' :=
  ⟨_, runs_eval (fun _ _ => rfl) _ _⟩

theorem search_letters : captioned "B C" sample = true ∧ Lists (captioned "B C") [sample] (searched "B C") := by
  obtain ⟨db', hrun⟩ := runs_searched "B C"
  have hl : Literal "B C" := by
    unfold Literal
    decide
  exact ⟨by decide, (search_iff _ _ (by decide) (by decide)).2 hl _ _ _ _ _ (documented_computes like) (counted_new rfl) hrun⟩

/-- A search for an underscore lists a meme that has none. -/
theorem search_underscore : captioned "_" sample = false ∧ ¬ Lists (captioned "_") [sample] (searched "_") := by
  obtain ⟨db', hrun⟩ := runs_searched "_"
  refine ⟨by decide, fun h => ?_⟩
  have hfound := runs_search (documented_computes like) (counted_new rfl) _ _ (by decide) hrun
  exact absurd (lists_unique hfound h (by decide)) (by decide)

end GittyUp.Meme
