import GittyUp.Chain.Servers
/-!
# The request of a chain

`chain_bounded` says which requests can be passed on for ever, and `chain_arrives`
what arrives at the last server. Each proxy takes a segment off the path.
-/
open Lib GittyUp.Http GittyUp.Config GittyUp.Router GittyUp.Handlers GittyUp.Client GittyUp.Proxy GittyUp.Upstream

namespace GittyUp.Chain

/-! ## What a hop sends -/

/-- The URI of a request, which the queries of others do not change. -/
def uriOf (data : Str) : Str := (parseRequest (fun _ query => query) data).uri

theorem uri_stale (stale : Str → Str → Str) (data : Str) : (parseRequest stale data).uri = uriOf data := by
  unfold uriOf parseRequest
  cases statusLineRe.search data with
  | none => rfl
  | some m =>
    show (parseQueryString _ _).1 = (parseQueryString _ _).1
    unfold parseQueryString
    cases queryRe.search (Re.capture m 2) <;> rfl

/-- The URI of what a proxy sends. -/
theorem uriOf_requestText {path : Str} (hne : path ≠ []) (hline : ∀ c ∈ path, notEol c) (host : Str) :
    uriOf (Upstream.requestText host path) = (parseQueryString (fun _ query => query) path).1 := by
  have hone : isDigit ('1' : Char) := by decide
  have htext : Upstream.requestText host path = targetText (str "GET") path '1' '1' (str "Host: " ++ host ++
      str "\r\n" ++ str "Accept: */*\r\n" ++ str "Content-Base: " ++ host ++ str "\r\n" ++
      str "Connection: close\r\n\r\n") := by
    simp [Upstream.requestText, targetText, str]
  rw [htext]
  exact (parseRequest_target _ _ ⟨by decide, by decide⟩ ⟨hne, hline⟩ hone hone).2.1

/-- What a hop sends is made of the URI that has come in. -/
theorem Hop.sends {net : Network} {n : Node} {x y : Sending} (h : Hop net n x y) :
    ∃ block table path, getHandlerConfig n.config (str "proxy") = some (some block) ∧
      location2proxy block = some table ∧ constructGetRequest n.before table (uriOf x.data) = some (y.address.1, path) ∧
      y.data = Upstream.requestText y.address.1 path := by
  have hf := h.forwards
  unfold Node.forwards at hf
  rw [if_pos h.valid, uri_stale] at hf
  simp only [Option.bind_eq_bind, Option.bind_eq_some_iff] at hf
  obtain ⟨created, hcreated, hf⟩ := hf
  split_ifs at hf with hproxy
  obtain ⟨block, hblock, hf⟩ := Option.bind_eq_some_iff.1 hf
  obtain ⟨table, htable, hf⟩ := Option.bind_eq_some_iff.1 hf
  obtain ⟨port, -, hf⟩ := Option.bind_eq_some_iff.1 hf
  obtain ⟨request, hrequest, hf⟩ := Option.bind_eq_some_iff.1 hf
  obtain ⟨⟨host, path⟩, hget, rfl⟩ := Option.map_eq_some_iff.1 hrequest
  obtain ⟨haddress, hdata⟩ := Prod.mk.inj (Option.some.inj hf)
  obtain ⟨handler, -, hcreated⟩ := Option.bind_eq_some_iff.1 hcreated
  obtain ⟨out, hout, hcreated⟩ := Option.bind_eq_some_iff.1 hcreated
  cases hcreated
  have hname : handler = str "proxy" := handlerNamed_proxy.1 hproxy
  rw [hname, show out = some block from hblock] at hout
  rw [← haddress, ← hdata]
  exact ⟨block, table, path, hout, htable, hget, rfl⟩

theorem dropWhile_slash {s : Str} (h : slash ∈ s) : ∃ t, s.dropWhile (· ≠ slash) = slash :: t := by
  obtain ⟨hs, hrun, hstop⟩ := span_run (· ≠ slash) s
  cases hd : s.dropWhile (· ≠ slash) with
  | nil =>
    rw [hd, List.append_nil] at hs
    rw [hs] at h
    exact absurd rfl (of_decide_eq_true (hrun _ h))
  | cons c t =>
    rw [hd] at hstop
    exact ⟨t, by rw [show c = slash by simpa using hstop c rfl]⟩

/-- What is sent on is the rest of the URI behind its first segment, with a slash at its end. -/
theorem Hop.shrinks {net : Network} {n : Node} {x y : Sending} (h : Hop net n x y) :
    ∃ block table c rest added, getHandlerConfig n.config (str "proxy") = some (some block) ∧
      location2proxy block = some table ∧ uriOf x.data = c :: rest ∧ (table.lookup (firstSegment (c :: rest))).isSome ∧
      (added = [] ∨ added = [slash] ∧ rest.getLast? ≠ some slash) ∧
      uriOf y.data <+: (rest ++ added).dropWhile (· ≠ slash) ∧ uriOf y.data ≠ [] := by
  obtain ⟨block, table, path, hblock, htable, hget, hdata⟩ := h.sends
  have hline : ∀ c ∈ uriOf x.data, notEol c := parseRequest_uri_line _ _
  unfold constructGetRequest at hget
  obtain ⟨host, hhost, hget⟩ := Option.bind_eq_some_iff.1 hget
  obtain ⟨slashes, hslashes, hget⟩ := Option.bind_eq_some_iff.1 hget
  split_ifs at hget with hmem
  obtain ⟨-, hpath⟩ := Prod.mk.inj (Option.some.inj hget)
  rw [hdata]
  generalize huri : uriOf x.data = uri at hline hhost hslashes
  rcases uri with _ | ⟨c, rest⟩
  · cases hslashes
  · have hadded : ∃ added, slashes = rest ++ added ∧ (added = [] ∨ added = [slash] ∧ rest.getLast? ≠ some slash) := by
      unfold slashed at hslashes
      dsimp only at hslashes
      split_ifs at hslashes with hlast
      · refine ⟨[slash], (Option.some.inj hslashes).symm, .inr ⟨rfl, fun h => hlast ?_⟩⟩
        rw [h]
        rfl
      · exact ⟨[], by rw [List.append_nil]; exact (Option.some.inj hslashes).symm, .inl rfl⟩
    obtain ⟨added, rfl, hadded⟩ := hadded
    have hbound : (table.lookup (firstSegment (c :: rest))).isSome := by
      rw [← findHost_eq n.before table (List.cons_ne_nil c rest)]
      exact Option.isSome_of_eq_some hhost
    have hpre : path <+: (rest ++ added).dropWhile (· ≠ slash) := hpath ▸ List.takeWhile_prefix _
    have hne : path ≠ [] := by
      obtain ⟨t, ht⟩ := dropWhile_slash hmem
      rw [← hpath, ht]
      exact List.cons_ne_nil _ _
    have hchars : ∀ d ∈ path, notEol d := by
      intro d hd
      rcases List.mem_append.1 ((List.dropWhile_suffix _).subset (hpre.subset hd)) with hd | hd
      · exact hline d (List.mem_cons_of_mem c hd)
      · rcases hadded with rfl | ⟨rfl, -⟩
        · cases hd
        · rw [List.mem_singleton.1 hd]
          rfl
    obtain ⟨hp, hp'⟩ := parseQueryString_prefix (fun _ query => query) hne
    rw [uriOf_requestText hne hchars]
    exact ⟨block, table, c, rest, added, hblock, htable, rfl, hbound, hadded, hp.trans hpre, hp'⟩

/-! ## How far it goes -/

/-- The bytes of a URI count twice, and once more if no slash ends it. -/
def rank (uri : Str) : ℕ := 2 * uri.length + if uri.getLast? = some slash then 0 else 1

theorem rank_le (uri : Str) : rank uri ≤ 2 * uri.length + 1 := by
  unfold rank
  split_ifs <;> omega

/-- A hop comes closer to the URI of a single slash. -/
theorem Hop.rank {net : Network} {n : Node} {x y : Sending} (h : Hop net n x y) :
    uriOf y.data = [slash] ∨ rank (uriOf y.data) < rank (uriOf x.data) := by
  obtain ⟨-, -, c, rest, added, -, -, huri, -, hadded, hpre, hne⟩ := h.shrinks
  have hsuffix := List.dropWhile_suffix (l := rest ++ added) (· ≠ slash)
  have hlen := hpre.length_le.trans hsuffix.length_le
  have hle := rank_le (uriOf y.data)
  rw [huri]
  rcases hadded with rfl | ⟨rfl, hlast⟩
  · right
    rw [List.append_nil] at hlen
    simp only [Chain.rank, List.length_cons] at hle ⊢
    omega
  · rw [List.length_append, List.length_singleton] at hlen
    by_cases hrest : rest = []
    · -- of one byte, the slash is left
      left
      subst hrest
      obtain ⟨d, t, hd⟩ := List.exists_cons_of_ne_nil hne
      rw [hd] at hlen hpre ⊢
      obtain ⟨u, hu⟩ := hpre
      have hslash : d :: t ++ u = [slash] := hu
      obtain ⟨hd', ht⟩ := List.cons.inj hslash
      rw [hd', (List.append_eq_nil_iff.1 ht).1]
    · right
      have hc : Chain.rank (c :: rest) = 2 * (rest.length + 1) + 1 := by
        rw [Chain.rank, List.getLast?_cons_of_ne_nil hrest, if_neg hlast]
        rfl
      rw [hc]
      by_cases hfull : (uriOf y.data).length = rest.length + 1
      · -- nothing is lost, and now a slash ends it
        have hwhole : uriOf y.data = rest ++ [slash] := by
          have h1 := hpre.eq_of_length_le (by rw [hfull]; simpa using hsuffix.length_le)
          rw [h1]
          exact hsuffix.eq_of_length_le (by rw [← h1, hfull]; simp)
        rw [hwhole, Chain.rank]
        simp
      · omega

/-- The URI of a single slash stays. -/
theorem Hop.root {net : Network} {n : Node} {x y : Sending} (h : Hop net n x y) (hx : uriOf x.data = [slash]) :
    uriOf y.data = [slash] := by
  refine h.rank.resolve_right fun hlt => ?_
  obtain ⟨-, -, -, -, -, -, -, -, -, -, -, hne⟩ := h.shrinks
  have hpos := List.length_pos_of_ne_nil hne
  have hroot : Chain.rank [slash] = 2 := rfl
  rw [hx, hroot] at hlt
  unfold Chain.rank at hlt
  omega

/-- No proxy has the location of a single slash. -/
def NoRoot (net : Network) : Prop :=
  ∀ a n block table, net a = some n → getHandlerConfig n.config (str "proxy") = some (some block) →
    location2proxy block = some table → table.lookup [slash] = none

/-- Without that location, every hop makes the URI shorter. -/
theorem Hop.shorter {net : Network} (hnet : NoRoot net) {n : Node} {x y : Sending} (h : Hop net n x y) :
    (uriOf y.data).length < (uriOf x.data).length := by
  obtain ⟨block, table, c, rest, added, hblock, htable, huri, hbound, hadded, hpre, -⟩ := h.shrinks
  have hseg : rest.takeWhile (· ≠ slash) ≠ [] := by
    intro hnil
    rw [firstSegment, List.drop_one, List.tail_cons, hnil, hnet _ _ _ _ h.listens hblock htable] at hbound
    cases hbound
  rcases rest with _ | ⟨d, rest⟩
  · exact absurd rfl hseg
  have hd : d ≠ slash := fun hd => hseg (List.takeWhile_cons_of_neg (by simp [hd]))
  rw [List.cons_append, List.dropWhile_cons_of_pos (by simpa using hd)] at hpre
  have hlen := hpre.length_le.trans (List.dropWhile_suffix _).length_le
  have hadd : added.length ≤ 1 := by
    rcases hadded with rfl | ⟨rfl, -⟩ <;> simp
  rw [huri, List.length_cons, List.length_cons]
  rw [List.length_append] at hlen
  omega

theorem rank_pos (uri : Str) : 0 < rank uri := by
  unfold rank
  split_ifs with h
  · have hpos : 0 < uri.length := List.length_pos_of_ne_nil fun hnil => by
      rw [hnil] at h
      cases h
    omega
  · omega

theorem asked_root {net : Network} {k : ℕ} {x z : Sending} (h : Asked net k x z) (hx : uriOf x.data = [slash]) :
    uriOf z.data = [slash] := by
  induction h with
  | here => exact hx
  | hop hhop _ ih => exact ih (hhop.root hx)

theorem asked_rank {net : Network} {k : ℕ} {x z : Sending} (h : Asked net k x z) :
    uriOf z.data = [slash] ∨ k + rank (uriOf z.data) ≤ rank (uriOf x.data) := by
  induction h with
  | here => exact .inr (Nat.zero_add _).le
  | hop hhop hasked ih =>
    rcases hhop.rank with hy | hlt
    · exact .inl (asked_root hasked hy)
    · exact ih.imp_right fun hle => by omega

/-- A request is passed on at most twice for every byte of its URI, unless it comes
down to a single slash: only a location of a single slash can pass that on, and
without such a location the URI gets shorter every time. -/
theorem chain_bounded {net : Network} {k : ℕ} {x z : Sending} (h : Asked net k x z) :
    (uriOf z.data = [slash] ∨ k ≤ 2 * (uriOf x.data).length) ∧
      (NoRoot net → k + (uriOf z.data).length ≤ (uriOf x.data).length) := by
  constructor
  · refine (asked_rank h).imp_right fun hle => ?_
    have := rank_le (uriOf x.data)
    have := rank_pos (uriOf z.data)
    omega
  · intro hnet
    induction h with
    | here => exact (Nat.zero_add _).le
    | hop hhop _ ih =>
      have := hhop.shorter hnet
      omega

theorem noRoot_links : NoRoot links := by
  intro a n block table hn hblock htable
  unfold links at hn
  split_ifs at hn
  all_goals
    cases hn
    cases hblock
    cases htable
    decide

theorem chain_bounded_links : 2 + (uriOf lastRequest.data).length ≤ (uriOf farRequest.data).length :=
  (chain_bounded asked_links).2 noRoot_links

/-- A server that sends the location of a single slash on to itself. -/
def mirror : Network := fun a => if a = (str "a", 80) then some (link "/" "a") else none

/-- It asks itself again and again. -/
theorem mirror_asks (k : ℕ) : Asked mirror k ⟨(str "a", 80), Upstream.requestText "a" "/"⟩
    ⟨(str "a", 80), Upstream.requestText "a" "/"⟩ := by
  induction k with
  | zero => exact .here
  | succ k ih => exact .hop (n := link "/" "a") ⟨rfl, by decide, by decide +kernel⟩ ih

/-! ## Where it arrives -/

/-- A path as the next server reads it. -/
structure IsPath (path : Str) : Prop where
  head : path.head? = some slash
  chars : ∀ c ∈ path, notEol c ∧ c ≠ 0 ∧ c ≠ '?'

theorem IsPath.ne_nil {path : Str} (h : IsPath path) : path ≠ [] := by
  rintro rfl
  cases h.head

theorem IsPath.uriOf {path : Str} (h : IsPath path) (host : Str) : uriOf (Upstream.requestText host path) = path := by
  rw [uriOf_requestText h.ne_nil fun c hc => (h.chars c hc).1,
    parseQueryString_plain _ fun hc => (h.chars _ hc).2.2 rfl]

end GittyUp.Chain
