import GittyUp.Http.Head
/-!
# The target of a request

What `parse_query_string` of `src/request.cc` makes of a target: the path in
front of the question mark, and the pairs behind it. The expression for a pair
takes as little as it can, which is one byte for a value.
-/
open Lib

namespace GittyUp.Http

/-- `get_query_string_param`. -/
def Request.getQueryStringParam (req : Request) (name : Str) : Str := (req.queryString.lookup name).getD []

/-- A request line for a target, and what is behind it. -/
def targetText (method target : Str) (major minor : Byte) (rest : Str) : Str :=
  method ++ str " " ++ target ++ str " HTTP/" ++ [major] ++ str "." ++ [minor] ++ str "\r\n" ++ rest

/-! ## The target of a request line -/

/-- A text is a request line with its method and target in one way only. -/
theorem targetText_unique {method target method' target' rest rest' : Str} {major minor major' minor' : Byte}
    (hm : ∀ c ∈ method, isWord c) (ht : ∀ c ∈ target, notEol c) (hj : isDigit major) (hn : isDigit minor)
    (hm' : ∀ c ∈ method', isWord c) (ht' : ∀ c ∈ target', notEol c) (hj' : isDigit major') (hn' : isDigit minor')
    (h : targetText method target major minor rest = targetText method' target' major' minor' rest') :
    method = method' ∧ target = target' := by
  have blank : ∀ s : Str, StopsAt isWord (str " " ++ s) := by
    rintro s _ ⟨rfl⟩
    decide
  have line : ∀ {target : Str} {major minor : Byte} (rest : Str), (∀ c ∈ target, notEol c) → isDigit major →
      isDigit minor → (target ++ (str " HTTP/" ++ [major] ++ str "." ++ [minor]) ++ (str "\r\n" ++ rest)).takeWhile notEol =
        target ++ (str " HTTP/" ++ [major] ++ str "." ++ [minor]) := by
    intro target major minor rest ht hj hn
    refine takeWhile_run (fun c hc => ?_) ?_
    · simp only [List.mem_append, List.mem_singleton] at hc
      rcases hc with hc | ((hc | rfl) | hc) | rfl
      · exact ht c hc
      · revert c; decide
      · exact isDigit_notEol hj
      · revert c; decide
      · exact isDigit_notEol hn
    · rintro _ ⟨rfl⟩
      decide
  have word : ∀ {method : Str} (target : Str) (major minor : Byte) (rest : Str), (∀ c ∈ method, isWord c) →
      (targetText method target major minor rest).takeWhile isWord = method := by
    intro method target major minor rest hm
    simp only [targetText, List.append_assoc]
    exact takeWhile_run hm (blank _)
  have hmethod : method = method' := by rw [← word target major minor rest hm, h, word _ _ _ _ hm']
  subst hmethod
  refine ⟨rfl, ?_⟩
  have htail : target ++ (str " HTTP/" ++ [major] ++ str "." ++ [minor]) ++ (str "\r\n" ++ rest) =
      target' ++ (str " HTTP/" ++ [major'] ++ str "." ++ [minor']) ++ (str "\r\n" ++ rest') := by
    simp only [targetText, List.append_assoc] at h ⊢
    exact List.append_cancel_left (List.append_cancel_left h)
  -- what is behind the target has nine bytes
  have hline := congrArg (List.takeWhile notEol) htail
  rw [line rest ht hj hn, line rest' ht' hj' hn'] at hline
  exact (List.append_inj' hline rfl).1

/-- A request has the method and the target of its request line. -/
theorem parseRequest_target (stale : Str → Str → Str) {method target : Str} {major minor : Byte} (rest : Str)
    (hm : method ≠ [] ∧ ∀ c ∈ method, isWord c) (ht : target ≠ [] ∧ ∀ c ∈ target, notEol c) (hj : isDigit major)
    (hn : isDigit minor) :
    (parseRequest stale (targetText method target major minor rest)).method = method ∧
    (parseRequest stale (targetText method target major minor rest)).uri = (parseQueryString stale target).1 ∧
    (parseRequest stale (targetText method target major minor rest)).queryString = (parseQueryString stale target).2 := by
  have hr : Requests (targetText method target major minor rest) :=
    ⟨_, rest, rfl, method, target, major, minor, rfl, hm, ht, hj, hn⟩
  have hv := (valid_iff stale _).2 hr
  rw [parseRequest_valid] at hv
  obtain ⟨m, hs⟩ := Option.isSome_iff_exists.1 hv
  obtain ⟨method', target', major', minor', rest', he, hm', ht', hj', hn', h1, h2⟩ := statusLine_sound hs
  obtain ⟨rfl, rfl⟩ := targetText_unique hm.2 ht.2 hj hn hm'.2 ht'.2 hj' hn' he
  unfold parseRequest
  rw [hs]
  dsimp only
  rw [h1, h2]
  exact ⟨rfl, rfl, rfl⟩

/-- What is found is a path, a question mark and the query behind it. -/
theorem queryRe_sound {uri : Str} {m : Captures} (h : queryRe.search uri = some m) :
    ∃ path query, uri = path ++ ((('?' : Char) : Byte) :: query) ∧ (path ≠ [] ∧ ∀ c ∈ path, notEol c) ∧
      Re.capture m 1 = path ∧ Re.capture m 2 = query := by
  obtain ⟨pre, s, rest, rfl, t₄, _, ⟨t₃, _, ⟨t₂, _, ⟨t₁, _, hstart, _, h₁, rfl⟩, h₂⟩, _, h₃, rfl⟩, hend⟩ :=
    Re.search_sound h
  obtain ⟨hlen, rfl, rfl⟩ := hstart
  have hpre : pre = [] := by
    rw [List.length_append] at hlen
    exact List.length_eq_zero_iff.1 (by omega)
  obtain ⟨path, hp0, hp, rfl, rfl⟩ := Re.matches_plus.1 h₁
  obtain ⟨rfl, rfl⟩ := Re.matches_lit.1 h₂
  obtain ⟨query, hq, rfl, rfl⟩ := h₃
  obtain ⟨rfl, rfl, rfl⟩ := hend
  refine ⟨path, query, ?_, ⟨hp0, hp⟩, take_sub_append _ _, take_sub_append _ _⟩
  rw [hpre]
  simp

/-- A target without a question mark is the URI. -/
theorem parseQueryString_plain (stale : Str → Str → Str) {target : Str} (h : (('?' : Char) : Byte) ∉ target) :
    parseQueryString stale target = (target, []) := by
  unfold parseQueryString
  cases hm : queryRe.search target with
  | none => rfl
  | some m =>
    obtain ⟨path, query, rfl, -⟩ := queryRe_sound hm
    exact absurd (List.mem_append_right _ List.mem_cons_self) h

/-- The URI is what the target begins with. -/
theorem parseQueryString_prefix (stale : Str → Str → Str) {target : Str} (h : target ≠ []) :
    (parseQueryString stale target).1 <+: target ∧ (parseQueryString stale target).1 ≠ [] := by
  unfold parseQueryString
  cases hm : queryRe.search target with
  | none => exact ⟨List.prefix_rfl, h⟩
  | some m =>
    obtain ⟨path, query, rfl, hpath, h1, -⟩ := queryRe_sound hm
    dsimp only
    rw [h1]
    exact ⟨List.prefix_append _ _, hpath.1⟩

/-- The path in front of a question mark that ends the target. -/
theorem parseQueryString_mark (stale : Str → Str → Str) {path : Str} (h : path ≠ [] ∧ ∀ c ∈ path, notEol c) :
    (parseQueryString stale (path ++ str "?")).1 = path := by
  obtain ⟨c, w, rfl⟩ := List.exists_cons_of_ne_nil h.1
  have hc := h.2 c List.mem_cons_self
  have hw : ∀ d ∈ w, notEol d := fun d hd => h.2 d (List.mem_cons_of_mem _ hd)
  have hmark : str "?" = [(('?' : Char) : Byte)] := rfl
  rw [hmark]
  have hsearch : queryRe.search (c :: w ++ [(('?' : Char) : Byte)]) = some [(2, []), (1, c :: w)] := by
    have hmatch : queryRe.matchAt (c :: w ++ [(('?' : Char) : Byte)]).length (c :: w ++ [(('?' : Char) : Byte)]) =
        some ([], [(2, []), (1, c :: w)]) := by
      unfold queryRe Re.matchAt
      simp only [Re.run_append, Re.run, Re.run_lit, if_true, Re.plus, List.cons_append, if_pos hc]
      have hbehind := take_sub_append (c :: w) [(('?' : Char) : Byte)]
      rw [List.cons_append] at hbehind
      -- the repetition gives back the question mark only
      rw [Re.runMany_last hw (by decide) rfl (by simp [Re.runMany]), hbehind]
      simp [Re.runMany]
    unfold Re.search
    rw [Re.searchFrom_here hmatch]
    rfl
  unfold parseQueryString
  rw [hsearch]
  rfl

/-- The URI of a request is on one line. -/
theorem parseRequest_uri_line (stale : Str → Str → Str) (data : Str) :
    ∀ c ∈ (parseRequest stale data).uri, notEol c := by
  unfold parseRequest
  cases hs : statusLineRe.search data with
  | none => exact nofun
  | some m =>
    obtain ⟨_, target, _, _, _, -, -, ht, -, -, -, h2⟩ := statusLine_sound hs
    show ∀ c ∈ (parseQueryString stale (Re.capture m 2)).1, notEol c
    rw [h2]
    unfold parseQueryString
    cases hq : queryRe.search target with
    | none => exact ht.2
    | some q =>
      obtain ⟨path, query, -, hp, h1, -⟩ := queryRe_sound hq
      show ∀ c ∈ Re.capture q 1, notEol c
      rw [h1]
      exact hp.2

/-- The URIs that a valid request can have. -/
def RequestUri (uri : Str) : Prop :=
  ∃ stale data, (parseRequest stale data).valid = true ∧ (parseRequest stale data).uri = uri

/-- They are the texts on one line. -/
theorem requestUri_iff (uri : Str) : RequestUri uri ↔ uri ≠ [] ∧ ∀ c ∈ uri, notEol c := by
  constructor
  · rintro ⟨stale, data, hv, rfl⟩
    refine ⟨?_, parseRequest_uri_line stale data⟩
    rw [parseRequest_valid] at hv
    obtain ⟨m, hs⟩ := Option.isSome_iff_exists.1 hv
    obtain ⟨_, target, _, _, _, -, -, ht, -, -, -, h2⟩ := statusLine_sound hs
    unfold parseRequest
    rw [hs]
    show (parseQueryString stale (Re.capture m 2)).1 ≠ []
    rw [h2]
    unfold parseQueryString
    cases hq : queryRe.search target with
    | none => exact ht.1
    | some q =>
      obtain ⟨path, query, -, hp, h1, -⟩ := queryRe_sound hq
      show Re.capture q 1 ≠ []
      rw [h1]
      exact hp.1
  · intro h
    have hg : str "GET" ≠ [] ∧ ∀ c ∈ str "GET", isWord c := ⟨by decide, by decide⟩
    have hmark : ∀ c ∈ str "?", notEol c := by decide
    have ht : uri ++ str "?" ≠ [] ∧ ∀ c ∈ uri ++ str "?", notEol c := by
      refine ⟨by simp [h.1], fun c hc => ?_⟩
      rcases List.mem_append.1 hc with hc | hc
      · exact h.2 c hc
      · exact hmark c hc
    have hd : isDigit '1' := by decide
    refine ⟨fun _ q => q, targetText (str "GET") (uri ++ str "?") '1' '1' [], ?_, ?_⟩
    · exact (valid_iff _ _).2 ⟨_, [], rfl, _, _, _, _, rfl, hg, ht, hd, hd⟩
    · rw [(parseRequest_target _ [] hg ht hd hd).2.1, parseQueryString_mark _ h]

/-! ## The pairs of a query -/

/-- What a key or a value is made of. -/
def isQueryChar (c : Byte) : Bool := notEol c && c ≠ '?' && c ≠ '&' && c ≠ '=' && c ≠ ' '

/-- A key with its value, neither of them empty. -/
def QueryPair (kv : Str × Str) : Prop :=
  (kv.1 ≠ [] ∧ ∀ c ∈ kv.1, isQueryChar c) ∧ (kv.2 ≠ [] ∧ ∀ c ∈ kv.2, isQueryChar c)

/-- `k_1=v_1&...&k_n=v_n` -/
def queryText : List (Str × Str) → Str
  | [] => []
  | [kv] => kv.1 ++ str "=" ++ kv.2
  | kv :: kv' :: ps => kv.1 ++ str "=" ++ kv.2 ++ str "&" ++ queryText (kv' :: ps)

/-- The pairs that the iteration over a query inserts. -/
def pairsFrom (n fuel : Nat) (qs : Str) : List (Str × Str) :=
  (paramRe.findAllFrom n fuel qs).map fun caps => (Re.capture caps 1, Re.capture caps 2)

theorem isQueryChar_ne {c : Byte} (h : isQueryChar c) : notEol c ∧ c ≠ '?' ∧ c ≠ '&' ∧ c ≠ '=' := by
  simp [isQueryChar] at h
  tauto

theorem mem_queryText {ps : List (Str × Str)} (hps : ∀ kv ∈ ps, QueryPair kv) :
    ∀ c ∈ queryText ps, notEol c ∧ c ≠ '?' := by
  have pair : ∀ {kv : Str × Str}, QueryPair kv → ∀ c ∈ kv.1 ++ str "=" ++ kv.2, notEol c ∧ c ≠ '?' := by
    rintro kv ⟨⟨-, hk⟩, -, hv⟩ c hc
    simp only [List.mem_append] at hc
    rcases hc with (hc | hc) | hc
    · exact ⟨(isQueryChar_ne (hk c hc)).1, (isQueryChar_ne (hk c hc)).2.1⟩
    · revert c
      decide
    · exact ⟨(isQueryChar_ne (hv c hc)).1, (isQueryChar_ne (hv c hc)).2.1⟩
  fun_induction queryText ps with
  | case1 => exact nofun
  | case2 kv => exact pair (hps kv List.mem_cons_self)
  | case3 kv kv' ps ih =>
    intro c hc
    rcases List.mem_append.1 hc with hc | hc
    · rcases List.mem_append.1 hc with hc | hc
      · exact pair (hps kv List.mem_cons_self) c hc
      · obtain rfl := List.mem_singleton.1 hc
        decide
    · exact ih (fun kv hkv => hps kv (List.mem_cons_of_mem _ hkv)) c hc

/-- What is skipped between two pairs. -/
def isAmpersand (c : Byte) : Bool := c == ('&' : Char)

/-- What the expression makes of the text behind the key, of which the key is part. -/
def behindKey (n : Nat) (start s : Str) : Option (Str × Captures) :=
  (Re.lit '=' [] ++ .group 2 (.plusLazy notEol) ++ .group 3 (.many isAmpersand)).run n s
    [(1, start.take (start.length - s.length))] fun s caps => some (s, caps)

theorem behindKey_ne (n : Nat) (start : Str) {c : Byte} (hc : c ≠ '=') (t : Str) : behindKey n start (c :: t) = none := by
  unfold behindKey
  rw [Re.run_append, Re.run_append, Re.run_lit, if_neg]
  rintro ⟨_, ht⟩
  exact hc (List.cons.inj ht).1.symm

/-- One byte is taken for the value, whatever is behind it. -/
theorem behindKey_eq (n : Nat) (k : Str) {v : Byte} (hv : notEol v) (t : Str) :
    behindKey n (k ++ (str "=" ++ v :: t)) (str "=" ++ v :: t) =
      some (t.dropWhile isAmpersand, [(3, t.takeWhile isAmpersand), (2, [v]), (1, k)]) := by
  -- what is behind the value is found at once
  let behindValue (s : Str) : Option (Str × Captures) :=
    Re.runMany isAmpersand
      (fun s' => some (s', [(3, s.take (s.length - s'.length)), (2, (v :: t).take ((v :: t).length - s.length)), (1, k)])) s
  have run : behindKey n (k ++ (str "=" ++ v :: t)) (str "=" ++ v :: t) =
      if notEol v then Re.runManyLazy notEol behindValue t else none := by
    unfold behindKey
    rw [take_sub_append, Re.run_append, Re.run_append, Re.run_lit, if_pos ⟨v :: t, rfl⟩]
    rfl
  have amps : behindValue t = some (t.dropWhile isAmpersand,
      [(3, t.takeWhile isAmpersand), (2, [v]), (1, k)]) := by
    have hvalue : (v :: t).take ((v :: t).length - t.length) = [v] := take_sub_append [v] t
    show Re.runMany _ _ t = _
    rw [Re.runMany_greedy rfl, take_sub_dropWhile, hvalue]
  have lazy := Re.runManyLazy_skip (p := notEol) (k := behindValue) (w := []) (s := t) nofun nofun (by rw [amps]; rfl)
  rw [run, if_pos hv, ← amps]
  exact lazy

/-- A match in front of a key takes the key and one byte behind the equals sign. -/
theorem paramRe_searchFrom (n : Nat) {k : Str} (hk : k ≠ [] ∧ ∀ c ∈ k, isQueryChar c) {v : Byte} (hv : notEol v)
    (t : Str) : paramRe.searchFrom n (k ++ (str "=" ++ v :: t)) =
      some (t.dropWhile isAmpersand, [(3, t.takeWhile isAmpersand), (2, [v]), (1, k)]) := by
  obtain ⟨c, w, rfl⟩ := List.exists_cons_of_ne_nil hk.1
  have hc := isQueryChar_ne (hk.2 c List.mem_cons_self)
  have hw : ∀ c ∈ w, notEol c ∧ c ≠ '=' := by
    intro c hc
    have := isQueryChar_ne (hk.2 c (List.mem_cons_of_mem _ hc))
    exact ⟨this.1, this.2.2.2⟩
  have start : paramRe.matchAt n (c :: w ++ (str "=" ++ v :: t)) =
      if notEol c then
        Re.runManyLazy notEol (behindKey n (c :: w ++ (str "=" ++ v :: t))) (w ++ (str "=" ++ v :: t))
      else none := rfl
  have hmatch : paramRe.matchAt n (c :: w ++ (str "=" ++ v :: t)) =
      some (t.dropWhile isAmpersand, [(3, t.takeWhile isAmpersand), (2, [v]), (1, c :: w)]) := by
    have hfound := behindKey_eq n (c :: w) hv t
    rw [start, if_pos hc.1, Re.runManyLazy_skip (fun c hc => (hw c hc).1) (fun c hc => behindKey_ne n _ (hw c hc).2)]
    · exact hfound
    · rw [hfound]
      rfl
  exact Re.searchFrom_here hmatch

theorem pairsFrom_cons (n fuel : Nat) {k : Str} (hk : k ≠ [] ∧ ∀ c ∈ k, isQueryChar c) {v : Byte} (hv : notEol v)
    (t : Str) :
    pairsFrom n (fuel + 1) (k ++ (str "=" ++ v :: t)) = (k, [v]) :: pairsFrom n fuel (t.dropWhile isAmpersand) := by
  unfold pairsFrom
  rw [Re.findAllFrom, paramRe_searchFrom n hk hv t]
  rfl

/-- What is behind the first pair. -/
def behindPair (ps : List (Str × Str)) : Str := if ps = [] then [] else str "&" ++ queryText ps

theorem queryText_cons (kv : Str × Str) (ps : List (Str × Str)) :
    queryText (kv :: ps) = kv.1 ++ (str "=" ++ (kv.2 ++ behindPair ps)) := by
  cases ps with
  | nil => simp [queryText, behindPair]
  | cons kv' ps => simp [queryText, behindPair]

theorem behindPair_dropWhile {ps : List (Str × Str)} (hps : ∀ kv ∈ ps, QueryPair kv) :
    (behindPair ps).dropWhile isAmpersand = queryText ps := by
  unfold behindPair
  cases ps with
  | nil => rfl
  | cons kv ps =>
    obtain ⟨⟨hne, hk⟩, -⟩ := hps kv List.mem_cons_self
    obtain ⟨c, w, hw⟩ := List.exists_cons_of_ne_nil hne
    have hc : c ≠ '&' := (isQueryChar_ne (hk c (by simp [hw]))).2.2.1
    rw [if_neg (List.cons_ne_nil _ _), queryText_cons, hw]
    show (str "&" ++ c :: _).dropWhile isAmpersand = _
    refine dropWhile_run (by decide) ?_
    rintro _ ⟨rfl⟩
    simpa [isAmpersand] using hc

theorem length_behindPair (ps : List (Str × Str)) : (queryText ps).length ≤ (behindPair ps).length := by
  unfold behindPair
  split
  · rename_i h
    rw [h]
    exact Nat.le_refl 0
  · simp

/-- Values of one byte are read as they are. -/
theorem pairsFrom_single (n : Nat) {ps : List (Str × Str)} (hps : ∀ kv ∈ ps, QueryPair kv)
    (hone : ∀ kv ∈ ps, kv.2.length = 1) {fuel : Nat} (hfuel : (queryText ps).length < fuel) :
    pairsFrom n fuel (queryText ps) = ps := by
  induction ps generalizing fuel with
  | nil =>
    cases fuel with
    | zero => cases hfuel
    | succ fuel => rfl
  | cons kv ps ih =>
    have hrest : ∀ kv ∈ ps, QueryPair kv := fun kv hkv => hps kv (List.mem_cons_of_mem _ hkv)
    obtain ⟨hk, -, hv⟩ := hps kv List.mem_cons_self
    obtain ⟨k, value⟩ := kv
    obtain ⟨v, rfl⟩ := List.length_eq_one_iff.1 (hone _ List.mem_cons_self)
    cases fuel with
    | zero => cases hfuel
    | succ fuel =>
      have hlen := length_behindPair ps
      rw [queryText_cons] at hfuel ⊢
      simp only [List.length_append, List.length_singleton] at hfuel
      show pairsFrom n (fuel + 1) (k ++ (str "=" ++ v :: behindPair ps)) = _
      rw [pairsFrom_cons n fuel hk (isQueryChar_ne (hv v List.mem_cons_self)).1, behindPair_dropWhile hrest,
        ih hrest (fun kv hkv => hone kv (List.mem_cons_of_mem _ hkv)) (by omega)]

/-- And only these are. -/
theorem single_of_lookup (n : Nat) {ps : List (Str × Str)} (hps : ∀ kv ∈ ps, QueryPair kv)
    (hkeys : (ps.map Prod.fst).Nodup) {fuel : Nat} (hfuel : (queryText ps).length < fuel)
    (h : ∀ kv ∈ ps, ((pairsFrom n fuel (queryText ps)).lookup kv.1).getD [] = kv.2) : ∀ kv ∈ ps, kv.2.length = 1 := by
  induction ps generalizing fuel with
  | nil => exact nofun
  | cons kv ps ih =>
    have hrest : ∀ kv ∈ ps, QueryPair kv := fun kv hkv => hps kv (List.mem_cons_of_mem _ hkv)
    obtain ⟨hk, hne, hv⟩ := hps kv List.mem_cons_self
    obtain ⟨hnew, hother⟩ := List.nodup_cons.1 hkeys
    obtain ⟨k, value⟩ := kv
    obtain ⟨v, w, rfl⟩ := List.exists_cons_of_ne_nil hne
    cases fuel with
    | zero => cases hfuel
    | succ fuel =>
      have hlen := length_behindPair ps
      rw [queryText_cons] at hfuel h
      simp only [List.length_append, List.length_cons] at hfuel
      have hread := pairsFrom_cons n fuel hk (isQueryChar_ne (hv v List.mem_cons_self)).1 (w ++ behindPair ps)
      rw [show k ++ (str "=" ++ ((v :: w) ++ behindPair ps)) = k ++ (str "=" ++ v :: (w ++ behindPair ps)) from rfl,
        hread] at h
      -- the key is bound to the first byte of the value
      have hfirst := h _ List.mem_cons_self
      simp only [List.lookup_cons_self, Option.getD_some] at hfirst
      obtain ⟨-, rfl⟩ := List.cons.inj hfirst
      rw [List.nil_append, behindPair_dropWhile hrest] at h
      rw [List.forall_mem_cons]
      rw [List.length_nil] at hfuel
      refine ⟨rfl, ih hrest hother (show (queryText ps).length < fuel by omega) fun kv hkv => ?_⟩
      have hne : (kv.1 == k) = false := by
        refine beq_false_of_ne fun he => hnew ?_
        show k ∈ ps.map Prod.fst
        rw [← he]
        exact List.mem_map_of_mem hkv
      have := h kv (List.mem_cons_of_mem _ hkv)
      rwa [List.lookup_cons, hne] at this

/-! ## Paths and queries -/

/-- The target is split at its only question mark. -/
theorem parseQueryString_split (stale : Str → Str → Str) {path query : Str} (hp : path ≠ [] ∧ ∀ c ∈ path, notEol c)
    (hq : ∀ c ∈ query, notEol c) (hpath : (('?' : Char) : Byte) ∉ path) (hquery : (('?' : Char) : Byte) ∉ query)
    (hstale : stale path query = query) :
    parseQueryString stale (path ++ str "?" ++ query) =
      (path, bindAll [] (pairsFrom query.length (query.length + 1) query)) := by
  rw [List.append_assoc]
  have hfound : (queryRe.search (path ++ (str "?" ++ query))).isSome := by
    rw [Re.search_isSome_iff]
    refine ⟨[], _, rfl, ?_⟩
    generalize hn : (path ++ (str "?" ++ query)).length = n
    have hpath : (Re.plus notEol).Matches n (path ++ (str "?" ++ query)) [] (str "?" ++ query) [] :=
      Re.matches_plus.2 ⟨path, hp.1, hp.2, rfl, rfl⟩
    have hmark : (Re.lit '?' []).Matches n (str "?" ++ query) [(1, path)] query [(1, path)] :=
      Re.matches_lit.2 ⟨rfl, rfl⟩
    have hquery : (Re.many notEol).Matches n query [(1, path)] [] [(1, path)] :=
      ⟨query, hq, (List.append_nil _).symm, rfl⟩
    refine ⟨[], _, [], _, ⟨query, [(1, path)], ⟨_, _, ⟨_, [], ⟨hn, rfl, rfl⟩, [], hpath, ?_⟩, hmark⟩, _, hquery, rfl⟩, rfl,
      rfl, rfl⟩
    exact congrArg (fun w => [(1, w)]) (take_sub_append path (str "?" ++ query)).symm
  obtain ⟨m, hm⟩ := Option.isSome_iff_exists.1 hfound
  obtain ⟨path', query', he, -, h1, h2⟩ := queryRe_sound hm
  have he : path ++ (('?' : Char) : Byte) :: query = path' ++ (('?' : Char) : Byte) :: query' := by
    rw [← he]
    rfl
  obtain ⟨rfl, -, rfl⟩ := (List.append_cons_inj_of_notMem hpath hquery).1 he
  unfold parseQueryString
  rw [hm]
  dsimp only
  rw [h1, h2, hstale, bindAll, pairsFrom, List.foldl_map]
  rfl

/-- The path, each key with its value, and nothing for other names. -/
def QueryRead (r : Request) (path : Str) (ps : List (Str × Str)) : Prop :=
  r.uri = path ∧ (∀ kv ∈ ps, r.getQueryStringParam kv.1 = kv.2) ∧
    ∀ name ∉ ps.map Prod.fst, r.getQueryStringParam name = []

/-- The query is read as it was written if and only if the path is on one line and
each value is one byte long. -/
theorem queryRead_iff (stale : Str → Str → Str) {method path : Str} {ps : List (Str × Str)} {major minor : Byte} (rest : Str)
    (hm : method ≠ [] ∧ ∀ c ∈ method, isWord c) (hj : isDigit major) (hn : isDigit minor)
    (hpath : path ≠ [] ∧ (('?' : Char) : Byte) ∉ path) (hps : ∀ kv ∈ ps, QueryPair kv) (hkeys : (ps.map Prod.fst).Nodup)
    (hstale : stale path (queryText ps) = queryText ps) :
    QueryRead (parseRequest stale (targetText method (path ++ str "?" ++ queryText ps) major minor rest)) path ps ↔
      (∀ c ∈ path, notEol c) ∧ ∀ kv ∈ ps, kv.2.length = 1 := by
  have hquery := mem_queryText hps
  by_cases hline : ∀ c ∈ path, notEol c
  · have htarget : path ++ str "?" ++ queryText ps ≠ [] ∧ ∀ c ∈ path ++ str "?" ++ queryText ps, notEol c := by
      refine ⟨by simp [hpath.1], fun c hc => ?_⟩
      simp only [List.mem_append] at hc
      rcases hc with (hc | hc) | hc
      · exact hline c hc
      · revert c
        decide
      · exact (hquery c hc).1
    obtain ⟨-, huri, hparams⟩ := parseRequest_target stale rest hm htarget hj hn
    rw [parseQueryString_split stale ⟨hpath.1, hline⟩ (fun c hc => (hquery c hc).1) hpath.2
      (fun hc => (hquery _ hc).2 rfl) hstale] at huri hparams
    unfold QueryRead Request.getQueryStringParam
    simp only [huri, hparams, lookup_bindAll, List.lookup_nil, Option.none_or, true_and]
    rw [and_iff_right hline]
    constructor
    · rintro ⟨h, -⟩
      exact single_of_lookup _ hps hkeys (Nat.lt_succ_self _) h
    · intro hone
      rw [pairsFrom_single _ hps hone (Nat.lt_succ_self _)]
      constructor
      · intro kv hkv
        rw [lookup_of_mem hkeys hkv]
        rfl
      · intro name hname
        rw [← lookup_isSome_iff, Option.not_isSome_iff_eq_none] at hname
        rw [hname]
        rfl
  · refine iff_of_false (fun h => hline ?_) fun h => hline h.1
    rw [← h.1]
    exact parseRequest_uri_line stale _

theorem queryRead_bytes : QueryRead (parseRequest (fun _ q => q) (targetText (str "GET")
    (str "/a" ++ str "?" ++ queryText [(str "x", str "1"), (str "yy", str "2")]) '1' '1' (str "\r\n"))) (str "/a")
    [(str "x", str "1"), (str "yy", str "2")] := by
  have hps : ∀ kv ∈ [(str "x", str "1"), (str "yy", str "2")], QueryPair kv := by
    unfold QueryPair
    decide
  exact (queryRead_iff (fun _ q => q) _ ⟨by decide, by decide⟩ (by decide) (by decide) ⟨by decide, by decide⟩ hps
    (by decide) rfl).2 ⟨by decide, by decide⟩

/-- Of a value of two bytes the first is read. -/
theorem queryRead_word : QueryPair (str "k", str "ab") ∧
    ¬ QueryRead (parseRequest (fun _ q => q) (targetText (str "GET") (str "/p" ++ str "?" ++ queryText [(str "k", str "ab")])
      '1' '1' (str "\r\n"))) (str "/p") [(str "k", str "ab")] := by
  refine ⟨by unfold QueryPair; decide, fun h => ?_⟩
  have hread : (parseRequest (fun _ q => q) (targetText (str "GET") (str "/p" ++ str "?" ++ queryText [(str "k", str "ab")])
      '1' '1' (str "\r\n"))).getQueryStringParam "k" = str "a" := by decide +kernel
  have := h.2.1 _ List.mem_cons_self
  rw [hread] at this
  exact absurd this (by decide)

end GittyUp.Http
