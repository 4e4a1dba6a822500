import GittyUp.Config.Grammar
import GittyUp.Router
/-!
# The reverse proxy

`src/reverse_proxy_handler.cc`: the table that the constructor builds from the
proxy's block, and the host that `constructGetRequest` looks up in it. The
router has matched a prefix of the URI, the proxy takes its first segment.
-/
open Lib GittyUp.Config GittyUp.Router

namespace GittyUp.Proxy

/-- The loop of the constructor: the last location, and `location2proxy`. The
port's value is only read when connecting. -/
def location2proxyLoop : NginxConfig → Str → List (Str × Str) → Option (List (Str × Str))
  | [], _, m => some m
  | stmt :: stmts, location, m => do
    let t ← stmt.tokens[0]?
    if t = str "location" then location2proxyLoop stmts (← stmt.tokens[1]?) m
    else if t = str "root" then location2proxyLoop stmts location (bindNew m location (← stmt.tokens[1]?))
    else if t = str "port" then
      let _ ← stmt.tokens[1]?
      location2proxyLoop stmts location m
    else location2proxyLoop stmts location m

def location2proxy (config : NginxConfig) : Option (List (Str × Str)) := location2proxyLoop config [] []

def slash : Byte := '/'

/-- The URI without its first byte and with a slash at its end. An empty URI
throws; of one byte nothing is left, and the code then tests the byte `before`
the string. -/
def slashed (before : Byte) (uri : Str) : Option Str :=
  match uri with
  | [] => none
  | _ :: rest => some (if rest.getLast?.getD before ≠ slash then rest ++ [slash] else rest)

/-- The iterator that `constructGetRequest` dereferences: `none` is `end()`. -/
def findHost (before : Byte) (m : List (Str × Str)) (uri : Str) : Option Str := do
  let uri ← slashed before uri
  m.lookup (slash :: uri.takeWhile (· ≠ slash))

/-- The host and the path of the request that is sent, both C strings. -/
def constructGetRequest (before : Byte) (m : List (Str × Str)) (uri : Str) : Option (Str × Str) := do
  let host ← findHost before m uri
  let uri ← slashed before uri
  if slash ∈ uri then return (cStr host, cStr (uri.dropWhile (· ≠ slash))) else none

/-- The lookup of a proxy that `select_handler` has just created. -/
def proxyLookup (before : Byte) (config : NginxConfig) (uri : Str) : Option Str := do
  let block ← (← getHandlerConfig config (str "proxy"))
  findHost before (← location2proxy block) uri

/-! ## The table -/

/-- The locations of a block, each with the root in the next statement. -/
def locationRoots : NginxConfig → List (Str × Str)
  | [] => []
  | s :: ss =>
    match s.tokens, (ss.head?.map Statement.tokens) with
    | [t, location], some [u, root] =>
      if t = str "location" ∧ u = str "root" then (location, root) :: locationRoots ss else locationRoots ss
    | _, _ => locationRoots ss

/-- Every `location` statement is directly followed by its `root` statement. -/
def Paired : NginxConfig → Prop
  | [] => True
  | s :: ss => (s.tokens[0]? = some (str "location") → ∃ location root s',
      s.tokens = [str "location", location] ∧ ss.head? = some s' ∧ s'.tokens = [str "root", root]) ∧ Paired ss

/-- No `root` or `port` statement is a lone word. -/
def HasArguments (block : NginxConfig) : Prop :=
  ∀ s ∈ block, (s.tokens[0]? = some (str "root") ∨ s.tokens[0]? = some (str "port")) → 2 ≤ s.tokens.length

theorem tokens_zero {s : Statement} (h : s.tokens ≠ []) : ∃ t, s.tokens[0]? = some t :=
  ⟨_, List.getElem?_eq_getElem (List.length_pos_of_ne_nil h)⟩

theorem root_ne_location : str "root" ≠ str "location" := by decide

theorem locationRoots_other {s : Statement} (hs : s.tokens[0]? ≠ some (str "location")) (ss : NginxConfig) :
    locationRoots (s :: ss) = locationRoots ss := by
  conv_lhs => unfold locationRoots
  split
  · rename_i ht _
    rw [ht] at hs
    exact if_neg (fun h => hs (by simp [h.1]))
  · rfl

/-- A statement that declares no location binds at most the current one. -/
theorem loop_other {s : Statement} (hs : s.tokens[0]? ≠ some (str "location")) (hne : s.tokens ≠ [])
    (ha : HasArguments [s]) (ss : NginxConfig) (location : Str) (m : List (Str × Str)) :
    ∃ m₁, location2proxyLoop (s :: ss) location m = location2proxyLoop ss location m₁ ∧
      (m₁ = m ∨ ∃ root, m₁ = bindNew m location root) := by
  obtain ⟨t, h0⟩ := tokens_zero hne
  have hl : t ≠ str "location" := fun e => hs (by rw [h0, e])
  rw [location2proxyLoop, h0, Option.bind_eq_bind, Option.bind_some, if_neg hl]
  by_cases hr : t = str "root"
  · have h1 := List.getElem?_eq_getElem (ha s (by simp) (.inl (by rw [h0, hr])))
    exact ⟨_, by rw [if_pos hr, h1]; rfl, .inr ⟨_, rfl⟩⟩
  · rw [if_neg hr]
    by_cases hp : t = str "port"
    · have h1 := List.getElem?_eq_getElem (ha s (by simp) (.inr (by rw [h0, hp])))
      exact ⟨m, by rw [if_pos hp, h1]; rfl, .inl rfl⟩
    · exact ⟨m, if_neg hp, .inl rfl⟩

/-- A location and its root are two turns of the loop. -/
theorem loop_pair {s s' : Statement} {l root : Str} (hs : s.tokens = [str "location", l])
    (hs' : s'.tokens = [str "root", root]) (ss : NginxConfig) (location : Str) (m : List (Str × Str)) :
    location2proxyLoop (s :: s' :: ss) location m = location2proxyLoop ss l (bindNew m l root) ∧
      locationRoots (s :: s' :: ss) = (l, root) :: locationRoots ss := by
  constructor
  · simp [location2proxyLoop, hs, hs', root_ne_location]
  · have : locationRoots (s' :: ss) = locationRoots ss := locationRoots_other (by simp [hs', root_ne_location]) ss
    conv_lhs => unfold locationRoots
    simp [hs, hs', this]

theorem lookup_bindNew_self (m : List (Str × Str)) (k v : Str) : ((bindNew m k v).lookup k).isSome := by
  rw [lookup_bindNew]
  cases m.lookup k <;> simp

/-- The current location is bound, so a root that does not follow a location changes nothing. -/
theorem lookup_bindNew_bound {m : List (Str × Str)} {k location : Str} (hk : k ≠ [])
    (h : location = [] ∨ (m.lookup location).isSome) (v : Str) : (bindNew m location v).lookup k = m.lookup k := by
  rw [lookup_bindNew]
  by_cases e : k = location
  · subst e
    obtain ⟨w, hw⟩ := Option.isSome_iff_exists.1 (h.resolve_left hk)
    rw [hw]
    rfl
  · simp [e]

/-- The constructor gets through, and finds for a location the root that the
block declares for it first. A root before all locations gets the empty name. -/
theorem location2proxyLoop_spec (block : NginxConfig) (location : Str) (m : List (Str × Str))
    (hp : Paired block) (hne : ∀ s ∈ block, s.tokens ≠ []) (ha : HasArguments block)
    (hl : location = [] ∨ (m.lookup location).isSome) :
    ∃ m', location2proxyLoop block location m = some m' ∧
      ∀ k, k ≠ [] → m'.lookup k = (m.lookup k).or ((locationRoots block).lookup k) := by
  match block with
  | [] => exact ⟨m, rfl, fun k _ => by simp [locationRoots]⟩
  | s :: ss =>
    by_cases hs : s.tokens[0]? = some (str "location")
    · obtain ⟨l, root, s', h1, h2, h3⟩ := hp.1 hs
      obtain ⟨block, rfl⟩ : ∃ block, ss = s' :: block := by
        cases ss with
        | nil => cases h2
        | cons a block => cases h2; exact ⟨block, rfl⟩
      obtain ⟨e1, e2⟩ := loop_pair h1 h3 block location m
      obtain ⟨m', hm, hk⟩ := location2proxyLoop_spec block l (bindNew m l root) hp.2.2
        (fun s hs => hne s (by simp [hs])) (fun s hs => ha s (by simp [hs])) (.inr (lookup_bindNew_self m l root))
      refine ⟨m', by rw [e1, hm], fun k hk0 => ?_⟩
      rw [hk k hk0, e2, lookup_bindNew, Option.or_assoc]
      congr 1
      simp only [List.lookup_cons]
      cases k == l <;> rfl
    · obtain ⟨m₁, e1, e2⟩ := loop_other hs (hne s (by simp)) (fun s' hs' => ha s' (by simp_all)) ss location m
      have hm₁ : ∀ k, k ≠ [] → m₁.lookup k = m.lookup k := fun k hk0 => by
        obtain rfl | ⟨root, rfl⟩ := e2
        · rfl
        · exact lookup_bindNew_bound hk0 hl root
      have hl₁ : location = [] ∨ (m₁.lookup location).isSome := by
        by_cases h0 : location = []
        · exact .inl h0
        · rw [hm₁ location h0]; exact hl
      obtain ⟨m', hm, hk⟩ := location2proxyLoop_spec ss location m₁ hp.2
        (fun s hs => hne s (by simp [hs])) (fun s hs => ha s (by simp [hs])) hl₁
      exact ⟨m', by rw [e1, hm], fun k hk0 => by rw [hk k hk0, hm₁ k hk0, locationRoots_other hs]⟩
termination_by block.length

/-- The constructor gets through a block just when no `location`, `root` or `port` is a lone word. -/
theorem location2proxyLoop_isSome_iff {block : NginxConfig} (hne : ∀ s ∈ block, s.tokens ≠ []) (location : Str)
    (m : List (Str × Str)) : (location2proxyLoop block location m).isSome ↔ Located block ∧ HasArguments block := by
  induction block generalizing location m with
  | nil => exact ⟨fun _ => ⟨nofun, nofun⟩, fun _ => rfl⟩
  | cons s block ih =>
    have ih := fun l m => ih (fun s' hs' => hne s' (by simp [hs'])) l m
    obtain ⟨t, h0⟩ := tokens_zero (hne s (by simp))
    have hcons : Located (s :: block) ∧ HasArguments (s :: block) ↔
        (t = str "location" ∨ t = str "root" ∨ t = str "port" → s.tokens[1]?.isSome) ∧
          Located block ∧ HasArguments block := by
      have htwo : s.tokens[1]?.isSome ↔ 2 ≤ s.tokens.length := by simp [Nat.succ_le_iff]
      rw [located_cons, HasArguments, List.forall_mem_cons, h0, htwo, Option.some_inj, Option.some_inj, Option.some_inj]
      constructor
      · rintro ⟨⟨hl, hblock⟩, ha, hblock'⟩
        exact ⟨fun h => h.elim hl ha, hblock, hblock'⟩
      · rintro ⟨h, hblock, hblock'⟩
        exact ⟨⟨fun hl => h (.inl hl), hblock⟩, fun ha => h (.inr ha), hblock'⟩
    rw [hcons]
    unfold location2proxyLoop
    rw [h0, Option.bind_eq_bind, Option.bind_some]
    cases h1 : s.tokens[1]? with
    | none =>
      split_ifs with hl hr hp
      · simp [hl]
      · simp [hr]
      · simp [hp]
      · simp [hl, hr, hp, ih]
    | some u =>
      split_ifs with hl hr hp
      · simp [ih]
      · simp [ih]
      · simp [ih]
      · simp [ih]

/-! ## The lookup -/

/-- The first segment of a URI, with the slash before it. -/
def firstSegment (uri : Str) : Str := slash :: (uri.drop 1).takeWhile (· ≠ slash)

theorem findHost_eq (before : Byte) (m : List (Str × Str)) {uri : Str} (h : uri ≠ []) :
    findHost before m uri = m.lookup (firstSegment uri) := by
  obtain ⟨c, rest, rfl⟩ := List.exists_cons_of_ne_nil h
  unfold findHost slashed firstSegment
  rw [Option.bind_eq_bind, Option.bind_some, List.drop_one, List.tail_cons]
  split
  · -- the added slash ends the segment, if nothing before it does
    congr 2
    rw [List.takeWhile_append]
    split
    · rename_i hlen
      rw [(List.takeWhile_prefix (fun c => decide (c ≠ slash))).eq_of_length hlen]
      simp
    · rfl
  · rfl

/-- The roots that the blocks of the proxy declare, in order. -/
def declaredRoots (config : NginxConfig) : List (Str × Str) :=
  config.flatMap fun s =>
    if s.tokens[0]? = some (str "handler") ∧ s.tokens[1]? = some (str "proxy") then
      (s.childBlock.map locationRoots).getD []
    else []

/-- In every block of the proxy, a location comes with its root. -/
def ProxyPaired (config : NginxConfig) : Prop :=
  ∀ s ∈ config, ∀ block, s.childBlock = some block →
    s.tokens[0]? = some (str "handler") → s.tokens[1]? = some (str "proxy") → Paired block

theorem shaped_of_paired {block : NginxConfig} (hne : ∀ s ∈ block, s.tokens ≠ []) (hp : Paired block) : Shaped block := by
  induction block with
  | nil => exact fun s hs => by cases hs
  | cons s block ih =>
    intro s' hs'
    rcases List.mem_cons.1 hs' with rfl | hs'
    · refine ⟨hne s' (by simp), fun hl => ?_⟩
      obtain ⟨l, root, _, h, -, -⟩ := hp.1 hl
      simp [h]
    · exact ih (fun s hs => hne s (by simp [hs])) hp.2 s' hs'

theorem handlerNamed_proxy {name : Str} : handlerNamed name = .proxy ↔ name = str "proxy" := by
  constructor
  · intro h
    unfold handlerNamed at h
    repeat' split at h
    all_goals first | assumption | cases h
  · rintro rfl
    decide

/-- The router's config is a block of the file. -/
theorem createRouter_within {s : Str} {file config : NginxConfig} (hs : parse s = (true, file))
    (hc : createRouter file = some (some config)) {st : Statement} (h : Within st config) : Within st file := by
  have hread : ∀ st ∈ file, st.childBlock.isSome → (isRouter st.tokens).isSome := fun st hst _ => by
    obtain ⟨t, h0⟩ := tokens_zero (parse_within hs (.here hst)).1
    unfold isRouter
    rw [h0]
    rfl
  obtain ⟨out, hout, h1, -⟩ := lastBlock_spec file hread
  cases hc.symm.trans hout
  obtain ⟨st', hst', hchild, -⟩ := h1 config rfl
  exact .child hst' hchild h

/-- A URI goes to the proxy only if a block of the proxy declared the matched location first. -/
theorem lookup_of_dispatch {config : NginxConfig} (hne : ∀ st, Within st config → st.tokens ≠ [])
    (hp : ProxyPaired config) {l : Str}
    (h : getRouteHandler config (bindAll [] (declared config)) l = some (str "proxy")) :
    (declared config).lookup l = some (str "proxy") := by
  have hshaped : ShapedProxy config := fun s hs block hc h0 h1 =>
    shaped_of_paired (fun st hst => hne st (.child hs hc (.here hst))) (hp s hs block hc h0 h1)
  cases hl : (declared config).lookup l with
  | some v =>
    unfold getRouteHandler at h
    rwa [lookup_registered, hl] at h
  | none =>
    have hnl : l ∉ (declared config).map Prod.fst := by
      rw [← lookup_isSome_iff, hl]
      simp
    rw [getRouteHandler_default (fun s hs => hne s (.here hs)) hshaped (by rw [lookup_registered, hl]) hnl] at h
    exact absurd (Option.some.inj h) (by decide)
section Dispatched
variable {s : Str} {file config : NginxConfig} {routes : Routes} {visit : RouteMap} {uri : Str}

/-- What the router knows of a URI that it sends to the proxy. -/
theorem matched_of_dispatch (hwords : ∀ st, Within st config → st.tokens ≠ [] ∧ ∀ w ∈ st.tokens, w ≠ [])
    (hp : ProxyPaired config) (hr : registerRoutesFromConfig config ⟨[], []⟩ = some routes)
    (hv : visit.Perm routes.routeMap) (hd : selectHandler config routes.routeMap visit uri = some .proxy) :
    (declared config).lookup (longestPrefixMatch visit uri) = some (str "proxy") ∧ uri ≠ [] := by
  rw [registerRoutes_some hr, addAll_routeMap] at hv hd
  obtain ⟨name, hname, hproxy⟩ := Option.map_eq_some_iff.1 hd
  rw [handlerNamed_proxy] at hproxy
  subst hproxy
  have hl := lookup_of_dispatch (fun st hst => (hwords st hst).1) hp hname
  refine ⟨hl, ?_⟩
  -- the matched location is a word of the file, so it is not empty
  obtain ⟨st, hst, child, hchild, -, -, sl, hsl, -, hu⟩ := mem_declared.1 (mem_of_lookup hl)
  have hne : longestPrefixMatch visit uri ≠ [] :=
    (hwords sl (.child hst hchild (.here hsl))).2 _ (List.mem_of_getElem? hu)
  rintro rfl
  rcases longestPrefixMatch_spec hv [] with h | ⟨h, -⟩
  · exact hne (List.prefix_nil.1 h.isPre)
  · exact hne h

/-- The proxy's block, and what the lookup finds in it. -/
theorem proxyLookup_spec (before : Byte) (hwords : ∀ st, Within st config → st.tokens ≠ [])
    (hp : ProxyPaired config) {l : Str} (hl : (declared config).lookup l = some (str "proxy")) (hu : uri ≠ []) :
    ∃ block, getHandlerConfig config (str "proxy") = some (some block) ∧
      ((proxyLookup before config uri).isSome → HasArguments block) ∧
      (HasArguments block → proxyLookup before config uri = (locationRoots block).lookup (firstSegment uri)) := by
  obtain ⟨st, hst, child, hchild, h0, h1, -⟩ := mem_declared.1 (mem_of_lookup hl)
  obtain ⟨out, hout, hspec, hnone⟩ := getHandlerConfig_spec (fun s hs => hwords s (.here hs)) (str "proxy")
  cases out with
  | none => exact absurd ⟨h0, h1⟩ (hnone rfl st hst (by rw [hchild]; rfl))
  | some block =>
    obtain ⟨sb, hsb, hcb, hb0, hb1⟩ := hspec block rfl
    have hlook : proxyLookup before config uri =
        (location2proxy block).bind (fun m => m.lookup (firstSegment uri)) := by
      unfold proxyLookup
      simp only [hout, Option.bind_eq_bind, Option.bind_some, findHost_eq before _ hu]
    refine ⟨block, hout, fun hsome => ?_, fun ha => ?_⟩
    · rw [hlook] at hsome
      obtain ⟨root, hroot⟩ := Option.isSome_iff_exists.1 hsome
      obtain ⟨m, hm, -⟩ := Option.bind_eq_some_iff.1 hroot
      exact ((location2proxyLoop_isSome_iff (fun s hs => hwords s (.child hsb hcb (.here hs))) [] []).1
        (Option.isSome_iff_exists.2 ⟨m, hm⟩)).2
    · obtain ⟨m, hm, hk⟩ := location2proxyLoop_spec block [] [] (hp sb hsb block hcb hb0 hb1)
        (fun s hs => hwords s (.child hsb hcb (.here hs))) ha (.inl rfl)
      rw [hlook, location2proxy, hm, Option.bind_some, hk _ (by simp [firstSegment])]
      rfl

/-- Sent to the proxy, a URI finds the root of the location that the router
matched if and only if the proxy's block declares the URI's first segment, with
that root. -/
theorem proxyLookup_iff (before : Byte) (hs : parse s = (true, file)) (hc : createRouter file = some (some config))
    (hp : ProxyPaired config) (hr : registerRoutesFromConfig config ⟨[], []⟩ = some routes)
    (hv : visit.Perm routes.routeMap) (hd : selectHandler config routes.routeMap visit uri = some .proxy) :
    (∃ root, (declaredRoots config).lookup (longestPrefixMatch visit uri) = some root ∧
      proxyLookup before config uri = some root) ↔
    ∃ block root, getHandlerConfig config (str "proxy") = some (some block) ∧ HasArguments block ∧
      (declaredRoots config).lookup (longestPrefixMatch visit uri) = some root ∧
      (locationRoots block).lookup (firstSegment uri) = some root := by
  have hwords : ∀ st, Within st config → st.tokens ≠ [] ∧ ∀ w ∈ st.tokens, w ≠ [] := fun st hst =>
    parse_within hs (createRouter_within hs hc hst)
  obtain ⟨hl, hu⟩ := matched_of_dispatch hwords hp hr hv hd
  obtain ⟨block, hb, ha, hlook⟩ := proxyLookup_spec before (fun st hst => (hwords st hst).1) hp hl hu
  constructor
  · rintro ⟨root, hroot, hr⟩
    have ha := ha (by rw [hr]; rfl)
    exact ⟨block, root, hb, ha, hroot, by rw [← hlook ha, hr]⟩
  · rintro ⟨block', root, hb', ha, hroot, hr⟩
    cases hb'.symm.trans hb
    exact ⟨root, hroot, by rw [hlook ha, hr]⟩

end Dispatched

/-- A file with one proxy, and the router's config in it. -/
def uclaText : Str := "router { handler proxy { location /ucla; root www.ucla.edu; } }"

def uclaRouter : NginxConfig :=
  [.block [str "handler", str "proxy"] [.line [str "location", str "/ucla"], .line [str "root", str "www.ucla.edu"]]]

def uclaRoutes : RouteMap := [(str "/ucla", str "proxy")]

theorem parse_uclaText : parse uclaText = (true, [.block [str "router"] uclaRouter]) := by
  simp [parse, parseLoop, parseToken, parseTokenLoop, str, feed, onTop, pushToken, setChild, pop, accepts, tree,
      List.modifyLast, List.modifyLast.go, uclaText, uclaRouter]

theorem proxyPaired_ucla : ProxyPaired uclaRouter := by
  simp [ProxyPaired, uclaRouter, Paired, root_ne_location]

theorem proxyLookup_iff_ucla : ∃ root,
    (declaredRoots uclaRouter).lookup (longestPrefixMatch uclaRoutes (str "/ucla/x")) = some root ∧
      proxyLookup 0 uclaRouter (str "/ucla/x") = some root :=
  (proxyLookup_iff 0 parse_uclaText rfl proxyPaired_ucla rfl (List.Perm.refl _) (by decide)).2
    ⟨_, str "www.ucla.edu", rfl, by simp [HasArguments], by decide, by decide⟩

/-- `/uclafoo` is sent to the proxy for `/ucla`, which then has no `/uclafoo`. -/
theorem proxyLookup_uclafoo :
    parse uclaText = (true, [.block [str "router"] uclaRouter]) ∧
    createRouter [.block [str "router"] uclaRouter] = some (some uclaRouter) ∧ ProxyPaired uclaRouter ∧
    registerRoutesFromConfig uclaRouter ⟨[], []⟩ = some ⟨uclaRoutes, uclaRoutes⟩ ∧
    selectHandler uclaRouter uclaRoutes uclaRoutes (str "/uclafoo") = some .proxy ∧
    ∀ before, proxyLookup before uclaRouter (str "/uclafoo") = none := by
  refine ⟨parse_uclaText, rfl, proxyPaired_ucla, rfl, by decide, fun before => ?_⟩
  rfl

end GittyUp.Proxy
