import GittyUp.Config.Parser
import GittyUp.Lib.Prefix
/-!
# The router

`src/router.cc`: the route map filled from the config, and the name of the
handler that `select_handler` dispatches on. Reading `tokens_[i]` past the end
is undefined in the source and `none` here. The map is unordered: a scan of it
takes the order of the visit as an argument.
-/
open Lib GittyUp.Config

namespace GittyUp.Router

/-- `route_map_`, in the order of insertion. -/
abbrev RouteMap := List (Str × Str)

/-- What the recorder and the route map hold after registrations. -/
structure Routes where
  routeMap : RouteMap
  prefixHandlerList : List (Str × Str)

/-- `register_route`: the first handler registered for a URI stays. -/
def registerRoute (r : Routes) (uri handlerName : Str) : Routes :=
  match r.routeMap.lookup uri with
  | some _ => r
  | none => ⟨r.routeMap ++ [(uri, handlerName)], r.prefixHandlerList ++ [(uri, handlerName)]⟩

/-- The `location` statements of one handler's block. -/
def registerBlock (handlerKey : Str) : NginxConfig → Routes → Option Routes
  | [], r => some r
  | s :: ss, r =>
    if s.tokens.length > 0 ∧ s.tokens[0]? = some (str "location") then do
      let uri ← s.tokens[1]?
      registerBlock handlerKey ss (registerRoute r uri handlerKey)
    else registerBlock handlerKey ss r

/-- `register_routes_from_config`, from the routes registered before. -/
def registerRoutesFromConfig : NginxConfig → Routes → Option Routes
  | [], r => some r
  | .line _ :: ss, r => registerRoutesFromConfig ss r
  | .block tokens child :: ss, r =>
    if tokens.length > 1 ∧ tokens[0]? = some (str "handler") then do
      let handlerKey ← tokens[1]?
      let r ← registerBlock handlerKey child r
      registerRoutesFromConfig ss r
    else registerRoutesFromConfig ss r

/-- The loop of `create_router` and `get_handler_config`: the last block whose
tokens pass `test`. -/
def lastBlock (test : List Str → Option Bool) (config : NginxConfig) : Option (Option NginxConfig) :=
  config.foldlM (fun output s =>
    match s.childBlock with
    | none => some output
    | some child => do if ← test s.tokens then return some child else return output) none

/-- The test of `create_router`. -/
def isRouter (tokens : List Str) : Option Bool := do
  let t ← tokens[0]?
  return t = str "router"

/-- `server::create_router`: the config the router gets. -/
def createRouter (config : NginxConfig) : Option (Option NginxConfig) := lastBlock isRouter config

/-- The test of `get_handler_config`. -/
def isHandler (handlerName : Str) (tokens : List Str) : Option Bool := do
  let t ← tokens[0]?
  return t = str "handler" ∧ tokens.length > 1 ∧ tokens[1]? = some handlerName

/-- `get_handler_config`. -/
def getHandlerConfig (config : NginxConfig) (handlerName : Str) : Option (Option NginxConfig) :=
  lastBlock (isHandler handlerName) config

/-- `validProxy`: whether the block has the location `name`. -/
def validProxy (name : Str) : NginxConfig → Option Bool
  | [] => some false
  | s :: ss => do
    let t ← s.tokens[0]?
    if t = str "location" then
      if (← s.tokens[1]?) = name then return true else validProxy name ss
    else validProxy name ss

/-- `get_route_handler`. -/
def getRouteHandler (config : NginxConfig) (routeMap : RouteMap) (uri : Str) : Option Str :=
  match routeMap.lookup uri with
  | some handlerName => some handlerName
  | none => do
    match ← getHandlerConfig config (str "proxy") with
    | none => return str "default"
    | some proxyConfig => if ← validProxy uri proxyConfig then return str "proxy" else return str "default"

/-- One turn of the loop of `longest_prefix_match`. -/
def matchStep (uri longest : Str) (mapping : Str × Str) : Str :=
  if uri.length < mapping.1.length then longest
  else if (mapping.1.zip uri).all (fun p => p.1 = p.2) then
    if mapping.1.length > longest.length then mapping.1 else longest
  else longest

/-- `longest_prefix_match`, visiting the route map in the order `visit`. -/
def longestPrefixMatch (visit : RouteMap) (uri : Str) : Str := visit.foldl (matchStep uri) []

/-- The name `select_handler` dispatches on. -/
def dispatchName (config : NginxConfig) (routeMap visit : RouteMap) (uri : Str) : Option Str :=
  getRouteHandler config routeMap (longestPrefixMatch visit uri)

/-- The handler classes. One static file handler serves three blocks of the config. -/
inductive Handler
  | echo
  | staticFile (name : Str)
  | status
  | proxy
  | meme
  | health
  | default
deriving DecidableEq

def handlerNamed (handler : Str) : Handler :=
  if handler = str "echo" then .echo
  else if handler = str "static1" then .staticFile handler
  else if handler = str "static2" then .staticFile handler
  else if handler = str "webMeme" then .staticFile handler
  else if handler = str "imageMeme" then .staticFile handler
  else if handler = str "status" then .status
  else if handler = str "proxy" then .proxy
  else if handler = str "meme" then .meme
  else if handler = str "health" then .health
  else .default

/-- `select_handler`. -/
def selectHandler (config : NginxConfig) (routeMap visit : RouteMap) (uri : Str) : Option Handler :=
  (dispatchName config routeMap visit uri).map handlerNamed

/-! ## Registration -/

/-- The locations that a config declares, in order, each with its handler. -/
def declaredIn (handlerKey : Str) (block : NginxConfig) : List (Str × Str) :=
  block.filterMap fun s => if s.tokens[0]? = some (str "location") then s.tokens[1]?.map (·, handlerKey) else none

def declared (config : NginxConfig) : List (Str × Str) :=
  config.flatMap fun
    | .line _ => []
    | .block tokens child =>
      if tokens[0]? = some (str "handler") then (tokens[1]?.map (declaredIn · child)).getD [] else []

/-- Every statement has a token, and every `location` statement two. -/
def Shaped (block : NginxConfig) : Prop :=
  ∀ s ∈ block, s.tokens ≠ [] ∧ (s.tokens[0]? = some (str "location") → 2 ≤ s.tokens.length)

/-- A router config of that shape, in its own statements and in those of its blocks. -/
def ShapedConfig (config : NginxConfig) : Prop :=
  Shaped config ∧ ∀ s ∈ config, ∀ child, s.childBlock = some child → Shaped child

/-- `register_route` for every pair of a list. -/
def Routes.addAll (r : Routes) (l : List (Str × Str)) : Routes := l.foldl (fun r e => registerRoute r e.1 e.2) r

theorem addAll_routeMap (r : Routes) (l : List (Str × Str)) : (r.addAll l).routeMap = bindAll r.routeMap l := by
  induction l generalizing r with
  | nil => rfl
  | cons e l ih =>
    have h : (registerRoute r e.1 e.2).routeMap = bindNew r.routeMap e.1 e.2 := by
      unfold registerRoute bindNew
      cases r.routeMap.lookup e.1 <;> rfl
    have := ih (registerRoute r e.1 e.2)
    simp only [Routes.addAll, bindAll, List.foldl_cons] at this ⊢
    rw [this, h]

/-- A registration that reads no token past the end has added what the config declares. -/
theorem registerBlock_some {handlerKey : Str} {block : NginxConfig} {r r' : Routes}
    (h : registerBlock handlerKey block r = some r') : r' = r.addAll (declaredIn handlerKey block) := by
  induction block generalizing r with
  | nil => cases h; rfl
  | cons s block ih =>
    unfold registerBlock at h
    unfold declaredIn
    by_cases hl : s.tokens[0]? = some (str "location")
    · have h0 : 0 < s.tokens.length := (List.getElem?_eq_some_iff.1 hl).1
      rw [if_pos ⟨h0, hl⟩] at h
      obtain ⟨uri, hu, h⟩ := Option.bind_eq_some_iff.1 h
      rw [List.filterMap_cons_some (b := (uri, handlerKey)) (by rw [if_pos hl, hu]; rfl), ih h]
      rfl
    · rw [if_neg (fun hc => hl hc.2)] at h
      rw [List.filterMap_cons_none (a := s) (by rw [if_neg hl]), ih h]
      rfl

theorem registerRoutes_some {config : NginxConfig} {r r' : Routes}
    (h : registerRoutesFromConfig config r = some r') : r' = r.addAll (declared config) := by
  induction config generalizing r with
  | nil => cases h; rfl
  | cons s config ih =>
    cases s with
    | line ts => simpa [registerRoutesFromConfig, declared] using ih h
    | block tokens child =>
      unfold registerRoutesFromConfig at h
      by_cases ht : tokens.length > 1 ∧ tokens[0]? = some (str "handler")
      · have h1 : tokens[1]? = some tokens[1] := List.getElem?_eq_getElem (by omega)
        rw [if_pos ht, h1, Option.bind_eq_bind, Option.bind_some] at h
        obtain ⟨r₁, hb, h⟩ := Option.bind_eq_some_iff.1 h
        rw [ih h, registerBlock_some hb]
        simp [declared, ht.2, h1, Routes.addAll, List.foldl_append]
      · rw [if_neg ht] at h
        have : (if tokens[0]? = some (str "handler") then (tokens[1]?.map (declaredIn · child)).getD [] else []) = [] := by
          by_cases h0 : tokens[0]? = some (str "handler")
          · rw [if_pos h0, List.getElem?_eq_none (by have : ¬ tokens.length > 1 := fun h' => ht ⟨h', h0⟩; omega)]; rfl
          · rw [if_neg h0]
        rw [ih h]
        simp [declared, this]

/-- Every `location` statement has an argument. -/
def Located (block : NginxConfig) : Prop :=
  ∀ s ∈ block, s.tokens[0]? = some (str "location") → 2 ≤ s.tokens.length

/-- The blocks that a router config registers are so. -/
def LocatedConfig (config : NginxConfig) : Prop :=
  ∀ s ∈ config, ∀ child, s.childBlock = some child → s.tokens[0]? = some (str "handler") →
    2 ≤ s.tokens.length → Located child

theorem located_cons {s : Statement} {block : NginxConfig} : Located (s :: block) ↔
    (s.tokens[0]? = some (str "location") → 2 ≤ s.tokens.length) ∧ Located block :=
  List.forall_mem_cons

theorem locatedConfig_cons {s : Statement} {config : NginxConfig} : LocatedConfig (s :: config) ↔
    (∀ child, s.childBlock = some child → s.tokens[0]? = some (str "handler") → 2 ≤ s.tokens.length → Located child) ∧
      LocatedConfig config :=
  List.forall_mem_cons

theorem ShapedConfig.located {config : NginxConfig} (h : ShapedConfig config) : LocatedConfig config :=
  fun s hs child hc _ _ st hst => (h.2 s hs child hc st hst).2

theorem registerBlock_isSome_iff (handlerKey : Str) {block : NginxConfig} (r : Routes) :
    (registerBlock handlerKey block r).isSome ↔ Located block := by
  induction block generalizing r with
  | nil => exact ⟨fun _ => nofun, fun _ => rfl⟩
  | cons s block ih =>
    rw [located_cons]
    unfold registerBlock
    by_cases hl : s.tokens[0]? = some (str "location")
    · have h0 : 0 < s.tokens.length := (List.getElem?_eq_some_iff.1 hl).1
      rw [if_pos ⟨h0, hl⟩]
      cases hu : s.tokens[1]? with
      | none =>
        have := List.getElem?_eq_none_iff.1 hu
        simp [hl]
        omega
      | some uri =>
        have : 2 ≤ s.tokens.length := (List.getElem?_eq_some_iff.1 hu).1
        rw [Option.bind_eq_bind, Option.bind_some, ih]
        exact ⟨fun h => ⟨fun _ => this, h⟩, fun h => h.2⟩
    · rw [if_neg fun hc => hl hc.2, ih]
      exact ⟨fun h => ⟨fun hl' => absurd hl' hl, h⟩, fun h => h.2⟩

/-- Registration reads no token that is not there just when each location has its argument. -/
theorem registerRoutes_isSome_iff {config : NginxConfig} (r : Routes) :
    (registerRoutesFromConfig config r).isSome ↔ LocatedConfig config := by
  induction config generalizing r with
  | nil => exact ⟨fun _ => nofun, fun _ => rfl⟩
  | cons s config ih =>
    rw [locatedConfig_cons]
    cases s with
    | line ts => exact (ih r).trans ⟨fun h => ⟨nofun, h⟩, fun h => h.2⟩
    | block tokens child =>
      unfold registerRoutesFromConfig
      by_cases ht : tokens.length > 1 ∧ tokens[0]? = some (str "handler")
      · have h1 : tokens[1]? = some tokens[1] := List.getElem?_eq_getElem (by omega)
        rw [if_pos ht, h1, Option.bind_eq_bind, Option.bind_some]
        have hchild : (registerBlock tokens[1] child r).isSome ↔ Located child := registerBlock_isSome_iff tokens[1] r
        cases hb : registerBlock tokens[1] child r with
        | none =>
          rw [hb] at hchild
          refine ⟨nofun, fun h => ?_⟩
          cases hchild.2 (h.1 child rfl ht.2 ht.1)
        | some r₁ =>
          rw [hb] at hchild
          rw [Option.bind_eq_bind, Option.bind_some, ih]
          refine ⟨fun h => ⟨?_, h⟩, fun h => h.2⟩
          rintro _ ⟨rfl⟩ _ _
          exact hchild.1 rfl
      · -- not a handler's block: its locations are not read
        rw [if_neg ht, ih]
        exact ⟨fun h => ⟨fun _ _ h0 h2 => absurd ⟨h2, h0⟩ ht, h⟩, fun h => h.2⟩

theorem registerRoutes_isSome {config : NginxConfig} (h : ShapedConfig config) (r : Routes) :
    (registerRoutesFromConfig config r).isSome :=
  (registerRoutes_isSome_iff r).2 h.located

/-! ## Dispatch -/

/-- The index loop compares the location with the beginning of the URI. -/
theorem zip_all_iff (l uri : Str) (h : l.length ≤ uri.length) :
    (l.zip uri).all (fun p => p.1 = p.2) = true ↔ l <+: uri := by
  induction l generalizing uri with
  | nil => simp
  | cons c l ih =>
    cases uri with
    | nil => simp at h
    | cons d uri =>
      rw [List.zip_cons_cons, List.all_cons, List.cons_prefix_cons, Bool.and_eq_true, ih uri (by simpa using h)]
      simp

theorem matchStep_eq (uri best : Str) (m : Str × Str) : matchStep uri best m = longer uri best m.1 := by
  unfold matchStep longer
  by_cases hlen : uri.length < m.1.length
  · rw [if_pos hlen, if_neg]
    rintro ⟨hp, -⟩
    have := hp.length_le
    omega
  · rw [if_neg hlen]
    by_cases hp : m.1 <+: uri
    · rw [if_pos ((zip_all_iff _ _ (by omega)).2 hp)]
      simp [hp]
    · rw [if_neg (fun hz => hp ((zip_all_iff _ _ (by omega)).1 hz)), if_neg (fun hc => hp hc.1)]

theorem longestPrefixMatch_eq (visit : RouteMap) (uri : Str) :
    longestPrefixMatch visit uri = (visit.map Prod.fst).foldl (longer uri) [] := by
  unfold longestPrefixMatch
  rw [List.foldl_map]
  congr 1
  funext best m
  exact matchStep_eq uri best m

theorem mem_declaredIn {block : NginxConfig} {handlerKey uri handler : Str} :
    (uri, handler) ∈ declaredIn handlerKey block ↔ handler = handlerKey ∧
      ∃ s ∈ block, s.tokens[0]? = some (str "location") ∧ s.tokens[1]? = some uri := by
  unfold declaredIn
  rw [List.mem_filterMap]
  constructor
  · rintro ⟨s, hs, he⟩
    by_cases h0 : s.tokens[0]? = some (str "location")
    · rw [if_pos h0] at he
      obtain ⟨u, hu, e⟩ := Option.map_eq_some_iff.1 he
      cases e
      exact ⟨rfl, s, hs, h0, hu⟩
    · rw [if_neg h0] at he
      cases he
  · rintro ⟨rfl, s, hs, h0, h1⟩
    exact ⟨s, hs, by rw [if_pos h0, h1]; rfl⟩

theorem validProxy_spec {block : NginxConfig} (h : Shaped block) (name : Str) : validProxy name block =
    some (decide (∃ s ∈ block, s.tokens[0]? = some (str "location") ∧ s.tokens[1]? = some name)) := by
  induction block with
  | nil => rfl
  | cons s block ih =>
    have ih := ih (fun s' hs' => h s' (by simp [hs']))
    obtain ⟨hne, h2⟩ := h s (by simp)
    have h0 : s.tokens[0]? = some (s.tokens.head hne) := by rw [← List.head?_eq_getElem?, List.head?_eq_some_head]
    unfold validProxy
    by_cases hl : s.tokens[0]? = some (str "location")
    · obtain ⟨u, h1⟩ : ∃ u, s.tokens[1]? = some u := ⟨_, List.getElem?_eq_getElem (h2 hl)⟩
      rw [hl, h1]
      by_cases hn : u = name
      · simp [hl, h1, hn]
      · simp [h1, hn, ih]
    · have : s.tokens.head hne ≠ str "location" := fun e => hl (by rw [h0, e])
      rw [h0]
      simp [hl, this, ih]

/-- The loop ends with the child of a block that passes the test, if one does. -/
theorem lastBlock_spec {test : List Str → Option Bool} (config : NginxConfig) :
    (∀ s ∈ config, s.childBlock.isSome → (test s.tokens).isSome) → ∃ out, lastBlock test config = some out ∧
      (∀ child, out = some child → ∃ s ∈ config, s.childBlock = some child ∧ test s.tokens = some true) ∧
      (out = none → ∀ s ∈ config, s.childBlock.isSome → test s.tokens = some false) := by
  unfold lastBlock
  induction config using List.reverseRecOn with
  | nil => exact fun _ => ⟨none, rfl, by simp, by simp⟩
  | append_singleton config s ih =>
    intro h
    obtain ⟨out, hout, h1, h2⟩ := ih (fun s' hs' => h s' (by simp [hs']))
    rw [List.foldlM_append, hout]
    cases hc : s.childBlock with
    | none =>
      refine ⟨out, by simp [hc], fun child e => ?_, fun e s' hs' hc' => ?_⟩
      · obtain ⟨s', hs', h1⟩ := h1 child e
        exact ⟨s', by simp [hs'], h1⟩
      · rcases List.mem_append.1 hs' with hs' | hs'
        · exact h2 e s' hs' hc'
        · rw [List.mem_singleton.1 hs', hc] at hc'
          cases hc'
    | some child =>
      obtain ⟨b, hb⟩ := Option.isSome_iff_exists.1 (h s (by simp) (by rw [hc]; rfl))
      cases b with
      | true =>
        refine ⟨some child, by simp [hc, hb], ?_, nofun⟩
        rintro _ ⟨rfl⟩
        exact ⟨s, by simp, hc, hb⟩
      | false =>
        refine ⟨out, by simp [hc, hb], fun child e => ?_, fun e s' hs' hc' => ?_⟩
        · obtain ⟨s', hs', h1⟩ := h1 child e
          exact ⟨s', by simp [hs'], h1⟩
        · rcases List.mem_append.1 hs' with hs' | hs'
          · exact h2 e s' hs' hc'
          · rw [List.mem_singleton.1 hs', hb]

theorem isHandler_eq (handlerName : Str) {tokens : List Str} (h : tokens ≠ []) : isHandler handlerName tokens =
    some (decide (tokens[0]? = some (str "handler") ∧ tokens[1]? = some handlerName)) := by
  have hlen : tokens[1]? = some handlerName → tokens.length > 1 := fun h1 => (List.getElem?_eq_some_iff.1 h1).1
  unfold isHandler
  rw [← List.head?_eq_getElem?, List.head?_eq_some_head h]
  simp only [Option.bind_eq_bind, Option.bind_some, Option.pure_def, Option.some.injEq]
  congr 1
  simp only [eq_iff_iff]
  exact ⟨fun h => ⟨h.1, h.2.2⟩, fun h => ⟨h.1, hlen h.2, h.2⟩⟩

/-- The block of a handler's config, and that it is found if there is one. -/
theorem getHandlerConfig_spec {config : NginxConfig} (h : ∀ s ∈ config, s.tokens ≠ []) (handlerName : Str) :
    ∃ out, getHandlerConfig config handlerName = some out ∧
      (∀ child, out = some child → ∃ s ∈ config, s.childBlock = some child ∧
        s.tokens[0]? = some (str "handler") ∧ s.tokens[1]? = some handlerName) ∧
      (out = none → ∀ s ∈ config, s.childBlock.isSome →
        ¬ (s.tokens[0]? = some (str "handler") ∧ s.tokens[1]? = some handlerName)) := by
  have hread : ∀ s ∈ config, s.childBlock.isSome → (isHandler handlerName s.tokens).isSome := fun s hs _ => by
    rw [isHandler_eq handlerName (h s hs)]; rfl
  obtain ⟨out, hout, h1, h2⟩ := lastBlock_spec config hread
  refine ⟨out, hout, fun child e => ?_, fun e s hs hc hn => ?_⟩
  · obtain ⟨s, hs, hc, ht⟩ := h1 child e
    rw [isHandler_eq handlerName (h s hs)] at ht
    exact ⟨s, hs, hc, by simpa using ht⟩
  · have := h2 e s hs hc
    rw [isHandler_eq handlerName (h s hs), hn.1, hn.2] at this
    simp at this

theorem mem_declared {config : NginxConfig} {uri handlerKey : Str} :
    (uri, handlerKey) ∈ declared config ↔ ∃ s ∈ config, ∃ child, s.childBlock = some child ∧
      s.tokens[0]? = some (str "handler") ∧ s.tokens[1]? = some handlerKey ∧
      ∃ st ∈ child, st.tokens[0]? = some (str "location") ∧ st.tokens[1]? = some uri := by
  unfold declared
  rw [List.mem_flatMap]
  constructor
  · rintro ⟨s, hs, he⟩
    cases s with
    | line ts => cases he
    | block ts child =>
      by_cases h0 : ts[0]? = some (str "handler")
      · cases h1 : ts[1]? with
        | none => simp [h0, h1] at he
        | some handler =>
          simp only [h0, h1, if_true, Option.map_some, Option.getD_some] at he
          obtain ⟨rfl, hm⟩ := mem_declaredIn.1 he
          exact ⟨_, hs, child, rfl, h0, h1, hm⟩
      · simp [h0] at he
  · rintro ⟨s, hs, child, hc, h0, h1, hm⟩
    refine ⟨s, hs, ?_⟩
    cases s with
    | line ts => cases hc
    | block ts c =>
      cases hc
      rw [Statement.tokens_block] at h0 h1
      simp only [h0, h1, if_true, Option.map_some, Option.getD_some]
      exact mem_declaredIn.2 ⟨rfl, hm⟩

/-- The handler that `config` gives to `uri`: the one that declared the longest
matching location first, and `default` if none matches. -/
def HandlerFor (config : NginxConfig) (uri name : Str) : Prop :=
  (∃ l, IsLongestPrefix ((declared config).map Prod.fst) uri l ∧ (declared config).lookup l = some name) ∨
    ((∀ l ∈ (declared config).map Prod.fst, ¬ l <+: uri) ∧ name = str "default")

/-- The blocks of the proxy are shaped. -/
def ShapedProxy (config : NginxConfig) : Prop :=
  ∀ s ∈ config, ∀ child, s.childBlock = some child → s.tokens[0]? = some (str "handler") →
    s.tokens[1]? = some (str "proxy") → Shaped child

/-- A route that is not registered belongs to `default`: the proxy's own check
cannot find a location that registration missed. -/
theorem getRouteHandler_default {config : NginxConfig} (hne : ∀ s ∈ config, s.tokens ≠ []) (h : ShapedProxy config)
    {routeMap : RouteMap} {uri : Str} (hr : routeMap.lookup uri = none) (hu : uri ∉ (declared config).map Prod.fst) :
    getRouteHandler config routeMap uri = some (str "default") := by
  obtain ⟨out, hout, hspec, -⟩ := getHandlerConfig_spec hne (str "proxy")
  unfold getRouteHandler
  rw [hr, hout]
  cases out with
  | none => rfl
  | some child =>
    obtain ⟨s, hs, hc, h0, h1⟩ := hspec child rfl
    have hv := validProxy_spec (h s hs child hc h0 h1) uri
    rw [decide_eq_false fun hm =>
      hu (List.mem_map_of_mem (f := Prod.fst) (mem_declared.2 ⟨s, hs, child, hc, h0, h1, hm⟩))] at hv
    simp [hv]

/-- After registration, the route that the scan finds is the longest declared
location that matches, and empty if none does. -/
theorem longestPrefixMatch_spec {config : NginxConfig} {visit : RouteMap}
    (hp : visit.Perm (bindAll [] (declared config))) (uri : Str) :
    IsLongestPrefix ((declared config).map Prod.fst) uri (longestPrefixMatch visit uri) ∨
      (longestPrefixMatch visit uri = [] ∧ ∀ l ∈ (declared config).map Prod.fst, ¬ l <+: uri) := by
  have hkeys : ∀ l, l ∈ visit.map Prod.fst ↔ l ∈ (declared config).map Prod.fst := fun l => by
    rw [(hp.map Prod.fst).mem_iff, mem_keys_bindAll]
  rw [longestPrefixMatch_eq]
  apply (scan_longest uri (visit.map Prod.fst)).imp
  · exact fun h => h.congr hkeys
  · exact fun ⟨h, hn⟩ => ⟨h, fun l hl => hn l ((hkeys l).2 hl)⟩

theorem lookup_registered (config : NginxConfig) (l : Str) :
    (bindAll [] (declared config)).lookup l = (declared config).lookup l := by
  rw [lookup_bindAll]
  rfl

theorem dispatchName_registered {config : NginxConfig} (hne : ∀ s ∈ config, s.tokens ≠ []) (h : ShapedProxy config)
    {routes : Routes} (hr : registerRoutesFromConfig config ⟨[], []⟩ = some routes) {visit : RouteMap} {uri name : Str}
    (hp : visit.Perm routes.routeMap) :
    dispatchName config routes.routeMap visit uri = some name ↔ HandlerFor config uri name := by
  rw [registerRoutes_some hr, addAll_routeMap] at hp ⊢
  unfold dispatchName
  rcases longestPrefixMatch_spec hp uri with hl | ⟨he, hn⟩
  · -- some location matches, and it is registered
    generalize longestPrefixMatch visit uri = l at hl ⊢
    obtain ⟨v, hv⟩ := Option.isSome_iff_exists.1 ((lookup_isSome_iff (declared config) l).2 hl.mem)
    have : getRouteHandler config (bindAll [] (declared config)) l = some v := by
      unfold getRouteHandler
      rw [lookup_registered, hv]
    rw [this]
    constructor
    · rintro ⟨rfl⟩
      exact .inl ⟨l, hl, hv⟩
    · rintro (⟨l', hl', hv'⟩ | ⟨hn, -⟩)
      · rw [hl'.unique hl, hv] at hv'
        exact hv'
      · exact absurd hl.isPre (hn l hl.mem)
  · -- none does, so the empty location is not declared either
    have h0 : [] ∉ (declared config).map Prod.fst := fun hm => hn [] hm List.nil_prefix
    have hl0 : (bindAll [] (declared config)).lookup [] = none := by
      rw [lookup_registered, ← Option.not_isSome_iff_eq_none, lookup_isSome_iff]
      exact h0
    rw [he, getRouteHandler_default hne h hl0 h0]
    constructor
    · rintro ⟨rfl⟩
      exact .inr ⟨hn, rfl⟩
    · rintro (⟨l, hl, -⟩ | ⟨-, rfl⟩)
      · exact absurd hl.isPre (hn l hl.mem)
      · rfl

/-- After registration, whatever the order in which the route map is visited,
`select_handler` dispatches on the name the config gives to the URI. -/
theorem dispatchName_spec {config : NginxConfig} (h : ShapedConfig config) :
    ∃ routes, registerRoutesFromConfig config ⟨[], []⟩ = some routes ∧
      ∀ visit uri name, visit.Perm routes.routeMap →
        (dispatchName config routes.routeMap visit uri = some name ↔ HandlerFor config uri name) := by
  obtain ⟨routes, hr⟩ := Option.isSome_iff_exists.1 (registerRoutes_isSome h ⟨[], []⟩)
  have hproxy : ShapedProxy config := fun s hs child hc _ _ => h.2 s hs child hc
  exact ⟨routes, hr, fun visit uri name => dispatchName_registered (fun s hs => (h.1 s hs).1) hproxy hr⟩

/-- Two handlers declare nested locations, and one of them a location twice. -/
def nestedLocations : NginxConfig :=
  [.block [str "handler", str "echo"] [.line [str "location", str "/a"]],
   .block [str "handler", str "proxy"]
     [.line [str "location", str "/a/b"], .line [str "root", str "c"], .line [str "location", str "/a"]]]

theorem dispatchName_nested : ∃ routes, registerRoutesFromConfig nestedLocations ⟨[], []⟩ = some routes ∧
    dispatchName nestedLocations routes.routeMap routes.routeMap.reverse (str "/a/bc") = some (str "proxy") := by
  have hs : ShapedConfig nestedLocations := by
    refine ⟨?_, ?_⟩
    · simp [nestedLocations, Shaped]
    · simp [nestedLocations, Shaped]
  obtain ⟨routes, h, hd⟩ := dispatchName_spec hs
  refine ⟨routes, h, (hd _ _ _ (List.reverse_perm _)).2 (.inl ⟨str "/a/b", ⟨?_, ?_, ?_⟩, ?_⟩)⟩
  all_goals decide

end GittyUp.Router
