import GittyUp.Blocks
import GittyUp.Handlers
import GittyUp.Proxy
/-!
# The shape of a config

What the router and the constructors of the handlers read of a config: a token
that is not there, or a block that is not there, is `none`. `safe_iff` says which
configs they get through.
-/
open Lib GittyUp.Config GittyUp.Router GittyUp.Handlers GittyUp.Proxy

namespace GittyUp.Shape

/-! ## The constructors -/

/-- `parse_config`: `path_to_memes_` and `path_to_meme_templates_`. -/
def parseConfig (rootPath : Str) (config : NginxConfig) : Str × Str :=
  config.foldl (fun paths statement =>
    match statement.tokens with
    | [directive, path] =>
      if directive = str "memePath" then (rootPath ++ path, paths.2)
      else if directive = str "memeTemplatePath" then (paths.1, rootPath ++ path)
      else paths
    | _ => paths) ([], [])

/-- A handler, with what its constructor has read from its block. -/
inductive Instance
  | echo
  | staticFile (path : Str)
  | status
  | proxy (location2proxy : List (Str × Str))
  | meme (pathToMemes pathToMemeTemplates : Str)
  | health
  | default

/-- `create_handler` of a class. Three of the constructors look into the block. -/
def createInstance (rootPath : Str) (handler : Handler) (config : Option NginxConfig) : Option Instance :=
  match handler with
  | .echo => some .echo
  | .staticFile _ => config.map fun block => .staticFile (rootPath ++ getStaticFilePath block)
  | .status => some .status
  | .proxy => do return .proxy (← location2proxy (← config))
  | .meme => config.map fun block => .meme (parseConfig rootPath block).1 (parseConfig rootPath block).2
  | .health => some .health
  | .default => some .default

/-- `select_handler`, with the construction of the handler. -/
def selectInstance (rootPath : Str) (config : NginxConfig) (routeMap visit : RouteMap) (uri : Str) : Option Instance := do
  let (handler, block) ← createHandler config routeMap visit uri
  createInstance rootPath handler block

/-- `create_router`, `register_routes_from_config` and `select_handler` read what is there. -/
def Safe (rootPath : Str) (configFile : NginxConfig) (uri : Str) : Prop :=
  ∃ out, createRouter configFile = some out ∧ ∀ config, out = some config →
    ∃ routes, registerRoutesFromConfig config ⟨[], []⟩ = some routes ∧
      ∀ visit, visit.Perm routes.routeMap → (selectInstance rootPath config routes.routeMap visit uri).isSome

/-- In the router's block, each location has an argument; and if `uri` is the
proxy's, so has each root and each port in the proxy's block. -/
def Complete (configFile : NginxConfig) (uri : Str) : Prop :=
  ∀ config, IsLastBlock IsRouter configFile config → LocatedConfig config ∧
    (HandlerFor config uri (str "proxy") → ∀ block, IsLastBlock (IsNamed (str "proxy")) config block → HasArguments block)

/-! ## The blocks that are found -/

theorem createRouter_last {configFile : NginxConfig} (h : Worded configFile) :
    ∃ out, IsLast IsRouter configFile out ∧ createRouter configFile = some (blockAt configFile out) := by
  have htest : ∀ s ∈ configFile, s.childBlock.isSome →
      ∃ b, isRouter s.tokens = some b ∧ (b = true ↔ IsRouter s) := by
    intro s hs hc
    obtain ⟨t, h0⟩ := tokens_zero (h.tokens s hs)
    refine ⟨decide (t = str "router"), by simp [isRouter, h0], ?_⟩
    rw [decide_eq_true_eq, IsRouter, h0, Option.some_inj]
    exact ⟨fun ht => ⟨hc, ht⟩, fun ht => ht.2⟩
  obtain ⟨out, -, hlast, hblock⟩ := lastBlockAt_spec (fun s hs => hs.1) htest
  exact ⟨out, hlast, hblock⟩

/-- The child of the last one is there, if there is one. -/
theorem exists_lastBlock {p : Statement → Prop} {config : NginxConfig} {out : Option Nat} (hp : ∀ s, p s → s.childBlock.isSome)
    (h : IsLast p config out) (hex : ∃ s ∈ config, p s) :
    ∃ block, blockAt config out = some block ∧ ∃ s ∈ config, s.childBlock = some block ∧ p s := by
  cases out with
  | none =>
    obtain ⟨s, hs, hps⟩ := hex
    exact absurd hps (h s hs)
  | some i =>
    obtain ⟨⟨s, hs, hps⟩, -⟩ := h
    obtain ⟨block, hblock⟩ := Option.isSome_iff_exists.1 (hp s hps)
    exact ⟨block, by simp [blockAt, hs, hblock], s, List.mem_of_getElem? hs, hblock, hps⟩

/-- A block of a worded config is worded. -/
theorem worded_blockAt {config block : NginxConfig} {out : Option Nat} (h : Worded config)
    (hb : blockAt config out = some block) : Worded block := by
  obtain ⟨place, -, hb⟩ := Option.bind_eq_some_iff.1 hb
  obtain ⟨s, hs, hc⟩ := Option.bind_eq_some_iff.1 hb
  exact fun t ht => h t (.child (List.mem_of_getElem? hs) hc ht)

theorem lastBlock_iff {p : Statement → Prop} {config block : NginxConfig} {out : Option Nat} (h : IsLast p config out) :
    IsLastBlock p config block ↔ blockAt config out = some block := by
  constructor
  · rintro ⟨out', h', hb⟩
    rwa [h.unique h']
  · exact fun hb => ⟨out, h, hb⟩

/-! ## The handler of a URI -/

section Handler
variable {config : NginxConfig} {uri name : Str}

theorem exists_handlerFor (config : NginxConfig) (uri : Str) : ∃ name, HandlerFor config uri name := by
  rcases longestPrefixMatch_spec (.refl (bindAll [] (declared config))) uri with hl | ⟨-, hn⟩
  · obtain ⟨name, hname⟩ := Option.isSome_iff_exists.1 ((lookup_isSome_iff (declared config) _).2 hl.mem)
    exact ⟨name, .inl ⟨_, hl, hname⟩⟩
  · exact ⟨str "default", .inr ⟨hn, rfl⟩⟩

/-- A handler that a URI has, other than `default`, has a block. -/
theorem handlerFor_named (h : HandlerFor config uri name) (hne : name ≠ str "default") : ∃ s ∈ config, IsNamed name s := by
  rcases h with ⟨l, -, hl⟩ | ⟨-, he⟩
  · obtain ⟨s, hs, child, hc, h0, h1, -⟩ := mem_declared.1 (mem_of_lookup hl)
    exact ⟨s, hs, by rw [hc]; rfl, h0, h1⟩
  · exact absurd he hne

theorem handlerNamed_other (h : name ∉ clauses) : handlerNamed name = .default := by
  simp only [clauses, List.mem_cons, List.not_mem_nil, or_false, not_or] at h
  obtain ⟨h1, h2, h3, h4, h5, h6, h7, h8, h9⟩ := h
  unfold handlerNamed
  rw [if_neg h1, if_neg h2, if_neg h3, if_neg h4, if_neg h5, if_neg h6, if_neg h7, if_neg h8, if_neg h9]

theorem createInstance_isSome (rootPath : Str) {handler : Handler} (h : handler ≠ .proxy) (block : NginxConfig) :
    (createInstance rootPath handler (some block)).isSome := by
  cases handler with
  | proxy => exact absurd rfl h
  | _ => rfl

theorem createInstance_proxy (rootPath : Str) {block : NginxConfig} (hw : Worded block) (hl : Located block) :
    (createInstance rootPath .proxy (some block)).isSome ↔ HasArguments block := by
  have hinst : createInstance rootPath .proxy (some block) = (location2proxy block).map .proxy := by
    show (location2proxy block >>= fun m => some (Instance.proxy m)) = _
    cases location2proxy block <;> rfl
  rw [hinst, Option.isSome_map]
  exact (location2proxyLoop_isSome_iff hw.tokens [] []).trans (and_iff_right hl)

theorem shapedProxy (hw : Worded config) (hl : LocatedConfig config) : ShapedProxy config := by
  intro s hs child hc h0 h1 t ht
  have h2 : 2 ≤ s.tokens.length := (List.getElem?_eq_some_iff.1 h1).1
  exact ⟨hw t (.child hs hc (.here ht)), hl s hs child hc h0 h2 t ht⟩

section Registered
variable {routes : Routes} {visit : RouteMap} (hw : Worded config)
  (hr : registerRoutesFromConfig config ⟨[], []⟩ = some routes) (hv : visit.Perm routes.routeMap)
include hw hr hv

theorem dispatchName_worded : dispatchName config routes.routeMap visit uri = some name ↔ HandlerFor config uri name := by
  have hl : LocatedConfig config := (registerRoutes_isSome_iff ⟨[], []⟩).1 (by rw [hr]; rfl)
  exact dispatchName_registered hw.tokens (shapedProxy hw hl) hr hv

/-- The class of the handler, and the last block that has the name `select_handler` asks for. -/
theorem selectInstance_eq (rootPath : Str) (hname : HandlerFor config uri name) :
    ∃ out, IsLast (IsNamed (configName name)) config out ∧ selectInstance rootPath config routes.routeMap visit uri =
      createInstance rootPath (handlerNamed name) (blockAt config out) := by
  obtain ⟨out, -, hlast, hblock⟩ := lastBlockAt_named hw.tokens (configName name)
  refine ⟨out, hlast, ?_⟩
  unfold selectInstance createHandler
  simp [(dispatchName_worded hw hr hv).2 hname, hblock]

/-- Every handler but the proxy is constructed: a clause is there for it, and so is
its block, or it is `default`. -/
theorem selectInstance_isSome (rootPath : Str) (hname : HandlerFor config uri name) (hne : name ≠ str "proxy") :
    (selectInstance rootPath config routes.routeMap visit uri).isSome := by
  obtain ⟨out, hlast, he⟩ := selectInstance_eq hw hr hv rootPath hname
  rw [he]
  by_cases hclause : name ∈ clauses
  · have hdefault : name ≠ str "default" := by
      rintro rfl
      exact absurd hclause (by decide)
    rw [configName_eq_iff.2 (.inl hclause)] at hlast
    obtain ⟨block, hb, -⟩ := exists_lastBlock (fun s hs => hs.1) hlast (handlerFor_named hname hdefault)
    rw [hb]
    exact createInstance_isSome rootPath (fun h => hne (handlerNamed_proxy.1 h)) block
  · rw [handlerNamed_other hclause]
    rfl

/-- The proxy is constructed just when its block has the arguments. -/
theorem selectInstance_proxy (rootPath : Str) (hname : HandlerFor config uri (str "proxy")) :
    (selectInstance rootPath config routes.routeMap visit uri).isSome ↔
      ∀ block, IsLastBlock (IsNamed (str "proxy")) config block → HasArguments block := by
  obtain ⟨out, hlast, he⟩ := selectInstance_eq hw hr hv rootPath hname
  rw [configName_eq_iff.2 (.inl (by decide))] at hlast
  obtain ⟨block, hb, s, hs, hc, -, h0, h1⟩ := exists_lastBlock (fun s hs => hs.1) hlast (handlerFor_named hname (by decide))
  have hl : LocatedConfig config := (registerRoutes_isSome_iff ⟨[], []⟩).1 (by rw [hr]; rfl)
  have hlocated : Located block := fun t ht => (shapedProxy hw hl s hs block hc h0 h1 t ht).2
  have hproxy : handlerNamed (str "proxy") = .proxy := by decide
  rw [he, hb, hproxy, createInstance_proxy rootPath (worded_blockAt hw hb) hlocated]
  constructor
  · intro ha block' hb'
    rw [lastBlock_iff hlast, hb] at hb'
    cases hb'
    exact ha
  · exact fun h => h block ((lastBlock_iff hlast).2 hb)

/-- Selecting a handler reads what is there, but for the constructor of the proxy. -/
theorem selectInstance_isSome_iff (rootPath : Str) : (selectInstance rootPath config routes.routeMap visit uri).isSome ↔
    (HandlerFor config uri (str "proxy") →
      ∀ block, IsLastBlock (IsNamed (str "proxy")) config block → HasArguments block) := by
  by_cases hproxy : HandlerFor config uri (str "proxy")
  · rw [selectInstance_proxy hw hr hv rootPath hproxy]
    exact ⟨fun h _ => h, fun h => h hproxy⟩
  · obtain ⟨name, hname⟩ := exists_handlerFor config uri
    have hne : name ≠ str "proxy" := fun h => hproxy (h ▸ hname)
    exact iff_of_true (selectInstance_isSome hw hr hv rootPath hname hne) fun h => absurd h hproxy

end Registered

end Handler

/-- The router and the handlers read no more of a config than there is, if and
only if the words that they look for have their arguments. -/
theorem safe_iff (rootPath configFile uri : Str) :
    Safe rootPath (parse configFile).2 uri ↔ Complete (parse configFile).2 uri := by
  have hw : Worded (parse configFile).2 := parse_worded configFile
  obtain ⟨out, hlast, hout⟩ := createRouter_last hw
  unfold Safe Complete
  rw [hout]
  simp only [lastBlock_iff hlast, Option.some_inj, exists_eq_left']
  apply forall₂_congr
  intro config hc
  have hwc : Worded config := worded_blockAt hw hc
  have hregister : (registerRoutesFromConfig config ⟨[], []⟩).isSome ↔ LocatedConfig config := registerRoutes_isSome_iff _
  constructor
  · rintro ⟨routes, hr, hselect⟩
    refine ⟨hregister.1 (by rw [hr]; rfl), ?_⟩
    exact (selectInstance_isSome_iff hwc hr (.refl _) rootPath).1 (hselect _ (.refl _))
  · rintro ⟨hlocated, hproxy⟩
    obtain ⟨routes, hr⟩ := Option.isSome_iff_exists.1 (hregister.2 hlocated)
    exact ⟨routes, hr, fun visit hv => (selectInstance_isSome_iff hwc hr hv rootPath).2 hproxy⟩

def loneText : Str := "port 80; router { handler echo { location; } }"

def loneRouter : NginxConfig := [.block [str "handler", str "echo"] [.line [str "location"]]]

theorem parse_loneText :
    parse loneText = (true, [.line [str "port", str "80"], .block [str "router"] loneRouter]) := by
  simp [parse, parseLoop, parseToken, parseTokenLoop, str, feed, onTop, pushToken, setChild, pop, accepts, tree,
      List.modifyLast, List.modifyLast.go, loneText, loneRouter]

/-- A lone `location` is accepted, and the argument that it does not have is read. -/
theorem safe_lone : (parse loneText).1 = true ∧ ∀ rootPath uri, ¬ Safe rootPath (parse loneText).2 uri := by
  rw [parse_loneText]
  refine ⟨rfl, ?_⟩
  rintro rootPath uri ⟨out, hout, h⟩
  have hcreate : out = some loneRouter := Option.some.inj hout.symm
  have hregister : registerRoutesFromConfig loneRouter ⟨[], []⟩ = none := rfl
  obtain ⟨routes, hr, -⟩ := h loneRouter hcreate
  rw [hregister] at hr
  cases hr

end GittyUp.Shape
