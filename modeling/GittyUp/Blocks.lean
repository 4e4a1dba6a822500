import GittyUp.Config.Tree
import GittyUp.Router
/-!
# The block that a handler is created with

`select_handler` of `src/router.cc` up to `create_handler`. A block is a pointer
in the source, and here the place of its statement in the router config. The
route map knows the names of the handlers and not their blocks:
`passedBlock_spec` says whose block the handler of a route gets.
-/
open Lib GittyUp.Config

namespace GittyUp.Router

/-! ## Selecting a handler -/

/-- The names that `select_handler` has a clause for. -/
def clauses : List Str := ["echo", "static1", "static2", "webMeme", "imageMeme", "status", "proxy", "meme", "health"]

/-- The name whose block is passed on to `create_handler`. -/
def configName (handler : Str) : Str := if handler ∈ clauses then handler else str "default"

/-- `select_handler`: a class, and the block that its `create_handler` gets. -/
def createHandler (config : NginxConfig) (routeMap visit : RouteMap) (uri : Str) :
    Option (Handler × Option NginxConfig) := do
  let handler ← dispatchName config routeMap visit uri
  let block ← getHandlerConfig config (configName handler)
  return (handlerNamed handler, block)

/-- The loop of `lastBlock` once more, which remembers the place of the block. -/
def lastBlockAt (test : List Str → Option Bool) (config : NginxConfig) : Option (Option Nat) :=
  config.zipIdx.foldlM (fun output s =>
    match s.1.childBlock with
    | none => some output
    | some _ => do if ← test s.1.tokens then return some s.2 else return output) none

/-- The place of the block that `create_handler` gets. -/
def passedBlock (config : NginxConfig) (routeMap visit : RouteMap) (uri : Str) : Option (Option Nat) := do
  let handler ← dispatchName config routeMap visit uri
  lastBlockAt (isHandler (configName handler)) config

/-- The child block of the statement at a place. -/
def blockAt (config : NginxConfig) (place : Option Nat) : Option NginxConfig := do
  let place ← place
  let s ← config[place]?
  s.childBlock

/-! ## The last block of a name -/

/-- A statement `handler name { … }`. -/
def IsNamed (name : Str) (s : Statement) : Prop :=
  s.childBlock.isSome ∧ s.tokens[0]? = some (str "handler") ∧ s.tokens[1]? = some name

/-- A statement `router { … }`. -/
def IsRouter (s : Statement) : Prop := s.childBlock.isSome ∧ s.tokens[0]? = some (str "router")

/-- The block of the last statement with `p`. -/
def IsLastBlock (p : Statement → Prop) (config block : NginxConfig) : Prop :=
  ∃ out, IsLast p config out ∧ blockAt config out = some block

theorem blockAt_append {p : Statement → Prop} {config : NginxConfig} {out : Option Nat} (h : IsLast p config out)
    (s : Statement) : blockAt (config ++ [s]) out = blockAt config out := by
  cases out with
  | none => rfl
  | some i =>
    obtain ⟨⟨t, ht, -⟩, -⟩ := h
    show ((config ++ [s])[i]?.bind Statement.childBlock) = config[i]?.bind Statement.childBlock
    rw [List.getElem?_append_left (List.getElem?_eq_some_iff.1 ht).1]

/-- Both loops end at the last block that passes the test, if the test can be made of each block. -/
theorem lastBlockAt_spec {test : List Str → Option Bool} {p : Statement → Prop} {config : NginxConfig}
    (hp : ∀ s, p s → s.childBlock.isSome)
    (h : ∀ s ∈ config, s.childBlock.isSome → ∃ b, test s.tokens = some b ∧ (b = true ↔ p s)) :
    ∃ out, lastBlockAt test config = some out ∧ IsLast p config out ∧
      lastBlock test config = some (blockAt config out) := by
  unfold lastBlockAt lastBlock
  induction config using List.reverseRecOn with
  | nil => exact ⟨none, rfl, nofun, rfl⟩
  | append_singleton config s ih =>
    obtain ⟨out, hout, hlast, hblock⟩ := ih fun s' hs' => h s' (by simp [hs'])
    rw [List.zipIdx_append, List.foldlM_append, List.foldlM_append, hout, hblock]
    -- what the last turn of the loops does to their outputs
    cases hc : s.childBlock with
    | none =>
      have hnot : ¬ p s := fun hs => by simpa [hc] using hp s hs
      refine ⟨out, by simp [hc], hlast.skip hnot, ?_⟩
      simp [hc, blockAt_append hlast]
    | some child =>
      obtain ⟨b, htest, hiff⟩ := h s (by simp) (by rw [hc]; rfl)
      cases b with
      | true =>
        refine ⟨some config.length, by simp [hc, htest], IsLast.found (hiff.1 rfl), ?_⟩
        simp [hc, htest, blockAt]
      | false =>
        have hnot : ¬ p s := fun hs => Bool.noConfusion (hiff.2 hs)
        refine ⟨out, by simp [hc, htest], hlast.skip hnot, ?_⟩
        simp [hc, htest, blockAt_append hlast]

theorem lastBlockAt_named {config : NginxConfig} (h : ∀ s ∈ config, s.tokens ≠ []) (name : Str) :
    ∃ out, lastBlockAt (isHandler name) config = some out ∧ IsLast (IsNamed name) config out ∧
      getHandlerConfig config name = some (blockAt config out) := by
  refine lastBlockAt_spec (fun s hs => hs.1) fun s hs hc => ⟨_, isHandler_eq name (h s hs), ?_⟩
  rw [decide_eq_true_eq]
  exact ⟨fun hn => ⟨hc, hn⟩, fun hn => hn.2⟩

/-- The place is that of the block that `select_handler` passes on. -/
theorem createHandler_block {config : NginxConfig} (h : ∀ s ∈ config, s.tokens ≠ []) (routeMap visit : RouteMap) (uri : Str) :
    (createHandler config routeMap visit uri).map Prod.snd = (passedBlock config routeMap visit uri).map (blockAt config) := by
  unfold createHandler passedBlock
  cases dispatchName config routeMap visit uri with
  | none => rfl
  | some handler =>
    obtain ⟨out, hout, -, hblock⟩ := lastBlockAt_named h (configName handler)
    simp [hout, hblock]

/-! ## The block that declares a route -/

/-- The turn of `register_routes_from_config` on the statement at `place` puts
`l` into the route map, for the handler `name`. -/
structure RegisteredFrom (config : NginxConfig) (l : Str) (place : Nat) (name : Str) : Prop where
  before : ∃ routes, registerRoutesFromConfig (config.take place) ⟨[], []⟩ = some routes ∧
    routes.routeMap.lookup l = none
  after : ∃ routes, registerRoutesFromConfig (config.take (place + 1)) ⟨[], []⟩ = some routes ∧
    routes.routeMap.lookup l = some name

theorem declared_append (c c' : NginxConfig) : declared (c ++ c') = declared c ++ declared c' := List.flatMap_append

theorem lookup_routes {config : NginxConfig} {routes : Routes} (h : registerRoutesFromConfig config ⟨[], []⟩ = some routes)
    (l : Str) : routes.routeMap.lookup l = (declared config).lookup l := by
  rw [registerRoutes_some h, addAll_routeMap]
  exact lookup_registered config l

section Registered
variable {config : NginxConfig} {l name : Str} {place : Nat}

/-- It is the place of a block with the handler's name. -/
theorem RegisteredFrom.named (h : RegisteredFrom config l place name) : ∃ s, config[place]? = some s ∧ IsNamed name s := by
  obtain ⟨before, hb, hnone⟩ := h.before
  obtain ⟨after, ha, hsome⟩ := h.after
  rw [lookup_routes hb] at hnone
  rw [lookup_routes ha, List.take_add_one, declared_append, List.lookup_append, hnone, Option.none_or] at hsome
  cases hs : config[place]? with
  | none => rw [hs] at hsome; cases hsome
  | some s =>
    rw [hs] at hsome
    obtain ⟨t, ht, child, hc, h0, h1, -⟩ := mem_declared.1 (mem_of_lookup hsome)
    rw [List.mem_singleton.1 ht] at hc h0 h1
    exact ⟨s, rfl, by rw [hc]; rfl, h0, h1⟩

/-- The handler of the route stays. -/
theorem RegisteredFrom.lookup (h : RegisteredFrom config l place name) : (declared config).lookup l = some name := by
  obtain ⟨after, ha, hsome⟩ := h.after
  rw [lookup_routes ha] at hsome
  rw [← List.take_append_drop (place + 1) config, declared_append, List.lookup_append, hsome]
  rfl

theorem configName_eq_iff : configName name = name ↔ name ∈ clauses ∨ name = str "default" := by
  unfold configName
  split
  · simp [*]
  · simp [*, eq_comm]

/-- The handler of a route gets the last block with the name that `select_handler`
asks for. That is the block the route was registered from if and only if there is
a clause for its name, or it is `default`, and no later block has the name. -/
theorem passedBlock_spec {routes : Routes} {visit : RouteMap} {uri : Str} (hw : Worded config)
    (hr : registerRoutesFromConfig config ⟨[], []⟩ = some routes)
    (hl : RegisteredFrom config (longestPrefixMatch visit uri) place name) :
    ∃ out, passedBlock config routes.routeMap visit uri = some out ∧
      (createHandler config routes.routeMap visit uri).map Prod.snd = some (blockAt config out) ∧
      IsLast (IsNamed (configName name)) config out ∧
      (out = some place ↔ (name ∈ clauses ∨ name = str "default") ∧
        ∀ later, place < later → ∀ s, config[later]? = some s → ¬ IsNamed name s) := by
  have hname : dispatchName config routes.routeMap visit uri = some name := by
    -- the later turns of the registration have left the route as it was
    unfold dispatchName getRouteHandler
    rw [lookup_routes hr, hl.lookup]
  obtain ⟨out, hout, hlast, -⟩ := lastBlockAt_named hw.tokens (configName name)
  have hpassed : passedBlock config routes.routeMap visit uri = some out := by
    unfold passedBlock
    rw [hname]
    exact hout
  refine ⟨out, hpassed, ?_, hlast, ?_⟩
  · rw [createHandler_block hw.tokens, hpassed, Option.map_some]
  · obtain ⟨s, hs, hn⟩ := hl.named
    rw [← configName_eq_iff]
    constructor
    · rintro rfl
      -- the block has the name that was asked for and the one it was registered under
      obtain ⟨⟨t, ht, hnt⟩, hlater⟩ := hlast
      rw [hs] at ht
      cases ht
      have he : configName name = name := Option.some.inj (hnt.2.2.symm.trans hn.2.2)
      rw [he] at hlater
      exact ⟨he, hlater⟩
    · rintro ⟨he, hlater⟩
      rw [he] at hlast
      exact (hlast.eq_some_iff hs hn).2 hlater

end Registered

/-- One name for two blocks, and a name that has no clause. -/
def twoRoots : NginxConfig :=
  [.block [str "handler", str "static1"] [.line [str "location", str "/a"], .line [str "root", str "r"]],
   .block [str "handler", str "static1"] [.line [str "location", str "/b"], .line [str "root", str "s"]],
   .block [str "handler", str "files"] [.line [str "location", str "/c"], .line [str "root", str "t"]]]

theorem twoRoots_worded : Worded twoRoots := by simp [twoRoots]

def twoRootsRoutes : Routes :=
  ⟨[(str "/a", str "static1"), (str "/b", str "static1"), (str "/c", str "files")],
    [(str "/a", str "static1"), (str "/b", str "static1"), (str "/c", str "files")]⟩

theorem passedBlock_later :
    passedBlock twoRoots twoRootsRoutes.routeMap twoRootsRoutes.routeMap (str "/b/x.txt") = some (some 1) := by
  have hr : registerRoutesFromConfig twoRoots ⟨[], []⟩ = some twoRootsRoutes := rfl
  have hl : RegisteredFrom twoRoots (longestPrefixMatch twoRootsRoutes.routeMap (str "/b/x.txt")) 1 (str "static1") :=
    ⟨⟨_, rfl, by decide⟩, ⟨_, rfl, by decide⟩⟩
  obtain ⟨out, hout, -, -, hiff⟩ := passedBlock_spec twoRoots_worded hr hl
  rw [hout, hiff.2 ⟨.inl (by decide), ?_⟩]
  rintro later hlater s hs ⟨-, -, hname⟩
  rcases Nat.lt_or_ge 2 later with h | h
  · rw [List.getElem?_eq_none (show twoRoots.length ≤ later from h)] at hs
    cases hs
  · rw [show later = 2 by omega] at hs
    cases hs
    revert hname
    decide

/-- The first block of a name gives way to the second one, and a name without a clause to `default`. -/
theorem passedBlock_other :
    (registerRoutesFromConfig twoRoots ⟨[], []⟩ = some twoRootsRoutes) ∧
    RegisteredFrom twoRoots (longestPrefixMatch twoRootsRoutes.routeMap (str "/a/x.txt")) 0 (str "static1") ∧
    passedBlock twoRoots twoRootsRoutes.routeMap twoRootsRoutes.routeMap (str "/a/x.txt") = some (some 1) ∧
    RegisteredFrom twoRoots (longestPrefixMatch twoRootsRoutes.routeMap (str "/c/x.txt")) 2 (str "files") ∧
    passedBlock twoRoots twoRootsRoutes.routeMap twoRootsRoutes.routeMap (str "/c/x.txt") = some none := by
  refine ⟨rfl, ⟨⟨_, rfl, ?_⟩, ⟨_, rfl, ?_⟩⟩, ?_, ⟨⟨_, rfl, ?_⟩, ⟨_, rfl, ?_⟩⟩, ?_⟩
  all_goals decide

end GittyUp.Router
