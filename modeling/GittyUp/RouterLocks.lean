import GittyUp.Lib.Locks
import GittyUp.Routing
/-!
# The locks of the router

The public methods of `src/router.cc` as the locks that they take, called by any
number of threads. `get_route_handler` takes `config_lock_` inside
`route_map_lock_` and `register_routes_from_config` the other way round:
`no_deadlock_iff` says that there is a deadlock just when these two meet.
-/
open Lib (Str str)
open Lib.Locks GittyUp.Config GittyUp.Router

namespace GittyUp.RouterLocks

inductive RouterLock
  | routeMapLock
  | configLock
  | headerLock
  | logLock
deriving DecidableEq

open RouterLock

/-- What the locks protect, and what the registration has recorded. -/
structure Shared where
  routes : Routes
  headers : List (Str × Str)

abbrev RouterCode := Code RouterLock Shared

/-! ## The methods -/

def registerRoute (uri handlerName : Str) (k : RouterCode) : RouterCode :=
  .lock routeMapLock <| .act (fun s => { s with routes := Router.registerRoute s.routes uri handlerName }) fun _ =>
    .unlock routeMapLock k

/-- Every location that the config declares, in order. -/
def registerRoutesFromConfig (config : NginxConfig) (k : RouterCode) : RouterCode :=
  .lock configLock <| (declared config).foldr (fun e => registerRoute e.1 e.2) (.unlock configLock k)

def registerDefaultHeader (headerName headerValue : Str) (k : RouterCode) : RouterCode :=
  .lock headerLock <|
    .act (fun s => { s with headers := Handlers.registerDefaultHeader s.headers headerName headerValue }) fun _ =>
      .unlock headerLock k

/-- `get_header`, and `apply_default_headers`. -/
def readHeaders (k : RouterCode) : RouterCode := .lock headerLock (.unlock headerLock k)

def getHandlerConfig (k : RouterCode) : RouterCode := .lock configLock (.unlock configLock k)

/-- A URI that is not registered may be a proxy's. -/
def getRouteHandler (uri : Str) (k : RouterCode) : RouterCode :=
  .lock routeMapLock <| .act id fun s =>
    match s.routes.routeMap.lookup uri with
    | some _ => .unlock routeMapLock k
    | none => getHandlerConfig (.unlock routeMapLock k)

def longestPrefixMatch (visit : RouteMap → RouteMap) (uri : Str) (k : Str → RouterCode) : RouterCode :=
  .lock routeMapLock <| .act id fun s =>
    .unlock routeMapLock (k (Router.longestPrefixMatch (visit s.routes.routeMap) uri))

/-- Whatever the name of the handler, the config is searched for it. -/
def selectHandler (visit : RouteMap → RouteMap) (uri : Str) (k : RouterCode) : RouterCode :=
  longestPrefixMatch visit uri fun route => getRouteHandler route (getHandlerConfig k)

/-- `route_request`: `returns` tells whether the handler returns or throws. -/
def routeRequest (visit : RouteMap → RouteMap) (uri : Str) (returns : Bool) (k : RouterCode) : RouterCode :=
  selectHandler visit uri <|
    if returns then
      .lock logLock <| longestPrefixMatch visit uri fun route => getRouteHandler route <|
        .unlock logLock (readHeaders k)
    else k

/-- The public methods, with their arguments. -/
inductive Method
  | registerRoute (uri handlerName : Str)
  | registerRoutesFromConfig
  | registerDefaultHeader (headerName headerValue : Str)
  | getRouteHandler (uri : Str)
  | getHeader (name : Str)
  | routeRequest (visit : RouteMap → RouteMap) (uri : Str) (returns : Bool)

def Method.code (config : NginxConfig) : Method → RouterCode
  | registerRoute uri handlerName => RouterLocks.registerRoute uri handlerName .done
  | registerRoutesFromConfig => RouterLocks.registerRoutesFromConfig config .done
  | registerDefaultHeader headerName headerValue => RouterLocks.registerDefaultHeader headerName headerValue .done
  | getRouteHandler uri => RouterLocks.getRouteHandler uri .done
  | getHeader _ => readHeaders .done
  | routeRequest visit uri returns => RouterLocks.routeRequest visit uri returns .done

def methods (config : NginxConfig) (m : RouterCode) : Prop := ∃ method : Method, m = method.code config

abbrev RouterThread := Thread RouterLock Shared
abbrev RouterPool := Pool RouterLock Shared

/-! ## How the locks nest -/

inductive Nested : RouterLock → RouterLock → Prop
  | logRoute : Nested logLock routeMapLock
  | logConfig : Nested logLock configLock
  | routeConfig : Nested routeMapLock configLock
  | configRoute : Nested configLock routeMapLock

section Follows
variable {h : List RouterLock} {k : RouterCode}

theorem follows_done : Follows Nested [] (.done : RouterCode) := rfl

theorem follows_registerRoute (hh : ∀ m ∈ h, Nested m routeMapLock) (hk : Follows Nested h k) (uri handlerName : Str) :
    Follows Nested h (registerRoute uri handlerName k) := by
  refine ⟨hh, fun _ => ?_⟩
  unfold Follows
  rwa [List.erase_cons_head]

theorem follows_registerRoutesFromConfig (hk : Follows Nested [] k) (config : NginxConfig) :
    Follows Nested [] (registerRoutesFromConfig config k) := by
  refine ⟨by simp, ?_⟩
  induction declared config with
  | nil => exact hk
  | cons e locations ih =>
    refine follows_registerRoute (fun m hm => ?_) ih e.1 e.2
    rw [List.mem_singleton.1 hm]
    exact .configRoute

theorem follows_getHandlerConfig (hh : ∀ m ∈ h, Nested m configLock) (hk : Follows Nested h k) :
    Follows Nested h (getHandlerConfig k) := by
  refine ⟨hh, ?_⟩
  unfold Follows
  rwa [List.erase_cons_head]

theorem follows_getRouteHandler (hroute : ∀ m ∈ h, Nested m routeMapLock) (hconfig : ∀ m ∈ h, Nested m configLock)
    (hk : Follows Nested h k) (uri : Str) : Follows Nested h (getRouteHandler uri k) := by
  have hend : Follows Nested (routeMapLock :: h) (.unlock routeMapLock k) := by
    unfold Follows
    rwa [List.erase_cons_head]
  refine ⟨hroute, fun s => ?_⟩
  show Follows Nested _ (match s.routes.routeMap.lookup uri with
    | some _ => .unlock routeMapLock k
    | none => getHandlerConfig (.unlock routeMapLock k))
  split
  · exact hend
  · refine follows_getHandlerConfig (fun m hm => ?_) hend
    rcases List.mem_cons.1 hm with rfl | hm
    · exact .routeConfig
    · exact hconfig m hm

theorem follows_longestPrefixMatch (hh : ∀ m ∈ h, Nested m routeMapLock) {k : Str → RouterCode}
    (hk : ∀ route, Follows Nested h (k route)) (visit : RouteMap → RouteMap) (uri : Str) :
    Follows Nested h (longestPrefixMatch visit uri k) := by
  refine ⟨hh, fun s => ?_⟩
  unfold Follows
  rw [List.erase_cons_head]
  exact hk _

theorem follows_readHeaders (hk : Follows Nested [] k) : Follows Nested [] (readHeaders k) := ⟨by simp, hk⟩

theorem follows_routeRequest (hk : Follows Nested [] k) (visit : RouteMap → RouteMap) (uri : Str) (returns : Bool) :
    Follows Nested [] (routeRequest visit uri returns k) := by
  have hroute : ∀ m ∈ [logLock], Nested m routeMapLock := by
    intro m hm
    rw [List.mem_singleton.1 hm]
    exact .logRoute
  have hconfig : ∀ m ∈ [logLock], Nested m configLock := by
    intro m hm
    rw [List.mem_singleton.1 hm]
    exact .logConfig
  have hnone : ∀ l, ∀ m ∈ ([] : List RouterLock), Nested m l := fun _ _ => nofun
  unfold routeRequest selectHandler
  refine follows_longestPrefixMatch (hnone _) (fun route => ?_) visit uri
  refine follows_getRouteHandler (hnone _) (hnone _) (follows_getHandlerConfig (hnone _) ?_) route
  cases returns with
  | false => exact hk
  | true =>
    refine ⟨hnone _, follows_longestPrefixMatch hroute (fun route => ?_) visit uri⟩
    have hend : Follows Nested [logLock] (.unlock logLock (readHeaders k)) := follows_readHeaders hk
    exact follows_getRouteHandler hroute hconfig hend route

end Follows

theorem follows_methods (config : NginxConfig) : ∀ m, methods config m → Follows Nested [] m := by
  rintro m ⟨method, rfl⟩
  cases method with
  | registerRoute uri handlerName => exact follows_registerRoute (by simp) follows_done uri handlerName
  | registerRoutesFromConfig => exact follows_registerRoutesFromConfig follows_done config
  | registerDefaultHeader => exact ⟨by simp, fun _ => follows_done⟩
  | getRouteHandler uri => exact follows_getRouteHandler (by simp) (by simp) follows_done uri
  | getHeader => exact follows_readHeaders follows_done
  | routeRequest visit uri returns => exact follows_routeRequest follows_done visit uri returns

/-! ## The two methods that cross -/

/-- In `get_route_handler`, for a URI that is not registered: about to read the config. -/
def Unregistered (t : RouterThread) : Prop := routeMapLock ∈ t.held ∧ t.wants = some configLock

/-- In `register_routes_from_config`: about to register a route. -/
def Registering (t : RouterThread) : Prop := configLock ∈ t.held ∧ t.wants = some routeMapLock

/-- The step leads to neither place while another thread is at the other one. -/
def Apart (others : List RouterThread) (_ t' : RouterThread) : Prop :=
  (Unregistered t' → ∀ u ∈ others, ¬ Registering u) ∧ (Registering t' → ∀ u ∈ others, ¬ Unregistered u)

theorem not_both {t : RouterThread} (h : Unregistered t) : ¬ Registering t := by
  intro h'
  cases h.2.symm.trans h'.2

section Guarded
variable {config : NginxConfig} {n : ℕ} {s₀ : Shared} {p : RouterPool}

/-- One of the two places stays empty. -/
theorem apart_invariant (h : Reachable (methods config) Apart n s₀ p) :
    (∀ t ∈ p.threads, ¬ Unregistered t) ∨ ∀ t ∈ p.threads, ¬ Registering t := by
  induction h with
  | init =>
    refine .inl fun t ht => ?_
    rw [List.eq_of_mem_replicate ht]
    rintro ⟨hm, -⟩
    cases hm
  | step _ hs ih =>
    cases hs with
    | @move s ts t ts' s' t' _ hapart =>
      -- the others are where they were, so only the thread that moves matters
      simp only [List.mem_append, List.mem_cons] at ih ⊢
      have hothers : ∀ {P : RouterThread → Prop}, P t' → (∀ u ∈ ts ++ ts', P u) → ∀ u, u ∈ ts ∨ u = t' ∨ u ∈ ts' → P u := by
        intro P ht' ho u hu
        rcases hu with hu | rfl | hu
        · exact ho u (List.mem_append_left _ hu)
        · exact ht'
        · exact ho u (List.mem_append_right _ hu)
      have hbefore : ∀ {P : RouterThread → Prop}, (∀ u, u ∈ ts ∨ u = t ∨ u ∈ ts' → P u) → ∀ u ∈ ts ++ ts', P u := by
        intro P hP u hu
        rcases List.mem_append.1 hu with hu | hu
        · exact hP u (.inl hu)
        · exact hP u (.inr (.inr hu))
      by_cases hu : Unregistered t'
      · exact .inr (hothers (not_both hu) (hapart.1 hu))
      · by_cases hr : Registering t'
        · exact .inl (hothers hu (hapart.2 hr))
        · exact ih.imp (fun ih => hothers hu (hbefore ih)) fun ih => hothers hr (hbefore ih)

/-- A ranking by which nothing crosses, in a pool where one of the two places is empty. -/
theorem no_deadlock_of_apart (hf : ∀ t ∈ p.threads, Follows Nested t.held t.code)
    (h : (∀ t ∈ p.threads, ¬ Unregistered t) ∨ ∀ t ∈ p.threads, ¬ Registering t) : ¬ Deadlock p := by
  rcases h with h | h
  · -- nobody asks for the config inside the route map
    refine no_deadlock_of_rank (fun | logLock => 0 | configLock => 1 | routeMapLock => 2 | headerLock => 0) ?_
    intro t ht l hl m hm
    cases (hf t ht).wants hl m hm with
    | routeConfig => exact absurd ⟨hm, hl⟩ (h t ht)
    | logRoute | logConfig | configRoute => decide
  · -- nobody asks for the route map inside the config
    refine no_deadlock_of_rank (fun | logLock => 0 | routeMapLock => 1 | configLock => 2 | headerLock => 0) ?_
    intro t ht l hl m hm
    cases (hf t ht).wants hl m hm with
    | configRoute => exact absurd ⟨hm, hl⟩ (h t ht)
    | logRoute | logConfig | routeConfig => decide

theorem deadlock_of_crossing {s : Shared} {ts ts' : List RouterThread} {t u : RouterThread} (hu : u ∈ ts ++ ts')
    (h : Unregistered t ∧ Registering u ∨ Registering t ∧ Unregistered u) : Deadlock ⟨s, ts ++ t :: ts'⟩ := by
  have ht : (ts ++ t :: ts')[ts.length]? = some t := by simp
  obtain ⟨j, hj⟩ : ∃ j, (ts ++ t :: ts')[j]? = some u := by
    refine List.mem_iff_getElem?.1 ?_
    rcases List.mem_append.1 hu with hu | hu
    · exact List.mem_append_left _ hu
    · exact List.mem_append_right _ (List.mem_cons_of_mem _ hu)
  rcases h with ⟨ht', hu'⟩ | ⟨ht', hu'⟩
  · exact deadlock_of_pair ht hj ht'.2 hu'.1 hu'.2 ht'.1
  · exact deadlock_of_pair ht hj ht'.2 hu'.1 hu'.2 ht'.1

/-- As long as no thread asks for the config in `get_route_handler` while another
registers routes from it, there is no deadlock; and a step by which they meet
leads to one. -/
theorem no_deadlock_iff (h : Reachable (methods config) Apart n s₀ p) :
    ¬ Deadlock p ∧ ∀ s ts t ts' s' t', p = ⟨s, ts ++ t :: ts'⟩ → Move (methods config) (ts ++ ts') s t s' t' →
      (¬ Deadlock ⟨s', ts ++ t' :: ts'⟩ ↔ Apart (ts ++ ts') t t') := by
  have safe : ∀ {p : RouterPool}, Reachable (methods config) Apart n s₀ p → ¬ Deadlock p := fun h =>
    no_deadlock_of_apart (h.follows (follows_methods config)) (apart_invariant h)
  refine ⟨safe h, ?_⟩
  rintro s ts t ts' s' t' rfl hm
  refine ⟨fun hd => ⟨fun ht u hu hu' => ?_, fun ht u hu hu' => ?_⟩, fun ha => safe (h.step (.move hm ha))⟩
  · exact hd (deadlock_of_crossing hu (.inl ⟨ht, hu'⟩))
  · exact hd (deadlock_of_crossing hu (.inr ⟨ht, hu'⟩))

end Guarded

/-! ## Two threads -/

def oneRoute : NginxConfig := [.block [str "handler", str "echo"] [.line [str "location", str "/a"]]]

def unrouted : Shared := ⟨⟨[], []⟩, []⟩

/-- A thread in `get_route_handler`, for a URI that is not registered. -/
def asking : RouterThread := ⟨[routeMapLock], getHandlerConfig (.unlock routeMapLock .done)⟩

/-- A thread in `register_routes_from_config`. -/
def registering : RouterThread := ⟨[configLock], registerRoute "/a" "echo" (.unlock configLock .done)⟩

theorem reachable_asking {guard : List RouterThread → RouterThread → RouterThread → Prop}
    (hg : ∀ t t', guard [idle] t t') : Reachable (methods oneRoute) guard 2 unrouted ⟨unrouted, [asking, idle]⟩ := by
  -- it calls, takes the lock of the route map, and does not find the URI
  have h₀ : Reachable (methods oneRoute) guard 2 unrouted ⟨unrouted, [idle, idle]⟩ := .init
  have h₁ := h₀.first (.call ⟨.getRouteHandler "/x", rfl⟩) (hg _ _)
  have h₂ := h₁.first (.lock (by simp) (by simp [idle])) (hg _ _)
  exact h₂.first .act (hg _ _)

theorem no_deadlock_asking : ¬ Deadlock (⟨unrouted, [asking, idle]⟩ : RouterPool) := by
  have hapart : ∀ t t', Apart [idle] t t' := by
    refine fun t t' => ⟨fun _ u hu hr => ?_, fun _ u hu hr => ?_⟩
    · rw [List.mem_singleton.1 hu] at hr
      exact List.not_mem_nil hr.1
    · rw [List.mem_singleton.1 hu] at hr
      exact List.not_mem_nil hr.1
  exact (no_deadlock_iff (reachable_asking hapart)).1

/-- A registration beside it, and neither thread can go on. -/
theorem deadlock_reachable : ∃ p, Reachable (methods oneRoute) (fun _ _ _ => True) 2 unrouted p ∧ Deadlock p := by
  have h₀ : Reachable (methods oneRoute) (fun _ _ _ => True) 2 unrouted ⟨unrouted, [asking, idle]⟩ :=
    reachable_asking fun _ _ => trivial
  have h₁ := h₀.second (.call ⟨.registerRoutesFromConfig, rfl⟩) trivial
  have h₂ := h₁.second (.lock (by simp) (by simp [asking])) trivial
  have h₃ : Reachable (methods oneRoute) (fun _ _ _ => True) 2 unrouted ⟨unrouted, [asking, registering]⟩ := h₂
  refine ⟨_, h₃, deadlock_of_pair (i := 0) (j := 1) rfl rfl rfl ?_ rfl ?_⟩
  · exact List.mem_cons_self
  · exact List.mem_cons_self

end GittyUp.RouterLocks
