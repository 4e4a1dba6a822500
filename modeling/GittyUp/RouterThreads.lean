import GittyUp.Lib.Monitor
import GittyUp.Prefixes
import GittyUp.Routing
/-!
# The router in many threads

The methods of `src/router.cc`, instruction by instruction: a registration looks
the URI up, tells the recorder and then inserts it, and a scan reads the route
map entry by entry, while other threads register. `route_map_lock_` makes this
look as if each were done at once.
-/
open Lib (Str str)
open Lib.Locks GittyUp.Config GittyUp.Router

namespace GittyUp.RouterThreads

/-- The mutexes of the router and those of the recorder. -/
inductive Mutex
  | routeMapLock
  | configLock
  | headerLock
  | logLock
  | responseListLock
  | prefixListLock
deriving DecidableEq

open Mutex

/-- What a call of `select_handler` has come to, with the URIs whose registration had
returned when it began. -/
structure Selection where
  uri : Str
  begun : List Str
  handler : Option Str

/-- What the threads share, and what they have got: the URIs whose registration
has returned, and the selections. -/
structure Shared where
  routes : Routes
  headers : List (Str × Str)
  urlResponseList : List (Str × Nat)
  registered : List Str
  selected : List Selection

abbrev RouterCode := Code Mutex Shared

def read (k : Shared → RouterCode) : RouterCode := .act id k

def write (f : Shared → Shared) (k : RouterCode) : RouterCode := .act f fun _ => k

/-! ## The methods -/

def prefixRecorder (prefixHandlerPair : Str × Str) (k : RouterCode) : RouterCode :=
  .lock prefixListLock <|
    write (fun s => { s with routes.prefixHandlerList := s.routes.prefixHandlerList ++ [prefixHandlerPair] }) <|
      .unlock prefixListLock k

def requestRecorder (url : Str) (responseCode : Nat) (k : RouterCode) : RouterCode :=
  .lock responseListLock <|
    write (fun s => { s with urlResponseList := s.urlResponseList ++ [(url, responseCode)] }) <|
      .unlock responseListLock k

/-- `route_map_.insert`. -/
def insertRoute (uri handlerName : Str) (s : Shared) : Shared :=
  { s with routes.routeMap := Lib.bindNew s.routes.routeMap uri handlerName }

/-- Behind `return true`. -/
def returned (uri : Str) (k : RouterCode) : RouterCode :=
  write (fun s => { s with registered := s.registered ++ [uri] }) k

def registerRoute (uri handlerName : Str) (k : RouterCode) : RouterCode :=
  .lock routeMapLock <| read fun s =>
    match s.routes.routeMap.lookup uri with
    | some _ => .unlock routeMapLock (returned uri k)
    | none => prefixRecorder (uri, handlerName) <| write (insertRoute uri handlerName) <|
        .unlock routeMapLock (returned uri k)

/-- Every location that the config declares, in order. -/
def registerRoutesFromConfig (config : NginxConfig) (k : RouterCode) : RouterCode :=
  .lock configLock <| (declared config).foldr (fun e => registerRoute e.1 e.2) (.unlock configLock k)

def registerDefaultHeader (headerName headerValue : Str) (k : RouterCode) : RouterCode :=
  .lock headerLock <|
    write (fun s => { s with headers := Handlers.registerDefaultHeader s.headers headerName headerValue }) <|
      .unlock headerLock k

/-- `get_header`, and `apply_default_headers`. -/
def readHeaders (k : RouterCode) : RouterCode := .lock headerLock <| read fun _ => .unlock headerLock k

def getHandlerConfig (k : RouterCode) : RouterCode := .lock configLock <| .unlock configLock k

/-- An order in which an unordered map is visited. -/
structure Visit where
  order : RouteMap → RouteMap
  perm : ∀ routeMap, (order routeMap).Perm routeMap

/-- The rest of a scan, `n` entries from the `i`-th on. Past the end there is nothing to go on with. -/
def scan (visit : Visit) (uri : Str) : Nat → Nat → Str → (Str → RouterCode) → RouterCode
  | 0, _, longest, k => k longest
  | n + 1, i, longest, k => read fun s =>
    match (visit.order s.routes.routeMap)[i]? with
    | some mapping => scan visit uri n (i + 1) (matchStep uri longest mapping) k
    | none => .done

def longestPrefixMatch (visit : Visit) (uri : Str) (k : Str → RouterCode) : RouterCode :=
  .lock routeMapLock <| read fun s =>
    scan visit uri (visit.order s.routes.routeMap).length 0 [] fun longest => .unlock routeMapLock (k longest)

/-- A URI that is not registered may be a proxy's. -/
def getRouteHandler (config : NginxConfig) (uri : Str) (k : Option Str → RouterCode) : RouterCode :=
  .lock routeMapLock <| read fun s =>
    match s.routes.routeMap.lookup uri with
    | some handlerName => .unlock routeMapLock (k (some handlerName))
    | none => getHandlerConfig <| .unlock routeMapLock (k (Router.getRouteHandler config [] uri))

/-- Whatever the name of the handler, the config is searched for it. -/
def selectHandler (config : NginxConfig) (visit : Visit) (uri : Str) (k : RouterCode) : RouterCode :=
  read fun begun => longestPrefixMatch visit uri fun route => getRouteHandler config route fun handler =>
    write (fun s => { s with selected := s.selected ++ [⟨uri, begun.registered, handler⟩] }) <| getHandlerConfig k

/-- `route_request`: the handler returns with a status code or throws. -/
def routeRequest (config : NginxConfig) (visit : Visit) (uri : Str) (statusCode : Option Nat) (k : RouterCode) :
    RouterCode :=
  selectHandler config visit uri <|
    match statusCode with
    | none => k
    | some code => requestRecorder uri code <| .lock logLock <| longestPrefixMatch visit uri fun route =>
        getRouteHandler config route fun _ => .unlock logLock (readHeaders k)

/-- The public methods, with their arguments. -/
inductive Method
  | registerRoute (uri handlerName : Str)
  | registerRoutesFromConfig
  | registerDefaultHeader (headerName headerValue : Str)
  | getRouteHandler (uri : Str)
  | getHeader (name : Str)
  | routeRequest (visit : Visit) (uri : Str) (statusCode : Option Nat)

def Method.code (config : NginxConfig) : Method → RouterCode
  | registerRoute uri handlerName => RouterThreads.registerRoute uri handlerName .done
  | registerRoutesFromConfig => RouterThreads.registerRoutesFromConfig config .done
  | registerDefaultHeader headerName headerValue => RouterThreads.registerDefaultHeader headerName headerValue .done
  | getRouteHandler uri => RouterThreads.getRouteHandler config uri fun _ => .done
  | getHeader _ => readHeaders .done
  | routeRequest visit uri statusCode => RouterThreads.routeRequest config visit uri statusCode .done

/-- The code of the calls that are made. -/
def methods (config : NginxConfig) (called : Method → Prop) (c : RouterCode) : Prop :=
  ∃ method, called method ∧ c = method.code config

/-- The routes that a call registers. -/
def Method.registers (config : NginxConfig) : Method → List (Str × Str)
  | registerRoute uri handlerName => [(uri, handlerName)]
  | registerRoutesFromConfig => declared config
  | _ => []

/-! ## The routes as they are registered -/

/-- The routes before, and behind some registrations. -/
instance : Preorder Routes where
  le r r' := ∃ l, r' = r.addAll l
  le_refl r := ⟨[], rfl⟩
  le_trans := by
    rintro r _ _ ⟨l, rfl⟩ ⟨l', rfl⟩
    exact ⟨l ++ l', (addAll_append r l l').symm⟩

def noRoutes : Routes := ⟨[], []⟩

section Registered
variable {config : NginxConfig} {r r' : Routes} {uri : Str}

theorem lookup_le (h : r ≤ r') (hr : (r.routeMap.lookup uri).isSome) : r'.routeMap.lookup uri = r.routeMap.lookup uri := by
  obtain ⟨l, rfl⟩ := h
  rw [addAll_routeMap, Lib.lookup_bindAll, Option.or_of_isSome hr]

/-- In whatever order the routes are visited, the scan finds the same. -/
theorem longestPrefixMatch_perm {visit visit' : RouteMap} (hp : visit.Perm visit') (uri : Str) :
    Router.longestPrefixMatch visit uri = Router.longestPrefixMatch visit' uri := by
  have hkeys : ∀ l, l ∈ visit.map Prod.fst ↔ l ∈ visit'.map Prod.fst := fun l => (hp.map Prod.fst).mem_iff
  rw [longestPrefixMatch_eq, longestPrefixMatch_eq]
  rcases Lib.scan_longest uri (visit.map Prod.fst) with h | ⟨h, hn⟩
  · rcases Lib.scan_longest uri (visit'.map Prod.fst) with h' | ⟨-, hn'⟩
    · exact (h.congr hkeys).unique h'
    · exact absurd h.isPre (hn' _ ((hkeys _).1 h.mem))
  · rcases Lib.scan_longest uri (visit'.map Prod.fst) with h' | ⟨h', -⟩
    · exact absurd h'.isPre (hn _ ((hkeys _).2 h'.mem))
    · rw [h, h']

/-- What `select_handler` comes to with these routes. -/
def dispatched (config : NginxConfig) (r : Routes) (uri : Str) : Option Str :=
  dispatchName config r.routeMap r.routeMap uri

/-- Routes that some of the calls have registered, one after the other. -/
def Made (config : NginxConfig) (called : Method → Prop) (r : Routes) : Prop :=
  ∃ l, (∀ e ∈ l, ∃ method, called method ∧ e ∈ method.registers config) ∧ r = noRoutes.addAll l

/-- The name is that of some time between the beginning of the call and `r`: of the
routes that the scan has met, those registered at the beginning among them; or no
location matched then, and the empty one was registered behind. -/
def Timely (config : NginxConfig) (called : Method → Prop) (r : Routes) (e : Selection) : Prop :=
  ∃ r₁, Made config called r₁ ∧ (∀ uri ∈ e.begun, (r₁.routeMap.lookup uri).isSome) ∧ r₁ ≤ r ∧
    (e.handler = dispatched config r₁ e.uri ∨
      (∀ l ∈ r₁.routeMap.map Prod.fst, ¬ l <+: e.uri) ∧ ∃ r₂, r₁ ≤ r₂ ∧ r₂ ≤ r ∧ e.handler.isSome ∧
        e.handler = r₂.routeMap.lookup [])

theorem Timely.mono {called : Method → Prop} {e : Selection} (h : Timely config called r e) (hr : r ≤ r') :
    Timely config called r' e := by
  obtain ⟨r₁, h₀, hbegun, h₁, hd⟩ := h
  exact ⟨r₁, h₀, hbegun, h₁.trans hr, hd.imp_right fun ⟨hn, r₂, h₁₂, h₂, hs⟩ => ⟨hn, r₂, h₁₂, h₂.trans hr, hs⟩⟩

end Registered

/-! ## The route map lock -/

/-- It protects the routes. URIs that are registered stay, and every name that was
selected was timely. -/
def routeMonitor (config : NginxConfig) (called : Method → Prop) : Monitor Mutex Shared Routes where
  lock := routeMapLock
  part := Shared.routes
  stable := Made config called
  inv s r := (∀ uri ∈ s.registered, (r.routeMap.lookup uri).isSome) ∧
    ∀ e ∈ s.selected, Timely config called r e
  inv_mono := by
    rintro s u v huv ⟨hregistered, hselected⟩
    refine ⟨fun uri hu => ?_, fun e he => (hselected e he).mono huv⟩
    rw [lookup_le huv (hregistered uri hu)]
    exact hregistered uri hu

section Keeping
variable {config : NginxConfig} {called : Method → Prop} {r : Routes} {now : Option Routes} {k : RouterCode}

/-- Code that keeps to the monitor from `r` on. -/
def KeepsOn (config : NginxConfig) (called : Method → Prop) (r : Routes) (k : RouterCode) : Prop :=
  ∀ r', Made config called r' → r ≤ r' → (routeMonitor config called).Keeps k r' none

theorem KeepsOn.mono {r' : Routes} (h : KeepsOn config called r k) (hr : r ≤ r') : KeepsOn config called r' k :=
  fun _ h₀ h' => h _ h₀ (hr.trans h')

/-! Other locks protect nothing of the monitor's. -/

theorem keeps_other_lock {l : Mutex} (hl : l ≠ routeMapLock) (hk : (routeMonitor config called).Keeps k r now) :
    (routeMonitor config called).Keeps (.lock l k) r now :=
  Monitor.keeps_lock_other (m := routeMonitor config called) hl hk

theorem keeps_other_unlock {l : Mutex} (hl : l ≠ routeMapLock) (hk : (routeMonitor config called).Keeps k r now) :
    (routeMonitor config called).Keeps (.unlock l k) r now :=
  Monitor.keeps_unlock_other (m := routeMonitor config called) hl hk

theorem keeps_write {f : Shared → Shared} (hf : ∀ s, (f s).routes = s.routes)
    (hinv : ∀ s u, r ≤ u → (routeMonitor config called).inv s u → (routeMonitor config called).inv (f s) u)
    (hk : (routeMonitor config called).Keeps k r none) : (routeMonitor config called).Keeps (write f k) r none :=
  fun s u hu _ h => ⟨hf s, hinv s u hu h, hk.mono hu⟩

theorem keeps_requestRecorder (url : Str) (responseCode : Nat) (hk : (routeMonitor config called).Keeps k r none) :
    (routeMonitor config called).Keeps (requestRecorder url responseCode k) r none :=
  keeps_other_lock (by decide) (keeps_write (fun _ => rfl) (fun _ _ _ h => h)
    (keeps_other_unlock (by decide) hk))

theorem keeps_registerDefaultHeader (headerName headerValue : Str) (hk : (routeMonitor config called).Keeps k r none) :
    (routeMonitor config called).Keeps (registerDefaultHeader headerName headerValue k) r none :=
  keeps_other_lock (by decide) (keeps_write (fun _ => rfl) (fun _ _ _ h => h)
    (keeps_other_unlock (by decide) hk))

theorem keeps_readHeaders (hk : (routeMonitor config called).Keeps k r none) :
    (routeMonitor config called).Keeps (readHeaders k) r none :=
  keeps_other_lock (by decide) (keeps_write (fun _ => rfl) (fun _ _ _ h => h)
    (keeps_other_unlock (by decide) hk))

theorem keeps_getHandlerConfig (hk : (routeMonitor config called).Keeps k r now) :
    (routeMonitor config called).Keeps (getHandlerConfig k) r now :=
  keeps_other_lock (by decide) (keeps_other_unlock (by decide) hk)

/-! Sections of the lock. -/

/-- A section begins with a look at the routes. -/
theorem keeps_section {body : Shared → RouterCode}
    (h : ∀ u, Made config called u → r ≤ u → ∀ s : Shared, s.routes = u →
      (routeMonitor config called).Keeps (body s) u (some u)) :
    KeepsOn config called r (.lock routeMapLock (read body)) := by
  intro r' _ hr
  refine Monitor.keeps_enter (m := routeMonitor config called) fun u hu h₀ s hs hinv => ⟨hinv, ?_⟩
  show (routeMonitor config called).Keeps (body s) u (some s.routes)
  rw [show s.routes = u from hs]
  exact h u h₀ (hr.trans hu) s hs

/-- A section ends, and the routes have grown. -/
theorem keeps_leave {u v : Routes} (h₀ : Made config called v) (hu : u ≤ v) (hk : KeepsOn config called v k) :
    (routeMonitor config called).Keeps (.unlock routeMapLock k) u (some v) :=
  Monitor.keeps_leave (m := routeMonitor config called) h₀ hu (hk v h₀ le_rfl)

theorem keeps_returned {uri : Str} (hr : (r.routeMap.lookup uri).isSome) (hk : KeepsOn config called r k) :
    KeepsOn config called r (returned uri k) := by
  intro r' h₀ hr'
  refine keeps_write (fun _ => rfl) (fun s u hu hinv => ⟨fun uri' hmem => ?_, hinv.2⟩) (hk r' h₀ hr')
  rcases List.mem_append.1 hmem with hmem | hmem
  · exact hinv.1 uri' hmem
  · rw [List.mem_singleton.1 hmem, lookup_le (hr'.trans hu) hr]
    exact hr

/-- Between the recorder and the route map the two differ, but nobody sees it. -/
theorem keeps_registerRoute {uri handlerName : Str} (hcalled : ∃ method, called method ∧
    (uri, handlerName) ∈ method.registers config) (hk : KeepsOn config called r k) :
    KeepsOn config called r (registerRoute uri handlerName k) := by
  refine keeps_section fun u h₀ hr s hs => ?_
  rw [hs]
  cases hl : u.routeMap.lookup uri with
  | some handler => exact keeps_leave h₀ le_rfl (keeps_returned (by rw [hl]; rfl) (hk.mono hr))
  | none =>
    have hstep : u ≤ Router.registerRoute u uri handlerName := ⟨[(uri, handlerName)], rfl⟩
    have hmade : Made config called (Router.registerRoute u uri handlerName) := by
      obtain ⟨l, hmade, rfl⟩ := h₀
      refine ⟨l ++ [(uri, handlerName)], fun e he => ?_, by rw [addAll_append]; rfl⟩
      rcases List.mem_append.1 he with he | he
      · exact hmade e he
      · rw [List.mem_singleton.1 he]
        exact hcalled
    have hnew : Lib.bindNew u.routeMap uri handlerName = u.routeMap ++ [(uri, handlerName)] := by rw [Lib.bindNew, hl]
    have hroutes : Router.registerRoute u uri handlerName =
        ⟨Lib.bindNew u.routeMap uri handlerName, u.prefixHandlerList ++ [(uri, handlerName)]⟩ := by
      rw [Router.registerRoute, hl, hnew]
    have hisSome : ((Router.registerRoute u uri handlerName).routeMap.lookup uri).isSome := by
      rw [hroutes, Lib.lookup_bindNew]
      simp
    have hleave := keeps_leave hmade hstep (keeps_returned hisSome (hk.mono (hr.trans hstep)))
    refine keeps_other_lock (by decide) fun s₁ hs₁ hinv₁ => ⟨hinv₁, ?_⟩
    refine keeps_other_unlock (by decide) fun s₂ hs₂ hinv₂ => ⟨hinv₂, ?_⟩
    have hs₁ : s₁.routes = u := hs₁
    have hs₂ : s₂.routes = { s₁.routes with
      prefixHandlerList := s₁.routes.prefixHandlerList ++ [(uri, handlerName)] } := hs₂
    show (routeMonitor config called).Keeps _ u (some { s₂.routes with
      routeMap := Lib.bindNew s₂.routes.routeMap uri handlerName })
    rw [hs₂, hs₁]
    rw [hroutes] at hleave
    exact hleave

theorem keeps_registerRoutesFromConfig (hcalled : called .registerRoutesFromConfig) (hk : KeepsOn config called r k) :
    KeepsOn config called r (registerRoutesFromConfig config k) := by
  have hlist : ∀ l : List (Str × Str), (∀ e ∈ l, e ∈ declared config) →
      KeepsOn config called r (l.foldr (fun e => registerRoute e.1 e.2) (.unlock configLock k)) := by
    intro l hl
    induction l with
    | nil => exact fun r' h₀ hr => keeps_other_unlock (by decide) (hk r' h₀ hr)
    | cons e l ih =>
      exact keeps_registerRoute ⟨_, hcalled, hl e List.mem_cons_self⟩ (ih fun e he => hl e (List.mem_cons_of_mem _ he))
  exact fun r' h₀ hr => keeps_other_lock (by decide) (hlist _ (fun _ => id) r' h₀ hr)

/-- The scan reads the routes of one moment, entry by entry. -/
theorem keeps_scan (visit : Visit) (uri : Str) {u : Routes} {k : Str → RouterCode} (n : Nat) {i : Nat} {longest : Str}
    (hn : i + n = (visit.order u.routeMap).length)
    (hk : (routeMonitor config called).Keeps (k (((visit.order u.routeMap).drop i).foldl (matchStep uri) longest)) u
      (some u)) : (routeMonitor config called).Keeps (scan visit uri n i longest k) u (some u) := by
  induction n generalizing i longest with
  | zero =>
    rw [List.drop_of_length_le (by omega)] at hk
    exact hk
  | succ n ih =>
    intro s hs hinv
    refine ⟨hinv, ?_⟩
    have hs : s.routes = u := hs
    have hi : i < (visit.order u.routeMap).length := by omega
    show (routeMonitor config called).Keeps (match (visit.order s.routes.routeMap)[i]? with
      | some mapping => scan visit uri n (i + 1) (matchStep uri longest mapping) k
      | none => .done) u (some s.routes)
    rw [hs, List.getElem?_eq_getElem hi]
    refine ih (by omega) ?_
    rwa [List.drop_eq_getElem_cons hi, List.foldl_cons] at hk

theorem keeps_longestPrefixMatch (visit : Visit) (uri : Str) {k : Str → RouterCode}
    (hk : ∀ u, Made config called u → r ≤ u → KeepsOn config called u (k (Router.longestPrefixMatch u.routeMap uri))) :
    KeepsOn config called r (longestPrefixMatch visit uri k) := by
  refine keeps_section fun u h₀ hr s hs => ?_
  rw [hs]
  refine keeps_scan visit uri _ (Nat.zero_add _) ?_
  rw [List.drop_zero]
  have hperm := longestPrefixMatch_perm (visit.perm u.routeMap) uri
  rw [Router.longestPrefixMatch] at hperm
  rw [hperm]
  exact keeps_leave h₀ le_rfl (hk u h₀ hr)

theorem keeps_getRouteHandler (uri : Str) {k : Option Str → RouterCode}
    (hk : ∀ u, Made config called u → r ≤ u →
      KeepsOn config called u (k (Router.getRouteHandler config u.routeMap uri))) :
    KeepsOn config called r (getRouteHandler config uri k) := by
  refine keeps_section fun u h₀ hr s hs => ?_
  have hleave := keeps_leave h₀ (le_refl u) (hk u h₀ hr)
  rw [hs]
  cases hl : u.routeMap.lookup uri with
  | some handler =>
    rw [Router.getRouteHandler, hl] at hleave
    exact hleave
  | none =>
    rw [Router.getRouteHandler, hl] at hleave
    exact keeps_getHandlerConfig hleave

/-- A name that was looked up behind the scan. -/
theorem timely_lookup {u u' : Routes} {begun : List Str} (h₀ : Made config called u)
    (hbegun : ∀ uri ∈ begun, (u.routeMap.lookup uri).isSome) (hu : u ≤ u') (uri : Str) : Timely config called u'
    ⟨uri, begun, Router.getRouteHandler config u'.routeMap (Router.longestPrefixMatch u.routeMap uri)⟩ := by
  refine ⟨u, h₀, hbegun, hu, ?_⟩
  dsimp only
  have hsame : u'.routeMap.lookup (Router.longestPrefixMatch u.routeMap uri) =
      u.routeMap.lookup (Router.longestPrefixMatch u.routeMap uri) →
      Router.getRouteHandler config u'.routeMap (Router.longestPrefixMatch u.routeMap uri) = dispatched config u uri := by
    intro h
    unfold dispatched dispatchName Router.getRouteHandler
    rw [h]
  rw [longestPrefixMatch_eq] at hsame ⊢
  rcases Lib.scan_longest uri (u.routeMap.map Prod.fst) with hlongest | ⟨hempty, hn⟩
  · exact .inl (hsame (lookup_le hu ((Lib.lookup_isSome_iff _ _).2 hlongest.mem)))
  · rw [hempty] at hsame ⊢
    have hnone : u.routeMap.lookup [] = none := by
      rw [← Option.not_isSome_iff_eq_none, Lib.lookup_isSome_iff]
      exact fun hmem => hn [] hmem List.nil_prefix
    cases hl : u'.routeMap.lookup [] with
    | none => exact .inl (hsame (hl.trans hnone.symm))
    | some handler =>
      refine .inr ⟨hn, u', hu, le_rfl, ?_⟩
      rw [Router.getRouteHandler, hl]
      exact ⟨rfl, rfl⟩

theorem keeps_selectHandler (visit : Visit) (uri : Str) (hk : KeepsOn config called r k) :
    KeepsOn config called r (selectHandler config visit uri k) := by
  intro r' h₀ hr s begun hr' hbegun hinv
  refine ⟨rfl, hinv, ?_⟩
  refine keeps_longestPrefixMatch (r := begun) visit uri (fun u h₁ hu => ?_) begun hbegun le_rfl
  -- what was registered at the beginning is there when the scan begins
  have hthere : ∀ uri ∈ s.registered, (u.routeMap.lookup uri).isSome := by
    intro uri hmem
    rw [lookup_le hu (hinv.1 uri hmem)]
    exact hinv.1 uri hmem
  refine keeps_getRouteHandler _ fun u' _ hu' r'' h₂ hr'' => ?_
  have hle : r ≤ r'' := hr.trans (hr'.trans (hu.trans (hu'.trans hr'')))
  refine keeps_write (fun _ => rfl) (fun s' v hv hinv' => ⟨hinv'.1, fun e he => ?_⟩) (keeps_getHandlerConfig (hk r'' h₂ hle))
  rcases List.mem_append.1 he with he | he
  · exact hinv'.2 e he
  · rw [List.mem_singleton.1 he]
    exact (timely_lookup h₁ hthere hu' uri).mono (hr''.trans hv)

theorem keeps_routeRequest (visit : Visit) (uri : Str) (statusCode : Option Nat) (hk : KeepsOn config called r k) :
    KeepsOn config called r (routeRequest config visit uri statusCode k) := by
  refine keeps_selectHandler visit uri ?_
  cases statusCode with
  | none => exact hk
  | some code =>
    intro r' h₀ hr
    refine keeps_requestRecorder uri code (keeps_other_lock (by decide) ?_)
    refine keeps_longestPrefixMatch (r := r') visit uri (fun u _ hu => ?_) r' h₀ le_rfl
    refine keeps_getRouteHandler _ fun u' _ hu' r'' h₀'' hr'' => ?_
    exact keeps_other_unlock (by decide) (keeps_readHeaders (hk r'' h₀'' (hr.trans (hu.trans (hu'.trans hr'')))))

/-- Every method that is called keeps to the monitor. -/
theorem keeps_method {method : Method} (hcalled : called method) : KeepsOn config called r (method.code config) := by
  have hdone : ∀ {r}, KeepsOn config called r .done := fun _ _ _ => rfl
  cases method with
  | registerRoute uri handlerName =>
    exact keeps_registerRoute ⟨_, hcalled, List.mem_singleton_self _⟩ hdone
  | registerRoutesFromConfig => exact keeps_registerRoutesFromConfig hcalled hdone
  | registerDefaultHeader headerName headerValue =>
    exact fun _ _ _ => keeps_registerDefaultHeader headerName headerValue rfl
  | getRouteHandler uri => exact keeps_getRouteHandler (k := fun _ => .done) uri fun _ _ _ => hdone
  | getHeader name => exact fun _ _ _ => keeps_readHeaders rfl
  | routeRequest visit uri statusCode => exact keeps_routeRequest visit uri statusCode hdone

end Keeping

/-! ## Every run -/

/-- Any number of threads make any of these calls, in any interleaving of their
instructions. Whenever no thread holds the lock, the routes are those of some of
the registrations made one after the other, as the recorder has them, and each
that has returned is among them; and every name that was selected was timely. -/
theorem routes_serial (config : NginxConfig) (called : Method → Prop)
    {guard : List (Thread Mutex Shared) → Thread Mutex Shared → Thread Mutex Shared → Prop} {n : ℕ} {p : Pool Mutex Shared}
    (h : Reachable (methods config called) guard n ⟨noRoutes, [], [], [], []⟩ p) :
    ∃ l, (∀ e ∈ l, ∃ method, called method ∧ e ∈ method.registers config) ∧
      ((∀ t ∈ p.threads, routeMapLock ∉ t.held) → p.shared.routes = noRoutes.addAll l ∧ Mirrored l p.shared.routes) ∧
      (∀ uri ∈ p.shared.registered, uri ∈ l.map Prod.fst) ∧
      ∀ e ∈ p.shared.selected, Timely config called (noRoutes.addAll l) e := by
  have hkeeps : ∀ c, methods config called c → ∀ v, Made config called v →
      (routeMonitor config called).Keeps c v none := by
    rintro _ ⟨method, hcalled, rfl⟩ v hv
    exact keeps_method hcalled v hv le_rfl
  have hstable : Made config called noRoutes := ⟨[], nofun, rfl⟩
  have hinv : (routeMonitor config called).inv ⟨noRoutes, [], [], [], []⟩ noRoutes := ⟨nofun, nofun⟩
  obtain ⟨u, hsound⟩ := Monitor.sound hkeeps hstable hinv h
  obtain ⟨l, hl, rfl⟩ := hsound.stable
  refine ⟨l, hl, fun hfree => ?_, fun uri hu => ?_, hsound.inv.2⟩
  · have hroutes : p.shared.routes = noRoutes.addAll l := hsound.free hfree
    rw [hroutes]
    exact ⟨rfl, mirrored_addAll l⟩
  · have hreg := hsound.inv.1 uri hu
    rw [addAll_routeMap, Lib.lookup_bindAll] at hreg
    exact (Lib.lookup_isSome_iff l uri).1 hreg

/-- Two handlers with a location each. -/
def twoHandlers : NginxConfig :=
  [.block ["handler", "echo"] [.line ["location", "/a"]], .block ["handler", "status"] [.line ["location", "/b"]]]

/-- In the order in which the routes were registered. -/
def asRegistered : Visit := ⟨id, fun _ => .refl _⟩

/-- One thread has registered `/a` and told the recorder of `/b`, which is not in the map
yet; in between another has selected a handler. -/
theorem routes_serial_told : ∃ p : Pool Mutex Shared,
    p.shared.routes = ⟨[("/a", "echo")], [("/a", "echo"), ("/b", "status")]⟩ ∧
    p.shared.selected = [⟨"/a/x", ["/a"], some (str "echo")⟩] ∧
    ∃ l : List (Str × Str), (∀ e ∈ l, e ∈ declared twoHandlers) ∧ (∀ uri ∈ p.shared.registered, uri ∈ l.map Prod.fst) ∧
      ∀ e ∈ p.shared.selected, Timely twoHandlers
        (fun m => m = .registerRoutesFromConfig ∨ m = .routeRequest asRegistered "/a/x" none) (noRoutes.addAll l) e := by
  let called (m : Method) : Prop := m = .registerRoutesFromConfig ∨ m = .routeRequest asRegistered "/a/x" none
  have h₀ : Reachable (methods twoHandlers called) (fun _ _ _ => True) 2 ⟨noRoutes, [], [], [], []⟩
      ⟨⟨noRoutes, [], [], [], []⟩, [idle, idle]⟩ := .init
  -- `/a`
  have h₁ := h₀.first (.call ⟨_, .inl rfl, rfl⟩) trivial
  have h₂ := h₁.first (.lock (by simp) (by simp [idle])) trivial
  have h₃ := h₂.first (.lock (by simp) (by simp [idle])) trivial
  have h₄ := h₃.first .act trivial
  have h₅ := h₄.first (.lock (by simp) (by simp [idle])) trivial
  have h₆ := h₅.first .act trivial
  have h₇ := h₆.first .unlock trivial
  have h₈ := h₇.first .act trivial
  have h₉ := h₈.first .unlock trivial
  have h₁₀ := h₉.first .act trivial
  -- `/a/x`
  have h₁₁ := h₁₀.second (.call ⟨_, .inr rfl, rfl⟩) trivial
  have h₁₂ := h₁₁.second .act trivial
  have h₁₃ := h₁₂.second (.lock (by simp) (by simp)) trivial
  have h₁₄ := h₁₃.second .act trivial
  have h₁₅ := h₁₄.second .act trivial
  have h₁₆ := h₁₅.second .unlock trivial
  have h₁₇ := h₁₆.second (.lock (by simp) (by simp)) trivial
  have h₁₈ := h₁₇.second .act trivial
  have h₁₉ := h₁₈.second .unlock trivial
  have h₂₀ := h₁₉.second .act trivial
  -- `/b`
  have h₂₁ := h₂₀.first (.lock (by simp) (by simp)) trivial
  have h₂₂ := h₂₁.first .act trivial
  have h₂₃ := h₂₂.first (.lock (by simp) (by simp)) trivial
  have h₂₄ := h₂₃.first .act trivial
  obtain ⟨l, hl, -, hregistered, hselected⟩ := routes_serial twoHandlers called h₂₄
  refine ⟨_, rfl, rfl, l, fun e he => ?_, hregistered, hselected⟩
  obtain ⟨_, rfl | rfl, hmem⟩ := hl e he
  · exact hmem
  · cases hmem

end GittyUp.RouterThreads
