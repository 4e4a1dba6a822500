import GittyUp.Router
/-!
# Recorded prefixes

The router and the recorder of the process, over any registrations: URIs registered
one by one, and those of whole configs. `recorded_prefixes`: the list that the recorder
keeps is the route map, with each URI once and in the order of the first registrations.
-/
open Lib GittyUp.Config

namespace GittyUp.Router

/-- A call of `register_route`, or a run of `register_routes_from_config`. -/
inductive Registration
  | route (uri handlerName : Str)
  | fromConfig (config : NginxConfig)

namespace Registration

def run (r : Routes) : Registration → Option Routes
  | route uri handlerName => some (registerRoute r uri handlerName)
  | fromConfig config => registerRoutesFromConfig config r

/-- The URIs that are registered, each with its handler, in order. -/
def pairs : Registration → List (Str × Str)
  | route uri handlerName => [(uri, handlerName)]
  | fromConfig config => declared config

end Registration

theorem addAll_append (r : Routes) (l l' : List (Str × Str)) : r.addAll (l ++ l') = (r.addAll l).addAll l' :=
  List.foldl_append

/-- What one registration does. -/
theorem run_some {r r' : Routes} {op : Registration} (h : op.run r = some r') : r' = r.addAll op.pairs := by
  cases op with
  | route uri handlerName =>
    cases h
    rfl
  | fromConfig config => exact registerRoutes_some h

/-- What any registrations do. -/
theorem runs_some {ops : List Registration} {r r' : Routes} (h : ops.foldlM Registration.run r = some r') :
    r' = r.addAll (ops.flatMap Registration.pairs) := by
  induction ops generalizing r with
  | nil =>
    cases h
    rfl
  | cons op ops ih =>
    obtain ⟨r₁, h₁, h⟩ := Option.bind_eq_some_iff.1 h
    rw [ih h, run_some h₁, List.flatMap_cons, addAll_append]

/-- The recorder is told of a URI just when it enters the route map. -/
theorem registerRoute_prefixes {r : Routes} (h : r.prefixHandlerList = r.routeMap) (uri handlerName : Str) :
    (registerRoute r uri handlerName).prefixHandlerList = (registerRoute r uri handlerName).routeMap := by
  unfold registerRoute
  cases r.routeMap.lookup uri with
  | some _ => exact h
  | none => exact congrArg (· ++ [(uri, handlerName)]) h

theorem addAll_prefixes {r : Routes} (h : r.prefixHandlerList = r.routeMap) (l : List (Str × Str)) :
    (r.addAll l).prefixHandlerList = (r.addAll l).routeMap := by
  induction l generalizing r with
  | nil => exact h
  | cons e l ih => exact ih (registerRoute_prefixes h e.1 e.2)

/-- A URI that is known stays as it is. -/
theorem registerRoute_known {r : Routes} {uri : Str} (h : (r.routeMap.lookup uri).isSome) (handlerName : Str) :
    registerRoute r uri handlerName = r := by
  obtain ⟨known, hk⟩ := Option.isSome_iff_exists.1 h
  unfold registerRoute
  rw [hk]

theorem addAll_known {r : Routes} {l : List (Str × Str)} (h : ∀ e ∈ l, (r.routeMap.lookup e.1).isSome) :
    r.addAll l = r := by
  induction l with
  | nil => rfl
  | cons e l ih =>
    have hfirst := registerRoute_known (h e List.mem_cons_self) e.2
    show (registerRoute r e.1 e.2).addAll l = r
    rw [hfirst]
    exact ih fun e he => h e (List.mem_cons_of_mem _ he)

/-- The recorder and the route map after the registration of `l`. -/
structure Mirrored (l : List (Str × Str)) (r : Routes) : Prop where
  recorded : r.prefixHandlerList = firsts l
  once : (r.prefixHandlerList.map Prod.fst).Nodup
  registered : ∀ uri, uri ∈ r.prefixHandlerList.map Prod.fst ↔ uri ∈ l.map Prod.fst
  first : ∀ uri, r.prefixHandlerList.lookup uri = l.lookup uri
  mirrors : ∀ uri, r.routeMap.lookup uri = r.prefixHandlerList.lookup uri
  known : ∀ uri handlerName, uri ∈ l.map Prod.fst → registerRoute r uri handlerName = r
  knownConfig : ∀ config r', registerRoutesFromConfig config r = some r' →
    (∀ e ∈ declared config, e.1 ∈ l.map Prod.fst) → r' = r

theorem mirrored_addAll (l : List (Str × Str)) : Mirrored l (Routes.addAll ⟨[], []⟩ l) := by
  have hmap : (Routes.addAll ⟨[], []⟩ l).routeMap = bindAll [] l := addAll_routeMap _ _
  have hlist : (Routes.addAll ⟨[], []⟩ l).prefixHandlerList = bindAll [] l := (addAll_prefixes rfl l).trans hmap
  have hknown : ∀ uri, uri ∈ l.map Prod.fst → ((Routes.addAll ⟨[], []⟩ l).routeMap.lookup uri).isSome := by
    intro uri hu
    rw [hmap, lookup_isSome_iff]
    exact (mem_keys_bindAll l uri).2 hu
  constructor
  case recorded => rw [hlist, bindAll_nil]
  case once =>
    rw [hlist, bindAll_nil]
    exact nodup_firsts l
  case registered =>
    intro uri
    rw [hlist]
    exact mem_keys_bindAll l uri
  case first =>
    intro uri
    rw [hlist, lookup_bindAll]
    rfl
  case mirrors =>
    intro uri
    rw [hlist, hmap]
  case known => exact fun uri handlerName hu => registerRoute_known (hknown uri hu) handlerName
  case knownConfig =>
    intro config r' h hall
    rw [registerRoutes_some h]
    exact addAll_known fun e he => hknown e.1 (hall e he)

/-- After any registrations the recorder has the route map. -/
theorem recorded_prefixes {ops : List Registration} {r : Routes}
    (h : ops.foldlM Registration.run ⟨[], []⟩ = some r) : Mirrored (ops.flatMap Registration.pairs) r := by
  rw [runs_some h]
  exact mirrored_addAll _

theorem recorded_prefixes_twice :
    let config : NginxConfig := [.block ["handler", "static1"] [.line ["location", "/b"], .line ["location", "/a"],
      .line ["location", "/b"]], .block ["handler", "echo"] [.line ["location", "/b"]]]
    let ops : List Registration := [.route "/a" "status", .fromConfig config, .route "/b" "meme", .fromConfig config]
    Mirrored (ops.flatMap Registration.pairs) ⟨[("/a", "status"), ("/b", "static1")], [("/a", "status"), ("/b", "static1")]⟩ := by
  intro config ops
  exact recorded_prefixes rfl

end GittyUp.Router
