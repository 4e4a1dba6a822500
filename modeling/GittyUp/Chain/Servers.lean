import GittyUp.Blocks
import GittyUp.Client
import GittyUp.Upstream
/-!
# Servers behind servers

The proxy of one server asks the next one, and so on until a server answers by
itself: what is sent through a chain of proxies, and what comes back.
-/
open Lib GittyUp.Http GittyUp.Config GittyUp.Router GittyUp.Handlers GittyUp.Client GittyUp.Proxy GittyUp.Upstream

namespace GittyUp.Chain

/-! ## Servers -/

/-- Where a socket is connected to: a host and a port. -/
abbrev Address := Str × Int

/-- `atoi`. What it makes of a number that is not an `int` is undefined. -/
def atoi (s : Str) : Option Int :=
  match stoi s with
  | .ok n => some n
  | .error .invalidArgument => some 0
  | .error _ => none

/-- `port_num` after the loop of the constructor, which leaves it as it was without a `port` statement. -/
def portNum (config : NginxConfig) (unset : Int) : Option Int :=
  config.foldlM (fun port stmt => do
    let t ← stmt.tokens[0]?
    if t = str "port" then atoi (← stmt.tokens[1]?) else return port) unset

/-- A running server, and what its memory holds where the proxy reads it. -/
structure Node where
  config : NginxConfig
  routeMap : RouteMap
  visit : RouteMap
  calls : List (Str × Str)
  headers : List (Str × Str)
  /-- The order in which a response's headers are visited. -/
  order : List (Str × Str) → List (Str × Str)
  stale : Str → Str → Str
  beyond : Str
  before : Byte
  unsetPort : Int
  untyped : Untyped calls
  headers_perm : headers.Perm (defaultHeaders calls)
  order_perm : ∀ l, (order l).Perm l

namespace Node
variable (n : Node)

/-- What the proxy sends for a request, and where to. `none` if it is not for the proxy. -/
def forwards (data : Str) : Option (Address × Str) :=
  let req := parseRequest n.stale data
  if req.valid then do
    let created ← createHandler n.config n.routeMap n.visit req.uri
    if created.1 = .proxy then
      let block ← created.2
      let table ← location2proxy block
      let port ← portNum block n.unsetPort
      let request ← sentRequest n.before table req.uri
      return ((request.1, port), request.2)
    else none
  else none

/-- What a session writes when the bytes of the upstream have come in these parts. -/
def answer (data first more rest : Str) : Option Str :=
  (relay n.beyond (parseRequest n.stale data) first more rest).map fun r =>
    (handleSuccess ⟨fun _ => .ok (applyDefaultHeaders n.headers r), n.order, n.stale, n.beyond⟩ data).generateResponse
      n.order

end Node

/-- The servers of this program, each under the addresses that lead to it. -/
abbrev Network := Address → Option Node

/-- The bytes that are sent to an address. -/
structure Sending where
  address : Address
  data : Str

section Networks
variable (net : Network)

/-- A server gets these bytes in one read, and its proxy sends the next ones. -/
structure Hop (n : Node) (x y : Sending) : Prop where
  listens : net x.address = some n
  fits : x.data.length ≤ maxLength
  forwards : n.forwards x.data = some (y.address, y.data)

/-- What is sent after `k` proxies. -/
inductive Asked : ℕ → Sending → Sending → Prop
  | here {x} : Asked 0 x x
  | hop {k n x y z} : Hop net n x y → Asked k y z → Asked (k + 1) x z

/-- What comes back through `k` proxies if the last server answers with `origin`,
however the bytes arrive at each of them. -/
inductive Fetched (origin : Str) : ℕ → Sending → Sending → Str → Prop
  | here {x} : Fetched origin 0 x x origin
  | hop {k n x y z bytes first more rest answer} : Hop net n x y → Fetched origin k y z bytes →
      Delivered bytes first more rest → n.answer x.data first more rest = some answer →
      Fetched origin (k + 1) x z answer

end Networks

theorem Hop.valid {net : Network} {n : Node} {x y : Sending} (h : Hop net n x y) :
    (parseRequest n.stale x.data).valid = true := by
  have hf := h.forwards
  unfold Node.forwards at hf
  by_contra hv
  rw [if_neg hv] at hf
  cases hf

/-! ## Two links -/

/-- A server without default headers. -/
def server (config : NginxConfig) (routeMap : RouteMap) : Node where
  config := config
  routeMap := routeMap
  visit := routeMap
  calls := []
  headers := []
  order := id
  stale := fun _ q => q
  beyond := []
  before := 0
  unsetPort := 0
  untyped := untyped_nil
  headers_perm := headers_nil
  order_perm := order_id

/-- One with a proxy that sends one location on to one host. -/
def link (location root : Str) : Node :=
  server [.block [str "handler", str "proxy"] [.line [str "port", str "80"], .line [str "location", location],
    .line [str "root", root]]] [(location, str "proxy")]

/-- Two of them, one behind the other. -/
def links : Network := fun a =>
  if a = (str "a", 80) then some (link "/a" "b") else if a = (str "b", 80) then some (link "/b" "c") else none

def farRequest : Sending := ⟨(str "a", 80), "POST /a/b/x HTTP/1.1\r\n\r\ny"⟩
def lastRequest : Sending := ⟨(str "c", 80), Upstream.requestText "c" "/x/"⟩

theorem asked_links : Asked links 2 farRequest lastRequest := by
  refine .hop (n := link "/a" "b") (y := ⟨(str "b", 80), Upstream.requestText "b" "/b/x/"⟩)
    ⟨rfl, by decide, by decide +kernel⟩ ?_
  exact .hop (n := link "/b" "c") ⟨rfl, by decide, by decide +kernel⟩ .here

end GittyUp.Chain
