import WebServ.Lib.Bytes
import Std.Data.ExtTreeMap

/-! # Routes and servers of a configuration -/
namespace WebServ
open Search

structure RouteConfig where
  path : Bytes := ascii "/"
  allowedMethods : List Bytes := []
  root : Bytes := []
  index : Bytes := ascii "index.html"
  autoindex : Bool := false
  uploadStore : Bytes := []
  redirectUrl : Bytes := []
  redirectCode : ℤ := 0
  cgiExtension : Bytes := []
  cgiPath : Bytes := []
  clientMaxBodySize : ℕ := 0
  hasClientMaxBodySize : Bool := false
deriving DecidableEq, Repr

structure ServerConfig where
  host : Bytes := ascii "0.0.0.0"
  port : ℤ := 8080
  hasListen : Bool := false
  serverNames : List Bytes := []
  errorPages : Std.ExtTreeMap ℤ Bytes := ∅
  clientMaxBodySize : ℕ := 1024 * 1024
  routes : List RouteConfig := []

/-- The path of the route is a front part of the URI that ends at a segment. -/
def RouteConfig.covers (route : RouteConfig) (uri : Bytes) : Bool :=
  uri.take route.path.length = route.path ∧
    (uri.length = route.path.length ∨ uri[route.path.length]? = some 47 ∨
      route.path = ascii "/" ∨ route.path.getLast? = some 47)

/-- The longest route that covers the URI, the first of them among equals. -/
def matchRoute (uri : Bytes) (config : ServerConfig) : Option RouteConfig :=
  (config.routes.foldl (fun (best : Option RouteConfig × ℕ) route =>
    if route.covers uri ∧ route.path.length > best.2 then (some route, route.path.length)
    else best) (none, 0)).1

theorem RouteConfig.covers_take {route : RouteConfig} {uri : Bytes} (h : route.covers uri = true) :
    uri.take route.path.length = route.path := by
  simp only [RouteConfig.covers, decide_eq_true_eq] at h
  exact h.1

/-- A route without a path is never chosen. -/
theorem matchRoute_covers {uri : Bytes} {config : ServerConfig} {route : RouteConfig}
    (h : matchRoute uri config = some route) :
    route ∈ config.routes ∧ route.covers uri = true ∧ route.path ≠ [] := by
  refine List.foldlRecOn (motive := fun best : Option RouteConfig × ℕ => ∀ route, best.1 = some route →
    route ∈ config.routes ∧ route.covers uri = true ∧ route.path ≠ []) config.routes _ ?_ ?_ route h
  · intro route hroute
    cases hroute
  · intro best hbest next hnext route hroute
    split at hroute
    · next hbetter =>
      obtain rfl := Option.some.inj hroute
      refine ⟨hnext, hbetter.1, ?_⟩
      intro hnil
      simp [hnil] at hbetter
    · exact hbest route hroute

def stripQueryString (uri : Bytes) : Bytes := before (ascii "?") uri

/-- The URI ends with the extension of the route, which has one. -/
def RouteConfig.matchesExtension (route : RouteConfig) (uri : Bytes) : Bool :=
  uri.length ≥ route.cgiExtension.length ∧
    uri.drop (uri.length - route.cgiExtension.length) = route.cgiExtension

def RouteConfig.allows (route : RouteConfig) (method : Bytes) : Bool :=
  route.allowedMethods = [] ∨ method ∈ route.allowedMethods

end WebServ
