import WebServ.Config.Route

/-! # Which route is chosen

A route is a candidate for a URI when its path is a front part of it that ends at a
segment. The longest candidate is chosen, and the first of them among equals; where
the routes stand in the list makes no difference to the path that is chosen.
-/
namespace WebServ

/-- The path is a front part of the URI, and a segment ends there. -/
def SegmentPrefix (path uri : Bytes) : Prop :=
  path <+: uri ∧ (uri.length = path.length ∨ uri[path.length]? = some 47 ∨ path.getLast? = some 47)

theorem RouteConfig.covers_iff (route : RouteConfig) (uri : Bytes) :
    route.covers uri = true ↔ SegmentPrefix route.path uri := by
  simp only [covers, SegmentPrefix, decide_eq_true_eq, List.prefix_iff_eq_take]
  constructor
  · rintro ⟨htake, hend⟩
    refine ⟨htake.symm, ?_⟩
    rcases hend with h | h | h | h
    · exact Or.inl h
    · exact Or.inr (Or.inl h)
    · right
      right
      rw [h]
      decide
    · exact Or.inr (Or.inr h)
  · rintro ⟨htake, hend⟩
    exact ⟨htake.symm, hend.imp id (Or.imp id Or.inr)⟩

/-- Candidates of one length have the same path. -/
theorem SegmentPrefix.eq_of_length {p q uri : Bytes} (hp : SegmentPrefix p uri) (hq : SegmentPrefix q uri)
    (h : p.length = q.length) : p = q :=
  (List.prefix_of_prefix_length_le hp.1 hq.1 h.le).eq_of_length h

/-- The first of the longest candidates. -/
structure Chosen (uri : Bytes) (routes : List RouteConfig) (route : RouteConfig) : Prop where
  candidate : SegmentPrefix route.path uri
  place : ∃ front back, routes = front ++ route :: back ∧
    (∀ r ∈ front, SegmentPrefix r.path uri → r.path.length < route.path.length) ∧
    ∀ r ∈ back, SegmentPrefix r.path uri → r.path.length ≤ route.path.length

section
variable {uri : Bytes} {routes : List RouteConfig} {route next : RouteConfig}

theorem Chosen.mem (h : Chosen uri routes route) : route ∈ routes := by
  obtain ⟨front, back, rfl, -⟩ := h.place
  simp

theorem Chosen.longest (h : Chosen uri routes route) {other : RouteConfig} (hm : other ∈ routes)
    (hc : SegmentPrefix other.path uri) : other.path.length ≤ route.path.length := by
  obtain ⟨front, back, rfl, hfront, hback⟩ := h.place
  rcases List.mem_append.mp hm with hm | hm
  · exact (hfront other hm hc).le
  · rcases List.mem_cons.mp hm with rfl | hm
    · exact le_rfl
    · exact hback other hm hc

/-- A route behind that is no longer candidate changes nothing. -/
theorem Chosen.keep (h : Chosen uri routes route)
    (hn : SegmentPrefix next.path uri → next.path.length ≤ route.path.length) :
    Chosen uri (routes ++ [next]) route := by
  obtain ⟨front, back, rfl, hfront, hback⟩ := h.place
  refine ⟨h.candidate, front, back ++ [next], by simp, hfront, ?_⟩
  intro r hr hc
  rcases List.mem_append.mp hr with hr | hr
  · exact hback r hr hc
  · obtain rfl := List.mem_singleton.mp hr
    exact hn hc

/-- A candidate that is longer than all before it is chosen. -/
theorem Chosen.last (hc : SegmentPrefix next.path uri)
    (hn : ∀ r ∈ routes, SegmentPrefix r.path uri → r.path.length < next.path.length) :
    Chosen uri (routes ++ [next]) next :=
  ⟨hc, routes, [], rfl, hn, by simp⟩

/-- Where the routes stand does not matter for the path. -/
theorem Chosen.path_eq {routes' : List RouteConfig} {route' : RouteConfig} (h : Chosen uri routes route)
    (h' : Chosen uri routes' route') (hperm : routes'.Perm routes) : route'.path = route.path := by
  apply h'.candidate.eq_of_length h.candidate
  apply Nat.le_antisymm
  · exact h.longest (hperm.subset h'.mem) h'.candidate
  · exact h'.longest (hperm.symm.subset h.mem) h.candidate

end

/-- The loop over the routes, by induction on those already seen. -/
theorem matchRoute_chosen (uri : Bytes) {config : ServerConfig} (hne : ∀ route ∈ config.routes, route.path ≠ []) :
    matchRoute uri config = none ∧ (∀ route ∈ config.routes, ¬ SegmentPrefix route.path uri) ∨
      ∃ route, matchRoute uri config = some route ∧ Chosen uri config.routes route := by
  unfold matchRoute
  generalize config.routes = routes at hne
  let pick (best : Option RouteConfig × ℕ) (route : RouteConfig) : Option RouteConfig × ℕ :=
    if route.covers uri ∧ route.path.length > best.2 then (some route, route.path.length) else best
  have hloop : routes.foldl pick (none, 0) = (none, 0) ∧ (∀ route ∈ routes, ¬ SegmentPrefix route.path uri) ∨
      ∃ route, routes.foldl pick (none, 0) = (some route, route.path.length) ∧ Chosen uri routes route := by
    induction routes using List.reverseRecOn with
    | nil => exact Or.inl ⟨rfl, by simp⟩
    | append_singleton routes next ih =>
      have hpos : 0 < next.path.length := List.length_pos_iff.mpr (hne next (by simp))
      rw [List.foldl_append, List.foldl_cons, List.foldl_nil]
      rcases ih (fun route hr => hne route (by simp [hr])) with ⟨hbest, hnone⟩ | ⟨route, hbest, hchosen⟩
      · rw [hbest]
        by_cases hc : SegmentPrefix next.path uri
        · right
          refine ⟨next, if_pos ⟨(next.covers_iff uri).mpr hc, hpos⟩, .last hc ?_⟩
          intro r hr hcr
          exact absurd hcr (hnone r hr)
        · left
          refine ⟨if_neg (fun h => hc ((next.covers_iff uri).mp h.1)), ?_⟩
          intro r hr
          rcases List.mem_append.mp hr with hr | hr
          · exact hnone r hr
          · obtain rfl := List.mem_singleton.mp hr
            exact hc
      · right
        rw [hbest]
        by_cases hmore : next.covers uri ∧ next.path.length > route.path.length
        · refine ⟨next, if_pos hmore, .last ((next.covers_iff uri).mp hmore.1) ?_⟩
          intro r hr hcr
          exact (hchosen.longest hr hcr).trans_lt hmore.2
        · refine ⟨route, if_neg hmore, hchosen.keep ?_⟩
          intro hc
          by_contra hlt
          exact hmore ⟨(next.covers_iff uri).mpr hc, by omega⟩
  rcases hloop with ⟨hbest, hnone⟩ | ⟨route, hbest, hchosen⟩
  · exact Or.inl ⟨congrArg Prod.fst hbest, hnone⟩
  · exact Or.inr ⟨route, congrArg Prod.fst hbest, hchosen⟩

/-- The route chosen is the first of the longest candidates, there is one when there is a
candidate, and its path does not depend on the order of the routes. -/
theorem matchRoute_longest (uri : Bytes) (config : ServerConfig) (hne : ∀ route ∈ config.routes, route.path ≠ []) :
    (∀ route, matchRoute uri config = some route → SegmentPrefix route.path uri ∧
      (∀ other ∈ config.routes, SegmentPrefix other.path uri → other.path.length ≤ route.path.length) ∧
      ∃ front back, config.routes = front ++ route :: back ∧ ∀ other ∈ front, other.path ≠ route.path) ∧
    (matchRoute uri config = none ↔ ∀ route ∈ config.routes, ¬ SegmentPrefix route.path uri) ∧
    ∀ routes, routes.Perm config.routes → (matchRoute uri { config with routes }).map RouteConfig.path =
      (matchRoute uri config).map RouteConfig.path := by
  refine ⟨?_, ?_, ?_⟩
  · intro route hroute
    rcases matchRoute_chosen uri hne with ⟨hnone, -⟩ | ⟨route', hsome, hchosen⟩
    · rw [hnone] at hroute
      cases hroute
    · obtain rfl := Option.some.inj (hsome.symm.trans hroute)
      refine ⟨hchosen.candidate, fun other hm hc => hchosen.longest hm hc, ?_⟩
      obtain ⟨front, back, hsplit, hfront, -⟩ := hchosen.place
      refine ⟨front, back, hsplit, ?_⟩
      intro other hm heq
      have hlt := hfront other hm (heq ▸ hchosen.candidate)
      rw [heq] at hlt
      exact absurd hlt (lt_irrefl _)
  · rcases matchRoute_chosen uri hne with ⟨hnone, hall⟩ | ⟨route, hsome, hchosen⟩
    · exact iff_of_true hnone hall
    · refine iff_of_false (by simp [hsome]) ?_
      intro hall
      exact hall route hchosen.mem hchosen.candidate
  · intro routes hperm
    have hne' : ∀ route ∈ ({ config with routes } : ServerConfig).routes, route.path ≠ [] :=
      fun route hr => hne route (hperm.subset hr)
    rcases matchRoute_chosen uri hne with ⟨hnone, hall⟩ | ⟨route, hsome, hchosen⟩
    · rcases matchRoute_chosen uri hne' with ⟨hnone', -⟩ | ⟨route', hsome', hchosen'⟩
      · rw [hnone, hnone']
      · exact absurd hchosen'.candidate (hall route' (hperm.subset hchosen'.mem))
    · rcases matchRoute_chosen uri hne' with ⟨hnone', hall'⟩ | ⟨route', hsome', hchosen'⟩
      · exact absurd hchosen.candidate (hall' route (hperm.symm.subset hchosen.mem))
      · rw [hsome, hsome', Option.map_some, Option.map_some, hchosen.path_eq hchosen' hperm]

/-- Three nested routes. -/
def nestedRoutes : ServerConfig where
  routes := [{ path := ascii "/" }, { path := ascii "/a/" }, { path := ascii "/a" }]

theorem matchRoute_longest_nested :
    let uri := ascii "/a/b"
    (∀ route, matchRoute uri nestedRoutes = some route → SegmentPrefix route.path uri ∧
      (∀ other ∈ nestedRoutes.routes, SegmentPrefix other.path uri → other.path.length ≤ route.path.length) ∧
      ∃ front back, nestedRoutes.routes = front ++ route :: back ∧ ∀ other ∈ front, other.path ≠ route.path) ∧
    (matchRoute uri nestedRoutes = none ↔ ∀ route ∈ nestedRoutes.routes, ¬ SegmentPrefix route.path uri) ∧
    ∀ routes, routes.Perm nestedRoutes.routes → (matchRoute uri { nestedRoutes with routes }).map RouteConfig.path =
      (matchRoute uri nestedRoutes).map RouteConfig.path :=
  matchRoute_longest _ _ (by decide +kernel)

example : (matchRoute (ascii "/a/b") nestedRoutes).map RouteConfig.path = some (ascii "/a/") := by decide +kernel

end WebServ
