import Gfhttpd.Router.Selection
import Mathlib.Data.Finset.Card

/-!
# Routes with the same path (`main/config/routes.c`)

`insert_route` adds a route to the table even if there is one with its path.  `get_route` then finds
the newest route with the path, and `match_route` comes to the oldest one first.

- `UniqueRoutes`: the table has one route a path, and both lookups select it
- `uniqueRoutes_iff`: the calls of `insert_route` after which this is so
- `repeated_path_lookups`: what the lookups select where a path was inserted again
-/

namespace Gfhttpd.Router

open Http Conf

variable {Code : Type}

/-! ## What the lookups select -/

/-- A match is a route of the table. -/
theorem matchRouteLoop_mem {pcre2Match : Pcre2Match Code} {url : Bytes} {rm : RouteMatch Code}
    {routes : List (Route Code)} {ret : Option ℤ} (hret : ret ≠ some 0)
    (hmatch : (matchRouteLoop pcre2Match url rm ret routes).ret = some 0) :
    ∃ r ∈ routes, (matchRouteLoop pcre2Match url rm ret routes).rm.route = some r := by
  induction routes generalizing ret with
  | nil => exact absurd hmatch hret
  | cons r routes ih =>
      rw [matchRouteLoop] at hmatch ⊢
      cases hre : r.re with
      | none =>
          -- routes without a pattern are jumped
          rw [hre] at hmatch
          obtain ⟨q, hq, hroute⟩ := ih hret hmatch
          exact ⟨q, List.mem_cons_of_mem _ hq, hroute⟩
      | some re =>
          rw [hre] at hmatch
          dsimp only at hmatch ⊢
          split
          · next hneg =>
              rw [if_pos hneg] at hmatch
              split
              · next hnomatch =>
                  rw [if_pos hnomatch] at hmatch
                  have hset : some (pcre2Match re url).ret ≠ some 0 := by
                    intro hset
                    have hzero := Option.some.inj hset
                    omega
                  obtain ⟨q, hq, hroute⟩ := ih hset hmatch
                  exact ⟨q, List.mem_cons_of_mem _ hq, hroute⟩
              · next herror =>
                  -- an error of `pcre2_match` is no match
                  rw [if_neg herror] at hmatch
                  cases hmatch
          · split
            · exact ⟨r, List.mem_cons_self .., rfl⟩
            · split <;> exact ⟨r, List.mem_cons_self .., rfl⟩

theorem matchRoute_mem {pcre2Match : Pcre2Match Code} {url : Bytes} {rm : RouteMatch Code}
    {routes : List (Route Code)} (hmatch : (matchRoute pcre2Match routes url rm).ret = some 0) :
    ∃ r ∈ routes, (matchRoute pcre2Match routes url rm).rm.route = some r :=
  matchRouteLoop_mem (Option.some_ne_none _).symm hmatch

/-- The newest route with a path is found under it. -/
theorem getRoute_newest {before after : List (Route Code)} {r : Route Code}
    (hr : r.nPath = r.path.length) (hafter : ∀ q ∈ after, q.path.take q.nPath ≠ r.path)
    (rm : RouteMatch Code) :
    getRoute (before ++ r :: after) r.path rm = (0, ⟨some r, some ROOT⟩) := by
  have hfind : (before ++ r :: after).reverse.find?
      (fun q => q.nPath == r.path.length && q.path.take q.nPath == r.path) = some r := by
    -- the search begins at the newest route
    have hnone : after.reverse.find?
        (fun q => q.nPath == r.path.length && q.path.take q.nPath == r.path) = none := by
      rw [List.find?_eq_none]
      intro q hq
      simp [hafter q (List.mem_reverse.mp hq)]
    rw [List.reverse_append, List.reverse_cons, List.append_assoc, List.find?_append, hnone,
      Option.none_or, List.singleton_append, List.find?_cons_of_pos]
    simp [hr]
  rw [getRoute, hfind]

/-- A path is inserted again.  The older route is the first one that matches, and the newer one is
looked up. -/
theorem repeated_path_lookups {pcre2Match : Pcre2Match Code} {url : Bytes}
    {before between after : List (Route Code)} {old new : Route Code} {re : Code}
    (hbefore : ∀ r ∈ before, Skipped pcre2Match url r) (hre : old.re = some re)
    (hmatch : 0 ≤ (pcre2Match re url).ret) (hpath : new.path = old.path)
    (hnew : new.nPath = new.path.length) (hafter : ∀ q ∈ after, q.path.take q.nPath ≠ new.path)
    (rm : RouteMatch Code) :
    (matchRoute pcre2Match (before ++ old :: (between ++ new :: after)) url rm).rm.route =
        some old ∧
      (getRoute (before ++ old :: (between ++ new :: after)) old.path rm).2.route = some new := by
  constructor
  · -- the loop ends at the older route, whatever is stripped
    rw [matchRoute_selected hbefore hre hmatch]
    split
    · rfl
    · split <;> rfl
  · have hsplit : before ++ old :: (between ++ new :: after) =
        (before ++ old :: between) ++ new :: after := by
      rw [List.append_assoc, List.cons_append]
    rw [hsplit, ← hpath, getRoute_newest hnew hafter]

/-! ## One route a path -/

/-- The table has one route for each of the paths, and where `match_route` selects a route,
`get_route` selects the same one for its path. -/
structure UniqueRoutes (paths : List Bytes) (routes : List (Route Code)) : Prop where
  unique : (routes.map Route.path).Nodup
  count : lengthRoutes routes = paths.toFinset.card
  same : ∀ (pcre2Match : Pcre2Match Code) (url : Bytes) (rm rm' : RouteMatch Code) (r : Route Code),
    (matchRoute pcre2Match routes url rm).ret = some 0 →
      (matchRoute pcre2Match routes url rm).rm.route = some r →
        getRoute routes r.path rm' = (0, ⟨some r, some ROOT⟩)

/-- **After any calls of `insert_route` the table has one route a path, which both lookups select,
exactly if no path was inserted twice.** -/
theorem uniqueRoutes_iff (compile : Option Bytes → Option Code) (is : List Insertion) :
    UniqueRoutes (is.map Insertion.text) (insertAll compile is) ↔
      (is.map Insertion.text).Nodup := by
  have hpaths : (insertAll compile is).map Route.path = is.map Insertion.text := by
    rw [insertAll_eq, List.map_map]
    rfl
  constructor
  · intro h
    rw [← hpaths]
    exact h.unique
  · intro hdistinct
    refine ⟨hpaths ▸ hdistinct, ?_, ?_⟩
    · rw [List.toFinset_card_of_nodup hdistinct, lengthRoutes, insertAll_eq, List.length_map,
        List.length_map]
    · -- what was matched is in the table, and its path leads to it alone
      intro pcre2Match url rm rm' r hret hroute
      obtain ⟨q, hq, hselected⟩ := matchRoute_mem hret
      obtain rfl : r = q := Option.some.inj (hroute.symm.trans hselected)
      exact getRoute_found hdistinct hq rm'

/-- The location `/a` with this module. -/
def locationA (module : Module) : Insertion where
  path := ascii "/a" ++ [0]
  nPath := 2
  modulesChain := [module]
  regex := true
  inside := by decide

/-- With two locations `/a` the table has two routes; a request that matches goes to the first
module, and one for `/a` itself to the second. -/
theorem routes_not_unique :
    let is := [locationA ⟨ascii "hello", .golang⟩, locationA ⟨ascii "other", .golang⟩]
    let routes := insertAll (fun _ => some ()) is
    ¬ UniqueRoutes (is.map Insertion.text) routes ∧
      ((matchRoute (fun _ _ => ⟨1, [(0, 2)]⟩) routes (ascii "/a/b") .null).rm.route.map
        Route.modulesChain = some [⟨ascii "hello", .golang⟩]) ∧
      ((getRoute routes (ascii "/a") .null).2.route.map Route.modulesChain =
        some [⟨ascii "other", .golang⟩]) := by
  refine ⟨fun h => ?_, by decide, by decide⟩
  exact absurd h.unique (by decide)

end Gfhttpd.Router
