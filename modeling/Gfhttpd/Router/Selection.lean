import Gfhttpd.Config.Match
import Gfhttpd.Router.Router
import Mathlib.Data.List.Nodup

/-!
# The route of a request (`main/config/routes.c`, `main/router/router.c`)

`get_route` looks for the route with the text of the `url`, `match_route` for the first pattern that
matches it, and `root_router` asks them in this order.  `match_route` returns `ret`, which it does
not set before the first pattern is tried.

- `insertAll`: a table built by `insert_route`
- `RoutesSelected`: the exact route, else the first pattern that matches, else a file
- `routesSelected_iff`: the tables for which this is so
-/

namespace Gfhttpd.Router

open Http Conf

variable {Code : Type}

/-! ## Tables -/

/-- A call of `insert_route`.  `path` is the memory from the pointer on, and the text lies in it. -/
structure Insertion where
  path : Bytes
  nPath : ℕ
  modulesChain : List Module
  regex : Bool
  inside : nPath ≤ path.length

namespace Insertion

/-- The text of the route. -/
def text (i : Insertion) : Bytes :=
  i.path.take i.nPath

/-- The route has a compiled pattern. -/
def Compiled (compile : Option Bytes → Option Code) (i : Insertion) : Prop :=
  i.regex = true ∧ parseRegex compile i.path ≠ none

end Insertion

/-- The table after these calls of `insert_route`. -/
def insertAll (compile : Option Bytes → Option Code) (is : List Insertion) : List (Route Code) :=
  is.foldl (fun routes i => insertRoute compile routes i.path i.nPath i.modulesChain i.regex) []

/-- The route of a call. -/
def Insertion.route (compile : Option Bytes → Option Code) (i : Insertion) : Route Code where
  path := i.text
  nPath := i.nPath
  modulesChain := i.modulesChain
  re := if !i.regex then none else parseRegex compile i.path

theorem insertAll_eq (compile : Option Bytes → Option Code) (is : List Insertion) :
    insertAll compile is = is.map (Insertion.route compile) := by
  -- `insert_route` adds behind whatever the table holds
  have hfold : ∀ routes : List (Route Code), is.foldl (fun routes i =>
      insertRoute compile routes i.path i.nPath i.modulesChain i.regex) routes =
        routes ++ is.map (Insertion.route compile) := by
    induction is with
    | nil => simp
    | cons i is ih =>
        intro routes
        rw [List.foldl_cons, ih, List.map_cons, insertRoute, List.append_assoc]
        rfl
  exact hfold []

/-! ## Looking up -/

section Lookup

variable {is : List Insertion} {compile : Option Bytes → Option Code}

theorem nPath_of_mem_insertAll {r : Route Code} (hr : r ∈ insertAll compile is) :
    r.nPath = r.path.length := by
  rw [insertAll_eq, List.mem_map] at hr
  obtain ⟨i, -, rfl⟩ := hr
  exact (List.length_take_of_le i.inside).symm

/-- `HASH_FIND_STR` compares whole texts. -/
theorem key_of_mem_insertAll {r : Route Code} (hr : r ∈ insertAll compile is) :
    r.path.take r.nPath = r.path :=
  List.take_of_length_le (Nat.le_of_eq (nPath_of_mem_insertAll hr).symm)

theorem getRoute_missing {url : Bytes} (hnone : ∀ r ∈ insertAll compile is, r.path ≠ url)
    (rm : RouteMatch Code) : getRoute (insertAll compile is) url rm = (-1, rm) := by
  have hfind : (insertAll compile is).reverse.find?
      (fun r => r.nPath == url.length && r.path.take r.nPath == url) = none := by
    rw [List.find?_eq_none]
    intro r hr
    have hmem := List.mem_reverse.mp hr
    simp [key_of_mem_insertAll hmem, hnone r hmem]
  rw [getRoute, hfind]

/-- The route is found by its text, where no other has the same. -/
theorem getRoute_found (hdistinct : (is.map Insertion.text).Nodup) {r : Route Code}
    (hr : r ∈ insertAll compile is) (rm : RouteMatch Code) :
    getRoute (insertAll compile is) r.path rm = (0, ⟨some r, some ROOT⟩) := by
  have hpaths : ((insertAll compile is).map Route.path).Nodup := by
    rw [insertAll_eq, List.map_map]
    exact hdistinct
  unfold getRoute
  cases hfind : (insertAll compile is).reverse.find?
      (fun r' => r'.nPath == r.path.length && r'.path.take r'.nPath == r.path) with
  | none =>
      -- the route itself has the text
      rw [List.find?_eq_none] at hfind
      exact absurd (by simp [nPath_of_mem_insertAll hr]) (hfind r (List.mem_reverse.mpr hr))
  | some r' =>
      have hmem : r' ∈ insertAll compile is := List.mem_reverse.mp (List.mem_of_find?_eq_some hfind)
      have htext : r'.path = r.path := by
        have hboth := List.find?_some hfind
        rw [Bool.and_eq_true, beq_iff_eq, beq_iff_eq] at hboth
        exact (key_of_mem_insertAll hmem).symm.trans hboth.2
      -- the bucket is searched from its newest entry, but only one entry has the text
      rw [List.inj_on_of_nodup_map hpaths hmem hr htext]

end Lookup

/-! ## Matching -/

section Matching

variable {pcre2Match : Pcre2Match Code} {url : Bytes}

/-- The pattern of the route matches. -/
def isMatch (pcre2Match : Pcre2Match Code) (url : Bytes) (r : Route Code) : Bool :=
  r.re.any fun re => decide (0 ≤ (pcre2Match re url).ret)

/-- `pcre2_match` finds a match or none, and has no error. -/
def YesOrNo (pcre2Match : Pcre2Match Code) (url : Bytes) : Prop :=
  ∀ re, (pcre2Match re url).ret = PCRE2_ERROR_NOMATCH ∨ 0 ≤ (pcre2Match re url).ret

theorem skipped_of_isMatch_eq_false (hanswers : YesOrNo pcre2Match url) {r : Route Code}
    (hno : isMatch pcre2Match url r = false) : Skipped pcre2Match url r := by
  intro re hre
  rcases hanswers re with hnomatch | hmatch
  · exact hnomatch
  · rw [isMatch, hre, Option.any_some, decide_eq_false_iff_not] at hno
    exact absurd hmatch hno

/-- Where no pattern matches, the return value is set only if there is one. -/
theorem matchRoute_none (hanswers : YesOrNo pcre2Match url) {routes : List (Route Code)}
    (hnone : ∀ r ∈ routes, isMatch pcre2Match url r = false) (rm : RouteMatch Code) :
    matchRoute pcre2Match routes url rm =
      ⟨if ∃ r ∈ routes, r.re ≠ none then some (-1) else none, rm, false⟩ := by
  have hskip := matchRouteLoop_skip
    (fun r hr => skipped_of_isMatch_eq_false hanswers (hnone r hr)) rm none []
  rw [List.append_nil] at hskip
  exact hskip

/-- The first route in the table whose pattern matches. -/
theorem matchRoute_first (hanswers : YesOrNo pcre2Match url) {routes : List (Route Code)}
    {r : Route Code} (hfirst : routes.find? (isMatch pcre2Match url) = some r)
    (rm : RouteMatch Code) :
    ∃ re, r.re = some re ∧ (matchRoute pcre2Match routes url rm).ret = some 0 ∧
      (matchRoute pcre2Match routes url rm).rm.route = some r ∧
      ((matchRoute pcre2Match routes url rm).outOfBounds = false ↔
        StaysInside url (pcre2Match re url)) := by
  obtain ⟨hmatch, before, after, rfl, hbefore⟩ := List.find?_eq_some_iff_append.mp hfirst
  have hskip : ∀ q ∈ before, Skipped pcre2Match url q := fun q hq =>
    skipped_of_isMatch_eq_false hanswers (by simpa using hbefore q hq)
  obtain ⟨re, hre, hpos⟩ : ∃ re, r.re = some re ∧ 0 ≤ (pcre2Match re url).ret := by
    cases hre : r.re with
    | none => simp [isMatch, hre] at hmatch
    | some re => exact ⟨re, rfl, by simpa [isMatch, hre] using hmatch⟩
  refine ⟨re, hre, ?_⟩
  rw [matchRoute_selected hskip hre hpos]
  split
  · -- the vector was too small for the groups: nothing is stripped
    rename_i hzero
    refine ⟨rfl, rfl, iff_of_true rfl fun hgroup => absurd hgroup (by omega)⟩
  · rename_i hzero
    have hiff : strippedPath url (pcre2Match re url) = none ↔ ¬ StaysInside url (pcre2Match re url) :=
      strippedPath_eq_none_iff (by omega)
    cases hstripped : strippedPath url (pcre2Match re url) with
    | none => exact ⟨rfl, rfl, iff_of_false (by simp) (hiff.mp hstripped)⟩
    | some p =>
        refine ⟨rfl, rfl, iff_of_true rfl ?_⟩
        rw [hstripped] at hiff
        simpa using hiff

end Matching

/-! ## Selecting -/

/-- `root_router` goes to the route with the text of the `url`, else to the first one whose pattern
matches, else to a file. -/
def Dispatched (io : RouterIO Code) (routes : List (Route Code)) (url : Bytes) (hs : HttpStream)
    (w : World) (res : RouterResult) : Prop :=
  let looked := w.emit (.getRoute url)
  let matched := looked.emit (.matchRoute url)
  match routes.find? (·.path == url), routes.find? (isMatch io.pcre2Match url) with
  | some r, _ => res = routeModule io ⟨some r, some ROOT⟩ r hs looked
  | none, some r => ∃ stripped, res = routeModule io ⟨some r, stripped⟩ r hs matched
  | none, none => res = routeFile io url hs matched

/-- The selection of a route for this `url`. -/
structure RoutesSelected (io : RouterIO Code) (routes : List (Route Code)) (url : Bytes) : Prop where
  found : ∀ r ∈ routes, r.path = url → ∀ rm, getRoute routes url rm = (0, ⟨some r, some ROOT⟩)
  missing : (∀ r ∈ routes, r.path ≠ url) → ∀ rm, getRoute routes url rm = (-1, rm)
  first : ∀ r, routes.find? (isMatch io.pcre2Match url) = some r → ∀ rm,
    (matchRoute io.pcre2Match routes url rm).ret = some 0 ∧
      (matchRoute io.pcre2Match routes url rm).rm.route = some r
  none : (∀ r ∈ routes, isMatch io.pcre2Match url r = false) → ∀ rm,
    matchRoute io.pcre2Match routes url rm = ⟨some (-1), rm, false⟩
  dispatch : ∀ hs w, hs.request.url = some url →
    Dispatched io routes url hs w (rootRouter true routes io hs w)

/-! ## The three ways of `root_router` -/

section Dispatch

variable {io : RouterIO Code} {routes : List (Route Code)} {url : Bytes} {hs : HttpStream}

theorem rootRouter_found (hurl : hs.request.url = some url) {r : Route Code}
    (hget : getRoute routes url .null = (0, ⟨some r, some ROOT⟩)) (w : World) :
    rootRouter true routes io hs w =
      routeModule io ⟨some r, some ROOT⟩ r hs (w.emit (.getRoute url)) := by
  unfold rootRouter
  rw [hurl]
  dsimp only
  rw [hget]
  rfl

theorem rootRouter_missing (hurl : hs.request.url = some url)
    (hget : getRoute routes url .null = (-1, .null)) (w : World) :
    rootRouter true routes io hs w =
      let m := matchRoute io.pcre2Match routes url .null
      let w := (w.emit (.getRoute url)).emit (.matchRoute url)
      if m.outOfBounds then ⟨-1, hs, w, .module, true⟩
      else
        match m.rm.route with
        | some r => routeModule io m.rm r hs w
        | none => routeFile io url hs w := by
  unfold rootRouter
  rw [hurl]
  dsimp only
  rw [hget]
  rfl

theorem fault_routeModule (io : RouterIO Code) (rm : RouteMatch Code) (r : Route Code)
    (hs : HttpStream) (w : World) : (routeModule io rm r hs w).fault = false := by
  unfold routeModule
  dsimp only
  split
  · rfl
  · split
    · rfl
    · rfl

/-- A route that matches is gone to unless the stripped path leaves the `url`. -/
theorem rootRouter_first (hanswers : YesOrNo io.pcre2Match url) (hurl : hs.request.url = some url)
    (hget : getRoute routes url .null = (-1, .null)) {r : Route Code}
    (hfirst : routes.find? (isMatch io.pcre2Match url) = some r) (w : World) :
    (∃ stripped, rootRouter true routes io hs w = routeModule io ⟨some r, stripped⟩ r hs
      ((w.emit (.getRoute url)).emit (.matchRoute url))) ↔
      (matchRoute io.pcre2Match routes url .null).outOfBounds = false := by
  obtain ⟨re, -, -, hroute, -⟩ := matchRoute_first hanswers hfirst .null
  rw [rootRouter_missing hurl hget]
  dsimp only
  cases hbounds : (matchRoute io.pcre2Match routes url .null).outOfBounds with
  | true =>
      rw [if_pos rfl]
      -- what `routeModule` returns is never the fault of a pointer
      refine iff_of_false ?_ Bool.false_ne_true.symm
      rintro ⟨stripped, heq⟩
      have hfault := fault_routeModule io ⟨some r, stripped⟩ r hs
        ((w.emit (.getRoute url)).emit (.matchRoute url))
      rw [← heq] at hfault
      cases hfault
  | false =>
      rw [if_neg Bool.false_ne_true]
      generalize (matchRoute io.pcre2Match routes url .null).rm = rm at hroute
      obtain ⟨route, stripped⟩ := rm
      obtain rfl : route = some r := hroute
      exact iff_of_true ⟨stripped, rfl⟩ rfl

end Dispatch

/-- **Every table of routes with distinct texts selects as it should, on match answers without an
error, exactly if one of its routes has a compiled pattern and, unless a route has the text of the
`url`, the path of the first pattern that matches is stripped inside the `url`.** -/
theorem routesSelected_iff (compile : Option Bytes → Option Code) {is : List Insertion}
    (hdistinct : (is.map Insertion.text).Nodup) (io : RouterIO Code) {url : Bytes}
    (hanswers : YesOrNo io.pcre2Match url) :
    RoutesSelected io (insertAll compile is) url ↔
      (∃ i ∈ is, i.Compiled compile) ∧
        ((∀ i ∈ is, i.text ≠ url) → ∀ r re,
          (insertAll compile is).find? (isMatch io.pcre2Match url) = some r → r.re = some re →
            StaysInside url (io.pcre2Match re url)) := by
  have hcompiled : (∃ i ∈ is, i.Compiled compile) ↔ ∃ r ∈ insertAll compile is, r.re ≠ none := by
    rw [insertAll_eq]
    simp [Insertion.Compiled, Insertion.route]
  have htexts : (∀ i ∈ is, i.text ≠ url) ↔ ∀ r ∈ insertAll compile is, r.path ≠ url := by
    rw [insertAll_eq]
    simp [Insertion.route]
  rw [hcompiled, htexts]
  constructor
  · intro hselects
    constructor
    · by_contra hnone
      -- then nothing matches, and `ret` is never set
      have hmatch : ∀ r ∈ insertAll compile is, isMatch io.pcre2Match url r = false := by
        intro r hr
        have hre : r.re = none := by
          by_contra hre
          exact hnone ⟨r, hr, hre⟩
        rw [isMatch, hre, Option.any_none]
      have hret := congrArg MatchRoute.ret (hselects.none hmatch .null)
      rw [matchRoute_none hanswers hmatch, if_neg hnone] at hret
      cases hret
    · intro hmissing r re hfirst hre
      -- the dispatch of one request for this `url` is enough
      let hs : HttpStream :=
        { HttpStream.zero with request := { HttpStream.zero.request with url := some url } }
      have hexact : (insertAll compile is).find? (·.path == url) = none := by
        rw [List.find?_eq_none]
        exact fun r hr => by simpa using hmissing r hr
      have hdispatch := hselects.dispatch hs World.init rfl
      unfold Dispatched at hdispatch
      rw [hexact, hfirst] at hdispatch
      have hbounds := (rootRouter_first hanswers rfl (getRoute_missing hmissing .null) hfirst
        World.init).mp hdispatch
      obtain ⟨re', hre', -, -, hinside⟩ := matchRoute_first hanswers hfirst .null
      rw [hre, Option.some_inj] at hre'
      subst hre'
      exact hinside.mp hbounds
  · rintro ⟨hsome, hinside⟩
    refine ⟨?_, ?_, ?_, ?_, ?_⟩
    · rintro r hr rfl rm
      exact getRoute_found hdistinct hr rm
    · exact fun hmissing rm => getRoute_missing hmissing rm
    · intro r hfirst rm
      obtain ⟨-, -, hret, hroute, -⟩ := matchRoute_first hanswers hfirst rm
      exact ⟨hret, hroute⟩
    · intro hmatch rm
      rw [matchRoute_none hanswers hmatch, if_pos hsome]
    · -- the exact route, a pattern, or a file
      intro hs w hurl
      unfold Dispatched
      dsimp only
      cases hexact : (insertAll compile is).find? (·.path == url) with
      | some r =>
          have hr := List.mem_of_find?_eq_some hexact
          obtain rfl : r.path = url := by simpa using List.find?_some hexact
          exact rootRouter_found hurl (getRoute_found hdistinct hr .null) w
      | none =>
          have hmissing : ∀ r ∈ insertAll compile is, r.path ≠ url := fun r hr => by
            simpa using List.find?_eq_none.mp hexact r hr
          have hget := getRoute_missing hmissing (.null : RouteMatch Code)
          cases hfirst : (insertAll compile is).find? (isMatch io.pcre2Match url) with
          | some r =>
              obtain ⟨re, hre, -, -, hbounds⟩ := matchRoute_first hanswers hfirst .null
              apply (rootRouter_first hanswers hurl hget hfirst w).mpr
              exact hbounds.mpr (hinside hmissing r re hfirst hre)
          | none =>
              have hmatch : ∀ r ∈ insertAll compile is, isMatch io.pcre2Match url r = false :=
                fun r hr => by simpa using List.find?_eq_none.mp hfirst r hr
              dsimp only
              rw [rootRouter_missing hurl hget, matchRoute_none hanswers hmatch]
              rfl

/-- A call of `insert_route` with a string literal. -/
def literalInsertion (path : String) (regex : Bool) : Insertion where
  path := ascii path ++ [0]
  nPath := (ascii path).length
  modulesChain := [⟨ascii "hello", .golang⟩]
  regex := regex
  inside := by rw [List.length_append]; exact Nat.le_add_right _ _

/-- A pattern and an exact route, and a `url` that matches neither. -/
theorem routesSelected_mixed :
    RoutesSelected (servesFile [] : RouterIO Unit)
      (insertAll (fun _ => some ()) [literalInsertion "/a" true, literalInsertion "/b" false])
      (ascii "/c") := by
  apply (routesSelected_iff (fun _ => some ()) (by decide) (servesFile []) (fun _ => Or.inl rfl)).mpr
  refine ⟨⟨literalInsertion "/a" true, by simp, rfl, by simp [parseRegex]⟩, ?_⟩
  intro _ r re hfirst _
  exact absurd hfirst (by simp [insertAll_eq, isMatch, servesFile, Insertion.route,
    literalInsertion, PCRE2_ERROR_NOMATCH])

/-- Without a pattern in the table `match_route` returns what is on the stack. -/
theorem routesSelected_exactOnly :
    ¬ RoutesSelected (servesFile [] : RouterIO Unit)
      (insertAll (fun _ => some ()) [literalInsertion "/b" false]) (ascii "/c") := by
  intro hselects
  have hret := congrArg MatchRoute.ret (hselects.none (fun r hr => by
    simp only [insertAll_eq, List.map_cons, List.map_nil, List.mem_singleton] at hr
    rw [hr]
    rfl) .null)
  cases hret

end Gfhttpd.Router
