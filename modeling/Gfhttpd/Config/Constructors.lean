import Gfhttpd.Config.Match

/-!
# The two ways to add a route (`main/config/routes.c`)

`insert_route` makes a route and adds it.  `create_route` makes one that `add_route` adds: it is added
under the empty path, without modules, and with a pattern where `insert_route` compiles none.

- `AnsweredAlike`: two tables give the same answers to every url
- `answeredAlike_iff`: the tables to which a route can be added in either way
-/

namespace Gfhttpd.Conf

open Http

variable {Code : Type}

/-! ## Answers -/

/-- What `get_route` answers: the return value, the modules of the route and the stripped path. -/
def getAnswer (routes : List (Route Code)) (url : Bytes) (rm : RouteMatch Code) :
    ℤ × Option (List Module) × Option Bytes :=
  let answer := getRoute routes url rm
  (answer.1, answer.2.route.map Route.modulesChain, answer.2.strippedPath)

/-- What `match_route` answers, and whether it stays inside the url. -/
def matchAnswer (pcre2Match : Pcre2Match Code) (routes : List (Route Code)) (url : Bytes)
    (rm : RouteMatch Code) : Option ℤ × Option (List Module) × Option Bytes × Bool :=
  let answer := matchRoute pcre2Match routes url rm
  (answer.ret, answer.rm.route.map Route.modulesChain, answer.rm.strippedPath, answer.outOfBounds)

/-- Both functions answer every url the same from either table. -/
def AnsweredAlike (pcre2Match : Pcre2Match Code) (routes routes' : List (Route Code)) : Prop :=
  ∀ url rm, getAnswer routes url rm = getAnswer routes' url rm ∧
    matchAnswer pcre2Match routes url rm = matchAnswer pcre2Match routes' url rm

/-! ## Looking a path up -/

/-- The newest route with this key. -/
def newest (routes : List (Route Code)) (path : Bytes) : Option (Route Code) :=
  routes.reverse.find? fun r => r.nPath == path.length && r.path.take r.nPath == path

/-- The modules of the newest route with this key. -/
def modulesOf (routes : List (Route Code)) (path : Bytes) : Option (List Module) :=
  (newest routes path).map Route.modulesChain

/-- The answer depends on these modules alone. -/
theorem getAnswer_eq (routes : List (Route Code)) (url : Bytes) (rm : RouteMatch Code) :
    getAnswer routes url rm =
      match modulesOf routes url with
      | none => (-1, rm.route.map Route.modulesChain, rm.strippedPath)
      | some m => (0, some m, some ROOT) := by
  unfold getAnswer getRoute modulesOf newest
  cases routes.reverse.find? fun r => r.nPath == url.length && r.path.take r.nPath == url with
  | none => rfl
  | some r => rfl

theorem getAnswer_congr_iff {routes routes' : List (Route Code)} {url : Bytes} :
    (∀ rm, getAnswer routes url rm = getAnswer routes' url rm) ↔
      modulesOf routes url = modulesOf routes' url := by
  simp only [getAnswer_eq]
  constructor
  · -- one `rm` is enough to tell two answers apart
    intro h
    have hnull := h .null
    revert hnull
    cases modulesOf routes url <;> cases modulesOf routes' url <;> simp
  · intro h rm
    rw [h]

/-- The last route added is the newest one with its key. -/
theorem modulesOf_concat (routes : List (Route Code)) (r : Route Code) (url : Bytes) :
    modulesOf (routes ++ [r]) url =
      if r.nPath = url.length ∧ r.path.take r.nPath = url then some r.modulesChain
      else modulesOf routes url := by
  unfold modulesOf newest
  rw [List.reverse_append, List.reverse_singleton, List.singleton_append, List.find?_cons]
  split
  · next hkey =>
      rw [Bool.and_eq_true, beq_iff_eq, beq_iff_eq] at hkey
      rw [if_pos hkey]
      rfl
  · next hkey =>
      rw [if_neg]
      intro hboth
      apply Bool.eq_false_iff.mp hkey
      rw [Bool.and_eq_true, beq_iff_eq, beq_iff_eq]
      exact hboth

/-! ## Matching a url -/

section Matching

variable {pcre2Match : Pcre2Match Code} {url : Bytes}

/-- Routes behind the one at which the loop ends are not tried. -/
theorem matchRouteLoop_decided {routes : List (Route Code)}
    (hdecided : ¬ ∀ r ∈ routes, Skipped pcre2Match url r) (rm : RouteMatch Code) (ret : Option ℤ)
    (rest : List (Route Code)) :
    matchRouteLoop pcre2Match url rm ret (routes ++ rest) =
      matchRouteLoop pcre2Match url rm ret routes := by
  induction routes generalizing ret with
  | nil => exact absurd (fun r hr => by cases hr) hdecided
  | cons r routes ih =>
      -- where the first route is skipped, the loop ends at a later one
      have hlater : Skipped pcre2Match url r → ¬ ∀ q ∈ routes, Skipped pcre2Match url q :=
        fun hr hall => hdecided (List.forall_mem_cons.mpr ⟨hr, hall⟩)
      rw [List.cons_append, matchRouteLoop, matchRouteLoop]
      cases hre : r.re with
      | none =>
          apply ih
          apply hlater
          intro re hsome
          rw [hre] at hsome
          cases hsome
      | some re =>
          dsimp only
          split
          · split
            · next hnomatch =>
                apply ih
                apply hlater
                intro re' hsome
                rw [hre] at hsome
                rwa [← Option.some.inj hsome]
            · rfl
          · rfl

/-- A route with a pattern, tried behind others that are all skipped. -/
theorem matchRoute_concat {routes : List (Route Code)}
    (hskip : ∀ r ∈ routes, Skipped pcre2Match url r) (r : Route Code) (rm : RouteMatch Code) :
    matchRoute pcre2Match (routes ++ [r]) url rm =
      matchRouteLoop pcre2Match url rm
        (if ∃ q ∈ routes, q.re ≠ none then some PCRE2_ERROR_NOMATCH else none) [r] :=
  matchRouteLoop_skip hskip rm none [r]

/-- Behind a route without a pattern the loop is over. -/
theorem matchRouteLoop_over {r : Route Code} (hre : r.re = none) (rm : RouteMatch Code)
    (ret : Option ℤ) : matchRouteLoop pcre2Match url rm ret [r] = ⟨ret, rm, false⟩ := by
  rw [matchRouteLoop, hre]
  rfl

/-- A pattern that does not match, or not without an error, is answered with -1. -/
theorem matchRouteLoop_failed {r : Route Code} {re : Code} (hre : r.re = some re)
    (hfailed : (pcre2Match re url).ret < 0) (rm : RouteMatch Code) (ret : Option ℤ) :
    matchRouteLoop pcre2Match url rm ret [r] = ⟨some (-1), rm, false⟩ := by
  rw [matchRouteLoop, hre]
  dsimp only
  rw [if_pos hfailed]
  split
  · next hnomatch =>
      rw [hnomatch]
      rfl
  · rfl

theorem matchRouteLoop_matched {r : Route Code} {re : Code} (hre : r.re = some re)
    (hmatched : ¬ (pcre2Match re url).ret < 0) (rm : RouteMatch Code) (ret : Option ℤ) :
    (matchRouteLoop pcre2Match url rm ret [r]).ret = some 0 := by
  rw [matchRouteLoop, hre]
  dsimp only
  rw [if_neg hmatched]
  split
  · rfl
  · split <;> rfl

/-- A pattern at the end of the table makes no difference to the answers exactly if an earlier one
decides, or it fails to match where there are earlier ones. -/
theorem matchAnswer_concat_iff {routes : List (Route Code)} {r q : Route Code} {re : Code}
    (hr : r.re = some re) (hq : q.re = none) :
    (∀ rm, matchAnswer pcre2Match (routes ++ [q]) url rm =
        matchAnswer pcre2Match (routes ++ [r]) url rm) ↔
      ((∀ r' ∈ routes, Skipped pcre2Match url r') →
        (pcre2Match re url).ret < 0 ∧ ∃ r' ∈ routes, r'.re ≠ none) := by
  by_cases hskip : ∀ r' ∈ routes, Skipped pcre2Match url r'
  · rw [forall_prop_of_true hskip]
    unfold matchAnswer
    simp only [matchRoute_concat hskip, matchRouteLoop_over hq]
    by_cases hfailed : (pcre2Match re url).ret < 0
    · -- -1 is what the earlier patterns have left, if there are any
      simp only [matchRouteLoop_failed hr hfailed, hfailed, true_and]
      by_cases hsome : ∃ r' ∈ routes, r'.re ≠ none
      · simp only [iff_true_intro hsome, iff_true]
        intro rm
        rfl
      · simp only [iff_false_intro hsome, iff_false]
        intro h
        cases (Prod.mk.inj (h .null)).1
    · -- a match returns 0, and no loop without one does
      refine iff_of_false (fun h => ?_) fun h => hfailed h.1
      have hret := (Prod.mk.inj (h .null)).1
      rw [matchRouteLoop_matched hr hfailed] at hret
      split at hret
      · cases hret
      · cases hret
  · -- an earlier pattern decides
    refine iff_of_true (fun rm => ?_) fun h => absurd h hskip
    unfold matchAnswer matchRoute
    rw [matchRouteLoop_decided hskip, matchRouteLoop_decided hskip]

/-- Two routes without a pattern. -/
theorem matchAnswer_concat_none {routes : List (Route Code)} {r q : Route Code} (hr : r.re = none)
    (hq : q.re = none) (rm : RouteMatch Code) :
    matchAnswer pcre2Match (routes ++ [q]) url rm = matchAnswer pcre2Match (routes ++ [r]) url rm := by
  have hsame : matchRoute pcre2Match (routes ++ [q]) url rm =
      matchRoute pcre2Match (routes ++ [r]) url rm := by
    by_cases hskip : ∀ r' ∈ routes, Skipped pcre2Match url r'
    · rw [matchRoute_concat hskip, matchRoute_concat hskip, matchRouteLoop_over hr,
        matchRouteLoop_over hq]
    · unfold matchRoute
      rw [matchRouteLoop_decided hskip, matchRouteLoop_decided hskip]
  unfold matchAnswer
  rw [hsame]

end Matching

/-! ## Both ways -/

/-- A path as both functions get it: the memory from the pointer on, with a NUL in it. -/
structure PathString where
  mem : Bytes
  terminated : (0 : UInt8) ∈ mem

namespace PathString

/-- The string. -/
def text (path : PathString) : Bytes := cstr path.mem

/-- `strlen(path)`. -/
def strlen (path : PathString) : ℕ := path.text.length

theorem take_strlen (path : PathString) : path.mem.take path.strlen = path.text :=
  (List.prefix_iff_eq_take.mp (List.takeWhile_prefix _)).symm

theorem parseRegex_eq (compile : Option Bytes → Option Code) (path : PathString) :
    parseRegex compile path.mem = compile (some path.text) := by
  rw [parseRegex, zeroTerminated, if_pos path.terminated]
  rfl

end PathString

/-- The table answers for the path, and for the empty path, as it does with the route. -/
def FoundAlike (routes : List (Route Code)) (path : Bytes) (m : List Module) : Prop :=
  if path = [] then m = []
  else modulesOf routes path = some m ∧ modulesOf routes [] = some []

/-- The pattern, if it compiles, decides no url: an earlier one does, or this one fails as the earlier
ones have done. -/
def MatchedAlike (pcre2Match : Pcre2Match Code) (routes : List (Route Code)) (re : Option Code) :
    Prop :=
  ∀ code, re = some code → ∀ url, (∀ r ∈ routes, Skipped pcre2Match url r) →
    (pcre2Match code url).ret < 0 ∧ ∃ r ∈ routes, r.re ≠ none

section Alike

variable (compile : Option Bytes → Option Code) (pcre2Match : Pcre2Match Code)
  (routes : List (Route Code)) (path : PathString) (m : List Module) (regex : Bool)

theorem modulesOf_insertRoute (url : Bytes) :
    modulesOf (insertRoute compile routes path.mem path.strlen m regex) url =
      if url = path.text then some m else modulesOf routes url := by
  rw [insertRoute, modulesOf_concat]
  dsimp only
  rw [List.take_take, Nat.min_self, path.take_strlen]
  by_cases heq : url = path.text
  · rw [if_pos heq, if_pos ⟨by rw [heq]; rfl, heq.symm⟩]
  · rw [if_neg heq, if_neg fun h => heq h.2.symm]

/-- A created route is added under the empty path. -/
theorem modulesOf_addRoute (url : Bytes) :
    modulesOf (addRoute routes (createRoute compile path.mem path.strlen m regex)) url =
      if url = [] then some [] else modulesOf routes url := by
  rw [addRoute, modulesOf_concat]
  unfold createRoute
  dsimp only
  rw [List.take_zero]
  by_cases heq : url = []
  · rw [if_pos heq, if_pos ⟨by rw [heq]; rfl, heq.symm⟩]
  · rw [if_neg heq, if_neg fun h => heq h.2.symm]

/-- `get_route` sees no difference. -/
theorem foundAlike_iff :
    (∀ url, modulesOf (addRoute routes (createRoute compile path.mem path.strlen m regex)) url =
        modulesOf (insertRoute compile routes path.mem path.strlen m regex) url) ↔
      FoundAlike routes path.text m := by
  simp only [modulesOf_addRoute, modulesOf_insertRoute]
  unfold FoundAlike
  by_cases hpath : path.text = []
  · -- both routes have the empty path for a key
    rw [if_pos hpath, hpath]
    constructor
    · intro h
      have hempty := h []
      rw [if_pos rfl, if_pos rfl] at hempty
      exact (Option.some.inj hempty).symm
    · intro h url
      rw [h]
  · rw [if_neg hpath]
    constructor
    · intro h
      -- only the two keys of the new routes tell the tables apart
      have htext := h path.text
      have hempty := h []
      rw [if_neg hpath, if_pos rfl] at htext
      rw [if_pos rfl, if_neg (Ne.symm hpath)] at hempty
      exact ⟨htext, hempty.symm⟩
    · rintro ⟨htext, hempty⟩ url
      by_cases hurl : url = []
      · rw [if_pos hurl, if_neg fun heq => hpath (heq.symm.trans hurl), hurl, hempty]
      · rw [if_neg hurl]
        split
        · next heq => rw [heq, htext]
        · rfl

/-- `match_route` sees no difference. -/
theorem matchedAlike_iff :
    (∀ url rm,
        matchAnswer pcre2Match (addRoute routes (createRoute compile path.mem path.strlen m regex))
            url rm =
          matchAnswer pcre2Match (insertRoute compile routes path.mem path.strlen m regex) url rm) ↔
      MatchedAlike pcre2Match routes (compile (some path.text)) := by
  unfold MatchedAlike addRoute insertRoute
  cases hcompile : compile (some path.text) with
  | none =>
      -- neither route has a pattern
      refine iff_of_true (fun url rm => matchAnswer_concat_none ?_ ?_ rm) fun code h => by cases h
      · cases regex <;> simp [path.parseRegex_eq, hcompile]
      · cases regex <;> simp [createRoute, path.parseRegex_eq, hcompile]
  | some code =>
      simp only [Option.some.injEq, forall_eq']
      apply forall_congr'
      intro url
      -- one of the two routes has the pattern, and the flag says which one
      cases regex with
      | true =>
          apply matchAnswer_concat_iff
          · simp [path.parseRegex_eq, hcompile]
          · rfl
      | false =>
          refine Iff.trans (forall_congr' fun rm => eq_comm) (matchAnswer_concat_iff ?_ rfl)
          simp [createRoute, path.parseRegex_eq, hcompile]

/-- **A route added by `create_route` and `add_route` is answered like one added by `insert_route`
exactly if the table answers for its path already, and for the empty path without modules, and the
pattern never decides.** -/
theorem answeredAlike_iff :
    AnsweredAlike pcre2Match
        (addRoute routes (createRoute compile path.mem path.strlen m regex))
        (insertRoute compile routes path.mem path.strlen m regex) ↔
      FoundAlike routes path.text m ∧
        MatchedAlike pcre2Match routes (compile (some path.text)) := by
  rw [← foundAlike_iff compile routes path m regex,
    ← matchedAlike_iff compile pcre2Match routes path m regex]
  unfold AnsweredAlike
  simp only [← getAnswer_congr_iff]
  constructor
  · intro h
    exact ⟨fun url rm => (h url rm).1, fun url rm => (h url rm).2⟩
  · rintro ⟨hget, hmatch⟩ url rm
    exact ⟨hget url rm, hmatch url rm⟩

/-- In a table without a route for the empty path, the empty path tells them apart. -/
theorem not_answeredAlike (hpath : path.text ≠ []) (hempty : modulesOf routes [] = none) :
    ¬ AnsweredAlike pcre2Match
      (addRoute routes (createRoute compile path.mem path.strlen m regex))
      (insertRoute compile routes path.mem path.strlen m regex) := by
  intro h
  have hfound : FoundAlike routes path.text m := by
    apply (foundAlike_iff compile routes path m regex).mp
    intro url
    exact getAnswer_congr_iff.mp fun rm => (h url rm).1
  rw [FoundAlike, if_neg hpath, hempty] at hfound
  cases hfound.2

end Alike

/-- `/a`. -/
def pathA : PathString := ⟨ascii "/a" ++ [0], by decide⟩

/-- In an empty table, the route of `/a` is found if it was inserted, not if it was created and
added. -/
theorem created_not_found : ¬ AnsweredAlike (fun _ _ => ⟨-1, []⟩)
    (addRoute [] (createRoute (fun _ => some ()) pathA.mem pathA.strlen
      [⟨ascii "hello", .golang⟩] false))
    (insertRoute (fun _ => some ()) [] pathA.mem pathA.strlen [⟨ascii "hello", .golang⟩] false) := by
  intro h
  have hget := (h (ascii "/a") .null).1
  revert hget
  decide

end Gfhttpd.Conf
