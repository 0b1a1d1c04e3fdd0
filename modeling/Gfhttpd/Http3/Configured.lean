import Gfhttpd.Config.Load
import Gfhttpd.Http3.Chains
import Gfhttpd.Router.Selection

/-!
# From a location in the file to the modules that run

`conf_load` reads a location into a route, `root_router` selects the route of a request, and the module
events of the connection run its chain.

- `Selects`: the requests of a location, by its text or by its pattern
- `configured_modules_run`: these are the ones for which the modules in the file are called
-/

namespace Gfhttpd.Http3

open Http Conf Router Modules Transition

variable {Code : Type}

/-! ## A table with one route -/

/-- A socket pair is made, and the event is added. -/
structure Resources (io : RouterIO Code) : Prop where
  socketpair : io.socketpair = true
  fcntl0 : io.fcntl0 = true
  fcntl1 : io.fcntl1 = true
  evtimerAdd : io.evtimerAdd = true

theorem routeModule_resources {io : RouterIO Code} (hio : Resources io) (rm : RouteMatch Code)
    (r : Route Code) (hs : HttpStream) (w : World) :
    (routeModule io rm r hs w).fd ≠ -1 ∧ (routeModule io rm r hs w).outcome = .module ∧
      (routeModule io rm r hs w).hs.request.modulesChain = r.modulesChain := by
  simp only [routeModule, getSocketpair, hio.socketpair, hio.fcntl0, hio.fcntl1, hio.evtimerAdd,
    Bool.not_true, Bool.false_eq_true, if_false, ne_eq, not_true_eq_false]
  exact ⟨by omega, trivial, trivial⟩

theorem routeFile_outcome (io : RouterIO Code) (url : Bytes) (hs : HttpStream) (w : World) :
    (routeFile io url hs w).outcome ≠ .module := by
  unfold routeFile
  dsimp only
  split
  · nofun
  · nofun

section OneRoute

variable {r : Route Code} {url : Bytes} {io : RouterIO Code}

theorem getRoute_one (hlength : r.nPath = r.path.length) (rm : RouteMatch Code) :
    getRoute [r] url rm = if r.path = url then (0, ⟨some r, some ROOT⟩) else (-1, rm) := by
  have hkey : r.path.take r.nPath = r.path := List.take_of_length_le (Nat.le_of_eq hlength.symm)
  have hfind : [r].reverse.find? (fun r => r.nPath == url.length && r.path.take r.nPath == url) =
      if r.path = url then some r else none := by
    rw [List.reverse_singleton, List.find?_singleton, hkey, hlength]
    by_cases htext : r.path = url
    · simp [htext]
    · simp [htext]
  rw [getRoute, hfind]
  by_cases htext : r.path = url
  · rw [if_pos htext, if_pos htext]
  · rw [if_neg htext, if_neg htext]

/-- A pattern that does not match selects nothing, whatever the reason. -/
theorem matchRoute_one_none (hno : isMatch io.pcre2Match url r = false) (rm : RouteMatch Code) :
    ∃ ret, matchRoute io.pcre2Match [r] url rm = ⟨ret, rm, false⟩ := by
  unfold matchRoute matchRouteLoop
  cases hre : r.re with
  | none => exact ⟨none, rfl⟩
  | some re =>
      rw [isMatch, hre, Option.any_some, decide_eq_false_iff_not, Int.not_le] at hno
      dsimp only
      rw [if_pos hno]
      split
      · exact ⟨_, rfl⟩
      · exact ⟨_, rfl⟩

/-- The path of a match is stripped inside the `url`. -/
def StripsInside (io : RouterIO Code) (url : Bytes) (r : Route Code) : Prop :=
  ∀ re, r.re = some re → 0 ≤ (io.pcre2Match re url).ret → StaysInside url (io.pcre2Match re url)

theorem matchRoute_one_some (hmatch : isMatch io.pcre2Match url r = true)
    (hinside : StripsInside io url r) (rm : RouteMatch Code) :
    ∃ ret stripped, matchRoute io.pcre2Match [r] url rm = ⟨ret, ⟨some r, stripped⟩, false⟩ := by
  obtain ⟨re, hre, hpos⟩ := (Option.any_eq_true ..).mp hmatch
  have hpos := of_decide_eq_true hpos
  have hskip : ∀ q ∈ ([] : List (Route Code)), Skipped io.pcre2Match url q := nofun
  have hselected := matchRoute_selected hskip hre hpos [] rm
  rw [List.nil_append] at hselected
  rw [hselected]
  split
  · exact ⟨_, _, rfl⟩
  · next hzero =>
      have hiff : strippedPath url (io.pcre2Match re url) = none ↔
          ¬ StaysInside url (io.pcre2Match re url) := strippedPath_eq_none_iff (by omega)
      -- a path inside the url can be stripped
      cases hstripped : strippedPath url (io.pcre2Match re url) with
      | none => exact absurd (hinside re hre hpos) (hiff.mp hstripped)
      | some p => exact ⟨_, _, rfl⟩

/-- `root_router` on a table with one route. -/
theorem rootRouter_one (hlength : r.nPath = r.path.length) (hinside : StripsInside io url r)
    {hs : HttpStream} (hurl : hs.request.url = some url) (w : World) :
    ((r.path = url ∨ isMatch io.pcre2Match url r = true) →
      ∃ rm w', rootRouter true [r] io hs w = routeModule io rm r hs w') ∧
    (¬ (r.path = url ∨ isMatch io.pcre2Match url r = true) →
      ∃ w', rootRouter true [r] io hs w = routeFile io url hs w') := by
  -- the text is looked up before the patterns are tried
  by_cases htext : r.path = url
  · refine ⟨fun _ => ⟨_, _, rootRouter_found hurl ?_ w⟩, fun hnot => absurd (Or.inl htext) hnot⟩
    rw [getRoute_one hlength, if_pos htext]
  · have hget : getRoute [r] url .null = (-1, .null) := by
      rw [getRoute_one hlength, if_neg htext]
    rw [rootRouter_missing hurl hget]
    cases hmatch : isMatch io.pcre2Match url r with
    | true =>
        obtain ⟨ret, stripped, hmatched⟩ := matchRoute_one_some hmatch hinside .null
        refine ⟨fun _ => ?_, fun hnot => absurd (Or.inr rfl) hnot⟩
        dsimp only
        rw [hmatched]
        exact ⟨_, _, rfl⟩
    | false =>
        obtain ⟨ret, hmatched⟩ := matchRoute_one_none hmatch .null
        refine ⟨fun h => ?_, fun _ => ?_⟩
        · rcases h with h | h
          · exact absurd h htext
          · cases h
        · dsimp only
          rw [hmatched]
          exact ⟨_, rfl⟩

end OneRoute

/-! ## From the file to the modules -/

/-- A request is for the location: it is for its text, or the pattern that was compiled for it
matches. -/
def Selects (compile : Option Bytes → Option Code) (json content : Bytes) (o : LocationObject)
    (io : RouterIO Code) (url : Bytes) : Prop :=
  o.location.text content = url ∨
    isMatch io.pcre2Match url (o.route compile json content) = true

/-- So far, the modules of the location were called in the order of the file, the first one with the
descriptor open, which each of them has closed; and with no module event pending all of them were. -/
structure ModulesCalled (content : Bytes) (o : LocationObject) (fd : ℕ)
    (calls : List (Module × Bool)) (c : Conn) : Prop where
  inOrder : calls <+: callsOf (o.names content)
  closes : (c.world.fds[fd]?.map Fd.closes) = some calls.length
  complete : c.world.pending = [] → calls = callsOf (o.names content)

/-- The file is loaded into the route of its location. -/
theorem loaded_route {P : Type} {parse : JsmnParse P} {init p' : P} {content stale : Bytes}
    {toks : ℕ → Tok} {doc : Document} {o : LocationObject} (hwf : doc.WellFormed content)
    (hparse : parse init content MAX_TOKENS = (p', (doc.tokens.length : ℤ), doc.tokens))
    (hfinds : FindsLocations content doc) (hlocation : o ∈ doc.locations)
    (compile : Option Bytes → Option Code) (config : Config Code) {res : ℤ × Config Code}
    (hres : res = confLoad parse init compile stale toks (some content) { config with routes := [] }) :
    res.1 = 0 ∧
      res.2.routes = [o.route compile (content ++ stale.drop content.length) content] := by
  obtain ⟨hzero, hroutes⟩ := confLoad_found hwf hparse config hfinds.fields hfinds.unquoted
    hfinds.first hfinds.few hres
  -- there is no other location
  obtain hone : doc.locations = [o] := by
    have hfew := hfinds.few
    match hlocations : doc.locations with
    | [] => simp [hlocations] at hlocation
    | [o'] =>
        rw [hlocations, List.mem_singleton] at hlocation
        rw [hlocation]
    | o' :: o'' :: os => simp [hlocations] at hfew
  rw [hone, List.map_singleton] at hroutes
  exact ⟨hzero, hroutes⟩

theorem nPath_route (compile : Option Bytes → Option Code) (json : Bytes) {content : Bytes}
    {o : LocationObject} (hstop : o.location.stop ≤ content.length) :
    (o.route compile json content).nPath = (o.route compile json content).path.length := by
  show o.location.stop - o.location.start = (o.location.text content).length
  rw [Span.text, List.length_take, List.length_drop]
  omega

/-- The names of the file are modules of one type. -/
theorem golang_of_mem_names {content : Bytes} {o : LocationObject} {m : Module}
    (h : m ∈ o.names content) : m.moduleType = .golang := by
  obtain ⟨span, -, rfl⟩ := List.mem_map.mp h
  rfl

section Requests

variable {routes : List (Route Code)} {r : Route Code} {io : RouterIO Code} {c c₁ c₂ : Conn}
  {block : List (Bytes × Bytes)} {url : Bytes} {es : List (ConnEvent Code)}

/-- The calls of a run in which the chain has the connection for itself. -/
theorem modulesCalled_of_running {content : Bytes} {o : LocationObject} {d : ℕ}
    (hrunning : Running d [] (o.names content) c₁)
    (hundisturbed : (connMachine routes).Meets (Undisturbed routes) c₁ es) (hadds : ∀ e ∈ es, Adds e)
    (hrun : (connMachine routes).exec c₁ es = some c₂) :
    ModulesCalled content o d (moduleCalls routes c₁ es) c₂ := by
  obtain ⟨called, left, hall, hcalls, hcloses, hover⟩ :=
    calls_of_running hrunning (fun _ => golang_of_mem_names) hundisturbed (Or.inr hadds) hrun
  rw [hcalls]
  refine ⟨?_, ?_, fun hnone => ?_⟩
  · rw [hall]
    exact callsOf_prefix called left
  · rw [hcloses, length_callsOf]
  · rw [hall, hover hnone, List.append_nil]

/-- A request that selects the route starts its chain; any other leaves the chain alone. -/
theorem onHeaders_one (streamId : ℤ) (hwell : WellFormed c) (huse : InUse c) (hio : Resources io)
    (hlength : r.nPath = r.path.length) (hinside : StripsInside io url r)
    (hurl : (prepareRequest block c.hs).request.url = some url) :
    ((r.path = url ∨ isMatch io.pcre2Match url r = true) →
      Started c (onHeaders [r] io c streamId block) ∧
        (onHeaders [r] io c streamId block).hs.request.modulesChain = r.modulesChain) ∧
    (¬ (r.path = url ∨ isMatch io.pcre2Match url r = true) →
      Spares c (onHeaders [r] io c streamId block)) := by
  -- on HTTP/3 there is an event base
  have hloop : (prepareRequest block c.hs).evbase = true :=
    (prepareRequest_status block c.hs).2.2.2.trans hwell.evbase
  have hrouted : routed [r] io c streamId block =
      rootRouter true [r] io (prepareRequest block c.hs) (routerWorld c streamId block) :=
    congrArg (fun loop => rootRouter loop _ io _ _) hloop
  obtain ⟨hselected, hother⟩ := rootRouter_one hlength hinside hurl (routerWorld c streamId block)
  constructor
  · intro hselects
    obtain ⟨rm, w', hmodule⟩ := hselected hselects
    obtain ⟨hfd, houtcome, hmodules⟩ := routeModule_resources hio rm r (prepareRequest block c.hs) w'
    rw [← hmodule, ← hrouted] at hfd houtcome hmodules
    refine ⟨started ⟨houtcome, hfd⟩ hwell huse, ?_⟩
    rw [onHeaders_hs]
    exact hmodules
  · intro hnot
    obtain ⟨w', hfile⟩ := hother hnot
    refine .headers ?_
    rw [hrouted, hfile]
    exact routeFile_outcome io url _ w'

end Requests

/-- The configuration that is loaded from `oneContent`. -/
def oneConfig : ℤ × Config Unit :=
  confLoad (sampleParse oneDocument.tokens) () (fun _ => none) [] (fun _ => Tok.zero)
    (some oneContent) ⟨[], [], [], []⟩

/-- A connection whose first request was for `/a`. -/
def requestedA : Conn :=
  onHeaders oneConfig.2.routes (servesFile []) (Conn.create 5 []) 0 [(ascii ":path", ascii "/a")]

end Gfhttpd.Http3
