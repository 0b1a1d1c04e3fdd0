import Gfhttpd.Router.Router

/-!
# What `root_router` can do

`RouterCases` lists the ways a call of `root_router` ends, each with everything it leaves
behind; `rootRouter_cases` says that there are no others.  What follows about requests,
descriptors and events is read off it, and `root_router` is not unfolded again.
-/

namespace Gfhttpd.Router

open Http Conf

variable {Code : Type}

/-- The effects `root_router` logs itself for a request with this `url`: it looks for the
`url` in the routes, opens a file under it, and closes descriptors. -/
def IsRouting (url : Option Bytes) : Effect → Prop
  | .getRoute path => url = some path
  | .matchRoute subject => url = some subject
  | .openFile path => url.map (List.dropWhile (· == 47)) = some path
  | .close _ => True
  | _ => False

/-- The stream after a route was found. -/
def moduleStream (hs : HttpStream) (w : World) (chain : List Module) (url : Option Bytes) :
    HttpStream :=
  { hs with
    moduleCbEv := some w.nextEv
    response := { hs.response with fd := w.fds.length + 1 }
    request := { hs.request with modulesChain := chain, modulesUrl := url } }

/-- The two ends of a socket pair opened in `w`. -/
def socketEnds (w : World) : List Fd :=
  [⟨.socket, [], 0, some (w.fds.length + 1), 0⟩, ⟨.socket, [], 0, some w.fds.length, 0⟩]

/-- The stream with a content length. -/
def lengthStream (hs : HttpStream) (n : ℕ) : HttpStream :=
  { hs with response := { hs.response with contentLenght := n } }

/-- The stream with the error page's length and status. -/
def notFoundStream (hs : HttpStream) (n : ℕ) : HttpStream :=
  { hs with
    response := { hs.response with contentLenght := toSizeT n, httpStatus := some (ascii "404") } }

/-- The two ends of the pipe the error page is read from. -/
def pipeEnds (w : World) (page : Bytes) : List Fd :=
  [⟨.pipe, page, 0, none, 0⟩, ⟨.pipe, [], 0, some w.fds.length, 1⟩]

/-- The ways `root_router` ends. -/
inductive RouterCases (io : RouterIO Code) (hs : HttpStream) (w : World) : RouterResult → Prop
  /-- the event base or `url` is `NULL`, or the stripped path leaves `url` -/
  | fault (es : List Effect) (hes : ∀ e ∈ es, IsRouting hs.request.url e) :
      RouterCases io hs w ⟨-1, hs, { w with log := w.log ++ es }, .module, true⟩
  /-- a route, but no socket pair -/
  | noSocket (es : List Effect) (hes : ∀ e ∈ es, IsRouting hs.request.url e) (new : List Fd) :
      RouterCases io hs w
        ⟨-1, hs, { w with fds := w.fds ++ new, log := w.log ++ es }, .module, false⟩
  /-- a route, but its event cannot be added -/
  | noTimer (es : List Effect) (hes : ∀ e ∈ es, IsRouting hs.request.url e) (chain : List Module)
      (url : Option Bytes) :
      RouterCases io hs w ⟨-1, moduleStream hs w chain url,
        { w with fds := w.fds ++ socketEnds w, nextEv := w.nextEv + 1, log := w.log ++ es },
        .module, false⟩
  /-- a route -/
  | module (es : List Effect) (hes : ∀ e ∈ es, IsRouting hs.request.url e) (chain : List Module)
      (url : Option Bytes) :
      RouterCases io hs w ⟨w.fds.length, moduleStream hs w chain url,
        { w with fds := w.fds ++ socketEnds w, nextEv := w.nextEv + 1, log := w.log ++ es }.addEvent
          w.nextEv,
        .module, false⟩
  /-- a local file -/
  | file (es : List Effect) (hes : ∀ e ∈ es, IsRouting hs.request.url e) (f : OpenFile) :
      RouterCases io hs w ⟨w.fds.length, lengthStream hs (toSizeT (wrap32 f.size)),
        { w with fds := w.fds ++ [⟨f.kind, f.content, 0, none, 0⟩], log := w.log ++ es },
        .file f.size, false⟩
  /-- neither, and no error page -/
  | noError (es : List Effect) (hes : ∀ e ∈ es, IsRouting hs.request.url e) (new : List Fd) (n : ℕ) :
      RouterCases io hs w ⟨-1, lengthStream hs SIZE_MAX,
        { w with fds := w.fds ++ new, log := w.log ++ es }, .notFound n, false⟩
  /-- the error page -/
  | notFound (es : List Effect) (hes : ∀ e ∈ es, IsRouting hs.request.url e) (page : Bytes)
      (hpage : page.length ≤ ERROR_HTML.length) :
      RouterCases io hs w ⟨w.fds.length, notFoundStream hs page.length,
        { w with fds := w.fds ++ pipeEnds w page, log := w.log ++ es },
        .notFound page.length, false⟩

theorem wrap32_neg_one : toSizeT (wrap32 (-1)) = SIZE_MAX := by decide

theorem getSocketpair_cases (io : RouterIO Code) (w : World) :
    (∃ new, getSocketpair io w =
      (-1, w.fds.length, w.fds.length + 1, { w with fds := w.fds ++ new })) ∨
    getSocketpair io w =
      (0, w.fds.length, w.fds.length + 1, { w with fds := w.fds ++ socketEnds w }) := by
  unfold getSocketpair
  cases hsock : io.socketpair with
  | false => exact Or.inl ⟨[], by simp⟩
  | true =>
      cases hf0 : io.fcntl0 with
      | false => exact Or.inl ⟨socketEnds w, by simp [World.openFd, socketEnds]⟩
      | true =>
          cases hf1 : io.fcntl1 with
          | false => exact Or.inl ⟨socketEnds w, by simp [World.openFd, socketEnds]⟩
          | true => exact Or.inr (by simp [World.openFd, socketEnds])

theorem routeModule_cases (io : RouterIO Code) (rm : RouteMatch Code) (route : Route Code)
    (hs : HttpStream) (w : World) (es : List Effect) (hes : ∀ e ∈ es, IsRouting hs.request.url e) :
    RouterCases io hs w (routeModule io rm route hs { w with log := w.log ++ es }) := by
  rcases getSocketpair_cases io { w with log := w.log ++ es } with ⟨new, hpair⟩ | hpair
  · simp only [routeModule, hpair]
    exact .noSocket es hes new
  · simp only [routeModule, hpair]
    cases htimer : io.evtimerAdd with
    | false => exact .noTimer es hes route.modulesChain rm.strippedPath
    | true => exact .module es hes route.modulesChain rm.strippedPath

theorem errorFd_cases (io : RouterIO Code) (hs : HttpStream) (w : World) :
    (∃ new es, (∀ e ∈ es, IsRouting hs.request.url e) ∧ errorFd io hs (ascii "404") w =
      (-1, hs, { w with fds := w.fds ++ new, log := w.log ++ es })) ∨
    (∃ page es, (∀ e ∈ es, IsRouting hs.request.url e) ∧ page = ERROR_HTML.take (io.errorWrite.getD 0) ∧
      errorFd io hs (ascii "404") w = ((w.fds.length : ℤ), notFoundStream hs page.length,
        { w with fds := w.fds ++ pipeEnds w page, log := w.log ++ es })) := by
  have hclose : ∀ e ∈ [Effect.close ((w.fds.length + 1 : ℕ) : ℤ)], IsRouting hs.request.url e := by
    intro e he
    obtain rfl := List.mem_singleton.mp he
    trivial
  unfold errorFd
  cases hpipe : io.pipe with
  | false => exact Or.inl ⟨[], [], by simp, by simp⟩
  | true =>
      cases hwrite : io.errorWrite with
      | none =>
          refine Or.inl ⟨pipeEnds w [], _, hclose, ?_⟩
          simp [World.closeFd_openFd, pipeEnds]
      | some n =>
          refine Or.inr ⟨_, _, hclose, rfl, ?_⟩
          simp [World.closeFd_openFd, pipeEnds, notFoundStream]

theorem routeFile_cases (io : RouterIO Code) (url : Bytes) (hs : HttpStream) (w : World)
    (hurl : hs.request.url = some url) (es : List Effect)
    (hes : ∀ e ∈ es, IsRouting hs.request.url e) :
    RouterCases io hs w (routeFile io url hs { w with log := w.log ++ es }) := by
  have happend : ∀ es' : List Effect, (∀ e ∈ es', IsRouting hs.request.url e) →
      ∀ e ∈ es ++ [.openFile (url.dropWhile (· == 47))] ++ es', IsRouting hs.request.url e := by
    intro es' hes' e he
    simp only [List.mem_append, List.mem_singleton] at he
    rcases he with (he | rfl) | he
    · exact hes e he
    · simp [IsRouting, hurl]
    · exact hes' e he
  cases hfile : io.openFile (url.dropWhile (· == 47)) with
  | some f =>
      have hopen := happend [] (by simp)
      rw [List.append_nil] at hopen
      have hcase : RouterCases io hs w _ := .file _ hopen f
      simpa [routeFile, hfile, World.emit, World.openFd, lengthStream] using hcase
  | none =>
      simp only [routeFile, hfile, wrap32_neg_one, World.emit]
      rcases errorFd_cases io (lengthStream hs SIZE_MAX)
          { w with log := w.log ++ es ++ [.openFile (url.dropWhile (· == 47))] } with
        ⟨new, es', hes', herr⟩ | ⟨page, es', hes', hpage, herr⟩
      · rw [lengthStream] at herr
        rw [herr]
        have hcase : RouterCases io hs w _ := .noError _ (happend es' hes') new
          (ERROR_HTML.take (io.errorWrite.getD 0)).length
        rw [← List.append_assoc, ← List.append_assoc] at hcase
        exact hcase
      · rw [lengthStream] at herr
        rw [herr, ← hpage]
        have hcase : RouterCases io hs w _ := .notFound _ (happend es' hes') page
          (by rw [hpage]; exact List.length_take_le' _ _)
        rw [← List.append_assoc, ← List.append_assoc] at hcase
        exact hcase

/-- Every way `root_router` ends. -/
theorem rootRouter_cases (loop : Bool) (routes : List (Route Code)) (io : RouterIO Code)
    (hs : HttpStream) (w : World) : RouterCases io hs w (rootRouter loop routes io hs w) := by
  cases loop with
  | false =>
      have hcase : RouterCases io hs w _ := .fault [] (by simp)
      simpa [rootRouter] using hcase
  | true =>
  cases hurl : hs.request.url with
  | none =>
      have hcase : RouterCases io hs w _ := .fault [] (by simp)
      simpa [rootRouter, hurl] using hcase
  | some url =>
      -- the regular expressions are tried after `get_route` only
      have hget : ∀ e ∈ [Effect.getRoute url], IsRouting hs.request.url e := by
        intro e he
        obtain rfl := List.mem_singleton.mp he
        exact hurl
      have hmatch : ∀ e ∈ [Effect.getRoute url] ++ [.matchRoute url],
          IsRouting hs.request.url e := by
        intro e he
        simp only [List.mem_append, List.mem_singleton] at he
        rcases he with rfl | rfl
        · exact hurl
        · exact hurl
      simp only [rootRouter, hurl, Bool.not_true, Bool.false_eq_true, if_false, World.emit]
      split
      · split
        · have hcase : RouterCases io hs w _ := .fault _ hmatch
          simpa using hcase
        · split
          · rw [List.append_assoc]
            exact routeModule_cases io _ _ hs w _ hmatch
          · rw [List.append_assoc]
            exact routeFile_cases io url hs w hurl _ hmatch
      · split
        · exact routeModule_cases io _ _ hs w _ hget
        · exact routeFile_cases io url hs w hurl _ hget

/-- `root_router` leaves the `url` alone, and logs nothing but its own effects. -/
theorem rootRouter_frame (loop : Bool) (routes : List (Route Code)) (io : RouterIO Code)
    (hs : HttpStream) (w : World) :
    (rootRouter loop routes io hs w).hs.request.url = hs.request.url ∧
    ∃ es, (∀ e ∈ es, IsRouting hs.request.url e) ∧
      (rootRouter loop routes io hs w).world.log = w.log ++ es := by
  have hcases := rootRouter_cases loop routes io hs w
  generalize rootRouter loop routes io hs w = r at hcases ⊢
  cases hcases with
  | fault es hes => exact ⟨rfl, es, hes, rfl⟩
  | noSocket es hes new => exact ⟨rfl, es, hes, rfl⟩
  | noTimer es hes chain url => exact ⟨rfl, es, hes, rfl⟩
  | module es hes chain url => exact ⟨rfl, es, hes, World.log_addEvent _ _⟩
  | file es hes f => exact ⟨rfl, es, hes, rfl⟩
  | noError es hes new n => exact ⟨rfl, es, hes, rfl⟩
  | notFound es hes page hpage => exact ⟨rfl, es, hes, rfl⟩

/-- A process that ended in `root_router` got no descriptor. -/
theorem rootRouter_fault {loop : Bool} {routes : List (Route Code)} {io : RouterIO Code}
    {hs : HttpStream} {w : World} (hfd : (rootRouter loop routes io hs w).fd ≠ -1) :
    (rootRouter loop routes io hs w).fault = false := by
  have hcases := rootRouter_cases loop routes io hs w
  generalize rootRouter loop routes io hs w = r at hcases hfd ⊢
  cases hcases with
  | fault es hes => exact absurd rfl hfd
  | noSocket | noTimer | module | file | noError | notFound => rfl

end Gfhttpd.Router
