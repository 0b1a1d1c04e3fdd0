import Gfhttpd.Router.ModuleCb
import Gfhttpd.Router.Spec

/-!
# What the router and the modules depend on

`root_router` decides about a request by its `url`, and a module answers by the request: the
state of the response, the descriptors and the events do not matter.

- `rootRouter_congr`: two calls with the same `url` decide the same
- `Decided`: what a call leaves in the stream, by its decision
- `moduleCb_congr`: two module events with the same request answer the same
-/

namespace Gfhttpd.Router

open Http Conf Modules

variable {Code : Type}

/-! ## The router -/

/-- The two calls decide the same about the request. -/
structure SameDecision (r r' : RouterResult) : Prop where
  fault : r.fault = r'.fault
  outcome : r.outcome = r'.outcome
  noFd : r.fd = -1 ↔ r'.fd = -1
  chain : r.fault = false → r.fd ≠ -1 → r.outcome = .module →
    r.hs.request.modulesChain = r'.hs.request.modulesChain ∧
      r.hs.request.modulesUrl = r'.hs.request.modulesUrl

theorem natCast_ne_neg_one (n : ℕ) : ¬ (n : ℤ) = -1 := by
  omega

theorem routeModule_congr (io : RouterIO Code) (rm : RouteMatch Code) (route : Route Code)
    (hs hs' : HttpStream) (w w' : World) :
    SameDecision (routeModule io rm route hs w) (routeModule io rm route hs' w') := by
  have hnone : ∀ hs hs' : HttpStream, ∀ w w' : World,
      SameDecision ⟨-1, hs, w, .module, false⟩ ⟨-1, hs', w', .module, false⟩ :=
    fun hs hs' w w' => ⟨rfl, rfl, Iff.rfl, fun _ h => absurd rfl h⟩
  -- one call of the system after the other; all of them have to go well
  simp only [routeModule, getSocketpair]
  cases io.socketpair with
  | false => exact hnone ..
  | true =>
      cases io.fcntl0 with
      | false => exact hnone ..
      | true =>
          cases io.fcntl1 with
          | false => exact hnone ..
          | true =>
              cases io.evtimerAdd with
              | false => exact hnone ..
              | true =>
                  exact ⟨rfl, rfl, iff_of_false (natCast_ne_neg_one _) (natCast_ne_neg_one _),
                    fun _ _ _ => ⟨rfl, rfl⟩⟩

theorem routeFile_congr (io : RouterIO Code) (url : Bytes) (hs hs' : HttpStream) (w w' : World) :
    SameDecision (routeFile io url hs w) (routeFile io url hs' w') := by
  cases hfile : io.openFile (url.dropWhile (· == 47)) with
  | some f =>
      simp only [routeFile, hfile]
      exact ⟨rfl, rfl, iff_of_false (natCast_ne_neg_one _) (natCast_ne_neg_one _),
        fun _ _ h => by cases h⟩
  | none =>
      -- no file: the error page
      simp only [routeFile, hfile, errorFd]
      cases io.pipe with
      | false => exact ⟨rfl, rfl, Iff.rfl, fun _ _ h => by cases h⟩
      | true =>
          cases io.errorWrite with
          | none => exact ⟨rfl, rfl, Iff.rfl, fun _ _ h => by cases h⟩
          | some n =>
              exact ⟨rfl, rfl, iff_of_false (natCast_ne_neg_one _) (natCast_ne_neg_one _),
                fun _ _ h => by cases h⟩

/-- If one of them is answered, so is the other. -/
theorem SameDecision.answered {r r' : RouterResult} (h : SameDecision r r')
    (hok : r.fault = false) (hfd : r.fd ≠ -1) : r'.fault = false ∧ r'.fd ≠ -1 :=
  ⟨h.fault.symm.trans hok, fun hneg => hfd (h.noFd.mpr hneg)⟩

/-- What `root_router` decides depends on the `url` only. -/
theorem rootRouter_congr (loop : Bool) (routes : List (Route Code)) (io : RouterIO Code)
    {hs hs' : HttpStream} (w w' : World) (hurl : hs.request.url = hs'.request.url) :
    SameDecision (rootRouter loop routes io hs w) (rootRouter loop routes io hs' w') := by
  have hfault : ∀ w w' : World, SameDecision ⟨-1, hs, w, .module, true⟩ ⟨-1, hs', w', .module, true⟩ :=
    fun w w' => ⟨rfl, rfl, Iff.rfl, fun h => by cases h⟩
  unfold rootRouter
  cases loop with
  | false => exact hfault _ _
  | true =>
      rw [hurl]
      cases hs'.request.url with
      | none => exact hfault _ _
      | some url =>
          simp only [Bool.not_true, Bool.false_eq_true, if_false]
          -- the tables are asked with the `url` alone
          split
          · split
            · exact hfault _ _
            · split
              · exact routeModule_congr io _ _ hs hs' _ _
              · exact routeFile_congr io url hs hs' _ _
          · split
            · exact routeModule_congr io _ _ hs hs' _ _
            · exact routeFile_congr io url hs hs' _ _

/-- What `root_router` leaves in the stream, by its decision. -/
inductive Decided (hs : HttpStream) (w : World) (r : RouterResult) : Prop
  | nothing (hnone : r.fault = true ∨ r.fd = -1) (hpending : r.world.pending = w.pending)
  | module (hok : r.fault = false) (hfd : r.fd ≠ -1) (houtcome : r.outcome = .module)
      (hopen : ∃ fd, r.world.fds[r.fd.toNat]? = some fd)
      (hev : r.hs.moduleCbEv = some w.nextEv) (hnew : w.nextEv ∈ r.world.pending)
      (hfreed : r.world.freed = w.freed)
      (hrequest : r.hs.request = { hs.request with
        modulesChain := r.hs.request.modulesChain, modulesUrl := r.hs.request.modulesUrl })
      (hresponse : ∃ fd, r.hs.response = { hs.response with fd := fd })
  | file (hok : r.fault = false) (hfd : r.fd ≠ -1) (size : ℤ) (houtcome : r.outcome = .file size)
      (hopen : ∃ fd, r.world.fds[r.fd.toNat]? = some fd)
      (hpending : r.world.pending = w.pending)
      (hresponse : r.hs.response =
        { hs.response with contentLenght := toSizeT (wrap32 size) })
  | notFound (hok : r.fault = false) (hfd : r.fd ≠ -1) (n : ℕ) (houtcome : r.outcome = .notFound n)
      (hopen : ∃ fd, r.world.fds[r.fd.toNat]? = some fd) (hn : n ≤ ERROR_HTML.length)
      (hpending : r.world.pending = w.pending)
      (hresponse : r.hs.response =
        { hs.response with contentLenght := toSizeT n, httpStatus := some (ascii "404") })

/-- What is left for a request that is answered. -/
theorem Decided.answered {hs : HttpStream} {w : World} {r : RouterResult} (h : Decided hs w r)
    (hok : r.fault = false) (hfd : r.fd ≠ -1) : (∃ fd, r.world.fds[r.fd.toNat]? = some fd) ∧
      match r.outcome with
      | .module => r.hs.moduleCbEv = some w.nextEv ∧ w.nextEv ∈ r.world.pending ∧
          r.world.freed = w.freed ∧
          r.hs.request = { hs.request with
            modulesChain := r.hs.request.modulesChain, modulesUrl := r.hs.request.modulesUrl } ∧
          ∃ fd, r.hs.response = { hs.response with fd := fd }
      | .file size => r.world.pending = w.pending ∧
          r.hs.response = { hs.response with contentLenght := toSizeT (wrap32 size) }
      | .notFound n => n ≤ ERROR_HTML.length ∧ r.world.pending = w.pending ∧
          r.hs.response =
            { hs.response with contentLenght := toSizeT n, httpStatus := some (ascii "404") } := by
  cases h with
  | nothing hnone =>
      rcases hnone with hfault | hneg
      · cases hok.symm.trans hfault
      · exact absurd hneg hfd
  | module _ _ houtcome hopen hev hnew hfreed hrequest hresponse =>
      rw [houtcome]
      exact ⟨hopen, hev, hnew, hfreed, hrequest, hresponse⟩
  | file _ _ size houtcome hopen hpending hresponse =>
      rw [houtcome]
      exact ⟨hopen, hpending, hresponse⟩
  | notFound _ _ n houtcome hopen hn hpending hresponse =>
      rw [houtcome]
      exact ⟨hopen, hn, hpending, hresponse⟩

theorem decided_of_cases {io : RouterIO Code} {hs : HttpStream} {w : World} {r : RouterResult}
    (h : RouterCases io hs w r) : Decided hs w r := by
  cases h with
  | fault es hes => exact .nothing (Or.inl rfl) rfl
  | noSocket es hes new => exact .nothing (Or.inr rfl) rfl
  | noTimer es hes chain url => exact .nothing (Or.inr rfl) rfl
  | noError es hes new n => exact .nothing (Or.inr rfl) rfl
  | module es hes chain url =>
      refine .module rfl (natCast_ne_neg_one _) rfl
        ⟨⟨.socket, [], 0, some (w.fds.length + 1), 0⟩, ?_⟩ rfl ?_ (World.freed_addEvent _ _) rfl
        ⟨_, rfl⟩
      · rw [World.fds_addEvent]
        simp [socketEnds]
      · exact (World.mem_pending_addEvent _ _ _).mpr (Or.inr rfl)
  | file es hes f =>
      refine .file rfl (natCast_ne_neg_one _) f.size rfl ⟨⟨f.kind, f.content, 0, none, 0⟩, ?_⟩
        rfl rfl
      simp
  | notFound es hes page hpage =>
      refine .notFound rfl (natCast_ne_neg_one _) page.length rfl ⟨⟨.pipe, page, 0, none, 0⟩, ?_⟩
        hpage rfl rfl
      simp [pipeEnds]

/-! ## Modules -/

/-- A handler that writes leaves the same response behind every response. -/
theorem runHandler_congr (ops : List HandlerOp) {rw rw' : ResponseWriter} (hs hs' : HttpStream)
    (w w' : World) (hrw : rw.status = rw'.status)
    (hhs : ops.any HandlerOp.isWrite = true ∨
      hs.response.httpStatus = hs'.response.httpStatus ∧
        hs.response.contentLenght = hs'.response.contentLenght) :
    (runHandler ops rw hs w).2.1.response.httpStatus =
        (runHandler ops rw' hs' w').2.1.response.httpStatus ∧
      (runHandler ops rw hs w).2.1.response.contentLenght =
        (runHandler ops rw' hs' w').2.1.response.contentLenght := by
  induction ops generalizing rw rw' hs hs' w w' with
  | nil => exact hhs.resolve_left (by simp)
  | cons op ops ih =>
      cases op with
      | writeHeader code =>
          apply ih
          · unfold ResponseWriter.writeHeader
            rw [hrw]
            split <;> simp [hrw]
          · simpa [HandlerOp.isWrite] using hhs
      | write data accepted =>
          have hstatus : (rw.write hs w data accepted).1.status =
              (rw'.write hs' w' data accepted).1.status := by
            simp only [ResponseWriter.write, ResponseWriter.writeHeaderNow]
            split <;> split <;> exact hrw
          -- from here on both responses have what this call has set
          apply ih _ _ _ _ hstatus
          refine Or.inr ⟨?_, rfl⟩
          show some (formatInt rw.status) = some (formatInt rw'.status)
          rw [hrw]

/-- The answer of a module depends on the request only. -/
theorem goGolang_congr (io : ModuleIO) {hs hs' : HttpStream} (module : Bytes) (w w' : World)
    (h : hs.request = hs'.request) :
    (goGolang io hs module w).answer = (goGolang io hs' module w').answer ∧
      (goGolang io hs module w).ret = (goGolang io hs' module w').ret ∧
      (goGolang io hs module w).fault = (goGolang io hs' module w').fault := by
  unfold goGolang
  rw [h]
  simp only
  split
  · exact ⟨rfl, rfl, rfl⟩
  · split
    · exact ⟨rfl, rfl, rfl⟩
    · next handler _ =>
        refine ⟨?_, rfl, rfl⟩
        -- a handler that writes nothing has no answer
        by_cases hany : (handler (goRequest hs'.request)).any HandlerOp.isWrite = true
        · obtain ⟨hstatus, hlength⟩ :=
            runHandler_congr (handler (goRequest hs'.request)) hs hs' w w'
              (rfl : ResponseWriter.init.status = _) (Or.inl hany)
          simp only [hany, if_true, hstatus, hlength]
        · simp only [hany, Bool.false_eq_true, if_false]

/-- A module leaves the request alone. -/
theorem runModule_request (io : ModuleIO) (hs : HttpStream) (m : Module) (w : World) :
    (runModule io hs m w).hs.request = hs.request := by
  unfold runModule
  cases m.moduleType with
  | golang =>
      obtain ⟨status, length, hhs⟩ := (goGolang_frame io hs m.name w).1.stream
      simp only [hhs]
  | rust => rfl
  | unknown n => rfl

theorem runModule_congr (io : ModuleIO) {hs hs' : HttpStream} (m : Module) (w w' : World)
    (h : hs.request = hs'.request) :
    (runModule io hs m w).answer = (runModule io hs' m w').answer ∧
      (runModule io hs m w).ret = (runModule io hs' m w').ret ∧
      (runModule io hs m w).fault = (runModule io hs' m w').fault := by
  unfold runModule
  cases m.moduleType with
  | golang => exact goGolang_congr io m.name w w' h
  | rust => exact ⟨rfl, rfl, rfl⟩
  | unknown n => exact ⟨rfl, rfl, rfl⟩

theorem nextModule_answer (io : ModuleIO) (hs : HttpStream) (rest : List Module) (w : World)
    (answer : Option (Bytes × ℕ)) : (nextModule io hs rest w answer).answer = answer := by
  unfold nextModule
  split
  · rfl
  · split
    · rfl
    · cases rest with
      | nil => rfl
      | cons m rest =>
          simp only
          split <;> rfl

/-- The request behind a module that went well. -/
theorem nextModule_request {io : ModuleIO} {hs : HttpStream} {rest : List Module} {w : World}
    {answer : Option (Bytes × ℕ)} (h : (nextModule io hs rest w answer).fault = false) :
    (nextModule io hs rest w answer).hs.request =
      if rest = [] then hs.request else { hs.request with modulesChain := rest } := by
  unfold nextModule at h ⊢
  split at h
  · cases h
  · split at h
    · cases h
    · next hgiven =>
        rw [if_neg hgiven]
        cases rest with
        | nil => rfl
        | cons m rest =>
            simp only [reduceCtorEq, if_false]
            split <;> rfl

/-- What `module_cb` answers depends on the request only, and so does the request behind it. -/
theorem moduleCb_congr (io : ModuleIO) {hs hs' : HttpStream} (w w' : World)
    (h : hs.request = hs'.request) :
    (moduleCb io hs w).answer = (moduleCb io hs' w').answer ∧
      ((moduleCb io hs w).fault = false → (moduleCb io hs' w').fault = false →
        (moduleCb io hs w).hs.request = (moduleCb io hs' w').hs.request) := by
  unfold moduleCb
  rw [h]
  cases hs'.request.modulesChain with
  | nil => exact ⟨rfl, fun _ _ => h⟩
  | cons m rest =>
      obtain ⟨hanswer, hret, hfault⟩ := runModule_congr io m w w' h
      -- the two runs fail together, and only a good one moves the chain on
      have hrequest : (runModule io hs m w).hs.request = (runModule io hs' m w').hs.request := by
        rw [runModule_request, runModule_request, h]
      simp only [hret, hfault]
      split
      · exact ⟨hanswer, fun _ _ => hrequest⟩
      · split
        · exact ⟨hanswer, fun _ _ => hrequest⟩
        · rw [nextModule_answer, nextModule_answer]
          refine ⟨hanswer, fun hok hok' => ?_⟩
          rw [nextModule_request hok, nextModule_request hok', hrequest]

/-- The first module of the chain is one that can answer. -/
def GoFirst (hs : HttpStream) : Prop :=
  ∃ m ∈ hs.request.modulesChain.head?, m.moduleType = .golang

/-- Only a Go module does anything. -/
theorem moduleCb_idle (io : ModuleIO) {hs : HttpStream} (w : World) (h : ¬ GoFirst hs) :
    (moduleCb io hs w).hs = hs ∧ (moduleCb io hs w).answer = none := by
  unfold moduleCb
  cases hchain : hs.request.modulesChain with
  | nil => exact ⟨rfl, rfl⟩
  | cons m rest =>
      cases htype : m.moduleType with
      | golang =>
          refine absurd ⟨m, ?_, htype⟩ h
          rw [hchain]
          rfl
      | rust => simp [runModule, htype]
      | unknown n => simp [runModule, htype]

/-- A module that answers every request with one byte. -/
def answersOne : ModuleIO where
  newRequest _ _ := true
  golangModules _ := some fun _ => [.write [0] 0]
  evtimerAdd := true

/-- It answers, if the chain starts with a Go module. -/
theorem moduleCb_answersOne {hs : HttpStream} {w : World} {ev : ℕ} (hgo : GoFirst hs)
    (hev : hs.moduleCbEv = some ev) (hfreed : ev ∉ w.freed) :
    (moduleCb answersOne hs w).fault = false ∧
      ∃ status, (moduleCb answersOne hs w).answer = some (status, 1) := by
  obtain ⟨m, hm, htype⟩ := hgo
  cases hchain : hs.request.modulesChain with
  | nil => simp [hchain] at hm
  | cons m' rest =>
      obtain rfl : m' = m := by simpa [hchain] using hm
      have hrun : runModule answersOne hs m' w = goGolang answersOne hs m'.name w := by
        simp only [runModule, htype]
      obtain ⟨hans, hworld⟩ := goGolang_frame answersOne hs m'.name w
      obtain ⟨status, length, hhs⟩ := hans.stream
      -- the run gives no event back, so `module_cb` can
      have hgiven : (goGolang answersOne hs m'.name w).world.freed = w.freed := by
        rcases hworld with hworld | ⟨w', hgrows, hworld⟩
        · rw [hworld]
        · rw [hworld, hgrows.eq]
          rfl
      have hev' : (goGolang answersOne hs m'.name w).hs.moduleCbEv = some ev := by
        rw [hhs]
        exact hev
      have hok : (goGolang answersOne hs m'.name w).fault = false := rfl
      have hret : ¬ (goGolang answersOne hs m'.name w).ret < 0 := Int.lt_irrefl 0
      have hnext : moduleCb answersOne hs w = nextModule answersOne
          (goGolang answersOne hs m'.name w).hs rest (goGolang answersOne hs m'.name w).world
          (goGolang answersOne hs m'.name w).answer := by
        simp only [moduleCb, hchain, hrun, hok, Bool.false_eq_true, if_false, hret]
      rw [hnext, nextModule_answer]
      refine ⟨?_, _, rfl⟩
      simp only [nextModule, hev', hgiven, hfreed, if_false]
      cases rest with
      | nil => rfl
      | cons m rest => rfl

end Gfhttpd.Router
