import Gfhttpd.Lib.Transition
import Gfhttpd.Modules.Body
import Gfhttpd.Router.ModuleCb
import Gfhttpd.Router.Spec

/-!
# Running a chain of modules (`main/router/module_cb.c`, `modules/golang/bridge.go`)

A route has a chain of modules, and each run of `module_cb` calls the next one.  All of them write
to one descriptor, and `Go_golang` closes it when it returns.

- `chainMachine`: the module events of one request, as long as it has the `http_stream` for itself
- `ChainAt` says what holds between two runs, for the modules called so far
- `chainStep_spec`: a run calls the next module, and leaves an event for the rest of the chain
-/

namespace Gfhttpd.Router

open Http Conf Modules Transition

variable {Code : Type}

/-! ## Runs of a chain -/

/-- The stream and the world between two runs of `module_cb`. -/
structure ChainState where
  hs : HttpStream
  world : World
  /-- the modules called so far; the response descriptor was open or not -/
  calls : List (Module × Bool)
  fault : Bool

/-- The response descriptor is open. -/
def fdOpen (hs : HttpStream) (w : World) : Bool :=
  (w.fds[hs.response.fd]?.map Fd.closes) == some 0

/-- The event in `hs->module_cb_ev` runs, if it is pending. -/
def chainStep (s : ChainState) (io : ModuleIO) : Option ChainState :=
  match s.hs.moduleCbEv with
  | none => none
  | some ev =>
      if s.fault || !s.world.pending.contains ev then none
      else
        -- `module_cb` calls the first module, and goes on in the chain behind the call
        let call := s.hs.request.modulesChain.head?.map fun m => (m, fdOpen s.hs s.world)
        let r := moduleCb io s.hs (s.world.delEvent ev)
        some ⟨r.hs, r.world, s.calls ++ call.toList, r.fault⟩

/-- The runs of `hs->module_cb_ev` for one request: no older module event of the `http_stream` is
pending, and no other request comes in between. -/
def chainMachine : Machine ChainState ModuleIO := ⟨chainStep⟩

/-- The state `root_router` leaves. -/
def RouterResult.chainState (r : RouterResult) : ChainState :=
  ⟨r.hs, r.world, [], false⟩

/-- No event of the chain is left. -/
def ChainState.Finished (s : ChainState) : Prop :=
  ∀ ev ∈ s.hs.moduleCbEv, ev ∉ s.world.pending

instance (s : ChainState) : Decidable s.Finished :=
  inferInstanceAs (Decidable (∀ ev ∈ s.hs.moduleCbEv, ev ∉ s.world.pending))

/-- Every module that a run calls returns success for this request. -/
def Succeeds (request : GoRequest) (chain : List Module) (io : ModuleIO) : Prop :=
  io.newRequest request.method request.url = true ∧
    ∀ m ∈ chain, (io.golangModules m.name).isSome

/-! ## Event numbers -/

/-- The next event's number is not in use. -/
structure FreshEvents (w : World) : Prop where
  pending : ∀ ev ∈ w.pending, ev < w.nextEv
  freed : ∀ ev ∈ w.freed, ev < w.nextEv

namespace FreshEvents

theorem of_same {w w' : World} (h : FreshEvents w) (hpending : w'.pending = w.pending)
    (hfreed : w'.freed = w.freed) (hnext : w'.nextEv = w.nextEv) : FreshEvents w' := by
  constructor
  · rw [hpending, hnext]
    exact h.pending
  · rw [hfreed, hnext]
    exact h.freed

theorem delEvent {w : World} (h : FreshEvents w) (ev : ℕ) : FreshEvents (w.delEvent ev) where
  pending x hx := h.pending x (List.mem_filter.mp hx).1
  freed := h.freed

theorem freeEvent {w : World} (h : FreshEvents w) {ev : ℕ} (hev : ev < w.nextEv) :
    FreshEvents (w.freeEvent ev) where
  pending x hx := h.pending x (List.mem_filter.mp hx).1
  freed x hx := by
    rcases List.mem_append.mp hx with hold | hnew
    · exact h.freed x hold
    · rw [List.mem_singleton.mp hnew]
      exact hev

theorem newEvent {w : World} (h : FreshEvents w) : FreshEvents w.newEvent where
  pending x hx := Nat.lt_succ_of_lt (h.pending x hx)
  freed x hx := Nat.lt_succ_of_lt (h.freed x hx)

theorem addEvent {w : World} (h : FreshEvents w) {ev : ℕ} (hev : ev < w.nextEv) :
    FreshEvents (w.addEvent ev) where
  pending x hx := by
    rw [World.nextEv_addEvent]
    rcases (World.mem_pending_addEvent w ev x).mp hx with hold | rfl
    · exact h.pending x hold
    · exact hev
  freed x hx := by
    rw [World.freed_addEvent] at hx
    rw [World.nextEv_addEvent]
    exact h.freed x hx

end FreshEvents

/-! ## One run -/

/-- `Go_golang` on success: the handler writes, and the descriptor is closed. -/
theorem goGolang_success {io : ModuleIO} {hs : HttpStream} (module : Bytes) (w : World)
    (hrequest : io.newRequest (goRequest hs.request).method (goRequest hs.request).url = true)
    (hmodule : (io.golangModules module).isSome) :
    (goGolang io hs module w).ret = 0 ∧ (goGolang io hs module w).fault = false ∧
      ∃ w', w.Grows w' ∧ (goGolang io hs module w).world = w'.closeFd hs.response.fd := by
  obtain ⟨handler, hhandler⟩ := Option.isSome_iff_exists.mp hmodule
  obtain ⟨⟨status, length, hhs⟩, hgrows⟩ :=
    runHandler_frame (handler (goRequest hs.request)) .init hs w
  unfold goGolang
  simp only [hrequest, hhandler, Bool.not_true, Bool.false_eq_true, if_false]
  generalize runHandler (handler (goRequest hs.request)) .init hs w = r at hhs hgrows ⊢
  obtain ⟨rw, hs', w'⟩ := r
  refine ⟨trivial, trivial, w', hgrows, ?_⟩
  simp only at hhs
  rw [hhs]

/-- The calls of a chain's first modules: the descriptor is open for the first one only. -/
def callsOf : List Module → List (Module × Bool)
  | [] => []
  | m :: ms => (m, true) :: ms.map fun m => (m, false)

theorem callsOf_append (ms : List Module) (m : Module) :
    callsOf (ms ++ [m]) = callsOf ms ++ [(m, decide (ms = []))] := by
  cases ms with
  | nil => rfl
  | cons m' ms => simp [callsOf]

theorem callsOf_prefix (ms left : List Module) : callsOf ms <+: callsOf (ms ++ left) := by
  cases ms with
  | nil => exact List.nil_prefix
  | cons m ms =>
      refine ⟨left.map fun m => (m, false), ?_⟩
      rw [List.cons_append, callsOf, callsOf, List.map_append, List.cons_append]

theorem length_callsOf (ms : List Module) : (callsOf ms).length = ms.length := by
  cases ms with
  | nil => rfl
  | cons m ms => rw [callsOf, List.length_cons, List.length_map, List.length_cons]

/-- What holds between two runs, when the modules in `before` were called. -/
structure ChainAt (d : ℕ) (request : GoRequest) (before : List Module) (s : ChainState) : Prop where
  alive : s.fault = false
  calls : s.calls = callsOf before
  fd : s.hs.response.fd = d
  closes : ∃ own, s.world.fds[d]? = some own ∧ own.closes = before.length
  request : goRequest s.hs.request = request
  fresh : FreshEvents s.world

/-- The rest of the chain waits for its event. -/
structure Waiting (rest : List Module) (s : ChainState) : Prop where
  chain : s.hs.request.modulesChain = rest
  event : ∃ ev, s.hs.moduleCbEv = some ev ∧ ev ∈ s.world.pending ∧ ev ∉ s.world.freed

theorem fdOpen_eq {d : ℕ} {request : GoRequest} {before : List Module} {s : ChainState}
    (h : ChainAt d request before s) : fdOpen s.hs s.world = decide (before = []) := by
  obtain ⟨own, hown, hcloses⟩ := h.closes
  unfold fdOpen
  rw [h.fd, hown, Option.map_some, hcloses]
  cases before <;> simp

/-- What `Go_golang` has left when `module_cb` goes on with the rest of the chain: the event it runs
for, and a descriptor that was closed `n` times. -/
structure Called (d : ℕ) (request : GoRequest) (ev n : ℕ) (g : GoResult) : Prop where
  event : g.hs.moduleCbEv = some ev
  fd : g.hs.response.fd = d
  request : goRequest g.hs.request = request
  closes : ∃ own, g.world.fds[d]? = some own ∧ own.closes = n
  fresh : FreshEvents g.world
  used : ev < g.world.nextEv
  given : ev ∉ g.world.freed

/-- A module that is called closes the descriptor once more. -/
theorem ChainAt.called {d : ℕ} {request : GoRequest} {before : List Module} {s : ChainState}
    {ev : ℕ} {io : ModuleIO} {module : Bytes} (h : ChainAt d request before s)
    (hev : s.hs.moduleCbEv = some ev) (hpending : ev ∈ s.world.pending)
    (hfreed : ev ∉ s.world.freed)
    (hrequest : io.newRequest request.method request.url = true)
    (hmodule : (io.golangModules module).isSome) :
    Called d request ev (before.length + 1) (goGolang io s.hs module (s.world.delEvent ev)) := by
  obtain ⟨own, hown, hcloses⟩ := h.closes
  obtain ⟨-, -, w', hgrows, hworld⟩ := goGolang_success module (s.world.delEvent ev)
    (h.request.symm ▸ hrequest) hmodule
  obtain ⟨hans, -⟩ := goGolang_frame io s.hs module (s.world.delEvent ev)
  obtain ⟨status, length, hhs⟩ := hans.stream
  generalize goGolang io s.hs module (s.world.delEvent ev) = g at hworld hhs ⊢
  have hgfreed : g.world.freed = s.world.freed := by
    rw [hworld, hgrows.eq]
    rfl
  constructor
  · rw [hhs]
    exact hev
  · rw [hhs]
    exact h.fd
  · rw [hhs]
    exact h.request
  -- the handler may have written to the descriptor; the `defer` of `Go_golang` closes it
  · obtain ⟨b, hb⟩ := hgrows.fds d own hown
    refine ⟨{ own with content := own.content ++ b, closes := own.closes + 1 }, ?_, ?_⟩
    · rw [hworld, h.fd]
      simp [World.closeFd, World.modifyFd, hb]
    · rw [hcloses]
  · apply (h.fresh.delEvent ev).of_same
    · rw [hworld, hgrows.eq]
      rfl
    · exact hgfreed
    · rw [hworld, hgrows.eq]
      rfl
  · rw [hworld, hgrows.eq]
    exact h.fresh.pending ev hpending
  · rw [hgfreed]
    exact hfreed

/-- A run of `module_cb` calls the first module and goes on with the rest. -/
theorem chainStep_called {d : ℕ} {request : GoRequest} {before rest : List Module} {m : Module}
    {s s' : ChainState} {io : ModuleIO} {ev : ℕ} (h : ChainAt d request before s)
    (hchain : s.hs.request.modulesChain = m :: rest) (hev : s.hs.moduleCbEv = some ev)
    (hpending : ev ∈ s.world.pending) (hgolang : m.moduleType = .golang)
    (hrequest : io.newRequest request.method request.url = true)
    (hmodule : (io.golangModules m.name).isSome) (hstep : chainStep s io = some s') :
    let g := goGolang io s.hs m.name (s.world.delEvent ev)
    let r := nextModule io g.hs rest g.world g.answer
    s' = ⟨r.hs, r.world, callsOf (before ++ [m]), r.fault⟩ := by
  obtain ⟨hret, hfault, -⟩ := goGolang_success m.name (s.world.delEvent ev)
    (h.request.symm ▸ hrequest) hmodule
  -- a `GOLANG` module is `Go_golang`, and its answer 0 is not an error
  have hcb : moduleCb io s.hs (s.world.delEvent ev) =
      nextModule io (goGolang io s.hs m.name (s.world.delEvent ev)).hs rest
        (goGolang io s.hs m.name (s.world.delEvent ev)).world
        (goGolang io s.hs m.name (s.world.delEvent ev)).answer := by
    have hrun : runModule io s.hs m (s.world.delEvent ev) =
        goGolang io s.hs m.name (s.world.delEvent ev) := by
      simp only [runModule, hgolang]
    have hnonneg : ¬ (0 : ℤ) < 0 := Int.lt_irrefl 0
    simp only [moduleCb, hchain, hrun, hfault, hret, Bool.false_eq_true, if_false, hnonneg]
  have hcontains : s.world.pending.contains ev = true := List.contains_iff_mem.mpr hpending
  simp only [chainStep, hev, h.alive, hcontains, hchain, Bool.not_true, Bool.or_self,
    Bool.false_eq_true, if_false, Option.some.injEq] at hstep
  dsimp only
  rw [← hstep, ← hcb, callsOf_append, h.calls, fdOpen_eq h]
  rfl

/-- A run of `module_cb` calls the first module of the rest; another run follows if the chain goes
on and its event can be added. -/
theorem chainStep_spec {d : ℕ} {request : GoRequest} {before rest : List Module} {m : Module}
    {s s' : ChainState} {io : ModuleIO} (h : ChainAt d request before s)
    (hwait : Waiting (m :: rest) s) (hgolang : m.moduleType = .golang)
    (hrequest : io.newRequest request.method request.url = true)
    (hmodule : (io.golangModules m.name).isSome) (hstep : chainStep s io = some s') :
    ChainAt d request (before ++ [m]) s' ∧
      (Waiting rest s' ∧ rest ≠ [] ∨ s'.Finished ∧ (rest ≠ [] → io.evtimerAdd = false)) := by
  obtain ⟨ev, hev, hpending, hfreed⟩ := hwait.event
  have hcalled := h.called hev hpending hfreed hrequest hmodule
  have hstep' := chainStep_called h hwait.chain hev hpending hgolang hrequest hmodule hstep
  generalize goGolang io s.hs m.name (s.world.delEvent ev) = g at hcalled hstep'
  obtain ⟨hgev, hgfd, hgrequest, hgcloses, hgfresh, hlt, hgiven⟩ := hcalled
  have hlength : (before ++ [m]).length = before.length + 1 := List.length_append
  rw [← hlength] at hgcloses
  -- the event is given back before the chain goes on
  have hfree : FreshEvents (g.world.freeEvent ev) := hgfresh.freeEvent hlt
  have hdeleted : ev ∉ (g.world.freeEvent ev).pending := by
    intro hmem
    simpa using (List.mem_filter.mp hmem).2
  cases rest with
  | nil =>
      -- the chain is over
      simp only [nextModule, hgev, hgiven, if_false] at hstep'
      subst hstep'
      refine ⟨⟨rfl, rfl, hgfd, hgcloses, hgrequest, hfree⟩, Or.inr ⟨?_, fun hne => absurd rfl hne⟩⟩
      intro x hx
      obtain rfl := Option.some.inj (hgev.symm.trans hx)
      exact hdeleted
  | cons next rest =>
      simp only [nextModule, hgev, hgiven, if_false] at hstep'
      cases hadd : io.evtimerAdd with
      | true =>
          rw [hadd, if_pos rfl] at hstep'
          subst hstep'
          refine ⟨⟨rfl, rfl, hgfd, ?_, hgrequest, hfree.newEvent.addEvent (Nat.lt_succ_self _)⟩,
            Or.inl ⟨⟨rfl, g.world.nextEv, rfl, ?_, ?_⟩, List.cons_ne_nil _ _⟩⟩
          · simpa using hgcloses
          · exact (World.mem_pending_addEvent _ _ _).mpr (Or.inr rfl)
          · rw [World.freed_addEvent]
            exact fun hmem => Nat.lt_irrefl _ (hfree.freed _ hmem)
      | false =>
          rw [hadd] at hstep'
          subst hstep'
          refine ⟨⟨rfl, rfl, hgfd, hgcloses, hgrequest, hfree.newEvent⟩, Or.inr ⟨?_, fun _ => rfl⟩⟩
          intro x hx
          obtain rfl : g.world.nextEv = x := Option.some.inj hx
          exact fun hmem => Nat.lt_irrefl _ (hfree.pending _ hmem)

/-! ## The first run -/

/-- The state that `root_router` leaves for a route. -/
theorem chainAt_rootRouter {loop : Bool} {routes : List (Route Code)} {io : RouterIO Code}
    {hs : HttpStream} {w : World} {r : RouterResult} (hr : r = rootRouter loop routes io hs w)
    (hok : r.fault = false) (hfd : r.fd ≠ -1) (houtcome : r.outcome = .module)
    (hfresh : FreshEvents w) :
    ChainAt r.hs.response.fd (goRequest r.hs.request) [] r.chainState ∧
      Waiting r.hs.request.modulesChain r.chainState := by
  have hcases := rootRouter_cases loop routes io hs w
  rw [← hr] at hcases
  clear hr
  cases hcases with
  | fault es hes => cases hok
  | noSocket es hes new => exact absurd rfl hfd
  | noTimer es hes chain url => exact absurd rfl hfd
  | file es hes f => cases houtcome
  | noError es hes new n => cases houtcome
  | notFound es hes page hpage => cases houtcome
  | module es hes chain url =>
      -- the new event is none of those that were given back
      have hfresh' : FreshEvents { w with
          fds := w.fds ++ socketEnds w, nextEv := w.nextEv + 1, log := w.log ++ es } :=
        hfresh.newEvent.of_same rfl rfl rfl
      constructor
      · refine ⟨rfl, rfl, rfl, ⟨⟨.socket, [], 0, some w.fds.length, 0⟩, ?_, rfl⟩, rfl,
          hfresh'.addEvent (Nat.lt_succ_self _)⟩
        show (World.addEvent _ _).fds[w.fds.length + 1]? = _
        rw [World.fds_addEvent]
        simp [socketEnds]
      · refine ⟨rfl, w.nextEv, rfl, ?_, ?_⟩
        · exact (World.mem_pending_addEvent _ _ _).mpr (Or.inr rfl)
        · show w.nextEv ∉ (World.addEvent _ _).freed
          rw [World.freed_addEvent]
          exact fun hmem => Nat.lt_irrefl _ (hfresh.freed _ hmem)

end Gfhttpd.Router
