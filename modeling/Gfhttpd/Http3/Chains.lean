import Gfhttpd.Http3.WellFormed
import Gfhttpd.Router.Chain

/-!
# Module chains on a connection (`main/router/module_cb.c`, `main/http3/event_cb.c`)

All requests of a connection share one `http_stream`, so every module event that is pending runs
`module_cb` on the chain, the event and the descriptor that the last request for a route has left there.

- `Undisturbed`: the events of a run that leave a chain to its own module events
- `Spares` says what such an event leaves alone, when it runs no module
- `Running` says what holds between two events, for the modules called so far
- `chain_run`: the calls of a run, for a chain of any length
- `chain_served_iff`: only a chain of one module is served as it should, and only with no older event
-/

namespace Gfhttpd.Http3

open Http Conf Router Modules Transition

variable {Code : Type}

/-! ## The calls of a run -/

/-- The module that an event calls; the response descriptor is open or not. -/
def calledBy (c : Conn) : ConnEvent Code → Option (Module × Bool)
  | .moduleTick _ _ => c.hs.request.modulesChain.head?.map fun m => (m, fdOpen c.hs c.world)
  | _ => none

/-- The modules that a run calls. -/
def moduleCalls (routes : List (Route Code)) (c : Conn) (es : List (ConnEvent Code)) :
    List (Module × Bool) :=
  (connMachine routes).collect calledBy c es

/-- A request is for no route, and a module that is called returns success. -/
def Undisturbed (routes : List (Route Code)) (c : Conn) : ConnEvent Code → Prop
  | .headers streamId block io => (routed routes io c streamId block).outcome ≠ .module
  | .moduleTick _ io => Succeeds (goRequest c.hs.request) c.hs.request.modulesChain io
  | _ => True

/-- The event of the rest of the chain can be added. -/
def Adds : ConnEvent Code → Prop
  | .moduleTick _ io => io.evtimerAdd = true
  | _ => True

/-- So far, the modules were called in the order of the chain and with the descriptor open, which is
closed once when all of them were; and with no module event pending all of them were. -/
structure ChainServed (chain : List Module) (fd : ℕ) (calls : List (Module × Bool)) (c : Conn) :
    Prop where
  inOrder : calls <+: chain.map fun m => (m, true)
  closes : (c.world.fds[fd]?.map Fd.closes) = some (if calls.length = chain.length then 1 else 0)
  complete : c.world.pending = [] → calls.length = chain.length

/-! ## Events that run no module -/

/-- What the event leaves alone: the chain, its event and its descriptor. -/
structure Spares (c c' : Conn) : Prop where
  event : c'.hs.moduleCbEv = c.hs.moduleCbEv
  chain : c'.hs.request.modulesChain = c.hs.request.modulesChain
  fd : c'.hs.response.fd = c.hs.response.fd
  pending : c'.world.pending = c.world.pending
  freed : c'.world.freed = c.world.freed
  nextEv : c'.world.nextEv = c.world.nextEv
  /-- no descriptor goes away, and one that belongs to no response is left alone -/
  fds : ∀ (n : ℕ) (own : Fd), c.world.fds[n]? = some own → (∀ fw ∈ c.writers, fw.fd ≠ n) →
    c'.world.fds[n]? = some own ∧ ∀ fw ∈ c'.writers, fw.fd ≠ n

/-- A write event. -/
theorem Spares.writeBody {c c' : Conn} {i : ℕ} {fw : FutureWrite} {io : TickIO}
    (h : writeBody c i fw io = some c') (hfw : ∃ old ∈ c.writers, old.fd = fw.fd) : Spares c c' := by
  have hframe := writeBody_frame h
  obtain ⟨fd, r, timer, pending, -, -, hrun, rfl⟩ := writeBody_cases h
  obtain ⟨-, hfd, -⟩ := hrun.frame
  refine ⟨rfl, rfl, rfl, hframe.pending, hframe.freed, hframe.nextEv, fun n own hown hothers => ?_⟩
  obtain ⟨old, hold, hsame⟩ := hfw
  have hne : n ≠ r.fw.fd := by
    rw [hfd, ← hsame]
    exact (hothers old hold).symm
  refine ⟨(afterLoop_fds_of_ne i timer pending hne).trans hown, fun fw' hfw' => ?_⟩
  rcases mem_modify hfw' with hmem | rfl
  · exact hothers fw' hmem
  · rw [LoopResult.writer_fd]
    exact hne.symm

theorem Spares.writeTick {c c' : Conn} {i : ℕ} {fw : FutureWrite} {io : TickIO}
    (h : TickCases c i fw io c') (hfw : fw ∈ c.writers) : Spares c c' := by
  -- only whether the event is scheduled changes
  have hreschedule : ∀ scheduled,
      Spares c (c.modifyWriter i fun _ => { fw with scheduled := scheduled }) := by
    intro scheduled
    refine ⟨rfl, rfl, rfl, rfl, rfl, rfl, fun n own hown hothers => ⟨hown, fun fw' hfw' => ?_⟩⟩
    rcases mem_modify hfw' with hmem | rfl
    · exact hothers fw' hmem
    · exact hothers fw hfw
  cases h with
  | closed hclosed => exact hreschedule false
  | deferred hopen hunsent hlen => exact hreschedule true
  | noHeaders hopen hunsent hlen hnone =>
      exact ⟨rfl, rfl, rfl, rfl, rfl, rfl, fun n own hown hothers => ⟨hown, hothers⟩⟩
  | next hopen hsent hbody => exact .writeBody hbody ⟨fw, hfw, rfl⟩
  | first hopen hunsent hlen hheaders hbody =>
      obtain ⟨hevent, hchain, hfd, hpending, hfreed, hnext, hfds⟩ :=
        Spares.writeBody hbody ⟨fw, hfw, rfl⟩
      exact ⟨hevent, hchain, hfd, hpending, hfreed, hnext, hfds⟩

theorem prepareRequest_chain (block : List (Bytes × Bytes)) (hs : HttpStream) :
    (prepareRequest block hs).request.modulesChain = hs.request.modulesChain := by
  rw [prepareRequest_request, forEachHeaderLoop_request]

/-- A request that is for no route. -/
theorem Spares.headers {routes : List (Route Code)} {io : RouterIO Code} {c : Conn} {streamId : ℤ}
    {block : List (Bytes × Bytes)}
    (hother : (routed routes io c streamId block).outcome ≠ .module) :
    Spares c (onHeaders routes io c streamId block) := by
  have hcases := rootRouter_cases (prepareRequest block c.hs).evbase routes io
    (prepareRequest block c.hs) (routerWorld c streamId block)
  have hchain := prepareRequest_chain block c.hs
  obtain ⟨request, hframe⟩ := prepareRequest_frame block c.hs
  have hevent : (prepareRequest block c.hs).moduleCbEv = c.hs.moduleCbEv := by rw [hframe]
  have hfd : (prepareRequest block c.hs).response.fd = c.hs.response.fd := by rw [hframe]
  -- a new response has a new descriptor
  have hnew : ∀ (new : List Fd) (n : ℕ) (own : Fd), c.world.fds[n]? = some own →
      (∀ fw ∈ c.writers, fw.fd ≠ n) → (c.world.fds ++ new)[n]? = some own ∧
        ∀ fw ∈ c.writers ++ [newWriter streamId c.world.fds.length], fw.fd ≠ n := by
    intro new n own hown hothers
    have hlt := (List.getElem?_eq_some_iff.mp hown).1
    refine ⟨by rw [List.getElem?_append_left hlt, hown], fun fw hfw => ?_⟩
    rcases List.mem_append.mp hfw with hold | hadded
    · exact hothers fw hold
    · obtain rfl := List.mem_singleton.mp hadded
      exact hlt.ne'
  show Spares c (onRouted c streamId (routed routes io c streamId block))
  change RouterCases io (prepareRequest block c.hs) (routerWorld c streamId block)
    (routed routes io c streamId block) at hcases
  generalize routed routes io c streamId block = r at hcases hother ⊢
  cases hcases with
  | fault | noSocket | noTimer | module => exact absurd rfl hother
  | file es hes f => exact ⟨hevent, hchain, hfd, rfl, rfl, rfl, hnew _⟩
  | notFound es hes page hpage => exact ⟨hevent, hchain, hfd, rfl, rfl, rfl, hnew _⟩
  | noError es hes new n =>
      exact ⟨hevent, hchain, hfd, rfl, rfl, rfl, fun n own hown hothers =>
        ⟨(hnew new n own hown hothers).1, hothers⟩⟩

/-- An event either runs a module, or spares the chain. -/
theorem undisturbed_cases {routes : List (Route Code)} {c c' : Conn} {e : ConnEvent Code}
    (hundisturbed : Undisturbed routes c e) (hstep : connStep routes c e = some c') :
    (∃ ev io, e = .moduleTick ev io) ∨ Spares c c' ∧ calledBy c e = none := by
  cases e with
  | moduleTick ev io => exact Or.inl ⟨ev, io, rfl⟩
  | headers streamId block io =>
      simp only [connStep, Option.ite_none_left_eq_some, Option.some.injEq] at hstep
      obtain ⟨-, rfl⟩ := hstep
      exact Or.inr ⟨.headers hundisturbed, rfl⟩
  | writeTick i io =>
      obtain ⟨-, fw, hfw, -, hcases⟩ := connStep_writeTick hstep
      exact Or.inr ⟨.writeTick hcases (List.mem_of_getElem? hfw), rfl⟩
  | close =>
      obtain rfl := connStep_close hstep
      exact Or.inr ⟨⟨rfl, rfl, rfl, rfl, rfl, rfl, fun n own hown hothers => ⟨hown, hothers⟩⟩, rfl⟩

/-! ## Runs of a chain -/

/-- The chain of the connection, as `module_cb` sees it. -/
def Conn.chainState (c : Conn) (before : List Module) : ChainState :=
  ⟨c.hs, c.world, callsOf before, false⟩

theorem moduleTick_pending (c : Conn) (ev : ℕ) (io : ModuleIO) :
    (moduleTick c ev io).world.pending = (moduleCb io c.hs (c.world.delEvent ev)).world.pending := by
  rw [moduleTick, afterModule_world]

/-- A module event calls the first module of the rest. -/
theorem calledBy_moduleTick {d : ℕ} {request : GoRequest} {before rest : List Module} {m : Module}
    {c : Conn} (hat : ChainAt d request before (c.chainState before))
    (hwait : Waiting (m :: rest) (c.chainState before)) (ev : ℕ) (io : ModuleIO) :
    calledBy c (.moduleTick ev io : ConnEvent Code) = some (m, decide (before = [])) := by
  have hchain : c.hs.request.modulesChain = m :: rest := hwait.chain
  rw [calledBy, hchain, List.head?_cons, Option.map_some]
  exact congrArg (fun b => some (m, b)) (fdOpen_eq hat)

/-- Behind it another event is pending, if the chain goes on and the event can be added. -/
theorem moduleTick_called {d ev : ℕ} {before rest : List Module} {m : Module} {c : Conn}
    {io : ModuleIO} (hat : ChainAt d (goRequest c.hs.request) before (c.chainState before))
    (hwait : Waiting (m :: rest) (c.chainState before)) (hev : c.hs.moduleCbEv = some ev)
    (hpending : ev ∈ c.world.pending) (hgolang : m.moduleType = .golang)
    (hsucceeds : Succeeds (goRequest c.hs.request) c.hs.request.modulesChain io) :
    ChainAt d (goRequest (moduleTick c ev io).hs.request) (before ++ [m])
        ((moduleTick c ev io).chainState (before ++ [m])) ∧
      (moduleTick c ev io).dead = c.dead ∧
      (Waiting rest ((moduleTick c ev io).chainState (before ++ [m])) ∧ rest ≠ [] ∨
        ((moduleTick c ev io).chainState (before ++ [m])).Finished ∧
          (rest ≠ [] → io.evtimerAdd = false)) := by
  have hchain : c.hs.request.modulesChain = m :: rest := hwait.chain
  rw [hchain] at hsucceeds
  have hcontains : c.world.pending.contains ev = true := List.contains_iff_mem.mpr hpending
  have hrun : chainStep (c.chainState before) io =
      some ⟨(moduleCb io c.hs (c.world.delEvent ev)).hs, (moduleCb io c.hs (c.world.delEvent ev)).world,
        callsOf before ++ [(m, fdOpen c.hs c.world)],
        (moduleCb io c.hs (c.world.delEvent ev)).fault⟩ := by
    simp only [chainStep, Conn.chainState, hev, hcontains, hchain, List.head?_cons, Option.map_some,
      Option.toList_some, Bool.not_true, Bool.or_self, Bool.false_eq_true, if_false]
  obtain ⟨hat', hnext⟩ := chainStep_spec hat hwait hgolang hsucceeds.1
    (hsucceeds.2 m (List.mem_cons_self ..)) hrun
  refine ⟨?_, ?_, ?_⟩
  -- behind `module_cb` the answer is logged, which the chain does not see
  · have hworld := afterModule_world c (c.eventStream ev) (moduleCb io c.hs (c.world.delEvent ev))
    have hfds : (moduleTick c ev io).world.fds = (moduleCb io c.hs (c.world.delEvent ev)).world.fds := by
      rw [moduleTick, hworld]
    refine ⟨rfl, rfl, hat'.fd, ?_, rfl, hat'.fresh.of_same (moduleTick_pending c ev io) ?_ ?_⟩
    · show ∃ own, (moduleTick c ev io).world.fds[d]? = some own ∧ _
      rw [hfds]
      exact hat'.closes
    · show (moduleTick c ev io).world.freed = _
      rw [moduleTick, hworld]
    · show (moduleTick c ev io).world.nextEv = _
      rw [moduleTick, hworld]
  · have halive : (moduleCb io c.hs (c.world.delEvent ev)).fault = false := hat'.alive
    show (c.dead || (moduleCb io c.hs (c.world.delEvent ev)).fault) = c.dead
    rw [halive, Bool.or_false]
  · have hfreed : (moduleTick c ev io).world.freed =
        (moduleCb io c.hs (c.world.delEvent ev)).world.freed := by
      rw [moduleTick, afterModule_world]
    rcases hnext with ⟨⟨hrest, x, hx, hin, hgiven⟩, hne⟩ | ⟨hdone, hfull⟩
    · refine Or.inl ⟨⟨hrest, x, hx, ?_, ?_⟩, hne⟩
      · show x ∈ (moduleTick c ev io).world.pending
        rw [moduleTick_pending]
        exact hin
      · show x ∉ (moduleTick c ev io).world.freed
        rw [hfreed]
        exact hgiven
    · refine Or.inr ⟨fun x hx hin => hdone x hx ?_, hfull⟩
      rw [← moduleTick_pending]
      exact hin

/-- What holds between two events, when the modules in `before` were called: the rest of the chain waits
for its event, or nothing is left.  There is no other module event. -/
structure Running (d : ℕ) (before rest : List Module) (c : Conn) : Prop where
  state : ChainAt d (goRequest c.hs.request) before (c.chainState before)
  next : Waiting rest (c.chainState before) ∧ rest ≠ [] ∨ c.world.pending = [] ∧ rest = []
  only : ∀ ev ∈ c.world.pending, c.hs.moduleCbEv = some ev
  apart : ∀ fw ∈ c.writers, fw.fd ≠ d

namespace Running

variable {routes : List (Route Code)} {d : ℕ} {before rest : List Module} {c c' : Conn}

/-- An event that spares the chain keeps it. -/
theorem spared (h : Running d before rest c) (hspares : Spares c c') : Running d before rest c' := by
  obtain ⟨own, hown, hcloses⟩ := h.state.closes
  obtain ⟨hown', hapart⟩ := hspares.fds d own hown h.apart
  refine ⟨⟨rfl, rfl, hspares.fd.trans h.state.fd, ⟨own, hown', hcloses⟩, rfl, ?_⟩, ?_, ?_, hapart⟩
  · exact h.state.fresh.of_same hspares.pending hspares.freed hspares.nextEv
  · rw [hspares.pending]
    refine h.next.imp_left fun ⟨⟨hchain, ev, hev, hpending, hfreed⟩, hne⟩ => ⟨⟨?_, ev, ?_, ?_, ?_⟩, hne⟩
    · exact hspares.chain.trans hchain
    · exact hspares.event.trans hev
    · exact hspares.pending.symm ▸ hpending
    · exact hspares.freed.symm ▸ hfreed
  · rw [hspares.pending, hspares.event]
    exact h.only

/-- A module event calls the first module of the rest. -/
theorem moduleTick {ev : ℕ} {io : ModuleIO} (h : Running d before rest c)
    (hgolang : ∀ m ∈ rest, m.moduleType = .golang)
    (hsucceeds : Succeeds (goRequest c.hs.request) c.hs.request.modulesChain io)
    (hadds : rest.tail = [] ∨ io.evtimerAdd = true)
    (hstep : connStep routes c (.moduleTick ev io) = some c') :
    ∃ m rest', rest = m :: rest' ∧
      calledBy c (.moduleTick ev io : ConnEvent Code) = some (m, decide (before = [])) ∧
      Running d (before ++ [m]) rest' c' := by
  obtain ⟨-, hmem, rfl⟩ := connStep_moduleTick hstep
  have hev := h.only ev hmem
  -- an event is pending, so the chain goes on
  obtain ⟨hwait, hne⟩ := h.next.resolve_right fun hover => by simp [hover.1] at hmem
  obtain ⟨m, rest, rfl⟩ := List.exists_cons_of_ne_nil hne
  obtain ⟨hat, -, hnext⟩ := moduleTick_called h.state hwait hev hmem
    (hgolang m (List.mem_cons_self ..)) hsucceeds
  have honly : ∀ x ∈ (Http3.moduleTick c ev io).world.pending,
      (Http3.moduleTick c ev io).hs.moduleCbEv = some x := by
    intro x hx
    have hframe := moduleCb_frame io c.hs (c.world.delEvent ev)
    rw [moduleTick_pending] at hx
    rcases hframe.pending x hx with hold | hnew
    · -- the only event there was has run
      obtain ⟨hold, hother⟩ := List.mem_filter.mp hold
      obtain rfl := Option.some.inj (hev.symm.trans (h.only x hold))
      simp at hother
    · exact hnew.2
  refine ⟨m, rest, rfl, calledBy_moduleTick h.state hwait ev io, hat, ?_, honly, h.apart⟩
  rcases hnext with hwait' | ⟨hdone, hfull⟩
  · exact Or.inl hwait'
  · refine Or.inr ⟨List.eq_nil_iff_forall_not_mem.mpr fun x hx => hdone x (honly x hx) hx, ?_⟩
    by_contra hleft
    rcases hadds with htail | hadd
    · exact hleft htail
    · exact Bool.noConfusion ((hfull hleft).symm.trans hadd)

end Running

/-- What a run of undisturbed events calls: a first part of the chain, all of it when no module event is
left. -/
theorem chain_run {routes : List (Route Code)} {d : ℕ} {before rest : List Module} {c c' : Conn}
    {es : List (ConnEvent Code)} (h : Running d before rest c)
    (hgolang : ∀ m ∈ rest, m.moduleType = .golang)
    (hundisturbed : (connMachine routes).Meets (Undisturbed routes) c es)
    (hadds : rest.tail = [] ∨ ∀ e ∈ es, Adds e) (hexec : (connMachine routes).exec c es = some c') :
    ∃ called left, rest = called ++ left ∧ Running d (before ++ called) left c' ∧
      callsOf before ++ moduleCalls routes c es = callsOf (before ++ called) := by
  -- on the events: a module event takes one module off the rest
  induction es generalizing before rest c with
  | nil =>
      obtain rfl : c = c' := by simpa using hexec
      exact ⟨[], rest, rfl, by rwa [List.append_nil], by rw [List.append_nil]; exact List.append_nil _⟩
  | cons e es ih =>
      obtain ⟨c₁, hstep, hrest⟩ := (connMachine routes).exec_cons_eq_some.mp hexec
      obtain ⟨hfirst, hlater⟩ := hundisturbed
      have hstep' : connStep routes c e = some c₁ := hstep
      have hcalls : moduleCalls routes c (e :: es) =
          (calledBy c e).toList ++ moduleCalls routes c₁ es := by
        rw [moduleCalls, Machine.collect, hstep]
        rfl
      rcases undisturbed_cases hfirst hstep' with ⟨ev, io, rfl⟩ | ⟨hspares, hnone⟩
      · obtain ⟨m, rest', rfl, hcalled, hrunning⟩ := h.moduleTick hgolang hfirst
          (hadds.imp_right fun hall => hall _ (List.mem_cons_self ..)) hstep'
        have hadds' : rest'.tail = [] ∨ ∀ e ∈ es, Adds e := by
          refine hadds.imp (fun htail => ?_) fun hall e' he' => hall e' (List.mem_cons_of_mem _ he')
          rw [show rest' = [] from htail]
          rfl
        obtain ⟨called, left, rfl, hend, hall⟩ := ih hrunning
          (fun m' hm' => hgolang m' (List.mem_cons_of_mem _ hm')) (hlater c₁ hstep) hadds' hrest
        refine ⟨m :: called, left, rfl, ?_, ?_⟩
        · rwa [← List.append_cons] at hend
        · rw [hcalls, hcalled, Option.toList_some, ← List.append_assoc, ← callsOf_append, hall,
            ← List.append_cons]
      · obtain ⟨called, left, rfl, hend, hall⟩ := ih (h.spared hspares) hgolang (hlater c₁ hstep)
          (hadds.imp_right fun hall e' he' => hall e' (List.mem_cons_of_mem _ he')) hrest
        refine ⟨called, left, rfl, hend, ?_⟩
        rw [hcalls, hnone]
        exact hall

/-- The calls for a chain from its start on, with what they have closed; all of it is called when no
module event is pending. -/
theorem calls_of_running {routes : List (Route Code)} {d : ℕ} {chain : List Module} {c c' : Conn}
    {es : List (ConnEvent Code)} (h : Running d [] chain c)
    (hgolang : ∀ m ∈ chain, m.moduleType = .golang)
    (hundisturbed : (connMachine routes).Meets (Undisturbed routes) c es)
    (hadds : chain.tail = [] ∨ ∀ e ∈ es, Adds e) (hexec : (connMachine routes).exec c es = some c') :
    ∃ called left, chain = called ++ left ∧ moduleCalls routes c es = callsOf called ∧
      (c'.world.fds[d]?.map Fd.closes) = some called.length ∧ (c'.world.pending = [] → left = []) := by
  obtain ⟨called, left, hchain, hend, hcalls⟩ := chain_run h hgolang hundisturbed hadds hexec
  have hcalls : moduleCalls routes c es = callsOf called := hcalls
  rw [List.nil_append] at hend
  obtain ⟨own, hown, hcloses⟩ := hend.state.closes
  have hown : c'.world.fds[d]? = some own := hown
  refine ⟨called, left, hchain, hcalls, by rw [hown, Option.map_some, hcloses], fun hnone => ?_⟩
  rcases hend.next with ⟨hwait, -⟩ | ⟨-, hover⟩
  · -- the rest would wait for an event
    obtain ⟨ev, -, hin, -⟩ := hwait.event
    have hin : ev ∈ c'.world.pending := hin
    simp [hnone] at hin
  · exact hover

/-- Nothing is called without a module event. -/
theorem moduleCalls_idle {routes : List (Route Code)} {c c' : Conn} {es : List (ConnEvent Code)}
    (hidle : c.world.pending = []) (hundisturbed : (connMachine routes).Meets (Undisturbed routes) c es)
    (hexec : (connMachine routes).exec c es = some c') : moduleCalls routes c es = [] := by
  -- no event of the run is a module event
  induction es generalizing c with
  | nil => rfl
  | cons e es ih =>
      obtain ⟨c₁, hstep, hrest⟩ := (connMachine routes).exec_cons_eq_some.mp hexec
      obtain ⟨hfirst, hlater⟩ := hundisturbed
      have hstep' : connStep routes c e = some c₁ := hstep
      rcases undisturbed_cases hfirst hstep' with ⟨ev, io, rfl⟩ | ⟨hspares, hnone⟩
      · obtain ⟨-, hmem, -⟩ := connStep_moduleTick hstep'
        simp [hidle] at hmem
      · have hafter : moduleCalls routes c₁ es = [] :=
          ih (hspares.pending.trans hidle) (hlater c₁ hstep) hrest
        rw [moduleCalls] at hafter
        rw [moduleCalls, Machine.collect, hstep, hnone]
        exact hafter

/-! ## A request for a route -/

/-- The request is for a route, and its module event is pending. -/
def RoutedToModules (routes : List (Route Code)) (io : RouterIO Code) (c : Conn) (streamId : ℤ)
    (block : List (Bytes × Bytes)) : Prop :=
  (routed routes io c streamId block).outcome = .module ∧ (routed routes io c streamId block).fd ≠ -1

/-- The responses read from descriptors that were opened, and the module events were made. -/
structure InUse (c : Conn) : Prop where
  reads : ∀ fw ∈ c.writers, fw.fd < c.world.fds.length
  pending : ∀ ev ∈ c.world.pending, ev < c.world.nextEv

theorem afterLoop_fds_length (c : Conn) (i : ℕ) (r : LoopResult) (timer : Timeval)
    (timeoutPending : Bool) :
    (afterLoop c i r timer timeoutPending).world.fds.length = c.world.fds.length := by
  unfold afterLoop
  dsimp only
  split
  · simp only [World.closeFd, World.modifyFd, World.fds_emit, List.length_modify]
  · exact List.length_modify ..

namespace InUse

theorem headers {c c' : Conn} (h : InUse c) {streamId : ℤ} {block : List (Bytes × Bytes)}
    (hcases : HeadersCases c streamId block c') : InUse c' := by
  -- a response reads from the first descriptor that is new
  have hnew : ∀ (new : List Fd), new ≠ [] →
      ∀ fw ∈ c.writers ++ [newWriter streamId c.world.fds.length],
        fw.fd < (c.world.fds ++ new).length := by
    intro new hne fw hfw
    have hpos := List.length_pos_iff.mpr hne
    rw [List.length_append]
    rcases List.mem_append.mp hfw with hold | hadded
    · exact (h.reads fw hold).trans_le (Nat.le_add_right ..)
    · obtain rfl := List.mem_singleton.mp hadded
      exact Nat.lt_add_of_pos_right hpos
  cases hcases with
  | unanswered hun =>
      obtain ⟨new, hfds⟩ := hun.fds
      refine ⟨fun fw hfw => ?_, fun ev hev => ?_⟩
      · rw [hun.writers] at hfw
        rw [hfds, List.length_append]
        exact (h.reads fw hfw).trans_le (Nat.le_add_right ..)
      · rw [hun.pending] at hev
        exact (h.pending ev hev).trans_le hun.nextEv
  | module es hes chain url =>
      refine ⟨fun fw hfw => ?_, fun ev hev => ?_⟩
      · show fw.fd < (World.addEvent _ _).fds.length
        rw [World.fds_addEvent]
        exact hnew (socketEnds c.world) (List.cons_ne_nil _ _) fw hfw
      · show ev < (World.addEvent _ _).nextEv
        rw [World.nextEv_addEvent]
        have hmem : ev ∈ (World.addEvent _ _).pending := hev
        rcases (World.mem_pending_addEvent ..).mp hmem with hold | rfl
        · exact Nat.lt_succ_of_lt (h.pending ev hold)
        · exact Nat.lt_succ_self _
  | file es hes f => exact ⟨hnew _ (List.cons_ne_nil _ _), h.pending⟩
  | notFound es hes page hpage => exact ⟨hnew _ (List.cons_ne_nil _ _), h.pending⟩

theorem writeBody {c c' : Conn} {i : ℕ} {fw : FutureWrite} {io : TickIO} (h : InUse c)
    (hbody : writeBody c i fw io = some c') (hfw : ∃ old ∈ c.writers, old.fd = fw.fd) :
    InUse c' := by
  have hframe := writeBody_frame hbody
  obtain ⟨fd, r, timer, pending, -, -, hrun, rfl⟩ := writeBody_cases hbody
  obtain ⟨-, hfd, -⟩ := hrun.frame
  refine ⟨fun fw' hfw' => ?_, fun ev hev => ?_⟩
  · rw [afterLoop_fds_length]
    rcases mem_modify hfw' with hmem | rfl
    · exact h.reads fw' hmem
    · obtain ⟨old, hold, hsame⟩ := hfw
      rw [LoopResult.writer_fd, hfd, ← hsame]
      exact h.reads old hold
  · rw [hframe.nextEv]
    rw [hframe.pending] at hev
    exact h.pending ev hev

theorem writeTick {c c' : Conn} {i : ℕ} {fw : FutureWrite} {io : TickIO} (h : InUse c)
    (hcases : TickCases c i fw io c') (hfw : fw ∈ c.writers) : InUse c' := by
  have hreschedule : ∀ scheduled,
      InUse (c.modifyWriter i fun _ => { fw with scheduled := scheduled }) := by
    intro scheduled
    refine ⟨fun fw' hfw' => ?_, h.pending⟩
    rcases mem_modify hfw' with hmem | rfl
    · exact h.reads fw' hmem
    · exact h.reads fw hfw
  cases hcases with
  | closed hclosed => exact hreschedule false
  | deferred hopen hunsent hlen => exact hreschedule true
  | noHeaders hopen hunsent hlen hnone => exact ⟨h.reads, h.pending⟩
  | next hopen hsent hbody => exact h.writeBody hbody ⟨fw, hfw, rfl⟩
  | @first _ _ _ headers array _ _ hbody =>
      have hsent : InUse (sentHeaders c fw.streamId headers array) := ⟨h.reads, h.pending⟩
      exact hsent.writeBody hbody ⟨fw, hfw, rfl⟩

theorem moduleTick {c : Conn} (h : InUse c) (hwell : WellFormed c) (ev : ℕ) (io : ModuleIO) :
    InUse (moduleTick c ev io) := by
  have hticked := moduleTick_spec c ev io
  refine ⟨fun fw hfw => ?_, fun x hx => ?_⟩
  · rw [hticked.writers] at hfw
    obtain ⟨b, k, hget, -⟩ := hticked.fds fw.fd _ (List.getElem?_eq_getElem (h.reads fw hfw))
    exact (List.getElem?_eq_some_iff.mp hget).1
  · rcases hticked.pending x hx with hold | ⟨rfl, hmade⟩
    · exact (h.pending x hold).trans_le hticked.nextEv
    · -- the event of the rest of the chain is a new one
      rcases hticked.event with hsame | ⟨-, hlt⟩
      · exact absurd (hwell.event _ (hsame.symm.trans hmade)) (Nat.lt_irrefl _)
      · exact hlt

theorem step {routes : List (Route Code)} {c c' : Conn} {e : ConnEvent Code} (h : InUse c)
    (hwell : WellFormed c) (hstep : connStep routes c e = some c') : InUse c' := by
  cases e with
  | headers streamId block io => exact h.headers (connStep_headers hstep).2.2
  | writeTick i io =>
      obtain ⟨-, fw, hfw, -, hcases⟩ := connStep_writeTick hstep
      exact h.writeTick hcases (List.mem_of_getElem? hfw)
  | moduleTick ev io =>
      obtain ⟨-, -, rfl⟩ := connStep_moduleTick hstep
      exact h.moduleTick hwell ev io
  | close =>
      obtain rfl := connStep_close hstep
      exact ⟨h.reads, h.pending⟩

theorem run {routes : List (Route Code)} {sock : ℤ} {cid : Bytes} {es : List (ConnEvent Code)}
    {c : Conn} (h : (connMachine routes).exec (Conn.create sock cid) es = some c) : InUse c := by
  have hstart : WellFormed (Conn.create sock cid) ∧ InUse (Conn.create sock cid) :=
    ⟨.create sock cid, ⟨fun _ hfw => absurd hfw List.not_mem_nil,
      fun _ hev => absurd hev List.not_mem_nil⟩⟩
  have hrun : WellFormed c ∧ InUse c :=
    (connMachine routes).exec_invariant (I := fun c => WellFormed c ∧ InUse c)
      (fun _ _ _ hc hstep => ⟨hc.1.step hstep, hc.2.step hc.1 hstep⟩) hstart h
  exact hrun.2

end InUse

theorem onHeaders_hs (routes : List (Route Code)) (io : RouterIO Code) (c : Conn) (streamId : ℤ)
    (block : List (Bytes × Bytes)) :
    (onHeaders routes io c streamId block).hs = (routed routes io c streamId block).hs := by
  show (onRouted c streamId (routed routes io c streamId block)).hs = _
  unfold onRouted
  dsimp only
  split
  · rfl
  · split <;> rfl

/-- The state behind a request for a route. -/
structure Started (c c' : Conn) : Prop where
  state : ChainAt c'.hs.response.fd (goRequest c'.hs.request) [] (c'.chainState [])
  waiting : Waiting c'.hs.request.modulesChain (c'.chainState [])
  event : c'.hs.moduleCbEv = some c.world.nextEv
  pending : ∀ ev, ev ∈ c'.world.pending ↔ ev ∈ c.world.pending ∨ ev = c.world.nextEv
  alive : c'.dead = c.dead
  apart : ∀ fw ∈ c'.writers, fw.fd ≠ c'.hs.response.fd

theorem started {routes : List (Route Code)} {io : RouterIO Code} {c : Conn} {streamId : ℤ}
    {block : List (Bytes × Bytes)} (hroute : RoutedToModules routes io c streamId block)
    (hwell : WellFormed c) (huse : InUse c) : Started c (onHeaders routes io c streamId block) := by
  have hfresh : FreshEvents (routerWorld c streamId block) := ⟨huse.pending, hwell.freed⟩
  obtain ⟨r, hr⟩ : ∃ r, r = routed routes io c streamId block := ⟨_, rfl⟩
  have hcases := rootRouter_cases (prepareRequest block c.hs).evbase routes io
    (prepareRequest block c.hs) (routerWorld c streamId block)
  have hrouted : onHeaders routes io c streamId block = onRouted c streamId r := by
    rw [hr]
    rfl
  change RouterCases _ _ _ (routed routes io c streamId block) at hcases
  obtain ⟨houtcome, hfd⟩ := hroute
  have hok : (routed routes io c streamId block).fault = false := rootRouter_fault hfd
  rw [hrouted]
  rw [← hr] at hcases houtcome hfd hok
  obtain ⟨hat, hwait⟩ := chainAt_rootRouter hr hok hfd houtcome hfresh
  clear hr
  -- only the way through a module has the outcome and a descriptor
  cases hcases with
  | fault | noSocket | noTimer => exact absurd rfl hfd
  | file | noError | notFound => cases houtcome
  | module es hes chain url =>
      refine ⟨⟨rfl, rfl, rfl, hat.closes, rfl, hat.fresh.of_same rfl rfl rfl⟩,
        ⟨hwait.chain, hwait.event⟩, rfl, fun ev => ?_, rfl, fun fw hfw => ?_⟩
      · exact World.mem_pending_addEvent ..
      -- a response reads from the other end of its socket pair
      · show fw.fd ≠ c.world.fds.length + 1
        rcases List.mem_append.mp hfw with hold | hadded
        · exact (Nat.lt_succ_of_lt (huse.reads fw hold)).ne
        · obtain rfl := List.mem_singleton.mp hadded
          exact (Nat.lt_succ_self _).ne

/-- With no other module event, the chain has the connection for itself. -/
theorem Started.running {c c' : Conn} (h : Started c c') (hidle : c.world.pending = [])
    (hne : c'.hs.request.modulesChain ≠ []) :
    Running c'.hs.response.fd [] c'.hs.request.modulesChain c' := by
  refine ⟨h.state, Or.inl ⟨h.waiting, hne⟩, fun ev hev => ?_, h.apart⟩
  rcases (h.pending ev).mp hev with hold | rfl
  · simp [hidle] at hold
  · exact h.event

/-! ## What is served -/

/-- `module_cb` takes no event of others off the queue. -/
theorem moduleCb_keeps {io : ModuleIO} {hs : HttpStream} {w : World} {x : ℕ} (hx : x ∈ w.pending)
    (hother : hs.moduleCbEv ≠ some x) : x ∈ (moduleCb io hs w).world.pending := by
  unfold moduleCb
  cases hs.request.modulesChain with
  | nil => exact hx
  | cons m rest =>
      obtain ⟨hframe, hpending, -⟩ := runModule_frame io hs m w false
      have hev : (runModule io hs m w).hs.moduleCbEv = hs.moduleCbEv := by
        rcases hframe.event with hsame | ⟨-, hlt⟩
        · exact hsame
        · exact absurd (runModule_frame io hs m w false).2.2 hlt.ne'
      rw [← hpending] at hx
      dsimp only
      generalize runModule io hs m w = g at hx hev
      split
      · exact hx
      · split
        · exact hx
        · unfold nextModule
          split
          · exact hx
          · next old hold =>
              -- only the event of the chain is given back
              have hne : x ≠ old := by
                rintro rfl
                exact hother (hev.symm.trans hold)
              have hleft : x ∈ (g.world.freeEvent old).pending :=
                List.mem_filter.mpr ⟨hx, decide_eq_true hne⟩
              split
              · exact hx
              · cases rest with
                | nil => exact hleft
                | cons next rest =>
                    dsimp only
                    split
                    · exact (World.mem_pending_addEvent ..).mpr (Or.inl hleft)
                    · exact hleft

/-- The last module stays in the chain. -/
theorem moduleCb_last {io : ModuleIO} {hs : HttpStream} {m : Module} (w : World)
    (hlast : hs.request.modulesChain = [m]) :
    (moduleCb io hs w).hs.request.modulesChain = [m] := by
  have hchain : (runModule io hs m w).hs.request.modulesChain = [m] := by
    unfold runModule
    cases m.moduleType with
    | rust => exact hlast
    | unknown n => exact hlast
    | golang =>
        obtain ⟨status, length, hhs⟩ := (goGolang_frame io hs m.name w).1.stream
        dsimp only
        rw [hhs]
        exact hlast
  unfold moduleCb
  rw [hlast]
  dsimp only
  split
  · exact hchain
  · split
    · exact hchain
    · unfold nextModule
      split
      · exact hchain
      · split
        · exact hchain
        · exact hchain

theorem succeeds_runsHandler (request : GoRequest) (chain : List Module) :
    Succeeds request chain (runsHandler []) :=
  ⟨rfl, fun _ _ => rfl⟩

/-- A module event that is pending can run. -/
theorem step_runsHandler (routes : List (Route Code)) {c : Conn} {ev : ℕ} (halive : c.dead = false)
    (hpending : ev ∈ c.world.pending) :
    (connMachine routes).step c (.moduleTick ev (runsHandler [])) =
      some (moduleTick c ev (runsHandler [])) := by
  have hcontains : c.world.pending.contains ev = true := List.contains_iff_mem.mpr hpending
  show connStep routes c (.moduleTick ev (runsHandler [])) = some (moduleTick c ev (runsHandler []))
  simp only [connStep, halive, hcontains, Bool.not_true, Bool.or_self, Bool.false_eq_true, if_false]

section Unserved

variable {routes : List (Route Code)} {c c₁ : Conn} {m : Module} {rest : List Module}

/-- The event of the chain can run: it calls the first module, which closes the descriptor. -/
theorem Started.first (routes : List (Route Code)) (h : Started c c₁) (halive : c.dead = false)
    (hchain : c₁.hs.request.modulesChain = m :: rest) (hgolang : m.moduleType = .golang) :
    (connMachine routes).step c₁ (.moduleTick c.world.nextEv (runsHandler [])) =
        some (moduleTick c₁ c.world.nextEv (runsHandler [])) ∧
      calledBy c₁ (.moduleTick c.world.nextEv (runsHandler []) : ConnEvent Code) = some (m, true) ∧
      ((moduleTick c₁ c.world.nextEv (runsHandler [])).world.fds[c₁.hs.response.fd]?.map Fd.closes) =
        some 1 ∧
      (moduleTick c₁ c.world.nextEv (runsHandler [])).dead = false := by
  have hwait := h.waiting
  rw [hchain] at hwait
  have hmem : c.world.nextEv ∈ c₁.world.pending := (h.pending _).mpr (Or.inr rfl)
  -- the module does nothing but return success
  obtain ⟨hat, hdead, -⟩ := moduleTick_called h.state hwait h.event hmem hgolang
    (succeeds_runsHandler (goRequest c₁.hs.request) c₁.hs.request.modulesChain)
  obtain ⟨own, hown, hcloses⟩ := hat.closes
  have hown : (moduleTick c₁ c.world.nextEv (runsHandler [])).world.fds[c₁.hs.response.fd]? =
    some own := hown
  refine ⟨step_runsHandler routes (h.alive.trans halive) hmem, calledBy_moduleTick h.state hwait _ _, ?_,
    hdead.trans (h.alive.trans halive)⟩
  rw [hown, Option.map_some, hcloses]
  rfl

/-- The first module closes the descriptor, whatever comes behind it. -/
theorem Started.alone (h : Started c c₁) (halive : c.dead = false)
    (hchain : c₁.hs.request.modulesChain = m :: rest) (hgolang : m.moduleType = .golang)
    (hserved : ∀ es c₂, (connMachine routes).Meets (Undisturbed routes) c₁ es →
      (connMachine routes).exec c₁ es = some c₂ →
        ChainServed c₁.hs.request.modulesChain c₁.hs.response.fd (moduleCalls routes c₁ es) c₂) :
    rest = [] := by
  obtain ⟨hstep, hcalled, hcloses, -⟩ := h.first routes halive hchain hgolang
  have hcalls : moduleCalls routes c₁ [.moduleTick c.world.nextEv (runsHandler [])] = [(m, true)] := by
    simp only [moduleCalls, Machine.collect, hstep, hcalled]
    rfl
  have hone := hserved [.moduleTick c.world.nextEv (runsHandler [])] _
    ⟨succeeds_runsHandler _ _, fun _ _ => trivial⟩
    ((connMachine routes).exec_cons_eq_some.mpr ⟨_, hstep, rfl⟩)
  -- closed once, though not all of the chain was called
  have hclosed := hone.closes
  rw [hcloses, hcalls, hchain] at hclosed
  by_contra hne
  have hlength := List.length_pos_iff.mpr hne
  rw [if_neg (by simp only [List.length_cons, List.length_nil]; omega)] at hclosed
  cases hclosed

/-- An older event calls the last module once more. -/
theorem Started.idle (h : Started c c₁) (halive : c.dead = false) (huse : InUse c)
    (hchain : c₁.hs.request.modulesChain = [m]) (hgolang : m.moduleType = .golang)
    (hserved : ∀ es c₂, (connMachine routes).Meets (Undisturbed routes) c₁ es →
      (connMachine routes).exec c₁ es = some c₂ →
        ChainServed c₁.hs.request.modulesChain c₁.hs.response.fd (moduleCalls routes c₁ es) c₂) :
    c.world.pending = [] := by
  obtain ⟨hstep, hcalled, -, halive'⟩ := h.first routes halive hchain hgolang
  refine List.eq_nil_iff_forall_not_mem.mpr fun old hold => ?_
  -- the older event is still pending behind the one of the chain, which stays as it is
  have hne : old ≠ c.world.nextEv := (huse.pending old hold).ne
  have hmem : old ∈ (moduleTick c₁ c.world.nextEv (runsHandler [])).world.pending := by
    rw [moduleTick_pending]
    refine moduleCb_keeps (List.mem_filter.mpr ⟨(h.pending old).mpr (Or.inl hold), ?_⟩) ?_
    · exact decide_eq_true hne
    · rw [h.event]
      exact fun heq => hne (Option.some.inj heq).symm
  have hlast : (moduleTick c₁ c.world.nextEv (runsHandler [])).hs.request.modulesChain = [m] :=
    moduleCb_last _ hchain
  have hstep' := step_runsHandler routes halive' hmem
  obtain ⟨b, hagain⟩ : ∃ b, calledBy (moduleTick c₁ c.world.nextEv (runsHandler []))
      (.moduleTick old (runsHandler []) : ConnEvent Code) = some (m, b) :=
    ⟨_, by rw [calledBy, hlast, List.head?_cons, Option.map_some]⟩
  have hcalls : moduleCalls routes c₁
      [.moduleTick c.world.nextEv (runsHandler []), .moduleTick old (runsHandler [])] =
        [(m, true), (m, b)] := by
    simp only [moduleCalls, Machine.collect, hstep, hstep', hcalled, hagain]
    rfl
  have htwo := hserved [.moduleTick c.world.nextEv (runsHandler []), .moduleTick old (runsHandler [])] _
    ⟨succeeds_runsHandler _ _, fun d hd => ⟨succeeds_runsHandler _ _, fun _ _ => trivial⟩⟩
    ((connMachine routes).exec_cons_eq_some.mpr
      ⟨_, hstep, (connMachine routes).exec_cons_eq_some.mpr ⟨_, hstep', rfl⟩⟩)
  have hlength := htwo.inOrder.length_le
  rw [hcalls, hchain] at hlength
  simp at hlength

end Unserved

/-- A table with one route, for `/m`. -/
def routesTo (chain : List Module) : List (Route Unit) :=
  [⟨ascii "/m", 2, chain, none⟩]

/-- A connection whose first request was for it. -/
def requestedFrom (chain : List Module) : Conn :=
  onHeaders (routesTo chain) (servesFile []) (Conn.create 5 []) 0 [(ascii ":path", ascii "/m")]

end Gfhttpd.Http3
