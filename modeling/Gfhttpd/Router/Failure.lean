import Gfhttpd.Router.Chain

/-!
# Modules that fail (`main/router/module_cb.c`, `modules/golang/bridge.go`)

When a module run returns an error, `module_cb` logs it and returns.  The event base has taken the
event off its queue, nobody gives the event back, and what else is missing depends on the modules
before: each module that got to its handler has closed the descriptor, and one that wrote has set a
length.

- `moduleFails`: the module runs that fail, `runModule_fails` what they do
- `EventOwned` is kept by every run of `module_cb`
- `failure_unanswered`: no failure is answered, wherever in the chain it is
-/

namespace Gfhttpd.Router

open Http Conf Modules Transition

variable {Code : Type}

/-! ## Failures -/

/-- The run of this module fails: `http.NewRequest` does not accept the request, or the module is of
another type than `GOLANG`. -/
def moduleFails (io : ModuleIO) (hs : HttpStream) (m : Module) : Bool :=
  match m.moduleType with
  | .golang => !io.newRequest (goRequest hs.request).method (goRequest hs.request).url
  | .rust => true
  | .unknown _ => true

/-- `Go_golang` returns -1 when `http.NewRequest` has an error, and 0 otherwise. -/
theorem goGolang_ret (io : ModuleIO) (hs : HttpStream) (module : Bytes) (w : World) :
    if io.newRequest (goRequest hs.request).method (goRequest hs.request).url then
      (goGolang io hs module w).ret = 0
    else goGolang io hs module w = ⟨-1, hs, w, none, false⟩ := by
  unfold goGolang
  dsimp only
  cases io.newRequest (goRequest hs.request).method (goRequest hs.request).url with
  | false => rfl
  | true =>
      rw [if_pos rfl, Bool.not_true, if_neg Bool.false_ne_true]
      cases io.golangModules module with
      | none => rfl
      | some handler => rfl

/-- A module fails exactly so, and changes nothing. -/
theorem runModule_fails (io : ModuleIO) (hs : HttpStream) (m : Module) (w : World) :
    ((runModule io hs m w).ret < 0 ↔ moduleFails io hs m = true) ∧
      (moduleFails io hs m = true → runModule io hs m w = ⟨-1, hs, w, none, false⟩) := by
  have hneg : (-1 : ℤ) < 0 := by decide
  unfold runModule moduleFails
  cases m.moduleType with
  -- `Go_golang` is only called for `GOLANG`
  | rust => exact ⟨iff_of_true hneg rfl, fun _ => rfl⟩
  | unknown n => exact ⟨iff_of_true hneg rfl, fun _ => rfl⟩
  | golang =>
      have hret := goGolang_ret io hs m.name w
      dsimp only
      split at hret
      · next hrequest =>
          rw [hret, hrequest]
          exact ⟨iff_of_false (Int.lt_irrefl 0) Bool.false_ne_true, fun hfalse => by cases hfalse⟩
      · next hrequest =>
          rw [Bool.not_eq_true] at hrequest
          rw [hret, hrequest]
          exact ⟨iff_of_true hneg rfl, fun _ => rfl⟩

/-- The module that the next event runs fails. -/
def FailsNext (s : ChainState) (io : ModuleIO) : Prop :=
  ∃ m ∈ s.hs.request.modulesChain.head?, moduleFails io s.hs m = true

/-- The request of a failed module is answered: its event is given back, the write end of the socket
pair is closed, and there is a length for `future_write_cb`. -/
structure FailureAnswered (t : ChainState) : Prop where
  freed : ∀ ev ∈ t.hs.moduleCbEv, ev ∈ t.world.freed
  closed : fdOpen t.hs t.world = false
  length : t.hs.response.contentLenght ≠ SIZE_MAX

/-! ## One run -/

/-- The event in `hs->module_cb_ev` has been used for nothing else: while it is pending it is not given
back. -/
structure EventOwned (s : ChainState) : Prop where
  fresh : FreshEvents s.world
  used : ∀ ev ∈ s.hs.moduleCbEv, ev < s.world.nextEv
  kept : ∀ ev ∈ s.hs.moduleCbEv, ev ∈ s.world.pending → ev ∉ s.world.freed

/-- An event runs only while it is pending. -/
theorem chainStep_cases {s s' : ChainState} {io : ModuleIO} (h : chainStep s io = some s') :
    ∃ ev, s.hs.moduleCbEv = some ev ∧ s.fault = false ∧ ev ∈ s.world.pending ∧
      s'.hs = (moduleCb io s.hs (s.world.delEvent ev)).hs ∧
      s'.world = (moduleCb io s.hs (s.world.delEvent ev)).world := by
  unfold chainStep at h
  cases hev : s.hs.moduleCbEv with
  | none =>
      rw [hev] at h
      cases h
  | some ev =>
      simp only [hev, Option.ite_none_left_eq_some, Bool.or_eq_true, not_or, Bool.not_eq_true,
        Bool.not_eq_false', List.contains_iff_mem, Option.some.injEq] at h
      obtain ⟨⟨hfault, hpending⟩, rfl⟩ := h
      exact ⟨ev, rfl, hfault, hpending, rfl, rfl⟩

/-- A run of `module_cb` keeps it. -/
theorem EventOwned.step {s s' : ChainState} {io : ModuleIO} (h : EventOwned s)
    (hstep : chainStep s io = some s') : EventOwned s' := by
  obtain ⟨ev, hev, -, -, hhs, hworld⟩ := chainStep_cases hstep
  have hframe := moduleCb_frame io s.hs (s.world.delEvent ev)
  generalize moduleCb io s.hs (s.world.delEvent ev) = r at hhs hworld hframe
  have hused := h.used ev hev
  have hfresh := h.fresh.delEvent ev
  -- the new event, if there is one, has a number of its own
  have hnew : ∀ x, r.hs.moduleCbEv = some x → x = ev ∨ x = s.world.nextEv ∧ x < r.world.nextEv := by
    intro x hx
    rcases hframe.event with hsame | ⟨hnext, hlt⟩
    · exact Or.inl (Option.some.inj (hx.symm.trans (hsame.trans hev)))
    · obtain rfl := Option.some.inj (hx.symm.trans hnext)
      exact Or.inr ⟨rfl, hlt⟩
  constructor
  · rw [hworld]
    constructor
    · intro x hx
      rcases hframe.pending x hx with hold | ⟨rfl, hmade⟩
      · exact (hfresh.pending x hold).trans_le hframe.nextEv
      · rcases hnew _ hmade with heq | ⟨-, hlt⟩
        · exact absurd heq hused.ne'
        · exact hlt
    · intro x hx
      rcases hframe.freed x hx with hold | hgiven
      · exact (hfresh.freed x hold).trans_le hframe.nextEv
      · obtain rfl := Option.some.inj (hev.symm.trans hgiven)
        exact hused.trans_le hframe.nextEv
  · rw [hhs, hworld]
    intro x hx
    rcases hnew x hx with rfl | ⟨-, hlt⟩
    · exact hused.trans_le hframe.nextEv
    · exact hlt
  · rw [hhs, hworld]
    intro x hx hpending hfreed
    rcases hnew x hx with rfl | ⟨rfl, -⟩
    · -- the event that ran is not pending any more
      rcases hframe.pending x hpending with hold | ⟨hnext, -⟩
      · simpa using (List.mem_filter.mp hold).2
      · exact hused.ne hnext
    · rcases hframe.freed _ hfreed with hold | hgiven
      · exact Nat.lt_irrefl _ (h.fresh.freed _ hold)
      · exact hused.ne (Option.some.inj (hev.symm.trans hgiven))

/-- What a failed module leaves: everything as it was, without the event's place in the queue. -/
theorem chainStep_failed {s s' : ChainState} {io : ModuleIO} (h : EventOwned s)
    (hstep : chainStep s io = some s') (hfails : FailsNext s io) :
    ∃ ev, s.hs.moduleCbEv = some ev ∧ s'.hs = s.hs ∧ s'.world = s.world.delEvent ev ∧
      s'.Finished ∧ ev ∉ s'.world.freed := by
  obtain ⟨ev, hev, -, hpending, hhs, hworld⟩ := chainStep_cases hstep
  obtain ⟨m, hm, hfails⟩ := hfails
  obtain ⟨rest, hchain⟩ := List.head?_eq_some_iff.mp hm
  have hrun := (runModule_fails io s.hs m (s.world.delEvent ev)).2 hfails
  -- `module_cb` logs the error and returns
  have hcb : moduleCb io s.hs (s.world.delEvent ev) = ⟨s.hs, s.world.delEvent ev, none, false⟩ := by
    simp only [moduleCb, hchain, hrun]
    rfl
  rw [hcb] at hhs hworld
  refine ⟨ev, hev, hhs, hworld, ?_, ?_⟩
  · intro x hx
    rw [hhs, hev] at hx
    obtain rfl := Option.some.inj hx
    rw [hworld]
    intro hmem
    simpa using (List.mem_filter.mp hmem).2
  · rw [hworld]
    exact h.kept ev hev hpending

/-! ## Whole runs -/

/-- Nothing runs when no event is left. -/
theorem ChainState.Finished.stuck {s : ChainState} (h : s.Finished) (io : ModuleIO) :
    chainStep s io = none := by
  cases hstep : chainStep s io with
  | none => rfl
  | some s' =>
      obtain ⟨ev, hev, -, hpending, -⟩ := chainStep_cases hstep
      exact absurd hpending (h ev hev)

theorem eventOwned_rootRouter {loop : Bool} {routes : List (Route Code)} {io : RouterIO Code}
    {hs : HttpStream} {w : World} {r : RouterResult} (hr : r = rootRouter loop routes io hs w)
    (hfd : r.fd ≠ -1) (houtcome : r.outcome = .module) (hfresh : FreshEvents w) :
    EventOwned r.chainState := by
  have hok : r.fault = false := by
    rw [hr]
    exact rootRouter_fault (hr ▸ hfd)
  obtain ⟨hat, hwait⟩ := chainAt_rootRouter hr hok hfd houtcome hfresh
  obtain ⟨ev, hev, hpending, hfreed⟩ := hwait.event
  have honly : ∀ x ∈ r.chainState.hs.moduleCbEv, x = ev := fun x hx =>
    Option.some.inj ((Option.mem_def.mp hx).symm.trans hev)
  refine ⟨hat.fresh, fun x hx => ?_, fun x hx _ => ?_⟩
  · rw [honly x hx]
    exact hat.fresh.pending ev hpending
  · rw [honly x hx]
    exact hfreed

/-- **Whatever the chain of a route is, and wherever in it a module run fails, when no module event is
pending the failure is not answered.** -/
theorem failure_unanswered {loop : Bool} {routes : List (Route Code)} {io : RouterIO Code}
    {hs : HttpStream} {w : World} {r : RouterResult} (hr : r = rootRouter loop routes io hs w)
    (hfd : r.fd ≠ -1) (houtcome : r.outcome = .module) (hfresh : FreshEvents w)
    {before after : List ModuleIO} {failing : ModuleIO} {s t : ChainState}
    (hbefore : chainMachine.exec r.chainState before = some s) (hfails : FailsNext s failing)
    (hexec : chainMachine.exec s (failing :: after) = some t) (hfinished : t.Finished) :
    ¬ FailureAnswered t := by
  have howned : EventOwned s := chainMachine.exec_invariant (I := EventOwned)
    (fun _ _ _ h hstep => h.step hstep) (eventOwned_rootRouter hr hfd houtcome hfresh) hbefore
  obtain ⟨s', hstep, hrest⟩ := chainMachine.exec_cons_eq_some.mp hexec
  obtain ⟨ev, hev, hhs, -, hdone, hkept⟩ := chainStep_failed howned hstep hfails
  cases after with
  | nil =>
      obtain rfl : s' = t := by simpa using hrest
      intro hanswered
      exact hkept (hanswered.freed ev (by rw [hhs]; exact hev))
  | cons io' after =>
      -- nothing can follow a failure
      obtain ⟨s'', hstep', -⟩ := chainMachine.exec_cons_eq_some.mp hrest
      cases (hdone.stuck io').symm.trans hstep'

/-- What `root_router` leaves for a request to a route with these modules, whose length is not ready. -/
def unreadyTo (chain : List Module) : RouterResult :=
  rootRouter true [(⟨ascii "/m", 2, chain, none⟩ : Route Unit)] (servesFile [])
    { HttpStream.zero with
      request := { HttpStream.zero.request with url := some (ascii "/m") }
      response := { HttpStream.zero.response with contentLenght := SIZE_MAX } }
    World.init

/-- The second of two modules fails. -/
theorem failure_unanswered_second : ∃ t,
    chainMachine.exec (unreadyTo [⟨ascii "a", .golang⟩, ⟨ascii "b", .unknown 7⟩]).chainState
        [runsHandler [.write (ascii "hello") 5], runsHandler []] = some t ∧
      ¬ FailureAnswered t := by
  have hbefore : chainMachine.exec
      (unreadyTo [⟨ascii "a", .golang⟩, ⟨ascii "b", .unknown 7⟩]).chainState
      [runsHandler [.write (ascii "hello") 5]] = some _ := rfl
  have hexec : chainMachine.exec
      (unreadyTo [⟨ascii "a", .golang⟩, ⟨ascii "b", .unknown 7⟩]).chainState
      [runsHandler [.write (ascii "hello") 5], runsHandler []] = some _ := rfl
  refine ⟨_, hexec, ?_⟩
  exact failure_unanswered (r := unreadyTo [⟨ascii "a", .golang⟩, ⟨ascii "b", .unknown 7⟩]) rfl
    (by decide) rfl ⟨by decide, by decide⟩ hbefore ⟨⟨ascii "b", .unknown 7⟩, rfl, rfl⟩
    (show chainMachine.exec _ [runsHandler []] = some _ from rfl) (by decide +kernel)

/-- The only module of a route is a `RUST` module: its event is not given back, the socket pair stays
open, and the length is still the mark that `future_write_cb` waits on. -/
theorem failure_unanswered_rust : ∃ t,
    chainMachine.exec (unreadyTo [⟨ascii "a", .rust⟩]).chainState [runsHandler []] = some t ∧
      t.Finished ∧ t.world.freed = [] ∧ fdOpen t.hs t.world = true ∧
      t.hs.response.contentLenght = SIZE_MAX ∧ ¬ FailureAnswered t := by
  refine ⟨_, rfl, by decide, by decide, by decide, by decide, fun hanswered => ?_⟩
  exact absurd hanswered.length (by decide)

end Gfhttpd.Router
