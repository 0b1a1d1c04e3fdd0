import Gfhttpd.Modules.Golang

/-!
# Module events (`main/router/module_cb.c`)

`module_cb` runs the first module of the chain and, when that went well, gives back the event
in `hs->module_cb_ev` and makes a new one for the rest of the chain.
-/

namespace Gfhttpd.Router

open Http Modules

/-- How `module_cb` ends. -/
structure ModuleResult where
  hs : HttpStream
  world : World
  answer : Option (Bytes × ℕ)
  fault : Bool

/-- `ret` after the `switch` over the module's type. -/
def runModule (io : ModuleIO) (hs : HttpStream) (m : Module) (w : World) : GoResult :=
  match m.moduleType with
  | .golang => goGolang io hs m.name w
  | .rust => ⟨-1, hs, w, none, false⟩
  | .unknown _ => ⟨-1, hs, w, none, false⟩

/-- The end of `module_cb`, after a module that returned without an error. -/
def nextModule (io : ModuleIO) (hs : HttpStream) (rest : List Module) (w : World)
    (answer : Option (Bytes × ℕ)) : ModuleResult :=
  match hs.moduleCbEv with
  | none => ⟨hs, w, answer, true⟩
  | some ev =>
      if ev ∈ w.freed then ⟨hs, w, answer, true⟩
      else
        let w := w.freeEvent ev
        match rest with
        | [] => ⟨hs, w, answer, false⟩
        | _ :: _ =>
            let new := w.nextEv
            let hs :=
              { hs with
                moduleCbEv := some new
                request := { hs.request with modulesChain := rest } }
            let w := w.newEvent
            if io.evtimerAdd then ⟨hs, w.addEvent new, answer, false⟩
            else ⟨hs, w, answer, false⟩

/-- `module_cb`. -/
def moduleCb (io : ModuleIO) (hs : HttpStream) (w : World) : ModuleResult :=
  match hs.request.modulesChain with
  | [] => ⟨hs, w, none, true⟩
  | m :: rest =>
      let r := runModule io hs m w
      if r.fault then ⟨r.hs, r.world, r.answer, true⟩
      else if r.ret < 0 then ⟨r.hs, r.world, r.answer, false⟩
      else nextModule io r.hs rest r.world r.answer

/-! ## What a module event changes -/

/-- What `module_cb` leaves alone, and what it leaves behind. -/
structure ModuleFrame (hs : HttpStream) (w : World) (r : ModuleResult) : Prop where
  stream : ∃ ev chain status length, r.hs =
    { hs with
      moduleCbEv := ev
      request := { hs.request with modulesChain := chain }
      response := { hs.response with httpStatus := status, contentLenght := length } }
  silent : r.answer = none → r.hs.response = hs.response
  written : ∀ status length, r.answer = some (status, length) →
    r.hs.response.httpStatus = some status ∧ r.hs.response.contentLenght = length
  log : r.world.log = w.log ∨ r.world.log = w.log ++ [.close hs.response.fd]
  /-- only the module's end of the socket pair is closed -/
  fds : ∀ (n : ℕ) (fd : Fd), w.fds[n]? = some fd →
    ∃ b k, r.world.fds[n]? = some { fd with content := fd.content ++ b, closes := fd.closes + k } ∧
      (n ≠ hs.response.fd → k = 0)
  pending : ∀ x ∈ r.world.pending, x ∈ w.pending ∨ x = w.nextEv ∧ r.hs.moduleCbEv = some x
  nextEv : w.nextEv ≤ r.world.nextEv
  event : r.hs.moduleCbEv = hs.moduleCbEv ∨
    r.hs.moduleCbEv = some w.nextEv ∧ w.nextEv < r.world.nextEv
  freed : ∀ x ∈ r.world.freed, x ∈ w.freed ∨ hs.moduleCbEv = some x

/-- A module that does not get to its handler. -/
theorem ModuleFrame.quiet (hs : HttpStream) (w : World) (fault : Bool) :
    ModuleFrame hs w ⟨hs, w, none, fault⟩ where
  stream := ⟨_, _, _, _, rfl⟩
  silent _ := rfl
  written := by simp
  log := Or.inl rfl
  fds n fd hfd := ⟨[], 0, by simpa using hfd, fun _ => rfl⟩
  pending x hx := Or.inl hx
  nextEv := le_rfl
  event := Or.inl rfl
  freed x hx := Or.inl hx

/-- The module itself; it adds and deletes no event. -/
theorem runModule_frame (io : ModuleIO) (hs : HttpStream) (m : Module) (w : World) (fault : Bool) :
    ModuleFrame hs w
      ⟨(runModule io hs m w).hs, (runModule io hs m w).world, (runModule io hs m w).answer,
        fault⟩ ∧
    (runModule io hs m w).world.pending = w.pending ∧
    (runModule io hs m w).world.nextEv = w.nextEv := by
  unfold runModule
  cases m.moduleType with
  | rust => exact ⟨.quiet hs w fault, rfl, rfl⟩
  | unknown n => exact ⟨.quiet hs w fault, rfl, rfl⟩
  | golang =>
      -- `Go_golang` returns early, or runs the handler and closes the descriptor
      obtain ⟨hans, hworld | ⟨w', hgrows, hworld⟩⟩ := goGolang_frame io hs m.name w
      · simp only [hworld, and_true]
        obtain ⟨status, length, hhs⟩ := hans.stream
        refine ⟨⟨hs.moduleCbEv, hs.request.modulesChain, status, length, hhs⟩,
          fun hnone => by rw [hans.silent hnone], hans.written, Or.inl rfl,
          fun n fd hfd => ⟨[], 0, by simpa using hfd, fun _ => rfl⟩, fun x hx => Or.inl hx, le_rfl,
          Or.inl (by rw [hhs]), fun x hx => Or.inl hx⟩
      · simp only [hworld]
        obtain ⟨status, length, hhs⟩ := hans.stream
        have hpending : (w'.closeFd hs.response.fd).pending = w.pending := by
          rw [hgrows.eq]
          rfl
        have hnext : (w'.closeFd hs.response.fd).nextEv = w.nextEv := by
          rw [hgrows.eq]
          rfl
        have hfreed : (w'.closeFd hs.response.fd).freed = w.freed := by
          rw [hgrows.eq]
          rfl
        refine ⟨⟨⟨hs.moduleCbEv, hs.request.modulesChain, status, length, hhs⟩,
          fun hnone => by rw [hans.silent hnone], hans.written, Or.inr ?_,
          fun n fd hfd => hgrows.closeFd hs.response.fd n fd hfd,
          fun x hx => Or.inl (hpending ▸ hx), hnext.ge, Or.inl (by rw [hhs]),
          fun x hx => Or.inl (hfreed ▸ hx)⟩, hpending, hnext⟩
        rw [hgrows.eq]
        rfl

/-- What comes after a module keeps what the module left. -/
theorem nextModule_frame {hs : HttpStream} {w : World} {hs' : HttpStream} {w' : World}
    {answer : Option (Bytes × ℕ)} {fault : Bool} (io : ModuleIO) (rest : List Module)
    (h : ModuleFrame hs w ⟨hs', w', answer, fault⟩) (hpending : w'.pending = w.pending)
    (hnext : w'.nextEv = w.nextEv) : ModuleFrame hs w (nextModule io hs' rest w' answer) := by
  obtain ⟨⟨ev, chain, status, length, hhs⟩, hsilent, hwritten, hlog, hfds, -, -, hevent,
    hfreed⟩ := h
  simp only at hhs hsilent hwritten hlog hfds hevent hfreed
  have hsame : hs'.moduleCbEv = hs.moduleCbEv := by
    rcases hevent with hsame | ⟨-, hlt⟩
    · exact hsame
    · exact absurd hnext hlt.ne'
  have hkeep : ∀ x ∈ w'.pending, x ∈ w.pending := fun x hx => hpending ▸ hx
  unfold nextModule
  split
  · exact ⟨⟨_, _, _, _, hhs⟩, hsilent, hwritten, hlog, hfds, fun x hx => Or.inl (hkeep x hx),
      hnext.ge, Or.inl hsame, hfreed⟩
  · next old hold =>
      have hgiven : ∀ x ∈ (w'.freeEvent old).freed, x ∈ w.freed ∨ hs.moduleCbEv = some x := by
        intro x hx
        rcases List.mem_append.mp hx with hx | hx
        · exact hfreed x hx
        · obtain rfl := List.mem_singleton.mp hx
          exact Or.inr (hsame.symm.trans hold)
      have hfree : ∀ x ∈ (w'.freeEvent old).pending, x ∈ w.pending := fun x hx =>
        hkeep x (List.mem_filter.mp hx).1
      split
      · exact ⟨⟨_, _, _, _, hhs⟩, hsilent, hwritten, hlog, hfds,
          fun x hx => Or.inl (hkeep x hx), hnext.ge, Or.inl hsame, hfreed⟩
      · cases rest with
        | nil =>
            exact ⟨⟨_, _, _, _, hhs⟩, hsilent, hwritten, hlog, hfds,
              fun x hx => Or.inl (hfree x hx), hnext.ge, Or.inl hsame, hgiven⟩
        | cons m rest =>
            have hhs' : ∀ new : ℕ, ∃ ev chain status length,
                ({ hs' with
                    moduleCbEv := some new
                    request := { hs'.request with modulesChain := m :: rest } } : HttpStream) =
                  { hs with
                    moduleCbEv := ev
                    request := { hs.request with modulesChain := chain }
                    response :=
                      { hs.response with httpStatus := status, contentLenght := length } } :=
              fun new => ⟨some new, m :: rest, status, length, by rw [hhs]⟩
            -- the new event's number is the next one, and it is used up by `event_new`
            have hfresh : w.nextEv < w'.nextEv + 1 := hnext ▸ Nat.lt_succ_self _
            have hnew : some w'.nextEv = some w.nextEv := congrArg some hnext
            simp only
            split
            · refine ⟨hhs' _, hsilent, hwritten, by simpa using hlog, by simpa using hfds, ?_, ?_,
                Or.inr ⟨hnew, ?_⟩, by rw [World.freed_addEvent]; exact hgiven⟩
              · intro x hx
                rcases (World.mem_pending_addEvent _ _ _).mp hx with hold | rfl
                · exact Or.inl (hfree x hold)
                · exact Or.inr ⟨hnext, rfl⟩
              · rw [World.nextEv_addEvent]
                exact hfresh.le
              · rw [World.nextEv_addEvent]
                exact hfresh
            · exact ⟨hhs' _, hsilent, hwritten, hlog, hfds, fun x hx => Or.inl (hfree x hx),
                hfresh.le, Or.inr ⟨hnew, hfresh⟩, hgiven⟩

/-- What a module event changes. -/
theorem moduleCb_frame (io : ModuleIO) (hs : HttpStream) (w : World) :
    ModuleFrame hs w (moduleCb io hs w) := by
  unfold moduleCb
  cases hs.request.modulesChain with
  | nil => exact .quiet hs w true
  | cons m rest =>
      simp only
      split
      · exact (runModule_frame io hs m w true).1
      · split
        · exact (runModule_frame io hs m w false).1
        · obtain ⟨hframe, hpending, hnext⟩ := runModule_frame io hs m w false
          exact nextModule_frame io rest hframe hpending hnext

end Gfhttpd.Router
