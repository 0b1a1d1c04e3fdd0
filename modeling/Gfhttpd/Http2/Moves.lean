import Gfhttpd.Http2.Connection
import Mathlib.Logic.Relation

/-!
# What happens to an HTTP/2 connection

Every callback of a connection is a sequence of small moves: bytes arrive or leave, `nghttp2` reads
the input or gives a block, the session is deleted.  What all moves keep is kept by every run.

- `Move`: one of them
- `Sends`: what a call of `session_send` does
- `connectionStep_moves`: an event as a sequence of moves
- `calls_tornDown`: callbacks of `nghttp2` do not tear the session down
-/

namespace Gfhttpd.Http2

open Throttle Transition Relation

variable {σ Code : Type}

/-! ## Callbacks of `nghttp2` -/

/-- What the teardown alone changes: `tornDown` and `aborted`. -/
def Session.ending (s : Session) : Bool × Bool :=
  (s.tornDown, s.aborted)

theorem ending_removeStream (s : Session) (p : ℕ) :
    (removeStream s p).ending = s.ending := by
  unfold removeStream
  split
  · rfl
  · split
    · rfl
    · split
      · rfl
      · simp only
        repeat' split
        all_goals rfl

theorem ending_deleteHttpStream (s : Session) (p : ℕ) :
    (deleteHttpStream s p).ending = s.ending := by
  unfold deleteHttpStream
  split <;> rfl

theorem ending_onStreamCloseCallback (s : Session) (streamId : ℤ) :
    (onStreamCloseCallback s streamId).ending = s.ending := by
  unfold onStreamCloseCallback
  split
  · rfl
  · next p _ =>
      simp only
      split
      · exact ending_removeStream s p
      · show (deleteHttpStream (removeStream s p) p).ending = s.ending
        rw [ending_deleteHttpStream, ending_removeStream]

theorem ending_onHeaderCallback (s : Session) (frame : Frame) (name value : Bytes) :
    (onHeaderCallback s frame name value).ending = s.ending := by
  unfold onHeaderCallback
  repeat' split
  all_goals rfl

theorem ending_onRequestRecv (io : RequestIO Code) (s : Session) (p : ℕ) :
    (onRequestRecv io s p).ending = s.ending := by
  unfold onRequestRecv
  split
  · rfl
  · split
    · rfl
    · split
      · rfl
      · simp only
        repeat' split
        all_goals rfl

theorem ending_sessionStep {s t : Session} {e : SessionEvent Code} (he : e.isTeardown = false)
    (hstep : sessionStep s e = some t) : t.ending = s.ending := by
  simp only [sessionStep, Option.ite_none_left_eq_some] at hstep
  obtain ⟨-, hstep⟩ := hstep
  cases e with
  | beginHeaders frame =>
      cases hstep
      unfold onBeginHeadersCallback
      split <;> rfl
  | header frame name value =>
      cases hstep
      exact ending_onHeaderCallback s frame name value
  | frameRecv frame io =>
      cases hstep
      unfold onFrameRecvCallback
      repeat' split
      · rfl
      · rfl
      · exact ending_onRequestRecv io s _
  | streamClose streamId =>
      cases hstep
      exact ending_onStreamCloseCallback s streamId
  | teardown => cases he

theorem tornDown_sessionStep {s t : Session} {e : SessionEvent Code} (he : e.isTeardown = false)
    (hstep : sessionStep s e = some t) : t.tornDown = s.tornDown :=
  congrArg Prod.fst (ending_sessionStep he hstep)

theorem aborted_sessionStep {s t : Session} {e : SessionEvent Code} (he : e.isTeardown = false)
    (hstep : sessionStep s e = some t) : t.aborted = s.aborted :=
  congrArg Prod.snd (ending_sessionStep he hstep)

/-- Callbacks do not tear the session down. -/
theorem calls_tornDown {s t : Session} (h : Calls Code s t) : t.tornDown = s.tornDown := by
  obtain ⟨es, hes, hexec⟩ := h
  have hmeets : sessionMachine.Meets (fun _ e => e.isTeardown = false) s es :=
    sessionMachine.meets_of_forall hes
  exact sessionMachine.exec_invariant_of_meets (I := fun u => u.tornDown = s.tornDown)
    (fun u e v hu he hstep => (tornDown_sessionStep he hstep).trans hu) rfl hmeets hexec

theorem Connection.tornDown_of_alive (c : Connection σ) (h : c.alive = true) :
    c.session.tornDown = false := by
  simp only [alive, Bool.and_eq_true, Bool.not_eq_true'] at h
  exact h.2

/-! ## Moves -/

/-- What happens to a connection at once. -/
inductive Move (L : Nghttp2 σ Code) : Connection σ → Connection σ → Prop
  | arrive (c : Connection σ) (data : Bytes) :
      Move L c { c with received := c.received ++ data, input := c.input ++ data }
  | write (c : Connection σ) (n : ℕ) (due : Bool) :
      Move L c
        { c with output := c.output.drop n, sent := c.sent ++ c.output.take n, writeDue := due }
  | due (c : Connection σ) (due : Bool) : Move L c { c with writeDue := due }
  /-- the session begins, with the settings submitted -/
  | start (c : Connection σ) (halive : c.alive = true) (hnew : c.nghttp2 = none) (s : σ)
      (hs : s = (L.submitSettings L.serverNew [(NGHTTP2_SETTINGS_MAX_CONCURRENT_STREAMS, 100)]).2) :
      Move L c { c with nghttp2 := some s }
  /-- `nghttp2` has read the input and returned `n` -/
  | recv (c : Connection σ) {s : σ} (hs : c.nghttp2 = some s) {n : ℤ} {t : σ × Session}
      (hrecv : L.memRecv (s, c.session) c.input = (n, t)) :
      Move L c
        { c with
          nghttp2 := some t.1
          session := t.2
          fed := c.fed ++ c.input.take n.toNat
          input := c.input.drop n.toNat }
  /-- `send_callback` has accepted a block -/
  | take (c : Connection σ) {s : σ} (hs : c.nghttp2 = some s) {b : Bytes} {hne : b ≠ []}
      {h t : σ × Session} (hoffer : L.source.offer (s, c.session) = .block b hne h t)
      (hroom : c.output.length < OUTPUT_WOULDBLOCK_THRESHOLD) :
      Move L c
        { c with
          nghttp2 := some t.1
          session := t.2
          output := c.output ++ b
          accepted := c.accepted ++ [b] }
  /-- `nghttp2` has nothing to send, fails, or has to hold its block -/
  | idle (c : Connection σ) {s : σ} (hs : c.nghttp2 = some s) {t : σ × Session}
      (hoffer : L.source.offer (s, c.session) = .nothing t ∨
        (∃ e, L.source.offer (s, c.session) = .fails e t) ∨
        ∃ b hne u, L.source.offer (s, c.session) = .block b hne t u) :
      Move L c { c with nghttp2 := some t.1, session := t.2 }
  | delete (c : Connection σ) (hlive : c.session.tornDown = false) : Move L c c.delete

/-- What `nghttp2` does while it is asked for a block. -/
theorem idle_calls (L : Nghttp2 σ Code) {s t : σ × Session}
    (hoffer : L.source.offer s = .nothing t ∨ (∃ e, L.source.offer s = .fails e t) ∨
      ∃ b hne u, L.source.offer s = .block b hne t u) : Calls Code s.2 t.2 := by
  rcases hoffer with hnothing | ⟨e, hfails⟩ | ⟨b, hne, u, hblock⟩
  · exact L.nothing_calls hnothing
  · exact L.fails_calls hfails
  · exact L.held_calls hblock

theorem yields_calls (L : Nghttp2 σ Code) {s t : σ × Session} {blocks : List Bytes}
    (hyields : L.source.Yields s blocks t) : Calls Code s.2 t.2 := by
  induction hyields with
  | nil s => exact .refl s.2
  | cons hoffer _ ih => exact ((L.held_calls hoffer).trans (L.taken_calls hoffer)).trans ih

/-! ## Sending -/

/-- What a call of `session_send` on a session in the state `s` does, when it has accepted these blocks
and `nghttp2` was then in the state `mid`. -/
structure Sends (L : Nghttp2 σ Code) (c : Connection σ) (s : σ) (blocks : List Bytes)
    (mid : σ × Session) (rv : ℤ) (c' : Connection σ) : Prop where
  yields : L.source.Yields (s, c.session) blocks mid
  eq : ∃ last : σ × Session, c' =
    { c with
      nghttp2 := some last.1
      session := last.2
      output := c.output ++ blocks.flatten
      accepted := c.accepted ++ blocks } ∧
    ((L.source.offer mid = .nothing last ∧ rv = 0) ∨
      ((∃ e, L.source.offer mid = .fails e last) ∧ rv = -1) ∨
      (∃ b hne u, L.source.offer mid = .block b hne last u) ∧
        OUTPUT_WOULDBLOCK_THRESHOLD ≤ c'.output.length ∧ rv = 0)
  room : ∀ pre b post, blocks = pre ++ b :: post →
    (c.output ++ pre.flatten).length < OUTPUT_WOULDBLOCK_THRESHOLD

theorem sessionSend_sends (L : Nghttp2 σ Code) {c : Connection σ} {s : σ} (hs : c.nghttp2 = some s) :
    ∃ blocks mid, Sends L c s blocks mid (sessionSend L c).1 (sessionSend L c).2 := by
  obtain ⟨-, blocks, mid, -, -, hsent, hend⟩ :=
    L.source.send_sent (s := sender c s) writeBlock_limited rfl
  refine ⟨blocks, mid, ?_⟩
  have hbuffer : (L.source.send writeBlock OUTPUT_WOULDBLOCK_THRESHOLD (sender c s)).buffer =
      c.output ++ blocks.flatten := hsent.buffer
  have htaken : (L.source.send writeBlock OUTPUT_WOULDBLOCK_THRESHOLD (sender c s)).taken =
      c.accepted ++ blocks := hsent.taken
  have hroom : ∀ pre b post, blocks = pre ++ b :: post →
      (c.output ++ pre.flatten).length < OUTPUT_WOULDBLOCK_THRESHOLD := hsent.room
  unfold sessionSend
  simp only [hs]
  generalize L.source.send writeBlock OUTPUT_WOULDBLOCK_THRESHOLD (sender c s) = t at *
  -- the three reasons to stop: nothing left, an error, or a full output
  cases hend with
  | dry hoffer hok =>
      rw [hok]
      exact ⟨hsent.yields, ⟨t.source, by simp [hbuffer, htaken], Or.inl ⟨hoffer, rfl⟩⟩, hroom⟩
  | failed hoffer herr =>
      rw [herr]
      exact ⟨hsent.yields,
        ⟨t.source, by simp [hbuffer, htaken], Or.inr (Or.inl ⟨⟨_, hoffer⟩, rfl⟩)⟩, hroom⟩
  | full hoffer hfull hok =>
      rw [hok]
      exact ⟨hsent.yields,
        ⟨t.source, by simp [hbuffer, htaken], Or.inr (Or.inr ⟨⟨_, _, _, hoffer⟩, hfull, rfl⟩)⟩, hroom⟩

/-- Accepting blocks, one by one. -/
theorem takes_moves {L : Nghttp2 σ Code} {c : Connection σ} {s : σ} (hs : c.nghttp2 = some s)
    {blocks : List Bytes} {mid : σ × Session} (hyields : L.source.Yields (s, c.session) blocks mid)
    (hroom : ∀ pre b post, blocks = pre ++ b :: post →
      (c.output ++ pre.flatten).length < OUTPUT_WOULDBLOCK_THRESHOLD) :
    ReflTransGen (Move L) c
      { c with
        nghttp2 := some mid.1
        session := mid.2
        output := c.output ++ blocks.flatten
        accepted := c.accepted ++ blocks } := by
  generalize hstart : (s, c.session) = start at hyields
  induction hyields generalizing c s with
  | nil start =>
      subst hstart
      -- without blocks the connection stays as it is
      have hsame : c =
          { c with
            nghttp2 := some s
            output := c.output ++ ([] : List Bytes).flatten
            accepted := c.accepted ++ [] } := by
        cases c
        simpa using hs
      exact hsame ▸ .refl
  | @cons start h t mid b hne bs hoffer _ ih =>
      subst hstart
      -- the first block, and then the others from the connection that has accepted it
      have hmove := Move.take c hs hoffer (by simpa using hroom [] b bs rfl)
      have hrest := ih (c :=
        { c with
          nghttp2 := some t.1
          session := t.2
          output := c.output ++ b
          accepted := c.accepted ++ [b] }) (s := t.1) rfl
        (fun pre b' post hsplit => by simpa using hroom (b :: pre) b' post (by rw [hsplit]; rfl)) rfl
      simpa using ReflTransGen.head hmove hrest

/-- However the call has ended, `nghttp2` was asked once more, and that block was not taken. -/
theorem Sends.last {L : Nghttp2 σ Code} {c c' : Connection σ} {s : σ} {blocks : List Bytes}
    {mid : σ × Session} {rv : ℤ} (h : Sends L c s blocks mid rv c') : ∃ last : σ × Session, c' =
      { c with
        nghttp2 := some last.1
        session := last.2
        output := c.output ++ blocks.flatten
        accepted := c.accepted ++ blocks } ∧
      (L.source.offer mid = .nothing last ∨ (∃ e, L.source.offer mid = .fails e last) ∨
        ∃ b hne u, L.source.offer mid = .block b hne last u) := by
  obtain ⟨last, heq, hend⟩ := h.eq
  refine ⟨last, heq, ?_⟩
  rcases hend with ⟨hnothing, -⟩ | ⟨hfails, -⟩ | ⟨hheld, -⟩
  · exact Or.inl hnothing
  · exact Or.inr (Or.inl hfails)
  · exact Or.inr (Or.inr hheld)

theorem Sends.moves {L : Nghttp2 σ Code} {c c' : Connection σ} {s : σ} (hs : c.nghttp2 = some s)
    {blocks : List Bytes} {mid : σ × Session} {rv : ℤ} (h : Sends L c s blocks mid rv c') :
    ReflTransGen (Move L) c c' := by
  obtain ⟨last, rfl, hoffer⟩ := h.last
  have htakes := takes_moves hs h.yields h.room
  have hidle := Move.idle (L := L) (t := last)
    { c with
      nghttp2 := some mid.1
      session := mid.2
      output := c.output ++ blocks.flatten
      accepted := c.accepted ++ blocks } rfl hoffer
  exact htakes.tail hidle

theorem Sends.calls {L : Nghttp2 σ Code} {c c' : Connection σ} {s : σ} {blocks : List Bytes}
    {mid : σ × Session} {rv : ℤ} (h : Sends L c s blocks mid rv c') :
    Calls Code c.session c'.session := by
  obtain ⟨last, rfl, hoffer⟩ := h.last
  exact (yields_calls L h.yields).trans (idle_calls L hoffer)

theorem tornDown_sessionSend (L : Nghttp2 σ Code) {c : Connection σ} (hs : c.nghttp2.isSome) :
    (sessionSend L c).2.session.tornDown = c.session.tornDown := by
  obtain ⟨s, hs⟩ := Option.isSome_iff_exists.mp hs
  obtain ⟨blocks, mid, hsends⟩ := sessionSend_sends L hs
  exact calls_tornDown hsends.calls

theorem sessionSend_moves (L : Nghttp2 σ Code) {c : Connection σ} (hs : c.nghttp2.isSome) :
    ReflTransGen (Move L) c (sessionSend L c).2 := by
  obtain ⟨s, hs⟩ := Option.isSome_iff_exists.mp hs
  obtain ⟨blocks, mid, hsends⟩ := sessionSend_sends L hs
  exact hsends.moves hs

/-! ## Events -/

section Events

variable (L : Nghttp2 σ Code)

/-- A call that does not tear the session down, and the session is deleted if the call fails. -/
theorem Move.unless {c c' : Connection σ} (h : ReflTransGen (Move L) c c')
    (hlive : c'.session.tornDown = false) (rv : ℤ) :
    ReflTransGen (Move L) c (if rv ≠ 0 then c'.delete else c') := by
  split
  · exact h.tail (.delete c' hlive)
  · exact h

theorem sessionRecv_moves {c : Connection σ} (hs : c.nghttp2.isSome) :
    ReflTransGen (Move L) c (sessionRecv L c).2 ∧
      (sessionRecv L c).2.session.tornDown = c.session.tornDown := by
  obtain ⟨s, hs⟩ := Option.isSome_iff_exists.mp hs
  obtain ⟨⟨n, t⟩, hrecv⟩ : ∃ r, L.memRecv (s, c.session) c.input = r := ⟨_, rfl⟩
  have hmove := Move.recv c hs hrecv
  have hcalls : Calls Code c.session t.2 := by
    have hcalls := L.memRecv_calls (s, c.session) c.input
    rwa [hrecv] at hcalls
  unfold sessionRecv
  rw [hs]
  simp only [hrecv]
  split
  · next hneg =>
      -- nothing is drained
      rw [Int.toNat_of_nonpos (Int.le_of_lt hneg)] at hmove
      exact ⟨by simpa using ReflTransGen.single hmove, calls_tornDown hcalls⟩
  · have hsend := (ReflTransGen.single hmove).trans (sessionSend_moves L rfl)
    have htorn := (tornDown_sessionSend L (c :=
      { c with
        nghttp2 := some t.1
        session := t.2
        fed := c.fed ++ c.input.take n.toNat
        input := c.input.drop n.toNat }) rfl).trans (calls_tornDown hcalls)
    split <;> exact ⟨hsend, htorn⟩

theorem http2Eventcb_moves (connected : Bool) (npn alpn : Option Bytes) {c : Connection σ}
    (halive : c.alive = true) (hnew : connected = true → c.nghttp2 = none) :
    ReflTransGen (Move L) c (http2Eventcb L connected npn alpn c) := by
  have hlive := c.tornDown_of_alive halive
  unfold http2Eventcb
  split
  · next hconnected =>
      have hstart : ReflTransGen (Move L) c
          (sendServerConnectionHeader L (initializeNghttp2Session L c)).2 :=
        .single (.start c halive (hnew hconnected) _ rfl)
      have hsome : (sendServerConnectionHeader L (initializeNghttp2Session L c)).2.nghttp2.isSome := rfl
      have hlive' : (sendServerConnectionHeader L
        (initializeNghttp2Session L c)).2.session.tornDown = false := hlive
      -- all that is used of the new session
      generalize sendServerConnectionHeader L (initializeNghttp2Session L c) = r at hstart hsome hlive'
      generalize (if npn = none then alpn else npn) = negotiated
      dsimp only
      split
      · exact .single (.delete c hlive)
      · split
        · exact hstart.tail (.delete r.2 hlive')
        · exact Move.unless L (hstart.trans (sessionSend_moves L hsome))
            ((tornDown_sessionSend L hsome).trans hlive') _
  · exact .single (.delete c hlive)

theorem http2Readcb_moves {c : Connection σ} (halive : c.alive = true) (hs : c.nghttp2.isSome) :
    ReflTransGen (Move L) c (http2Readcb L c) := by
  obtain ⟨hmoves, htorn⟩ := sessionRecv_moves L hs
  exact Move.unless L hmoves (htorn.trans (c.tornDown_of_alive halive)) _

theorem http2Writecb_moves {c : Connection σ} (halive : c.alive = true) (hs : c.nghttp2.isSome) :
    ReflTransGen (Move L) c (http2Writecb L c) := by
  have hlive := c.tornDown_of_alive halive
  unfold http2Writecb
  split
  · exact .refl
  · split
    · next hnone => simp [hnone] at hs
    · split
      · exact .single (.delete c hlive)
      · exact Move.unless L (sessionSend_moves L hs) ((tornDown_sessionSend L hs).trans hlive) _

/-- Every event is a sequence of moves. -/
theorem connectionStep_moves {c c' : Connection σ} {e : ConnectionEvent}
    (hstep : connectionStep L c e = some c') : ReflTransGen (Move L) c c' := by
  simp only [connectionStep, Option.ite_none_left_eq_some] at hstep
  obtain ⟨halive, hstep⟩ := hstep
  have halive : c.alive = true := by simpa using halive
  cases e with
  | event connected npn alpn =>
      simp only [Option.ite_none_left_eq_some, Option.some.injEq] at hstep
      obtain ⟨hnew, rfl⟩ := hstep
      refine http2Eventcb_moves L connected npn alpn halive fun h => ?_
      simpa [h] using hnew
  | arrive data =>
      cases hstep
      exact .single (.arrive c data)
  | readable =>
      simp only [Option.ite_none_left_eq_some, Option.some.injEq] at hstep
      obtain ⟨hsome, rfl⟩ := hstep
      exact http2Readcb_moves L halive (Option.isSome_iff_ne_none.mpr (by simpa using hsome))
  | write n =>
      simp only [Option.ite_none_right_eq_some, Option.some.injEq] at hstep
      obtain ⟨-, rfl⟩ := hstep
      exact .single (.write c n _)
  | writable =>
      simp only [Option.ite_none_left_eq_some, Option.some.injEq] at hstep
      obtain ⟨hsome, rfl⟩ := hstep
      exact .head (.due c false) (http2Writecb_moves L halive (Option.isSome_iff_ne_none.mpr (by simpa using hsome)))

/-- What every move keeps holds after every run. -/
theorem connection_invariant {I : Connection σ → Prop} (hmove : ∀ c c', I c → Move L c c' → I c')
    {c c' : Connection σ} {es : List ConnectionEvent} (hc : I c)
    (hexec : (connectionMachine L).exec c es = some c') : I c' := by
  refine (connectionMachine L).exec_invariant (fun s e t hs hstep => ?_) hc hexec
  have hmoves := connectionStep_moves L hstep
  clear hstep
  induction hmoves with
  | refl => exact hs
  | tail _ hlast ih => exact hmove _ _ ih hlast

end Events

end Gfhttpd.Http2
