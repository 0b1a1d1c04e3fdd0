import Gfhttpd.Http2.Moves

/-!
# The bytes of an HTTP/2 connection

Between `nghttp2` and the network there are the two buffers of a `bufferevent`, and the limit of
`send_callback` on the output.

- `streams_kept`: no byte is lost, repeated or reordered in either direction
- `silent_without_h2`: nothing is exchanged unless `h2` was negotiated
- `output_bounded`: the output is bounded, and `session_send` returns, however much there is to send
- `never_stalled`: as long as there is something to send, libevent owes us a callback for it
- `owed_delivers`: those callbacks deliver all of it, in whatever order they are made
-/

namespace Gfhttpd.Http2

open Throttle Transition Relation

variable {σ Code : Type}

/-! ## Nothing is lost -/

/-- `nghttp2` by itself, without buffers: what was fed to it, and the blocks that were taken of it. -/
inductive Evolves (L : Nghttp2 σ Code) (start : σ × Session) :
    Bytes → List Bytes → σ × Session → Prop
  | refl : Evolves L start [] [] start
  | recv {fed : Bytes} {blocks : List Bytes} {t u : σ × Session} {n : ℤ} {data : Bytes}
      (hstart : Evolves L start fed blocks t) (hrecv : L.memRecv t data = (n, u)) :
      Evolves L start (fed ++ data.take n.toNat) blocks u
  | take {fed : Bytes} {blocks : List Bytes} {t h u : σ × Session} {b : Bytes} {hne : b ≠ []}
      (hstart : Evolves L start fed blocks t) (hoffer : L.source.offer t = .block b hne h u) :
      Evolves L start fed (blocks ++ [b]) u
  | idle {fed : Bytes} {blocks : List Bytes} {t u : σ × Session}
      (hstart : Evolves L start fed blocks t)
      (hoffer : L.source.offer t = .nothing u ∨ (∃ e, L.source.offer t = .fails e u) ∨
        ∃ b hne v, L.source.offer t = .block b hne u v) : Evolves L start fed blocks u

/-- A new session, with the settings submitted. -/
def Nghttp2.started (L : Nghttp2 σ Code) : σ × Session :=
  ((L.submitSettings L.serverNew [(NGHTTP2_SETTINGS_MAX_CONCURRENT_STREAMS, 100)]).2, Session.init)

/-- What holds of the bytes of a connection. -/
structure Piped (L : Nghttp2 σ Code) (c : Connection σ) : Prop where
  out : c.sent ++ c.output = c.accepted.flatten
  inp : c.fed ++ c.input = c.received
  fresh : c.nghttp2 = none → c.alive = true →
    c.fed = [] ∧ c.accepted = [] ∧ c.session = Session.init
  evolves : ∃ t, Evolves L L.started c.fed c.accepted t ∧
    ∀ s, c.nghttp2 = some s → t = (s, c.session)

theorem Piped.create (L : Nghttp2 σ Code) : Piped L Connection.create where
  out := rfl
  inp := rfl
  fresh _ _ := ⟨rfl, rfl, rfl⟩
  evolves := ⟨L.started, .refl, nofun⟩

theorem Piped.move {L : Nghttp2 σ Code} {c c' : Connection σ} (h : Piped L c)
    (hmove : Move L c c') : Piped L c' := by
  obtain ⟨t, hevolves, hstate⟩ := h.evolves
  cases hmove with
  | arrive data => exact ⟨h.out, by simp [← h.inp], h.fresh, h.evolves⟩
  | write n due => exact ⟨by simp [← h.out], h.inp, h.fresh, h.evolves⟩
  | due due => exact ⟨h.out, h.inp, h.fresh, h.evolves⟩
  | start halive hnew s hs =>
      obtain ⟨hfed, haccepted, hsession⟩ := h.fresh hnew halive
      refine ⟨h.out, h.inp, nofun, L.started, ?_, fun s' hs' => ?_⟩
      · rw [hfed, haccepted]
        exact .refl
      · cases hs'
        rw [hs, hsession]
        rfl
  | recv hs hrecv =>
      obtain rfl := hstate _ hs
      refine ⟨h.out, ?_, nofun, _, hevolves.recv hrecv, fun s' hs' => ?_⟩
      · rw [← h.inp, List.append_assoc, List.take_append_drop]
      · cases hs'
        rfl
  | take hs hoffer hroom =>
      obtain rfl := hstate _ hs
      refine ⟨?_, h.inp, nofun, _, hevolves.take hoffer, fun s' hs' => ?_⟩
      · rw [← List.append_assoc, h.out]
        simp
      · cases hs'
        rfl
  | idle hs hoffer =>
      obtain rfl := hstate _ hs
      refine ⟨h.out, h.inp, nofun, _, hevolves.idle hoffer, fun s' hs' => ?_⟩
      cases hs'
      rfl
  | delete hlive =>
      unfold Connection.delete
      split
      · exact h
      · refine ⟨h.out, h.inp, fun _ halive => ?_, t, hevolves, nofun⟩
        -- it is not alive any more
        simp only [Connection.alive, deleteHttp2SessionData] at halive
        split at halive <;> simp [Session.crash] at halive

/-- **In every run, the bytes that went out and those in the output are the blocks that `nghttp2` gave,
in order; those it has read and those in the input are the bytes that came in; and it has
done what it does when it is fed with the ones and asked for the others directly.** -/
theorem streams_kept (L : Nghttp2 σ Code) {es : List ConnectionEvent} {c : Connection σ}
    (hexec : (connectionMachine L).exec Connection.create es = some c) :
    c.sent ++ c.output = c.accepted.flatten ∧ c.fed ++ c.input = c.received ∧
      ∃ t, Evolves L L.started c.fed c.accepted t ∧ ∀ s, c.nghttp2 = some s → t = (s, c.session) := by
  have h := connection_invariant L (I := Piped L) (fun _ _ => Piped.move) (.create L) hexec
  exact ⟨h.out, h.inp, h.evolves⟩

/-- The handshake, and the settings of both sides. -/
def settingsExchange : List ConnectionEvent :=
  [.event true none (some (ascii "h2")), .write 15, .writable, .arrive (ascii "PRI"), .readable,
    .write 9, .writable]

/-- A connection on which only settings are exchanged. -/
theorem streams_kept_settings : ∃ c, (connectionMachine settingsOnly).exec Connection.create
    settingsExchange = some c ∧ c.sent ++ c.output = c.accepted.flatten ∧ c.sent.length = 24 :=
  ⟨_, rfl, (@streams_kept _ _ settingsOnly settingsExchange _ rfl).1, rfl⟩

/-! ## Only with `h2` -/

/-- The handshake has ended with `h2`. -/
def Negotiates : ConnectionEvent → Prop
  | .event connected npn alpn =>
      connected = true ∧ (if npn = none then alpn else npn) = some (ascii "h2")
  | _ => False

/-- `nghttp2` was not called, and nothing went out. -/
structure Silent (c : Connection σ) : Prop where
  nghttp2 : c.nghttp2 = none
  output : c.output = []
  fed : c.fed = []
  accepted : c.accepted = []
  sent : c.sent = []

theorem Silent.delete {c : Connection σ} (h : Silent c) : Silent c.delete := by
  unfold Connection.delete
  split
  · exact h
  · exact ⟨rfl, h.output, h.fed, h.accepted, h.sent⟩

theorem Silent.step {L : Nghttp2 σ Code} {c c' : Connection σ} {e : ConnectionEvent} (h : Silent c)
    (he : ¬ Negotiates e) (hstep : connectionStep L c e = some c') : Silent c' := by
  simp only [connectionStep, Option.ite_none_left_eq_some] at hstep
  obtain ⟨-, hstep⟩ := hstep
  cases e with
  | event connected npn alpn =>
      simp only [Option.ite_none_left_eq_some, Option.some.injEq] at hstep
      obtain ⟨-, rfl⟩ := hstep
      unfold http2Eventcb
      split
      · next hconnected =>
          dsimp only
          rw [if_pos fun hh2 => he ⟨hconnected, hh2⟩]
          exact h.delete
      · exact h.delete
  | arrive data =>
      cases hstep
      exact ⟨h.nghttp2, h.output, h.fed, h.accepted, h.sent⟩
  | readable => simp [h.nghttp2] at hstep
  | write n =>
      -- there is nothing in the output
      simp only [h.output, List.length_nil, Option.ite_none_right_eq_some] at hstep
      omega
  | writable => simp [h.nghttp2] at hstep

/-- **A connection on which `h2` was not negotiated gives no byte to `nghttp2`, takes none from it, and
sends none.** -/
theorem silent_without_h2 (L : Nghttp2 σ Code) {es : List ConnectionEvent} {c : Connection σ}
    (hexec : (connectionMachine L).exec Connection.create es = some c)
    (hes : ∀ e ∈ es, ¬ Negotiates e) :
    c.fed = [] ∧ c.accepted = [] ∧ c.sent = [] := by
  have hsilent : Silent c := (connectionMachine L).exec_invariant_of_meets (I := Silent)
    (fun _ _ _ hs he hstep => hs.step he hstep) ⟨rfl, rfl, rfl, rfl, rfl⟩
    ((connectionMachine L).meets_of_forall hes) hexec
  exact ⟨hsilent.fed, hsilent.accepted, hsilent.sent⟩

/-- A client that sends a request and offers `http/1.1`. -/
theorem silent_without_h2_http1 : ∃ c, (connectionMachine settingsOnly).exec Connection.create
    [.arrive (ascii "GET / HTTP/1.1"), .event true none (some (ascii "http/1.1"))] = some c ∧
      c.fed = [] ∧ c.accepted = [] ∧ c.sent = [] :=
  ⟨_, rfl, @silent_without_h2 _ _ settingsOnly
    [.arrive (ascii "GET / HTTP/1.1"), .event true none (some (ascii "http/1.1"))] _ rfl
    (by simp [Negotiates, ascii])⟩

/-! ## The output is bounded -/

theorem bounded_move {L : Nghttp2 σ Code} {c c' : Connection σ}
    (h : c.output.length < OUTPUT_WOULDBLOCK_THRESHOLD + L.maxBlock) (hmove : Move L c c') :
    c'.output.length < OUTPUT_WOULDBLOCK_THRESHOLD + L.maxBlock := by
  cases hmove with
  | arrive data => exact h
  | write n due => exact Nat.lt_of_le_of_lt (by simp) h
  | due due => exact h
  | start halive hnew s hs => exact h
  | recv hs hrecv => exact h
  | take hs hoffer hroom =>
      -- there was room, so the block goes at most its own length beyond the limit
      have hblock := L.block_le hoffer
      simp only [List.length_append]
      omega
  | idle hs hoffer => exact h
  | delete hlive =>
      unfold Connection.delete
      split <;> exact h

/-- **In every state of a run, the output is shorter than the limit and one block, and a call of
`session_send` would return, after a number of calls of `send_callback` that does not depend on how
much `nghttp2` has to send.** -/
theorem output_bounded (L : Nghttp2 σ Code) {es : List ConnectionEvent} {c : Connection σ}
    (hexec : (connectionMachine L).exec Connection.create es = some c) :
    c.output.length < OUTPUT_WOULDBLOCK_THRESHOLD + L.maxBlock ∧
      ∀ s, c.nghttp2 = some s → ∃ begins t, (L.source.loop writeBlock).Ends (sender c s) begins (some t) ∧
        begins.length ≤ OUTPUT_WOULDBLOCK_THRESHOLD - c.output.length + 1 ∧
        (sessionSend L c).2.output = t.buffer := by
  refine ⟨?_, fun s hs => ?_⟩
  · refine connection_invariant L
      (I := fun c => c.output.length < OUTPUT_WOULDBLOCK_THRESHOLD + L.maxBlock)
      (fun _ _ => bounded_move) ?_ hexec
    exact Nat.add_pos_left (by decide) L.maxBlock
  · obtain ⟨begins, blocks, mid, hends, hlen, -⟩ :=
      L.source.send_sent (s := sender c s) writeBlock_limited rfl
    refine ⟨begins, _, hends, hlen, ?_⟩
    unfold sessionSend
    rw [hs]
    dsimp only
    split <;> rfl

theorem output_bounded_settings : ∃ c, (connectionMachine settingsOnly).exec Connection.create
    settingsExchange = some c ∧ c.output.length < OUTPUT_WOULDBLOCK_THRESHOLD + 15 :=
  ⟨_, rfl, (@output_bounded _ _ settingsOnly settingsExchange _ rfl).1⟩

/-! ## Sending does not stall -/

/-- Nothing is left to send, or there will be a callback for it. -/
def Flowing (L : Nghttp2 σ Code) (c : Connection σ) : Prop :=
  ∀ s, c.nghttp2 = some s → c.output = [] → c.writeDue = false →
    ∃ r, L.source.offer (s, c.session) = .nothing r

theorem Sends.flowing {L : Nghttp2 σ Code} {c c' : Connection σ} {s : σ} {blocks : List Bytes}
    {mid : σ × Session} {rv : ℤ} (h : Sends L c s blocks mid rv c') (hrv : rv = 0) :
    Flowing L c' := by
  obtain ⟨last, rfl, hend⟩ := h.eq
  intro s' hs' hempty _
  obtain rfl : last.1 = s' := by simpa using hs'
  rcases hend with ⟨hnothing, -⟩ | ⟨-, hfailed⟩ | ⟨-, hfull, -⟩
  · exact ⟨last, L.source.nothing_again hnothing⟩
  · rw [hrv] at hfailed
    cases hfailed
  · -- the output is not empty when it is full
    rw [hempty] at hfull
    cases hfull

/-- A deleted session has nothing to send, and neither has a crashed one. -/
theorem flowing_delete (L : Nghttp2 σ Code) (c : Connection σ) : Flowing L c.delete := by
  intro s hs _ _
  unfold Connection.delete at hs ⊢
  split at hs
  · next hcrashed => exact ⟨_, by rw [if_pos hcrashed]; exact L.crashed hcrashed⟩
  · cases hs

/-- `session_send`, and the session is deleted if that fails. -/
theorem flowing_send (L : Nghttp2 σ Code) {c : Connection σ} (hs : c.nghttp2.isSome) :
    Flowing L (if (sessionSend L c).1 ≠ 0 then (sessionSend L c).2.delete else (sessionSend L c).2) := by
  obtain ⟨s, hs⟩ := Option.isSome_iff_exists.mp hs
  obtain ⟨blocks, mid, hsends⟩ := sessionSend_sends L hs
  split
  · exact flowing_delete L _
  · next hrv => exact hsends.flowing (not_not.mp hrv)

theorem flowing_create (L : Nghttp2 σ Code) : Flowing L Connection.create := by
  intro s hs
  cases hs

theorem flowing_eventcb (L : Nghttp2 σ Code) (connected : Bool) (npn alpn : Option Bytes)
    (c : Connection σ) : Flowing L (http2Eventcb L connected npn alpn c) := by
  unfold http2Eventcb
  split
  · have hsome : (sendServerConnectionHeader L (initializeNghttp2Session L c)).2.nghttp2.isSome := rfl
    generalize sendServerConnectionHeader L (initializeNghttp2Session L c) = r at hsome
    generalize (if npn = none then alpn else npn) = negotiated
    dsimp only
    split
    · exact flowing_delete L c
    · split
      · exact flowing_delete L r.2
      · exact flowing_send L hsome
  · exact flowing_delete L c

theorem flowing_readcb (L : Nghttp2 σ Code) {c : Connection σ} (hs : c.nghttp2.isSome) :
    Flowing L (http2Readcb L c) := by
  obtain ⟨s, hs⟩ := Option.isSome_iff_exists.mp hs
  obtain ⟨⟨n, t⟩, hrecv⟩ : ∃ r, L.memRecv (s, c.session) c.input = r := ⟨_, rfl⟩
  unfold http2Readcb sessionRecv
  rw [hs]
  simp only [hrecv]
  by_cases hneg : n < 0
  · -- `session_recv` has failed
    simp only [hneg, if_true]
    exact flowing_delete L _
  · simp only [hneg, if_false]
    -- what was read is answered by `session_send`, on the rest of the input
    have hsend := flowing_send L (c :=
      { c with
        nghttp2 := some t.1
        session := t.2
        fed := c.fed ++ c.input.take n.toNat
        input := c.input.drop n.toNat }) rfl
    split
    · next hrv =>
        rw [if_pos hrv] at hsend
        exact hsend
    · next hrv =>
        rw [if_neg hrv] at hsend
        exact hsend

theorem flowing_writecb (L : Nghttp2 σ Code) {c : Connection σ} (hs : c.nghttp2.isSome) :
    Flowing L (http2Writecb L c) := by
  unfold http2Writecb
  split
  · next hpos =>
      intro s _ hempty _
      rw [hempty] at hpos
      cases hpos
  · split
    · next hnone => simp [hnone] at hs
    · split
      · exact flowing_delete L c
      · exact flowing_send L hs

theorem flowing_step {L : Nghttp2 σ Code} {c c' : Connection σ} {e : ConnectionEvent}
    (h : Flowing L c) (hstep : connectionStep L c e = some c') : Flowing L c' := by
  simp only [connectionStep, Option.ite_none_left_eq_some] at hstep
  obtain ⟨-, hstep⟩ := hstep
  cases e with
  | event connected npn alpn =>
      simp only [Option.ite_none_left_eq_some, Option.some.injEq] at hstep
      obtain ⟨-, rfl⟩ := hstep
      exact flowing_eventcb L connected npn alpn c
  | arrive data =>
      cases hstep
      exact h
  | readable =>
      simp only [Option.ite_none_left_eq_some, Option.some.injEq] at hstep
      obtain ⟨hsome, rfl⟩ := hstep
      exact flowing_readcb L (Option.isSome_iff_ne_none.mpr (by simpa using hsome))
  | write n =>
      simp only [Option.ite_none_right_eq_some, Option.some.injEq] at hstep
      obtain ⟨-, rfl⟩ := hstep
      -- an output that has become empty is reported
      intro s _ hempty hdue
      rw [show c.output.drop n = [] from hempty] at hdue
      simp at hdue
  | writable =>
      simp only [Option.ite_none_left_eq_some, Option.some.injEq] at hstep
      obtain ⟨hsome, rfl⟩ := hstep
      exact flowing_writecb L (Option.isSome_iff_ne_none.mpr (by simpa using hsome))

theorem flowing_exec (L : Nghttp2 σ Code) {es : List ConnectionEvent} {c : Connection σ}
    (hexec : (connectionMachine L).exec Connection.create es = some c) : Flowing L c :=
  (connectionMachine L).exec_invariant (I := Flowing L)
    (fun _ _ _ hs hstep => flowing_step hs hstep) (flowing_create L) hexec

/-- **No run stalls: when the output is empty, and libevent does not owe us a call of `http2_writecb`,
then `nghttp2` has nothing to send.** -/
theorem never_stalled (L : Nghttp2 σ Code) {es : List ConnectionEvent} {c : Connection σ}
    (hexec : (connectionMachine L).exec Connection.create es = some c) {s : σ}
    (hs : c.nghttp2 = some s) (hempty : c.output = []) (hdue : c.writeDue = false) :
    ∃ r, L.source.offer (s, c.session) = .nothing r :=
  flowing_exec L hexec s hs hempty hdue

theorem never_stalled_settings : ∃ c, (connectionMachine settingsOnly).exec Connection.create
    settingsExchange = some c ∧ ∃ r, settingsOnly.source.offer ([], c.session) = .nothing r :=
  ⟨_, rfl, @never_stalled _ _ settingsOnly settingsExchange _ rfl _ rfl rfl rfl⟩

/-! ## Everything is delivered -/

/-- The network takes some of the output, or libevent makes the call of `http2_writecb` that it owes. -/
def Owed (c : Connection σ) : ConnectionEvent → Prop
  | .write n => 0 < n ∧ n ≤ c.output.length
  | .writable => c.writeDue = true
  | _ => False

instance (c : Connection σ) (e : ConnectionEvent) : Decidable (Owed c e) :=
  match e with
  | .write n => inferInstanceAs (Decidable (0 < n ∧ n ≤ c.output.length))
  | .writable => inferInstanceAs (Decidable (c.writeDue = true))
  | .event .. => .isFalse id
  | .arrive _ => .isFalse id
  | .readable => .isFalse id

/-- What `nghttp2` still has to send. -/
def Left (L : Nghttp2 σ Code) (c : Connection σ) (blocks : List Bytes) : Prop :=
  match c.nghttp2 with
  | none => blocks = []
  | some s => L.source.Drains (s, c.session) blocks

/-- These blocks are left with `nghttp2`; what is to be delivered was, or is in the output, or is left. -/
structure Delivering (L : Nghttp2 σ Code) (all : Bytes) (c : Connection σ) (blocks : List Bytes) :
    Prop where
  left : Left L c blocks
  all : c.sent ++ c.output ++ blocks.flatten = all
  flowing : Flowing L c

/-- How many events can be owed until everything is delivered. -/
def credit (c : Connection σ) (blocks : List Bytes) : ℕ :=
  2 * (c.output.length + blocks.flatten.length) + if c.writeDue then 1 else 0

section Deliver

variable {L : Nghttp2 σ Code} {all : Bytes} {c c' : Connection σ} {blocks : List Bytes}

/-- A session that does not want to write has nothing left. -/
theorem Left.eq_nil (h : Left L c blocks) {s : σ} (hs : c.nghttp2 = some s)
    (hwrite : L.wantWrite s = false) : blocks = [] := by
  simp only [Left, hs] at h
  obtain ⟨u, r, hyields, -⟩ := h
  cases hyields with
  | nil => rfl
  | cons hoffer _ =>
      have hwanted : L.wantWrite s = true := L.block_wanted hoffer
      rw [hwrite] at hwanted
      cases hwanted

theorem Left.delete (h : Left L c blocks) (hblocks : blocks = []) : Left L c.delete blocks := by
  unfold Connection.delete
  split
  · exact h
  · exact hblocks

/-- `session_send` takes what there is room for, and does not fail. -/
theorem Left.send {s : σ} (h : Left L c blocks) (hs : c.nghttp2 = some s) (hempty : c.output = []) :
    ∃ now later, blocks = now ++ later ∧ (sessionSend L c).1 = 0 ∧
      Left L (sessionSend L c).2 later ∧ (sessionSend L c).2.output = now.flatten ∧
      (sessionSend L c).2.sent = c.sent ∧ (sessionSend L c).2.writeDue = c.writeDue := by
  simp only [Left, hs] at h
  obtain ⟨now, later, hblocks, -, -, hbuffer, hended, hlater⟩ :=
    h.send (s := sender c s) writeBlock_limited (by decide) rfl hempty
  refine ⟨now, later, hblocks, ?_⟩
  unfold sessionSend
  rw [hs]
  simp only [hended]
  exact ⟨trivial, hlater, hbuffer, trivial, trivial⟩

/-- `http2_writecb` moves bytes from `nghttp2` to the output, and does nothing else. -/
theorem Left.writecb (h : Left L c blocks) (hsome : c.nghttp2.isSome) :
    ∃ later, Left L (http2Writecb L c) later ∧ (http2Writecb L c).sent = c.sent ∧
      (http2Writecb L c).writeDue = c.writeDue ∧
      (http2Writecb L c).output ++ later.flatten = c.output ++ blocks.flatten := by
  obtain ⟨s, hs⟩ := Option.isSome_iff_exists.mp hsome
  unfold http2Writecb
  by_cases hempty : c.output = []
  · rw [if_neg (by simp [hempty]), hs]
    dsimp only
    split
    · next hdone =>
        -- nothing is wanted any more, and nothing was left
        obtain rfl := h.eq_nil hs hdone.2
        refine ⟨[], h.delete rfl, ?_⟩
        unfold Connection.delete
        split <;> exact ⟨rfl, rfl, rfl⟩
    · obtain ⟨now, later, rfl, hrv, hlater, houtput, hsent, hdue⟩ := h.send hs hempty
      rw [if_neg (not_not.mpr hrv)]
      exact ⟨later, hlater, hsent, hdue, by simp [houtput, hempty]⟩
  · rw [if_pos (List.length_pos_iff.mpr hempty)]
    exact ⟨blocks, h, rfl, rfl, rfl⟩

/-- An event that is owed gets on. -/
theorem Delivering.step (h : Delivering L all c blocks) {e : ConnectionEvent} (howed : Owed c e)
    (hstep : connectionStep L c e = some c') :
    ∃ later, Delivering L all c' later ∧ credit c' later < credit c blocks := by
  have hflowing := flowing_step h.flowing hstep
  simp only [connectionStep, Option.ite_none_left_eq_some] at hstep
  obtain ⟨-, hstep⟩ := hstep
  cases e with
  | event connected npn alpn => cases howed
  | arrive data => cases howed
  | readable => cases howed
  | write n =>
      simp only [Option.ite_none_right_eq_some, Option.some.injEq] at hstep
      obtain ⟨⟨hpos, hle⟩, rfl⟩ := hstep
      refine ⟨blocks, ⟨h.left, ?_, hflowing⟩, ?_⟩
      · rw [← h.all]
        simp
      · -- a byte less is worth more than the call that may be owed for it
        simp only [credit, List.length_drop]
        split <;> split <;> omega
  | writable =>
      simp only [Option.ite_none_left_eq_some, Option.some.injEq] at hstep
      obtain ⟨hsome, rfl⟩ := hstep
      have howed : c.writeDue = true := howed
      have hleft : Left L { c with writeDue := false } blocks := h.left
      obtain ⟨later, hlater, hsent, hdue, hbytes⟩ :=
        hleft.writecb (Option.isSome_iff_ne_none.mpr (by simpa using hsome))
      refine ⟨later, ⟨hlater, ?_, hflowing⟩, ?_⟩
      · rw [hsent, List.append_assoc, hbytes, ← List.append_assoc]
        exact h.all
      · -- as many bytes are left, but the call is not owed any more
        have hlength := congrArg List.length hbytes
        simp only [List.length_append] at hlength
        simp only [credit, hdue, hlength, howed, if_true]
        exact Nat.lt_succ_self _

/-- A run of such events. -/
theorem Delivering.run (h : Delivering L all c blocks) {es : List ConnectionEvent}
    (howed : (connectionMachine L).Meets Owed c es)
    (hexec : (connectionMachine L).exec c es = some c') :
    ∃ later, Delivering L all c' later ∧ es.length + credit c' later ≤ credit c blocks := by
  induction es generalizing c blocks with
  | nil =>
      obtain rfl : c = c' := by simpa using hexec
      exact ⟨blocks, h, by simp⟩
  | cons e es ih =>
      obtain ⟨c₁, hstep, hrest⟩ := (connectionMachine L).exec_cons_eq_some.mp hexec
      obtain ⟨next, hnext, hless⟩ := h.step howed.1 hstep
      obtain ⟨later, hlater, hle⟩ := ih hnext (howed.2 c₁ hstep) hrest
      refine ⟨later, hlater, ?_⟩
      rw [List.length_cons]
      omega

end Deliver

/-- **Whatever `nghttp2` has to send in some state of a run is delivered by the network and the callbacks
that libevent owes: there are only so many of these events, in whatever order, and when none is owed
any more, then everything has gone out.** -/
theorem owed_delivers (L : Nghttp2 σ Code) {es fs : List ConnectionEvent} {c c' : Connection σ}
    (hexec : (connectionMachine L).exec Connection.create es = some c) {s : σ}
    (hs : c.nghttp2 = some s) {blocks : List Bytes}
    (hall : L.source.Drains (s, c.session) blocks)
    (howed : (connectionMachine L).Meets Owed c fs)
    (hrun : (connectionMachine L).exec c fs = some c') :
    fs.length ≤ 2 * (c.output.length + blocks.flatten.length) + 1 ∧
      ((∀ e, ¬ Owed c' e) → c'.sent = c.sent ++ c.output ++ blocks.flatten) := by
  have hflowing := flowing_exec L hexec
  have hstart : Delivering L (c.sent ++ c.output ++ blocks.flatten) c blocks :=
    ⟨by simpa only [Left, hs] using hall, rfl, hflowing⟩
  obtain ⟨later, hlater, hcredit⟩ := hstart.run howed hrun
  have hstarts : credit c blocks ≤ 2 * (c.output.length + blocks.flatten.length) + 1 := by
    unfold credit
    split <;> omega
  refine ⟨by omega, fun hnone => ?_⟩
  have hempty : c'.output = [] := by
    by_contra hsome
    exact hnone (.write 1) ⟨Nat.one_pos, List.length_pos_iff.mpr hsome⟩
  have hdue : c'.writeDue = false := by simpa [Owed] using hnone .writable
  have hnothing : later = [] := by
    have hleft := hlater.left
    unfold Left at hleft
    split at hleft
    · exact hleft
    · next s' hs' =>
        -- what is left would be offered
        obtain ⟨r, hoffer⟩ := hlater.flowing s' hs' hempty hdue
        obtain ⟨u, r', hyields, -⟩ := hleft
        cases hyields with
        | nil => rfl
        | cons hoffer' _ => simp [hoffer] at hoffer'
  rw [← hlater.all, hempty, hnothing]
  simp

/-! ## A client that pings and does not read -/

section Answering

variable {F : Type} {code : FrameCode F} {settings : F} {answers : Bytes → List F}

/-- A queue gives its frames. -/
theorem yields_queue {q mid : List F × Session} {blocks : List Bytes}
    (h : (Nghttp2.answering code settings answers).source.Yields q blocks mid) :
    ∃ now, q.1 = now ++ mid.1 ∧ blocks = now.map code.encode ∧ mid.2 = q.2 := by
  induction h with
  | nil q => exact ⟨[], rfl, rfl, rfl⟩
  | cons hoffer _ ih =>
      obtain ⟨now, hq, hblocks, hsession⟩ := ih
      obtain ⟨f, hfirst, hbytes, -, hsame⟩ := queueOffer_eq_block hoffer
      exact ⟨f :: now, by rw [hfirst, hq]; rfl, by rw [hbytes, hblocks]; rfl, hsession.trans hsame⟩

variable (code settings answers)

/-- All frames of a queue come out of it. -/
theorem queue_drains {q : List F} {s : Session} (hsound : s.crashed = false) :
    (Nghttp2.answering code settings answers).source.Drains (q, s) (q.map code.encode) := by
  induction q with
  | nil => exact ⟨_, _, .nil _, rfl⟩
  | cons f q ih =>
      obtain ⟨u, r, hyields, hdry⟩ := ih
      have hoffer : (Nghttp2.answering code settings answers).source.offer (f :: q, s) =
          .block (code.encode f) (code.encode_ne_nil f) (f :: q, s) (q, s) :=
        if_neg (by simp [hsound])
      exact ⟨u, r, .cons hoffer hyields, hdry⟩

/-- `session_send` takes frames of the queue, up to the limit. -/
theorem sessionSend_queue {c : Connection (List F)} {q : List F} (hq : c.nghttp2 = some q)
    (hsound : c.session.crashed = false) :
    ∃ now later, q = now ++ later ∧
      sessionSend (Nghttp2.answering code settings answers) c =
        (0, { c with
          nghttp2 := some later
          output := c.output ++ (now.map code.encode).flatten
          accepted := c.accepted ++ now.map code.encode }) ∧
      (later = [] ∨
        OUTPUT_WOULDBLOCK_THRESHOLD ≤ (c.output ++ (now.map code.encode).flatten).length) ∧
      ∀ pre f post, now = pre ++ f :: post →
        (c.output ++ (pre.map code.encode).flatten).length < OUTPUT_WOULDBLOCK_THRESHOLD := by
  obtain ⟨-, blocks, mid, -, -, hsent, hend⟩ :=
    (Nghttp2.answering code settings answers).source.send_sent writeBlock_limited
      (s := sender c q) rfl
  obtain ⟨now, hsplit, hblocks, hsession⟩ := yields_queue hsent.yields
  have hsource : (sender c q).source = (q, c.session) := rfl
  rw [hsource] at hsplit hsession
  have hbuffer := hsent.buffer
  have htaken := hsent.taken
  rw [hblocks] at hbuffer htaken
  have hroom : ∀ pre f post, now = pre ++ f :: post →
      (c.output ++ (pre.map code.encode).flatten).length < OUTPUT_WOULDBLOCK_THRESHOLD := by
    rintro pre f post rfl
    exact hsent.room (pre.map code.encode) (code.encode f) (post.map code.encode) (by simp [hblocks])
  -- the sender ends with its source in the state `mid`
  obtain ⟨hleft, hended, hwhy⟩ : ((Nghttp2.answering code settings answers).source.send writeBlock
      OUTPUT_WOULDBLOCK_THRESHOLD (sender c q)).source = mid ∧
      ((Nghttp2.answering code settings answers).source.send writeBlock
        OUTPUT_WOULDBLOCK_THRESHOLD (sender c q)).ended = some (.ok ()) ∧
      (mid.1 = [] ∨
        OUTPUT_WOULDBLOCK_THRESHOLD ≤ (c.output ++ (now.map code.encode).flatten).length) := by
    cases hend with
    | dry hoffer hok =>
        obtain ⟨hsame, hempty⟩ := queueOffer_eq_nothing hoffer
        exact ⟨hsame, hok, Or.inl (hempty (hsession ▸ hsound))⟩
    | failed hoffer _ => exact absurd hoffer queueOffer_ne_fails
    | full hoffer hfull hok =>
        obtain ⟨-, -, -, hsame, -⟩ := queueOffer_eq_block hoffer
        refine ⟨hsame, hok, Or.inr ?_⟩
        rwa [hbuffer] at hfull
  refine ⟨now, mid.1, hsplit, ?_, hwhy, hroom⟩
  unfold sessionSend
  rw [hq]
  simp only [hleft, hended, hbuffer, htaken, hsession]
  rfl

end Answering

/-- A connection to such a client, with so many answers that wait and so many bytes in the output. -/
structure Pinged (c : Connection (List PingFrame)) (waiting len : ℕ) : Prop where
  nghttp2 : c.nghttp2 = some (List.replicate waiting .pong)
  session : c.session = Session.init
  input : c.input = []
  output : c.output.length = len

theorem length_pongs (k : ℕ) :
    ((List.replicate k PingFrame.pong).map PingFrame.code.encode).flatten.length = 17 * k := by
  induction k with
  | zero => rfl
  | succ k ih =>
      have hpong : (PingFrame.code.encode .pong).length = 17 := rfl
      rw [List.replicate_succ, List.map_cons, List.flatten_cons, List.length_append, ih, hpong]
      omega

theorem length_pings (n : ℕ) : (pings n).length = 17 * n := by
  unfold pings
  induction n with
  | zero => rfl
  | succ n ih =>
      rw [List.replicate_succ, List.flatten_cons, List.length_append, ih]
      simp only [List.length_cons, List.length_nil]
      omega

/-- Answers are taken as long as the output is below the limit. -/
theorem Pinged.send {c : Connection (List PingFrame)} {n len : ℕ} (h : Pinged c n len) :
    ∃ c' k, sessionSend pingsOnly c = (0, c') ∧ Pinged c' (n - k) (len + 17 * k) ∧
      c'.writeDue = c.writeDue ∧ k ≤ n ∧ (k = n ∨ OUTPUT_WOULDBLOCK_THRESHOLD ≤ len + 17 * k) ∧
      (k ≠ 0 → len + 17 * (k - 1) < OUTPUT_WOULDBLOCK_THRESHOLD) := by
  have hsound : c.session.crashed = false := by rw [h.session]; rfl
  -- the queue is cut where the output is full
  obtain ⟨now, later, hsplit, hsend, hwhy, hroom⟩ := sessionSend_queue PingFrame.code .settings
    pingAnswers h.nghttp2 hsound
  obtain ⟨hlength, hnow, hlater⟩ := List.replicate_eq_append_iff.mp hsplit
  have hcount : later.length = n - now.length := by omega
  rw [hcount] at hlater
  rw [hnow, List.length_append, length_pongs, h.output] at hwhy
  refine ⟨_, now.length, hsend, ⟨congrArg some hlater, h.session, h.input, ?_⟩, rfl, by omega, ?_, ?_⟩
  · dsimp only
    rw [hnow, List.length_append, length_pongs, h.output]
    simp
  · rcases hwhy with hnil | hfull
    · rw [hnil] at hlength
      exact Or.inl (by simpa using hlength)
    · exact Or.inr hfull
  · intro hsome
    obtain ⟨k, hk⟩ := Nat.exists_eq_succ_of_ne_zero hsome
    rw [hk, Nat.succ_sub_one]
    -- the output was below the limit in front of the last block
    have hlast : now = List.replicate k .pong ++ .pong :: [] := by
      rw [hnow, hk, List.replicate_succ']
    have hbelow := hroom _ _ _ hlast
    rwa [List.length_append, length_pongs, h.output] at hbelow

theorem step_readable (L : Nghttp2 σ Code) {c : Connection σ} {s : σ} (halive : c.alive = true)
    (hs : c.nghttp2 = some s) :
    (connectionMachine L).step c .readable = some (http2Readcb L c) := by
  simp [connectionMachine, connectionStep, halive, hs]

theorem step_writable (L : Nghttp2 σ Code) {c : Connection σ} {s : σ} (halive : c.alive = true)
    (hs : c.nghttp2 = some s) :
    (connectionMachine L).step c .writable = some (http2Writecb L { c with writeDue := false }) := by
  simp [connectionMachine, connectionStep, halive, hs]

/-- PINGs are read, and answered as far as there is room. -/
theorem Pinged.read {c : Connection (List PingFrame)} {n len : ℕ} (h : Pinged c n len) (j : ℕ) :
    ∃ c' k, (connectionMachine pingsOnly).exec c [.arrive (pings j), .readable] = some c' ∧
      Pinged c' (n + j - k) (len + 17 * k) ∧ k ≤ n + j ∧
      (k = n + j ∨ OUTPUT_WOULDBLOCK_THRESHOLD ≤ len + 17 * k) ∧
      (k ≠ 0 → len + 17 * (k - 1) < OUTPUT_WOULDBLOCK_THRESHOLD) := by
  have halive : c.alive = true := by rw [Connection.alive, h.session]; rfl
  -- all of the input is read, and an answer queued for each PING
  have hfed : Pinged
      { c with
        received := c.received ++ pings j
        fed := c.fed ++ pings j
        nghttp2 := some (List.replicate (n + j) .pong) } (n + j) len :=
    ⟨rfl, h.session, h.input, h.output⟩
  obtain ⟨c', k, hsend, hpinged, -, hk⟩ := hfed.send
  refine ⟨c', k, ?_, hpinged, hk⟩
  have hanswers : pingAnswers (pings j) = List.replicate j .pong := by
    rw [pingAnswers, length_pings, if_pos (Nat.mul_mod_right 17 j), Nat.mul_div_cancel_left j (by decide)]
  have hrecv : http2Readcb pingsOnly
      { c with received := c.received ++ pings j, input := c.input ++ pings j } = c' := by
    unfold http2Readcb sessionRecv
    simp only [h.nghttp2, h.input, List.nil_append, pingsOnly, Nghttp2.answering] at hsend ⊢
    simp only [hanswers, ← List.replicate_add, Int.toNat_natCast, List.take_length, List.drop_length,
      if_neg (Int.not_lt.mpr (Int.natCast_nonneg _)), hsend, ne_eq, not_true_eq_false, if_false]
  have harrive : (connectionMachine pingsOnly).step c (.arrive (pings j)) =
      some { c with received := c.received ++ pings j, input := c.input ++ pings j } := by
    simp [connectionMachine, connectionStep, halive]
  have hread := (step_readable pingsOnly (c :=
    { c with received := c.received ++ pings j, input := c.input ++ pings j }) halive
    h.nghttp2).trans (congrArg some hrecv)
  have hend := (connectionMachine pingsOnly).exec_nil c'
  exact (connectionMachine pingsOnly).exec_cons_eq_some.mpr
    ⟨_, harrive, (connectionMachine pingsOnly).exec_cons_eq_some.mpr ⟨_, hread, hend⟩⟩

/-- The output goes out, and more answers are taken. -/
theorem Pinged.flush {c : Connection (List PingFrame)} {n len : ℕ} (h : Pinged c n len) (hpos : 0 < len) :
    ∃ c' k, (connectionMachine pingsOnly).exec c [.write len, .writable] = some c' ∧
      (connectionMachine pingsOnly).Meets Owed c [.write len, .writable] ∧
      Pinged c' (n - k) (17 * k) ∧ c'.writeDue = false ∧ k ≤ n ∧
      (k = n ∨ OUTPUT_WOULDBLOCK_THRESHOLD ≤ 17 * k) := by
  have halive : c.alive = true := by rw [Connection.alive, h.session]; rfl
  have hall : c.output.drop len = [] := List.drop_eq_nil_of_le (Nat.le_of_eq h.output)
  have hwritten : Pinged { c with output := [], sent := c.sent ++ c.output.take len, writeDue := false }
      n 0 := ⟨h.nghttp2, h.session, h.input, rfl⟩
  obtain ⟨c', k, hsend, hpinged, hdue, hle, hwhy, -⟩ := hwritten.send
  rw [Nat.zero_add] at hpinged hwhy
  -- all of the output is written, and a call is owed
  have hwrite : (connectionMachine pingsOnly).step c (.write len) =
      some { c with output := [], sent := c.sent ++ c.output.take len, writeDue := true } := by
    simp [connectionMachine, connectionStep, halive, hall, hpos, h.output]
  -- the call fills the output again
  have hsent : http2Writecb pingsOnly
      { c with output := [], sent := c.sent ++ c.output.take len, writeDue := false } = c' := by
    have hwants : pingsOnly.wantRead (List.replicate n .pong) = true := rfl
    simp only [http2Writecb, h.nghttp2, hwants] at hsend ⊢
    simp [hsend]
  have hwritable := (step_writable pingsOnly (c :=
    { c with output := [], sent := c.sent ++ c.output.take len, writeDue := true }) halive
    h.nghttp2).trans (congrArg some hsent)
  have hend := (connectionMachine pingsOnly).exec_nil c'
  refine ⟨c', k, (connectionMachine pingsOnly).exec_cons_eq_some.mpr ⟨_, hwrite,
    (connectionMachine pingsOnly).exec_cons_eq_some.mpr ⟨_, hwritable, hend⟩⟩, ?_, hpinged, hdue, hle,
    hwhy⟩
  refine ⟨⟨hpos, Nat.le_of_eq h.output.symm⟩, fun c₁ hstep => ⟨?_, fun _ _ => trivial⟩⟩
  obtain rfl := Option.some.inj (hwrite.symm.trans hstep)
  rfl

/-- Settings, and PINGs in reads of a thousand. -/
def pingRun : List ConnectionEvent :=
  [.event true none (some (ascii "h2")), .arrive clientPreface, .readable] ++
  [.arrive (pings 1000), .readable] ++ [.arrive (pings 1000), .readable] ++
  [.arrive (pings 1000), .readable] ++ [.arrive (pings 1000), .readable]

/-- With 65542 bytes in the output 146 answers wait in `nghttp2`; they are delivered when the client
reads. -/
theorem owed_delivers_pings : ∃ c c',
    (connectionMachine pingsOnly).exec Connection.create pingRun = some c ∧
      c.output.length = 65542 ∧
      pingsOnly.source.Drains (List.replicate 146 .pong, c.session)
        (List.replicate 146 (PingFrame.code.encode .pong)) ∧
      (connectionMachine pingsOnly).exec c [.write 65542, .writable, .write 2482, .writable] = some c' ∧
      c'.sent = c.sent ++ c.output ++ (List.replicate 146 (PingFrame.code.encode .pong)).flatten := by
  have hstart : ∃ c₀, (connectionMachine pingsOnly).exec Connection.create
      [.event true none (some (ascii "h2")), .arrive clientPreface, .readable] = some c₀ ∧
      Pinged c₀ 0 24 := ⟨_, rfl, ⟨rfl, rfl, rfl, rfl⟩⟩
  obtain ⟨c₀, hexec₀, h₀⟩ := hstart
  have hlimit : OUTPUT_WOULDBLOCK_THRESHOLD = 65536 := rfl
  -- three reads are answered, and the fourth in part
  obtain ⟨c₁, k₁, hexec₁, h₁, hle₁, hwhy₁, -⟩ := h₀.read 1000
  obtain rfl : k₁ = 1000 := by omega
  obtain ⟨c₂, k₂, hexec₂, h₂, hle₂, hwhy₂, -⟩ := h₁.read 1000
  obtain rfl : k₂ = 1000 := by omega
  obtain ⟨c₃, k₃, hexec₃, h₃, hle₃, hwhy₃, -⟩ := h₂.read 1000
  obtain rfl : k₃ = 1000 := by omega
  obtain ⟨c, k, hexec₄, h, hle₄, hwhy₄, hroom₄⟩ := h₃.read 1000
  obtain rfl : k = 854 := by omega
  have hexec : (connectionMachine pingsOnly).exec Connection.create pingRun = some c :=
    (connectionMachine pingsOnly).exec_append ((connectionMachine pingsOnly).exec_append
      ((connectionMachine pingsOnly).exec_append ((connectionMachine pingsOnly).exec_append
        hexec₀ hexec₁) hexec₂) hexec₃) hexec₄
  have hdrains : pingsOnly.source.Drains (List.replicate 146 .pong, c.session)
      (List.replicate 146 (PingFrame.code.encode .pong)) := by
    have hall := queue_drains PingFrame.code .settings pingAnswers
      (q := List.replicate 146 .pong) (s := c.session) (by rw [h.session]; rfl)
    rwa [List.map_replicate] at hall
  -- the client reads, and the answers that have waited go out
  obtain ⟨d, k', hout, howed, hd, -, hle', hwhy'⟩ := h.flush (by decide)
  obtain rfl : k' = 146 := by omega
  obtain ⟨c', k'', hrest, howed', hc', hdue, hle'', -⟩ := hd.flush (by decide)
  obtain rfl : k'' = 0 := by omega
  have hrun := (connectionMachine pingsOnly).exec_append hout hrest
  have hmeets := Machine.Meets.append (connectionMachine pingsOnly) howed hout howed'
  refine ⟨c, c', hexec, h.output, hdrains, hrun,
    (owed_delivers pingsOnly hexec h.nghttp2 hdrains hmeets hrun).2 ?_⟩
  -- nothing is owed any more
  rintro (_ | _ | _ | n | _) howes
  · exact howes
  · exact howes
  · exact howes
  · have hempty := hc'.output
    have hle := howes.2
    have hpos := howes.1
    omega
  · rw [Owed, hdue] at howes
    cases howes

end Gfhttpd.Http2
