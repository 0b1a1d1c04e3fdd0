import Gfhttpd.Http3.Spec

/-!
# Reading and sending a body (`main/http3/http3.c`)

Each round of the loop of `future_write_cb` passes the result of `read` to
`quiche_h3_send_body` as a length, and adds the result of `quiche_h3_send_body` to `fw->pos`.
Both are -1 or another negative number on an error, and neither is looked at before it is used.

- `sendRound`, `sendLoop`, `futureWriteTick`: the loop on all results that the two calls have
- `futureWriteCb_tick`: `futureWriteCb` moves its response as `futureWriteTick` does
- `backPressure_lost`: no negative result of `quiche_h3_send_body` is handled as back-pressure
- `reads_passed_iff`: the runs in which every length is what was read
-/

namespace Gfhttpd.Http3

open Http Conf Router Modules Transition

/-! ## Rounds -/

/-- How a round of the loop ends. -/
inductive BodyRoundEnd where
  /-- the loop goes on -/
  | next
  /-- `event_add`, and the loop ends -/
  | again
  /-- `exit(0)` -/
  | exited
deriving DecidableEq, Repr

/-- A round of the loop: what was read, what `quiche_h3_send_body` was passed and what it returned,
and the response before and after. -/
structure BodyRound where
  read : ℤ
  length : ℕ
  fin : Bool
  sent : ℤ
  before : FutureWrite
  after : FutureWrite
  ending : BodyRoundEnd
deriving DecidableEq, Repr

/-- The results that `read` and `quiche_h3_send_body` can have: at most `sizeof(buf)` bytes or -1,
and at most the bytes that were passed or an error code, which is an `int`. -/
structure Chunk.Possible (ch : Chunk) : Prop where
  readFrom : -1 ≤ ch.read
  readTo : ch.read ≤ BUF_SIZE
  sentFrom : -2 ^ 31 ≤ ch.sent
  sentTo : ch.sent ≤ toSizeT ch.read
  ssize : ch.sent < 2 ^ 63

instance (ch : Chunk) : Decidable ch.Possible :=
  decidable_of_iff (-1 ≤ ch.read ∧ ch.read ≤ BUF_SIZE ∧ -2 ^ 31 ≤ ch.sent ∧
      ch.sent ≤ toSizeT ch.read ∧ ch.sent < 2 ^ 63)
    ⟨fun h => ⟨h.1, h.2.1, h.2.2.1, h.2.2.2.1, h.2.2.2.2⟩,
      fun h => ⟨h.readFrom, h.readTo, h.sentFrom, h.sentTo, h.ssize⟩⟩

/-- One round of the loop of `future_write_cb`. -/
def sendRound (fw : FutureWrite) (ch : Chunk) : BodyRound :=
  let n := ch.read
  -- -1 is a length like any other here
  let eof := fw.eof || decide (wrap32 (fw.pos + n) ≥ fw.len)
  -- `written` is an `int`, and was 0 when the length `n - written` was computed
  let written := wrap32 ch.sent
  let fw' :=
    if written = QUICHE_H3_ERR_DONE then { fw with eof := eof }
    else { fw with eof := eof, pos := wrap32 (fw.pos + written) }
  { read := n
    length := toSizeT n
    fin := eof
    sent := ch.sent
    before := fw
    after := fw'
    ending :=
      if written = QUICHE_H3_ERR_DONE then .exited else if written ≠ n then .again else .next }

/-- The loop with the rounds it made. -/
structure SendLoop where
  fw : FutureWrite
  rounds : List BodyRound
  ending : LoopEnd
deriving DecidableEq, Repr

/-- The loop of `future_write_cb`.  It uses up its answers; `none` is a loop that has not ended with
them, or an answer that is not possible. -/
def sendLoop : List Chunk → FutureWrite → Option SendLoop
  | [], fw => if fw.pos < fw.len then none else some ⟨fw, [], .sent⟩
  | ch :: chunks, fw =>
      if ¬ fw.pos < fw.len ∨ ¬ ch.Possible then none
      else
        let r := sendRound fw ch
        match r.ending with
        | .next => (sendLoop chunks r.after).map fun l => { l with rounds := r :: l.rounds }
        | .again => if chunks = [] then some ⟨r.after, [r], .again⟩ else none
        | .exited => if chunks = [] then some ⟨r.after, [r], .exited⟩ else none

/-! ## Ticks -/

/-- A response in the making, with all the rounds made for it. -/
structure Sender where
  fw : FutureWrite
  /-- `evtimer_del(fw->fw_event)` and `close(fd)`: the response has ended -/
  cleaned : Bool
  exited : Bool
  rounds : List BodyRound
deriving DecidableEq, Repr

/-- What one `future_write_cb` finds in the connection and its `http_stream`, and what its loop is
answered. -/
structure Tick where
  closed : Bool
  headersSent : Bool
  contentLenght : ℕ
  chunks : List Chunk
deriving DecidableEq, Repr

/-- What `send_response` makes. -/
def Sender.start (streamId : ℤ) (fd : ℕ) : Sender where
  fw := { streamId := streamId, fd := fd, pos := 0, len := -1, eof := false, scheduled := true }
  cleaned := false
  exited := false
  rounds := []

/-- The end of `future_write_cb` behind its loop. -/
def finishTick (s : Sender) (l : SendLoop) : Sender where
  fw := { l.fw with scheduled := l.ending == .again && !l.fw.eof }
  cleaned := s.cleaned || (l.ending != .exited && l.fw.eof)
  exited := l.ending == .exited
  rounds := s.rounds ++ l.rounds

/-- `future_write_cb`, which runs while its event is scheduled. -/
def futureWriteTick (s : Sender) (t : Tick) : Option Sender :=
  if s.exited || !s.fw.scheduled then none
  else
    let fw := { s.fw with scheduled := false }
    -- a closed connection: neither rescheduled nor cleaned up
    if t.closed then if t.chunks = [] then some { s with fw := fw } else none
    -- the module has not set a length yet: polled again
    else if t.headersSent = false ∧ t.contentLenght = SIZE_MAX then
      if t.chunks = [] then some { s with fw := { fw with scheduled := true } } else none
    else
      -- the length is set when the headers are sent
      let fw := if t.headersSent then fw else { fw with len := wrap32 t.contentLenght }
      (sendLoop t.chunks fw).map (finishTick s)

/-- The ticks of a response. -/
def senderMachine : Machine Sender Tick := ⟨futureWriteTick⟩

/-! ## The rounds of a loop -/

/-- `e` is how the loop ends with the round `r`. -/
def SendLoop.EndsWith (l : SendLoop) (r : BodyRound) : BodyRoundEnd → Prop
  | .next => False
  | .again => l = ⟨r.after, [r], .again⟩
  | .exited => l = ⟨r.after, [r], .exited⟩

/-- The last round is the only one left, and leaves the response where it is. -/
theorem SendLoop.EndsWith.last {l : SendLoop} {r : BodyRound} {e : BodyRoundEnd}
    (h : l.EndsWith r e) :
    l.fw = r.after ∧ l.rounds = [r] ∧ (e = .exited → l.ending = .exited) := by
  cases e with
  | next => cases h
  | again =>
      obtain rfl := h
      exact ⟨rfl, rfl, fun hexit => by cases hexit⟩
  | exited =>
      obtain rfl := h
      exact ⟨rfl, rfl, fun _ => rfl⟩

/-- What a loop with an answer left does. -/
theorem sendLoop_cons {ch : Chunk} {chunks : List Chunk} {fw : FutureWrite} {l : SendLoop}
    (h : sendLoop (ch :: chunks) fw = some l) :
    fw.pos < fw.len ∧ ch.Possible ∧
      ((sendRound fw ch).ending = .next ∧
          (∃ l', sendLoop chunks (sendRound fw ch).after = some l' ∧
            l = { l' with rounds := sendRound fw ch :: l'.rounds }) ∨
        chunks = [] ∧ l.EndsWith (sendRound fw ch) (sendRound fw ch).ending) := by
  rw [sendLoop] at h
  by_cases hguard : ¬ fw.pos < fw.len ∨ ¬ ch.Possible
  · rw [if_pos hguard] at h
    cases h
  · rw [if_neg hguard] at h
    rw [not_or, not_not, not_not] at hguard
    refine ⟨hguard.1, hguard.2, ?_⟩
    generalize sendRound fw ch = r at h ⊢
    cases hend : r.ending with
    | next =>
        simp only [hend, Option.map_eq_some_iff] at h
        obtain ⟨l', hrest, rfl⟩ := h
        exact Or.inl ⟨rfl, l', hrest, rfl⟩
    | again | exited =>
        simp only [hend] at h
        by_cases hlast : chunks = []
        · rw [if_pos hlast, Option.some.injEq] at h
          exact Or.inr ⟨hlast, h.symm⟩
        · rw [if_neg hlast] at h
          cases h

/-- Every round is one of the source's, and one that calls `exit` ends the loop so. -/
theorem sendLoop_rounds {chunks : List Chunk} {fw : FutureWrite} {l : SendLoop}
    (h : sendLoop chunks fw = some l) : ∀ r ∈ l.rounds,
      (∃ fw ch, ch.Possible ∧ r = sendRound fw ch) ∧ (r.ending = .exited → l.ending = .exited) := by
  induction chunks generalizing fw l with
  | nil =>
      rw [sendLoop] at h
      split at h
      · cases h
      · obtain rfl := Option.some.inj h
        simp
  | cons ch chunks ih =>
      obtain ⟨-, hpossible, ⟨hnext, l', hrest, rfl⟩ | ⟨-, hends⟩⟩ := sendLoop_cons h
      · intro r hr
        rcases List.mem_cons.mp hr with rfl | hr
        · refine ⟨⟨fw, ch, hpossible, rfl⟩, fun hexit => ?_⟩
          rw [hnext] at hexit
          cases hexit
        · exact ih hrest r hr
      · intro r hr
        obtain ⟨-, hrounds, hexit⟩ := hends.last
        rw [hrounds] at hr
        obtain rfl := List.mem_singleton.mp hr
        exact ⟨⟨fw, ch, hpossible, rfl⟩, hexit⟩

/-! ## The loop of a connection -/

theorem Chunk.Possible.wrap32_sent {ch : Chunk} (h : ch.Possible) (hread : ch.read ≠ -1) :
    wrap32 ch.sent = ch.sent := by
  obtain ⟨hfrom, hto, hsentFrom, hsentTo, -⟩ := h
  apply wrap32_of_lt hsentFrom
  -- not more bytes than `buf` holds
  simp only [toSizeT, BUF_SIZE] at hto hsentTo
  omega

/-- A loop of `futureWriteCb` in which every `read` succeeds is this one. -/
theorem WriteLoop.toSendLoop {i : ℕ} {chunks : List Chunk} {fw : FutureWrite} {fd : Fd}
    {r : LoopResult} (h : WriteLoop i chunks fw fd r) (hreads : r.ending ≠ .outOfBounds)
    (hpossible : ∀ ch ∈ chunks, ch.Possible) :
    ∃ rounds, sendLoop chunks fw = some ⟨r.fw, rounds, r.ending⟩ := by
  have hguard : ∀ {fw : FutureWrite} {ch : Chunk}, fw.pos < fw.len → ch.Possible →
      ¬ (¬ fw.pos < fw.len ∨ ¬ ch.Possible) := by
    intro fw ch hpos hch
    rw [not_or, not_not, not_not]
    exact ⟨hpos, hch⟩
  -- one case for each way a round of `futureWriteCb` ends
  induction h with
  | done hpos => exact ⟨[], if_neg hpos⟩
  | failed hpos hread => exact absurd rfl hreads
  | @exited fw fd ch hpos hcan hread hsent =>
      have hch := hpossible ch (List.mem_cons_self ..)
      have hdone : wrap32 ch.sent = QUICHE_H3_ERR_DONE := (hch.wrap32_sent hread).trans hsent
      refine ⟨[sendRound fw ch], ?_⟩
      simp only [sendLoop, hguard hpos hch, sendRound, hdone, if_true, if_false]
      rfl
  | @again fw fd ch hpos hcan hread hsent hpart =>
      have hch := hpossible ch (List.mem_cons_self ..)
      have hwritten := hch.wrap32_sent hread
      have hgo : ch.sent ≠ QUICHE_H3_ERR_DONE := hsent
      have hpart' : ch.sent ≠ ch.read := Int.ne_of_lt hpart
      refine ⟨[sendRound fw ch], ?_⟩
      simp only [sendLoop, hguard hpos hch, sendRound, hwritten, hgo, hpart', ne_eq,
        not_false_eq_true, if_true, if_false]
      rfl
  | @chunk fw fd ch chunks r hpos hcan hread hsent hrest ih =>
      have hch := hpossible ch (List.mem_cons_self ..)
      have hwritten := hch.wrap32_sent hread
      have hgo : ch.sent ≠ QUICHE_H3_ERR_DONE := hsent ▸ hread
      have hwhole : ¬ ch.sent ≠ ch.read := not_not.mpr hsent
      obtain ⟨rounds, hrounds⟩ := ih hreads fun ch' h => hpossible ch' (List.mem_cons_of_mem _ h)
      have hafter : (sendRound fw ch).after = (fw.sawChunk ch.read).accept ch.sent := by
        simp only [sendRound, hwritten, hgo, if_false]
        rfl
      have hnext : (sendRound fw ch).ending = .next := by
        simp only [sendRound, hwritten, hgo, hwhole, if_false]
      rw [← hafter] at hrounds
      refine ⟨sendRound fw ch :: rounds, ?_⟩
      simp only [sendLoop, hguard hpos hch, if_false, hnext, hrounds, Option.map_some]

/-- A tick of a connection that goes on is a tick of the response. -/
theorem writeBody_tick {c c' : Conn} {i : ℕ} {fw fw' : FutureWrite} {io : TickIO}
    (h : writeBody c i fw io = some c') (hfw : c.writers[i]? = some fw') (halive : c'.dead = false)
    (hpossible : ∀ ch ∈ io.chunks, ch.Possible) (s : Sender) :
    ∃ l, sendLoop io.chunks fw = some l ∧ c'.writers[i]? = some (finishTick s l).fw := by
  obtain ⟨fd, r, timer, timeoutPending, -, -, hloop, rfl⟩ := writeBody_cases h
  have hgoes : r.goesOn = true := by
    simp only [afterLoop, Bool.or_eq_false_iff, Bool.not_eq_false'] at halive
    exact halive.2
  have hreads : r.ending ≠ .outOfBounds := by
    intro hend
    rw [LoopResult.goesOn, hend] at hgoes
    cases hgoes
  obtain ⟨rounds, hrounds⟩ := hloop.toSendLoop hreads hpossible
  refine ⟨_, hrounds, ?_⟩
  have hwriter : (afterLoop c i r timer timeoutPending).writers[i]? = some r.writer := by
    simp [afterLoop, hfw]
  rw [hwriter]
  -- the two ends of a loop that `future_write_cb` goes on behind
  cases hend : r.ending with
  | sent => simp [LoopResult.writer, finishTick, hend]
  | again => simp [LoopResult.writer, finishTick, hend]
  | exited =>
      rw [LoopResult.goesOn, hend] at hgoes
      cases hgoes
  | outOfBounds => exact absurd hend hreads

/-- `future_write_cb` on a connection moves its response as `futureWriteTick` does. -/
theorem futureWriteCb_tick {c c' : Conn} {i : ℕ} {fw : FutureWrite} {io : TickIO}
    (h : futureWriteCb c i io = some c') (hfw : c.writers[i]? = some fw)
    (hscheduled : fw.scheduled = true) (halive : c'.dead = false)
    (hpossible : ∀ ch ∈ io.chunks, ch.Possible) :
    ∃ s', futureWriteTick ⟨fw, false, false, []⟩
        ⟨c.closed, c.hs.response.headersSent, c.hs.response.contentLenght, io.chunks⟩ = some s' ∧
      c'.writers[i]? = some s'.fw := by
  unfold futureWriteCb at h
  simp only [hfw] at h
  unfold futureWriteTick
  simp only [hscheduled, Bool.not_true, Bool.or_self, Bool.false_eq_true, if_false]
  cases hclosed : c.closed with
  | true =>
      simp only [hclosed, if_true, Option.ite_none_right_eq_some, Option.some.injEq] at h
      obtain ⟨hnone, rfl⟩ := h
      refine ⟨_, by simp only [if_true, hnone]; rfl, ?_⟩
      simp [Conn.modifyWriter, hfw]
  | false =>
      cases hsent : c.hs.response.headersSent with
      | true =>
          simp only [hclosed, hsent, Bool.false_eq_true, if_false, if_true, Bool.true_eq_false,
            false_and] at h ⊢
          obtain ⟨l, hl, hnow⟩ := writeBody_tick h hfw halive hpossible ⟨fw, false, false, []⟩
          exact ⟨_, by rw [hl]; rfl, hnow⟩
      | false =>
          by_cases hlen : c.hs.response.contentLenght = SIZE_MAX
          · simp only [hclosed, hsent, hlen, Bool.false_eq_true, if_false, if_true, ne_eq,
              not_true_eq_false, and_false, true_and, Option.ite_none_right_eq_some,
              Option.some.injEq] at h ⊢
            obtain ⟨hnone, rfl⟩ := h
            refine ⟨_, ⟨hnone, rfl⟩, ?_⟩
            simp [Conn.modifyWriter, hfw]
          · simp only [hclosed, hsent, hlen, Bool.false_eq_true, if_false, ne_eq,
              not_false_eq_true, and_self, if_true, and_false] at h ⊢
            split at h
            · -- `get_http3_headers` has failed
              simp only [Option.ite_none_right_eq_some, Option.some.injEq] at h
              obtain ⟨-, rfl⟩ := h
              cases halive
            · obtain ⟨l, hl, hnow⟩ := writeBody_tick h hfw halive hpossible
                ⟨fw, false, false, []⟩
              exact ⟨_, by rw [hl]; rfl, hnow⟩

/-! ## Negative results -/

/-- After the round `r`, whose result was negative, the response is where it was, and it is tried
again or has ended. -/
structure BackPressureKept (s' : Sender) (r : BodyRound) : Prop where
  alive : s'.exited = false
  pos : r.after.pos = r.before.pos
  inside : 0 ≤ r.after.pos ∧ r.after.pos ≤ r.after.len
  goesOn : s'.fw.scheduled = true ∨ s'.cleaned = true

instance (s' : Sender) (r : BodyRound) : Decidable (BackPressureKept s' r) :=
  decidable_of_iff (s'.exited = false ∧ r.after.pos = r.before.pos ∧
      (0 ≤ r.after.pos ∧ r.after.pos ≤ r.after.len) ∧
      (s'.fw.scheduled = true ∨ s'.cleaned = true))
    ⟨fun h => ⟨h.1, h.2.1, h.2.2.1, h.2.2.2⟩, fun h => ⟨h.alive, h.pos, h.inside, h.goesOn⟩⟩

/-- The ways a tick ends: without a round, or with the rounds of a loop that begins where the
response stands. -/
theorem futureWriteTick_cases {s s' : Sender} {t : Tick} (h : futureWriteTick s t = some s') :
    t.chunks = [] ∧ s'.rounds = s.rounds ∧ s'.fw.pos = s.fw.pos ∨
      ∃ fw l, fw.pos = s.fw.pos ∧ sendLoop t.chunks fw = some l ∧ s' = finishTick s l := by
  simp only [futureWriteTick, Option.ite_none_left_eq_some] at h
  obtain ⟨-, h⟩ := h
  split at h
  · obtain ⟨hnone, hsame⟩ := Option.ite_none_right_eq_some.mp h
    obtain rfl := Option.some.inj hsame
    exact Or.inl ⟨hnone, rfl, rfl⟩
  · split at h
    · obtain ⟨hnone, hsame⟩ := Option.ite_none_right_eq_some.mp h
      obtain rfl := Option.some.inj hsame
      exact Or.inl ⟨hnone, rfl, rfl⟩
    · obtain ⟨l, hl, rfl⟩ := Option.map_eq_some_iff.mp h
      refine Or.inr ⟨_, l, ?_, hl, rfl⟩
      split <;> rfl

/-- A negative result moves `pos` back, whatever it was before, or ends the process. -/
theorem sendRound_refused (fw : FutureWrite) {ch : Chunk} (hpossible : ch.Possible)
    (hrefused : ch.sent < 0) :
    if ch.sent = QUICHE_H3_ERR_DONE then (sendRound fw ch).ending = .exited
    else (sendRound fw ch).after.pos = wrap32 (fw.pos + ch.sent) ∧
      (sendRound fw ch).after.pos ≠ fw.pos := by
  have hwritten : wrap32 ch.sent = ch.sent := wrap32_of_lt hpossible.sentFrom (by omega)
  split
  · next hdone =>
      simp only [sendRound, hdone]
      rfl
  · next hother =>
      have hafter : (sendRound fw ch).after.pos = wrap32 (fw.pos + ch.sent) := by
        simp only [sendRound, hwritten, hother, if_false]
      refine ⟨hafter, ?_⟩
      rw [hafter]
      -- an error code is no multiple of 2^32
      have hfrom := hpossible.sentFrom
      simp only [wrap32]
      omega

/-- **In every state of a response, every negative result of `quiche_h3_send_body` ends the process
or changes `fw->pos`.** -/
theorem backPressure_lost {s s' : Sender} {t : Tick} {new : List BodyRound} {r : BodyRound}
    (hstep : futureWriteTick s t = some s') (hnew : s'.rounds = s.rounds ++ new) (hr : r ∈ new)
    (hrefused : r.sent < 0) : ¬ BackPressureKept s' r := by
  intro hkept
  rcases futureWriteTick_cases hstep with ⟨-, hsame, -⟩ | ⟨fw, l, -, hloop, rfl⟩
  · rw [hsame] at hnew
    obtain rfl := List.self_eq_append_right.mp hnew
    cases hr
  · obtain rfl : l.rounds = new := List.append_cancel_left hnew
    obtain ⟨⟨start, ch, hpossible, rfl⟩, hexit⟩ := sendLoop_rounds hloop r hr
    have hresult := sendRound_refused start hpossible hrefused
    split at hresult
    · have halive := hkept.alive
      simp only [finishTick, hexit hresult] at halive
      cases halive
    · exact hresult.2 hkept.pos

/-- `quiche` has no capacity, which it says with `QUICHE_H3_ERR_DONE`, and the server exits. -/
theorem backPressure_exits : ∃ s', futureWriteTick (.start 0 7) ⟨false, false, 100, [⟨100, -1⟩]⟩ =
    some s' ∧ s'.exited = true ∧ ∃ r ∈ s'.rounds, r.sent < 0 ∧ ¬ BackPressureKept s' r :=
  ⟨_, rfl, by decide, by decide⟩

/-- A response of which 40 bytes are sent. -/
def midway : Sender where
  fw := { streamId := 0, fd := 7, pos := 40, len := 100, eof := false, scheduled := true }
  cleaned := false
  exited := false
  rounds := []

/-- Any other error code is added to `pos`. -/
theorem backPressure_lost_code : ∃ s' r, futureWriteTick midway ⟨false, true, 100, [⟨60, -13⟩]⟩ =
    some s' ∧ s'.rounds = [r] ∧ s'.fw.pos = 27 ∧ ¬ BackPressureKept s' r := by
  have hstep : futureWriteTick midway ⟨false, true, 100, [⟨60, -13⟩]⟩ = some _ := rfl
  refine ⟨_, _, hstep, rfl, rfl, ?_⟩
  exact backPressure_lost hstep rfl (List.mem_singleton.mpr rfl) (by decide)

/-! ## What is passed on -/

/-- `quiche_h3_send_body` gets as many bytes as were read, out of `buf`, and a `read` without data
changes nothing. -/
structure BodyRound.PassesRead (r : BodyRound) : Prop where
  length : r.length = r.read.toNat
  inside : r.length ≤ BUF_SIZE
  kept : r.read ≤ 0 → r.after.pos = r.before.pos ∧ r.after.eof = r.before.eof

instance (r : BodyRound) : Decidable r.PassesRead :=
  decidable_of_iff (r.length = r.read.toNat ∧ r.length ≤ BUF_SIZE ∧
      (r.read ≤ 0 → r.after.pos = r.before.pos ∧ r.after.eof = r.before.eof))
    ⟨fun h => ⟨h.1, h.2.1, h.2.2⟩, fun h => ⟨h.length, h.inside, h.kept⟩⟩

/-- `read` succeeds, and on an empty body `quiche_h3_send_body` returns 0 or
`QUICHE_H3_ERR_DONE`. -/
def Chunk.Answered (ch : Chunk) : Prop :=
  ch.read ≠ -1 ∧ (ch.read = 0 → ch.sent = 0 ∨ ch.sent = QUICHE_H3_ERR_DONE)

instance (ch : Chunk) : Decidable ch.Answered :=
  inferInstanceAs (Decidable (_ ∧ _))

/-- `fw->pos` is an `int`. -/
def FutureWrite.PosInt (fw : FutureWrite) : Prop :=
  -2 ^ 31 ≤ fw.pos ∧ fw.pos < 2 ^ 31

theorem start_posInt (streamId : ℤ) (fd : ℕ) : (Sender.start streamId fd).fw.PosInt := by
  simp [FutureWrite.PosInt, Sender.start]

theorem sendRound_posInt {fw : FutureWrite} (h : fw.PosInt) (ch : Chunk) :
    (sendRound fw ch).after.PosInt := by
  simp only [sendRound]
  split
  · exact h
  · simp only [FutureWrite.PosInt, wrap32]
    omega

/-- One round. -/
theorem sendRound_passesRead_iff {fw : FutureWrite} {ch : Chunk} (hpos : fw.PosInt)
    (hguard : fw.pos < fw.len) (hpossible : ch.Possible) :
    (sendRound fw ch).PassesRead ↔ ch.Answered := by
  obtain ⟨hlo, hhi⟩ := hpos
  obtain ⟨hfrom, hto, hsentFrom, hsentTo, -⟩ := hpossible
  have hlength : (sendRound fw ch).length = toSizeT ch.read := rfl
  constructor
  · intro hpasses
    have hread : ch.read ≠ -1 := by
      -- -1 is the largest `size_t`
      intro hfailed
      have hsame := hpasses.inside
      rw [hlength, hfailed] at hsame
      exact absurd hsame (by decide)
    refine ⟨hread, fun hzero => ?_⟩
    have hpos := (hpasses.kept (show ch.read ≤ 0 by omega)).1
    have hsent : wrap32 ch.sent = ch.sent := by
      simp only [hzero, toSizeT] at hsentTo
      exact wrap32_of_lt hsentFrom (by omega)
    simp only [sendRound, hsent] at hpos
    split at hpos
    · next hdone => exact Or.inr hdone
    · simp only [hzero, toSizeT] at hsentTo
      simp only [wrap32] at hpos
      omega
  · rintro ⟨hread, hempty⟩
    have hbytes : toSizeT ch.read = ch.read.toNat := by
      simp only [toSizeT, BUF_SIZE] at *
      omega
    refine ⟨hlength.trans hbytes, ?_, fun hnone => ?_⟩
    · rw [hlength, hbytes]
      omega
    · have hzero : ch.read = 0 := by
        have hnone' : ch.read ≤ 0 := hnone
        omega
      have hhere : wrap32 fw.pos = fw.pos := wrap32_of_lt hlo hhi
      have heof : (fw.eof || decide (wrap32 (fw.pos + ch.read) ≥ fw.len)) = fw.eof := by
        -- the guard of the loop: the end is not reached yet
        have hmore : ¬ wrap32 (fw.pos + ch.read) ≥ fw.len := by
          rw [hzero, Int.add_zero, hhere]
          omega
        rw [decide_eq_false hmore, Bool.or_false]
      rcases hempty hzero with hnothing | hdone
      · have hwritten : wrap32 ch.sent = 0 := by
          rw [hnothing]
          rfl
        have hgo : (0 : ℤ) ≠ QUICHE_H3_ERR_DONE := by decide
        simp only [sendRound, heof, hwritten, hgo, if_false, Int.add_zero, hhere, and_self]
      · have hwritten : wrap32 ch.sent = QUICHE_H3_ERR_DONE := by
          rw [hdone]
          rfl
        simp only [sendRound, heof, hwritten, if_true, and_self]

/-- A whole loop. -/
theorem sendLoop_passesRead_iff {chunks : List Chunk} {fw : FutureWrite} {l : SendLoop}
    (h : sendLoop chunks fw = some l) (hpos : fw.PosInt) :
    l.fw.PosInt ∧ ((∀ r ∈ l.rounds, r.PassesRead) ↔ ∀ ch ∈ chunks, ch.Answered) := by
  induction chunks generalizing fw l with
  | nil =>
      rw [sendLoop] at h
      split at h
      · cases h
      · obtain rfl := Option.some.inj h
        exact ⟨hpos, by simp⟩
  | cons ch chunks ih =>
      obtain ⟨hguard, hpossible, hend⟩ := sendLoop_cons h
      have hround := sendRound_passesRead_iff hpos hguard hpossible
      have hafter := sendRound_posInt hpos ch
      rcases hend with ⟨-, l', hrest, rfl⟩ | ⟨rfl, hlast⟩
      · obtain ⟨hpos', hiff⟩ := ih hrest hafter
        refine ⟨hpos', ?_⟩
        simp only [List.forall_mem_cons, hround, hiff]
      · obtain ⟨hfw, hrounds, -⟩ := hlast.last
        rw [hfw, hrounds]
        refine ⟨hafter, ?_⟩
        simp only [List.forall_mem_singleton, hround]

/-- One tick. -/
theorem futureWriteTick_passesRead_iff {s s' : Sender} {t : Tick}
    (h : futureWriteTick s t = some s') (hpos : s.fw.PosInt) :
    s'.fw.PosInt ∧ ((∀ r ∈ s'.rounds, r.PassesRead) ↔
      (∀ r ∈ s.rounds, r.PassesRead) ∧ ∀ ch ∈ t.chunks, ch.Answered) := by
  rcases futureWriteTick_cases h with ⟨hnone, hsame, hhere⟩ | ⟨fw, l, hhere, hloop, rfl⟩
  · rw [hsame, hnone]
    refine ⟨?_, by simp⟩
    rw [FutureWrite.PosInt, hhere]
    exact hpos
  · have hstart : fw.PosInt := by
      rw [FutureWrite.PosInt, hhere]
      exact hpos
    obtain ⟨hpos', hiff⟩ := sendLoop_passesRead_iff hloop hstart
    refine ⟨hpos', ?_⟩
    simp only [finishTick, List.forall_mem_append, hiff]

/-- **Over all ticks of a response, `quiche_h3_send_body` is passed what was read, and a `read`
without data leaves `pos` and `eof` alone, exactly if no `read` fails and every empty body is
answered with 0 or `QUICHE_H3_ERR_DONE`.** -/
theorem reads_passed_iff {streamId : ℤ} {fd : ℕ} {ticks : List Tick} {s : Sender}
    (hexec : senderMachine.exec (.start streamId fd) ticks = some s) :
    (∀ r ∈ s.rounds, r.PassesRead) ↔ ∀ t ∈ ticks, ∀ ch ∈ t.chunks, ch.Answered := by
  have hrun := senderMachine.exec_iff_meets (C := fun _ t => ∀ ch ∈ t.chunks, ch.Answered)
    (I := fun s => s.fw.PosInt) (P := fun s => ∀ r ∈ s.rounds, r.PassesRead)
    (fun s t s' hpos hstep => (futureWriteTick_passesRead_iff hstep hpos).1)
    (fun s t s' hpos hstep => (futureWriteTick_passesRead_iff hstep hpos).2)
    (start_posInt streamId fd) hexec
  rw [hrun, senderMachine.meets_iff_forall hexec]
  -- no round was made before the first tick
  exact and_iff_right fun r hr => by cases hr

/-- A poll, a short `send_body`, an empty `read` and the rest of the body. -/
def readsInTurn : List Tick :=
  [⟨false, false, SIZE_MAX, []⟩, ⟨false, false, 20, [⟨8, 8⟩, ⟨6, 3⟩]⟩,
    ⟨false, true, 20, [⟨0, 0⟩, ⟨9, 9⟩]⟩]

theorem reads_passed_inTurn : ∃ s, senderMachine.exec (.start 0 7) readsInTurn = some s ∧
    ∀ r ∈ s.rounds, r.PassesRead := by
  have hexec : senderMachine.exec (.start 0 7) readsInTurn = some _ := rfl
  exact ⟨_, hexec, (reads_passed_iff hexec).mpr (by decide)⟩

/-- The socket of a module would block: `quiche` is told to take 2^64 - 1 bytes from `buf`. -/
theorem reads_not_passed : ∃ s, senderMachine.exec (.start 0 7)
      [⟨false, false, 20, [⟨-1, 20⟩]⟩] = some s ∧
    (∃ r ∈ s.rounds, r.length = SIZE_MAX) ∧ ¬ ∀ r ∈ s.rounds, r.PassesRead :=
  ⟨_, rfl, by decide, by decide⟩

end Gfhttpd.Http3
