import Gfhttpd.Http3.Completion
import Gfhttpd.Http3.Fields

/-!
# Connections in a run

`WellFormed` holds of the `http_stream` of every connection, whatever its events are.  `Ticked`
is what a write tick does to a connection apart from its body, and `sends` the headers it sends;
`exists_writeTick` says that a scheduled response can always have its tick.
-/

namespace Gfhttpd.Http3

open Http Conf Router Modules Transition

variable {Code : Type}

/-! ## The invariant -/

/-- What holds of the `http_stream` of every connection. -/
structure WellFormed (c : Conn) : Prop where
  keys : UniqueKeys c.hs.request.headers
  evbase : c.hs.evbase = true
  status : c.hs.response.httpStatus.isSome
  table : TableOk c.hs.response.headers
  event : ∀ ev, c.hs.moduleCbEv = some ev → ev < c.world.nextEv
  freed : ∀ ev ∈ c.world.freed, ev < c.world.nextEv
  answering : c.writers ≠ [] → c.hs.response.headers ≠ []

theorem WellFormed.create (sock : ℤ) (cid : Bytes) : WellFormed (Conn.create sock cid) where
  keys := List.Pairwise.nil
  evbase := rfl
  status := rfl
  table := Or.inl rfl
  event ev h := by cases h
  freed ev h := by cases h
  answering h := absurd rfl h

theorem WellFormed.headers {c c' : Conn} (hc : WellFormed c) {streamId : ℤ}
    {block : List (Bytes × Bytes)} (h : HeadersCases c streamId block c') : WellFormed c' := by
  have hkeys := hc.keys.prepareRequest block
  obtain ⟨hstatus, -, htable, hevbase⟩ := prepareRequest_status block c.hs
  have hok : TableOk (prepareRequest block c.hs).response.headers := htable ▸ hc.table.init
  have hne : (prepareRequest block c.hs).response.headers ≠ [] := by
    rw [htable, initResponse_table hc.table]
    exact List.cons_ne_nil _ _
  have hsome : (prepareRequest block c.hs).response.httpStatus.isSome := hstatus ▸ hc.status
  have hloop := hevbase.trans hc.evbase
  obtain ⟨request, hframe⟩ := prepareRequest_frame block c.hs
  have hev : (prepareRequest block c.hs).moduleCbEv = c.hs.moduleCbEv := by rw [hframe]
  cases h with
  | unanswered h =>
      obtain ⟨moduleCbEv, chain, url, fd, hhs⟩ := h.hs
      refine ⟨?_, ?_, ?_, ?_, fun ev hset => ?_, fun ev hgiven => ?_, fun _ => ?_⟩
      · rw [hhs]
        exact hkeys
      · rw [hhs]
        exact hloop
      · rw [hhs]
        exact hsome
      · rw [hhs]
        exact hok
      · -- a module event may have been made before the call failed
        rcases h.event with hsame | ⟨hnew, hlt⟩
        · exact (hc.event ev (hsame.symm.trans hset)).trans_le h.nextEv
        · obtain rfl := Option.some.inj (hnew.symm.trans hset)
          exact hlt
      · rw [h.freed] at hgiven
        exact (hc.freed ev hgiven).trans_le h.nextEv
      · rw [hhs]
        exact hne
  | module es hes chain url =>
      refine ⟨hkeys, hloop, hsome, hok, fun ev hset => ?_, fun ev hgiven => ?_, fun _ => hne⟩
      · obtain rfl : c.world.nextEv = ev := Option.some.inj hset
        show c.world.nextEv < (World.addEvent _ _).nextEv
        rw [World.nextEv_addEvent]
        exact Nat.lt_succ_self _
      · show ev < (World.addEvent _ _).nextEv
        rw [World.nextEv_addEvent]
        have hold : ev ∈ (World.addEvent _ _).freed := hgiven
        rw [World.freed_addEvent] at hold
        exact (hc.freed ev hold).trans (Nat.lt_succ_self _)
  | file es hes f =>
      exact ⟨hkeys, hloop, hsome, hok, fun ev hset => hc.event ev (hev.symm.trans hset), hc.freed,
        fun _ => hne⟩
  | notFound es hes page hpage =>
      exact ⟨hkeys, hloop, rfl, hok, fun ev hset => hc.event ev (hev.symm.trans hset), hc.freed,
        fun _ => hne⟩

/-- The headers a write tick sends. -/
def sends (c : Conn) : Option (List (Bytes × Bytes)) :=
  if c.closed = false ∧ c.hs.response.headersSent = false ∧
      c.hs.response.contentLenght ≠ SIZE_MAX then
    c.hs.response.httpStatus.map fun status => responseHeaders status c.hs.response.contentLenght
  else none

/-- What a write tick of the response `fw` does to the connection. -/
structure Ticked (c : Conn) (fw : FutureWrite) (c' : Conn) : Prop where
  hs : ∃ headers sent timer, c'.hs = { c.hs with
    timer := timer
    response := { c.hs.response with headers := headers, headersSent := sent } }
  closed : c'.closed = c.closed
  sent : c'.hs.response.headersSent = (c.hs.response.headersSent || (sends c).isSome)
  table : c'.hs.response.headers ≠ [] ∧ TableOk c'.hs.response.headers
  /-- the other responses stay as they are -/
  writers : ∀ fw' ∈ c'.writers, fw' ∈ c.writers ∨ fw'.streamId = fw.streamId
  pending : c'.world.pending = c.world.pending
  nextEv : c'.world.nextEv = c.world.nextEv
  freed : c'.world.freed = c.world.freed
  log : ∀ stream, responsesOn stream c'.world.log = responsesOn stream c.world.log ++
    if fw.streamId = stream then (sends c).toList else []

theorem mem_modify {l : List FutureWrite} {i : ℕ} {new fw : FutureWrite}
    (h : fw ∈ l.modify i fun _ => new) : fw ∈ l ∨ fw = new := by
  obtain ⟨j, hj⟩ := List.mem_iff_getElem?.mp h
  rw [List.getElem?_modify] at hj
  cases hget : l[j]? with
  | none => simp [hget] at hj
  | some old =>
      rw [hget] at hj
      by_cases hij : i = j
      · simp only [hij, if_true, Option.map_eq_map, Option.map_some, Option.some.injEq] at hj
        exact Or.inr hj.symm
      · simp only [hij, if_false, Option.map_eq_map, Option.map_some, Option.some.injEq] at hj
        exact Or.inl (hj ▸ List.mem_of_getElem? hget)

theorem ticked_of_cases {c c' : Conn} {i : ℕ} {fw : FutureWrite} {io : TickIO}
    (h : TickCases c i fw io c')
    (htable : c.hs.response.headers ≠ [] ∧ TableOk c.hs.response.headers) : Ticked c fw c' := by
  have hsame : c.hs = { c.hs with
      timer := c.hs.timer
      response := { c.hs.response with
        headers := c.hs.response.headers, headersSent := c.hs.response.headersSent } } := rfl
  -- a tick that only changes whether the event is scheduled
  have hreschedule : ∀ scheduled, sends c = none →
      Ticked c fw (c.modifyWriter i fun _ => { fw with scheduled := scheduled }) := by
    intro scheduled hnone
    refine ⟨⟨_, _, _, hsame⟩, rfl, by simp [hnone, Conn.modifyWriter], htable,
      fun fw' hfw' => ?_, rfl, rfl, rfl, fun stream => by simp [hnone, Conn.modifyWriter]⟩
    rcases mem_modify hfw' with hold | rfl
    · exact Or.inl hold
    · exact Or.inr rfl
  have hmem : ∀ {c₀ : Conn} {fw₀ : FutureWrite}, BodyFrame c₀ i fw₀ c' → c₀.writers = c.writers →
      fw₀.streamId = fw.streamId → ∀ fw' ∈ c'.writers, fw' ∈ c.writers ∨
        fw'.streamId = fw.streamId := by
    intro c₀ fw₀ hframe hwriters hstream fw' hfw'
    obtain ⟨new, hnew, hid, -⟩ := hframe.writers
    rw [hnew, hwriters] at hfw'
    rcases mem_modify hfw' with hold | rfl
    · exact Or.inl hold
    · exact Or.inr (hid.trans hstream)
  obtain ⟨oldStatus, nStatus, length, nLength, htable'⟩ := htable.2.resolve_left htable.1
  cases h with
  | closed hclosed => exact hreschedule false (if_neg fun hand => by simp [hclosed] at hand)
  | deferred hopen hunsent hlen => exact hreschedule true (if_neg fun hand => hand.2.2 hlen)
  | noHeaders hopen hunsent hlen hnone =>
      have hstatus : c.hs.response.httpStatus = none := by
        cases hstatus : c.hs.response.httpStatus with
        | none => rfl
        | some status =>
            rw [htable', hstatus, getHttp3Headers_table] at hnone
            cases hnone
      have hsends : sends c = none := by simp [sends, hstatus]
      exact ⟨⟨_, _, _, hsame⟩, rfl, by simp [hsends, Conn.die], htable, fun _ h => Or.inl h, rfl,
        rfl, rfl, fun stream => by simp [hsends, Conn.die]⟩
  | next hopen hsent hbody =>
      have hsends : sends c = none := if_neg fun hand => by simp [hsent] at hand
      have hframe := writeBody_frame hbody
      obtain ⟨timer, hhs⟩ := hframe.hs
      refine ⟨⟨_, _, timer, hhs⟩, hframe.closed, by simp [hhs, hsends], by rw [hhs]; exact htable,
        hmem hframe rfl rfl, hframe.pending, hframe.nextEv, hframe.freed, fun stream => ?_⟩
      rw [hframe.responses, hsends]
      simp
  | @first hopen hunsent hlen headers array hheaders _ hbody =>
      obtain ⟨status, hstatus⟩ : ∃ status, c.hs.response.httpStatus = some status := by
        cases hstatus : c.hs.response.httpStatus with
        | none =>
            rw [hstatus] at hheaders
            cases hheaders
        | some status => exact ⟨status, rfl⟩
      have hsends : sends c = some (responseHeaders status c.hs.response.contentLenght) := by
        simp [sends, hopen, hunsent, hlen, hstatus]
      rw [htable', hstatus, getHttp3Headers_table, Option.some.injEq, Prod.mk.injEq] at hheaders
      obtain ⟨hnew, hfields⟩ := hheaders
      have hframe := writeBody_frame hbody
      obtain ⟨timer, hhs⟩ := hframe.hs
      refine ⟨⟨headers, true, timer, hhs⟩, hframe.closed, by simp [hhs, hsends, sentHeaders], ?_,
        hmem hframe rfl rfl, hframe.pending, hframe.nextEv, hframe.freed, fun stream => ?_⟩
      · rw [hhs]
        show headers ≠ [] ∧ TableOk headers
        rw [← hnew]
        exact ⟨List.cons_ne_nil _ _, Or.inr ⟨_, _, _, _, rfl⟩⟩
      · rw [hframe.responses]
        show responsesOn stream (c.world.log ++ [.sendResponse fw.streamId array]) = _
        rw [responsesOn_append, hsends, ← hfields]
        by_cases hstream : fw.streamId = stream
        · simp [responsesOn, hstream]
        · simp [responsesOn, hstream]

theorem WellFormed.tick {c c' : Conn} (hc : WellFormed c) {fw : FutureWrite}
    (h : Ticked c fw c') : WellFormed c' := by
  obtain ⟨headers, sent, timer, hhs⟩ := h.hs
  refine ⟨?_, ?_, ?_, h.table.2, fun ev hset => ?_, fun ev hgiven => ?_, fun _ => h.table.1⟩
  · rw [hhs]
    exact hc.keys
  · rw [hhs]
    exact hc.evbase
  · rw [hhs]
    exact hc.status
  · rw [h.nextEv]
    rw [hhs] at hset
    exact hc.event ev hset
  · rw [h.nextEv]
    rw [h.freed] at hgiven
    exact hc.freed ev hgiven

/-- A module leaves the request, and the table of response headers. -/
theorem WellFormed.moduleTick {c : Conn} (hc : WellFormed c) (ev : ℕ) (io : ModuleIO) :
    WellFormed (moduleTick c ev io) := by
  have hticked := moduleTick_spec c ev io
  obtain ⟨_, _, _, _, hhs⟩ := hticked.stream
  refine ⟨?_, ?_, hticked.status hc.status, ?_, fun x hset => ?_, fun x hgiven => ?_,
    fun hwriters => ?_⟩
  · rw [hhs]
    exact hc.keys
  · rw [hhs]
    exact hc.evbase
  · rw [hhs]
    exact hc.table
  · rcases hticked.event with hsame | ⟨hnew, hlt⟩
    · exact (hc.event x (hsame.symm.trans hset)).trans_le hticked.nextEv
    · obtain rfl := Option.some.inj (hnew.symm.trans hset)
      exact hlt
  · rcases hticked.freed x hgiven with hold | hold
    · exact (hc.freed x hold).trans_le hticked.nextEv
    · exact (hc.event x hold).trans_le hticked.nextEv
  · rw [hhs]
    exact hc.answering (hticked.writers ▸ hwriters)

theorem WellFormed.step {routes : List (Route Code)} {c c' : Conn} {e : ConnEvent Code}
    (hc : WellFormed c) (h : connStep routes c e = some c') : WellFormed c' := by
  cases e with
  | headers streamId block io => exact hc.headers (connStep_headers h).2.2
  | writeTick i io =>
      obtain ⟨-, fw, hfw, -, hcases⟩ := connStep_writeTick h
      have hne : c.writers ≠ [] := List.ne_nil_of_mem (List.mem_of_getElem? hfw)
      exact hc.tick (ticked_of_cases hcases ⟨hc.answering hne, hc.table⟩)
  | moduleTick ev io =>
      obtain ⟨-, -, rfl⟩ := connStep_moduleTick h
      exact hc.moduleTick ev io
  | close =>
      obtain rfl := connStep_close h
      exact ⟨hc.keys, hc.evbase, hc.status, hc.table, hc.event, hc.freed, hc.answering⟩

theorem WellFormed.run {routes : List (Route Code)} {sock : ℤ} {cid : Bytes}
    {es : List (ConnEvent Code)} {c : Conn}
    (h : (connMachine routes).exec (Conn.create sock cid) es = some c) : WellFormed c :=
  (connMachine routes).exec_invariant (I := WellFormed) (fun _ _ _ hc hstep => hc.step hstep)
    (.create sock cid) h

/-! ## The next tick -/

/-- Some answers end the loop. -/
theorem exists_writeLoop (i : ℕ) (fw : FutureWrite) (fd : Fd) :
    ∃ chunks r, writeLoop i chunks fw fd = some r := by
  by_cases hpos : fw.pos < fw.len
  · -- an error of `read`
    have hcan : Fd.canRead fd (-1) = true := rfl
    refine ⟨[⟨-1, 0⟩], ⟨fw.sawChunk (-1), Fd.advance fd (-1), [], .outOfBounds⟩, ?_⟩
    simp only [writeLoop, hpos, hcan, not_true_eq_false, or_self, if_false, if_true]
    rfl
  · exact ⟨[], _, if_neg hpos⟩

theorem exists_writeBody {c : Conn} (fw : FutureWrite) {fd : Fd} (i : ℕ)
    (hfd : c.world.fds[fw.fd]? = some fd) : ∃ io d, writeBody c i fw io = some d := by
  obtain ⟨chunks, r, hloop⟩ := exists_writeLoop i fw (fd.seek fw.pos)
  have hsome : (writeBody c i fw ⟨chunks, ⟨[], false, 0⟩⟩).isSome = true := by
    simp only [writeBody, hfd, hloop, Option.isSome_some]
  exact ⟨_, Option.isSome_iff_exists.mp hsome⟩

/-- A scheduled response can have its tick. -/
theorem exists_writeTick (routes : List (Route Code)) {c : Conn} (hc : WellFormed c) {n : ℕ}
    {fw : FutureWrite} {fd : Fd} (halive : c.dead = false) (hopen : c.closed = false)
    (hfw : c.writers[n]? = some fw) (hscheduled : fw.scheduled = true)
    (hfd : c.world.fds[fw.fd]? = some fd) (hlen : c.hs.response.contentLenght ≠ SIZE_MAX) :
    ∃ io d, connStep routes c (.writeTick n io) = some d ∧
      ∀ stream, responsesOn stream d.world.log = responsesOn stream c.world.log ++
        if fw.streamId = stream then (sends c).toList else [] := by
  have hne := hc.answering (List.ne_nil_of_mem (List.mem_of_getElem? hfw))
  obtain ⟨oldStatus, nStatus, length, nLength, htable⟩ := hc.table.resolve_left hne
  obtain ⟨status, hstatus⟩ := Option.isSome_iff_exists.mp hc.status
  obtain ⟨io, d, hcb⟩ : ∃ io d, futureWriteCb c n io = some d := by
    have hclosed : ¬ c.closed = true := by simp [hopen]
    cases hsent : c.hs.response.headersSent with
    | true =>
        obtain ⟨io, d, hbody⟩ := exists_writeBody { fw with scheduled := false } n hfd
        refine ⟨io, d, ?_⟩
        simp only [futureWriteCb, hfw]
        rw [if_neg hclosed, if_neg (by simp [hsent]), if_neg (by simp [hsent])]
        exact hbody
    | false =>
        -- the table has the two fields that `get_http3_headers` fills in
        obtain ⟨headers, hheaders⟩ : ∃ headers, getHttp3Headers c.hs.response.headers
            c.hs.response.httpStatus c.hs.response.contentLenght =
              some (headers, responseHeaders status c.hs.response.contentLenght) := by
          rw [htable, hstatus]
          exact ⟨_, getHttp3Headers_table ..⟩
        obtain ⟨io, d, hbody⟩ : ∃ io d, writeBody (sentHeaders c fw.streamId headers
            (responseHeaders status c.hs.response.contentLenght)) n
            { fw with scheduled := false, len := wrap32 c.hs.response.contentLenght } io = some d :=
          exists_writeBody _ n hfd
        refine ⟨io, d, ?_⟩
        simp only [futureWriteCb, hfw]
        rw [if_neg hclosed, if_pos ⟨hsent, hlen⟩, hheaders]
        exact hbody
  have htick : connStep routes c (.writeTick n io) = some d := by
    simp only [connStep, halive, hfw, Option.map_some, hscheduled, Option.getD_some, Bool.not_true,
      Bool.or_self, Bool.false_eq_true, if_false, hcb]
  refine ⟨io, d, htick, fun stream => ?_⟩
  obtain ⟨-, fw', hfw', -, hcases⟩ := connStep_writeTick htick
  obtain rfl := Option.some.inj (hfw.symm.trans hfw')
  exact (ticked_of_cases hcases ⟨hne, hc.table⟩).log stream

end Gfhttpd.Http3
