import Gfhttpd.Http3.WellFormed
import Gfhttpd.Router.Decision
import Mathlib.Data.List.Forall2

/-!
# Requests of one connection

Two connections get the same header block on a new stream.  They are `Isolated` when the request
that `root_router` and the modules see is the same, and so are the status and the content length
sent in the end, whatever the connections did before.

`isolated_iff` says exactly when that is so.  The requests of a connection share one
`http_stream`: a pseudo-header the block does not name and the other fields are left from earlier
requests, and after the first response no other one is sent.
-/

namespace Gfhttpd.Security

open Http Conf Router Modules Transition Http3

variable {Code : Type}

/-! ## Two runs -/

/-- Nothing is left to do for the requests of the connection, and nothing was sent on the
stream. -/
structure Settled (c : Conn) (streamId : ℤ) : Prop where
  alive : c.dead = false
  opened : c.closed = false
  idle : ∀ fw ∈ c.writers, fw.scheduled = false
  pending : c.world.pending = []
  fresh : responsesOn streamId c.world.log = []

/-- The two events are ticks of the same kind; modules are answered the same. -/
inductive SameTick : ConnEvent Code → ConnEvent Code → Prop
  | write (i i' : ℕ) (io io' : TickIO) : SameTick (.writeTick i io) (.writeTick i' io')
  | module (ev ev' : ℕ) (io : ModuleIO) : SameTick (.moduleTick ev io) (.moduleTick ev' io)
  | close : SameTick .close .close

/-- The request behind the block is the same in both connections, and so is what is sent on its
stream after any further ticks. -/
def Isolated (routes : List (Route Code)) (streamId : ℤ) (block : List (Bytes × Bytes))
    (io : RouterIO Code) (c c' : Conn) : Prop :=
  seen (prepareRequest block c.hs).request = seen (prepareRequest block c'.hs).request ∧
    ∀ es es' d d', List.Forall₂ SameTick es es' →
      (connMachine routes).exec c (.headers streamId block io :: es) = some d →
      (connMachine routes).exec c' (.headers streamId block io :: es') = some d' →
      responsesOn streamId d.world.log = responsesOn streamId d'.world.log

/-- The result of `root_router` for the block. -/
def routed (routes : List (Route Code)) (streamId : ℤ) (block : List (Bytes × Bytes))
    (io : RouterIO Code) (c : Conn) : RouterResult :=
  rootRouter (prepareRequest block c.hs).evbase routes io (prepareRequest block c.hs)
    (routerWorld c streamId block)

/-- Where `root_router` finds something to send, the connections agree on whether headers were
sent before and, for a file, on the status. -/
def ResponsesAgree (r : RouterResult) (p p' : HttpResponse) : Prop :=
  r.fault = false → r.fd ≠ -1 →
    match r.outcome with
    | .file size => toSizeT (wrap32 size) ≠ SIZE_MAX → p.headersSent = p'.headersSent ∧
        (p.headersSent = false → p.httpStatus = p'.httpStatus)
    | .notFound _ => p.headersSent = p'.headersSent
    | .module => GoFirst r.hs → p.headersSent = p'.headersSent

/-! ## The two connections behind the block -/

/-- A response of the connection is scheduled. -/
def Scheduled (c : Conn) : Prop :=
  ∃ fw ∈ c.writers, fw.scheduled = true

/-- While both connections can go on, they agree on the answer to the new request. -/
structure Related (streamId : ℤ) (c c' : Conn) : Prop where
  closed : c.closed = c'.closed
  mine : ∀ fw ∈ c.writers, fw.scheduled = true → fw.streamId = streamId
  mine' : ∀ fw ∈ c'.writers, fw.scheduled = true → fw.streamId = streamId
  request : c.world.pending ≠ [] → c'.world.pending ≠ [] → c.hs.request = c'.hs.request
  length : Scheduled c → Scheduled c' →
    c.hs.response.contentLenght = c'.hs.response.contentLenght
  /-- if there is something to send, or there may be after a module run -/
  answer : Scheduled c → Scheduled c' →
    c.hs.response.contentLenght ≠ SIZE_MAX ∨ c.world.pending ≠ [] ∧ GoFirst c.hs →
    c.hs.response.headersSent = c'.hs.response.headersSent ∧
      (c.hs.response.headersSent = false → c.hs.response.contentLenght ≠ SIZE_MAX →
        c.hs.response.httpStatus = c'.hs.response.httpStatus)

/-- The same was sent on the stream, and the connections are related while both are alive. -/
structure Alike (streamId : ℤ) (c c' : Conn) : Prop where
  wellFormed : WellFormed c
  wellFormed' : WellFormed c'
  sent : responsesOn streamId c.world.log = responsesOn streamId c'.world.log
  related : c.dead = false → c'.dead = false → Related streamId c c'

/-- Related connections send the same. -/
theorem Related.sends_eq {streamId : ℤ} {c c' : Conn} (h : Related streamId c c')
    (hs : Scheduled c) (hs' : Scheduled c') : sends c = sends c' := by
  have hlength := h.length hs hs'
  unfold sends
  rw [h.closed, hlength]
  by_cases hlen : c'.hs.response.contentLenght = SIZE_MAX
  · rw [if_neg fun hand => hand.2.2 hlen, if_neg fun hand => hand.2.2 hlen]
  · obtain ⟨hsent, hstatus⟩ := h.answer hs hs' (Or.inl (hlength ▸ hlen))
    rw [hsent]
    cases hcase : c'.hs.response.headersSent with
    | true => simp
    | false => rw [hstatus (hsent.trans hcase) (hlength ▸ hlen)]

/-- Write ticks of both connections. -/
theorem Related.tick {streamId : ℤ} {c c' d d' : Conn} (h : Related streamId c c')
    {fw fw' : FutureWrite} (hfw : fw ∈ c.writers) (hfw' : fw' ∈ c'.writers)
    (hscheduled : fw.scheduled = true) (hscheduled' : fw'.scheduled = true)
    (ht : Ticked c fw d) (ht' : Ticked c' fw' d') : Related streamId d d' := by
  have hs : Scheduled c := ⟨fw, hfw, hscheduled⟩
  have hs' : Scheduled c' := ⟨fw', hfw', hscheduled'⟩
  obtain ⟨_, _, _, hhs⟩ := ht.hs
  obtain ⟨_, _, _, hhs'⟩ := ht'.hs
  have hlength := h.length hs hs'
  refine ⟨?_, fun g hg hgs => ?_, fun g hg hgs => ?_, fun hp hp' => ?_, fun _ _ => ?_,
    fun _ _ hsome => ?_⟩
  · rw [ht.closed, ht'.closed, h.closed]
  · -- a tick schedules its own response again, or none
    rcases ht.writers g hg with hold | hsame
    · exact h.mine g hold hgs
    · exact hsame.trans (h.mine fw hfw hscheduled)
  · rcases ht'.writers g hg with hold | hsame
    · exact h.mine' g hold hgs
    · exact hsame.trans (h.mine' fw' hfw' hscheduled')
  · rw [ht.pending] at hp
    rw [ht'.pending] at hp'
    rw [hhs, hhs']
    exact h.request hp hp'
  · rw [hhs, hhs']
    exact hlength
  · have hbefore : c.hs.response.contentLenght ≠ SIZE_MAX ∨ c.world.pending ≠ [] ∧ GoFirst c.hs := by
      rw [ht.pending, hhs] at hsome
      exact hsome
    obtain ⟨hsent, hstatus⟩ := h.answer hs hs' hbefore
    rw [ht.sent, ht'.sent, h.sends_eq hs hs', hsent]
    refine ⟨rfl, fun hunsent hlen => ?_⟩
    -- without headers in this tick the status is still to be sent
    simp only [Bool.or_eq_false_iff] at hunsent
    rw [hhs] at hlen
    rw [hhs, hhs']
    exact hstatus (hsent.trans hunsent.1) hlen

/-- Module events of both connections. -/
theorem Related.moduleTick {streamId : ℤ} {c c' : Conn} (h : Related streamId c c') {ev ev' : ℕ}
    (io : ModuleIO) (hev : ev ∈ c.world.pending) (hev' : ev' ∈ c'.world.pending)
    (halive : (moduleTick c ev io).dead = false) (halive' : (moduleTick c' ev' io).dead = false) :
    Related streamId (moduleTick c ev io) (moduleTick c' ev' io) := by
  have hpending : c.world.pending ≠ [] := List.ne_nil_of_mem hev
  have hpending' : c'.world.pending ≠ [] := List.ne_nil_of_mem hev'
  have hrequest := h.request hpending hpending'
  -- the same request makes the module answer the same, or not at all, on both sides
  obtain ⟨hanswer, hafter⟩ := moduleCb_congr io (c.world.delEvent ev) (c'.world.delEvent ev')
    hrequest
  have hticked := moduleTick_spec c ev io
  have hticked' := moduleTick_spec c' ev' io
  rw [← hanswer] at hticked'
  obtain ⟨_, _, _, _, hhs⟩ := hticked.stream
  obtain ⟨_, _, _, _, hhs'⟩ := hticked'.stream
  have hsent : (Http3.moduleTick c ev io).hs.response.headersSent = c.hs.response.headersSent := by
    rw [hhs]
  have hsent' :
      (Http3.moduleTick c' ev' io).hs.response.headersSent = c'.hs.response.headersSent := by
    rw [hhs']
  have hfault := (Bool.or_eq_false_iff.mp halive).2
  have hfault' := (Bool.or_eq_false_iff.mp halive').2
  refine ⟨h.closed, h.mine, h.mine', fun _ _ => hafter hfault hfault', fun hs hs' => ?_,
    fun hs hs' hsome => ?_⟩
  · cases hr : (moduleCb io c.hs (c.world.delEvent ev)).answer with
    | none =>
        rw [hticked.silent hr, hticked'.silent hr]
        exact h.length hs hs'
    | some a => rw [(hticked.written a.1 a.2 hr).2, (hticked'.written a.1 a.2 hr).2]
  · rw [hsent, hsent']
    by_cases hgo : GoFirst c.hs
    · obtain ⟨hsame, hstatus⟩ := h.answer hs hs' (Or.inr ⟨hpending, hgo⟩)
      refine ⟨hsame, fun hunsent hlen => ?_⟩
      cases hr : (moduleCb io c.hs (c.world.delEvent ev)).answer with
      | none =>
          rw [hticked.silent hr] at hlen ⊢
          rw [hticked'.silent hr]
          exact hstatus hunsent hlen
      | some a => rw [(hticked.written a.1 a.2 hr).1, (hticked'.written a.1 a.2 hr).1]
    · -- nothing was run
      obtain ⟨hstay, hnone⟩ := moduleCb_idle io (c.world.delEvent ev) hgo
      have hlen : c.hs.response.contentLenght ≠ SIZE_MAX := by
        rcases hsome with hlen | ⟨-, hgo'⟩
        · exact hstay ▸ hlen
        · exact absurd (hstay ▸ hgo') hgo
      obtain ⟨hsame, hstatus⟩ := h.answer hs hs' (Or.inl hlen)
      refine ⟨hsame, fun hunsent _ => ?_⟩
      rw [hticked.silent hnone, hticked'.silent hnone]
      exact hstatus hunsent hlen

/-- Ticks of both connections. -/
theorem Alike.step {routes : List (Route Code)} {streamId : ℤ} {c c' d d' : Conn}
    (h : Alike streamId c c') {e e' : ConnEvent Code} (hsame : SameTick e e')
    (hd : connStep routes c e = some d) (hd' : connStep routes c' e' = some d') :
    Alike streamId d d' := by
  have hwf := h.wellFormed.step hd
  have hwf' := h.wellFormed'.step hd'
  cases hsame with
  | write i i' io io' =>
      obtain ⟨halive, fw, hfw, hscheduled, hcases⟩ := connStep_writeTick hd
      obtain ⟨halive', fw', hfw', hscheduled', hcases'⟩ := connStep_writeTick hd'
      have hmem := List.mem_of_getElem? hfw
      have hmem' := List.mem_of_getElem? hfw'
      have hrelated := h.related halive halive'
      have ht := ticked_of_cases hcases
        ⟨h.wellFormed.answering (List.ne_nil_of_mem hmem), h.wellFormed.table⟩
      have ht' := ticked_of_cases hcases'
        ⟨h.wellFormed'.answering (List.ne_nil_of_mem hmem'), h.wellFormed'.table⟩
      refine ⟨hwf, hwf', ?_, fun _ _ => hrelated.tick hmem hmem' hscheduled hscheduled' ht ht'⟩
      -- the headers of both ticks are the same, and go to the stream of the request
      rw [ht.log, ht'.log, h.sent, hrelated.mine fw hmem hscheduled,
        hrelated.mine' fw' hmem' hscheduled',
        hrelated.sends_eq ⟨fw, hmem, hscheduled⟩ ⟨fw', hmem', hscheduled'⟩]
  | module ev ev' io =>
      obtain ⟨halive, hev, rfl⟩ := connStep_moduleTick hd
      obtain ⟨halive', hev', rfl⟩ := connStep_moduleTick hd'
      refine ⟨hwf, hwf', ?_, (h.related halive halive').moduleTick io hev hev'⟩
      -- a module sends nothing itself
      obtain ⟨es, hes, hlog⟩ := moduleTick_silent c ev io
      obtain ⟨es', hes', hlog'⟩ := moduleTick_silent c' ev' io
      rw [hlog, hlog', (silent_append hes _ _).1, (silent_append hes' _ _).1]
      exact h.sent
  | close =>
      obtain rfl := connStep_close hd
      obtain rfl := connStep_close hd'
      refine ⟨hwf, hwf', h.sent, fun halive halive' => ?_⟩
      have hrelated := h.related halive halive'
      exact ⟨rfl, hrelated.mine, hrelated.mine', hrelated.request, hrelated.length,
        hrelated.answer⟩

/-- Any number of ticks. -/
theorem Alike.run {routes : List (Route Code)} {streamId : ℤ} {c c' d d' : Conn}
    (h : Alike streamId c c') {es es' : List (ConnEvent Code)}
    (hsame : List.Forall₂ SameTick es es') (hd : (connMachine routes).exec c es = some d)
    (hd' : (connMachine routes).exec c' es' = some d') : Alike streamId d d' := by
  induction hsame generalizing c c' with
  | nil =>
      obtain rfl : c = d := by simpa using hd
      obtain rfl : c' = d' := by simpa using hd'
      exact h
  | cons hone hrest ih =>
      obtain ⟨b, hstep, htail⟩ := (connMachine routes).exec_cons_eq_some.mp hd
      obtain ⟨b', hstep', htail'⟩ := (connMachine routes).exec_cons_eq_some.mp hd'
      exact ih (h.step hone hstep hstep') htail htail'

/-! ## The block -/

/-- The connection after a request that gets a response. -/
theorem onRouted_answered (c : Conn) (streamId : ℤ) {r : RouterResult} (hok : r.fault = false)
    (hfd : r.fd ≠ -1) : (onRouted c streamId r).writers =
        c.writers ++ [newWriter streamId r.fd.toNat] ∧
      (onRouted c streamId r).hs = r.hs ∧ (onRouted c streamId r).closed = c.closed ∧
      (onRouted c streamId r).dead = c.dead ∧
      (onRouted c streamId r).world = r.world.emit (.routed streamId r.fd.toNat r.outcome) := by
  simp [onRouted, hok, hfd, sendResponse, newWriter]

/-- The connection after one that gets none. -/
theorem onRouted_unanswered (c : Conn) (streamId : ℤ) {r : RouterResult}
    (h : r.fault = true ∨ r.fd = -1) : (onRouted c streamId r).writers = c.writers ∧
      (onRouted c streamId r).closed = c.closed ∧ (onRouted c streamId r).world = r.world := by
  rcases h with hfault | hfd
  · simp [onRouted, hfault, Conn.die]
  · cases hfault : r.fault with
    | true => simp [onRouted, hfault, Conn.die]
    | false => simp [onRouted, hfault, hfd]

/-- The only response that is scheduled is the new one. -/
theorem Settled.mine {c : Conn} {streamId : ℤ} (h : Settled c streamId) (n : ℕ) :
    ∀ fw ∈ c.writers ++ [newWriter streamId n], fw.scheduled = true → fw.streamId = streamId := by
  intro fw hmem hscheduled
  rcases List.mem_append.mp hmem with hmem | hmem
  · rw [h.idle fw hmem] at hscheduled
    cases hscheduled
  · rw [List.mem_singleton.mp hmem]
    rfl

/-- Two connections whose requests get a response. -/
theorem Related.answered {c c' : Conn} {streamId : ℤ} (hs : Settled c streamId)
    (hs' : Settled c' streamId) {r r' : RouterResult} (hok : r.fault = false) (hfd : r.fd ≠ -1)
    (hok' : r'.fault = false) (hfd' : r'.fd ≠ -1)
    (hrequest : r.world.pending ≠ [] → r.hs.request = r'.hs.request)
    (hlength : r.hs.response.contentLenght = r'.hs.response.contentLenght)
    (hanswer : r.hs.response.contentLenght ≠ SIZE_MAX ∨ r.world.pending ≠ [] ∧ GoFirst r.hs →
      r.hs.response.headersSent = r'.hs.response.headersSent ∧
        (r.hs.response.headersSent = false → r.hs.response.contentLenght ≠ SIZE_MAX →
          r.hs.response.httpStatus = r'.hs.response.httpStatus)) :
    Related streamId (onRouted c streamId r) (onRouted c' streamId r') := by
  obtain ⟨hwriters, hhs, hclosed, -, hworld⟩ := onRouted_answered c streamId hok hfd
  obtain ⟨hwriters', hhs', hclosed', -, hworld'⟩ :=
    onRouted_answered c' streamId hok' hfd'
  refine ⟨?_, ?_, ?_, fun hp _ => ?_, fun _ _ => ?_, fun _ _ hsome => ?_⟩
  · rw [hclosed, hclosed', hs.opened, hs'.opened]
  · rw [hwriters]
    exact hs.mine _
  · rw [hwriters']
    exact hs'.mine _
  · rw [hworld] at hp
    rw [hhs, hhs']
    exact hrequest hp
  · rw [hhs, hhs']
    exact hlength
  · rw [hhs, hworld] at hsome
    rw [hhs, hhs']
    exact hanswer hsome

/-- Two connections whose requests get none: no response is scheduled, and no event waits. -/
theorem Related.unanswered {c c' : Conn} {streamId : ℤ} (hs : Settled c streamId)
    (hs' : Settled c' streamId) {r r' : RouterResult} (hnone : r.fault = true ∨ r.fd = -1)
    (hnone' : r'.fault = true ∨ r'.fd = -1) (hpending : r.world.pending = []) :
    Related streamId (onRouted c streamId r) (onRouted c' streamId r') := by
  obtain ⟨hwriters, hclosed, hworld⟩ := onRouted_unanswered c streamId hnone
  obtain ⟨hwriters', hclosed', -⟩ := onRouted_unanswered c' streamId hnone'
  have hunscheduled : ¬ Scheduled (onRouted c streamId r) := by
    rintro ⟨fw, hmem, hscheduled⟩
    rw [hwriters] at hmem
    rw [hs.idle fw hmem] at hscheduled
    cases hscheduled
  refine ⟨?_, fun fw hmem hfw => ?_, fun fw hmem hfw => ?_, fun hp => ?_,
    fun hyes => absurd hyes hunscheduled, fun hyes => absurd hyes hunscheduled⟩
  · rw [hclosed, hclosed', hs.opened, hs'.opened]
  · exact absurd ⟨fw, hmem, hfw⟩ hunscheduled
  · rw [hwriters'] at hmem
    rw [hs'.idle fw hmem] at hfw
    cases hfw
  · rw [hworld, hpending] at hp
    exact absurd rfl hp

/-- Two connections whose requests get a response that waits for no event. -/
theorem Related.immediate {c c' : Conn} {streamId : ℤ} (hs : Settled c streamId)
    (hs' : Settled c' streamId) {r r' : RouterResult} (hok : r.fault = false) (hfd : r.fd ≠ -1)
    (hsame : SameDecision r r') (hpending : r.world.pending = [])
    (hlength : r.hs.response.contentLenght = r'.hs.response.contentLenght)
    (hanswer : r.hs.response.contentLenght ≠ SIZE_MAX →
      r.hs.response.headersSent = r'.hs.response.headersSent ∧
        (r.hs.response.headersSent = false →
          r.hs.response.httpStatus = r'.hs.response.httpStatus)) :
    Related streamId (onRouted c streamId r) (onRouted c' streamId r') := by
  obtain ⟨hok', hfd'⟩ := hsame.answered hok hfd
  apply Related.answered hs hs' hok hfd hok' hfd' (fun hp => absurd hpending hp) hlength
  rintro (hlen | ⟨hp, -⟩)
  · obtain ⟨hsent, hstatus⟩ := hanswer hlen
    exact ⟨hsent, fun hunsent _ => hstatus hunsent⟩
  · exact absurd hpending hp

/-- The requests that a module gets. -/
theorem request_eq_of_seen {q q' : HttpRequest} (hseen : seen q = seen q')
    (chain : List Module) (url : Option Bytes) :
    { q with modulesChain := chain, modulesUrl := url } =
      { q' with modulesChain := chain, modulesUrl := url } := by
  simp only [seen, Seen.mk.injEq] at hseen
  obtain ⟨h1, h2, h3, h4, h5⟩ := hseen
  simp only [h1, h2, h3, h4, h5]

/-- Requests that are seen the same and to which the responses agree leave related
connections. -/
theorem Related.start {c c' : Conn} {streamId : ℤ} (hs : Settled c streamId)
    (hs' : Settled c' streamId) {block : List (Bytes × Bytes)} {r r' : RouterResult}
    (h : Decided (prepareRequest block c.hs) (routerWorld c streamId block) r)
    (h' : Decided (prepareRequest block c'.hs) (routerWorld c' streamId block) r')
    (hsame : SameDecision r r')
    (hseen : seen (prepareRequest block c.hs).request = seen (prepareRequest block c'.hs).request)
    (hagree : ResponsesAgree r c.hs.response c'.hs.response) :
    Related streamId (onRouted c streamId r) (onRouted c' streamId r') := by
  obtain ⟨hstatus, hsent, -⟩ := prepareRequest_status block c.hs
  obtain ⟨hstatus', hsent', -⟩ := prepareRequest_status block c'.hs
  have hlength := prepareRequest_length block c.hs
  have hlength' := prepareRequest_length block c'.hs
  have hidle : (routerWorld c streamId block).pending = [] := hs.pending
  unfold ResponsesAgree at hagree
  cases h with
  | nothing hnone hpending =>
      have hnone' : r'.fault = true ∨ r'.fd = -1 := by
        rw [← hsame.fault, ← hsame.noFd]
        exact hnone
      exact .unanswered hs hs' hnone hnone' (hpending.trans hidle)
  | module hok hfd houtcome hopen hev hnew hfreed hrequest hresponse =>
      obtain ⟨hok', hfd'⟩ := hsame.answered hok hfd
      obtain ⟨-, hleft⟩ := h'.answered hok' hfd'
      rw [hsame.outcome.symm.trans houtcome] at hleft
      obtain ⟨-, -, -, hrequest', _, hresponse'⟩ := hleft
      rw [houtcome] at hagree
      obtain ⟨hchain, hurl⟩ := hsame.chain hok hfd houtcome
      obtain ⟨_, hresponse⟩ := hresponse
      apply Related.answered hs hs' hok hfd hok' hfd'
      · intro _
        rw [hrequest, hrequest', hchain, hurl]
        exact request_eq_of_seen hseen _ _
      · -- no length yet: only the module event can make the response ready
        rw [hresponse, hresponse']
        exact hlength.trans hlength'.symm
      · rintro (hlen | ⟨-, hgo⟩)
        · rw [hresponse] at hlen
          exact absurd hlength hlen
        · refine ⟨?_, fun _ hlen => ?_⟩
          · rw [hresponse, hresponse']
            exact hsent.trans ((hagree hok hfd hgo).trans hsent'.symm)
          · rw [hresponse] at hlen
            exact absurd hlength hlen
  | file hok hfd size houtcome hopen hpending hresponse =>
      obtain ⟨hok', hfd'⟩ := hsame.answered hok hfd
      obtain ⟨-, hleft⟩ := h'.answered hok' hfd'
      rw [hsame.outcome.symm.trans houtcome] at hleft
      obtain ⟨-, hresponse'⟩ := hleft
      rw [houtcome] at hagree
      apply Related.immediate hs hs' hok hfd hsame (hpending.trans hidle)
      · rw [hresponse, hresponse']
      · -- a file leaves the status of the connection as it was
        intro hlen
        rw [hresponse] at hlen
        obtain ⟨hsame, hstatuses⟩ := hagree hok hfd hlen
        rw [hresponse, hresponse']
        refine ⟨hsent.trans (hsame.trans hsent'.symm), fun hunsent => ?_⟩
        exact hstatus.trans ((hstatuses (hsent.symm.trans hunsent)).trans hstatus'.symm)
  | notFound hok hfd n houtcome hopen hn hpending hresponse =>
      obtain ⟨hok', hfd'⟩ := hsame.answered hok hfd
      obtain ⟨-, hleft⟩ := h'.answered hok' hfd'
      rw [hsame.outcome.symm.trans houtcome] at hleft
      obtain ⟨-, -, hresponse'⟩ := hleft
      rw [houtcome] at hagree
      apply Related.immediate hs hs' hok hfd hsame (hpending.trans hidle)
      · rw [hresponse, hresponse']
      · -- `error_fd` sets the status itself
        intro _
        rw [hresponse, hresponse']
        exact ⟨hsent.trans ((hagree hok hfd).trans hsent'.symm), fun _ => rfl⟩

/-! ## Telling the connections apart -/

/-- The response on the stream can have its next tick. -/
structure CanTick (d : Conn) (streamId : ℤ) : Prop where
  wellFormed : WellFormed d
  alive : d.dead = false
  opened : d.closed = false
  writer : ∃ (n : ℕ) (fw : FutureWrite) (fd : Fd), d.writers[n]? = some fw ∧
    fw.streamId = streamId ∧ fw.scheduled = true ∧ d.world.fds[fw.fd]? = some fd
  fresh : responsesOn streamId d.world.log = []

/-- Isolated connections send the same with the next tick. -/
theorem sends_eq_of_isolated {routes : List (Route Code)} {streamId : ℤ}
    {block : List (Bytes × Bytes)} {io : RouterIO Code} {c c' d d' : Conn}
    (h : Isolated routes streamId block io c c') {es es' : List (ConnEvent Code)}
    (hes : List.Forall₂ SameTick es es')
    (hd : (connMachine routes).exec c (.headers streamId block io :: es) = some d)
    (hd' : (connMachine routes).exec c' (.headers streamId block io :: es') = some d')
    (hcan : CanTick d streamId) (hcan' : CanTick d' streamId)
    (hlen : d.hs.response.contentLenght ≠ SIZE_MAX)
    (hlen' : d'.hs.response.contentLenght ≠ SIZE_MAX) : sends d = sends d' := by
  -- the next tick shows what each connection sends
  have htick : ∀ {b : Conn}, CanTick b streamId → b.hs.response.contentLenght ≠ SIZE_MAX →
      ∃ n tick e, connStep routes b (.writeTick n tick) = some e ∧
        responsesOn streamId e.world.log = (sends b).toList := by
    rintro b ⟨hwf, halive, hopen, ⟨n, fw, fd, hfw, hstream, hscheduled, hfd⟩, hfresh⟩ hlen
    obtain ⟨tick, e, hstep, hlog⟩ :=
      exists_writeTick routes hwf halive hopen hfw hscheduled hfd hlen
    refine ⟨n, tick, e, hstep, ?_⟩
    rw [hlog, hfresh, if_pos hstream, List.nil_append]
  obtain ⟨n, tick, e, hstep, hlog⟩ := htick hcan hlen
  obtain ⟨n', tick', e', hstep', hlog'⟩ := htick hcan' hlen'
  have hlast : (connMachine routes).exec d [.writeTick n tick] = some e :=
    (connMachine routes).exec_cons_eq_some.mpr ⟨e, hstep, rfl⟩
  have hlast' : (connMachine routes).exec d' [.writeTick n' tick'] = some e' :=
    (connMachine routes).exec_cons_eq_some.mpr ⟨e', hstep', rfl⟩
  have hsame := h.2 (es ++ [.writeTick n tick]) (es' ++ [.writeTick n' tick']) e e'
    (List.rel_append hes (.cons (.write n n' tick tick') .nil))
    ((connMachine routes).exec_append hd hlast) ((connMachine routes).exec_append hd' hlast')
  rw [hlog, hlog'] at hsame
  cases hsends : sends d with
  | none =>
      cases hsends' : sends d' with
      | none => rfl
      | some fields => simp [hsends, hsends'] at hsame
  | some fields =>
      cases hsends' : sends d' with
      | none => simp [hsends, hsends'] at hsame
      | some fields' => simpa [hsends, hsends'] using hsame

/-- What is sent tells whether headers were sent before, and the status. -/
theorem agree_of_sends_eq {d d' : Conn} (hopen : d.closed = false) (hopen' : d'.closed = false)
    (hstatus : d.hs.response.httpStatus.isSome) (hstatus' : d'.hs.response.httpStatus.isSome)
    (hlen : d.hs.response.contentLenght ≠ SIZE_MAX)
    (hlen' : d'.hs.response.contentLenght ≠ SIZE_MAX) (h : sends d = sends d') :
    d.hs.response.headersSent = d'.hs.response.headersSent ∧
      (d.hs.response.headersSent = false →
        d.hs.response.httpStatus = d'.hs.response.httpStatus) := by
  obtain ⟨status, hstatus⟩ := Option.isSome_iff_exists.mp hstatus
  obtain ⟨status', hstatus'⟩ := Option.isSome_iff_exists.mp hstatus'
  cases hsent : d.hs.response.headersSent with
  | true =>
      cases hsent' : d'.hs.response.headersSent with
      | true => exact ⟨rfl, fun h => by cases h⟩
      | false => simp [sends, hsent, hsent', hopen', hlen', hstatus'] at h
  | false =>
      cases hsent' : d'.hs.response.headersSent with
      | true => simp [sends, hsent, hsent', hopen, hlen, hstatus] at h
      | false =>
          simp only [sends, hopen, hopen', hsent, hsent', hlen, hlen', hstatus, hstatus', ne_eq,
            not_false_eq_true, and_self, if_true, Option.map_some, Option.some.injEq,
            responseHeaders, List.cons.injEq, Prod.mk.injEq, true_and] at h
          exact ⟨rfl, fun _ => by rw [hstatus, hstatus', h.1]⟩

/-- The block on a settled connection. -/
theorem exec_headers (routes : List (Route Code)) {c : Conn} {streamId : ℤ}
    (hs : Settled c streamId) (block : List (Bytes × Bytes)) (io : RouterIO Code)
    (es : List (ConnEvent Code)) :
    (connMachine routes).exec c (.headers streamId block io :: es) =
      (connMachine routes).exec (onHeaders routes io c streamId block) es := by
  have hstep : (connMachine routes).step c (.headers streamId block io) =
      some (onHeaders routes io c streamId block) := by
    simp [connMachine, connStep, hs.alive, hs.opened]
  simp only [Machine.exec, hstep]

theorem fresh_headers (routes : List (Route Code)) {c : Conn} {streamId : ℤ}
    (hs : Settled c streamId) (block : List (Bytes × Bytes)) (io : RouterIO Code) :
    responsesOn streamId (onHeaders routes io c streamId block).world.log = [] := by
  obtain ⟨es, hes, hlog⟩ := (onHeaders_cases routes io c streamId block).silent
  rw [hlog, (silent_append hes _ _).1, hs.fresh]

/-- A response that has just begun. -/
structure Begun (streamId : ℤ) (r : RouterResult) (d : Conn) : Prop where
  can : (∃ fd, r.world.fds[r.fd.toNat]? = some fd) → CanTick d streamId
  hs : d.hs = r.hs
  pending : d.world.pending = r.world.pending
  freed : d.world.freed = r.world.freed

theorem begun_headers {routes : List (Route Code)} {c : Conn} {streamId : ℤ}
    {block : List (Bytes × Bytes)} {io : RouterIO Code} (hc : WellFormed c)
    (hs : Settled c streamId) (hok : (routed routes streamId block io c).fault = false)
    (hfd : (routed routes streamId block io c).fd ≠ -1) :
    Begun streamId (routed routes streamId block io c) (onHeaders routes io c streamId block) := by
  have hwf := hc.headers (onHeaders_cases routes io c streamId block)
  have hfresh := fresh_headers routes hs block io
  have hrouted : onHeaders routes io c streamId block =
      onRouted c streamId (routed routes streamId block io c) := rfl
  rw [hrouted] at hwf hfresh ⊢
  generalize routed routes streamId block io c = r at *
  obtain ⟨hwriters, hhs, hclosed, hdead, hworld⟩ :=
    onRouted_answered c streamId hok hfd
  refine ⟨fun ⟨fd, hopen⟩ => ⟨hwf, hdead.trans hs.alive, hclosed.trans hs.opened,
    ⟨c.writers.length, newWriter streamId r.fd.toNat, fd, ?_, rfl, rfl, ?_⟩, hfresh⟩, hhs, ?_, ?_⟩
  · rw [hwriters]
    exact List.getElem?_concat_length ..
  · rw [hworld]
    exact hopen
  · rw [hworld]
    rfl
  · rw [hworld]
    rfl

/-- A module that answers. -/
theorem canTick_module (routes : List (Route Code)) {c : Conn} {streamId : ℤ} {ev : ℕ}
    (h : CanTick c streamId) (hev : ev ∈ c.world.pending) (hgo : GoFirst c.hs)
    (hset : c.hs.moduleCbEv = some ev) (hgiven : ev ∉ c.world.freed) :
    connStep routes c (.moduleTick ev answersOne) = some (moduleTick c ev answersOne) ∧
      CanTick (moduleTick c ev answersOne) streamId ∧
      (moduleTick c ev answersOne).hs.response.contentLenght = 1 ∧
      (moduleTick c ev answersOne).hs.response.headersSent = c.hs.response.headersSent := by
  have hstep : connStep routes c (.moduleTick ev answersOne) =
      some (moduleTick c ev answersOne) := by
    simp [connStep, h.alive, hev]
  obtain ⟨hok, status, hanswer⟩ := moduleCb_answersOne (w := c.world.delEvent ev) hgo hset hgiven
  have hticked := moduleTick_spec c ev answersOne
  obtain ⟨n, fw, fd, hfw, hstream, hscheduled, hfd⟩ := h.writer
  obtain ⟨es, hes, hlog⟩ := moduleTick_silent c ev answersOne
  obtain ⟨_, _, _, _, hhs⟩ := hticked.stream
  refine ⟨hstep, ⟨h.wellFormed.step hstep, ?_, h.opened, ?_, ?_⟩,
    (hticked.written status 1 hanswer).2, ?_⟩
  · show (c.dead || (moduleCb answersOne c.hs (c.world.delEvent ev)).fault) = false
    rw [h.alive, hok]
    rfl
  · obtain ⟨b, k, hget, -⟩ := hticked.fds fw.fd fd hfd
    exact ⟨n, fw, _, hfw, hstream, hscheduled, hget⟩
  · rw [hlog, (silent_append hes _ _).1, h.fresh]
  · rw [hhs]

theorem toSizeT_errorHtml {n : ℕ} (h : n ≤ ERROR_HTML.length) : toSizeT n ≠ SIZE_MAX := by
  have hlength : ERROR_HTML.length = 79 := by decide
  simp only [toSizeT, SIZE_MAX]
  omega

/-- Isolated connections agree on the response. -/
theorem responsesAgree_of_isolated {routes : List (Route Code)} {streamId : ℤ}
    {block : List (Bytes × Bytes)} {io : RouterIO Code} {c c' : Conn} (hc : WellFormed c)
    (hc' : WellFormed c') (hs : Settled c streamId) (hs' : Settled c' streamId)
    (hsame : SameDecision (routed routes streamId block io c) (routed routes streamId block io c'))
    (h : Isolated routes streamId block io c c') :
    ResponsesAgree (routed routes streamId block io c) c.hs.response c'.hs.response := by
  intro hok hfd
  obtain ⟨hok', hfd'⟩ := hsame.answered hok hfd
  have hdec : Decided _ _ (routed routes streamId block io c) :=
    decided_of_cases (rootRouter_cases _ routes io _ _)
  have hdec' : Decided _ _ (routed routes streamId block io c') :=
    decided_of_cases (rootRouter_cases _ routes io _ _)
  obtain ⟨hopen, hleft⟩ := hdec.answered hok hfd
  obtain ⟨hopen', hleft'⟩ := hdec'.answered hok' hfd'
  clear hdec hdec'
  have hd := begun_headers hc hs hok hfd
  have hd' := begun_headers hc' hs' hok' hfd'
  have hexec := exec_headers routes hs block io
  have hexec' := exec_headers routes hs' block io
  obtain ⟨hstatus, hsent, -⟩ := prepareRequest_status block c.hs
  obtain ⟨hstatus', hsent', -⟩ := prepareRequest_status block c'.hs
  generalize routed routes streamId block io c = r at *
  generalize routed routes streamId block io c' = r' at *
  generalize onHeaders routes io c streamId block = d at *
  generalize onHeaders routes io c' streamId block = d' at *
  -- the tick right behind the block
  have hnow : CanTick d streamId → CanTick d' streamId →
      r.hs.response.contentLenght ≠ SIZE_MAX → r'.hs.response.contentLenght ≠ SIZE_MAX →
      r.hs.response.headersSent = r'.hs.response.headersSent ∧
        (r.hs.response.headersSent = false →
          r.hs.response.httpStatus = r'.hs.response.httpStatus) := by
    intro hcan hcan' hlen hlen'
    rw [← hd.hs, ← hd'.hs]
    rw [← hd.hs] at hlen
    rw [← hd'.hs] at hlen'
    apply agree_of_sends_eq hcan.opened hcan'.opened hcan.wellFormed.status
      hcan'.wellFormed.status hlen hlen'
    exact sends_eq_of_isolated h .nil (hexec []) (hexec' []) hcan hcan' hlen hlen'
  cases houtcome : r.outcome with
  | file size =>
      rw [houtcome] at hleft
      rw [hsame.outcome.symm.trans houtcome] at hleft'
      obtain ⟨-, hresponse⟩ := hleft
      obtain ⟨-, hresponse'⟩ := hleft'
      intro hlen
      have hagree := hnow (hd.can hopen) (hd'.can hopen')
      rw [hresponse, hresponse'] at hagree
      obtain ⟨hsents, hstatuses⟩ := hagree hlen hlen
      refine ⟨hsent.symm.trans (hsents.trans hsent'), fun hunsent => ?_⟩
      exact hstatus.symm.trans ((hstatuses (hsent.trans hunsent)).trans hstatus')
  | notFound n =>
      rw [houtcome] at hleft
      rw [hsame.outcome.symm.trans houtcome] at hleft'
      obtain ⟨hn, -, hresponse⟩ := hleft
      obtain ⟨-, -, hresponse'⟩ := hleft'
      have hagree := hnow (hd.can hopen) (hd'.can hopen')
      rw [hresponse, hresponse'] at hagree
      obtain ⟨hsents, -⟩ := hagree (toSizeT_errorHtml hn) (toSizeT_errorHtml hn)
      exact hsent.symm.trans (hsents.trans hsent')
  | module =>
      rw [houtcome] at hleft
      rw [hsame.outcome.symm.trans houtcome] at hleft'
      obtain ⟨hev, hnew, hfreed, -, _, hresponse⟩ := hleft
      obtain ⟨hev', hnew', hfreed', -, _, hresponse'⟩ := hleft'
      intro hgo
      have hgo' : GoFirst r'.hs := by
        unfold GoFirst
        rw [← (hsame.chain hok hfd houtcome).1]
        exact hgo
      have hungiven : (routerWorld c streamId block).nextEv ∉ d.world.freed := by
        rw [hd.freed, hfreed]
        exact fun hgiven => Nat.lt_irrefl _ (hc.freed _ hgiven)
      have hungiven' : (routerWorld c' streamId block).nextEv ∉ d'.world.freed := by
        rw [hd'.freed, hfreed']
        exact fun hgiven => Nat.lt_irrefl _ (hc'.freed _ hgiven)
      -- one run of the module on either side, then the tick
      obtain ⟨hstep, hcan, hlen, hkeep⟩ := canTick_module routes (hd.can hopen)
        (hd.pending ▸ hnew) (hd.hs ▸ hgo) (hd.hs ▸ hev) hungiven
      obtain ⟨hstep', hcan', hlen', hkeep'⟩ := canTick_module routes
        (hd'.can hopen') (hd'.pending ▸ hnew') (hd'.hs ▸ hgo') (hd'.hs ▸ hev') hungiven'
      have hone : (1 : ℕ) ≠ SIZE_MAX := by decide
      have hsends := sends_eq_of_isolated h (.cons (.module _ _ answersOne) .nil)
        ((hexec _).trans ((connMachine routes).exec_cons_eq_some.mpr ⟨_, hstep, rfl⟩))
        ((hexec' _).trans ((connMachine routes).exec_cons_eq_some.mpr ⟨_, hstep', rfl⟩))
        hcan hcan' (hlen ▸ hone) (hlen' ▸ hone)
      obtain ⟨hsents, -⟩ := agree_of_sends_eq hcan.opened hcan'.opened hcan.wellFormed.status
        hcan'.wellFormed.status (hlen ▸ hone) (hlen' ▸ hone) hsends
      rw [hkeep, hkeep', hd.hs, hd'.hs, hresponse, hresponse'] at hsents
      exact hsent.symm.trans (hsents.trans hsent')

/-! ## The condition -/

/-- What the connections did before does not matter for the block. -/
structure Agrees (routes : List (Route Code)) (streamId : ℤ) (block : List (Bytes × Bytes))
    (io : RouterIO Code) (c c' : Conn) : Prop where
  request : RequestsAgree block c.hs.request c'.hs.request
  response : ResponsesAgree (routed routes streamId block io c) c.hs.response c'.hs.response

/-- Two settled connections are isolated on a block exactly if they agree where the block leaves
the request alone, and on whether, and with which status, they can still send headers. -/
theorem isolated_iff (routes : List (Route Code)) (sock sock' : ℤ) (cid cid' : Bytes)
    {es es' : List (ConnEvent Code)} {c c' : Conn}
    (hexec : (connMachine routes).exec (Conn.create sock cid) es = some c)
    (hexec' : (connMachine routes).exec (Conn.create sock' cid') es' = some c') {streamId : ℤ}
    (hs : Settled c streamId) (hs' : Settled c' streamId) (block : List (Bytes × Bytes))
    (io : RouterIO Code) :
    Isolated routes streamId block io c c' ↔ Agrees routes streamId block io c c' := by
  have hc : WellFormed c := .run hexec
  have hc' : WellFormed c' := .run hexec'
  have hseen := seen_eq_iff hc.keys hc'.keys block
  -- the router decides by the `url`, which is part of what is seen
  have hdecision : seen (prepareRequest block c.hs).request =
        seen (prepareRequest block c'.hs).request →
      SameDecision (routed routes streamId block io c) (routed routes streamId block io c') := by
    intro heq
    have hloop : (prepareRequest block c.hs).evbase = (prepareRequest block c'.hs).evbase := by
      rw [(prepareRequest_status block c.hs).2.2.2, (prepareRequest_status block c'.hs).2.2.2,
        hc.evbase, hc'.evbase]
    unfold routed
    rw [hloop]
    apply rootRouter_congr
    exact congrArg Seen.url heq
  constructor
  · intro hisolated
    have hsame := hdecision hisolated.1
    exact ⟨hseen.mp hisolated.1, responsesAgree_of_isolated hc hc' hs hs' hsame hisolated⟩
  · rintro ⟨hrequest, hresponse⟩
    have heq := hseen.mpr hrequest
    refine ⟨heq, fun ticks ticks' d d' hticks hd hd' => ?_⟩
    rw [exec_headers routes hs] at hd
    rw [exec_headers routes hs'] at hd'
    have hstart : Alike streamId (onHeaders routes io c streamId block)
        (onHeaders routes io c' streamId block) := by
      refine ⟨hc.headers (onHeaders_cases routes io c streamId block),
        hc'.headers (onHeaders_cases routes io c' streamId block), ?_, fun _ _ => ?_⟩
      · rw [fresh_headers routes hs, fresh_headers routes hs']
      · exact Related.start hs hs' (decided_of_cases (rootRouter_cases _ routes io _ _))
          (decided_of_cases (rootRouter_cases _ routes io _ _)) (hdecision heq) heq hresponse
    exact (hstart.run hticks hd hd').sent

/-- A request on stream 0 for a file, sent in one tick. -/
def answered (path : String) (fields : List (Bytes × Bytes)) : List (ConnEvent Unit) :=
  [.headers 0 ((ascii ":path", ascii path) :: fields) (servesFile (ascii "abc")),
    .writeTick 0 ⟨[⟨3, 3⟩], ⟨[], true, 0⟩⟩]

/-- A block that names every pseudo-header, and the field `x`. -/
def fullBlock : List (Bytes × Bytes) :=
  [(ascii ":method", ascii "GET"), (ascii ":scheme", ascii "https"),
    (ascii ":authority", ascii "h"), (ascii ":path", ascii "/b"), (ascii "x", ascii "3")]

/-- A block that sets what the earlier requests set. -/
theorem isolated_fullBlock : ∃ c c',
    (connMachine []).exec (Conn.create 5 [1]) (answered "/a" [(ascii "x", ascii "1")]) = some c ∧
    (connMachine []).exec (Conn.create 5 [1]) (answered "/c" [(ascii "x", ascii "2")]) = some c' ∧
    Isolated ([] : List (Route Unit)) 4 fullBlock (servesFile (ascii "hello")) c c' := by
  have hexec : (connMachine []).exec (Conn.create 5 [1])
    (answered "/a" [(ascii "x", ascii "1")]) = some _ := rfl
  have hexec' : (connMachine []).exec (Conn.create 5 [1])
    (answered "/c" [(ascii "x", ascii "2")]) = some _ := rfl
  refine ⟨_, _, hexec, hexec', (isolated_iff [] 5 5 [1] [1] hexec hexec'
    ⟨rfl, rfl, by decide, rfl, rfl⟩ ⟨rfl, rfl, by decide, rfl, rfl⟩ _ _).mpr ⟨⟨?_, ?_, ?_, ?_, ?_⟩, ?_⟩⟩
  · exact Or.inl (by decide)
  · exact Or.inl (by decide)
  · exact Or.inl (by decide)
  · exact Or.inl (by decide)
  · exact ⟨rfl, rfl⟩
  · exact fun _ _ _ => ⟨rfl, fun h => by cases h⟩

/-- A field of an earlier request is in the table of the next one. -/
theorem not_isolated_field : ∃ c c',
    (connMachine []).exec (Conn.create 5 [1]) (answered "/a" [(ascii "x", ascii "1")]) = some c ∧
    (connMachine []).exec (Conn.create 5 [1]) (answered "/a" []) = some c' ∧
    Settled c 4 ∧ Settled c' 4 ∧
    ¬ Isolated ([] : List (Route Unit)) 4 [(ascii ":path", ascii "/b")]
      (servesFile (ascii "hello")) c c' := by
  have hexec : (connMachine []).exec (Conn.create 5 [1])
    (answered "/a" [(ascii "x", ascii "1")]) = some _ := rfl
  have hexec' : (connMachine []).exec (Conn.create 5 [1]) (answered "/a" []) = some _ := rfl
  refine ⟨_, _, hexec, hexec', ⟨rfl, rfl, by decide, rfl, rfl⟩, ⟨rfl, rfl, by decide, rfl, rfl⟩,
    fun h => ?_⟩
  have hheaders := congrArg (fun s => s.headers.length) h.1
  have hlengths : (1 : ℕ) = 0 := hheaders
  cases hlengths

end Gfhttpd.Security
