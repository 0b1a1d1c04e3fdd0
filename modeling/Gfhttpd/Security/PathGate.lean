import Gfhttpd.Http2.Frame
import Gfhttpd.Http3.Spec

/-!
# The path check before the router

A call of `root_router` is `Gated` when the request has a `:path`, and its `url` is there and
passes `check_path`; what the router looks up and opens is gated when it comes from such a `url`.

- HTTP/2 returns before `root_router` for any other request, so every run of a session is gated
  (`session_gated`).
- HTTP/3 only logs the result of the header callback and calls `root_router` all the same, with
  the `url` of the request or one left over.  A run of a connection is gated exactly if every
  header block has a `:path` and no `:path` that `check_path` rejects (`connection_gated_iff`).
-/

namespace Gfhttpd.Security

open Http Conf Router Transition

variable {Code : Type}

/-! ## The gate -/

/-- The call is one for a request whose path was checked. -/
def Gated : Effect → Prop
  | .rootRouter _ fields url =>
      (∃ u, url = some u ∧ checkPath u = true) ∧ ∃ v, (ascii ":path", v) ∈ fields
  | .getRoute path => checkPath path = true
  | .matchRoute subject => checkPath subject = true
  | .openFile path => ∃ u, checkPath u = true ∧ path = u.dropWhile (· == 47)
  | _ => True

/-- What the router does for a gated `url` is gated. -/
theorem gated_of_isRouting {url : Option Bytes} {e : Effect} (h : IsRouting url e)
    (hurl : ∃ u, url = some u ∧ checkPath u = true) : Gated e := by
  obtain ⟨u, rfl, hcheck⟩ := hurl
  cases e with
  | getRoute path =>
      obtain rfl := Option.some.inj h
      exact hcheck
  | matchRoute subject =>
      obtain rfl := Option.some.inj h
      exact hcheck
  | openFile path => exact ⟨u, hcheck, (Option.some.inj h).symm⟩
  | close fd => trivial
  | rootRouter stream fields url => exact h.elim
  | routed stream fd outcome => trivial
  | answered stream status length => trivial
  | sendResponse stream headers => trivial
  | sendBody writer stream fd body written fin => trivial
  | submitResponse stream => trivial

/-! ## HTTP/2 -/

namespace Http2

open Gfhttpd.Http2

/-- An object with a `url` was given a `:path`, and the calls so far are gated. -/
structure SessionGated (s : Session) : Prop where
  path : ∀ p hs, s.get p = some hs → hs.request.url.isSome = true →
    ∃ v, (ascii ":path", v) ∈ s.fieldsOf p
  log : ∀ e ∈ s.world.log, Gated e

theorem SessionGated.of_keeps {s s' : Session} (hs : SessionGated s) (h : Keeps s s') :
    SessionGated s' := by
  refine ⟨fun p hs' hget hurl => ?_, fun e he => ?_⟩
  · obtain ⟨hs0, hget0, hreq, -⟩ := h.objs p hs' hget
    rw [hreq] at hurl
    simpa [Session.fieldsOf, h.fields] using hs.path p hs0 hget0 hurl
  · rcases h.log e he with he | ⟨fd, rfl⟩
    · exact hs.log e he
    · trivial

/-- A new object has no `url`. -/
theorem SessionGated.onBeginHeadersCallback {s : Session} (hs : SessionGated s) (frame : Frame) :
    SessionGated (onBeginHeadersCallback s frame) := by
  unfold Gfhttpd.Http2.onBeginHeadersCallback
  split
  · exact hs
  · refine ⟨fun p obj hget hurl => ?_, hs.log⟩
    rcases get_createHttpStream (show (createHttpStream s frame.streamId).2.get p = some obj from
      hget) with hold | rfl
    · exact hs.path p obj hold hurl
    · cases hurl

/-- Only a `:path` sets a `url`. -/
theorem path_of_setPseudoHeader {r : HttpRequest} {name value : Bytes}
    (hnone : ¬ r.url.isSome = true)
    (h : (setPseudoHeader r name value).url.isSome = true) : name = ascii ":path" := by
  unfold setPseudoHeader at h
  by_cases hname : name = ascii ":path"
  · exact hname
  · simp only [hname, if_false] at h
    refine absurd ?_ hnone
    split at h
    · exact h
    · split at h
      · exact h
      · split at h
        · exact h
        · exact h

/-- A header sets the `url` of its stream's object only as the `:path` it was given. -/
theorem SessionGated.onHeaderCallback {s : Session} (hs : SessionGated s) (frame : Frame)
    (name value : Bytes) : SessionGated (onHeaderCallback s frame name value) := by
  unfold Gfhttpd.Http2.onHeaderCallback
  split
  · exact hs
  · split
    · exact hs
    · next p _ =>
        split
        · exact hs.of_keeps (keeps_crash s)
        · next obj hget =>
            -- every object keeps the fields it was given
            have hmono : ∀ q v, v ∈ s.fieldsOf q →
                v ∈ ({ s with fields := s.fields ++ [(p, name, value)] } : Session).fieldsOf q := by
              intro q v hv
              simp only [Session.fieldsOf, List.filter_append, List.map_append, List.mem_append]
              exact Or.inl hv
            have hlogged : SessionGated { s with fields := s.fields ++ [(p, name, value)] } :=
              ⟨fun q hq hgetq hurl =>
                (hs.path q hq hgetq hurl).imp fun v hv => hmono q _ hv, hs.log⟩
            simp only
            split
            · exact hlogged
            · next hnone =>
                refine ⟨fun q hq hgetq hurl => ?_, hs.log⟩
                by_cases hpq : p = q
                · subst hpq
                  have hget' : ({ s with fields := s.fields ++ [(p, name, value)] } :
                      Session).get p = some obj := hget
                  rw [Session.get_put_self hget'] at hgetq
                  rw [← Option.some.inj hgetq] at hurl
                  refine ⟨value, ?_⟩
                  rw [← path_of_setPseudoHeader hnone hurl]
                  simp [Session.fieldsOf, Session.put]
                · rw [Session.get_put_of_ne hpq] at hgetq
                  exact hlogged.path q hq hgetq hurl

/-- `root_router` is called for an object with a checked `url` only. -/
theorem SessionGated.onRequestRecv {s : Session} (hs : SessionGated s) (io : RequestIO Code)
    (p : ℕ) : SessionGated (onRequestRecv io s p) := by
  unfold Gfhttpd.Http2.onRequestRecv
  split
  · exact hs.of_keeps (keeps_crash s)
  · next obj hget =>
      split
      · exact hs
      · next url hurl =>
          split
          · exact hs
          · next hcheck =>
              have hchecked : ∃ u, obj.request.url = some u ∧ checkPath u = true :=
                ⟨url, hurl, by simpa using hcheck⟩
              have hpath := hs.path p obj hget (by rw [hurl]; rfl)
              obtain ⟨hkeep, es, hes, hlog⟩ := rootRouter_frame obj.evbase [] io.router obj
                (s.world.emit (.rootRouter obj.streamId (s.fieldsOf p) obj.request.url))
              simp only
              generalize rootRouter obj.evbase [] io.router obj _ = r at hkeep hlog ⊢
              have hlogged : ∀ e ∈ r.world.log, Gated e := by
                intro e he
                rw [hlog] at he
                simp only [World.log_emit, List.mem_append, List.mem_singleton] at he
                rcases he with (he | rfl) | he
                · exact hs.log e he
                · exact ⟨hchecked, hpath⟩
                · exact gated_of_isRouting (hes e he) hchecked
              -- whatever else is stored, the `url` stays the one that was checked
              have hput : ∀ (hs' : HttpStream), hs'.request.url = obj.request.url →
                  SessionGated (({ s with world := r.world } : Session).put p hs') := by
                intro hs' hurl'
                refine ⟨fun q hq hgetq hurlq => ?_, hlogged⟩
                by_cases hpq : p = q
                · exact hpq ▸ hpath
                · rw [Session.get_put_of_ne hpq] at hgetq
                  exact hs.path q hq hgetq hurlq
              split
              · exact ⟨hs.path, hlogged⟩
              · split
                · exact hput _ hkeep
                · have hstored := hput { r.hs with sock := r.fd } hkeep
                  split
                  · refine ⟨hstored.path, fun e he => ?_⟩
                    simp only [World.log_emit, List.mem_append, List.mem_singleton] at he
                    rcases he with he | rfl
                    · exact hstored.log e he
                    · trivial
                  · refine ⟨hstored.path, fun e he => ?_⟩
                    simp only [World.closeFd, World.log_emit, List.mem_append,
                      List.mem_singleton] at he
                    rcases he with he | rfl
                    · exact hstored.log e he
                    · trivial

/-- Every callback keeps a session gated. -/
theorem SessionGated.step {s s' : Session} {e : SessionEvent Code} (hs : SessionGated s)
    (h : sessionStep s e = some s') : SessionGated s' := by
  simp only [sessionStep, Option.ite_none_left_eq_some] at h
  obtain ⟨-, h⟩ := h
  cases e with
  | beginHeaders frame =>
      obtain rfl := Option.some.inj h
      exact hs.onBeginHeadersCallback frame
  | header frame name value =>
      obtain rfl := Option.some.inj h
      exact hs.onHeaderCallback frame name value
  | frameRecv frame io =>
      obtain rfl := Option.some.inj h
      unfold onFrameRecvCallback
      split
      · exact hs
      · split
        · exact hs
        · exact hs.onRequestRecv io _
  | streamClose streamId =>
      obtain rfl := Option.some.inj h
      exact hs.of_keeps (keeps_onStreamCloseCallback s streamId)
  | teardown =>
      obtain rfl := Option.some.inj h
      exact hs.of_keeps (keeps_deleteHttp2SessionData s)

theorem SessionGated.init : SessionGated Session.init := by
  refine ⟨fun p hs hget hurl => ?_, by simp [Session.init, World.init]⟩
  obtain rfl := Session.eq_zero_of_get_init hget
  cases hurl

/-- Every run of an HTTP/2 session is gated. -/
theorem session_gated {es : List (SessionEvent Code)} {s : Session}
    (h : sessionMachine.exec Session.init es = some s) : ∀ e ∈ s.world.log, Gated e :=
  (sessionMachine.exec_invariant (I := SessionGated) (fun _ _ _ hs hstep => hs.step hstep)
    SessionGated.init h).log

end Http2

/-! ## HTTP/3 -/

namespace Http3

open Gfhttpd.Http3

/-- The block has a `:path`, and `check_path` rejects none of its `:path` values. -/
def PathsAccepted (block : List (Bytes × Bytes)) : Prop :=
  (∃ v, (ascii ":path", v) ∈ block) ∧
    ∀ v, (ascii ":path", v) ∈ block → checkPath (strndup v v.length) = true

/-- The condition on an event: a header block has accepted paths. -/
def AcceptedPaths : ConnEvent Code → Prop
  | .headers _ block _ => PathsAccepted block
  | _ => True

/-- Any other field leaves the `url` alone, and the loop goes on. -/
theorem forEachHeader_other (hs : HttpStream) {name : Bytes} (v : Bytes)
    (hname : name ≠ ascii ":path") :
    (forEachHeader hs name v).1 = 0 ∧
      (forEachHeader hs name v).2.request.url = hs.request.url := by
  unfold forEachHeader
  split
  · next hhead =>
      have htail : name.tail ≠ ascii "path" := by
        intro htail
        refine hname ?_
        cases name with
        | nil => cases hhead
        | cons c cs =>
            obtain rfl := Option.some.inj hhead
            simp only [List.tail_cons] at htail
            rw [htail]
            decide
      simp only [if_neg htail]
      split
      · exact ⟨rfl, rfl⟩
      · split
        · exact ⟨rfl, rfl⟩
        · split
          · exact ⟨rfl, rfl⟩
          · exact ⟨rfl, rfl⟩
  · exact ⟨rfl, rfl⟩

/-- Accepted paths leave an accepted `url`. -/
theorem forEachHeaderLoop_accepted {block : List (Bytes × Bytes)} {hs : HttpStream}
    (hall : ∀ v, (ascii ":path", v) ∈ block → checkPath (strndup v v.length) = true)
    (hsome : (∃ u, hs.request.url = some u ∧ checkPath u = true) ∨
      ∃ v, (ascii ":path", v) ∈ block) :
    ∃ u, (forEachHeaderLoop block hs).2.request.url = some u ∧ checkPath u = true := by
  induction block generalizing hs with
  | nil =>
      rcases hsome with hsome | ⟨v, hv⟩
      · exact hsome
      · cases hv
  | cons f fs ih =>
      obtain ⟨name, v⟩ := f
      have hrest : ∀ v', (ascii ":path", v') ∈ fs → checkPath (strndup v' v'.length) = true :=
        fun v' hv' => hall v' (List.mem_cons_of_mem _ hv')
      by_cases hname : name = ascii ":path"
      · subst hname
        have hv := hall v (List.mem_cons_self ..)
        simp only [forEachHeaderLoop, forEachHeader_path, hv, if_true, ne_eq, not_true_eq_false,
          if_false]
        exact ih hrest (Or.inl ⟨_, rfl, hv⟩)
      · obtain ⟨hrc, hurl⟩ := forEachHeader_other hs v hname
        simp only [forEachHeaderLoop, hrc, ne_eq, not_true_eq_false, if_false]
        refine ih hrest ?_
        rcases hsome with hsome | ⟨v', hv'⟩
        · exact Or.inl (by rwa [hurl])
        · rcases List.mem_cons.mp hv' with heq | hv'
          · exact absurd (congrArg Prod.fst heq).symm hname
          · exact Or.inr ⟨v', hv'⟩

/-- The first rejected path is the `url` that is left. -/
theorem forEachHeaderLoop_rejected {block : List (Bytes × Bytes)} {v : Bytes} (hs : HttpStream)
    (hmem : (ascii ":path", v) ∈ block) (hv : checkPath (strndup v v.length) = false) :
    ∃ u, (forEachHeaderLoop block hs).2.request.url = some u ∧ checkPath u = false := by
  induction block generalizing hs with
  | nil => cases hmem
  | cons f fs ih =>
      obtain ⟨name, v'⟩ := f
      by_cases hname : name = ascii ":path"
      · subst hname
        cases hv' : checkPath (strndup v' v'.length) with
        | false =>
            -- the loop stops here, and leaves the `url` it stored
            simp only [forEachHeaderLoop, forEachHeader_path, hv', Bool.false_eq_true, if_false,
              ne_eq, Int.reduceEq, not_false_eq_true, if_true]
            exact ⟨_, rfl, hv'⟩
        | true =>
            simp only [forEachHeaderLoop, forEachHeader_path, hv', if_true, ne_eq,
              not_true_eq_false, if_false]
            refine ih _ ?_
            rcases List.mem_cons.mp hmem with heq | hmem
            · rw [(Prod.mk.injEq ..).mp heq |>.2, hv'] at hv
              cases hv
            · exact hmem
      · obtain ⟨hrc, -⟩ := forEachHeader_other hs v' hname
        simp only [forEachHeaderLoop, hrc, ne_eq, not_true_eq_false, if_false]
        refine ih _ ?_
        rcases List.mem_cons.mp hmem with heq | hmem
        · exact absurd (congrArg Prod.fst heq).symm hname
        · exact hmem

/-- The call for a block is gated exactly if its paths are accepted. -/
theorem gated_rootRouter_iff (streamId : ℤ) (block : List (Bytes × Bytes)) (hs : HttpStream) :
    Gated (.rootRouter streamId block (prepareRequest block hs).request.url) ↔
      PathsAccepted block := by
  constructor
  · rintro ⟨⟨u, hurl, hcheck⟩, hsome⟩
    refine ⟨hsome, fun v hv => ?_⟩
    by_contra hreject
    obtain ⟨u', hurl', hcheck'⟩ := forEachHeaderLoop_rejected hs hv (by simpa using hreject)
    have heq : some u = some u' := hurl.symm.trans hurl'
    rw [Option.some.inj heq, hcheck'] at hcheck
    cases hcheck
  · rintro ⟨hsome, hall⟩
    exact ⟨forEachHeaderLoop_accepted hall (Or.inr hsome), hsome⟩

/-- A step that logs gated effects only keeps the log gated. -/
theorem forall_gated_append {log es : List Effect} (h : ∀ e ∈ es, Gated e) :
    (∀ e ∈ log ++ es, Gated e) ↔ ∀ e ∈ log, Gated e := by
  constructor
  · exact fun hall e he => hall e (List.mem_append_left _ he)
  · intro hlog e he
    rcases List.mem_append.mp he with he | he
    · exact hlog e he
    · exact h e he

/-- A header block keeps the log gated exactly if its paths are accepted. -/
theorem onHeaders_gated_iff (routes : List (Route Code)) (io : RouterIO Code) (c : Conn)
    (streamId : ℤ) (block : List (Bytes × Bytes)) :
    (∀ e ∈ (onHeaders routes io c streamId block).world.log, Gated e) ↔
      (∀ e ∈ c.world.log, Gated e) ∧ PathsAccepted block := by
  obtain ⟨es, last, hes, hlast, hlog⟩ := (onHeaders_cases routes io c streamId block).log
  have hlast' : ∀ e ∈ last, Gated e := by
    intro e he
    rcases hlast with rfl | ⟨fd, outcome, rfl⟩
    · cases he
    · obtain rfl := List.mem_singleton.mp he
      trivial
  rw [hlog, forall_gated_append hlast', routerWorld, World.log_emit, List.append_assoc]
  constructor
  · intro hall
    have hcall := hall _ (List.mem_append_right _ (List.mem_append_left _ (List.mem_singleton.mpr rfl)))
    exact ⟨fun e he => hall e (List.mem_append_left _ he),
      (gated_rootRouter_iff streamId block c.hs).mp hcall⟩
  · rintro ⟨hall, hpaths⟩
    have hcall := (gated_rootRouter_iff streamId block c.hs).mpr hpaths
    rw [forall_gated_append]
    · exact hall
    · intro e he
      rcases List.mem_append.mp he with he | he
      · obtain rfl := List.mem_singleton.mp he
        exact hcall
      · exact gated_of_isRouting (hes e he) hcall.1

/-- One event keeps the log gated exactly if its paths are accepted. -/
theorem connStep_gated_iff {routes : List (Route Code)} {c c' : Conn} {e : ConnEvent Code}
    (h : connStep routes c e = some c') :
    (∀ e ∈ c'.world.log, Gated e) ↔ (∀ e ∈ c.world.log, Gated e) ∧ AcceptedPaths e := by
  cases e with
  | headers streamId block io =>
      simp only [connStep, Option.ite_none_left_eq_some, Option.some.injEq] at h
      rw [← h.2]
      exact onHeaders_gated_iff routes io c streamId block
  | writeTick i io =>
      obtain ⟨-, fw, -, -, hcases⟩ := connStep_writeTick h
      obtain ⟨es, hes, hlog⟩ := hcases.log
      rw [hlog, forall_gated_append]
      · simp [AcceptedPaths]
      · intro e he
        have hwriting := hes e he
        cases e <;> trivial
  | moduleTick ev io =>
      obtain ⟨-, -, rfl⟩ := connStep_moduleTick h
      obtain ⟨es, hes, hlog⟩ := moduleTick_log c ev io
      rw [hlog, forall_gated_append]
      · simp [AcceptedPaths]
      · intro e he
        have hmodule := hes e he
        cases e <;> trivial
  | close =>
      obtain rfl := connStep_close h
      simp [AcceptedPaths]

/-- A run of a connection is gated exactly if all its header blocks have accepted paths. -/
theorem connection_gated_iff (routes : List (Route Code)) (sock : ℤ) (cid : Bytes)
    {es : List (ConnEvent Code)} {c : Conn}
    (h : (connMachine routes).exec (Conn.create sock cid) es = some c) :
    (∀ e ∈ c.world.log, Gated e) ↔
      (connMachine routes).Meets (fun _ e => AcceptedPaths e) (Conn.create sock cid) es := by
  have hiff := (connMachine routes).exec_iff_meets (I := fun _ => True)
    (P := fun c => ∀ e ∈ c.world.log, Gated e) (C := fun _ e => AcceptedPaths e)
    (fun _ _ _ _ _ => trivial) (fun _ _ _ _ hstep => connStep_gated_iff hstep) trivial h
  rw [hiff]
  simp [Conn.create, World.newEvent, World.init]

end Http3

/-! ## Both front-ends -/

open Gfhttpd.Http2 Gfhttpd.Http3

/-- Every run of an HTTP/2 session is gated; a run of an HTTP/3 connection is gated exactly if
all its header blocks have accepted paths. -/
theorem router_gated (routes : List (Route Code)) (sock : ℤ) (cid : Bytes) :
    (∀ (es : List (SessionEvent Code)) (s : Session),
      sessionMachine.exec Session.init es = some s → ∀ e ∈ s.world.log, Gated e) ∧
    (∀ (es : List (ConnEvent Code)) (c : Conn),
      (connMachine routes).exec (Conn.create sock cid) es = some c →
        ((∀ e ∈ c.world.log, Gated e) ↔
          (connMachine routes).Meets (fun _ e => Http3.AcceptedPaths e) (Conn.create sock cid)
            es)) :=
  ⟨fun _ _ h => Http2.session_gated h, fun _ _ h => Http3.connection_gated_iff routes sock cid h⟩

/-- A block that asks for `/index.html`. -/
def indexBlock : List (Bytes × Bytes) :=
  [(ascii ":method", ascii "GET"), (ascii ":path", ascii "/index.html")]

/-- A block that asks for `/../etc/passwd`. -/
def passwdBlock : List (Bytes × Bytes) :=
  [(ascii ":method", ascii "GET"), (ascii ":path", ascii "/../etc/passwd")]

/-- The callbacks of a request for `/index.html`. -/
def indexEvents : List (SessionEvent Unit) :=
  [.beginHeaders ⟨.headers, true, true, 1⟩,
    .header ⟨.headers, true, true, 1⟩ (ascii ":path") (ascii "/index.html"),
    .frameRecv ⟨.headers, true, true, 1⟩ ⟨servesFile [], true⟩]

/-- A request on either front-end that is gated. -/
theorem router_gated_index :
    (∃ s, sessionMachine.exec Session.init indexEvents = some s ∧ ∀ e ∈ s.world.log, Gated e) ∧
    ∃ c, (connMachine ([] : List (Route Unit))).exec (Conn.create 5 [1, 2])
      [.headers 0 indexBlock (servesFile (ascii "hello"))] = some c ∧
        ∀ e ∈ c.world.log, Gated e := by
  have hsession : sessionMachine.exec Session.init indexEvents = some _ := rfl
  refine ⟨⟨_, hsession, (router_gated ([] : List (Route Unit)) 5 [1, 2]).1 _ _ hsession⟩, ?_⟩
  have hexec : (connMachine ([] : List (Route Unit))).exec (Conn.create 5 [1, 2])
      [.headers 0 indexBlock (servesFile (ascii "hello"))] = some _ := rfl
  refine ⟨_, hexec, ((router_gated [] 5 [1, 2]).2 _ _ hexec).mpr ?_⟩
  refine Machine.meets_of_forall _ (List.forall_mem_singleton.mpr
    ⟨⟨ascii "/index.html", by decide⟩, fun v hv => ?_⟩)
  rcases List.mem_cons.mp hv with heq | hv
  · have hname : ascii ":path" = ascii ":method" := congrArg Prod.fst heq
    exact absurd hname (by decide)
  · have hpath := congrArg Prod.snd (List.mem_singleton.mp hv)
    simp only at hpath
    rw [hpath]
    decide

/-- HTTP/3 opens `../etc/passwd`. -/
theorem router_opens_passwd :
    ∃ c, (connMachine ([] : List (Route Unit))).exec (Conn.create 5 [1, 2])
      [.headers 0 passwdBlock (servesFile (ascii "root"))] = some c ∧
        .openFile (ascii "../etc/passwd") ∈ c.world.log ∧ ¬ ∀ e ∈ c.world.log, Gated e := by
  refine ⟨_, rfl, by decide, fun h => ?_⟩
  obtain ⟨⟨u, hurl, hcheck⟩, -⟩ := h
    (.rootRouter 0 passwdBlock (some (ascii "/../etc/passwd"))) (by decide)
  rw [← Option.some.inj hurl] at hcheck
  exact absurd hcheck (by decide)

end Gfhttpd.Security
