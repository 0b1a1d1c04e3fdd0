import Gfhttpd.Config.Port
import Gfhttpd.Lib.Ledger
import Gfhttpd.Log.Log

/-!
# The servers (`run` in `main/gfhttpd.c`)

`run` sets up the log, starts both servers, and cleans up behind the event loop.  The answers of the
system are given by `StartIO`.

- `run`: what is acquired before the event loop, and given back after it
- `enter`, `leave`: `run` up to the event loop, and from there
- `Refused`, `Ended`: how it ends in front of the event loop, and from there on
- `EntersLoop`: the answers with which `run` gets to the event loop
- `CleansUp`: those with which the event loop is left, and the cleanup finds what it frees
- `run_returned_iff`, `run_runsOn_iff`, `run_died_iff`: how `run` ends
- `run_settled_iff`: when all of it is given back
- `run_rets_iff`: when both servers listen
-/

namespace Gfhttpd.Process

open Conf Http Ledger

variable {Code : Type}

/-- Why the process dies: a failed assertion, an access through `NULL`, or in a callback of the event
loop. -/
inductive Cause where
  | assertion
  | null
  | loop
deriving DecidableEq, Repr

/-- How `event_base_loop` ends: it was left, the process dies in it, or it goes on for ever. -/
inductive LoopEnd where
  | left
  | died
  | never
deriving DecidableEq, Repr

/-- What the system answers in `run`. -/
structure StartIO where
  /-- `event_base_new` -/
  eventBase : Bool
  log : Logging.InitIO
  /-- `SSL_CTX_new` -/
  sslCtx : Bool
  /-- `evconnlistener_new_bind`, for a port -/
  newBind : ℕ → Bool
  socket : Bool
  fcntl : Bool
  bind : ℕ → Bool
  configNew : Bool
  loadCertChain : Bytes → Bool
  loadPrivKey : Bytes → Bool
  h3ConfigNew : Bool
  /-- `calloc` of the connections -/
  calloc : Bool
  /-- `evutil_make_socket_nonblocking` -/
  nonblocking : Bool
  eventNew : Bool
  eventAdd : Bool
  /-- `evsignal_new` -/
  signalNew : Bool
  loop : LoopEnd

/-- What `run` acquires. -/
inductive Resource where
  | evbase
  | pipe
  | evpipe
  | sslCtx
  | listener
  | sock
  | config
  | h3Config
  | conns
  | accept
  | watchdog
deriving DecidableEq

/-- The pointers of `app_context` that are not `NULL`. -/
structure AppContext where
  evacceptHttp2 : Bool
  evacceptHttp3 : Bool
  conns : Bool

/-- `initialize_app_context`. -/
def AppContext.init : AppContext := ⟨false, false, false⟩

/-- What a function that starts a server returns, leaves in the context, and acquires. -/
structure Start (α : Type) where
  ret : α
  app : AppContext
  acquired : List Resource

/-! ## The log and the TLS context -/

/-- `init_log`, for the level of `run`.  An event without a base cannot be added. -/
def startLog (io : StartIO) : Option ℤ × Logging.Logger :=
  Logging.initLog .init 0 { io.log with eventAdd := io.eventBase && io.log.eventAdd }

/-- What `init_log` has acquired. -/
def logResources (s : Logging.Logger) : List Resource :=
  match s.lplog with
  | none => []
  | some log => (if log.pipe.isSome then [.pipe] else []) ++ if log.evpipe then [.evpipe] else []

/-- `create_ssl_ctx`.  A context that is `NULL` is logged, and used then; files that cannot be read are
logged only. -/
def createSslCtx (io : StartIO) : Except Cause (List Resource) :=
  if io.sslCtx then .ok [.sslCtx] else .error .null

/-! ## The servers -/

/-- `http2_start_listen`. -/
def http2StartListen (io : StartIO) (config : Config Code) (app : AppContext) : Start ℤ :=
  if io.newBind (Conf.http2StartListen config) then
    ⟨0, { app with evacceptHttp2 := true }, [.listener]⟩
  else ⟨1, app, []⟩

/-- `http3_init_sock`: a socket that cannot be used is not closed. -/
def http3InitSock (io : StartIO) (config : Config Code) : Bool × List Resource :=
  if !io.socket then (false, [])
  else if !io.fcntl then (false, [.sock])
  else if !io.bind (Conf.http3InitSock config) then (false, [.sock])
  else (true, [.sock])

/-- `http3_init_config`. -/
def http3InitConfig (io : StartIO) (config : Config Code) : Bool × List Resource :=
  if !io.configNew then (false, [])
  else if !io.loadCertChain config.certFile then (false, [.config])
  else if !io.loadPrivKey config.keyFile then (false, [.config])
  else if !io.h3ConfigNew then (false, [.config])
  else (true, [.config, .h3Config])

/-- `http3_start_listen`, behind `http3_init_config`. -/
def http3Accept (io : StartIO) (app : AppContext) (acquired : List Resource) :
    Start (Except Cause ℤ) :=
  -- `c->sock = sock`
  if !io.calloc then ⟨.error .null, app, acquired⟩
  else
    let app := { app with conns := true }
    let acquired := acquired ++ [.conns]
    if !io.nonblocking then ⟨.error .assertion, app, acquired⟩
    else if !io.eventNew then ⟨.error .assertion, app, acquired⟩
    else
      ⟨.ok (if io.eventAdd then 0 else 1), { app with evacceptHttp3 := true }, acquired ++ [.accept]⟩

/-- `http3_start_listen`: what it returns, unless the process dies in it. -/
def http3StartListen (io : StartIO) (config : Config Code) (app : AppContext) :
    Start (Except Cause ℤ) :=
  match http3InitSock io config with
  | (false, sock) => ⟨.ok 1, app, sock⟩
  | (true, sock) =>
      match http3InitConfig io config with
      | (false, configs) => ⟨.ok 1, app, sock ++ configs⟩
      | (true, configs) => http3Accept io app (sock ++ configs)

/-- `http2_cleanup`: what it gives back, or `none` when the process dies of a `NULL` pointer. -/
def http2Cleanup (app : AppContext) : Option (List Resource) :=
  if app.evacceptHttp2 then some [.listener] else none

/-- `http3_cleanup`, behind its loop over the connections. -/
def http3Cleanup (app : AppContext) : Option (List Resource) :=
  if app.conns then
    some ([.sock, .conns] ++ (if app.evacceptHttp3 then [.accept] else []) ++ [.h3Config, .config])
  else none

/-! ## `run` -/

/-- How `run` ends. -/
inductive Ending where
  | returned
  | died (cause : Cause)
  /-- the event loop goes on -/
  | runsOn
deriving DecidableEq, Repr

structure RunEnd where
  acquired : List Resource
  released : List Resource
  /-- what the two servers have returned, when the event loop is entered -/
  rets : Option (ℤ × ℤ)
  ending : Ending

/-- What there is in front of the event loop. -/
structure AtLoop where
  acquired : List Resource
  rets : ℤ × ℤ
  app : AppContext

/-- `run`, behind `init_log` and up to the event loop. -/
def startServers (io : StartIO) (config : Config Code) (acquired : List Resource) :
    Except RunEnd AtLoop :=
  match createSslCtx io with
  | .error cause => .error ⟨acquired, [], none, .died cause⟩
  | .ok ssl =>
      let http2 := http2StartListen io config .init
      let http3 := http3StartListen io config http2.app
      let acquired := acquired ++ ssl ++ http2.acquired ++ http3.acquired
      match http3.ret with
      | .error cause => .error ⟨acquired, [], none, .died cause⟩
      | .ok ret =>
          -- `event_add` reads the event
          if !io.signalNew then .error ⟨acquired, [], none, .died .null⟩
          else
            -- nobody looks at what the two have returned
            .ok ⟨acquired ++ [.watchdog], (http2.ret, ret), http3.app⟩

/-- `run`, up to the event loop. -/
def enter (io : StartIO) (config : Config Code) : Except RunEnd AtLoop :=
  match startLog io with
  | (ret, log) =>
      let acquired := (if io.eventBase then [.evbase] else []) ++ logResources log
      match ret with
      | none => .error ⟨acquired, [], none, .died .assertion⟩
      | some ret =>
          if ret ≠ 0 then .error ⟨acquired, [], none, .returned⟩
          else startServers io config acquired

/-- `run`, behind the event loop. -/
def cleanUp (s : AtLoop) : RunEnd :=
  match http2Cleanup s.app with
  | none => ⟨s.acquired, [.watchdog], some s.rets, .died .null⟩
  | some listeners =>
      match http3Cleanup s.app with
      | none => ⟨s.acquired, .watchdog :: listeners, some s.rets, .died .null⟩
      | some socks =>
          ⟨s.acquired, .watchdog :: (listeners ++ socks ++ [.evpipe, .pipe, .evbase, .sslCtx]),
            some s.rets, .returned⟩

/-- `run`, from the event loop on. -/
def leave (io : StartIO) (s : AtLoop) : RunEnd :=
  match io.loop with
  | .left => cleanUp s
  | .died => ⟨s.acquired, [], some s.rets, .died .loop⟩
  | .never => ⟨s.acquired, [], some s.rets, .runsOn⟩

/-- `run`. -/
def run (io : StartIO) (config : Config Code) : RunEnd :=
  match enter io config with
  | .error e => e
  | .ok s => leave io s

/-! ## The answers -/

/-- The log is there. -/
structure Logs (io : StartIO) : Prop where
  eventBase : io.eventBase = true
  pipe : io.log.pipe = true
  fcntlRead : io.log.fcntlRead = true
  fcntlWrite : io.log.fcntlWrite = true
  eventNew : io.log.eventNew = true
  eventAdd : io.log.eventAdd = true

/-- The assertion of `init_log` fails. -/
structure LogAsserts (io : StartIO) : Prop where
  pipe : io.log.pipe = true
  fcntlRead : io.log.fcntlRead = true
  fcntlWrite : io.log.fcntlWrite = true
  eventNew : io.log.eventNew = false

/-- `init_log` returns an error. -/
def LogRefused (io : StartIO) : Prop :=
  ¬ Logs io ∧ ¬ LogAsserts io

/-- HTTP/3 has its socket, on the port of the configuration, and its own configuration. -/
structure Http3Bound (io : StartIO) (config : Config Code) : Prop where
  socket : io.socket = true
  fcntl : io.fcntl = true
  bind : io.bind (servicePort config.listenPort) = true
  configNew : io.configNew = true
  certFile : io.loadCertChain config.certFile = true
  keyFile : io.loadPrivKey config.keyFile = true
  h3ConfigNew : io.h3ConfigNew = true

/-- The connections of HTTP/3 and its event can be made. -/
structure Http3Made (io : StartIO) : Prop where
  calloc : io.calloc = true
  nonblocking : io.nonblocking = true
  eventNew : io.eventNew = true

/-- `run` gets to the event loop. -/
structure EntersLoop (io : StartIO) (config : Config Code) : Prop where
  logs : Logs io
  sslCtx : io.sslCtx = true
  http3 : Http3Bound io config → Http3Made io
  signalNew : io.signalNew = true

/-- Both servers have what their cleanup frees. -/
structure BothStarted (io : StartIO) (config : Config Code) : Prop where
  newBind : io.newBind (servicePort config.listenPort) = true
  bound : Http3Bound io config

/-- The event loop is left, and the cleanup finds what it frees. -/
structure CleansUp (io : StartIO) (config : Config Code) : Prop where
  enters : EntersLoop io config
  left : io.loop = .left
  both : BothStarted io config

/-- Both servers listen, on the port of the configuration and with its files. -/
structure BothListen (io : StartIO) (config : Config Code) : Prop extends BothStarted io config where
  eventAdd : io.eventAdd = true

section Servers

variable {io : StartIO} {config : Config Code} {app : AppContext} {acquired : List Resource}

/-! ## What the functions return -/

theorem startLog_eq_none_iff : (startLog io).1 = none ↔ LogAsserts io := by
  unfold startLog Logging.initLog
  constructor
  · intro h
    dsimp only at h
    repeat' split at h
    all_goals simp_all [LogAsserts.mk]
  · intro h
    simp [h.pipe, h.fcntlRead, h.fcntlWrite, h.eventNew]

theorem startLog_eq_zero_iff : (startLog io).1 = some 0 ↔ Logs io := by
  unfold startLog Logging.initLog
  constructor
  · intro h
    dsimp only at h
    repeat' split at h
    all_goals simp_all [Logs.mk]
  · intro h
    simp [h.eventBase, h.pipe, h.fcntlRead, h.fcntlWrite, h.eventNew, h.eventAdd]

theorem startLog_of_logs (h : Logs io) : logResources (startLog io).2 = [.pipe, .evpipe] := by
  simp [startLog, Logging.initLog, logResources, h.eventBase, h.pipe, h.fcntlRead, h.fcntlWrite,
    h.eventNew, h.eventAdd]

/-- There is a pipe exactly if it was made, whatever fails then. -/
theorem logResources_eq_nil_iff : logResources (startLog io).2 = [] ↔ io.log.pipe = false := by
  unfold startLog Logging.initLog
  dsimp only
  repeat' split
  all_goals simp_all [logResources]

theorem http3InitSock_iff : (http3InitSock io config).1 = true ↔
    io.socket = true ∧ io.fcntl = true ∧ io.bind (servicePort config.listenPort) = true := by
  have hport : Conf.http3InitSock config = servicePort config.listenPort := rfl
  unfold http3InitSock
  rw [hport]
  cases io.socket <;> cases io.fcntl <;> cases io.bind (servicePort config.listenPort) <;> simp

theorem http3InitConfig_iff : (http3InitConfig io config).1 = true ↔
    io.configNew = true ∧ io.loadCertChain config.certFile = true ∧
      io.loadPrivKey config.keyFile = true ∧ io.h3ConfigNew = true := by
  unfold http3InitConfig
  cases io.configNew <;> cases io.loadCertChain config.certFile <;>
    cases io.loadPrivKey config.keyFile <;> cases io.h3ConfigNew <;> simp

theorem http3StartListen_of_bound (h : Http3Bound io config) :
    http3StartListen io config app = http3Accept io app [.sock, .config, .h3Config] := by
  have hsock : http3InitSock io config = (true, [.sock]) := by
    simp [http3InitSock, Conf.http3InitSock, h.socket, h.fcntl, h.bind]
  have hconfig : http3InitConfig io config = (true, [.config, .h3Config]) := by
    simp [http3InitConfig, h.configNew, h.certFile, h.keyFile, h.h3ConfigNew]
  simp only [http3StartListen, hsock, hconfig]
  rfl

/-- Without the socket or the configuration nothing is left in the context. -/
theorem http3StartListen_of_not_bound (h : ¬ Http3Bound io config) :
    ∃ socks, http3StartListen io config app = ⟨.ok 1, app, socks⟩ := by
  unfold http3StartListen
  split
  · exact ⟨_, rfl⟩
  · next hsock =>
      split
      · exact ⟨_, rfl⟩
      · next hconfig =>
          obtain ⟨hsocket, hfcntl, hbind⟩ := http3InitSock_iff.mp (congrArg Prod.fst hsock)
          obtain ⟨hnew, hcert, hkey, hh3⟩ := http3InitConfig_iff.mp (congrArg Prod.fst hconfig)
          exact (h ⟨hsocket, hfcntl, hbind, hnew, hcert, hkey, hh3⟩).elim

theorem http3Accept_of_made (h : Http3Made io) : http3Accept io app acquired =
    ⟨.ok (if io.eventAdd then 0 else 1), { app with conns := true, evacceptHttp3 := true },
      acquired ++ [.conns] ++ [.accept]⟩ := by
  simp [http3Accept, h.calloc, h.nonblocking, h.eventNew]

theorem http3Accept_of_not_made (h : ¬ Http3Made io) :
    ∃ cause, (http3Accept io app acquired).ret = .error cause := by
  unfold http3Accept
  split
  · exact ⟨_, rfl⟩
  · next hcalloc =>
      dsimp only
      split
      · exact ⟨_, rfl⟩
      · next hnonblocking =>
          split
          · exact ⟨_, rfl⟩
          · next hnew =>
              simp only [Bool.not_eq_true', Bool.not_eq_false] at hcalloc hnonblocking hnew
              exact (h ⟨hcalloc, hnonblocking, hnew⟩).elim

/-- The process survives the start of HTTP/3 exactly if what is made then is there. -/
theorem http3StartListen_error_iff :
    (∃ cause, (http3StartListen io config app).ret = .error cause) ↔
      Http3Bound io config ∧ ¬ Http3Made io := by
  by_cases hbound : Http3Bound io config
  · rw [http3StartListen_of_bound hbound]
    by_cases hmade : Http3Made io
    · simp [http3Accept_of_made hmade, hmade]
    · simp [http3Accept_of_not_made hmade, hbound, hmade]
  · obtain ⟨socks, hstart⟩ := @http3StartListen_of_not_bound _ io config app hbound
    simp [hstart, hbound]

/-! ## Up to the event loop -/

/-- What there is in front of the event loop, by the answers. -/
structure Entered (io : StartIO) (config : Config Code) (s : AtLoop) : Prop where
  listener : s.app.evacceptHttp2 = io.newBind (servicePort config.listenPort)
  conns : s.app.conns = true ↔ Http3Bound io config
  rets : s.rets = (0, 0) ↔ BothListen io config
  evbase : .evbase ∈ s.acquired
  started : BothStarted io config → s.app.evacceptHttp3 = true ∧
    s.acquired = [.evbase, .pipe, .evpipe, .sslCtx, .listener, .sock, .config, .h3Config, .conns,
      .accept, .watchdog]

theorem http2StartListen_cases : ∃ ret listeners, http2StartListen io config .init =
      ⟨ret, ⟨io.newBind (servicePort config.listenPort), false, false⟩, listeners⟩ ∧
    (ret = 0 ↔ io.newBind (servicePort config.listenPort) = true) ∧
    (io.newBind (servicePort config.listenPort) = true → listeners = [.listener]) := by
  have hport : Conf.http2StartListen config = servicePort config.listenPort := rfl
  unfold http2StartListen
  rw [hport]
  split
  · next h => exact ⟨0, [.listener], by simp [h, AppContext.init], by simp [h], fun _ => rfl⟩
  · next h => exact ⟨1, [], by simp [h, AppContext.init], by simp [h], fun h' => absurd h' h⟩

theorem enter_of_entersLoop (h : EntersLoop io config) :
    ∃ s, enter io config = .ok s ∧ Entered io config s := by
  obtain ⟨ret, listeners, hhttp2, hret, hlisteners⟩ :=
    @http2StartListen_cases _ io config
  -- the log is there, with its pipe and its event
  rcases hlog : startLog io with ⟨r, log⟩
  have hr : r = some 0 := by simpa [hlog] using startLog_eq_zero_iff.mpr h.logs
  have hresources : logResources log = [.pipe, .evpipe] := by
    simpa [hlog] using startLog_of_logs h.logs
  have henter : enter io config = startServers io config [.evbase, .pipe, .evpipe] := by
    simp [enter, hlog, hr, hresources, h.logs.eventBase]
  rw [henter]
  unfold startServers createSslCtx
  simp only [h.sslCtx, h.signalNew, if_true, hhttp2, Bool.not_true, Bool.false_eq_true, if_false]
  by_cases hbound : Http3Bound io config
  · -- HTTP/3 has its connections; its event may not have been added
    rw [http3StartListen_of_bound hbound, http3Accept_of_made (h.http3 hbound)]
    refine ⟨_, rfl, rfl, by simp [hbound], ?_, by simp, fun hboth => ⟨rfl, ?_⟩⟩
    · rw [Prod.mk.injEq, hret]
      constructor
      · rintro ⟨hnew, hadd⟩
        exact ⟨⟨hnew, hbound⟩, by simpa using hadd⟩
      · intro hlisten
        exact ⟨hlisten.newBind, by simp [hlisten.eventAdd]⟩
    · simp [hlisteners hboth.newBind]
  -- without HTTP/3 `run` goes on as well
  · obtain ⟨socks, hstart⟩ := @http3StartListen_of_not_bound _ io config
      ⟨io.newBind (servicePort config.listenPort), false, false⟩ hbound
    rw [hstart]
    refine ⟨_, rfl, rfl, iff_of_false Bool.false_ne_true hbound, ?_, by simp,
      fun hboth => (hbound hboth.bound).elim⟩
    exact iff_of_false (by simp) fun hlisten => hbound hlisten.bound

/-- How `run` ends in front of the event loop. -/
structure Refused (io : StartIO) (e : RunEnd) : Prop where
  rets : e.rets = none
  released : e.released = []
  acquired : e.acquired = [] ↔ io.eventBase = false ∧ io.log.pipe = false
  returned : e.ending = .returned ↔ LogRefused io
  runsOn : e.ending ≠ .runsOn

/-- With a log the process dies if it does not get to the event loop. -/
theorem Refused.died {ssl : List Resource} {cause : Cause} (hlogs : Logs io) :
    Refused io ⟨[.evbase, .pipe, .evpipe] ++ ssl, [], none, .died cause⟩ :=
  ⟨rfl, rfl, by simp [hlogs.eventBase], iff_of_false nofun fun h => h.1 hlogs, nofun⟩

theorem startServers_of_not_entersLoop (hlogs : Logs io) (h : ¬ EntersLoop io config) :
    ∃ e, startServers io config [.evbase, .pipe, .evpipe] = .error e ∧ Refused io e := by
  unfold startServers createSslCtx
  cases hssl : io.sslCtx with
  | false => exact ⟨_, rfl, .died hlogs⟩
  | true =>
      simp only [if_true]
      cases hhttp3 : (http3StartListen io config (http2StartListen io config .init).app).ret with
      | error cause =>
          simp only [List.append_assoc]
          exact ⟨_, rfl, .died hlogs⟩
      | ok ret =>
          cases hsignal : io.signalNew with
          | false =>
              simp only [List.append_assoc]
              exact ⟨_, rfl, .died hlogs⟩
          | true =>
              -- nothing is left that could fail
              refine (h ⟨hlogs, hssl, fun hbound => ?_, hsignal⟩).elim
              by_contra hmade
              obtain ⟨cause, hcause⟩ := http3StartListen_error_iff.mpr ⟨hbound, hmade⟩
              rw [hhttp3] at hcause
              cases hcause

theorem enter_of_not_entersLoop (h : ¬ EntersLoop io config) :
    ∃ e, enter io config = .error e ∧ Refused io e := by
  have hnone := @startLog_eq_none_iff io
  have hzero := @startLog_eq_zero_iff io
  have hnil := @logResources_eq_nil_iff io
  -- the log fails, or something behind it
  by_cases hlogs : Logs io
  · have hresources := startLog_of_logs hlogs
    rcases hlog : startLog io with ⟨r, log⟩
    rw [hlog] at hzero hresources
    have henter : enter io config = startServers io config [.evbase, .pipe, .evpipe] := by
      simp [enter, hlog, hzero.mpr hlogs, hresources, hlogs.eventBase]
    rw [henter]
    exact startServers_of_not_entersLoop hlogs h
  · unfold enter
    rcases hlog : startLog io with ⟨_ | ret, log⟩
    · -- the assertion of `init_log`
      rw [hlog] at hnone hnil
      exact ⟨_, rfl, rfl, rfl, by simp [hnil], iff_of_false nofun fun h => h.2 (hnone.mp rfl), nofun⟩
    · rw [hlog] at hnone hzero hnil
      -- an error of `init_log`
      have hret : ret ≠ 0 := fun hret => hlogs (hzero.mp (congrArg some hret))
      simp only [if_pos hret]
      refine ⟨_, rfl, rfl, rfl, by simp [hnil], iff_of_true rfl ⟨hlogs, fun hasserts => ?_⟩, nofun⟩
      cases hnone.mpr hasserts

/-! ## To the end -/

theorem bothStarted_iff {s : AtLoop} (h : Entered io config s) :
    BothStarted io config ↔ s.app.evacceptHttp2 = true ∧ s.app.conns = true := by
  rw [h.listener, h.conns]
  exact ⟨fun hboth => ⟨hboth.newBind, hboth.bound⟩, fun ⟨hnew, hbound⟩ => ⟨hnew, hbound⟩⟩

/-- With both servers everything is given back. -/
theorem cleanUp_of_both {s : AtLoop} (h : Entered io config s) (hboth : BothStarted io config) :
    (cleanUp s).ending = .returned ∧ Settled (cleanUp s).acquired (cleanUp s).released := by
  obtain ⟨hlistener, hconns⟩ := (bothStarted_iff h).mp hboth
  obtain ⟨haccept, hacquired⟩ := h.started hboth
  simp only [cleanUp, http2Cleanup, http3Cleanup, hlistener, hconns, haccept, hacquired, if_true]
  refine ⟨trivial, ?_⟩
  simp only [Settled]
  decide

/-- Without one of them the cleanup uses a pointer that is `NULL`. -/
theorem cleanUp_of_not_both {s : AtLoop} (h : Entered io config s) (hboth : ¬ BothStarted io config) :
    (cleanUp s).ending = .died .null ∧ .evbase ∈ (cleanUp s).acquired ∧
      .evbase ∉ (cleanUp s).released := by
  have hbase := h.evbase
  rw [bothStarted_iff h] at hboth
  unfold cleanUp http2Cleanup http3Cleanup
  cases hlistener : s.app.evacceptHttp2 with
  | false => simp [hbase]
  | true =>
      cases hconns : s.app.conns with
      | false => simp [hbase]
      | true => exact (hboth ⟨hlistener, hconns⟩).elim

theorem cleanUp_rets (s : AtLoop) : (cleanUp s).rets = some s.rets := by
  unfold cleanUp
  split
  · rfl
  · split <;> rfl

/-- How `run` ends from the event loop on. -/
structure Ended (io : StartIO) (config : Config Code) (s : AtLoop) (e : RunEnd) : Prop where
  rets : e.rets = some s.rets
  returned : e.ending = .returned ↔ io.loop = .left ∧ BothStarted io config
  runsOn : e.ending = .runsOn ↔ io.loop = .never
  settled : Settled e.acquired e.released ↔ io.loop = .left ∧ BothStarted io config

/-- What was acquired is not given back without the base of the events. -/
theorem not_settled_of_evbase {acquired released : List Resource} (hin : .evbase ∈ acquired)
    (hout : .evbase ∉ released) : ¬ Settled acquired released :=
  fun hsettled => hout (hsettled.symm.subset hin)

theorem leave_ended {s : AtLoop} (h : Entered io config s) : Ended io config s (leave io s) := by
  have hkept : ¬ Settled s.acquired [] := not_settled_of_evbase h.evbase List.not_mem_nil
  unfold leave
  cases hloop : io.loop with
  | left =>
      -- the cleanup is all that is left of `run`
      have hrets := cleanUp_rets s
      by_cases hboth : BothStarted io config
      · obtain ⟨hending, hsettled⟩ := cleanUp_of_both h hboth
        exact ⟨hrets, by simp [hending, hloop, hboth], by simp [hending, hloop],
          by simp [hsettled, hloop, hboth]⟩
      · obtain ⟨hending, hin, hout⟩ := cleanUp_of_not_both h hboth
        exact ⟨hrets, by simp [hending, hboth], by simp [hending, hloop],
          by simp [not_settled_of_evbase hin hout, hboth]⟩
  | died => exact ⟨rfl, by simp [hloop], by simp [hloop], by simp [hkept, hloop]⟩
  | never => exact ⟨rfl, by simp [hloop], by simp [hloop], by simp [hkept, hloop]⟩

theorem run_of_entersLoop (h : EntersLoop io config) :
    ∃ s, Ended io config s (run io config) ∧ Entered io config s := by
  obtain ⟨s, henter, hentered⟩ := enter_of_entersLoop h
  rw [run, henter]
  exact ⟨s, leave_ended hentered, hentered⟩

theorem run_of_not_entersLoop (h : ¬ EntersLoop io config) : Refused io (run io config) := by
  obtain ⟨e, henter, hrefused⟩ := enter_of_not_entersLoop h
  rwa [run, henter]

theorem EntersLoop.not_refused (h : EntersLoop io config) : ¬ LogRefused io :=
  fun hrefused => hrefused.1 h.logs

theorem EntersLoop.cleansUp_iff (h : EntersLoop io config) :
    CleansUp io config ↔ io.loop = .left ∧ BothStarted io config :=
  ⟨fun hclean => ⟨hclean.left, hclean.both⟩, fun ⟨hleft, hboth⟩ => ⟨h, hleft, hboth⟩⟩

/-- `run` returns when the log is refused, or behind the event loop with both servers. -/
theorem run_returned_iff :
    (run io config).ending = .returned ↔ LogRefused io ∨ CleansUp io config := by
  by_cases h : EntersLoop io config
  · obtain ⟨s, hended, -⟩ := run_of_entersLoop h
    rw [hended.returned, or_iff_right h.not_refused, h.cleansUp_iff]
  · rw [(run_of_not_entersLoop h).returned]
    exact (or_iff_left fun hclean => h hclean.enters).symm

/-- It goes on for ever in the event loop. -/
theorem run_runsOn_iff : (run io config).ending = .runsOn ↔
    EntersLoop io config ∧ io.loop = .never := by
  by_cases h : EntersLoop io config
  · obtain ⟨s, hended, -⟩ := run_of_entersLoop h
    rw [hended.runsOn, and_iff_right h]
  · exact iff_of_false (run_of_not_entersLoop h).runsOn fun h' => h h'.1

/-- In all other cases the process dies in it. -/
theorem run_died_iff : (∃ cause, (run io config).ending = .died cause) ↔
    ¬ (LogRefused io ∨ CleansUp io config) ∧ ¬ (EntersLoop io config ∧ io.loop = .never) := by
  rw [← run_returned_iff, ← run_runsOn_iff]
  cases (run io config).ending <;> simp

/-- What it has acquired is given back behind the event loop with both servers, or there was nothing. -/
theorem run_settled_iff : Settled (run io config).acquired (run io config).released ↔
    CleansUp io config ∨ (io.eventBase = false ∧ io.log.pipe = false) := by
  by_cases h : EntersLoop io config
  · obtain ⟨s, hended, -⟩ := run_of_entersLoop h
    have hnot : ¬ (io.eventBase = false ∧ io.log.pipe = false) := by simp [h.logs.eventBase]
    rw [hended.settled, or_iff_left hnot, h.cleansUp_iff]
  · have hrefused := run_of_not_entersLoop h
    rw [hrefused.released, ← hrefused.acquired, Settled, List.nil_perm]
    exact (or_iff_right fun hclean => h hclean.enters).symm

/-- Both servers listen, with what `run` does not look at. -/
theorem run_rets_iff : (run io config).rets = some (0, 0) ↔
    EntersLoop io config ∧ BothListen io config := by
  by_cases h : EntersLoop io config
  · obtain ⟨s, hended, hentered⟩ := run_of_entersLoop h
    rw [hended.rets, Option.some_inj, hentered.rets, and_iff_right h]
  · simp [(run_of_not_entersLoop h).rets, h]

end Servers

end Gfhttpd.Process
