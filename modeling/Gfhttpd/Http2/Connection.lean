import Gfhttpd.Http2.Callbacks
import Gfhttpd.Lib.Throttle

/-!
# The connection of an HTTP/2 session (`main/http2`)

A connection has a `bufferevent` with an input and an output buffer, and from the handshake on a
session of `nghttp2`.  `nghttp2` reads the input, makes the callbacks of the session, and hands out
blocks of bytes for the output.

- `Nghttp2`: what the connection relies on
- `sendCallback`, `sessionSend`, `sessionRecv`: the bytes between `nghttp2` and the buffers
- `http2Eventcb`, `http2Readcb`, `http2Writecb`: the callbacks of the `bufferevent`
- `connectionMachine`: these callbacks and the network, in any order
-/

namespace Gfhttpd.Http2

open Throttle Transition

variable {σ Code : Type}

/-! ## `nghttp2` -/

def SessionEvent.isTeardown : SessionEvent Code → Bool
  | .teardown => true
  | _ => false

/-- Callbacks take the session from `s` to `t`. -/
def Calls (Code : Type) (s t : Session) : Prop :=
  ∃ es : List (SessionEvent Code), (∀ e ∈ es, e.isTeardown = false) ∧
    sessionMachine.exec s es = some t

theorem Calls.refl (s : Session) : Calls Code s s :=
  ⟨[], by simp, rfl⟩

theorem Calls.trans {s t u : Session} (h : Calls Code s t) (h' : Calls Code t u) :
    Calls Code s u := by
  obtain ⟨es, hes, hst⟩ := h
  obtain ⟨fs, hfs, htu⟩ := h'
  refine ⟨es ++ fs, fun e he => ?_, sessionMachine.exec_append hst htu⟩
  rcases List.mem_append.mp he with he | he
  · exact hes e he
  · exact hfs e he

/-- `NGHTTP2_SETTINGS_MAX_CONCURRENT_STREAMS`. -/
def NGHTTP2_SETTINGS_MAX_CONCURRENT_STREAMS : ℕ := 3

/-- The library, as far as it is documented.  Its states are those of an `nghttp2_session` together
with those of our session, which its calls change by callbacks. -/
structure Nghttp2 (σ Code : Type) where
  /-- `nghttp2_session_server_new` -/
  serverNew : σ
  /-- `nghttp2_submit_settings`: 0 or an error -/
  submitSettings : σ → List (ℕ × ℕ) → ℤ × σ
  /-- `nghttp2_session_mem_recv`: the number of bytes it has processed, or an error -/
  memRecv : σ × Session → Bytes → ℤ × (σ × Session)
  /-- the blocks that `nghttp2_session_send` hands to `send_callback` -/
  source : Source (σ × Session) UInt8 ℤ
  wantRead : σ → Bool
  wantWrite : σ → Bool
  /-- no block is longer -/
  maxBlock : ℕ
  memRecv_le : ∀ s data, (memRecv s data).1 ≤ data.length
  memRecv_calls : ∀ s data, Calls Code s.2 (memRecv s data).2.2
  nothing_calls : ∀ {s r}, source.offer s = .nothing r → Calls Code s.2 r.2
  fails_calls : ∀ {s e r}, source.offer s = .fails e r → Calls Code s.2 r.2
  held_calls : ∀ {s b hne h t}, source.offer s = .block b hne h t → Calls Code s.2 h.2
  taken_calls : ∀ {s b hne h t}, source.offer s = .block b hne h t → Calls Code h.2 t.2
  block_le : ∀ {s b hne h t}, source.offer s = .block b hne h t → b.length ≤ maxBlock
  block_wanted : ∀ {s b hne h t}, source.offer s = .block b hne h t → wantWrite s.1 = true
  /-- a callback that crashed has ended the process -/
  crashed : ∀ {s}, s.2.crashed = true → source.offer s = .nothing s

/-! ## The connection -/

/-- A connection.  The last fields record what has happened to it: the bytes that came in and those
of them that `nghttp2` has read, the blocks that `send_callback` has accepted, and the bytes that
went out. -/
structure Connection (σ : Type) where
  /-- `session_data->session` -/
  nghttp2 : Option σ
  session : Session
  input : Bytes
  output : Bytes
  /-- the output has become empty, and libevent owes us `http2_writecb` for it -/
  writeDue : Bool
  received : Bytes
  fed : Bytes
  accepted : List Bytes
  sent : Bytes

/-- `create_http2_conn`. -/
def Connection.create : Connection σ where
  nghttp2 := none
  session := Session.init
  input := []
  output := []
  writeDue := false
  received := []
  fed := []
  accepted := []
  sent := []

/-- The connection can still do something. -/
def Connection.alive (c : Connection σ) : Bool :=
  !c.session.crashed && !c.session.tornDown

/-- `delete_http2_session_data`, unless the process has crashed. -/
def Connection.delete (c : Connection σ) : Connection σ :=
  if c.session.crashed then c
  else { c with nghttp2 := none, session := deleteHttp2SessionData c.session }

/-- An access through `session_data->session` before there is one. -/
def Connection.crash (c : Connection σ) : Connection σ :=
  { c with session := c.session.crash }

/-! ## Bytes in and out -/

/-- `OUTPUT_WOULDBLOCK_THRESHOLD`. -/
def OUTPUT_WOULDBLOCK_THRESHOLD : ℕ := 1 <<< 16

def NGHTTP2_ERR_WOULDBLOCK : ℤ := -504

/-- `send_callback`, and the output buffer after it. -/
def sendCallback (output data : Bytes) : ℤ × Bytes :=
  if output.length ≥ OUTPUT_WOULDBLOCK_THRESHOLD then (NGHTTP2_ERR_WOULDBLOCK, output)
  else (data.length, output ++ data)

/-- What `nghttp2_session_send` makes of the result of `send_callback`. -/
def writeBlock (output data : Bytes) : Option Bytes :=
  match sendCallback output data with
  | (rv, output) => if rv < 0 then none else some output

theorem writeBlock_limited : Limited OUTPUT_WOULDBLOCK_THRESHOLD writeBlock := by
  intro output data
  by_cases hfull : OUTPUT_WOULDBLOCK_THRESHOLD ≤ output.length
  · simp [writeBlock, sendCallback, NGHTTP2_ERR_WOULDBLOCK, hfull]
  · have hnonneg : ¬ (data.length : ℤ) < 0 := Int.not_lt.mpr (Int.natCast_nonneg _)
    simp [writeBlock, sendCallback, hfull, hnonneg]

variable (L : Nghttp2 σ Code)

/-- `nghttp2_session_send` on a session in this state. -/
def sender (c : Connection σ) (s : σ) : Sender (σ × Session) UInt8 ℤ :=
  ⟨(s, c.session), c.output, c.accepted, none⟩

/-- `session_send`. -/
def sessionSend (c : Connection σ) : ℤ × Connection σ :=
  match c.nghttp2 with
  | none => (0, c.crash)
  | some s =>
      let t := L.source.send writeBlock OUTPUT_WOULDBLOCK_THRESHOLD (sender c s)
      let c :=
        { c with
          nghttp2 := some t.source.1
          session := t.source.2
          output := t.buffer
          accepted := t.taken }
      match t.ended with
      | some (.error _) => (-1, c)
      | _ => (0, c)

/-- `session_recv`. -/
def sessionRecv (c : Connection σ) : ℤ × Connection σ :=
  match c.nghttp2 with
  | none => (0, c.crash)
  | some s =>
      match L.memRecv (s, c.session) c.input with
      | (readlen, s, session) =>
          let c := { c with nghttp2 := some s, session := session }
          if readlen < 0 then (-1, c)
          else
            -- `evbuffer_drain`
            let n := readlen.toNat
            let c := { c with fed := c.fed ++ c.input.take n, input := c.input.drop n }
            match sessionSend L c with
            | (rv, c) => if rv ≠ 0 then (-1, c) else (0, c)

/-! ## The callbacks -/

/-- `initialize_nghttp2_session`. -/
def initializeNghttp2Session (c : Connection σ) : Connection σ :=
  { c with nghttp2 := some L.serverNew }

/-- `send_server_connection_header`. -/
def sendServerConnectionHeader (c : Connection σ) : ℤ × Connection σ :=
  match c.nghttp2 with
  | none => (0, c.crash)
  | some s =>
      match L.submitSettings s [(NGHTTP2_SETTINGS_MAX_CONCURRENT_STREAMS, 100)] with
      | (rv, s) => (if rv ≠ 0 then -1 else 0, { c with nghttp2 := some s })

/-- `http2_eventcb`.  `connected` is `BEV_EVENT_CONNECTED`; the other events differ in what is
logged.  `npn` and `alpn` are what was negotiated by either. -/
def http2Eventcb (connected : Bool) (npn alpn : Option Bytes) (c : Connection σ) : Connection σ :=
  if connected then
    let alpn := if npn = none then alpn else npn
    if alpn ≠ some (ascii "h2") then c.delete
    else
      match sendServerConnectionHeader L (initializeNghttp2Session L c) with
      | (rv, c) =>
          if rv ≠ 0 then c.delete
          else
            match sessionSend L c with
            | (rv, c) => if rv ≠ 0 then c.delete else c
  else c.delete

/-- `http2_readcb`. -/
def http2Readcb (c : Connection σ) : Connection σ :=
  match sessionRecv L c with
  | (rv, c) => if rv ≠ 0 then c.delete else c

/-- `http2_writecb`. -/
def http2Writecb (c : Connection σ) : Connection σ :=
  if c.output.length > 0 then c
  else
    match c.nghttp2 with
    | none => c.crash
    | some s =>
        if L.wantRead s = false ∧ L.wantWrite s = false then c.delete
        else
          match sessionSend L c with
          | (rv, c) => if rv ≠ 0 then c.delete else c

/-! ## Runs -/

/-- The callbacks of the `bufferevent`, and what it does with its buffers. -/
inductive ConnectionEvent where
  /-- `http2_eventcb` -/
  | event (connected : Bool) (npn alpn : Option Bytes)
  /-- bytes from the client -/
  | arrive (data : Bytes)
  /-- `http2_readcb` -/
  | readable
  /-- so many bytes of the output go to the client -/
  | write (n : ℕ)
  /-- `http2_writecb` -/
  | writable
deriving DecidableEq, Repr

/-- One event.  There is none after `bufferevent_free` or a crash.  libevent reports that the
handshake is done once, and before it makes any other callback but an error. -/
def connectionStep (c : Connection σ) (e : ConnectionEvent) : Option (Connection σ) :=
  if c.alive = false then none
  else
    match e with
    | .event connected npn alpn =>
        if connected ∧ c.nghttp2.isSome then none else some (http2Eventcb L connected npn alpn c)
    | .arrive data => some { c with received := c.received ++ data, input := c.input ++ data }
    | .readable => if c.nghttp2.isNone then none else some (http2Readcb L c)
    | .write n =>
        if 0 < n ∧ n ≤ c.output.length then
          some
            { c with
              output := c.output.drop n
              sent := c.sent ++ c.output.take n
              writeDue := c.writeDue || (c.output.drop n).isEmpty }
        else none
    | .writable =>
        if c.nghttp2.isNone then none else some (http2Writecb L { c with writeDue := false })

/-- The runs of a connection. -/
def connectionMachine : Machine (Connection σ) ConnectionEvent := ⟨connectionStep L⟩

/-! ## Clients that are answered with a few frames -/

/-- The frames that are sent to a client, with their bytes. -/
structure FrameCode (F : Type) where
  encode : F → Bytes
  encode_ne_nil : ∀ f, encode f ≠ []
  maxBlock : ℕ
  length_le : ∀ f, (encode f).length ≤ maxBlock

section Answering

variable {F : Type} (code : FrameCode F)

/-- The first frame of a queue. -/
def queueOffer : List F × Session → Offer (List F × Session) UInt8 ℤ
  | ([], s) => .nothing ([], s)
  | (f :: fs, s) =>
      if s.crashed then .nothing (f :: fs, s)
      else .block (code.encode f) (code.encode_ne_nil f) (f :: fs, s) (fs, s)

variable {code}

/-- What is offered is the first frame. -/
theorem queueOffer_eq_block {q h t : List F × Session} {b : Bytes} {hne : b ≠ []}
    (hoffer : queueOffer code q = .block b hne h t) :
    ∃ f, q.1 = f :: t.1 ∧ b = code.encode f ∧ h = q ∧ t.2 = q.2 := by
  rcases q with ⟨_ | ⟨f, fs⟩, s⟩
  · cases hoffer
  · simp only [queueOffer] at hoffer
    split at hoffer
    · cases hoffer
    · cases hoffer
      exact ⟨f, rfl, rfl, rfl, rfl⟩

theorem queueOffer_eq_nothing {q r : List F × Session} (hoffer : queueOffer code q = .nothing r) :
    r = q ∧ (q.2.crashed = false → q.1 = []) := by
  rcases q with ⟨_ | ⟨f, fs⟩, s⟩
  · cases hoffer
    exact ⟨rfl, fun _ => rfl⟩
  · simp only [queueOffer] at hoffer
    split at hoffer
    · next hcrashed =>
        cases hoffer
        exact ⟨rfl, fun hsound => absurd hcrashed (by simp [show s.crashed = false from hsound])⟩
    · cases hoffer

theorem queueOffer_ne_fails {q r : List F × Session} {e : ℤ} : queueOffer code q ≠ .fails e r := by
  rcases q with ⟨_ | ⟨f, fs⟩, s⟩
  · simp [queueOffer]
  · simp only [queueOffer]
    split <;> simp

variable (code)

/-- `nghttp2` with a client that makes no requests.  Its states are the frames that wait to be sent:
`settings` is the one that is submitted, and the others answer what has been read. -/
def Nghttp2.answering (settings : F) (answers : Bytes → List F) : Nghttp2 (List F) Unit where
  serverNew := []
  submitSettings q iv :=
    if iv = [(NGHTTP2_SETTINGS_MAX_CONCURRENT_STREAMS, 100)] then (0, q ++ [settings])
    else (-501, q)
  memRecv q data := (data.length, (q.1 ++ answers data, q.2))
  source :=
    { offer := queueOffer code
      nothing_again := fun h => by
        obtain ⟨rfl, -⟩ := queueOffer_eq_nothing h
        exact h
      held_again := fun h => by
        obtain ⟨-, -, -, rfl, -⟩ := queueOffer_eq_block h
        exact h }
  wantRead _ := true
  wantWrite q := !q.isEmpty
  maxBlock := code.maxBlock
  memRecv_le _ _ := Int.le_refl _
  memRecv_calls q _ := .refl q.2
  nothing_calls h := by
    rw [(queueOffer_eq_nothing h).1]
    exact .refl _
  fails_calls h := absurd h queueOffer_ne_fails
  held_calls h := by
    obtain ⟨-, -, -, hheld, -⟩ := queueOffer_eq_block h
    rw [hheld]
    exact .refl _
  taken_calls h := by
    obtain ⟨-, -, -, hheld, htaken⟩ := queueOffer_eq_block h
    rw [hheld, htaken]
    exact .refl _
  block_le h := by
    obtain ⟨f, -, hbytes, -⟩ := queueOffer_eq_block h
    rw [hbytes]
    exact code.length_le f
  block_wanted h := by
    obtain ⟨f, hqueue, -⟩ := queueOffer_eq_block h
    rw [hqueue]
    rfl
  crashed {q} h := by
    rcases q with ⟨_ | ⟨f, fs⟩, s⟩
    · rfl
    · exact if_pos h

end Answering

/-- The settings that are submitted, and the acknowledgement of those of the client. -/
inductive SettingsFrame where
  | settings
  | ack
deriving DecidableEq, Repr

def SettingsFrame.code : FrameCode SettingsFrame where
  encode
    | .settings => [0, 0, 6, 4, 0, 0, 0, 0, 0, 0, 3, 0, 0, 0, 100]
    | .ack => [0, 0, 0, 4, 1, 0, 0, 0, 0]
  encode_ne_nil f := by cases f <;> simp
  maxBlock := 15
  length_le f := by cases f <;> decide

/-- The preface of a client, and its settings. -/
def clientPreface : Bytes :=
  ascii "PRI * HTTP/2.0\r\n\r\nSM\r\n\r\n" ++ [0, 0, 0, 4, 0, 0, 0, 0, 0]

/-- A client that only sends its settings. -/
def settingsOnly : Nghttp2 (List SettingsFrame) Unit :=
  Nghttp2.answering SettingsFrame.code .settings fun data => if data = [] then [] else [.ack]

/-- The answer to a PING, besides. -/
inductive PingFrame where
  | settings
  | ack
  | pong
deriving DecidableEq, Repr

def PingFrame.code : FrameCode PingFrame where
  encode
    | .settings => SettingsFrame.code.encode .settings
    | .ack => SettingsFrame.code.encode .ack
    | .pong => [0, 0, 8, 6, 1, 0, 0, 0, 0, 0, 0, 0, 0, 0, 0, 0, 0]
  encode_ne_nil f := by cases f <;> simp [SettingsFrame.code]
  maxBlock := 17
  length_le f := by cases f <;> decide

/-- PING frames, of 17 bytes each. -/
def pings (n : ℕ) : Bytes :=
  (List.replicate n [0, 0, 8, 6, 0, 0, 0, 0, 0, 0, 0, 0, 0, 0, 0, 0, 0]).flatten

/-- The answers to what a client sends that begins with its preface and its settings, 33 bytes, and goes
on with PINGs. -/
def pingAnswers (data : Bytes) : List PingFrame :=
  if data.length % 17 = 0 then List.replicate (data.length / 17) .pong else [.ack]

/-- The library with such a client. -/
def pingsOnly : Nghttp2 (List PingFrame) Unit :=
  Nghttp2.answering PingFrame.code .settings pingAnswers

/-- A library that makes more callbacks when it reads. -/
def Nghttp2.calling (L : Nghttp2 σ Code) (calls : Bytes → List (SessionEvent Code))
    (hcalls : ∀ data, ∀ e ∈ calls data, e.isTeardown = false) : Nghttp2 σ Code :=
  { L with
    memRecv := fun s data =>
      match L.memRecv s data with
      | (n, s', session) => (n, s', (sessionMachine.exec session (calls data)).getD session)
    memRecv_le := L.memRecv_le
    memRecv_calls := fun s data => by
      refine (L.memRecv_calls s data).trans ?_
      dsimp only
      cases hexec : sessionMachine.exec (L.memRecv s data).2.2 (calls data) with
      | none => exact .refl _
      | some session => exact ⟨calls data, hcalls data, hexec⟩ }

end Gfhttpd.Http2
