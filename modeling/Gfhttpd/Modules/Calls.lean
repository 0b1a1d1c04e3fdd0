import Gfhttpd.Modules.Writer
import Mathlib.Algebra.GroupWithZero.Nat
import Mathlib.Data.List.DropRight

/-!
# All methods of the writer (`modules/golang/response_writer.go`)

A `responseWriter` has more methods than a handler needs for an answer: `Header`, and those of the
interfaces `http.Flusher`, `http.Hijacker` and `http.CloseNotifier`, which are passed on to an embedded
writer.  `Go_golang` sets none, and a panic is not recovered from before it gets to the C code.

- `WriterCall`, `runCalls`: the calls of a handler on all of its methods
- `calls_leave`: what they leave in the stream; the map of `Header` never gets there
- `bridge_refines`: `Go_golang` with these handlers is the one with `Write` and `WriteHeader` alone,
  until a handler gets to the embedded writer, and then the process ends
-/

namespace Gfhttpd.Modules

open Http

/-! ## The methods -/

/-- `http.Header`. -/
abbrev GoHeader := List (Bytes × List Bytes)

/-- The calls of a handler on its writer.  `header` is `Header()` and what the handler makes of the
map. -/
inductive WriterCall where
  | header (edit : GoHeader → GoHeader)
  | writeHeader (code : ℤ)
  | writeHeaderNow
  | write (data : Bytes) (accepted : ℕ)
  | writeString (data : Bytes) (accepted : ℕ)
  | status
  | size
  | written
  | pusher
  | hijack
  | closeNotify
  | flush

/-- What a call returns. -/
inductive WriterResult where
  | nothing
  | header (h : GoHeader)
  | number (n : ℤ)
  | flag (b : Bool)
  /-- the `http.Pusher`, which is `nil` or not -/
  | pusher (isNil : Bool)

/-- `responseWriter`.  `embedded` says whether the embedded `http.ResponseWriter` is not `nil`. -/
structure WholeWriter where
  embedded : Bool
  core : ResponseWriter
  header : Option GoHeader

/-- The writer that `Go_golang` sets up. -/
def WholeWriter.init : WholeWriter := ⟨false, .init, none⟩

/-- A handler at work: its writer, the stream, the descriptors, what its calls have returned, and
whether the last one has panicked. -/
structure CallState where
  writer : WholeWriter
  hs : HttpStream
  world : World
  results : List WriterResult
  panicked : Bool

namespace CallState

/-- The handler is called. -/
def start (hs : HttpStream) (w : World) : CallState := ⟨.init, hs, w, [], false⟩

/-- A call returns. -/
def returns (s : CallState) (r : WriterResult) : CallState :=
  { s with results := s.results ++ [r] }

/-- `w.ResponseWriter.(T)`: without an embedded writer it panics.  Only `reset` sets one, and nobody
calls it. -/
def embeddedAs (s : CallState) : CallState :=
  if s.writer.embedded then s.returns .nothing else { s with panicked := true }

/-- `WriteHeaderNow`. -/
def writeHeaderNow (s : CallState) : CallState :=
  match s.writer.core.writeHeaderNow with
  | (core, status) =>
      { s with
        writer := { s.writer with core := core }
        hs := { s.hs with response := { s.hs.response with httpStatus := some status } } }

/-- `Write` and `WriteString`: they return how much was written. -/
def write (s : CallState) (data : Bytes) (accepted : ℕ) : CallState :=
  match s.writer.core.write s.hs s.world data accepted with
  | (core, hs, world) =>
      { s with
        writer := { s.writer with core := core }
        hs := hs
        world := world
        results := s.results ++ [.number (HandlerOp.taken (writerOpen s.hs s.world)
          (.write data accepted))] }

end CallState

/-- One call.  A handler that has panicked does nothing more. -/
def runCall (s : CallState) (c : WriterCall) : CallState :=
  if s.panicked then s
  else
    match c with
    | .header edit =>
        -- the map is made when it is first asked for
        let h := edit (s.writer.header.getD [])
        { s with writer := { s.writer with header := some h } }.returns (.header h)
    | .writeHeader code =>
        { s with writer := { s.writer with core := s.writer.core.writeHeader code } }.returns .nothing
    | .writeHeaderNow => s.writeHeaderNow.returns .nothing
    | .write data accepted => s.write data accepted
    | .writeString data accepted => s.write data accepted
    | .status => s.returns (.number s.writer.core.status)
    | .size => s.returns (.number s.writer.core.size)
    | .written => s.returns (.flag s.writer.core.written)
    | .pusher => s.returns (.pusher !s.writer.embedded)
    | .hijack =>
        let core := if s.writer.core.size < 0 then { s.writer.core with size := 0 } else s.writer.core
        { s with writer := { s.writer with core := core } }.embeddedAs
    | .closeNotify => s.embeddedAs
    | .flush => s.writeHeaderNow.embeddedAs

/-- The calls of a handler, one after the other. -/
def runCalls (s : CallState) (calls : List WriterCall) : CallState :=
  calls.foldl runCall s

/-- The call writes a body. -/
def WriterCall.writes : WriterCall → Bool
  | .write .. | .writeString .. => true
  | _ => false

/-- `Go_golang`, with handlers that call all methods. -/
def goGolangCalls (newRequest : Bytes → Bytes → Bool)
    (golangModules : Bytes → Option (GoRequest → List WriterCall)) (hs : HttpStream) (module : Bytes)
    (w : World) : GoResult :=
  let request := goRequest hs.request
  if !newRequest request.method request.url then ⟨-1, hs, w, none, false⟩
  else
    match golangModules module with
    | none => ⟨0, hs, w, none, true⟩
    | some handler =>
        let s := runCalls (.start hs w) (handler request)
        let answer :=
          if (handler request).any WriterCall.writes then
            some (s.hs.response.httpStatus.getD [], s.hs.response.contentLenght)
          else none
        -- `defer responsewriter.fd.Close()`, also when the handler panics
        ⟨0, s.hs, s.world.closeFd hs.response.fd, answer, s.panicked⟩

/-! ## Kinds of calls -/

namespace WriterCall

/-- The call is passed on to the embedded writer. -/
def embedded : WriterCall → Bool
  | .hijack | .closeNotify | .flush => true
  | _ => false

/-- The call sends the status. -/
def sends : WriterCall → Bool
  | .writeHeaderNow | .write .. | .writeString .. | .flush => true
  | _ => false

/-- The code that the call sets. -/
def code : WriterCall → Option ℤ
  | .writeHeader code => if code > 0 then some code else none
  | _ => none

/-- The bytes that the call writes. -/
def body : WriterCall → Option Bytes
  | .write data _ | .writeString data _ => some data
  | _ => none

/-- How many bytes of the call are written. -/
def taken (isOpen : Bool) : WriterCall → ℕ
  | .write data accepted | .writeString data accepted =>
      HandlerOp.taken isOpen (.write data accepted)
  | _ => 0

/-- The call of a handler that uses `Write` and `WriteHeader` alone. -/
def op : WriterCall → Option HandlerOp
  | .writeHeader code => some (.writeHeader code)
  | .write data accepted | .writeString data accepted => some (.write data accepted)
  | _ => none

end WriterCall

/-- The last code, or 0 if there is none. -/
def lastCode (calls : List WriterCall) : ℤ :=
  (calls.filterMap WriterCall.code).getLast?.getD 0

/-- The calls up to the last one that sends the status. -/
def upToSend (calls : List WriterCall) : List WriterCall :=
  calls.rdropWhile fun c => !c.sends

/-! ## What the calls leave -/

/-- What a handler leaves, which was given the stream `hs`. -/
structure CallsLeave (calls : List WriterCall) (hs : HttpStream) (isOpen : Bool) (s : CallState) :
    Prop where
  goesOn : s.panicked = false
  embedded : s.writer.embedded = false
  /-- nothing but the status and the length, so no header -/
  frame : ∃ status length, s.hs =
    { hs with response := { hs.response with httpStatus := status, contentLenght := length } }
  status : s.hs.response.httpStatus =
    if calls.any WriterCall.sends then some (formatInt (lastCode (upToSend calls)))
    else hs.response.httpStatus
  length : s.hs.response.contentLenght =
    ((calls.filterMap WriterCall.body).getLast?.map fun data => toSizeT data.length).getD
      hs.response.contentLenght
  code : s.writer.core.status = lastCode calls
  size : s.writer.core.size =
    if calls.any WriterCall.sends then ((calls.map (WriterCall.taken isOpen)).sum : ℤ) else -1
  isOpen : writerOpen s.hs s.world = isOpen

theorem lastCode_concat (calls : List WriterCall) (c : WriterCall) :
    lastCode (calls ++ [c]) = c.code.getD (lastCode calls) := by
  rw [lastCode, List.filterMap_append, lastCode]
  cases hcode : c.code with
  | none =>
      rw [List.filterMap_cons_none hcode, List.filterMap_nil, List.append_nil]
      rfl
  | some code =>
      rw [List.filterMap_cons_some hcode, List.filterMap_nil, List.getLast?_concat]
      rfl

theorem lastBody_concat (calls : List WriterCall) (c : WriterCall) :
    ((calls ++ [c]).filterMap WriterCall.body).getLast? =
      c.body.or (calls.filterMap WriterCall.body).getLast? := by
  rw [List.filterMap_append]
  cases hbody : c.body with
  | none =>
      rw [List.filterMap_cons_none hbody, List.filterMap_nil, List.append_nil]
      rfl
  | some data =>
      rw [List.filterMap_cons_some hbody, List.filterMap_nil, List.getLast?_concat]
      rfl

theorem upToSend_concat (calls : List WriterCall) (c : WriterCall) :
    upToSend (calls ++ [c]) = if c.sends then calls ++ [c] else upToSend calls := by
  rw [upToSend, List.rdropWhile_concat]
  cases c.sends <;> rfl

theorem taken_eq_zero {isOpen : Bool} {c : WriterCall} (h : c.sends = false) : c.taken isOpen = 0 := by
  cases c with
  | write | writeString => cases h
  | header | writeHeader | writeHeaderNow | status | size | written | pusher | hijack | closeNotify
  | flush => rfl

theorem sum_taken_eq_zero {isOpen : Bool} {calls : List WriterCall}
    (h : calls.any WriterCall.sends = false) : (calls.map (WriterCall.taken isOpen)).sum = 0 := by
  induction calls with
  | nil => rfl
  | cons c calls ih =>
      obtain ⟨hc, hcalls⟩ := Bool.or_eq_false_iff.mp h
      rw [List.map_cons, List.sum_cons, taken_eq_zero hc, ih hcalls]

/-- `WriteHeaderNow` makes the size a number of bytes. -/
theorem size_writeHeaderNow (rw : ResponseWriter) (hsize : -1 ≤ rw.size) :
    rw.writeHeaderNow.1.size = max rw.size 0 := by
  rw [ResponseWriter.writeHeaderNow]
  simp only [ResponseWriter.written, noWritten, bne_iff_ne, ne_eq]
  split
  · omega
  · show (0 : ℤ) = max rw.size 0
    omega

section Step

variable {calls : List WriterCall} {hs : HttpStream} {isOpen : Bool} {s : CallState}

/-- The size is -1, or the total of the bytes written. -/
theorem CallsLeave.size_eq (h : CallsLeave calls hs isOpen s) :
    -1 ≤ s.writer.core.size ∧
      max s.writer.core.size 0 = ((calls.map (WriterCall.taken isOpen)).sum : ℤ) := by
  rw [h.size]
  cases hany : calls.any WriterCall.sends with
  | true =>
      rw [if_pos rfl]
      omega
  | false =>
      rw [if_neg Bool.false_ne_true, sum_taken_eq_zero hany]
      omega

/-- A call that sends nothing; it may set a code, and leaves the stream alone. -/
theorem CallsLeave.quiet (h : CallsLeave calls hs isOpen s) {c : WriterCall} {s' : CallState}
    (hsends : c.sends = false) (hbody : c.body = none) (hpanicked : s'.panicked = s.panicked)
    (hembedded : s'.writer.embedded = s.writer.embedded) (hhs : s'.hs = s.hs)
    (hworld : s'.world = s.world) (hsize : s'.writer.core.size = s.writer.core.size)
    (hcode : s'.writer.core.status = c.code.getD s.writer.core.status) :
    CallsLeave (calls ++ [c]) hs isOpen s' where
  goesOn := hpanicked.trans h.goesOn
  embedded := hembedded.trans h.embedded
  frame := hhs ▸ h.frame
  status := by
    rw [hhs, h.status, List.any_append, upToSend_concat, hsends, if_neg Bool.false_ne_true,
      List.any_cons, hsends, List.any_nil, Bool.or_false, Bool.or_false]
  length := by
    rw [hhs, h.length, lastBody_concat, hbody, Option.none_or]
  code := by
    rw [hcode, h.code, lastCode_concat]
  size := by
    rw [hsize, h.size, List.any_append, List.any_cons, hsends, List.any_nil, Bool.or_false,
      Bool.or_false, List.map_append, List.map_cons, List.map_nil, taken_eq_zero hsends,
      List.sum_append, List.sum_singleton, Nat.add_zero]
  isOpen := by
    rw [hhs, hworld, h.isOpen]

/-- A call that sends the status; it may write a body. -/
theorem CallsLeave.send (h : CallsLeave calls hs isOpen s) {c : WriterCall} {s' : CallState}
    (hsends : c.sends = true) (hcode : c.code = none) (hpanicked : s'.panicked = s.panicked)
    (hembedded : s'.writer.embedded = s.writer.embedded)
    (hhs : s'.hs = { s.hs with
      response := { s.hs.response with
        httpStatus := some (formatInt s.writer.core.status)
        contentLenght := (c.body.map fun data => toSizeT data.length).getD
          s.hs.response.contentLenght } })
    (hopen : writerOpen s'.hs s'.world = writerOpen s.hs s.world)
    (hsize : s'.writer.core.size = max s.writer.core.size 0 + c.taken isOpen)
    (hstatus : s'.writer.core.status = s.writer.core.status) :
    CallsLeave (calls ++ [c]) hs isOpen s' where
  goesOn := hpanicked.trans h.goesOn
  embedded := hembedded.trans h.embedded
  frame := by
    obtain ⟨status, length, hframe⟩ := h.frame
    exact ⟨_, _, by rw [hhs, hframe]⟩
  -- the call itself has no code, so the last one is in front of it
  status := by
    rw [hhs, upToSend_concat, if_pos hsends, lastCode_concat, hcode, Option.getD_none, h.code,
      List.any_append, List.any_cons, hsends, Bool.true_or, Bool.or_true, if_pos rfl]
  length := by
    rw [hhs, lastBody_concat, h.length]
    cases c.body <;> rfl
  code := by
    rw [hstatus, h.code, lastCode_concat, hcode, Option.getD_none]
  size := by
    rw [hsize, h.size_eq.2, List.any_append, List.any_cons, hsends, Bool.true_or, Bool.or_true,
      if_pos rfl, List.map_append, List.map_cons, List.map_nil, List.sum_append, List.sum_singleton]
    push_cast
    rfl
  isOpen := hopen.trans h.isOpen

/-- One more call, which is not passed on to the embedded writer. -/
theorem CallsLeave.step (h : CallsLeave calls hs isOpen s) {c : WriterCall}
    (hc : c.embedded = false) : CallsLeave (calls ++ [c]) hs isOpen (runCall s c) := by
  unfold runCall
  rw [if_neg (by rw [h.goesOn]; exact Bool.false_ne_true)]
  cases c with
  | header | status | size | written | pusher => exact h.quiet rfl rfl rfl rfl rfl rfl rfl rfl
  | hijack | closeNotify | flush => cases hc
  | writeHeader code =>
      refine h.quiet rfl rfl rfl rfl rfl rfl ?_ ?_
      · show (s.writer.core.writeHeader code).size = _
        unfold ResponseWriter.writeHeader
        split <;> rfl
      · show (s.writer.core.writeHeader code).status =
          (if code > 0 then some code else none).getD s.writer.core.status
        unfold ResponseWriter.writeHeader
        by_cases hpos : code > 0
        · rw [if_pos hpos, Option.getD_some]
          -- a code that is the status already is not stored again
          split
          · rfl
          · next hsame => exact not_not.mp fun hne => hsame ⟨hpos, hne⟩
        · rw [if_neg hpos, if_neg fun hboth => hpos hboth.1]
          rfl
  | writeHeaderNow =>
      refine h.send rfl rfl rfl rfl rfl rfl ?_ ?_
      · exact (size_writeHeaderNow s.writer.core h.size_eq.1).trans (Int.add_zero _).symm
      · show (if s.writer.core.written then s.writer.core else _).status = _
        split <;> rfl
  | write data accepted | writeString data accepted =>
      refine h.send rfl rfl rfl rfl rfl (writerOpen_write ..) ?_ ?_
      · show (s.writer.core.write s.hs s.world data accepted).1.size = _
        rw [size_write _ _ _ _ _ h.size_eq.1, h.isOpen]
        rfl
      · show (if s.writer.core.written then s.writer.core else _).status = _
        split <;> rfl

end Step

theorem runCalls_concat (s : CallState) (calls : List WriterCall) (c : WriterCall) :
    runCalls s (calls ++ [c]) = runCall (runCalls s calls) c := by
  rw [runCalls, List.foldl_concat, runCalls]

theorem runCall_of_panicked {s : CallState} {c : WriterCall} (h : s.panicked = true) :
    runCall s c = s := by
  unfold runCall
  rw [if_pos h]

theorem embeddedAs_panics {s : CallState} (h : s.writer.embedded = false) :
    s.embeddedAs.panicked = true := by
  rw [CallState.embeddedAs, h]
  rfl

theorem runCall_embedded {s : CallState} {c : WriterCall} (hgoes : s.panicked = false)
    (hnil : s.writer.embedded = false) (hc : c.embedded = true) : (runCall s c).panicked = true := by
  unfold runCall
  rw [if_neg (by rw [hgoes]; exact Bool.false_ne_true)]
  cases c with
  | hijack | closeNotify | flush => exact embeddedAs_panics hnil
  | header | writeHeader | writeHeaderNow | write | writeString | status | size | written
  | pusher => cases hc

/-- What calls that are not passed on leave. -/
theorem callsLeave_run {calls : List WriterCall} (hs : HttpStream) (w : World)
    (h : calls.any WriterCall.embedded = false) :
    CallsLeave calls hs (writerOpen hs w) (runCalls (.start hs w) calls) := by
  induction calls using List.reverseRecOn with
  | nil => exact ⟨rfl, rfl, ⟨_, _, rfl⟩, rfl, rfl, rfl, rfl, rfl⟩
  | append_singleton calls c ih =>
      rw [List.any_append, List.any_cons, List.any_nil, Bool.or_false, Bool.or_eq_false_iff] at h
      rw [runCalls_concat]
      exact (ih h.1).step h.2

theorem panicked_run (calls : List WriterCall) (hs : HttpStream) (w : World) :
    (runCalls (.start hs w) calls).panicked = calls.any WriterCall.embedded := by
  induction calls using List.reverseRecOn with
  | nil => rfl
  | append_singleton calls c ih =>
      rw [runCalls_concat, List.any_append, List.any_cons, List.any_nil, Bool.or_false]
      cases hany : calls.any WriterCall.embedded with
      | true =>
          -- nothing happens after a panic
          rw [hany] at ih
          rw [Bool.true_or, runCall_of_panicked ih]
          exact ih
      | false =>
          have hleave := callsLeave_run hs w hany
          rw [Bool.false_or]
          cases hc : c.embedded with
          | true => exact runCall_embedded hleave.goesOn hleave.embedded hc
          | false => exact (hleave.step hc).goesOn

/-- **Whatever calls a handler makes, it panics exactly if one of them gets to the embedded writer.  Else
the status of the stream is the last code in front of the last call that sends it, or 0; the length is
that of the last body write; the size is the total of the bytes written; and nothing else is another,
in particular no header of the response.** -/
theorem calls_leave (calls : List WriterCall) (hs : HttpStream) (w : World) :
    (runCalls (.start hs w) calls).panicked = calls.any WriterCall.embedded ∧
      (calls.any WriterCall.embedded = false →
        CallsLeave calls hs (writerOpen hs w) (runCalls (.start hs w) calls)) :=
  ⟨panicked_run calls hs w, callsLeave_run hs w⟩

/-- A handler asks for the headers, sets a code, and writes twice. -/
theorem calls_leave_twice : (runCalls (.start waitingStream socketWorld)
      [.header fun h => h ++ [(ascii "Etag", [ascii "x"])], .writeHeader 404, .writeString (ascii "ab") 2,
        .write (ascii "c") 1, .size]).hs.response =
    { waitingStream.response with httpStatus := some (ascii "404"), contentLenght := 1 } := by
  have h := (calls_leave [.header fun h => h ++ [(ascii "Etag", [ascii "x"])], .writeHeader 404,
    .writeString (ascii "ab") 2, .write (ascii "c") 1, .size] waitingStream socketWorld).2 rfl
  obtain ⟨status, length, hframe⟩ := h.frame
  have hstatus := h.status
  have hlength := h.length
  rw [hframe] at hstatus hlength ⊢
  exact congrArg₂ (fun status length =>
    ({ waitingStream.response with httpStatus := status, contentLenght := length } : HttpResponse))
    hstatus hlength

/-! ## The bridge -/

/-- The call does not send the status by itself, and is not passed on to the embedded writer. -/
def WriterCall.plain : WriterCall → Bool
  | .writeHeaderNow | .hijack | .closeNotify | .flush => false
  | _ => true

/-- The handler that makes the calls of `Write`, `WriteString` and `WriteHeader` alone. -/
def plainHandler (handler : GoRequest → List WriterCall) : Handler :=
  fun request => (handler request).filterMap WriterCall.op

/-- With plain calls the other ones change nothing. -/
theorem runCalls_plain {calls : List WriterCall} (hplain : ∀ c ∈ calls, c.plain = true)
    {s : CallState} (hgoes : s.panicked = false) :
    (runCalls s calls).panicked = false ∧
      ((runCalls s calls).writer.core, (runCalls s calls).hs, (runCalls s calls).world) =
        runHandler (calls.filterMap WriterCall.op) s.writer.core s.hs s.world := by
  induction calls generalizing s with
  | nil => exact ⟨hgoes, rfl⟩
  | cons c calls ih =>
      obtain ⟨hc, hcalls⟩ := List.forall_mem_cons.mp hplain
      have hcall : runCalls s (c :: calls) = runCalls (runCall s c) calls := rfl
      rw [hcall]
      unfold runCall
      rw [if_neg (by rw [hgoes]; exact Bool.false_ne_true)]
      cases c with
      | header | status | size | written | pusher => exact ih hcalls hgoes
      | writeHeader code => exact ih hcalls hgoes
      | write data accepted | writeString data accepted => exact ih hcalls hgoes
      | writeHeaderNow | hijack | closeNotify | flush => cases hc

theorem any_isWrite_plainHandler (calls : List WriterCall) :
    (calls.filterMap WriterCall.op).any HandlerOp.isWrite = calls.any WriterCall.writes := by
  rw [List.any_filterMap]
  congr 1
  funext c
  cases c <;> rfl

/-- **`Go_golang` ends the process exactly if it gets to a module that is not there, or whose handler
makes a call that is passed on to the embedded writer.  With handlers that do not, and leave the status
to their writes, it does what it does with their calls of `Write`, `WriteString` and `WriteHeader`
alone.** -/
theorem bridge_refines (newRequest : Bytes → Bytes → Bool)
    (golangModules : Bytes → Option (GoRequest → List WriterCall)) (evtimerAdd : Bool)
    (hs : HttpStream) (module : Bytes) (w : World) :
    ((goGolangCalls newRequest golangModules hs module w).fault = true ↔
      newRequest (goRequest hs.request).method (goRequest hs.request).url = true ∧
        ∀ handler, golangModules module = some handler →
          ∃ c ∈ handler (goRequest hs.request), c.embedded = true) ∧
    ((∀ handler, golangModules module = some handler →
        ∀ c ∈ handler (goRequest hs.request), c.plain = true) →
      goGolangCalls newRequest golangModules hs module w =
        goGolang ⟨newRequest, fun m => (golangModules m).map plainHandler, evtimerAdd⟩ hs module w) := by
  unfold goGolangCalls goGolang
  dsimp only
  by_cases hnew : newRequest (goRequest hs.request).method (goRequest hs.request).url = true
  · have hgoes : ¬ (!newRequest (goRequest hs.request).method (goRequest hs.request).url) = true := by
      rw [hnew]
      exact Bool.false_ne_true
    rw [if_neg hgoes, if_neg hgoes, hnew]
    cases hmodule : golangModules module with
    | none => exact ⟨by simp, fun _ => rfl⟩
    | some handler =>
        refine ⟨?_, fun hplain => ?_⟩
        · show (runCalls _ _).panicked = true ↔ _
          rw [panicked_run, List.any_eq_true]
          simp
        · let s := runCalls (.start hs w) (handler (goRequest hs.request))
          have hlives : s.panicked = false := (runCalls_plain (hplain handler rfl) rfl).1
          have hrun : (s.writer.core, s.hs, s.world) =
              runHandler (plainHandler handler (goRequest hs.request)) .init hs w :=
            (runCalls_plain (hplain handler rfl) rfl).2
          -- the descriptor that is closed is the one the writer was set up with
          obtain ⟨⟨status, length, hframe⟩, -⟩ :=
            runHandler_frame (plainHandler handler (goRequest hs.request)) .init hs w
          have hfd : (runHandler (plainHandler handler (goRequest hs.request)) .init hs
              w).2.1.response.fd = hs.response.fd := by rw [hframe]
          dsimp only [Option.map_some]
          rw [hfd, ← hrun, hlives, plainHandler, any_isWrite_plainHandler]
  · have hrefused : (!newRequest (goRequest hs.request).method (goRequest hs.request).url) = true := by
      rw [Bool.eq_false_iff.mpr hnew]
      rfl
    rw [if_pos hrefused, if_pos hrefused]
    exact ⟨by simp [hnew], fun _ => rfl⟩

end Gfhttpd.Modules
