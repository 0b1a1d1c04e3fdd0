import Gfhttpd.Http.Stream
import Gfhttpd.Router.World

/-!
# Go modules (`modules/golang/bridge.go`, `modules/golang/response_writer.go`)

`Go_golang` builds a request from the `http_stream`, looks the module up, and lets its handler
work on a `responseWriter` over the response descriptor.  A handler is what it does with the
writer, as a function of the request it is given.

- `newRequest` says whether `http.NewRequest` accepts a method and an URL
- a module that is not in the map is a `nil` handler, and calling it ends the process
-/

namespace Gfhttpd.Modules

open Http

/-! ## Handlers -/

/-- The calls of a handler on its `http.ResponseWriter`.  `Write` and `WriteString` do the same
with their bytes; `accepted` is how many of them the descriptor takes. -/
inductive HandlerOp where
  | writeHeader (code : ℤ)
  | write (data : Bytes) (accepted : ℕ)
deriving DecidableEq, Repr

/-- The call writes a body. -/
def HandlerOp.isWrite : HandlerOp → Bool
  | .writeHeader _ => false
  | .write _ _ => true

/-- The `http.Request` a handler sees. -/
structure GoRequest where
  method : Bytes
  url : Bytes
  header : List (Bytes × Bytes)
deriving DecidableEq, Repr

abbrev Handler := GoRequest → List HandlerOp

/-- What a module run is answered. -/
structure ModuleIO where
  newRequest : Bytes → Bytes → Bool
  /-- `golang_modules` -/
  golangModules : Bytes → Option Handler
  evtimerAdd : Bool

/-! ## The response writer -/

/-- `noWritten`. -/
def noWritten : ℤ := -1

/-- The fields of `responseWriter` that its methods change. -/
structure ResponseWriter where
  size : ℤ
  status : ℤ
deriving DecidableEq, Repr

/-- The writer `Go_golang` sets up. -/
def ResponseWriter.init : ResponseWriter := ⟨noWritten, 0⟩

/-- `Written`. -/
def ResponseWriter.written (rw : ResponseWriter) : Bool :=
  rw.size != noWritten

/-- The decimal digits of an integer. -/
def formatInt (z : ℤ) : Bytes :=
  ascii (toString z)

/-- `WriteHeader`. -/
def ResponseWriter.writeHeader (rw : ResponseWriter) (code : ℤ) : ResponseWriter :=
  if code > 0 ∧ rw.status ≠ code then { rw with status := code } else rw

/-- `WriteHeaderNow`: the writer, and the string `*char_status` is set to. -/
def ResponseWriter.writeHeaderNow (rw : ResponseWriter) : ResponseWriter × Bytes :=
  (if rw.written then rw else { rw with size := 0 }, formatInt rw.status)

/-- `Write` and `WriteString`, on the stream and the descriptor the writer was set up with.  A
closed descriptor takes nothing. -/
def ResponseWriter.write (rw : ResponseWriter) (hs : HttpStream) (w : World) (data : Bytes)
    (accepted : ℕ) : ResponseWriter × HttpStream × World :=
  let fd := hs.response.fd
  match rw.writeHeaderNow with
  | (rw, status) =>
      let n := if (w.fds[fd]?.map Fd.closes) = some 0 then min accepted data.length else 0
      ({ rw with size := rw.size + n },
        { hs with
          response := { hs.response with
            -- the length of this call, not of the body so far
            contentLenght := toSizeT data.length
            httpStatus := some status } },
        w.writeFd fd (data.take n))

/-- The calls of a handler, one after the other. -/
def runHandler : List HandlerOp → ResponseWriter → HttpStream → World →
    ResponseWriter × HttpStream × World
  | [], rw, hs, w => (rw, hs, w)
  | .writeHeader code :: ops, rw, hs, w => runHandler ops (rw.writeHeader code) hs w
  | .write data accepted :: ops, rw, hs, w =>
      match rw.write hs w data accepted with
      | (rw, hs, w) => runHandler ops rw hs w

/-! ## The bridge -/

/-- `C.GoString`: `NULL` is the empty string. -/
def goString (s : Option Bytes) : Bytes :=
  s.getD []

/-- The request `Go_golang` builds. -/
def goRequest (r : HttpRequest) : GoRequest where
  method := goString r.method
  url := goString r.modulesUrl
  header := r.headers.map fun h => (h.name, h.value)

/-- How `Go_golang` ends.  `answer` is the status and the length the handler left in the
response, if it wrote any. -/
structure GoResult where
  ret : ℤ
  hs : HttpStream
  world : World
  answer : Option (Bytes × ℕ)
  fault : Bool

/-- `Go_golang`. -/
def goGolang (io : ModuleIO) (hs : HttpStream) (module : Bytes) (w : World) : GoResult :=
  let request := goRequest hs.request
  if !io.newRequest request.method request.url then ⟨-1, hs, w, none, false⟩
  else
    match io.golangModules module with
    | none => ⟨0, hs, w, none, true⟩
    | some handler =>
        match runHandler (handler request) .init hs w with
        | (_, hs, w) =>
            let answer :=
              if (handler request).any HandlerOp.isWrite then
                some (hs.response.httpStatus.getD [], hs.response.contentLenght)
              else none
            -- `defer responsewriter.fd.Close()`
            ⟨0, hs, w.closeFd hs.response.fd, answer, false⟩

/-! ## What a handler changes -/

/-- The response after a handler: a handler that writes sets the status and the length, any
other leaves them alone.  `answer` is what `goGolang` reports. -/
structure Answers (hs hs' : HttpStream) (answer : Option (Bytes × ℕ)) : Prop where
  stream : ∃ status length, hs' =
    { hs with response := { hs.response with httpStatus := status, contentLenght := length } }
  silent : answer = none → hs' = hs
  written : ∀ status length, answer = some (status, length) →
    hs'.response.httpStatus = some status ∧ hs'.response.contentLenght = length

theorem Answers.refl (hs : HttpStream) : Answers hs hs none :=
  ⟨⟨_, _, rfl⟩, fun _ => rfl, by simp⟩

/-- A handler changes the status and the length of the response, and writes to descriptors. -/
theorem runHandler_frame (ops : List HandlerOp) (rw : ResponseWriter) (hs : HttpStream)
    (w : World) :
    (∃ status length, (runHandler ops rw hs w).2.1 =
      { hs with response := { hs.response with httpStatus := status, contentLenght := length } }) ∧
    w.Grows (runHandler ops rw hs w).2.2 := by
  induction ops generalizing rw hs w with
  | nil => exact ⟨⟨_, _, rfl⟩, World.Grows.refl w⟩
  | cons op ops ih =>
      cases op with
      | writeHeader code => exact ih (rw.writeHeader code) hs w
      | write data accepted =>
          obtain ⟨⟨status, length, hhs⟩, hw⟩ := ih (rw.write hs w data accepted).1
            (rw.write hs w data accepted).2.1 (rw.write hs w data accepted).2.2
          exact ⟨⟨status, length, hhs⟩, (World.writeFd_grows w _ _).trans hw⟩

/-- A handler that does not write leaves the response alone. -/
theorem runHandler_silent (ops : List HandlerOp) (rw : ResponseWriter) (hs : HttpStream)
    (w : World) (h : ops.any HandlerOp.isWrite = false) : (runHandler ops rw hs w).2.1 = hs := by
  induction ops generalizing rw with
  | nil => rfl
  | cons op ops ih =>
      cases op with
      | writeHeader code => exact ih (rw.writeHeader code) (by simpa [HandlerOp.isWrite] using h)
      | write data accepted => simp [HandlerOp.isWrite] at h

/-- A handler that writes sets a status. -/
theorem runHandler_status (ops : List HandlerOp) (rw : ResponseWriter) (hs : HttpStream)
    (w : World) (h : ops.any HandlerOp.isWrite = true ∨ hs.response.httpStatus.isSome) :
    (runHandler ops rw hs w).2.1.response.httpStatus.isSome := by
  induction ops generalizing rw hs w with
  | nil => simpa [runHandler] using h
  | cons op ops ih =>
      cases op with
      | writeHeader code =>
          exact ih (rw.writeHeader code) hs w (by simpa [HandlerOp.isWrite] using h)
      | write data accepted => exact ih _ _ _ (Or.inr rfl)

/-- What `goGolang` leaves behind. -/
theorem goGolang_frame (io : ModuleIO) (hs : HttpStream) (module : Bytes) (w : World) :
    Answers hs (goGolang io hs module w).hs (goGolang io hs module w).answer ∧
    ((goGolang io hs module w).world = w ∨
      ∃ w', w.Grows w' ∧ (goGolang io hs module w).world = w'.closeFd hs.response.fd) := by
  unfold goGolang
  simp only
  split
  · exact ⟨Answers.refl hs, Or.inl rfl⟩
  · split
    · exact ⟨Answers.refl hs, Or.inl rfl⟩
    · next handler _ =>
        obtain ⟨hstream, hw⟩ := runHandler_frame (handler (goRequest hs.request)) .init hs w
        have hsilent := runHandler_silent (handler (goRequest hs.request)) .init hs w
        have hstatus := runHandler_status (handler (goRequest hs.request)) .init hs w
        generalize runHandler (handler (goRequest hs.request)) .init hs w = r
          at hstream hw hsilent hstatus ⊢
        obtain ⟨rw, hs', w'⟩ := r
        refine ⟨⟨hstream, ?_, ?_⟩, Or.inr ⟨w', hw, ?_⟩⟩
        · intro hnone
          by_cases hany : (handler (goRequest hs.request)).any HandlerOp.isWrite = true
          · simp [hany] at hnone
          · exact hsilent (by simpa using hany)
        · intro status length hsome
          by_cases hany : (handler (goRequest hs.request)).any HandlerOp.isWrite = true
          · obtain ⟨s, hs⟩ := Option.isSome_iff_exists.mp (hstatus (Or.inl hany))
            simp only [hany, if_true, Option.some.injEq, Prod.mk.injEq] at hsome
            simp only at hs
            exact ⟨by rw [hs, ← hsome.1, hs]; rfl, hsome.2⟩
          · simp [hany] at hsome
        · obtain ⟨status, length, heq⟩ := hstream
          simp only at heq
          rw [heq]

end Gfhttpd.Modules
