import Gfhttpd.Modules.Golang

/-!
# The body of a module's answer

A handler may write its body in any number of calls.  Each call of `Write` sets the content
length to its own number of bytes, so the length that is left is that of the last call:

- `runHandler_body`: the bytes that arrive and the length that is left
- `announced_iff`: the two agree exactly if the last call writes the whole body
-/

namespace Gfhttpd.Modules

open Http

/-! ## Bodies -/

/-- The bytes a call writes. -/
def HandlerOp.data : HandlerOp → Bytes
  | .writeHeader _ => []
  | .write data _ => data

/-- The descriptor takes all the bytes of the call. -/
def HandlerOp.Complete : HandlerOp → Prop
  | .writeHeader _ => True
  | .write data accepted => data.length ≤ accepted

instance : (op : HandlerOp) → Decidable op.Complete
  | .writeHeader _ => .isTrue trivial
  | .write data accepted => inferInstanceAs (Decidable (data.length ≤ accepted))

/-- The body a handler writes. -/
def bodyOf (ops : List HandlerOp) : Bytes :=
  ops.flatMap HandlerOp.data

/-- The length a handler leaves, over the length there was before. -/
def lengthAfter : ℕ → List HandlerOp → ℕ
  | length, [] => length
  | length, .writeHeader _ :: ops => lengthAfter length ops
  | _, .write data _ :: ops => lengthAfter (toSizeT data.length) ops

/-- The bytes of the last write, if there is one. -/
def lastWrite : List HandlerOp → Option Bytes
  | [] => none
  | .writeHeader _ :: ops => lastWrite ops
  | .write data _ :: ops => (lastWrite ops).or (some data)

theorem lengthAfter_eq (length : ℕ) (ops : List HandlerOp) : lengthAfter length ops =
    ((lastWrite ops).map fun data => toSizeT (data.length : ℤ)).getD length := by
  induction ops generalizing length with
  | nil => rfl
  | cons op ops ih =>
      cases op with
      | writeHeader code => exact ih length
      | write data accepted =>
          simp only [lengthAfter, lastWrite, ih]
          cases lastWrite ops <;> rfl

theorem bodyOf_eq_nil_of_lastWrite {ops : List HandlerOp} (h : lastWrite ops = none) :
    bodyOf ops = [] := by
  induction ops with
  | nil => rfl
  | cons op ops ih =>
      cases op with
      | writeHeader code => exact ih h
      | write data accepted =>
          rw [lastWrite, Option.or_eq_none_iff] at h
          cases h.2

theorem length_lastWrite_le {ops : List HandlerOp} {data : Bytes} (h : lastWrite ops = some data) :
    data.length ≤ (bodyOf ops).length := by
  induction ops generalizing data with
  | nil => cases h
  | cons op ops ih =>
      rw [bodyOf, List.flatMap_cons, List.length_append]
      cases op with
      | writeHeader code => exact (ih h).trans (Nat.le_add_left _ _)
      | write first accepted =>
          rw [lastWrite] at h
          cases hlast : lastWrite ops with
          | none =>
              rw [hlast] at h
              obtain rfl : first = data := Option.some.inj h
              exact Nat.le_add_right _ _
          | some last =>
              rw [hlast] at h
              obtain rfl : last = data := Option.some.inj h
              exact (ih hlast).trans (Nat.le_add_left _ _)

/-! ## The descriptor of the response -/

/-- The response descriptor is the open end of a socket pair. -/
structure OpenEnd (w : World) (fd peer : ℕ) (there : Fd) : Prop where
  ne : fd ≠ peer
  here : ∃ own, w.fds[fd]? = some own ∧ own.peer = some peer ∧ own.closes = 0
  there : w.fds[peer]? = some there

/-- Writing to the open end of a socket pair. -/
theorem OpenEnd.writeFd {w : World} {fd peer : ℕ} {there : Fd} (h : OpenEnd w fd peer there)
    (b : Bytes) : OpenEnd (w.writeFd fd b) fd peer { there with content := there.content ++ b } := by
  obtain ⟨own, hown, hpeer, hopen⟩ := h.here
  have heq : w.writeFd fd b = w.modifyFd peer fun f => { f with content := f.content ++ b } := by
    unfold World.writeFd
    rw [hown, Option.bind_some, hpeer]
  rw [heq]
  refine ⟨h.ne, ⟨own, ?_, hpeer, hopen⟩, ?_⟩
  · show (w.fds.modify peer _)[fd]? = some own
    rw [List.getElem?_modify, hown]
    simp [Ne.symm h.ne]
  · show (w.fds.modify peer _)[peer]? = some _
    rw [List.getElem?_modify, h.there]
    simp

/-- What a handler leaves when all its writes complete: its body at the other end of the socket
pair, and the length of its last write. -/
theorem runHandler_body (ops : List HandlerOp) (rw : ResponseWriter) {hs : HttpStream} {w : World}
    {peer : ℕ} {there : Fd} (hopen : OpenEnd w hs.response.fd peer there)
    (hcomplete : ∀ op ∈ ops, op.Complete) :
    OpenEnd (runHandler ops rw hs w).2.2 hs.response.fd peer
        { there with content := there.content ++ bodyOf ops } ∧
      (runHandler ops rw hs w).2.1.response.contentLenght =
        lengthAfter hs.response.contentLenght ops := by
  -- on the calls; the other end collects what was written before
  induction ops generalizing rw hs w there with
  | nil =>
      refine ⟨?_, rfl⟩
      rw [bodyOf, List.flatMap_nil, List.append_nil]
      exact hopen
  | cons op ops ih =>
      have hrest : ∀ op ∈ ops, op.Complete := fun op hop =>
        hcomplete op (List.mem_cons_of_mem _ hop)
      cases op with
      | writeHeader code => exact ih (rw.writeHeader code) hopen hrest
      | write data accepted =>
          obtain ⟨own, hown, -, hcloses⟩ := hopen.here
          have hall : data.length ≤ accepted := hcomplete _ (List.mem_cons_self ..)
          -- the descriptor is open and takes everything
          have htaken : (rw.write hs w data accepted).2.2 = w.writeFd hs.response.fd data := by
            simp only [ResponseWriter.write, ResponseWriter.writeHeaderNow, hown, Option.map_some,
              hcloses, if_true, Nat.min_eq_right hall, List.take_length]
          have hopen' : OpenEnd (rw.write hs w data accepted).2.2
              (rw.write hs w data accepted).2.1.response.fd peer
              { there with content := there.content ++ data } := by
            rw [htaken]
            exact hopen.writeFd data
          have hafter := ih (rw.write hs w data accepted).1 hopen' hrest
          rw [List.append_assoc] at hafter
          exact hafter

/-! ## The length of the response -/

/-- The content length of the response is the number of bytes that a module run put into the
other end of the socket pair, and not the value for 'not ready'. -/
def Announced (w : World) (peer : ℕ) (r : GoResult) : Prop :=
  r.hs.response.contentLenght ≠ SIZE_MAX ∧
    ((r.world.fds[peer]?).map fun fd => fd.content.length) =
      (w.fds[peer]?).map fun fd => fd.content.length + r.hs.response.contentLenght

/-- The last call of `Write` has the whole body; a handler that does not write finds the length
0. -/
def WritesAtOnce (length : ℕ) (ops : List HandlerOp) : Prop :=
  match lastWrite ops with
  | none => length = 0
  | some data => data.length = (bodyOf ops).length ∧ data.length < SIZE_MAX

instance (length : ℕ) (ops : List HandlerOp) : Decidable (WritesAtOnce length ops) := by
  unfold WritesAtOnce
  split <;> infer_instance

theorem lengthAfter_iff (length : ℕ) (ops : List HandlerOp) :
    (lengthAfter length ops ≠ SIZE_MAX ∧ (bodyOf ops).length = lengthAfter length ops) ↔
      WritesAtOnce length ops := by
  unfold WritesAtOnce
  rw [lengthAfter_eq]
  cases hlast : lastWrite ops with
  | none =>
      rw [bodyOf_eq_nil_of_lastWrite hlast]
      simp only [Option.map_none, Option.getD_none, List.length_nil]
      constructor
      · exact fun h => h.2.symm
      · rintro rfl
        exact ⟨by decide, rfl⟩
  | some data =>
      -- `size_t` keeps the length, unless the body is as long as `SIZE_MAX`
      have hle := length_lastWrite_le hlast
      simp only [Option.map_some, Option.getD_some, toSizeT, SIZE_MAX]
      omega

/-- **After a run of a handler whose writes all complete, the content length is the number of
body bytes exactly if the last call of `Write` has the whole body.** -/
theorem announced_iff {io : ModuleIO} {hs : HttpStream} {module : Bytes} {w : World}
    {handler : Handler} {peer : ℕ} {there : Fd}
    (hrequest : io.newRequest (goRequest hs.request).method (goRequest hs.request).url = true)
    (hmodule : io.golangModules module = some handler)
    (hopen : OpenEnd w hs.response.fd peer there)
    (hcomplete : ∀ op ∈ handler (goRequest hs.request), op.Complete) :
    Announced w peer (goGolang io hs module w) ↔
      WritesAtOnce hs.response.contentLenght (handler (goRequest hs.request)) := by
  obtain ⟨hbody, hlength⟩ := runHandler_body (handler (goRequest hs.request)) .init hopen hcomplete
  have hframe := (runHandler_frame (handler (goRequest hs.request)) .init hs w).1
  rw [← lengthAfter_iff]
  unfold Announced goGolang
  simp only [hrequest, hmodule, Bool.not_true, Bool.false_eq_true, if_false]
  generalize runHandler (handler (goRequest hs.request)) .init hs w = r at hbody hlength hframe ⊢
  obtain ⟨rw, hs', w'⟩ := r
  -- closing the response descriptor leaves the other end alone
  have hthere : (w'.closeFd hs'.response.fd).fds[peer]? =
      some { there with content := there.content ++ bodyOf (handler (goRequest hs.request)) } := by
    obtain ⟨status, length, heq⟩ := hframe
    have hfd : hs'.response.fd = hs.response.fd := by
      rw [show hs' = _ from heq]
    show (w'.fds.modify hs'.response.fd _)[peer]? = _
    rw [hfd, List.getElem?_modify]
    simpa [hopen.ne] using hbody.there
  simp only at hlength
  rw [hthere, hopen.there, ← hlength]
  simp

/-- A stream with the second end of a socket pair, whose length is not ready. -/
def waitingStream : HttpStream :=
  { HttpStream.zero with
    response := { HttpStream.zero.response with fd := 1, contentLenght := SIZE_MAX } }

/-- Two ends of a socket pair. -/
def socketWorld : World :=
  (World.init.openFd ⟨.socket, [], 0, some 1, 0⟩).openFd ⟨.socket, [], 0, some 0, 0⟩

/-- The answers for a module with this handler. -/
def runsHandler (ops : List HandlerOp) : ModuleIO where
  newRequest _ _ := true
  golangModules _ := some fun _ => ops
  evtimerAdd := true

theorem socketWorld_openEnd :
    OpenEnd socketWorld waitingStream.response.fd 0 ⟨.socket, [], 0, some 1, 0⟩ :=
  ⟨by decide, ⟨_, rfl, rfl, rfl⟩, rfl⟩

/-- A handler that sets a status and writes once. -/
theorem announced_once : Announced socketWorld 0
    (goGolang (runsHandler [.writeHeader 201, .write (ascii "hello") 5]) waitingStream []
      socketWorld) :=
  (announced_iff rfl rfl socketWorld_openEnd (by decide)).mpr (by decide)

/-- A handler that writes twice. -/
theorem not_announced_twice : ¬ Announced socketWorld 0
    (goGolang (runsHandler [.write (ascii "hello ") 6, .write (ascii "you") 3]) waitingStream []
      socketWorld) := by
  rintro ⟨-, hlength⟩
  exact absurd hlength (by decide)

end Gfhttpd.Modules
