import Gfhttpd.Basic.Bytes
import Gfhttpd.Lib.Transition

/-!
# The body of an HTTP/2 response (`main/http2/event_cb.c`)

`nghttp2` asks `file_read_callback` for the next piece of a body.  A `read` that returns 0 is the end of
the body only if `errno` is not `EAGAIN` at that time, and a successful `read` leaves `errno` as the
last failed one has set it.

- `fileReadCallback` is one call, with the results of all its reads
- `bodyMachine`: the calls for one body
- `body_streamed_iff`: the sequences of results that are streamed as they should
-/

namespace Gfhttpd.Http2

open Transition

/-! ## Results of `read` -/

/-- What a `read` does: it returns these bytes, none of them at the end of the file, or it returns -1
and sets `errno`. -/
inductive ReadOutcome where
  | returned (bytes : Bytes)
  | failed (errno : ℤ)
deriving DecidableEq, Repr

/-- `EINTR`. -/
def EINTR : ℤ := 4

/-- `EAGAIN`. -/
def EAGAIN : ℤ := 11

/-- `EWOULDBLOCK`, which is the same number. -/
def EWOULDBLOCK : ℤ := 11

/-- `NGHTTP2_ERR_TEMPORAL_CALLBACK_FAILURE`. -/
def NGHTTP2_ERR_TEMPORAL_CALLBACK_FAILURE : ℤ := -521

namespace ReadOutcome

/-- `r`. -/
def ret : ReadOutcome → ℤ
  | returned bytes => bytes.length
  | failed _ => -1

/-- The bytes a `read` delivers. -/
def bytes : ReadOutcome → Bytes
  | returned bytes => bytes
  | failed _ => []

/-- `errno` after a `read`. -/
def errnoAfter : ReadOutcome → ℤ → ℤ
  | returned _, errno => errno
  | failed errno, _ => errno

end ReadOutcome

/-! ## The callback -/

/-- A call of `file_read_callback`: its last `read`, the value it returns, the piece of the body
that `nghttp2` takes from the buffer, and whether `NGHTTP2_DATA_FLAG_EOF` is set. -/
structure FileRead where
  last : ReadOutcome
  ret : ℤ
  chunk : Bytes
  eof : Bool
deriving DecidableEq, Repr

/-- The end of `file_read_callback`, behind its loop. -/
def finishRead (errno : ℤ) (o : ReadOutcome) : FileRead :=
  if o.ret < 0 ∧ (errno = EAGAIN ∨ errno = EWOULDBLOCK) then ⟨o, 0, [], false⟩
  else if o.ret = -1 then ⟨o, NGHTTP2_ERR_TEMPORAL_CALLBACK_FAILURE, [], false⟩
  -- meant as neither of the two; it is as good as `errno != EAGAIN`
  else if o.ret = 0 ∧ (errno ≠ EAGAIN ∨ errno ≠ EWOULDBLOCK) then ⟨o, o.ret, o.bytes, true⟩
  else ⟨o, o.ret, o.bytes, false⟩

/-- `file_read_callback` for a buffer of `length` bytes: the call, and `errno` after it.  It uses up the
results; `none` is a loop that has not ended with them, or more bytes than the buffer holds. -/
def fileReadCallback (length : ℕ) : ℤ → List ReadOutcome → Option (FileRead × ℤ)
  | _, [] => none
  | errno, o :: os =>
      if o.bytes.length > length then none
      else
        let errno := o.errnoAfter errno
        if o.ret = -1 ∧ errno = EINTR then fileReadCallback length errno os
        else if os = [] then some (finishRead errno o, errno)
        else none

/-! ## Streaming a body -/

/-- A body in the making: `errno`, and the calls so far. -/
structure BodyStream where
  errno : ℤ
  calls : List FileRead
deriving DecidableEq, Repr

/-- A call of `nghttp2`: the size of its buffer, and the results of the reads. -/
structure ReadCall where
  length : ℕ
  outcomes : List ReadOutcome
deriving DecidableEq, Repr

def bodyStep (s : BodyStream) (call : ReadCall) : Option BodyStream :=
  (fileReadCallback call.length s.errno call.outcomes).map fun r =>
    ⟨r.2, s.calls ++ [r.1]⟩

/-- The calls for one body. -/
def bodyMachine : Machine BodyStream ReadCall := ⟨bodyStep⟩

/-- The pieces of the body are the bytes read, and the end of the file is said in the call that reads
it and in no other. -/
structure BodyStreamed (s : BodyStream) : Prop where
  chunks : s.calls.flatMap FileRead.chunk = s.calls.flatMap fun call => call.last.bytes
  eof : ∀ call ∈ s.calls, call.eof = true ↔ call.last = .returned []

/-- The end of the file is read only while `errno` is not `EAGAIN`. -/
def EofsClean : ℤ → List ReadOutcome → Prop
  | _, [] => True
  | errno, o :: os => (o = .returned [] → errno ≠ EAGAIN) ∧ EofsClean (o.errnoAfter errno) os

instance decidableEofsClean : (errno : ℤ) → (os : List ReadOutcome) → Decidable (EofsClean errno os)
  | _, [] => .isTrue trivial
  | errno, o :: os =>
      have := decidableEofsClean (o.errnoAfter errno) os
      inferInstanceAs (Decidable ((o = .returned [] → errno ≠ EAGAIN) ∧ _))

/-- `errno` after these reads. -/
def errnoAfterAll (errno : ℤ) (os : List ReadOutcome) : ℤ :=
  os.foldl (fun errno o => o.errnoAfter errno) errno

theorem eofsClean_append (errno : ℤ) (os os' : List ReadOutcome) :
    EofsClean errno (os ++ os') ↔ EofsClean errno os ∧ EofsClean (errnoAfterAll errno os) os' := by
  induction os generalizing errno with
  | nil => exact (true_and _).symm ▸ Iff.rfl
  | cons o os ih =>
      rw [List.cons_append, EofsClean, EofsClean, ih, and_assoc]
      rfl

/-! ## One call -/

/-- A `read` that fails delivers nothing and ends nothing. -/
theorem finishRead_failed (errno e : ℤ) : (finishRead errno (.failed e)).last = .failed e ∧
    (finishRead errno (.failed e)).chunk = [] ∧ (finishRead errno (.failed e)).eof = false := by
  have hret : (ReadOutcome.failed e).ret = -1 := rfl
  unfold finishRead
  rw [if_pos hret]
  split
  · exact ⟨rfl, rfl, rfl⟩
  · exact ⟨rfl, rfl, rfl⟩

/-- A `read` of no bytes is the end of the file, unless a `read` before it would have blocked. -/
theorem finishRead_returned (errno : ℤ) (bytes : Bytes) : finishRead errno (.returned bytes) =
    ⟨.returned bytes, bytes.length, bytes, decide (bytes = [] ∧ errno ≠ EAGAIN)⟩ := by
  have hret : (ReadOutcome.returned bytes).ret = bytes.length := rfl
  have hnonneg : ¬ (bytes.length : ℤ) < 0 := Int.not_lt.mpr (Int.natCast_nonneg _)
  have hok : (bytes.length : ℤ) ≠ -1 := by omega
  unfold finishRead
  rw [hret, if_neg fun hboth => hnonneg hboth.1, if_neg hok]
  -- the two error numbers are one
  have hflag : ((bytes.length : ℤ) = 0 ∧ (errno ≠ EAGAIN ∨ errno ≠ EWOULDBLOCK)) ↔
      (bytes = [] ∧ errno ≠ EAGAIN) :=
    and_congr (Int.natCast_eq_zero.trans List.length_eq_zero_iff) or_self_iff
  by_cases hend : bytes = [] ∧ errno ≠ EAGAIN
  · rw [if_pos (hflag.mpr hend), decide_eq_true hend]
    rfl
  · rw [if_neg fun h => hend (hflag.mp h), decide_eq_false hend]
    rfl

/-- The piece of a call is what its last `read` delivered, and the flag is set at the end of the
file. -/
theorem finishRead_spec (errno : ℤ) (o : ReadOutcome) :
    (finishRead errno o).last = o ∧ (finishRead errno o).chunk = o.bytes ∧
      ((finishRead errno o).eof = true ↔ o = .returned [] ∧ errno ≠ EAGAIN) := by
  cases o with
  | failed e =>
      obtain ⟨hlast, hchunk, heof⟩ := finishRead_failed errno e
      rw [hlast, hchunk, heof]
      exact ⟨rfl, rfl, iff_of_false Bool.false_ne_true fun hboth => by cases hboth.1⟩
  | returned bytes =>
      rw [finishRead_returned]
      refine ⟨rfl, rfl, ?_⟩
      rw [decide_eq_true_iff, ReadOutcome.returned.injEq]

/-- A call: its last `read` finds `errno` as the interrupted ones before it have left it. -/
theorem fileReadCallback_spec {length : ℕ} {errno errno' : ℤ} {os : List ReadOutcome}
    {call : FileRead} (h : fileReadCallback length errno os = some (call, errno')) :
    errno' = errnoAfterAll errno os ∧ call.chunk = call.last.bytes ∧
      ((call.eof = true ↔ call.last = .returned []) ↔ EofsClean errno os) := by
  induction os generalizing errno with
  | nil => cases h
  | cons o os ih =>
      simp only [fileReadCallback, Option.ite_none_left_eq_some] at h
      obtain ⟨-, h⟩ := h
      by_cases hagain : o.ret = -1 ∧ o.errnoAfter errno = EINTR
      · -- an interrupted `read` is no end of the file
        rw [if_pos hagain] at h
        obtain ⟨herrno, hchunk, hiff⟩ := ih h
        refine ⟨herrno, hchunk, hiff.trans ?_⟩
        rw [EofsClean]
        refine (and_iff_right fun hend => ?_).symm
        rw [hend] at hagain
        exact absurd hagain.1 (by decide)
      · rw [if_neg hagain, Option.ite_none_right_eq_some, Option.some.injEq, Prod.mk.injEq] at h
        obtain ⟨rfl, rfl, rfl⟩ := h
        obtain ⟨hlast, hchunk, heof⟩ := finishRead_spec (o.errnoAfter errno) o
        refine ⟨rfl, by rw [hchunk, hlast], ?_⟩
        rw [hlast, heof, EofsClean, EofsClean, and_true]
        -- the end of the file leaves `errno` alone
        have hkeep : o = .returned [] → o.errnoAfter errno = errno := by
          rintro rfl
          rfl
        constructor
        · intro hflag hend
          rw [← hkeep hend]
          exact (hflag.mpr hend).2
        · intro hclean
          refine ⟨And.left, fun hend => ⟨hend, ?_⟩⟩
          rw [hkeep hend]
          exact hclean hend

/-! ## All calls -/

/-- Over the calls for a body. -/
theorem bodyStep_streamed {s s' : BodyStream} {call : ReadCall} (h : bodyStep s call = some s') :
    s'.errno = errnoAfterAll s.errno call.outcomes ∧
      (BodyStreamed s' ↔ BodyStreamed s ∧ EofsClean s.errno call.outcomes) := by
  obtain ⟨⟨r, errno⟩, hcall, rfl⟩ := Option.map_eq_some_iff.mp h
  obtain ⟨herrno, hchunk, hiff⟩ := fileReadCallback_spec hcall
  refine ⟨herrno, ?_⟩
  constructor
  · rintro ⟨hchunks, heof⟩
    refine ⟨⟨?_, fun c hc => heof c (List.mem_append_left _ hc)⟩, ?_⟩
    · simpa [List.flatMap_append, hchunk] using hchunks
    · exact hiff.mp (heof r (List.mem_append_right _ (List.mem_singleton.mpr rfl)))
  · rintro ⟨⟨hchunks, heof⟩, hclean⟩
    constructor
    · simpa [List.flatMap_append, hchunk] using hchunks
    · intro c hc
      rcases List.mem_append.mp hc with hc | hc
      · exact heof c hc
      · rw [List.mem_singleton.mp hc]
        exact hiff.mpr hclean

/-- A run from any state. -/
theorem bodyMachine_streamed {run : List ReadCall} {s t : BodyStream}
    (hexec : bodyMachine.exec s run = some t) : BodyStreamed t ↔
      BodyStreamed s ∧ EofsClean s.errno (run.flatMap ReadCall.outcomes) := by
  -- `errno` goes from one call to the next
  induction run generalizing s with
  | nil =>
      obtain rfl : s = t := by simpa using hexec
      exact (and_iff_left trivial).symm
  | cons call run ih =>
      obtain ⟨s', hstep, hrest⟩ := bodyMachine.exec_cons_eq_some.mp hexec
      obtain ⟨herrno, hiff⟩ := bodyStep_streamed hstep
      rw [ih hrest, hiff, herrno, List.flatMap_cons, eofsClean_append, and_assoc]

/-- **Whatever the reads of a body return, and whatever `errno` is at first, the body is streamed as
it was read exactly if no end of the file is read while `errno` is `EAGAIN`.** -/
theorem body_streamed_iff {errno : ℤ} {run : List ReadCall} {s : BodyStream}
    (hexec : bodyMachine.exec ⟨errno, []⟩ run = some s) :
    BodyStreamed s ↔ EofsClean errno (run.flatMap ReadCall.outcomes) := by
  have hstart : BodyStreamed ⟨errno, []⟩ := ⟨rfl, fun call hcall => by cases hcall⟩
  rw [bodyMachine_streamed hexec]
  exact and_iff_right hstart

/-- A would-block, an interrupt and the end of the file. -/
theorem body_streamed_interrupted : ∃ s, bodyMachine.exec ⟨0, []⟩
      [⟨8, [.returned (ascii "hello")]⟩, ⟨8, [.failed EAGAIN]⟩,
        ⟨8, [.failed EINTR, .returned []]⟩] = some s ∧ BodyStreamed s := by
  have hexec : bodyMachine.exec ⟨0, []⟩ [⟨8, [.returned (ascii "hello")]⟩, ⟨8, [.failed EAGAIN]⟩,
      ⟨8, [.failed EINTR, .returned []]⟩] = some _ := rfl
  exact ⟨_, hexec, (body_streamed_iff hexec).mpr (by decide)⟩

/-- A would-block and then the end of the file, which is not said. -/
theorem body_not_streamed : ∃ s, bodyMachine.exec ⟨0, []⟩
      [⟨8, [.failed EAGAIN]⟩, ⟨8, [.returned []]⟩] = some s ∧
    (∀ call ∈ s.calls, call.eof = false) ∧ ¬ BodyStreamed s := by
  refine ⟨_, rfl, by decide, fun hstreamed => ?_⟩
  have hflag := hstreamed.eof ⟨.returned [], 0, [], false⟩ (by decide)
  exact absurd (hflag.mpr rfl) (by decide)

end Gfhttpd.Http2
