import Gfhttpd.Modules.Body

/-!
# The status of a module's answer (`modules/golang/response_writer.go`)

A `responseWriter` remembers a status and how much was written.  `Go_golang` sets one up with the size
-1 and no status, so `defaultStatus` is never its status; `WriteHeader` replaces the status also behind
the first `Write`, and every `Write` sends the status of the moment.

- `formatInt_inj`: the decimal digits of a status determine it
- `statusAfter`, `sizeAfter`: what any sequence of calls leaves
- `writer_kept_iff`: the sequences that leave what `net/http` promises
-/

namespace Gfhttpd.Modules

open Http

/-! ## Decimal digits -/

/-- A string of one-byte characters is determined by its bytes. -/
theorem ascii_inj {s t : String} (hs : ∀ c ∈ s.toList, c.toNat < 256)
    (ht : ∀ c ∈ t.toList, c.toNat < 256) (h : ascii s = ascii t) : s = t := by
  have hback : ∀ u : String, (∀ c ∈ u.toList, c.toNat < 256) →
      (ascii u).map (fun b => Char.ofNat b.toNat) = u.toList := by
    intro u hu
    rw [ascii, List.map_map]
    refine (List.map_congr_left fun c hc => ?_).trans (List.map_id u.toList)
    have hbyte : c.toNat.toUInt8.toNat = c.toNat := Nat.mod_eq_of_lt (hu c hc)
    simp only [Function.comp_apply, hbyte, Char.ofNat_toNat, id_eq]
  apply String.toList_inj.mp
  rw [← hback s hs, ← hback t ht, h]

theorem digit_bounds {n : ℕ} {c : Char} (h : c ∈ Nat.toDigits 10 n) :
    48 ≤ c.toNat ∧ c.toNat ≤ 57 :=
  Char.isDigit_iff_toNat.mp (Nat.isDigit_of_mem_toDigits (by decide) (by decide) h)

/-- The characters of a number: its digits, behind a minus sign if it is negative. -/
theorem toList_toString : ∀ z : ℤ, (toString z).toList =
    if z < 0 then '-' :: Nat.toDigits 10 z.natAbs else Nat.toDigits 10 z.natAbs
  | .ofNat n => by
      rw [if_neg (show ¬ Int.ofNat n < 0 from Int.not_lt.mpr (Int.natCast_nonneg n))]
      exact String.toList_ofList
  | .negSucc n => by
      rw [if_pos (Int.negSucc_lt_zero n)]
      show ("-" ++ Nat.repr (n + 1)).toList = _
      rw [String.toList_append, Nat.repr, String.toList_ofList, String.toList_ofList]
      rfl

theorem formatInt_inj {a b : ℤ} (h : formatInt a = formatInt b) : a = b := by
  have hbyte : ∀ z : ℤ, ∀ c ∈ (toString z).toList, c.toNat < 256 := by
    intro z c hc
    rw [toList_toString] at hc
    split at hc
    · rcases List.mem_cons.mp hc with rfl | hc
      · decide
      · exact (digit_bounds hc).2.trans_lt (by decide)
    · exact (digit_bounds hc).2.trans_lt (by decide)
  -- the digits are read back
  have hdigits : ∀ {m n : ℕ}, Nat.toDigits 10 m = Nat.toDigits 10 n → m = n := by
    intro m n heq
    rw [← Nat.ofDigitChars_ten_toDigits (n := m), heq, Nat.ofDigitChars_ten_toDigits]
  -- a minus sign is no digit
  have hsign : ∀ m n : ℕ, '-' :: Nat.toDigits 10 m ≠ Nat.toDigits 10 n := by
    intro m n heq
    have hmem : '-' ∈ Nat.toDigits 10 n := heq ▸ List.mem_cons_self ..
    exact absurd (digit_bounds hmem).1 (by decide)
  have htext := congrArg String.toList (ascii_inj (hbyte a) (hbyte b) h)
  rw [toList_toString, toList_toString] at htext
  split at htext
  · split at htext
    · have habs := hdigits (List.cons.inj htext).2
      omega
    · exact absurd htext (hsign _ _)
  · split at htext
    · exact absurd htext.symm (hsign _ _)
    · have habs := hdigits htext
      omega

/-! ## The contract -/

/-- How many of its bytes a call writes, on a descriptor that is open or not. -/
def HandlerOp.taken (isOpen : Bool) : HandlerOp → ℕ
  | .writeHeader _ => 0
  | .write data accepted => if isOpen then min accepted data.length else 0

/-- The total of the bytes written. -/
def bytesWritten (isOpen : Bool) : List HandlerOp → ℕ
  | [] => 0
  | op :: ops => op.taken isOpen + bytesWritten isOpen ops

/-- The handler writes a body. -/
def writesBody (ops : List HandlerOp) : Bool :=
  ops.any HandlerOp.isWrite

/-- The code that a handler which writes a body has to leave: that of the first `WriteHeader` if
nothing was written before, else 200. -/
def promisedCode : List HandlerOp → ℤ
  | [] => 200
  | .writeHeader code :: _ => code
  | .write _ _ :: _ => 200

/-- The response descriptor is open. -/
def writerOpen (hs : HttpStream) (w : World) : Bool :=
  (w.fds[hs.response.fd]?.map Fd.closes) == some 0

/-- A handler leaves the status it has to, and its `Size()` is the total of the bytes written. -/
structure WriterKept (ops : List HandlerOp) (hs : HttpStream) (w : World) : Prop where
  status : writesBody ops = true →
    (runHandler ops .init hs w).2.1.response.httpStatus = some (formatInt (promisedCode ops))
  size : (runHandler ops .init hs w).1.size = bytesWritten (writerOpen hs w) ops

/-! ## What the calls leave -/

/-- The positive codes of the `WriteHeader` calls in front of the last body write. -/
def codesBeforeLastWrite : List HandlerOp → List ℤ
  | [] => []
  | .writeHeader code :: ops =>
      if code > 0 ∧ writesBody ops = true then code :: codesBeforeLastWrite ops
      else codesBeforeLastWrite ops
  | .write _ _ :: ops => codesBeforeLastWrite ops

theorem codesBeforeLastWrite_eq_nil {ops : List HandlerOp} (h : writesBody ops = false) :
    codesBeforeLastWrite ops = [] := by
  induction ops with
  | nil => rfl
  | cons op ops ih =>
      rw [writesBody, List.any_cons, Bool.or_eq_false_iff] at h
      cases op with
      | writeHeader code =>
          have hrest : ¬ (code > 0 ∧ writesBody ops = true) := fun hboth =>
            Bool.false_ne_true (h.2.symm.trans hboth.2)
          rw [codesBeforeLastWrite, if_neg hrest]
          exact ih h.2
      | write data accepted => cases h.1

/-- The status in the writer is what the next `Write` sends, so the last code in front of the last
`Write` is left. -/
theorem statusAfter (ops : List HandlerOp) (rw : ResponseWriter) (hs : HttpStream) (w : World)
    (hbody : writesBody ops = true) :
    (runHandler ops rw hs w).2.1.response.httpStatus =
      some (formatInt ((codesBeforeLastWrite ops).getLast?.getD rw.status)) := by
  induction ops generalizing rw hs w with
  | nil => cases hbody
  | cons op ops ih =>
      cases op with
      | writeHeader code =>
          have hrest : writesBody ops = true := hbody
          rw [runHandler, ih _ _ _ hrest, codesBeforeLastWrite]
          by_cases hcode : code > 0
          · -- the code is in the writer, whether or not it was there before
            have hstatus : (rw.writeHeader code).status = code := by
              unfold ResponseWriter.writeHeader
              split
              · rfl
              · next hsame => exact not_not.mp fun hne => hsame ⟨hcode, hne⟩
            rw [if_pos ⟨hcode, hrest⟩, hstatus, List.getLast?_cons]
            rfl
          · have hstatus : rw.writeHeader code = rw := if_neg fun hboth => hcode hboth.1
            rw [if_neg fun hboth => hcode hboth.1, hstatus]
      | write data accepted =>
          rw [runHandler, codesBeforeLastWrite]
          have hstatus : (rw.write hs w data accepted).1.status = rw.status := by
            simp only [ResponseWriter.write, ResponseWriter.writeHeaderNow]
            split <;> rfl
          cases hrest : writesBody ops with
          | true => rw [ih _ _ _ hrest, hstatus]
          | false =>
              -- nothing is written any more
              rw [runHandler_silent ops _ _ _ hrest, codesBeforeLastWrite_eq_nil hrest]
              rfl

/-- Writing closes nothing. -/
theorem writerOpen_write (rw : ResponseWriter) (hs : HttpStream) (w : World) (data : Bytes)
    (accepted : ℕ) :
    writerOpen (rw.write hs w data accepted).2.1 (rw.write hs w data accepted).2.2 =
      writerOpen hs w := by
  have hcloses : ∀ b : Bytes, (w.writeFd hs.response.fd b).fds[hs.response.fd]?.map Fd.closes =
      w.fds[hs.response.fd]?.map Fd.closes := by
    intro b
    unfold World.writeFd
    split
    · rfl
    · next peer _ =>
        simp only [World.modifyFd, List.getElem?_modify]
        cases w.fds[hs.response.fd]? with
        | none => rfl
        | some fd =>
            simp only [Option.map_some]
            split <;> rfl
  show (((w.writeFd hs.response.fd _).fds[hs.response.fd]?.map Fd.closes) == some 0) = _
  rw [hcloses]
  rfl

theorem size_write (rw : ResponseWriter) (hs : HttpStream) (w : World) (data : Bytes)
    (accepted : ℕ) (hsize : -1 ≤ rw.size) :
    (rw.write hs w data accepted).1.size =
      max rw.size 0 + HandlerOp.taken (writerOpen hs w) (.write data accepted) := by
  have hnow : (if rw.written then rw else { rw with size := 0 }).size = max rw.size 0 := by
    simp only [ResponseWriter.written, noWritten, bne_iff_ne, ne_eq]
    split
    · omega
    · show (0 : ℤ) = max rw.size 0
      omega
  have htaken : (if (w.fds[hs.response.fd]?.map Fd.closes) = some 0 then min accepted data.length
      else 0) = HandlerOp.taken (writerOpen hs w) (.write data accepted) := by
    simp only [HandlerOp.taken, writerOpen, beq_iff_eq]
  show (if rw.written then rw else { rw with size := 0 }).size + (_ : ℤ) = _
  rw [hnow, ← htaken]

theorem bytesWritten_eq_zero {isOpen : Bool} {ops : List HandlerOp} (h : writesBody ops = false) :
    bytesWritten isOpen ops = 0 := by
  induction ops with
  | nil => rfl
  | cons op ops ih =>
      rw [writesBody, List.any_cons, Bool.or_eq_false_iff] at h
      rw [bytesWritten]
      cases op with
      | writeHeader code => exact (Nat.zero_add _).trans (ih h.2)
      | write data accepted => cases h.1

/-- The size counts from the first `Write` on. -/
theorem sizeAfter (ops : List HandlerOp) (rw : ResponseWriter) (hs : HttpStream) (w : World)
    (hsize : -1 ≤ rw.size) :
    (runHandler ops rw hs w).1.size = if writesBody ops then
      max rw.size 0 + bytesWritten (writerOpen hs w) ops else rw.size := by
  induction ops generalizing rw hs w with
  | nil => rfl
  | cons op ops ih =>
      have hbytes : bytesWritten (writerOpen hs w) (op :: ops) =
          op.taken (writerOpen hs w) + bytesWritten (writerOpen hs w) ops := rfl
      cases op with
      | writeHeader code =>
          have hsame : (rw.writeHeader code).size = rw.size := by
            unfold ResponseWriter.writeHeader
            split <;> rfl
          rw [runHandler, ih _ _ _ (hsame.symm ▸ hsize), hsame, hbytes]
          simp only [HandlerOp.taken, Nat.zero_add]
          rfl
      | write data accepted =>
          -- behind a write the size is no longer -1
          have hnow := size_write rw hs w data accepted hsize
          have hbody : writesBody (.write data accepted :: ops) = true := rfl
          rw [runHandler, ih _ _ _ (by omega), writerOpen_write, hnow, hbytes, if_pos hbody]
          cases hrest : writesBody ops with
          | true =>
              rw [if_pos rfl]
              push_cast
              omega
          | false =>
              rw [if_neg Bool.false_ne_true, bytesWritten_eq_zero hrest]
              push_cast
              omega

/-! ## All sequences -/

/-- **A handler leaves the status and the size it has to exactly if it writes a body and the last
positive code in front of its last `Write`, or 0 without any, is the code that is promised.** -/
theorem writer_kept_iff (ops : List HandlerOp) (hs : HttpStream) (w : World) :
    WriterKept ops hs w ↔ writesBody ops = true ∧
      (codesBeforeLastWrite ops).getLast?.getD 0 = promisedCode ops := by
  have hsize := sizeAfter ops .init hs w (by decide)
  constructor
  · rintro ⟨hstatus, htotal⟩
    have hbody : writesBody ops = true := by
      -- without a write the size is still -1
      by_contra hnone
      rw [if_neg hnone, htotal] at hsize
      have hinit : ResponseWriter.init.size = -1 := rfl
      omega
    refine ⟨hbody, ?_⟩
    have hleft := statusAfter ops .init hs w hbody
    rw [hstatus hbody, Option.some.injEq] at hleft
    exact (formatInt_inj hleft).symm
  · rintro ⟨hbody, hcode⟩
    constructor
    · intro _
      rw [← hcode]
      exact statusAfter ops .init hs w hbody
    · rw [hsize, if_pos hbody]
      exact Int.zero_add _

/-- A handler that writes without a `WriteHeader` leaves the status 0, and a code behind the first
write is sent with the second one. -/
theorem writer_not_kept :
    (runHandler [.write (ascii "hello") 5] .init waitingStream socketWorld).2.1.response.httpStatus =
        some (ascii "0") ∧
      ¬ WriterKept [.write (ascii "hello") 5] waitingStream socketWorld ∧
      ¬ WriterKept [.writeHeader 201, .write (ascii "a") 1, .writeHeader 500, .write (ascii "b") 1]
        waitingStream socketWorld := by
  refine ⟨rfl, fun hkept => ?_, fun hkept => ?_⟩
  · exact absurd (hkept.status rfl) (by decide)
  · exact absurd (hkept.status rfl) (by decide)

end Gfhttpd.Modules
