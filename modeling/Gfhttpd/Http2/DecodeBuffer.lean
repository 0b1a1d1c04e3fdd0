import Gfhttpd.Http2.Decode
import Gfhttpd.Lib.Loop

/-!
# The buffer of `percent_decode` (`main/http2/event_cb.c`)

`percent_decode` writes to a buffer of `valuelen + 1` bytes.  Its loop is left when `i` comes within
two bytes of the end of the value, or past them, and what is behind the loop is written at `j`.

- `Decoder`: the indices of `percent_decode`, its buffer, and the indices that it has written to
- `DecodeInv`: the invariant of its loop
- `percentDecode_in_buffer`: no write is outside the buffer
- `percentDecodeIn_eq`: the buffer holds what `percentDecode` says, and a NUL
-/

namespace Gfhttpd.Http2

open Loop

/-! ## The function with its buffer -/

/-- `i`, `j` and `res`, and the indices of `res` that have been written to. -/
structure Decoder where
  i : ℕ
  j : ℕ
  res : ℕ → UInt8
  written : List ℕ

namespace Decoder

/-- `res[k] = c`. -/
def put (d : Decoder) (k : ℕ) (c : UInt8) : Decoder :=
  { d with res := Function.update d.res k c, written := d.written ++ [k] }

/-- The bytes are stored from `res[k]` on. -/
def putAll (d : Decoder) (k : ℕ) : Bytes → Decoder
  | [] => d
  | c :: cs => (d.put k c).putAll (k + 1) cs

/-- `memcpy(&res[k], &value[i], n)`. -/
def memcpy (d : Decoder) (k : ℕ) (value : Bytes) (i n : ℕ) : Decoder :=
  d.putAll k ((List.range n).map fun o => value.getD (i + o) 0)

/-- The body of the loop. -/
def round (value : Bytes) (d : Decoder) : Decoder :=
  let c := value.getD d.i 0
  let h := value.getD (d.i + 1) 0
  let l := value.getD (d.i + 2) 0
  if c ≠ 37 ∨ isxdigit h = false ∨ isxdigit l = false then
    { d.put d.j c with i := d.i + 1, j := d.j + 1 }
  else
    { d.put d.j (hexToUint h <<< 4 + hexToUint l) with i := d.i + 3, j := d.j + 1 }

/-- The two bytes behind the loop, and the NUL. -/
def finish (value : Bytes) (d : Decoder) : Decoder :=
  (d.memcpy d.j value d.i 2).put (d.j + 2) 0

end Decoder

def decodeLoop (value : Bytes) (valuelen : ℕ) : While Decoder where
  goesOn d := decide (d.i < valuelen - 2)
  body d := some (d.round value)

/-- `percent_decode`, with the memory that `malloc` has returned.  Running out of fuel is not
returning. -/
def percentDecodeIn (fuel : ℕ) (value : Bytes) (valuelen : ℕ) (res : ℕ → UInt8) : Option Decoder :=
  let d : Decoder := ⟨0, 0, res, []⟩
  if valuelen > 3 then
    match (decodeLoop value valuelen).run fuel d with
    | none => none
    | some d => some (d.finish value)
  else some ((d.memcpy 0 value 0 valuelen).put valuelen 0)

/-! ## What is written -/

/-- The first `n` bytes of the buffer. -/
def Decoder.buffer (d : Decoder) (n : ℕ) : Bytes := (List.range n).map d.res

theorem Decoder.buffer_put (d : Decoder) (n : ℕ) (c : UInt8) :
    (d.put n c).buffer (n + 1) = d.buffer n ++ [c] := by
  have hbefore : (d.put n c).buffer n = d.buffer n := by
    refine List.map_congr_left fun k hk => ?_
    exact Function.update_of_ne (Nat.ne_of_lt (List.mem_range.mp hk)) ..
  have hat : (d.put n c).res n = c := Function.update_self ..
  rw [← hbefore]
  simp only [buffer, List.range_succ, List.map_append, List.map_singleton, hat]

theorem Decoder.buffer_putAll (d : Decoder) (n : ℕ) (cs : Bytes) :
    (d.putAll n cs).buffer (n + cs.length) = d.buffer n ++ cs := by
  induction cs generalizing d n with
  | nil => rw [putAll, List.append_nil, List.length_nil, Nat.add_zero]
  | cons c cs ih =>
      have hlen : n + (c :: cs).length = n + 1 + cs.length := by
        rw [List.length_cons]
        omega
      rw [putAll, hlen, ih, buffer_put, List.append_assoc, List.singleton_append]

theorem Decoder.mem_written_putAll {d : Decoder} {n k : ℕ} {cs : Bytes}
    (hk : k ∈ (d.putAll n cs).written) : k ∈ d.written ∨ k < n + cs.length := by
  induction cs generalizing d n with
  | nil => exact Or.inl hk
  | cons c cs ih =>
      rw [List.length_cons]
      rcases ih hk with hput | hlt
      · rcases List.mem_append.mp hput with hd | hn
        · exact Or.inl hd
        · obtain rfl := List.mem_singleton.mp hn
          exact Or.inr (by omega)
      · exact Or.inr (by omega)

/-- `memcpy`, and a NUL behind the bytes: what is written, when all writes so far are below `k`. -/
theorem Decoder.written_memcpy_put {d : Decoder} {k : ℕ} (h : ∀ o ∈ d.written, o < k) (value : Bytes)
    (i n : ℕ) : ∀ o ∈ ((d.memcpy k value i n).put (k + n) 0).written, o ≤ k + n := by
  intro o ho
  rcases List.mem_append.mp ho with ho | ho
  · rcases mem_written_putAll ho with hd | hlt
    · exact Nat.le_add_right_of_le (Nat.le_of_lt (h o hd))
    · rw [List.length_map, List.length_range] at hlt
      exact Nat.le_of_lt hlt
  · exact Nat.le_of_eq (List.mem_singleton.mp ho)

theorem Decoder.buffer_memcpy_put (d : Decoder) (k : ℕ) (value : Bytes) (i n : ℕ) :
    ((d.memcpy k value i n).put (k + n) 0).buffer (k + n + 1) =
      d.buffer k ++ ((List.range n).map fun o => value.getD (i + o) 0) ++ [0] := by
  have hcopy := d.buffer_putAll k ((List.range n).map fun o => value.getD (i + o) 0)
  rw [List.length_map, List.length_range] at hcopy
  rw [buffer_put, memcpy, hcopy]

theorem map_getD_range {value : Bytes} {n : ℕ} (hn : n ≤ value.length) :
    ((List.range n).map fun o => value.getD (0 + o) 0) = value.take n := by
  refine List.ext_getElem (by simp [hn]) fun o ho ho' => ?_
  have hlt : o < value.length := by
    rw [List.length_take] at ho'
    omega
  simp [List.getElem_take, List.getD_eq_getElem?_getD, List.getElem?_eq_getElem hlt]

/-! ## The loop -/

/-- What holds whenever the loop is tested: an escape moves `i` further than `j`, and there are two
bytes left behind `j` for those that are copied. -/
structure DecodeInv (value : Bytes) (valuelen : ℕ) (d : Decoder) : Prop where
  written : ∀ k ∈ d.written, k < d.j
  behind : d.j ≤ d.i
  inside : d.i ≤ valuelen
  room : d.j + 2 ≤ valuelen
  decoded : valuelen ≤ value.length →
    d.buffer d.j ++ decodeRest (valuelen - d.i) (value.drop d.i) = decodeRest valuelen value

theorem DecodeInv.init {value : Bytes} {valuelen : ℕ} (hlong : valuelen > 3) (res : ℕ → UInt8) :
    DecodeInv value valuelen ⟨0, 0, res, []⟩ := by
  refine ⟨nofun, Nat.le_refl _, Nat.zero_le _, ?_, fun _ => rfl⟩
  show 0 + 2 ≤ valuelen
  omega

/-- A round stores a byte, and moves `i` by one, or by three. -/
theorem DecodeInv.store {value : Bytes} {valuelen : ℕ} {d : Decoder} (h : DecodeInv value valuelen d)
    (hgo : d.i < valuelen - 2) {k : ℕ} (hpos : 0 < k) (hle : k ≤ 3) {c : UInt8}
    (hrest : valuelen ≤ value.length → decodeRest (valuelen - d.i) (value.drop d.i) =
      c :: decodeRest (valuelen - (d.i + k)) (value.drop (d.i + k))) :
    DecodeInv value valuelen { d.put d.j c with i := d.i + k, j := d.j + 1 } where
  written := by
    intro o ho
    rcases List.mem_append.mp ho with ho | ho
    · exact Nat.lt_succ_of_lt (h.written o ho)
    · exact Nat.lt_succ_of_le (Nat.le_of_eq (List.mem_singleton.mp ho))
  behind := Nat.add_le_add h.behind hpos
  inside := by
    show d.i + k ≤ valuelen
    omega
  room := by
    -- `j` was not in front of `i`, from which there are three bytes
    have hbehind := h.behind
    show d.j + 1 + 2 ≤ valuelen
    omega
  decoded := by
    intro hlen
    have hdecoded := h.decoded hlen
    rw [hrest hlen, List.append_cons, ← Decoder.buffer_put] at hdecoded
    exact hdecoded

theorem DecodeInv.round {value : Bytes} {valuelen : ℕ} {d : Decoder} (h : DecodeInv value valuelen d)
    (hgo : d.i < valuelen - 2) :
    DecodeInv value valuelen (d.round value) ∧ valuelen - (d.round value).i < valuelen - d.i := by
  have hless : ∀ k, 0 < k → valuelen - (d.i + k) < valuelen - d.i := fun k hk => by omega
  unfold Decoder.round
  by_cases hcopy : value.getD d.i 0 ≠ 37 ∨ isxdigit (value.getD (d.i + 1) 0) = false ∨
      isxdigit (value.getD (d.i + 2) 0) = false
  · simp only [if_pos hcopy]
    refine ⟨h.store hgo Nat.one_pos (by omega) fun hlen => ?_, hless 1 Nat.one_pos⟩
    rw [decodeRest_drop hlen hgo, if_pos hcopy]
  · simp only [if_neg hcopy]
    refine ⟨h.store hgo (Nat.succ_pos 2) (Nat.le_refl _) fun hlen => ?_, hless 3 (Nat.succ_pos 2)⟩
    rw [decodeRest_drop hlen hgo, if_neg hcopy]

theorem decodeLoop_ends (value : Bytes) {valuelen : ℕ} (hlong : valuelen > 3) (res : ℕ → UInt8) :
    ∃ begins d, (decodeLoop value valuelen).Ends ⟨0, 0, res, []⟩ begins (some d) ∧
      begins.length ≤ valuelen ∧ DecodeInv value valuelen d ∧ valuelen - 2 ≤ d.i := by
  have hround : ∀ d, DecodeInv value valuelen d → (decodeLoop value valuelen).goesOn d = true →
      ∃ e, (decodeLoop value valuelen).body d = some e ∧ DecodeInv value valuelen e ∧
        valuelen - e.i < valuelen - d.i := by
    intro d hd hgo
    exact ⟨_, rfl, hd.round (of_decide_eq_true hgo)⟩
  obtain ⟨begins, d, hends, hlen, hd, hstop⟩ :=
    While.exists_ends (μ := fun d => valuelen - d.i) hround (DecodeInv.init hlong res)
  exact ⟨begins, d, hends, hlen, hd, Nat.le_of_not_lt (of_decide_eq_false hstop)⟩

/-! ## The whole function -/

/-- What `percent_decode` has stored when it returns. -/
theorem exists_percentDecodeIn (value : Bytes) (valuelen : ℕ) (res : ℕ → UInt8) :
    ∃ d, (∀ fuel, valuelen < fuel → percentDecodeIn fuel value valuelen res = some d) ∧
      (∀ k ∈ d.written, k ≤ valuelen) ∧
      (valuelen ≤ value.length →
        d.buffer ((percentDecode value valuelen).length + 1) = percentDecode value valuelen ++ [0]) := by
  by_cases hlong : valuelen > 3
  · obtain ⟨begins, d, hends, hlen, hd, hstop⟩ := decodeLoop_ends value hlong res
    refine ⟨d.finish value, fun fuel hfuel => ?_, fun k hk => ?_, fun hvalue => ?_⟩
    · rw [percentDecodeIn]
      simp only [if_pos hlong, hends.run_eq (Nat.lt_of_le_of_lt hlen hfuel)]
    · exact Nat.le_trans (Decoder.written_memcpy_put hd.written value d.i 2 k hk) hd.room
    · have hdecoded := hd.decoded hvalue
      rw [decodeRest_end (by omega)] at hdecoded
      rw [percentDecode_eq hvalue, if_pos hlong, ← hdecoded]
      have hlength : (d.buffer d.j ++ [value.getD d.i 0, value.getD (d.i + 1) 0]).length = d.j + 2 := by
        simp [Decoder.buffer]
      rw [hlength]
      exact d.buffer_memcpy_put d.j value d.i 2
  · let d : Decoder := ⟨0, 0, res, []⟩
    refine ⟨(d.memcpy 0 value 0 valuelen).put valuelen 0, fun fuel _ => ?_, fun k hk => ?_,
      fun hvalue => ?_⟩
    · rw [percentDecodeIn, if_neg hlong]
    · have hcopy := Decoder.written_memcpy_put (d := d) (k := 0) nofun value 0 valuelen
      rw [Nat.zero_add] at hcopy
      exact hcopy k hk
    · rw [percentDecode_eq hvalue, if_neg hlong, List.length_take, Nat.min_eq_left hvalue]
      have hcopy := d.buffer_memcpy_put 0 value 0 valuelen
      rw [map_getD_range hvalue, Nat.zero_add] at hcopy
      exact hcopy

/-- **Whatever the value and its escapes, `percent_decode` returns, and every index of `res` that it
has written to is at most `valuelen`, and so in what `malloc(valuelen + 1)` has returned.** -/
theorem percentDecode_in_buffer (value : Bytes) (valuelen : ℕ) (res : ℕ → UInt8) :
    ∃ d, (∀ fuel, valuelen < fuel → percentDecodeIn fuel value valuelen res = some d) ∧
      ∀ k ∈ d.written, k ≤ valuelen ∧ (valuelen < SIZE_MAX → k < toSizeT (valuelen + 1)) := by
  obtain ⟨d, hreturns, hwritten, -⟩ := exists_percentDecodeIn value valuelen res
  refine ⟨d, hreturns, fun k hk => ⟨hwritten k hk, fun hlt => ?_⟩⟩
  have hle := hwritten k hk
  simp only [toSizeT, SIZE_MAX] at *
  omega

/-- What `percent_decode` returns is the decoded value as a C string. -/
theorem percentDecodeIn_eq {value : Bytes} {valuelen : ℕ} (hlen : valuelen ≤ value.length)
    (res : ℕ → UInt8) :
    ∃ d, percentDecodeIn (valuelen + 1) value valuelen res = some d ∧
      d.buffer ((percentDecode value valuelen).length + 1) = percentDecode value valuelen ++ [0] := by
  obtain ⟨d, hreturns, -, hbuffer⟩ := exists_percentDecodeIn value valuelen res
  exact ⟨d, hreturns _ (Nat.lt_succ_self _), hbuffer hlen⟩

end Gfhttpd.Http2
