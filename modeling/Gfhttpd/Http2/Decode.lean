import Gfhttpd.Http2.Callbacks

/-!
# What `percent_decode` makes of a value (`main/http2/event_cb.c`)

`decodeRest` is the loop of `percent_decode` on the rest of the value, without its indices.

- `cstr_decodeRest_eq`, `length_cstr_decodeRest_lt`: a value without escapes stays the same, and
  one with an escape gets shorter
- `decodeField_eq_iff`: the values that `on_header_callback` stores as they are
-/

namespace Gfhttpd.Http2

/-! ## Escapes -/

/-- The bytes are an escape. -/
def isEscape (c h l : UInt8) : Bool :=
  c == 37 && isxdigit h && isxdigit l

theorem isEscape_eq_false_iff {c h l : UInt8} :
    isEscape c h l = false ↔ c ≠ 37 ∨ isxdigit h = false ∨ isxdigit l = false := by
  simp only [isEscape, Bool.and_eq_false_iff, beq_eq_false_iff_ne, or_assoc, ne_eq]

/-- There is an escape in the bytes. -/
def hasEscape : Bytes → Bool
  | c :: h :: l :: rest => isEscape c h l || hasEscape (h :: l :: rest)
  | _ => false

theorem hasEscape_short {b : Bytes} (h : b.length ≤ 2) : hasEscape b = false := by
  cases b with
  | nil => rfl
  | cons c b =>
      cases b with
      | nil => rfl
      | cons d b =>
          cases b with
          | nil => rfl
          | cons e b =>
              simp only [List.length_cons] at h
              omega

/-! ## The loop without indices -/

/-- The loop of `percent_decode`, and the two bytes that are copied behind it.  `m` bytes of the
memory belong to the value. -/
def decodeRest : ℕ → Bytes → Bytes
  | m, c :: h :: l :: rest =>
      if m ≤ 2 then [c, h]
      else if isEscape c h l then (hexToUint h <<< 4 + hexToUint l) :: decodeRest (m - 3) rest
      else c :: decodeRest (m - 1) (h :: l :: rest)
  | _, b => [b.getD 0 0, b.getD 1 0]

theorem decodeRest_le_two {m : ℕ} (hm : m ≤ 2) (b : Bytes) :
    decodeRest m b = [b.getD 0 0, b.getD 1 0] := by
  unfold decodeRest
  split
  · rw [if_pos hm]
    rfl
  · rfl

/-- One round of the loop, as long as three bytes are left. -/
theorem decodeRest_drop {value : Bytes} {n i : ℕ} (hn : n ≤ value.length) (hi : i < n - 2) :
    decodeRest (n - i) (value.drop i) =
      if value.getD i 0 ≠ 37 ∨ isxdigit (value.getD (i + 1) 0) = false ∨
          isxdigit (value.getD (i + 2) 0) = false then
        value.getD i 0 :: decodeRest (n - (i + 1)) (value.drop (i + 1))
      else
        (hexToUint (value.getD (i + 1) 0) <<< 4 + hexToUint (value.getD (i + 2) 0)) ::
          decodeRest (n - (i + 3)) (value.drop (i + 3)) := by
  have h0 : i < value.length := by omega
  have h1 : i + 1 < value.length := by omega
  have h2 : i + 2 < value.length := by omega
  have hdrop1 : value.drop (i + 1) = value[i + 1] :: value[i + 2] :: value.drop (i + 3) := by
    rw [List.drop_eq_getElem_cons h1, List.drop_eq_getElem_cons h2]
  have hdrop : value.drop i = value[i] :: value[i + 1] :: value[i + 2] :: value.drop (i + 3) := by
    rw [List.drop_eq_getElem_cons h0, hdrop1]
  have hget : ∀ k (hk : k < value.length), value.getD k 0 = value[k] := fun k hk =>
    (List.getElem_eq_getD 0).symm
  have hlong : ¬ n - i ≤ 2 := by omega
  rw [hget i h0, hget (i + 1) h1, hget (i + 2) h2, hdrop, decodeRest, if_neg hlong]
  cases hescape : isEscape value[i] value[i + 1] value[i + 2] with
  | false =>
      rw [if_pos (isEscape_eq_false_iff.mp hescape), if_neg Bool.false_ne_true, hdrop1, Nat.sub_sub]
  | true =>
      have hyes : ¬ (value[i] ≠ 37 ∨ isxdigit value[i + 1] = false ∨
          isxdigit value[i + 2] = false) := fun hno => by
        rw [isEscape_eq_false_iff.mpr hno] at hescape
        cases hescape
      rw [if_neg hyes, if_pos rfl, Nat.sub_sub]

/-- The two bytes behind the loop are copied whether the value has them or not. -/
theorem decodeRest_end {value : Bytes} {n i : ℕ} (hi : n - i ≤ 2) :
    decodeRest (n - i) (value.drop i) = [value.getD i 0, value.getD (i + 1) 0] := by
  rw [decodeRest_le_two hi]
  simp [List.getD_eq_getElem?_getD]

/-- The loop from an index on. -/
theorem percentDecodeLoop_eq {value : Bytes} {n : ℕ} (hn : n ≤ value.length) (fuel i : ℕ) (res : Bytes)
    (hfuel : n - i ≤ fuel) :
    (percentDecodeLoop value n fuel i res).2 ++
        [value.getD (percentDecodeLoop value n fuel i res).1 0,
          value.getD ((percentDecodeLoop value n fuel i res).1 + 1) 0] =
      res ++ decodeRest (n - i) (value.drop i) := by
  induction fuel generalizing i res with
  | zero =>
      unfold percentDecodeLoop
      rw [decodeRest_end (by omega)]
  | succ fuel ih =>
      unfold percentDecodeLoop
      -- the loop stops two bytes before the end, so that an escape is never cut
      by_cases hi : i < n - 2
      · rw [if_pos hi, decodeRest_drop hn hi]
        by_cases hcopy : value.getD i 0 ≠ 37 ∨ isxdigit (value.getD (i + 1) 0) = false ∨
            isxdigit (value.getD (i + 2) 0) = false
        · simp only [if_pos hcopy]
          rw [ih (i + 1) _ (by omega), List.append_assoc, List.singleton_append]
        · simp only [if_neg hcopy]
          rw [ih (i + 3) _ (by omega), List.append_assoc, List.singleton_append]
      · rw [if_neg hi, decodeRest_end (by omega)]

/-- `percent_decode` copies a value of at most three bytes, and decodes a longer one. -/
theorem percentDecode_eq {value : Bytes} {n : ℕ} (hn : n ≤ value.length) :
    percentDecode value n = if n > 3 then decodeRest n value else value.take n := by
  unfold percentDecode
  split
  · exact percentDecodeLoop_eq hn n 0 [] (Nat.sub_le n 0)
  · rfl

/-! ## C strings -/

theorem cstr_cons_zero (b : Bytes) : cstr (0 :: b) = [] := rfl

theorem cstr_cons {c : UInt8} (hc : c ≠ 0) (b : Bytes) : cstr (c :: b) = c :: cstr b := by
  unfold cstr
  rw [List.takeWhile_cons_of_pos]
  simpa using hc

theorem length_cstr_cons_le (c : UInt8) (b : Bytes) :
    (cstr (c :: b)).length ≤ (cstr b).length + 1 := by
  by_cases hc : c = 0
  · rw [hc, cstr_cons_zero]
    exact Nat.zero_le _
  · rw [cstr_cons hc]
    rfl

/-- A C string that ends within the first `n` bytes. -/
theorem cstr_take {b : Bytes} {n : ℕ} (h : (cstr b).length ≤ n) : cstr (b.take n) = cstr b := by
  induction b generalizing n with
  | nil => rw [List.take_nil]
  | cons c b ih =>
      cases n with
      | zero =>
          rw [List.take_zero]
          exact (List.eq_nil_of_length_eq_zero (Nat.le_zero.mp h)).symm
      | succ n =>
          rw [List.take_succ_cons]
          by_cases hc : c = 0
          · rw [hc, cstr_cons_zero, cstr_cons_zero]
          · rw [cstr_cons hc] at h ⊢
            rw [cstr_cons hc, ih (Nat.le_of_succ_le_succ h)]

/-- The first two bytes hold a C string of at most two bytes. -/
theorem cstr_two {b : Bytes} (h : (cstr b).length ≤ 2) : cstr [b.getD 0 0, b.getD 1 0] = cstr b := by
  cases b with
  | nil => rfl
  | cons c b =>
      cases b with
      | nil =>
          show cstr (c :: [0]) = cstr (c :: [])
          by_cases hc : c = 0
          · rw [hc, cstr_cons_zero, cstr_cons_zero]
          · rw [cstr_cons hc, cstr_cons hc, cstr_cons_zero]
            rfl
      | cons d b => exact cstr_take h

theorem ne_zero_of_isxdigit {c : UInt8} (h : isxdigit c = true) : c ≠ 0 := by
  rintro rfl
  cases h

/-- An escape has no NUL. -/
theorem cstr_escape {c h l : UInt8} (hescape : isEscape c h l = true) (b : Bytes) :
    cstr (c :: h :: l :: b) = c :: h :: l :: cstr b := by
  simp only [isEscape, Bool.and_eq_true, beq_iff_eq] at hescape
  obtain ⟨⟨rfl, hh⟩, hl⟩ := hescape
  rw [cstr_cons (by decide), cstr_cons (ne_zero_of_isxdigit hh), cstr_cons (ne_zero_of_isxdigit hl)]

/-- A byte that begins no escape. -/
theorem hasEscape_cons {c h l : UInt8} (hescape : isEscape c h l = false) (b : Bytes) :
    hasEscape (c :: cstr (h :: l :: b)) = hasEscape (cstr (h :: l :: b)) := by
  by_cases hh : h = 0
  · rw [hh, cstr_cons_zero]
    rfl
  · rw [cstr_cons hh]
    by_cases hl : l = 0
    · rw [hl, cstr_cons_zero]
      rfl
    · rw [cstr_cons hl]
      show (isEscape c h l || hasEscape (h :: l :: cstr b)) = _
      rw [hescape, Bool.false_or]

/-! ## What is decoded -/

/-- The memory is short when it has no three bytes. -/
theorem length_le_two {b : Bytes} (h : ∀ c d e rest, b = c :: d :: e :: rest → False) :
    b.length ≤ 2 := by
  cases b with
  | nil => exact Nat.zero_le _
  | cons c b =>
      cases b with
      | nil => exact Nat.le_succ _
      | cons d b =>
          cases b with
          | nil => exact Nat.le_refl _
          | cons e b => exact absurd rfl (h c d e b)

/-- Decoding does not make a C string longer. -/
theorem length_cstr_decodeRest_le {m : ℕ} {b : Bytes} (hlen : (cstr b).length ≤ m) :
    (cstr (decodeRest m b)).length ≤ (cstr b).length := by
  -- case 1 and case 4 copy the last two bytes, case 2 is an escape, case 3 any other byte
  fun_induction decodeRest m b with
  | case1 m c h l rest hm =>
      have htwo := cstr_two (Nat.le_trans hlen hm)
      exact Nat.le_of_eq (congrArg List.length htwo)
  | case2 m c h l rest hm hescape ih =>
      rw [cstr_escape hescape] at hlen ⊢
      simp only [List.length_cons] at hlen ⊢
      have hrest := ih (by omega)
      have hone := length_cstr_cons_le (hexToUint h <<< 4 + hexToUint l) (decodeRest (m - 3) rest)
      omega
  | case3 m c h l rest hm hescape ih =>
      by_cases hc : c = 0
      · rw [hc, cstr_cons_zero]
        exact Nat.zero_le _
      · rw [cstr_cons hc] at hlen ⊢
        rw [cstr_cons hc]
        simp only [List.length_cons] at hlen ⊢
        exact Nat.succ_le_succ (ih (by omega))
  | case4 m b hshort =>
      have htwo := cstr_two (Nat.le_trans (length_cstr_le b) (length_le_two hshort))
      exact Nat.le_of_eq (congrArg List.length htwo)

/-- Without an escape a C string stays the same. -/
theorem cstr_decodeRest_eq {m : ℕ} {b : Bytes} (hlen : (cstr b).length ≤ m)
    (hno : hasEscape (cstr b) = false) : cstr (decodeRest m b) = cstr b := by
  fun_induction decodeRest m b with
  | case1 m c h l rest hm => exact cstr_two (Nat.le_trans hlen hm)
  | case2 m c h l rest hm hescape ih =>
      rw [cstr_escape hescape, hasEscape, hescape] at hno
      cases hno
  | case3 m c h l rest hm hescape ih =>
      by_cases hc : c = 0
      · rw [hc, cstr_cons_zero, cstr_cons_zero]
      · rw [cstr_cons hc] at hlen hno
        rw [hasEscape_cons (Bool.eq_false_iff.mpr hescape)] at hno
        rw [List.length_cons] at hlen
        rw [cstr_cons hc, cstr_cons hc, ih (by omega) hno]
  | case4 m b hshort => exact cstr_two (Nat.le_trans (length_cstr_le b) (length_le_two hshort))

/-- With an escape it gets shorter. -/
theorem length_cstr_decodeRest_lt {m : ℕ} {b : Bytes} (hlen : (cstr b).length ≤ m)
    (hescapes : hasEscape (cstr b) = true) :
    (cstr (decodeRest m b)).length < (cstr b).length := by
  fun_induction decodeRest m b with
  | case1 m c h l rest hm =>
      rw [hasEscape_short (Nat.le_trans hlen hm)] at hescapes
      cases hescapes
  | case2 m c h l rest hm hescape ih =>
      rw [cstr_escape hescape] at hlen ⊢
      simp only [List.length_cons] at hlen ⊢
      have hrest := length_cstr_decodeRest_le (m := m - 3) (b := rest) (by omega)
      have hone := length_cstr_cons_le (hexToUint h <<< 4 + hexToUint l) (decodeRest (m - 3) rest)
      omega
  | case3 m c h l rest hm hescape ih =>
      by_cases hc : c = 0
      · rw [hc, cstr_cons_zero] at hescapes
        cases hescapes
      · rw [cstr_cons hc] at hlen hescapes
        rw [hasEscape_cons (Bool.eq_false_iff.mpr hescape)] at hescapes
        rw [List.length_cons] at hlen
        rw [cstr_cons hc, cstr_cons hc, List.length_cons, List.length_cons]
        exact Nat.succ_lt_succ (ih (by omega) hescapes)
  | case4 m b hshort =>
      rw [hasEscape_short (Nat.le_trans (length_cstr_le b) (length_le_two hshort))] at hescapes
      cases hescapes

/-- What is decoded is no longer than the value. -/
theorem length_decodeRest_le {m : ℕ} (b : Bytes) (hm : 2 ≤ m) : (decodeRest m b).length ≤ m := by
  have hmax : (decodeRest m b).length ≤ max 2 m := by
    clear hm
    fun_induction decodeRest m b with
    | case1 m c h l rest hm => exact Nat.le_max_left ..
    | case2 m c h l rest hm hescape ih =>
        rw [List.length_cons]
        omega
    | case3 m c h l rest hm hescape ih =>
        rw [List.length_cons]
        omega
    | case4 m b hshort => exact Nat.le_max_left ..
  rwa [Nat.max_eq_right hm] at hmax

/-! ## Fields -/

/-- What `on_header_callback` gives to `percent_decode`: the value up to its `?`. -/
def fieldLength (v : Bytes) : ℕ :=
  (v.takeWhile (· != 63)).length

/-- The condition on a value: there is no `?` in its C string, and no escape, unless it has at most
three bytes. -/
def Verbatim (v : Bytes) : Prop :=
  63 ∉ cstr v ∧ (hasEscape (cstr v) = false ∨ fieldLength v ≤ 3)

instance (v : Bytes) : Decidable (Verbatim v) :=
  inferInstanceAs (Decidable (_ ∧ _))

/-- The `?` ends a field in its C string exactly if it is in there. -/
theorem fieldLength_lt_iff (v : Bytes) : fieldLength v < (cstr v).length ↔ 63 ∈ cstr v := by
  unfold fieldLength
  induction v with
  | nil => exact iff_of_false (Nat.lt_irrefl 0) List.not_mem_nil
  | cons c v ih =>
      by_cases hc : c = 0
      · rw [hc, cstr_cons_zero]
        exact iff_of_false (Nat.not_lt_zero _) List.not_mem_nil
      · rw [cstr_cons hc]
        by_cases hq : c = 63
        · rw [hq]
          refine iff_of_true ?_ (List.mem_cons_self ..)
          exact Nat.succ_pos _
        · rw [List.takeWhile_cons_of_pos (by simpa using hq), List.length_cons, List.length_cons,
            Nat.succ_lt_succ_iff, ih, List.mem_cons]
          exact (or_iff_right (Ne.symm hq)).symm

theorem fieldLength_le (v : Bytes) : fieldLength v ≤ v.length :=
  (List.takeWhile_prefix _).length_le

/-- A value is stored as it is exactly if it is verbatim. -/
theorem decodeField_eq_iff (v : Bytes) :
    decodeField v = some (strndup v v.length) ↔ Verbatim v := by
  have hfield : decodeField v = some (strndup v v.length) ↔
      cstr (percentDecode v (fieldLength v)) = cstr v := by
    unfold decodeField strndup
    rw [List.take_length]
    exact Option.some_inj
  rw [hfield, percentDecode_eq (fieldLength_le v)]
  by_cases hq : 63 ∈ cstr v
  · -- the part before the `?` is shorter than the C string
    have hlt := (fieldLength_lt_iff v).mpr hq
    refine iff_of_false (fun heq => ?_) fun h => h.1 hq
    have hle : (cstr (if fieldLength v > 3 then decodeRest (fieldLength v) v
        else v.take (fieldLength v))).length ≤ fieldLength v := by
      apply Nat.le_trans (length_cstr_le _)
      split
      · exact length_decodeRest_le v (by omega)
      · exact List.length_take_le ..
    rw [heq] at hle
    omega
  · have hlen : (cstr v).length ≤ fieldLength v :=
      Nat.le_of_not_lt fun hlt => hq ((fieldLength_lt_iff v).mp hlt)
    unfold Verbatim
    rw [and_iff_right hq]
    split
    · -- the loop of `percent_decode` runs
      rename_i hlong
      rw [or_iff_left (Nat.not_le.mpr hlong)]
      constructor
      · intro heq
        cases hescape : hasEscape (cstr v) with
        | false => rfl
        | true =>
            have hlt := length_cstr_decodeRest_lt hlen hescape
            rw [heq] at hlt
            exact absurd hlt (Nat.lt_irrefl _)
      · exact cstr_decodeRest_eq hlen
    · rename_i hshort
      exact iff_of_true (cstr_take hlen) (Or.inr (Nat.le_of_not_lt hshort))

end Gfhttpd.Http2
