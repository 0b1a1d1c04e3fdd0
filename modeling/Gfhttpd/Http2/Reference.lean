import Gfhttpd.Http2.Decode
import Mathlib.Data.List.Basic

/-!
# `percent_decode` and the reference decoding (`main/http2/event_cb.c`)

The reference is one pass from left to right over the bytes of the value.  `percent_decode` steps
over an escape without looking where the value ends, and copies two more bytes behind the loop.

- `percentDecodeReads`: the offsets of `value` that `percent_decode` reads
- `TailFree`: no escape the pass comes to ends in the last two bytes
- `decodesExactly_iff`: the values that are decoded as in the reference, and read no further
-/

namespace Gfhttpd.Http2

/-! ## The reference -/

/-- The byte an escape stands for. -/
def escapedByte (h l : UInt8) : UInt8 :=
  hexToUint h <<< 4 + hexToUint l

/-- One pass from left to right: an escape becomes the byte it stands for, and every other byte is
copied. -/
def referenceDecode : Bytes → Bytes
  | c :: h :: l :: rest =>
      if isEscape c h l then escapedByte h l :: referenceDecode rest
      else c :: referenceDecode (h :: l :: rest)
  | b => b

/-- No escape the pass comes to ends in the last two bytes. -/
def TailFree : Bytes → Prop
  | c :: h :: l :: rest =>
      if isEscape c h l then 2 ≤ rest.length ∧ TailFree rest
      else TailFree (h :: l :: rest)
  | _ => True

instance decidableTailFree : (b : Bytes) → Decidable (TailFree b)
  | [] => .isTrue trivial
  | [_] => .isTrue trivial
  | [_, _] => .isTrue trivial
  | c :: h :: l :: rest =>
      have : Decidable (TailFree rest) := decidableTailFree rest
      have : Decidable (TailFree (h :: l :: rest)) := decidableTailFree (h :: l :: rest)
      inferInstanceAs (Decidable (if isEscape c h l then _ else _))

theorem tailFree_short {b : Bytes} (h : b.length ≤ 2) : TailFree b := by
  unfold TailFree
  split
  · simp only [List.length_cons] at h
    omega
  · trivial

/-! ## What is read -/

/-- The offsets the loop of `percent_decode` reads from index `i` on, and the two bytes that are
copied behind it. -/
def loopReads (value : Bytes) (valuelen : ℕ) : ℕ → ℕ → List ℕ
  | 0, i => [i, i + 1]
  | fuel + 1, i =>
      if i < valuelen - 2 then
        -- `||` stops at the first of its operands that holds
        if value.getD i 0 ≠ 37 then i :: loopReads value valuelen fuel (i + 1)
        else if isxdigit (value.getD (i + 1) 0) = false then
          i :: (i + 1) :: loopReads value valuelen fuel (i + 1)
        else if isxdigit (value.getD (i + 2) 0) = false then
          i :: (i + 1) :: (i + 2) :: loopReads value valuelen fuel (i + 1)
        else i :: (i + 1) :: (i + 2) :: loopReads value valuelen fuel (i + 3)
      else [i, i + 1]

/-- The offsets of `value` that `percent_decode` reads. -/
def percentDecodeReads (value : Bytes) (valuelen : ℕ) : List ℕ :=
  if valuelen > 3 then loopReads value valuelen valuelen 0 else List.range valuelen

/-- What the loop does with two memories that agree where it reads one of them. -/
theorem percentDecodeLoop_congr {value value' : Bytes} {n : ℕ} (fuel i : ℕ) (res : Bytes)
    (h : ∀ k ∈ loopReads value n fuel i, value.getD k 0 = value'.getD k 0) :
    percentDecodeLoop value n fuel i res = percentDecodeLoop value' n fuel i res ∧
      value.getD (percentDecodeLoop value n fuel i res).1 0 =
        value'.getD (percentDecodeLoop value n fuel i res).1 0 ∧
      value.getD ((percentDecodeLoop value n fuel i res).1 + 1) 0 =
        value'.getD ((percentDecodeLoop value n fuel i res).1 + 1) 0 := by
  induction fuel generalizing i res with
  | zero => exact ⟨rfl, h i (by simp [loopReads]), h (i + 1) (by simp [loopReads])⟩
  | succ fuel ih =>
      rw [loopReads] at h
      unfold percentDecodeLoop
      by_cases hi : i < n - 2
      · simp only [if_pos hi] at h ⊢
        -- the cases of `||`, with what was read so far
        by_cases hc : value.getD i 0 = 37
        · rw [if_neg (not_not.mpr hc)] at h
          cases hh : isxdigit (value.getD (i + 1) 0) with
          | false =>
              rw [if_pos hh] at h
              simp only [List.forall_mem_cons] at h
              simp only [← h.1, ← h.2.1, hh, true_or, or_true, if_true]
              exact ih _ _ h.2.2
          | true =>
              rw [if_neg (by rw [hh]; decide)] at h
              cases hl : isxdigit (value.getD (i + 2) 0) with
              | false =>
                  rw [if_pos hl] at h
                  simp only [List.forall_mem_cons] at h
                  simp only [← h.1, ← h.2.1, ← h.2.2.1, hl, or_true, if_true]
                  exact ih _ _ h.2.2.2
              | true =>
                  rw [if_neg (by rw [hl]; decide)] at h
                  simp only [List.forall_mem_cons] at h
                  simp only [← h.1, ← h.2.1, ← h.2.2.1, hc, hh, hl, ne_eq, not_true_eq_false,
                    Bool.true_eq_false, or_self, if_false]
                  exact ih _ _ h.2.2.2
        · rw [if_pos hc] at h
          simp only [List.forall_mem_cons] at h
          simp only [← h.1, hc, ne_eq, not_false_eq_true, true_or, if_true]
          exact ih _ _ h.2
      · simp only [if_neg hi] at h ⊢
        exact ⟨trivial, h i (List.mem_cons_self ..), h (i + 1) (by simp)⟩

/-- `percent_decode` depends on nothing but the bytes it reads. -/
theorem percentDecode_congr {value value' : Bytes} {n : ℕ} (hn : n ≤ value.length)
    (hn' : n ≤ value'.length)
    (h : ∀ k ∈ percentDecodeReads value n, value.getD k 0 = value'.getD k 0) :
    percentDecode value n = percentDecode value' n := by
  unfold percentDecodeReads at h
  unfold percentDecode
  split
  · rename_i hlong
    rw [if_pos hlong] at h
    obtain ⟨hloop, hfirst, hsecond⟩ := percentDecodeLoop_congr n 0 [] h
    simp only [← hloop, hfirst, hsecond]
  · rename_i hshort
    rw [if_neg hshort] at h
    apply List.ext_getElem
    · rw [List.length_take_of_le hn, List.length_take_of_le hn']
    · intro k hk hk'
      have hkn : k < n := by simpa [hn] using hk
      have hbyte := h k (List.mem_range.mpr hkn)
      rw [← List.getElem_eq_getD (h := by omega), ← List.getElem_eq_getD (h := by omega)] at hbyte
      rw [List.getElem_take, List.getElem_take, hbyte]

/-- The loop takes an escape as a whole, and any other byte alone. -/
theorem loopReads_lt_step {value : Bytes} {n i : ℕ} (hi : i < n - 2) (fuel : ℕ) :
    (∀ k ∈ loopReads value n (fuel + 1) i, k < n) ↔
      ∀ k ∈ loopReads value n fuel
        (if isEscape (value.getD i 0) (value.getD (i + 1) 0) (value.getD (i + 2) 0) then i + 3
          else i + 1), k < n := by
  have h0 : i < n := by omega
  have h1 : i + 1 < n := by omega
  have h2 : i + 2 < n := by omega
  rw [loopReads, if_pos hi]
  by_cases hc : value.getD i 0 = 37
  · cases hh : isxdigit (value.getD (i + 1) 0) with
    | false => simp only [isEscape, hc, hh, List.forall_mem_cons, h0, h1, true_and, ne_eq,
        not_true_eq_false, if_false, if_true, beq_self_eq_true, Bool.and_false, Bool.false_and,
        Bool.false_eq_true]
    | true =>
        cases hl : isxdigit (value.getD (i + 2) 0) with
        | false => simp only [isEscape, hc, hh, hl, List.forall_mem_cons, h0, h1, h2, true_and,
            ne_eq, not_true_eq_false, if_false, if_true, Bool.and_false, Bool.false_eq_true,
            Bool.true_eq_false]
        | true => simp only [isEscape, hc, hh, hl, List.forall_mem_cons, h0, h1, h2, true_and,
            ne_eq, not_true_eq_false, if_false, if_true, beq_self_eq_true, Bool.and_self,
            Bool.true_eq_false]
  · have hno : isEscape (value.getD i 0) (value.getD (i + 1) 0) (value.getD (i + 2) 0) = false :=
      isEscape_eq_false_iff.mpr (Or.inl hc)
    simp only [hno, ne_eq, hc, not_false_eq_true, if_true, if_false, List.forall_mem_cons, h0,
      true_and, Bool.false_eq_true]

/-- The loop and the copy behind it stay in the value exactly if no escape that is left ends in its
last two bytes. -/
theorem loopReads_lt_iff {value : Bytes} {n : ℕ} (hn : n ≤ value.length) (fuel i : ℕ)
    (hfuel : n - i ≤ fuel + 2) (hi : i + 2 ≤ n) :
    (∀ k ∈ loopReads value n fuel i, k < n) ↔ TailFree ((value.take n).drop i) := by
  -- two bytes are left: they are what is copied behind the loop
  have hend : ∀ i, i + 2 = n →
      ((∀ k ∈ [i, i + 1], k < n) ↔ TailFree ((value.take n).drop i)) := by
    intro i hi
    refine iff_of_true ?_ (tailFree_short ?_)
    · intro k hk
      simp only [List.mem_cons, List.not_mem_nil, or_false] at hk
      omega
    · rw [List.length_drop, List.length_take]
      omega
  induction fuel generalizing i with
  | zero => exact hend i (by omega)
  | succ fuel ih =>
      by_cases hlt : i < n - 2
      · have hlen : (value.take n).length = n := by
          rw [List.length_take]
          omega
        have h0 : i < (value.take n).length := by omega
        have h1 : i + 1 < (value.take n).length := by omega
        have h2 : i + 2 < (value.take n).length := by omega
        have hget : ∀ k (hk : k < (value.take n).length), (value.take n)[k] = value.getD k 0 := by
          intro k hk
          rw [List.getElem_take, List.getElem_eq_getD 0]
        have hdrop1 : (value.take n).drop (i + 1) =
            value.getD (i + 1) 0 :: value.getD (i + 2) 0 :: (value.take n).drop (i + 3) := by
          rw [List.drop_eq_getElem_cons h1, List.drop_eq_getElem_cons h2, hget _ h1, hget _ h2]
        rw [loopReads_lt_step hlt, List.drop_eq_getElem_cons h0, hget _ h0, hdrop1, TailFree]
        split
        · -- an escape: two more bytes have to be left behind it
          have hrest : ((value.take n).drop (i + 3)).length = n - (i + 3) := by
            rw [List.length_drop, hlen]
          by_cases hroom : i + 3 + 2 ≤ n
          · have hrec := ih (i + 3) (by omega) hroom
            rw [hrest, and_iff_right (by omega)]
            exact hrec
          · refine iff_of_false ?_ (by rw [hrest]; omega)
            intro hall
            have hstop : loopReads value n fuel (i + 3) = [i + 3, i + 3 + 1] := by
              cases fuel with
              | zero => rfl
              | succ fuel => rw [loopReads, if_neg (by omega)]
            have hlast := hall (i + 3 + 1) (by simp [hstop])
            omega
        · have hrec := ih (i + 1) (by omega) (by omega)
          rw [hdrop1] at hrec
          exact hrec
      · rw [loopReads, if_neg hlt]
        exact hend i (by omega)

/-! ## What is returned -/

/-- The loop decodes as the reference does. -/
theorem decodeRest_eq_reference (stale : Bytes) : ∀ b : Bytes, 2 ≤ b.length → TailFree b →
    decodeRest b.length (b ++ stale) = referenceDecode b
  | [], hlen, _ => absurd hlen (by decide)
  | [_], hlen, _ => absurd hlen (Nat.not_succ_le_self 1)
  | [_, _], _, _ => by
      rw [decodeRest_le_two (by simp)]
      rfl
  | c :: h :: l :: rest, _, hfree => by
      have hlong : ¬ (c :: h :: l :: rest).length ≤ 2 := by
        simp only [List.length_cons]
        omega
      by_cases hescape : isEscape c h l = true
      · -- the loop goes on behind the escape
        rw [TailFree, if_pos hescape] at hfree
        have hrest := decodeRest_eq_reference stale rest hfree.1 hfree.2
        rw [referenceDecode, if_pos hescape, List.cons_append, ← hrest]
        show decodeRest _ (c :: h :: l :: (rest ++ stale)) = _
        rw [decodeRest, if_neg hlong, if_pos hescape, escapedByte]
        rfl
      · rw [TailFree, if_neg hescape] at hfree
        have hrest := decodeRest_eq_reference stale (h :: l :: rest) (by simp) hfree
        rw [referenceDecode, if_neg hescape, List.cons_append, ← hrest]
        show decodeRest _ (c :: h :: l :: (rest ++ stale)) = _
        rw [decodeRest, if_neg hlong, if_neg hescape]
        rfl

/-! ## The values that are decoded right -/

/-- `percent_decode` reads the value only, and returns what the reference makes of it. -/
def DecodesExactly (value : Bytes) (valuelen : ℕ) : Prop :=
  (∀ i ∈ percentDecodeReads value valuelen, i < valuelen) ∧
    percentDecode value valuelen = referenceDecode (value.take valuelen)

/-- `percent_decode` is right about a value exactly if no escape that the pass comes to ends in the
last two bytes. -/
theorem decodesExactly_iff {value : Bytes} {valuelen : ℕ} (hlen : valuelen ≤ value.length) :
    DecodesExactly value valuelen ↔ TailFree (value.take valuelen) := by
  have htake : (value.take valuelen).length = valuelen := List.length_take_of_le hlen
  unfold DecodesExactly percentDecodeReads
  rw [percentDecode_eq hlen]
  split
  · rename_i hlong
    rw [loopReads_lt_iff hlen valuelen 0 (by omega) (by omega), List.drop_zero]
    apply and_iff_left_of_imp
    intro hfree
    have heq := decodeRest_eq_reference (value.drop valuelen) (value.take valuelen) (by omega) hfree
    rwa [htake, List.take_append_drop] at heq
  · rename_i hshort
    have hreads : ∀ i ∈ List.range valuelen, i < valuelen := fun i hi => List.mem_range.mp hi
    rw [and_iff_right hreads]
    -- a value of three bytes may be one escape
    generalize value.take valuelen = b at htake
    cases b with
    | nil => exact iff_of_true rfl trivial
    | cons c b =>
    cases b with
    | nil => exact iff_of_true rfl trivial
    | cons h b =>
    cases b with
    | nil => exact iff_of_true rfl trivial
    | cons l rest =>
        have hnil : rest = [] := by
          apply List.eq_nil_of_length_eq_zero
          simp only [List.length_cons] at htake
          omega
        subst hnil
        cases hescape : isEscape c h l with
        | false => simp [referenceDecode, TailFree, hescape]
        | true => simp [referenceDecode, TailFree, hescape]

/-- An escape in the middle of a path. -/
theorem decodesExactly_space : DecodesExactly (ascii "/a%20bc") 7 :=
  (decodesExactly_iff (by decide)).mpr (by decide)

/-- Behind an escape at the end two bytes are read that are not there, and a value that is one escape
is not decoded. -/
theorem not_decodesExactly_end : ¬ DecodesExactly (ascii "/%41" ++ [0]) 4 ∧
    ¬ DecodesExactly (ascii "%41" ++ [0]) 3 := by
  constructor
  · rintro ⟨hreads, -⟩
    exact absurd (hreads 5 (by decide)) (by decide)
  · rintro ⟨-, hvalue⟩
    exact absurd hvalue (by decide)

end Gfhttpd.Http2
