import Gfhttpd.Http3.Conn
import Mathlib.Data.Nat.Digits.Defs

/-!
# The array of `get_http3_headers` (`main/http3/http3.c`)

The loop compares the name of an entry up to the length of that name, so any first part of
`:status` or of `content-length` passes, and so does what goes on behind a NUL.

- `writeHttp3Headers`: the loop over the table, with the array it writes into
- `writeHttp3Headers_eq`: every write is inside, and the result is that of `getHttp3Headers`
- `NearName`: the other names that pass the comparison
- `repliesWhole_iff`: when the array is what a comparison of whole names gives
-/

namespace Gfhttpd.Http3

open Http

/-! ## The loop -/

/-- The loop calls `sprintf` for this entry. -/
def prints (h : Header) : Bool :=
  !strncasecmpEq h.name (ascii ":status") h.nName &&
    strncasecmpEq h.name (ascii "content-length") h.nName

/-- The rounds of the loop from `idx` on: the table and the array behind them.  It fails on a write
past the end of `buf` or of the array. -/
def fillArray (httpStatus : Bytes) (len : ℕ) :
    List Header → ℕ → List (Bytes × Bytes) → Option (List Header × List (Bytes × Bytes))
  | [], _, h3Hdrs => some ([], h3Hdrs)
  | current :: rest, idx, h3Hdrs =>
      -- the digits and the NUL that `sprintf` adds
      if prints current && BUF_SIZE ≤ (formatSize len).length then none
      else if h3Hdrs.length ≤ idx then none
      else
        let current := fillHeader httpStatus len current
        let entry := (current.name.take current.nName, current.value.take current.nValue)
        match fillArray httpStatus len rest (idx + 1) (h3Hdrs.set idx entry) with
        | none => none
        | some (rest, h3Hdrs) => some (current :: rest, h3Hdrs)

/-- `get_http3_headers` with the array it allocates. -/
def writeHttp3Headers (headers : List Header) (httpStatus : Option Bytes) (len : ℕ) :
    Option (List Header × List (Bytes × Bytes)) :=
  match httpStatus with
  | none => none
  | some status =>
      if lengthHeader headers = 0 then none
      else fillArray status len headers 0 (List.replicate (lengthHeader headers) ([], []))

/-- The digits of a `size_t` fit into `buf`. -/
theorem length_formatSize_lt {len : ℕ} (hlen : len ≤ SIZE_MAX) :
    (formatSize len).length < BUF_SIZE := by
  have hdigits : (toString len).length ≤ 20 := by
    apply Nat.repr_length len 20 (by omega)
    rw [SIZE_MAX] at hlen
    omega
  rw [formatSize, ascii, List.length_map, String.length_toList, BUF_SIZE]
  omega

/-- The loop on an array with enough room. -/
theorem fillArray_eq (status : Bytes) {len : ℕ} (hlen : len ≤ SIZE_MAX) (headers : List Header)
    (done : List (Bytes × Bytes)) {room : List (Bytes × Bytes)}
    (hroom : room.length = headers.length) :
    fillArray status len headers done.length (done ++ room) =
      some (headers.map (fillHeader status len), done ++
        (headers.map (fillHeader status len)).map
          fun h => (h.name.take h.nName, h.value.take h.nValue)) := by
  induction headers generalizing done room with
  | nil =>
      obtain rfl := List.length_eq_zero_iff.mp hroom
      rfl
  | cons h rest ih =>
      obtain ⟨slot, room, rfl⟩ := List.exists_cons_of_length_eq_add_one hroom
      have hfits : ¬ (prints h && decide (BUF_SIZE ≤ (formatSize len).length)) = true := by
        have hlt := length_formatSize_lt hlen
        simp [hlt]
      have hinside : ¬ (done ++ slot :: room).length ≤ done.length := by simp
      -- the slots behind this one are left for the rest
      have hnext : ∀ entry, fillArray status len rest (done.length + 1)
          ((done ++ slot :: room).set done.length entry) = some (rest.map (fillHeader status len),
            (done ++ [entry]) ++ (rest.map (fillHeader status len)).map
              fun h => (h.name.take h.nName, h.value.take h.nValue)) := by
        intro entry
        rw [← ih (done ++ [entry]) (Nat.succ.inj hroom)]
        simp
      rw [fillArray, if_neg hfits, if_neg hinside]
      simp only [hnext]
      simp

theorem writeHttp3Headers_eq (headers : List Header) (httpStatus : Option Bytes) {len : ℕ}
    (hlen : len ≤ SIZE_MAX) :
    writeHttp3Headers headers httpStatus len = getHttp3Headers headers httpStatus len := by
  cases httpStatus with
  | none => rfl
  | some status =>
      show (if lengthHeader headers = 0 then _ else _) = if lengthHeader headers = 0 then _ else _
      split
      · rfl
      · exact fillArray_eq status hlen headers [] List.length_replicate

/-! ## Names that pass -/

/-- The names are the same, up to case. -/
def sameName (a b : Bytes) : Bool :=
  a.map toLower == b.map toLower

/-- The name is a proper first part of `a`, or goes on with a NUL behind `a`, up to case. -/
def NearName (a name : Bytes) : Prop :=
  name.map toLower <+: a.map toLower ∧ name.length < a.length ∨
    a.map toLower ++ [0] <+: name.map toLower

instance (a name : Bytes) : Decidable (NearName a name) := by
  unfold NearName
  infer_instance

/-- The comparison up to the length of the name, which is no shorter than its C string. -/
theorem strncasecmpEq_length_eq {a : Bytes} (ha : (0 : UInt8) ∉ a) (name : Bytes) :
    strncasecmpEq name a name.length = true ↔
      (cstr name).map toLower = (a.map toLower).take name.length := by
  have hprefix : (cstr name).take name.length = cstr name :=
    List.take_of_length_le (List.takeWhile_prefix _).length_le
  simp only [strncasecmpEq, hprefix, cstr_eq_self ha, beq_iff_eq, List.map_take]

/-- The comparison of a name with a NUL ends there. -/
theorem strncasecmpEq_of_zero {a : Bytes} (ha : (0 : UInt8) ∉ a) {name : Bytes}
    (hzero : (0 : UInt8) ∈ name) : strncasecmpEq name a name.length = true ↔
      a.map toLower ++ [0] <+: name.map toLower := by
  have hle := length_cstr_le name
  have hfree : (0 : UInt8) ∉ a.map toLower := mt zero_mem_map_toLower.mp ha
  obtain ⟨rest, hrest⟩ := exists_append_nul hzero
  have hlower : name.map toLower = (cstr name).map toLower ++ 0 :: rest.map toLower := by
    conv_lhs => rw [hrest]
    simp [toLower]
  have hlonger : (cstr name).length < name.length := by
    rw [hrest, cstr_append_nul (not_mem_cstr name)]
    simp
  rw [strncasecmpEq_length_eq ha]
  constructor
  · -- the name goes on behind its NUL, so the C string is no shorter than `a`
    intro heq
    have hlengths := congrArg List.length heq
    simp only [List.length_map, List.length_take] at hlengths
    have hall : (cstr name).map toLower = a.map toLower := by
      rw [heq, List.take_of_length_le]
      rw [List.length_map]
      omega
    refine ⟨rest.map toLower, ?_⟩
    rw [hlower, hall, List.append_assoc]
    rfl
  · rintro ⟨more, hmore⟩
    have hcstr : (0 : UInt8) ∉ (cstr name).map toLower :=
      mt zero_mem_map_toLower.mp (not_mem_cstr name)
    -- both are what is there before the first NUL
    have hall : a.map toLower = (cstr name).map toLower := by
      rw [← cstr_append_nul hfree more, ← cstr_append_nul hcstr (rest.map toLower), ← hlower,
        ← hmore, List.append_assoc]
      rfl
    rw [hall, List.take_of_length_le]
    rw [List.length_map]
    exact hle

/-- Any other name is compared as a whole with the first part of the same length. -/
theorem strncasecmpEq_of_not_zero {a : Bytes} (ha : (0 : UInt8) ∉ a) {name : Bytes}
    (hzero : (0 : UInt8) ∉ name) : strncasecmpEq name a name.length = true ↔
      name.map toLower <+: a.map toLower := by
  rw [strncasecmpEq_length_eq ha, cstr_eq_self hzero, List.prefix_iff_eq_take, List.length_map]

/-- What `strncasecmp` up to the length of the name lets through. -/
theorem strncasecmpEq_length_iff {a : Bytes} (ha : (0 : UInt8) ∉ a) (name : Bytes) :
    strncasecmpEq name a name.length = true ↔ sameName name a = true ∨ NearName a name := by
  have hfree : (0 : UInt8) ∉ a.map toLower := mt zero_mem_map_toLower.mp ha
  by_cases hzero : (0 : UInt8) ∈ name
  · -- `a` has no NUL, so the name is not the same, and no first part of it
    have hnul : (0 : UInt8) ∈ name.map toLower := zero_mem_map_toLower.mpr hzero
    rw [strncasecmpEq_of_zero ha hzero, sameName, beq_iff_eq]
    constructor
    · exact fun hmore => Or.inr (Or.inr hmore)
    · rintro (hsame | ⟨hpre, -⟩ | hmore)
      · exact absurd (hsame ▸ hnul) hfree
      · exact absurd (hpre.subset hnul) hfree
      · exact hmore
  · -- nothing goes on behind a NUL that is not there
    have hnul : ¬ a.map toLower ++ [0] <+: name.map toLower := by
      intro hpre
      exact hzero (zero_mem_map_toLower.mp (hpre.subset (by simp)))
    rw [strncasecmpEq_of_not_zero ha hzero, sameName, beq_iff_eq]
    constructor
    · intro hpre
      have hlengths := hpre.length_le
      simp only [List.length_map] at hlengths
      rcases Nat.lt_or_eq_of_le hlengths with hlt | heq
      · exact Or.inr (Or.inl ⟨hpre, hlt⟩)
      · exact Or.inl (hpre.eq_of_length (by simpa using heq))
    · rintro (hsame | ⟨hpre, -⟩ | hmore)
      · exact hsame ▸ List.prefix_refl _
      · exact hpre
      · exact absurd hmore hnul

/-! ## What the array should be -/

/-- The lengths of an entry are those of its name and of its value. -/
def IsWhole (h : Header) : Prop :=
  h.nName = h.name.length ∧ h.nValue = h.value.length

instance (h : Header) : Decidable (IsWhole h) := by
  unfold IsWhole
  infer_instance

/-- The entry afterwards, if whole names were compared. -/
def wholeHeader (httpStatus : Bytes) (len : ℕ) (h : Header) : Header :=
  if sameName h.name (ascii ":status") then
    { h with value := httpStatus, nValue := httpStatus.length }
  else if sameName h.name (ascii "content-length") then
    { h with value := formatSize len, nValue := (formatSize len).length }
  else h

/-- One entry of the array for each entry of the table, in order, all of them inside; the values
of `:status` and of `content-length` are replaced, and everything else is copied. -/
def RepliesWhole (headers : List Header) (httpStatus : Bytes) (len : ℕ) : Prop :=
  writeHttp3Headers headers (some httpStatus) len =
    some (headers.map (wholeHeader httpStatus len),
      (headers.map (wholeHeader httpStatus len)).map fun h => (h.name, h.value))

/-- Where a name is only near `:status`, the value is the status already, and where it is near
`content-length`, it is that length.  The empty name is near both, and comes to the first. -/
def NearOnesAgree (httpStatus : Bytes) (len : ℕ) (h : Header) : Prop :=
  (NearName (ascii ":status") h.name → h.value = httpStatus) ∧
    (h.name ≠ [] → NearName (ascii "content-length") h.name → h.value = formatSize len)

instance (httpStatus : Bytes) (len : ℕ) (h : Header) :
    Decidable (NearOnesAgree httpStatus len h) := by
  unfold NearOnesAgree
  infer_instance

/-! ## One entry -/

section Entry

variable {httpStatus : Bytes} {len : ℕ} {h : Header}

theorem IsWhole.fillHeader (hwhole : IsWhole h) : IsWhole (fillHeader httpStatus len h) := by
  unfold Http3.fillHeader
  split
  · exact ⟨hwhole.1, rfl⟩
  · split
    · exact ⟨hwhole.1, rfl⟩
    · exact hwhole

theorem IsWhole.set_eq_iff (hwhole : IsWhole h) (value : Bytes) :
    { h with value := value, nValue := value.length } = h ↔ h.value = value := by
  constructor
  · intro heq
    exact (congrArg Header.value heq).symm
  · rintro rfl
    rw [← hwhole.2]

/-- Who is only near has another length. -/
theorem not_same_of_near {a name : Bytes} (h : NearName a name) : sameName name a = false := by
  rw [Bool.eq_false_iff]
  intro hsame
  have hlength : name.length = a.length := by
    simpa using congrArg List.length (beq_iff_eq.mp hsame)
  rcases h with ⟨-, hlt⟩ | hmore
  · omega
  · have hle := hmore.length_le
    simp only [List.length_append, List.length_map, List.length_singleton] at hle
    omega

/-- A name that is not empty begins like the one it is near to. -/
theorem head_of_passes {a name : Bytes} {b c : UInt8} {as cs : Bytes} (ha : a = b :: as)
    (hname : name = c :: cs) (h : sameName name a = true ∨ NearName a name) :
    toLower c = toLower b := by
  subst ha hname
  rcases h with hsame | ⟨hpre, -⟩ | hpre
  · exact (List.cons.inj (beq_iff_eq.mp hsame)).1
  · exact (List.cons_prefix_cons.mp hpre).1
  · exact (List.cons_prefix_cons.mp hpre).1.symm

/-- A name that is not empty is not near both. -/
theorem not_both {name : Bytes} (hne : name ≠ [])
    (h : sameName name (ascii ":status") = true ∨ NearName (ascii ":status") name) :
    ¬ (sameName name (ascii "content-length") = true ∨
      NearName (ascii "content-length") name) := by
  intro h'
  obtain ⟨c, cs, hname⟩ := List.exists_cons_of_ne_nil hne
  have hcolon := head_of_passes (show ascii ":status" = 58 :: ascii "status" by decide) hname h
  have hletter :=
    head_of_passes (show ascii "content-length" = 99 :: ascii "ontent-length" by decide) hname h'
  exact absurd (hcolon.symm.trans hletter) (by decide)

/-- An entry gets the value it should exactly if a name that is only near agrees already. -/
theorem fillHeader_eq_iff (hwhole : IsWhole h) :
    fillHeader httpStatus len h = wholeHeader httpStatus len h ↔ NearOnesAgree httpStatus len h := by
  have hstatus := strncasecmpEq_length_iff (show (0 : UInt8) ∉ ascii ":status" by decide) h.name
  have hcontent :=
    strncasecmpEq_length_iff (show (0 : UInt8) ∉ ascii "content-length" by decide) h.name
  rw [← hwhole.1] at hstatus hcontent
  have hempty : NearName (ascii ":status") [] := by decide
  unfold Http3.fillHeader wholeHeader NearOnesAgree
  by_cases hpass : sameName h.name (ascii ":status") = true ∨ NearName (ascii ":status") h.name
  · have hno := fun hne => not_both hne hpass
    rw [if_pos (hstatus.mpr hpass)]
    by_cases hsame : sameName h.name (ascii ":status") = true
    · -- the name is `:status`
      rw [if_pos hsame]
      refine iff_of_true rfl ⟨fun hnear => ?_, fun hne hnear => absurd (Or.inr hnear) (hno hne)⟩
      exact absurd hsame (by rw [not_same_of_near hnear]; decide)
    · -- it is only near, and no other value is expected
      have hnear := hpass.resolve_left hsame
      have hother : ¬ sameName h.name (ascii "content-length") = true := by
        by_cases hne : h.name = []
        · rw [hne]
          decide
        · exact fun hsame' => hno hne (Or.inl hsame')
      rw [if_neg hsame, if_neg hother, hwhole.set_eq_iff]
      exact ⟨fun hvalue => ⟨fun _ => hvalue, fun hne hnear' => absurd (Or.inr hnear') (hno hne)⟩,
        fun hagree => hagree.1 hnear⟩
  · obtain ⟨hsame, hfar⟩ := not_or.mp hpass
    have hne : h.name ≠ [] := fun hnil => hfar (hnil ▸ hempty)
    rw [if_neg (mt hstatus.mp hpass), if_neg hsame]
    by_cases hpass' : sameName h.name (ascii "content-length") = true ∨
        NearName (ascii "content-length") h.name
    · rw [if_pos (hcontent.mpr hpass')]
      by_cases hsame' : sameName h.name (ascii "content-length") = true
      · -- the name is `content-length`
        rw [if_pos hsame']
        refine iff_of_true rfl ⟨fun hnear => absurd hnear hfar, fun _ hnear => ?_⟩
        exact absurd hsame' (by rw [not_same_of_near hnear]; decide)
      · -- it is only near
        have hnear := hpass'.resolve_left hsame'
        rw [if_neg hsame', hwhole.set_eq_iff]
        exact ⟨fun hvalue => ⟨fun hnear' => absurd hnear' hfar, fun _ _ => hvalue⟩,
          fun hagree => hagree.2 hne hnear⟩
    · -- the entry is copied
      obtain ⟨hsame', hfar'⟩ := not_or.mp hpass'
      rw [if_neg (mt hcontent.mp hpass'), if_neg hsame']
      exact iff_of_true rfl
        ⟨fun hnear => absurd hnear hfar, fun _ hnear => absurd hnear hfar'⟩

end Entry

/-! ## Every table -/

/-- **For every table that is not empty, `get_http3_headers` compares whole names exactly if every
entry whose name is only near `:status` or `content-length` has the value already that it would be
given.** -/
theorem repliesWhole_iff {headers : List Header} (hne : headers ≠ [])
    (hwhole : ∀ h ∈ headers, IsWhole h) (httpStatus : Bytes) {len : ℕ} (hlen : len ≤ SIZE_MAX) :
    RepliesWhole headers httpStatus len ↔ ∀ h ∈ headers, NearOnesAgree httpStatus len h := by
  have hlength : ¬ lengthHeader headers = 0 := mt List.length_eq_zero_iff.mp hne
  have hcopied : (headers.map (fillHeader httpStatus len)).map
      (fun h => (h.name.take h.nName, h.value.take h.nValue)) =
        (headers.map (fillHeader httpStatus len)).map fun h => (h.name, h.value) := by
    apply List.map_congr_left
    intro h hmem
    obtain ⟨old, hold, rfl⟩ := List.mem_map.mp hmem
    have hfilled : IsWhole (fillHeader httpStatus len old) := (hwhole old hold).fillHeader
    obtain ⟨hname, hvalue⟩ := hfilled
    rw [hname, hvalue, List.take_length, List.take_length]
  have heach : headers.map (fillHeader httpStatus len) = headers.map (wholeHeader httpStatus len) ↔
      ∀ h ∈ headers, NearOnesAgree httpStatus len h := by
    rw [List.map_inj_left]
    exact forall₂_congr fun h hmem => fillHeader_eq_iff (hwhole h hmem)
  rw [RepliesWhole, writeHttp3Headers_eq headers _ hlen, ← heach]
  simp only [getHttp3Headers, if_neg hlength, hcopied, Option.some.injEq, Prod.mk.injEq]
  constructor
  · rintro ⟨htable, -⟩
    exact htable
  · intro htable
    rw [htable]
    exact ⟨rfl, rfl⟩

/-- The table of a local file. -/
theorem repliesWhole_file :
    RepliesWhole [serverStatus, serverHeader,
      createHeader (ascii "Content-Length") 14 (ascii "0") 1] (ascii "404") 9 :=
  (repliesWhole_iff (by decide) (by decide) (ascii "404") (by decide)).mpr (by decide)

/-- A header `content` gets the length for its value. -/
theorem not_repliesWhole_near :
    ¬ RepliesWhole [serverStatus, createHeader (ascii "content") 7 (ascii "text") 4]
      (ascii "200") 9 := by
  unfold RepliesWhole
  decide

end Gfhttpd.Http3
