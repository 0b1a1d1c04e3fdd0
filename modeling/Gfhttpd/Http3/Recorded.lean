import Gfhttpd.Http3.WellFormed

/-!
# What is recorded of the fields of a request (`main/http3/event_cb.c`)

`for_each_header` copies a name and a value with `strndup`, which stops at a NUL, keeps the
lengths it was given, and looks a name up as the C string that the copy is.

- `readable`: the bytes that a pointer and a length stand for
- `Recorded`: a table with one entry for each name of a block, with its last value
- `recorded_iff`: the tables and the blocks for which that is what is left
-/

namespace Gfhttpd.Http3

open Http Conf Router Transition

variable {Code : Type}

/-! ## Bytes that can be read -/

/-- The first `n` bytes at a C string, as long as they do not go on behind its NUL. -/
def readable (s : Bytes) (n : ℕ) : Option Bytes :=
  if n ≤ s.length + 1 then some ((s ++ [0]).take n) else none

/-- The bytes of the name of an entry. -/
def nameBytes (h : Header) : Option Bytes :=
  readable h.name h.nName

/-- The bytes of its value. -/
def valueBytes (h : Header) : Option Bytes :=
  readable h.value h.nValue

/-- A copy by `strndup` has all the bytes: a NUL can only be the last of them. -/
def CopiesWhole (b : Bytes) : Prop :=
  (0 : UInt8) ∉ b.dropLast

instance (b : Bytes) : Decidable (CopiesWhole b) := by
  unfold CopiesWhole
  infer_instance

/-- What can be read of a copy. -/
def copied (b : Bytes) : Option Bytes :=
  if CopiesWhole b then some b else none

theorem strndup_length (b : Bytes) : strndup b b.length = cstr b := by
  rw [strndup, List.take_length]

theorem CopiesWhole.of_not_mem {b : Bytes} (h : (0 : UInt8) ∉ b) : CopiesWhole b :=
  fun hmem => h (List.dropLast_subset b hmem)

/-- A name with a NUL that is copied whole ends with it. -/
theorem copiesWhole_iff_of_mem {b : Bytes} (h : (0 : UInt8) ∈ b) :
    CopiesWhole b ↔ b = cstr b ++ [0] := by
  obtain ⟨rest, hrest⟩ := exists_append_nul h
  constructor
  · intro hwhole
    cases hlast : rest with
    | nil => rw [hlast] at hrest; exact hrest
    | cons c cs =>
        -- the NUL is before the last byte
        exfalso
        apply hwhole
        rw [hrest, hlast, List.dropLast_append_of_ne_nil (List.cons_ne_nil _ _),
          List.dropLast_cons_of_ne_nil (List.cons_ne_nil _ _)]
        exact List.mem_append_right _ (List.mem_cons_self ..)
  · intro heq hmem
    rw [heq, List.dropLast_concat] at hmem
    exact not_mem_cstr b hmem

theorem readable_copy (b : Bytes) : readable (cstr b) b.length = copied b := by
  unfold readable copied
  by_cases hzero : (0 : UInt8) ∈ b
  · obtain ⟨rest, hrest⟩ := exists_append_nul hzero
    have hlength := congrArg List.length hrest
    rw [List.length_append, List.length_cons] at hlength
    by_cases hwhole : CopiesWhole b
    · -- the NUL that `strndup` adds stands for the one at the end
      have heq := (copiesWhole_iff_of_mem hzero).mp hwhole
      have hlength' := congrArg List.length heq
      rw [List.length_append, List.length_singleton] at hlength'
      rw [if_pos hwhole, if_pos (by omega), ← heq, List.take_length]
    · rw [if_neg hwhole, if_neg]
      intro hle
      obtain rfl : rest = [] := List.length_eq_zero_iff.mp (by omega)
      exact hwhole ((copiesWhole_iff_of_mem hzero).mpr hrest)
  · rw [cstr_eq_self hzero, if_pos (Nat.le_succ _), if_pos (.of_not_mem hzero),
      List.take_left]

/-! ## What should be recorded -/

/-- The value of the last field with `p`. -/
def lastValue (p : Bytes × Bytes → Bool) (fs : List (Bytes × Bytes)) : Option Bytes :=
  (fs.reverse.find? p).map Prod.snd

/-- The field has this name. -/
def isNamed (name : Bytes) (f : Bytes × Bytes) : Bool :=
  f.1 == name

/-- The field is looked up under this C string. -/
def isFound (name : Bytes) (f : Bytes × Bytes) : Bool :=
  fieldName f == name

/-- Every entry is one for a name of the block, and for each name there is one entry, with the
value of its last field. -/
structure Recorded (headers : List Header) (fs : List (Bytes × Bytes)) : Prop where
  named : ∀ h ∈ headers, ∃ f ∈ fs, nameBytes h = some f.1
  once : ∀ f ∈ fs, (headers.filter fun h => nameBytes h == some f.1).map valueBytes =
    [lastValue (isNamed f.1) fs]

/-- Keys of the table are compared as values. -/
instance lawfulBEq_key : LawfulBEq (Bytes × ℕ) := inferInstance

/-- The fields up to the first one with the name, none if the table has an entry that is found
under it. -/
def unfound (keys : List (Bytes × ℕ)) (name : Bytes) (fs : List (Bytes × Bytes)) :
    List (Bytes × Bytes) :=
  if (name, name.length) ∈ keys then [] else fs.takeWhile fun f => !isNamed name f

/-- No entry is left of another name.  A name without a NUL has the value of the last field that is
found under it, and can be read whole.  A name with a NUL has it at its end, and one entry of before
or one field before the first that is found without the NUL, with the value of its last field. -/
structure Recordable (headers : List Header) (fs : List (Bytes × Bytes)) : Prop where
  left : ∀ h ∈ headers, ∃ f ∈ fs, nameBytes h = some f.1
  plain : ∀ f ∈ fs, (0 : UInt8) ∉ f.1 →
    (lastValue (isFound f.1) fs).bind copied = lastValue (isNamed f.1) fs
  nul : ∀ f ∈ fs, (0 : UInt8) ∈ f.1 → CopiesWhole f.1 ∧
    (headers.filter fun h => nameBytes h == some f.1).map valueBytes ++
        ((unfound (headers.map keyOf) (fieldName f) fs).filter (isNamed f.1)).map
          (fun g => copied g.2) =
      [lastValue (isNamed f.1) fs]

theorem recordable_iff {headers : List Header} {fs : List (Bytes × Bytes)} :
    Recordable headers fs ↔ (∀ h ∈ headers, ∃ f ∈ fs, nameBytes h = some f.1) ∧
      (∀ f ∈ fs, (0 : UInt8) ∉ f.1 →
        (lastValue (isFound f.1) fs).bind copied = lastValue (isNamed f.1) fs) ∧
      ∀ f ∈ fs, (0 : UInt8) ∈ f.1 → CopiesWhole f.1 ∧
        (headers.filter fun h => nameBytes h == some f.1).map valueBytes ++
            ((unfound (headers.map keyOf) (fieldName f) fs).filter (isNamed f.1)).map
              (fun g => copied g.2) =
          [lastValue (isNamed f.1) fs] :=
  ⟨fun h => ⟨h.left, h.plain, h.nul⟩, fun ⟨hleft, hplain, hnul⟩ => ⟨hleft, hplain, hnul⟩⟩

instance (headers : List Header) (fs : List (Bytes × Bytes)) : Decidable (Recordable headers fs) :=
  decidable_of_iff _ recordable_iff.symm

/-! ## Entries of a connection -/

/-- The key of an entry is that of a field. -/
def IsRecord (h : Header) : Prop :=
  ∃ b : Bytes, keyOf h = (cstr b, b.length)

theorem fieldName_eq (f : Bytes × Bytes) : fieldName f = cstr f.1 :=
  strndup_length f.1

theorem keyOf_newEntry (f : Bytes × Bytes) : keyOf (newEntry f) = (cstr f.1, f.1.length) := by
  rw [← fieldName_eq]
  rfl

theorem nameBytes_newEntry (f : Bytes × Bytes) : nameBytes (newEntry f) = copied f.1 := by
  rw [← readable_copy, ← fieldName_eq]
  rfl

theorem valueBytes_newEntry (f : Bytes × Bytes) : valueBytes (newEntry f) = copied f.2 := by
  rw [← readable_copy, ← strndup_length]
  rfl

theorem nameBytes_congr {h h' : Header} (hkey : keyOf h = keyOf h') :
    nameBytes h = nameBytes h' := by
  obtain ⟨hname, hlength⟩ := Prod.mk.inj hkey
  rw [nameBytes, nameBytes, hname, hlength]

theorem copied_eq_some_iff {b b' : Bytes} : copied b = some b' ↔ b = b' ∧ CopiesWhole b' := by
  unfold copied
  split
  · next hwhole =>
      rw [Option.some.injEq]
      exact ⟨fun heq => ⟨heq, heq ▸ hwhole⟩, fun heq => heq.1⟩
  · next hpart =>
      refine iff_of_false (Option.some_ne_none b').symm ?_
      rintro ⟨rfl, hwhole⟩
      exact hpart hwhole

/-- The entries with a given name have one key. -/
theorem IsRecord.nameBytes_iff {h : Header} (hrecord : IsRecord h) {b : Bytes} :
    nameBytes h = some b ↔ CopiesWhole b ∧ keyOf h = (cstr b, b.length) := by
  constructor
  · intro hname
    obtain ⟨b', hkey⟩ := hrecord
    obtain ⟨hname', hlength⟩ := Prod.mk.inj hkey
    have hcopied : copied b' = some b := by
      rw [← readable_copy, ← hname', ← hlength]
      exact hname
    obtain ⟨rfl, hwhole⟩ := copied_eq_some_iff.mp hcopied
    exact ⟨hwhole, hkey⟩
  · rintro ⟨hwhole, hkey⟩
    obtain ⟨hname, hlength⟩ := Prod.mk.inj hkey
    rw [nameBytes, hname, hlength, readable_copy]
    exact copied_eq_some_iff.mpr ⟨rfl, hwhole⟩

/-- The keys behind the fields of a block. -/
theorem keys_insertFields (headers : List Header) (fs : List (Bytes × Bytes)) :
    (insertFields headers fs).map keyOf =
      headers.map keyOf ++ (newFields (headers.map keyOf) fs).map (keyOf ∘ newEntry) :=
  (insertFields_spec fs (fun _ h => h) headers).1

theorem mem_newFields {keys : List (Bytes × ℕ)} {fs : List (Bytes × Bytes)} {f : Bytes × Bytes}
    (h : f ∈ newFields keys fs) : f ∈ fs := by
  induction fs generalizing keys with
  | nil => cases h
  | cons g fs ih =>
      unfold newFields at h
      split at h
      · exact List.mem_cons_of_mem _ (ih h)
      · rcases List.mem_cons.mp h with rfl | h
        · exact List.mem_cons_self ..
        · exact List.mem_cons_of_mem _ (ih h)

/-- An entry behind the block has the key of one before, or of a field that added one. -/
theorem key_of_mem_insertFields {headers : List Header} {fs : List (Bytes × Bytes)} {h : Header}
    (hmem : h ∈ insertFields headers fs) : (∃ old ∈ headers, keyOf old = keyOf h) ∨
      ∃ f ∈ fs, keyOf (newEntry f) = keyOf h := by
  have hkey := List.mem_map_of_mem (f := keyOf) hmem
  rw [keys_insertFields, List.mem_append, List.mem_map, List.mem_map] at hkey
  rcases hkey with hold | ⟨f, hf, hnew⟩
  · exact Or.inl hold
  · exact Or.inr ⟨f, mem_newFields hf, hnew⟩

theorem isRecord_insertFields {headers : List Header} (hrecords : ∀ h ∈ headers, IsRecord h)
    (fs : List (Bytes × Bytes)) : ∀ h ∈ insertFields headers fs, IsRecord h := by
  intro h hmem
  rcases key_of_mem_insertFields hmem with ⟨old, hold, hkey⟩ | ⟨f, hf, hkey⟩
  · obtain ⟨b, hb⟩ := hrecords old hold
    exact ⟨b, hkey.symm.trans hb⟩
  · exact ⟨f.1, hkey.symm.trans (keyOf_newEntry f)⟩

/-! ## Names without a NUL -/

theorem lastValue_concat (p : Bytes × Bytes → Bool) (fs : List (Bytes × Bytes))
    (f : Bytes × Bytes) :
    lastValue p (fs ++ [f]) = if p f = true then some f.2 else lastValue p fs := by
  unfold lastValue
  rw [List.reverse_concat, List.find?_cons]
  split
  · next h => rw [if_pos h]; rfl
  · next h => rw [if_neg (by simp [h])]

/-- The entry of a C string has the value of the last field that is found under it. -/
theorem value_of_hasKey {headers : List Header} (hunique : UniqueKeys headers)
    {fs : List (Bytes × Bytes)} {h : Header} (hmem : h ∈ insertFields headers fs) {name v : Bytes}
    (hkey : h.hasKey name = true) (hlast : lastValue (isFound name) fs = some v) :
    valueBytes h = copied v := by
  -- on the fields from the last one: it decides, or leaves the entry alone
  induction fs using List.reverseRecOn with
  | nil => cases hlast
  | append_singleton fs f ih =>
      have hsnoc : insertFields headers (fs ++ [f]) = insertField (insertFields headers fs) f := by
        simp only [insertFields, List.foldl_append, List.foldl_cons, List.foldl_nil]
      rw [hsnoc] at hmem
      rw [lastValue_concat] at hlast
      have hone := mem_insertField (hunique.insertFields fs) hmem
      by_cases hfound : fieldName f = name
      · have hlast' : isFound name f = true := beq_iff_eq.mpr hfound
        rw [if_pos hlast'] at hlast
        obtain rfl := Option.some.inj hlast
        rw [hfound, if_pos hkey] at hone
        rw [valueBytes, hone.1, hone.2, strndup_length, readable_copy]
      · rw [if_neg (by simpa [isFound] using hfound)] at hlast
        have hother : ¬ h.hasKey (fieldName f) = true := by
          intro hkey'
          have heq := (hasKey_iff.mp hkey').symm.trans (hasKey_iff.mp hkey)
          exact hfound (congrArg Prod.fst heq)
        rw [if_neg hother] at hone
        refine ih (hone.resolve_right ?_) hlast
        rintro rfl
        exact hfound (congrArg Prod.fst (hasKey_iff.mp hkey))

/-- A field without a NUL in its name leaves an entry that is found under it. -/
theorem key_mem_of_plain {headers : List Header} {fs : List (Bytes × Bytes)} {f : Bytes × Bytes}
    (hf : f ∈ fs) (hplain : (0 : UInt8) ∉ f.1) :
    (f.1, f.1.length) ∈ (insertFields headers fs).map keyOf := by
  have hname : fieldName f = f.1 := (fieldName_eq f).trans (cstr_eq_self hplain)
  induction fs generalizing headers with
  | nil => cases hf
  | cons g fs ih =>
      -- the entry of a field stays in the table to the end
      show _ ∈ (insertFields (insertField headers g) fs).map keyOf
      rcases List.mem_cons.mp hf with rfl | hf
      · rw [keys_insertFields]
        apply List.mem_append_left
        rw [insertField_eq, hname]
        split
        · next hmem =>
            rw [map_keyOf_setHeader]
            exact hmem
        · rw [List.map_append]
          apply List.mem_append_right
          rw [List.map_singleton, keyOf_newEntry, cstr_eq_self hplain]
          exact List.mem_singleton.mpr rfl
      · exact ih hf

/-- Under a C string there is one entry. -/
theorem filter_key_eq {headers : List Header} (hunique : UniqueKeys headers) {name : Bytes}
    (hmem : (name, name.length) ∈ headers.map keyOf) :
    ∃ h ∈ headers, h.hasKey name = true ∧ headers.filter (fun h => h.hasKey name) = [h] := by
  induction headers with
  | nil => cases hmem
  | cons h rest ih =>
      obtain ⟨hhead, htail⟩ := List.pairwise_cons.mp hunique
      by_cases hkey : h.hasKey name = true
      · -- no later entry has the key of this one
        refine ⟨h, List.mem_cons_self .., hkey, ?_⟩
        rw [List.filter_cons, if_pos hkey, List.filter_eq_nil_iff.mpr]
        intro h' hmem' hkey'
        apply hhead (keyOf h') (List.mem_map_of_mem hmem')
        · rw [hasKey_iff.mp hkey, hasKey_iff.mp hkey']
        · rw [hasKey_iff.mp hkey]
          rfl
      · have hrest : (name, name.length) ∈ rest.map keyOf := by
          rcases List.mem_cons.mp hmem with heq | hmem
          · exact absurd (hasKey_iff.mpr heq.symm) hkey
          · exact hmem
        obtain ⟨h', hmem', hkey', hfilter⟩ := ih htail hrest
        refine ⟨h', List.mem_cons_of_mem _ hmem', hkey', ?_⟩
        rw [List.filter_cons, if_neg hkey, hfilter]

theorem exists_lastValue {p : Bytes × Bytes → Bool} {fs : List (Bytes × Bytes)} {f : Bytes × Bytes}
    (hf : f ∈ fs) (hp : p f = true) : ∃ v, lastValue p fs = some v := by
  cases hfind : fs.reverse.find? p with
  | none => exact absurd hp (List.find?_eq_none.mp hfind f (List.mem_reverse.mpr hf))
  | some g => exact ⟨g.2, by rw [lastValue, hfind]; rfl⟩

/-- What is recorded for a name without a NUL. -/
theorem recorded_plain {headers : List Header} (hunique : UniqueKeys headers)
    (hrecords : ∀ h ∈ headers, IsRecord h) {fs : List (Bytes × Bytes)} {f : Bytes × Bytes}
    (hf : f ∈ fs) (hplain : (0 : UInt8) ∉ f.1) :
    ((insertFields headers fs).filter fun h => nameBytes h == some f.1).map valueBytes =
      [(lastValue (isFound f.1) fs).bind copied] := by
  have hname : cstr f.1 = f.1 := cstr_eq_self hplain
  have hpresent : (f.1, f.1.length) ∈ (insertFields headers fs).map keyOf :=
    key_mem_of_plain hf hplain
  obtain ⟨h, hmem, hkey, hfilter⟩ := filter_key_eq (hunique.insertFields fs) hpresent
  have hsame : (insertFields headers fs).filter (fun h => nameBytes h == some f.1) =
      (insertFields headers fs).filter fun h => h.hasKey f.1 := by
    apply List.filter_congr
    intro h' hmem'
    rw [Bool.eq_iff_iff, beq_iff_eq,
      (isRecord_insertFields hrecords fs h' hmem').nameBytes_iff, hname, hasKey_iff]
    exact and_iff_right (.of_not_mem hplain)
  obtain ⟨v, hlast⟩ : ∃ v, lastValue (isFound f.1) fs = some v :=
    exists_lastValue hf (beq_iff_eq.mpr ((fieldName_eq f).trans hname))
  rw [hsame, hfilter, List.map_singleton, value_of_hasKey hunique hmem hkey hlast, hlast]
  rfl

/-! ## Names with a NUL -/

/-- The fields with a given name that add an entry come before the first one with its C string. -/
theorem newFields_filter_eq {keys : List (Bytes × ℕ)} {fs : List (Bytes × Bytes)} {name : Bytes}
    (hzero : (0 : UInt8) ∈ name) : (newFields keys fs).filter (isNamed name) =
      (unfound keys (cstr name) fs).filter (isNamed name) := by
  have hne : cstr name ≠ name := fun heq => not_mem_cstr name (heq.symm ▸ hzero)
  -- on the fields: whether the C string is found only changes once
  induction fs generalizing keys with
  | nil =>
      unfold unfound
      split <;> rfl
  | cons f fs ih =>
      unfold newFields unfound
      have hrest := @ih keys
      have hadded := @ih (keys ++ [(fieldName f, f.1.length)])
      unfold unfound at hrest hadded
      by_cases hkey : (cstr name, (cstr name).length) ∈ keys
      · rw [if_pos hkey] at hrest ⊢
        rw [if_pos (List.mem_append_left _ hkey)] at hadded
        split
        · exact hrest
        · next hnew =>
            -- a field with this name would have been found
            have hother : ¬ isNamed name f = true := by
              intro hnamed
              apply hnew
              rw [fieldName_eq, beq_iff_eq.mp hnamed]
              exact hkey
            rw [List.filter_cons, if_neg hother, hadded]
      · rw [if_neg hkey] at hrest ⊢
        by_cases hplain : f.1 = cstr name
        · -- the first field with the C string
          have hfound : fieldName f = cstr name := by
            rw [fieldName_eq, hplain, cstr_eq_self (not_mem_cstr name)]
          have hother : ¬ isNamed name f = true := by simpa [isNamed, hplain] using hne
          have hin : (cstr name, (cstr name).length) ∈ keys ++ [(fieldName f, f.1.length)] := by
            rw [hfound, hplain]
            exact List.mem_append_right _ (List.mem_singleton.mpr rfl)
          rw [if_pos hin] at hadded
          rw [if_neg (by rw [hfound]; exact hkey), List.filter_cons, if_neg hother, hadded,
            List.takeWhile_cons_of_neg (by simp [isNamed, hplain])]
        · have hout : (cstr name, (cstr name).length) ∉ keys ++ [(fieldName f, f.1.length)] := by
            rw [List.mem_append, List.mem_singleton, not_or]
            refine ⟨hkey, fun heq => hplain ?_⟩
            obtain ⟨hname, hlength⟩ := Prod.mk.inj heq
            rw [fieldName_eq] at hname
            -- a name as long as its C string is that C string
            exact ((List.takeWhile_prefix _).eq_of_length
              ((congrArg List.length hname.symm).trans hlength)).symm.trans hname.symm
          rw [if_neg hout] at hadded
          rw [List.takeWhile_cons_of_pos (by simpa [isNamed] using hplain)]
          split
          · next hold =>
              -- a field with the given name would have its C string among the keys
              have hother : ¬ isNamed name f = true := by
                intro hnamed
                rw [fieldName_eq, beq_iff_eq.mp hnamed] at hold
                exact hkey hold
              rw [hrest, List.filter_cons, if_neg hother]
          · rw [List.filter_cons, List.filter_cons, hadded]

/-- An entry whose name has a NUL is set by no field. -/
theorem unset_of_nameBytes {h : Header} (hrecord : IsRecord h) {name : Bytes}
    (hzero : (0 : UInt8) ∈ name) (hname : nameBytes h = some name) (fs : List (Bytes × Bytes)) :
    unset fs h = true := by
  obtain ⟨-, hkey⟩ := hrecord.nameBytes_iff.mp hname
  rw [unset, List.all_eq_true]
  intro f _
  rw [Bool.not_eq_true', Bool.eq_false_iff]
  intro hfound
  obtain ⟨hstring, hlength⟩ := Prod.mk.inj (hkey.symm.trans (hasKey_iff.mp hfound))
  rw [← hstring] at hlength
  have hall : cstr name = name := (List.takeWhile_prefix _).eq_of_length hlength.symm
  exact not_mem_cstr name (hall.symm ▸ hzero)

/-- What is recorded for a name that ends with a NUL. -/
theorem recorded_nul {headers : List Header} (hrecords : ∀ h ∈ headers, IsRecord h)
    {fs : List (Bytes × Bytes)} {name : Bytes} (hzero : (0 : UInt8) ∈ name)
    (hwhole : CopiesWhole name) :
    ((insertFields headers fs).filter fun h => nameBytes h == some name).map valueBytes =
      (headers.filter fun h => nameBytes h == some name).map valueBytes ++
        ((unfound (headers.map keyOf) (cstr name) fs).filter (isNamed name)).map
          fun g => copied g.2 := by
  -- such entries are not set, so they are the ones of before and the new ones
  have hunset : ∀ table : List Header, (∀ h ∈ table, IsRecord h) →
      table.filter (fun h => nameBytes h == some name) =
        (table.filter (unset fs)).filter fun h => nameBytes h == some name := by
    intro table htable
    rw [List.filter_filter]
    apply List.filter_congr
    intro h hmem
    by_cases hname : nameBytes h = some name
    · rw [unset_of_nameBytes (htable h hmem) hzero hname, Bool.and_true]
    · simp [hname]
  have hnew : ∀ gs : List (Bytes × Bytes),
      ((gs.map newEntry).filter fun h => nameBytes h == some name).map valueBytes =
        (gs.filter (isNamed name)).map fun g => copied g.2 := by
    intro gs
    have hsame : ((fun h => nameBytes h == some name) ∘ newEntry) = isNamed name := by
      funext g
      rw [Bool.eq_iff_iff, Function.comp_apply, nameBytes_newEntry, beq_iff_eq,
        copied_eq_some_iff, isNamed, beq_iff_eq]
      exact and_iff_left hwhole
    rw [List.filter_map, List.map_map, hsame]
    exact List.map_congr_left fun g _ => valueBytes_newEntry g
  have hnewRecords : ∀ h ∈ (newFields (headers.map keyOf) fs).map newEntry, IsRecord h := by
    intro h hmem
    obtain ⟨f, -, rfl⟩ := List.mem_map.mp hmem
    exact ⟨f.1, keyOf_newEntry f⟩
  rw [hunset _ (isRecord_insertFields hrecords fs), (insertFields_spec fs (fun _ h => h) headers).2,
    List.filter_append, ← hunset _ hrecords, ← hunset _ hnewRecords, List.map_append, hnew,
    newFields_filter_eq hzero]

/-! ## The whole table -/

/-- A block leaves what it should exactly if table and block are such. -/
theorem recorded_iff {headers : List Header} (hunique : UniqueKeys headers)
    (hrecords : ∀ h ∈ headers, IsRecord h) (fs : List (Bytes × Bytes)) :
    Recorded (insertFields headers fs) fs ↔ Recordable headers fs := by
  constructor
  · rintro ⟨hnamed, honce⟩
    refine ⟨fun h hmem => ?_, fun f hf hplain => ?_, fun f hf hzero => ?_⟩
    · -- the entry is still there, under its key
      have hkey : keyOf h ∈ (insertFields headers fs).map keyOf := by
        rw [keys_insertFields]
        exact List.mem_append_left _ (List.mem_map_of_mem hmem)
      obtain ⟨h', hmem', hsame⟩ := List.mem_map.mp hkey
      rw [← nameBytes_congr hsame]
      exact hnamed h' hmem'
    · have hvalue := honce f hf
      rw [recorded_plain hunique hrecords hf hplain] at hvalue
      exact List.singleton_inj.mp hvalue
    · have hwhole : CopiesWhole f.1 := by
        -- there is an entry with this name
        have hne : (insertFields headers fs).filter (fun h => nameBytes h == some f.1) ≠ [] := by
          intro hnil
          have hvalue := honce f hf
          rw [hnil] at hvalue
          cases hvalue
        obtain ⟨h, hmem⟩ := List.exists_mem_of_ne_nil _ hne
        obtain ⟨hmem, hname⟩ := List.mem_filter.mp hmem
        exact ((isRecord_insertFields hrecords fs h hmem).nameBytes_iff.mp
          (beq_iff_eq.mp hname)).1
      refine ⟨hwhole, ?_⟩
      rw [fieldName_eq, ← recorded_nul hrecords hzero hwhole]
      exact honce f hf
  · rintro ⟨hleft, hplain, hnul⟩
    refine ⟨fun h hmem => ?_, fun f hf => ?_⟩
    · rcases key_of_mem_insertFields hmem with ⟨old, hold, hkey⟩ | ⟨f, hf, hkey⟩
      · rw [← nameBytes_congr hkey]
        exact hleft old hold
      · refine ⟨f, hf, ?_⟩
        rw [← nameBytes_congr hkey, nameBytes_newEntry, copied_eq_some_iff]
        refine ⟨rfl, ?_⟩
        by_cases hzero : (0 : UInt8) ∈ f.1
        · exact (hnul f hf hzero).1
        · exact .of_not_mem hzero
    · by_cases hzero : (0 : UInt8) ∈ f.1
      · obtain ⟨hwhole, hvalues⟩ := hnul f hf hzero
        rw [recorded_nul hrecords hzero hwhole, ← fieldName_eq]
        exact hvalues
      · rw [recorded_plain hunique hrecords hf hzero, hplain f hf hzero]

/-! ## Connections -/

/-- Every entry of the request's table was made by a field. -/
def FromFields (c : Conn) : Prop :=
  ∀ h ∈ c.hs.request.headers, IsRecord h

theorem FromFields.headers {c c' : Conn} (hc : FromFields c) {streamId : ℤ}
    {block : List (Bytes × Bytes)} (h : HeadersCases c streamId block c') : FromFields c' := by
  have hrecords : ∀ h ∈ (prepareRequest block c.hs).request.headers, IsRecord h := by
    rw [prepareRequest_request, forEachHeaderLoop_request]
    exact isRecord_insertFields hc _
  cases h with
  | unanswered h =>
      obtain ⟨moduleCbEv, chain, url, fd, hhs⟩ := h.hs
      rw [FromFields, hhs]
      exact hrecords
  | module es hes chain url => exact hrecords
  | file es hes f => exact hrecords
  | notFound es hes page hpage => exact hrecords

theorem FromFields.step {routes : List (Route Code)} {c c' : Conn} {e : ConnEvent Code}
    (hwell : WellFormed c) (hc : FromFields c) (h : connStep routes c e = some c') :
    FromFields c' := by
  cases e with
  | headers streamId block io => exact hc.headers (connStep_headers h).2.2
  | writeTick i io =>
      obtain ⟨-, fw, hfw, -, hcases⟩ := connStep_writeTick h
      have hne : c.writers ≠ [] := List.ne_nil_of_mem (List.mem_of_getElem? hfw)
      obtain ⟨_, _, _, hhs⟩ := (ticked_of_cases hcases ⟨hwell.answering hne, hwell.table⟩).hs
      rw [FromFields, hhs]
      exact hc
  | moduleTick ev io =>
      obtain ⟨-, -, rfl⟩ := connStep_moduleTick h
      obtain ⟨_, _, _, _, hhs⟩ := (moduleTick_spec c ev io).stream
      rw [FromFields, hhs]
      exact hc
  | close =>
      obtain rfl := connStep_close h
      exact hc

theorem FromFields.run {routes : List (Route Code)} {sock : ℤ} {cid : Bytes}
    {es : List (ConnEvent Code)} {c : Conn}
    (h : (connMachine routes).exec (Conn.create sock cid) es = some c) : FromFields c := by
  have hstart : WellFormed (Conn.create sock cid) ∧ FromFields (Conn.create sock cid) :=
    ⟨.create sock cid, fun h hmem => by cases hmem⟩
  have hrun : WellFormed c ∧ FromFields c :=
    (connMachine routes).exec_invariant (I := fun c => WellFormed c ∧ FromFields c)
      (fun _ _ _ hc hstep => ⟨hc.1.step hstep, hc.2.step hc.1 hstep⟩) hstart h
  exact hrun.2

theorem processed_of_accepted {block : List (Bytes × Bytes)}
    (haccepted : ∀ f ∈ block, rejected f = false) : processed block = block := by
  induction block with
  | nil => rfl
  | cons f fs ih =>
      rw [processed, haccepted f (List.mem_cons_self ..), if_neg Bool.false_ne_true,
        ih fun g hg => haccepted g (List.mem_cons_of_mem _ hg)]

/-- The loop goes through its fields without an access outside of them exactly if those it comes to have
names. -/
theorem forEachHeaderRead_eq (block : List (Bytes × Bytes)) (hs : HttpStream) :
    forEachHeaderRead block hs =
      if ∀ f ∈ processed block, f.1 ≠ [] then some (forEachHeaderLoop block hs) else none := by
  induction block generalizing hs with
  | nil => rfl
  | cons f fs ih =>
      have hfirst : f ∈ processed (f :: fs) := by
        unfold processed
        split
        · exact List.mem_singleton.mpr rfl
        · exact List.mem_cons_self ..
      by_cases hname : f.1 = []
      · rw [forEachHeaderRead, if_pos hname, if_neg fun hall => hall f hfirst hname]
      · rw [forEachHeaderRead, if_neg hname, forEachHeaderLoop]
        by_cases hreject : rejected f = true
        · -- the last one
          have hrc := (forEachHeader_rc hs f).mpr hreject
          simp only [processed, if_pos hreject, if_pos hrc, List.mem_singleton, forall_eq,
            if_pos hname]
        · have hrc := (forEachHeader_rc hs f).not.mpr hreject
          simp only [processed, if_neg hreject, if_neg hrc, List.forall_mem_cons]
          rw [ih]
          exact if_congr (and_iff_right hname).symm rfl rfl

/-- What `for_each_header` leaves of a block, without an access outside of a field. -/
def RecordedFrom (hs : HttpStream) (block : List (Bytes × Bytes)) : Prop :=
  ∃ rc hs', forEachHeaderRead block hs = some (rc, hs') ∧
    Recorded hs'.request.headers (block.filter isRegular)

/-- **In every state of a connection, for every block whose pseudo-headers are accepted,
`for_each_header` goes through the block and the table behind it has exactly its regular fields, with all
their bytes, exactly if no name is empty, and the table before and these fields are `Recordable`.** -/
theorem forEachHeader_recorded_iff (routes : List (Route Code)) {sock : ℤ} {cid : Bytes}
    {es : List (ConnEvent Code)} {c : Conn}
    (hexec : (connMachine routes).exec (Conn.create sock cid) es = some c)
    {block : List (Bytes × Bytes)} (haccepted : ∀ f ∈ block, rejected f = false) :
    RecordedFrom c.hs block ↔
      (∀ f ∈ block, f.1 ≠ []) ∧ Recordable c.hs.request.headers (block.filter isRegular) := by
  have htable : Recorded (forEachHeaderLoop block c.hs).2.request.headers (block.filter isRegular) ↔
      Recordable c.hs.request.headers (block.filter isRegular) := by
    rw [forEachHeaderLoop_request, processed_of_accepted haccepted]
    exact recorded_iff (WellFormed.run hexec).keys (FromFields.run hexec) _
  unfold RecordedFrom
  rw [forEachHeaderRead_eq, processed_of_accepted haccepted, ← htable]
  constructor
  · rintro ⟨rc, hs', hread, hrecorded⟩
    obtain ⟨hnamed, hloop⟩ := Option.ite_none_right_eq_some.mp hread
    refine ⟨hnamed, ?_⟩
    rw [Option.some.inj hloop]
    exact hrecorded
  · rintro ⟨hnamed, hrecorded⟩
    exact ⟨_, _, if_pos hnamed, hrecorded⟩

/-- A name and a value without a NUL, and a name that ends with one. -/
def plainBlock : List (Bytes × Bytes) :=
  [(ascii ":path", ascii "/"), ([97, 0], ascii "1"), (ascii "a", ascii "2"), (ascii "a", ascii "3")]

theorem forEachHeader_recorded_plain : RecordedFrom (Conn.create 3 []).hs plainBlock := by
  have hexec : (connMachine ([] : List (Route Unit))).exec (Conn.create 3 []) [] =
      some (Conn.create 3 []) := rfl
  exact (forEachHeader_recorded_iff [] hexec (by decide)).mpr (by decide)

/-- A value with a NUL inside: the entry has its length, and the bytes up to the NUL. -/
theorem not_recorded_nul_inside : ∃ block : List (Bytes × Bytes),
    (∀ f ∈ block, rejected f = false) ∧ ¬ RecordedFrom (Conn.create 3 []).hs block := by
  refine ⟨[(ascii "a", [49, 0, 50])], by decide, ?_⟩
  rintro ⟨rc, hs', hread, hrecorded⟩
  obtain rfl := (Prod.mk.inj (Option.some.inj hread)).2
  exact absurd (hrecorded.once (ascii "a", [49, 0, 50]) (by decide)) (by decide)

end Gfhttpd.Http3
