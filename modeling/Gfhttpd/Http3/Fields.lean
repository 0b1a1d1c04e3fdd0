import Gfhttpd.Http3.Conn
import Mathlib.Data.List.Induction

/-!
# The request a header block leaves

`quiche_h3_event_for_each_header` goes through the fields of a block up to the first `:path` that
`check_path` rejects (`processed`).  A pseudo-header replaces its value, any other field goes into
the table of the request; what no field names stays as it was before (`forEachHeaderLoop_request`).

- `insertFields_eq_iff`: when a block leaves the same table behind two tables
- `seen_eq_iff`: when it leaves the same request behind two requests
-/

namespace Gfhttpd.Http3

open Http

/-! ## The fields that are processed -/

/-- `check_path` rejects the field. -/
def rejected (f : Bytes × Bytes) : Bool :=
  f.1 == ascii ":path" && !Router.checkPath (strndup f.2 f.2.length)

/-- The fields up to the first one that is rejected, which is processed, too. -/
def processed : List (Bytes × Bytes) → List (Bytes × Bytes)
  | [] => []
  | f :: fs => if rejected f then [f] else f :: processed fs

/-- What the field gives the pseudo-header `name`. -/
def pseudoValue (name : Bytes) (f : Bytes × Bytes) : Option Bytes :=
  if f.1 = 58 :: name then some (strndup f.2 f.2.length) else none

/-- The last value the fields give the pseudo-header `name`. -/
def lastPseudo (name : Bytes) : List (Bytes × Bytes) → Option Bytes
  | [] => none
  | f :: fs => (lastPseudo name fs).or (pseudoValue name f)

/-- `for_each_header` on a field that is no pseudo-header. -/
def insertField (headers : List Header) (f : Bytes × Bytes) : List Header :=
  insertHeader headers (strndup f.1 f.1.length) f.1.length (strndup f.2 f.2.length) f.2.length

/-- The fields go into the table one after the other. -/
def insertFields (headers : List Header) (fs : List (Bytes × Bytes)) : List Header :=
  fs.foldl insertField headers

/-- The field is no pseudo-header. -/
def isRegular (f : Bytes × Bytes) : Bool :=
  f.1.head? != some 58

/-- One field. -/
theorem forEachHeader_request (hs : HttpStream) (f : Bytes × Bytes) :
    (forEachHeader hs f.1 f.2).2.request =
      { hs.request with
        url := (pseudoValue (ascii "path") f).or hs.request.url
        method := (pseudoValue (ascii "method") f).or hs.request.method
        scheme := (pseudoValue (ascii "scheme") f).or hs.request.scheme
        authority := (pseudoValue (ascii "authority") f).or hs.request.authority
        headers := if isRegular f then insertField hs.request.headers f
          else hs.request.headers } := by
  obtain ⟨name, value⟩ := f
  cases name with
  | nil => simp [forEachHeader, pseudoValue, isRegular, insertField]
  | cons b name =>
      by_cases hb : b = 58
      · -- a pseudo-header sets one of four values, or nothing
        subst hb
        have hregular : ∀ name, isRegular (58 :: name, value) = false := fun _ => rfl
        have hmp : ascii "method" ≠ ascii "path" := by decide
        have hsp : ascii "scheme" ≠ ascii "path" := by decide
        have hsm : ascii "scheme" ≠ ascii "method" := by decide
        have hap : ascii "authority" ≠ ascii "path" := by decide
        have ham : ascii "authority" ≠ ascii "method" := by decide
        have has : ascii "authority" ≠ ascii "scheme" := by decide
        by_cases hpath : name = ascii "path"
        · simp [forEachHeader, pseudoValue, hregular, hpath, hmp.symm, hsp.symm, hap.symm]
        · by_cases hmethod : name = ascii "method"
          · simp [forEachHeader, pseudoValue, hregular, hmethod, hmp, hsm.symm, ham.symm]
          · by_cases hscheme : name = ascii "scheme"
            · simp [forEachHeader, pseudoValue, hregular, hscheme, hsp, hsm, has.symm]
            · by_cases hauthority : name = ascii "authority"
              · simp [forEachHeader, pseudoValue, hregular, hauthority, hap, ham, has]
              · simp [forEachHeader, pseudoValue, hregular, hpath, hmethod, hscheme, hauthority]
      · have hregular : isRegular (b :: name, value) = true := by simp [isRegular, hb]
        simp [forEachHeader, pseudoValue, hregular, insertField, hb]

/-- Only a rejected `:path` makes the loop stop. -/
theorem forEachHeader_rc (hs : HttpStream) (f : Bytes × Bytes) :
    (forEachHeader hs f.1 f.2).1 ≠ 0 ↔ rejected f = true := by
  obtain ⟨name, value⟩ := f
  cases name with
  | nil => simp [forEachHeader, rejected, ascii]
  | cons b name =>
      have hcolon : ascii ":path" = 58 :: ascii "path" := by decide
      by_cases hb : b = 58
      · subst hb
        by_cases hpath : name = ascii "path"
        · cases hcheck : Router.checkPath (strndup value value.length) with
          | true => simp [forEachHeader, rejected, hcolon, hpath, hcheck]
          | false => simp [forEachHeader, rejected, hcolon, hpath, hcheck]
        · by_cases hmethod : name = ascii "method"
          · subst hmethod
            simp [forEachHeader, rejected, hcolon, hpath]
          · by_cases hscheme : name = ascii "scheme"
            · subst hscheme
              simp [forEachHeader, rejected, hcolon, hpath, hmethod]
            · by_cases hauthority : name = ascii "authority"
              · subst hauthority
                simp [forEachHeader, rejected, hcolon, hpath, hmethod, hscheme]
              · simp [forEachHeader, rejected, hcolon, hpath, hmethod, hscheme, hauthority]
      · simp [forEachHeader, rejected, hcolon, hb]

/-- The request after the loop. -/
theorem forEachHeaderLoop_request (block : List (Bytes × Bytes)) (hs : HttpStream) :
    (forEachHeaderLoop block hs).2.request =
      { hs.request with
        url := (lastPseudo (ascii "path") (processed block)).or hs.request.url
        method := (lastPseudo (ascii "method") (processed block)).or hs.request.method
        scheme := (lastPseudo (ascii "scheme") (processed block)).or hs.request.scheme
        authority := (lastPseudo (ascii "authority") (processed block)).or hs.request.authority
        headers :=
          insertFields hs.request.headers ((processed block).filter isRegular) } := by
  induction block generalizing hs with
  | nil => rfl
  | cons f fs ih =>
      have hone := forEachHeader_request hs f
      have hrc := forEachHeader_rc hs f
      have htable : ∀ rest, insertFields hs.request.headers ((f :: rest).filter isRegular) =
          insertFields (if isRegular f then insertField hs.request.headers f
            else hs.request.headers) (rest.filter isRegular) := by
        intro rest
        cases hregular : isRegular f with
        | true => simp [insertFields, hregular]
        | false => simp [hregular]
      simp only [forEachHeaderLoop]
      by_cases hrejected : rejected f = true
      · -- the field is recorded, and the loop ends behind it
        rw [if_pos (hrc.mpr hrejected), processed, if_pos hrejected, hone, htable]
        simp [lastPseudo, insertFields]
      · rw [if_neg fun h => hrejected (hrc.mp h), processed, if_neg hrejected, ih, hone, htable]
        simp [lastPseudo, Option.or_assoc]

/-! ## Tables -/

/-- The C string a field is looked up under. -/
def fieldName (f : Bytes × Bytes) : Bytes :=
  strndup f.1 f.1.length

/-- The key of an entry: the bytes at `name`, and how many of them count. -/
def keyOf (h : Header) : Bytes × ℕ :=
  (h.name, h.nName)

/-- The entry a field adds. -/
def newEntry (f : Bytes × Bytes) : Header :=
  createHeader (fieldName f) f.1.length (strndup f.2 f.2.length) f.2.length

/-- The key is that of a C string: it ends where `name` does. -/
def IsCKey (key : Bytes × ℕ) : Prop :=
  key.2 = key.1.length

/-- No C string finds two entries. -/
def UniqueKeys (headers : List Header) : Prop :=
  (headers.map keyOf).Pairwise fun key key' => key = key' → ¬ IsCKey key

/-- The fields that add an entry to a table with these keys. -/
def newFields : List (Bytes × ℕ) → List (Bytes × Bytes) → List (Bytes × Bytes)
  | _, [] => []
  | keys, f :: fs =>
      if (fieldName f, (fieldName f).length) ∈ keys then newFields keys fs
      else f :: newFields (keys ++ [(fieldName f, f.1.length)]) fs

/-- No field of the block sets the entry's value. -/
def unset (fs : List (Bytes × Bytes)) (h : Header) : Bool :=
  fs.all fun f => !h.hasKey (fieldName f)

theorem hasKey_iff {h : Header} {name : Bytes} :
    h.hasKey name = true ↔ keyOf h = (name, name.length) := by
  simp only [Header.hasKey, keyOf, Bool.and_eq_true, beq_iff_eq, Prod.mk.injEq]
  exact and_comm

theorem getHeader_eq_none_iff {headers : List Header} {name : Bytes} :
    getHeader headers name = none ↔ (name, name.length) ∉ headers.map keyOf := by
  simp only [getHeader, List.find?_eq_none, List.mem_reverse, hasKey_iff, List.mem_map, not_exists,
    not_and]

/-- An entry whose key is not there is added, and one that is there gets the value. -/
theorem insertField_eq (headers : List Header) (f : Bytes × Bytes) :
    insertField headers f =
      if (fieldName f, (fieldName f).length) ∈ headers.map keyOf then
        setHeader headers (fieldName f) (strndup f.2 f.2.length) f.2.length
      else headers ++ [newEntry f] := by
  show insertHeader headers (fieldName f) _ _ _ = _
  unfold insertHeader
  cases hget : getHeader headers (fieldName f) with
  | none => rw [if_neg (getHeader_eq_none_iff.mp hget)]; rfl
  | some h =>
      rw [if_pos]
      by_contra hmem
      rw [getHeader_eq_none_iff.mpr hmem] at hget
      cases hget

theorem map_keyOf_setHeader (headers : List Header) (name value : Bytes) (n : ℕ) :
    (setHeader headers name value n).map keyOf = headers.map keyOf := by
  induction headers with
  | nil => rfl
  | cons h rest ih =>
      unfold setHeader
      split
      · rfl
      · rw [List.map_cons, List.map_cons, ih]

theorem unset_congr {fs : List (Bytes × Bytes)} {h h' : Header} (hkey : keyOf h = keyOf h') :
    unset fs h = unset fs h' := by
  have hsame : ∀ name, h.hasKey name = h'.hasKey name := by
    intro name
    rw [Bool.eq_iff_iff, hasKey_iff, hasKey_iff, hkey]
  simp only [unset, hsame]

/-- A field of the block leaves the entries alone that the block does not set. -/
theorem filter_unset_setHeader {fs : List (Bytes × Bytes)} {f : Bytes × Bytes} (hf : f ∈ fs)
    (headers : List Header) (value : Bytes) (n : ℕ) :
    (setHeader headers (fieldName f) value n).filter (unset fs) = headers.filter (unset fs) := by
  induction headers with
  | nil => rfl
  | cons h rest ih =>
      unfold setHeader
      split
      · next hkey =>
          have hset : unset fs h = false := by
            simp only [unset, List.all_eq_false, Bool.not_eq_true, Bool.not_eq_false']
            exact ⟨f, hf, (Bool.and_eq_true_iff.mp hkey).1⟩
          have hset' : unset fs { h with value := value, nValue := n } = false :=
            (unset_congr rfl).trans hset
          simp only [List.filter_cons, hset, hset', Bool.false_eq_true, if_false]
      · simp only [List.filter_cons, ih]

/-- The keys, and the entries that are not set, after the fields. -/
theorem insertFields_spec (all : List (Bytes × Bytes)) {fs : List (Bytes × Bytes)}
    (hsub : ∀ f ∈ fs, f ∈ all) (headers : List Header) :
    (insertFields headers fs).map keyOf =
        headers.map keyOf ++ (newFields (headers.map keyOf) fs).map (keyOf ∘ newEntry) ∧
      (insertFields headers fs).filter (unset all) = headers.filter (unset all) ++
        ((newFields (headers.map keyOf) fs).map newEntry).filter (unset all) := by
  induction fs generalizing headers with
  | nil => simp [insertFields, newFields]
  | cons f fs ih =>
      obtain ⟨hkeys, hrest⟩ := ih (fun g hg => hsub g (List.mem_cons_of_mem _ hg))
        (insertField headers f)
      show ((insertFields (insertField headers f) fs).map keyOf = _) ∧
        (insertFields (insertField headers f) fs).filter (unset all) = _
      rw [hkeys, hrest, insertField_eq, newFields]
      split
      · -- the key was there: its entry is one the block sets
        rw [map_keyOf_setHeader, filter_unset_setHeader (hsub f (List.mem_cons_self ..))]
        exact ⟨rfl, rfl⟩
      · -- the field adds an entry at the end of the table
        constructor
        · rw [List.map_append, List.append_assoc]
          rfl
        · rw [List.filter_append, List.append_assoc, List.map_append, ← List.filter_append]
          rfl

theorem mem_setHeader {headers : List Header} (hunique : UniqueKeys headers) {name value : Bytes}
    {n : ℕ} {h : Header} (hmem : h ∈ setHeader headers name value n) :
    if h.hasKey name then h.value = value ∧ h.nValue = n else h ∈ headers := by
  induction headers with
  | nil => cases hmem
  | cons h' rest ih =>
      obtain ⟨hhead, htail⟩ := List.pairwise_cons.mp hunique
      unfold setHeader at hmem
      split at hmem
      · next hfirst =>
          have hkey := (Bool.and_eq_true_iff.mp hfirst).1
          rcases List.mem_cons.mp hmem with rfl | hmem
          · exact (if_pos hkey).mpr ⟨rfl, rfl⟩
          · -- the table has no second entry with this key
            have hother : h.hasKey name = false := by
              rw [Bool.eq_false_iff]
              intro hsame
              apply hhead (keyOf h) (List.mem_map_of_mem hmem)
              · rw [hasKey_iff.mp hkey, hasKey_iff.mp hsame]
              · rw [hasKey_iff.mp hkey]
                rfl
            rw [if_neg (by simp [hother])]
            exact List.mem_cons_of_mem _ hmem
      · next hfirst =>
          rcases List.mem_cons.mp hmem with rfl | hmem
          · -- with this key it would have been set, as no later entry has the key
            have hkey : ¬ h.hasKey name = true := by
              intro hkey
              apply hfirst
              rw [hkey, Bool.true_and, Option.isNone_iff_eq_none, getHeader_eq_none_iff]
              intro hagain
              exact hhead _ hagain (hasKey_iff.mp hkey) (by rw [hasKey_iff.mp hkey]; rfl)
            rw [if_neg hkey]
            exact List.mem_cons_self ..
          · have hih := ih htail hmem
            split at hih
            · next hsame => exact (if_pos hsame).mpr hih
            · next hsame =>
                rw [if_neg hsame]
                exact List.mem_cons_of_mem _ hih

/-- One field keeps the keys apart. -/
theorem UniqueKeys.insertField {headers : List Header} (h : UniqueKeys headers)
    (f : Bytes × Bytes) : UniqueKeys (insertField headers f) := by
  unfold UniqueKeys
  rw [insertField_eq]
  split
  · rw [map_keyOf_setHeader]
    exact h
  · next hnew =>
      rw [List.map_append, List.pairwise_append]
      refine ⟨h, List.pairwise_singleton _ _, fun key hmem key' hmem' heq hckey => ?_⟩
      obtain rfl := List.mem_singleton.mp hmem'
      subst heq
      -- a C string's key that was not there has the field's own length
      have hlength : f.1.length = (fieldName f).length := hckey
      apply hnew
      rw [← hlength]
      exact hmem

theorem UniqueKeys.insertFields {headers : List Header} (h : UniqueKeys headers)
    (fs : List (Bytes × Bytes)) : UniqueKeys (insertFields headers fs) := by
  induction fs generalizing headers with
  | nil => exact h
  | cons f fs ih => exact ih (h.insertField f)

theorem mem_insertField {headers : List Header} (hunique : UniqueKeys headers) {f : Bytes × Bytes}
    {h : Header} (hmem : h ∈ insertField headers f) :
    if h.hasKey (fieldName f) then h.value = strndup f.2 f.2.length ∧ h.nValue = f.2.length
    else h ∈ headers ∨ h = newEntry f := by
  rw [insertField_eq] at hmem
  split at hmem
  · have hset := mem_setHeader hunique hmem
    split
    · next hkey => rwa [if_pos hkey] at hset
    · next hkey =>
        rw [if_neg hkey] at hset
        exact Or.inl hset
  · next hnew =>
      rcases List.mem_append.mp hmem with hmem | hmem
      · -- the name was not found, so no entry of before has it
        rw [if_neg]
        · exact Or.inl hmem
        · intro hkey
          apply hnew
          rw [← hasKey_iff.mp hkey]
          exact List.mem_map_of_mem hmem
      · obtain rfl := List.mem_singleton.mp hmem
        split
        · exact ⟨rfl, rfl⟩
        · exact Or.inr rfl

/-- An entry that the block sets has the same value behind every table. -/
theorem set_entry_eq {headers headers' : List Header} (hunique : UniqueKeys headers)
    (hunique' : UniqueKeys headers') {fs : List (Bytes × Bytes)} {h h' : Header}
    (hmem : h ∈ insertFields headers fs) (hmem' : h' ∈ insertFields headers' fs)
    (hkey : keyOf h = keyOf h') (hset : ∃ f ∈ fs, h.hasKey (fieldName f) = true) : h = h' := by
  -- the last field of this name decides
  induction fs using List.reverseRecOn with
  | nil =>
      obtain ⟨f, hf, -⟩ := hset
      cases hf
  | append_singleton fs f ih =>
      have hsnoc : ∀ table : List Header,
          insertFields table (fs ++ [f]) = insertField (insertFields table fs) f := fun table => by
        simp only [insertFields, List.foldl_append, List.foldl_cons, List.foldl_nil]
      rw [hsnoc] at hmem hmem'
      have hone := mem_insertField (hunique.insertFields fs) hmem
      have hone' := mem_insertField (hunique'.insertFields fs) hmem'
      by_cases hlast : h.hasKey (fieldName f) = true
      · have hlast' : h'.hasKey (fieldName f) = true := hasKey_iff.mpr (hkey ▸ hasKey_iff.mp hlast)
        rw [if_pos hlast] at hone
        rw [if_pos hlast'] at hone'
        obtain ⟨name, nName, value, nValue⟩ := h
        obtain ⟨name', nName', value', nValue'⟩ := h'
        obtain ⟨rfl, rfl⟩ := hone
        obtain ⟨rfl, rfl⟩ := hone'
        obtain ⟨rfl, rfl⟩ := Prod.mk.inj hkey
        rfl
      · have hlast' : ¬ h'.hasKey (fieldName f) = true := fun hlast' =>
          hlast (hasKey_iff.mpr (hkey ▸ hasKey_iff.mp hlast'))
        rw [if_neg hlast] at hone
        rw [if_neg hlast'] at hone'
        -- another field sets the entry, so it is not the one this field adds
        obtain ⟨g, hg, hgkey⟩ := hset
        have hold : ∀ entry : Header, keyOf entry = keyOf h → entry ≠ newEntry f := by
          rintro entry hsame rfl
          have hname : fieldName g = fieldName f :=
            congrArg Prod.fst ((hasKey_iff.mp hgkey).symm.trans hsame.symm)
          exact hlast (hname ▸ hgkey)
        have hgfs : g ∈ fs := by
          rcases List.mem_append.mp hg with hg | hg
          · exact hg
          · rw [List.mem_singleton.mp hg] at hgkey
            exact absurd hgkey hlast
        exact ih (hone.resolve_right (hold h rfl)) (hone'.resolve_right (hold h' hkey.symm))
          ⟨g, hgfs, hgkey⟩

/-- Two tables are the same if they have the same keys, the same entries with `p`, and the same
entry under each other key. -/
theorem eq_of_keys {p : Header → Bool} (hp : ∀ h h', keyOf h = keyOf h' → p h = p h')
    {headers headers' : List Header} (hkeys : headers.map keyOf = headers'.map keyOf)
    (hfilter : headers.filter p = headers'.filter p)
    (hrest : ∀ h ∈ headers, ∀ h' ∈ headers', keyOf h = keyOf h' → p h = false → h = h') :
    headers = headers' := by
  induction headers generalizing headers' with
  | nil => exact (List.map_eq_nil_iff.mp hkeys.symm).symm
  | cons h rest ih =>
      cases headers' with
      | nil => cases hkeys
      | cons h' rest' =>
          obtain ⟨hkey, hkeys⟩ := List.cons_eq_cons.mp hkeys
          have hstep : ∀ hfilter' : rest.filter p = rest'.filter p, rest = rest' := fun hfilter' =>
            ih hkeys hfilter' fun a ha b hb =>
              hrest a (List.mem_cons_of_mem _ ha) b (List.mem_cons_of_mem _ hb)
          cases hph : p h with
          | true =>
              -- both entries are the first of what `p` lets through
              have hph' : p h' = true := hp h h' hkey ▸ hph
              rw [List.filter_cons_of_pos hph, List.filter_cons_of_pos hph'] at hfilter
              obtain ⟨rfl, htail⟩ := List.cons_eq_cons.mp hfilter
              rw [hstep htail]
          | false =>
              have hph' : p h' = false := hp h h' hkey ▸ hph
              rw [List.filter_cons_of_neg (by simp [hph]), List.filter_cons_of_neg (by simp [hph'])]
                at hfilter
              rw [hstep hfilter,
                hrest h (List.mem_cons_self ..) h' (List.mem_cons_self ..) hkey hph]

/-- The tables, each followed by the fields that are new to it, have the same keys in the same
order, and the entries the block does not set are the same. -/
def TablesAgree (headers headers' : List Header) (fs : List (Bytes × Bytes)) : Prop :=
  headers.map keyOf ++ (newFields (headers.map keyOf) fs).map (keyOf ∘ newEntry) =
      headers'.map keyOf ++ (newFields (headers'.map keyOf) fs).map (keyOf ∘ newEntry) ∧
    headers.filter (unset fs) ++
        ((newFields (headers.map keyOf) fs).map newEntry).filter (unset fs) =
      headers'.filter (unset fs) ++
        ((newFields (headers'.map keyOf) fs).map newEntry).filter (unset fs)

/-- The fields leave the same table behind two tables exactly if the tables agree on them. -/
theorem insertFields_eq_iff {headers headers' : List Header} (hunique : UniqueKeys headers)
    (hunique' : UniqueKeys headers') (fs : List (Bytes × Bytes)) :
    insertFields headers fs = insertFields headers' fs ↔ TablesAgree headers headers' fs := by
  obtain ⟨hkeys, hfilter⟩ := insertFields_spec fs (fun _ h => h) headers
  obtain ⟨hkeys', hfilter'⟩ := insertFields_spec fs (fun _ h => h) headers'
  unfold TablesAgree
  rw [← hkeys, ← hkeys', ← hfilter, ← hfilter']
  constructor
  · intro heq
    rw [heq]
    exact ⟨rfl, rfl⟩
  · rintro ⟨hk, hf⟩
    apply eq_of_keys (fun _ _ => unset_congr) hk hf
    intro h hmem h' hmem' hkey hset
    apply set_entry_eq hunique hunique' hmem hmem' hkey
    simp only [unset, List.all_eq_false, Bool.not_eq_true, Bool.not_eq_false'] at hset
    exact hset

/-! ## The request that is seen -/

/-- What `root_router` and the modules see of a request. -/
structure Seen where
  url : Option Bytes
  method : Option Bytes
  authority : Option Bytes
  scheme : Option Bytes
  headers : List Header
deriving DecidableEq, Repr

def seen (r : HttpRequest) : Seen where
  url := r.url
  method := r.method
  authority := r.authority
  scheme := r.scheme
  headers := r.headers

/-- A field of the block that is processed has this name. -/
def Names (name : Bytes) (block : List (Bytes × Bytes)) : Prop :=
  ∃ f ∈ processed block, f.1 = name

instance (name : Bytes) (block : List (Bytes × Bytes)) : Decidable (Names name block) :=
  inferInstanceAs (Decidable (∃ f ∈ processed block, f.1 = name))

/-- The two requests agree where the block leaves them alone. -/
structure RequestsAgree (block : List (Bytes × Bytes)) (r r' : HttpRequest) : Prop where
  url : Names (ascii ":path") block ∨ r.url = r'.url
  method : Names (ascii ":method") block ∨ r.method = r'.method
  authority : Names (ascii ":authority") block ∨ r.authority = r'.authority
  scheme : Names (ascii ":scheme") block ∨ r.scheme = r'.scheme
  headers : TablesAgree r.headers r'.headers ((processed block).filter isRegular)

theorem lastPseudo_eq_none_iff {name : Bytes} {fs : List (Bytes × Bytes)} :
    lastPseudo name fs = none ↔ ∀ f ∈ fs, f.1 ≠ 58 :: name := by
  induction fs with
  | nil => simp [lastPseudo]
  | cons f fs ih =>
      simp only [lastPseudo, Option.or_eq_none_iff, ih, pseudoValue, List.forall_mem_cons]
      constructor
      · rintro ⟨hrest, hone⟩
        refine ⟨fun heq => ?_, hrest⟩
        rw [if_pos heq] at hone
        cases hone
      · rintro ⟨hone, hrest⟩
        exact ⟨hrest, if_neg hone⟩

/-- A pseudo-header is the same behind two values exactly if the block names it or they are the
same. -/
theorem lastPseudo_or_eq_iff {name : Bytes} {block : List (Bytes × Bytes)} {a b : Option Bytes} :
    (lastPseudo name (processed block)).or a = (lastPseudo name (processed block)).or b ↔
      Names (58 :: name) block ∨ a = b := by
  cases hlast : lastPseudo name (processed block) with
  | none =>
      have hnone : ¬ Names (58 :: name) block := by
        rintro ⟨f, hf, heq⟩
        exact lastPseudo_eq_none_iff.mp hlast f hf heq
      rw [Option.none_or, Option.none_or, or_iff_right hnone]
  | some v =>
      have hsome : Names (58 :: name) block := by
        by_contra hnames
        have hnone := lastPseudo_eq_none_iff.mpr fun f hf heq => hnames ⟨f, hf, heq⟩
        rw [hlast] at hnone
        cases hnone
      exact ⟨fun _ => Or.inl hsome, fun _ => rfl⟩

/-- The request `root_router` is given for a block. -/
theorem prepareRequest_request (block : List (Bytes × Bytes)) (hs : HttpStream) :
    (prepareRequest block hs).request = (forEachHeaderLoop block hs).2.request := rfl

/-- A block leaves the same request behind two requests exactly if they agree where it leaves
them alone. -/
theorem seen_eq_iff {hs hs' : HttpStream} (hunique : UniqueKeys hs.request.headers)
    (hunique' : UniqueKeys hs'.request.headers) (block : List (Bytes × Bytes)) :
    seen (prepareRequest block hs).request = seen (prepareRequest block hs').request ↔
      RequestsAgree block hs.request hs'.request := by
  have hpath : ascii ":path" = 58 :: ascii "path" := by decide
  have hmethod : ascii ":method" = 58 :: ascii "method" := by decide
  have hauthority : ascii ":authority" = 58 :: ascii "authority" := by decide
  have hscheme : ascii ":scheme" = 58 :: ascii "scheme" := by decide
  simp only [prepareRequest_request, forEachHeaderLoop_request, seen, Seen.mk.injEq,
    lastPseudo_or_eq_iff, insertFields_eq_iff hunique hunique', ← hpath, ← hmethod, ← hauthority,
    ← hscheme]
  constructor
  · rintro ⟨hu, hm, ha, hsch, ht⟩
    exact ⟨hu, hm, ha, hsch, ht⟩
  · rintro ⟨hu, hm, ha, hsch, ht⟩
    exact ⟨hu, hm, ha, hsch, ht⟩

/-- The table of the request keeps its keys apart. -/
theorem UniqueKeys.prepareRequest {hs : HttpStream} (h : UniqueKeys hs.request.headers)
    (block : List (Bytes × Bytes)) : UniqueKeys (prepareRequest block hs).request.headers := by
  rw [prepareRequest_request, forEachHeaderLoop_request]
  exact h.insertFields _

end Gfhttpd.Http3
