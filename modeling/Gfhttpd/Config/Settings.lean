import Gfhttpd.Config.Bounds

/-!
# Where the settings come from (`main/config/config.c`)

`json_contains` looks at every token behind the root, whatever its place in the document, and takes
the first unquoted one that reads a name for the key.

- `searchMap_success`: what a search without an error leaves in the configuration
- `SettingsFromRoot`: the settings are the values of keys of the root object
- `settingsFromRoot_iff`: the documents for which they are
-/

namespace Gfhttpd.Conf

open Http

variable {Code : Type}

/-! ## The search as a function of the first match -/

section Search

variable {json : Bytes} {t : ℕ → Tok} {n : ℕ} {entry : ConfigMap}

theorem firstMatch_eq_some {name : Bytes} {i : ℕ} (h : firstMatch json t n name = some i) :
    (1 ≤ i ∧ i < n) ∧ Matches json name (t i) ∧
      ∀ k, 1 ≤ k → k < i → ¬ Matches json name (t k) := by
  have hmem := List.mem_of_find?_eq_some h
  rw [List.mem_range'_1] at hmem
  have hin : 1 ≤ i ∧ i < n := by omega
  refine ⟨hin, by simpa using List.find?_some h, fun k hk hlt hmatch => ?_⟩
  unfold firstMatch at h
  rw [range'_split hin.1 hin.2, List.find?_append, Option.or_eq_some_iff] at h
  rcases h with hfront | ⟨hnone, -⟩
  · have hbefore := List.mem_of_find?_eq_some hfront
    rw [List.mem_range'_1] at hbefore
    omega
  · rw [List.find?_eq_none] at hnone
    exact hnone k (List.mem_range'_1.mpr (by omega)) (by simpa using hmatch)

theorem firstMatch_eq_some_iff {name : Bytes} {i : ℕ} :
    firstMatch json t n name = some i ↔ (1 ≤ i ∧ i < n) ∧ Matches json name (t i) ∧
      ∀ k, 1 ≤ k → k < i → ¬ Matches json name (t k) := by
  refine ⟨firstMatch_eq_some, fun ⟨hin, hmatch, hfirst⟩ => ?_⟩
  unfold firstMatch
  -- the tokens in front of it, and those from it on
  have hnone : (List.range' 1 (i - 1)).find? (fun i => decide (Matches json name (t i))) = none := by
    rw [List.find?_eq_none]
    intro k hk
    rw [List.mem_range'_1] at hk
    simpa using hfirst k hk.1 (by omega)
  rw [range'_split hin.1 hin.2, List.find?_append, hnone, Option.none_or,
    List.find?_cons_of_pos (by simpa using hmatch)]

/-- An entry with a field takes the token behind the first match. -/
theorem searchTokens_field (compile : Option Bytes → Option Code) {dest : Dest}
    (hdest : entry.dest = some dest) (config : Config Code) :
    searchTokens compile json t entry (List.range' 1 (n - 1)) config =
      match firstMatch json t n entry.tokenName with
      | some i => .found (config.set ((t (i + 1)).print json dest.size) dest)
      | none => .notFound config := by
  cases hfirst : firstMatch json t n entry.tokenName with
  | none =>
      unfold firstMatch at hfirst
      rw [List.find?_eq_none] at hfirst
      exact searchTokens_notFound compile config fun i hi => by simpa using hfirst i hi
  | some i =>
      obtain ⟨hin, hmatch, hnone⟩ := firstMatch_eq_some hfirst
      rw [range'_split hin.1 hin.2, searchTokens_skip compile _ _ fun k hk => by
        rw [List.mem_range'_1] at hk
        exact hnone k hk.1 (by omega)]
      rw [searchTokens, jsonContains_dest compile hdest hmatch]
      rfl

/-- `locations_parser` leaves the fields alone. -/
theorem locationsLoop_fields (compile : Option Bytes → Option Code) (json : Bytes) (t : ℕ → Tok)
    (locations left j : ℕ) (config : Config Code) :
    (locationsLoop compile json t locations left j config).2 =
      { config with
        routes := (locationsLoop compile json t locations left j config).2.routes } := by
  induction left generalizing j config with
  | zero => rfl
  | succ left ih =>
      rw [locationsLoop]
      dsimp only
      split
      · split
        · rfl
        · rw [ih]
      · rfl

theorem locationsParser_fields (compile : Option Bytes → Option Code) (json : Bytes) (t : ℕ → Tok)
    (i : ℕ) (config : Config Code) :
    (locationsParser compile json t i config).2 =
      { config with routes := (locationsParser compile json t i config).2.routes } := by
  unfold locationsParser
  split
  · rfl
  · have hfields := locationsLoop_fields compile json t (i + 1) (t (i + 1)).size 0 config
    split
    · rename_i hloop
      rw [hloop] at hfields
      exact hfields
    · rename_i hloop
      rw [hloop] at hfields
      exact hfields

end Search

/-! ## A search without an error -/

/-- A text field of `struct config`. -/
def Config.get (config : Config Code) : Dest → Bytes
  | .listenPort => config.listenPort
  | .certFile => config.certFile
  | .keyFile => config.keyFile

/-- The first matches of the four names, when all of them have one. -/
structure Found (json : Bytes) (t : ℕ → Tok) (n : ℕ) (config final : Config Code)
    (compile : Option Bytes → Option Code) : Prop where
  fields : ∀ entry ∈ configMap, ∀ dest, entry.dest = some dest →
    ∃ i, firstMatch json t n entry.tokenName = some i ∧
      final.get dest = (t (i + 1)).print json dest.size
  locations : ∃ i, firstMatch json t n (ascii "locations") = some i ∧
    final = (locationsParser compile json t i { final with routes := config.routes }).2

section Success

variable {compile : Option Bytes → Option Code} {json : Bytes} {t : ℕ → Tok} {n : ℕ}
  {config final : Config Code}

/-- An entry with a field is found, or the search ends. -/
theorem searchMap_field {entry : ConfigMap} {entries : List ConfigMap} {dest : Dest}
    (hrequired : entry.required = true) (hdest : entry.dest = some dest) :
    searchMap compile json t (n : ℤ) (entry :: entries) config =
      match firstMatch json t n entry.tokenName with
      | some i => searchMap compile json t (n : ℤ) entries
          (config.set ((t (i + 1)).print json dest.size) dest)
      | none => (some (-1), config) := by
  rw [searchMap, Int.toNat_natCast, searchTokens_field compile hdest]
  cases firstMatch json t n entry.tokenName with
  | some i => rfl
  | none => simp [hrequired]

/-- `locations` is found and its value parsed, or the search ends. -/
theorem searchMap_locationsEntry :
    searchMap compile json t (n : ℤ) [locationsEntry] config =
      match firstMatch json t n (ascii "locations") with
      | some i =>
          if 0 < (locationsParser compile json t i config).1 then
            (none, (locationsParser compile json t i config).2)
          else (some (locationsParser compile json t i config).1,
            (locationsParser compile json t i config).2)
      | none => (some (-1), config) := by
  cases hfirst : firstMatch json t n (ascii "locations") with
  | some i =>
      obtain ⟨hin, hmatch, hnone⟩ := firstMatch_eq_some hfirst
      exact searchMap_locations config hin.1 hin.2 hmatch hnone
  | none =>
      unfold firstMatch at hfirst
      rw [List.find?_eq_none] at hfirst
      have hall : ∀ i ∈ List.range' 1 (n - 1), ¬ Matches json locationsEntry.tokenName (t i) :=
        fun i hi hmatch => hfirst i hi (decide_eq_true hmatch)
      have hnot := searchTokens_notFound compile config hall
      rw [searchMap, Int.toNat_natCast, hnot]
      rfl

theorem searchMap_field_success {entry : ConfigMap} {entries : List ConfigMap} {dest : Dest}
    (hrequired : entry.required = true) (hdest : entry.dest = some dest)
    (h : searchMap compile json t (n : ℤ) (entry :: entries) config = (none, final)) :
    ∃ i, firstMatch json t n entry.tokenName = some i ∧
      searchMap compile json t (n : ℤ) entries
        (config.set ((t (i + 1)).print json dest.size) dest) = (none, final) := by
  rw [searchMap_field hrequired hdest] at h
  cases hfirst : firstMatch json t n entry.tokenName with
  | none =>
      rw [hfirst] at h
      cases h
  | some i =>
      rw [hfirst] at h
      exact ⟨i, rfl, h⟩

theorem searchMap_locations_success
    (h : searchMap compile json t (n : ℤ) [locationsEntry] config = (none, final)) :
    ∃ i, firstMatch json t n (ascii "locations") = some i ∧
      final = (locationsParser compile json t i config).2 := by
  rw [searchMap_locationsEntry] at h
  cases hfirst : firstMatch json t n (ascii "locations") with
  | none =>
      rw [hfirst] at h
      cases h
  | some i =>
      rw [hfirst] at h
      dsimp only at h
      split at h
      · exact ⟨i, rfl, (Prod.mk.inj h).2.symm⟩
      · cases h

/-- A search that ends with an error does not leave 0. -/
theorem searchTokens_failed {entry : ConfigMap} {is : List ℕ} {r : ℤ}
    (h : searchTokens compile json t entry is config = .failed r final) : r < 0 := by
  induction is generalizing config with
  | nil => cases h
  | cons i is ih =>
      rw [searchTokens] at h
      dsimp only at h
      split at h
      · cases h
      · split at h
        · rename_i hneg
          cases h
          exact hneg
        · exact ih h

theorem searchMap_failed {entries : List ConfigMap} {r : ℤ}
    (h : searchMap compile json t (n : ℤ) entries config = (some r, final)) : r < 0 := by
  induction entries generalizing config with
  | nil => cases h
  | cons entry entries ih =>
      rw [searchMap] at h
      split at h
      · exact ih h
      · split at h
        · cases h
          decide
        · exact ih h
      · rename_i hfailed
        cases h
        exact searchTokens_failed hfailed

/-- Without an error all four names are found. -/
theorem searchMap_success
    (h : searchMap compile json t (n : ℤ) configMap config = (none, final)) :
    Found json t n config final compile := by
  obtain ⟨i₁, hfirst₁, h⟩ := searchMap_field_success rfl rfl h
  obtain ⟨i₂, hfirst₂, h⟩ := searchMap_field_success rfl rfl h
  obtain ⟨i₃, hfirst₃, h⟩ := searchMap_field_success rfl rfl h
  obtain ⟨i₄, hfirst₄, hfinal⟩ := searchMap_locations_success h
  -- what the three fields hold, `locations_parser` leaves
  rw [locationsParser_fields] at hfinal
  constructor
  · intro entry hentry dest hdest
    simp only [configMap, List.mem_cons, List.not_mem_nil, or_false] at hentry
    rcases hentry with rfl | rfl | rfl | rfl
    · obtain rfl : Dest.listenPort = dest := Option.some.inj hdest
      exact ⟨i₁, hfirst₁, by rw [hfinal]; rfl⟩
    · obtain rfl : Dest.certFile = dest := Option.some.inj hdest
      exact ⟨i₂, hfirst₂, by rw [hfinal]; rfl⟩
    · obtain rfl : Dest.keyFile = dest := Option.some.inj hdest
      exact ⟨i₃, hfirst₃, by rw [hfinal]; rfl⟩
    · cases hdest
  · refine ⟨i₄, hfirst₄, ?_⟩
    rw [locationsParser_fields, hfinal]
    rfl

end Success

/-! ## Keys of the root object -/

/-- The token of a tree. -/
def TokTree.token : TokTree → Tok
  | .node type start stop children => ⟨type, start, stop, children.length⟩

theorem TokTree.preorder_token (tree : TokTree) : ∃ rest, tree.preorder = tree.token :: rest := by
  obtain ⟨type, start, stop, children⟩ := tree
  exact ⟨_, by rw [preorder]; rfl⟩

/-- The tokens of a document: the root with its members, and whatever `jsmn` finds behind it. -/
def documentTokens (root : JsmnType) (span : Span) (members rest : List TokTree) : List Tok :=
  (TokTree.node root span.start span.stop members).preorder ++ TokTree.preorderAll rest

/-- The slot `i` holds a key of the root, and the next one its value. -/
def RootKey (members : List TokTree) (i : ℕ) (key value : Tok) : Prop :=
  ∃ before type start stop child children after,
    members = before ++ .node type start stop (child :: children) :: after ∧
      i = (TokTree.preorderAll before).length + 1 ∧
      key = ⟨type, start, stop, (child :: children).length⟩ ∧ value = child.token

/-- The first unquoted token behind the root that reads `name` is a key of the root, and has a value. -/
def FirstIsRootKey (content : Bytes) (members : List TokTree) (name : Bytes) : Prop :=
  ∃ before start stop child children after,
    members = before ++ .node .primitive start stop (child :: children) :: after ∧
      Span.text content ⟨start, stop⟩ = name ∧
      ∀ tok ∈ TokTree.preorderAll before, ¬ Names content name tok

/-- The token that supplies a setting: the first one for which `json_contains` does not return 0. -/
def supplier (compile : Option Bytes → Option Code) (json : Bytes) (t : ℕ → Tok) (n : ℕ)
    (entry : ConfigMap) (config : Config Code) : Option ℕ :=
  (List.range' 1 (n - 1)).find? fun i =>
    decide ((jsonContains compile json t entry i config).1 ≠ 0)

/-- The root is an object, each of the settings is supplied by one of its keys that reads the name, and
is the text of the value, as far as it fits; and `locations_parser` runs on the value of such a key. -/
structure SettingsFromRoot (compile : Option Bytes → Option Code) (content json : Bytes)
    (t : ℕ → Tok) (n : ℕ) (root : JsmnType) (members : List TokTree) (config final : Config Code) :
    Prop where
  object : root = .object
  fields : ∀ entry ∈ configMap, ∀ dest, entry.dest = some dest →
    ∃ i key value, supplier compile json t n entry config = some i ∧
      RootKey members i key value ∧ key.text content = entry.tokenName ∧
      final.get dest = value.print content dest.size
  locations : ∃ i key value, supplier compile json t n locationsEntry config = some i ∧
    RootKey members i key value ∧ key.text content = ascii "locations" ∧ t (i + 1) = value ∧
    final = (locationsParser compile json t i { final with routes := config.routes }).2

theorem supplier_eq_firstMatch (compile : Option Bytes → Option Code) (json : Bytes) (t : ℕ → Tok)
    (n : ℕ) (entry : ConfigMap) (config : Config Code) :
    supplier compile json t n entry config = firstMatch json t n entry.tokenName := by
  unfold supplier firstMatch
  simp only [jsonContains_ne_zero_iff]

theorem mem_locationsEntry : locationsEntry ∈ configMap := by
  simp [configMap, locationsEntry]

/-- The entry without a field. -/
theorem eq_locationsEntry {entry : ConfigMap} (hentry : entry ∈ configMap)
    (hdest : entry.dest = none) : entry = locationsEntry := by
  simp only [configMap, List.mem_cons, List.not_mem_nil, or_false] at hentry
  rcases hentry with rfl | rfl | rfl | rfl
  · cases hdest
  · cases hdest
  · cases hdest
  · rfl

section Root

variable {content stale : Bytes} {t : ℕ → Tok} {root : JsmnType} {span : Span}
  {members rest : List TokTree}

/-- The slots behind the root hold the tokens of its members. -/
theorem writeTokens_member {i : ℕ} {tok : Tok}
    (hi : (TokTree.preorderAll members)[i]? = some tok) :
    writeTokens t 0 (documentTokens root span members rest) (i + 1) = tok := by
  apply writeTokens_zero_of_getElem?
  rw [documentTokens, TokTree.preorder, List.cons_append, List.getElem?_cons_succ,
    List.getElem?_append_left (List.getElem?_eq_some_iff.mp hi).1, hi]

/-- The value stands behind the key. -/
theorem RootKey.getElem? {i : ℕ} {key value : Tok} (h : RootKey members i key value) :
    ∃ k, i = k + 1 ∧ (TokTree.preorderAll members)[k]? = some key ∧
      (TokTree.preorderAll members)[k + 1]? = some value := by
  obtain ⟨before, type, start, stop, child, children, after, rfl, rfl, rfl, rfl⟩ := h
  obtain ⟨tail, htail⟩ := child.preorder_token
  refine ⟨(TokTree.preorderAll before).length, rfl, ?_, ?_⟩
  · rw [TokTree.preorderAll_append, TokTree.preorderAll, TokTree.preorder,
      List.getElem?_append_right (Nat.le_refl _), Nat.sub_self]
    rfl
  · rw [TokTree.preorderAll_append, TokTree.preorderAll, TokTree.preorder, TokTree.preorderAll, htail,
      List.getElem?_append_right (Nat.le_add_right _ _), Nat.add_sub_cancel_left]
    rfl

/-- The members stand between the root and what is behind it. -/
theorem length_members_lt : (TokTree.preorderAll members).length <
    (documentTokens root span members rest).length := by
  rw [documentTokens, TokTree.preorder, List.length_append, List.length_cons]
  omega

theorem mem_documentTokens {tok : Tok} (h : tok ∈ TokTree.preorderAll members) :
    tok ∈ documentTokens root span members rest := by
  rw [documentTokens, TokTree.preorder]
  exact List.mem_append_left _ (List.mem_cons_of_mem _ h)

/-- A token of a member is taken for a name if it is an unquoted word that reads it. -/
theorem matches_member_iff
    (hinside : ∀ tok ∈ documentTokens root span members rest, tok.stop ≤ content.length) {name : Bytes}
    {i : ℕ} {tok : Tok} (hi : (TokTree.preorderAll members)[i]? = some tok) :
    Matches (content ++ stale) name (writeTokens t 0 (documentTokens root span members rest) (i + 1)) ↔
      Names content name tok := by
  rw [writeTokens_member hi]
  exact matches_iff (hinside _ (mem_documentTokens (List.mem_of_getElem? hi)))

/-- The first match is a key of the root object. -/
theorem firstMatch_rootKey_iff
    (hinside : ∀ tok ∈ documentTokens root span members rest, tok.stop ≤ content.length) (name : Bytes) :
    (∃ i key value, firstMatch (content ++ stale)
        (writeTokens t 0 (documentTokens root span members rest))
        (documentTokens root span members rest).length name = some i ∧
      RootKey members i key value ∧ key.text content = name) ↔
      FirstIsRootKey content members name := by
  constructor
  · rintro ⟨i, key, value, hfirst, hroot, htext⟩
    obtain ⟨-, hmatch, hnone⟩ := firstMatch_eq_some hfirst
    have htype := hmatch.1
    obtain ⟨k, rfl, hk, -⟩ := hroot.getElem?
    rw [writeTokens_member hk] at htype
    obtain ⟨before, type, start, stop, child, children, after, hsplit, hi, hkey, -⟩ := hroot
    rw [hkey] at htype htext
    obtain rfl : type = .primitive := htype
    refine ⟨before, start, stop, child, children, after, hsplit, htext, fun tok htok hnames => ?_⟩
    -- a token in front of the key would have been taken
    obtain ⟨k, hk⟩ := List.mem_iff_getElem?.mp htok
    have hlt := (List.getElem?_eq_some_iff.mp hk).1
    have hget : (TokTree.preorderAll members)[k]? = some tok := by
      rw [hsplit, TokTree.preorderAll_append, List.getElem?_append_left hlt, hk]
    exact hnone (k + 1) (Nat.succ_pos k) (by omega) ((matches_member_iff hinside hget).mpr hnames)
  · rintro ⟨before, start, stop, child, children, after, hsplit, htext, hnone⟩
    have hkey : (TokTree.preorderAll members)[(TokTree.preorderAll before).length]? =
        some ⟨.primitive, start, stop, (child :: children).length⟩ := by
      rw [hsplit, TokTree.preorderAll_append, TokTree.preorderAll, TokTree.preorder,
        List.getElem?_append_right (Nat.le_refl _), Nat.sub_self]
      rfl
    have hroom := @length_members_lt root span members rest
    have hlt := (List.getElem?_eq_some_iff.mp hkey).1
    refine ⟨(TokTree.preorderAll before).length + 1, _, _, firstMatch_eq_some_iff.mpr
      ⟨⟨Nat.succ_pos _, by omega⟩, (matches_member_iff hinside hkey).mpr ⟨rfl, htext⟩,
        fun k hk hk' => ?_⟩,
      ⟨before, .primitive, start, stop, child, children, after, hsplit, rfl, rfl, rfl⟩, htext⟩
    -- in front of the key stand the tokens of the members before it
    obtain ⟨j, rfl⟩ := Nat.exists_eq_succ_of_ne_zero (Nat.ne_of_gt hk)
    have hj : j < (TokTree.preorderAll before).length := by omega
    have hget : (TokTree.preorderAll members)[j]? = some (TokTree.preorderAll before)[j] := by
      rw [hsplit, TokTree.preorderAll_append, List.getElem?_append_left hj, List.getElem?_eq_getElem]
    rw [Nat.succ_eq_add_one, matches_member_iff hinside hget]
    exact hnone _ (List.getElem_mem hj)

end Root

/-! ## The documents with settings from the root -/

/-- **When `conf_load` succeeds on a document of one block, its settings come from keys of the root
object exactly if the root is an object and, for each of the four names, the first unquoted token behind
the root that reads it is one of its keys and has a value.** -/
theorem settingsFromRoot_iff {P : Type} {parse : JsmnParse P} {init p' : P} {content stale : Bytes}
    {t : ℕ → Tok} {root : JsmnType} {span : Span} {members rest : List TokTree}
    (compile : Option Bytes → Option Code) (hne : content ≠ []) (hfits : content.length ≤ BUFSIZ)
    (hinside : ∀ tok ∈ documentTokens root span members rest, tok.stop ≤ content.length)
    (hparse : parse init content MAX_TOKENS =
      (p', ((documentTokens root span members rest).length : ℤ), documentTokens root span members rest))
    (config : Config Code)
    (hload : (confLoad parse init compile stale t (some content) config).1 = 0) :
    SettingsFromRoot compile content (content ++ stale.drop content.length)
        (writeTokens t 0 (documentTokens root span members rest))
        (documentTokens root span members rest).length root members config
        (confLoad parse init compile stale t (some content) config).2 ↔
      root = .object ∧ ∀ entry ∈ configMap, FirstIsRootKey content members entry.tokenName := by
  rw [confLoad_block compile hne hfits hparse (natCast_ne_nomem _)] at hload ⊢
  have hroot : ∀ name, (∃ i key value, firstMatch (content ++ stale.drop content.length)
      (writeTokens t 0 (documentTokens root span members rest))
      (documentTokens root span members rest).length name = some i ∧
        RootKey members i key value ∧ key.text content = name) ↔
          FirstIsRootKey content members name := firstMatch_rootKey_iff hinside
  rcases hsearch : searchMap compile (content ++ stale.drop content.length)
      (writeTokens t 0 (documentTokens root span members rest))
      ((documentTokens root span members rest).length : ℤ) configMap config with ⟨_ | r, final⟩
  · -- each of the names is found, and decided by its first match
    have hfound := searchMap_success hsearch
    dsimp only
    constructor
    · rintro ⟨hobject, hfields, hlocations⟩
      refine ⟨hobject, fun entry hentry => (hroot _).mp ?_⟩
      cases hdest : entry.dest with
      | some dest =>
          obtain ⟨i, key, value, hfirst, hkey, htext, -⟩ := hfields entry hentry dest hdest
          rw [supplier_eq_firstMatch] at hfirst
          exact ⟨i, key, value, hfirst, hkey, htext⟩
      | none =>
          obtain rfl := eq_locationsEntry hentry hdest
          obtain ⟨i, key, value, hfirst, hkey, htext, -⟩ := hlocations
          rw [supplier_eq_firstMatch] at hfirst
          exact ⟨i, key, value, hfirst, hkey, htext⟩
    · rintro ⟨hobject, hfirsts⟩
      refine ⟨hobject, fun entry hentry dest hdest => ?_, ?_⟩
      · obtain ⟨i, key, value, hfirst, hkey, htext⟩ := (hroot _).mpr (hfirsts entry hentry)
        obtain ⟨i', hfirst', hget⟩ := hfound.fields entry hentry dest hdest
        obtain rfl : i = i' := Option.some.inj (hfirst.symm.trans hfirst')
        refine ⟨i, key, value, (supplier_eq_firstMatch ..).trans hfirst, hkey, htext, ?_⟩
        -- the value lies in the file
        obtain ⟨k, rfl, -, hvalue⟩ := hkey.getElem?
        have hstop := hinside _ (mem_documentTokens (List.mem_of_getElem? hvalue))
        rw [hget, writeTokens_member hvalue, Tok.print, Tok.print, Tok.text_append _ hstop]
      · obtain ⟨i, key, value, hfirst, hkey, htext⟩ := (hroot _).mpr (hfirsts _ mem_locationsEntry)
        obtain ⟨i', hfirst', hfinal⟩ := hfound.locations
        obtain rfl : i = i' := Option.some.inj (hfirst.symm.trans hfirst')
        obtain ⟨k, rfl, -, hvalue⟩ := hkey.getElem?
        exact ⟨k + 1, key, value, (supplier_eq_firstMatch ..).trans hfirst, hkey, htext,
          writeTokens_member hvalue, hfinal⟩
  · -- a search that ends with an error does not return 0
    rw [hsearch] at hload
    exact absurd (searchMap_failed hsearch) (by dsimp only at hload; omega)

/-! ## Two documents -/

/-- The members of `oneContent`, from the given offset on. -/
def sampleMembers (start : ℕ) : List TokTree :=
  [Key.member ⟨false, start + 1, start + 12⟩ (Span.str ⟨start + 14, start + 15⟩),
    Key.member ⟨false, start + 17, start + 26⟩ (Span.str ⟨start + 28, start + 29⟩),
    Key.member ⟨false, start + 31, start + 39⟩ (Span.str ⟨start + 41, start + 42⟩),
    Key.member ⟨false, start + 44, start + 53⟩
      (.node .array (start + 54) (start + 85) [(sampleLocation (start + 55)).tree])]

def oneTokens : List Tok :=
  documentTokens .object ⟨0, 86⟩ (sampleMembers 0) []

/-- The settings of `oneContent` come from its keys. -/
theorem settingsFromRoot_one :
    SettingsFromRoot (fun _ => (none : Option Unit)) oneContent
      (oneContent ++ [].drop oneContent.length)
      (writeTokens (fun _ => Tok.zero) 0 oneTokens) oneTokens.length .object (sampleMembers 0)
      ⟨[], [], [], []⟩
      (confLoad (sampleParse oneTokens) () (fun _ => none) [] (fun _ => Tok.zero) (some oneContent)
        ⟨[], [], [], []⟩).2 := by
  refine (settingsFromRoot_iff _ (by decide) (by decide) (by decide +kernel) rfl _
    (by decide +kernel)).mpr ⟨rfl, ?_⟩
  intro entry hentry
  simp only [configMap, List.mem_cons, List.not_mem_nil, or_false] at hentry
  rcases hentry with rfl | rfl | rfl | rfl
  · exact ⟨[], _, _, _, _, _, rfl, by decide +kernel, by decide⟩
  · exact ⟨(sampleMembers 0).take 1, _, _, _, _, _, rfl, by decide +kernel, by decide +kernel⟩
  · exact ⟨(sampleMembers 0).take 2, _, _, _, _, _, rfl, by decide +kernel, by decide +kernel⟩
  · exact ⟨(sampleMembers 0).take 3, _, _, _, _, _, rfl, by decide +kernel, by decide +kernel⟩

/-- `oneContent` with the member `x:listen_port` in front. -/
def valueContent : Bytes :=
  ascii "\x7bx:listen_port," ++ oneContent.tail

def valueMembers : List TokTree :=
  Key.member ⟨false, 1, 2⟩ (.node .primitive 3 14 []) :: sampleMembers 14

def valueTokens : List Tok :=
  documentTokens .object ⟨0, 100⟩ valueMembers []

/-- The value of `x` is taken for the key, and `listen_port` is what is left of the key behind it. -/
theorem not_settingsFromRoot_value :
    (confLoad (sampleParse valueTokens) () (fun _ => (none : Option Unit)) [] (fun _ => Tok.zero)
        (some valueContent) ⟨[], [], [], []⟩).1 = 0 ∧
      (confLoad (sampleParse valueTokens) () (fun _ => (none : Option Unit)) [] (fun _ => Tok.zero)
        (some valueContent) ⟨[], [], [], []⟩).2.listenPort = ascii "listen_" ∧
      ¬ SettingsFromRoot (fun _ => (none : Option Unit)) valueContent
        (valueContent ++ [].drop valueContent.length) (writeTokens (fun _ => Tok.zero) 0 valueTokens)
        valueTokens.length .object valueMembers ⟨[], [], [], []⟩
        (confLoad (sampleParse valueTokens) () (fun _ => none) [] (fun _ => Tok.zero)
          (some valueContent) ⟨[], [], [], []⟩).2 := by
  refine ⟨by decide +kernel, by decide +kernel, fun hroot => ?_⟩
  have hfield := hroot.fields ⟨ascii "listen_port", some .listenPort, true⟩
    (List.mem_cons_self ..) .listenPort rfl
  obtain ⟨i, key, value, hsupplier, hkey, -⟩ := hfield
  rw [supplier_eq_firstMatch] at hsupplier
  obtain rfl : i = 2 := Option.some.inj (hsupplier.symm.trans (by decide +kernel))
  -- the token there has no value
  have htoken : (TokTree.preorderAll valueMembers)[1]? = some ⟨.primitive, 3, 14, 0⟩ := by
    decide +kernel
  obtain ⟨k, hk, hget, -⟩ := hkey.getElem?
  obtain rfl : k = 1 := (Nat.succ.inj hk).symm
  obtain ⟨-, type, start, stop, child, children, -, -, -, rfl, -⟩ := hkey
  have hsize := congrArg Tok.size (Option.some.inj (htoken.symm.trans hget))
  exact absurd hsize (Nat.succ_ne_zero _).symm

end Gfhttpd.Conf
