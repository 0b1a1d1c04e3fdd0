import Gfhttpd.Config.Document
import Mathlib.Data.Nat.Find

/-!
# What `conf_load` makes of a document

`conf_load` takes the first unquoted token that reads `locations`, wherever it stands, for
the key of the locations.  `locations_parser` then walks the array with a stride of one token
for each location, so it reaches a second location inside the first one.

The last section is about the pattern a location is compiled from.
-/

namespace Gfhttpd.Conf

open Http

variable {Code : Type}

/-! ## Tokens by name -/

/-- An unquoted token that reads `name`. -/
def Names (content name : Bytes) (tok : Tok) : Prop :=
  tok.type = .primitive ∧ tok.text content = name

instance (content name : Bytes) (tok : Tok) : Decidable (Names content name tok) :=
  inferInstanceAs (Decidable (_ ∧ _))

/-- The test of `json_contains`. -/
def Matches (json name : Bytes) (tok : Tok) : Prop :=
  tok.type = .primitive ∧ name.length = tok.stop - tok.start ∧ tok.text json = name

instance (json name : Bytes) (tok : Tok) : Decidable (Matches json name tok) :=
  inferInstanceAs (Decidable (_ ∧ _ ∧ _))

theorem Tok.length_text {content : Bytes} {tok : Tok} (hstop : tok.stop ≤ content.length) :
    (tok.text content).length = tok.stop - tok.start := by
  simp only [Tok.text, List.length_take, List.length_drop]
  omega

theorem matches_iff {content stale name : Bytes} {tok : Tok} (hstop : tok.stop ≤ content.length) :
    Matches (content ++ stale) name tok ↔ Names content name tok := by
  rw [Matches, Names, Tok.text_append _ hstop]
  constructor
  · rintro ⟨htype, -, htext⟩
    exact ⟨htype, htext⟩
  · rintro ⟨htype, htext⟩
    exact ⟨htype, by rw [← htext, Tok.length_text hstop], htext⟩

/-- `jsoneq` on a key of a well-formed document. -/
theorem jsoneq_key {content stale name : Bytes} {tok : Tok} (hstop : tok.stop ≤ content.length)
    (htype : tok.type = .string ∨ tok.type = .primitive) :
    jsoneq (content ++ stale) tok name = (tok.text content == name) := by
  have hkind : (tok.type == .string || tok.type == .primitive) = true := by
    rcases htype with htype | htype <;> simp [htype]
  rw [jsoneq, hkind, Tok.text_append _ hstop, Bool.true_and]
  by_cases htext : tok.text content = name
  · simp [← htext, Tok.length_text hstop]
  · simp [htext]

theorem Key.type_eq (k : Key) : k.type = .string ∨ k.type = .primitive := by
  cases h : k.quoted <;> simp [Key.type, h]

/-! ## The search for one entry -/

section Search

variable {compile : Option Bytes → Option Code} {json : Bytes} {t : ℕ → Tok} {entry : ConfigMap}

theorem jsonContains_of_not_matches (compile : Option Bytes → Option Code) {i : ℕ}
    (hi : ¬ Matches json entry.tokenName (t i)) (config : Config Code) :
    jsonContains compile json t entry i config = (0, config) :=
  if_neg hi

theorem jsonContains_dest (compile : Option Bytes → Option Code) {dest : Dest}
    (hdest : entry.dest = some dest) {i : ℕ} (hi : Matches json entry.tokenName (t i))
    (config : Config Code) :
    jsonContains compile json t entry i config =
      (1, config.set ((t (i + 1)).print json dest.size) dest) := by
  unfold Matches at hi
  rw [jsonContains, if_pos hi, hdest]

theorem jsonContains_locations (compile : Option Bytes → Option Code)
    (hdest : entry.dest = none) {i : ℕ} (hi : Matches json entry.tokenName (t i))
    (config : Config Code) :
    jsonContains compile json t entry i config = locationsParser compile json t i config := by
  unfold Matches at hi
  rw [jsonContains, if_pos hi, hdest]

/-- Where no token matches, the search goes on behind them. -/
theorem searchTokens_skip (compile : Option Bytes → Option Code) (pre is : List ℕ)
    (hpre : ∀ i ∈ pre, ¬ Matches json entry.tokenName (t i)) (config : Config Code) :
    searchTokens compile json t entry (pre ++ is) config =
      searchTokens compile json t entry is config := by
  induction pre with
  | nil => rfl
  | cons i pre ih =>
      have hi := hpre i (List.mem_cons_self ..)
      rw [List.cons_append, searchTokens, jsonContains_of_not_matches compile hi]
      exact ih fun k hk => hpre k (List.mem_cons_of_mem _ hk)

theorem searchTokens_notFound (compile : Option Bytes → Option Code) {is : List ℕ}
    (config : Config Code)
    (hall : ∀ i ∈ is, ¬ Matches json entry.tokenName (t i)) :
    searchTokens compile json t entry is config = .notFound config := by
  have hskip := searchTokens_skip compile is [] hall config
  rwa [List.append_nil] at hskip

/-- An entry with a field is found at the first matching token; the routes stay. -/
theorem searchTokens_dest (compile : Option Bytes → Option Code) (json : Bytes) (t : ℕ → Tok)
    {dest : Dest} (hdest : entry.dest = some dest) (is : List ℕ) (config : Config Code) :
    (∃ config' : Config Code, config'.routes = config.routes ∧
      searchTokens compile json t entry is config = .found config' ∧
      ∃ i ∈ is, Matches json entry.tokenName (t i)) ∨
    (searchTokens compile json t entry is config = .notFound config ∧
      ∀ i ∈ is, ¬ Matches json entry.tokenName (t i)) := by
  induction is with
  | nil => exact Or.inr ⟨rfl, by simp⟩
  | cons i is ih =>
      by_cases hi : Matches json entry.tokenName (t i)
      · refine Or.inl ⟨config.set ((t (i + 1)).print json dest.size) dest, ?_, ?_, i,
          List.mem_cons_self .., hi⟩
        · cases dest <;> rfl
        · rw [searchTokens, jsonContains_dest compile hdest hi]
          rfl
      · have hskip : searchTokens compile json t entry (i :: is) config =
            searchTokens compile json t entry is config := by
          rw [searchTokens, jsonContains_of_not_matches compile hi]
          rfl
        rw [hskip]
        rcases ih with ⟨config', hroutes, hfound, k, hk, hmatch⟩ | ⟨hnot, hall⟩
        · exact Or.inl ⟨config', hroutes, hfound, k, List.mem_cons_of_mem _ hk, hmatch⟩
        · exact Or.inr ⟨hnot, List.forall_mem_cons.mpr ⟨hi, hall⟩⟩

/-- A search that fails leaves `conf_load` with `-1`. -/
theorem locationsParser_fst (compile : Option Bytes → Option Code) (t : ℕ → Tok) (json : Bytes)
    (i : ℕ) (config : Config Code) :
    (locationsParser compile json t i config).1 = -1 ∨
      0 < (locationsParser compile json t i config).1 ∧ (t (i + 1)).type = .array ∧
        (locationsLoop compile json t (i + 1) (t (i + 1)).size 0 config).1 = true := by
  unfold locationsParser
  by_cases harray : (t (i + 1)).type = .array
  · rw [if_neg (not_not.mpr harray)]
    rcases hloop : locationsLoop compile json t (i + 1) (t (i + 1)).size 0 config with ⟨_ | _, c⟩
    · exact Or.inl rfl
    · exact Or.inr ⟨by simp only; omega, harray, rfl⟩
  · exact Or.inl (by rw [if_pos harray])

/-- `locations_parser` runs on the first matching token. -/
theorem searchTokens_locations (compile : Option Bytes → Option Code)
    (hdest : entry.dest = none) (pre post : List ℕ) {i : ℕ} (config : Config Code)
    (hpre : ∀ k ∈ pre, ¬ Matches json entry.tokenName (t k))
    (hi : Matches json entry.tokenName (t i)) :
    searchTokens compile json t entry (pre ++ i :: post) config =
      if 0 < (locationsParser compile json t i config).1 then
        .found (locationsParser compile json t i config).2
      else .failed (locationsParser compile json t i config).1
        (locationsParser compile json t i config).2 := by
  rw [searchTokens_skip compile pre _ hpre, searchTokens, jsonContains_locations compile hdest hi]
  dsimp only
  rcases locationsParser_fst compile t json i config with hfail | ⟨hpos, -⟩
  · -- it never returns 0, with which the search would go on
    have hneg : (locationsParser compile json t i config).1 < 0 := by
      rw [hfail]
      decide
    rw [if_neg (by omega), if_pos hneg, if_neg (by omega)]
  · rw [if_pos hpos, if_pos hpos]

end Search

/-! ## One location object -/

/-- Behind the token of the array stand its names. -/
theorem readModules_eq {content : Bytes} (stale : Bytes) {t : ℕ → Tok} {keys : ℕ}
    {o : LocationObject} (hsize : (t keys).size = o.modules.length)
    (hnames : ∀ k (hk : k < o.modules.length),
      t (keys + 1 + k) = ⟨.string, o.modules[k].start, o.modules[k].stop, 0⟩)
    (hinside : ∀ m ∈ o.modules, m.stop ≤ content.length) :
    readModules (content ++ stale) t keys = o.chain content := by
  rw [readModules, hsize, LocationObject.chain]
  refine List.ext_getElem (by simp) fun k hk hk' => ?_
  have hlen : k < o.modules.length := by simpa using hk
  have hstop := hinside _ (List.getElem_mem hlen)
  simp only [List.getElem_map, List.getElem_range, readModule, hnames k hlen, Tok.print]
  rw [Tok.text_append ⟨.string, o.modules[k].start, o.modules[k].stop, 0⟩ hstop]
  rfl

/-- Where the tokens of a location object stand one after the other, `readLocation` reads its
location and its modules. -/
theorem readLocation_eq {content : Bytes} (stale : Bytes) {t : ℕ → Tok} {loc : ℕ} {o : LocationObject}
    (hrow : ∀ k tok, o.tree.preorder[k]? = some tok → t (loc + k) = tok)
    (hinside : ∀ tok ∈ o.tree.preorder, tok.stop ≤ content.length)
    (ho : o.WellFormed content) :
    readLocation (content ++ stale) t loc =
      ⟨o.location.start, o.location.stop - o.location.start, o.chain content⟩ := by
  rw [o.preorder_tree] at hrow hinside
  have h0 := hrow 0 _ rfl
  have h1 := hrow 1 _ rfl
  have h2 := hrow 2 _ rfl
  have h3 := hrow 3 _ rfl
  have h4 := hrow 4 _ rfl
  have hkey1 : jsoneq (content ++ stale) (t (loc + 1)) (ascii "location") = true := by
    rw [jsoneq_key (by rw [h1]; exact hinside _ (by simp)) (by rw [h1]; exact o.locationKey.type_eq),
      h1]
    simpa [Tok.text, Span.text] using ho.locationKey
  -- the key at `loc + 3` is not taken for that of the location
  have htext3 : (t (loc + 3)).text content = ascii "modules" := by
    rw [h3]
    simpa [Tok.text, Span.text] using ho.modulesKey
  have hstop3 : (t (loc + 3)).stop ≤ content.length := by rw [h3]; exact hinside _ (by simp)
  have htype3 : (t (loc + 3)).type = .string ∨ (t (loc + 3)).type = .primitive := by
    rw [h3]; exact o.modulesKey.type_eq
  have hkey3 : jsoneq (content ++ stale) (t (loc + 3)) (ascii "location") = false := by
    rw [jsoneq_key hstop3 htype3, htext3]
    decide
  have hkey3' : jsoneq (content ++ stale) (t (loc + 3)) (ascii "modules") = true := by
    rw [jsoneq_key hstop3 htype3, htext3]
    decide
  have hmodules : readModules (content ++ stale) t (loc + 4) = o.chain content := by
    apply readModules_eq
    · rw [h4]
    · intro k hk
      rw [show loc + 4 + 1 + k = loc + (k + 5) by omega]
      exact hrow (k + 5) _ (by simp [hk])
    · intro m hm
      have hmem : (⟨.string, m.start, m.stop, 0⟩ : Tok) ∈
          o.modules.map fun m => ⟨.string, m.start, m.stop, 0⟩ := List.mem_map.mpr ⟨m, hm, rfl⟩
      exact hinside _ (List.mem_append_right [_, _, _, _, _] hmem)
  have hsize : (t loc).size = 2 := by
    have := hrow 0 _ rfl
    rw [Nat.add_zero] at this
    rw [this]
  rw [readLocation, hsize]
  simp only [readLocationLoop, hsize, Nat.zero_le, if_true, Nat.add_zero, hkey1]
  rw [if_pos (by omega), if_neg (by rw [show loc + 1 + (0 + 2) = loc + 3 by omega, hkey3]; simp),
    if_pos (by rw [show loc + 1 + (0 + 2) = loc + 3 by omega, hkey3']), if_neg (by omega)]
  rw [show loc + 1 + (0 + 2) + 1 = loc + 4 by omega, hmodules, h2]

/-! ## The walk over the locations -/

section Walk

variable {compile : Option Bytes → Option Code} {content stale : Bytes} {t : ℕ → Tok}
  {doc : Document}

/-- The slots from the root key `locations` on hold its tokens. -/
def Document.At (doc : Document) (t : ℕ → Tok) : Prop :=
  ∀ i tok, doc.tokens[i]? = some tok → t i = tok

theorem Document.At.suffix (h : doc.At t) {k : ℕ} {tok : Tok}
    (htok : doc.locationsTokens[k]? = some tok) : t (doc.locationsIndex + k) = tok := by
  refine h _ _ ?_
  rw [doc.tokens_eq, Document.locationsIndex, Nat.add_right_comm, List.getElem?_cons_succ,
    List.getElem?_append_right (Nat.le_add_right _ _), Nat.add_sub_cancel_left]
  exact htok

theorem Document.At.key (h : doc.At t) : t doc.locationsIndex =
    ⟨doc.locationsKey.type, doc.locationsKey.span.start, doc.locationsKey.span.stop, 1⟩ :=
  h.suffix (k := 0) rfl

theorem Document.At.array (h : doc.At t) : t (doc.locationsIndex + 1) =
    ⟨.array, doc.locationsSpan.start, doc.locationsSpan.stop, doc.locations.length⟩ :=
  h.suffix (k := 1) rfl

theorem Document.At.first (h : doc.At t) {o : LocationObject} {os : List LocationObject}
    (hlocs : doc.locations = o :: os) (k : ℕ) (tok : Tok) (htok : o.tree.preorder[k]? = some tok) :
    t (doc.locationsIndex + 2 + k) = tok := by
  have hk : k < o.tree.preorder.length := (List.getElem?_eq_some_iff.mp htok).1
  rw [Nat.add_assoc, Nat.add_comm 2 k]
  refine h.suffix ?_
  rw [Document.locationsTokens, hlocs, List.map_cons, TokTree.preorderAll, List.append_assoc]
  rw [List.getElem?_cons_succ, List.getElem?_cons_succ, List.getElem?_append_left hk, htok]

theorem Document.mem_tokens_of_first {o : LocationObject} {os : List LocationObject}
    (hlocs : doc.locations = o :: os) {tok : Tok} (htok : tok ∈ o.tree.preorder) :
    tok ∈ doc.tokens := by
  rw [doc.tokens_eq, Document.locationsTokens, hlocs, List.map_cons, TokTree.preorderAll]
  exact List.mem_cons_of_mem _ (List.mem_append_right _ (List.mem_cons_of_mem _
    (List.mem_cons_of_mem _ (List.mem_append_left _ (List.mem_append_left _ htok)))))

/-- The route of a location. -/
def LocationObject.route (compile : Option Bytes → Option Code) (json content : Bytes)
    (o : LocationObject) : Route Code where
  path := o.location.text content
  nPath := o.location.stop - o.location.start
  modulesChain := o.chain content
  re := parseRegex compile (json.drop o.location.start)

/-- With at most one location the walk inserts its route. -/
theorem locationsLoop_few (compile : Option Bytes → Option Code) (stale : Bytes) (hat : doc.At t)
    (hwf : doc.WellFormed content)
    (hfew : doc.locations.length ≤ 1) (config : Config Code) :
    locationsLoop compile (content ++ stale) t (doc.locationsIndex + 1) doc.locations.length 0
        config =
      (true, { config with
        routes := config.routes ++
          doc.locations.map (LocationObject.route compile (content ++ stale) content) }) := by
  match hlocs : doc.locations with
  | [] => simp [locationsLoop]
  | [o] =>
      have ho := hwf.locations o (by simp [hlocs])
      have hrow : ∀ k tok, o.tree.preorder[k]? = some tok → t (doc.locationsIndex + 2 + k) = tok :=
        fun k tok htok => hat.first hlocs k tok htok
      have htype : (t (doc.locationsIndex + 2)).type = .object := by
        have h0 := hrow 0 ⟨.object, o.span.start, o.span.stop, 2⟩ (by rw [o.preorder_tree]; rfl)
        rw [Nat.add_zero] at h0
        rw [h0]
      have hread := readLocation_eq stale hrow
        (fun tok htok => (hwf.inside tok (doc.mem_tokens_of_first hlocs htok)).2) ho
      have hpath : (List.drop o.location.start (content ++ stale)).take
          (o.location.stop - o.location.start) = o.location.text content :=
        Tok.text_append ⟨.string, o.location.start, o.location.stop, 0⟩ ho.location.2
      have hok : ¬ (o.chain content = [] ∨ o.location.stop - o.location.start = 0) := by
        have hne : o.chain content ≠ [] := by simpa [LocationObject.chain] using ho.modules
        have := ho.location.1
        rintro (h | h)
        · exact hne h
        · omega
      simp only [List.length_cons, List.length_nil, Nat.zero_add, locationsLoop, Nat.add_zero]
      rw [show doc.locationsIndex + 1 + 1 = doc.locationsIndex + 2 by omega, if_pos htype, hread,
        if_neg hok]
      simp [insertRoute, LocationObject.route, hpath]
  | o₁ :: o₂ :: os => simp [hlocs] at hfew

/-- With more than one location the walk fails: it takes the first key inside the first
location for the second location. -/
theorem locationsLoop_many (hat : doc.At t) (hmany : 1 < doc.locations.length)
    (config : Config Code) :
    (locationsLoop compile (content ++ stale) t (doc.locationsIndex + 1) doc.locations.length 0
      config).1 = false := by
  match hlocs : doc.locations with
  | [] => simp [hlocs] at hmany
  | [o] => simp [hlocs] at hmany
  | o :: o₂ :: os =>
      have hkey := hat.first hlocs 1 ⟨o.locationKey.type, o.locationKey.span.start,
        o.locationKey.span.stop, 1⟩ (by rw [o.preorder_tree]; rfl)
      have htype : (t (doc.locationsIndex + 1 + 1 + 1)).type ≠ .object := by
        rw [show doc.locationsIndex + 1 + 1 + 1 = doc.locationsIndex + 2 + 1 by omega, hkey]
        rcases o.locationKey.type_eq with h | h <;> simp [h]
      simp only [List.length_cons, locationsLoop, Nat.zero_add]
      rw [Nat.add_zero]
      split
      · -- the first location may be refused already
        split <;> rfl
      · rfl

end Walk

/-! ## The whole document -/

section Load

variable {P : Type} {parse : JsmnParse P} {init p' : P} {compile : Option Bytes → Option Code}
  {content stale : Bytes} {t : ℕ → Tok} {doc : Document}

/-- Entries with a field keep the routes; the search fails at the first one without a token. -/
theorem searchMap_dests (compile : Option Bytes → Option Code) (json : Bytes) (t : ℕ → Tok)
    (r : ℤ) (es rest : List ConfigMap)
    (hes : ∀ e ∈ es, e.required = true ∧ ∃ dest, e.dest = some dest) (config : Config Code) :
    (∃ config' : Config Code, config'.routes = config.routes ∧
      searchMap compile json t r (es ++ rest) config = searchMap compile json t r rest config' ∧
      ∀ e ∈ es, ∃ i ∈ List.range' 1 (r.toNat - 1), Matches json e.tokenName (t i)) ∨
    (∃ config' : Config Code,
      searchMap compile json t r (es ++ rest) config = (some (-1), config') ∧
      ∃ e ∈ es, ∀ i ∈ List.range' 1 (r.toNat - 1), ¬ Matches json e.tokenName (t i)) := by
  induction es generalizing config with
  | nil => exact Or.inl ⟨config, rfl, rfl, by simp⟩
  | cons e es ih =>
      -- each entry has a search of its own over all the tokens
      obtain ⟨hreq, dest, hdest⟩ := hes e (List.mem_cons_self ..)
      have hes' := fun e' he' => hes e' (List.mem_cons_of_mem _ he')
      rcases searchTokens_dest compile json t hdest (List.range' 1 (r.toNat - 1)) config with
        ⟨config₁, hroutes, hfound, hmatch⟩ | ⟨hnot, hall⟩
      · have hstep : searchMap compile json t r (e :: es ++ rest) config =
            searchMap compile json t r (es ++ rest) config₁ := by
          simp [searchMap, hfound]
        rw [hstep]
        rcases ih hes' config₁ with ⟨config', hroutes', heq, hmatches⟩ | ⟨config', heq, e', he', h⟩
        · refine Or.inl ⟨config', hroutes'.trans hroutes, heq, fun e' he' => ?_⟩
          rcases List.mem_cons.mp he' with rfl | he'
          · exact hmatch
          · exact hmatches e' he'
        · exact Or.inr ⟨config', heq, e', List.mem_cons_of_mem _ he', h⟩
      · refine Or.inr ⟨config, ?_, e, List.mem_cons_self .., hall⟩
        simp [searchMap, hnot, hreq]

/-- A file of at most `BUFSIZ` bytes is one block. -/
theorem fileReads_block (hne : content ≠ []) (hfits : content.length ≤ BUFSIZ) :
    fileReads content.length content = [content] := by
  obtain ⟨n, hn⟩ := Nat.exists_eq_succ_of_ne_zero fun hzero => hne (List.length_eq_zero_iff.mp hzero)
  rw [hn, fileReads, if_neg hne, List.take_of_length_le hfits, List.drop_eq_nil_of_le hfits]
  cases n <;> rfl

/-- A number of tokens is not an error. -/
theorem natCast_ne_nomem (n : ℕ) : (n : ℤ) ≠ JSMN_ERROR_NOMEM := by
  rw [JSMN_ERROR_NOMEM]
  omega

/-- One block is searched once. -/
theorem confLoad_block (compile : Option Bytes → Option Code) {r : ℤ} {toks : List Tok}
    (hne : content ≠ []) (hfits : content.length ≤ BUFSIZ)
    (hparse : parse init content MAX_TOKENS = (p', r, toks)) (hr : r ≠ JSMN_ERROR_NOMEM)
    (config : Config Code) :
    confLoad parse init compile stale t (some content) config =
      match searchMap compile (content ++ stale.drop content.length) (writeTokens t 0 toks) r
          configMap config with
      | (some r, config) => (r, config)
      | (none, config) => (0, config) := by
  have hbase : nextSlot 0 0 = 0 := rfl
  have hroom : MAX_TOKENS - 0 = MAX_TOKENS := rfl
  rcases hsearch : searchMap compile (content ++ stale.drop content.length)
    (writeTokens t 0 toks) r configMap config with ⟨ret, config'⟩
  cases ret <;> simp only [confLoad, fileReads_block hne hfits, readLoop, hbase, hroom, hparse,
    if_neg hr, hsearch]

/-- A document in one block is searched once. -/
theorem confLoad_eq (hwf : doc.WellFormed content)
    (hparse : parse init content MAX_TOKENS = (p', (doc.tokens.length : ℤ), doc.tokens))
    (config : Config Code) :
    confLoad parse init compile stale t (some content) config =
      match searchMap compile (content ++ stale.drop content.length) (writeTokens t 0 doc.tokens)
          doc.tokens.length configMap config with
      | (some r, config) => (r, config)
      | (none, config) => (0, config) := by
  have hne : content ≠ [] := by
    rintro rfl
    have hkey := hwf.locationsKey
    simp [Span.text, ascii] at hkey
  -- the document was cut into tokens whole, so there is no second block to wait for
  exact confLoad_block compile hne hwf.fits hparse (natCast_ne_nomem _) config

/-- The keys other than `locations`. -/
def fieldNames : List Bytes := [ascii "listen_port", ascii "cert_file", ascii "key_file"]

/-- A text that is kept whole as the name of a module. -/
def FitsName (text : Bytes) : Prop :=
  text.length < MODULE_NAME ∧ (0 : UInt8) ∉ text

instance (text : Bytes) : Decidable (FitsName text) :=
  inferInstanceAs (Decidable (_ ∧ _))

/-- The modules of a location under their full names. -/
def LocationObject.names (content : Bytes) (o : LocationObject) : List Module :=
  o.modules.map fun m => ⟨m.text content, .golang⟩

theorem take_cstr_eq_iff (text : Bytes) :
    (cstr text).take (MODULE_NAME - 1) = text ↔ FitsName text := by
  constructor
  · intro h
    have hlength := congrArg List.length h
    have hle := List.length_take_le (MODULE_NAME - 1) (cstr text)
    refine ⟨?_, fun hzero => ?_⟩
    · rw [← hlength]
      exact Nat.lt_of_le_of_lt hle (by decide)
    · rw [← h] at hzero
      exact not_mem_cstr text (List.mem_of_mem_take hzero)
  · intro h
    rw [cstr_eq_self h.2]
    exact List.take_of_length_le (Nat.le_pred_of_lt h.1)

theorem LocationObject.chain_eq_names_iff (content : Bytes) (o : LocationObject) :
    o.chain content = o.names content ↔ ∀ m ∈ o.modules, FitsName (m.text content) := by
  unfold LocationObject.chain LocationObject.names
  rw [List.map_inj_left]
  simp only [Module.mk.injEq, and_true, take_cstr_eq_iff]

/-- When `conf_load` finds the locations of a document: the three other settings occur as
unquoted tokens, the root key `locations` is unquoted and no earlier unquoted token reads the
same, there is at most one location, and the names of its modules are kept whole. -/
structure FindsLocations (content : Bytes) (doc : Document) : Prop where
  fields : ∀ name ∈ fieldNames, ∃ tok ∈ doc.tokens.tail, Names content name tok
  unquoted : doc.locationsKey.quoted = false
  first : ∀ tok ∈ TokTree.preorderAll doc.before, ¬ Names content (ascii "locations") tok
  few : doc.locations.length ≤ 1
  names : ∀ o ∈ doc.locations, ∀ m ∈ o.modules, FitsName (m.text content)

/-- The first unquoted token that reads `locations` is not the root key and is followed by
an array. -/
def StrayArray (content : Bytes) (t : ℕ → Tok) (doc : Document) : Prop :=
  ∃ i, 1 ≤ i ∧ i < doc.tokens.length ∧ Names content (ascii "locations") (t i) ∧
    (∀ k, 1 ≤ k → k < i → ¬ Names content (ascii "locations") (t k)) ∧
    i ≠ doc.locationsIndex ∧ (t (i + 1)).type = .array

/-- `conf_load` returned 0 with one route for each location, in order. -/
def Loaded (content : Bytes) (doc : Document) (res : ℤ × Config Code) : Prop :=
  res.1 = 0 ∧ res.2.routes.map (fun r => (r.path, r.nPath, r.modulesChain)) =
    doc.locations.map fun o =>
      (o.location.text content, o.location.stop - o.location.start, o.names content)

theorem Document.at_writeTokens (doc : Document) (t : ℕ → Tok) :
    doc.At (writeTokens t 0 doc.tokens) :=
  fun _ _ h => writeTokens_zero_of_getElem? h

/-- Searching the indices from 1 on is searching the tokens behind the root. -/
theorem exists_matches_iff (hwf : doc.WellFormed content) (stale name : Bytes) (t : ℕ → Tok) :
    (∃ i ∈ List.range' 1 ((doc.tokens.length : ℤ).toNat - 1),
      Matches (content ++ stale) name (writeTokens t 0 doc.tokens i)) ↔
      ∃ tok ∈ doc.tokens.tail, Names content name tok := by
  have hat := doc.at_writeTokens t
  constructor
  · rintro ⟨i, hi, hmatch⟩
    simp only [List.mem_range'_1, Int.toNat_natCast] at hi
    have hget : doc.tokens[i]? = some doc.tokens[i] := List.getElem?_eq_getElem (by omega)
    rw [hat _ _ hget] at hmatch
    have hmem : doc.tokens[i] ∈ doc.tokens.tail := by
      refine List.mem_of_getElem? (i := i - 1) ?_
      rw [List.getElem?_tail, Nat.sub_add_cancel hi.1, hget]
    exact ⟨_, hmem, (matches_iff (hwf.inside _ (List.mem_of_mem_tail hmem)).2).mp hmatch⟩
  · rintro ⟨tok, hmem, hnames⟩
    obtain ⟨i, hget⟩ := List.mem_iff_getElem?.mp hmem
    rw [List.getElem?_tail] at hget
    have hlt := (List.getElem?_eq_some_iff.mp hget).1
    refine ⟨i + 1, by simp only [List.mem_range'_1, Int.toNat_natCast]; omega, ?_⟩
    rw [hat _ _ hget]
    exact (matches_iff (hwf.inside _ (List.mem_of_mem_tail hmem)).2).mpr hnames

/-- The entry of `config_map` with the array parser. -/
def locationsEntry : ConfigMap := ⟨ascii "locations", none, true⟩

theorem range'_split {i n : ℕ} (hi : 1 ≤ i) (hn : i < n) :
    List.range' 1 (n - 1) = List.range' 1 (i - 1) ++ i :: List.range' (i + 1) (n - 1 - i) := by
  have hcons : i :: List.range' (i + 1) (n - 1 - i) = List.range' i (n - i) := by
    rw [show n - i = (n - 1 - i) + 1 by omega, List.range'_succ]
  have happ := List.range'_append_1 (s := 1) (m := i - 1) (n := n - i)
  rw [show 1 + (i - 1) = i by omega, show i - 1 + (n - i) = n - 1 by omega] at happ
  rw [hcons, happ]

/-- The search for `locations` ends with `locations_parser` on the first match. -/
theorem searchMap_locations {json : Bytes} {n i : ℕ} (config : Config Code) (hi : 1 ≤ i) (hn : i < n)
    (hmatch : Matches json (ascii "locations") (t i))
    (hfirst : ∀ k, 1 ≤ k → k < i → ¬ Matches json (ascii "locations") (t k)) :
    searchMap compile json t (n : ℤ) [locationsEntry] config =
      if 0 < (locationsParser compile json t i config).1 then
        (none, (locationsParser compile json t i config).2)
      else (some (locationsParser compile json t i config).1,
        (locationsParser compile json t i config).2) := by
  have hsearch := searchTokens_locations compile (show locationsEntry.dest = none from rfl)
    (List.range' 1 (i - 1)) (List.range' (i + 1) (n - 1 - i)) config
    (fun k hk => hfirst k (by simp only [List.mem_range'_1] at hk; omega)
      (by simp only [List.mem_range'_1] at hk; omega)) hmatch
  rw [searchMap, Int.toNat_natCast, range'_split hi hn, hsearch]
  by_cases hpos : 0 < (locationsParser compile json t i config).1
  · simp [hpos, searchMap]
  · simp [hpos]

theorem Document.locationsIndex_lt (doc : Document) :
    1 ≤ doc.locationsIndex ∧ doc.locationsIndex < doc.tokens.length := by
  rw [doc.tokens_eq, Document.locationsIndex, Document.locationsTokens]
  simp only [List.length_cons, List.length_append]
  omega

/-- The tokens in front of the root key `locations`. -/
theorem Document.mem_before_iff {doc : Document} {t : ℕ → Tok} (hat : doc.At t) {q : Tok → Prop} :
    (∀ tok ∈ TokTree.preorderAll doc.before, q tok) ↔
      ∀ k, 1 ≤ k → k < doc.locationsIndex → q (t k) := by
  have hget : ∀ k, k < (TokTree.preorderAll doc.before).length →
      doc.tokens[k + 1]? = (TokTree.preorderAll doc.before)[k]? := by
    intro k hk
    rw [doc.tokens_eq, List.getElem?_cons_succ, List.getElem?_append_left hk]
  constructor
  · intro hall k hk hlt
    simp only [Document.locationsIndex] at hlt
    have hk' : k - 1 < (TokTree.preorderAll doc.before).length := by omega
    have htok := hget (k - 1) hk'
    rw [Nat.sub_add_cancel hk, List.getElem?_eq_getElem hk'] at htok
    rw [hat _ _ htok]
    exact hall _ (List.getElem_mem _)
  · intro hall tok htok
    obtain ⟨k, hk⟩ := List.mem_iff_getElem?.mp htok
    have hlt := (List.getElem?_eq_some_iff.mp hk).1
    have h := hall (k + 1) (by omega) (by simp only [Document.locationsIndex]; omega)
    rwa [hat _ _ ((hget k hlt).trans hk)] at h

theorem matches_at_iff (hwf : doc.WellFormed content) (stale name : Bytes) (t : ℕ → Tok) {i : ℕ}
    (hi : i < doc.tokens.length) :
    Matches (content ++ stale) name (writeTokens t 0 doc.tokens i) ↔
      Names content name (writeTokens t 0 doc.tokens i) := by
  refine matches_iff ?_
  rw [doc.at_writeTokens t i _ (List.getElem?_eq_getElem hi)]
  exact (hwf.inside _ (List.getElem_mem hi)).2

/-- The search finds the three fields and goes on with the locations, or it fails and some
field has no token. -/
theorem searchMap_configMap (compile : Option Bytes → Option Code) (hwf : doc.WellFormed content)
    (stale : Bytes) (t : ℕ → Tok) (config : Config Code) :
    (∃ config' : Config Code, config'.routes = config.routes ∧
      searchMap compile (content ++ stale) (writeTokens t 0 doc.tokens) doc.tokens.length configMap
          config =
        searchMap compile (content ++ stale) (writeTokens t 0 doc.tokens) doc.tokens.length
          [locationsEntry] config' ∧
      ∀ name ∈ fieldNames, ∃ tok ∈ doc.tokens.tail, Names content name tok) ∨
    (∃ config' : Config Code,
      searchMap compile (content ++ stale) (writeTokens t 0 doc.tokens) doc.tokens.length configMap
          config = (some (-1), config') ∧
      ∃ name ∈ fieldNames, ¬ ∃ tok ∈ doc.tokens.tail, Names content name tok) := by
  have hmap : configMap = configMap.take 3 ++ [locationsEntry] := rfl
  have hnames : ∀ name, name ∈ fieldNames ↔ ∃ e ∈ configMap.take 3, e.tokenName = name := by
    simp [fieldNames, configMap, eq_comm]
  have hdests : ∀ e ∈ configMap.take 3, e.required = true ∧ ∃ dest, e.dest = some dest := by
    simp [configMap]
  have hexists := fun name => exists_matches_iff hwf stale name t
  rw [hmap]
  rcases searchMap_dests compile (content ++ stale) (writeTokens t 0 doc.tokens)
      (doc.tokens.length : ℤ) (configMap.take 3) [locationsEntry] hdests config with
    ⟨config', hroutes, heq, hfound⟩ | ⟨config', heq, e, he, hmissing⟩
  · refine Or.inl ⟨config', hroutes, heq, fun name hname => ?_⟩
    obtain ⟨e, he, rfl⟩ := (hnames name).mp hname
    exact (hexists _).mp (hfound e he)
  · refine Or.inr ⟨config', heq, e.tokenName, (hnames _).mpr ⟨e, he, rfl⟩, ?_⟩
    rw [← hexists]
    rintro ⟨i, hi, hm⟩
    exact hmissing i hi hm

/-- The routes when the root key `locations` is the first match and has at most one location. -/
theorem confLoad_found (hwf : doc.WellFormed content)
    (hparse : parse init content MAX_TOKENS = (p', (doc.tokens.length : ℤ), doc.tokens))
    (config : Config Code)
    (hfields : ∀ name ∈ fieldNames, ∃ tok ∈ doc.tokens.tail, Names content name tok)
    (hquoted : doc.locationsKey.quoted = false)
    (hbefore : ∀ tok ∈ TokTree.preorderAll doc.before, ¬ Names content (ascii "locations") tok)
    (hfew : doc.locations.length ≤ 1) {res : ℤ × Config Code}
    (hres : res = confLoad parse init compile stale t (some content) { config with routes := [] }) :
    res.1 = 0 ∧ res.2.routes = doc.locations.map
      (LocationObject.route compile (content ++ stale.drop content.length) content) := by
  subst hres
  have hat := doc.at_writeTokens t
  obtain ⟨hpos, hlt⟩ := doc.locationsIndex_lt
  rw [confLoad_eq hwf hparse]
  rcases searchMap_configMap compile hwf (stale.drop content.length) t
      { config with routes := [] } with ⟨config', hroutes, heq, -⟩ | ⟨-, -, name, hname, hmissing⟩
  · have hfirst := (Document.mem_before_iff hat).mp hbefore
    have hkey : Names content (ascii "locations") (writeTokens t 0 doc.tokens doc.locationsIndex) := by
      rw [hat.key]
      refine ⟨by simp [Key.type, hquoted], ?_⟩
      simpa [Tok.text, Span.text] using hwf.locationsKey
    rw [heq, searchMap_locations config' hpos hlt ((matches_at_iff hwf _ _ t hlt).mpr hkey)
      fun k hk hk' hm => hfirst k hk hk' ((matches_at_iff hwf _ _ t (by omega)).mp hm)]
    have hloop := locationsLoop_few compile (stale.drop content.length) hat hwf hfew config'
    have hsize : (writeTokens t 0 doc.tokens (doc.locationsIndex + 1)).size =
        doc.locations.length := by rw [hat.array]
    have harray : (writeTokens t 0 doc.tokens (doc.locationsIndex + 1)).type = .array := by
      rw [hat.array]
    have hgt : (0 : ℤ) < doc.locationsIndex + (doc.locations.length : ℤ) + 1 := by omega
    simp only [locationsParser, harray, hsize, hloop, ne_eq, not_true_eq_false, if_false, if_pos hgt]
    exact ⟨trivial, by simp only [hroutes, List.nil_append]⟩
  · exact absurd (hfields name hname) hmissing

theorem loaded_of_findsLocations (hwf : doc.WellFormed content)
    (hparse : parse init content MAX_TOKENS = (p', (doc.tokens.length : ℤ), doc.tokens))
    (config : Config Code) (hfinds : FindsLocations content doc) :
    Loaded content doc
      (confLoad parse init compile stale t (some content) { config with routes := [] }) := by
  obtain ⟨hzero, hroutes⟩ := confLoad_found hwf hparse config hfinds.fields hfinds.unquoted
    hfinds.first hfinds.few rfl
  refine ⟨hzero, ?_⟩
  rw [hroutes, List.map_map]
  apply List.map_congr_left
  intro o ho
  have hnames := (o.chain_eq_names_iff content).mpr (hfinds.names o ho)
  show (o.location.text content, o.location.stop - o.location.start, o.chain content) = _
  rw [hnames]

theorem findsLocations_of_loaded (hwf : doc.WellFormed content)
    (hparse : parse init content MAX_TOKENS = (p', (doc.tokens.length : ℤ), doc.tokens))
    (config : Config Code) (hstray : ¬ StrayArray content (writeTokens t 0 doc.tokens) doc)
    (hloaded : Loaded content doc
      (confLoad parse init compile stale t (some content) { config with routes := [] })) :
    FindsLocations content doc := by
  have hat := doc.at_writeTokens t
  have hzero := hloaded.1
  rw [confLoad_eq hwf hparse] at hzero
  rcases searchMap_configMap compile hwf (stale.drop content.length) t
      { config with routes := [] } with ⟨config', -, heq, hfields⟩ | ⟨config', heq, -⟩
  · rw [heq] at hzero
    by_cases hsome : ∃ i, 1 ≤ i ∧ i < doc.tokens.length ∧
        Names content (ascii "locations") (writeTokens t 0 doc.tokens i)
    · -- `locations_parser` runs on the first match and does not fail
      classical
      obtain ⟨hi, hin, hkey⟩ := Nat.find_spec hsome
      have hfirst : ∀ k, 1 ≤ k → k < Nat.find hsome →
          ¬ Names content (ascii "locations") (writeTokens t 0 doc.tokens k) :=
        fun k hk hk' hm => Nat.find_min hsome hk' ⟨hk, by omega, hm⟩
      rw [searchMap_locations config' hi hin ((matches_at_iff hwf _ _ t hin).mpr hkey)
        fun k hk hk' hm => hfirst k hk hk' ((matches_at_iff hwf _ _ t (by omega)).mp hm)] at hzero
      rcases locationsParser_fst compile (writeTokens t 0 doc.tokens)
          (content ++ stale.drop content.length) (Nat.find hsome) config' with
        hfail | ⟨-, harray, hloop⟩
      · simp [hfail] at hzero
      · have hindex : Nat.find hsome = doc.locationsIndex := by
          by_contra hne
          exact hstray ⟨_, hi, hin, hkey, hfirst, hne, harray⟩
        rw [hindex] at hkey hfirst hloop
        have hsize : (writeTokens t 0 doc.tokens (doc.locationsIndex + 1)).size =
            doc.locations.length := by rw [hat.array]
        have hfew : doc.locations.length ≤ 1 := by
          by_contra hmany
          rw [hsize, locationsLoop_many hat (by omega)] at hloop
          cases hloop
        have hquoted : doc.locationsKey.quoted = false := by
          have htype := hkey.1
          rw [hat.key] at htype
          cases hq : doc.locationsKey.quoted with
          | false => rfl
          | true => simp [Key.type, hq] at htype
        have hbefore : ∀ tok ∈ TokTree.preorderAll doc.before,
            ¬ Names content (ascii "locations") tok :=
          (Document.mem_before_iff hat).mpr hfirst
        -- the routes hold the chains that were read
        obtain ⟨-, hroutes⟩ := confLoad_found hwf hparse config hfields hquoted hbefore hfew rfl
        refine ⟨hfields, hquoted, hbefore, hfew, fun o ho => ?_⟩
        have hsame := hloaded.2
        rw [hroutes, List.map_map, List.map_inj_left] at hsame
        have hchain := hsame o ho
        apply (o.chain_eq_names_iff content).mp
        exact (Prod.mk.inj (Prod.mk.inj hchain).2).2
    · -- no token reads `locations`
      have hall : ∀ i ∈ List.range' 1 ((doc.tokens.length : ℤ).toNat - 1),
          ¬ Matches (content ++ stale.drop content.length) locationsEntry.tokenName
            (writeTokens t 0 doc.tokens i) := by
        intro i hi hm
        simp only [List.mem_range'_1, Int.toNat_natCast] at hi
        exact hsome ⟨i, hi.1, by omega, (matches_at_iff hwf _ _ t (by omega)).mp hm⟩
      have hnot := searchTokens_notFound compile config' hall
      rw [searchMap, hnot] at hzero
      simp [locationsEntry] at hzero
  · rw [heq] at hzero
    simp at hzero

/-- `conf_load` loads a document in which it finds the locations, and, unless it runs into
another array first, only such a document. -/
theorem confLoad_loads_iff (hwf : doc.WellFormed content)
    (hparse : parse init content MAX_TOKENS = (p', (doc.tokens.length : ℤ), doc.tokens))
    (config : Config Code) :
    (FindsLocations content doc → Loaded content doc
      (confLoad parse init compile stale t (some content) { config with routes := [] })) ∧
    (¬ StrayArray content (writeTokens t 0 doc.tokens) doc → Loaded content doc
      (confLoad parse init compile stale t (some content) { config with routes := [] }) →
      FindsLocations content doc) :=
  ⟨loaded_of_findsLocations hwf hparse config, findsLocations_of_loaded hwf hparse config⟩

end Load

/-! ## Two documents -/

/-- `{location:"/.",modules:["."]}` from the given offset on. -/
def sampleLocation (start : ℕ) : LocationObject where
  span := ⟨start, start + 29⟩
  locationKey := ⟨false, start + 1, start + 9⟩
  location := ⟨start + 11, start + 13⟩
  modulesKey := ⟨false, start + 15, start + 22⟩
  modulesSpan := ⟨start + 23, start + 28⟩
  modules := [⟨start + 25, start + 26⟩]

/-- `{listen_port:"1",cert_file:"c",key_file:"k",locations:[..]}`. -/
def sampleDocument (stop : ℕ) (locations : List LocationObject) : Document where
  span := ⟨0, stop⟩
  before :=
    [Key.member ⟨false, 1, 12⟩ (Span.str ⟨14, 15⟩), Key.member ⟨false, 17, 26⟩ (Span.str ⟨28, 29⟩),
      Key.member ⟨false, 31, 39⟩ (Span.str ⟨41, 42⟩)]
  locationsKey := ⟨false, 44, 53⟩
  locationsSpan := ⟨54, stop - 1⟩
  locations := locations
  after := []

/-- `jsmn` on a document with the given tokens. -/
def sampleParse (toks : List Tok) : JsmnParse Unit :=
  fun p _ _ => (p, toks.length, toks)

/-- The text of `sampleDocument` up to its locations. -/
def sampleHead : Bytes :=
  ascii "\x7blisten_port:\"1\",cert_file:\"c\",key_file:\"k\",locations:["

def oneContent : Bytes :=
  sampleHead ++ ascii "\x7blocation:\"/a\",modules:[\"m\"]\x7d]\x7d"

def twoContent : Bytes :=
  sampleHead ++ ascii "\x7blocation:\"/a\",modules:[\"m\"]\x7d," ++
    ascii "\x7blocation:\"/b\",modules:[\"n\"]\x7d]\x7d"

def oneDocument : Document := sampleDocument 86 [sampleLocation 55]

def twoDocument : Document := sampleDocument 116 [sampleLocation 55, sampleLocation 85]

theorem sampleDocument_wellFormed {content : Bytes} {stop : ℕ} {locations : List LocationObject}
    (hfits : content.length ≤ BUFSIZ ∧ (sampleDocument stop locations).tokens.length ≤ 256 ∧
      ∀ tok ∈ (sampleDocument stop locations).tokens,
        tok.start ≤ tok.stop ∧ tok.stop ≤ content.length)
    (hkeys : Span.text content ⟨1, 12⟩ = ascii "listen_port" ∧
      Span.text content ⟨17, 26⟩ = ascii "cert_file" ∧
      Span.text content ⟨31, 39⟩ = ascii "key_file" ∧
      Span.text content ⟨44, 53⟩ = ascii "locations")
    (hwf : ∀ o ∈ locations, o.WellFormed content) :
    (sampleDocument stop locations).WellFormed content := by
  obtain ⟨hlength, hfew, hinside⟩ := hfits
  obtain ⟨hport, hcert, hkey, hlocs⟩ := hkeys
  refine ⟨hlength, hfew, hinside, ?_, hlocs, hwf⟩
  intro name hname
  simp only [List.mem_cons, List.not_mem_nil, or_false] at hname
  rcases hname with rfl | rfl | rfl
  · exact ⟨_, _, List.mem_cons_self .., hport⟩
  · exact ⟨_, _, List.mem_cons_of_mem _ (List.mem_cons_self ..), hcert⟩
  · exact ⟨_, _, List.mem_cons_of_mem _ (List.mem_cons_of_mem _ (List.mem_cons_self ..)), hkey⟩

theorem oneDocument_wellFormed : oneDocument.WellFormed oneContent := by
  apply sampleDocument_wellFormed
  · decide +kernel
  · decide +kernel
  · decide +kernel

theorem twoDocument_wellFormed : twoDocument.WellFormed twoContent := by
  apply sampleDocument_wellFormed
  · decide +kernel
  · decide +kernel
  · decide +kernel

/-- One location is loaded. -/
theorem confLoad_loads_one : Loaded oneContent oneDocument
    (confLoad (sampleParse oneDocument.tokens) () (fun _ => (none : Option Unit)) [] (fun _ => Tok.zero)
      (some oneContent) ⟨[], [], [], []⟩) := by
  refine (confLoad_loads_iff oneDocument_wellFormed rfl ⟨[], [], [], []⟩).1
    ⟨?_, rfl, ?_, by decide, by decide +kernel⟩
  · simp only [fieldNames, Names, List.mem_cons, List.not_mem_nil, or_false, forall_eq_or_imp,
      forall_eq]
    decide +kernel
  · simp only [Names]
    decide +kernel

/-- Two locations are refused. -/
theorem confLoad_refuses_two : twoDocument.WellFormed twoContent ∧
    (confLoad (sampleParse twoDocument.tokens) () (fun _ => (none : Option Unit)) []
      (fun _ => Tok.zero) (some twoContent) ⟨[], [], [], []⟩).1 = -1 := by
  refine ⟨twoDocument_wellFormed, ?_⟩
  decide +kernel

/-! ## The pattern of a location -/

/-- `insert_route(.., path, n_path, m, true)` stores `path[0..n_path)` and hands the same bytes to
`pcre2_compile`, whatever that does with them. -/
def CompilesPath (path : Bytes) (nPath : ℕ) : Prop :=
  ∀ (Code : Type) (compile : Option Bytes → Option Code) (routes : List (Route Code))
    (m : List Module), ∃ r, insertRoute compile routes path nPath m true = routes ++ [r] ∧
      r.path = path.take nPath ∧ r.re = compile (some r.path)

theorem compilesPath_iff_zeroTerminated (path : Bytes) (nPath : ℕ) :
    CompilesPath path nPath ↔ zeroTerminated path = some (path.take nPath) := by
  constructor
  · intro h
    obtain ⟨r, heq, hpath, hre⟩ := h (Option Bytes) some [] []
    simp only [insertRoute, List.nil_append, List.cons.injEq, and_true] at heq
    subst heq
    simpa [parseRegex] using hre
  · intro h Code compile routes m
    exact ⟨_, rfl, rfl, by simp [parseRegex, h]⟩

/-- The pattern is the text of the route exactly if the text is followed by a NUL and has none
inside.  A location of a configuration is followed by the quote that closes it. -/
theorem compilesPath_iff {path : Bytes} {nPath : ℕ} (hn : nPath ≤ path.length) :
    (CompilesPath path nPath ↔ path[nPath]? = some 0 ∧ (0 : UInt8) ∉ path.take nPath) ∧
      (path[nPath]? = some 34 → ¬ CompilesPath path nPath) := by
  have hiff : CompilesPath path nPath ↔ path[nPath]? = some 0 ∧ (0 : UInt8) ∉ path.take nPath :=
    (compilesPath_iff_zeroTerminated path nPath).trans (zeroTerminated_eq_take_iff hn)
  refine ⟨hiff, fun hquote hcompiles => ?_⟩
  have hzero := (hiff.mp hcompiles).1
  rw [hquote] at hzero
  exact absurd hzero (by decide)

/-- A string literal is compiled as it is stored. -/
theorem compilesPath_literal : CompilesPath (ascii "/golang" ++ [0]) 7 :=
  (compilesPath_iff (by decide)).1.mpr (by decide)

/-- The location of `oneContent`, read into a buffer that is zero behind the file: the pattern is
`/a",modules:["m"]}]}`. -/
theorem compilesPath_config :
    (oneContent ++ [0]).drop 66 = ascii "/a\",modules:[\"m\"]\x7d]\x7d" ++ [0] ∧
    ¬ CompilesPath ((oneContent ++ [0]).drop 66) 2 := by
  refine ⟨by decide +kernel, ?_⟩
  rw [compilesPath_iff_zeroTerminated]
  decide +kernel

end Gfhttpd.Conf
