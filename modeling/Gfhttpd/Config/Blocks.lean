import Gfhttpd.Config.Relocation
import Gfhttpd.Config.Search

/-!
# Files of more than one block (`main/config/config.c`)

`conf_load` looks for all four names in every block by itself, and reads a block over the one before.
So a document that goes on behind the first block is refused, and one that ends in it is looked at
again, with other bytes in the buffer.

- `confLoadWhole`: the same loop, with the whole contents in one buffer
- `View`, `searched`: what each search sees, and the blocks that are searched
- `searchViews_eq_iff`: two ways to read a file that leave the same
- `cutIndependent_iff`: the files that are loaded as from one buffer
-/

namespace Gfhttpd.Conf

open Http

variable {Code P : Type}

/-! ## One buffer for the whole file -/

/-- The reads of a file into a buffer that has room for it. -/
def wholeReads (content : Bytes) : List Bytes :=
  if content = [] then [] else [content]

/-- `conf_load` with the whole contents in one buffer. -/
def confLoadWhole (parse : JsmnParse P) (init : P) (compile : Option Bytes → Option Code)
    (buf : Bytes) (t : ℕ → Tok) (content : Bytes) (config : Config Code) : ℤ × Config Code :=
  readLoop parse compile (wholeReads content) buf init t 0 0 config

/-- The slots that `jsmn` stores tokens in, in the loop of `conf_load`. -/
def storedSlots (parse : JsmnParse P) (compile : Option Bytes → Option Code) :
    List Bytes → Bytes → P → (ℕ → Tok) → ℤ → ℕ → Config Code → List ℕ
  | [], _, _, _, _, _, _ => []
  | block :: blocks, buf, p, t, tokcount, toknext, config =>
      let buf := block ++ buf.drop block.length
      match parse p block (MAX_TOKENS - tokcount) with
      | (p, r, toks) =>
          let t := writeTokens t (nextSlot tokcount toknext) toks
          (List.range toks.length).map (nextSlot tokcount toknext + ·) ++
            if r = JSMN_ERROR_NOMEM then []
            else
              match searchMap compile buf t r configMap config with
              | (some _, _) => []
              | (none, config) =>
                  storedSlots parse compile blocks buf p t (tokcount + r) (toknext + toks.length) config

/-- The file is loaded as from one buffer, and its tokens are stored in `t`. -/
structure CutIndependent (parse : JsmnParse P) (init : P) (compile : Option Bytes → Option Code)
    (buf : Bytes) (t : ℕ → Tok) (content : Bytes) : Prop where
  load : ∀ config, confLoad parse init compile buf t (some content) config =
    confLoadWhole parse init compile buf t content config
  stored : ∀ config : Config Code,
    ∀ k ∈ storedSlots parse compile (fileReads content.length content) buf init t 0 0 config,
      (k : ℤ) < MAX_TOKENS

/-! ## What is searched -/

/-- What is in the buffer after a block is read. -/
def writeBlock (buf block : Bytes) : Bytes :=
  block ++ buf.drop block.length

/-- What `conf_load` has when it searches a block: the buffer, the tokens, their number as `jsmn` returns
it, and the slots of the new ones. -/
structure View where
  buf : Bytes
  t : ℕ → Tok
  r : ℤ
  slots : List ℕ

/-- What is searched when a block is read into `buf`, and new tokens are stored from slot `first` on. -/
def View.next (buf block : Bytes) (t : ℕ → Tok) (first : ℕ) (r : ℤ) (toks : List Tok) : View where
  buf := writeBlock buf block
  t := writeTokens t first toks
  r := r
  slots := (List.range toks.length).map (first + ·)

/-- The views of blocks that are read one after the other. -/
def views (parse : JsmnParse P) : List Bytes → Bytes → P → (ℕ → Tok) → ℤ → ℕ → List View
  | [], _, _, _, _, _ => []
  | block :: blocks, buf, p, t, tokcount, toknext =>
      match parse p block (MAX_TOKENS - tokcount) with
      | (p, r, toks) =>
          View.next buf block t (nextSlot tokcount toknext) r toks ::
            views parse blocks (writeBlock buf block) p
              (writeTokens t (nextSlot tokcount toknext) toks) (tokcount + r) (toknext + toks.length)

namespace View

/-- The search ends without an error. -/
def Loads (v : View) : Prop :=
  Conf.Loads v.buf v.t v.r.toNat

instance (v : View) : Decidable v.Loads :=
  inferInstanceAs (Decidable (Conf.Loads ..))

/-- The text that the search gives a field. -/
def setText (v : View) (dest : Dest) : Option Bytes :=
  Conf.setText v.buf v.t v.r.toNat dest configMap

/-- The routes that the search adds. -/
def addedRoutes (compile : Option Bytes → Option Code) (v : View) : List (Route Code) :=
  Conf.addedRoutes compile v.buf v.t v.r.toNat configMap

/-- The configuration after the search. -/
def search (v : View) (compile : Option Bytes → Option Code) (config : Config Code) : Config Code :=
  config.searched v.setText (v.addedRoutes compile)

end View

/-- The blocks up to the first one that is refused. -/
def searched : List View → List View
  | [] => []
  | v :: vs => if v.Loads then v :: searched vs else [v]

/-- The result of the searches, and the configuration after them. -/
def searchViews (compile : Option Bytes → Option Code) : List View → Config Code → ℤ × Config Code
  | [], config => (0, config)
  | v :: vs, config =>
      if v.Loads then searchViews compile vs (v.search compile config) else (-1, v.search compile config)

section Views

variable {parse : JsmnParse P} {compile : Option Bytes → Option Code}

/-- An error of `jsmn` is a search that finds nothing. -/
theorem searchMap_nomem (json : Bytes) (t : ℕ → Tok) (config : Config Code) :
    searchMap compile json t JSMN_ERROR_NOMEM configMap config = (some JSMN_ERROR_NOMEM, config) := by
  rw [configMap, searchMap]
  rfl

theorem View.searchMap_eq (v : View) (compile : Option Bytes → Option Code) (config : Config Code) :
    searchMap compile v.buf v.t v.r configMap config =
      (if v.Loads then none else some (-1), v.search compile config) :=
  Conf.searchMap_eq v.r config

/-- The search of the next block. -/
theorem View.searchMap_next (buf block : Bytes) (t : ℕ → Tok) (first : ℕ) (r : ℤ) (toks : List Tok)
    (config : Config Code) :
    searchMap compile (block ++ buf.drop block.length) (writeTokens t first toks) r configMap config =
      (if (View.next buf block t first r toks).Loads then none else some (-1),
        (View.next buf block t first r toks).search compile config) :=
  (View.next buf block t first r toks).searchMap_eq compile config

/-- Without room for the tokens nothing is found. -/
theorem View.of_nomem {v : View} (hr : v.r = JSMN_ERROR_NOMEM) (compile : Option Bytes → Option Code)
    (config : Config Code) : ¬ v.Loads ∧ v.search compile config = config := by
  have hsearch := v.searchMap_eq compile config
  rw [hr, searchMap_nomem] at hsearch
  obtain ⟨hrefused, hsame⟩ := Prod.mk.inj hsearch
  refine ⟨fun hloads => ?_, hsame.symm⟩
  rw [if_pos hloads] at hrefused
  cases hrefused

/-- The loop runs the searches. -/
theorem readLoop_views (blocks : List Bytes) (buf : Bytes) (p : P) (t : ℕ → Tok) (tokcount : ℤ)
    (toknext : ℕ) (config : Config Code) :
    readLoop parse compile blocks buf p t tokcount toknext config =
      searchViews compile (views parse blocks buf p t tokcount toknext) config := by
  induction blocks generalizing buf p t tokcount toknext config with
  | nil => rfl
  | cons block blocks ih =>
      rcases hparse : parse p block (MAX_TOKENS - tokcount) with ⟨p', r, toks⟩
      rw [readLoop, views]
      simp only [hparse, searchViews, View.searchMap_next]
      obtain ⟨v, hv⟩ : ∃ v, v = View.next buf block t (nextSlot tokcount toknext) r toks := ⟨_, rfl⟩
      rw [← hv]
      -- `JSMN_ERROR_NOMEM` ends the loop with -1, as a block that is refused does
      by_cases hr : r = JSMN_ERROR_NOMEM
      · have hvr : v.r = JSMN_ERROR_NOMEM := by rw [hv]; exact hr
        obtain ⟨hrefused, hsame⟩ := View.of_nomem hvr compile config
        rw [if_pos hr, if_neg hrefused, hsame, hr]
        rfl
      · rw [if_neg hr]
        by_cases hloads : v.Loads
        · rw [if_pos hloads, if_pos hloads]
          exact ih ..
        · rw [if_neg hloads, if_neg hloads]

/-- The tokens that are stored are those of the blocks that are searched. -/
theorem storedSlots_views (blocks : List Bytes) (buf : Bytes) (p : P) (t : ℕ → Tok) (tokcount : ℤ)
    (toknext : ℕ) (config : Config Code) :
    storedSlots parse compile blocks buf p t tokcount toknext config =
      (searched (views parse blocks buf p t tokcount toknext)).flatMap View.slots := by
  induction blocks generalizing buf p t tokcount toknext config with
  | nil => rfl
  | cons block blocks ih =>
      rcases hparse : parse p block (MAX_TOKENS - tokcount) with ⟨p', r, toks⟩
      rw [storedSlots, views]
      simp only [hparse, searched, View.searchMap_next]
      obtain ⟨v, hv⟩ : ∃ v, v = View.next buf block t (nextSlot tokcount toknext) r toks := ⟨_, rfl⟩
      have hslots : (List.range toks.length).map (nextSlot tokcount toknext + ·) = v.slots := by
        rw [hv]
        rfl
      rw [← hv, hslots]
      by_cases hr : r = JSMN_ERROR_NOMEM
      · have hvr : v.r = JSMN_ERROR_NOMEM := by rw [hv]; exact hr
        obtain ⟨hrefused, -⟩ := View.of_nomem hvr compile config
        rw [if_pos hr, if_neg hrefused, List.flatMap_singleton, List.append_nil]
      · rw [if_neg hr]
        by_cases hloads : v.Loads
        · rw [if_pos hloads, if_pos hloads]
          exact congrArg _ (ih ..)
        · rw [if_neg hloads, if_neg hloads, List.flatMap_singleton]
          exact List.append_nil _

end Views

/-! ## Two ways to read a file -/

/-- The text that the last of the searches that sets a field sets it to. -/
def lastText (dest : Dest) : List View → Option Bytes
  | [] => none
  | v :: vs => (lastText dest vs).or (v.setText dest)

/-- Both are refused, or neither is, and the same fields and routes are read from both. -/
structure ViewsAlike (compile : Option Bytes → Option Code) (vs ws : List View) : Prop where
  loads : (∀ v ∈ vs, v.Loads) ↔ ∀ w ∈ ws, w.Loads
  fields : ∀ dest, lastText dest (searched vs) = lastText dest (searched ws)
  routes : (searched vs).flatMap (View.addedRoutes compile) =
    (searched ws).flatMap (View.addedRoutes compile)

theorem searchViews_fst (compile : Option Bytes → Option Code) (vs : List View) (config : Config Code) :
    (searchViews compile vs config).1 = if ∀ v ∈ vs, v.Loads then 0 else -1 := by
  induction vs generalizing config with
  | nil => rfl
  | cons v vs ih =>
      rw [searchViews]
      by_cases hloads : v.Loads
      · simp only [hloads, if_true, ih, List.forall_mem_cons, true_and]
      · rw [if_neg hloads, if_neg fun h => hloads (h v (List.mem_cons_self ..))]

theorem searchViews_snd (compile : Option Bytes → Option Code) (vs : List View) (config : Config Code) :
    (∀ dest, (searchViews compile vs config).2.get dest =
        (lastText dest (searched vs)).getD (config.get dest)) ∧
      (searchViews compile vs config).2.routes =
        config.routes ++ (searched vs).flatMap (View.addedRoutes compile) := by
  induction vs generalizing config with
  | nil => exact ⟨fun _ => rfl, (List.append_nil _).symm⟩
  | cons v vs ih =>
      obtain ⟨hget, hroutes⟩ := ih (v.search compile config)
      rw [searchViews, searched]
      by_cases hloads : v.Loads
      · rw [if_pos hloads, if_pos hloads, List.flatMap_cons]
        constructor
        · intro dest
          -- a later block sets the field, or this one, or none
          rw [hget, View.search, Config.get_searched, lastText]
          cases lastText dest (searched vs) with
          | none => rfl
          | some text => rfl
        · rw [hroutes, View.search, Config.routes_searched, List.append_assoc]
      · rw [if_neg hloads, if_neg hloads]
        constructor
        · intro dest
          rw [View.search, Config.get_searched]
          rfl
        · rw [View.search, Config.routes_searched, List.flatMap_singleton]

@[simp] theorem searched_singleton (v : View) : searched [v] = [v] := by
  rw [searched, searched, ite_self]

@[simp] theorem lastText_singleton (dest : Dest) (v : View) : lastText dest [v] = v.setText dest := by
  rw [lastText, lastText, Option.none_or]

/-- A text that replaces whatever was there is known from what is there. -/
theorem getD_eq_iff {o o' : Option Bytes} : (∀ x, o.getD x = o'.getD x) ↔ o = o' := by
  constructor
  · intro h
    cases o with
    | none =>
        cases o' with
        | none => rfl
        | some b => exact absurd (h (0 :: b)) (List.cons_ne_self _ _)
    | some a =>
        cases o' with
        | none => exact absurd (h (0 :: a)).symm (List.cons_ne_self _ _)
        | some b => exact congrArg some (h [])
  · rintro rfl x
    rfl

/-- The searches leave the same, whatever the configuration was, exactly on such views. -/
theorem searchViews_eq_iff (compile : Option Bytes → Option Code) (vs ws : List View) :
    (∀ config : Config Code, searchViews compile vs config = searchViews compile ws config) ↔
      ViewsAlike compile vs ws := by
  constructor
  · intro h
    refine ⟨?_, fun dest => getD_eq_iff.mp fun x => ?_, ?_⟩
    · -- one result is 0 exactly if the other is
      have hresult := congrArg Prod.fst (h ⟨[], [], [], []⟩)
      rw [searchViews_fst, searchViews_fst] at hresult
      split at hresult
      · rename_i hvs
        split at hresult
        · rename_i hws
          exact iff_of_true hvs hws
        · cases hresult
      · rename_i hvs
        split at hresult
        · cases hresult
        · rename_i hws
          exact iff_of_false hvs hws
    -- a field is told from a configuration with each text in it
    · have hget := congrArg (fun res : ℤ × Config Code => res.2.get dest) (h ⟨x, x, x, []⟩)
      rw [(searchViews_snd compile vs _).1, (searchViews_snd compile ws _).1] at hget
      cases dest <;> exact hget
    · have hroutes := congrArg (fun res : ℤ × Config Code => res.2.routes) (h ⟨[], [], [], []⟩)
      rwa [(searchViews_snd compile vs _).2, (searchViews_snd compile ws _).2, List.nil_append,
        List.nil_append] at hroutes
  · rintro ⟨hloads, hfields, hroutes⟩ config
    refine Prod.ext ?_ (Config.ext_get (fun dest => ?_) ?_)
    · rw [searchViews_fst, searchViews_fst]
      exact if_congr hloads rfl rfl
    · rw [(searchViews_snd compile vs _).1, (searchViews_snd compile ws _).1, hfields]
    · rw [(searchViews_snd compile vs _).2, (searchViews_snd compile ws _).2, hroutes]

theorem searched_of_loads {vs : List View} (h : ∀ v ∈ vs, v.Loads) : searched vs = vs := by
  induction vs with
  | nil => rfl
  | cons v vs ih =>
      rw [List.forall_mem_cons] at h
      rw [searched, if_pos h.1, ih h.2]

/-- One search. -/
theorem searchViews_singleton (compile : Option Bytes → Option Code) (v : View) (config : Config Code) :
    searchViews compile [v] config =
      match searchMap compile v.buf v.t v.r configMap config with
      | (some r, config) => (r, config)
      | (none, config) => (0, config) := by
  rw [v.searchMap_eq, searchViews, searchViews]
  by_cases hloads : v.Loads
  · rw [if_pos hloads, if_pos hloads]
  · rw [if_neg hloads, if_neg hloads]

theorem mem_of_mem_searched {vs : List View} {v : View} (h : v ∈ searched vs) : v ∈ vs := by
  induction vs with
  | nil => cases h
  | cons w vs ih =>
      rw [searched] at h
      split at h
      · rcases List.mem_cons.mp h with rfl | h
        · exact List.mem_cons_self ..
        · exact List.mem_cons_of_mem _ (ih h)
      · rw [List.mem_singleton.mp h]
        exact List.mem_cons_self ..

/-! ## The views of a file -/

/-- The blocks behind the first one. -/
def laterBlocks (content : Bytes) : List Bytes :=
  fileReads (content.length - 1) (content.drop BUFSIZ)

/-- The views of a file that is read in blocks. -/
def blockViews (parse : JsmnParse P) (init : P) (buf : Bytes) (t : ℕ → Tok) (content : Bytes) :
    List View :=
  views parse (fileReads content.length content) buf init t 0 0

/-- The view of a file in one buffer. -/
def wholeViews (parse : JsmnParse P) (init : P) (buf : Bytes) (t : ℕ → Tok) (content : Bytes) :
    List View :=
  views parse (wholeReads content) buf init t 0 0

/-- The tokens of the blocks that are searched are stored in `t`. -/
def StoredInside (vs : List View) : Prop :=
  ∀ v ∈ searched vs, ∀ k ∈ v.slots, (k : ℤ) < MAX_TOKENS

section File

variable {parse : JsmnParse P} {init p pw : P} {content buf : Bytes} {t : ℕ → Tok} {r rw : ℤ}
  {toks toksw : List Tok}

theorem length_fileReads_le {fuel : ℕ} {content block : Bytes} (h : block ∈ fileReads fuel content) :
    block.length ≤ BUFSIZ := by
  induction fuel generalizing content with
  | zero => cases h
  | succ fuel ih =>
      rw [fileReads] at h
      split at h
      · cases h
      · rcases List.mem_cons.mp h with rfl | h
        · exact List.length_take_le _ _
        · exact ih h

theorem wholeReads_long (hlong : BUFSIZ < content.length) : wholeReads content = [content] :=
  if_neg (List.ne_nil_of_length_pos (Nat.zero_lt_of_lt hlong))

theorem fileReads_long (hlong : BUFSIZ < content.length) :
    fileReads content.length content = content.take BUFSIZ :: laterBlocks content := by
  have hpos : 0 < content.length := Nat.zero_lt_of_lt hlong
  obtain ⟨k, hk⟩ := Nat.exists_eq_succ_of_ne_zero (Nat.ne_of_gt hpos)
  rw [laterBlocks, hk, fileReads, if_neg (List.ne_nil_of_length_pos hpos), Nat.succ_sub_one]

theorem fileReads_short (hshort : content.length ≤ BUFSIZ) :
    fileReads content.length content = wholeReads content := by
  by_cases hne : content = []
  · rw [hne]
    rfl
  · rw [fileReads_block hne hshort, wholeReads, if_neg hne]

/-- A block that fills the buffer leaves nothing of what was there. -/
theorem writeBlock_full {block : Bytes} (hfull : buf.length ≤ block.length) :
    writeBlock buf block = block := by
  rw [writeBlock, List.drop_eq_nil_of_le hfull, List.append_nil]

theorem length_take_long (hlong : BUFSIZ < content.length) :
    (content.take BUFSIZ).length = BUFSIZ := by
  rw [List.length_take]
  omega

theorem cutIndependent_iff_views (compile : Option Bytes → Option Code) :
    CutIndependent parse init compile buf t content ↔
      ViewsAlike compile (blockViews parse init buf t content) (wholeViews parse init buf t content) ∧
        StoredInside (blockViews parse init buf t content) := by
  have hload : ∀ config : Config Code, confLoad parse init compile buf t (some content) config =
      searchViews compile (blockViews parse init buf t content) config := fun config =>
    readLoop_views ..
  have hwhole : ∀ config : Config Code, confLoadWhole parse init compile buf t content config =
      searchViews compile (wholeViews parse init buf t content) config := fun config =>
    readLoop_views ..
  have hslots : ∀ config : Config Code,
      storedSlots parse compile (fileReads content.length content) buf init t 0 0 config =
        (searched (blockViews parse init buf t content)).flatMap View.slots := fun config =>
    storedSlots_views ..
  constructor
  · rintro ⟨hsame, hstored⟩
    constructor
    · rw [← searchViews_eq_iff]
      intro config
      rw [← hload, ← hwhole, hsame]
    · intro v hv k hk
      refine hstored ⟨[], [], [], []⟩ k ?_
      rw [hslots]
      exact List.mem_flatMap.mpr ⟨v, hv, hk⟩
  · rintro ⟨halike, hinside⟩
    constructor
    · intro config
      rw [hload, hwhole, (searchViews_eq_iff compile _ _).mpr halike]
    · intro config k hk
      rw [hslots] at hk
      obtain ⟨v, hv, hkv⟩ := List.mem_flatMap.mp hk
      exact hinside v hv k hkv

/-! ## Long files -/

/-- The view of a file in its first block. -/
def firstView (content : Bytes) (t : ℕ → Tok) (r : ℤ) (toks : List Tok) : View where
  buf := content
  t := writeTokens t 0 toks
  r := r
  slots := List.range toks.length

theorem next_full {block : Bytes} (hbuf : buf.length ≤ block.length) :
    View.next buf block t (nextSlot 0 0) r toks = firstView block t r toks := by
  have hslot : nextSlot 0 0 = 0 := rfl
  rw [View.next, writeBlock_full hbuf, hslot]
  simp [firstView]

theorem blockViews_long (hbuf : buf.length ≤ BUFSIZ) (hlong : BUFSIZ < content.length)
    (hfirst : parse init (content.take BUFSIZ) MAX_TOKENS = (p, r, toks)) :
    blockViews parse init buf t content =
      firstView (content.take BUFSIZ) t r toks ::
        views parse (laterBlocks content) (content.take BUFSIZ) p (writeTokens t 0 toks) r
          toks.length := by
  have hfull : buf.length ≤ (content.take BUFSIZ).length := by rwa [length_take_long hlong]
  have hroom : MAX_TOKENS - 0 = MAX_TOKENS := rfl
  have hslot : nextSlot 0 0 = 0 := rfl
  rw [blockViews, fileReads_long hlong, views, hroom, hfirst]
  dsimp only
  rw [next_full hfull, writeBlock_full hfull, hslot, Int.zero_add, Nat.zero_add]

theorem wholeViews_long (hbuf : buf.length ≤ BUFSIZ) (hlong : BUFSIZ < content.length)
    (hwhole : parse init content MAX_TOKENS = (pw, rw, toksw)) :
    wholeViews parse init buf t content = [firstView content t rw toksw] := by
  have hroom : MAX_TOKENS - 0 = MAX_TOKENS := rfl
  rw [wholeViews, wholeReads_long hlong, views, hroom, hwhole]
  dsimp only
  rw [next_full (by omega), views]

theorem ViewsAlike.refl (compile : Option Bytes → Option Code) (vs : List View) :
    ViewsAlike compile vs vs :=
  ⟨Iff.rfl, fun _ => rfl, rfl⟩

/-- One block is the whole file. -/
theorem cutIndependent_short (compile : Option Bytes → Option Code) (hshort : content.length ≤ BUFSIZ)
    (hfirst : parse init (content.take BUFSIZ) MAX_TOKENS = (p, r, toks))
    (hroom : (toks.length : ℤ) ≤ MAX_TOKENS) : CutIndependent parse init compile buf t content := by
  have hsame : blockViews parse init buf t content = wholeViews parse init buf t content := by
    rw [blockViews, fileReads_short hshort, wholeViews]
  refine (cutIndependent_iff_views compile).mpr ⟨hsame ▸ .refl compile _, fun v hv k hk => ?_⟩
  rw [hsame, wholeViews, wholeReads] at hv
  split at hv
  · cases hv
  · -- the tokens are stored from the start of `t` on
    have hzero : MAX_TOKENS - 0 = MAX_TOKENS := rfl
    have hslot : nextSlot 0 0 = 0 := rfl
    rw [List.take_of_length_le hshort] at hfirst
    rw [views, hzero, hfirst, searched] at hv
    have heq : v = View.next buf content t (nextSlot 0 0) r toks := by
      split at hv
      · exact List.mem_singleton.mp hv
      · exact List.mem_singleton.mp hv
    rw [heq, View.next, hslot] at hk
    simp only [Nat.zero_add, List.map_id', List.mem_range] at hk
    omega

/-- A long file whose first block is refused. -/
theorem cutIndependent_refused (compile : Option Bytes → Option Code) (hbuf : buf.length ≤ BUFSIZ)
    (hlong : BUFSIZ < content.length)
    (hfirst : parse init (content.take BUFSIZ) MAX_TOKENS = (p, r, toks))
    (hroom : (toks.length : ℤ) ≤ MAX_TOKENS)
    (hwhole : parse init content MAX_TOKENS = (pw, rw, toksw))
    (hrefused : ¬ (firstView (content.take BUFSIZ) t r toks).Loads) :
    CutIndependent parse init compile buf t content ↔
      ViewsAlike compile [firstView (content.take BUFSIZ) t r toks] [firstView content t rw toksw] := by
  rw [cutIndependent_iff_views, blockViews_long hbuf hlong hfirst, wholeViews_long hbuf hlong hwhole]
  have hstored : StoredInside (firstView (content.take BUFSIZ) t r toks ::
      views parse (laterBlocks content) (content.take BUFSIZ) p (writeTokens t 0 toks) r
        toks.length) := by
    intro v hv k hk
    rw [searched, if_neg hrefused, List.mem_singleton] at hv
    subst hv
    have hlt := List.mem_range.mp hk
    omega
  rw [and_iff_left hstored]
  -- the blocks behind it are not searched
  rw [← searchViews_eq_iff, ← searchViews_eq_iff]
  simp only [searchViews, if_neg hrefused]

/-- A long file whose first block has no token behind the root. -/
theorem cutIndependent_few (compile : Option Bytes → Option Code) (hbuf : buf.length ≤ BUFSIZ)
    (hlong : BUFSIZ < content.length)
    (hfirst : parse init (content.take BUFSIZ) MAX_TOKENS = (p, r, toks))
    (hroom : (toks.length : ℤ) ≤ MAX_TOKENS)
    (hwhole : parse init content MAX_TOKENS = (pw, rw, toksw)) (hfew : r ≤ 1) :
    CutIndependent parse init compile buf t content ↔
      firstMatch content (writeTokens t 0 toksw) rw.toNat (ascii "listen_port") = none := by
  have hcount : r.toNat ≤ 1 := by omega
  have hrefused : ¬ (firstView (content.take BUFSIZ) t r toks).Loads := not_loads_few hcount
  have hport : firstMatch (content.take BUFSIZ) (writeTokens t 0 toks) r.toNat (ascii "listen_port") =
      none := firstMatch_few hcount _
  have hnothing : ∀ dest, (firstView (content.take BUFSIZ) t r toks).setText dest = none :=
    setText_eq_none hport
  rw [cutIndependent_refused compile hbuf hlong hfirst hroom hwhole hrefused]
  constructor
  · rintro ⟨-, hfields, -⟩
    -- the field is not set from the whole file either
    have hunset := hfields .listenPort
    simp only [searched_singleton, lastText_singleton, hnothing] at hunset
    by_contra hfound
    exact setText_listenPort_ne_none hfound hunset.symm
  · intro hnone
    have hrefused' : ¬ (firstView content t rw toksw).Loads := fun hloads =>
      hloads.found _ (List.mem_cons_self ..) hnone
    have hnothing' : ∀ dest, (firstView content t rw toksw).setText dest = none := setText_eq_none hnone
    have hroutes : (firstView (content.take BUFSIZ) t r toks).addedRoutes compile = [] :=
      addedRoutes_eq_nil hport
    have hroutes' : (firstView content t rw toksw).addedRoutes compile = [] := addedRoutes_eq_nil hnone
    constructor
    · simp [hrefused, hrefused']
    · intro dest
      simp [hnothing, hnothing']
    · simp [hroutes, hroutes']

/-! ## Documents that end in the first block -/

/-- The buffer after each of the blocks. -/
def laterBuffers : List Bytes → Bytes → List Bytes
  | [], _ => []
  | block :: blocks, buf => writeBlock buf block :: laterBuffers blocks (writeBlock buf block)

/-- The document ends in the first block: `jsmn` finds no other tokens in the whole file, and as its
position is behind the end of every later block, it finds no more in them. -/
structure EndsInFirst (parse : JsmnParse P) (init p : P) (content : Bytes) (r : ℤ) (toks : List Tok) :
    Prop where
  count : r = toks.length
  whole : (parse init content MAX_TOKENS).2 = ((toks.length : ℤ), toks)
  again : ∀ block room, block.length ≤ BUFSIZ → parse p block room = (p, (toks.length : ℤ), [])
  inside : ∀ tok ∈ toks, tok.stop ≤ BUFSIZ
  text : (0 : UInt8) ∉ content

/-- With each of the later blocks in the buffer the same tokens load again without a location, and the
last of them leaves the fields as the first block does. -/
structure Undisturbed (content : Bytes) (t : ℕ → Tok) (n : ℕ) : Prop where
  loads : ∀ json ∈ laterBuffers (laterBlocks content) (content.take BUFSIZ),
    Loads json t n ∧ NoLocations json t n
  fields : ∀ entry ∈ configMap, ∀ dest, entry.dest = some dest →
    fieldText ((laterBlocks content).foldl writeBlock (content.take BUFSIZ)) t n entry.tokenName dest =
      fieldText (content.take BUFSIZ) t n entry.tokenName dest

theorem undisturbed_iff {n : ℕ} : Undisturbed content t n ↔
    (∀ json ∈ laterBuffers (laterBlocks content) (content.take BUFSIZ),
      Loads json t n ∧ NoLocations json t n) ∧
    ∀ entry ∈ configMap, ∀ dest, entry.dest = some dest →
      fieldText ((laterBlocks content).foldl writeBlock (content.take BUFSIZ)) t n entry.tokenName dest =
        fieldText (content.take BUFSIZ) t n entry.tokenName dest :=
  ⟨fun h => ⟨h.loads, h.fields⟩, fun h => ⟨h.1, h.2⟩⟩

/-- The search of the first block is that of the whole file. -/
theorem EndsInFirst.sameTokens (hends : EndsInFirst parse init p content r toks)
    (compile : Option Bytes → Option Code) (hstale : ∀ i, (t i).stop ≤ BUFSIZ)
    (hlong : BUFSIZ < content.length) :
    SameTokens compile content (content.take BUFSIZ) (writeTokens t 0 toks) (writeTokens t 0 toks) := by
  have hinside : ∀ i, (writeTokens t 0 toks i).stop ≤ (content.take BUFSIZ).length := by
    intro i
    rw [length_take_long hlong]
    by_cases hi : i < toks.length
    · rw [writeTokens_of_lt hi]
      exact hends.inside _ (List.getElem_mem hi)
    · rw [writeTokens_of_not_lt hi]
      exact hstale i
  -- the whole file is the first block and what comes behind it
  have hnul := hends.text
  rw [← List.take_append_drop BUFSIZ content] at hnul
  have hsame : SameTokens compile (content.take BUFSIZ ++ content.drop BUFSIZ) (content.take BUFSIZ)
    (writeTokens t 0 toks) (writeTokens t 0 toks) := sameTokens_front hinside hnul
  rwa [List.take_append_drop] at hsame

/-- A search of the same tokens in this buffer. -/
def againView (t : ℕ → Tok) (n : ℕ) (json : Bytes) : View where
  buf := json
  t := t
  r := n
  slots := []

/-- A call that finds no more leaves the tokens, and they are searched in what the buffer holds then. -/
theorem views_again {n : ℕ} {blocks : List Bytes}
    (hagain : ∀ block ∈ blocks, ∀ room, parse p block room = (p, (n : ℤ), [])) (buf : Bytes)
    (tokcount : ℤ) (toknext : ℕ) :
    views parse blocks buf p t tokcount toknext = (laterBuffers blocks buf).map (againView t n) := by
  have hsame : ∀ first, writeTokens t first [] = t := by
    intro first
    funext i
    simp [writeTokens]
  induction blocks generalizing buf tokcount toknext with
  | nil => rfl
  | cons block blocks ih =>
      rw [views, hagain block (List.mem_cons_self ..), laterBuffers, List.map_cons]
      dsimp only
      rw [hsame, ih fun b hb => hagain b (List.mem_cons_of_mem _ hb)]
      simp [View.next, againView, hsame]

/-- The last of the buffers decides. -/
theorem lastText_again {n : ℕ} {dest : Dest} {blocks : List Bytes} {buf : Bytes}
    (hloads : ∀ json ∈ laterBuffers blocks buf, Loads json t n) :
    (lastText dest ((laterBuffers blocks buf).map (againView t n))).or
        ((againView t n buf).setText dest) =
      (againView t n (blocks.foldl writeBlock buf)).setText dest := by
  induction blocks generalizing buf with
  | nil => rfl
  | cons block blocks ih =>
      rw [laterBuffers, List.forall_mem_cons] at hloads
      rw [laterBuffers, List.map_cons, lastText, ih hloads.2, List.foldl_cons]
      -- a block that loads sets every field
      have hset : (againView t n (blocks.foldl writeBlock (writeBlock buf block))).setText dest ≠
          none := by
        rw [← ih hloads.2]
        intro hnone
        exact hloads.1.setText_ne_none dest (Option.or_eq_none_iff.mp hnone).2
      obtain ⟨text, htext⟩ := Option.ne_none_iff_exists'.mp hset
      rw [htext, Option.some_or]

theorem foldl_writeBlock_mem (blocks : List Bytes) (buf : Bytes) :
    blocks.foldl writeBlock buf = buf ∨ blocks.foldl writeBlock buf ∈ laterBuffers blocks buf := by
  induction blocks generalizing buf with
  | nil => exact Or.inl rfl
  | cons block blocks ih =>
      rw [List.foldl_cons, laterBuffers]
      refine Or.inr ?_
      rcases ih (writeBlock buf block) with hsame | hmem
      · rw [hsame]
        exact List.mem_cons_self ..
      · exact List.mem_cons_of_mem _ hmem

/-- Later blocks leave what a block that loads has left if each of them loads and has no locations, and
the last one has the same fields. -/
theorem viewsAlike_again_iff (compile : Option Bytes → Option Code) {n : ℕ} (blocks : List Bytes)
    (hloads : Loads buf t n) :
    ViewsAlike compile (againView t n buf :: (laterBuffers blocks buf).map (againView t n))
        [againView t n buf] ↔
      (∀ json ∈ laterBuffers blocks buf, Loads json t n ∧ NoLocations json t n) ∧
        ∀ entry ∈ configMap, ∀ dest, entry.dest = some dest →
          fieldText (blocks.foldl writeBlock buf) t n entry.tokenName dest =
            fieldText buf t n entry.tokenName dest := by
  have hview : (againView t n buf).Loads := hloads
  -- where all of them load, the last buffer has the fields
  have hfields : (∀ json ∈ laterBuffers blocks buf, Loads json t n) →
      ∀ entry ∈ configMap, ∀ dest, entry.dest = some dest →
        (lastText dest (againView t n buf :: (laterBuffers blocks buf).map (againView t n)) =
          lastText dest [againView t n buf] ↔
        fieldText (blocks.foldl writeBlock buf) t n entry.tokenName dest =
          fieldText buf t n entry.tokenName dest) := by
    intro hall entry hentry dest hdest
    have hlast : Loads (blocks.foldl writeBlock buf) t n := by
      rcases foldl_writeBlock_mem blocks buf with hsame | hmem
      · rwa [hsame]
      · exact hall _ hmem
    rw [lastText, lastText_again hall, lastText_singleton, ← hlast.setText hentry hdest,
      ← hloads.setText hentry hdest]
    rfl
  constructor
  · rintro ⟨hresult, hsame, hroutes⟩
    have hall : ∀ v ∈ againView t n buf :: (laterBuffers blocks buf).map (againView t n), v.Loads :=
      hresult.mpr fun v hv => List.mem_singleton.mp hv ▸ hview
    have hlater : ∀ json ∈ laterBuffers blocks buf, Loads json t n := fun json hjson =>
      hall _ (List.mem_cons_of_mem _ (List.mem_map_of_mem hjson))
    rw [searched_of_loads hall, searched_singleton, List.flatMap_cons, List.flatMap_singleton,
      List.append_right_eq_self, List.flatMap_eq_nil_iff] at hroutes
    rw [searched_of_loads hall, searched_singleton] at hsame
    refine ⟨fun json hjson => ⟨hlater json hjson, ?_⟩, fun entry hentry dest hdest =>
      (hfields hlater entry hentry dest hdest).mp (hsame dest)⟩
    exact ((hlater json hjson).addedRoutes_eq_nil_iff compile).mp
      (hroutes _ (List.mem_map_of_mem hjson))
  · rintro ⟨hlater, hsame⟩
    have hall : ∀ v ∈ againView t n buf :: (laterBuffers blocks buf).map (againView t n), v.Loads := by
      intro v hv
      rcases List.mem_cons.mp hv with rfl | hv
      · exact hview
      · obtain ⟨json, hjson, rfl⟩ := List.mem_map.mp hv
        exact (hlater json hjson).1
    constructor
    · exact iff_of_true hall fun v hv => List.mem_singleton.mp hv ▸ hview
    · intro dest
      obtain ⟨entry, hentry, hdest⟩ := exists_entry dest
      rw [searched_of_loads hall, searched_singleton]
      exact (hfields (fun json hjson => (hlater json hjson).1) entry hentry dest hdest).mpr
        (hsame entry hentry dest hdest)
    · rw [searched_of_loads hall, searched_singleton, List.flatMap_cons, List.flatMap_singleton,
        List.append_right_eq_self, List.flatMap_eq_nil_iff]
      intro v hv
      obtain ⟨json, hjson, rfl⟩ := List.mem_map.mp hv
      exact ((hlater json hjson).1.addedRoutes_eq_nil_iff compile).mpr (hlater json hjson).2

/-- A long file whose document ends in the first block. -/
theorem cutIndependent_ends (compile : Option Bytes → Option Code) (hbuf : buf.length ≤ BUFSIZ)
    (hlong : BUFSIZ < content.length)
    (hfirst : parse init (content.take BUFSIZ) MAX_TOKENS = (p, r, toks))
    (hroom : (toks.length : ℤ) ≤ MAX_TOKENS) (hstale : ∀ i, (t i).stop ≤ BUFSIZ)
    (hends : EndsInFirst parse init p content r toks) :
    CutIndependent parse init compile buf t content ↔
      ¬ Loads (content.take BUFSIZ) (writeTokens t 0 toks) toks.length ∨
        Undisturbed content (writeTokens t 0 toks) toks.length := by
  rw [hends.count] at hfirst
  have hagain : ∀ block ∈ laterBlocks content, ∀ room, parse p block room = (p, (toks.length : ℤ), []) :=
    fun block hblock room => hends.again block room (length_fileReads_le hblock)
  have hwhole : parse init content MAX_TOKENS =
      ((parse init content MAX_TOKENS).1, (toks.length : ℤ), toks) := by rw [← hends.whole]
  -- the whole file is searched as its first block is
  have hsame : ∀ config : Config Code,
      searchViews compile [firstView content t (toks.length : ℤ) toks] config =
        searchViews compile [firstView (content.take BUFSIZ) t (toks.length : ℤ) toks] config := by
    intro config
    rw [searchViews_singleton, searchViews_singleton]
    dsimp only [firstView]
    rw [(hends.sameTokens compile hstale hlong).searchMap]
  by_cases hloads : Loads (content.take BUFSIZ) (writeTokens t 0 toks) toks.length
  · have hstored : StoredInside (blockViews parse init buf t content) := by
      intro v hv k hk
      rw [blockViews_long hbuf hlong hfirst, views_again hagain] at hv
      -- only the first block has new tokens
      rcases List.mem_cons.mp (mem_of_mem_searched hv) with rfl | hlater
      · have hlt := List.mem_range.mp hk
        omega
      · obtain ⟨json, -, rfl⟩ := List.mem_map.mp hlater
        cases hk
    rw [cutIndependent_iff_views, and_iff_left hstored, ← searchViews_eq_iff,
      wholeViews_long hbuf hlong hwhole]
    simp only [hsame]
    rw [blockViews_long hbuf hlong hfirst, views_again hagain, or_iff_right (not_not.mpr hloads),
      undisturbed_iff, ← viewsAlike_again_iff compile _ hloads, ← searchViews_eq_iff]
    -- the slots of the first view are not looked at
    rfl
  · have hrefused : ¬ (firstView (content.take BUFSIZ) t (toks.length : ℤ) toks).Loads := hloads
    rw [cutIndependent_refused compile hbuf hlong hfirst hroom hwhole hrefused, ← searchViews_eq_iff]
    exact iff_of_true (fun config => (hsame config).symm) (Or.inl hloads)

/-! ## Every file -/

end File

/-! ## Two long files -/

/-- `{a}` in front of a block of blanks. -/
def paddedContent : Bytes :=
  ascii "\x7ba\x7d" ++ List.replicate BUFSIZ 32

def paddedTokens : List Tok :=
  [⟨.object, 0, 3, 1⟩, ⟨.primitive, 1, 2, 0⟩]

/-- `jsmn` on this file; the state is the number of tokens it has. -/
def paddedParse : JsmnParse ℕ :=
  fun found _ _ => if found = 0 then (2, 2, paddedTokens) else (found, found, [])

/-- `oneContent` behind a block of blanks. -/
def indentedContent : Bytes :=
  List.replicate BUFSIZ 32 ++ oneContent

/-- `jsmn` on this file, and on its first block. -/
def indentedParse : JsmnParse Unit :=
  fun p block _ =>
    if block.all (· == 32) then (p, 0, [])
    else (p, oneTokens.length, oneTokens.map (Tok.shift BUFSIZ))

end Gfhttpd.Conf
