import Gfhttpd.Config.Walk
import Mathlib.Data.List.Basic

/-!
# The slots of `t` that `conf_load` reads (`main/config/config.c`)

`json_contains` reads the token behind a key, and `locations_parser` one token more than a location
object has keys, without a look at the number of tokens.

- `mapReads`: the slots that the search of one block reads
- `searchMap_congr`: the search depends on nothing but these
- `readsInside_iff`: the token arrays in which it reads no slot behind the last token
-/

namespace Gfhttpd.Conf

open Http

variable {Code : Type}

/-! ## Reading -/

/-- The slots that are read for the token at offset `h` of a location object. -/
def visitReads (json : Bytes) (t : ℕ → Tok) (location h : ℕ) : List ℕ :=
  if reads json t location (ascii "location") h then [location + 1 + h, location + 1 + h + 1]
  else if reads json t location (ascii "modules") h then
    (location + 1 + h) :: (location + 1 + h + 1) ::
      (List.range (t (location + 1 + h + 1)).size).map (location + 1 + h + 1 + 1 + ·)
  else [location + 1 + h]

/-- The slots that are read for a location object. -/
def locationReads (json : Bytes) (t : ℕ → Tok) (location : ℕ) : List ℕ :=
  location :: (visits json t location).flatMap (visitReads json t location)

/-- The location object is one that gets a route. -/
def Accepted (json : Bytes) (t : ℕ → Tok) (location : ℕ) : Prop :=
  ¬ ((readLocation json t location).modulesChain = [] ∨ (readLocation json t location).nPath = 0)

instance (json : Bytes) (t : ℕ → Tok) (location : ℕ) : Decidable (Accepted json t location) :=
  inferInstanceAs (Decidable (¬ (_ ∨ _)))

/-- The slots that the loop over `j` reads. -/
def locationsLoopReads (json : Bytes) (t : ℕ → Tok) (locations : ℕ) : ℕ → ℕ → List ℕ
  | 0, _ => []
  | left + 1, j =>
      let location := locations + j + 1
      if (t location).type = .object then
        locationReads json t location ++
          -- the loop ends at a location without a route
          if Accepted json t location then locationsLoopReads json t locations left (j + 1) else []
      else [location]

/-- The slots that `locations_parser` reads. -/
def parserReads (json : Bytes) (t : ℕ → Tok) (i : ℕ) : List ℕ :=
  (i + 1) ::
    if (t (i + 1)).type ≠ .array then []
    else locationsLoopReads json t (i + 1) (t (i + 1)).size 0

/-- The slots that `json_contains` reads. -/
def containsReads (json : Bytes) (t : ℕ → Tok) (entry : ConfigMap) (i : ℕ) : List ℕ :=
  i ::
    if Matches json entry.tokenName (t i) then
      match entry.dest with
      | some _ => [i + 1]
      | none => parserReads json t i
    else []

/-- The slots that the loop over the tokens reads, for one entry: it ends at the first match. -/
def searchReads (json : Bytes) (t : ℕ → Tok) (entry : ConfigMap) : List ℕ → List ℕ
  | [] => []
  | i :: is =>
      containsReads json t entry i ++
        if Matches json entry.tokenName (t i) then [] else searchReads json t entry is

/-- The slots that the loop over `config_map` reads. -/
def mapReads (compile : Option Bytes → Option Code) (json : Bytes) (t : ℕ → Tok) (r : ℤ) :
    List ConfigMap → Config Code → List ℕ
  | [], _ => []
  | entry :: entries, config =>
      searchReads json t entry (List.range' 1 (r.toNat - 1)) ++
        match searchTokens compile json t entry (List.range' 1 (r.toNat - 1)) config with
        | .found config => mapReads compile json t r entries config
        | .notFound config =>
            if entry.required then [] else mapReads compile json t r entries config
        | .failed _ _ => []

/-- The slots that `json_contains` and `locations_parser` read in the loop of `conf_load`. -/
def readLoopReads {P : Type} (parse : JsmnParse P) (compile : Option Bytes → Option Code) :
    List Bytes → Bytes → P → (ℕ → Tok) → ℤ → ℕ → Config Code → List ℕ
  | [], _, _, _, _, _, _ => []
  | block :: blocks, buf, p, t, tokcount, toknext, config =>
      let buf := block ++ buf.drop block.length
      match parse p block (MAX_TOKENS - tokcount) with
      | (p, r, toks) =>
          let t := writeTokens t (nextSlot tokcount toknext) toks
          if r = JSMN_ERROR_NOMEM then []
          else
            mapReads compile buf t r configMap config ++
              match searchMap compile buf t r configMap config with
              | (some _, _) => []
              | (none, config) =>
                  readLoopReads parse compile blocks buf p t (tokcount + r) (toknext + toks.length) config

/-! ## Nothing else is read -/

section Congr

variable {json : Bytes} {t t' : ℕ → Tok}

theorem reads_congr {location h : ℕ} (heq : t (location + 1 + h) = t' (location + 1 + h))
    (name : Bytes) : reads json t location name h = reads json t' location name h := by
  unfold reads
  rw [heq]

theorem mem_visitReads (json : Bytes) (t : ℕ → Tok) (location h : ℕ) :
    location + 1 + h ∈ visitReads json t location h := by
  unfold visitReads
  split
  · exact List.mem_cons_self ..
  · split
    · exact List.mem_cons_self ..
    · exact List.mem_cons_self ..

theorem visitsFrom_congr {location : ℕ} (hloc : t location = t' location) (fuel h : ℕ)
    (hread : ∀ h' ∈ visitsFrom json t location fuel h,
      t (location + 1 + h') = t' (location + 1 + h')) :
    visitsFrom json t location fuel h = visitsFrom json t' location fuel h := by
  induction fuel generalizing h with
  | zero => rfl
  | succ fuel ih =>
      rw [visitsFrom] at hread
      rw [visitsFrom, visitsFrom, ← hloc]
      split
      · rename_i hsize
        rw [if_pos hsize] at hread
        -- the token decides by how much the loop goes on
        have hhead := hread h (List.mem_cons_self ..)
        have hkey : readsKey json t location h = readsKey json t' location h := by
          unfold readsKey
          rw [reads_congr hhead, reads_congr hhead]
        rw [ih _ fun h' hh' => hread h' (List.mem_cons_of_mem _ hh'), hkey]
      · rfl

theorem visit_congr {location h : ℕ} (hread : ∀ k ∈ visitReads json t location h, t k = t' k)
    (r : Location) : visit json t location r h = visit json t' location r h := by
  have hhead := hread _ (mem_visitReads json t location h)
  unfold visitReads at hread
  unfold visit
  rw [reads_congr hhead, reads_congr hhead] at hread
  rw [reads_congr hhead, reads_congr hhead]
  split
  · rename_i hloc
    rw [if_pos hloc] at hread
    rw [hread (location + 1 + h + 1) (by simp)]
  · rename_i hloc
    split
    · rename_i hmod
      rw [if_neg hloc, if_pos hmod] at hread
      -- the array and its elements
      have harray := hread (location + 1 + h + 1) (by simp)
      have hchain : readModules json t (location + 1 + h + 1) =
          readModules json t' (location + 1 + h + 1) := by
        unfold readModules
        rw [← harray]
        apply List.map_congr_left
        intro m hm
        have hmem : location + 1 + h + 1 + 1 + m ∈
            (List.range (t (location + 1 + h + 1)).size).map (location + 1 + h + 1 + 1 + ·) :=
          List.mem_map.mpr ⟨m, hm, rfl⟩
        rw [hread _ (List.mem_cons_of_mem _ (List.mem_cons_of_mem _ hmem))]
      rw [hchain]
    · rfl

theorem readLocation_congr {location : ℕ}
    (hread : ∀ k ∈ locationReads json t location, t k = t' k) :
    readLocation json t location = readLocation json t' location := by
  have hloc := hread location (List.mem_cons_self ..)
  have hvisit : ∀ h ∈ visits json t location, ∀ k ∈ visitReads json t location h, t k = t' k :=
    fun h hh k hk => hread k (List.mem_cons_of_mem _ (List.mem_flatMap.mpr ⟨h, hh, hk⟩))
  -- the same offsets are looked at, so the loops are folds over one list
  have hvisits : visits json t location = visits json t' location := by
    unfold visits
    rw [← hloc]
    apply visitsFrom_congr hloc
    exact fun h hh => hvisit h hh _ (mem_visitReads ..)
  rw [readLocation, readLocation, readLocationLoop_eq, readLocationLoop_eq]
  unfold visits at hvisits hvisit
  rw [← hvisits]
  apply List.foldl_ext
  intro r h hh
  exact visit_congr (hvisit h hh) r

theorem locationsLoop_congr (compile : Option Bytes → Option Code) {locations : ℕ} (left j : ℕ)
    (hread : ∀ k ∈ locationsLoopReads json t locations left j, t k = t' k) (config : Config Code) :
    locationsLoop compile json t locations left j config =
      locationsLoop compile json t' locations left j config := by
  induction left generalizing j config with
  | zero => rfl
  | succ left ih =>
      rw [locationsLoopReads] at hread
      rw [locationsLoop, locationsLoop]
      dsimp only at hread ⊢
      by_cases hobject : (t (locations + j + 1)).type = .object
      · rw [if_pos hobject] at hread
        have hloc : t (locations + j + 1) = t' (locations + j + 1) :=
          hread _ (List.mem_append_left _ (List.mem_cons_self ..))
        have hsame := readLocation_congr fun k hk => hread k (List.mem_append_left _ hk)
        have hobject' : (t' (locations + j + 1)).type = .object := by rw [← hloc, hobject]
        rw [if_pos hobject, if_pos hobject', ← hsame]
        by_cases haccepted : Accepted json t (locations + j + 1)
        · -- only then the next location is read
          rw [if_neg haccepted, if_neg haccepted]
          apply ih
          intro k hk
          apply hread
          rw [if_pos haccepted]
          exact List.mem_append_right _ hk
        · rw [if_pos (not_not.mp haccepted), if_pos (not_not.mp haccepted)]
      · rw [if_neg hobject] at hread
        have hloc := hread _ (List.mem_singleton_self _)
        have hobject' : (t' (locations + j + 1)).type ≠ .object := by rwa [← hloc]
        rw [if_neg hobject, if_neg hobject']

theorem locationsParser_congr (compile : Option Bytes → Option Code) {i : ℕ}
    (hread : ∀ k ∈ parserReads json t i, t k = t' k) (config : Config Code) :
    locationsParser compile json t i config = locationsParser compile json t' i config := by
  unfold parserReads at hread
  have harray := hread (i + 1) (List.mem_cons_self ..)
  unfold locationsParser
  rw [← harray]
  split
  · rfl
  · rename_i htype
    rw [if_neg htype] at hread
    rw [locationsLoop_congr compile _ _ fun k hk => hread k (List.mem_cons_of_mem _ hk)]

theorem jsonContains_congr (compile : Option Bytes → Option Code) {entry : ConfigMap} {i : ℕ}
    (hread : ∀ k ∈ containsReads json t entry i, t k = t' k) (config : Config Code) :
    jsonContains compile json t entry i config = jsonContains compile json t' entry i config := by
  unfold containsReads at hread
  have htok := hread i (List.mem_cons_self ..)
  unfold jsonContains
  rw [← htok]
  split
  · rename_i hmatch
    rw [if_pos (show Matches json entry.tokenName (t i) from hmatch)] at hread
    cases hdest : entry.dest with
    | some dest =>
        rw [hdest] at hread
        have hvalue := hread (i + 1) (by simp)
        dsimp only
        rw [hvalue]
    | none =>
        rw [hdest] at hread
        exact locationsParser_congr compile (fun k hk => hread k (List.mem_cons_of_mem _ hk)) config
  · rfl

/-- A match ends the search, with or without an error. -/
theorem jsonContains_ne_zero_iff (compile : Option Bytes → Option Code) (json : Bytes)
    (t : ℕ → Tok) (entry : ConfigMap) (i : ℕ) (config : Config Code) :
    (jsonContains compile json t entry i config).1 ≠ 0 ↔ Matches json entry.tokenName (t i) := by
  by_cases hmatch : Matches json entry.tokenName (t i)
  · refine iff_of_true ?_ hmatch
    cases hdest : entry.dest with
    | some dest =>
        rw [jsonContains_dest compile hdest hmatch]
        exact Int.one_ne_zero
    | none =>
        rw [jsonContains_locations compile hdest hmatch]
        rcases locationsParser_fst compile t json i config with hfail | ⟨hpos, -⟩
        · rw [hfail]
          decide
        · exact Int.ne_of_gt hpos
  · rw [jsonContains_of_not_matches compile hmatch]
    exact iff_of_false (fun h => h rfl) hmatch

theorem searchTokens_congr (compile : Option Bytes → Option Code) {entry : ConfigMap} (is : List ℕ)
    (hread : ∀ k ∈ searchReads json t entry is, t k = t' k) (config : Config Code) :
    searchTokens compile json t entry is config = searchTokens compile json t' entry is config := by
  induction is with
  | nil => rfl
  | cons i is ih =>
      rw [searchReads] at hread
      rw [searchTokens, searchTokens,
        ← jsonContains_congr compile fun k hk => hread k (List.mem_append_left _ hk)]
      by_cases hmatch : Matches json entry.tokenName (t i)
      · have hne := (jsonContains_ne_zero_iff compile json t entry i config).mpr hmatch
        generalize jsonContains compile json t entry i config = res at hne
        obtain ⟨next, config'⟩ := res
        rcases Int.lt_or_gt_of_ne hne with hneg | hpos
        · have hnot : ¬ next > 0 := by simp only at hneg; omega
          simp only [if_neg hnot, if_pos hneg]
        · simp only [if_pos hpos]
      · rw [if_neg hmatch] at hread
        rw [jsonContains_of_not_matches compile hmatch]
        exact ih fun k hk => hread k (List.mem_append_right _ hk)

/-- The search of a block depends on nothing but the slots it reads. -/
theorem searchMap_congr (compile : Option Bytes → Option Code) {r : ℤ} (entries : List ConfigMap)
    (config : Config Code) (hread : ∀ k ∈ mapReads compile json t r entries config, t k = t' k) :
    searchMap compile json t r entries config = searchMap compile json t' r entries config := by
  induction entries generalizing config with
  | nil => rfl
  | cons entry entries ih =>
      rw [mapReads] at hread
      rw [searchMap, searchMap,
        ← searchTokens_congr compile _ fun k hk => hread k (List.mem_append_left _ hk)]
      cases hsearch : searchTokens compile json t entry (List.range' 1 (r.toNat - 1)) config with
      | found config' =>
          rw [hsearch] at hread
          exact ih config' fun k hk => hread k (List.mem_append_right _ hk)
      | notFound config' =>
          rw [hsearch] at hread
          dsimp only at hread ⊢
          split
          · rfl
          · rename_i hrequired
            rw [if_neg hrequired] at hread
            exact ih config' fun k hk => hread k (List.mem_append_right _ hk)
      | failed next config' => rfl

end Congr

/-! ## Reading inside -/

section Inside

variable {json : Bytes} {t : ℕ → Tok} {n : ℕ}

/-- `size` counts tokens that come behind the token, which is what `jsmn` does: a token adds to the
`size` of one token in front of it. -/
def SizesFit (t : ℕ → Tok) (n : ℕ) : Prop :=
  ∀ i < n, i + (t i).size < n

/-- There are more tokens behind the location object than it has keys, and if the loop looks at the
last one it may and takes it for a key, there is one more. -/
def ObjectFits (json : Bytes) (t : ℕ → Tok) (n location : ℕ) : Prop :=
  location + 1 + (t location).size < n ∧
    ((t location).size ∈ visits json t location →
      readsKey json t location (t location).size = true →
        location + 1 + (t location).size + 1 < n)

/-- Every location object that the loop over `j` comes to fits. -/
def LocationsFit (json : Bytes) (t : ℕ → Tok) (n locations j left : ℕ) : Prop :=
  ∀ m < left,
    (∀ q < m, (t (locations + (j + q) + 1)).type = .object ∧
      Accepted json t (locations + (j + q) + 1)) →
    (t (locations + (j + m) + 1)).type = .object → ObjectFits json t n (locations + (j + m) + 1)

/-- There is a token behind the key at `i`, and if the key is `locations` the objects behind it fit. -/
def EntryFits (json : Bytes) (t : ℕ → Tok) (n : ℕ) (entry : ConfigMap) (i : ℕ) : Prop :=
  i + 1 < n ∧ (entry.dest = none → (t (i + 1)).type = .array →
    LocationsFit json t n (i + 1) 0 (t (i + 1)).size)

/-- The first token behind the root that reads `name`. -/
def firstMatch (json : Bytes) (t : ℕ → Tok) (n : ℕ) (name : Bytes) : Option ℕ :=
  (List.range' 1 (n - 1)).find? fun i => decide (Matches json name (t i))

/-- Every entry that is looked up fits at its first match: one without a match is the last one. -/
def EntriesFit (json : Bytes) (t : ℕ → Tok) (n : ℕ) : List ConfigMap → Prop
  | [] => True
  | entry :: entries =>
      match firstMatch json t n entry.tokenName with
      | none => True
      | some i => EntryFits json t n entry i ∧ EntriesFit json t n entries

instance (json : Bytes) (t : ℕ → Tok) (n location : ℕ) : Decidable (ObjectFits json t n location) :=
  inferInstanceAs (Decidable (_ ∧ _))

instance (json : Bytes) (t : ℕ → Tok) (n locations j left : ℕ) :
    Decidable (LocationsFit json t n locations j left) :=
  inferInstanceAs (Decidable (∀ m < left, _))

instance (json : Bytes) (t : ℕ → Tok) (n : ℕ) (entry : ConfigMap) (i : ℕ) :
    Decidable (EntryFits json t n entry i) :=
  inferInstanceAs (Decidable (_ ∧ _))

instance decidableEntriesFit (json : Bytes) (t : ℕ → Tok) (n : ℕ) :
    (entries : List ConfigMap) → Decidable (EntriesFit json t n entries)
  | [] => .isTrue trivial
  | entry :: entries =>
      have : Decidable (EntriesFit json t n entries) := decidableEntriesFit json t n entries
      match h : firstMatch json t n entry.tokenName with
      | none => .isTrue (by simp [EntriesFit, h])
      | some i => decidable_of_iff (EntryFits json t n entry i ∧ EntriesFit json t n entries)
          (by simp [EntriesFit, h])

/-- The slots at an offset: the token, and the next one if the token reads a key. -/
theorem visitReads_lt_iff (hsizes : SizesFit t n) (location h : ℕ) :
    (∀ k ∈ visitReads json t location h, k < n) ↔
      location + 1 + h < n ∧
        (readsKey json t location h = true → location + 1 + h + 1 < n) := by
  unfold visitReads readsKey
  cases hloc : reads json t location (ascii "location") h with
  | true => simp
  | false =>
      cases hmod : reads json t location (ascii "modules") h with
      | true =>
          simp only [Bool.false_eq_true, if_false, if_true, Bool.false_or, List.forall_mem_cons,
            forall_true_left]
          apply and_congr_right
          intro _
          apply and_iff_left_of_imp
          intro hlt k hk
          -- the elements of the array
          obtain ⟨m, hm, rfl⟩ := List.mem_map.mp hk
          have hsize := hsizes _ hlt
          have hmlt := List.mem_range.mp hm
          omega
      | false => simp

theorem locationReads_lt_iff (hsizes : SizesFit t n) {location : ℕ} (hloc : location < n) :
    (∀ k ∈ locationReads json t location, k < n) ↔ ObjectFits json t n location := by
  have hall : (∀ k ∈ locationReads json t location, k < n) ↔
      ∀ h ∈ visits json t location, location + 1 + h < n ∧
        (readsKey json t location h = true → location + 1 + h + 1 < n) := by
    simp only [← visitReads_lt_iff hsizes]
    unfold locationReads
    rw [List.forall_mem_cons, and_iff_right hloc]
    constructor
    · exact fun hreads h hh k hk => hreads k (List.mem_flatMap.mpr ⟨h, hh, hk⟩)
    · intro hreads k hk
      obtain ⟨h, hh, hk⟩ := List.mem_flatMap.mp hk
      exact hreads h hh k hk
  rw [hall]
  constructor
  · intro hvisits
    refine ⟨?_, fun hlast hreads => (hvisits _ hlast).2 hreads⟩
    -- the offset `size` is looked at, or read for the key in front of it
    rcases mem_visits (Nat.le_refl (t location).size) with hlast | ⟨j, hj, hnext, hreads⟩
    · exact (hvisits _ hlast).1
    · rw [← hnext]
      exact (hvisits j hj).2 hreads
  · rintro ⟨hroom, hlast⟩ h hh
    have hle := (le_of_mem_visitsFrom hh).2
    refine ⟨by omega, fun hreads => ?_⟩
    rcases Nat.lt_or_eq_of_le hle with hlt | rfl
    · omega
    · exact hlast hh hreads

theorem locationsLoopReads_lt_iff (hsizes : SizesFit t n) {locations : ℕ} (left j : ℕ)
    (hroom : locations + j + left < n) :
    (∀ k ∈ locationsLoopReads json t locations left j, k < n) ↔
      LocationsFit json t n locations j left := by
  induction left generalizing j with
  | zero =>
      refine iff_of_true (fun k hk => absurd hk List.not_mem_nil) fun m hm => absurd hm ?_
      exact Nat.not_lt_zero m
  | succ left ih =>
      have hlt : locations + j + 1 < n := by omega
      have hrest := ih (j + 1) (by omega)
      -- the first location, and those behind it
      have hsplit : LocationsFit json t n locations j (left + 1) ↔
          ((t (locations + j + 1)).type = .object → ObjectFits json t n (locations + j + 1)) ∧
          ((t (locations + j + 1)).type = .object ∧ Accepted json t (locations + j + 1) →
            LocationsFit json t n locations (j + 1) left) := by
        unfold LocationsFit
        constructor
        · intro hfits
          refine ⟨hfits 0 (Nat.succ_pos _) fun q hq => absurd hq (Nat.not_lt_zero q), ?_⟩
          intro hfirst m hm hreached
          have hnext := hfits (m + 1) (by omega) fun q hq => by
            cases q with
            | zero => exact hfirst
            | succ q =>
                have hq' := hreached q (by omega)
                rwa [Nat.add_assoc j 1 q, Nat.add_comm 1 q] at hq'
          rwa [← Nat.add_assoc j, Nat.add_right_comm j m 1] at hnext
        · rintro ⟨hfirst, hothers⟩ m hm hreached
          cases m with
          | zero => exact hfirst
          | succ m =>
              have hnext := hothers (hreached 0 (Nat.succ_pos _)) m (by omega) fun q hq => by
                have hq' := hreached (q + 1) (by omega)
                rwa [← Nat.add_assoc j, Nat.add_right_comm j q 1] at hq'
              rwa [Nat.add_assoc j 1 m, Nat.add_comm 1 m] at hnext
      rw [hsplit, locationsLoopReads]
      by_cases hobject : (t (locations + j + 1)).type = .object
      · rw [if_pos hobject, List.forall_mem_append, locationReads_lt_iff hsizes hlt]
        by_cases haccepted : Accepted json t (locations + j + 1)
        · rw [if_pos haccepted, hrest]
          simp only [hobject, haccepted, and_self, forall_true_left]
        · rw [if_neg haccepted]
          simp [hobject, haccepted]
      · rw [if_neg hobject]
        simp [hobject, hlt]

theorem containsReads_lt_iff (hsizes : SizesFit t n) {entry : ConfigMap} {i : ℕ} (hi : i < n)
    (hmatch : Matches json entry.tokenName (t i)) :
    (∀ k ∈ containsReads json t entry i, k < n) ↔ EntryFits json t n entry i := by
  unfold containsReads EntryFits
  rw [List.forall_mem_cons, and_iff_right hi, if_pos hmatch]
  cases entry.dest with
  | some dest => simp
  | none =>
      dsimp only
      unfold parserReads
      rw [List.forall_mem_cons, forall_prop_of_true rfl]
      apply and_congr_right
      intro hlt
      have hsize := hsizes _ hlt
      by_cases harray : (t (i + 1)).type = .array
      · rw [if_neg (not_not.mpr harray), forall_prop_of_true harray]
        exact locationsLoopReads_lt_iff hsizes _ 0 hsize
      · rw [if_pos harray]
        simp [harray]

theorem searchReads_lt_iff (hsizes : SizesFit t n) {entry : ConfigMap} (is : List ℕ)
    (his : ∀ i ∈ is, i < n) :
    (∀ k ∈ searchReads json t entry is, k < n) ↔
      ∀ i, is.find? (fun i => decide (Matches json entry.tokenName (t i))) = some i →
        EntryFits json t n entry i := by
  induction is with
  | nil => simp [searchReads]
  | cons i is ih =>
      have hi := his i (List.mem_cons_self ..)
      have hrest := ih fun k hk => his k (List.mem_cons_of_mem _ hk)
      rw [searchReads, List.forall_mem_append]
      by_cases hmatch : Matches json entry.tokenName (t i)
      · rw [containsReads_lt_iff hsizes hi hmatch, if_pos hmatch,
          List.find?_cons_of_pos (by simpa using hmatch)]
        simp
      · rw [if_neg hmatch, hrest, List.find?_cons_of_neg (by simpa using hmatch)]
        apply and_iff_right
        unfold containsReads
        rw [if_neg hmatch]
        simpa using hi

/-- The search of all entries. -/
theorem mapReads_lt_iff (hsizes : SizesFit t n) (compile : Option Bytes → Option Code)
    (es : List ConfigMap) (hes : ∀ e ∈ es, e.required = true ∧ ∃ dest, e.dest = some dest)
    {last : ConfigMap} (config : Config Code) :
    (∀ k ∈ mapReads compile json t (n : ℤ) (es ++ [last]) config, k < n) ↔
      EntriesFit json t n (es ++ [last]) := by
  have hrange : ∀ i ∈ List.range' 1 ((n : ℤ).toNat - 1), i < n := by
    intro i hi
    simp only [List.mem_range'_1, Int.toNat_natCast] at hi
    omega
  induction es generalizing config with
  | nil =>
      rw [List.nil_append, mapReads, List.forall_mem_append, searchReads_lt_iff hsizes _ hrange]
      have hlast : ∀ k ∈ (match searchTokens compile json t last
          (List.range' 1 ((n : ℤ).toNat - 1)) config with
        | .found config => mapReads compile json t (n : ℤ) [] config
        | .notFound config =>
            if last.required then [] else mapReads compile json t (n : ℤ) [] config
        | .failed _ _ => []), k < n := by
        split
        · simp [mapReads]
        · simp [mapReads]
        · simp
      rw [and_iff_left hlast, EntriesFit, firstMatch, Int.toNat_natCast]
      cases (List.range' 1 (n - 1)).find? fun i => decide (Matches json last.tokenName (t i)) with
      | none => simp
      | some i => simp [EntriesFit]
  | cons e es ih =>
      obtain ⟨hrequired, dest, hdest⟩ := hes e (List.mem_cons_self ..)
      have hrest : ∀ config : Config Code,
          (∀ k ∈ mapReads compile json t (n : ℤ) (es ++ [last]) config, k < n) ↔
            EntriesFit json t n (es ++ [last]) :=
        fun config => ih (fun e' he' => hes e' (List.mem_cons_of_mem _ he')) config
      rw [List.cons_append, mapReads, List.forall_mem_append, searchReads_lt_iff hsizes _ hrange,
        EntriesFit]
      unfold firstMatch
      rw [Int.toNat_natCast]
      rcases searchTokens_dest compile json t hdest (List.range' 1 (n - 1)) config with
        ⟨config', -, hfound, i, hi, hmatch⟩ | ⟨hnot, hnone⟩
      · rw [hfound]
        dsimp only
        rw [hrest config']
        obtain ⟨first, hfirst⟩ : ∃ first, (List.range' 1 (n - 1)).find?
            (fun i => decide (Matches json e.tokenName (t i))) = some first := by
          rw [← Option.isSome_iff_exists, List.find?_isSome]
          exact ⟨i, hi, by simpa using hmatch⟩
        rw [hfirst]
        simp
      · have hfirst : (List.range' 1 (n - 1)).find?
            (fun i => decide (Matches json e.tokenName (t i))) = none := by
          rw [List.find?_eq_none]
          exact fun i hi => by simpa using hnone i hi
        rw [hnot, hfirst]
        simp [hrequired]

end Inside

/-! ## One block -/

section Block

variable {P : Type} {parse : JsmnParse P} {init p' : P} {content stale : Bytes} {t : ℕ → Tok}
  {toks : List Tok}

/-- The slots that `json_contains` and `locations_parser` read in one `conf_load`. -/
def confLoadReads (parse : JsmnParse P) (init : P) (compile : Option Bytes → Option Code)
    (buf : Bytes) (t : ℕ → Tok) (content : Bytes) (config : Config Code) : List ℕ :=
  readLoopReads parse compile (fileReads content.length content) buf init t 0 0 config

/-- No slot from `n` on is read. -/
def ReadsInside (parse : JsmnParse P) (init : P) (compile : Option Bytes → Option Code) (buf : Bytes)
    (t : ℕ → Tok) (content : Bytes) (config : Config Code) (n : ℕ) : Prop :=
  ∀ k ∈ confLoadReads parse init compile buf t content config, k < n

theorem confLoadReads_block (compile : Option Bytes → Option Code) (hne : content ≠ [])
    (hfits : content.length ≤ BUFSIZ)
    (hparse : parse init content MAX_TOKENS = (p', (toks.length : ℤ), toks)) (config : Config Code) :
    confLoadReads parse init compile stale t content config =
      mapReads compile (content ++ stale.drop content.length) (writeTokens t 0 toks) toks.length
        configMap config := by
  have hbase : nextSlot 0 0 = 0 := rfl
  have hroom : MAX_TOKENS - 0 = MAX_TOKENS := rfl
  unfold confLoadReads
  rw [fileReads_block hne hfits]
  simp only [readLoopReads, hbase, hroom, hparse, if_neg (natCast_ne_nomem _)]
  split
  · exact List.append_nil _
  · exact List.append_nil _

theorem writeTokens_of_lt {i : ℕ} (hi : i < toks.length) : writeTokens t 0 toks i = toks[i] :=
  writeTokens_zero_of_getElem? (List.getElem?_eq_getElem hi)

theorem writeTokens_of_not_lt {i : ℕ} (hi : ¬ i < toks.length) : writeTokens t 0 toks i = t i := by
  simp [writeTokens, List.getD_eq_getElem?_getD, hi]

/-- **On a file of one block no slot behind the last token is read exactly if, for every name that is
looked up, the first unquoted token that reads it is not the last token, and every location object that
is come to has more tokens behind it than keys, and one more if the last token that may be looked at is
taken for a key.** -/
theorem readsInside_iff (compile : Option Bytes → Option Code) (hne : content ≠ [])
    (hfits : content.length ≤ BUFSIZ)
    (hparse : parse init content MAX_TOKENS = (p', (toks.length : ℤ), toks))
    (hsizes : ∀ i (hi : i < toks.length), i + toks[i].size < toks.length) (config : Config Code) :
    ReadsInside parse init compile stale t content config toks.length ↔
      EntriesFit (content ++ stale.drop content.length) (writeTokens t 0 toks) toks.length
        configMap := by
  have hslots : SizesFit (writeTokens t 0 toks) toks.length := by
    intro i hi
    rw [writeTokens_of_lt hi]
    exact hsizes i hi
  have hmap : configMap = configMap.take 3 ++ [locationsEntry] := rfl
  rw [ReadsInside, confLoadReads_block compile hne hfits hparse, hmap]
  exact mapReads_lt_iff hslots compile _ (by simp [configMap]) config

/-- Then what the array held before makes no difference. -/
theorem confLoad_stale (compile : Option Bytes → Option Code) (hne : content ≠ [])
    (hfits : content.length ≤ BUFSIZ)
    (hparse : parse init content MAX_TOKENS = (p', (toks.length : ℤ), toks)) (config : Config Code)
    (hreads : ReadsInside parse init compile stale t content config toks.length)
    (t' : ℕ → Tok) :
    confLoad parse init compile stale t (some content) config =
      confLoad parse init compile stale t' (some content) config := by
  rw [ReadsInside, confLoadReads_block compile hne hfits hparse] at hreads
  rw [confLoad_block compile hne hfits hparse (natCast_ne_nomem _),
    confLoad_block compile hne hfits hparse (natCast_ne_nomem _)]
  have hagree : ∀ k ∈ mapReads compile (content ++ stale.drop content.length)
      (writeTokens t 0 toks) toks.length configMap config,
      writeTokens t 0 toks k = writeTokens t' 0 toks k := by
    intro k hk
    rw [writeTokens_of_lt (hreads k hk), writeTokens_of_lt (hreads k hk)]
  rw [searchMap_congr compile configMap config hagree]

end Block

/-- The document with one location is read inside. -/
theorem readsInside_one :
    ReadsInside (sampleParse oneDocument.tokens) () (fun _ => (none : Option Unit)) []
      (fun _ => Tok.zero) oneContent ⟨[], [], [], []⟩ oneDocument.tokens.length := by
  apply (readsInside_iff _ (by decide) oneDocument_wellFormed.fits rfl (by decide +kernel) _).mpr
  decide +kernel

/-- `{listen_port}`. -/
def keyContent : Bytes :=
  ascii "\x7blisten_port\x7d"

def keyTokens : List Tok :=
  [⟨.object, 0, 13, 1⟩, ⟨.primitive, 1, 12, 0⟩]

/-- A key without a value is the last token. -/
theorem not_readsInside_key : (∀ i (hi : i < keyTokens.length), i + keyTokens[i].size < keyTokens.length) ∧
    ¬ ReadsInside (sampleParse keyTokens) () (fun _ => (none : Option Unit)) []
      (fun _ => Tok.zero) keyContent ⟨[], [], [], []⟩ keyTokens.length := by
  refine ⟨by decide, fun hreads => ?_⟩
  exact absurd (hreads 2 (by decide +kernel)) (by decide)

end Gfhttpd.Conf
