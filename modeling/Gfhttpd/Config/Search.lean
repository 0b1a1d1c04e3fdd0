import Gfhttpd.Config.Settings

/-!
# What one search leaves (`main/config/config.c`)

The loop over `config_map` looks for one name after the other in the tokens of a block.  It sets the
fields whose names it comes to, adds the routes of the locations, and ends without an error, or with -1.

- `Loads`: the blocks in which all four names are read
- `setText`, `addedRoutes`: the fields and the routes that a search leaves, whatever its result
- `searchMap_eq`: the search of a block
-/

namespace Gfhttpd.Conf

open Http

variable {Code : Type} {compile : Option Bytes → Option Code} {json : Bytes} {t : ℕ → Tok} {n : ℕ}
  {config : Config Code}

/-! ## Blocks that load -/

/-- The text that is taken for a field. -/
def fieldText (json : Bytes) (t : ℕ → Tok) (n : ℕ) (name : Bytes) (dest : Dest) : Option Bytes :=
  (firstMatch json t n name).map fun i => (t (i + 1)).print json dest.size

/-- Behind the key at `i` stands an array of location objects that get a route. -/
def LocationsAccepted (json : Bytes) (t : ℕ → Tok) (i : ℕ) : Prop :=
  (t (i + 1)).type = .array ∧
    ∀ m < (t (i + 1)).size, (t (i + 1 + m + 1)).type = .object ∧ Accepted json t (i + 1 + m + 1)

/-- All four names are read in the block, and `locations_parser` accepts the locations. -/
structure Loads (json : Bytes) (t : ℕ → Tok) (n : ℕ) : Prop where
  found : ∀ entry ∈ configMap, firstMatch json t n entry.tokenName ≠ none
  locations : ∀ i, firstMatch json t n (ascii "locations") = some i → LocationsAccepted json t i

/-- The array of locations is empty. -/
def NoLocations (json : Bytes) (t : ℕ → Tok) (n : ℕ) : Prop :=
  ∀ i, firstMatch json t n (ascii "locations") = some i → (t (i + 1)).size = 0

/-- The loop over the locations goes to its end if all of them get a route. -/
theorem locationsLoop_fst_iff (locations left j : ℕ) :
    (locationsLoop compile json t locations left j config).1 = true ↔
      ∀ m < left, (t (locations + j + m + 1)).type = .object ∧
        Accepted json t (locations + j + m + 1) := by
  induction left generalizing j config with
  | zero => exact iff_of_true rfl fun m hm => absurd hm (Nat.not_lt_zero m)
  | succ left ih =>
      -- the first location, and those behind it
      have hsplit : (∀ m < left + 1, (t (locations + j + m + 1)).type = .object ∧
            Accepted json t (locations + j + m + 1)) ↔
          ((t (locations + j + 1)).type = .object ∧ Accepted json t (locations + j + 1)) ∧
            ∀ m < left, (t (locations + (j + 1) + m + 1)).type = .object ∧
              Accepted json t (locations + (j + 1) + m + 1) := by
        rw [Nat.forall_lt_succ_left]
        simp only [Nat.add_zero, Nat.add_assoc, Nat.add_comm 1]
      rw [hsplit, locationsLoop]
      dsimp only
      by_cases hobject : (t (locations + j + 1)).type = .object
      · rw [if_pos hobject]
        by_cases haccepted : Accepted json t (locations + j + 1)
        · have hgoes := haccepted
          unfold Accepted at hgoes
          rw [if_neg hgoes, ih]
          simp only [hobject, haccepted, and_self, true_and]
        · have hrefused := haccepted
          unfold Accepted at hrefused
          rw [not_not] at hrefused
          rw [if_pos hrefused]
          simp [haccepted]
      · rw [if_neg hobject]
        simp [hobject]

/-- `locations_parser` goes through on accepted locations. -/
theorem locationsParser_pos_iff {i : ℕ} :
    0 < (locationsParser compile json t i config).1 ↔ LocationsAccepted json t i := by
  have hloop : (locationsLoop compile json t (i + 1) (t (i + 1)).size 0 config).1 = true ↔ _ :=
    locationsLoop_fst_iff (i + 1) (t (i + 1)).size 0
  rw [Nat.add_zero] at hloop
  rw [LocationsAccepted, ← hloop]
  rcases locationsParser_fst compile t json i config with hfail | hgoes
  · -- with an array and a loop that goes to its end it would not have failed
    refine iff_of_false (by rw [hfail]; decide) ?_
    rintro ⟨harray, htrue⟩
    unfold locationsParser at hfail
    rw [if_neg (not_not.mpr harray)] at hfail
    split at hfail
    · rename_i hfalse
      rw [hfalse] at htrue
      cases htrue
    · simp only at hfail
      omega
  · exact iff_of_true hgoes.1 hgoes.2

/-- The four names: three with a field, and `locations`. -/
theorem configMap_eq : configMap = configMap.take 3 ++ [locationsEntry] :=
  rfl

theorem take_configMap {entry : ConfigMap} (h : entry ∈ configMap.take 3) :
    entry.required = true ∧ ∃ dest, entry.dest = some dest := by
  simp only [configMap, List.take_succ_cons, List.take_zero, List.mem_cons, List.not_mem_nil,
    or_false] at h
  rcases h with rfl | rfl | rfl
  · exact ⟨rfl, _, rfl⟩
  · exact ⟨rfl, _, rfl⟩
  · exact ⟨rfl, _, rfl⟩

/-- Entries with a field in front of the last one have to be found. -/
theorem searchMap_append_none_iff {last : ConfigMap} {accepted : Prop}
    (hlast : ∀ config : Config Code,
      (searchMap compile json t (n : ℤ) [last] config).1 = none ↔ accepted)
    (es : List ConfigMap) (hes : ∀ e ∈ es, e.required = true ∧ ∃ dest, e.dest = some dest)
    (config : Config Code) :
    (searchMap compile json t (n : ℤ) (es ++ [last]) config).1 = none ↔
      (∀ e ∈ es, firstMatch json t n e.tokenName ≠ none) ∧ accepted := by
  -- on the entries: the search goes on behind each that is found
  induction es generalizing config with
  | nil => simp [hlast]
  | cons e es ih =>
      obtain ⟨hrequired, dest, hdest⟩ := hes e (List.mem_cons_self ..)
      have hrest : ∀ config : Config Code, _ :=
        fun config => ih (fun e' he' => hes e' (List.mem_cons_of_mem _ he')) config
      rw [List.cons_append, searchMap_field hrequired hdest, List.forall_mem_cons]
      cases firstMatch json t n e.tokenName with
      | none => simp
      | some i =>
          dsimp only
          rw [hrest]
          simp

/-- The search of a block ends without an error exactly on those that load. -/
theorem searchMap_none_iff :
    (searchMap compile json t (n : ℤ) configMap config).1 = none ↔ Loads json t n := by
  -- `locations` comes last
  have hlast : ∀ config : Config Code,
      (searchMap compile json t (n : ℤ) [locationsEntry] config).1 = none ↔
        ∃ i, firstMatch json t n (ascii "locations") = some i ∧ LocationsAccepted json t i := by
    intro config
    rw [searchMap_locationsEntry]
    cases firstMatch json t n (ascii "locations") with
    | none => simp
    | some i =>
        dsimp only
        split
        · rename_i hpos
          simp [locationsParser_pos_iff.mp hpos]
        · rename_i hneg
          simp [mt locationsParser_pos_iff.mpr hneg]
  rw [configMap_eq, searchMap_append_none_iff hlast _ fun e => take_configMap]
  constructor
  · rintro ⟨hfields, i, hi, haccepted⟩
    refine ⟨fun entry hentry => ?_, fun k hk => ?_⟩
    · rw [configMap_eq, List.mem_append, List.mem_singleton] at hentry
      rcases hentry with hfield | rfl
      · exact hfields entry hfield
      · exact Option.ne_none_iff_exists'.mpr ⟨i, hi⟩
    · obtain rfl : i = k := Option.some.inj (hi.symm.trans hk)
      exact haccepted
  · rintro ⟨hfound, hlocations⟩
    obtain ⟨i, hi⟩ := Option.ne_none_iff_exists'.mp (hfound _ mem_locationsEntry)
    exact ⟨fun e he => hfound e (List.mem_of_mem_take he), i, hi, hlocations i hi⟩

instance (json : Bytes) (t : ℕ → Tok) (n : ℕ) : Decidable (Loads json t n) :=
  decidable_of_iff ((searchMap (fun _ => (none : Option Unit)) json t (n : ℤ) configMap
    ⟨[], [], [], []⟩).1 = none) searchMap_none_iff

/-! ## Fields and routes -/

/-- The text that a field gets, if the search comes to its name. -/
def setText (json : Bytes) (t : ℕ → Tok) (n : ℕ) (dest : Dest) : List ConfigMap → Option Bytes
  | [] => none
  | entry :: entries =>
      match firstMatch json t n entry.tokenName with
      | none => none
      | some i =>
          (setText json t n dest entries).or
            (if entry.dest = some dest then some ((t (i + 1)).print json dest.size) else none)

/-- The routes of the locations in front of the first one that is not accepted. -/
def locationRoutes (compile : Option Bytes → Option Code) (json : Bytes) (t : ℕ → Tok)
    (locations : ℕ) : ℕ → ℕ → List (Route Code)
  | 0, _ => []
  | left + 1, j =>
      let location := locations + j + 1
      if (t location).type = .object ∧ Accepted json t location then
        let r := readLocation json t location
        insertRoute compile [] (json.drop r.path) r.nPath r.modulesChain true ++
          locationRoutes compile json t locations left (j + 1)
      else []

/-- The routes of the locations behind the key at `i`. -/
def arrayRoutes (compile : Option Bytes → Option Code) (json : Bytes) (t : ℕ → Tok) (i : ℕ) :
    List (Route Code) :=
  if (t (i + 1)).type = .array then locationRoutes compile json t (i + 1) (t (i + 1)).size 0 else []

/-- The routes that are added, if the search comes to `locations`. -/
def addedRoutes (compile : Option Bytes → Option Code) (json : Bytes) (t : ℕ → Tok) (n : ℕ) :
    List ConfigMap → List (Route Code)
  | [] => []
  | entry :: entries =>
      match firstMatch json t n entry.tokenName with
      | none => []
      | some i =>
          (if entry.dest = none then arrayRoutes compile json t i else []) ++
            addedRoutes compile json t n entries

theorem insertRoute_append (routes : List (Route Code)) (path : Bytes) (nPath : ℕ) (m : List Module)
    (regex : Bool) : insertRoute compile routes path nPath m regex =
      routes ++ insertRoute compile [] path nPath m regex := by
  simp [insertRoute]

theorem locationsLoop_added (locations left j : ℕ) (config : Config Code) :
    (locationsLoop compile json t locations left j config).2.routes =
      config.routes ++ locationRoutes compile json t locations left j := by
  -- on the locations: the first one that is refused is the last that is read
  induction left generalizing j config with
  | zero => exact (List.append_nil _).symm
  | succ left ih =>
      rw [locationsLoop, locationRoutes]
      dsimp only
      by_cases hobject : (t (locations + j + 1)).type = .object
      · by_cases haccepted : Accepted json t (locations + j + 1)
        · have hgoes := haccepted
          unfold Accepted at hgoes
          rw [if_pos hobject, if_neg hgoes, ih, if_pos ⟨hobject, haccepted⟩, insertRoute_append,
            List.append_assoc]
        · have hrefused := haccepted
          unfold Accepted at hrefused
          rw [if_pos hobject, if_pos (not_not.mp hrefused), if_neg fun h => haccepted h.2,
            List.append_nil]
      · rw [if_neg hobject, if_neg fun h => hobject h.1, List.append_nil]

theorem locationsParser_arrayRoutes (i : ℕ) (config : Config Code) :
    (locationsParser compile json t i config).2.routes =
      config.routes ++ arrayRoutes compile json t i := by
  unfold arrayRoutes
  by_cases harray : (t (i + 1)).type = .array
  · rw [locationsParser_routes harray, if_pos harray, locationsLoop_added]
  · rw [locationsParser, if_pos harray, if_neg harray, List.append_nil]

/-- Accepted locations have a route each. -/
theorem length_locationRoutes {locations left j : ℕ}
    (h : ∀ m < left, (t (locations + j + m + 1)).type = .object ∧
      Accepted json t (locations + j + m + 1)) :
    (locationRoutes compile json t locations left j).length = left := by
  induction left generalizing j with
  | zero => rfl
  | succ left ih =>
      have hrest := ih (j := j + 1) fun m hm => by
        have hlater := h (m + 1) (Nat.succ_lt_succ hm)
        rwa [show locations + j + (m + 1) + 1 = locations + (j + 1) + m + 1 by omega] at hlater
      rw [locationRoutes, if_pos (h 0 (Nat.succ_pos _)), List.length_append, hrest, insertRoute,
        List.nil_append, List.length_singleton, Nat.add_comm]

/-! ## The search -/

section Entries

variable (es : List ConfigMap) (hes : ∀ e ∈ es, e.required = true ∧ ∃ dest, e.dest = some dest)

include hes

theorem searchMap_get (dest : Dest) (config : Config Code) :
    (searchMap compile json t (n : ℤ) (es ++ [locationsEntry]) config).2.get dest =
      (setText json t n dest (es ++ [locationsEntry])).getD (config.get dest) := by
  induction es generalizing config with
  | nil =>
      have hget : ∀ i, (locationsParser compile json t i config).2.get dest = config.get dest := by
        intro i
        rw [locationsParser_fields]
        cases dest <;> rfl
      rw [List.nil_append, searchMap_locationsEntry, setText, locationsEntry]
      dsimp only
      cases firstMatch json t n (ascii "locations") with
      | none => rfl
      | some i =>
          dsimp only
          split
          · exact hget i
          · exact hget i
  | cons e es ih =>
      obtain ⟨hrequired, dest', hdest⟩ := hes e (List.mem_cons_self ..)
      rw [List.cons_append, searchMap_field hrequired hdest, setText]
      cases firstMatch json t n e.tokenName with
      | none => rfl
      | some i =>
          dsimp only
          rw [ih fun e' he' => hes e' (List.mem_cons_of_mem _ he'), hdest]
          -- a later name sets the field, or this one, or none
          cases setText json t n dest (es ++ [locationsEntry]) with
          | some text => rfl
          | none => cases dest <;> cases dest' <;> rfl

theorem searchMap_routes (config : Config Code) :
    (searchMap compile json t (n : ℤ) (es ++ [locationsEntry]) config).2.routes =
      config.routes ++ addedRoutes compile json t n (es ++ [locationsEntry]) := by
  induction es generalizing config with
  | nil =>
      rw [List.nil_append, searchMap_locationsEntry, addedRoutes, locationsEntry]
      dsimp only
      cases firstMatch json t n (ascii "locations") with
      | none => exact (List.append_nil _).symm
      | some i =>
          dsimp only
          rw [if_pos rfl, addedRoutes, List.append_nil]
          split
          · exact locationsParser_arrayRoutes i config
          · exact locationsParser_arrayRoutes i config
  | cons e es ih =>
      obtain ⟨hrequired, dest, hdest⟩ := hes e (List.mem_cons_self ..)
      rw [List.cons_append, searchMap_field hrequired hdest, addedRoutes, hdest]
      cases firstMatch json t n e.tokenName with
      | none => exact (List.append_nil _).symm
      | some i =>
          dsimp only
          rw [ih fun e' he' => hes e' (List.mem_cons_of_mem _ he'), if_neg (Option.some_ne_none dest),
            List.nil_append]
          cases dest <;> rfl

/-- There is one error. -/
theorem searchMap_fst_or (config : Config Code) :
    (searchMap compile json t (n : ℤ) (es ++ [locationsEntry]) config).1 = none ∨
      (searchMap compile json t (n : ℤ) (es ++ [locationsEntry]) config).1 = some (-1) := by
  induction es generalizing config with
  | nil =>
      rw [List.nil_append, searchMap_locationsEntry]
      cases firstMatch json t n (ascii "locations") with
      | none => exact Or.inr rfl
      | some i =>
          dsimp only
          split
          · exact Or.inl rfl
          · rename_i hneg
            -- `locations_parser` fails with -1
            rcases locationsParser_fst compile t json i config with hfail | hgoes
            · exact Or.inr (congrArg some hfail)
            · exact absurd hgoes.1 hneg
  | cons e es ih =>
      obtain ⟨hrequired, dest, hdest⟩ := hes e (List.mem_cons_self ..)
      rw [List.cons_append, searchMap_field hrequired hdest]
      cases firstMatch json t n e.tokenName with
      | none => exact Or.inr rfl
      | some i => exact ih (fun e' he' => hes e' (List.mem_cons_of_mem _ he')) _

end Entries

/-- Only the number of tokens counts. -/
theorem searchMap_toNat (r : ℤ) (entries : List ConfigMap) (config : Config Code) :
    searchMap compile json t r entries config =
      searchMap compile json t (r.toNat : ℤ) entries config := by
  induction entries generalizing config with
  | nil => rfl
  | cons entry entries ih =>
      rw [searchMap, searchMap, Int.toNat_natCast]
      simp only [ih]

theorem Config.ext_get {config config' : Config Code} (hget : ∀ dest, config.get dest = config'.get dest)
    (hroutes : config.routes = config'.routes) : config = config' := by
  obtain ⟨port, cert, key, routes⟩ := config
  obtain ⟨port', cert', key', routes'⟩ := config'
  have hport : port = port' := hget .listenPort
  have hcert : cert = cert' := hget .certFile
  have hkey : key = key' := hget .keyFile
  have hsame : routes = routes' := hroutes
  rw [hport, hcert, hkey, hsame]

/-- The configuration with the texts and the routes that a search leaves. -/
def Config.searched (config : Config Code) (text : Dest → Option Bytes) (routes : List (Route Code)) :
    Config Code where
  listenPort := (text .listenPort).getD config.listenPort
  certFile := (text .certFile).getD config.certFile
  keyFile := (text .keyFile).getD config.keyFile
  routes := config.routes ++ routes

@[simp] theorem Config.get_searched (config : Config Code) (text : Dest → Option Bytes)
    (routes : List (Route Code)) (dest : Dest) :
    (config.searched text routes).get dest = (text dest).getD (config.get dest) := by
  cases dest <;> rfl

@[simp] theorem Config.routes_searched (config : Config Code) (text : Dest → Option Bytes)
    (routes : List (Route Code)) : (config.searched text routes).routes = config.routes ++ routes :=
  rfl

/-- What the search of a block returns, and leaves. -/
theorem searchMap_eq (r : ℤ) (config : Config Code) :
    searchMap compile json t r configMap config =
      (if Loads json t r.toNat then none else some (-1),
        config.searched (fun dest => setText json t r.toNat dest configMap)
          (addedRoutes compile json t r.toNat configMap)) := by
  rw [searchMap_toNat]
  refine Prod.ext ?_ (Config.ext_get (fun dest => ?_) ?_)
  · have hor : (searchMap compile json t r.toNat configMap config).1 = none ∨
        (searchMap compile json t r.toNat configMap config).1 = some (-1) := by
      rw [configMap_eq]
      exact searchMap_fst_or _ (fun e => take_configMap) config
    split
    · rename_i hloads
      exact searchMap_none_iff.mpr hloads
    · rename_i hloads
      exact hor.resolve_left (mt searchMap_none_iff.mp hloads)
  · rw [Config.get_searched, configMap_eq]
    exact searchMap_get _ (fun e => take_configMap) dest config
  · rw [Config.routes_searched, configMap_eq]
    exact searchMap_routes _ (fun e => take_configMap) config

/-! ## Blocks without an error -/

/-- With no token behind the root nothing is found. -/
theorem firstMatch_few (hfew : n ≤ 1) (name : Bytes) : firstMatch json t n name = none := by
  have hnone : n - 1 = 0 := by omega
  rw [firstMatch, hnone]
  rfl

theorem not_loads_few (hfew : n ≤ 1) : ¬ Loads json t n := fun hloads =>
  hloads.found _ (List.mem_cons_self ..) (firstMatch_few hfew _)

/-- Without the first name no field is set. -/
theorem setText_eq_none (h : firstMatch json t n (ascii "listen_port") = none) (dest : Dest) :
    setText json t n dest configMap = none := by
  rw [configMap, setText, h]

theorem setText_listenPort_ne_none (h : firstMatch json t n (ascii "listen_port") ≠ none) :
    setText json t n .listenPort configMap ≠ none := by
  obtain ⟨i, hi⟩ := Option.ne_none_iff_exists'.mp h
  rw [configMap, setText, hi]
  simp

theorem addedRoutes_eq_nil (h : firstMatch json t n (ascii "listen_port") = none) :
    addedRoutes compile json t n configMap = [] := by
  rw [configMap, addedRoutes, h]

theorem exists_entry (dest : Dest) : ∃ entry ∈ configMap, entry.dest = some dest := by
  cases dest with
  | listenPort => exact ⟨_, List.mem_cons_self .., rfl⟩
  | certFile => exact ⟨_, List.mem_cons_of_mem _ (List.mem_cons_self ..), rfl⟩
  | keyFile => exact ⟨_, List.mem_cons_of_mem _ (List.mem_cons_of_mem _ (List.mem_cons_self ..)), rfl⟩

/-- The four names of a block that loads. -/
theorem Loads.names (hloads : Loads json t n) : ∃ port cert key locations,
    firstMatch json t n (ascii "listen_port") = some port ∧
      firstMatch json t n (ascii "cert_file") = some cert ∧
      firstMatch json t n (ascii "key_file") = some key ∧
      firstMatch json t n (ascii "locations") = some locations := by
  have hfound : ∀ entry ∈ configMap, ∃ i, firstMatch json t n entry.tokenName = some i :=
    fun entry hentry => Option.ne_none_iff_exists'.mp (hloads.found entry hentry)
  simp only [configMap, List.forall_mem_cons] at hfound
  obtain ⟨⟨port, hport⟩, ⟨cert, hcert⟩, ⟨key, hkey⟩, ⟨locations, hlocations⟩, -⟩ := hfound
  exact ⟨port, cert, key, locations, hport, hcert, hkey, hlocations⟩

/-- The fields of a block that loads. -/
theorem Loads.setText (hloads : Loads json t n) {entry : ConfigMap} (hentry : entry ∈ configMap)
    {dest : Dest} (hdest : entry.dest = some dest) :
    Conf.setText json t n dest configMap = fieldText json t n entry.tokenName dest := by
  obtain ⟨port, cert, key, locations, hport, hcert, hkey, hlocations⟩ := hloads.names
  simp only [configMap, List.mem_cons, List.not_mem_nil, or_false] at hentry
  rcases hentry with rfl | rfl | rfl | rfl <;> cases hdest <;>
    simp [configMap, Conf.setText, fieldText, hport, hcert, hkey, hlocations]

theorem Loads.setText_ne_none (hloads : Loads json t n) (dest : Dest) :
    Conf.setText json t n dest configMap ≠ none := by
  obtain ⟨entry, hentry, hdest⟩ := exists_entry dest
  rw [hloads.setText hentry hdest, fieldText, Ne, Option.map_eq_none_iff]
  exact hloads.found entry hentry

/-- A block that loads adds no route exactly if its array is empty. -/
theorem Loads.addedRoutes_eq_nil_iff (hloads : Loads json t n) (compile : Option Bytes → Option Code) :
    addedRoutes compile json t n configMap = [] ↔ NoLocations json t n := by
  obtain ⟨port, cert, key, i, hport, hcert, hkey, hi⟩ := hloads.names
  obtain ⟨harray, haccepted⟩ := hloads.locations i hi
  have hadded : addedRoutes compile json t n configMap = arrayRoutes compile json t i := by
    simp [configMap, addedRoutes, hport, hcert, hkey, hi]
  have hlength : (locationRoutes compile json t (i + 1) (t (i + 1)).size 0).length =
      (t (i + 1)).size := length_locationRoutes haccepted
  rw [hadded, arrayRoutes, if_pos harray, ← List.length_eq_zero_iff, hlength]
  constructor
  · intro hzero k hk
    obtain rfl : i = k := Option.some.inj (hi.symm.trans hk)
    exact hzero
  · exact fun hempty => hempty i hi

end Gfhttpd.Conf
