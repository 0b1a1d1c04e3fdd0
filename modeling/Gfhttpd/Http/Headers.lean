import Gfhttpd.Http.Stream
import Gfhttpd.Lib.HandleTable
import Gfhttpd.Lib.Transition

/-!
# Header tables as finite maps (`main/http_stream/headers.c`)

`insert_header` looks for the name and `add_header` does not, so a table stays a map as long as
nothing is added under a name that it has.

- `headerMachine`: any calls of the functions of a header table, beside the map they stand for
- `IsMap`: the table is that map
- `headers_isMap_iff`: it is throughout a run exactly if every `add_header` has a new name
-/

namespace Gfhttpd.Http

open HandleTable Transition

/-! ## Calls -/

/-- A name without a NUL, passed with its length. -/
abbrev HeaderName := { name : Bytes // (0 : UInt8) ∉ name }

/-- A value of a header, and its `n_value`. -/
abbrev HeaderValue := Bytes × ℕ

/-- A call of one of the functions. -/
inductive HeaderCall where
  | insertHeader (name : HeaderName) (value : HeaderValue)
  /-- with the result of `create_header` -/
  | addHeader (name : HeaderName) (value : HeaderValue)
  /-- with the entry at this place of the table -/
  | deleteHeader (place : ℕ)
  | getHeader (name : HeaderName)

/-- A table, and the values given by the calls, one for every name. -/
structure HeaderRun where
  headers : List Header
  values : Finmap fun _ : Bytes => HeaderValue

/-- No header. -/
def HeaderRun.init : HeaderRun := ⟨[], ∅⟩

/-- `HASH_DEL` of an entry that the table has not is no call. -/
def headerStep (s : HeaderRun) : HeaderCall → Option HeaderRun
  | .insertHeader name value =>
      some
        { headers := insertHeader s.headers name.1 name.1.length value.1 value.2
          values := s.values.insert name.1 value }
  | .addHeader name value =>
      some
        { headers := addHeader s.headers (createHeader name.1 name.1.length value.1 value.2)
          values := s.values.insert name.1 value }
  | .deleteHeader place =>
      match s.headers[place]? with
      | none => none
      | some h =>
          some
            { headers := deleteHeader s.headers place
              values := s.values.erase h.name }
  | .getHeader _ => some s

def headerMachine : Machine HeaderRun HeaderCall := ⟨headerStep⟩

/-- What an entry says of its name. -/
def Header.given (h : Header) : HeaderValue := (h.value, h.nValue)

/-- One entry for each name, a look-up finds what was given last, and the length is the number of
names. -/
structure IsMap (s : HeaderRun) : Prop where
  unique : (s.headers.map Header.name).Nodup
  lookup : ∀ name : HeaderName,
    (getHeader s.headers name.1).map Header.given = s.values.lookup name.1
  length : lengthHeader s.headers = s.values.keys.card

/-- `add_header` has a name that is not found. -/
def AddsNew (s : HeaderRun) : HeaderCall → Prop
  | .addHeader name _ => getHeader s.headers name.1 = none
  | _ => True

instance (s : HeaderRun) (e : HeaderCall) : Decidable (AddsNew s e) := by
  cases e <;> unfold AddsNew <;> infer_instance

/-! ## Entries whose key is their name -/

/-- Every entry was added with the length of its name. -/
def Keyed (headers : List Header) : Prop :=
  ∀ h ∈ headers, h.nName = h.name.length

section Keyed

variable {headers : List Header}

theorem Keyed.hasKey_iff (hkeyed : Keyed headers) {h : Header} (hmem : h ∈ headers) (name : Bytes) :
    h.hasKey name = true ↔ h.name = name := by
  simp only [Header.hasKey, Bool.and_eq_true, beq_iff_eq, hkeyed h hmem]
  exact ⟨fun hkey => hkey.2, fun hname => ⟨congrArg List.length hname, hname⟩⟩

theorem Keyed.getHeader_eq_none_iff (hkeyed : Keyed headers) (name : Bytes) :
    getHeader headers name = none ↔ name ∉ headers.map Header.name := by
  simp only [getHeader, List.find?_eq_none, List.mem_reverse, List.mem_map, not_exists, not_and]
  exact forall₂_congr fun h hmem => not_congr (hkeyed.hasKey_iff hmem name)

theorem Keyed.mem_of_getHeader (hkeyed : Keyed headers) {name : Bytes} {h : Header}
    (hget : getHeader headers name = some h) : h ∈ headers ∧ h.name = name := by
  unfold getHeader at hget
  have hmem := List.mem_reverse.mp (List.mem_of_find?_eq_some hget)
  have hkey := List.find?_some hget
  exact ⟨hmem, (hkeyed.hasKey_iff hmem name).mp hkey⟩

/-- A look-up in the table is one in the map. -/
theorem Keyed.lookup (hkeyed : Keyed headers) {values : Finmap fun _ : Bytes => HeaderValue}
    (hmaps : Maps Header.name Header.given values headers) (name : Bytes) :
    (getHeader headers name).map Header.given = values.lookup name := by
  cases hget : getHeader headers name with
  | none =>
      symm
      rw [Option.map_none, Option.eq_none_iff_forall_ne_some]
      intro value hvalue
      obtain ⟨h, hmem, hname, -⟩ := (hmaps name value).mp hvalue
      exact (hkeyed.getHeader_eq_none_iff name).mp hget (hname ▸ List.mem_map_of_mem hmem)
  | some h =>
      obtain ⟨hmem, hname⟩ := hkeyed.mem_of_getHeader hget
      exact ((hmaps name h.given).mpr ⟨h, hmem, hname, rfl⟩).symm

/-- The entry with this name has this value from now on. -/
def overwrite (name : Bytes) (value : HeaderValue) (h : Header) : Header :=
  if h.name = name then { h with value := value.1, nValue := value.2 } else h

theorem overwrite_name (name : Bytes) (value : HeaderValue) (h : Header) :
    (overwrite name value h).name = h.name := by
  unfold overwrite
  split <;> rfl

theorem overwrite_nName (name : Bytes) (value : HeaderValue) (h : Header) :
    (overwrite name value h).nName = h.nName := by
  unfold overwrite
  split <;> rfl

theorem Keyed.setHeader_eq (hkeyed : Keyed headers) (hunique : (headers.map Header.name).Nodup)
    (name : Bytes) (value : HeaderValue) :
    setHeader headers name value.1 value.2 = headers.map (overwrite name value) := by
  induction headers with
  | nil => rfl
  | cons h rest ih =>
      have hrest : Keyed rest := fun h' hmem => hkeyed h' (List.mem_cons_of_mem _ hmem)
      obtain ⟨hfresh, hunique⟩ := List.nodup_cons.mp hunique
      have hkey := hkeyed.hasKey_iff (List.mem_cons_self ..) name
      unfold setHeader
      rw [List.map_cons, overwrite]
      by_cases hname : h.name = name
      · -- no other entry has the name
        subst hname
        have hnone := (hrest.getHeader_eq_none_iff h.name).mpr hfresh
        rw [if_pos rfl, if_pos (by simp [hkey.mpr rfl, hnone])]
        have hothers : ∀ h' ∈ rest, overwrite h.name value h' = h' := by
          intro h' hmem
          rw [overwrite, if_neg]
          intro hsame
          exact hfresh (hsame ▸ List.mem_map_of_mem hmem)
        rw [List.map_congr_left hothers, List.map_id']
      · -- the entry is passed over
        rw [if_neg hname, if_neg (by simp [mt hkey.mp hname]), ih hrest hunique]

end Keyed

/-! ## One call -/

/-- What every call keeps as long as the names are unique. -/
structure HeaderInv (s : HeaderRun) : Prop where
  keyed : Keyed s.headers
  maps : Maps Header.name Header.given s.values s.headers

/-- A table with this invariant is the map exactly if no two entries have one name. -/
theorem HeaderInv.isMap_iff {s : HeaderRun} (h : HeaderInv s) :
    IsMap s ↔ (s.headers.map Header.name).Nodup :=
  ⟨IsMap.unique, fun hunique =>
    ⟨hunique, fun name => h.keyed.lookup h.maps name.1, (h.maps.card_keys hunique).symm⟩⟩

/-- A new entry. -/
theorem HeaderInv.add {s : HeaderRun} (h : HeaderInv s) (name : HeaderName) (value : HeaderValue)
    (hnew : name.1 ∉ s.headers.map Header.name) :
    HeaderInv
      { headers := s.headers ++ [createHeader name.1 name.1.length value.1 value.2]
        values := s.values.insert name.1 value } := by
  refine ⟨fun h' hmem => ?_, ?_⟩
  · rcases List.mem_append.mp hmem with hmem | hmem
    · exact h.keyed h' hmem
    · rw [List.mem_singleton.mp hmem]
      rfl
  · -- the name has no value in the map yet
    apply h.maps.insert (a := createHeader name.1 name.1.length value.1 value.2)
    intro h' hmem hname
    exact hnew (List.mem_map.mpr ⟨h', hmem, hname⟩)

/-- A new value. -/
theorem HeaderInv.overwrite {s : HeaderRun} (h : HeaderInv s)
    (hunique : (s.headers.map Header.name).Nodup) (name : HeaderName) (value : HeaderValue)
    {entry : Header} (hmem : entry ∈ s.headers) (hname : entry.name = name.1) :
    HeaderInv
      { headers := s.headers.map (overwrite name.1 value)
        values := s.values.insert name.1 value } := by
  refine ⟨fun h' hmem' => ?_, maps_map_iff.mpr ?_⟩
  · obtain ⟨old, hold, rfl⟩ := List.mem_map.mp hmem'
    rw [overwrite_name, overwrite_nName]
    exact h.keyed old hold
  · have hkeys : Header.name ∘ Http.overwrite name.1 value = Header.name :=
      funext (overwrite_name name.1 value)
    have hgiven : value = (Header.given ∘ Http.overwrite name.1 value) entry := by
      simp [Http.overwrite, hname, Header.given]
    have hupdate : Maps Header.name (Header.given ∘ Http.overwrite name.1 value)
        (s.values.insert entry.name ((Header.given ∘ Http.overwrite name.1 value) entry))
        s.headers := by
      apply h.maps.update hunique hmem
      intro other hother hne
      -- the value of another entry stays
      have hdiff : other.name ≠ name.1 := fun hsame =>
        hne (List.inj_on_of_nodup_map hunique hother hmem (hsame.trans hname.symm))
      simp [Http.overwrite, hdiff]
    rw [← hgiven, hname] at hupdate
    rw [hkeys]
    exact hupdate

/-- A header at the end of the table, with a name that is not in it. -/
theorem IsMap.names_append {s : HeaderRun} (hmap : IsMap s) (name : HeaderName)
    (value : HeaderValue) (hnew : name.1 ∉ s.headers.map Header.name) :
    ((s.headers ++ [createHeader name.1 name.1.length value.1 value.2]).map Header.name).Nodup := by
  rw [List.map_append]
  exact hmap.unique.append (List.nodup_singleton _) (by simpa [createHeader] using hnew)

/-- `insert_header` looks for the name, and adds or overwrites. -/
theorem HeaderInv.insertHeader {s : HeaderRun} (h : HeaderInv s) (hmap : IsMap s)
    (name : HeaderName) (value : HeaderValue) :
    HeaderInv
      { headers := insertHeader s.headers name.1 name.1.length value.1 value.2
        values := s.values.insert name.1 value } ∧
    ((insertHeader s.headers name.1 name.1.length value.1 value.2).map Header.name).Nodup := by
  unfold Http.insertHeader
  cases hget : getHeader s.headers name.1 with
  | none =>
      have hnew := (h.keyed.getHeader_eq_none_iff name.1).mp hget
      exact ⟨h.add name value hnew, hmap.names_append name value hnew⟩
  | some entry =>
      obtain ⟨hmem, hname⟩ := h.keyed.mem_of_getHeader hget
      rw [h.keyed.setHeader_eq hmap.unique]
      refine ⟨h.overwrite hmap.unique name value hmem hname, ?_⟩
      have hnames : Header.name ∘ Http.overwrite name.1 value = Header.name :=
        funext (overwrite_name name.1 value)
      rw [List.map_map, hnames]
      exact hmap.unique

/-- `add_header` does not look. -/
theorem addHeader_isMap {s : HeaderRun} (h : HeaderInv s) (hmap : IsMap s) (name : HeaderName)
    (value : HeaderValue) :
    (IsMap
        { headers := addHeader s.headers (createHeader name.1 name.1.length value.1 value.2)
          values := s.values.insert name.1 value } →
      HeaderInv
        { headers := addHeader s.headers (createHeader name.1 name.1.length value.1 value.2)
          values := s.values.insert name.1 value }) ∧
    (IsMap
        { headers := addHeader s.headers (createHeader name.1 name.1.length value.1 value.2)
          values := s.values.insert name.1 value } ↔ getHeader s.headers name.1 = none) := by
  -- a name that is there would be in the table twice
  have hnew : IsMap
      { headers := addHeader s.headers (createHeader name.1 name.1.length value.1 value.2)
        values := s.values.insert name.1 value } → name.1 ∉ s.headers.map Header.name := by
    intro hmap' hold
    have hunique := hmap'.unique
    rw [addHeader, List.map_append] at hunique
    exact (List.disjoint_of_nodup_append hunique) hold (List.mem_singleton.mpr rfl)
  refine ⟨fun hmap' => h.add name value (hnew hmap'), fun hmap' => ?_, fun hnone => ?_⟩
  · exact (h.keyed.getHeader_eq_none_iff name.1).mpr (hnew hmap')
  · have hfresh := (h.keyed.getHeader_eq_none_iff name.1).mp hnone
    exact (h.add name value hfresh).isMap_iff.mpr (hmap.names_append name value hfresh)

/-- `delete_header` takes one entry out. -/
theorem HeaderInv.deleteHeader {s : HeaderRun} (h : HeaderInv s) (hmap : IsMap s) {place : ℕ}
    (hlt : place < s.headers.length) :
    HeaderInv
      { headers := deleteHeader s.headers place
        values := s.values.erase s.headers[place].name } := by
  have herase : Http.deleteHeader s.headers place = s.headers.erase s.headers[place] :=
    (hmap.unique.of_map.erase_getElem place hlt).symm
  rw [herase]
  exact ⟨fun h' hmem => h.keyed h' (List.mem_of_mem_erase hmem),
    h.maps.erase hmap.unique (List.getElem_mem hlt)⟩

/-- After a call the table is the map exactly if the call adds no name that is there. -/
theorem headerStep_isMap {s s' : HeaderRun} {e : HeaderCall} (h : HeaderInv s) (hmap : IsMap s)
    (hstep : headerStep s e = some s') :
    (IsMap s' → HeaderInv s') ∧ (IsMap s' ↔ AddsNew s e) := by
  cases e with
  | insertHeader name value =>
      obtain rfl := Option.some.inj hstep
      obtain ⟨hinv, hunique⟩ := h.insertHeader hmap name value
      exact ⟨fun _ => hinv, iff_of_true (hinv.isMap_iff.mpr hunique) trivial⟩
  | addHeader name value =>
      obtain rfl := Option.some.inj hstep
      exact addHeader_isMap h hmap name value
  | deleteHeader place =>
      rw [headerStep] at hstep
      split at hstep
      · cases hstep
      · next entry hentry =>
          obtain rfl := Option.some.inj hstep
          obtain ⟨hlt, rfl⟩ := List.getElem?_eq_some_iff.mp hentry
          have hinv := h.deleteHeader hmap hlt
          refine ⟨fun _ => hinv, iff_of_true (hinv.isMap_iff.mpr ?_) trivial⟩
          exact hmap.unique.sublist ((List.eraseIdx_sublist _ _).map _)
  | getHeader name =>
      obtain rfl := Option.some.inj hstep
      exact ⟨fun _ => h, iff_of_true hmap trivial⟩

/-! ## Runs -/

theorem HeaderInv.init : HeaderInv HeaderRun.init := by
  refine ⟨fun h hmem => ?_, Maps.nil _ _⟩
  cases hmem

/-- **In every run of calls the table is the map of the values given last exactly if every
`add_header` of the run has a name that is not in the table.** -/
theorem headers_isMap_iff {calls : List HeaderCall} {s : HeaderRun}
    (hexec : headerMachine.exec HeaderRun.init calls = some s) :
    headerMachine.Throughout IsMap HeaderRun.init calls ↔
      headerMachine.Meets AddsNew HeaderRun.init calls := by
  have hstart : IsMap HeaderRun.init := HeaderInv.init.isMap_iff.mpr List.nodup_nil
  apply headerMachine.throughout_iff_meets _ HeaderInv.init hstart hexec
  intro s e s' h hmap hstep
  exact headerStep_isMap h hmap hstep

/-- The name `a`. -/
def nameA : HeaderName := ⟨ascii "a", by decide⟩

theorem headers_isMap_added : ∃ s,
    headerMachine.exec HeaderRun.init
        [.addHeader nameA (ascii "1", 1), .insertHeader nameA (ascii "2", 1), .deleteHeader 0,
          .addHeader nameA (ascii "3", 1)] = some s ∧
      headerMachine.Throughout IsMap HeaderRun.init
        [.addHeader nameA (ascii "1", 1), .insertHeader nameA (ascii "2", 1), .deleteHeader 0,
          .addHeader nameA (ascii "3", 1)] := by
  have hexec : headerMachine.exec HeaderRun.init
      [.addHeader nameA (ascii "1", 1), .insertHeader nameA (ascii "2", 1), .deleteHeader 0,
        .addHeader nameA (ascii "3", 1)] = some _ := rfl
  exact ⟨_, hexec, (headers_isMap_iff hexec).mpr (by decide)⟩

/-- A name that is there is added once more: two entries have it. -/
theorem headers_not_isMap_added_twice : ∃ s,
    headerMachine.exec HeaderRun.init
        [.insertHeader nameA (ascii "1", 1), .addHeader nameA (ascii "2", 1)] = some s ∧
      ¬ headerMachine.Throughout IsMap HeaderRun.init
        [.insertHeader nameA (ascii "1", 1), .addHeader nameA (ascii "2", 1)] := by
  have hexec : headerMachine.exec HeaderRun.init
      [.insertHeader nameA (ascii "1", 1), .addHeader nameA (ascii "2", 1)] = some _ := rfl
  refine ⟨_, hexec, fun hall => ?_⟩
  have hunique := (Machine.Throughout.final headerMachine hall hexec).unique
  exact absurd hunique (by decide)

end Gfhttpd.Http
