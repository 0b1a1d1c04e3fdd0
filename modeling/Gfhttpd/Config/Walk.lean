import Gfhttpd.Config.Load
import Mathlib.Data.List.Induction

/-!
# The walk over a location object (`main/config/config.c`)

The loop over `h` in `locations_parser` looks at tokens, but counts to the number of keys.  It goes
on by one token, and by two behind a token that reads `location` or `modules`, whether that is a key
or not.

- `visits`: the offsets the loop looks at
- `readLocation_visits`: the last of them that reads a name decides
- `mem_visits`: which offsets are looked at
-/

namespace Gfhttpd.Conf

open Http

variable {json : Bytes} {t : ℕ → Tok} {location : ℕ}

/-! ## The offsets -/

/-- The token at an offset in the location object reads `name`. -/
def reads (json : Bytes) (t : ℕ → Tok) (location : ℕ) (name : Bytes) (h : ℕ) : Bool :=
  jsoneq json (t (location + 1 + h)) name

/-- The token reads one of the two names. -/
def readsKey (json : Bytes) (t : ℕ → Tok) (location h : ℕ) : Bool :=
  reads json t location (ascii "location") h || reads json t location (ascii "modules") h

/-- The offsets the loop looks at from `h` on. -/
def visitsFrom (json : Bytes) (t : ℕ → Tok) (location : ℕ) : ℕ → ℕ → List ℕ
  | 0, _ => []
  | fuel + 1, h =>
      if h ≤ (t location).size then
        h :: visitsFrom json t location fuel (if readsKey json t location h then h + 2 else h + 1)
      else []

/-- The offsets the loop looks at. -/
def visits (json : Bytes) (t : ℕ → Tok) (location : ℕ) : List ℕ :=
  visitsFrom json t location ((t location).size + 1) 0

/-- One iteration of the loop. -/
def visit (json : Bytes) (t : ℕ → Tok) (location : ℕ) (r : Location) (h : ℕ) : Location :=
  if reads json t location (ascii "location") h then
    { r with
      path := (t (location + 1 + h + 1)).start
      nPath := (t (location + 1 + h + 1)).stop - (t (location + 1 + h + 1)).start }
  else if reads json t location (ascii "modules") h then
    { r with modulesChain := readModules json t (location + 1 + h + 1) }
  else r

theorem readLocationLoop_eq (fuel h : ℕ) (r : Location) :
    readLocationLoop json t location fuel h r =
      (visitsFrom json t location fuel h).foldl (visit json t location) r := by
  induction fuel generalizing h r with
  | zero => rfl
  | succ fuel ih =>
      rw [readLocationLoop, visitsFrom]
      split
      · rw [List.foldl_cons]
        unfold visit readsKey reads
        dsimp only
        cases jsoneq json (t (location + 1 + h)) (ascii "location") with
        | true =>
            -- the value behind a key is not looked at
            simp only [if_true, Bool.true_or]
            exact ih _ _
        | false =>
            cases jsoneq json (t (location + 1 + h)) (ascii "modules") with
            | true =>
                simp only [if_true, Bool.false_or, Bool.false_eq_true, if_false]
                exact ih _ _
            | false =>
                simp only [Bool.or_self, Bool.false_eq_true, if_false]
                exact ih _ _
      · rfl

/-- A token reads one name at most. -/
theorem reads_unique {h : ℕ} {name name' : Bytes} (hname : reads json t location name h = true)
    (hname' : reads json t location name' h = true) : name = name' := by
  unfold reads jsoneq at hname hname'
  simp only [Bool.and_eq_true, beq_iff_eq] at hname hname'
  rw [← hname.2.2, hname'.2.2]

/-! ## The last of them -/

/-- The last offset the loop looks at that reads `name`. -/
def lastRead (json : Bytes) (t : ℕ → Tok) (location : ℕ) (name : Bytes) : Option ℕ :=
  ((visits json t location).filter (reads json t location name)).getLast?

/-- What is left after the loop: the token behind the last one that reads `location`, and the modules
behind the last one that reads `modules`. -/
theorem foldl_visit (hs : List ℕ) :
    hs.foldl (visit json t location) ⟨0, 0, []⟩ =
      { path := match (hs.filter (reads json t location (ascii "location"))).getLast? with
          | some h => (t (location + 1 + h + 1)).start
          | none => 0
        nPath := match (hs.filter (reads json t location (ascii "location"))).getLast? with
          | some h => (t (location + 1 + h + 1)).stop - (t (location + 1 + h + 1)).start
          | none => 0
        modulesChain := match (hs.filter (reads json t location (ascii "modules"))).getLast? with
          | some h => readModules json t (location + 1 + h + 1)
          | none => [] } := by
  induction hs using List.reverseRecOn with
  | nil => rfl
  | append_singleton hs h ih =>
      rw [List.foldl_append, ih, List.filter_append, List.filter_append]
      cases hloc : reads json t location (ascii "location") h with
      | true =>
          -- what is read later replaces what was read before
          have hmod : reads json t location (ascii "modules") h = false := by
            by_contra hmod
            rw [Bool.not_eq_false] at hmod
            exact absurd (reads_unique hloc hmod) (by decide)
          simp [visit, hloc, hmod]
      | false =>
          cases hmod : reads json t location (ascii "modules") h with
          | true => simp [visit, hloc, hmod]
          | false => simp [visit, hloc, hmod]

theorem readLocation_visits (json : Bytes) (t : ℕ → Tok) (location : ℕ) :
    readLocation json t location =
      { path := match lastRead json t location (ascii "location") with
          | some h => (t (location + 1 + h + 1)).start
          | none => 0
        nPath := match lastRead json t location (ascii "location") with
          | some h => (t (location + 1 + h + 1)).stop - (t (location + 1 + h + 1)).start
          | none => 0
        modulesChain := match lastRead json t location (ascii "modules") with
          | some h => readModules json t (location + 1 + h + 1)
          | none => [] } := by
  rw [readLocation, readLocationLoop_eq]
  exact foldl_visit _

/-! ## Which offsets are looked at -/

theorem le_of_mem_visitsFrom {fuel h k : ℕ} (hk : k ∈ visitsFrom json t location fuel h) :
    h ≤ k ∧ k ≤ (t location).size := by
  induction fuel generalizing h with
  | zero => cases hk
  | succ fuel ih =>
      unfold visitsFrom at hk
      split at hk
      · rename_i hsize
        rcases List.mem_cons.mp hk with rfl | hk
        · exact ⟨Nat.le_refl _, hsize⟩
        · have hrest := ih hk
          split at hrest
          · omega
          · omega
      · cases hk

/-- An offset up to the number of keys is looked at, or it is right behind one that is looked at and
reads a key. -/
theorem mem_visitsFrom {fuel h k : ℕ} (hfuel : (t location).size + 1 ≤ fuel + h) (hk : h ≤ k)
    (hsize : k ≤ (t location).size) :
    k ∈ visitsFrom json t location fuel h ∨
      ∃ j ∈ visitsFrom json t location fuel h, j + 1 = k ∧ readsKey json t location j = true := by
  induction fuel generalizing h with
  | zero => omega
  | succ fuel ih =>
      rw [visitsFrom, if_pos (by omega)]
      by_cases heq : k = h
      · -- the loop is at the offset
        rw [heq]
        exact Or.inl (List.mem_cons_self ..)
      · by_cases hskipped : h + 1 = k ∧ readsKey json t location h = true
        · exact Or.inr ⟨h, List.mem_cons_self .., hskipped⟩
        · -- the next step does not go past `k`
          have hnext : (if readsKey json t location h then h + 2 else h + 1) ≤ k := by
            split
            · rename_i hreads
              have hne : h + 1 ≠ k := fun hnext => hskipped ⟨hnext, hreads⟩
              omega
            · omega
          have hroom : (t location).size + 1 ≤
              fuel + (if readsKey json t location h then h + 2 else h + 1) := by
            split
            · omega
            · omega
          rcases ih hroom hnext with hmem | ⟨j, hj, hstep⟩
          · exact Or.inl (List.mem_cons_of_mem _ hmem)
          · exact Or.inr ⟨j, List.mem_cons_of_mem _ hj, hstep⟩

theorem mem_visits {k : ℕ} (hsize : k ≤ (t location).size) :
    k ∈ visits json t location ∨
      ∃ j ∈ visits json t location, j + 1 = k ∧ readsKey json t location j = true :=
  mem_visitsFrom (Nat.le_refl _) (Nat.zero_le k) hsize

/-- A name that one token reads only is read last there, if it is in reach. -/
theorem lastRead_eq_some_iff {name : Bytes} {k : ℕ} (hk : reads json t location name k = true)
    (honly : ∀ h ≤ (t location).size, reads json t location name h = true → h = k)
    (hprev : ∀ j, j + 1 = k → readsKey json t location j = false) {h : ℕ} :
    lastRead json t location name = some h ↔ h = k ∧ k ≤ (t location).size := by
  have hall : ∀ h ∈ (visits json t location).filter (reads json t location name),
      h = k ∧ h ≤ (t location).size := by
    intro h hh
    obtain ⟨hvisit, hreads⟩ := List.mem_filter.mp hh
    have hle := (le_of_mem_visitsFrom hvisit).2
    exact ⟨honly h hle hreads, hle⟩
  constructor
  · intro hlast
    obtain ⟨heq, hle⟩ := hall h (List.mem_of_getLast? hlast)
    exact ⟨heq, heq ▸ hle⟩
  · rintro ⟨rfl, hle⟩
    have hvisit : h ∈ visits json t location := by
      rcases mem_visits hle with hvisit | ⟨j, -, hj, hreads⟩
      · exact hvisit
      · rw [hprev j hj] at hreads
        cases hreads
    have hmem : h ∈ (visits json t location).filter (reads json t location name) :=
      List.mem_filter.mpr ⟨hvisit, hk⟩
    have hne := List.ne_nil_of_mem hmem
    have hgot := List.getLast?_eq_some_getLast hne
    rw [lastRead, hgot, (hall _ (List.getLast_mem hne)).1]

/-! ## The locations -/

theorem locationsParser_routes {Code : Type} {compile : Option Bytes → Option Code} {i : ℕ}
    (harray : (t (i + 1)).type = .array) {config : Config Code} :
    (locationsParser compile json t i config).2.routes =
      (locationsLoop compile json t (i + 1) (t (i + 1)).size 0 config).2.routes := by
  rw [locationsParser, if_neg (not_not.mpr harray)]
  split
  · rename_i hloop
    rw [hloop]
  · rename_i hloop
    rw [hloop]

end Gfhttpd.Conf
