import Gfhttpd.Lib.Segments
import Gfhttpd.Router.Spec

/-!
# The paths `check_path` accepts (`main/router/router.c`)

`check_path` looks for `/./` and `/../` anywhere in the path, and for `/.` and `/..` at its end.  In
a path that begins with a slash these are the segments `.` and `..`.

- `checkPath_iff`: the accepted paths, by their segments
- `Confined`: the path of a file below the working directory
- `checkPath_confines`: a file is opened below the working directory only
-/

namespace Gfhttpd.Router

open Http Conf Segments

variable {Code : Type}

/-! ## Substrings -/

theorem strstr_iff (sub s : Bytes) : strstr sub s = true ↔ sub <:+: s := by
  induction s with
  | nil => rw [strstr, List.isEmpty_iff, List.infix_nil]
  | cons c s ih =>
      rw [strstr, Bool.or_eq_true, List.isPrefixOf_iff_prefix, ih, List.infix_cons_iff]

theorem endsWith_iff (s sub : Bytes) : endsWith s sub = true ↔ sub <:+ s := by
  unfold endsWith
  split
  · rename_i hlt
    refine iff_of_false Bool.false_ne_true fun hsuffix => ?_
    exact absurd hsuffix.length_le (Nat.not_le.mpr hlt)
  · rw [beq_iff_eq, List.suffix_iff_eq_drop, eq_comm]

/-! ## Segments -/

/-- The segment `.`. -/
def DOT : Bytes := ascii "."

/-- The segment `..`. -/
def DOTDOT : Bytes := ascii ".."

/-- The segments of a path. -/
def segments (path : Bytes) : List Bytes :=
  path.splitOn 47

theorem segments_slash (path : Bytes) : segments (47 :: path) = [] :: segments path := by
  unfold segments
  rw [List.splitOn_cons_eq_if_modifyHead, if_pos (beq_self_eq_true _)]

/-- What `check_path` looks for: the segment occurs in the path. -/
theorem mem_segments_iff {seg : Bytes} (hseg : 47 ∉ seg) (hne : seg ≠ []) {path : Bytes}
    (hroot : path.head? = some 47) :
    seg ∈ segments path ↔
      strstr (47 :: (seg ++ [47])) path = true ∨ endsWith path (47 :: seg) = true := by
  rw [strstr_iff, endsWith_iff, ← mem_tail_splitOn_iff hseg]
  obtain ⟨rest, rfl⟩ := List.head?_eq_some_iff.mp hroot
  -- in front of the leading slash there is the empty segment only
  rw [segments_slash, List.mem_cons, or_iff_right hne]
  show _ ↔ seg ∈ (segments (47 :: rest)).tail
  rw [segments_slash, List.tail_cons]

/-- The segments behind the leading slashes are segments of the path. -/
theorem segments_dropWhile_subset (path : Bytes) :
    ∀ seg ∈ segments (path.dropWhile (· == 47)), seg ∈ segments path := by
  induction path with
  | nil => exact fun seg hseg => hseg
  | cons c path ih =>
      by_cases hc : c = 47
      · subst hc
        intro seg hseg
        -- a leading slash has nothing but an empty segment in front of it
        rw [List.dropWhile_cons_of_pos (by decide)] at hseg
        rw [segments_slash]
        exact List.mem_cons_of_mem _ (ih seg hseg)
      · rw [List.dropWhile_cons_of_neg (by simpa using hc)]
        exact fun seg hseg => hseg

/-! ## Accepted paths -/

/-- The accepted paths. -/
theorem checkPath_iff (path : Bytes) :
    checkPath path = true ↔ path.head? = some 47 ∧ 92 ∉ path ∧
      ∀ seg ∈ segments path, seg ≠ DOT ∧ seg ≠ DOTDOT := by
  -- the tests of `check_path`, in pairs that look for one segment
  have hparts : checkPath path = true ↔ path.head? = some 47 ∧ 92 ∉ path ∧
      ¬ (strstr (ascii "/../") path = true ∨ endsWith path (ascii "/..") = true) ∧
      ¬ (strstr (ascii "/./") path = true ∨ endsWith path (ascii "/.") = true) := by
    simp only [checkPath, strchr, Bool.and_eq_true, beq_iff_eq, Bool.not_eq_true', not_or,
      Bool.not_eq_true, List.contains_eq_mem, decide_eq_false_iff_not]
    tauto
  rw [hparts, and_congr_right_iff]
  intro hroot
  have hdot : DOT ∈ segments path ↔
      strstr (ascii "/./") path = true ∨ endsWith path (ascii "/.") = true :=
    mem_segments_iff (by decide) (by decide) hroot
  have hdotdot : DOTDOT ∈ segments path ↔
      strstr (ascii "/../") path = true ∨ endsWith path (ascii "/..") = true :=
    mem_segments_iff (by decide) (by decide) hroot
  rw [← hdot, ← hdotdot, and_congr_right_iff]
  intro _
  constructor
  · rintro ⟨hup, hhere⟩ seg hseg
    constructor
    · rintro rfl
      exact hhere hseg
    · rintro rfl
      exact hup hseg
  · intro hall
    exact ⟨fun hup => (hall _ hup).2 rfl, fun hhere => (hall _ hhere).1 rfl⟩

/-! ## The file that is opened -/

/-- A relative path that never leaves the directory it is resolved from: following its segments
one by one, none of them goes up from there.  An empty segment and `.` stay. -/
def Confined (path : Bytes) : Prop :=
  path.head? ≠ some 47 ∧
    ∀ pre, pre <+: segments path → (follow [[], DOT] DOTDOT pre []).isSome = true

/-- What is left of an accepted path without its leading slashes. -/
theorem confined_of_checkPath {path : Bytes} (haccepted : checkPath path = true) :
    Confined (path.dropWhile (· == 47)) := by
  obtain ⟨-, -, hsegments⟩ := (checkPath_iff path).mp haccepted
  constructor
  · intro hslash
    -- `dropWhile` stops at a byte that is no slash
    have hhead := List.head?_dropWhile_not (· == 47) path
    rw [hslash] at hhead
    exact absurd hhead (by decide)
  · intro pre hpre
    have hup : DOTDOT ∉ pre := by
      intro hmem
      exact (hsegments _ (segments_dropWhile_subset path _ (hpre.subset hmem))).2 rfl
    rw [follow_eq_some hup]
    rfl

/-- `check_path` is the law about segments, and what `root_router` opens for an accepted `url`
lies below the working directory. -/
theorem checkPath_confines (path : Bytes) :
    (checkPath path = true ↔ path.head? = some 47 ∧ 92 ∉ path ∧
      ∀ seg ∈ segments path, seg ≠ DOT ∧ seg ≠ DOTDOT) ∧
    (checkPath path = true → ∀ (Code : Type) (loop : Bool) (routes : List (Route Code))
      (io : RouterIO Code) (hs : HttpStream) (w : World), hs.request.url = some path →
      ∃ es, (rootRouter loop routes io hs w).world.log = w.log ++ es ∧
        ∀ rel, .openFile rel ∈ es → Confined rel) := by
  refine ⟨checkPath_iff path, fun haccepted Code loop routes io hs w hurl => ?_⟩
  obtain ⟨-, es, hes, hlog⟩ := rootRouter_frame loop routes io hs w
  refine ⟨es, hlog, fun rel hopen => ?_⟩
  -- the only file that is opened is the `url` without its leading slashes
  have hrel : path.dropWhile (· == 47) = rel := by
    have hrouting := hes _ hopen
    rw [IsRouting, hurl] at hrouting
    exact Option.some.inj hrouting
  rw [← hrel]
  exact confined_of_checkPath haccepted

/-- Two leading slashes, two more in the middle, and segments that only look like `..`. -/
theorem checkPath_confines_file : checkPath (ascii "//a//..b/c..") = true ∧
    Confined (ascii "a//..b/c..") := by
  have haccepted : checkPath (ascii "//a//..b/c..") = true := by decide
  refine ⟨haccepted, ?_⟩
  let hs : HttpStream :=
    { HttpStream.zero with
      request := { HttpStream.zero.request with url := some (ascii "//a//..b/c..") } }
  obtain ⟨es, hlog, hopened⟩ := (checkPath_confines (ascii "//a//..b/c..")).2 haccepted Unit true []
    (servesFile []) hs World.init rfl
  apply hopened
  have hfile : Effect.openFile (ascii "a//..b/c..") ∈
      (rootRouter true [] (servesFile [] : RouterIO Unit) hs World.init).world.log := by decide
  rw [hlog] at hfile
  exact hfile

end Gfhttpd.Router
