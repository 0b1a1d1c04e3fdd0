import Gfhttpd.Config.Routes
import Mathlib.Data.List.Basic

/-!
# What `match_route` selects and strips (`main/config/routes.c`)

`match_route` tries the routes with a compiled pattern in the order of the table.  For the first one
that matches it strips the path: it takes the length of the whole match minus that of the last group
for an offset into the path, and goes back from there to a slash.

- `matchRoute_selected`: what is left of the loop at the first match
- `LastSlash`: the last slash at or before an offset
- `matchRoute_strips_iff`: the matches for which the slash is the one at or before the group
-/

namespace Gfhttpd.Conf

variable {Code : Type}

/-! ## The loop -/

/-- The loop goes on behind this route. -/
def Skipped (pcre2Match : Pcre2Match Code) (s : Bytes) (r : Route Code) : Prop :=
  ∀ re, r.re = some re → (pcre2Match re s).ret = PCRE2_ERROR_NOMATCH

/-- Routes that are skipped set `ret`, if one of them has a pattern. -/
theorem matchRouteLoop_skip {pcre2Match : Pcre2Match Code} {s : Bytes} {before : List (Route Code)}
    (hskip : ∀ r ∈ before, Skipped pcre2Match s r) (rm : RouteMatch Code) (ret : Option ℤ)
    (rest : List (Route Code)) :
    matchRouteLoop pcre2Match s rm ret (before ++ rest) =
      matchRouteLoop pcre2Match s rm
        (if ∃ r ∈ before, r.re ≠ none then some PCRE2_ERROR_NOMATCH else ret) rest := by
  induction before generalizing ret with
  | nil => simp
  | cons r before ih =>
      have hrest := ih (fun r' hr' => hskip r' (List.mem_cons_of_mem _ hr'))
      rw [List.cons_append, matchRouteLoop]
      cases hre : r.re with
      | none =>
          dsimp only
          rw [hrest]
          simp [hre]
      | some re =>
          have hret := hskip r (List.mem_cons_self ..) re hre
          have hneg : PCRE2_ERROR_NOMATCH < 0 := by decide
          dsimp only
          rw [hret, if_pos hneg, if_pos rfl, hrest]
          simp [hre]

/-- The first route that matches. -/
theorem matchRoute_selected {pcre2Match : Pcre2Match Code} {s : Bytes} {before : List (Route Code)}
    (hskip : ∀ r ∈ before, Skipped pcre2Match s r) {r : Route Code} {re : Code} (hre : r.re = some re)
    (hmatch : 0 ≤ (pcre2Match re s).ret) (after : List (Route Code)) (rm : RouteMatch Code) :
    matchRoute pcre2Match (before ++ r :: after) s rm =
      if (pcre2Match re s).ret = 0 then ⟨some 0, { rm with route := some r }, false⟩
      else
        match strippedPath s (pcre2Match re s) with
        | none => ⟨some 0, { rm with route := some r }, true⟩
        | some p => ⟨some 0, ⟨some r, some p⟩, false⟩ := by
  rw [matchRoute, matchRouteLoop_skip hskip, matchRouteLoop, hre]
  dsimp only
  refine (if_neg ?_).trans rfl
  omega

/-! ## The last slash -/

/-- `m` is the last slash of `s` at or before the offset `n`. -/
structure LastSlash (s : Bytes) (n m : ℕ) : Prop where
  slash : s[m]? = some 47
  le : m ≤ n
  last : ∀ k, m < k → k ≤ n → s[k]? ≠ some 47

theorem LastSlash.unique {s : Bytes} {n m m' : ℕ} (h : LastSlash s n m) (h' : LastSlash s n m') :
    m = m' := by
  rcases Nat.lt_trichotomy m m' with hlt | heq | hgt
  · exact absurd h'.slash (h.last m' hlt h'.le)
  · exact heq
  · exact absurd h.slash (h'.last m hgt h.le)

/-- Two offsets have the same slash exactly if there is none behind the lower one, up to the higher
one. -/
theorem LastSlash.iff_of_le {s : Bytes} {n n' m : ℕ} (h : LastSlash s n m) (hle : n ≤ n') :
    LastSlash s n' m ↔ ∀ k, n < k → k ≤ n' → s[k]? ≠ some 47 := by
  constructor
  · intro h' k hlow hhigh
    exact h'.last k (Nat.lt_of_le_of_lt h.le hlow) hhigh
  · intro hnone
    refine ⟨h.slash, Nat.le_trans h.le hle, fun k hlow hhigh => ?_⟩
    by_cases hk : k ≤ n
    · exact h.last k hlow hk
    · exact hnone k (Nat.lt_of_not_le hk) hhigh

/-- The backward scan of a string that begins with a slash. -/
theorem previousSlash_lastSlash {s : Bytes} (hroot : s.head? = some 47) (n : ℕ) :
    ∃ m, previousSlash s n = some m ∧ LastSlash s n m := by
  induction n with
  | zero =>
      have hzero : s[0]? = some 47 := by rw [← List.head?_eq_getElem?, hroot]
      refine ⟨0, ?_, hzero, Nat.le_refl 0, fun k hlow hhigh => absurd hhigh (by omega)⟩
      rw [previousSlash, if_pos hzero]
  | succ n ih =>
      by_cases hslash : s[n + 1]? = some 47
      · refine ⟨n + 1, ?_, hslash, Nat.le_refl _, fun k hlow hhigh => absurd hhigh (by omega)⟩
        rw [previousSlash, if_pos hslash]
      · obtain ⟨m, hscan, hlast⟩ := ih
        refine ⟨m, ?_, hlast.slash, Nat.le_succ_of_le hlast.le, fun k hlow hhigh => ?_⟩
        · rw [previousSlash, if_neg hslash, hscan]
        · rcases Nat.le_succ_iff.mp hhigh with hk | rfl
          · exact hlast.last k hlow hk
          · exact hslash

/-! ## The stripped path -/

/-- The offset `match_route` goes to: the length of the whole match minus that of the last group, as
an `int`. -/
def lengthDifference (md : MatchData) : ℤ :=
  let group := md.ovector.getD (md.ret - 1).toNat (0, 0)
  let full := md.ovector.getD 0 (0, 0)
  wrap32 ((full.2 - full.1) - (group.2 - group.1))

/-- Where the last group starts. -/
def groupStart (md : MatchData) : ℕ :=
  (md.ovector.getD (md.ret - 1).toNat (0, 0)).1

/-- The differences of `size_t` lengths, cut to an `int`. -/
theorem wrap32_toSizeT_sub (a b : ℤ) :
    wrap32 (toSizeT ((toSizeT a : ℤ) - toSizeT b)) = wrap32 (a - b) := by
  unfold wrap32 toSizeT
  omega

theorem strippedPath_eq {s : Bytes} {md : MatchData} (hgroup : 1 < md.ret) :
    strippedPath s md = if 0 ≤ lengthDifference md ∧ lengthDifference md ≤ s.length then
      (previousSlash s (lengthDifference md).toNat).map fun n => s.drop n else none := by
  have hidx : ¬ (md.ret - 1).toNat = 0 := by omega
  unfold strippedPath lengthDifference
  simp only [if_neg hidx, wrap32_toSizeT_sub]

/-- There is a slash in the path at or before the offset that `match_route` goes to. -/
def StaysInside (s : Bytes) (md : MatchData) : Prop :=
  1 < md.ret → 0 ≤ lengthDifference md ∧ lengthDifference md ≤ s.length ∧
    ∃ m : ℕ, (m : ℤ) ≤ lengthDifference md ∧ s[m]? = some 47

theorem previousSlash_eq_none_iff (s : Bytes) (n : ℕ) :
    previousSlash s n = none ↔ ∀ m ≤ n, s[m]? ≠ some 47 := by
  induction n with
  | zero =>
      unfold previousSlash
      split
      · rename_i hslash
        exact iff_of_false (by simp) fun hnone => hnone 0 (Nat.le_refl 0) hslash
      · rename_i hslash
        refine iff_of_true rfl fun m hm => ?_
        obtain rfl := Nat.le_zero.mp hm
        exact hslash
  | succ n ih =>
      unfold previousSlash
      split
      · rename_i hslash
        exact iff_of_false (by simp) fun hnone => hnone (n + 1) (Nat.le_refl _) hslash
      · rename_i hslash
        rw [ih]
        constructor
        · intro hnone m hm
          rcases Nat.le_succ_iff.mp hm with hle | rfl
          · exact hnone m hle
          · exact hslash
        · exact fun hnone m hm => hnone m (Nat.le_succ_of_le hm)

theorem strippedPath_eq_none_iff {s : Bytes} {md : MatchData} (hmatch : 0 < md.ret) :
    strippedPath s md = none ↔ ¬ StaysInside s md := by
  by_cases hgroup : 1 < md.ret
  · rw [strippedPath_eq hgroup, StaysInside, forall_prop_of_true hgroup]
    by_cases hin : 0 ≤ lengthDifference md ∧ lengthDifference md ≤ s.length
    · -- the scan runs out of the path where there is no slash in front of the offset
      rw [if_pos hin, Option.map_eq_none_iff, previousSlash_eq_none_iff]
      simp only [hin.1, hin.2, true_and, not_exists, not_and]
      constructor
      · exact fun hnone m hm => hnone m (by omega)
      · exact fun hnone m hm => hnone m (by omega)
    · rw [if_neg hin]
      exact iff_of_true rfl fun h => hin ⟨h.1, h.2.1⟩
  · -- a match without a group
    have hidx : (md.ret - 1).toNat = 0 := by omega
    have hroot : strippedPath s md = some ROOT := by
      unfold strippedPath
      simp only [hidx, if_true]
    rw [hroot]
    exact iff_of_false (by simp) fun hnot => hnot fun h => absurd h hgroup

/-- The offset and the start of the group are in the same segment of the path: the offset is in the
path, and there is no slash between the two. -/
def SameSegment (s : Bytes) (offset : ℤ) (start : ℕ) : Prop :=
  0 ≤ offset ∧ offset ≤ s.length ∧
    ∀ k : ℕ, min offset start < k → k ≤ max offset start → s[k]? ≠ some 47

/-- `match_route` went to the last slash at or before the start of the group, inside the path. -/
def StripsAt (s : Bytes) (start : ℕ) (m : MatchRoute Code) : Prop :=
  m.outOfBounds = false ∧ ∃ n, LastSlash s start n ∧ m.rm.strippedPath = some (s.drop n)

/-- **For a match with a group the stripped path starts at the last slash at or before the group
exactly if the length of the match minus that of the group is an offset in the same segment as the
group's start.** -/
theorem matchRoute_strips_iff {pcre2Match : Pcre2Match Code} {s : Bytes}
    {before : List (Route Code)} (hskip : ∀ r ∈ before, Skipped pcre2Match s r) {r : Route Code}
    {re : Code} (hre : r.re = some re) (hgroup : 1 < (pcre2Match re s).ret)
    (hroot : s.head? = some 47) (after : List (Route Code)) (rm : RouteMatch Code) :
    StripsAt s (groupStart (pcre2Match re s))
        (matchRoute pcre2Match (before ++ r :: after) s rm) ↔
      SameSegment s (lengthDifference (pcre2Match re s)) (groupStart (pcre2Match re s)) := by
  rw [matchRoute_selected hskip hre (by omega), if_neg (by omega), strippedPath_eq hgroup]
  generalize lengthDifference (pcre2Match re s) = offset
  generalize groupStart (pcre2Match re s) = start
  unfold StripsAt SameSegment
  by_cases hin : 0 ≤ offset ∧ offset ≤ s.length
  · -- the scan ends at the last slash at or before the offset
    obtain ⟨n, rfl⟩ := Int.eq_ofNat_of_zero_le hin.1
    obtain ⟨m, hscan, hm⟩ := previousSlash_lastSlash hroot n
    rw [if_pos hin, Int.toNat_natCast, hscan]
    have hsame : (∃ m', LastSlash s start m' ∧ s.drop m = s.drop m') ↔ LastSlash s start m := by
      constructor
      · rintro ⟨m', hm', hdrop⟩
        -- both are offsets of a byte
        have hlt : m < s.length := (List.getElem?_eq_some_iff.mp hm.slash).1
        have hlt' : m' < s.length := (List.getElem?_eq_some_iff.mp hm'.slash).1
        have hlength := congrArg List.length hdrop
        rw [List.length_drop, List.length_drop] at hlength
        obtain rfl : m = m' := by omega
        exact hm'
      · exact fun h => ⟨m, h, rfl⟩
    simp only [Option.map_some, true_and, hin.1, hin.2, Option.some_inj]
    rw [hsame]
    -- it is the slash of the group if there is none between the two offsets
    rcases Nat.le_total n start with hle | hle
    · rw [hm.iff_of_le hle, Int.min_eq_left (by omega), Int.max_eq_right (by omega)]
      simp only [Int.ofNat_lt, Int.ofNat_le]
    · rw [Int.min_eq_right (by omega), Int.max_eq_left (by omega)]
      simp only [Int.ofNat_lt, Int.ofNat_le]
      obtain ⟨m', -, hm'⟩ := previousSlash_lastSlash hroot start
      constructor
      · intro h
        exact (h.iff_of_le hle).mp hm
      · intro hnone
        have hboth := (hm'.iff_of_le hle).mpr hnone
        rwa [← hboth.unique hm]
  · -- the pointer has left the path
    rw [if_neg hin]
    refine iff_of_false ?_ fun h => hin ⟨h.1, h.2.1⟩
    rintro ⟨hbounds, -⟩
    cases hbounds

/-- A match from the start of the path whose last group ends where the match ends: the difference of
the lengths is where the group starts. -/
theorem sameSegment_of_anchored {s : Bytes} {md : MatchData} {start stop : ℕ}
    (hfull : md.ovector.getD 0 (0, 0) = (0, stop))
    (hlast : md.ovector.getD (md.ret - 1).toNat (0, 0) = (start, stop))
    (hin : start ≤ stop ∧ stop ≤ s.length) (hsmall : s.length < 2 ^ 31) :
    SameSegment s (lengthDifference md) (groupStart md) := by
  have hoffset : lengthDifference md = start := by
    unfold lengthDifference
    rw [hfull, hlast]
    dsimp only
    rw [wrap32_of_lt (by omega) (by omega)]
    omega
  have hstart : groupStart md = start := by rw [groupStart, hlast]
  rw [hoffset, hstart]
  refine ⟨by omega, by omega, fun k hlow hhigh => ?_⟩
  rw [Int.min_self] at hlow
  rw [Int.max_self] at hhigh
  omega

/-- A route for modules. -/
def moduleRoute (path : Bytes) : Route Unit :=
  ⟨path, path.length, [⟨ascii "hello", .golang⟩], some ()⟩

/-- `^/golang(/.*)` on `/golang/hello`. -/
theorem matchRoute_strips_anchored : StripsAt (ascii "/golang/hello") 7
    (matchRoute (fun _ _ => ⟨2, [(0, 13), (7, 13)]⟩) [moduleRoute (ascii "^/golang(/.*)")]
      (ascii "/golang/hello") .null) := by
  have hskip : ∀ r ∈ ([] : List (Route Unit)),
      Skipped (fun _ _ => ⟨2, [(0, 13), (7, 13)]⟩) (ascii "/golang/hello") r := by simp
  apply (matchRoute_strips_iff hskip (r := moduleRoute (ascii "^/golang(/.*)")) rfl (by decide)
    (by decide) [] .null).mpr
  have hin : 7 ≤ 13 ∧ 13 ≤ (ascii "/golang/hello").length := by decide
  exact sameSegment_of_anchored rfl rfl hin (by decide)

/-- `golang(/.*)` on `/x/golang/hello`: the difference of the lengths is 6 and leads to the slash at
2, not to the one at 9. -/
theorem matchRoute_strips_unanchored : ¬ StripsAt (ascii "/x/golang/hello") 9
    (matchRoute (fun _ _ => ⟨2, [(3, 15), (9, 15)]⟩) [moduleRoute (ascii "golang(/.*)")]
      (ascii "/x/golang/hello") .null) := by
  rintro ⟨-, n, hn, hstripped⟩
  have hnine : LastSlash (ascii "/x/golang/hello") 9 9 :=
    ⟨by decide, Nat.le_refl 9, fun k hlow hhigh => absurd hhigh (by omega)⟩
  rw [hn.unique hnine] at hstripped
  exact absurd hstripped (by decide)

end Gfhttpd.Conf
