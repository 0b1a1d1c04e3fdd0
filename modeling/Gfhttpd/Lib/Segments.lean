import Mathlib.Data.List.Infix
import Mathlib.Data.Nat.Notation

/-!
# Paths as lists of segments

A path is split into segments at a separator, and followed segment by segment from a directory.
Records that end with a separator each are split in the same way.

- `mem_tail_splitOn_iff`: which segments a path has, by what occurs in it
- `splitOn_eq_records_iff`: when splitting gives back the records that were written
- `follow`: where a path leads; there is no way out of the directory it starts from
- `follow_eq_some`: a path without a segment that goes up stays below that directory
-/

namespace Segments

variable {α : Type*} [DecidableEq α]

/-! ## The segments of a path -/

/-- The first segment is the whole path, or is followed by a separator. -/
theorem head_splitOn_eq_iff {a : α} {w : List α} (hw : a ∉ w) (s : List α) :
    (s.splitOn a).head? = some w ↔ s = w ∨ (w ++ [a]) <+: s := by
  constructor
  · intro hhead
    obtain ⟨rest, hsplit⟩ := List.head?_eq_some_iff.mp hhead
    -- the segments joined again are the path
    have hjoin : [a].intercalate (s.splitOn a) = s := List.intercalate_splitOn a
    rw [hsplit] at hjoin
    cases rest with
    | nil => exact Or.inl (by simpa using hjoin.symm)
    | cons v rest =>
        rw [List.intercalate_cons_cons] at hjoin
        exact Or.inr ⟨_, hjoin⟩
  · rintro (rfl | ⟨rest, rfl⟩)
    · rw [List.splitOn_eq_singleton hw]
      rfl
    · rw [List.append_assoc, List.singleton_append, List.splitOn_append_cons_self_of_not_mem hw]
      rfl

/-- A word is a segment behind the first one exactly if it occurs between two separators, or behind
the last one. -/
theorem mem_tail_splitOn_iff {a : α} {w : List α} (hw : a ∉ w) (s : List α) :
    w ∈ (s.splitOn a).tail ↔ (a :: (w ++ [a])) <:+: s ∨ (a :: w) <:+ s := by
  induction s with
  | nil => simp [List.splitOn_nil]
  | cons c s ih =>
      by_cases hc : c = a
      · -- the segments of the rest are all behind a separator now
        subst hc
        have htail : ((c :: s).splitOn c).tail = s.splitOn c := by
          rw [List.splitOn_cons_eq_if_modifyHead, if_pos (beq_self_eq_true c), List.tail_cons]
        have hsplit : w ∈ s.splitOn c ↔
            (s.splitOn c).head? = some w ∨ w ∈ (s.splitOn c).tail := by
          obtain ⟨v, vs, hvs⟩ := List.exists_cons_of_ne_nil (List.splitOn_ne_nil c s)
          rw [hvs, List.mem_cons, List.head?_cons, List.tail_cons, Option.some_inj, eq_comm]
        rw [htail, hsplit, head_splitOn_eq_iff hw, ih, List.infix_cons_iff, List.suffix_cons_iff,
          List.prefix_cons_inj, List.cons_inj_right, eq_comm (a := w)]
        -- the first segment of the rest, and those behind it
        rw [or_comm (a := s = w), or_or_or_comm]
      · -- the first byte belongs to the first segment
        have htail : ((c :: s).splitOn a).tail = (s.splitOn a).tail := by
          rw [List.splitOn_cons_eq_if_modifyHead, if_neg (by simpa using hc)]
          cases s.splitOn a with
          | nil => rfl
          | cons v vs => rfl
        have hprefix : ¬ (a :: (w ++ [a])) <+: (c :: s) := by
          rintro ⟨rest, heq⟩
          exact hc (List.cons.inj heq).1.symm
        have hsuffix : a :: w ≠ c :: s := fun heq => hc (List.cons.inj heq).1.symm
        rw [htail, ih, List.infix_cons_iff, List.suffix_cons_iff, or_iff_right hprefix,
          or_iff_right hsuffix]

/-! ## Records -/

/-- No segment has the separator in it. -/
theorem not_mem_of_mem_splitOn {a : α} {w s : List α} (h : w ∈ s.splitOn a) : a ∉ w := by
  induction s generalizing w with
  | nil =>
      rw [List.splitOn_nil, List.mem_singleton] at h
      rw [h]
      exact List.not_mem_nil
  | cons c s ih =>
      obtain ⟨v, vs, hvs⟩ := List.exists_cons_of_ne_nil (List.splitOn_ne_nil a s)
      rw [List.splitOn_cons_eq_if_modifyHead] at h
      by_cases hc : c = a
      · rw [if_pos (by simpa using hc), List.mem_cons] at h
        rcases h with rfl | h
        · exact List.not_mem_nil
        · exact ih h
      · rw [if_neg (by simpa using hc), hvs, List.modifyHead_cons, List.mem_cons] at h
        rcases h with rfl | h
        · rw [List.mem_cons, not_or]
          exact ⟨Ne.symm hc, ih (hvs ▸ List.mem_cons_self ..)⟩
        · exact ih (hvs ▸ List.mem_cons_of_mem v h)

/-- The records, each with a separator behind it. -/
def terminated (a : α) (records : List (List α)) : List α :=
  records.flatMap fun r => r ++ [a]

omit [DecidableEq α] in
theorem intercalate_records (a : α) (records : List (List α)) :
    [a].intercalate (records ++ [[]]) = terminated a records := by
  induction records with
  | nil => rfl
  | cons r records ih =>
      rw [List.cons_append, List.intercalate_cons_of_ne_nil (by simp), ih]
      rfl

/-- Splitting gives back the records exactly if they were written, and have no separator in them. -/
theorem splitOn_eq_records_iff {a : α} {s : List α} {records : List (List α)} :
    s.splitOn a = records ++ [[]] ↔ s = terminated a records ∧ ∀ r ∈ records, a ∉ r := by
  constructor
  · intro hsplit
    refine ⟨?_, fun r hr => ?_⟩
    · rw [← intercalate_records, ← hsplit, List.intercalate_splitOn]
    · exact not_mem_of_mem_splitOn (hsplit ▸ List.mem_append_left _ hr)
  · rintro ⟨rfl, hrecords⟩
    rw [← intercalate_records]
    refine List.splitOn_intercalate a (fun r hr => ?_) (by simp)
    rcases List.mem_append.mp hr with hr | hr
    · exact hrecords r hr
    · rw [List.mem_singleton.mp hr]
      exact List.not_mem_nil

/-! ## Following a path -/

section Follow

variable {Seg : Type*} [DecidableEq Seg]

/-- Where a path leads from a directory, which is the list of the names down to it, the last name
first.  A segment in `here` stays, `up` goes up; the directory at the start has nothing above it. -/
def follow (here : List Seg) (up : Seg) : List Seg → List Seg → Option (List Seg)
  | [], dir => some dir
  | seg :: segs, dir =>
      if seg ∈ here then follow here up segs dir
      else if seg = up then dir.tail?.bind fun above => follow here up segs above
      else follow here up segs (seg :: dir)

/-- Without a segment that goes up the path leads down from the directory. -/
theorem follow_eq_some {here : List Seg} {up : Seg} {segs : List Seg} (hup : up ∉ segs)
    (dir : List Seg) :
    follow here up segs dir = some ((segs.filter (· ∉ here)).reverse ++ dir) := by
  induction segs generalizing dir with
  | nil => rfl
  | cons seg segs ih =>
      rw [List.mem_cons, not_or] at hup
      by_cases hhere : seg ∈ here
      · rw [follow, if_pos hhere, ih hup.2, List.filter_cons_of_neg (by simpa using hhere)]
      · rw [follow, if_neg hhere, if_neg (Ne.symm hup.1), ih hup.2,
          List.filter_cons_of_pos (by simpa using hhere), List.reverse_cons, List.append_assoc]
        rfl

end Follow

end Segments
