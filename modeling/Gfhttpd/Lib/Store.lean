import Mathlib.Data.List.Nodup
import Mathlib.Data.List.Pairwise
import Mathlib.Data.Nat.Notation

/-!
# Blocks and linked lists in a store

Two general facts about a flat store.

- `Apart`: two blocks, each a start address and a length, have no byte in common
- `Path next null p l`: following `next` from `p` visits exactly the nodes of `l` and then
  `null`.  A path reads `next` only at its own nodes, which is what lets an update elsewhere
  keep it (`Path.congr`), and a node that is linked behind the last one ends it (`Path.snoc`)
-/

namespace Store

/-! ## Blocks -/

/-- The blocks `[a.1, a.1 + a.2)` and `[b.1, b.1 + b.2)` have no address in common. -/
def Apart (a b : ℕ × ℕ) : Prop :=
  a.1 + a.2 ≤ b.1 ∨ b.1 + b.2 ≤ a.1

instance (a b : ℕ × ℕ) : Decidable (Apart a b) :=
  inferInstanceAs (Decidable (_ ∨ _))

theorem Apart.symm {a b : ℕ × ℕ} (h : Apart a b) : Apart b a :=
  Or.symm h

instance : Std.Symm Apart where
  symm _ _ := Apart.symm

/-- `a` lies inside `b`. -/
def Inside (a b : ℕ × ℕ) : Prop :=
  b.1 ≤ a.1 ∧ a.1 + a.2 ≤ b.1 + b.2

/-- Parts of blocks that are apart are apart. -/
theorem Apart.mono {a a' b b' : ℕ × ℕ} (h : Apart a b) (ha : Inside a' a) (hb : Inside b' b) :
    Apart a' b' := by
  simp only [Apart, Inside] at *
  omega

/-- Two members of a list whose members are pairwise apart are apart or equal. -/
theorem apart_of_mem {l : List (ℕ × ℕ)} (hl : l.Pairwise Apart) {a b : ℕ × ℕ}
    (ha : a ∈ l) (hb : b ∈ l) : a = b ∨ Apart a b := by
  by_cases hab : a = b
  · exact Or.inl hab
  · exact Or.inr (hl.forall ha hb hab)

/-! ## Linked lists -/

section Path

variable {α : Type*} {next next' : α → α} {null : α}

/-- Following `next` from `p` visits the nodes of the list, in order, and then `null`. -/
def Path (next : α → α) (null : α) : α → List α → Prop
  | p, [] => p = null
  | p, a :: l => p = a ∧ a ≠ null ∧ Path next null (next a) l

@[simp] theorem path_nil {p : α} : Path next null p [] ↔ p = null := Iff.rfl

@[simp] theorem path_cons {p a : α} {l : List α} :
    Path next null p (a :: l) ↔ p = a ∧ a ≠ null ∧ Path next null (next a) l := Iff.rfl

/-- A path that starts at a node is not empty. -/
theorem Path.exists_cons {p : α} {l : List α} (h : Path next null p l) (hp : p ≠ null) :
    ∃ l', l = p :: l' ∧ Path next null (next p) l' := by
  cases l with
  | nil => exact absurd h hp
  | cons a l =>
      obtain ⟨rfl, -, hrest⟩ := h
      exact ⟨l, rfl, hrest⟩

theorem Path.eq_nil {l : List α} (h : Path next null null l) : l = [] := by
  cases l with
  | nil => rfl
  | cons a l =>
      obtain ⟨rfl, ha, -⟩ := h
      exact absurd rfl ha

/-- There is one way to follow `next`. -/
theorem Path.unique {p : α} {l l' : List α} (h : Path next null p l) (h' : Path next null p l') :
    l = l' := by
  induction l generalizing p l' with
  | nil =>
      obtain rfl : p = null := h
      exact h'.eq_nil.symm
  | cons a l ih =>
      obtain ⟨rfl, ha, hrest⟩ := h
      obtain ⟨l', rfl, hrest'⟩ := h'.exists_cons ha
      rw [ih hrest hrest']

/-- A path reads `next` only at its own nodes. -/
theorem Path.congr {p : α} {l : List α} (h : Path next null p l)
    (heq : ∀ a ∈ l, next' a = next a) : Path next' null p l := by
  induction l generalizing p with
  | nil => exact h
  | cons a l ih =>
      obtain ⟨rfl, ha, hrest⟩ := h
      refine ⟨rfl, ha, ?_⟩
      -- the step from `p` is the same, and the rest goes by the hypothesis
      rw [heq p (List.mem_cons_self ..)]
      exact ih hrest fun b hb => heq b (List.mem_cons_of_mem _ hb)

/-- From each of its nodes on, a path is a path. -/
theorem Path.from_node {p a : α} {l₁ l₂ : List α} (h : Path next null p (l₁ ++ a :: l₂)) :
    Path next null a (a :: l₂) := by
  induction l₁ generalizing p with
  | nil =>
      obtain ⟨-, ha, hrest⟩ := h
      exact ⟨rfl, ha, hrest⟩
  | cons b l₁ ih => exact ih h.2.2

theorem Path.ne_null {p a : α} {l : List α} (h : Path next null p l) (ha : a ∈ l) : a ≠ null := by
  obtain ⟨l₁, l₂, rfl⟩ := List.append_of_mem ha
  exact h.from_node.2.1

/-- A path that came back to a node would not end. -/
theorem Path.nodup {p : α} {l : List α} (h : Path next null p l) : l.Nodup := by
  induction l generalizing p with
  | nil => exact List.nodup_nil
  | cons a l ih =>
      obtain ⟨-, ha, hrest⟩ := h
      refine List.nodup_cons.mpr ⟨fun hmem => ?_, ih hrest⟩
      obtain ⟨l₁, l₂, rfl⟩ := List.append_of_mem hmem
      have hsame := hrest.from_node.2.2.unique hrest
      have hlength := congrArg List.length hsame
      simp only [List.length_append, List.length_cons] at hlength
      omega

/-- A node is linked behind the last one, or becomes the first. -/
theorem Path.snoc [DecidableEq α] {p a : α} {l : List α} (h : Path next null p l) (ha : a ≠ null)
    (hend : next' a = null) (hlast : ∀ b ∈ l.getLast?, next' b = a)
    (heq : ∀ b ∈ l, b ∉ l.getLast? → next' b = next b) :
    Path next' null (if p = null then a else p) (l ++ [a]) := by
  induction l generalizing p with
  | nil =>
      rw [if_pos (path_nil.mp h)]
      exact ⟨rfl, ha, hend⟩
  | cons b l ih =>
      have hnodup := List.nodup_cons.mp h.nodup
      obtain ⟨rfl, hb, hrest⟩ := h
      rw [if_neg hb]
      refine ⟨rfl, hb, ?_⟩
      cases l with
      | nil =>
          rw [hlast p rfl]
          exact ⟨rfl, ha, hend⟩
      | cons c l =>
          have hsame : (p :: c :: l).getLast? = (c :: l).getLast? := List.getLast?_cons_cons
          rw [hsame] at hlast heq
          have hpath := ih hrest hlast fun d hd => heq d (List.mem_cons_of_mem _ hd)
          -- the node in front is not the last one, and keeps its link
          have hnext : next' p = next p :=
            heq p (List.mem_cons_self ..) fun hmem => hnodup.1 (List.mem_of_getLast? hmem)
          obtain ⟨hc, hc0, -⟩ := hrest
          rw [hc, if_neg hc0] at hpath
          rw [hnext, hc]
          exact hpath

end Path

end Store
