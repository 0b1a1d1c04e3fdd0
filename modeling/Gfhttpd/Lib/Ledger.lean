import Mathlib.Data.List.Count
import Mathlib.Data.List.Nodup
import Mathlib.Data.List.Perm.Basic

/-!
# Ledgers of releases

What was acquired has to be given back: `owed` lists the releases that are due, one for each
acquisition, `paid` the calls that were made.

- `Settled`: everything that is owed is paid exactly once, and nothing else is paid
- `Settled.append`, `Settled.map`, `Settled.filterMap`: ledgers put together, and parts of them
- `settled_replicate_iff`: entries that are paid a number of times
-/

namespace Ledger

variable {ρ σ : Type*}

/-- Everything that is owed is paid exactly once, and nothing else is paid. -/
def Settled (owed paid : List ρ) : Prop :=
  paid.Perm owed

theorem Settled.refl (owed : List ρ) : Settled owed owed :=
  List.Perm.refl owed

theorem Settled.append {owed paid owed' paid' : List ρ} (h : Settled owed paid)
    (h' : Settled owed' paid') : Settled (owed ++ owed') (paid ++ paid') :=
  List.Perm.append h h'

theorem Settled.map (f : ρ → σ) {owed paid : List ρ} (h : Settled owed paid) :
    Settled (owed.map f) (paid.map f) :=
  List.Perm.map f h

/-- The entries of one kind settle among themselves. -/
theorem Settled.filterMap (f : ρ → Option σ) {owed paid : List ρ} (h : Settled owed paid) :
    Settled (owed.filterMap f) (paid.filterMap f) :=
  List.Perm.filterMap f h

/-- Different entries, each paid a number of times. -/
theorem settled_replicate_iff [DecidableEq ρ] {owed : List ρ} (hnodup : owed.Nodup)
    (times : ρ → ℕ) :
    Settled owed (owed.flatMap fun r => List.replicate (times r) r) ↔ ∀ r ∈ owed, times r = 1 := by
  have hcount : ∀ r, (owed.flatMap fun r => List.replicate (times r) r).count r =
      if r ∈ owed then times r else 0 := by
    intro r
    induction owed with
    | nil => simp
    | cons a owed ih =>
        obtain ⟨ha, hnodup⟩ := List.nodup_cons.mp hnodup
        rw [List.flatMap_cons, List.count_append, List.count_replicate, ih hnodup]
        by_cases hra : a = r
        · subst hra
          simp [ha]
        · simp [hra, Ne.symm hra]
  rw [Settled, List.perm_iff_count]
  constructor
  · intro h r hr
    have hr' := h r
    rwa [hcount, if_pos hr, List.count_eq_one_of_mem hnodup hr] at hr'
  · intro h r
    rw [hcount]
    by_cases hr : r ∈ owed
    · rw [if_pos hr, h r hr, List.count_eq_one_of_mem hnodup hr]
    · rw [if_neg hr, List.count_eq_zero.mpr hr]

end Ledger
