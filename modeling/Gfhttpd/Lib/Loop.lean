import Mathlib.Data.Nat.Notation
import Mathlib.Logic.Basic

/-!
# `while` loops

A loop tests its condition, and while that holds runs its body, which may end the whole program.

- `While.Ends`: where the loop ends, and the states in which its rounds begin
- `While.exists_ends`: a loop ends if each of its rounds keeps an invariant and makes a number smaller
- `While.run`: the loop with a bound on its rounds, which is the loop when the bound is large enough
-/

namespace Loop

variable {σ : Type*}

/-- `while (goesOn) body`.  A body that is `none` has ended the program, as a failed assertion
does. -/
structure While (σ : Type*) where
  goesOn : σ → Bool
  body : σ → Option σ

namespace While

/-- The rounds of the loop begin in these states, and it is left in the last state, or never left
because its body has ended the program. -/
inductive Ends (w : While σ) : σ → List σ → Option σ → Prop
  | stop {s : σ} (hstop : w.goesOn s = false) : Ends w s [] (some s)
  | fail {s : σ} (hgo : w.goesOn s = true) (hbody : w.body s = none) : Ends w s [s] none
  | round {s t : σ} {begins : List σ} {r : Option σ} (hgo : w.goesOn s = true)
      (hbody : w.body s = some t) (hrest : Ends w t begins r) : Ends w s (s :: begins) r

variable {w : While σ} {s : σ} {begins : List σ} {r : Option σ}

/-- Under an invariant, a loop whose rounds make a number smaller is left, with the invariant, after
at most that many rounds. -/
theorem exists_ends {I : σ → Prop} {μ : σ → ℕ}
    (hround : ∀ s, I s → w.goesOn s = true → ∃ t, w.body s = some t ∧ I t ∧ μ t < μ s) (hs : I s) :
    ∃ begins t, w.Ends s begins (some t) ∧ begins.length ≤ μ s ∧ I t ∧ w.goesOn t = false := by
  induction hμ : μ s using Nat.strongRecOn generalizing s with
  | ind n ih =>
      subst hμ
      cases hgo : w.goesOn s with
      | false => exact ⟨[], s, .stop hgo, Nat.zero_le _, hs, hgo⟩
      | true =>
          obtain ⟨t, hbody, ht, hlt⟩ := hround s hs hgo
          obtain ⟨begins, u, hends, hlen, hu, hstop⟩ := ih (μ t) hlt ht rfl
          have hless : begins.length < μ s := Nat.lt_of_le_of_lt hlen hlt
          exact ⟨s :: begins, u, .round hgo hbody hends, Nat.succ_le_of_lt hless, hu, hstop⟩

/-- The loop with at most so many tests of its condition.  Running out of them is `none`. -/
def run (w : While σ) : ℕ → σ → Option σ
  | 0, _ => none
  | fuel + 1, s =>
      if w.goesOn s then
        match w.body s with
        | none => none
        | some t => w.run fuel t
      else some s

theorem Ends.run_eq (h : w.Ends s begins r) {fuel : ℕ} (hfuel : begins.length < fuel) :
    w.run fuel s = r := by
  induction h generalizing fuel with
  | stop hstop =>
      obtain ⟨fuel, rfl⟩ := Nat.exists_eq_succ_of_ne_zero (Nat.ne_of_gt hfuel)
      simp [run, hstop]
  | fail hgo hbody =>
      obtain ⟨fuel, rfl⟩ := Nat.exists_eq_succ_of_ne_zero (Nat.ne_zero_of_lt hfuel)
      simp [run, hgo, hbody]
  | round hgo hbody _ ih =>
      obtain ⟨fuel, rfl⟩ := Nat.exists_eq_succ_of_ne_zero (Nat.ne_zero_of_lt hfuel)
      simp only [run, hgo, hbody, if_true]
      exact ih (Nat.lt_of_succ_lt_succ hfuel)

end While

end Loop
