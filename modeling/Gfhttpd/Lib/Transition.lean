import Mathlib.Logic.Basic

/-!
# Deterministic transition machines and their runs

A machine answers a state and an event with the next state, or with `none` when the event
is not enabled.  Everything nondeterministic (the choices of a scheduler, the results of
library calls) is part of the event, so a run is a list of events.

- `Machine.exec`: the state a list of events leads to
- `Machine.exec_rel`: two machines that take every step together
- `Machine.exec_invariant`: the induction rule for a property kept by every step
- `Machine.Meets`: a condition holds before every step of a run
- `Machine.exec_invariant_of_meets`, `Machine.exec_iff_meets`: the induction rules for
  runs whose steps all meet a condition
- `Machine.collect`: what is read off the steps of a run
- `Machine.Throughout`, `Machine.throughout_iff_meets`: a property of every state of a run
- `Audited`: every entry of a log is right, given the entries before it
- `foldl_ends_iff`: a loop over a list that ends early
-/

namespace Transition

universe u v

/-! ## Logs -/

section Logs

variable {α : Type u}

/-- Every entry of the log meets `P`, given the entries before it. -/
def Audited (P : List α → α → Prop) (log : List α) : Prop :=
  ∀ pre e post, log = pre ++ e :: post → P pre e

theorem audited_nil (P : List α → α → Prop) : Audited P [] := by
  intro pre e post h
  simp at h

theorem audited_snoc {P : List α → α → Prop} {log : List α} {e : α} :
    Audited P (log ++ [e]) ↔ Audited P log ∧ P log e := by
  constructor
  · intro h
    refine ⟨fun pre e' post hsplit => ?_, h log e [] rfl⟩
    apply h pre e' (post ++ [e])
    rw [hsplit, List.append_assoc, List.cons_append]
  · rintro ⟨hlog, he⟩ pre e' post hsplit
    -- the new entry, or one in front of it
    rcases List.eq_nil_or_concat post with rfl | ⟨post, last, rfl⟩
    · obtain ⟨rfl, hlast⟩ := List.append_inj' hsplit rfl
      obtain rfl : e = e' := List.singleton_inj.mp hlast
      exact he
    · rw [List.concat_eq_append, ← List.cons_append, ← List.append_assoc] at hsplit
      obtain ⟨hpre, -⟩ := List.append_inj' hsplit rfl
      exact hlog pre e' post hpre

/-- The induction rule for new entries: each is right after a log with the property `I`, and
keeps `I`. -/
theorem Audited.append {P : List α → α → Prop} {I : List α → Prop} {log es : List α}
    (h : Audited P log) (hI : I log)
    (hstep : ∀ pre, ∀ e ∈ es, I pre → P pre e ∧ I (pre ++ [e])) :
    Audited P (log ++ es) ∧ I (log ++ es) := by
  induction es generalizing log with
  | nil =>
      rw [List.append_nil]
      exact ⟨h, hI⟩
  | cons e es ih =>
      obtain ⟨he, hI'⟩ := hstep log e (List.mem_cons_self ..) hI
      -- the log grows by one entry, which is right
      rw [List.append_cons]
      apply ih (audited_snoc.mpr ⟨h, he⟩) hI'
      intro pre e' he'
      exact hstep pre e' (List.mem_cons_of_mem _ he')

/-- New entries that are right after every log. -/
theorem Audited.append_of_forall {P : List α → α → Prop} {log es : List α} (h : Audited P log)
    (hes : ∀ e ∈ es, ∀ pre, P pre e) : Audited P (log ++ es) :=
  (h.append (I := fun _ => True) trivial fun pre e he _ => ⟨hes e he pre, trivial⟩).1

/-- They say nothing about the log before. -/
theorem audited_append_iff {P : List α → α → Prop} {log es : List α}
    (hes : ∀ e ∈ es, ∀ pre, P pre e) : Audited P (log ++ es) ↔ Audited P log := by
  refine ⟨fun h pre e post hsplit => ?_, fun h => h.append_of_forall hes⟩
  apply h pre e (post ++ es)
  rw [hsplit, List.append_assoc, List.cons_append]

end Logs

/-! ## Loops -/

section Loops

variable {σ : Type u} {α : Type v}

/-- When, under an invariant `I`, a round leads to an end `P` exactly if the loop was there before,
or the round meets `E`, then a loop from a state with `I` leads there exactly if it begins there,
or one of its rounds meets `E`. -/
theorem foldl_ends_iff {f : σ → α → σ} {P I : σ → Prop} {E : σ → α → Prop}
    (hinv : ∀ s a, I s → I (f s a)) (hiff : ∀ s a, I s → (P (f s a) ↔ P s ∨ E s a)) {s : σ}
    (hs : I s) (as : List α) :
    P (as.foldl f s) ↔ P s ∨ ∃ pre a post, as = pre ++ a :: post ∧ E (pre.foldl f s) a := by
  induction as generalizing s with
  | nil => simp
  | cons a as ih =>
      rw [List.foldl_cons, ih (hinv s a hs), hiff s a hs, or_assoc]
      apply or_congr_right
      constructor
      · rintro (hnow | ⟨pre, b, post, rfl, hlater⟩)
        · exact ⟨[], a, as, rfl, hnow⟩
        · exact ⟨a :: pre, b, post, rfl, hlater⟩
      · rintro ⟨pre, b, post, hsplit, hE⟩
        -- the round that ends the loop is the first one, or comes later
        cases pre with
        | nil =>
            cases hsplit
            exact Or.inl hE
        | cons a' pre =>
            obtain ⟨rfl, rfl⟩ := List.cons.inj hsplit
            exact Or.inr ⟨pre, b, post, rfl, hE⟩

end Loops

/-! ## Machines -/

/-- A machine with states `σ` and events `ε`. -/
structure Machine (σ : Type u) (ε : Type v) where
  /-- The next state, `none` when the event is not enabled. -/
  step : σ → ε → Option σ

namespace Machine

variable {σ : Type u} {ε : Type v} (M : Machine σ ε)

/-- The state a run reaches, `none` when one of its events is not enabled. -/
def exec (s : σ) : List ε → Option σ
  | [] => some s
  | e :: es =>
      match M.step s e with
      | none => none
      | some s' => exec s' es

@[simp] theorem exec_nil (s : σ) : M.exec s [] = some s := rfl

theorem exec_cons_eq_some {s t : σ} {e : ε} {es : List ε} :
    M.exec s (e :: es) = some t ↔ ∃ s', M.step s e = some s' ∧ M.exec s' es = some t := by
  cases h : M.step s e with
  | none => simp [exec, h]
  | some s' => simp [exec, h]

theorem exec_append {s t u : σ} {es fs : List ε}
    (hes : M.exec s es = some t) (hfs : M.exec t fs = some u) :
    M.exec s (es ++ fs) = some u := by
  induction es generalizing s with
  | nil =>
      obtain rfl : s = t := by simpa using hes
      exact hfs
  | cons e es ih =>
      obtain ⟨s', hstep, hrest⟩ := M.exec_cons_eq_some.mp hes
      exact M.exec_cons_eq_some.mpr ⟨s', hstep, ih hrest⟩

theorem exec_append_eq_some {s u : σ} {es fs : List ε} :
    M.exec s (es ++ fs) = some u ↔ ∃ t, M.exec s es = some t ∧ M.exec t fs = some u := by
  induction es generalizing s with
  | nil => simp
  | cons e es ih =>
      rw [List.cons_append, exec_cons_eq_some]
      constructor
      · rintro ⟨s', hstep, hrest⟩
        obtain ⟨t, hes, hfs⟩ := ih.mp hrest
        exact ⟨t, M.exec_cons_eq_some.mpr ⟨s', hstep, hes⟩, hfs⟩
      · rintro ⟨t, hes, hfs⟩
        obtain ⟨s', hstep, hrest⟩ := M.exec_cons_eq_some.mp hes
        exact ⟨s', hstep, ih.mpr ⟨t, hrest, hfs⟩⟩

/-- When every `f s a` is reached by a run from `s`, a fold with `f` is. -/
theorem exec_foldl {α : Type*} {f : σ → α → σ} (hf : ∀ s a, ∃ es, M.exec s es = some (f s a))
    (s : σ) (as : List α) : ∃ es, M.exec s es = some (as.foldl f s) := by
  induction as generalizing s with
  | nil => exact ⟨[], rfl⟩
  | cons a as ih =>
      obtain ⟨es, hes⟩ := hf s a
      obtain ⟨fs, hfs⟩ := ih (f s a)
      exact ⟨es ++ fs, M.exec_append hes hfs⟩

/-- Two machines that take every step together, from related states to related states, take every run
together. -/
theorem exec_rel {τ : Type*} {M : Machine σ ε} {N : Machine τ ε} {R : σ → τ → Prop}
    (hstep : ∀ s t e, R s t → Option.Rel R (M.step s e) (N.step t e)) {s : σ} {t : τ} (h : R s t)
    (es : List ε) : Option.Rel R (M.exec s es) (N.exec t es) := by
  induction es generalizing s t with
  | nil => exact .some h
  | cons e es ih =>
      have hrel := hstep s t e h
      unfold exec
      generalize M.step s e = r, N.step t e = r' at hrel ⊢
      cases hrel with
      | some hnext => exact ih hnext
      | none => exact .none

/-! ## Invariants -/

/-- A property that every step keeps holds at the end of every run. -/
theorem exec_invariant {I : σ → Prop}
    (hstep : ∀ s e s', I s → M.step s e = some s' → I s')
    {s t : σ} {es : List ε} (hs : I s) (hexec : M.exec s es = some t) : I t := by
  induction es generalizing s with
  | nil =>
      obtain rfl : s = t := by simpa using hexec
      exact hs
  | cons e es ih =>
      obtain ⟨s', he, hrest⟩ := M.exec_cons_eq_some.mp hexec
      exact ih (hstep s e s' hs he) hrest

/-! ## Runs whose steps meet a condition -/

/-- `C` holds of the state and the event before every step of the run `es` from `s`. -/
def Meets (C : σ → ε → Prop) : σ → List ε → Prop
  | _, [] => True
  | s, e :: es => C s e ∧ ∀ s', M.step s e = some s' → Meets C s' es

instance decidableMeets (C : σ → ε → Prop) [∀ s e, Decidable (C s e)] (s : σ) (es : List ε) :
    Decidable (M.Meets C s es) :=
  match es with
  | [] => .isTrue trivial
  | e :: es =>
      match h : M.step s e with
      | none => decidable_of_iff (C s e) (by simp [Meets, h])
      | some s' =>
          have := decidableMeets C s' es
          decidable_of_iff (C s e ∧ M.Meets C s' es) (by simp [Meets, h])

theorem meets_of_forall {C : ε → Prop} {s : σ} {es : List ε} (h : ∀ e ∈ es, C e) :
    M.Meets (fun _ e => C e) s es := by
  induction es generalizing s with
  | nil => trivial
  | cons e es ih =>
      exact ⟨h e (List.mem_cons_self ..), fun s' _ => ih fun f hf => h f (List.mem_cons_of_mem _ hf)⟩

/-- A condition on the events alone is met by a run that goes through exactly if it holds of every
event. -/
theorem meets_iff_forall {C : ε → Prop} {s t : σ} {es : List ε} (hexec : M.exec s es = some t) :
    M.Meets (fun _ e => C e) s es ↔ ∀ e ∈ es, C e := by
  refine ⟨fun h => ?_, M.meets_of_forall⟩
  induction es generalizing s with
  | nil => simp
  | cons e es ih =>
      obtain ⟨s', hstep, hrest⟩ := M.exec_cons_eq_some.mp hexec
      exact List.forall_mem_cons.mpr ⟨h.1, ih hrest (h.2 s' hstep)⟩

theorem Meets.mono {C D : σ → ε → Prop} (hCD : ∀ s e, C s e → D s e) {s : σ} {es : List ε}
    (h : M.Meets C s es) : M.Meets D s es := by
  induction es generalizing s with
  | nil => trivial
  | cons e es ih => exact ⟨hCD s e h.1, fun s' hstep => ih (h.2 s' hstep)⟩

/-- A run that meets a condition, and one behind it. -/
theorem Meets.append {C : σ → ε → Prop} {s t : σ} {es fs : List ε} (hes : M.Meets C s es)
    (hexec : M.exec s es = some t) (hfs : M.Meets C t fs) : M.Meets C s (es ++ fs) := by
  induction es generalizing s with
  | nil =>
      obtain rfl : s = t := by simpa using hexec
      exact hfs
  | cons e es ih =>
      obtain ⟨s', hstep, hrest⟩ := M.exec_cons_eq_some.mp hexec
      refine ⟨hes.1, fun s'' h => ?_⟩
      obtain rfl : s' = s'' := Option.some.inj (hstep.symm.trans h)
      exact ih (hes.2 s' h) hrest

/-- Under an invariant that steps with `C` keep, what follows from `C` is met, too. -/
theorem Meets.of_invariant {C D : σ → ε → Prop} {I : σ → Prop}
    (hinv : ∀ s e s', I s → C s e → M.step s e = some s' → I s')
    (hCD : ∀ s e, I s → C s e → D s e) {s : σ} {es : List ε} (hs : I s) (h : M.Meets C s es) :
    M.Meets D s es := by
  induction es generalizing s with
  | nil => trivial
  | cons e es ih =>
      refine ⟨hCD s e hs h.1, fun s' hstep => ?_⟩
      exact ih (hinv s e s' hs h.1 hstep) (h.2 s' hstep)

/-- Under an invariant, conditions that agree before every step are met by the same runs. -/
theorem meets_congr {C D : σ → ε → Prop} {I : σ → Prop}
    (hinv : ∀ s e s', I s → M.step s e = some s' → I s')
    (hCD : ∀ s e, I s → (C s e ↔ D s e)) {s : σ} {es : List ε} (hs : I s) :
    M.Meets C s es ↔ M.Meets D s es := by
  induction es generalizing s with
  | nil => exact Iff.rfl
  | cons e es ih =>
      apply and_congr (hCD s e hs)
      exact forall₂_congr fun s' hstep => ih (hinv s e s' hs hstep)

/-- When, under an invariant that steps with `A` and `C` keep, a step with `A` meets `C` exactly if it
meets `D`, then a run whose steps all meet `A` meets the one exactly if it meets the other. -/
theorem meets_congr_of_meets {A C D : σ → ε → Prop} {I : σ → Prop}
    (hinv : ∀ s e s', I s → A s e → C s e → M.step s e = some s' → I s')
    (hCD : ∀ s e s', I s → A s e → M.step s e = some s' → (C s e ↔ D s e)) {s t : σ} {es : List ε}
    (hs : I s) (hA : M.Meets A s es) (hexec : M.exec s es = some t) :
    M.Meets C s es ↔ M.Meets D s es := by
  induction es generalizing s with
  | nil => exact Iff.rfl
  | cons e es ih =>
      obtain ⟨s', he, hrest⟩ := M.exec_cons_eq_some.mp hexec
      have honly : ∀ s'', M.step s e = some s'' → s'' = s' := fun s'' h =>
        Option.some.inj (h.symm.trans he)
      have htail (hC : C s e) := ih (hinv s e s' hs hA.1 hC he) (hA.2 s' he) hrest
      constructor
      · rintro ⟨hC, hm⟩
        refine ⟨(hCD s e s' hs hA.1 he).mp hC, fun s'' h => ?_⟩
        rw [honly s'' h]
        exact (htail hC).mp (hm s' he)
      · rintro ⟨hD, hm⟩
        have hC := (hCD s e s' hs hA.1 he).mpr hD
        refine ⟨hC, fun s'' h => ?_⟩
        rw [honly s'' h]
        exact (htail hC).mpr (hm s' he)

/-- A property that every step meeting `C` keeps holds at the end of every run whose
steps all meet `C`. -/
theorem exec_invariant_of_meets {C : σ → ε → Prop} {I : σ → Prop}
    (hstep : ∀ s e s', I s → C s e → M.step s e = some s' → I s')
    {s t : σ} {es : List ε} (hs : I s) (hmeets : M.Meets C s es)
    (hexec : M.exec s es = some t) : I t := by
  induction es generalizing s with
  | nil =>
      obtain rfl : s = t := by simpa using hexec
      exact hs
  | cons e es ih =>
      obtain ⟨s', he, hrest⟩ := M.exec_cons_eq_some.mp hexec
      exact ih (hstep s e s' hs hmeets.1 he) (hmeets.2 s' he) hrest

/-- When, under an invariant `I`, a step keeps `P` exactly if it meets `C`, then `P` holds
at the end of a run exactly if all its steps meet `C`. -/
theorem exec_iff_meets {C : σ → ε → Prop} {I P : σ → Prop}
    (hinv : ∀ s e s', I s → M.step s e = some s' → I s')
    (hiff : ∀ s e s', I s → M.step s e = some s' → (P s' ↔ P s ∧ C s e))
    {s t : σ} {es : List ε} (hs : I s) (hexec : M.exec s es = some t) :
    P t ↔ P s ∧ M.Meets C s es := by
  induction es generalizing s with
  | nil =>
      obtain rfl : s = t := by simpa using hexec
      simp [Meets]
  | cons e es ih =>
      obtain ⟨s', he, hrest⟩ := M.exec_cons_eq_some.mp hexec
      rw [ih (hinv s e s' hs he) hrest, hiff s e s' hs he]
      constructor
      · rintro ⟨⟨hP, hC⟩, hm⟩
        refine ⟨hP, hC, fun s'' h => ?_⟩
        obtain rfl : s' = s'' := Option.some.inj (he.symm.trans h)
        exact hm
      · rintro ⟨hP, hC, hm⟩
        exact ⟨⟨hP, hC⟩, hm s' he⟩

/-- What `f` reads off the steps of the run `es` from `s`, in order. -/
def collect {β : Type*} (f : σ → ε → Option β) : σ → List ε → List β
  | _, [] => []
  | s, e :: es =>
      (f s e).toList ++
        match M.step s e with
        | none => []
        | some s' => collect f s' es

theorem collect_eq_nil_iff {β : Type*} {f : σ → ε → Option β} {s t : σ} {es : List ε}
    (hexec : M.exec s es = some t) :
    M.collect f s es = [] ↔ M.Meets (fun s e => f s e = none) s es := by
  induction es generalizing s with
  | nil => exact iff_of_true rfl trivial
  | cons e es ih =>
      obtain ⟨s', he, hrest⟩ := M.exec_cons_eq_some.mp hexec
      simp only [collect, Meets, he, List.append_eq_nil_iff, Option.toList_eq_nil_iff,
        Option.some.injEq, forall_eq', ih hrest]

/-- What is read off a step that keeps an invariant. -/
theorem exists_of_mem_collect {β : Type*} {f : σ → ε → Option β} {I : σ → Prop}
    (hinv : ∀ s e s', I s → M.step s e = some s' → I s') {s : σ} {es : List ε} (hs : I s) {b : β}
    (h : b ∈ M.collect f s es) : ∃ s e, I s ∧ f s e = some b := by
  induction es generalizing s with
  | nil => cases h
  | cons e es ih =>
      rw [collect, List.mem_append] at h
      rcases h with h | h
      · exact ⟨s, e, hs, Option.mem_toList.mp h⟩
      · cases hstep : M.step s e with
        | none =>
            rw [hstep] at h
            cases h
        | some s' =>
            rw [hstep] at h
            exact ih (hinv s e s' hs hstep) h

/-- `P` holds in every state of the run `es` from `s`. -/
def Throughout (P : σ → Prop) : σ → List ε → Prop
  | s, [] => P s
  | s, e :: es => P s ∧ ∀ s', M.step s e = some s' → Throughout P s' es

theorem Throughout.start {P : σ → Prop} {s : σ} {es : List ε} (h : M.Throughout P s es) : P s := by
  cases es with
  | nil => exact h
  | cons e es => exact h.1

/-- When a step from a state with `P` meets `C`, the steps of a run whose states all have `P` do. -/
theorem meets_of_throughout {C : σ → ε → Prop} {P : σ → Prop}
    (hstep : ∀ s e s', P s → M.step s e = some s' → C s e) {s t : σ} {es : List ε}
    (h : M.Throughout P s es) (hexec : M.exec s es = some t) : M.Meets C s es := by
  induction es generalizing s with
  | nil => trivial
  | cons e es ih =>
      obtain ⟨s', he, hrest⟩ := M.exec_cons_eq_some.mp hexec
      refine ⟨hstep s e s' h.1 he, fun s'' h' => ?_⟩
      obtain rfl : s' = s'' := Option.some.inj (he.symm.trans h')
      exact ih (h.2 s' he) hrest

/-- A property that every step meeting `C` keeps holds in every state of a run whose steps all
meet `C`. -/
theorem throughout_of_meets {C : σ → ε → Prop} {P : σ → Prop}
    (hstep : ∀ s e s', P s → C s e → M.step s e = some s' → P s') {s : σ} {es : List ε} (hs : P s)
    (h : M.Meets C s es) : M.Throughout P s es := by
  induction es generalizing s with
  | nil => exact hs
  | cons e es ih => exact ⟨hs, fun s' he => ih (hstep s e s' hs h.1 he) (h.2 s' he)⟩

theorem Throughout.mono {P Q : σ → Prop} (hPQ : ∀ s, P s → Q s) {s : σ} {es : List ε}
    (h : M.Throughout P s es) : M.Throughout Q s es := by
  induction es generalizing s with
  | nil => exact hPQ s h
  | cons e es ih => exact ⟨hPQ s h.1, fun s' he => ih (h.2 s' he)⟩

theorem Throughout.final {P : σ → Prop} {s t : σ} {es : List ε} (h : M.Throughout P s es)
    (hexec : M.exec s es = some t) : P t := by
  induction es generalizing s with
  | nil =>
      obtain rfl : s = t := by simpa using hexec
      exact h
  | cons e es ih =>
      obtain ⟨s', he, hrest⟩ := M.exec_cons_eq_some.mp hexec
      exact ih (h.2 s' he) hrest

/-- When, from states with `I` and `P`, a step that meets `A` leads to `P` exactly if it meets `C`,
and then to `I` as well, then `P` holds in every state of a run whose steps all meet `A` exactly if
all of them meet `C`. -/
theorem throughout_iff_meets_of_meets {A C : σ → ε → Prop} {I P : σ → Prop}
    (hstep : ∀ s e s', I s → P s → A s e → M.step s e = some s' →
      (P s' → I s') ∧ (P s' ↔ C s e))
    {s t : σ} {es : List ε} (hI : I s) (hP : P s) (hA : M.Meets A s es)
    (hexec : M.exec s es = some t) : M.Throughout P s es ↔ M.Meets C s es := by
  induction es generalizing s with
  | nil => exact iff_of_true hP trivial
  | cons e es ih =>
      obtain ⟨s', he, hrest⟩ := M.exec_cons_eq_some.mp hexec
      obtain ⟨hkeep, hiff⟩ := hstep s e s' hI hP hA.1 he
      -- the machine is deterministic
      have honly : ∀ s'', M.step s e = some s'' → s'' = s' := fun s'' h =>
        Option.some.inj (h.symm.trans he)
      constructor
      · rintro ⟨-, htail⟩
        have hP' := (htail s' he).start
        refine ⟨hiff.mp hP', fun s'' h => ?_⟩
        rw [honly s'' h]
        exact (ih (hkeep hP') hP' (hA.2 s' he) hrest).mp (htail s' he)
      · rintro ⟨hC, htail⟩
        refine ⟨hP, fun s'' h => ?_⟩
        rw [honly s'' h]
        exact (ih (hkeep (hiff.mpr hC)) (hiff.mpr hC) (hA.2 s' he) hrest).mpr (htail s' he)

/-- When, from states with `I` and `P`, a step leads to `P` exactly if it meets `C`, and then to
`I` as well, then `P` holds in every state of a run exactly if all its steps meet `C`. -/
theorem throughout_iff_meets {C : σ → ε → Prop} {I P : σ → Prop}
    (hstep : ∀ s e s', I s → P s → M.step s e = some s' → (P s' → I s') ∧ (P s' ↔ C s e))
    {s t : σ} {es : List ε} (hI : I s) (hP : P s) (hexec : M.exec s es = some t) :
    M.Throughout P s es ↔ M.Meets C s es :=
  M.throughout_iff_meets_of_meets (A := fun _ _ => True)
    (fun s e s' hI hP _ he => hstep s e s' hI hP he) hI hP
    (M.meets_of_forall fun _ _ => trivial) hexec

end Machine

end Transition
