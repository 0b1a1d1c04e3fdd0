import Mathlib.Algebra.GroupWithZero.Nat
import Mathlib.Data.List.Basic

/-!
# `getopt`

A call of `getopt` returns the next option of a command line, or says that there are no more.  An option
is a character of a word behind a dash; its argument is the rest of the word, or the next word.

- `getopt`: one call, with the state it keeps between calls
- `Spells`: the command lines without an operand and without an unknown option, and what they spell
- `spells_nil_iff`, `spells_cons_iff`: what a call returns on them
- `size_getopt`: every call that returns an option gets on
-/

namespace Getopt

variable {C : Type*}

/-- What a call returns.  The operands are the words that are no options. -/
inductive Result (C : Type*) where
  | option (c : C) (optarg : Option (List C))
  /-- the argument of the option is missing -/
  | missing (c : C)
  | unknown (c : C)
  | done (operands : List (List C))
deriving DecidableEq

/-- The call has returned an option, maybe without its argument. -/
def Result.isOption : Result C → Bool
  | .option .. | .missing _ => true
  | _ => false

/-- There are no more options. -/
def Result.isDone : Result C → Bool
  | .done _ => true
  | _ => false

theorem Result.not_done_of_option {r : Result C} (h : r.isOption = true) : r.isDone = false := by
  cases r with
  | option | missing => rfl
  | unknown | done => cases h

/-- The rest of the word that a call was in, the words behind it, and the operands that were passed
over. -/
structure State (C : Type*) where
  cluster : List C
  args : List (List C)
  skipped : List (List C)
deriving DecidableEq

/-- The options: whether a character is one, and then whether it takes an argument.  With `posix` the
first operand ends the options, else operands are passed over. -/
structure Options (C : Type*) where
  dash : C
  takesArg : C → Option Bool
  posix : Bool

/-- The option is one of these, with an argument if it takes one. -/
def Options.Allows (S : Options C) : Result C → Prop
  | .option c none => S.takesArg c = some false
  | .option c (some _) | .missing c => S.takesArg c = some true
  | _ => False

section Calls

variable (S : Options C)

/-- An option at the front of the rest of a word. -/
def takeOption (c : C) (rest : List C) (args skipped : List (List C)) : Result C × State C :=
  match S.takesArg c with
  | none => (.unknown c, ⟨rest, args, skipped⟩)
  | some false => (.option c none, ⟨rest, args, skipped⟩)
  | some true =>
      if rest ≠ [] then (.option c (some rest), ⟨[], args, skipped⟩)
      else
        match args with
        | [] => (.missing c, ⟨[], [], skipped⟩)
        | arg :: args => (.option c (some arg), ⟨[], args, skipped⟩)

/-- The options of a word; a dash alone has none. -/
def optionsOf [DecidableEq C] (word : List C) : Option (C × List C) :=
  match word with
  | d :: c :: rest => if d = S.dash then some (c, rest) else none
  | _ => none

/-- Go to the next word that has options. -/
def nextWord [DecidableEq C] : List (List C) → List (List C) → Result C × State C
  | [], skipped => (.done skipped, ⟨[], [], skipped⟩)
  | word :: args, skipped =>
      if word = [S.dash, S.dash] then (.done (skipped ++ args), ⟨[], [], skipped ++ args⟩)
      else
        match optionsOf S word with
        | some (c, rest) => takeOption S c rest args skipped
        | none =>
            if S.posix then (.done (skipped ++ word :: args), ⟨[], [], skipped ++ word :: args⟩)
            else nextWord args (skipped ++ [word])

/-- `getopt`. -/
def getopt [DecidableEq C] (g : State C) : Result C × State C :=
  match g.cluster with
  | [] => nextWord S g.args g.skipped
  | c :: rest => takeOption S c rest g.args g.skipped

/-! ## Command lines without an operand -/

/-- In the rest of a word and the words behind it, these options are spelled, and nothing else. -/
inductive Spells : List C → List (List C) → List (Result C) → Prop
  | nil : Spells [] [] []
  | dashes : Spells [] [[S.dash, S.dash]] []
  | word {c : C} {rest : List C} {args : List (List C)} {items : List (Result C)}
      (hword : c :: rest ≠ [S.dash]) (h : Spells (c :: rest) args items) :
      Spells [] ((S.dash :: c :: rest) :: args) items
  | flag {c : C} {rest : List C} {args : List (List C)} {items : List (Result C)}
      (hc : S.takesArg c = some false) (h : Spells rest args items) :
      Spells (c :: rest) args (.option c none :: items)
  | attached {c : C} {rest : List C} {args : List (List C)} {items : List (Result C)}
      (hc : S.takesArg c = some true) (hrest : rest ≠ []) (h : Spells [] args items) :
      Spells (c :: rest) args (.option c (some rest) :: items)
  | separate {c : C} {arg : List C} {args : List (List C)} {items : List (Result C)}
      (hc : S.takesArg c = some true) (h : Spells [] args items) :
      Spells [c] (arg :: args) (.option c (some arg) :: items)
  | missing {c : C} (hc : S.takesArg c = some true) : Spells [c] [] [.missing c]

/-- The state spells these options, and no operand was passed over. -/
def State.Spells (g : State C) (items : List (Result C)) : Prop :=
  Getopt.Spells S g.cluster g.args items ∧ g.skipped = []

/-- The characters that are left, and the words. -/
def State.size (g : State C) : ℕ :=
  g.cluster.length + (g.args.map fun word => word.length + 1).sum

variable {S} {c : C} {rest word : List C} {args skipped : List (List C)} {r : Result C}
  {items : List (Result C)} {g : State C}

theorem spells_words_nil_iff : Spells S [] [] items ↔ items = [] := by
  constructor
  · intro h
    cases h
    rfl
  · rintro rfl
    exact .nil

/-- A word without an option is the last one. -/
theorem spells_words_cons_iff : Spells S [] (word :: args) items ↔
    word = [S.dash, S.dash] ∧ args = [] ∧ items = [] ∨
      ∃ c rest, word = S.dash :: c :: rest ∧ c :: rest ≠ [S.dash] ∧ Spells S (c :: rest) args items := by
  constructor
  · intro h
    cases h with
    | dashes => exact Or.inl ⟨rfl, rfl, rfl⟩
    | word hword h => exact Or.inr ⟨_, _, rfl, hword, h⟩
  · rintro (⟨rfl, rfl, rfl⟩ | ⟨c, rest, rfl, hword, h⟩)
    · exact .dashes
    · exact .word hword h

theorem Spells.allows {cluster : List C} (h : Spells S cluster args items) :
    ∀ item ∈ items, S.Allows item := by
  induction h with
  | nil | dashes => exact nofun
  | word _ _ ih => exact ih
  | flag hc _ ih | attached hc _ _ ih | separate hc _ ih =>
      exact List.forall_mem_cons.mpr ⟨hc, ih⟩
  | missing hc => exact List.forall_mem_cons.mpr ⟨hc, nofun⟩

theorem not_spells_cluster_nil : ¬ Spells S (c :: rest) args [] := nofun

/-! ## One call on them -/

/-- The option at the front of the rest of a word. -/
theorem takeOption_cons_iff :
    Spells S (c :: rest) args (r :: items) ∧ skipped = [] ↔
      (takeOption S c rest args skipped).1 = r ∧ r.isOption = true ∧
        (takeOption S c rest args skipped).2.Spells S items := by
  unfold takeOption
  cases hc : S.takesArg c with
  | none =>
      -- what is spelled is an option
      constructor
      · rintro ⟨h, -⟩
        cases h <;> simp [hc] at *
      · rintro ⟨rfl, hoption, -⟩
        cases hoption
  | some takes =>
      cases takes with
      | false =>
          constructor
          · rintro ⟨h, rfl⟩
            cases h with
            | flag _ h => exact ⟨rfl, rfl, h, rfl⟩
            | attached hc' | separate hc' | missing hc' => simp [hc] at hc'
          · rintro ⟨rfl, -, h, hskipped⟩
            exact ⟨.flag hc h, hskipped⟩
      | true =>
          by_cases hrest : rest = []
          · -- the argument is the next word, if there is one
            subst hrest
            cases args with
            | nil =>
                constructor
                · rintro ⟨h, rfl⟩
                  cases h with
                  | flag hc' => simp [hc] at hc'
                  | attached _ hne => exact absurd rfl hne
                  | missing => exact ⟨rfl, rfl, .nil, rfl⟩
                · rintro ⟨rfl, -, h, hskipped⟩
                  obtain rfl := spells_words_nil_iff.mp h
                  exact ⟨.missing hc, hskipped⟩
            | cons arg args =>
                constructor
                · rintro ⟨h, rfl⟩
                  cases h with
                  | flag hc' => simp [hc] at hc'
                  | attached _ hne => exact absurd rfl hne
                  | separate _ h => exact ⟨rfl, rfl, h, rfl⟩
                · rintro ⟨rfl, -, h, hskipped⟩
                  exact ⟨.separate hc h, hskipped⟩
          · -- the argument is the rest of the word
            dsimp only
            rw [if_pos hrest]
            constructor
            · rintro ⟨h, rfl⟩
              cases h with
              | flag hc' => simp [hc] at hc'
              | attached _ _ h => exact ⟨rfl, rfl, h, rfl⟩
              | separate | missing => exact absurd rfl hrest
            · rintro ⟨rfl, -, h, hskipped⟩
              exact ⟨.attached hc hrest h, hskipped⟩

theorem takeOption_ne_done {operands : List (List C)} :
    (takeOption S c rest args skipped).1 ≠ .done operands := by
  unfold takeOption
  split
  · exact nofun
  · exact nofun
  · split
    · exact nofun
    · split <;> exact nofun

theorem takeOption_skipped : (takeOption S c rest args skipped).2.skipped = skipped := by
  unfold takeOption
  split
  · rfl
  · rfl
  · split
    · rfl
    · split <;> rfl

theorem size_takeOption : (takeOption S c rest args skipped).2.size <
    State.size ⟨c :: rest, args, skipped⟩ := by
  unfold takeOption State.size
  split
  · simp
  · simp
  · split
    · simp
    · split
      · simp
      · simp
        omega

variable [DecidableEq C]

theorem optionsOf_eq_some_iff :
    optionsOf S word = some (c, rest) ↔ word = S.dash :: c :: rest := by
  rcases word with _ | ⟨d, _ | ⟨c', rest'⟩⟩
  · simp [optionsOf]
  · simp [optionsOf]
  · simp [optionsOf]

/-- What is made of a word: it ends the options, has some, or is an operand. -/
theorem nextWord_cons (S : Options C) (word : List C) (args skipped : List (List C)) :
    word = [S.dash, S.dash] ∧
        nextWord S (word :: args) skipped = (.done (skipped ++ args), ⟨[], [], skipped ++ args⟩) ∨
      (∃ c rest, word = S.dash :: c :: rest ∧ c :: rest ≠ [S.dash] ∧
        nextWord S (word :: args) skipped = takeOption S c rest args skipped) ∨
      (∀ c rest, word ≠ S.dash :: c :: rest) ∧
        (nextWord S (word :: args) skipped =
            (.done (skipped ++ word :: args), ⟨[], [], skipped ++ word :: args⟩) ∨
          nextWord S (word :: args) skipped = nextWord S args (skipped ++ [word])) := by
  rw [nextWord]
  by_cases hdashes : word = [S.dash, S.dash]
  · exact Or.inl ⟨hdashes, if_pos hdashes⟩
  · rw [if_neg hdashes]
    refine Or.inr ?_
    cases hoptions : optionsOf S word with
    | some p =>
        have hword := optionsOf_eq_some_iff.mp hoptions
        exact Or.inl ⟨p.1, p.2, hword, fun heq => hdashes (by rw [hword, heq]), rfl⟩
    | none =>
        refine Or.inr ⟨fun c rest heq => ?_, ?_⟩
        · rw [optionsOf_eq_some_iff.mpr heq] at hoptions
          cases hoptions
        · dsimp only
          split
          · exact Or.inl rfl
          · exact Or.inr rfl

/-- An operand that was passed over stays one. -/
theorem nextWord_skipped (h : skipped ≠ []) :
    (nextWord S args skipped).1 ≠ .done [] ∧ (nextWord S args skipped).2.skipped ≠ [] := by
  have hends : ∀ l : List (List C), (Result.done (skipped ++ l) : Result C) ≠ .done [] ∧
      skipped ++ l ≠ [] := fun l =>
    ⟨fun heq => h (List.append_eq_nil_iff.mp (Result.done.inj heq)).1,
      List.append_ne_nil_of_left_ne_nil h l⟩
  induction args generalizing skipped with
  | nil => exact ⟨fun heq => h (Result.done.inj heq), h⟩
  | cons word args ih =>
      rcases nextWord_cons S word args skipped with
        ⟨-, heq⟩ | ⟨c, rest, -, -, heq⟩ | ⟨-, heq | heq⟩
      · rw [heq]
        exact hends args
      · rw [heq, takeOption_skipped]
        exact ⟨takeOption_ne_done, h⟩
      · rw [heq]
        exact hends _
      · rw [heq]
        refine ih (List.append_ne_nil_of_left_ne_nil h [word]) fun l => ?_
        rw [List.append_assoc]
        exact hends _

theorem nextWord_nil_iff :
    (nextWord S args skipped).1 = .done [] ↔ Spells S [] args [] ∧ skipped = [] := by
  cases args with
  | nil =>
      rw [spells_words_nil_iff]
      simp [nextWord]
  | cons word args =>
      rw [spells_words_cons_iff]
      rcases nextWord_cons S word args skipped with
        ⟨hword, heq⟩ | ⟨c, rest, hword, hne, heq⟩ | ⟨hword, heq⟩
      · rw [heq]
        simp [hword, and_comm]
      · -- an option comes first
        constructor
        · intro hdone
          rw [heq] at hdone
          exact absurd hdone takeOption_ne_done
        · rintro ⟨⟨hdashes, -, -⟩ | ⟨c', rest', -, -, h⟩, -⟩
          · exact absurd (List.cons.inj (hword.symm.trans hdashes)).2 hne
          · exact absurd h not_spells_cluster_nil
      · -- there is an operand
        constructor
        · intro hdone
          rcases heq with heq | heq
          · rw [heq] at hdone
            simp at hdone
          · rw [heq] at hdone
            exact absurd hdone (nextWord_skipped (by simp)).1
        · rintro ⟨⟨hdashes, -, -⟩ | ⟨c, rest, heq', -⟩, -⟩
          · exact absurd hdashes (hword S.dash [])
          · exact absurd heq' (hword c rest)

theorem nextWord_cons_iff : Spells S [] args (r :: items) ∧ skipped = [] ↔
    (nextWord S args skipped).1 = r ∧ r.isOption = true ∧
      (nextWord S args skipped).2.Spells S items := by
  cases args with
  | nil =>
      rw [spells_words_nil_iff]
      constructor
      · rintro ⟨hnil, -⟩
        cases hnil
      · rintro ⟨rfl, hoption, -⟩
        cases hoption
  | cons word args =>
      rw [spells_words_cons_iff]
      rcases nextWord_cons S word args skipped with
        ⟨hword, heq⟩ | ⟨c, rest, hword, hne, heq⟩ | ⟨hword, heq⟩
      · -- the options end here
        rw [heq]
        constructor
        · rintro ⟨⟨-, -, hnil⟩ | ⟨c, rest, hword', hne, -⟩, -⟩
          · cases hnil
          · exact absurd (List.cons.inj (hword'.symm.trans hword)).2 hne
        · rintro ⟨rfl, hoption, -⟩
          cases hoption
      · -- an option of this word, with the words behind it
        rw [heq, ← takeOption_cons_iff]
        apply and_congr_left
        intro _
        constructor
        · rintro (⟨hdashes, -, -⟩ | ⟨c', rest', hword', -, h⟩)
          · exact absurd (List.cons.inj (hword.symm.trans hdashes)).2 hne
          · obtain ⟨-, heq'⟩ := List.cons.inj (hword.symm.trans hword')
            rwa [← heq'] at h
        · exact fun h => Or.inr ⟨c, rest, hword, hne, h⟩
      · -- an operand ends the options, or is passed over for good
        constructor
        · rintro ⟨⟨hdashes, -, -⟩ | ⟨c, rest, heq', -⟩, -⟩
          · exact absurd hdashes (hword S.dash [])
          · exact absurd heq' (hword c rest)
        · rintro ⟨rfl, hoption, -, hskipped⟩
          rcases heq with heq | heq
          · rw [heq] at hoption
            cases hoption
          · rw [heq] at hskipped
            exact absurd hskipped (nextWord_skipped (by simp)).2

/-- There are no more options exactly if none is spelled. -/
theorem spells_nil_iff : g.Spells S [] ↔ (getopt S g).1 = .done [] := by
  unfold getopt State.Spells
  split
  · next hcluster =>
      rw [hcluster, nextWord_nil_iff]
  · next c rest hcluster =>
      rw [hcluster]
      exact iff_of_false (fun h => not_spells_cluster_nil h.1) takeOption_ne_done

/-- A call returns the first option that is spelled, and the others are left. -/
theorem spells_cons_iff : g.Spells S (r :: items) ↔
    (getopt S g).1 = r ∧ r.isOption = true ∧ (getopt S g).2.Spells S items := by
  unfold getopt
  rw [State.Spells]
  split
  · next hcluster =>
      rw [hcluster]
      exact nextWord_cons_iff
  · next c rest hcluster =>
      rw [hcluster]
      exact takeOption_cons_iff

/-- What is spelled is what the call returns, and then the rest. -/
theorem spells_iff_call (h : (getopt S g).1.isDone = false) : g.Spells S items ↔
    ∃ items', items = (getopt S g).1 :: items' ∧ (getopt S g).1.isOption = true ∧
      (getopt S g).2.Spells S items' := by
  cases items with
  | nil =>
      refine iff_of_false (fun hnil => ?_) (by simp)
      rw [spells_nil_iff.mp hnil] at h
      cases h
  | cons r items =>
      rw [spells_cons_iff]
      constructor
      · rintro ⟨rfl, hoption, hrest⟩
        exact ⟨items, rfl, hoption, hrest⟩
      · rintro ⟨items', heq, hoption, hrest⟩
        obtain ⟨rfl, rfl⟩ := List.cons.inj heq
        exact ⟨rfl, hoption, hrest⟩

/-! ## How far a call gets -/

theorem size_nextWord (h : (nextWord S args skipped).1.isDone = false) :
    (nextWord S args skipped).2.size < State.size ⟨[], args, skipped⟩ := by
  induction args generalizing skipped with
  | nil => cases h
  | cons word args ih =>
      rcases nextWord_cons S word args skipped with
        ⟨-, heq⟩ | ⟨c, rest, hword, -, heq⟩ | ⟨-, heq | heq⟩
      · rw [heq] at h
        cases h
      · rw [heq]
        refine Nat.lt_trans size_takeOption ?_
        simp [State.size, hword]
      · rw [heq] at h
        cases h
      · rw [heq] at h ⊢
        refine Nat.lt_trans (ih h) ?_
        simp [State.size]

theorem size_getopt (h : (getopt S g).1.isDone = false) : (getopt S g).2.size < g.size := by
  obtain ⟨cluster, args, skipped⟩ := g
  cases cluster with
  | nil => exact size_nextWord h
  | cons c rest => exact size_takeOption

end Calls

end Getopt
