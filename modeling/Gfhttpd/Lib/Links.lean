import Mathlib.Data.List.Nodup
import Mathlib.Logic.Function.Basic

/-!
# Lists whose elements carry their links

The elements of an intrusive list hold the pointers to their neighbours themselves, so a list is a
set of addresses and a memory that gives the links of every address.

- `Linked`: the links of these elements, in this order, between two given ends
- `pushBack`, `pushFront`, `unlink`, with what each keeps linked and what it leaves alone
- `walk`: the elements met on the way from the first one
-/

namespace Links

variable {A : Type*}

/-! ## Links -/

/-- The pointers of an element to its neighbours. -/
structure Link (A : Type*) where
  prev : Option A
  next : Option A
deriving DecidableEq

/-- The elements of the list are linked in its order: the first one points back to `before`, the last
one on to `after`. -/
def Linked (link : A → Link A) : Option A → List A → Option A → Prop
  | _, [], _ => True
  | before, a :: l, after =>
      (link a).prev = before ∧ (link a).next = l.head?.or after ∧ Linked link (some a) l after

theorem linked_append {link : A → Link A} {before after : Option A} {l₁ l₂ : List A} :
    Linked link before (l₁ ++ l₂) after ↔
      Linked link before l₁ (l₂.head?.or after) ∧ Linked link (l₁.getLast?.or before) l₂ after := by
  -- on the front part: its last element is what the back part points back to
  induction l₁ generalizing before with
  | nil => simp [Linked]
  | cons a l₁ ih =>
      have hlast : ((a :: l₁).getLast?.or before) = l₁.getLast?.or (some a) := by
        cases l₁ with
        | nil => rfl
        | cons b l₁ =>
            rw [List.getLast?_cons_cons, List.getLast?_eq_some_getLast (List.cons_ne_nil b l₁)]
            rfl
      have hnext : (l₁ ++ l₂).head?.or after = l₁.head?.or (l₂.head?.or after) := by
        cases l₁ with
        | nil => rfl
        | cons b l₁ => rfl
      rw [List.cons_append, Linked, Linked, ih, hlast, hnext, and_assoc, and_assoc]

/-- An element points to its neighbours. -/
theorem Linked.neighbours {link : A → Link A} {l₁ l₂ : List A} {a : A}
    (h : Linked link none (l₁ ++ a :: l₂) none) :
    (link a).prev = l₁.getLast? ∧ (link a).next = l₂.head? := by
  obtain ⟨-, hprev, hnext, -⟩ := linked_append.mp h
  rw [Option.or_none] at hprev hnext
  exact ⟨hprev, hnext⟩

/-- The element behind one of the list is one of the list. -/
theorem Linked.next_mem {link : A → Link A} {before : Option A} {l : List A}
    (h : Linked link before l none) {a b : A} (ha : a ∈ l) (hnext : (link a).next = some b) :
    b ∈ l := by
  -- the element behind `a` is the first one of what is left of the list there
  obtain ⟨l₁, l₂, rfl⟩ := List.append_of_mem ha
  obtain ⟨-, -, hnext', -⟩ := linked_append.mp h
  rw [Option.or_none, hnext] at hnext'
  exact List.mem_append_right _ (List.mem_cons_of_mem _ (List.mem_of_head? hnext'.symm))

/-- Only the links of the elements count. -/
theorem Linked.congr {link link' : A → Link A} {before after : Option A} {l : List A}
    (h : Linked link before l after) (hsame : ∀ a ∈ l, link' a = link a) :
    Linked link' before l after := by
  induction l generalizing before with
  | nil => trivial
  | cons a l ih =>
      obtain ⟨hprev, hnext, hrest⟩ := h
      rw [Linked, hsame a (List.mem_cons_self ..)]
      exact ⟨hprev, hnext, ih hrest fun b hb => hsame b (List.mem_cons_of_mem _ hb)⟩

/-! ## Walking -/

/-- The elements met from `first` on. -/
def walk (next : A → Option A) : ℕ → Option A → List A
  | 0, _ => []
  | _ + 1, none => []
  | fuel + 1, some a => a :: walk next fuel (next a)

theorem walk_linked {link : A → Link A} {before : Option A} {l : List A} {fuel : ℕ}
    (h : Linked link before l none) (hfuel : l.length ≤ fuel) :
    walk (fun a => (link a).next) fuel l.head? = l := by
  induction l generalizing before fuel with
  | nil => cases fuel <;> rfl
  | cons a l ih =>
      -- fuel for every element is enough
      cases fuel with
      | zero => cases hfuel
      | succ fuel =>
          obtain ⟨-, hnext, hrest⟩ := h
          rw [List.head?_cons, walk, hnext, Option.or_none, ih hrest (Nat.le_of_succ_le_succ hfuel)]

/-- The elements met are among any elements that are not left by the pointers. -/
theorem walk_subset {next : A → Option A} {S : A → Prop} (hnext : ∀ a b, S a → next a = some b → S b)
    {fuel : ℕ} {first : Option A} (hfirst : ∀ a, first = some a → S a) :
    ∀ a ∈ walk next fuel first, S a := by
  induction fuel generalizing first with
  | zero => intro a ha; cases ha
  | succ fuel ih =>
      cases first with
      | none => intro a ha; cases ha
      | some b =>
          have hb := hfirst b rfl
          rw [walk, List.forall_mem_cons]
          exact ⟨hb, ih fun c hc => hnext b c hb hc⟩

/-- Whoever has nobody in front is the first one, and the next one follows it. -/
theorem head_unlink (l₁ l₂ : List A) (a : A) :
    (if l₁.getLast? = none then l₂.head? else (l₁ ++ a :: l₂).head?) = (l₁ ++ l₂).head? := by
  cases l₁ with
  | nil => rfl
  | cons b l₁ =>
      rw [if_neg fun hnone => List.cons_ne_nil b l₁ (List.getLast?_eq_none_iff.mp hnone)]
      rfl

/-! ## Changing links -/

variable [DecidableEq A]

/-- Set the pointer of an element to the next one, if there is such an element. -/
def setNext (link : A → Link A) (a next : Option A) : A → Link A :=
  match a with
  | none => link
  | some a => Function.update link a { link a with next := next }

/-- Set the pointer of an element to the previous one, if there is such an element. -/
def setPrev (link : A → Link A) (a prev : Option A) : A → Link A :=
  match a with
  | none => link
  | some a => Function.update link a { link a with prev := prev }

/-- Add an element behind the last one. -/
def pushBack (link : A → Link A) (last : Option A) (a : A) : A → Link A :=
  setNext (Function.update link a ⟨last, none⟩) last (some a)

/-- Add an element in front of the first one. -/
def pushFront (link : A → Link A) (first : Option A) (a : A) : A → Link A :=
  setPrev (Function.update link a ⟨none, first⟩) first (some a)

/-- Let the neighbours of an element point to each other. -/
def unlink (link : A → Link A) (a : A) : A → Link A :=
  setPrev (setNext link (link a).prev (link a).next) (link a).next (link a).prev

@[simp] theorem setNext_of_ne {link : A → Link A} {a next : Option A} {b : A} (h : a ≠ some b) :
    setNext link a next b = link b := by
  cases a with
  | none => rfl
  | some a => exact Function.update_of_ne (fun heq => h (congrArg some heq.symm)) _ _

@[simp] theorem setPrev_of_ne {link : A → Link A} {a prev : Option A} {b : A} (h : a ≠ some b) :
    setPrev link a prev b = link b := by
  cases a with
  | none => rfl
  | some a => exact Function.update_of_ne (fun heq => h (congrArg some heq.symm)) _ _

/-- The last element of a list is set to point elsewhere. -/
theorem Linked.setNext_last {link : A → Link A} {before after : Option A} {l : List A}
    (h : Linked link before l after) (hl : l.Nodup) (next : Option A) :
    Linked (setNext link l.getLast? next) before l next := by
  rcases List.eq_nil_or_concat l with rfl | ⟨l, a, rfl⟩
  · trivial
  · rw [List.concat_eq_append] at *
    rw [linked_append] at h ⊢
    obtain ⟨hfront, hprev, -, -⟩ := h
    rw [List.getLast?_concat]
    -- the change is at the last element alone
    have hnot : a ∉ l := fun hmem =>
      (List.disjoint_of_nodup_append hl) hmem (List.mem_singleton.mpr rfl)
    refine ⟨hfront.congr fun b hb => setNext_of_ne ?_, ?_, ?_, trivial⟩
    · rintro ⟨rfl⟩
      exact hnot hb
    · simpa [setNext] using hprev
    · simp [setNext]

/-- The first element of a list is set to point back elsewhere. -/
theorem Linked.setPrev_first {link : A → Link A} {before after : Option A} {l : List A}
    (h : Linked link before l after) (hl : l.Nodup) (prev : Option A) :
    Linked (setPrev link l.head? prev) prev l after := by
  cases l with
  | nil => trivial
  | cons a l =>
      obtain ⟨-, hnext, hrest⟩ := h
      refine ⟨by simp [setPrev], by simpa [setPrev] using hnext, hrest.congr fun b hb => ?_⟩
      apply setPrev_of_ne
      rintro ⟨rfl⟩
      exact (List.nodup_cons.mp hl).1 hb

/-! ## The operations -/

theorem Linked.pushBack {link : A → Link A} {l : List A} {a : A} (h : Linked link none l none)
    (hl : l.Nodup) (ha : a ∉ l) : Linked (pushBack link l.getLast? a) none (l ++ [a]) none := by
  -- writing the links of the new element leaves the list as it is
  have hnew : Linked (Function.update link a ⟨l.getLast?, none⟩) none l none :=
    h.congr fun b hb => Function.update_of_ne (fun heq : b = a => ha (heq ▸ hb)) _ _
  rw [linked_append]
  refine ⟨hnew.setNext_last hl (some a), ?_⟩
  -- the new element is not the last one of the list
  have hne : l.getLast? ≠ some a := fun hlast => ha (List.mem_of_getLast? hlast)
  simp [Linked, Links.pushBack, setNext_of_ne hne]

theorem Linked.pushFront {link : A → Link A} {l : List A} {a : A} (h : Linked link none l none)
    (hl : l.Nodup) (ha : a ∉ l) : Linked (pushFront link l.head? a) none (a :: l) none := by
  have hnew : Linked (Function.update link a ⟨none, l.head?⟩) none l none :=
    h.congr fun b hb => Function.update_of_ne (fun heq : b = a => ha (heq ▸ hb)) _ _
  have hne : l.head? ≠ some a := fun hhead => ha (List.mem_of_head? hhead)
  refine ⟨?_, ?_, hnew.setPrev_first hl (some a)⟩
  · simp [Links.pushFront, setPrev_of_ne hne]
  · simp [Links.pushFront, setPrev_of_ne hne]

theorem Linked.unlink {link : A → Link A} {l₁ l₂ : List A} {a : A}
    (h : Linked link none (l₁ ++ a :: l₂) none) (hl : (l₁ ++ a :: l₂).Nodup) :
    Linked (unlink link a) none (l₁ ++ l₂) none := by
  obtain ⟨hl₁, hl₂, hdisjoint⟩ := List.nodup_append.mp hl
  rw [linked_append] at h ⊢
  obtain ⟨hfront, hprev, hnext, hback⟩ := h
  rw [Option.or_none] at hprev hnext
  unfold Links.unlink
  rw [hprev, hnext, Option.or_none, Option.or_none]
  -- the pointer set in front of the element is none of those behind it
  have hback' : Linked (setNext link l₁.getLast? l₂.head?) (some a) l₂ none := by
    apply hback.congr
    intro b hb
    apply setNext_of_ne
    intro hlast
    exact hdisjoint b (List.mem_of_getLast? hlast) b (List.mem_cons_of_mem _ hb) rfl
  constructor
  · apply (hfront.setNext_last hl₁ l₂.head?).congr
    intro b hb
    apply setPrev_of_ne
    intro hhead
    exact hdisjoint b hb b (List.mem_cons_of_mem _ (List.mem_of_head? hhead)) rfl
  · exact hback'.setPrev_first (List.nodup_cons.mp hl₂).2 _

/-! ## The ends -/

theorem first_unlink {l₁ l₂ : List A} {a : A} (ha : a ∉ l₁) :
    (if (l₁ ++ a :: l₂).head? = some a then l₂.head? else (l₁ ++ a :: l₂).head?) =
      (l₁ ++ l₂).head? := by
  cases l₁ with
  | nil => exact if_pos rfl
  | cons b l₁ =>
      apply if_neg
      rintro ⟨rfl⟩
      exact ha (List.mem_cons_self ..)

theorem last_unlink {l₁ l₂ : List A} {a : A} (ha : a ∉ l₂) :
    (if (l₁ ++ a :: l₂).getLast? = some a then l₁.getLast? else (l₁ ++ a :: l₂).getLast?) =
      (l₁ ++ l₂).getLast? := by
  rcases List.eq_nil_or_concat l₂ with rfl | ⟨l₂, b, rfl⟩
  · rw [List.getLast?_concat, if_pos rfl, List.append_nil]
  · rw [List.concat_eq_append] at *
    have hlast : (l₁ ++ a :: (l₂ ++ [b])).getLast? = some b := by
      rw [← List.cons_append, ← List.append_assoc, List.getLast?_concat]
    rw [hlast, if_neg, ← List.append_assoc, List.getLast?_concat]
    rintro ⟨rfl⟩
    exact ha (List.mem_append_right _ (List.mem_singleton.mpr rfl))

/-! ## What they leave alone -/

theorem pushFront_of_ne {link : A → Link A} {first : Option A} {a b : A} (hb : b ≠ a)
    (hfirst : first ≠ some b) : pushFront link first a b = link b := by
  rw [pushFront, setPrev_of_ne hfirst, Function.update_of_ne hb]

theorem unlink_of_ne {link : A → Link A} {a b : A} (hprev : (link a).prev ≠ some b)
    (hnext : (link a).next ≠ some b) : unlink link a b = link b := by
  rw [unlink, setPrev_of_ne hnext, setNext_of_ne hprev]

end Links
