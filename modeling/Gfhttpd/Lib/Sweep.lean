import Gfhttpd.Lib.HandleTable
import Gfhttpd.Lib.Loop

/-!
# Walking a table while its elements leave it

The walk reads the pointer to the next element before the body is run on the current one, so the
body may take the current one out of the table, and give its memory away.

- `sweep`: the loop
- `Stays`: what its body does to the elements: the current one stays in the table, or leaves it
- `Stays.sweep_ends`: the body is run once on every element, in their order
- `chained_next`: the pointers of a table with chains lead from each element to the next
-/

namespace HandleTable

open Links Loop

variable {A K H T S : Type*}

/-! ## The loop -/

/-- The pointers of the walk to the current element and to the next one, with the state that the body
works on. -/
structure Cursor (A S : Type*) where
  el : Option A
  tmp : Option A
  state : S
deriving DecidableEq

/-- `el = head, tmp = head ? next(head) : NULL`. -/
def Cursor.start (head : S → Option A) (next : S → A → Option A) (s : S) : Cursor A S :=
  ⟨head s, (head s).bind (next s), s⟩

/-- `for (...; el; el = tmp, tmp = tmp ? next(tmp) : NULL) body(el)`. -/
def sweep (next : S → A → Option A) (body : S → A → S) : While (Cursor A S) where
  goesOn c := c.el.isSome
  body c := c.el.map fun a =>
    let s := body c.state a
    ⟨c.tmp, c.tmp.bind (next s), s⟩

/-- The elements of the list that are left by the body. -/
def remaining (stays : S → A → Bool) (body : S → A → S) : S → List A → List A
  | _, [] => []
  | s, a :: l => (if stays s a then [a] else []) ++ remaining stays body (body s a) l

/-- The state has these elements, in this order; the body leaves all but the current one in it. -/
structure Stays (Holds : S → List A → Prop) (head : S → Option A) (next : S → A → Option A)
    (body : S → A → S) (stays : S → A → Bool) : Prop where
  head : ∀ {s l}, Holds s l → head s = l.head?
  next : ∀ {s l₁ a l₂}, Holds s (l₁ ++ a :: l₂) → next s a = l₂.head?
  body : ∀ {s l₁ a l₂}, Holds s (l₁ ++ a :: l₂) →
    Holds (body s a) ((l₁ ++ if stays s a then [a] else []) ++ l₂)

section Sweep

variable {Holds : S → List A → Prop} {head : S → Option A} {next : S → A → Option A}
  {body : S → A → S} {stays : S → A → Bool}

/-- When a round begins, the current element is in the table, and the other pointer is at the one behind
it. -/
def AtElement (Holds : S → List A → Prop) (c : Cursor A S) : Prop :=
  ∃ l₁ a l₂, Holds c.state (l₁ ++ a :: l₂) ∧ c.el = some a ∧ c.tmp = l₂.head?

/-- The walk from an element on; those behind it are still to come. -/
theorem Stays.sweep_from (h : Stays Holds head next body stays) (l₁ l₂ : List A) (s : S)
    (hs : Holds s (l₁ ++ l₂)) :
    ∃ begins, (sweep next body).Ends ⟨l₂.head?, l₂.head?.bind (next s), s⟩ begins
        (some ⟨none, none, l₂.foldl body s⟩) ∧
      begins.map Cursor.el = l₂.map some ∧ (∀ c ∈ begins, AtElement Holds c) ∧
      Holds (l₂.foldl body s) (l₁ ++ remaining stays body s l₂) := by
  induction l₂ generalizing l₁ s with
  | nil => exact ⟨[], .stop rfl, rfl, nofun, hs⟩
  | cons a l₂ ih =>
      -- the pointer that was read before the body still leads to the next one, and from there on
      have hbody := h.body hs
      obtain ⟨begins, hends, hvisited, hat, hholds⟩ := ih _ (body s a) hbody
      refine ⟨⟨some a, l₂.head?, s⟩ :: begins, ?_, ?_, ?_, ?_⟩
      · rw [List.head?_cons, Option.bind_some, h.next hs]
        exact .round rfl rfl hends
      · rw [List.map_cons, hvisited, List.map_cons]
      · exact List.forall_mem_cons.mpr ⟨⟨l₁, a, l₂, hs, rfl, rfl⟩, hat⟩
      · rwa [List.foldl_cons, remaining, ← List.append_assoc]

/-- **The loop ends.  Its body is run once on every element, in their order, while that is in the table,
and those are left in the table that stay in it.** -/
theorem Stays.sweep_ends (h : Stays Holds head next body stays) {s : S} {l : List A}
    (hs : Holds s l) :
    ∃ begins, (sweep next body).Ends (.start head next s) begins
        (some ⟨none, none, l.foldl body s⟩) ∧
      begins.map Cursor.el = l.map some ∧ (∀ c ∈ begins, AtElement Holds c) ∧
      Holds (l.foldl body s) (remaining stays body s l) := by
  unfold Cursor.start
  rw [h.head hs]
  exact h.sweep_from [] l s hs

end Sweep

theorem remaining_eq_nil {stays : S → A → Bool} {body : S → A → S} (h : ∀ s a, stays s a = false)
    (s : S) (l : List A) : remaining stays body s l = [] := by
  induction l generalizing s with
  | nil => rfl
  | cons a l ih => simp [remaining, h, ih]

/-! ## The pointers of a table -/

/-- The pointer of an element to the next one. -/
def chainedNext (t : Table A (Handle A) (Buckets A)) (a : A) : Option A :=
  (orderOf t.handle a).next

/-- The first element is `t.head`, and the pointer of each leads to the next. -/
structure Ordered (next : Table A H T → A → Option A)
    (Intact : (A → K) → Table A H T → List A → Prop) : Prop where
  head : ∀ {key t l}, Intact key t l → t.head = l.head?
  next : ∀ {key t l₁ a l₂}, Intact key t (l₁ ++ a :: l₂) → next t a = l₂.head?

theorem chained_ordered (hash : K → ℕ) (keylen : ℕ) :
    Ordered chainedNext (Intact (A := A) hash keylen) where
  head h := h.head
  next h := (h.filled (List.append_ne_nil_of_right_ne_nil _ (List.cons_ne_nil _ _))).order.neighbours.2

end HandleTable
