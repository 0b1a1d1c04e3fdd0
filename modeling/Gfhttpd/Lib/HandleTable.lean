import Gfhttpd.Lib.Links
import Mathlib.Data.Finmap

/-!
# Hash tables of elements that carry their handles

An intrusive hash table does not own its elements.  Each has a handle among its fields, with the
pointers of the table in it, and the table is a pointer to its first element and some memory of its
own.

- `Maps`: the elements of a list, as a finite map
- `Ops`: the operations of such a table, and `Correct`: what they do as long as nobody else changes
  the handles
- `chained`: a table with an order of insertion and a chain for every bucket, through the handles
- `chained_correct`: it is correct
-/

namespace HandleTable

open Links

variable {A K V H T : Type*}

/-! ## What a table is for -/

/-- The elements of the list, as a finite map. -/
def Maps [DecidableEq K] (key : A → K) (val : A → V) (m : Finmap fun _ : K => V) (l : List A) : Prop :=
  ∀ k v, m.lookup k = some v ↔ ∃ a ∈ l, key a = k ∧ val a = v

section Maps

variable [DecidableEq K] {key : A → K} {val : A → V} {m : Finmap fun _ : K => V} {l : List A}

theorem Maps.nil (key : A → K) (val : A → V) : Maps key val ∅ [] := by
  intro k v
  simp

/-- An element with a new key. -/
theorem Maps.insert (h : Maps key val m l) {a : A} (ha : ∀ b ∈ l, key b ≠ key a) :
    Maps key val (m.insert (key a) (val a)) (l ++ [a]) := by
  intro k v
  by_cases hk : k = key a
  · -- the new element is the only one with its key
    subst hk
    rw [Finmap.lookup_insert, Option.some.injEq]
    constructor
    · intro hv
      exact ⟨a, List.mem_append_right l (List.mem_singleton.mpr rfl), rfl, hv⟩
    · rintro ⟨b, hb, hkey, hval⟩
      rcases List.mem_append.mp hb with hb | hb
      · exact absurd hkey (ha b hb)
      · rwa [List.mem_singleton.mp hb] at hval
  · rw [Finmap.lookup_insert_of_ne m hk, h k v]
    constructor
    · rintro ⟨b, hb, hb'⟩
      exact ⟨b, List.mem_append_left _ hb, hb'⟩
    · rintro ⟨b, hb, hkey, hval⟩
      rcases List.mem_append.mp hb with hb | hb
      · exact ⟨b, hb, hkey, hval⟩
      · exact absurd (hkey.symm.trans (congrArg key (List.mem_singleton.mp hb))) hk

theorem Maps.erase [DecidableEq A] (h : Maps key val m l) (hkeys : (l.map key).Nodup) {a : A}
    (ha : a ∈ l) : Maps key val (m.erase (key a)) (l.erase a) := by
  have hnodup := hkeys.of_map
  intro k v
  by_cases hk : k = key a
  · subst hk
    rw [Finmap.lookup_erase]
    -- who is left has another key
    refine iff_of_false (Option.some_ne_none v).symm ?_
    rintro ⟨b, hb, hkey, -⟩
    obtain ⟨hne, hmem⟩ := hnodup.mem_erase_iff.mp hb
    exact hne (List.inj_on_of_nodup_map hkeys hmem ha hkey)
  · rw [Finmap.lookup_erase_ne hk, h k v]
    constructor
    · rintro ⟨b, hb, hkey, hval⟩
      refine ⟨b, hnodup.mem_erase_iff.mpr ⟨?_, hb⟩, hkey, hval⟩
      rintro rfl
      exact hk hkey.symm
    · rintro ⟨b, hb, hb'⟩
      exact ⟨b, List.mem_of_mem_erase hb, hb'⟩

/-- The value of one element changes. -/
theorem Maps.update (h : Maps key val m l) (hkeys : (l.map key).Nodup) {val' : A → V} {a : A}
    (ha : a ∈ l) (hsame : ∀ b ∈ l, b ≠ a → val' b = val b) :
    Maps key val' (m.insert (key a) (val' a)) l := by
  intro k v
  by_cases hk : k = key a
  · subst hk
    rw [Finmap.lookup_insert, Option.some.injEq]
    constructor
    · intro hv
      exact ⟨a, ha, rfl, hv⟩
    · rintro ⟨b, hb, hkey, hval⟩
      rwa [List.inj_on_of_nodup_map hkeys hb ha hkey] at hval
  · rw [Finmap.lookup_insert_of_ne m hk, h k v]
    apply exists_congr
    intro b
    apply and_congr_right
    intro hb
    apply and_congr_right
    intro hkey
    rw [hsame b hb fun heq => hk (hkey.symm.trans (congrArg key heq))]

/-- The elements of a list of images. -/
theorem maps_map_iff {B : Type*} {f : B → A} {l : List B} :
    Maps key val m (l.map f) ↔ Maps (key ∘ f) (val ∘ f) m l := by
  simp only [Maps, List.mem_map, exists_exists_and_eq_and, Function.comp_apply]

/-- Only the elements count. -/
theorem Maps.congr (h : Maps key val m l) {key' : A → K} {val' : A → V}
    (hsame : ∀ a ∈ l, key' a = key a ∧ val' a = val a) : Maps key' val' m l := by
  intro k v
  rw [h k v]
  apply exists_congr
  intro a
  apply and_congr_right
  intro ha
  rw [(hsame a ha).1, (hsame a ha).2]

/-- Looking up in the map is looking for an element with that key. -/
theorem Maps.lookup (h : Maps key val m l) (k : K) :
    (l.find? fun a => decide (key a = k)).map val = m.lookup k := by
  cases hfind : l.find? fun a => decide (key a = k) with
  | none =>
      symm
      rw [Option.map_none, Option.eq_none_iff_forall_ne_some]
      intro v hv
      obtain ⟨a, ha, hkey, -⟩ := (h k v).mp hv
      exact List.find?_eq_none.mp hfind a ha (decide_eq_true hkey)
  | some a =>
      have hkey : key a = k := by simpa using List.find?_some hfind
      exact ((h k (val a)).mpr ⟨a, List.mem_of_find?_eq_some hfind, hkey, rfl⟩).symm

/-- The elements are the entries of the map. -/
theorem Maps.entries (h : Maps key val m l) (hkeys : (l.map key).Nodup) :
    m.entries = ↑(l.map fun a => (⟨key a, val a⟩ : Sigma fun _ : K => V)) := by
  -- two lists of entries without repetition, and with the same members
  have hnodup : (l.map fun a => (⟨key a, val a⟩ : Sigma fun _ : K => V)).Nodup := by
    apply List.Nodup.of_map Sigma.fst
    rwa [List.map_map]
  rw [Multiset.Nodup.ext m.nodup_entries (Multiset.coe_nodup.mpr hnodup)]
  rintro ⟨k, v⟩
  rw [← Finmap.lookup_eq_some_iff, h k v, Multiset.mem_coe, List.mem_map]
  simp

/-- There are as many keys as elements. -/
theorem Maps.card_keys (h : Maps key val m l) (hkeys : (l.map key).Nodup) :
    m.keys.card = l.length := by
  show Multiset.card (m.entries.map Sigma.fst) = l.length
  rw [h.entries hkeys, Multiset.card_map, Multiset.coe_card, List.length_map]

end Maps

/-! ## The operations -/

/-- A table as its operations see it: the handles of all elements, its first element, and its own
memory. -/
structure Table (A H T : Type*) where
  handle : A → H
  head : Option A
  mem : T

/-- The operations of a table.  `add` and `find` read the keys of the elements. -/
structure Ops (A K H T : Type*) where
  empty : T
  add : (A → K) → Table A H T → A → Table A H T
  del : Table A H T → A → Table A H T
  find : (A → K) → Table A H T → K → Option A
  /-- the elements from the first one on -/
  iter : Table A H T → List A
  count : Table A H T → ℕ

/-- The operations are right for the elements `l`, in the order in which they were added, while
`Intact` holds; keys have to be unique, and only what is in the table can be deleted. -/
structure Correct [DecidableEq A] [DecidableEq K] (U : Ops A K H T)
    (Intact : (A → K) → Table A H T → List A → Prop) : Prop where
  empty : ∀ key handle, Intact key ⟨handle, none, U.empty⟩ []
  /-- nothing but the handles and the keys of the elements counts -/
  frame : ∀ {key key' t l handle}, Intact key t l →
    (∀ a ∈ l, key' a = key a ∧ handle a = t.handle a) → Intact key' { t with handle := handle } l
  add : ∀ {key t l a}, Intact key t l → a ∉ l → (∀ b ∈ l, key b ≠ key a) →
    Intact key (U.add key t a) (l ++ [a])
  del : ∀ {key t l a}, Intact key t l → a ∈ l → Intact key (U.del t a) (l.erase a)
  find : ∀ {key t l}, Intact key t l → ∀ k, U.find key t k = l.find? fun a => decide (key a = k)
  iter : ∀ {key t l}, Intact key t l → U.iter t = l
  count : ∀ {key t l}, Intact key t l → U.count t = l.length

/-! ## A table with chains -/

/-- The handle of an element: whether it points to a table, its place in the order of insertion and in
the chain of its bucket, the element whose key it points to, the length of that key and its hash
value. -/
structure Handle (A : Type*) where
  tbl : Bool
  order : Link A
  chain : Link A
  key : Option A
  keylen : ℕ
  hashv : ℕ
deriving DecidableEq

/-- A handle filled with zeros. -/
def Handle.zero : Handle A := ⟨false, ⟨none, none⟩, ⟨none, none⟩, none, 0, 0⟩

/-- The memory of a table: the last element, the number of elements, and the first element of every
bucket. -/
structure Buckets (A : Type*) where
  tail : Option A
  numItems : ℕ
  bucket : ℕ → Option A

/-- The memory of a new table. -/
def Buckets.fresh : Buckets A := ⟨none, 0, fun _ => none⟩

/-- The number of buckets. -/
def numBuckets : ℕ := 32

section Chained

variable (hash : K → ℕ) (keylen : ℕ)

/-- The links of the order of insertion. -/
def orderOf (handle : A → Handle A) : A → Link A := fun a => (handle a).order

/-- The links of the buckets. -/
def chainOf (handle : A → Handle A) : A → Link A := fun a => (handle a).chain

/-- The elements of a bucket, from the newest one on. -/
def inBucket (key : A → K) (k : ℕ) (l : List A) : List A :=
  (l.filter fun a => decide (hash (key a) % numBuckets = k)).reverse

/-! ## What a table holds -/

/-- The handles and the memory of a table with these elements. -/
structure Filled (key : A → K) (t : Table A (Handle A) (Buckets A)) (l : List A) : Prop where
  order : Linked (orderOf t.handle) none l none
  tail : t.mem.tail = l.getLast?
  count : t.mem.numItems = l.length
  chain : ∀ k, Linked (chainOf t.handle) none (inBucket hash key k l) none
  bucket : ∀ k, t.mem.bucket k = (inBucket hash key k l).head?
  handle : ∀ a ∈ l, t.handle a =
    ⟨true, (t.handle a).order, (t.handle a).chain, some a, keylen, hash (key a)⟩

/-- A table with these elements; nothing is left of a table without any. -/
structure Intact (key : A → K) (t : Table A (Handle A) (Buckets A)) (l : List A) : Prop where
  head : t.head = l.head?
  nodup : l.Nodup
  keys : (l.map key).Nodup
  filled : l ≠ [] → Filled hash keylen key t l

variable {hash keylen} {key : A → K} {t : Table A (Handle A) (Buckets A)} {l : List A}

theorem mem_inBucket {k : ℕ} {a : A} :
    a ∈ inBucket hash key k l ↔ a ∈ l ∧ hash (key a) % numBuckets = k := by
  rw [inBucket, List.mem_reverse, List.mem_filter, decide_eq_true_iff]

theorem inBucket_append (k : ℕ) (l l' : List A) :
    inBucket hash key k (l ++ l') = inBucket hash key k l' ++ inBucket hash key k l := by
  rw [inBucket, List.filter_append, List.reverse_append]
  rfl

theorem inBucket_cons (k : ℕ) (a : A) (l : List A) : inBucket hash key k (a :: l) =
    inBucket hash key k l ++ if hash (key a) % numBuckets = k then [a] else [] := by
  unfold inBucket
  rw [List.filter_cons]
  split
  · next h => rw [List.reverse_cons, if_pos (of_decide_eq_true h)]
  · next h => rw [if_neg fun heq => h (decide_eq_true heq), List.append_nil]

/-- What a bucket holds, around one element of the table. -/
theorem inBucket_split (k : ℕ) (l₁ l₂ : List A) (a : A) :
    inBucket hash key k (l₁ ++ a :: l₂) = inBucket hash key k l₂ ++
      ((if hash (key a) % numBuckets = k then [a] else []) ++ inBucket hash key k l₁) := by
  rw [inBucket_append, inBucket_cons, List.append_assoc]

theorem nodup_inBucket (h : l.Nodup) (k : ℕ) : (inBucket hash key k l).Nodup :=
  List.nodup_reverse.mpr (h.filter _)

/-- An element of one bucket is in no other. -/
theorem ne_of_inBucket {k k' : ℕ} {a b : A} (ha : a ∈ inBucket hash key k l)
    (hb : b ∈ inBucket hash key k' l) (hk : k ≠ k') : a ≠ b := by
  rintro rfl
  exact hk ((mem_inBucket.mp ha).2.symm.trans (mem_inBucket.mp hb).2)

/-- The first element gets a table that is empty. -/
theorem Intact.filled_start (h : Intact hash keylen key t l) :
    Filled hash keylen key
      { t with mem := if t.head = none then Buckets.fresh else t.mem } l := by
  cases l with
  | nil =>
      -- whatever the memory was, it is fresh
      rw [h.head, List.head?_nil, if_pos rfl]
      exact ⟨trivial, rfl, rfl, fun k => trivial, fun k => rfl, fun a ha => by cases ha⟩
  | cons a l =>
      have hhead : ¬ t.head = none := by
        rw [h.head]
        exact Option.some_ne_none a
      rw [if_neg hhead]
      exact h.filled (List.cons_ne_nil a l)

theorem Intact.frame (h : Intact hash keylen key t l) {key' : A → K} {handle : A → Handle A}
    (hsame : ∀ a ∈ l, key' a = key a ∧ handle a = t.handle a) :
    Intact hash keylen key' { t with handle := handle } l := by
  have hbuckets : ∀ k, inBucket hash key' k l = inBucket hash key k l := by
    intro k
    unfold inBucket
    rw [List.filter_congr fun a ha => by rw [(hsame a ha).1]]
  refine ⟨h.head, h.nodup, ?_, fun hne => ?_⟩
  · rw [List.map_congr_left fun a ha => (hsame a ha).1]
    exact h.keys
  · obtain ⟨horder, htail, hcount, hchain, hbucket, hhandle⟩ := h.filled hne
    refine ⟨?_, htail, hcount, fun k => ?_, fun k => ?_, fun a ha => ?_⟩
    · exact horder.congr fun a ha => congrArg Handle.order (hsame a ha).2
    · rw [hbuckets]
      exact (hchain k).congr fun a ha => congrArg Handle.chain (hsame a (mem_inBucket.mp ha).1).2
    · rw [hbuckets]
      exact hbucket k
    · show handle a = ⟨true, (handle a).order, (handle a).chain, some a, keylen, hash (key' a)⟩
      rw [(hsame a ha).1, (hsame a ha).2]
      exact hhandle a ha

/-! ## Walking and counting -/

/-- The elements in the order of insertion. -/
def chainedIter (t : Table A (Handle A) (Buckets A)) : List A :=
  walk (fun a => (orderOf t.handle a).next) t.mem.numItems t.head

/-- The number of elements. -/
def chainedCount (t : Table A (Handle A) (Buckets A)) : ℕ :=
  if t.head.any fun a => (t.handle a).tbl then t.mem.numItems else 0

theorem Intact.iter (h : Intact hash keylen key t l) : chainedIter t = l := by
  cases l with
  | nil =>
      rw [chainedIter, h.head]
      cases t.mem.numItems <;> rfl
  | cons a l =>
      have hfilled := h.filled (List.cons_ne_nil a l)
      rw [chainedIter, h.head]
      exact walk_linked hfilled.order (Nat.le_of_eq hfilled.count.symm)

/-- The first element points to the table. -/
theorem Intact.head_tbl (h : Intact hash keylen key t l) :
    (t.head.any fun a => (t.handle a).tbl) = !l.isEmpty := by
  rw [h.head]
  cases l with
  | nil => rfl
  | cons a l =>
      rw [List.head?_cons, Option.any_some,
        (h.filled (List.cons_ne_nil a l)).handle a (List.mem_cons_self ..)]
      rfl

theorem Intact.count (h : Intact hash keylen key t l) : chainedCount t = l.length := by
  rw [chainedCount, h.head_tbl]
  cases l with
  | nil => rfl
  | cons a l => exact (h.filled (List.cons_ne_nil a l)).count

/-! ## Looking up -/

section Lookup

variable [DecidableEq K]

/-- The handle of the element matches the key. -/
def keyMatches (hash : K → ℕ) (keylen : ℕ) (key : A → K)
    (t : Table A (Handle A) (Buckets A)) (k : K) (a : A) : Bool :=
  let h := t.handle a
  h.hashv == hash k && h.keylen == keylen && decide (h.key.map key = some k)

/-- Look a key up in its bucket.  The table is found through its first element; without one there,
nothing is found. -/
def chainedFind (hash : K → ℕ) (keylen : ℕ) (key : A → K) (t : Table A (Handle A) (Buckets A))
    (k : K) : Option A :=
  if t.head.any fun a => (t.handle a).tbl then
    (walk (fun a => (chainOf t.handle a).next) t.mem.numItems
      (t.mem.bucket (hash k % numBuckets))).find? (keyMatches hash keylen key t k)
  else none

/-- Among unique keys, who has the one looked for does not depend on where one looks. -/
theorem find?_unique {l l' : List A} {p : A → Bool} {k : K} (hkeys : (l.map key).Nodup)
    (hsub : ∀ a ∈ l', a ∈ l) (hmem : ∀ a ∈ l, key a = k → a ∈ l')
    (hp : ∀ a ∈ l', p a = true ↔ key a = k) :
    l'.find? p = l.find? fun a => decide (key a = k) := by
  cases hfind : l'.find? p with
  | none =>
      symm
      rw [List.find?_eq_none] at hfind ⊢
      intro a ha hkey
      have hkey := of_decide_eq_true hkey
      exact hfind a (hmem a ha hkey) ((hp a (hmem a ha hkey)).mpr hkey)
  | some a =>
      have ha := List.mem_of_find?_eq_some hfind
      have hkey := (hp a ha).mp (List.find?_some hfind)
      cases hfind' : l.find? fun a => decide (key a = k) with
      | none =>
          exact absurd (decide_eq_true hkey) (List.find?_eq_none.mp hfind' a (hsub a ha))
      | some b =>
          have hb : key b = k := by simpa using List.find?_some hfind'
          rw [List.inj_on_of_nodup_map hkeys (hsub a ha) (List.mem_of_find?_eq_some hfind')
            (hkey.trans hb.symm)]

theorem Intact.find (h : Intact hash keylen key t l) (k : K) :
    chainedFind hash keylen key t k = l.find? fun a => decide (key a = k) := by
  rw [chainedFind, h.head_tbl]
  cases hl : l with
  | nil => rfl
  | cons b l' =>
      rw [← hl]
      have hfilled := h.filled (hl ▸ List.cons_ne_nil b l')
      -- the fuel is enough for the bucket
      have hfew : (inBucket hash key (hash k % numBuckets) l).length ≤ t.mem.numItems := by
        rw [hfilled.count, inBucket, List.length_reverse]
        exact List.length_filter_le ..
      have hwalk : walk (fun a => (chainOf t.handle a).next) t.mem.numItems
          (t.mem.bucket (hash k % numBuckets)) = inBucket hash key (hash k % numBuckets) l := by
        rw [hfilled.bucket]
        exact walk_linked (hfilled.chain _) hfew
      have hnonempty : (!l.isEmpty) = true := by
        rw [hl]
        rfl
      rw [if_pos hnonempty, hwalk]
      -- a bucket has all elements with the key, and their handles say what their keys say
      apply find?_unique h.keys
      · intro a ha
        exact (mem_inBucket.mp ha).1
      · intro a ha hkey
        exact mem_inBucket.mpr ⟨ha, by rw [hkey]⟩
      · intro a ha
        rw [keyMatches, hfilled.handle a (mem_inBucket.mp ha).1]
        simp only [beq_self_eq_true, Bool.and_true, Bool.and_eq_true, beq_iff_eq, Option.map_some,
          Option.some.injEq, decide_eq_true_eq, and_iff_right_iff_imp]
        intro hkey
        rw [hkey]

end Lookup

/-! ## What the operations do -/

variable [DecidableEq A] (hash keylen)

/-- Add an element: it is the last one in the order, and the first one of its bucket.  The first element
of all gets a new table. -/
def chainedAdd (key : A → K) (t : Table A (Handle A) (Buckets A)) (a : A) :
    Table A (Handle A) (Buckets A) :=
  -- the table is made with its first element
  let mem := if t.head = none then Buckets.fresh else t.mem
  let k := hash (key a) % numBuckets
  let order := pushBack (orderOf t.handle) mem.tail a
  let chain := pushFront (chainOf t.handle) (mem.bucket k) a
  { handle := fun b =>
      if b = a then ⟨true, order a, chain a, some a, keylen, hash (key a)⟩
      else { t.handle b with order := order b, chain := chain b }
    head := t.head.or (some a)
    mem := ⟨some a, mem.numItems + 1, Function.update mem.bucket k (some a)⟩ }

/-- Delete an element, by what its handle says.  With the last one the table is given back. -/
def chainedDel (t : Table A (Handle A) (Buckets A)) (a : A) : Table A (Handle A) (Buckets A) :=
  let h := t.handle a
  -- no neighbours: nobody else is in the table
  if h.order.prev = none ∧ h.order.next = none then { t with head := none }
  else
    -- the bucket is told by the hash value in the handle, the key is not read again
    let k := h.hashv % numBuckets
    let order := unlink (orderOf t.handle) a
    let chain := unlink (chainOf t.handle) a
    { handle := fun b => { t.handle b with order := order b, chain := chain b }
      head := if h.order.prev = none then h.order.next else t.head
      mem :=
        { tail := if t.mem.tail = some a then h.order.prev else t.mem.tail
          numItems := t.mem.numItems - 1
          bucket :=
            if t.mem.bucket k = some a then Function.update t.mem.bucket k h.chain.next
            else t.mem.bucket } }

variable {hash keylen}

/-! ## Adding -/

theorem orderOf_chainedAdd (a : A) : orderOf (chainedAdd hash keylen key t a).handle =
    pushBack (orderOf t.handle) (if t.head = none then Buckets.fresh else t.mem).tail a := by
  funext b
  unfold orderOf chainedAdd
  dsimp only
  split
  · next heq =>
      rw [heq]
      rfl
  · rfl

theorem chainOf_chainedAdd (a : A) : chainOf (chainedAdd hash keylen key t a).handle =
    pushFront (chainOf t.handle)
      ((if t.head = none then Buckets.fresh else t.mem).bucket (hash (key a) % numBuckets)) a := by
  funext b
  unfold chainOf chainedAdd
  dsimp only
  split
  · next heq =>
      rw [heq]
      rfl
  · rfl

theorem Intact.add (h : Intact hash keylen key t l) {a : A} (ha : a ∉ l)
    (hkey : ∀ b ∈ l, key b ≠ key a) :
    Intact hash keylen key (chainedAdd hash keylen key t a) (l ++ [a]) := by
  obtain ⟨horder, htail, hcount, hchain, hbucket, hhandle⟩ := h.filled_start
  have hnew : ∀ k, inBucket hash key k (l ++ [a]) =
      (if hash (key a) % numBuckets = k then [a] else []) ++ inBucket hash key k l := by
    intro k
    rw [inBucket_append, inBucket_cons]
    rfl
  have hnot : ∀ k, a ∉ inBucket hash key k l := fun k hmem => ha (mem_inBucket.mp hmem).1
  refine ⟨?_, ?_, ?_, fun _ => ⟨?_, ?_, ?_, fun k => ?_, fun k => ?_, fun b hb => ?_⟩⟩
  · show t.head.or (some a) = _
    rw [h.head, List.head?_append]
    rfl
  · exact List.nodup_append.mpr ⟨h.nodup, List.nodup_singleton a, fun b hb c hc heq =>
      ha (List.mem_singleton.mp hc ▸ heq ▸ hb)⟩
  · rw [List.map_append]
    refine List.nodup_append.mpr ⟨h.keys, List.nodup_singleton _, fun k hk k' hk' heq => ?_⟩
    obtain ⟨b, hb, rfl⟩ := List.mem_map.mp hk
    exact hkey b hb (heq.trans (List.mem_singleton.mp hk'))
  · rw [orderOf_chainedAdd, show (if t.head = none then Buckets.fresh else t.mem).tail = _ from htail]
    exact horder.pushBack h.nodup ha
  · exact List.getLast?_concat.symm
  · rw [List.length_append, ← hcount]
    rfl
  · rw [chainOf_chainedAdd, hnew,
      show (if t.head = none then Buckets.fresh else t.mem).bucket _ = _ from hbucket _]
    by_cases hk : hash (key a) % numBuckets = k
    · rw [if_pos hk, hk]
      exact (hchain k).pushFront (nodup_inBucket h.nodup k) (hnot k)
    · rw [if_neg hk, List.nil_append]
      -- another bucket: neither the new element nor its neighbour is there
      apply (hchain k).congr
      intro b hb
      apply pushFront_of_ne
      · rintro rfl
        exact hnot k hb
      · intro hhead
        exact ne_of_inBucket (List.mem_of_head? hhead) hb hk rfl
  · show Function.update _ _ _ k = _
    rw [hnew]
    by_cases hk : hash (key a) % numBuckets = k
    · rw [if_pos hk, hk, Function.update_self]
      rfl
    · rw [if_neg hk, Function.update_of_ne (Ne.symm hk)]
      exact hbucket k
  · unfold chainedAdd
    dsimp only
    split
    · next heq => rw [heq]
    · next hne =>
        rcases List.mem_append.mp hb with hb | hb
        · rw [hhandle b hb]
        · exact absurd (List.mem_singleton.mp hb) hne

/-! ## Deleting -/

/-- The buckets, with an element that is not the only one deleted. -/
theorem Filled.del_buckets {l₁ l₂ : List A} {a : A}
    (h : Filled hash keylen key t (l₁ ++ a :: l₂)) (hl : (l₁ ++ a :: l₂).Nodup) (k : ℕ) :
    Linked (unlink (chainOf t.handle) a) none (inBucket hash key k (l₁ ++ l₂)) none ∧
      (if t.mem.bucket (hash (key a) % numBuckets) = some a then
        Function.update t.mem.bucket (hash (key a) % numBuckets) (t.handle a).chain.next
      else t.mem.bucket) k = (inBucket hash key k (l₁ ++ l₂)).head? := by
  have hsplit : inBucket hash key (hash (key a) % numBuckets) (l₁ ++ a :: l₂) =
      inBucket hash key (hash (key a) % numBuckets) l₂ ++
        a :: inBucket hash key (hash (key a) % numBuckets) l₁ := by
    rw [inBucket_split, if_pos rfl, List.singleton_append]
  have hown := h.chain (hash (key a) % numBuckets)
  have hnodup : (inBucket hash key (hash (key a) % numBuckets) (l₁ ++ a :: l₂)).Nodup :=
    nodup_inBucket hl _
  have hfirst := h.bucket (hash (key a) % numBuckets)
  rw [hsplit] at hown hnodup hfirst
  obtain ⟨hprev, hnext⟩ := hown.neighbours
  by_cases hk : hash (key a) % numBuckets = k
  · -- its own bucket
    subst hk
    rw [inBucket_append]
    refine ⟨hown.unlink hnodup, ?_⟩
    rw [← first_unlink (a := a) fun hmem =>
      (List.nodup_append.mp hnodup).2.2 a hmem a (List.mem_cons_self ..) rfl, ← hfirst]
    split
    · rw [Function.update_self]
      exact hnext
    · rfl
  · have hsame : inBucket hash key k (l₁ ++ l₂) = inBucket hash key k (l₁ ++ a :: l₂) := by
      rw [inBucket_split, if_neg hk, inBucket_append, List.nil_append]
    rw [hsame]
    have hmem : ∀ b, b ∈ inBucket hash key k (l₁ ++ a :: l₂) → ∀ c,
        c ∈ inBucket hash key (hash (key a) % numBuckets) (l₁ ++ a :: l₂) → c ≠ b :=
      fun b hb c hc => ne_of_inBucket hc hb hk
    rw [hsplit] at hmem
    constructor
    · -- another bucket: the neighbours of the element are not there
      apply (h.chain k).congr
      intro b hb
      apply unlink_of_ne
      · rw [hprev]
        intro hlast
        exact hmem b hb b (List.mem_append_left _ (List.mem_of_getLast? hlast)) rfl
      · rw [hnext]
        intro hhead
        exact hmem b hb b
          (List.mem_append_right _ (List.mem_cons_of_mem _ (List.mem_of_head? hhead))) rfl
    · rw [← h.bucket k]
      split
      · exact Function.update_of_ne (Ne.symm hk) _ _
      · rfl

theorem Intact.del (h : Intact hash keylen key t l) {a : A} (ha : a ∈ l) :
    Intact hash keylen key (chainedDel t a) (l.erase a) := by
  obtain ⟨l₁, l₂, rfl⟩ := List.append_of_mem ha
  have hfilled := h.filled (List.append_ne_nil_of_right_ne_nil l₁ (List.cons_ne_nil a l₂))
  obtain ⟨-, hback, hdisjoint⟩ := List.nodup_append.mp h.nodup
  have hfront : a ∉ l₁ := fun hmem => hdisjoint a hmem a (List.mem_cons_self ..) rfl
  rw [List.erase_append_right _ hfront, List.erase_cons_head]
  obtain ⟨hprev, hnext⟩ := hfilled.order.neighbours
  have hkeep : List.Sublist (l₁ ++ l₂) (l₁ ++ a :: l₂) :=
    (List.sublist_cons_self a l₂).append_left l₁
  have hhash : (t.handle a).hashv = hash (key a) :=
    congrArg Handle.hashv (hfilled.handle a ha)
  unfold orderOf at hprev hnext
  unfold chainedDel
  dsimp only
  rw [hprev, hnext, hhash]
  split
  · -- the last element
    next hnone =>
      obtain ⟨h₁, h₂⟩ := hnone
      rw [List.getLast?_eq_none_iff] at h₁
      rw [List.head?_eq_none_iff] at h₂
      subst h₁ h₂
      exact ⟨rfl, List.nodup_nil, List.nodup_nil, fun hne => absurd rfl hne⟩
  · refine ⟨?_, h.nodup.sublist hkeep, h.keys.sublist (hkeep.map key), fun _ =>
      ⟨hfilled.order.unlink h.nodup, ?_, ?_, fun k => (hfilled.del_buckets h.nodup k).1,
        fun k => (hfilled.del_buckets h.nodup k).2, fun b hb => ?_⟩⟩
    · rw [← head_unlink l₁ l₂ a, ← h.head]
    · rw [← last_unlink (List.nodup_cons.mp hback).1, ← hfilled.tail]
    · show t.mem.numItems - 1 = _
      rw [hfilled.count, List.length_append, List.length_append]
      rfl
    · dsimp only
      rw [hfilled.handle b (hkeep.subset hb)]

/-! ## A handle lost -/

/-- An element whose handle is zeroed is not found any more. -/
theorem Intact.lost [DecidableEq K] (h : Intact hash keylen key t l) {a : A} (ha : a ∈ l) :
    chainedFind hash keylen key { t with handle := Function.update t.handle a Handle.zero } (key a) =
      none := by
  unfold chainedFind
  split
  · have hfilled := h.filled (List.ne_nil_of_mem ha)
    rw [List.find?_eq_none]
    intro b hb hmatches
    -- the walk stays in the bucket, though it ends at the element
    have hmem : b ∈ inBucket hash key (hash (key a) % numBuckets) l := by
      refine walk_subset (S := fun b => b ∈ inBucket hash key (hash (key a) % numBuckets) l)
        ?_ ?_ b hb
      · intro b c hb hnext
        change (Function.update t.handle a Handle.zero b).chain.next = some c at hnext
        by_cases hba : b = a
        · rw [hba, Function.update_self] at hnext
          cases hnext
        · rw [Function.update_of_ne hba] at hnext
          exact (hfilled.chain _).next_mem hb hnext
      · intro b hfirst
        exact List.mem_of_head? ((hfilled.bucket _).symm.trans hfirst)
    have hb := (mem_inBucket.mp hmem).1
    unfold keyMatches at hmatches
    dsimp only at hmatches
    by_cases hba : b = a
    · rw [hba, Function.update_self] at hmatches
      simp [Handle.zero] at hmatches
    · rw [Function.update_of_ne hba, hfilled.handle b hb] at hmatches
      simp only [Bool.and_eq_true, decide_eq_true_eq, Option.map_some, Option.some.injEq] at hmatches
      exact hba (List.inj_on_of_nodup_map h.keys hb ha hmatches.2)
  · rfl

/-! ## The table -/

variable [DecidableEq K]

/-- The table with chains, for a hash function and the length of a key. -/
def chained (hash : K → ℕ) (keylen : ℕ) : Ops A K (Handle A) (Buckets A) where
  empty := Buckets.fresh
  add := chainedAdd hash keylen
  del := chainedDel
  find := chainedFind hash keylen
  iter := chainedIter
  count := chainedCount

/-- The table with chains is correct, whatever the hash function. -/
theorem chained_correct (hash : K → ℕ) (keylen : ℕ) :
    Correct (chained hash keylen) (Intact (A := A) hash keylen) where
  empty _ _ := ⟨rfl, List.nodup_nil, List.nodup_nil, fun hne => absurd rfl hne⟩
  frame h hsame := h.frame hsame
  add h ha hkey := h.add ha hkey
  del h ha := h.del ha
  find h := h.find
  iter h := h.iter
  count h := h.count

end Chained

end HandleTable
