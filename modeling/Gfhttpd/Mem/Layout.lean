import Gfhttpd.Lib.Store
import Gfhttpd.Mem.Pool
import Mathlib.Data.List.Perm.Basic
import Mathlib.Tactic.Common

/-!
# Where the chunks of the pools are

The representation invariant of `mem.c`.  A `Layout` says which blocks are the bases of the
pools, which chunks each pool has stacked up, and which chunks are cached; `Represents m L`
says that the store `m` holds exactly that:

- the cache is the linked list from `freechunks`, each chunk recording its end in `limit`
- the chain of a pool is found by following `prev` from its base, and the descriptor of each
  chunk is stored one link nearer to the base (`Stack`)
- every block is a base, in one chain, or cached, and in one place only

A *mark* of a pool is a chunk with its high-water mark: everything the pool has handed out
from the chunk lies between its header and the mark.
-/

namespace Gfhttpd.Mem

open Store

/-! ## Descriptors and chains -/

/-- `e` is the end of the block that starts at `c`. -/
def BlockEnd (m : Heap) (c e : ℕ) : Prop :=
  ∃ size, (c, size) ∈ m.blocks ∧ e = c + size

/-- The descriptor stored at `h` describes the chunk (or base) `c`. -/
def Describes (m : Heap) (h c : ℕ) : Prop :=
  c + sizeofMemPool ≤ (m.hdr h).avail ∧ (m.hdr h).avail ≤ (m.hdr h).limit ∧
    BlockEnd m c (m.hdr h).limit

/-- The descriptor at `h` and the ones saved behind it describe the chunks `cs`, newest
first, and then the base `b`. -/
def Stack (m : Heap) (b : ℕ) : ℕ → List ℕ → Prop
  | h, [] => (m.hdr h).prev = 0 ∧ Describes m h b
  | h, c :: cs => (m.hdr h).prev = c ∧ c ≠ 0 ∧ Describes m h c ∧ Stack m b c cs

/-- The same without `avail`: the descriptors link to the chunks, and record where they and then
the base end. -/
def Saved (m : Heap) (b : ℕ) : ℕ → List ℕ → Prop
  | h, [] => (m.hdr h).prev = 0 ∧ BlockEnd m b (m.hdr h).limit
  | h, c :: cs => (m.hdr h).prev = c ∧ c ≠ 0 ∧ BlockEnd m c (m.hdr h).limit ∧ Saved m b c cs

/-- The chunks of the stack, each with the `avail` its descriptor records. -/
def marks (m : Heap) (b : ℕ) : ℕ → List ℕ → List (ℕ × ℕ)
  | h, [] => [(b, (m.hdr h).avail)]
  | h, c :: cs => (c, (m.hdr h).avail) :: marks m b c cs

/-- A stack reads the header it starts from and those of its chunks. -/
theorem Stack.congr {m m' : Heap} {b h h' : ℕ} {cs : List ℕ} (hs : Stack m b h cs)
    (hh : m'.hdr h' = m.hdr h) (hcs : ∀ c ∈ cs, m'.hdr c = m.hdr c)
    (hend : ∀ c e, c = b ∨ c ∈ cs → BlockEnd m c e → BlockEnd m' c e) :
    Stack m' b h' cs := by
  -- along the stack, from one header to the chunk it links to
  induction cs generalizing h h' with
  | nil =>
      obtain ⟨hprev, hlo, hhi, he⟩ := hs
      simp only [Stack, Describes, hh]
      exact ⟨hprev, hlo, hhi, hend b _ (Or.inl rfl) he⟩
  | cons c cs ih =>
      obtain ⟨hprev, hc, ⟨hlo, hhi, he⟩, hrest⟩ := hs
      have hmem : c ∈ c :: cs := List.mem_cons_self ..
      refine ⟨?_, hc, ?_, ih hrest (hcs c hmem) (fun d hd => hcs d (List.mem_cons_of_mem _ hd)) ?_⟩
      · rw [hh]; exact hprev
      · simp only [Describes, hh]
        exact ⟨hlo, hhi, hend c _ (Or.inr hmem) he⟩
      · intro d e hd
        exact hend d e (hd.imp_right (List.mem_cons_of_mem _))

theorem Stack.saved {m : Heap} {b h : ℕ} {cs : List ℕ} (hs : Stack m b h cs) :
    Saved m b h cs := by
  induction cs generalizing h with
  | nil => exact ⟨hs.1, hs.2.2.2⟩
  | cons c cs ih => exact ⟨hs.1, hs.2.1, hs.2.2.1.2.2, ih hs.2.2.2⟩

theorem Saved.congr {m m' : Heap} {b h h' : ℕ} {cs : List ℕ} (hs : Saved m b h cs)
    (hh : m'.hdr h' = m.hdr h) (hcs : ∀ c ∈ cs, m'.hdr c = m.hdr c)
    (hend : ∀ c e, c = b ∨ c ∈ cs → BlockEnd m c e → BlockEnd m' c e) :
    Saved m' b h' cs := by
  induction cs generalizing h h' with
  | nil =>
      obtain ⟨hprev, he⟩ := hs
      simp only [Saved, hh]
      exact ⟨hprev, hend b _ (Or.inl rfl) he⟩
  | cons c cs ih =>
      obtain ⟨hprev, hc, he, hrest⟩ := hs
      have hmem : c ∈ c :: cs := List.mem_cons_self ..
      refine ⟨by rw [hh]; exact hprev, hc, ?_, ?_⟩
      · rw [hh]
        exact hend c _ (Or.inr hmem) he
      · exact ih hrest (hcs c hmem) (fun d hd => hcs d (List.mem_cons_of_mem _ hd))
          fun d e hd => hend d e (hd.imp_right (List.mem_cons_of_mem _))

theorem Saved.path {m : Heap} {b h : ℕ} {cs : List ℕ} (hs : Saved m b h cs) :
    Path (fun a => (m.hdr a).prev) 0 (m.hdr h).prev cs := by
  induction cs generalizing h with
  | nil => exact hs.1
  | cons c cs ih => exact ⟨hs.1, hs.2.1, ih hs.2.2.2⟩

theorem marks_congr {m m' : Heap} {b h h' : ℕ} {cs : List ℕ}
    (hh : m'.hdr h' = m.hdr h) (hcs : ∀ c ∈ cs, m'.hdr c = m.hdr c) :
    marks m' b h' cs = marks m b h cs := by
  induction cs generalizing h h' with
  | nil => simp [marks, hh]
  | cons c cs ih =>
      simp only [marks, hh, List.cons.injEq, true_and]
      exact ih (hcs c (List.mem_cons_self ..)) fun d hd => hcs d (List.mem_cons_of_mem _ hd)

theorem fst_mem_of_mem_marks {m : Heap} {b h : ℕ} {cs : List ℕ} {p : ℕ × ℕ}
    (hp : p ∈ marks m b h cs) : p.1 = b ∨ p.1 ∈ cs := by
  induction cs generalizing h with
  | nil =>
      simp only [marks, List.mem_singleton] at hp
      exact Or.inl (by rw [hp])
  | cons c cs ih =>
      simp only [marks, List.mem_cons] at hp
      rcases hp with rfl | hp
      · exact Or.inr (List.mem_cons_self ..)
      · exact (ih hp).imp_right (List.mem_cons_of_mem _)

/-- A mark lies inside its chunk, behind the header. -/
theorem Stack.mark_bounds {m : Heap} {b h : ℕ} {cs : List ℕ} (hs : Stack m b h cs)
    {p : ℕ × ℕ} (hp : p ∈ marks m b h cs) :
    ∃ size, (p.1, size) ∈ m.blocks ∧ p.1 + sizeofMemPool ≤ p.2 ∧ p.2 ≤ p.1 + size := by
  induction cs generalizing h with
  | nil =>
      simp only [marks, List.mem_singleton] at hp
      obtain ⟨-, hlo, hhi, size, hmem, he⟩ := hs
      exact ⟨size, by rw [hp]; exact hmem, by rw [hp]; exact hlo, by rw [hp]; omega⟩
  | cons c cs ih =>
      obtain ⟨-, -, ⟨hlo, hhi, size, hmem, he⟩, hrest⟩ := hs
      simp only [marks, List.mem_cons] at hp
      rcases hp with rfl | hp
      · exact ⟨size, hmem, hlo, by simp only at *; omega⟩
      · exact ih hrest hp

/-- The chunk the descriptor at `h` describes. -/
def topChunk (b : ℕ) : List ℕ → ℕ
  | [] => b
  | c :: _ => c

theorem Stack.describes_top {m : Heap} {b h : ℕ} {cs : List ℕ} (hs : Stack m b h cs) :
    Describes m h (topChunk b cs) := by
  cases cs with
  | nil => exact hs.2
  | cons c cs => exact hs.2.2.1

/-! ## Layouts -/

/-- The places a block can be in. -/
structure Layout where
  /-- blocks in the hands of the operation in progress -/
  loose : List ℕ
  /-- cached chunks, in the order of `freechunks` -/
  free : List ℕ
  /-- bases of the pools -/
  pools : List ℕ
  /-- chunks of the pool with a given base, newest first -/
  chain : ℕ → List ℕ

namespace Layout

def init : Layout := ⟨[], [], [], fun _ => []⟩

/-- The blocks of the pools: each base with its chunks. -/
def stacked (L : Layout) : List ℕ :=
  L.pools.flatMap fun b => b :: L.chain b

/-- Every block, place by place. -/
def owned (L : Layout) : List ℕ :=
  L.loose ++ (L.free ++ L.stacked)

theorem mem_stacked {L : Layout} {c : ℕ} :
    c ∈ L.stacked ↔ ∃ b ∈ L.pools, c = b ∨ c ∈ L.chain b := by
  simp [stacked, List.mem_flatMap]

/-- Let the pool `b` have the chunks `cs`. -/
def setChain (L : Layout) (b : ℕ) (cs : List ℕ) : Layout :=
  { L with chain := Function.update L.chain b cs }

theorem setChain_self (L : Layout) (b : ℕ) : L.setChain b (L.chain b) = L := by
  simp [setChain, Function.update_eq_self]

@[simp] theorem setChain_pools (L : Layout) (b : ℕ) (cs : List ℕ) :
    (L.setChain b cs).pools = L.pools := rfl

@[simp] theorem chain_setChain_self (L : Layout) (b : ℕ) (cs : List ℕ) :
    (L.setChain b cs).chain b = cs :=
  Function.update_self ..

theorem chain_setChain_of_ne (L : Layout) {b b' : ℕ} (hne : b' ≠ b) (cs : List ℕ) :
    (L.setChain b cs).chain b' = L.chain b' :=
  Function.update_of_ne hne ..

/-- What holds of the chain of `b` and of the other chains as they were, holds of all. -/
theorem forall_setChain {L : Layout} {b : ℕ} {cs : List ℕ} {P : ℕ → List ℕ → Prop} (hown : P b cs)
    (hothers : ∀ b' ∈ L.pools, b' ≠ b → P b' (L.chain b')) :
    ∀ b' ∈ L.pools, P b' ((L.setChain b cs).chain b') := by
  refine (Function.forall_update_iff L.chain fun b' cs => b' ∈ L.pools → P b' cs).mpr ?_
  exact ⟨fun _ => hown, fun b' hne hb' => hothers b' hb' hne⟩

/-- The same for a new pool. -/
theorem forall_setChain_new {L : Layout} {b : ℕ} {P : ℕ → List ℕ → Prop} (hown : P b [])
    (hothers : ∀ b' ∈ L.pools, P b' (L.chain b')) :
    ∀ b' ∈ b :: L.pools, P b' (({ L with pools := b :: L.pools }.setChain b []).chain b') := by
  refine forall_setChain (L := { L with pools := b :: L.pools }) hown fun b' hb' hne => ?_
  exact hothers b' ((List.mem_cons.mp hb').resolve_left hne)

end Layout

/-- The store `m` holds the layout `L`. -/
structure Represents (m : Heap) (L : Layout) : Prop where
  apart : m.blocks.Pairwise Apart
  block : ∀ b ∈ m.blocks, 0 < b.1 ∧ sizeofMemPool ≤ b.2 ∧ b.1 + b.2 < sizeMod
  freeList : Path (fun a => (m.hdr a).prev) 0 m.freechunks L.free
  cached : ∀ c ∈ L.free, BlockEnd m c (m.hdr c).limit
  stack : ∀ b ∈ L.pools, Stack m b b (L.chain b)
  conserve : (m.blocks.map Prod.fst).Perm L.owned

theorem Represents.init : Represents Heap.init Layout.init where
  apart := List.Pairwise.nil
  block := by simp [Heap.init]
  freeList := rfl
  cached := by simp [Layout.init]
  stack := by simp [Layout.init]
  conserve := by simp [Heap.init, Layout.init, Layout.owned, Layout.stacked]

/-- Every block is in its place in `L`, and the place knows where it ends, whatever sizes were asked
for. -/
structure Holds (m : Heap) (L : Layout) : Prop where
  nonzero : ∀ b ∈ m.blocks, b.1 ≠ 0
  nodup : L.owned.Nodup
  freeList : Path (fun a => (m.hdr a).prev) 0 m.freechunks L.free
  cached : ∀ c ∈ L.free, BlockEnd m c (m.hdr c).limit
  saved : ∀ b ∈ L.pools, Saved m b b (L.chain b)
  conserve : (m.blocks.map Prod.fst).Perm L.owned

theorem Holds.init : Holds Heap.init Layout.init where
  nonzero := by simp [Heap.init]
  nodup := by simp [Layout.init, Layout.owned, Layout.stacked]
  freeList := rfl
  cached := by simp [Layout.init]
  saved := by simp [Layout.init]
  conserve := by simp [Heap.init, Layout.init, Layout.owned, Layout.stacked]

theorem Layout.mem_owned_of_pool {L : Layout} {b : ℕ} (hb : b ∈ L.pools) : b ∈ L.owned :=
  List.mem_append_right _ (List.mem_append_right _ (L.mem_stacked.mpr ⟨b, hb, Or.inl rfl⟩))

theorem Layout.mem_owned_of_chain {L : Layout} {b c : ℕ} (hb : b ∈ L.pools)
    (hc : c ∈ L.chain b) : c ∈ L.owned :=
  List.mem_append_right _ (List.mem_append_right _ (L.mem_stacked.mpr ⟨b, hb, Or.inr hc⟩))

theorem Layout.mem_owned_of_free {L : Layout} {c : ℕ} (hc : c ∈ L.free) : c ∈ L.owned :=
  List.mem_append_right _ (List.mem_append_left _ hc)

theorem Holds.mem_owned_iff {m : Heap} {L : Layout} (hm : Holds m L) {c : ℕ} :
    c ∈ L.owned ↔ ∃ size, (c, size) ∈ m.blocks := by
  rw [← hm.conserve.mem_iff, List.mem_map]
  constructor
  · rintro ⟨⟨c', size⟩, hmem, rfl⟩
    exact ⟨size, hmem⟩
  · rintro ⟨size, hmem⟩
    exact ⟨(c, size), hmem, rfl⟩

theorem Holds.ne_zero_of_owned {m : Heap} {L : Layout} (hm : Holds m L) {c : ℕ}
    (hc : c ∈ L.owned) : c ≠ 0 := by
  obtain ⟨size, hmem⟩ := hm.mem_owned_iff.mp hc
  exact hm.nonzero _ hmem

namespace Represents

variable {m : Heap} {L : Layout}

/-- A block is in one place only. -/
theorem nodup (hm : Represents m L) : L.owned.Nodup := by
  rw [← hm.conserve.nodup_iff, List.Nodup, List.pairwise_map]
  -- blocks have room for a header, so two with one start would overlap
  refine hm.apart.imp_of_mem fun {x y} hx hy hxy heq => ?_
  have hposx := (hm.block x hx).2.1
  have hposy := (hm.block y hy).2.1
  simp only [Apart, sizeofMemPool] at *
  omega

theorem holds (hm : Represents m L) : Holds m L where
  nonzero b hb := Nat.ne_of_gt (hm.block b hb).1
  nodup := hm.nodup
  freeList := hm.freeList
  cached := hm.cached
  saved b hb := (hm.stack b hb).saved
  conserve := hm.conserve

/-- Two blocks with the same start are the same block; others are apart. -/
theorem block_eq_or_apart (hm : Represents m L) {x y : ℕ × ℕ} (hx : x ∈ m.blocks)
    (hy : y ∈ m.blocks) : x = y ∨ x.1 ≠ y.1 ∧ Apart x y := by
  rcases apart_of_mem hm.apart hx hy with heq | hapart
  · exact Or.inl heq
  · refine Or.inr ⟨fun heq => ?_, hapart⟩
    have hposx := (hm.block x hx).2.1
    have hposy := (hm.block y hy).2.1
    simp only [Apart, sizeofMemPool] at *
    omega

end Represents

end Gfhttpd.Mem
