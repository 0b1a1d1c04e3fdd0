import Gfhttpd.Mem.Layout
import Mathlib.Data.List.Nodup
import Mathlib.Data.List.Dedup

/-!
# The pool operations as edits of a layout

Each step of `mp_alloc`, `mp_free` and `mp_delete` moves one block from one place of the
layout to another.  The lemmas here say which, and what the step does to the descriptors;
`Frame` says what an operation on one pool leaves as it is.
-/

namespace Gfhttpd.Mem

open Store

/-- `posix_memalign` returns fresh blocks: not null, aligned, inside the address space and
apart from every block in use. -/
def Memalign.Fresh (f : Memalign) : Prop :=
  ∀ blocks size a, f blocks size = some a →
    0 < a ∧ a % ALIGNMENT = 0 ∧ a + size < sizeMod ∧ ∀ b ∈ blocks, Apart (a, size) b

/-! ## Places are disjoint -/

namespace Holds

variable {m : Heap} {L : Layout}

theorem stacked_nodup (hm : Holds m L) : L.stacked.Nodup :=
  ((List.nodup_append.mp (List.nodup_append.mp hm.nodup).2.1)).2.1

theorem chain_nodup (hm : Holds m L) {b : ℕ} (hb : b ∈ L.pools) :
    (b :: L.chain b).Nodup :=
  (List.nodup_flatMap.mp hm.stacked_nodup).1 b hb

/-- The blocks of two pools are different blocks. -/
theorem pool_disjoint (hm : Holds m L) {b b' : ℕ} (hb : b ∈ L.pools) (hb' : b' ∈ L.pools)
    (hne : b ≠ b') {c : ℕ} (hc : c = b ∨ c ∈ L.chain b) : ¬ (c = b' ∨ c ∈ L.chain b') := by
  have hpair := (List.nodup_flatMap.mp hm.stacked_nodup).2
  have hsymm : Std.Symm (Function.onFun List.Disjoint fun b => b :: L.chain b) :=
    ⟨fun _ _ h => h.symm⟩
  have hdisj := hpair.forall hb hb' hne
  intro hc'
  exact hdisj (List.mem_cons.mpr hc) (List.mem_cons.mpr hc')

theorem not_free_of_stacked (hm : Holds m L) {b c : ℕ} (hb : b ∈ L.pools)
    (hc : c = b ∨ c ∈ L.chain b) : c ∉ L.free := by
  intro hfree
  have hdisj := (List.nodup_append.mp (List.nodup_append.mp hm.nodup).2.1).2.2
  exact hdisj c hfree c (L.mem_stacked.mpr ⟨b, hb, hc⟩) rfl

theorem not_free_of_loose (hm : Holds m L) {c : ℕ} (hc : c ∈ L.loose) : c ∉ L.free := by
  intro hfree
  exact (List.nodup_append.mp hm.nodup).2.2 c hc c (List.mem_append_left _ hfree) rfl

theorem not_stacked_of_loose (hm : Holds m L) {b c : ℕ} (hb : b ∈ L.pools)
    (hc : c ∈ L.loose) : ¬ (c = b ∨ c ∈ L.chain b) := by
  intro hst
  exact (List.nodup_append.mp hm.nodup).2.2 c hc c
    (List.mem_append_right _ (L.mem_stacked.mpr ⟨b, hb, hst⟩)) rfl

theorem pools_nodup (hm : Holds m L) : L.pools.Nodup := by
  have hpair := (List.nodup_flatMap.mp hm.stacked_nodup).2
  refine hpair.imp fun {b b'} hdisj heq => ?_
  subst heq
  exact hdisj (List.mem_cons_self ..) (List.mem_cons_self ..)

/-- Where the chunk is that an operation on the pool `b` moves. -/
def Movable (L : Layout) (b ptr : ℕ) : Prop :=
  ptr ∈ L.loose ∨ ptr ∈ L.chain b

/-- What another pool has is neither the base of the pool `b` nor moved by an operation on it. -/
theorem not_movable_of_other_pool (hm : Holds m L) {b b' c : ℕ} (hb : b ∈ L.pools)
    (hb' : b' ∈ L.pools) (hne : b' ≠ b) (hc : c = b' ∨ c ∈ L.chain b') :
    c ≠ b ∧ ¬ Movable L b c := by
  constructor
  · rintro rfl
    exact hm.pool_disjoint hb hb' (Ne.symm hne) (Or.inl rfl) hc
  · rintro (hloose | hchain)
    · exact hm.not_stacked_of_loose hb' hloose hc
    · exact hm.pool_disjoint hb hb' (Ne.symm hne) (Or.inr hchain) hc

/-- Nor is a chunk of the cache. -/
theorem not_movable_of_free (hm : Holds m L) {b c : ℕ} (hb : b ∈ L.pools)
    (hc : c ∈ L.free) : c ≠ b ∧ ¬ Movable L b c := by
  constructor
  · rintro rfl
    exact hm.not_free_of_stacked hb (Or.inl rfl) hc
  · rintro (hloose | hchain)
    · exact hm.not_free_of_loose hloose hc
    · exact hm.not_free_of_stacked hb (Or.inr hchain) hc

end Holds

/-! ## The frame of an operation -/

/-- From `m` to `m'` an operation on the pool `b` has written the header of `b` and those of chunks
it can move, and has given back such chunks only. -/
structure Frame (m m' : Heap) (L : Layout) (b : ℕ) : Prop where
  hdr : ∀ x, x ≠ b → ¬ Holds.Movable L b x → m'.hdr x = m.hdr x
  blocks : ∀ x ∈ m.blocks, ¬ Holds.Movable L b x.1 → x ∈ m'.blocks

namespace Frame

variable {m m' : Heap} {L : Layout} {b : ℕ}

theorem blockEnd (h : Frame m m' L b) {c e : ℕ} (hc : ¬ Holds.Movable L b c)
    (he : BlockEnd m c e) : BlockEnd m' c e := by
  obtain ⟨size, hmem, he⟩ := he
  exact ⟨size, h.blocks _ hmem hc, he⟩

theorem hdr_free (h : Frame m m' L b) (hm : Holds m L) (hb : b ∈ L.pools) {c : ℕ}
    (hc : c ∈ L.free) : m'.hdr c = m.hdr c := by
  obtain ⟨hcb, hmoved⟩ := hm.not_movable_of_free hb hc
  exact h.hdr c hcb hmoved

/-- The cache is the list it was. -/
theorem freeList (h : Frame m m' L b) (hm : Holds m L) (hb : b ∈ L.pools) :
    Path (fun a => (m'.hdr a).prev) 0 m.freechunks L.free :=
  hm.freeList.congr fun c hc => by rw [h.hdr_free hm hb hc]

theorem cached (h : Frame m m' L b) (hm : Holds m L) (hb : b ∈ L.pools) :
    ∀ c ∈ L.free, BlockEnd m' c (m'.hdr c).limit := by
  intro c hc
  rw [h.hdr_free hm hb hc]
  exact h.blockEnd (hm.not_movable_of_free hb hc).2 (hm.cached c hc)

theorem hdr_other (h : Frame m m' L b) (hm : Holds m L) (hb : b ∈ L.pools) {b' c : ℕ}
    (hb' : b' ∈ L.pools) (hne : b' ≠ b) (hc : c = b' ∨ c ∈ L.chain b') :
    m'.hdr c = m.hdr c := by
  obtain ⟨hcb, hmoved⟩ := hm.not_movable_of_other_pool hb hb' hne hc
  exact h.hdr c hcb hmoved

/-- The other pools have the marks they had. -/
theorem marks (h : Frame m m' L b) (hm : Holds m L) (hb : b ∈ L.pools) :
    ∀ b' ∈ L.pools, b' ≠ b → marks m' b' b' (L.chain b') = marks m b' b' (L.chain b') := by
  intro b' hb' hne
  exact marks_congr (h.hdr_other hm hb hb' hne (Or.inl rfl))
    fun c hc => h.hdr_other hm hb hb' hne (Or.inr hc)

/-- The stacks behind the operation: the one of `b`, and those of the other pools as before. -/
theorem stack (h : Frame m m' L b) (hm : Represents m L) (hb : b ∈ L.pools) {cs : List ℕ}
    (hown : Stack m' b b cs) : ∀ b' ∈ L.pools, Stack m' b' b' ((L.setChain b cs).chain b') := by
  refine Layout.forall_setChain (P := fun b' cs => Stack m' b' b' cs) hown fun b' hb' hne => ?_
  refine (hm.stack b' hb').congr (h.hdr_other hm.holds hb hb' hne (Or.inl rfl))
    (fun c hc => h.hdr_other hm.holds hb hb' hne (Or.inr hc)) fun c e hc he => ?_
  exact h.blockEnd (hm.holds.not_movable_of_other_pool hb hb' hne hc).2 he

/-- The descriptors behind the operation, whatever sizes were asked for. -/
theorem saved (h : Frame m m' L b) (hm : Holds m L) (hb : b ∈ L.pools) {cs : List ℕ}
    (hown : Saved m' b b cs) : ∀ b' ∈ L.pools, Saved m' b' b' ((L.setChain b cs).chain b') := by
  refine Layout.forall_setChain (P := fun b' cs => Saved m' b' b' cs) hown fun b' hb' hne => ?_
  refine (hm.saved b' hb').congr (h.hdr_other hm hb hb' hne (Or.inl rfl))
    (fun c hc => h.hdr_other hm hb hb' hne (Or.inr hc)) fun c e hc he => ?_
  exact h.blockEnd (hm.not_movable_of_other_pool hb hb' hne hc).2 he

end Frame

/-! ## Blocks that change places -/

namespace Layout

variable {L : Layout} {b c : ℕ}

/-- Giving the pool `b` one more chunk adds that chunk to the stacked blocks. -/
theorem stacked_setChain_perm (hnd : L.pools.Nodup)
    (hb : b ∈ L.pools) :
    (L.setChain b (c :: L.chain b)).stacked.Perm (c :: L.stacked) := by
  -- the pools before and behind `b` keep their chains
  obtain ⟨pre, post, hpools⟩ := List.append_of_mem hb
  have hout : ∀ x ∈ pre ++ post, x ≠ b := by
    rw [hpools] at hnd
    have hmid := (List.perm_middle.nodup_iff.mp hnd)
    intro x hx heq
    exact (List.nodup_cons.mp hmid).1 (heq ▸ hx)
  have hsame : ∀ l : List ℕ, (∀ x ∈ l, x ≠ b) →
      l.flatMap (fun x => x :: Function.update L.chain b (c :: L.chain b) x) =
        l.flatMap fun x => x :: L.chain x := by
    intro l hl
    refine List.flatMap_congr fun x hx => ?_
    rw [Function.update_of_ne (hl x hx)]
  have hpre := hsame pre fun x hx => hout x (List.mem_append_left _ hx)
  have hpost := hsame post fun x hx => hout x (List.mem_append_right _ hx)
  simp only [stacked, setChain, hpools, List.flatMap_append, List.flatMap_cons,
    hpre, hpost, Function.update_self]
  exact (List.Perm.append_left _ (List.Perm.swap ..)).trans List.perm_middle

/-- Taking the newest chunk of a pool away leaves the other stacked blocks. -/
theorem stacked_perm_of_chain {cs : List ℕ} (hnd : L.pools.Nodup) (hb : b ∈ L.pools)
    (hchain : L.chain b = c :: cs) :
    L.stacked.Perm (c :: (L.setChain b cs).stacked) := by
  have hback : (L.setChain b cs).setChain b (c :: (L.setChain b cs).chain b) = L := by
    simp [setChain, Function.update_idem, ← hchain, Function.update_eq_self]
  have hperm := stacked_setChain_perm (L := L.setChain b cs) (c := c) hnd hb
  rwa [hback] at hperm

/-- From the cache into the hands of the operation. -/
theorem owned_take {free : List ℕ} (hfree : L.free = c :: free) :
    L.owned.Perm ({ L with loose := c :: L.loose, free := free } : Layout).owned := by
  simp only [owned, hfree]
  exact List.perm_middle

/-- From the hands of the operation to the chain of the pool. -/
theorem owned_push {loose : List ℕ} (hnd : L.pools.Nodup) (hb : b ∈ L.pools)
    (hloose : L.loose = c :: loose) :
    L.owned.Perm ({ L with loose := loose }.setChain b (c :: L.chain b)).owned := by
  have hstacked := stacked_setChain_perm (c := c) hnd hb
  simp only [owned, hloose, List.cons_append]
  have hmiddle : (c :: (loose ++ (L.free ++ L.stacked))).Perm
      (loose ++ (L.free ++ (c :: L.stacked))) :=
    List.perm_middle.symm.trans (List.Perm.append_left loose List.perm_middle.symm)
  exact hmiddle.trans (List.Perm.append_left loose (List.Perm.append_left L.free hstacked.symm))

/-- Off the chain of the pool. -/
theorem owned_pop {cs : List ℕ} (hnd : L.pools.Nodup) (hb : b ∈ L.pools)
    (hchain : L.chain b = c :: cs) : L.owned.Perm (c :: (L.setChain b cs).owned) :=
  (List.Perm.append_left L.loose ((List.Perm.append_left L.free
    (stacked_perm_of_chain hnd hb hchain)).trans List.perm_middle)).trans List.perm_middle

/-- A block at the head of the cache. -/
theorem owned_cache (L : Layout) (c : ℕ) :
    (c :: L.owned).Perm ({ L with free := c :: L.free } : Layout).owned :=
  List.perm_middle.symm

/-- The base of a new pool. -/
theorem owned_new (hnew : c ∉ L.pools) :
    (c :: L.owned).Perm ({ L with pools := c :: L.pools }.setChain c []).owned := by
  have hstacked : (L.pools.flatMap fun b => b :: Function.update L.chain c [] b) = L.stacked := by
    refine List.flatMap_congr fun b hb => ?_
    have hne : b ≠ c := fun heq => hnew (heq ▸ hb)
    rw [Function.update_of_ne hne]
  simp only [owned, stacked, setChain, List.flatMap_cons, Function.update_self, hstacked]
  exact List.Perm.trans List.perm_middle.symm (List.Perm.append_left L.loose List.perm_middle.symm)

/-- The base of a pool without chunks. -/
theorem owned_erase (hb : b ∈ L.pools) (hchain : L.chain b = []) :
    L.owned.Perm (b :: ({ L with pools := L.pools.erase b } : Layout).owned) := by
  have hstacked : L.stacked.Perm
      (b :: (L.pools.erase b).flatMap fun b' => b' :: L.chain b') := by
    have hperm := List.Perm.flatMap_right (fun b' => b' :: L.chain b') (List.perm_cons_erase hb)
    simpa [stacked, hchain] using hperm
  exact (List.Perm.append_left L.loose
    ((List.Perm.append_left L.free hstacked).trans List.perm_middle)).trans List.perm_middle

end Layout

/-- `free` of one block removes exactly that block from the conservation law. -/
theorem release_conserve {m : Heap} {L : Layout} {c : ℕ} {rest : List ℕ} (hm : Holds m L)
    (hcons : (m.blocks.map Prod.fst).Perm (c :: rest)) :
    ((m.blocks.filter fun x => x.1 ≠ c).map Prod.fst).Perm rest := by
  -- no other block starts at `c`, so the filter takes out no more than that one
  have hnot : c ∉ rest :=
    (List.nodup_cons.mp ((hm.conserve.symm.trans hcons).nodup_iff.mp hm.nodup)).1
  have hfilter := hcons.filter fun x => x ≠ c
  rw [List.filter_map, List.filter_cons_of_neg (by simp)] at hfilter
  refine hfilter.trans (List.Perm.of_eq ?_)
  refine List.filter_eq_self.mpr fun x hx => ?_
  simp only [decide_not, Bool.not_eq_true', decide_eq_false_iff_not]
  rintro rfl
  exact hnot hx

/-! ## Descriptors -/

@[simp] theorem Heap.hdr_store_self (m : Heap) (a : ℕ) (d : MemPool) : (m.store a d).hdr a = d :=
  Function.update_self ..

theorem Heap.hdr_store_of_ne (m : Heap) {a x : ℕ} (hx : x ≠ a) (d : MemPool) :
    (m.store a d).hdr x = m.hdr x :=
  Function.update_of_ne hx ..

theorem pushChunk_hdr_of_ne {m : Heap} {b ptr limit x : ℕ} (hxb : x ≠ b) (hxp : x ≠ ptr) :
    (pushChunk m b ptr limit).hdr x = m.hdr x := by
  simp [pushChunk, Heap.store, Function.update_of_ne hxb, Function.update_of_ne hxp]

theorem pushChunk_hdr_base (m : Heap) (b ptr limit : ℕ) :
    (pushChunk m b ptr limit).hdr b = ⟨ptr, ptrAdd ptr sizeofMemPool, limit⟩ :=
  Heap.hdr_store_self ..

/-- `pushChunk` writes to the base and to a loose chunk. -/
theorem pushChunk_frame {m : Heap} {L : Layout} {b ptr limit : ℕ} (hptr : ptr ∈ L.loose) :
    Frame m (pushChunk m b ptr limit) L b where
  hdr := fun _ hxb hmoved => pushChunk_hdr_of_ne hxb fun heq => hmoved (heq ▸ Or.inl hptr)
  blocks := fun _ hx _ => hx

/-- The loose chunk gets the descriptor of the base, and the other chunks keep theirs. -/
theorem Holds.pushChunk_hdr {m : Heap} {L : Layout} {b ptr : ℕ} (hm : Holds m L)
    (hb : b ∈ L.pools) (hptr : ptr ∈ L.loose) (limit : ℕ) :
    (pushChunk m b ptr limit).hdr ptr = m.hdr b ∧
      ∀ c ∈ L.chain b, (pushChunk m b ptr limit).hdr c = m.hdr c := by
  have hne : ptr ≠ b := fun heq => hm.not_stacked_of_loose hb hptr (Or.inl heq)
  constructor
  · rw [pushChunk, Heap.hdr_store_of_ne _ hne, Heap.hdr_store_self]
  · intro c hc
    refine pushChunk_hdr_of_ne ?_ ?_
    · rintro rfl
      exact (List.nodup_cons.mp (hm.chain_nodup hb)).1 hc
    · rintro rfl
      exact hm.not_stacked_of_loose hb hptr (Or.inr hc)

theorem popChunk_hdr_of_ne {m : Heap} {b x : ℕ} (hxb : x ≠ b) (hxp : x ≠ (m.hdr b).prev) :
    (popChunk m b).hdr x = m.hdr x := by
  by_cases hn : m.nfree < THRESHOLD
  · simp [popChunk, hn, Heap.store, Function.update_of_ne hxb, Function.update_of_ne hxp]
  · simp [popChunk, hn, Heap.store, Heap.release, Function.update_of_ne hxb]

/-- The descriptor saved in the chunk is back in the base. -/
theorem popChunk_hdr_base (m : Heap) (b : ℕ) : (popChunk m b).hdr b = m.hdr (m.hdr b).prev := by
  by_cases hn : m.nfree < THRESHOLD
  · simp [popChunk, hn, Heap.store]
  · simp [popChunk, hn, Heap.store]

theorem mem_popChunk_blocks {m : Heap} {b : ℕ} {x : ℕ × ℕ} (hx : x ∈ m.blocks)
    (hne : x.1 ≠ (m.hdr b).prev) : x ∈ (popChunk m b).blocks := by
  by_cases hn : m.nfree < THRESHOLD
  · simpa [popChunk, hn, Heap.store] using hx
  · simpa [popChunk, hn, Heap.store, Heap.release, hne] using hx

/-- `popChunk` touches the base and the newest chunk of the pool. -/
theorem popChunk_frame {m : Heap} {L : Layout} {b : ℕ} (hptr : (m.hdr b).prev ∈ L.chain b) :
    Frame m (popChunk m b) L b where
  hdr := fun _ hxb hmoved => popChunk_hdr_of_ne hxb fun heq => hmoved (heq ▸ Or.inr hptr)
  blocks := fun _ hx hmoved => mem_popChunk_blocks hx fun heq => hmoved (heq ▸ Or.inr hptr)

/-- The newest chunk of the pool is none of the others, whose descriptors and ends stay. -/
theorem Holds.popChunk_hdr {m : Heap} {L : Layout} {b : ℕ} {cs : List ℕ} (hm : Holds m L)
    (hb : b ∈ L.pools) (hchain : L.chain b = (m.hdr b).prev :: cs) :
    (m.hdr b).prev ≠ b ∧ (∀ c ∈ cs, (popChunk m b).hdr c = m.hdr c) ∧
      ∀ c e, c = b ∨ c ∈ cs → BlockEnd m c e → BlockEnd (popChunk m b) c e := by
  have hnodup := hm.chain_nodup hb
  rw [hchain] at hnodup
  obtain ⟨hbcs, hnodup⟩ := List.nodup_cons.mp hnodup
  have hptrcs := (List.nodup_cons.mp hnodup).1
  have hne : (m.hdr b).prev ≠ b := fun heq => hbcs (List.mem_cons.mpr (Or.inl heq.symm))
  refine ⟨hne, fun c hc => popChunk_hdr_of_ne ?_ ?_, ?_⟩
  · rintro rfl
    exact hbcs (List.mem_cons_of_mem _ hc)
  · rintro rfl
    exact hptrcs hc
  · rintro c e hc ⟨size, hmem, he⟩
    refine ⟨size, mem_popChunk_blocks hmem ?_, he⟩
    rintro rfl
    rcases hc with hc | hc
    · exact hne hc
    · exact hptrcs hc

/-- A new `avail` in the descriptor of the pool. -/
theorem bump_frame (m : Heap) (L : Layout) (b avail : ℕ) :
    Frame m (m.store b { m.hdr b with avail := avail }) L b where
  hdr := fun _ hxb _ => Heap.hdr_store_of_ne m hxb _
  blocks := fun _ hx _ => hx

theorem Holds.bump_hdr {m : Heap} {L : Layout} {b : ℕ} (hm : Holds m L) (hb : b ∈ L.pools)
    (avail : ℕ) :
    ∀ c ∈ L.chain b, (m.store b { m.hdr b with avail := avail }).hdr c = m.hdr c := by
  intro c hc
  refine Heap.hdr_store_of_ne m ?_ _
  rintro rfl
  exact (List.nodup_cons.mp (hm.chain_nodup hb)).1 hc

/-! ## Calls that return -/

/-- `takeChunk` takes the head of the cache, or a block of `posix_memalign`. -/
theorem takeChunk_eq_some {memalign : Memalign} {m m' : Heap} {nbytes ptr limit : ℕ}
    (h : takeChunk memalign m nbytes = some (ptr, limit, m')) :
    (m.freechunks ≠ 0 ∧ ptr = m.freechunks ∧ limit = (m.hdr ptr).limit ∧
        m' = { m with freechunks := (m.hdr ptr).prev, nfree := m.nfree - 1 }) ∨
      (m.freechunks = 0 ∧
        memalign m.blocks ((sizeofMemPool + nbytes) % sizeMod) = some ptr ∧
        limit = ptrAdd ptr ((sizeofMemPool + nbytes) % sizeMod) ∧
        m' = { m with blocks := (ptr, (sizeofMemPool + nbytes) % sizeMod) :: m.blocks }) := by
  unfold takeChunk at h
  by_cases hcache : m.freechunks ≠ 0
  · rw [if_pos hcache] at h
    simp only [Option.some.injEq, Prod.mk.injEq] at h
    obtain ⟨rfl, rfl, rfl⟩ := h
    exact Or.inl ⟨hcache, rfl, rfl, rfl⟩
  · rw [if_neg hcache] at h
    cases hcall : memalign m.blocks ((sizeofMemPool + nbytes) % sizeMod) with
    | none => simp [Heap.posixMemalign, hcall] at h
    | some a =>
        simp only [Heap.posixMemalign, hcall, Option.some.injEq, Prod.mk.injEq] at h
        obtain ⟨rfl, rfl, rfl⟩ := h
        exact Or.inr ⟨not_not.mp hcache, rfl, rfl, rfl⟩

/-- A round of the loop of `mp_alloc`, if the request does not fit, and its end. -/
theorem mpAllocLoop_succ_eq_some {memalign : Memalign} {b nbytes fuel : ℕ} {m m' : Heap}
    (h : mpAllocLoop memalign b nbytes (fuel + 1) m = some m') :
    (nbytes ≤ ptrDiff (m.hdr b).limit (m.hdr b).avail ∧ m' = m) ∨
      (ptrDiff (m.hdr b).limit (m.hdr b).avail < nbytes ∧
        ∃ ptr limit m₁, takeChunk memalign m nbytes = some (ptr, limit, m₁) ∧
          mpAllocLoop memalign b nbytes fuel (pushChunk m₁ b ptr limit) = some m') := by
  rw [mpAllocLoop] at h
  by_cases hfits : nbytes > ptrDiff (m.hdr b).limit (m.hdr b).avail
  · rw [if_pos hfits] at h
    cases htake : takeChunk memalign m nbytes with
    | none => simp [htake] at h
    | some r =>
        obtain ⟨ptr, limit, m₁⟩ := r
        simp only [htake] at h
        exact Or.inr ⟨hfits, ptr, limit, m₁, rfl, h⟩
  · rw [if_neg hfits] at h
    exact Or.inl ⟨Nat.le_of_not_lt hfits, (Option.some.inj h).symm⟩

/-- What a call of `mp_alloc` that returns has done: it went through its loop, and moved `avail`. -/
theorem mpAlloc_eq_some {memalign : Memalign} {m m' : Heap} {b nbytes ptr : ℕ}
    (h : mpAlloc memalign m b nbytes = some (ptr, m')) :
    0 < nbytes ∧ ∃ m₁, mpAllocLoop memalign b nbytes m.fuel m = some m₁ ∧
      ptr = ptrDiff (ptrAdd (m₁.hdr b).avail nbytes) nbytes ∧
      m' = m₁.store b { m₁.hdr b with avail := ptrAdd (m₁.hdr b).avail nbytes } := by
  unfold mpAlloc at h
  by_cases hassert : b = 0 ∨ nbytes = 0
  · simp [hassert] at h
  rw [if_neg hassert] at h
  cases hloop : mpAllocLoop memalign b nbytes m.fuel m with
  | none => simp [hloop] at h
  | some m₁ =>
      simp only [hloop, Option.some.injEq, Prod.mk.injEq] at h
      exact ⟨Nat.pos_of_ne_zero fun hzero => hassert (Or.inr hzero), m₁, rfl, h.1.symm, h.2.symm⟩

theorem mpCalloc_eq_some {memalign : Memalign} {m m' : Heap} {mp count nbytes ptr : ℕ}
    (h : mpCalloc memalign m mp count nbytes = some (ptr, m')) :
    ∃ m₁, mpAlloc memalign m mp ((count * nbytes) % sizeMod) = some (ptr, m₁) ∧
      m' = m₁.memset ptr ((count * nbytes) % sizeMod) := by
  unfold mpCalloc at h
  by_cases hcount : count = 0
  · simp [hcount] at h
  rw [if_neg hcount] at h
  cases hcall : mpAlloc memalign m mp ((count * nbytes) % sizeMod) with
  | none => simp [hcall] at h
  | some r =>
      obtain ⟨ptr₁, m₁⟩ := r
      simp only [hcall, Option.some.injEq, Prod.mk.injEq] at h
      obtain ⟨rfl, rfl⟩ := h
      exact ⟨m₁, rfl, rfl⟩

theorem mpStrndup_eq_some {memalign : Memalign} {m m' : Heap} {mp n ptr : ℕ} {s1 : ℕ → UInt8}
    (h : mpStrndup memalign m mp s1 n = some (ptr, m')) :
    ∃ m₁, mpCalloc memalign m mp ((n + 1) % sizeMod) 1 = some (ptr, m₁) ∧
      m' = (m₁.memcpy ptr s1 n).poke (ptrAdd ptr n) 0 := by
  unfold mpStrndup at h
  cases hcall : mpCalloc memalign m mp ((n + 1) % sizeMod) 1 with
  | none => simp [hcall] at h
  | some r =>
      obtain ⟨ptr₁, m₁⟩ := r
      simp only [hcall, Option.some.injEq, Prod.mk.injEq] at h
      obtain ⟨rfl, rfl⟩ := h
      exact ⟨m₁, rfl, rfl⟩

theorem mpNew_eq_some {memalign : Memalign} {m m' : Heap} {nbytes mp : ℕ}
    (h : mpNew memalign m nbytes = some (mp, m')) :
    memalign m.blocks ((sizeofMemPool + nbytes) % sizeMod) = some mp ∧
      m' = Heap.store
        { m with blocks := (mp, (sizeofMemPool + nbytes) % sizeMod) :: m.blocks } mp
        ⟨0, ptrAdd mp sizeofMemPool, ptrAdd mp ((sizeofMemPool + nbytes) % sizeMod)⟩ := by
  unfold mpNew at h
  cases hcall : memalign m.blocks ((sizeofMemPool + nbytes) % sizeMod) with
  | none => simp [Heap.posixMemalign, hcall] at h
  | some a =>
      simp only [Heap.posixMemalign, hcall, Option.some.injEq, Prod.mk.injEq] at h
      obtain ⟨rfl, rfl⟩ := h
      exact ⟨rfl, rfl⟩

end Gfhttpd.Mem
