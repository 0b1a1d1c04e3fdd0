import Gfhttpd.Mem.Places

/-!
# What the pool operations do

One specification lemma for each operation of `mem.c` when no sum of sizes wraps, in terms of
layouts and marks.  The places of the blocks are those of `Gfhttpd.Mem.Places`.

- `takeChunk_spec`, `pushChunk_spec`, `popChunk_spec`, `bump_spec`: one edit of a layout
- `Grows`, `mpAlloc_spec`, `mpNew_spec`: marks only move up, blocks stay, and every store of the
  operation goes to a chunk header
- `Empties`, `mpFree_spec`, `releaseBase_spec`: the chain of one pool goes, the other pools stay
-/

namespace Gfhttpd.Mem

open Store

/-! ## Edits -/

theorem Holds.represents {m : Heap} {L : Layout} (hm : Holds m L)
    (hapart : m.blocks.Pairwise Apart)
    (hblock : ∀ b ∈ m.blocks, 0 < b.1 ∧ sizeofMemPool ≤ b.2 ∧ b.1 + b.2 < sizeMod)
    (hstack : ∀ b ∈ L.pools, Stack m b b (L.chain b)) : Represents m L :=
  ⟨hapart, hblock, hm.freeList, hm.cached, hstack, hm.conserve⟩

section Fresh

variable {memalign : Memalign} {m : Heap} {L : Layout} {nbytes a : ℕ}

/-- A fresh block would overlap one that starts where it does. -/
theorem Represents.newBlock (hm : Represents m L) (hfresh : memalign.Fresh)
    (hcall : memalign m.blocks (sizeofMemPool + nbytes) = some a) : NewBlock m.blocks a := by
  obtain ⟨hpos, -, -, hapart⟩ := hfresh _ _ _ hcall
  refine ⟨hpos, fun b hb heq => ?_⟩
  have hsize := (hm.block b hb).2.1
  have hb' := hapart b hb
  simp only [Apart, sizeofMemPool] at *
  omega

/-- The blocks with a fresh one. -/
theorem Represents.blocks_cons (hm : Represents m L) (hfresh : memalign.Fresh)
    (hcall : memalign m.blocks (sizeofMemPool + nbytes) = some a) :
    ((a, sizeofMemPool + nbytes) :: m.blocks).Pairwise Apart ∧
      ∀ b ∈ (a, sizeofMemPool + nbytes) :: m.blocks,
        0 < b.1 ∧ sizeofMemPool ≤ b.2 ∧ b.1 + b.2 < sizeMod := by
  obtain ⟨hpos, -, hlt, hapart⟩ := hfresh _ _ _ hcall
  refine ⟨List.pairwise_cons.mpr ⟨hapart, hm.apart⟩, fun b hb => ?_⟩
  rcases List.mem_cons.mp hb with rfl | hb
  · exact ⟨hpos, Nat.le_add_right _ _, hlt⟩
  · exact hm.block b hb

end Fresh

/-- A chunk in the hands of the operation: not null, with its end known. -/
structure Loose (m : Heap) (ptr limit : ℕ) : Prop where
  blockEnd : BlockEnd m ptr limit
  lo : ptr + sizeofMemPool ≤ limit
  hi : limit < sizeMod

/-- `takeChunk` leaves the headers alone and puts one block into the hands of `mp_alloc`: the
head of the cache when there is one, otherwise a fresh block that fits the request. -/
theorem takeChunk_spec {memalign : Memalign} {m m' : Heap} {L : Layout} {nbytes ptr limit : ℕ}
    (hm : Represents m L) (hfresh : memalign.Fresh) (hn : sizeofMemPool + nbytes < sizeMod)
    (h : takeChunk memalign m nbytes = some (ptr, limit, m')) :
    ∃ free, Represents m' { L with loose := ptr :: L.loose, free := free } ∧
      Loose m' ptr limit ∧ m'.hdr = m.hdr ∧ m'.writes = m.writes ∧
      (∀ x ∈ m.blocks, x ∈ m'.blocks) ∧
      (L.free = ptr :: free ∨ L.free = [] ∧ free = [] ∧ limit = ptr + sizeofMemPool + nbytes) := by
  rcases takeChunk_eq_some h with ⟨hcache, rfl, rfl, rfl⟩ | ⟨hnull, hcall, rfl, rfl⟩
  · -- the cache is not empty: its head becomes loose
    obtain ⟨free, hfree, hpath⟩ := hm.freeList.exists_cons hcache
    have hholds := hm.holds.takeCached hfree hpath (m.nfree - 1)
    obtain ⟨size, hblock, hend⟩ := hm.cached m.freechunks (by rw [hfree]; exact List.mem_cons_self ..)
    have hb := hm.block _ hblock
    simp only at hb
    refine ⟨free, hholds.represents hm.apart hm.block fun b hb => ?_, ⟨⟨size, hblock, hend⟩, ?_, ?_⟩,
      rfl, rfl, fun x hx => hx, Or.inl hfree⟩
    · exact (hm.stack b hb).congr rfl (fun _ _ => rfl) fun _ _ _ he => he
    · omega
    · omega
  · -- the cache is empty: a fresh block
    have hempty : L.free = [] := (hnull ▸ hm.freeList).eq_nil
    rw [Nat.mod_eq_of_lt hn] at hcall ⊢
    obtain ⟨hapart, hblock⟩ := hm.blocks_cons hfresh hcall
    have hlt := (hblock _ (List.mem_cons_self ..)).2.2
    simp only at hlt
    have hlim : ptrAdd ptr (sizeofMemPool + nbytes) = ptr + (sizeofMemPool + nbytes) :=
      ptrAdd_of_lt hlt
    have hholds := hm.holds.takeNew (hm.newBlock hfresh hcall) (sizeofMemPool + nbytes)
    have hgrow : ∀ x ∈ m.blocks, x ∈ (ptr, sizeofMemPool + nbytes) :: m.blocks :=
      fun x hx => List.mem_cons_of_mem _ hx
    refine ⟨L.free, hholds.represents hapart hblock fun b hb => ?_,
      ⟨⟨_, List.mem_cons_self .., hlim⟩, ?_, ?_⟩, rfl, rfl, hgrow, Or.inr ⟨hempty, hempty, by omega⟩⟩
    · refine (hm.stack b hb).congr rfl (fun _ _ => rfl) ?_
      rintro c e - ⟨size, hmem, he⟩
      exact ⟨size, hgrow _ hmem, he⟩
    · omega
    · omega

/-- `pushChunk` stacks a loose chunk on the pool `b`: the pool gets the mark of an empty
chunk, its other marks and those of the other pools stay. -/
theorem pushChunk_spec {m : Heap} {L : Layout} {b ptr limit : ℕ} {loose : List ℕ}
    (hm : Represents m L) (hloose : L.loose = ptr :: loose) (hb : b ∈ L.pools)
    (hptr : Loose m ptr limit) :
    Represents (pushChunk m b ptr limit)
        ({ L with loose := loose }.setChain b (ptr :: L.chain b)) ∧
      marks (pushChunk m b ptr limit) b b (ptr :: L.chain b) =
        (ptr, ptr + sizeofMemPool) :: marks m b b (L.chain b) ∧
      (∀ b' ∈ L.pools, b' ≠ b →
        marks (pushChunk m b ptr limit) b' b' (L.chain b') = marks m b' b' (L.chain b')) := by
  have hmem : ptr ∈ L.loose := by rw [hloose]; exact List.mem_cons_self ..
  obtain ⟨hsaved, hchainB⟩ := hm.holds.pushChunk_hdr hb hmem limit
  have hframe : Frame m (pushChunk m b ptr limit) L b := pushChunk_frame hmem
  have htop := pushChunk_hdr_base m b ptr limit
  rw [ptrAdd_of_lt (Nat.lt_of_le_of_lt hptr.lo hptr.hi)] at htop
  have hown : Stack (pushChunk m b ptr limit) b b (ptr :: L.chain b) := by
    refine ⟨by rw [htop], ?_, ?_, ?_⟩
    · exact hm.holds.ne_zero_of_owned (List.mem_append_left _ hmem)
    · simp only [Describes, htop]
      exact ⟨Nat.le_refl _, hptr.lo, hptr.blockEnd⟩
    · -- the saved descriptor is one link further from the base
      exact (hm.stack b hb).congr hsaved hchainB fun _ _ _ he => he
  obtain ⟨hholds, -⟩ := pushChunk_holds hm.holds hloose hb hptr.blockEnd
  refine ⟨hholds.represents hm.apart hm.block (hframe.stack hm hb hown), ?_,
    hframe.marks hm.holds hb⟩
  simp only [marks, htop, List.cons.injEq, true_and]
  exact marks_congr hsaved hchainB

theorem popChunk_blocks (m : Heap) (b : ℕ) : (popChunk m b).blocks.Sublist m.blocks := by
  by_cases hn : m.nfree < THRESHOLD
  · simp [popChunk, hn, Heap.store]
  · rw [(popChunk_full b hn).1]
    exact List.filter_sublist

/-- `popChunk` takes the newest chunk of the pool `b` off its stack, into the cache or back
to the system: the pool loses the mark of that chunk and no other mark changes. -/
theorem popChunk_spec {m : Heap} {L : Layout} {b ptr : ℕ} {cs : List ℕ}
    (hm : Represents m L) (hb : b ∈ L.pools) (hchain : L.chain b = ptr :: cs) :
    ∃ free, Represents (popChunk m b) ({ L with free := free }.setChain b cs) ∧
      marks m b b (ptr :: cs) = (ptr, (m.hdr b).avail) :: marks (popChunk m b) b b cs ∧
      (∀ b' ∈ L.pools, b' ≠ b →
        marks (popChunk m b) b' b' (L.chain b') = marks m b' b' (L.chain b')) ∧
      (∃ ws, (popChunk m b).writes = m.writes ++ ws ∧
        ∀ w ∈ ws, w = (ptr, sizeofMemPool) ∨ w = (b, sizeofMemPool)) := by
  obtain ⟨free, hholds, -⟩ := popChunk_holds hm.holds hb hchain
  have hstack := hm.stack b hb
  rw [hchain] at hstack
  obtain ⟨rfl, -, -, hrest⟩ := hstack
  have hptr : (m.hdr b).prev ∈ L.chain b := by rw [hchain]; exact List.mem_cons_self ..
  have hframe := popChunk_frame hptr
  -- the older chunks of the pool are not touched either
  have hbase := popChunk_hdr_base m b
  obtain ⟨-, hchainHdr, hends⟩ := hm.holds.popChunk_hdr hb hchain
  have hown : Stack (popChunk m b) b b cs := hrest.congr hbase hchainHdr hends
  have hsub := popChunk_blocks m b
  refine ⟨free, hholds.represents (hm.apart.sublist hsub) (fun x hx => hm.block x (hsub.subset hx))
    (hframe.stack hm hb hown), ?_, hframe.marks hm.holds hb, ?_⟩
  · simp only [marks, List.cons.injEq, true_and]
    exact (marks_congr hbase hchainHdr).symm
  · by_cases hn : m.nfree < THRESHOLD
    · refine ⟨[((m.hdr b).prev, sizeofMemPool), ((m.hdr b).prev, sizeofMemPool),
        (b, sizeofMemPool)], ?_, ?_⟩
      · simp [popChunk, hn, Heap.store]
      · simp
    · refine ⟨[(b, sizeofMemPool)], ?_, ?_⟩
      · simp [popChunk, hn, Heap.store, Heap.release]
      · simp

/-! ## Frames -/

/-- The write `w` is a store to the header of a block of `m`. -/
def HeaderWrite (m : Heap) (w : ℕ × ℕ) : Prop :=
  w.2 = sizeofMemPool ∧ ∃ size, (w.1, size) ∈ m.blocks

/-- From `m` to `m'` the pools keep what they have handed out. -/
structure Grows (m : Heap) (L : Layout) (m' : Heap) (L' : Layout) : Prop where
  loose : L'.loose = L.loose
  pools : L'.pools = L.pools
  marks : ∀ b ∈ L.pools, ∀ p ∈ marks m b b (L.chain b),
    ∃ p' ∈ Mem.marks m' b b (L'.chain b), p'.1 = p.1 ∧ p.2 ≤ p'.2
  blocks : ∀ x ∈ m.blocks, x ∈ m'.blocks
  writes : ∃ ws, m'.writes = m.writes ++ ws ∧ ∀ w ∈ ws, HeaderWrite m' w

theorem Grows.refl (m : Heap) (L : Layout) : Grows m L m L where
  loose := rfl
  pools := rfl
  marks := fun _ _ p hp => ⟨p, hp, rfl, Nat.le_refl _⟩
  blocks := fun _ hx => hx
  writes := ⟨[], by simp, by simp⟩

theorem HeaderWrite.mono {m m' : Heap} (hblocks : ∀ x ∈ m.blocks, x ∈ m'.blocks) {w : ℕ × ℕ}
    (hw : HeaderWrite m w) : HeaderWrite m' w := by
  obtain ⟨hlen, size, hmem⟩ := hw
  exact ⟨hlen, size, hblocks _ hmem⟩

theorem Grows.trans {m₁ m₂ m₃ : Heap} {L₁ L₂ L₃ : Layout} (h₁ : Grows m₁ L₁ m₂ L₂)
    (h₂ : Grows m₂ L₂ m₃ L₃) : Grows m₁ L₁ m₃ L₃ where
  loose := h₂.loose.trans h₁.loose
  pools := h₂.pools.trans h₁.pools
  marks := by
    intro b hb p hp
    obtain ⟨q, hq, hq₁, hq₂⟩ := h₁.marks b hb p hp
    obtain ⟨r, hr, hr₁, hr₂⟩ := h₂.marks b (by rw [h₁.pools]; exact hb) q hq
    exact ⟨r, hr, hr₁.trans hq₁, Nat.le_trans hq₂ hr₂⟩
  blocks := fun x hx => h₂.blocks x (h₁.blocks x hx)
  writes := by
    obtain ⟨ws₁, hws₁, hhdr₁⟩ := h₁.writes
    obtain ⟨ws₂, hws₂, hhdr₂⟩ := h₂.writes
    refine ⟨ws₁ ++ ws₂, by rw [hws₂, hws₁, List.append_assoc], fun w hw => ?_⟩
    rcases List.mem_append.mp hw with hw | hw
    · exact (hhdr₁ w hw).mono h₂.blocks
    · exact hhdr₂ w hw

/-! ## `mp_alloc` -/

/-- One iteration of `mp_alloc`'s loop stacks one chunk. -/
theorem allocStep_grows {memalign : Memalign} {m m' : Heap} {L : Layout} {b nbytes ptr limit : ℕ}
    (hm : Represents m L) (hb : b ∈ L.pools) (hfresh : memalign.Fresh)
    (hn : sizeofMemPool + nbytes < sizeMod)
    (h : takeChunk memalign m nbytes = some (ptr, limit, m')) :
    ∃ L', Represents (pushChunk m' b ptr limit) L' ∧ Grows m L (pushChunk m' b ptr limit) L' := by
  obtain ⟨free, hm', hptr, hhdr, hwrites, hblocks, -⟩ := takeChunk_spec hm hfresh hn h
  obtain ⟨hrep, hmarksB, hmarks⟩ := pushChunk_spec hm' rfl hb hptr
  have hsame : ∀ b' cs, Mem.marks m' b' b' cs = Mem.marks m b' b' cs := fun b' cs =>
    marks_congr (by rw [hhdr]) fun c _ => by rw [hhdr]
  refine ⟨_, hrep, rfl, rfl, ?_, hblocks, ?_⟩
  · intro b' hb' p hp
    by_cases hbb' : b' = b
    · subst hbb'
      refine ⟨p, ?_, rfl, Nat.le_refl _⟩
      rw [Layout.chain_setChain_self, hmarksB, hsame]
      exact List.mem_cons_of_mem _ hp
    · refine ⟨p, ?_, rfl, Nat.le_refl _⟩
      rw [Layout.chain_setChain_of_ne _ hbb', hmarks b' hb' hbb', hsame]
      exact hp
  · refine ⟨[(ptr, sizeofMemPool), (b, sizeofMemPool)], ?_, ?_⟩
    · simp [pushChunk, Heap.store, hwrites]
    · intro w hw
      simp only [List.mem_cons, List.not_mem_nil, or_false] at hw
      rcases hw with rfl | rfl
      · obtain ⟨size, hmem, -⟩ := hptr.blockEnd
        exact ⟨rfl, size, hmem⟩
      · obtain ⟨size, hmem⟩ := hm'.holds.mem_owned_iff.mp (Layout.mem_owned_of_pool hb)
        exact ⟨rfl, size, hmem⟩

/-- When the loop of `mp_alloc` ends, the request fits into the current chunk. -/
theorem mpAllocLoop_spec {memalign : Memalign} {b nbytes : ℕ} (hfresh : memalign.Fresh)
    (hn : sizeofMemPool + nbytes < sizeMod) {fuel : ℕ} {m m' : Heap} {L : Layout}
    (hm : Represents m L) (hb : b ∈ L.pools)
    (h : mpAllocLoop memalign b nbytes fuel m = some m') :
    ∃ L', Represents m' L' ∧ Grows m L m' L' ∧
      nbytes ≤ ptrDiff (m'.hdr b).limit (m'.hdr b).avail := by
  induction fuel generalizing m L with
  | zero => simp [mpAllocLoop] at h
  | succ fuel ih =>
      rcases mpAllocLoop_succ_eq_some h with ⟨hfits, rfl⟩ | ⟨-, ptr, limit, m₁, htake, h⟩
      · exact ⟨L, hm, Grows.refl m' L, hfits⟩
      · obtain ⟨L₁, hm₁, hgrow₁⟩ := allocStep_grows hm hb hfresh hn htake
        have hb₁ : b ∈ L₁.pools := by rw [hgrow₁.pools]; exact hb
        obtain ⟨L₂, hm₂, hgrow₂, hle⟩ := ih hm₁ hb₁ h
        exact ⟨L₂, hm₂, hgrow₁.trans hgrow₂, hle⟩

/-- `limit - avail` of a represented pool is computed without wrapping. -/
theorem Represents.ptrDiff_eq {m : Heap} {L : Layout} (hm : Represents m L) {b : ℕ}
    (hb : b ∈ L.pools) :
    ptrDiff (m.hdr b).limit (m.hdr b).avail = (m.hdr b).limit - (m.hdr b).avail := by
  obtain ⟨-, hhi, size, hmem, hend⟩ := (hm.stack b hb).describes_top
  have := (hm.block _ hmem).2.2
  exact ptrDiff_of_le hhi (by omega)

/-- Advancing `avail` inside the current chunk raises the newest mark and nothing else. -/
theorem bump_spec {m : Heap} {L : Layout} {b : ℕ} (hm : Represents m L) (hb : b ∈ L.pools)
    (avail : ℕ) (hlo : (m.hdr b).avail ≤ avail) (hhi : avail ≤ (m.hdr b).limit) :
    Represents (m.store b { m.hdr b with avail := avail }) L ∧
      (∃ rest, Mem.marks m b b (L.chain b) = (topChunk b (L.chain b), (m.hdr b).avail) :: rest ∧
        Mem.marks (m.store b { m.hdr b with avail := avail }) b b (L.chain b) =
          (topChunk b (L.chain b), avail) :: rest) ∧
      (∀ b' ∈ L.pools, b' ≠ b →
        Mem.marks (m.store b { m.hdr b with avail := avail }) b' b' (L.chain b') =
          Mem.marks m b' b' (L.chain b')) := by
  have htop := m.hdr_store_self b { m.hdr b with avail := avail }
  have hframe := bump_frame m L b avail
  have hchainB := hm.holds.bump_hdr hb avail
  have hown : Stack (m.store b { m.hdr b with avail := avail }) b b (L.chain b) := by
    have hst := hm.stack b hb
    cases hchain : L.chain b with
    | nil =>
        -- the current chunk is the base block itself
        rw [hchain] at hst
        obtain ⟨hprev, hl, -, hend⟩ := hst
        simp only [Stack, Describes, htop]
        exact ⟨hprev, Nat.le_trans hl hlo, hhi, hend⟩
    | cons c cs =>
        -- the descriptor of the newest chunk is in the header of the base
        rw [hchain] at hst hchainB
        obtain ⟨hprev, hc0, ⟨hl, -, hend⟩, hrest⟩ := hst
        refine ⟨by rw [htop]; exact hprev, hc0, ?_, ?_⟩
        · simp only [Describes, htop]
          exact ⟨Nat.le_trans hl hlo, hhi, hend⟩
        · exact hrest.congr (hchainB c (List.mem_cons_self ..))
            (fun d hd => hchainB d (List.mem_cons_of_mem _ hd)) fun _ _ _ he => he
  have hstack := hframe.stack hm hb hown
  rw [L.setChain_self] at hstack
  obtain ⟨hholds, -⟩ := bump_holds hm.holds hb avail
  refine ⟨hholds.represents hm.apart hm.block hstack, ?_, hframe.marks hm.holds hb⟩
  cases hchain : L.chain b with
  | nil => exact ⟨[], by simp [Mem.marks, topChunk]⟩
  | cons c cs =>
      rw [hchain] at hchainB
      refine ⟨Mem.marks m b c cs, rfl, ?_⟩
      simp only [Mem.marks, topChunk, htop, List.cons.injEq, true_and]
      exact marks_congr (hchainB c (List.mem_cons_self ..))
        fun d hd => hchainB d (List.mem_cons_of_mem _ hd)

theorem marks_map_fst (m : Heap) (b h : ℕ) (cs : List ℕ) :
    (marks m b h cs).map Prod.fst = cs ++ [b] := by
  induction cs generalizing h with
  | nil => rfl
  | cons c cs ih => simp [marks, ih c]

/-- A chunk has one mark. -/
theorem Represents.mark_unique {m : Heap} {L : Layout} (hm : Represents m L) {b b' : ℕ}
    (hb : b ∈ L.pools) (hb' : b' ∈ L.pools) {p p' : ℕ × ℕ}
    (hp : p ∈ Mem.marks m b b (L.chain b)) (hp' : p' ∈ Mem.marks m b' b' (L.chain b'))
    (heq : p.1 = p'.1) : b = b' ∧ p = p' := by
  by_cases hbb' : b = b'
  · subst hbb'
    refine ⟨rfl, List.inj_on_of_nodup_map ?_ hp hp' heq⟩
    rw [marks_map_fst]
    exact (List.perm_append_singleton ..).nodup_iff.mpr (hm.holds.chain_nodup hb)
  · have hc' := fst_mem_of_mem_marks hp'
    rw [← heq] at hc'
    exact absurd hc' (hm.holds.pool_disjoint hb hb' hbb' (fst_mem_of_mem_marks hp))

/-- `mp_alloc` returns `avail` and moves it, inside the current chunk. -/
theorem mpAlloc_bumps {memalign : Memalign} {m m' : Heap} {L : Layout} {b nbytes ptr : ℕ}
    (hm : Represents m L) (hb : b ∈ L.pools) (hfresh : memalign.Fresh)
    (hn : sizeofMemPool + nbytes < sizeMod) (h : mpAlloc memalign m b nbytes = some (ptr, m')) :
    ∃ m₁ L₁, Represents m₁ L₁ ∧ Grows m L m₁ L₁ ∧
      (m₁.hdr b).avail + nbytes ≤ (m₁.hdr b).limit ∧ ptr = (m₁.hdr b).avail ∧
      m' = m₁.store b { m₁.hdr b with avail := (m₁.hdr b).avail + nbytes } := by
  obtain ⟨-, m₁, hloop, hptr, hm'⟩ := mpAlloc_eq_some h
  obtain ⟨L₁, hm₁, hgrow₁, hfits⟩ := mpAllocLoop_spec hfresh hn hm hb hloop
  have hb₁ : b ∈ L₁.pools := by rw [hgrow₁.pools]; exact hb
  rw [hm₁.ptrDiff_eq hb₁] at hfits
  -- the range ends inside a block, so neither the sum nor the difference wraps
  obtain ⟨-, htopHi, size, hblock, hend⟩ := (hm₁.stack b hb₁).describes_top
  have hbound := (hm₁.block _ hblock).2.2
  simp only at hbound
  have hadd : ptrAdd (m₁.hdr b).avail nbytes = (m₁.hdr b).avail + nbytes :=
    ptrAdd_of_lt (by omega)
  have hsub : ptrDiff ((m₁.hdr b).avail + nbytes) nbytes = (m₁.hdr b).avail := by
    rw [ptrDiff_of_le (Nat.le_add_left _ _) (by omega), Nat.add_sub_cancel]
  rw [hadd] at hptr hm'
  exact ⟨m₁, L₁, hm₁, hgrow₁, by omega, hptr.trans hsub, hm'⟩

/-- `mp_alloc` returns a range behind the newest mark of the pool: inside a chunk of the
pool, and apart from everything any pool had handed out. -/
theorem mpAlloc_spec {memalign : Memalign} {m m' : Heap} {L : Layout} {b nbytes ptr : ℕ}
    (hm : Represents m L) (hb : b ∈ L.pools) (hfresh : memalign.Fresh)
    (hn : sizeofMemPool + nbytes < sizeMod) (h : mpAlloc memalign m b nbytes = some (ptr, m')) :
    ∃ L', Represents m' L' ∧ Grows m L m' L' ∧
      (∃ p ∈ Mem.marks m' b b (L'.chain b), p.1 + sizeofMemPool ≤ ptr ∧ ptr + nbytes ≤ p.2) ∧
      (∀ b' ∈ L.pools, ∀ p ∈ Mem.marks m b' b' (L.chain b'),
        Apart (p.1, p.2 - p.1) (ptr, nbytes)) := by
  obtain ⟨m₁, L₁, hm₁, hgrow₁, hhi, rfl, rfl⟩ := mpAlloc_bumps hm hb hfresh hn h
  have hb₁ : b ∈ L₁.pools := by rw [hgrow₁.pools]; exact hb
  obtain ⟨htopLo, -, size, hblock, hend⟩ := (hm₁.stack b hb₁).describes_top
  obtain ⟨hrep, ⟨rest, hmarks₁, hmarks₂⟩, hothers⟩ :=
    bump_spec hm₁ hb₁ ((m₁.hdr b).avail + nbytes) (Nat.le_add_right _ _) hhi
  refine ⟨L₁, hrep, hgrow₁.trans ⟨rfl, rfl, ?_, fun x hx => hx, ?_⟩, ?_, ?_⟩
  · -- the newest mark of the pool moves up, all others stay
    intro b' hb' p hp
    by_cases hbb' : b' = b
    · subst hbb'
      rw [hmarks₁] at hp
      rw [hmarks₂]
      rcases List.mem_cons.mp hp with rfl | hp
      · exact ⟨_, List.mem_cons_self .., rfl, Nat.le_add_right _ _⟩
      · exact ⟨p, List.mem_cons_of_mem _ hp, rfl, Nat.le_refl _⟩
    · exact ⟨p, by rw [hothers b' hb' hbb']; exact hp, rfl, Nat.le_refl _⟩
  · refine ⟨[(b, sizeofMemPool)], rfl, ?_⟩
    intro w hw
    obtain rfl := List.mem_singleton.mp hw
    obtain ⟨size', hmem⟩ := hm₁.holds.mem_owned_iff.mp (Layout.mem_owned_of_pool hb₁)
    exact ⟨rfl, size', hmem⟩
  · exact ⟨_, by rw [hmarks₂]; exact List.mem_cons_self .., htopLo, Nat.le_refl _⟩
  · -- a mark of the same chunk lies below `avail`; other chunks are apart
    intro b' hb' p hp
    obtain ⟨q, hq, hq₁, hq₂⟩ := hgrow₁.marks b' hb' p hp
    have hb'₁ : b' ∈ L₁.pools := by rw [hgrow₁.pools]; exact hb'
    have htop : (topChunk b (L₁.chain b), (m₁.hdr b).avail) ∈
        Mem.marks m₁ b b (L₁.chain b) := by rw [hmarks₁]; exact List.mem_cons_self ..
    obtain ⟨size', hblock', hqlo, hqhi⟩ := (hm₁.stack b' hb'₁).mark_bounds hq
    by_cases hchunk : q.1 = topChunk b (L₁.chain b)
    · obtain ⟨-, rfl⟩ := hm₁.mark_unique hb'₁ hb₁ hq htop hchunk
      simp only [Apart] at *
      omega
    · rcases hm₁.block_eq_or_apart hblock' hblock with heq | ⟨-, hapart⟩
      · exact absurd (congrArg Prod.fst heq) hchunk
      · refine hapart.mono ?_ ?_ <;> simp only [Inside] <;> omega

/-! ## `mp_new` -/

/-- `mp_new` adds one pool with an empty chain, on a block apart from all others. -/
theorem mpNew_spec {memalign : Memalign} {m m' : Heap} {L : Layout} {nbytes mp : ℕ}
    (hm : Represents m L) (hfresh : memalign.Fresh) (hn : sizeofMemPool + nbytes < sizeMod)
    (h : mpNew memalign m nbytes = some (mp, m')) :
    mp ∉ L.pools ∧
      Represents m' ({ L with pools := mp :: L.pools }.setChain mp []) ∧
      (∀ b ∈ L.pools, Mem.marks m' b b (L.chain b) = Mem.marks m b b (L.chain b)) ∧
      (∀ x ∈ m.blocks, x ∈ m'.blocks) ∧
      (∃ ws, m'.writes = m.writes ++ ws ∧ ∀ w ∈ ws, HeaderWrite m' w) := by
  obtain ⟨hcall, rfl⟩ := mpNew_eq_some h
  rw [Nat.mod_eq_of_lt hn] at hcall ⊢
  have hnew := hm.newBlock hfresh hcall
  obtain ⟨hapart, hblock⟩ := hm.blocks_cons hfresh hcall
  have hlt := (hblock _ (List.mem_cons_self ..)).2.2
  simp only at hlt
  rw [ptrAdd_of_lt hlt]
  have hnot : mp ∉ L.pools := fun ha => hnew.not_mem_owned hm.holds (Layout.mem_owned_of_pool ha)
  have hbase : ∀ (d : MemPool) b, b ∈ L.pools →
      (Heap.store { m with blocks := (mp, sizeofMemPool + nbytes) :: m.blocks } mp d).hdr b =
        m.hdr b := fun d b hb =>
    hnew.hdr_store hm.holds _ d (Layout.mem_owned_of_pool hb)
  have hchunk : ∀ (d : MemPool) b, b ∈ L.pools → ∀ c ∈ L.chain b,
      (Heap.store { m with blocks := (mp, sizeofMemPool + nbytes) :: m.blocks } mp d).hdr c =
        m.hdr c := fun d b hb c hc =>
    hnew.hdr_store hm.holds _ d (Layout.mem_owned_of_chain hb hc)
  refine ⟨hnot, (hm.holds.newPool hnew _ _).represents hapart hblock
    (Layout.forall_setChain_new (P := fun b cs => Stack _ b b cs) ?_ fun b hb => ?_),
    fun b hb => ?_, fun x hx => List.mem_cons_of_mem _ hx, ?_⟩
  · have havail : ptrAdd mp sizeofMemPool = mp + sizeofMemPool := ptrAdd_of_lt (by omega)
    simp only [Stack, Describes, Heap.hdr_store_self, havail]
    exact ⟨trivial, Nat.le_refl _, by omega, _, List.mem_cons_self .., rfl⟩
  · refine (hm.stack b hb).congr (hbase _ b hb) (hchunk _ b hb) ?_
    rintro c e - ⟨size, hmem, he⟩
    exact ⟨size, List.mem_cons_of_mem _ hmem, he⟩
  · exact marks_congr (hbase _ b hb) (hchunk _ b hb)
  · refine ⟨[(mp, sizeofMemPool)], rfl, ?_⟩
    intro w hw
    obtain rfl := List.mem_singleton.mp hw
    exact ⟨rfl, _, List.mem_cons_self ..⟩

/-! ## `mp_free` and `mp_delete` -/

/-- The frame of `mp_free` on the pool `b`: its chain is emptied, the other pools keep their
marks, and every store goes to a header of a block there was. -/
structure Empties (m : Heap) (L : Layout) (b : ℕ) (m' : Heap) (L' : Layout) : Prop where
  loose : L'.loose = L.loose
  pools : L'.pools = L.pools
  chain : ∀ b' ∈ L.pools, b' ≠ b → L'.chain b' = L.chain b'
  marks : ∀ b' ∈ L.pools, b' ≠ b →
    Mem.marks m' b' b' (L.chain b') = Mem.marks m b' b' (L.chain b')
  blocks : ∀ x ∈ m'.blocks, x ∈ m.blocks
  writes : ∃ ws, m'.writes = m.writes ++ ws ∧ ∀ w ∈ ws, HeaderWrite m w

theorem popChunk_empties {m : Heap} {L : Layout} {b ptr : ℕ} {cs : List ℕ}
    (hm : Represents m L) (hb : b ∈ L.pools) (hchain : L.chain b = ptr :: cs) :
    ∃ L', Represents (popChunk m b) L' ∧ Empties m L b (popChunk m b) L' ∧ L'.chain b = cs := by
  obtain ⟨free, hrep, -, hmarks, ws, hws, hhdr⟩ := popChunk_spec hm hb hchain
  refine ⟨_, hrep, ⟨rfl, rfl, ?_, hmarks, fun x hx => (popChunk_blocks m b).subset hx, ws,
    hws, ?_⟩, ?_⟩
  · intro b' _ hbb'
    exact Layout.chain_setChain_of_ne _ hbb' _
  · intro w hw
    have hptr : ptr ∈ L.chain b := by rw [hchain]; exact List.mem_cons_self ..
    rcases hhdr w hw with rfl | rfl
    · exact ⟨rfl, hm.holds.mem_owned_iff.mp (Layout.mem_owned_of_chain hb hptr)⟩
    · exact ⟨rfl, hm.holds.mem_owned_iff.mp (Layout.mem_owned_of_pool hb)⟩
  · exact Layout.chain_setChain_self ..

theorem Empties.trans {m₁ m₂ m₃ : Heap} {L₁ L₂ L₃ : Layout} {b : ℕ}
    (h₁ : Empties m₁ L₁ b m₂ L₂) (h₂ : Empties m₂ L₂ b m₃ L₃) : Empties m₁ L₁ b m₃ L₃ where
  loose := h₂.loose.trans h₁.loose
  pools := h₂.pools.trans h₁.pools
  chain := by
    intro b' hb' hbb'
    rw [h₂.chain b' (by rw [h₁.pools]; exact hb') hbb', h₁.chain b' hb' hbb']
  marks := by
    intro b' hb' hbb'
    have hmarks₂ := h₂.marks b' (by rw [h₁.pools]; exact hb') hbb'
    rw [h₁.chain b' hb' hbb'] at hmarks₂
    rw [hmarks₂, h₁.marks b' hb' hbb']
  blocks := fun x hx => h₁.blocks x (h₂.blocks x hx)
  writes := by
    obtain ⟨ws₁, hws₁, hhdr₁⟩ := h₁.writes
    obtain ⟨ws₂, hws₂, hhdr₂⟩ := h₂.writes
    refine ⟨ws₁ ++ ws₂, by rw [hws₂, hws₁, List.append_assoc], fun w hw => ?_⟩
    rcases List.mem_append.mp hw with hw | hw
    · exact hhdr₁ w hw
    · exact (hhdr₂ w hw).mono h₁.blocks

theorem mpFreeLoop_spec {b fuel : ℕ} {m m' : Heap} {L : Layout} (hm : Represents m L)
    (hb : b ∈ L.pools) (h : mpFreeLoop b fuel m = some m') :
    ∃ L', Represents m' L' ∧ Empties m L b m' L' ∧ L'.chain b = [] := by
  induction fuel generalizing m L with
  | zero => simp [mpFreeLoop] at h
  | succ fuel ih =>
      rw [mpFreeLoop] at h
      have hst := hm.stack b hb
      cases hchain : L.chain b with
      | nil =>
          rw [hchain] at hst
          rw [if_neg (by simp [hst.1])] at h
          obtain rfl := Option.some.inj h
          exact ⟨L, hm, ⟨rfl, rfl, fun _ _ _ => rfl, fun _ _ _ => rfl, fun _ hx => hx,
            [], by simp, by simp⟩, hchain⟩
      | cons ptr cs =>
          rw [hchain] at hst
          rw [if_pos (by rw [hst.1]; exact hst.2.1)] at h
          obtain ⟨L₁, hm₁, hemp₁, -⟩ := popChunk_empties hm hb hchain
          obtain ⟨L₂, hm₂, hemp₂, hnil⟩ := ih hm₁ (by rw [hemp₁.pools]; exact hb) h
          exact ⟨L₂, hm₂, hemp₁.trans hemp₂, hnil⟩

theorem mpFree_spec {b : ℕ} {m m' : Heap} {L : Layout} (hm : Represents m L)
    (hb : b ∈ L.pools) (h : mpFree m b = some m') :
    ∃ L', Represents m' L' ∧ Empties m L b m' L' ∧ L'.chain b = [] := by
  unfold mpFree at h
  by_cases hassert : b = 0
  · simp [hassert] at h
  rw [if_neg hassert] at h
  cases hloop : mpFreeLoop b m.fuel m with
  | none => simp [hloop] at h
  | some m₁ =>
      by_cases hend : (m₁.hdr b).limit ≠ 0 ∧ (m₁.hdr b).avail ≠ 0
      · simp only [hloop, if_pos hend] at h
        obtain rfl := Option.some.inj h
        exact mpFreeLoop_spec hm hb hloop
      · simp [hloop, if_neg hend] at h

/-- Freeing the base of a pool without chunks removes the pool and no other block. -/
theorem releaseBase_spec {m : Heap} {L : Layout} {b : ℕ} (hm : Represents m L)
    (hb : b ∈ L.pools) (hchain : L.chain b = []) :
    Represents (m.release b) { L with pools := L.pools.erase b } := by
  obtain ⟨hholds, -⟩ := releaseBase_holds hm.holds hb hchain
  refine hholds.represents (hm.apart.sublist List.filter_sublist)
    (fun x hx => hm.block x (List.mem_of_mem_filter hx)) fun b' hb' => ?_
  obtain ⟨hmem, hends⟩ := hm.holds.blockEnd_release hb b' hb'
  exact (hm.stack b' hmem).congr rfl (fun _ _ => rfl) hends

end Gfhttpd.Mem
