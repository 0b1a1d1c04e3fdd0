import Gfhttpd.Mem.Edits

/-!
# The pool operations, whatever sizes are asked for

Sums of sizes wrap around, so a block may be smaller than the header that is written to it, and
`avail` may be anywhere.  Who has which block, and where it ends, does not depend on that: each
operation has a specification here in terms of `Holds`.

- `Memalign.Unique`: what is asked of `posix_memalign`
- `Moves`: the frame of an operation on one pool
- `mpNew_holds`, `mpAlloc_holds`, `mpFreeLoop_holds`, `releaseBase_holds`
-/

namespace Gfhttpd.Mem

open Store

/-- `posix_memalign` returns pointers that are not null and aligned, to blocks that end in the
address space and start where no block in use does. -/
def Memalign.Unique (f : Memalign) : Prop :=
  ∀ blocks size a, f blocks size = some a →
    0 < a ∧ a % ALIGNMENT = 0 ∧ a + size < sizeMod ∧ ∀ b ∈ blocks, b.1 ≠ a

/-- A block that `posix_memalign` may have returned. -/
def Placed (x : ℕ × ℕ) : Prop :=
  x.1 % ALIGNMENT = 0 ∧ x.1 + x.2 < sizeMod

/-- A block that is not null and starts where no other block does. -/
def NewBlock (blocks : List (ℕ × ℕ)) (a : ℕ) : Prop :=
  0 < a ∧ ∀ b ∈ blocks, b.1 ≠ a

theorem Memalign.Unique.newBlock {memalign : Memalign} (h : memalign.Unique)
    {blocks : List (ℕ × ℕ)} {size a : ℕ} (hcall : memalign blocks size = some a) :
    NewBlock blocks a ∧ Placed (a, size) := by
  obtain ⟨hpos, haligned, hlt, hnew⟩ := h _ _ _ hcall
  exact ⟨⟨hpos, hnew⟩, haligned, hlt⟩

/-- Such a block is in no place yet. -/
theorem NewBlock.not_mem_owned {m : Heap} {L : Layout} {a : ℕ} (h : NewBlock m.blocks a)
    (hm : Holds m L) : a ∉ L.owned := by
  intro ha
  obtain ⟨size, hmem⟩ := hm.mem_owned_iff.mp ha
  exact h.2 _ hmem rfl

theorem NewBlock.nonzero {m : Heap} {L : Layout} {a : ℕ} (h : NewBlock m.blocks a)
    (hm : Holds m L) (size : ℕ) : ∀ x ∈ (a, size) :: m.blocks, x.1 ≠ 0 := by
  intro x hx
  rcases List.mem_cons.mp hx with rfl | hx
  · exact Nat.ne_of_gt h.1
  · exact hm.nonzero x hx

/-! ## The base descriptor -/

/-- Where the descriptor of the base is: behind the oldest chunk. -/
def bottom : ℕ → List ℕ → ℕ
  | h, [] => h
  | _, c :: cs => bottom c cs

theorem hdr_bottom_congr {m m' : Heap} {h h' : ℕ} {cs : List ℕ} (hh : m'.hdr h' = m.hdr h)
    (hcs : ∀ c ∈ cs, m'.hdr c = m.hdr c) : m'.hdr (bottom h' cs) = m.hdr (bottom h cs) := by
  induction cs generalizing h h' with
  | nil => exact hh
  | cons c cs ih =>
      exact ih (hcs c (List.mem_cons_self ..)) fun d hd => hcs d (List.mem_cons_of_mem _ hd)

/-! ## Frames -/

/-- What an operation on the pool `b` leaves alone, and by how much `nfree` is off the length of the
cache. -/
structure Moves (m : Heap) (L : Layout) (b : ℕ) (m' : Heap) (L' : Layout) : Prop where
  loose : L'.loose = L.loose
  pools : L'.pools = L.pools
  chain : ∀ b' ∈ L.pools, b' ≠ b → L'.chain b' = L.chain b'
  hdr : ∀ b' ∈ L.pools, b' ≠ b → ∀ c, c = b' ∨ c ∈ L.chain b' → m'.hdr c = m.hdr c
  drift : m'.nfree - L'.free.length = m.nfree - L.free.length
  count : m.nfree ≤ THRESHOLD → m'.nfree ≤ THRESHOLD
  blocks : ∀ x ∈ m'.blocks, x ∈ m.blocks ∨ Placed x

theorem Moves.refl (m : Heap) (L : Layout) (b : ℕ) : Moves m L b m L where
  loose := rfl
  pools := rfl
  chain _ _ _ := rfl
  hdr _ _ _ _ _ := rfl
  drift := rfl
  count h := h
  blocks _ hx := Or.inl hx

theorem Moves.trans {m₁ m₂ m₃ : Heap} {L₁ L₂ L₃ : Layout} {b : ℕ} (h₁ : Moves m₁ L₁ b m₂ L₂)
    (h₂ : Moves m₂ L₂ b m₃ L₃) : Moves m₁ L₁ b m₃ L₃ where
  loose := h₂.loose.trans h₁.loose
  pools := h₂.pools.trans h₁.pools
  chain := by
    intro b' hb' hne
    rw [h₂.chain b' (h₁.pools.symm ▸ hb') hne, h₁.chain b' hb' hne]
  hdr := by
    intro b' hb' hne c hc
    have hc' : c = b' ∨ c ∈ L₂.chain b' := by
      rw [h₁.chain b' hb' hne]
      exact hc
    rw [h₂.hdr b' (h₁.pools.symm ▸ hb') hne c hc', h₁.hdr b' hb' hne c hc]
  drift := h₂.drift.trans h₁.drift
  count h := h₂.count (h₁.count h)
  blocks := by
    intro x hx
    rcases h₂.blocks x hx with hx | hx
    · exact h₁.blocks x hx
    · exact Or.inr hx

/-- The places do not depend on the payload, the write log or the counter. -/
theorem Holds.of_same {m m' : Heap} {L : Layout} (hm : Holds m L) (hhdr : m'.hdr = m.hdr)
    (hfree : m'.freechunks = m.freechunks) (hblocks : m'.blocks = m.blocks) : Holds m' L := by
  have hend : ∀ c e, BlockEnd m c e → BlockEnd m' c e := by
    rintro c e ⟨size, hmem, he⟩
    exact ⟨size, by rw [hblocks]; exact hmem, he⟩
  refine ⟨by rw [hblocks]; exact hm.nonzero, hm.nodup, ?_, ?_, ?_,
    by rw [hblocks]; exact hm.conserve⟩
  · rw [hfree, hhdr]
    exact hm.freeList
  · intro c hc
    rw [hhdr]
    exact hend c _ (hm.cached c hc)
  · intro b hb
    exact (hm.saved b hb).congr (by rw [hhdr]) (fun _ _ => by rw [hhdr]) fun c e _ he => hend c e he

/-! ## `mp_alloc` -/

/-- Where `takeChunk` has the chunk from. -/
inductive TakenFrom (m : Heap) (L : Layout) (ptr : ℕ) (m' : Heap) (free : List ℕ) : Prop
  | cache (hfree : L.free = ptr :: free) (hcount : m'.nfree = m.nfree - 1)
      (hblocks : m'.blocks = m.blocks)
  | system (size : ℕ) (hempty : L.free = []) (hfree : free = []) (hcount : m'.nfree = m.nfree)
      (hblocks : m'.blocks = (ptr, size) :: m.blocks) (hplaced : Placed (ptr, size))

/-- The head of the cache becomes loose. -/
theorem Holds.takeCached {m : Heap} {L : Layout} {free : List ℕ} (hm : Holds m L)
    (hfree : L.free = m.freechunks :: free)
    (hpath : Path (fun a => (m.hdr a).prev) 0 (m.hdr m.freechunks).prev free) (nfree : ℤ) :
    Holds { m with freechunks := (m.hdr m.freechunks).prev, nfree := nfree }
      { L with loose := m.freechunks :: L.loose, free := free } := by
  have hperm := Layout.owned_take hfree
  refine ⟨hm.nonzero, hperm.nodup_iff.mp hm.nodup, hpath, fun c hc => ?_, fun b hb => ?_,
    hm.conserve.trans hperm⟩
  · exact hm.cached c (by rw [hfree]; exact List.mem_cons_of_mem _ hc)
  · exact (hm.saved b hb).congr rfl (fun _ _ => rfl) fun _ _ _ he => he

/-- Another block of the system becomes loose. -/
theorem Holds.takeNew {m : Heap} {L : Layout} {a : ℕ} (hm : Holds m L)
    (hnew : NewBlock m.blocks a) (size : ℕ) :
    Holds { m with blocks := (a, size) :: m.blocks } { L with loose := a :: L.loose } := by
  refine ⟨hnew.nonzero hm size, List.nodup_cons.mpr ⟨hnew.not_mem_owned hm, hm.nodup⟩, hm.freeList,
    fun c hc => ?_, fun b hb => ?_, hm.conserve.cons a⟩
  · obtain ⟨size', hmem, he⟩ := hm.cached c hc
    exact ⟨size', List.mem_cons_of_mem _ hmem, he⟩
  · refine (hm.saved b hb).congr rfl (fun _ _ => rfl) ?_
    rintro c e - ⟨size', hmem, he⟩
    exact ⟨size', List.mem_cons_of_mem _ hmem, he⟩

theorem takeChunk_holds {memalign : Memalign} {m m' : Heap} {L : Layout} {nbytes ptr limit : ℕ}
    (hm : Holds m L) (hunique : memalign.Unique)
    (h : takeChunk memalign m nbytes = some (ptr, limit, m')) :
    ∃ free, Holds m' { L with loose := ptr :: L.loose, free := free } ∧ BlockEnd m' ptr limit ∧
      m'.hdr = m.hdr ∧ TakenFrom m L ptr m' free := by
  rcases takeChunk_eq_some h with ⟨hcache, rfl, rfl, rfl⟩ | ⟨hnull, hcall, rfl, rfl⟩
  · -- whatever is cached first is taken, also if it is too small
    obtain ⟨free, hfree, hpath⟩ := hm.freeList.exists_cons hcache
    refine ⟨free, hm.takeCached hfree hpath _, ?_, rfl, .cache hfree rfl rfl⟩
    exact hm.cached _ (by rw [hfree]; exact List.mem_cons_self ..)
  · obtain ⟨hnew, hplaced⟩ := hunique.newBlock hcall
    have hempty : L.free = [] := (hnull ▸ hm.freeList).eq_nil
    refine ⟨L.free, hm.takeNew hnew _, ⟨_, List.mem_cons_self .., ptrAdd_of_lt hplaced.2⟩, rfl, ?_⟩
    exact .system _ hempty hempty rfl rfl hplaced

/-- `pushChunk` gives a loose chunk to the pool `b`, and saves the descriptor of `b` in it. -/
theorem pushChunk_holds {m : Heap} {L : Layout} {b ptr limit : ℕ} {loose : List ℕ}
    (hm : Holds m L) (hloose : L.loose = ptr :: loose) (hb : b ∈ L.pools)
    (hend : BlockEnd m ptr limit) :
    Holds (pushChunk m b ptr limit)
        ({ L with loose := loose }.setChain b (ptr :: L.chain b)) ∧
      (pushChunk m b ptr limit).hdr b = ⟨ptr, ptrAdd ptr sizeofMemPool, limit⟩ ∧
      (pushChunk m b ptr limit).hdr (bottom b (ptr :: L.chain b)) =
        m.hdr (bottom b (L.chain b)) ∧
      ∀ b' ∈ L.pools, b' ≠ b → ∀ c, c = b' ∨ c ∈ L.chain b' →
        (pushChunk m b ptr limit).hdr c = m.hdr c := by
  have hmem : ptr ∈ L.loose := by rw [hloose]; exact List.mem_cons_self ..
  obtain ⟨hsaved, hchainB⟩ := hm.pushChunk_hdr hb hmem limit
  have htop := pushChunk_hdr_base m b ptr limit
  have hframe : Frame m (pushChunk m b ptr limit) L b := pushChunk_frame hmem
  have hown : Saved (pushChunk m b ptr limit) b b (ptr :: L.chain b) := by
    refine ⟨by rw [htop], hm.ne_zero_of_owned (List.mem_append_left _ hmem), ?_, ?_⟩
    · rw [htop]
      exact hend
    · -- the descriptor that was in the base is now in the chunk
      exact (hm.saved b hb).congr hsaved hchainB fun _ _ _ he => he
  have hperm := Layout.owned_push hm.pools_nodup hb hloose
  exact ⟨⟨hm.nonzero, hperm.nodup_iff.mp hm.nodup, hframe.freeList hm hb, hframe.cached hm hb,
    hframe.saved hm hb hown, hm.conserve.trans hperm⟩, htop, hdr_bottom_congr hsaved hchainB,
    fun b' hb' hbb' c hc => hframe.hdr_other hm hb hb' hbb' hc⟩

/-- One iteration of `mp_alloc`'s loop. -/
theorem allocStep_holds {memalign : Memalign} {m m' : Heap} {L : Layout} {b nbytes ptr limit : ℕ}
    (hm : Holds m L) (hb : b ∈ L.pools) (hunique : memalign.Unique)
    (h : takeChunk memalign m nbytes = some (ptr, limit, m')) :
    ∃ L', Holds (pushChunk m' b ptr limit) L' ∧ Moves m L b (pushChunk m' b ptr limit) L' ∧
      m.blocks <:+ (pushChunk m' b ptr limit).blocks ∧
      (pushChunk m' b ptr limit).hdr (bottom b (L'.chain b)) = m.hdr (bottom b (L.chain b)) ∧
      (pushChunk m' b ptr limit).hdr b = ⟨ptr, ptrAdd ptr sizeofMemPool, limit⟩ ∧
      L'.chain b = ptr :: L.chain b := by
  obtain ⟨free, hm', hend, hhdr, htaken⟩ := takeChunk_holds hm hunique h
  obtain ⟨hrep, htop, hbottom, hothers⟩ := pushChunk_holds hm' rfl hb hend
  have hblocks : (pushChunk m' b ptr limit).blocks = m'.blocks := rfl
  have hnfree : (pushChunk m' b ptr limit).nfree = m'.nfree := rfl
  rw [hhdr] at hbottom
  refine ⟨_, hrep, ⟨rfl, rfl, fun b' _ hne => ?_, fun b' hb' hne c hc => ?_, ?_, fun hle => ?_,
    fun x hx => ?_⟩, ?_, ?_, htop, ?_⟩
  · exact Layout.chain_setChain_of_ne _ hne _
  · rw [hothers b' hb' hne c hc, hhdr]
  · -- the counter and the cache both lose one, or neither does
    show m'.nfree - (free.length : ℤ) = _
    cases htaken with
    | cache hfree hcount _ =>
        rw [hfree, hcount, List.length_cons]
        push_cast
        omega
    | system size hempty hfree hcount _ _ => rw [hempty, hfree, hcount]
  · rw [hnfree]
    cases htaken with
    | cache _ hcount _ => omega
    | system size _ _ hcount _ _ => omega
  · rw [hblocks] at hx
    cases htaken with
    | cache _ _ hsame => exact Or.inl (hsame ▸ hx)
    | system size _ _ _ hnew hplaced =>
        rw [hnew] at hx
        rcases List.mem_cons.mp hx with rfl | hx
        · exact Or.inr hplaced
        · exact Or.inl hx
  · rw [hblocks]
    cases htaken with
    | cache _ _ hsame => exact hsame ▸ List.suffix_refl _
    | system size _ _ _ hnew _ =>
        rw [hnew]
        exact List.suffix_cons ..
  · rw [Layout.chain_setChain_self]
    exact hbottom
  · exact Layout.chain_setChain_self ..

/-- The loop of `mp_alloc`: nothing happens when the request fits, otherwise the pool gets a new
current chunk, and keeps the descriptor of its base. -/
theorem mpAllocLoop_holds {memalign : Memalign} {b nbytes : ℕ} (hunique : memalign.Unique)
    {fuel : ℕ} {m m' : Heap} {L : Layout} (hm : Holds m L) (hb : b ∈ L.pools)
    (h : mpAllocLoop memalign b nbytes fuel m = some m') :
    ∃ L', Holds m' L' ∧ Moves m L b m' L' ∧ m.blocks <:+ m'.blocks ∧
      m'.hdr (bottom b (L'.chain b)) = m.hdr (bottom b (L.chain b)) ∧
      nbytes ≤ ptrDiff (m'.hdr b).limit (m'.hdr b).avail ∧
      (nbytes ≤ ptrDiff (m.hdr b).limit (m.hdr b).avail → m' = m ∧ L' = L) ∧
      (ptrDiff (m.hdr b).limit (m.hdr b).avail < nbytes →
        (m'.hdr b).avail = ptrAdd (m'.hdr b).prev sizeofMemPool ∧ L'.chain b ≠ []) := by
  -- on the rounds: a cached chunk may be too small, and then the next round pushes one more
  induction fuel generalizing m L with
  | zero => simp [mpAllocLoop] at h
  | succ fuel ih =>
      rcases mpAllocLoop_succ_eq_some h with ⟨hfits, rfl⟩ | ⟨hfits, ptr, limit, m₁, htake, h⟩
      · exact ⟨L, hm, .refl m' L b, List.suffix_refl _, rfl, hfits, fun _ => ⟨rfl, rfl⟩,
          fun hno => absurd hno (Nat.not_lt.mpr hfits)⟩
      · obtain ⟨L₁, hm₁, hmoves₁, hgrow₁, hbottom₁, htop₁, hchain₁⟩ :=
          allocStep_holds hm hb hunique htake
        have hb₁ : b ∈ L₁.pools := hmoves₁.pools.symm ▸ hb
        obtain ⟨L₂, hm₂, hmoves₂, hgrow₂, hbottom₂, hle, hsame, hmore⟩ := ih hm₁ hb₁ h
        refine ⟨L₂, hm₂, hmoves₁.trans hmoves₂, hgrow₁.trans hgrow₂, hbottom₂.trans hbottom₁, hle,
          fun hno => absurd hfits (Nat.not_lt.mpr hno), fun _ => ?_⟩
        by_cases hagain : ptrDiff ((pushChunk m₁ b ptr limit).hdr b).limit
            ((pushChunk m₁ b ptr limit).hdr b).avail < nbytes
        · exact hmore hagain
        · -- the chunk that was pushed is the last one
          obtain ⟨rfl, rfl⟩ := hsame (Nat.le_of_not_lt hagain)
          rw [htop₁, hchain₁]
          exact ⟨rfl, List.cons_ne_nil _ _⟩

/-- A new `avail` in the descriptor of the pool changes nothing else. -/
theorem bump_holds {m : Heap} {L : Layout} {b : ℕ} (hm : Holds m L) (hb : b ∈ L.pools)
    (avail : ℕ) :
    Holds (m.store b { m.hdr b with avail := avail }) L ∧
      Moves m L b (m.store b { m.hdr b with avail := avail }) L ∧
      ∀ c ∈ L.chain b, (m.store b { m.hdr b with avail := avail }).hdr c = m.hdr c := by
  have hframe := bump_frame m L b avail
  have hchainB := hm.bump_hdr hb avail
  have hown : Saved (m.store b { m.hdr b with avail := avail }) b b (L.chain b) := by
    have hsaved := hm.saved b hb
    -- `Saved` reads `prev` and `limit` of the base, which stay
    cases hchain : L.chain b with
    | nil =>
        rw [hchain] at hsaved
        rw [Saved, Heap.hdr_store_self]
        exact hsaved
    | cons c cs =>
        rw [hchain] at hsaved hchainB
        obtain ⟨hprev, hc0, hend, hrest⟩ := hsaved
        rw [Saved, Heap.hdr_store_self]
        exact ⟨hprev, hc0, hend, hrest.congr (hchainB c (List.mem_cons_self ..))
          (fun d hd => hchainB d (List.mem_cons_of_mem _ hd)) fun _ _ _ he => he⟩
  have hsaved := hframe.saved hm hb hown
  rw [L.setChain_self] at hsaved
  refine ⟨⟨hm.nonzero, hm.nodup, hframe.freeList hm hb, hframe.cached hm hb, hsaved, hm.conserve⟩,
    ⟨rfl, rfl, fun _ _ _ => rfl, fun b' hb' hne c hc => ?_, rfl, id, fun x hx => Or.inl hx⟩,
    hchainB⟩
  exact hframe.hdr_other hm hb hb' hne hc

/-- A request that fits goes through the loop without a round. -/
theorem mpAlloc_current {memalign : Memalign} {m m' : Heap} {b nbytes ptr : ℕ}
    (hfits : nbytes ≤ mpHasLeft m b) (h : mpAlloc memalign m b nbytes = some (ptr, m')) :
    ptr = ptrDiff (ptrAdd (m.hdr b).avail nbytes) nbytes := by
  obtain ⟨-, m₁, hloop, hptr, -⟩ := mpAlloc_eq_some h
  have hno : ¬ nbytes > ptrDiff (m.hdr b).limit (m.hdr b).avail := Nat.not_lt.mpr hfits
  rw [Heap.fuel, mpAllocLoop, if_neg hno] at hloop
  rw [hptr, ← Option.some.inj hloop]

/-- Where a request that fits into the current chunk, and one that does not, comes from. -/
structure Serves (m : Heap) (L : Layout) (b nbytes ptr : ℕ) (m' : Heap) (L' : Layout) : Prop where
  pos : 0 < nbytes
  lt : nbytes < sizeMod
  current : nbytes ≤ mpHasLeft m b → L'.chain b = L.chain b ∧
    m'.hdr b = { m.hdr b with avail := ptrAdd (m.hdr b).avail nbytes } ∧
    ptr = ptrDiff (ptrAdd (m.hdr b).avail nbytes) nbytes
  next : mpHasLeft m b < nbytes → L'.chain b ≠ [] ∧
    ptr = ptrDiff (ptrAdd (ptrAdd (m'.hdr b).prev sizeofMemPool) nbytes) nbytes
  base : L'.chain b ≠ [] →
    m'.hdr (bottom b (L'.chain b)) = m.hdr (bottom b (L.chain b))

/-- `mp_alloc` moves chunks to the pool `b`, gives no block back, and serves the request. -/
theorem mpAlloc_holds {memalign : Memalign} {m m' : Heap} {L : Layout} {b nbytes ptr : ℕ}
    (hm : Holds m L) (hb : b ∈ L.pools) (hunique : memalign.Unique)
    (h : mpAlloc memalign m b nbytes = some (ptr, m')) :
    ∃ L', Holds m' L' ∧ Moves m L b m' L' ∧ m.blocks <:+ m'.blocks ∧
      Serves m L b nbytes ptr m' L' := by
  obtain ⟨hpos, m₁, hloop, hptr, rfl⟩ := mpAlloc_eq_some h
  obtain ⟨L₁, hm₁, hmoves, hgrow, hbottom, hle, hsame, hmore⟩ :=
    mpAllocLoop_holds hunique hm hb hloop
  obtain ⟨hrep, hbump, hchain⟩ :=
    bump_holds hm₁ (hmoves.pools.symm ▸ hb) (ptrAdd (m₁.hdr b).avail nbytes)
  have htop : (m₁.store b { m₁.hdr b with avail := ptrAdd (m₁.hdr b).avail nbytes }).hdr b =
      { m₁.hdr b with avail := ptrAdd (m₁.hdr b).avail nbytes } := by simp [Heap.store]
  have hlt : nbytes < sizeMod := Nat.lt_of_le_of_lt hle (Nat.mod_lt _ (by decide))
  refine ⟨L₁, hrep, hmoves.trans hbump, hgrow, hpos, hlt, fun hfits => ?_, fun hno => ?_,
    fun hne => ?_⟩
  · obtain ⟨rfl, rfl⟩ := hsame hfits
    exact ⟨rfl, htop, hptr⟩
  · obtain ⟨havail, hne⟩ := hmore hno
    rw [htop, hptr, havail]
    exact ⟨hne, rfl⟩
  · -- the base's descriptor is in a chunk
    rw [← hbottom]
    obtain ⟨c, cs, hcons⟩ := List.exists_cons_of_ne_nil hne
    rw [hcons] at hchain ⊢
    simp only [bottom]
    exact hdr_bottom_congr (hchain c (List.mem_cons_self ..))
      fun d hd => hchain d (List.mem_cons_of_mem _ hd)

/-! ## `mp_new` -/

/-- What the pools and the cache have is not the new block. -/
theorem NewBlock.hdr_store {m : Heap} {L : Layout} {a : ℕ} (hnew : NewBlock m.blocks a)
    (hm : Holds m L) (size : ℕ) (d : MemPool) {c : ℕ} (hc : c ∈ L.owned) :
    (Heap.store { m with blocks := (a, size) :: m.blocks } a d).hdr c = m.hdr c := by
  have hne : c ≠ a := fun heq => hnew.not_mem_owned hm (heq ▸ hc)
  exact Heap.hdr_store_of_ne _ hne d

/-- A new block becomes the base of a pool. -/
theorem Holds.newPool {m : Heap} {L : Layout} {a : ℕ} (hm : Holds m L)
    (hnew : NewBlock m.blocks a) (size avail : ℕ) :
    Holds (Heap.store { m with blocks := (a, size) :: m.blocks } a ⟨0, avail, a + size⟩)
      ({ L with pools := a :: L.pools }.setChain a []) := by
  have hout := hnew.not_mem_owned hm
  have hperm := Layout.owned_new fun ha => hout (Layout.mem_owned_of_pool ha)
  refine ⟨hnew.nonzero hm size, hperm.nodup_iff.mp (List.nodup_cons.mpr ⟨hout, hm.nodup⟩), ?_,
    fun c hc => ?_, Layout.forall_setChain_new (P := fun b cs => Saved _ b b cs) ?_ fun b hb => ?_,
    (hm.conserve.cons a).trans hperm⟩
  · exact hm.freeList.congr fun c hc => by rw [hnew.hdr_store hm size _ (Layout.mem_owned_of_free hc)]
  · rw [hnew.hdr_store hm size _ (Layout.mem_owned_of_free hc)]
    obtain ⟨size', hmem, he⟩ := hm.cached c hc
    exact ⟨size', List.mem_cons_of_mem _ hmem, he⟩
  · -- the new pool has no chunk
    simp only [Saved, Heap.hdr_store_self]
    exact ⟨trivial, size, List.mem_cons_self .., rfl⟩
  · -- another pool has no header in the new block
    refine (hm.saved b hb).congr (hnew.hdr_store hm size _ (Layout.mem_owned_of_pool hb))
      (fun c hc => hnew.hdr_store hm size _ (Layout.mem_owned_of_chain hb hc)) ?_
    rintro c e - ⟨size', hmem, he⟩
    exact ⟨size', List.mem_cons_of_mem _ hmem, he⟩

theorem mpNew_holds {memalign : Memalign} {m m' : Heap} {L : Layout} {nbytes mp : ℕ}
    (hm : Holds m L) (hunique : memalign.Unique) (h : mpNew memalign m nbytes = some (mp, m')) :
    mp ∉ L.owned ∧ Holds m' ({ L with pools := mp :: L.pools }.setChain mp []) ∧
      m'.nfree = m.nfree ∧ Placed (mp, (sizeofMemPool + nbytes) % sizeMod) ∧ 0 < mp ∧
      m'.blocks = (mp, (sizeofMemPool + nbytes) % sizeMod) :: m.blocks ∧
      m'.hdr mp = ⟨0, ptrAdd mp sizeofMemPool, mp + (sizeofMemPool + nbytes) % sizeMod⟩ ∧
      ∀ x, x ≠ mp → m'.hdr x = m.hdr x := by
  obtain ⟨hcall, rfl⟩ := mpNew_eq_some h
  obtain ⟨hnew, hplaced⟩ := hunique.newBlock hcall
  have hlimit := ptrAdd_of_lt hplaced.2
  simp only [hlimit]
  exact ⟨hnew.not_mem_owned hm, hm.newPool hnew _ _, rfl, hplaced, hnew.1, rfl,
    Heap.hdr_store_self .., fun x hx => Heap.hdr_store_of_ne _ hx _⟩

/-! ## `mp_free` and `mp_delete` -/

/-- The calls of `free` in `popChunk`. -/
def popReleases (m : Heap) (mp : ℕ) : List ℕ :=
  if m.nfree < THRESHOLD then [] else [(m.hdr mp).prev]

/-- The calls of `free` in the loop of `mp_free`. -/
def freeReleases (mp : ℕ) : ℕ → Heap → List ℕ
  | 0, _ => []
  | fuel + 1, m =>
      if (m.hdr mp).prev ≠ 0 then popReleases m mp ++ freeReleases mp fuel (popChunk m mp) else []

/-- With room in the cache, the chunk becomes its head, and records its end. -/
theorem popChunk_cached {m : Heap} {b : ℕ} (hne : (m.hdr b).prev ≠ b) (hn : m.nfree < THRESHOLD) :
    (popChunk m b).blocks = m.blocks ∧ (popChunk m b).freechunks = (m.hdr b).prev ∧
      (popChunk m b).nfree = m.nfree + 1 ∧
      (popChunk m b).hdr (m.hdr b).prev =
        ⟨m.freechunks, (m.hdr (m.hdr b).prev).avail, (m.hdr b).limit⟩ := by
  refine ⟨?_, ?_, ?_, ?_⟩
  · simp [popChunk, hn, Heap.store]
  · simp [popChunk, hn, Heap.store]
  · simp [popChunk, hn, Heap.store]
  · simp [popChunk, hn, Heap.store, Function.update_of_ne hne,
      Function.update_of_ne (Ne.symm hne)]

/-- With a full cache, the chunk goes back to the system. -/
theorem popChunk_full {m : Heap} (b : ℕ) (hn : ¬ m.nfree < THRESHOLD) :
    (popChunk m b).blocks = (m.blocks.filter fun x => x.1 ≠ (m.hdr b).prev) ∧
      (popChunk m b).freechunks = m.freechunks ∧ (popChunk m b).nfree = m.nfree := by
  refine ⟨?_, ?_, ?_⟩
  · simp [popChunk, hn, Heap.store, Heap.release]
  · simp [popChunk, hn, Heap.store, Heap.release]
  · simp [popChunk, hn, Heap.store, Heap.release]

section PopChunk

variable {m : Heap} {L : Layout} {b : ℕ} {cs : List ℕ}

/-- The pool behind `popChunk`. -/
theorem Holds.saved_popChunk (hm : Holds m L) (hb : b ∈ L.pools)
    (hchain : L.chain b = (m.hdr b).prev :: cs) : Saved (popChunk m b) b b cs := by
  have hsaved := hm.saved b hb
  rw [hchain] at hsaved
  obtain ⟨-, hchainHdr, hends⟩ := hm.popChunk_hdr hb hchain
  exact hsaved.2.2.2.congr (popChunk_hdr_base m b) hchainHdr hends

theorem Holds.popCached (hm : Holds m L) (hb : b ∈ L.pools)
    (hchain : L.chain b = (m.hdr b).prev :: cs) (hn : m.nfree < THRESHOLD) :
    Holds (popChunk m b) ({ L with free := (m.hdr b).prev :: L.free }.setChain b cs) := by
  have hptr : (m.hdr b).prev ∈ L.chain b := by rw [hchain]; exact List.mem_cons_self ..
  have hframe := popChunk_frame hptr
  obtain ⟨hblocks, hhead, -, hptrHdr⟩ := popChunk_cached (hm.popChunk_hdr hb hchain).1 hn
  have hperm := (Layout.owned_pop hm.pools_nodup hb hchain).trans
    (Layout.owned_cache (L.setChain b cs) _)
  refine ⟨by rw [hblocks]; exact hm.nonzero, hperm.nodup_iff.mp hm.nodup, ⟨hhead, ?_, ?_⟩,
    fun c hc => ?_, hframe.saved hm hb (hm.saved_popChunk hb hchain), ?_⟩
  · exact hm.ne_zero_of_owned (Layout.mem_owned_of_chain hb hptr)
  · show Path _ 0 ((popChunk m b).hdr (m.hdr b).prev).prev L.free
    rw [hptrHdr]
    exact hframe.freeList hm hb
  · rcases List.mem_cons.mp hc with rfl | hc
    · -- the limit that is recorded was the one of the pool, the end of this chunk
      have hsaved := hm.saved b hb
      rw [hchain] at hsaved
      obtain ⟨size, hmem, he⟩ := hsaved.2.2.1
      rw [hptrHdr]
      exact ⟨size, by rw [hblocks]; exact hmem, he⟩
    · exact hframe.cached hm hb c hc
  · rw [hblocks]
    exact hm.conserve.trans hperm

theorem Holds.popFull (hm : Holds m L) (hb : b ∈ L.pools)
    (hchain : L.chain b = (m.hdr b).prev :: cs) (hn : ¬ m.nfree < THRESHOLD) :
    Holds (popChunk m b) (L.setChain b cs) := by
  have hptr : (m.hdr b).prev ∈ L.chain b := by rw [hchain]; exact List.mem_cons_self ..
  have hframe := popChunk_frame hptr
  obtain ⟨hblocks, hhead, -⟩ := popChunk_full b hn
  have hperm := Layout.owned_pop hm.pools_nodup hb hchain
  refine ⟨fun x hx => ?_, (List.nodup_cons.mp (hperm.nodup_iff.mp hm.nodup)).2, ?_,
    hframe.cached hm hb, hframe.saved hm hb (hm.saved_popChunk hb hchain), ?_⟩
  · rw [hblocks] at hx
    exact hm.nonzero x (List.mem_of_mem_filter hx)
  · rw [hhead]
    exact hframe.freeList hm hb
  · rw [hblocks]
    exact release_conserve hm (hm.conserve.trans hperm)

/-- `popChunk` takes the newest chunk of the pool `b` off its chain, into the cache or back to the
system. -/
theorem popChunk_holds {ptr : ℕ} (hm : Holds m L) (hb : b ∈ L.pools)
    (hchain : L.chain b = ptr :: cs) :
    ∃ free, Holds (popChunk m b) ({ L with free := free }.setChain b cs) ∧
      Moves m L b (popChunk m b) ({ L with free := free }.setChain b cs) ∧
      (popChunk m b).hdr (bottom b cs) = m.hdr (bottom b (ptr :: cs)) ∧
      (m.blocks.map Prod.fst).Perm
        (popReleases m b ++ (popChunk m b).blocks.map Prod.fst) := by
  have hsaved := hm.saved b hb
  rw [hchain] at hsaved
  obtain rfl := hsaved.1
  have hptr : (m.hdr b).prev ∈ L.chain b := by rw [hchain]; exact List.mem_cons_self ..
  obtain ⟨hne, hchainHdr, -⟩ := hm.popChunk_hdr hb hchain
  have hbottom : (popChunk m b).hdr (bottom b cs) = m.hdr (bottom b ((m.hdr b).prev :: cs)) :=
    hdr_bottom_congr (popChunk_hdr_base m b) hchainHdr
  have hother : ∀ b' ∈ L.pools, b' ≠ b → ∀ free : List ℕ,
      ({ L with free := free }.setChain b cs).chain b' = L.chain b' := fun b' _ hbb' _ =>
    Layout.chain_setChain_of_ne _ hbb' _
  have hothers : ∀ b' ∈ L.pools, b' ≠ b → ∀ c, c = b' ∨ c ∈ L.chain b' →
      (popChunk m b).hdr c = m.hdr c :=
    fun b' hb' hbb' c hc => (popChunk_frame hptr).hdr_other hm hb hb' hbb' hc
  by_cases hn : m.nfree < THRESHOLD
  · obtain ⟨hblocks, -, hcount, -⟩ := popChunk_cached hne hn
    refine ⟨_, hm.popCached hb hchain hn, ⟨rfl, rfl, fun b' hb' hbb' => hother b' hb' hbb' _, hothers,
      ?_, fun _ => ?_, fun x hx => Or.inl (hblocks ▸ hx)⟩, hbottom, ?_⟩
    · show _ - (((m.hdr b).prev :: L.free).length : ℤ) = _
      rw [hcount, List.length_cons]
      push_cast
      omega
    · omega
    · rw [popReleases, if_pos hn, hblocks]
      exact List.Perm.refl _
  · obtain ⟨hblocks, -, hcount⟩ := popChunk_full b hn
    have hholds := hm.popFull hb hchain hn
    refine ⟨L.free, hholds, ⟨rfl, rfl, fun b' hb' hbb' => hother b' hb' hbb' _, hothers, ?_,
      fun hle => hcount ▸ hle, fun x hx => ?_⟩, hbottom, ?_⟩
    · rw [hcount]
      rfl
    · rw [hblocks] at hx
      exact Or.inl (List.mem_of_mem_filter hx)
    · have hperm := hm.conserve.trans (Layout.owned_pop hm.pools_nodup hb hchain)
      rw [popReleases, if_neg hn]
      exact hperm.trans (hholds.conserve.symm.cons _)

end PopChunk

/-- The loop of `mp_free` returns after as many rounds as the pool has chunks.  It leaves the pool
the descriptor of its base. -/
theorem mpFreeLoop_holds {b : ℕ} (fuel : ℕ) {m : Heap} {L : Layout} (hm : Holds m L)
    (hb : b ∈ L.pools) (hfuel : (L.chain b).length < fuel) :
    ∃ m' L', mpFreeLoop b fuel m = some m' ∧ Holds m' L' ∧ Moves m L b m' L' ∧ L'.chain b = [] ∧
      m'.hdr b = m.hdr (bottom b (L.chain b)) ∧
      (m.blocks.map Prod.fst).Perm (freeReleases b fuel m ++ m'.blocks.map Prod.fst) := by
  -- on the rounds, each of which makes the chain shorter
  induction fuel generalizing m L with
  | zero => omega
  | succ fuel ih =>
      rw [mpFreeLoop, freeReleases]
      have hsaved := hm.saved b hb
      cases hchain : L.chain b with
      | nil =>
          rw [hchain] at hsaved
          have hlast : ¬ (m.hdr b).prev ≠ 0 := not_not.mpr hsaved.1
          rw [if_neg hlast, if_neg hlast]
          exact ⟨m, L, rfl, hm, .refl m L b, hchain, rfl, List.Perm.refl _⟩
      | cons ptr cs =>
          rw [hchain] at hsaved
          have hmore : (m.hdr b).prev ≠ 0 := by
            rw [hsaved.1]
            exact hsaved.2.1
          rw [if_pos hmore, if_pos hmore]
          obtain ⟨free, hm₁, hmoves₁, hbottom₁, hperm₁⟩ := popChunk_holds hm hb hchain
          have hchain₁ : ({ L with free := free }.setChain b cs).chain b = cs :=
            Layout.chain_setChain_self ..
          rw [hchain, List.length_cons] at hfuel
          obtain ⟨m₂, L₂, hloop, hm₂, hmoves₂, hnil, hbottom₂, hperm₂⟩ :=
            ih hm₁ (hmoves₁.pools.symm ▸ hb) (by rw [hchain₁]; omega)
          rw [hchain₁] at hbottom₂
          refine ⟨m₂, L₂, hloop, hm₂, hmoves₁.trans hmoves₂, hnil, hbottom₂.trans hbottom₁, ?_⟩
          rw [List.append_assoc]
          exact hperm₁.trans (hperm₂.append_left _)

theorem Holds.chain_length_lt {m : Heap} {L : Layout} (hm : Holds m L) {b : ℕ}
    (hb : b ∈ L.pools) : (L.chain b).length < m.fuel := by
  have hsub : (L.chain b).Sublist L.owned := by
    have hmem : (b :: L.chain b).Sublist L.stacked :=
      List.sublist_flatten_of_mem (List.mem_map_of_mem hb)
    exact (List.sublist_cons_self ..).trans
      ((hmem.trans (List.sublist_append_right ..)).trans (List.sublist_append_right ..))
  have hlen := hsub.length_le
  rw [← hm.conserve.length_eq, List.length_map] at hlen
  rw [Heap.fuel]
  omega

/-- `mp_free` gives the pool the descriptor of its base back, and returns if that is not broken. -/
theorem mpFree_holds {m : Heap} {L : Layout} {b : ℕ} (hm : Holds m L) (hb : b ∈ L.pools) :
    ∃ m' L', Holds m' L' ∧ Moves m L b m' L' ∧ L'.chain b = [] ∧
      m'.hdr b = m.hdr (bottom b (L.chain b)) ∧
      (m.blocks.map Prod.fst).Perm (freeReleases b m.fuel m ++ m'.blocks.map Prod.fst) ∧
      mpFree m b = if (m'.hdr b).limit ≠ 0 ∧ (m'.hdr b).avail ≠ 0 then some m' else none := by
  obtain ⟨m', L', hloop, hm', hmoves, hnil, hbottom, hperm⟩ :=
    mpFreeLoop_holds m.fuel hm hb (hm.chain_length_lt hb)
  have hb0 := hm.ne_zero_of_owned (Layout.mem_owned_of_pool hb)
  refine ⟨m', L', hm', hmoves, hnil, hbottom, hperm, ?_⟩
  rw [mpFree, if_neg hb0, hloop]

theorem Stack.describes_bottom {m : Heap} {b h : ℕ} {cs : List ℕ} (hs : Stack m b h cs) :
    Describes m (bottom h cs) b := by
  induction cs generalizing h with
  | nil => exact hs.2
  | cons c cs ih => exact ih hs.2.2.2

/-- `mp_free` of a pool whose sizes did not wrap returns, and its closing assertions hold. -/
theorem mpFree_returns {m : Heap} {L : Layout} {b : ℕ} (hm : Represents m L)
    (hb : b ∈ L.pools) : (mpFree m b).isSome := by
  obtain ⟨m', L', -, -, -, hbottom, -, hfree⟩ := mpFree_holds hm.holds hb
  obtain ⟨hlo, hhi, -⟩ := (hm.stack b hb).describes_bottom
  have havail : (m'.hdr b).limit ≠ 0 ∧ (m'.hdr b).avail ≠ 0 := by
    rw [hbottom]
    simp only [sizeofMemPool] at hlo
    omega
  rw [hfree, if_pos havail]
  rfl

/-- The blocks of the other pools end where they did when the base of one is freed. -/
theorem Holds.blockEnd_release {m : Heap} {L : Layout} {b : ℕ} (hm : Holds m L)
    (hb : b ∈ L.pools) : ∀ b' ∈ L.pools.erase b, b' ∈ L.pools ∧
      ∀ c e, c = b' ∨ c ∈ L.chain b' → BlockEnd m c e → BlockEnd (m.release b) c e := by
  intro b' hb'
  have hmem : b' ∈ L.pools := List.mem_of_mem_erase hb'
  have hne : b' ≠ b := fun heq => hm.pools_nodup.not_mem_erase (heq ▸ hb')
  refine ⟨hmem, ?_⟩
  rintro c e hc ⟨size, hblock, he⟩
  have hcb : c ≠ b := (hm.not_movable_of_other_pool hb hmem hne hc).1
  exact ⟨size, by simpa [Heap.release, hcb] using hblock, he⟩

/-- Freeing the base of a pool without chunks. -/
theorem releaseBase_holds {m : Heap} {L : Layout} {b : ℕ} (hm : Holds m L) (hb : b ∈ L.pools)
    (hchain : L.chain b = []) :
    Holds (m.release b) { L with pools := L.pools.erase b } ∧
      (m.blocks.map Prod.fst).Perm (b :: (m.release b).blocks.map Prod.fst) := by
  have hperm := Layout.owned_erase hb hchain
  have hcons := release_conserve hm (hm.conserve.trans hperm)
  refine ⟨⟨fun x hx => hm.nonzero x (List.mem_of_mem_filter hx), ?_, hm.freeList, fun c hc => ?_,
    fun b' hb' => ?_, hcons⟩, (hm.conserve.trans hperm).trans (hcons.symm.cons _)⟩
  · exact (List.nodup_cons.mp (hperm.nodup_iff.mp hm.nodup)).2
  · obtain ⟨size, hmem, he⟩ := hm.cached c hc
    have hcb : c ≠ b := (hm.not_movable_of_free hb hc).1
    exact ⟨size, by simpa [Heap.release, hcb] using hmem, he⟩
  · obtain ⟨hmem, hends⟩ := hm.blockEnd_release hb b' hb'
    exact (hm.saved b' hmem).congr rfl (fun _ _ => rfl) hends

end Gfhttpd.Mem
