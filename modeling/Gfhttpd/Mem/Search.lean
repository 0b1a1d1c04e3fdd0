import Gfhttpd.Mem.Ownership
import Gfhttpd.Lib.Loop

/-!
# The search of `mp_alloc`

The loop of `mp_alloc` takes the cached chunks one after the other, without a look at their sizes,
until the one it has taken is large enough, and asks the system for a chunk when no cached one is
left.  A round can leave the pool with less space than it had.

- `allocLoop`, `mpAllocLoop_eq_run`: the loop by itself
- `PoolAndCache`: the chunks of one pool, and those that are cached
- `mpAlloc_search_ends`: the loop ends, and where the chunks are that it has taken
- `mpAlloc_eq_none`: `mp_alloc` fails only with `posix_memalign`
-/

namespace Gfhttpd.Mem

open Loop Store

/-! ## The loop -/

/-- `while (nbytes > mp->limit - mp->avail)`.  A body without a next state is an assertion that has
failed. -/
def allocLoop (memalign : Memalign) (mp nbytes : ℕ) : While Heap where
  goesOn m := decide (nbytes > ptrDiff (m.hdr mp).limit (m.hdr mp).avail)
  body m :=
    match takeChunk memalign m nbytes with
    | none => none
    | some (ptr, limit, m) => some (pushChunk m mp ptr limit)

theorem mpAllocLoop_eq_run (memalign : Memalign) (mp nbytes fuel : ℕ) (m : Heap) :
    mpAllocLoop memalign mp nbytes fuel m = (allocLoop memalign mp nbytes).run fuel m := by
  induction fuel generalizing m with
  | zero => rfl
  | succ fuel ih =>
      simp only [mpAllocLoop, While.run, allocLoop, decide_eq_true_eq]
      split
      · cases htake : takeChunk memalign m nbytes with
        | none => rfl
        | some taken => exact ih _
      · rfl

/-! ## A pool and the cache -/

/-- The chain of the pool `b` and the list of the cached chunks end, and no block is in two of these
places. -/
structure PoolAndCache (m : Heap) (b : ℕ) (chain free : List ℕ) : Prop where
  pool : Path (fun a => (m.hdr a).prev) 0 (m.hdr b).prev chain
  cache : Path (fun a => (m.hdr a).prev) 0 m.freechunks free
  nodup : (b :: (chain ++ free)).Nodup
  inUse : ∀ c ∈ b :: (chain ++ free), ∃ size, (c, size) ∈ m.blocks

/-- So they are in every state of a run of calls. -/
theorem Holds.poolAndCache {m : Heap} {L : Layout} {b : ℕ} (hm : Holds m L) (hb : b ∈ L.pools) :
    PoolAndCache m b (L.chain b) L.free := by
  refine ⟨(hm.saved b hb).path, hm.freeList, ?_, fun c hc => ?_⟩
  · rw [← List.cons_append]
    refine (hm.chain_nodup hb).append ?_ ?_
    · exact hm.nodup.sublist ((List.sublist_append_left ..).trans (List.sublist_append_right ..))
    · exact fun c hc => hm.not_free_of_stacked hb (List.mem_cons.mp hc)
  · apply hm.mem_owned_iff.mp
    rcases List.mem_cons.mp hc with rfl | hc
    · exact Layout.mem_owned_of_pool hb
    · rcases List.mem_append.mp hc with hc | hc
      · exact Layout.mem_owned_of_chain hb hc
      · exact Layout.mem_owned_of_free hc

/-- A chunk that is in no place yet is pushed: it gets the descriptor of the base, and the other
chunks keep theirs. -/
theorem PoolAndCache.push {m : Heap} {b c : ℕ} {chain free : List ℕ}
    (h : PoolAndCache m b chain free) (hne : c ≠ 0) (hnew : c ∉ b :: (chain ++ free))
    (hblock : ∃ size, (c, size) ∈ m.blocks) (limit : ℕ) :
    PoolAndCache (pushChunk m b c limit) b (c :: chain) free ∧
      (pushChunk m b c limit).hdr c = m.hdr b ∧
      ∀ a ∈ chain ++ free, (pushChunk m b c limit).hdr a = m.hdr a := by
  obtain ⟨hb, -⟩ := List.nodup_cons.mp h.nodup
  have hcb : c ≠ b := fun heq => hnew (heq ▸ List.mem_cons_self ..)
  have hsaved : (pushChunk m b c limit).hdr c = m.hdr b := by
    rw [pushChunk, Heap.hdr_store_of_ne _ hcb, Heap.hdr_store_self]
  have hothers : ∀ a ∈ chain ++ free, (pushChunk m b c limit).hdr a = m.hdr a := by
    intro a ha
    refine pushChunk_hdr_of_ne (fun heq => hb (heq ▸ ha)) fun heq => hnew ?_
    exact heq ▸ List.mem_cons_of_mem _ ha
  -- the new chunk is between the base and the chunk that was the newest
  have hperm : (b :: (c :: chain ++ free)).Perm (c :: b :: (chain ++ free)) := .swap ..
  refine ⟨⟨⟨?_, hne, ?_⟩, ?_, ?_, fun a ha => ?_⟩, hsaved, hothers⟩
  · rw [pushChunk_hdr_base]
  · show Path _ 0 ((pushChunk m b c limit).hdr c).prev chain
    rw [hsaved]
    exact h.pool.congr fun a ha => by rw [hothers a (List.mem_append_left _ ha)]
  · exact h.cache.congr fun a ha => by rw [hothers a (List.mem_append_right _ ha)]
  · exact hperm.nodup_iff.mpr (List.nodup_cons.mpr ⟨hnew, h.nodup⟩)
  · rcases List.mem_cons.mp (hperm.mem_iff.mp ha) with rfl | ha
    · exact hblock
    · exact h.inUse a ha

/-! ## Rounds -/

/-- What is stored from the header `h` on: of each of these chunks the whole space from behind its
header to its limit, and then the descriptor `d`. -/
def Whole (m : Heap) (d : MemPool) : ℕ → List (ℕ × ℕ) → Prop
  | h, [] => m.hdr h = d
  | h, (c, limit) :: cs => m.hdr h = ⟨c, ptrAdd c sizeofMemPool, limit⟩ ∧ Whole m d c cs

theorem Whole.snoc {m : Heap} {d : MemPool} {h c limit : ℕ} {cs : List (ℕ × ℕ)}
    (hw : Whole m ⟨c, ptrAdd c sizeofMemPool, limit⟩ h cs) (hc : m.hdr c = d) :
    Whole m d h (cs ++ [(c, limit)]) := by
  induction cs generalizing h with
  | nil => exact ⟨hw, hc⟩
  | cons p cs ih => exact ⟨hw.1, ih hw.2⟩

/-- The size that is asked of the system. -/
def chunkSize (nbytes : ℕ) : ℕ := (sizeofMemPool + nbytes) % sizeMod

/-- The request fits into a chunk of that size, also when the size has wrapped around. -/
theorem ptrDiff_chunkSize {nbytes : ℕ} (hn : nbytes < sizeMod) (a : ℕ) :
    ptrDiff (ptrAdd a (chunkSize nbytes)) (ptrAdd a sizeofMemPool) = nbytes := by
  simp only [ptrDiff, ptrAdd, chunkSize, sizeofMemPool, sizeMod] at *
  omega

/-- What the loop has done to the pool `b` when it is left: these chunks are from the cache, and at
most one is new. -/
structure Searched (m : Heap) (b nbytes : ℕ) (chain free : List ℕ) (m' : Heap)
    (popped rest : List ℕ) (new : List (ℕ × ℕ)) : Prop where
  fits : nbytes ≤ ptrDiff (m'.hdr b).limit (m'.hdr b).avail
  cached : free = popped ++ rest
  last : new = [] ∨ rest = [] ∧ ∃ a, new = [(a, ptrAdd a (chunkSize nbytes))]
  kept : Whole m' (m.hdr b) b (popped.map (fun c => (c, (m.hdr c).limit)) ++ new).reverse
  places : PoolAndCache m' b ((popped ++ new.map Prod.fst).reverse ++ chain) rest
  older : ∀ c ∈ chain, m'.hdr c = m.hdr c

section Rounds

variable {memalign : Memalign} {m : Heap} {b nbytes : ℕ} {chain free : List ℕ}

/-- The request fits the current chunk. -/
theorem PoolAndCache.searched_stop (h : PoolAndCache m b chain free)
    (hfits : nbytes ≤ ptrDiff (m.hdr b).limit (m.hdr b).avail) :
    Searched m b nbytes chain free m [] free [] :=
  ⟨hfits, rfl, Or.inl rfl, rfl, h, fun _ _ => rfl⟩

/-- A round while chunks are cached takes the first of them. -/
theorem PoolAndCache.round_cached {c : ℕ} (h : PoolAndCache m b chain (c :: free)) :
    ∃ m', (allocLoop memalign b nbytes).body m = some m' ∧ m'.blocks = m.blocks ∧
      PoolAndCache m' b (c :: chain) free ∧ m'.hdr b = ⟨c, ptrAdd c sizeofMemPool, (m.hdr c).limit⟩ ∧
      m'.hdr c = m.hdr b ∧ ∀ a ∈ chain ++ free, m'.hdr a = m.hdr a := by
  obtain ⟨hhead, hne, hrest⟩ := h.cache
  have hperm : (b :: (chain ++ c :: free)).Perm (c :: b :: (chain ++ free)) :=
    (List.perm_middle.cons b).trans (.swap ..)
  obtain ⟨hnew, hnodup⟩ := List.nodup_cons.mp (hperm.nodup_iff.mp h.nodup)
  have hin : ∀ a ∈ c :: b :: (chain ++ free), ∃ size, (a, size) ∈ m.blocks := fun a ha =>
    h.inUse a (hperm.mem_iff.mpr ha)
  -- in between the chunk is in no place
  let m₁ : Heap := { m with freechunks := (m.hdr c).prev, nfree := m.nfree - 1 }
  have htake : takeChunk memalign m nbytes = some (c, (m.hdr c).limit, m₁) := by
    rw [takeChunk, hhead, if_pos hne]
  have htaken : PoolAndCache m₁ b chain free :=
    ⟨h.pool, hrest, hnodup, fun a ha => hin a (List.mem_cons_of_mem _ ha)⟩
  obtain ⟨hplaces, hsaved, hothers⟩ :=
    htaken.push hne hnew (hin c (List.mem_cons_self ..)) (m.hdr c).limit
  exact ⟨pushChunk m₁ b c (m.hdr c).limit, by simp only [allocLoop, htake], rfl, hplaces,
    pushChunk_hdr_base .., hsaved, hothers⟩

/-- A round with an empty cache asks the system, for a chunk that is large enough. -/
theorem PoolAndCache.round_new
    (hcalls : ∀ a, memalign m.blocks (chunkSize nbytes) = some a → NewBlock m.blocks a)
    (hn : nbytes < sizeMod) (h : PoolAndCache m b chain []) :
    (allocLoop memalign b nbytes).body m = none ∧ memalign m.blocks (chunkSize nbytes) = none ∨
      ∃ a m', (allocLoop memalign b nbytes).body m = some m' ∧
        Searched m b nbytes chain [] m' [] [] [(a, ptrAdd a (chunkSize nbytes))] := by
  have hempty : ¬ m.freechunks ≠ 0 := not_not.mpr h.cache
  cases hcall : memalign m.blocks (chunkSize nbytes) with
  | none =>
      have htake : takeChunk memalign m nbytes = none := by
        rw [takeChunk, if_neg hempty]
        simp only [Heap.posixMemalign]
        rw [← chunkSize, hcall]
      refine Or.inl ⟨?_, rfl⟩
      simp only [allocLoop, htake]
  | some a =>
      obtain ⟨hpos, hout⟩ := hcalls a hcall
      have htake : takeChunk memalign m nbytes = some (a, ptrAdd a (chunkSize nbytes),
          { m with blocks := (a, chunkSize nbytes) :: m.blocks }) := by
        rw [takeChunk, if_neg hempty]
        simp only [Heap.posixMemalign]
        rw [← chunkSize, hcall]
      have hnew : a ∉ b :: (chain ++ []) := fun ha => by
        obtain ⟨size, hmem⟩ := h.inUse a ha
        exact hout _ hmem rfl
      let m₁ : Heap := { m with blocks := (a, chunkSize nbytes) :: m.blocks }
      have htaken : PoolAndCache m₁ b chain [] := ⟨h.pool, h.cache, h.nodup, fun c hc => by
        obtain ⟨size, hmem⟩ := h.inUse c hc
        exact ⟨size, List.mem_cons_of_mem _ hmem⟩⟩
      obtain ⟨hplaces, hsaved, hothers⟩ := htaken.push (Nat.ne_of_gt hpos) hnew
        ⟨_, List.mem_cons_self ..⟩ (ptrAdd a (chunkSize nbytes))
      refine Or.inr ⟨a, pushChunk m₁ b a (ptrAdd a (chunkSize nbytes)),
        by simp only [allocLoop, htake, m₁], ?_, rfl, Or.inr ⟨rfl, a, rfl⟩,
        ⟨pushChunk_hdr_base .., hsaved⟩, hplaces, fun c hc => hothers c (List.mem_append_left _ hc)⟩
      rw [pushChunk_hdr_base]
      exact Nat.le_of_eq (ptrDiff_chunkSize hn a).symm

/-- What is behind a round that has taken a cached chunk. -/
theorem Searched.cons {m₁ m' : Heap} {c : ℕ} {popped rest : List ℕ} {new : List (ℕ × ℕ)}
    (h : Searched m₁ b nbytes (c :: chain) free m' popped rest new)
    (hbase : m₁.hdr b = ⟨c, ptrAdd c sizeofMemPool, (m.hdr c).limit⟩) (hsaved : m₁.hdr c = m.hdr b)
    (hothers : ∀ a ∈ chain ++ free, m₁.hdr a = m.hdr a) :
    Searched m b nbytes chain (c :: free) m' (c :: popped) rest new := by
  have hlimits : popped.map (fun a => (a, (m₁.hdr a).limit)) =
      popped.map fun a => (a, (m.hdr a).limit) := by
    refine List.map_congr_left fun a ha => ?_
    rw [hothers a (List.mem_append_right _ (h.cached ▸ List.mem_append_left _ ha))]
  refine ⟨h.fits, by rw [h.cached, List.cons_append], h.last, ?_, ?_, fun a ha => ?_⟩
  · have hkept := h.kept
    rw [hlimits, hbase] at hkept
    rw [List.map_cons, List.cons_append, List.reverse_cons]
    exact hkept.snoc ((h.older c (List.mem_cons_self ..)).trans hsaved)
  · rw [List.cons_append, List.reverse_cons, List.append_assoc, List.singleton_append]
    exact h.places
  · rw [h.older a (List.mem_cons_of_mem _ ha), hothers a (List.mem_append_left _ ha)]

end Rounds

/-! ## The whole search -/

/-- The rounds of the loop begin in these states.  Then it is left, or `posix_memalign` has failed. -/
structure Search (memalign : Memalign) (m : Heap) (b nbytes : ℕ) (chain free : List ℕ)
    (begins : List Heap) (r : Option Heap) : Prop where
  ends : (allocLoop memalign b nbytes).Ends m begins r
  rounds : begins.length ≤ free.length + 1
  /-- the rounds find one cached chunk after the other at the head, and the last one perhaps none -/
  heads : begins.map Heap.freechunks <+: free ++ [0]
  failed : r = none → memalign m.blocks (chunkSize nbytes) = none
  left : ∀ m', r = some m' → ∃ popped rest new, Searched m b nbytes chain free m' popped rest new

section Search

variable {memalign : Memalign} {m : Heap} {b nbytes : ℕ} {chain free : List ℕ}

theorem PoolAndCache.search_stop (h : PoolAndCache m b chain free)
    (hstop : (allocLoop memalign b nbytes).goesOn m = false) :
    Search memalign m b nbytes chain free [] (some m) := by
  refine ⟨.stop hstop, Nat.zero_le _, List.nil_prefix, nofun, fun m' hm' => ?_⟩
  obtain rfl := Option.some.inj hm'
  exact ⟨[], free, [], h.searched_stop (Nat.le_of_not_lt (of_decide_eq_false hstop))⟩

/-- The last round, when no chunk is cached. -/
theorem PoolAndCache.search_new
    (hcalls : ∀ a, memalign m.blocks (chunkSize nbytes) = some a → NewBlock m.blocks a)
    (hn : nbytes < sizeMod) (h : PoolAndCache m b chain [])
    (hgo : (allocLoop memalign b nbytes).goesOn m = true) :
    ∃ r, Search memalign m b nbytes chain [] [m] r := by
  have hheads : [m].map Heap.freechunks <+: [] ++ [0] := by
    rw [List.map_singleton, show m.freechunks = 0 from h.cache]
    exact List.prefix_refl _
  rcases h.round_new hcalls hn with ⟨hbody, hcall⟩ | ⟨a, m', hbody, hsearched⟩
  · exact ⟨none, .fail hgo hbody, Nat.le_refl _, hheads, fun _ => hcall, nofun⟩
  · -- the new chunk ends the loop
    have hstop : (allocLoop memalign b nbytes).goesOn m' = false :=
      decide_eq_false (Nat.not_lt.mpr hsearched.fits)
    refine ⟨some m', .round hgo hbody (.stop hstop), Nat.le_refl _, hheads, nofun, fun m'' hm'' => ?_⟩
    obtain rfl := Option.some.inj hm''
    exact ⟨_, _, _, hsearched⟩

/-- A round that takes a cached chunk, and the rounds behind it. -/
theorem PoolAndCache.search_cached {c : ℕ} (h : PoolAndCache m b chain (c :: free))
    (hgo : (allocLoop memalign b nbytes).goesOn m = true)
    (hrest : ∀ m₁, m₁.blocks = m.blocks → PoolAndCache m₁ b (c :: chain) free →
      ∃ begins r, Search memalign m₁ b nbytes (c :: chain) free begins r) :
    ∃ begins r, Search memalign m b nbytes chain (c :: free) begins r := by
  obtain ⟨m₁, hbody, hblocks, hplaces, hbase, hsaved, hothers⟩ := h.round_cached
  obtain ⟨begins, r, hsearch⟩ := hrest m₁ hblocks hplaces
  refine ⟨m :: begins, r, .round hgo hbody hsearch.ends, Nat.succ_le_succ hsearch.rounds, ?_,
    fun hr => hblocks ▸ hsearch.failed hr, fun m' hm' => ?_⟩
  · rw [List.map_cons, List.cons_append, show m.freechunks = c from h.cache.1]
    exact (List.prefix_cons_inj c).mpr hsearch.heads
  · obtain ⟨popped, rest, new, hsearched⟩ := hsearch.left m' hm'
    exact ⟨c :: popped, rest, new, hsearched.cons hbase hsaved hothers⟩

theorem PoolAndCache.exists_search
    (hcalls : ∀ a, memalign m.blocks (chunkSize nbytes) = some a → NewBlock m.blocks a)
    (hn : nbytes < sizeMod) (h : PoolAndCache m b chain free) :
    ∃ begins r, Search memalign m b nbytes chain free begins r := by
  -- on the cache, of which every round but the last takes the head
  induction free generalizing m chain with
  | nil =>
      cases hgo : (allocLoop memalign b nbytes).goesOn m with
      | false => exact ⟨[], some m, h.search_stop hgo⟩
      | true => exact ⟨[m], h.search_new hcalls hn hgo⟩
  | cons c free ih =>
      cases hgo : (allocLoop memalign b nbytes).goesOn m with
      | false => exact ⟨[], some m, h.search_stop hgo⟩
      | true => exact h.search_cached hgo fun m₁ hblocks hm₁ => ih (hblocks ▸ hcalls) hm₁

theorem Search.run_eq {begins : List Heap} {r : Option Heap} {fuel : ℕ}
    (h : Search memalign m b nbytes chain free begins r) (hfuel : free.length + 1 < fuel) :
    mpAllocLoop memalign b nbytes fuel m = r := by
  rw [mpAllocLoop_eq_run]
  exact h.ends.run_eq (Nat.lt_of_le_of_lt h.rounds hfuel)

/-- **The loop of `mp_alloc` ends, whatever the sizes of the cached chunks and of the request: it takes
each cached chunk at most once, and then the request fits, or `posix_memalign` has failed.  Every
chunk that was taken is in the chain of the pool, with its whole space.** -/
theorem mpAlloc_search_ends (hunique : memalign.Unique) (hn : nbytes < sizeMod)
    (h : PoolAndCache m b chain free) :
    ∃ begins r, Search memalign m b nbytes chain free begins r ∧
      ∀ fuel, free.length + 1 < fuel → mpAllocLoop memalign b nbytes fuel m = r := by
  obtain ⟨begins, r, hsearch⟩ :=
    h.exists_search (fun a hcall => (hunique.newBlock hcall).1) hn
  exact ⟨begins, r, hsearch, fun fuel hfuel => hsearch.run_eq hfuel⟩

/-- A pool without chunks of its own, and two cached chunks of 8 bytes. -/
def smallCache : Heap where
  hdr a := if a = 64 then ⟨128, 88, 96⟩ else if a = 128 then ⟨0, 152, 160⟩ else ⟨0, 40, 48⟩
  bytes _ := 0
  freechunks := 64
  nfree := 2
  blocks := [(16, 32), (64, 32), (128, 32)]
  writes := []

/-- Both are too small for the request, and what is asked of the system wraps around to 8 bytes. -/
theorem mpAlloc_search_ends_small :
    (mpAllocLoop gapMemalign 16 (2 ^ 64 - 16) 4 smallCache).isSome ∧
      ∃ begins r, Search gapMemalign smallCache 16 (2 ^ 64 - 16) [] [64, 128] begins r ∧
        ∀ fuel, 3 < fuel → mpAllocLoop gapMemalign 16 (2 ^ 64 - 16) fuel smallCache = r := by
  have hplaces : PoolAndCache smallCache 16 [] [64, 128] := by
    have hin : ∀ c ∈ 16 :: ([] ++ [64, 128]), (c, 32) ∈ smallCache.blocks := by decide
    exact ⟨rfl, ⟨rfl, by decide, rfl, by decide, rfl⟩, by decide, fun c hc => ⟨32, hin c hc⟩⟩
  exact ⟨by decide +kernel, mpAlloc_search_ends gapMemalign_unique (by decide) hplaces⟩

/-- No place has more chunks than there are blocks. -/
theorem PoolAndCache.length_lt (h : PoolAndCache m b chain free) :
    (chain ++ free).length < m.blocks.length := by
  have hsubset : b :: (chain ++ free) ⊆ m.blocks.map Prod.fst := fun c hc => by
    obtain ⟨size, hmem⟩ := h.inUse c hc
    exact List.mem_map_of_mem hmem
  have hlen := (List.subperm_of_subset h.nodup hsubset).length_le
  rw [List.length_cons, List.length_map] at hlen
  exact hlen

/-- In every state of a run, `mp_alloc` fails only if `posix_memalign` does. -/
theorem Holds.mpAlloc_eq_none {L : Layout} (hm : Holds m L) (hb : b ∈ L.pools)
    (hcalls : ∀ a, memalign m.blocks (chunkSize nbytes) = some a → NewBlock m.blocks a)
    (hpos : 0 < nbytes) (hn : nbytes < sizeMod) (hnone : mpAlloc memalign m b nbytes = none) :
    memalign m.blocks (chunkSize nbytes) = none := by
  have hplaces := hm.poolAndCache hb
  obtain ⟨begins, r, hsearch⟩ := hplaces.exists_search hcalls hn
  have hlen := hplaces.length_lt
  rw [List.length_append] at hlen
  have hb0 := hm.ne_zero_of_owned (Layout.mem_owned_of_pool hb)
  rw [mpAlloc, if_neg (by omega), hsearch.run_eq (by rw [Heap.fuel]; omega)] at hnone
  cases r with
  | none => exact hsearch.failed rfl
  | some m' => cases hnone

/-- So does `mp_calloc`, where no sum wraps around. -/
theorem Represents.mpCalloc_eq_none {L : Layout} {count size : ℕ} (hm : Represents m L)
    (hb : b ∈ L.pools) (hfresh : memalign.Fresh) (hpos : 0 < count * size)
    (hn : sizeofMemPool + count * size < sizeMod) (hnone : mpCalloc memalign m b count size = none) :
    memalign m.blocks (sizeofMemPool + count * size) = none := by
  have hmod : count * size % sizeMod = count * size := Nat.mod_eq_of_lt (by omega)
  have hchunk : chunkSize (count * size) = sizeofMemPool + count * size := Nat.mod_eq_of_lt hn
  have hcount : count ≠ 0 := fun hzero => by
    rw [hzero, Nat.zero_mul] at hpos
    exact absurd hpos (Nat.lt_irrefl 0)
  rw [mpCalloc, if_neg hcount] at hnone
  simp only [hmod] at hnone
  cases halloc : mpAlloc memalign m b (count * size) with
  | some r => simp [halloc] at hnone
  | none =>
      rw [← hchunk]
      refine hm.holds.mpAlloc_eq_none hb (fun a hcall => ?_) hpos (by omega) halloc
      exact hm.newBlock hfresh (hchunk ▸ hcall)

end Search

end Gfhttpd.Mem
