import Gfhttpd.Lib.Transition
import Gfhttpd.Mem.Spec

/-!
# Pool safety over every run

A run is a sequence of pool operations over any number of pools, which share the cache of
chunks.  `PoolState.live` lists the blocks that were returned and whose pool has not been
emptied or deleted since.  `PoolInv` ties them to the representation invariant: every live
block lies below a mark of its pool.
-/

namespace Gfhttpd.Mem

open Store Transition

/-! ## The machine -/

/-- A block returned to a caller. -/
structure LiveBlock where
  pool : ℕ
  addr : ℕ
  size : ℕ
deriving DecidableEq

/-- Start and length of the block. -/
def LiveBlock.range (B : LiveBlock) : ℕ × ℕ := (B.addr, B.size)

structure PoolState where
  heap : Heap
  pools : List ℕ
  live : List LiveBlock

def PoolState.init : PoolState := ⟨Heap.init, [], []⟩

/-- The calls of `mem.h`.  The allocating ones carry the `posix_memalign` they run with. -/
inductive PoolOp where
  | new (memalign : Memalign) (nbytes : ℕ)
  | alloc (memalign : Memalign) (mp nbytes : ℕ)
  | calloc (memalign : Memalign) (mp count nbytes : ℕ)
  | strndup (memalign : Memalign) (mp : ℕ) (s1 : ℕ → UInt8) (n : ℕ)
  | free (mp : ℕ)
  | delete (mp : ℕ) (clean : Bool)

/-- What is asked of a call: `posix_memalign` returns fresh blocks, and the requested size is
positive and small enough that adding the header size does not wrap. -/
def PoolOp.RequestOk : PoolOp → Prop
  | .new memalign nbytes => memalign.Fresh ∧ 0 < nbytes ∧ sizeofMemPool + nbytes < sizeMod
  | .alloc memalign _ nbytes => memalign.Fresh ∧ 0 < nbytes ∧ sizeofMemPool + nbytes < sizeMod
  | .calloc memalign _ count nbytes =>
      memalign.Fresh ∧ 0 < count * nbytes ∧ sizeofMemPool + count * nbytes < sizeMod
  | .strndup memalign _ _ n => memalign.Fresh ∧ sizeofMemPool + (n + 1) < sizeMod
  | .free _ => True
  | .delete _ _ => True

/-- The store when an operation begins: nothing written yet. -/
def Heap.begin (m : Heap) : Heap := { m with writes := [] }

/-- Record the block an allocating call returned. -/
def PoolState.allocated (s : PoolState) (mp size : ℕ) : Option (ℕ × Heap) → Option PoolState
  | none => none
  | some (ptr, m) => some { s with heap := m, live := ⟨mp, ptr, size⟩ :: s.live }

/-- One call.  It is enabled when its pool exists and no assertion fails. -/
def poolStep (s : PoolState) : PoolOp → Option PoolState
  | .new memalign nbytes =>
      match mpNew memalign s.heap.begin nbytes with
      | none => none
      | some (mp, m) => some { s with heap := m, pools := mp :: s.pools }
  | .alloc memalign mp nbytes =>
      if mp ∈ s.pools then s.allocated mp nbytes (mpAlloc memalign s.heap.begin mp nbytes)
      else none
  | .calloc memalign mp count nbytes =>
      if mp ∈ s.pools then
        s.allocated mp (count * nbytes) (mpCalloc memalign s.heap.begin mp count nbytes)
      else none
  | .strndup memalign mp s1 n =>
      if mp ∈ s.pools then s.allocated mp (n + 1) (mpStrndup memalign s.heap.begin mp s1 n)
      else none
  | .free mp =>
      if mp ∈ s.pools then
        match mpFree s.heap.begin mp with
        | none => none
        | some m => some { s with heap := m, live := s.live.filter fun B => B.pool ≠ mp }
      else none
  | .delete mp clean =>
      if mp ∈ s.pools then
        match mpDelete s.heap.begin mp clean with
        | none => none
        | some m =>
            some { heap := m, pools := s.pools.erase mp,
                   live := s.live.filter fun B => B.pool ≠ mp }
      else none

def poolMachine : Machine PoolState PoolOp := ⟨poolStep⟩

/-! ## Calls that return -/

/-- An allocating call. -/
theorem allocated_eq_some {s s' : PoolState} {mp size : ℕ} {call : Option (ℕ × Heap)}
    (h : (if mp ∈ s.pools then s.allocated mp size call else none) = some s') :
    mp ∈ s.pools ∧ ∃ ptr m, call = some (ptr, m) ∧
      s' = { s with heap := m, live := ⟨mp, ptr, size⟩ :: s.live } := by
  simp only [Option.ite_none_right_eq_some] at h
  obtain ⟨hmp, h⟩ := h
  cases call with
  | none => cases h
  | some r => exact ⟨hmp, r.1, r.2, rfl, (Option.some.inj h).symm⟩

theorem poolStep_new {s s' : PoolState} {memalign : Memalign} {nbytes : ℕ}
    (h : poolStep s (.new memalign nbytes) = some s') :
    ∃ mp m, mpNew memalign s.heap.begin nbytes = some (mp, m) ∧
      s' = { s with heap := m, pools := mp :: s.pools } := by
  simp only [poolStep] at h
  cases hcall : mpNew memalign s.heap.begin nbytes with
  | none => simp [hcall] at h
  | some r =>
      simp only [hcall, Option.some.injEq] at h
      exact ⟨r.1, r.2, rfl, h.symm⟩

theorem poolStep_free {s s' : PoolState} {mp : ℕ} (h : poolStep s (.free mp) = some s') :
    mp ∈ s.pools ∧ ∃ m, mpFree s.heap.begin mp = some m ∧
      s' = { s with heap := m, live := s.live.filter fun B => B.pool ≠ mp } := by
  by_cases hmp : mp ∈ s.pools
  · rw [poolStep, if_pos hmp] at h
    cases hcall : mpFree s.heap.begin mp with
    | none => simp [hcall] at h
    | some m =>
        simp only [hcall, Option.some.injEq] at h
        exact ⟨hmp, m, rfl, h.symm⟩
  · simp [poolStep, hmp] at h

/-- The store that `mp_delete` calls `mp_free` with. -/
def Heap.cleaned (m : Heap) (clean : Bool) : Heap :=
  if clean then { m with nfree := THRESHOLD } else m

/-- Only `nfree` is another. -/
theorem Heap.cleaned_eq (m : Heap) (clean : Bool) : (m.cleaned clean).hdr = m.hdr ∧
    (m.cleaned clean).freechunks = m.freechunks ∧ (m.cleaned clean).blocks = m.blocks ∧
    (m.cleaned clean).writes = m.writes := by
  cases clean with
  | true => exact ⟨rfl, rfl, rfl, rfl⟩
  | false => exact ⟨rfl, rfl, rfl, rfl⟩

theorem poolStep_delete {s s' : PoolState} {mp : ℕ} {clean : Bool}
    (h : poolStep s (.delete mp clean) = some s') :
    mp ∈ s.pools ∧ ∃ m, mpFree (s.heap.begin.cleaned clean) mp = some m ∧
      s' = { heap := m.release mp, pools := s.pools.erase mp,
             live := s.live.filter fun B => B.pool ≠ mp } := by
  by_cases hmp : mp ∈ s.pools
  · rw [poolStep, if_pos hmp] at h
    cases hcall : mpFree (s.heap.begin.cleaned clean) mp with
    | none =>
        rw [Heap.cleaned] at hcall
        simp [mpDelete, hcall] at h
    | some m =>
        rw [Heap.cleaned] at hcall
        simp only [mpDelete, hcall, Option.some.injEq] at h
        exact ⟨hmp, m, rfl, h.symm⟩
  · simp [poolStep, hmp] at h

/-! ## The invariant -/

/-- The live block `B` lies in a chunk of its pool, between the header and the mark. -/
def LiveAt (m : Heap) (L : Layout) (B : LiveBlock) : Prop :=
  B.pool ∈ L.pools ∧ ∃ p ∈ marks m B.pool B.pool (L.chain B.pool),
    p.1 + sizeofMemPool ≤ B.addr ∧ B.addr + B.size ≤ p.2

/-- The invariant of the run, for a given layout. -/
structure PoolInvAt (s : PoolState) (L : Layout) : Prop where
  represents : Represents s.heap L
  loose : L.loose = []
  pools : L.pools = s.pools
  live : ∀ B ∈ s.live, LiveAt s.heap L B
  apart : s.live.Pairwise fun A B => Apart A.range B.range

def PoolInv (s : PoolState) : Prop := ∃ L, PoolInvAt s L

/-- Changing the payload, the write log or the cache counter changes no layout. -/
theorem Represents.of_same {m m' : Heap} {L : Layout} (hm : Represents m L)
    (hhdr : m'.hdr = m.hdr) (hfree : m'.freechunks = m.freechunks)
    (hblocks : m'.blocks = m.blocks) : Represents m' L := by
  refine (hm.holds.of_same hhdr hfree hblocks).represents (hblocks ▸ hm.apart) (hblocks ▸ hm.block)
    fun b hb => (hm.stack b hb).congr (by rw [hhdr]) (fun _ _ => by rw [hhdr]) ?_
  rintro c e - ⟨size, hmem, he⟩
  exact ⟨size, hblocks ▸ hmem, he⟩

theorem marks_of_same {m m' : Heap} (hhdr : m'.hdr = m.hdr) (b h : ℕ) (cs : List ℕ) :
    marks m' b h cs = marks m b h cs :=
  marks_congr (by rw [hhdr]) fun _ _ => by rw [hhdr]

theorem LiveAt.of_same {m m' : Heap} {L : Layout} {B : LiveBlock} (hB : LiveAt m L B)
    (hhdr : m'.hdr = m.hdr) : LiveAt m' L B := by
  obtain ⟨hpool, p, hp, hb⟩ := hB
  exact ⟨hpool, p, by rw [marks_of_same hhdr]; exact hp, hb⟩

theorem LiveAt.of_grows {m m' : Heap} {L L' : Layout} {B : LiveBlock} (hB : LiveAt m L B)
    (hgrow : Grows m L m' L') : LiveAt m' L' B := by
  obtain ⟨hpool, p, hp, hlo, hhi⟩ := hB
  obtain ⟨q, hq, hq₁, hq₂⟩ := hgrow.marks B.pool hpool p hp
  exact ⟨by rw [hgrow.pools]; exact hpool, q, hq, by omega, by omega⟩

/-- A live block lies inside the payload of one block. -/
theorem LiveAt.inside {m : Heap} {L : Layout} {B : LiveBlock} (hm : Represents m L)
    (hB : LiveAt m L B) : ∃ c size, (c = B.pool ∨ c ∈ L.chain B.pool) ∧ (c, size) ∈ m.blocks ∧
      Inside B.range (c + sizeofMemPool, size - sizeofMemPool) := by
  obtain ⟨hpool, p, hp, hlo, hhi⟩ := hB
  obtain ⟨size, hmem, hple, hpe⟩ := (hm.stack B.pool hpool).mark_bounds hp
  refine ⟨p.1, size, fst_mem_of_mem_marks hp, hmem, ?_⟩
  have := (hm.block _ hmem).2.1
  simp only [Inside, LiveBlock.range] at *
  omega

/-- A live block is apart from every chunk header. -/
theorem LiveAt.apart_header {m : Heap} {L : Layout} {B : LiveBlock} (hm : Represents m L)
    (hB : LiveAt m L B) {x : ℕ × ℕ} (hx : x ∈ m.blocks) :
    Apart B.range (x.1, sizeofMemPool) := by
  obtain ⟨c, size, -, hmem, hin⟩ := hB.inside hm
  have hsize := (hm.block _ hmem).2.1
  have hxsize := (hm.block _ hx).2.1
  rcases hm.block_eq_or_apart hx hmem with rfl | ⟨-, hapart⟩
  · simp only [Apart, Inside, LiveBlock.range] at *
    omega
  · refine hapart.symm.mono ?_ ?_ <;> simp only [Inside, LiveBlock.range] at * <;> omega

theorem LiveAt.apart_headerWrite {m : Heap} {L : Layout} {B : LiveBlock} (hm : Represents m L)
    (hB : LiveAt m L B) {w : ℕ × ℕ} (hw : HeaderWrite m w) : Apart B.range w := by
  obtain ⟨hlen, size, hmem⟩ := hw
  have hapart := hB.apart_header hm hmem
  rwa [← hlen] at hapart

/-! ## Allocating calls -/

/-- A call that returns `ptr` as a block of `size` bytes: an `mp_alloc` of that size,
followed by stores into the new block only. -/
def Allocates (memalign : Memalign) (m : Heap) (mp size ptr : ℕ) (m' : Heap) : Prop :=
  ∃ m₁, mpAlloc memalign m mp size = some (ptr, m₁) ∧ m'.hdr = m₁.hdr ∧
    m'.freechunks = m₁.freechunks ∧ m'.blocks = m₁.blocks ∧
    ∃ ws, m'.writes = m₁.writes ++ ws ∧ ∀ w ∈ ws, Inside w (ptr, size)

theorem mpAlloc_allocates {memalign : Memalign} {m m' : Heap} {mp nbytes ptr : ℕ}
    (h : mpAlloc memalign m mp nbytes = some (ptr, m')) :
    Allocates memalign m mp nbytes ptr m' :=
  ⟨m', h, rfl, rfl, rfl, [], by simp, by simp⟩

theorem mpCalloc_allocates {memalign : Memalign} {m m' : Heap} {mp count nbytes ptr : ℕ}
    (hn : count * nbytes < sizeMod) (h : mpCalloc memalign m mp count nbytes = some (ptr, m')) :
    Allocates memalign m mp (count * nbytes) ptr m' := by
  obtain ⟨m₁, halloc, rfl⟩ := mpCalloc_eq_some h
  rw [Nat.mod_eq_of_lt hn] at halloc ⊢
  refine ⟨m₁, halloc, rfl, rfl, rfl, [(ptr, count * nbytes)], rfl, ?_⟩
  intro w hw
  obtain rfl := List.mem_singleton.mp hw
  exact ⟨Nat.le_refl _, Nat.le_refl _⟩

theorem mpAlloc_ptr_lt {memalign : Memalign} {m m' : Heap} {L : Layout} {b nbytes ptr : ℕ}
    (hm : Represents m L) (hb : b ∈ L.pools) (hfresh : memalign.Fresh)
    (hn : sizeofMemPool + nbytes < sizeMod) (h : mpAlloc memalign m b nbytes = some (ptr, m')) :
    ptr + nbytes < sizeMod := by
  obtain ⟨L', hm', hgrow, ⟨p, hp, hlo, hhi⟩, -⟩ := mpAlloc_spec hm hb hfresh hn h
  have hb' : b ∈ L'.pools := by rw [hgrow.pools]; exact hb
  obtain ⟨size, hmem, -, hpe⟩ := (hm'.stack b hb').mark_bounds hp
  have := (hm'.block _ hmem).2.2
  simp only at this
  omega

theorem mpStrndup_allocates {memalign : Memalign} {m m' : Heap} {L : Layout} {mp n ptr : ℕ}
    {s1 : ℕ → UInt8} (hm : Represents m L) (hb : mp ∈ L.pools) (hfresh : memalign.Fresh)
    (hn : sizeofMemPool + (n + 1) < sizeMod)
    (h : mpStrndup memalign m mp s1 n = some (ptr, m')) :
    Allocates memalign m mp (n + 1) ptr m' := by
  have hlt : n + 1 < sizeMod := by omega
  obtain ⟨m₁, hcall, rfl⟩ := mpStrndup_eq_some h
  rw [Nat.mod_eq_of_lt hlt] at hcall
  obtain ⟨m₂, halloc, hhdr, hfree, hblocks, ws, hws, hin⟩ := mpCalloc_allocates (by omega) hcall
  rw [Nat.mul_one] at halloc hin
  have hptr := mpAlloc_ptr_lt hm hb hfresh hn halloc
  have hadd : ptrAdd ptr n = ptr + n := ptrAdd_of_lt (by omega)
  refine ⟨m₂, halloc, hhdr, hfree, hblocks, ws ++ [(ptr, n), (ptr + n, 1)], ?_, ?_⟩
  · simp [Heap.poke, Heap.memcpy, hws, hadd]
  · intro w hw
    simp only [List.mem_append, List.mem_cons, List.not_mem_nil, or_false] at hw
    rcases hw with hw | rfl | rfl
    · exact hin w hw
    · simp only [Inside]; omega
    · simp only [Inside]; omega

/-- What an allocating call does to the invariant and to the blocks that were live. -/
theorem allocates_step {memalign : Memalign} {s : PoolState} {L : Layout} {mp size ptr : ℕ}
    {m' : Heap} (hinv : PoolInvAt s L) (hmp : mp ∈ s.pools) (hfresh : memalign.Fresh)
    (hn : sizeofMemPool + size < sizeMod)
    (h : Allocates memalign s.heap.begin mp size ptr m') :
    PoolInv { s with heap := m', live := ⟨mp, ptr, size⟩ :: s.live } ∧
      ∀ B ∈ s.live, ∀ w ∈ m'.writes, Apart B.range w := by
  obtain ⟨m₁, halloc, hhdr, hfree, hblocks, ws, hws, hin⟩ := h
  have hbegin : Represents s.heap.begin L := hinv.represents.of_same rfl rfl rfl
  have hmpL : mp ∈ L.pools := by rw [hinv.pools]; exact hmp
  obtain ⟨L', hm₁, hgrow, ⟨p, hp, hplo, hphi⟩, hapart⟩ :=
    mpAlloc_spec hbegin hmpL hfresh hn halloc
  have hm' : Represents m' L' := hm₁.of_same hhdr hfree hblocks
  have hliveBegin : ∀ B ∈ s.live, LiveAt s.heap.begin L B := fun B hB =>
    (hinv.live B hB).of_same rfl
  have hlive₁ : ∀ B ∈ s.live, LiveAt m₁ L' B := fun B hB => (hliveBegin B hB).of_grows hgrow
  -- the new block is apart from every block that was live
  have hnew : ∀ B ∈ s.live, Apart B.range (ptr, size) := by
    intro B hB
    obtain ⟨hpool, q, hq, hqlo, hqhi⟩ := hliveBegin B hB
    refine (hapart B.pool hpool q hq).mono ?_ ⟨Nat.le_refl _, Nat.le_refl _⟩
    simp only [Inside, LiveBlock.range]
    omega
  refine ⟨⟨L', hm', hgrow.loose.trans hinv.loose, hgrow.pools.trans hinv.pools, ?_, ?_⟩, ?_⟩
  · intro B hB
    refine LiveAt.of_same (m := m₁) ?_ hhdr
    rcases List.mem_cons.mp hB with rfl | hB
    · exact ⟨by rw [hgrow.pools]; exact hmpL, p, hp, hplo, hphi⟩
    · exact hlive₁ B hB
  · exact List.pairwise_cons.mpr ⟨fun B hB => (hnew B hB).symm, hinv.apart⟩
  · intro B hB w hw
    obtain ⟨hs, hhs, hhdrs⟩ := hgrow.writes
    rw [hws, hhs] at hw
    simp only [Heap.begin, List.nil_append, List.mem_append] at hw
    rcases hw with hw | hw
    · exact (hlive₁ B hB).apart_headerWrite hm₁ (hhdrs w hw)
    · exact (hnew B hB).mono ⟨Nat.le_refl _, Nat.le_refl _⟩ (hin w hw)

/-! ## The other calls -/

theorem new_step {memalign : Memalign} {s : PoolState} {L : Layout} {nbytes mp : ℕ} {m' : Heap}
    (hinv : PoolInvAt s L) (hfresh : memalign.Fresh) (hn : sizeofMemPool + nbytes < sizeMod)
    (h : mpNew memalign s.heap.begin nbytes = some (mp, m')) :
    PoolInv { s with heap := m', pools := mp :: s.pools } ∧
      ∀ B ∈ s.live, ∀ w ∈ m'.writes, Apart B.range w := by
  have hbegin : Represents s.heap.begin L := hinv.represents.of_same rfl rfl rfl
  obtain ⟨hnot, hm', hmarks, -, ws, hws, hhdrs⟩ := mpNew_spec hbegin hfresh hn h
  have hlive : ∀ B ∈ s.live,
      LiveAt m' ({ L with pools := mp :: L.pools }.setChain mp []) B := by
    intro B hB
    have hsame : LiveAt s.heap.begin L B := (hinv.live B hB).of_same rfl
    obtain ⟨hpool, q, hq, hb⟩ := hsame
    have hne : B.pool ≠ mp := fun heq => hnot (heq ▸ hpool)
    refine ⟨List.mem_cons_of_mem _ hpool, q, ?_, hb⟩
    rw [Layout.chain_setChain_of_ne _ hne, hmarks B.pool hpool]
    exact hq
  refine ⟨⟨_, hm', hinv.loose, ?_, hlive, hinv.apart⟩, ?_⟩
  · rw [Layout.setChain_pools, hinv.pools]
  · intro B hB w hw
    rw [hws] at hw
    simp only [Heap.begin, List.nil_append] at hw
    exact (hlive B hB).apart_headerWrite hm' (hhdrs w hw)

theorem LiveAt.of_empties {m m' : Heap} {L L' : Layout} {b : ℕ} {B : LiveBlock}
    (hB : LiveAt m L B) (hne : B.pool ≠ b) (hemp : Empties m L b m' L') : LiveAt m' L' B := by
  obtain ⟨hpool, p, hp, hb⟩ := hB
  refine ⟨by rw [hemp.pools]; exact hpool, p, ?_, hb⟩
  rw [hemp.chain B.pool hpool hne, hemp.marks B.pool hpool hne]
  exact hp

/-- What emptying the pool `b` does to the invariant and to the blocks that were live. -/
theorem empties_step {s : PoolState} {L L' : Layout} {b : ℕ} {m m' : Heap}
    (hinv : PoolInvAt s L) (hm : Represents m L) (hhdr : m.hdr = s.heap.hdr) (hw : m.writes = [])
    (hm' : Represents m' L') (hemp : Empties m L b m' L') :
    PoolInvAt { s with heap := m', live := s.live.filter fun B => B.pool ≠ b } L' ∧
      ∀ B ∈ s.live, ∀ w ∈ m'.writes, Apart B.range w := by
  have hlive : ∀ B ∈ s.live, LiveAt m L B := fun B hB => (hinv.live B hB).of_same hhdr
  refine ⟨⟨hm', hemp.loose.trans hinv.loose, hemp.pools.trans hinv.pools, ?_, ?_⟩, ?_⟩
  · intro B hB
    obtain ⟨hB, hne⟩ := List.mem_filter.mp hB
    exact (hlive B hB).of_empties (by simpa using hne) hemp
  · exact hinv.apart.sublist List.filter_sublist
  · intro B hB w hmem
    obtain ⟨ws, hws, hhdrs⟩ := hemp.writes
    rw [hws, hw, List.nil_append] at hmem
    exact (hlive B hB).apart_headerWrite hm (hhdrs w hmem)

/-- Taking an emptied pool off the list of pools. -/
theorem PoolInvAt.releaseBase {s : PoolState} {L : Layout} {b : ℕ} (hinv : PoolInvAt s L)
    (hb : b ∈ s.pools) (hchain : L.chain b = []) (hlive : ∀ B ∈ s.live, B.pool ≠ b) :
    PoolInvAt { s with heap := s.heap.release b, pools := s.pools.erase b }
      { L with pools := L.pools.erase b } := by
  have hbL : b ∈ L.pools := by rw [hinv.pools]; exact hb
  refine ⟨releaseBase_spec hinv.represents hbL hchain, hinv.loose, ?_, ?_, hinv.apart⟩
  · simp only [hinv.pools]
  · intro B hB
    obtain ⟨hpool, p, hp, hbd⟩ := hinv.live B hB
    refine ⟨(List.mem_erase_of_ne (hlive B hB)).mpr hpool, p, ?_, hbd⟩
    have hmarks : marks (s.heap.release b) B.pool B.pool (L.chain B.pool) =
        marks s.heap B.pool B.pool (L.chain B.pool) :=
      marks_of_same (show (s.heap.release b).hdr = s.heap.hdr from rfl) _ _ _
    rw [hmarks]
    exact hp

/-! ## Every step -/

/-- A call keeps the invariant, and stores nothing into a block that was live. -/
theorem poolStep_spec {s s' : PoolState} {e : PoolOp} (hinv : PoolInv s) (hok : e.RequestOk)
    (h : poolStep s e = some s') :
    PoolInv s' ∧ ∀ B ∈ s.live, ∀ w ∈ s'.heap.writes, Apart B.range w := by
  obtain ⟨L, hinv⟩ := hinv
  have hbegin : Represents s.heap.begin L := hinv.represents.of_same rfl rfl rfl
  cases e with
  | new memalign nbytes =>
      obtain ⟨hfresh, -, hn⟩ := hok
      obtain ⟨mp, m, hcall, rfl⟩ := poolStep_new h
      exact new_step hinv hfresh hn hcall
  | alloc memalign mp nbytes =>
      obtain ⟨hfresh, -, hn⟩ := hok
      obtain ⟨hmp, ptr, m, hcall, rfl⟩ := allocated_eq_some h
      exact allocates_step hinv hmp hfresh hn (mpAlloc_allocates hcall)
  | calloc memalign mp count nbytes =>
      obtain ⟨hfresh, -, hn⟩ := hok
      obtain ⟨hmp, ptr, m, hcall, rfl⟩ := allocated_eq_some h
      exact allocates_step hinv hmp hfresh hn (mpCalloc_allocates (by omega) hcall)
  | strndup memalign mp s1 n =>
      obtain ⟨hfresh, hn⟩ := hok
      obtain ⟨hmp, ptr, m, hcall, rfl⟩ := allocated_eq_some h
      exact allocates_step hinv hmp hfresh hn
        (mpStrndup_allocates hbegin (hinv.pools.symm ▸ hmp) hfresh hn hcall)
  | free mp =>
      obtain ⟨hmp, m, hcall, rfl⟩ := poolStep_free h
      obtain ⟨L', hm', hemp, -⟩ := mpFree_spec hbegin (hinv.pools.symm ▸ hmp) hcall
      obtain ⟨hinv', hwrites⟩ := empties_step hinv hbegin rfl rfl hm' hemp
      exact ⟨⟨L', hinv'⟩, hwrites⟩
  | delete mp clean =>
      obtain ⟨hmp, m, hcall, rfl⟩ := poolStep_delete h
      -- with `clean` the cache counts as full, so `mp_free` gives every chunk back
      obtain ⟨hhdr, hfree, hblocks, hwrites₀⟩ := s.heap.begin.cleaned_eq clean
      have hcleaned := hbegin.of_same hhdr hfree hblocks
      obtain ⟨L', hm', hemp, hnil⟩ := mpFree_spec hcleaned (hinv.pools.symm ▸ hmp) hcall
      obtain ⟨hinv', hwrites⟩ := empties_step hinv hcleaned hhdr hwrites₀ hm' hemp
      -- the live blocks of the pool went with it, so its base can be given back
      refine ⟨⟨_, hinv'.releaseBase hmp hnil ?_⟩, hwrites⟩
      intro B hB
      simpa using (List.mem_filter.mp hB).2

/-! ## Safety -/

/-- The pool with base `mp` has the chunk `c`: its base, or a chunk found by following `prev`
from the base. -/
def OwnsChunk (m : Heap) (mp c : ℕ) : Prop :=
  c = mp ∨ ∃ l, Path (fun a => (m.hdr a).prev) 0 (m.hdr mp).prev l ∧ c ∈ l

/-- What a caller relies on, said without layouts: every live block lies inside the payload
of a chunk its pool has, and is apart from the other live blocks and from every header. -/
structure PoolSafe (s : PoolState) : Prop where
  inside : ∀ B ∈ s.live, B.pool ∈ s.pools ∧ ∃ c size, OwnsChunk s.heap B.pool c ∧
    (c, size) ∈ s.heap.blocks ∧ Inside B.range (c + sizeofMemPool, size - sizeofMemPool)
  apart : s.live.Pairwise fun A B => Apart A.range B.range
  header : ∀ B ∈ s.live, ∀ x ∈ s.heap.blocks, Apart B.range (x.1, sizeofMemPool)

theorem PoolInv.safe {s : PoolState} (hinv : PoolInv s) : PoolSafe s := by
  obtain ⟨L, hinv⟩ := hinv
  refine ⟨?_, hinv.apart, fun B hB x hx => (hinv.live B hB).apart_header hinv.represents hx⟩
  intro B hB
  obtain ⟨c, size, hc, hmem, hin⟩ := (hinv.live B hB).inside hinv.represents
  have hpool := (hinv.live B hB).1
  refine ⟨by rw [← hinv.pools]; exact hpool, c, size, ?_, hmem, hin⟩
  exact hc.imp_right fun hc => ⟨_, (hinv.represents.stack _ hpool).saved.path, hc⟩

theorem PoolInv.init : PoolInv PoolState.init :=
  ⟨Layout.init, Represents.init, rfl, rfl, by simp [PoolState.init], List.Pairwise.nil⟩

/-- Pool safety over every run of calls, and of one more call after it. -/
theorem pool_safety {es : List PoolOp} {s : PoolState} (hok : ∀ e ∈ es, e.RequestOk)
    (hexec : poolMachine.exec PoolState.init es = some s) :
    PoolSafe s ∧ ∀ e s', e.RequestOk → poolStep s e = some s' →
      ∀ B ∈ s.live, ∀ w ∈ s'.heap.writes, Apart B.range w := by
  have hinv : PoolInv s := by
    refine poolMachine.exec_invariant_of_meets (C := fun _ e => e.RequestOk) (I := PoolInv) ?_
      PoolInv.init (poolMachine.meets_of_forall hok) hexec
    intro s e s' hinv hC hstep
    exact (poolStep_spec hinv hC hstep).1
  exact ⟨hinv.safe, fun e s' hok hstep => (poolStep_spec hinv hok hstep).2⟩

/-- The first aligned address behind all blocks. -/
def bumpAddr (blocks : List (ℕ × ℕ)) : ℕ :=
  (blocks.foldr (fun b t => max (b.1 + b.2) t) ALIGNMENT + (ALIGNMENT - 1)) / ALIGNMENT * ALIGNMENT

/-- A `posix_memalign` that always takes `bumpAddr`. -/
def bumpMemalign : Memalign := fun blocks size =>
  if bumpAddr blocks + size < sizeMod then some (bumpAddr blocks) else none

theorem bumpAddr_spec (blocks : List (ℕ × ℕ)) : 0 < bumpAddr blocks ∧
    bumpAddr blocks % ALIGNMENT = 0 ∧ ∀ b ∈ blocks, b.1 + b.2 ≤ bumpAddr blocks := by
  have hle : ∀ bs : List (ℕ × ℕ),
      16 ≤ bs.foldr (fun b t => max (b.1 + b.2) t) 16 ∧
        ∀ b ∈ bs, b.1 + b.2 ≤ bs.foldr (fun b t => max (b.1 + b.2) t) 16 := by
    intro bs
    induction bs with
    | nil => simp
    | cons b bs ih =>
        simp only [List.foldr_cons, List.mem_cons, forall_eq_or_imp]
        refine ⟨by omega, by omega, fun c hc => ?_⟩
        have := ih.2 c hc
        omega
  obtain ⟨hlo, hall⟩ := hle blocks
  simp only [bumpAddr, ALIGNMENT]
  refine ⟨by omega, by omega, fun b hb => ?_⟩
  have := hall b hb
  omega

theorem bumpMemalign_fresh : bumpMemalign.Fresh := by
  intro blocks size a h
  simp only [bumpMemalign, Option.ite_none_right_eq_some, Option.some.injEq] at h
  obtain ⟨hlt, rfl⟩ := h
  obtain ⟨hpos, haligned, hall⟩ := bumpAddr_spec blocks
  exact ⟨hpos, haligned, hlt, fun b hb => Or.inr (hall b hb)⟩

/-- Two pools: a chunk too small for the next request is reused from the cache, and the pool
that stays keeps its block. -/
def demoRun : List PoolOp :=
  [.new bumpMemalign 64, .new bumpMemalign 64, .alloc bumpMemalign 16 100,
    .strndup bumpMemalign 112 (fun _ => 97) 30, .free 16, .calloc bumpMemalign 112 2 100,
    .delete 16 false, .alloc bumpMemalign 112 8]

theorem pool_safety_demo : ∃ s, poolMachine.exec PoolState.init demoRun = some s ∧
    s.live.map LiveBlock.range = [(584, 8), (360, 200), (136, 31)] ∧ PoolSafe s := by
  have hok : ∀ e ∈ demoRun, e.RequestOk := by
    simp [demoRun, PoolOp.RequestOk, bumpMemalign_fresh, sizeofMemPool, sizeMod]
  have hrun : (poolMachine.exec PoolState.init demoRun).map
      (fun s => s.live.map LiveBlock.range) = some [(584, 8), (360, 200), (136, 31)] := by
    decide +kernel
  obtain ⟨s, hexec, hlive⟩ := Option.map_eq_some_iff.mp hrun
  exact ⟨s, hexec, hlive, (pool_safety hok hexec).1⟩

end Gfhttpd.Mem
