import Gfhttpd.Mem.Ownership

/-!
# What a request returns

A request is answered with the first byte behind what the current chunk has handed out, or with the
first byte behind the header of another chunk.  No request is rounded up, and the sums of sizes wrap
around.

- `Aligned`, `aligned_iff`: the runs in which structures are stored at multiples of 8
- `Provides`, `provides_iff`: the runs in which every block has the size that was asked for
-/

namespace Gfhttpd.Mem

open Transition

/-! ## The current chunk -/

/-- The chunk that the pool takes requests from, or its base. -/
def currentChunk (m : Heap) (mp : ℕ) : ℕ :=
  if (m.hdr mp).prev = 0 then mp else (m.hdr mp).prev

theorem Saved.currentChunk_eq {m : Heap} {b : ℕ} {cs : List ℕ} (hs : Saved m b b cs) :
    currentChunk m b = topChunk b cs := by
  cases cs with
  | nil => rw [currentChunk, if_pos hs.1, topChunk]
  | cons c cs =>
      obtain ⟨hprev, hne, -⟩ := hs
      rw [currentChunk, hprev, if_neg hne, topChunk]

theorem Saved.blockEnd_top {m : Heap} {b h : ℕ} {cs : List ℕ} (hs : Saved m b h cs) :
    BlockEnd m (topChunk b cs) (m.hdr h).limit := by
  cases cs with
  | nil => exact hs.2
  | cons c cs => exact hs.2.2.1

/-- The current chunk is a block of `posix_memalign`. -/
theorem PlacesAt.currentChunk_placed {s : PoolState} {L : Layout} {mp : ℕ} (h : PlacesAt s L)
    (hmp : mp ∈ s.pools) : ∃ size, Placed (currentChunk s.heap mp, size) := by
  have hsaved := h.holds.saved mp (h.pools.symm ▸ hmp)
  obtain ⟨size, hmem, -⟩ := hsaved.blockEnd_top
  rw [hsaved.currentChunk_eq]
  exact ⟨size, h.placed _ hmem⟩

/-- The first structure in a new pool is behind the header of the base. -/
theorem first_calloc {s s' : PoolState} {memalign : Memalign} {nbytes mp size ptr : ℕ}
    (hunique : memalign.Unique) (hlt : sizeofMemPool + nbytes < sizeMod) (hle : size ≤ nbytes)
    (hnew : poolStep s (.new memalign nbytes) = some s') (hmp : s'.pools.head? = some mp)
    (hreturned : s'.returned (.calloc memalign mp 1 size) = some ptr) :
    ptr = mp + sizeofMemPool ∧ mp + sizeofMemPool + nbytes < sizeMod := by
  obtain ⟨mp', m, hcall, rfl⟩ := poolStep_new hnew
  obtain rfl : mp' = mp := Option.some.inj hmp
  obtain ⟨hblock, rfl⟩ := mpNew_eq_some hcall
  obtain ⟨-, -, hend, -⟩ := hunique _ _ _ hblock
  rw [Nat.mod_eq_of_lt hlt] at hend
  rw [Nat.mod_eq_of_lt hlt, PoolState.returned] at hreturned
  obtain ⟨⟨ptr', m'⟩, hcalloc, rfl⟩ := Option.map_eq_some_iff.mp hreturned
  obtain ⟨m₁, halloc, -⟩ := mpCalloc_fills hcalloc
  rw [Nat.one_mul, Nat.mod_eq_of_lt (by omega)] at halloc
  -- the structure fits into the base block, of which nothing is used
  have hfits := mpAlloc_current ?_ halloc
  · refine ⟨hfits.trans ?_, by omega⟩
    simp only [Heap.begin, Heap.store, Function.update_self, ptrAdd, ptrDiff, sizeofMemPool,
      sizeMod] at *
    omega
  · simp only [mpHasLeft, Heap.begin, Heap.store, Function.update_self, ptrAdd, ptrDiff,
      sizeofMemPool, sizeMod] at *
    omega

/-! ## Alignment -/

/-- A call, and whether the caller stores a structure with pointers in what it returns. -/
structure Call where
  op : PoolOp
  forStruct : Bool

def callMachine : Machine PoolState Call := ⟨fun s c => poolStep s c.op⟩

/-- The bytes handed out from the current chunk of the pool. -/
def mpUsed (m : Heap) (mp : ℕ) : ℕ :=
  ptrDiff (m.hdr mp).avail (ptrAdd (currentChunk m mp) sizeofMemPool)

/-- An address that is returned for a structure is a multiple of 8. -/
def Aligned (s : PoolState) (c : Call) : Prop :=
  c.forStruct = true → ∀ ptr ∈ s.returned c.op, ptr % 8 = 0

instance (s : PoolState) (c : Call) : Decidable (Aligned s c) :=
  inferInstanceAs (Decidable (_ → _))

/-- A structure that fits into the current chunk finds a multiple of 8 bytes handed out from it. -/
def UsedAligned (s : PoolState) (c : Call) : Prop :=
  c.forStruct = true →
    match c.op.request with
    | none => True
    | some (_, mp, size) => size ≤ mpHasLeft s.heap mp → mpUsed s.heap mp % 8 = 0

instance (s : PoolState) (c : Call) : Decidable (UsedAligned s c) := by
  unfold UsedAligned
  split <;> infer_instance

theorem mpUsed_mod {m : Heap} {mp size : ℕ} (hplaced : Placed (currentChunk m mp, size)) :
    mpUsed m mp % 8 = (m.hdr mp).avail % 8 := by
  obtain ⟨haligned, -⟩ := hplaced
  simp only [mpUsed, ptrAdd, ptrDiff, sizeofMemPool, sizeMod, ALIGNMENT] at *
  omega

/-- `mp->avail += n; return mp->avail - n` is where `avail` was. -/
theorem ptrDiff_ptrAdd_mod {p n : ℕ} (hn : n < sizeMod) :
    ptrDiff (ptrAdd p n) n % 8 = p % 8 := by
  simp only [ptrAdd, ptrDiff, sizeMod] at *
  omega

/-- What a request returns is a multiple of 8 if the request does not fit, and otherwise exactly if
what is handed out already is. -/
theorem request_aligned {s s' : PoolState} {L : Layout} {e : PoolOp} {memalign : Memalign}
    {mp size : ℕ} (h : PlacesAt s L) (hunique : e.Unique)
    (hrequest : e.request = some (memalign, mp, size)) (hstep : poolStep s e = some s') :
    ∃ ptr, s.returned e = some ptr ∧
      (ptr % 8 = 0 ↔ (size ≤ mpHasLeft s.heap mp → mpUsed s.heap mp % 8 = 0)) := by
  obtain ⟨hmp, hpools, -⟩ := poolStep_request hrequest hstep
  obtain ⟨L', ptr, h', hreturned, -, hlt, hcurrent, hnext, -⟩ :=
    request_places h hunique hrequest hstep
  refine ⟨ptr, hreturned, ?_⟩
  obtain ⟨bsize, hplaced⟩ := h.currentChunk_placed hmp
  rcases Nat.lt_or_ge (mpHasLeft s.heap mp) size with hno | hfits
  · -- the first byte behind the header of a chunk
    refine iff_of_true ?_ fun hfits => absurd hno (Nat.not_lt.mpr hfits)
    obtain ⟨hne, rfl⟩ := hnext hno
    obtain ⟨bsize', haligned, -⟩ := h'.places.currentChunk_placed (hpools.symm ▸ hmp)
    have hsaved := h'.places.holds.saved mp (h'.places.pools.symm ▸ hpools.symm ▸ hmp)
    have hprev : currentChunk s'.heap mp = (s'.heap.hdr mp).prev := by
      obtain ⟨c, cs, hcons⟩ := List.exists_cons_of_ne_nil hne
      rw [hcons] at hsaved
      rw [hsaved.currentChunk_eq, topChunk, hsaved.1]
    rw [hprev] at haligned
    rw [ptrDiff_ptrAdd_mod hlt]
    simp only [ptrAdd, sizeofMemPool, sizeMod, ALIGNMENT] at *
    omega
  · -- where `avail` is, behind an aligned block and a header of three words
    obtain ⟨-, -, rfl⟩ := hcurrent hfits
    rw [ptrDiff_ptrAdd_mod hlt, mpUsed_mod hplaced]
    exact ⟨fun haligned _ => haligned, fun haligned => haligned hfits⟩

theorem PoolState.returned_eq_none {s : PoolState} {e : PoolOp} (h : e.request = none) :
    s.returned e = none := by
  cases e with
  | alloc _ _ _ | calloc _ _ _ _ | strndup _ _ _ _ => cases h
  | new _ _ | free _ | delete _ _ => rfl

theorem poolStep_aligned {s s' : PoolState} {c : Call} (h : PlacesInv s) (hunique : c.op.Unique)
    (hstep : poolStep s c.op = some s') : Aligned s c ↔ UsedAligned s c := by
  obtain ⟨L, h⟩ := h
  unfold Aligned UsedAligned
  refine imp_congr_right fun _ => ?_
  cases hrequest : c.op.request with
  | none =>
      rw [PoolState.returned_eq_none hrequest]
      exact iff_of_true (by simp) trivial
  | some r =>
      obtain ⟨memalign, mp, size⟩ := r
      obtain ⟨ptr, hreturned, hiff⟩ := request_aligned h hunique hrequest hstep
      simp only [hreturned, Option.mem_some, forall_eq', hiff]

/-- **In every run of requests of any sizes, over any number of pools, all structures are stored at
multiples of 8 exactly if each of them that fits into the current chunk comes when the bytes handed
out from that chunk are a multiple of 8.** -/
theorem aligned_iff {cs : List Call} {s : PoolState} (hunique : ∀ c ∈ cs, c.op.Unique)
    (hexec : callMachine.exec PoolState.init cs = some s) :
    callMachine.Meets Aligned PoolState.init cs ↔
      callMachine.Meets UsedAligned PoolState.init cs := by
  apply callMachine.meets_congr_of_meets (A := fun _ c => c.op.Unique) (I := PlacesInv) _ _
    PlacesInv.init (callMachine.meets_of_forall hunique) hexec
  · intro s c s' h hunique _ hstep
    exact h.step hunique hstep
  · intro s c s' h hunique hstep
    exact poolStep_aligned h hunique hstep

/-- A string with `n` characters and its NUL, between two structures of 24 bytes. -/
def stringBetween (n : ℕ) : List Call :=
  [⟨.new gapMemalign 256, false⟩, ⟨.calloc gapMemalign 16 1 24, true⟩,
    ⟨.strndup gapMemalign 16 (fun _ => 97) n, false⟩, ⟨.calloc gapMemalign 16 1 24, true⟩]

theorem stringBetween_unique (n : ℕ) : ∀ c ∈ stringBetween n, c.op.Unique := by
  intro c hc f hf
  simp only [stringBetween, List.mem_cons, List.not_mem_nil, or_false] at hc
  rcases hc with rfl | rfl | rfl | rfl
  all_goals
    obtain rfl := Option.some.inj hf
    exact gapMemalign_unique

theorem aligned_seven : callMachine.Meets Aligned PoolState.init (stringBetween 7) := by
  obtain ⟨s, hexec⟩ : ∃ s, callMachine.exec PoolState.init (stringBetween 7) = some s :=
    Option.isSome_iff_exists.mp (by decide +kernel)
  exact (aligned_iff (stringBetween_unique 7) hexec).mpr (by decide +kernel)

/-- Behind a string of four bytes a structure is stored at an address that is 4 modulo 8. -/
theorem not_aligned_three : ∃ s, callMachine.exec PoolState.init (stringBetween 3) = some s ∧
    ¬ callMachine.Meets Aligned PoolState.init (stringBetween 3) := by
  obtain ⟨s, hexec⟩ : ∃ s, callMachine.exec PoolState.init (stringBetween 3) = some s :=
    Option.isSome_iff_exists.mp (by decide +kernel)
  exact ⟨s, hexec, by decide +kernel⟩

/-! ## Sizes -/

/-- The bytes that a call asks for, as the caller counts them. -/
def PoolOp.asked : PoolOp → ℕ
  | .new _ nbytes => nbytes
  | .alloc _ _ nbytes => nbytes
  | .calloc _ _ count nbytes => count * nbytes
  | .strndup _ _ _ n => n + 1
  | .free _ => 0
  | .delete _ _ => 0

/-- The bytes asked for and a header fit into a `size_t`. -/
def PoolOp.Fits (e : PoolOp) : Prop :=
  sizeofMemPool + e.asked < sizeMod

instance (e : PoolOp) : Decidable e.Fits :=
  inferInstanceAs (Decidable (_ < _))

/-- The call runs with a `posix_memalign` whose blocks are apart. -/
def PoolOp.Fresh (e : PoolOp) : Prop :=
  ∀ f ∈ e.memalign, Memalign.Fresh f

/-- The `size` bytes from `ptr` on are inside the current chunk of the pool, behind its header. -/
def Provided (m : Heap) (mp size ptr : ℕ) : Prop :=
  ∃ bsize, (currentChunk m mp, bsize) ∈ m.blocks ∧ currentChunk m mp + sizeofMemPool ≤ ptr ∧
    ptr + size ≤ currentChunk m mp + bsize

/-- What a call returns has the size that was asked for, and is zero behind `mp_calloc`. -/
def Provides (s : PoolState) (e : PoolOp) (s' : PoolState) : Prop :=
  match e with
  | .new _ nbytes =>
      ∃ mp, s'.pools.head? = some mp ∧ Provided s'.heap mp nbytes (mp + sizeofMemPool)
  | .alloc _ mp nbytes => ∃ ptr, s.returned e = some ptr ∧ Provided s'.heap mp nbytes ptr
  | .calloc _ mp count nbytes =>
      ∃ ptr, s.returned e = some ptr ∧ Provided s'.heap mp (count * nbytes) ptr ∧
        ∀ i < count * nbytes, s'.heap.bytes (ptr + i) = 0
  | .strndup _ mp _ n => ∃ ptr, s.returned e = some ptr ∧ Provided s'.heap mp (n + 1) ptr
  | .free _ => True
  | .delete _ _ => True

/-- No block ends behind the address space. -/
theorem Provided.fits {m : Heap} {mp size ptr : ℕ} (h : Provided m mp size ptr)
    (hplaced : ∀ x ∈ m.blocks, Placed x) : sizeofMemPool + size < sizeMod := by
  obtain ⟨bsize, hmem, hlo, hhi⟩ := h
  have hend := (hplaced _ hmem).2
  simp only at hend
  omega

theorem Provided.of_fills {m m' : Heap} {mp size ptr : ℕ} (h : Provided m mp size ptr)
    (hfills : Fills m m') : Provided m' mp size ptr := by
  unfold Provided currentChunk at *
  rw [hfills.hdr, hfills.blocks]
  exact h

/-- A request that fits is served inside the current chunk. -/
theorem mpAlloc_provided {memalign : Memalign} {m m' : Heap} {L : Layout} {b nbytes ptr : ℕ}
    (hm : Represents m L) (hb : b ∈ L.pools) (hfresh : memalign.Fresh)
    (hn : sizeofMemPool + nbytes < sizeMod) (h : mpAlloc memalign m b nbytes = some (ptr, m')) :
    Provided m' b nbytes ptr := by
  obtain ⟨m₁, L₁, hm₁, hgrow, hle, rfl, rfl⟩ := mpAlloc_bumps hm hb hfresh hn h
  have hb₁ : b ∈ L₁.pools := hgrow.pools.symm ▸ hb
  obtain ⟨hlo, -, bsize, hmem, hend⟩ := (hm₁.stack b hb₁).describes_top
  have hchunk : currentChunk (m₁.store b { m₁.hdr b with avail := (m₁.hdr b).avail + nbytes }) b =
      topChunk b (L₁.chain b) := by
    rw [← (hm₁.stack b hb₁).saved.currentChunk_eq]
    simp [currentChunk, Heap.store]
  rw [Provided, hchunk]
  exact ⟨bsize, hmem, hlo, Nat.le_trans hle (Nat.le_of_eq hend)⟩

theorem PoolOp.request_size {e : PoolOp} {memalign : Memalign} {mp size : ℕ} (hfits : e.Fits)
    (h : e.request = some (memalign, mp, size)) : size = e.asked := by
  have hlt : e.asked < sizeMod := Nat.lt_of_le_of_lt (Nat.le_add_left ..) hfits
  cases e with
  | alloc f mp' n =>
      cases h
      rfl
  | calloc f mp' count n =>
      cases h
      exact Nat.mod_eq_of_lt hlt
  | strndup f mp' s1 n =>
      cases h
      exact Nat.mod_eq_of_lt hlt
  | new _ _ | free _ | delete _ _ => cases h

theorem request_provided {s s' : PoolState} {e : PoolOp} {memalign : Memalign} {mp size : ℕ}
    (h : PoolInv s) (hfresh : e.Fresh) (hfits : e.Fits)
    (hrequest : e.request = some (memalign, mp, size)) (hstep : poolStep s e = some s') :
    ∃ ptr, s.returned e = some ptr ∧ Provided s'.heap mp e.asked ptr := by
  obtain ⟨L, h⟩ := h
  obtain ⟨hmp, -, ptr, m₁, hreturned, halloc, hfills⟩ := poolStep_request hrequest hstep
  obtain rfl := PoolOp.request_size hfits hrequest
  have hbegin : Represents s.heap.begin L := h.represents.of_same rfl rfl rfl
  have hfresh := hfresh memalign (PoolOp.memalign_of_request hrequest)
  exact ⟨ptr, hreturned,
    (mpAlloc_provided hbegin (h.pools.symm ▸ hmp) hfresh hfits halloc).of_fills hfills⟩

/-- `mp_calloc` clears what it returns. -/
theorem mpCalloc_zero {memalign : Memalign} {m m' : Heap} {mp count nbytes ptr : ℕ}
    (h : mpCalloc memalign m mp count nbytes = some (ptr, m')) :
    ∀ i < (count * nbytes) % sizeMod, m'.bytes (ptr + i) = 0 := by
  obtain ⟨m₁, -, rfl⟩ := mpCalloc_eq_some h
  intro i hi
  simp [Heap.memset, hi]

theorem calloc_zero {s s' : PoolState} {memalign : Memalign} {mp count nbytes ptr : ℕ}
    (hlt : count * nbytes < sizeMod)
    (hreturned : s.returned (.calloc memalign mp count nbytes) = some ptr)
    (hstep : poolStep s (.calloc memalign mp count nbytes) = some s') :
    ∀ i < count * nbytes, s'.heap.bytes (ptr + i) = 0 := by
  obtain ⟨-, ptr', m, hcall, rfl⟩ := allocated_eq_some hstep
  rw [PoolState.returned, hcall] at hreturned
  obtain rfl : ptr' = ptr := Option.some.inj hreturned
  have hzero := mpCalloc_zero hcall
  rwa [Nat.mod_eq_of_lt hlt] at hzero

/-- A new pool provides its base block. -/
theorem new_provided {s s' : PoolState} {memalign : Memalign} {nbytes : ℕ} (h : PlacesInv s)
    (hunique : memalign.Unique) (hn : sizeofMemPool + nbytes < sizeMod)
    (hstep : poolStep s (.new memalign nbytes) = some s') :
    ∃ mp, s'.pools.head? = some mp ∧ Provided s'.heap mp nbytes (mp + sizeofMemPool) := by
  obtain ⟨L, h⟩ := h
  obtain ⟨mp, m, hcall, rfl⟩ := poolStep_new hstep
  obtain ⟨-, -, -, -, -, hblocks, hhdr, -⟩ := mpNew_holds h.begin hunique hcall
  have hchunk : currentChunk m mp = mp := by
    rw [currentChunk, hhdr]
    exact if_pos rfl
  refine ⟨mp, rfl, sizeofMemPool + nbytes, ?_, ?_, ?_⟩
  · rw [hchunk, hblocks, Nat.mod_eq_of_lt hn]
    exact List.mem_cons_self ..
  · exact Nat.le_of_eq (congrArg (fun c => c + sizeofMemPool) hchunk)
  · rw [hchunk]
    omega

/-- A call that fits keeps the invariant of the pools. -/
theorem PoolInv.step_of_fits {s s' : PoolState} {e : PoolOp} (h : PoolInv s) (hfresh : e.Fresh)
    (hfits : e.Fits) (hstep : poolStep s e = some s') : PoolInv s' := by
  have hpos : ∀ memalign mp size, e.request = some (memalign, mp, size) → 0 < e.asked := by
    intro memalign mp size hrequest
    obtain ⟨-, -, ptr, m₁, -, halloc, -⟩ := poolStep_request hrequest hstep
    rw [← PoolOp.request_size hfits hrequest]
    exact (mpAlloc_eq_some halloc).1
  cases e with
  | new memalign nbytes =>
      obtain ⟨L, h⟩ := h
      obtain ⟨mp, m, hcall, rfl⟩ := poolStep_new hstep
      exact (new_step h (hfresh _ rfl) hfits hcall).1
  | alloc memalign mp nbytes =>
      have hok : PoolOp.RequestOk (.alloc memalign mp nbytes) :=
        ⟨hfresh _ rfl, hpos _ _ _ rfl, hfits⟩
      exact (poolStep_spec h hok hstep).1
  | calloc memalign mp count nbytes =>
      have hok : PoolOp.RequestOk (.calloc memalign mp count nbytes) :=
        ⟨hfresh _ rfl, hpos _ _ _ rfl, hfits⟩
      exact (poolStep_spec h hok hstep).1
  | strndup memalign mp s1 n =>
      have hok : PoolOp.RequestOk (.strndup memalign mp s1 n) := ⟨hfresh _ rfl, hfits⟩
      exact (poolStep_spec h hok hstep).1
  | free mp =>
      have hok : PoolOp.RequestOk (.free mp) := trivial
      exact (poolStep_spec h hok hstep).1
  | delete mp clean =>
      have hok : PoolOp.RequestOk (.delete mp clean) := trivial
      exact (poolStep_spec h hok hstep).1

/-- A call provides what was asked for exactly if that fits into a `size_t` with a header. -/
theorem poolStep_provides {s s' : PoolState} {e : PoolOp} (h : PlacesInv s) (hinv : PoolInv s)
    (hunique : e.Unique) (hfresh : e.Fresh) (hstep : poolStep s e = some s') :
    Provides s e s' ↔ e.Fits := by
  obtain ⟨L', hplaces⟩ := h.step hunique hstep
  constructor
  · -- what is provided lies in a block, and no block ends behind the address space
    intro hprovides
    cases e with
    | new memalign nbytes =>
        obtain ⟨mp, -, hprovided⟩ := hprovides
        exact hprovided.fits hplaces.placed
    | alloc memalign mp nbytes =>
        obtain ⟨ptr, -, hprovided⟩ := hprovides
        exact hprovided.fits hplaces.placed
    | calloc memalign mp count nbytes =>
        obtain ⟨ptr, -, hprovided, -⟩ := hprovides
        exact hprovided.fits hplaces.placed
    | strndup memalign mp s1 n =>
        obtain ⟨ptr, -, hprovided⟩ := hprovides
        exact hprovided.fits hplaces.placed
    | free _ | delete _ _ => exact show sizeofMemPool + 0 < sizeMod by decide
  · intro hfits
    cases e with
    | new memalign nbytes => exact new_provided h (hunique _ rfl) hfits hstep
    | alloc memalign mp nbytes => exact request_provided hinv hfresh hfits rfl hstep
    | calloc memalign mp count nbytes =>
        obtain ⟨ptr, hreturned, hprovided⟩ := request_provided hinv hfresh hfits rfl hstep
        have hlt : count * nbytes < sizeMod := Nat.lt_of_le_of_lt (Nat.le_add_left ..) hfits
        exact ⟨ptr, hreturned, hprovided, calloc_zero hlt hreturned hstep⟩
    | strndup memalign mp s1 n => exact request_provided hinv hfresh hfits rfl hstep
    | free _ | delete _ _ => trivial

/-- **In every run of calls that all return, every call provides the bytes that were asked for, as
the product is in the integers, exactly if that product and a header fit into a `size_t` in every
call.** -/
theorem provides_iff {es : List PoolOp} {s : PoolState} (hunique : ∀ e ∈ es, e.Unique)
    (hfresh : ∀ e ∈ es, e.Fresh) (hexec : poolMachine.exec PoolState.init es = some s) :
    poolMachine.Meets (fun s e => ∀ s', poolStep s e = some s' → Provides s e s') PoolState.init
      es ↔ ∀ e ∈ es, e.Fits := by
  rw [← poolMachine.meets_iff_forall (C := PoolOp.Fits) hexec]
  have hstep : ∀ s e s', PlacesInv s ∧ PoolInv s → e.Unique ∧ e.Fresh →
      poolMachine.step s e = some s' →
      ((∀ s', poolStep s e = some s' → Provides s e s') ↔ e.Fits) := by
    rintro s e s' ⟨h, hinv⟩ ⟨hunique, hfresh⟩ hstep
    rw [← poolStep_provides h hinv hunique hfresh hstep]
    refine ⟨fun hall => hall s' hstep, fun hprovides s'' hstep' => ?_⟩
    obtain rfl := Option.some.inj (hstep.symm.trans hstep')
    exact hprovides
  apply poolMachine.meets_congr_of_meets (A := fun _ e => e.Unique ∧ e.Fresh)
    (I := fun s => PlacesInv s ∧ PoolInv s) _ hstep ⟨PlacesInv.init, PoolInv.init⟩
    (poolMachine.meets_of_forall fun e he => ⟨hunique e he, hfresh e he⟩) hexec
  rintro s e s' ⟨h, hinv⟩ ⟨hunique, hfresh⟩ hprovides he
  -- `PoolInv` is kept by calls that fit, and the ones before this call did
  have hfits := (hstep s e s' ⟨h, hinv⟩ ⟨hunique, hfresh⟩ he).mp hprovides
  exact ⟨h.step hunique he, hinv.step_of_fits hfresh hfits he⟩

theorem gapMemalign_fresh : gapMemalign.Fresh := by
  intro blocks size a h
  simp only [gapMemalign, bumpMemalign, Option.ite_none_right_eq_some, Option.some.injEq] at h
  obtain ⟨hlt, rfl⟩ := h
  obtain ⟨hpos, haligned, hall⟩ := bumpAddr_spec (blocks.map fun b => (b.1, b.2 + 1))
  refine ⟨hpos, haligned, hlt, fun b hb => Or.inr ?_⟩
  have hbehind := hall _ (List.mem_map_of_mem hb)
  simp only at hbehind
  omega

/-- `mp_calloc` of so many elements, from a new pool. -/
def oneCalloc (count nbytes : ℕ) : List PoolOp :=
  [.new gapMemalign 64, .calloc gapMemalign 16 count nbytes]

theorem oneCalloc_ok (count nbytes : ℕ) :
    ∀ e ∈ oneCalloc count nbytes, e.Unique ∧ e.Fresh := by
  intro e he
  simp only [oneCalloc, List.mem_cons, List.not_mem_nil, or_false] at he
  rcases he with rfl | rfl
  all_goals
    refine ⟨fun f hf => ?_, fun f hf => ?_⟩ <;> obtain rfl := Option.some.inj hf
    · exact gapMemalign_unique
    · exact gapMemalign_fresh

theorem provides_small : poolMachine.Meets
    (fun s e => ∀ s', poolStep s e = some s' → Provides s e s') PoolState.init (oneCalloc 3 40) := by
  obtain ⟨s, hexec⟩ : ∃ s, poolMachine.exec PoolState.init (oneCalloc 3 40) = some s :=
    Option.isSome_iff_exists.mp (by decide +kernel)
  exact (provides_iff (fun e he => (oneCalloc_ok 3 40 e he).1)
    (fun e he => (oneCalloc_ok 3 40 e he).2) hexec).mpr (by decide)

/-- The product of `2 ^ 32` and `2 ^ 32 + 1` is `2 ^ 32` in a `size_t`. -/
theorem not_provides_product : ∃ s,
    poolMachine.exec PoolState.init (oneCalloc (2 ^ 32) (2 ^ 32 + 1)) = some s ∧
      ¬ poolMachine.Meets (fun s e => ∀ s', poolStep s e = some s' → Provides s e s')
        PoolState.init (oneCalloc (2 ^ 32) (2 ^ 32 + 1)) := by
  have hok := oneCalloc_ok (2 ^ 32) (2 ^ 32 + 1)
  obtain ⟨t, hexec⟩ : ∃ t, poolMachine.exec PoolState.init (oneCalloc (2 ^ 32) (2 ^ 32 + 1)) = some t :=
    Option.isSome_iff_exists.mp (by decide +kernel)
  refine ⟨t, hexec, fun hmeets => ?_⟩
  obtain ⟨s, hnew, hrest⟩ := poolMachine.exec_cons_eq_some.mp hexec
  obtain ⟨t, hcalloc, -⟩ := poolMachine.exec_cons_eq_some.mp hrest
  obtain ⟨huniqueNew, hfreshNew⟩ := hok _ (List.mem_cons_self ..)
  obtain ⟨hunique, hfresh⟩ := hok _ (List.mem_cons_of_mem _ (List.mem_cons_self ..))
  have hfits : PoolOp.Fits (.calloc gapMemalign 16 (2 ^ 32) (2 ^ 32 + 1)) :=
    (poolStep_provides (PlacesInv.init.step huniqueNew hnew)
      (PoolInv.init.step_of_fits hfreshNew (by decide) hnew) hunique hfresh hcalloc).mp
      ((hmeets.2 s hnew).1 t hcalloc)
  exact absurd hfits (by decide)

end Gfhttpd.Mem
