import Gfhttpd.Mem.Places
import Gfhttpd.Mem.Safety

/-!
# Who has the blocks

Every block of `posix_memalign` is the base of a pool, in the chain of a pool, on `freechunks`, or
was given back.  `nfree` counts the chunks on `freechunks` as long as nobody sets it.

- `poolStep_request`, `poolStep_places`: what a call does to the places of the blocks
- `InPlace`, `Balanced`, `chunks_in_place`: every block is in one place, in every state of every run
- `Counted`, `nfree_counted_iff`: the runs in which `nfree` is the length of the cache
-/

namespace Gfhttpd.Mem

open Store Transition

/-! ## Calls -/

/-- The `posix_memalign` of a call. -/
def PoolOp.memalign : PoolOp → Option Memalign
  | .new memalign _ => some memalign
  | .alloc memalign _ _ => some memalign
  | .calloc memalign _ _ _ => some memalign
  | .strndup memalign _ _ _ => some memalign
  | .free _ => none
  | .delete _ _ => none

/-- The pool, and the size that `mp_alloc` is called with. -/
def PoolOp.request : PoolOp → Option (Memalign × ℕ × ℕ)
  | .new _ _ => none
  | .alloc memalign mp nbytes => some (memalign, mp, nbytes)
  | .calloc memalign mp count nbytes => some (memalign, mp, (count * nbytes) % sizeMod)
  | .strndup memalign mp _ n => some (memalign, mp, (n + 1) % sizeMod)
  | .free _ => none
  | .delete _ _ => none

/-- The pool that a call is about. -/
def PoolOp.pool : PoolOp → Option ℕ
  | .new _ _ => none
  | .alloc _ mp _ => some mp
  | .calloc _ mp _ _ => some mp
  | .strndup _ mp _ _ => some mp
  | .free mp => some mp
  | .delete mp _ => some mp

/-- The call runs with a `posix_memalign` whose blocks start apart. -/
def PoolOp.Unique (e : PoolOp) : Prop :=
  ∀ f ∈ e.memalign, Memalign.Unique f

theorem PoolOp.memalign_of_request {e : PoolOp} {memalign : Memalign} {mp size : ℕ}
    (h : e.request = some (memalign, mp, size)) : e.memalign = some memalign := by
  cases e with
  | alloc _ _ _ | calloc _ _ _ _ | strndup _ _ _ _ => exact congrArg (fun r => r.map Prod.fst) h
  | new _ _ | free _ | delete _ _ => cases h

theorem PoolOp.pool_of_request {e : PoolOp} {memalign : Memalign} {mp size : ℕ}
    (h : e.request = some (memalign, mp, size)) : e.pool = some mp := by
  cases e with
  | alloc _ _ _ | calloc _ _ _ _ | strndup _ _ _ _ =>
      exact congrArg (fun r => r.map fun r => r.2.1) h
  | new _ _ | free _ | delete _ _ => cases h

/-- The address that a call returns, if it asks for memory. -/
def PoolState.returned (s : PoolState) : PoolOp → Option ℕ
  | .alloc memalign mp nbytes => (mpAlloc memalign s.heap.begin mp nbytes).map Prod.fst
  | .calloc memalign mp count nbytes =>
      (mpCalloc memalign s.heap.begin mp count nbytes).map Prod.fst
  | .strndup memalign mp s1 n => (mpStrndup memalign s.heap.begin mp s1 n).map Prod.fst
  | _ => none

/-- The stores of an allocating call behind its `mp_alloc` do not touch the descriptors. -/
structure Fills (m m' : Heap) : Prop where
  hdr : m'.hdr = m.hdr
  freechunks : m'.freechunks = m.freechunks
  nfree : m'.nfree = m.nfree
  blocks : m'.blocks = m.blocks

theorem mpCalloc_fills {memalign : Memalign} {m m' : Heap} {mp count nbytes ptr : ℕ}
    (h : mpCalloc memalign m mp count nbytes = some (ptr, m')) :
    ∃ m₁, mpAlloc memalign m mp ((count * nbytes) % sizeMod) = some (ptr, m₁) ∧ Fills m₁ m' := by
  obtain ⟨m₁, halloc, rfl⟩ := mpCalloc_eq_some h
  exact ⟨m₁, halloc, rfl, rfl, rfl, rfl⟩

theorem mpStrndup_fills {memalign : Memalign} {m m' : Heap} {mp n ptr : ℕ} {s1 : ℕ → UInt8}
    (h : mpStrndup memalign m mp s1 n = some (ptr, m')) :
    ∃ m₁, mpAlloc memalign m mp ((n + 1) % sizeMod) = some (ptr, m₁) ∧ Fills m₁ m' := by
  obtain ⟨m₁, hcall, rfl⟩ := mpStrndup_eq_some h
  obtain ⟨m₂, halloc, hfills⟩ := mpCalloc_fills hcall
  rw [Nat.mul_one, Nat.mod_mod] at halloc
  exact ⟨m₂, halloc, hfills.hdr, hfills.freechunks, hfills.nfree, hfills.blocks⟩

/-- A step that asks for memory is one `mp_alloc`. -/
theorem poolStep_request {s s' : PoolState} {e : PoolOp} {memalign : Memalign} {mp size : ℕ}
    (hrequest : e.request = some (memalign, mp, size)) (h : poolStep s e = some s') :
    mp ∈ s.pools ∧ s'.pools = s.pools ∧ ∃ ptr m₁, s.returned e = some ptr ∧
      mpAlloc memalign s.heap.begin mp size = some (ptr, m₁) ∧ Fills m₁ s'.heap := by
  cases e with
  | alloc f mp' n =>
      cases hrequest
      obtain ⟨hmp, ptr, m, hcall, rfl⟩ := allocated_eq_some h
      exact ⟨hmp, rfl, ptr, m, congrArg (Option.map Prod.fst) hcall, hcall, rfl, rfl, rfl, rfl⟩
  | calloc f mp' count n =>
      cases hrequest
      obtain ⟨hmp, ptr, m, hcall, rfl⟩ := allocated_eq_some h
      obtain ⟨m₁, halloc, hfills⟩ := mpCalloc_fills hcall
      exact ⟨hmp, rfl, ptr, m₁, congrArg (Option.map Prod.fst) hcall, halloc, hfills⟩
  | strndup f mp' s1 n =>
      cases hrequest
      obtain ⟨hmp, ptr, m, hcall, rfl⟩ := allocated_eq_some h
      obtain ⟨m₁, halloc, hfills⟩ := mpStrndup_fills hcall
      exact ⟨hmp, rfl, ptr, m₁, congrArg (Option.map Prod.fst) hcall, halloc, hfills⟩
  | new _ _ | free _ | delete _ _ => cases hrequest

/-! ## Steps -/

/-- The places of the blocks between two calls. -/
structure PlacesAt (s : PoolState) (L : Layout) : Prop where
  holds : Holds s.heap L
  loose : L.loose = []
  pools : L.pools = s.pools
  placed : ∀ x ∈ s.heap.blocks, Placed x

def PlacesInv (s : PoolState) : Prop := ∃ L, PlacesAt s L

theorem PlacesInv.init : PlacesInv PoolState.init :=
  ⟨Layout.init, Holds.init, rfl, rfl, by simp [PoolState.init, Heap.init]⟩

theorem PlacesAt.begin {s : PoolState} {L : Layout} (h : PlacesAt s L) : Holds s.heap.begin L :=
  h.holds.of_same rfl rfl rfl

theorem PlacesAt.cleaned {s : PoolState} {L : Layout} (h : PlacesAt s L) (clean : Bool) :
    Holds (s.heap.begin.cleaned clean) L := by
  obtain ⟨hhdr, hfree, hblocks, -⟩ := s.heap.begin.cleaned_eq clean
  exact h.begin.of_same hhdr hfree hblocks

/-- The calls of `free` in a call. -/
def PoolState.releases (s : PoolState) : PoolOp → List ℕ
  | .free mp => freeReleases mp s.heap.begin.fuel s.heap.begin
  | .delete mp clean =>
      freeReleases mp s.heap.begin.fuel (s.heap.begin.cleaned clean) ++ [mp]
  | _ => []

/-- The blocks a call has from `posix_memalign`. -/
def PoolState.obtains (s s' : PoolState) : List ℕ :=
  (s'.heap.blocks.take (s'.heap.blocks.length - s.heap.blocks.length)).map Prod.fst

/-- Every block that was in use or is obtained is given back once by the call, or in use behind it. -/
def PoolState.Balance (s : PoolState) (e : PoolOp) (s' : PoolState) : Prop :=
  (s.obtains s' ++ s.heap.blocks.map Prod.fst).Perm (s.releases e ++ s'.heap.blocks.map Prod.fst)

theorem balance_of_append {s s' : PoolState} {e : PoolOp} {new : List (ℕ × ℕ)}
    (h : s'.heap.blocks = new ++ s.heap.blocks) (hreleases : s.releases e = []) :
    s.Balance e s' := by
  rw [PoolState.Balance, PoolState.obtains, hreleases, h, List.length_append, Nat.add_sub_cancel,
    List.take_left, List.map_append]
  exact List.Perm.refl _

theorem balance_of_perm {s s' : PoolState} {e : PoolOp}
    (h : (s.heap.blocks.map Prod.fst).Perm (s.releases e ++ s'.heap.blocks.map Prod.fst)) :
    s.Balance e s' := by
  -- there are no more blocks than before
  have hlength := h.length_eq
  rw [List.length_map, List.length_append, List.length_map] at hlength
  have hzero : s'.heap.blocks.length - s.heap.blocks.length = 0 := by omega
  rw [PoolState.Balance, PoolState.obtains, hzero]
  exact h

/-- `nfree` when the call begins to move chunks. -/
def PoolState.nfreeIn (s : PoolState) : PoolOp → ℤ
  | .delete _ true => THRESHOLD
  | _ => s.heap.nfree

/-- What a call does to the places and to the counter. -/
structure PlacesStep (s : PoolState) (L : Layout) (e : PoolOp) (s' : PoolState) (L' : Layout) :
    Prop where
  places : PlacesAt s' L'
  balance : s.Balance e s'
  others : ∀ b ∈ L.pools, e.pool ≠ some b → L'.chain b = L.chain b ∧
    ∀ c, c = b ∨ c ∈ L.chain b → s'.heap.hdr c = s.heap.hdr c
  drift : s'.heap.nfree - L'.free.length = s.nfreeIn e - L.free.length
  count : s.nfreeIn e ≤ THRESHOLD → s'.heap.nfree ≤ THRESHOLD

/-- The blocks behind an operation are where `posix_memalign` put them. -/
theorem PlacesAt.placed_of_moves {s : PoolState} {L L' : Layout} (h : PlacesAt s L) {m m' : Heap}
    {b : ℕ} (hmoves : Moves m L b m' L') (hblocks : m.blocks = s.heap.blocks) :
    ∀ x ∈ m'.blocks, Placed x := by
  intro x hx
  rcases hmoves.blocks x hx with hold | hnew
  · exact h.placed x (hblocks ▸ hold)
  · exact hnew

/-- A request is served from the pool's current chunk, or from another one. -/
theorem request_places {s s' : PoolState} {L : Layout} {e : PoolOp} {memalign : Memalign}
    {mp size : ℕ} (h : PlacesAt s L) (hunique : e.Unique)
    (hrequest : e.request = some (memalign, mp, size)) (hstep : poolStep s e = some s') :
    ∃ L' ptr, PlacesStep s L e s' L' ∧ s.returned e = some ptr ∧
      Serves s.heap.begin L mp size ptr s'.heap L' := by
  obtain ⟨hmp, hpools, ptr, m₁, hreturned, halloc, hfills⟩ := poolStep_request hrequest hstep
  have hf := hunique memalign (PoolOp.memalign_of_request hrequest)
  obtain ⟨L', hm₁, hmoves, ⟨new, hnew⟩, hserves⟩ :=
    mpAlloc_holds h.begin (h.pools.symm ▸ hmp) hf halloc
  have hblocks : s'.heap.blocks = new ++ s.heap.blocks := by
    rw [hfills.blocks, ← hnew]
    rfl
  have hin : s.nfreeIn e = s.heap.nfree ∧ s.releases e = [] := by
    cases e with
    | alloc _ _ _ | calloc _ _ _ _ | strndup _ _ _ _ => exact ⟨rfl, rfl⟩
    | new _ _ | free _ | delete _ _ => cases hrequest
  refine ⟨L', ptr, ⟨⟨hm₁.of_same hfills.hdr hfills.freechunks hfills.blocks,
    hmoves.loose.trans h.loose, (hmoves.pools.trans h.pools).trans hpools.symm, ?_⟩, ?_,
    fun b hb hne => ?_, ?_, ?_⟩, hreturned, ?_⟩
  · rw [hfills.blocks]
    exact h.placed_of_moves hmoves rfl
  · exact balance_of_append hblocks hin.2
  · -- the frame of `mp_alloc`, which the stores behind it keep
    have hother : b ≠ mp := fun heq => hne (heq ▸ PoolOp.pool_of_request hrequest)
    refine ⟨hmoves.chain b hb hother, fun c hc => ?_⟩
    rw [hfills.hdr]
    exact hmoves.hdr b hb hother c hc
  · rw [hfills.nfree, hin.1]
    exact hmoves.drift
  · rw [hfills.nfree, hin.1]
    exact hmoves.count
  · obtain ⟨hpos, hlt, hcurrent, hnext, hbase⟩ := hserves
    rw [← hfills.hdr] at hcurrent hnext hbase
    exact ⟨hpos, hlt, hcurrent, hnext, hbase⟩

/-- Behind `mp_free`, the pool is there with no chunk. -/
theorem free_places {s : PoolState} {L : Layout} {m m' : Heap} {mp : ℕ} (h : PlacesAt s L)
    (hm : Holds m L) (hblocks : m.blocks = s.heap.blocks) (hmp : mp ∈ s.pools)
    (hfree : mpFree m mp = some m') :
    ∃ L', Holds m' L' ∧ Moves m L mp m' L' ∧ L'.chain mp = [] ∧ (∀ x ∈ m'.blocks, Placed x) ∧
      m'.hdr mp = m.hdr (bottom mp (L.chain mp)) ∧
      (s.heap.blocks.map Prod.fst).Perm
        (freeReleases mp m.fuel m ++ m'.blocks.map Prod.fst) := by
  obtain ⟨m₁, L', hm', hmoves, hnil, hbottom, hperm, heq⟩ := mpFree_holds hm (h.pools.symm ▸ hmp)
  rw [hfree] at heq
  -- the assertions at the end of `mp_free` hold, as it returns
  obtain rfl : m' = m₁ := by
    split at heq
    · exact Option.some.inj heq
    · cases heq
  exact ⟨L', hm', hmoves, hnil, h.placed_of_moves hmoves hblocks, hbottom, hblocks ▸ hperm⟩

/-- A new pool has a block that was in no place. -/
theorem new_places {s s' : PoolState} {L : Layout} {memalign : Memalign} {nbytes : ℕ}
    (h : PlacesAt s L) (hunique : memalign.Unique)
    (hstep : poolStep s (.new memalign nbytes) = some s') :
    ∃ L', PlacesStep s L (.new memalign nbytes) s' L' := by
  obtain ⟨mp, m, hnew, rfl⟩ := poolStep_new hstep
  obtain ⟨hout, hm, hnfree, hplaced, -, hblocks, -, hhdr⟩ := mpNew_holds h.begin hunique hnew
  have happend : m.blocks =
      [(mp, (sizeofMemPool + nbytes) % sizeMod)] ++ s.heap.blocks := hblocks
  refine ⟨_, ⟨hm, h.loose, ?_, fun x hx => ?_⟩, ?_, fun b hb _ => ⟨?_, fun c hc => ?_⟩, ?_,
    fun hle => ?_⟩
  · show mp :: L.pools = mp :: s.pools
    rw [h.pools]
  · rw [happend] at hx
    rcases List.mem_cons.mp hx with rfl | hx
    · exact hplaced
    · exact h.placed x hx
  · exact balance_of_append happend rfl
  · have hne : b ≠ mp := fun heq => hout (heq ▸ Layout.mem_owned_of_pool hb)
    exact Layout.chain_setChain_of_ne _ hne _
  · -- `mp_new` writes the header of its own block only
    apply hhdr
    rintro rfl
    rcases hc with rfl | hc
    · exact hout (Layout.mem_owned_of_pool hb)
    · exact hout (Layout.mem_owned_of_chain hb hc)
  · exact congrArg (fun n : ℤ => n - L.free.length) hnfree
  · exact hnfree ▸ hle

/-- A pool that is deleted gives back its chunks, which may go to the cache, and then its base. -/
theorem delete_places {s s' : PoolState} {L : Layout} {mp : ℕ} {clean : Bool} (h : PlacesAt s L)
    (hstep : poolStep s (.delete mp clean) = some s') :
    ∃ L', PlacesStep s L (.delete mp clean) s' L' := by
  obtain ⟨hmp, m, hfree, rfl⟩ := poolStep_delete hstep
  obtain ⟨hhdr, -, hblocks, -⟩ := s.heap.begin.cleaned_eq clean
  have hfuel : (s.heap.begin.cleaned clean).fuel = s.heap.begin.fuel :=
    congrArg (fun bs : List (ℕ × ℕ) => bs.length + 2) hblocks
  have hin : s.nfreeIn (.delete mp clean) = (s.heap.begin.cleaned clean).nfree := by
    cases clean <;> rfl
  obtain ⟨L', hm, hmoves, hnil, hplaced, -, hperm⟩ :=
    free_places h (h.cleaned clean) hblocks hmp hfree
  obtain ⟨hm', hbase⟩ := releaseBase_holds hm (hmoves.pools.symm ▸ h.pools.symm ▸ hmp) hnil
  -- the chunks that `mp_free` gives back, and the base behind them
  have hall : (s.heap.blocks.map Prod.fst).Perm
      (s.releases (.delete mp clean) ++ (m.release mp).blocks.map Prod.fst) := by
    rw [PoolState.releases, ← hfuel, List.append_assoc]
    exact hperm.trans (hbase.append_left _)
  refine ⟨_, ⟨hm', hmoves.loose.trans h.loose, ?_, fun x hx => ?_⟩, balance_of_perm hall,
    fun b hb hne => ?_, ?_, ?_⟩
  · show L'.pools.erase mp = s.pools.erase mp
    rw [hmoves.pools, h.pools]
  · exact hplaced x (List.mem_of_mem_filter hx)
  · have hother : b ≠ mp := fun heq => hne (congrArg some heq.symm)
    refine ⟨hmoves.chain b hb hother, fun c hc => ?_⟩
    exact (hmoves.hdr b hb hother c hc).trans (congrFun hhdr c)
  · rw [hin]
    exact hmoves.drift
  · rw [hin]
    exact hmoves.count

theorem poolStep_places {s s' : PoolState} {L : Layout} {e : PoolOp} (h : PlacesAt s L)
    (hunique : e.Unique) (hstep : poolStep s e = some s') : ∃ L', PlacesStep s L e s' L' := by
  cases e with
  | new memalign nbytes => exact new_places h (hunique _ rfl) hstep
  | alloc _ _ _ | calloc _ _ _ _ | strndup _ _ _ _ =>
      obtain ⟨L', -, h', -⟩ := request_places h hunique rfl hstep
      exact ⟨L', h'⟩
  | free mp =>
      obtain ⟨hmp, m, hfree, rfl⟩ := poolStep_free hstep
      obtain ⟨L', hm, hmoves, -, hplaced, -, hperm⟩ := free_places h h.begin rfl hmp hfree
      refine ⟨L', ⟨hm, hmoves.loose.trans h.loose, hmoves.pools.trans h.pools, hplaced⟩,
        balance_of_perm hperm, fun b hb hne => ?_, hmoves.drift, hmoves.count⟩
      have hother : b ≠ mp := fun heq => hne (congrArg some heq.symm)
      exact ⟨hmoves.chain b hb hother, hmoves.hdr b hb hother⟩
  | delete mp clean => exact delete_places h hstep

theorem PlacesInv.step {s s' : PoolState} {e : PoolOp} (h : PlacesInv s) (hunique : e.Unique)
    (hstep : poolStep s e = some s') : PlacesInv s' := by
  obtain ⟨L, h⟩ := h
  obtain ⟨L', h'⟩ := poolStep_places h hunique hstep
  exact ⟨L', h'.places⟩

/-! ## A pool that is emptied -/

/-- A `posix_memalign` that takes the first aligned address with a gap behind all blocks. -/
def gapMemalign : Memalign := fun blocks size =>
  bumpMemalign (blocks.map fun b => (b.1, b.2 + 1)) size

theorem gapMemalign_unique : gapMemalign.Unique := by
  intro blocks size a h
  simp only [gapMemalign, bumpMemalign, Option.ite_none_right_eq_some, Option.some.injEq] at h
  obtain ⟨hlt, rfl⟩ := h
  obtain ⟨hpos, haligned, hall⟩ := bumpAddr_spec (blocks.map fun b => (b.1, b.2 + 1))
  refine ⟨hpos, haligned, hlt, fun b hb => ?_⟩
  have hbehind := hall _ (List.mem_map_of_mem hb)
  simp only at hbehind
  omega

/-- A pool that has taken so many chunks, and gave them back. -/
def emptied (chunks : ℕ) : List PoolOp :=
  .new gapMemalign 8 :: List.replicate chunks (.alloc gapMemalign 16 9) ++ [.free 16]

theorem emptied_unique (chunks : ℕ) : ∀ e ∈ emptied chunks, e.Unique := by
  intro e he f hf
  simp only [emptied, List.cons_append, List.mem_cons, List.mem_append, List.mem_replicate,
    List.not_mem_nil, or_false] at he
  rcases he with rfl | ⟨-, rfl⟩ | rfl
  · obtain rfl := Option.some.inj hf
    exact gapMemalign_unique
  · obtain rfl := Option.some.inj hf
    exact gapMemalign_unique
  · cases hf

/-! ## Every block in one place -/

/-- The list from `freechunks` and the chains found by following `prev` from the bases end, no block
is in two of these places, every block in use is in one, and a chunk on the list records its end. -/
structure InPlaceAt (s : PoolState) (free : List ℕ) (chain : ℕ → List ℕ) : Prop where
  list : Path (fun a => (s.heap.hdr a).prev) 0 s.heap.freechunks free
  chains : ∀ b ∈ s.pools, Path (fun a => (s.heap.hdr a).prev) 0 (s.heap.hdr b).prev (chain b)
  limits : ∀ c ∈ free, BlockEnd s.heap c (s.heap.hdr c).limit
  once : (free ++ s.pools.flatMap fun b => b :: chain b).Nodup
  places : (s.heap.blocks.map Prod.fst).Perm (free ++ s.pools.flatMap fun b => b :: chain b)

def InPlace (s : PoolState) : Prop := ∃ free chain, InPlaceAt s free chain

theorem PlacesInv.inPlace {s : PoolState} (h : PlacesInv s) : InPlace s := by
  obtain ⟨L, h⟩ := h
  have howned : L.owned = L.free ++ s.pools.flatMap fun b => b :: L.chain b := by
    rw [Layout.owned, h.loose, Layout.stacked, h.pools]
    rfl
  refine ⟨L.free, L.chain, h.holds.freeList, fun b hb => ?_, h.holds.cached, ?_, ?_⟩
  · exact (h.holds.saved b (h.pools.symm ▸ hb)).path
  · exact howned ▸ h.holds.nodup
  · exact howned ▸ h.holds.conserve

/-- The call gives blocks back that are in use, each once, and drops none. -/
def Balanced (s : PoolState) (e : PoolOp) : Prop :=
  ∀ s', poolStep s e = some s' → s.Balance e s'

/-- **In every state of every run of calls, with any sizes and over any number of pools, every block
is in one place, and every call gives back what it takes from its place.** -/
theorem chunks_in_place {es : List PoolOp} (hunique : ∀ e ∈ es, e.Unique) :
    poolMachine.Throughout InPlace PoolState.init es ∧
      poolMachine.Meets Balanced PoolState.init es := by
  have hmeets : poolMachine.Meets (fun _ e => e.Unique) PoolState.init es :=
    poolMachine.meets_of_forall hunique
  have hkeep : ∀ s e s', PlacesInv s → e.Unique → poolMachine.step s e = some s' →
      PlacesInv s' := fun s e s' h hunique hstep => h.step hunique hstep
  constructor
  · have hinv : poolMachine.Throughout PlacesInv PoolState.init es :=
      poolMachine.throughout_of_meets hkeep PlacesInv.init hmeets
    exact Machine.Throughout.mono poolMachine (fun s h => h.inPlace) hinv
  · apply Machine.Meets.of_invariant poolMachine hkeep _ PlacesInv.init hmeets
    rintro s e ⟨L, h⟩ hunique s' hstep
    obtain ⟨L', h'⟩ := poolStep_places h hunique hstep
    exact h'.balance

/-- Eleven chunks: the cache takes ten of them. -/
theorem chunks_in_place_emptied : (poolMachine.exec PoolState.init (emptied 11)).isSome ∧
    poolMachine.Throughout InPlace PoolState.init (emptied 11) ∧
      poolMachine.Meets Balanced PoolState.init (emptied 11) :=
  ⟨by decide +kernel, chunks_in_place (emptied_unique 11)⟩

/-! ## The counter -/

/-- `nfree` is the number of chunks on the list from `freechunks`, and at most `THRESHOLD`. -/
def Counted (s : PoolState) : Prop :=
  ∃ free, Path (fun a => (s.heap.hdr a).prev) 0 s.heap.freechunks free ∧
    s.heap.nfree = free.length ∧ s.heap.nfree ≤ THRESHOLD

/-- A call of `mp_delete` with `clean` finds the cache full. -/
def CleansFull (s : PoolState) : PoolOp → Prop
  | .delete _ true => s.heap.nfree = THRESHOLD
  | _ => True

instance (s : PoolState) (e : PoolOp) : Decidable (CleansFull s e) := by
  unfold CleansFull
  split <;> infer_instance

theorem PlacesAt.counted_iff {s : PoolState} {L : Layout} (h : PlacesAt s L) :
    Counted s ↔ s.heap.nfree = L.free.length ∧ s.heap.nfree ≤ THRESHOLD := by
  constructor
  · rintro ⟨free, hpath, hcount⟩
    rw [h.holds.freeList.unique hpath]
    exact hcount
  · intro hcount
    exact ⟨L.free, h.holds.freeList, hcount⟩

/-- A call keeps the count exactly if it does not set `nfree` to something else. -/
theorem poolStep_counted {s s' : PoolState} {e : PoolOp} (h : PlacesInv s) (hcounted : Counted s)
    (hunique : e.Unique) (hstep : poolStep s e = some s') : Counted s' ↔ CleansFull s e := by
  obtain ⟨L, h⟩ := h
  obtain ⟨L', h'⟩ := poolStep_places h hunique hstep
  obtain ⟨hlength, hle⟩ := h.counted_iff.mp hcounted
  have hdrift := h'.drift
  have hcount := h'.count
  rw [h'.places.counted_iff]
  -- only `mp_delete` with `clean` begins with another `nfree`
  have hiff : s.nfreeIn e = s.heap.nfree ↔ CleansFull s e := by
    unfold PoolState.nfreeIn CleansFull
    split
    · exact eq_comm
    · exact iff_of_true rfl trivial
  have hin : s.nfreeIn e ≤ THRESHOLD := by
    unfold PoolState.nfreeIn
    split
    · exact Int.le_refl _
    · exact hle
  rw [← hiff]
  constructor
  · rintro ⟨hlength', -⟩
    omega
  · intro hsame
    exact ⟨by omega, hcount hin⟩

/-- **In every run of calls `nfree` is the number of cached chunks, and at most `THRESHOLD`, in every
state exactly if every `mp_delete` with `clean` finds `THRESHOLD` chunks cached.** -/
theorem nfree_counted_iff {es : List PoolOp} {s : PoolState} (hunique : ∀ e ∈ es, e.Unique)
    (hexec : poolMachine.exec PoolState.init es = some s) :
    poolMachine.Throughout Counted PoolState.init es ↔
      poolMachine.Meets CleansFull PoolState.init es := by
  have hstart : Counted PoolState.init := ⟨[], rfl, rfl, by decide⟩
  apply poolMachine.throughout_iff_meets_of_meets (A := fun _ e => e.Unique) _ PlacesInv.init hstart
    (poolMachine.meets_of_forall hunique) hexec
  intro s e s' h hcounted hunique hstep
  exact ⟨fun _ => h.step hunique hstep, poolStep_counted h hcounted hunique hstep⟩

/-- A pool is deleted with `clean`. -/
def cleaned (chunks : ℕ) : List PoolOp :=
  emptied chunks ++ [.delete 16 true]

theorem cleaned_unique (chunks : ℕ) : ∀ e ∈ cleaned chunks, e.Unique := by
  intro e he
  rcases List.mem_append.mp he with he | he
  · exact emptied_unique chunks e he
  · rw [List.mem_singleton.mp he]
    intro f hf
    cases hf

theorem nfree_counted_full :
    poolMachine.Throughout Counted PoolState.init (cleaned 10) := by
  obtain ⟨s, hexec⟩ : ∃ s, poolMachine.exec PoolState.init (cleaned 10) = some s :=
    Option.isSome_iff_exists.mp (by decide +kernel)
  exact (nfree_counted_iff (cleaned_unique 10) hexec).mpr (by decide +kernel)

/-- One chunk is cached, and `nfree` is set to ten. -/
theorem nfree_not_counted_clean : ∃ s,
    poolMachine.exec PoolState.init (cleaned 1) = some s ∧
      ¬ poolMachine.Throughout Counted PoolState.init (cleaned 1) := by
  have hrun : (poolMachine.exec PoolState.init (cleaned 1)).map
      (fun s => (s.heap.freechunks, (s.heap.hdr 64).prev, s.heap.nfree)) = some (64, 0, 10) := by
    decide +kernel
  obtain ⟨s, hexec, hheap⟩ := Option.map_eq_some_iff.mp hrun
  obtain ⟨hhead, hrest⟩ := Prod.mk.inj hheap
  obtain ⟨hlast, hnfree⟩ := Prod.mk.inj hrest
  refine ⟨s, hexec, fun hall => ?_⟩
  obtain ⟨free, hpath, hcount, -⟩ := Machine.Throughout.final poolMachine hall hexec
  have hone : Path (fun a => (s.heap.hdr a).prev) 0 s.heap.freechunks [64] :=
    ⟨hhead, by decide, hlast⟩
  rw [hpath.unique hone, hnfree] at hcount
  exact absurd hcount (by decide)

end Gfhttpd.Mem
