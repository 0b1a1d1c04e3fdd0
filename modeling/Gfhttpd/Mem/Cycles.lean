import Gfhttpd.Mem.Ownership

/-!
# Filling and emptying a pool

`mp_free` restores the descriptor that the oldest chunk of the pool has saved.  That is the one of
`mp_new` as long as nothing was served from the base block before the chunk came.

- `FreesToNew`: `mp_free` would leave the pool as `mp_new` did
- `NotFromBase`, `cycles_freesToNew_iff`: the runs in which it always would
-/

namespace Gfhttpd.Mem

open Transition

/-! ## The base descriptor over a run -/

/-- The descriptor that `mp_new` stores: no chunk, `avail` behind the header, `limit` at the end of
the base block. -/
def newDescriptor (mp nbytes : ℕ) : MemPool where
  prev := 0
  avail := ptrAdd mp sizeofMemPool
  limit := ptrAdd mp ((sizeofMemPool + nbytes) % sizeMod)

/-- `mp_free` would leave the pool as `mp_new` left it. -/
def FreesToNew (mp nbytes : ℕ) (s : PoolState) : Prop :=
  ∃ m, mpFree s.heap.begin mp = some m ∧ m.hdr mp = newDescriptor mp nbytes ∧
    mpHasLeft m mp = nbytes

/-- No request is served from the base block. -/
def NotFromBase (mp : ℕ) (s : PoolState) (e : PoolOp) : Prop :=
  match e.request with
  | none => True
  | some (_, mp', size) => mp' = mp → (s.heap.hdr mp).prev = 0 → mpHasLeft s.heap mp < size

instance (mp : ℕ) (s : PoolState) (e : PoolOp) : Decidable (NotFromBase mp s e) := by
  unfold NotFromBase
  split <;> infer_instance

theorem newDescriptor_left {m : Heap} {mp nbytes : ℕ} (hlt : nbytes < sizeMod)
    (h : m.hdr mp = newDescriptor mp nbytes) : mpHasLeft m mp = nbytes := by
  rw [mpHasLeft, h]
  simp only [newDescriptor, ptrAdd, ptrDiff, sizeofMemPool, sizeMod] at *
  omega

/-- `avail` and `limit` of a new pool are not null. -/
theorem newDescriptor_ne_zero {mp nbytes : ℕ} (hpos : 0 < mp)
    (hplaced : Placed (mp, (sizeofMemPool + nbytes) % sizeMod)) :
    (newDescriptor mp nbytes).limit ≠ 0 ∧ (newDescriptor mp nbytes).avail ≠ 0 := by
  obtain ⟨haligned, hend⟩ := hplaced
  simp only [newDescriptor, ptrAdd, sizeofMemPool, sizeMod, ALIGNMENT] at *
  omega

/-- What `mp_free` restores is where the chain of the pool ends. -/
theorem PlacesAt.freesToNew_iff {s : PoolState} {L : Layout} {mp nbytes : ℕ} (h : PlacesAt s L)
    (hmp : mp ∈ s.pools) (hlt : nbytes < sizeMod) (hpos : 0 < mp)
    (hplaced : Placed (mp, (sizeofMemPool + nbytes) % sizeMod)) :
    FreesToNew mp nbytes s ↔ s.heap.hdr (bottom mp (L.chain mp)) = newDescriptor mp nbytes := by
  obtain ⟨m, L', -, -, -, hbottom, -, hfree⟩ := mpFree_holds h.begin (h.pools.symm ▸ hmp)
  constructor
  · rintro ⟨m', hcall, hnew, -⟩
    rw [hcall] at hfree
    obtain rfl : m' = m := by
      split at hfree
      · exact Option.some.inj hfree
      · cases hfree
    rw [← hnew, hbottom]
    rfl
  · intro hnew
    have hm : m.hdr mp = newDescriptor mp nbytes := hbottom.trans hnew
    rw [hm, if_pos (newDescriptor_ne_zero hpos hplaced)] at hfree
    exact ⟨m, hfree, hm, newDescriptor_left hlt hm⟩

/-- A request to a pool without chunks that fits moves `avail` away from where `mp_new` had it. -/
theorem bump_ne_newDescriptor {d : MemPool} {mp nbytes size : ℕ} (hpos : 0 < size)
    (hlt : size < sizeMod) (hd : d = newDescriptor mp nbytes) :
    { d with avail := ptrAdd d.avail size } ≠ newDescriptor mp nbytes := by
  subst hd
  intro heq
  have havail := congrArg MemPool.avail heq
  simp only [newDescriptor, ptrAdd, sizeofMemPool, sizeMod] at *
  omega

/-- A request keeps the base descriptor exactly if it is not served from the base block. -/
theorem request_newDescriptor {m m' : Heap} {L L' : Layout} {mp nbytes size ptr : ℕ}
    (hm : Holds m L) (hmp : mp ∈ L.pools) (hserves : Serves m L mp size ptr m' L')
    (hlt : mpHasLeft m mp < sizeMod)
    (hnew : m.hdr (bottom mp (L.chain mp)) = newDescriptor mp nbytes) :
    m'.hdr (bottom mp (L'.chain mp)) = newDescriptor mp nbytes ↔
      ((m.hdr mp).prev = 0 → mpHasLeft m mp < size) := by
  obtain ⟨hpos, -, hcurrent, hnext, hbase⟩ := hserves
  have hsaved := hm.saved mp hmp
  rcases Nat.lt_or_ge (mpHasLeft m mp) size with hno | hfits
  · -- the pool has a chunk afterwards, which keeps the descriptor
    rw [hbase (hnext hno).1]
    exact iff_of_true hnew fun _ => hno
  · obtain ⟨hchain, hhdr, -⟩ := hcurrent hfits
    cases hcase : L.chain mp with
    | nil =>
        -- served from the base block, whose descriptor moves
        rw [hcase] at hsaved hnew
        rw [hchain, hcase]
        simp only [bottom] at hnew ⊢
        rw [hhdr]
        refine iff_of_false (bump_ne_newDescriptor hpos (Nat.lt_of_le_of_lt hfits hlt) hnew) ?_
        intro hserved
        exact absurd (hserved hsaved.1) (Nat.not_lt.mpr hfits)
    | cons c cs =>
        -- served from a chunk, and the base's descriptor is saved behind it
        have hne : L'.chain mp ≠ [] := by
          rw [hchain, hcase]
          exact List.cons_ne_nil c cs
        rw [hcase] at hsaved
        rw [hbase hne]
        refine iff_of_true hnew fun hprev => absurd hprev ?_
        rw [hsaved.1]
        exact hsaved.2.1

/-! ## Runs -/

theorem mpHasLeft_lt (m : Heap) (mp : ℕ) : mpHasLeft m mp < sizeMod :=
  Nat.mod_lt _ (by decide)

/-- A pool stays until it is deleted. -/
theorem poolStep_mem_pools {s s' : PoolState} {e : PoolOp} {mp : ℕ} (hmp : mp ∈ s.pools)
    (hkept : ∀ clean, e ≠ .delete mp clean) (hstep : poolStep s e = some s') : mp ∈ s'.pools := by
  cases e with
  | new memalign nbytes =>
      obtain ⟨mp', m, -, rfl⟩ := poolStep_new hstep
      exact List.mem_cons_of_mem _ hmp
  | alloc _ _ _ | calloc _ _ _ _ | strndup _ _ _ _ =>
      obtain ⟨-, hpools, -⟩ := poolStep_request rfl hstep
      exact hpools.symm ▸ hmp
  | free mp' =>
      obtain ⟨-, m, -, rfl⟩ := poolStep_free hstep
      exact hmp
  | delete mp' clean =>
      obtain ⟨-, m, -, rfl⟩ := poolStep_delete hstep
      have hne : mp ≠ mp' := by
        rintro rfl
        exact hkept clean rfl
      exact (List.mem_erase_of_ne hne).mpr hmp

/-- A call that is not about the pool leaves its base descriptor alone. -/
theorem PlacesStep.bottom_hdr {s s' : PoolState} {L L' : Layout} {e : PoolOp} {mp : ℕ}
    (h : PlacesStep s L e s' L') (hmp : mp ∈ L.pools) (hpool : e.pool ≠ some mp) :
    s'.heap.hdr (bottom mp (L'.chain mp)) = s.heap.hdr (bottom mp (L.chain mp)) := by
  obtain ⟨hchain, hhdr⟩ := h.others mp hmp hpool
  rw [hchain]
  exact hdr_bottom_congr (hhdr mp (Or.inl rfl)) fun c hc => hhdr c (Or.inr hc)

/-- `mp_free` puts the base descriptor back into the base. -/
theorem free_bottom_hdr {s s' : PoolState} {L : Layout} {mp : ℕ} (h : PlacesAt s L)
    (hstep : poolStep s (.free mp) = some s') : ∃ L', PlacesAt s' L' ∧
      s'.heap.hdr (bottom mp (L'.chain mp)) = s.heap.hdr (bottom mp (L.chain mp)) := by
  obtain ⟨hmp, m, hfree, rfl⟩ := poolStep_free hstep
  obtain ⟨L', hm, hmoves, hnil, hplaced, hbottom, -⟩ := free_places h h.begin rfl hmp hfree
  refine ⟨L', ⟨hm, hmoves.loose.trans h.loose, hmoves.pools.trans h.pools, hplaced⟩, ?_⟩
  rw [hnil]
  exact hbottom

/-- A call keeps what `mp_free` would restore exactly if nothing is served from the base block. -/
theorem poolStep_freesToNew {s s' : PoolState} {e : PoolOp} {mp nbytes : ℕ} (h : PlacesInv s)
    (hmp : mp ∈ s.pools) (hlt : nbytes < sizeMod) (hpos : 0 < mp)
    (hplaced : Placed (mp, (sizeofMemPool + nbytes) % sizeMod)) (hnew : FreesToNew mp nbytes s)
    (hunique : e.Unique) (hkept : ∀ clean, e ≠ .delete mp clean)
    (hstep : poolStep s e = some s') : FreesToNew mp nbytes s' ↔ NotFromBase mp s e := by
  obtain ⟨L, h⟩ := h
  have hL : mp ∈ L.pools := h.pools.symm ▸ hmp
  have hmp' := poolStep_mem_pools hmp hkept hstep
  rw [h.freesToNew_iff hmp hlt hpos hplaced] at hnew
  unfold NotFromBase
  cases hrequest : e.request with
  | some r =>
      obtain ⟨memalign, mp₁, size⟩ := r
      obtain ⟨L', ptr, h', -, hserves⟩ := request_places h hunique hrequest hstep
      rw [h'.places.freesToNew_iff hmp' hlt hpos hplaced]
      by_cases heq : mp₁ = mp
      · subst heq
        rw [request_newDescriptor h.begin hL hserves (mpHasLeft_lt _ _) hnew]
        exact ⟨fun hserved _ => hserved, fun hserved => hserved rfl⟩
      · -- a request to another pool
        have hpool : e.pool ≠ some mp := by
          rw [PoolOp.pool_of_request hrequest]
          exact fun hsame => heq (Option.some.inj hsame)
        rw [h'.bottom_hdr hL hpool]
        exact iff_of_true hnew fun hsame => absurd hsame heq
  | none =>
      -- no call but a request changes what `mp_free` would restore
      refine iff_of_true ?_ trivial
      by_cases hpool : e.pool = some mp
      · cases e with
        | new _ _ => cases hpool
        | alloc _ _ _ | calloc _ _ _ _ | strndup _ _ _ _ => cases hrequest
        | free mp₁ =>
            cases hpool
            obtain ⟨L', h', hbottom⟩ := free_bottom_hdr h hstep
            rw [h'.freesToNew_iff hmp' hlt hpos hplaced, hbottom]
            exact hnew
        | delete mp₁ clean =>
            cases hpool
            exact absurd rfl (hkept clean)
      · obtain ⟨L', h'⟩ := poolStep_places h hunique hstep
        rw [h'.places.freesToNew_iff hmp' hlt hpos hplaced, h'.bottom_hdr hL hpool]
        exact hnew

/-- **After `mp_new(nbytes)`, and whatever else is called until the pool is deleted, `mp_free` leaves
the pool as `mp_new` did in every state exactly if no request is ever served from its base
block.** -/
theorem cycles_freesToNew_iff {es₀ es : List PoolOp} {s₀ s t : PoolState} {memalign : Memalign}
    {mp nbytes : ℕ} (hunique₀ : ∀ e ∈ es₀, e.Unique) (hunique : ∀ e ∈ es, e.Unique)
    (hmemalign : memalign.Unique) (hlt : nbytes < sizeMod)
    (hbefore : poolMachine.exec PoolState.init es₀ = some s₀)
    (hnew : poolStep s₀ (.new memalign nbytes) = some s) (hmp : s.pools.head? = some mp)
    (hkept : ∀ clean, .delete mp clean ∉ es) (hexec : poolMachine.exec s es = some t) :
    poolMachine.Throughout (FreesToNew mp nbytes) s es ↔
      poolMachine.Meets (NotFromBase mp) s es := by
  have hinv₀ : PlacesInv s₀ :=
    poolMachine.exec_invariant_of_meets (C := fun _ e => e.Unique)
      (fun s e s' h hunique hstep => h.step hunique hstep) PlacesInv.init
      (poolMachine.meets_of_forall hunique₀) hbefore
  have hmemalign' : PoolOp.Unique (.new memalign nbytes) := by
    intro f hf
    obtain rfl := Option.some.inj hf
    exact hmemalign
  have hinv := hinv₀.step hmemalign' hnew
  -- the pool that `mp_new` has made
  obtain ⟨L₀, h₀⟩ := hinv₀
  obtain ⟨mp', m, hcall, rfl⟩ := poolStep_new hnew
  obtain rfl : mp' = mp := Option.some.inj hmp
  obtain ⟨-, hm, -, hplaced, hpos, -, hhdr, -⟩ := mpNew_holds h₀.begin hmemalign hcall
  have hmem : mp' ∈ mp' :: s₀.pools := List.mem_cons_self ..
  have hstart : FreesToNew mp' nbytes { s₀ with heap := m, pools := mp' :: s₀.pools } := by
    obtain ⟨L, h⟩ := hinv
    rw [h.freesToNew_iff hmem hlt hpos hplaced]
    have hsaved := h.holds.saved mp' (h.pools.symm ▸ hmem)
    have hprev : (m.hdr mp').prev = 0 := by rw [hhdr]
    -- `mp_new` stores `prev = NULL`, so the chain is empty
    cases hchain : L.chain mp' with
    | nil =>
        simp only [bottom]
        rw [hhdr, newDescriptor, ptrAdd_of_lt hplaced.2]
    | cons c cs =>
        rw [hchain] at hsaved
        exact absurd (hsaved.1.symm.trans hprev) hsaved.2.1
  apply poolMachine.throughout_iff_meets_of_meets
    (A := fun _ e => e.Unique ∧ ∀ clean, e ≠ .delete mp' clean)
    (I := fun s => PlacesInv s ∧ mp' ∈ s.pools) _ ⟨hinv, hmem⟩ hstart
    (poolMachine.meets_of_forall fun e he => ⟨hunique e he, fun clean heq => hkept clean (heq ▸ he)⟩)
    hexec
  rintro s e s' ⟨h, hmem⟩ hfrees ⟨hunique, hkept⟩ hstep
  exact ⟨fun _ => ⟨h.step hunique hstep, poolStep_mem_pools hmem hkept hstep⟩,
    poolStep_freesToNew h hmem hlt hpos hplaced hfrees hunique hkept hstep⟩

/-- A pool behind `mp_new`. -/
def opened (nbytes : ℕ) : PoolState :=
  (poolStep PoolState.init (.new gapMemalign nbytes)).getD PoolState.init

/-- Requests of so many bytes, each followed by `mp_free`. -/
def rounds (sizes : List ℕ) : List PoolOp :=
  sizes.flatMap fun size => [.alloc gapMemalign 16 size, .free 16]

theorem rounds_unique (sizes : List ℕ) : ∀ e ∈ rounds sizes, e.Unique := by
  intro e he f hf
  obtain ⟨size, -, hmem⟩ := List.mem_flatMap.mp he
  simp only [List.mem_cons, List.not_mem_nil, or_false] at hmem
  rcases hmem with rfl | rfl
  · obtain rfl := Option.some.inj hf
    exact gapMemalign_unique
  · cases hf

theorem rounds_kept (sizes : List ℕ) : ∀ clean, .delete 16 clean ∉ rounds sizes := by
  intro clean he
  obtain ⟨size, -, hmem⟩ := List.mem_flatMap.mp he
  simp at hmem

/-- Requests that are larger than the base block. -/
theorem freesToNew_larger :
    poolMachine.Throughout (FreesToNew 16 8) (opened 8) (rounds [9, 12]) := by
  obtain ⟨t, hexec⟩ : ∃ t, poolMachine.exec (opened 8) (rounds [9, 12]) = some t :=
    Option.isSome_iff_exists.mp (by decide +kernel)
  have hnew : poolStep PoolState.init (.new gapMemalign 8) = some (opened 8) :=
    (Option.getD_of_ne_none (by decide +kernel) _).symm
  have hinit : poolMachine.exec PoolState.init [] = some PoolState.init := rfl
  exact (cycles_freesToNew_iff (by simp) (rounds_unique _) gapMemalign_unique (by decide) hinit hnew
    (by decide +kernel) (rounds_kept _) hexec).mpr (by decide +kernel)

/-- A request of 10 bytes from the base block: `mp_free` leaves 54 of 64. -/
theorem not_freesToNew_fits : ∃ s,
    poolMachine.exec (opened 64) (rounds [10]) = some s ∧
      ¬ poolMachine.Throughout (FreesToNew 16 64) (opened 64) (rounds [10]) := by
  have hrun : ((poolMachine.exec (opened 64) (rounds [10])).map
      fun s => (mpFree s.heap.begin 16).map fun m => mpHasLeft m 16) = some (some 54) := by
    decide +kernel
  obtain ⟨s, hexec, hleft⟩ := Option.map_eq_some_iff.mp hrun
  refine ⟨s, hexec, fun hall => ?_⟩
  obtain ⟨m, hfree, -, hfull⟩ := Machine.Throughout.final poolMachine hall hexec
  rw [hfree, Option.map_some, hfull] at hleft
  exact absurd hleft (by decide)

end Gfhttpd.Mem
