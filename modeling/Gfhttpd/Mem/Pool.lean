import Mathlib.Algebra.Group.Int.Defs
import Mathlib.Algebra.Group.Nat.Defs
import Mathlib.Logic.Function.Basic

/-!
# The memory pool (`main/mem/mem.c`)

A pool is a base block from `posix_memalign` that starts with a `struct mem_pool` header.
The header of the base block is the *current descriptor* (`prev`, `avail`, `limit`); when an
allocation does not fit, `mp_alloc` pushes a chunk, saves the current descriptor in the
chunk's own header and lets the base describe the new chunk.  `mp_free` pops the chunks again
and caches up to `THRESHOLD` of them on the process-wide list `freechunks`, which is linked
through the `prev` word of the same headers and records each chunk's end in `limit`.

Memory is a typed store: `hdr a` is the `struct mem_pool` at address `a`, `bytes` is the
payload.  Addresses and sizes are natural numbers, and every sum the code computes in
`size_t` or on pointers is taken modulo `2 ^ 64`.

- `blocks` lists what `posix_memalign` has handed out and `free` has not taken back
- `writes` records, for the operation in progress, every range of bytes stored to

`posix_memalign` is a parameter of each operation: given the blocks in use and a size it
returns an address, or `none` when it fails (the code asserts that it does not).  A result
`none` of an operation is a failed assertion.
-/

namespace Gfhttpd.Mem

/-! ## Machine arithmetic -/

/-- One past the largest `size_t`. -/
def sizeMod : ℕ := 2 ^ 64

/-- `sizeof(struct mem_pool)`: three words. -/
def sizeofMemPool : ℕ := 24

/-- `p + n` on `char *`. -/
def ptrAdd (p n : ℕ) : ℕ := (p + n) % sizeMod

/-- `p - q` on `char *`, as the `size_t` it is compared with. -/
def ptrDiff (p q : ℕ) : ℕ := (p + sizeMod - q) % sizeMod

theorem ptrAdd_of_lt {p n : ℕ} (h : p + n < sizeMod) : ptrAdd p n = p + n :=
  Nat.mod_eq_of_lt h

theorem ptrDiff_of_le {p q : ℕ} (hq : q ≤ p) (hp : p < sizeMod) : ptrDiff p q = p - q := by
  have h : p + sizeMod - q = p - q + sizeMod := by omega
  rw [ptrDiff, h, Nat.add_mod_right]
  exact Nat.mod_eq_of_lt (by omega)

/-! ## The store -/

/-- `struct mem_pool`. -/
structure MemPool where
  prev : ℕ
  avail : ℕ
  limit : ℕ
deriving DecidableEq, Repr

/-- The memory `mem.c` works on, with its two globals. -/
structure Heap where
  /-- the `struct mem_pool` stored at an address -/
  hdr : ℕ → MemPool
  /-- the payload bytes -/
  bytes : ℕ → UInt8
  freechunks : ℕ
  nfree : ℤ
  /-- start and size of every block obtained from `posix_memalign` and not freed -/
  blocks : List (ℕ × ℕ)
  /-- start and length of every store of the operation in progress -/
  writes : List (ℕ × ℕ)

/-- Before the first call: no block, an empty cache. -/
def Heap.init : Heap where
  hdr := fun _ => ⟨0, 0, 0⟩
  bytes := fun _ => 0
  freechunks := 0
  nfree := 0
  blocks := []
  writes := []

/-- `posix_memalign(&p, ALIGNMENT, size)`, seen from the blocks in use and the size. -/
abbrev Memalign := List (ℕ × ℕ) → ℕ → Option ℕ

namespace Heap

/-- Store a `struct mem_pool` at `a`. -/
def store (m : Heap) (a : ℕ) (d : MemPool) : Heap :=
  { m with hdr := Function.update m.hdr a d, writes := m.writes ++ [(a, sizeofMemPool)] }

/-- Call `posix_memalign`; the caller asserts success. -/
def posixMemalign (m : Heap) (memalign : Memalign) (size : ℕ) : Option (ℕ × Heap) :=
  match memalign m.blocks size with
  | none => none
  | some a => some (a, { m with blocks := (a, size) :: m.blocks })

/-- `free(p)`. -/
def release (m : Heap) (p : ℕ) : Heap :=
  { m with blocks := m.blocks.filter (fun b => b.1 ≠ p) }

/-- `memset(p, '\0', n)`. -/
def memset (m : Heap) (p n : ℕ) : Heap :=
  { m with
    bytes := fun a => if p ≤ a ∧ a < p + n then 0 else m.bytes a
    writes := m.writes ++ [(p, n)] }

/-- `memcpy(p, s, n)`; the source is given by its bytes. -/
def memcpy (m : Heap) (p : ℕ) (s : ℕ → UInt8) (n : ℕ) : Heap :=
  { m with
    bytes := fun a => if p ≤ a ∧ a < p + n then s (a - p) else m.bytes a
    writes := m.writes ++ [(p, n)] }

/-- `p[0] = c`. -/
def poke (m : Heap) (p : ℕ) (c : UInt8) : Heap :=
  m.memcpy p (fun _ => c) 1

end Heap

/-! ## The operations -/

/-- `THRESHOLD`: how many chunks `mp_free` caches. -/
def THRESHOLD : ℤ := 10

/-- `ALIGNMENT`: what the blocks of `posix_memalign` are aligned to. -/
def ALIGNMENT : ℕ := 16

/-- `mp_new`: a base block with its own descriptor. -/
def mpNew (memalign : Memalign) (m : Heap) (nbytes : ℕ) : Option (ℕ × Heap) :=
  let size := (sizeofMemPool + nbytes) % sizeMod
  match m.posixMemalign memalign size with
  | none => none
  | some (mp, m) =>
      some (mp, m.store mp
        { avail := ptrAdd mp sizeofMemPool, limit := ptrAdd mp size, prev := 0 })

/-- The chunk one iteration of `mp_alloc` pushes, and its `limit`: the head of `freechunks`
if there is one, else a fresh block. -/
def takeChunk (memalign : Memalign) (m : Heap) (nbytes : ℕ) : Option (ℕ × ℕ × Heap) :=
  if m.freechunks ≠ 0 then
    -- whatever its size: the loop of `mp_alloc` looks at that afterwards
    let ptr := m.freechunks
    some (ptr, (m.hdr ptr).limit,
      { m with freechunks := (m.hdr ptr).prev, nfree := m.nfree - 1 })
  else
    let size := (sizeofMemPool + nbytes) % sizeMod
    match m.posixMemalign memalign size with
    | none => none
    | some (ptr, m) => some (ptr, ptrAdd ptr size, m)

/-- `*ptr = *mp`, then let `mp` describe the chunk `ptr`. -/
def pushChunk (m : Heap) (mp ptr limit : ℕ) : Heap :=
  (m.store ptr (m.hdr mp)).store mp
    { avail := ptrAdd ptr sizeofMemPool, limit := limit, prev := ptr }

/-- The `while` loop of `mp_alloc`.  Running out of fuel is not returning. -/
def mpAllocLoop (memalign : Memalign) (mp nbytes : ℕ) : ℕ → Heap → Option Heap
  | 0, _ => none
  | fuel + 1, m =>
      -- the difference is a `size_t` when it is compared
      if nbytes > ptrDiff (m.hdr mp).limit (m.hdr mp).avail then
        match takeChunk memalign m nbytes with
        | none => none
        | some (ptr, limit, m) => mpAllocLoop memalign mp nbytes fuel (pushChunk m mp ptr limit)
      else
        some m

/-- Iterations after which the loops of `mp_alloc` and `mp_free` have returned: neither the
cache nor a pool's chain has more chunks than there are blocks. -/
def Heap.fuel (m : Heap) : ℕ := m.blocks.length + 2

/-- `mp_alloc`. -/
def mpAlloc (memalign : Memalign) (m : Heap) (mp nbytes : ℕ) : Option (ℕ × Heap) :=
  -- `assert(mp)`, `assert(nbytes > 0)`
  if mp = 0 ∨ nbytes = 0 then none
  else
    match mpAllocLoop memalign mp nbytes m.fuel m with
    | none => none
    | some m =>
        let avail := ptrAdd (m.hdr mp).avail nbytes
        some (ptrDiff avail nbytes, m.store mp { m.hdr mp with avail := avail })

/-- `mp_calloc`. -/
def mpCalloc (memalign : Memalign) (m : Heap) (mp count nbytes : ℕ) : Option (ℕ × Heap) :=
  if count = 0 then none
  else
    -- the product may wrap around
    let size := (count * nbytes) % sizeMod
    match mpAlloc memalign m mp size with
    | none => none
    | some (ptr, m) => some (ptr, m.memset ptr size)

/-- `mp_strndup`. -/
def mpStrndup (memalign : Memalign) (m : Heap) (mp : ℕ) (s1 : ℕ → UInt8) (n : ℕ) :
    Option (ℕ × Heap) :=
  match mpCalloc memalign m mp ((n + 1) % sizeMod) 1 with
  | none => none
  | some (ret, m) => some (ret, (m.memcpy ret s1 n).poke (ptrAdd ret n) 0)

/-- The body of `mp_free`'s loop: unlink the newest chunk, cache or free it, and restore the
descriptor it saved. -/
def popChunk (m : Heap) (mp : ℕ) : Heap :=
  let ptr := (m.hdr mp).prev
  let tmp := m.hdr ptr
  let m :=
    if m.nfree < THRESHOLD then
      let m := m.store ptr { m.hdr ptr with prev := m.freechunks }
      let m := { m with freechunks := ptr, nfree := m.nfree + 1 }
      -- the end of the chunk, which only the base knows
      m.store m.freechunks { m.hdr m.freechunks with limit := (m.hdr mp).limit }
    else
      m.release ptr
  m.store mp tmp

/-- The `while` loop of `mp_free`. -/
def mpFreeLoop (mp : ℕ) : ℕ → Heap → Option Heap
  | 0, _ => none
  | fuel + 1, m =>
      if (m.hdr mp).prev ≠ 0 then mpFreeLoop mp fuel (popChunk m mp)
      else some m

/-- `mp_free`, with the assertions after its loop. -/
def mpFree (m : Heap) (mp : ℕ) : Option Heap :=
  if mp = 0 then none
  else
    match mpFreeLoop mp m.fuel m with
    | none => none
    | some m => if (m.hdr mp).limit ≠ 0 ∧ (m.hdr mp).avail ≠ 0 then some m else none

/-- `mp_delete`.  The store `*ap = NULL` comes last, and goes to the handle of the caller. -/
def mpDelete (m : Heap) (mp : ℕ) (clean : Bool) : Option Heap :=
  -- with a full cache `mp_free` gives every chunk back
  let m := if clean then { m with nfree := THRESHOLD } else m
  match mpFree m mp with
  | none => none
  | some m => some (m.release mp)

/-- `mp_has_left`. -/
def mpHasLeft (m : Heap) (mp : ℕ) : ℕ :=
  ptrDiff (m.hdr mp).limit (m.hdr mp).avail

end Gfhttpd.Mem
