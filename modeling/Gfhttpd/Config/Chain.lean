import Gfhttpd.Config.Walk
import Gfhttpd.Mem.Search

/-!
# The chain that `locations_parser` builds (`main/config/config.c`)

For each element of a `modules` array `locations_parser` takes a `struct modules_chain` and a
`struct module` from the pool of the configuration, and links the first one behind the `previous`
one.  Here these structures are stored at the addresses that the pool returns.

- `modulesLoop`, `readLocationIn`, `locationsParserIn`: `locations_parser` with its memory
- `HasChain`: a pointer with the chain of these modules behind it, which ends in `NULL`
- `BuilderInv`: the invariant of the loop that builds a chain
- `readLocationIn_spec`: the chain of a location object is the one of `readLocation`
-/

namespace Gfhttpd.Conf

open Http Store
open Mem (Memalign PoolState PoolInv PoolOp LiveBlock poolStep)

/-! ## The memory -/

/-- `struct modules_chain`: the addresses of a module and of the next node. -/
structure ChainNode where
  module : ℕ
  next : ℕ
deriving DecidableEq

/-- The pools, and the structures that are stored in their blocks. -/
structure ChainMemory where
  pool : PoolState
  node : ℕ → ChainNode
  module : ℕ → Module

/-- `sizeof(struct modules_chain)`: two pointers. -/
def sizeofModulesChain : ℕ := 16

/-- `sizeof(struct module)`: the name and an `enum`. -/
def sizeofModule : ℕ := 20

/-- `sizeof(struct route)`: two pointers, a padded `int`, a pointer and a `UT_hash_handle`. -/
def sizeofRoute : ℕ := 88

namespace ChainMemory

/-- `mp_calloc(mp, 1, size)`. -/
def calloc (memalign : Memalign) (mp size : ℕ) (m : ChainMemory) : Option (ℕ × ChainMemory) :=
  match m.pool.returned (.calloc memalign mp 1 size), poolStep m.pool (.calloc memalign mp 1 size) with
  | some p, some pool => some (p, { m with pool := pool })
  | _, _ => none

def setNode (m : ChainMemory) (p : ℕ) (n : ChainNode) : ChainMemory :=
  { m with node := Function.update m.node p n }

def setModule (m : ChainMemory) (p : ℕ) (md : Module) : ChainMemory :=
  { m with module := Function.update m.module p md }

/-- `if (previous != NULL) previous->next = p`. -/
def link (m : ChainMemory) (previous p : ℕ) : ChainMemory :=
  if previous ≠ 0 then m.setNode previous { m.node previous with next := p } else m

/-- A `struct modules_chain` of zeros. -/
def callocNode (memalign : Memalign) (mp : ℕ) (m : ChainMemory) : Option (ℕ × ChainMemory) :=
  match m.calloc memalign mp sizeofModulesChain with
  | none => none
  | some (p, m) => some (p, m.setNode p ⟨0, 0⟩)

/-- A `struct module` of zeros. -/
def callocModule (memalign : Memalign) (mp : ℕ) (m : ChainMemory) : Option (ℕ × ChainMemory) :=
  match m.calloc memalign mp sizeofModule with
  | none => none
  | some (p, m) => some (p, m.setModule p ⟨[], .golang⟩)

/-- What `insert_route` asks of the pool: the route, and a copy of its path. -/
def insertRoute (memalign : Memalign) (mp : ℕ) (path : Bytes) (nPath : ℕ) (m : ChainMemory) :
    Option ChainMemory :=
  match m.calloc memalign mp sizeofRoute with
  | none => none
  | some (_, m) =>
      match poolStep m.pool (.strndup memalign mp (fun o => path.getD o 0) nPath) with
      | none => none
      | some pool => some { m with pool := pool }

end ChainMemory

/-! ## `locations_parser` -/

/-- `first` and `previous`, and the memory. -/
structure Builder where
  first : ℕ
  previous : ℕ
  mem : ChainMemory

/-- The body of the loop over `m_idx`. -/
def moduleRound (memalign : Memalign) (mp : ℕ) (json : Bytes) (tok : Tok) (s : Builder) :
    Option Builder :=
  match s.mem.callocNode memalign mp with
  | none => none
  | some (mChain, m) =>
      let first := if s.first = 0 then mChain else s.first
      match m.callocModule memalign mp with
      | none => none
      | some (module, m) =>
          let m := m.setNode mChain { m.node mChain with module := module }
          let m := m.setModule module ⟨tok.print json MODULE_NAME, .golang⟩
          some ⟨first, mChain, m.link s.previous mChain⟩

/-- The loop over `m_idx`, on the elements behind the token `keys`. -/
def modulesLoop (memalign : Memalign) (mp : ℕ) (json : Bytes) (t : ℕ → Tok) (keys : ℕ) :
    List ℕ → Builder → Option Builder
  | [], s => some s
  | i :: is, s =>
      match moduleRound memalign mp json (t (keys + 1 + i)) s with
      | none => none
      | some s => modulesLoop memalign mp json t keys is s

/-- The `struct route` a location object is read into. -/
structure LocationIn where
  path : ℕ
  nPath : ℕ
  modulesChain : ℕ

/-- The loop over `h`, as in `readLocationLoop`. -/
def readLocationLoopIn (memalign : Memalign) (mp : ℕ) (json : Bytes) (t : ℕ → Tok) (location : ℕ) :
    ℕ → ℕ → LocationIn → ChainMemory → Option (LocationIn × ChainMemory)
  | 0, _, r, m => some (r, m)
  | fuel + 1, h, r, m =>
      if h ≤ (t location).size then
        let keys := location + 1 + h
        if jsoneq json (t keys) (ascii "location") then
          let tok := t (keys + 1)
          readLocationLoopIn memalign mp json t location fuel (h + 2)
            { r with path := tok.start, nPath := tok.stop - tok.start } m
        else if jsoneq json (t keys) (ascii "modules") then
          match modulesLoop memalign mp json t (keys + 1) (List.range (t (keys + 1)).size) ⟨0, 0, m⟩ with
          | none => none
          | some s =>
              readLocationLoopIn memalign mp json t location fuel (h + 2)
                { r with modulesChain := s.first } s.mem
        else
          readLocationLoopIn memalign mp json t location fuel (h + 1) r m
      else some (r, m)

def readLocationIn (memalign : Memalign) (mp : ℕ) (json : Bytes) (t : ℕ → Tok) (location : ℕ)
    (m : ChainMemory) : Option (LocationIn × ChainMemory) :=
  readLocationLoopIn memalign mp json t location ((t location).size + 1) 0 ⟨0, 0, 0⟩ m

/-- The location object at a token, and the chain that was built for it. -/
structure Built where
  location : ℕ
  modulesChain : ℕ

/-- The loop over `j`: the objects it comes to, with their chains, and the memory it leaves. -/
def locationsLoopIn (memalign : Memalign) (mp : ℕ) (json : Bytes) (t : ℕ → Tok) (locations : ℕ) :
    ℕ → ℕ → ChainMemory → Option (List Built × ChainMemory)
  | 0, _, m => some ([], m)
  | left + 1, j, m =>
      let location := locations + j + 1
      if (t location).type = .object then
        match readLocationIn memalign mp json t location m with
        | none => none
        | some (r, m) =>
            if r.modulesChain = 0 ∨ r.nPath = 0 then some ([⟨location, r.modulesChain⟩], m)
            else
              match m.insertRoute memalign mp (json.drop r.path) r.nPath with
              | none => none
              | some m =>
                  match locationsLoopIn memalign mp json t locations left (j + 1) m with
                  | none => none
                  | some (built, m) => some (⟨location, r.modulesChain⟩ :: built, m)
      else some ([], m)

/-- `locations_parser`. -/
def locationsParserIn (memalign : Memalign) (mp : ℕ) (json : Bytes) (t : ℕ → Tok) (i : ℕ)
    (m : ChainMemory) : Option (List Built × ChainMemory) :=
  if (t (i + 1)).type ≠ .array then some ([], m)
  else locationsLoopIn memalign mp json t (i + 1) (t (i + 1)).size 0 m

/-! ## Blocks of the pool -/

/-- A block that is in use begins at this address. -/
def Taken (s : PoolState) (a : ℕ) : Prop :=
  ∃ B ∈ s.live, B.addr = a ∧ 0 < B.size

/-- A new block at `p`, and every block that was in use. -/
structure Takes (m m' : ChainMemory) (p : ℕ) : Prop where
  pool : PoolInv m'.pool
  pools : m'.pool.pools = m.pool.pools
  node : m'.node = m.node
  module : m'.module = m.module
  ne_zero : p ≠ 0
  new : ¬ Taken m.pool p
  taken : Taken m'.pool p
  kept : ∀ a, Taken m.pool a → Taken m'.pool a

theorem ChainMemory.calloc_takes {memalign : Memalign} {mp size p : ℕ} {m m' : ChainMemory}
    (hpool : PoolInv m.pool) (hfresh : memalign.Fresh) (hpos : 0 < size)
    (hsize : Mem.sizeofMemPool + size < Mem.sizeMod)
    (h : m.calloc memalign mp size = some (p, m')) : Takes m m' p := by
  unfold calloc at h
  cases hret : m.pool.returned (.calloc memalign mp 1 size) with
  | none => simp [hret] at h
  | some ptr =>
      cases hstep : poolStep m.pool (.calloc memalign mp 1 size) with
      | none => simp [hret, hstep] at h
      | some pool =>
          simp only [hret, hstep, Option.some.injEq, Prod.mk.injEq] at h
          obtain ⟨rfl, rfl⟩ := h
          have hok : (PoolOp.calloc memalign mp 1 size).RequestOk := by
            simp only [PoolOp.RequestOk, Nat.one_mul]
            exact ⟨hfresh, hpos, hsize⟩
          have hpool' := (Mem.poolStep_spec hpool hok hstep).1
          obtain ⟨-, p, heap, hcall, rfl⟩ := Mem.allocated_eq_some hstep
          obtain rfl : p = ptr := by
            simpa [PoolState.returned, hcall] using hret
          have hsafe := hpool'.safe
          refine ⟨hpool', rfl, rfl, rfl, ?_, ?_, ?_, ?_⟩
          · -- the block is behind the header of a chunk
            obtain ⟨-, c, n, -, -, hin⟩ := hsafe.inside _ (List.mem_cons_self ..)
            have hlo : c + Mem.sizeofMemPool ≤ p := hin.1
            simp only [Mem.sizeofMemPool] at hlo
            omega
          · rintro ⟨B, hB, haddr, hBpos⟩
            have hapart := (List.pairwise_cons.mp hsafe.apart).1 B hB
            simp only [Apart, LiveBlock.range, haddr] at hapart
            omega
          · exact ⟨_, List.mem_cons_self .., rfl, by simpa using hpos⟩
          · rintro a ⟨B, hB, hBa⟩
            exact ⟨B, List.mem_cons_of_mem _ hB, hBa⟩

/-- A structure is stored in the new block. -/
theorem ChainMemory.calloc_store_takes {memalign : Memalign} {mp size p : ℕ} {m m' : ChainMemory}
    {f : ChainMemory → ℕ → ChainMemory} (hpool : PoolInv m.pool) (hfresh : memalign.Fresh)
    (hpos : 0 < size) (hsize : Mem.sizeofMemPool + size < Mem.sizeMod)
    (h : (match m.calloc memalign mp size with
      | none => none
      | some (p, m) => some (p, f m p)) = some (p, m')) :
    ∃ m₀, Takes m m₀ p ∧ m' = f m₀ p := by
  cases hcall : m.calloc memalign mp size with
  | none => simp [hcall] at h
  | some r =>
      obtain ⟨q, m₀⟩ := r
      simp only [hcall, Option.some.injEq, Prod.mk.injEq] at h
      obtain ⟨rfl, rfl⟩ := h
      exact ⟨m₀, calloc_takes hpool hfresh hpos hsize hcall, rfl⟩

theorem ChainMemory.callocNode_takes {memalign : Memalign} {mp p : ℕ} {m m' : ChainMemory}
    (hpool : PoolInv m.pool) (hfresh : memalign.Fresh) (h : m.callocNode memalign mp = some (p, m')) :
    ∃ m₀, Takes m m₀ p ∧ m' = m₀.setNode p ⟨0, 0⟩ :=
  calloc_store_takes (f := fun m p => m.setNode p ⟨0, 0⟩) hpool hfresh (by decide) (by decide) h

theorem ChainMemory.callocModule_takes {memalign : Memalign} {mp p : ℕ} {m m' : ChainMemory}
    (hpool : PoolInv m.pool) (hfresh : memalign.Fresh) (h : m.callocModule memalign mp = some (p, m')) :
    ∃ m₀, Takes m m₀ p ∧ m' = m₀.setModule p ⟨[], .golang⟩ :=
  calloc_store_takes (f := fun m p => m.setModule p ⟨[], .golang⟩) hpool hfresh (by decide)
    (by decide) h

/-! ## One module -/

/-- Linking a node changes one node. -/
theorem ChainMemory.link_eq (m : ChainMemory) (previous p : ℕ) :
    (m.link previous p).pool = m.pool ∧ (m.link previous p).module = m.module ∧
      (m.link previous p).node =
        if previous ≠ 0 then Function.update m.node previous { m.node previous with next := p }
        else m.node := by
  unfold link
  split
  · exact ⟨rfl, rfl, rfl⟩
  · exact ⟨rfl, rfl, rfl⟩

section Round

variable {memalign : Memalign} {mp : ℕ} {json : Bytes} {tok : Tok}

/-- What a round of the loop over `m_idx` has done: `a` is the new node, `b` its module. -/
structure RoundDone (json : Bytes) (tok : Tok) (s s' : Builder) (a b : ℕ) : Prop where
  first : s'.first = if s.first = 0 then a else s.first
  previous : s'.previous = a
  pool : PoolInv s'.mem.pool
  pools : s'.mem.pool.pools = s.mem.pool.pools
  ne_zero : a ≠ 0 ∧ b ≠ 0
  new : ¬ Taken s.mem.pool a ∧ ¬ Taken s.mem.pool b
  taken : Taken s'.mem.pool a ∧ Taken s'.mem.pool b
  kept : ∀ x, Taken s.mem.pool x → Taken s'.mem.pool x
  node : s'.mem.node = Function.update
    (if s.previous ≠ 0 then
      Function.update s.mem.node s.previous { s.mem.node s.previous with next := a }
    else s.mem.node) a ⟨b, 0⟩
  module : s'.mem.module =
    Function.update s.mem.module b ⟨tok.print json MODULE_NAME, .golang⟩

theorem moduleRound_done {s s' : Builder} (hpool : PoolInv s.mem.pool) (hfresh : memalign.Fresh)
    (hprevious : s.previous = 0 ∨ Taken s.mem.pool s.previous)
    (h : moduleRound memalign mp json tok s = some s') : ∃ a b, RoundDone json tok s s' a b := by
  unfold moduleRound at h
  cases hnode : s.mem.callocNode memalign mp with
  | none => simp [hnode] at h
  | some r =>
      obtain ⟨a, m₁⟩ := r
      cases hmodule : m₁.callocModule memalign mp with
      | none => simp [hnode, hmodule] at h
      | some r =>
          obtain ⟨b, m₂⟩ := r
          simp only [hnode, hmodule, Option.some.injEq] at h
          obtain rfl := h
          obtain ⟨m₀, htakes, rfl⟩ := ChainMemory.callocNode_takes hpool hfresh hnode
          obtain ⟨m₀', htakes', rfl⟩ := ChainMemory.callocModule_takes
            (m := m₀.setNode a ⟨0, 0⟩) htakes.pool hfresh hmodule
          -- the node in front of the new one is another
          have hne : s.previous ≠ 0 → s.previous ≠ a := fun h0 heq =>
            htakes.new (heq ▸ hprevious.resolve_left h0)
          have hnodes : m₀'.node = Function.update s.mem.node a ⟨0, 0⟩ := by
            rw [htakes'.node, ← htakes.node]
            rfl
          have hmodules : m₀'.module = s.mem.module := by
            rw [htakes'.module, ← htakes.module]
            rfl
          obtain ⟨hpool', hmodule', hnode'⟩ := ChainMemory.link_eq
            ((((m₀'.setModule b ⟨[], .golang⟩).setNode a ⟨b, (m₀'.node a).next⟩).setModule b
              ⟨tok.print json MODULE_NAME, .golang⟩)) s.previous a
          refine ⟨a, b, ⟨rfl, rfl, ?_, ?_, ⟨htakes.ne_zero, htakes'.ne_zero⟩,
            ⟨htakes.new, fun hb => htakes'.new (htakes.kept b hb)⟩, ?_, ?_, ?_, ?_⟩⟩
          · exact hpool' ▸ htakes'.pool
          · exact (congrArg _ hpool').trans (htakes'.pools.trans htakes.pools)
          · exact hpool' ▸ ⟨htakes'.kept a htakes.taken, htakes'.taken⟩
          · exact hpool' ▸ fun x hx => htakes'.kept x (htakes.kept x hx)
          · refine hnode'.trans ?_
            simp only [ChainMemory.setNode, ChainMemory.setModule, hnodes, Function.update_self,
              Function.update_idem]
            split
            · rename_i hlink
              rw [Function.update_of_ne (hne hlink), Function.update_comm (hne hlink)]
            · rfl
          · refine hmodule'.trans ?_
            simp only [ChainMemory.setNode, ChainMemory.setModule, hmodules, Function.update_idem]

variable {s s' : Builder} {a b : ℕ}

theorem RoundDone.node_new (h : RoundDone json tok s s' a b) : s'.mem.node a = ⟨b, 0⟩ := by
  rw [h.node, Function.update_self]

/-- The other nodes keep their modules. -/
theorem RoundDone.module_old (h : RoundDone json tok s s' a b) {x : ℕ} (hx : x ≠ a) :
    (s'.mem.node x).module = (s.mem.node x).module := by
  rw [h.node, Function.update_of_ne hx]
  split
  · by_cases heq : x = s.previous
    · rw [heq, Function.update_self]
    · rw [Function.update_of_ne heq]
  · rfl

/-- The nodes in front of the last one keep their links. -/
theorem RoundDone.next_old (h : RoundDone json tok s s' a b) {x : ℕ} (hx : x ≠ a)
    (hprevious : x ≠ s.previous) : (s'.mem.node x).next = (s.mem.node x).next := by
  rw [h.node, Function.update_of_ne hx]
  split
  · rw [Function.update_of_ne hprevious]
  · rfl

/-- The last node is linked to the new one. -/
theorem RoundDone.next_previous (h : RoundDone json tok s s' a b) (hne : s.previous ≠ a)
    (hlink : s.previous ≠ 0) : (s'.mem.node s.previous).next = a := by
  rw [h.node, Function.update_of_ne hne, if_pos hlink, Function.update_self]

end Round

/-! ## One chain -/

/-- The pointer has a chain of these modules behind it, which ends in `NULL`. -/
def HasChain (m : ChainMemory) (p : ℕ) (ms : List Module) : Prop :=
  ∃ nodes, Path (fun a => (m.node a).next) 0 p nodes ∧ (∀ a ∈ nodes, (m.node a).module ≠ 0) ∧
    (nodes.map fun a => m.module (m.node a).module) = ms

/-- There is one such chain. -/
theorem HasChain.unique {m : ChainMemory} {p : ℕ} {ms ms' : List Module} (h : HasChain m p ms)
    (h' : HasChain m p ms') : ms = ms' := by
  obtain ⟨nodes, hpath, -, rfl⟩ := h
  obtain ⟨nodes', hpath', -, rfl⟩ := h'
  rw [hpath.unique hpath']

theorem HasChain.null (m : ChainMemory) : HasChain m 0 [] :=
  ⟨[], rfl, nofun, rfl⟩

theorem HasChain.eq_nil_iff {m : ChainMemory} {p : ℕ} {ms : List Module} (h : HasChain m p ms) :
    ms = [] ↔ p = 0 := by
  constructor
  · rintro rfl
    obtain ⟨nodes, hpath, -, hnodes⟩ := h
    obtain rfl := List.map_eq_nil_iff.mp hnodes
    exact hpath
  · rintro rfl
    exact h.unique (.null m)

/-- In front of a round, `first` has the chain of the modules so far, and `previous` is its last
node.  Its blocks are in use. -/
structure BuilderInv (s : Builder) (nodes : List ℕ) (ms : List Module) : Prop where
  pool : PoolInv s.mem.pool
  path : Path (fun a => (s.mem.node a).next) 0 s.first nodes
  previous : s.previous = nodes.getLast?.getD 0
  nodeTaken : ∀ a ∈ nodes, Taken s.mem.pool a
  moduleTaken : ∀ a ∈ nodes, Taken s.mem.pool (s.mem.node a).module ∧ (s.mem.node a).module ≠ 0
  names : (nodes.map fun a => s.mem.module (s.mem.node a).module) = ms

theorem BuilderInv.init {m : ChainMemory} (hpool : PoolInv m.pool) : BuilderInv ⟨0, 0, m⟩ [] [] :=
  ⟨hpool, rfl, rfl, nofun, nofun, rfl⟩

section BuilderInv

variable {memalign : Memalign} {mp : ℕ} {json : Bytes} {s s' : Builder} {nodes : List ℕ}
  {ms : List Module}

/-- `previous` is the last node of the chain, or `NULL`. -/
theorem BuilderInv.getLast? (h : BuilderInv s nodes ms) :
    (nodes = [] ∧ s.previous = 0) ∨ nodes.getLast? = some s.previous := by
  rw [h.previous]
  cases hlast : nodes.getLast? with
  | none => exact Or.inl ⟨List.getLast?_eq_none_iff.mp hlast, rfl⟩
  | some a => exact Or.inr rfl

/-- A round adds the next module to the chain. -/
theorem BuilderInv.round {tok : Tok} (h : BuilderInv s nodes ms) (hfresh : memalign.Fresh)
    (hround : moduleRound memalign mp json tok s = some s') :
    (∃ a, BuilderInv s' (nodes ++ [a]) (ms ++ [readModule json tok])) ∧
      s'.mem.pool.pools = s.mem.pool.pools := by
  have hprevious : s.previous = 0 ∨ Taken s.mem.pool s.previous := by
    rcases h.getLast? with ⟨-, hzero⟩ | hlast
    · exact Or.inl hzero
    · exact Or.inr (h.nodeTaken _ (List.mem_of_getLast? hlast))
  obtain ⟨a, b, hdone⟩ := moduleRound_done h.pool hfresh hprevious hround
  -- the blocks of the chain are in use, and the new ones were not
  have hne : ∀ x ∈ nodes, x ≠ a := fun x hx heq => hdone.new.1 (heq ▸ h.nodeTaken x hx)
  have hneModule : ∀ x ∈ nodes, (s.mem.node x).module ≠ b := fun x hx heq =>
    hdone.new.2 (heq ▸ (h.moduleTaken x hx).1)
  have hold : ∀ x ∈ nodes, (s'.mem.node x).module = (s.mem.node x).module := fun x hx =>
    hdone.module_old (hne x hx)
  refine ⟨⟨a, hdone.pool, ?_, ?_, fun x hx => ?_, fun x hx => ?_, ?_⟩, hdone.pools⟩
  · rw [hdone.first]
    refine h.path.snoc hdone.ne_zero.1 (by rw [hdone.node_new]) (fun x hx => ?_) fun x hx hlast => ?_
    · rcases h.getLast? with ⟨rfl, -⟩ | hlast
      · cases hx
      · obtain rfl : s.previous = x := Option.some.inj (hlast.symm.trans hx)
        have hmem := List.mem_of_getLast? hlast
        exact hdone.next_previous (hne _ hmem) (h.path.ne_null hmem)
    · refine hdone.next_old (hne x hx) ?_
      rintro rfl
      rcases h.getLast? with ⟨rfl, -⟩ | hlast'
      · cases hx
      · exact hlast hlast'
  · rw [hdone.previous, List.getLast?_concat]
    rfl
  · rcases List.mem_append.mp hx with hx | hx
    · exact hdone.kept x (h.nodeTaken x hx)
    · obtain rfl := List.mem_singleton.mp hx
      exact hdone.taken.1
  · rcases List.mem_append.mp hx with hx | hx
    · rw [hold x hx]
      exact ⟨hdone.kept _ (h.moduleTaken x hx).1, (h.moduleTaken x hx).2⟩
    · obtain rfl := List.mem_singleton.mp hx
      rw [hdone.node_new]
      exact ⟨hdone.taken.2, hdone.ne_zero.2⟩
  · rw [List.map_append, List.map_singleton, hdone.node_new, hdone.module, Function.update_self,
      ← h.names]
    congr 1
    refine List.map_congr_left fun x hx => ?_
    rw [hold x hx, Function.update_of_ne (hneModule x hx)]

/-- The loop over `m_idx` builds the chain of the modules of `readModules`. -/
theorem BuilderInv.loop {t : ℕ → Tok} {keys : ℕ} {is : List ℕ} (h : BuilderInv s nodes ms)
    (hfresh : memalign.Fresh) (hloop : modulesLoop memalign mp json t keys is s = some s') :
    (∃ nodes', BuilderInv s' nodes' (ms ++ is.map fun i => readModule json (t (keys + 1 + i)))) ∧
      s'.mem.pool.pools = s.mem.pool.pools := by
  -- on the elements that are left
  induction is generalizing s nodes ms with
  | nil =>
      obtain rfl := Option.some.inj hloop
      rw [List.map_nil, List.append_nil]
      exact ⟨⟨nodes, h⟩, rfl⟩
  | cons i is ih =>
      rw [modulesLoop] at hloop
      cases hround : moduleRound memalign mp json (t (keys + 1 + i)) s with
      | none => simp [hround] at hloop
      | some s₁ =>
          simp only [hround] at hloop
          obtain ⟨⟨a, hinv⟩, hpools⟩ := h.round hfresh hround
          obtain ⟨hbuilt, hpools'⟩ := ih hinv hloop
          rw [List.append_assoc, List.singleton_append] at hbuilt
          exact ⟨hbuilt, hpools'.trans hpools⟩

theorem BuilderInv.hasChain (h : BuilderInv s nodes ms) : HasChain s.mem s.first ms :=
  ⟨nodes, h.path, fun a ha => (h.moduleTaken a ha).2, h.names⟩

end BuilderInv

/-! ## One location object -/

/-- The `struct route` holds what `readLocation` says, with its modules in a chain. -/
structure ReadAs (m : ChainMemory) (r : LocationIn) (o : Location) : Prop where
  path : r.path = o.path
  nPath : r.nPath = o.nPath
  chain : HasChain m r.modulesChain o.modulesChain

section ReadAs

variable {memalign : Memalign} {mp : ℕ} {json : Bytes} {t : ℕ → Tok} {location : ℕ}

theorem readLocationLoopIn_spec {fuel h : ℕ} {r r' : LocationIn} {o : Location} {m m' : ChainMemory}
    (hpool : PoolInv m.pool) (hfresh : memalign.Fresh) (hr : ReadAs m r o)
    (hloop : readLocationLoopIn memalign mp json t location fuel h r m = some (r', m')) :
    PoolInv m'.pool ∧ m'.pool.pools = m.pool.pools ∧
      ReadAs m' r' (readLocationLoop json t location fuel h o) := by
  induction fuel generalizing h r o m with
  | zero =>
      simp only [readLocationLoopIn, Option.some.injEq, Prod.mk.injEq] at hloop
      obtain ⟨rfl, rfl⟩ := hloop
      exact ⟨hpool, rfl, hr⟩
  | succ fuel ih =>
      rw [readLocationLoopIn] at hloop
      rw [readLocationLoop]
      by_cases hsize : h ≤ (t location).size
      · rw [if_pos hsize] at hloop ⊢
        dsimp only at hloop ⊢
        cases hloc : jsoneq json (t (location + 1 + h)) (ascii "location") with
        | true =>
            rw [hloc, if_pos rfl] at hloop
            rw [if_pos rfl]
            refine ih hpool ?_ hloop
            exact ⟨rfl, rfl, hr.chain⟩
        | false =>
            cases hmod : jsoneq json (t (location + 1 + h)) (ascii "modules") with
            | true =>
                rw [hloc, hmod, if_neg Bool.false_ne_true, if_pos rfl] at hloop
                rw [if_neg Bool.false_ne_true, if_pos rfl]
                cases hbuild : modulesLoop memalign mp json t (location + 1 + h + 1)
                    (List.range (t (location + 1 + h + 1)).size) ⟨0, 0, m⟩ with
                | none => simp [hbuild] at hloop
                | some s =>
                    simp only [hbuild] at hloop
                    -- the chain that was built before is dropped
                    obtain ⟨⟨nodes, hinv⟩, hpools⟩ := (BuilderInv.init hpool).loop hfresh hbuild
                    have hbuilt : ReadAs s.mem { r with modulesChain := s.first }
                        { o with modulesChain := readModules json t (location + 1 + h + 1) } :=
                      ⟨hr.path, hr.nPath, hinv.hasChain⟩
                    obtain ⟨hpool', hpools', hread⟩ := ih hinv.pool hbuilt hloop
                    exact ⟨hpool', hpools'.trans hpools, hread⟩
            | false =>
                rw [hloc, hmod, if_neg Bool.false_ne_true, if_neg Bool.false_ne_true] at hloop
                rw [if_neg Bool.false_ne_true, if_neg Bool.false_ne_true]
                exact ih hpool hr hloop
      · rw [if_neg hsize] at hloop ⊢
        obtain ⟨rfl, rfl⟩ := Prod.mk.inj (Option.some.inj hloop)
        exact ⟨hpool, rfl, hr⟩

/-- A location object is read into a route with the modules that `readLocation` says, in order, in a
chain of its own. -/
theorem readLocationIn_spec {r : LocationIn} {m m' : ChainMemory} (hpool : PoolInv m.pool)
    (hfresh : memalign.Fresh) (h : readLocationIn memalign mp json t location m = some (r, m')) :
    PoolInv m'.pool ∧ m'.pool.pools = m.pool.pools ∧ ReadAs m' r (readLocation json t location) :=
  readLocationLoopIn_spec hpool hfresh ⟨rfl, rfl, .null m⟩ h

end ReadAs

/-- The structures stay when a route is inserted. -/
theorem ChainMemory.insertRoute_same {memalign : Memalign} {mp nPath : ℕ} {path : Bytes}
    {m m' : ChainMemory} (h : m.insertRoute memalign mp path nPath = some m') :
    m'.node = m.node ∧ m'.module = m.module := by
  unfold insertRoute calloc at h
  split at h
  · cases h
  · rename_i p m₁ hroute
    split at hroute
    · obtain ⟨-, rfl⟩ := Prod.mk.inj (Option.some.inj hroute)
      split at h
      · cases h
      · obtain rfl := Option.some.inj h
        exact ⟨rfl, rfl⟩
    · cases hroute

theorem HasChain.congr {m m' : ChainMemory} {p : ℕ} {ms : List Module} (h : HasChain m p ms)
    (hsame : m'.node = m.node ∧ m'.module = m.module) : HasChain m' p ms := by
  obtain ⟨nodes, hchain⟩ := h
  refine ⟨nodes, ?_⟩
  rw [hsame.1, hsame.2]
  exact hchain

/-! ## A failed assertion -/

/-- `posix_memalign` fails for some request. -/
def Fails (memalign : Memalign) : Prop :=
  ∃ blocks size, memalign blocks size = none

section Fails

variable {memalign : Memalign} {mp : ℕ}

theorem ChainMemory.calloc_eq_none {size : ℕ} {m : ChainMemory} (hpool : PoolInv m.pool)
    (hmp : mp ∈ m.pool.pools) (hfresh : memalign.Fresh) (hpos : 0 < size)
    (hsize : Mem.sizeofMemPool + size < Mem.sizeMod) (h : m.calloc memalign mp size = none) :
    Fails memalign := by
  obtain ⟨L, hpool⟩ := hpool
  cases hcall : Mem.mpCalloc memalign m.pool.heap.begin mp 1 size with
  | none =>
      have hm : Mem.Represents m.pool.heap.begin L := hpool.represents.of_same rfl rfl rfl
      rw [← Nat.one_mul size] at hpos hsize
      exact ⟨_, _, hm.mpCalloc_eq_none (hpool.pools.symm ▸ hmp) hfresh hpos hsize hcall⟩
  | some r =>
      simp [calloc, PoolState.returned, poolStep, PoolState.allocated, hcall, hmp] at h

theorem moduleRound_eq_none {json : Bytes} {tok : Tok} {s : Builder} (hpool : PoolInv s.mem.pool)
    (hmp : mp ∈ s.mem.pool.pools) (hfresh : memalign.Fresh)
    (h : moduleRound memalign mp json tok s = none) : Fails memalign := by
  unfold moduleRound ChainMemory.callocNode at h
  cases hnode : s.mem.calloc memalign mp sizeofModulesChain with
  | none => exact ChainMemory.calloc_eq_none hpool hmp hfresh (by decide) (by decide) hnode
  | some r =>
      obtain ⟨a, m⟩ := r
      have htakes := ChainMemory.calloc_takes hpool hfresh (by decide) (by decide) hnode
      unfold ChainMemory.callocModule at h
      cases hmodule : (m.setNode a ⟨0, 0⟩).calloc memalign mp sizeofModule with
      | none =>
          have hmp' : mp ∈ (m.setNode a ⟨0, 0⟩).pool.pools := htakes.pools.symm ▸ hmp
          exact ChainMemory.calloc_eq_none (m := m.setNode a ⟨0, 0⟩) htakes.pool hmp' hfresh
            (by decide) (by decide) hmodule
      | some r => simp [hnode, hmodule] at h

theorem modulesLoop_eq_none {json : Bytes} {t : ℕ → Tok} {keys : ℕ} {is : List ℕ} {s : Builder}
    {nodes : List ℕ} {ms : List Module} (hinv : BuilderInv s nodes ms)
    (hmp : mp ∈ s.mem.pool.pools) (hfresh : memalign.Fresh)
    (h : modulesLoop memalign mp json t keys is s = none) : Fails memalign := by
  induction is generalizing s nodes ms with
  | nil => cases h
  | cons i is ih =>
      rw [modulesLoop] at h
      cases hround : moduleRound memalign mp json (t (keys + 1 + i)) s with
      | none => exact moduleRound_eq_none hinv.pool hmp hfresh hround
      | some s₁ =>
          simp only [hround] at h
          obtain ⟨⟨a, hinv₁⟩, hpools⟩ := hinv.round hfresh hround
          exact ih hinv₁ (hpools.symm ▸ hmp) h

theorem readLocationLoopIn_eq_none {json : Bytes} {t : ℕ → Tok} {location fuel h : ℕ} {r : LocationIn}
    {m : ChainMemory} (hpool : PoolInv m.pool) (hmp : mp ∈ m.pool.pools) (hfresh : memalign.Fresh)
    (hnone : readLocationLoopIn memalign mp json t location fuel h r m = none) : Fails memalign := by
  induction fuel generalizing h r m with
  | zero => cases hnone
  | succ fuel ih =>
      rw [readLocationLoopIn] at hnone
      split at hnone
      · dsimp only at hnone
        split at hnone
        · exact ih hpool hmp hnone
        · split at hnone
          · cases hbuild : modulesLoop memalign mp json t (location + 1 + h + 1)
                (List.range (t (location + 1 + h + 1)).size) ⟨0, 0, m⟩ with
            | none => exact modulesLoop_eq_none (.init hpool) hmp hfresh hbuild
            | some s =>
                simp only [hbuild] at hnone
                obtain ⟨⟨nodes, hinv⟩, hpools⟩ := (BuilderInv.init hpool).loop hfresh hbuild
                exact ih hinv.pool (hpools.symm ▸ hmp) hnone
          · exact ih hpool hmp hnone
      · cases hnone

theorem ChainMemory.insertRoute_eq_none {path : Bytes} {nPath : ℕ} {m : ChainMemory}
    (hpool : PoolInv m.pool) (hmp : mp ∈ m.pool.pools) (hfresh : memalign.Fresh)
    (hn : Mem.sizeofMemPool + (nPath + 1) < Mem.sizeMod)
    (h : m.insertRoute memalign mp path nPath = none) : Fails memalign := by
  unfold insertRoute at h
  cases hroute : m.calloc memalign mp sizeofRoute with
  | none => exact calloc_eq_none hpool hmp hfresh (by decide) (by decide) hroute
  | some r =>
      obtain ⟨p, m₁⟩ := r
      have htakes := calloc_takes hpool hfresh (by decide) (by decide) hroute
      obtain ⟨L, hpool₁⟩ := htakes.pool
      have hmp₁ : mp ∈ m₁.pool.pools := htakes.pools.symm ▸ hmp
      have hwrap : (nPath + 1) % Mem.sizeMod = nPath + 1 := Nat.mod_eq_of_lt (by omega)
      cases hcall : Mem.mpCalloc memalign m₁.pool.heap.begin mp (nPath + 1) 1 with
      | none =>
          have hm : Mem.Represents m₁.pool.heap.begin L := hpool₁.represents.of_same rfl rfl rfl
          have hpos : 0 < (nPath + 1) * 1 := Nat.mul_pos (Nat.succ_pos _) Nat.one_pos
          rw [← Nat.mul_one (nPath + 1)] at hn
          exact ⟨_, _, hm.mpCalloc_eq_none (hpool₁.pools.symm ▸ hmp₁) hfresh hpos hn hcall⟩
      | some r =>
          simp [hroute, poolStep, Mem.mpStrndup, hwrap, PoolState.allocated, hcall, hmp₁] at h

theorem ChainMemory.insertRoute_keeps {path : Bytes} {nPath : ℕ} {m m' : ChainMemory}
    (hpool : PoolInv m.pool) (hfresh : memalign.Fresh)
    (hn : Mem.sizeofMemPool + (nPath + 1) < Mem.sizeMod)
    (h : m.insertRoute memalign mp path nPath = some m') :
    PoolInv m'.pool ∧ m'.pool.pools = m.pool.pools := by
  unfold insertRoute at h
  cases hroute : m.calloc memalign mp sizeofRoute with
  | none => simp [hroute] at h
  | some r =>
      obtain ⟨p, m₁⟩ := r
      have htakes := calloc_takes hpool hfresh (by decide) (by decide) hroute
      cases hcopy : poolStep m₁.pool (.strndup memalign mp (fun o => path.getD o 0) nPath) with
      | none => simp only [hroute, hcopy, reduceCtorEq] at h
      | some pool =>
          simp only [hroute, hcopy, Option.some.injEq] at h
          obtain rfl := h
          have hok : (PoolOp.strndup memalign mp (fun o => path.getD o 0) nPath).RequestOk :=
            ⟨hfresh, hn⟩
          obtain ⟨hpool', -⟩ := Mem.poolStep_spec htakes.pool hok hcopy
          obtain ⟨-, ptr, heap, -, rfl⟩ := Mem.allocated_eq_some hcopy
          exact ⟨hpool', htakes.pools⟩

/-- The length of a path is that of a token. -/
theorem readLocation_nPath_lt {json : Bytes} {t : ℕ → Tok} {location : ℕ}
    (hint : ∀ k, (t k).stop < 2 ^ 31) :
    Mem.sizeofMemPool + ((readLocation json t location).nPath + 1) < Mem.sizeMod := by
  rw [readLocation_visits]
  dsimp only
  simp only [Mem.sizeofMemPool, Mem.sizeMod]
  split
  · rename_i h _
    have hlt := hint (location + 1 + h + 1)
    omega
  · omega

theorem locationsLoopIn_eq_none {json : Bytes} {t : ℕ → Tok} {locations left j : ℕ} {m : ChainMemory}
    (hpool : PoolInv m.pool) (hmp : mp ∈ m.pool.pools) (hfresh : memalign.Fresh)
    (hint : ∀ k, (t k).stop < 2 ^ 31)
    (hnone : locationsLoopIn memalign mp json t locations left j m = none) : Fails memalign := by
  -- on the elements that are left
  induction left generalizing j m with
  | zero => cases hnone
  | succ left ih =>
      rw [locationsLoopIn] at hnone
      split at hnone
      · cases hread : readLocationIn memalign mp json t (locations + j + 1) m with
        | none => exact readLocationLoopIn_eq_none hpool hmp hfresh hread
        | some r =>
            obtain ⟨r, m₁⟩ := r
            obtain ⟨hpool₁, hpools₁, hr⟩ := readLocationIn_spec hpool hfresh hread
            have hmp₁ : mp ∈ m₁.pool.pools := hpools₁.symm ▸ hmp
            have hn : Mem.sizeofMemPool + (r.nPath + 1) < Mem.sizeMod := by
              rw [hr.nPath]
              exact readLocation_nPath_lt hint
            simp only [hread] at hnone
            split at hnone
            · cases hnone
            · cases hinsert : m₁.insertRoute memalign mp (json.drop r.path) r.nPath with
              | none => exact ChainMemory.insertRoute_eq_none hpool₁ hmp₁ hfresh hn hinsert
              | some m₂ =>
                  obtain ⟨hpool₂, hpools₂⟩ :=
                    ChainMemory.insertRoute_keeps hpool₁ hfresh hn hinsert
                  cases hrest : locationsLoopIn memalign mp json t locations left (j + 1) m₂ with
                  | none => exact ih hpool₂ (hpools₂.symm ▸ hmp₁) hrest
                  | some built => simp [hinsert, hrest] at hnone
      · cases hnone

/-- `locations_parser` runs to its end, unless `posix_memalign` fails. -/
theorem locationsParserIn_eq_none {json : Bytes} {t : ℕ → Tok} {i : ℕ} {m : ChainMemory}
    (hpool : PoolInv m.pool) (hmp : mp ∈ m.pool.pools) (hfresh : memalign.Fresh)
    (hint : ∀ k, (t k).stop < 2 ^ 31) (h : locationsParserIn memalign mp json t i m = none) :
    Fails memalign := by
  unfold locationsParserIn at h
  split at h
  · cases h
  · exact locationsLoopIn_eq_none hpool hmp hfresh hint h

end Fails

end Gfhttpd.Conf
