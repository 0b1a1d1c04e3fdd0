import Gfhttpd.Http3.Server
import Gfhttpd.Lib.Ledger
import Gfhttpd.Mem.Returned

/-!
# What a connection acquires, and what its teardown releases (`main/http3/http3.c`)

`Life` is a connection from `create_conn` on, with its pool among those of the process and with the
strings that `strndup` has returned for it.  `http3_connection_cleanup` is at the end of a life.

- `owed`, `paid`: the releases that are due, and those that are made until the end
- `TornDown`: the ledger is settled, and the pool is left alone once it is freed
- `settled_iff`: the lives whose ledger is settled
- `not_tornDown`: `mp_delete` stores to `hs->mp` behind the `free` of the block that `hs` is in
-/

namespace Gfhttpd.Http3

open Http Conf Ledger Mem Router Modules Transition

variable {Code : Type}

/-! ## Strings -/

/-- Where a string of `strndup` goes: to a pointer of `hs->request`, or to a table entry. -/
inductive Slot where
  | url
  | method
  | scheme
  | authority
  | header
deriving DecidableEq, Repr

/-- The strings of a connection, numbered in the order they were made. -/
structure Strings where
  /-- where each of them went -/
  slots : List Slot
  url : Option ℕ
  method : Option ℕ
  scheme : Option ℕ
  authority : Option ℕ
deriving DecidableEq, Repr

/-- No string. -/
def Strings.empty : Strings := ⟨[], none, none, none, none⟩

/-- One `strndup`.  A pointer that is overwritten is not freed. -/
def Strings.push (s : Strings) (slot : Slot) : Strings :=
  let n := s.slots.length
  let s := { s with slots := s.slots ++ [slot] }
  match slot with
  | .url => { s with url := some n }
  | .method => { s with method := some n }
  | .scheme => { s with scheme := some n }
  | .authority => { s with authority := some n }
  | .header => s

/-- The calls of `strndup` in `for_each_header` on a field with this name. -/
def dupField (s : Strings) (name : Bytes) : Strings :=
  if name.head? = some 58 then
    if name.tail = ascii "path" then s.push .url
    else if name.tail = ascii "method" then s.push .method
    else if name.tail = ascii "scheme" then s.push .scheme
    else if name.tail = ascii "authority" then s.push .authority
    else s
  -- the name and the value
  else (s.push .header).push .header

/-- The fields up to the first nonzero result. -/
def dupFields : List (Bytes × Bytes) → HttpStream → Strings → Strings
  | [], _, s => s
  | f :: fs, hs, s =>
      match forEachHeader hs f.1 f.2 with
      | (rc, hs) => if rc ≠ 0 then dupField s f.1 else dupFields fs hs (dupField s f.1)

/-- The pointer of `hs->request` to a string. -/
def Strings.pointer (s : Strings) : Slot → Option ℕ
  | .url => s.url
  | .method => s.method
  | .scheme => s.scheme
  | .authority => s.authority
  | .header => none

/-- The calls of `free` on the pointers of `hs->request`; `free(NULL)` does nothing. -/
def Strings.frees (s : Strings) : List ℕ :=
  [Slot.authority, .method, .url, .scheme].filterMap s.pointer

/-! ## Lives -/

/-- The size of the pool of a connection. -/
def POOL_SIZE : ℕ := 16 * 1024

/-- `sizeof(struct http_stream)` with 64-bit pointers. -/
def sizeofHttpStream : ℕ := 416

/-- `offsetof(struct http_stream, mp)`, behind three pointers and a `struct timeval`. -/
def offsetofMp : ℕ := 40

/-- `sizeof(struct http3_params)`. -/
def sizeofHttp3Params : ℕ := 16

/-- A connection with what it has acquired. -/
structure Life where
  conn : Conn
  /-- `http3_params->http3` is not `NULL` -/
  h3 : Bool
  strings : Strings
  /-- the pools of the process -/
  pools : PoolState
  /-- `hs->mp` -/
  mp : ℕ
  /-- `hs` -/
  addr : ℕ

/-- `create_conn`: a pool with the `http_stream` and the `http3_params` in it. -/
def createConn (memalign : Memalign) (sock : ℤ) (cid : Bytes) (s : PoolState) : Option Life :=
  match poolStep s (.new memalign POOL_SIZE) with
  | none => none
  | some s =>
      match s.pools.head? with
      | none => none
      | some mp =>
          match s.returned (.calloc memalign mp 1 sizeofHttpStream),
              poolStep s (.calloc memalign mp 1 sizeofHttpStream) with
          | some addr, some s =>
              match poolStep s (.calloc memalign mp 1 sizeofHttp3Params) with
              | none => none
              | some s =>
                  some { conn := Conn.create sock cid, h3 := false, strings := Strings.empty,
                         pools := s, mp := mp, addr := addr }
          | _, _ => none

/-- What happens during a life. -/
inductive LifeEvent (Code : Type) where
  | conn (e : ConnEvent Code)
  /-- `quiche_h3_conn_new_with_transport` -/
  | h3Conn
  /-- a call of `mem.h`, by this connection or elsewhere in the process -/
  | pool (e : PoolOp)

/-- The strings after an event of the connection. -/
def Strings.after (s : Strings) (c : Conn) : ConnEvent Code → Strings
  | .headers _ block _ => dupFields block c.hs s
  | _ => s

/-- The call empties or deletes the pool. -/
def endsPool (mp : ℕ) : PoolOp → Bool
  | .free mp' => mp' == mp
  | .delete mp' _ => mp' == mp
  | _ => false

/-- One event.  Until the teardown the pool is only asked for memory. -/
def lifeStep (routes : List (Route Code)) (l : Life) : LifeEvent Code → Option Life
  | .conn e =>
      (connStep routes l.conn e).map fun c => { l with conn := c, strings := l.strings.after l.conn e }
  | .h3Conn => if l.h3 then none else some { l with h3 := true }
  | .pool e =>
      if endsPool l.mp e then none else (poolStep l.pools e).map fun s => { l with pools := s }

/-- The runs of a life. -/
def lifeMachine (routes : List (Route Code)) : Machine Life (LifeEvent Code) := ⟨lifeStep routes⟩

/-! ## The teardown -/

/-- What `http3_connection_cleanup` has done. -/
structure Teardown where
  conn : Conn
  /-- the strings it called `free` with -/
  frees : List ℕ
  /-- it called `quiche_h3_conn_free` -/
  h3Freed : Bool
  /-- the memory behind `mp_delete` -/
  heap : Heap
  /-- the store `*ap = NULL`, which comes last -/
  store : ℕ × ℕ

/-- `http3_connection_cleanup`. -/
def Life.http3ConnectionCleanup (l : Life) : Option Teardown :=
  match l.conn.hs.timeoutEv with
  | none => none
  | some ev =>
      let c := l.conn.release
      -- `mp_delete(&hs->mp, true)`
      match mpDelete l.pools.heap.begin l.mp true with
      | none => none
      | some m =>
          some { conn := { c with world := c.world.freeEvent ev }, frees := l.strings.frees,
                 h3Freed := l.h3, heap := m, store := (l.addr + offsetofMp, 8) }

/-- A call that gives something back. -/
inductive Release where
  | mpDelete
  | connFree
  | h3ConnFree
  | eventFree (ev : ℕ)
  | free (string : ℕ)
  | close (fd : ℕ)
deriving DecidableEq, Repr

/-- The event of a release. -/
def Release.event : Release → Option ℕ
  | .eventFree ev => some ev
  | _ => none

/-- The string of a release. -/
def Release.string : Release → Option ℕ
  | .free string => some string
  | _ => none

/-- The descriptor of a release. -/
def Release.fd : Release → Option ℕ
  | .close fd => some fd
  | _ => none

/-- The releases that are due at the end of a life: for the pool, the objects of `quiche`, every
event of `evtimer_new`, every string of `strndup` and every descriptor. -/
def Life.owed (l : Life) : List Release :=
  [.mpDelete, .connFree] ++ (if l.h3 then [.h3ConnFree] else []) ++
    (List.range l.conn.world.nextEv).map .eventFree ++
    (List.range l.strings.slots.length).map .free ++
    (List.range l.conn.world.fds.length).map .close

/-- The releases from `create_conn` to the end of the teardown. -/
def Teardown.paid (t : Teardown) : List Release :=
  [.mpDelete, .connFree] ++ (if t.h3Freed then [.h3ConnFree] else []) ++
    t.conn.world.freed.map .eventFree ++ t.frees.map .free ++ t.conn.world.closes.map .close

/-- The base block of the pool. -/
def Life.base (l : Life) : ℕ × ℕ :=
  (l.mp, sizeofMemPool + POOL_SIZE)

/-- What is asked of the teardown. -/
structure TornDown (l : Life) (t : Teardown) : Prop where
  /-- everything that was acquired is released exactly once -/
  ledger : Settled l.owed t.paid
  /-- no write event, which is in the pool, is left to run -/
  quiet : ∀ fw ∈ t.conn.writers, fw.scheduled = false
  /-- the last store does not go to the base block when that is freed -/
  memory : l.mp ∈ t.heap.blocks.map Prod.fst ∨ Store.Apart t.store l.base

/-! ## The strings of a life -/

/-- A pointer is where its last string went. -/
structure Held (s : Strings) : Prop where
  slot : ∀ k n, s.pointer k = some n → s.slots[n]? = some k
  isSome : ∀ k ∈ s.slots, k ≠ .header → (s.pointer k).isSome

theorem Held.empty : Held Strings.empty where
  slot k n h := by cases k <;> cases h
  isSome k hk := by cases hk

theorem Strings.slots_push (s : Strings) (slot : Slot) :
    (s.push slot).slots = s.slots ++ [slot] := by
  cases slot <;> rfl

theorem Strings.pointer_push (s : Strings) {slot : Slot} (h : slot ≠ .header) :
    (s.push slot).pointer slot = some s.slots.length := by
  cases slot with
  | header => exact absurd rfl h
  | url | method | scheme | authority => rfl

theorem Strings.pointer_push_of_ne (s : Strings) {slot k : Slot} (h : k ≠ slot ∨ slot = .header) :
    (s.push slot).pointer k = s.pointer k := by
  cases slot <;> cases k <;> first | rfl | simp at h

theorem Held.push {s : Strings} (h : Held s) (slot : Slot) : Held (s.push slot) where
  slot := by
    intro k n hk
    rw [Strings.slots_push]
    by_cases hnew : k = slot ∧ slot ≠ .header
    · -- the pointer is to the string that was just made
      obtain ⟨rfl, hne⟩ := hnew
      rw [s.pointer_push hne] at hk
      obtain rfl := Option.some.inj hk
      exact List.getElem?_concat_length
    · -- the pointer is where it was
      rw [s.pointer_push_of_ne (not_and_or.mp hnew |>.imp_right not_not.mp)] at hk
      have hold := h.slot k n hk
      exact (List.getElem?_append_left (List.getElem?_eq_some_iff.mp hold).1).trans hold
  isSome := by
    intro k hk hne
    rw [Strings.slots_push] at hk
    by_cases hnew : k = slot
    · subst hnew
      rw [s.pointer_push hne]
      rfl
    · rw [s.pointer_push_of_ne (Or.inl hnew)]
      rcases List.mem_append.mp hk with hk | hk
      · exact h.isSome k hk hne
      · exact absurd (List.mem_singleton.mp hk) hnew

theorem Held.dupField {s : Strings} (h : Held s) (name : Bytes) : Held (dupField s name) := by
  unfold Http3.dupField
  split_ifs
  · exact h.push .url
  · exact h.push .method
  · exact h.push .scheme
  · exact h.push .authority
  · exact h
  · exact (h.push .header).push .header

theorem Held.dupFields {s : Strings} (h : Held s) (fs : List (Bytes × Bytes)) (hs : HttpStream) :
    Held (dupFields fs hs s) := by
  induction fs generalizing hs s with
  | nil => exact h
  | cons f fs ih =>
      rw [Http3.dupFields]
      dsimp only
      split_ifs
      · exact h.dupField f.1
      · exact ih (h.dupField f.1) _

theorem Held.after {s : Strings} (h : Held s) (c : Conn) (e : ConnEvent Code) :
    Held (s.after c e) := by
  cases e with
  | headers streamId block io => exact h.dupFields block c.hs
  | writeTick _ _ | moduleTick _ _ | close => exact h

theorem Strings.mem_frees {s : Strings} {n : ℕ} :
    n ∈ s.frees ↔ ∃ k, s.pointer k = some n := by
  rw [frees, List.mem_filterMap]
  constructor
  · rintro ⟨k, -, hk⟩
    exact ⟨k, hk⟩
  · rintro ⟨k, hk⟩
    refine ⟨k, ?_, hk⟩
    cases k with
    | header => cases hk
    | url | method | scheme | authority => simp

theorem Held.frees_nodup {s : Strings} (h : Held s) : s.frees.Nodup := by
  apply List.Nodup.filterMap _ (by decide)
  intro k k' n hk hk'
  exact Option.some.inj ((h.slot k n hk).symm.trans (h.slot k' n hk'))

/-- The strings are all freed exactly if none of them went to a table entry, and no pointer was
set twice. -/
theorem Held.settled_iff {s : Strings} (h : Held s) :
    Settled (List.range s.slots.length) s.frees ↔ s.slots.Nodup ∧ .header ∉ s.slots := by
  constructor
  · intro hsettled
    -- each string is freed through the pointer of its slot
    have hfreed : ∀ n k, s.slots[n]? = some k → s.pointer k = some n := by
      intro n k hk
      have hlt := (List.getElem?_eq_some_iff.mp hk).1
      obtain ⟨k', hk'⟩ :=
        Strings.mem_frees.mp (hsettled.mem_iff.mpr (List.mem_range.mpr hlt))
      obtain rfl := Option.some.inj ((h.slot k' n hk').symm.trans hk)
      exact hk'
    refine ⟨List.nodup_iff_getElem?_ne_getElem?.mpr fun i j hij hj heq => ?_, fun hheader => ?_⟩
    · -- a pointer is to one string only
      have hk : s.slots[j]? = some s.slots[j] := List.getElem?_eq_getElem hj
      have hi := hfreed i _ (heq.trans hk)
      have hj' := hfreed j _ hk
      exact absurd (Option.some.inj (hi.symm.trans hj')) (Nat.ne_of_lt hij)
    · obtain ⟨n, hn⟩ := List.mem_iff_getElem?.mp hheader
      cases hfreed n _ hn
  · rintro ⟨hnodup, hheader⟩
    apply (List.perm_ext_iff_of_nodup h.frees_nodup List.nodup_range).mpr
    intro n
    rw [Strings.mem_frees, List.mem_range]
    constructor
    · rintro ⟨k, hk⟩
      exact (List.getElem?_eq_some_iff.mp (h.slot k n hk)).1
    · intro hlt
      have hk : s.slots[n]? = some s.slots[n] := List.getElem?_eq_getElem hlt
      have hmem : s.slots[n] ∈ s.slots := List.getElem_mem hlt
      have hne : s.slots[n] ≠ .header := fun heq => hheader (heq ▸ hmem)
      obtain ⟨m, hm⟩ := Option.isSome_iff_exists.mp (h.isSome _ hmem hne)
      -- there is one string of this slot
      have hsame : m = n := by
        obtain ⟨hlt', heq⟩ := List.getElem?_eq_some_iff.mp (h.slot _ m hm)
        exact (hnodup.getElem_inj_iff).mp heq
      exact ⟨_, hsame ▸ hm⟩

/-! ## Every life -/

/-- What every step of a life keeps. -/
structure LifeInv (l : Life) : Prop where
  strings : Held l.strings
  /-- `hs` is the first structure of its pool -/
  addr : l.addr = l.mp + sizeofMemPool

/-- What `create_conn` has made. -/
theorem createConn_eq_some {memalign : Memalign} {sock : ℤ} {cid : Bytes} {s : PoolState} {l : Life}
    (h : createConn memalign sock cid s = some l) : ∃ s',
      poolStep s (.new memalign POOL_SIZE) = some s' ∧ s'.pools.head? = some l.mp ∧
      s'.returned (.calloc memalign l.mp 1 sizeofHttpStream) = some l.addr ∧
      l.strings = Strings.empty := by
  unfold createConn at h
  cases hnew : poolStep s (.new memalign POOL_SIZE) with
  | none => simp [hnew] at h
  | some s₁ =>
      cases hmp : s₁.pools.head? with
      | none => simp [hnew, hmp] at h
      | some mp =>
          simp only [hnew, hmp] at h
          split at h
          · next addr s₂ haddr _ =>
              split at h
              · cases h
              · obtain rfl := Option.some.inj h
                exact ⟨s₁, rfl, hmp, haddr, rfl⟩
          · cases h

theorem LifeInv.create {memalign : Memalign} {sock : ℤ} {cid : Bytes} {s : PoolState} {l : Life}
    (hunique : memalign.Unique) (h : createConn memalign sock cid s = some l) : LifeInv l := by
  obtain ⟨s', hnew, hmp, haddr, hstrings⟩ := createConn_eq_some h
  have hfirst := first_calloc hunique (by decide) (by decide) hnew hmp haddr
  exact ⟨hstrings ▸ Held.empty, hfirst.1⟩

theorem LifeInv.step {routes : List (Route Code)} {l l' : Life} {e : LifeEvent Code}
    (h : LifeInv l) (hstep : lifeStep routes l e = some l') : LifeInv l' := by
  cases e with
  | conn e =>
      obtain ⟨c, -, rfl⟩ := Option.map_eq_some_iff.mp hstep
      exact ⟨h.strings.after l.conn e, h.addr⟩
  | h3Conn =>
      simp only [lifeStep, Option.ite_none_left_eq_some, Option.some.injEq] at hstep
      obtain ⟨-, rfl⟩ := hstep
      exact ⟨h.strings, h.addr⟩
  | pool e =>
      simp only [lifeStep, Option.ite_none_left_eq_some] at hstep
      obtain ⟨s, -, rfl⟩ := Option.map_eq_some_iff.mp hstep.2
      exact ⟨h.strings, h.addr⟩

/-- What the teardown has done. -/
theorem cleanup_eq_some {l : Life} {t : Teardown} (h : l.http3ConnectionCleanup = some t) :
    ∃ ev m, l.conn.hs.timeoutEv = some ev ∧
      mpDelete l.pools.heap.begin l.mp true = some m ∧
      t = { conn := { l.conn.release with world := l.conn.world.freeEvent ev }
            frees := l.strings.frees, h3Freed := l.h3, heap := m
            store := (l.addr + offsetofMp, 8) } := by
  unfold Life.http3ConnectionCleanup at h
  cases hev : l.conn.hs.timeoutEv with
  | none => simp [hev] at h
  | some ev =>
      cases hdelete : mpDelete l.pools.heap.begin l.mp true with
      | none => simp [hev, hdelete] at h
      | some m =>
          simp only [hev, hdelete, Option.some.injEq] at h
          exact ⟨ev, m, rfl, rfl, h.symm⟩

/-- The base of a deleted pool is freed. -/
theorem mpDelete_base {m m' : Heap} {mp : ℕ} {clean : Bool} (h : mpDelete m mp clean = some m') :
    mp ∉ m'.blocks.map Prod.fst := by
  unfold mpDelete at h
  dsimp only at h
  split at h
  · cases h
  · obtain rfl := Option.some.inj h
    rw [List.mem_map]
    rintro ⟨x, hx, rfl⟩
    simpa using (List.mem_filter.mp hx).2

/-- The last store goes to the block that was freed before it. -/
theorem LifeInv.stores_freed {l : Life} {t : Teardown} (h : LifeInv l)
    (hclean : l.http3ConnectionCleanup = some t) :
    ¬ (l.mp ∈ t.heap.blocks.map Prod.fst ∨ Store.Apart t.store l.base) := by
  obtain ⟨ev, m, -, hdelete, rfl⟩ := cleanup_eq_some hclean
  rintro (hmem | hapart)
  · exact mpDelete_base hdelete hmem
  · -- `hs->mp` is 40 bytes behind the first structure of the pool
    have haddr := h.addr
    simp only [Store.Apart, Life.base, offsetofMp, sizeofMemPool, POOL_SIZE] at hapart haddr
    omega

/-- A ledger with events, strings and descriptors. -/
theorem settled_parts {first : List Release} {events events' strings strings' fds fds' : List ℕ} :
    Settled (first ++ events.map .eventFree ++ strings.map .free ++ fds.map .close)
        (first ++ events'.map .eventFree ++ strings'.map .free ++ fds'.map .close) ↔
      Settled events events' ∧ Settled strings strings' ∧ Settled fds fds' := by
  constructor
  · intro h
    simp only [List.append_assoc] at h
    have hrest := (List.perm_append_left_iff first).mp h
    have hevents := Settled.filterMap Release.event hrest
    have hstrings := Settled.filterMap Release.string hrest
    have hfds := Settled.filterMap Release.fd hrest
    simp only [List.filterMap_append, List.filterMap_map, Function.comp_def, Release.event,
      Release.string, Release.fd, List.filterMap_some, List.filterMap_none, List.append_nil,
      List.nil_append] at hevents hstrings hfds
    exact ⟨hevents, hstrings, hfds⟩
  · rintro ⟨hevents, hstrings, hfds⟩
    exact (((Settled.refl _).append (hevents.map _)).append (hstrings.map _)).append (hfds.map _)

/-- The ledger of a life is settled exactly if its strings, its events and its descriptors are. -/
theorem LifeInv.settled_iff {l : Life} {t : Teardown} (h : LifeInv l)
    (hclean : l.http3ConnectionCleanup = some t) :
    Settled l.owed t.paid ↔
      (l.strings.slots.Nodup ∧ .header ∉ l.strings.slots) ∧
      Settled (List.range l.conn.world.nextEv) t.conn.world.freed ∧
      ∀ fd < l.conn.world.fds.length, l.conn.world.closesOf fd = 1 := by
  obtain ⟨ev, m, -, -, rfl⟩ := cleanup_eq_some hclean
  -- `mp_delete` and the frees of `quiche` are on both sides
  rw [← h.strings.settled_iff, ← World.settled_closes_iff, and_left_comm]
  exact settled_parts

/-- **Whatever a connection has done, its teardown does not release what was acquired and leave the
pool alone after that.** -/
theorem not_tornDown {routes : List (Route Code)} {memalign : Memalign} {sock : ℤ} {cid : Bytes}
    {s : PoolState} {l₀ l : Life} {es : List (LifeEvent Code)} {t : Teardown}
    (hunique : memalign.Unique) (hcreate : createConn memalign sock cid s = some l₀)
    (hexec : (lifeMachine routes).exec l₀ es = some l)
    (hclean : l.http3ConnectionCleanup = some t) : ¬ TornDown l t := by
  have hinv : LifeInv l := (lifeMachine routes).exec_invariant
    (fun l e l' h hstep => h.step hstep) (LifeInv.create hunique hcreate) hexec
  exact fun h => hinv.stores_freed hclean h.memory

/-- A connection that is torn down with one request in the making. -/
def oneRequest (block : List (Bytes × Bytes)) : Option (Life × Teardown) :=
  (createConn gapMemalign 3 (ascii "0123456789abcdef") PoolState.init).bind fun l =>
    ((lifeMachine ([] : List (Route Unit))).exec l
      [.h3Conn, .conn (.headers 0 block (servesFile (ascii "hi")))]).bind fun l =>
        l.http3ConnectionCleanup.map fun t => (l, t)

theorem oneRequest_eq_some {block : List (Bytes × Bytes)} {l : Life} {t : Teardown}
    (h : oneRequest block = some (l, t)) : ∃ l₀ : Life, ∃ es : List (LifeEvent Unit),
      createConn gapMemalign 3 (ascii "0123456789abcdef") PoolState.init = some l₀ ∧
      (lifeMachine []).exec l₀ es = some l ∧ l.http3ConnectionCleanup = some t := by
  obtain ⟨l₀, hcreate, h⟩ := Option.bind_eq_some_iff.mp h
  obtain ⟨l', hexec, h⟩ := Option.bind_eq_some_iff.mp h
  obtain ⟨t', hclean, heq⟩ := Option.map_eq_some_iff.mp h
  obtain ⟨rfl, rfl⟩ := Prod.mk.inj heq
  exact ⟨l₀, _, hcreate, hexec, hclean⟩

theorem not_tornDown_path : ∃ l t, oneRequest [(ascii ":path", ascii "/a")] = some (l, t) ∧
    ¬ TornDown l t := by
  obtain ⟨⟨l, t⟩, h⟩ := Option.isSome_iff_exists.mp
    (show (oneRequest [(ascii ":path", ascii "/a")]).isSome by decide +kernel)
  obtain ⟨l₀, es, hcreate, hexec, hclean⟩ := oneRequest_eq_some h
  exact ⟨l, t, h, not_tornDown gapMemalign_unique hcreate hexec hclean⟩

/-- The name and the value of an ordinary field are not freed. -/
theorem header_not_released : ∃ l t,
    oneRequest [(ascii ":path", ascii "/a"), (ascii "cookie", ascii "b")] = some (l, t) ∧
      l.strings.slots = [.url, .header, .header] ∧ ¬ TornDown l t := by
  have hrun : (oneRequest [(ascii ":path", ascii "/a"), (ascii "cookie", ascii "b")]).map
      (fun r => r.1.strings.slots) = some [.url, .header, .header] := by decide +kernel
  obtain ⟨⟨l, t⟩, h, hslots⟩ := Option.map_eq_some_iff.mp hrun
  obtain ⟨l₀, es, hcreate, hexec, hclean⟩ := oneRequest_eq_some h
  have hinv : LifeInv l := (lifeMachine []).exec_invariant
    (fun l e l' h hstep => h.step hstep) (LifeInv.create gapMemalign_unique hcreate) hexec
  refine ⟨l, t, h, hslots, fun htorn => ?_⟩
  obtain ⟨⟨-, hheader⟩, -⟩ := (hinv.settled_iff hclean).mp htorn.ledger
  rw [show l.strings.slots = [.url, .header, .header] from hslots] at hheader
  exact absurd hheader (by decide)

end Gfhttpd.Http3
