import Gfhttpd.Http3.Receiver
import Gfhttpd.Lib.HandleTable
import Gfhttpd.Lib.Transition

/-!
# The connection table (`main/http_stream/http_stream.c`)

The connections are in a hash table whose handles are fields of the connections themselves.
`add_connection` copies a connection over the one that is in the table under the same id, with the
handle, and a new connection has a handle of zeros.

The hash table is a parameter, `U`; what it is relied on for is `HandleTable.Correct`.

- `callMachine`: the calls on a table, with the finite map that it is to be
- `connections_map`: a table whose handles are kept is that map
- `TableInv.lost`: a new connection copied over another is not found
-/

namespace Gfhttpd.Http3

open HandleTable Transition

/-! ## Connections -/

/-- `struct http_stream`, as the table sees it: the id, the handle, and all other fields. -/
structure Connection (V H : Type*) where
  cid : ConnId
  rest : V
  hh : H
deriving DecidableEq

/-- `head`, with the memory of the connections and of the table. -/
structure Connections (A V H T : Type*) where
  memory : A → Connection V H
  head : Option A
  mem : T

variable {A V H T : Type*} [DecidableEq A]

namespace Connections

/-- The ids of the connections. -/
def cid (c : Connections A V H T) : A → ConnId := fun a => (c.memory a).cid

/-- The other fields of the connections. -/
def rest (c : Connections A V H T) : A → V := fun a => (c.memory a).rest

/-- What the operations of the table work on. -/
def table (c : Connections A V H T) : Table A H T := ⟨fun a => (c.memory a).hh, c.head, c.mem⟩

/-- What they leave behind. -/
def store (c : Connections A V H T) (t : Table A H T) : Connections A V H T :=
  ⟨fun a => { c.memory a with hh := t.handle a }, t.head, t.mem⟩

/-- `*ptr = *hs`. -/
def write (c : Connections A V H T) (ptr : A) (hs : Connection V H) : Connections A V H T :=
  { c with memory := Function.update c.memory ptr hs }

section Write

variable {c : Connections A V H T} {ptr : A} {hs : Connection V H}

@[simp] theorem write_self : (c.write ptr hs).memory ptr = hs :=
  Function.update_self ..

@[simp] theorem write_of_ne {a : A} (h : a ≠ ptr) : (c.write ptr hs).memory a = c.memory a :=
  Function.update_of_ne h _ _

/-- A connection with the same id is written. -/
theorem cid_write (h : hs.cid = c.cid ptr) : (c.write ptr hs).cid = c.cid := by
  funext a
  by_cases ha : a = ptr
  · rw [ha, cid, write_self, h]
  · rw [cid, write_of_ne ha, cid]

end Write

variable (U : Ops A ConnId H T)

/-- `connections_iter`. -/
def connectionsIter (c : Connections A V H T) : Option A := c.head

/-- `HASH_ITER` over `connections_iter()`. -/
def iterated (c : Connections A V H T) : List A :=
  U.iter { c.table with head := c.connectionsIter }

/-- `get_connection`. -/
def getConnection (c : Connections A V H T) (cid : ConnId) : Option A :=
  U.find c.cid c.table cid

/-- `add_connection`. -/
def addConnection (c : Connections A V H T) (hs : A) : Connections A V H T :=
  match c.getConnection U (c.cid hs) with
  | none => c.store (U.add c.cid c.table hs)
  -- the whole struct, and so the handle as well
  | some ptr => c.write ptr (c.memory hs)

/-- `delete_connection`. -/
def deleteConnection (c : Connections A V H T) (hs : A) : Connections A V H T :=
  c.store (U.del c.table hs)

/-- `length_connection`. -/
def lengthConnection (c : Connections A V H T) : ℕ := U.count c.table

end Connections

section Calls

variable (U : Ops A ConnId H T)

/-! ## Runs -/

/-- A call.  To be added, a connection is filled in by the caller first, unless it is in the table. -/
inductive TableCall (A V H : Type*) where
  | add (a : A) (hs : Connection V H)
  | delete (a : A)
  | get (cid : ConnId)
  | length

/-- The table with the connections in it, and the map that it is to be. -/
structure TableRun (A V H T : Type*) where
  conns : Connections A V H T
  linked : List A
  map : Finmap fun _ : ConnId => V

/-- The connections when `add_connection` is called. -/
def TableRun.prepare (s : TableRun A V H T) (a : A) (hs : Connection V H) : Connections A V H T :=
  if a ∈ s.linked then s.conns else s.conns.write a hs

/-- One call.  `map` loses an entry only with a connection of the table. -/
def callStep (s : TableRun A V H T) : TableCall A V H → Option (TableRun A V H T)
  | .add a hs =>
      let conns := s.prepare a hs
      -- the connection gets into the table only if none with its id is there
      some
        { conns := conns.addConnection U a
          linked :=
            if (conns.getConnection U (conns.cid a)).isNone then s.linked ++ [a] else s.linked
          map := s.map.insert (conns.cid a) (conns.rest a) }
  | .delete a =>
      some
        { conns := s.conns.deleteConnection U a
          linked := s.linked.erase a
          map := if a ∈ s.linked then s.map.erase (s.conns.cid a) else s.map }
  | .get _ => some s
  | .length => some s

/-- The calls on a table. -/
def callMachine : Machine (TableRun A V H T) (TableCall A V H) := ⟨callStep U⟩

/-- At the start the table is empty; the memory may hold anything. -/
def TableRun.start (memory : A → Connection V H) : TableRun A V H T :=
  ⟨⟨memory, none, U.empty⟩, [], ∅⟩

/-- What the table is for: it is looked up, walked and counted like the map. -/
structure MapLaw (s : TableRun A V H T) : Prop where
  get : ∀ cid, (s.conns.getConnection U cid).map s.conns.rest = s.map.lookup cid
  iter : ↑((s.conns.iterated U).map fun a =>
    (⟨s.conns.cid a, s.conns.rest a⟩ : Sigma fun _ : ConnId => V)) = s.map.entries
  length : s.conns.lengthConnection U = s.map.keys.card

/-- The connection copied over has the handle of the copy, and what is deleted is in the table. -/
def HandlesKept (s : TableRun A V H T) : TableCall A V H → Prop
  | .add a hs =>
      ∀ ptr ∈ (s.prepare a hs).getConnection U ((s.prepare a hs).cid a),
        ((s.prepare a hs).memory ptr).hh = ((s.prepare a hs).memory a).hh
  -- `HASH_DEL` goes by the handle of whatever it is given
  | .delete a => a ∈ s.linked
  | .get _ => True
  | .length => True

instance [DecidableEq H] (s : TableRun A V H T) (e : TableCall A V H) :
    Decidable (HandlesKept U s e) := by
  cases e <;> unfold HandlesKept <;> infer_instance

end Calls

/-! ## The invariant -/

/-- The table is intact, its ids are unique, and the map is what its connections say. -/
structure TableInv (Intact : (A → ConnId) → Table A H T → List A → Prop) (s : TableRun A V H T) :
    Prop where
  intact : Intact s.conns.cid s.conns.table s.linked
  keys : (s.linked.map s.conns.cid).Nodup
  maps : Maps s.conns.cid s.conns.rest s.map s.linked

section Invariant

variable {U : Ops A ConnId H T} {Intact : (A → ConnId) → Table A H T → List A → Prop}
  {s : TableRun A V H T}

theorem TableInv.start (hU : Correct U Intact) (memory : A → Connection V H) :
    TableInv Intact (TableRun.start U memory) :=
  ⟨hU.empty _ _, List.nodup_nil, Maps.nil _ _⟩

/-- With the invariant, the table is the map. -/
theorem TableInv.law (hU : Correct U Intact) (h : TableInv Intact s) : MapLaw U s := by
  refine ⟨fun cid => ?_, ?_, ?_⟩
  · rw [Connections.getConnection, hU.find h.intact]
    exact h.maps.lookup cid
  · have hiter : s.conns.iterated U = s.linked := hU.iter h.intact
    rw [hiter]
    exact (h.maps.entries h.keys).symm
  · rw [Connections.lengthConnection, hU.count h.intact, Finmap.keys, Finset.card_mk, Multiset.keys,
      Multiset.card_map, h.maps.entries h.keys, Multiset.coe_card, List.length_map]

/-- Who is found is in the table, under that id. -/
theorem TableInv.found (hU : Correct U Intact) (h : TableInv Intact s) {cid : ConnId} {a : A}
    (hget : s.conns.getConnection U cid = some a) : a ∈ s.linked ∧ s.conns.cid a = cid := by
  rw [Connections.getConnection, hU.find h.intact] at hget
  have hkey := List.find?_some hget
  exact ⟨List.mem_of_find?_eq_some hget, by simpa using hkey⟩

/-- The caller fills in a connection that is not in the table. -/
theorem TableInv.prepare (hU : Correct U Intact) (h : TableInv Intact s) (a : A)
    (hs : Connection V H) : TableInv Intact { s with conns := s.prepare a hs } := by
  unfold TableRun.prepare
  split
  · exact h
  · next hnot =>
      have hsame : ∀ b ∈ s.linked, (s.conns.write a hs).memory b = s.conns.memory b := by
        intro b hb
        apply Connections.write_of_ne
        rintro rfl
        exact hnot hb
      have hcid : ∀ b ∈ s.linked, (s.conns.write a hs).cid b = s.conns.cid b := fun b hb =>
        congrArg Connection.cid (hsame b hb)
      refine ⟨?_, ?_, ?_⟩
      · exact hU.frame h.intact fun b hb => ⟨hcid b hb, congrArg Connection.hh (hsame b hb)⟩
      · show (s.linked.map _).Nodup
        rw [List.map_congr_left hcid]
        exact h.keys
      · exact h.maps.congr fun b hb => ⟨hcid b hb, congrArg Connection.rest (hsame b hb)⟩

/-- A connection with a new id is added. -/
theorem TableInv.add (hU : Correct U Intact) (h : TableInv Intact s) {a : A}
    (hget : s.conns.getConnection U (s.conns.cid a) = none) :
    TableInv Intact
      { conns := s.conns.store (U.add s.conns.cid s.conns.table a)
        linked := s.linked ++ [a]
        map := s.map.insert (s.conns.cid a) (s.conns.rest a) } := by
  rw [Connections.getConnection, hU.find h.intact] at hget
  -- nobody in the table has the id
  have hnew : ∀ b ∈ s.linked, s.conns.cid b ≠ s.conns.cid a := by
    intro b hb
    simpa using List.find?_eq_none.mp hget b hb
  have hnot : a ∉ s.linked := fun hmem => hnew a hmem rfl
  refine ⟨hU.add h.intact hnot hnew, ?_, h.maps.insert hnew⟩
  show ((s.linked ++ [a]).map s.conns.cid).Nodup
  rw [List.map_append]
  refine List.nodup_append.mpr ⟨h.keys, List.nodup_singleton _, ?_⟩
  intro cid hcid cid' hcid' heq
  obtain ⟨b, hb, rfl⟩ := List.mem_map.mp hcid
  exact hnew b hb (heq.trans (List.mem_singleton.mp hcid'))

/-- A connection is copied over the one that has its id. -/
theorem TableInv.copy (hU : Correct U Intact) (h : TableInv Intact s) {a ptr : A}
    (hget : s.conns.getConnection U (s.conns.cid a) = some ptr)
    (hhandle : (s.conns.memory ptr).hh = (s.conns.memory a).hh) :
    TableInv Intact
      { s with
        conns := s.conns.write ptr (s.conns.memory a)
        map := s.map.insert (s.conns.cid a) (s.conns.rest a) } := by
  obtain ⟨hmem, hkey⟩ := h.found hU hget
  -- neither the ids nor the handles change
  have hcid : (s.conns.write ptr (s.conns.memory a)).cid = s.conns.cid :=
    Connections.cid_write hkey.symm
  have hhh : ∀ b, ((s.conns.write ptr (s.conns.memory a)).memory b).hh = (s.conns.memory b).hh := by
    intro b
    by_cases hb : b = ptr
    · rw [hb, Connections.write_self, hhandle]
    · rw [Connections.write_of_ne hb]
  -- so the table is as intact as before, and only one value of the map changes
  refine ⟨?_, ?_, ?_⟩
  · exact hU.frame h.intact fun b _ => ⟨congrFun hcid b, hhh b⟩
  · show (s.linked.map (s.conns.write ptr (s.conns.memory a)).cid).Nodup
    rw [hcid]
    exact h.keys
  · show Maps (s.conns.write ptr (s.conns.memory a)).cid _ _ _
    rw [hcid, ← hkey]
    have hrest : s.conns.rest a = (s.conns.write ptr (s.conns.memory a)).rest ptr :=
      congrArg Connection.rest Connections.write_self.symm
    rw [hrest]
    exact h.maps.update h.keys hmem fun b _ hb =>
      congrArg Connection.rest (Connections.write_of_ne hb)

theorem TableInv.delete (hU : Correct U Intact) (h : TableInv Intact s) {a : A}
    (ha : a ∈ s.linked) :
    TableInv Intact
      { conns := s.conns.deleteConnection U a
        linked := s.linked.erase a
        map := s.map.erase (s.conns.cid a) } :=
  ⟨hU.del h.intact ha, h.keys.sublist (List.erase_sublist.map _), h.maps.erase h.keys ha⟩

theorem TableInv.step (hU : Correct U Intact) {s' : TableRun A V H T} {e : TableCall A V H}
    (h : TableInv Intact s) (hkept : HandlesKept U s e) (hstep : callStep U s e = some s') :
    TableInv Intact s' := by
  cases e with
  | add a hs =>
      have hprepared := h.prepare hU a hs
      cases hstep
      unfold Connections.addConnection
      cases hget : (s.prepare a hs).getConnection U ((s.prepare a hs).cid a) with
      | none => exact hprepared.add hU hget
      | some ptr => exact hprepared.copy hU hget (hkept ptr hget)
  | delete a =>
      have ha : a ∈ s.linked := hkept
      cases hstep
      rw [if_pos ha]
      exact h.delete hU ha
  | get cid =>
      cases hstep
      exact h
  | length =>
      cases hstep
      exact h

end Invariant

/-! ## The result -/

/-- **The table is the map after every call of a run in which no connection is copied over one with
another handle, and only connections of the table are deleted.** -/
theorem connections_map (U : Ops A ConnId H T)
    (Intact : (A → ConnId) → Table A H T → List A → Prop) (hU : Correct U Intact)
    (memory : A → Connection V H) (calls : List (TableCall A V H))
    (hkept : (callMachine U).Meets (HandlesKept U) (TableRun.start U memory) calls) :
    (callMachine U).Throughout (MapLaw U) (TableRun.start U memory) calls := by
  -- the invariant along the run, and what it says of each state
  have hinv := (callMachine U).throughout_of_meets (P := TableInv Intact)
    (fun s e s' h hC hstep => h.step hU hC hstep) (TableInv.start hU memory) hkept
  exact hinv.mono _ fun s h => h.law hU

/-- `HASH_BER`. -/
def hashBer (cid : ConnId) : ℕ :=
  cid.val.foldl (fun hashv b => hashv * 33 + b.toNat) 0

/-- The table with chains, for these ids. -/
abbrev connTable : Ops ℕ ConnId (Handle ℕ) (Buckets ℕ) := chained hashBer LOCAL_CONN_ID_LEN

/-- A connection as `mp_calloc` leaves its handle. -/
def fresh (b : UInt8) (rest : ℕ) : Connection ℕ (Handle ℕ) :=
  ⟨⟨List.replicate LOCAL_CONN_ID_LEN b, List.length_replicate⟩, rest, Handle.zero⟩

/-- No connection at all. -/
def blank : ℕ → Connection ℕ (Handle ℕ) := fun _ => fresh 0 0

/-- A new connection is copied over one of the table: there is none under its id any more. -/
theorem TableInv.lost {V : Type*} {s : TableRun ℕ V (Handle ℕ) (Buckets ℕ)}
    (h : TableInv (Intact hashBer LOCAL_CONN_ID_LEN) s) {a ptr : ℕ}
    (hget : s.conns.getConnection connTable (s.conns.cid a) = some ptr)
    (hnew : (s.conns.memory a).hh = Handle.zero) :
    (s.conns.addConnection connTable a).getConnection connTable (s.conns.cid a) = none := by
  obtain ⟨hmem, hkey⟩ := h.found (chained_correct _ _) hget
  have hadd : s.conns.addConnection connTable a = s.conns.write ptr (s.conns.memory a) := by
    unfold Connections.addConnection
    rw [hget]
  have hcid : (s.conns.write ptr (s.conns.memory a)).cid = s.conns.cid :=
    Connections.cid_write hkey.symm
  have hhandle : (fun b => ((s.conns.write ptr (s.conns.memory a)).memory b).hh) =
      Function.update s.conns.table.handle ptr Handle.zero := by
    funext b
    by_cases hb : b = ptr
    · rw [hb, Connections.write_self, Function.update_self, hnew]
    · rw [Connections.write_of_ne hb, Function.update_of_ne hb]
      rfl
  have htable : (s.conns.write ptr (s.conns.memory a)).table =
      { s.conns.table with handle := Function.update s.conns.table.handle ptr Handle.zero } := by
    rw [← hhandle]
    rfl
  -- the table with a handle of zeros
  rw [hadd, Connections.getConnection, hcid, htable, ← hkey]
  exact h.intact.lost hmem

/-- Connections come and go, and one of them is added again. -/
theorem connections_map_readded :
    (callMachine connTable).Throughout (MapLaw connTable) (TableRun.start connTable blank)
      [.add 0 (fresh 1 10), .add 1 (fresh 2 20), .add 1 (fresh 2 20), .delete 0, .length,
        .add 0 (fresh 3 30), .get (fresh 2 20).cid] :=
  connections_map connTable (Intact hashBer LOCAL_CONN_ID_LEN) (chained_correct _ _) blank _
    (by decide)

/-- Copied over a connection, a new one takes its place in the table away: nothing is found under
the id of both. -/
theorem connections_lost :
    Correct connTable (Intact hashBer LOCAL_CONN_ID_LEN) ∧
      ¬ (callMachine connTable).Throughout (MapLaw connTable) (TableRun.start connTable blank)
        [.add 0 (fresh 1 10), .add 1 (fresh 2 20), .add 2 (fresh 2 21)] := by
  refine ⟨chained_correct _ _, fun h => ?_⟩
  obtain ⟨-, h⟩ := h
  obtain ⟨-, h⟩ := h _ rfl
  obtain ⟨-, h⟩ := h _ rfl
  have hget := (h _ rfl).get (fresh 2 21).cid
  revert hget
  decide

end Gfhttpd.Http3
