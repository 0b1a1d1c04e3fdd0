import Gfhttpd.Config.Load
import Gfhttpd.Lib.Ledger
import Gfhttpd.Lib.Sweep
import Gfhttpd.Lib.Transition
import Gfhttpd.Mem.Places
import Gfhttpd.Mem.Safety
import Mathlib.Data.List.Range

/-!
# Giving the routes back (`main/config/routes.c`, `config_free`)

A route lives in the pool, and is gone with it; its compiled pattern does not, and has to be given
back to `pcre2`.  `delete_routes_all` does that in its loop over the table, `delete_route` does not.

- `RouteMemory`: the routes that were made, where they are, and whose pattern was given back
- `RouteMemory.Kept`: every compiled pattern is in one place: in the table, with the caller, or
  given back
- `patterns_released_iff`: when `delete_routes_all` leaves no pattern behind
- `config_free_releases`: after `conf_load` it does not
-/

namespace Gfhttpd.Conf

open HandleTable Http Ledger Loop Mem Transition
open scoped List

variable {Code : Type}

/-! ## The routes in memory -/

/-- The routes; each is known by the place in which it was made. -/
structure RouteMemory (Code : Type) where
  objs : List (Route Code)
  /-- the routes of the table, in the order of insertion -/
  table : List ℕ
  /-- the routes that only the caller has: created, or taken out of the table -/
  loose : List ℕ
  /-- the routes whose compiled pattern was given back -/
  freed : List ℕ

namespace RouteMemory

/-- No route has been made. -/
def init : RouteMemory Code := ⟨[], [], [], []⟩

/-- `r->re != NULL`.  The pointer stays when the pattern is given back. -/
def hasPattern (s : RouteMemory Code) (id : ℕ) : Bool :=
  (s.objs[id]?.bind Route.re).isSome

/-- The routes that were made with a compiled pattern. -/
def compiled (s : RouteMemory Code) : List ℕ :=
  (List.range s.objs.length).filter s.hasPattern

/-- The route behind this one in the table. -/
def nextRoute (s : RouteMemory Code) (id : ℕ) : Option ℕ :=
  (s.table.dropWhile (· != id)).tail.head?

/-- The body of the loop of `delete_routes_all`; `pcre2_code_free(NULL)` does nothing. -/
def freeRoute (s : RouteMemory Code) (id : ℕ) : RouteMemory Code :=
  { s with
    objs := s.objs.modify id fun r => { r with modulesChain := [] }
    table := s.table.erase id
    freed := if s.hasPattern id then s.freed ++ [id] else s.freed }

/-- The loop of `delete_routes_all`: `HASH_ITER` over the table. -/
def deleteLoop : While (Cursor ℕ (RouteMemory Code)) :=
  sweep nextRoute freeRoute

/-- `delete_routes_all`. -/
def deleteRoutesAll (s : RouteMemory Code) : Option (RouteMemory Code) :=
  (deleteLoop.run (s.table.length + 1) (.start (fun s => s.table.head?) nextRoute s)).map
    Cursor.state

end RouteMemory

/-- The calls that change the routes. -/
inductive RouteOp where
  | insert (path : Bytes) (nPath : ℕ) (m : List Module) (regex : Bool)
  | create (path : Bytes) (nPath : ℕ) (m : List Module) (regex : Bool)
  | add (id : ℕ)
  | delete (id : ℕ)
  | deleteAll

/-- One call.  A route is added that the caller has, and deleted that is in the table. -/
def routeStep (compile : Option Bytes → Option Code) (s : RouteMemory Code) :
    RouteOp → Option (RouteMemory Code)
  | .insert path nPath m regex =>
      some { s with
        objs := insertRoute compile s.objs path nPath m regex
        table := s.table ++ [s.objs.length] }
  | .create path nPath m regex =>
      some { s with
        objs := s.objs ++ [createRoute compile path nPath m regex]
        loose := s.objs.length :: s.loose }
  | .add id =>
      if id ∈ s.loose then some { s with table := s.table ++ [id], loose := s.loose.erase id }
      else none
  | .delete id =>
      if id ∈ s.table then some { s with table := s.table.erase id, loose := id :: s.loose }
      else none
  | .deleteAll => s.deleteRoutesAll

def routeMachine (compile : Option Bytes → Option Code) : Machine (RouteMemory Code) RouteOp :=
  ⟨routeStep compile⟩

/-! ## Every pattern is in one place -/

namespace RouteMemory

/-- No route is twice in the table and with the caller, and every compiled pattern was given back once,
or is the pattern of one of these routes. -/
structure Kept (s : RouteMemory Code) : Prop where
  nodup : (s.table ++ s.loose).Nodup
  made : ∀ id ∈ s.table ++ s.loose, id < s.objs.length
  ledger : Settled s.compiled (s.freed ++ (s.table ++ s.loose).filter s.hasPattern)

theorem Kept.init : (RouteMemory.init : RouteMemory Code).Kept :=
  ⟨List.nodup_nil, nofun, .refl _⟩

variable {s : RouteMemory Code}

theorem hasPattern_append (s : RouteMemory Code) (r : Route Code) {id : ℕ}
    (hid : id < s.objs.length) {table loose freed : List ℕ} :
    hasPattern ⟨s.objs ++ [r], table, loose, freed⟩ id = s.hasPattern id := by
  rw [hasPattern, List.getElem?_append_left hid]
  rfl

/-- A new route is in one place. -/
theorem Kept.make (h : s.Kept) (r : Route Code) {table loose : List ℕ}
    (hperm : (table ++ loose).Perm (s.objs.length :: (s.table ++ s.loose))) :
    Kept ⟨s.objs ++ [r], table, loose, s.freed⟩ := by
  have hnew : s.objs.length ∉ s.table ++ s.loose := fun hmem => (h.made _ hmem).ne rfl
  refine ⟨hperm.nodup_iff.mpr (List.nodup_cons.mpr ⟨hnew, h.nodup⟩), fun id hid => ?_, ?_⟩
  · -- the new route is the last object
    show id < (s.objs ++ [r]).length
    rw [List.length_append, List.length_singleton]
    rcases List.mem_cons.mp (hperm.subset hid) with rfl | hold
    · exact Nat.lt_succ_self _
    · exact Nat.lt_succ_of_lt (h.made id hold)
  · -- the patterns of the other routes stay where they are
    let s' : RouteMemory Code := ⟨s.objs ++ [r], table, loose, s.freed⟩
    let new := [s.objs.length].filter s'.hasPattern
    have hsame : ∀ l : List ℕ, (∀ id ∈ l, id < s.objs.length) →
        l.filter s'.hasPattern = l.filter s.hasPattern :=
      fun l hl => List.filter_congr fun id hid => hasPattern_append s r (hl id hid)
    have hcompiled : s'.compiled = s.compiled ++ new := by
      have hlen : s'.objs.length = s.objs.length + 1 := List.length_append
      rw [compiled, hlen, List.range_succ, List.filter_append,
        hsame _ fun id hid => List.mem_range.mp hid]
      rfl
    have hheld : (table ++ loose).filter s'.hasPattern ~
        new ++ (s.table ++ s.loose).filter s.hasPattern := by
      rw [← hsame _ h.made, ← List.filter_append]
      exact hperm.filter _
    show s.freed ++ (table ++ loose).filter s'.hasPattern ~ s'.compiled
    rw [hcompiled]
    calc
      _ ~ s.freed ++ (new ++ (s.table ++ s.loose).filter s.hasPattern) := hheld.append_left _
      _ ~ new ++ (s.freed ++ (s.table ++ s.loose).filter s.hasPattern) :=
        List.perm_append_comm_assoc ..
      _ ~ new ++ s.compiled := h.ledger.append_left _
      _ ~ s.compiled ++ new := List.perm_append_comm

/-- A route goes from one place to another. -/
theorem Kept.move (h : s.Kept) {table loose : List ℕ}
    (hperm : (table ++ loose).Perm (s.table ++ s.loose)) :
    Kept { s with table := table, loose := loose } :=
  ⟨hperm.nodup_iff.mpr h.nodup, fun id hid => h.made id (hperm.subset hid),
    ((hperm.filter _).append_left _).trans h.ledger⟩

theorem hasPattern_freeRoute (s : RouteMemory Code) (id : ℕ) :
    (s.freeRoute id).hasPattern = s.hasPattern := by
  funext id'
  rw [hasPattern, hasPattern, freeRoute, List.getElem?_modify]
  cases s.objs[id']? with
  | none => rfl
  | some r =>
      by_cases heq : id = id'
      · subst heq
        simp
      · simp [heq]

theorem compiled_freeRoute (s : RouteMemory Code) (id : ℕ) :
    (s.freeRoute id).compiled = s.compiled := by
  rw [compiled, hasPattern_freeRoute, compiled]
  congr 2
  exact List.length_modify ..

/-- The pattern of a route of the table is given back. -/
theorem Kept.freeRoute (h : s.Kept) {id : ℕ} (hid : id ∈ s.table) : (s.freeRoute id).Kept := by
  have hperm : (s.table ++ s.loose).Perm (id :: (s.table.erase id ++ s.loose)) :=
    (List.perm_cons_erase hid).append_right _
  obtain ⟨-, hnodup⟩ := List.nodup_cons.mp (hperm.nodup_iff.mp h.nodup)
  refine ⟨hnodup, fun id' hid' => ?_, ?_⟩
  · show id' < (s.objs.modify id _).length
    rw [List.length_modify]
    exact h.made id' (hperm.symm.subset (List.mem_cons_of_mem _ hid'))
  · -- a pattern goes from the table to those that were given back
    unfold Settled
    rw [compiled_freeRoute, hasPattern_freeRoute]
    refine List.Perm.trans ?_ (((hperm.filter s.hasPattern).symm.append_left s.freed).trans h.ledger)
    show List.Perm ((if s.hasPattern id then s.freed ++ [id] else s.freed) ++ _) _
    cases hre : s.hasPattern id with
    | false =>
        rw [List.filter_cons_of_neg (by rw [hre]; exact Bool.false_ne_true)]
        exact .refl _
    | true =>
        rw [List.filter_cons_of_pos hre, if_pos rfl, List.append_assoc]
        exact .refl _

/-! ## The loop -/

theorem nextRoute_eq (hnodup : s.table.Nodup) {l₁ l₂ : List ℕ} {id : ℕ}
    (htable : s.table = l₁ ++ id :: l₂) : s.nextRoute id = l₂.head? := by
  rw [htable] at hnodup
  have hfront : ∀ id' ∈ l₁, (id' != id) = true := fun id' hid' => by
    rw [bne_iff_ne]
    exact (List.nodup_append.mp hnodup).2.2 id' hid' id (List.mem_cons_self ..)
  rw [nextRoute, htable, List.dropWhile_append_of_pos hfront,
    List.dropWhile_cons_of_neg (by rw [bne_self_eq_false]; exact Bool.false_ne_true)]
  rfl

/-- Nothing but the table and what was given back changes in the loop. -/
structure Deletes (s₀ s : RouteMemory Code) (table : List ℕ) : Prop where
  kept : s.Kept
  table : s.table = table
  loose : s.loose = s₀.loose
  pattern : s.hasPattern = s₀.hasPattern
  compiled : s.compiled = s₀.compiled

theorem delete_stays (s₀ : RouteMemory Code) :
    Stays s₀.Deletes (fun s => s.table.head?) nextRoute RouteMemory.freeRoute (fun _ _ => false) where
  head h := congrArg List.head? h.table
  next h := nextRoute_eq (List.nodup_append.mp h.kept.nodup).1 h.table
  body := by
    intro s l₁ id l₂ h
    have hid : id ∈ s.table := h.table ▸ List.mem_append_right _ (List.mem_cons_self ..)
    have hnodup := (List.nodup_append.mp h.kept.nodup).1
    refine ⟨h.kept.freeRoute hid, ?_, h.loose, (hasPattern_freeRoute s id).trans h.pattern,
      (compiled_freeRoute s id).trans h.compiled⟩
    rw [h.table] at hnodup
    have hfront : id ∉ l₁ := fun hmem =>
      (List.nodup_append.mp hnodup).2.2 id hmem id (List.mem_cons_self ..) rfl
    show s.table.erase id = _
    rw [h.table, List.erase_append_right _ hfront, List.erase_cons_head, if_neg Bool.false_ne_true,
      List.append_nil]

/-- `delete_routes_all` returns; the table is empty then, and nothing else has changed. -/
theorem Kept.deleteRoutesAll (h : s.Kept) :
    ∃ u, s.deleteRoutesAll = some u ∧ s.Deletes u [] := by
  obtain ⟨begins, hends, hvisited, -, hdeletes⟩ :=
    (delete_stays s).sweep_ends ⟨h, rfl, rfl, rfl, rfl⟩
  rw [remaining_eq_nil fun _ _ => rfl] at hdeletes
  have hlen : begins.length = s.table.length := by
    simpa using congrArg List.length hvisited
  refine ⟨_, ?_, hdeletes⟩
  rw [RouteMemory.deleteRoutesAll, deleteLoop, hends.run_eq (hlen ▸ Nat.lt_succ_self _)]
  rfl

/-- What was given back is in no other place, and was given back once. -/
theorem Kept.freed_once (h : s.Kept) : s.freed.Nodup ∧ ∀ id ∈ s.table, id ∉ s.freed := by
  have hnodup := h.ledger.nodup_iff.mpr (List.nodup_range.filter _)
  obtain ⟨hfreed, -, hapart⟩ := List.nodup_append.mp hnodup
  refine ⟨hfreed, fun id hid hmem => ?_⟩
  have hpattern := (List.mem_filter.mp (h.ledger.subset (List.mem_append_left _ hmem))).2
  exact hapart id hmem id (List.mem_filter.mpr ⟨List.mem_append_left _ hid, hpattern⟩) rfl

/-- With an empty table, the caller has what was not given back. -/
theorem Kept.settled_iff (h : s.Kept) (hempty : s.table = []) :
    Settled s.compiled s.freed ↔ ∀ id ∈ s.loose, s.hasPattern id = false := by
  have hledger := h.ledger
  rw [hempty, List.nil_append] at hledger
  constructor
  · intro hsettled id hid
    -- both sides have as many entries, so there are no others
    have hlen := (hledger.trans hsettled.symm).length_eq
    rw [List.length_append] at hlen
    have hnil : s.loose.filter s.hasPattern = [] := List.eq_nil_of_length_eq_zero (by omega)
    exact Bool.eq_false_iff.mpr (List.filter_eq_nil_iff.mp hnil id hid)
  · intro hnone
    have hnil : s.loose.filter s.hasPattern = [] :=
      List.filter_eq_nil_iff.mpr fun id hid => Bool.eq_false_iff.mp (hnone id hid)
    rwa [hnil, List.append_nil] at hledger

end RouteMemory

/-! ## Runs -/

section Runs

variable {compile : Option Bytes → Option Code} {s s' : RouteMemory Code}

theorem routeStep_kept {op : RouteOp} (h : s.Kept) (hstep : routeStep compile s op = some s') :
    s'.Kept := by
  cases op with
  | insert path nPath m regex =>
      obtain rfl := Option.some.inj hstep
      refine h.make _ ?_
      rw [List.append_assoc]
      exact List.perm_middle
  | create path nPath m regex =>
      obtain rfl := Option.some.inj hstep
      exact h.make _ List.perm_middle
  | add id =>
      obtain ⟨hid, hstep⟩ := Option.ite_none_right_eq_some.mp hstep
      obtain rfl := Option.some.inj hstep
      refine h.move ?_
      rw [List.append_assoc]
      exact (List.perm_cons_erase hid).symm.append_left _
  | delete id =>
      obtain ⟨hid, hstep⟩ := Option.ite_none_right_eq_some.mp hstep
      obtain rfl := Option.some.inj hstep
      exact h.move (List.perm_middle.trans ((List.perm_cons_erase hid).symm.append_right _))
  | deleteAll =>
      obtain ⟨u, hdelete, hdeletes⟩ := h.deleteRoutesAll
      obtain rfl := Option.some.inj (hdelete.symm.trans hstep)
      exact hdeletes.kept

theorem exec_kept {ops : List RouteOp}
    (hexec : (routeMachine compile).exec RouteMemory.init ops = some s) : s.Kept :=
  (routeMachine compile).exec_invariant (fun _ _ _ h hstep => routeStep_kept h hstep) .init hexec

/-- **In every run of the calls on routes, no pattern is given back twice, and none of the table has
been; `delete_routes_all` returns and leaves an empty table.  All compiled patterns are given back
then if and only if the caller has no route with one, that was taken out with `delete_route` or never
added.** -/
theorem patterns_released_iff {ops : List RouteOp}
    (hexec : (routeMachine compile).exec RouteMemory.init ops = some s) :
    s.freed.Nodup ∧ (∀ id ∈ s.table, id ∉ s.freed) ∧
      ∃ u, (routeMachine compile).exec RouteMemory.init (ops ++ [.deleteAll]) = some u ∧
        u.table = [] ∧
        (Settled u.compiled u.freed ↔ ∀ id ∈ s.loose, s.hasPattern id = false) := by
  have hkept := exec_kept hexec
  obtain ⟨u, hdelete, hdeletes⟩ := hkept.deleteRoutesAll
  refine ⟨hkept.freed_once.1, hkept.freed_once.2, u, ?_, hdeletes.table, ?_⟩
  · exact (routeMachine compile).exec_append hexec
      ((routeMachine compile).exec_cons_eq_some.mpr ⟨u, hdelete, rfl⟩)
  · rw [hdeletes.kept.settled_iff hdeletes.table, hdeletes.loose, hdeletes.pattern]

/-- A route is inserted, another one is created and added, and the first one is deleted. -/
def threeCalls : List RouteOp :=
  [.insert (ascii "^/a$" ++ [0]) 4 [] true, .create (ascii "/b" ++ [0]) 2 [] false, .add 1, .delete 0]

/-- The pattern of the deleted route is not given back. -/
theorem patterns_released_three :
    ∃ s u, (routeMachine id).exec RouteMemory.init threeCalls = some s ∧
      (routeMachine id).exec RouteMemory.init (threeCalls ++ [.deleteAll]) = some u ∧
      ¬ Settled u.compiled u.freed := by
  obtain ⟨s, hexec⟩ : ∃ s, (routeMachine id).exec RouteMemory.init threeCalls = some s :=
    ⟨_, rfl⟩
  obtain ⟨-, -, u, hall, -, hiff⟩ := patterns_released_iff hexec
  refine ⟨s, u, hexec, hall, fun hsettled => ?_⟩
  have hs : s.loose = [0] ∧ s.hasPattern 0 = true := by
    obtain rfl := Option.some.inj hexec
    exact ⟨rfl, rfl⟩
  have hnone := hiff.mp hsettled 0 (hs.1 ▸ List.mem_cons_self ..)
  rw [hs.2] at hnone
  cases hnone

end Runs

/-! ## What `conf_load` inserts -/

section ConfLoad

variable {compile : Option Bytes → Option Code} {P : List (Route Code) → Prop}

/-- The routes before and after; a property that `insert_route` keeps is kept. -/
def KeepsRoutes (P : List (Route Code) → Prop) (before after : Config Code) : Prop :=
  P before.routes → P after.routes

/-- `insert_route` keeps the property. -/
def InsertKeeps (compile : Option Bytes → Option Code) (P : List (Route Code) → Prop) : Prop :=
  ∀ routes path nPath m, P routes → P (insertRoute compile routes path nPath m true)

theorem locationsLoop_keeps (h : InsertKeeps compile P) (json : Bytes) (t : ℕ → Tok)
    (locations left j : ℕ) (config : Config Code) :
    KeepsRoutes P config (locationsLoop compile json t locations left j config).2 := by
  induction left generalizing j config with
  | zero => exact id
  | succ left ih =>
      rw [locationsLoop]
      dsimp only
      split
      · split
        · exact id
        · exact fun hP => ih (j + 1) _ (h _ _ _ _ hP)
      · exact id

theorem locationsParser_keeps (h : InsertKeeps compile P) (json : Bytes) (t : ℕ → Tok) (i : ℕ)
    (config : Config Code) : KeepsRoutes P config (locationsParser compile json t i config).2 := by
  have hloop := locationsLoop_keeps h json t (i + 1) (t (i + 1)).size 0 config
  unfold locationsParser
  split
  · exact id
  · split
    · next heq =>
        rw [heq] at hloop
        exact hloop
    · next heq =>
        rw [heq] at hloop
        exact hloop

theorem jsonContains_keeps (h : InsertKeeps compile P) (json : Bytes) (t : ℕ → Tok)
    (entry : ConfigMap) (i : ℕ) (config : Config Code) :
    KeepsRoutes P config (jsonContains compile json t entry i config).2 := by
  unfold jsonContains
  split
  · split
    · next dest _ => cases dest <;> exact id
    · exact locationsParser_keeps h json t i config
  · exact id

/-- The configuration that the search for an entry leaves. -/
def Search.config : Search Code → Config Code
  | .found config => config
  | .notFound config => config
  | .failed _ config => config

theorem searchTokens_keeps (h : InsertKeeps compile P) (json : Bytes) (t : ℕ → Tok)
    (entry : ConfigMap) (is : List ℕ) (config : Config Code) :
    KeepsRoutes P config (searchTokens compile json t entry is config).config := by
  induction is generalizing config with
  | nil => exact id
  | cons i is ih =>
      have hone := jsonContains_keeps h json t entry i config
      rw [searchTokens]
      dsimp only
      split
      · exact hone
      · split
        · exact hone
        · exact fun hP => ih _ (hone hP)

theorem searchMap_keeps (h : InsertKeeps compile P) (json : Bytes) (t : ℕ → Tok) (r : ℤ)
    (entries : List ConfigMap) (config : Config Code) :
    KeepsRoutes P config (searchMap compile json t r entries config).2 := by
  induction entries generalizing config with
  | nil => exact id
  | cons entry entries ih =>
      have hone := searchTokens_keeps h json t entry (List.range' 1 (r.toNat - 1)) config
      rw [searchMap]
      split
      · next heq =>
          rw [heq] at hone
          exact fun hP => ih _ (hone hP)
      · next heq =>
          rw [heq] at hone
          split
          · exact hone
          · exact fun hP => ih _ (hone hP)
      · next heq =>
          rw [heq] at hone
          exact hone

theorem readLoop_keeps (h : InsertKeeps compile P) {Parser : Type} (parse : JsmnParse Parser)
    (blocks : List Bytes) (buf : Bytes) (p : Parser) (t : ℕ → Tok) (tokcount : ℤ)
    (toknext : ℕ) (config : Config Code) :
    KeepsRoutes P config (readLoop parse compile blocks buf p t tokcount toknext config).2 := by
  induction blocks generalizing buf p t tokcount toknext config with
  | nil => exact id
  | cons block blocks ih =>
      rw [readLoop]
      dsimp only
      split
      · exact id
      · have hone := searchMap_keeps h (block ++ buf.drop block.length)
          (writeTokens t (nextSlot tokcount toknext)
            (parse p block (MAX_TOKENS - tokcount)).2.2)
          (parse p block (MAX_TOKENS - tokcount)).2.1 configMap config
        split
        · next heq =>
            rw [heq] at hone
            exact hone
        · next heq =>
            rw [heq] at hone
            exact fun hP => ih _ _ _ _ _ _ (hone hP)

/-- A property of the routes that `insert_route` keeps holds after `conf_load`, whatever the result. -/
theorem confLoad_keeps (h : InsertKeeps compile P) {Parser : Type} (parse : JsmnParse Parser)
    (init : Parser) (buf : Bytes) (t : ℕ → Tok) (cfile : Option Bytes) (config : Config Code) :
    KeepsRoutes P config (confLoad parse init compile buf t cfile config).2 := by
  unfold confLoad
  split
  · exact id
  · exact readLoop_keeps h parse _ _ _ _ _ _ _

/-- The call is one of `insert_route`. -/
def RouteOp.IsInsert : RouteOp → Prop
  | .insert .. => True
  | _ => False

/-- Calls of `insert_route` alone make these routes, and all of them are in the table. -/
def InsertedAlone (compile : Option Bytes → Option Code) (routes : List (Route Code)) : Prop :=
  ∃ ops s, (∀ op ∈ ops, op.IsInsert) ∧
    (routeMachine compile).exec RouteMemory.init ops = some s ∧ s.objs = routes ∧
    s.table = List.range routes.length ∧ s.loose = []

theorem insertedAlone_keeps : InsertKeeps compile (InsertedAlone compile) := by
  rintro routes path nPath m ⟨ops, s, hops, hexec, rfl, htable, hloose⟩
  let s' : RouteMemory Code :=
    { s with
      objs := insertRoute compile s.objs path nPath m true
      table := s.table ++ [s.objs.length] }
  refine ⟨ops ++ [.insert path nPath m true], s', ?_,
    (routeMachine compile).exec_append hexec rfl, rfl, ?_, hloose⟩
  · intro op hop
    rcases List.mem_append.mp hop with hop | hop
    · exact hops op hop
    · rw [List.mem_singleton.mp hop]
      trivial
  · show s.table ++ [s.objs.length] = _
    rw [htable, insertRoute, List.length_append, List.length_singleton, List.range_succ]

theorem confLoad_insertedAlone {Parser : Type} (parse : JsmnParse Parser) (init : Parser)
    (buf : Bytes) (t : ℕ → Tok) (cfile : Option Bytes) (config : Config Code) :
    InsertedAlone compile
      (confLoad parse init compile buf t cfile { config with routes := [] }).2.routes :=
  confLoad_keeps insertedAlone_keeps parse init buf t cfile _
    ⟨[], RouteMemory.init, nofun, rfl, rfl, rfl, rfl⟩

end ConfLoad

/-! ## `config_free` -/

/-- `config_free`: the routes are in the pool, which is deleted after them. -/
def configFree (s : RouteMemory Code) (m : PoolState) (mp : ℕ) :
    Option (RouteMemory Code × PoolState) :=
  match s.deleteRoutesAll with
  | none => none
  | some s =>
      if mp ≠ 0 then (poolStep m (.delete mp true)).map fun m => (s, m)
      else some (s, m)

/-- A pool is not at `NULL`, and can be deleted. -/
theorem poolStep_delete_returns {m : PoolState} {mp : ℕ} (h : PoolInv m) (hmp : mp ∈ m.pools)
    (clean : Bool) : mp ≠ 0 ∧ ∃ m', poolStep m (.delete mp clean) = some m' := by
  obtain ⟨L, h⟩ := h
  obtain ⟨hhdr, hfree, hblocks, -⟩ := m.heap.begin.cleaned_eq clean
  have hm : Represents m.heap L := h.represents
  have hcleaned : Represents (m.heap.begin.cleaned clean) L := hm.of_same hhdr hfree hblocks
  have hreturns := mpFree_returns hcleaned (h.pools.symm ▸ hmp)
  obtain ⟨m', hm'⟩ := Option.isSome_iff_exists.mp hreturns
  rw [Heap.cleaned] at hm'
  rw [poolStep, if_pos hmp, mpDelete, hm']
  exact ⟨hm.holds.ne_zero_of_owned (Layout.mem_owned_of_pool (h.pools.symm ▸ hmp)), _, rfl⟩

/-- **After `conf_load`, with whatever result, `config_free` returns; it gives the pattern of every route
that was loaded back once, and then the pool, with everything that was allocated from it.** -/
theorem config_free_releases {Parser : Type} (parse : JsmnParse Parser) (init : Parser)
    (compile : Option Bytes → Option Code) (buf : Bytes) (t : ℕ → Tok) (cfile : Option Bytes)
    (config : Config Code) {es : List PoolOp} {m : PoolState} {mp : ℕ}
    (hok : ∀ e ∈ es, e.RequestOk) (hpool : poolMachine.exec PoolState.init es = some m)
    (hmp : mp ∈ m.pools) :
    ∃ ops s, (∀ op ∈ ops, op.IsInsert) ∧
      (routeMachine compile).exec RouteMemory.init ops = some s ∧
      s.objs = (confLoad parse init compile buf t cfile { config with routes := [] }).2.routes ∧
      s.table = List.range s.objs.length ∧
      ∃ u m', configFree s m mp = some (u, m') ∧ u.table = [] ∧ u.compiled = s.compiled ∧
        Settled s.compiled u.freed ∧ m'.pools = m.pools.erase mp ∧ ∀ B ∈ m'.live, B.pool ≠ mp := by
  have hinserted : InsertedAlone compile _ := confLoad_insertedAlone parse init buf t cfile config
  obtain ⟨ops, s, hops, hexec, hobjs, htable, hloose⟩ := hinserted
  obtain ⟨u, hdelete, hdeletes⟩ := (exec_kept hexec).deleteRoutesAll
  have hinv : PoolInv m :=
    poolMachine.exec_invariant_of_meets (C := fun _ e => e.RequestOk)
      (fun _ _ _ hinv hok hstep => (poolStep_spec hinv hok hstep).1) PoolInv.init
      (poolMachine.meets_of_forall hok) hpool
  -- `config_free` is `delete_routes_all`, and then `mp_delete`
  obtain ⟨hmp0, m', hstep⟩ := poolStep_delete_returns hinv hmp true
  refine ⟨ops, s, hops, hexec, hobjs, hobjs ▸ htable, u, m', ?_, hdeletes.table, hdeletes.compiled,
    ?_, ?_⟩
  · rw [configFree, hdelete]
    dsimp only
    rw [if_pos hmp0, hstep]
    rfl
  · -- the caller has no routes of its own
    rw [← hdeletes.compiled, hdeletes.kept.settled_iff hdeletes.table, hdeletes.loose, hloose]
    exact nofun
  · obtain ⟨-, m₁, -, rfl⟩ := poolStep_delete hstep
    exact ⟨rfl, fun B hB => by simpa using (List.mem_filter.mp hB).2⟩

/-- What the file with one location loads. -/
def oneLoaded : List (Route Bytes) :=
  (confLoad (sampleParse oneDocument.tokens) () id (List.replicate 100 0) (fun _ => Tok.zero)
    (some oneContent) ⟨[], [], [], []⟩).2.routes

/-- Its pattern, and a pool without chunks. -/
theorem config_free_releases_one : ∃ (m m' : PoolState) (s u : RouteMemory Bytes),
    poolMachine.exec PoolState.init [.new bumpMemalign 64] = some m ∧ s.compiled.length = 1 ∧
      configFree s m 16 = some (u, m') ∧ Settled s.compiled u.freed ∧ m'.pools = [] := by
  have hok : ∀ e ∈ [PoolOp.new bumpMemalign 64], e.RequestOk := by
    simp [PoolOp.RequestOk, bumpMemalign_fresh, sizeofMemPool, sizeMod]
  have hrun : (poolMachine.exec PoolState.init [.new bumpMemalign 64]).map PoolState.pools =
      some [16] := by
    decide +kernel
  obtain ⟨m, hpool, hpools⟩ := Option.map_eq_some_iff.mp hrun
  obtain ⟨ops, s, -, -, hobjs, -, u, m', hfree, -, -, hsettled, hpools', -⟩ :=
    config_free_releases (sampleParse oneDocument.tokens) () id (List.replicate 100 0)
      (fun _ => Tok.zero) (some oneContent) ⟨[], [], [], []⟩ hok hpool
      (hpools ▸ List.mem_singleton.mpr rfl)
  refine ⟨m, m', s, u, hpool, ?_, hfree, hsettled, ?_⟩
  · have hone : (RouteMemory.compiled ⟨oneLoaded, [], [], []⟩).length = 1 := by decide +kernel
    change s.objs = oneLoaded at hobjs
    rw [← hobjs] at hone
    exact hone
  · rw [hpools', hpools]
    rfl

end Gfhttpd.Conf
