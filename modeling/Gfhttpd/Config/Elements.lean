import Gfhttpd.Config.Walk

/-!
# Arrays of location objects (`main/config/config.c`)

The loop over `j` in `locations_parser` goes on by one token, whatever the object it is at takes.  Behind
the token of an object stands that of a key, which is no object, and the loop ends there.

- `KeyedObject`, `ObjectsAt`: objects with any members, and the slots of an array of them
- `locationsParser_added`: what is read of the first object is all that is inserted
-/

namespace Gfhttpd.Conf

open Http

/-! ## Objects -/

/-- An object: keys with any values. -/
structure KeyedObject where
  span : Span
  members : List (Key × TokTree)

/-- The members of an object, as the children of its token. -/
def memberTrees (members : List (Key × TokTree)) : List TokTree :=
  members.map fun m => m.1.member m.2

def KeyedObject.tree (o : KeyedObject) : TokTree :=
  .node .object o.span.start o.span.stop (memberTrees o.members)

/-- An array of objects. -/
def objectArray (span : Span) (objects : List KeyedObject) : TokTree :=
  .node .array span.start span.stop (objects.map KeyedObject.tree)

/-- The slots behind the one of a key hold the tokens of the array, which lie in the file. -/
structure ObjectsAt (content : Bytes) (t : ℕ → Tok) (i : ℕ) (span : Span)
    (objects : List KeyedObject) : Prop where
  row : ∀ k tok, (objectArray span objects).preorder[k]? = some tok → t (i + 1 + k) = tok
  inside : ∀ tok ∈ (objectArray span objects).preorder, tok.stop ≤ content.length

section ObjectsAt

variable {content : Bytes} {t : ℕ → Tok} {i : ℕ} {span : Span} {objects : List KeyedObject}

theorem ObjectsAt.array (hat : ObjectsAt content t i span objects) :
    (t (i + 1)).type = .array ∧ (t (i + 1)).size = objects.length := by
  have hrow := hat.row 0 _ (by rw [objectArray, TokTree.preorder, List.getElem?_cons_zero])
  rw [Nat.add_zero] at hrow
  rw [hrow, List.length_map]
  exact ⟨rfl, rfl⟩

/-- The tokens of the objects, from that of the first one on. -/
theorem ObjectsAt.token (hat : ObjectsAt content t i span objects) {k : ℕ} {tok : Tok}
    (hk : (TokTree.preorderAll (objects.map KeyedObject.tree))[k]? = some tok) :
    t (i + 2 + k) = tok ∧ tok.stop ≤ content.length := by
  have hget : (objectArray span objects).preorder[k + 1]? = some tok := by
    rw [objectArray, TokTree.preorder, List.getElem?_cons_succ]
    exact hk
  have hrow := hat.row (k + 1) tok hget
  rw [show i + 1 + (k + 1) = i + 2 + k by omega] at hrow
  exact ⟨hrow, hat.inside tok (List.mem_of_getElem? hget)⟩

variable {o : KeyedObject} {rest : List KeyedObject}

/-- The token of the first object. -/
theorem ObjectsAt.first (hat : ObjectsAt content t i span (o :: rest)) :
    (t (i + 2)).type = .object ∧ (t (i + 2)).size = o.members.length := by
  have hget : (TokTree.preorderAll ((o :: rest).map KeyedObject.tree))[0]? =
      some ⟨.object, o.span.start, o.span.stop, o.members.length⟩ := by
    simp [TokTree.preorderAll, KeyedObject.tree, TokTree.preorder, memberTrees]
  have htok := hat.token hget
  rw [Nat.add_zero] at htok
  rw [htok.1]
  exact ⟨rfl, rfl⟩

/-- The tokens of its members. -/
theorem ObjectsAt.member (hat : ObjectsAt content t i span (o :: rest)) {k : ℕ} {tok : Tok}
    (hk : (TokTree.preorderAll (memberTrees o.members))[k]? = some tok) :
    t (i + 2 + 1 + k) = tok ∧ tok.stop ≤ content.length := by
  have hget : (TokTree.preorderAll ((o :: rest).map KeyedObject.tree))[k + 1]? = some tok := by
    rw [List.map_cons, TokTree.preorderAll, KeyedObject.tree, TokTree.preorder, List.cons_append,
      List.getElem?_cons_succ, List.getElem?_append_left (List.getElem?_eq_some_iff.mp hk).1]
    exact hk
  have htok := hat.token hget
  rwa [show i + 2 + (k + 1) = i + 2 + 1 + k by omega] at htok

/-- Behind the first object there is no other object where the loop over `j` goes on, if the first
one has a key. -/
theorem ObjectsAt.second (hat : ObjectsAt content t i span (o :: rest)) (hne : o.members ≠ []) :
    (t (i + 3)).type ≠ .object := by
  obtain ⟨m, members, hmembers⟩ := List.exists_cons_of_ne_nil hne
  have hget : (TokTree.preorderAll (memberTrees o.members))[0]? =
      some ⟨m.1.type, m.1.span.start, m.1.span.stop, 1⟩ := by
    simp [hmembers, memberTrees, TokTree.preorderAll, Key.member, TokTree.preorder]
  have htok := hat.member hget
  rw [Nat.add_zero] at htok
  rw [htok.1]
  rcases m.1.type_eq with htype | htype
  · simp [htype]
  · simp [htype]

/-- An object without keys has no chain, if an object stands behind it. -/
theorem readLocation_empty {json : Bytes} {location : ℕ} (hsize : (t location).size = 0)
    (hnext : (t (location + 1)).type = .object) :
    (readLocation json t location).modulesChain = [] := by
  have hno : ∀ name, jsoneq json (t (location + 1)) name = false := fun name => by
    simp [jsoneq, hnext]
  simp [readLocation, readLocationLoop, hsize, hno]

/-- Where the loop over `j` goes on behind an object with a chain, there is no object. -/
theorem ObjectsAt.not_object (hat : ObjectsAt content t i span (o :: rest)) {json : Bytes}
    (hchain : (readLocation json t (i + 2)).modulesChain ≠ []) : (t (i + 3)).type ≠ .object := by
  intro hnext
  have hnil : o.members = [] := not_not.mp (mt hat.second (not_not.mpr hnext))
  have hsize : (t (i + 2)).size = 0 := by rw [hat.first.2, hnil, List.length_nil]
  exact hchain (readLocation_empty hsize hnext)

end ObjectsAt

/-! ## The routes that are inserted -/

section Routes

variable {Code : Type} {content json : Bytes} {t : ℕ → Tok} {i k : ℕ} {span : Span}
  {objects : List KeyedObject}

/-- One route is inserted at most, that of the first object. -/
theorem locationsParser_added (compile : Option Bytes → Option Code) {o : KeyedObject}
    {rest : List KeyedObject} (hat : ObjectsAt content t i span (o :: rest)) (config : Config Code) :
    (locationsParser compile json t i config).2.routes =
      if (readLocation json t (i + 2)).modulesChain = [] ∨ (readLocation json t (i + 2)).nPath = 0 then
        config.routes
      else
        insertRoute compile config.routes (json.drop (readLocation json t (i + 2)).path)
          (readLocation json t (i + 2)).nPath (readLocation json t (i + 2)).modulesChain true := by
  rw [locationsParser_routes hat.array.1, hat.array.2, List.length_cons, locationsLoop]
  dsimp only
  rw [Nat.add_zero, if_pos hat.first.1]
  split
  · rfl
  · rename_i haccepted
    -- the loop is at the first key of the object that was read
    have hnext := hat.not_object (not_or.mp haccepted).1
    cases rest.length with
    | zero => rfl
    | succ n => rw [locationsLoop, if_neg hnext]

/-- `locations_parser` inserts a route for the object number `k`, with this path and these modules. -/
def InsertsRoute (k : ℕ) (before : Config Code) (after : ℤ × Config Code) (path : Bytes)
    (modulesChain : List Module) : Prop :=
  ∃ added r, after.2.routes = before.routes ++ added ∧ added[k]? = some r ∧ r.path = path ∧
    r.nPath = path.length ∧ r.modulesChain = modulesChain

/-- The route is what is read of the object, and the object is the first one. -/
theorem insertsRoute_iff (compile : Option Bytes → Option Code)
    (hat : ObjectsAt content t i span objects) (hk : k < objects.length) (config : Config Code)
    {path : Bytes} {modulesChain : List Module} (hpath : path ≠ []) (hchain : modulesChain ≠ []) :
    InsertsRoute k config (locationsParser compile json t i config) path modulesChain ↔
      k = 0 ∧
        (json.drop (readLocation json t (i + 2)).path).take (readLocation json t (i + 2)).nPath = path ∧
        (readLocation json t (i + 2)).nPath = path.length ∧
        (readLocation json t (i + 2)).modulesChain = modulesChain := by
  obtain ⟨o, rest, rfl⟩ := List.exists_cons_of_length_pos (Nat.zero_lt_of_lt hk)
  unfold InsertsRoute
  rw [locationsParser_added compile hat]
  split
  · -- an object without a location or without modules
    rename_i hempty
    constructor
    · rintro ⟨added, r, hsame, hr, -⟩
      rw [List.self_eq_append_right.mp hsame, List.getElem?_nil] at hr
      cases hr
    · rintro ⟨-, -, hn, hmodules⟩
      rcases hempty with hnone | hzero
      · exact absurd (hmodules.symm.trans hnone) hchain
      · rw [hzero] at hn
        exact absurd (List.eq_nil_of_length_eq_zero hn.symm) hpath
  · rw [insertRoute]
    constructor
    · rintro ⟨added, r, hsame, hr, hroute⟩
      rw [List.append_cancel_left_eq] at hsame
      rw [← hsame, List.getElem?_singleton] at hr
      obtain ⟨rfl, hroute'⟩ := Option.ite_none_right_eq_some.mp hr
      rw [← Option.some.inj hroute'] at hroute
      exact ⟨rfl, hroute⟩
    · rintro ⟨rfl, hroute⟩
      exact ⟨_, _, rfl, rfl, hroute⟩

end Routes

/-! ## Slots -/

/-- An array with these objects. -/
def objectTokens (objects : List KeyedObject) : ℕ → Tok :=
  fun k => (Tok.zero :: (objectArray ⟨0, 0⟩ objects).preorder).getD k Tok.zero

theorem objectTokens_at {content : Bytes} {objects : List KeyedObject}
    (hinside : ∀ tok ∈ (objectArray ⟨0, 0⟩ objects).preorder, tok.stop ≤ content.length) :
    ObjectsAt content (objectTokens objects) 0 ⟨0, 0⟩ objects := by
  refine ⟨fun k tok hk => ?_, hinside⟩
  rw [objectTokens, List.getD_eq_getElem?_getD, Nat.zero_add, Nat.add_comm, List.getElem?_cons_succ,
    hk, Option.getD_some]

end Gfhttpd.Conf
