import Gfhttpd.Config.Chain
import Gfhttpd.Config.Layout

/-!
# The chains of the location objects (`main/config/config.c`)

An object of the `locations` array may have any keys, with any values.  The chain that is built for
it depends on the tokens that the walk over its keys takes for `modules`, and only the first object
of the array is walked over at all.

- `HasModules`: the objects with an array of strings under `modules`
- `locationsParserIn_first`: what `locations_parser` builds, the chain of the first object
- `modulesChain_built_iff`: the objects with the chain of their `modules`
-/

namespace Gfhttpd.Conf

open Http
open Mem (Memalign PoolState PoolInv poolStep)

/-! ## Objects with modules -/

/-- An array of strings. -/
def stringArray (span : Span) (strings : List Span) : TokTree :=
  .node .array span.start span.stop (strings.map Span.str)

/-- A key of the object reads `modules`, and its value is the array of these strings, none of which
contains a NUL. -/
structure HasModules (content : Bytes) (o : KeyedObject) (modules : List Span) : Prop where
  member : ∃ key span, (key, stringArray span modules) ∈ o.members ∧
    key.span.text content = ascii "modules"
  nonempty : modules ≠ []
  plain : ∀ m ∈ modules, (0 : UInt8) ∉ m.text content

/-- The modules with these names, each cut to its first 15 bytes. -/
def namedModules (content : Bytes) (modules : List Span) : List Module :=
  modules.map fun m => ⟨(m.text content).take (MODULE_NAME - 1), .golang⟩

/-- The slot of the object number `k`. -/
def objectSlot (i : ℕ) (objects : List KeyedObject) (k : ℕ) : ℕ :=
  i + 2 + (TokTree.preorderAll ((objects.take k).map KeyedObject.tree)).length

/-! ## The tokens of an object -/

theorem TokTree.length_preorder_pos (tree : TokTree) : 0 < tree.preorder.length := by
  cases tree with
  | node type start stop children =>
      rw [TokTree.preorder, List.length_cons]
      exact Nat.succ_pos _

theorem length_preorderAll_memberTrees (members : List (Key × TokTree)) :
    2 * members.length ≤ (TokTree.preorderAll (memberTrees members)).length := by
  induction members with
  | nil => exact Nat.zero_le _
  | cons m members ih =>
      have hpos := m.2.length_preorder_pos
      unfold memberTrees at ih ⊢
      rw [List.map_cons, TokTree.preorderAll, List.length_append, List.length_cons, Key.member,
        TokTree.preorder, List.length_cons]
      simp only [TokTree.preorderAll, List.append_nil]
      omega

/-! ## The first object -/

section Run

variable {memalign : Memalign} {mp : ℕ} {content stale : Bytes} {t : ℕ → Tok} {i : ℕ} {span : Span}
  {m m' : ChainMemory} {built : List Built}

/-- `locations_parser` builds the chain of the first object, and comes to no other. -/
theorem locationsParserIn_first {o : KeyedObject} {rest : List KeyedObject}
    (hat : ObjectsAt content t i span (o :: rest)) (hpool : PoolInv m.pool)
    (hfresh : memalign.Fresh)
    (hrun : locationsParserIn memalign mp (content ++ stale) t i m = some (built, m')) :
    ∃ p, built = [⟨i + 2, p⟩] ∧
      HasChain m' p (readLocation (content ++ stale) t (i + 2)).modulesChain := by
  have hobject := hat.first
  rw [locationsParserIn, if_neg (not_not.mpr hat.array.1), hat.array.2, List.length_cons,
    locationsLoopIn, Nat.add_zero, if_pos hobject.1] at hrun
  cases hread : readLocationIn memalign mp (content ++ stale) t (i + 2) m with
  | none => simp [hread] at hrun
  | some r =>
      obtain ⟨r, m₁⟩ := r
      obtain ⟨-, -, hr⟩ := readLocationIn_spec hpool hfresh hread
      simp only [hread] at hrun
      split at hrun
      · obtain ⟨rfl, rfl⟩ := Prod.mk.inj (Option.some.inj hrun)
        exact ⟨r.modulesChain, rfl, hr.chain⟩
      · rename_i haccepted
        cases hinsert : m₁.insertRoute memalign mp ((content ++ stale).drop r.path) r.nPath with
        | none => simp [hinsert] at hrun
        | some m₂ =>
            have hchain := hr.chain.congr (ChainMemory.insertRoute_same hinsert)
            have hfull : (readLocation (content ++ stale) t (i + 2)).modulesChain ≠ [] := fun hempty =>
              haccepted (Or.inl (hr.chain.eq_nil_iff.mp hempty))
            have hnext := hat.not_object hfull
            have hloop : locationsLoopIn memalign mp (content ++ stale) t (i + 1) rest.length (0 + 1) m₂ =
                some ([], m₂) := by
              cases rest.length with
              | zero => rfl
              | succ n => rw [locationsLoopIn, if_neg hnext]
            simp only [hinsert, hloop] at hrun
            obtain ⟨rfl, rfl⟩ := Prod.mk.inj (Option.some.inj hrun)
            exact ⟨r.modulesChain, rfl, hchain⟩

end Run

/-- Only the first object has the slot of the first object. -/
theorem objectSlot_eq_iff {i k : ℕ} {objects : List KeyedObject} (hk : k < objects.length) :
    objectSlot i objects k = i + 2 ↔ k = 0 := by
  constructor
  · intro heq
    cases k with
    | zero => rfl
    | succ k =>
        obtain ⟨o, rest, rfl⟩ := List.exists_cons_of_length_pos (Nat.zero_lt_of_lt hk)
        have hpos := o.tree.length_preorder_pos
        rw [objectSlot, List.take_succ_cons, List.map_cons, TokTree.preorderAll,
          List.length_append] at heq
        omega
  · rintro rfl
    rw [objectSlot, List.take_zero, List.map_nil, TokTree.preorderAll, List.length_nil]

/-! ## The tokens that are taken for `modules` -/

/-- The last token looked at that reads `modules` is followed by a token with so many elements, whose
texts begin as these do. -/
def ReadsModulesLast (content json : Bytes) (t : ℕ → Tok) (location : ℕ) (modules : List Span) : Prop :=
  ∃ h, lastRead json t location (ascii "modules") = some h ∧
    (t (location + 1 + h + 1)).size = modules.length ∧
      ∀ k (hk : k < modules.length), (t (location + 1 + h + 1 + 1 + k)).print json MODULE_NAME =
        (modules[k].text content).take (MODULE_NAME - 1)

theorem readModules_eq_named_iff {content json : Bytes} {t : ℕ → Tok} {keys : ℕ} {modules : List Span} :
    readModules json t keys = namedModules content modules ↔
      (t keys).size = modules.length ∧
        ∀ k (hk : k < modules.length), (t (keys + 1 + k)).print json MODULE_NAME =
          (modules[k].text content).take (MODULE_NAME - 1) := by
  rw [List.ext_getElem_iff]
  simp only [readModules, namedModules, readModule, List.length_map, List.length_range,
    List.getElem_map, List.getElem_range, Module.mk.injEq, and_true]
  constructor
  · rintro ⟨hlen, hnames⟩
    exact ⟨hlen, fun k hk => hnames k (hlen ▸ hk) hk⟩
  · rintro ⟨hlen, hnames⟩
    exact ⟨hlen, fun k _ hk => hnames k hk⟩

theorem modulesChain_eq_named_iff {content json : Bytes} {t : ℕ → Tok} {location : ℕ}
    {modules : List Span} (hne : modules ≠ []) :
    (readLocation json t location).modulesChain = namedModules content modules ↔
      ReadsModulesLast content json t location modules := by
  rw [readLocation_visits]
  dsimp only
  cases hlast : lastRead json t location (ascii "modules") with
  | none =>
      refine iff_of_false (fun heq => hne (List.map_eq_nil_iff.mp heq.symm)) ?_
      rintro ⟨h, hread, -⟩
      rw [hlast] at hread
      cases hread
  | some h =>
      refine readModules_eq_named_iff.trans ⟨fun hread => ⟨h, hlast, hread⟩, ?_⟩
      rintro ⟨h', hlast', hread⟩
      obtain rfl := Option.some.inj (hlast.symm.trans hlast')
      exact hread

/-! ## Objects whose values read like no key -/

/-- No two keys read the same, and no value has a token that reads `location` or `modules`. -/
structure KeyedObject.Plain (content : Bytes) (o : KeyedObject) : Prop where
  keys : (o.members.map fun m => m.1.span.text content).Nodup
  values : ∀ m ∈ o.members, ∀ tok ∈ m.2.preorder, ¬ IsName (tok.text content)

theorem mem_preorderAll_memberTrees {members : List (Key × TokTree)} {tok : Tok}
    (h : tok ∈ TokTree.preorderAll (memberTrees members)) :
    ∃ m ∈ members, tok = ⟨m.1.type, m.1.span.start, m.1.span.stop, 1⟩ ∨ tok ∈ m.2.preorder := by
  rw [preorderAll_eq_flatMap, List.mem_flatMap] at h
  obtain ⟨tree, htree, htok⟩ := h
  obtain ⟨m, hm, rfl⟩ := List.mem_map.mp htree
  simp only [Key.member, TokTree.preorder, TokTree.preorderAll, List.append_nil, List.mem_cons,
    List.length_cons, List.length_nil, Nat.zero_add] at htok
  exact ⟨m, hm, htok⟩

/-- The token in front of a key belongs to a value. -/
theorem getElem?_before_key {before : List (Key × TokTree)} {j : ℕ}
    (hj : j + 1 = (TokTree.preorderAll (memberTrees before)).length) :
    ∃ m ∈ before, ∃ tok ∈ m.2.preorder, (TokTree.preorderAll (memberTrees before))[j]? = some tok := by
  rcases List.eq_nil_or_concat before with rfl | ⟨front, m, rfl⟩
  · simp [memberTrees, TokTree.preorderAll] at hj
  · have hne : m.2.preorder ≠ [] := List.ne_nil_of_length_pos m.2.length_preorder_pos
    have hall : TokTree.preorderAll (memberTrees (front.concat m)) =
        TokTree.preorderAll (memberTrees front) ++
          [⟨m.1.type, m.1.span.start, m.1.span.stop, 1⟩] ++ m.2.preorder := by
      simp [memberTrees, TokTree.preorderAll_append, TokTree.preorderAll, Key.member,
        TokTree.preorder, List.concat_eq_append]
    refine ⟨m, by simp [List.concat_eq_append], m.2.preorder.getLast hne, List.getLast_mem hne, ?_⟩
    have hlast : (TokTree.preorderAll (memberTrees (front.concat m))).getLast? =
        some (m.2.preorder.getLast hne) := by
      rw [hall, List.getLast?_append_of_ne_nil _ hne, List.getLast?_eq_some_getLast hne]
    rw [← hlast, List.getLast?_eq_getElem?, ← hj, Nat.add_sub_cancel]

section Plain

variable {content stale : Bytes} {t : ℕ → Tok} {i : ℕ} {span arraySpan : Span} {o : KeyedObject}
  {rest : List KeyedObject} {before after : List (Key × TokTree)} {key : Key} {modules : List Span}

theorem Key.preorder_member (key : Key) (value : TokTree) :
    (key.member value).preorder = ⟨key.type, key.span.start, key.span.stop, 1⟩ :: value.preorder := by
  simp [Key.member, TokTree.preorder, TokTree.preorderAll]

theorem memberTrees_split (before after : List (Key × TokTree)) (m : Key × TokTree) :
    memberTrees (before ++ m :: after) = memberTrees before ++ m.1.member m.2 :: memberTrees after := by
  simp [memberTrees]

/-- Of the tokens of such an object one reads `modules`, the key. -/
theorem KeyedObject.Plain.reads_modules_iff (hplain : o.Plain content) (stale : Bytes)
    (hat : ObjectsAt content t i span (o :: rest)) {value : TokTree}
    (hsplit : o.members = before ++ (key, value) :: after)
    (hkey : key.span.text content = ascii "modules") {h : ℕ}
    (hh : h < (TokTree.preorderAll (memberTrees o.members)).length) :
    reads (content ++ stale) t (i + 2) (ascii "modules") h = true ↔
      h = (TokTree.preorderAll (memberTrees before)).length := by
  obtain ⟨hslot, hstop⟩ := hat.member (List.getElem?_eq_getElem hh)
  unfold reads
  rw [jsoneq_iff_reads (hslot ▸ hstop), hslot]
  have hget := List.getElem?_eq_getElem hh
  have hkeys := hplain.keys
  have hvalues := hplain.values
  generalize (TokTree.preorderAll (memberTrees o.members))[h] = tok at hget
  rw [hsplit] at hget hkeys hvalues
  rw [memberTrees_split] at hget
  constructor
  · refine offset_of_reads (key.preorder_member value) List.perm_middle (fun tok htok => ?_)
      (fun tok htok => ?_) hget
    · exact not_reads_text (Or.inr rfl) (hvalues (key, value) (by simp) tok htok)
    · rw [memberTrees, memberTrees, ← List.map_append] at htok
      obtain ⟨m, hm, rfl | htok⟩ := mem_preorderAll_memberTrees htok
      · -- another key that reads the same
        rintro ⟨-, htext⟩
        rw [List.map_append, List.map_cons, List.nodup_middle, ← List.map_append] at hkeys
        refine (List.nodup_cons.mp hkeys).1 (List.mem_map.mpr ⟨m, hm, ?_⟩)
        exact htext.trans hkey.symm
      · refine not_reads_text (Or.inr rfl) (hvalues m ?_ tok htok)
        rcases List.mem_append.mp hm with hm | hm
        · exact List.mem_append_left _ hm
        · exact List.mem_append_right _ (List.mem_cons_of_mem _ hm)
  · rintro rfl
    rw [TokTree.preorderAll_append, List.getElem?_append_right (Nat.le_refl _), Nat.sub_self,
      TokTree.preorderAll, key.preorder_member, List.cons_append, List.getElem?_cons_zero] at hget
    obtain rfl := Option.some.inj hget
    exact ⟨key.type_eq, hkey⟩

/-- The key is read last, if there are no more tokens in front of it than there are keys. -/
theorem KeyedObject.Plain.lastRead_iff (hplain : o.Plain content) (stale : Bytes)
    (hat : ObjectsAt content t i span (o :: rest)) {value : TokTree}
    (hsplit : o.members = before ++ (key, value) :: after)
    (hkey : key.span.text content = ascii "modules") {h : ℕ} :
    lastRead (content ++ stale) t (i + 2) (ascii "modules") = some h ↔
      h = (TokTree.preorderAll (memberTrees before)).length ∧
        (TokTree.preorderAll (memberTrees before)).length ≤ o.members.length := by
  have hsize := hat.first.2
  have hroom := length_preorderAll_memberTrees o.members
  have hmembers : 0 < o.members.length := by
    rw [hsplit, List.length_append, List.length_cons]
    omega
  have hoffset : (TokTree.preorderAll (memberTrees before)).length <
      (TokTree.preorderAll (memberTrees o.members)).length := by
    rw [hsplit, memberTrees_split, TokTree.preorderAll_append, TokTree.preorderAll,
      key.preorder_member]
    simp only [List.length_append, List.length_cons]
    omega
  rw [← hsize]
  apply lastRead_eq_some_iff
  · exact (hplain.reads_modules_iff stale hat hsplit hkey hoffset).mpr rfl
  · intro h hle
    exact (hplain.reads_modules_iff stale hat hsplit hkey (by omega)).mp
  · intro j hj
    -- the token in front of the key belongs to a value
    obtain ⟨m, hm, tok, htok, hget⟩ := getElem?_before_key hj
    have hin : (TokTree.preorderAll (memberTrees o.members))[j]? = some tok := by
      rw [hsplit, memberTrees_split, TokTree.preorderAll_append,
        List.getElem?_append_left (by omega), hget]
    obtain ⟨hslot, hstop⟩ := hat.member hin
    have hno := hplain.values m (by rw [hsplit]; exact List.mem_append_left _ hm) tok htok
    have hreads : ∀ name, IsName name → reads (content ++ stale) t (i + 2) name j = false := by
      intro name hname
      rw [← Bool.not_eq_true, reads, hslot, jsoneq_iff_reads hstop]
      exact not_reads_text hname hno
    rw [readsKey, hreads _ (Or.inl rfl), hreads _ (Or.inr rfl), Bool.or_self]

/-- Where the key stands, its array does too. -/
theorem ObjectsAt.strings (hat : ObjectsAt content t i span (o :: rest))
    (hsplit : o.members = before ++ (key, stringArray arraySpan modules) :: after)
    {loc : ℕ} (hloc : loc = i + 2 + 1 + (TokTree.preorderAll (memberTrees before)).length) :
    (t (loc + 1)).size = modules.length ∧ ∀ k (hk : k < modules.length),
      t (loc + 1 + 1 + k) = ⟨.string, modules[k].start, modules[k].stop, 0⟩ ∧
        modules[k].stop ≤ content.length := by
  have hget : ∀ k tok, (stringArray arraySpan modules).preorder[k]? = some tok →
      t (loc + 1 + k) = tok ∧ tok.stop ≤ content.length := by
    intro k tok hk
    have hmember : (TokTree.preorderAll (memberTrees o.members))[
        (TokTree.preorderAll (memberTrees before)).length + (k + 1)]? = some tok := by
      rw [hsplit, memberTrees_split, TokTree.preorderAll_append,
        List.getElem?_append_right (Nat.le_add_right _ _), Nat.add_sub_cancel_left,
        TokTree.preorderAll, key.preorder_member, List.cons_append, List.getElem?_cons_succ,
        List.getElem?_append_left (List.getElem?_eq_some_iff.mp hk).1]
      exact hk
    have hslot := hat.member hmember
    rwa [show i + 2 + 1 + ((TokTree.preorderAll (memberTrees before)).length + (k + 1)) = loc + 1 + k
      by omega] at hslot
  rw [stringArray, TokTree.preorder, preorderAll_str, List.length_map] at hget
  refine ⟨?_, fun k hk => ?_⟩
  · have harray := (hget 0 _ rfl).1
    rw [Nat.add_zero] at harray
    rw [harray]
  · have hstring := hget (k + 1) ⟨.string, modules[k].start, modules[k].stop, 0⟩ (by simp [hk])
    rwa [show loc + 1 + (k + 1) = loc + 1 + 1 + k by omega] at hstring

/-- In such an object the right array is read, if the key is in reach. -/
theorem KeyedObject.Plain.readsModulesLast_iff (hplain : o.Plain content) (stale : Bytes)
    (hat : ObjectsAt content t i span (o :: rest))
    (hsplit : o.members = before ++ (key, stringArray arraySpan modules) :: after)
    (hkey : key.span.text content = ascii "modules")
    (hnul : ∀ m ∈ modules, (0 : UInt8) ∉ m.text content) :
    ReadsModulesLast content (content ++ stale) t (i + 2) modules ↔
      (TokTree.preorderAll (memberTrees before)).length ≤ o.members.length := by
  have hlast : ∀ h, lastRead (content ++ stale) t (i + 2) (ascii "modules") = some h ↔ _ := fun h =>
    hplain.lastRead_iff stale hat hsplit hkey
  constructor
  · rintro ⟨h, hread, -⟩
    exact ((hlast h).mp hread).2
  · intro hreach
    obtain ⟨hsize, hstrings⟩ := hat.strings hsplit rfl
    refine ⟨_, (hlast _).mpr ⟨rfl, hreach⟩, hsize, fun k hk => ?_⟩
    obtain ⟨hslot, hstop⟩ := hstrings k hk
    rw [hslot, Tok.print, Tok.text_append _ hstop]
    exact congrArg (List.take _) (cstr_eq_self (hnul _ (List.getElem_mem hk)))

end Plain

/-! ## Every object -/

section Claim

variable {memalign : Memalign} {mp : ℕ} {content stale : Bytes} {t : ℕ → Tok} {i k : ℕ} {span : Span}
  {objects : List KeyedObject} {o : KeyedObject} {modules : List Span} {m m' : ChainMemory}
  {built : List Built}

/-- The object number `k` has a chain of the modules with these names, and of no others. -/
def BuildsChain (content : Bytes) (i : ℕ) (objects : List KeyedObject) (k : ℕ) (modules : List Span)
    (built : List Built) (m : ChainMemory) : Prop :=
  ∃ p, ⟨objectSlot i objects k, p⟩ ∈ built ∧ HasChain m p (namedModules content modules)

theorem buildsChain_iff (hfresh : memalign.Fresh) (hpool : PoolInv m.pool)
    (hat : ObjectsAt content t i span objects) (hk : k < objects.length) (hne : modules ≠ [])
    (hrun : locationsParserIn memalign mp (content ++ stale) t i m = some (built, m')) :
    BuildsChain content i objects k modules built m' ↔
      k = 0 ∧ ReadsModulesLast content (content ++ stale) t (i + 2) modules := by
  obtain ⟨first, rest, rfl⟩ := List.exists_cons_of_length_pos (Nat.zero_lt_of_lt hk)
  obtain ⟨p, rfl, hchain⟩ := locationsParserIn_first hat hpool hfresh hrun
  rw [← objectSlot_eq_iff (i := i) hk, ← modulesChain_eq_named_iff hne]
  simp only [BuildsChain, List.mem_singleton, Built.mk.injEq]
  constructor
  · rintro ⟨p', ⟨hslot, rfl⟩, hchain'⟩
    exact ⟨hslot, hchain.unique hchain'⟩
  · rintro ⟨hslot, heq⟩
    exact ⟨p, ⟨hslot, rfl⟩, heq ▸ hchain⟩

/-- **Of the objects of the `locations` array the first one gets the chain of its `modules`, in order
and with each name cut to 15 bytes, exactly if the last of the tokens looked at that reads `modules`
is followed by these strings, or by others with the same 15 first bytes.  No other object gets one.
Where no value reads like a key, this means that there are no more tokens in front of the key than
the object has keys.** -/
theorem modulesChain_built_iff (hfresh : memalign.Fresh) (hpool : PoolInv m.pool)
    (hat : ObjectsAt content t i span objects) (hk : objects[k]? = some o)
    (hmodules : HasModules content o modules)
    (hrun : locationsParserIn memalign mp (content ++ stale) t i m = some (built, m')) :
    (BuildsChain content i objects k modules built m' ↔
        k = 0 ∧ ReadsModulesLast content (content ++ stale) t (i + 2) modules) ∧
      ∀ before key arraySpan after, o.Plain content →
        o.members = before ++ (key, stringArray arraySpan modules) :: after →
        key.span.text content = ascii "modules" →
        (BuildsChain content i objects k modules built m' ↔
          k = 0 ∧ (TokTree.preorderAll (memberTrees before)).length ≤ o.members.length) := by
  have hlt := (List.getElem?_eq_some_iff.mp hk).1
  have hiff := buildsChain_iff hfresh hpool hat hlt hmodules.nonempty hrun
  refine ⟨hiff, fun before key arraySpan after hplain hsplit hkey => hiff.trans ?_⟩
  apply and_congr_right
  rintro rfl
  obtain ⟨first, rest, rfl⟩ := List.exists_cons_of_length_pos hlt
  obtain rfl : first = o := Option.some.inj hk
  exact hplain.readsModulesLast_iff stale hat hsplit hkey hmodules.plain

end Claim

/-! ## Two objects -/

/-- A new pool of 4096 bytes. -/
def newMemory : Option ChainMemory :=
  (poolStep PoolState.init (.new Mem.bumpMemalign 4096)).map fun pool =>
    ⟨pool, fun _ => ⟨0, 0⟩, fun _ => ⟨[], .golang⟩⟩

/-- `locations_parser` on an array with this object, with a new pool. -/
def parseObject (content : Bytes) (o : KeyedObject) : Option (List Built × ChainMemory) :=
  match newMemory with
  | none => none
  | some m => locationsParserIn Mem.bumpMemalign 16 (content ++ []) (objectTokens [o]) 0 m

theorem parseObject_run (content : Bytes) (o : KeyedObject) (h : (parseObject content o).isSome) :
    ∃ m built m', PoolInv m.pool ∧ parseObject content o = some (built, m') ∧
      locationsParserIn Mem.bumpMemalign 16 (content ++ []) (objectTokens [o]) 0 m =
        some (built, m') := by
  obtain ⟨⟨built, m'⟩, hrun⟩ := Option.isSome_iff_exists.mp h
  have hparse := hrun
  unfold parseObject at hrun
  cases hnew : newMemory with
  | none => simp [hnew] at hrun
  | some m =>
      simp only [hnew] at hrun
      obtain ⟨pool, hstep, rfl⟩ := Option.map_eq_some_iff.mp hnew
      have hok : (Mem.PoolOp.new Mem.bumpMemalign 4096).RequestOk :=
        ⟨Mem.bumpMemalign_fresh, by decide, by decide⟩
      exact ⟨_, built, m', (Mem.poolStep_spec PoolInv.init hok hstep).1, hparse, hrun⟩

/-- `{location:"/a",modules:["m","unexistent_module"]}`. -/
def twoModules : KeyedObject where
  span := ⟨0, 49⟩
  members :=
    [(⟨false, ⟨1, 9⟩⟩, Span.str ⟨11, 13⟩),
      (⟨false, ⟨15, 22⟩⟩, stringArray ⟨23, 48⟩ [⟨25, 26⟩, ⟨29, 46⟩])]

def twoModulesContent : Bytes :=
  ascii "\x7blocation:\"/a\",modules:[\"m\",\"unexistent_module\"]\x7d"

/-- The second name is cut. -/
theorem modulesChain_built_two : ∃ built m',
    parseObject twoModulesContent twoModules = some (built, m') ∧
      BuildsChain twoModulesContent 0 [twoModules] 0 [⟨25, 26⟩, ⟨29, 46⟩] built m' := by
  obtain ⟨m, built, m', hpool, hparse, hrun⟩ :=
    parseObject_run twoModulesContent twoModules (by decide +kernel)
  have hat : ObjectsAt twoModulesContent (objectTokens [twoModules]) 0 ⟨0, 0⟩ [twoModules] :=
    objectTokens_at (by decide +kernel)
  have hmodules : HasModules twoModulesContent twoModules [⟨25, 26⟩, ⟨29, 46⟩] :=
    ⟨⟨_, _, List.mem_cons_of_mem _ (List.mem_cons_self ..), by decide⟩, by decide, by decide⟩
  have hplain : twoModules.Plain twoModulesContent := ⟨by decide +kernel, by decide +kernel⟩
  have hfirst : [twoModules][0]? = some twoModules := rfl
  have hbuilt := (modulesChain_built_iff Mem.bumpMemalign_fresh hpool hat hfirst hmodules hrun).2
    [(⟨false, ⟨1, 9⟩⟩, Span.str ⟨11, 13⟩)] ⟨false, ⟨15, 22⟩⟩ ⟨23, 48⟩ [] hplain rfl (by decide)
  exact ⟨built, m', hparse, hbuilt.mpr ⟨rfl, by decide +kernel⟩⟩

/-- `{location:"/a",modules:["modules"],x:"y",z:"w"}`. -/
def modulesModule : KeyedObject where
  span := ⟨0, 47⟩
  members :=
    [(⟨false, ⟨1, 9⟩⟩, Span.str ⟨11, 13⟩),
      (⟨false, ⟨15, 22⟩⟩, stringArray ⟨23, 34⟩ [⟨25, 32⟩]),
      (⟨false, ⟨35, 36⟩⟩, Span.str ⟨38, 39⟩),
      (⟨false, ⟨41, 42⟩⟩, Span.str ⟨44, 45⟩)]

def modulesModuleContent : Bytes :=
  ascii "\x7blocation:\"/a\",modules:[\"modules\"],x:\"y\",z:\"w\"\x7d"

/-- The name of the module is taken for the key, and the value of `x` for the module. -/
theorem modulesChain_not_built :
    HasModules modulesModuleContent modulesModule [⟨25, 32⟩] ∧
      ∃ p m', parseObject modulesModuleContent modulesModule = some ([⟨2, p⟩], m') ∧
        HasChain m' p [⟨ascii "y", .golang⟩] ∧
          ¬ BuildsChain modulesModuleContent 0 [modulesModule] 0 [⟨25, 32⟩] [⟨2, p⟩] m' := by
  have hmodules : HasModules modulesModuleContent modulesModule [⟨25, 32⟩] :=
    ⟨⟨_, _, List.mem_cons_of_mem _ (List.mem_cons_self ..), by decide⟩, by decide, by decide⟩
  obtain ⟨m, built, m', hpool, hparse, hrun⟩ :=
    parseObject_run modulesModuleContent modulesModule (by decide +kernel)
  have hat : ObjectsAt modulesModuleContent (objectTokens [modulesModule]) 0 ⟨0, 0⟩ [modulesModule] :=
    objectTokens_at (by decide +kernel)
  obtain ⟨p, rfl, hchain⟩ := locationsParserIn_first hat hpool Mem.bumpMemalign_fresh hrun
  have hread : (readLocation (modulesModuleContent ++ []) (objectTokens [modulesModule])
      (0 + 2)).modulesChain = [⟨ascii "y", .golang⟩] := by decide +kernel
  rw [hread] at hchain
  refine ⟨hmodules, p, m', hparse, hchain, ?_⟩
  rintro ⟨p', hp', hchain'⟩
  obtain ⟨-, rfl⟩ := Built.mk.inj (List.mem_singleton.mp hp')
  exact absurd (hchain.unique hchain') (by decide +kernel)

end Gfhttpd.Conf
