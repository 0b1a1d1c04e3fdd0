import Gfhttpd.Config.Elements
import Mathlib.Data.List.Perm.Basic

/-!
# Location objects with their keys in any order (`main/config/config.c`)

- `LocationLayout`: the keys `location` and `modules` in any order, and others with scalar values
- `insertsRoute_layout_iff`: which objects of an array `locations_parser` reads as it reads a first one
  with just `location` and `modules`
-/

namespace Gfhttpd.Conf

open Http

/-! ## Layouts -/

/-- A scalar value: a string, or an unquoted word. -/
def Key.scalar (k : Key) : TokTree :=
  .node k.type k.span.start k.span.stop []

namespace LocationObject

def locationMember (o : LocationObject) : TokTree :=
  o.locationKey.member o.location.str

def modulesMember (o : LocationObject) : TokTree :=
  o.modulesKey.member (.node .array o.modulesSpan.start o.modulesSpan.stop (o.modules.map Span.str))

end LocationObject

/-- Keys with scalar values. -/
def scalarMembers (others : List (Key × Key)) : List TokTree :=
  others.map fun m => m.1.member m.2.scalar

/-- A location object with other keys besides `location` and `modules`, in any order. -/
structure LocationLayout where
  object : LocationObject
  others : List (Key × Key)
  members : List TokTree
  perm : members.Perm
    (object.locationMember :: object.modulesMember :: scalarMembers others)

/-- The text is the name of one of the two keys. -/
def IsName (text : Bytes) : Prop :=
  text = ascii "location" ∨ text = ascii "modules"

instance (text : Bytes) : Decidable (IsName text) :=
  inferInstanceAs (Decidable (_ ∨ _))

namespace LocationLayout

def tree (l : LocationLayout) : TokTree :=
  .node .object l.object.span.start l.object.span.stop l.members

/-- The keys read as they should, and no other key reads the same; the tokens lie in the file. -/
structure WellFormed (content : Bytes) (l : LocationLayout) : Prop where
  object : l.object.WellFormed content
  others : ∀ m ∈ l.others, ¬ IsName (m.1.span.text content)
  inside : ∀ tok ∈ l.tree.preorder, tok.start ≤ tok.stop ∧ tok.stop ≤ content.length

/-- No value of the object reads like one of the two keys. -/
structure Plain (content : Bytes) (l : LocationLayout) : Prop where
  location : ¬ IsName (l.object.location.text content)
  modules : ∀ m ∈ l.object.modules, ¬ IsName (m.text content)
  others : ∀ m ∈ l.others, ¬ IsName (m.2.span.text content)

/-- The slots hold the tokens of the object, as the first one of the array behind a key. -/
structure FirstAt (t : ℕ → Tok) (i : ℕ) (l : LocationLayout) : Prop where
  array : (t (i + 1)).type = .array ∧ (t (i + 1)).size ≠ 0
  row : ∀ k tok, l.tree.preorder[k]? = some tok → t (i + 2 + k) = tok

/-- There are no more tokens in front of the member than there are keys. -/
def InReach (l : LocationLayout) (m : TokTree) : Prop :=
  ∃ before after, l.members = before ++ m :: after ∧
    (TokTree.preorderAll before).length ≤ l.members.length

end LocationLayout

/-! ## The tokens of a layout -/

theorem preorderAll_eq_flatMap (trees : List TokTree) :
    TokTree.preorderAll trees = trees.flatMap TokTree.preorder := by
  induction trees with
  | nil => rw [TokTree.preorderAll, List.flatMap_nil]
  | cons tree trees ih => rw [TokTree.preorderAll, ih, List.flatMap_cons]

theorem preorderAll_perm {trees trees' : List TokTree} (h : trees.Perm trees') :
    (TokTree.preorderAll trees).Perm (TokTree.preorderAll trees') := by
  rw [preorderAll_eq_flatMap, preorderAll_eq_flatMap]
  exact h.flatMap_right _

theorem LocationObject.preorder_locationMember (o : LocationObject) :
    o.locationMember.preorder =
      [⟨o.locationKey.type, o.locationKey.span.start, o.locationKey.span.stop, 1⟩,
        ⟨.string, o.location.start, o.location.stop, 0⟩] := by
  simp [locationMember, Key.member, Span.str, TokTree.preorder, TokTree.preorderAll]

theorem LocationObject.preorder_modulesMember (o : LocationObject) :
    o.modulesMember.preorder =
      ⟨o.modulesKey.type, o.modulesKey.span.start, o.modulesKey.span.stop, 1⟩ ::
        ⟨.array, o.modulesSpan.start, o.modulesSpan.stop, o.modules.length⟩ ::
          o.modules.map fun m => ⟨.string, m.start, m.stop, 0⟩ := by
  simp [modulesMember, Key.member, TokTree.preorder, TokTree.preorderAll, preorderAll_str]

theorem length_scalarMembers (others : List (Key × Key)) :
    (TokTree.preorderAll (scalarMembers others)).length = 2 * others.length := by
  induction others with
  | nil => simp [scalarMembers, TokTree.preorderAll]
  | cons m others ih =>
      unfold scalarMembers at ih ⊢
      rw [List.map_cons, TokTree.preorderAll, List.length_append, ih]
      simp [TokTree.preorderAll, TokTree.preorder, Key.member, Key.scalar]
      omega

theorem mem_scalarMembers {others : List (Key × Key)} {tok : Tok}
    (h : tok ∈ TokTree.preorderAll (scalarMembers others)) :
    ∃ m ∈ others, tok = ⟨m.1.type, m.1.span.start, m.1.span.stop, 1⟩ ∨
      tok = ⟨m.2.type, m.2.span.start, m.2.span.stop, 0⟩ := by
  rw [preorderAll_eq_flatMap, List.mem_flatMap] at h
  obtain ⟨tree, htree, htok⟩ := h
  obtain ⟨m, hm, rfl⟩ := List.mem_map.mp htree
  simp only [Key.member, Key.scalar, TokTree.preorder, TokTree.preorderAll, List.mem_cons,
    List.not_mem_nil, List.append_nil, or_false, List.length_cons, List.length_nil] at htok
  exact ⟨m, hm, htok⟩

/-- The walk stays in the object. -/
theorem LocationLayout.length_members (l : LocationLayout) (hmodules : l.object.modules ≠ []) :
    l.members.length + 1 < (TokTree.preorderAll l.members).length := by
  have hpos : 0 < l.object.modules.length := List.length_pos_of_ne_nil hmodules
  have hcount := l.perm.length_eq
  have htokens := (preorderAll_perm l.perm).length_eq
  rw [TokTree.preorderAll, TokTree.preorderAll, l.object.preorder_locationMember,
    l.object.preorder_modulesMember] at htokens
  simp only [List.length_append, List.length_cons, List.length_nil, List.length_map,
    length_scalarMembers] at htokens
  simp only [List.length_cons, scalarMembers, List.length_map] at hcount
  omega

/-! ## The offset of a key -/

/-- A token that `jsoneq` finds to read `name`. -/
def Reads (content name : Bytes) (tok : Tok) : Prop :=
  (tok.type = .string ∨ tok.type = .primitive) ∧ tok.text content = name

theorem jsoneq_iff_reads {content stale name : Bytes} {tok : Tok}
    (hstop : tok.stop ≤ content.length) :
    jsoneq (content ++ stale) tok name = true ↔ Reads content name tok := by
  by_cases htype : tok.type = .string ∨ tok.type = .primitive
  · rw [jsoneq_key hstop htype, beq_iff_eq, Reads, and_iff_right htype]
  · refine iff_of_false ?_ fun h => htype h.1
    rw [not_or] at htype
    simp [jsoneq, htype.1, htype.2]

/-- Where only the key of one member reads a name, the token that reads it is this key. -/
theorem offset_of_reads {content name : Bytes} {before after rest : List TokTree} {m : TokTree}
    {key : Tok} {value : List Tok} (hm : m.preorder = key :: value)
    (hperm : (before ++ m :: after).Perm (m :: rest))
    (hvalue : ∀ tok ∈ value, ¬ Reads content name tok)
    (hrest : ∀ tok ∈ TokTree.preorderAll rest, ¬ Reads content name tok) {k : ℕ} {tok : Tok}
    (hk : (TokTree.preorderAll (before ++ m :: after))[k]? = some tok)
    (hreads : Reads content name tok) : k = (TokTree.preorderAll before).length := by
  have hothers : ∀ tok ∈ TokTree.preorderAll before ++ TokTree.preorderAll after,
      ¬ Reads content name tok := by
    intro tok htok
    have hsame : (before ++ after).Perm rest := (List.perm_middle.symm.trans hperm).cons_inv
    apply hrest
    rw [← (preorderAll_perm hsame).mem_iff, TokTree.preorderAll_append]
    exact htok
  rw [TokTree.preorderAll_append, TokTree.preorderAll, hm] at hk
  by_contra hne
  rcases Nat.lt_or_gt_of_ne hne with hlt | hgt
  · rw [List.getElem?_append_left hlt] at hk
    exact hothers tok (List.mem_append_left _ (List.mem_of_getElem? hk)) hreads
  · rw [List.getElem?_append_right (Nat.le_of_lt hgt)] at hk
    obtain ⟨j, hj⟩ := Nat.exists_eq_succ_of_ne_zero (Nat.sub_ne_zero_of_lt hgt)
    rw [hj, List.cons_append, List.getElem?_cons_succ] at hk
    rcases List.mem_append.mp (List.mem_of_getElem? hk) with hin | hin
    · exact hvalue tok hin hreads
    · exact hothers tok (List.mem_append_right _ hin) hreads

/-! ## What is read of a layout -/

section Layout

variable {content stale : Bytes} {t : ℕ → Tok} {i : ℕ} {l : LocationLayout}

/-- The object is followed by the tokens of its members. -/
theorem LocationLayout.FirstAt.token (hat : l.FirstAt t i) {k : ℕ} {tok : Tok}
    (hk : (TokTree.preorderAll l.members)[k]? = some tok) : t (i + 2 + 1 + k) = tok := by
  have hrow := hat.row (k + 1) tok (by rw [tree, TokTree.preorder, List.getElem?_cons_succ, hk])
  rwa [Nat.add_comm k 1, ← Nat.add_assoc] at hrow

theorem LocationLayout.FirstAt.object (hat : l.FirstAt t i) :
    (t (i + 2)).type = .object ∧ (t (i + 2)).size = l.members.length := by
  have hrow := hat.row 0 _ (by rw [tree, TokTree.preorder, List.getElem?_cons_zero])
  rw [Nat.add_zero] at hrow
  rw [hrow]
  exact ⟨rfl, rfl⟩

/-- A token the walk looks at lies in the file. -/
theorem LocationLayout.FirstAt.stop_le (hat : l.FirstAt t i) (hwf : l.WellFormed content) {k : ℕ}
    (hk : k < (TokTree.preorderAll l.members).length) :
    (t (i + 2 + 1 + k)).stop ≤ content.length := by
  have htok := List.getElem?_eq_getElem hk
  rw [hat.token htok]
  apply (hwf.inside _ _).2
  rw [tree, TokTree.preorder]
  exact List.mem_cons_of_mem _ (List.mem_of_getElem? htok)

/-- The last token read as `location` is followed by the location, the last one read as `modules` by
the modules. -/
structure ReadsLast (content json : Bytes) (t : ℕ → Tok) (loc : ℕ) (o : LocationObject) : Prop where
  location : ∃ h, lastRead json t loc (ascii "location") = some h ∧
    (t (loc + 1 + h + 1)).text json = o.location.text content
  modules : ∃ h, lastRead json t loc (ascii "modules") = some h ∧
    readModules json t (loc + 1 + h + 1) = o.chain content

theorem LocationObject.WellFormed.length_text {o : LocationObject} (ho : o.WellFormed content) :
    (o.location.text content).length = o.location.stop - o.location.start ∧
      o.location.text content ≠ [] := by
  obtain ⟨hlt, hstop⟩ := ho.location
  have hlength : (o.location.text content).length = o.location.stop - o.location.start :=
    Tok.length_text (show Tok.stop ⟨.string, o.location.start, o.location.stop, 0⟩ ≤ _ from hstop)
  refine ⟨hlength, fun hnil => ?_⟩
  rw [hnil] at hlength
  simp only [List.length_nil] at hlength
  omega

theorem readLocation_iff_readsLast (stale : Bytes) (hat : l.FirstAt t i) (hwf : l.WellFormed content) :
    (((content ++ stale).drop (readLocation (content ++ stale) t (i + 2)).path).take
          (readLocation (content ++ stale) t (i + 2)).nPath = l.object.location.text content ∧
        (readLocation (content ++ stale) t (i + 2)).nPath = (l.object.location.text content).length ∧
        (readLocation (content ++ stale) t (i + 2)).modulesChain = l.object.chain content) ↔
      ReadsLast content (content ++ stale) t (i + 2) l.object := by
  have hobject := hat.object
  have hne := hwf.object.length_text.2
  have hchain : l.object.chain content ≠ [] := by
    simpa [LocationObject.chain] using hwf.object.modules
  rw [readLocation_visits]
  dsimp only
  constructor
  · rintro ⟨hpath, hn, hmodules⟩
    -- a name that is not read leaves the route without a path, or without modules
    constructor
    · cases hlast : lastRead (content ++ stale) t (i + 2) (ascii "location") with
      | none =>
          rw [hlast] at hn
          exact absurd (List.eq_nil_of_length_eq_zero hn.symm) hne
      | some h =>
          rw [hlast] at hpath
          exact ⟨h, rfl, hpath⟩
    · cases hlast : lastRead (content ++ stale) t (i + 2) (ascii "modules") with
      | none =>
          rw [hlast] at hmodules
          exact absurd hmodules.symm hchain
      | some h =>
          rw [hlast] at hmodules
          exact ⟨h, rfl, hmodules⟩
  · rintro ⟨⟨h, hlast, htext⟩, ⟨h', hlast', hmodules⟩⟩
    rw [hlast, hlast']
    refine ⟨htext, ?_, hmodules⟩
    -- the token behind an offset the walk looks at is one of the object's
    have hvisit := (List.mem_filter.mp (List.mem_of_getLast? hlast)).1
    have hle := (le_of_mem_visitsFrom hvisit).2
    have hroom := l.length_members hwf.object.modules
    rw [hobject.2] at hle
    have hstop : (t (i + 2 + 1 + h + 1)).stop ≤ content.length :=
      hat.stop_le hwf (k := h + 1) (by omega)
    rw [← htext, Tok.text_append _ hstop, Tok.length_text hstop]

/-- The tokens of a member stand behind those of the members in front of it. -/
theorem LocationLayout.FirstAt.member (hat : l.FirstAt t i) {before after : List TokTree}
    {m : TokTree} (hsplit : l.members = before ++ m :: after) {k : ℕ} {tok : Tok}
    (hk : m.preorder[k]? = some tok) :
    t (i + 2 + 1 + ((TokTree.preorderAll before).length + k)) = tok := by
  apply hat.token
  rw [hsplit, TokTree.preorderAll_append, TokTree.preorderAll,
    List.getElem?_append_right (Nat.le_add_right _ _), Nat.add_sub_cancel_left,
    List.getElem?_append_left (List.getElem?_eq_some_iff.mp hk).1, hk]

theorem LocationLayout.FirstAt.key (hat : l.FirstAt t i) {before after : List TokTree}
    {m : TokTree} (hsplit : l.members = before ++ m :: after) {key : Tok} {value : List Tok}
    (hm : m.preorder = key :: value) :
    t (i + 2 + 1 + (TokTree.preorderAll before).length) = key :=
  hat.member hsplit (k := 0) (by rw [hm, List.getElem?_cons_zero])

/-- A member with a key that no other token of the object reads. -/
structure OnlyKey (content name : Bytes) (l : LocationLayout) (m : TokTree) (rest : List TokTree)
    (key : Tok) (value : List Tok) : Prop where
  preorder : m.preorder = key :: value
  perm : l.members.Perm (m :: rest)
  key : Reads content name key
  value : ∀ tok ∈ value, ¬ Reads content name tok
  rest : ∀ tok ∈ TokTree.preorderAll rest, ¬ Reads content name tok

section OnlyKey

variable {name : Bytes} {m : TokTree} {rest : List TokTree} {key : Tok} {value : List Tok}

theorem OnlyKey.offset_lt (honly : OnlyKey content name l m rest key value)
    {before after : List TokTree} (hsplit : l.members = before ++ m :: after) :
    (TokTree.preorderAll before).length < (TokTree.preorderAll l.members).length := by
  rw [hsplit, TokTree.preorderAll_append, TokTree.preorderAll, honly.preorder]
  simp only [List.length_append, List.length_cons]
  omega

/-- The name is read at the offset of the key. -/
theorem OnlyKey.reads_iff (honly : OnlyKey content name l m rest key value) (stale : Bytes)
    (hat : l.FirstAt t i) (hwf : l.WellFormed content) {before after : List TokTree}
    (hsplit : l.members = before ++ m :: after) {h : ℕ}
    (hh : h < (TokTree.preorderAll l.members).length) :
    reads (content ++ stale) t (i + 2) name h = true ↔
      h = (TokTree.preorderAll before).length := by
  unfold reads
  rw [jsoneq_iff_reads (hat.stop_le hwf hh)]
  constructor
  · intro hread
    -- no other token of the object reads the name
    obtain ⟨tok, htok⟩ : ∃ tok, (TokTree.preorderAll l.members)[h]? = some tok :=
      ⟨_, List.getElem?_eq_getElem hh⟩
    rw [hat.token htok] at hread
    rw [hsplit] at htok
    have hperm := honly.perm
    rw [hsplit] at hperm
    exact offset_of_reads honly.preorder hperm honly.value honly.rest htok hread
  · rintro rfl
    rw [hat.key hsplit honly.preorder]
    exact honly.key

theorem OnlyKey.split (honly : OnlyKey content name l m rest key value) :
    ∃ before after, l.members = before ++ m :: after :=
  List.append_of_mem (honly.perm.mem_iff.mpr (List.mem_cons_self ..))

/-- Behind the token that reads the name stands the value. -/
theorem OnlyKey.behind {tok : Tok} (honly : OnlyKey content name l m rest key (tok :: value))
    (stale : Bytes) (hat : l.FirstAt t i) (hwf : l.WellFormed content) {j : ℕ}
    (hj : j < (TokTree.preorderAll l.members).length)
    (hread : reads (content ++ stale) t (i + 2) name j = true) :
    t (i + 2 + 1 + (j + 1)) = tok := by
  obtain ⟨before, after, hsplit⟩ := honly.split
  rw [honly.reads_iff stale hat hwf hsplit hj] at hread
  rw [hread]
  apply hat.member hsplit
  rw [honly.preorder, List.getElem?_cons_succ, List.getElem?_cons_zero]

/-- The name is read last at the key, if the key is in reach. -/
theorem OnlyKey.lastRead_iff (honly : OnlyKey content name l m rest key value) (stale : Bytes)
    (hat : l.FirstAt t i) (hwf : l.WellFormed content)
    (hprev : ∀ j < (TokTree.preorderAll l.members).length, t (i + 2 + 1 + (j + 1)) = key →
      readsKey (content ++ stale) t (i + 2) j = false)
    {before after : List TokTree} (hsplit : l.members = before ++ m :: after) (h : ℕ) :
    lastRead (content ++ stale) t (i + 2) name = some h ↔
      h = (TokTree.preorderAll before).length ∧
        (TokTree.preorderAll before).length ≤ l.members.length := by
  have hobject := hat.object.2
  have hroom := l.length_members hwf.object.modules
  rw [← hobject]
  apply lastRead_eq_some_iff
  · exact (honly.reads_iff stale hat hwf hsplit (honly.offset_lt hsplit)).mpr rfl
  · intro h hle
    exact (honly.reads_iff stale hat hwf hsplit (by omega)).mp
  · intro j hj
    have hlt := honly.offset_lt hsplit
    apply hprev j (by omega)
    rw [hj]
    exact hat.key hsplit honly.preorder

theorem OnlyKey.inReach_iff (honly : OnlyKey content name l m rest key value)
    (hat : l.FirstAt t i) (hwf : l.WellFormed content) {before after : List TokTree}
    (hsplit : l.members = before ++ m :: after) :
    l.InReach m ↔ (TokTree.preorderAll before).length ≤ l.members.length := by
  constructor
  · rintro ⟨before', after', hsplit', hreach⟩
    -- there is no second place for the key
    have hlt := honly.offset_lt hsplit'
    have hread := (honly.reads_iff [] hat hwf hsplit' hlt).mpr rfl
    rwa [(honly.reads_iff [] hat hwf hsplit hlt).mp hread] at hreach
  · exact fun hreach => ⟨before, after, hsplit, hreach⟩

end OnlyKey

/-! ## Layouts without misleading values -/

/-- A string reads what its text is. -/
theorem not_reads_text {name : Bytes} (hname : IsName name) {tok : Tok}
    (htext : ¬ IsName (tok.text content)) : ¬ Reads content name tok := by
  rintro ⟨-, rfl⟩
  exact htext hname

theorem LocationLayout.Plain.not_reads_scalars (hplain : l.Plain content) (hwf : l.WellFormed content)
    {name : Bytes} (hname : IsName name) :
    ∀ tok ∈ TokTree.preorderAll (scalarMembers l.others), ¬ Reads content name tok := by
  intro tok htok
  obtain ⟨m, hm, rfl | rfl⟩ := mem_scalarMembers htok
  · exact not_reads_text hname (hwf.others m hm)
  · exact not_reads_text hname (hplain.others m hm)

theorem LocationLayout.Plain.onlyLocation (hplain : l.Plain content) (hwf : l.WellFormed content) :
    OnlyKey content (ascii "location") l l.object.locationMember
      (l.object.modulesMember :: scalarMembers l.others)
      ⟨l.object.locationKey.type, l.object.locationKey.span.start, l.object.locationKey.span.stop, 1⟩
      [⟨.string, l.object.location.start, l.object.location.stop, 0⟩] := by
  refine ⟨l.object.preorder_locationMember, l.perm, ⟨l.object.locationKey.type_eq,
    hwf.object.locationKey⟩, ?_, ?_⟩
  · intro tok htok
    obtain rfl := List.mem_singleton.mp htok
    exact not_reads_text (Or.inl rfl) hplain.location
  · intro tok htok
    rw [TokTree.preorderAll, l.object.preorder_modulesMember, List.mem_append, List.mem_cons,
      List.mem_cons, List.mem_map] at htok
    rcases htok with (rfl | rfl | ⟨m, hm, rfl⟩) | htok
    · rintro ⟨-, htext⟩
      exact absurd (hwf.object.modulesKey.symm.trans htext) (by decide)
    · rintro ⟨htype, -⟩
      simp at htype
    · exact not_reads_text (Or.inl rfl) (hplain.modules m hm)
    · exact hplain.not_reads_scalars hwf (Or.inl rfl) tok htok

theorem LocationLayout.Plain.onlyModules (hplain : l.Plain content) (hwf : l.WellFormed content) :
    OnlyKey content (ascii "modules") l l.object.modulesMember
      (l.object.locationMember :: scalarMembers l.others)
      ⟨l.object.modulesKey.type, l.object.modulesKey.span.start, l.object.modulesKey.span.stop, 1⟩
      (⟨.array, l.object.modulesSpan.start, l.object.modulesSpan.stop, l.object.modules.length⟩ ::
        l.object.modules.map fun m => ⟨.string, m.start, m.stop, 0⟩) := by
  refine ⟨l.object.preorder_modulesMember, l.perm.trans (List.Perm.swap ..),
    ⟨l.object.modulesKey.type_eq, hwf.object.modulesKey⟩, ?_, ?_⟩
  · intro tok htok
    rw [List.mem_cons, List.mem_map] at htok
    rcases htok with rfl | ⟨m, hm, rfl⟩
    · rintro ⟨htype, -⟩
      simp at htype
    · exact not_reads_text (Or.inr rfl) (hplain.modules m hm)
  · intro tok htok
    rw [TokTree.preorderAll, l.object.preorder_locationMember, List.mem_append, List.mem_cons,
      List.mem_singleton] at htok
    rcases htok with (rfl | rfl) | htok
    · rintro ⟨-, htext⟩
      exact absurd (hwf.object.locationKey.symm.trans htext) (by decide)
    · exact not_reads_text (Or.inr rfl) hplain.location
    · exact hplain.not_reads_scalars hwf (Or.inr rfl) tok htok

/-- A token that reads a key is not followed by a key. -/
theorem LocationLayout.Plain.not_readsKey (hplain : l.Plain content) (hwf : l.WellFormed content)
    (hat : l.FirstAt t i) {name : Bytes} (hname : IsName name) {key : Tok}
    (hkey : Reads content name key) (j : ℕ) (hj : j < (TokTree.preorderAll l.members).length)
    (hnext : t (i + 2 + 1 + (j + 1)) = key) :
    readsKey (content ++ stale) t (i + 2) j = false := by
  unfold readsKey
  rw [Bool.or_eq_false_iff]
  constructor
  · -- behind the key `location` stands its text
    by_contra hread
    rw [Bool.not_eq_false] at hread
    have hvalue := (hplain.onlyLocation hwf).behind stale hat hwf hj hread
    rw [← hnext, hvalue] at hkey
    obtain ⟨-, rfl⟩ := hkey
    exact hplain.location hname
  · -- behind the key `modules` stands an array
    by_contra hread
    rw [Bool.not_eq_false] at hread
    have hvalue := (hplain.onlyModules hwf).behind stale hat hwf hj hread
    rw [← hnext, hvalue] at hkey
    obtain ⟨htype, -⟩ := hkey
    simp at htype

/-- Both keys of such an object are read, with their values, exactly if they are in reach. -/
theorem LocationLayout.Plain.readsLast_iff (hplain : l.Plain content) (hwf : l.WellFormed content)
    (hat : l.FirstAt t i) :
    ReadsLast content (content ++ stale) t (i + 2) l.object ↔
      l.InReach l.object.locationMember ∧ l.InReach l.object.modulesMember := by
  have hloc := hplain.onlyLocation hwf
  have hmod := hplain.onlyModules hwf
  obtain ⟨before, after, hsplit⟩ := hloc.split
  obtain ⟨before', after', hsplit'⟩ := hmod.split
  have hlastloc := hloc.lastRead_iff stale hat hwf
    (hplain.not_readsKey hwf hat (Or.inl rfl) hloc.key) hsplit
  have hlastmod := hmod.lastRead_iff stale hat hwf
    (hplain.not_readsKey hwf hat (Or.inr rfl) hmod.key) hsplit'
  rw [hloc.inReach_iff hat hwf hsplit, hmod.inReach_iff hat hwf hsplit']
  constructor
  · rintro ⟨⟨h, hlast, -⟩, ⟨h', hlast', -⟩⟩
    exact ⟨((hlastloc h).mp hlast).2, ((hlastmod h').mp hlast').2⟩
  · rintro ⟨hreach, hreach'⟩
    constructor
    · -- the location is the value of its key
      refine ⟨_, (hlastloc _).mpr ⟨rfl, hreach⟩, ?_⟩
      have hvalue := hat.member hsplit (k := 1) (by rw [hloc.preorder]; rfl)
      rw [Nat.add_assoc (i + 2 + 1), hvalue]
      exact Tok.text_append _ hwf.object.location.2
    · -- the modules are the elements of the array behind theirs
      refine ⟨_, (hlastmod _).mpr ⟨rfl, hreach'⟩, ?_⟩
      have harray := hat.member hsplit' (k := 1) (by rw [hmod.preorder]; rfl)
      rw [Nat.add_assoc (i + 2 + 1)]
      apply readModules_eq
      · rw [harray]
      · intro k hk
        have hget : l.object.modulesMember.preorder[k + 2]? =
            some ⟨.string, l.object.modules[k].start, l.object.modules[k].stop, 0⟩ := by
          rw [hmod.preorder]
          simp [hk]
        rw [← hat.member hsplit' hget]
        congr 1
        omega
      · intro m hm
        have hmem : (⟨.string, m.start, m.stop, 0⟩ : Tok) ∈ l.tree.preorder := by
          rw [LocationLayout.tree, TokTree.preorder]
          apply List.mem_cons_of_mem
          rw [(preorderAll_perm hmod.perm).mem_iff, TokTree.preorderAll, hmod.preorder]
          simp only [List.mem_append, List.mem_cons, List.mem_map]
          exact Or.inl (Or.inr (Or.inr ⟨m, hm, rfl⟩))
        exact (hwf.inside _ hmem).2

/-- The slots of the first object of an array. -/
theorem ObjectsAt.firstAt {span : Span} {o : KeyedObject} {rest : List KeyedObject}
    (hat : ObjectsAt content t i span (o :: rest)) (htree : o.tree = l.tree) : l.FirstAt t i := by
  refine ⟨⟨hat.array.1, ?_⟩, fun k tok hk => ?_⟩
  · rw [hat.array.2]
    exact Nat.succ_ne_zero _
  · rw [← htree] at hk
    refine (hat.token ?_).1
    rw [List.map_cons, TokTree.preorderAll,
      List.getElem?_append_left (List.getElem?_eq_some_iff.mp hk).1]
    exact hk

/-- **Of the objects of the `locations` array the first one gets the route of its `location` and its
`modules`, whatever the order of its keys, exactly if the last of the tokens looked at that reads
`location` is followed by the location, and the last one that reads `modules` by the modules.  No other
object gets one.  Where no value reads like one of the two keys, this means that there are no more tokens
in front of either key than the object has keys.** -/
theorem insertsRoute_layout_iff {Code : Type} (compile : Option Bytes → Option Code) {span : Span}
    {objects : List KeyedObject} {o : KeyedObject} {k : ℕ}
    (hat : ObjectsAt content t i span objects) (hk : objects[k]? = some o) (htree : o.tree = l.tree)
    (hwf : l.WellFormed content) (config : Config Code) :
    (InsertsRoute k config (locationsParser compile (content ++ stale) t i config)
        (l.object.location.text content) (l.object.chain content) ↔
      k = 0 ∧ ReadsLast content (content ++ stale) t (i + 2) l.object) ∧
    (l.Plain content →
      (InsertsRoute k config (locationsParser compile (content ++ stale) t i config)
          (l.object.location.text content) (l.object.chain content) ↔
        k = 0 ∧ l.InReach l.object.locationMember ∧ l.InReach l.object.modulesMember)) := by
  have hlt := (List.getElem?_eq_some_iff.mp hk).1
  have hchain : l.object.chain content ≠ [] := by
    simpa [LocationObject.chain] using hwf.object.modules
  have hfirst : k = 0 → l.FirstAt t i := by
    rintro rfl
    obtain ⟨first, rest, rfl⟩ := List.exists_cons_of_length_pos hlt
    obtain rfl : first = o := Option.some.inj hk
    exact hat.firstAt htree
  have hiff : InsertsRoute k config (locationsParser compile (content ++ stale) t i config)
      (l.object.location.text content) (l.object.chain content) ↔
        k = 0 ∧ ReadsLast content (content ++ stale) t (i + 2) l.object :=
    (insertsRoute_iff compile hat hlt config hwf.object.length_text.2 hchain).trans
      (and_congr_right fun hzero => readLocation_iff_readsLast stale (hfirst hzero) hwf)
  exact ⟨hiff, fun hplain => hiff.trans
    (and_congr_right fun hzero => hplain.readsLast_iff hwf (hfirst hzero))⟩

end Layout

/-! ## Two objects -/

/-- `{location:"/a",modules:["m"],x:"y"}`. -/
def otherLayout : LocationLayout where
  object := { sampleLocation 0 with span := ⟨0, 35⟩ }
  others := [(⟨false, 29, 30⟩, ⟨true, 32, 33⟩)]
  members := _
  perm := List.Perm.refl _

def otherContent : Bytes :=
  ascii "\x7blocation:\"/a\",modules:[\"m\"],x:\"y\"\x7d"

/-- The object as one with any keys. -/
def otherObject : KeyedObject where
  span := ⟨0, 35⟩
  members :=
    [(⟨false, ⟨1, 9⟩⟩, Span.str ⟨11, 13⟩), (⟨false, ⟨15, 22⟩⟩, .node .array 23 28 [Span.str ⟨25, 26⟩]),
      (⟨false, ⟨29, 30⟩⟩, Span.str ⟨32, 33⟩)]

/-- Another key behind the two makes no difference. -/
theorem insertsRoute_other : InsertsRoute 0 (⟨[], [], [], []⟩ : Config Unit)
    (locationsParser (fun _ => none) (otherContent ++ []) (objectTokens [otherObject]) 0 ⟨[], [], [], []⟩)
    (ascii "/a") [⟨ascii "m", .golang⟩] := by
  have hwf : otherLayout.WellFormed otherContent := ⟨by decide +kernel, by decide, by decide +kernel⟩
  have hplain : otherLayout.Plain otherContent := ⟨by decide, by decide, by decide⟩
  have hat : ObjectsAt otherContent (objectTokens [otherObject]) 0 ⟨0, 0⟩ [otherObject] :=
    objectTokens_at (by decide +kernel)
  have hfirst : [otherObject][0]? = some otherObject := rfl
  apply ((insertsRoute_layout_iff _ hat hfirst (l := otherLayout) rfl hwf _).2 hplain).mpr
  exact ⟨rfl, ⟨[], _, rfl, by decide⟩, ⟨[otherLayout.object.locationMember], _, rfl, by decide +kernel⟩⟩

/-- `{modules:["m"],location:"/a"}`. -/
def swappedLayout : LocationLayout where
  object :=
    { span := ⟨0, 29⟩
      locationKey := ⟨false, 15, 23⟩
      location := ⟨25, 27⟩
      modulesKey := ⟨false, 1, 8⟩
      modulesSpan := ⟨9, 14⟩
      modules := [⟨11, 12⟩] }
  others := []
  members := _
  perm := List.Perm.swap ..

def swappedContent : Bytes :=
  ascii "\x7bmodules:[\"m\"],location:\"/a\"\x7d"

/-- The object as one with any keys. -/
def swappedObject : KeyedObject where
  span := ⟨0, 29⟩
  members :=
    [(⟨false, ⟨1, 8⟩⟩, .node .array 9 14 [Span.str ⟨11, 12⟩]), (⟨false, ⟨15, 23⟩⟩, Span.str ⟨25, 27⟩)]

/-- With `modules` in front `location` is out of reach. -/
theorem not_insertsRoute_swapped : swappedObject.tree = swappedLayout.tree ∧
    swappedLayout.WellFormed swappedContent ∧
    ¬ InsertsRoute 0 (⟨[], [], [], []⟩ : Config Unit)
      (locationsParser (fun _ => none) swappedContent (objectTokens [swappedObject]) 0 ⟨[], [], [], []⟩)
      (ascii "/a") [⟨ascii "m", .golang⟩] := by
  refine ⟨rfl, ⟨by decide +kernel, by decide, by decide +kernel⟩, ?_⟩
  rintro ⟨added, r, hroutes, hadded, -⟩
  have hnone : (locationsParser (fun _ => (none : Option Unit)) swappedContent
      (objectTokens [swappedObject]) 0 ⟨[], [], [], []⟩).2.routes = [] := by
    apply List.eq_nil_of_length_eq_zero
    decide +kernel
  rw [hnone] at hroutes
  rw [← hroutes.trans (List.nil_append added)] at hadded
  cases hadded

end Gfhttpd.Conf
