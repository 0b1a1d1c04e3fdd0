import Gfhttpd.Config.Config
import Mathlib.Data.List.GetD

/-!
# Configuration documents and their tokens

`jsmn` lays the tokens of a document out in preorder; the `size` of an object or array is
the number of its children, and the value of a key is the key's child.  A document is a tree
of tokens, `TokTree`, and `preorder` is its token array.

`Document` is a tree with the shape the configuration has: a root object with any members,
one of them `locations` with an array of location objects.
-/

namespace Gfhttpd.Conf

open Http

/-! ## Token trees -/

inductive TokTree where
  | node (type : JsmnType) (start stop : ℕ) (children : List TokTree)

namespace TokTree

mutual

/-- The tokens of a tree. -/
def preorder : TokTree → List Tok
  | node type start stop children =>
      ⟨type, start, stop, children.length⟩ :: preorderAll children

/-- The tokens of a list of trees. -/
def preorderAll : List TokTree → List Tok
  | [] => []
  | tree :: trees => preorder tree ++ preorderAll trees

end

theorem preorderAll_append (xs ys : List TokTree) :
    preorderAll (xs ++ ys) = preorderAll xs ++ preorderAll ys := by
  induction xs with
  | nil => simp [preorderAll]
  | cons x xs ih => simp [preorderAll, ih]

end TokTree

/-- The range of a token in the file. -/
structure Span where
  start : ℕ
  stop : ℕ
deriving DecidableEq

/-- The bytes of the range. -/
def Span.text (content : Bytes) (s : Span) : Bytes :=
  (content.drop s.start).take (s.stop - s.start)

/-- A string. -/
def Span.str (s : Span) : TokTree :=
  .node .string s.start s.stop []

/-- A key, quoted or not. -/
structure Key where
  quoted : Bool
  span : Span

def Key.type (k : Key) : JsmnType :=
  if k.quoted then .string else .primitive

/-- A key with its value. -/
def Key.member (k : Key) (value : TokTree) : TokTree :=
  .node k.type k.span.start k.span.stop [value]

/-! ## Documents -/

/-- `{location: <string>, modules: [<strings>]}`. -/
structure LocationObject where
  span : Span
  locationKey : Key
  location : Span
  modulesKey : Key
  modulesSpan : Span
  modules : List Span

namespace LocationObject

def tree (o : LocationObject) : TokTree :=
  .node .object o.span.start o.span.stop
    [o.locationKey.member o.location.str,
      o.modulesKey.member (.node .array o.modulesSpan.start o.modulesSpan.stop
        (o.modules.map Span.str))]

/-- The keys read as they should, the location is not empty and there is a module. -/
structure WellFormed (content : Bytes) (o : LocationObject) : Prop where
  locationKey : o.locationKey.span.text content = ascii "location"
  modulesKey : o.modulesKey.span.text content = ascii "modules"
  location : o.location.start < o.location.stop ∧ o.location.stop ≤ content.length
  modules : o.modules ≠ []

instance (content : Bytes) (o : LocationObject) : Decidable (o.WellFormed content) :=
  decidable_of_iff (o.locationKey.span.text content = ascii "location" ∧
      o.modulesKey.span.text content = ascii "modules" ∧
      (o.location.start < o.location.stop ∧ o.location.stop ≤ content.length) ∧ o.modules ≠ [])
    ⟨fun ⟨hlocation, hmodules, hspan, hne⟩ => ⟨hlocation, hmodules, hspan, hne⟩,
      fun h => ⟨h.locationKey, h.modulesKey, h.location, h.modules⟩⟩

/-- The modules of the location: a name is kept as a C string of at most 15 bytes. -/
def chain (content : Bytes) (o : LocationObject) : List Module :=
  o.modules.map fun m => ⟨(cstr (m.text content)).take (MODULE_NAME - 1), .golang⟩

end LocationObject

/-- A document with its `locations` among other members. -/
structure Document where
  span : Span
  before : List TokTree
  locationsKey : Key
  locationsSpan : Span
  locations : List LocationObject
  after : List TokTree

namespace Document

def tree (doc : Document) : TokTree :=
  .node .object doc.span.start doc.span.stop
    (doc.before ++ doc.locationsKey.member (.node .array doc.locationsSpan.start
      doc.locationsSpan.stop (doc.locations.map LocationObject.tree)) :: doc.after)

/-- The tokens `jsmn` writes for the document. -/
def tokens (doc : Document) : List Tok :=
  doc.tree.preorder

/-- The document has a root key with this text. -/
def HasRootKey (content : Bytes) (doc : Document) (name : Bytes) : Prop :=
  ∃ key value, Key.member key value ∈ doc.before ++ doc.after ∧ key.span.text content = name

/-- The documents in question: they fit into one block and into `t`, have the required root
keys and well-formed locations, and their tokens lie in the file. -/
structure WellFormed (content : Bytes) (doc : Document) : Prop where
  fits : content.length ≤ BUFSIZ
  few : doc.tokens.length ≤ 256
  inside : ∀ tok ∈ doc.tokens, tok.start ≤ tok.stop ∧ tok.stop ≤ content.length
  rootKeys : ∀ name ∈ [ascii "listen_port", ascii "cert_file", ascii "key_file"],
    doc.HasRootKey content name
  locationsKey : doc.locationsKey.span.text content = ascii "locations"
  locations : ∀ o ∈ doc.locations, o.WellFormed content

/-- The index of the root key `locations` in the token array. -/
def locationsIndex (doc : Document) : ℕ :=
  (TokTree.preorderAll doc.before).length + 1

/-- The tokens from the root key `locations` on. -/
def locationsTokens (doc : Document) : List Tok :=
  ⟨doc.locationsKey.type, doc.locationsKey.span.start, doc.locationsKey.span.stop, 1⟩ ::
    ⟨.array, doc.locationsSpan.start, doc.locationsSpan.stop, doc.locations.length⟩ ::
      (TokTree.preorderAll (doc.locations.map LocationObject.tree) ++
        TokTree.preorderAll doc.after)

theorem tokens_eq (doc : Document) :
    doc.tokens = ⟨.object, doc.span.start, doc.span.stop, doc.before.length + (1 + doc.after.length)⟩ ::
      (TokTree.preorderAll doc.before ++ doc.locationsTokens) := by
  simp only [tokens, tree, locationsTokens, TokTree.preorder, TokTree.preorderAll_append, Key.member,
    TokTree.preorderAll, List.length_append, List.length_cons, List.length_map, List.length_nil,
    List.append_nil, List.cons_append, Nat.zero_add]
  rw [Nat.add_comm doc.after.length 1]

end Document

/-- The tokens of strings. -/
theorem preorderAll_str (ms : List Span) :
    TokTree.preorderAll (ms.map Span.str) = ms.map fun m => ⟨.string, m.start, m.stop, 0⟩ := by
  induction ms with
  | nil => simp [TokTree.preorderAll]
  | cons m ms ih => simp [TokTree.preorderAll, TokTree.preorder, Span.str, ih]

/-- The tokens of one location object. -/
theorem LocationObject.preorder_tree (o : LocationObject) :
    o.tree.preorder = ⟨.object, o.span.start, o.span.stop, 2⟩ ::
      ⟨o.locationKey.type, o.locationKey.span.start, o.locationKey.span.stop, 1⟩ ::
      ⟨.string, o.location.start, o.location.stop, 0⟩ ::
      ⟨o.modulesKey.type, o.modulesKey.span.start, o.modulesKey.span.stop, 1⟩ ::
      ⟨.array, o.modulesSpan.start, o.modulesSpan.stop, o.modules.length⟩ ::
      o.modules.map fun m => ⟨.string, m.start, m.stop, 0⟩ := by
  simp [tree, TokTree.preorder, TokTree.preorderAll, Key.member, Span.str, ← preorderAll_str]

/-! ## The token array -/

/-- The array `conf_load` works on after one call of `jsmn_parse`. -/
theorem writeTokens_zero_of_getElem? {t : ℕ → Tok} {toks : List Tok} {i : ℕ} {tok : Tok}
    (h : toks[i]? = some tok) : writeTokens t 0 toks i = tok := by
  simp [writeTokens, List.getD_eq_getElem?_getD, h]

/-- A token that lies in the block reads the same in the buffer. -/
theorem Tok.text_append {content stale : Bytes} (tok : Tok) (hstop : tok.stop ≤ content.length) :
    tok.text (content ++ stale) = tok.text content := by
  by_cases hlt : tok.start ≤ content.length
  · -- the bytes behind the block are not reached
    rw [Tok.text, Tok.text, List.drop_append_of_le_length hlt, List.take_append_of_le_length]
    rw [List.length_drop]
    omega
  · -- a token behind the block is empty
    have hzero : tok.stop - tok.start = 0 := by omega
    simp [Tok.text, hzero]

end Gfhttpd.Conf
