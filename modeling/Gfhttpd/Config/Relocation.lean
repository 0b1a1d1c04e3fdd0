import Gfhttpd.Config.Settings

/-!
# The same tokens in another buffer (`main/config/config.c`)

What `conf_load` makes of a block depends on the texts of the tokens and on what `pcre2_compile` makes
of the memory from them on, not on where in the buffer the texts stand.

- `SameTokens`: two buffers with the same tokens
- `SameTokens.searchMap`: they are searched alike
- `sameTokens_front`, `sameTokens_shift`: a longer buffer, and one with bytes in front
-/

namespace Gfhttpd.Conf

open Http

variable {Code : Type} {compile : Option Bytes → Option Code} {json json' : Bytes} {t t' : ℕ → Tok}

/-- The slots hold tokens of the same kind, with the same text and the same pattern. -/
structure SameTokens (compile : Option Bytes → Option Code) (json json' : Bytes) (t t' : ℕ → Tok) :
    Prop where
  type : ∀ i, (t i).type = (t' i).type
  size : ∀ i, (t i).size = (t' i).size
  length : ∀ i, (t i).stop - (t i).start = (t' i).stop - (t' i).start
  text : ∀ i, (t i).text json = (t' i).text json'
  pattern : ∀ i,
    parseRegex compile (json.drop (t i).start) = parseRegex compile (json'.drop (t' i).start)

/-- In memory without a NUL no pattern ends. -/
theorem parseRegex_drop {mem : Bytes} (hnul : (0 : UInt8) ∉ mem) (start : ℕ) :
    parseRegex compile (mem.drop start) = compile none := by
  have hdrop : (0 : UInt8) ∉ mem.drop start := fun hmem => hnul (List.mem_of_mem_drop hmem)
  rw [parseRegex, zeroTerminated, if_neg hdrop]

namespace SameTokens

/-! ## One location object -/

theorem jsoneq (h : SameTokens compile json json' t t') (i : ℕ) (name : Bytes) :
    Conf.jsoneq json (t i) name = Conf.jsoneq json' (t' i) name := by
  rw [Conf.jsoneq, Conf.jsoneq, h.type, h.length, h.text]

theorem print (h : SameTokens compile json json' t t') (i n : ℕ) :
    (t i).print json n = (t' i).print json' n := by
  rw [Tok.print, Tok.print, h.text]

theorem readModules (h : SameTokens compile json json' t t') (keys : ℕ) :
    Conf.readModules json t keys = Conf.readModules json' t' keys := by
  rw [Conf.readModules, Conf.readModules, h.size]
  apply List.map_congr_left
  intro i _
  rw [readModule, readModule, h.print]

theorem visitsFrom (h : SameTokens compile json json' t t') (location fuel k : ℕ) :
    Conf.visitsFrom json t location fuel k = Conf.visitsFrom json' t' location fuel k := by
  induction fuel generalizing k with
  | zero => rfl
  | succ fuel ih =>
      have hkey : readsKey json t location k = readsKey json' t' location k := by
        rw [readsKey, readsKey, reads, reads, reads, reads, h.jsoneq, h.jsoneq]
      rw [Conf.visitsFrom, Conf.visitsFrom, h.size, hkey, ih]

theorem lastRead (h : SameTokens compile json json' t t') (location : ℕ) (name : Bytes) :
    Conf.lastRead json t location name = Conf.lastRead json' t' location name := by
  have hreads : reads json t location name = reads json' t' location name := by
    funext k
    rw [reads, reads, h.jsoneq]
  rw [Conf.lastRead, Conf.lastRead, visits, visits, h.size, h.visitsFrom, hreads]

theorem nPath (h : SameTokens compile json json' t t') (location : ℕ) :
    (readLocation json t location).nPath = (readLocation json' t' location).nPath := by
  rw [readLocation_visits, readLocation_visits, h.lastRead]
  cases Conf.lastRead json' t' location (ascii "location") with
  | none => rfl
  | some k => exact h.length _

theorem modulesChain (h : SameTokens compile json json' t t') (location : ℕ) :
    (readLocation json t location).modulesChain = (readLocation json' t' location).modulesChain := by
  rw [readLocation_visits, readLocation_visits, h.lastRead location (ascii "modules")]
  cases Conf.lastRead json' t' location (ascii "modules") with
  | none => rfl
  | some k => exact h.readModules _

/-- A location with a path has it from a token. -/
theorem path (h : SameTokens compile json json' t t') {location : ℕ}
    (hpath : (readLocation json t location).nPath ≠ 0) :
    ∃ k, (readLocation json t location).path = (t k).start ∧
      (readLocation json t location).nPath = (t k).stop - (t k).start ∧
      (readLocation json' t' location).path = (t' k).start := by
  rw [readLocation_visits] at hpath
  rw [readLocation_visits, readLocation_visits, ← h.lastRead location (ascii "location")]
  cases hlast : Conf.lastRead json t location (ascii "location") with
  | none => simp [hlast] at hpath
  | some k => exact ⟨_, rfl, rfl, rfl⟩

theorem insertRoute (h : SameTokens compile json json' t t') {location : ℕ}
    (hpath : (readLocation json t location).nPath ≠ 0) (routes : List (Route Code)) :
    Conf.insertRoute compile routes (json.drop (readLocation json t location).path)
        (readLocation json t location).nPath (readLocation json t location).modulesChain true =
      Conf.insertRoute compile routes (json'.drop (readLocation json' t' location).path)
        (readLocation json' t' location).nPath (readLocation json' t' location).modulesChain true := by
  obtain ⟨k, hstart, hn, hstart'⟩ := h.path hpath
  -- the path of the route and its pattern are read from the start of one token
  have htext := h.text k
  unfold Tok.text at htext
  rw [← h.modulesChain, ← h.nPath, hstart, hn, hstart', Conf.insertRoute, Conf.insertRoute, htext,
    h.pattern, h.length]

/-! ## The search of a block -/

theorem locationsLoop (h : SameTokens compile json json' t t') (locations left j : ℕ)
    (config : Config Code) :
    Conf.locationsLoop compile json t locations left j config =
      Conf.locationsLoop compile json' t' locations left j config := by
  induction left generalizing j config with
  | zero => rfl
  | succ left ih =>
      rw [Conf.locationsLoop, Conf.locationsLoop]
      dsimp only
      rw [h.type]
      split
      · -- the same locations are refused
        by_cases hrefused : (readLocation json t (locations + j + 1)).modulesChain = [] ∨
            (readLocation json t (locations + j + 1)).nPath = 0
        · have hrefused' := hrefused
          rw [h.modulesChain, h.nPath] at hrefused'
          rw [if_pos hrefused, if_pos hrefused']
        · have hrefused' := hrefused
          rw [h.modulesChain, h.nPath] at hrefused'
          rw [if_neg hrefused, if_neg hrefused', h.insertRoute (not_or.mp hrefused).2, ih]
      · rfl

theorem locationsParser (h : SameTokens compile json json' t t') (i : ℕ) (config : Config Code) :
    Conf.locationsParser compile json t i config = Conf.locationsParser compile json' t' i config := by
  rw [Conf.locationsParser, Conf.locationsParser, h.type, h.size, h.locationsLoop]

theorem jsonContains (h : SameTokens compile json json' t t') (entry : ConfigMap) (i : ℕ)
    (config : Config Code) :
    Conf.jsonContains compile json t entry i config =
      Conf.jsonContains compile json' t' entry i config := by
  rw [Conf.jsonContains, Conf.jsonContains, h.type, h.length, h.text]
  cases entry.dest with
  | some dest =>
      dsimp only
      rw [h.print]
  | none =>
      dsimp only
      rw [h.locationsParser]

theorem searchTokens (h : SameTokens compile json json' t t') (entry : ConfigMap) (is : List ℕ)
    (config : Config Code) :
    Conf.searchTokens compile json t entry is config =
      Conf.searchTokens compile json' t' entry is config := by
  induction is generalizing config with
  | nil => rfl
  | cons i is ih =>
      rw [Conf.searchTokens, Conf.searchTokens, h.jsonContains]
      dsimp only
      rw [ih]

/-- The same tokens are searched alike. -/
theorem searchMap (h : SameTokens compile json json' t t') (r : ℤ) (entries : List ConfigMap)
    (config : Config Code) :
    Conf.searchMap compile json t r entries config =
      Conf.searchMap compile json' t' r entries config := by
  induction entries generalizing config with
  | nil => rfl
  | cons entry entries ih =>
      rw [Conf.searchMap, Conf.searchMap, h.searchTokens]
      simp only [ih]

end SameTokens

/-! ## A text that begins the buffer, and one with a text in front -/

section Buffers

variable {content pad : Bytes} {toks : List Tok}

/-- Tokens that lie in the front part of the memory. -/
theorem sameTokens_front {front rest : Bytes} (hinside : ∀ i, (t i).stop ≤ front.length)
    (hnul : (0 : UInt8) ∉ front ++ rest) : SameTokens compile (front ++ rest) front t t where
  type _ := rfl
  size _ := rfl
  length _ := rfl
  text i := Tok.text_append _ (hinside i)
  pattern i := by
    rw [parseRegex_drop hnul, parseRegex_drop fun hmem => hnul (List.mem_append_left _ hmem)]

/-- The token, so many bytes further on. -/
def Tok.shift (n : ℕ) (tok : Tok) : Tok :=
  { tok with start := n + tok.start, stop := n + tok.stop }

theorem Tok.text_shift (pad content : Bytes) (tok : Tok) :
    (tok.shift pad.length).text (pad ++ content) = tok.text content := by
  have hdrop : (pad ++ content).drop (pad.length + tok.start) = content.drop tok.start := by
    rw [← List.drop_drop, List.drop_left]
  rw [text, text, shift, Nat.add_sub_add_left]
  dsimp only
  rw [hdrop]

/-- Tokens with other bytes in front. -/
theorem sameTokens_shift (hnul : (0 : UInt8) ∉ pad ++ content) :
    SameTokens compile (pad ++ content) content
      (writeTokens (fun _ => Tok.zero) 0 (toks.map (Tok.shift pad.length)))
      (writeTokens (fun _ => Tok.zero) 0 toks) := by
  have hslot : ∀ i, ∀ tok tok' : Tok,
      tok = writeTokens (fun _ => Tok.zero) 0 (toks.map (Tok.shift pad.length)) i →
      tok' = writeTokens (fun _ => Tok.zero) 0 toks i →
        tok.type = tok'.type ∧ tok.size = tok'.size ∧ tok.stop - tok.start = tok'.stop - tok'.start ∧
          tok.text (pad ++ content) = tok'.text content := by
    rintro i _ _ rfl rfl
    by_cases hi : i < toks.length
    · rw [writeTokens_of_lt hi, writeTokens_of_lt (by rwa [List.length_map]), List.getElem_map]
      exact ⟨rfl, rfl, Nat.add_sub_add_left .., Tok.text_shift ..⟩
    · -- the slots behind the tokens are zero
      rw [writeTokens_of_not_lt hi, writeTokens_of_not_lt (by rwa [List.length_map])]
      exact ⟨rfl, rfl, rfl, rfl⟩
  constructor
  · exact fun i => (hslot i _ _ rfl rfl).1
  · exact fun i => (hslot i _ _ rfl rfl).2.1
  · exact fun i => (hslot i _ _ rfl rfl).2.2.1
  · exact fun i => (hslot i _ _ rfl rfl).2.2.2
  · intro i
    rw [parseRegex_drop hnul, parseRegex_drop fun hmem => hnul (List.mem_append_right _ hmem)]

end Buffers

end Gfhttpd.Conf
