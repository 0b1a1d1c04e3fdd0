import Gfhttpd.Config.Settings
import Mathlib.Data.Nat.Digits.Defs
import Mathlib.Data.Nat.Digits.Lemmas

/-!
# The port in the file (`main/http2/listen.c`, `main/http3/http3.c`)

Both listeners take the port from `config->listen_port`, which has room for seven characters, with
`htons(atoi(..))`.

- `atoi`, and `strtol_decimal`: it reads a decimal number of up to seven digits
- `ports_configured_iff`: the numbers in a file that both servers listen on
-/

namespace Gfhttpd.Conf

open Http

variable {Code : Type}

/-! ## Reading a number -/

/-- `isspace` in the C locale. -/
def isspace (c : UInt8) : Bool :=
  c == 32 || (9 ≤ c && c ≤ 13)

/-- `isdigit`. -/
def isdigit (c : UInt8) : Bool :=
  48 ≤ c && c ≤ 57

/-- The number that decimal digits stand for. -/
def digitsValue (s : Bytes) : ℕ :=
  s.foldl (fun n c => 10 * n + (c - 48).toNat) 0

/-- `strtol(s, NULL, 10)`, with a `long` of 64 bits. -/
def strtol (s : Bytes) : ℤ :=
  let value (s : Bytes) : ℤ := digitsValue (s.takeWhile isdigit)
  match s.dropWhile isspace with
  | 45 :: s => max (-2 ^ 63) (-value s)
  | 43 :: s => min (2 ^ 63 - 1) (value s)
  | s => min (2 ^ 63 - 1) (value s)

/-- `atoi`. -/
def atoi (s : Bytes) : ℤ :=
  wrap32 (strtol s)

/-- `htons(atoi(service))`: the port, in the order of the host. -/
def servicePort (service : Bytes) : ℕ :=
  (atoi service % 2 ^ 16).toNat

/-- The port that `http2_start_listen` listens on, for `config->listen_port`. -/
def http2StartListen (config : Config Code) : ℕ :=
  servicePort config.listenPort

/-- The port that `http3_init_sock` binds. -/
def http3InitSock (config : Config Code) : ℕ :=
  servicePort config.listenPort

/-! ## Decimal numbers -/

/-- The digits, the first one in front. -/
def decimal (ds : List ℕ) : Bytes :=
  ds.map fun d => UInt8.ofNat (48 + d)

/-- The number with these digits. -/
def decimalValue (ds : List ℕ) : ℕ :=
  Nat.ofDigits 10 ds.reverse

theorem decimalValue_append (ds es : List ℕ) :
    decimalValue (ds ++ es) = 10 ^ es.length * decimalValue ds + decimalValue es := by
  rw [decimalValue, List.reverse_append, Nat.ofDigits_append, List.length_reverse, Nat.add_comm]
  rfl

theorem decimalValue_lt {ds : List ℕ} (hds : ∀ d ∈ ds, d < 10) :
    decimalValue ds < 10 ^ ds.length := by
  have hlt := Nat.ofDigits_lt_base_pow_length (b := 10) (l := ds.reverse) (by decide)
    fun d hd => hds d (List.mem_reverse.mp hd)
  rwa [List.length_reverse] at hlt

theorem digit_facts {d : ℕ} (hd : d < 10) : isdigit (UInt8.ofNat (48 + d)) = true ∧
    isspace (UInt8.ofNat (48 + d)) = false ∧ (UInt8.ofNat (48 + d) - 48).toNat = d ∧
    UInt8.ofNat (48 + d) ≠ 45 ∧ UInt8.ofNat (48 + d) ≠ 43 ∧ UInt8.ofNat (48 + d) ≠ 0 := by
  interval_cases d <;> decide

theorem digitsValue_decimal {ds : List ℕ} (hds : ∀ d ∈ ds, d < 10) :
    digitsValue (decimal ds) = decimalValue ds := by
  have hfold : ∀ n, (decimal ds).foldl (fun n c => 10 * n + (c - 48).toNat) n =
      10 ^ ds.length * n + decimalValue ds := by
    induction ds with
    | nil => simp [decimal, decimalValue]
    | cons d ds ih =>
        intro n
        obtain ⟨hd, hds⟩ := List.forall_mem_cons.mp hds
        rw [decimal, List.map_cons, List.foldl_cons, ← decimal, ih hds, (digit_facts hd).2.2.1,
          ← List.singleton_append, decimalValue_append]
        simp only [decimalValue, List.reverse_singleton, Nat.ofDigits_singleton, List.singleton_append,
          List.length_cons]
        ring
  rw [digitsValue, hfold, Nat.mul_zero, Nat.zero_add]

theorem strtol_decimal {ds : List ℕ} (hds : ∀ d ∈ ds, d < 10) :
    strtol (decimal ds) = min (2 ^ 63 - 1) (decimalValue ds : ℤ) := by
  have hall : (decimal ds).takeWhile isdigit = decimal ds := by
    rw [List.takeWhile_eq_self_iff]
    intro c hc
    obtain ⟨d, hd, rfl⟩ := List.mem_map.mp hc
    exact (digit_facts (hds d hd)).1
  have hvalue := digitsValue_decimal hds
  unfold strtol
  cases ds with
  | nil => rfl
  | cons d ds =>
      obtain ⟨-, hspace, -, hminus, hplus, -⟩ := digit_facts (hds d (List.mem_cons_self ..))
      have hdrop : (decimal (d :: ds)).dropWhile isspace = decimal (d :: ds) := by
        rw [decimal, List.map_cons, List.dropWhile_cons_of_neg (by rw [hspace]; exact Bool.false_ne_true)]
      rw [hdrop]
      dsimp only
      -- the first character is no sign
      split
      · next h => exact absurd (List.cons.inj h).1 hminus
      · next h => exact absurd (List.cons.inj h).1 hplus
      · rw [hall, hvalue]

/-- What is left of a number that does not fit into the field. -/
theorem decimalValue_take {ds : List ℕ} {n : ℕ} (hlong : n < ds.length) :
    10 * decimalValue (ds.take n) ≤ decimalValue ds := by
  have hsplit := decimalValue_append (ds.take n) (ds.drop n)
  rw [List.take_append_drop, List.length_drop] at hsplit
  rw [hsplit]
  have hpow : 10 ^ 1 ≤ 10 ^ (ds.length - n) := Nat.pow_le_pow_right (by decide) (by omega)
  have hmul := Nat.mul_le_mul_right (decimalValue (ds.take n)) hpow
  omega

/-- The numbers that are read back from the field. -/
theorem servicePort_take_iff {ds : List ℕ} (hds : ∀ d ∈ ds, d < 10) :
    servicePort ((decimal ds).take 7) = decimalValue ds ↔
      decimalValue ds < 2 ^ 16 ∧ (ds.length ≤ 7 ∨ decimalValue ds = 0) := by
  have htake : (decimal ds).take 7 = decimal (ds.take 7) := List.map_take.symm
  have hsmall : ∀ d ∈ ds.take 7, d < 10 := fun d hd => hds d (List.mem_of_mem_take hd)
  have hlt : decimalValue (ds.take 7) < 10 ^ 7 :=
    Nat.lt_of_lt_of_le (decimalValue_lt hsmall)
      (Nat.pow_le_pow_right (by decide) (List.length_take_le 7 ds))
  have hport : servicePort ((decimal ds).take 7) = decimalValue (ds.take 7) % 2 ^ 16 := by
    rw [servicePort, atoi, htake, strtol_decimal hsmall, wrap32_of_lt (by omega) (by omega)]
    omega
  rw [hport]
  by_cases hshort : ds.length ≤ 7
  · rw [List.take_of_length_le hshort]
    omega
  · have htwice := decimalValue_take (Nat.lt_of_not_le hshort)
    omega

/-! ## From the file to the listeners -/

/-- The search for `listen_port` ends at the first key of the root that reads it. -/
theorem firstMatch_rootKey {content stale name : Bytes} {t : ℕ → Tok} {root : JsmnType} {span : Span}
    {members rest : List TokTree}
    (hinside : ∀ tok ∈ documentTokens root span members rest, tok.stop ≤ content.length)
    {before after : List TokTree} {start stop : ℕ} {value : TokTree} {children : List TokTree}
    (hmembers : members = before ++ .node .primitive start stop (value :: children) :: after)
    (hkey : Span.text content ⟨start, stop⟩ = name)
    (hfirst : ∀ tok ∈ TokTree.preorderAll before, ¬ Names content name tok) :
    firstMatch (content ++ stale) (writeTokens t 0 (documentTokens root span members rest))
      (documentTokens root span members rest).length name =
        some ((TokTree.preorderAll before).length + 1) := by
  have hrootkey : RootKey members ((TokTree.preorderAll before).length + 1)
      ⟨.primitive, start, stop, (value :: children).length⟩ value.token :=
    ⟨before, .primitive, start, stop, value, children, after, hmembers, rfl, rfl, rfl⟩
  obtain ⟨k, hk, hkeytok, -⟩ := hrootkey.getElem?
  obtain rfl : (TokTree.preorderAll before).length = k := Nat.succ.inj hk
  have hlt := (List.getElem?_eq_some_iff.mp hkeytok).1
  have hroom := @length_members_lt root span members rest
  refine firstMatch_eq_some_iff.mpr ⟨by omega, (matches_member_iff hinside hkeytok).mpr ⟨rfl, hkey⟩, fun i hi hi' => ?_⟩
  -- in front of the key stand the tokens of the members before it
  obtain ⟨j, rfl⟩ := Nat.exists_eq_succ_of_ne_zero (Nat.ne_of_gt hi)
  have hj : j < (TokTree.preorderAll before).length := by omega
  have hget : (TokTree.preorderAll members)[j]? = some (TokTree.preorderAll before)[j] := by
    rw [hmembers, TokTree.preorderAll_append, List.getElem?_append_left hj, List.getElem?_eq_getElem]
  rw [Nat.succ_eq_add_one, matches_member_iff hinside hget]
  exact hfirst _ (List.getElem_mem hj)

/-- **When a file of one block is loaded, and a key of the root is the first to read `listen_port`, the
number that is its value is the port of both servers exactly if it is a port, and has at most seven
digits or is 0.** -/
theorem ports_configured_iff {P : Type} {parse : JsmnParse P} {init p' : P} {content stale : Bytes}
    {t : ℕ → Tok} {root : JsmnType} {span : Span} {members rest : List TokTree}
    (compile : Option Bytes → Option Code) (hne : content ≠ []) (hfits : content.length ≤ BUFSIZ)
    (hinside : ∀ tok ∈ documentTokens root span members rest, tok.stop ≤ content.length)
    (hparse : parse init content MAX_TOKENS =
      (p', ((documentTokens root span members rest).length : ℤ), documentTokens root span members rest))
    (config : Config Code) {res : ℤ × Config Code}
    (hres : res = confLoad parse init compile stale t (some content) config) (hload : res.1 = 0)
    {before after : List TokTree} {start stop : ℕ} {value : TokTree} {children : List TokTree}
    (hmembers : members = before ++ .node .primitive start stop (value :: children) :: after)
    (hkey : Span.text content ⟨start, stop⟩ = ascii "listen_port")
    (hfirst : ∀ tok ∈ TokTree.preorderAll before, ¬ Names content (ascii "listen_port") tok)
    {ds : List ℕ} (hds : ∀ d ∈ ds, d < 10) (hvalue : value.token.text content = decimal ds) :
    (http2StartListen res.2 = decimalValue ds ∧ http3InitSock res.2 = decimalValue ds) ↔
      decimalValue ds < 2 ^ 16 ∧ (ds.length ≤ 7 ∨ decimalValue ds = 0) := by
  have hrootkey : RootKey members ((TokTree.preorderAll before).length + 1)
      ⟨.primitive, start, stop, (value :: children).length⟩ value.token :=
    ⟨before, .primitive, start, stop, value, children, after, hmembers, rfl, rfl, rfl⟩
  obtain ⟨k, hk, hkeytok, hvaluetok⟩ := hrootkey.getElem?
  obtain rfl : (TokTree.preorderAll before).length = k := Nat.succ.inj hk
  -- the loaded field is the text behind the first match
  rw [confLoad_block compile hne hfits hparse (natCast_ne_nomem _)] at hres
  rcases hsearch : searchMap compile (content ++ stale.drop content.length)
      (writeTokens t 0 (documentTokens root span members rest))
      ((documentTokens root span members rest).length : ℤ) configMap config with ⟨_ | r, final⟩
  · rw [hsearch] at hres
    subst hres
    obtain ⟨i, hmatch, hget⟩ := (searchMap_success hsearch).fields _ (List.mem_cons_self ..) _ rfl
    have hindex : i = (TokTree.preorderAll before).length + 1 := by
      rw [firstMatch_rootKey hinside hmembers hkey hfirst] at hmatch
      exact (Option.some.inj hmatch).symm
    have hstop := hinside _ (mem_documentTokens (List.mem_of_getElem? hvaluetok))
    have hnul : (0 : UInt8) ∉ decimal ds := by
      intro hmem
      obtain ⟨d, hd, hzero⟩ := List.mem_map.mp hmem
      exact (digit_facts (hds d hd)).2.2.2.2.2 hzero
    have hport : final.listenPort = (decimal ds).take 7 := by
      rw [hindex, writeTokens_member hvaluetok, Tok.print, Tok.text_append _ hstop, hvalue,
        cstr_eq_self hnul] at hget
      exact hget
    rw [http2StartListen, http3InitSock, hport, and_self_iff]
    exact servicePort_take_iff hds
  · rw [hsearch] at hres
    rw [hres] at hload
    exact absurd (searchMap_failed hsearch) (by dsimp only at hload; omega)

/-- `listen_port:"1"`, as it is loaded. -/
def loadedOne : Config Unit :=
  (confLoad (sampleParse oneTokens) () (fun _ => none) [] (fun _ => Tok.zero) (some oneContent)
    ⟨[], [], [], []⟩).2

/-- Both servers listen on port 1. -/
theorem ports_configured_one : http2StartListen loadedOne = 1 ∧ http3InitSock loadedOne = 1 := by
  have hiff := @ports_configured_iff Unit Unit (sampleParse oneTokens) () () oneContent []
    (fun _ => Tok.zero) .object ⟨0, 86⟩ (sampleMembers 0) [] (fun _ => none) (by decide) (by decide)
    (by decide +kernel) rfl ⟨[], [], [], []⟩ _ rfl (by decide +kernel) [] _ _ _ _ _ rfl
    (by decide +kernel) (by decide) [1] (by decide) (by decide +kernel)
  exact hiff.mpr (by decide)

end Gfhttpd.Conf
