import Gfhttpd.Http.Stream

/-!
# Routes (`main/config/routes.c`)

The route table is a `uthash` table keyed by the first `n_path` bytes of the route's text.  `HASH_ITER` follows the
order of insertion; `HASH_FIND_STR` searches a bucket from its newest entry.

`pcre2` is a parameter: `compile` maps the pattern `pcre2_compile` is handed to the compiled
code, or to `none` when it does not compile, and `Pcre2Match` is the result of `pcre2_match`.
With `PCRE2_ZERO_TERMINATED` the pattern is the C string at the pointer; the pointer is given
by the memory from there on, and when that memory holds no NUL the pattern is `none`: the read
goes past the memory.
-/

namespace Gfhttpd.Conf

open Http

variable {Code : Type}

/-- `struct route`.  `path` is the text the pointer points to. -/
structure Route (Code : Type) where
  path : Bytes
  nPath : ℕ
  modulesChain : List Module
  re : Option Code

/-- `struct route_match`. -/
structure RouteMatch (Code : Type) where
  route : Option (Route Code)
  strippedPath : Option Bytes

/-- `rm = { NULL, NULL }`. -/
def RouteMatch.null : RouteMatch Code := ⟨none, none⟩

/-- `ROOT`. -/
def ROOT : Bytes := ascii "/"

/-! ## Inserting routes -/

/-- The zero-terminated string at the start of a piece of memory. -/
def zeroTerminated (mem : Bytes) : Option Bytes :=
  if (0 : UInt8) ∈ mem then some (cstr mem) else none

/-- `parse_regex` of a pointer, given by the memory from there on. -/
def parseRegex (compile : Option Bytes → Option Code) (pattern : Bytes) : Option Code :=
  compile (zeroTerminated pattern)

/-- `insert_route`.  `path` is the memory from the pointer `path` on. -/
def insertRoute (compile : Option Bytes → Option Code) (routes : List (Route Code))
    (path : Bytes) (nPath : ℕ) (m : List Module) (regex : Bool) : List (Route Code) :=
  routes ++
    [{ path := path.take nPath
       nPath := nPath
       modulesChain := m
       re := if !regex then none else parseRegex compile path }]

/-- `create_route`: neither the length nor the modules are stored, and the pattern is compiled if
the route is no regular expression.  `path` is the memory from the pointer `path` on; it is not
copied. -/
def createRoute (compile : Option Bytes → Option Code) (path : Bytes) (_nPath : ℕ)
    (_m : List Module) (regex : Bool) : Route Code where
  path := path
  nPath := 0
  modulesChain := []
  re := if regex then none else parseRegex compile path

/-- `add_route`. -/
def addRoute (routes : List (Route Code)) (r : Route Code) : List (Route Code) :=
  routes ++ [r]

/-- `length_routes`. -/
def lengthRoutes (routes : List (Route Code)) : ℕ :=
  routes.length

/-! ## Looking routes up -/

/-- `get_route`: the return value and what is left in `rm`. -/
def getRoute (routes : List (Route Code)) (path : Bytes) (rm : RouteMatch Code) :
    ℤ × RouteMatch Code :=
  match routes.reverse.find? fun r => r.nPath == path.length && r.path.take r.nPath == path with
  | none => (-1, rm)
  | some r => (0, ⟨some r, some ROOT⟩)

/-- `PCRE2_ERROR_NOMATCH`. -/
def PCRE2_ERROR_NOMATCH : ℤ := -1

/-- What `pcre2_match` returns, with the offset pairs of `pcre2_get_ovector_pointer`. -/
structure MatchData where
  ret : ℤ
  ovector : List (ℕ × ℕ)

abbrev Pcre2Match (Code : Type) := Code → Bytes → MatchData

/-- `for (; *s != '/'; s--)` from the offset `n` of the string `s`: the offset of the slash
found, or `none` when the scan leaves the string at its start. -/
def previousSlash (s : Bytes) : ℕ → Option ℕ
  | 0 => if s[0]? = some 47 then some 0 else none
  | n + 1 => if s[n + 1]? = some 47 then some (n + 1) else previousSlash s n

/-- The `stripped_path` of a match with `ret > 0`; `none` when the pointer leaves `s`. -/
def strippedPath (s : Bytes) (md : MatchData) : Option Bytes :=
  let idx := (md.ret - 1).toNat
  if idx = 0 then some ROOT
  else
    let group := md.ovector.getD idx (0, 0)
    let full := md.ovector.getD 0 (0, 0)
    let substringLength := toSizeT (group.2 - group.1)
    let fullmatchLength := toSizeT (full.2 - full.1)
    let offset := wrap32 (toSizeT (fullmatchLength - substringLength))
    if 0 ≤ offset ∧ offset ≤ s.length then
      (previousSlash s offset.toNat).map fun n => s.drop n
    else none

/-- How `match_route` ends. -/
structure MatchRoute (Code : Type) where
  /-- the return value, `none` when `ret` was never set -/
  ret : Option ℤ
  rm : RouteMatch Code
  /-- a pointer left the subject -/
  outOfBounds : Bool

/-- The loop of `match_route` over the routes that are left. -/
def matchRouteLoop (pcre2Match : Pcre2Match Code) (s : Bytes) (rm : RouteMatch Code) :
    Option ℤ → List (Route Code) → MatchRoute Code
  | ret, [] => ⟨ret, rm, false⟩
  | ret, r :: routes =>
      match r.re with
      | none => matchRouteLoop pcre2Match s rm ret routes
      | some re =>
          let md := pcre2Match re s
          if md.ret < 0 then
            if md.ret = PCRE2_ERROR_NOMATCH then
              matchRouteLoop pcre2Match s rm (some md.ret) routes
            else ⟨some (-1), rm, false⟩
          else if md.ret = 0 then ⟨some 0, { rm with route := some r }, false⟩
          else
            match strippedPath s md with
            | none => ⟨some 0, { rm with route := some r }, true⟩
            | some p => ⟨some 0, ⟨some r, some p⟩, false⟩

/-- `match_route` on a subject that is not `NULL`. -/
def matchRoute (pcre2Match : Pcre2Match Code) (routes : List (Route Code)) (s : Bytes)
    (rm : RouteMatch Code) : MatchRoute Code :=
  matchRouteLoop pcre2Match s rm none routes

/-! ## The compiled pattern -/

/-- The code compiles the text of the route exactly if that text is followed by a NUL and has
none inside. -/
theorem zeroTerminated_eq_take_iff {mem : Bytes} {n : ℕ} (hn : n ≤ mem.length) :
    zeroTerminated mem = some (mem.take n) ↔ mem[n]? = some 0 ∧ (0 : UInt8) ∉ mem.take n := by
  induction mem generalizing n with
  | nil => simp [zeroTerminated]
  | cons c mem ih =>
      by_cases hc : c = 0
      · subst hc
        cases n with
        | zero => simp [zeroTerminated, cstr]
        | succ n => simp [zeroTerminated, cstr]
      · have hcons : zeroTerminated (c :: mem) = (zeroTerminated mem).map (c :: ·) := by
          simp only [zeroTerminated, cstr, List.mem_cons, Ne.symm hc, false_or]
          split <;> simp [hc]
        cases n with
        | zero => simp [hcons, hc]
        | succ n =>
            have hih := ih (n := n) (by simpa using hn)
            rw [hcons, List.take_succ_cons, List.getElem?_cons_succ, List.mem_cons, not_or, ← and_assoc,
              and_comm (a := mem[n]? = some 0), and_assoc, ← hih]
            simp [Ne.symm hc]

end Gfhttpd.Conf
