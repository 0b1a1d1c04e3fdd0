import Gfhttpd.Config.Routes

/-!
# Loading the configuration (`main/config/config.c`)

`conf_load` reads the file block by block, lets `jsmn` cut each block into tokens, and looks
up every entry of `config_map` in the flat token array.  `jsmn` is a parameter: from the
parser state, a block and the room for tokens it returns the new parser state, its result
and the tokens it has written.

- `t` is the static token array, so a slot keeps what an earlier parse left there
- `json` is the read buffer from its start, stale bytes behind the block included
-/

namespace Gfhttpd.Conf

open Http

variable {Code : Type}

/-! ## Tokens -/

/-- `jsmntype_t`. -/
inductive JsmnType where
  | undefined
  | object
  | array
  | string
  | primitive
deriving DecidableEq, Repr

/-- `jsmntok_t`. -/
structure Tok where
  type : JsmnType
  start : ℕ
  stop : ℕ
  size : ℕ
deriving DecidableEq, Repr

/-- A slot of a static array before it is first written. -/
def Tok.zero : Tok := ⟨.undefined, 0, 0, 0⟩

/-- The bytes of the token. -/
def Tok.text (json : Bytes) (tok : Tok) : Bytes :=
  (json.drop tok.start).take (tok.stop - tok.start)

/-- What `snprintf(dest, n, "%.*s", ..)` leaves in `dest`. -/
def Tok.print (json : Bytes) (n : ℕ) (tok : Tok) : Bytes :=
  (cstr (tok.text json)).take (n - 1)

/-- `jsoneq(json, tok, s) == 0`. -/
def jsoneq (json : Bytes) (tok : Tok) (s : Bytes) : Bool :=
  (tok.type == .string || tok.type == .primitive) &&
    (s.length == tok.stop - tok.start && tok.text json == s)

/-! ## The configuration -/

/-- `struct config`. -/
structure Config (Code : Type) where
  listenPort : Bytes
  certFile : Bytes
  keyFile : Bytes
  routes : List (Route Code)

/-- The text fields of `struct config`. -/
inductive Dest where
  | listenPort
  | certFile
  | keyFile
deriving DecidableEq, Repr

/-- The size of a field. -/
def Dest.size : Dest → ℕ
  | .listenPort => 8
  | .certFile => 256
  | .keyFile => 256

/-- Store a text into a field. -/
def Config.set (config : Config Code) (text : Bytes) : Dest → Config Code
  | .listenPort => { config with listenPort := text }
  | .certFile => { config with certFile := text }
  | .keyFile => { config with keyFile := text }

/-- `struct config_map`: an entry has a field, or else is parsed by `locations_parser`. -/
structure ConfigMap where
  tokenName : Bytes
  dest : Option Dest
  required : Bool
deriving DecidableEq, Repr

/-- `config_map`. -/
def configMap : List ConfigMap :=
  [⟨ascii "listen_port", some .listenPort, true⟩, ⟨ascii "cert_file", some .certFile, true⟩,
    ⟨ascii "key_file", some .keyFile, true⟩, ⟨ascii "locations", none, true⟩]

/-! ## `locations_parser` -/

/-- The `struct route` a location object is read into; `path` is an offset into `json`. -/
structure Location where
  path : ℕ
  nPath : ℕ
  modulesChain : List Module
deriving DecidableEq, Repr

/-- `sizeof(m_chain->module->name)`. -/
def MODULE_NAME : ℕ := 16

/-- The module of one element of a `modules` array. -/
def readModule (json : Bytes) (tok : Tok) : Module :=
  ⟨tok.print json MODULE_NAME, .golang⟩

/-- The chain built from the `size` tokens behind the token `keys`. -/
def readModules (json : Bytes) (t : ℕ → Tok) (keys : ℕ) : List Module :=
  (List.range (t keys).size).map fun i => readModule json (t (keys + 1 + i))

/-- The loop over `h` in the location object at `location`.  Every iteration advances `h`, so
`size + 1` iterations are enough. -/
def readLocationLoop (json : Bytes) (t : ℕ → Tok) (location : ℕ) :
    ℕ → ℕ → Location → Location
  | 0, _, r => r
  | fuel + 1, h, r =>
      if h ≤ (t location).size then
        let keys := location + 1 + h
        if jsoneq json (t keys) (ascii "location") then
          let tok := t (keys + 1)
          readLocationLoop json t location fuel (h + 2)
            { r with path := tok.start, nPath := tok.stop - tok.start }
        else if jsoneq json (t keys) (ascii "modules") then
          readLocationLoop json t location fuel (h + 2)
            { r with modulesChain := readModules json t (keys + 1) }
        else
          readLocationLoop json t location fuel (h + 1) r
      else r

/-- What one location object is read as. -/
def readLocation (json : Bytes) (t : ℕ → Tok) (location : ℕ) : Location :=
  readLocationLoop json t location ((t location).size + 1) 0 ⟨0, 0, []⟩

/-- The loop over `j`, with the number of locations left.  The flag says that it ended
without an error. -/
def locationsLoop (compile : Option Bytes → Option Code) (json : Bytes) (t : ℕ → Tok)
    (locations : ℕ) : ℕ → ℕ → Config Code → Bool × Config Code
  | 0, _, config => (true, config)
  | left + 1, j, config =>
      -- a stride of one token, whatever the location before it takes
      let location := locations + j + 1
      if (t location).type = .object then
        let r := readLocation json t location
        if r.modulesChain = [] ∨ r.nPath = 0 then (false, config)
        else
          locationsLoop compile json t locations left (j + 1)
            { config with
              routes := insertRoute compile config.routes (json.drop r.path) r.nPath
                r.modulesChain true }
      else (false, config)

/-- `locations_parser`. -/
def locationsParser (compile : Option Bytes → Option Code) (json : Bytes) (t : ℕ → Tok)
    (i : ℕ) (config : Config Code) : ℤ × Config Code :=
  if (t (i + 1)).type ≠ .array then (-1, config)
  else
    match locationsLoop compile json t (i + 1) (t (i + 1)).size 0 config with
    | (false, config) => (-1, config)
    | (true, config) => (i + (t (i + 1)).size + 1, config)

/-! ## `conf_load` -/

/-- `json_contains`. -/
def jsonContains (compile : Option Bytes → Option Code) (json : Bytes) (t : ℕ → Tok)
    (entry : ConfigMap) (i : ℕ) (config : Config Code) : ℤ × Config Code :=
  if (t i).type = .primitive ∧ entry.tokenName.length = (t i).stop - (t i).start ∧
      (t i).text json = entry.tokenName then
    match entry.dest with
    | some dest => (1, config.set ((t (i + 1)).print json dest.size) dest)
    | none => locationsParser compile json t i config
  else (0, config)

/-- How the search for one entry ends. -/
inductive Search (Code : Type) where
  | found (config : Config Code)
  | notFound (config : Config Code)
  | failed (r : ℤ) (config : Config Code)

/-- The loop over the tokens, for one entry. -/
def searchTokens (compile : Option Bytes → Option Code) (json : Bytes) (t : ℕ → Tok)
    (entry : ConfigMap) : List ℕ → Config Code → Search Code
  | [], config => .notFound config
  | i :: is, config =>
      match jsonContains compile json t entry i config with
      | (next, config) =>
          if next > 0 then .found config
          else if next < 0 then .failed next config
          else searchTokens compile json t entry is config

/-- The loop over `config_map`, for `r` tokens: the value `r` has at `goto exit`, or `none`
when it ends without one. -/
def searchMap (compile : Option Bytes → Option Code) (json : Bytes) (t : ℕ → Tok) (r : ℤ) :
    List ConfigMap → Config Code → Option ℤ × Config Code
  | [], config => (none, config)
  | entry :: entries, config =>
      match searchTokens compile json t entry (List.range' 1 (r.toNat - 1)) config with
      | .found config => searchMap compile json t r entries config
      | .notFound config =>
          if entry.required then (some (-1), config)
          else searchMap compile json t r entries config
      | .failed next config => (some next, config)

/-- `BUFSIZ`. -/
def BUFSIZ : ℕ := 8192

/-- The number of slots of `t`. -/
def MAX_TOKENS : ℤ := 256

/-- `sizeof(t[0])`: four `int`s. -/
def sizeofTok : ℕ := 16

/-- `JSMN_ERROR_NOMEM`. -/
def JSMN_ERROR_NOMEM : ℤ := -1

/-- `jsmn_parse`: the parser state, the block and the room for tokens give the new parser
state, the result and the new tokens. -/
abbrev JsmnParse (P : Type) := P → Bytes → ℤ → P × ℤ × List Tok

/-- The slot of the next new token.  `conf_load` hands `jsmn` the pointer `t + (tokcount * sizeof(t[0]))`,
and `jsmn` stores a token behind all that it has made before, at `p.toknext` from there. -/
def nextSlot (tokcount : ℤ) (toknext : ℕ) : ℕ :=
  toSizeT (tokcount * sizeofTok) + toknext

/-- The token array after tokens were written from slot `base` on.  The source has 256 slots. -/
def writeTokens (t : ℕ → Tok) (base : ℕ) (toks : List Tok) : ℕ → Tok :=
  fun i => if base ≤ i then toks.getD (i - base) (t i) else t i

/-- The blocks `fread` returns. -/
def fileReads : ℕ → Bytes → List Bytes
  | 0, _ => []
  | fuel + 1, content =>
      if content = [] then []
      else content.take BUFSIZ :: fileReads fuel (content.drop BUFSIZ)

/-- The loop of `conf_load` over the blocks of the file; `toknext` is the number of tokens that `jsmn` has
made. -/
def readLoop {P : Type} (parse : JsmnParse P) (compile : Option Bytes → Option Code) :
    List Bytes → Bytes → P → (ℕ → Tok) → ℤ → ℕ → Config Code → ℤ × Config Code
  | [], _, _, _, _, _, config => (0, config)
  | block :: blocks, buf, p, t, tokcount, toknext, config =>
      let buf := block ++ buf.drop block.length
      match parse p block (MAX_TOKENS - tokcount) with
      | (p, r, toks) =>
          let t := writeTokens t (nextSlot tokcount toknext) toks
          -- other errors of `jsmn` go on, with a negative number of tokens
          if r = JSMN_ERROR_NOMEM then (r, config)
          else
            match searchMap compile buf t r configMap config with
            | (some r, config) => (r, config)
            | (none, config) =>
                readLoop parse compile blocks buf p t (tokcount + r) (toknext + toks.length) config

/-- `conf_load` on a file with the given content, `none` when `fdopen` fails.  `buf` is what
the stack holds where the read buffer is, `t` what the token array holds. -/
def confLoad {P : Type} (parse : JsmnParse P) (init : P) (compile : Option Bytes → Option Code)
    (buf : Bytes) (t : ℕ → Tok) (cfile : Option Bytes) (config : Config Code) :
    ℤ × Config Code :=
  match cfile with
  | none => (-1, config)
  | some content => readLoop parse compile (fileReads content.length content) buf init t 0 0 config

end Gfhttpd.Conf
