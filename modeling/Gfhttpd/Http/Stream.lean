import Gfhttpd.Basic.Bytes

/-!
# `struct http_stream` and its header tables (`main/http_stream`)

One C structure serves both front-ends: HTTP/3 keeps one `http_stream` for each connection,
HTTP/2 one for each stream and one for the session.  A pointer is `Option`, `NULL` is `none`.

A header table is a `uthash` table keyed by the `n_name` bytes at `name`; iteration follows
the order of insertion, so the table is the list of its entries.  `HASH_FIND_STR` looks for
a key with the bytes and the length of a C string, from the newest entry of its bucket on.  The key
of an entry whose `n_name` is larger than its C string goes on with the terminating NUL, so no C
string finds it.
-/

namespace Gfhttpd.Http

/-! ## Header tables -/

/-- `struct headers`: `name` and `value` are C strings. -/
structure Header where
  name : Bytes
  nName : ℕ
  value : Bytes
  nValue : ℕ
deriving DecidableEq, Repr

/-- The key of the entry is the C string `name`. -/
def Header.hasKey (h : Header) (name : Bytes) : Bool :=
  h.nName == name.length && h.name == name

/-- `create_header`. -/
def createHeader (name : Bytes) (nName : ℕ) (value : Bytes) (nValue : ℕ) : Header where
  name := name
  nName := nName
  value := value
  nValue := nValue

/-- `get_header`. -/
def getHeader (headers : List Header) (name : Bytes) : Option Header :=
  headers.reverse.find? fun h => h.hasKey name

/-- Give the entry that is found under `name` a new value. -/
def setHeader (headers : List Header) (name value : Bytes) (nValue : ℕ) : List Header :=
  match headers with
  | [] => []
  | h :: rest =>
      if h.hasKey name && (getHeader rest name).isNone then
        { h with value := value, nValue := nValue } :: rest
      else h :: setHeader rest name value nValue

/-- `insert_header`. -/
def insertHeader (headers : List Header) (name : Bytes) (nName : ℕ) (value : Bytes)
    (nValue : ℕ) : List Header :=
  match getHeader headers name with
  | none => headers ++ [createHeader name nName value nValue]
  | some _ => setHeader headers name value nValue

/-- `add_header`: the table is not asked whether the key is there. -/
def addHeader (headers : List Header) (header : Header) : List Header :=
  headers ++ [header]

/-- `delete_header` of the entry with this place in the table. -/
def deleteHeader (headers : List Header) (place : ℕ) : List Header :=
  headers.eraseIdx place

/-- `length_header`. -/
def lengthHeader (headers : List Header) : ℕ :=
  headers.length

/-- `delete_header_all`. -/
def deleteHeaderAll (_ : List Header) : List Header :=
  []

/-- `server_header`. -/
def serverHeader : Header where
  name := ascii "server"
  nName := 6
  value := ascii "quiche"
  nValue := 6

/-- `server_status`. -/
def serverStatus : Header where
  name := ascii ":status"
  nName := 7
  value := ascii "200"
  nValue := 3

/-! ## Requests, responses and streams -/

/-- `enum module_type`, with the values that are no enumerator. -/
inductive ModuleType where
  | golang
  | rust
  | unknown (n : ℤ)
deriving DecidableEq, Repr

/-- `struct module`. -/
structure Module where
  name : Bytes
  moduleType : ModuleType
deriving DecidableEq, Repr

/-- `struct http_request`.  A `modules_chain` is the list of its modules, `NULL` the empty one. -/
structure HttpRequest where
  url : Option Bytes
  modulesUrl : Option Bytes
  method : Option Bytes
  authority : Option Bytes
  scheme : Option Bytes
  headers : List Header
  modulesChain : List Module
deriving DecidableEq, Repr

/-- `struct http_response`. -/
structure HttpResponse where
  httpStatus : Option Bytes
  headers : List Header
  headersSent : Bool
  fd : ℕ
  contentLenght : ℕ
deriving DecidableEq, Repr

/-- `struct timeval`. -/
structure Timeval where
  tvSec : ℤ
  tvUsec : ℤ
deriving DecidableEq, Repr

/-- `struct http_stream`, without the handles of the libraries.  An event is a number. -/
structure HttpStream where
  /-- `evbase` is set -/
  evbase : Bool
  timeoutEv : Option ℕ
  moduleCbEv : Option ℕ
  timer : Timeval
  sock : ℤ
  cid : Bytes
  streamId : ℤ
  next : Option ℕ
  prev : Option ℕ
  request : HttpRequest
  response : HttpResponse
  peerAddr : Bytes
  peerAddrLen : ℕ
deriving DecidableEq, Repr

/-- What `calloc` returns. -/
def HttpStream.zero : HttpStream where
  evbase := false
  timeoutEv := none
  moduleCbEv := none
  timer := ⟨0, 0⟩
  sock := 0
  cid := []
  streamId := 0
  next := none
  prev := none
  request :=
    { url := none, modulesUrl := none, method := none, authority := none, scheme := none,
      headers := [], modulesChain := [] }
  response := { httpStatus := none, headers := [], headersSent := false, fd := 0, contentLenght := 0 }
  peerAddr := []
  peerAddrLen := 0

end Gfhttpd.Http
