import Gfhttpd.Config.Routes
import Gfhttpd.Router.World

/-!
# The router (`main/router/router.c`)

`root_router` asks the route table, falls back to a local file, and falls back to an error
page.  What the system calls and `pcre2_match` answer is in `RouterIO`.  A result with
`fault` is a run that ended inside: a failed assertion or an access outside of memory.
-/

namespace Gfhttpd.Router

open Http Conf

variable {Code : Type}

/-! ## Checking paths -/

/-- `ends_with`. -/
def endsWith (s sub : Bytes) : Bool :=
  if s.length < sub.length then false
  else s.drop (s.length - sub.length) == sub

/-- `strstr(s, sub) != NULL`. -/
def strstr (sub : Bytes) : Bytes → Bool
  | [] => sub.isEmpty
  | c :: s => sub.isPrefixOf (c :: s) || strstr sub s

/-- `strchr(s, c) != NULL` for `c` other than NUL. -/
def strchr (s : Bytes) (c : UInt8) : Bool :=
  s.contains c

/-- `check_path`. -/
def checkPath (path : Bytes) : Bool :=
  path.head? == some 47 && !strchr path 92 && !strstr (ascii "/../") path &&
    !strstr (ascii "/./") path && !endsWith path (ascii "/..") && !endsWith path (ascii "/.")

/-! ## Answers of the system -/

/-- A file that was opened: `size` is what `lseek(fd, 0, SEEK_END)` returns. -/
structure OpenFile where
  kind : FdKind
  content : Bytes
  size : ℤ
deriving DecidableEq

/-- What `pcre2_match` and the system calls of one `root_router` answer.  A flag says that
the call succeeds. -/
structure RouterIO (Code : Type) where
  pcre2Match : Pcre2Match Code
  openFile : Bytes → Option OpenFile
  socketpair : Bool
  fcntl0 : Bool
  fcntl1 : Bool
  evtimerAdd : Bool
  pipe : Bool
  /-- how much of the error page `write` takes, `none` for an error -/
  errorWrite : Option ℕ

/-- The answers where nothing fails and every path opens a file with these bytes. -/
def servesFile (content : Bytes) : RouterIO Code where
  pcre2Match _ _ := ⟨PCRE2_ERROR_NOMATCH, []⟩
  openFile _ := some ⟨.file, content, content.length⟩
  socketpair := true
  fcntl0 := true
  fcntl1 := true
  evtimerAdd := true
  pipe := true
  errorWrite := some 79

/-! ## The router -/

/-- `ERROR_HTML`, without its NUL. -/
def ERROR_HTML : Bytes :=
  ascii "<html><head><title>404</title></head>" ++ ascii "<body><h1>404 Not Found</h1></body></html>"

/-- `get_socketpair`: the return value and the two ends. -/
def getSocketpair (io : RouterIO Code) (w : World) : ℤ × ℕ × ℕ × World :=
  let a := w.fds.length
  let b := a + 1
  if !io.socketpair then (-1, a, b, w)
  else
    let w := (w.openFd ⟨.socket, [], 0, some b, 0⟩).openFd ⟨.socket, [], 0, some a, 0⟩
    if !io.fcntl0 then (-1, a, b, w)
    else if !io.fcntl1 then (-1, a, b, w)
    else (0, a, b, w)

/-- `error_fd`. -/
def errorFd (io : RouterIO Code) (hs : HttpStream) (httpStatus : Bytes) (w : World) :
    ℤ × HttpStream × World :=
  if !io.pipe then (-1, hs, w)
  else
    let a := w.fds.length
    let written := ERROR_HTML.take (io.errorWrite.getD 0)
    let w := (w.openFd ⟨.pipe, written, 0, none, 0⟩).openFd ⟨.pipe, [], 0, some a, 0⟩
    let w := w.closeFd (a + 1)
    match io.errorWrite with
    | none => (-1, hs, w)
    | some _ =>
        -- the status is set for the `http_stream`, not for the descriptor
        (a, { hs with
              response := { hs.response with
                contentLenght := toSizeT written.length
                httpStatus := some httpStatus } }, w)

/-- How `root_router` ends. -/
structure RouterResult where
  fd : ℤ
  hs : HttpStream
  world : World
  outcome : Outcome
  fault : Bool

/-- The branch of `root_router` for a route. -/
def routeModule (io : RouterIO Code) (rm : RouteMatch Code) (route : Route Code)
    (hs : HttpStream) (w : World) : RouterResult :=
  match getSocketpair io w with
  | (ret, a, b, w) =>
      if ret ≠ 0 then ⟨ret, hs, w, .module, false⟩
      else
        let ev := w.nextEv
        let hs :=
          { hs with
            moduleCbEv := some ev
            response := { hs.response with fd := b }
            request := { hs.request with
              modulesChain := route.modulesChain
              modulesUrl := rm.strippedPath } }
        let w := w.newEvent
        -- `content_lenght` stays what it was: the module sets it
        if !io.evtimerAdd then ⟨-1, hs, w, .module, false⟩
        else ⟨a, hs, w.addEvent ev, .module, false⟩

/-- The branch of `root_router` for a local file, with the error page behind it. -/
def routeFile (io : RouterIO Code) (url : Bytes) (hs : HttpStream) (w : World) : RouterResult :=
  let relPath := url.dropWhile (· == 47)
  let w := w.emit (.openFile relPath)
  match io.openFile relPath with
  | some f =>
      let hs :=
        { hs with response := { hs.response with contentLenght := toSizeT (wrap32 f.size) } }
      ⟨w.fds.length, hs, w.openFd ⟨f.kind, f.content, 0, none, 0⟩, .file f.size, false⟩
  | none =>
      -- both `lseek` calls fail on the descriptor -1
      let hs :=
        { hs with response := { hs.response with contentLenght := toSizeT (wrap32 (-1)) } }
      match errorFd io hs (ascii "404") w with
      | (fd, hs, w) => ⟨fd, hs, w, .notFound (ERROR_HTML.take (io.errorWrite.getD 0)).length, false⟩

/-- `root_router`.  `loop` says that the event base is not `NULL`; `hs` is not. -/
def rootRouter (loop : Bool) (routes : List (Route Code)) (io : RouterIO Code)
    (hs : HttpStream) (w : World) : RouterResult :=
  -- `assert(loop)`
  if !loop then ⟨-1, hs, w, .module, true⟩
  else
    match hs.request.url with
    -- the path is read through `NULL`
    | none => ⟨-1, hs, w, .module, true⟩
    | some url =>
        match getRoute routes url .null with
        | (found, rm) =>
            let w := w.emit (.getRoute url)
            if found = -1 then
              let m := matchRoute io.pcre2Match routes url rm
              let w := w.emit (.matchRoute url)
              if m.outOfBounds then ⟨-1, hs, w, .module, true⟩
              else
                match m.rm.route with
                | some route => routeModule io m.rm route hs w
                | none => routeFile io url hs w
            else
              match rm.route with
              | some route => routeModule io rm route hs w
              | none => routeFile io url hs w

end Gfhttpd.Router
