import Gfhttpd.Http2.Decode
import Gfhttpd.Http2.Survival
import Gfhttpd.Log.Log

/-!
# What a request puts into the log (`main/http2/event_cb.c`, `main/log/log.c`)

`on_request_recv` logs the method and the decoded path of a request before it looks at them.  A line
break in a path is an escape, so a client can write lines of its own.

- `percentEncode`: a value that `percent_decode` decodes to any string
- `requestMessage`: what `on_request_recv` logs
- `forged_line`: every line can be put into the log by a request that has no other effect
-/

namespace Gfhttpd.Http2

open Http Logging Router Segments Transition

variable {Code : Type}

/-! ## Encoding -/

/-- A hexadecimal digit. -/
def hexDigit (n : UInt8) : UInt8 :=
  if n < 10 then 48 + n else 55 + n

/-- Every byte as an escape. -/
def percentEncode (b : Bytes) : Bytes :=
  b.flatMap fun c : UInt8 => [37, hexDigit (c >>> 4), hexDigit (c &&& 15)]

/-- A byte is what its escape stands for. -/
theorem escape_hexDigit (c : UInt8) :
    isEscape 37 (hexDigit (c >>> 4)) (hexDigit (c &&& 15)) = true ∧
      hexToUint (hexDigit (c >>> 4)) <<< 4 + hexToUint (hexDigit (c &&& 15)) = c ∧
      hexDigit (c >>> 4) ≠ 63 ∧ hexDigit (c &&& 15) ≠ 63 := by
  obtain ⟨⟨i⟩⟩ := c
  revert i
  decide +kernel

theorem length_percentEncode (b : Bytes) : (percentEncode b).length = 3 * b.length := by
  induction b with
  | nil => rfl
  | cons c b ih =>
      rw [percentEncode, List.flatMap_cons, List.length_append, ← percentEncode, ih, List.length_cons,
        List.length_cons, List.length_cons, List.length_cons, List.length_nil]
      omega

/-- There is no `?` in it. -/
theorem not_mem_percentEncode (b : Bytes) : (63 : UInt8) ∉ percentEncode b := by
  intro hmem
  obtain ⟨c, -, hc⟩ := List.mem_flatMap.mp hmem
  obtain ⟨-, -, hhigh, hlow⟩ := escape_hexDigit c
  simp only [List.mem_cons, List.not_mem_nil, or_false] at hc
  rcases hc with h | h | h
  · cases h
  · exact hhigh h.symm
  · exact hlow h.symm

/-- The slash is copied. -/
theorem decodeRest_slash (b : Bytes) (x y : UInt8) :
    (if 3 * b.length + 3 > 3 then decodeRest (3 * b.length + 3) (47 :: (percentEncode b ++ [x, y]))
      else (47 :: (percentEncode b ++ [x, y])).take (3 * b.length + 3)) =
    47 :: (if b = [] then [x, y] else decodeRest (3 * b.length + 2) (percentEncode b ++ [x, y])) := by
  cases b with
  | nil => rfl
  | cons c b =>
      have hlong : 3 * (c :: b).length + 3 > 3 := by simp
      rw [if_pos hlong, if_neg (List.cons_ne_nil c b)]
      show decodeRest (3 * (c :: b).length + 3)
        (47 :: 37 :: hexDigit (c >>> 4) :: (hexDigit (c &&& 15) :: percentEncode b ++ [x, y])) = _
      rw [decodeRest, if_neg (by omega)]
      rfl

/-- Decoding gives back what was encoded, in front of two bytes that are copied. -/
theorem decodeRest_percentEncode (b : Bytes) (x y : UInt8) :
    decodeRest (3 * b.length + 2) (percentEncode b ++ [x, y]) = b ++ [x, y] := by
  induction b with
  | nil => rfl
  | cons c b ih =>
      obtain ⟨hescape, hbyte, -⟩ := escape_hexDigit c
      have hlong : ¬ 3 * (b.length + 1) + 2 ≤ 2 := by omega
      show decodeRest (3 * (b.length + 1) + 2)
        (37 :: hexDigit (c >>> 4) :: hexDigit (c &&& 15) :: (percentEncode b ++ [x, y])) = _
      rw [decodeRest, if_neg hlong, if_pos hescape, hbyte,
        show 3 * (b.length + 1) + 2 - 3 = 3 * b.length + 2 by omega, ih]
      rfl

/-- The path with these bytes between a slash and the last two. -/
def encodedPath (b : Bytes) : Bytes :=
  47 :: (percentEncode b ++ [120, 120])

/-- **The value of a field that `on_header_callback` decodes to a given string.** -/
theorem decodeField_encodedPath {b : Bytes} (hb : 0 ∉ b) :
    decodeField (encodedPath b) = some (47 :: (b ++ [120, 120])) := by
  have hlength : (encodedPath b).length = 3 * b.length + 3 := by
    simp [encodedPath, length_percentEncode]
  have hfield : fieldLength (encodedPath b) = 3 * b.length + 3 := by
    rw [fieldLength, List.takeWhile_eq_self_iff.mpr, hlength]
    intro c hc
    -- there is no query that is cut off
    have hne : c ≠ 63 := by
      rintro rfl
      simp only [encodedPath, List.mem_cons, List.mem_append, List.not_mem_nil, or_false] at hc
      rcases hc with h | h | h | h
      · cases h
      · exact not_mem_percentEncode b h
      · cases h
      · cases h
    simpa using hne
  have hdecode : percentDecode (encodedPath b) (fieldLength (encodedPath b)) =
      47 :: (b ++ [120, 120]) := by
    rw [hfield, percentDecode_eq (Nat.le_of_eq hlength.symm), encodedPath, decodeRest_slash,
      decodeRest_percentEncode]
    split
    · next hnil => rw [hnil, List.nil_append]
    · rfl
  -- the string is read as far as its `NUL`
  have hnul : (0 : UInt8) ∉ 47 :: (b ++ [120, 120]) := by
    simp only [List.mem_cons, List.mem_append, List.not_mem_nil, or_false, not_or]
    exact ⟨by decide, hb, by decide, by decide⟩
  show some (cstr (percentDecode (encodedPath b) (fieldLength (encodedPath b)))) = _
  rw [hdecode, cstr_eq_self hnul]

/-! ## The message -/

/-- What `log_debug("%s %s", hs->request.method, hs->request.url)` prints for the object at `p`, if
`on_request_recv` gets there. -/
def requestMessage (s : Session) (p : ℕ) : Option Bytes :=
  (s.get p).bind fun hs =>
    hs.request.url.map fun url => hs.request.method.getD (ascii "(null)") ++ [32] ++ url

/-- The message of an event. -/
def loggedMessage (s : Session) (e : SessionEvent Code) : Option Bytes :=
  (endedRequest s e).bind fun r => requestMessage s r.2.1

/-! ## A request that is refused -/

/-- The stream of a request whose `:path` was decoded. -/
def namedStream (url : Bytes) : HttpStream :=
  { HttpStream.zero with
    streamId := 1
    sock := -1
    request := { HttpStream.zero.request with url := some url } }

/-- The session behind `:path` and more fields of the request on stream 1. -/
def behindPath (value url : Bytes) (fields : List (Bytes × Bytes)) : Session :=
  { Session.init with
    objs := [some HttpStream.zero, some (namedStream url)]
    userData := [(1, 1)]
    fields := ((ascii ":path", value) :: fields).map (Prod.mk 1)
    created := [1] }

section Refused

variable {value url : Bytes}

theorem step_path (hvalue : decodeField value = some url) :
    sessionMachine.step (onBeginHeadersCallback Session.init ⟨.headers, true, true, 1⟩)
      (.header ⟨.headers, true, true, 1⟩ (ascii ":path") value : SessionEvent Code) =
        some (behindPath value url []) := by
  simp [sessionMachine, sessionStep, onHeaderCallback, behindPath, namedStream, setPseudoHeader,
    onBeginHeadersCallback, createHttpStream, addStream, Session.setUserData, Session.dropUserData,
    Session.getUserData, Session.get, Session.put, Session.init, HttpStream.zero, hvalue]

/-- Every field behind `:path` is ignored. -/
theorem step_behindPath (fields : List (Bytes × Bytes)) (name value' : Bytes) :
    sessionMachine.step (behindPath value url fields)
      (.header ⟨.headers, true, true, 1⟩ name value' : SessionEvent Code) =
        some (behindPath value url (fields ++ [(name, value')])) := by
  simp [sessionMachine, sessionStep, onHeaderCallback, behindPath, namedStream, Session.getUserData,
    Session.get, Session.init]

theorem step_refused (hpath : checkPath url = false) (fields : List (Bytes × Bytes))
    (io : RequestIO Code) :
    sessionMachine.step (behindPath value url fields) (.frameRecv ⟨.headers, true, true, 1⟩ io) =
      some (behindPath value url fields) := by
  show some (if checkPath url = false then behindPath value url fields else _) = _
  rw [if_pos hpath]

end Refused

/-- A request for a path that `check_path` does not accept is logged, and nothing else happens. -/
theorem refused_logged {value url : Bytes} (hvalue : decodeField value = some url)
    (hpath : checkPath url = false) :
    ∃ t, sessionMachine.exec Session.init (requestOn 1 value) = some t ∧ t.crashed = false ∧
      t.world = World.init ∧
      sessionMachine.collect loggedMessage Session.init (requestOn 1 value) =
        [ascii "(null) " ++ url] := by
  have hbegin (frame : Frame) : sessionMachine.step Session.init
      (.beginHeaders frame : SessionEvent Unit) = some (onBeginHeadersCallback Session.init frame) := rfl
  refine ⟨behindPath value url [(ascii ":method", ascii "GET"), (ascii ":scheme", ascii "https"),
    (ascii ":authority", ascii "a")], ?_, rfl, rfl, ?_⟩
  · simp only [requestOn, Machine.exec, hbegin, step_path hvalue, step_behindPath]
    rw [step_refused hpath]
    rfl
  · -- the method comes too late to be printed
    have hlogged (fields : List (Bytes × Bytes)) (io : RequestIO Unit) :
        loggedMessage (behindPath value url fields) (.frameRecv ⟨.headers, true, true, 1⟩ io) =
          some (ascii "(null) " ++ url) := rfl
    simp only [requestOn, Machine.collect, hbegin, step_path hvalue, step_behindPath]
    rw [step_refused hpath, hlogged]
    rfl

/-! ## Forged lines -/

/-- A line that is printed between two line breaks is a line of the output. -/
theorem mem_lines {line before after out : Bytes} (hline : 10 ∉ line)
    (hout : before ++ 10 :: (line ++ 10 :: after) <:+: out) : line ∈ out.splitOn 10 := by
  refine List.mem_of_mem_tail ((mem_tail_splitOn_iff hline out).mpr (Or.inl ?_))
  refine List.IsInfix.trans ⟨before, after, ?_⟩ hout
  simp

/-- What was logged is in the output when nothing was lost. -/
theorem infix_terminated {line : Bytes} {lines : List Bytes} (h : line ∈ lines) :
    line <:+: terminated 10 lines := by
  obtain ⟨pre, post, rfl⟩ := List.append_of_mem h
  refine ⟨terminated 10 pre, [10] ++ terminated 10 post, ?_⟩
  simp [terminated]

/-- **For every line there is a request that leaves the server as it was, except that its message puts
this line into the output, whatever else is logged.** -/
theorem forged_line {line : Bytes} (hnul : 0 ∉ line) (hline : 10 ∉ line) :
    ∃ value t message,
      sessionMachine.exec Session.init (requestOn 1 value) = some t ∧ t.crashed = false ∧
      t.world = World.init ∧
      sessionMachine.collect loggedMessage Session.init (requestOn 1 value) = [message] ∧
      ∀ (es : List LogEvent) (s : Logger) (before : Bytes),
        logMachine.exec Logger.init es = some s → logMachine.Meets Whole Logger.init es →
        s.unread = [] → before ++ message ∈ s.logged → line ∈ s.stdout.splitOn 10 := by
  have hnul' : (0 : UInt8) ∉ 10 :: (line ++ [10, 92]) := by
    simp only [List.mem_cons, List.mem_append, List.not_mem_nil, or_false, not_or]
    exact ⟨by decide, hnul, by decide, by decide⟩
  -- the backslash behind the line keeps the request from the router
  have hpath : checkPath (47 :: (10 :: (line ++ [10, 92]) ++ [120, 120])) = false := by
    simp [checkPath, strchr]
  obtain ⟨t, hexec, hsound, hworld, hlogged⟩ := refused_logged (decodeField_encodedPath hnul') hpath
  refine ⟨_, t, _, hexec, hsound, hworld, hlogged, fun es s before hrun hwhole hread hmem => ?_⟩
  have hout : s.stdout = terminated 10 s.logged := by
    have hall := (logged_whole_iff hrun).mpr hwhole
    rwa [hread, List.append_nil] at hall
  have hbetween : (before ++ ascii "(null) " ++ [47]) ++ 10 :: (line ++ 10 :: [92, 120, 120]) <:+:
      s.stdout := by
    rw [hout]
    simpa using infix_terminated hmem
  exact mem_lines hline hbetween

/-- A line that looks like one of ours. -/
theorem forged_line_info : ∃ value t message,
    sessionMachine.exec Session.init (requestOn 1 value) = some t ∧ t.crashed = false ∧
    t.world = World.init ∧
    sessionMachine.collect loggedMessage Session.init (requestOn 1 value) = [message] ∧
    ∀ (es : List LogEvent) (s : Logger) (before : Bytes),
      logMachine.exec Logger.init es = some s → logMachine.Meets Whole Logger.init es →
      s.unread = [] → before ++ message ∈ s.logged →
      ascii "12:00:00 INFO  a.c:1: done" ∈ s.stdout.splitOn 10 :=
  forged_line (by decide) (by decide)

end Gfhttpd.Http2
