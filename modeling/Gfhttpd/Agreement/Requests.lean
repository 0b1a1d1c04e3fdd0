import Gfhttpd.Http2.Decode
import Gfhttpd.Http3.Spec
import Mathlib.Data.List.Basic

/-!
# The request of a header block on both front-ends

`on_header_callback` decodes each pseudo-header up to its `?`, and leaves everything behind the
`:path` alone.  `for_each_header` copies each of them, keeps the other fields in a table, and stops
at a `:path` that `check_path` rejects.

- `HeaderBlock`: a well-formed block, by the place of its `:path`
- `http2Request_eq`, `http3Request_eq`: the request each front-end makes of it
- `requests_agree_iff`: the blocks of which both make the same request
-/

namespace Gfhttpd.Agreement

open Http Http2 Http3 Router Transition

/-! ## Header blocks -/

/-- The pseudo-headers of a request. -/
inductive PseudoName where
  | path
  | method
  | authority
  | scheme
deriving DecidableEq, Repr

/-- The name in a header block. -/
def PseudoName.bytes : PseudoName → Bytes
  | .path => ascii ":path"
  | .method => ascii ":method"
  | .authority => ascii ":authority"
  | .scheme => ascii ":scheme"

/-- A well-formed block: the pseudo-headers, each once at most, and the regular fields. -/
structure HeaderBlock where
  before : List (PseudoName × Bytes)
  path : Bytes
  after : List (PseudoName × Bytes)
  regular : List (Bytes × Bytes)
  nodup : (.path :: (before ++ after).map Prod.fst).Nodup
  regularNames : ∀ f ∈ regular, f.1.head? ≠ some 58

/-- Pseudo-headers as fields. -/
def pseudoFields (fs : List (PseudoName × Bytes)) : List (Bytes × Bytes) :=
  fs.map fun f => (f.1.bytes, f.2)

/-- The fields, in order. -/
def HeaderBlock.fields (b : HeaderBlock) : List (Bytes × Bytes) :=
  pseudoFields b.before ++ (ascii ":path", b.path) :: (pseudoFields b.after ++ b.regular)

/-! ## Pseudo-headers of a request -/

/-- A pseudo-header of a request. -/
def pseudo (r : HttpRequest) : PseudoName → Option Bytes
  | .path => r.url
  | .method => r.method
  | .authority => r.authority
  | .scheme => r.scheme

/-- Set a pseudo-header of a request. -/
def setPseudo (r : HttpRequest) (n : PseudoName) (x : Option Bytes) : HttpRequest :=
  match n with
  | .path => { r with url := x }
  | .method => { r with method := x }
  | .authority => { r with authority := x }
  | .scheme => { r with scheme := x }

@[simp] theorem pseudo_setPseudo_self (r : HttpRequest) (n : PseudoName) (x : Option Bytes) :
    pseudo (setPseudo r n x) n = x := by
  cases n <;> rfl

theorem pseudo_setPseudo_of_ne {n m : PseudoName} (h : n ≠ m) (r : HttpRequest) (x : Option Bytes) :
    pseudo (setPseudo r n x) m = pseudo r m := by
  cases n <;> cases m <;> first | rfl | exact absurd rfl h

@[simp] theorem headers_setPseudo (r : HttpRequest) (n : PseudoName) (x : Option Bytes) :
    (setPseudo r n x).headers = r.headers := by
  cases n <;> rfl

/-- A fresh request has none. -/
theorem pseudo_zero (n : PseudoName) : pseudo HttpStream.zero.request n = none := by
  cases n with
  | path => rfl
  | method => rfl
  | authority => rfl
  | scheme => rfl

/-- The request after pseudo-headers whose values are stored with `g`. -/
def setAll (g : Bytes → Option Bytes) (fs : List (PseudoName × Bytes)) (r : HttpRequest) :
    HttpRequest :=
  fs.foldl (fun r f => setPseudo r f.1 (g f.2)) r

theorem headers_setAll (g : Bytes → Option Bytes) (fs : List (PseudoName × Bytes))
    (r : HttpRequest) : (setAll g fs r).headers = r.headers := by
  induction fs generalizing r with
  | nil => rfl
  | cons f fs ih => exact (ih _).trans (headers_setPseudo ..)

/-- A pseudo-header that is not among them. -/
theorem pseudo_setAll_of_not_mem (g : Bytes → Option Bytes) {fs : List (PseudoName × Bytes)}
    {n : PseudoName} (h : n ∉ fs.map Prod.fst) (r : HttpRequest) :
    pseudo (setAll g fs r) n = pseudo r n := by
  induction fs generalizing r with
  | nil => rfl
  | cons f fs ih =>
      rw [List.map_cons, List.mem_cons, not_or] at h
      exact (ih h.2 _).trans (pseudo_setPseudo_of_ne (Ne.symm h.1) r _)

/-- A pseudo-header that is there once. -/
theorem pseudo_setAll_of_mem (g : Bytes → Option Bytes) {fs : List (PseudoName × Bytes)}
    (hnodup : (fs.map Prod.fst).Nodup) {f : PseudoName × Bytes} (h : f ∈ fs) (r : HttpRequest) :
    pseudo (setAll g fs r) f.1 = g f.2 := by
  induction fs generalizing r with
  | nil => cases h
  | cons f' fs ih =>
      rw [List.map_cons, List.nodup_cons] at hnodup
      rcases List.mem_cons.mp h with rfl | hlater
      · exact (pseudo_setAll_of_not_mem g hnodup.1 _).trans (pseudo_setPseudo_self ..)
      · exact ih hnodup.2 hlater _

theorem setAll_congr {g g' : Bytes → Option Bytes} {fs : List (PseudoName × Bytes)}
    (h : ∀ f ∈ fs, g f.2 = g' f.2) (r : HttpRequest) : setAll g fs r = setAll g' fs r := by
  apply List.foldl_ext
  intro r f hf
  rw [h f hf]

/-! ## HTTP/2 -/

/-- The callbacks of a header block. -/
def headerEvents (Code : Type) (frame : Frame) (fields : List (Bytes × Bytes)) :
    List (SessionEvent Code) :=
  .beginHeaders frame :: fields.map fun f => .header frame f.1 f.2

/-- The `HEADERS` frame of a request. -/
def requestFrame (streamId : ℤ) (endStream : Bool) : Frame :=
  ⟨.headers, true, endStream, streamId⟩

/-- The request of a stream, after its header block on a fresh session. -/
def http2Request (Code : Type) (frame : Frame) (fields : List (Bytes × Bytes)) :
    Option HttpRequest :=
  (sessionMachine.exec Session.init (headerEvents Code frame fields)).bind fun s =>
    ((s.getUserData frame.streamId).bind s.get).map HttpStream.request

/-- One field. -/
def addField (r : HttpRequest) (f : Bytes × Bytes) : HttpRequest :=
  if r.url.isSome then r else setPseudoHeader r f.1 f.2

/-- The object of a stream that reads a header block. -/
structure Reading (s : Session) (streamId : ℤ) (r : HttpRequest) : Prop where
  running : s.crashed = false ∧ s.tornDown = false
  object : ∃ p hs, s.getUserData streamId = some p ∧ s.get p = some hs ∧ hs.request = r

theorem Reading.begin (frame : Frame) (h : frame.type = .headers ∧ frame.request = true) :
    Reading (onBeginHeadersCallback Session.init frame) frame.streamId HttpStream.zero.request := by
  unfold onBeginHeadersCallback
  rw [if_neg (by simp [h.1, h.2])]
  refine ⟨⟨rfl, rfl⟩, 1, { HttpStream.zero with streamId := frame.streamId, sock := -1 }, ?_, rfl,
    rfl⟩
  simp [Session.getUserData, Session.setUserData, Session.dropUserData, createHttpStream, addStream,
    Session.init]

theorem Reading.header {s : Session} {frame : Frame} {r : HttpRequest}
    (h : frame.type = .headers ∧ frame.request = true) (hr : Reading s frame.streamId r)
    (f : Bytes × Bytes) :
    Reading (onHeaderCallback s frame f.1 f.2) frame.streamId (addField r f) := by
  obtain ⟨hrunning, p, hs, hdata, hget, rfl⟩ := hr
  unfold onHeaderCallback addField
  rw [if_neg (by simp [h.1, h.2]), hdata]
  dsimp only
  rw [hget]
  dsimp only
  split
  · exact ⟨hrunning, p, hs, hdata, hget, rfl⟩
  · refine ⟨hrunning, p, { hs with request := setPseudoHeader hs.request f.1 f.2 }, hdata, ?_, rfl⟩
    exact Session.get_put_self (s := { s with fields := s.fields ++ [(p, f.1, f.2)] }) hget _

theorem Reading.run (Code : Type) {s : Session} {frame : Frame} {r : HttpRequest}
    (h : frame.type = .headers ∧ frame.request = true) (hr : Reading s frame.streamId r)
    (fields : List (Bytes × Bytes)) : ∃ t, sessionMachine.exec s
        (fields.map fun f => (.header frame f.1 f.2 : SessionEvent Code)) = some t ∧
      Reading t frame.streamId (fields.foldl addField r) := by
  induction fields generalizing s r with
  | nil => exact ⟨s, rfl, hr⟩
  | cons f fields ih =>
      -- one callback for each field
      obtain ⟨t, hexec, ht⟩ := ih (hr.header h f)
      refine ⟨t, sessionMachine.exec_cons_eq_some.mpr ⟨_, ?_, hexec⟩, ht⟩
      simp [sessionMachine, sessionStep, hr.running.1, hr.running.2]

/-- The request is a fold over the fields. -/
theorem http2Request_fold (Code : Type) (frame : Frame)
    (h : frame.type = .headers ∧ frame.request = true) (fields : List (Bytes × Bytes)) :
    http2Request Code frame fields = some (fields.foldl addField HttpStream.zero.request) := by
  obtain ⟨t, hexec, -, p, hs, hdata, hget, hreq⟩ :=
    (Reading.begin frame h).run Code h fields
  have hall : sessionMachine.exec Session.init (headerEvents Code frame fields) = some t :=
    sessionMachine.exec_cons_eq_some.mpr ⟨_, rfl, hexec⟩
  unfold http2Request
  rw [hall, Option.bind_some, hdata, Option.bind_some, hget, ← hreq]
  rfl

theorem setPseudoHeader_bytes (r : HttpRequest) (n : PseudoName) (v : Bytes) :
    setPseudoHeader r n.bytes v = setPseudo r n (decodeField v) := by
  cases n with
  | path => rfl
  | method => rfl
  | authority => rfl
  | scheme => rfl

/-- Behind the `:path` nothing is read. -/
theorem foldl_addField_done {r : HttpRequest} (h : r.url.isSome = true)
    (fields : List (Bytes × Bytes)) : fields.foldl addField r = r := by
  induction fields with
  | nil => rfl
  | cons f fields ih =>
      rw [List.foldl_cons, addField, if_pos h]
      exact ih

/-- Before it, each pseudo-header is decoded. -/
theorem foldl_addField_before {fs : List (PseudoName × Bytes)} (hpath : .path ∉ fs.map Prod.fst)
    {r : HttpRequest} (hr : r.url = none) :
    (pseudoFields fs).foldl addField r = setAll decodeField fs r := by
  induction fs generalizing r with
  | nil => rfl
  | cons f fs ih =>
      rw [List.map_cons, List.mem_cons, not_or] at hpath
      have hfirst : addField r (f.1.bytes, f.2) = setPseudo r f.1 (decodeField f.2) := by
        unfold addField
        rw [hr, if_neg (by simp)]
        exact setPseudoHeader_bytes r f.1 f.2
      have hnone : (setPseudo r f.1 (decodeField f.2)).url = none :=
        (pseudo_setPseudo_of_ne (Ne.symm hpath.1) r _).trans hr
      show (pseudoFields fs).foldl addField (addField r (f.1.bytes, f.2)) = _
      rw [hfirst]
      exact ih hpath.2 hnone

/-- `on_header_callback` on a block. -/
theorem http2Request_eq (Code : Type) (frame : Frame)
    (h : frame.type = .headers ∧ frame.request = true) (b : HeaderBlock) :
    http2Request Code frame b.fields = some (setPseudo
      (setAll decodeField b.before HttpStream.zero.request) .path (decodeField b.path)) := by
  have hpath : .path ∉ b.before.map Prod.fst := fun hmem => by
    have hnot := (List.nodup_cons.mp b.nodup).1
    rw [List.map_append] at hnot
    exact hnot (List.mem_append_left _ hmem)
  have hnone : (setAll decodeField b.before HttpStream.zero.request).url = none :=
    pseudo_setAll_of_not_mem decodeField hpath HttpStream.zero.request
  rw [http2Request_fold Code frame h, HeaderBlock.fields, List.foldl_append,
    foldl_addField_before hpath rfl, List.foldl_cons]
  have hadd : addField (setAll decodeField b.before HttpStream.zero.request)
      (ascii ":path", b.path) =
        setPseudo (setAll decodeField b.before HttpStream.zero.request) .path
          (decodeField b.path) := by
    unfold addField
    rw [hnone, if_neg (by simp)]
    exact setPseudoHeader_bytes _ .path b.path
  rw [hadd, foldl_addField_done rfl]

/-! ## HTTP/3 -/

/-- The request of a fresh connection, after a header block. -/
def http3Request (sock : ℤ) (cid : Bytes) (fields : List (Bytes × Bytes)) : HttpRequest :=
  (forEachHeaderLoop fields (newHttpStream sock cid)).2.request

/-- What `for_each_header` stores for a pseudo-header. -/
def copied (v : Bytes) : Option Bytes :=
  some (strndup v v.length)

/-- The request with a regular field in its table. -/
def insertField (r : HttpRequest) (f : Bytes × Bytes) : HttpRequest :=
  let headers := insertHeader r.headers (strndup f.1 f.1.length) f.1.length
    (strndup f.2 f.2.length) f.2.length
  { r with headers := headers }

/-- The request with regular fields in its table. -/
def addRegular (r : HttpRequest) (fs : List (Bytes × Bytes)) : HttpRequest :=
  fs.foldl insertField r

theorem pseudo_addRegular (r : HttpRequest) (fs : List (Bytes × Bytes)) (n : PseudoName) :
    pseudo (addRegular r fs) n = pseudo r n := by
  induction fs generalizing r with
  | nil => rfl
  | cons f fs ih =>
      apply (ih _).trans
      cases n with
      | path => rfl
      | method => rfl
      | authority => rfl
      | scheme => rfl

theorem insertHeader_ne_nil (headers : List Header) (name value : Bytes) (nName nValue : ℕ) :
    insertHeader headers name nName value nValue ≠ [] := by
  unfold insertHeader
  cases headers with
  | nil =>
      intro h
      cases h
  | cons h headers =>
      cases getHeader (h :: headers) name with
      | none =>
          intro h
          cases h
      | some old =>
          unfold setHeader
          dsimp only
          split
          · intro h
            cases h
          · intro h
            cases h

/-- A regular field shows in the table. -/
theorem headers_addRegular {r : HttpRequest} {fs : List (Bytes × Bytes)}
    (h : (addRegular r fs).headers = []) : r.headers = [] ∧ fs = [] := by
  induction fs generalizing r with
  | nil => exact ⟨h, rfl⟩
  | cons f fs ih => exact absurd (ih h).1 (insertHeader_ne_nil _ _ _ _ _)

theorem forEachHeader_pseudo {n : PseudoName} (hn : n ≠ .path) (hs : HttpStream) (v : Bytes) :
    forEachHeader hs n.bytes v = (0, { hs with request := setPseudo hs.request n (copied v) }) := by
  cases n with
  | path => exact absurd rfl hn
  | method => rfl
  | authority => rfl
  | scheme => rfl

theorem forEachHeader_regular {name : Bytes} (h : name.head? ≠ some 58) (hs : HttpStream)
    (v : Bytes) : forEachHeader hs name v =
      (0, { hs with request := addRegular hs.request [(name, v)] }) := by
  unfold forEachHeader
  rw [if_neg h]
  rfl

/-- Pseudo-headers that the loop goes on after. -/
theorem forEachHeaderLoop_pseudo {fs : List (PseudoName × Bytes)} (hpath : .path ∉ fs.map Prod.fst)
    (rest : List (Bytes × Bytes)) (hs : HttpStream) :
    forEachHeaderLoop (pseudoFields fs ++ rest) hs =
      forEachHeaderLoop rest { hs with request := setAll copied fs hs.request } := by
  induction fs generalizing hs with
  | nil => rfl
  | cons f fs ih =>
      rw [List.map_cons, List.mem_cons, not_or] at hpath
      show forEachHeaderLoop ((f.1.bytes, f.2) :: (pseudoFields fs ++ rest)) hs = _
      rw [forEachHeaderLoop, forEachHeader_pseudo (Ne.symm hpath.1)]
      exact ih hpath.2 _

theorem forEachHeaderLoop_regular {fs : List (Bytes × Bytes)} (h : ∀ f ∈ fs, f.1.head? ≠ some 58)
    (hs : HttpStream) :
    (forEachHeaderLoop fs hs).2 = { hs with request := addRegular hs.request fs } := by
  induction fs generalizing hs with
  | nil => rfl
  | cons f fs ih =>
      rw [forEachHeaderLoop, forEachHeader_regular (h f (List.mem_cons_self ..))]
      exact ih (fun f' hf' => h f' (List.mem_cons_of_mem _ hf')) _

/-- `for_each_header` on a block. -/
theorem http3Request_eq (sock : ℤ) (cid : Bytes) (b : HeaderBlock) :
    http3Request sock cid b.fields =
      let r := setPseudo (setAll copied b.before HttpStream.zero.request) .path (copied b.path)
      if checkPath (strndup b.path b.path.length) then addRegular (setAll copied b.after r) b.regular
      else r := by
  have hpath := (List.nodup_cons.mp b.nodup).1
  rw [List.map_append, List.mem_append, not_or] at hpath
  unfold http3Request HeaderBlock.fields
  rw [forEachHeaderLoop_pseudo hpath.1, forEachHeaderLoop, forEachHeader_path]
  cases hcheck : checkPath (strndup b.path b.path.length) with
  | false => rfl
  | true =>
      show (forEachHeaderLoop (pseudoFields b.after ++ b.regular) _).2.request = _
      rw [forEachHeaderLoop_pseudo hpath.2, forEachHeaderLoop_regular b.regularNames]
      rfl

/-! ## Agreement -/

/-- The condition on a block: every pseudo-header up to the `:path` is stored as it is, and behind
the `:path` nothing comes, or `check_path` rejects it. -/
structure SameRequest (b : HeaderBlock) : Prop where
  before : ∀ f ∈ b.before, Verbatim f.2
  path : Verbatim b.path
  rest : checkPath (strndup b.path b.path.length) = false ∨ b.after = [] ∧ b.regular = []

/-- What is read behind the `:path` makes a difference. -/
theorem setPath_eq_iff {before after : List (PseudoName × Bytes)} {path : Bytes}
    {regular : List (Bytes × Bytes)} (hnodup : (.path :: (before ++ after).map Prod.fst).Nodup) :
    setPseudo (setAll decodeField before HttpStream.zero.request) .path (decodeField path) =
        addRegular (setAll copied after
          (setPseudo (setAll copied before HttpStream.zero.request) .path (copied path))) regular ↔
      ((∀ f ∈ before, Verbatim f.2) ∧ Verbatim path) ∧ after = [] ∧ regular = [] := by
  obtain ⟨hpath, hnodup⟩ := List.nodup_cons.mp hnodup
  rw [List.map_append] at hpath hnodup
  obtain ⟨hbefore, hafter, hdisjoint⟩ := List.nodup_append.mp hnodup
  rw [List.mem_append, not_or] at hpath
  constructor
  · intro heq
    -- both sides, pseudo-header by pseudo-header
    have hat : ∀ n, pseudo (setPseudo (setAll decodeField before HttpStream.zero.request) .path
        (decodeField path)) n = pseudo (setAll copied after (setPseudo
          (setAll copied before HttpStream.zero.request) .path (copied path))) n := by
      intro n
      rw [heq, pseudo_addRegular]
    refine ⟨⟨fun f hf => ?_, ?_⟩, ?_, ?_⟩
    · have hname : f.1 ∈ before.map Prod.fst := List.mem_map_of_mem hf
      have hne : .path ≠ f.1 := fun h => hpath.1 (h ▸ hname)
      have hnot : f.1 ∉ after.map Prod.fst := fun h => hdisjoint f.1 hname f.1 h rfl
      have hval := hat f.1
      rw [pseudo_setPseudo_of_ne hne, pseudo_setAll_of_not_mem copied hnot,
        pseudo_setPseudo_of_ne hne, pseudo_setAll_of_mem _ hbefore hf,
        pseudo_setAll_of_mem _ hbefore hf] at hval
      exact (decodeField_eq_iff f.2).mp hval
    · have hval := hat .path
      rw [pseudo_setPseudo_self, pseudo_setAll_of_not_mem copied hpath.2,
        pseudo_setPseudo_self] at hval
      exact (decodeField_eq_iff path).mp hval
    · cases hcons : after with
      | nil => rfl
      | cons f fs =>
          -- HTTP/2 does not store what comes behind the `:path`
          have hf : f ∈ after := hcons ▸ List.mem_cons_self ..
          have hname : f.1 ∈ after.map Prod.fst := List.mem_map_of_mem hf
          have hne : .path ≠ f.1 := fun h => hpath.2 (h ▸ hname)
          have hnot : f.1 ∉ before.map Prod.fst := fun h => hdisjoint f.1 h f.1 hname rfl
          have hval := hat f.1
          rw [pseudo_setPseudo_of_ne hne, pseudo_setAll_of_not_mem _ hnot,
            pseudo_setAll_of_mem _ hafter hf, pseudo_zero] at hval
          cases hval
    · have hheaders := congrArg HttpRequest.headers heq
      rw [headers_setPseudo, headers_setAll] at hheaders
      exact (headers_addRegular hheaders.symm).2
  · rintro ⟨⟨hverbatim, hpathv⟩, rfl, rfl⟩
    have hsame : decodeField path = copied path := (decodeField_eq_iff path).mpr hpathv
    have hall : ∀ f ∈ before, decodeField f.2 = copied f.2 := fun f hf =>
      (decodeField_eq_iff f.2).mpr (hverbatim f hf)
    rw [setAll_congr hall, hsame]
    rfl

/-- **On a fresh stream of a fresh connection, `on_header_callback` and `for_each_header` make the
same request of a well-formed block, its regular fields included, exactly if its pseudo-headers up
to the `:path` have no `?` and no escape, but for one that `percent_decode` only copies, and nothing
comes behind the `:path`, unless `for_each_header` stops there.** -/
theorem requests_agree_iff (Code : Type) (streamId : ℤ) (endStream : Bool) (sock : ℤ) (cid : Bytes)
    (b : HeaderBlock) :
    http2Request Code (requestFrame streamId endStream) b.fields =
      some (http3Request sock cid b.fields) ↔ SameRequest b := by
  rw [http2Request_eq Code _ ⟨rfl, rfl⟩, http3Request_eq, Option.some_inj]
  dsimp only
  have hsame : SameRequest b ↔ ((∀ f ∈ b.before, Verbatim f.2) ∧ Verbatim b.path) ∧
      (checkPath (strndup b.path b.path.length) = false ∨ b.after = [] ∧ b.regular = []) :=
    ⟨fun h => ⟨⟨h.before, h.path⟩, h.rest⟩, fun h => ⟨h.1.1, h.1.2, h.2⟩⟩
  rw [hsame]
  cases checkPath (strndup b.path b.path.length) with
  | false =>
      -- the loop stops at the `:path`
      have hnodup : (.path :: (b.before ++ []).map Prod.fst).Nodup := by
        rw [List.append_nil]
        apply List.Nodup.sublist _ b.nodup
        apply List.Sublist.cons_cons
        rw [List.map_append]
        exact List.sublist_append_left ..
      have hiff := @setPath_eq_iff b.before [] b.path [] hnodup
      simp only [and_self, and_true] at hiff
      simp only [Bool.false_eq_true, if_false, true_or, and_true]
      exact hiff
  | true =>
      simp only [if_true, Bool.true_eq_false, false_or]
      exact setPath_eq_iff b.nodup

/-- A request whose path has a query, and which has a regular field. -/
def queryBlock : HeaderBlock where
  before := [(.method, ascii "GET"), (.scheme, ascii "https"), (.authority, ascii "localhost")]
  path := ascii "/search?q=1"
  after := []
  regular := [(ascii "user-agent", ascii "curl")]
  nodup := by decide
  regularNames := by decide

/-- HTTP/2 cuts the query off and drops the field. -/
theorem requests_differ_query :
    http2Request Unit (requestFrame 1 true) queryBlock.fields ≠
      some (http3Request 5 (ascii "0123456789abcdef") queryBlock.fields) := by
  decide +kernel

end Gfhttpd.Agreement
