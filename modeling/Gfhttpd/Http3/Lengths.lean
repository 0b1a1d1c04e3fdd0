import Gfhttpd.Http3.WellFormed

/-!
# The length of a local file (`main/router/router.c`, `main/http3/http3.c`)

`lseek` returns an `off_t`.  `root_router` keeps it in an `int` and stores that in a `size_t`, where
-1 is the mark of a length that is not known yet; `get_http3_headers` prints the `size_t`, and
`future_write_cb` keeps it in an `int` again.

- `fileLength_eq_iff`: the lengths that the `int` of `root_router` holds
- `writer_stays`: a response keeps its place and its stream, whatever comes after it
- `length_survives_iff`: the ticks of a response that announce and send the length of its file
-/

namespace Gfhttpd.Http3

open Http Conf Router Modules Transition

variable {Code : Type}

/-! ## Conversions -/

/-- The content length of a file for the result of `lseek`. -/
theorem fileLength_eq_iff {L : ℤ} (hlo : 0 ≤ L) (hhi : L < 2 ^ 63) :
    (toSizeT (wrap32 L) : ℤ) = L ↔ L < 2 ^ 31 := by
  simp only [toSizeT, wrap32]
  omega

/-- The conversions back. -/
theorem fileLength_of_lt {L : ℤ} (hlo : 0 ≤ L) (hhi : L < 2 ^ 31) :
    toSizeT (wrap32 L) = L.toNat ∧ toSizeT (wrap32 L) ≠ SIZE_MAX ∧
      wrap32 (toSizeT (wrap32 L)) = L := by
  have hsame : wrap32 L = L := wrap32_of_lt (by omega) hhi
  have hsize : toSizeT (wrap32 L) = L.toNat := by
    rw [hsame]
    simp only [toSizeT]
    omega
  rw [hsize, Int.toNat_of_nonneg hlo, SIZE_MAX]
  exact ⟨rfl, by omega, hsame⟩

/-- Different numbers are printed differently. -/
theorem formatSize_injective {n m : ℕ} (h : formatSize n = formatSize m) : n = m := by
  -- a digit is a byte
  have hback : ∀ k, (formatSize k).map (fun b => Char.ofNat b.toNat) = Nat.toDigits 10 k := by
    intro k
    rw [formatSize, ascii, Nat.toString_eq_repr, Nat.toList_repr, List.map_map]
    refine (List.map_congr_left fun c hc => ?_).trans (List.map_id _)
    have hdigit := Nat.isDigit_of_mem_toDigits (by decide) (by decide) hc
    have hlt : c.toNat < 256 := by
      simp only [Char.isDigit, Bool.and_eq_true, decide_eq_true_eq] at hdigit
      have hle : c.toNat ≤ 57 := hdigit.2
      omega
    show Char.ofNat (c.toNat % 256) = c
    rw [Nat.mod_eq_of_lt hlt, Char.ofNat_toNat]
  have hdigits : Nat.toDigits 10 n = Nat.toDigits 10 m := by
    rw [← hback n, ← hback m, h]
  have hn : Nat.ofDigitChars 10 (Nat.toDigits 10 n) 0 = n := Nat.ofDigitChars_ten_toDigits
  rw [← hn, hdigits, Nat.ofDigitChars_ten_toDigits]

/-! ## Responses and later events -/

theorem exists_modify {l : List FutureWrite} {i j : ℕ} {fw new : FutureWrite} {streamId : ℤ}
    (hi : l[i]? = some fw) (hnew : new.streamId = fw.streamId)
    (h : ∃ old, l[j]? = some old ∧ old.streamId = streamId) :
    ∃ old, (l.modify i fun _ => new)[j]? = some old ∧ old.streamId = streamId := by
  obtain ⟨old, hj, hold⟩ := h
  rw [List.getElem?_modify, hj]
  by_cases hij : i = j
  · subst hij
    obtain rfl := Option.some.inj (hi.symm.trans hj)
    exact ⟨new, by simp, hnew.trans hold⟩
  · exact ⟨old, by simp [hij], hold⟩

/-- A write event changes no response's stream. -/
theorem TickCases.writer_stays {c c' : Conn} {i : ℕ} {fw : FutureWrite} {io : TickIO}
    (h : TickCases c i fw io c') (hfw : c.writers[i]? = some fw) {j : ℕ} {streamId : ℤ}
    (hj : ∃ old, c.writers[j]? = some old ∧ old.streamId = streamId) :
    ∃ old, c'.writers[j]? = some old ∧ old.streamId = streamId := by
  have hbody : ∀ {c₀ : Conn} {fw₀ : FutureWrite}, BodyFrame c₀ i fw₀ c' → c₀.writers = c.writers →
      fw₀.streamId = fw.streamId → ∃ old, c'.writers[j]? = some old ∧ old.streamId = streamId := by
    intro c₀ fw₀ hframe hwriters hstream
    obtain ⟨new, hnew, hid, -⟩ := hframe.writers
    rw [hnew, hwriters]
    exact exists_modify hfw (hid.trans hstream) hj
  cases h with
  | closed hclosed => exact exists_modify hfw rfl hj
  | deferred hopen hunsent hlen => exact exists_modify hfw rfl hj
  | noHeaders hopen hunsent hlen hnone => exact hj
  | first hopen hunsent hlen hheaders hloop => exact hbody (writeBody_frame hloop) rfl rfl
  | next hopen hsent hloop => exact hbody (writeBody_frame hloop) rfl rfl

/-- A new response comes behind the others. -/
theorem HeadersCases.writer_stays {c c' : Conn} {streamId₀ : ℤ} {block : List (Bytes × Bytes)}
    (h : HeadersCases c streamId₀ block c') {j : ℕ} {streamId : ℤ}
    (hj : ∃ old, c.writers[j]? = some old ∧ old.streamId = streamId) :
    ∃ old, c'.writers[j]? = some old ∧ old.streamId = streamId := by
  obtain ⟨old, hold, hstream⟩ := hj
  have hnew : ∀ fw, (c.writers ++ [fw])[j]? = some old := by
    intro fw
    rw [List.getElem?_append_left (List.getElem?_eq_some_iff.mp hold).1, hold]
  cases h with
  | unanswered hun => exact ⟨old, by rw [hun.writers, hold], hstream⟩
  | module es hes chain url => exact ⟨old, hnew _, hstream⟩
  | file es hes f => exact ⟨old, hnew _, hstream⟩
  | notFound es hes page hpage => exact ⟨old, hnew _, hstream⟩

/-- No event takes a response away, or gives it to another stream. -/
theorem writer_stays {routes : List (Route Code)} {c c' : Conn} {es : List (ConnEvent Code)} {j : ℕ}
    {streamId : ℤ} (hj : ∃ old, c.writers[j]? = some old ∧ old.streamId = streamId)
    (hexec : (connMachine routes).exec c es = some c') :
    ∃ old, c'.writers[j]? = some old ∧ old.streamId = streamId := by
  refine (connMachine routes).exec_invariant
    (I := fun c => ∃ old, c.writers[j]? = some old ∧ old.streamId = streamId)
    (fun d e d' hd hstep => ?_) hj hexec
  have hstep : connStep routes d e = some d' := hstep
  cases e with
  | headers streamId₀ block io => exact (connStep_headers hstep).2.2.writer_stays hd
  | writeTick i io =>
      obtain ⟨-, fw, hfw, -, hcases⟩ := connStep_writeTick hstep
      exact hcases.writer_stays hfw hd
  | moduleTick ev io =>
      obtain ⟨-, -, rfl⟩ := connStep_moduleTick hstep
      exact hd
  | close =>
      obtain rfl := connStep_close hstep
      exact hd

/-! ## A request for a file -/

/-- The request is routed to a local file of this size. -/
def RoutedToFile (routes : List (Route Code)) (io : RouterIO Code) (c : Conn) (streamId : ℤ)
    (block : List (Bytes × Bytes)) (L : ℤ) : Prop :=
  (routed routes io c streamId block).outcome = .file L

/-- The size `L` of the file is the length that `root_router` stores in `c₁`, no mark of a length that is
not known, what the tick from `c` to `c'` announces, and what the response sets out to send behind it. -/
structure LengthSurvives (c₁ c c' : Conn) (i : ℕ) (streamId L : ℤ) : Prop where
  stored : (c₁.hs.response.contentLenght : ℤ) = L
  ready : c₁.hs.response.contentLenght ≠ SIZE_MAX
  printed : ∃ status es, c'.world.log =
    c.world.log ++ .sendResponse streamId (responseHeaders status L.toNat) :: es
  body : c'.writers[i]?.map FutureWrite.len = some L

/-- The connection behind such a request. -/
theorem onHeaders_file {routes : List (Route Code)} {io : RouterIO Code} {c : Conn} {streamId L : ℤ}
    {block : List (Bytes × Bytes)} (hfile : RoutedToFile routes io c streamId block L) :
    ∃ fd w, onHeaders routes io c streamId block =
      { c with
        hs := lengthStream (prepareRequest block c.hs) (toSizeT (wrap32 L))
        writers := c.writers ++ [newWriter streamId fd]
        world := w } := by
  have hcases := rootRouter_cases (prepareRequest block c.hs).evbase routes io
    (prepareRequest block c.hs) (routerWorld c streamId block)
  change RouterCases _ _ _ (routed routes io c streamId block) at hcases
  show ∃ fd w, onRouted c streamId (routed routes io c streamId block) = _
  unfold RoutedToFile at hfile
  generalize routed routes io c streamId block = r at hcases hfile ⊢
  -- `root_router` ends in other ways, but not with a file
  cases hcases with
  | file es hes f =>
      obtain rfl : f.size = L := Outcome.file.inj hfile
      exact ⟨_, _, rfl⟩
  | fault | noSocket | noTimer | module | noError | notFound => cases hfile

/-- A loop keeps the length it was given. -/
theorem writeBody_len {c c' : Conn} {i : ℕ} {fw fw' : FutureWrite} {io : TickIO}
    (h : writeBody c i fw io = some c') (hfw : c.writers[i]? = some fw') :
    c'.writers[i]?.map FutureWrite.len = some fw.len := by
  obtain ⟨fd, r, timer, timeoutPending, -, -, hloop, rfl⟩ := writeBody_cases h
  obtain ⟨-, hlen, -⟩ := hloop.frame.2
  simp [afterLoop, hfw, hlen]

/-- A tick that announces the length `n` had it in the `http_stream`, on an open connection without a
response's headers. -/
theorem sends_of_printed {c c' : Conn} {fw : FutureWrite} {status : Bytes} {n : ℕ} {streamId : ℤ}
    {es : List Effect} (hticked : Ticked c fw c') (hprinted : c'.world.log =
      c.world.log ++ .sendResponse streamId (responseHeaders status n) :: es) :
    c.closed = false ∧ c.hs.response.headersSent = false ∧ c.hs.response.contentLenght = n := by
  have hlog := hticked.log streamId
  rw [hprinted, responsesOn_append, List.append_cancel_left_eq] at hlog
  have hfirst : responsesOn streamId (.sendResponse streamId (responseHeaders status n) :: es) =
      responseHeaders status n :: responsesOn streamId es := by simp [responsesOn]
  rw [hfirst] at hlog
  -- the headers that were sent are those that the tick had to send
  have hsends : sends c = some (responseHeaders status n) := by
    split at hlog
    · cases hsends : sends c with
      | none => rw [hsends] at hlog; cases hlog
      | some fields =>
          rw [hsends] at hlog
          rw [(List.cons.inj hlog).1]
    · cases hlog
  unfold sends at hsends
  split at hsends
  · next hcan =>
      obtain ⟨status', -, hfields⟩ := Option.map_eq_some_iff.mp hsends
      simp only [responseHeaders, List.cons.injEq, Prod.mk.injEq, true_and, and_true] at hfields
      exact ⟨hcan.1, hcan.2.1, formatSize_injective hfields.2⟩
  · cases hsends

/-- A tick on an open connection without a response's headers announces the length it finds, and sets out
to send it. -/
theorem announces_of_cases {c c' : Conn} {i n : ℕ} {fw : FutureWrite} {io : TickIO}
    (h : TickCases c i fw io c') (hfw : c.writers[i]? = some fw) (hwell : WellFormed c)
    (hopen : c.closed = false) (hunsent : c.hs.response.headersSent = false)
    (hlength : c.hs.response.contentLenght = n) (hready : n ≠ SIZE_MAX) :
    (∃ status es, c'.world.log =
        c.world.log ++ .sendResponse fw.streamId (responseHeaders status n) :: es) ∧
      c'.writers[i]?.map FutureWrite.len = some (wrap32 n) := by
  have hne := hwell.answering (List.ne_nil_of_mem (List.mem_of_getElem? hfw))
  obtain ⟨status, hstatus⟩ := Option.isSome_iff_exists.mp hwell.status
  obtain ⟨oldStatus, nStatus, length, nLength, htable⟩ := hwell.table.resolve_left hne
  -- the table of the response prints the length
  have hfields : ∃ headers, getHttp3Headers c.hs.response.headers c.hs.response.httpStatus
      c.hs.response.contentLenght = some (headers, responseHeaders status n) := by
    rw [htable, hstatus, hlength]
    exact ⟨_, getHttp3Headers_table ..⟩
  obtain ⟨headers, hsome⟩ := hfields
  -- the other ways of a tick are for other states
  cases h with
  | closed hclosed => cases hopen.symm.trans hclosed
  | deferred _ _ hmark => exact absurd (hlength.symm.trans hmark) hready
  | next _ hbegun => cases hunsent.symm.trans hbegun
  | noHeaders _ _ _ hnone => cases hnone.symm.trans hsome
  | first _ _ _ hheaders hloop =>
      obtain ⟨rfl, rfl⟩ := Prod.mk.inj (Option.some.inj (hheaders.symm.trans hsome))
      constructor
      · obtain ⟨es, -, hlog⟩ := writeBody_log hloop
        exact ⟨status, es, by rw [hlog]; simp [sentHeaders]⟩
      · rw [writeBody_len hloop hfw]
        exact congrArg some (congrArg (fun n : ℕ => wrap32 n) hlength)

/-- **In every run of a connection, a tick of a file's response announces the size that `lseek` returned
and sets out to send it exactly if that size is an `int`, the connection is open, no response was begun
on it before, and the length in its `http_stream` is still the one stored for the file.** -/
theorem length_survives_iff {routes : List (Route Code)} {sock : ℤ} {cid : Bytes}
    {run between : List (ConnEvent Code)} {c c₁ c₂ c₃ : Conn} {streamId L : ℤ}
    {block : List (Bytes × Bytes)} {io : RouterIO Code} {tick : TickIO}
    (hexec : (connMachine routes).exec (Conn.create sock cid) run = some c)
    (hfile : RoutedToFile routes io c streamId block L) (hlo : 0 ≤ L) (hhi : L < 2 ^ 63)
    (hheaders : connStep routes c (.headers streamId block io) = some c₁)
    (hbetween : (connMachine routes).exec c₁ between = some c₂)
    (htick : connStep routes c₂ (.writeTick c.writers.length tick) = some c₃) :
    LengthSurvives c₁ c₂ c₃ c.writers.length streamId L ↔
      L < 2 ^ 31 ∧ c₂.closed = false ∧ c₂.hs.response.headersSent = false ∧
        c₂.hs.response.contentLenght = c₁.hs.response.contentLenght := by
  have hstep : (connMachine routes).step c (.headers streamId block io) = some c₁ := hheaders
  have hwell : WellFormed c₂ := .run ((connMachine routes).exec_append hexec
    ((connMachine routes).exec_cons_eq_some.mpr ⟨c₁, hstep, hbetween⟩))
  simp only [connStep, Option.ite_none_left_eq_some, Option.some.injEq] at hheaders
  obtain ⟨-, rfl⟩ := hheaders
  obtain ⟨fd, w, heq⟩ := onHeaders_file hfile
  -- the response is still there, with its stream
  obtain ⟨fw, hfw, hstream⟩ : ∃ old, c₂.writers[c.writers.length]? = some old ∧
      old.streamId = streamId := by
    refine writer_stays ⟨newWriter streamId fd, ?_, rfl⟩ hbetween
    rw [heq]
    exact List.getElem?_concat_length
  have hstored : (onHeaders routes io c streamId block).hs.response.contentLenght =
      toSizeT (wrap32 L) := by rw [heq]; rfl
  rw [hstored]
  obtain ⟨-, fw', hfw', -, hcases⟩ := connStep_writeTick htick
  obtain rfl := Option.some.inj (hfw.symm.trans hfw')
  constructor
  · rintro ⟨hlength, -, ⟨status, es, hprinted⟩, -⟩
    rw [hstored] at hlength
    have hne := hwell.answering (List.ne_nil_of_mem (List.mem_of_getElem? hfw))
    have hticked := ticked_of_cases hcases ⟨hne, hwell.table⟩
    obtain ⟨hopen, hunsent, hready⟩ := sends_of_printed hticked hprinted
    refine ⟨(fileLength_eq_iff hlo hhi).mp hlength, hopen, hunsent, ?_⟩
    omega
  · rintro ⟨hint, hopen, hunsent, hkept⟩
    obtain ⟨hsize, hready, hback⟩ := fileLength_of_lt hlo hint
    obtain ⟨hprinted, hbody⟩ := announces_of_cases hcases hfw hwell hopen hunsent hkept hready
    rw [hstream, hsize] at hprinted
    rw [hback] at hbody
    exact ⟨by rw [hstored]; exact (fileLength_eq_iff hlo hhi).mpr hint, by rw [hstored]; exact hready,
      hprinted, hbody⟩

/-- A request for `/a`, where every file has this size. -/
def sizedFile (size : ℤ) : RouterIO Unit :=
  { servesFile (ascii "hello") with openFile := fun _ => some ⟨.file, ascii "hello", size⟩ }

/-- `c` behind a request for a file of 5 bytes. -/
def requestedSized (c : Conn) (streamId : ℤ) : Conn :=
  onHeaders [] (sizedFile 5) c streamId [(ascii ":path", ascii "/a")]

/-- The file of 5 bytes is requested again, before its first response is begun. -/
theorem length_survives_hello : ∃ c₁ c₂ c₃,
    connStep [] (Conn.create 5 []) (.headers 0 [(ascii ":path", ascii "/a")] (sizedFile 5)) =
        some c₁ ∧
      connStep [] c₁ (.headers 4 [(ascii ":path", ascii "/a")] (sizedFile 5)) = some c₂ ∧
      connStep ([] : List (Route Unit)) c₂ (.writeTick 0 ⟨[⟨5, 5⟩], ⟨[], true, 0⟩⟩) = some c₃ ∧
      LengthSurvives c₁ c₂ c₃ 0 0 5 := by
  have hheaders : connStep [] (Conn.create 5 [])
      (.headers 0 [(ascii ":path", ascii "/a")] (sizedFile 5)) =
        some (requestedSized (Conn.create 5 []) 0) := rfl
  have hagain : connStep [] (requestedSized (Conn.create 5 []) 0)
      (.headers 4 [(ascii ":path", ascii "/a")] (sizedFile 5)) =
        some (requestedSized (requestedSized (Conn.create 5 []) 0) 4) := rfl
  have hbetween : (connMachine []).exec (requestedSized (Conn.create 5 []) 0)
      [.headers 4 [(ascii ":path", ascii "/a")] (sizedFile 5)] =
        some (requestedSized (requestedSized (Conn.create 5 []) 0) 4) := rfl
  have htick : connStep ([] : List (Route Unit))
      (requestedSized (requestedSized (Conn.create 5 []) 0) 4)
      (.writeTick 0 ⟨[⟨5, 5⟩], ⟨[], true, 0⟩⟩) = some _ := rfl
  have hexec : (connMachine []).exec (Conn.create 5 []) ([] : List (ConnEvent Unit)) = some _ := rfl
  have hfile : RoutedToFile [] (sizedFile 5) (Conn.create 5 []) 0 [(ascii ":path", ascii "/a")] 5 :=
    rfl
  exact ⟨_, _, _, hheaders, hagain, htick, (length_survives_iff hexec hfile (by decide) (by decide)
    hheaders hbetween htick).mpr ⟨by decide, rfl, rfl, rfl⟩⟩

/-- The size that `lseek` returns for a directory on many file systems becomes the mark of a length
that is not known: the response waits for a module that does not exist. -/
theorem length_lost_directory : ∃ c₁ c₂,
    RoutedToFile [] (sizedFile (2 ^ 63 - 1)) (Conn.create 5 []) 0 [(ascii ":path", ascii "/a")]
        (2 ^ 63 - 1) ∧
      connStep [] (Conn.create 5 [])
        (.headers 0 [(ascii ":path", ascii "/a")] (sizedFile (2 ^ 63 - 1))) = some c₁ ∧
      connStep ([] : List (Route Unit)) c₁ (.writeTick 0 ⟨[], ⟨[], true, 0⟩⟩) = some c₂ ∧
      c₁.hs.response.contentLenght = SIZE_MAX ∧
      ¬ LengthSurvives c₁ c₁ c₂ 0 0 (2 ^ 63 - 1) := by
  refine ⟨_, _, rfl, rfl, rfl, by decide, fun hsurvives => ?_⟩
  exact hsurvives.ready (by decide)

end Gfhttpd.Http3
