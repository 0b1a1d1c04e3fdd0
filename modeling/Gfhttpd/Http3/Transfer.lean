import Gfhttpd.Http3.Spec
import Mathlib.Algebra.Order.BigOperators.Group.List
import Mathlib.Algebra.Order.Group.Int
import Mathlib.Algebra.Ring.Int.Defs

/-!
# The bytes of a response

The bytes `quiche` accepted on a stream are read off the log (`bodyOn`).  They are the first
`fw->pos` bytes of the response's source, and no more than the announced length, in every run
whose write ticks meet `Resumes`:

- the source is a regular file, or its offset is still `fw->pos`: no chunk of it was accepted in
  part before
- the bytes accepted in the tick fit into what is left of the announced length

`future_write_cb` seeks back to `fw->pos` before it reads, and only a file can be sought; and it
reads whole buffers, whatever is left of the response.
-/

namespace Gfhttpd.Http3

open Http Conf Router Modules Transition

variable {Code : Type}

/-! ## Reading the log -/

/-- The bytes of a stream's body that a call makes `quiche` accept. -/
def acceptedBy (streamId : ℤ) : Effect → Bytes
  | .sendBody _ stream _ body written _ => if stream = streamId then body.take written.toNat else []
  | _ => []

/-- The bytes accepted on a stream. -/
def bodyOn (streamId : ℤ) (log : List Effect) : Bytes :=
  log.flatMap (acceptedBy streamId)

theorem bodyOn_append (streamId : ℤ) (log es : List Effect) :
    bodyOn streamId (log ++ es) = bodyOn streamId log ++ bodyOn streamId es :=
  List.flatMap_append

theorem bodyOn_cons (streamId : ℤ) (e : Effect) (es : List Effect) :
    bodyOn streamId (e :: es) = acceptedBy streamId e ++ bodyOn streamId es :=
  List.flatMap_cons

theorem bodyOn_eq_nil {streamId : ℤ} {es : List Effect}
    (h : ∀ e ∈ es, acceptedBy streamId e = []) : bodyOn streamId es = [] :=
  List.flatMap_eq_nil_iff.mpr h

/-- The router sends nothing. -/
theorem acceptedBy_routing {url : Option Bytes} {e : Effect} (h : IsRouting url e)
    (streamId : ℤ) : acceptedBy streamId e = [] := by
  cases e with
  | sendBody j s f body written fin => exact h.elim
  | _ => rfl

/-! ## The loop -/

/-- The bytes accepted in a tick. -/
def acceptedSum (chunks : List Chunk) : ℤ :=
  (chunks.map Chunk.sent).sum

/-- A `read` that is no error returns bytes the source has. -/
theorem canRead_bound {fd : Fd} {n : ℤ} (h : Fd.canRead fd n = true) (hn : n ≠ -1) :
    0 ≤ n ∧ (n = 0 ∨ fd.offset + n ≤ fd.content.length) := by
  simp only [Fd.canRead, Bool.or_eq_true, Bool.and_eq_true, beq_iff_eq, decide_eq_true_eq] at h
  rcases h with (h | ⟨h, -⟩) | ⟨⟨h, -⟩, hle⟩
  · exact absurd h hn
  · exact ⟨h.ge, Or.inl h⟩
  · exact ⟨h.le, Or.inr hle⟩

/-- The first `m` bytes of what is read at `pos` are the bytes behind the first `pos`. -/
theorem take_body {fd : Fd} {pos n m : ℤ} (hoffset : (fd.offset : ℤ) = pos) (hm : 0 ≤ m)
    (hle : m ≤ n) : fd.content.take (pos + m).toNat =
      fd.content.take pos.toNat ++ (Fd.body fd n).take m.toNat := by
  have hpos : pos.toNat = fd.offset := by omega
  have hsum : (pos + m).toNat = fd.offset + m.toNat := by omega
  have hmin : min m.toNat n.toNat = m.toNat := by omega
  rw [hpos, hsum, List.take_add, Fd.body, List.take_take, hmin]

/-- A loop that starts at `fw->pos` sends the bytes that follow. -/
theorem WriteLoop.take {i : ℕ} {chunks : List Chunk} {fw : FutureWrite} {fd : Fd} {r : LoopResult}
    (h : WriteLoop i chunks fw fd r) (hoffset : chunks ≠ [] → (fd.offset : ℤ) = fw.pos)
    (hpos : 0 ≤ fw.pos) (hsource : fw.pos.toNat ≤ fd.content.length)
    (hsent : ∀ ch ∈ chunks, 0 ≤ ch.sent)
    (hfits : chunks ≠ [] → fw.pos + acceptedSum chunks ≤ fw.len) (hlen : fw.len < 2 ^ 31)
    (hmax : fw.pos ≤ max fw.len 0) :
    fd.content.take r.fw.pos.toNat = fd.content.take fw.pos.toNat ++ bodyOn fw.streamId r.effects ∧
      0 ≤ r.fw.pos ∧ r.fw.pos.toNat ≤ fd.content.length ∧ r.fw.pos ≤ max fw.len 0 := by
  -- on the rounds of the loop: the bytes of a round are those behind what was accepted before
  induction h with
  | done hguard => exact ⟨by simp [bodyOn], hpos, hsource, hmax⟩
  | failed hguard hread => exact ⟨by simp [bodyOn, FutureWrite.sawChunk], hpos, hsource, hmax⟩
  -- an error of `quiche_h3_send_body` is no number of bytes
  | exited hguard hcan hread hexit =>
      have hnonneg := hsent _ (List.mem_singleton.mpr rfl)
      omega
  | @again fw fd ch hguard hcan hread hexit hpart =>
      have hm : 0 ≤ ch.sent := hsent ch (List.mem_singleton.mpr rfl)
      have hstart := hoffset (by simp)
      have hend : fw.pos + ch.sent ≤ fw.len := by simpa [acceptedSum] using hfits (by simp)
      obtain ⟨hn, hbound⟩ := canRead_bound hcan hread
      have hwrap : wrap32 (fw.pos + ch.sent) = fw.pos + ch.sent :=
        wrap32_of_lt (by omega) (by omega)
      refine ⟨?_, ?_, ?_, ?_⟩
      · simp only [FutureWrite.accept, FutureWrite.sawChunk, hwrap]
        rw [take_body hstart hm hpart.le]
        simp [bodyOn, bodyCall, acceptedBy]
      · simp only [FutureWrite.accept, FutureWrite.sawChunk, hwrap]
        omega
      · simp only [FutureWrite.accept, FutureWrite.sawChunk, hwrap]
        omega
      · simp only [FutureWrite.accept, FutureWrite.sawChunk, hwrap]
        omega
  | @chunk fw fd ch chunks r hguard hcan hread hfull hrest ih =>
      have hm : 0 ≤ ch.sent := hsent ch (List.mem_cons_self ..)
      have htail : ∀ ch' ∈ chunks, 0 ≤ ch'.sent := fun ch' h =>
        hsent ch' (List.mem_cons_of_mem _ h)
      have hstart := hoffset (by simp)
      have hend : fw.pos + (ch.sent + acceptedSum chunks) ≤ fw.len := by
        simpa [acceptedSum] using hfits (by simp)
      have hsum : 0 ≤ acceptedSum chunks := by
        refine List.sum_nonneg fun n hn => ?_
        obtain ⟨ch', hch', rfl⟩ := List.mem_map.mp hn
        exact htail ch' hch'
      obtain ⟨hn, hbound⟩ := canRead_bound hcan hread
      have hwrap : wrap32 (fw.pos + ch.sent) = fw.pos + ch.sent :=
        wrap32_of_lt (by omega) (by omega)
      obtain ⟨htake, hpos', hsource', hmax'⟩ := ih
        (fun _ => by simp only [FutureWrite.accept, FutureWrite.sawChunk, hwrap, Fd.advance]; omega)
        (by simp only [FutureWrite.accept, FutureWrite.sawChunk, hwrap]; omega)
        (by simp only [FutureWrite.accept, FutureWrite.sawChunk, hwrap, Fd.advance]; omega)
        htail
        (fun _ => by simp only [FutureWrite.accept, FutureWrite.sawChunk, hwrap]; omega)
        hlen
        (by simp only [FutureWrite.accept, FutureWrite.sawChunk, hwrap]; omega)
      refine ⟨?_, hpos', hsource', hmax'⟩
      simp only [FutureWrite.accept, FutureWrite.sawChunk, Fd.advance, hwrap] at htake
      rw [htake, take_body hstart hm hfull.le, bodyOn_cons, List.append_assoc]
      simp [bodyCall, acceptedBy]

/-! ## The invariant -/

/-- Contents only get longer. -/
def ContentsGrow (w w' : World) : Prop :=
  ∀ (n : ℕ) (fd : Fd), w.fds[n]? = some fd →
    ∃ fd', w'.fds[n]? = some fd' ∧ fd.content <+: fd'.content

/-- What was accepted of a response is the start of its source, and no more than announced. -/
structure Sent (w : World) (fw : FutureWrite) : Prop where
  pos : 0 ≤ fw.pos
  announced : fw.pos ≤ max fw.len 0
  len : fw.len < 2 ^ 31
  source : ∃ fd, w.fds[fw.fd]? = some fd ∧ fw.pos.toNat ≤ fd.content.length ∧
    bodyOn fw.streamId w.log = fd.content.take fw.pos.toNat

theorem Sent.mono {w w' : World} {fw : FutureWrite} (h : Sent w fw) (hgrow : ContentsGrow w w')
    (hbody : bodyOn fw.streamId w'.log = bodyOn fw.streamId w.log) : Sent w' fw := by
  obtain ⟨fd, hfd, hle, htake⟩ := h.source
  obtain ⟨fd', hfd', b, hb⟩ := hgrow fw.fd fd hfd
  refine ⟨h.pos, h.announced, h.len, fd', hfd', ?_, ?_⟩
  · rw [← hb, List.length_append]
    omega
  · rw [hbody, htake, ← hb, List.take_append_of_le_length hle]

/-- Scheduling does not matter. -/
theorem Sent.schedule {w : World} {fw : FutureWrite} (h : Sent w fw) (b : Bool) :
    Sent w { fw with scheduled := b } :=
  ⟨h.pos, h.announced, h.len, h.source⟩

structure Transferred (c : Conn) : Prop where
  writers : ∀ (i : ℕ) (fw : FutureWrite), c.writers[i]? = some fw → Sent c.world fw
  distinct : (c.writers.map FutureWrite.streamId).Nodup
  others : ∀ stream, stream ∉ c.writers.map FutureWrite.streamId → bodyOn stream c.world.log = []
  unsent : c.hs.response.headersSent = false →
    ∀ (i : ℕ) (fw : FutureWrite), c.writers[i]? = some fw → fw.len = -1

/-- The length that is announced for a response when it is written to. -/
def announcedLength (c : Conn) (fw : FutureWrite) : ℤ :=
  if c.hs.response.headersSent then fw.len else wrap32 c.hs.response.contentLenght

/-- A tick that reads resumes the source where the response stands, for bytes that fit into the
length announced. -/
def ResumesAt (io : TickIO) (len : ℤ) (fw : FutureWrite) (fd : Fd) : Prop :=
  io.chunks ≠ [] → (fd.kind = .file ∨ (fd.offset : ℤ) = fw.pos) ∧
    (∀ ch ∈ io.chunks, 0 ≤ ch.sent) ∧ fw.pos + acceptedSum io.chunks ≤ len

instance (io : TickIO) (len : ℤ) (fw : FutureWrite) (fd : Fd) : Decidable (ResumesAt io len fw fd) :=
  inferInstanceAs (Decidable (_ → _))

/-- The condition on an event: a request comes on a stream of its own, and a tick resumes its
source. -/
def Resumes (c : Conn) : ConnEvent Code → Prop
  | .headers streamId _ _ => streamId ∉ c.writers.map FutureWrite.streamId
  | .writeTick i io => ∀ fw ∈ c.writers[i]?, ∀ fd ∈ c.world.fds[fw.fd]?,
      ResumesAt io (announcedLength c fw) fw fd
  | .moduleTick _ _ => True
  | .close => True

instance (c : Conn) : (e : ConnEvent Code) → Decidable (Resumes c e)
  | .headers streamId _ _ =>
      inferInstanceAs (Decidable (streamId ∉ c.writers.map FutureWrite.streamId))
  | .writeTick i io =>
      inferInstanceAs (Decidable (∀ fw ∈ c.writers[i]?, ∀ fd ∈ c.world.fds[fw.fd]?,
        ResumesAt io (announcedLength c fw) fw fd))
  | .moduleTick _ _ => .isTrue trivial
  | .close => .isTrue trivial

/-- Seeking to `fw->pos` gets there from any offset of a file, and from `fw->pos`. -/
theorem seek_offset {fd : Fd} {pos : ℤ} (hpos : 0 ≤ pos)
    (h : fd.kind = .file ∨ (fd.offset : ℤ) = pos) : ((fd.seek pos).offset : ℤ) = pos := by
  unfold Fd.seek
  split
  · exact Int.toNat_of_nonneg hpos
  · next hnot =>
      rcases h with hfile | hoffset
      · exact absurd ⟨hfile, hpos⟩ hnot
      · exact hoffset

theorem seek_content (fd : Fd) (pos : ℤ) : (fd.seek pos).content = fd.content := by
  unfold Fd.seek
  split <;> rfl

/-- Replacing a writer keeps the streams. -/
theorem map_streamId_modify {l : List FutureWrite} {i : ℕ} {fw fw' : FutureWrite}
    (h : l[i]? = some fw) (hstream : fw'.streamId = fw.streamId) :
    (l.modify i fun _ => fw').map FutureWrite.streamId = l.map FutureWrite.streamId := by
  refine List.ext_getElem? fun j => ?_
  by_cases hj : i = j
  · subst hj
    simp [h, hstream]
  · simp [hj]

/-- Two responses on one stream are one. -/
theorem Transferred.stream_inj {c : Conn} (hc : Transferred c) {i j : ℕ} {fw fw' : FutureWrite}
    (hi : c.writers[i]? = some fw) (hj : c.writers[j]? = some fw')
    (heq : fw.streamId = fw'.streamId) : i = j := by
  have hlt : i < c.writers.length := (List.getElem?_eq_some_iff.mp hi).1
  refine (List.getElem?_inj (by simpa using hlt) hc.distinct).mp ?_
  simp [hi, hj, heq]

/-- Sending from a descriptor leaves the contents as they are. -/
theorem WriteLoop.contentsGrow {c : Conn} {i : ℕ} {chunks : List Chunk} {fw : FutureWrite} {fd : Fd}
    {pos : ℤ} {r : LoopResult} (hrun : WriteLoop i chunks fw (fd.seek pos) r)
    (hfd : c.world.fds[fw.fd]? = some fd) (timer : Timeval) (timeoutPending : Bool) :
    ContentsGrow c.world (afterLoop c i r timer timeoutPending).world := by
  obtain ⟨-, hrfd, -, -, hrdesc⟩ := hrun.frame
  intro n fd₁ hfd₁
  by_cases hn : n = r.fw.fd
  · subst hn
    refine ⟨_, afterLoop_fds_self i timer timeoutPending hfd₁, ?_⟩
    rw [hrdesc, seek_content]
    rw [hrfd, hfd] at hfd₁
    obtain rfl := Option.some.inj hfd₁
    exact List.prefix_rfl
  · rw [afterLoop_fds_of_ne i timer timeoutPending hn]
    exact ⟨fd₁, hfd₁, List.prefix_rfl⟩

/-- A stream has the bytes of the loop behind those it had. -/
theorem afterLoop_bodyOn (c : Conn) (i : ℕ) (r : LoopResult) (timer : Timeval)
    (timeoutPending : Bool) (stream : ℤ) :
    bodyOn stream (afterLoop c i r timer timeoutPending).world.log =
      bodyOn stream c.world.log ++ bodyOn stream r.effects := by
  rw [afterLoop_log, bodyOn_append, bodyOn_append]
  cases hcloses : r.closes <;> simp [bodyOn, acceptedBy]

theorem WriteLoop.bodyOn_of_ne {i : ℕ} {chunks : List Chunk} {fw : FutureWrite} {fd : Fd}
    {r : LoopResult} (hrun : WriteLoop i chunks fw fd r) {stream : ℤ} (hne : fw.streamId ≠ stream) :
    bodyOn stream r.effects = [] := by
  refine bodyOn_eq_nil fun e he => ?_
  obtain ⟨body, written, fin, rfl⟩ := hrun.effects e he
  exact if_neg hne

/-- The bytes a tick sends. -/
theorem Transferred.body {c c' : Conn} {i : ℕ} {fw₀ : FutureWrite} {io : TickIO}
    (hc : Transferred c) (fw : FutureWrite) (hfw₀ : c.writers[i]? = some fw₀)
    (hstream : fw.streamId = fw₀.streamId)
    (hfd : fw.fd = fw₀.fd) (hpos : fw.pos = fw₀.pos) (hmax : fw.pos ≤ max fw.len 0)
    (hlen : fw.len < 2 ^ 31) (hsent : c.hs.response.headersSent = true)
    (hresumes : ∀ fd ∈ c.world.fds[fw.fd]?, ResumesAt io fw.len fw fd)
    (h : writeBody c i fw io = some c') : Transferred c' := by
  obtain ⟨fd, r, timer, pending, -, hfdget, hrun, rfl⟩ := writeBody_cases h
  have hold := hc.writers i fw₀ hfw₀
  obtain ⟨hrstream, hrfd, hrlen, -, hrdesc⟩ := hrun.frame
  obtain ⟨fd', hfd', hle, htake⟩ := hold.source
  obtain rfl : fd = fd' := Option.some.inj (by rw [← hfdget, ← hfd', hfd])
  have hnonneg : 0 ≤ fw.pos := hpos ▸ hold.pos
  have hsource : fw.pos.toNat ≤ fd.content.length := hpos ▸ hle
  have hcond := hresumes fd hfdget
  obtain ⟨htake', hpos', hsource', hmax'⟩ := hrun.take
    (fun hne => seek_offset hnonneg (hcond hne).1) hnonneg (by rwa [seek_content])
    (fun ch hch => (hcond (List.ne_nil_of_mem hch)).2.1 ch hch) (fun hne => (hcond hne).2.2) hlen hmax
  rw [seek_content] at htake' hsource'
  have hdesc := afterLoop_fds_self i timer pending (hrfd ▸ hfdget)
  have hgrow := hrun.contentsGrow hfdget timer pending
  have hlog := afterLoop_bodyOn c i r timer pending
  have hother : ∀ stream, fw.streamId ≠ stream →
      bodyOn stream (afterLoop c i r timer pending).world.log = bodyOn stream c.world.log := by
    intro stream hne
    rw [hlog, hrun.bodyOn_of_ne hne, List.append_nil]
  have hstreams : ((afterLoop c i r timer pending).writers.map FutureWrite.streamId) =
      c.writers.map FutureWrite.streamId :=
    map_streamId_modify hfw₀ (by rw [r.writer_frame]; exact hrstream.trans hstream)
  have hmem : fw.streamId ∈ c.writers.map FutureWrite.streamId := by
    rw [hstream]
    exact List.mem_map_of_mem (List.mem_of_getElem? hfw₀)
  -- the response that was written to has the new bytes, and no other stream has
  refine ⟨fun j fwj hj => ?_, ?_, fun stream hstreams' => ?_, fun hunsent => ?_⟩
  · by_cases hij : i = j
    · subst hij
      have hwriter : fwj = r.writer := by
        have hj' : (c.writers.modify i fun _ => r.writer)[i]? = some fwj := hj
        simpa [hfw₀] using hj'.symm
      rw [hwriter, r.writer_frame]
      refine Sent.schedule ⟨hpos', by rw [hrlen]; exact hmax', by rw [hrlen]; exact hlen,
        _, hdesc, ?_, ?_⟩ _
      · rw [hrdesc, seek_content]
        exact hsource'
      · rw [hrdesc, seek_content, hrstream, hlog, htake', hstream, htake, hpos]
    · have hj' : c.writers[j]? = some fwj := by
        have hj' : (c.writers.modify i fun _ => r.writer)[j]? = some fwj := hj
        simpa [hij] using hj'
      refine (hc.writers j fwj hj').mono hgrow (hother _ fun heq => hij ?_)
      exact hc.stream_inj hfw₀ hj' (hstream.symm.trans heq)
  · rw [hstreams]
    exact hc.distinct
  · rw [hstreams] at hstreams'
    rw [hother stream fun heq => hstreams' (heq ▸ hmem)]
    exact hc.others stream hstreams'
  · have hsent' : c.hs.response.headersSent = false := hunsent
    rw [hsent] at hsent'
    cases hsent'

/-- Scheduling a writer keeps the invariant. -/
theorem Transferred.schedule {c : Conn} (hc : Transferred c) {i : ℕ} {fw : FutureWrite}
    (hfw : c.writers[i]? = some fw) (b : Bool) :
    Transferred (c.modifyWriter i fun _ => { fw with scheduled := b }) := by
  have hstreams : ((c.modifyWriter i fun _ => { fw with scheduled := b }).writers.map
      FutureWrite.streamId) = c.writers.map FutureWrite.streamId := map_streamId_modify hfw rfl
  have hwriter : ∀ (j : ℕ) (fwj : FutureWrite),
      (c.modifyWriter i fun _ => { fw with scheduled := b }).writers[j]? = some fwj →
        ∃ fw', c.writers[j]? = some fw' ∧ ∃ b', fwj = { fw' with scheduled := b' } := by
    intro j fwj hj
    by_cases hij : i = j
    · subst hij
      exact ⟨fw, hfw, b, by simpa [Conn.modifyWriter, hfw] using hj.symm⟩
    · exact ⟨fwj, by simpa [Conn.modifyWriter, hij] using hj, fwj.scheduled, rfl⟩
  refine ⟨fun j fwj hj => ?_, by rw [hstreams]; exact hc.distinct,
    fun stream hs => hc.others stream (hstreams ▸ hs), fun hunsent j fwj hj => ?_⟩
  · obtain ⟨fw', hj', b', rfl⟩ := hwriter j fwj hj
    exact (hc.writers j fw' hj').schedule b'
  · obtain ⟨fw', hj', b', rfl⟩ := hwriter j fwj hj
    exact hc.unsent hunsent j fw' hj'

/-- A world whose contents grew and that has sent nothing more. -/
theorem Transferred.of_world {c c' : Conn} (hc : Transferred c) (hwriters : c'.writers = c.writers)
    (hsent : c'.hs.response.headersSent = false → c.hs.response.headersSent = false)
    (hgrow : ContentsGrow c.world c'.world)
    (hlog : ∀ stream, bodyOn stream c'.world.log = bodyOn stream c.world.log) :
    Transferred c' := by
  refine ⟨fun i fw hi => ?_, by rw [hwriters]; exact hc.distinct, fun stream hs => ?_, ?_⟩
  · rw [hwriters] at hi
    exact (hc.writers i fw hi).mono hgrow (hlog _)
  · rw [hwriters] at hs
    rw [hlog]
    exact hc.others stream hs
  · rw [hwriters]
    exact fun h => hc.unsent (hsent h)

/-- A new response has sent nothing. -/
theorem Transferred.append {c c' : Conn} (hc : Transferred c) {streamId : ℤ} {n : ℕ} (fd : Fd)
    (hnew : streamId ∉ c.writers.map FutureWrite.streamId)
    (hwriters : c'.writers = c.writers ++ [newWriter streamId n])
    (hsent : c'.hs.response.headersSent = c.hs.response.headersSent)
    (hfd : c'.world.fds[n]? = some fd) (hgrow : ContentsGrow c.world c'.world)
    (hlog : ∀ stream, bodyOn stream c'.world.log = bodyOn stream c.world.log) :
    Transferred c' := by
  have hcases : ∀ (i : ℕ) (fw : FutureWrite), c'.writers[i]? = some fw →
      c.writers[i]? = some fw ∨ fw = newWriter streamId n := by
    intro i fw hi
    rw [hwriters] at hi
    exact (getElem?_append_new hi).imp_right And.right
  refine ⟨fun i fw hi => ?_, ?_, fun stream hs => ?_, fun hunsent i fw hi => ?_⟩
  · rcases hcases i fw hi with hi | rfl
    · exact (hc.writers i fw hi).mono hgrow (hlog _)
    · exact ⟨le_rfl, by simp [newWriter], by simp [newWriter], fd, hfd, by simp [newWriter],
        (hlog _).trans (by simpa [newWriter] using hc.others streamId hnew)⟩
  · rw [hwriters, List.map_append, List.map_singleton]
    refine List.nodup_append.mpr ⟨hc.distinct, by simp, fun a ha b hb heq => hnew ?_⟩
    obtain rfl := List.mem_singleton.mp hb
    exact heq ▸ ha
  · rw [hwriters, List.map_append, List.mem_append, not_or] at hs
    rw [hlog]
    exact hc.others stream hs.1
  · rcases hcases i fw hi with hi | rfl
    · exact hc.unsent (hsent ▸ hunsent) i fw hi
    · rfl

theorem contentsGrow_append {w w' : World} (h : ∃ new, w'.fds = w.fds ++ new) :
    ContentsGrow w w' := by
  obtain ⟨new, hnew⟩ := h
  intro n fd hfd
  have hlt := (List.getElem?_eq_some_iff.mp hfd).1
  exact ⟨fd, by rw [hnew, List.getElem?_append_left hlt, hfd], List.prefix_rfl⟩

/-- A header block on a stream of its own keeps the invariant. -/
theorem Transferred.headers {c c' : Conn} (hc : Transferred c) {streamId : ℤ}
    {block : List (Bytes × Bytes)} (hnew : streamId ∉ c.writers.map FutureWrite.streamId)
    (h : HeadersCases c streamId block c') : Transferred c' := by
  have hlog : ∀ stream, bodyOn stream c'.world.log = bodyOn stream c.world.log := by
    intro stream
    obtain ⟨es, last, hes, hlast, hlog⟩ := h.log
    have hnil : bodyOn stream es = [] :=
      bodyOn_eq_nil fun e he => acceptedBy_routing (hes e he) stream
    rw [hlog, routerWorld, World.log_emit]
    simp only [bodyOn_append, hnil]
    rcases hlast with rfl | ⟨fd, outcome, rfl⟩ <;> simp [bodyOn, acceptedBy]
  obtain ⟨-, hsent, -⟩ := prepareRequest_status block c.hs
  cases h with
  | unanswered h =>
      obtain ⟨fd, hresponse⟩ := h.response
      refine hc.of_world h.writers (fun hunsent => ?_) (contentsGrow_append h.fds) hlog
      rwa [hresponse, hsent] at hunsent
  | module es hes chain url =>
      refine hc.append ⟨.socket, [], 0, some (c.world.fds.length + 1), 0⟩ hnew rfl hsent ?_
        (contentsGrow_append ⟨socketEnds c.world, by simp [routerWorld]⟩) hlog
      simp [socketEnds]
  | file es hes f =>
      refine hc.append ⟨f.kind, f.content, 0, none, 0⟩ hnew rfl hsent ?_
        (contentsGrow_append ⟨_, rfl⟩) hlog
      simp
  | notFound es hes page hpage =>
      refine hc.append ⟨.pipe, page, 0, none, 0⟩ hnew rfl hsent ?_
        (contentsGrow_append ⟨_, rfl⟩) hlog
      simp [pipeEnds]

/-- A write tick that resumes keeps the invariant. -/
theorem Transferred.tick {c c' : Conn} (hc : Transferred c) {i : ℕ} {fw : FutureWrite} {io : TickIO}
    (hfw : c.writers[i]? = some fw)
    (hresumes : ∀ fd ∈ c.world.fds[fw.fd]?, ResumesAt io (announcedLength c fw) fw fd)
    (h : TickCases c i fw io c') : Transferred c' := by
  cases h with
  | closed hclosed => exact hc.schedule hfw false
  | noHeaders hopen hunsent hlen hnone => exact ⟨hc.writers, hc.distinct, hc.others, hc.unsent⟩
  | deferred hopen hunsent hlen => exact hc.schedule hfw true
  | next hopen hsent hbody =>
      have hold := hc.writers i fw hfw
      refine hc.body { fw with scheduled := false } hfw rfl rfl rfl hold.announced hold.len hsent
        (fun fd hfd => ?_) hbody
      have hcond := hresumes fd hfd
      rwa [announcedLength, if_pos hsent] at hcond
  | @first hopen hunsent hlen headers array hheaders _ hbody =>
      have hold := hc.writers i fw hfw
      -- no byte is accepted before the headers, as the length is -1 until then
      have hpos : fw.pos ≤ 0 := by
        have hlen' := hc.unsent hunsent i fw hfw
        have hmax := hold.announced
        rw [hlen'] at hmax
        omega
      have hc' : Transferred (sentHeaders c fw.streamId headers array) :=
        hc.of_world rfl (fun h => by cases h) (contentsGrow_append ⟨[], by simp [sentHeaders]⟩)
          fun stream => by simp [sentHeaders, bodyOn, acceptedBy]
      refine hc'.body
        { fw with scheduled := false, len := wrap32 c.hs.response.contentLenght }
        hfw rfl rfl rfl ?_ ?_ rfl (fun fd hfd => ?_) hbody
      · simp only
        omega
      · simp only [wrap32]
        omega
      · have hcond := hresumes fd hfd
        rw [announcedLength, if_neg (by simp [hunsent])] at hcond
        exact fun hne => hcond hne

/-- A module event writes to descriptors, and sends nothing. -/
theorem Transferred.moduleTick {c : Conn} (hc : Transferred c) (ev : ℕ) (io : ModuleIO) :
    Transferred (moduleTick c ev io) := by
  have hticked := moduleTick_spec c ev io
  obtain ⟨es, hes, hlog⟩ := moduleTick_log c ev io
  obtain ⟨_, _, _, _, hhs⟩ := hticked.stream
  refine hc.of_world hticked.writers (fun h => ?_) (fun n fd hfd => ?_) fun stream => ?_
  · rw [hhs] at h
    exact h
  · obtain ⟨b, k, hb, -⟩ := hticked.fds n fd hfd
    exact ⟨_, hb, b, rfl⟩
  · have hnone : bodyOn stream es = [] := by
      apply bodyOn_eq_nil
      intro e he
      have hmodule := hes e he
      cases e with
      | sendBody i stream fd body written fin => exact hmodule.elim
      | _ => rfl
    rw [hlog, bodyOn_append, hnone, List.append_nil]

/-- Every event that meets the condition keeps the invariant. -/
theorem Transferred.step {routes : List (Route Code)} {c c' : Conn} {e : ConnEvent Code}
    (hc : Transferred c) (hresumes : Resumes c e) (h : connStep routes c e = some c') :
    Transferred c' := by
  cases e with
  | headers streamId block io => exact hc.headers hresumes (connStep_headers h).2.2
  | writeTick i io =>
      obtain ⟨-, fw, hfw, -, hcases⟩ := connStep_writeTick h
      exact hc.tick hfw (hresumes fw hfw) hcases
  | moduleTick ev io =>
      obtain ⟨-, -, rfl⟩ := connStep_moduleTick h
      exact hc.moduleTick ev io
  | close =>
      obtain rfl := connStep_close h
      exact ⟨hc.writers, hc.distinct, hc.others, hc.unsent⟩

theorem Transferred.create (sock : ℤ) (cid : Bytes) : Transferred (Conn.create sock cid) := by
  refine ⟨by simp [Conn.create], by simp [Conn.create], fun _ _ => rfl, by simp [Conn.create]⟩

/-- In every run whose events meet the condition, the bytes accepted on the stream of each
response are the first `fw->pos` bytes of its source, and no more than announced for it. -/
theorem accepted_eq_take (routes : List (Route Code)) (sock : ℤ) (cid : Bytes)
    {es : List (ConnEvent Code)} {c : Conn}
    (hexec : (connMachine routes).exec (Conn.create sock cid) es = some c)
    (hresumes : (connMachine routes).Meets Resumes (Conn.create sock cid) es) :
    ∀ fw ∈ c.writers, ∃ fd, c.world.fds[fw.fd]? = some fd ∧
      bodyOn fw.streamId c.world.log = fd.content.take fw.pos.toNat ∧
      ((bodyOn fw.streamId c.world.log).length : ℤ) = fw.pos ∧ fw.pos ≤ max fw.len 0 := by
  have hinv : Transferred c := (connMachine routes).exec_invariant_of_meets (I := Transferred)
    (fun _ _ _ hc hcond hstep => hc.step hcond hstep) (Transferred.create sock cid) hresumes hexec
  intro fw hmem
  obtain ⟨i, hi⟩ := List.getElem?_of_mem hmem
  have hsent := hinv.writers i fw hi
  obtain ⟨fd, hfd, hle, htake⟩ := hsent.source
  refine ⟨fd, hfd, htake, ?_, hsent.announced⟩
  rw [htake, List.length_take, min_eq_left hle]
  exact Int.toNat_of_nonneg hsent.pos

/-- A file of six bytes, accepted two and four bytes at a time. -/
def resumedFile : List (ConnEvent Unit) :=
  [.headers 0 [(ascii ":path", ascii "/a")] (servesFile (ascii "abcdef")),
    .writeTick 0 ⟨[⟨3, 2⟩], ⟨[], true, 0⟩⟩, .writeTick 0 ⟨[⟨4, 4⟩], ⟨[], true, 0⟩⟩]

theorem accepted_eq_take_file : ∃ c,
    (connMachine []).exec (Conn.create 5 [1]) resumedFile = some c ∧
    ∀ fw ∈ c.writers, ∃ fd, c.world.fds[fw.fd]? = some fd ∧
      bodyOn fw.streamId c.world.log = fd.content.take fw.pos.toNat ∧
      ((bodyOn fw.streamId c.world.log).length : ℤ) = fw.pos ∧ fw.pos ≤ max fw.len 0 := by
  have hexec : (connMachine []).exec (Conn.create 5 [1]) resumedFile = some _ := rfl
  exact ⟨_, hexec, accepted_eq_take [] 5 [1] hexec (by decide)⟩

/-- The error page, with four of the first ten bytes accepted. -/
def resumedPipe : List (ConnEvent Unit) :=
  [.headers 0 [(ascii ":path", ascii "/a")] { servesFile [] with openFile := fun _ => none },
    .writeTick 0 ⟨[⟨10, 4⟩], ⟨[], true, 0⟩⟩, .writeTick 0 ⟨[⟨10, 4⟩], ⟨[], true, 0⟩⟩]

/-- The next four bytes come from behind the ten. -/
theorem accepted_ne_take_pipe : ∃ c,
    (connMachine []).exec (Conn.create 5 [1]) resumedPipe = some c ∧
    ¬ ∀ fw ∈ c.writers, ∃ fd, c.world.fds[fw.fd]? = some fd ∧
      bodyOn fw.streamId c.world.log = fd.content.take fw.pos.toNat ∧
      ((bodyOn fw.streamId c.world.log).length : ℤ) = fw.pos ∧ fw.pos ≤ max fw.len 0 := by
  have hexec : (connMachine []).exec (Conn.create 5 [1]) resumedPipe = some _ := rfl
  refine ⟨_, hexec, fun h => ?_⟩
  obtain ⟨fd, hfd, htake, -⟩ := h _ (List.mem_singleton.mpr rfl)
  obtain rfl := Option.some.inj hfd
  exact absurd htake (by decide)

end Gfhttpd.Http3
