import Gfhttpd.Http2.Callbacks
import Gfhttpd.Lib.Store
import Gfhttpd.Lib.Transition

/-!
# The stream list over every run

The events are the callbacks of `nghttp2` that create and close streams, and the teardown of
the session.  `ListInv` says what the list is for: it links the streams that were created and
not closed, unlinking one leaves the others, and teardown deletes each of them once.

No function of the source ever links a stream, so the invariant holds exactly as long as no
stream was created (`listInv_iff`).
-/

namespace Gfhttpd.Http2

open Http Store Transition

/-! ## The events -/

/-- The events of a session. -/
inductive ListEvent where
  | beginHeaders (frame : Frame)
  | streamClose (streamId : ℤ)
  | teardown
deriving DecidableEq

/-- One event.  There is none after the teardown or a crash. -/
def listStep (s : Session) : ListEvent → Option Session
  | .beginHeaders frame =>
      if s.crashed || s.tornDown then none else some (onBeginHeadersCallback s frame)
  | .streamClose streamId =>
      if s.crashed || s.tornDown then none else some (onStreamCloseCallback s streamId)
  | .teardown =>
      if s.crashed || s.tornDown then none else some (deleteHttp2SessionData s)

def listMachine : Machine Session ListEvent := ⟨listStep⟩

/-! ## The list invariant -/

namespace Session

/-- The streams created and not yet closed. -/
def live (s : Session) : List ℕ :=
  s.created.filter fun p => p ∉ s.deleted

/-- `p->next`. -/
def nextOf (s : Session) (p : Option ℕ) : Option ℕ :=
  (p.bind s.get).bind HttpStream.next

/-- `p->prev`. -/
def prevOf (s : Session) (p : Option ℕ) : Option ℕ :=
  (p.bind s.get).bind HttpStream.prev

/-- The streams reachable by `next` from the root are those of the list. -/
def Chain (s : Session) (l : List ℕ) : Prop :=
  Path s.nextOf none (s.nextOf (some 0)) (l.map some)

end Session

/-- What the stream list is for. -/
structure ListInv (s : Session) : Prop where
  /-- no callback went through `NULL` or to a freed object -/
  sound : s.crashed = false
  /-- the list holds the live streams -/
  linked : s.tornDown = false → ∃ l, s.Chain l ∧ l.Perm s.live
  /-- `prev` is the inverse of `next` -/
  inverse : s.tornDown = false → ∀ p ∈ 0 :: s.live, ∀ q ∈ 0 :: s.live,
    (s.nextOf (some p) = some q ↔ s.prevOf (some q) = some p)
  /-- unlinking a live stream unlinks exactly that stream -/
  unlink : s.tornDown = false → ∀ p ∈ s.live,
    (removeStream s p).crashed = false ∧ ∀ l, s.Chain l → (removeStream s p).Chain (l.erase p)
  /-- teardown deletes each remaining stream once -/
  teardown : s.tornDown = false → ∀ p ∈ s.live, (deleteHttp2SessionData s).deleted.count p = 1
  /-- after the teardown every stream was deleted once -/
  ledger : s.tornDown = true → ∀ p ∈ s.created, s.deleted.count p = 1

/-- The event creates a stream. -/
def ListEvent.creates : ListEvent → Bool
  | .beginHeaders frame => frame.type == .headers && frame.request
  | .streamClose _ => false
  | .teardown => false

/-! ## What the steps do -/

/-- Nothing links an object, and nothing is deleted. -/
structure Unlinked (s : Session) : Prop where
  root : (s.get 0).isSome
  links : ∀ p hs, s.get p = some hs → hs.next = none ∧ hs.prev = none
  userData : s.created = [] → s.userData = []
  deleted : s.deleted = []
  sound : s.created = [] → s.crashed = false

theorem Unlinked.init : Unlinked Session.init := by
  refine ⟨rfl, ?_, fun _ => rfl, rfl, fun _ => rfl⟩
  intro p hs h
  obtain rfl := Session.eq_zero_of_get_init h
  exact ⟨rfl, rfl⟩

section Unlinked

variable {s : Session}

theorem Unlinked.nextOf (hs : Unlinked s) (p : Option ℕ) : s.nextOf p = none := by
  cases p with
  | none => rfl
  | some p =>
      cases hget : s.get p with
      | none => simp [Session.nextOf, hget]
      | some obj => simp [Session.nextOf, hget, (hs.links p obj hget).1]

theorem Unlinked.prevOf (hs : Unlinked s) (p : Option ℕ) : s.prevOf p = none := by
  cases p with
  | none => rfl
  | some p =>
      cases hget : s.get p with
      | none => simp [Session.prevOf, hget]
      | some obj => simp [Session.prevOf, hget, (hs.links p obj hget).2]

/-- `remove_stream` goes through the `NULL` in `prev`. -/
theorem Unlinked.removeStream (hs : Unlinked s) (p : ℕ) : removeStream s p = s.crash := by
  cases hget : s.get p with
  | none => simp [Http2.removeStream, hget]
  | some obj => simp [Http2.removeStream, hget, (hs.links p obj hget).2]

/-- The teardown finds no `next` at the root. -/
theorem Unlinked.deleteHttp2SessionData (hs : Unlinked s) :
    deleteHttp2SessionData s = { s with tornDown := true, aborted := !s.crashed } := by
  obtain ⟨root, hroot⟩ := Option.isSome_iff_exists.mp hs.root
  have hnext := (hs.links 0 root hroot).1
  simp only [Http2.deleteHttp2SessionData, hroot, hnext]
  cases s.objs.length <;> rfl

theorem Unlinked.live (hs : Unlinked s) : s.live = s.created := by
  simp [Session.live, hs.deleted]

/-- A new object has no links either. -/
theorem Unlinked.createHttpStream (hs : Unlinked s) (streamId : ℤ) :
    Unlinked ((createHttpStream s streamId).2.setUserData streamId
      (createHttpStream s streamId).1) := by
  refine ⟨?_, ?_, by simp [Http2.createHttpStream, addStream, Session.setUserData,
    Session.dropUserData], hs.deleted, by simp [Http2.createHttpStream, addStream,
    Session.setUserData, Session.dropUserData]⟩
  · obtain ⟨root, hroot⟩ := Option.isSome_iff_exists.mp hs.root
    have hlt : 0 < s.objs.length := by
      by_contra hzero
      have hnil : s.objs = [] := List.length_eq_zero_iff.mp (by omega)
      simp [Session.get, hnil] at hroot
    show ((s.objs ++ [_])[0]?).join.isSome
    rw [List.getElem?_append_left hlt]
    exact hs.root
  · intro p obj hobj
    rcases get_createHttpStream (show (Http2.createHttpStream s streamId).2.get p = some obj from
      hobj) with hold | rfl
    · exact hs.links p obj hold
    · exact ⟨rfl, rfl⟩

end Unlinked

/-- A step that is enabled creates a stream or leaves the list of created streams alone, and
nothing gets linked. -/
theorem listStep_spec {s s' : Session} {e : ListEvent} (hs : Unlinked s)
    (h : listStep s e = some s') :
    Unlinked s' ∧ (s'.created = [] ↔ s.created = [] ∧ e.creates = false) := by
  cases e with
  | beginHeaders frame =>
      simp only [listStep, Option.ite_none_left_eq_some, Option.some.injEq] at h
      obtain ⟨-, rfl⟩ := h
      by_cases hframe : frame.type ≠ .headers ∨ frame.request = false
      · rw [onBeginHeadersCallback, if_pos hframe]
        refine ⟨hs, ?_⟩
        have hcreates : (ListEvent.beginHeaders frame).creates = false := by
          rcases hframe with htype | hreq
          · simp [ListEvent.creates, htype]
          · simp [ListEvent.creates, hreq]
        simp [hcreates]
      · rw [onBeginHeadersCallback, if_neg hframe]
        rw [not_or, not_not, Bool.not_eq_false] at hframe
        refine ⟨hs.createHttpStream frame.streamId, ?_⟩
        simp [ListEvent.creates, hframe, createHttpStream, addStream, Session.setUserData,
          Session.dropUserData]
  | streamClose streamId =>
      simp only [listStep, Option.ite_none_left_eq_some, Option.some.injEq] at h
      obtain ⟨-, rfl⟩ := h
      cases hdata : s.getUserData streamId with
      | none =>
          simp only [onStreamCloseCallback, hdata]
          exact ⟨hs, by simp [ListEvent.creates]⟩
      | some p =>
          -- the stream was created, but has no links to be unlinked by
          have hne : s.created ≠ [] := by
            intro hnil
            simp [Session.getUserData, hs.userData hnil] at hdata
          simp only [onStreamCloseCallback, hdata, hs.removeStream]
          rw [if_pos (by rfl)]
          exact ⟨⟨hs.root, hs.links, hs.userData, hs.deleted, fun hnil => absurd hnil hne⟩,
            by simp [ListEvent.creates, Session.crash]⟩
  | teardown =>
      simp only [listStep, Option.ite_none_left_eq_some, Option.some.injEq] at h
      obtain ⟨-, rfl⟩ := h
      rw [hs.deleteHttp2SessionData]
      exact ⟨⟨hs.root, hs.links, hs.userData, hs.deleted, hs.sound⟩, by simp [ListEvent.creates]⟩

/-- While nothing is linked, the list is right exactly if there is no stream. -/
theorem Unlinked.listInv_iff_created {s : Session} (hs : Unlinked s) : ListInv s ↔ s.created = [] := by
  constructor
  · intro hinv
    cases htorn : s.tornDown with
    | false =>
        -- the root has no next object, so the chain is empty
        obtain ⟨l, hchain, hperm⟩ := hinv.linked htorn
        rw [Session.Chain, hs.nextOf] at hchain
        have hnil : l = [] := by simpa using hchain.eq_nil
        rw [hnil, hs.live] at hperm
        exact hperm.symm.eq_nil
    | true =>
        refine List.eq_nil_iff_forall_not_mem.mpr fun p hp => ?_
        -- a created stream would have been deleted once, and nothing was
        have hone := hinv.ledger htorn p hp
        rw [hs.deleted] at hone
        simp at hone
  · intro hnil
    have hlive : s.live = [] := by rw [hs.live, hnil]
    refine ⟨hs.sound hnil, ?_, ?_, ?_, ?_, ?_⟩
    · intro _
      exact ⟨[], hs.nextOf _, by rw [hlive]⟩
    · intro _ p _ q _
      simp [hs.nextOf, hs.prevOf]
    · intro _ p hp
      simp [hlive] at hp
    · intro _ p hp
      simp [hlive] at hp
    · intro _ p hp
      simp [hnil] at hp

/-- A run keeps the stream list right exactly if it creates no stream. -/
theorem listInv_iff {es : List ListEvent} {s : Session}
    (hexec : listMachine.exec Session.init es = some s) :
    ListInv s ↔ listMachine.Meets (fun _ e => e.creates = false) Session.init es := by
  have hiff := listMachine.exec_iff_meets (I := Unlinked) (P := fun s => s.created = [])
    (C := fun _ e => e.creates = false) (fun s e s' hs h => (listStep_spec hs h).1)
    (fun s e s' hs h => (listStep_spec hs h).2) Unlinked.init hexec
  have hinv : Unlinked s := listMachine.exec_invariant (I := Unlinked)
    (fun s e s' hs h => (listStep_spec hs h).1) Unlinked.init hexec
  rw [hinv.listInv_iff_created, hiff]
  simp [Session.init]

/-- A frame that starts a request on a stream. -/
def requestFrame (streamId : ℤ) : Frame := ⟨.headers, true, true, streamId⟩

/-- A run without a request, with a stream that is not a request and a teardown. -/
theorem listInv_pushed : ∃ s, listMachine.exec Session.init
    [.beginHeaders ⟨.headers, false, false, 2⟩, .streamClose 2, .teardown] = some s ∧ ListInv s := by
  have hexec : listMachine.exec Session.init
      [.beginHeaders ⟨.headers, false, false, 2⟩, .streamClose 2, .teardown] = some _ := rfl
  refine ⟨_, hexec, (listInv_iff hexec).mpr ?_⟩
  simp [Machine.Meets, ListEvent.creates]

/-- Closing the only stream of a session goes through `NULL`. -/
theorem listInv_fails : ∃ s, listMachine.exec Session.init
    [.beginHeaders (requestFrame 1), .streamClose 1] = some s ∧ s.crashed = true ∧ ¬ ListInv s := by
  refine ⟨_, rfl, rfl, fun hinv => ?_⟩
  exact absurd hinv.sound (by decide)

end Gfhttpd.Http2
