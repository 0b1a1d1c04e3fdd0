import Gfhttpd.Http2.Callbacks

/-!
# What closing streams leaves alone

Unlinking and deleting streams, and the teardown of a session, change the links of the objects that
are left and nothing else of them (`Keeps`).
-/

namespace Gfhttpd.Http2

open Http

/-- The objects that are left have the requests and the event base they had, and nothing but
closes was logged. -/
structure Keeps (s s' : Session) : Prop where
  objs : ∀ p hs', s'.get p = some hs' → ∃ hs, s.get p = some hs ∧
    hs'.request = hs.request ∧ hs'.evbase = hs.evbase
  fields : s'.fields = s.fields
  log : ∀ e ∈ s'.world.log, e ∈ s.world.log ∨ ∃ fd, e = .close fd

theorem Keeps.refl (s : Session) : Keeps s s :=
  ⟨fun _ hs' h => ⟨hs', h, rfl, rfl⟩, rfl, fun _ h => Or.inl h⟩

theorem Keeps.trans {s s' s'' : Session} (h : Keeps s s') (h' : Keeps s' s'') : Keeps s s'' := by
  refine ⟨fun p hs'' hget => ?_, h'.fields.trans h.fields, fun e he => ?_⟩
  · obtain ⟨hs', hget', hreq', hbase'⟩ := h'.objs p hs'' hget
    obtain ⟨hs, hget, hreq, hbase⟩ := h.objs p hs' hget'
    exact ⟨hs, hget, hreq'.trans hreq, hbase'.trans hbase⟩
  · rcases h'.log e he with he | he
    · exact h.log e he
    · exact Or.inr he

/-- Storing an object with the request and the event base it had. -/
theorem keeps_put {s : Session} {p : ℕ} {hs hs' : HttpStream} (h : s.get p = some hs)
    (hreq : hs'.request = hs.request) (hbase : hs'.evbase = hs.evbase) : Keeps s (s.put p hs') := by
  refine ⟨fun q hq hget => ?_, rfl, fun _ he => Or.inl he⟩
  by_cases hpq : p = q
  · subst hpq
    rw [Session.get_put_self h] at hget
    obtain rfl := Option.some.inj hget
    exact ⟨hs, h, hreq, hbase⟩
  · rw [Session.get_put_of_ne hpq] at hget
    exact ⟨hq, hget, rfl, rfl⟩

theorem keeps_crash (s : Session) : Keeps s s.crash :=
  ⟨fun _ hs' h => ⟨hs', h, rfl, rfl⟩, rfl, fun _ h => Or.inl h⟩

theorem keeps_removeStream (s : Session) (p : ℕ) : Keeps s (removeStream s p) := by
  unfold removeStream
  split
  · exact keeps_crash s
  · next hs hget =>
      split
      · exact keeps_crash s
      · next q _ =>
          split
          · exact keeps_crash s
          · next prev hprev =>
              have hput : Keeps s (s.put q { prev with next := hs.next }) := keeps_put hprev rfl rfl
              simp only
              split
              · exact hput.trans (keeps_crash _)
              · next hs' _ =>
                  split
                  · exact hput
                  · next n _ =>
                      split
                      · exact hput.trans (keeps_crash _)
                      · next next hnext => exact hput.trans (keeps_put hnext rfl rfl)

theorem keeps_deleteHttpStream (s : Session) (p : ℕ) : Keeps s (deleteHttpStream s p) := by
  unfold deleteHttpStream
  split
  · exact keeps_crash s
  · next hs hget =>
      refine ⟨fun q hq hq' => ?_, rfl, fun e he => ?_⟩
      · refine ⟨hq, ?_, rfl, rfl⟩
        by_cases hpq : p = q
        · subst hpq
          have hnone : (s.objs.set p none)[p]? = some none :=
            List.getElem?_set_self (Session.get_lt hget)
          simp [Session.get, hnone] at hq'
        · simpa [Session.get, List.getElem?_set, hpq] using hq'
      · simp only at he
        split at he
        · simp only [World.closeFd, World.log_emit, List.mem_append, List.mem_singleton] at he
          rcases he with he | rfl
          · exact Or.inl he
          · exact Or.inr ⟨_, rfl⟩
        · exact Or.inl he

theorem keeps_deleteStreams (fuel : ℕ) (s : Session) (p : Option ℕ) :
    Keeps s (deleteStreams fuel s p) := by
  -- on the fuel: each round deletes one object and goes on with its `next`
  induction fuel generalizing s p with
  | zero => exact Keeps.refl s
  | succ fuel ih =>
      cases p with
      | none => exact Keeps.refl s
      | some p =>
          simp only [deleteStreams]
          split
          · exact keeps_crash s
          · exact (keeps_deleteHttpStream s p).trans (ih _ _)

theorem keeps_onStreamCloseCallback (s : Session) (streamId : ℤ) :
    Keeps s (onStreamCloseCallback s streamId) := by
  unfold onStreamCloseCallback
  split
  · exact Keeps.refl s
  · next p _ =>
      have hremove := keeps_removeStream s p
      simp only
      split
      · exact hremove
      · have hdelete := hremove.trans (keeps_deleteHttpStream (removeStream s p) p)
        exact ⟨hdelete.objs, hdelete.fields, hdelete.log⟩

theorem keeps_deleteHttp2SessionData (s : Session) : Keeps s (deleteHttp2SessionData s) := by
  unfold deleteHttp2SessionData
  split
  · exact keeps_crash s
  · next root _ =>
      have hdelete := keeps_deleteStreams s.objs.length s root.next
      exact ⟨hdelete.objs, hdelete.fields, hdelete.log⟩

end Gfhttpd.Http2
