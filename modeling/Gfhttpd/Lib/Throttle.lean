import Gfhttpd.Lib.Loop
import Mathlib.Data.List.Basic
import Mathlib.Tactic.Common

/-!
# Sending into a buffer with a limit

A source offers blocks, one at a time.  A sender writes them to a buffer, and the write is refused
as soon as the buffer has reached a limit; the source then holds the block for the next time.

- `Source`: what is offered in a state, and how the source goes on
- `Limited`: a write that is refused from a limit on
- `Source.send`: the loop of a sender
- `Source.send_sent`: it ends for every source, with what it has sent and why it ended
- `Source.Yields`: the blocks that come out of a source when all of them are taken
- `Source.Drains.send`: with an empty buffer, a sender gets on
-/

namespace Throttle

open Loop

variable {σ α ε : Type*}

/-! ## Sources -/

/-- What is offered.  A block comes with the state in which it is held, and the one in which it was
taken. -/
inductive Offer (σ α ε : Type*) where
  | nothing (rest : σ)
  | fails (error : ε) (rest : σ)
  | block (bytes : List α) (hne : bytes ≠ []) (held taken : σ)

/-- A source of blocks.  What was not taken is offered again. -/
structure Source (σ α ε : Type*) where
  offer : σ → Offer σ α ε
  nothing_again : ∀ {s r}, offer s = .nothing r → offer r = .nothing r
  held_again : ∀ {s b hne h t}, offer s = .block b hne h t → offer h = .block b hne h t

namespace Source

variable (S : Source σ α ε)

/-- The source gives these blocks, all of which are taken, and is then in the last state. -/
inductive Yields : σ → List (List α) → σ → Prop
  | nil (s : σ) : Yields s [] s
  | cons {s h t u : σ} {b : List α} {hne : b ≠ []} {bs : List (List α)}
      (hoffer : S.offer s = .block b hne h t) (hrest : Yields t bs u) : Yields s (b :: bs) u

variable {S}

theorem Yields.append {s t u : σ} {bs cs : List (List α)} (hbs : S.Yields s bs t)
    (hcs : S.Yields t cs u) : S.Yields s (bs ++ cs) u := by
  induction hbs with
  | nil s => exact hcs
  | cons hoffer _ ih => exact .cons hoffer (ih hcs)

theorem Yields.snoc {s t h u : σ} {bs : List (List α)} {b : List α} {hne : b ≠ []}
    (hbs : S.Yields s bs t) (hoffer : S.offer t = .block b hne h u) : S.Yields s (bs ++ [b]) u :=
  hbs.append (.cons hoffer (.nil u))

/-- A block that is held comes out first. -/
theorem Yields.of_held {s h t u : σ} {b : List α} {hne : b ≠ []} {bs : List (List α)}
    (hoffer : S.offer s = .block b hne h t) (hbs : S.Yields s bs u) (hsome : bs ≠ []) :
    S.Yields h bs u := by
  cases hbs with
  | nil => exact absurd rfl hsome
  | cons hoffer' hrest =>
      obtain ⟨rfl, rfl, rfl⟩ : _ ∧ _ ∧ _ := by
        simpa [hoffer] using hoffer'
      exact .cons (S.held_again hoffer) hrest

end Source

/-! ## Sending -/

/-- A write appends to the buffer, and is refused when that has reached the limit. -/
def Limited (limit : ℕ) (write : List α → List α → Option (List α)) : Prop :=
  ∀ buffer block, write buffer block =
    if limit ≤ buffer.length then none else some (buffer ++ block)

/-- A sender: its source, its buffer, the blocks it has taken, and how it has ended. -/
structure Sender (σ α ε : Type*) where
  source : σ
  buffer : List α
  taken : List (List α)
  ended : Option (Except ε Unit)

namespace Source

variable (S : Source σ α ε) (write : List α → List α → Option (List α)) (limit : ℕ)

/-- One round: the block that is offered is written, or held. -/
def round (s : Sender σ α ε) : Sender σ α ε :=
  match S.offer s.source with
  | .nothing r => { s with source := r, ended := some (.ok ()) }
  | .fails e r => { s with source := r, ended := some (.error e) }
  | .block b _ held taken =>
      match write s.buffer b with
      | none => { s with source := held, ended := some (.ok ()) }
      | some buffer => { s with source := taken, buffer := buffer, taken := s.taken ++ [b] }

/-- The loop of a sender. -/
def loop : While (Sender σ α ε) where
  goesOn s := s.ended.isNone
  body s := some (S.round write s)

/-- The whole loop.  Every round but the last makes the buffer longer, so there are not more of them
than there is room below the limit. -/
def send (s : Sender σ α ε) : Sender σ α ε :=
  ((S.loop write).run (limit - s.buffer.length + 2) s).getD s

variable {S write limit}

/-- Why a sender has ended, when all that its source gave before `mid` was taken. -/
inductive Ended (S : Source σ α ε) (limit : ℕ) (mid : σ) (t : Sender σ α ε) : Prop
  | dry (hoffer : S.offer mid = .nothing t.source) (hok : t.ended = some (.ok ()))
  | failed {e : ε} (hoffer : S.offer mid = .fails e t.source) (herr : t.ended = some (.error e))
  | full {b : List α} {hne : b ≠ []} {u : σ} (hoffer : S.offer mid = .block b hne t.source u)
      (hfull : limit ≤ t.buffer.length) (hok : t.ended = some (.ok ()))

/-- From `s` to `t`, these blocks were taken, up to the state `mid` of the source. -/
structure Sent (S : Source σ α ε) (limit : ℕ) (s : Sender σ α ε) (blocks : List (List α)) (mid : σ)
    (t : Sender σ α ε) : Prop where
  yields : S.Yields s.source blocks mid
  taken : t.taken = s.taken ++ blocks
  buffer : t.buffer = s.buffer ++ blocks.flatten
  /-- every block was taken below the limit -/
  room : ∀ pre b post, blocks = pre ++ b :: post → (s.buffer ++ pre.flatten).length < limit

theorem Sent.refl (s : Sender σ α ε) : S.Sent limit s [] s.source s where
  yields := .nil s.source
  taken := (List.append_nil _).symm
  buffer := (List.append_nil _).symm
  room pre b post h := by simp at h

/-- One more block, while the buffer is below the limit. -/
theorem Sent.snoc {s t : Sender σ α ε} {blocks : List (List α)} {b : List α} {hne : b ≠ []}
    {h u : σ} (hsent : S.Sent limit s blocks t.source t)
    (hoffer : S.offer t.source = .block b hne h u) (hroom : t.buffer.length < limit) :
    S.Sent limit s (blocks ++ [b]) u
      { t with source := u, buffer := t.buffer ++ b, taken := t.taken ++ [b] } where
  yields := hsent.yields.snoc hoffer
  taken := by simp [hsent.taken]
  buffer := by simp [hsent.buffer]
  room pre b' post h := by
    -- it is the new block, or an earlier one
    rcases List.eq_nil_or_concat post with rfl | ⟨post, last, rfl⟩
    · obtain ⟨rfl, -⟩ := List.append_inj' h rfl
      rwa [← hsent.buffer]
    · rw [List.concat_eq_append, ← List.cons_append, ← List.append_assoc] at h
      exact hsent.room pre b' post (List.append_inj' h rfl).1

/-- What a round does to a sender that goes on. -/
theorem round_sent (hwrite : Limited limit write) {s t : Sender σ α ε} {blocks : List (List α)}
    (hgo : t.ended = none) (hsent : S.Sent limit s blocks t.source t) :
    (∃ b, S.Sent limit s (blocks ++ [b]) (S.round write t).source (S.round write t) ∧
      (S.round write t).ended = none ∧ t.buffer.length < limit ∧
      t.buffer.length < (S.round write t).buffer.length) ∨
    (S.Sent limit s blocks t.source (S.round write t) ∧
      S.Ended limit t.source (S.round write t)) := by
  unfold round
  split
  · next r hoffer =>
      exact Or.inr ⟨⟨hsent.yields, hsent.taken, hsent.buffer, hsent.room⟩, .dry hoffer rfl⟩
  · next e r hoffer =>
      exact Or.inr ⟨⟨hsent.yields, hsent.taken, hsent.buffer, hsent.room⟩, .failed hoffer rfl⟩
  · next b hne h u hoffer =>
      by_cases hfull : limit ≤ t.buffer.length
      · rw [hwrite, if_pos hfull]
        exact Or.inr
          ⟨⟨hsent.yields, hsent.taken, hsent.buffer, hsent.room⟩, .full hoffer hfull rfl⟩
      · rw [hwrite, if_neg hfull]
        have hroom : t.buffer.length < limit := Nat.lt_of_not_le hfull
        refine Or.inl ⟨b, hsent.snoc hoffer hroom, hgo, hroom, ?_⟩
        simpa using List.length_pos_iff.mpr hne

variable (S)

/-- The loop ends, whatever the source offers: after one round more than there is room, at most. -/
theorem send_sent (hwrite : Limited limit write) {s : Sender σ α ε} (hgo : s.ended = none) :
    ∃ begins blocks mid, (S.loop write).Ends s begins (some (S.send write limit s)) ∧
      begins.length ≤ limit - s.buffer.length + 1 ∧
      S.Sent limit s blocks mid (S.send write limit s) ∧
      S.Ended limit mid (S.send write limit s) := by
  let I (t : Sender σ α ε) : Prop := ∃ blocks mid, S.Sent limit s blocks mid t ∧
    (t.ended = none ∧ mid = t.source ∨ t.ended ≠ none ∧ S.Ended limit mid t)
  let μ (t : Sender σ α ε) : ℕ := if t.ended = none then limit - t.buffer.length + 1 else 0
  have hround : ∀ t, I t → (S.loop write).goesOn t = true →
      ∃ u, (S.loop write).body t = some u ∧ I u ∧ μ u < μ t := by
    rintro t ⟨blocks, mid, hsent, hstate⟩ hgoes
    have hnone : t.ended = none := Option.isNone_iff_eq_none.mp hgoes
    obtain ⟨-, rfl⟩ : t.ended = none ∧ mid = t.source := by
      rcases hstate with h | h
      · exact h
      · exact absurd hnone h.1
    refine ⟨S.round write t, rfl, ?_⟩
    rcases round_sent hwrite hnone hsent with ⟨b, hmore, hgo', hroom, hgrows⟩ | ⟨hsame, hend⟩
    · refine ⟨⟨_, _, hmore, Or.inl ⟨hgo', rfl⟩⟩, ?_⟩
      simp only [μ, hgo', hnone, if_true]
      omega
    · have hended : (S.round write t).ended ≠ none := by
        cases hend with
        | dry _ hok => simp [hok]
        | failed _ herr => simp [herr]
        | full _ _ hok => simp [hok]
      refine ⟨⟨blocks, t.source, hsame, Or.inr ⟨hended, hend⟩⟩, ?_⟩
      simp only [μ, hended, hnone, if_true, if_false]
      omega
  have hstart : I s := ⟨[], s.source, Sent.refl s, Or.inl ⟨hgo, rfl⟩⟩
  obtain ⟨begins, t, hends, hlen, ⟨blocks, mid, hsent, hstate⟩, hstop⟩ :=
    While.exists_ends hround hstart
  have hlen' : begins.length ≤ limit - s.buffer.length + 1 := by simpa only [μ, hgo, if_true] using hlen
  -- so the bound on the rounds is large enough
  have hsend : S.send write limit s = t := by
    unfold send
    rw [hends.run_eq (Nat.lt_succ_of_le hlen'), Option.getD_some]
  have hended : t.ended ≠ none := fun h => by simp [loop, h] at hstop
  rcases hstate with h | h
  · exact absurd h.1 hended
  · exact ⟨begins, blocks, mid, hsend ▸ hends, hlen', hsend ▸ hsent, hsend ▸ h.2⟩

/-! ## Draining -/

/-- The source gives these blocks when all of them are taken, and then has nothing to offer. -/
def Drains (S : Source σ α ε) (s : σ) (blocks : List (List α)) : Prop :=
  ∃ u r, S.Yields s blocks u ∧ S.offer u = .nothing r

variable {S}

/-- Blocks that were taken are the first ones of all that the source gives. -/
theorem Yields.drains {s mid : σ} {now blocks : List (List α)} (hnow : S.Yields s now mid)
    (hall : S.Drains s blocks) : ∃ later, blocks = now ++ later ∧ S.Drains mid later := by
  induction hnow generalizing blocks with
  | nil s => exact ⟨blocks, rfl, hall⟩
  | @cons s h t mid b hne now hoffer _ ih =>
      obtain ⟨u, r, hyields, hdry⟩ := hall
      cases hyields with
      | nil => simp [hdry] at hoffer
      | cons hoffer' hrest =>
          obtain ⟨rfl, rfl, rfl⟩ : _ ∧ _ ∧ _ := by
            simpa [hoffer] using hoffer'
          obtain ⟨later, rfl, hlater⟩ := ih ⟨u, r, hrest, hdry⟩
          exact ⟨later, rfl, hlater⟩

/-- With an empty buffer, a sender takes at least one block, if there is one. -/
theorem Drains.send (hwrite : Limited limit write) {s : Sender σ α ε} {blocks : List (List α)}
    (hall : S.Drains s.source blocks) (hlimit : 0 < limit) (hgo : s.ended = none) (hempty : s.buffer = []) :
    ∃ now later, blocks = now ++ later ∧ (blocks ≠ [] → now ≠ []) ∧
      (S.send write limit s).taken = s.taken ++ now ∧ (S.send write limit s).buffer = now.flatten ∧
      (S.send write limit s).ended = some (.ok ()) ∧ S.Drains (S.send write limit s).source later := by
  obtain ⟨-, now, mid, -, -, hsent, hend⟩ := S.send_sent hwrite hgo
  obtain ⟨later, rfl, hlater⟩ := hsent.yields.drains hall
  have hbuffer : (S.send write limit s).buffer = now.flatten := by rw [hsent.buffer, hempty, List.nil_append]
  refine ⟨now, later, rfl, ?_, hsent.taken, hbuffer, ?_⟩
  · -- a full buffer is not empty, and a source that is dry has given everything
    rintro hsome rfl
    obtain ⟨u, r, hyields, hdry⟩ := hlater
    cases hyields with
    | nil => exact hsome rfl
    | cons hoffer _ =>
        cases hend with
        | dry hoffer' _ => simp [hoffer] at hoffer'
        | failed hoffer' _ => simp [hoffer] at hoffer'
        | full _ hfull _ =>
            rw [hbuffer] at hfull
            exact absurd hfull (Nat.not_le_of_lt hlimit)
  · -- a source that comes to its end has not failed on the way
    obtain ⟨u, r, hyields, hdry⟩ := hlater
    cases hend with
    | dry hoffer hok =>
        refine ⟨hok, (S.send write limit s).source, _, ?_, S.nothing_again hoffer⟩
        cases hyields with
        | nil => exact .nil _
        | cons hoffer' _ => simp [hoffer] at hoffer'
    | failed hoffer _ =>
        cases hyields with
        | nil => simp [hdry] at hoffer
        | cons hoffer' _ => simp [hoffer] at hoffer'
    | full hoffer _ hok =>
        refine ⟨hok, u, r, hyields.of_held hoffer ?_, hdry⟩
        rintro rfl
        cases hyields with
        | nil => simp [hdry] at hoffer

end Source

end Throttle
