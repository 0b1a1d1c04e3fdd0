import Gfhttpd.Basic.Bytes
import Gfhttpd.Lib.Segments
import Gfhttpd.Lib.Transition
import Mathlib.Algebra.GroupWithZero.Nat

/-!
# The log (`main/log/log.c`)

Before `init_log` a line goes to the standard output at once.  Afterwards it goes into a pipe that
does not block, in three pieces, and the event loop prints what it reads from the other end.

- `logLog`, `writeLogCb`, `initLog`, `destroyLog`: the functions of the source
- `Whole`: the events in which nothing is lost
- `logged_whole_iff`: what is printed, or still in the pipe, against the lines that were logged
- `log_readable_iff`: when the lines of the output are those lines
-/

namespace Gfhttpd.Logging

open Segments Transition

/-! ## The functions -/

/-- `LOG_TRACE` to `LOG_FATAL`. -/
inductive Level where
  | trace
  | debug
  | info
  | warn
  | error
  | fatal
deriving DecidableEq, Repr

/-- The value of the constant. -/
def Level.toInt : Level → ℤ
  | .trace => 0
  | .debug => 1
  | .info => 2
  | .warn => 3
  | .error => 4
  | .fatal => 5

/-- `level_names`. -/
def levelName : Level → Bytes
  | .trace => ascii "TRACE"
  | .debug => ascii "DEBUG"
  | .info => ascii "INFO"
  | .warn => ascii "WARN"
  | .error => ascii "ERROR"
  | .fatal => ascii "FATAL"

/-- `LOG_SIZE`. -/
def LOG_SIZE : ℕ := 1024

/-- `struct log`. -/
structure Log where
  level : ℤ
  /-- `fds_pipe` is set -/
  piped : Bool
  /-- what is in the pipe, from `pipe` to `destroy_log` -/
  pipe : Option Bytes
  /-- `evpipe` is set -/
  evpipe : Bool
  /-- and was added to the event base -/
  watched : Bool
deriving DecidableEq, Repr

/-- `lplog`, the standard output, and a record of each line that was logged, without its end. -/
structure Logger where
  lplog : Option Log
  stdout : Bytes
  logged : List Bytes
deriving DecidableEq, Repr

/-- The program at its start. -/
def Logger.init : Logger := ⟨none, [], []⟩

/-- What `"%s %-5s %s: "` prints. -/
def linePrefix (time : Bytes) (level : Level) (at_ : Bytes) : Bytes :=
  let name := levelName level
  time ++ [32] ++ (name ++ List.replicate (5 - name.length) 32) ++ [32] ++ at_ ++ [58, 32]

/-- How much of each piece of a line `dprintf` gets into the pipe. -/
structure Taken where
  before : ℕ
  msg : ℕ
  newline : ℕ
deriving DecidableEq, Repr

/-- `log_log` at the time `time`.  `msg` is what `fmt` and its arguments make. -/
def logLog (s : Logger) (time : Bytes) (level : Level) (at_ msg : Bytes) (taken : Taken) : Logger :=
  match s.lplog with
  | none => { s with stdout := s.stdout ++ msg ++ [10], logged := s.logged ++ [msg] }
  | some log =>
      if level.toInt < log.level then s
      else
        let before := linePrefix time level at_
        { s with
          lplog := some
            { log with
              pipe := log.pipe.map fun pipe =>
                pipe ++ before.take taken.before ++ msg.take taken.msg ++
                  [(10 : UInt8)].take taken.newline }
          logged := s.logged ++ [before ++ msg] }

/-- `default_log_func`: `"%.*s"` ends at a NUL, too. -/
def defaultLogFunc (buf : Bytes) : Bytes :=
  cstr buf

/-- The loop of `write_log_cb`, with how much each `read` returns before one has nothing: what is left
in the pipe, and the standard output. -/
def writeLogCbLoop : List ℕ → Bytes → Bytes → Bytes × Bytes
  | [], pipe, stdout => (pipe, stdout)
  | n :: reads, pipe, stdout =>
      writeLogCbLoop reads (pipe.drop n) (stdout ++ defaultLogFunc (pipe.take n))

/-- `write_log_cb`. -/
def writeLogCb (s : Logger) (reads : List ℕ) : Logger :=
  match s.lplog with
  | none => s
  | some log =>
      match log.pipe with
      | none => s
      | some pipe =>
          match writeLogCbLoop reads pipe s.stdout with
          | (pipe, stdout) => { s with lplog := some { log with pipe := some pipe }, stdout := stdout }

/-- What the calls of `init_log` answer: the two of `fcntl` are for the ends of the pipe. -/
structure InitIO where
  pipe : Bool
  fcntlRead : Bool
  fcntlWrite : Bool
  eventNew : Bool
  eventAdd : Bool
deriving DecidableEq, Repr

/-- `init_log`: what it returns, unless its assertion fails.  What it has set stays set in any case. -/
def initLog (s : Logger) (level : ℤ) (io : InitIO) : Option ℤ × Logger :=
  let log : Log := ⟨level, false, none, false, false⟩
  if !io.pipe then (some (-1), { s with lplog := some log })
  else
    let log := { log with piped := true, pipe := some [] }
    if !io.fcntlRead || !io.fcntlWrite then (some (-1), { s with lplog := some log })
    else if !io.eventNew then (none, { s with lplog := some log })
    else
      let log := { log with evpipe := true }
      if !io.eventAdd then (some (-1), { s with lplog := some log })
      else (some 0, { s with lplog := some { log with watched := true } })

/-- `destroy_log`.  It leaves `lplog` as it is. -/
def destroyLog (s : Logger) : Logger :=
  { s with
    lplog := s.lplog.map fun log => { log with pipe := none, evpipe := false, watched := false } }

/-! ## Runs -/

/-- The calls, with what the system does in them. -/
inductive LogEvent where
  | init (level : ℤ) (io : InitIO)
  | log (time : Bytes) (level : Level) (at_ msg : Bytes) (taken : Taken)
  | readable (reads : List ℕ)
  | destroy
deriving DecidableEq, Repr

/-- What is in the pipe. -/
def Logger.unread (s : Logger) : Bytes :=
  (s.lplog.bind Log.pipe).getD []

/-- Reads that a pipe with this much in it can give. -/
def readsFit : List ℕ → ℕ → Bool
  | [], _ => true
  | n :: reads, length => decide (0 < n ∧ n ≤ LOG_SIZE ∧ n ≤ length) && readsFit reads (length - n)

/-- One call.  There is one log, as in `run`. -/
def logStep (s : Logger) : LogEvent → Option Logger
  | .init level io =>
      if s.lplog.isSome then none
      else
        match initLog s level io with
        | (none, _) => none
        | (some _, s) => some s
  | .log time level at_ msg taken =>
      -- without a pipe there is no descriptor to write to
      if s.lplog.any fun log => !log.piped then none
      else some (logLog s time level at_ msg taken)
  | .readable reads =>
      if s.lplog.any Log.watched && readsFit reads s.unread.length then some (writeLogCb s reads)
      else none
  | .destroy => if s.lplog.any Log.evpipe then some (destroyLog s) else none

/-- The runs of the log. -/
def logMachine : Machine Logger LogEvent := ⟨logStep⟩

/-! ## What is kept -/

/-- What is printed, or will be. -/
def Logger.kept (s : Logger) : Bytes :=
  s.stdout ++ s.unread

/-- The lines that were logged. -/
def Logger.expected (s : Logger) : Bytes :=
  terminated 10 s.logged

/-- Nothing is lost in this event: the pipe takes all three pieces of the line, or there is no `NUL` in
what is read, or nothing is left in the pipe when it is closed. -/
def Whole (s : Logger) : LogEvent → Prop
  | .init _ _ => True
  | .log time level at_ msg taken =>
      match s.lplog with
      | none => True
      | some log =>
          level.toInt < log.level ∨
            (log.pipe.isSome ∧ (linePrefix time level at_).length ≤ taken.before ∧
              msg.length ≤ taken.msg ∧ 1 ≤ taken.newline)
  | .readable reads => 0 ∉ s.unread.take reads.sum
  | .destroy => s.unread = []

instance (s : Logger) (e : LogEvent) : Decidable (Whole s e) :=
  match e with
  | .init _ _ => .isTrue trivial
  | .log _ level _ _ _ =>
      match h : s.lplog with
      | none => .isTrue (by simp [Whole, h])
      | some log =>
          decidable_of_iff (level.toInt < log.level ∨ (log.pipe.isSome ∧ _ ∧ _ ∧ _))
            (by simp only [Whole, h]; rfl)
  | .readable reads => inferInstanceAs (Decidable (0 ∉ s.unread.take reads.sum))
  | .destroy => inferInstanceAs (Decidable (s.unread = []))

/-- Of two lists, one inside the other, put behind two such lists. -/
theorem append_eq_of_sublist {a b c d : Bytes} (hab : a.Sublist b) (hcd : c.Sublist d) :
    a ++ c = b ++ d ↔ a = b ∧ c = d := by
  refine ⟨fun heq => ?_, fun ⟨hab, hcd⟩ => by rw [hab, hcd]⟩
  have hlength := congrArg List.length heq
  have hab' := hab.length_le
  have hcd' := hcd.length_le
  simp only [List.length_append] at hlength
  exact ⟨hab.eq_of_length (by omega), hcd.eq_of_length (by omega)⟩

/-- Of three lists inside each other, the first is the last one. -/
theorem eq_of_sublists {a b c : Bytes} (hab : a.Sublist b) (hbc : b.Sublist c) :
    a = c ↔ b = c ∧ a = b := by
  constructor
  · rintro rfl
    have heq := hbc.antisymm hab
    exact ⟨heq, heq.symm⟩
  · rintro ⟨rfl, rfl⟩
    rfl

theorem cstr_eq_iff (b : Bytes) : cstr b = b ↔ 0 ∉ b :=
  ⟨fun h => h ▸ not_mem_cstr b, cstr_eq_self⟩

/-- The loop of `write_log_cb` prints what it has read, up to what is lost behind a `NUL`. -/
theorem writeLogCbLoop_eq (reads : List ℕ) (pipe stdout : Bytes) :
    ∃ printed, writeLogCbLoop reads pipe stdout = (pipe.drop reads.sum, stdout ++ printed) ∧
      printed.Sublist (pipe.take reads.sum) ∧
      (printed = pipe.take reads.sum ↔ 0 ∉ pipe.take reads.sum) := by
  induction reads generalizing pipe stdout with
  | nil => exact ⟨[], by simp [writeLogCbLoop], by simp, by simp⟩
  | cons n reads ih =>
      obtain ⟨printed, hloop, hsub, hiff⟩ := ih (pipe.drop n) (stdout ++ defaultLogFunc (pipe.take n))
      have hfirst : (cstr (pipe.take n)).Sublist (pipe.take n) := (List.takeWhile_prefix _).sublist
      refine ⟨cstr (pipe.take n) ++ printed, ?_, ?_, ?_⟩
      · rw [writeLogCbLoop, hloop, List.drop_drop, List.sum_cons, defaultLogFunc, List.append_assoc]
      · rw [List.sum_cons, List.take_add]
        exact hfirst.append hsub
      · rw [List.sum_cons, List.take_add, append_eq_of_sublist hfirst hsub, cstr_eq_iff, hiff,
          List.mem_append, not_or]

/-- What a step keeps of the lines that were logged. -/
structure Keeps (s s' : Logger) (C : Prop) : Prop where
  sublist : s'.kept.Sublist s'.expected
  iff : s'.kept = s'.expected ↔ s.kept = s.expected ∧ C

/-- A line is logged, and some of it is kept. -/
theorem Keeps.append {s s' : Logger} {C : Prop} {x y : Bytes} (h : s.kept.Sublist s.expected)
    (hkept : s'.kept = s.kept ++ x) (hexpected : s'.expected = s.expected ++ y) (hxy : x.Sublist y)
    (hC : C ↔ x = y) : Keeps s s' C := by
  constructor
  · rw [hkept, hexpected]
    exact h.append hxy
  · rw [hkept, hexpected, append_eq_of_sublist h hxy, hC]

/-- No line is logged, and some of what was kept is lost. -/
theorem Keeps.lose {s s' : Logger} {C : Prop} (h : s.kept.Sublist s.expected)
    (hkept : s'.kept.Sublist s.kept) (hlogged : s'.logged = s.logged)
    (hC : C ↔ s'.kept = s.kept) : Keeps s s' C := by
  have hexpected : s'.expected = s.expected := congrArg (terminated 10) hlogged
  constructor
  · rw [hexpected]
    exact hkept.trans h
  · rw [hexpected, eq_of_sublists hkept h, hC]

theorem expected_snoc (s : Logger) (lplog : Option Log) (stdout line : Bytes) :
    (Logger.mk lplog stdout (s.logged ++ [line])).expected = s.expected ++ (line ++ [10]) := by
  simp [Logger.expected, terminated]

theorem keeps_logLog {s : Logger} (h : s.kept.Sublist s.expected) (time : Bytes) (level : Level)
    (at_ msg : Bytes) (taken : Taken) :
    Keeps s (logLog s time level at_ msg taken) (Whole s (.log time level at_ msg taken)) := by
  unfold logLog Whole
  cases hlplog : s.lplog with
  | none =>
      have hunread : s.unread = [] := by simp [Logger.unread, hlplog]
      refine .append h (x := msg ++ [10]) ?_ (expected_snoc s _ _ msg) (.refl _) (by simp)
      rw [Logger.kept, Logger.kept, hunread]
      simp [Logger.unread]
  | some log =>
      by_cases hfiltered : level.toInt < log.level
      · simp only [hfiltered, if_true, true_or]
        exact .lose h (.refl _) rfl (by simp)
      · simp only [hfiltered, if_false, false_or]
        generalize linePrefix time level at_ = before
        cases hpipe : log.pipe with
        | none =>
            -- the pipe is closed: nothing of the line is kept
            have hunread : s.unread = [] := by simp [Logger.unread, hlplog, hpipe]
            refine .append h (x := []) ?_ (expected_snoc s _ _ _) (List.nil_sublist _) (by simp)
            rw [Logger.kept, Logger.kept, hunread]
            simp [Logger.unread]
        | some pipe =>
            have hunread : s.unread = pipe := by simp [Logger.unread, hlplog, hpipe]
            have hbefore := List.take_sublist taken.before before
            have hmsg := List.take_sublist taken.msg msg
            have hnewline := List.take_sublist taken.newline [(10 : UInt8)]
            -- a piece that is cut is a part of what it should be
            refine .append h (x := before.take taken.before ++ msg.take taken.msg ++
              [(10 : UInt8)].take taken.newline) ?_ (expected_snoc s _ _ _)
              ((hbefore.append hmsg).append hnewline) ?_
            · rw [Logger.kept, Logger.kept, hunread]
              simp [Logger.unread]
            · rw [append_eq_of_sublist (hbefore.append hmsg) hnewline,
                append_eq_of_sublist hbefore hmsg, List.take_eq_self_iff, List.take_eq_self_iff,
                List.take_eq_self_iff]
              simp [and_assoc]

theorem keeps_writeLogCb {s : Logger} (h : s.kept.Sublist s.expected) (reads : List ℕ) :
    Keeps s (writeLogCb s reads) (Whole s (.readable reads)) := by
  unfold writeLogCb Whole
  cases hlplog : s.lplog with
  | none =>
      have hunread : s.unread = [] := by simp [Logger.unread, hlplog]
      exact .lose h (.refl _) rfl (by simp [hunread])
  | some log =>
      cases hpipe : log.pipe with
      | none =>
          have hunread : s.unread = [] := by simp [Logger.unread, hlplog, hpipe]
          simp only [hpipe]
          exact .lose h (.refl _) rfl (by simp [hunread])
      | some pipe =>
          have hunread : s.unread = pipe := by simp [Logger.unread, hlplog, hpipe]
          -- what is printed is part of what was read, all of it without a NUL
          obtain ⟨printed, hloop, hsub, hiff⟩ := writeLogCbLoop_eq reads pipe s.stdout
          simp only [hpipe, hloop]
          have hkept : (Logger.mk (some { log with pipe := some (pipe.drop reads.sum) })
              (s.stdout ++ printed) s.logged).kept = s.stdout ++ (printed ++ pipe.drop reads.sum) := by
            simp [Logger.kept, Logger.unread]
          have hkept' : s.kept = s.stdout ++ (pipe.take reads.sum ++ pipe.drop reads.sum) := by
            rw [Logger.kept, hunread, List.take_append_drop]
          refine .lose h ?_ rfl ?_
          · rw [hkept, hkept']
            exact (List.Sublist.refl _).append (hsub.append (.refl _))
          · rw [hkept, hkept', hunread, List.append_cancel_left_eq, List.append_cancel_right_eq, hiff]

/-- `init_log` prints nothing, and the pipe is empty, if there is one. -/
theorem initLog_kept (s : Logger) (level : ℤ) (io : InitIO) :
    (initLog s level io).2.kept = s.stdout ∧ (initLog s level io).2.logged = s.logged := by
  unfold initLog
  dsimp only
  repeat' split
  all_goals exact ⟨List.append_nil _, rfl⟩

/-- A step keeps what was logged exactly if nothing is lost in it. -/
theorem logStep_keeps {s s' : Logger} {e : LogEvent} (h : s.kept.Sublist s.expected)
    (hstep : logStep s e = some s') : Keeps s s' (Whole s e) := by
  cases e with
  | init level io =>
      simp only [logStep, Option.ite_none_left_eq_some] at hstep
      obtain ⟨hnone, hstep⟩ := hstep
      obtain ⟨hkept, hlogged⟩ := initLog_kept s level io
      rcases hinit : initLog s level io with ⟨_ | ret, t⟩
      · simp [hinit] at hstep
      · rw [hinit] at hstep hkept hlogged
        obtain rfl := Option.some.inj hstep
        -- there was no log before, and its pipe starts empty
        have hunread : s.unread = [] := by simp [Logger.unread, Option.not_isSome_iff_eq_none.mp hnone]
        have hsame : t.kept = s.kept := by rw [hkept, Logger.kept, hunread, List.append_nil]
        exact .lose h (hsame ▸ .refl _) hlogged (by simp [hsame, Whole])
  | log time level at_ msg taken =>
      simp only [logStep, Option.ite_none_left_eq_some, Option.some.injEq] at hstep
      obtain ⟨-, rfl⟩ := hstep
      exact keeps_logLog h time level at_ msg taken
  | readable reads =>
      simp only [logStep, Option.ite_none_right_eq_some, Option.some.injEq] at hstep
      obtain ⟨-, rfl⟩ := hstep
      exact keeps_writeLogCb h reads
  | destroy =>
      simp only [logStep, Option.ite_none_right_eq_some, Option.some.injEq] at hstep
      obtain ⟨-, rfl⟩ := hstep
      -- what is in the pipe is lost with it
      have hkept : (destroyLog s).kept = s.stdout ++ [] := by
        unfold destroyLog Logger.kept Logger.unread
        cases s.lplog <;> rfl
      refine .lose h ?_ rfl ?_
      · rw [hkept]
        exact (List.Sublist.refl _).append (List.nil_sublist _)
      · rw [hkept, Logger.kept, List.append_cancel_left_eq]
        exact eq_comm

/-! ## The output -/

/-- What is printed, or will be, is what was logged, exactly if nothing was lost in any event. -/
theorem logged_whole_iff {es : List LogEvent} {s : Logger}
    (hexec : logMachine.exec Logger.init es = some s) :
    s.stdout ++ s.unread = s.expected ↔ logMachine.Meets Whole Logger.init es := by
  have hinit : Logger.init.kept.Sublist Logger.init.expected := .refl []
  have hiff := logMachine.exec_iff_meets (I := fun s => s.kept.Sublist s.expected)
    (P := fun s => s.kept = s.expected) (C := Whole)
    (fun s e s' hs hstep => (logStep_keeps hs hstep).sublist)
    (fun s e s' hs hstep => (logStep_keeps hs hstep).iff) hinit hexec
  exact hiff.trans (and_iff_right rfl)

/-- **When everything was read, the lines of the output are those that were logged, one for each call
and in order, exactly if nothing was lost and no message has a line break in it.** -/
theorem log_readable_iff {es : List LogEvent} {s : Logger}
    (hexec : logMachine.exec Logger.init es = some s) (hread : s.unread = []) :
    s.stdout.splitOn 10 = s.logged ++ [[]] ↔
      logMachine.Meets Whole Logger.init es ∧ ∀ line ∈ s.logged, 10 ∉ line := by
  rw [splitOn_eq_records_iff, ← logged_whole_iff hexec, hread, List.append_nil]
  rfl

/-- A line before `init_log`, one that is filtered, and one that is read in two parts. -/
def threeLines : List LogEvent :=
  [ .log [] .info (ascii "a.c:1") (ascii "start") ⟨0, 0, 0⟩, .init 1 ⟨true, true, true, true, true⟩,
    .log (ascii "12:00:00") .trace (ascii "a.c:2") (ascii "detail") ⟨0, 0, 0⟩,
    .log (ascii "12:00:01") .warn (ascii "a.c:3") (ascii "careful") ⟨22, 7, 1⟩,
    .readable [12, 18] ]

theorem log_readable_threeLines : ∃ s, logMachine.exec Logger.init threeLines = some s ∧
    s.stdout.splitOn 10 = [ascii "start", ascii "12:00:01 WARN  a.c:3: careful", []] := by
  have hexec : logMachine.exec Logger.init threeLines = some _ := rfl
  exact ⟨_, hexec, (log_readable_iff hexec rfl).mpr ⟨by decide, by decide⟩⟩

end Gfhttpd.Logging
