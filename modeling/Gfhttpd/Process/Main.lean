import Gfhttpd.Config.Load
import Gfhttpd.Lib.Getopt
import Gfhttpd.Lib.Loop
import Gfhttpd.Process.Run

/-!
# The process (`main/gfhttpd.c`)

`main` reads the command line, loads the file it names, and runs the servers until they are stopped.
The results of the library are given by `ProcessIO`.

- `optionsLoop`, `readOptions`: the loop over the options, and what is made of the command line
- `readOptions_iff`: the command lines that it gets through, and the file it takes from them
- `main`: from the command line to the end of the process
- `exits_cleanly_iff`: when the servers are run, and how the process ends
-/

namespace Gfhttpd.Process

open Conf Getopt Http Ledger Loop

variable {Code P : Type}

/-! ## The command line -/

/-- `GFHTTPD_VERSION`. -/
def GFHTTPD_VERSION : Bytes := ascii "0.0.1"

/-- `":vc:"`. -/
def gfhttpdOptions (posix : Bool) : Options UInt8 where
  dash := 45
  takesArg c := if c = 118 then some false else if c = 99 then some true else none
  posix := posix

/-- `usage`. -/
def usage : Bytes :=
  ascii "Usage:\n\t-v \t\tprints version and exit\n\t-c config_file\t" ++
    ascii "load configuration from file (default etc/conf.json)\n\n"

/-- The file that is loaded when none is named. -/
def defaultFile : Bytes := ascii "etc/conf.json"

/-- The variables of `main` in its loop: the state of `getopt`, the file, what was printed, and whether
`EXIT_FAILURE` was returned. -/
structure OptionsState where
  getopt : State UInt8
  configFile : Bytes
  printed : Bytes
  failed : Bool
deriving DecidableEq

/-- What the loop prints for an option. -/
def optionText : Result UInt8 → Bytes
  | .option 118 _ => ascii "gfhttpd-" ++ GFHTTPD_VERSION ++ ascii "\n"
  | .missing _ => usage
  | .unknown optopt => ascii "unknown option: " ++ [optopt] ++ ascii "\n" ++ usage
  | _ => []

/-- The `switch` of `main`. -/
def handleOption (s : OptionsState) (opt : Result UInt8) : OptionsState :=
  let s := { s with printed := s.printed ++ optionText opt }
  match opt with
  | .option 118 _ => s
  | .option 99 (some optarg) => { s with configFile := optarg }
  | .missing _ => s
  -- `case '?'`; there are no other options
  | _ => { s with failed := true }

/-- One round of the loop. -/
def optionRound (posix : Bool) (s : OptionsState) : OptionsState :=
  { handleOption s (getopt (gfhttpdOptions posix) s.getopt).1 with
    getopt := (getopt (gfhttpdOptions posix) s.getopt).2 }

/-- `while ((opt = getopt(argc, argv, ":vc:")) != -1) switch (opt) ..`. -/
def optionsLoop (posix : Bool) : While OptionsState where
  goesOn s := !s.failed && !(getopt (gfhttpdOptions posix) s.getopt).1.isDone
  body s := some (optionRound posix s)

/-- The loop begins. -/
def OptionsState.start (args : List Bytes) : OptionsState :=
  ⟨⟨[], args, []⟩, defaultFile, [], false⟩

/-- What `main` does behind the loop: what it has printed then, and the file it opens, unless
`EXIT_FAILURE` is returned. -/
def afterOptions (posix : Bool) (s : OptionsState) : Bytes × Option Bytes :=
  if s.failed then (s.printed, none)
  else
    match (getopt (gfhttpdOptions posix) s.getopt).1 with
    -- `optind < argc`
    | .done (arg :: _) => (s.printed ++ ascii "unknow option: " ++ arg ++ ascii "\n" ++ usage, none)
    | _ => (s.printed, some s.configFile)

/-- What `main` makes of the command line. -/
def readOptions (posix : Bool) (args : List Bytes) : Option (Bytes × Option Bytes) :=
  let start := OptionsState.start args
  ((optionsLoop posix).run (start.getopt.size + 1) start).map (afterOptions posix)

/-! ## What it gets through -/

/-- The argument of `-c`. -/
def fileOf : Result UInt8 → Option Bytes
  | .option 99 optarg => optarg
  | _ => none

/-- The last file that is named, or this one. -/
def lastFile (file : Bytes) (items : List (Result UInt8)) : Bytes :=
  (items.filterMap fileOf).getLast?.getD file

theorem lastFile_cons (file : Bytes) (item : Result UInt8) (items : List (Result UInt8)) :
    lastFile file (item :: items) = lastFile ((fileOf item).getD file) items := by
  unfold lastFile
  cases hfile : fileOf item with
  | none =>
      rw [List.filterMap_cons_none hfile]
      rfl
  | some named =>
      rw [List.filterMap_cons_some hfile, List.getLast?_cons]
      rfl

section Loop

variable {posix : Bool} {s t : OptionsState} {opt : Result UInt8} {items : List (Result UInt8)}

theorem handleOption_printed : (handleOption s opt).printed = s.printed ++ optionText opt := by
  unfold handleOption
  dsimp only
  split <;> rfl

/-- An option without a failure. -/
theorem handleOption_ok (h : (handleOption s opt).failed = false) :
    opt.isOption = true ∧ (handleOption s opt).configFile = (fileOf opt).getD s.configFile := by
  unfold handleOption at h ⊢
  dsimp only at h ⊢
  split at h
  · exact ⟨rfl, rfl⟩
  · exact ⟨rfl, rfl⟩
  · exact ⟨rfl, rfl⟩
  · cases h

/-- The options that are spelled are handled. -/
theorem handleOption_allowed (h : (gfhttpdOptions posix).Allows opt) (hs : s.failed = false) :
    (handleOption s opt).failed = false := by
  unfold handleOption
  dsimp only
  split
  · exact hs
  · exact hs
  · exact hs
  · next hv hc hmissing =>
      -- only `-v` has no argument, and only `-c` has one
      cases opt with
      | option c optarg =>
          cases optarg with
          | none =>
              have hc118 : c = 118 := by
                by_contra hne
                simp [Options.Allows, gfhttpdOptions, hne] at h
              exact (hv _ (by rw [hc118])).elim
          | some arg =>
              have hc99 : c = 99 := by
                by_contra hne
                simp [Options.Allows, gfhttpdOptions, hne] at h
              exact (hc _ (by rw [hc99])).elim
      | missing c => exact (hmissing c rfl).elim
      | unknown | done => cases h

/-- From a state without a failure the loop gets through exactly if options are spelled, and has then
the last file that is named. -/
theorem optionsLoop_ends {begins : List OptionsState}
    (hends : (optionsLoop posix).Ends s begins (some t)) (hs : s.failed = false) (file printed : Bytes) :
    (t.failed = false ∧ (getopt (gfhttpdOptions posix) t.getopt).1 = .done [] ∧
        t.configFile = file ∧ t.printed = printed) ↔
      ∃ items, s.getopt.Spells (gfhttpdOptions posix) items ∧ file = lastFile s.configFile items ∧
        printed = s.printed ++ items.flatMap optionText := by
  generalize hr : some t = r at hends
  -- by the rounds of the loop: each of them takes the first option that is spelled
  induction hends with
  | @stop s hstop =>
      obtain rfl := Option.some.inj hr
      -- there are no more options
      have hdone : (getopt (gfhttpdOptions posix) t.getopt).1.isDone = true := by
        simpa [optionsLoop, hs] using hstop
      constructor
      · rintro ⟨-, hnone, rfl, rfl⟩
        exact ⟨[], spells_nil_iff.mpr hnone, rfl, (List.append_nil _).symm⟩
      · rintro ⟨items, hspells, rfl, rfl⟩
        cases items with
        | nil => exact ⟨hs, spells_nil_iff.mp hspells, rfl, (List.append_nil _).symm⟩
        | cons opt items =>
            obtain ⟨hopt, hoption, -⟩ := spells_cons_iff.mp hspells
            rw [hopt, Result.not_done_of_option hoption] at hdone
            cases hdone
  | fail _ hbody => cases hbody
  | @round s s' begins r hgo hbody hrest ih =>
      obtain rfl := hr
      obtain rfl := Option.some.inj hbody
      have hgoes : (getopt (gfhttpdOptions posix) s.getopt).1.isDone = false := by
        simpa [optionsLoop, hs] using hgo
      have hsplit : ∀ items, s.getopt.Spells (gfhttpdOptions posix) items ↔ _ :=
        fun _ => spells_iff_call hgoes
      cases hfailed : (handleOption s (getopt (gfhttpdOptions posix) s.getopt).1).failed with
      | true =>
          refine iff_of_false ?_ ?_
          · -- a failure ends the loop
            rintro ⟨ht, -⟩
            have hstopped : (optionRound posix s).failed = true := hfailed
            cases hrest with
            | stop => cases hstopped.symm.trans ht
            | round hgo => simp [optionsLoop, hstopped] at hgo
          · rintro ⟨items, hspells, -⟩
            obtain ⟨items', rfl, -⟩ := (hsplit items).mp hspells
            have hallowed := hspells.1.allows _ (List.mem_cons_self ..)
            rw [handleOption_allowed hallowed hs] at hfailed
            cases hfailed
      | false =>
          obtain ⟨hoption, hfile⟩ := handleOption_ok hfailed
          rw [ih hfailed rfl]
          constructor
          · rintro ⟨items, hspells, rfl, rfl⟩
            refine ⟨_ :: items, (hsplit _).mpr ⟨items, rfl, hoption, hspells⟩, ?_, ?_⟩
            · rw [lastFile_cons, ← hfile]
              rfl
            · rw [List.flatMap_cons, ← List.append_assoc, ← handleOption_printed]
              rfl
          · rintro ⟨items, hspells, rfl, rfl⟩
            obtain ⟨items', rfl, -, hspells'⟩ := (hsplit items).mp hspells
            refine ⟨items', hspells', ?_, ?_⟩
            · rw [lastFile_cons, ← hfile]
              rfl
            · rw [List.flatMap_cons, ← List.append_assoc, ← handleOption_printed]
              rfl

/-- The loop ends. -/
theorem optionsLoop_returns (posix : Bool) (s : OptionsState) : ∃ begins t,
    (optionsLoop posix).Ends s begins (some t) ∧ begins.length ≤ s.getopt.size ∧
      (t.failed = false → (getopt (gfhttpdOptions posix) t.getopt).1.isDone = true) := by
  have hround : ∀ s : OptionsState, True → (optionsLoop posix).goesOn s = true → ∃ t,
      (optionsLoop posix).body s = some t ∧ True ∧ t.getopt.size < s.getopt.size := by
    intro s _ hgo
    simp only [optionsLoop, Bool.and_eq_true, Bool.not_eq_true'] at hgo
    exact ⟨_, rfl, trivial, size_getopt hgo.2⟩
  obtain ⟨begins, t, hends, hlen, -, hstop⟩ :=
    While.exists_ends (I := fun _ => True) (μ := fun s => s.getopt.size) hround (s := s) trivial
  refine ⟨begins, t, hends, hlen, fun hfailed => ?_⟩
  simpa [optionsLoop, hfailed] using hstop

/-- A file is left without a failure and without an operand. -/
theorem afterOptions_iff
    (hdone : t.failed = false → (getopt (gfhttpdOptions posix) t.getopt).1.isDone = true)
    {printed file : Bytes} : afterOptions posix t = (printed, some file) ↔
      t.failed = false ∧ (getopt (gfhttpdOptions posix) t.getopt).1 = .done [] ∧
        t.configFile = file ∧ t.printed = printed := by
  unfold afterOptions
  cases hfailed : t.failed with
  | true => simp
  | false =>
      have hend := hdone hfailed
      cases hopt : (getopt (gfhttpdOptions posix) t.getopt).1 with
      | done operands =>
          cases operands with
          | nil => simp [and_comm]
          | cons arg operands => simp
      | option | missing | unknown =>
          rw [hopt] at hend
          cases hend

theorem readOptions_returns (posix : Bool) (args : List Bytes) :
    ∃ r, readOptions posix args = some r := by
  obtain ⟨begins, t, hends, hlen, -⟩ := optionsLoop_returns posix (.start args)
  rw [readOptions, hends.run_eq (Nat.lt_succ_of_le hlen)]
  exact ⟨_, rfl⟩

/-- The command lines with which a file is loaded. -/
theorem readOptions_eq_some_iff {args : List Bytes} {printed file : Bytes} :
    readOptions posix args = some (printed, some file) ↔
      ∃ items, State.Spells (gfhttpdOptions posix) ⟨[], args, []⟩ items ∧
        file = lastFile defaultFile items ∧ printed = items.flatMap optionText := by
  obtain ⟨begins, t, hends, hlen, hdone⟩ := optionsLoop_returns posix (.start args)
  rw [readOptions, hends.run_eq (Nat.lt_succ_of_le hlen), Option.map_some, Option.some_inj,
    afterOptions_iff hdone, optionsLoop_ends hends rfl]
  rfl

/-- **The loop over the options ends, whatever the command line.  A file is loaded if and only if the
command line spells options and nothing else; it is the last one that is named, and what was printed
is the version or the usage, once for every option that prints one.** -/
theorem readOptions_iff (posix : Bool) (args : List Bytes) : ∃ r,
    readOptions posix args = some r ∧ ∀ printed file, r = (printed, some file) ↔
      ∃ items, State.Spells (gfhttpdOptions posix) ⟨[], args, []⟩ items ∧
        file = lastFile defaultFile items ∧ printed = items.flatMap optionText := by
  obtain ⟨r, hread⟩ := readOptions_returns posix args
  refine ⟨r, hread, fun printed file => ?_⟩
  rw [← readOptions_eq_some_iff, hread, Option.some_inj]

end Loop

/-! ## The whole process -/

/-- What the library answers in `main`. -/
structure ProcessIO (Code P : Type) extends StartIO where
  posix : Bool
  /-- `open`: the error, or what `conf_load` reads, if `fdopen` does not fail -/
  openFile : Bytes → Except ℤ (Option Bytes)
  parse : JsmnParse P
  init : P
  compile : Option Bytes → Option Code
  buf : Bytes
  tokens : ℕ → Tok
  loadErrno : ℤ

def EXIT_SUCCESS : ℤ := 0

def EXIT_FAILURE : ℤ := 1

/-- How the process ends. -/
inductive ProcessEnd where
  | exits (status : ℤ)
  | died (cause : Cause)
  | runsOn
deriving DecidableEq, Repr

/-- What `main` makes of the end of `run`: behind it are `config_free` and `EXIT_SUCCESS`. -/
def Ending.process : Ending → ProcessEnd
  | .returned => .exits EXIT_SUCCESS
  | .died cause => .died cause
  | .runsOn => .runsOn

/-- The end of `main`. -/
structure MainEnd (Code : Type) where
  ending : ProcessEnd
  printed : Bytes
  /-- the configuration with which `run` was called -/
  served : Option (Config Code)

/-- `conf_load`, on the configuration of `main`. -/
def loadFile (io : ProcessIO Code P) (cfile : Option Bytes) : ℤ × Config Code :=
  confLoad io.parse io.init io.compile io.buf io.tokens cfile ⟨[], [], [], []⟩

/-- `main`, with the memory of its pool; `none` if it does not get through the options. -/
def main (io : ProcessIO Code P) (args : List Bytes) : Option (MainEnd Code) :=
  (readOptions io.posix args).map fun
    | (printed, none) => ⟨.exits EXIT_FAILURE, printed, none⟩
    | (printed, some configFile) =>
        match io.openFile configFile with
        | .error errno =>
            ⟨.exits EXIT_FAILURE, printed ++ ascii "Failed to open file " ++ configFile ++
              ascii " for configuration reading. errno: " ++ ascii (toString errno) ++ ascii "\n", none⟩
        | .ok cfile =>
            if (loadFile io cfile).1 < 0 then
              ⟨.exits EXIT_FAILURE, printed ++ ascii "Failed to load " ++ configFile ++
                ascii " configuration file. errno: " ++ ascii (toString io.loadErrno) ++ ascii "\n", none⟩
            else
              ⟨(run io.toStartIO (loadFile io cfile).2).ending.process, printed,
                some (loadFile io cfile).2⟩

/-- The command line spells options and nothing else, and the last file they name is opened and loaded,
as this configuration. -/
def Serves (io : ProcessIO Code P) (args : List Bytes) (config : Config Code) : Prop :=
  ∃ items cfile, State.Spells (gfhttpdOptions io.posix) ⟨[], args, []⟩ items ∧
    io.openFile (lastFile defaultFile items) = .ok cfile ∧ 0 ≤ (loadFile io cfile).1 ∧
      config = (loadFile io cfile).2

section Process

variable {io : ProcessIO Code P} {args : List Bytes} {e : MainEnd Code} {config : Config Code}

/-- What the command line serves, by what is made of it. -/
theorem serves_iff {r : Bytes × Option Bytes} (hread : readOptions io.posix args = some r) :
    Serves io args config ↔ ∃ file cfile, r.2 = some file ∧ io.openFile file = .ok cfile ∧
      0 ≤ (loadFile io cfile).1 ∧ config = (loadFile io cfile).2 := by
  obtain ⟨printed, named⟩ := r
  constructor
  · rintro ⟨items, cfile, hspells, hopen, hload, rfl⟩
    have hfile := readOptions_eq_some_iff.mpr ⟨items, hspells, rfl, rfl⟩
    obtain ⟨-, hnamed⟩ := Prod.mk.inj (Option.some.inj (hread.symm.trans hfile))
    exact ⟨_, cfile, hnamed, hopen, hload, rfl⟩
  · rintro ⟨file, cfile, rfl, hopen, hload, rfl⟩
    obtain ⟨items, hspells, rfl, -⟩ := readOptions_eq_some_iff.mp hread
    exact ⟨items, cfile, hspells, hopen, hload, rfl⟩

/-- The configurations with which the servers are run. -/
theorem main_served (h : main io args = some e) : e.served = some config ↔ Serves io args config := by
  obtain ⟨⟨printed, named⟩, hread, rfl⟩ := Option.map_eq_some_iff.mp h
  rw [serves_iff hread]
  cases named with
  | none => simp
  | some file =>
      cases hopen : io.openFile file with
      | error errno => simp [hopen]
      | ok cfile =>
          simp only [hopen]
          split
          · next hload =>
              refine iff_of_false nofun ?_
              rintro ⟨file', cfile', hfile, hcfile, hload', -⟩
              cases hfile
              cases hopen.symm.trans hcfile
              omega
          · next hload =>
              constructor
              · intro hserved
                exact ⟨file, cfile, rfl, hopen, not_lt.mp hload, (Option.some.inj hserved).symm⟩
              · rintro ⟨file', cfile', hfile, hcfile, -, rfl⟩
                cases hfile
                cases hopen.symm.trans hcfile
                rfl

/-- How the process ends, by what it has served. -/
theorem main_ends (h : main io args = some e) :
    e.served = none ∧ e.ending = .exits EXIT_FAILURE ∨
      ∃ config, e.served = some config ∧ e.ending = (run io.toStartIO config).ending.process := by
  obtain ⟨⟨printed, named⟩, -, rfl⟩ := Option.map_eq_some_iff.mp h
  cases named with
  | none => exact Or.inl ⟨rfl, rfl⟩
  | some file =>
      dsimp only
      cases io.openFile file with
      | error errno => exact Or.inl ⟨rfl, rfl⟩
      | ok cfile =>
          dsimp only
          split
          · exact Or.inl ⟨rfl, rfl⟩
          · exact Or.inr ⟨_, rfl, rfl⟩

theorem main_returns (io : ProcessIO Code P) (args : List Bytes) : ∃ e, main io args = some e := by
  obtain ⟨r, hread⟩ := readOptions_returns io.posix args
  rw [main, hread]
  exact ⟨_, rfl⟩

/-- An end that is not a failure, by the configuration that is served. -/
theorem main_ending_iff (h : main io args = some e) (ending : Ending) :
    e.ending = ending.process ↔
      ∃ config, e.served = some config ∧ (run io.toStartIO config).ending = ending := by
  -- the ways to end stay apart, and none of them is a failure
  have hinj : ∀ end' : Ending, end'.process = ending.process ↔ end' = ending := by
    intro end'
    cases end' <;> cases ending <;> simp [Ending.process]
  have hfailure : ending.process ≠ .exits EXIT_FAILURE := by
    cases ending <;> simp [Ending.process, EXIT_SUCCESS, EXIT_FAILURE]
  obtain ⟨hnone, hfail⟩ | ⟨config, hconfig, hend⟩ := main_ends h
  · simp [hnone, hfail, hfailure.symm]
  · simp [hend, hconfig, hinj]

/-- A failure is the end without a configuration. -/
theorem main_failure_iff (h : main io args = some e) :
    e.ending = .exits EXIT_FAILURE ↔ e.served = none := by
  obtain ⟨hnone, hfail⟩ | ⟨config, hconfig, hend⟩ := main_ends h
  · simp [hnone, hfail]
  · rw [hend, hconfig]
    cases (run io.toStartIO config).ending <;> simp [Ending.process, EXIT_SUCCESS, EXIT_FAILURE]

end Process

/-- **The process loads a configuration and runs the servers with it exactly if the command line spells
options and nothing else, and the last file they name can be opened and loaded; without one it ends
with failure.  It ends with success exactly if the log is refused, or the event loop is left with what
both servers have started; it goes on exactly if the event loop does, and dies otherwise.  Both servers
listen exactly if, besides, the event of HTTP/3 was added, and everything is given back if it ends
with success behind the event loop, or if there was nothing.** -/
theorem exits_cleanly_iff (io : ProcessIO Code P) (args : List Bytes) : ∃ e, main io args = some e ∧
    (∀ config, e.served = some config ↔ Serves io args config) ∧
    (e.ending = .exits EXIT_FAILURE ↔ ¬ ∃ config, Serves io args config) ∧
    (e.ending = .exits EXIT_SUCCESS ↔ ∃ config, Serves io args config ∧
      (LogRefused io.toStartIO ∨ CleansUp io.toStartIO config)) ∧
    (e.ending = .runsOn ↔ ∃ config, Serves io args config ∧
      EntersLoop io.toStartIO config ∧ io.loop = .never) ∧
    ((∃ cause, e.ending = .died cause) ↔ ∃ config, Serves io args config ∧
      ¬ (LogRefused io.toStartIO ∨ CleansUp io.toStartIO config) ∧
      ¬ (EntersLoop io.toStartIO config ∧ io.loop = .never)) ∧
    ∀ config, Serves io args config →
      ((run io.toStartIO config).rets = some (0, 0) ↔
        EntersLoop io.toStartIO config ∧ BothListen io.toStartIO config) ∧
      (Settled (run io.toStartIO config).acquired (run io.toStartIO config).released ↔
        CleansUp io.toStartIO config ∨ (io.eventBase = false ∧ io.log.pipe = false)) := by
  obtain ⟨e, hmain⟩ := main_returns io args
  have hserved : ∀ config, e.served = some config ↔ Serves io args config :=
    fun _ => main_served hmain
  refine ⟨e, hmain, hserved, ?_, ?_, ?_, ?_, fun config _ => ⟨run_rets_iff, run_settled_iff⟩⟩
  · rw [main_failure_iff hmain, Option.eq_none_iff_forall_ne_some, not_exists]
    exact forall_congr' fun config => not_congr (hserved config)
  · refine (main_ending_iff hmain .returned).trans (exists_congr fun config => ?_)
    rw [hserved, run_returned_iff]
  · refine (main_ending_iff hmain .runsOn).trans (exists_congr fun config => ?_)
    rw [hserved, run_runsOn_iff]
  · have hdied (cause : Cause) := main_ending_iff hmain (.died cause)
    refine (exists_congr hdied).trans (exists_comm.trans (exists_congr fun config => ?_))
    rw [exists_and_left, hserved, run_died_iff]

end Gfhttpd.Process
