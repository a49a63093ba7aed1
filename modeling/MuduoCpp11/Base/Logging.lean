import Mathlib.Data.List.DropRight
import MuduoCpp11.Lib.Decimal
import MuduoCpp11.Lib.Run

/-! # The logger of the builds without glog

`Log` puts a line into `log_buf_`, which `Fsync` hands to one `write`. A line of the level `kInfo` may
stay in the buffer when `log_cached_` is on; all others are written at once, with what is before them.
What should be logged is a matter of the calls and of `log_level` alone (`accepted`). The logger hands
these lines to `write`, whole and in the order of the lock, whatever is cached and whichever file is open
(`lines_logged`); what a `write` does not take is gone. `abort` is called behind the unlock, and until then
other threads may go on.

A text that is too long is not logged, and `Log` returns before it comes to `abort`. So a `CHECK` that
fails ends the process only if its text has at most 896 bytes (`fatal_aborts`). -/

namespace MuduoCpp11.Base

open MuduoCpp11.Lib MuduoCpp11.Lib.Decimal

namespace Logger

inductive LogLevel where
  | kTrace | kDebug | kInfo | kWarn | kError | kFatal | kNumLogLevels
  deriving DecidableEq, Repr

def LogLevel.value : LogLevel → ℤ
  | .kTrace => 0
  | .kDebug => 1
  | .kInfo => 2
  | .kWarn => 3
  | .kError => 4
  | .kFatal => 5
  | .kNumLogLevels => 6

def kLogLineMaxSize : ℕ := 1024

def kLogBuffSize : ℕ := 64 * 1024

def STDERR_FILENO : ℕ := 2

/-! ### A line -/

/-- `__FILE__`, `__func__` and `__LINE__`. -/
structure Site where
  fileName : List Char
  funcName : List Char
  lineNumber : ℕ
  deriving DecidableEq

/-- What `localtime_r`, `gettimeofday` and `gettid` return to a call of `Log`. -/
structure Stamp where
  tmYear : ℕ
  tmMon : ℕ
  tmMday : ℕ
  tmHour : ℕ
  tmMin : ℕ
  tmSec : ℕ
  milliseconds : ℕ
  tid : ℕ
  deriving DecidableEq

/-- The arguments of `Log`, with the text that the format and its arguments come to. -/
structure Record where
  priority : ℤ
  caption : List Char
  needSync : Bool
  site : Site
  text : List Char
  stamp : Stamp
  deriving DecidableEq

/-- `%0nd` of a number that is not negative. -/
def padded (n k : ℕ) : List Char := (decimal k).leftpad n '0'

/-- The name behind the last `/`. -/
def Site.baseName (s : Site) : List Char := s.fileName.rtakeWhile (· ≠ '/')

def Record.header (r : Record) : List Char :=
  "[".toList ++ padded 4 (r.stamp.tmYear + 1900) ++ "-".toList ++ padded 2 (r.stamp.tmMon + 1) ++
    "-".toList ++ padded 2 r.stamp.tmMday ++ " ".toList ++ padded 2 r.stamp.tmHour ++ ":".toList ++
    padded 2 r.stamp.tmMin ++ ":".toList ++ padded 2 r.stamp.tmSec ++ ":".toList ++
    padded 3 r.stamp.milliseconds ++ "] [tid=".toList ++ decimal r.stamp.tid ++ "] [".toList ++
    r.site.baseName ++ "::".toList ++ r.site.funcName ++ ":".toList ++ decimal r.site.lineNumber ++
    "] ".toList ++ r.caption ++ " - ".toList

def Record.line (r : Record) : List Char := r.header ++ r.text ++ ['\n']

/-- What `vsnprintf` returns. -/
def Record.textLen (r : Record) : ℤ := r.text.length

/-- `text_len + 128` is an `int`. For a longer text `Log` is undefined. -/
def Record.defined (r : Record) : Bool := r.text.length < 2 ^ 31 - 128

/-- `Log` does not return before it takes the lock. -/
def Record.fits (r : Record) : Bool :=
  r.priority < LogLevel.kNumLogLevels.value && r.textLen + 128 ≤ kLogLineMaxSize

/-! ### The macros -/

inductive Macro where
  | logFatal | logError | logWarn | logInfo | logDebug | logTrace
  deriving DecidableEq, Repr

def Macro.level : Macro → LogLevel
  | .logFatal => .kFatal
  | .logError => .kError
  | .logWarn => .kWarn
  | .logInfo => .kInfo
  | .logDebug => .kDebug
  | .logTrace => .kTrace

def Macro.caption : Macro → List Char
  | .logFatal => "FATAL".toList
  | .logError => "ERROR".toList
  | .logWarn => "WARN".toList
  | .logInfo => "INFO".toList
  | .logDebug => "DEBUG".toList
  | .logTrace => "TRACE".toList

def Macro.needSync : Macro → Bool
  | .logInfo => false
  | _ => true

/-- The macro looks at `log_level` first. -/
def Macro.filtered : Macro → Bool
  | .logInfo | .logDebug | .logTrace => true
  | _ => false

def Macro.record (m : Macro) (site : Site) (text : List Char) (stamp : Stamp) : Record where
  priority := m.level.value
  caption := m.caption
  needSync := m.needSync
  site
  text
  stamp

end Logger

/-! ### The logger -/

/-- One `write`: the descriptor, what it is given, and how much of that it takes (nothing if it
fails). -/
structure Logger.Write where
  fd : ℕ
  data : List Char
  accepted : ℕ
  deriving DecidableEq

/-- `logBuf` is `log_buf_` up to `current_buf_pos_`. `dying` counts the calls of `Log` that have given the
lock back and are about to abort the process. `writes`, `opened` and `closed` are history, and so is
`overrun`: `log_buf_` has been written to beyond its end. -/
structure Logger where
  logLevel : Logger.LogLevel := .kInfo
  logFd : ℕ := Logger.STDERR_FILENO
  logCached : Bool := false
  logBuf : List Char := []
  dying : ℕ := 0
  aborted : Bool := false
  destroyed : Bool := false
  overrun : Bool := false
  writes : List Logger.Write := []
  opened : List ℕ := []
  closed : List ℕ := []

namespace Logger

def new : Logger := {}

section
variable (s : Logger)

/-- `Fsync`, which sets the position back however much has been written. -/
def fsync (accepted : ℕ) : Logger :=
  { s with writes := s.writes ++ [⟨s.logFd, s.logBuf, accepted⟩], logBuf := [] }

/-- The line goes to the buffer. -/
def append (r : Record) : Logger :=
  { s with
    logBuf := s.logBuf ++ r.line
    overrun := s.overrun || kLogBuffSize < s.logBuf.length + r.line.length }

/-- The buffer is handed on if it has no room for the text. -/
def makeRoom (r : Record) (accepted : ℕ) : Logger :=
  if s.logBuf.length + r.textLen + 128 > kLogLineMaxSize then s.fsync accepted else s

def syncBehind (r : Record) (accepted : ℕ) : Logger :=
  if !s.logCached || r.needSync then s.fsync accepted else s

/-- What `Log` does under the lock; the results are those of its two calls of `Fsync`. -/
def locked (r : Record) (accepted : ℕ × ℕ) : Logger :=
  ((s.makeRoom r accepted.1).append r).syncBehind r accepted.2

/-- The call comes to `abort`, which is a step of its own. -/
def behindLock (r : Record) : Logger :=
  if r.priority = LogLevel.kFatal.value then { s with dying := s.dying + 1 } else s

/-- `Log` up to its unlock. -/
def log (r : Record) (accepted : ℕ × ℕ) : Logger :=
  if r.fits then (s.locked r accepted).behindLock r else s

/-- `set_log_file_path`; `open` returns `none` if it fails. -/
def setLogFilePath (path : List Char) (logFd : Option ℕ) : Logger × Bool :=
  if path = [] then (s, true)
  else match logFd with
    | none => (s, false)
    | some logFd =>
      let closed := s.closed ++ if s.logFd ≠ STDERR_FILENO then [s.logFd] else []
      ({ s with logFd, closed, opened := s.opened ++ [logFd] }, true)

def closeLogFd : Logger :=
  if s.logFd ≠ STDERR_FILENO then
    { s with closed := s.closed ++ [s.logFd], logFd := STDERR_FILENO }
  else s

/-- `~Logger` -/
def destroy (accepted : ℕ) : Logger :=
  let s := { s with destroyed := true }
  if 0 < s.logFd then (if s.logBuf ≠ [] then s.fsync accepted else s).closeLogFd else s

end

/-- What any thread may do. Before it takes the lock, `Log` works on its own variables, so that a step is a
call up to the unlock; `abort` comes behind it. -/
inductive Act where
  | macroLog (m : Macro) (site : Site) (text : List Char) (stamp : Stamp) (accepted : ℕ × ℕ)
  /-- `CHECK`, with the texts of its condition and of its message. -/
  | check (condition : Bool) (conditionText message : List Char) (site : Site) (stamp : Stamp)
      (accepted : ℕ × ℕ)
  | checkNotNull (isNull : Bool) (names : List Char) (site : Site) (stamp : Stamp) (accepted : ℕ × ℕ)
  | setLogLevel (level : LogLevel)
  | setLogCached (cached : Bool)
  | setLogFilePath (path : List Char) (logFd : Option ℕ)
  | forceSync (accepted : ℕ)
  | abort
  | destroy (accepted : ℕ)

/-- The call of `Log` that an action makes. -/
def Act.call (level : LogLevel) : Act → Option (Record × (ℕ × ℕ))
  | .macroLog m site text stamp accepted =>
    if m.filtered && m.level.value < level.value then none
    else some (m.record site text stamp, accepted)
  | .check condition conditionText message site stamp accepted =>
    if condition then none
    else
      let text := "Check failed: ".toList ++ conditionText ++ ", ".toList ++ message
      some (Macro.logFatal.record site text stamp, accepted)
  | .checkNotNull isNull names site stamp accepted =>
    if isNull then some (Macro.logFatal.record site names stamp, accepted) else none
  | _ => none

def exec (s : Logger) : Act → Logger
  | .setLogLevel level => { s with logLevel := level }
  | .setLogCached cached => { s with logCached := cached }
  | .setLogFilePath path logFd => (s.setLogFilePath path logFd).1
  | .forceSync accepted => s.fsync accepted
  | .abort => { s with aborted := true }
  | .destroy accepted => s.destroy accepted
  | act => (act.call s.logLevel).elim s fun r => s.log r.1 r.2

/-- A thread is about to abort the process, or what the call does is defined. -/
def enabled (s : Logger) : Act → Bool
  | .abort => 0 < s.dying
  | act => (act.call s.logLevel).all fun r => r.1.defined

/-- A process that has been aborted does nothing more, and nothing is logged behind the destructor. -/
def step (s : Logger) (act : Act) : Option Logger :=
  if s.aborted || s.destroyed || !s.enabled act then none else some (s.exec act)

def run : Logger → List Act → Option Logger := Run.run step

/-! ### What should be logged -/

/-- `log_level` and `log_cached_`. -/
structure Settings where
  level : LogLevel := .kInfo
  cached : Bool := false

def settings (s : Logger) : Settings := ⟨s.logLevel, s.logCached⟩

/-- The settings behind an action. -/
def Act.settingsAfter (c : Settings) : Act → Settings
  | .setLogLevel level => { c with level }
  | .setLogCached cached => { c with cached }
  | _ => c

/-- A record, with `log_cached_` at the time of its call. -/
structure Logged where
  record : Record
  cached : Bool

/-- The record that an action leaves in the log. -/
def Act.accepts (c : Settings) (act : Act) : Option Logged :=
  (((act.call c.level).map Prod.fst).filter Record.fits).map fun r => ⟨r, c.cached⟩

/-- **What should be logged**: the records of the calls that `log_level` lets through and that are not too
long. -/
def accepted : Settings → List Act → List Logged
  | _, [] => []
  | c, act :: acts => (act.accepts c).toList ++ accepted (act.settingsAfter c) acts

def Logged.line (l : Logged) : List Char := l.record.line

def lines (ls : List Logged) : List Char := ls.flatMap Logged.line

variable {s s' : Logger} {act : Act} {acts : List Act} {r : Record} {l : Logged} {c : Settings}

theorem lines_append (ls ls' : List Logged) : lines (ls ++ ls') = lines ls ++ lines ls' :=
  List.flatMap_append

theorem lines_flatten (batches : List (List Logged)) :
    lines batches.flatten = (batches.map lines).flatten := by
  induction batches with
  | nil => rfl
  | cons b bs ih => rw [List.flatten_cons, lines_append, ih, List.map_cons, List.flatten_cons]

@[simp] theorem lines_singleton : lines [l] = l.record.line := by simp [lines, Logged.line]

theorem accepted_concat : ∀ (acts : List Act) (c : Settings),
    accepted c (acts ++ [act]) =
      accepted c acts ++ (act.accepts (acts.foldl Act.settingsAfter c)).toList
  | [], c => by simp [accepted]
  | a :: acts, c => by
    have ih := accepted_concat acts (a.settingsAfter c)
    rw [List.cons_append, accepted, ih, accepted, List.append_assoc, List.foldl_cons]

/-- `sprintf` stays inside of `log_buf_`, wherever the line starts. -/
def Record.Short (r : Record) : Prop := r.header.length ≤ 64639

instance (r : Record) : Decidable r.Short := inferInstanceAs (Decidable (_ ≤ _))

/-- `batches` have been handed to `write`, and `rest` is in the buffer. -/
structure Holds (s : Logger) (batches : List (List Logged)) (rest : List Logged) : Prop where
  writes : s.writes.map Write.data = batches.map lines
  logBuf : s.logBuf = lines rest
  length : s.logBuf.length ≤ kLogBuffSize
  overrun : s.overrun = false

variable {batches : List (List Logged)} {rest : List Logged}

theorem Holds.frame (h : s.Holds batches rest) (hw : s'.writes = s.writes) (hb : s'.logBuf = s.logBuf)
    (ho : s'.overrun = s.overrun) : s'.Holds batches rest :=
  ⟨hw ▸ h.writes, hb ▸ h.logBuf, hb ▸ h.length, ho ▸ h.overrun⟩

theorem Holds.fsync (h : s.Holds batches rest) (accepted : ℕ) :
    (s.fsync accepted).Holds (batches ++ [rest]) [] where
  writes := by simp [Logger.fsync, h.writes, h.logBuf]
  logBuf := rfl
  length := Nat.zero_le _
  overrun := h.overrun

theorem length_line (r : Record) : r.line.length = r.header.length + r.text.length + 1 := by
  simp [Record.line, Nat.add_assoc]

theorem fits_iff :
    r.fits = true ↔ r.priority < LogLevel.kNumLogLevels.value ∧ r.text.length ≤ 896 := by
  have hsize : (kLogLineMaxSize : ℤ) = 1024 := rfl
  rw [Record.fits, Record.textLen, hsize, Bool.and_eq_true, decide_eq_true_iff, decide_eq_true_iff]
  refine and_congr_right fun _ => ?_
  constructor <;> intro h <;> omega

/-- The line goes behind the others if the buffer and the text have at most 896 bytes. -/
theorem Holds.append (h : s.Holds batches rest) (hr : r.Short)
    (hroom : s.logBuf.length + r.text.length ≤ 896) (cached : Bool) :
    (s.append r).Holds batches (rest ++ [⟨r, cached⟩]) := by
  have hheader : r.header.length ≤ 64639 := hr
  have hline : s.logBuf.length + r.line.length ≤ kLogBuffSize := by
    rw [length_line]
    unfold kLogBuffSize
    omega
  refine ⟨h.writes, ?_, ?_, ?_⟩
  · show s.logBuf ++ r.line = _
    rw [h.logBuf, lines_append, lines_singleton]
  · show (s.logBuf ++ r.line).length ≤ kLogBuffSize
    rwa [List.length_append]
  · show (s.overrun || kLogBuffSize < s.logBuf.length + r.line.length) = false
    simp [h.overrun, hline]

/-- All but the buffer, its history and the calls that are about to abort is the same. -/
structure SameSettings (s s' : Logger) : Prop where
  logLevel : s'.logLevel = s.logLevel
  logFd : s'.logFd = s.logFd
  logCached : s'.logCached = s.logCached
  aborted : s'.aborted = s.aborted
  destroyed : s'.destroyed = s.destroyed
  opened : s'.opened = s.opened
  closed : s'.closed = s.closed

theorem SameSettings.trans {s'' : Logger} (h : SameSettings s s') (h' : SameSettings s' s'') :
    SameSettings s s'' :=
  ⟨h'.logLevel.trans h.logLevel, h'.logFd.trans h.logFd, h'.logCached.trans h.logCached,
    h'.aborted.trans h.aborted, h'.destroyed.trans h.destroyed, h'.opened.trans h.opened,
    h'.closed.trans h.closed⟩

theorem sameSettings_makeRoom (s : Logger) (r : Record) (accepted : ℕ) :
    SameSettings s (s.makeRoom r accepted) := by
  unfold Logger.makeRoom
  split_ifs <;> exact ⟨rfl, rfl, rfl, rfl, rfl, rfl, rfl⟩

theorem sameSettings_append (s : Logger) (r : Record) : SameSettings s (s.append r) :=
  ⟨rfl, rfl, rfl, rfl, rfl, rfl, rfl⟩

theorem sameSettings_syncBehind (s : Logger) (r : Record) (accepted : ℕ) :
    SameSettings s (s.syncBehind r accepted) := by
  unfold Logger.syncBehind
  split_ifs <;> exact ⟨rfl, rfl, rfl, rfl, rfl, rfl, rfl⟩

theorem sameSettings_behindLock (s : Logger) (r : Record) : SameSettings s (s.behindLock r) := by
  unfold Logger.behindLock
  split_ifs <;> exact ⟨rfl, rfl, rfl, rfl, rfl, rfl, rfl⟩

/-- `Log` changes no setting. -/
theorem sameSettings_log (s : Logger) (r : Record) (accepted : ℕ × ℕ) :
    SameSettings s (s.log r accepted) := by
  unfold Logger.log
  split_ifs
  · exact (((sameSettings_makeRoom s r accepted.1).trans (sameSettings_append _ r)).trans
      (sameSettings_syncBehind _ r accepted.2)).trans (sameSettings_behindLock _ r)
  · exact ⟨rfl, rfl, rfl, rfl, rfl, rfl, rfl⟩

@[simp] theorem dying_makeRoom (s : Logger) (r : Record) (accepted : ℕ) :
    (s.makeRoom r accepted).dying = s.dying := by
  unfold Logger.makeRoom
  split_ifs <;> rfl

@[simp] theorem dying_syncBehind (s : Logger) (r : Record) (accepted : ℕ) :
    (s.syncBehind r accepted).dying = s.dying := by
  unfold Logger.syncBehind
  split_ifs <;> rfl

@[simp] theorem dying_append (s : Logger) (r : Record) : (s.append r).dying = s.dying := rfl

/-- `Log` comes to `abort` behind a fatal record that it has logged. -/
theorem dying_log (s : Logger) (r : Record) (accepted : ℕ × ℕ) : 0 < (s.log r accepted).dying ↔
    0 < s.dying ∨ r.fits = true ∧ r.priority = LogLevel.kFatal.value := by
  unfold Logger.log Logger.behindLock Logger.locked
  split_ifs with hfits hp
  · simp [hfits, hp]
  · simp [hp]
  · simp [hfits]

theorem Holds.makeRoom (h : s.Holds batches rest) (htext : r.text.length ≤ 896) (accepted : ℕ) :
    ∃ batches' rest', (s.makeRoom r accepted).Holds batches' rest' ∧
      batches'.flatten ++ rest' = batches.flatten ++ rest ∧ rest' ⊆ rest ∧
      (s.makeRoom r accepted).logBuf.length + r.text.length ≤ 896 := by
  unfold Logger.makeRoom
  split_ifs with hfull
  · exact ⟨_, _, h.fsync accepted, by simp, List.nil_subset _, by simpa [Logger.fsync] using htext⟩
  · rw [Record.textLen] at hfull
    unfold kLogLineMaxSize at hfull
    exact ⟨_, _, h, rfl, List.Subset.refl _, by omega⟩

theorem Holds.behindLock (h : s.Holds batches rest) (r : Record) :
    (s.behindLock r).Holds batches rest := by
  unfold Logger.behindLock
  split_ifs
  · exact h.frame rfl rfl rfl
  · exact h

/-- **A call of `Log`** whose text fits leaves the record behind the others, and in the buffer only if it
may wait. -/
theorem Holds.log (h : s.Holds batches rest) (hr : r.Short) (hfits : r.fits = true)
    (accepted : ℕ × ℕ) : ∃ batches' rest', (s.log r accepted).Holds batches' rest' ∧
      batches'.flatten ++ rest' = batches.flatten ++ rest ++ [⟨r, s.logCached⟩] ∧
      (rest' = [] ∨ s.logCached = true ∧ r.needSync = false ∧
        rest' ⊆ rest ++ [⟨r, s.logCached⟩]) := by
  obtain ⟨b₁, rest₁, h₁, hall₁, hsub₁, hroom⟩ := h.makeRoom (fits_iff.mp hfits).2 accepted.1
  have h₂ := h₁.append hr hroom s.logCached
  have hcached : ((s.makeRoom r accepted.1).append r).logCached = s.logCached :=
    ((sameSettings_makeRoom s r accepted.1).trans (sameSettings_append _ r)).logCached
  have hall₂ : b₁.flatten ++ (rest₁ ++ [⟨r, s.logCached⟩]) =
      batches.flatten ++ rest ++ [⟨r, s.logCached⟩] := by
    rw [← List.append_assoc, hall₁]
  rw [Logger.log, if_pos hfits]
  unfold Logger.locked Logger.syncBehind
  split_ifs with hsync
  · have h₃ := h₂.fsync accepted.2
    exact ⟨_, _, h₃.behindLock r, by simpa using hall₂, Or.inl rfl⟩
  · simp only [Bool.or_eq_true, Bool.not_eq_true', not_or, Bool.not_eq_false, Bool.not_eq_true,
      hcached] at hsync
    refine ⟨_, _, h₂.behindLock r, hall₂, Or.inr ⟨hsync.1, hsync.2, ?_⟩⟩
    exact List.append_subset.mpr ⟨List.Subset.trans hsub₁ (List.subset_append_left _ _),
      List.subset_append_right _ _⟩

/-- **The invariant**, with what should be logged so far: what is still in the buffer has come without
`need_sync`, while `log_cached_` was on. -/
def Inv (s : Logger) (ls : List Logged) : Prop :=
  ∃ batches rest, ls = batches.flatten ++ rest ∧ s.Holds batches rest ∧
    (∀ l ∈ rest, l.cached = true ∧ l.record.needSync = false) ∧
    (s.destroyed = true ∧ s.logFd ≠ 0 → rest = [])

theorem eq_logFatal {m : Macro} (h : m.level.value = LogLevel.kFatal.value) : m = .logFatal := by
  revert h
  cases m <;> decide

/-- A fatal call is made at every `log_level`, and is synchronous. -/
theorem call_fatal {p : Record × (ℕ × ℕ)} {level : LogLevel} (h : act.call level = some p)
    (hp : p.1.priority = LogLevel.kFatal.value) :
    p.1.needSync = true ∧ ∀ level', act.call level' = some p := by
  cases act with
  | macroLog m site text stamp accepted =>
    simp only [Act.call] at h
    split_ifs at h
    rw [← Option.some.inj h] at hp ⊢
    obtain rfl : m = .logFatal := eq_logFatal hp
    exact ⟨rfl, fun _ => rfl⟩
  | check condition conditionText message site stamp accepted =>
    have hcall (level' : LogLevel) : (Act.check condition conditionText message site stamp
      accepted).call level' = some p := h
    simp only [Act.call] at h
    split_ifs at h
    exact ⟨Option.some.inj h ▸ rfl, hcall⟩
  | checkNotNull isNull names site stamp accepted =>
    have hcall (level' : LogLevel) : (Act.checkNotNull isNull names site stamp accepted).call level' =
      some p := h
    simp only [Act.call] at h
    split_ifs at h
    exact ⟨Option.some.inj h ▸ rfl, hcall⟩
  | _ => cases h

theorem Inv.frame {ls : List Logged} (h : Inv s ls) (hw : s'.writes = s.writes)
    (hb : s'.logBuf = s.logBuf) (ho : s'.overrun = s.overrun) (hd : s'.destroyed = false) :
    Inv s' ls := by
  obtain ⟨batches, rest, hls, hh, hlazy, -⟩ := h
  refine ⟨batches, rest, hls, hh.frame hw hb ho, hlazy, fun hs => ?_⟩
  rw [hd] at hs
  exact absurd hs.1 (by simp)

/-- Everything is handed on. -/
theorem Inv.fsync {ls : List Logged} (h : Inv s ls) (accepted : ℕ) : Inv (s.fsync accepted) ls := by
  obtain ⟨batches, rest, hls, hh, -, -⟩ := h
  exact ⟨_, _, by simpa using hls, hh.fsync accepted, by simp, fun _ => rfl⟩

theorem lines_eq_nil {ls : List Logged} (h : lines ls = []) : ls = [] := by
  cases ls with
  | nil => rfl
  | cons l ls => simp [lines, Logged.line, Record.line] at h

theorem Holds.closeLogFd (h : s.Holds batches rest) : s.closeLogFd.Holds batches rest := by
  unfold Logger.closeLogFd
  split_ifs
  · exact h.frame rfl rfl rfl
  · exact h

/-- The destructor empties the buffer, unless `log_fd_` is 0. -/
theorem Inv.destroy {ls : List Logged} (h : Inv s ls) (accepted : ℕ) :
    Inv (s.destroy accepted) ls := by
  obtain ⟨batches, rest, hls, hh, hlazy, -⟩ := h
  have hdestroyed : Holds { s with destroyed := true } batches rest := hh.frame rfl rfl rfl
  unfold Logger.destroy
  dsimp only
  split_ifs with hpos hne
  · exact ⟨_, _, by simpa using hls, (hdestroyed.fsync accepted).closeLogFd, by simp, fun _ => rfl⟩
  · have hrest : rest = [] := by
      refine lines_eq_nil ?_
      rw [← hh.logBuf]
      exact not_not.mp hne
    exact ⟨_, _, hls, hdestroyed.closeLogFd, hlazy, fun _ => hrest⟩
  · have hzero : s.logFd = 0 := by omega
    exact ⟨batches, rest, hls, hdestroyed, hlazy, fun hs => absurd hzero hs.2⟩

/-- A call of `Log`, if the action makes one. -/
theorem Inv.call {ls : List Logged} (h : Inv s ls) (hd : s.destroyed = false)
    (hshort : ∀ l, act.accepts s.settings = some l → l.record.Short) :
    Inv ((act.call s.logLevel).elim s fun r => s.log r.1 r.2)
      (ls ++ (act.accepts s.settings).toList) := by
  cases hcall : act.call s.logLevel with
  | none => simpa [Act.accepts, Logger.settings, hcall] using h
  | some p =>
    have haccepts : act.accepts s.settings = if p.1.fits then some ⟨p.1, s.logCached⟩ else none := by
      by_cases hfits : p.1.fits = true <;> simp [Act.accepts, Logger.settings, hcall, Option.filter, hfits]
    rw [haccepts] at hshort ⊢
    rw [Option.elim_some]
    by_cases hfits : p.1.fits = true
    · rw [if_pos hfits] at hshort ⊢
      obtain ⟨batches, rest, hls, hh, hlazy, -⟩ := h
      obtain ⟨batches', rest', hh', hall, hrest⟩ := hh.log (hshort _ rfl) hfits p.2
      refine ⟨batches', rest', ?_, hh', ?_, ?_⟩
      · rw [hall, hls]
        rfl
      · intro l hl
        rcases hrest with rfl | ⟨hcached, hsync, hsub⟩
        · exact absurd hl List.not_mem_nil
        · rcases List.mem_append.mp (hsub hl) with hl | hl
          · exact hlazy l hl
          · exact List.mem_singleton.mp hl ▸ ⟨hcached, hsync⟩
      · rw [(sameSettings_log s p.1 p.2).destroyed]
        exact fun hs => absurd (hd.symm.trans hs.1) (by simp)
    · rw [if_neg hfits] at ⊢
      rw [Logger.log, if_neg hfits, Option.toList_none, List.append_nil]
      exact h

theorem step_eq_some : step s act = some s' ↔
    s.aborted = false ∧ s.destroyed = false ∧ s.enabled act = true ∧ s.exec act = s' := by
  simp only [Logger.step, Option.ite_none_left_eq_some, Option.some.injEq, Bool.or_eq_true, not_or,
    Bool.not_eq_true, Bool.not_eq_false, Bool.not_eq_true', and_assoc]

theorem setLogFilePath_cases (s : Logger) (path : List Char) (logFd : Option ℕ) :
    (s.setLogFilePath path logFd).1 = s ∨ ∃ fd, (s.setLogFilePath path logFd).1 =
      { s with
        logFd := fd
        closed := s.closed ++ if s.logFd ≠ STDERR_FILENO then [s.logFd] else []
        opened := s.opened ++ [fd] } := by
  by_cases hpath : path = []
  · exact Or.inl (by simp [Logger.setLogFilePath, hpath])
  · cases logFd with
    | none => exact Or.inl (by simp [Logger.setLogFilePath, hpath])
    | some fd => exact Or.inr ⟨fd, by simp only [Logger.setLogFilePath, if_neg hpath]⟩

/-- **A step keeps the invariant.** -/
theorem Inv.step {ls : List Logged} (h : Inv s ls) (hs : step s act = some s')
    (hshort : ∀ l, act.accepts s.settings = some l → l.record.Short) :
    Inv s' (ls ++ (act.accepts s.settings).toList) := by
  obtain ⟨-, hd, -, rfl⟩ := step_eq_some.mp hs
  have hquiet (haccepts : act.accepts s.settings = none) (h : Inv (s.exec act) ls) :
      Inv (s.exec act) (ls ++ (act.accepts s.settings).toList) := by
    rwa [haccepts, Option.toList_none, List.append_nil]
  cases act with
  | setLogLevel level => exact hquiet rfl (h.frame rfl rfl rfl hd)
  | setLogCached on => exact hquiet rfl (h.frame rfl rfl rfl hd)
  | setLogFilePath path logFd =>
    refine hquiet rfl ?_
    show Inv (s.setLogFilePath path logFd).1 ls
    rcases setLogFilePath_cases s path logFd with heq | ⟨fd, heq⟩ <;> rw [heq]
    · exact h
    · exact h.frame rfl rfl rfl hd
  | forceSync accepted => exact hquiet rfl (h.fsync accepted)
  | abort => exact hquiet rfl (h.frame rfl rfl rfl hd)
  | destroy accepted => exact hquiet rfl (h.destroy accepted)
  | macroLog | check | checkNotNull => exact h.call hd hshort

theorem settings_destroy (s : Logger) (accepted : ℕ) :
    (s.destroy accepted).settings = s.settings ∧ (s.destroy accepted).dying = s.dying ∧
      (s.destroy accepted).aborted = s.aborted := by
  unfold Logger.destroy Logger.closeLogFd
  dsimp only
  split_ifs <;> exact ⟨rfl, rfl, rfl⟩

theorem settings_exec (s : Logger) (act : Act) :
    (s.exec act).settings = act.settingsAfter s.settings := by
  have hcall : ((act.call s.logLevel).elim s fun r => s.log r.1 r.2).settings = s.settings := by
    cases act.call s.logLevel with
    | none => rfl
    | some p =>
      have hsame := sameSettings_log s p.1 p.2
      rw [Option.elim_some, Logger.settings, hsame.logLevel, hsame.logCached]
      rfl
  cases act with
  | setLogFilePath path logFd =>
    show (s.setLogFilePath path logFd).1.settings = s.settings
    rcases setLogFilePath_cases s path logFd with heq | ⟨fd, heq⟩ <;> rw [heq]
    rfl
  | destroy accepted => exact (settings_destroy s accepted).1
  | macroLog | check | checkNotNull => exact hcall
  | _ => rfl

/-- Only a fatal record that is logged is about to end the process. -/
theorem dying_exec (s : Logger) (act : Act) : 0 < (s.exec act).dying ↔ 0 < s.dying ∨
    ∃ l, act.accepts s.settings = some l ∧ l.record.priority = LogLevel.kFatal.value := by
  have hcall : 0 < ((act.call s.logLevel).elim s fun r => s.log r.1 r.2).dying ↔ 0 < s.dying ∨
      ∃ l, act.accepts s.settings = some l ∧ l.record.priority = LogLevel.kFatal.value := by
    unfold Act.accepts Logger.settings
    cases act.call s.logLevel with
    | none => simp
    | some p =>
      rw [Option.elim_some, dying_log]
      simp [Option.filter_eq_some_iff, and_assoc]
  have hnone (h : act.accepts s.settings = none) (ha : (s.exec act).dying = s.dying) :
      0 < (s.exec act).dying ↔ 0 < s.dying ∨
        ∃ l, act.accepts s.settings = some l ∧ l.record.priority = LogLevel.kFatal.value := by
    simp [h, ha]
  cases act with
  | setLogFilePath path logFd =>
    refine hnone rfl ?_
    show (s.setLogFilePath path logFd).1.dying = s.dying
    rcases setLogFilePath_cases s path logFd with heq | ⟨fd, heq⟩ <;> rw [heq]
  | destroy accepted => exact hnone rfl (settings_destroy s accepted).2.1
  | macroLog | check | checkNotNull => exact hcall
  | _ => exact hnone rfl rfl

/-! ### Runs -/

theorem run_settings (hrun : run new acts = some s) :
    s.settings = acts.foldl Act.settingsAfter {} := by
  refine Run.run_inv_history (P := fun acts s => s.settings = acts.foldl Act.settingsAfter {}) rfl
    (fun acts m act s' hs ih => ?_) hrun
  obtain ⟨-, -, -, rfl⟩ := step_eq_some.mp hs
  rw [settings_exec, ih, List.foldl_append]
  rfl

theorem run_inv (hrun : run new acts = some s) (hshort : ∀ l ∈ accepted {} acts, l.record.Short) :
    Inv s (accepted {} acts) := by
  have hinv : run new acts = some s ∧ ((∀ l ∈ accepted {} acts, l.record.Short) →
      Inv s (accepted {} acts)) := by
    refine Run.run_inv_history (P := fun acts s => run new acts = some s ∧
      ((∀ l ∈ accepted {} acts, l.record.Short) → Inv s (accepted {} acts))) ⟨rfl, fun _ => ?_⟩
      (fun acts m act s' hs ih => ⟨Run.run_concat.mpr ⟨m, ih.1, hs⟩, fun hshort => ?_⟩) hrun
    · exact ⟨[], [], rfl, ⟨rfl, rfl, Nat.zero_le _, rfl⟩, by simp, fun _ => rfl⟩
    · rw [accepted_concat, ← run_settings ih.1] at hshort ⊢
      exact (ih.2 fun l hl => hshort l (List.mem_append_left _ hl)).step hs fun l hl =>
        hshort l (List.mem_append_right _ (by simp [hl]))
  exact hinv.2 hshort

/-- A fatal record is synchronous. -/
theorem needSync_of_accepted : ∀ {acts : List Act} {c : Settings}, l ∈ accepted c acts →
    l.record.priority = LogLevel.kFatal.value → l.record.needSync = true
  | [], _, hl, _ => absurd hl List.not_mem_nil
  | act :: acts, c, hl, hp => by
    rcases List.mem_append.mp hl with hl | hl
    · obtain ⟨r, hr, rfl⟩ := Option.map_eq_some_iff.mp (Option.mem_toList.mp hl)
      obtain ⟨p, hcall, rfl⟩ := Option.map_eq_some_iff.mp (Option.filter_eq_some_iff.mp hr).1
      exact (call_fatal hcall hp).1
    · exact needSync_of_accepted hl hp

/-- **No line is lost, torn or put before another.** In every run whose records have short headers, the
records that should be logged are the batches that have been handed to `write`, line by line, and then
those in the buffer. Each of these has been logged while `log_cached_` was on and without `need_sync`, so
that none of them is fatal; behind the destructor, unless `log_fd_` is 0, there are none. `log_buf_` is
never overrun. -/
theorem lines_logged (hrun : run new acts = some s)
    (hshort : ∀ l ∈ accepted {} acts, l.record.Short) :
    s.overrun = false ∧ s.logBuf.length ≤ kLogBuffSize ∧
      ∃ (batches : List (List Logged)) (rest : List Logged),
        accepted {} acts = batches.flatten ++ rest ∧
        s.writes.map Write.data = batches.map lines ∧ s.logBuf = lines rest ∧
        (∀ l ∈ rest, l.cached = true ∧ l.record.needSync = false ∧
          l.record.priority ≠ LogLevel.kFatal.value) ∧
        (s.destroyed = true ∧ s.logFd ≠ 0 → rest = []) := by
  obtain ⟨batches, rest, hls, hh, hlazy, hdead⟩ := run_inv hrun hshort
  refine ⟨hh.overrun, hh.length, batches, rest, hls, hh.writes, hh.logBuf, fun l hl => ?_, hdead⟩
  obtain ⟨hcached, hsync⟩ := hlazy l hl
  refine ⟨hcached, hsync, fun hp => ?_⟩
  have hneed := needSync_of_accepted (hls ▸ List.mem_append_right _ hl) hp
  exact absurd (hsync.symm.trans hneed) (by simp)

def noon : Stamp := ⟨115, 3, 1, 12, 0, 0, 7, 42⟩

/-- Two lines are cached and go to the second file, with the failed check behind them. Another thread
caches a line before the process is aborted. -/
def cachedThenFatal : List Act :=
  [.setLogCached true, .setLogFilePath "a".toList (some 5),
    .macroLog .logInfo ⟨"net/a.cpp".toList, "F".toList, 1⟩ "x".toList noon (9, 9),
    .macroLog .logInfo ⟨"net/a.cpp".toList, "F".toList, 2⟩ "y".toList noon (9, 9),
    .setLogFilePath "b".toList (some 6),
    .check false "p".toList "q".toList ⟨"net/a.cpp".toList, "F".toList, 3⟩ noon (9, 200),
    .macroLog .logInfo ⟨"net/a.cpp".toList, "G".toList, 4⟩ "z".toList noon (9, 9), .abort]

theorem lines_logged_cached : ∃ s, run new cachedThenFatal = some s ∧ s.aborted = true ∧
    s.overrun = false ∧ s.logBuf ≠ [] ∧
    (s.writes.map Write.data).flatten ++ s.logBuf = lines (accepted {} cachedThenFatal) := by
  have heval : ((run new cachedThenFatal).map fun s => (s.aborted, s.logBuf.isEmpty)) =
      some (true, false) := by
    decide +kernel
  obtain ⟨s, hs, hfacts⟩ := Option.map_eq_some_iff.mp heval
  simp only [Prod.mk.injEq] at hfacts
  obtain ⟨hoverrun, -, batches, rest, hls, hwrites, hbuf, -⟩ := lines_logged hs (by decide +kernel)
  refine ⟨s, hs, hfacts.1, hoverrun, List.isEmpty_eq_false_iff.mp hfacts.2, ?_⟩
  rw [hwrites, hbuf, hls, lines_append, lines_flatten]

/-- What has come to the files. -/
def output (s : Logger) : List Char := s.writes.flatMap fun w => w.data.take w.accepted

theorem splitOn_lines : ∀ {ls : List Logged}, (∀ l ∈ ls, '\n' ∉ l.record.header ++ l.record.text) →
    (lines ls).splitOn '\n' = ls.map (fun l => l.record.header ++ l.record.text) ++ [[]]
  | [], _ => rfl
  | l :: ls, h => by
    have ih := splitOn_lines fun x hx => h x (List.mem_cons_of_mem _ hx)
    have hcons : lines (l :: ls) = (l.record.header ++ l.record.text) ++ '\n' :: lines ls := by
      simp [lines, Logged.line, Record.line]
    rw [hcons, List.splitOn_append_cons_self_of_not_mem (h l List.mem_cons_self), ih]
    rfl

/-- **The log reads back**, if every `write` takes all it is given: cut at the newlines, it is the lines
of the records that should be logged. -/
theorem reads_back (hrun : run new acts = some s) (hshort : ∀ l ∈ accepted {} acts, l.record.Short)
    (hline : ∀ l ∈ accepted {} acts, '\n' ∉ l.record.header ++ l.record.text)
    (hwhole : ∀ w ∈ s.writes, w.data.length ≤ w.accepted) :
    (s.output ++ s.logBuf).splitOn '\n' =
      (accepted {} acts).map (fun l => l.record.header ++ l.record.text) ++ [[]] := by
  obtain ⟨-, -, batches, rest, hls, hwrites, hbuf, -⟩ := lines_logged hrun hshort
  have houtput : s.output = lines batches.flatten := by
    have htaken : s.output = (s.writes.map Write.data).flatten :=
      List.flatMap_congr fun w hw => List.take_of_length_le (hwhole w hw)
    rw [htaken, hwrites, lines_flatten]
  rw [houtput, hbuf, ← lines_append, ← hls]
  exact splitOn_lines hline

theorem reads_back_cached : ∃ s, run new cachedThenFatal = some s ∧
    (s.output ++ s.logBuf).splitOn '\n' =
      (accepted {} cachedThenFatal).map (fun l => l.record.header ++ l.record.text) ++ [[]] := by
  have heval : ((run new cachedThenFatal).map fun s =>
      decide (∀ w ∈ s.writes, w.data.length ≤ w.accepted)) = some true := by
    decide +kernel
  obtain ⟨s, hs, hwhole⟩ := Option.map_eq_some_iff.mp heval
  exact ⟨s, hs, reads_back hs (by decide +kernel) (by decide +kernel) (of_decide_eq_true hwhole)⟩

/-- A fatal record is logged at every setting, or at none. -/
theorem accepts_fatal (c : Settings) :
    (∃ l, act.accepts c = some l ∧ l.record.priority = LogLevel.kFatal.value) ↔
      ∃ p, act.call .kTrace = some p ∧ p.1.priority = LogLevel.kFatal.value ∧ p.1.text.length ≤ 896 := by
  have hfits {r : Record} (hr : r.priority = LogLevel.kFatal.value) :
      r.fits = true ↔ r.text.length ≤ 896 := by
    have hpriority : r.priority < LogLevel.kNumLogLevels.value := by
      rw [hr]
      decide
    exact fits_iff.trans (and_iff_right hpriority)
  constructor
  · rintro ⟨l, h, hl⟩
    obtain ⟨r, hr, rfl⟩ := Option.map_eq_some_iff.mp h
    obtain ⟨hcall, hfit⟩ := Option.filter_eq_some_iff.mp hr
    obtain ⟨p, hp, rfl⟩ := Option.map_eq_some_iff.mp hcall
    exact ⟨p, (call_fatal hp hl).2 _, hl, (hfits hl).mp hfit⟩
  · rintro ⟨p, hp, hl, hlen⟩
    refine ⟨⟨p.1, c.cached⟩, ?_, hl⟩
    rw [Act.accepts, (call_fatal hp hl).2 c.level, Option.map_some, Option.filter_some,
      if_pos ((hfits hl).mpr hlen), Option.map_some]

/-- **The calls that come to `abort`** are the fatal ones with a text that is not too long. -/
theorem dying_iff (hrun : run new acts = some s) : 0 < s.dying ↔
    ∃ act ∈ acts, ∃ p, act.call .kTrace = some p ∧ p.1.priority = LogLevel.kFatal.value ∧
      p.1.text.length ≤ 896 := by
  refine Run.run_inv_history (P := fun acts s => 0 < s.dying ↔
    ∃ act ∈ acts, ∃ p, act.call .kTrace = some p ∧ p.1.priority = LogLevel.kFatal.value ∧
      p.1.text.length ≤ 896) (by simp [new]) (fun acts m act s' hs ih => ?_) hrun
  obtain ⟨-, -, -, rfl⟩ := step_eq_some.mp hs
  rw [dying_exec, accepts_fatal, ih]
  simp only [List.mem_append, List.mem_singleton, or_and_right, exists_or, exists_eq_left]

/-- Nothing but `abort` aborts the process. -/
theorem aborted_exec (h : (s.exec act).aborted = true) : s.aborted = true ∨ act = .abort := by
  have hcall (h : ((act.call s.logLevel).elim s fun r => s.log r.1 r.2).aborted = true) :
      s.aborted = true := by
    cases hc : act.call s.logLevel with
    | none => rwa [hc] at h
    | some p => rwa [hc, Option.elim_some, (sameSettings_log s p.1 p.2).aborted] at h
  cases act with
  | abort => exact Or.inr rfl
  | setLogFilePath path logFd =>
    have heq : (s.setLogFilePath path logFd).1.aborted = true := h
    rcases setLogFilePath_cases s path logFd with hs | ⟨fd, hs⟩ <;> rw [hs] at heq <;>
      exact Or.inl heq
  | destroy accepted => exact Or.inl ((settings_destroy s accepted).2.2 ▸ h)
  | macroLog | check | checkNotNull => exact Or.inl (hcall h)
  | _ => exact Or.inl h

/-- **A failed check may be passed over.** In every run a call of `Log` comes to `abort` if and only if a
fatal call is made (by `LogFatal`, by a `CHECK` that fails, or for a null pointer) whose text is not longer
than 896 bytes. The process is aborted only then, and until it is, such a call can go on to `abort` at any
time. Otherwise it goes on as if the condition had held. -/
theorem fatal_aborts (hrun : run new acts = some s) :
    (0 < s.dying ↔ ∃ act ∈ acts, ∃ p, act.call .kTrace = some p ∧
      p.1.priority = LogLevel.kFatal.value ∧ p.1.text.length ≤ 896) ∧
    (s.aborted = true → 0 < s.dying) ∧
    (0 < s.dying → s.aborted = false → s.destroyed = false →
      ∃ s', step s .abort = some s' ∧ s'.aborted = true) := by
  refine ⟨dying_iff hrun, fun haborted => ?_, fun hdying ha hd => ?_⟩
  · refine Run.run_inv (P := fun s : Logger => s.aborted = true → 0 < s.dying)
      (fun s act s' hs ih h => ?_) hrun (by simp [new]) haborted
    obtain ⟨-, -, henabled, rfl⟩ := step_eq_some.mp hs
    refine (dying_exec s act).mpr (Or.inl ?_)
    rcases aborted_exec h with ha | rfl
    · exact ih ha
    · exact of_decide_eq_true henabled
  · exact ⟨_, step_eq_some.mpr ⟨ha, hd, decide_eq_true hdying, rfl⟩, rfl⟩

/-- A check that fails with a long message, and the next line. -/
def passedOver : List Act :=
  [.check false [] (List.replicate 881 'q') ⟨[], [], 1⟩ noon (0, 0),
    .macroLog .logWarn ⟨[], [], 2⟩ [] noon (0, 0)]

theorem fatal_aborts_long : ∃ s, run new passedOver = some s ∧ ¬ 0 < s.dying := by
  have heval : (run new passedOver).isSome = true := by decide +kernel
  obtain ⟨s, hs⟩ := Option.isSome_iff_exists.mp heval
  refine ⟨s, hs, (fatal_aborts hs).1.not.mpr ?_⟩
  rintro ⟨act, hact, p, hp, hpriority, hlen⟩
  simp only [passedOver, List.mem_cons, List.not_mem_nil, or_false] at hact
  rcases hact with rfl | rfl
  · rw [← Option.some.inj hp] at hlen
    have hlength : ("Check failed: ".toList ++ [] ++ ", ".toList ++
        List.replicate 881 'q').length = 897 := by
      decide +kernel
    dsimp only [Macro.record] at hlen
    rw [hlength] at hlen
    omega
  · rw [← Option.some.inj hp] at hpriority
    exact absurd hpriority (by decide)

/-- A descriptor of the log that is not standard error is closed, or in use. -/
def Closes (s : Logger) : Prop :=
  s.opened.filter (· ≠ STDERR_FILENO) = s.closed ++ [s.logFd].filter (· ≠ STDERR_FILENO)

theorem Closes.closeLogFd (h : s.Closes) : s.closeLogFd.Closes := by
  unfold Closes at h
  unfold Logger.closeLogFd
  split_ifs with hfd
  · simpa [Closes, hfd] using h
  · exact h

theorem Closes.setLogFilePath (h : s.Closes) (path : List Char) (logFd : Option ℕ) :
    (s.setLogFilePath path logFd).1.Closes := by
  rcases setLogFilePath_cases s path logFd with heq | ⟨fd, heq⟩ <;> rw [heq]
  · exact h
  · have hopened : s.opened.filter (· ≠ STDERR_FILENO) =
        s.closed ++ [s.logFd].filter (· ≠ STDERR_FILENO) := h
    unfold Closes
    dsimp only
    rw [List.filter_append, hopened]
    by_cases hfd : s.logFd = STDERR_FILENO <;> simp [hfd]

theorem Closes.exec (h : s.Closes) (act : Act) : (s.exec act).Closes := by
  have hcall : ((act.call s.logLevel).elim s fun r => s.log r.1 r.2).Closes := by
    cases act.call s.logLevel with
    | none => exact h
    | some p =>
      have hsame := sameSettings_log s p.1 p.2
      rw [Option.elim_some, Closes, hsame.opened, hsame.closed, hsame.logFd]
      exact h
  cases act with
  | setLogFilePath path logFd => exact h.setLogFilePath path logFd
  | destroy accepted =>
    show (s.destroy accepted).Closes
    unfold Logger.destroy
    dsimp only
    split_ifs
    · exact Closes.closeLogFd h
    · exact Closes.closeLogFd h
    · exact h
  | macroLog | check | checkNotNull => exact hcall
  | _ => exact h

/-- **The descriptors of the log** that are not standard error are closed once each, but for the one that
is in use. -/
theorem closed_once (hrun : run new acts = some s) :
    s.opened.filter (· ≠ STDERR_FILENO) = s.closed ++ [s.logFd].filter (· ≠ STDERR_FILENO) := by
  refine Run.run_inv (P := Closes) (fun s act s' hs h => ?_) hrun rfl
  obtain ⟨-, -, -, rfl⟩ := step_eq_some.mp hs
  exact h.exec act

end Logger

end MuduoCpp11.Base
