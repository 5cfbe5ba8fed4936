import HookEvents.Text.Letter
import HookEvents.Text.Lowercase
import HookEvents.Workspace.Project

/-!
Which lines of the log are shown. The settings give one level for all; a filter from the
environment may give levels to parts of the program.
-/
namespace HookEvents

open Text

namespace LogLevel

/-- How much a level shows: each shows the more urgent ones too. -/
def rank : LogLevel → Nat
  | .error => 1
  | .warn => 2
  | .info => 3
  | .debug => 4
  | .trace => 5

def names : List (String × Nat) :=
  [("off", 0), ("error", 1), ("warn", 2), ("info", 3), ("debug", 4), ("trace", 5)]

end LogLevel

def LogConfig.rank (config : LogConfig) : Nat :=
  (LogLevel.names.lookup (lowercase config.level)).getD LogLevel.info.rank

structure LogDirective where
  target : String := ""
  rank : Nat
  deriving DecidableEq, Repr, Inhabited

namespace LogDirective

def rank? (text : String) : Option Nat :=
  if text = "" then some LogLevel.error.rank
  else match LogLevel.names.lookup (lowerAscii text) with
    | some rank => some rank
    | none => (LogLevel.names.find? fun level => toString level.2 = text).map (·.2)

def startsWell (text : String) : Bool :=
  match text.toList with
  | c :: _ => c = '-' || c = ':' || c = '_' || isAlphanumeric c
  | [] => false

/-- A level, a part of the program, or both; a part alone shows everything. -/
def parse? (text : String) : Option LogDirective :=
  let text := trim text
  if !startsWell text then none
  else match splitFirst '=' text with
    | some (target, level) => (rank? level).map fun rank => { target, rank }
    | none =>
      match rank? text with
      | some rank => some { rank }
      | none => some { target := text, rank := LogLevel.trace.rank }

def ofFilter (filter : String) : List LogDirective :=
  ((split ',' filter).filter (· ≠ "")).filterMap parse?

def covers (directive : LogDirective) (entry : LogEntry) : Bool :=
  startsWith directive.target entry.target

/-- The directive with the longest fitting name decides, of equal ones the last. -/
def choose (entry : LogEntry) (directives : List LogDirective) : Option LogDirective :=
  (directives.filter (·.covers entry)).foldl (fun best directive =>
    match best with
    | some known =>
      if directive.target.length < known.target.length then some known else some directive
    | none => some directive) none

end LogDirective

def isShown (config : LogConfig) (filter : String) (entry : LogEntry) : Bool :=
  let directives := match LogDirective.ofFilter filter with
    | [] => [{ rank := config.rank }]
    | directives => directives
  match LogDirective.choose entry directives with
  | some directive => entry.level.rank ≤ directive.rank
  | none => false

end HookEvents
