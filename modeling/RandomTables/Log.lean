-- SUMMARY: Log records: levels, the loggers that emit them, and the line format.
import RandomTables.Text.Case

/-!
# Log records

An evaluation leaves records behind. Each has a level and the name of the logger that emitted it;
records below a threshold are not shown.
-/
namespace RandomTables

inductive LogLevel where
  | debug | info | warning | error | critical
  deriving DecidableEq, Repr

/-- What a name means that cannot be a threshold, because it is the name of something else. -/
inductive NotALevel where
  | lineFormat
  | tableOfFormats
  deriving DecidableEq, Repr

namespace LogLevel

def name : LogLevel → String
  | .debug => "DEBUG"
  | .info => "INFO"
  | .warning => "WARNING"
  | .error => "ERROR"
  | .critical => "CRITICAL"

def rank : LogLevel → Nat
  | .debug => 10
  | .info => 20
  | .warning => 30
  | .error => 40
  | .critical => 50

/-- The threshold that a name sets, in any letter case. An unknown name sets that of warnings. -/
def ofName (name : String) : Except NotALevel LogLevel :=
  let upper := Text.asciiCapitals name
  if upper = "DEBUG" then .ok .debug
  else if upper = "INFO" then .ok .info
  else if upper = "ERROR" then .ok .error
  else if upper = "CRITICAL" ∨ upper = "FATAL" then .ok .critical
  else if upper = "BASIC_FORMAT" then .error .lineFormat
  else if upper = "_STYLES" then .error .tableOfFormats
  else .ok .warning

end LogLevel

/-- The name under which every logger stands. -/
def rootLogger : String := "rolltable"

/-- The full name of a logger. -/
def loggerName (name : String) : String :=
  if name = rootLogger ∨ name.startsWith (rootLogger ++ ".") then name
  else rootLogger ++ "." ++ name

/-- The part of the library that emits a record. -/
inductive Logger where
  | engine | evaluator | context | resolver | validation | conditionals | export
  deriving DecidableEq, Repr

def Logger.name : Logger → String
  | .engine => loggerName "engine"
  | .evaluator => loggerName "evaluator"
  | .context => loggerName "context"
  | .resolver => loggerName "resolver"
  | .validation => loggerName "validation"
  | .conditionals => loggerName "conditionals"
  | .export => loggerName "export"

structure LogRecord where
  level : LogLevel
  logger : Logger
  message : String
  deriving DecidableEq, Repr

namespace LogRecord

/-- Whether a record is shown at a threshold. -/
def reaches (threshold : LogLevel) (r : LogRecord) : Bool := threshold.rank ≤ r.level.rank

/-- A level's name in a column of eight characters. -/
def column (name : String) : String :=
  name ++ String.ofList (List.replicate (8 - name.length) ' ')

/-- A record as a line, without its time. -/
def line (r : LogRecord) : String :=
  "[" ++ column r.level.name ++ "] " ++ r.logger.name ++ ": " ++ r.message

end LogRecord

end RandomTables
