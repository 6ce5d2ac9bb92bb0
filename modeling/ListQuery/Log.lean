/-!
# Log entries

What a component reports, with how severe it is.
-/

namespace ListQuery

inductive Severity where
  | debug | info | warning | error | critical
  deriving DecidableEq, Inhabited

namespace Severity

def all : List Severity := [debug, info, warning, error, critical]

def name : Severity → String
  | .debug => "DEBUG"
  | .info => "INFO"
  | .warning => "WARNING"
  | .error => "ERROR"
  | .critical => "CRITICAL"

def ofName? (s : String) : Option Severity := all.find? (·.name == s)

def rank : Severity → Nat
  | .debug => 0
  | .info => 1
  | .warning => 2
  | .error => 3
  | .critical => 4

end Severity

structure LogEntry where
  source : String
  severity : Severity
  message : String
  deriving DecidableEq

namespace LogEntry

def firstLine (e : LogEntry) : String := String.ofList (e.message.toList.takeWhile (· ≠ '\n'))

end LogEntry

def LogEntry.above (least : Severity) (entries : List LogEntry) : List LogEntry :=
  entries.filter fun e => least.rank ≤ e.severity.rank

end ListQuery
