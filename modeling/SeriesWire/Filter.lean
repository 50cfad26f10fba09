/-
Log filters.  A directive gives the codec's own targets a level of their own,
everything else logs errors.
-/
import SeriesWire.Text.Blank
import SeriesWire.Text.Numeral

namespace SeriesWire

inductive LogLevel
  | off | error | warn | info | debug | trace
  deriving DecidableEq, Repr

namespace LogLevel

/-- From the quietest to the most talkative; a level's number is its place. -/
def all : List LogLevel := [off, error, warn, info, debug, trace]

def name : LogLevel → String
  | off => "off"
  | error => "error"
  | warn => "warn"
  | info => "info"
  | debug => "debug"
  | trace => "trace"

/-- The level numbered `s`. -/
def ofNumber? (s : String) : Option LogLevel := do
  all[← Numeral.ofText? all.length s]?

/-- The level called `s`, by its number or by its name in any case. -/
def ofText? (s : String) : Option LogLevel :=
  ofNumber? s <|> all.find? fun l => l.name == s.map Char.toLower

/-- The level that a directive ends with.  A directive without a level asks for
everything. -/
def ofDirective? (s : String) : Option LogLevel := if s.isEmpty then some trace else ofText? s

/-- The level that a setting asks for.  A comma may end the directive, and only
blanks may follow it. -/
def ofSetting? (s : String) : Option LogLevel :=
  let (directive, rest) := (Blank.trimEnd s.toList).span (· != ',')
  match rest with
  | [] => ofDirective? s
  | [_] => ofDirective? (String.ofList directive)
  | _ => none

/-- The filter that sets this level for the codec. -/
def filter (l : LogLevel) : String := "kwproto=" ++ l.name ++ ",error"

end LogLevel
end SeriesWire
