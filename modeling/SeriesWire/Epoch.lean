/-
The two clocks.  Rows carry microseconds since 2000-01-01 UTC, payloads and
result batches carry milliseconds since 1970-01-01 UTC.
-/
import SeriesWire.Bytes
import SeriesWire.Calendar

namespace SeriesWire
namespace Epoch

/-- The database epoch, 2000-01-01, in Unix milliseconds. -/
def unixMillis : Int := 946684800000

def instant : Instant := ⟨unixMillis * 1000⟩

/-- Unix milliseconds of a database time.  The microseconds are floored before
the shift, so the result is always in range and an instant before the epoch is
never rounded towards it. -/
def toUnixMillis (micros : Int64) : Int64 :=
  Int64.ofInt (micros.toInt / 1000 + unixMillis)

/-- `n` in 64 bits, `none` where it does not fit. -/
def checked? (n : Int) : Option Int64 :=
  if Bytes.FitsInt 8 n then some (Int64.ofInt n) else none

/-- Database time of Unix milliseconds, `none` where a step leaves the range. -/
def ofUnixMillis? (millis : Int64) : Option Int64 := do
  let sinceEpoch ← checked? (millis.toInt - unixMillis)
  checked? (sinceEpoch.toInt * 1000)

/-- `t` moved by `micros`, if that is still inside the calendar. -/
def add? (t : Instant) (micros : Int64) : Option Instant :=
  Instant.ofMicros? (t.micros + micros.toInt)

def toInstant? (micros : Int64) : Option Instant := add? instant micros

def ofMillis? (millis : Int64) : Option Instant := Instant.ofMicros? (millis.toInt * 1000)

end Epoch
end SeriesWire
