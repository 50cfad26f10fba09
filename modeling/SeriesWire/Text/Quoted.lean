/-
Text in double quotes, the way it is shown inside a message.  Backslash, double
quote and whatever cannot be shown as it is are escaped, so the shown text stays
on one line and ends at its closing quote.
-/
import SeriesWire.Text.Printable

namespace SeriesWire
namespace Quoted

/-- A control character: the C0 and C1 ranges and DEL. -/
def isControl (c : Char) : Bool := c.toNat < 0x20 || (0x7f ≤ c.toNat && c.toNat < 0xa0)

/-- A character by the number of its code point. -/
def byNumber (c : Char) : List Char :=
  "\\u\x7b".toList ++ Nat.toDigits 16 c.toNat ++ ['\x7d']

def escape (c : Char) : List Char :=
  match c with
  | '\x00' => ['\\', '0']
  | '\t' => ['\\', 't']
  | '\n' => ['\\', 'n']
  | '\r' => ['\\', 'r']
  | '"' => ['\\', '"']
  | '\\' => ['\\', '\\']
  | c => if Printable.isPrintable c then [c] else byNumber c

def quote (s : String) : String := String.ofList ('"' :: s.toList.flatMap escape ++ ['"'])

end Quoted
end SeriesWire
