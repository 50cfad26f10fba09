/-
Compression of result batches.  A batch names its codec, and only that codec is
ever tried on its block.
-/
import SeriesWire.Block.Lz4
import SeriesWire.Block.Snappy
import SeriesWire.Error
import SeriesWire.Text.Blank

namespace SeriesWire

inductive Codec
  | snappy | lz4
  deriving DecidableEq, Repr, Inhabited

namespace Codec

def name : Codec → String
  | snappy => "snappy"
  | lz4 => "lz4"

/-- A block that restores to `src`.  Both formats can hold any bytes as they
are, and a reader accepts that form like any other. -/
def compress : Codec → Bytes → Bytes
  | snappy => Snappy.store
  | lz4 => Lz4.store

/-- The content of a block, if it is one and has at most `limit` bytes. -/
def decompress? : Codec → Nat → Bytes → Option Bytes
  | snappy => Snappy.decompress?
  | lz4 => Lz4.decompress?

/-- The content of a block that holds exactly `size` bytes. -/
def inflate (codec : Codec) (size : Nat) (block : Bytes) : Except WireError Bytes :=
  match codec.decompress? size block with
  | none => .error (.decompression codec.name .undecodable)
  | some content =>
    if content.length = size then .ok content
    else .error (.decompression codec.name (.size content.length size))

end Codec

/-- How the payload of a batch is laid out. -/
inductive Compression
  | plain
  | block (codec : Codec)
  deriving DecidableEq, Repr, Inhabited

namespace Compression

def snappy : Compression := block .snappy

def lz4 : Compression := block .lz4

def tag : Compression → Int
  | plain => 2
  | block .snappy => 3
  | block .lz4 => 4

def all : List Compression := [plain, snappy, lz4]

def ofTag (n : Int) : Except WireError Compression :=
  match all.find? (·.tag == n) with
  | some c => .ok c
  | none => .error (.malformed (.batch (.compression n)))

def name : Compression → String
  | plain => "none"
  | block codec => codec.name

/-- The layout named by `s`, blanks around it and the case of ASCII letters
aside. -/
def ofName? (s : String) : Option Compression :=
  all.find? fun c => c.name == (Blank.trim s).map Char.toLower

def codec? : Compression → Option Codec
  | plain => none
  | block codec => some codec

/-- The content of a block of exactly `size` bytes.  A plain batch has no
block. -/
def inflate (c : Compression) (size : Nat) (src : Bytes) : Except WireError Bytes :=
  match c with
  | plain => .error (.malformed (.batch .uncompressed))
  | block codec => codec.inflate size src

def compress : Compression → Bytes → Bytes
  | plain, src => src
  | block codec, src => codec.compress src

end Compression
end SeriesWire
