/-
Causes of rejection.  Each inductive type lists what can be wrong with one kind
of thing, with the numbers that the text shows; the wording stands in one
`message` function per type.
-/
import SeriesWire.Column
import SeriesWire.Decimal.Positional
import SeriesWire.Text.Quoted
import SeriesWire.Text.Utf8

namespace SeriesWire

/-- What is wrong with the layout of a table. -/
inductive LayoutFault
  | lengths (oids storageLens : Nat)
  | tagIndex (tagIndex columns : Nat)
  | notTag (column tagIndex columns : Nat)
  | repeatedTag (column : Nat)
  | narrowTag (column : Nat) (type : ColumnType) (least storageLen : Nat)
  | primaryWidth (width : Nat)
  deriving DecidableEq, Repr

def LayoutFault.message : LayoutFault → String
  | lengths oids lens => s!"{oids} oids but {lens} storage lengths"
  | tagIndex index columns => s!"tag index {index} beyond {columns} columns"
  | notTag column index columns =>
    s!"primary tag {column} is not a tag column [{index}, {columns})"
  | repeatedTag column => s!"primary tag {column} listed twice"
  | narrowTag column type least len =>
    s!"tag column {column} ({type.name}) needs at least {least} bytes, storage length is {len}"
  | primaryWidth width => s!"primary tag width {width} does not fit the length field"

/-- What is wrong with a row given to the packer. -/
inductive RowFault
  | arity (values columns : Nat)
  | nullPrimary
  | missingKey (column : Nat)
  | nullKey (column : Nat)
  deriving DecidableEq, Repr

def RowFault.message : RowFault → String
  | arity values columns => s!"{values} values for {columns} columns"
  | nullPrimary => "primary tag value is NULL"
  | missingKey column => s!"missing primary tag column {column}"
  | nullKey column => s!"primary tag column {column} is NULL"

/-- What is wrong with a packed payload. -/
inductive PayloadFault
  | rowType (value : Nat)
  | shortHead (found needed : Nat)
  | noHeader
  | unterminated
  | primaryLength (found expected : Nat)
  | tagLength (found expected : Nat)
  | dataLength (declared found : Nat)
  | shortRow (row len fixed : Nat)
  | trailing (count : Nat)
  | notTag (column : Nat)
  | noRow (row : Nat)
  | notField (column : Nat)
  deriving DecidableEq, Repr

def PayloadFault.message : PayloadFault → String
  | rowType value => s!"unknown row type {value}"
  | shortHead found needed => s!"{found} bytes cannot hold a {needed} byte head"
  | noHeader => "row count written before any header"
  | unterminated => "variable entry without terminator"
  | primaryLength found expected => s!"primary tag is {found} bytes, layout expects {expected}"
  | tagLength found expected => s!"tag section is {found} bytes, layout expects {expected}"
  | dataLength declared found =>
    s!"data length {declared} does not match the {found} bytes after the header"
  | shortRow row len fixed => s!"row {row} is {len} bytes, fixed part alone is {fixed}"
  | trailing count => s!"{count} bytes after the last row"
  | notTag column => s!"column {column} is not a tag"
  | noRow row => s!"no row {row}"
  | notField column => s!"column {column} is not a field"

/-- What is wrong with a result batch, or with the rows and columns one is built
from. -/
inductive BatchFault
  | lengths (oids storageLens : Nat)
  | noRows
  | arity (row values columns : Nat)
  | shortBody (found needed : Nat)
  | rowCount
  | columnCount (count most : Nat)
  | metadata (columns needed left : Nat)
  | zeroStorage (column : Nat)
  | entries (found columns : Nat)
  | compression (tag : Int)
  | uncompressed
  | registered (oids columns : Nat)
  | blockHeader (found : Nat)
  | blockLength (found declared : Nat)
  | inflation (compressed claimed : Nat)
  | shortCell (type : ColumnType) (found needed : Nat)
  deriving DecidableEq, Repr

def BatchFault.message : BatchFault → String
  | lengths oids lens => s!"{oids} oids but {lens} storage lengths"
  | noRows => "a row batch needs at least one row"
  | arity row values columns => s!"row {row} has {values} values for {columns} columns"
  | shortBody found needed => s!"body of {found} bytes is shorter than {needed}"
  | rowCount => "row count is 0"
  | columnCount count most => s!"column count {count} outside 1..={most}"
  | metadata columns needed left => s!"{columns} columns need {needed} metadata bytes, {left} left"
  | zeroStorage column => s!"column {column} has zero storage length"
  | entries found columns => s!"{found} column entries for col_num {columns}"
  | compression tag => s!"unknown compression type {tag}"
  | uncompressed => "uncompressed batch has no block to decompress"
  | registered oids columns => s!"{oids} column oids registered, batch has {columns} columns"
  | blockHeader found => s!"{found} payload bytes cannot hold the compression header"
  | blockLength found declared =>
    s!"compressed block is {found} bytes, header declares {declared}"
  | inflation compressed claimed => s!"{compressed} compressed bytes cannot inflate to {claimed}"
  | shortCell type found needed => s!"{type.name} cell too short: {found} < {needed}"

/-- What is wrong with the parameters of a statement. -/
inductive BindFault
  | argument (type : ColumnType) (found : Nat)
  | valueCount (values oids : Nat)
  | paramCount (params oids : Nat)
  | formatCodes (count needed left : Nat)
  | paramLength (len : Int)
  deriving DecidableEq, Repr

def BindFault.message : BindFault → String
  | argument type found => s!"{type.name} argument must be 8 bytes, got {found}"
  | valueCount values oids => s!"{values} values for {oids} parameter oids"
  | paramCount params oids => s!"{params} params for {oids} parameter oids"
  | formatCodes count needed left => s!"{count} format codes need {needed} bytes, {left} left"
  | paramLength len => s!"negative parameter length {len}"

/-- What is wrong with a batched insert. -/
inductive BatchBindFault
  | unsealed
  | payloadCount (count : Int)
  | payloadLength (len : Int) (key : String)
  deriving DecidableEq, Repr

def BatchBindFault.message : BatchBindFault → String
  | unsealed => "rows were added after the last seal"
  | payloadCount count => s!"negative payload count {count}"
  | payloadLength len key => s!"negative payload length {len} for {key}"

/-- What can go wrong while fields are read off a message body. -/
inductive ReadFault
  | short (needed position left : Nat)
  | unterminated (position : Nat)
  | notUtf8 (fault : Utf8.Fault)
  | trailing (count : Nat)
  deriving DecidableEq, Repr

def ReadFault.message : ReadFault → String
  | short needed position left => s!"need {needed} bytes at offset {position}, have {left}"
  | unterminated position => s!"unterminated string at offset {position}"
  | notUtf8 fault => s!"invalid UTF-8: {fault.message}"
  | trailing count => s!"{count} trailing bytes"

/-- What is wrong with the frame around a message. -/
inductive FrameFault
  | length (declared : Int)
  | tag (expected found : UInt8)
  deriving DecidableEq, Repr

/-- The character whose code point is a byte's value. -/
def latin1 (b : UInt8) : String := (Char.ofNat b.toNat).toString

def FrameFault.message : FrameFault → String
  | length declared => s!"length {declared} smaller than the length field itself"
  | tag expected found =>
    "expected message type '" ++ latin1 expected ++ "', got '" ++ latin1 found ++ "'"

/-- Why a message or an argument is malformed.  Each kind of fault belongs to
one subject, except that a reader names what it reads. -/
inductive Malformation
  | layout (fault : LayoutFault)
  | negativeTagIndex (index : Int)
  | row (fault : RowFault)
  | payload (fault : PayloadFault)
  | batch (fault : BatchFault)
  | bind (fault : BindFault)
  | batchBind (fault : BatchBindFault)
  | oidBytes (count : Nat)
  | reading (subject : String) (fault : ReadFault)
  | frame (fault : FrameFault)
  | nulInText (text : String)
  | other (subject detail : String)
  deriving DecidableEq, Repr

namespace Malformation

def subject : Malformation → String
  | layout _ => "table layout"
  | negativeTagIndex _ => "ParameterDescriptionEx"
  | row _ => "row"
  | payload _ => "payload"
  | batch _ => "RowBatch"
  | bind _ => "Bind"
  | batchBind _ => "BindEx"
  | oidBytes _ => "ParameterDescription"
  | reading subject _ => subject
  | frame _ => "envelope"
  | nulInText _ => "cstring"
  | other subject _ => subject

def message : Malformation → String
  | layout fault => fault.message
  | negativeTagIndex index => s!"negative tag index {index}"
  | row fault => fault.message
  | payload fault => fault.message
  | batch fault => fault.message
  | bind fault => fault.message
  | batchBind fault => fault.message
  | oidBytes count => s!"{count} bytes is not a whole number of oids"
  | reading _ fault => fault.message
  | frame fault => fault.message
  | nulInText text => s!"{Quoted.quote text} contains a NUL byte"
  | other _ detail => detail

end Malformation

/-- How a value misses its range. -/
inductive RangeFault
  /-- An integer for a slot of `bits` bits. -/
  | outside (value : Int) (bits : Nat)
  /-- An integer for a result cell, which shows the number alone. -/
  | integer (value : Int)
  | single (value : Binary64)
  | primarySlot (len storageLen : Nat)
  | variableLength (len : Nat)
  | dataLength (len : Nat)
  | rowLength (len : Nat)
  | cell (len width : Nat)
  | textCell (len needed storage : Nat)
  | bytes (len : Nat)
  | entries (count : Nat)
  | groups (count : Nat)
  | group (len : Nat) (key : String)
  | offset (position : Nat)
  | blockSize (len : Nat)
  | rows (count : Nat)
  | other (detail : String)
  deriving DecidableEq, Repr

def RangeFault.message : RangeFault → String
  | outside value bits => s!"{value} outside {bits}-bit range"
  | integer value => s!"{value}"
  | single value => s!"{value.text} outside single precision range"
  | primarySlot len storage => s!"{len} bytes do not fit a {storage} byte primary tag slot"
  | variableLength len => s!"{len} bytes exceed the variable length prefix"
  | dataLength len => s!"data length {len} exceeds u32"
  | rowLength len => s!"row length {len} exceeds u32"
  | cell len width => s!"{len} bytes do not fit a {width} byte cell"
  | textCell len needed storage => s!"{len} bytes need a {needed} byte cell, storage is {storage}"
  | bytes len => s!"{len} bytes"
  | entries count => s!"{count} entries exceed u16"
  | groups count => s!"{count} groups"
  | group len key => s!"{len} bytes for group {key}"
  | offset position => s!"{position} exceeds u32"
  | blockSize len => s!"{len} bytes exceed u32"
  | rows count => s!"{count}"
  | other detail => detail

/-- A stretch of bytes that lies outside its buffer. -/
inductive BoundsFault
  | slot (oid : UInt32) (needed found : Nat)
  | entry (len offset region : Nat)
  | read (what : String) (start len buffer : Nat)
  | block (column offset rows width : Nat) (region : String) (size : Nat)
  | other (detail : String)
  deriving DecidableEq, Repr

def BoundsFault.message : BoundsFault → String
  | slot oid needed found => s!"slot for oid {oid} needs {needed} bytes, destination has {found}"
  | entry len offset region =>
    s!"variable entry of {len} bytes at {offset} exceeds region of {region}"
  | read what start len buffer =>
    s!"{what} needs bytes {start}..{start}+{len} of a {buffer} byte buffer"
  | block column offset rows width region size =>
    s!"column {column}: block at {offset} of {rows} rows x {width} bytes " ++
      s!"exceeds {region} of {size} bytes"
  | other detail => detail

/-- Why a block did not decompress: it is no block of that codec, or it holds
another number of bytes than announced. -/
inductive BlockFault
  | undecodable
  | size (produced declared : Nat)
  deriving DecidableEq, Repr

def BlockFault.message : BlockFault → String
  | undecodable => "invalid block"
  | size produced declared => s!"produced {produced} bytes, header declared {declared}"

end SeriesWire
