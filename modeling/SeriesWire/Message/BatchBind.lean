/-
Batched inserts.  Rows are routed to one payload per primary tag group, and the
groups go out in one message in the order in which they were first seen.  A
batch has to be sealed after its last row, which stamps the row counts.
-/
import SeriesWire.Payload.GroupKey
import SeriesWire.Settings
import SeriesWire.Wire.Frame
import SeriesWire.Wire.Reader

namespace SeriesWire

structure BatchBindFrame where
  portal : String
  statement : String
  payloads : List (String × Bytes)
  deriving DecidableEq, Repr

namespace BatchBindFrame

def tag : UInt8 := 87

/-- The largest number of payloads in a message. -/
def payloadLimit : Nat := 32767

def payloadFields (p : String × Bytes) : List Field :=
  [.atMost Field.lengthLimit p.2.length (.range "payload" (.group p.2.length p.1)),
    .text p.1, .i32 (Int32.ofNat p.2.length), .bytes p.2]

def fields (f : BatchBindFrame) : List Field :=
  [.atMost payloadLimit f.payloads.length
      (.range "payload count" (.groups f.payloads.length)),
    .text f.portal, .text f.statement, .i16 (Int16.ofNat f.payloads.length)] ++
    f.payloads.flatMap payloadFields

def encode (f : BatchBindFrame) : SendM Unit := send tag f.fields

def readPayload : ReadM (String × Bytes) := do
  let key ← Read.text
  let len := (← Read.i32).toInt
  if len < 0 then Read.reject (.batchBind (.payloadLength len key))
  else return (key, ← Read.bytes len.toNat)

def read : ReadM BatchBindFrame := do
  let portal ← Read.text
  let statement ← Read.text
  let count := (← Read.i16).toInt
  if count < 0 then Read.reject (.batchBind (.payloadCount count))
  let payloads ← Read.many count.toNat readPayload
  Read.finish
  return { portal, statement, payloads }

def decode (body : Bytes) : Except WireError BatchBindFrame := Read.run "BindEx" body read

end BatchBindFrame

structure Group where
  key : String
  buffer : PayloadBuffer
  deriving DecidableEq, Repr

/-- A batch under construction.  `stamped` says that no row came after the last
seal. -/
structure BatchBind where
  portal : String
  statement : String
  groups : List Group := []
  stamped : Bool := false
  deriving DecidableEq, Repr

namespace BatchBind

def freshBuffer : PayloadBuffer :=
  .withCapacity ({} : CodecSettings).initialPayloadCapacity

/-- Pack a row into the group `key`, behind the other groups if it is new. -/
def fillGroup (p : Packer) (row : List CellValue) (key : String) :
    List Group → List Group × Except WireError Unit
  | [] =>
    let (buffer, outcome) := p.fillRow freshBuffer row
    ([⟨key, buffer⟩], outcome)
  | g :: rest =>
    if g.key = key then
      let (buffer, outcome) := p.fillRow g.buffer row
      ({ g with buffer } :: rest, outcome)
    else
      let (rest, outcome) := fillGroup p row key rest
      (g :: rest, outcome)

/-- Pack a row into its group.  A row without a group changes nothing. -/
def push (b : BatchBind) (p : Packer) (row : List CellValue) :
    BatchBind × Except WireError Unit :=
  match GroupKey.ofRow p.layout.toShape row with
  | .error e => (b, .error e)
  | .ok key =>
    let (groups, outcome) := fillGroup p row key b.groups
    ({ b with groups, stamped := false }, outcome)

def payload? (b : BatchBind) (key : String) : Option PayloadBuffer :=
  (b.groups.find? (·.key == key)).map (·.buffer)

/-- Exchange the buffer of a group.  The batch counts as unsealed, whether or not
there is such a group. -/
def setPayload (b : BatchBind) (key : String) (buffer : PayloadBuffer) : BatchBind :=
  { b with
    stamped := false
    groups := b.groups.map fun g => if g.key = key then { g with buffer } else g }

/-- The groups that hold a row. -/
def filled (b : BatchBind) : List Group := b.groups.filter fun g => !g.buffer.isEmpty

def isSealed (b : BatchBind) : Bool := b.stamped || b.filled.isEmpty

/-- Stamp groups in order, up to the first that has rows but no header. -/
def stampAll : List Group → List Group × Except WireError Unit
  | [] => ([], .ok ())
  | g :: rest =>
    if g.buffer.isEmpty then
      let (rest, outcome) := stampAll rest
      (g :: rest, outcome)
    else
      match g.buffer.stamp with
      | .error e => (g :: rest, .error e)
      | .ok buffer =>
        let (rest, outcome) := stampAll rest
        ({ g with buffer } :: rest, outcome)

/-- Stamp row counts and data lengths into all payloads. -/
def close (b : BatchBind) : BatchBind × Except WireError Unit :=
  match stampAll b.groups with
  | (groups, .ok ()) => ({ b with groups, stamped := true }, .ok ())
  | (groups, .error e) => ({ b with groups }, .error e)

/-- Rewind every group for the next batch.  Groups and buffers are kept. -/
def reset (b : BatchBind) : BatchBind :=
  { b with
    stamped := false
    groups := b.groups.map fun g => { g with buffer := g.buffer.reset } }

def frame (b : BatchBind) : BatchBindFrame :=
  { portal := b.portal
    statement := b.statement
    payloads := b.filled.map fun g => (g.key, g.buffer.bytes) }

def encode (b : BatchBind) : SendM Unit :=
  if b.isSealed then b.frame.encode else throw (.malformed (.batchBind .unsealed))

end BatchBind
end SeriesWire
