import Undelete.Native.Broker.Message

/-!
# The broker frame codec

Model of `crates/broker-protocol/src/codec.rs`: frames, payloads, and the session
codec with its two sequence counters. Readers and writers are any state machines;
a call on one of them returns its answer together with its next state.
-/

namespace Undelete.Broker

def protocolMagic : Bytes := [0x55, 0x4d, 0x42, 0x50]
def protocolVersion : Nat := 3
def headerLen : Nat := 20
def maxPayloadLen : Nat := maxReadLen
def maxFrameLen : Nat := headerLen + maxPayloadLen

structure Frame where
  sequence : UInt64
  message : Message
deriving DecidableEq

def validateSequence (sequence : UInt64) : Except ProtocolError Unit :=
  if sequence = 0 then .error (.invalidSequence sequence) else .ok ()

/-! ## Readers and writers -/

/-- `std::io::Read`: `read s len` answers a call with a destination of `len` bytes by the
    bytes it put there. The number of interruptions before another answer is bounded. -/
structure Reader (σ : Type) where
  read : σ → Nat → Except IoError Bytes × σ
  patience : σ → Nat
  patience_lt : ∀ s len e s', read s len = (.error e, s') → e.kind = .interrupted →
    patience s' < patience s

/-- `std::io::Cursor` over a byte string; its state is what lies behind the position. -/
def Reader.cursor : Reader Bytes where
  read s len := (.ok (s.take len), s.drop len)
  patience _ := 0
  patience_lt _ _ _ _ h := by cases h

/-- The `write_all` of `std::io::Write`. -/
structure Writer (σ : Type) where
  writeAll : σ → Bytes → Except IoError Unit × σ

variable {σ : Type}

/-- The loop of `read_exact_bounded`, with `remaining` bytes of the destination still to be
    filled. -/
def readExactBounded.go (reader : Reader σ) (part : FramePart) (expected : Nat) (s : σ)
    (remaining : Nat) (filled : Bytes) (actual : Nat) : Except ProtocolError Bytes × σ :=
  if remaining = 0 then (.ok filled, s)
  else
    match _ : reader.read s remaining with
    | (.ok [], s') => (.error (.truncated part expected actual), s')
    | (.ok (byte :: bytes), s') =>
      if _ : bytes.length + 1 > remaining then
        (.error (.io ⟨.invalidData, "reader returned more bytes than requested"⟩), s')
      else
        match U64.checkedAdd actual (bytes.length + 1) with
        | none => (.error .arithmeticOverflow, s')
        | some actual =>
          go reader part expected s' (remaining - (bytes.length + 1)) (filled ++ byte :: bytes)
            actual
    | (.error error, s') =>
      if _ : error.kind = .interrupted then
        go reader part expected s' remaining filled actual
      else if error.kind = .unexpectedEof then
        (.error (.truncated part expected actual), s')
      else (.error (.io error), s')
termination_by (remaining, reader.patience s)
decreasing_by
  · apply Prod.Lex.left
    omega
  · exact Prod.Lex.right _ (reader.patience_lt s remaining error s' ‹_› ‹_›)

def readExactBounded (reader : Reader σ) (s : σ) (len : Nat) (part : FramePart) :
    Except ProtocolError Bytes × σ :=
  readExactBounded.go reader part len s len [] 0

/-! ## Payloads -/

structure PayloadWriter where
  buffer : Bytes := []

namespace PayloadWriter

def bytes (w : PayloadWriter) (value : Bytes) : Except ProtocolError PayloadWriter := do
  let newLength ← okOr (U64.checkedAdd w.buffer.length value.length) .arithmeticOverflow
  if newLength > maxPayloadLen then
    throw (.payloadTooLarge newLength maxPayloadLen)
  return { buffer := w.buffer ++ value }

def u16 (w : PayloadWriter) (value : Nat) : Except ProtocolError PayloadWriter :=
  w.bytes (Bytes.ofLE 2 value)

def u32 (w : PayloadWriter) (value : UInt32) : Except ProtocolError PayloadWriter :=
  w.bytes (Bytes.ofLE 4 value.toNat)

def u64 (w : PayloadWriter) (value : UInt64) : Except ProtocolError PayloadWriter :=
  w.bytes (Bytes.ofLE 8 value.toNat)

def identifier (w : PayloadWriter) (value : String) : Except ProtocolError PayloadWriter := do
  if value.utf8ByteSize ≥ 2 ^ 16 then
    throw .arithmeticOverflow
  let w ← w.u16 value.utf8ByteSize
  w.bytes (Bytes.ofString value)

end PayloadWriter

/-- The fields of a message. -/
def encodeFields (w : PayloadWriter) : Message → Except ProtocolError PayloadWriter
  | .hello challenge | .helloAck challenge => w.bytes challenge.toList
  | .shutdown => .ok w
  | .openSource sourceId => w.identifier sourceId
  | .opened handleId size logicalSector physicalSector physicalDiskNumber => do
    let w ← w.u64 handleId
    let w ← w.u64 size
    let w ← w.u32 logicalSector
    let w ← w.u32 physicalSector
    w.u32 physicalDiskNumber
  | .readAt handleId offset length => do
    let w ← w.u64 handleId
    let w ← w.u64 offset
    w.u32 length
  | .readData bytes => w.bytes bytes
  | .closeSource handleId | .closed handleId => w.u64 handleId
  | .error code => w.u16 code.code

def encodePayload (message : Message) : Except ProtocolError Bytes := do
  message.validate
  let w ← encodeFields {} message
  return w.buffer

structure PayloadReader where
  opcode : Opcode
  bytes : Bytes
  position : Nat := 0

namespace PayloadReader

def take (r : PayloadReader) (length : Nat) : Except ProtocolError (Bytes × PayloadReader) := do
  let stop ← okOr (U64.checkedAdd r.position length) .arithmeticOverflow
  if stop > r.bytes.length then
    throw (.payloadUnderflow r.opcode.code length (r.bytes.length - r.position))
  return (r.bytes.slice r.position stop, { r with position := stop })

def u16 (r : PayloadReader) : Except ProtocolError (Nat × PayloadReader) := do
  let (bytes, r) ← r.take 2
  return (Bytes.leValue bytes, r)

def u32 (r : PayloadReader) : Except ProtocolError (UInt32 × PayloadReader) := do
  let (bytes, r) ← r.take 4
  return (UInt32.ofNat (Bytes.leValue bytes), r)

def u64 (r : PayloadReader) : Except ProtocolError (UInt64 × PayloadReader) := do
  let (bytes, r) ← r.take 8
  return (UInt64.ofNat (Bytes.leValue bytes), r)

def array32 (r : PayloadReader) : Except ProtocolError (Vector UInt8 32 × PayloadReader) := do
  let (bytes, r) ← r.take 32
  return (Vector.ofFn fun i => bytes.getD i 0, r)

def identifier (r : PayloadReader) (field : String) (maximum : Nat) :
    Except ProtocolError (String × PayloadReader) := do
  let (length, r) ← r.u16
  if length > maximum then
    throw (.invalidFieldLength field length maximum)
  let (bytes, r) ← r.take length
  let value ← okOr bytes.toString? (ProtocolError.invalidUtf8 field)
  return (value, r)

def finish (r : PayloadReader) : Except ProtocolError Unit :=
  if r.bytes.length - r.position ≠ 0 then
    .error (.trailingPayload r.opcode.code (r.bytes.length - r.position))
  else .ok ()

end PayloadReader

/-- The fields of a message other than `ReadData`. -/
def decodeFields (r : PayloadReader) : Opcode → Except ProtocolError (Message × PayloadReader)
  | .hello => do
    let (challenge, r) ← r.array32
    return (.hello challenge, r)
  | .helloAck => do
    let (challenge, r) ← r.array32
    return (.helloAck challenge, r)
  | .openSource => do
    let (sourceId, r) ← r.identifier "source_id" maxSourceIdLen
    return (.openSource sourceId, r)
  | .opened => do
    let (handleId, r) ← r.u64
    let (size, r) ← r.u64
    let (logicalSector, r) ← r.u32
    let (physicalSector, r) ← r.u32
    let (physicalDiskNumber, r) ← r.u32
    return (.opened handleId size logicalSector physicalSector physicalDiskNumber, r)
  | .readAt => do
    let (handleId, r) ← r.u64
    let (offset, r) ← r.u64
    let (length, r) ← r.u32
    return (.readAt handleId offset length, r)
  | .closeSource => do
    let (handleId, r) ← r.u64
    return (.closeSource handleId, r)
  | .closed => do
    let (handleId, r) ← r.u64
    return (.closed handleId, r)
  | .shutdown => .ok (.shutdown, r)
  | .error => do
    let (code, r) ← r.u16
    let code ← BrokerErrorCode.tryFrom code
    return (.error code, r)
  -- unreachable: `ReadData` is decoded before a reader exists
  | .readData => .ok (.readData r.bytes, r)

def decodePayload (opcode : Opcode) (payload : Bytes) : Except ProtocolError Message := do
  if opcode = .readData then
    let message := Message.readData payload
    message.validate
    return message
  let (message, r) ← decodeFields { opcode, bytes := payload } opcode
  r.finish
  message.validate
  return message

/-! ## Frames -/

def encodeFrame (sequence : UInt64) (message : Message) : Except ProtocolError Bytes := do
  validateSequence sequence
  let payload ← encodePayload message
  if payload.length > maxPayloadLen then
    throw (.payloadTooLarge payload.length maxPayloadLen)
  let frameLength ← okOr (U64.checkedAdd headerLen payload.length) .arithmeticOverflow
  if frameLength > maxFrameLen then
    throw (.payloadTooLarge payload.length maxPayloadLen)
  if payload.length ≥ 2 ^ 32 then
    throw .arithmeticOverflow
  return protocolMagic ++ Bytes.ofLE 2 protocolVersion ++ Bytes.ofLE 2 message.opcode.code ++
    Bytes.ofLE 8 sequence.toNat ++ Bytes.ofLE 4 payload.length ++ payload

def writeFrame (writer : Writer σ) (s : σ) (sequence : UInt64) (message : Message) :
    Except ProtocolError Unit × σ :=
  match encodeFrame sequence message with
  | .error e => (.error e, s)
  | .ok frame =>
    let (result, s) := writer.writeAll s frame
    (result.mapError .io, s)

/-- The checks `read_frame` makes on the header: the opcode, the sequence and the payload
    length. -/
def parseHeader (header : Bytes) : Except ProtocolError (Opcode × UInt64 × Nat) := do
  if header.slice 0 4 ≠ protocolMagic then
    throw (.invalidMagic (header.slice 0 4))
  let version := Bytes.leValue (header.slice 4 6)
  if version ≠ protocolVersion then
    throw (.unsupportedVersion version)
  let opcode ← Opcode.tryFrom (Bytes.leValue (header.slice 6 8))
  let sequence := UInt64.ofNat (Bytes.leValue (header.slice 8 16))
  validateSequence sequence
  let payloadLength := Bytes.leValue (header.slice 16 20)
  if payloadLength > maxPayloadLen then
    throw (.payloadTooLarge payloadLength maxPayloadLen)
  let frameLength ← okOr (U64.checkedAdd headerLen payloadLength) .arithmeticOverflow
  if frameLength > maxFrameLen then
    throw .arithmeticOverflow
  return (opcode, sequence, payloadLength)

def readFrame (reader : Reader σ) (s : σ) : Except ProtocolError Frame × σ :=
  match readExactBounded reader s headerLen .header with
  | (.error e, s) => (.error e, s)
  | (.ok header, s) =>
    match parseHeader header with
    | .error e => (.error e, s)
    | .ok (opcode, sequence, payloadLength) =>
      match readExactBounded reader s payloadLength .payload with
      | (.error e, s) => (.error e, s)
      | (.ok payload, s) =>
        ((decodePayload opcode payload).map fun message => { sequence, message }, s)

def decodeFrame (bytes : Bytes) : Except ProtocolError Frame :=
  match readFrame Reader.cursor bytes with
  | (.error e, _) => .error e
  | (.ok frame, rest) =>
    if rest.length ≠ 0 then .error (.trailingFrameBytes rest.length) else .ok frame

/-! ## Sessions -/

/-- Stateful bidirectional codec with independent, contiguous sequence spaces. A direction
    whose counter is `none` has used its last sequence number. -/
structure SessionCodec where
  nextOutbound : Option UInt64 := some 1
  nextInbound : Option UInt64 := some 1
deriving DecidableEq

namespace SessionCodec

def withSequences (nextOutbound nextInbound : UInt64) : Except ProtocolError SessionCodec := do
  validateSequence nextOutbound
  validateSequence nextInbound
  return { nextOutbound := some nextOutbound, nextInbound := some nextInbound }

/-- `sequence.checked_add(1)`. -/
def following (sequence : UInt64) : Option UInt64 :=
  (U64.checkedAdd sequence.toNat 1).map UInt64.ofNat

def writeMessage (codec : SessionCodec) (writer : Writer σ) (s : σ) (message : Message) :
    Except ProtocolError UInt64 × SessionCodec × σ :=
  match codec.nextOutbound with
  | none => (.error (.sequenceExhausted .outbound), codec, s)
  | some sequence =>
    match writeFrame writer s sequence message with
    | (.error e, s) => (.error e, codec, s)
    | (.ok (), s) => (.ok sequence, { codec with nextOutbound := following sequence }, s)

def readMessage (codec : SessionCodec) (reader : Reader σ) (s : σ) :
    Except ProtocolError Frame × SessionCodec × σ :=
  match codec.nextInbound with
  | none => (.error (.sequenceExhausted .inbound), codec, s)
  | some expected =>
    match readFrame reader s with
    | (.error e, s) => (.error e, codec, s)
    | (.ok frame, s) =>
      if frame.sequence < expected then
        (.error (.replay frame.sequence (expected - 1)), codec, s)
      else if frame.sequence > expected then
        (.error (.outOfSequence expected frame.sequence), codec, s)
      else (.ok frame, { codec with nextInbound := following expected }, s)

end SessionCodec

end Undelete.Broker
