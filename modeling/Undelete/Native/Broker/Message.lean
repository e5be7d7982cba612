import Undelete.Native.Core

/-!
# Broker protocol messages

Model of `crates/broker-protocol/src/message.rs` and `error.rs`: the ten messages
that cross the boundary to the privileged broker, their opcodes and their semantic
bounds. The numbers of a message are machine words of the source's widths. The
schema manifest and the texts of the errors are left out.
-/

namespace Undelete.Broker

/-! ## Errors -/

/-- The kinds of `std::io::ErrorKind` the protocol tells apart. -/
inductive IoErrorKind where
  | interrupted | unexpectedEof | invalidData
  | other (code : Nat)
deriving DecidableEq, Repr

structure IoError where
  kind : IoErrorKind
  message : String
deriving DecidableEq, Repr

/-- Fixed frame section in which a transport truncation occurred. -/
inductive FramePart where
  | header | payload
deriving DecidableEq, Repr

/-- Direction whose sequence number space was exhausted. -/
inductive SequenceDirection where
  | inbound | outbound
deriving DecidableEq, Repr

inductive ProtocolError where
  | io (error : IoError)
  | truncated (part : FramePart) (expected actual : Nat)
  | invalidMagic (actual : Bytes)
  | unsupportedVersion (actual : Nat)
  | unknownOpcode (actual : Nat)
  | payloadTooLarge (length maximum : Nat)
  | payloadUnderflow (opcode needed remaining : Nat)
  | trailingPayload (opcode remaining : Nat)
  | invalidUtf8 (field : String)
  | emptyField (field : String)
  | invalidFieldLength (field : String) (length maximum : Nat)
  | invalidIdentifier (field : String) (index : Nat)
  | invalidNumericValue (field : String) (value : Nat)
  | unknownErrorCode (actual : Nat)
  | rangeOverflow
  | arithmeticOverflow
  | invalidSequence (actual : UInt64)
  | replay (sequence lastAccepted : UInt64)
  | outOfSequence (expected actual : UInt64)
  | sequenceExhausted (direction : SequenceDirection)
  | trailingFrameBytes (count : Nat)
deriving DecidableEq, Repr

/-! ## Messages -/

def maxReadLen : Nat := 1024 * 1024
def maxSourceIdLen : Nat := 128
def minSectorSize : UInt32 := 512
def maxSectorSize : UInt32 := 1024 * 1024

/-- The complete protocol operation allowlist. -/
inductive Opcode where
  | hello | helloAck | openSource | opened | readAt | readData | closeSource | closed | shutdown
  | error
deriving DecidableEq, Repr

/-- `opcode as u16`. -/
def Opcode.code : Opcode → Nat
  | .hello => 1
  | .helloAck => 2
  | .openSource => 3
  | .opened => 4
  | .readAt => 5
  | .readData => 6
  | .closeSource => 7
  | .closed => 8
  | .shutdown => 9
  | .error => 10

def Opcode.tryFrom : Nat → Except ProtocolError Opcode
  | 1 => .ok .hello
  | 2 => .ok .helloAck
  | 3 => .ok .openSource
  | 4 => .ok .opened
  | 5 => .ok .readAt
  | 6 => .ok .readData
  | 7 => .ok .closeSource
  | 8 => .ok .closed
  | 9 => .ok .shutdown
  | 10 => .ok .error
  | actual => .error (.unknownOpcode actual)

/-- Stable broker-side failure codes. -/
inductive BrokerErrorCode where
  | invalidRequest | authenticationFailed | sourceNotFound | sourceIdentityMismatch
  | sourceUnavailable | invalidHandle | readOutOfRange | readFailed | sourceChanged
  | internalFailure
deriving DecidableEq, Repr

/-- `code as u16`. -/
def BrokerErrorCode.code : BrokerErrorCode → Nat
  | .invalidRequest => 1
  | .authenticationFailed => 2
  | .sourceNotFound => 3
  | .sourceIdentityMismatch => 4
  | .sourceUnavailable => 5
  | .invalidHandle => 6
  | .readOutOfRange => 7
  | .readFailed => 8
  | .sourceChanged => 9
  | .internalFailure => 10

def BrokerErrorCode.tryFrom : Nat → Except ProtocolError BrokerErrorCode
  | 1 => .ok .invalidRequest
  | 2 => .ok .authenticationFailed
  | 3 => .ok .sourceNotFound
  | 4 => .ok .sourceIdentityMismatch
  | 5 => .ok .sourceUnavailable
  | 6 => .ok .invalidHandle
  | 7 => .ok .readOutOfRange
  | 8 => .ok .readFailed
  | 9 => .ok .sourceChanged
  | 10 => .ok .internalFailure
  | actual => .error (.unknownErrorCode actual)

/-- Allowlisted protocol messages. -/
inductive Message where
  | hello (challenge : Vector UInt8 32)
  | helloAck (challenge : Vector UInt8 32)
  | openSource (sourceId : String)
  | opened (handleId size : UInt64) (logicalSector physicalSector physicalDiskNumber : UInt32)
  | readAt (handleId offset : UInt64) (length : UInt32)
  | readData (bytes : Bytes)
  | closeSource (handleId : UInt64)
  | closed (handleId : UInt64)
  | shutdown
  | error (code : BrokerErrorCode)
deriving DecidableEq

def Message.opcode : Message → Opcode
  | .hello _ => .hello
  | .helloAck _ => .helloAck
  | .openSource _ => .openSource
  | .opened .. => .opened
  | .readAt .. => .readAt
  | .readData _ => .readData
  | .closeSource _ => .closeSource
  | .closed _ => .closed
  | .shutdown => .shutdown
  | .error _ => .error

/-! ## Semantic bounds -/

def validateNonzero (field : String) (value : UInt64) : Except ProtocolError Unit :=
  if value = 0 then .error (.invalidNumericValue field value.toNat) else .ok ()

/-- `u8::is_ascii_alphanumeric`. -/
def isAsciiAlphanumeric (byte : UInt8) : Bool :=
  (48 ≤ byte && byte ≤ 57) || (65 ≤ byte && byte ≤ 90) || (97 ≤ byte && byte ≤ 122)

/-- ASCII letters and digits, `-`, `_`, `.`, and the two curly brackets. -/
def isIdentifierByte (byte : UInt8) : Bool :=
  isAsciiAlphanumeric byte || byte == 45 || byte == 95 || byte == 46 || byte == 123 || byte == 125

def validateIdentifier (field value : String) (maximum : Nat) : Except ProtocolError Unit := do
  if value.isEmpty then
    throw (.emptyField field)
  if value.utf8ByteSize > maximum then
    throw (.invalidFieldLength field value.utf8ByteSize maximum)
  match (Bytes.ofString value).findIdx? fun byte => !isIdentifierByte byte with
  | some index => throw (.invalidIdentifier field index)
  | none => return ()

/-- `u32::is_power_of_two`. -/
def isPowerOfTwo (value : UInt32) : Bool := value != 0 && value &&& (value - 1) == 0

def validSectorSize (value : UInt32) : Bool :=
  minSectorSize ≤ value && value ≤ maxSectorSize && isPowerOfTwo value

def validateSectorLayout (logical physical : UInt32) : Except ProtocolError Unit := do
  if !validSectorSize logical then
    throw (.invalidNumericValue "logical_sector" logical.toNat)
  if !validSectorSize physical || physical < logical || physical % logical != 0 then
    throw (.invalidNumericValue "physical_sector" physical.toNat)
  return ()

/-- Validates all semantic bounds before a message crosses the boundary. -/
def Message.validate : Message → Except ProtocolError Unit
  | .hello _ | .helloAck _ | .shutdown | .error _ => .ok ()
  | .openSource sourceId => validateIdentifier "source_id" sourceId maxSourceIdLen
  | .opened handleId size logicalSector physicalSector _ => do
    validateNonzero "handle_id" handleId
    validateNonzero "size" size
    validateSectorLayout logicalSector physicalSector
  | .readAt handleId offset length => do
    validateNonzero "handle_id" handleId
    if length.toNat = 0 || length.toNat > maxReadLen then
      throw (.invalidNumericValue "length" length.toNat)
    let _ ← okOr (U64.checkedAdd offset.toNat length.toNat) ProtocolError.rangeOverflow
    return ()
  | .readData bytes =>
    if bytes.length > maxReadLen then
      .error (.invalidFieldLength "bytes" bytes.length maxReadLen)
    else .ok ()
  | .closeSource handleId | .closed handleId => validateNonzero "handle_id" handleId

end Undelete.Broker
