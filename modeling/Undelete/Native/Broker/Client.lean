import Undelete.ForStd.Wp
import Undelete.Native.Broker.Serve

/-!
# The broker's client

Model of `crates/broker-client/src/lib.rs`: the protocol session of the unelevated side, and
the source reader on top of it. A session is a state that its operations change, also when
they fail. The launch of the broker on Windows, and the errors only it reports, are left out.
-/

namespace Undelete.Broker

inductive BrokerClientError where
  | invalidRequest | transportFailure | protocolFailure | unexpectedResponse
  | authenticationFailed | sourceNotFound | sourceIdentityMismatch | sourceUnavailable
  | invalidHandle | readOutOfRange | readFailed | sourceChanged | internalFailure | shortRead
  | sessionUnavailable
deriving DecidableEq, Repr

namespace BrokerClientError

def fromProtocol : ProtocolError → BrokerClientError
  | .io _ => .transportFailure
  | _ => .protocolFailure

def fromBroker : BrokerErrorCode → BrokerClientError
  | .invalidRequest => .invalidRequest
  | .authenticationFailed => .authenticationFailed
  | .sourceNotFound => .sourceNotFound
  | .sourceIdentityMismatch => .sourceIdentityMismatch
  | .sourceUnavailable => .sourceUnavailable
  | .invalidHandle => .invalidHandle
  | .readOutOfRange => .readOutOfRange
  | .readFailed => .readFailed
  | .sourceChanged => .sourceChanged
  | .internalFailure => .internalFailure

def publicMessage : BrokerClientError → String
  | .invalidRequest => "broker request rejected"
  | .transportFailure => "broker transport unavailable"
  | .protocolFailure => "broker protocol failure"
  | .unexpectedResponse => "broker returned an unexpected response"
  | .authenticationFailed => "broker authentication failed"
  | .sourceNotFound => "broker source is unavailable"
  | .sourceIdentityMismatch | .sourceChanged => "broker source identity changed"
  | .sourceUnavailable => "broker source is unavailable"
  | .invalidHandle => "broker source handle is invalid"
  | .readOutOfRange => "broker source read is out of range"
  | .readFailed | .shortRead => "broker source read failed"
  | .internalFailure => "broker internal failure"
  | .sessionUnavailable => "broker session unavailable"

end BrokerClientError

/-- Metadata returned after an identity-bound source is opened. -/
structure OpenedSource where
  handleId : UInt64
  size : UInt64
  logicalSector : UInt32
  physicalSector : UInt32
  physicalDiskNumber : UInt32
deriving DecidableEq

/-! ## Sessions -/

/-- Read-only session boundary used by `BrokerSourceReader`. -/
structure ReadSession (S : Type) where
  openSource : String → EStateM BrokerClientError S OpenedSource
  readAt : UInt64 → UInt64 → UInt32 → EStateM BrokerClientError S Bytes
  closeSource : UInt64 → EStateM BrokerClientError S Unit
  shutdown : EStateM BrokerClientError S Unit

/-- Synchronous protocol session with independent inbound and outbound sequence
    validation. -/
structure ProtocolReadSession (τ : Type) where
  transport : τ
  codec : SessionCodec := {}
  shutdown : Bool := false
  failed : Bool := false

abbrev Client (τ : Type) := EStateM BrokerClientError (ProtocolReadSession τ)

namespace ProtocolReadSession

variable {τ : Type} (t : Transport τ)

def fail {α : Type} (e : BrokerClientError) : Client τ α := fun s =>
  .error e { s with failed := true }

/-- `write_message` and `flush`. -/
def send (request : Message) : Client τ Unit := fun s =>
  match s.codec.writeMessage t.writer s.transport request with
  | (.error e, codec, x) =>
    .error (.fromProtocol e) { s with transport := x, codec, failed := true }
  | (.ok _, codec, x) =>
    match t.flush x with
    | (.error _, x) => .error .transportFailure { s with transport := x, codec, failed := true }
    | (.ok (), x) => .ok () { s with transport := x, codec }

/-- `read_message`. -/
def receive : Client τ Message := fun s =>
  match s.codec.readMessage t.reader s.transport with
  | (.error e, codec, x) =>
    .error (.fromProtocol e) { s with transport := x, codec, failed := true }
  | (.ok frame, codec, x) => .ok frame.message { s with transport := x, codec }

def exchange (request : Message) : Client τ Message := do
  let s ← get
  if s.shutdown || s.failed then
    throw .sessionUnavailable
  else
    send t request
    receive t

def sendWithoutResponse (request : Message) : Client τ Unit := do
  let s ← get
  if s.shutdown then
    return ()
  else if s.failed then
    throw .sessionUnavailable
  else
    send t request

def openSource (sourceId : String) : Client τ OpenedSource := do
  match ← exchange t (.openSource sourceId) with
  | .opened handleId size logicalSector physicalSector physicalDiskNumber =>
    return { handleId, size, logicalSector, physicalSector, physicalDiskNumber }
  | .error code => throw (.fromBroker code)
  | _ => fail .unexpectedResponse

def readAt (handleId offset : UInt64) (length : UInt32) : Client τ Bytes := do
  match ← exchange t (.readAt handleId offset length) with
  | .readData bytes => if bytes.length ≠ length.toNat then fail .shortRead else return bytes
  | .error code => throw (.fromBroker code)
  | _ => fail .unexpectedResponse

def closeSource (handleId : UInt64) : Client τ Unit := do
  match ← exchange t (.closeSource handleId) with
  | .closed closedHandle =>
    if closedHandle = handleId then return () else fail .unexpectedResponse
  | .error code => throw (.fromBroker code)
  | _ => fail .unexpectedResponse

/-- `ReadSession::shutdown`. -/
def shutDown : Client τ Unit := do
  if (← get).shutdown then
    return ()
  else
    sendWithoutResponse t .shutdown
    modify fun s => { s with shutdown := true }

/-- `ProtocolReadSession::connect`: the nonce exchange of a new session. -/
def connect (transport : τ) (challenge : Vector UInt8 32) :
    Except BrokerClientError (ProtocolReadSession τ) :=
  if challenge = Vector.replicate 32 0 then .error .authenticationFailed
  else
    match exchange t (.hello challenge) { transport } with
    | .error e _ => .error e
    | .ok (.helloAck echoed) s =>
      if challenge = echoed then .ok s else .error .authenticationFailed
    | .ok (.error code) _ => .error (.fromBroker code)
    | .ok _ _ => .error .unexpectedResponse

/-- `impl ReadSession for ProtocolReadSession`. -/
def readSession : ReadSession (ProtocolReadSession τ) where
  openSource := openSource t
  readAt := readAt t
  closeSource := closeSource t
  shutdown := shutDown t

end ProtocolReadSession

/-! ## The source reader -/

structure SectorLayout where
  logical : UInt32
  physical : UInt32
deriving DecidableEq

def SectorLayout.new (logical physical : UInt32) : Option SectorLayout :=
  if logical = 0 ∨ physical = 0 ∨ physical < logical then none else some ⟨logical, physical⟩

/-- Read-only scanner adapter backed by one identity-bound broker source. The session, behind
    a mutex in the source, is the state of the operations. -/
structure BrokerSourceReader where
  handleId : UInt64
  sourceId : String
  length : UInt64
  sectorLayout : SectorLayout
  physicalDiskNumber : UInt32
deriving DecidableEq

namespace BrokerSourceReader

variable {S : Type} (session : ReadSession S)

/-- `BrokerSourceReader::open`. -/
def openReader (sourceId : String) : EStateM BrokerClientError S BrokerSourceReader := do
  if !(Message.openSource sourceId).validate.toBool then
    let _ ← (EStateM.attempt session.shutdown : EStateM BrokerClientError S _)
    throw .invalidRequest
  else
    match ← (EStateM.attempt (session.openSource sourceId) : EStateM BrokerClientError S _) with
    | .error e =>
      let _ ← (EStateM.attempt session.shutdown : EStateM BrokerClientError S _)
      throw e
    | .ok opened =>
      match SectorLayout.new opened.logicalSector opened.physicalSector,
        decide (opened.handleId ≠ 0 ∧ opened.size ≠ 0) with
      | some sectorLayout, true =>
        return {
          handleId := opened.handleId
          sourceId
          length := opened.size
          sectorLayout
          physicalDiskNumber := opened.physicalDiskNumber }
      | _, _ =>
        if opened.handleId ≠ 0 then
          let _ ← (EStateM.attempt (session.closeSource opened.handleId) :
            EStateM BrokerClientError S _)
        let _ ← (EStateM.attempt session.shutdown : EStateM BrokerClientError S _)
        throw .sourceIdentityMismatch

variable (reader : BrokerSourceReader)

def rangeIsValid (offset length : Nat) : Bool :=
  match U64.checkedAdd offset length with
  | some stop => stop ≤ reader.length.toNat
  | none => false

def readFailure (error : BrokerClientError) (offset length : Nat) : ReadError :=
  match error with
  | .sourceNotFound | .sourceIdentityMismatch | .sourceUnavailable | .sourceChanged => .sourceGone
  | .readOutOfRange => .outOfBounds offset length reader.length.toNat
  | other => .io offset other.publicMessage

/-- The loop of `read_exact_at`: the buffer is filled up to `completed`. It runs at most
    `fuel` times, and a chunk has at least one byte. -/
def readChunks (offset : Nat) :
    Nat → Nat → Bytes → S → Except ReadError Unit × Bytes × S
  | 0, _, buffer, s => (.ok (), buffer, s)
  | fuel + 1, completed, buffer, s =>
    if completed < buffer.length then
      let chunkLength := min (buffer.length - completed) maxReadLen
      match U64.checkedAdd offset completed with
      | none => (.error (.outOfBounds offset buffer.length reader.length.toNat), buffer, s)
      | some chunkOffset =>
        match session.readAt reader.handleId (UInt64.ofNat chunkOffset) (UInt32.ofNat chunkLength)
          s with
        | .error e s =>
          (.error (reader.readFailure e chunkOffset chunkLength),
            List.replicate buffer.length 0, s)
        | .ok bytes s =>
          if bytes.length = chunkLength then
            readChunks offset fuel (completed + chunkLength)
              (buffer.take completed ++ bytes ++ buffer.drop (completed + chunkLength)) s
          else
            (.error (reader.readFailure .shortRead chunkOffset chunkLength),
              List.replicate buffer.length 0, s)
    else (.ok (), buffer, s)

/-- `SourceReader::read_exact_at`: the result, the buffer and the session. -/
def readExactAt (offset : Nat) (buffer : Bytes) (s : S) : Except ReadError Unit × Bytes × S :=
  if !reader.rangeIsValid offset buffer.length then
    (.error (.outOfBounds offset buffer.length reader.length.toNat), buffer, s)
  else if buffer.isEmpty then (.ok (), buffer, s)
  else readChunks session reader offset buffer.length 0 buffer s

/-- `SourceReader::read_best_effort_at`. -/
def readBestEffortAt (offset : Nat) (buffer : Bytes) (s : S) : ReadOutcome × Bytes × S :=
  match readExactAt session reader offset buffer s with
  | (.ok (), buffer, s) => (⟨buffer.length, []⟩, buffer, s)
  | (.error _, buffer, s) =>
    (⟨0, [(0, buffer.length)]⟩, List.replicate buffer.length 0, s)

end BrokerSourceReader

end Undelete.Broker
