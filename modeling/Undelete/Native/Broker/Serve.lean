import Undelete.ForStd.Except
import Undelete.Native.Broker.Codec

/-!
# The broker's session

Model of `serve_session` in `crates/elevated-broker/src/lib.rs`: the loop that answers the
requests of one authenticated protocol session. The transport, the source factory and the
sources are any state machines over one state; the loop leaves a trace of what it receives,
asks of the factory and of the sources, sends, and drops. The command line and the Windows
runtime are left out.
-/

namespace Undelete.Broker

/-- A byte stream in both directions: `std::io::Read` and `std::io::Write`. -/
structure Transport (σ : Type) where
  reader : Reader σ
  writer : Writer σ
  flush : σ → Except IoError Unit × σ

/-- Size and sector geometry visible to the protocol. -/
structure BrokerSourceGeometry where
  size : UInt64
  logicalSector : UInt32
  physicalSector : UInt32
  physicalDiskNumber : UInt32
deriving DecidableEq

/-- `ReadOnlySourceFactory` and `ReadOnlyBrokerSource`, with the transport of the session. -/
structure BrokerEnv (σ Source : Type) where
  transport : Transport σ
  openSource : σ → String → Except BrokerErrorCode Source × σ
  geometry : σ → Source → BrokerSourceGeometry
  revalidate : σ → Source → Except BrokerErrorCode Unit × σ
  readExactAt : σ → Source → UInt64 → Nat → Except BrokerErrorCode Bytes × σ
  length_readExactAt : ∀ {s source offset length bytes},
    (readExactAt s source offset length).1 = .ok bytes → bytes.length = length

inductive SessionError where
  | authenticationFailed | invalidHandleId | transportFailure | protocolFailure
deriving DecidableEq, Repr

def protocolError : ProtocolError → SessionError
  | .io _ => .transportFailure
  | _ => .protocolFailure

def sourceIdentityFailure : BrokerErrorCode → Bool
  | .sourceNotFound | .sourceIdentityMismatch | .sourceUnavailable | .sourceChanged => true
  | _ => false

structure OpenSource (Source : Type) where
  handleId : UInt64
  source : Source
deriving DecidableEq

/-- What a session does, in the order in which it does it. -/
inductive ServeEvent (Source : Type) where
  | received (message : Message)
  | acquired (sourceId : String) (answer : Except BrokerErrorCode Source)
  | measured (source : Source) (answer : BrokerSourceGeometry)
  | revalidated (source : Source) (answer : Except BrokerErrorCode Unit)
  | read (source : Source) (offset : UInt64) (length : Nat) (answer : Except BrokerErrorCode Bytes)
  | sent (message : Message) (result : Except SessionError Unit)
  | released (source : Source)
deriving DecidableEq

structure ServeState (σ Source : Type) where
  env : σ
  codec : SessionCodec := {}
  opened : Option (OpenSource Source) := none
  trace : List (ServeEvent Source) := []
deriving DecidableEq

abbrev Serve (σ Source : Type) := EStateM SessionError (ServeState σ Source)

variable {σ Source : Type}

def ServeState.push (s : ServeState σ Source) (e : ServeEvent Source) : ServeState σ Source :=
  { s with trace := s.trace ++ [e] }

namespace BrokerEnv

/-! ## Messages -/

def receive (env : BrokerEnv σ Source) : Serve σ Source Message := fun s =>
  match s.codec.readMessage env.transport.reader s.env with
  | (.error e, codec, σ') => .error (protocolError e) { s with env := σ', codec }
  | (.ok frame, codec, σ') =>
    .ok frame.message ({ s with env := σ', codec }.push (.received frame.message))

def sendMessage (env : BrokerEnv σ Source) (message : Message) : Serve σ Source Unit := fun s =>
  match s.codec.writeMessage env.transport.writer s.env message with
  | (.error e, codec, σ') =>
    .error (protocolError e)
      ({ s with env := σ', codec }.push (.sent message (.error (protocolError e))))
  | (.ok _, codec, σ') =>
    match env.transport.flush σ' with
    | (.error _, σ') =>
      .error .transportFailure
        ({ s with env := σ', codec }.push (.sent message (.error .transportFailure)))
    | (.ok (), σ') => .ok () ({ s with env := σ', codec }.push (.sent message (.ok ())))

def sendBrokerError (env : BrokerEnv σ Source) (code : BrokerErrorCode) : Serve σ Source Unit :=
  env.sendMessage (.error code)

/-! ## The factory and the sources -/

def acquire (env : BrokerEnv σ Source) (sourceId : String) :
    Serve σ Source (Except BrokerErrorCode Source) := fun s =>
  let (answer, σ') := env.openSource s.env sourceId
  .ok answer ({ s with env := σ' }.push (.acquired sourceId answer))

def measure (env : BrokerEnv σ Source) (source : Source) : Serve σ Source BrokerSourceGeometry :=
  fun s => .ok (env.geometry s.env source) (s.push (.measured source (env.geometry s.env source)))

def checkIdentity (env : BrokerEnv σ Source) (source : Source) :
    Serve σ Source (Except BrokerErrorCode Unit) := fun s =>
  let (answer, σ') := env.revalidate s.env source
  .ok answer ({ s with env := σ' }.push (.revalidated source answer))

def readSource (env : BrokerEnv σ Source) (source : Source) (offset : UInt64) (length : Nat) :
    Serve σ Source (Except BrokerErrorCode Bytes) := fun s =>
  let (answer, σ') := env.readExactAt s.env source offset length
  .ok answer ({ s with env := σ' }.push (.read source offset length answer))

/-- The end of a source that was not kept. -/
def drop (source : Source) : Serve σ Source Unit := fun s => .ok () (s.push (.released source))

/-- `opened = None`. -/
def close : Serve σ Source Unit := fun s =>
  match s.opened with
  | none => .ok () s
  | some openSource => .ok () ({ s with opened := none }.push (.released openSource.source))

/-! ## Requests -/

def serveOpen (env : BrokerEnv σ Source) (handleId : UInt64) (sourceId : String) :
    Serve σ Source Unit := do
  if (← get).opened.isSome then
    env.sendBrokerError .invalidRequest
  else
    match ← env.acquire sourceId with
    | .error code => env.sendBrokerError code
    | .ok source =>
      let geometry ← env.measure source
      let openedMessage := Message.opened handleId geometry.size geometry.logicalSector
        geometry.physicalSector geometry.physicalDiskNumber
      if openedMessage.validate.toBool then
        env.sendMessage openedMessage
        modify fun s => { s with opened := some ⟨handleId, source⟩ }
      else
        env.sendBrokerError .sourceIdentityMismatch
        drop source

/-- The answer to an error of the open source. -/
def failSource (env : BrokerEnv σ Source) (code : BrokerErrorCode) : Serve σ Source Unit := do
  if sourceIdentityFailure code then
    close
  env.sendBrokerError code

def serveRead (env : BrokerEnv σ Source) (requestedHandle offset : UInt64) (length : UInt32) :
    Serve σ Source Unit := do
  match (← get).opened with
  | none => env.sendBrokerError .invalidHandle
  | some openSource =>
    if requestedHandle ≠ openSource.handleId then
      env.sendBrokerError .invalidHandle
    else
      let geometry ← env.measure openSource.source
      match U64.checkedAdd offset.toNat length.toNat with
      | none => env.sendBrokerError .readOutOfRange
      | some stop =>
        if stop > geometry.size.toNat then
          env.sendBrokerError .readOutOfRange
        else
          match ← env.checkIdentity openSource.source with
          | .error code => env.failSource code
          | .ok () =>
            match ← env.readSource openSource.source offset length.toNat with
            | .error code => env.failSource code
            | .ok bytes => env.sendMessage (.readData bytes)

def serveClose (env : BrokerEnv σ Source) (requestedHandle : UInt64) : Serve σ Source Unit := do
  if (← get).opened.any fun source => source.handleId == requestedHandle then
    close
    env.sendMessage (.closed requestedHandle)
  else
    env.sendBrokerError .invalidHandle

/-- The answer to a request other than `Shutdown`. -/
def serveRequest (env : BrokerEnv σ Source) (handleId : UInt64) : Message → Serve σ Source Unit
  | .openSource sourceId => env.serveOpen handleId sourceId
  | .readAt requestedHandle offset length => env.serveRead requestedHandle offset length
  | .closeSource requestedHandle => env.serveClose requestedHandle
  -- `Shutdown` never gets here: it ends the loop
  | .hello _ | .helloAck _ | .opened .. | .readData _ | .closed _ | .error _ | .shutdown =>
    env.sendBrokerError .invalidRequest

/-! ## The session -/

/-- The nonce exchange at the start of a session. -/
def greet (env : BrokerEnv σ Source) : Serve σ Source Unit := do
  let first ← env.receive
  match first with
  | .hello challenge =>
    if challenge = Vector.replicate 32 0 then
      env.sendBrokerError .authenticationFailed
      throw .authenticationFailed
    else
      env.sendMessage (.helloAck challenge)
  | _ =>
    env.sendBrokerError .authenticationFailed
    throw .authenticationFailed

/-- One turn of the loop; the answer says whether the loop goes on. -/
def serveTurn (env : BrokerEnv σ Source) (handleId : UInt64) : Serve σ Source Bool := do
  let message ← env.receive
  match message with
  | .shutdown =>
    close
    return false
  | message =>
    env.serveRequest handleId message
    return true

/-- The loop, up to `turns` turns. -/
def serveLoop (env : BrokerEnv σ Source) (handleId : UInt64) : Nat → Serve σ Source Bool
  | 0 => return true
  | turns + 1 => do
    if ← env.serveTurn handleId then env.serveLoop handleId turns else return false

/-- `serve_session`, up to `turns` turns of its loop. -/
def serveSession (env : BrokerEnv σ Source) (handleId : UInt64) (turns : Nat) :
    Serve σ Source Bool := do
  if handleId = 0 then
    throw .invalidHandleId
  env.greet
  env.serveLoop handleId turns

end BrokerEnv

end Undelete.Broker
