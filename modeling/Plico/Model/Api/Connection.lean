import Plico.Model.Api.Decode
import Plico.Model.Api.Service
import Plico.Model.Kernel.Credentials

/-!
# A connection of the daemon (bin/plicod.rs)

A connection carries frames: four bytes with the length of the payload, then the payload. The handler reads a frame,
decodes its head and authenticates it, decodes the request, hands it to the service and writes the response as a
frame. It ends at the end of the stream, at a frame that cannot be read or whose head is malformed, and when a
response cannot be written. The service is a parameter (`Service`) with its own inputs for each request; the clock of
each frame and the failures of the transport are inputs. Traces are left out, and so are other connections while this
one runs.
-/

namespace Plico.Api

open Plico.Fs Plico.Kernel

def maxMessageSize : Nat := 16 * 1024 * 1024

/-! ## Frames -/

def beValue (bytes : Bytes) : Nat :=
  bytes.foldl (fun n b => 256 * n + b.toNat) 0

/-- The next frame of a stream and what follows it; nothing at the end of the stream. -/
def readFrame (stream : Bytes) : Except Unit (Option (Bytes × Bytes)) :=
  if stream = [] then .ok none
  else if stream.length < 4 then .error ()
  else
    let len := beValue (stream.take 4)
    if len = 0 ∨ len > maxMessageSize then .error ()
    else if stream.length < 4 + len then .error ()
    else .ok (some ((stream.drop 4).take len, stream.drop (4 + len)))

/-- The bytes written for a payload. -/
def writeFrame (payload : Bytes) : Except Unit Bytes :=
  if payload = [] ∨ payload.length > maxMessageSize then .error () else .ok (beBytes 4 payload.length ++ payload)

/-! ## Decoding a frame -/

inductive TransportKind where
  | tcp
  | uds
  deriving DecidableEq, Repr

inductive DecodedFrame where
  | dispatch (context : PublicRequestContext) (request : PublicRequest)
  | response (response : PublicResponse)

inductive RequestFrameError where
  | schema
  | metadata
  deriving DecidableEq, Repr

/-- `failure` of the daemon. -/
def transportFailure (requestId : Uuid) (code : PublicErrorCode) (message category : String) : PublicResponse :=
  .failure requestId ⟨code, message, false, category⟩

def typedRejection (head : PublicRequestHead) (code : PublicErrorCode) (message category : String) : DecodedFrame :=
  .response (transportFailure head.requestId code message category)

/-- The context that the transport gives a frame, or the rejection. -/
def authenticateFrame (transport : TransportKind) (authenticate : String → Except String String)
    (head : PublicRequestHead) : Except DecodedFrame PublicRequestContext :=
  match transport with
  | .tcp =>
    match head.auth with
    | none =>
      .error (typedRejection head .unauthenticated "TCP requests require a valid bearer credential" "missing_bearer")
    | some auth =>
      match authenticate auth.bearer with
      | .ok roleId => .ok (.authenticatedRole roleId .tcp)
      | .error _ => .error (typedRejection head .unauthenticated "invalid bearer credential" "invalid_bearer")
  | .uds =>
    if head.auth.isSome then
      .error (typedRejection head .invalidArgument "UDS requests must not contain payload authentication"
        "transport_auth_forbidden")
    else .ok (.localOwner .uds)

variable (P : ApiPlatform)

/-- The head of a frame, if it is well formed. -/
def frameHead (frame : Bytes) : Except RequestFrameError PublicRequestHead := do
  let head ← required ((P.parseJson frame).bind (decodeHead P)) .schema
  head.validateMetadata.mapError fun _ => .metadata
  pure head

/-- The request of an authenticated frame, without its credential. -/
def frameRequest (frame : Bytes) (head : PublicRequestHead) (context : PublicRequestContext) : DecodedFrame :=
  if head.operationSupported = false then
    typedRejection head .unsupportedCapability "operation is not supported by this public protocol"
      "unsupported_operation"
  else
    match (P.parseJson frame).bind (decodeRequest P) with
    | none => typedRejection head .invalidArgument "input does not match the operation schema" "invalid_operation_input"
    | some request =>
      match request.validate P with
      | .error _ =>
        typedRejection head .invalidArgument "input failed public protocol validation" "invalid_operation_input"
      | .ok _ => .dispatch context { request with auth := none }

def decodeRequestFrame (frame : Bytes) (transport : TransportKind) (authenticate : String → Except String String) :
    Except RequestFrameError DecodedFrame := do
  let head ← frameHead P frame
  match authenticateFrame transport authenticate head with
  | .error rejection => pure rejection
  | .ok context => pure (frameRequest P frame head context)

/-! ## The handler -/

/-- What answers requests; `ι` are the inputs of one request. A request that panics has no response. -/
structure Service (σ ι : Type) where
  handle : σ → ι → PublicRequestContext → PublicRequest → σ × Option PublicResponse

/-- The domain service of the daemon. -/
def publicService (P : PublicPlatform) : Service PublicKernel PublicInputs :=
  ⟨fun k inputs context request => k.handlePublicRequest P inputs context request⟩

/-- The service and what the connection has done: the requests handed to the service, the answer to each frame, and
the bytes that were written. -/
structure Connection (σ : Type) where
  service : σ
  calls : List (PublicRequestContext × PublicRequest)
  answers : List (Option PublicResponse)
  written : List Bytes

variable {σ ι : Type} (service : Service σ ι) (f32Text : F32 → Bytes)

/-- The response to a dispatched request: that of the service, if it fits the request. -/
def checkedResponse (request : PublicRequest) (response : PublicResponse) : PublicResponse :=
  match response.validateFor request with
  | .ok _ => response
  | .error _ =>
    transportFailure request.requestId .internal "public service returned an invalid response"
      "invalid_service_response"

/-- The answer to a decoded frame. -/
def Connection.answer (c : Connection σ) (inputs : ι) : DecodedFrame → Connection σ × Option PublicResponse
  | .response response => (c, some response)
  | .dispatch context request =>
    let (s, response) := service.handle c.service inputs context request
    ({ c with service := s, calls := c.calls ++ [(context, request)] }, response.map (checkedResponse request))

/-- What a frame meets: the clock of the credentials, the inputs of the service, and whether the transport fails to take
the response. -/
structure FrameInputs (ι : Type) where
  now : Nat
  service : ι
  writeFault : Bool

/-- Write the answer; the flag says whether the connection goes on. -/
def Connection.write (c : Connection σ) (writeFault : Bool) (answer : Option PublicResponse) : Connection σ × Bool :=
  let c := { c with answers := c.answers ++ [answer] }
  match answer with
  | none => (c, false)
  | some response =>
    match writeFrame (response.text f32Text) with
    | .error _ => (c, false)
    | .ok bytes => if writeFault then (c, false) else ({ c with written := c.written ++ [bytes] }, true)

/-- One iteration of the loop. -/
def Connection.step (transport : TransportKind) (tokens : TokenTable) (inputs : FrameInputs ι) (c : Connection σ)
    (frame : Bytes) : Connection σ × Bool :=
  match decodeRequestFrame P frame transport (authenticateBearer tokens inputs.now) with
  | .error _ => (c, false)
  | .ok decoded =>
    let (c, answer) := c.answer service inputs.service decoded
    c.write f32Text inputs.writeFault answer

/-- `handle_connection` on the bytes that arrive. Every frame takes bytes from the stream, so that its length bounds
the number of iterations. -/
def handleConnection (transport : TransportKind) (tokens : TokenTable) (inputs : Nat → FrameInputs ι) :
    Nat → Nat → Bytes → Connection σ → Connection σ
  | 0, _, _, c => c
  | fuel + 1, i, stream, c =>
    match readFrame stream with
    | .error _ | .ok none => c
    | .ok (some (frame, rest)) =>
      match c.step P service f32Text transport tokens (inputs i) frame with
      | (c, false) => c
      | (c, true) => handleConnection transport tokens inputs fuel (i + 1) rest c

/-- A connection on which `stream` arrives. -/
def connect (transport : TransportKind) (tokens : TokenTable) (inputs : Nat → FrameInputs ι) (stream : Bytes) (s : σ) :
    Connection σ :=
  handleConnection P service f32Text transport tokens inputs stream.length 0 stream ⟨s, [], [], []⟩

end Plico.Api
