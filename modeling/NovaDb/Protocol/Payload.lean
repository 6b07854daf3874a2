import NovaDb.Core.JsonText
import NovaDb.Protocol.Frame
import NovaDb.Server.Engine

namespace NovaDb
namespace Protocol

open Core

/-!
# Payloads of frames

What a frame carries: a request, a response or an event, written as JSON by
`serde_json`.  The package is a parameter; its messages are wrapped as the source
wraps them.
-/

/-- High-level request payload sent from client. -/
inductive RequestPayload where
  | query (nql : String)
  | watch (nql : String)
  | unwatch (subscriptionId : UInt64)
  | auth (token : String)
  | ping
  deriving DecidableEq, Repr

/-- `serde_json::to_vec` and `serde_json::from_slice` at one type. -/
structure SerdeJson (α : Type) where
  toVec : α -> Except String (List UInt8)
  fromSlice : List UInt8 -> Except String α

/-- The JSON of requests, responses and events, as `serde_json` writes and reads them,
and the `Debug` text of a response, which an error message quotes. -/
structure PayloadJson where
  request : SerdeJson RequestPayload
  response : SerdeJson Server.ResponsePayload
  event : SerdeJson Server.DataEvent
  debug : Server.ResponsePayload -> String

namespace RequestPayload

def toBytes (json : PayloadJson) (payload : RequestPayload) : Except NovaError (List UInt8) :=
  (json.request.toVec payload).mapError NovaError.protocol

def fromBytes (json : PayloadJson) (bytes : List UInt8) : Except NovaError RequestPayload :=
  (json.request.fromSlice bytes).mapError
    (fun failure => NovaError.protocol ("Invalid request payload: " ++ failure))

end RequestPayload

namespace NvpFrame

def new (frameType : FrameType) (requestId : UInt64) (payload : List UInt8) : NvpFrame where
  frameType := frameType
  flags := 0
  requestId := requestId
  payload := payload

def ping (requestId : UInt64) : NvpFrame :=
  new .ping requestId []

def pong (requestId : UInt64) : NvpFrame :=
  new .pong requestId []

end NvpFrame

end Protocol

namespace Server

open Core Protocol

namespace ResponsePayload

def toBytes (json : PayloadJson) (payload : ResponsePayload) : Except NovaError (List UInt8) :=
  (json.response.toVec payload).mapError NovaError.protocol

def fromBytes (json : PayloadJson) (bytes : List UInt8) : Except NovaError ResponsePayload :=
  (json.response.fromSlice bytes).mapError
    (fun failure => NovaError.protocol ("Invalid response payload: " ++ failure))

end ResponsePayload

def eventToBytes (json : PayloadJson) (event : DataEvent) : Except NovaError (List UInt8) :=
  (json.event.toVec event).mapError NovaError.protocol

def eventFromBytes (json : PayloadJson) (bytes : List UInt8) : Except NovaError DataEvent :=
  (json.event.fromSlice bytes).mapError
    (fun failure => NovaError.protocol ("Invalid event payload: " ++ failure))

end Server

namespace Protocol

open Core Server Storage

/-! ## Requests and short answers -/

/-- An object with one member: a variant around its content, and its content. -/
def memberText (name : String) (content : List Char) : List Char :=
  '{' :: (Core.quoted name ++ ':' :: content ++ ['}'])

/-- The JSON of a request. -/
def requestText : RequestPayload -> List Char
  | .query nql => memberText "Query" (memberText "nql" (Core.quoted nql))
  | .watch nql => memberText "Watch" (memberText "nql" (Core.quoted nql))
  | .unwatch subscription =>
      memberText "Unwatch" (memberText "subscription_id" (decimal subscription.toNat))
  | .auth token => memberText "Auth" (memberText "token" (Core.quoted token))
  | .ping => Core.quoted "Ping"

/-- The text is that of one value. -/
def readsOnly {α : Type} (value : α) (text : String) (bytes : List UInt8) : Except String α :=
  if bytes = utf8Bytes text then .ok value else .error "expected value at line 1 column 1"

/-- Requests as `serde_json` writes them, and pings and their answers as it reads
them.  Other texts are not read; other answers and events are written empty. -/
def pingJson : PayloadJson where
  request :=
    { toVec := fun payload => .ok (utf8Bytes (String.ofList (requestText payload)))
      fromSlice := readsOnly .ping "\"Ping\"" }
  response :=
    { toVec := fun payload =>
        match payload with
        | .pong => .ok (utf8Bytes "\"Pong\"")
        | _ => .ok []
      fromSlice := readsOnly .pong "\"Pong\"" }
  event :=
    { toVec := fun _ => .ok []
      fromSlice := fun _ => .error "EOF while parsing a value at line 1 column 0" }
  debug := fun _ => "Pong"

end Protocol
end NovaDb
