import Mathlib
import NovaDb.Core.Json
import NovaDb.Server.Connection

namespace NovaDb
namespace Server

open Core Query

/-!
# The web console

The second listener serves HTTP to the engine of the same server.  A connection
reads once, at most 8192 bytes, and is routed by the first line of what it read.
The body of a query is JSON; `serde_json::from_str` is a parameter.
-/

/-! ## Text of bytes -/

/-- A character of several bytes that has begun: the bits read, how many bytes are
owed, and the range of the next. -/
structure Pending where
  value : Nat
  owed : Nat
  low : Nat
  high : Nat

namespace Utf8

def replacement : Char :=
  Char.ofNat 0xFFFD

/-- The first byte of a character. -/
def begin (byte : Nat) : List Char × Option Pending :=
  if byte ≤ 0x7F then ([Char.ofNat byte], none)
  else if 0xC2 ≤ byte ∧ byte ≤ 0xDF then ([], some ⟨byte % 32, 1, 0x80, 0xBF⟩)
  else if byte = 0xE0 then ([], some ⟨byte % 16, 2, 0xA0, 0xBF⟩)
  else if byte = 0xED then ([], some ⟨byte % 16, 2, 0x80, 0x9F⟩)
  else if 0xE1 ≤ byte ∧ byte ≤ 0xEF then ([], some ⟨byte % 16, 2, 0x80, 0xBF⟩)
  else if byte = 0xF0 then ([], some ⟨byte % 8, 3, 0x90, 0xBF⟩)
  else if 0xF1 ≤ byte ∧ byte ≤ 0xF3 then ([], some ⟨byte % 8, 3, 0x80, 0xBF⟩)
  else if byte = 0xF4 then ([], some ⟨byte % 8, 3, 0x80, 0x8F⟩)
  else ([replacement], none)

/-- A byte behind those read; one that does not continue the character begun
starts anew. -/
def next (pending : Option Pending) (byte : Nat) : List Char × Option Pending :=
  match pending with
  | none => begin byte
  | some begun =>
      if begun.low ≤ byte ∧ byte ≤ begun.high then
        let value := begun.value * 64 + byte % 64
        if begun.owed = 1 then ([Char.ofNat value], none)
        else ([], some ⟨value, begun.owed - 1, 0x80, 0xBF⟩)
      else (replacement :: (begin byte).1, (begin byte).2)

def lossyFrom (pending : Option Pending) : List UInt8 -> List Char
  | [] => if pending.isSome then [replacement] else []
  | byte :: rest => (next pending byte.toNat).1 ++ lossyFrom (next pending byte.toNat).2 rest

end Utf8

/-- `String::from_utf8_lossy`. -/
def fromUtf8Lossy (bytes : List UInt8) : List Char :=
  Utf8.lossyFrom none bytes

/-! ## The request -/

/-- The first of `str::lines`. -/
def firstLine (text : List Char) : List Char :=
  let line := text.takeWhile (fun c => c != '\n')
  if line.length < text.length ∧ line.getLast? = some '\r' then line.dropLast else line

/-- `str::split_whitespace`. -/
def splitWhitespace (text : List Char) : List (List Char) :=
  (text.splitOnP isWhitespace).filter (fun part => !part.isEmpty)

/-- The text behind the first blank line. -/
def behindBlankLine : List Char -> Option (List Char)
  | [] => none
  | c :: rest =>
      if "\r\n\r\n".toList.isPrefixOf (c :: rest) then some ((c :: rest).drop 4)
      else behindBlankLine rest

section Body

variable {Number : Type} (fromStr : String -> Option (JsonValue Number))

def extractJsonBody (request : List Char) : JsonValue Number :=
  match behindBlankLine request with
  | some body => (fromStr (String.ofList body)).getD (.object [])
  | none => .object []

/-- `Value::get` at a key and `Value::as_str`. -/
def bodyText (key : String) : JsonValue Number -> Option String
  | .object members =>
      match members.lookup key with
      | some (.string text) => some text
      | _ => none
  | _ => none

/-- What a request asks for. -/
inductive HttpAction where
  | preflight
  | studio
  | status
  | query (query ns : String)
  | seed
  | events
  | notFound

/-- The routes of `handle_http_connection`. -/
def routeHttp (request : List Char) : HttpAction :=
  let parts := splitWhitespace (firstLine request)
  let method := String.ofList (parts.getD 0 "GET".toList)
  let path := String.ofList (parts.getD 1 "/".toList)
  if method = "OPTIONS" then .preflight
  else if method = "GET" ∧ path = "/" then .studio
  else if method = "GET" ∧ path = "/api/status" then .status
  else if method = "POST" ∧ path = "/api/query" then
    let body := extractJsonBody fromStr request
    .query ((bodyText "query" body).getD "") ((bodyText "namespace" body).getD "default")
  else if method = "POST" ∧ path = "/api/seed" then .seed
  else if method = "GET" ∧ path = "/api/events" then .events
  else .notFound

end Body

/-- The statements of `seed_sample_data`. -/
def seedQueries : List String :=
  ["INSERT INTO users VALUES (\x7b \"id\": \"usr_01\", \"name\": \"Elena Rostova\", \"role\": \"Lead Architect\", \"team\": \"Core Systems\", \"points\": 98, \"active\": true \x7d)",
   "INSERT INTO users VALUES (\x7b \"id\": \"usr_02\", \"name\": \"Marcus Vance\", \"role\": \"Site Reliability Engineer\", \"team\": \"Infrastructure\", \"points\": 88, \"active\": true \x7d)",
   "INSERT INTO users VALUES (\x7b \"id\": \"usr_03\", \"name\": \"Aria Chen\", \"role\": \"Data Systems Engineer\", \"team\": \"Analytics\", \"points\": 92, \"active\": true \x7d)",
   "INSERT INTO users VALUES (\x7b \"id\": \"usr_04\", \"name\": \"Devon Miller\", \"role\": \"Security Specialist\", \"team\": \"Security\", \"points\": 74, \"active\": false \x7d)",
   "INSERT INTO sensors VALUES (\x7b \"id\": \"sns_north_01\", \"name\": \"Cryo Tank Alpha\", \"location\": \"Zone 1\", \"temp\": 64.2, \"pressure\": 101.3, \"status\": \"nominal\" \x7d)",
   "INSERT INTO sensors VALUES (\x7b \"id\": \"sns_north_02\", \"name\": \"Core Turbine 4\", \"location\": \"Zone 2\", \"temp\": 82.5, \"pressure\": 114.7, \"status\": \"warning\" \x7d)",
   "INSERT INTO sensors VALUES (\x7b \"id\": \"sns_south_01\", \"name\": \"Reactor Shield B\", \"location\": \"Zone 3\", \"temp\": 91.0, \"pressure\": 128.2, \"status\": \"critical\" \x7d)",
   "INSERT INTO sensors VALUES (\x7b \"id\": \"sns_south_02\", \"name\": \"Cooling Valve 9\", \"location\": \"Zone 1\", \"temp\": 52.8, \"pressure\": 98.4, \"status\": \"nominal\" \x7d)",
   "CREATE INDEX ON users (points)",
   "CREATE INDEX ON sensors (temp)"]

/-! ## The engine calls of a connection -/

/-- What a connection meets: the draws of its parses, whether the header of the
event stream is written, and how many statements return before one panics. -/
structure HttpMoment where
  draws : Nat -> Draw
  writable : Bool
  survives : Nat

/-- The statement of a text, if it is one. -/
def accepted (T : TextTables) (draw : Draw) (query : String) : Option Statement :=
  match parseNql T draw query with
  | .ok statement _ => some statement
  | .error _ | .panic | .outOfFuel => none

/-- The statements of texts parsed one after the other. -/
def acceptedFrom (T : TextTables) (draws : Nat -> Draw) : Nat -> List String -> List Statement
  | _, [] => []
  | turn, query :: rest => (accepted T (draws turn) query).toList ++ acceptedFrom T draws (turn + 1) rest

def HttpAction.calls (T : TextTables) (moment : HttpMoment) : HttpAction -> List EngineCall
  | .query text ns =>
      if trim text = "" then []
      else (accepted T (moment.draws 0) text).toList.map (EngineCall.execute · ns)
  | .seed =>
      ((acceptedFrom T moment.draws 0 seedQueries).map (EngineCall.execute · "default")).take
        (moment.survives + 1)
  | .events => if moment.writable then [.subscribeEvents] else []
  | .preflight | .studio | .status | .notFound => []

/-- The calls of `handle_http_connection` on the bytes it reads. -/
def httpCalls {Number : Type} (fromStr : String -> Option (JsonValue Number)) (T : TextTables)
    (moment : HttpMoment) (bytes : List UInt8) : List EngineCall :=
  if (bytes.take 8192).isEmpty then []
  else (routeHttp fromStr (fromUtf8Lossy (bytes.take 8192))).calls T moment

end Server
end NovaDb
