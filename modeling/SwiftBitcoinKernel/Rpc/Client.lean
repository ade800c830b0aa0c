/-
  File:      SwiftBitcoinKernel/Rpc/Client.lean
  Subject:   `RPCClient.send` over the two transports.

  * `Foundation` -- what is taken from `JSONDecoder`: how it parses a text, and that it reads the
    decimal text of an `Int` as that number;
  * `RPCParam`, `JSONRPCRequest` -- the requests, as `JSONEncoder` writes them;
  * `decodeResponse`, `RPCClient.decode` -- `JSONRPCResponse<T>` and the shared decoding, for any
    result type `T`. The `responseData` of a client-side error is left out: it quotes the reply, in
    which the request's id stands;
  * `DirectTransport.send`, `HTTPTransport.send`, `RPCClient.send` -- for a node whose
    `tableRPC.execute` ends as given.
-/
import SwiftBitcoinKernel.Rpc.Server

namespace SwiftBitcoinKernel

/-! ## 1. Requests -/

/-- `RPCParam`. A double is the text it is encoded as, if it is finite; an `Encodable` the value, if
    it does not throw. -/
inductive RPCParam where
  | string (v : Data)
  | int (v : Int64)
  | int64 (v : Int64)
  | double (v : Option NumText)
  | bool (v : Bool)
  | null
  | encodable (v : Option UniValue)

/-- `RPCParam.encode(to:)`. -/
def RPCParam.encode : RPCParam → Option UniValue
  | .string v => some (.str v)
  | .int v => some (.num (.ofInt v.toInt))
  | .int64 v => some (.num (.ofInt v.toInt))
  | .double v => v.map .num
  | .bool v => some (.bool v)
  | .null => some .null
  | .encodable v => v

/-- `JSONRPCRequest`. -/
structure JSONRPCRequest where
  jsonrpc : Data
  id : Data
  method : Data
  params : List RPCParam

/-- `buildRequest(_:params:)`, with the defaults of the request. -/
def buildRequest (method : Data) (params : List RPCParam) : JSONRPCRequest :=
  ⟨ascii "1.0", ascii "swift-bitcoinkernel", method, params⟩

/-- `JSONEncoder().encode(request.params)`. -/
def JSONRPCRequest.encodeParams (request : JSONRPCRequest) : Option (List UniValue) :=
  request.params.mapM RPCParam.encode

/-- `JSONEncoder().encode(request)`: the members of the object. -/
def JSONRPCRequest.encode (request : JSONRPCRequest) : Option (List (Data × UniValue)) :=
  request.encodeParams.map fun params =>
    [(ascii "jsonrpc", .str request.jsonrpc), (ascii "id", .str request.id),
      (ascii "method", .str request.method), (ascii "params", .arr params)]

/-! ## 2. Decoding -/

/-- What is taken from `JSONDecoder`. -/
structure Foundation where
  parse : Data → Option UniValue
  int : NumText → Option Int
  int_ofInt : ∀ z : Int, -9223372036854775808 ≤ z → z ≤ 9223372036854775807 →
    int (.ofInt z) = some z

/-- `RPCError`. -/
structure RPCError where
  code : Int
  message : Data
  data : Option Data
  deriving DecidableEq, Repr

/-- `DecodingError`, by the member of the envelope that caused it; `ε` is what the result type
    throws. -/
inductive DecodingError (ε : Type) where
  | dataCorrupted
  | notAnObject
  | result (e : ε)
  | error
  | id
  deriving DecidableEq, Repr

/-- What a `send` throws. -/
inductive RPCFailure (ε : Type) where
  | rpc (e : RPCError)
  | decodingFailed (method : Data) (underlying : DecodingError ε)
  | unexpectedNullResult (method : Data)
  /-- `URLError(.badServerResponse)`. -/
  | badServerResponse
  /-- `EncodingError`, from the request. -/
  | encodingFailed
  deriving DecidableEq, Repr

/-- `JSONRPCResponse<Result>`. -/
structure JSONRPCResponse (α : Type) where
  result : Option α
  error : Option RPCError
  id : Data

/-- A `String`, by its bytes. -/
def decodeString : UniValue → Option Data
  | .str s => some s
  | _ => none

/-- An `Int`. -/
def Foundation.decodeInt (F : Foundation) : UniValue → Option Int
  | .num n => F.int n
  | _ => none

/-- `RPCError`, from its members. -/
def rpcErrorFrom (code : Option Int) (message : Option Data) (data : UniValue) : Option RPCError :=
  match code, message, data with
  | some code, some message, .null => some ⟨code, message, none⟩
  | some code, some message, .str data => some ⟨code, message, some data⟩
  | _, _, _ => none

/-- `RPCError.init(from:)`. -/
def Foundation.decodeRPCError (F : Foundation) : UniValue → Option RPCError
  | .obj entries =>
    let find (key : String) := (UniValue.obj entries).findValue (ascii key)
    rpcErrorFrom (F.decodeInt (find "code")) (decodeString (find "message")) (find "data")
  | _ => none

variable {α ε : Type}

/-- The member `result`: `decodeIfPresent`. -/
def decodeResult (decodeT : UniValue → Except ε α) :
    UniValue → Except (DecodingError ε) (Option α)
  | .null => .ok none
  | r =>
    match decodeT r with
    | .ok a => .ok (some a)
    | .error e => .error (.result e)

/-- The member `error`: `decodeIfPresent`. -/
def Foundation.decodeError (F : Foundation) :
    UniValue → Except (DecodingError ε) (Option RPCError)
  | .null => .ok none
  | e =>
    match F.decodeRPCError e with
    | some e => .ok (some e)
    | none => .error .error

/-- The member `id`, which has to be a string. -/
def decodeID (v : UniValue) : Except (DecodingError ε) Data :=
  match decodeString v with
  | some id => .ok id
  | none => .error .id

/-- `JSONRPCResponse.init(from:)`: the members in the order they are declared in. -/
def Foundation.decodeResponse (F : Foundation) (decodeT : UniValue → Except ε α) :
    UniValue → Except (DecodingError ε) (JSONRPCResponse α)
  | .obj entries => do
    let find (key : String) := (UniValue.obj entries).findValue (ascii key)
    let result ← decodeResult decodeT (find "result")
    let error ← F.decodeError (find "error")
    let id ← decodeID (find "id")
    return ⟨result, error, id⟩
  | _ => .error .notAnObject

/-- `decoder.decode(JSONRPCResponse<T>.self, from: data)`. -/
def Foundation.decode (F : Foundation) (decodeT : UniValue → Except ε α) (data : Data) :
    Except (DecodingError ε) (JSONRPCResponse α) :=
  match F.parse data with
  | none => .error .dataCorrupted
  | some v => F.decodeResponse decodeT v

/-- What `decode(_:method:)` makes of a decoded envelope. -/
def RPCClient.unwrap (method : Data) :
    Except (DecodingError ε) (JSONRPCResponse α) → Except (RPCFailure ε) α
  | .error underlying => .error (.decodingFailed method underlying)
  | .ok response =>
    match response.error with
    | some error => .error (.rpc error)
    | none =>
      match response.result with
      | none => .error (.unexpectedNullResult method)
      | some result => .ok result

/-- `RPCClient.decode(_:method:)`. -/
def RPCClient.decode (F : Foundation) (decodeT : UniValue → Except ε α) (method data : Data) :
    Except (RPCFailure ε) α :=
  RPCClient.unwrap method (F.decode decodeT data)

/-! ## 3. The transports -/

/-- `DirectTransport.send(_:path:)` without a path, on a ready bridge. -/
def DirectTransport.send (outcome : Core.CallOutcome) (request : JSONRPCRequest) :
    Except (RPCFailure ε) Data :=
  match request.encodeParams with
  | none => .error .encodingFailed
  | some _ => .ok (cString (Core.bitcoinRpc outcome))

/-- `HTTPTransport.send(_:path:)` without a path. -/
def HTTPTransport.send (outcome : Core.CallOutcome) (request : JSONRPCRequest) :
    Except (RPCFailure ε) Data :=
  match request.encode with
  | none => .error .encodingFailed
  | some body =>
    let reply := Core.httpReqJSONRPC (fun _ => outcome) body
    if reply.status ≠ 200 ∧ reply.status ≠ 500 then .error .badServerResponse
    else .ok reply.body

/-- `RPCClient.send(_:params:)` over a transport. -/
def RPCClient.send (F : Foundation) (decodeT : UniValue → Except ε α)
    (transport : JSONRPCRequest → Except (RPCFailure ε) Data) (method : Data)
    (params : List RPCParam) : Except (RPCFailure ε) α :=
  match transport (buildRequest method params) with
  | .error e => .error e
  | .ok data => RPCClient.decode F decodeT method data

end SwiftBitcoinKernel
