/-
  File:      SwiftBitcoinKernel/Rpc/Agreement.lean
  Subject:   Do the two transports of `RPCClient` give one outcome?

  `AutoTransport` chooses between them call by call, so a caller must not see the difference. Both
  replies are envelopes of the same result and error; they differ in the id, in a newline, and in
  the HTTP status, which `HTTPTransport` filters.

  * `envelope`, `bridgeEnvelope_eq`, `httpEnvelope` -- the two builders write the same envelope but
    for its id, and for the code of an exception;
  * `answer_id` -- the shared decoding does not depend on the id, as long as it is a string;
  * `http_read`, `http_deep` -- the reply of Core to a request that it can read, and to one that
    nests too deep;
  * `transports_agree_iff` -- the transports agree just if the request can be read and the error, if
    there is one, does not come with a status that is filtered out;
  * `method_not_found_differs` -- the most common error that does.
-/
import Mathlib
import SwiftBitcoinKernel.Rpc.Client

namespace SwiftBitcoinKernel

open SwiftBitcoinKernel.Core

variable {α ε : Type}

/-! ## 1. Envelopes -/

/-- The reply both sides build. -/
def envelope (result error id : UniValue) : UniValue :=
  .obj [(ascii "result", result), (ascii "error", error), (ascii "id", id)]

/-- The result and the error of an envelope; `code` is that of an exception, which the two sides do
    not share. -/
def Core.CallOutcome.members (code : Int32) : CallOutcome → UniValue × UniValue
  | .result r => (r, .null)
  | .thrown e => (.null, e.toUniValue)
  | .exception what => (.null, (jsonRPCError code what).toUniValue)

theorem bridgeEnvelope_eq (o : CallOutcome) :
    bridgeEnvelope o =
      envelope (o.members (-32603)).1 (o.members (-32603)).2 (.str (ascii "1")) := by
  cases o <;> rfl

/-- What becomes of a parsed reply. -/
def answer (F : Foundation) (decodeT : UniValue → Except ε α) (method : Data) (v : UniValue) :
    Except (RPCFailure ε) α :=
  RPCClient.unwrap method (F.decodeResponse decodeT v)

theorem decode_some {F : Foundation} {data : Data} {v : UniValue} (h : F.parse data = some v)
    (decodeT : UniValue → Except ε α) (method : Data) :
    RPCClient.decode F decodeT method data = answer F decodeT method v := by
  unfold RPCClient.decode Foundation.decode
  rw [h]
  rfl

theorem decode_none {F : Foundation} {data : Data} (h : F.parse data = none)
    (decodeT : UniValue → Except ε α) (method : Data) :
    RPCClient.decode F decodeT method data = .error (.decodingFailed method .dataCorrupted) := by
  unfold RPCClient.decode Foundation.decode
  rw [h]
  rfl

theorem decodeResult_ne_id (decodeT : UniValue → Except ε α) (v : UniValue) :
    decodeResult decodeT v ≠ .error .id := by
  unfold decodeResult
  split
  · nofun
  · split <;> nofun

theorem decodeError_ne_id (F : Foundation) (v : UniValue) :
    (F.decodeError v : Except (DecodingError ε) (Option RPCError)) ≠ .error .id := by
  unfold Foundation.decodeError
  split
  · nofun
  · split <;> nofun

/-- The code of an error is an `Int`. -/
theorem Foundation.int_code (F : Foundation) (code : Int32) :
    F.int (.ofInt code.toInt) = some code.toInt := by
  have hlow := code.le_toInt
  have hhigh := code.toInt_lt
  exact F.int_ofInt _ (by omega) (by omega)

/-- **A thrown error object is decoded to its code and its message**, with its data if that is a
    string. -/
theorem decodeRPCError_toUniValue (F : Foundation) (e : ErrorObject) :
    F.decodeRPCError e.toUniValue =
      rpcErrorFrom (some e.code.toInt) (some e.message)
        ((UniValue.obj e.more).findValue (ascii "data")) := by
  rw [← F.int_code e.code]
  rfl

theorem decodeError_thrown {F : Foundation} {e : ErrorObject} {error : RPCError}
    (h : rpcErrorFrom (some e.code.toInt) (some e.message)
      ((UniValue.obj e.more).findValue (ascii "data")) = some error) :
    (F.decodeError e.toUniValue : Except (DecodingError ε) (Option RPCError)) =
      .ok (some error) := by
  rw [← decodeRPCError_toUniValue F] at h
  unfold ErrorObject.toUniValue at h ⊢
  simp only [Foundation.decodeError, h]

section Envelopes

variable (F : Foundation) (decodeT : UniValue → Except ε α) (method : Data) (r e : UniValue)

/-- An envelope, member by member. -/
theorem decodeResponse_envelope (id : UniValue) :
    F.decodeResponse decodeT (envelope r e id) =
      (decodeResult decodeT r >>= fun result =>
        F.decodeError e >>= fun error => decodeID id >>= fun id => pure ⟨result, error, id⟩) := rfl

/-- **The decoding is the same for every string id.** -/
theorem answer_id (id id' : Data) :
    answer F decodeT method (envelope r e (.str id)) =
      answer F decodeT method (envelope r e (.str id')) := by
  unfold answer
  rw [decodeResponse_envelope, decodeResponse_envelope]
  cases decodeResult decodeT r with
  | error _ => rfl
  | ok result =>
    cases F.decodeError e with
    | error _ => rfl
    | ok error => rfl

/-- It never blames the server, and never the id then. -/
theorem answer_ne (id : Data) :
    answer F decodeT method (envelope r e (.str id)) ≠ .error .badServerResponse ∧
      answer F decodeT method (envelope r e (.str id)) ≠ .error (.decodingFailed method .id) := by
  unfold answer
  rw [decodeResponse_envelope]
  cases hr : decodeResult decodeT r with
  | error d =>
    refine ⟨nofun, fun h => ?_⟩
    cases h
    exact decodeResult_ne_id decodeT _ hr
  | ok result =>
    cases he : F.decodeError e with
    | error d =>
      refine ⟨nofun, fun h => ?_⟩
      cases h
      exact decodeError_ne_id F _ he
    | ok error =>
      cases error with
      | some error => exact ⟨nofun, nofun⟩
      | none => cases result <;> exact ⟨nofun, nofun⟩

/-- **An error object in an envelope is thrown.** -/
theorem answer_thrown (id : Data) {e : ErrorObject} {error : RPCError}
    (h : rpcErrorFrom (some e.code.toInt) (some e.message)
      ((UniValue.obj e.more).findValue (ascii "data")) = some error) :
    answer F decodeT method (envelope .null e.toUniValue (.str id)) = .error (.rpc error) := by
  unfold answer
  rw [decodeResponse_envelope, decodeError_thrown h]
  rfl

end Envelopes

/-! ## 2. What the server answers -/

/-- The id of the client's requests. -/
def requestID : UniValue := .str (ascii "swift-bitcoinkernel")

/-- The members of an encoded request. -/
def members (method : Data) (values : List UniValue) : List (Data × UniValue) :=
  [(ascii "jsonrpc", .str (ascii "1.0")), (ascii "id", requestID), (ascii "method", .str method),
    (ascii "params", .arr values)]

/-- The reply to a request that is not read: its id is not known. -/
def unreadEnvelope : UniValue :=
  envelope .null (jsonRPCError rpcParseError (ascii "Parse error")).toUniValue .null

/-- The reply to a request that is read. -/
def httpEnvelope (o : CallOutcome) : UniValue :=
  envelope (o.members rpcParseError).1 (o.members rpcParseError).2 requestID

theorem members_depth (method : Data) (values : List UniValue) :
    (UniValue.obj (members method values)).depth = 2 + arrayDepth values := by
  simp only [members, requestID, UniValue.depth, objectDepth, entryDepth]
  omega

theorem parse_members (method : Data) (values : List UniValue) :
    Core.JSONRPCRequest.parse (members method values) .initial =
      .ok ⟨some requestID, method, .arr values, .v1Legacy⟩ := rfl

section Replies

variable (method : Data) {values : List UniValue}

/-- The status Core sends an outcome with. -/
def Core.CallOutcome.status : CallOutcome → Nat
  | .result _ => 200
  | .thrown e => errorStatus e
  | .exception _ => 500

theorem http_read (h : 2 + arrayDepth values ≤ maxJSONDepth) (o : CallOutcome) :
    httpReqJSONRPC (fun _ => o) (members method values) =
      ⟨o.status, (httpEnvelope o).write ++ ascii "\n"⟩ := by
  unfold httpReqJSONRPC
  rw [readNesting_brackets, members_depth, decide_eq_true h, parse_members]
  cases o <;> rfl

theorem http_deep (h : ¬2 + arrayDepth values ≤ maxJSONDepth) (o : CallOutcome) :
    httpReqJSONRPC (fun _ => o) (members method values) =
      ⟨500, unreadEnvelope.write ++ ascii "\n"⟩ := by
  unfold httpReqJSONRPC
  rw [readNesting_brackets, members_depth, decide_eq_false h]
  rfl

end Replies

/-! ## 3. The two sends -/

section Sends

variable {F : Foundation} {decodeT : UniValue → Except ε α} {method : Data}
  {params : List RPCParam} {values : List UniValue} {o : CallOutcome}

theorem send_direct (h : params.mapM RPCParam.encode = some values) :
    RPCClient.send F decodeT (DirectTransport.send o) method params =
      RPCClient.decode F decodeT method (bridgeEnvelope o).write := by
  have hencode : (buildRequest method params).encodeParams = some values := h
  simp only [RPCClient.send, DirectTransport.send, hencode, bitcoinRpc, cString_write]

theorem encode_members (h : params.mapM RPCParam.encode = some values) :
    (buildRequest method params).encode = some (members method values) := by
  have hparams : (buildRequest method params).encodeParams = some values := h
  simp only [SwiftBitcoinKernel.JSONRPCRequest.encode, hparams]
  rfl

/-- A reply with status 200 or 500 is decoded. -/
theorem send_http_passed (h : params.mapM RPCParam.encode = some values) {reply : HTTPReply}
    (hreply : httpReqJSONRPC (fun _ => o) (members method values) = reply)
    (hstatus : reply.status = 200 ∨ reply.status = 500) :
    RPCClient.send F decodeT (HTTPTransport.send o) method params =
      RPCClient.decode F decodeT method reply.body := by
  have hpass : ¬(reply.status ≠ 200 ∧ reply.status ≠ 500) := by omega
  simp only [RPCClient.send, HTTPTransport.send, encode_members h, hreply, if_neg hpass]

/-- A reply with another status is not. -/
theorem send_http_filtered (h : params.mapM RPCParam.encode = some values) {reply : HTTPReply}
    (hreply : httpReqJSONRPC (fun _ => o) (members method values) = reply)
    (hstatus : reply.status ≠ 200 ∧ reply.status ≠ 500) :
    RPCClient.send F decodeT (HTTPTransport.send o) method params = .error .badServerResponse := by
  simp only [RPCClient.send, HTTPTransport.send, encode_members h, hreply, if_pos hstatus]

/-- A request that cannot be encoded leaves by neither transport. -/
theorem send_unencodable (h : params.mapM RPCParam.encode = none) :
    RPCClient.send F decodeT (DirectTransport.send o) method params =
      RPCClient.send F decodeT (HTTPTransport.send o) method params := by
  have hparams : (buildRequest method params).encodeParams = none := h
  simp [RPCClient.send, DirectTransport.send, HTTPTransport.send,
    SwiftBitcoinKernel.JSONRPCRequest.encode, hparams]

end Sends

/-! ## 4. Agreement -/

/-- The decoder takes the replies to one call alike: it reads the same result and the same error in
    both, or rejects both (where a string of the outcome is not UTF-8, or its nesting too deep). And
    it reads Core's own parse error. -/
structure Foundation.Reads (F : Foundation) (o : CallOutcome) : Prop where
  alike :
    (∃ r e, F.parse (bridgeEnvelope o).write = some (envelope r e (.str (ascii "1"))) ∧
      F.parse ((httpEnvelope o).write ++ ascii "\n") = some (envelope r e requestID)) ∨
    (F.parse (bridgeEnvelope o).write = none ∧
      F.parse ((httpEnvelope o).write ++ ascii "\n") = none)
  unread : F.parse (unreadEnvelope.write ++ ascii "\n") = some unreadEnvelope

/-- The code of the error is one that Core sends with a status of its own. -/
def Core.ErrorObject.hasOwnStatus (e : ErrorObject) : Prop :=
  e.code = rpcInvalidRequest ∨ e.code = rpcMethodNotFound

theorem errorStatus_own {e : ErrorObject} (h : e.hasOwnStatus) :
    errorStatus e ≠ 200 ∧ errorStatus e ≠ 500 := by
  unfold errorStatus
  split
  · decide
  · rcases h with h | h
    · contradiction
    · rw [if_pos h]
      decide

theorem errorStatus_other {e : ErrorObject} (h : ¬e.hasOwnStatus) : errorStatus e = 500 := by
  obtain ⟨hinvalid, hmissing⟩ := not_or.1 h
  unfold errorStatus
  rw [if_neg hinvalid, if_neg hmissing]

/-- The request can be read (or not even be sent), and its outcome comes with status 200 or 500. -/
def Carried (params : List RPCParam) (o : CallOutcome) : Prop :=
  match params.mapM RPCParam.encode with
  | none => True
  | some values => 2 + arrayDepth values ≤ maxJSONDepth ∧ ∀ e, o = .thrown e → ¬e.hasOwnStatus

section Agreement

variable {F : Foundation} {o : CallOutcome} (decodeT : UniValue → Except ε α) (method : Data)

/-- The replies are decoded to one outcome. -/
theorem decode_alike (h : F.Reads o) :
    RPCClient.decode F decodeT method (bridgeEnvelope o).write =
      RPCClient.decode F decodeT method ((httpEnvelope o).write ++ ascii "\n") := by
  rcases h.alike with ⟨r, e, hdirect, hhttp⟩ | ⟨hdirect, hhttp⟩
  · rw [decode_some hdirect, decode_some hhttp]
    exact answer_id F decodeT method _ _ _ _
  · rw [decode_none hdirect, decode_none hhttp]

/-- The bridge's reply is never taken for a bad response, nor its id for missing. -/
theorem decode_bridge_ne (h : F.Reads o) :
    RPCClient.decode F decodeT method (bridgeEnvelope o).write ≠ .error .badServerResponse ∧
      RPCClient.decode F decodeT method (bridgeEnvelope o).write ≠
        .error (.decodingFailed method .id) := by
  rcases h.alike with ⟨r, e, hdirect, -⟩ | ⟨hdirect, -⟩
  · rw [decode_some hdirect]
    exact answer_ne F decodeT method _ _ _
  · rw [decode_none hdirect]
    exact ⟨nofun, nofun⟩

/-- The reply to an unread request has no id for the client. -/
theorem decode_unread (h : F.Reads o) :
    RPCClient.decode F decodeT method (unreadEnvelope.write ++ ascii "\n") =
      .error (.decodingFailed method .id) := by
  rw [decode_some h.unread]
  unfold answer unreadEnvelope
  rw [decodeResponse_envelope, decodeError_thrown rfl]
  rfl

variable {params : List RPCParam} {values : List UniValue}

theorem passed_agrees (hparams : params.mapM RPCParam.encode = some values)
    (hfits : 2 + arrayDepth values ≤ maxJSONDepth) (hstatus : o.status = 200 ∨ o.status = 500)
    (hF : F.Reads o) :
    RPCClient.send F decodeT (DirectTransport.send o) method params =
      RPCClient.send F decodeT (HTTPTransport.send o) method params := by
  rw [send_direct hparams, send_http_passed hparams (http_read method hfits o) hstatus]
  exact decode_alike decodeT method hF

theorem filtered_differs (hparams : params.mapM RPCParam.encode = some values)
    (hfits : 2 + arrayDepth values ≤ maxJSONDepth) (hstatus : o.status ≠ 200 ∧ o.status ≠ 500)
    (hF : F.Reads o) :
    RPCClient.send F decodeT (DirectTransport.send o) method params ≠
      RPCClient.send F decodeT (HTTPTransport.send o) method params := by
  rw [send_direct hparams, send_http_filtered hparams (http_read method hfits o) hstatus]
  exact (decode_bridge_ne decodeT method hF).1

/-- A request that nests too deep is not read over HTTP. -/
theorem deep_differs (hparams : params.mapM RPCParam.encode = some values)
    (hdeep : ¬2 + arrayDepth values ≤ maxJSONDepth) (hF : F.Reads o) :
    RPCClient.send F decodeT (DirectTransport.send o) method params ≠
      RPCClient.send F decodeT (HTTPTransport.send o) method params := by
  rw [send_direct hparams, send_http_passed hparams (http_deep method hdeep o) (.inr rfl),
    decode_unread decodeT method hF]
  exact (decode_bridge_ne decodeT method hF).2

end Agreement

/-- **The transports agree just if the request is carried.** For every method, parameter list and
    result type, and every outcome of `tableRPC.execute` that is a value or an error object. The
    bridge then throws the code and the message of the error object, if the decoder reads its reply
    and its data, if any, is a string. -/
theorem transports_agree_iff (F : Foundation) (decodeT : UniValue → Except ε α) (method : Data)
    (params : List RPCParam) (o : CallOutcome) (ho : ∀ what, o ≠ .exception what) (hF : F.Reads o) :
    let direct := RPCClient.send F decodeT (DirectTransport.send o) method params
    let http := RPCClient.send F decodeT (HTTPTransport.send o) method params
    (direct = http ↔ Carried params o) ∧
      ∀ values e error, params.mapM RPCParam.encode = some values → o = .thrown e →
        F.parse (bridgeEnvelope o).write = some (bridgeEnvelope o) →
        rpcErrorFrom (some e.code.toInt) (some e.message)
          ((UniValue.obj e.more).findValue (ascii "data")) = some error →
        direct = .error (.rpc error) := by
  intro direct http
  refine ⟨?_, fun values e error hparams he hread herror => ?_⟩
  · unfold Carried
    cases hparams : params.mapM RPCParam.encode with
    | none => exact iff_of_true (send_unencodable hparams) trivial
    | some values =>
      by_cases hfits : 2 + arrayDepth values ≤ maxJSONDepth
      · cases o with
        | exception what => exact absurd rfl (ho what)
        | result r =>
          exact iff_of_true (passed_agrees decodeT method hparams hfits (.inl rfl) hF)
            ⟨hfits, nofun⟩
        | thrown e =>
          by_cases he : e.hasOwnStatus
          · exact iff_of_false
              (filtered_differs decodeT method hparams hfits (errorStatus_own he) hF)
              fun h => h.2 e rfl he
          · refine iff_of_true (passed_agrees decodeT method hparams hfits
              (.inr (errorStatus_other he)) hF) ⟨hfits, fun e' heq => ?_⟩
            cases heq
            exact he
      · exact iff_of_false (deep_differs decodeT method hparams hfits hF) fun h => hfits h.1
  · subst he
    calc direct = RPCClient.decode F decodeT method (bridgeEnvelope (.thrown e)).write :=
          send_direct hparams
      _ = answer F decodeT method (bridgeEnvelope (.thrown e)) := decode_some hread decodeT method
      _ = .error (.rpc error) := by
          rw [bridgeEnvelope_eq]
          exact answer_thrown F decodeT method _ herror

/-- A decoder that knows the replies to one call. -/
def replyReader (o : CallOutcome) : Foundation where
  parse text :=
    if text = (bridgeEnvelope o).write then some (bridgeEnvelope o)
    else if text = (httpEnvelope o).write ++ ascii "\n" then some (httpEnvelope o)
    else if text = unreadEnvelope.write ++ ascii "\n" then some unreadEnvelope
    else none
  int n := n.text.toInt?
  int_ofInt z _ _ := Int.toInt?_repr z

theorem replyReader_bridge (o : CallOutcome) :
    (replyReader o).parse (bridgeEnvelope o).write = some (bridgeEnvelope o) := if_pos rfl

theorem replyReader_http {o : CallOutcome}
    (hid : (httpEnvelope o).write ++ ascii "\n" ≠ (bridgeEnvelope o).write) :
    (replyReader o).parse ((httpEnvelope o).write ++ ascii "\n") = some (httpEnvelope o) :=
  (if_neg hid).trans (if_pos rfl)

theorem replyReader_unread {o : CallOutcome}
    (hbridge : unreadEnvelope.write ++ ascii "\n" ≠ (bridgeEnvelope o).write)
    (hhttp : unreadEnvelope.write ++ ascii "\n" ≠ (httpEnvelope o).write ++ ascii "\n") :
    (replyReader o).parse (unreadEnvelope.write ++ ascii "\n") = some unreadEnvelope :=
  (if_neg hbridge).trans ((if_neg hhttp).trans (if_pos rfl))

/-- `getblockcount`, while the node is warming up. -/
def warmingUp : CallOutcome := .thrown (jsonRPCError (-28) (ascii "Loading"))

/-- `getblockcont`. -/
def methodNotFound : CallOutcome :=
  .thrown (jsonRPCError rpcMethodNotFound (ascii "Method not found"))

/-- A result type that decodes anything. -/
def anyResult (_ : UniValue) : Except Empty Unit := .ok ()

theorem warmingUp_agrees :
    RPCClient.send (replyReader warmingUp) anyResult (DirectTransport.send warmingUp)
        (ascii "getblockcount") [] = .error (.rpc ⟨-28, ascii "Loading", none⟩) ∧
      RPCClient.send (replyReader warmingUp) anyResult (HTTPTransport.send warmingUp)
        (ascii "getblockcount") [] = .error (.rpc ⟨-28, ascii "Loading", none⟩) := by
  have hreads : (replyReader warmingUp).Reads warmingUp :=
    ⟨.inl ⟨_, _, replyReader_bridge warmingUp, replyReader_http (by decide)⟩,
      replyReader_unread (by decide) (by decide)⟩
  have h := transports_agree_iff (replyReader warmingUp) anyResult (ascii "getblockcount") []
    warmingUp nofun hreads
  have hcarried : Carried [] warmingUp := by
    refine ⟨by decide, fun e he => ?_⟩
    cases he
    unfold Core.ErrorObject.hasOwnStatus
    decide
  have hdirect := h.2 [] _ ⟨-28, ascii "Loading", none⟩ rfl rfl
    (replyReader_bridge warmingUp) rfl
  exact ⟨hdirect, (h.1.2 hcarried).symm.trans hdirect⟩

/-- **An unknown method is an `RPCError` over the bridge and a bad response over HTTP.** -/
theorem method_not_found_differs :
    RPCClient.send (replyReader methodNotFound) anyResult (DirectTransport.send methodNotFound)
        (ascii "getblockcont") [] =
      .error (.rpc ⟨-32601, ascii "Method not found", none⟩) ∧
    RPCClient.send (replyReader methodNotFound) anyResult (HTTPTransport.send methodNotFound)
        (ascii "getblockcont") [] = .error .badServerResponse := by
  have hfits : 2 + arrayDepth [] ≤ maxJSONDepth := by decide
  have hstatus : errorStatus (jsonRPCError rpcMethodNotFound (ascii "Method not found")) ≠ 200 ∧
      errorStatus (jsonRPCError rpcMethodNotFound (ascii "Method not found")) ≠ 500 :=
    errorStatus_own (.inr rfl)
  refine ⟨?_, ?_⟩
  · rw [send_direct rfl, decode_some (replyReader_bridge methodNotFound)]
    exact answer_thrown _ anyResult _ _ rfl
  · exact send_http_filtered rfl (http_read _ hfits _) hstatus

end SwiftBitcoinKernel
