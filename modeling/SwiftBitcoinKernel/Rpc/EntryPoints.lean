/-
  File:      SwiftBitcoinKernel/Rpc/EntryPoints.lean
  Subject:   The entry points of `RPCClient`: do they agree on a server's error?

  `send` and `sendNullable` decode an envelope of the caller's type, `sendVoid` and `submitBlock` one
  of `String?`, `call` only its `error`. An envelope whose `result` or `id` does not decode is a
  failure of the client's, whatever its `error`.

  * `RPCClient.sendNullable`, `sendVoid`, `submitBlock`, `call` and the wallet-scoped variants --
    beside `send` of `Rpc/Client.lean`;
  * `ErrorMember` -- the `error` of an envelope is one that `RPCError` can hold;
  * `Readable` -- the other members decode: `id` is a string, `result` null or of the type;
  * `decodeResponse_thrown`, `decodeResponse_unread` -- the envelope of an error decodes just then;
  * `decode_throws_iff`, `decodeNullable_throws_iff`, `decodeVoid_throws_iff`,
    `submitBlock_throws_iff`, `throwIfRPCError_throws` -- entry point by entry point;
  * `entry_points_throw_iff` -- all throw the server's error just if `id` is a string and `result` is
    null, or a string of the caller's type; `null_id_differs` -- Core's reply to a request that it
    could not read.
-/
import SwiftBitcoinKernel.Rpc.Agreement
import SwiftBitcoinKernel.Rpc.Wallet

namespace SwiftBitcoinKernel

variable {α ε : Type}

/-! ## 1. The entry points -/

/-- `RPCTransport.send(_:path:)`. -/
abbrev RPCTransport (ε : Type) := JSONRPCRequest → Option Data → Except (RPCFailure ε) Data

/-- A member of the type `String?`. -/
def decodeOptionalString : UniValue → Except Unit (Option Data)
  | .null => .ok none
  | .str s => .ok (some s)
  | _ => .error ()

namespace RPCClient

/-- What `decodeNullable(_:method:)` makes of a decoded envelope. -/
def unwrapNullable (method : Data) :
    Except (DecodingError ε) (JSONRPCResponse α) → Except (RPCFailure ε) (Option α)
  | .error underlying => .error (.decodingFailed method underlying)
  | .ok response =>
    match response.error with
    | some error => .error (.rpc error)
    | none => .ok response.result

/-- `decodeNullable(_:method:)`. -/
def decodeNullable (F : Foundation) (decodeT : UniValue → Except ε α) (method data : Data) :
    Except (RPCFailure ε) (Option α) :=
  unwrapNullable method (F.decode decodeT data)

/-- `sendNullable(_:params:)`. -/
def sendNullable (F : Foundation) (decodeT : UniValue → Except ε α) (transport : RPCTransport ε)
    (method : Data) (params : List RPCParam) : Except (RPCFailure ε) (Option α) :=
  match transport (buildRequest method params) none with
  | .error e => .error e
  | .ok data => decodeNullable F decodeT method data

/-- Both `sendVoid`: the envelope is decoded as for `decodeNullable`, with `String?` for its result.
    A result that is not null is logged. -/
def decodeVoid (F : Foundation) (method data : Data) : Except (RPCFailure Unit) Unit :=
  match decodeNullable F decodeOptionalString method data with
  | .error e => .error e
  | .ok _ => .ok ()

/-- `sendVoid(_:params:)`. -/
def sendVoid (F : Foundation) (transport : RPCTransport Unit) (method : Data)
    (params : List RPCParam) : Except (RPCFailure Unit) Unit :=
  match transport (buildRequest method params) none with
  | .error e => .error e
  | .ok data => decodeVoid F method data

/-- `throwIfRPCError(_:)`: an envelope of which only `error` is read. -/
def throwIfRPCError (F : Foundation) (data : Data) : Except RPCError Unit :=
  match F.parse data with
  | some (.obj entries) =>
    match F.decodeRPCError ((UniValue.obj entries).findValue (ascii "error")) with
    | some error => .error error
    | none => .ok ()
  | _ => .ok ()

/-- `call(_:params:)`. -/
def call (F : Foundation) (transport : RPCTransport ε) (method : Data) (params : List RPCParam) :
    Except (RPCFailure ε) Data :=
  match transport (buildRequest method params) none with
  | .error e => .error e
  | .ok data =>
    match throwIfRPCError F data with
    | .error error => .error (.rpc error)
    | .ok () => .ok data

/-- `send(_:wallet:params:)`. -/
def sendWallet (F : Foundation) (U : URLFoundation) (decodeT : UniValue → Except ε α)
    (transport : RPCTransport ε) (method wallet : Data) (params : List RPCParam) :
    Except (RPCFailure ε) α :=
  match transport (buildRequest method params) (some (walletPath U wallet)) with
  | .error e => .error e
  | .ok data => decode F decodeT method data

/-- `sendVoid(_:wallet:params:)`. -/
def sendVoidWallet (F : Foundation) (U : URLFoundation) (transport : RPCTransport Unit)
    (method wallet : Data) (params : List RPCParam) : Except (RPCFailure Unit) Unit :=
  match transport (buildRequest method params) (some (walletPath U wallet)) with
  | .error e => .error e
  | .ok data => decodeVoid F method data

/-- `callWallet(_:wallet:params:)`. -/
def callWallet (F : Foundation) (U : URLFoundation) (transport : RPCTransport ε)
    (method wallet : Data) (params : List RPCParam) : Except (RPCFailure ε) Data :=
  match transport (buildRequest method params) (some (walletPath U wallet)) with
  | .error e => .error e
  | .ok data =>
    match throwIfRPCError F data with
    | .error error => .error (.rpc error)
    | .ok () => .ok data

/-- What `submitBlock` throws. -/
inductive SubmitFailure where
  | client (e : RPCFailure Unit)
  /-- `RPCClientError.blockRejected(reason:)`. -/
  | blockRejected (reason : Data)
  deriving DecidableEq, Repr

/-- `submitBlock(hexData:)`, with an envelope decoded as for `decodeNullable`. -/
def submitBlock (F : Foundation) (transport : RPCTransport Unit) (hexData : Data) :
    Except SubmitFailure Unit :=
  match transport (buildRequest (ascii "submitblock") [.string hexData]) none with
  | .error e => .error (.client e)
  | .ok data =>
    match decodeNullable F decodeOptionalString (ascii "submitblock") data with
    | .error e => .error (.client e)
    | .ok (some (some reason)) => if reason = [] then .ok () else .error (.blockRejected reason)
    | .ok _ => .ok ()

/-- A transport that has the reply `data` to everything. -/
def replying (data : Data) : RPCTransport ε := fun _ _ => .ok data

end RPCClient

/-! ## 2. Envelopes with an error -/

/-- The member `error` is an object with a `code` that fits an `Int`, a `message`, and a `data` that
    is absent, null or a string: those of `e`. -/
def Foundation.ErrorMember (F : Foundation) (entries : List (Data × UniValue)) (e : RPCError) :
    Prop :=
  ∃ members, (UniValue.obj entries).findValue (ascii "error") = .obj members ∧
    (∃ n, (UniValue.obj members).findValue (ascii "code") = .num n ∧ F.int n = some e.code) ∧
    (UniValue.obj members).findValue (ascii "message") = .str e.message ∧
    ((UniValue.obj members).findValue (ascii "data") = .null ∧ e.data = none ∨
      ∃ d, (UniValue.obj members).findValue (ascii "data") = .str d ∧ e.data = some d)

/-- The members besides `error` decode. -/
def Readable (decodeT : UniValue → Except ε α) (entries : List (Data × UniValue)) : Prop :=
  (∃ id, (UniValue.obj entries).findValue (ascii "id") = .str id) ∧
    ((UniValue.obj entries).findValue (ascii "result") = .null ∨
      ∃ a, decodeT ((UniValue.obj entries).findValue (ascii "result")) = .ok a)

section Envelope

variable {F : Foundation} {decodeT : UniValue → Except ε α} {entries : List (Data × UniValue)}
  {e : RPCError}

theorem decodeRPCError_member (h : F.ErrorMember entries e) :
    F.decodeRPCError ((UniValue.obj entries).findValue (ascii "error")) = some e := by
  obtain ⟨members, herror, ⟨n, hcode, hint⟩, hmessage, hdata⟩ := h
  have hmembers : F.decodeRPCError (.obj members) = rpcErrorFrom (some e.code) (some e.message)
      ((UniValue.obj members).findValue (ascii "data")) := by
    unfold Foundation.decodeRPCError
    dsimp only
    rw [hcode, hmessage]
    unfold Foundation.decodeInt decodeString
    dsimp only
    rw [hint]
  rw [herror, hmembers]
  obtain ⟨code, message, data⟩ := e
  rcases hdata with ⟨hnull, hnone⟩ | ⟨d, hstr, hsome⟩
  · rw [hnull]
    cases hnone
    rfl
  · rw [hstr]
    cases hsome
    rfl

theorem decodeError_member (h : F.ErrorMember entries e) :
    (F.decodeError ((UniValue.obj entries).findValue (ascii "error")) :
      Except (DecodingError ε) (Option RPCError)) = .ok (some e) := by
  have hdecoded := decodeRPCError_member h
  obtain ⟨members, herror, -⟩ := h
  rw [herror] at hdecoded ⊢
  unfold Foundation.decodeError
  dsimp only
  rw [hdecoded]

/-- The members, in the order they are decoded in. -/
theorem decodeResponse_members (h : F.ErrorMember entries e) :
    F.decodeResponse decodeT (.obj entries) =
      (decodeResult decodeT ((UniValue.obj entries).findValue (ascii "result")) >>= fun result =>
        decodeID ((UniValue.obj entries).findValue (ascii "id")) >>= fun id =>
          .ok ⟨result, some e, id⟩) := by
  unfold Foundation.decodeResponse
  dsimp only
  rw [decodeError_member h]
  rfl

/-- A readable envelope is decoded with its error. -/
theorem decodeResponse_thrown (h : F.ErrorMember entries e) (hread : Readable decodeT entries) :
    ∃ result id, F.decodeResponse decodeT (.obj entries) = .ok ⟨result, some e, id⟩ := by
  obtain ⟨⟨id, hid⟩, hresult⟩ := hread
  have hdecoded : ∃ result, decodeResult decodeT
      ((UniValue.obj entries).findValue (ascii "result")) = .ok result := by
    rcases hresult with hnull | ⟨a, ha⟩
    · rw [hnull]
      exact ⟨none, rfl⟩
    · unfold decodeResult
      split
      · exact ⟨none, rfl⟩
      · rw [ha]
        exact ⟨some a, rfl⟩
  obtain ⟨result, hresult⟩ := hdecoded
  refine ⟨result, id, ?_⟩
  rw [decodeResponse_members h, hresult, hid]
  rfl

theorem decodeID_ok {v : UniValue} {id : Data}
    (h : (decodeID v : Except (DecodingError ε) Data) = .ok id) : v = .str id := by
  cases v with
  | str s =>
    cases h
    rfl
  | null | bool | num | arr | obj => cases h

theorem decodeResult_ok {v : UniValue} {result : Option α}
    (h : decodeResult decodeT v = .ok result) : v = .null ∨ ∃ a, decodeT v = .ok a := by
  unfold decodeResult at h
  split at h
  · exact .inl rfl
  · split at h
    · rename_i a ha
      exact .inr ⟨a, ha⟩
    · cases h

/-- Any other one is not decoded. -/
theorem decodeResponse_unread (h : F.ErrorMember entries e) (hread : ¬Readable decodeT entries) :
    ∃ d, F.decodeResponse decodeT (.obj entries) = .error d := by
  rw [decodeResponse_members h]
  cases hresult : decodeResult decodeT ((UniValue.obj entries).findValue (ascii "result")) with
  | error d => exact ⟨d, rfl⟩
  | ok result =>
    cases hid : (decodeID ((UniValue.obj entries).findValue (ascii "id")) :
        Except (DecodingError ε) Data) with
    | error d => exact ⟨d, rfl⟩
    | ok id => exact absurd ⟨⟨id, decodeID_ok hid⟩, decodeResult_ok hresult⟩ hread

/-- The type `String?` takes null and strings. -/
theorem readable_optionalString :
    Readable decodeOptionalString entries ↔
      (∃ id, (UniValue.obj entries).findValue (ascii "id") = .str id) ∧
        ((UniValue.obj entries).findValue (ascii "result") = .null ∨
          ∃ s, (UniValue.obj entries).findValue (ascii "result") = .str s) := by
  refine and_congr_right fun _ => ?_
  cases (UniValue.obj entries).findValue (ascii "result") with
  | null => exact iff_of_true (.inl rfl) (.inl rfl)
  | str s => exact iff_of_true (.inr ⟨_, rfl⟩) (.inr ⟨s, rfl⟩)
  | bool | num | arr | obj =>
    refine iff_of_false ?_ ?_
    · rintro (h | ⟨_, h⟩) <;> cases h
    · rintro (h | ⟨_, h⟩) <;> cases h

end Envelope

/-! ## 3. Entry point by entry point -/

section EntryPoint

variable {F : Foundation} {decodeT : UniValue → Except ε α} {body : Data}
  {entries : List (Data × UniValue)} {e : RPCError} (method wallet : Data)
  (params : List RPCParam) (U : URLFoundation)

/-- Whatever throws the error of a decoded envelope, and throws no server's error if there is none
    decoded, throws it just if the envelope is readable. -/
theorem unwrap_throws_iff {β : Type} (h : F.ErrorMember entries e)
    {unwrap : Except (DecodingError ε) (JSONRPCResponse α) → Except (RPCFailure ε) β}
    (hthrown : ∀ result id, unwrap (.ok ⟨result, some e, id⟩) = .error (.rpc e))
    (hunread : ∀ d, unwrap (.error d) ≠ .error (.rpc e)) :
    unwrap (F.decodeResponse decodeT (.obj entries)) = .error (.rpc e) ↔
      Readable decodeT entries := by
  by_cases hread : Readable decodeT entries
  · obtain ⟨result, id, hresponse⟩ := decodeResponse_thrown h hread
    rw [hresponse]
    exact iff_of_true (hthrown result id) hread
  · obtain ⟨d, hresponse⟩ := decodeResponse_unread h hread
    rw [hresponse]
    exact iff_of_false (hunread d) hread

theorem decode_throws_iff (hparse : F.parse body = some (.obj entries))
    (h : F.ErrorMember entries e) :
    RPCClient.decode F decodeT method body = .error (.rpc e) ↔ Readable decodeT entries := by
  rw [decode_some hparse, answer]
  exact unwrap_throws_iff h (fun _ _ => rfl) fun _ => nofun

theorem decodeNullable_throws_iff (hparse : F.parse body = some (.obj entries))
    (h : F.ErrorMember entries e) :
    RPCClient.decodeNullable F decodeT method body = .error (.rpc e) ↔
      Readable decodeT entries := by
  unfold RPCClient.decodeNullable Foundation.decode
  rw [hparse]
  exact unwrap_throws_iff h (fun _ _ => rfl) fun _ => nofun

theorem decodeVoid_throws_iff (hparse : F.parse body = some (.obj entries))
    (h : F.ErrorMember entries e) :
    RPCClient.decodeVoid F method body = .error (.rpc e) ↔
      Readable decodeOptionalString entries := by
  rw [← decodeNullable_throws_iff method hparse h]
  unfold RPCClient.decodeVoid
  cases RPCClient.decodeNullable F decodeOptionalString method body with
  | error d => rw [Except.error.injEq, Except.error.injEq]
  | ok _ => exact iff_of_false nofun nofun

theorem submitBlock_throws_iff (hparse : F.parse body = some (.obj entries))
    (h : F.ErrorMember entries e) (hexData : Data) :
    RPCClient.submitBlock F (RPCClient.replying body) hexData = .error (.client (.rpc e)) ↔
      Readable decodeOptionalString entries := by
  rw [← decodeNullable_throws_iff (ascii "submitblock") hparse h]
  unfold RPCClient.submitBlock RPCClient.replying
  dsimp only
  cases RPCClient.decodeNullable F decodeOptionalString (ascii "submitblock") body with
  | error d => rw [Except.error.injEq, Except.error.injEq, RPCClient.SubmitFailure.client.injEq]
  | ok result =>
    refine iff_of_false ?_ nofun
    cases result with
    | none => nofun
    | some value =>
      cases value with
      | none => nofun
      | some reason =>
        dsimp only
        split <;> nofun

/-- `call` reads nothing else. -/
theorem throwIfRPCError_throws (hparse : F.parse body = some (.obj entries))
    (h : F.ErrorMember entries e) : RPCClient.throwIfRPCError F body = .error e := by
  unfold RPCClient.throwIfRPCError
  rw [hparse]
  dsimp only
  rw [decodeRPCError_member h]

end EntryPoint

/-! ## 4. All of them -/

/-- **All entry points throw the error of the server's**, those of a wallet included. -/
def AllThrow (F : Foundation) (U : URLFoundation) (decodeT : UniValue → Except ε α)
    (body method wallet hexData : Data) (params : List RPCParam) (e : RPCError) : Prop :=
  RPCClient.send F decodeT (fun request => RPCClient.replying body request none) method params =
      .error (.rpc e) ∧
    RPCClient.sendNullable F decodeT (RPCClient.replying body) method params = .error (.rpc e) ∧
    RPCClient.sendVoid F (RPCClient.replying body) method params = .error (.rpc e) ∧
    RPCClient.submitBlock F (RPCClient.replying body) hexData = .error (.client (.rpc e)) ∧
    (RPCClient.call F (RPCClient.replying body) method params : Except (RPCFailure ε) Data) =
      .error (.rpc e) ∧
    RPCClient.sendWallet F U decodeT (RPCClient.replying body) method wallet params =
      .error (.rpc e) ∧
    RPCClient.sendVoidWallet F U (RPCClient.replying body) method wallet params =
      .error (.rpc e) ∧
    (RPCClient.callWallet F U (RPCClient.replying body) method wallet params :
      Except (RPCFailure ε) Data) = .error (.rpc e)

/-- **All entry points throw the error of the server's just if the envelope is readable to all**: its
    `id` is a string, and its `result` is null or absent, or a string that is also of the type the
    caller asked for. `call` and `callWallet` throw it in any case. -/
theorem entry_points_throw_iff (F : Foundation) (U : URLFoundation)
    (decodeT : UniValue → Except ε α) (body method wallet hexData : Data)
    (params : List RPCParam) (entries : List (Data × UniValue)) (e : RPCError)
    (hparse : F.parse body = some (.obj entries)) (h : F.ErrorMember entries e) :
    (AllThrow F U decodeT body method wallet hexData params e ↔
      (∃ id, (UniValue.obj entries).findValue (ascii "id") = .str id) ∧
        ((UniValue.obj entries).findValue (ascii "result") = .null ∨
          ∃ s a, (UniValue.obj entries).findValue (ascii "result") = .str s ∧
            decodeT (.str s) = .ok a)) ∧
    (RPCClient.call F (RPCClient.replying body) method params : Except (RPCFailure ε) Data) =
      .error (.rpc e) ∧
    (RPCClient.callWallet F U (RPCClient.replying body) method wallet params :
      Except (RPCFailure ε) Data) = .error (.rpc e) := by
  have hcall : (RPCClient.call F (RPCClient.replying body) method params :
      Except (RPCFailure ε) Data) = .error (.rpc e) := by
    unfold RPCClient.call RPCClient.replying
    dsimp only
    rw [throwIfRPCError_throws hparse h]
  have hcallWallet : (RPCClient.callWallet F U (RPCClient.replying body) method wallet params :
      Except (RPCFailure ε) Data) = .error (.rpc e) := by
    unfold RPCClient.callWallet RPCClient.replying
    dsimp only
    rw [throwIfRPCError_throws hparse h]
  -- the others throw it as far as their type reads the envelope
  have hsend : RPCClient.decode F decodeT method body = .error (.rpc e) ↔
      Readable decodeT entries := decode_throws_iff method hparse h
  have hnullable : RPCClient.decodeNullable F decodeT method body = .error (.rpc e) ↔
      Readable decodeT entries := decodeNullable_throws_iff method hparse h
  have hvoid := decodeVoid_throws_iff method hparse h
  have hsubmit := submitBlock_throws_iff hparse h hexData
  refine ⟨⟨?_, ?_⟩, hcall, hcallWallet⟩
  · rintro ⟨hthrown, -, hthrownVoid, -⟩
    obtain ⟨hid, hresult⟩ := hsend.1 hthrown
    obtain ⟨-, hstring⟩ := readable_optionalString.1 (hvoid.1 hthrownVoid)
    refine ⟨hid, ?_⟩
    rcases hstring with hnull | ⟨s, hs⟩
    · exact .inl hnull
    · rcases hresult with hnull | ⟨a, ha⟩
      · exact .inl hnull
      · exact .inr ⟨s, a, hs, hs ▸ ha⟩
  · rintro ⟨hid, hresult⟩
    have hread : Readable decodeT entries :=
      ⟨hid, hresult.imp_right fun ⟨s, a, hs, ha⟩ => ⟨a, hs.symm ▸ ha⟩⟩
    have hreadString : Readable decodeOptionalString entries :=
      readable_optionalString.2 ⟨hid, hresult.imp_right fun ⟨s, _, hs, _⟩ => ⟨s, hs⟩⟩
    exact ⟨hsend.2 hread, hnullable.2 hread, hvoid.2 hreadString, hsubmit.2 hreadString, hcall,
      hsend.2 hread, hvoid.2 hreadString, hcallWallet⟩

/-- A decoder that knows one reply. -/
def envelopeReader (reply : UniValue) : Foundation where
  parse text := if text = reply.write then some reply else none
  int n := n.text.toInt?
  int_ofInt z _ _ := Int.toInt?_repr z

theorem envelopeReader_parse (reply : UniValue) :
    (envelopeReader reply).parse reply.write = some reply := if_pos rfl

/-- The error object of Core, without data, as a member of an envelope. -/
theorem errorMember_envelope (F : Foundation) (code : Int32) (message : Data)
    (result id : UniValue) :
    F.ErrorMember [(ascii "result", result),
      (ascii "error", (Core.jsonRPCError code message).toUniValue), (ascii "id", id)]
      ⟨code.toInt, message, none⟩ :=
  ⟨_, rfl, ⟨_, rfl, F.int_code code⟩, rfl, .inl ⟨rfl, rfl⟩⟩

/-- The reply of which only the id does not decode. -/
theorem decodeResponse_unreadEnvelope (F : Foundation) (decodeT : UniValue → Except ε α) :
    F.decodeResponse decodeT unreadEnvelope = .error .id :=
  decodeResponse_members
    (errorMember_envelope F Core.rpcParseError (ascii "Parse error") .null .null)

/-- A node that is warming up. -/
def warmingUpReply : UniValue :=
  envelope .null (Core.jsonRPCError (-28) (ascii "Loading")).toUniValue (.str (ascii "1"))

/-- To every entry point it is warming up. -/
theorem warmingUp_thrown :
    AllThrow (envelopeReader warmingUpReply) pathFoundation anyResult warmingUpReply.write
      (ascii "getblockcount") (ascii "savings") [] [] ⟨-28, ascii "Loading", none⟩ :=
  (entry_points_throw_iff _ pathFoundation anyResult _ _ _ [] [] _ _
    (envelopeReader_parse warmingUpReply)
    (errorMember_envelope _ (-28) (ascii "Loading") .null (.str (ascii "1")))).1.2
    ⟨⟨_, rfl⟩, .inl rfl⟩

/-- **Core's reply to a request it could not read has a null `id`**: `call` throws its error, `send`
    and `sendVoid` fail to decode it. -/
theorem null_id_differs :
    (envelopeReader unreadEnvelope).parse unreadEnvelope.write = some unreadEnvelope ∧
    (RPCClient.call (envelopeReader unreadEnvelope) (RPCClient.replying unreadEnvelope.write)
      (ascii "getblockcount") [] : Except (RPCFailure Empty) Data) =
        .error (.rpc ⟨-32700, ascii "Parse error", none⟩) ∧
    RPCClient.send (envelopeReader unreadEnvelope) anyResult
        (fun request => RPCClient.replying unreadEnvelope.write request none)
        (ascii "getblockcount") [] =
      .error (.decodingFailed (ascii "getblockcount") .id) ∧
    RPCClient.sendVoid (envelopeReader unreadEnvelope)
        (RPCClient.replying unreadEnvelope.write) (ascii "getblockcount") [] =
      .error (.decodingFailed (ascii "getblockcount") .id) := by
  have hparse := envelopeReader_parse unreadEnvelope
  have herror := errorMember_envelope (envelopeReader unreadEnvelope) Core.rpcParseError
    (ascii "Parse error") .null .null
  refine ⟨hparse, ?_, ?_, ?_⟩
  · unfold RPCClient.call RPCClient.replying
    dsimp only
    rw [throwIfRPCError_throws hparse herror]
    rfl
  · show RPCClient.decode _ _ _ _ = _
    rw [decode_some hparse]
    unfold answer
    rw [decodeResponse_unreadEnvelope]
    rfl
  · show RPCClient.decodeVoid _ _ _ = _
    unfold RPCClient.decodeVoid RPCClient.decodeNullable Foundation.decode
    rw [hparse]
    dsimp only
    rw [decodeResponse_unreadEnvelope]
    rfl

end SwiftBitcoinKernel
