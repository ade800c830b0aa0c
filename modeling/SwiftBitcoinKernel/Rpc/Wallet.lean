/-
  File:      SwiftBitcoinKernel/Rpc/Wallet.lean
  Subject:   Wallet routing: from the name given to a wallet-scoped `send` to the name Core looks up.

  `walletPath` percent-encodes the name, `HTTPTransport.send` appends the result to its URL as a path
  component, which encodes it once more, and Core decodes what follows `/wallet/` once.

  * `URLFoundation` -- what is taken from Foundation: the two sets of bytes that are not escaped;
  * `walletPath`, `HTTPTransport.requestURI` -- the client's side;
  * `Core.urlDecode`, `Core.getWalletNameFromJSONRPCRequest` -- Core's side; `urlDecode_decodes` --
    its decoder is a percent-decoder in the sense of `Logic/Percent.lean`;
  * `walletName_requestURI` -- Core looks up the name as `walletPath` encoded it;
  * `wallet_routed_iff` -- so it is the name itself just if there was nothing to encode; two names
    are never taken for one. `wallet_with_space` -- a name with a space in it.
-/
import SwiftBitcoinKernel.Logic.Percent
import SwiftBitcoinKernel.Rpc.UniValue

namespace SwiftBitcoinKernel

open Logic

/-! ## 1. The client -/

/-- What is taken from Foundation: `addingPercentEncoding(withAllowedCharacters: .urlPathAllowed)`
    leaves the bytes of one set, `appendingPathComponent` those of another; the percent sign is in
    neither. -/
structure URLFoundation where
  urlPathAllowed : UInt8 → Bool
  componentAllowed : UInt8 → Bool
  urlPathAllowed_percent : urlPathAllowed 37 = false
  componentAllowed_percent : componentAllowed 37 = false
  componentAllowed_endpoint : ∀ b ∈ ascii "/wallet/", componentAllowed b = true

/-- `RPCClient.walletPath(_:)`; the name by its UTF-8 bytes. -/
def walletPath (U : URLFoundation) (wallet : Data) : Data :=
  ascii "/wallet/" ++ Percent.encode U.urlPathAllowed wallet

/-- `url.appendingPathComponent(component)`, by the path of the URL: one slash stands between. -/
def appendingPathComponent (U : URLFoundation) (path component : Data) : Data :=
  let path := if path.getLast? = some 47 then path.dropLast else path
  let component := Percent.encode U.componentAllowed component
  if component.head? = some 47 then path ++ component else path ++ 47 :: component

/-- The URI of the request `HTTPTransport.send(_:path:)` makes, for a `url` with the path `base`. -/
def HTTPTransport.requestURI (U : URLFoundation) (base : Data) : Option Data → Data
  | none => if base = [] then ascii "/" else base
  | some path => appendingPathComponent U base path

/-! ## 2. Core -/

/-- The value of a hexadecimal digit, as `std::from_chars` reads it. -/
def Core.hexValue (c : UInt8) : Option UInt8 :=
  if 48 ≤ c ∧ c ≤ 57 then some (c - 48)
  else if 65 ≤ c ∧ c ≤ 70 then some (c - 55)
  else if 97 ≤ c ∧ c ≤ 102 then some (c - 87)
  else none

/-- `UrlDecode`. -/
def Core.urlDecode : Data → Data
  | 37 :: hi :: lo :: rest =>
    match Core.hexValue hi, Core.hexValue lo with
    | some hi, some lo => (hi * 16 + lo) :: Core.urlDecode rest
    -- in case of invalid percent encoding, add the '%' and continue
    | _, _ => 37 :: Core.urlDecode (hi :: lo :: rest)
  | c :: rest => c :: Core.urlDecode rest
  | [] => []

/-- `WALLET_ENDPOINT_BASE`. -/
def Core.walletEndpointBase : Data := ascii "/wallet/"

/-- `GetWalletNameFromJSONRPCRequest`: the name, where the wallet endpoint was used. -/
def Core.getWalletNameFromJSONRPCRequest (uri : Data) : Option Data :=
  if Core.walletEndpointBase.isPrefixOf uri then
    some (Core.urlDecode (uri.drop Core.walletEndpointBase.length))
  else none

/-! ## 3. Decoding -/

/-- The two digits of a byte. -/
theorem hexValue_digits : ∀ b : UInt8,
    Core.hexValue (Percent.digit (b / 16)) = some (b / 16) ∧
      Core.hexValue (Percent.digit (b % 16)) = some (b % 16) ∧ b / 16 * 16 + b % 16 = b :=
  forall_byte (by decide +kernel)

/-- **`UrlDecode` is a percent-decoder.** -/
theorem urlDecode_decodes : Percent.Decodes Core.urlDecode where
  nil := rfl
  plain b rest hb := by
    rw [Core.urlDecode]
    exact fun _ _ _ heq _ => hb heq
  escaped b rest := by
    obtain ⟨hhi, hlo, hbyte⟩ := hexValue_digits b
    show Core.urlDecode (37 :: Percent.digit (b / 16) :: Percent.digit (b % 16) :: rest) = _
    rw [Core.urlDecode, hhi, hlo]
    exact congrArg (· :: Core.urlDecode rest) hbyte

/-! ## 4. Routing -/

section Routing

variable (U : URLFoundation) {base : Data} (w : Data)

/-- An endpoint without a path of its own: the request goes to `/wallet/`, with the encoded name
    encoded again. -/
theorem requestURI_wallet (hbase : base = [] ∨ base = ascii "/") :
    HTTPTransport.requestURI U base (some (walletPath U w)) =
      ascii "/wallet/" ++
        Percent.encode U.componentAllowed (Percent.encode U.urlPathAllowed w) := by
  have hpath : (if base.getLast? = some 47 then base.dropLast else base) = [] := by
    rcases hbase with rfl | rfl <;> rfl
  have hencoded : Percent.encode U.componentAllowed (walletPath U w) =
      ascii "/wallet/" ++
        Percent.encode U.componentAllowed (Percent.encode U.urlPathAllowed w) := by
    unfold walletPath
    rw [Percent.encode_append, Percent.encode_eq_self U.componentAllowed_endpoint]
  show appendingPathComponent U base (walletPath U w) = _
  unfold appendingPathComponent
  rw [hpath, hencoded]
  rfl

/-- **Core looks up the name as `walletPath` encoded it.** -/
theorem walletName_requestURI (hbase : base = [] ∨ base = ascii "/") :
    Core.getWalletNameFromJSONRPCRequest
        (HTTPTransport.requestURI U base (some (walletPath U w))) =
      some (Percent.encode U.urlPathAllowed w) := by
  have hpre : Core.walletEndpointBase.isPrefixOf (ascii "/wallet/" ++
      Percent.encode U.componentAllowed (Percent.encode U.urlPathAllowed w)) = true :=
    List.isPrefixOf_iff_prefix.2 (List.prefix_append _ _)
  unfold Core.getWalletNameFromJSONRPCRequest
  rw [requestURI_wallet U w hbase, if_pos hpre]
  refine congrArg some ?_
  rw [show (ascii "/wallet/" ++ Percent.encode U.componentAllowed
      (Percent.encode U.urlPathAllowed w)).drop Core.walletEndpointBase.length = _ from
    List.drop_left]
  exact Percent.decode_encode urlDecode_decodes U.componentAllowed_percent _

/-- **A wallet is routed to by its name just if the name has nothing to escape**: every byte is one
    that `.urlPathAllowed` leaves. Whatever the name, the request is for `/wallet/`, and no other
    name is routed to the same wallet. -/
theorem wallet_routed_iff (hbase : base = [] ∨ base = ascii "/") :
    ascii "/wallet/" <+: HTTPTransport.requestURI U base (some (walletPath U w)) ∧
    (Core.getWalletNameFromJSONRPCRequest
        (HTTPTransport.requestURI U base (some (walletPath U w))) = some w ↔
      ∀ b ∈ w, U.urlPathAllowed b = true) ∧
    ∀ w', Core.getWalletNameFromJSONRPCRequest
        (HTTPTransport.requestURI U base (some (walletPath U w'))) =
      Core.getWalletNameFromJSONRPCRequest
        (HTTPTransport.requestURI U base (some (walletPath U w))) → w' = w := by
  refine ⟨?_, ?_, fun w' h => ?_⟩
  · rw [requestURI_wallet U w hbase]
    exact List.prefix_append _ _
  · rw [walletName_requestURI U w hbase, Option.some_inj]
    exact Percent.encode_eq_self_iff
  · rw [walletName_requestURI U w hbase, walletName_requestURI U w' hbase, Option.some_inj] at h
    exact Percent.encode_injective urlDecode_decodes U.urlPathAllowed_percent h

end Routing

/-- The path characters of RFC 3986: unreserved, sub-delimiters, `:`, `@` and `/`. -/
def pathCharacter (b : UInt8) : Bool :=
  (48 ≤ b && b ≤ 57) || (65 ≤ b && b ≤ 90) || (97 ≤ b && b ≤ 122) ||
    (ascii "-._~!$&'()*+,;=:@/").contains b

/-- Foundation, with that set for both. -/
def pathFoundation : URLFoundation where
  urlPathAllowed := pathCharacter
  componentAllowed := pathCharacter
  urlPathAllowed_percent := by decide
  componentAllowed_percent := by decide
  componentAllowed_endpoint := by decide +kernel

/-- A plain name. -/
theorem wallet_routed_plain :
    Core.getWalletNameFromJSONRPCRequest
        (HTTPTransport.requestURI pathFoundation [] (some (walletPath pathFoundation
          (ascii "savings")))) = some (ascii "savings") :=
  (wallet_routed_iff pathFoundation (ascii "savings") (.inl rfl)).2.1.2 (by decide +kernel)

/-- **A name with a space**: the request for the wallet `my wallet` is routed to `my%20wallet`. -/
theorem wallet_with_space :
    HTTPTransport.requestURI pathFoundation [] (some (walletPath pathFoundation
        (ascii "my wallet"))) = ascii "/wallet/my%2520wallet" ∧
      Core.getWalletNameFromJSONRPCRequest (ascii "/wallet/my%2520wallet") =
        some (ascii "my%20wallet") ∧
      Core.getWalletNameFromJSONRPCRequest (ascii "/wallet/my%2520wallet") ≠
        some (ascii "my wallet") := by
  refine ⟨?_, ?_, ?_⟩ <;> decide

end SwiftBitcoinKernel
