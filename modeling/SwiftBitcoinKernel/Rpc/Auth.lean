/-
  File:      SwiftBitcoinKernel/Rpc/Auth.lean
  Subject:   Credentials from a password: `RPCAuth(username:password:)` and Core's authentication.

  A username, a salt and a keyed hash go to Core as one argument, which it splits again; the client
  sends the username and the password in a header, which Core decodes and checks against the entry.
  The hash function is any one, the same on both sides.

  * `RPCAuth`, `RPCAuth.ofPassword`, `RPCAuth.rawValue`, `HTTPTransport.authorization` -- the client;
  * `Core.decodeBase64`, `Core.timingResistantEqual`, `Core.initRPCAuthentication`,
    `Core.rpcAuthorized` -- Core (httprpc.cpp, util/strencodings);
  * `decodeBase64_encode`, `timingResistantEqual_iff`, `hexStr_eq_hex` -- the formats, one by one;
  * `splitEntry_rawValue` -- an entry is read back just if the username has no colon;
  * `credentials_authenticate_iff` -- so credentials authenticate just if the username has neither a
    colon nor a NUL; `colon_refused` -- one with a colon.
-/
import Mathlib.Data.List.GetD
import Mathlib.Data.Nat.Bitwise
import SwiftBitcoinKernel.Logic.Base64
import SwiftBitcoinKernel.Config.Builder

namespace SwiftBitcoinKernel

open Logic

/-! ## 1. The client -/

/-- `RPCAuth`; texts by their UTF-8 bytes. -/
structure RPCAuth where
  username : Data
  salt : Data
  passwordHMAC : Data

namespace RPCAuth

/-- `RPCAuth.hex(_:)`. -/
def hex (bytes : Data) : Data :=
  let digits := utf8 "0123456789abcdef"
  bytes.flatMap fun byte : UInt8 =>
    [digits.getD (byte >>> 4).toNat 0, digits.getD (byte &&& 0x0f).toNat 0]

/-- `RPCAuth.hmacHex(salt:password:)`; the key is the text of the salt. -/
def hmacHex (hmac : Data → Data → Data) (salt password : Data) : Data := hex (hmac salt password)

/-- `RPCAuth(username:password:)`, for the random bytes of the salt. -/
def ofPassword (hmac : Data → Data → Data) (random : Vector UInt8 16) (username password : Data) :
    RPCAuth :=
  let salt := hex random.toList
  ⟨username, salt, hmacHex hmac salt password⟩

/-- `RPCAuth.rawValue`. -/
def rawValue (auth : RPCAuth) : Data :=
  auth.username ++ 58 :: auth.salt ++ 36 :: auth.passwordHMAC

end RPCAuth

/-- The `Authorization` header of `HTTPTransport.send`. -/
def HTTPTransport.authorization (username password : Data) : Data :=
  utf8 "Basic " ++ Base64.encode (username ++ 58 :: password)

/-! ## 2. Core -/

namespace Core

/-- `HexStr`. -/
def hexStr (bytes : Data) : Data :=
  let hexmap : Data := [48, 49, 50, 51, 52, 53, 54, 55, 56, 57, 97, 98, 99, 100, 101, 102]
  bytes.flatMap fun v : UInt8 => [hexmap.getD (v >>> 4).toNat 0, hexmap.getD (v &&& 15).toNat 0]

/-- `ConvertBits<6, 8, false>`, from the bits left over of the values before. -/
def convertBits (acc bits : Nat) : List (Option Nat) → Option Data
  | [] => if 6 ≤ bits ∨ (acc <<< (8 - bits)) &&& 255 ≠ 0 then none else some []
  | none :: _ => none
  | some v :: rest =>
    let acc := (acc <<< 6 ||| v) &&& 8191
    let bits := bits + 6
    -- fewer than eight bits were left over, so at most one byte is complete
    if 8 ≤ bits then
      (convertBits acc (bits - 8) rest).map (UInt8.ofNat ((acc >>> (bits - 8)) &&& 255) :: ·)
    else convertBits acc bits rest

/-- One pad less at the end. -/
def removePad (str : Data) : Data := if str.getLast? = some Base64.pad then str.dropLast else str

/-- `DecodeBase64`. -/
def decodeBase64 (str : Data) : Option Data :=
  if str.length % 4 ≠ 0 then none
  else convertBits 0 0 ((removePad (removePad str)).map Base64.value)

/-- `TimingResistantEqual`. -/
def timingResistantEqual (a b : Data) : Bool :=
  if b.length = 0 then a.length = 0
  else (List.range a.length).foldl
    (fun accumulator i => accumulator ||| ((a.getD i 0) ^^^ (b.getD (i % b.length) 0)).toNat)
    (a.length ^^^ b.length) = 0

/-- The fields of an `-rpcauth` value: a username, a salt and a hash. -/
def splitEntry (rpcauth : Data) : Option (List Data) :=
  let fields := rpcauth.splitOn 58
  let saltHMAC := (fields.getLastD []).splitOn 36
  if fields.length = 2 ∧ saltHMAC.length = 2 then some (fields.dropLast ++ saltHMAC) else none

/-- The part of `InitRPCAuthentication` that reads `-rpcauth`, after the entries there are. -/
def initRPCAuthentication (entries : List (List Data)) : List Data → Option (List (List Data))
  | [] => some entries
  | rpcauth :: rest =>
    (splitEntry rpcauth).bind fun fields => initRPCAuthentication (entries ++ [fields]) rest

/-- `CheckUserAuthorized`. -/
def checkUserAuthorized (hmac : Data → Data → Data) (entries : List (List Data))
    (user pass : Data) : Bool :=
  entries.any fun fields =>
    timingResistantEqual (fields.getD 0 []) user &&
      timingResistantEqual (hexStr (hmac (fields.getD 1 []) pass)) (fields.getD 2 [])

/-- `RPCAuthorized`. -/
def rpcAuthorized (hmac : Data → Data → Data) (entries : List (List Data)) (auth : Data) : Bool :=
  (utf8 "Basic ").isPrefixOf auth &&
    (decodeBase64 (trimStringView (auth.drop 6))).any fun userPass =>
      userPass.contains 58 &&
        checkUserAuthorized hmac entries (userPass.takeWhile (· ≠ 58))
          (userPass.drop ((userPass.takeWhile (· ≠ 58)).length + 1))

/-! ## 3. The formats -/

/-- The accumulator of `ConvertBits` after one value more. -/
def accumulate (acc v : Nat) : Nat := (acc * 64 + v) % 8192

theorem accumulate_eq {acc v : Nat} (hv : v < 64) :
    (acc <<< 6 ||| v) &&& 8191 = accumulate acc v := by
  have hor : acc <<< 6 + v = acc <<< 6 ||| v := Nat.shiftLeft_add_eq_or_of_lt hv acc
  have hmod : ∀ n : Nat, n &&& 8191 = n % 8192 := fun n => Nat.and_two_pow_sub_one_eq_mod n 13
  rw [← hor, hmod, Nat.shiftLeft_eq, accumulate]

theorem and_byte (n : Nat) : n &&& 255 = n % 256 := Nat.and_two_pow_sub_one_eq_mod n 8

/-- A value after whole bytes completes none. -/
theorem convertBits_first {acc v : Nat} (hv : v < 64) (rest : List (Option Nat)) :
    convertBits acc 0 (some v :: rest) = convertBits (accumulate acc v) 6 rest := by
  rw [convertBits]
  simp only [accumulate_eq hv]
  rfl

/-- A value after two bits or more completes a byte. -/
theorem convertBits_next {acc v : Nat} (bits : Nat) (a : UInt8) (hv : v < 64)
    (ha : (accumulate acc v >>> bits) % 256 = a.toNat) (rest : List (Option Nat)) :
    convertBits acc (bits + 2) (some v :: rest) =
      (convertBits (accumulate acc v) bits rest).map (a :: ·) := by
  have hbyte : UInt8.ofNat (accumulate acc v >>> bits &&& 255) = a := by
    rw [and_byte, ha]
    exact UInt8.ofNat_toNat
  rw [convertBits]
  simp only [accumulate_eq hv]
  rw [if_pos (by omega), show bits + 2 + 6 - 8 = bits by omega, hbyte]

/-- The end, where the bits left over are those of the padding. -/
theorem convertBits_end {acc bits : Nat} (hbits : bits < 6) (hacc : (acc <<< (8 - bits)) % 256 = 0) :
    convertBits acc bits [] = some [] := by
  rw [convertBits, and_byte, if_neg]
  omega

/-- **The groups of six bits are read back as the bytes**, whatever bits went before. -/
theorem convertBits_sextets (acc : Nat) (bytes : Data) :
    convertBits acc 0 ((Base64.sextets bytes).map some) = some bytes := by
  induction bytes using Base64.sextets.induct generalizing acc with
  | case1 =>
    refine convertBits_end (by omega) ?_
    rw [Nat.shiftLeft_eq]
    omega
  | case2 a =>
    have ha := a.toNat_lt
    rw [Base64.sextets, List.map_cons, List.map_cons, List.map_nil, convertBits_first (by omega),
      convertBits_next 4 a (by omega), convertBits_end (by omega), Option.map_some]
    · simp only [accumulate, Nat.shiftLeft_eq]
      omega
    · simp only [accumulate, Nat.shiftRight_eq_div_pow]
      omega
  | case3 a b =>
    have ha := a.toNat_lt
    have hb := b.toNat_lt
    rw [Base64.sextets, List.map_cons, List.map_cons, List.map_cons, List.map_nil,
      convertBits_first (by omega), convertBits_next 4 a (by omega), convertBits_next 2 b (by omega),
      convertBits_end (by omega), Option.map_some, Option.map_some]
    · simp only [accumulate, Nat.shiftLeft_eq]
      omega
    · simp only [accumulate, Nat.shiftRight_eq_div_pow]
      omega
    · simp only [accumulate, Nat.shiftRight_eq_div_pow]
      omega
  | case4 a b c rest ih =>
    have ha := a.toNat_lt
    have hb := b.toNat_lt
    have hc := c.toNat_lt
    rw [Base64.sextets, List.map_cons, List.map_cons, List.map_cons, List.map_cons,
      convertBits_first (by omega), convertBits_next 4 a (by omega), convertBits_next 2 b (by omega),
      convertBits_next 0 c (by omega), ih, Option.map_some, Option.map_some, Option.map_some]
    · simp only [accumulate, Nat.shiftRight_eq_div_pow]
      omega
    · simp only [accumulate, Nat.shiftRight_eq_div_pow]
      omega
    · simp only [accumulate, Nat.shiftRight_eq_div_pow]
      omega

theorem removePad_pad (str : Data) : removePad (str ++ [Base64.pad]) = str := by
  simp [removePad]

theorem removePad_letters {str : Data} (h : Base64.pad ∉ str) : removePad str = str := by
  unfold removePad
  rw [if_neg]
  intro hlast
  exact h (List.mem_of_getLast? hlast)

/-- **`DecodeBase64` undoes the encoding.** -/
theorem decodeBase64_encode (bytes : Data) : decodeBase64 (Base64.encode bytes) = some bytes := by
  have hletters : Base64.pad ∉ (Base64.sextets bytes).map Base64.letter := by
    intro h
    obtain ⟨v, hv, hpad⟩ := List.mem_map.mp h
    exact Base64.letter_ne_pad (Base64.sextets_lt hv) hpad
  have hremoved : removePad (removePad (Base64.encode bytes)) =
      (Base64.sextets bytes).map Base64.letter := by
    unfold Base64.encode
    have hpadding : Base64.padding bytes = 0 ∨ Base64.padding bytes = 1 ∨
        Base64.padding bytes = 2 := by
      unfold Base64.padding
      omega
    rcases hpadding with h | h | h
    · rw [h, List.replicate_zero, List.append_nil, removePad_letters hletters,
        removePad_letters hletters]
    · rw [h, List.replicate_one, removePad_pad, removePad_letters hletters]
    · rw [h, List.replicate_succ', ← List.append_assoc, removePad_pad, List.replicate_one,
        removePad_pad]
  have hvalues : ((Base64.sextets bytes).map Base64.letter).map Base64.value =
      (Base64.sextets bytes).map some := by
    rw [List.map_map]
    refine List.map_congr_left fun v hv => ?_
    exact Base64.value_letter (Base64.sextets_lt hv)
  unfold decodeBase64
  rw [if_neg (by simp [Base64.encode_length]), hremoved, hvalues, convertBits_sextets]

/-- What is written has no space in it. -/
theorem trimStringView_encode (bytes : Data) :
    trimStringView (Base64.encode bytes) = Base64.encode bytes := by
  have hletter : ∀ v : Fin 64, isSpace (Base64.letter v) = false := by decide +kernel
  have hspace : ∀ c ∈ Base64.encode bytes, isSpace c = false := by
    intro c hc
    rcases Base64.mem_encode hc with ⟨v, hv, rfl⟩ | rfl
    · exact hletter ⟨v, hv⟩
    · decide
  exact trimStringView_of_noSpace hspace

theorem foldl_or_eq_zero {ι : Type} (f : ι → Nat) (is : List ι) (n : Nat) :
    is.foldl (fun acc i => acc ||| f i) n = 0 ↔ n = 0 ∧ ∀ i ∈ is, f i = 0 := by
  induction is generalizing n with
  | nil => simp
  | cons i is ih =>
    rw [List.foldl_cons, ih, Nat.or_eq_zero_iff, List.forall_mem_cons, and_assoc]

/-- **`TimingResistantEqual` is equality.** -/
theorem timingResistantEqual_iff (a b : Data) : timingResistantEqual a b = true ↔ a = b := by
  unfold timingResistantEqual
  by_cases hb : b.length = 0
  · rw [if_pos hb]
    rw [List.length_eq_zero_iff] at hb
    simp [hb]
  · have hlengths : a.length ^^^ b.length = 0 ↔ a.length = b.length :=
      ⟨Nat.eq_of_xor_eq_zero, fun h => by rw [h, Nat.xor_self]⟩
    rw [if_neg hb, decide_eq_true_eq, foldl_or_eq_zero, hlengths]
    constructor
    · intro h
      obtain ⟨hlength, hbytes⟩ := h
      refine List.ext_getElem hlength fun i hi hi' => ?_
      have hbyte := hbytes i (List.mem_range.mpr hi)
      rw [Nat.mod_eq_of_lt hi', List.getD_eq_getElem _ _ hi, List.getD_eq_getElem _ _ hi'] at hbyte
      have hxor : a[i] ^^^ b[i] = 0 := UInt8.toNat_inj.mp hbyte
      exact UInt8.xor_eq_zero_iff.mp hxor
    · intro h
      subst h
      refine ⟨rfl, fun i hi => ?_⟩
      rw [Nat.mod_eq_of_lt (List.mem_range.mp hi), UInt8.xor_self]
      rfl

/-- **`HexStr` and the client write the same digits.** -/
theorem hexStr_eq_hex (bytes : Data) : hexStr bytes = RPCAuth.hex bytes := by
  have hdigits : utf8 "0123456789abcdef" =
      [48, 49, 50, 51, 52, 53, 54, 55, 56, 57, 97, 98, 99, 100, 101, 102] := by decide
  rw [hexStr, RPCAuth.hex, hdigits]

/-- Digits are no separators, and no end of a C string. -/
theorem mem_hex {bytes : Data} {c : UInt8} (h : c ∈ RPCAuth.hex bytes) : c ≠ 58 ∧ c ≠ 36 ∧ c ≠ 0 := by
  have hdigits : ∀ n : Fin 16, (utf8 "0123456789abcdef").getD n 0 ≠ 58 ∧
      (utf8 "0123456789abcdef").getD n 0 ≠ 36 ∧ (utf8 "0123456789abcdef").getD n 0 ≠ 0 := by decide
  obtain ⟨byte, _, hc⟩ := List.mem_flatMap.mp h
  have hbyte := byte.toNat_lt
  have hhigh : (byte >>> 4).toNat < 16 := by
    rw [UInt8.toNat_shiftRight, Nat.shiftRight_eq_div_pow]
    have hfour : (4 : UInt8).toNat % 8 = 4 := rfl
    rw [hfour]
    omega
  have hlow : (byte &&& 0x0f).toNat < 16 := by
    rw [UInt8.toNat_and]
    exact Nat.lt_of_le_of_lt Nat.and_le_right (by decide)
  rcases List.mem_cons.mp hc with hc | hc
  · rw [hc]
    exact hdigits ⟨_, hhigh⟩
  · rw [List.mem_singleton.mp hc]
    exact hdigits ⟨_, hlow⟩

/-- **An entry is read back as its three fields just if the username has no colon.** -/
theorem splitEntry_rawValue {auth : RPCAuth} (hsalt : 58 ∉ auth.salt ∧ 36 ∉ auth.salt)
    (hhmac : 58 ∉ auth.passwordHMAC ∧ 36 ∉ auth.passwordHMAC) :
    splitEntry auth.rawValue = (if 58 ∈ auth.username then none
      else some [auth.username, auth.salt, auth.passwordHMAC]) := by
  have hlast : (58 : UInt8) ∉ auth.salt ++ 36 :: auth.passwordHMAC := by
    simp [hsalt.1, hhmac.1]
  have hfields : auth.rawValue.splitOn 58 =
      auth.username.splitOn 58 ++ [auth.salt ++ 36 :: auth.passwordHMAC] := by
    rw [RPCAuth.rawValue, List.append_assoc, List.cons_append,
      List.splitOn_append_cons_of_beq _ _ (by rfl), List.splitOn_eq_singleton hlast]
  have hsplit : (auth.salt ++ 36 :: auth.passwordHMAC).splitOn 36 =
      [auth.salt, auth.passwordHMAC] := by
    rw [List.splitOn_append_cons_of_beq _ _ (by rfl), List.splitOn_eq_singleton hsalt.2,
      List.splitOn_eq_singleton hhmac.2]
    rfl
  unfold splitEntry
  rw [hfields]
  simp only [List.getLastD_concat, hsplit, List.dropLast_concat]
  by_cases hcolon : 58 ∈ auth.username
  · -- a colon in the username makes one field more
    obtain ⟨front, back, husername⟩ := List.append_of_mem hcolon
    have hlength : 2 ≤ (auth.username.splitOn 58).length := by
      rw [husername, List.splitOn_append_cons_of_beq _ _ (by rfl), List.length_append]
      have hfront := List.length_pos_iff.mpr (List.splitOn_ne_nil 58 front)
      have hback := List.length_pos_iff.mpr (List.splitOn_ne_nil 58 back)
      omega
    rw [if_pos hcolon, if_neg]
    simp only [List.length_append, List.length_cons, List.length_nil]
    omega
  · rw [if_neg hcolon, List.splitOn_eq_singleton hcolon]
    simp

/-- The fields of an entry are made of its bytes. -/
theorem mem_of_mem_splitOn {a x : UInt8} {s piece : Data} (hpiece : piece ∈ s.splitOn a)
    (hx : x ∈ piece) : x ∈ s := by
  induction s generalizing piece with
  | nil =>
    rw [List.splitOn_nil, List.mem_singleton] at hpiece
    rw [hpiece] at hx
    cases hx
  | cons b s ih =>
    rw [List.splitOn_cons_eq_if_modifyHead] at hpiece
    split at hpiece
    next =>
      rcases List.mem_cons.mp hpiece with rfl | hpiece
      · cases hx
      · exact List.mem_cons_of_mem b (ih hpiece hx)
    next =>
      cases hsplit : s.splitOn a with
      | nil => exact absurd hsplit (List.splitOn_ne_nil a s)
      | cons first rest =>
        rw [hsplit, List.modifyHead_cons] at hpiece
        rw [hsplit] at ih
        rcases List.mem_cons.mp hpiece with rfl | hpiece
        · rcases List.mem_cons.mp hx with rfl | hx
          · exact List.mem_cons_self
          · exact List.mem_cons_of_mem b (ih List.mem_cons_self hx)
        · exact List.mem_cons_of_mem b (ih (List.mem_cons_of_mem first hpiece) hx)

theorem mem_of_splitEntry {s field : Data} {fields : List Data} {x : UInt8}
    (h : splitEntry s = some fields) (hfield : field ∈ fields) (hx : x ∈ field) : x ∈ s := by
  simp only [splitEntry] at h
  split at h
  next =>
    cases h
    rcases List.mem_append.mp hfield with hfield | hfield
    · exact mem_of_mem_splitOn (List.mem_of_mem_dropLast hfield) hx
    · have hlast := mem_of_mem_splitOn hfield hx
      cases hsplit : (s.splitOn 58).getLast? with
      | none => exact absurd (List.getLast?_eq_none_iff.mp hsplit) (List.splitOn_ne_nil 58 s)
      | some last =>
        rw [List.getLastD_eq_getLast?, hsplit] at hlast
        exact mem_of_mem_splitOn (List.mem_of_getLast? hsplit) hlast
  next => cases h

end Core

/-! ## 4. The credentials -/

/-- Generated credentials authenticate: Core accepts the argument and stores the three fields after
    the entries it has, and the header then passes. -/
def Authenticates (hmac : Data → Data → Data) (entries : List (List Data))
    (random : Vector UInt8 16) (username password : Data) : Prop :=
  let auth := RPCAuth.ofPassword hmac random username password
  let stored := entries ++ [[username, auth.salt, auth.passwordHMAC]]
  ∃ settings,
    Core.parseParameters [Core.argument (utf8 "rpcauth") (some auth.rawValue)] = some settings ∧
    Core.initRPCAuthentication entries (settings.getArgs (utf8 "rpcauth")) = some stored ∧
    Core.rpcAuthorized hmac stored (HTTPTransport.authorization username password) = true

section Credentials

variable (hmac : Data → Data → Data) (random : Vector UInt8 16) {username password : Data}

/-- **The header passes**, if the username ends at the first colon. -/
theorem rpcAuthorized_authorization (entries : List (List Data)) (hcolon : 58 ∉ username) :
    Core.rpcAuthorized hmac
      (entries ++ [[username, (RPCAuth.ofPassword hmac random username password).salt,
        (RPCAuth.ofPassword hmac random username password).passwordHMAC]])
      (HTTPTransport.authorization username password) = true := by
  have hkeep : ∀ b ∈ username, decide (b ≠ 58) = true := by
    intro b hb
    exact decide_eq_true fun h => hcolon (h ▸ hb)
  have huser : (username ++ 58 :: password).takeWhile (· ≠ 58) = username := by
    rw [List.takeWhile_append_of_pos hkeep]
    simp
  have hpass : (username ++ 58 :: password).drop (username.length + 1) = password := by
    simp
  have hbasic : (utf8 "Basic ").isPrefixOf (HTTPTransport.authorization username password) = true :=
    List.isPrefixOf_iff_prefix.mpr (List.prefix_append _ _)
  have hdrop : (HTTPTransport.authorization username password).drop (utf8 "Basic ").length =
      Base64.encode (username ++ 58 :: password) := List.drop_left
  have hsix : (utf8 "Basic ").length = 6 := by decide
  rw [hsix] at hdrop
  unfold Core.rpcAuthorized
  rw [hbasic, hdrop, Core.trimStringView_encode, Core.decodeBase64_encode, Option.any_some, huser,
    hpass, Core.checkUserAuthorized, List.any_append]
  simp [Core.timingResistantEqual_iff, Core.hexStr_eq_hex, RPCAuth.ofPassword, RPCAuth.hmacHex]

/-- What Core reads of the argument, and what it makes of it. -/
theorem initRPCAuthentication_argument (entries : List (List Data)) (value : Data) :
    ∃ settings, Core.parseParameters [Core.argument (utf8 "rpcauth") (some value)] = some settings ∧
      Core.initRPCAuthentication entries (settings.getArgs (utf8 "rpcauth")) =
        (Core.splitEntry (cString value)).map fun fields => entries ++ [fields] := by
  have hflags : ∃ flags, Core.getArgFlags (utf8 "rpcauth") = some flags ∧
      flags.disallowElision = false := by decide +kernel
  obtain ⟨flags, hregistered, helision⟩ := hflags
  have hloop : Core.parseArguments Core.getArgFlags
      [Core.argument (utf8 "rpcauth") (some value)] =
        some [(utf8 "rpcauth", .text (cString value))] :=
    Core.parseArguments_plain (OptionName.plainKey_key (.text .rpcAuth)) hregistered
      (fun _ => Option.some_ne_none value) []
  have hinclude : Core.Settings.getArgs [(utf8 "rpcauth", .text (cString value))]
      (utf8 "includeconf") = [] := by
    have hne : utf8 "rpcauth" ≠ utf8 "includeconf" := by decide
    simp [Core.Settings.getArgs, Core.Settings.values, hne]
  have hargs : Core.Settings.getArgs [(utf8 "rpcauth", .text (cString value))] (utf8 "rpcauth") =
      [cString value] := by
    simp [Core.Settings.getArgs, Core.Settings.values, List.rtakeWhile, Core.SettingsValue.toText]
  refine ⟨[(utf8 "rpcauth", .text (cString value))], ?_, ?_⟩
  · rw [Core.parseParameters, hloop, Option.bind_some, if_pos hinclude]
  rw [hargs, Core.initRPCAuthentication]
  cases Core.splitEntry (cString value) <;> rfl

/-- The entry of generated credentials, as Core splits it. -/
theorem splitEntry_ofPassword (username password : Data) :
    Core.splitEntry (RPCAuth.ofPassword hmac random username password).rawValue =
      if 58 ∈ username then none
      else some [username, (RPCAuth.ofPassword hmac random username password).salt,
        (RPCAuth.ofPassword hmac random username password).passwordHMAC] := by
  have hhex : ∀ bytes, 58 ∉ RPCAuth.hex bytes ∧ 36 ∉ RPCAuth.hex bytes := by
    intro bytes
    exact ⟨fun h => (Core.mem_hex h).1 rfl, fun h => (Core.mem_hex h).2.1 rfl⟩
  exact Core.splitEntry_rawValue (hhex _) (hhex _)

/-- The argument has a NUL just where the username has one. -/
theorem rawValue_noNul (password : Data) (hnul : 0 ∉ username) :
    0 ∉ (RPCAuth.ofPassword hmac random username password).rawValue := by
  have hhex : ∀ bytes, 0 ∉ RPCAuth.hex bytes := fun bytes h => (Core.mem_hex h).2.2 rfl
  simp [RPCAuth.rawValue, RPCAuth.ofPassword, RPCAuth.hmacHex, hnul, hhex]

/-- **When generated credentials authenticate.** For every hash function, every salt, every password
    and whatever entries Core has: just if the username has neither a colon nor a NUL. -/
theorem credentials_authenticate_iff (entries : List (List Data)) :
    Authenticates hmac entries random username password ↔ 58 ∉ username ∧ 0 ∉ username := by
  obtain ⟨settings, hparse, hinit⟩ := initRPCAuthentication_argument entries
    (RPCAuth.ofPassword hmac random username password).rawValue
  have hsplit := splitEntry_ofPassword hmac random username password
  have hwhole : 0 ∉ username → 0 ∉ (RPCAuth.ofPassword hmac random username password).rawValue :=
    rawValue_noNul hmac random password
  unfold Authenticates
  simp only [hparse, Option.some.injEq, exists_eq_left', hinit]
  constructor
  · intro h
    obtain ⟨fields, hfields, hstored⟩ := Option.map_eq_some_iff.mp h.1
    cases List.singleton_inj.mp (List.append_cancel_left hstored)
    have hnul : 0 ∉ username := by
      intro hmem
      have hread := Core.mem_of_splitEntry hfields List.mem_cons_self hmem
      exact absurd (List.mem_takeWhile_imp hread) (by decide)
    refine ⟨fun hcolon => ?_, hnul⟩
    rw [cString_eq_self_iff.mpr (hwhole hnul), hsplit, if_pos hcolon] at hfields
    cases hfields
  · intro h
    obtain ⟨hcolon, hnul⟩ := h
    refine ⟨?_, rpcAuthorized_authorization hmac random entries hcolon⟩
    rw [cString_eq_self_iff.mpr (hwhole hnul), hsplit, if_neg hcolon]
    rfl

end Credentials

/-- A colon in the username: Core refuses the argument, whatever the password. -/
theorem colon_refused :
    let auth := RPCAuth.ofPassword (fun _ _ => []) (Vector.replicate 16 0) (utf8 "a:b") (utf8 "p")
    (Core.parseParameters [Core.argument (utf8 "rpcauth") (some auth.rawValue)]).bind
      (fun settings => Core.initRPCAuthentication [] (settings.getArgs (utf8 "rpcauth"))) = none := by
  decide +kernel

end SwiftBitcoinKernel
