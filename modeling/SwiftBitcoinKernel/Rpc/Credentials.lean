/-
  File:      SwiftBitcoinKernel/Rpc/Credentials.lean
  Subject:   Credentials from text: `RPCAuth(rawString:)` and `Daemon.parseCookie`.

  Both parsers split with `split(separator:maxSplits:)`, which leaves out empty pieces and does not
  count them. A `String` is split by its `Character`s, and which those are is a parameter (`G`): a
  combining mark after a separator makes one `Character` of the two, which is no separator.

  * `RPCAuth.ofRawString`, `Daemon.parseCookie` -- the source's functions;
  * `ofRawString_eq_some`, `parseCookie_eq_ok` -- what they accept, and what they make of it:
    separators in front are dropped;
  * `rawString_inverse_iff` -- so parsing and printing are inverse just where there are none, and
    where the separators that printing puts in are `Character`s;
  * `parseCookie_exact_iff` -- the same for the grammar of cookies.
-/
import SwiftBitcoinKernel.Logic.Splitting
import SwiftBitcoinKernel.Rpc.Auth
import SwiftBitcoinKernel.Sync.EsploraAPI

namespace SwiftBitcoinKernel

open Logic

/-! ## 1. An `rpcauth` entry -/

namespace RPCAuth

/-- `RPCAuth.init?(rawString:)`. -/
def ofRawString (G : Segmentation UInt8) (rawString : Data) : Option RPCAuth :=
  match Collection.split [36] 1 true (G.cut rawString) with
  | [front, passwordHMAC] =>
    match Collection.split [58] 1 true front with
    | [username, salt] => some ⟨username.flatten, salt.flatten, passwordHMAC.flatten⟩
    | _ => none
  | _ => none

/-- What a credential has to be for its text to be read back: the parts are not empty, the username
    has neither separator, and the salt no `$`. -/
structure Plain (G : Segmentation UInt8) (auth : RPCAuth) : Prop where
  username_ne : auth.username ≠ []
  username_colon : [58] ∉ G.cut auth.username
  username_dollar : [36] ∉ G.cut auth.username
  salt_ne : auth.salt ≠ []
  salt_dollar : [36] ∉ G.cut auth.salt
  passwordHMAC_ne : auth.passwordHMAC ≠ []

/-- The `Character`s of a credential, with the separators between them. -/
def characters (G : Segmentation UInt8) (auth : RPCAuth) : List (List UInt8) :=
  G.cut auth.username ++ [58] :: G.cut auth.salt ++ [36] :: G.cut auth.passwordHMAC

variable {G : Segmentation UInt8} {auth : RPCAuth} {rawString : Data}

theorem characters_flatten : (auth.characters G).flatten = auth.rawValue := by
  simp [characters, rawValue, G.flatten_cut]

/-- What the two nested splits leave. -/
theorem ofRawString_eq_some_iff : ofRawString G rawString = some auth ↔
    ∃ front passwordHMAC username salt,
      Collection.split [36] 1 true (G.cut rawString) = [front, passwordHMAC] ∧
        Collection.split [58] 1 true front = [username, salt] ∧
          auth = ⟨username.flatten, salt.flatten, passwordHMAC.flatten⟩ := by
  unfold ofRawString
  constructor
  · intro h
    split at h
    · rename_i front passwordHMAC hdollar
      split at h
      · rename_i username salt hcolon
        exact ⟨front, passwordHMAC, username, salt, hdollar, hcolon, (Option.some.inj h).symm⟩
      · cases h
    · cases h
  · intro h
    obtain ⟨front, passwordHMAC, username, salt, hdollar, hcolon, hauth⟩ := h
    rw [hdollar]
    dsimp only
    rw [hcolon, hauth]

/-- **What is accepted**: any number of `$`, then any of `:`, then a credential. -/
theorem ofRawString_eq_some : ofRawString G rawString = some auth ↔
    auth.Plain G ∧ ∃ dollars colons,
      G.cut rawString =
        List.replicate dollars [36] ++ (List.replicate colons [58] ++ auth.characters G) := by
  rw [ofRawString_eq_some_iff]
  constructor
  · intro h
    obtain ⟨front, passwordHMAC, username, salt, hdollar, hcolon, hauth⟩ := h
    obtain ⟨dollars, f, h, rfl, rfl, hcut, -, hfront, hh⟩ := G.split_once.1 hdollar
    obtain ⟨colons, u, s, rfl, rfl, hf, hu, hucolon, hs⟩ := G.split_once.1 hcolon
    simp only [G.flatten_cut] at hauth
    subst hauth
    rw [hf, List.mem_append, List.mem_append, List.mem_cons, not_or, not_or, not_or] at hfront
    refine ⟨⟨hu, hucolon, hfront.2.1, hs, hfront.2.2.2, hh⟩, dollars, colons, ?_⟩
    simp [characters, hcut, hf]
  · intro h
    obtain ⟨hplain, dollars, colons, hcut⟩ := h
    refine ⟨List.replicate colons [58] ++ (G.cut auth.username ++ [58] :: G.cut auth.salt),
      G.cut auth.passwordHMAC, G.cut auth.username, G.cut auth.salt, ?_, ?_, ?_⟩
    · refine Collection.split_once.2 ⟨dollars, ?_, ?_, ?_, ?_⟩
      · simp [characters, hcut]
      · simp
      · -- neither the colons nor the username nor the salt have a `$`
        simp [hplain.username_dollar, hplain.salt_dollar]
      · exact fun h => hplain.passwordHMAC_ne (G.cut_eq_nil.1 h)
    · refine Collection.split_once.2 ⟨colons, rfl, ?_, hplain.username_colon, ?_⟩
      · exact fun h => hplain.username_ne (G.cut_eq_nil.1 h)
      · exact fun h => hplain.salt_ne (G.cut_eq_nil.1 h)
    · simp only [G.flatten_cut]

section Leading

variable {dollars colons : Nat}

/-- A credential's text is the text it was read from just if nothing was dropped. -/
theorem rawValue_eq_iff (hcut : G.cut rawString =
      List.replicate dollars [36] ++ (List.replicate colons [58] ++ auth.characters G)) :
    auth.rawValue = rawString ↔ dollars = 0 ∧ colons = 0 := by
  have htext : rawString =
      List.replicate dollars 36 ++ (List.replicate colons 58 ++ auth.rawValue) := by
    have hflat := congrArg List.flatten hcut
    rw [G.flatten_cut] at hflat
    simpa [characters_flatten] using hflat
  constructor
  · intro h
    have hlength := congrArg List.length htext
    rw [← h] at hlength
    simp only [List.length_append, List.length_replicate] at hlength
    omega
  · intro h
    rw [htext, h.1, h.2]
    rfl

/-- The first `Character` tells whether something was. -/
theorem head_ne_iff (hplain : auth.Plain G) (hcut : G.cut rawString =
      List.replicate dollars [36] ++ (List.replicate colons [58] ++ auth.characters G)) :
    ((G.cut rawString).head? ≠ some [58] ∧ (G.cut rawString).head? ≠ some [36]) ↔
      dollars = 0 ∧ colons = 0 := by
  rw [hcut]
  cases dollars with
  | succ dollars => simp [List.replicate_succ]
  | zero =>
    cases colons with
    | succ colons => simp [List.replicate_succ]
    | zero =>
      have hhead : ∀ x, [x] ∉ G.cut auth.username → (auth.characters G).head? ≠ some [x] := by
        intro x hx
        rw [characters, List.append_assoc]
        exact G.head?_cut_append_ne hplain.username_ne hx
      have hcolon := hhead 58 hplain.username_colon
      have hdollar := hhead 36 hplain.username_dollar
      exact ⟨fun _ => ⟨rfl, rfl⟩, fun _ => ⟨hcolon, hdollar⟩⟩

end Leading

/-- **Parsing and printing.** A text that is accepted is printed again from what it is parsed as
    just if it does not begin with a separator; and a credential with the parts printing asks for is
    parsed again from its text just if both separators are `Character`s of that text. -/
theorem rawString_inverse_iff (G : Segmentation UInt8) :
    (∀ rawString auth, ofRawString G rawString = some auth →
      (auth.rawValue = rawString ↔
        (G.cut rawString).head? ≠ some [58] ∧ (G.cut rawString).head? ≠ some [36])) ∧
    ∀ auth : RPCAuth, auth.Plain G →
      (ofRawString G auth.rawValue = some auth ↔ G.cut auth.rawValue = auth.characters G) := by
  constructor
  · intro rawString auth hparsed
    obtain ⟨hplain, dollars, colons, hcut⟩ := ofRawString_eq_some.1 hparsed
    rw [rawValue_eq_iff hcut, head_ne_iff hplain hcut]
  · intro auth hplain
    rw [ofRawString_eq_some]
    constructor
    · intro h
      obtain ⟨-, dollars, colons, hcut⟩ := h
      obtain ⟨rfl, rfl⟩ := (rawValue_eq_iff hcut).1 rfl
      exact hcut
    · intro hcut
      exact ⟨hplain, 0, 0, hcut⟩

theorem plain_read_back :
    rawValue ⟨utf8 "u", utf8 "s", utf8 "h"⟩ = utf8 "u:s$h" ∧
      ofRawString .units (rawValue ⟨utf8 "u", utf8 "s", utf8 "h"⟩) =
        some ⟨utf8 "u", utf8 "s", utf8 "h"⟩ := by
  refine ⟨((rawString_inverse_iff .units).1 (utf8 "u:s$h") _ rfl).2 (by decide), ?_⟩
  refine ((rawString_inverse_iff .units).2 ⟨utf8 "u", utf8 "s", utf8 "h"⟩ ?_).2 rfl
  exact ⟨by decide, by decide, by decide, by decide, by decide, by decide⟩

-- The bytes that go on with a scalar, and those a combining mark up to U+033F begins with, join
-- the `Character` before them. A salt that begins with an acute takes the colon away.
example : ofRawString (.pairwise fun _ b => (128 ≤ b && b < 192) || b == 0xCC)
    (rawValue ⟨utf8 "u", utf8 "\u0301s", utf8 "h"⟩) = none := rfl

/-- An entry with a colon in front is accepted, and printed without it. -/
theorem leading_colon_dropped :
    ∃ auth, ofRawString .units (utf8 ":u:s$h") = some auth ∧ auth.rawValue = utf8 "u:s$h" ∧
      auth.rawValue ≠ utf8 ":u:s$h" := by
  refine ⟨⟨utf8 "u", utf8 "s", utf8 "h"⟩, rfl, rfl, ?_⟩
  decide

end RPCAuth

/-! ## 2. A cookie -/

namespace Daemon

/-- `Daemon.parseCookie(_:)`. -/
def parseCookie (G : Segmentation Char) (contents : String) :
    Except SwiftError (String × String) :=
  let trimmed := EsploraAPI.trimming contents.toList
  if trimmed.isEmpty then .error (.url .userAuthenticationRequired)
  else
    match Collection.split [':'] 1 true (G.cut trimmed) with
    | [username, password] =>
      if username.isEmpty || password.isEmpty then .error (.url .userAuthenticationRequired)
      else .ok (String.ofList username.flatten, String.ofList password.flatten)
    | _ => .error (.url .userAuthenticationRequired)

/-- The grammar of a cookie: a username without a colon, a colon, and a password. -/
structure IsCookie (G : Segmentation Char) (trimmed : List Char) (username password : String) :
    Prop where
  text : trimmed = username.toList ++ ':' :: password.toList
  username_ne : username.toList ≠ []
  username_colon : [':'] ∉ G.cut username.toList
  password_ne : password.toList ≠ []

variable {G : Segmentation Char} {contents username password : String}

/-- Where there are two pieces, the guards before and after the split are met. -/
theorem split_ne_nil {trimmed : List Char} {u p : List (List Char)}
    (h : Collection.split [':'] 1 true (G.cut trimmed) = [u, p]) :
    trimmed.isEmpty = false ∧ (u.isEmpty || p.isEmpty) = false := by
  obtain ⟨colons, hcut, hu, -, hp⟩ := Collection.split_once.1 h
  constructor
  · have hne : trimmed ≠ [] := by
      intro hnil
      rw [G.cut_eq_nil.2 hnil] at hcut
      simp at hcut
    simpa using hne
  · simpa using ⟨hu, hp⟩

/-- The two pieces are what is returned. -/
theorem parseCookie_eq_ok_iff : parseCookie G contents = .ok (username, password) ↔
    ∃ u p, Collection.split [':'] 1 true (G.cut (EsploraAPI.trimming contents.toList)) = [u, p] ∧
      username = String.ofList u.flatten ∧ password = String.ofList p.flatten := by
  unfold parseCookie
  dsimp only
  constructor
  · intro h
    split at h
    · cases h
    split at h
    · rename_i u p hsplit
      rw [if_neg (Bool.eq_false_iff.1 (split_ne_nil hsplit).2)] at h
      obtain ⟨hu, hp⟩ := Prod.mk.inj (Except.ok.inj h)
      exact ⟨u, p, hsplit, hu.symm, hp.symm⟩
    · cases h
  · intro h
    obtain ⟨u, p, hsplit, hu, hp⟩ := h
    have hguards := split_ne_nil hsplit
    rw [if_neg (Bool.eq_false_iff.1 hguards.1), hsplit]
    dsimp only
    rw [if_neg (Bool.eq_false_iff.1 hguards.2), hu, hp]

/-- **What is accepted**: any number of colons, then a cookie. -/
theorem parseCookie_eq_ok : parseCookie G contents = .ok (username, password) ↔
    username.toList ≠ [] ∧ [':'] ∉ G.cut username.toList ∧ password.toList ≠ [] ∧
      ∃ colons, G.cut (EsploraAPI.trimming contents.toList) =
        List.replicate colons [':'] ++
          (G.cut username.toList ++ [':'] :: G.cut password.toList) := by
  rw [parseCookie_eq_ok_iff]
  constructor
  · intro h
    obtain ⟨u, p, hsplit, hu, hp⟩ := h
    obtain ⟨colons, a, b, rfl, rfl, hcut, ha, hcolon, hb⟩ := G.split_once.1 hsplit
    rw [G.flatten_cut] at hu hp
    rw [hu, hp, String.toList_ofList, String.toList_ofList]
    exact ⟨ha, hcolon, hb, colons, hcut⟩
  · intro h
    obtain ⟨hu, hcolon, hp, colons, hcut⟩ := h
    refine ⟨G.cut username.toList, G.cut password.toList,
      G.split_once.2 ⟨colons, _, _, rfl, rfl, hcut, hu, hcolon, hp⟩, ?_, ?_⟩
    · rw [G.flatten_cut, String.ofList_toList]
    · rw [G.flatten_cut, String.ofList_toList]

section Leading

variable {colons : Nat} (hcut : G.cut (EsploraAPI.trimming contents.toList) =
  List.replicate colons [':'] ++ (G.cut username.toList ++ [':'] :: G.cut password.toList))

include hcut

theorem trimming_eq : EsploraAPI.trimming contents.toList =
    List.replicate colons ':' ++ (username.toList ++ ':' :: password.toList) := by
  have hflat := congrArg List.flatten hcut
  rw [G.flatten_cut] at hflat
  simpa [G.flatten_cut] using hflat

/-- The pair, joined again, is the trimmed text just if no colon was dropped. -/
theorem joined_iff : EsploraAPI.trimming contents.toList =
    username.toList ++ ':' :: password.toList ↔ colons = 0 := by
  have htext := trimming_eq hcut
  constructor
  · intro h
    have hlength := congrArg List.length htext
    rw [h] at hlength
    simp only [List.length_append, List.length_replicate] at hlength
    omega
  · intro h
    rw [htext, h]
    rfl

/-- The first `Character` tells whether one was. -/
theorem head_ne_iff (hne : username.toList ≠ []) (hcolon : [':'] ∉ G.cut username.toList) :
    (G.cut (EsploraAPI.trimming contents.toList)).head? ≠ some [':'] ↔ colons = 0 := by
  rw [hcut]
  cases colons with
  | succ colons => simp [List.replicate_succ]
  | zero =>
    exact ⟨fun _ => rfl, fun _ => G.head?_cut_append_ne hne hcolon⟩

end Leading

/-- Something is accepted just if a colon stands between another `Character` and the end. -/
theorem exists_parseCookie_eq_ok : (∃ username password,
      parseCookie G contents = .ok (username, password)) ↔
    ∃ front back, G.cut (EsploraAPI.trimming contents.toList) = front ++ [':'] :: back ∧
      back ≠ [] ∧ ∃ c ∈ front, c ≠ [':'] := by
  rw [← Collection.exists_split_once]
  constructor
  · rintro ⟨username, password, hparsed⟩
    obtain ⟨u, p, hsplit, -⟩ := parseCookie_eq_ok_iff.1 hparsed
    exact ⟨u, p, hsplit⟩
  · rintro ⟨u, p, hsplit⟩
    exact ⟨_, _, parseCookie_eq_ok_iff.2 ⟨u, p, hsplit, rfl, rfl⟩⟩

/-- **Which cookies are read by the grammar.** What `parseCookie` returns is what the grammar says
    for just these contents: if they begin with a colon, a colon with something behind it has nothing
    but colons in front of it; and the colon of the grammar is a `Character`. -/
theorem parseCookie_exact_iff (G : Segmentation Char) (contents : String) :
    (∀ username password, parseCookie G contents = .ok (username, password) ↔
      IsCookie G (EsploraAPI.trimming contents.toList) username password) ↔
    ((G.cut (EsploraAPI.trimming contents.toList)).head? = some [':'] →
      ∀ front back, G.cut (EsploraAPI.trimming contents.toList) = front ++ [':'] :: back →
        back ≠ [] → ∀ c ∈ front, c = [':']) ∧
    ∀ username password, IsCookie G (EsploraAPI.trimming contents.toList) username password →
      G.Apart username.toList ':' password.toList := by
  constructor
  · intro hexact
    constructor
    · intro hhead front back hchars hback c hc
      by_contra hne
      obtain ⟨username, password, hparsed⟩ :=
        exists_parseCookie_eq_ok.2 ⟨front, back, hchars, hback, c, hc, hne⟩
      obtain ⟨husername, hcolon, -, colons, hcut⟩ := parseCookie_eq_ok.1 hparsed
      have htext := ((hexact username password).1 hparsed).text
      exact absurd hhead ((head_ne_iff hcut husername hcolon).2 ((joined_iff hcut).1 htext))
    · intro username password hcookie
      obtain ⟨-, -, -, colons, hcut⟩ :=
        parseCookie_eq_ok.1 ((hexact username password).2 hcookie)
      rw [(joined_iff hcut).1 hcookie.text, hcookie.text] at hcut
      exact hcut
  · intro h username password
    obtain ⟨hleading, hapart⟩ := h
    constructor
    · intro hparsed
      obtain ⟨hne, hcolon, hpne, colons, hcut⟩ := parseCookie_eq_ok.1 hparsed
      have hhead : (G.cut (EsploraAPI.trimming contents.toList)).head? ≠ some [':'] := by
        intro hhead
        obtain ⟨front, back, hchars, hback, c, hc, hother⟩ :=
          exists_parseCookie_eq_ok.1 ⟨username, password, hparsed⟩
        exact hother (hleading hhead front back hchars hback c hc)
      have hnone := (head_ne_iff hcut hne hcolon).1 hhead
      exact ⟨(joined_iff hcut).2 hnone, hne, hcolon, hpne⟩
    · intro hcookie
      refine parseCookie_eq_ok.2 ⟨hcookie.username_ne, hcookie.username_colon,
        hcookie.password_ne, 0, ?_⟩
      rw [hcookie.text]
      exact hapart username password hcookie

theorem generated_cookie_read :
    parseCookie .units "__cookie__:4f\n" = .ok ("__cookie__", "4f") := by
  refine ((parseCookie_exact_iff .units "__cookie__:4f\n").2 ⟨?_, ?_⟩ "__cookie__" "4f").2 ?_
  · intro hhead
    exact absurd hhead (by decide)
  · exact fun _ _ _ => Segmentation.units_apart _ _ _
  · exact ⟨by decide, by decide, by decide, by decide⟩

/-- A cookie with an empty username is accepted: its password is taken apart. -/
theorem empty_username_accepted :
    parseCookie .units ":user:pass" = .ok ("user", "pass") ∧
      ¬IsCookie .units (EsploraAPI.trimming ":user:pass".toList) "user" "pass" := by
  constructor
  · decide
  · intro h
    exact absurd h.text (by decide)

end Daemon

end SwiftBitcoinKernel
