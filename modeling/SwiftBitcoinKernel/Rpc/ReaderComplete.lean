/-
  File:      SwiftBitcoinKernel/Rpc/ReaderComplete.lean
  Subject:   `UniValue::read` on well-formed text: it is read, and as what it says.

  * `treeRaw` -- the value of a tree, for a reading of its strings;
  * `readStep_scalar` … `readStep_colon` -- a token in the state it may come in;
  * `Takes` -- reading these tokens takes one state to another, with rules to put them together;
  * `value_reads` -- the tokens of a value put it where one was expected, by induction on the tree;
  * `readValue_complete` -- so a text of bounded nesting is read, and as its tree.
-/
import SwiftBitcoinKernel.Rpc.ReaderTokens

namespace SwiftBitcoinKernel

open Logic
open Logic.Json (Item Tok Tree Renders Spells)

/-! ## 1. Trees -/

mutual

/-- The value of a tree whose strings are read by `read`. -/
def treeRaw (read : List Item → Data) : Tree → RawValue
  | .null => .null
  | .bool b => .bool b
  | .number n => .num n.text
  | .string s => .str (read s)
  | .array ts => .arr (treeRaws read ts)
  | .object ms => .obj (ms.map fun m => read m.1) (memberRaws read ms)

/-- The values of the elements. -/
def treeRaws (read : List Item → Data) : List Tree → List RawValue
  | [] => []
  | t :: ts => treeRaw read t :: treeRaws read ts

/-- The values of the members. -/
def memberRaws (read : List Item → Data) : List (List Item × Tree) → List RawValue
  | [] => []
  | (_, t) :: ms => treeRaw read t :: memberRaws read ms

end

/-- The tokens between the brackets of an array. -/
def elementTokens : List Tree → List Tok
  | [] => []
  | t :: ts => t.tokens ++ Json.moreElements ts

/-- The tokens between the braces of an object. -/
def memberTokens : List (List Item × Tree) → List Tok
  | [] => []
  | (name, t) :: ms => .string name :: .nameSeparator :: (t.tokens ++ Json.moreMembers ms)

theorem tokens_array (ts : List Tree) :
    (Tree.array ts).tokens = .beginArray :: (elementTokens ts ++ [.endArray]) := by
  cases ts with
  | nil => rfl
  | cons t ts =>
    rw [Tree.tokens, elementTokens, List.append_assoc]

theorem tokens_object (ms : List (List Item × Tree)) :
    (Tree.object ms).tokens = .beginObject :: (memberTokens ms ++ [.endObject]) := by
  cases ms with
  | nil => rfl
  | cons m ms =>
    obtain ⟨name, t⟩ := m
    rw [Tree.tokens, memberTokens, List.cons_append, List.cons_append, List.append_assoc]

/-! ## 2. States of the reader -/

namespace ExpectMask

/-- A value was read. -/
def afterValue : ExpectMask := ⟨false, false, false, false, true⟩

/-- An element, or the end of the array. -/
def element : ExpectMask := ⟨false, false, true, false, false⟩

/-- A name, or the end of the object. -/
def name : ExpectMask := ⟨true, false, false, false, false⟩

/-- The colon after a name. -/
def separator : ExpectMask := ⟨false, true, false, false, true⟩

/-- The value after it. -/
def member : ExpectMask := ⟨false, false, false, true, false⟩

/-- A value may come. -/
def AwaitsValue (e : ExpectMask) : Prop := e = element ∨ e = member

end ExpectMask

section Steps

variable {this : RawValue} {top : OpenValue} {stack : List OpenValue} {e : ExpectMask}
  {last : Option JToken}

/-- The token before is no comma and no bracket that opens. -/
structure Settles (last : Option JToken) : Prop where
  comma : last ≠ some .comma
  arrOpen : last ≠ some .arrOpen

/-- The mask of a container that was opened. -/
def openMask (isObj : Bool) : ExpectMask := if isObj then .name else .element

/-- The end of the top of the stack may come: it has a value last, or is empty. -/
structure Closable (top : OpenValue) (e : ExpectMask) (last : Option JToken) : Prop where
  comma : last ≠ some .comma
  expect : e = .afterValue ∨ e = openMask top.isObj

/-- What a scalar is read as. -/
inductive Scalar : Tok → RawValue → Prop where
  | null : Scalar .null .null
  | bool (b : Bool) : Scalar (.bool b) (.bool b)
  | number (n : Json.Number) : Scalar (.number n) (.num n.text)
  | string (s : List Item) : Scalar (.string s) (.str (readItems s))

theorem Scalar.settles {t : Tok} {v : RawValue} (hv : Scalar t v) : Settles (some (readTok t)) := by
  cases hv with
  | bool b => cases b <;> exact ⟨by decide, by decide⟩
  | _ => exact ⟨by simp [readTok], by simp [readTok]⟩

theorem readStep_scalar {t : Tok} {v : RawValue} (hv : Scalar t v) (he : e.AwaitsValue) :
    readStep ⟨this, top :: stack, e, last⟩ (readTok t) =
      (⟨this, top.push v :: stack, .afterValue, some (readTok t)⟩, true) := by
  rcases he with rfl | rfl
  · cases hv with
    | bool b => cases b <;> rfl
    | _ => rfl
  · cases hv with
    | bool b => cases b <;> rfl
    | _ => rfl

/-- The token that opens one. -/
def openTok (isObj : Bool) : Tok := if isObj then .beginObject else .beginArray

/-- The token that closes it. -/
def closeTok (isObj : Bool) : Tok := if isObj then .endObject else .endArray

theorem openContainer_deep (isObj : Bool) (hdepth : stack.length + 1 ≤ 512) :
    openContainer ⟨this, stack, ⟨false, false, false, false, false⟩, last⟩ isObj =
      (⟨this, ⟨isObj, [], []⟩ :: stack, openMask isObj, last⟩, true) := by
  have hlength : ¬(⟨isObj, [], []⟩ :: stack : List OpenValue).length > maxJSONDepth := by
    rw [List.length_cons]
    show ¬stack.length + 1 > 512
    omega
  unfold openContainer
  dsimp only
  rw [if_neg hlength]
  cases isObj <;> rfl

theorem readStep_open (isObj : Bool) (he : e.AwaitsValue ∨ e = ReadState.initial.expect)
    (hdepth : stack.length + 1 ≤ 512) :
    readStep ⟨this, stack, e, last⟩ (readTok (openTok isObj)) =
      (⟨this, ⟨isObj, [], []⟩ :: stack, openMask isObj, some (readTok (openTok isObj))⟩, true) := by
  have hcheck : checkExpect e (readTok (openTok isObj)) =
      some ⟨false, false, false, false, false⟩ := by
    rcases he with (rfl | rfl) | rfl <;> cases isObj <;> rfl
  have hact : actOn ⟨this, stack, ⟨false, false, false, false, false⟩, last⟩
      (readTok (openTok isObj)) =
        openContainer ⟨this, stack, ⟨false, false, false, false, false⟩, last⟩ isObj := by
    cases isObj <;> rfl
  unfold readStep
  rw [hcheck]
  dsimp only
  rw [hact, openContainer_deep isObj hdepth]

/-- The state behind a container: its value is in the one around it, or is all. -/
def closed (this v : RawValue) (stack : List OpenValue) (last : Option JToken) : ReadState :=
  match stack with
  | [] => ⟨v, [], .afterValue, last⟩
  | below :: stack => ⟨this, below.push v :: stack, .afterValue, last⟩

theorem closeContainer_top (hcomma : last ≠ some .comma)
    (he : { e with objName := false, notValue := true } = ExpectMask.afterValue) :
    closeContainer ⟨this, top :: stack, e, last⟩ top.isObj =
      (closed this top.toRaw stack last, true) := by
  unfold closeContainer
  dsimp only
  rw [if_neg hcomma, if_neg (not_not.2 rfl), he]
  cases stack with
  | nil => rfl
  | cons below stack => rfl

theorem readStep_close (hclosable : Closable top e last) :
    readStep ⟨this, top :: stack, e, last⟩ (readTok (closeTok top.isObj)) =
      (closed this top.toRaw stack (some (readTok (closeTok top.isObj))), true) := by
  obtain ⟨hcomma, hexpect⟩ := hclosable
  obtain ⟨e', hcheck, he'⟩ : ∃ e', checkExpect e (readTok (closeTok top.isObj)) = some e' ∧
      { e' with objName := false, notValue := true } = ExpectMask.afterValue := by
    rcases hexpect with rfl | rfl <;> cases top.isObj <;> exact ⟨_, rfl, rfl⟩
  have hact : actOn ⟨this, top :: stack, e', last⟩ (readTok (closeTok top.isObj)) =
      closeContainer ⟨this, top :: stack, e', last⟩ top.isObj := by
    cases top.isObj <;> rfl
  unfold readStep
  rw [hcheck]
  dsimp only
  rw [hact, closeContainer_top hcomma he']
  cases stack with
  | nil => rfl
  | cons below stack => rfl

/-- After a value, a comma. -/
theorem readStep_comma (hlast : Settles last) :
    readStep ⟨this, top :: stack, .afterValue, last⟩ .comma =
      (⟨this, top :: stack, openMask top.isObj, some .comma⟩, true) := by
  have hnot : (decide (last = some JToken.comma) || decide (last = some .arrOpen)) = false := by
    rw [decide_eq_false hlast.comma, decide_eq_false hlast.arrOpen]
    rfl
  have hcheck : checkExpect .afterValue .comma = some ⟨false, false, false, false, false⟩ := rfl
  unfold readStep actOn
  rw [hcheck]
  dsimp only
  rw [hnot, if_neg Bool.false_ne_true]
  obtain ⟨isObj, keys, values⟩ := top
  cases isObj <;> rfl

/-- In an object, a name. -/
theorem readStep_name (s : List Item) :
    readStep ⟨this, top :: stack, .name, last⟩ (readTok (.string s)) =
      (⟨this, top.pushKey (readItems s) :: stack, .separator, some (readTok (.string s))⟩, true) :=
  rfl

/-- After a name, the colon. -/
theorem readStep_colon (hobj : top.isObj = true) :
    readStep ⟨this, top :: stack, .separator, last⟩ .colon =
      (⟨this, top :: stack, .member, some .colon⟩, true) := by
  obtain ⟨isObj, keys, values⟩ := top
  cases hobj
  rfl

end Steps

/-! ## 3. Tokens, one after the other -/

section Takes

variable {toks more : List Tok} {st st' : ReadState} {Q R : ReadState → Prop}

/-- From `st`, reading these tokens of a text comes to the rest of it, in a state as `Q` says. -/
def Takes (toks : List Tok) (st : ReadState) (Q : ReadState → Prop) : Prop :=
  ∀ (ts : List Tok) (s : Data), Renders (toks ++ ts) s → Closing ts →
    ∃ s' st', Renders ts s' ∧ Q st' ∧
      ∀ fuel, runRead (fuel + toks.length) s st = runRead fuel s' st'

theorem runRead_step {t : JToken} {s s' : Data} (hlex : getJsonToken s = .tok t s')
    (hstep : readStep st t = (st', true)) (hstack : st'.stack.isEmpty = false) (fuel : Nat) :
    runRead (fuel + 1) s st = runRead fuel s' st' := by
  rw [runRead, hlex]
  dsimp only
  rw [hstep]
  dsimp only
  rw [Bool.not_true, if_neg Bool.false_ne_true, hstack, if_neg Bool.false_ne_true]

theorem takes_mono (h : Takes toks st Q) (hqr : ∀ st, Q st → R st) : Takes toks st R := by
  intro ts s hr hclosing
  obtain ⟨s', st', hr', hq, hrun⟩ := h ts s hr hclosing
  exact ⟨s', st', hr', hqr st' hq, hrun⟩

theorem takes_nil (h : Q st) : Takes [] st Q := fun _ s hr _ => ⟨s, st, hr, h, fun _ => rfl⟩

/-- One token, and then others. -/
theorem takes_cons {t : Tok} (hnumber : ∀ n, t ≠ .number n)
    (hstep : readStep st (readTok t) = (st', true)) (hstack : st'.stack.isEmpty = false)
    (hrest : Takes toks st' Q) : Takes (t :: toks) st Q := by
  intro ts s hr hclosing
  obtain ⟨s₁, hlex, hr₁⟩ := getJsonToken_renders hr fun n hn => absurd hn (hnumber n)
  obtain ⟨s₂, st₂, hr₂, hq, hrun⟩ := hrest ts s₁ hr₁ hclosing
  refine ⟨s₂, st₂, hr₂, hq, fun fuel => ?_⟩
  rw [← hrun fuel]
  exact runRead_step hlex hstep hstack _

/-- A scalar. -/
theorem takes_scalar {t : Tok} (hstep : readStep st (readTok t) = (st', true))
    (hstack : st'.stack.isEmpty = false) (hq : Q st') : Takes [t] st Q := by
  intro ts s hr hclosing
  obtain ⟨s', hlex, hr'⟩ := getJsonToken_renders hr fun _ _ => hclosing
  exact ⟨s', st', hr', hq, runRead_step hlex hstep hstack⟩

theorem takes_append (hfirst : Takes toks st Q)
    (hclosing : ∀ ts, Closing ts → Closing (more ++ ts)) (hmore : ∀ st', Q st' → Takes more st' R) :
    Takes (toks ++ more) st R := by
  intro ts s hr hts
  rw [List.append_assoc] at hr
  obtain ⟨s₁, st₁, hr₁, hq₁, hrun₁⟩ := hfirst (more ++ ts) s hr (hclosing ts hts)
  obtain ⟨s₂, st₂, hr₂, hq₂, hrun₂⟩ := hmore st₁ hq₁ ts s₁ hr₁ hts
  refine ⟨s₂, st₂, hr₂, hq₂, fun fuel => ?_⟩
  rw [← hrun₂ fuel, ← hrun₁, List.length_append]
  congr 1
  omega

theorem closing_moreElements (elements : List Tree) (ts : List Tok) (h : Closing ts) :
    Closing (Json.moreElements elements ++ ts) := by
  cases elements with
  | nil => exact h
  | cons t elements =>
    intro u hu
    cases hu
    rfl

theorem closing_moreMembers (members : List (List Item × Tree)) (ts : List Tok) (h : Closing ts) :
    Closing (Json.moreMembers members ++ ts) := by
  cases members with
  | nil => exact h
  | cons m members =>
    intro u hu
    cases hu
    rfl

end Takes

/-! ## 4. Values -/

/-- The top of the stack holds these values, the last of them just read. -/
def Pushed (this : RawValue) (top : OpenValue) (stack : List OpenValue) (st : ReadState) : Prop :=
  ∃ last, Settles last ∧ st = ⟨this, top :: stack, .afterValue, last⟩

/-- The top of the stack may be closed. -/
def Done (this : RawValue) (top : OpenValue) (stack : List OpenValue) (st : ReadState) : Prop :=
  ∃ e last, Closable top e last ∧ st = ⟨this, top :: stack, e, last⟩

theorem Pushed.done {this : RawValue} {top : OpenValue} {stack : List OpenValue} {st : ReadState}
    (h : Pushed this top stack st) : Done this top stack st := by
  obtain ⟨last, hlast, hst⟩ := h
  exact ⟨_, last, ⟨hlast.comma, .inl rfl⟩, hst⟩

/-- A container with more values. -/
def OpenValue.pushAll (top : OpenValue) (keys : List Data) (values : List RawValue) : OpenValue :=
  ⟨top.isObj, top.keys ++ keys, top.values ++ values⟩

theorem OpenValue.pushAll_nil (top : OpenValue) : top.pushAll [] [] = top := by
  unfold pushAll
  rw [List.append_nil, List.append_nil]

theorem OpenValue.push_pushAll (top : OpenValue) (v : RawValue) (values : List RawValue) :
    (top.push v).pushAll [] values = top.pushAll [] (v :: values) := by
  unfold pushAll push
  dsimp only
  rw [List.append_assoc]
  rfl

theorem OpenValue.pushMember_pushAll (top : OpenValue) (key : Data) (v : RawValue)
    (keys : List Data) (values : List RawValue) :
    ((top.pushKey key).push v).pushAll keys values =
      top.pushAll (key :: keys) (v :: values) := by
  unfold pushAll push pushKey
  dsimp only
  rw [List.append_assoc, List.append_assoc]
  rfl

/-- A container whose body was read is closed. -/
theorem takes_close {this : RawValue} {frame below : OpenValue} {stack : List OpenValue}
    {st : ReadState} (hdone : Done this frame (below :: stack) st) :
    Takes [closeTok frame.isObj] st (Pushed this (below.push frame.toRaw) stack) := by
  obtain ⟨e, last, hclosable, rfl⟩ := hdone
  refine takes_scalar (readStep_close hclosable) rfl ⟨_, ?_, rfl⟩
  cases frame.isObj <;> exact ⟨by decide, by decide⟩

theorem closing_closeTok (isObj : Bool) (ts : List Tok) (_ : Closing ts) :
    Closing ([closeTok isObj] ++ ts) := by
  intro u hu
  cases hu
  cases isObj <;> rfl

mutual

/-- **A value is put where one was expected.** -/
theorem value_reads : ∀ (t : Tree) {this : RawValue} {top : OpenValue} {stack : List OpenValue}
    {e : ExpectMask} {last : Option JToken}, e.AwaitsValue → stack.length + 1 + t.depth ≤ 512 →
    Takes t.tokens ⟨this, top :: stack, e, last⟩
      (Pushed this (top.push (treeRaw readItems t)) stack)
  | .null, _, _, _, _, _, he, _ =>
    takes_scalar (readStep_scalar .null he) rfl ⟨_, Scalar.null.settles, rfl⟩
  | .bool b, _, _, _, _, _, he, _ =>
    takes_scalar (readStep_scalar (.bool b) he) rfl ⟨_, (Scalar.bool b).settles, rfl⟩
  | .number n, _, _, _, _, _, he, _ =>
    takes_scalar (readStep_scalar (.number n) he) rfl ⟨_, (Scalar.number n).settles, rfl⟩
  | .string s, _, _, _, _, _, he, _ =>
    takes_scalar (readStep_scalar (.string s) he) rfl ⟨_, (Scalar.string s).settles, rfl⟩
  | .array ts, this, top, stack, _, _, he, hdepth => by
    rw [Tree.depth] at hdepth
    have hdeep : (top :: stack).length + 1 + Json.depthElements ts ≤ 512 := by
      rw [List.length_cons]
      omega
    rw [tokens_array]
    refine takes_cons (t := openTok false) (fun n hn => by cases hn)
      (readStep_open false (.inl he) (by omega)) rfl ?_
    exact takes_append (elements_reads ts hdeep) (closing_closeTok false) fun _ hst => takes_close hst
  | .object ms, this, top, stack, _, _, he, hdepth => by
    rw [Tree.depth] at hdepth
    have hdeep : (top :: stack).length + 1 + Json.depthMembers ms ≤ 512 := by
      rw [List.length_cons]
      omega
    rw [tokens_object]
    refine takes_cons (t := openTok true) (fun n hn => by cases hn)
      (readStep_open true (.inl he) (by omega)) rfl ?_
    exact takes_append (members_reads ms hdeep) (closing_closeTok true) fun _ hst => takes_close hst

/-- The elements of an array. -/
theorem elements_reads : ∀ (ts : List Tree) {this : RawValue} {stack : List OpenValue},
    stack.length + 1 + Json.depthElements ts ≤ 512 →
    Takes (elementTokens ts) ⟨this, ⟨false, [], []⟩ :: stack, .element, some .arrOpen⟩
      (Done this ⟨false, [], treeRaws readItems ts⟩ stack)
  | [], _, _, _ => takes_nil ⟨_, _, ⟨by decide, .inr rfl⟩, rfl⟩
  | t :: ts, this, stack, hdepth => by
    rw [Json.depthElements] at hdepth
    have hdeep : stack.length + 1 + Json.depthElements ts ≤ 512 := by omega
    refine takes_append (value_reads t (.inl rfl) (by omega)) (closing_moreElements ts) ?_
    intro st hst
    obtain ⟨last, hlast, rfl⟩ := hst
    exact takes_mono (moreElements_reads ts rfl hlast hdeep) fun _ hpushed => Pushed.done hpushed

/-- Those after the first. -/
theorem moreElements_reads : ∀ (ts : List Tree) {this : RawValue} {top : OpenValue}
    {stack : List OpenValue} {last : Option JToken}, top.isObj = false → Settles last →
    stack.length + 1 + Json.depthElements ts ≤ 512 →
    Takes (Json.moreElements ts) ⟨this, top :: stack, .afterValue, last⟩
      (Pushed this (top.pushAll [] (treeRaws readItems ts)) stack)
  | [], _, _, _, last, _, hlast, _ => by
    rw [treeRaws, OpenValue.pushAll_nil]
    exact takes_nil ⟨last, hlast, rfl⟩
  | t :: ts, this, top, stack, last, hobj, hlast, hdepth => by
    rw [Json.depthElements] at hdepth
    have hcomma : readStep ⟨this, top :: stack, .afterValue, last⟩ .comma =
        (⟨this, top :: stack, .element, some .comma⟩, true) := by
      rw [readStep_comma hlast, hobj]
      rfl
    rw [Json.moreElements, treeRaws, ← OpenValue.push_pushAll]
    refine takes_cons (fun n hn => by cases hn) hcomma rfl ?_
    refine takes_append (value_reads t (.inl rfl) (by omega)) (closing_moreElements ts) ?_
    intro st hst
    obtain ⟨last', hlast', rfl⟩ := hst
    exact moreElements_reads ts hobj hlast' (by omega)

/-- The members of an object. -/
theorem members_reads : ∀ (ms : List (List Item × Tree)) {this : RawValue}
    {stack : List OpenValue}, stack.length + 1 + Json.depthMembers ms ≤ 512 →
    Takes (memberTokens ms) ⟨this, ⟨true, [], []⟩ :: stack, .name, some .objOpen⟩
      (Done this ⟨true, ms.map fun m => readItems m.1, memberRaws readItems ms⟩ stack)
  | [], _, _, _ => takes_nil ⟨_, _, ⟨by decide, .inr rfl⟩, rfl⟩
  | (name, t) :: ms, this, stack, hdepth => by
    rw [Json.depthMembers] at hdepth
    have hdeep : stack.length + 1 + Json.depthMembers ms ≤ 512 := by omega
    refine takes_cons (fun n hn => by cases hn) (readStep_name name) rfl ?_
    refine takes_cons (fun n hn => by cases hn) (readStep_colon rfl) rfl ?_
    refine takes_append (value_reads t (.inr rfl) (by omega)) (closing_moreMembers ms) ?_
    intro st hst
    obtain ⟨last, hlast, rfl⟩ := hst
    exact takes_mono (moreMembers_reads ms rfl hlast hdeep) fun _ hpushed => Pushed.done hpushed

/-- Those after the first. -/
theorem moreMembers_reads : ∀ (ms : List (List Item × Tree)) {this : RawValue} {top : OpenValue}
    {stack : List OpenValue} {last : Option JToken}, top.isObj = true → Settles last →
    stack.length + 1 + Json.depthMembers ms ≤ 512 →
    Takes (Json.moreMembers ms) ⟨this, top :: stack, .afterValue, last⟩
      (Pushed this (top.pushAll (ms.map fun m => readItems m.1) (memberRaws readItems ms)) stack)
  | [], _, _, _, last, _, hlast, _ => by
    rw [List.map_nil, memberRaws, OpenValue.pushAll_nil]
    exact takes_nil ⟨last, hlast, rfl⟩
  | (name, t) :: ms, this, top, stack, last, hobj, hlast, hdepth => by
    rw [Json.depthMembers] at hdepth
    have hcomma : readStep ⟨this, top :: stack, .afterValue, last⟩ .comma =
        (⟨this, top :: stack, .name, some .comma⟩, true) := by
      rw [readStep_comma hlast, hobj]
      rfl
    rw [Json.moreMembers, List.map_cons, memberRaws, ← OpenValue.pushMember_pushAll]
    refine takes_cons (fun n hn => by cases hn) hcomma rfl ?_
    refine takes_cons (fun n hn => by cases hn) (readStep_name name) rfl ?_
    refine takes_cons (fun n hn => by cases hn) (readStep_colon hobj) rfl ?_
    refine takes_append (value_reads t (.inr rfl) (by omega)) (closing_moreMembers ms) ?_
    intro st hst
    obtain ⟨last', hlast', rfl⟩ := hst
    exact moreMembers_reads ms hobj hlast' (by omega)

end

/-! ## 5. Texts -/

/-- The last token of a text. -/
theorem runRead_last {t : Tok} {s : Data} {st : ReadState} {v : RawValue} {e : ExpectMask}
    {last : Option JToken} (h : Renders [t] s)
    (hstep : readStep st (readTok t) = (⟨v, [], e, last⟩, true)) (fuel : Nat) :
    runRead (fuel + 1) s st = some (true, v) := by
  obtain ⟨s', hlex, hblank⟩ := getJsonToken_renders h fun _ _ u hu => by cases hu
  rw [runRead, hlex]
  dsimp only
  rw [hstep, getJsonToken_blank hblank]
  rfl

/-- A text that is a container. -/
theorem runRead_container (frame : OpenValue) {body : List Tok} {s : Data} {fuel : Nat}
    (h : Renders (openTok frame.isObj :: (body ++ [closeTok frame.isObj])) s)
    (hbody : Takes body ⟨.null, [⟨frame.isObj, [], []⟩], openMask frame.isObj,
      some (readTok (openTok frame.isObj))⟩ (Done .null frame []))
    (hfuel : body.length + 1 < fuel) : runRead fuel s .initial = some (true, frame.toRaw) := by
  have hopen : Takes (openTok frame.isObj :: body) .initial (Done .null frame []) := by
    refine takes_cons (fun n hn => ?_) (readStep_open _ (.inr rfl) (by decide)) rfl hbody
    cases hisObj : frame.isObj <;> rw [hisObj] at hn <;> cases hn
  obtain ⟨s', st', hr', hdone, hrun⟩ :=
    hopen [closeTok frame.isObj] s h (closing_closeTok _ [] fun u hu => by cases hu)
  obtain ⟨e, last, hclosable, rfl⟩ := hdone
  obtain ⟨more, rfl⟩ : ∃ more, fuel = (more + 1) + (openTok frame.isObj :: body).length := by
    refine ⟨fuel - (body.length + 2), ?_⟩
    rw [List.length_cons]
    omega
  rw [hrun]
  exact runRead_last hr' (readStep_close hclosable) more

/-- **A well-formed text is read**, if it nests no deeper than the bound: `true` is returned, and
    the value is that of its tree, with the strings as `readItems` has them. -/
theorem readValue_complete {t : Tree} {s : Data} (h : Spells t s) (hdepth : t.depth ≤ 512) :
    readValue s = some (true, treeRaw readItems t) := by
  have hlength := h.length_le
  unfold Spells at h
  unfold readValue
  cases t with
  | null => exact runRead_last h rfl _
  | bool b => cases b <;> exact runRead_last h rfl _
  | number n => exact runRead_last h rfl _
  | string items => exact runRead_last h rfl _
  | array ts =>
    rw [Tree.depth] at hdepth
    rw [tokens_array] at h hlength
    simp only [List.length_cons, List.length_append, List.length_nil] at hlength
    have hdeep : ([] : List OpenValue).length + 1 + Json.depthElements ts ≤ 512 := by
      rw [List.length_nil]
      omega
    have hfuel : (elementTokens ts).length + 1 < s.length + 1 := by omega
    exact runRead_container ⟨false, [], treeRaws readItems ts⟩ h (elements_reads ts hdeep) hfuel
  | object ms =>
    rw [Tree.depth] at hdepth
    rw [tokens_object] at h hlength
    simp only [List.length_cons, List.length_append, List.length_nil] at hlength
    have hdeep : ([] : List OpenValue).length + 1 + Json.depthMembers ms ≤ 512 := by
      rw [List.length_nil]
      omega
    have hfuel : (memberTokens ms).length + 1 < s.length + 1 := by omega
    exact runRead_container ⟨true, ms.map fun m => readItems m.1, memberRaws readItems ms⟩ h
      (members_reads ms hdeep) hfuel

end SwiftBitcoinKernel
