/-
  File:      SwiftBitcoinKernel/Logic/Codec.lean
  Subject:   Readers of a stream, and what it takes for one to invert a writer.

  A reader takes a value off the front of a stream and leaves the rest, or fails. It inverts a
  writer on the values of a kind if it accepts just the streams that begin with what the writer
  writes for one of them, and reads that one: nothing else is accepted, nothing that was written is
  refused or read as something else, and what follows is left alone. Nothing of any one program is
  in this file.

  * `Parse`, its `Monad` instance, and the primitives `fail`, `item`, `take`;
  * `Inverts read valid write` -- the two directions in one; `Inverts.read_write`,
    `Inverts.write_inj` -- what follows of round trips and of texts put one after another;
  * `Inverts.bind` -- a sequence of reads, each of which may depend on those before it, inverts the
    sequence of the writes; `Inverts.many` -- so does a counted repetition;
  * `Recovers read valid write` -- one direction alone, for readers that accept more than is written;
  * `blocks`, `batches` -- the loops that read a long sequence in parts of a bounded size, which
    read the same as one loop does (`blocks_eq`, `batches_eq`);
  * `littleEndian` -- numbers of a fixed width;
  * `Reads n read` -- reads that need `n` units, and no more than that.
-/
import Mathlib.Data.Nat.Digits.Defs

namespace SwiftBitcoinKernel.Logic

variable {α β γ : Type}

/-! ## 1. Readers -/

/-- A read from the front of a stream of `β`: a value and the rest, or a failure. -/
def Parse (β α : Type) : Type := List β → Option (α × List β)

namespace Parse

instance : Monad (Parse β) where
  pure a := fun s => some (a, s)
  bind read next := fun s => (read s).bind fun p => next p.1 p.2

instance : LawfulMonad (Parse β) := by
  refine LawfulMonad.mk' _ (fun x => ?_) (fun _ _ => rfl) fun x f g => ?_
  · funext s
    show (x s).bind (fun p => some (p.1, p.2)) = x s
    cases x s with
    | none => rfl
    | some p => rfl
  · funext s
    exact Option.bind_assoc (x s) (fun p => f p.1 p.2) fun p => g p.1 p.2

/-- A thrown exception. -/
def fail : Parse β α := fun _ => none

/-- One unit. -/
def item : Parse β β
  | [] => none
  | b :: s => some (b, s)

/-- `n` units. -/
def take (n : Nat) : Parse β (List β) := fun s =>
  if n ≤ s.length then some (s.take n, s.drop n) else none

/-- `n` values, one after another. -/
def many (read : Parse β α) : Nat → Parse β (List α)
  | 0 => pure []
  | n + 1 => do
    let a ← read
    let rest ← many read n
    return a :: rest

theorem bind_eq_some {read : Parse β α} {next : α → Parse β γ} {s rest : List β} {c : γ} :
    (read >>= next) s = some (c, rest) ↔
      ∃ a s', read s = some (a, s') ∧ next a s' = some (c, rest) := by
  show (read s).bind (fun p => next p.1 p.2) = some (c, rest) ↔ _
  rw [Option.bind_eq_some_iff]
  constructor
  · intro h
    obtain ⟨⟨a, s'⟩, hread, hnext⟩ := h
    exact ⟨a, s', hread, hnext⟩
  · intro h
    obtain ⟨a, s', hread, hnext⟩ := h
    exact ⟨(a, s'), hread, hnext⟩

/-- Reads after which everything fails. -/
theorem bind_fails {read : Parse β α} {next : α → Parse β γ} (h : ∀ a s, next a s = none)
    (s : List β) : (read >>= next) s = none := by
  show (read s).bind (fun p => next p.1 p.2) = none
  cases read s with
  | none => rfl
  | some p => exact h p.1 p.2

/-! ## 2. Inverting a writer -/

/-- **`read` inverts `write`** on the values with `valid`. -/
def Inverts (read : Parse β α) (valid : α → Prop) (write : α → List β) : Prop :=
  ∀ s a rest, read s = some (a, rest) ↔ valid a ∧ s = write a ++ rest

section Rules

variable {read : Parse β α} {valid valid' : α → Prop} {write write' : α → List β}

/-- What was written is read. -/
theorem Inverts.read_write (h : Inverts read valid write) {a : α} (ha : valid a) (rest : List β) :
    read (write a ++ rest) = some (a, rest) :=
  (h _ a rest).2 ⟨ha, rfl⟩

/-- What was written can be told from what follows it, and from any other value. -/
theorem Inverts.write_inj (h : Inverts read valid write) {a b : α} {s t : List β} (ha : valid a)
    (hb : valid b) (heq : write a ++ s = write b ++ t) : a = b ∧ s = t := by
  have hread := h.read_write ha s
  rw [heq, h.read_write hb t] at hread
  cases hread
  exact ⟨rfl, rfl⟩

theorem Inverts.congr (h : Inverts read valid write) (hvalid : ∀ a, valid' a ↔ valid a)
    (hwrite : ∀ a, valid a → write' a = write a) : Inverts read valid' write' := by
  intro s a rest
  rw [h s a rest, hvalid a]
  constructor
  · intro hs
    exact ⟨hs.1, by rw [hwrite a hs.1]; exact hs.2⟩
  · intro hs
    exact ⟨hs.1, by rw [← hwrite a hs.1]; exact hs.2⟩

theorem inverts_pure (a : α) : Inverts (pure a : Parse β α) (fun b => b = a) fun _ => [] := by
  intro s b rest
  show some (a, s) = some (b, rest) ↔ _
  rw [Option.some.injEq, Prod.mk.injEq, List.nil_append, eq_comm (a := a)]

/-- A read that always fails is one of no value. -/
theorem inverts_of_fails (hfails : ∀ s, read s = none) (hvalid : ∀ a, ¬valid a) :
    Inverts read valid write := by
  intro s a rest
  rw [hfails]
  exact ⟨fun h => (by cases h), fun h => absurd h.1 (hvalid a)⟩

theorem inverts_item : Inverts (item : Parse β β) (fun _ => True) fun b => [b] := by
  intro s b rest
  cases s with
  | nil => exact ⟨fun h => (by cases h), fun h => (by cases h.2)⟩
  | cons c s =>
    show some (c, s) = some (b, rest) ↔ _
    rw [Option.some.injEq, Prod.mk.injEq, true_and, List.singleton_append, List.cons.injEq]

theorem inverts_take (n : Nat) :
    Inverts (take n : Parse β (List β)) (fun d => d.length = n) fun d => d := by
  intro s d rest
  unfold take
  constructor
  · intro h
    split at h
    · rename_i hle
      cases h
      exact ⟨List.length_take_of_le hle, (List.take_append_drop n s).symm⟩
    · cases h
  · intro h
    obtain ⟨hlen, rfl⟩ := h
    have hle : n ≤ (d ++ rest).length := by
      rw [List.length_append]
      omega
    rw [if_pos hle, List.take_left' hlen, List.drop_left' hlen]

/-- **Sequences**: where the first read inverts `first` and, whatever it has read, the reads after
    it invert the rest of what is written for values that have this at `part`, the whole inverts the
    whole. -/
theorem Inverts.bind {next : α → Parse β γ} {first : α → List β} {all : γ → Prop}
    (h : Inverts read valid first) (part : γ → α) (later : γ → List β)
    (hall : ∀ c, all c → valid (part c))
    (hnext : ∀ a, valid a → Inverts (next a) (fun c => part c = a ∧ all c) later) :
    Inverts (read >>= next) all (fun c => first (part c) ++ later c) := by
  intro s c rest
  rw [bind_eq_some]
  constructor
  · intro hs
    obtain ⟨a, s', hread, hs'⟩ := hs
    obtain ⟨ha, rfl⟩ := (h s a s').1 hread
    obtain ⟨⟨rfl, hc⟩, rfl⟩ := (hnext a ha s' c rest).1 hs'
    exact ⟨hc, (List.append_assoc _ _ _).symm⟩
  · intro hs
    obtain ⟨hc, rfl⟩ := hs
    refine ⟨part c, later c ++ rest, ?_, ?_⟩
    · rw [List.append_assoc]
      exact h.read_write (hall c hc) _
    · exact (hnext (part c) (hall c hc)).read_write ⟨rfl, hc⟩ rest

/-- A value made of the last that was read. -/
theorem Inverts.map {make : α → γ} {all : γ → Prop} (h : Inverts read valid write) (part : γ → α)
    (hall : ∀ c, all c → valid (part c))
    (hmake : ∀ a c, valid a → (c = make a ↔ part c = a ∧ all c)) :
    Inverts (read >>= fun a => pure (make a)) all (fun c => write (part c)) := by
  refine (h.bind part (fun _ => []) hall ?_).congr (fun _ => Iff.rfl)
    fun _ _ => (List.append_nil _).symm
  intro a ha
  exact (inverts_pure (make a)).congr (fun c => (hmake a c ha).symm) fun _ _ => rfl

/-- Only those of the values read that pass a check. -/
theorem Inverts.check (h : Inverts read valid write) (bad : α → Prop) [DecidablePred bad] :
    Inverts (read >>= fun a => if bad a then fail else pure a) (fun a => valid a ∧ ¬bad a)
      write := by
  refine (h.bind id (fun _ => []) (fun _ => And.left) ?_).congr (fun _ => Iff.rfl)
    fun _ _ => (List.append_nil _).symm
  intro a ha
  by_cases hbad : bad a
  · rw [if_pos hbad]
    refine inverts_of_fails (fun _ => rfl) fun b hb => ?_
    have hba : b = a := hb.1
    exact hb.2.2 (hba ▸ hbad)
  · rw [if_neg hbad]
    refine (inverts_pure a).congr (fun b => ?_) fun _ _ => rfl
    constructor
    · exact And.left
    · rintro rfl
      exact ⟨rfl, ha, hbad⟩

/-- **Repetition.** -/
theorem Inverts.many (h : Inverts read valid write) (n : Nat) :
    Inverts (many read n) (fun l => l.length = n ∧ ∀ a ∈ l, valid a) fun l => l.flatMap write := by
  induction n with
  | zero =>
    refine (inverts_pure []).congr (fun l => ?_) fun l hl => by rw [hl]; rfl
    constructor
    · exact fun hl => List.length_eq_zero_iff.1 hl.1
    · rintro rfl
      exact ⟨rfl, nofun⟩
  | succ n ih =>
    intro s l rest
    unfold Parse.many
    rw [bind_eq_some]
    constructor
    · intro hs
      obtain ⟨a, s', hread, hs'⟩ := hs
      obtain ⟨as, s'', hmany, hpure⟩ := bind_eq_some.1 hs'
      obtain ⟨ha, rfl⟩ := (h s a s').1 hread
      obtain ⟨⟨hlen, has⟩, rfl⟩ := (ih s' as s'').1 hmany
      cases hpure
      refine ⟨⟨by rw [List.length_cons, hlen], ?_⟩, ?_⟩
      · exact List.forall_mem_cons.2 ⟨ha, has⟩
      · show write a ++ (as.flatMap write ++ rest) = (a :: as).flatMap write ++ rest
        rw [List.flatMap_cons, List.append_assoc]
    · intro hs
      obtain ⟨⟨hlen, hl⟩, rfl⟩ := hs
      cases l with
      | nil => cases hlen
      | cons a as =>
        obtain ⟨ha, has⟩ := List.forall_mem_cons.1 hl
        rw [List.length_cons, Nat.add_right_cancel_iff] at hlen
        refine ⟨a, as.flatMap write ++ rest, ?_, bind_eq_some.2 ⟨as, rest, ?_, rfl⟩⟩
        · show read ((a :: as).flatMap write ++ rest) = _
          rw [List.flatMap_cons, List.append_assoc]
          exact h.read_write ha _
        · exact ih.read_write ⟨hlen, has⟩ rest

/-- **`read` recovers** what `write` has written of the values with `valid`, and may read other
    texts as well. -/
def Recovers (read : Parse β α) (valid : α → Prop) (write : α → List β) : Prop :=
  ∀ a rest, valid a → read (write a ++ rest) = some (a, rest)

theorem Inverts.recovers (h : Inverts read valid write) : Recovers read valid write :=
  fun _ rest ha => h.read_write ha rest

/-- What comes after a value that was written reads on from there. -/
theorem Recovers.bind_eq (h : Recovers read valid write) {a : α} (ha : valid a)
    (next : α → Parse β γ) (s : List β) : (read >>= next) (write a ++ s) = next a s := by
  show (read (write a ++ s)).bind (fun p => next p.1 p.2) = _
  rw [h a s ha]
  rfl

theorem Recovers.many (h : Recovers read valid write) :
    ∀ l : List α, (∀ a ∈ l, valid a) → ∀ rest,
      many read l.length (l.flatMap write ++ rest) = some (l, rest) := by
  intro l
  induction l with
  | nil => exact fun _ rest => rfl
  | cons a l ih =>
    intro hl rest
    obtain ⟨ha, hl⟩ := List.forall_mem_cons.1 hl
    rw [List.length_cons, List.flatMap_cons, List.append_assoc]
    unfold Parse.many
    rw [h.bind_eq ha]
    exact bind_eq_some.2 ⟨l, rest, ih hl rest, rfl⟩

end Rules

/-! ## 3. Reading in parts -/

/-- `i` of `n` units are read; the next block has at most `size`. The first argument bounds the
    blocks. -/
def blocks (size : Nat) : Nat → Nat → Parse β (List β)
  | 0, _ => pure []
  | fuel + 1, left =>
    if left = 0 then pure []
    else do
      let block ← take (min left size)
      let rest ← blocks size fuel (left - min left size)
      return block ++ rest

/-- Batches of at most `size` values, of which `left` are to come. -/
def batches (read : Parse β α) (size : Nat) : Nat → Nat → Parse β (List α)
  | 0, _ => pure []
  | fuel + 1, left =>
    if left = 0 then pure []
    else do
      let batch ← many read (min left size)
      let rest ← batches read size fuel (left - min left size)
      return batch ++ rest

section Parts

variable {read : Parse β α} {size fuel left : Nat}

theorem many_add (read : Parse β α) (m n : Nat) :
    many read (m + n) = (do
      let first ← many read m
      let rest ← many read n
      return first ++ rest) := by
  induction m with
  | zero => simp only [Nat.zero_add, many, pure_bind, List.nil_append, bind_pure]
  | succ m ih => simp only [Nat.succ_add, many, ih, bind_assoc, pure_bind, List.cons_append]

/-- **Batches read the same values** as a single loop, where they are not empty. -/
theorem batches_eq (hsize : 0 < size) (hfuel : left ≤ fuel) :
    batches read size fuel left = many read left := by
  induction fuel generalizing left with
  | zero =>
    obtain rfl : left = 0 := by omega
    rfl
  | succ fuel ih =>
    unfold batches
    by_cases hleft : left = 0
    · rw [if_pos hleft, hleft]
      rfl
    · have hsplit : min left size + (left - min left size) = left := by omega
      rw [if_neg hleft, ih (by omega), ← many_add, hsplit]

theorem many_item_eq_take (n : Nat) : many (item : Parse β β) n = take n := by
  funext s
  have hmany : Inverts (many (item : Parse β β) n) (fun d => d.length = n) fun d => d := by
    refine (inverts_item.many n).congr (fun d => ?_) fun d _ => ?_
    · exact ⟨fun h => ⟨h, fun _ _ => trivial⟩, And.left⟩
    · exact List.flatMap_singleton' d |>.symm
  cases htake : take n s with
  | some p => exact (hmany s p.1 p.2).2 ((inverts_take n s p.1 p.2).1 htake)
  | none =>
    cases hread : many item n s with
    | none => rfl
    | some p =>
      rw [(inverts_take n s p.1 p.2).2 ((hmany s p.1 p.2).1 hread)] at htake
      cases htake

/-- **Blocks read the same units** as a single read does. -/
theorem blocks_eq (hsize : 0 < size) (hfuel : left ≤ fuel) :
    (blocks size fuel left : Parse β (List β)) = take left := by
  have hbatches : ∀ fuel left, (blocks size fuel left : Parse β (List β)) =
      batches item size fuel left := by
    intro fuel
    induction fuel with
    | zero => exact fun _ => rfl
    | succ fuel ih =>
      intro left
      unfold blocks batches
      rw [ih, many_item_eq_take]
  rw [hbatches, batches_eq hsize hfuel, many_item_eq_take]

end Parts

/-! ## 4. Numbers -/

/-- The `width` lowest bytes of a number, lowest first. -/
def toLittleEndian : Nat → Nat → List UInt8
  | 0, _ => []
  | width + 1, n => UInt8.ofNat n :: toLittleEndian width (n / 256)

/-- The number of the bytes. -/
def ofLittleEndian (d : List UInt8) : Nat := Nat.ofDigits 256 (d.map UInt8.toNat)

/-- A number of `width` bytes. -/
def littleEndian (width : Nat) : Parse UInt8 Nat := do
  let d ← take width
  return ofLittleEndian d

theorem ofLittleEndian_cons (b : UInt8) (d : List UInt8) :
    ofLittleEndian (b :: d) = b.toNat + 256 * ofLittleEndian d :=
  Nat.ofDigits_cons

@[simp] theorem toLittleEndian_length (width n : Nat) : (toLittleEndian width n).length = width := by
  induction width generalizing n with
  | zero => rfl
  | succ width ih => rw [toLittleEndian, List.length_cons, ih]

theorem ofLittleEndian_lt (d : List UInt8) : ofLittleEndian d < 256 ^ d.length := by
  have hlt := Nat.ofDigits_lt_base_pow_length (b := 256) (l := d.map UInt8.toNat) (by decide)
  rw [List.length_map] at hlt
  refine hlt fun n hn => ?_
  obtain ⟨b, -, rfl⟩ := List.mem_map.1 hn
  exact b.toNat_lt

theorem ofLittleEndian_toLittleEndian {width n : Nat} (h : n < 256 ^ width) :
    ofLittleEndian (toLittleEndian width n) = n := by
  induction width generalizing n with
  | zero =>
    obtain rfl : n = 0 := by
      rw [Nat.pow_zero] at h
      omega
    rfl
  | succ width ih =>
    rw [Nat.pow_succ] at h
    rw [toLittleEndian, ofLittleEndian_cons, ih (by omega), UInt8.toNat_ofNat']
    omega

theorem toLittleEndian_ofLittleEndian (d : List UInt8) :
    toLittleEndian d.length (ofLittleEndian d) = d := by
  induction d with
  | nil => rfl
  | cons b d ih =>
    have hb := b.toNat_lt
    have hlow : UInt8.ofNat (b.toNat + 256 * ofLittleEndian d) = b := by
      refine UInt8.toNat.inj ?_
      rw [UInt8.toNat_ofNat']
      omega
    have hhigh : (b.toNat + 256 * ofLittleEndian d) / 256 = ofLittleEndian d := by omega
    rw [List.length_cons, toLittleEndian, ofLittleEndian_cons, hlow, hhigh, ih]

theorem inverts_littleEndian (width : Nat) :
    Inverts (littleEndian width) (fun n => n < 256 ^ width) (toLittleEndian width) := by
  refine (inverts_take width).map (toLittleEndian width)
    (fun n _ => toLittleEndian_length width n) fun d n hd => ?_
  constructor
  · rintro rfl
    refine ⟨?_, ?_⟩
    · rw [← hd, toLittleEndian_ofLittleEndian]
    · exact hd ▸ ofLittleEndian_lt d
  · intro hn
    rw [← hn.1, ofLittleEndian_toLittleEndian hn.2]

/-! ## 5. Reads of a fixed width -/

/-- `read` takes `n` units, and fails only where there are fewer. -/
def Reads (n : Nat) (read : Parse β α) : Prop :=
  ∀ s, n ≤ s.length → ∃ a rest, read s = some (a, rest) ∧ n + rest.length = s.length

theorem reads_pure (a : α) : Reads 0 (pure a : Parse β α) :=
  fun s _ => ⟨a, s, rfl, Nat.zero_add _⟩

theorem reads_take (n : Nat) : Reads n (take n : Parse β (List β)) := by
  intro s hs
  refine ⟨s.take n, s.drop n, if_pos hs, ?_⟩
  rw [List.length_drop]
  omega

theorem Reads.bind {read : Parse β α} {next : α → Parse β γ} {m n : Nat} (h : Reads m read)
    (hnext : ∀ a, Reads n (next a)) : Reads (m + n) (read >>= next) := by
  intro s hs
  obtain ⟨a, rest, hread, hrest⟩ := h s (by omega)
  obtain ⟨c, rest', hread', hrest'⟩ := hnext a rest (by omega)
  exact ⟨c, rest', bind_eq_some.2 ⟨a, rest, hread, hread'⟩, by omega⟩

theorem reads_littleEndian (width : Nat) : Reads width (littleEndian width) :=
  (reads_take width).bind fun d => reads_pure (ofLittleEndian d)

end Parse

end SwiftBitcoinKernel.Logic
