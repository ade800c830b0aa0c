/-
  File:      SwiftBitcoinKernel/Kernel/Serialize.lean
  Subject:   Transactions, headers and blocks as bytes, as serialize.h and primitives/*.h have them.

  A read is a `Parse`, and a write the list of the spans it hands to the stream, in order. What the
  Swift initializers and `data` make of these is in `Kernel/Bytes`.

  * `COutPoint`, `CTxIn`, `CTxOut`, `CTransaction`, `CBlockHeader`, `CBlock` -- the primitives;
  * `readCompactSize`, `unserVector`, `unserBytes` -- with the bound on sizes, the refusal of
    encodings that are longer than they need to be, and the bounded batches of a read;
  * `unserializeTransaction`, `serializeTransaction` -- with and without witnesses;
  * `Readable`, `codes_transaction`, `codes_block` -- what is read back: every number, vector and
    transaction of a size that is allowed, from what was written of it with anything after it.
-/
import SwiftBitcoinKernel.Logic.Codec
import SwiftBitcoinKernel.Sync.Update

namespace SwiftBitcoinKernel

open Logic Parse

/-! ## 1. Primitives -/

/-- `COutPoint`. -/
structure COutPoint where
  hash : Hash
  n : UInt32
  deriving DecidableEq, Repr

/-- `CTxIn`. The witness is read and written with the transaction, not with the input. -/
structure CTxIn where
  prevout : COutPoint
  scriptSig : Data
  nSequence : UInt32
  scriptWitness : List Data
  deriving DecidableEq, Repr

/-- `CTxOut`. -/
structure CTxOut where
  nValue : Int64
  scriptPubKey : Data
  deriving DecidableEq, Repr

/-- `CTransaction`. -/
structure CTransaction where
  version : UInt32
  vin : List CTxIn
  vout : List CTxOut
  nLockTime : UInt32
  deriving DecidableEq, Repr

/-- `CBlockHeader`. -/
structure CBlockHeader where
  nVersion : Int32
  hashPrevBlock : Hash
  hashMerkleRoot : Hash
  nTime : UInt32
  nBits : UInt32
  nNonce : UInt32
  deriving DecidableEq, Repr

/-- `CBlock`. -/
structure CBlock where
  header : CBlockHeader
  vtx : List CTransaction
  deriving DecidableEq, Repr

/-- An input as it is read before the witnesses are. -/
def CTxIn.bare (i : CTxIn) : CTxIn := { i with scriptWitness := [] }

/-- `HasWitness()`. -/
def hasWitness (vin : List CTxIn) : Bool := vin.any fun i => !i.scriptWitness.isEmpty

namespace Core

/-! ## 2. The framework -/

/-- `MAX_SIZE`. -/
def maxSize : Nat := 0x02000000

/-- `MAX_VECTOR_ALLOCATE`. -/
def maxVectorAllocate : Nat := 5000000

/-- `sizeof(typename V::value_type)`, with the `static_assert` on it. -/
structure ElementSize where
  bytes : Nat
  positive : 0 < bytes
  bounded : bytes ≤ maxVectorAllocate

/-- How many elements a vector reads before it allocates again. -/
def ElementSize.batch (e : ElementSize) : Nat := maxVectorAllocate / e.bytes

theorem ElementSize.batch_pos (e : ElementSize) : 0 < e.batch := Nat.div_pos e.bounded e.positive

/-- The platform's sizes of what the vectors below have for elements. -/
structure Abi where
  txIn : ElementSize
  txOut : ElementSize
  txRef : ElementSize
  byteVector : ElementSize

/-- 64-bit pointers. -/
def Abi.lp64 : Abi where
  txIn := ⟨112, by decide, by decide⟩
  txOut := ⟨48, by decide, by decide⟩
  txRef := ⟨16, by decide, by decide⟩
  byteVector := ⟨24, by decide, by decide⟩

/-- `Unserialize(Stream&, uint32_t&)`. -/
def uint32 : Parse UInt8 UInt32 := do
  let n ← littleEndian 4
  return UInt32.ofNat n

/-- `Serialize(Stream&, uint32_t)`. -/
def serUInt32 (v : UInt32) : List Data := [toLittleEndian 4 v.toNat]

/-- `Unserialize(Stream&, int32_t&)`. -/
def int32 : Parse UInt8 Int32 := do
  let v ← uint32
  return v.toInt32

/-- `Serialize(Stream&, int32_t)`. -/
def serInt32 (v : Int32) : List Data := serUInt32 v.toUInt32

/-- `Unserialize(Stream&, int64_t&)`. -/
def int64 : Parse UInt8 Int64 := do
  let n ← littleEndian 8
  return (UInt64.ofNat n).toInt64

/-- `Serialize(Stream&, int64_t)`. -/
def serInt64 (v : Int64) : List Data := [toLittleEndian 8 v.toUInt64.toNat]

/-- `base_blob::Unserialize`. -/
def uint256 : Parse UInt8 Hash := fun s =>
  match h : (take 32 : Parse UInt8 Data) s with
  | some (d, rest) => some (⟨d, ((inverts_take 32 s d rest).1 h).1⟩, rest)
  | none => none

/-- `base_blob::Serialize`. -/
def serUInt256 (h : Hash) : List Data := [h.val]

/-- `WriteCompactSize`. -/
def writeCompactSize (n : Nat) : List Data :=
  if n < 253 then [[UInt8.ofNat n]]
  else if n ≤ 0xFFFF then [[253], toLittleEndian 2 n]
  else if n ≤ 0xFFFFFFFF then [[254], toLittleEndian 4 n]
  else [[255], toLittleEndian 8 n]

/-- What follows the first byte of a size. -/
def readLongSize (chSize : UInt8) : Parse UInt8 Nat :=
  if chSize < 253 then pure chSize.toNat
  else if chSize = 253 then do
    let n ← littleEndian 2
    if n < 253 then fail else pure n
  else if chSize = 254 then do
    let n ← littleEndian 4
    if n < 0x10000 then fail else pure n
  else do
    let n ← littleEndian 8
    if n < 0x100000000 then fail else pure n

/-- `ReadCompactSize`, with its range check. -/
def readCompactSize : Parse UInt8 Nat := do
  let chSize ← item
  let n ← readLongSize chSize
  if n > maxSize then fail else pure n

/-- `Serialize(Stream&, const std::vector<T>&)`, by `VectorFormatter::Ser`. -/
def serVector {α : Type} (ser : α → List Data) (v : List α) : List Data :=
  writeCompactSize v.length ++ v.flatMap ser

/-- `VectorFormatter::Unser`. -/
def unserVector {α : Type} (e : ElementSize) (unser : Parse UInt8 α) : Parse UInt8 (List α) := do
  let size ← readCompactSize
  batches unser e.batch size size

/-- `Serialize` of a `std::vector<unsigned char>` and of a `prevector` of bytes. -/
def serBytes (v : Data) : List Data :=
  writeCompactSize v.length ++ if v.isEmpty then [] else [v]

/-- `Unserialize` of them: blocks of `1 + 4999999 / sizeof(T)`. -/
def unserBytes : Parse UInt8 Data := do
  let nSize ← readCompactSize
  blocks (1 + 4999999) nSize nSize

/-! ## 3. Transactions and blocks -/

/-- `COutPoint`'s `READWRITE(hash, n)`. -/
def serOutPoint (o : COutPoint) : List Data := serUInt256 o.hash ++ serUInt32 o.n

def unserOutPoint : Parse UInt8 COutPoint := do
  let hash ← uint256
  let n ← uint32
  return ⟨hash, n⟩

/-- `CTxIn`'s `READWRITE(prevout, scriptSig, nSequence)`. -/
def serTxIn (i : CTxIn) : List Data :=
  serOutPoint i.prevout ++ (serBytes i.scriptSig ++ serUInt32 i.nSequence)

def unserTxIn : Parse UInt8 CTxIn := do
  let prevout ← unserOutPoint
  let scriptSig ← unserBytes
  let nSequence ← uint32
  return ⟨prevout, scriptSig, nSequence, []⟩

/-- `CTxOut`'s `READWRITE(nValue, scriptPubKey)`. -/
def serTxOut (o : CTxOut) : List Data := serInt64 o.nValue ++ serBytes o.scriptPubKey

def unserTxOut : Parse UInt8 CTxOut := do
  let nValue ← int64
  let scriptPubKey ← unserBytes
  return ⟨nValue, scriptPubKey⟩

/-- `SerializeTransaction`. -/
def serializeTransaction (allowWitness : Bool) (tx : CTransaction) : List Data :=
  let flags := allowWitness && hasWitness tx.vin
  serUInt32 tx.version ++
    ((if flags then serVector serTxIn [] ++ [[1]] else []) ++
      (serVector serTxIn tx.vin ++ serVector serTxOut tx.vout) ++
    ((if flags then tx.vin.flatMap fun i => serVector serBytes i.scriptWitness else []) ++
    serUInt32 tx.nLockTime))

/-- `CBlockHeader`'s `READWRITE`. -/
def serHeader (h : CBlockHeader) : List Data :=
  serInt32 h.nVersion ++ (serUInt256 h.hashPrevBlock ++ (serUInt256 h.hashMerkleRoot ++
    (serUInt32 h.nTime ++ (serUInt32 h.nBits ++ serUInt32 h.nNonce))))

def unserHeader : Parse UInt8 CBlockHeader := do
  let nVersion ← int32
  let hashPrevBlock ← uint256
  let hashMerkleRoot ← uint256
  let nTime ← uint32
  let nBits ← uint32
  let nNonce ← uint32
  return ⟨nVersion, hashPrevBlock, hashMerkleRoot, nTime, nBits, nNonce⟩

/-- `CBlock`'s `READWRITE(AsBase<CBlockHeader>, vtx)`, with `TX_WITH_WITNESS`. -/
def serBlock (b : CBlock) : List Data :=
  serHeader b.header ++ serVector (serializeTransaction true) b.vtx

section Reads

variable (A : Abi)

/-- The flag byte, the inputs and the outputs of `UnserializeTransaction`. An empty list of inputs
    is read as the dummy before the flags. -/
def unserInOut (allowWitness : Bool) : Parse UInt8 (UInt8 × List CTxIn × List CTxOut) := do
  let vin ← unserVector A.txIn unserTxIn
  if vin.length = 0 ∧ allowWitness then do
    let flags ← item
    if flags ≠ 0 then do
      let vin ← unserVector A.txIn unserTxIn
      let vout ← unserVector A.txOut unserTxOut
      return (flags, vin, vout)
    else return (flags, [], [])
  else do
    let vout ← unserVector A.txOut unserTxOut
    return (0, vin, vout)

/-- The loop over `tx.vin[i].scriptWitness.stack`. -/
def unserWitnesses : List CTxIn → Parse UInt8 (List CTxIn)
  | [] => return []
  | i :: vin => do
    let stack ← unserVector A.byteVector unserBytes
    let rest ← unserWitnesses vin
    return { i with scriptWitness := stack } :: rest

/-- The witnesses, the checks on the flags, and `nLockTime`. -/
def unserWitnessTime (allowWitness : Bool) (version : UInt32) (flags : UInt8) (vin : List CTxIn)
    (vout : List CTxOut) : Parse UInt8 CTransaction :=
  if flags &&& 1 ≠ 0 ∧ allowWitness then do
    let vin ← unserWitnesses A vin
    if !hasWitness vin then fail
    else if flags ^^^ 1 ≠ 0 then fail
    else do
      let nLockTime ← uint32
      return ⟨version, vin, vout, nLockTime⟩
  else if flags ≠ 0 then fail
  else do
    let nLockTime ← uint32
    return ⟨version, vin, vout, nLockTime⟩

/-- `UnserializeTransaction`. -/
def unserializeTransaction (allowWitness : Bool) : Parse UInt8 CTransaction := do
  let version ← uint32
  let (flags, vin, vout) ← unserInOut A allowWitness
  unserWitnessTime A allowWitness version flags vin vout

def unserBlock : Parse UInt8 CBlock := do
  let header ← unserHeader
  let vtx ← unserVector A.txRef (unserializeTransaction A true)
  return ⟨header, vtx⟩

end Reads

/-! ## 4. Reading inverts writing -/

/-- What the two functions of a type are to do: reading inverts writing, and no span is empty. -/
structure Codes {α : Type} (ser : α → List Data) (unser : Parse UInt8 α) (valid : α → Prop) :
    Prop where
  inverts : Inverts unser valid fun a => (ser a).flatten
  spans : ∀ a, ∀ span ∈ ser a, span ≠ []

section Framework

variable {α γ : Type} {ser : α → List Data} {unser : Parse UInt8 α} {valid : α → Prop}

/-- One field, and those after it. -/
theorem Codes.bind {next : α → Parse UInt8 γ} {all : γ → Prop} (h : Codes ser unser valid)
    (part : γ → α) (later : γ → List Data) (hall : ∀ c, all c → valid (part c))
    (hnext : ∀ a, valid a → Inverts (next a) (fun c => part c = a ∧ all c)
      fun c => (later c).flatten) :
    Inverts (unser >>= next) all fun c => (ser (part c) ++ later c).flatten :=
  (h.inverts.bind part (fun c => (later c).flatten) hall hnext).congr (fun _ => Iff.rfl)
    fun _ _ => List.flatten_append

/-- The last field. -/
theorem Codes.last {make : α → γ} {all : γ → Prop} (h : Codes ser unser valid) (part : γ → α)
    (hall : ∀ c, all c → valid (part c))
    (hmake : ∀ a c, valid a → (c = make a ↔ part c = a ∧ all c)) :
    Inverts (unser >>= fun a => pure (make a)) all fun c => (ser (part c)).flatten :=
  h.inverts.map part hall hmake

theorem spans_append {s t : List Data} (hs : ∀ span ∈ s, span ≠ []) (ht : ∀ span ∈ t, span ≠ []) :
    ∀ span ∈ s ++ t, span ≠ [] := by
  intro span hspan
  rcases List.mem_append.1 hspan with h | h
  · exact hs span h
  · exact ht span h

theorem toLittleEndian_ne (width n : Nat) : toLittleEndian (width + 1) n ≠ [] := nofun

theorem codes_uint32 : Codes serUInt32 uint32 fun _ => True where
  inverts := by
    refine ((inverts_littleEndian 4).map UInt32.toNat (fun v _ => v.toNat_lt) ?_).congr
      (fun _ => Iff.rfl) fun v _ => List.append_nil _
    intro n v hn
    constructor
    · rintro rfl
      exact ⟨UInt32.toNat_ofNat_of_lt' hn, trivial⟩
    · intro hv
      rw [← hv.1, UInt32.ofNat_toNat]
  spans v span hspan := by
    rw [List.mem_singleton.1 hspan]
    exact toLittleEndian_ne 3 _

theorem codes_int32 : Codes serInt32 int32 fun _ => True where
  inverts := by
    refine codes_uint32.last Int32.toUInt32 (fun _ _ => trivial) fun n v _ => ?_
    constructor
    · rintro rfl
      exact ⟨UInt32.toUInt32_toInt32 n, trivial⟩
    · intro hv
      rw [← hv.1, Int32.toInt32_toUInt32]
  spans v := codes_uint32.spans v.toUInt32

theorem codes_int64 : Codes serInt64 int64 fun _ => True where
  inverts := by
    refine ((inverts_littleEndian 8).map (fun v : Int64 => v.toUInt64.toNat)
      (fun v _ => v.toUInt64.toNat_lt) ?_).congr (fun _ => Iff.rfl) fun v _ => List.append_nil _
    intro n v hn
    constructor
    · rintro rfl
      refine ⟨?_, trivial⟩
      rw [UInt64.toUInt64_toInt64]
      exact UInt64.toNat_ofNat_of_lt' hn
    · intro hv
      rw [← hv.1, UInt64.ofNat_toNat, Int64.toInt64_toUInt64]
  spans v span hspan := by
    rw [List.mem_singleton.1 hspan]
    exact toLittleEndian_ne 7 _

theorem codes_uint256 : Codes serUInt256 uint256 fun _ => True where
  inverts s h rest := by
    have hflat : (serUInt256 h).flatten = h.val := List.append_nil _
    have htake := inverts_take 32 s h.val rest
    show uint256 s = some (h, rest) ↔ True ∧ s = (serUInt256 h).flatten ++ rest
    rw [hflat, true_and]
    unfold uint256
    constructor
    · intro hread
      split at hread
      · rename_i d rest' hd
        cases hread
        exact (htake.1 hd).2
      · cases hread
    · intro hs
      have hd := htake.2 ⟨h.property, hs⟩
      split
      · rename_i d rest' hd'
        rw [hd] at hd'
        cases hd'
        rfl
      · rename_i hnone
        rw [hd] at hnone
        cases hnone
  spans h span hspan := by
    rw [List.mem_singleton.1 hspan]
    intro hnil
    have hlen := h.property
    rw [hnil] at hlen
    cases hlen

/-- The first byte of a size. -/
def sizeMarker (n : Nat) : UInt8 :=
  if n < 253 then UInt8.ofNat n else if n ≤ 0xFFFF then 253 else if n ≤ 0xFFFFFFFF then 254 else 255

/-- What follows it. -/
def sizeRest (n : Nat) : Data :=
  if n < 253 then []
  else if n ≤ 0xFFFF then toLittleEndian 2 n
  else if n ≤ 0xFFFFFFFF then toLittleEndian 4 n
  else toLittleEndian 8 n

theorem writeCompactSize_flatten (n : Nat) :
    (writeCompactSize n).flatten = [sizeMarker n] ++ sizeRest n := by
  unfold writeCompactSize sizeMarker sizeRest
  split
  · rfl
  · split
    · exact congrArg (_ :: ·) (List.append_nil _)
    · split
      · exact congrArg (_ :: ·) (List.append_nil _)
      · exact congrArg (_ :: ·) (List.append_nil _)

theorem sizeMarker_eq_iff {n : Nat} {chSize : UInt8} (h : chSize.toNat < 253) :
    sizeMarker n = chSize ↔ n = chSize.toNat := by
  unfold sizeMarker
  constructor
  · intro hmarker
    split at hmarker
    · rw [← hmarker, UInt8.toNat_ofNat']
      omega
    · split at hmarker
      · rw [← hmarker] at h
        exact absurd h (by decide)
      · split at hmarker
        · rw [← hmarker] at h
          exact absurd h (by decide)
        · rw [← hmarker] at h
          exact absurd h (by decide)
  · rintro rfl
    rw [if_pos h, UInt8.ofNat_toNat]

theorem sizeMarker_long {n : Nat} :
    (sizeMarker n = 253 ↔ 253 ≤ n ∧ n ≤ 0xFFFF) ∧
    (sizeMarker n = 254 ↔ 0xFFFF < n ∧ n ≤ 0xFFFFFFFF) ∧
    (sizeMarker n = 255 ↔ 0xFFFFFFFF < n) := by
  unfold sizeMarker
  split
  · rename_i hn
    have hne : ∀ m : UInt8, 253 ≤ m.toNat → UInt8.ofNat n ≠ m := by
      rintro m hm rfl
      rw [UInt8.toNat_ofNat'] at hm
      omega
    refine ⟨⟨fun h => absurd h (hne 253 (by decide)), fun h => ?_⟩,
      ⟨fun h => absurd h (hne 254 (by decide)), fun h => ?_⟩,
      ⟨fun h => absurd h (hne 255 (by decide)), fun h => ?_⟩⟩
    · omega
    · omega
    · omega
  · split
    · refine ⟨⟨fun _ => by omega, fun _ => rfl⟩, ⟨fun h => (by cases h), fun h => ?_⟩,
        ⟨fun h => (by cases h), fun h => ?_⟩⟩
      · omega
      · omega
    · split
      · refine ⟨⟨fun h => (by cases h), fun h => ?_⟩, ⟨fun _ => by omega, fun _ => rfl⟩,
          ⟨fun h => (by cases h), fun h => ?_⟩⟩
        · omega
        · omega
      · refine ⟨⟨fun h => (by cases h), fun h => ?_⟩, ⟨fun h => (by cases h), fun h => ?_⟩,
          ⟨fun _ => by omega, fun _ => rfl⟩⟩
        · omega
        · omega

theorem inverts_longSize (chSize : UInt8) :
    Inverts (readLongSize chSize) (fun n => sizeMarker n = chSize ∧ n < 2 ^ 64) sizeRest := by
  unfold readLongSize
  split
  · rename_i h
    rw [UInt8.lt_iff_toNat_lt] at h
    have hch := chSize.toNat_lt
    refine (inverts_pure chSize.toNat).congr (fun n => ?_) fun n hn => ?_
    · rw [sizeMarker_eq_iff h]
      exact ⟨And.left, fun hn => ⟨hn, by omega⟩⟩
    · exact if_pos (hn ▸ h)
  · split
    · rename_i h
      subst h
      refine ((inverts_littleEndian 2).check (· < 253)).congr (fun n => ?_) fun n hn => ?_
      · rw [sizeMarker_long.1]
        omega
      · unfold sizeRest
        rw [if_neg hn.2, if_pos (by omega)]
    · split
      · rename_i h
        subst h
        refine ((inverts_littleEndian 4).check (· < 0x10000)).congr (fun n => ?_) fun n hn => ?_
        · rw [sizeMarker_long.2.1]
          omega
        · unfold sizeRest
          rw [if_neg (by omega), if_neg (by omega), if_pos (by omega)]
      · rename_i hsmall h253 h254
        obtain rfl : chSize = 255 := by
          refine UInt8.toNat.inj ?_
          rw [UInt8.lt_iff_toNat_lt] at hsmall
          rw [← UInt8.toNat_inj] at h253 h254
          have hch := chSize.toNat_lt
          simp only [UInt8.reduceToNat] at *
          omega
        refine ((inverts_littleEndian 8).check (· < 0x100000000)).congr (fun n => ?_)
          fun n hn => ?_
        · rw [sizeMarker_long.2.2]
          omega
        · unfold sizeRest
          rw [if_neg (by omega), if_neg (by omega), if_neg (by omega)]

/-- **Sizes**: one encoding each, and none above `MAX_SIZE` is read. -/
theorem codes_compactSize : Codes writeCompactSize readCompactSize fun n => n ≤ maxSize where
  inverts := by
    have hsize : Inverts (item >>= readLongSize) (fun n => n < 2 ^ 64)
        fun n => (writeCompactSize n).flatten :=
      (inverts_item.bind sizeMarker sizeRest (fun _ _ => trivial)
        fun chSize _ => inverts_longSize chSize).congr (fun _ => Iff.rfl)
          fun n _ => writeCompactSize_flatten n
    unfold readCompactSize
    rw [← bind_assoc]
    refine (hsize.check (· > maxSize)).congr (fun n => ?_) fun _ _ => rfl
    unfold maxSize
    omega
  spans n span hspan := by
    unfold writeCompactSize at hspan
    split at hspan
    · rw [List.mem_singleton.1 hspan]
      exact List.cons_ne_nil _ _
    · split at hspan
      · simp only [List.mem_cons, List.not_mem_nil, or_false] at hspan
        obtain rfl | rfl := hspan
        · exact List.cons_ne_nil _ _
        · exact toLittleEndian_ne 1 n
      · split at hspan
        · simp only [List.mem_cons, List.not_mem_nil, or_false] at hspan
          obtain rfl | rfl := hspan
          · exact List.cons_ne_nil _ _
          · exact toLittleEndian_ne 3 n
        · simp only [List.mem_cons, List.not_mem_nil, or_false] at hspan
          obtain rfl | rfl := hspan
          · exact List.cons_ne_nil _ _
          · exact toLittleEndian_ne 7 n

/-- **Vectors**, whatever the size of an element and so of a batch. -/
theorem codes_vector (e : ElementSize) (h : Codes ser unser valid) :
    Codes (serVector ser) (unserVector e unser)
      fun v => v.length ≤ maxSize ∧ ∀ a ∈ v, valid a where
  inverts := by
    refine codes_compactSize.bind List.length (fun v => v.flatMap ser) (fun _ => And.left)
      fun size hsize => ?_
    rw [batches_eq e.batch_pos (Nat.le_refl size)]
    refine (h.inverts.many size).congr (fun v => ?_) fun v _ => ?_
    · exact ⟨fun hv => ⟨hv.1, hv.2.2⟩, fun hv => ⟨hv.1, hv.1 ▸ hsize, hv.2⟩⟩
    · rw [← List.flatMap_id, List.flatMap_assoc]
      exact congrArg (List.flatMap · v) (funext fun a => List.flatMap_id)
  spans v := by
    refine spans_append (codes_compactSize.spans _) fun span hspan => ?_
    obtain ⟨a, -, ha⟩ := List.mem_flatMap.1 hspan
    exact h.spans a span ha

/-- **Byte vectors**, with the same content in as many blocks as there are. -/
theorem codes_bytes : Codes serBytes unserBytes fun d => d.length ≤ maxSize where
  inverts := by
    refine codes_compactSize.bind List.length (fun d => if d.isEmpty then [] else [d])
      (fun _ hd => hd) fun size hsize => ?_
    rw [blocks_eq (by decide) (Nat.le_refl size)]
    refine (inverts_take size).congr (fun d => ?_) fun d _ => ?_
    · exact ⟨And.left, fun hd => ⟨hd, hd ▸ hsize⟩⟩
    · cases d with
      | nil => rfl
      | cons b d => exact List.append_nil _
  spans d := by
    refine spans_append (codes_compactSize.spans _) fun span hspan => ?_
    cases d with
    | nil => cases hspan
    | cons b d =>
      rw [List.mem_singleton.1 hspan]
      exact List.cons_ne_nil _ _

end Framework

/-! ## 5. The primitives -/

theorem codes_outPoint : Codes serOutPoint unserOutPoint fun _ => True where
  inverts := by
    refine codes_uint256.bind COutPoint.hash (fun o => serUInt32 o.n) (fun _ _ => trivial)
      fun hash _ => ?_
    refine codes_uint32.last COutPoint.n (fun _ _ => trivial) fun n o _ => ?_
    cases o
    simp only [COutPoint.mk.injEq, and_true]
    exact and_comm
  spans _ := spans_append (codes_uint256.spans _) (codes_uint32.spans _)

/-- The script of an input can be read, and the input has no witness yet. -/
def InputBare (i : CTxIn) : Prop := i.scriptSig.length ≤ maxSize ∧ i.scriptWitness = []

theorem codes_txIn : Codes serTxIn unserTxIn InputBare where
  inverts := by
    refine codes_outPoint.bind CTxIn.prevout (fun i => serBytes i.scriptSig ++ serUInt32 i.nSequence)
      (fun _ _ => trivial) fun prevout _ => ?_
    refine codes_bytes.bind CTxIn.scriptSig (fun i => serUInt32 i.nSequence) (fun _ hi => hi.2.1)
      fun scriptSig hscript => ?_
    refine codes_uint32.last CTxIn.nSequence (fun _ _ => trivial) fun nSequence i _ => ?_
    constructor
    · rintro rfl
      exact ⟨rfl, rfl, rfl, hscript, rfl⟩
    · intro hi
      obtain ⟨rfl, rfl, rfl, -, hwitness⟩ := hi
      rw [← hwitness]
  spans _ := spans_append (codes_outPoint.spans _)
    (spans_append (codes_bytes.spans _) (codes_uint32.spans _))

/-- The script of an output can be read. -/
def OutputSized (o : CTxOut) : Prop := o.scriptPubKey.length ≤ maxSize

instance : DecidablePred OutputSized := fun o =>
  inferInstanceAs (Decidable (o.scriptPubKey.length ≤ maxSize))

theorem codes_txOut : Codes serTxOut unserTxOut OutputSized where
  inverts := by
    refine codes_int64.bind CTxOut.nValue (fun o => serBytes o.scriptPubKey) (fun _ _ => trivial)
      fun nValue _ => ?_
    refine codes_bytes.last CTxOut.scriptPubKey (fun _ ho => ho.2) fun scriptPubKey o hscript => ?_
    constructor
    · rintro rfl
      exact ⟨rfl, rfl, hscript⟩
    · intro ho
      obtain ⟨rfl, rfl, -⟩ := ho
      rfl
  spans _ := spans_append (codes_int64.spans _) (codes_bytes.spans _)

theorem codes_header : Codes serHeader unserHeader fun _ => True where
  inverts := by
    refine codes_int32.bind CBlockHeader.nVersion (fun h => serUInt256 h.hashPrevBlock ++
      (serUInt256 h.hashMerkleRoot ++ (serUInt32 h.nTime ++ (serUInt32 h.nBits ++
        serUInt32 h.nNonce)))) (fun _ _ => trivial) fun nVersion _ => ?_
    refine codes_uint256.bind CBlockHeader.hashPrevBlock (fun h => serUInt256 h.hashMerkleRoot ++
      (serUInt32 h.nTime ++ (serUInt32 h.nBits ++ serUInt32 h.nNonce))) (fun _ _ => trivial)
      fun hashPrevBlock _ => ?_
    refine codes_uint256.bind CBlockHeader.hashMerkleRoot (fun h => serUInt32 h.nTime ++
      (serUInt32 h.nBits ++ serUInt32 h.nNonce)) (fun _ _ => trivial) fun hashMerkleRoot _ => ?_
    refine codes_uint32.bind CBlockHeader.nTime (fun h => serUInt32 h.nBits ++ serUInt32 h.nNonce)
      (fun _ _ => trivial) fun nTime _ => ?_
    refine codes_uint32.bind CBlockHeader.nBits (fun h => serUInt32 h.nNonce) (fun _ _ => trivial)
      fun nBits _ => ?_
    refine codes_uint32.last CBlockHeader.nNonce (fun _ _ => trivial) fun nNonce h _ => ?_
    constructor
    · rintro rfl
      exact ⟨rfl, rfl, rfl, rfl, rfl, rfl, trivial⟩
    · intro hh
      obtain ⟨rfl, rfl, rfl, rfl, rfl, rfl, -⟩ := hh
      rfl
  spans _ := spans_append (codes_int32.spans _) (spans_append (codes_uint256.spans _)
    (spans_append (codes_uint256.spans _) (spans_append (codes_uint32.spans _)
      (spans_append (codes_uint32.spans _) (codes_uint32.spans _)))))

/-! ## 6. A transaction -/

/-- The flag byte, the inputs and the outputs, as `unserInOut` reads them. -/
abbrev InOut := UInt8 × List CTxIn × List CTxOut

/-- How they are written: a flag other than zero has the dummy before it. -/
def serInOut (c : InOut) : List Data :=
  (if c.1 = 0 then [] else serVector serTxIn [] ++ [[c.1]]) ++
    (serVector serTxIn c.2.1 ++ serVector serTxOut c.2.2)

/-- Which of them can be read. Outputs without inputs would be read as a flag byte. -/
structure InOutReadable (allowWitness : Bool) (c : InOut) : Prop where
  inputs : c.2.1.length ≤ maxSize ∧ ∀ i ∈ c.2.1, InputBare i
  outputs : c.2.2.length ≤ maxSize ∧ ∀ o ∈ c.2.2, OutputSized o
  flags : allowWitness = false → c.1 = 0
  dummy : allowWitness = true → c.1 = 0 → c.2.1 = [] → c.2.2 = []

section Transaction

variable (A : Abi)

/-- The flag byte, after the dummy. -/
theorem inverts_flagged :
    Inverts (do
      let flags ← item
      if flags ≠ 0 then do
        let vin ← unserVector A.txIn unserTxIn
        let vout ← unserVector A.txOut unserTxOut
        return (flags, vin, vout)
      else return (flags, [], []))
      (fun c : InOut => (c.1 = 0 → c.2.1 = []) ∧ InOutReadable true c)
      (fun c => [c.1] ++ if c.1 = 0 then []
        else (serVector serTxIn c.2.1 ++ serVector serTxOut c.2.2).flatten) := by
  refine inverts_item.bind Prod.fst _ (fun _ _ => trivial) fun flags _ => ?_
  by_cases hflags : flags = 0
  · rw [if_neg (not_not.2 hflags)]
    refine (inverts_pure _).congr (fun c => ?_) fun c hc => ?_
    · constructor
      · intro hc
        obtain ⟨rfl, hvin, hc⟩ := hc
        obtain ⟨f, vin, vout⟩ := c
        obtain rfl : vin = [] := hvin hflags
        obtain rfl : vout = [] := hc.dummy rfl hflags rfl
        rfl
      · rintro rfl
        refine ⟨rfl, fun _ => rfl, ⟨⟨Nat.zero_le _, ?_⟩, ⟨Nat.zero_le _, ?_⟩, ?_, ?_⟩⟩
        · exact fun _ h => absurd h List.not_mem_nil
        · exact fun _ h => absurd h List.not_mem_nil
        · exact fun h => (by cases h)
        · exact fun _ _ _ => rfl
    · rw [hc]
      exact if_pos hflags
  · rw [if_pos hflags]
    refine ((codes_vector A.txIn codes_txIn).bind (fun c : InOut => c.2.1)
      (fun c => serVector serTxOut c.2.2) (fun c hc => hc.2.2.inputs) fun vin hvin => ?_).congr
      (fun _ => Iff.rfl) fun c hc => ?_
    · refine (codes_vector A.txOut codes_txOut).last (fun c : InOut => c.2.2)
        (fun c hc => hc.2.2.2.outputs) fun vout c hvout => ?_
      constructor
      · rintro rfl
        refine ⟨rfl, rfl, rfl, fun h => absurd h hflags, hvin, hvout, ?_, ?_⟩
        · exact fun h => (by cases h)
        · exact fun _ h => absurd h hflags
      · intro hc
        obtain ⟨rfl, rfl, rfl, -⟩ := hc
        rfl
    · exact if_neg (hc.1 ▸ hflags)

theorem inverts_inOut (allowWitness : Bool) :
    Inverts (unserInOut A allowWitness) (InOutReadable allowWitness) fun c => (serInOut c).flatten := by
  -- what the first vector is: the inputs, or the dummy
  have hfirst : ∀ c, InOutReadable allowWitness c →
      (if c.1 = 0 then c.2.1 else []).length ≤ maxSize ∧
        ∀ i ∈ (if c.1 = 0 then c.2.1 else []), InputBare i := by
    intro c hc
    split
    · exact hc.inputs
    · exact ⟨Nat.zero_le _, fun _ h => absurd h List.not_mem_nil⟩
  refine ((codes_vector A.txIn codes_txIn).bind (fun c : InOut => if c.1 = 0 then c.2.1 else [])
    (fun c => if c.1 = 0 then serVector serTxOut c.2.2
      else [[c.1]] ++ (serVector serTxIn c.2.1 ++ serVector serTxOut c.2.2)) hfirst
    fun first hvalid => ?_).congr (fun _ => Iff.rfl) fun c _ => ?_
  · by_cases hcase : first.length = 0 ∧ allowWitness = true
    · obtain ⟨hnil, rfl⟩ := hcase
      obtain rfl := List.length_eq_zero_iff.1 hnil
      rw [if_pos ⟨hnil, rfl⟩]
      refine (inverts_flagged A).congr (fun c => ?_) fun c hc => ?_
      · refine and_congr_left fun _ => ?_
        split
        · rename_i h
          exact ⟨fun hvin _ => hvin, fun hvin => hvin h⟩
        · rename_i h
          exact ⟨fun _ hc => absurd hc h, fun _ => rfl⟩
      · split
        · rename_i h
          rw [hc.2.dummy rfl h (hc.1 h), h]
          rfl
        · rfl
    · rw [if_neg hcase]
      have hzero : ∀ c, (if c.1 = 0 then c.2.1 else []) = first ∧ InOutReadable allowWitness c →
          c.1 = 0 := by
        intro c hc
        by_contra hne
        rw [if_neg hne] at hc
        refine hcase ⟨by rw [← hc.1, List.length_nil], ?_⟩
        by_contra haw
        exact hne (hc.2.flags (Bool.eq_false_iff.2 haw))
      refine ((codes_vector A.txOut codes_txOut).last (fun c : InOut => c.2.2)
        (fun c hc => hc.2.outputs) fun vout c hvout => ?_).congr (fun _ => Iff.rfl) fun c hc => ?_
      · constructor
        · rintro rfl
          refine ⟨rfl, rfl, hvalid, hvout, fun _ => rfl, fun haw _ hvin => ?_⟩
          exact absurd ⟨List.length_eq_zero_iff.2 hvin, haw⟩ hcase
        · intro hc
          obtain ⟨rfl, hc⟩ := hc
          have hflags := hzero c hc
          rw [← hc.1, if_pos hflags]
          exact Prod.ext hflags rfl
      · rw [if_pos (hzero c hc)]
  · unfold serInOut
    split
    · rfl
    · exact congrArg List.flatten (List.append_assoc _ _ _)

/-- A stack of witness items can be read. -/
def WitnessSized (i : CTxIn) : Prop :=
  i.scriptWitness.length ≤ maxSize ∧ ∀ d ∈ i.scriptWitness, d.length ≤ maxSize

instance : DecidablePred WitnessSized := fun i =>
  inferInstanceAs (Decidable (i.scriptWitness.length ≤ maxSize ∧
    ∀ d ∈ i.scriptWitness, d.length ≤ maxSize))

theorem inverts_witnesses (vin : List CTxIn) :
    Inverts (unserWitnesses A vin)
      (fun v => v.map CTxIn.bare = vin.map CTxIn.bare ∧ ∀ i ∈ v, WitnessSized i)
      fun v => (v.flatMap fun i => serVector serBytes i.scriptWitness).flatten := by
  induction vin with
  | nil =>
    refine (inverts_pure []).congr (fun v => ?_) fun v hv => by rw [hv]; rfl
    constructor
    · exact fun hv => List.map_eq_nil_iff.1 hv.1
    · rintro rfl
      exact ⟨rfl, fun _ h => absurd h List.not_mem_nil⟩
  | cons i vin ih =>
    have hcons : ∀ v, (v.map CTxIn.bare = (i :: vin).map CTxIn.bare ∧
        ∀ j ∈ v, WitnessSized j) → ∃ j rest, v = j :: rest ∧ j.bare = i.bare ∧
          WitnessSized j ∧ rest.map CTxIn.bare = vin.map CTxIn.bare ∧
          ∀ j ∈ rest, WitnessSized j := by
      intro v hv
      cases v with
      | nil => cases hv.1
      | cons j rest =>
        obtain ⟨hbare, hrest⟩ := List.cons.inj hv.1
        obtain ⟨hj, hsized⟩ := List.forall_mem_cons.1 hv.2
        exact ⟨j, rest, rfl, hbare, hj, hrest, hsized⟩
    refine ((codes_vector A.byteVector codes_bytes).bind
      (fun v : List CTxIn => v.head?.elim [] CTxIn.scriptWitness)
      (fun v => v.tail.flatMap fun i => serVector serBytes i.scriptWitness) (fun v hv => ?_)
      fun stack hstack => ?_).congr (fun _ => Iff.rfl) fun v hv => ?_
    · obtain ⟨j, rest, rfl, -, hj, -⟩ := hcons v hv
      exact hj
    · refine ih.map List.tail (fun v hv => ?_) fun rest v hrest => ?_
      · obtain ⟨j, rest, rfl, -, -, hrest⟩ := hcons v hv.2
        exact hrest
      · constructor
        · rintro rfl
          refine ⟨rfl, rfl, ?_, List.forall_mem_cons.2 ⟨hstack, hrest.2⟩⟩
          exact congrArg₂ List.cons rfl hrest.1
        · intro hv
          obtain ⟨rfl, rfl, hv⟩ := hv
          obtain ⟨j, rest, rfl, hbare, -⟩ := hcons v hv
          exact congrArg (· :: rest) (congrArg (fun k => { k with scriptWitness := j.scriptWitness })
            hbare)
    · obtain ⟨j, rest, rfl, -⟩ := hcons v hv
      rfl

/-- **Which transactions can be read**: none of the sizes is above `MAX_SIZE`; with witnesses, one
    with outputs has inputs; without, none of the inputs has a witness. -/
structure Readable (allowWitness : Bool) (tx : CTransaction) : Prop where
  inputs : tx.vin.length ≤ maxSize
  scriptSigs : ∀ i ∈ tx.vin, i.scriptSig.length ≤ maxSize
  witnesses : ∀ i ∈ tx.vin, WitnessSized i
  outputs : tx.vout.length ≤ maxSize
  scriptPubKeys : ∀ o ∈ tx.vout, OutputSized o
  dummy : allowWitness = true → tx.vin = [] → tx.vout = []
  noWitness : allowWitness = false → hasWitness tx.vin = false

/-- What of a transaction stands before the witnesses. -/
def inOut (allowWitness : Bool) (tx : CTransaction) : InOut :=
  (if allowWitness && hasWitness tx.vin then 1 else 0, tx.vin.map CTxIn.bare, tx.vout)

/-- And from there on. -/
def serWitnessTime (allowWitness : Bool) (tx : CTransaction) : List Data :=
  (if allowWitness && hasWitness tx.vin then
      tx.vin.flatMap fun i => serVector serBytes i.scriptWitness else []) ++
    serUInt32 tx.nLockTime

theorem serVector_bare (vin : List CTxIn) :
    serVector serTxIn (vin.map CTxIn.bare) = serVector serTxIn vin := by
  unfold serVector
  rw [List.length_map, List.flatMap_map]
  rfl

theorem serializeTransaction_eq (allowWitness : Bool) (tx : CTransaction) :
    serializeTransaction allowWitness tx =
      serUInt32 tx.version ++ (serInOut (inOut allowWitness tx) ++ serWitnessTime allowWitness tx) := by
  unfold serializeTransaction serInOut serWitnessTime inOut
  rw [serVector_bare]
  cases allowWitness && hasWitness tx.vin with
  | false => rfl
  | true => rfl

theorem hasWitness_eq_false {vin : List CTxIn} :
    hasWitness vin = false ↔ ∀ i ∈ vin, i.scriptWitness = [] := by
  unfold hasWitness
  rw [List.any_eq_false]
  refine forall₂_congr fun i _ => ?_
  rw [Bool.not_eq_true, Bool.not_eq_false', List.isEmpty_iff]

theorem map_bare_of_noWitness {vin : List CTxIn} (h : hasWitness vin = false) :
    vin.map CTxIn.bare = vin := by
  rw [hasWitness_eq_false] at h
  refine (List.map_congr_left fun i hi => ?_).trans (List.map_id vin)
  show { i with scriptWitness := [] } = i
  rw [← h i hi]

theorem inOut_readable {allowWitness : Bool} {tx : CTransaction} (h : Readable allowWitness tx) :
    InOutReadable allowWitness (inOut allowWitness tx) where
  inputs := by
    refine ⟨by rw [inOut, List.length_map]; exact h.inputs, fun i hi => ?_⟩
    obtain ⟨j, hj, rfl⟩ := List.mem_map.1 hi
    exact ⟨h.scriptSigs j hj, rfl⟩
  outputs := ⟨h.outputs, h.scriptPubKeys⟩
  flags haw := by rw [inOut, haw]; rfl
  dummy haw _ hvin := h.dummy haw (List.map_eq_nil_iff.1 hvin)

/-- The converse, with the witnesses that are read in between. -/
theorem readable_of_inOut {allowWitness : Bool} {tx : CTransaction} {c : InOut}
    (h : InOutReadable allowWitness c) (heq : inOut allowWitness tx = c)
    (hwitnesses : ∀ i ∈ tx.vin, WitnessSized i)
    (hnone : allowWitness = false → hasWitness tx.vin = false) : Readable allowWitness tx := by
  subst heq
  refine ⟨?_, fun i hi => ?_, hwitnesses, h.outputs.1, h.outputs.2, fun haw hvin => ?_, hnone⟩
  · have hlen := h.inputs.1
    rwa [inOut, List.length_map] at hlen
  · exact (h.inputs.2 i.bare (List.mem_map_of_mem hi)).1
  · refine h.dummy haw ?_ ?_
    · rw [inOut, hvin, hasWitness, List.any_nil, Bool.and_false]
      rfl
    · rw [inOut, hvin]
      rfl

/-- With the flag for witnesses. -/
theorem inverts_witnessed (version : UInt32) {vin : List CTxIn} {vout : List CTxOut}
    (h : InOutReadable true (1, vin, vout)) :
    Inverts (unserWitnessTime A true version 1 vin vout)
      (fun tx => inOut true tx = (1, vin, vout) ∧ tx.version = version ∧ Readable true tx)
      fun tx => (serWitnessTime true tx).flatten := by
  have hwitness : ∀ tx, inOut true tx = (1, vin, vout) → hasWitness tx.vin = true := by
    intro tx htx
    by_contra hne
    rw [inOut, Bool.eq_false_iff.2 hne] at htx
    have hflags : (0 : UInt8) = 1 := congrArg Prod.fst htx
    exact absurd hflags (by decide)
  have hbare : ∀ v : List CTxIn, (v.map CTxIn.bare).map CTxIn.bare = v.map CTxIn.bare :=
    fun v => List.map_map
  refine ((inverts_witnesses A vin).bind CTransaction.vin (fun tx => (serUInt32 tx.nLockTime).flatten)
    (fun tx htx => ?_) fun v hv => ?_).congr (fun _ => Iff.rfl) fun tx htx => ?_
  · refine ⟨?_, htx.2.2.witnesses⟩
    rw [← hbare]
    exact congrArg (fun c : InOut => c.2.1.map CTxIn.bare) htx.1
  · cases hhas : hasWitness v with
    | false =>
      refine inverts_of_fails (fun s => rfl) fun tx htx => ?_
      rw [← htx.1, hwitness tx htx.2.1] at hhas
      cases hhas
    | true =>
      refine codes_uint32.last CTransaction.nLockTime (fun _ _ => trivial) fun nLockTime tx _ => ?_
      constructor
      · rintro rfl
        have hin : inOut true ⟨version, v, vout, nLockTime⟩ = (1, vin, vout) := by
          refine Prod.ext ?_ (Prod.ext ?_ rfl)
          · rw [inOut, hhas]
            rfl
          · refine hv.1.trans (map_bare_of_noWitness ?_)
            exact hasWitness_eq_false.2 fun i hi => (h.inputs.2 i hi).2
        exact ⟨rfl, rfl, hin, rfl, readable_of_inOut h hin hv.2 fun h => (by cases h)⟩
      · intro htx
        obtain ⟨rfl, rfl, hin, rfl, -⟩ := htx
        obtain rfl : tx.vout = vout := congrArg (fun c : InOut => c.2.2) hin
        rfl
  · rw [serWitnessTime, hwitness tx htx.1, List.flatten_append]
    rfl

/-- Without it. -/
theorem inverts_plain (allowWitness : Bool) (version : UInt32) {vin : List CTxIn}
    {vout : List CTxOut} (h : InOutReadable allowWitness (0, vin, vout)) :
    Inverts (unserWitnessTime A allowWitness version 0 vin vout)
      (fun tx => inOut allowWitness tx = (0, vin, vout) ∧ tx.version = version ∧
        Readable allowWitness tx)
      fun tx => (serWitnessTime allowWitness tx).flatten := by
  have hnone : ∀ tx, inOut allowWitness tx = (0, vin, vout) → Readable allowWitness tx →
      hasWitness tx.vin = false := by
    intro tx htx hread
    cases haw : allowWitness with
    | false => exact hread.noWitness haw
    | true =>
      by_contra hne
      rw [inOut, haw, Bool.eq_true_of_not_eq_false hne] at htx
      have hflags : (1 : UInt8) = 0 := congrArg Prod.fst htx
      exact absurd hflags (by decide)
  have hvin : hasWitness vin = false := hasWitness_eq_false.2 fun i hi => (h.inputs.2 i hi).2
  unfold unserWitnessTime
  rw [if_neg (fun hc => hc.1 rfl), if_neg (not_not.2 rfl)]
  refine (codes_uint32.last CTransaction.nLockTime (fun _ _ => trivial)
    fun nLockTime tx _ => ?_).congr (fun _ => Iff.rfl) fun tx htx => ?_
  · constructor
    · rintro rfl
      have hin : inOut allowWitness ⟨version, vin, vout, nLockTime⟩ = (0, vin, vout) := by
        refine Prod.ext ?_ (Prod.ext (map_bare_of_noWitness hvin) rfl)
        rw [inOut, hvin, Bool.and_false]
        rfl
      refine ⟨rfl, hin, rfl, readable_of_inOut h hin (fun i hi => ?_) fun _ => hvin⟩
      unfold WitnessSized
      rw [(h.inputs.2 i hi).2]
      exact ⟨Nat.zero_le _, fun _ hd => absurd hd List.not_mem_nil⟩
    · intro htx
      obtain ⟨rfl, hin, rfl, hread⟩ := htx
      have hbare := map_bare_of_noWitness (hnone tx hin hread)
      obtain rfl : tx.vin = vin := hbare ▸ congrArg (fun c : InOut => c.2.1) hin
      obtain rfl : tx.vout = vout := congrArg (fun c : InOut => c.2.2) hin
      rfl
  · rw [serWitnessTime, hnone tx htx.1 htx.2.2, Bool.and_false]
    rfl

theorem inverts_witnessTime (allowWitness : Bool) (version : UInt32) {c : InOut}
    (h : InOutReadable allowWitness c) :
    Inverts (unserWitnessTime A allowWitness version c.1 c.2.1 c.2.2)
      (fun tx => inOut allowWitness tx = c ∧ tx.version = version ∧ Readable allowWitness tx)
      fun tx => (serWitnessTime allowWitness tx).flatten := by
  obtain ⟨flags, vin, vout⟩ := c
  by_cases hzero : flags = 0
  · subst hzero
    exact inverts_plain A allowWitness version h
  · obtain rfl : allowWitness = true := by
      by_contra haw
      exact hzero (h.flags (Bool.eq_false_iff.2 haw))
    by_cases hone : flags = 1
    · subst hone
      exact inverts_witnessed A version h
    · -- any other flag is refused, with the bit for witnesses or without
      refine inverts_of_fails (fun s => ?_) fun tx htx => ?_
      · have hxor : flags ^^^ 1 ≠ 0 := fun h => hone (UInt8.xor_eq_zero_iff.1 h)
        unfold unserWitnessTime
        split
        · refine bind_fails (fun v s => ?_) s
          split
          · rfl
          · rfl
        · rfl
      · have hflags := congrArg Prod.fst htx.1
        unfold inOut at hflags
        split at hflags
        · exact hone hflags.symm
        · exact hzero hflags.symm

/-- **Transactions**, with witnesses and without. -/
theorem codes_transaction (allowWitness : Bool) :
    Codes (serializeTransaction allowWitness) (unserializeTransaction A allowWitness)
      (Readable allowWitness) where
  inverts := by
    refine (codes_uint32.bind CTransaction.version
      (fun tx => serInOut (inOut allowWitness tx) ++ serWitnessTime allowWitness tx)
      (fun _ _ => trivial) fun version _ => ?_).congr (fun _ => Iff.rfl)
      fun tx _ => by rw [serializeTransaction_eq]
    refine ((inverts_inOut A allowWitness).bind (inOut allowWitness)
      (fun tx => (serWitnessTime allowWitness tx).flatten) (fun tx htx => inOut_readable htx.2)
      fun c hc => inverts_witnessTime A allowWitness version hc).congr (fun _ => Iff.rfl)
      fun tx _ => List.flatten_append
  spans tx := by
    rw [serializeTransaction_eq]
    refine spans_append (codes_uint32.spans _) (spans_append (spans_append ?_ ?_)
      (spans_append ?_ (codes_uint32.spans _)))
    · split
      · exact fun _ h => absurd h List.not_mem_nil
      · refine spans_append ((codes_vector A.txIn codes_txIn).spans []) fun span hspan => ?_
        rw [List.mem_singleton.1 hspan]
        exact List.cons_ne_nil _ _
    · exact spans_append ((codes_vector A.txIn codes_txIn).spans _)
        ((codes_vector A.txOut codes_txOut).spans _)
    · split
      · intro span hspan
        obtain ⟨i, -, hi⟩ := List.mem_flatMap.1 hspan
        exact (codes_vector A.byteVector codes_bytes).spans _ span hi
      · exact fun _ h => absurd h List.not_mem_nil

/-- **Blocks.** -/
theorem codes_block :
    Codes serBlock (unserBlock A)
      fun b => b.vtx.length ≤ maxSize ∧ ∀ tx ∈ b.vtx, Readable true tx where
  inverts := by
    refine codes_header.bind CBlock.header (fun b => serVector (serializeTransaction true) b.vtx)
      (fun _ _ => trivial) fun header _ => ?_
    refine (codes_vector A.txRef (codes_transaction A true)).last CBlock.vtx (fun _ hb => hb.2)
      fun vtx b hvtx => ?_
    constructor
    · rintro rfl
      exact ⟨rfl, rfl, hvtx⟩
    · intro hb
      obtain ⟨rfl, rfl, -⟩ := hb
      rfl
  spans _ := spans_append (codes_header.spans _)
    ((codes_vector A.txRef (codes_transaction A true)).spans _)

end Transaction

end Core

end SwiftBitcoinKernel
