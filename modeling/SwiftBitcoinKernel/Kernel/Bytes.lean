/-
  File:      SwiftBitcoinKernel/Kernel/Bytes.lean
  Subject:   `Transaction`, `Block` and `BlockHeader`: their initializers, `data`, and the txid.

  An initializer hands its bytes to the C function, which reads from the front and does not look at
  what is left over; `data` has the C function write span by span into a callback that refuses a
  null pointer, and traps if that ever happens.

  * `CreationError` -- what the initializers throw;
  * `toBytes`, `serializeToData` -- `WriterStream` and Serialization.swift. Whether the pointer of
    an empty span is null is left open (`nullEmpty`);
  * `CTransaction.ofData`, `CBlock.ofData`, `CBlockHeader.ofData` -- the initializers;
  * `transaction_codec`, `block_codec` -- they accept just what `data` gives with anything after it,
    and `data` never traps;
  * `txid_binds` -- a txid is that of the transaction without its witnesses, and of no other;
  * `block_header_codec` -- a header is read from 80 bytes or more, and from the bytes of a block.
-/
import SwiftBitcoinKernel.Kernel.Serialize

namespace SwiftBitcoinKernel

open Logic Parse SwiftBitcoinKernel.Core

/-! ## 1. The boundary -/

/-- `KernelError`, by the cases that these initializers throw. -/
inductive CreationError where
  | transactionCreationFailed
  | blockCreationFailed
  | blockHeaderCreationFailed
  deriving DecidableEq, Repr

/-- The callback of `serializeToData`. `none` is a null pointer. -/
def appendBytes (bytes : Option Data) (data : Data) : Int32 × Data :=
  match bytes with
  | none => (1, data)
  | some bytes => (0, data ++ bytes)

/-- The body of `btck_transaction_to_bytes` and `btck_block_to_bytes`: `WriterStream::write` throws
    where the callback does not return zero, and the result is then -1. -/
def toBytes (nullEmpty : Bool) : List Data → Data → Int32 × Data
  | [], data => (0, data)
  | span :: spans, data =>
    let written := appendBytes (if nullEmpty && span.isEmpty then none else some span) data
    if written.1 ≠ 0 then (-1, written.2) else toBytes nullEmpty spans written.2

/-- `serializeToData(_:)`. -/
def serializeToData (body : Data → Int32 × Data) : Option Data :=
  let result := body []
  if result.1 = 0 then some result.2 else none

/-- The initializers: an empty buffer may have no base address, and is not handed on. -/
def initFrom {α : Type} (create : Parse UInt8 α) (error : CreationError) (d : Data) :
    Except CreationError α :=
  if d.isEmpty then .error error
  else
    match create d with
    | some (a, _) => .ok a
    | none => .error error

/-- `Transaction.init(_:)`, by `btck_transaction_create`. -/
def CTransaction.ofData (A : Abi) : Data → Except CreationError CTransaction :=
  initFrom (unserializeTransaction A true) .transactionCreationFailed

/-- `Block.init(_:)`, by `btck_block_create`. -/
def CBlock.ofData (A : Abi) : Data → Except CreationError CBlock :=
  initFrom (unserBlock A) .blockCreationFailed

/-- `BlockHeader.init(_:)`, by `btck_block_header_create`. -/
def CBlockHeader.ofData : Data → Except CreationError CBlockHeader :=
  initFrom unserHeader .blockHeaderCreationFailed

/-- `Transaction.data`; `none` is its `preconditionFailure`. -/
def CTransaction.data (nullEmpty : Bool) (tx : CTransaction) : Option Data :=
  serializeToData (toBytes nullEmpty (serializeTransaction true tx))

/-- `Block.data`. -/
def CBlock.data (nullEmpty : Bool) (b : CBlock) : Option Data :=
  serializeToData (toBytes nullEmpty (serBlock b))

section Boundary

variable {α : Type} {ser : α → List Data} {unser : Parse UInt8 α} {valid : α → Prop}

theorem toBytes_eq (nullEmpty : Bool) {spans : List Data} (h : ∀ span ∈ spans, span ≠ [])
    (data : Data) : toBytes nullEmpty spans data = (0, data ++ spans.flatten) := by
  induction spans generalizing data with
  | nil => exact congrArg (Prod.mk 0) (List.append_nil data).symm
  | cons span spans ih =>
    obtain ⟨hspan, hspans⟩ := List.forall_mem_cons.1 h
    have hnull : ¬(nullEmpty && span.isEmpty) = true := by
      rw [Bool.and_eq_true, List.isEmpty_iff]
      exact fun hand => hspan hand.2
    unfold toBytes appendBytes
    rw [if_neg hnull]
    show (if (0 : Int32) ≠ 0 then _ else toBytes nullEmpty spans (data ++ span)) = _
    rw [if_neg (not_not.2 rfl), ih hspans, List.flatten_cons, List.append_assoc]

/-- **`data` never traps**: no span of a value is empty. -/
theorem serializeToData_eq (h : Codes ser unser valid) (nullEmpty : Bool) (a : α) :
    serializeToData (toBytes nullEmpty (ser a)) = some (ser a).flatten := by
  unfold serializeToData
  rw [toBytes_eq nullEmpty (h.spans a)]
  rfl

/-- **An initializer accepts** what is written for a value, and anything after it. -/
theorem initFrom_eq_ok (h : Codes ser unser valid) (hne : ∀ a, (ser a).flatten ≠ [])
    (error : CreationError) (d : Data) (a : α) :
    initFrom unser error d = .ok a ↔ valid a ∧ ∃ trailing, d = (ser a).flatten ++ trailing := by
  unfold initFrom
  constructor
  · intro hinit
    split at hinit
    · cases hinit
    · split at hinit
      · rename_i b rest hread
        cases hinit
        obtain ⟨ha, rfl⟩ := (h.inverts d a rest).1 hread
        exact ⟨ha, rest, rfl⟩
      · cases hinit
  · intro hd
    obtain ⟨ha, trailing, rfl⟩ := hd
    have hcons : ¬((ser a).flatten ++ trailing).isEmpty = true := by
      rw [List.isEmpty_iff]
      exact fun hnil => hne a (List.append_eq_nil_iff.1 hnil).1
    rw [if_neg hcons, h.inverts.read_write ha trailing]

end Boundary

/-! ## 2. Transactions -/

theorem transaction_bytes_ne (allowWitness : Bool) (tx : CTransaction) :
    (serializeTransaction allowWitness tx).flatten ≠ [] := List.cons_ne_nil _ _

theorem transaction_ofData (A : Abi) (d : Data) (tx : CTransaction) :
    CTransaction.ofData A d = .ok tx ↔
      Readable true tx ∧ ∃ trailing, d = (serializeTransaction true tx).flatten ++ trailing :=
  initFrom_eq_ok (codes_transaction A true) (transaction_bytes_ne true) _ d tx

theorem transaction_data (nullEmpty : Bool) (tx : CTransaction) :
    tx.data nullEmpty = some (serializeTransaction true tx).flatten :=
  serializeToData_eq (codes_transaction Abi.lp64 true) nullEmpty tx

/-- **`Transaction.init(_:)` and `data`**: the bytes accepted are those that begin with the `data`
    of a readable transaction, which is the one returned; and `data` does not trap. -/
theorem transaction_codec (A : Abi) (nullEmpty : Bool) (d : Data) (tx : CTransaction) :
    CTransaction.ofData A d = .ok tx ↔
      Readable true tx ∧ ∃ bytes trailing, tx.data nullEmpty = some bytes ∧ d = bytes ++ trailing := by
  rw [transaction_ofData, transaction_data]
  refine and_congr_right fun _ => ?_
  constructor
  · intro hd
    obtain ⟨trailing, hd⟩ := hd
    exact ⟨_, trailing, rfl, hd⟩
  · intro hd
    obtain ⟨bytes, trailing, hbytes, hd⟩ := hd
    cases hbytes
    exact ⟨trailing, hd⟩

/-- A transaction without its witnesses. -/
def CTransaction.strip (tx : CTransaction) : CTransaction :=
  { tx with vin := tx.vin.map CTxIn.bare }

/-- `CTransaction::ComputeHash`, which `Transaction.txid` returns: the hash of the serialization
    with `TX_NO_WITNESS`. -/
def CTransaction.txid (sha256d : Data → Hash) (tx : CTransaction) : Hash :=
  sha256d (serializeTransaction false tx).flatten

theorem hasWitness_strip (tx : CTransaction) : hasWitness tx.strip.vin = false := by
  refine hasWitness_eq_false.2 fun i hi => ?_
  obtain ⟨j, -, rfl⟩ := List.mem_map.1 hi
  rfl

/-- Without witnesses the two serializations are one. -/
theorem serialize_strip (tx : CTransaction) (allowWitness : Bool) :
    serializeTransaction allowWitness tx.strip = serializeTransaction false tx := by
  rw [serializeTransaction_eq, serializeTransaction_eq]
  unfold serInOut serWitnessTime inOut
  rw [hasWitness_strip, Bool.and_false, Bool.false_and]
  show _ ++ (_ ++ (serVector serTxIn ((tx.vin.map CTxIn.bare).map CTxIn.bare) ++ _) ++ _) = _
  rw [List.map_map]
  rfl

theorem readable_strip {tx : CTransaction} (h : Readable true tx) (allowWitness : Bool) :
    Readable allowWitness tx.strip := by
  refine ⟨?_, ?_, ?_, h.outputs, h.scriptPubKeys, ?_, fun _ => hasWitness_strip tx⟩
  · show (tx.vin.map CTxIn.bare).length ≤ maxSize
    rw [List.length_map]
    exact h.inputs
  · intro i hi
    obtain ⟨j, hj, rfl⟩ := List.mem_map.1 hi
    exact h.scriptSigs j hj
  · intro i hi
    obtain ⟨j, -, rfl⟩ := List.mem_map.1 hi
    exact ⟨Nat.zero_le _, fun _ hd => absurd hd List.not_mem_nil⟩
  · exact fun _ hvin => h.dummy rfl (List.map_eq_nil_iff.1 hvin)

/-- **The txid** of an accepted transaction is that of the transaction without its witnesses, whose
    `data` is what is hashed; and two accepted transactions with one txid differ in their witnesses
    only, or the bytes hashed for them are a collision of the hash. -/
theorem txid_binds (A : Abi) (nullEmpty : Bool) (sha256d : Data → Hash) {d d' : Data}
    {tx tx' : CTransaction} (hd : CTransaction.ofData A d = .ok tx)
    (hd' : CTransaction.ofData A d' = .ok tx') :
    (∃ bytes, tx.strip.data nullEmpty = some bytes ∧ tx.txid sha256d = sha256d bytes ∧
      CTransaction.ofData A bytes = .ok tx.strip) ∧
    (tx.strip = tx'.strip → tx.txid sha256d = tx'.txid sha256d) ∧
    (tx.txid sha256d = tx'.txid sha256d →
      tx.strip = tx'.strip ∨ ∃ bytes bytes', tx.strip.data nullEmpty = some bytes ∧
        tx'.strip.data nullEmpty = some bytes' ∧ bytes ≠ bytes' ∧
        sha256d bytes = sha256d bytes') := by
  obtain ⟨hread, -⟩ := (transaction_ofData A d tx).1 hd
  obtain ⟨hread', -⟩ := (transaction_ofData A d' tx').1 hd'
  refine ⟨⟨_, transaction_data nullEmpty tx.strip, ?_, ?_⟩, ?_, ?_⟩
  · rw [serialize_strip]
    rfl
  · refine (transaction_ofData A _ _).2 ⟨readable_strip hread true, [], ?_⟩
    exact (List.append_nil _).symm
  · intro heq
    unfold CTransaction.txid
    rw [← serialize_strip tx false, heq, serialize_strip tx' false]
  · intro heq
    by_cases hbytes : (serializeTransaction true tx.strip).flatten =
        (serializeTransaction true tx'.strip).flatten
    · exact .inl ((codes_transaction A true).inverts.write_inj (readable_strip hread true)
        (readable_strip hread' true) (congrArg (· ++ []) hbytes)).1
    · refine .inr ⟨_, _, transaction_data nullEmpty tx.strip, transaction_data nullEmpty tx'.strip,
        hbytes, ?_⟩
      rw [serialize_strip, serialize_strip]
      exact heq

/-- A witness transaction, and the same without the witness. -/
def witnessTransaction : CTransaction where
  version := 2
  vin := [⟨⟨Hash.repeating 7, 0⟩, [], 0xFFFFFFFF, [[1, 2], []]⟩]
  vout := [⟨5000, [0x51]⟩]
  nLockTime := 0

/-- With a hash that is constant: the witness does not count, and another lock time is a collision.
    -/
theorem txid_binds_witness :
    witnessTransaction.txid (fun _ => Hash.repeating 0) =
      witnessTransaction.strip.txid (fun _ => Hash.repeating 0) ∧
    ∃ bytes bytes', witnessTransaction.strip.data true = some bytes ∧
      { witnessTransaction with nLockTime := 1 }.strip.data true = some bytes' ∧ bytes ≠ bytes' := by
  have hread : Readable true witnessTransaction :=
    ⟨by decide, by decide, by decide, by decide, by decide, by decide, by decide⟩
  have hread' : Readable true { witnessTransaction with nLockTime := 1 } :=
    ⟨by decide, by decide, by decide, by decide, by decide, by decide, by decide⟩
  have hd := (transaction_ofData Abi.lp64 _ _).2 ⟨hread, [], (List.append_nil _).symm⟩
  have hstrip := (transaction_ofData Abi.lp64 _ _).2
    ⟨readable_strip hread true, [], (List.append_nil _).symm⟩
  have hd' := (transaction_ofData Abi.lp64 _ _).2 ⟨hread', [], (List.append_nil _).symm⟩
  refine ⟨(txid_binds Abi.lp64 true (fun _ => Hash.repeating 0) hd hstrip).2.1 rfl, ?_⟩
  rcases (txid_binds Abi.lp64 true (fun _ => Hash.repeating 0) hd hd').2.2 rfl with
    hsame | ⟨bytes, bytes', hbytes, hbytes', hne, -⟩
  · exact absurd (congrArg CTransaction.nLockTime hsame) (by decide)
  · exact ⟨bytes, bytes', hbytes, hbytes', hne⟩

/-! ## 3. Blocks and headers -/

theorem block_bytes_ne (b : CBlock) : (serBlock b).flatten ≠ [] := List.cons_ne_nil _ _

theorem header_bytes_ne (h : CBlockHeader) : (serHeader h).flatten ≠ [] := List.cons_ne_nil _ _

theorem block_ofData (A : Abi) (d : Data) (b : CBlock) :
    CBlock.ofData A d = .ok b ↔ (b.vtx.length ≤ maxSize ∧ ∀ tx ∈ b.vtx, Readable true tx) ∧
      ∃ trailing, d = (serBlock b).flatten ++ trailing :=
  initFrom_eq_ok (codes_block A) block_bytes_ne _ d b

theorem header_ofData (d : Data) (h : CBlockHeader) :
    CBlockHeader.ofData d = .ok h ↔ ∃ trailing, d = (serHeader h).flatten ++ trailing :=
  (initFrom_eq_ok codes_header header_bytes_ne _ d h).trans (true_and _).to_iff

theorem header_bytes_length (h : CBlockHeader) : (serHeader h).flatten.length = 80 := by
  unfold serHeader serInt32 serUInt256 serUInt32
  simp only [List.flatten_append, List.flatten_singleton, List.length_append,
    toLittleEndian_length, h.hashPrevBlock.property, h.hashMerkleRoot.property]

theorem reads_uint32 : Reads 4 uint32 :=
  (reads_littleEndian 4).bind fun n => reads_pure (UInt32.ofNat n)

theorem reads_uint256 : Reads 32 uint256 := by
  intro s hs
  obtain ⟨d, rest, hread, hrest⟩ := reads_take 32 s hs
  have hd := (inverts_take 32 s d rest).1 hread
  refine ⟨⟨d, hd.1⟩, rest, ?_, hrest⟩
  refine (codes_uint256.inverts s ⟨d, hd.1⟩ rest).2 ⟨trivial, ?_⟩
  exact hd.2.trans (congrArg (· ++ rest) (List.append_nil d).symm)

theorem reads_header : Reads 80 unserHeader := by
  have hint32 : Reads 4 int32 := reads_uint32.bind fun v => reads_pure v.toInt32
  show Reads (4 + (32 + (32 + (4 + (4 + (4 + 0)))))) unserHeader
  refine hint32.bind fun nVersion => ?_
  refine reads_uint256.bind fun hashPrevBlock => ?_
  refine reads_uint256.bind fun hashMerkleRoot => ?_
  refine reads_uint32.bind fun nTime => ?_
  refine reads_uint32.bind fun nBits => ?_
  exact reads_uint32.bind fun nNonce => reads_pure _

/-- `CBlockHeader::GetHash`, which `BlockHeader.hash` and `Block.hash` return. -/
def CBlockHeader.hash (sha256d : Data → Hash) (h : CBlockHeader) : Hash :=
  sha256d (serHeader h).flatten

/-- **`Block.init(_:)` and `data`**, as for a transaction. -/
theorem block_codec (A : Abi) (nullEmpty : Bool) (d : Data) (b : CBlock) :
    CBlock.ofData A d = .ok b ↔
      (b.vtx.length ≤ maxSize ∧ ∀ tx ∈ b.vtx, Readable true tx) ∧
        ∃ bytes trailing, b.data nullEmpty = some bytes ∧ d = bytes ++ trailing := by
  have hdata : b.data nullEmpty = some (serBlock b).flatten :=
    serializeToData_eq (codes_block A) nullEmpty b
  rw [block_ofData, hdata]
  refine and_congr_right fun _ => ?_
  constructor
  · intro hd
    obtain ⟨trailing, hd⟩ := hd
    exact ⟨_, trailing, rfl, hd⟩
  · intro hd
    obtain ⟨bytes, trailing, hbytes, hd⟩ := hd
    cases hbytes
    exact ⟨trailing, hd⟩

/-- **`BlockHeader.init(_:)`** accepts any 80 bytes, with anything after them and whatever they are;
    the hash of the header is that of the 80 bytes; and from the bytes of a block it reads the
    header of the block. -/
theorem block_header_codec (A : Abi) (sha256d : Data → Hash) (d : Data) :
    ((∃ h, CBlockHeader.ofData d = .ok h) ↔ 80 ≤ d.length) ∧
    (∀ h, CBlockHeader.ofData d = .ok h → h.hash sha256d = sha256d (d.take 80)) ∧
    (∀ b, CBlock.ofData A d = .ok b → CBlockHeader.ofData d = .ok b.header) := by
  refine ⟨⟨fun hd => ?_, fun hlen => ?_⟩, fun h hd => ?_, fun b hd => ?_⟩
  · obtain ⟨h, hd⟩ := hd
    obtain ⟨trailing, rfl⟩ := (header_ofData d h).1 hd
    rw [List.length_append, header_bytes_length]
    exact Nat.le_add_right 80 _
  · obtain ⟨h, rest, hread, -⟩ := reads_header d hlen
    exact ⟨h, (header_ofData d h).2 ⟨rest, ((codes_header.inverts d h rest).1 hread).2⟩⟩
  · obtain ⟨trailing, rfl⟩ := (header_ofData d h).1 hd
    rw [List.take_left' (header_bytes_length h)]
    rfl
  · obtain ⟨-, trailing, rfl⟩ := (block_ofData A d b).1 hd
    refine (header_ofData _ b.header).2
      ⟨(serVector (serializeTransaction true) b.vtx).flatten ++ trailing, ?_⟩
    rw [serBlock, List.flatten_append, List.append_assoc]

end SwiftBitcoinKernel
