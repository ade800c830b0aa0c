/-
  File:      SwiftBitcoinKernel/Kernel/CoinsDB.lean
  Subject:   `CCoinsViewDB::BatchWrite`, batch by batch.

  The changes of a cache are too many for one batch of the database, and only a batch is written as
  a whole. So the first batch takes the best block away and notes the two blocks that the database is
  between, and the last one sets the new best block. A crash leaves what a number of batches have
  written.

  * `CoinsDB` -- the coins, `DB_BEST_BLOCK` and `DB_HEAD_BLOCKS`;
  * `batches` -- the batches that `BatchWrite` writes, whatever their size;
  * `written_cases` -- after any number of them: as before, or half way and saying so, or done.
-/
import SwiftBitcoinKernel.Kernel.ConnectBlock
import SwiftBitcoinKernel.Logic.Writes

namespace SwiftBitcoinKernel

open Logic SwiftBitcoinKernel.Core

/-! ## 1. The database -/

/-- What is in the coins database. -/
structure CoinsDB where
  coins : Utxo
  bestBlock : Option Hash
  headBlocks : Option (List Hash)

/-- An empty database. -/
def CoinsDB.empty : CoinsDB := ⟨fun _ => none, none, none⟩

/-- `GetBestBlock`. -/
def CoinsDB.getBestBlock (db : CoinsDB) : Hash := db.bestBlock.getD .null

/-- `GetHeadBlocks`. -/
def CoinsDB.getHeadBlocks (db : CoinsDB) : List Hash := db.headBlocks.getD []

/-- The database as a view. -/
def CoinsDB.view (db : CoinsDB) : CCoinsView := .db db.coins db.getBestBlock

/-- What a batch does to one key: `Write`, or `Erase`. -/
inductive DbWrite where
  | coin (o : COutPoint) (value : Option UnspentCoin)
  | bestBlock (hash : Option Hash)
  | headBlocks (hashes : Option (List Hash))

/-- One of them. -/
def CoinsDB.apply (db : CoinsDB) : DbWrite → CoinsDB
  | .coin o value => { db with coins := Function.update db.coins o value }
  | .bestBlock hash => { db with bestBlock := hash }
  | .headBlocks hashes => { db with headBlocks := hashes }

/-- `WriteBatch`. -/
def CoinsDB.writeBatch (db : CoinsDB) (batch : List DbWrite) : CoinsDB := batch.foldl apply db

/-- Batches one after another. -/
def CoinsDB.writeBatches (db : CoinsDB) (batches : List (List DbWrite)) : CoinsDB :=
  batches.foldl writeBatch db

/-! ## 2. The batches -/

/-- What an entry of the cursor adds to the batch. -/
def entryWrite (w : COutPoint × Entry UnspentCoin) : List DbWrite :=
  if w.2.dirty then [.coin w.1 w.2.value] else []

/-- The loop of `BatchWrite` and the last batch. `full` is `ApproximateSize() > batch_write_bytes`. -/
def batchLoop (full : List DbWrite → Bool) (hashBlock : Hash) :
    List DbWrite → List (COutPoint × Entry UnspentCoin) → List (List DbWrite)
  | batch, [] => [batch ++ [.headBlocks none, .bestBlock (some hashBlock)]]
  | batch, w :: cursor =>
    let batch := batch ++ entryWrite w
    if full batch then batch :: batchLoop full hashBlock [] cursor
    else batchLoop full hashBlock batch cursor

/-- What stops `BatchWrite`. -/
inductive BatchError where
  /-- `assert(!hashBlock.IsNull())`. -/
  | nullBestBlock
  /-- `assert(old_heads[0] == hashBlock)`. -/
  | otherHead
  deriving DecidableEq, Repr

/-- `old_tip`, of which the heads tell where there is no best block. -/
def CoinsDB.oldTip (db : CoinsDB) (hashBlock : Hash) : Except BatchError Hash :=
  if db.getBestBlock ≠ .null then .ok db.getBestBlock
  else
    match db.getHeadBlocks with
    | [new, old] => if new = hashBlock then .ok old else .error .otherHead
    | _ => .ok .null

/-- **`BatchWrite`**: the batches, in the order they are written. -/
def CoinsDB.batches (full : List DbWrite → Bool) (db : CoinsDB) (hashBlock : Hash)
    (cursor : List (COutPoint × Entry UnspentCoin)) : Except BatchError (List (List DbWrite)) :=
  if hashBlock = .null then .error .nullBestBlock
  else do
    let oldTip ← db.oldTip hashBlock
    return batchLoop full hashBlock [.bestBlock none, .headBlocks (some [hashBlock, oldTip])] cursor

/-! ## 3. After any number of batches -/

/-- The coins that the entries of a cursor write. -/
def cursorWrites (cursor : List (COutPoint × Entry UnspentCoin)) :
    List (COutPoint × Option UnspentCoin) :=
  (cursor.filter fun w => w.2.dirty).map fun w => (w.1, w.2.value)

section Batches

variable {db : CoinsDB} {full : List DbWrite → Bool} {hashBlock : Hash}
  {cursor : List (COutPoint × Entry UnspentCoin)}

/-- Coins are written, and nothing else. -/
def CoinsDB.withCoins (db : CoinsDB) (ws : List (COutPoint × Option UnspentCoin)) : CoinsDB :=
  { db with coins := writes ws db.coins }

theorem writeBatch_append (batch batch' : List DbWrite) :
    db.writeBatch (batch ++ batch') = (db.writeBatch batch).writeBatch batch' :=
  List.foldl_append

theorem writeBatch_entry (w : COutPoint × Entry UnspentCoin) :
    db.writeBatch (entryWrite w) = db.withCoins (cursorWrites [w]) := by
  unfold entryWrite cursorWrites CoinsDB.writeBatch CoinsDB.withCoins
  cases hdirty : w.2.dirty with
  | true => simp [CoinsDB.apply, hdirty]
  | false => simp [hdirty]

theorem cursorWrites_cons (w : COutPoint × Entry UnspentCoin) :
    cursorWrites (w :: cursor) = cursorWrites [w] ++ cursorWrites cursor := by
  unfold cursorWrites
  rw [← List.map_append, ← List.filter_append]
  rfl

theorem withCoins_withCoins (ws ws' : List (COutPoint × Option UnspentCoin)) :
    (db.withCoins ws).withCoins ws' = db.withCoins (ws ++ ws') := by
  unfold CoinsDB.withCoins
  simp only [writes_append]

/-- The last batch says that the database is whole again. -/
def CoinsDB.settled (db : CoinsDB) (hashBlock : Hash) : CoinsDB :=
  { db with bestBlock := some hashBlock, headBlocks := none }

/-- **The loop**, from a batch that has been begun: after at least one batch, a part of the entries
    have been written, or all of them and the end. -/
theorem batchLoop_written (db : CoinsDB) (full : List DbWrite → Bool) (hashBlock : Hash)
    (cursor : List (COutPoint × Entry UnspentCoin)) (batch : List DbWrite) (n : Nat) :
    (∃ ws, ws <+: cursorWrites cursor ∧
      db.writeBatches ((batchLoop full hashBlock batch cursor).take (n + 1)) =
        (db.writeBatch batch).withCoins ws) ∨
    db.writeBatches ((batchLoop full hashBlock batch cursor).take (n + 1)) =
      ((db.writeBatch batch).withCoins (cursorWrites cursor)).settled hashBlock := by
  induction cursor generalizing batch db n with
  | nil =>
    refine Or.inr ?_
    unfold batchLoop
    simp only [List.take_succ_cons, List.take_nil]
    show db.writeBatch (batch ++ _) = _
    rw [writeBatch_append]
    rfl
  | cons w cursor ih =>
    have hbegun : db.writeBatch (batch ++ entryWrite w) =
        (db.writeBatch batch).withCoins (cursorWrites [w]) := by
      rw [writeBatch_append, writeBatch_entry]
    rw [cursorWrites_cons]
    unfold batchLoop
    dsimp only
    split
    · -- the batch is full, and is written
      rw [List.take_succ_cons]
      show (∃ ws, _ ∧ (db.writeBatch (batch ++ entryWrite w)).writeBatches _ = _) ∨
        (db.writeBatch (batch ++ entryWrite w)).writeBatches _ = _
      rw [hbegun]
      cases n with
      | zero => exact Or.inl ⟨cursorWrites [w], List.prefix_append _ _, rfl⟩
      | succ n =>
        obtain ⟨ws, hpre, hws⟩ | hdone := ih ((db.writeBatch batch).withCoins (cursorWrites [w])) [] n
        · refine Or.inl ⟨cursorWrites [w] ++ ws, (List.prefix_append_right_inj _).2 hpre, ?_⟩
          rw [hws, ← withCoins_withCoins]
          rfl
        · refine Or.inr ?_
          rw [hdone, ← withCoins_withCoins]
          rfl
    · obtain ⟨ws, hpre, hws⟩ | hdone := ih db (batch ++ entryWrite w) n
      · refine Or.inl ⟨cursorWrites [w] ++ ws, (List.prefix_append_right_inj _).2 hpre, ?_⟩
        rw [hws, hbegun, withCoins_withCoins]
      · refine Or.inr ?_
        rw [hdone, hbegun, withCoins_withCoins]

/-- All batches of the loop. -/
theorem batchLoop_all (batch : List DbWrite) :
    db.writeBatches (batchLoop full hashBlock batch cursor) =
      ((db.writeBatch batch).withCoins (cursorWrites cursor)).settled hashBlock := by
  induction cursor generalizing batch db with
  | nil =>
    show db.writeBatch (batch ++ _) = _
    rw [writeBatch_append]
    rfl
  | cons w cursor ih =>
    have hbegun : db.writeBatch (batch ++ entryWrite w) =
        (db.writeBatch batch).withCoins (cursorWrites [w]) := by
      rw [writeBatch_append, writeBatch_entry]
    rw [cursorWrites_cons, ← withCoins_withCoins, ← hbegun]
    unfold batchLoop
    dsimp only
    split
    · exact ih []
    · exact ih (batch ++ entryWrite w)

end Batches

/-! ## 4. The changes of a cache -/

/-- The flagged entries, in the order of the cursor. -/
def CCoinsViewCache.cursor (c : CCoinsViewCache) : List (COutPoint × Entry UnspentCoin) :=
  c.table.flagged.filterMap fun o => (c.table.entries o).map fun e => (o, e)

section Caches

variable {c : CCoinsViewCache} {below : Utxo} {db : CoinsDB} {full : List DbWrite → Bool}
  {hashBlock : Hash} {bs : List (List DbWrite)}

theorem cursorWrites_value : ∀ w ∈ cursorWrites c.cursor, w.2 = c.table.peek below w.1 := by
  intro w hw
  unfold cursorWrites CCoinsViewCache.cursor at hw
  simp only [List.mem_map, List.mem_filter, List.mem_filterMap, Option.map_eq_some_iff] at hw
  obtain ⟨-, ⟨⟨o, -, e, hentry, rfl⟩, -⟩, rfl⟩ := hw
  exact (peek_of_entry hentry).symm

theorem mem_cursorWrites (h : c.Ok below) {o : COutPoint} (ho : o ∈ c.table.flagged) :
    o ∈ (cursorWrites c.cursor).map Prod.fst := by
  obtain ⟨e, hentry, hdirty⟩ := (h.coherent.listed o).1 ho
  unfold cursorWrites CCoinsViewCache.cursor
  simp only [List.mem_map, List.mem_filter, List.mem_filterMap, Option.map_eq_some_iff]
  exact ⟨(o, e.value), ⟨(o, e), ⟨⟨o, ho, e, hentry, rfl⟩, hdirty⟩, rfl⟩, rfl⟩

/-- **The entries of the cursor** lead from the coins below to those of the cache. -/
theorem writes_cursor (h : c.Ok below) :
    writes (cursorWrites c.cursor) below = c.table.peek below := by
  refine writes_eq cursorWrites_value fun o ho => ?_
  cases hentry : c.table.entries o with
  | none => exact (peek_of_none hentry).symm
  | some e =>
    have hdirty : e.dirty = false := by
      rw [← Bool.not_eq_true]
      exact fun hdirty => ho (mem_cursorWrites h ((h.coherent.listed o).2 ⟨e, hentry, hdirty⟩))
    rw [peek_of_entry hentry, ((h.coherent.ok o e hentry).clean hdirty).1]

theorem batches_eq_ok (h : db.batches full hashBlock c.cursor = .ok bs) :
    hashBlock ≠ .null ∧ ∃ old, db.oldTip hashBlock = .ok old ∧
      bs = batchLoop full hashBlock [.bestBlock none, .headBlocks (some [hashBlock, old])]
        c.cursor := by
  unfold CoinsDB.batches at h
  split at h
  · cases h
  · rename_i hne
    obtain ⟨old, hold, hbs⟩ := of_except_bind h
    cases hbs
    exact ⟨hne, old, hold, rfl⟩

/-- **All batches**: the database has the coins of the cache and its best block. -/
theorem written_all (hok : c.Ok db.coins) (h : db.batches full hashBlock c.cursor = .ok bs) :
    db.writeBatches bs = ⟨c.table.peek db.coins, some hashBlock, none⟩ := by
  obtain ⟨-, old, -, rfl⟩ := batches_eq_ok h
  rw [batchLoop_all]
  show (⟨writes (cursorWrites c.cursor) db.coins, some hashBlock, none⟩ : CoinsDB) = _
  rw [writes_cursor hok]

/-- **After any number of batches**, the database is as it was, or it is half way and names the two
    blocks that it is between, or everything is written. -/
theorem written_cases (hok : c.Ok db.coins) (h : db.batches full hashBlock c.cursor = .ok bs)
    (n : Nat) :
    db.writeBatches (bs.take n) = db ∨
    (∃ old coins, db.oldTip hashBlock = .ok old ∧
      Between db.coins (c.table.peek db.coins) coins ∧
      db.writeBatches (bs.take n) = ⟨coins, none, some [hashBlock, old]⟩) ∨
    db.writeBatches (bs.take n) = ⟨c.table.peek db.coins, some hashBlock, none⟩ := by
  obtain ⟨-, old, hold, rfl⟩ := batches_eq_ok h
  cases n with
  | zero => exact Or.inl rfl
  | succ n =>
    obtain ⟨ws, hpre, hws⟩ | hdone := batchLoop_written db full hashBlock c.cursor
      [.bestBlock none, .headBlocks (some [hashBlock, old])] n
    · refine Or.inr (Or.inl ⟨old, writes ws db.coins, hold, ?_, hws⟩)
      exact between_writes between_left fun w hw => cursorWrites_value w (hpre.subset hw)
    · refine Or.inr (Or.inr (hdone.trans ?_))
      show (⟨writes (cursorWrites c.cursor) db.coins, some hashBlock, none⟩ : CoinsDB) = _
      rw [writes_cursor hok]

end Caches

end SwiftBitcoinKernel
