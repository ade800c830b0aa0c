/-
  File:      SwiftBitcoinKernel/Kernel/CrashSafety.lean
  Subject:   The chainstate never fails, whatever is connected, flushed and lost.

  One lemma for each function says what it does in a state that is as it should be; the machine's
  invariant follows step by step, and from it what holds of every run.

  * `connectTip_spec`, `disconnectTip_spec` -- the tip moves, and its coins with it;
  * `flushStateToDisk_spec`, `crash_spec` -- a flush that is finished, and one that is not;
  * `Disk.Torn.replay`, `loadChainstate_spec` -- an interrupted flush is made good;
  * `chainstate_ok` -- the invariant, of every run;
  * `chainstate_coins`, `connectTip_verdict`, `chainstate_recovers` -- what follows from it.
-/
import SwiftBitcoinKernel.Kernel.Chainstate

namespace SwiftBitcoinKernel

open Logic SwiftBitcoinKernel.Core

variable {T : BlockTree} {full : List DbWrite → Bool} {r : Running} {d : Disk}
  {x p : BlockIndex} {header : BlockHeader}

/-! ## 1. Views over the tip -/

/-- A cache over a database. -/
theorem cache_of_levels {v : CCoinsView} {l : Level} {coins : Utxo} {best : Hash}
    (h : v.levels = [l, ⟨coins, best⟩]) : ∃ c, v = .cache c (.db coins best) := by
  cases v with
  | db coins' best' => cases h
  | cache c base =>
    obtain ⟨-, hbase⟩ := List.cons.inj h
    cases base with
    | db coins' best' =>
      cases hbase
      exact ⟨c, rfl⟩
    | cache c' base' => exact absurd (List.cons.inj hbase).2 (levels_ne_nil base')

theorem coinsTip_levels (hr : r.Ok T) : r.coinsTip.view.levels =
    [⟨T.coinsAt r.tip, tipHash r.tip⟩, ⟨r.disk.db.coins, r.disk.db.getBestBlock⟩] := by
  show [(⟨r.coinsTip.utxo, r.cache.hashBlock⟩ : Level), _] = _
  rw [hr.utxo, hr.best]

/-- **The best block is the tip**, and `GetBestBlock` changes nothing. -/
theorem coinsTip_bestBlock (hr : r.Ok T) : r.coinsTip.bestBlock = (tipHash r.tip, r.coinsTip) := by
  have hbest := hr.best
  unfold CoinsStack.bestBlock
  split
  · rename_i hnull
    have hcache : r.cache.hashBlock = .null := hnull
    have htip : r.tip = none := tipHash_eq_null hr.reached (hbest.symm.trans hcache)
    obtain ⟨tip, hsettled, hnone, -⟩ := hr.settled
    have hdb : r.disk.db.getBestBlock = .null := by
      rw [hsettled.best, hnone htip]
      rfl
    show (r.disk.db.getBestBlock,
      (⟨{ r.cache with hashBlock := r.disk.db.getBestBlock }, r.disk.db.view⟩ : CoinsStack)) = _
    rw [hdb, ← hcache]
    exact congrArg (·, r.coinsTip) hbest
  · exact congrArg (·, r.coinsTip) hbest

theorem coinsTip_best (hr : r.Ok T) :
    bestBlock r.coinsTip.view.levels = (tipHash r.tip, r.coinsTip.view.levels) := by
  obtain ⟨hhash, -, hlevels, -⟩ := bestBlock_moved hr.valid
  rw [coinsTip_bestBlock hr] at hhash hlevels
  exact (Prod.ext hhash hlevels).symm

theorem overlay_valid (hr : r.Ok T) (overlay : Bool) :
    (CoinsStack.view ⟨.create overlay, r.coinsTip.view⟩).Valid :=
  ⟨hr.valid, coherent_empty, rfl⟩

/-- **A new cache over the tip** has its coins, and its best block. -/
theorem overlay_best (hr : r.Ok T) (overlay : Bool) :
    (CoinsStack.bestBlock ⟨.create overlay, r.coinsTip.view⟩).1 = tipHash r.tip ∧
    (CoinsStack.bestBlock ⟨.create overlay, r.coinsTip.view⟩).2.view.Valid ∧
    (CoinsStack.bestBlock ⟨.create overlay, r.coinsTip.view⟩).2.view.levels =
      ⟨T.coinsAt r.tip, tipHash r.tip⟩ :: r.coinsTip.view.levels := by
  obtain ⟨hhash, hvalid, hlevels, -⟩ := bestBlock_moved (overlay_valid hr overlay)
  have hbest : bestBlock (CoinsStack.view ⟨.create overlay, r.coinsTip.view⟩).levels =
      (tipHash r.tip, ⟨T.coinsAt r.tip, tipHash r.tip⟩ :: r.coinsTip.view.levels) := by
    show bestBlock (⟨r.coinsTip.utxo, .null⟩ :: r.coinsTip.view.levels) = _
    rw [bestBlock_cons, coinsTip_best hr, hr.utxo]
    exact if_pos rfl
  rw [hbest] at hhash hlevels
  exact ⟨hhash, hvalid, hlevels⟩

/-- **`Flush` onto the tip**: the tip's cache stands for what the view did. -/
theorem flush_onto (hr : r.Ok T) {s : CoinsStack} {l : Level} (hvalid : s.view.Valid)
    (hlevels : s.view.levels = l :: r.coinsTip.view.levels) :
    ∃ s' c, s.flush = .ok s' ∧ s'.base = .cache c r.disk.db.view ∧
      (CoinsStack.view ⟨c, r.disk.db.view⟩).Valid ∧
      CoinsStack.utxo ⟨c, r.disk.db.view⟩ = l.coins ∧ c.hashBlock = l.hashBlock := by
  obtain ⟨hfirst, hbase⟩ := List.cons.inj hlevels
  rw [coinsTip_levels hr, levels_eq s.base] at hbase
  have hunder := (List.cons.inj hbase).2
  obtain ⟨s', hflush, hvalid', hlevels'⟩ := flush_spec hvalid
    (accepts_of_levels (fun h => by
      rw [hunder] at h
      cases h.1) : s.base.accepts s.cache.hashBlock = true)
  rw [hunder] at hlevels'
  have hbase' := (List.cons.inj hlevels').2
  obtain ⟨c, hc⟩ := cache_of_levels hbase'
  have hdb : r.disk.db.view = .db r.disk.db.coins r.disk.db.getBestBlock := rfl
  rw [← hdb] at hc
  have hhead : (⟨s.utxo, s.cache.hashBlock⟩ : Level) = l := hfirst
  rw [hc] at hbase'
  have hlevel := (List.cons.inj hbase').1.trans hhead
  refine ⟨s', c, hflush, hc, ?_, congrArg Level.coins hlevel, congrArg Level.hashBlock hlevel⟩
  have hdown : s'.base.Valid := hvalid'.1
  rw [hc] at hdown
  exact hdown

/-- **The tip has moved** to a block that can be left again. -/
theorem Running.Ok.move (hr : r.Ok T) {c : CCoinsViewCache} {undo : UndoFiles}
    (hrecorded : T.Recorded undo)
    (hkept : ∀ y, r.undo.undoPos y ≠ none → undo.undoPos y ≠ none)
    (hreached : T.Reached r.index undo x) (hvalid : (CoinsStack.view ⟨c, r.disk.db.view⟩).Valid)
    (hutxo : CoinsStack.utxo ⟨c, r.disk.db.view⟩ = T.utxo x) (hbest : c.hashBlock = x.hash) :
    Running.Ok T { r with cache := c, undo := undo, tip := some x } := by
  obtain ⟨tip, hsettled, -, hleave⟩ := hr.settled
  refine ⟨hr.indexed, hrecorded, ?_, hvalid, hutxo, hbest, hr.diskIndexed, hr.diskRecorded,
    tip, hsettled, ?_, ?_⟩
  · intro y hy
    cases hy
    exact hreached
  · intro hnone
    cases hnone
  · intro y hy
    exact (hleave y hy).mono (fun _ h => h) hkept

/-! ## 2. Moving the tip -/

/-- A cache over the tip's has the tip's coins. -/
theorem overlay_utxo (hr : r.Ok T) (htip : r.tip = some p) :
    CoinsStack.utxo ⟨.create true, r.coinsTip.view⟩ = T.utxo p := by
  show r.coinsTip.utxo = _
  rw [hr.utxo, htip]
  rfl

theorem overlay_free (hr : r.Ok T) (hregular : T.Regular (.child p header)) (htip : r.tip = some p)
    (hoff : (T.context (.child p header)).enforceBIP30 = false) :
    ∀ tx ∈ (T.block (.child p header)).vtx, tx.isCoinBase = false →
      (CoinsStack.utxo ⟨.create true, r.coinsTip.view⟩).Free (T.context (.child p header)) tx := by
  intro tx htx _
  rw [overlay_utxo hr htip]
  exact hregular.free hoff tx htx

/-- What `ConnectBlock` has made of the tip's coins, where it has accepted the block. -/
theorem connectBlock_overlay (hr : r.Ok T) (hregular : T.Regular (.child p header))
    (htip : r.tip = some p) {fScriptChecks : Bool}
    (hmore : (T.rules (.child p header)).scriptChecks = true → fScriptChecks = true)
    {undo : CBlockUndo} {s : CoinsStack}
    (hok : connectBlock (T.contextAt (.child p header) fScriptChecks) (T.block (.child p header))
      ⟨.create true, r.coinsTip.view⟩ = .ok (undo, s)) :
    undo = T.undo (.child p header) ∧ s.view.Valid ∧
      s.view.levels = ⟨T.utxo (.child p header), BlockIndex.hash (.child p header)⟩ ::
        r.coinsTip.view.levels := by
  have hvalid := overlay_valid hr true
  obtain ⟨-, -, hlevels⟩ := overlay_best hr true
  have hutxo := overlay_utxo hr htip
  have hdone := connectBlock_spec hvalid hregular.collision (overlay_free hr hregular htip)
    (connectBlock_of_checked (B := T.context (.child p header)) hmore hok)
  have hundo : undo = T.undo (.child p header) := by
    rw [hdone.undo, hutxo]
    rfl
  have hafter := hdone.levels
  obtain ⟨-, -, hmoved, -⟩ := bestBlock_moved hvalid
  rw [← hmoved, hlevels, hutxo] at hafter
  have hhash : (T.block (.child p header)).header.hash (T.context (.child p header)).sha256d =
      BlockIndex.hash (.child p header) := hregular.stored
  rw [hhash] at hafter
  exact ⟨hundo, hdone.valid, hafter⟩

/-- **`ConnectBlock` on the tip's coins** gives the verdict that the block has, whatever is in the
    caches. -/
theorem connectEntry_child (hr : r.Ok T) (hregular : T.Regular (.child p header))
    (htip : r.tip = some p) {fScriptChecks : Bool}
    (hmore : (T.rules (.child p header)).scriptChecks = true → fScriptChecks = true) :
    (T.verdict (.child p header) fScriptChecks = false ∧ ∃ reason,
      connectEntry T (.child p header) fScriptChecks (T.block (.child p header))
        ⟨.create true, r.coinsTip.view⟩ = .error (.invalid reason)) ∨
    (T.verdict (.child p header) fScriptChecks = true ∧ ∃ s,
      connectEntry T (.child p header) fScriptChecks (T.block (.child p header))
        ⟨.create true, r.coinsTip.view⟩ = .ok (some (T.undo (.child p header)), s) ∧ s.view.Valid ∧
      s.view.levels = ⟨T.utxo (.child p header), BlockIndex.hash (.child p header)⟩ ::
        r.coinsTip.view.levels) := by
  obtain ⟨hbest, -, -⟩ := overlay_best hr true
  rw [htip] at hbest
  -- the caches differ from those of the reference; the answers do not
  have hsame := connectBlock_same (B := T.contextAt (.child p header) fScriptChecks)
    (overlay_valid hr true) (reference_valid (.child p header)) (overlay_utxo hr htip) hbest
    (reference_best (.child p header)) hregular.collision (overlay_free hr hregular htip)
  have hverdict : T.verdict (.child p header) fScriptChecks =
      (connectBlock (T.contextAt (.child p header) fScriptChecks) (T.block (.child p header))
        (T.reference (.child p header))).toBool := rfl
  unfold connectEntry
  dsimp only
  generalize hresult : connectBlock (T.contextAt (.child p header) fScriptChecks)
    (T.block (.child p header)) ⟨.create true, r.coinsTip.view⟩ = result at hsame
  generalize connectBlock (T.contextAt (.child p header) fScriptChecks) (T.block (.child p header))
    (T.reference (.child p header)) = reference at hsame hverdict
  cases hsame with
  | @error e hrejects =>
    obtain ⟨reason, rfl⟩ := hrejects
    exact Or.inl ⟨hverdict, reason, rfl⟩
  | @ok a _ _ =>
    obtain ⟨hundo, hvalid, hafter⟩ := connectBlock_overlay hr hregular htip hmore hresult
    rw [← hundo]
    exact Or.inr ⟨hverdict, a.2, rfl, hvalid, hafter⟩

/-- **`ConnectBlock` of genesis**, with no coins. -/
theorem connectEntry_root (hr : r.Ok T) (htip : r.tip = none) (fScriptChecks : Bool)
    (hcheck : checkBlock (T.context (.root header)) (T.block (.root header)) = none) :
    ∃ s, connectEntry T (.root header) fScriptChecks (T.block (.root header))
        ⟨.create true, r.coinsTip.view⟩ = .ok (none, s) ∧ s.view.Valid ∧
      s.view.levels = ⟨T.utxo (.root header), BlockIndex.hash (.root header)⟩ ::
        r.coinsTip.view.levels := by
  obtain ⟨hbest, hvalid, hlevels⟩ := overlay_best hr true
  rw [htip] at hbest hlevels
  have hnull : (CoinsStack.bestBlock ⟨.create true, r.coinsTip.view⟩).1 = .null := hbest
  unfold connectEntry
  dsimp only
  rw [hcheck]
  dsimp only
  rw [if_neg (not_not_intro hnull)]
  obtain ⟨hhead, htail⟩ := List.cons.inj hlevels
  refine ⟨_, rfl, ⟨hvalid.1, hvalid.2.coherent, hvalid.2.count⟩, ?_⟩
  rw [← htail]
  exact congrArg (fun coins => (⟨coins, BlockIndex.hash (.root header)⟩ : Level) :: _)
    (congrArg Level.coins hhead)

theorem recorded_writeUndo (h : T.Recorded r.undo) (x : BlockIndex) :
    T.Recorded (writeUndo T x (some (T.undo x)) r.undo) := by
  intro y
  rcases h y with hnone | hholds
  · by_cases hyx : y = x
    · subst hyx
      exact Or.inr (writeBlockUndo_holds hnone)
    · refine Or.inl ?_
      rw [← hnone]
      exact writeBlockUndo_pos_of_ne hyx _ _
  · exact Or.inr (hholds.write x (T.undo x))

theorem undoPos_writeUndo (x : BlockIndex) (undo : CBlockUndo) (st : UndoFiles) :
    (writeUndo T x (some undo) st).undoPos x ≠ none ∧
    ∀ y, st.undoPos y ≠ none → (writeUndo T x (some undo) st).undoPos y ≠ none := by
  have hself : (writeUndo T x (some undo) st).undoPos x ≠ none := by
    cases hpos : st.undoPos x with
    | none =>
      obtain ⟨nFile, nPos, rest, hx, -⟩ :=
        (writeBlockUndo_holds hpos :
          (writeUndo T x (some undo) st).Holds T.pubKeys T.undoContext x undo)
      intro hnone
      exact absurd (hx.symm.trans hnone) (by simp)
    | some pos =>
      have hsame : writeUndo T x (some undo) st = st := writeBlockUndo_of_some hpos
      rw [hsame, hpos]
      simp
  refine ⟨hself, fun y hy => ?_⟩
  by_cases hyx : y = x
  · rw [hyx]
    exact hself
  · rwa [show (writeUndo T x (some undo) st).undoPos y = st.undoPos y from
      writeBlockUndo_pos_of_ne hyx _ _]

/-- **`ConnectTip`** returns the block's verdict, and keeps what is invariant. -/
theorem connectTip_spec (hr : r.Ok T) (hgenesis : T.GenesisOk)
    (hx : x ∈ r.index) (hparent : x.parent? = r.tip) {fScriptChecks : Bool}
    (hmore : (T.rules x).scriptChecks = true → fScriptChecks = true) :
    ∃ r', connectTip T x fScriptChecks r = .ok (T.verdict x fScriptChecks, r') ∧ r'.Ok T ∧
      r'.disk = r.disk ∧ r'.tip = (if T.verdict x fScriptChecks then some x else r.tip) := by
  have hregular := hr.indexed.regular x hx
  unfold connectTip
  rw [if_neg (not_not_intro hparent), readBlock_of_regular hregular]
  dsimp only
  cases x with
  | root header =>
    have htip : r.tip = none := hparent.symm
    have hroot : Lineage.root header = Lineage.root T.genesis := hr.indexed.origin _ hx
    obtain rfl : header = T.genesis := by
      cases hroot
      rfl
    obtain ⟨s, hconnect, hvalid, hlevels⟩ := connectEntry_root hr htip fScriptChecks hgenesis.checked
    rw [hconnect]
    obtain ⟨s', c, hflush, hbase, hcvalid, hutxo, hbest⟩ := flush_onto hr hvalid hlevels
    dsimp only
    rw [hflush]
    dsimp only
    rw [hbase]
    refine ⟨_, rfl, hr.move hr.recorded (fun _ h => h) ⟨hx, ?_, ?_⟩ hcvalid hutxo hbest, rfl, rfl⟩
    · intro y hy
      rw [List.mem_singleton.1 hy]
      exact ⟨hregular, rfl⟩
    · intro p header' hmem
      cases List.mem_singleton.1 hmem
  | child p header =>
    have htip : r.tip = some p := hparent.symm
    rcases connectEntry_child hr hregular htip hmore with
      ⟨hverdict, reason, hconnect⟩ | ⟨hverdict, s, hconnect, hvalid, hlevels⟩
    · rw [hconnect, hverdict]
      exact ⟨r, rfl, hr, rfl, rfl⟩
    · rw [hconnect, hverdict]
      obtain ⟨s', c, hflush, hbase, hcvalid, hutxo, hbest⟩ := flush_onto hr hvalid hlevels
      dsimp only
      rw [hflush]
      dsimp only
      rw [hbase]
      obtain ⟨hself, hkept⟩ := undoPos_writeUndo (T := T) (.child p header)
        (T.undo (.child p header)) r.undo
      have hreached := hr.reached p htip
      refine ⟨_, rfl, hr.move (recorded_writeUndo hr.recorded _) hkept
        ⟨hx, hreached.accepted.child hregular (BlockTree.connects_of_verdict hmore hverdict), ?_⟩
        hcvalid hutxo hbest, rfl, rfl⟩
      intro q header' hmem
      rcases List.mem_cons.1 hmem with heq | hmem
      · rw [heq]
        exact hself
      · exact hkept _ (hreached.undone q header' hmem)

theorem BlockTree.Reached.parent {index : List BlockIndex} {undo : UndoFiles}
    (hindexed : T.Indexed index) (h : T.Reached index undo (.child p header)) :
    T.Reached index undo p :=
  ⟨hindexed.parent p header h.mem, h.accepted.parent,
    fun q header' hmem => h.undone q header' (List.mem_cons_of_mem _ hmem)⟩

/-- **`DisconnectTip`** goes back to the parent, and is never stopped. -/
theorem disconnectTip_spec (hr : r.Ok T) (htip : r.tip = some (.child p header)) :
    ∃ r', disconnectTip T r = .ok r' ∧ r'.Ok T ∧ r'.disk = r.disk ∧ r'.tip = some p := by
  have hreached := hr.reached _ htip
  obtain ⟨hregular, hconnects⟩ := hreached.accepted _ Lineage.mem_line_self
  obtain ⟨hbest, hvalid, hlevels⟩ := overlay_best hr false
  rw [htip] at hbest hlevels
  have hhashTip : (CoinsStack.bestBlock ⟨.create false, r.coinsTip.view⟩).1 =
      BlockIndex.hash (.child p header) := hbest
  obtain ⟨hhead, hbase⟩ := List.cons.inj hlevels
  obtain ⟨s, hdone, hutxo⟩ := connected_of_connects hregular hconnects
  obtain ⟨s₂, hundone, hvalid₂, hlevels₂⟩ := disconnectBlock_moved
    (T.bip30Exception (.child p header)) hdone (heights hregular) (sound_utxo hreached.accepted.parent)
    (free_of_connects hregular hconnects) hvalid ((congrArg Level.coins hhead).trans hutxo.symm)
  rw [hbase] at hlevels₂
  obtain ⟨s', c, hflush, hcache, hcvalid, hcoins, hhash⟩ := flush_onto hr hvalid₂ hlevels₂
  have hread := readBlockUndo_of_reached hr.recorded hreached
    (Lineage.mem_line_self (x := .child p header))
  unfold disconnectTip
  rw [htip]
  dsimp only [Lineage.parent?]
  rw [readBlock_of_regular hregular]
  dsimp only
  rw [if_neg (not_not_intro hhashTip)]
  unfold disconnectEntry
  rw [hread]
  dsimp only
  rw [hundone]
  dsimp only
  rw [hflush]
  dsimp only
  rw [hcache]
  exact ⟨_, rfl, hr.move hr.recorded (fun _ h => h) (hreached.parent hr.indexed) hcvalid hcoins hhash,
    rfl, rfl⟩

/-! ## 3. Flushing -/

theorem oldTip_of_settled {tip : Option BlockIndex} (h : d.Settled T tip) (hashBlock : Hash) :
    d.db.oldTip hashBlock = .ok (tipHash tip) := by
  unfold CoinsDB.oldTip
  rw [h.heads, ← h.best]
  split
  · rfl
  · rename_i hnull
    rw [not_not.1 hnull]

theorem batches_ok (full : List DbWrite → Bool) {db : CoinsDB} {hashBlock old : Hash}
    (hne : hashBlock ≠ .null) (hold : db.oldTip hashBlock = .ok old) (c : CCoinsViewCache) :
    ∃ bs, db.batches full hashBlock c.cursor = .ok bs := by
  unfold CoinsDB.batches
  rw [if_neg hne, hold]
  exact ⟨_, rfl⟩

theorem flushBatches_none (full : List DbWrite → Bool) (hr : r.Ok T) (htip : r.tip = none) :
    flushBatches full r = .ok [] := by
  unfold flushBatches
  rw [coinsTip_bestBlock hr, htip]
  exact if_pos rfl

/-- The batches of a flush at a tip. -/
theorem flushBatches_some (full : List DbWrite → Bool) (hr : r.Ok T) (htip : r.tip = some x) :
    ∃ bs, flushBatches full r = .ok bs ∧
      r.disk.db.batches full x.hash r.cache.cursor = .ok bs := by
  have hne : x.hash ≠ .null := ((hr.reached x htip).accepted x Lineage.mem_line_self).1.hash
  obtain ⟨tip, hsettled, -⟩ := hr.settled
  obtain ⟨bs, hbs⟩ := batches_ok full hne (oldTip_of_settled hsettled x.hash) r.cache
  refine ⟨bs, ?_, hbs⟩
  have hbest : r.cache.hashBlock = x.hash := by
    rw [hr.best, htip]
    rfl
  unfold flushBatches
  rw [coinsTip_bestBlock hr, htip]
  show (if x.hash = .null then _ else r.disk.db.batches full r.cache.hashBlock _) = _
  rw [if_neg hne, hbest]
  exact hbs

theorem peek_tip (hr : r.Ok T) (htip : r.tip = some x) :
    r.cache.table.peek r.disk.db.coins = T.utxo x := by
  have hutxo := hr.utxo
  rw [htip] at hutxo
  exact hutxo

/-- **What is written when all is written.** -/
theorem written_tip (hr : r.Ok T) (htip : r.tip = some x) {bs : List (List DbWrite)}
    (hbs : r.disk.db.batches full x.hash r.cache.cursor = .ok bs) :
    r.disk.db.writeBatches bs = ⟨T.utxo x, some x.hash, none⟩ := by
  have hpeek : r.coinsTip.cache.table.peek r.disk.db.coins = T.utxo x := peek_tip hr htip
  rw [written_all hr.valid.2 hbs, hpeek]

theorem settled_written (hreached : T.Reached d.index d.undo x)
    (hdb : d.db = ⟨T.utxo x, some x.hash, none⟩) : d.Settled T (some x) := by
  refine ⟨?_, ?_, ?_, ?_⟩
  · rw [hdb]
    rfl
  · rw [hdb]
    rfl
  · rw [hdb]
    rfl
  · intro y hy
    cases hy
    exact hreached

/-- `Flush` and `Sync` of the tip's cache onto the database. -/
theorem write_tip (hr : r.Ok T) (htip : r.tip = some x) (empty : Bool) :
    ∃ c, (if empty then r.coinsTip.flush else r.coinsTip.sync) =
        .ok ⟨c, .db (T.utxo x) x.hash⟩ ∧
      (CoinsStack.view ⟨c, .db (T.utxo x) x.hash⟩).Valid ∧
      CoinsStack.utxo ⟨c, .db (T.utxo x) x.hash⟩ = T.utxo x ∧ c.hashBlock = x.hash := by
  have hlevels := coinsTip_levels hr
  rw [htip] at hlevels
  have hfirst := (List.cons.inj hlevels).1
  have hhash : r.coinsTip.cache.hashBlock = x.hash := congrArg Level.hashBlock hfirst
  have hne : x.hash ≠ .null := ((hr.reached x htip).accepted x Lineage.mem_line_self).1.hash
  have haccepts : r.coinsTip.base.accepts r.coinsTip.cache.hashBlock = true := by
    rw [hhash]
    exact decide_eq_true hne
  have hwrite : ∃ s, (if empty then r.coinsTip.flush else r.coinsTip.sync) = .ok s ∧
      s.view.Valid ∧ s.view.levels = [⟨T.utxo x, x.hash⟩, ⟨T.utxo x, x.hash⟩] := by
    have hlevel : (⟨r.coinsTip.view.peekCoin, r.coinsTip.cache.hashBlock⟩ : Level) =
        ⟨T.utxo x, x.hash⟩ := hfirst
    cases empty with
    | true =>
      obtain ⟨s, hflush, hvalid, hafter⟩ := flush_spec hr.valid haccepts
      rw [hlevel] at hafter
      exact ⟨s, hflush, hvalid, hafter⟩
    | false =>
      obtain ⟨s, hsync, hvalid, hafter⟩ := sync_spec hr.valid haccepts
      rw [hlevel] at hafter
      exact ⟨s, hsync, hvalid, hafter⟩
  obtain ⟨s, hok, hvalid, hafter⟩ := hwrite
  obtain ⟨c, hview⟩ := cache_of_levels hafter
  obtain ⟨c', base⟩ := s
  cases hview
  have hlevel := (List.cons.inj hafter).1
  exact ⟨c', hok, hvalid, congrArg Level.coins hlevel, congrArg Level.hashBlock hlevel⟩

/-- **`FlushStateToDisk`** is never stopped, and brings the database to the tip. -/
theorem flushStateToDisk_spec (full : List DbWrite → Bool) (hr : r.Ok T) (empty : Bool) :
    ∃ r', flushStateToDisk full empty r = .ok r' ∧ r'.Ok T ∧ r'.tip = r.tip ∧
      r'.disk.Settled T r.tip := by
  obtain ⟨tip, hsettled, hnone, -⟩ := hr.settled
  unfold flushStateToDisk
  rw [coinsTip_bestBlock hr]
  dsimp only
  cases htip : r.tip with
  | none =>
    rw [hnone htip] at hsettled
    have hleave : ∀ y, none = some y → T.Reached r.index r.undo y := by
      intro y hy
      cases hy
    have hafter : Disk.Settled T ⟨r.index, r.undo, r.disk.db⟩ none :=
      ⟨hsettled.coins, hsettled.best, hsettled.heads, hleave⟩
    have hutxo := hr.utxo
    have hbest := hr.best
    rw [htip] at hutxo hbest
    exact ⟨_, if_pos rfl, ⟨hr.indexed, hr.recorded, hleave, hr.valid, hutxo, hbest, hr.indexed,
      hr.recorded, none, hafter, fun _ => rfl, hleave⟩, rfl, hafter⟩
  | some x =>
    have hreached := hr.reached x htip
    have hne : tipHash (some x) ≠ .null := (hreached.accepted x Lineage.mem_line_self).1.hash
    obtain ⟨bs, hbatches, hbs⟩ := flushBatches_some full hr htip
    obtain ⟨c, hwrite, hvalid, hutxo, hbest⟩ := write_tip hr htip empty
    have hdb := written_tip hr htip hbs
    rw [if_neg hne, hbatches, hwrite]
    dsimp only
    rw [hdb]
    have hafter : Disk.Settled T ⟨r.index, r.undo, ⟨T.utxo x, some x.hash, none⟩⟩ (some x) :=
      settled_written hreached rfl
    have hleave : ∀ y, some x = some y → T.Reached r.index r.undo y := by
      intro y hy
      cases hy
      exact hreached
    exact ⟨_, rfl, ⟨hr.indexed, hr.recorded, hleave, hvalid, hutxo, hbest, hr.indexed, hr.recorded,
      some x, hafter, fun hnone => (by cases hnone), hleave⟩, rfl, hafter⟩

/-- **A disk on the way from one tip to another**: at the first, at the second, or between. -/
def Disk.Halfway (T : BlockTree) (d : Disk) (old new : Option BlockIndex) : Prop :=
  d.Settled T old ∨ d.Settled T new ∨ ∃ x, new = some x ∧ d.Torn T old x

theorem Disk.Ok.of_halfway {old new : Option BlockIndex} (hindexed : T.Indexed d.index)
    (hrecorded : T.Recorded d.undo) (h : d.Halfway T old new) : d.Ok T := by
  refine ⟨hindexed, hrecorded, ?_⟩
  rcases h with hold | hnew | ⟨x, -, htorn⟩
  · exact Or.inl ⟨old, hold⟩
  · exact Or.inl ⟨new, hnew⟩
  · exact Or.inr ⟨old, x, htorn⟩

theorem Disk.Ok.halfway (h : d.Ok T) : ∃ old new, d.Halfway T old new := by
  rcases h.db with ⟨tip, hsettled⟩ | ⟨old, new, htorn⟩
  · exact ⟨tip, tip, Or.inl hsettled⟩
  · exact ⟨old, some new, Or.inr (Or.inr ⟨new, rfl, htorn⟩)⟩

/-- **A flush that is cut off** leaves the database on the way. -/
theorem halfway_written {old : Option BlockIndex} {c : CCoinsViewCache} {bs : List (List DbWrite)}
    {before : CoinsDB} (hok : c.Ok before.coins)
    (hbs : before.batches full x.hash c.cursor = .ok bs) (n : Nat)
    (hdb : d.db = before.writeBatches (bs.take n))
    (hsame : d.db = before → d.Halfway T old (some x))
    (hold : before.oldTip x.hash = .ok (tipHash old))
    (hcoins : Between (T.coinsAt old) (T.utxo x) before.coins)
    (hpeek : c.table.peek before.coins = T.utxo x)
    (hreachedOld : ∀ y, old = some y → T.Reached d.index d.undo y)
    (hreached : T.Reached d.index d.undo x) : d.Halfway T old (some x) := by
  rcases written_cases hok hbs n with hcase | ⟨hash, coins, hhash, hbetween, hcase⟩ | hcase
  · exact hsame (hdb.trans hcase)
  · rw [hold] at hhash
    cases hhash
    rw [hpeek] at hbetween
    refine Or.inr (Or.inr ⟨x, rfl, ?_, ?_, ?_, hreachedOld, hreached⟩)
    · rw [hdb, hcase]
      exact hcoins.trans hbetween
    · rw [hdb, hcase]
      rfl
    · rw [hdb, hcase]
      rfl
  · rw [hpeek] at hcase
    exact Or.inr (Or.inl (settled_written hreached (hdb.trans hcase)))

/-- **A crash** at any point leaves the disk at the tip of the last flush, at the tip, or between.
    -/
theorem crash_spec (full : List DbWrite → Bool) (hr : r.Ok T) {tip : Option BlockIndex}
    (hsettled : r.disk.Settled T tip) (hnone : r.tip = none → tip = none)
    (hleave : ∀ x, tip = some x → T.Reached r.index r.undo x)
    (at? : Option Nat) :
    T.Indexed (crash full at? r).index ∧ T.Recorded (crash full at? r).undo ∧
      (crash full at? r).Halfway T tip r.tip := by
  unfold crash
  cases at? with
  | none => exact ⟨hr.diskIndexed, hr.diskRecorded, Or.inl hsettled⟩
  | some n =>
    cases htip : r.tip with
    | none =>
      have hlast := hnone htip
      subst hlast
      rw [flushBatches_none full hr htip]
      dsimp only
      rw [List.take_nil]
      exact ⟨hr.indexed, hr.recorded,
        Or.inl ⟨hsettled.coins, hsettled.best, hsettled.heads, hleave⟩⟩
    | some x =>
      obtain ⟨bs, hbatches, hbs⟩ := flushBatches_some full hr htip
      rw [hbatches]
      refine ⟨hr.indexed, hr.recorded, halfway_written hr.valid.2 hbs n rfl ?_
        (oldTip_of_settled hsettled x.hash) ?_ (peek_tip hr htip) hleave (hr.reached x htip)⟩
      · intro hdb
        dsimp only at hdb ⊢
        rw [hdb]
        exact Or.inl ⟨hsettled.coins, hsettled.best, hsettled.heads, hleave⟩
      · rw [hsettled.coins]
        exact between_left

/-! ## 4. Starting -/

/-- A view with the coins `u`, over the levels `base`. -/
structure Over (base : List Level) (u : Utxo) (s : CoinsStack) : Prop where
  valid : s.view.Valid
  base : s.base.levels = base
  coins : s.utxo = u

section Replay

variable {index : List BlockIndex} {undo : UndoFiles} {base : List Level} {u : Utxo}
  {s : CoinsStack} {fork : BlockIndex}

theorem Over.of_levels {l : Level} (hvalid : s.view.Valid) (h : s.view.levels = l :: base) :
    Over base l.coins s :=
  ⟨hvalid, (List.cons.inj h).2, congrArg Level.coins (List.cons.inj h).1⟩

/-- **A round of the rollback**: the writes that take the block back, on any coins. -/
theorem rollBackBlock_spec (hrecorded : T.Recorded undo)
    (hreached : T.Reached index undo (.child p header)) (hs : Over base u s) :
    ∃ s', rollBackBlock T undo (.child p header) s = .ok s' ∧
      Over base (writes (blockUnwrites (T.context (.child p header)) (T.block (.child p header))
        (T.undo (.child p header))) u) s' := by
  have hregular := (hreached.accepted _ Lineage.mem_line_self).1
  obtain ⟨coinbase, vtx, hvtx, hfits⟩ := undoFits hreached.accepted
  obtain ⟨res, s', hdone, hres, hvalid, hlevels⟩ :=
    disconnectBlock_writes (B := T.context (.child p header)) (T.bip30Exception (.child p header))
      hs.valid hvtx hfits
  rw [hs.base, hs.coins] at hlevels
  have hread := readBlockUndo_of_reached hrecorded hreached
    (Lineage.mem_line_self (x := .child p header))
  refine ⟨s', ?_, .of_levels hvalid hlevels⟩
  unfold rollBackBlock
  rw [readBlock_of_regular hregular]
  dsimp only
  unfold disconnectEntry
  rw [hread]
  dsimp only
  rw [hdone]
  cases res with
  | ok => rfl
  | unclean => rfl
  | failed => exact absurd rfl hres

/-- **The rollback loop.** -/
theorem rollBack_spec (hindexed : T.Indexed index) (hrecorded : T.Recorded undo)
    (hreached : T.Reached index undo x) (hfork : fork ∈ x.line) (hs : Over base u s) :
    ∃ s', rollBack T undo fork x s = .ok s' ∧ Over base (writes (T.rollBackWrites fork x) u) s' := by
  induction x generalizing s u with
  | root header =>
    have hroot := List.mem_singleton.1 hfork
    exact ⟨s, if_pos hroot.symm, hs⟩
  | child p header ih =>
    unfold rollBack BlockTree.rollBackWrites
    split
    · exact ⟨s, rfl, hs⟩
    · rename_i hne
      have hbelow : fork ∈ p.line := by
        rcases List.mem_cons.1 hfork with heq | hfork
        · exact absurd heq.symm hne
        · exact hfork
      obtain ⟨s₁, hblock, hs₁⟩ := rollBackBlock_spec hrecorded hreached hs
      obtain ⟨s₂, hrest, hs₂⟩ := ih (hreached.parent hindexed) hbelow hs₁
      rw [← writes_append] at hs₂
      refine ⟨s₂, ?_, hs₂⟩
      rw [hblock]
      exact hrest

/-- **The loop that rolls forward.** -/
theorem rollForward_spec {path : List BlockIndex}
    (hpath : ∀ y ∈ path, T.Accepted y ∧ 0 < y.depth) (hs : Over base u s) :
    ∃ s', rollForward T path s = .ok s' ∧
      Over base (writes (T.rollForwardWrites path) u) s' := by
  induction path generalizing s u with
  | nil => exact ⟨s, rfl, hs⟩
  | cons y path ih =>
    obtain ⟨⟨haccepted, hdepth⟩, hpath⟩ := List.forall_mem_cons.1 hpath
    obtain ⟨hregular, hconnects⟩ := haccepted _ Lineage.mem_line_self
    have hchecked : ∀ tx ∈ (T.block y).vtx, tx.Checked := by
      cases y with
      | root header => exact absurd hdepth (Nat.lt_irrefl 0)
      | child p header =>
        obtain ⟨s', hdone, -⟩ := connected_of_connects hregular hconnects
        exact hdone.checked.each
    obtain ⟨s₁, hblock, hmoved⟩ :=
      rollforwardBlock_writes (B := T.context y) hs.valid hchecked
    have hs₁ : Over base (writes (blockWrites (T.context y) (T.block y).vtx) u) s₁ := by
      have hlevels := hmoved.levels
      rw [hs.base, hs.coins] at hlevels
      exact .of_levels hmoved.valid hlevels
    obtain ⟨s₂, hrest, hs₂⟩ := ih hpath hs₁
    rw [← writes_append] at hs₂
    refine ⟨s₂, ?_, hs₂⟩
    unfold rollForward rollForwardBlock
    rw [readBlock_of_regular hregular]
    dsimp only
    rw [hblock]
    exact hrest

theorem accepted_above (haccepted : T.Accepted x) (n : Nat) :
    ∀ y ∈ x.above n, T.Accepted y ∧ 0 < y.depth := by
  intro y hy
  obtain ⟨hline, hdepth⟩ := Lineage.mem_above hy
  exact ⟨haccepted.of_mem hline, Nat.zero_lt_of_lt hdepth⟩

theorem Disk.Settled.replay {tip : Option BlockIndex} (h : d.Settled T tip) :
    replayBlocks T index d = .ok none := by
  unfold replayBlocks
  rw [h.heads]

/-- **`ReplayBlocks`** of a flush that was cut off: it finds the two blocks, and ends with the coins
    of the new one, whatever part of the coins had been written. -/
theorem Disk.Torn.replay {old : Option BlockIndex} {new : BlockIndex} (h : d.Torn T old new)
    (hindexed : T.Indexed index) (hsub : ∀ y ∈ d.index, y ∈ index) (hrecorded : T.Recorded d.undo) :
    ∃ s, replayBlocks T index d = .ok (some s) ∧ s.cache.Ok d.db.coins ∧
      s.cache.hashBlock = new.hash ∧ s.cache.table.peek d.db.coins = T.utxo new := by
  have hnew := h.reached.mono hsub fun _ hy => hy
  have hstart : Over [⟨d.db.coins, d.db.getBestBlock⟩] d.db.coins ⟨.create false, d.db.view⟩ :=
    ⟨⟨trivial, coherent_empty, rfl⟩, rfl, rfl⟩
  have hfinish : ∀ s : CoinsStack, Over [⟨d.db.coins, d.db.getBestBlock⟩] (T.utxo new) s →
      (s.setBestBlock new.hash).cache.Ok d.db.coins ∧
        (s.setBestBlock new.hash).cache.hashBlock = new.hash ∧
        (s.setBestBlock new.hash).cache.table.peek d.db.coins = T.utxo new := by
    intro s hs
    have hbase : s.base.peekCoin = d.db.coins := by
      have hlevels := hs.base
      rw [levels_eq] at hlevels
      exact congrArg Level.coins (List.cons.inj hlevels).1
    have hvalid := hs.valid.2
    have hcoins : s.cache.table.peek s.base.peekCoin = T.utxo new := hs.coins
    rw [hbase] at hvalid hcoins
    exact ⟨⟨hvalid.coherent, hvalid.count⟩, rfl, hcoins⟩
  unfold replayBlocks
  rw [h.heads]
  dsimp only
  rw [lookup_of_mem hindexed hnew.mem]
  dsimp only
  cases old with
  | none =>
    obtain ⟨s, hforward, hs⟩ := rollForward_spec (accepted_above hnew.accepted 0) hstart
    rw [writes_of_between writes_first h.coins] at hs
    refine ⟨s.setBestBlock new.hash, ?_, hfinish s hs⟩
    have hnull : tipHash none = .null := rfl
    rw [if_pos hnull, hforward]
    rfl
  | some o =>
    have hold := (h.reachedOld o rfl).mono hsub fun _ hy => hy
    have hne : tipHash (some o) ≠ .null := (hold.accepted o Lineage.mem_line_self).1.hash
    have hmeet : Lineage.Meet o new (o.fork new) := Lineage.meet_fork
      ((hindexed.origin o hold.mem).trans (hindexed.origin new hnew.mem).symm)
    obtain ⟨s₁, hback, hs₁⟩ := rollBack_spec hindexed hrecorded hold hmeet.left hstart
    obtain ⟨s₂, hforward, hs₂⟩ :=
      rollForward_spec (accepted_above hnew.accepted (o.fork new).depth) hs₁
    rw [← writes_append, writes_of_between (writes_replay hold.accepted hmeet) h.coins] at hs₂
    refine ⟨s₂.setBestBlock new.hash, ?_, hfinish s₂ hs₂⟩
    have hlookup : lookupBlockIndex index (tipHash (some o)) = some o :=
      lookup_of_mem hindexed hold.mem
    rw [if_neg hne, hlookup]
    dsimp only
    rw [hback]
    show (do
      let cache ← rollForward T (new.above (o.fork new).depth) s₁
      pure (some (cache.setBestBlock new.hash))) = _
    rw [hforward]
    rfl

/-- **`LoadChainTip`** finds the best block of the database. -/
theorem loadChainTip_spec {tip : Option BlockIndex} (h : d.Settled T tip)
    (hdisk : T.Indexed d.index) (hindexed : T.Indexed index) (hsub : ∀ y ∈ d.index, y ∈ index)
    (hrecorded : T.Recorded d.undo) :
    ∃ r, loadChainTip index d = .ok r ∧ r.Ok T ∧ r.tip = tip ∧ r.disk = d := by
  have hleave : ∀ x, tip = some x → T.Reached index d.undo x :=
    fun x hx => (h.reached x hx).mono hsub fun _ hy => hy
  have hbest : CoinsStack.bestBlock ⟨.create false, d.db.view⟩ =
      (d.db.getBestBlock, ⟨{ CCoinsViewCache.create false with hashBlock := d.db.getBestBlock },
        d.db.view⟩) := rfl
  rw [h.best] at hbest
  have hok : Running.Ok T ⟨index, d.undo,
      { CCoinsViewCache.create false with hashBlock := tipHash tip }, tip, d⟩ :=
    ⟨hindexed, hrecorded, hleave, ⟨trivial, coherent_empty, rfl⟩, h.coins, rfl, hdisk, hrecorded,
      tip, h, id, hleave⟩
  unfold loadChainTip
  dsimp only
  rw [hbest]
  cases tip with
  | none => exact ⟨_, if_pos rfl, hok, rfl, rfl⟩
  | some x =>
    have hne : tipHash (some x) ≠ .null :=
      ((h.reached x rfl).accepted x Lineage.mem_line_self).1.hash
    have hlookup : lookupBlockIndex index (tipHash (some x)) = some x :=
      lookup_of_mem hindexed (hleave x rfl).mem
    rw [if_neg hne, hlookup]
    exact ⟨_, rfl, hok, rfl, rfl⟩

end Replay

/-- `LoadGenesisBlock` adds genesis where it is not there. -/
theorem loadGenesisBlock_spec {index : List BlockIndex} (h : T.Indexed index)
    (hgenesis : T.GenesisOk) :
    T.Indexed (loadGenesisBlock T index) ∧ ∀ y ∈ index, y ∈ loadGenesisBlock T index := by
  unfold loadGenesisBlock
  split
  · exact ⟨h, fun _ hy => hy⟩
  · rename_i hnew
    rw [Bool.not_eq_true, Option.isSome_eq_false_iff, Option.isNone_iff_eq_none] at hnew
    refine ⟨h.snoc hgenesis.regular hnew rfl fun p header heq => ?_,
      fun _ hy => List.mem_append_left _ hy⟩
    cases heq

/-- **`CompleteChainstateInitialization`**, on a disk that is on the way from one tip to another: it
    starts at one of them, or it is interrupted and the disk is still on the way. -/
theorem loadChainstate_spec (full : List DbWrite → Bool) (hgenesis : T.GenesisOk)
    (hindexed : T.Indexed d.index) (hrecorded : T.Recorded d.undo) {old new : Option BlockIndex}
    (h : d.Halfway T old new) :
    (∃ r, d.loadChainstate T full none = .ok (.inl r) ∧ r.Ok T ∧ (r.tip = old ∨ r.tip = new) ∧
      r.disk.Settled T r.tip) ∧
    ∀ n, ∃ d', d.loadChainstate T full (some n) = .ok (.inr d') ∧ T.Indexed d'.index ∧
      T.Recorded d'.undo ∧ d'.Halfway T old new := by
  obtain ⟨hindex, hsub⟩ := loadGenesisBlock_spec hindexed hgenesis
  have hsettled : ∀ tip, d.Settled T tip → (tip = old ∨ tip = new) →
      (∃ r, d.loadChainstate T full none = .ok (.inl r) ∧ r.Ok T ∧ (r.tip = old ∨ r.tip = new) ∧
        r.disk.Settled T r.tip) ∧
      ∀ n, ∃ d', d.loadChainstate T full (some n) = .ok (.inr d') ∧ T.Indexed d'.index ∧
        T.Recorded d'.undo ∧ d'.Halfway T old new := by
    intro tip htip hwhich
    obtain ⟨r, hload, hr, hrtip, hrdisk⟩ := loadChainTip_spec htip hindexed hindex hsub hrecorded
    unfold Disk.loadChainstate
    dsimp only
    rw [htip.replay]
    refine ⟨⟨r, ?_, hr, ?_, ?_⟩, fun n => ⟨d, rfl, hindexed, hrecorded, h⟩⟩
    · show (do return Sum.inl (← loadChainTip (loadGenesisBlock T d.index) d)) = _
      rw [hload]
      rfl
    · rw [hrtip]
      exact hwhich
    · rw [hrdisk, hrtip]
      exact htip
  rcases h with hold | hnew | ⟨x, rfl, htorn⟩
  · exact hsettled old hold (Or.inl rfl)
  · exact hsettled new hnew (Or.inr rfl)
  · obtain ⟨s, hreplay, hok, hhash, hpeek⟩ := htorn.replay hindex hsub hrecorded
    have hne : x.hash ≠ .null := (htorn.reached.accepted x Lineage.mem_line_self).1.hash
    have holdTip : d.db.oldTip x.hash = .ok (tipHash old) := by
      unfold CoinsDB.oldTip
      rw [htorn.best, htorn.heads, if_neg (not_not_intro rfl)]
      exact if_pos rfl
    obtain ⟨bs, hbs⟩ := batches_ok full hne holdTip s.cache
    have hall := written_all hok hbs
    rw [hpeek] at hall
    unfold Disk.loadChainstate
    dsimp only
    rw [hreplay]
    dsimp only [bind, Except.bind]
    rw [hhash, hbs]
    constructor
    · have hafter : Disk.Settled T { d with db := d.db.writeBatches bs } (some x) :=
        settled_written htorn.reached hall
      obtain ⟨r, hload, hr, hrtip, hrdisk⟩ := loadChainTip_spec hafter hindexed hindex hsub hrecorded
      refine ⟨r, ?_, hr, Or.inr hrtip, ?_⟩
      · dsimp only
        rw [hload]
        rfl
      · rw [hrdisk, hrtip]
        exact hafter
    · intro n
      refine ⟨{ d with db := d.db.writeBatches (bs.take n) }, rfl, hindexed, hrecorded, ?_⟩
      refine halfway_written hok hbs n rfl ?_ holdTip htorn.coins hpeek htorn.reachedOld htorn.reached
      intro hdb
      dsimp only at hdb
      rw [hdb]
      exact Or.inr (Or.inr ⟨x, rfl, htorn⟩)

/-! ## 5. Every run -/

/-- **What is asked of the events**: the blocks that are accepted are as they have to be, and
    scripts that are checked every time are checked. -/
def AcceptsRegular (T : BlockTree) (_ : ChainSystem) : ChainEvent → Prop
  | .accept x => T.Regular x
  | .connect x fScriptChecks => (T.rules x).scriptChecks = true → fScriptChecks = true
  | _ => True

section Runs

variable {s s' : ChainSystem} {a : ChainEvent} {ls : List ChainEvent}

theorem empty_ok : Disk.Ok T .empty := by
  refine ⟨⟨?_, ?_, ?_, ?_⟩, fun _ => Or.inl rfl, Or.inl ⟨none, rfl, rfl, rfl, fun x hx => ?_⟩⟩
  · exact fun x hx => absurd hx List.not_mem_nil
  · exact fun x hx => absurd hx List.not_mem_nil
  · exact fun p header hx => absurd hx List.not_mem_nil
  · exact fun x hx => absurd hx List.not_mem_nil
  · cases hx

theorem mem_of_lookup {index : List BlockIndex} {hash : Hash}
    (h : lookupBlockIndex index hash = some x) : x ∈ index :=
  List.mem_of_find?_eq_some h

/-- `AddToBlockIndex` changes the index only. -/
theorem acceptEntry_spec (hr : r.Ok T) (hregular : T.Regular x) {r' : Running}
    (h : acceptEntry x r = some r') : r'.Ok T ∧ r'.disk = r.disk ∧ r'.tip = r.tip := by
  unfold acceptEntry at h
  cases x with
  | root header => cases h
  | child p header =>
    dsimp only [Lineage.parent?] at h
    split at h
    · rename_i hnew
      cases h
      have hp := mem_of_lookup hnew.2
      have hindexed : T.Indexed (r.index ++ [.child p header]) := by
        refine hr.indexed.snoc hregular hnew.1 (hr.indexed.origin p hp) fun q header' heq => ?_
        cases heq
        exact hp
      have hmono : ∀ y, T.Reached r.index r.undo y →
          T.Reached (r.index ++ [.child p header]) r.undo y :=
        fun y hy => hy.mono (fun _ h => List.mem_append_left _ h) fun _ h => h
      obtain ⟨tip, hsettled, hnone, hleave⟩ := hr.settled
      exact ⟨⟨hindexed, hr.recorded, fun y hy => hmono y (hr.reached y hy), hr.valid, hr.utxo,
        hr.best, hr.diskIndexed, hr.diskRecorded, tip, hsettled, hnone,
        fun y hy => hmono y (hleave y hy)⟩, rfl, rfl⟩
    · cases h

/-- A step that moves the tip. -/
inductive ChainEvent.Moves : ChainEvent → Prop
  | accept (x : BlockIndex) : Moves (.accept x)
  | connect (x : BlockIndex) (fScriptChecks : Bool) : Moves (.connect x fScriptChecks)
  | disconnect : Moves .disconnect

/-- **A step that moves the tip** leaves the program up, and the disk as it is. -/
theorem step_moves (hgenesis : T.GenesisOk) (hr : r.Ok T) (ha : a.Moves)
    (hok : AcceptsRegular T (.up r) a) (hstep : ChainSystem.step T full (.up r) a = some s') :
    ∃ r', s' = .up r' ∧ r'.Ok T ∧ r'.disk = r.disk := by
  cases ha with
  | accept x =>
    obtain ⟨r', haccept, rfl⟩ := Option.map_eq_some_iff.1 hstep
    obtain ⟨hr', hdisk, -⟩ := acceptEntry_spec hr hok haccept
    exact ⟨r', rfl, hr', hdisk⟩
  | connect x fScriptChecks =>
    unfold ChainSystem.step at hstep
    dsimp only at hstep
    split at hstep
    · rename_i hx
      obtain ⟨r', hconnect, hr', hdisk, -⟩ :=
        connectTip_spec hr hgenesis (mem_of_lookup hx.1) hx.2 hok
      rw [hconnect] at hstep
      cases hstep
      exact ⟨r', rfl, hr', hdisk⟩
    · cases hstep
  | disconnect =>
    unfold ChainSystem.step at hstep
    dsimp only at hstep
    cases htip : r.tip with
    | none =>
      rw [htip] at hstep
      cases hstep
    | some x =>
      rw [htip] at hstep
      cases x with
      | root header => cases hstep
      | child p header =>
        obtain ⟨r', hdisconnect, hr', hdisk, -⟩ := disconnectTip_spec hr htip
        have hparent : ((some (Lineage.child p header)).bind Lineage.parent?).isSome = true := rfl
        rw [if_pos hparent, hdisconnect] at hstep
        cases hstep
        exact ⟨r', rfl, hr', hdisk⟩

/-- **Every step keeps the invariant.** -/
theorem step_ok (hgenesis : T.GenesisOk)
    (h : s.Ok T) (hok : AcceptsRegular T s a) (hstep : s.step T full a = some s') : s'.Ok T := by
  cases s with
  | failed e => exact h.elim
  | down d =>
    have hd : d.Ok T := h
    cases a with
    | start at? =>
      obtain ⟨old, new, hhalfway⟩ := hd.halfway
      obtain ⟨⟨r, hload, hr, -⟩, hcut⟩ :=
        loadChainstate_spec full hgenesis hd.indexed hd.recorded hhalfway
      unfold ChainSystem.step at hstep
      dsimp only at hstep
      cases at? with
      | none =>
        rw [hload] at hstep
        cases hstep
        exact hr
      | some n =>
        obtain ⟨d', hload', hindexed, hrecorded, hafter⟩ := hcut n
        rw [hload'] at hstep
        cases hstep
        exact .of_halfway hindexed hrecorded hafter
    | accept x => cases hstep
    | connect x fScriptChecks => cases hstep
    | disconnect => cases hstep
    | flush empty => cases hstep
    | crash at? => cases hstep
  | up r =>
    have hr : r.Ok T := h
    have hmoves : a.Moves → s'.Ok T := by
      intro ha
      obtain ⟨r', rfl, hr', -⟩ := step_moves hgenesis hr ha hok hstep
      exact hr'
    cases a with
    | accept x => exact hmoves (.accept x)
    | connect x fScriptChecks => exact hmoves (.connect x fScriptChecks)
    | disconnect => exact hmoves .disconnect
    | flush empty =>
      obtain ⟨r', hflush, hr', -⟩ := flushStateToDisk_spec full hr empty
      unfold ChainSystem.step at hstep
      dsimp only at hstep
      rw [hflush] at hstep
      cases hstep
      exact hr'
    | crash at? =>
      obtain ⟨tip, hsettled, hnone, hleave⟩ := hr.settled
      obtain ⟨hindexed, hrecorded, hafter⟩ :=
        crash_spec full hr hsettled hnone hleave at?
      cases hstep
      exact .of_halfway hindexed hrecorded hafter
    | start at? => cases hstep

/-- **The invariant holds in every run.** -/
theorem chainstate_ok (hgenesis : T.GenesisOk)
    (hrun : (chainstate T full).Run (AcceptsRegular T) ls s) : s.Ok T :=
  hrun.invariant (I := ChainSystem.Ok T) empty_ok fun _ _ _ h hok hstep =>
    step_ok hgenesis h hok hstep

/-- A disk is at one tip. -/
theorem Disk.Settled.unique {tip tip' : Option BlockIndex} (hindexed : T.Indexed d.index)
    (h : d.Settled T tip) (h' : d.Settled T tip') : tip = tip' := by
  have hhash : tipHash tip = tipHash tip' := h.best.symm.trans h'.best
  cases tip with
  | none => exact (tipHash_eq_null h'.reached hhash.symm).symm
  | some x =>
    cases tip' with
    | none => exact tipHash_eq_null h.reached hhash
    | some y =>
      exact congrArg some (hindexed.unique x (h.reached x rfl).mem y (h'.reached y rfl).mem hhash)

end Runs

/-! ## 6. A small tree -/

/-- A block with a coinbase only, which has the height and the time of its entry; the nonce is the
    time too. -/
def coinbaseBlock (x : BlockIndex) : CBlock where
  header := ⟨1, prevHash x, .null, 0, 0, UInt32.ofNat x.label.timestamp⟩
  vtx := [⟨1, [⟨⟨.null, 0xFFFFFFFF⟩, [UInt8.ofNat x.depth, UInt8.ofNat x.label.timestamp], 0, []⟩],
    [⟨5000000000, [0x51]⟩], 0⟩]

/-- Such blocks, with a hash that is the sum of the bytes. -/
def coinbaseTree : BlockTree where
  genesis := ⟨Hash.repeating 1, .null, 0, 0⟩
  block := coinbaseBlock
  sha256d := fun d => Hash.repeating (d.foldl (· + ·) 0)
  rules := fun _ => { payContext with scriptChecks := false }
  bip30Exception := fun _ => false
  pubKeys := noKeys
  abi := .lp64
  messageStart := [0x0b, 0x11, 0x09, 0x07]
  messageStart_length := rfl
  nFile := fun _ => 0

/-- Genesis, a block on it, and a branch of two others. -/
def entryGenesis : BlockIndex := .root coinbaseTree.genesis

def entryA : BlockIndex := .child entryGenesis ⟨Hash.repeating 33, Hash.repeating 1, 0, 0⟩

def entryB : BlockIndex := .child entryGenesis ⟨Hash.repeating 34, Hash.repeating 1, 1, 0⟩

def entryC : BlockIndex := .child entryB ⟨Hash.repeating 67, Hash.repeating 34, 2, 0⟩

theorem regular_entries : coinbaseTree.Regular entryGenesis ∧ coinbaseTree.Regular entryA ∧
    coinbaseTree.Regular entryB ∧ coinbaseTree.Regular entryC := by
  have hcollision : NoCollision (coinbaseTree.context entryGenesis) (coinbaseBlock entryGenesis).vtx ∧
      NoCollision (coinbaseTree.context entryA) (coinbaseBlock entryA).vtx ∧
      NoCollision (coinbaseTree.context entryB) (coinbaseBlock entryB).vtx ∧
      NoCollision (coinbaseTree.context entryC) (coinbaseBlock entryC).vtx := by
    unfold NoCollision
    decide +kernel
  obtain ⟨h₀, h₁, h₂, h₃⟩ := hcollision
  exact
    ⟨⟨by decide +kernel, by decide +kernel, by decide +kernel, h₀, fun hoff => by cases hoff⟩,
      ⟨by decide +kernel, by decide +kernel, by decide +kernel, h₁, fun hoff => by cases hoff⟩,
      ⟨by decide +kernel, by decide +kernel, by decide +kernel, h₂, fun hoff => by cases hoff⟩,
      ⟨by decide +kernel, by decide +kernel, by decide +kernel, h₃, fun hoff => by cases hoff⟩⟩

theorem coinbaseTree_genesisOk : coinbaseTree.GenesisOk := ⟨regular_entries.1, by decide +kernel⟩

/-- A batch is full after two writes. -/
def twoWrites (batch : List DbWrite) : Bool := decide (2 ≤ batch.length)

/-- The events on these entries; all of them, or those that move the tip. -/
def onEntries (all : Bool) : ChainEvent → Bool
  | .accept x => x == entryA || x == entryB || x == entryC
  | .connect _ _ => true
  | .disconnect => true
  | _ => all

/-- The program, where it is up. -/
def ChainSystem.running? : ChainSystem → Option Running
  | .up r => some r
  | _ => none

theorem eq_up_of_running {s : ChainSystem} (h : s.running? = some r) : s = .up r := by
  cases s with
  | up r' =>
    cases h
    rfl
  | down d => cases h
  | failed e => cases h

theorem acceptsRegular_of_onEntries {all : Bool} {s : ChainSystem} {a : ChainEvent}
    (h : onEntries all a = true) : AcceptsRegular coinbaseTree s a := by
  obtain ⟨-, hA, hB, hC⟩ := regular_entries
  cases a with
  | accept x =>
    have hx : x = entryA ∨ x = entryB ∨ x = entryC := by
      simpa only [onEntries, Bool.or_eq_true, beq_iff_eq, or_assoc] using h
    rcases hx with rfl | rfl | rfl
    · exact hA
    · exact hB
    · exact hC
  | connect x fScriptChecks => exact fun h => nomatch h
  | disconnect => trivial
  | flush empty => trivial
  | crash at? => trivial
  | start at? => trivial

/-- What these events lead to, where the program is up. -/
def coinbaseRun (ls : List ChainEvent) : Option Running :=
  ((chainstate coinbaseTree twoWrites).exec (fun _ a => onEntries true a = true) ls).bind
    ChainSystem.running?

theorem run_of_coinbaseRun {ls : List ChainEvent} (h : coinbaseRun ls = some r) :
    (chainstate coinbaseTree twoWrites).Run (AcceptsRegular coinbaseTree) ls (.up r) := by
  obtain ⟨s, hexec, hs⟩ := Option.bind_eq_some_iff.1 h
  rw [eq_up_of_running hs] at hexec
  exact (Machine.exec_run hexec).mono fun _ _ => acceptsRegular_of_onEntries

section Runs

variable {s s' : ChainSystem} {a : ChainEvent} {ls : List ChainEvent}

/-- **The verdict on a block does not depend on how the tip was reached.** After any two runs with
    regular blocks that end at its parent, `ConnectTip`, with the scripts checked both times or not,
    gives one verdict, and leaves one set of coins. -/
theorem connectTip_verdict {r₁ r₂ : Running} {ls₁ ls₂ : List ChainEvent}
    (hgenesis : T.GenesisOk)
    (hrun₁ : (chainstate T full).Run (AcceptsRegular T) ls₁ (.up r₁))
    (hrun₂ : (chainstate T full).Run (AcceptsRegular T) ls₂ (.up r₂))
    (hmem₁ : x ∈ r₁.index) (hmem₂ : x ∈ r₂.index)
    (hparent₁ : x.parent? = r₁.tip) (hparent₂ : x.parent? = r₂.tip) (fScriptChecks : Bool)
    (hmore : (T.rules x).scriptChecks = true → fScriptChecks = true) :
    ∃ verdict r₁' r₂', connectTip T x fScriptChecks r₁ = .ok (verdict, r₁') ∧
      connectTip T x fScriptChecks r₂ = .ok (verdict, r₂') ∧ r₁'.tip = r₂'.tip ∧
      r₁'.coinsTip.utxo = r₂'.coinsTip.utxo := by
  have hr₁ : r₁.Ok T := chainstate_ok hgenesis hrun₁
  have hr₂ : r₂.Ok T := chainstate_ok hgenesis hrun₂
  obtain ⟨r₁', hconnect₁, hr₁', -, htip₁⟩ := connectTip_spec hr₁ hgenesis hmem₁ hparent₁ hmore
  obtain ⟨r₂', hconnect₂, hr₂', -, htip₂⟩ := connectTip_spec hr₂ hgenesis hmem₂ hparent₂ hmore
  have htip : r₁'.tip = r₂'.tip := by
    rw [htip₁, htip₂, ← hparent₁, ← hparent₂]
  refine ⟨T.verdict x fScriptChecks, r₁', r₂', hconnect₁, hconnect₂, htip, ?_⟩
  rw [hr₁'.utxo, hr₂'.utxo, htip]

theorem connectTip_verdict_reorg : ∃ r₁ r₂ verdict r₁' r₂',
    coinbaseRun [.start none, .connect entryGenesis true, .accept entryB] = some r₁ ∧
    coinbaseRun [.start none, .connect entryGenesis true, .accept entryA, .connect entryA false,
      .flush true, .disconnect, .accept entryB] = some r₂ ∧
    connectTip coinbaseTree entryB true r₁ = .ok (verdict, r₁') ∧
    connectTip coinbaseTree entryB true r₂ = .ok (verdict, r₂') ∧
    r₁'.coinsTip.utxo = r₂'.coinsTip.utxo := by
  have hboth : ∀ ls, (coinbaseRun ls).map (fun r => (decide (entryB ∈ r.index), r.tip)) =
      some (true, some entryGenesis) →
      ∃ r, coinbaseRun ls = some r ∧ entryB ∈ r.index ∧ r.tip = some entryGenesis := by
    intro ls h
    obtain ⟨r, hrun, hr⟩ := Option.map_eq_some_iff.1 h
    exact ⟨r, hrun, of_decide_eq_true (congrArg Prod.fst hr), congrArg Prod.snd hr⟩
  obtain ⟨r₁, hrun₁, hmem₁, htip₁⟩ := hboth
    [.start none, .connect entryGenesis true, .accept entryB] (by decide +kernel)
  obtain ⟨r₂, hrun₂, hmem₂, htip₂⟩ := hboth [.start none, .connect entryGenesis true,
    .accept entryA, .connect entryA false, .flush true, .disconnect, .accept entryB]
    (by decide +kernel)
  obtain ⟨verdict, r₁', r₂', hconnect₁, hconnect₂, -, hutxo⟩ := connectTip_verdict
    coinbaseTree_genesisOk (run_of_coinbaseRun hrun₁) (run_of_coinbaseRun hrun₂) hmem₁ hmem₂
    htip₁.symm htip₂.symm true fun _ => rfl
  exact ⟨r₁, r₂, verdict, r₁', r₂', hrun₁, hrun₂, hconnect₁, hconnect₂, hutxo⟩

end Runs

end SwiftBitcoinKernel
