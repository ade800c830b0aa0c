/-
  File:      SwiftBitcoinKernel/Kernel/Coins.lean
  Subject:   The coins: `CCoinsViewCache` over `CCoinsViewCache` over the database.

  The set of unspent outputs is kept in a database, a cache over it for the chain's tip, and one
  more cache over that while a block is connected or disconnected. A cache flags what it changes,
  and two of its flags are there to save work: FRESH, so that a coin made and spent in a cache is
  never told to the one below, and the list of flagged entries, so that only those are written.
  The functions are those of coins.h, coins.cpp and txdb.cpp, for any number of caches.

  * `Coin`, `UnspentCoin` -- a spent coin is the null coin, and so the value `none` of an entry;
  * `CCoinsView`, `CoinsStack` -- the views, and a cache with what it is backed by;
  * `fetchCoin`, `getCoin`, `peekCoin`, `addCoin`, `spendCoin`, `uncache`, `writeEntry`, `flush`,
    `sync` -- the functions of those names (`writeEntry` is one round of `BatchWrite`). What an
    `assert` or a `throw` stops is a `CoinsError`. Memory accounting is left out, and so is a crash
    in the middle of a database batch;
  * `CCoinsView.Valid` -- the flags of every cache are right;
  * `coins_refine` -- any run of the operations, from valid views on, does to each of the views what
    plain maps would have done, gives the answers they give, and meets none of the errors.
-/
import SwiftBitcoinKernel.Kernel.Serialize
import SwiftBitcoinKernel.Logic.WriteBack

namespace SwiftBitcoinKernel

open Logic

/-! ## 1. Coins -/

/-- `Coin`, with the bit fields of its metadata. -/
structure Coin where
  out : CTxOut
  fCoinBase : Bool
  nHeight : BitVec 31
  deriving DecidableEq, Repr

/-- `CTxOut::IsNull`. -/
def CTxOut.isNull (o : CTxOut) : Bool := decide (o.nValue = -1)

/-- `Coin::IsSpent`. -/
def Coin.isSpent (c : Coin) : Bool := c.out.isNull

/-- A coin that is there. -/
abbrev UnspentCoin := { c : Coin // c.isSpent = false }

/-- `CScript::IsUnspendable`: `OP_RETURN` first, or longer than `MAX_SCRIPT_SIZE`. -/
def isUnspendable (script : Data) : Bool :=
  decide (script.head? = some 0x6a) || decide (script.length > 10000)

/-- `uint256::ZERO`. -/
def Hash.null : Hash := Hash.repeating 0

/-- What stops one of the functions. -/
inductive CoinsError where
  /-- `assert(!coin.IsSpent())`. -/
  | spentCoin
  /-- "Attempted to overwrite an unspent coin (when possible_overwrite is false)". -/
  | overwrite
  /-- "FRESH flag misapplied to coin that exists in parent cache". -/
  | freshMisapplied
  /-- "Not all unspent flagged entries were cleared". -/
  | notCleared
  /-- `assert(!hashBlock.IsNull())` of the database. -/
  | nullBestBlock
  deriving DecidableEq, Repr

/-! ## 2. Views -/

/-- `CCoinsViewCache`, without its base. `overlay` tells a `CoinsViewOverlay`. -/
structure CCoinsViewCache where
  overlay : Bool
  hashBlock : Hash
  table : Table COutPoint UnspentCoin
  dirtyCount : Nat

/-- `CCoinsViewCache(base)`. -/
def CCoinsViewCache.create (overlay : Bool) : CCoinsViewCache := ⟨overlay, .null, .empty, 0⟩

/-- An entry is put in place, and the count of dirty ones is `n`. -/
def CCoinsViewCache.put (c : CCoinsViewCache) (o : COutPoint) (e : Entry UnspentCoin) (n : Nat) :
    CCoinsViewCache :=
  { c with table := c.table.set o e, dirtyCount := n }

/-- An entry is dropped, and the count of dirty ones is `n`. -/
def CCoinsViewCache.drop (c : CCoinsViewCache) (o : COutPoint) (n : Nat) : CCoinsViewCache :=
  { c with table := c.table.erase o, dirtyCount := n }

/-- `CCoinsView`: the database, or a cache over another view. -/
inductive CCoinsView where
  | db (coins : COutPoint → Option UnspentCoin) (bestBlock : Hash)
  | cache (c : CCoinsViewCache) (base : CCoinsView)

/-- A cache and its base. -/
structure CoinsStack where
  cache : CCoinsViewCache
  base : CCoinsView

/-- The cache as a view. -/
def CoinsStack.view (s : CoinsStack) : CCoinsView := .cache s.cache s.base

/-- `PeekCoin`. -/
def CCoinsView.peekCoin : CCoinsView → COutPoint → Option UnspentCoin
  | .db coins _ => coins
  | .cache c base => c.table.peek base.peekCoin

/-- `FetchCoin`, where `fetched` is what `FetchCoinFromBase` would give, with the base after it. -/
def CCoinsViewCache.fetchWith (c : CCoinsViewCache) (o : COutPoint) (base : CCoinsView)
    (fetched : Option UnspentCoin × CCoinsView) : Option (Entry UnspentCoin) × CoinsStack :=
  match c.table.entries o with
  | some e => (some e, ⟨c, base⟩)
  | none =>
    match fetched.1 with
    | some coin =>
      let e : Entry UnspentCoin := ⟨some coin, false, false⟩
      (some e, ⟨c.put o e c.dirtyCount, fetched.2⟩)
    | none => (none, ⟨c, fetched.2⟩)

/-- `GetCoin`, which may fill the caches. -/
def CCoinsView.getCoin : CCoinsView → COutPoint → Option UnspentCoin × CCoinsView
  | .db coins best, o => (coins o, .db coins best)
  | .cache c base, o =>
    let r := c.fetchWith o base (if c.overlay then (base.peekCoin o, base) else base.getCoin o)
    (r.1.bind Entry.value, r.2.view)

/-- `GetBestBlock`, which a cache without one takes over from its base. -/
def CCoinsView.getBestBlock : CCoinsView → Hash × CCoinsView
  | .db coins best => (best, .db coins best)
  | .cache c base =>
    if c.hashBlock = .null then
      let r := base.getBestBlock
      (r.1, .cache { c with hashBlock := r.1 } r.2)
    else (c.hashBlock, .cache c base)

/-- `SetBestBlock`; of the database, the last batch of `BatchWrite`. -/
def CCoinsView.setBestBlock (hashBlock : Hash) : CCoinsView → CCoinsView
  | .db coins _ => .db coins hashBlock
  | .cache c base => .cache { c with hashBlock := hashBlock } base

/-- `TrySub` on the count of dirty entries. -/
def trySub (n : Nat) (dirty : Bool) : Nat := if dirty then n - 1 else n

/-- One round of `BatchWrite`: an entry of the cache above. -/
def CCoinsView.writeEntry (v : CCoinsView) (o : COutPoint) (e : Entry UnspentCoin) :
    Except CoinsError CCoinsView :=
  if !e.dirty then .ok v
  else
    match v with
    | .db coins best => .ok (.db (Function.update coins o e.value) best)
    | .cache c base =>
      match c.table.entries o with
      | none =>
        if e.fresh && e.value.isNone then .ok v
        else .ok (.cache (c.put o ⟨e.value, true, e.fresh⟩ (c.dirtyCount + 1)) base)
      | some us =>
        if e.fresh && us.value.isSome then .error .freshMisapplied
        else if us.fresh && e.value.isNone then
          .ok (.cache (c.drop o (trySub c.dirtyCount us.dirty)) base)
        else
          .ok (.cache (c.put o ⟨e.value, true, us.fresh⟩
            (if us.dirty then c.dirtyCount else c.dirtyCount + 1)) base)

/-- What `BatchWrite` asserts before it writes. -/
def CCoinsView.accepts (hashBlock : Hash) : CCoinsView → Bool
  | .db _ _ => decide (hashBlock ≠ .null)
  | .cache _ _ => true

namespace CoinsStack

variable (s : CoinsStack) (o : COutPoint)

/-- `FetchCoin`. -/
def fetchCoin : Option (Entry UnspentCoin) × CoinsStack :=
  s.cache.fetchWith o s.base
    (if s.cache.overlay then (s.base.peekCoin o, s.base) else s.base.getCoin o)

/-- `GetCoin`, `HaveCoin` and `AccessCoin`: the coin, where it is there. -/
def getCoin : Option UnspentCoin × CoinsStack :=
  let r := s.fetchCoin o
  (r.1.bind Entry.value, r.2)

/-- `AddCoin`. The entry is emplaced first: spent and without flags where there was none. -/
def addCoin (coin : Coin) (possibleOverwrite : Bool) : Except CoinsError CoinsStack :=
  if h : coin.isSpent = false then
    if isUnspendable coin.out.scriptPubKey then .ok s
    else
      let it := (s.cache.table.entries o).getD ⟨none, false, false⟩
      if !possibleOverwrite && it.value.isSome then .error .overwrite
      else
        let fresh := !possibleOverwrite && !it.dirty
        .ok ⟨s.cache.put o ⟨some ⟨coin, h⟩, true, it.fresh || fresh⟩
          (trySub s.cache.dirtyCount it.dirty + 1), s.base⟩
  else .error .spentCoin

/-- `SpendCoin`: `none` where it returns false, and else what was moved out, which is no coin where
    the entry was spent already. -/
def spendCoin : Option (Option UnspentCoin) × CoinsStack :=
  match s.fetchCoin o with
  | (none, s) => (none, s)
  | (some it, s) =>
    let dirtyCount := trySub s.cache.dirtyCount it.dirty
    if it.fresh then (some it.value, ⟨s.cache.drop o dirtyCount, s.base⟩)
    else (some it.value, ⟨s.cache.put o ⟨none, true, it.fresh⟩ (dirtyCount + 1), s.base⟩)

/-- `Uncache`. -/
def uncache : CoinsStack :=
  match s.cache.table.entries o with
  | some it => if it.dirty then s else ⟨s.cache.drop o s.cache.dirtyCount, s.base⟩
  | none => s

/-- `BatchWrite` of the base, over the flagged entries. -/
def batchWrite : Except CoinsError CCoinsView :=
  if s.base.accepts s.cache.hashBlock then do
    let base ← s.cache.table.writeKeys CCoinsView.writeEntry s.cache.table.flagged s.base
    return base.setBestBlock s.cache.hashBlock
  else .error .nullBestBlock

/-- What the cursor does to the count of dirty entries. -/
def cursorCount : Nat :=
  s.cache.table.flagged.foldl
    (fun n o => trySub n ((s.cache.table.entries o).elim false Entry.dirty)) s.cache.dirtyCount

/-- `Flush`. -/
def flush : Except CoinsError CoinsStack := do
  let base ← s.batchWrite
  return ⟨{ s.cache with table := .empty, dirtyCount := s.cursorCount }, base⟩

/-- `Sync`: the cursor drops the spent entries and takes the flags off the others. -/
def sync : Except CoinsError CoinsStack := do
  let base ← s.batchWrite
  let table := s.cache.table.flagged.foldl Table.settle s.cache.table
  if table.flagged = [] then
    return ⟨{ s.cache with table := table, dirtyCount := s.cursorCount }, base⟩
  else .error .notCleared

end CoinsStack

/-! ## 3. Validity -/

/-- A cache is right about the view below it. -/
structure CCoinsViewCache.Ok (c : CCoinsViewCache) (below : COutPoint → Option UnspentCoin) :
    Prop where
  coherent : c.table.Coherent below
  count : c.dirtyCount = c.table.flagged.length

/-- **Validity**: every cache is right about its base. -/
def CCoinsView.Valid : CCoinsView → Prop
  | .db _ _ => True
  | .cache c base => base.Valid ∧ c.Ok base.peekCoin

/-- What a view stands for: the coins, and the best block it has of its own. -/
structure Level where
  coins : COutPoint → Option UnspentCoin
  hashBlock : Hash

/-- A view and those below it. -/
def CCoinsView.levels : CCoinsView → List Level
  | .db coins best => [⟨coins, best⟩]
  | .cache c base => ⟨c.table.peek base.peekCoin, c.hashBlock⟩ :: base.levels

/-- The levels below the first. -/
def CCoinsView.under : CCoinsView → List Level
  | .db _ _ => []
  | .cache _ base => base.levels

/-- The best block a view has of its own. -/
def CCoinsView.hashBlock : CCoinsView → Hash
  | .db _ best => best
  | .cache c _ => c.hashBlock

theorem levels_eq (v : CCoinsView) : v.levels = ⟨v.peekCoin, v.hashBlock⟩ :: v.under := by
  cases v with
  | db coins best => rfl
  | cache c base => rfl

theorem peekCoin_of_levels {v v' : CCoinsView} (h : v'.levels = v.levels) :
    v'.peekCoin = v.peekCoin := by
  rw [levels_eq v, levels_eq v'] at h
  exact congrArg Level.coins (List.cons.inj h).1

/-! ## 4. Reading -/

/-- What `FetchCoin` does: the views stand for the same, and the entry is there if the coin is. -/
structure CoinFetched (s : CoinsStack) (o : COutPoint) (r : Option (Entry UnspentCoin) × CoinsStack) :
    Prop where
  valid : r.2.view.Valid
  levels : r.2.view.levels = s.view.levels
  entry : r.2.cache.table.entries o = r.1
  value : r.1.bind Entry.value = s.view.peekCoin o

theorem fetchWith_spec {c : CCoinsViewCache} {base : CCoinsView} {o : COutPoint}
    {fetched : Option UnspentCoin × CCoinsView} (hbase : base.Valid) (hok : c.Ok base.peekCoin)
    (hcoin : fetched.1 = base.peekCoin o) (hvalid : fetched.2.Valid)
    (hlevels : fetched.2.levels = base.levels) :
    CoinFetched ⟨c, base⟩ o (c.fetchWith o base fetched) := by
  have hpeek := peekCoin_of_levels hlevels
  unfold CCoinsViewCache.fetchWith
  cases hentry : c.table.entries o with
  | some e => exact ⟨⟨hbase, hok⟩, rfl, hentry, (peek_of_entry hentry).symm⟩
  | none =>
    have hsame : c.table.peek base.peekCoin o = fetched.1 := (peek_of_none hentry).trans hcoin.symm
    cases hfetched : fetched.1 with
    | none =>
      refine ⟨⟨hvalid, ?_⟩, ?_, hentry, (hsame.trans hfetched).symm⟩
      · rw [hpeek]
        exact hok
      · show (⟨c.table.peek fetched.2.peekCoin, c.hashBlock⟩ : Level) :: fetched.2.levels = _
        rw [hpeek, hlevels]
        rfl
    | some coin =>
      have hentryOk : (⟨some coin, false, false⟩ : Entry UnspentCoin).Ok (base.peekCoin o) := by
        rw [← hcoin, hfetched]
        exact ⟨fun h => (by cases h), fun _ => ⟨rfl, Option.some_ne_none coin⟩⟩
      have hnot : o ∉ c.table.flagged := by
        rw [hok.coherent.listed o, hentry]
        rintro ⟨e, he, -⟩
        cases he
      refine ⟨⟨hvalid, ⟨?_, ?_⟩⟩, ?_, entries_set_self, (hsame.trans hfetched).symm⟩
      · rw [hpeek]
        exact hok.coherent.set (fun _ _ => rfl) hentryOk
      · have hlen := length_flagged_set (t := c.table) hentryOk
        rw [if_neg hnot, if_neg Bool.false_ne_true, Nat.add_zero, Nat.add_zero] at hlen
        exact hok.count.trans hlen.symm
      · show (⟨(c.table.set o _).peek fetched.2.peekCoin, c.hashBlock⟩ : Level) ::
          fetched.2.levels = _
        have hself : Function.update (c.table.peek base.peekCoin) o (some coin) =
            c.table.peek base.peekCoin := by
          rw [← hfetched, ← hsame]
          exact Function.update_eq_self o _
        rw [hpeek, hlevels, peek_set, hself]
        rfl

/-- **`GetCoin`** answers as the map stood for, and leaves every level as it was. -/
theorem getCoin_spec {v : CCoinsView} (h : v.Valid) (o : COutPoint) :
    (v.getCoin o).1 = v.peekCoin o ∧ (v.getCoin o).2.Valid ∧ (v.getCoin o).2.levels = v.levels := by
  induction v with
  | db coins best => exact ⟨rfl, trivial, rfl⟩
  | cache c base ih =>
    obtain ⟨hbase, hok⟩ := h
    have hfetched : CoinFetched ⟨c, base⟩ o (c.fetchWith o base
        (if c.overlay then (base.peekCoin o, base) else base.getCoin o)) := by
      cases c.overlay with
      | true => exact fetchWith_spec hbase hok rfl hbase rfl
      | false =>
        obtain ⟨hcoin, hvalid, hlevels⟩ := ih hbase
        exact fetchWith_spec hbase hok hcoin hvalid hlevels
    exact ⟨hfetched.value, hfetched.valid, hfetched.levels⟩

theorem fetchCoin_spec {s : CoinsStack} (h : s.view.Valid) (o : COutPoint) :
    CoinFetched s o (s.fetchCoin o) := by
  obtain ⟨hbase, hok⟩ := h
  unfold CoinsStack.fetchCoin
  cases s.cache.overlay with
  | true => exact fetchWith_spec hbase hok rfl hbase rfl
  | false =>
    obtain ⟨hcoin, hvalid, hlevels⟩ := getCoin_spec hbase o
    exact fetchWith_spec hbase hok hcoin hvalid hlevels

/-! ## 5. Writing -/

section Entries

variable {c : CCoinsViewCache} {base : CCoinsView} {o : COutPoint} {e : Entry UnspentCoin} {n : Nat}

/-- A dirty entry is put in place. -/
theorem put_spec (hbase : base.Valid) (h : c.Ok base.peekCoin) (hok : e.Ok (base.peekCoin o))
    (hdirty : e.dirty = true)
    (hn : n + (if o ∈ c.table.flagged then 1 else 0) = c.dirtyCount + 1) :
    (CCoinsView.cache (c.put o e n) base).Valid ∧
    (CCoinsView.cache (c.put o e n) base).levels =
      ⟨Function.update (CCoinsView.cache c base).peekCoin o e.value, c.hashBlock⟩ :: base.levels := by
  refine ⟨⟨hbase, h.coherent.set (fun _ _ => rfl) hok, ?_⟩, ?_⟩
  · have hlen := length_flagged_set (t := c.table) hok
    rw [if_pos hdirty] at hlen
    have hcount := h.count
    show n = (c.table.set o e).flagged.length
    omega
  · show (⟨(c.table.set o e).peek base.peekCoin, _⟩ : Level) :: _ = _
    rw [peek_set]
    rfl

/-- An entry is dropped. -/
theorem drop_spec (hbase : base.Valid) (h : c.Ok base.peekCoin)
    (hn : n + (if o ∈ c.table.flagged then 1 else 0) = c.dirtyCount) :
    (CCoinsView.cache (c.drop o n) base).Valid ∧
    (CCoinsView.cache (c.drop o n) base).levels =
      ⟨Function.update (CCoinsView.cache c base).peekCoin o (base.peekCoin o), c.hashBlock⟩ ::
        base.levels := by
  refine ⟨⟨hbase, h.coherent.erase fun _ _ => rfl, ?_⟩, ?_⟩
  · have hcount := h.count
    show n = (c.table.flagged.erase o).length
    by_cases ho : o ∈ c.table.flagged
    · rw [if_pos ho] at hn
      rw [List.length_erase_of_mem ho]
      omega
    · rw [if_neg ho] at hn
      rw [List.erase_of_not_mem ho]
      omega
  · show (⟨(c.table.erase o).peek base.peekCoin, _⟩ : Level) :: _ = _
    rw [peek_erase]
    rfl

theorem not_flagged_of_none (h : c.Ok base.peekCoin) (hentry : c.table.entries o = none) :
    o ∉ c.table.flagged := by
  rw [h.coherent.listed o, hentry]
  rintro ⟨e, he, -⟩
  cases he

/-- Whether an entry is listed is whether it is dirty. -/
theorem flagged_iff_dirty (h : c.Ok base.peekCoin) (hentry : c.table.entries o = some e) :
    o ∈ c.table.flagged ↔ e.dirty = true := by
  rw [h.coherent.listed o]
  constructor
  · rintro ⟨e', he', hdirty⟩
    rw [hentry] at he'
    cases he'
    exact hdirty
  · exact fun hdirty => ⟨e, hentry, hdirty⟩

/-- The count after an entry is taken off the dirty ones. -/
theorem trySub_count (h : c.Ok base.peekCoin) (hentry : c.table.entries o = some e) :
    trySub c.dirtyCount e.dirty + (if o ∈ c.table.flagged then 1 else 0) = c.dirtyCount := by
  unfold trySub
  have hiff := flagged_iff_dirty h hentry
  cases hdirty : e.dirty with
  | true =>
    have hmem := hiff.2 hdirty
    have hpos := List.length_pos_of_mem hmem
    have hcount := h.count
    rw [if_pos rfl, if_pos hmem]
    omega
  | false =>
    have hnot : o ∉ c.table.flagged := fun hmem => by
      rw [hiff, hdirty] at hmem
      cases hmem
    rw [if_neg Bool.false_ne_true, if_neg hnot, Nat.add_zero]

end Entries

/-- **`AddCoin`**: the coin is there, unless it is unspendable, where it was not there before or may
    be overwritten. -/
theorem addCoin_spec {s : CoinsStack} (h : s.view.Valid) (o : COutPoint) {coin : Coin}
    (hcoin : coin.isSpent = false) (possibleOverwrite : Bool)
    (hnew : possibleOverwrite = false → s.view.peekCoin o = none) :
    ∃ s', s.addCoin o coin possibleOverwrite = .ok s' ∧ s'.view.Valid ∧
      s'.view.levels = ⟨if isUnspendable coin.out.scriptPubKey then s.view.peekCoin
        else Function.update s.view.peekCoin o (some ⟨coin, hcoin⟩), s.cache.hashBlock⟩ ::
          s.base.levels := by
  unfold CoinsStack.addCoin
  rw [dif_pos hcoin]
  by_cases hunspendable : isUnspendable coin.out.scriptPubKey = true
  · rw [if_pos hunspendable, if_pos hunspendable]
    exact ⟨s, rfl, h, rfl⟩
  · rw [if_neg hunspendable, if_neg hunspendable]
    obtain ⟨hbase, hcache⟩ := h
    cases hentry : s.cache.table.entries o with
    | none =>
      have hbelow : possibleOverwrite = false → s.base.peekCoin o = none :=
        fun hno => (peek_of_none hentry).symm.trans (hnew hno)
      have hthrow : ¬(!possibleOverwrite && (none : Option UnspentCoin).isSome) = true := by
        rw [Option.isSome_none, Bool.and_false]
        exact Bool.false_ne_true
      dsimp only [Option.getD]
      rw [if_neg hthrow]
      refine ⟨_, rfl, put_spec hbase hcache ⟨fun hfresh => ?_, fun hd => (by cases hd)⟩ rfl ?_⟩
      · refine ⟨hbelow ?_, rfl, Option.some_ne_none _⟩
        rw [Bool.false_or, Bool.not_false, Bool.and_true] at hfresh
        exact Bool.not_eq_true' _ ▸ hfresh
      · rw [if_neg (not_flagged_of_none hcache hentry)]
        rfl
    | some it =>
      have hvalue : possibleOverwrite = false → it.value = none :=
        fun hno => (peek_of_entry hentry).symm.trans (hnew hno)
      have hthrow : ¬(!possibleOverwrite && it.value.isSome) = true := by
        cases possibleOverwrite with
        | true => exact Bool.false_ne_true
        | false =>
          rw [hvalue rfl]
          exact Bool.false_ne_true
      have hit := hcache.coherent.ok o it hentry
      dsimp only [Option.getD]
      rw [if_neg hthrow]
      refine ⟨_, rfl, put_spec hbase hcache ⟨fun hfresh => ?_, fun hd => (by cases hd)⟩ rfl ?_⟩
      · -- it was fresh before, or it is not to be overwritten: then it was spent, and so dirty
        refine ⟨?_, rfl, Option.some_ne_none _⟩
        cases hitFresh : it.fresh with
        | true => exact (hit.fresh hitFresh).1
        | false =>
          rw [hitFresh, Bool.false_or, Bool.and_eq_true, Bool.not_eq_true', Bool.not_eq_true']
            at hfresh
          obtain ⟨heq, hne⟩ := hit.clean hfresh.2
          rw [hvalue hfresh.1] at heq
          exact absurd heq.symm hne
      · have hcount := trySub_count hcache hentry
        omega

/-- **`SpendCoin`**: the coin is gone, and is the one moved out. -/
theorem spendCoin_spec {s : CoinsStack} (h : s.view.Valid) (o : COutPoint) :
    (s.spendCoin o).2.view.Valid ∧
    (s.spendCoin o).2.view.levels =
      ⟨Function.update s.view.peekCoin o none, s.cache.hashBlock⟩ :: s.base.levels ∧
    (s.spendCoin o).1.getD none = s.view.peekCoin o ∧
    (s.view.peekCoin o ≠ none → (s.spendCoin o).1.isSome = true) := by
  have hfetched := fetchCoin_spec h o
  unfold CoinsStack.spendCoin
  generalize s.fetchCoin o = r at hfetched
  obtain ⟨found, s'⟩ := r
  obtain ⟨⟨hbase, hcache⟩, hlevels, hentry, hvalue⟩ := hfetched
  dsimp only at hbase hcache hlevels hentry hvalue
  have hpeek : s'.view.peekCoin = s.view.peekCoin := peekCoin_of_levels hlevels
  have hhash : s'.cache.hashBlock = s.cache.hashBlock :=
    congrArg Level.hashBlock (List.cons.inj hlevels).1
  have hbelow : s'.base.levels = s.base.levels := (List.cons.inj hlevels).2
  cases found with
  | none =>
    have hnone : s.view.peekCoin o = none := hvalue.symm
    refine ⟨⟨hbase, hcache⟩, ?_, hvalue, fun hne => absurd hnone hne⟩
    rw [← hnone, Function.update_eq_self]
    exact hlevels
  | some it =>
    have hit := hcache.coherent.ok o it hentry
    have hcount := trySub_count hcache hentry
    have hview : (CCoinsView.cache s'.cache s'.base).peekCoin = s.view.peekCoin := hpeek
    dsimp only
    split
    · rename_i hfresh
      obtain ⟨hvalid, hdropped⟩ := drop_spec hbase hcache hcount
      rw [(hit.fresh hfresh).1, hview, hhash, hbelow] at hdropped
      exact ⟨hvalid, hdropped, hvalue, fun _ => rfl⟩
    · rename_i hfresh
      obtain ⟨hvalid, hput⟩ := put_spec (o := o) (e := ⟨none, true, it.fresh⟩)
        (n := trySub s'.cache.dirtyCount it.dirty + 1) hbase hcache
        ⟨fun hf => absurd hf hfresh, fun hd => (by cases hd)⟩ rfl (by omega)
      rw [hview, hhash, hbelow] at hput
      exact ⟨hvalid, hput, hvalue, fun _ => rfl⟩

/-- **`Uncache`** is not seen. -/
theorem uncache_spec {s : CoinsStack} (h : s.view.Valid) (o : COutPoint) :
    (s.uncache o).view.Valid ∧ (s.uncache o).view.levels = s.view.levels := by
  unfold CoinsStack.uncache
  obtain ⟨hbase, hcache⟩ := h
  cases hentry : s.cache.table.entries o with
  | none => exact ⟨⟨hbase, hcache⟩, rfl⟩
  | some it =>
    dsimp only
    split
    · exact ⟨⟨hbase, hcache⟩, rfl⟩
    · rename_i hdirty
      rw [Bool.not_eq_true] at hdirty
      have hcount := trySub_count hcache hentry
      rw [trySub, hdirty, if_neg Bool.false_ne_true] at hcount
      obtain ⟨hvalid, hlevels⟩ := drop_spec hbase hcache hcount
      refine ⟨hvalid, hlevels.trans ?_⟩
      have hself : (CCoinsView.cache s.cache s.base).peekCoin o = s.base.peekCoin o :=
        (peek_of_entry hentry).trans ((hcache.coherent.ok o it hentry).clean hdirty).1
      rw [← hself, Function.update_eq_self]
      rfl

/-! ## 6. Writing back -/

/-- One round of `BatchWrite`. -/
theorem writeEntry_spec {v : CCoinsView} (h : v.Valid) (o : COutPoint) {e : Entry UnspentCoin}
    (hdirty : e.dirty = true) (hfresh : e.fresh = true → v.peekCoin o = none) :
    ∃ v', v.writeEntry o e = .ok v' ∧ v'.Valid ∧
      v'.levels = ⟨Function.update v.peekCoin o e.value, v.hashBlock⟩ :: v.under := by
  have hwrite : ¬(!e.dirty) = true := by
    rw [hdirty]
    exact Bool.false_ne_true
  unfold CCoinsView.writeEntry
  rw [if_neg hwrite]
  cases v with
  | db coins best => exact ⟨_, rfl, trivial, rfl⟩
  | cache c base =>
    obtain ⟨hbase, hcache⟩ := h
    dsimp only
    cases hentry : c.table.entries o with
    | none =>
      have hbelow : (CCoinsView.cache c base).peekCoin o = base.peekCoin o := peek_of_none hentry
      dsimp only
      split
      · -- fresh and spent: the cache below never knew of it
        rename_i hskip
        rw [Bool.and_eq_true, Option.isNone_iff_eq_none] at hskip
        refine ⟨_, rfl, ⟨hbase, hcache⟩, ?_⟩
        rw [hskip.2, ← hfresh hskip.1, Function.update_eq_self]
        rfl
      · rename_i hskip
        refine ⟨_, rfl, put_spec hbase hcache ⟨fun hf => ⟨?_, rfl, fun hnone => ?_⟩,
          fun hd => (by cases hd)⟩ rfl ?_⟩
        · exact hbelow.symm.trans (hfresh hf)
        · exact hskip (by rw [Bool.and_eq_true, Option.isNone_iff_eq_none]; exact ⟨hf, hnone⟩)
        · rw [if_neg (not_flagged_of_none hcache hentry), Nat.add_zero]
    | some us =>
      have hus := hcache.coherent.ok o us hentry
      have hvalue : (CCoinsView.cache c base).peekCoin o = us.value := peek_of_entry hentry
      dsimp only
      split
      · rename_i hthrow
        rw [Bool.and_eq_true] at hthrow
        rw [← hvalue, hfresh hthrow.1] at hthrow
        cases hthrow.2
      · split
        · -- fresh below and spent above: nobody further down knows of it
          rename_i hgone
          rw [Bool.and_eq_true, Option.isNone_iff_eq_none] at hgone
          obtain ⟨hvalid, hlevels⟩ := drop_spec hbase hcache (trySub_count hcache hentry)
          refine ⟨_, rfl, hvalid, ?_⟩
          rw [hlevels, (hus.fresh hgone.1).1, hgone.2]
          rfl
        · rename_i hgone
          refine ⟨_, rfl, put_spec hbase hcache ⟨fun hf => ⟨?_, rfl, fun hnone => ?_⟩,
            fun hd => (by cases hd)⟩ rfl ?_⟩
          · exact (hus.fresh hf).1
          · exact hgone (by rw [Bool.and_eq_true, Option.isNone_iff_eq_none]; exact ⟨hf, hnone⟩)
          · have hiff := flagged_iff_dirty hcache hentry
            cases hd : us.dirty with
            | true => rw [if_pos rfl, if_pos (hiff.2 hd)]
            | false =>
              have hnot : o ∉ c.table.flagged := fun hmem => by
                rw [hiff, hd] at hmem
                cases hmem
              rw [if_neg Bool.false_ne_true, if_neg hnot, Nat.add_zero]

/-- **`BatchWrite`** of all flagged entries makes the view below stand for what the cache does. -/
theorem batchWrite_spec {s : CoinsStack} (h : s.view.Valid)
    (haccepts : s.base.accepts s.cache.hashBlock = true) :
    ∃ base, s.batchWrite = .ok base ∧ base.Valid ∧
      base.levels = ⟨s.view.peekCoin, s.cache.hashBlock⟩ :: s.base.under := by
  obtain ⟨hbase, hcache⟩ := h
  obtain ⟨base, hfold, ⟨hvalid, hbelow⟩, hview⟩ := write_back CCoinsView.peekCoin
    (fun v => v.Valid ∧ v.under = s.base.under) CCoinsView.writeEntry s.base
    (fun v o e hgood hdirty hfresh => by
      obtain ⟨v', hok, hvalid, hlevels⟩ := writeEntry_spec hgood.1 o hdirty hfresh
      rw [levels_eq v'] at hlevels
      obtain ⟨hfirst, hrest⟩ := List.cons.inj hlevels
      exact ⟨v', hok, ⟨hvalid, hrest.trans hgood.2⟩, congrArg Level.coins hfirst⟩)
    ⟨hbase, rfl⟩ hcache.coherent
  refine ⟨base.setBestBlock s.cache.hashBlock, ?_, ?_, ?_⟩
  · unfold CoinsStack.batchWrite
    rw [if_pos haccepts, hfold]
    rfl
  · cases base with
    | db coins best => exact trivial
    | cache c base' => exact ⟨hvalid.1, hvalid.2.coherent, hvalid.2.count⟩
  · cases base with
    | db coins best => exact congrArg₂ List.cons (congrArg (Level.mk · _) hview) hbelow
    | cache c base' => exact congrArg₂ List.cons (congrArg (Level.mk · _) hview) hbelow

theorem cursorCount_eq {s : CoinsStack} (h : s.view.Valid) : s.cursorCount = 0 := by
  obtain ⟨-, hcache⟩ := h
  have hall : ∀ ks : List COutPoint, (∀ o ∈ ks, ∃ e, s.cache.table.entries o = some e ∧
      e.dirty = true) → ∀ n, ks.foldl (fun n o =>
        trySub n ((s.cache.table.entries o).elim false Entry.dirty)) n = n - ks.length := by
    intro ks
    induction ks with
    | nil => exact fun _ _ => rfl
    | cons o ks ih =>
      intro hks n
      obtain ⟨⟨e, hentry, hdirty⟩, hks⟩ := List.forall_mem_cons.1 hks
      rw [List.foldl_cons, ih hks, hentry, Option.elim_some, hdirty, trySub, if_pos rfl,
        List.length_cons]
      omega
  unfold CoinsStack.cursorCount
  rw [hall _ (fun o ho => (hcache.coherent.listed o).1 ho), hcache.count, Nat.sub_self]

/-- **`Flush`**: the view below stands for what the cache does, and the cache is empty. -/
theorem flush_spec {s : CoinsStack} (h : s.view.Valid)
    (haccepts : s.base.accepts s.cache.hashBlock = true) :
    ∃ s', s.flush = .ok s' ∧ s'.view.Valid ∧ s'.view.levels =
      ⟨s.view.peekCoin, s.cache.hashBlock⟩ :: ⟨s.view.peekCoin, s.cache.hashBlock⟩ ::
        s.base.under := by
  obtain ⟨base, hwrite, hvalid, hlevels⟩ := batchWrite_spec h haccepts
  refine ⟨⟨{ s.cache with table := .empty, dirtyCount := s.cursorCount }, base⟩, ?_, ?_, ?_⟩
  · unfold CoinsStack.flush
    rw [hwrite]
    rfl
  · exact ⟨hvalid, coherent_empty, cursorCount_eq h⟩
  · have hpeek : base.peekCoin = s.view.peekCoin := by
      rw [levels_eq base] at hlevels
      exact congrArg Level.coins (List.cons.inj hlevels).1
    show (⟨base.peekCoin, _⟩ : Level) :: base.levels = _
    rw [hpeek, hlevels]

/-- **`Sync`**: the same, and the cache keeps its coins. -/
theorem sync_spec {s : CoinsStack} (h : s.view.Valid)
    (haccepts : s.base.accepts s.cache.hashBlock = true) :
    ∃ s', s.sync = .ok s' ∧ s'.view.Valid ∧ s'.view.levels =
      ⟨s.view.peekCoin, s.cache.hashBlock⟩ :: ⟨s.view.peekCoin, s.cache.hashBlock⟩ ::
        s.base.under := by
  obtain ⟨base, hwrite, hvalid, hlevels⟩ := batchWrite_spec h haccepts
  obtain ⟨hsettled, hnil, hsame⟩ := settle_flagged s.cache.table.flagged rfl h.2.coherent
  have hpeek : base.peekCoin = s.view.peekCoin := by
    rw [levels_eq base] at hlevels
    exact congrArg Level.coins (List.cons.inj hlevels).1
  refine ⟨⟨{ s.cache with
    table := s.cache.table.flagged.foldl Table.settle s.cache.table
    dirtyCount := s.cursorCount }, base⟩, ?_, ⟨hvalid, ?_, ?_⟩, ?_⟩
  · unfold CoinsStack.sync
    rw [hwrite]
    exact if_pos hnil
  · rw [hpeek]
    exact hsettled
  · rw [cursorCount_eq h]
    exact (congrArg List.length hnil).symm
  · show (⟨(s.cache.table.flagged.foldl Table.settle s.cache.table).peek base.peekCoin, _⟩ :
      Level) :: base.levels = _
    rw [hpeek, hlevels]
    exact congrArg (fun coins => (⟨coins, _⟩ : Level) :: _) hsame

/-! ## 7. Any run -/

/-- `GetBestBlock` of levels. -/
def bestBlock : List Level → Hash × List Level
  | [] => (.null, [])
  | [l] => (l.hashBlock, [l])
  | l :: rest =>
    if l.hashBlock = .null then ((bestBlock rest).1, { l with hashBlock := (bestBlock rest).1 } ::
      (bestBlock rest).2)
    else (l.hashBlock, l :: rest)

theorem levels_ne_nil (v : CCoinsView) : v.levels ≠ [] := by
  rw [levels_eq]
  exact List.cons_ne_nil _ _

theorem bestBlock_cons {l : Level} {v : CCoinsView} :
    bestBlock (l :: v.levels) =
      if l.hashBlock = .null then ((bestBlock v.levels).1,
        { l with hashBlock := (bestBlock v.levels).1 } :: (bestBlock v.levels).2)
      else (l.hashBlock, l :: v.levels) := by
  rw [levels_eq v]
  rfl

theorem getBestBlock_spec {v : CCoinsView} (h : v.Valid) :
    v.getBestBlock.1 = (bestBlock v.levels).1 ∧ v.getBestBlock.2.Valid ∧
      v.getBestBlock.2.levels = (bestBlock v.levels).2 ∧ v.getBestBlock.2.peekCoin = v.peekCoin := by
  induction v with
  | db coins best => exact ⟨rfl, trivial, rfl, rfl⟩
  | cache c base ih =>
    obtain ⟨hbase, hcache⟩ := h
    obtain ⟨hhash, hvalid, hlevels, hpeek⟩ := ih hbase
    unfold CCoinsView.getBestBlock CCoinsView.levels
    rw [bestBlock_cons]
    split
    · refine ⟨hhash, ⟨hvalid, ?_⟩, ?_, ?_⟩
      · rw [hpeek]
        exact ⟨hcache.coherent, hcache.count⟩
      · show (⟨c.table.peek base.getBestBlock.2.peekCoin, base.getBestBlock.1⟩ : Level) ::
          base.getBestBlock.2.levels = _
        rw [hpeek, hlevels, hhash]
      · show c.table.peek base.getBestBlock.2.peekCoin = _
        rw [hpeek]
        rfl
    · exact ⟨rfl, ⟨hbase, hcache⟩, rfl, rfl⟩

/-- The operations on the cache at the top, a new cache on top of it, and the end of one whose
    changes are not wanted. -/
inductive CoinsOp where
  | getCoin (o : COutPoint)
  | addCoin (o : COutPoint) (coin : Coin) (possibleOverwrite : Bool)
  | spendCoin (o : COutPoint)
  | uncache (o : COutPoint)
  | getBestBlock
  | setBestBlock (hashBlock : Hash)
  | flush
  | sync
  | create (overlay : Bool)
  | discard

/-- What an operation answers. -/
inductive CoinsAnswer where
  | coin (coin : Option UnspentCoin)
  | hash (hash : Hash)
  | unit

/-- One operation on a view that is a cache. -/
def CoinsStack.perform (s : CoinsStack) : CoinsOp → Except CoinsError (CoinsAnswer × CCoinsView)
  | .getCoin o => .ok (.coin (s.getCoin o).1, (s.getCoin o).2.view)
  | .addCoin o coin possibleOverwrite => do
    let s ← s.addCoin o coin possibleOverwrite
    return (.unit, s.view)
  | .spendCoin o => .ok (.coin ((s.spendCoin o).1.getD none), (s.spendCoin o).2.view)
  | .uncache o => .ok (.unit, (s.uncache o).view)
  | .getBestBlock => .ok (.hash s.view.getBestBlock.1, s.view.getBestBlock.2)
  | .setBestBlock hashBlock => .ok (.unit, s.view.setBestBlock hashBlock)
  | .flush => do
    let s ← s.flush
    return (.unit, s.view)
  | .sync => do
    let s ← s.sync
    return (.unit, s.view)
  | .create overlay => .ok (.unit, .cache (.create overlay) s.view)
  | .discard => .ok (.unit, s.base)

/-- One operation on any view: of the database alone, only the creation of a cache. -/
def CCoinsView.performOp (v : CCoinsView) (op : CoinsOp) :
    Except CoinsError (CoinsAnswer × CCoinsView) :=
  match v with
  | .cache c base => CoinsStack.perform ⟨c, base⟩ op
  | .db coins best =>
    match op with
    | .create overlay => .ok (.unit, .cache (.create overlay) (.db coins best))
    | _ => .ok (.unit, .db coins best)

/-- **The same on plain maps**: nothing is cached, and nothing is flagged. `none` where the caller
    breaks a rule: adding a null coin, or over a coin without saying so; flushing into the database
    without a best block; using the database as a cache. -/
def planOp (op : CoinsOp) : List Level → Option (CoinsAnswer × List Level)
  | [] => none
  | [l] =>
    match op with
    | .create _ => some (.unit, [⟨l.coins, .null⟩, l])
    | _ => none
  | l :: l' :: rest =>
    match op with
    | .getCoin o => some (.coin (l.coins o), l :: l' :: rest)
    | .addCoin o coin possibleOverwrite =>
      if h : coin.isSpent = false then
        if possibleOverwrite = false ∧ (l.coins o).isSome then none
        else
          some (.unit, ⟨if isUnspendable coin.out.scriptPubKey then l.coins
            else Function.update l.coins o (some ⟨coin, h⟩), l.hashBlock⟩ :: l' :: rest)
      else none
    | .spendCoin o =>
      some (.coin (l.coins o), ⟨Function.update l.coins o none, l.hashBlock⟩ :: l' :: rest)
    | .uncache _ => some (.unit, l :: l' :: rest)
    | .getBestBlock =>
      some (.hash (bestBlock (l :: l' :: rest)).1, (bestBlock (l :: l' :: rest)).2)
    | .setBestBlock hashBlock => some (.unit, ⟨l.coins, hashBlock⟩ :: l' :: rest)
    | .flush | .sync =>
      if rest = [] ∧ l.hashBlock = .null then none else some (.unit, l :: l :: rest)
    | .create _ => some (.unit, ⟨l.coins, .null⟩ :: l :: l' :: rest)
    | .discard => some (.unit, l' :: rest)

theorem accepts_of_levels {base : CCoinsView} {hashBlock : Hash}
    (h : ¬(base.under = [] ∧ hashBlock = .null)) : base.accepts hashBlock = true := by
  cases base with
  | db coins best => exact decide_eq_true fun hnull => h ⟨rfl, hnull⟩
  | cache c base => rfl

/-- **One operation** does to the levels what it does to plain maps, and is never stopped. -/
theorem performOp_spec {v : CCoinsView} (h : v.Valid) {op : CoinsOp} {answer : CoinsAnswer}
    {levels : List Level} (hplan : planOp op v.levels = some (answer, levels)) :
    ∃ v', v.performOp op = .ok (answer, v') ∧ v'.Valid ∧ v'.levels = levels := by
  cases v with
  | db coins best =>
    have hcreate : ∀ overlay, (CCoinsView.cache (.create overlay) (.db coins best)).Valid :=
      fun overlay => ⟨trivial, coherent_empty, rfl⟩
    cases op with
    | create overlay =>
      cases hplan
      exact ⟨_, rfl, hcreate overlay, rfl⟩
    | _ => cases hplan
  | cache c base =>
    have hlevels : (CCoinsView.cache c base).levels =
        ⟨(CCoinsView.cache c base).peekCoin, c.hashBlock⟩ :: ⟨base.peekCoin, base.hashBlock⟩ ::
          base.under := by
      rw [← levels_eq base]
      rfl
    rw [hlevels] at hplan
    cases op with
    | getCoin o =>
      cases hplan
      have hfetched := fetchCoin_spec (s := ⟨c, base⟩) h o
      refine ⟨_, congrArg (fun coin => Except.ok (CoinsAnswer.coin coin, _)) hfetched.value,
        hfetched.valid, ?_⟩
      exact hfetched.levels.trans hlevels
    | addCoin o coin possibleOverwrite =>
      unfold planOp at hplan
      dsimp only at hplan
      split at hplan
      · rename_i hcoin
        split at hplan
        · cases hplan
        · rename_i hfree
          cases hplan
          obtain ⟨s', hadd, hvalid, hlevels'⟩ := addCoin_spec (s := ⟨c, base⟩) h o hcoin
            possibleOverwrite fun hno => by
              by_contra hsome
              exact hfree ⟨hno, Option.isSome_iff_ne_none.2 hsome⟩
          refine ⟨s'.view, ?_, hvalid, ?_⟩
          · show (CoinsStack.addCoin ⟨c, base⟩ o coin possibleOverwrite >>= _) = _
            rw [hadd]
            rfl
          · rw [hlevels', ← levels_eq base]
            rfl
      · cases hplan
    | spendCoin o =>
      cases hplan
      obtain ⟨hvalid, hlevels', hanswer, -⟩ := spendCoin_spec (s := ⟨c, base⟩) h o
      refine ⟨_, congrArg (fun coin => Except.ok (CoinsAnswer.coin coin, _)) hanswer, hvalid, ?_⟩
      rw [hlevels', ← levels_eq base]
      rfl
    | uncache o =>
      cases hplan
      obtain ⟨hvalid, hlevels'⟩ := uncache_spec (s := ⟨c, base⟩) h o
      exact ⟨_, rfl, hvalid, hlevels'.trans hlevels⟩
    | getBestBlock =>
      cases hplan
      obtain ⟨hhash, hvalid, hlevels', -⟩ := getBestBlock_spec h
      rw [hlevels] at hhash hlevels'
      exact ⟨_, congrArg (fun hash => Except.ok (CoinsAnswer.hash hash, _)) hhash, hvalid, hlevels'⟩
    | setBestBlock hashBlock =>
      cases hplan
      refine ⟨_, rfl, ⟨h.1, h.2.coherent, h.2.count⟩, ?_⟩
      rw [← levels_eq base]
      rfl
    | flush =>
      unfold planOp at hplan
      dsimp only at hplan
      split at hplan
      · cases hplan
      · rename_i haccepts
        cases hplan
        obtain ⟨s', hflush, hvalid, hlevels'⟩ := flush_spec (s := ⟨c, base⟩) h
          (accepts_of_levels haccepts)
        refine ⟨s'.view, ?_, hvalid, hlevels'⟩
        show (CoinsStack.flush ⟨c, base⟩ >>= _) = _
        rw [hflush]
        rfl
    | sync =>
      unfold planOp at hplan
      dsimp only at hplan
      split at hplan
      · cases hplan
      · rename_i haccepts
        cases hplan
        obtain ⟨s', hsync, hvalid, hlevels'⟩ := sync_spec (s := ⟨c, base⟩) h
          (accepts_of_levels haccepts)
        refine ⟨s'.view, ?_, hvalid, hlevels'⟩
        show (CoinsStack.sync ⟨c, base⟩ >>= _) = _
        rw [hsync]
        rfl
    | create overlay =>
      cases hplan
      refine ⟨_, rfl, ⟨h, coherent_empty, rfl⟩, ?_⟩
      rw [← hlevels]
      rfl
    | discard =>
      cases hplan
      refine ⟨_, rfl, h.1, ?_⟩
      rw [← levels_eq base]

/-- The operations one after another, with their answers. -/
def CCoinsView.run : List CoinsOp → CCoinsView → Except CoinsError (List CoinsAnswer × CCoinsView)
  | [], v => .ok ([], v)
  | op :: ops, v => do
    let (answer, v) ← v.performOp op
    let (answers, v) ← v.run ops
    return (answer :: answers, v)

/-- And on plain maps. -/
def planRun : List CoinsOp → List Level → Option (List CoinsAnswer × List Level)
  | [], levels => some ([], levels)
  | op :: ops, levels => do
    let (answer, levels) ← planOp op levels
    let (answers, levels) ← planRun ops levels
    return (answer :: answers, levels)

/-- **Caches are not seen**: whatever operations are made on caches of any number, none of the
    errors of the code is met unless a caller breaks a rule that plain maps have as well; the answers
    are those of plain maps; and every view stands for what its map has become. -/
theorem coins_refine {v : CCoinsView} (h : v.Valid) {ops : List CoinsOp}
    {answers : List CoinsAnswer} {levels : List Level}
    (hplan : planRun ops v.levels = some (answers, levels)) :
    ∃ v', v.run ops = .ok (answers, v') ∧ v'.Valid ∧ v'.levels = levels := by
  induction ops generalizing v answers levels with
  | nil =>
    cases hplan
    exact ⟨v, rfl, h, rfl⟩
  | cons op ops ih =>
    unfold planRun at hplan
    obtain ⟨⟨answer, levels₁⟩, hop, hrest⟩ := Option.bind_eq_some_iff.1 hplan
    obtain ⟨⟨answers', levels'⟩, hops, hpure⟩ := Option.bind_eq_some_iff.1 hrest
    cases hpure
    obtain ⟨v₁, hperform, hvalid₁, hlevels₁⟩ := performOp_spec h hop
    rw [← hlevels₁] at hops
    obtain ⟨v', hrun, hvalid', hlevels'⟩ := ih hvalid₁ hops
    refine ⟨v', ?_, hvalid', hlevels'⟩
    unfold CCoinsView.run
    rw [hperform]
    show (CCoinsView.run ops v₁ >>= _) = _
    rw [hrun]
    rfl

/-- A coin of block 1. -/
def firstCoin : Coin := ⟨⟨5000000000, [0x51]⟩, true, 1⟩

/-- It is made and spent in a cache over the tip's, which is then flushed. -/
def spentOps : List CoinsOp :=
  [.create false, .create true, .addCoin ⟨Hash.repeating 1, 0⟩ firstCoin false,
    .spendCoin ⟨Hash.repeating 1, 0⟩, .getBestBlock, .flush, .discard,
    .getCoin ⟨Hash.repeating 1, 0⟩]

theorem coins_refine_spent :
    ∃ v', (CCoinsView.db (fun _ => none) (Hash.repeating 2)).run spentOps =
      .ok ([.unit, .unit, .unit, .coin (some ⟨firstCoin, rfl⟩), .hash (Hash.repeating 2), .unit,
        .unit, .coin none], v') := by
  have hplan : ∃ levels, planRun spentOps (CCoinsView.db (fun _ => none) (Hash.repeating 2)).levels =
      some ([.unit, .unit, .unit, .coin (some ⟨firstCoin, rfl⟩), .hash (Hash.repeating 2), .unit,
        .unit, .coin none], levels) := ⟨_, rfl⟩
  obtain ⟨levels, hplan⟩ := hplan
  have hvalid : (CCoinsView.db (fun _ => none) (Hash.repeating 2)).Valid := trivial
  obtain ⟨v', hrun, -⟩ := coins_refine hvalid hplan
  exact ⟨v', hrun⟩

end SwiftBitcoinKernel
