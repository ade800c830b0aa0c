/-
  File:      SwiftBitcoinKernel/Sync/Honest.lean
  Subject:   Sync from an honest source that keeps growing: no gap, no repetition, no early stop.

  * `GrowingChain` -- the chains an honest, append-only source answers from, one for each call;
    `At i b` says that `b` is the block at height `i` of all of them that reach so far;
  * `HonestSource`, `TipKernel`, `honestEnv` -- the environment of such a run: the source, a kernel
    that makes a child of its tip its best entry, and no cancellation;
  * `Following` -- after `i` rounds from height `k`, the blocks `k + 1` to `k + i` have been
    processed and reported, and the remembered remote tip is the tip of an earlier chain;
  * `prepare_following`, `iteration_following` -- the loop keeps it;
  * `honest_run` -- what that says of whole runs.
-/
import Mathlib.Data.List.Nodup
import SwiftBitcoinKernel.Sync.Trace

namespace SwiftBitcoinKernel

open Logic

/-! ## 1. Growing chains -/

/-- The chains behind an honest source's successive answers. -/
structure GrowingChain where
  chain : Nat → List Block
  nonempty : ∀ j, chain j ≠ []
  grows : ∀ j, chain j <+: chain (j + 1)
  linked : ∀ j i b b', (chain j)[i]? = some b → (chain j)[i + 1]? = some b' →
    b'.header.prevHash = b.hash
  distinct : ∀ j, ((chain j).map Block.hash).Nodup

namespace GrowingChain

variable {G : GrowingChain} {i j : Nat} {b b' : Block}

/-- The height of the tip at the `j`-th call. -/
def top (G : GrowingChain) (j : Nat) : Nat := (G.chain j).length - 1

/-- `b` is the block at height `i`. -/
def At (G : GrowingChain) (i : Nat) (b : Block) : Prop := ∃ j, (G.chain j)[i]? = some b

theorem length_pos (G : GrowingChain) (j : Nat) : 0 < (G.chain j).length :=
  List.length_pos_iff.2 (G.nonempty j)

theorem prefix_of_le (h : i ≤ j) : G.chain i <+: G.chain j := by
  induction h with
  | refl => exact List.prefix_refl _
  | step _ ih => exact ih.trans (G.grows _)

theorem top_mono (h : i ≤ j) : G.top i ≤ G.top j := by
  have hlen := (prefix_of_le (G := G) h).length_le
  unfold top
  omega

theorem getElem?_of_le {n : Nat} (h : i ≤ j) (hb : (G.chain i)[n]? = some b) :
    (G.chain j)[n]? = some b := by
  obtain ⟨rest, hrest⟩ := prefix_of_le (G := G) h
  obtain ⟨hn, _⟩ := List.getElem?_eq_some_iff.1 hb
  rw [← hrest, List.getElem?_append_left hn]
  exact hb

/-- A height has one block. -/
theorem at_unique (h : G.At i b) (h' : G.At i b') : b = b' := by
  obtain ⟨j, hj⟩ := h
  obtain ⟨j', hj'⟩ := h'
  have hb := getElem?_of_le (Nat.le_max_left j j') hj
  have hb' := getElem?_of_le (Nat.le_max_right j j') hj'
  rw [hb] at hb'
  exact Option.some.inj hb'

/-- A block is in every chain that reaches its height. -/
theorem At.getElem? (h : G.At i b) (hi : i ≤ G.top j) : (G.chain j)[i]? = some b := by
  have hpos := G.length_pos j
  unfold top at hi
  obtain ⟨c, hc⟩ : ∃ c, (G.chain j)[i]? = some c := ⟨_, List.getElem?_eq_getElem (by omega)⟩
  rw [hc, at_unique h ⟨j, hc⟩]

theorem exists_at (hi : i ≤ G.top j) : ∃ b, G.At i b := by
  have hpos := G.length_pos j
  unfold top at hi
  exact ⟨_, j, List.getElem?_eq_getElem (by omega)⟩

/-- Each block names the one below it. -/
theorem At.prevHash (h : G.At i b) (h' : G.At (i + 1) b') : b'.header.prevHash = b.hash := by
  obtain ⟨j, hj⟩ := h'
  obtain ⟨hlt, _⟩ := List.getElem?_eq_some_iff.1 hj
  have htop : i ≤ G.top j := by
    unfold top
    omega
  exact G.linked j i b b' (h.getElem? htop) hj

/-- A block is found by its hash. -/
theorem At.find? (h : G.At i b) (hi : i ≤ G.top j) :
    (G.chain j).find? (fun c => decide (c.hash.val = b.hash.val)) = some b := by
  have hb : b ∈ G.chain j := List.mem_of_getElem? (h.getElem? hi)
  cases hfind : (G.chain j).find? (fun c => decide (c.hash.val = b.hash.val)) with
  | none =>
    have := List.find?_eq_none.1 hfind b hb
    simp at this
  | some c =>
    have hc : c ∈ G.chain j := List.mem_of_find?_eq_some hfind
    have hval := List.find?_some hfind
    have hhash : c.hash = b.hash := Subtype.ext (of_decide_eq_true hval)
    rw [List.inj_on_of_nodup_map (G.distinct j) hc hb hhash]

end GrowingChain

/-! ## 2. The environment of an honest run -/

/-- An honest, append-only source: its `j`-th call is answered from the `j`-th chain. Whether a tip
    carries a timestamp, and how errors read, is its own affair. -/
structure HonestSource extends GrowingChain where
  timestamp : Block → Option Nat
  errorDescription : SwiftError → Option String
  interpolation : SwiftError → String

/-- A kernel of which this much is known: in a state that is `Good`, a block of the chain that is
    the child of the best entry is accepted, and becomes the best entry. -/
structure TipKernel (G : GrowingChain) where
  State : Type
  bestEntry : State → BlockTreeEntry
  processBlock : Block → State → (Bool × Bool) × State
  Good : State → Prop
  connects : ∀ s b, Good s → G.At ((bestEntry s).height + 1) b →
    b.header.prevHash = (bestEntry s).hash →
    (processBlock b s).1.1 = true ∧
    bestEntry (processBlock b s).2 = ⟨b.hash, (bestEntry s).height + 1, b.header.timestamp⟩ ∧
    Good (processBlock b s).2

/-- The kernel, and the number of calls the source has answered. -/
structure HonestState (H : HonestSource) (K : TipKernel H.toGrowingChain) where
  kernel : K.State
  calls : Nat

variable {H : HonestSource} {K : TipKernel H.toGrowingChain}

/-- `bestTip()` at the `j`-th call. -/
def HonestSource.bestTip (H : HonestSource) (j : Nat) : Except SwiftError BlockTip :=
  match (H.chain j).getLast? with
  | some b => .ok ⟨b.hash, H.top j, H.timestamp b⟩
  | none => .error .notFound

/-- `blockHash(atHeight:)` at the `j`-th call. -/
def HonestSource.blockHash (H : HonestSource) (height : Int) (j : Nat) : Except SwiftError Data :=
  if height < 0 then .error .notFound
  else
    match (H.chain j)[height.toNat]? with
    | some b => .ok b.hash.val
    | none => .error .notFound

/-- `block(for:)` at the `j`-th call. -/
def HonestSource.block (H : HonestSource) (hash : Data) (j : Nat) : Except SwiftError Block :=
  match (H.chain j).find? fun b => decide (b.hash.val = hash) with
  | some b => .ok b
  | none => .error .notFound

/-- The environment of an uncancelled run against the two. -/
def honestEnv (H : HonestSource) (K : TipKernel H.toGrowingChain) : Environment where
  State := HonestState H K
  bestEntry s := K.bestEntry s.kernel
  isCancelled s := (false, s)
  bestTip s := (H.bestTip s.calls, { s with calls := s.calls + 1 })
  blockHash height s := (H.blockHash height s.calls, { s with calls := s.calls + 1 })
  block hash s := (H.block hash s.calls, { s with calls := s.calls + 1 })
  processBlock b s := ((K.processBlock b s.kernel).1,
    { s with kernel := (K.processBlock b s.kernel).2 })
  errorDescription := H.errorDescription
  interpolation := H.interpolation

/-- The tip the source names is the block at the top of its chain. -/
theorem bestTip_eq (H : HonestSource) (j : Nat) :
    ∃ b, H.At (H.top j) b ∧ H.bestTip j = .ok ⟨b.hash, H.top j, H.timestamp b⟩ := by
  obtain ⟨b, hb⟩ : ∃ b, (H.chain j).getLast? = some b :=
    ⟨_, List.getLast?_eq_getLast_of_ne_nil (H.nonempty j)⟩
  refine ⟨b, ⟨j, ?_⟩, ?_⟩
  · rw [← hb, List.getLast?_eq_getElem?]
    rfl
  · unfold HonestSource.bestTip
    rw [hb]

theorem blockHash_eq {i j : Nat} {b : Block} (h : H.At i b) (hi : i ≤ H.top j) :
    H.blockHash (i : Int) j = .ok b.hash.val := by
  unfold HonestSource.blockHash
  rw [if_neg (by omega), Int.toNat_natCast, h.getElem? hi]

theorem block_eq {i j : Nat} {b : Block} (h : H.At i b) (hi : i ≤ H.top j) :
    H.block b.hash.val j = .ok b := by
  unfold HonestSource.block
  rw [h.find? hi]

/-! ## 3. The parts of the body, where nothing fails -/

section Parts

variable {E : Environment} {env env' env₁ : E.State} {t : List Event} {p : Progress}
  {l r fresh : BlockTip}

theorem repoll_behind (h : l.height < r.height) (w : World E) : repoll l r w = (some r, w) := by
  unfold repoll
  rw [if_neg (by omega)]
  rfl

theorem repoll_grown (h : r.height ≤ l.height) (ha : E.bestTip env = (.ok fresh, env'))
    (hgt : l.height < fresh.height) :
    ∃ p', repoll l r ⟨env, t, p⟩ =
      (some fresh, ⟨env', t ++ [.repolled l (.ok fresh)], p'⟩) := by
  have hnot : ¬ fresh.height ≤ l.height := by omega
  refine ⟨{ p with totalUnitCount := fresh.height }, ?_⟩
  simp [repoll, h, repollTip, ask, ha, hnot, setTotal, World.log]

theorem repoll_done (h : r.height ≤ l.height) (ha : E.bestTip env = (.ok fresh, env'))
    (hle : fresh.height ≤ l.height) :
    repoll l r ⟨env, t, p⟩ = (none, ⟨env', t ++ [.repolled l (.ok fresh)] ++
      [.yield ⟨.finished, l, fresh⟩ p] ++ [.finish], p⟩) := by
  simp [repoll, h, repollTip, ask, ha, hle, yieldUpdate, finishAndReturn, finish, World.log]

theorem fetchNext_ok {hash : Data} {b : Block}
    (hh : E.blockHash (l.height + 1) env = (.ok hash, env₁))
    (hb : E.block hash env₁ = (.ok b, env')) :
    fetchNext l r ⟨env, t, p⟩ = (some b, ⟨env', t ++ [.blockHash (l.height + 1) (.ok hash)] ++
      [.block hash (.ok b)], p⟩) := by
  simp [fetchNext, blockHash, blockFor, ask, hh, hb, World.log]

theorem connectNext_ok {b : Block} {new : Bool} (hb : E.processBlock b env = ((true, new), env')) :
    ∃ p', connectNext l r b ⟨env, t, p⟩ = (some (E.bestEntry env').asTip,
      ⟨env', t ++ [.processBlock b true] ++
        [.yield ⟨.syncing, (E.bestEntry env').asTip, r⟩ p'], p'⟩) := by
  refine ⟨{ p with completedUnitCount := (E.bestEntry env').asTip.height }, ?_⟩
  simp [connectNext, processBlock, ask, hb, readLocalTip, setCompleted, yieldUpdate, World.log]

theorem prepare_resolved (hl : (E.bestEntry env).asTip = l)
    (ha : E.bestTip env = (.ok fresh, env')) :
    prepare ⟨env, [], p⟩ =
      Exit.andThen (forkPointCheck l fresh
        ⟨env', [.yield ⟨.preparing, l, unknownRemoteTip⟩ p, .resolved (.ok fresh)], p⟩)
        fun _ w => (some (l, fresh), { w with progress := ⟨fresh.height, l.height⟩ }) := by
  simp [prepare, readLocalTip, yieldUpdate, resolveTip, ask, ha, hl, World.log]
  rfl

theorem forkPointCheck_genesis (h : l.height ≤ 0) (w : World E) :
    forkPointCheck l r w = (some (), w) := by
  unfold forkPointCheck
  rw [if_neg (by omega)]
  rfl

theorem forkPointCheck_ok (h : 0 < l.height) (hr : l.height ≤ r.height)
    (hh : E.blockHash l.height env = (.ok l.hash.val, env')) :
    forkPointCheck l r ⟨env, t, p⟩ =
      (some (), ⟨env', t ++ [.blockHash l.height (.ok l.hash.val)], p⟩) := by
  have hnot : ¬ r.height < l.height := by omega
  simp [forkPointCheck, h, hnot, blockHash, ask, hh, World.log]

end Parts

/-! ## 4. Following the chain -/

/-- The blocks handed to the kernel, with its verdicts. -/
def processed (trace : List Event) : List (Block × Bool) :=
  trace.filterMap fun
    | .processBlock block success => some (block, success)
    | _ => none

/-- The answers of `bestTip()`. -/
def tipAnswers (trace : List Event) : List (Except SwiftError BlockTip) :=
  trace.filterMap fun
    | .resolved answer => some answer
    | .repolled _ answer => some answer
    | _ => none

/-- The tip heights of the `.syncing` updates. -/
def syncingHeights (trace : List Event) : List Int :=
  ((updates trace).filter fun u => decide (u.state = .syncing)).map fun u => u.tip.height

/-- The blocks `k + 1` to `k + i` have been processed, each once and in order, and each reported. -/
structure Synced (G : GrowingChain) (k i : Nat) (trace : List Event) : Prop where
  blocks : ∃ bs : List Block, processed trace = bs.map (fun b => (b, true)) ∧ bs.length = i ∧
    ∀ n b, bs[n]? = some b → G.At (k + 1 + n) b
  heights : syncingHeights trace = (List.range' (k + 1) i).map fun n : Nat => (n : Int)
  unfailed : ∀ u ∈ updates trace, u.state.isFailed = false

/-- The state of a run after `i` rounds from height `k`: the kernel is at height `k + i`, and the
    remembered remote tip, the latest answer, is the top of an earlier chain and not below. -/
structure Following (H : HonestSource) (K : TipKernel H.toGrowingChain) (k i : Nat)
    (l r : BlockTip) (s : HonestState H K) (trace : List Event) : Prop
    extends Synced H.toGrowingChain k i trace where
  good : K.Good s.kernel
  height : (K.bestEntry s.kernel).height = k + i
  block : ∃ b, H.At (k + i) b ∧ (K.bestEntry s.kernel).hash = b.hash
  localTip : l = (K.bestEntry s.kernel).asTip
  remoteTip : ∃ j b, j < s.calls ∧ H.At (H.top j) b ∧ r.hash = b.hash ∧ r.height = H.top j ∧
    k + i ≤ H.top j
  answer : (tipAnswers trace).getLast? = some (.ok r)

/-- A run that has ended: on `.finished`, with the same block as local and as remote tip, which is
    the one the source named last. -/
structure CaughtUp (H : HonestSource) (k i : Nat) (trace : List Event) : Prop
    extends Synced H.toGrowingChain k i trace where
  finished : ∃ u b, (updates trace).getLast? = some u ∧ u.state = .finished ∧
    H.At (k + i) b ∧ u.tip.hash = b.hash ∧ u.tip.height = ((k + i : Nat) : Int) ∧
    u.remoteTip.SameBlock u.tip ∧ (tipAnswers trace).getLast? = some (.ok u.remoteTip)

/-- An event that is no update, no block and no tip answer. -/
def Event.isLookup : Event → Bool
  | .isCancelled _ | .blockHash .. | .block .. => true
  | _ => false

theorem synced_append {G : GrowingChain} {k i : Nat} {trace : List Event} {e : Event}
    (h : Synced G k i trace) (hp : processed [e] = []) (hs : syncingHeights [e] = [])
    (hf : ∀ u ∈ updates [e], u.state.isFailed = false) : Synced G k i (trace ++ [e]) := by
  refine ⟨?_, ?_, ?_⟩
  · unfold processed at hp ⊢
    rw [List.filterMap_append, hp, List.append_nil]
    exact h.blocks
  · have hheights := h.heights
    unfold syncingHeights at hs hheights ⊢
    rw [updates_append, List.filter_append, List.map_append, hs, List.append_nil]
    exact hheights
  · intro u hu
    rw [updates_append] at hu
    rcases List.mem_append.1 hu with hu | hu
    · exact h.unfailed u hu
    · exact hf u hu

/-- An event that is no update and no block. -/
theorem synced_silent {G : GrowingChain} {k i : Nat} {trace : List Event} {e : Event}
    (h : Synced G k i trace) (hp : processed [e] = []) (hu : updates [e] = []) :
    Synced G k i (trace ++ [e]) := by
  refine synced_append h hp ?_ ?_
  · unfold syncingHeights
    rw [hu]
    rfl
  · rw [hu]
    exact fun u hu => absurd hu List.not_mem_nil

/-- One more block processed and reported. -/
theorem synced_connected {G : GrowingChain} {k i : Nat} {trace : List Event} {b : Block}
    {tip : BlockTip} (h : Synced G k i trace) (hb : G.At (k + i + 1) b)
    (htip : tip.height = ((k + 1 + i : Nat) : Int)) (r : BlockTip) (p : Progress) :
    Synced G k (i + 1) (trace ++ [.processBlock b true] ++ [.yield ⟨.syncing, tip, r⟩ p]) := by
  refine ⟨?_, ?_, ?_⟩
  · obtain ⟨bs, hbs, hlen, hats⟩ := h.blocks
    refine ⟨bs ++ [b], ?_, by simp [hlen], ?_⟩
    · unfold processed at hbs ⊢
      rw [List.filterMap_append, List.filterMap_append, hbs]
      simp
    · intro n c hc
      by_cases hn : n < bs.length
      · rw [List.getElem?_append_left hn] at hc
        exact hats n c hc
      · rw [List.getElem?_append_right (by omega)] at hc
        obtain ⟨hlt, heq⟩ := List.getElem?_eq_some_iff.1 hc
        rw [List.length_singleton] at hlt
        have hni : k + 1 + n = k + i + 1 := by omega
        have hcb : c = b := by simpa using heq.symm
        rw [hcb, hni]
        exact hb
  · have hheights := h.heights
    unfold syncingHeights at hheights ⊢
    rw [List.range'_1_concat, List.map_append, ← hheights, updates_append, updates_append,
      List.filter_append, List.map_append, List.filter_append, List.map_append]
    show _ ++ [] ++ [tip.height] = _
    rw [List.append_nil, htip]
    rfl
  · intro u hu
    rw [updates_append, updates_append] at hu
    rcases List.mem_append.1 hu with hu | hu
    · rcases List.mem_append.1 hu with hu | hu
      · exact h.unfailed u hu
      · cases hu
    · rw [List.mem_singleton.1 hu]
      rfl

theorem lookup_reads {e : Event} (he : e.isLookup = true) :
    processed [e] = [] ∧ updates [e] = [] ∧ tipAnswers [e] = [] := by
  cases e with
  | isCancelled _ | blockHash _ _ | block _ _ => exact ⟨rfl, rfl, rfl⟩
  | _ => cases he

/-- Lookups and the calls they take leave a run where it is. -/
theorem following_lookup {k i : Nat} {l r : BlockTip} {s : HonestState H K} {trace : List Event}
    {e : Event} (h : Following H K k i l r s trace) (he : e.isLookup = true) {calls : Nat}
    (hcalls : s.calls ≤ calls) : Following H K k i l r ⟨s.kernel, calls⟩ (trace ++ [e]) := by
  obtain ⟨hprocessed, hupdates, hanswers⟩ := lookup_reads he
  refine { synced_silent h.toSynced hprocessed hupdates, h with remoteTip := ?_, answer := ?_ }
  · obtain ⟨j, b, hj, hrest⟩ := h.remoteTip
    exact ⟨j, b, Nat.lt_of_lt_of_le hj hcalls, hrest⟩
  · have hanswer := h.answer
    unfold tipAnswers at hanswers hanswer ⊢
    rw [List.filterMap_append, hanswers, List.append_nil]
    exact hanswer

theorem Following.local_height {k i : Nat} {l r : BlockTip} {s : HonestState H K}
    {trace : List Event} (h : Following H K k i l r s trace) :
    l.height = ((k + i : Nat) : Int) := by
  rw [h.localTip, ← h.height]
  rfl

/-- A re-poll that names the local tip ends the run. -/
theorem caughtUp_finished {k i : Nat} {l r t : BlockTip} {s : HonestState H K}
    {trace : List Event} (h : Following H K k i l r s trace) (ht : t.SameBlock l) (p : Progress) :
    CaughtUp H k i (trace ++ [Event.repolled l (.ok t)] ++ [Event.yield ⟨.finished, l, t⟩ p] ++
      [Event.finish]) := by
  have hpolled := synced_silent (e := .repolled l (.ok t)) h.toSynced rfl rfl
  have hyielded := synced_append (e := .yield ⟨.finished, l, t⟩ p) hpolled rfl rfl
    (by simp [updates, Event.update?, UpdateState.isFailed])
  have hclosed := synced_silent (e := .finish) hyielded rfl rfl
  obtain ⟨b, hb, hhash⟩ := h.block
  refine { hclosed with
    finished := ⟨⟨.finished, l, t⟩, b, ?_, rfl, hb, ?_, h.local_height, ht, ?_⟩ }
  · rw [updates_append, updates_append]
    show (_ ++ [_] ++ []).getLast? = _
    rw [List.append_nil]
    exact List.getLast?_concat
  · rw [h.localTip]
    exact hhash
  · simp [tipAnswers]

/-- The answer to a re-poll: the source has grown past the local tip, or is level with it. -/
theorem repoll_following {k i : Nat} {l r : BlockTip} {s : HonestState H K} {trace : List Event}
    {p : Progress} (h : Following H K k i l r s trace) :
    (∃ r' s' t' p', repoll (E := honestEnv H K) l r ⟨s, trace, p⟩ = (some r', ⟨s', t', p'⟩) ∧
      Following H K k i l r' s' t' ∧ l.height < r'.height) ∨
    (∃ s' t' p', repoll (E := honestEnv H K) l r ⟨s, trace, p⟩ = (none, ⟨s', t', p'⟩) ∧
      CaughtUp H k i t') := by
  have hlocal := h.local_height
  by_cases hbehind : l.height < r.height
  · exact .inl ⟨r, s, trace, p, repoll_behind hbehind _, h, hbehind⟩
  have hlevel : r.height ≤ l.height := by omega
  obtain ⟨j, _, hj, _, _, _, hreach⟩ := h.remoteTip
  have htop : k + i ≤ H.top s.calls := Nat.le_trans hreach (H.top_mono (Nat.le_of_lt hj))
  obtain ⟨b, hb, hanswer⟩ := bestTip_eq H s.calls
  have hask : (honestEnv H K).bestTip s =
      (.ok ⟨b.hash, H.top s.calls, H.timestamp b⟩, ⟨s.kernel, s.calls + 1⟩) :=
    Prod.ext hanswer rfl
  by_cases hgrown : l.height < (H.top s.calls : Int)
  · -- the source has grown: go on with its new tip
    obtain ⟨p', hrun⟩ := repoll_grown (t := trace) (p := p) hlevel hask hgrown
    refine .inl ⟨_, _, _, p', hrun, ?_, hgrown⟩
    have hsynced := synced_silent (e := .repolled l (.ok ⟨b.hash, H.top s.calls, H.timestamp b⟩))
      h.toSynced rfl rfl
    refine { hsynced, h with remoteTip := ?_, answer := ?_ }
    · exact ⟨s.calls, b, Nat.lt_succ_self _, hb, rfl, rfl, htop⟩
    · unfold tipAnswers
      rw [List.filterMap_append]
      exact List.getLast?_concat
  · -- it has not, so the tip it names is the local tip
    have htopeq : H.top s.calls = k + i := by omega
    refine .inr ⟨_, _, p, repoll_done (t := trace) (p := p) hlevel hask ?_, ?_⟩
    · show (H.top s.calls : Int) ≤ l.height
      omega
    obtain ⟨b', hb', hhash⟩ := h.block
    rw [htopeq] at hb
    have hbb : b = b' := H.at_unique hb hb'
    refine caughtUp_finished h ⟨?_, ?_⟩ p
    · rw [h.localTip, hbb]
      exact hhash.symm
    · rw [hlocal, htopeq]

/-- The next block is where the source says it is. -/
theorem fetchNext_following {k i : Nat} {l r : BlockTip} {s : HonestState H K} {trace : List Event}
    {p : Progress} (h : Following H K k i l r s trace) (hbehind : l.height < r.height) :
    ∃ b s' t', fetchNext (E := honestEnv H K) l r ⟨s, trace, p⟩ = (some b, ⟨s', t', p⟩) ∧
      Following H K k i l r s' t' ∧ H.At (k + i + 1) b := by
  have hlocal := h.local_height
  obtain ⟨j, _, hj, _, _, hr, _⟩ := h.remoteTip
  have hreach : k + i + 1 ≤ H.top j := by omega
  obtain ⟨b, hb⟩ := GrowingChain.exists_at (G := H.toGrowingChain) hreach
  have hnow : k + i + 1 ≤ H.top s.calls := Nat.le_trans hreach (H.top_mono (Nat.le_of_lt hj))
  have hthen : k + i + 1 ≤ H.top (s.calls + 1) := Nat.le_trans hnow (H.top_mono (Nat.le_succ _))
  have hnext : l.height + 1 = ((k + i + 1 : Nat) : Int) := by omega
  have hhash : (honestEnv H K).blockHash (l.height + 1) s =
      (.ok b.hash.val, ⟨s.kernel, s.calls + 1⟩) := by
    rw [hnext]
    exact Prod.ext (blockHash_eq hb hnow) rfl
  have hblock : (honestEnv H K).block b.hash.val ⟨s.kernel, s.calls + 1⟩ =
      (.ok b, ⟨s.kernel, s.calls + 2⟩) := Prod.ext (block_eq hb hthen) rfl
  refine ⟨b, _, _, fetchNext_ok (t := trace) (p := p) hhash hblock, ?_, hb⟩
  exact following_lookup (s := ⟨s.kernel, s.calls + 1⟩) (following_lookup h rfl (Nat.le_succ _)) rfl
    (Nat.le_succ _)

/-- The kernel connects it, and the run reports it. -/
theorem connectNext_following {k i : Nat} {l r : BlockTip} {s : HonestState H K}
    {trace : List Event} {p : Progress} {b : Block} (h : Following H K k i l r s trace)
    (hbehind : l.height < r.height) (hb : H.At (k + i + 1) b) :
    ∃ l' s' t' p', connectNext (E := honestEnv H K) l r b ⟨s, trace, p⟩ =
      (some l', ⟨s', t', p'⟩) ∧ Following H K k (i + 1) l' r s' t' := by
  have hlocal := h.local_height
  obtain ⟨b₀, hb₀, hhash⟩ := h.block
  have hat : H.At ((K.bestEntry s.kernel).height + 1) b := by
    rw [h.height]
    exact hb
  obtain ⟨hok, hentry, hgood⟩ := K.connects s.kernel b h.good hat (by
    rw [hhash]
    exact hb₀.prevHash hb)
  have hprocess : (honestEnv H K).processBlock b s =
      ((true, (K.processBlock b s.kernel).1.2), ⟨(K.processBlock b s.kernel).2, s.calls⟩) :=
    Prod.ext (Prod.ext hok rfl) rfl
  obtain ⟨p', hrun⟩ := connectNext_ok (l := l) (r := r) (t := trace) (p := p) hprocess
  refine ⟨_, _, _, p', hrun, ?_⟩
  have hheight : (K.bestEntry (K.processBlock b s.kernel).2).height = k + (i + 1) := by
    rw [hentry]
    show (K.bestEntry s.kernel).height + 1 = _
    rw [h.height, Nat.add_assoc]
  have htip : (K.bestEntry (K.processBlock b s.kernel).2).asTip.height =
      ((k + 1 + i : Nat) : Int) := by
    show (((K.bestEntry (K.processBlock b s.kernel).2).height : Nat) : Int) = _
    rw [hheight]
    omega
  have hsynced := synced_connected h.toSynced hb htip r p'
  refine { hsynced with
    good := hgood, height := hheight, block := ⟨b, ?_, ?_⟩, localTip := rfl, remoteTip := ?_,
    answer := ?_ }
  · rw [← Nat.add_assoc]
    exact hb
  · show (K.bestEntry (K.processBlock b s.kernel).2).hash = b.hash
    rw [hentry]
  · obtain ⟨j, c, hj, hc, hrhash, hrheight, _⟩ := h.remoteTip
    exact ⟨j, c, hj, hc, hrhash, hrheight, by omega⟩
  · have hanswer := h.answer
    unfold tipAnswers at hanswer ⊢
    rw [List.filterMap_append, List.filterMap_append]
    simpa using hanswer

/-- The assertion of the loop after `i` rounds, and what it leaves when it returns. -/
def FollowingAt (H : HonestSource) (K : TipKernel H.toGrowingChain) (k i : Nat)
    (tips : BlockTip × BlockTip) (w : World (honestEnv H K)) : Prop :=
  Following H K k i tips.1 tips.2 w.env w.trace

def HasCaughtUp (H : HonestSource) (K : TipKernel H.toGrowingChain) (k : Nat)
    (w : World (honestEnv H K)) : Prop :=
  ∃ i, CaughtUp H k i w.trace

/-- **One round**: the next block is fetched, connected and reported, or the run has caught up. -/
theorem iteration_following (k i : Nat) (tips : BlockTip × BlockTip) :
    Triple (FollowingAt H K k i tips) (iteration tips) (FollowingAt H K k (i + 1))
      (HasCaughtUp H K k) := by
  obtain ⟨l, r⟩ := tips
  rintro ⟨s, t, p⟩ h
  have hcancel : Following H K k i l r s (t ++ [.isCancelled false]) :=
    following_lookup h rfl (Nat.le_refl _)
  show Leaves (Exit.andThen (repoll (E := honestEnv H K) l r ⟨s, t ++ [.isCancelled false], p⟩) _)
    _ _
  rcases repoll_following (p := p) hcancel with
    ⟨r', s₁, t₁, p₁, hrepoll, h₁, hbehind⟩ | ⟨s₁, t₁, p₁, hrepoll, hdone⟩
  · obtain ⟨b, s₂, t₂, hfetch, h₂, hb⟩ := fetchNext_following (p := p₁) h₁ hbehind
    obtain ⟨l', s₃, t₃, p₃, hconnect, h₃⟩ := connectNext_following (p := p₁) h₂ hbehind hb
    rw [hrepoll]
    show Leaves (Exit.andThen (fetchNext (E := honestEnv H K) l r' ⟨s₁, t₁, p₁⟩) _) _ _
    rw [hfetch]
    show Leaves (Exit.andThen (connectNext (E := honestEnv H K) l r' b ⟨s₂, t₂, p₁⟩) _) _ _
    rw [hconnect]
    exact h₃
  · rw [hrepoll]
    exact ⟨i, hdone⟩

/-- Before the loop: the source's tip is not below the local one, and the fork-point check, where
    it is made, finds the local block. -/
theorem prepare_following (k : Nat) {s : K.State} (hgood : K.Good s)
    (hheight : (K.bestEntry s).height = k)
    (hblock : ∃ b, (H.chain 0)[k]? = some b ∧ (K.bestEntry s).hash = b.hash) :
    Triple (fun w : World (honestEnv H K) => w.env = ⟨s, 0⟩ ∧ w.trace = []) prepare
      (FollowingAt H K k 0) (HasCaughtUp H K k) := by
  rintro ⟨env, t, p⟩ ⟨henv, ht⟩
  cases henv
  cases ht
  obtain ⟨b, hb, hhash⟩ := hblock
  obtain ⟨hlt, _⟩ := List.getElem?_eq_some_iff.1 hb
  have hat : H.At k b := ⟨0, hb⟩
  have htop : k ≤ H.top 0 := by
    unfold GrowingChain.top
    omega
  obtain ⟨c, hc, hanswer⟩ := bestTip_eq H 0
  have hlocal : (K.bestEntry s).asTip.height = (k : Int) := by
    rw [← hheight]
    rfl
  have hlhash : (K.bestEntry s).asTip.hash = b.hash := hhash
  -- the run up to the answer of the first `bestTip()`
  have hresolved : Following H K k 0 (K.bestEntry s).asTip ⟨c.hash, H.top 0, H.timestamp c⟩
      ⟨s, 1⟩ [.yield ⟨.preparing, (K.bestEntry s).asTip, unknownRemoteTip⟩ p,
        .resolved (.ok ⟨c.hash, H.top 0, H.timestamp c⟩)] := by
    refine { good := hgood, height := hheight, block := ⟨b, hat, hhash⟩, localTip := rfl,
             remoteTip := ⟨0, c, Nat.zero_lt_one, hc, rfl, rfl, htop⟩, answer := rfl,
             blocks := ⟨[], rfl, rfl, nofun⟩, heights := rfl, unfailed := ?_ }
    intro u hu
    rw [List.mem_singleton.1 hu]
    rfl
  have hask : (honestEnv H K).bestTip ⟨s, 0⟩ =
      (.ok ⟨c.hash, H.top 0, H.timestamp c⟩, ⟨s, 1⟩) := Prod.ext hanswer rfl
  obtain ⟨l, hl⟩ : ∃ l, (K.bestEntry s).asTip = l := ⟨_, rfl⟩
  have hentry : ((honestEnv H K).bestEntry ⟨s, 0⟩).asTip = l := hl
  rw [hl] at hlocal hlhash hresolved
  rw [prepare_resolved hentry hask]
  by_cases hgenesis : k = 0
  · rw [forkPointCheck_genesis (by omega)]
    exact hresolved
  · have hone : k ≤ H.top 1 := Nat.le_trans htop (H.top_mono (Nat.zero_le 1))
    have hcheck : (honestEnv H K).blockHash l.height ⟨s, 1⟩ = (.ok l.hash.val, ⟨s, 2⟩) := by
      rw [hlocal, hlhash]
      exact Prod.ext (blockHash_eq hat hone) rfl
    have hle : l.height ≤ ((H.top 0 : Nat) : Int) := by omega
    rw [forkPointCheck_ok (by omega) hle hcheck]
    exact following_lookup hresolved rfl (Nat.le_succ _)

/-- **Honest runs.** Against an honest source that may grow between any two calls, and a kernel at
    height `k` of its chain: after every number of rounds, the blocks handed to the kernel are the
    blocks `k + 1`, `k + 2`, … of the chain, each once, in order and accepted; the `.syncing`
    updates carry just these heights; and none is `.failed`. A run that goes on has connected one
    block in each round. A run that has ended has ended on `.finished`, with the block at height
    `m = k + i` as local and as remote tip, `m` being the height the source named last. -/
theorem honest_run (H : HonestSource) (K : TipKernel H.toGrowingChain) (k : Nat) (s : K.State)
    (hgood : K.Good s) (hheight : (K.bestEntry s).height = k)
    (hblock : ∃ b, (H.chain 0)[k]? = some b ∧ (K.bestEntry s).hash = b.hash) (n : Nat)
    (progress : Progress) :
    let r := run (honestEnv H K) n ⟨s, 0⟩ progress
    ∃ i, Synced H.toGrowingChain k i r.2.trace ∧ (r.1 ≠ none → i = n) ∧
      (r.1 = none → CaughtUp H k i r.2.trace) := by
  intro r
  have hloop := triple_iter (I := FollowingAt H K k) (iteration_following k) n 0
  rw [Nat.zero_add] at hloop
  have hleaves : Leaves r (FollowingAt H K k n) (HasCaughtUp H K k) :=
    triple_bind (prepare_following k hgood hheight hblock) hloop ⟨⟨s, 0⟩, [], progress⟩ ⟨rfl, rfl⟩
  cases hr : r with
  | mk o w =>
    rw [hr] at hleaves
    cases o with
    | some tips => exact ⟨n, hleaves.toSynced, fun _ => rfl, fun h => nomatch h⟩
    | none =>
      obtain ⟨i, hi⟩ := hleaves
      exact ⟨i, hi.toSynced, fun h => absurd rfl h, fun _ => hi⟩

/-! ## 5. A source that reveals its chain block by block -/

/-- The chains of a source that has one more block of `bs` at every call. -/
def GrowingChain.reveal (bs : List Block) (hne : bs ≠ [])
    (hlinked : ∀ i b b', bs[i]? = some b → bs[i + 1]? = some b' → b'.header.prevHash = b.hash)
    (hdistinct : (bs.map Block.hash).Nodup) : GrowingChain where
  chain j := bs.take (j + 1)
  nonempty j := by
    rw [Ne, List.take_eq_nil_iff]
    exact fun h => h.elim (Nat.succ_ne_zero j) hne
  grows j := List.take_prefix_take_left (Nat.le_succ (j + 1))
  linked j i b b' hb hb' := by
    rw [List.getElem?_take] at hb hb'
    split at hb
    · split at hb'
      · exact hlinked i b b' hb hb'
      · cases hb'
    · cases hb
  distinct j := hdistinct.sublist ((List.take_sublist _ _).map _)

/-- A kernel that takes every block it is handed for the child of its best entry. -/
def followingKernel (G : GrowingChain) : TipKernel G where
  State := BlockTreeEntry
  bestEntry s := s
  processBlock b s := ((true, true), ⟨b.hash, s.height + 1, b.header.timestamp⟩)
  Good _ := True
  connects _ _ _ _ _ := ⟨rfl, rfl, trivial⟩

/-- Three blocks, revealed one by one. -/
def threeBlocks : HonestSource where
  toGrowingChain := .reveal
    [⟨⟨Hash.repeating 0, Hash.repeating 0, 0, 0⟩, []⟩,
      ⟨⟨Hash.repeating 1, Hash.repeating 0, 1, 0⟩, []⟩,
      ⟨⟨Hash.repeating 2, Hash.repeating 1, 2, 0⟩, []⟩] (by simp)
    (by
      intro i b b' hb hb'
      match i with
      | 0 => cases hb; cases hb'; rfl
      | 1 => cases hb; cases hb'; rfl
      | 2 => cases hb'
      | i + 3 => cases hb)
    (by decide)
  timestamp _ := none
  errorDescription _ := none
  interpolation _ := ""

theorem honest_run_three_blocks :
    let r := run (honestEnv threeBlocks (followingKernel _)) 3 ⟨⟨Hash.repeating 0, 0, 0⟩, 0⟩ ⟨0, 0⟩
    ∃ i, Synced threeBlocks.toGrowingChain 0 i r.2.trace ∧ (r.1 ≠ none → i = 3) ∧
      (r.1 = none → CaughtUp threeBlocks 0 i r.2.trace) :=
  honest_run threeBlocks (followingKernel _) 0 ⟨Hash.repeating 0, 0, 0⟩ trivial rfl
    ⟨⟨⟨Hash.repeating 0, Hash.repeating 0, 0, 0⟩, []⟩, rfl, rfl⟩ 3 ⟨0, 0⟩

/-- The source grows under the run, which catches up after two blocks. -/
example : (updates (run (honestEnv threeBlocks (followingKernel _)) 3
    ⟨⟨Hash.repeating 0, 0, 0⟩, 0⟩ ⟨0, 0⟩).2.trace).map (fun u => (u.state, u.tip.height)) =
    [(.preparing, 0), (.syncing, 1), (.syncing, 2), (.finished, 2)] := by
  decide

end SwiftBitcoinKernel
