/-
  File:      SwiftBitcoinKernel/Kernel/Chain.lean
  Subject:   chain.cpp: pointers that skip ancestors, and the active chain as a vector.

  Every entry of the block index has a pointer to its parent and one to an ancestor further back.
  `GetAncestor` and `LastCommonAncestor` go back by either. `CChain` has the active chain as a vector
  by height, of which `SetTip` rewrites only the part that changes. Both are proved against the plain
  line of ancestors, which is what the model of the chain manager uses.

  * `CBlockIndex`, `getAncestor`, `link` -- the entry with both pointers, `BuildSkip` included;
  * `Points` -- a node stands for an entry; `getAncestor_points`, `link_points`;
  * `lastCommonAncestor`, `setTip`, `findFork` -- the functions of those names;
  * `skip_pointers`, `last_common_ancestor`, `active_chain` -- they agree with the plain line, for
    every tree and every run.
-/
import SwiftBitcoinKernel.Logic.Ancestry
import SwiftBitcoinKernel.Kernel.Chainman

namespace SwiftBitcoinKernel

open Logic

/-! ## 1. Skip pointers -/

/-- `CBlockIndex`, with `pprev` and `pskip`. The first block has neither. -/
inductive CBlockIndex where
  | genesis (header : BlockHeader)
  | next (pprev pskip : CBlockIndex) (header : BlockHeader)
  deriving DecidableEq

/-- `InvertLowestOne`. -/
def invertLowestOne (n : Nat) : Nat := n &&& (n - 1)

/-- `GetSkipHeight`. -/
def getSkipHeight (height : Nat) : Nat :=
  if height < 2 then 0
  else if height % 2 = 1 then invertLowestOne (invertLowestOne (height - 1)) + 1
  else invertLowestOne height

namespace CBlockIndex

/-- `nHeight`. -/
def nHeight : CBlockIndex → Nat
  | genesis _ => 0
  | next pprev _ _ => pprev.nHeight + 1

/-- The loop of `GetAncestor`: `none` where `assert(pindexWalk->pprev)` fails. -/
def walk (height : Nat) : CBlockIndex → Nat → Option CBlockIndex
  | genesis header, heightWalk => if heightWalk > height then none else some (genesis header)
  | next pprev pskip header, heightWalk =>
    if heightWalk > height then
      let heightSkip := getSkipHeight heightWalk
      let heightSkipPrev := getSkipHeight (heightWalk - 1)
      if heightSkip = height ∨ heightSkip > height ∧
          ¬((heightSkipPrev : Int) < (heightSkip : Int) - 2 ∧ heightSkipPrev ≥ height) then
        pskip.walk height heightSkip
      else pprev.walk height (heightWalk - 1)
    else some (next pprev pskip header)

/-- `GetAncestor`. -/
def getAncestor (x : CBlockIndex) (height : Int) : Option CBlockIndex :=
  if height > x.nHeight ∨ height < 0 then none else x.walk height.toNat x.nHeight

/-- A new entry, with `BuildSkip`: `none` where `pskip` would be null. -/
def link (pprev : CBlockIndex) (header : BlockHeader) : Option CBlockIndex :=
  (pprev.getAncestor (getSkipHeight (pprev.nHeight + 1))).map (next pprev · header)

/-- The node of an entry, built from genesis on. -/
def ofEntry : BlockIndex → Option CBlockIndex
  | .root header => some (genesis header)
  | .child p header => (ofEntry p).bind (link · header)

/-- **A node stands for an entry**: its pointers lead to the nodes of the parent and of the ancestor
    at the skip height. -/
def Points : CBlockIndex → BlockIndex → Prop
  | genesis header, x => x = .root header
  | next pprev pskip header, x => ∃ p, x = .child p header ∧ pprev.Points p ∧
      pskip.Points (p.ancestor (getSkipHeight (p.depth + 1)))

variable {c c' : CBlockIndex} {x y : BlockIndex} {header : BlockHeader}

theorem Points.nHeight_eq (h : c.Points x) : c.nHeight = x.depth := by
  induction c generalizing x with
  | genesis header =>
    cases h
    rfl
  | next pprev pskip header ih =>
    obtain ⟨p, rfl, hprev, -⟩ := h
    exact congrArg (· + 1) (ih hprev)

/-- A node stands for one entry only. -/
theorem Points.entry_unique (h : c.Points x) (h' : c.Points y) : x = y := by
  induction c generalizing x y with
  | genesis header => exact h.trans h'.symm
  | next pprev pskip header ih =>
    obtain ⟨p, rfl, hprev, -⟩ := h
    obtain ⟨q, rfl, hprev', -⟩ := h'
    rw [ih hprev hprev']

/-- An entry has one node only: pointers are equal where entries are. -/
theorem Points.node_unique (h : c.Points x) (h' : c'.Points x) : c = c' := by
  induction c generalizing x c' with
  | genesis header =>
    cases h
    cases c' with
    | genesis header' =>
      cases h'
      rfl
    | next pprev pskip header' =>
      obtain ⟨p, heq, -⟩ := h'
      cases heq
  | next pprev pskip header ihprev ihskip =>
    obtain ⟨p, rfl, hprev, hskip⟩ := h
    cases c' with
    | genesis header' => cases h'
    | next pprev' pskip' header' =>
      obtain ⟨q, heq, hprev', hskip'⟩ := h'
      cases heq
      rw [ihprev hprev hprev', ihskip hskip hskip']

theorem Points.eq_iff (h : c.Points x) (h' : c'.Points y) : c = c' ↔ x = y := by
  constructor
  · intro heq
    rw [heq] at h
    exact h.entry_unique h'
  · intro heq
    rw [heq] at h
    exact h.node_unique h'

theorem invertLowestOne_lt {n : Nat} (h : 0 < n) : invertLowestOne n < n := by
  have hle : n &&& (n - 1) ≤ n - 1 := Nat.and_le_right
  unfold invertLowestOne
  omega

theorem getSkipHeight_lt {n : Nat} (h : 0 < n) : getSkipHeight n < n := by
  unfold getSkipHeight
  split
  · exact h
  · split
    · have hfirst : invertLowestOne (n - 1) < n - 1 := invertLowestOne_lt (by omega)
      have hle : invertLowestOne (invertLowestOne (n - 1)) ≤ invertLowestOne (n - 1) :=
        Nat.and_le_left
      omega
    · exact invertLowestOne_lt h

/-- **The walk** ends at the ancestor, whichever pointers it takes. -/
theorem walk_points {height : Nat} (h : c.Points x) (hle : height ≤ x.depth) :
    ∃ c', c.walk height x.depth = some c' ∧ c'.Points (x.ancestor height) := by
  induction c generalizing x with
  | genesis header =>
    cases h
    exact ⟨genesis header, if_neg (Nat.not_lt_zero _), rfl⟩
  | next pprev pskip header ihprev ihskip =>
    by_cases hlt : height < x.depth
    · obtain ⟨p, rfl, hprev, hskip⟩ := h
      have hup : height ≤ p.depth := Nat.le_of_lt_succ hlt
      have hskipLe : getSkipHeight (p.depth + 1) ≤ p.depth :=
        Nat.le_of_lt_succ (getSkipHeight_lt (Nat.succ_pos _))
      rw [Lineage.ancestor_child hup]
      unfold walk
      rw [if_pos hlt]
      dsimp only [Lineage.depth]
      split
      · rename_i hjump
        have hheight : height ≤ getSkipHeight (p.depth + 1) := by omega
        have hdepth := Lineage.depth_ancestor hskipLe
        obtain ⟨c', hwalk, hpoints⟩ := ihskip hskip (by rw [hdepth]; exact hheight)
        rw [hdepth] at hwalk
        rw [Lineage.ancestor_ancestor hheight hskipLe] at hpoints
        exact ⟨c', hwalk, hpoints⟩
      · exact ihprev hprev hup
    · have heq : height = x.depth := Nat.le_antisymm hle (Nat.not_lt.1 hlt)
      refine ⟨next pprev pskip header, ?_, ?_⟩
      · unfold walk
        exact if_neg hlt
      · rw [heq, Lineage.ancestor_self]
        exact h

theorem getAncestor_points {height : Nat} (h : c.Points x) (hle : height ≤ x.depth) :
    ∃ c', c.getAncestor height = some c' ∧ c'.Points (x.ancestor height) := by
  obtain ⟨c', hwalk, hpoints⟩ := walk_points h hle
  refine ⟨c', ?_, hpoints⟩
  unfold getAncestor
  rw [h.nHeight_eq, if_neg (by omega), Int.toNat_natCast]
  exact hwalk

/-- **`BuildSkip`** gives a new entry its node. -/
theorem link_points (h : c.Points x) (header : BlockHeader) :
    ∃ c', c.link header = some c' ∧ c'.Points (.child x header) := by
  have hle : getSkipHeight (x.depth + 1) ≤ x.depth :=
    Nat.le_of_lt_succ (getSkipHeight_lt (Nat.succ_pos _))
  obtain ⟨pskip, hskip, hpoints⟩ := getAncestor_points h hle
  refine ⟨next c pskip header, ?_, x, rfl, h, hpoints⟩
  unfold link
  rw [h.nHeight_eq, hskip]
  rfl

theorem ofEntry_points (x : BlockIndex) : ∃ c, ofEntry x = some c ∧ c.Points x := by
  induction x with
  | root header => exact ⟨genesis header, rfl, rfl⟩
  | child p header ih =>
    obtain ⟨c, hc, hpoints⟩ := ih
    obtain ⟨c', hlink, hpoints'⟩ := link_points hpoints header
    refine ⟨c', ?_, hpoints'⟩
    unfold ofEntry
    rw [hc]
    exact hlink

/-- The node of an entry. -/
def node (x : BlockIndex) : CBlockIndex :=
  (ofEntry x).get (by
    obtain ⟨c, hc, -⟩ := ofEntry_points x
    rw [hc]
    rfl)

theorem ofEntry_eq (x : BlockIndex) : ofEntry x = some (node x) := (Option.some_get _).symm

theorem node_points (x : BlockIndex) : (node x).Points x := by
  obtain ⟨c, hc, hpoints⟩ := ofEntry_points x
  rw [ofEntry_eq] at hc
  cases hc
  exact hpoints

theorem Points.eq_node (h : c.Points x) : c = node x := h.node_unique (node_points x)

end CBlockIndex

open CBlockIndex (node node_points)

/-- **Skip pointers find the ancestor of any height.** In every tree of blocks, whatever its forks,
    `GetAncestor` on the node that `BuildSkip` has made of an entry gives the node of the one ancestor
    that has the height, and null where there is none. -/
theorem skip_pointers (x : BlockIndex) (height : Int) :
    CBlockIndex.ofEntry x = some (node x) ∧
    (node x).getAncestor height = if 0 ≤ height ∧ height ≤ x.depth
      then some (node (x.ancestor height.toNat)) else none := by
  refine ⟨CBlockIndex.ofEntry_eq x, ?_⟩
  split
  · rename_i hrange
    have hcast : ((height.toNat : Nat) : Int) = height := Int.toNat_of_nonneg hrange.1
    have hle : height.toNat ≤ x.depth := by omega
    obtain ⟨c, hfound, hpoints⟩ := CBlockIndex.getAncestor_points (node_points x) hle
    rw [hcast] at hfound
    rw [hfound, hpoints.eq_node]
  · rename_i hrange
    unfold CBlockIndex.getAncestor
    rw [(node_points x).nHeight_eq]
    exact if_pos (by omega)

/-! ## 2. The last common ancestor -/

namespace CBlockIndex

/-- The loops of `LastCommonAncestor`, on nodes of one height. After a jump the nodes still differ,
    so the test of the outer loop may come before each round. `none` is a null pointer followed. -/
def lastCommon : CBlockIndex → CBlockIndex → Option CBlockIndex
  | genesis header, pb => if genesis header = pb then some pb else none
  | next pprev pskip header, pb =>
    if next pprev pskip header = pb then some pb
    else
      match pb with
      | genesis _ => none
      | next pprev' pskip' _ =>
        if pskip ≠ pskip' then pskip.lastCommon pskip' else pprev.lastCommon pprev'

/-- `LastCommonAncestor`. -/
def lastCommonAncestor (pa pb : CBlockIndex) : Option CBlockIndex :=
  if pa.nHeight > pb.nHeight then (pa.getAncestor pb.nHeight).bind (lastCommon · pb)
  else if pb.nHeight > pa.nHeight then (pb.getAncestor pa.nHeight).bind (lastCommon pa)
  else lastCommon pa pb

variable {a b : CBlockIndex} {x y : BlockIndex}

/-- **The jumps** keep the last node in common. -/
theorem lastCommon_points (ha : a.Points x) (hb : b.Points y) (hdepth : x.depth = y.depth)
    (horigin : x.origin = y.origin) :
    ∃ c z, a.lastCommon b = some c ∧ c.Points z ∧ Lineage.Meet x y z := by
  induction a generalizing b x y with
  | genesis header =>
    cases ha
    have hy : y = .root header := by
      cases y with
      | root header' => exact horigin.symm
      | child q header' => cases hdepth
    rw [hy] at hb ⊢
    have heq : genesis header = b := Points.node_unique (x := .root header) rfl hb
    exact ⟨b, .root header, if_pos heq, hb, Lineage.meet_self⟩
  | next pprev pskip header ihprev ihskip =>
    unfold lastCommon
    split
    · rename_i heq
      have hxy : x = y := (ha.eq_iff hb).1 heq
      rw [hxy]
      exact ⟨b, y, rfl, hb, Lineage.meet_self⟩
    · rename_i hne
      have hxy : x ≠ y := fun heq => hne ((ha.eq_iff hb).2 heq)
      obtain ⟨p, rfl, hprev, hskip⟩ := ha
      cases b with
      | genesis header' =>
        cases hb
        cases hdepth
      | next pprev' pskip' header' =>
        obtain ⟨q, rfl, hprev', hskip'⟩ := hb
        have hparents : p.depth = q.depth := Nat.succ.inj hdepth
        have hle : getSkipHeight (p.depth + 1) ≤ p.depth :=
          Nat.le_of_lt_succ (getSkipHeight_lt (Nat.succ_pos _))
        dsimp only
        split
        · -- the skip ancestors differ: the lines meet before them
          rename_i hskips
          rw [← hparents] at hskip'
          have hancestors : p.ancestor (getSkipHeight (p.depth + 1)) ≠
              q.ancestor (getSkipHeight (p.depth + 1)) := fun heq =>
            hskips ((hskip.eq_iff hskip').2 heq)
          obtain ⟨c, z, hfound, hpoints, hmeet⟩ := ihskip hskip hskip'
            (by rw [Lineage.depth_ancestor hle, Lineage.depth_ancestor (hparents ▸ hle)])
            (by
              rw [Lineage.origin_of_mem_line Lineage.ancestor_mem_line,
                Lineage.origin_of_mem_line Lineage.ancestor_mem_line]
              exact horigin)
          refine ⟨c, z, hfound, hpoints, .of_parents hparents hxy ?_⟩
          exact .of_ancestors hle (hparents ▸ hle) hancestors hmeet
        · obtain ⟨c, z, hfound, hpoints, hmeet⟩ := ihprev hprev hprev' hparents horigin
          exact ⟨c, z, hfound, hpoints, .of_parents hparents hxy hmeet⟩

theorem lastCommonAncestor_points (ha : a.Points x) (hb : b.Points y)
    (horigin : x.origin = y.origin) :
    ∃ c, a.lastCommonAncestor b = some c ∧ c.Points (x.fork y) := by
  unfold lastCommonAncestor
  rw [ha.nHeight_eq, hb.nHeight_eq]
  split
  · rename_i hlt
    obtain ⟨a', hfound, hpoints⟩ := getAncestor_points ha (Nat.le_of_lt hlt)
    obtain ⟨c, z, hcommon, hz, hmeet⟩ := lastCommon_points hpoints hb
      (Lineage.depth_ancestor (Nat.le_of_lt hlt))
      ((Lineage.origin_of_mem_line Lineage.ancestor_mem_line).trans horigin)
    have hmeet' := hmeet.of_ancestor_left (Nat.le_refl _) (Nat.le_of_lt hlt)
    refine ⟨c, ?_, (Lineage.fork_eq_of_meet hmeet').symm ▸ hz⟩
    rw [hfound]
    exact hcommon
  · rename_i hnot
    split
    · rename_i hlt
      obtain ⟨b', hfound, hpoints⟩ := getAncestor_points hb (Nat.le_of_lt hlt)
      obtain ⟨c, z, hcommon, hz, hmeet⟩ := lastCommon_points ha hpoints
        (Lineage.depth_ancestor (Nat.le_of_lt hlt)).symm
        (horigin.trans (Lineage.origin_of_mem_line Lineage.ancestor_mem_line).symm)
      have hmeet' := (hmeet.symm.of_ancestor_left (Nat.le_refl _) (Nat.le_of_lt hlt)).symm
      refine ⟨c, ?_, (Lineage.fork_eq_of_meet hmeet').symm ▸ hz⟩
      rw [hfound]
      exact hcommon
    · obtain ⟨c, z, hcommon, hz, hmeet⟩ := lastCommon_points ha hb (by omega) horigin
      exact ⟨c, hcommon, (Lineage.fork_eq_of_meet hmeet).symm ▸ hz⟩

end CBlockIndex

/-- **The last common ancestor by jumps** is the last block that the two lines of ancestors have in
    common, of any two entries with one genesis block. -/
theorem last_common_ancestor {x y : BlockIndex} (horigin : x.origin = y.origin) :
    (node x).lastCommonAncestor (node y) = some (node (x.fork y)) ∧
      Lineage.Meet x y (x.fork y) := by
  obtain ⟨c, hfound, hpoints⟩ :=
    CBlockIndex.lastCommonAncestor_points (node_points x) (node_points y) horigin
  refine ⟨?_, Lineage.meet_fork horigin⟩
  rw [hfound, hpoints.eq_node]

/-- Three blocks after genesis, and a fork of two. -/
def longTip : BlockIndex :=
  .child (.child (.child (.root ⟨.repeating 1, .repeating 0, 0, 0⟩) ⟨.repeating 2, .repeating 1, 0, 0⟩)
    ⟨.repeating 3, .repeating 2, 0, 0⟩) ⟨.repeating 4, .repeating 3, 0, 0⟩

def shortTip : BlockIndex :=
  .child (.child (.root ⟨.repeating 1, .repeating 0, 0, 0⟩) ⟨.repeating 2, .repeating 1, 0, 0⟩)
    ⟨.repeating 5, .repeating 2, 0, 0⟩

theorem last_common_ancestor_forked :
    (node longTip).lastCommonAncestor (node shortTip) = some (node (longTip.ancestor 1)) := by
  have hfork : longTip.fork shortTip = longTip.ancestor 1 := by decide
  rw [← hfork]
  exact (last_common_ancestor (x := longTip) (y := shortTip) rfl).1

/-! ## 3. The active chain -/

/-- `CChain`, with null pointers where `resize` has made room. -/
abbrev CChain := List (Option CBlockIndex)

namespace CChain

/-- `operator[]`. -/
def entryAt (vChain : CChain) (nHeight : Int) : Option CBlockIndex :=
  if nHeight < 0 ∨ nHeight ≥ vChain.length then none else (vChain[nHeight.toNat]?).join

/-- `Height`. -/
def height (vChain : CChain) : Int := (vChain.length : Int) - 1

/-- `Tip`. -/
def tip (vChain : CChain) : Option CBlockIndex := vChain.entryAt vChain.height

/-- `Contains`. -/
def contains (vChain : CChain) (x : CBlockIndex) : Bool := decide (vChain.entryAt x.nHeight = some x)

/-- `Next`. -/
def next (vChain : CChain) (x : CBlockIndex) : Option CBlockIndex :=
  if vChain.contains x then vChain.entryAt (x.nHeight + 1) else none

/-- `vChain.resize(n)`. -/
def resize (vChain : CChain) (n : Nat) : CChain :=
  vChain.take n ++ List.replicate (n - vChain.length) none

/-- The loop of `SetTip`, which stops where the chain is right already. -/
def fill : CBlockIndex → CChain → CChain
  | .genesis header, vChain =>
    if vChain[0]? = some (some (.genesis header)) then vChain
    else vChain.set 0 (some (.genesis header))
  | .next pprev pskip header, vChain =>
    let x : CBlockIndex := .next pprev pskip header
    if vChain[x.nHeight]? = some (some x) then vChain else fill pprev (vChain.set x.nHeight (some x))

/-- `SetTip`. -/
def setTip (vChain : CChain) (x : CBlockIndex) : CChain := fill x (vChain.resize (x.nHeight + 1))

/-- The loop of `FindFork`. -/
def back (vChain : CChain) : CBlockIndex → Option CBlockIndex
  | .genesis header => if vChain.contains (.genesis header) then some (.genesis header) else none
  | .next pprev pskip header =>
    if vChain.contains (.next pprev pskip header) then some (.next pprev pskip header)
    else vChain.back pprev

/-- `FindFork`, of an entry that is not null. -/
def findFork (vChain : CChain) (x : CBlockIndex) : Option CBlockIndex :=
  if x.nHeight > vChain.height then (x.getAncestor vChain.height).bind vChain.back
  else vChain.back x

/-- What an entry of the vector is, where the tip is `old`. -/
def shown (old : Option BlockIndex) (n : Nat) : Option CBlockIndex :=
  old.bind fun x => if n ≤ x.depth then some (node (x.ancestor n)) else none

/-- **The chain shows a line**: the nodes of the tip's ancestors, by height. -/
structure Shows (vChain : CChain) (tip : Option BlockIndex) : Prop where
  length : vChain.length = tip.elim 0 fun x => x.depth + 1
  entries : ∀ n < vChain.length, vChain[n]? = some (shown tip n)

variable {vChain : CChain} {tip : Option BlockIndex} {x y : BlockIndex}

theorem shown_some {n : Nat} (h : n ≤ x.depth) : shown (some x) n = some (node (x.ancestor n)) :=
  if_pos h

theorem node_child (p : BlockIndex) (header : BlockHeader) :
    ∃ pskip, node (.child p header) = .next (node p) pskip header := by
  have hpoints := node_points (.child p header)
  cases hnode : node (.child p header) with
  | genesis header' =>
    rw [hnode] at hpoints
    cases hpoints
  | next pprev pskip header' =>
    rw [hnode] at hpoints
    obtain ⟨q, heq, hprev, -⟩ := hpoints
    cases heq
    exact ⟨pskip, by rw [hprev.eq_node]⟩

/-- Where the chain before has the node of `y`, it has those of all of its ancestors. -/
theorem shown_of_shown {n : Nat} (h : shown tip y.depth = some (node y)) (hn : n ≤ y.depth) :
    shown tip n = some (node (y.ancestor n)) := by
  obtain ⟨x, rfl, hx⟩ := Option.bind_eq_some_iff.1 h
  split at hx
  · rename_i hle
    have hancestor : x.ancestor y.depth = y :=
      ((node_points _).eq_iff (node_points _)).1 (Option.some.inj hx)
    rw [shown_some (hn.trans hle), ← Lineage.ancestor_ancestor hn hle, hancestor]
  · cases hx

/-- **The loop of `SetTip`**: what is above is right, and what is below is as it was. -/
theorem fill_entries (hlen : y.depth < vChain.length)
    (hbelow : ∀ n ≤ y.depth, vChain[n]? = some (shown tip n)) :
    (fill (node y) vChain).length = vChain.length ∧
    (∀ n ≤ y.depth, (fill (node y) vChain)[n]? = some (some (node (y.ancestor n)))) ∧
    ∀ n, y.depth < n → (fill (node y) vChain)[n]? = vChain[n]? := by
  induction y generalizing vChain with
  | root header =>
    have hnode : node (.root header) = .genesis header := rfl
    rw [hnode]
    unfold fill
    split
    · rename_i hright
      refine ⟨rfl, fun n hn => ?_, fun _ _ => rfl⟩
      rw [Nat.le_zero.1 hn]
      exact hright
    · refine ⟨List.length_set, fun n hn => ?_, fun n hn => List.getElem?_set_ne (Nat.ne_of_lt hn)⟩
      rw [Nat.le_zero.1 hn]
      exact List.getElem?_set_self hlen
  | child p header ih =>
    obtain ⟨pskip, hnode⟩ := node_child p header
    have hheight := (node_points (.child p header)).nHeight_eq
    rw [hnode] at hheight
    rw [hnode]
    unfold fill
    dsimp only
    rw [hheight, ← hnode]
    split
    · rename_i hright
      have hshown : shown tip (Lineage.depth (.child p header)) = some (node (.child p header)) := by
        have hhere := hbelow _ (Nat.le_refl _)
        rw [hright] at hhere
        exact (Option.some.inj hhere).symm
      refine ⟨rfl, fun n hn => ?_, fun _ _ => rfl⟩
      rw [hbelow n hn, shown_of_shown hshown hn]
    · have hdepth : p.depth < Lineage.depth (.child p header) := Nat.lt_succ_self _
      have hup : p.depth < (vChain.set (Lineage.depth (.child p header))
          (some (node (.child p header)))).length := by
        rw [List.length_set]
        exact hdepth.trans hlen
      obtain ⟨hsize, hright, hkept⟩ := ih hup fun n hn => by
        rw [List.getElem?_set_ne (Nat.ne_of_gt (Nat.lt_of_le_of_lt hn hdepth))]
        exact hbelow n (hn.trans (Nat.le_of_lt hdepth))
      refine ⟨hsize.trans List.length_set, fun n hn => ?_, fun n hn => ?_⟩
      · rcases Nat.lt_or_eq_of_le hn with hlt | rfl
        · have hle : n ≤ p.depth := Nat.le_of_lt_succ hlt
          rw [hright n hle, Lineage.ancestor_child hle]
        · rw [hkept _ hdepth, List.getElem?_set_self hlen, Lineage.ancestor_self]
      · rw [hkept n (hdepth.trans hn), List.getElem?_set_ne (Nat.ne_of_lt hn)]

theorem resize_entries (h : Shows vChain tip) (m : Nat) :
    (vChain.resize m).length = m ∧ ∀ n < m, (vChain.resize m)[n]? = some (shown tip n) := by
  have hlen : (vChain.resize m).length = m := by
    unfold resize
    rw [List.length_append, List.length_take, List.length_replicate]
    omega
  refine ⟨hlen, fun n hn => ?_⟩
  unfold resize
  by_cases hold : n < vChain.length
  · rw [List.getElem?_append_left (by rw [List.length_take]; omega), List.getElem?_take_of_lt hn]
    exact h.entries n hold
  · have hshown : shown tip n = none := by
      have hlength := h.length
      cases tip with
      | none => rfl
      | some x =>
        refine if_neg ?_
        rw [Option.elim_some] at hlength
        omega
    rw [List.getElem?_append_right (by rw [List.length_take]; omega), List.getElem?_replicate,
      hshown, if_pos (by rw [List.length_take]; omega)]

/-- **`SetTip`**: whatever the chain showed before, it shows the new line. -/
theorem setTip_shows (h : Shows vChain tip) (y : BlockIndex) :
    Shows (vChain.setTip (node y)) (some y) := by
  unfold setTip
  rw [(node_points y).nHeight_eq]
  obtain ⟨hlen, hold⟩ := resize_entries h (y.depth + 1)
  obtain ⟨hsize, hright, -⟩ := fill_entries (by rw [hlen]; exact Nat.lt_succ_self _)
    fun n hn => hold n (Nat.lt_succ_of_le hn)
  refine ⟨hsize.trans hlen, fun n hn => ?_⟩
  rw [hsize, hlen] at hn
  rw [hright n (Nat.le_of_lt_succ hn), shown_some (Nat.le_of_lt_succ hn)]

theorem entryAt_of_shows (h : Shows vChain (some x)) (n : Int) :
    vChain.entryAt n = if 0 ≤ n ∧ n ≤ x.depth then some (node (x.ancestor n.toNat)) else none := by
  have hlen : vChain.length = x.depth + 1 := h.length
  unfold entryAt
  rw [hlen]
  split
  · rename_i hout
    exact (if_neg (by omega)).symm
  · rename_i hin
    have hle : n.toNat ≤ x.depth := by omega
    rw [h.entries n.toNat (by omega), shown_some hle, if_pos (by omega)]
    rfl

theorem height_of_shows (h : Shows vChain (some x)) : vChain.height = x.depth := by
  have hlen : vChain.length = x.depth + 1 := h.length
  unfold height
  omega

/-- **`Contains`** is being an ancestor. -/
theorem contains_of_shows (h : Shows vChain (some x)) (y : BlockIndex) :
    vChain.contains (node y) = true ↔ y ∈ x.line := by
  unfold contains
  rw [(node_points y).nHeight_eq, entryAt_of_shows h, decide_eq_true_iff]
  constructor
  · intro hat
    split at hat
    · have hancestor : x.ancestor y.depth = y :=
        ((node_points _).eq_iff (node_points _)).1 (Option.some.inj hat)
      rw [← hancestor]
      exact Lineage.ancestor_mem_line
    · cases hat
  · intro hmem
    have hle := Lineage.depth_le_of_mem_line hmem
    rw [if_pos (by omega), Int.toNat_natCast, Lineage.ancestor_of_mem_line hmem]

theorem back_of_shows (h : Shows vChain (some x)) (y : BlockIndex) :
    vChain.back (node y) = if x.origin = y.origin then some (node (x.fork y)) else none := by
  induction y with
  | root header =>
    have hiff : Lineage.root header ∈ x.line ↔ x.origin = .root header := by
      constructor
      · intro hmem
        exact (Lineage.origin_of_mem_line hmem).symm
      · intro horigin
        rw [← horigin]
        exact Lineage.origin_mem_line
    show (if vChain.contains (node (.root header)) then _ else _) =
      if x.origin = .root header then _ else _
    by_cases hmem : Lineage.root header ∈ x.line
    · rw [if_pos ((contains_of_shows h _).2 hmem), if_pos (hiff.1 hmem),
        Lineage.fork_of_mem_line hmem]
      rfl
    · rw [if_neg fun hin => hmem ((contains_of_shows h _).1 hin),
        if_neg fun horigin => hmem (hiff.2 horigin)]
  | child p header ih =>
    obtain ⟨pskip, hnode⟩ := node_child p header
    rw [hnode]
    unfold back
    rw [← hnode]
    split
    · rename_i hin
      have hmem := (contains_of_shows h _).1 hin
      rw [Lineage.fork_of_mem_line hmem, if_pos (Lineage.origin_of_mem_line hmem).symm]
    · rename_i hout
      rw [Lineage.fork_child_of_not_mem fun hmem => hout ((contains_of_shows h _).2 hmem)]
      exact ih

theorem findFork_of_shows (h : Shows vChain (some x)) (y : BlockIndex) :
    vChain.findFork (node y) = if x.origin = y.origin then some (node (x.fork y)) else none := by
  unfold findFork
  rw [(node_points y).nHeight_eq, height_of_shows h]
  split
  · rename_i hlong
    have hle : x.depth ≤ y.depth := by omega
    obtain ⟨c, hfound, hpoints⟩ := CBlockIndex.getAncestor_points (node_points y) hle
    have horigin : (y.ancestor x.depth).origin = y.origin :=
      Lineage.origin_of_mem_line Lineage.ancestor_mem_line
    rw [hfound, hpoints.eq_node, Option.bind_some, back_of_shows h, horigin]
    split
    · rename_i hsame
      have hmeet := Lineage.meet_fork (hsame.trans horigin.symm)
      have hmeet' := (hmeet.symm.of_ancestor_left (Nat.le_refl _) hle).symm
      rw [Lineage.fork_eq_of_meet hmeet']
    · rfl
  · exact back_of_shows h y

/-- `SetTip`, one tip after another, from the empty chain. -/
def setTips (tips : List BlockIndex) : CChain := tips.foldl (fun vChain t => setTip vChain (node t)) []

theorem setTips_shows (tips : List BlockIndex) (x : BlockIndex) :
    Shows (setTips (tips ++ [x])) (some x) := by
  have hany : ∀ (tips : List BlockIndex) (vChain : CChain) (tip : Option BlockIndex),
      Shows vChain tip → ∃ tip',
        Shows (tips.foldl (fun vChain t => setTip vChain (node t)) vChain) tip' := by
    intro tips
    induction tips with
    | nil => exact fun _ tip h => ⟨tip, h⟩
    | cons t tips ih => exact fun _ _ h => ih _ _ (setTip_shows h t)
  obtain ⟨tip, htip⟩ := hany tips [] none ⟨rfl, fun n hn => absurd hn (Nat.not_lt_zero n)⟩
  unfold setTips
  rw [List.foldl_append]
  exact setTip_shows htip x

end CChain

/-- **The active chain, after any run of `SetTip`.** Whatever tips it has had, on whatever branches,
    the vector has the ancestors of the last tip by height and nothing else: `operator[]`, `Tip`,
    `Contains` and `Next` answer of its line, and `FindFork` gives the last block in common. -/
theorem active_chain (tips : List BlockIndex) (x y : BlockIndex) :
    (∀ n : Int, (CChain.setTips (tips ++ [x])).entryAt n =
      if 0 ≤ n ∧ n ≤ x.depth then some (node (x.ancestor n.toNat)) else none) ∧
    (CChain.setTips (tips ++ [x])).tip = some (node x) ∧
    ((CChain.setTips (tips ++ [x])).contains (node y) = true ↔ y ∈ x.line) ∧
    (CChain.setTips (tips ++ [x])).next (node y) =
      (if y ∈ x.line ∧ y ≠ x then some (node (x.ancestor (y.depth + 1))) else none) ∧
    (CChain.setTips (tips ++ [x])).findFork (node y) =
      if x.origin = y.origin then some (node (x.fork y)) else none := by
  have hchain := CChain.setTips_shows tips x
  refine ⟨CChain.entryAt_of_shows hchain, ?_, CChain.contains_of_shows hchain y, ?_,
    CChain.findFork_of_shows hchain y⟩
  · unfold CChain.tip
    rw [CChain.height_of_shows hchain, CChain.entryAt_of_shows hchain, if_pos (by omega),
      Int.toNat_natCast, Lineage.ancestor_self]
  · unfold CChain.next
    rw [CChain.entryAt_of_shows hchain, (node_points y).nHeight_eq]
    by_cases hmem : y ∈ x.line
    · rw [if_pos ((CChain.contains_of_shows hchain y).2 hmem)]
      have hle := Lineage.depth_le_of_mem_line hmem
      by_cases hxy : y = x
      · rw [if_neg (by rw [hxy]; omega), if_neg fun h => h.2 hxy]
      · have hlt : y.depth < x.depth :=
          Nat.lt_of_le_of_ne hle fun heq => hxy (Lineage.eq_of_mem_line hmem heq)
        rw [if_pos (by omega), if_pos ⟨hmem, hxy⟩]
        rfl
    · rw [if_neg fun hin => hmem ((CChain.contains_of_shows hchain y).1 hin),
        if_neg fun h => hmem h.1]

end SwiftBitcoinKernel
