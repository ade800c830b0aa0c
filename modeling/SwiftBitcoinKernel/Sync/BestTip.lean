/-
  File:      SwiftBitcoinKernel/Sync/BestTip.lean
  Subject:   The pair that `EsploraBlockSource.bestTip()` returns, against the tips the server has had.

  Height and hash come from two requests. The server has a best block at every instant, and answers
  each request at one of them, truly; how it fails in between, and how often it is asked again, is
  left open, and so is a cancellation.

  * `Timeline`, `Honest` -- the server's best blocks, and what it says of them;
  * `fetchData_fetched` -- the data of a fetch is the answer to its last request, the first after
    which there is none;
  * `bestTip_fetched` -- so for the two requests of `bestTip()`;
  * `bestTip_real_iff` -- the pair was a tip exactly where the server's best block had one height at
    both of them.
-/
import SwiftBitcoinKernel.Sync.Retry

namespace SwiftBitcoinKernel

open Logic EsploraLoop

/-! ## 1. The server -/

/-- The server's best block over time, the height of each block, and when it answers. -/
structure Timeline (T : Type) where
  best : T → Hash
  height : Hash → Int
  /-- The instant at which the `n`-th request is answered. -/
  instant : Nat → T

/-- A response that is a success, with its body. -/
def Success (answer : Except SwiftError HTTPResponse) (body : Data) : Prop :=
  ∃ statusCode header, (200 ≤ statusCode ∧ statusCode < 300) ∧
    answer = .ok (.http statusCode header body)

/-- The height in a response, as `bestTip()` reads it. -/
def Esplora.heightFrom (d : Data) : Option Int :=
  (EsploraAPI.utf8 d).bind fun text => EsploraAPI.int (EsploraAPI.trimming text.toList)

/-- What the server says is so when it says it. -/
structure Honest {T : Type} (S : Esplora) (V : Timeline T) : Prop where
  height : ∀ n body height, Success (S.http EsploraAPI.tipHeightURL n) body →
    Esplora.heightFrom body = some height → height = V.height (V.best (V.instant n))
  hash : ∀ n body hash, Success (S.http EsploraAPI.tipHashURL n) body →
    Esplora.hashFrom body = some hash → hash = V.best (V.instant n)

/-! ## 2. A fetch -/

section Fetch

variable {S : Esplora} {path : String} {n left attempt : Nat}

/-- A round that has not thrown: what its answer was. -/
def Fetched (S : Esplora) (path : String) (n : Nat) {left : Nat} (a : Attempt left)
    (s : EsploraState) : Prop :=
  s.requests = n + 1 ∧
    match a with
    | .data d => Success (S.http path n) d
    | .again => retryable (S.http path n) = true

theorem sleep_requests (S : Esplora) (point : Suspension) {R : SwiftError → EsploraState → Prop}
    (hthrow : ∀ s, s.requests = n → R .cancellation s) :
    Throws (fun s => s.requests = n) (S.sleep point) (fun _ s => s.requests = n) R := by
  refine throws_bind (Q := fun _ s => s.requests = n) (throws_act fun _ hs => hs) fun cancelled => ?_
  exact throws_ite (fun _ => throws_throw _ hthrow) fun _ => throws_pure _ fun _ hs => hs

/-- An error thrown by a request, where it may be retried, is the client's. -/
def Asked (S : Esplora) (path : String) (n : Nat) (e : SwiftError) (s : EsploraState) : Prop :=
  s.requests = n + 1 ∧ (isRetryableNetworkError e = true → S.http path n = .error e)

theorem asked_of_final {e : SwiftError} {s : EsploraState} (he : isRetryableNetworkError e = false)
    (hs : s.requests = n + 1) : Asked S path n e s := by
  refine ⟨hs, fun hretry => ?_⟩
  rw [he] at hretry
  cases hretry

theorem httpData_fetched (S : Esplora) (path : String) (n : Nat) :
    Throws (fun s => s.requests = n) (S.httpData path)
      (fun response s => s.requests = n + 1 ∧ S.http path n = .ok response) (Asked S path n) := by
  refine throws_bind (Q := fun _ s => s.requests = n) (throws_act fun _ hs => hs) fun cancelled => ?_
  refine throws_ite (fun _ => ?_) fun _ => ?_
  · -- what a client throws on cancellation is not retried
    refine throws_bind (Q := fun e s => Asked S path n e s) (throws_act fun s hs => ?_)
      fun e => throws_throw _ fun _ hs => hs
    refine asked_of_final ?_ (by rw [hs])
    cases S.cancelledRequest s.requests with
    | cancellationError => rfl
    | urlErrorCancelled => rfl
  · refine throws_bind (Q := fun answer s => s.requests = n + 1 ∧ S.http path n = answer)
      (throws_act fun s hs => ⟨by rw [hs], by rw [hs]⟩) fun answer => ?_
    cases answer with
    | ok response => exact throws_pure _ fun _ hs => hs
    | error e => exact throws_throw _ fun _ hs => ⟨hs.1, fun _ => hs.2⟩

theorem retryStatus_fetched {statusCode : Int} {header : Option String} {body : Data}
    (hanswer : S.http path n = .ok (.http statusCode header body))
    (hstatus : statusCode = 429 ∨ (500 ≤ statusCode ∧ statusCode < 600)) :
    Throws (fun s => s.requests = n + 1) (S.retryStatus statusCode header attempt left)
      (Fetched S path n) (Asked S path n) := by
  cases left with
  | zero =>
    unfold Esplora.retryStatus
    exact throws_ite (fun _ => throws_throw _ fun _ hs => asked_of_final rfl hs)
      fun _ => throws_throw _ fun _ hs => asked_of_final rfl hs
  | succ left =>
    refine throws_bind (sleep_requests S _ fun _ hs => asked_of_final rfl hs) fun _ => ?_
    refine throws_pure _ fun s hs => ⟨hs, ?_⟩
    rw [hanswer]
    exact decide_eq_true hstatus

theorem request_fetched (S : Esplora) (path : String) (n left attempt : Nat) :
    Throws (fun s => s.requests = n) (S.request path left attempt) (Fetched S path n)
      (Asked S path n) := by
  refine throws_bind (httpData_fetched S path n) fun response => ?_
  rintro s ⟨hs, hanswer⟩
  cases response with
  | nonHTTP body => exact asked_of_final rfl hs
  | http statusCode header body =>
    refine throws_ite (P := fun s => s.requests = n + 1)
      (fun hsuccess => throws_pure _ fun s hs => ⟨hs, statusCode, header, hsuccess, hanswer⟩)
      (fun _ => ?_) s hs
    refine throws_ite (fun _ => throws_throw _ fun _ hs => asked_of_final rfl hs) fun _ => ?_
    exact throws_ite (retryStatus_fetched hanswer)
      fun _ => throws_throw _ fun _ hs => asked_of_final rfl hs

/-- A round by the answer it was given. -/
theorem attemptOnce_fetched (S : Esplora) (path : String) (n left attempt : Nat) :
    Throws (fun s => s.requests = n) (S.attemptOnce path left attempt) (Fetched S path n)
      (fun _ _ => True) := by
  refine throws_bind (Q := fun _ s => s.requests = n) (throws_act fun _ hs => hs) fun slot => ?_
  refine throws_bind (sleep_requests S _ fun _ _ => trivial) fun _ => ?_
  refine throws_tryCatch (request_fetched S path n left attempt) fun e => ?_
  refine throws_ite (fun _ => throws_throw _ fun _ _ => trivial) fun _ => ?_
  cases left with
  | zero => exact throws_throw _ fun _ _ => trivial
  | succ left =>
    refine throws_ite (fun hretry => ?_) fun _ => throws_throw _ fun _ _ => trivial
    rintro s ⟨hs, hclient⟩
    have hanswer := hclient hretry
    refine throws_bind (sleep_requests S _ fun _ _ => trivial)
      (fun _ => throws_pure Attempt.again fun s hs => ⟨hs, ?_⟩) s hs
    rw [hanswer]
    exact hretry

/-- The requests of a fetch after which there is no other. -/
def finalFrom (S : Esplora) (path : String) (n : Nat) : Set Nat :=
  {m | n ≤ m ∧ retryable (S.http path m) = false}

theorem success_final {answer : Except SwiftError HTTPResponse} {body : Data}
    (h : Success answer body) : retryable answer = false := by
  obtain ⟨statusCode, header, hrange, rfl⟩ := h
  exact decide_eq_false (by omega)

/-- What a fetch returns: the body of its last answer. -/
def FetchedData (S : Esplora) (path : String) (n : Nat) (d : Data) (s : EsploraState) : Prop :=
  ∃ m, IsLeast (finalFrom S path n) m ∧ s.requests = m + 1 ∧ Success (S.http path m) d

theorem fetchedData_of_data {d : Data} {s : EsploraState} (hs : s.requests = n + 1)
    (hsuccess : Success (S.http path n) d) : FetchedData S path n d s :=
  ⟨n, ⟨⟨Nat.le_refl n, success_final hsuccess⟩, fun _ hm => hm.1⟩, hs, hsuccess⟩

theorem fetchedData_of_again {d : Data} {s : EsploraState}
    (hretry : retryable (S.http path n) = true) (h : FetchedData S path (n + 1) d s) :
    FetchedData S path n d s := by
  obtain ⟨m, ⟨hmem, hleast⟩, hs, hsuccess⟩ := h
  refine ⟨m, ⟨⟨Nat.le_of_succ_le hmem.1, hmem.2⟩, fun k hk => hleast ⟨?_, hk.2⟩⟩, hs, hsuccess⟩
  refine Nat.lt_of_le_of_ne hk.1 ?_
  rintro rfl
  have hfinal := hk.2
  rw [hretry] at hfinal
  cases hfinal

/-- **The data of a fetch is the answer to its last request.** -/
theorem rounds_fetched (S : Esplora) (path : String) (n left attempt : Nat) :
    Throws (fun s => s.requests = n) (S.rounds path left attempt) (FetchedData S path n)
      (fun _ _ => True) := by
  induction left generalizing n attempt with
  | zero =>
    refine throws_bind (attemptOnce_fetched S path n 0 attempt) fun a => ?_
    cases a with
    | data d => exact throws_pure _ fun s hs => fetchedData_of_data hs.1 hs.2
  | succ left ih =>
    refine throws_bind (attemptOnce_fetched S path n (left + 1) attempt) fun a => ?_
    cases a with
    | data d => exact throws_pure _ fun s hs => fetchedData_of_data hs.1 hs.2
    | again =>
      rintro s ⟨hs, hretry⟩
      have hrest := ih (n + 1) (attempt + 1) s hs
      show Outcome (S.rounds path left (attempt + 1) s) _ _
      generalize S.rounds path left (attempt + 1) s = r at hrest ⊢
      match r with
      | (.ok d, s') => exact fetchedData_of_again hretry hrest
      | (.error e, s') => trivial

theorem fetchData_fetched {s s' : EsploraState} {d : Data} (h : S.fetchData path s = (.ok d, s')) :
    FetchedData S path s.requests d s' := by
  have hrounds := rounds_fetched S path s.requests S.maximumRetries.toNat 0 s rfl
  rw [show S.rounds path S.maximumRetries.toNat 0 s = (.ok d, s') from h] at hrounds
  exact hrounds

end Fetch

/-! ## 3. The two requests -/

section Tip

variable {S : Esplora} {s s' : EsploraState} {tip : BlockTip}

/-- What `bestTip()` returns, by the answers it was given. -/
theorem bestTip_fetched (h : S.bestTip s = (.ok tip, s')) :
    ∃ i j, IsLeast (finalFrom S EsploraAPI.tipHeightURL s.requests) i ∧
      IsLeast (finalFrom S EsploraAPI.tipHashURL (i + 1)) j ∧ s'.requests = j + 1 ∧
      (∃ body, Success (S.http EsploraAPI.tipHeightURL i) body ∧
        Esplora.heightFrom body = some tip.height) ∧
      ∃ body, Success (S.http EsploraAPI.tipHashURL j) body ∧
        Esplora.hashFrom body = some tip.hash := by
  obtain ⟨heightData, s₁, hheight, h⟩ := Throwing.of_bind_ok h
  obtain ⟨i, hi, hrequests, hsuccess⟩ := fetchData_fetched hheight
  cases hparsed : Esplora.heightFrom heightData with
  | none =>
    unfold Esplora.heightFrom at hparsed
    rw [hparsed] at h
    cases h
  | some height =>
    unfold Esplora.heightFrom at hparsed
    rw [hparsed] at h
    obtain ⟨hashData, s₂, hhash, h⟩ := Throwing.of_bind_ok h
    obtain ⟨j, hj, hrequests', hsuccess'⟩ := fetchData_fetched hhash
    rw [hrequests] at hj
    cases hparsed' : Esplora.hashFrom hashData with
    | none =>
      rw [hparsed'] at h
      cases h
    | some hash =>
      rw [hparsed'] at h
      cases h
      exact ⟨i, j, hi, hj, hrequests', ⟨heightData, hsuccess, hparsed⟩, hashData, hsuccess', hparsed'⟩

/-- **A real tip.** The pair that `bestTip()` returns was the server's best block, with its height,
    at an instant of the call, exactly where the best blocks at the answers to its two requests are
    of one height. -/
theorem bestTip_real_iff {T : Type} [LE T] (S : Esplora) (V : Timeline T) (hhonest : Honest S V)
    (start finish : T) {s s' : EsploraState} {tip : BlockTip} (hreturn : S.bestTip s = (.ok tip, s'))
    (hstart : ∀ n, s.requests ≤ n → start ≤ V.instant n)
    (hfinish : ∀ n, n < s'.requests → V.instant n ≤ finish) :
    ∃ i j, IsLeast (finalFrom S EsploraAPI.tipHeightURL s.requests) i ∧
      IsLeast (finalFrom S EsploraAPI.tipHashURL (i + 1)) j ∧
      ((∃ t, (start ≤ t ∧ t ≤ finish) ∧ V.best t = tip.hash ∧ V.height (V.best t) = tip.height) ↔
        V.height (V.best (V.instant i)) = V.height (V.best (V.instant j))) := by
  obtain ⟨i, j, hi, hj, hrequests, ⟨body, hsuccess, hparsed⟩, body', hsuccess', hparsed'⟩ :=
    bestTip_fetched hreturn
  have hheight := hhonest.height i body tip.height hsuccess hparsed
  have hhash := hhonest.hash j body' tip.hash hsuccess' hparsed'
  refine ⟨i, j, hi, hj, ?_, ?_⟩
  · rintro ⟨t, _, hbest, hsame⟩
    rw [← hheight, ← hsame, hbest, hhash]
  · intro hsame
    have hlater : s.requests ≤ j :=
      Nat.le_trans hi.1.1 (Nat.le_of_succ_le hj.1.1)
    refine ⟨V.instant j, ⟨hstart j hlater, hfinish j (by omega)⟩, hhash.symm, ?_⟩
    rw [hheight, hsame]

/-- The bodies of a server whose chain has grown by a block before it answers its second request. -/
def grownBody (path : String) (n : Nat) : Data :=
  if path = EsploraAPI.tipHeightURL then [if n = 0 then 0x35 else 0x36]
  else List.replicate 64 (if n = 0 then 0x35 else 0x36)

/-- A source that asks it. -/
def askingGrown : Esplora where
  maximumRetries := 5
  baseRetryDelay := 1
  http path n := .ok (.http 200 none (grownBody path n))
  clock _ := 0
  double _ := none
  parseBlock _ := .error ""
  cancelAt := none
  cancelledRequest _ := .cancellationError

/-- Its best blocks: one at height 5, and its child from the instant 1 on. -/
def grownTimeline : Timeline Nat where
  best t := Hash.repeating (if t = 0 then 0x55 else 0x66)
  height hash := if hash = Hash.repeating 0x55 then 5 else 6
  instant n := n

theorem grown_honest : Honest askingGrown grownTimeline := by
  constructor
  · rintro n body height ⟨statusCode, header, _, hanswer⟩ hparsed
    cases hanswer
    cases n with
    | zero =>
      rw [show Esplora.heightFrom (grownBody EsploraAPI.tipHeightURL 0) = some 5 by decide +kernel]
        at hparsed
      cases hparsed
      rfl
    | succ n =>
      change Esplora.heightFrom [0x36] = some height at hparsed
      rw [show Esplora.heightFrom [0x36] = some 6 by decide +kernel] at hparsed
      cases hparsed
      rfl
  · rintro n body hash ⟨statusCode, header, _, hanswer⟩ hparsed
    cases hanswer
    cases n with
    | zero =>
      change Esplora.hashFrom (List.replicate 64 0x35) = some hash at hparsed
      rw [show Esplora.hashFrom (List.replicate 64 0x35) = some (Hash.repeating 0x55) by
        decide +kernel] at hparsed
      cases hparsed
      rfl
    | succ n =>
      change Esplora.hashFrom (List.replicate 64 0x36) = some hash at hparsed
      rw [show Esplora.hashFrom (List.replicate 64 0x36) = some (Hash.repeating 0x66) by
        decide +kernel] at hparsed
      cases hparsed
      rfl

/-- Asked after it has grown, the server gives its tip. -/
theorem bestTip_real_grown :
    ∃ t, (1 ≤ t ∧ t ≤ 2) ∧ grownTimeline.best t = Hash.repeating 0x66 ∧
      grownTimeline.height (grownTimeline.best t) = 6 := by
  have htip : (askingGrown.bestTip { unused with requests := 1 }).1 =
      .ok ⟨Hash.repeating 0x66, 6, none⟩ := by decide +kernel
  have hreturn : askingGrown.bestTip { unused with requests := 1 } =
      (.ok ⟨Hash.repeating 0x66, 6, none⟩,
        (askingGrown.bestTip { unused with requests := 1 }).2) := by
    rw [← htip]
  have hrequests : (askingGrown.bestTip { unused with requests := 1 }).2.requests = 3 := by
    decide +kernel
  obtain ⟨i, j, hi, hj, hiff⟩ := bestTip_real_iff askingGrown grownTimeline grown_honest 1 2 hreturn
    (fun n hn => hn) (fun n hn => by rw [hrequests] at hn; exact Nat.le_of_lt_succ hn)
  refine hiff.2 ?_
  have hone : i = 1 := Nat.le_antisymm (hi.2 ⟨Nat.le_refl 1, rfl⟩) hi.1.1
  subst hone
  have htwo : j = 2 := Nat.le_antisymm (hj.2 ⟨Nat.le_refl 2, rfl⟩) hj.1.1
  subst htwo
  rfl

/-- Asked while it grows, it gives the height of one block and the hash of the other. -/
theorem bestTip_torn :
    Honest askingGrown grownTimeline ∧
      (askingGrown.bestTip unused).1 = .ok ⟨Hash.repeating 0x66, 5, none⟩ ∧
      ∀ t, ¬(grownTimeline.best t = Hash.repeating 0x66 ∧
        grownTimeline.height (grownTimeline.best t) = 5) := by
  refine ⟨grown_honest, by decide +kernel, fun t => ?_⟩
  rintro ⟨hbest, hheight⟩
  rw [hbest] at hheight
  exact absurd hheight (by decide)

end Tip

end SwiftBitcoinKernel
