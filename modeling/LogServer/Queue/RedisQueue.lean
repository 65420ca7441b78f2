import LogServer.Text

/-!
# The Redis queue

The shared queue is a Redis list, and each worker has a list of its own for the batch it has in
flight.  Two Lua scripts move entries between them, atomically: `claim` takes the head of the queue
to the end of an in-flight list, `requeue` puts a whole in-flight list back at the head of the
queue.  Both pass their entries on in chunks, since Lua cannot unpack too many arguments at once.

`claimScript_eq` and `requeueScript_eq` are what the scripts do, whatever the lengths: the chunks leave
no trace.  Everything else about the queue rests on these two.  A number of Lua is a double, which the
lengths of lists and the sizes of batches are far from exceeding.
-/

namespace LogServer

/-- A worker's in-flight list is kept under this prefix and the worker's id. -/
def INFLIGHT_PREFIX : Text := "nls:inflight:".toList

/-- The lists of the queue in Redis.  A key that does not exist holds the empty list. -/
structure Redis (α : Type) where
  queue : List α
  inflight : Text → List α

namespace Redis

variable {α : Type}

/-- `LRANGE`: both ends are included, and negative positions count from the end. -/
def lrange (xs : List α) (start stop : Int) : List α :=
  let start := if start < 0 then max (xs.length + start) 0 else start
  let stop := if stop < 0 then xs.length + stop else stop
  (xs.drop start.toNat).take (stop + 1 - start).toNat

/-- Lua's `unpack(items, i, stop)`, positions counted from one. -/
def unpack (items : List α) (i stop : Nat) : List α := (items.drop (i - 1)).take (stop + 1 - i)

def rpush (xs items : List α) : List α := xs ++ items

/-- `LPUSH`: the arguments are prepended one after another. -/
def lpush (xs items : List α) : List α := items.foldl (fun xs x ↦ x :: xs) xs

/-! ## The claim script -/

/-- The loop that appends the claimed items to the in-flight list, from position `i` on. -/
def claimLoop (items : List α) (i : Nat) (inflight : List α) : List α :=
  if i ≤ items.length then
    let stop := min (i + 999) items.length
    claimLoop items (stop + 1) (rpush inflight (unpack items i stop))
  else inflight
termination_by items.length + 1 - i

/-- `_CLAIM_LUA`: the lists afterwards, and the claimed items. -/
def claimScript (queue inflight : List α) (n : Nat) : (List α × List α) × List α :=
  let items := lrange queue 0 (n - 1)
  if items.length = 0 then ((queue, inflight), items)
  else ((lrange queue items.length (-1), claimLoop items 1 inflight), items)

/-! ## The requeue script -/

/-- The loop that collects a chunk, from position `j` down to `start`. -/
def requeueChunk (items : List α) (start j : Nat) : List α := (unpack items start j).reverse

/-- The loop that puts the items back at the head of the queue, from position `i` down. -/
def requeueLoop (items : List α) (i : Nat) (queue : List α) : List α :=
  if 1 ≤ i then
    let start := max (i - 999) 1
    requeueLoop items (start - 1) (lpush queue (requeueChunk items start i))
  else queue
termination_by i
decreasing_by
  have _hpos : 1 ≤ i := ‹1 ≤ i›
  show max (i - 999) 1 - 1 < i
  rw [Nat.max_def]
  split <;> omega

/-- `_REQUEUE_LUA`: the queue afterwards, and how many items went back.  The in-flight list is
deleted. -/
def requeueScript (inflight queue : List α) : List α × Nat :=
  let items := lrange inflight 0 (-1)
  if items.length = 0 then (queue, 0)
  else (requeueLoop items items.length queue, items.length)

/-! ## What the scripts do -/

section scripts

variable (xs items queue inflight : List α)

theorem lrange_all : lrange xs 0 (-1) = xs := by
  show (xs.drop 0).take ((xs.length : Int) + -1 + 1 - 0).toNat = xs
  rw [List.drop_zero]
  exact List.take_of_length_le (by omega)

theorem lrange_take {n : Nat} (hn : 0 < n) : lrange xs 0 (n - 1) = xs.take n := by
  have hstop : ¬(n : Int) - 1 < 0 := by omega
  have hlen : ((n : Int) - 1 + 1 - 0).toNat = n := by omega
  simp only [lrange, if_neg hstop, Int.lt_irrefl, if_false, hlen]
  rfl

theorem lrange_drop (n : Nat) : lrange xs n (-1) = xs.drop n := by
  have hstart : ¬(n : Int) < 0 := by omega
  have hlen : (xs.drop n).length ≤ ((xs.length : Int) + -1 + 1 - n).toNat := by
    rw [List.length_drop]
    omega
  simp only [lrange, if_neg hstart]
  exact List.take_of_length_le hlen

theorem lpush_eq (items : List α) : lpush xs items = items.reverse ++ xs := by
  induction items generalizing xs with
  | nil => rfl
  | cons x items ih =>
      rw [List.reverse_cons, List.append_assoc]
      exact ih (x :: xs)

/-- The items from a position on are a chunk and the items after it. -/
theorem unpack_append_drop {i stop : Nat} (hi : 1 ≤ i) (hstop : i ≤ stop) :
    unpack items i stop ++ items.drop stop = items.drop (i - 1) := by
  have hdrop : items.drop stop = (items.drop (i - 1)).drop (stop + 1 - i) := by
    rw [List.drop_drop]
    congr 1
    omega
  rw [unpack, hdrop, List.take_append_drop]

/-- The items up to a position are the items before a chunk and the chunk. -/
theorem take_append_unpack {start i : Nat} (hstart : 1 ≤ start) (hi : start ≤ i) :
    items.take (start - 1) ++ unpack items start i = items.take i := by
  rw [unpack, ← List.take_add]
  congr 1
  omega

/-- The claim loop appends the rest of the items. -/
theorem claimLoop_eq {i : Nat} (hi : 1 ≤ i) :
    claimLoop items i inflight = inflight ++ items.drop (i - 1) := by
  induction i, inflight using claimLoop.induct items with
  | case1 i inflight hle stop ih =>
      have hstop : i ≤ stop := by
        show i ≤ min (i + 999) items.length
        omega
      rw [claimLoop, if_pos hle, ih (by omega), Nat.add_sub_cancel, rpush, List.append_assoc,
        unpack_append_drop items hi hstop]
  | case2 i inflight hgt =>
      rw [claimLoop, if_neg hgt, List.drop_eq_nil_of_le (by omega), List.append_nil]

/-- The requeue loop prepends the items up to a position. -/
theorem requeueLoop_eq {i : Nat} (hi : i ≤ items.length) :
    requeueLoop items i queue = items.take i ++ queue := by
  induction i, queue using requeueLoop.induct items with
  | case1 i queue hpos start ih =>
      have hle : start ≤ i := Nat.max_le.mpr ⟨Nat.sub_le i 999, hpos⟩
      rw [requeueLoop, if_pos hpos, ih (((Nat.sub_le start 1).trans hle).trans hi), lpush_eq,
        requeueChunk, List.reverse_reverse, ← List.append_assoc,
        take_append_unpack items (Nat.le_max_right _ _) hle]
  | case2 i queue hzero =>
      obtain rfl : i = 0 := by omega
      rw [requeueLoop, if_neg hzero]
      rfl

/-- **The claim script** moves the first `n` entries of the queue to the end of the in-flight
list. -/
theorem claimScript_eq {n : Nat} (hn : 0 < n) :
    claimScript queue inflight n = ((queue.drop n, inflight ++ queue.take n), queue.take n) := by
  rw [claimScript]
  simp only [lrange_take queue hn, lrange_drop]
  split
  · rename_i hlen
    have hqueue : queue = [] := by
      rw [List.length_take] at hlen
      exact List.eq_nil_of_length_eq_zero (by omega)
    subst hqueue
    simp
  · rw [claimLoop_eq _ _ (Nat.le_refl 1)]
    have hdrop : queue.drop (queue.take n).length = queue.drop n := by
      rw [List.length_take]
      by_cases hle : n ≤ queue.length
      · rw [Nat.min_eq_left hle]
      · rw [Nat.min_eq_right (by omega), List.drop_length, List.drop_eq_nil_of_le (by omega)]
    rw [hdrop]
    rfl

/-- **The requeue script** puts the in-flight list back at the head of the queue, in order. -/
theorem requeueScript_eq :
    requeueScript inflight queue = (inflight ++ queue, inflight.length) := by
  rw [requeueScript]
  simp only [lrange_all]
  split
  · rename_i hlen
    rw [List.eq_nil_of_length_eq_zero hlen]
    rfl
  · rw [requeueLoop_eq _ _ (Nat.le_refl _), List.take_length]

end scripts

/-! ## The operations of `LogQueue` -/

variable (r : Redis α) (key : Text)

/-- `push_many`, where `RPUSH` takes effect. -/
def pushMany (payloads : List α) : Redis α := { r with queue := rpush r.queue payloads }

/-- `claim`: up to `count` entries from the head of the queue. -/
def claim (count : Nat) : Redis α × List α :=
  let x := claimScript r.queue (r.inflight key) count
  (⟨x.1.1, Function.update r.inflight key x.1.2⟩, x.2)

/-- `ack`: the in-flight list is deleted. -/
def ack : Redis α := { r with inflight := Function.update r.inflight key [] }

/-- `release`: the in-flight list goes back to the queue. -/
def release : Redis α × Nat :=
  let x := requeueScript (r.inflight key) r.queue
  (⟨x.1, Function.update r.inflight key []⟩, x.2)

theorem claim_eq {count : Nat} (hcount : 0 < count) :
    r.claim key count = (⟨r.queue.drop count,
      Function.update r.inflight key (r.inflight key ++ r.queue.take count)⟩,
      r.queue.take count) := by
  rw [claim, claimScript_eq _ _ hcount]

theorem release_eq :
    r.release key = (⟨r.inflight key ++ r.queue, Function.update r.inflight key []⟩,
      (r.inflight key).length) := by
  rw [release, requeueScript_eq]

/-- A claim on an empty list is undone by a release. -/
theorem release_claim {count : Nat} (hcount : 0 < count) (h : r.inflight key = []) :
    (r.claim key count).1.release key = (r, min count r.queue.length) := by
  have hlist : (r.claim key count).1.inflight key = r.queue.take count := by
    rw [claim_eq _ _ hcount, h]
    exact Function.update_self ..
  have hupdate : Function.update (r.claim key count).1.inflight key [] = r.inflight := by
    rw [claim_eq _ _ hcount, Function.update_idem, ← h, Function.update_eq_self]
  rw [release_eq, hlist, hupdate, claim_eq _ _ hcount, List.take_append_drop, List.length_take]

/-- **The scripts move the right entries in the right order**, whatever the lengths: a claim takes as
many entries as there are up to `count`, a release puts all back before the rest, and the two together
leave nothing to see. -/
theorem claim_release_exact (r : Redis α) (key : Text) {count : Nat} (hcount : 0 < count) :
    ((r.claim key count).2 = r.queue.take (min count r.queue.length) ∧
      (r.claim key count).2 ++ (r.claim key count).1.queue = r.queue ∧
      (r.claim key count).1.inflight =
        Function.update r.inflight key (r.inflight key ++ (r.claim key count).2)) ∧
    r.release key =
      (⟨r.inflight key ++ r.queue, Function.update r.inflight key []⟩, (r.inflight key).length) ∧
    (r.inflight key = [] →
      (r.claim key count).1.release key = (r, min count r.queue.length) ∧
        ((r.claim key count).1.release key).1.claim key count = r.claim key count) := by
  refine ⟨?_, release_eq r key, fun h ↦ ⟨release_claim r key hcount h, ?_⟩⟩
  · rw [claim_eq r key hcount]
    exact ⟨List.take_eq_take_min, List.take_append_drop count r.queue, rfl⟩
  · rw [release_claim r key hcount h]

/-- Two of three entries are claimed, and put back. -/
theorem claim_release_exact_three :
    ((⟨[1, 2, 3], fun _ ↦ []⟩ : Redis Nat).claim "w".toList 2).2 = [1, 2] ∧
      ((⟨[1, 2, 3], fun _ ↦ []⟩ : Redis Nat).claim "w".toList 2).1.release "w".toList =
        (⟨[1, 2, 3], fun _ ↦ []⟩, 2) := by
  obtain ⟨⟨hclaimed, -, -⟩, -, hback⟩ :=
    claim_release_exact (⟨[1, 2, 3], fun _ ↦ []⟩ : Redis Nat) "w".toList Nat.zero_lt_two
  exact ⟨hclaimed, (hback rfl).1⟩

/-! ## Conservation -/

/-- The entries of the queue and of some in-flight lists. -/
def total (K : Finset Text) : Multiset α := r.queue + ∑ key ∈ K, (r.inflight key : Multiset α)

variable {r key} {K : Finset Text}

/-- Entries that move between the queue and a list are still there. -/
theorem total_update (hkey : key ∈ K) {queue list : List α}
    (h : (queue : Multiset α) + list = r.queue + r.inflight key) :
    (⟨queue, Function.update r.inflight key list⟩ : Redis α).total K = r.total K := by
  have hsum : ∀ xs : List α, (∑ k ∈ K, (Function.update r.inflight key xs k : Multiset α)) =
      xs + ∑ k ∈ K \ {key}, (r.inflight k : Multiset α) := by
    intro xs
    rw [← Finset.sum_update_of_mem hkey]
    refine Finset.sum_congr rfl fun k _ ↦ ?_
    rw [Function.update_apply, Function.update_apply]
    split <;> rfl
  have hold := hsum (r.inflight key)
  rw [Function.update_eq_self] at hold
  rw [total, total, hsum list, hold, ← add_assoc, ← add_assoc, h]

theorem total_claim (hkey : key ∈ K) {count : Nat} (hcount : 0 < count) :
    (r.claim key count).1.total K = r.total K := by
  rw [claim_eq _ _ hcount]
  refine total_update hkey ?_
  have hsplit : (r.queue : Multiset α) = r.queue.take count + r.queue.drop count := by
    rw [Multiset.coe_add, List.take_append_drop]
  rw [hsplit, ← Multiset.coe_add]
  ac_rfl

theorem total_release (hkey : key ∈ K) : (r.release key).1.total K = r.total K := by
  rw [release_eq]
  refine total_update hkey ?_
  rw [Multiset.coe_add, Multiset.coe_add, List.append_nil, Multiset.coe_eq_coe]
  exact List.perm_append_comm

theorem total_pushMany (payloads : List α) :
    (r.pushMany payloads).total K = r.total K + payloads := by
  rw [pushMany, total, rpush, ← Multiset.coe_add, total, add_right_comm]

theorem total_mono {K' : Finset Text} (h : K ⊆ K') : r.total K ≤ r.total K' :=
  add_le_add_right (Finset.sum_le_sum_of_subset h) _

/-- An acknowledgement adds nothing. -/
theorem total_ack_le : (r.ack key).total K ≤ r.total K := by
  refine add_le_add_right (Finset.sum_le_sum fun k _ ↦ ?_) _
  show (Function.update r.inflight key [] k : Multiset α) ≤ _
  rw [Function.update_apply]
  split
  · exact Multiset.zero_le _
  · exact le_refl _

theorem mem_total_inflight {x : α} (hkey : key ∈ K) (h : x ∈ r.inflight key) : x ∈ r.total K :=
  Multiset.mem_add.mpr (.inr (Multiset.mem_sum.mpr ⟨key, hkey, h⟩))

end Redis

end LogServer
