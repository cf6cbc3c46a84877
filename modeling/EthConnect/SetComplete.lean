import EthConnect.InFlight
import Mathlib.Data.List.Sort

/-!
# `setInFlightComplete` acknowledges the complete prefix of a partition

`setInFlightComplete` marks a context complete, collects the in-flight contexts of its
partition in the map's iteration order, sorts them by offset, and removes the complete
prefix of the sorted list, marking the offset of its last element on the consumer.
Go randomises map iteration and `sort.Sort` is not stable; the model sorts the
iteration order `order` stably, and ranging over `order` covers whatever order the Go
sort leaves.  With distinct offsets on the partition the result does not depend on
`order`: it removes exactly the contexts whose partition-mates at or below their offset
are all complete (`Ackable`), and marks the highest of them.
-/

namespace EthConnect

/-- `ctxByOffset.Less`, as the preorder on context pointers `sort.Sort` orders by. -/
def offsetLE (heap : Nat → MsgContext) (p q : Nat) : Prop :=
  (heap p).saramaMsg.offset ≤ (heap q).saramaMsg.offset

instance (heap : Nat → MsgContext) : DecidableRel (offsetLE heap) := fun p q =>
  inferInstanceAs (Decidable ((heap p).saramaMsg.offset ≤ (heap q).saramaMsg.offset))

instance (heap : Nat → MsgContext) : IsTotal Nat (offsetLE heap) :=
  ⟨fun _ _ => Int.le_total _ _⟩

instance (heap : Nat → MsgContext) : IsTrans Nat (offsetLE heap) :=
  ⟨fun _ _ _ => Int.le_trans⟩

instance (heap : Nat → MsgContext) : IsRefl Nat (offsetLE heap) :=
  ⟨fun _ => Int.le_refl _⟩

namespace KafkaBridge

/-- The partition of the message behind a context pointer. -/
def partitionOf (k : KafkaBridge) (p : Nat) : Int :=
  (k.heap p).saramaMsg.partition

/-- The offset of the message behind a context pointer. -/
def offsetOf (k : KafkaBridge) (p : Nat) : Int :=
  (k.heap p).saramaMsg.offset

@[simp] theorem setComplete_partitionOf (k : KafkaBridge) p q :
    (k.setComplete p).partitionOf q = k.partitionOf q := by
  simp [partitionOf]

@[simp] theorem setComplete_offsetOf (k : KafkaBridge) p q :
    (k.setComplete p).offsetOf q = k.offsetOf q := by
  simp [offsetOf]

@[simp] theorem deleteAll_partitionOf (k : KafkaBridge) keys q :
    (k.deleteAll keys).partitionOf q = k.partitionOf q :=
  rfl

@[simp] theorem deleteAll_offsetOf (k : KafkaBridge) keys q :
    (k.deleteAll keys).offsetOf q = k.offsetOf q :=
  rfl

/-- No two in-flight contexts share a partition and an offset, as when every message
comes from the one inbound topic. -/
def DistinctOffsets (k : KafkaBridge) : Prop :=
  ∀ p ∈ k.pointers, ∀ q ∈ k.pointers, k.partitionOf p = k.partitionOf q →
    k.offsetOf p = k.offsetOf q → p = q

/-- The contexts `setInFlightComplete k ptr` is meant to acknowledge: on the partition
of `ptr`, with every partition-mate at or below their offset complete once `ptr` is. -/
def Ackable (k : KafkaBridge) (ptr q : Nat) : Prop :=
  q ∈ k.pointers ∧ k.partitionOf q = k.partitionOf ptr ∧
    ∀ p ∈ k.pointers, k.partitionOf p = k.partitionOf ptr → k.offsetOf p ≤ k.offsetOf q →
      ((k.setComplete ptr).heap p).complete

end KafkaBridge

/-- The local `completeInParition`: the in-flight pointers on the partition of `ptr`, in
the iteration order `order`. -/
def completeInParition (k : KafkaBridge) (ptr : Nat) (order : List (Σ _ : String, Nat)) :
    List Nat :=
  (order.map (·.2)).filter fun p => k.partitionOf p = k.partitionOf ptr

/-- The local `readyToAck`: the complete prefix of `completeInParition` sorted by offset. -/
def readyToAck (k : KafkaBridge) (ptr : Nat) (order : List (Σ _ : String, Nat)) :
    List Nat :=
  ((completeInParition k ptr order).insertionSort (offsetLE k.heap)).takeWhile
    fun p => (k.heap p).complete

/-- `setInFlightComplete`: mark `ptr` complete, delete the contexts of `readyToAck`
from the map, and mark the message of the last of them on the consumer. -/
def setInFlightComplete (k : KafkaBridge) (ptr : Nat) (order : List (Σ _ : String, Nat)) :
    KafkaBridge × Option ConsumerMessage :=
  let k := k.setComplete ptr
  let ready := readyToAck k ptr order
  match ready.getLast? with
  | none => (k, none)
  | some highest =>
      (k.deleteAll (ready.map fun p => (k.heap p).reqOffset), some (k.heap highest).saramaMsg)

/-! ## The complete prefix of a strictly sorted list -/

theorem mem_takeWhile_of_sorted {α : Type} {f : α → Int} {c : α → Bool} {x : α} :
    ∀ {l : List α}, l.Sorted (fun a b => f a < f b) →
      (x ∈ l.takeWhile c ↔ x ∈ l ∧ ∀ y ∈ l, f y ≤ f x → c y = true)
  | [], _ => by simp
  | a :: l, sorted => by
      obtain ⟨above, rest⟩ := List.sorted_cons.mp sorted
      have ih := mem_takeWhile_of_sorted (x := x) (c := c) rest
      by_cases first : c a = true
      · rw [List.takeWhile_cons_of_pos first, List.mem_cons, ih]
        simp only [List.mem_cons, forall_eq_or_imp, first, implies_true, true_and]
        constructor
        · rintro (rfl | ⟨member, upTo⟩)
          · exact ⟨.inl rfl, fun y member below => absurd below (not_le.mpr (above y member))⟩
          · exact ⟨.inr member, upTo⟩
        · rintro ⟨rfl | member, upTo⟩
          · exact .inl rfl
          · exact .inr ⟨member, upTo⟩
      · rw [List.takeWhile_cons_of_neg first]
        simp only [List.not_mem_nil, false_iff, not_and]
        intro member upTo
        apply first
        apply upTo a (List.mem_cons_self a l)
        rcases List.mem_cons.mp member with rfl | later
        · exact le_rfl
        · exact (above x later).le

theorem le_of_getLast?_eq_some {α : Type} {r : α → α → Prop} [IsRefl α r] {l : List α}
    {last x : α} (sorted : l.Sorted r) (found : l.getLast? = some last) (member : x ∈ l) :
    r x last := by
  obtain ⟨front, rfl⟩ := List.getLast?_eq_some_iff.mp found
  rcases List.mem_append.mp member with early | final
  · exact (List.pairwise_append.mp sorted).2.2 x early last (List.mem_singleton_self last)
  · rw [List.mem_singleton.mp final]
    exact refl last

/-! ## What `setInFlightComplete` does -/

section Spec

variable {k : KafkaBridge} {ptr : Nat} {order : List (Σ _ : String, Nat)}

theorem mem_completeInParition (iteration : order.Perm k.inFlight.entries) {q : Nat} :
    q ∈ completeInParition k ptr order ↔
      q ∈ k.pointers ∧ k.partitionOf q = k.partitionOf ptr := by
  simp [completeInParition, (iteration.map (·.2)).mem_iff, KafkaBridge.pointers]

theorem completeInParition_nodup (iteration : order.Perm k.inFlight.entries) :
    (completeInParition k ptr order).Nodup :=
  ((iteration.map fun e : Σ _ : String, Nat => e.2).nodup_iff.mpr k.pointers_nodup).filter _

theorem sorted_completeInParition (iteration : order.Perm k.inFlight.entries)
    (distinct : k.DistinctOffsets) :
    ((completeInParition k ptr order).insertionSort (offsetLE k.heap)).Sorted
      fun p q => k.offsetOf p < k.offsetOf q := by
  have nodup := (List.perm_insertionSort (offsetLE k.heap) _).nodup_iff.mpr
    (completeInParition_nodup iteration : (completeInParition k ptr order).Nodup)
  refine ((List.sorted_insertionSort (offsetLE k.heap) _).and nodup).imp_of_mem ?_
  intro p q hp hq ⟨below, different⟩
  rw [List.mem_insertionSort, mem_completeInParition iteration] at hp hq
  exact lt_of_le_of_ne below fun same =>
    different (distinct p hp.1 q hq.1 (hp.2.trans hq.2.symm) same)

theorem mem_readyToAck_iff (iteration : order.Perm k.inFlight.entries)
    (distinct : k.DistinctOffsets) {q : Nat} :
    q ∈ readyToAck (k.setComplete ptr) ptr order ↔ k.Ackable ptr q := by
  have iteration' : order.Perm (k.setComplete ptr).inFlight.entries := iteration
  have distinct' : (k.setComplete ptr).DistinctOffsets := by
    simpa [KafkaBridge.DistinctOffsets] using distinct
  rw [readyToAck, mem_takeWhile_of_sorted (sorted_completeInParition iteration' distinct')]
  simp only [List.mem_insertionSort, mem_completeInParition iteration',
    KafkaBridge.setComplete_pointers, KafkaBridge.setComplete_partitionOf,
    KafkaBridge.setComplete_offsetOf, KafkaBridge.Ackable, and_imp, and_assoc]

theorem readyToAck_sorted :
    (readyToAck k ptr order).Sorted (offsetLE k.heap) :=
  (List.sorted_insertionSort (offsetLE k.heap) _).sublist (List.takeWhile_sublist _)

theorem key_mem_readyToAck_iff (iteration : order.Perm k.inFlight.entries)
    (distinct : k.DistinctOffsets) {e : Σ _ : String, Nat} (member : e ∈ k.inFlight.entries) :
    e.1 ∈ (readyToAck (k.setComplete ptr) ptr order).map
        (fun p => ((k.setComplete ptr).heap p).reqOffset) ↔
      k.Ackable ptr e.2 := by
  rw [← mem_readyToAck_iff iteration distinct, k.keyed e member]
  simp only [KafkaBridge.setComplete_reqOffset, List.mem_map]
  constructor
  · rintro ⟨q, ready, same⟩
    have inFlight := ((mem_readyToAck_iff iteration distinct).mp ready).1
    rwa [KafkaBridge.pointer_eq_of_reqOffset_eq inFlight
      (KafkaBridge.mem_entries_iff.mp member).1 same] at ready
  · exact fun ready => ⟨e.2, ready, rfl⟩

theorem setInFlightComplete_heap :
    (setInFlightComplete k ptr order).1.heap = (k.setComplete ptr).heap := by
  dsimp only [setInFlightComplete]
  split <;> rfl

theorem setInFlightComplete_conf :
    (setInFlightComplete k ptr order).1.conf = k.conf := by
  dsimp only [setInFlightComplete]
  split <;> rfl

theorem setInFlightComplete_allocated :
    (setInFlightComplete k ptr order).1.allocated = k.allocated := by
  dsimp only [setInFlightComplete]
  split <;> rfl

theorem mem_setInFlightComplete_entries (iteration : order.Perm k.inFlight.entries)
    (distinct : k.DistinctOffsets) {e : Σ _ : String, Nat} :
    e ∈ (setInFlightComplete k ptr order).1.inFlight.entries ↔
      e ∈ k.inFlight.entries ∧ ¬ k.Ackable ptr e.2 := by
  dsimp only [setInFlightComplete]
  split
  · rename_i noneReady
    have empty := List.getLast?_eq_none_iff.mp noneReady
    simp only [KafkaBridge.setComplete_inFlight]
    exact ⟨fun member => ⟨member, fun ackable => by
      simpa [empty] using (mem_readyToAck_iff iteration distinct).mpr ackable⟩, And.left⟩
  · rw [KafkaBridge.mem_deleteAll_entries]
    exact ⟨fun ⟨member, kept⟩ => ⟨member, fun ackable =>
        kept ((key_mem_readyToAck_iff iteration distinct member).mpr ackable)⟩,
      fun ⟨member, kept⟩ => ⟨member, fun deleted =>
        kept ((key_mem_readyToAck_iff iteration distinct member).mp deleted)⟩⟩

theorem setInFlightComplete_mark_eq_none_iff (iteration : order.Perm k.inFlight.entries)
    (distinct : k.DistinctOffsets) :
    (setInFlightComplete k ptr order).2 = none ↔ ∀ q, ¬ k.Ackable ptr q := by
  simp only [← mem_readyToAck_iff iteration distinct]
  dsimp only [setInFlightComplete]
  split
  · rename_i noneReady
    simp [List.getLast?_eq_none_iff.mp noneReady]
  · rename_i highest found
    simpa using ⟨highest, List.mem_of_getLast?_eq_some found⟩

theorem setInFlightComplete_mark_eq_some (iteration : order.Perm k.inFlight.entries)
    (distinct : k.DistinctOffsets) {mark : ConsumerMessage}
    (marked : (setInFlightComplete k ptr order).2 = some mark) :
    ∃ q, k.Ackable ptr q ∧ mark = (k.heap q).saramaMsg ∧
      ∀ q', k.Ackable ptr q' → k.offsetOf q' ≤ k.offsetOf q := by
  dsimp only [setInFlightComplete] at marked
  split at marked
  · cases marked
  · rename_i highest found
    simp only [Option.some.injEq] at marked
    refine ⟨highest, (mem_readyToAck_iff iteration distinct).mp
      (List.mem_of_getLast?_eq_some found), by simp [← marked], fun q' ackable => ?_⟩
    have below := le_of_getLast?_eq_some readyToAck_sorted found
      ((mem_readyToAck_iff iteration distinct).mpr ackable)
    simpa [offsetLE, KafkaBridge.offsetOf] using below

theorem mem_setInFlightComplete_pointers (iteration : order.Perm k.inFlight.entries)
    (distinct : k.DistinctOffsets) {q : Nat} :
    q ∈ (setInFlightComplete k ptr order).1.pointers ↔ q ∈ k.pointers ∧ ¬ k.Ackable ptr q := by
  simp only [KafkaBridge.pointers, List.mem_map,
    mem_setInFlightComplete_entries iteration distinct]
  constructor
  · rintro ⟨e, ⟨member, kept⟩, rfl⟩
    exact ⟨⟨e, member, rfl⟩, kept⟩
  · rintro ⟨⟨e, member, rfl⟩, kept⟩
    exact ⟨e, ⟨member, kept⟩, rfl⟩

@[simp] theorem setInFlightComplete_partitionOf (q : Nat) :
    (setInFlightComplete k ptr order).1.partitionOf q = k.partitionOf q := by
  simp [KafkaBridge.partitionOf, setInFlightComplete_heap]

@[simp] theorem setInFlightComplete_offsetOf (q : Nat) :
    (setInFlightComplete k ptr order).1.offsetOf q = k.offsetOf q := by
  simp [KafkaBridge.offsetOf, setInFlightComplete_heap]

theorem KafkaBridge.Ackable.complete {q : Nat} (ackable : k.Ackable ptr q) :
    ((k.setComplete ptr).heap q).complete :=
  ackable.2.2 q ackable.1 ackable.2.1 le_rfl

theorem offsetOf_lt_of_ackable (iteration : order.Perm k.inFlight.entries)
    (distinct : k.DistinctOffsets) {q q' : Nat} (acked : k.Ackable ptr q')
    (stays : q ∈ (setInFlightComplete k ptr order).1.pointers)
    (partition : k.partitionOf q = k.partitionOf ptr) : k.offsetOf q' < k.offsetOf q := by
  obtain ⟨inFlight, kept⟩ := (mem_setInFlightComplete_pointers iteration distinct).mp stays
  refine lt_of_not_le fun lower => kept ⟨inFlight, partition, fun r rIn rPart below => ?_⟩
  exact acked.2.2 r rIn rPart (below.trans lower)

/-- `setInFlightComplete` computes the maximal complete prefix of the partition: for
any iteration order, it marks `ptr` complete, removes exactly the `Ackable` contexts
and keeps every other entry, and calls `MarkOffset` once, with the highest removed
message, when it removes any, and not at all otherwise. -/
theorem setInFlightComplete_removes_complete_prefix_of_partition (k : KafkaBridge) (ptr : Nat)
    (order : List (Σ _ : String, Nat)) (iteration : order.Perm k.inFlight.entries)
    (distinct : k.DistinctOffsets) :
    (setInFlightComplete k ptr order).1.heap = (k.setComplete ptr).heap ∧
    (∀ e, e ∈ (setInFlightComplete k ptr order).1.inFlight.entries ↔
      e ∈ k.inFlight.entries ∧ ¬ k.Ackable ptr e.2) ∧
    ((setInFlightComplete k ptr order).2 = none ↔ ∀ q, ¬ k.Ackable ptr q) ∧
    ∀ mark, (setInFlightComplete k ptr order).2 = some mark →
      ∃ q, k.Ackable ptr q ∧ mark = (k.heap q).saramaMsg ∧
        ∀ q', k.Ackable ptr q' → k.offsetOf q' ≤ k.offsetOf q :=
  ⟨setInFlightComplete_heap, fun _ => mem_setInFlightComplete_entries iteration distinct,
    setInFlightComplete_mark_eq_none_iff iteration distinct,
    fun _ => setInFlightComplete_mark_eq_some iteration distinct⟩

end Spec

/-- The map once the requests at offsets 10, 11 and 12 are admitted and 11 and 12
confirmed. -/
def sampleBridge : KafkaBridge :=
  let k := (addInflightMsg (KafkaBridge.new sampleConf) (sampleRequest 10) "a").1
  let k := (addInflightMsg k (sampleRequest 11) "c").1
  let k := (addInflightMsg k (sampleRequest 12) "e").1
  (k.setComplete 1).setComplete 2

/-- One iteration order of the map holding the requests at offsets 10, 11 and 12. -/
def sampleOrder : List (Σ _ : String, Nat) :=
  [⟨"in:0:11", 1⟩, ⟨"in:0:10", 0⟩, ⟨"in:0:12", 2⟩]

/-- Confirming 10 acknowledges the whole partition and marks 12. -/
theorem setInFlightComplete_marks_twelve :
    sampleOrder.Perm sampleBridge.inFlight.entries ∧ sampleBridge.DistinctOffsets ∧
    ∃ q, sampleBridge.Ackable 0 q ∧ sampleRequest 12 = (sampleBridge.heap q).saramaMsg ∧
      ∀ q', sampleBridge.Ackable 0 q' → sampleBridge.offsetOf q' ≤ sampleBridge.offsetOf q :=
  have iteration : sampleOrder.Perm sampleBridge.inFlight.entries := by decide
  have distinct : sampleBridge.DistinctOffsets := by
    unfold KafkaBridge.DistinctOffsets
    decide
  ⟨iteration, distinct, (setInFlightComplete_removes_complete_prefix_of_partition sampleBridge 0
    sampleOrder iteration distinct).2.2.2 (sampleRequest 12) (by decide)⟩

end EthConnect
