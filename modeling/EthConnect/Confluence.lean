import EthConnect.Invariant

/-!
# Successes may be confirmed in either order

`ProducerSuccessLoop` handles the successes of two contexts in whatever order the
producer reports them.  Calling `setInFlightComplete` for `p₁` and then for `p₂`
removes exactly the contexts `AckableBoth p₁ p₂` describes, a set symmetric in the two,
so the map and the contexts are the same in either order.  The marks can differ: with
`p₁` below `p₂` on one partition, confirming `p₁` first marks twice and `p₂` first
marks once.  The last mark of every partition is the same, the message of the highest
context acknowledged (`MarksHighest`), and on different partitions both orders make the
same marks.
-/

namespace EthConnect

/-- `setInFlightComplete` for `p₁` and then for `p₂`, the map iterated in `order₁` and
`order₂`: the bridge after both, and the messages marked, in turn. -/
def setInFlightCompleteBoth (k : KafkaBridge) (p₁ p₂ : Nat)
    (order₁ order₂ : List (Σ _ : String, Nat)) : KafkaBridge × List ConsumerMessage :=
  let first := setInFlightComplete k p₁ order₁
  let second := setInFlightComplete first.1 p₂ order₂
  (second.1, first.2.toList ++ second.2.toList)

/-- The messages marked on partition `partition`, in turn. -/
def marksOn (partition : Int) (marked : List ConsumerMessage) : List ConsumerMessage :=
  marked.filter fun mark => mark.partition = partition

namespace KafkaBridge

/-- The contexts the successes of `p₁` and `p₂` acknowledge between them: on the partition
of either, with every partition-mate at or below them complete once both are. -/
def AckableBoth (k : KafkaBridge) (p₁ p₂ q : Nat) : Prop :=
  q ∈ k.pointers ∧ (k.partitionOf q = k.partitionOf p₁ ∨ k.partitionOf q = k.partitionOf p₂) ∧
    ∀ r ∈ k.pointers, k.partitionOf r = k.partitionOf q → k.offsetOf r ≤ k.offsetOf q →
      r = p₁ ∨ r = p₂ ∨ (k.heap r).complete = true

theorem ackableBoth_comm {k : KafkaBridge} {p₁ p₂ q : Nat} :
    k.AckableBoth p₁ p₂ q ↔ k.AckableBoth p₂ p₁ q := by
  simp only [AckableBoth, or_comm, or_left_comm]

theorem setComplete_heap_congr {k k' : KafkaBridge} (same : k.heap = k'.heap) (p : Nat) :
    (k.setComplete p).heap = (k'.setComplete p).heap := by
  simp [setComplete, modify, same]

theorem setComplete_heap_comm (k : KafkaBridge) (p₁ p₂ : Nat) :
    ((k.setComplete p₁).setComplete p₂).heap = ((k.setComplete p₂).setComplete p₁).heap := by
  funext r
  simp only [setComplete, modify_heap]
  split_ifs <;> simp_all

end KafkaBridge

/-- `mark` is what `MarkOffset` receives for the acknowledged contexts `acked`: the
message of the highest of them, or nothing when there are none. -/
def MarksHighest (k : KafkaBridge) (acked : Nat → Prop) (mark : Option ConsumerMessage) :
    Prop :=
  (mark = none ↔ ∀ q, ¬ acked q) ∧
    ∀ m, mark = some m → ∃ q, acked q ∧ m = (k.heap q).saramaMsg ∧
      ∀ q', acked q' → k.offsetOf q' ≤ k.offsetOf q

namespace MarksHighest

variable {k : KafkaBridge} {acked acked' : Nat → Prop} {mark mark' : Option ConsumerMessage}

theorem congr (marks : MarksHighest k acked mark) (same : ∀ q, acked q ↔ acked' q) :
    MarksHighest k acked' mark := by
  simp only [MarksHighest, ← same] at marks ⊢
  exact marks

theorem unique (distinct : k.DistinctOffsets) {partition : Int}
    (onOne : ∀ q, acked q → q ∈ k.pointers ∧ k.partitionOf q = partition)
    (marks : MarksHighest k acked mark) (marks' : MarksHighest k acked mark') :
    mark = mark' := by
  cases mark with
  | none =>
      cases mark' with
      | none => rfl
      | some m' =>
          obtain ⟨q, ackedQ, -⟩ := marks'.2 m' rfl
          exact absurd ackedQ (marks.1.mp rfl q)
  | some m =>
      obtain ⟨q, ackedQ, rfl, highest⟩ := marks.2 m rfl
      cases mark' with
      | none => exact absurd ackedQ (marks'.1.mp rfl q)
      | some m' =>
          obtain ⟨q', ackedQ', rfl, highest'⟩ := marks'.2 m' rfl
          have same : q = q' :=
            distinct q (onOne q ackedQ).1 q' (onOne q' ackedQ').1
              ((onOne q ackedQ).2.trans (onOne q' ackedQ').2.symm)
              (le_antisymm (highest' q ackedQ) (highest q' ackedQ'))
          rw [same]

end MarksHighest

theorem marksOn_of_forall {marked : List ConsumerMessage} {onto : Int}
    (onOne : ∀ m ∈ marked, m.partition = onto) (partition : Int) :
    marksOn partition marked = if onto = partition then marked else [] := by
  split_ifs with same
  · exact List.filter_eq_self.mpr fun m member => by simp [onOne m member, same]
  · exact List.filter_eq_nil_iff.mpr fun m member => by simp [onOne m member, same]

theorem marksOn_toList_comm {first second : Option ConsumerMessage}
    (apart : ∀ a ∈ first, ∀ b ∈ second, a.partition ≠ b.partition) (partition : Int) :
    marksOn partition (first.toList ++ second.toList) =
      marksOn partition (second.toList ++ first.toList) := by
  cases first with
  | none => simp
  | some a =>
      cases second with
      | none => simp
      | some b =>
          have differs := apart a rfl b rfl
          by_cases onA : a.partition = partition
          · simp [marksOn, List.filter_cons, onA, onA ▸ differs.symm]
          · simp [marksOn, List.filter_cons, onA]

theorem getLast?_toList_append (first second : Option ConsumerMessage) :
    (first.toList ++ second.toList).getLast? = second.or first := by
  cases first <;> cases second <;> rfl

section Diamond

variable {k : KafkaBridge} {p₁ p₂ : Nat} {order₁ order₂ : List (Σ _ : String, Nat)}

theorem KafkaBridge.DistinctOffsets.setInFlightComplete (iteration : order₁.Perm k.inFlight.entries)
    (distinct : k.DistinctOffsets) :
    (EthConnect.setInFlightComplete k p₁ order₁).1.DistinctOffsets := by
  intro p pIn q qIn
  simp only [setInFlightComplete_partitionOf, setInFlightComplete_offsetOf]
  exact distinct p ((mem_setInFlightComplete_pointers iteration distinct).mp pIn).1
    q ((mem_setInFlightComplete_pointers iteration distinct).mp qIn).1

theorem setInFlightComplete_marksHighest (ptr : Nat) (iteration : order₁.Perm k.inFlight.entries)
    (distinct : k.DistinctOffsets) :
    MarksHighest k (k.Ackable ptr) (setInFlightComplete k ptr order₁).2 :=
  ⟨setInFlightComplete_mark_eq_none_iff iteration distinct,
    fun _ => setInFlightComplete_mark_eq_some iteration distinct⟩

theorem setInFlightComplete_mark_partition (iteration : order₁.Perm k.inFlight.entries)
    (distinct : k.DistinctOffsets) :
    ∀ m ∈ (setInFlightComplete k p₁ order₁).2, m.partition = k.partitionOf p₁ := by
  intro m marked
  obtain ⟨q, acked, rfl, -⟩ := setInFlightComplete_mark_eq_some iteration distinct marked
  exact acked.2.1

theorem complete_setInFlightComplete_setComplete (r : Nat) :
    (((setInFlightComplete k p₁ order₁).1.setComplete p₂).heap r).complete = true ↔
      r = p₁ ∨ r = p₂ ∨ (k.heap r).complete = true := by
  rw [KafkaBridge.setComplete_heap_congr setInFlightComplete_heap,
    KafkaBridge.setComplete_complete_eq_true, KafkaBridge.setComplete_complete_eq_true]
  exact or_left_comm

theorem ackableBoth_iff (iteration : order₁.Perm k.inFlight.entries)
    (distinct : k.DistinctOffsets) {q : Nat} :
    k.AckableBoth p₁ p₂ q ↔
      k.Ackable p₁ q ∨ (setInFlightComplete k p₁ order₁).1.Ackable p₂ q := by
  have stays : ∀ {r}, r ∈ (setInFlightComplete k p₁ order₁).1.pointers ↔
      r ∈ k.pointers ∧ ¬ k.Ackable p₁ r :=
    mem_setInFlightComplete_pointers iteration distinct
  constructor
  · rintro ⟨inFlight, partition, mates⟩
    by_cases first : k.Ackable p₁ q
    · exact .inl first
    have onSecond : k.partitionOf q = k.partitionOf p₂ := by
      by_contra other
      have onFirst := partition.resolve_right other
      refine first ⟨inFlight, onFirst, fun r rIn rPart below => ?_⟩
      rcases mates r rIn (rPart.trans onFirst.symm) below with rfl | rfl | complete
      · simp
      · exact absurd (rPart.trans onFirst.symm).symm other
      · simp [complete]
    refine .inr ⟨stays.mpr ⟨inFlight, first⟩, by simpa using onSecond, fun r rIn rPart below => ?_⟩
    simp only [setInFlightComplete_partitionOf, setInFlightComplete_offsetOf] at rPart below
    exact (complete_setInFlightComplete_setComplete r).mpr
      (mates r (stays.mp rIn).1 (rPart.trans onSecond.symm) below)
  · rintro (first | ⟨inFlight, partition, mates⟩)
    · refine ⟨first.1, .inl first.2.1, fun r rIn rPart below => ?_⟩
      exact ((KafkaBridge.setComplete_complete_eq_true _ _ _).mp
        (first.2.2 r rIn (rPart.trans first.2.1) below)).imp_right .inr
    · simp only [setInFlightComplete_partitionOf] at partition
      refine ⟨(stays.mp inFlight).1, .inr partition, fun r rIn rPart below => ?_⟩
      by_cases kept : r ∈ (setInFlightComplete k p₁ order₁).1.pointers
      · exact (complete_setInFlightComplete_setComplete r).mp
          (mates r kept (by simpa using rPart.trans partition) (by simpa using below))
      · have acked : k.Ackable p₁ r := by simpa [stays, rIn] using kept
        exact ((KafkaBridge.setComplete_complete_eq_true _ _ _).mp acked.complete).imp_right .inr

theorem ackableBoth_iff_of_ne {q : Nat} (apart : k.partitionOf q ≠ k.partitionOf p₁) :
    k.AckableBoth p₁ p₂ q ↔ k.Ackable p₂ q := by
  constructor
  · rintro ⟨inFlight, partition, mates⟩
    have onSecond := partition.resolve_left apart
    refine ⟨inFlight, onSecond, fun r rIn rPart below => ?_⟩
    have other : r ≠ p₁ := by
      rintro rfl
      exact apart (rPart.trans onSecond.symm).symm
    exact (KafkaBridge.setComplete_complete_eq_true _ _ _).mpr
      ((mates r rIn (rPart.trans onSecond.symm) below).resolve_left other)
  · rintro ⟨inFlight, partition, mates⟩
    refine ⟨inFlight, .inr partition, fun r rIn rPart below => ?_⟩
    exact .inr ((KafkaBridge.setComplete_complete_eq_true _ _ _).mp
      (mates r rIn (rPart.trans partition) below))

theorem setInFlightCompleteBoth_heap :
    (setInFlightCompleteBoth k p₁ p₂ order₁ order₂).1.heap =
      ((k.setComplete p₁).setComplete p₂).heap := by
  simp only [setInFlightCompleteBoth, setInFlightComplete_heap]
  exact KafkaBridge.setComplete_heap_congr setInFlightComplete_heap p₂

variable (iteration₁ : order₁.Perm k.inFlight.entries)
  (iteration₂ : order₂.Perm (setInFlightComplete k p₁ order₁).1.inFlight.entries)
  (distinct : k.DistinctOffsets)

include iteration₁ iteration₂ distinct

theorem mem_setInFlightCompleteBoth_entries {e : Σ _ : String, Nat} :
    e ∈ (setInFlightCompleteBoth k p₁ p₂ order₁ order₂).1.inFlight.entries ↔
      e ∈ k.inFlight.entries ∧ ¬ k.AckableBoth p₁ p₂ e.2 := by
  rw [setInFlightCompleteBoth, mem_setInFlightComplete_entries iteration₂
    (distinct.setInFlightComplete iteration₁), mem_setInFlightComplete_entries iteration₁ distinct,
    ackableBoth_iff iteration₁ distinct, not_or, and_assoc]

theorem marksHighest_second (p₂ : Nat) :
    MarksHighest k ((setInFlightComplete k p₁ order₁).1.Ackable p₂)
      (setInFlightComplete (setInFlightComplete k p₁ order₁).1 p₂ order₂).2 := by
  have second := setInFlightComplete_marksHighest p₂ iteration₂
    (distinct.setInFlightComplete iteration₁)
  simpa only [MarksHighest, setInFlightComplete_offsetOf, setInFlightComplete_heap,
    KafkaBridge.setComplete_saramaMsg] using second

theorem mem_setInFlightCompleteBoth_marks :
    ∀ m ∈ (setInFlightCompleteBoth k p₁ p₂ order₁ order₂).2,
      m.partition = k.partitionOf p₁ ∨ m.partition = k.partitionOf p₂ := by
  intro m marked
  simp only [setInFlightCompleteBoth, List.mem_append, Option.mem_toList] at marked
  rcases marked with first | second
  · exact .inl (setInFlightComplete_mark_partition iteration₁ distinct m first)
  · have onSecond := setInFlightComplete_mark_partition iteration₂
      (distinct.setInFlightComplete iteration₁) m second
    exact .inr (by simpa using onSecond)

theorem setInFlightComplete_mark_of_ne (apart : k.partitionOf p₁ ≠ k.partitionOf p₂)
    {order₂' : List (Σ _ : String, Nat)} (iteration₂' : order₂'.Perm k.inFlight.entries) :
    (setInFlightComplete (setInFlightComplete k p₁ order₁).1 p₂ order₂).2 =
      (setInFlightComplete k p₂ order₂').2 := by
  refine ((marksHighest_second iteration₁ iteration₂ distinct p₂).congr fun q => ?_).unique
    distinct (fun q acked => ⟨acked.1, acked.2.1⟩)
    (setInFlightComplete_marksHighest p₂ iteration₂' distinct)
  constructor
  · intro acked
    have partition : k.partitionOf q = k.partitionOf p₂ := by simpa using acked.2.1
    exact (ackableBoth_iff_of_ne (partition ▸ apart.symm)).mp
      ((ackableBoth_iff iteration₁ distinct).mpr (.inr acked))
  · intro acked
    rcases (ackableBoth_iff iteration₁ distinct).mp
      ((ackableBoth_iff_of_ne (acked.2.1 ▸ apart.symm)).mpr acked) with first | later
    · exact absurd (first.2.1.symm.trans acked.2.1) apart
    · exact later

theorem marksHighest_or (same : k.partitionOf p₁ = k.partitionOf p₂) :
    MarksHighest k (k.AckableBoth p₁ p₂)
      ((setInFlightComplete (setInFlightComplete k p₁ order₁).1 p₂ order₂).2.or
        (setInFlightComplete k p₁ order₁).2) := by
  have second := marksHighest_second iteration₁ iteration₂ distinct p₂
  cases marked : (setInFlightComplete (setInFlightComplete k p₁ order₁).1 p₂ order₂).2 with
  | none =>
      refine (setInFlightComplete_marksHighest p₁ iteration₁ distinct).congr fun q => ?_
      rw [ackableBoth_iff iteration₁ distinct]
      exact (or_iff_left (second.1.mp marked q)).symm
  | some m =>
      obtain ⟨q, acked, rfl, highest⟩ := second.2 m marked
      refine ⟨by simpa using ⟨q, (ackableBoth_iff iteration₁ distinct).mpr (.inr acked)⟩,
        fun m found => ⟨q, (ackableBoth_iff iteration₁ distinct).mpr (.inr acked),
          (Option.some.inj found).symm, fun q' acked' => ?_⟩⟩
      rcases (ackableBoth_iff iteration₁ distinct).mp acked' with first | later
      · have partition : k.partitionOf q = k.partitionOf p₁ := by
          simpa [same] using acked.2.1
        exact (offsetOf_lt_of_ackable iteration₁ distinct first acked.1 partition).le
      · exact highest q' later

theorem getLast?_marksOn_setInFlightCompleteBoth (same : k.partitionOf p₁ = k.partitionOf p₂)
    (partition : Int) :
    (marksOn partition (setInFlightCompleteBoth k p₁ p₂ order₁ order₂).2).getLast? =
      if k.partitionOf p₁ = partition then
        (setInFlightComplete (setInFlightComplete k p₁ order₁).1 p₂ order₂).2.or
          (setInFlightComplete k p₁ order₁).2
      else none := by
  rw [marksOn_of_forall fun m marked =>
    (mem_setInFlightCompleteBoth_marks iteration₁ iteration₂ distinct m marked).elim id
      (·.trans same.symm)]
  split_ifs
  · exact getLast?_toList_append _ _
  · rfl

end Diamond

section BothOrders

variable {k : KafkaBridge} {p₁ p₂ : Nat} {order₁ order₂ order₂' order₁' : List (Σ _ : String, Nat)}
  (distinct : k.DistinctOffsets) (iteration₁ : order₁.Perm k.inFlight.entries)
  (iteration₂ : order₂.Perm (setInFlightComplete k p₁ order₁).1.inFlight.entries)
  (iteration₂' : order₂'.Perm k.inFlight.entries)
  (iteration₁' : order₁'.Perm (setInFlightComplete k p₂ order₂').1.inFlight.entries)

include distinct iteration₁ iteration₂ iteration₂' iteration₁'

theorem marksOn_setInFlightCompleteBoth_comm (apart : k.partitionOf p₁ ≠ k.partitionOf p₂)
    (partition : Int) :
    marksOn partition (setInFlightCompleteBoth k p₁ p₂ order₁ order₂).2 =
      marksOn partition (setInFlightCompleteBoth k p₂ p₁ order₂' order₁').2 := by
  simp only [setInFlightCompleteBoth]
  rw [setInFlightComplete_mark_of_ne iteration₁ iteration₂ distinct apart iteration₂',
    setInFlightComplete_mark_of_ne iteration₂' iteration₁' distinct (Ne.symm apart) iteration₁]
  refine marksOn_toList_comm (fun a first b second same => apart ?_) partition
  rw [← setInFlightComplete_mark_partition iteration₁ distinct a first,
    ← setInFlightComplete_mark_partition iteration₂' distinct b second, same]

theorem getLast?_marksOn_setInFlightCompleteBoth_comm
    (same : k.partitionOf p₁ = k.partitionOf p₂) (partition : Int) :
    (marksOn partition (setInFlightCompleteBoth k p₁ p₂ order₁ order₂).2).getLast? =
      (marksOn partition (setInFlightCompleteBoth k p₂ p₁ order₂' order₁').2).getLast? := by
  have onOne : ∀ q, k.AckableBoth p₁ p₂ q → q ∈ k.pointers ∧ k.partitionOf q = k.partitionOf p₁ :=
    fun q acked => ⟨acked.1, acked.2.1.elim id (·.trans same.symm)⟩
  have highest := (marksHighest_or iteration₁ iteration₂ distinct same).unique distinct onOne
    ((marksHighest_or iteration₂' iteration₁' distinct same.symm).congr
      fun _ => KafkaBridge.ackableBoth_comm)
  rw [getLast?_marksOn_setInFlightCompleteBoth iteration₁ iteration₂ distinct same,
    getLast?_marksOn_setInFlightCompleteBoth iteration₂' iteration₁' distinct same.symm,
    ← same, highest]

end BothOrders

variable {conf : KafkaBridgeConf} {s : System}

/-- Confirming two contexts of a reachable state in either order leaves the same map and
the same contexts, complete flags included, and the same last mark on every partition;
on different partitions both orders make the same marks on each partition. -/
theorem setInFlightComplete_confluent (reachable : Reachable conf s) {p₁ p₂ : Nat}
    {order₁ order₂ order₂' order₁' : List (Σ _ : String, Nat)}
    (iteration₁ : order₁.Perm s.bridge.inFlight.entries)
    (iteration₂ : order₂.Perm (setInFlightComplete s.bridge p₁ order₁).1.inFlight.entries)
    (iteration₂' : order₂'.Perm s.bridge.inFlight.entries)
    (iteration₁' : order₁'.Perm (setInFlightComplete s.bridge p₂ order₂').1.inFlight.entries) :
    (setInFlightCompleteBoth s.bridge p₁ p₂ order₁ order₂).1.heap =
      (setInFlightCompleteBoth s.bridge p₂ p₁ order₂' order₁').1.heap ∧
    (∀ e, e ∈ (setInFlightCompleteBoth s.bridge p₁ p₂ order₁ order₂).1.inFlight.entries ↔
      e ∈ (setInFlightCompleteBoth s.bridge p₂ p₁ order₂' order₁').1.inFlight.entries) ∧
    (∀ partition,
      (marksOn partition (setInFlightCompleteBoth s.bridge p₁ p₂ order₁ order₂).2).getLast? =
        (marksOn partition (setInFlightCompleteBoth s.bridge p₂ p₁ order₂' order₁').2).getLast?) ∧
    (s.bridge.partitionOf p₁ ≠ s.bridge.partitionOf p₂ → ∀ partition,
      marksOn partition (setInFlightCompleteBoth s.bridge p₁ p₂ order₁ order₂).2 =
        marksOn partition (setInFlightCompleteBoth s.bridge p₂ p₁ order₂' order₁').2) := by
  have distinct := (Reaches.wf reachable).distinctOffsets
  refine ⟨?_, fun e => ?_, fun partition => ?_,
    marksOn_setInFlightCompleteBoth_comm distinct iteration₁ iteration₂ iteration₂' iteration₁'⟩
  · rw [setInFlightCompleteBoth_heap, setInFlightCompleteBoth_heap,
      KafkaBridge.setComplete_heap_comm]
  · rw [mem_setInFlightCompleteBoth_entries iteration₁ iteration₂ distinct,
      mem_setInFlightCompleteBoth_entries iteration₂' iteration₁' distinct,
      KafkaBridge.ackableBoth_comm]
  by_cases same : s.bridge.partitionOf p₁ = s.bridge.partitionOf p₂
  · exact getLast?_marksOn_setInFlightCompleteBoth_comm distinct iteration₁ iteration₂
      iteration₂' iteration₁' same partition
  · rw [marksOn_setInFlightCompleteBoth_comm distinct iteration₁ iteration₂ iteration₂'
      iteration₁' same]

/-- Confirming 11 and then 10 marks 11 once; confirming 10 first marks 10 and then 11.
In both orders the last mark of the partition is 11. -/
theorem outOfOrder_confirm_ten_eleven_either_order :
    sampleOrder.Perm (outOfOrderState 12).bridge.inFlight.entries ∧
    sampleOrder.Perm
      (setInFlightComplete (outOfOrderState 12).bridge 1 sampleOrder).1.inFlight.entries ∧
    [⟨"in:0:11", 1⟩, ⟨"in:0:12", 2⟩].Perm
      (setInFlightComplete (outOfOrderState 12).bridge 0 sampleOrder).1.inFlight.entries ∧
    (marksOn 0 (setInFlightCompleteBoth (outOfOrderState 12).bridge 1 0 sampleOrder
        sampleOrder).2).getLast? =
      (marksOn 0 (setInFlightCompleteBoth (outOfOrderState 12).bridge 0 1 sampleOrder
        [⟨"in:0:11", 1⟩, ⟨"in:0:12", 2⟩]).2).getLast? :=
  have reachable : Reachable sampleConf (outOfOrderState 12) :=
    outOfOrderState_reachable (by decide)
  have iteration₁ : sampleOrder.Perm (outOfOrderState 12).bridge.inFlight.entries := by decide
  have iteration₂ : sampleOrder.Perm
      (setInFlightComplete (outOfOrderState 12).bridge 1 sampleOrder).1.inFlight.entries := by
    decide
  have iteration₁' : [⟨"in:0:11", 1⟩, ⟨"in:0:12", 2⟩].Perm
      (setInFlightComplete (outOfOrderState 12).bridge 0 sampleOrder).1.inFlight.entries := by
    decide
  ⟨iteration₁, iteration₂, iteration₁',
    (setInFlightComplete_confluent reachable iteration₁ iteration₂ iteration₁ iteration₁').2.2.1 0⟩

end EthConnect
