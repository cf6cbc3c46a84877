import EthConnect.Basic
import Mathlib.Data.Nat.Digits

/-!
# The in-flight key of a message determines its coordinate

`reqOffsetOf` renders a coordinate as `topic:partition:offset`.  A decimal rendering
never contains a colon, so the last two colons of a key split it back into its three
parts, whatever colons the topic holds; and `%d` is injective on integers.  Two
distinct coordinates therefore never share an in-flight key.
-/

namespace EthConnect

namespace Decimal

/-- Reads a list of decimal digits back as a number. -/
def digitsValue (digits : List Char) : Nat :=
  digits.foldl (fun value digit => 10 * value + (digit.toNat - '0'.toNat)) 0

theorem digitsValue_append_singleton (digits : List Char) (digit : Char) :
    digitsValue (digits ++ [digit]) =
      10 * digitsValue digits + (digit.toNat - '0'.toNat) := by
  simp [digitsValue]

private theorem digitChar_spec :
    ∀ d < 10, (Nat.digitChar d).isDigit ∧ (Nat.digitChar d).toNat - '0'.toNat = d := by
  decide

theorem toDigitsCore_ten (fuel n : Nat) (ds : List Char) (enough : n < fuel) :
    ∃ digits, Nat.toDigitsCore 10 fuel n ds = digits ++ ds ∧ digits ≠ [] ∧
      (∀ c ∈ digits, c.isDigit) ∧ digitsValue digits = n := by
  induction fuel generalizing n ds with
  | zero => omega
  | succ fuel ih =>
      have last := digitChar_spec (n % 10) (Nat.mod_lt n (by decide))
      by_cases single : n / 10 = 0
      · refine ⟨[Nat.digitChar (n % 10)], by simp [Nat.toDigitsCore, single], by simp,
          by simpa using last.1, ?_⟩
        simp only [digitsValue, List.foldl_cons, List.foldl_nil, last.2]
        omega
      · obtain ⟨digits, run, nonempty, allDigits, value⟩ :=
          ih (n / 10) (Nat.digitChar (n % 10) :: ds) (by omega)
        refine ⟨digits ++ [Nat.digitChar (n % 10)], ?_, by simp, ?_, ?_⟩
        · simp [Nat.toDigitsCore, single, run]
        · simpa [or_imp, forall_and] using ⟨allDigits, last.1⟩
        · rw [digitsValue_append_singleton, value, last.2]
          omega

theorem repr_spec (n : Nat) :
    (Nat.repr n).data ≠ [] ∧ (∀ c ∈ (Nat.repr n).data, c.isDigit) ∧
      digitsValue (Nat.repr n).data = n := by
  obtain ⟨digits, run, nonempty, allDigits, value⟩ := toDigitsCore_ten (n + 1) n [] (by omega)
  have data : (Nat.repr n).data = digits := by
    simpa [Nat.repr, Nat.toDigits] using run
  exact data ▸ ⟨nonempty, allDigits, value⟩

theorem repr_injective : Function.Injective Nat.repr := fun a b equal => by
  rw [← (repr_spec a).2.2, ← (repr_spec b).2.2, equal]

theorem colon_not_mem_repr (n : Nat) : ':' ∉ (Nat.repr n).data := fun colon => by
  simpa using (repr_spec n).2.1 _ colon

theorem colon_not_mem_int (i : Int) : ':' ∉ (toString i).data := by
  cases i with
  | ofNat n => exact colon_not_mem_repr n
  | negSucc n =>
      simpa [toString, String.data_append] using colon_not_mem_repr (n + 1)

private theorem repr_ne_minus (a b : Nat) : Nat.repr a ≠ "-" ++ Nat.repr b := fun equal => by
  have digits := (repr_spec a).2.1
  obtain ⟨head, tail, split⟩ := List.exists_cons_of_ne_nil (repr_spec a).1
  have first : head = '-' ∧ tail = (Nat.repr b).data := by
    simpa [split] using congrArg String.data equal
  simpa [first.1] using digits head (split ▸ List.mem_cons_self head tail)

theorem int_toString_injective : Function.Injective (toString : Int → String) := by
  intro a b equal
  cases a with
  | ofNat a =>
      cases b with
      | ofNat b => exact congrArg _ (repr_injective equal)
      | negSucc b => exact absurd equal (repr_ne_minus a (b + 1))
  | negSucc a =>
      cases b with
      | ofNat b => exact absurd equal.symm (repr_ne_minus b (a + 1))
      | negSucc b =>
          have tails : Nat.repr (a + 1) = Nat.repr (b + 1) := by
            simpa [toString, String.ext_iff] using equal
          simpa using repr_injective tails

end Decimal

theorem append_cons_inj_of_not_mem {α : Type} {sep : α} :
    ∀ {front front' back back' : List α}, sep ∉ back → sep ∉ back' →
      front ++ sep :: back = front' ++ sep :: back' → front = front' ∧ back = back'
  | [], [], _, _, _, _, equal => ⟨rfl, by simpa using equal⟩
  | [], _ :: tail', _, _, notBack, _, equal => by
      simp only [List.nil_append, List.cons_append, List.cons.injEq] at equal
      exact absurd (equal.2 ▸ List.mem_append_right tail' (List.mem_cons_self sep _)) notBack
  | _ :: tail, [], _, _, _, notBack', equal => by
      simp only [List.nil_append, List.cons_append, List.cons.injEq] at equal
      exact absurd (equal.2.symm ▸ List.mem_append_right tail (List.mem_cons_self sep _))
        notBack'
  | _ :: _, _ :: _, _, _, notBack, notBack', equal => by
      simp only [List.cons_append, List.cons.injEq] at equal
      obtain ⟨fronts, backs⟩ := append_cons_inj_of_not_mem notBack notBack' equal.2
      exact ⟨by rw [equal.1, fronts], backs⟩

theorem reqOffsetOf_data (msg : ConsumerMessage) :
    (reqOffsetOf msg).data = (msg.topic.data ++ ':' :: (toString msg.partition).data) ++
      ':' :: (toString msg.offset).data := by
  simp [reqOffsetOf, String.data_append]

theorem reqOffsetOf_eq_iff {msg msg' : ConsumerMessage} :
    reqOffsetOf msg = reqOffsetOf msg' ↔
      msg.topic = msg'.topic ∧ msg.partition = msg'.partition ∧ msg.offset = msg'.offset := by
  constructor
  · intro equal
    rw [String.ext_iff, reqOffsetOf_data, reqOffsetOf_data] at equal
    obtain ⟨front, offsets⟩ := append_cons_inj_of_not_mem (Decimal.colon_not_mem_int _)
      (Decimal.colon_not_mem_int _) equal
    obtain ⟨topics, partitions⟩ := append_cons_inj_of_not_mem (Decimal.colon_not_mem_int _)
      (Decimal.colon_not_mem_int _) front
    exact ⟨String.ext topics,
      Decimal.int_toString_injective (String.ext partitions),
      Decimal.int_toString_injective (String.ext offsets)⟩
  · rintro ⟨topics, partitions, offsets⟩
    simp [reqOffsetOf, topics, partitions, offsets]

end EthConnect
