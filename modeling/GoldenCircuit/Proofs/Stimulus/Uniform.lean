import Mathlib.Algebra.Order.Floor.Div
import Mathlib.Data.FinEnum
import Mathlib.Data.Int.CardIntervalMod
import Mathlib.Data.Nat.Digits.Lemmas
import Mathlib.Data.Set.Card
import Mathlib.Data.Set.Finite.List
import Mathlib.Probability.Distributions.Uniform
import GoldenCircuit.Proofs.Stimulus

/-! Where the values of a stimulus come from. A value of a width is made up of as many words as cover
the width, whatever the words are, and every value is made up by the same number of word lists. So
words that are drawn independently and uniformly give values that are distributed uniformly. -/
namespace GoldenCircuit

/-- The value of a width that words make up. -/
def Width.compose (width : Width) (words : List UInt32) : Nat :=
  truncate (ofWords words) width

/-- The draws are those of the states one after the other, however each of them turns out. -/
theorem Xoshiro.draws_eq (count : Nat) (state : Xoshiro) :
    state.draws count =
      ((List.range count).map fun step => (advance^[step] state).draw, advance^[count] state) := by
  induction count generalizing state with
  | zero => rfl
  | succ count ih =>
    rw [draws, ih, List.range_succ_eq_map, List.map_cons, List.map_map]
    rfl

theorem ofWords_eq (words : List UInt32) :
    ofWords words = Nat.ofDigits (2 ^ 32) (words.map (·.toNat)) := by
  rw [ofWords, joinDigits_eq, ofDigits, Nat.ofDigits_eq_foldr]
  rfl

theorem Width.compose_eq (width : Width) (words : List UInt32) :
    width.compose words = ofWords words % 2 ^ width.bits :=
  truncate_eq_mod _ _

theorem Width.compose_lt (width : Width) (words : List UInt32) :
    width.compose words < 2 ^ width.bits :=
  truncate_lt _ _

theorem Width.words_eq (width : Width) : width.words = width.bits ⌈/⌉ 32 := by
  rw [Nat.ceilDiv_eq_add_pred_div]
  rfl

/-- The words cover the width. -/
theorem Width.bits_le (width : Width) : width.bits ≤ 32 * width.words := by
  unfold words
  omega

/-! ### Counting word lists -/

theorem bijOn_map_toNat (count : Nat) :
    Set.BijOn (List.map UInt32.toNat) {words | words.length = count}
      {digits | digits.length = count ∧ ∀ digit ∈ digits, digit < 2 ^ 32} := by
  refine ⟨?_, ?_, ?_⟩
  · rintro words rfl
    refine ⟨List.length_map _, fun digit member => ?_⟩
    obtain ⟨word, -, rfl⟩ := List.mem_map.mp member
    exact word.toNat_lt
  · exact (List.map_injective_iff.mpr fun _ _ => UInt32.toNat_inj.mp).injOn
  · rintro digits ⟨rfl, small⟩
    refine ⟨digits.map UInt32.ofNat, List.length_map _, ?_⟩
    have kept : ∀ digit ∈ digits, (UInt32.toNat ∘ UInt32.ofNat) digit = id digit :=
      fun digit member => UInt32.toNat_ofNat_of_lt' (small digit member)
    rw [List.map_map, List.map_congr_left kept, List.map_id]

/-- Word lists of one length are the numbers below the power of their size. -/
theorem bijOn_ofWords (count : Nat) :
    Set.BijOn ofWords {words | words.length = count} {number | number < 2 ^ (32 * count)} := by
  have digits := (Nat.bijOn_ofDigits (b := 2 ^ 32) (by norm_num) count).comp
    (bijOn_map_toNat count)
  rw [← pow_mul] at digits
  exact digits.congr fun words _ => (ofWords_eq words).symm

theorem ncard_residue {few many value : Nat} (le : few ≤ many) (lt : value < 2 ^ few) :
    {number | number < 2 ^ many ∧ number % 2 ^ few = value}.ncard = 2 ^ (many - few) := by
  have filter : {number | number < 2 ^ many ∧ number % 2 ^ few = value} =
      ((Finset.range (2 ^ many)).filter (· ≡ value [MOD 2 ^ few])) := by
    ext number
    simp [Nat.ModEq, Nat.mod_eq_of_lt lt]
  have divides : 2 ^ many % 2 ^ few = 0 := Nat.mod_eq_zero_of_dvd (Nat.pow_dvd_pow 2 le)
  rw [filter, Set.ncard_coe_finset, ← Nat.count_eq_card_filter_range,
    Nat.count_modEq_card _ (Nat.two_pow_pos few), divides, if_neg (Nat.not_lt_zero _),
    Nat.add_zero, Nat.pow_div le (by decide)]

/-- Every value that fits is made up by the same number of word lists, and no other value by any. -/
theorem Width.ncard_compose {width : Width} {count : Nat} (covers : width.bits ≤ 32 * count)
    (value : Nat) :
    {words : List UInt32 | words.length = count ∧ width.compose words = value}.ncard =
      if value < 2 ^ width.bits then 2 ^ (32 * count - width.bits) else 0 := by
  split
  next fits =>
    have numbers := (bijOn_ofWords count).subset_right
      (r := {number | number < 2 ^ (32 * count) ∧ number % 2 ^ width.bits = value})
      fun number member => member.1
    have lists : {words : List UInt32 | words.length = count ∧ width.compose words = value} =
        {words | words.length = count} ∩ Set.preimage ofWords
          {number | number < 2 ^ (32 * count) ∧ number % 2 ^ width.bits = value} := by
      ext words
      simp only [Set.mem_ofPred_eq, Set.mem_inter_iff, Set.mem_preimage, width.compose_eq]
      exact and_congr_right fun length =>
        (and_iff_right ((bijOn_ofWords count).mapsTo length)).symm
    rw [lists, numbers.ncard_eq, ncard_residue covers fits]
  next exceeds =>
    have none : {words : List UInt32 | words.length = count ∧ width.compose words = value} = ∅ := by
      refine Set.eq_empty_of_forall_notMem fun words ⟨_, made⟩ => exceeds ?_
      exact made ▸ width.compose_lt words
    rw [none, Set.ncard_empty]

/-! ### Independent draws -/

/-- The law under which all values that fit a width are equally probable. -/
noncomputable def Width.uniform (width : Width) : PMF Nat :=
  PMF.uniformOfFinset (Finset.range (2 ^ width.bits))
    (Finset.nonempty_range_iff.mpr (Nat.two_pow_pos _).ne')

/-- So many words, each of them drawn uniformly and independently of the others. -/
noncomputable def randomWords : Nat → PMF (List UInt32)
  | 0 => PMF.pure []
  | count + 1 =>
    (PMF.uniformOfFintype UInt32).bind fun first => (randomWords count).map (first :: ·)

theorem card_word : Fintype.card UInt32 = 2 ^ 32 := by
  have fin : UInt32 ≃ Fin (2 ^ 32) :=
    ⟨UInt32.toFin, UInt32.ofFin, fun _ => rfl, fun _ => rfl⟩
  rw [Fintype.card_congr fin, Fintype.card_fin]

/-- The probability of an outcome is that of everything that leads to it. -/
theorem map_apply_eq_toOuterMeasure {Cause Outcome : Type} (law : PMF Cause) (f : Cause → Outcome)
    (outcome : Outcome) :
    law.map f outcome = law.toOuterMeasure {cause | f cause = outcome} := by
  rw [← PMF.toOuterMeasure_apply_singleton, PMF.toOuterMeasure_map_apply]
  rfl

theorem map_cons_apply (law : PMF (List UInt32)) (first word : UInt32) (words : List UInt32) :
    law.map (first :: ·) (word :: words) = if first = word then law words else 0 := by
  rw [map_apply_eq_toOuterMeasure]
  split
  next same =>
    have only : {later | first :: later = word :: words} = {words} := by simp [same]
    rw [only, PMF.toOuterMeasure_apply_singleton]
  next other =>
    have none : {later | first :: later = word :: words} = ∅ := by simp [other]
    rw [none, MeasureTheory.measure_empty]

theorem map_cons_nil (law : PMF (List UInt32)) (first : UInt32) :
    law.map (first :: ·) [] = 0 := by
  have none : {later | first :: later = []} = ∅ := by simp
  rw [map_apply_eq_toOuterMeasure, none, MeasureTheory.measure_empty]

/-- All lists of so many words are equally probable, and no other list can be drawn. -/
theorem randomWords_apply (count : Nat) (words : List UInt32) :
    randomWords count words =
      if words.length = count then ((2 ^ (32 * count) : Nat) : ENNReal)⁻¹ else 0 := by
  induction count generalizing words with
  | zero => cases words <;> simp [randomWords]
  | succ count ih =>
    rw [randomWords, PMF.bind_apply]
    cases words with
    | nil => simp only [map_cons_nil, mul_zero, tsum_zero, List.length_nil, Nat.zero_ne_add_one,
        if_false]
    | cons word words =>
      have others : ∀ first, first ≠ word → PMF.uniformOfFintype UInt32 first *
          (randomWords count).map (first :: ·) (word :: words) = 0 := by
        intro first other
        rw [map_cons_apply, if_neg other, mul_zero]
      rw [tsum_eq_single word others, map_cons_apply, if_pos rfl, ih,
        PMF.uniformOfFintype_apply, card_word, List.length_cons]
      simp only [Nat.add_right_cancel_iff]
      split
      next =>
        rw [← ENNReal.mul_inv (.inl (by simp)) (.inl (by simp)), ← Nat.cast_mul, ← pow_add,
          Nat.mul_succ, Nat.add_comm]
      next => rw [mul_zero]

/-- The probability of what words make up is the share of the lists that make it up. -/
theorem map_randomWords_apply {Outcome : Type} (count : Nat) (f : List UInt32 → Outcome)
    (outcome : Outcome) :
    (randomWords count).map f outcome =
      ({words : List UInt32 | words.length = count ∧ f words = outcome}.ncard : ENNReal) *
        ((2 ^ (32 * count) : Nat) : ENNReal)⁻¹ := by
  have finite : {words : List UInt32 | words.length = count ∧ f words = outcome}.Finite :=
    (List.finite_length_eq UInt32 count).subset fun words member => member.1
  have drawn : {words | f words = outcome} ∩ (randomWords count).support = finite.toFinset := by
    ext words
    simp [randomWords_apply, and_comm]
  have each : ∀ words ∈ finite.toFinset,
      randomWords count words = ((2 ^ (32 * count) : Nat) : ENNReal)⁻¹ := fun words member => by
    rw [randomWords_apply, if_pos (finite.mem_toFinset.mp member).1]
  rw [map_apply_eq_toOuterMeasure, ← PMF.toOuterMeasure_apply_inter_support, drawn,
    PMF.toOuterMeasure_apply_finset, Finset.sum_congr rfl each, Finset.sum_const, nsmul_eq_mul,
    ← Set.ncard_eq_toFinset_card _ finite]

/-- Words that are drawn independently and uniformly, and cover a width, make up each value of it with
the same probability. -/
theorem map_randomWords {width : Width} {count : Nat} (covers : width.bits ≤ 32 * count) :
    (randomWords count).map width.compose = width.uniform := by
  ext value
  rw [map_randomWords_apply, width.ncard_compose covers, Width.uniform, PMF.uniformOfFinset_apply,
    Finset.card_range]
  simp only [Finset.mem_range]
  split
  next =>
    -- The bits of the words that exceed the width cancel.
    have powers : 2 ^ (32 * count) = 2 ^ (32 * count - width.bits) * 2 ^ width.bits := by
      rw [← pow_add, Nat.sub_add_cancel covers]
    rw [powers, Nat.cast_mul, ENNReal.mul_inv (.inl (by simp)) (.inl (by simp)), ← mul_assoc,
      ENNReal.mul_inv_cancel (by simp) (by simp), one_mul]
  next => rw [Nat.cast_zero, zero_mul]

namespace Stimulus

/-- A source makes a value of a width up of the fewest words that cover the width, however they turn
out, and goes on after the last of them. The value is the number with these words as its digits, cut
to the width. Every value that fits the width is made up by the same number of word lists and no other
value by any, so that uniform and independent words make up a uniform value. -/
theorem next_uniform (width : Width) :
    width.words = width.bits ⌈/⌉ 32 ∧
    (∀ stimulus : Stimulus, stimulus.next width =
      (width.compose ((List.range width.words).map fun step =>
        (Xoshiro.advance^[step] stimulus.generator).draw),
       ⟨Xoshiro.advance^[width.words] stimulus.generator⟩)) ∧
    (∀ words, width.compose words =
      Nat.ofDigits (2 ^ 32) (words.map (·.toNat)) % 2 ^ width.bits) ∧
    (∀ words, width.compose words < 2 ^ width.bits) ∧
    (∀ value, {words : List UInt32 |
        words.length = width.words ∧ width.compose words = value}.ncard =
      if value < 2 ^ width.bits then 2 ^ (32 * width.words - width.bits) else 0) ∧
    (randomWords width.words).map width.compose = width.uniform := by
  refine ⟨width.words_eq, fun stimulus => ?_, fun words => ?_, width.compose_lt,
    width.ncard_compose width.bits_le, map_randomWords width.bits_le⟩
  · rw [next, Xoshiro.draws_eq]
    rfl
  · rw [width.compose_eq, ofWords_eq]

end Stimulus
end GoldenCircuit
