import Mathlib
import MarkovDecision.Proofs.Model.TablesStored
import MarkovDecision.Proofs.Reachability.Connected

/-!
# Laws of doubles

Double-precision numbers obey the laws that learning, drawing, unfolding and reaching need of
numbers: the finite ones are ordered, sums of numbers that are not negative behave, and arithmetic
does not tell two numbers of one key apart.

A double is a pattern of 64 bits, which an operation takes apart into sign, mantissa and exponent
and puts together again.  Comparison is read as a lexicographic order of these parts.  To put the
parts of a double together gives the double back, and sums of numbers with a positive sign have a
positive sign, so that adding zero to such a sum changes nothing.
-/

namespace MarkovDecision

open Float.Model (UnpackedFloat Format)
open Float.Model.UnpackedFloat (Sign packComponents)

/-- The parts of a double. -/
def parts (value : Float) : UnpackedFloat :=
  value.toModel.unpack

/-- The double that is closest to some parts. -/
def ofParts (unpacked : UnpackedFloat) : Float :=
  ⟨Float.Model.pack unpacked⟩

theorem add_eq_ofParts (first second : Float) :
    first + second = ofParts (UnpackedFloat.add .binary64 (parts first) (parts second)) :=
  rfl

theorem isFinite_eq_parts (value : Float) : value.isFinite = (parts value).isFinite :=
  rfl

section Order

/-- The place of a double in the order, with invalid numbers above all others. -/
def rank : UnpackedFloat → Int ×ₗ Int ×ₗ Int
  | .notANumber => toLex (3, toLex (0, 0))
  | .infinity .positive => toLex (2, toLex (0, 0))
  | .infinity .negative => toLex (-2, toLex (0, 0))
  | .zero _ => toLex (0, toLex (0, 0))
  | .finite .positive mantissa exponent _ => toLex (1, toLex (exponent, mantissa))
  | .finite .negative mantissa exponent _ => toLex (-1, toLex (-exponent, -mantissa))

theorem compare_sign (first second : Sign) : compare first second =
    match first, second with
    | .negative, .positive => .lt
    | .positive, .negative => .gt
    | _, _ => .eq := by
  cases first <;> cases second <;> rfl

theorem isLE_then_iff (exponent other : Int) (mantissa factor : Nat) :
    ((compare exponent other).then (compare mantissa factor)).isLE = true ↔
      exponent < other ∨ exponent = other ∧ mantissa ≤ factor := by
  rcases lt_trichotomy exponent other with less | rfl | greater
  · simp [compare_lt_iff_lt.mpr less, less]
  · simp [Nat.isLE_compare]
  · simp [compare_gt_iff_gt.mpr greater, greater.le, greater.ne']

theorem isGE_then_iff (exponent other : Int) (mantissa factor : Nat) :
    ((compare exponent other).then (compare mantissa factor)).isGE = true ↔
      other < exponent ∨ exponent = other ∧ factor ≤ mantissa := by
  rcases lt_trichotomy exponent other with less | rfl | greater
  · simp [compare_lt_iff_lt.mpr less, less.le, less.ne]
  · simp [Nat.isGE_compare]
  · simp [compare_gt_iff_gt.mpr greater, greater]

theorem le_iff_rank (first second : UnpackedFloat) : first.le second = true ↔
    first ≠ .notANumber ∧ second ≠ .notANumber ∧ rank first ≤ rank second := by
  rcases first with ⟨_ | _⟩ | _ | _ | ⟨_ | _, mantissa, exponent, _⟩ <;>
    rcases second with ⟨_ | _⟩ | _ | _ | ⟨_ | _, factor, other, _⟩ <;>
    simp [UnpackedFloat.le, UnpackedFloat.compare, rank, Prod.Lex.le_iff, compare_sign,
      isLE_then_iff, isGE_then_iff]

theorem le_iff_parts (first second : Float) :
    first ≤ second ↔ (parts first).le (parts second) = true :=
  ⟨fun isLess => of_decide_eq_true (show Float.le first second = true from isLess),
    fun isLess => show Float.le first second = true from decide_eq_true isLess⟩

theorem lt_iff_parts (first second : Float) :
    first < second ↔ (parts first).lt (parts second) = true :=
  ⟨fun isLess => of_decide_eq_true (show Float.lt first second = true from isLess),
    fun isLess => show Float.lt first second = true from decide_eq_true isLess⟩

theorem ne_notANumber_of_isFinite {value : Float} (finite : value.isFinite = true) :
    parts value ≠ .notANumber := by
  intro invalid
  rw [isFinite_eq_parts, invalid] at finite
  cases finite

instance : FiniteOrder Float where
  le_trans {first middle last} isLess isLessToo := by
    rw [le_iff_parts, le_iff_rank] at isLess isLessToo ⊢
    exact ⟨isLess.1, isLessToo.2.1, isLess.2.2.trans isLessToo.2.2⟩
  le_total {first second} finite alsoFinite := by
    rw [le_iff_parts, le_iff_rank, le_iff_parts, le_iff_rank]
    have isNumber := ne_notANumber_of_isFinite finite
    have alsoNumber := ne_notANumber_of_isFinite alsoFinite
    exact (le_total (rank (parts first)) (rank (parts second))).imp
      (fun isLess => ⟨isNumber, alsoNumber, isLess⟩) (fun isLess => ⟨alsoNumber, isNumber, isLess⟩)

theorem le_of_lt_parts {first second : UnpackedFloat} (isLess : first.lt second = true) :
    first.le second = true := by
  unfold UnpackedFloat.lt at isLess
  unfold UnpackedFloat.le
  cases order : first.compare second with
  | none => simp [order] at isLess
  | some ordering => cases ordering <;> simp_all

instance : UnitOrder Float where
  le_of_lt {first second} isLess :=
    (le_iff_parts first second).mpr (le_of_lt_parts ((lt_iff_parts first second).mp isLess))
  zero_le_zero := rfl
  zero_le_one := by decide +kernel
  one_le_one := by decide +kernel

end Order

theorem ofParts_parts (value : Float) : ofParts (parts value) = value := by
  obtain ⟨⟨bits, valid⟩⟩ := value
  have same := UnpackedFloat.pack_unpack_of_valid valid
  simp only [ofParts, parts, Float.Model.pack, Float.Model.unpack, same]

section Signs

/-- Parts of a number with a positive sign. -/
inductive Unsigned : UnpackedFloat → Prop
  | infinity : Unsigned (.infinity .positive)
  | zero : Unsigned (.zero .positive)
  | finite {mantissa : Nat} {exponent : Int} {isPositive : 0 < mantissa} :
      Unsigned (.finite .positive mantissa exponent isPositive)

theorem Unsigned.ne_notANumber {unpacked : UnpackedFloat} (unsigned : Unsigned unpacked) :
    unpacked ≠ .notANumber := by
  cases unsigned <;> simp

theorem zero_le_parts_iff (unpacked : UnpackedFloat) :
    UnpackedFloat.le (.zero .positive) unpacked = true ↔
      Unsigned unpacked ∨ unpacked = .zero .negative := by
  constructor
  · intro atLeast
    rcases unpacked with ⟨_ | _⟩ | _ | ⟨_ | _⟩ | ⟨_ | _, mantissa, exponent, _⟩
    · cases atLeast
    · exact Or.inl .infinity
    · cases atLeast
    · exact Or.inr rfl
    · exact Or.inl .zero
    · cases atLeast
    · exact Or.inl .finite
  · rintro (unsigned | rfl)
    · cases unsigned <;> rfl
    · rfl

theorem parts_zero : parts 0 = .zero .positive :=
  rfl

theorem zero_le_iff (value : Float) :
    0 ≤ value ↔ Unsigned (parts value) ∨ parts value = .zero .negative := by
  rw [le_iff_parts, parts_zero, zero_le_parts_iff]

/-- What is put together from fields with a positive sign is taken apart into such parts. -/
theorem unsigned_unpack {exponent : BitVec 11} (notLargest : exponent ≠ -1#11)
    (mantissa : BitVec 52) :
    Unsigned (UnpackedFloat.unpack .binary64 (packComponents .binary64 .positive exponent
      mantissa)) := by
  unfold UnpackedFloat.unpack
  simp only [UnpackedFloat.unpackExponent_packComponents,
    UnpackedFloat.unpackMantissa_packComponents, UnpackedFloat.unpackSign_packComponents,
    Sign.ofBitVec_toBitVec]
  rw [if_neg notLargest]
  split
  · split
    · exact .zero
    · exact .finite
  · exact .finite

theorem Unsigned.parts_ofParts {unpacked : UnpackedFloat} (unsigned : Unsigned unpacked) :
    Unsigned (parts (ofParts unpacked)) := by
  have unpackEq : parts (ofParts unpacked) =
      UnpackedFloat.unpack .binary64 (UnpackedFloat.pack .binary64 unpacked) := rfl
  rw [unpackEq]
  cases unsigned with
  | infinity => exact .infinity
  | zero => exact .zero
  | finite =>
      simp only [UnpackedFloat.pack]
      split
      · exact .infinity
      · rename_i notOver
        split
        · refine unsigned_unpack (fun isLargest => ?_) _
          have sameNat := congrArg BitVec.toNat isLargest
          rw [BitVec.toNat_ofNat] at sameNat
          have largest : (-1#11).toNat = 2047 := rfl
          omega
        · exact unsigned_unpack (by decide) _

theorem unsigned_normalize {mantissa : Int} (isPositive : 0 < mantissa) (exponent : Int) :
    Unsigned (UnpackedFloat.normalize .binary64 mantissa exponent .positive) := by
  unfold UnpackedFloat.normalize
  rw [compare_gt_iff_gt.mpr isPositive]
  simp only [UnpackedFloat.round, UnpackedFloat.roundWithAccuracy]
  split
  · exact .zero
  · exact .finite

theorem unsigned_add {first second : UnpackedFloat} (unsigned : Unsigned first)
    (nonneg : Unsigned second ∨ second = .zero .negative) :
    Unsigned (UnpackedFloat.add .binary64 first second) := by
  rcases nonneg with alsoUnsigned | rfl
  · cases unsigned with
    | infinity => cases alsoUnsigned <;> exact .infinity
    | zero =>
        cases alsoUnsigned with
        | infinity => exact .infinity
        | zero => exact .zero
        | finite => exact .finite
    | @finite mantissa exponent isPositive =>
        cases alsoUnsigned with
        | infinity => exact .infinity
        | zero => exact .finite
        | @finite factor other alsoPositive =>
            simp only [UnpackedFloat.add, Sign.apply, UnpackedFloat.decreaseExponent]
            apply unsigned_normalize
            have shifted := Nat.shiftLeft_eq mantissa (exponent - min exponent other).toNat
            have positiveShift : 0 < mantissa <<< (exponent - min exponent other).toNat := by
              rw [shifted]
              positivity
            positivity
  · cases unsigned with
    | infinity => exact .infinity
    | zero => exact .zero
    | finite => exact .finite

end Signs

section Sums

theorem zero_add_of_unsigned {value : Float} (unsigned : Unsigned (parts value)) :
    0 + value = value := by
  have unchanged {unpacked : UnpackedFloat} (unsigned : Unsigned unpacked) :
      UnpackedFloat.add .binary64 (.zero .positive) unpacked = unpacked := by
    cases unsigned <;> rfl
  rw [add_eq_ofParts, parts_zero, unchanged unsigned, ofParts_parts]

theorem unsigned_zero_add {value : Float} (nonneg : 0 ≤ value) : Unsigned (parts (0 + value)) := by
  rw [add_eq_ofParts, parts_zero]
  exact (unsigned_add .zero ((zero_le_iff value).mp nonneg)).parts_ofParts

theorem add_zero_add_of_unsigned {first second : Float} (unsigned : Unsigned (parts first))
    (nonneg : 0 ≤ second) : first + (0 + second) = first + second := by
  rcases (zero_le_iff second).mp nonneg with alsoUnsigned | isNegativeZero
  · rw [zero_add_of_unsigned alsoUnsigned]
  · have isZero : 0 + second = 0 := by
      rw [← ofParts_parts second, isNegativeZero]
      rfl
    have unchanged {unpacked : UnpackedFloat} (unsigned : Unsigned unpacked) :
        UnpackedFloat.add .binary64 unpacked (.zero .positive) =
          UnpackedFloat.add .binary64 unpacked (.zero .negative) := by
      cases unsigned <;> rfl
    rw [isZero, add_eq_ofParts, add_eq_ofParts, parts_zero, isNegativeZero, unchanged unsigned]

theorem lt_zero_iff (value : Float) : value < 0 ↔ parts value ≠ .notANumber ∧ ¬0 ≤ value := by
  rw [lt_iff_parts, le_iff_parts, parts_zero]
  rcases parts value with ⟨_ | _⟩ | _ | ⟨_ | _⟩ | ⟨_ | _, mantissa, exponent, _⟩ <;>
    simp [UnpackedFloat.lt, UnpackedFloat.le, UnpackedFloat.compare]

theorem add_nonneg_of_nonneg {first second : Float} (nonneg : 0 ≤ first) (alsoNonneg : 0 ≤ second) :
    0 ≤ first + second := by
  rw [zero_le_iff] at nonneg alsoNonneg ⊢
  rw [add_eq_ofParts]
  rcases nonneg with unsigned | isNegativeZero
  · exact Or.inl (unsigned_add unsigned alsoNonneg).parts_ofParts
  · rw [isNegativeZero]
    rcases alsoNonneg with unsigned | alsoNegativeZero
    · have sumUnsigned {unpacked : UnpackedFloat} (unsigned : Unsigned unpacked) :
          Unsigned (UnpackedFloat.add .binary64 (.zero .negative) unpacked) := by
        cases unsigned with
        | infinity => exact .infinity
        | zero => exact .zero
        | finite => exact .finite
      exact Or.inl (sumUnsigned unsigned).parts_ofParts
    · rw [alsoNegativeZero]
      exact Or.inr rfl

/-- Neither a zero nor the infinite number is close to one. -/
theorem isFinite_of_near_one {total : Float} (nonneg : 0 ≤ total)
    (near : ¬Model.sumTolerance < Number.magnitude (total - 1)) :
    Number.isFinite total = true ∧ Number.same total 0 = false := by
  have isTotal := ofParts_parts total
  have farZero (sign : Sign) :
      Model.sumTolerance < Number.magnitude (ofParts (.zero sign) - 1) := by
    cases sign <;> decide +kernel
  have farInfinity :
      Model.sumTolerance < Number.magnitude (ofParts (.infinity .positive) - 1) := by
    decide +kernel
  rcases (zero_le_iff total).mp nonneg with unsigned | isNegativeZero
  · generalize found : parts total = unpacked at unsigned isTotal
    cases unsigned with
    | infinity => exact (near (isTotal ▸ farInfinity)).elim
    | zero => exact (near (isTotal ▸ farZero .positive)).elim
    | finite =>
        have finite : total.isFinite = true := by
          rw [isFinite_eq_parts, found]
          rfl
        have notZero : ¬total ≤ 0 := by
          rw [le_iff_parts, found, parts_zero]
          exact Bool.false_ne_true
        exact ⟨finite, by simp [Number.same, notZero]⟩
  · rw [isNegativeZero] at isTotal
    exact (near (isTotal ▸ farZero .negative)).elim

instance : LawfulSum Float where
  zero_le_zero := rfl
  nonneg_of_finite {value} finite notNegative := by
    by_contra notNonneg
    exact notNegative ((lt_zero_iff value).mpr ⟨ne_notANumber_of_isFinite finite, notNonneg⟩)
  not_lt_of_nonneg {value} nonneg isNegative := ((lt_zero_iff value).mp isNegative).2 nonneg
  add_nonneg := add_nonneg_of_nonneg
  add_zero_add nonneg alsoNonneg :=
    add_zero_add_of_unsigned (unsigned_zero_add nonneg) alsoNonneg
  zero_add_add {first second} nonneg alsoNonneg := by
    apply zero_add_of_unsigned
    rw [add_eq_ofParts]
    exact (unsigned_add (unsigned_zero_add nonneg)
      ((zero_le_iff second).mp alsoNonneg)).parts_ofParts
  nearOne := isFinite_of_near_one

instance : LawfulZero Float where
  same_zero_add {value} nonneg := by
    rw [Number.same, Bool.and_eq_true, decide_eq_true_eq, decide_eq_true_eq]
    rcases (zero_le_iff value).mp nonneg with unsigned | isNegativeZero
    · have reflexive : value ≤ value := by
        rw [le_iff_parts, le_iff_rank]
        exact ⟨unsigned.ne_notANumber, unsigned.ne_notANumber, le_refl _⟩
      rw [zero_add_of_unsigned unsigned]
      exact ⟨reflexive, reflexive⟩
    · rw [← ofParts_parts value, isNegativeZero]
      exact ⟨rfl, rfl⟩
  neg_zero_add {value} nonneg := by
    have unchanged {unpacked : UnpackedFloat} (unsigned : Unsigned unpacked) :
        UnpackedFloat.add .binary64 (.zero .negative) unpacked = unpacked := by
      cases unsigned <;> rfl
    have negativeZero : parts (-0) = .zero .negative := rfl
    rw [add_eq_ofParts, negativeZero, unchanged (unsigned_zero_add nonneg), ofParts_parts]

end Sums

section Keys

open Std

/-- The rank of a double as a number, which mirrors the negative numbers below the zeros. -/
theorem toNat_floatRank (value : Float) : (floatRank value).toNat =
    if value.isNaN then 2 ^ 64 - 1
    else if value.toBits.toNat < 2 ^ 63 then 2 ^ 63 + value.toBits.toNat
    else if value.toBits.toNat = 2 ^ 63 then 2 ^ 63
    else 2 ^ 64 - 1 - value.toBits.toNat := by
  have signBit : (0x8000000000000000 : UInt64).toNat = 2 ^ 63 := rfl
  have below : value.toBits < 0x8000000000000000 ↔ value.toBits.toNat < 2 ^ 63 :=
    UInt64.lt_iff_toNat_lt
  have atSign : value.toBits = 0x8000000000000000 ↔ value.toBits.toNat = 2 ^ 63 :=
    UInt64.toNat_inj.symm
  simp only [floatRank, below, atSign]
  split
  · rfl
  · split
    · rename_i below
      rw [UInt64.toNat_or, signBit, Nat.or_comm]
      exact (Nat.two_pow_add_eq_or_of_lt below 1).symm
    · split
      · rfl
      · exact UInt64.toNat_not _

theorem parts_eq_unpack (value : Float) :
    parts value = UnpackedFloat.unpack .binary64 value.toBits.toBitVec := rfl

theorem eq_of_toBits {first second : Float} (same : first.toBits = second.toBits) :
    first = second := by
  rw [← ofParts_parts first, ← ofParts_parts second, parts_eq_unpack, parts_eq_unpack, same]

theorem parts_of_isNaN {value : Float} (invalid : value.isNaN = true) :
    parts value = .notANumber := by
  have invalidParts : (parts value).isNaN = true := invalid
  cases found : parts value with
  | notANumber => rfl
  | _ => rw [found] at invalidParts; cases invalidParts

/-- Parts of one of the two zeros. -/
inductive IsZero : UnpackedFloat → Prop
  | zero (sign : Sign) : IsZero (.zero sign)

theorem isZero_of_toBits {value : Float}
    (noDigits : value.toBits.toNat = 0 ∨ value.toBits.toNat = 2 ^ 63) : IsZero (parts value) := by
  rw [parts_eq_unpack]
  rcases noDigits with bits | bits
  · rw [show value.toBits = 0 from UInt64.toNat_inj.mp bits]
    exact .zero .positive
  · rw [show value.toBits = 0x8000000000000000 from UInt64.toNat_inj.mp bits]
    exact .zero .negative

theorem isNaN_of_toNat_floatRank {value : Float} (highest : (floatRank value).toNat = 2 ^ 64 - 1) :
    value.isNaN = true := by
  by_contra valid
  rw [toNat_floatRank, if_neg valid] at highest
  have bits : value.toBits = 0x7fffffffffffffff := by
    apply UInt64.toNat_inj.mp
    have bitsLt : value.toBits.toNat < 2 ^ 64 := value.toBits.toNat_lt
    have pattern : (0x7fffffffffffffff : UInt64).toNat = 2 ^ 63 - 1 := rfl
    split_ifs at highest <;> omega
  apply valid
  have isNaN_eq : value.isNaN =
      (UnpackedFloat.unpack .binary64 value.toBits.toBitVec).isNaN := rfl
  rw [isNaN_eq, bits]
  rfl

/-- Two doubles with one key are the same, or both are zeros. -/
theorem eq_or_isZero_of_sameKey {first second : Float}
    (sameKey : Number.keyOrder first second = .eq) :
    first = second ∨ IsZero (parts first) ∧ IsZero (parts second) := by
  have sameRank : (floatRank first).toNat = (floatRank second).toNat :=
    congrArg UInt64.toNat (LawfulEqOrd.eq_of_compare sameKey)
  have bothInvalid : first.isNaN = true ↔ second.isNaN = true := by
    constructor <;> intro invalid <;> apply isNaN_of_toNat_floatRank
    · rw [← sameRank, toNat_floatRank, if_pos invalid]
    · rw [sameRank, toNat_floatRank, if_pos invalid]
  by_cases invalid : first.isNaN = true
  · left
    rw [← ofParts_parts first, ← ofParts_parts second, parts_of_isNaN invalid,
      parts_of_isNaN (bothInvalid.mp invalid)]
  · rw [toNat_floatRank, toNat_floatRank, if_neg invalid, if_neg (mt bothInvalid.mpr invalid)]
      at sameRank
    have sameBits : first.toBits.toNat = second.toBits.toNat ∨
        (first.toBits.toNat = 0 ∨ first.toBits.toNat = 2 ^ 63) ∧
          (second.toBits.toNat = 0 ∨ second.toBits.toNat = 2 ^ 63) := by
      have firstLt := first.toBits.toNat_lt
      have secondLt := second.toBits.toNat_lt
      split_ifs at sameRank <;> omega
    exact sameBits.imp (fun same => eq_of_toBits (UInt64.toNat_inj.mp same))
      (And.imp isZero_of_toBits isZero_of_toBits)

theorem sameKey_of_isZero {first second : UnpackedFloat} (isZero : IsZero first)
    (alsoZero : IsZero second) :
    Number.keyOrder (ofParts first) (ofParts second) = .eq := by
  obtain ⟨sign⟩ := isZero
  obtain ⟨other⟩ := alsoZero
  cases sign <;> cases other <;> decide +kernel

instance : TransCmp (Number.keyOrder : Float → Float → Ordering) :=
  inferInstanceAs (TransCmp (compareOn floatRank))

/-- The sign of a zero makes no difference to the key of what an operation gives that answers
zeros for zeros and does not look at the sign otherwise. -/
theorem sameKey_of_operation (operation : UnpackedFloat → UnpackedFloat → UnpackedFloat)
    (keepsZero : ∀ sign own, IsZero (operation (.zero sign) (.zero own)))
    (ignoresSign : ∀ sign other weight,
      IsZero weight ∨ operation (.zero sign) weight = operation (.zero other) weight)
    {first second : UnpackedFloat} (isZero : IsZero first) (alsoZero : IsZero second)
    (weight : UnpackedFloat) :
    Number.keyOrder (ofParts (operation first weight)) (ofParts (operation second weight)) =
      .eq := by
  obtain ⟨sign⟩ := isZero
  obtain ⟨other⟩ := alsoZero
  rcases ignoresSign sign other weight with ⟨⟨own⟩⟩ | unchanged
  · exact sameKey_of_isZero (keepsZero sign own) (keepsZero other own)
  · rw [unchanged]
    exact ReflCmp.compare_self

theorem sub_eq_ofParts (first second : Float) :
    first - second = ofParts (UnpackedFloat.sub .binary64 (parts first) (parts second)) :=
  rfl

theorem le_iff_of_isZero (bound : UnpackedFloat) {first second : UnpackedFloat}
    (isZero : IsZero first) (alsoZero : IsZero second) :
    bound.le first = true ↔ bound.le second = true := by
  obtain ⟨sign⟩ := isZero
  obtain ⟨other⟩ := alsoZero
  rw [le_iff_rank, le_iff_rank]
  simp [rank]

/-- What is shown of unfolding holds of doubles too, where the two zeros are one key. -/
instance : LawfulNumber Float where
  transCmp_keyOrder := inferInstance
  add_sameKey {first second} weight same := by
    rcases eq_or_isZero_of_sameKey same with rfl | ⟨isZero, alsoZero⟩
    · exact ReflCmp.compare_self
    · refine sameKey_of_operation (UnpackedFloat.add .binary64) ?_ ?_ isZero alsoZero
        (parts weight)
      · intro sign own
        cases sign <;> cases own <;> exact .zero _
      · intro sign other weight
        cases weight with
        | zero own => exact Or.inl (.zero own)
        | _ => exact Or.inr rfl
  sub_sameKey {first second} loss same := by
    rcases eq_or_isZero_of_sameKey same with rfl | ⟨isZero, alsoZero⟩
    · exact ReflCmp.compare_self
    · refine sameKey_of_operation (UnpackedFloat.sub .binary64) ?_ ?_ isZero alsoZero
        (parts loss)
      · intro sign own
        cases sign <;> cases own <;> exact .zero _
      · intro sign other loss
        cases loss with
        | zero own => exact Or.inl (.zero own)
        | _ => exact Or.inr rfl
  le_iff_of_sameKey {first second} bound same := by
    rcases eq_or_isZero_of_sameKey same with rfl | ⟨isZero, alsoZero⟩
    · exact Iff.rfl
    · rw [le_iff_parts, le_iff_parts]
      exact le_iff_of_isZero (parts bound) isZero alsoZero
  sub_zero_sameKey value := by
    rw [sub_eq_ofParts, parts_zero]
    nth_rewrite 2 [← ofParts_parts value]
    cases parts value with
    | zero sign => exact sameKey_of_isZero (by cases sign <;> exact .zero _) (.zero sign)
    | _ => exact ReflCmp.compare_self
  zero_add_one := zero_add_of_unsigned .finite
  zero_lt_infinity infinity isInfinity := by
    cases isInfinity
    decide +kernel
  not_infinity_lt_zero infinity isInfinity := by
    cases isInfinity
    decide +kernel

end Keys

end MarkovDecision
