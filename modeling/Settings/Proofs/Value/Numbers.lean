import Mathlib
import Settings.Value

/-! # Numbers by their value

A double is a sign, a mantissa and an exponent in its one canonical form, so two
doubles are equal exactly when they are the same point of the number line, and an
integer equals a double exactly when it is the point of the double.
-/

namespace Settings.Decimal

open Float.Model Float.Model.UnpackedFloat

/-- A point of the number line with both its ends. -/
inductive Point
  | finite (q : ℚ)
  | infinite (s : Sign)

def signed : Sign → ℚ → ℚ
  | .positive, q => q
  | .negative, q => -q

def pointOf : UnpackedFloat → Option Point
  | .notANumber => none
  | .infinity s => some (.infinite s)
  | .zero _ => some (.finite 0)
  | .finite s m e _ => some (.finite (signed s (m * 2 ^ e)))

/-- The mantissa is filled up unless the exponent is the least one. -/
structure Canonical (m : Nat) (e : Int) : Prop where
  lt : m < 2 ^ 53
  le : -1074 ≤ e
  full : -1074 < e → 2 ^ 52 ≤ m

variable {m m' : Nat} {e e' : Int} {s : Sign} {x y : Float} {n : Int}

theorem Canonical.exponent_le (h : Canonical m e) (h' : Canonical m' e')
    (heq : (m : ℚ) * 2 ^ e = m' * 2 ^ e') : e' ≤ e := by
  by_contra hlt
  obtain ⟨k, hk⟩ : ∃ k : Nat, e' = e + (k + 1 : Nat) := ⟨(e' - e - 1).toNat, by omega⟩
  have hle := h.le
  have hfull := h'.full (by omega)
  have hmantissa : (m : ℚ) = m' * 2 ^ (k + 1) := by
    have hpos : (2 : ℚ) ^ e ≠ 0 := by positivity
    rw [hk, zpow_add₀ two_ne_zero, zpow_natCast] at heq
    exact mul_right_cancel₀ hpos (by rw [heq]; ring)
  have hnat : m = m' * 2 ^ (k + 1) := by exact_mod_cast hmantissa
  have hpow : 2 ≤ 2 ^ (k + 1) := Nat.le_self_pow (by omega) 2
  have hlarge : 2 ^ 52 * 2 ≤ m := by
    rw [hnat]
    exact Nat.mul_le_mul hfull hpow
  have := h.lt
  omega

theorem Canonical.unique (h : Canonical m e) (h' : Canonical m' e')
    (heq : (m : ℚ) * 2 ^ e = m' * 2 ^ e') : m = m' ∧ e = e' := by
  have hexp : e = e' := le_antisymm (h'.exponent_le h heq.symm) (h.exponent_le h' heq)
  subst hexp
  have hpos : (2 : ℚ) ^ e ≠ 0 := by positivity
  exact ⟨by exact_mod_cast mul_right_cancel₀ hpos heq, rfl⟩

theorem toNat_exponentField (bits : UInt64) :
    ((bits >>> 52) &&& 0x7FF).toNat =
      (@unpackExponent Format.binary64 bits.toBitVec).toNat := by
  simpa [unpackExponent, BitVec.extractLsb] using Nat.and_two_pow_sub_one_eq_mod _ 11

theorem toNat_mantissaField (bits : UInt64) :
    (bits &&& 0xFFFFFFFFFFFFF).toNat =
      (@unpackMantissa Format.binary64 bits.toBitVec).toNat := by
  simpa [unpackMantissa, BitVec.extractLsb] using Nat.and_two_pow_sub_one_eq_mod _ 52

theorem toNat_implicit (f : BitVec 52) : (1#1 ++ f).toNat = 2 ^ 52 + f.toNat := by
  rw [BitVec.toNat_append, ← Nat.shiftLeft_add_eq_or_of_lt f.isLt, Nat.shiftLeft_eq]
  rfl

theorem ofFloat_of_finite {hpos : 0 < m} (h : x.toModel.unpack = .finite s m e hpos) :
    (Binary.ofFloat x).mantissa = m ∧ (Binary.ofFloat x).exponent = e ∧ Canonical m e ∧
      s = Sign.ofBitVec (@unpackSign Format.binary64 x.toBits.toBitVec) := by
  have hlt := (@unpackMantissa Format.binary64 x.toBits.toBitVec).isLt
  change UnpackedFloat.unpack Format.binary64 x.toBits.toBitVec = _ at h
  simp only [UnpackedFloat.unpack] at h
  simp only [Binary.ofFloat, Binary.ofBits, toNat_exponentField, toNat_mantissaField]
  split at h
  · split at h <;> cases h
  · split at h
    · rename_i hzero
      split at h <;> cases h
      rw [hzero]
      refine ⟨rfl, rfl, ⟨?_, by decide, fun hlarge => absurd hlarge (by decide)⟩, rfl⟩
      exact lt_trans hlt (by decide)
    · rename_i hzero
      cases h
      have hne : (@unpackExponent Format.binary64 x.toBits.toBitVec).toNat ≠ 0 :=
        fun heq => hzero (BitVec.eq_of_toNat_eq heq)
      have hmantissa := toNat_implicit (@unpackMantissa Format.binary64 x.toBits.toBitVec)
      have hexponent : ((Format.binary64.exponentBias : Int) + (52 : Nat)) = 1075 := rfl
      rw [if_neg hne, hmantissa, hexponent]
      refine ⟨rfl, rfl, ⟨?_, by omega, fun _ => Nat.le_add_right ..⟩, rfl⟩
      exact Nat.add_lt_add_left hlt (2 ^ 52)

theorem mantissa_of_zero (h : x.toModel.unpack = .zero s) : (Binary.ofFloat x).mantissa = 0 := by
  change UnpackedFloat.unpack Format.binary64 x.toBits.toBitVec = _ at h
  simp only [UnpackedFloat.unpack] at h
  simp only [Binary.ofFloat, Binary.ofBits, toNat_exponentField, toNat_mantissaField]
  split at h
  · split at h <;> cases h
  · split at h
    · split at h
      · rename_i hzero hmantissa
        simp [hzero, hmantissa]
      · cases h
    · cases h

theorem ofBitVec_unpackSign (x : Float) :
    Sign.ofBitVec (@unpackSign Format.binary64 x.toBits.toBitVec) =
      if isNegative x then .negative else .positive := by
  have hsign : (@unpackSign Format.binary64 x.toBits.toBitVec).toNat =
      (x.toBits >>> 63).toNat := by
    have hlt := x.toBits.toNat_lt
    simp [unpackSign, BitVec.extractLsb, Nat.shiftRight_eq_div_pow]
    omega
  have hlt := (@unpackSign Format.binary64 x.toBits.toBitVec).isLt
  simp only [isNegative, Sign.ofBitVec, decide_eq_true_eq, ← UInt64.toNat_inj, ← BitVec.toNat_inj,
    ← hsign]
  split <;> split <;> simp_all <;> omega

def IsCanonical : UnpackedFloat → Prop
  | .finite _ m e _ => Canonical m e
  | _ => True

theorem isCanonical_unpack (x : Float) : IsCanonical x.toModel.unpack := by
  cases h : x.toModel.unpack with
  | finite s m e hpos => exact (ofFloat_of_finite h).2.2.1
  | _ => trivial

theorem signed_ne_zero {q : ℚ} (hpos : 0 < q) : signed s q ≠ 0 := by
  cases s
  · exact neg_ne_zero.2 hpos.ne'
  · exact hpos.ne'

theorem signed_inj {s' : Sign} {q q' : ℚ} (hpos : 0 < q) (hpos' : 0 < q') :
    signed s q = signed s' q' ↔ s = s' ∧ q = q' := by
  cases s <;> cases s' <;> simp [signed]
  · linarith
  · linarith

theorem magnitude_pos (hpos : 0 < m) (e : Int) : 0 < (m : ℚ) * 2 ^ e := by positivity

theorem compare_sign {s s' : Sign} : compare s s' = .eq ↔ s = s' := by
  cases s <;> cases s' <;> simp [compare]

theorem compare_eq_iff {a b : UnpackedFloat} (ha : IsCanonical a) (hb : IsCanonical b) :
    a.compare b = some .eq ↔ ∃ p, pointOf a = some p ∧ pointOf b = some p := by
  cases a with
  | notANumber => cases b <;> simp [UnpackedFloat.compare, pointOf]
  | infinity s =>
    cases b with
    | infinity s' => simp [UnpackedFloat.compare, pointOf, compare_sign, eq_comm (a := s)]
    | _ => cases s <;> simp [UnpackedFloat.compare, pointOf]
  | zero s =>
    cases b with
    | infinity s' => cases s' <;> simp [UnpackedFloat.compare, pointOf]
    | finite s' m' e' hpos' =>
      have hne := signed_ne_zero (s := s') (magnitude_pos hpos' e')
      cases s' <;> simp [UnpackedFloat.compare, pointOf, hne]
    | _ => simp [UnpackedFloat.compare, pointOf]
  | finite s m e hpos =>
    cases b with
    | infinity s' => cases s' <;> cases s <;> simp [UnpackedFloat.compare, pointOf]
    | zero s' =>
      have hne := signed_ne_zero (s := s) (magnitude_pos hpos e)
      cases s <;> simp [UnpackedFloat.compare, pointOf, hne.symm]
    | notANumber => cases s <;> simp [UnpackedFloat.compare, pointOf]
    | finite s' m' e' hpos' =>
      have hpoint : (∃ p, pointOf (.finite s m e hpos) = some p ∧
          pointOf (.finite s' m' e' hpos') = some p) ↔ s = s' ∧ e = e' ∧ m = m' := by
        simp only [pointOf, Option.some.injEq, exists_eq_left', Point.finite.injEq]
        rw [eq_comm, signed_inj (magnitude_pos hpos e) (magnitude_pos hpos' e')]
        refine and_congr_right fun _ => ⟨fun heq => (ha.unique hb heq).symm, ?_⟩
        rintro ⟨rfl, rfl⟩
        rfl
      rw [hpoint]
      cases s <;> cases s' <;> simp [UnpackedFloat.compare]

def pointOfFloat (x : Float) : Option Point := pointOf x.toModel.unpack

theorem beq_iff : (x == y) = true ↔ ∃ p, pointOfFloat x = some p ∧ pointOfFloat y = some p := by
  rw [show (x == y) = (x.toModel.unpack.compare y.toModel.unpack == some .eq) from rfl,
    beq_iff_eq]
  exact compare_eq_iff (isCanonical_unpack x) (isCanonical_unpack y)

/-- A magnitude is a whole number when its fraction is, written without negative powers. -/
theorem magnitude_eq_iff {k : Nat} :
    (m : ℚ) * 2 ^ e = k ↔ m * 2 ^ e.toNat = k * 2 ^ (-e).toNat := by
  have hpow : (2 : ℚ) ^ e * 2 ^ (-e).toNat = 2 ^ e.toNat := by
    rw [← zpow_natCast, ← zpow_natCast, ← zpow_add₀ two_ne_zero]
    congr 1
    omega
  have hpos : (2 : ℚ) ^ (-e).toNat ≠ 0 := by positivity
  rw [← mul_left_inj' hpos, mul_assoc, hpow]
  exact_mod_cast Iff.rfl

theorem floor_eq_iff {b : Binary} {k : Nat} :
    b.floor = k ∧ b.mantissa * Nat.pow 2 b.exponent.toNat % Nat.pow 2 (-b.exponent).toNat = 0 ↔
      (b.mantissa : ℚ) * 2 ^ b.exponent = k := by
  rw [magnitude_eq_iff, Binary.floor]
  simp only [Nat.pow_eq]
  have hpos : 0 < 2 ^ (-b.exponent).toNat := by positivity
  constructor
  · rintro ⟨rfl, hmod⟩
    exact (Nat.div_mul_cancel (Nat.dvd_of_mod_eq_zero hmod)).symm
  · intro heq
    rw [heq]
    exact ⟨Nat.mul_div_cancel _ hpos, Nat.mul_mod_left _ _⟩

theorem signed_of_finite {hpos : 0 < m} (h : x.toModel.unpack = .finite s m e hpos) (q : ℚ) :
    signed s q = if isNegative x then -q else q := by
  rw [(ofFloat_of_finite h).2.2.2, ofBitVec_unpackSign]
  split <;> rfl

theorem pointOfFloat_of_isFinite (h : x.isFinite = true) :
    let magnitude : ℚ := (Binary.ofFloat x).mantissa * 2 ^ (Binary.ofFloat x).exponent
    pointOfFloat x = some (.finite (if isNegative x then -magnitude else magnitude)) := by
  change x.toModel.unpack.isFinite = true at h
  unfold pointOfFloat
  cases hx : x.toModel.unpack with
  | zero s => simp [pointOf, mantissa_of_zero hx]
  | finite s m e hpos =>
    obtain ⟨hm, he, -⟩ := ofFloat_of_finite hx
    simp [pointOf, hm, he, signed_of_finite hx]
  | _ =>
    rw [hx] at h
    cases h

theorem isFinite_of_pointOfFloat {q : ℚ} (h : pointOfFloat x = some (.finite q)) :
    x.isFinite = true := by
  change x.toModel.unpack.isFinite = true
  unfold pointOfFloat at h
  cases hx : x.toModel.unpack <;> rw [hx] at h <;> first | rfl | cases h

theorem equalsInt_iff : equalsInt x n = true ↔ pointOfFloat x = some (.finite n) := by
  simp only [equalsInt, Bool.and_eq_true, decide_eq_true_eq]
  constructor
  · rintro ⟨⟨hfinite, rfl⟩, hmod⟩
    rw [pointOfFloat_of_isFinite hfinite, floor_eq_iff.1 ⟨rfl, hmod⟩, truncate]
    split <;> simp
  · intro hpoint
    have hfinite := isFinite_of_pointOfFloat hpoint
    rw [pointOfFloat_of_isFinite hfinite, Option.some.injEq, Point.finite.injEq] at hpoint
    have hnonneg : 0 ≤ ((Binary.ofFloat x).mantissa : ℚ) * 2 ^ (Binary.ofFloat x).exponent := by
      positivity
    have hmagnitude : ((Binary.ofFloat x).mantissa : ℚ) * 2 ^ (Binary.ofFloat x).exponent =
        n.natAbs := by
      rw [Nat.cast_natAbs, Int.cast_abs, ← hpoint]
      split
      · rw [abs_neg, abs_of_nonneg hnonneg]
      · rw [abs_of_nonneg hnonneg]
    obtain ⟨hfloor, hmod⟩ := floor_eq_iff.2 hmagnitude
    refine ⟨⟨hfinite, ?_⟩, hmod⟩
    rw [truncate, hfloor]
    rw [hmagnitude] at hpoint
    split at hpoint
    · rename_i hneg
      rw [if_pos hneg]
      exact_mod_cast hpoint
    · rename_i hneg
      rw [if_neg hneg]
      exact Int.cast_injective (α := ℚ) (by simpa using hpoint)

theorem pointOfFloat_notANumber : pointOfFloat notANumber = none :=
  Option.isNone_iff_eq_none.1 (by decide +kernel)

end Settings.Decimal

namespace Settings.Number

open Settings.Decimal

def point : Number → Option Point
  | int n => some (.finite n)
  | float x => pointOfFloat x

/-- Numbers in any two representations are equal exactly when they are one point. -/
theorem same_iff {m n : Number} :
    m.same n = true ↔ ∃ p, m.point = some p ∧ n.point = some p := by
  cases m with
  | int m =>
    cases n with
    | int n => simp [same, point, eq_comm (a := m)]
    | float y => simp [same, point, equalsInt_iff]
  | float x =>
    cases n with
    | int n => simp [same, point, equalsInt_iff]
    | float y => exact beq_iff

end Settings.Number
