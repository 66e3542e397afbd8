import Settings.Proofs.Value.Numbers

/-! # Integers in the range of doubles

An integer is cut to a mantissa of full length and rounded. What comes out is held by a double
unless its exponent is too large, so the integers that have a nearest double are those below
one limit.
-/

namespace Settings.Decimal

open Float.Model Float.Model.UnpackedFloat

variable {m n k : ℕ} {e : ℤ} {s : Sign}

theorem log2_shiftLeft (hn : n ≠ 0) (k : ℕ) : (n <<< k).log2 = n.log2 + k := by
  induction k with
  | zero => simp
  | succ k ih =>
    rw [Nat.shiftLeft_succ, Nat.log2_two_mul (by simpa using hn), ih, add_assoc]

theorem log2_filled (hn : n ≠ 0) (hlt : n.log2 < 53) : (n <<< (52 - n.log2)).log2 = 52 := by
  rw [log2_shiftLeft hn]
  omega

theorem shiftRight_exact (m k : ℕ) :
    (⟨m, false, false⟩ : ExtendedMantissa) >>> (k + 1) =
      ⟨m / 2 ^ (k + 1), m / 2 ^ k % 2 != 0, m % 2 ^ k != 0⟩ := by
  induction k with
  | zero =>
    change ExtendedMantissa.shiftRightOne ⟨m, false, false⟩ = _
    simp [ExtendedMantissa.shiftRightOne, Nat.mod_one]
  | succ k ih =>
    change ((⟨m, false, false⟩ : ExtendedMantissa) >>> (k + 1)).shiftRightOne = _
    rw [ih, ExtendedMantissa.shiftRightOne, Nat.div_div_eq_div_mul, ← pow_succ,
      Nat.mod_pow_succ (b := 2) (x := m)]
    rcases Nat.mod_two_eq_zero_or_one (m / 2 ^ k) with h | h <;> simp [h]

theorem div_of_log2 (hm : m.log2 = 53 + k) :
    2 ^ 52 ≤ m / 2 ^ (k + 1) ∧ m / 2 ^ (k + 1) < 2 ^ 53 := by
  have hne : m ≠ 0 := fun h => by simp [h] at hm; omega
  rw [Nat.le_div_iff_mul_le (by positivity), Nat.div_lt_iff_lt_mul (by positivity), ← pow_add,
    ← pow_add]
  exact ⟨(Nat.le_log2 hne).1 (by omega), (Nat.log2_lt hne).1 (by omega)⟩

/-- A mantissa cut to full length is rounded up to one digit more only if all its digits and the
first one dropped are ones. -/
theorem roundedMantissa_shiftRight (hm : m.log2 = 53 + k) :
    let r := ((⟨m, false, false⟩ : ExtendedMantissa) >>> (k + 1)).roundedMantissa
    2 ^ 52 ≤ r ∧ (r < 2 ^ 53 ↔ m < (2 ^ 54 - 1) * 2 ^ k) ∧ r ≤ 2 ^ 53 := by
  obtain ⟨hlow, hhigh⟩ := div_of_log2 hm
  have hhalf : m / 2 ^ (k + 1) = m / 2 ^ k / 2 := by rw [pow_succ, Nat.div_div_eq_div_mul]
  rw [shiftRight_exact, ← Nat.div_lt_iff_lt_mul (by positivity)]
  rw [hhalf] at hlow hhigh ⊢
  generalize m / 2 ^ k = q at *
  rcases hround : (q % 2 != 0) <;> rcases hsticky : (m % 2 ^ k != 0) <;>
    simp only [bne_eq_false_iff_eq, bne_iff_ne, ExtendedMantissa.roundedMantissa,
      ExtendedMantissa.accuracy, Accuracy.roundToNearestEven] at hround ⊢ <;> omega

theorem targetExponent_totalExponent (m : ℕ) (e : ℤ) :
    Format.binary64.targetExponent (totalExponent m e) = max (m.log2 + e - 52) (-1074) := by
  simp only [Format.targetExponent, totalExponent, Format.mantissaBits, Format.minExponent]
  norm_num
  omega

theorem shiftToTargetExponent_exact (hm : m.log2 = 52 + k) (he : -1074 ≤ e + k) :
    shiftToTargetExponent Format.binary64 m e .exact =
      ((⟨m, false, false⟩ : ExtendedMantissa) >>> k, e + k) := by
  have htarget : Format.binary64.targetExponent (totalExponent m e) = e + k := by
    rw [targetExponent_totalExponent, hm]
    omega
  have hshift : (e + k - e).toNat = k := by omega
  rw [shiftToTargetExponent, htarget, shiftToExponent, hshift]
  rfl

theorem roundWithAccuracy_of_shift {em em' : ExtendedMantissa} {e' e'' : ℤ} {accuracy : Accuracy}
    (hfirst : shiftToTargetExponent Format.binary64 m e accuracy = (em, e'))
    (hsecond : shiftToTargetExponent Format.binary64 em.roundedMantissa e' .exact = (em', e''))
    (hpos : 0 < em'.mantissa) :
    roundWithAccuracy Format.binary64 s m e accuracy = .finite s em'.mantissa e'' hpos := by
  simp only [roundWithAccuracy, hfirst, hsecond, dif_neg hpos.ne']

theorem roundWithAccuracy_full (hm : m.log2 = 52) (he : -1074 ≤ e) (hpos : 0 < m) :
    roundWithAccuracy Format.binary64 s m e .exact = .finite s m e hpos := by
  have hshift := shiftToTargetExponent_exact (k := 0) (e := e) hm (by omega)
  rw [Nat.cast_zero, add_zero] at hshift
  exact roundWithAccuracy_of_shift hshift hshift hpos

/-- A longer mantissa is cut to full length, and its exponent is one more if rounding makes
it too long again. -/
theorem roundWithAccuracy_longer (hm : m.log2 = 53 + k) (he : -1074 ≤ e + k + 1) :
    ∃ r hpos, r.log2 = 52 ∧ roundWithAccuracy Format.binary64 s m e .exact =
      .finite s r (if m < (2 ^ 54 - 1) * 2 ^ k then e + k + 1 else e + k + 2) hpos := by
  obtain ⟨hr, hlt, hle⟩ := roundedMantissa_shiftRight hm
  have hfirst := shiftToTargetExponent_exact (k := k + 1) (e := e) (m := m) (by omega)
    (by push_cast; omega)
  generalize (⟨m, false, false⟩ : ExtendedMantissa) >>> (k + 1) = em at hfirst hr hlt hle
  have hexp : e + (k + 1 : ℕ) = e + k + 1 := by push_cast; ring
  rw [hexp] at hfirst
  by_cases hfits : m < (2 ^ 54 - 1) * 2 ^ k
  · have hlog := (Nat.log2_eq_iff (by omega)).2 ⟨hr, hlt.2 hfits⟩
    have hsecond := shiftToTargetExponent_exact (k := 0) hlog (e := e + k + 1) (by omega)
    rw [Nat.cast_zero, add_zero] at hsecond
    have hpos : 0 < em.roundedMantissa := by omega
    rw [if_pos hfits]
    exact ⟨_, hpos, hlog, roundWithAccuracy_of_shift hfirst hsecond hpos⟩
  -- rounding has carried into one more digit, and the second shift drops a zero
  · have hfull : em.roundedMantissa = 2 ^ 53 := le_antisymm hle (not_lt.1 (hlt.not.2 hfits))
    have hsecond := shiftToTargetExponent_exact (k := 1) (m := 2 ^ 53) (e := e + k + 1)
      Nat.log2_two_pow (by omega)
    rw [← hfull] at hsecond
    have hpos : 0 < 2 ^ 52 := by positivity
    have hhalf :
        ((⟨em.roundedMantissa, false, false⟩ : ExtendedMantissa) >>> 1).mantissa = 2 ^ 52 := by
      rw [hfull]
      rfl
    have hexp' : e + k + 2 = e + k + 1 + (1 : ℕ) := by push_cast; ring
    rw [if_neg hfits, hexp']
    refine ⟨_, hhalf ▸ hpos, ?_, roundWithAccuracy_of_shift hfirst hsecond (hhalf ▸ hpos)⟩
    rw [hhalf, Nat.log2_two_pow]

theorem pack_finite (hm : m.log2 = 52) (hpos : 0 < m) :
    UnpackedFloat.pack Format.binary64 (.finite s m e hpos) =
      if 971 < e then packedInfinity Format.binary64 s
      else packComponents Format.binary64 s
        (BitVec.ofNat 11 (e + 1075).toNat) (BitVec.ofNat 52 m) := by
  have hbias : e + Format.binary64.exponentBias + (52 : ℕ) = e + 1075 := by
    rw [show (Format.binary64.exponentBias : ℤ) = 1023 from rfl]
    push_cast
    ring
  have hlarge : 2 ^ 11 ≤ (e + 1075).toNat + 1 ↔ 971 < e := by omega
  simp only [UnpackedFloat.pack, hm, hbias, hlarge]
  rfl

theorem unpack_packedInfinity (s : Sign) : ∃ s',
    UnpackedFloat.unpack Format.binary64 (packedInfinity Format.binary64 s) = .infinity s' := by
  simp [UnpackedFloat.unpack, packedInfinity]

theorem unpack_components (s : Sign) {b : ℕ} (f : BitVec 52) (hzero : 0 < b) (hones : b < 2047) :
    ∃ s' hpos, UnpackedFloat.unpack Format.binary64
      (packComponents Format.binary64 s (BitVec.ofNat 11 b) f) =
        .finite s' (2 ^ 52 + f.toNat) (b - 1075) hpos := by
  have hfield : (BitVec.ofNat 11 b).toNat = b := by
    rw [BitVec.toNat_ofNat, Nat.mod_eq_of_lt (by omega)]
  have hne {field : BitVec 11} (h : b ≠ field.toNat) : BitVec.ofNat 11 b ≠ field :=
    fun heq => h (by rw [← heq, hfield])
  simp only [UnpackedFloat.unpack, unpackExponent_packComponents, unpackMantissa_packComponents,
    hfield, toNat_implicit]
  have hlast : (-1#11).toNat = 2047 := rfl
  rw [if_neg (hne (by omega)), if_neg (hne (by simpa using hzero.ne'))]
  exact ⟨_, by positivity, rfl⟩

theorem unpack_pack (hm : m.log2 = 52) (he : -1074 ≤ e) (hpos : 0 < m) :
    ∃ s', (Float.Model.pack (.finite s m e hpos)).unpack =
      if 971 < e then .infinity s' else .finite s' m e hpos := by
  obtain ⟨hlow, hhigh⟩ := (Nat.log2_eq_iff hpos.ne').1 hm
  rw [Float.Model.unpack, Float.Model.pack, UInt64.toBitVec_ofBitVec, pack_finite hm hpos]
  split
  · exact unpack_packedInfinity s
  · obtain ⟨s', hpos', heq⟩ := unpack_components s (b := (e + 1075).toNat)
      (BitVec.ofNat 52 m) (by omega) (by omega)
    refine ⟨s', heq.trans ?_⟩
    congr 1
    · rw [BitVec.toNat_ofNat]
      omega
    · omega

/-- The least integer that is too large for a double: from here on, rounding to full length
gives a power of two that no double holds. -/
def doubleLimit : ℕ := 2 ^ 1024 - 2 ^ 970

/-- What an integer other than zero is converted to: a mantissa of full length if it fits, and
else an infinity. -/
inductive Held (fits : Prop) : UnpackedFloat → Prop
  | finite {s : Sign} {m : ℕ} {e : ℤ} {hpos : 0 < m} (hfits : fits) (hm : m.log2 = 52)
    (low : -1074 ≤ e) (high : e ≤ 971) : Held fits (.finite s m e hpos)
  | infinite {s : Sign} (hlarge : ¬ fits) : Held fits (.infinity s)

theorem unpack_one : ∃ s hpos,
    (Float.exactlyRepresentablePowersOfTen[0]).toModel.unpack = .finite s (2 ^ 52) (-52) hpos :=
  ⟨.positive, by decide, rfl⟩

theorem round_short (hm : m ≠ 0) (hlt : m.log2 < 53) :
    ∃ hpos, UnpackedFloat.round Format.binary64 s m 0 =
      .finite s (m <<< (52 - m.log2)) (m.log2 - 52) hpos := by
  have hfull := log2_filled hm hlt
  have hpos : 0 < m <<< (52 - m.log2) := Nat.pos_of_ne_zero fun h => by simp [h] at hfull
  have htarget : Format.binary64.targetExponent (totalExponent m 0) = m.log2 - 52 := by
    rw [targetExponent_totalExponent]
    omega
  have hshift : (0 - (m.log2 - 52 : ℤ)).toNat = 52 - m.log2 := by omega
  have hexp : (0 : ℤ) - (52 - m.log2 : ℕ) = m.log2 - 52 := by omega
  refine ⟨hpos, ?_⟩
  simp only [UnpackedFloat.round, htarget, decreaseExponent, hshift, hexp]
  exact roundWithAccuracy_full hfull (by omega) hpos

theorem unpack_ofUInt64 (hn : n ≠ 0) (hlt : n < 2 ^ 53) :
    ∃ s hpos, n.toUInt64.toFloat.toModel.unpack =
      .finite s (n <<< (52 - n.log2)) (n.log2 - 52) hpos := by
  have hlog : n.log2 < 53 := (Nat.log2_lt hn).2 hlt
  have hfull := log2_filled hn hlog
  have hword : n.toUInt64.toNat = n := Nat.mod_eq_of_lt (by omega)
  have hgt : compare (n : ℤ) 0 = .gt := compare_gt_iff_gt.2 (by omega)
  obtain ⟨hpos, hround⟩ := round_short (s := .positive) hn hlog
  obtain ⟨s', hheld⟩ := unpack_pack (s := .positive) (e := n.log2 - 52) hfull (by omega) hpos
  rw [if_neg (by omega)] at hheld
  refine ⟨s', hpos, ?_⟩
  change (Float.Model.pack (UnpackedFloat.ofNat Format.binary64 n.toUInt64.toNat)).unpack = _
  rw [hword, UnpackedFloat.ofNat, UnpackedFloat.ofInt, UnpackedFloat.normalize, hgt]
  dsimp only
  rw [Int.toNat_natCast, hround, hheld]

theorem Held.isFinite_iff {fits : Prop} {u : UnpackedFloat} (h : Held fits u) :
    u.isFinite = true ↔ fits := by
  cases h with
  | finite hfits => exact iff_of_true rfl hfits
  | infinite hlarge => exact iff_of_false Bool.false_ne_true hlarge

theorem Held.neg {fits : Prop} {u : UnpackedFloat} (h : Held fits u) :
    Held fits (Float.Model.pack u.neg).unpack := by
  cases h with
  | @finite s m e hpos hfits hm hlow hhigh =>
    obtain ⟨s', hheld⟩ := unpack_pack (s := -s) hm hlow hpos
    rw [if_neg (not_lt.2 hhigh)] at hheld
    rw [UnpackedFloat.neg, hheld]
    exact .finite hfits hm hlow hhigh
  | @infinite s hlarge =>
    obtain ⟨s', hheld⟩ := unpack_packedInfinity (-s)
    rw [UnpackedFloat.neg]
    change Held fits (UnpackedFloat.unpack _ (packedInfinity _ (-s)))
    rw [hheld]
    exact .infinite hlarge

/-- An exact mantissa that is too long is rounded, and held if its exponent then fits. -/
theorem held_pack {fits : Prop} (hm : m.log2 = 53 + k) (he : -1074 ≤ e + k + 1)
    (hfits : fits ↔ (if m < (2 ^ 54 - 1) * 2 ^ k then e + k + 1 else e + k + 2) ≤ 971) :
    Held fits (Float.Model.pack (roundWithAccuracy Format.binary64 s m e .exact)).unpack := by
  obtain ⟨r, hpos, hr, hround⟩ := roundWithAccuracy_longer (s := s) hm he
  have hlow : -1074 ≤ if m < (2 ^ 54 - 1) * 2 ^ k then e + k + 1 else e + k + 2 := by
    split <;> omega
  rw [hround]
  generalize (if m < (2 ^ 54 - 1) * 2 ^ k then e + k + 1 else e + k + 2) = e' at *
  obtain ⟨s', hheld⟩ := unpack_pack (s := s) hr hlow hpos
  rw [hheld]
  split
  · rename_i hlarge
    exact .infinite (hfits.not.2 (not_le.2 hlarge))
  · rename_i hsmall
    exact .finite (hfits.2 (not_lt.1 hsmall)) hr hlow (not_lt.1 hsmall)

theorem held_ofNat_of_lt (hn : n ≠ 0) (hlt : n < 2 ^ 53) :
    Held (n < doubleLimit) (Float.ofNat n).toModel.unpack := by
  obtain ⟨s, hpos, hword⟩ := unpack_ofUInt64 hn hlt
  obtain ⟨s', hpos', hone⟩ := unpack_one
  have hlog : n.log2 < 53 := (Nat.log2_lt hn).2 hlt
  have hproduct : (Float.ofNat n).toModel =
      Float.Model.pack (UnpackedFloat.mul Format.binary64 n.toUInt64.toFloat.toModel.unpack
        (Float.exactlyRepresentablePowersOfTen[0]).toModel.unpack) := by
    change (Float.ofScientific n false 0).toModel = _
    rw [Float.ofScientific, dif_pos ⟨hlt, by decide⟩]
    rfl
  have hfull := log2_filled hn hlog
  have hlength : (n <<< (52 - n.log2) * 2 ^ 52).log2 = 53 + 51 := by
    rw [← Nat.shiftLeft_eq, log2_shiftLeft hpos.ne', hfull]
  have hsmall : n <<< (52 - n.log2) < 2 ^ 53 := (Nat.log2_lt hpos.ne').1 (by omega)
  rw [hproduct, hword, hone, UnpackedFloat.mul]
  refine held_pack hlength (by omega) (iff_of_true (lt_trans hlt (by decide +kernel)) ?_)
  rw [if_pos (by omega)]
  omega

theorem lt_iff_log2 (hn : n ≠ 0) :
    n < doubleLimit ↔
      n.log2 ≤ if n <<< 53 < (2 ^ 54 - 1) * 2 ^ n.log2 then 1023 else 1022 := by
  obtain ⟨hlow, hhigh⟩ := (Nat.log2_eq_iff hn).1 rfl
  rw [Nat.shiftLeft_eq, doubleLimit]
  rcases lt_trichotomy n.log2 1023 with hlt | heq | hgt
  · have hpow := Nat.pow_le_pow_right (n := 2) (by decide) (show n.log2 + 1 ≤ 1023 by omega)
    refine iff_of_true (by omega) ?_
    split <;> omega
  · rw [heq] at hlow hhigh ⊢
    split <;> omega
  · have hpow := Nat.pow_le_pow_right (n := 2) (by decide) (show 1024 ≤ n.log2 by omega)
    refine iff_of_false (by omega) ?_
    split <;> omega

theorem ofScientific_whole (hn : n ≠ 0) :
    UnpackedFloat.ofScientific Format.binary64 n 0 =
      roundWithAccuracy Format.binary64 .positive (n <<< 53) (-53) .exact := by
  have hbits : (2 ^ Format.binary64.exponentBits : ℤ) = 2048 := rfl
  have hlength : n <<< Format.binary64.mantissaBits * 10 ^ Int.toNat 0 = n <<< 53 := by
    rw [Int.toNat_zero, pow_zero, mul_one]
    rfl
  rw [UnpackedFloat.ofScientific, dif_neg hn, if_neg (by omega), if_neg (by omega),
    if_pos (le_refl (0 : ℤ)), UnpackedFloat.mul, hlength]
  rfl

theorem held_ofNat_of_le (hn : n ≠ 0) (hle : 2 ^ 53 ≤ n) :
    Held (n < doubleLimit) (Float.ofNat n).toModel.unpack := by
  have hproduct : (Float.ofNat n).toModel =
      Float.Model.pack (UnpackedFloat.ofScientific Format.binary64 n 0) := by
    change (Float.ofScientific n false 0).toModel = _
    rw [Float.ofScientific, dif_neg (by omega)]
    rfl
  have hlength : (n <<< 53).log2 = 53 + n.log2 := by rw [log2_shiftLeft hn, add_comm]
  rw [hproduct, ofScientific_whole hn]
  refine held_pack hlength (by omega) ?_
  rw [lt_iff_log2 hn]
  split <;> omega

theorem held_ofNat (hn : n ≠ 0) :
    Held (n < doubleLimit) (Float.ofNat n).toModel.unpack := by
  rcases Nat.lt_or_ge n (2 ^ 53) with hlt | hle
  · exact held_ofNat_of_lt hn hlt
  · exact held_ofNat_of_le hn hle

/-- An integer has a nearest double exactly when it is below the limit. -/
theorem isFinite_ofInt_iff {n : ℤ} :
    (Float.ofInt n).isFinite = true ↔ n.natAbs < doubleLimit := by
  cases n with
  | ofNat n =>
    rcases eq_or_ne n 0 with rfl | hn
    · exact iff_of_true (by decide +kernel) (by decide +kernel)
    · exact (held_ofNat hn).isFinite_iff
  | negSucc n => exact (held_ofNat n.succ_ne_zero).neg.isFinite_iff

end Settings.Decimal
