import Mathlib

/-!
Indices and lengths as numbers. A number has 53 bits for its digits, and one of 64 bits may have to
be rounded to be written as a number. Main statement: up to 2^53 it is not, and can be read back.
-/
namespace CollectionLoops.IndexNumber

open Float.Model Float.Model.UnpackedFloat

theorem mantissa_shiftRight (m : ExtendedMantissa) (k : Nat) :
    (m >>> k).mantissa = m.mantissa / 2 ^ k := by
  change (k.repeat ExtendedMantissa.shiftRightOne m).mantissa = _
  induction k with
  | zero => simp [Nat.repeat]
  | succ k ih =>
    rw [Nat.repeat, ExtendedMantissa.shiftRightOne, ih, Nat.div_div_eq_div_mul, Nat.pow_succ]

theorem log2_mul_two_pow {m : Nat} (hm : 0 < m) (k : Nat) : (m * 2 ^ k).log2 = m.log2 + k := by
  induction k with
  | zero => simp
  | succ k ih =>
    have hne : m * 2 ^ k ≠ 0 := Nat.mul_ne_zero hm.ne' (Nat.two_pow_pos k).ne'
    rw [Nat.pow_succ', Nat.mul_left_comm, Nat.log2_two_mul hne, ih, Nat.add_assoc]

section Rounding

variable {p : Format} {m : Nat} {e : Int}

/-- What has no more digits than there is room for is not shifted. -/
theorem shiftToTargetExponent_eq (h : p.targetExponent (totalExponent m e) ≤ e) :
    shiftToTargetExponent p m e .exact = (⟨m, false, false⟩, e) := by
  have hzero : (p.targetExponent (totalExponent m e) - e).toNat = 0 := by omega
  simp only [shiftToTargetExponent, shiftToExponent, hzero]
  simp [ExtendedMantissa.ofMantissaAndAccuracy, HShiftRight.hShiftRight, Nat.repeat]

theorem roundWithAccuracy_eq (s : Sign) (hm : 0 < m)
    (h : p.targetExponent (totalExponent m e) ≤ e) :
    roundWithAccuracy p s m e .exact = .finite s m e hm := by
  have hrounded : (ExtendedMantissa.mk m false false).roundedMantissa = m := rfl
  rw [roundWithAccuracy, shiftToTargetExponent_eq h]
  dsimp only
  rw [hrounded, shiftToTargetExponent_eq h]
  exact dif_neg hm.ne'

theorem targetExponent_binary64 (e : Int) :
    Format.binary64.targetExponent e = max (e - 53) (-1074) := rfl

/-- A number with `k` digits less than 53 gets `k` zeros at its end. -/
theorem round_binary64 {n k : Nat} (hn : 0 < n) (hk : n.log2 + k = 52) :
    UnpackedFloat.round Format.binary64 .positive n 0 =
      .finite .positive (n * 2 ^ k) (-k) (Nat.mul_pos hn (Nat.two_pow_pos k)) := by
  have hshift : (0 - Format.binary64.targetExponent (totalExponent n 0)).toNat = k := by
    rw [targetExponent_binary64, totalExponent]
    omega
  have hdecrease : decreaseExponent n 0 (Format.binary64.targetExponent (totalExponent n 0)) =
      (n * 2 ^ k, -(k : Int)) := by
    rw [decreaseExponent, hshift, Nat.shiftLeft_eq, Int.zero_sub]
  have hroom : Format.binary64.targetExponent (totalExponent (n * 2 ^ k) (-k)) ≤ -k := by
    rw [targetExponent_binary64, totalExponent, log2_mul_two_pow hn]
    omega
  rw [UnpackedFloat.round, hdecrease]
  exact roundWithAccuracy_eq _ _ hroom

theorem roundToInt_neg (m k : Nat) : roundToInt .positive m (-(k : Int)) = (m / 2 ^ k : Nat) := by
  have hdecrease : decreaseExponent m (-(k : Int)) 0 = (m, -(k : Int)) := by
    simp [decreaseExponent]
  have hshift : (0 - -(k : Int)).toNat = k := by omega
  simp only [roundToInt, hdecrease, shiftToExponent, hshift, mantissa_shiftRight, Sign.apply]
  rfl

end Rounding

/-- A number with all its 53 digits survives its packing into 64 bits. -/
theorem unpack_pack_binary64 (s : Sign) {m : Nat} {e : Int} (hm : 0 < m) (hlow : 2 ^ 52 ≤ m)
    (hhigh : m < 2 ^ 53) (he : -1074 ≤ e) (he' : e ≤ 971) :
    (Float.Model.pack (.finite s m e hm)).unpack = .finite s m e hm := by
  have hlog : m.log2 = 52 := (Nat.log2_eq_iff hm.ne').2 ⟨hlow, hhigh⟩
  obtain ⟨b, hb⟩ : ∃ b : Nat, (b : Int) = e + 1075 := ⟨(e + 1075).toNat, by omega⟩
  have hbiased : (e + (Format.binary64.exponentBias : Int) +
      Format.binary64.mantissaBitsWithoutImplicit).toNat = b := by
    change (e + 1023 + 52).toNat = b
    omega
  have hpack : UnpackedFloat.pack Format.binary64 (.finite s m e hm) =
      packComponents Format.binary64 s (BitVec.ofNat 11 b) (BitVec.ofNat 52 m) := by
    have hsmall : ¬ 2 ^ 11 ≤ b + 1 := by omega
    simp only [UnpackedFloat.pack, hbiased, hlog]
    rw [if_neg hsmall]
    exact if_pos rfl
  have hexponent : (BitVec.ofNat 11 b).toNat = b := by
    rw [BitVec.toNat_ofNat]
    omega
  -- the first digit is not written
  have hmantissa : (1#1 ++ BitVec.ofNat 52 m).toNat = m := by
    rw [BitVec.toNat_append, ← Nat.shiftLeft_add_eq_or_of_lt (BitVec.isLt _), Nat.shiftLeft_eq,
      BitVec.toNat_ofNat]
    change 1 * 2 ^ 52 + m % 2 ^ 52 = m
    omega
  have hfinite : BitVec.ofNat 11 b ≠ -1#11 := by
    intro h
    have hb : b = 2047 := hexponent.symm.trans (congrArg BitVec.toNat h)
    omega
  have hnormal : BitVec.ofNat 11 b ≠ 0#11 := by
    intro h
    have hb : b = 0 := hexponent.symm.trans (congrArg BitVec.toNat h)
    omega
  change UnpackedFloat.unpack Format.binary64
    (UnpackedFloat.pack Format.binary64 (.finite s m e hm)) = _
  rw [hpack, UnpackedFloat.unpack]
  simp only [unpackMantissa_packComponents, unpackExponent_packComponents,
    unpackSign_packComponents, Sign.ofBitVec_toBitVec, if_neg hfinite, if_neg hnormal, hexponent,
    hmantissa]
  change finite s m (b - 1075) _ = _
  congr
  omega

section Numbers

variable {n : UInt64}

theorem unpack_toFloat {k : Nat} (hn : 0 < n.toNat) (hk : n.toNat.log2 + k = 52) :
    n.toFloat.toModel.unpack =
      .finite .positive (n.toNat * 2 ^ k) (-k) (Nat.mul_pos hn (Nat.two_pow_pos k)) := by
  have hround : UnpackedFloat.ofUInt64 Format.binary64 n =
      UnpackedFloat.round Format.binary64 .positive n.toNat 0 := by
    have hcompare : compare (n.toNat : Int) 0 = .gt := Int.compare_eq_gt.2 (by omega)
    rw [UnpackedFloat.ofUInt64, UnpackedFloat.ofNat, UnpackedFloat.ofInt, UnpackedFloat.normalize,
      hcompare]
    rfl
  have hlow : 2 ^ 52 ≤ n.toNat * 2 ^ k := calc
    2 ^ 52 = 2 ^ n.toNat.log2 * 2 ^ k := by rw [← Nat.pow_add, hk]
    _ ≤ n.toNat * 2 ^ k := Nat.mul_le_mul_right _ (Nat.log2_self_le hn.ne')
  have hhigh : n.toNat * 2 ^ k < 2 ^ 53 := calc
    n.toNat * 2 ^ k < 2 ^ (n.toNat.log2 + 1) * 2 ^ k :=
      Nat.mul_lt_mul_of_pos_right Nat.lt_log2_self (Nat.two_pow_pos k)
    _ = 2 ^ 53 := by rw [← Nat.pow_add, Nat.add_right_comm, hk]
  change (Float.Model.pack (UnpackedFloat.ofUInt64 Format.binary64 n)).unpack = _
  rw [hround, round_binary64 hn hk]
  exact unpack_pack_binary64 _ _ hlow hhigh (by omega) (by omega)

/-- Up to 2^53 there is room for all digits, or the number is 2^53 itself. -/
theorem exists_log2_add_eq (hn : 0 < n.toNat) (h : n.toNat ≤ 2 ^ 53) :
    (∃ k, n.toNat.log2 + k = 52) ∨ n = 9007199254740992 := by
  rcases Nat.lt_or_eq_of_le h with hlt | heq
  · have hlog : n.toNat.log2 ≤ 52 := Nat.le_of_lt_succ ((Nat.log2_lt hn.ne').2 hlt)
    exact .inl ⟨52 - n.toNat.log2, by omega⟩
  · exact .inr (UInt64.toNat_inj.1 heq)

theorem toUInt64_toFloat (hn : 0 < n.toNat) (h : n.toNat ≤ 2 ^ 53) : n.toFloat.toUInt64 = n := by
  rcases exists_log2_add_eq hn h with ⟨k, hk⟩ | rfl
  · change n.toFloat.toModel.unpack.toUInt64 = n
    rw [unpack_toFloat hn hk, UnpackedFloat.toUInt64, UnpackedFloat.toInt, roundToInt_neg,
      Nat.mul_div_cancel _ (Nat.two_pow_pos k), Int.toNat_natCast]
    exact UInt64.ofNatClamp_toNat n
  · decide +kernel

theorem isFinite_toFloat (hn : 0 < n.toNat) (h : n.toNat ≤ 2 ^ 53) : n.toFloat.isFinite := by
  rcases exists_log2_add_eq hn h with ⟨k, hk⟩ | rfl
  · change n.toFloat.toModel.unpack.isFinite = true
    rw [unpack_toFloat hn hk]
    rfl
  · decide +kernel

theorem toFloat_pos (hn : 0 < n.toNat) (h : n.toNat ≤ 2 ^ 53) : 0 < n.toFloat := by
  rcases exists_log2_add_eq hn h with ⟨k, hk⟩ | rfl
  · have hzero : (0 : Float).toModel.unpack = .zero .positive := rfl
    have hlt : (0 : Float).toModel.unpack.lt n.toFloat.toModel.unpack = true := by
      rw [hzero, unpack_toFloat hn hk]
      rfl
    exact decide_eq_true hlt
  · decide +kernel

end Numbers

end CollectionLoops.IndexNumber
