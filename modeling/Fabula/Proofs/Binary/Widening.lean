import Fabula.Proofs.Binary.Overflow

/-!
# Widening

A format keeps a magnitude as a significand and an exponent, and rounding a ratio that has the value
of a magnitude answers the rank of that magnitude. A single keeps fewer bits over a smaller range of
exponents than a double, so every finite single is a double and comes back from it unchanged.
-/

namespace Fabula.Binary

theorem floorLog2_eq {num den : Nat} {place : Int} (hnum : num ≠ 0) (hden : 0 < den)
    (hlow : (2 : ℚ) ^ place ≤ (num : ℚ) / den) (hhigh : (num : ℚ) / den < 2 ^ (place + 1)) :
    floorLog2 num den = place := by
  obtain ⟨hlow', hhigh'⟩ := floorLog2_bounds hnum hden
  have hle : floorLog2 num den < place + 1 :=
    (zpow_lt_zpow_iff_right₀ (by norm_num)).mp (hlow'.trans_lt hhigh)
  have hge : place < floorLog2 num den + 1 :=
    (zpow_lt_zpow_iff_right₀ (by norm_num)).mp (hlow.trans_lt hhigh')
  omega

/-- A ratio that is a whole number of units is rounded to that number. -/
theorem countUnits_eq {num den k : Nat} {unit : Int} (hden : 0 < den)
    (h : (num : ℚ) / den = k * 2 ^ unit) : countUnits num den unit = k := by
  have hpos : 0 < den * twoTo unit.toNat := Nat.mul_pos hden (twoTo_pos _)
  have hwhole : num * twoTo (-unit).toNat = k * (den * twoTo unit.toNat) := by
    have hratio := scaled_eq num den unit
    rw [h, mul_div_assoc, div_self (by positivity), mul_one,
      div_eq_iff (by exact_mod_cast hpos.ne')] at hratio
    exact_mod_cast hratio
  rw [countUnits, hwhole, roundQuotient]
  simp [Nat.mul_div_cancel k hpos, hpos]

namespace Format
variable {f : Format} {m num den : Nat} {e : Int}

/-- The magnitude of a rank. -/
def value (f : Format) (rank : Nat) : ℚ := f.significand rank * 2 ^ f.exponent rank

/-- The form in which `m * 2 ^ e` is kept: the significand has its leading one, unless the exponent
is the least. -/
structure Keeps (f : Format) (m : Nat) (e : Int) : Prop where
  bits : m < twoTo (f.fractionBits + 1)
  least : f.leastExponent ≤ e
  leading : twoTo f.fractionBits ≤ m ∨ e = f.leastExponent

/-- The rank of what is kept as `m * 2 ^ e`. -/
def place (f : Format) (m : Nat) (e : Int) : Nat :=
  (e - f.leastExponent).toNat * twoTo f.fractionBits + m

theorem ratio_eq (f : Format) (rank : Nat) :
    ((f.ratio rank).1 : ℚ) / (f.ratio rank).2 = f.value rank := by
  rw [ratio, Nat.cast_mul, mul_div_assoc, twoTo_div_twoTo, value]

theorem ratio_pos (f : Format) (rank : Nat) : 0 < (f.ratio rank).2 := twoTo_pos _

theorem keeps_rank (f : Format) (rank : Nat) :
    f.Keeps (f.significand rank) (f.exponent rank) := by
  have hpos := twoTo_pos f.fractionBits
  have hmod := Nat.mod_lt rank hpos
  have hsucc := twoTo_succ f.fractionBits
  unfold significand exponent
  split
  · exact ⟨by omega, le_refl _, .inr rfl⟩
  · rename_i hlarge
    have hone : 1 ≤ rank / twoTo f.fractionBits :=
      (Nat.one_le_div_iff hpos).mpr (Nat.le_of_not_lt hlarge)
    exact ⟨by omega, by simp only [Int.ofNat_eq_natCast]; omega, .inl (Nat.le_add_right _ _)⟩

theorem place_rank (f : Format) (rank : Nat) :
    f.place (f.significand rank) (f.exponent rank) = rank := by
  unfold place significand exponent
  split
  · simp
  · rename_i hlarge
    have hone : 1 ≤ rank / twoTo f.fractionBits :=
      (Nat.one_le_div_iff (twoTo_pos _)).mpr (Nat.le_of_not_lt hlarge)
    have hsplit := Nat.div_add_mod' rank (twoTo f.fractionBits)
    obtain ⟨n, hn⟩ := Nat.exists_eq_add_of_le hone
    have hsteps : (f.leastExponent + Int.ofNat (rank / twoTo f.fractionBits) - 1 -
        f.leastExponent).toNat = n := by
      simp only [Int.ofNat_eq_natCast]
      omega
    rw [hsteps]
    rw [hn] at hsplit
    linarith

/-- The magnitude at the rank of `m * 2 ^ e`. -/
theorem Keeps.value_place (h : f.Keeps m e) : f.value (f.place m e) = m * 2 ^ e := by
  have hpos := twoTo_pos f.fractionBits
  have hbits := h.bits
  have hleast := h.least
  rw [twoTo_succ] at hbits
  by_cases hsmall : m < twoTo f.fractionBits
  · obtain rfl := h.leading.resolve_left (Nat.not_le_of_lt hsmall)
    simp [value, place, significand, exponent, hsmall]
  · obtain ⟨r, rfl⟩ := Nat.exists_eq_add_of_le (Nat.le_of_not_lt hsmall)
    obtain ⟨n, hn⟩ := Int.eq_ofNat_of_zero_le (sub_nonneg.mpr hleast)
    have hplace : f.place (twoTo f.fractionBits + r) e =
        r + twoTo f.fractionBits * (n + 1) := by
      rw [place, hn, Int.toNat_natCast]
      ring
    have hlarge : ¬ r + twoTo f.fractionBits * (n + 1) < twoTo f.fractionBits := by
      rw [Nat.not_lt, Nat.mul_succ]
      omega
    have hr : r < twoTo f.fractionBits := by omega
    have hexponent : f.leastExponent + Int.ofNat (n + 1) - 1 = e := by
      simp only [Int.ofNat_eq_natCast]
      omega
    rw [hplace, value, significand, exponent, if_neg hlarge, if_neg hlarge,
      Nat.add_mul_mod_self_left, Nat.mod_eq_of_lt hr, Nat.add_mul_div_left _ _ hpos,
      Nat.div_eq_of_lt hr, Nat.zero_add, hexponent]

/-- A ratio is rounded to the rank at which its value is kept. -/
theorem Keeps.round_eq (h : f.Keeps m e) (hden : 0 < den)
    (hvalue : (num : ℚ) / den = m * 2 ^ e) :
    f.round num den = min (f.place m e) f.infinity := by
  have hdenPos : (0 : ℚ) < den := by exact_mod_cast hden
  have hbits := h.bits
  have hleast := h.least
  by_cases hm : m = 0
  · subst hm
    have hnum : num = 0 := by
      rw [Nat.cast_zero, zero_mul, div_eq_zero_iff] at hvalue
      exact_mod_cast hvalue.resolve_right hdenPos.ne'
    obtain rfl := h.leading.resolve_left (Nat.not_le_of_lt (twoTo_pos _))
    simp [round, place, hnum]
  have hnum : num ≠ 0 := by
    rintro rfl
    rw [Nat.cast_zero, zero_div, eq_comm, mul_eq_zero] at hvalue
    exact hvalue.elim (by exact_mod_cast hm) (by positivity)
  obtain ⟨hlow, hhigh⟩ := log2_bounds hm
  have htop : floorLog2 num den = (m.log2 : Int) + e := by
    refine floorLog2_eq hnum hden ?_ ?_
    · rw [hvalue, zpow_add₀ (by norm_num)]
      gcongr
    · rw [hvalue, add_right_comm, zpow_add₀ (by norm_num)]
      gcongr
  have hlog : m.log2 < f.fractionBits + 1 := (Nat.log2_lt hm).mpr hbits
  have hunit : max ((m.log2 : Int) + e - f.fractionBits) f.leastExponent = e := by
    rcases h.leading with hlead | rfl
    · have hfull : f.fractionBits ≤ m.log2 := (Nat.le_log2 hm).mpr hlead
      omega
    · omega
  rw [round, if_neg hnum]
  simp only [htop, Int.ofNat_eq_natCast, hunit, place]
  rw [← countUnits_eq hden hvalue, countUnits]

/-- A ratio that has the value of a magnitude is rounded to it. -/
theorem round_of_value {rank : Nat} (hrank : rank ≤ f.infinity) (hden : 0 < den)
    (hvalue : (num : ℚ) / den = f.value rank) : f.round num den = rank := by
  rw [(f.keeps_rank rank).round_eq hden hvalue, place_rank, Nat.min_eq_left hrank]

end Format

/-- A double keeps what a single keeps: a short significand is moved up to its leading one. -/
theorem Format.Keeps.widen {m : Nat} {e : Int} (h : Format.single.Keeps m e) (hm : m ≠ 0) :
    Format.double.Keeps (m * twoTo (52 - m.log2)) (e - (52 - m.log2)) := by
  have hlog : m.log2 < 24 := (Nat.log2_lt hm).mpr h.bits
  have hleast : -149 ≤ e := h.least
  refine ⟨?_, ?_, .inl ?_⟩
  · calc m * twoTo (52 - m.log2) < 2 ^ (m.log2 + 1) * 2 ^ (52 - m.log2) :=
          Nat.mul_lt_mul_of_pos_right Nat.lt_log2_self (twoTo_pos _)
      _ = 2 ^ 53 := by rw [← Nat.pow_add]; congr 1; omega
  · show -1074 ≤ _
    omega
  · calc twoTo 52 = 2 ^ m.log2 * 2 ^ (52 - m.log2) := by rw [← Nat.pow_add]; congr 1; omega
      _ ≤ m * twoTo (52 - m.log2) := Nat.mul_le_mul_right _ (Nat.log2_self_le hm)

/-- Every finite single is a finite double. -/
theorem exists_double {rank : Nat} (h : rank < Format.single.infinity) :
    ∃ wide, wide < 2047 * twoTo 52 ∧ Format.double.value wide = Format.single.value rank := by
  have hkept := Format.single.keeps_rank rank
  have hplace := Format.single.place_rank rank
  rw [Format.value]
  generalize Format.single.significand rank = m at *
  generalize Format.single.exponent rank = e at *
  by_cases hm : m = 0
  · exact ⟨0, by decide, by simp [hm, Format.value, show Format.double.significand 0 = 0 from rfl]⟩
  have hwide := hkept.widen hm
  have hlog : m.log2 < 24 := (Nat.log2_lt hm).mpr hkept.bits
  have hrange : (e + 149).toNat < 255 := by
    have hfirst : (e + 149).toNat * twoTo 23 + m = rank := hplace
    have hlast : rank < 255 * twoTo 23 := h
    exact Nat.lt_of_mul_lt_mul_right (show _ * twoTo 23 < 255 * twoTo 23 from by omega)
  refine ⟨_, ?_, hwide.value_place.trans ?_⟩
  · have hsteps : (e - (52 - m.log2) + 1074 : Int).toNat ≤ 2044 := by omega
    have hbits : m * twoTo (52 - m.log2) < twoTo 52 * 2 := hwide.bits
    have hscaled := Nat.mul_le_mul_right (twoTo 52) hsteps
    show (e - (52 - m.log2) + 1074 : Int).toNat * twoTo 52 + m * twoTo (52 - m.log2) < _
    omega
  · have hshift : (52 : Int) - m.log2 = ((52 - m.log2 : Nat) : Int) := by omega
    have hpower : (twoTo (52 - m.log2) : ℚ) = 2 ^ ((52 - m.log2 : Nat) : Int) := by
      rw [zpow_natCast]
      exact Nat.cast_pow 2 _
    rw [Nat.cast_mul, mul_assoc, hpower, ← zpow_add₀ (by norm_num), hshift, add_sub_cancel]

namespace Single
variable {s : Single}

theorem exists_toDouble? (h : s.isFinite = true) : ∃ d, s.toDouble? = some d ∧
    d.negative = s.negative ∧ Format.double.value d.rank = Format.single.value s.rank := by
  have hfinite : s.rank < Format.single.infinity := by simpa [isFinite] using h
  obtain ⟨wide, hwide, hvalue⟩ := exists_double hfinite
  have hround : Format.double.round (Format.single.ratio s.rank).1 (Format.single.ratio s.rank).2 =
      wide := Format.round_of_value hwide.le (Format.single.ratio_pos s.rank)
        ((Format.single.ratio_eq s.rank).trans hvalue.symm)
  refine ⟨⟨s.negative, wide, hwide⟩, ?_, rfl, hvalue⟩
  rw [toDouble?, if_pos h]
  dsimp only [Double.ofRatio?]
  simp only [hround, hwide, dite_true]

/-- A double of the value of a single is read as the single. -/
theorem ofDouble_eq {d : Double} (h : s.isFinite = true) (hnegative : d.negative = s.negative)
    (hvalue : Format.double.value d.rank = Format.single.value s.rank) : ofDouble d = s := by
  have hfinite : s.rank < Format.single.infinity := by simpa [isFinite] using h
  have hround : Format.single.round d.ratio.1 d.ratio.2 = s.rank :=
    Format.round_of_value hfinite.le (Format.double.ratio_pos d.rank)
      ((Format.double.ratio_eq d.rank).trans hvalue)
  cases s
  simp_all [ofDouble, ofRatio]

/-- Widening is exact: the double of a finite single is read as that single, and what is not finite
has none. -/
theorem ofDouble_toDouble? (s : Single) :
    s.toDouble?.map ofDouble = if s.isFinite then some s else none := by
  split
  · rename_i h
    obtain ⟨d, hd, hnegative, hvalue⟩ := exists_toDouble? h
    rw [hd, Option.map_some, ofDouble_eq h hnegative hvalue]
  · rename_i h
    simp [toDouble?, h]

end Single

end Fabula.Binary
