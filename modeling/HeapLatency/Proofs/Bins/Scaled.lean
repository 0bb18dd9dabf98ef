import HeapLatency.Proofs.Bins.Spanned
import HeapLatency.Proofs.Number.Alike
import HeapLatency.Proofs.Trace.Partition

/-!
# Bins scaled by means

Latencies and sizes are whole numbers of machine words, or those divided by a power of two. Their
sum is positive exactly when one of them is, and then everything that follows from it keeps a
distance from both ends of the format: the mean, the range, and the step, whose multiples ascend.
So bins by a mean fail for nothing but samples that are all zero.
-/

namespace HeapLatency

namespace Binary64

variable {least most : Nat} {x y : Binary64}

/-! ## Between two magnitudes -/

theorem finite_pos {units : Nat} {held : Held units} (h : 0 < units) :
    0 < Binary64.finite false units held :=
  lt_iff.2 ⟨0, units, rank_zero, rfl, Int.natCast_pos.2 h⟩

theorem Between.pos (h : Between least most x) (hleast : 0 < least) : 0 < x := by
  obtain ⟨units, held, rfl, hle, -⟩ := h
  exact finite_pos (Nat.lt_of_lt_of_le hleast hle)

theorem Between.isFinite (h : Between least most x) : x.isFinite = true := by
  obtain ⟨units, held, rfl, -, -⟩ := h
  rfl

theorem UpTo.nonneg (h : UpTo most x) : 0 ≤ x := by
  obtain @⟨negative, units, held, positive, -⟩ := h
  exact le_iff.2 ⟨0, units, rank_zero, congrArg some positive, Int.natCast_nonneg units⟩

theorem UpTo.isFinite (h : UpTo most x) : x.isFinite = true := by
  cases h
  rfl

theorem UpTo.pos_or_zero (h : UpTo most x) : 0 < x ∨ UpTo 0 x := by
  obtain @⟨negative, units, held, positive, -⟩ := h
  rcases Nat.eq_zero_or_pos units with rfl | hpos
  · exact .inr (.finite positive (Nat.le_refl 0))
  · obtain rfl := eq_false_of_signed hpos positive
    exact .inl (finite_pos hpos)

theorem UpTo.not_pos (h : UpTo 0 x) : ¬0 < x := by
  obtain @⟨negative, units, held, positive, hle⟩ := h
  obtain rfl := Nat.le_zero.1 hle
  exact not_lt_of_le (le_iff.2 ⟨0, 0, congrArg some positive, rank_zero, Int.le_refl 0⟩)

theorem ZeroOrFrom.between (h : ZeroOrFrom least x) (hmost : UpTo most x) (hpos : 0 < x) :
    Between least most x := by
  obtain @⟨negative, units, held, positive, hle⟩ := hmost
  have hsome : 0 < units := by
    rcases Nat.eq_zero_or_pos units with rfl | hsome
    · have hzero : UpTo 0 (.finite negative 0 held) := .finite positive (Nat.le_refl 0)
      exact absurd hpos hzero.not_pos
    · exact hsome
  obtain rfl := eq_false_of_signed hsome positive
  cases h with
  | finite _ hfrom => exact ⟨units, held, rfl, hfrom.resolve_left hsome.ne', hle⟩

/-! ## Sums -/

theorem add_pos_iff (hx : UpTo least x) (hy : UpTo most y) : 0 < x + y ↔ 0 < x ∨ 0 < y := by
  constructor
  · intro hsum
    by_contra hnone
    rw [not_or] at hnone
    have hxzero : x.Alike 0 := alike_of_le (le_of_not_lt rfl hx.isNaN hnone.1) hx.nonneg
    have hyzero : y.Alike 0 := alike_of_le (le_of_not_lt rfl hy.isNaN hnone.2) hy.nonneg
    rw [(Alike.refl 0).lt_iff (hxzero.add hyzero)] at hsum
    exact absurd hsum (by decide +kernel)
  · rintro (hpos | hpos)
    · exact lt_of_lt_of_le hpos (le_add_self hx.isNaN hy.isFinite hy.nonneg)
    · rw [add_comm]
      exact lt_of_lt_of_le hpos (le_add_self hy.isNaN hx.isFinite hx.nonneg)

/-- Nothing positive is lost in a sum, however it is rounded. -/
theorem sum_pos_iff {samples : List Binary64} (h : ∀ sample ∈ samples, UpTo (1 <<< 1138) sample) :
    0 < sum samples ↔ ∃ sample ∈ samples, 0 < sample := by
  -- by induction on the samples, whatever has been added up before
  have hfold : ∀ total, UpTo greatestSum total →
      (0 < samples.foldl (· + ·) total ↔ 0 < total ∨ ∃ sample ∈ samples, 0 < sample) := by
    induction samples with
    | nil => exact fun total _ => by simp
    | cons sample samples ih =>
      intro total htotal
      rw [List.forall_mem_cons] at h
      rw [List.foldl_cons, ih h.2 _ (htotal.add_word h.1), add_pos_iff htotal h.1,
        List.exists_mem_cons_iff, or_assoc]
  exact (hfold _ (upTo_ofExact_zero Nat.one_pos true)).trans (or_iff_right (by decide +kernel))

/-! ## Samples -/

/-- The least magnitude of a sample that is not zero: one byte in mebibytes. -/
def leastSample : Nat := 1 <<< 1054

/-- A sample, whichever of a latency and a size: zero, or within bounds that hold for both. -/
structure IsSample (x : Binary64) : Prop where
  zeroOrFrom : ZeroOrFrom leastSample x
  upTo : UpTo (1 <<< 1138) x

theorem isSample_ofExact {n k : Nat} (hn : n < 1 <<< 64) (hk : k ≤ 20) :
    IsSample (ofExact false (n * unitsPerOne) (1 <<< k)) ∧
      ((0 : Binary64) < ofExact false (n * unitsPerOne) (1 <<< k) ↔ 0 < n) := by
  have hden : 0 < 1 <<< k := by
    rw [Nat.one_shiftLeft]
    exact Nat.two_pow_pos k
  have hleast : Held leastSample := held_shift (by decide)
  have hmost : n * unitsPerOne ≤ 1 <<< 1138 * 1 <<< k :=
    Nat.le_trans (word_units_le (Nat.le_of_lt hn)) (Nat.le_mul_of_pos_right _ hden)
  rcases Nat.eq_zero_or_pos n with rfl | hpos
  · rw [Nat.zero_mul]
    have hzero : UpTo 0 (ofExact false 0 (1 <<< k)) := upTo_ofExact_zero hden false
    exact ⟨⟨zeroOrFrom_ofExact_zero hden false, upTo_ofExact_zero hden false⟩,
      iff_of_false hzero.not_pos (Nat.lt_irrefl 0)⟩
  · have hlow : leastSample * 1 <<< k ≤ n * unitsPerOne :=
      calc leastSample * 1 <<< k = 1 <<< (1054 + k) := one_shiftLeft_mul 1054 k
        _ ≤ unitsPerOne := one_shiftLeft_le (by omega)
        _ ≤ n * unitsPerOne := Nat.le_mul_of_pos_left _ hpos
    have hbetween := between_ofExact hleast.aligned (held_shift (by decide)) hden hlow hmost
    refine ⟨⟨zeroOrFrom_ofExact hden hleast.aligned hlow, ?_⟩,
      iff_of_true (hbetween.pos (by decide)) hpos⟩
    obtain ⟨units, held, heq, -, hle⟩ := hbetween
    rw [heq]
    exact .finite rfl hle

theorem toNat_pos_iff {word : UInt64} : 0 < word.toNat ↔ word ≠ 0 := by
  rw [← UInt64.pos_iff_ne_zero, UInt64.lt_iff_toNat_lt]
  rfl

theorem isSample_ofNat (cycles : UInt64) :
    IsSample (ofNat cycles.toNat) ∧ (0 < ofNat cycles.toNat ↔ cycles ≠ 0) := by
  obtain ⟨hsample, hpos⟩ := isSample_ofExact cycles.toNat_lt (Nat.zero_le 20)
  exact ⟨hsample, hpos.trans toNat_pos_iff⟩

theorem isSample_mebibytes (size : UInt64) :
    IsSample (mebibytes size) ∧ (0 < mebibytes size ↔ size ≠ 0) := by
  obtain ⟨hsample, hpos⟩ := isSample_ofExact size.toNat_lt (Nat.le_refl 20)
  rw [← mebibytes_eq] at hsample hpos
  exact ⟨hsample, hpos.trans toNat_pos_iff⟩

/-! ## Means -/

theorem Between.div_ofNat {n : Nat} (h : Between leastSample greatestSum x) (hpos : 0 < n)
    (hn : n ≤ 1 <<< 64) : Between (1 <<< 990) greatestSum (x / ofNat n) := by
  obtain ⟨units, held, rfl, hlow, hhigh⟩ := h
  obtain ⟨count, hcount, heq, hone, hmany⟩ := between_ofNat hpos hn
  have hsome : 0 < count := Nat.lt_of_lt_of_le unitsPerOne_pos hone
  have hleast : Held (1 <<< 990) := held_shift (by decide)
  rw [heq, div_finite hsome]
  refine between_ofExact hleast.aligned (held_shift (by decide)) hsome ?_
    (Nat.mul_le_mul hhigh hone)
  calc 1 <<< 990 * count ≤ 1 <<< 990 * 1 <<< 1138 := Nat.mul_le_mul_left _ hmany
    _ = leastSample * unitsPerOne := by
      rw [leastSample, unitsPerOne, one_shiftLeft_mul, one_shiftLeft_mul]
    _ ≤ units * unitsPerOne := Nat.mul_le_mul_right _ hlow

theorem upTo_zero_mean {samples : List Binary64} {mean : Binary64} {n : Nat}
    (hsamples : ∀ sample ∈ samples, IsSample sample) (hnone : ∀ sample ∈ samples, ¬0 < sample)
    (h : mean? samples = some mean) (hn : n ≤ 1 <<< 53) : UpTo 0 (mean * ofNat n) := by
  have hupTo : ∀ sample ∈ samples, UpTo (1 <<< 1138) sample :=
    fun sample hmem => (hsamples sample hmem).upTo
  obtain ⟨hsome, rfl⟩ := mean?_eq_some_iff.1 h
  have hsum : UpTo 0 (sum samples) := by
    refine (upTo_sum hupTo).pos_or_zero.resolve_left fun hpos => ?_
    obtain ⟨sample, hmem, hsample⟩ := (sum_pos_iff hupTo).1 hpos
    exact hnone sample hmem hsample
  have hheld : Held 0 := ⟨by decide, by decide⟩
  rw [ofNat_eq hn]
  exact (hsum.div_ofNat hheld hsome).mul_finite hheld
    (Nat.le_of_eq (by rw [Nat.zero_mul, Nat.zero_mul]))

theorem Between.mul_three (h : Between (1 <<< 990) greatestSum x) :
    Between (1 <<< 990) (1 <<< 1193) (x * 3) := by
  obtain ⟨units, held, rfl, hlow, hhigh⟩ := h
  have hleast : Held (1 <<< 990) := held_shift (by decide)
  rw [show (3 : Binary64) = ofNat 3 from rfl, ofNat_eq (by decide), mul_finite,
    ← Nat.mul_assoc, ← Nat.one_mul unitsPerOne,
    ← Nat.mul_assoc, ofExact_mul_right unitsPerOne_pos, Nat.mul_one]
  refine between_ofExact hleast.aligned (held_shift (by decide)) Nat.one_pos ?_ ?_
  · omega
  · have hfour : greatestSum * 4 = 1 <<< 1193 := one_shiftLeft_mul (1138 + 53) 2
    omega

/-! ## Edges -/

/-- The error of rounding two neighbouring multiples is less than what they are apart. -/
theorem roundMagnitude_multiple_lt {i units : Nat} (hi : i + 1 ≤ 1 <<< 52)
    (hlarge : 1 <<< 52 ≤ units) :
    roundMagnitude (i * units) 1 < roundMagnitude ((i + 1) * units) 1 := by
  have h52 : (1 <<< 52 : Nat) = 4503599627370496 := by decide
  have h53 : (1 <<< 53 : Nat) = 9007199254740992 := by decide
  have hnormal (j : Nat) (hj : 0 < j) : (1 <<< 52) * 1 ≤ j * units := by
    rw [Nat.mul_one]
    exact Nat.le_trans hlarge (Nat.le_mul_of_pos_left _ hj)
  have hupper := le_roundMagnitude_mul_of_le Nat.one_pos (hnormal (i + 1) (Nat.succ_pos i))
  rw [Nat.mul_one, Nat.succ_mul, h53] at hupper
  rw [Nat.succ_mul]
  rw [h52] at hi hlarge
  rcases Nat.eq_zero_or_pos i with rfl | hpos
  · -- the bound on the error is for numbers that are not among the least
    have hzero : roundMagnitude (0 * units) 1 = 0 := by
      rw [Nat.zero_mul]
      exact roundMagnitude_one (Nat.zero_mod _)
    rw [hzero]
    omega
  · have hlower := roundMagnitude_mul_le_of_le Nat.one_pos (hnormal i hpos)
    have hmany : i * units ≤ 4503599627370495 * units := Nat.mul_le_mul_right _ (by omega)
    rw [Nat.mul_one, h53] at hlower
    omega

end Binary64

namespace BinSpec

open Binary64

/-- Multiples of a step that is not among the least numbers are told apart by rounding. -/
theorem multiples_ascending {count units m : Nat} {held : Held units} (hm : Held m)
    (hcount : count ≤ 1 <<< 52) (hlarge : 1 <<< 52 ≤ units) (hlast : (count - 1) * units ≤ m) :
    (multiples count (.finite false units held)).IsChain (· < ·) := by
  rw [List.isChain_iff_getElem]
  intro i hi
  rw [length_multiples] at hi
  have hbound (j : Nat) (hj : j ≤ count - 1) : j * units ≤ m * 1 := by
    rw [Nat.mul_one]
    exact Nat.le_trans (Nat.mul_le_mul_right units hj) hlast
  obtain ⟨lower, hlower, hleft, -⟩ := ofExact_le false hm Nat.one_pos (hbound i (by omega))
  obtain ⟨upper, hupper, hright, -⟩ := ofExact_le false hm Nat.one_pos (hbound (i + 1) (by omega))
  have hlt : lower < upper := by
    rw [units_of_ofExact hleft, units_of_ofExact hright]
    exact roundMagnitude_multiple_lt (by omega) hlarge
  simp only [multiples, List.getElem_map, List.getElem_range]
  rw [ofNat_mul (by omega), ofNat_mul (by omega), hleft, hright, finite_lt_finite_iff]
  exact hlt

/-- A range far above the least numbers can be divided into steps that are told apart. -/
theorem ascending_of_division {range divisions : Nat} {held : Held range} (hsome : 0 < divisions)
    (hfew : divisions ≤ 1 <<< 52) (hlarge : 1 <<< 104 ≤ range) :
    (multiples divisions (.finite false range held / ofNat divisions)).IsChain (· < ·) := by
  have hmany : 1 <<< 52 * divisions ≤ range :=
    calc 1 <<< 52 * divisions ≤ 1 <<< 52 * 1 <<< 52 := Nat.mul_le_mul_left _ hfew
      _ = 1 <<< 104 := one_shiftLeft_mul 52 52
      _ ≤ range := hlarge
  obtain ⟨step, hstep, hdivided, -⟩ :=
    ofExact_le false held hsome (Nat.le_mul_of_pos_right range hsome)
  have hround := units_of_ofExact hdivided
  have hfar : 1 <<< 52 ≤ step := by
    rw [hround]
    exact le_roundMagnitude hsome (aligned_shiftLeft_of_le (k := 1) (by decide) 52) hmany
  have hlast := pred_mul_roundMagnitude_le hsome (Nat.le_trans hfew (by decide)) hmany
  rw [← hround] at hlast
  rw [div_ofNat hsome (Nat.le_trans hfew (by decide)), hdivided]
  exact multiples_ascending held hfew hfar hlast

/-- Bins by the mean of samples need two divisions and a sample that is not zero. -/
theorem exists_meanScaled_iff {samples : List Binary64} {divisions : Nat}
    (hsamples : ∀ sample ∈ samples, IsSample sample) (hlength : samples.length ≤ 1 <<< 64)
    (htwo : 2 ≤ divisions) (hfew : divisions ≤ 1 <<< 52) :
    (∃ spec, meanScaled samples divisions = .ok spec) ↔ ∃ sample ∈ samples, 0 < sample := by
  constructor
  · rintro ⟨spec, hspec⟩
    obtain ⟨-, mean, hmean, -, hpos, -⟩ := meanScaled_eq_ok_iff.1 hspec
    by_contra hnone
    exact (upTo_zero_mean hsamples (fun sample hmem hsample => hnone ⟨sample, hmem, hsample⟩) hmean
      (by decide)).not_pos hpos
  · rintro ⟨sample, hmem, hsample⟩
    have hupTo : ∀ sample ∈ samples, UpTo (1 <<< 1138) sample :=
      fun sample hmem => (hsamples sample hmem).upTo
    have hfrom := zeroOrFrom_sum (held_shift (k := 1054) (by decide)).aligned
      fun sample hmem => (hsamples sample hmem).zeroOrFrom
    have hpos : 0 < sum samples := (sum_pos_iff hupTo).2 ⟨sample, hmem, hsample⟩
    have hsome : 0 < samples.length := List.length_pos_of_mem hmem
    -- sum, mean and range keep their distance from both ends of the format
    have hrange := ((hfrom.between (upTo_sum hupTo) hpos).div_ofNat hsome hlength).mul_three
    obtain ⟨range, hheld, hupper, hlow, -⟩ := id hrange
    refine ⟨_, meanScaled_eq_ok_iff.2 ⟨htwo, _, mean?_eq_some_iff.2 ⟨hsome, rfl⟩, hrange.isFinite,
      hrange.pos (by decide), ofEdges_eq_ok_iff.2 ⟨?_, ?_, rfl⟩⟩⟩
    · rwa [length_multiples]
    · rw [hupper]
      exact ascending_of_division (by omega) hfew
        (Nat.le_trans (one_shiftLeft_le (by decide)) hlow)

theorem exists_meanScaled_map_iff {α : Type} {value : α → Binary64} {word : α → UInt64}
    (hvalue : ∀ a, IsSample (value a) ∧ (0 < value a ↔ word a ≠ 0)) {items : List α}
    {divisions : Nat} (hlength : items.length ≤ 1 <<< 64) (htwo : 2 ≤ divisions)
    (hfew : divisions ≤ 1 <<< 52) :
    (∃ spec, meanScaled (items.map value) divisions = .ok spec) ↔
      ∃ item ∈ items, word item ≠ 0 := by
  have hsamples : ∀ sample ∈ items.map value, IsSample sample :=
    List.forall_mem_map.2 fun item _ => (hvalue item).1
  rw [exists_meanScaled_iff hsamples (by rwa [List.length_map]) htwo hfew]
  simp only [List.mem_map, exists_exists_and_eq_and, (hvalue _).2]

end BinSpec

end HeapLatency
