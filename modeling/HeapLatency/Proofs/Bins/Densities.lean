import HeapLatency.Proofs.Bins.Means
import HeapLatency.Proofs.Bins.Spans
import HeapLatency.Proofs.Number.Near

/-!
# Densities

A density is a count, divided by the number of samples and the width of its bin. Over bins that
series of whole samples share it is a number, and it is zero only where the count is: the bins are
wide enough not to make it an infinity, and narrow enough to leave something of a single sample.
-/

namespace HeapLatency

namespace Binary64

/-! ## Rounding up to a factor of two -/

theorem spacing_le_of_pos {units : Nat} (h : 0 < units) : spacing units ≤ units := by
  rw [spacing_eq_two_pow]
  exact Nat.le_trans (Nat.pow_le_pow_right (by decide) (Nat.sub_le _ _)) (Nat.log2_self_le h.ne')

theorem roundMagnitude_mul_le_two_mul (num den : Nat) : roundMagnitude num den * den ≤ 2 * num := by
  rcases Nat.eq_zero_or_pos (num / den) with hzero | hpos
  · -- a quotient below one is rounded to one from a half on
    have hspacing : spacing 0 = 1 := rfl
    rw [roundMagnitude, hzero, hspacing, Nat.mul_one, Nat.mul_one]
    have hhalf := two_mul_nearestEven_mul_le num den
    have hone := nearestEven_le_div_succ num den
    rw [hzero] at hone
    rcases Nat.eq_zero_or_pos (nearestEven num den) with hnone | hsome
    · rw [hnone, Nat.zero_mul]
      exact Nat.zero_le _
    · have heq : nearestEven num den = 1 := by omega
      rw [heq] at hhalf ⊢
      omega
  · have herror := two_mul_roundMagnitude_mul_le num den
    have hspacing : den * spacing (num / den) ≤ num :=
      Nat.le_trans (Nat.mul_le_mul_left den (spacing_le_of_pos hpos)) (Nat.mul_div_le num den)
    omega

/-- What is at most half the spacing of a power of two is lost when it is added. -/
theorem roundMagnitude_le_shift {num k : Nat} (h : num ≤ 1 <<< (k + 53) + 1 <<< k) :
    roundMagnitude num 1 ≤ 1 <<< (k + 53) := by
  rw [Nat.one_shiftLeft, Nat.one_shiftLeft] at h
  rw [Nat.one_shiftLeft]
  have hspacing : spacing (2 ^ (k + 53)) = 2 ^ (k + 1) := by
    rw [spacing_eq_two_pow, Nat.log2_two_pow, show k + 53 - 52 = k + 1 by omega]
  have hheld : 2 ^ (k + 53) % spacing (2 ^ (k + 53)) = 0 := by
    rw [hspacing]
    exact Nat.mod_eq_zero_of_dvd (pow_dvd_pow 2 (by omega))
  by_cases hle : num ≤ 2 ^ (k + 53)
  · exact roundMagnitude_le Nat.one_pos hheld (by rwa [Nat.mul_one])
  · have htwice : 2 ^ (k + 1) = 2 * 2 ^ k := Nat.pow_succ'
    have heven : 2 ^ (k + 53) / spacing (2 ^ (k + 53)) % 2 = 0 := by
      rw [hspacing, Nat.pow_div (by omega) (by decide), show k + 53 - (k + 1) = 52 by omega]
    refine Nat.le_of_eq (roundMagnitude_of_near hheld Nat.one_pos ⟨?_, ?_, fun hodd => ?_⟩)
    · omega
    · rw [gapAbove, hspacing, htwice]
      omega
    · omega

/-! ## Numbers up to a magnitude -/

/-- A number that is not negative, and at most a magnitude. -/
inductive UpTo (most : Nat) : Binary64 → Prop where
  | finite {negative : Bool} {units : Nat} {held : Held units}
    (positive : signed negative units = units) (le : units ≤ most) :
    UpTo most (.finite negative units held)

theorem UpTo.isNaN {most : Nat} {x : Binary64} (h : UpTo most x) : x.isNaN = false := by
  cases h
  rfl

theorem eq_false_of_signed {negative : Bool} {units : Nat} (hpos : 0 < units)
    (h : signed negative units = units) : negative = false := by
  cases negative with
  | false => rfl
  | true =>
    simp only [signed, if_true] at h
    omega

variable {most : Nat} {x y : Binary64}

theorem upTo_ofExact_zero {den : Nat} (hden : 0 < den) (negative : Bool) :
    UpTo most (ofExact negative 0 den) := by
  obtain ⟨held, heq⟩ := ofExact_zero negative hden
  rw [heq]
  exact .finite (by cases negative <;> rfl) (Nat.zero_le _)

/-- Scaling, whether by a product or by a quotient, moves the magnitude that numbers end at. -/
theorem upTo_ofExact {negative : Bool} {units num den : Nat} (hmost : Held most) (hden : 0 < den)
    (positive : signed negative units = units) (h : units * num ≤ most * den) :
    UpTo most (ofExact negative (units * num) den) := by
  by_cases hzero : units = 0
  · rw [hzero, Nat.zero_mul]
    exact upTo_ofExact_zero hden negative
  · obtain rfl := eq_false_of_signed (Nat.pos_of_ne_zero hzero) positive
    obtain ⟨rounded, held, heq, hle⟩ := ofExact_le false hmost hden h
    rw [heq]
    exact .finite rfl hle

theorem UpTo.mul_finite {scaled factor : Nat} {held : Held factor} (hx : UpTo most x)
    (hscaled : Held scaled) (h : most * factor ≤ scaled * unitsPerOne) :
    UpTo scaled (x * .finite false factor held) := by
  obtain @⟨s, a, ha, positive, hle⟩ := hx
  show UpTo scaled (ofExact (s != false) (a * factor) unitsPerOne)
  rw [Bool.bne_false]
  exact upTo_ofExact hscaled unitsPerOne_pos positive
    (Nat.le_trans (Nat.mul_le_mul_right factor hle) h)

theorem ofNat_of_pos {n : Nat} (hn : 0 < n) :
    (∃ units held, ofNat n = .finite false units held ∧ unitsPerOne ≤ units) ∨
      ofNat n = .infinite false := by
  have hround : unitsPerOne ≤ roundMagnitude (n * unitsPerOne) 1 := by
    apply le_roundMagnitude Nat.one_pos held_unitsPerOne.aligned
    rw [Nat.mul_one]
    exact Nat.le_mul_of_pos_left unitsPerOne hn
  by_cases hlt : roundMagnitude (n * unitsPerOne) 1 < overflow
  · exact .inl ⟨_, _, ofExact_of_lt hlt, hround⟩
  · exact .inr (ofExact_of_le (Nat.not_lt.1 hlt))

theorem UpTo.div_ofNat {n : Nat} (hx : UpTo most x) (hmost : Held most) (hn : 0 < n) :
    UpTo most (x / ofNat n) := by
  obtain @⟨s, a, ha, positive, hle⟩ := hx
  rcases ofNat_of_pos hn with ⟨count, held, heq, hcount⟩ | heq
  · have hpos : 0 < count := Nat.lt_of_lt_of_le unitsPerOne_pos hcount
    rw [heq]
    show UpTo most (if count = 0 then _ else ofExact (s != false) (a * unitsPerOne) count)
    rw [if_neg hpos.ne', Bool.bne_false]
    exact upTo_ofExact hmost hpos positive (Nat.mul_le_mul hle hcount)
  · rw [heq]
    exact upTo_ofExact_zero Nat.one_pos _

/-- The greatest sum of samples that are machine words: what is added to it is lost. -/
def greatestSum : Nat := 1 <<< (1138 + 53)

theorem held_shift {k : Nat} (h : k < 2045) : Held (1 <<< k) := held_shiftLeft (by decide) h

theorem UpTo.add_word (hx : UpTo greatestSum x) (hy : UpTo (1 <<< 1138) y) :
    UpTo greatestSum (x + y) := by
  obtain @⟨s, a, ha, hsx, hx⟩ := hx
  obtain @⟨t, b, hb, hsy, hy⟩ := hy
  show UpTo greatestSum (addFinite s a t b)
  rw [addFinite, hsx, hsy, ← Int.natCast_add]
  by_cases hzero : a + b = 0
  · rw [if_pos (by rw [hzero]; rfl)]
    exact upTo_ofExact_zero Nat.one_pos _
  · rw [if_neg (Int.natCast_ne_zero.2 hzero), decide_eq_false (Int.not_lt.2 (Int.natCast_nonneg _)),
      Int.natAbs_natCast]
    have hround : roundMagnitude (a + b) 1 ≤ greatestSum :=
      roundMagnitude_le_shift (Nat.add_le_add hx hy)
    have hheld : Held greatestSum := held_shift (by decide)
    rw [ofExact_of_lt (Nat.lt_of_le_of_lt hround hheld.bounded)]
    exact .finite rfl hround

theorem upTo_ofNat {n : Nat} (h : n < 1 <<< 64) : UpTo (1 <<< 1138) (ofNat n) := by
  apply upTo_ofExact (held_shift (by decide)) Nat.one_pos rfl
  rw [Nat.mul_one]
  exact word_units_le (Nat.le_of_lt h)

theorem upTo_sum {samples : List Binary64} (h : ∀ sample ∈ samples, UpTo (1 <<< 1138) sample) :
    UpTo greatestSum (sum samples) := by
  have hfold : ∀ total, UpTo greatestSum total →
      UpTo greatestSum (samples.foldl (· + ·) total) := by
    induction samples with
    | nil => exact fun total htotal => htotal
    | cons sample samples ih =>
      intro total htotal
      rw [List.forall_mem_cons] at h
      exact ih h.2 _ (htotal.add_word h.1)
  exact hfold _ (upTo_ofExact_zero Nat.one_pos true)

theorem upTo_mean {cycles : List UInt64} {mean : Binary64}
    (h : mean? (samplesOf cycles) = some mean) : UpTo greatestSum mean := by
  obtain ⟨hsome, rfl⟩ := mean?_eq_some_iff.1 h
  have hsum : UpTo greatestSum (sum (samplesOf cycles)) :=
    upTo_sum (List.forall_mem_map.2 fun first _ => upTo_ofNat first.toNat_lt)
  exact hsum.div_ofNat (held_shift (by decide)) hsome

/-- The greatest double mean. -/
def greatestDouble : Nat := 1 <<< 1192

theorem upTo_double {mean : Binary64} (h : UpTo greatestSum mean) :
    UpTo greatestDouble (mean * 2) := by
  have htwo : (2 : Binary64) = .finite false (2 * unitsPerOne) (held_whole (by decide)) :=
    ofNat_eq (by decide)
  have hdouble : greatestSum * 2 = greatestDouble := one_shiftLeft_mul (1138 + 53) 1
  rw [htwo]
  refine h.mul_finite (held_shift (by decide)) (Nat.le_of_eq ?_)
  rw [← Nat.mul_assoc, hdouble]

/-! ## Rounding up to multiples -/

variable {units base : Nat} {negative : Bool} {hunits : Held units} {hbase : Held base}

/-- How many bases a quotient is rounded up to. -/
def basesFor (quotient : Nat) : Nat :=
  if quotient % unitsPerOne ≠ 0 then quotient / unitsPerOne + 1 else quotient / unitsPerOne

theorem ceil_eq {quotient : Nat} (held : Held quotient) :
    (finite false quotient held).ceil = ofNat (basesFor quotient) := ceil_finite held

theorem basesFor_le_one {quotient : Nat} (h : quotient ≤ unitsPerOne) : basesFor quotient ≤ 1 := by
  rw [basesFor]
  rcases Nat.lt_or_eq_of_le h with hlt | rfl
  · rw [Nat.div_eq_of_lt hlt]
    split_ifs <;> decide
  · rw [Nat.mod_self, if_neg (not_not_intro rfl), Nat.div_self unitsPerOne_pos]

theorem basesFor_mul_le (quotient : Nat) :
    basesFor quotient * unitsPerOne ≤ quotient + unitsPerOne := by
  have hle : basesFor quotient ≤ quotient / unitsPerOne + 1 := by
    rw [basesFor]
    split_ifs <;> omega
  calc basesFor quotient * unitsPerOne ≤ (quotient / unitsPerOne + 1) * unitsPerOne :=
        Nat.mul_le_mul_right _ hle
    _ = quotient / unitsPerOne * unitsPerOne + unitsPerOne := Nat.succ_mul _ _
    _ ≤ quotient + unitsPerOne := Nat.add_le_add_right (Nat.div_mul_le_self _ _) _

theorem roundUp_zero (hzero : units = 0) (hpos : 0 < base) :
    ∃ held, (finite negative units hunits).roundUp (finite false base hbase) =
      finite negative 0 held := by
  obtain ⟨hquotient, heq⟩ := ofExact_zero negative hpos
  obtain ⟨hwhole, hceil⟩ := ofExact_zero negative Nat.one_pos
  obtain ⟨held, hproduct⟩ := ofExact_zero negative unitsPerOne_pos
  refine ⟨held, ?_⟩
  have hup : (finite negative 0 hquotient).ceil = finite negative 0 hwhole := by
    rw [← hceil]
    show ofExact negative ((if !negative && 0 % unitsPerOne != 0 then 0 / unitsPerOne + 1
      else 0 / unitsPerOne) * unitsPerOne) 1 = _
    rw [Nat.zero_mod, Nat.zero_div, bne_self_eq_false, Bool.and_false, if_neg Bool.false_ne_true,
      Nat.zero_mul]
  rw [roundUp, div_finite hpos, hzero, Nat.zero_mul, heq, hup, mul_finite, Nat.zero_mul, hproduct]

/-- What is at most the base is rounded up to the base, or is nothing. -/
theorem roundUp_of_upTo (hx : UpTo base x) (hpos : 0 < base) :
    x.roundUp (finite false base hbase) = finite false base hbase ∨
      ∃ negative held, x.roundUp (finite false base hbase) = finite negative 0 held := by
  obtain @⟨negative, units, held, positive, hle⟩ := hx
  by_cases hzero : units = 0
  · exact .inr ⟨negative, roundUp_zero hzero hpos⟩
  · obtain rfl := eq_false_of_signed (Nat.pos_of_ne_zero hzero) positive
    have hone : units * unitsPerOne ≤ unitsPerOne * base := by
      rw [Nat.mul_comm]
      exact Nat.mul_le_mul_left unitsPerOne hle
    obtain ⟨quotient, hquotient, heq, hle⟩ := ofExact_le false held_unitsPerOne hpos hone
    have hbases := basesFor_le_one hle
    rw [roundUp, div_finite hpos, heq, ceil_eq]
    generalize basesFor quotient = bases at hbases
    obtain rfl | rfl : bases = 0 ∨ bases = 1 := by omega
    · obtain ⟨hnone, heq⟩ := ofExact_zero false Nat.one_pos
      rw [ofNat_mul (by decide), Nat.zero_mul, heq]
      exact .inr ⟨_, _, rfl⟩
    · rw [ofNat_mul (by decide), Nat.one_mul, ofExact_of_held hbase]
      exact .inl rfl

theorem roundUp_eq_base {range : Nat} {hrange : Held range} (hx : UpTo base x) (hpos : 0 < base)
    (h : x.roundUp (finite false base hbase) = finite false range hrange) (hsome : 0 < range) :
    finite false range hrange = finite false base hbase := by
  rw [← h]
  refine (roundUp_of_upTo hx hpos).resolve_right ?_
  rintro ⟨negative, held, heq⟩
  rw [h] at heq
  cases heq
  exact absurd hsome (Nat.lt_irrefl 0)

theorem exists_of_roundUp {result : Nat} {hresult : Held result} (hpos : 0 < base)
    (h : (finite false units hunits).roundUp (finite false base hbase) =
      finite false result hresult) :
    ∃ quotient whole, quotient = roundMagnitude (units * unitsPerOne) base ∧
      whole = roundMagnitude (basesFor quotient * unitsPerOne) 1 ∧
      result = roundMagnitude (whole * base) unitsPerOne := by
  rw [roundUp, div_finite hpos] at h
  by_cases hquotient : roundMagnitude (units * unitsPerOne) base < overflow
  · rw [ofExact_of_lt hquotient, ceil_eq, ofNat] at h
    refine ⟨_, _, rfl, rfl, ?_⟩
    by_cases hwhole : roundMagnitude
        (basesFor (roundMagnitude (units * unitsPerOne) base) * unitsPerOne) 1 < overflow
    · rw [ofExact_of_lt hwhole, mul_finite] at h
      exact units_of_ofExact h
    · rw [ofExact_of_le (Nat.not_lt.1 hwhole), infinite_mul_finite hpos] at h
      cases h
  · have hceil : (infinite false).ceil = infinite false := rfl
    rw [ofExact_of_le (Nat.not_lt.1 hquotient), hceil, infinite_mul_finite hpos] at h
    cases h

theorem roundUp_le {range : Nat} {hrange : Held range} (hpos : 0 < base)
    (h : (finite false units hunits).roundUp (finite false base hbase) =
      finite false range hrange) : range ≤ 8 * units + 4 * base := by
  obtain ⟨quotient, whole, hquotient, hwhole, hrounded⟩ := exists_of_roundUp hpos h
  have hbases := basesFor_mul_le quotient
  have htwice := roundMagnitude_mul_le_two_mul (units * unitsPerOne) base
  rw [← hquotient] at htwice
  generalize basesFor quotient = bases at hbases hwhole
  have hmultiple : bases * base ≤ 2 * units + base := by
    refine Nat.le_of_mul_le_mul_right ?_ unitsPerOne_pos
    calc bases * base * unitsPerOne = bases * unitsPerOne * base := by ring
      _ ≤ (quotient + unitsPerOne) * base := Nat.mul_le_mul_right base hbases
      _ = quotient * base + unitsPerOne * base := by ring
      _ ≤ 2 * (units * unitsPerOne) + unitsPerOne * base := Nat.add_le_add_right htwice _
      _ = (2 * units + base) * unitsPerOne := by ring
  have hceil := roundMagnitude_mul_le_two_mul (bases * unitsPerOne) 1
  have hproduct := roundMagnitude_mul_le_two_mul (whole * base) unitsPerOne
  rw [← hwhole, Nat.mul_one] at hceil
  rw [← hrounded] at hproduct
  have hfour : range ≤ 4 * (bases * base) := by
    refine Nat.le_of_mul_le_mul_right ?_ unitsPerOne_pos
    calc range * unitsPerOne ≤ 2 * (whole * base) := hproduct
      _ ≤ 2 * (2 * (bases * unitsPerOne) * base) :=
        Nat.mul_le_mul_left 2 (Nat.mul_le_mul_right base hceil)
      _ = 4 * (bases * base) * unitsPerOne := by ring
  omega

end Binary64

namespace BinSpec

open Binary64

/-! ## Widths -/

theorem upTo_of_doubleMean {series : List (List Binary64)} {most position : Nat}
    {greatest upper : Binary64} (hgreatest : UpTo most greatest)
    (hdoubles : ∀ samples ∈ series, ∀ mean, mean? samples = some mean → UpTo most (mean * 2))
    (h : doubleMean position greatest series = .ok upper) : UpTo most upper := by
  induction series generalizing position greatest with
  | nil =>
    cases h
    exact hgreatest
  | cons samples series ih =>
    rw [List.forall_mem_cons] at hdoubles
    rw [doubleMean] at h
    split at h
    · cases h
    · rename_i mean hmean
      refine ih ?_ hdoubles.2 h
      rcases picks_max.either greatest (mean * 2) with heq | heq
      · rw [heq]
        exact hgreatest
      · rw [heq]
        exact hdoubles.1 mean hmean

theorem upTo_doubleMean {series : List (List UInt64)} {position : Nat} {greatest upper : Binary64}
    (hgreatest : UpTo greatestDouble greatest)
    (h : doubleMean position greatest (series.map samplesOf) = .ok upper) :
    UpTo greatestDouble upper :=
  upTo_of_doubleMean hgreatest
    (List.forall_mem_map.2 fun _ _ _ hmean => upTo_double (upTo_mean hmean)) h

/-- A range within the base has only one edge. -/
theorem Shared.not_upTo {divisions base range step count : Nat} {upper : Binary64}
    (h : Shared divisions upper base range step count) : ¬UpTo base upper := by
  intro hupper
  have htwo := h.two_le_divisions
  have hrange : finite false range h.range_held = finite false base h.base_held :=
    roundUp_eq_base hupper h.base_pos h.range_eq h.range_pos
  have hdivided : UpTo base (finite false range h.range_held / .ofNat divisions) := by
    rw [hrange]
    exact (UpTo.finite rfl (Nat.le_refl base)).div_ofNat h.base_held (by omega)
  have hstep : finite false step h.step_held = finite false base h.base_held :=
    roundUp_eq_base hdivided h.base_pos h.step_eq h.step_pos
  have hcount : (ofExact false (base * unitsPerOne) base).ceil.toNatUpTo maxWord ≤ 1 := by
    apply toNatUpTo_ceil_le maxWord (by decide) h.base_pos
    rw [Nat.one_mul, Nat.mul_comm]
  have heq := h.count_eq
  rw [hrange, hstep, div_finite h.base_pos] at heq
  have hmany := h.two_le_count
  omega

theorem Shared.exists_upper {series : List (List UInt64)} {divisions base range step count : Nat}
    {upper : Binary64} (h : Shared divisions upper base range step count)
    (hupper : doubleMean 0 0 (series.map samplesOf) = .ok upper) :
    ∃ units held, upper = .finite false units held ∧ base < units ∧ units ≤ greatestDouble := by
  obtain @⟨negative, units, held, positive, hle⟩ : UpTo greatestDouble upper :=
    upTo_doubleMean (upTo_ofExact_zero Nat.one_pos false) hupper
  have hbelow : base < units := Nat.lt_of_not_le fun hle => h.not_upTo (.finite positive hle)
  obtain rfl := eq_false_of_signed (Nat.zero_lt_of_lt hbelow) positive
  exact ⟨units, held, rfl, hbelow, hle⟩

/-- The greatest range of bins that series of machine words share. -/
def greatestRange : Nat := 1 <<< 1196

theorem exists_range {series : List (List UInt64)} {divisions : Nat} {base : Binary64}
    {spec : BinSpec} (h : sharedRange (series.map samplesOf) divisions base = .ok spec) :
    ∃ range, Held range ∧ range ≤ greatestRange ∧
      ∀ edge ∈ spec.edges, ∃ below held, edge = .finite false below held ∧ below ≤ range := by
  obtain ⟨upper, b, range, step, count, shared, hupper, -, rfl⟩ := exists_shared h
  obtain ⟨units, held, rfl, hbelow, hle⟩ := shared.exists_upper hupper
  have hround := roundUp_le shared.base_pos shared.range_eq
  have hsixteen : greatestDouble * 16 = greatestRange := one_shiftLeft_mul 1192 4
  exact ⟨range, shared.range_held, by omega, shared.edge_le⟩

theorem width_eq {spec : BinSpec} {bin lower upper : Nat} {hlower : Held lower}
    {hupper : Held upper} (hlowerEq : spec.edge bin = .finite false lower hlower)
    (hupperEq : spec.edge (bin + 1) = .finite false upper hupper) (hlt : lower < upper) :
    spec.width bin = ofExact false (upper - lower) 1 := by
  rw [width, hupperEq, hlowerEq]
  show addFinite false upper true lower = _
  have hsum : signed false upper + signed true lower = ((upper - lower : Nat) : Int) := by
    simp only [signed, Bool.false_eq_true, if_false, if_true]
    omega
  rw [addFinite, hsum, if_neg (Int.natCast_ne_zero.2 (by omega)),
    decide_eq_false (Int.not_lt.2 (Int.natCast_nonneg _)), Int.natAbs_natCast]

theorem exists_edges {series : List (List UInt64)} {divisions : Nat} {base : Binary64}
    {spec : BinSpec} (h : sharedRange (series.map samplesOf) divisions base = .ok spec) {bin : Nat}
    (hbin : bin < spec.binCount) :
    ∃ lower upper range, ∃ hlower hupper, spec.edge bin = .finite false lower hlower ∧
      spec.edge (bin + 1) = .finite false upper hupper ∧ lower < upper ∧ upper ≤ range ∧
      Held range ∧ range ≤ greatestRange := by
  obtain ⟨range, hrange, hbound, hedges⟩ := exists_range h
  have hsound := sound_of_sharedRange h
  have htwo := hsound.two_le
  have hcount : bin + 1 < spec.edges.length := by
    rw [binCount] at hbin
    omega
  obtain ⟨lower, hlower, hlowerEq, -⟩ := hedges _ (mem_edge (Nat.lt_of_succ_lt hcount))
  obtain ⟨upper, hupper, hupperEq, hle⟩ := hedges _ (mem_edge hcount)
  refine ⟨lower, upper, range, hlower, hupper, hlowerEq, hupperEq, ?_, hle, hrange, hbound⟩
  have hstep := List.isChain_iff_getElem.1 hsound.ascending bin hcount
  rw [edge, List.getElem?_eq_getElem (Nat.lt_of_succ_lt hcount), Option.getD_some] at hlowerEq
  rw [edge, List.getElem?_eq_getElem hcount, Option.getD_some] at hupperEq
  rw [hlowerEq, hupperEq] at hstep
  exact finite_lt_finite_iff.1 hstep

/-- The bins that series of machine words share are neither too narrow nor too wide for the
density of a sample. -/
theorem exists_width {series : List (List UInt64)} {divisions : Nat} {base : Binary64}
    {spec : BinSpec} (h : sharedRange (series.map samplesOf) divisions base = .ok spec) {bin : Nat}
    (hbin : bin < spec.binCount) :
    ∃ width held, spec.width bin = .finite false width held ∧ 0 < width ∧
      width ≤ greatestRange := by
  obtain ⟨lower, upper, range, hlower, hupper, hlowerEq, hupperEq, hlt, hle, hrange, hbound⟩ :=
    exists_edges h hbin
  obtain ⟨rounded, held, heq, hmost⟩ := ofExact_le false hrange Nat.one_pos
    (show upper - lower ≤ range * 1 by omega)
  refine ⟨rounded, held, (width_eq hlowerEq hupperEq hlt).trans heq, ?_,
    Nat.le_trans hmost hbound⟩
  rw [units_of_ofExact heq]
  exact le_roundMagnitude Nat.one_pos (Nat.mod_one _) (by omega)

end BinSpec

/-! ## Densities -/

namespace Binary64

/-- A number that is above zero exactly where a count is. -/
structure Follows (value : Binary64) (count : Nat) : Prop where
  number : value.isNaN = false
  nonpos_iff : value ≤ 0 ↔ count = 0

variable {count : Nat}

theorem rank_zero : (0 : Binary64).rank = some 0 := by
  obtain ⟨held, heq⟩ := ofExact_zero false Nat.one_pos
  show (ofExact false (0 * unitsPerOne) 1).rank = some 0
  rw [Nat.zero_mul, heq]
  rfl

theorem follows_of_rank {value : Binary64} {place : Int} (hrank : value.rank = some place)
    (h : place ≤ 0 ↔ count = 0) : Follows value count where
  number := by cases value <;> first | rfl | cases hrank
  nonpos_iff := by
    rw [le_iff, hrank, rank_zero, ← h]
    refine ⟨?_, fun hle => ⟨place, 0, rfl, rfl, hle⟩⟩
    rintro ⟨a, b, ha, hb, hle⟩
    cases ha
    cases hb
    exact hle

theorem follows_infinite (hcount : 0 < count) : Follows (infinite false) count := by
  refine follows_of_rank rfl (iff_of_false (fun hle => ?_) hcount.ne')
  have hpos : 0 < overflow := Nat.lt_trans unitsPerOne_pos held_unitsPerOne.bounded
  exact absurd (Int.ofNat_le.1 hle) (Nat.not_le.2 hpos)

theorem follows_ofExact {num den : Nat} (hcount : 0 < count) (hden : 0 < den) (h : den ≤ num) :
    Follows (ofExact false num den) count := by
  by_cases hlt : roundMagnitude num den < overflow
  · rw [ofExact_of_lt hlt]
    have hone : 1 ≤ roundMagnitude num den :=
      le_roundMagnitude hden (Nat.mod_one _) (by rwa [Nat.one_mul])
    refine follows_of_rank rfl (iff_of_false (fun hle => ?_) hcount.ne')
    exact absurd (Int.ofNat_le.1 hle) (Nat.not_le.2 hone)
  · rw [ofExact_of_le (Nat.not_lt.1 hlt)]
    exact follows_infinite hcount

theorem follows_zero {den : Nat} (hden : 0 < den) : Follows (ofExact false 0 den) 0 := by
  obtain ⟨held, heq⟩ := ofExact_zero false hden
  rw [heq]
  exact follows_of_rank rfl (iff_of_true (Int.le_refl 0) rfl)

theorem follows_ofNat (count : Nat) : Follows (ofNat count) count := by
  rcases Nat.eq_zero_or_pos count with rfl | hpos
  · rw [ofNat, Nat.zero_mul]
    exact follows_zero Nat.one_pos
  · exact follows_ofExact hpos Nat.one_pos
      (Nat.le_trans unitsPerOne_pos (Nat.le_mul_of_pos_left unitsPerOne hpos))

theorem exists_area {total width least : Nat} (hwidth : Held width) (htotal : 0 < total)
    (hword : total < 1 <<< 64) (hleast : least % spacing least = 0) (hfrom : least ≤ width)
    (hle : width ≤ BinSpec.greatestRange) :
    ∃ area held, ofNat total * .finite false width hwidth = .finite false area held ∧
      least ≤ area ∧ area ≤ unitsPerOne * unitsPerOne := by
  rcases ofNat_of_pos htotal with ⟨samples, hsamples, heq, hsome⟩ | heq
  · obtain ⟨-, hmost⟩ : UpTo (1 <<< 1138) (.finite false samples hsamples) := heq ▸ upTo_ofNat hword
    have hheld : Held (1 <<< 1260) := held_shift (by decide)
    have hproduct : samples * width ≤ 1 <<< 1260 * unitsPerOne :=
      calc samples * width ≤ 1 <<< 1138 * 1 <<< 1196 := Nat.mul_le_mul hmost hle
        _ = 1 <<< 1260 * unitsPerOne := by rw [unitsPerOne, one_shiftLeft_mul, one_shiftLeft_mul]
    have hlow : least * unitsPerOne ≤ samples * width := by
      rw [Nat.mul_comm]
      exact Nat.mul_le_mul hsome hfrom
    obtain ⟨area, held, harea, hbound⟩ := ofExact_le false hheld unitsPerOne_pos hproduct
    refine ⟨area, held, ?_, ?_, Nat.le_trans hbound ?_⟩
    · rw [heq, mul_finite, harea]
    · rw [units_of_ofExact harea]
      exact le_roundMagnitude unitsPerOne_pos hleast hlow
    · rw [unitsPerOne, one_shiftLeft_mul]
      exact one_shiftLeft_le (by decide)
  · have hfinite := upTo_ofNat hword
    rw [heq] at hfinite
    cases hfinite

/-- Over bins that series of machine words share, the density of a bin is above zero exactly where
the bin has samples. -/
theorem follows_density {series : List (List UInt64)} {divisions : Nat} {base : Binary64}
    {spec : BinSpec} (h : BinSpec.sharedRange (series.map samplesOf) divisions base = .ok spec)
    {bin total : Nat} (hbin : bin < spec.binCount) (htotal : 0 < total) (hword : total < 1 <<< 64)
    (count : Nat) : Follows (ofNat count / (ofNat total * spec.width bin)) count := by
  obtain ⟨width, hwidth, heq, hpos, hle⟩ := BinSpec.exists_width h hbin
  obtain ⟨area, harea, hproduct, hsome, hmost⟩ :=
    exists_area hwidth htotal hword (Nat.mod_one _) hpos hle
  rw [heq, hproduct]
  rcases Nat.eq_zero_or_pos count with rfl | hcount
  · rw [ofNat_eq (Nat.zero_le _), div_finite hsome, Nat.zero_mul, Nat.zero_mul]
    exact follows_zero hsome
  · rcases ofNat_of_pos hcount with ⟨units, held, hunits, hfrom⟩ | hinfinite
    · rw [hunits, div_finite hsome]
      exact follows_ofExact hcount hsome
        (Nat.le_trans hmost (Nat.mul_le_mul_right unitsPerOne hfrom))
    · rw [hinfinite]
      exact follows_infinite hcount

end Binary64

end HeapLatency
