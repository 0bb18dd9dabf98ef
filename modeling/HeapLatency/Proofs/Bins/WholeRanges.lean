import HeapLatency.Proofs.Bins.Ranges
import HeapLatency.Proofs.Number.Nearest
import HeapLatency.Proofs.Number.Value

/-!
# Shared bins with whole bases

Range, step and number of edges are quotients, each of which is rounded before its next whole number
is taken. With a whole base and a range of at most 51 bits none of the three is rounded across a
whole number, so they are what exact arithmetic gives, and the edges are exact multiples of the
step.
-/

namespace HeapLatency

/-! ## Quotients rounded up -/

/-- `n` is the quotient of two whole numbers, rounded up. -/
def Ceiling (num den n : Nat) : Prop := ∀ i, i < n ↔ i * den < num

namespace Ceiling

variable {num den n : Nat}

theorem le_mul (h : Ceiling num den n) : num ≤ n * den :=
  Nat.not_lt.1 fun hlt => Nat.lt_irrefl n ((h n).2 hlt)

theorem pos (h : Ceiling num den n) (hnum : 0 < num) : 0 < n :=
  (h 0).2 (by rwa [Nat.zero_mul])

theorem exists_pred (h : Ceiling num den n) (hnum : 0 < num) :
    ∃ m, n = m + 1 ∧ m * den < num := by
  obtain ⟨m, rfl⟩ := Nat.exists_eq_succ_of_ne_zero (h.pos hnum).ne'
  exact ⟨m, rfl, (h m).1 (Nat.lt_succ_self m)⟩

theorem le (h : Ceiling num den n) {m : Nat} (hm : num ≤ m * den) : n ≤ m :=
  Nat.not_lt.1 fun hlt => Nat.not_lt.2 hm ((h m).1 hlt)

theorem unique (h : Ceiling num den n) {m : Nat} (hm : Ceiling num den m) : n = m :=
  Nat.le_antisymm (h.le hm.le_mul) (hm.le h.le_mul)

theorem of_between (hlow : n * den < num) (hhigh : num ≤ (n + 1) * den) :
    Ceiling num den (n + 1) := by
  intro i
  constructor
  · intro hi
    exact Nat.lt_of_le_of_lt (Nat.mul_le_mul_right den (Nat.le_of_lt_succ hi)) hlow
  · intro hi
    exact Nat.lt_of_mul_lt_mul_right (Nat.lt_of_lt_of_le hi hhigh)

theorem of_ceil {value : ℚ} (h : ∀ i : Nat, (i : ℚ) < value ↔ i * den < num) :
    Ceiling num den ⌈value⌉₊ := fun i => Nat.lt_ceil.trans (h i)

theorem natCast_div (num : Nat) (hden : 0 < den) : Ceiling num den ⌈(num : ℚ) / den⌉₊ := by
  refine of_ceil fun i => ?_
  rw [lt_div_iff₀ (Nat.cast_pos.2 hden), ← Nat.cast_mul, Nat.cast_lt]

theorem add_pred_div (num : Nat) (hden : 0 < den) : Ceiling num den ((num + den - 1) / den) := by
  intro i
  rw [Nat.lt_div_iff_mul_lt hden, Nat.mul_comm]
  omega

end Ceiling

namespace Binary64

/-! ## Quotients between whole numbers -/

variable {num den : Nat}

theorem lt_roundMagnitude_of_gap {m gap : Nat} (hden : 0 < den) (hlarge : 1 <<< 52 ≤ m)
    (hnum : m * den + gap ≤ num) (hgap : m * den < 1 <<< 53 * gap) :
    m < roundMagnitude num den := by
  by_contra hle
  rw [Nat.not_lt] at hle
  -- the error would be the whole gap, and so more than half the spacing
  have herror := two_mul_le_roundMagnitude_mul hden num
  have hdown : roundMagnitude num den * den ≤ m * den := Nat.mul_le_mul_right den hle
  have hspacing : den * spacing (num / den) ≤ den * spacing m :=
    Nat.mul_le_mul_left den (spacing_div_le_of_roundMagnitude_le hden hle)
  have hsmall : den * spacing m * 1 <<< 52 ≤ m * den := by
    rw [Nat.mul_assoc, Nat.mul_comm m]
    exact Nat.mul_le_mul_left den (spacing_mul_le hlarge)
  have h52 : (1 <<< 52 : Nat) = 4503599627370496 := by decide
  have h53 : (1 <<< 53 : Nat) = 9007199254740992 := by decide
  rw [h52] at hsmall
  rw [h53] at hgap
  omega

/-- A quotient between two multiples of a number stays between them when it is rounded, if the
distance to the lower one is not too small and the upper one is held. -/
theorem ceiling_roundMagnitude {base n : Nat} (gap : Nat) (hden : 0 < den) (hsome : den ≤ num)
    (hbase : 1 <<< 52 ≤ base) (held : Held ((n + 1) * base)) (hlow : n * base * den + gap ≤ num)
    (hgap : n * base * den < 1 <<< 53 * gap) (hhigh : num ≤ (n + 1) * base * den) :
    Ceiling (roundMagnitude num den) base (n + 1) := by
  refine .of_between ?_ (roundMagnitude_le hden held.aligned hhigh)
  cases n with
  | zero =>
    rw [Nat.zero_mul]
    exact le_roundMagnitude hden (Nat.mod_one 1) (by rwa [Nat.one_mul])
  | succ n =>
    refine lt_roundMagnitude_of_gap hden ?_ hlow hgap
    exact Nat.le_trans hbase (Nat.le_mul_of_pos_left base (Nat.succ_pos n))

theorem ceiling_basesFor (quotient : Nat) : Ceiling quotient unitsPerOne (basesFor quotient) := by
  intro i
  constructor
  · contrapose!
    intro hle
    rw [basesFor]
    split_ifs with hrest
    · -- with a rest the quotient is below the whole number
      refine Nat.succ_le_of_lt ((Nat.div_lt_iff_lt_mul unitsPerOne_pos).2 ?_)
      refine Nat.lt_of_le_of_ne hle ?_
      rintro rfl
      exact hrest (Nat.mul_mod_left _ _)
    · exact div_le_of_le_whole hle
  · intro hlt
    exact Nat.lt_of_mul_lt_mul_right (Nat.lt_of_lt_of_le hlt (le_basesFor_mul quotient))

theorem ceil_ofExact {n : Nat} (h : Ceiling (roundMagnitude num den) unitsPerOne n)
    (hn : n ≤ 1 <<< 53) : (ofExact false num den).ceil = ofNat n := by
  have hbounded : roundMagnitude num den < overflow :=
    Nat.lt_of_le_of_lt h.le_mul (held_whole hn).bounded
  rw [ofExact_of_lt hbounded, ceil_eq, (ceiling_basesFor _).unique h]

/-! ## Multiples of a whole base -/

variable {units whole n : Nat} {hunits : Held units} {hbase : Held (whole * unitsPerOne)}

theorem zero_lt_whole (hpos : 0 < whole) (hbase : Held (whole * unitsPerOne)) :
    (0 : Binary64) < finite false (whole * unitsPerOne) hbase := by
  rw [zero_eq, finite_lt_finite_iff]
  exact Nat.mul_lt_mul_of_pos_right hpos unitsPerOne_pos

theorem ofNat_mul_whole {i : Nat} (hi : i ≤ 1 <<< 53) (hproduct : i * whole ≤ 1 <<< 53) :
    ofNat i * finite false (whole * unitsPerOne) hbase =
      finite false (i * whole * unitsPerOne) (held_whole hproduct) := by
  have hregroup : i * (whole * unitsPerOne) = i * whole * unitsPerOne := (Nat.mul_assoc ..).symm
  rw [ofNat_mul hi]
  simp only [hregroup]
  exact ofExact_of_held (held_whole hproduct)

/-- Rounding up to a multiple of a whole base is exact. The number below need not be far above the
multiple before: that one is held, so the next magnitude is far enough away. -/
theorem roundUp_eq (hpos : 0 < whole) (hsome : whole ≤ units)
    (hcount : Ceiling units (whole * unitsPerOne) n) (hfew : n * whole ≤ 1 <<< 53) :
    (finite false units hunits).roundUp (finite false (whole * unitsPerOne) hbase) =
      finite false (n * whole * unitsPerOne) (held_whole hfew) := by
  obtain ⟨m, rfl, hbelow⟩ := hcount.exists_pred (Nat.lt_of_lt_of_le hpos hsome)
  have habove := hcount.le_mul
  have hquotients : m + 1 ≤ 1 <<< 53 := Nat.le_trans (Nat.le_mul_of_pos_right _ hpos) hfew
  have hmultiple : Held (m * whole * unitsPerOne) :=
    held_whole (Nat.le_trans (Nat.mul_le_mul_right whole (Nat.le_succ m)) hfew)
  rw [← Nat.mul_assoc] at hbelow habove
  have hnext := add_spacing_le hmultiple.aligned hunits.aligned hbelow
  have hgap := units_lt_spacing_mul (m * whole * unitsPerOne)
  have hregroup (k : Nat) : k * unitsPerOne * whole = k * whole * unitsPerOne := by ring
  have hbases : Ceiling (roundMagnitude units whole) unitsPerOne (m + 1) := by
    apply ceiling_roundMagnitude (spacing (m * whole * unitsPerOne)) hpos hsome (by decide +kernel)
      (held_whole hquotients)
    · rwa [hregroup]
    · rwa [hregroup, Nat.one_shiftLeft, Nat.mul_comm (2 ^ 53)]
    · rwa [hregroup]
  rw [roundUp, div_finite (Nat.mul_pos hpos unitsPerOne_pos), ofExact_mul_right unitsPerOne_pos,
    ceil_ofExact hbases hquotients, ofNat_mul_whole hquotients hfew]

/-- The divisor as the format holds it. There are too many divisions to be held only where they are
more than there are bases, and then it is as large as the bases still. -/
theorem exists_divisor {total divisions : Nat} (hdivisions : 0 < divisions)
    (hword : divisions ≤ 1 <<< 64) (hfew : total ≤ 1 <<< 53)
    (hlow : n * divisions < total) (hhigh : total ≤ (n + 1) * divisions) :
    ∃ divisor held, ofNat divisions = finite false divisor held ∧ 0 < divisor ∧
      leastMean * divisor ≤ unitsPerOne * unitsPerOne ∧
      n * divisor + unitsPerOne ≤ total * unitsPerOne ∧
      total * unitsPerOne ≤ (n + 1) * divisor := by
  obtain ⟨divisor, held, heq, hpos, hmost⟩ := exists_units_ofNat hdivisions hword
  refine ⟨divisor, held, heq, hpos, hmost, ?_⟩
  by_cases hheld : divisions ≤ 1 <<< 53
  · rw [ofNat_eq hheld, finite.injEq] at heq
    obtain ⟨-, rfl⟩ := heq
    constructor
    · calc n * (divisions * unitsPerOne) + unitsPerOne
          = (n * divisions + 1) * unitsPerOne := by ring
        _ ≤ total * unitsPerOne := Nat.mul_le_mul_right _ hlow
    · calc total * unitsPerOne ≤ (n + 1) * divisions * unitsPerOne := Nat.mul_le_mul_right _ hhigh
        _ = (n + 1) * (divisions * unitsPerOne) := Nat.mul_assoc ..
  · -- there are more divisions than bases
    have hnone : n = 0 := by
      by_contra hsome
      have := Nat.le_mul_of_pos_left divisions (Nat.pos_of_ne_zero hsome)
      omega
    subst hnone
    have hlarge : 1 <<< 53 * unitsPerOne ≤ divisor := by
      rw [units_of_ofExact heq]
      apply le_roundMagnitude Nat.one_pos (held_whole (Nat.le_refl _)).aligned
      rw [Nat.mul_one]
      exact Nat.mul_le_mul_right _ (Nat.le_of_not_le hheld)
    rw [Nat.zero_mul, Nat.zero_add, Nat.zero_add, Nat.one_mul]
    exact ⟨Nat.le_mul_of_pos_left _ (by omega),
      Nat.le_trans (Nat.mul_le_mul_right _ hfew) hlarge⟩

theorem ceiling_share {total divisor m : Nat} (hpos : 0 < whole) (hdivisor : 0 < divisor)
    (hfew : total ≤ 1 <<< 53) (hsome : divisor ≤ total * unitsPerOne * (whole * unitsPerOne))
    (held : Held ((m + 1) * (whole * unitsPerOne)))
    (hlow : m * divisor + unitsPerOne ≤ total * unitsPerOne)
    (hhigh : total * unitsPerOne ≤ (m + 1) * divisor) :
    Ceiling (roundMagnitude (total * unitsPerOne * (whole * unitsPerOne)) divisor)
      (whole * unitsPerOne) (m + 1) := by
  have hone := unitsPerOne_pos
  apply ceiling_roundMagnitude (unitsPerOne * (whole * unitsPerOne)) hdivisor hsome
  · exact Nat.le_trans (by decide +kernel) (Nat.le_mul_of_pos_left unitsPerOne hpos)
  · exact held
  · calc m * (whole * unitsPerOne) * divisor + unitsPerOne * (whole * unitsPerOne)
        = (m * divisor + unitsPerOne) * (whole * unitsPerOne) := by ring
      _ ≤ total * unitsPerOne * (whole * unitsPerOne) := Nat.mul_le_mul_right _ hlow
  · have hsmall : m * divisor < 1 <<< 53 * unitsPerOne :=
      calc m * divisor < m * divisor + unitsPerOne := Nat.lt_add_of_pos_right hone
        _ ≤ total * unitsPerOne := hlow
        _ ≤ 1 <<< 53 * unitsPerOne := Nat.mul_le_mul_right _ hfew
    calc m * (whole * unitsPerOne) * divisor = m * divisor * (whole * unitsPerOne) := by ring
      _ < 1 <<< 53 * unitsPerOne * (whole * unitsPerOne) :=
        Nat.mul_lt_mul_of_pos_right hsmall (Nat.mul_pos hpos hone)
      _ = 1 <<< 53 * (unitsPerOne * (whole * unitsPerOne)) := Nat.mul_assoc ..
  · calc total * unitsPerOne * (whole * unitsPerOne)
        ≤ (m + 1) * divisor * (whole * unitsPerOne) := Nat.mul_le_mul_right _ hhigh
      _ = (m + 1) * (whole * unitsPerOne) * divisor := by ring

theorem exists_share {total divisions : Nat} (hpos : 0 < whole) (hdivisions : 0 < divisions)
    (hword : divisions ≤ 1 <<< 64) (hcount : Ceiling total divisions n) (htotal : 0 < total)
    (hfew : total * whole ≤ 1 <<< 51) (held : Held (total * whole * unitsPerOne)) :
    ∃ share hshare,
      finite false (total * whole * unitsPerOne) held / ofNat divisions =
        finite false share hshare ∧
      whole ≤ share ∧ Ceiling share (whole * unitsPerOne) n := by
  obtain ⟨m, rfl, hlow⟩ := hcount.exists_pred htotal
  have hbases : total ≤ 1 <<< 53 :=
    Nat.le_trans (Nat.le_trans (Nat.le_mul_of_pos_right total hpos) hfew) (by decide)
  obtain ⟨divisor, hdivisor, heq, hsome, hmost, hbelow, habove⟩ :=
    exists_divisor hdivisions hword hbases hlow hcount.le_mul
  have hrange : leastMean * divisor ≤ total * unitsPerOne * (whole * unitsPerOne) :=
    Nat.le_trans hmost (Nat.mul_le_mul (Nat.le_mul_of_pos_left unitsPerOne htotal)
      (Nat.le_mul_of_pos_left unitsPerOne hpos))
  have hmultiple : Held ((m + 1) * (whole * unitsPerOne)) := by
    have hfewer : m + 1 ≤ total := Nat.lt_of_le_of_lt (Nat.le_mul_of_pos_right m hdivisions) hlow
    rw [← Nat.mul_assoc]
    exact held_whole
      (Nat.le_trans (Nat.mul_le_mul_right whole hfewer) (Nat.le_trans hfew (by decide)))
  have hshare := ceiling_share hpos hsome hbases
    (Nat.le_trans (Nat.le_mul_of_pos_left divisor (by decide)) hrange) hmultiple hbelow habove
  have hwhole : whole ≤ leastMean :=
    Nat.le_trans (Nat.le_trans (Nat.le_mul_of_pos_left whole htotal) hfew) (by decide +kernel)
  have hregroup : total * whole * unitsPerOne * unitsPerOne =
      total * unitsPerOne * (whole * unitsPerOne) := by ring
  rw [heq, div_finite hsome, hregroup]
  exact ⟨_, _, ofExact_of_lt (Nat.lt_of_le_of_lt hshare.le_mul hmultiple.bounded),
    Nat.le_trans hwhole (le_roundMagnitude hsome aligned_leastMean hrange), hshare⟩

theorem toNatUpTo_ceil_div {total steps : Nat} (hpos : 0 < whole) (hsteps : 0 < steps)
    (hcount : Ceiling total steps n) (hsome : steps ≤ total) (hfew : total ≤ 1 <<< 51)
    (hrange : Held (total * whole * unitsPerOne)) (hstep : Held (steps * whole * unitsPerOne)) :
    (finite false (total * whole * unitsPerOne) hrange /
      finite false (steps * whole * unitsPerOne) hstep).ceil.toNatUpTo maxWord = n := by
  obtain ⟨m, rfl, hlow⟩ := hcount.exists_pred (Nat.lt_of_lt_of_le hsteps hsome)
  have hhigh := hcount.le_mul
  have hone := unitsPerOne_pos
  have hmost : m + 1 ≤ 1 <<< 51 :=
    Nat.le_trans (Nat.lt_of_le_of_lt (Nat.le_mul_of_pos_right m hsteps) hlow) hfew
  have hheld : m + 1 ≤ 1 <<< 53 := Nat.le_trans hmost (by decide)
  have hquotient : Ceiling (roundMagnitude (total * unitsPerOne) steps) unitsPerOne (m + 1) := by
    apply ceiling_roundMagnitude unitsPerOne hsteps
    · exact Nat.le_trans hsome (Nat.le_mul_of_pos_right total hone)
    · decide +kernel
    · exact held_whole hheld
    · calc m * unitsPerOne * steps + unitsPerOne = (m * steps + 1) * unitsPerOne := by ring
        _ ≤ total * unitsPerOne := Nat.mul_le_mul_right _ hlow
    · calc m * unitsPerOne * steps = m * steps * unitsPerOne := by ring
        _ < 1 <<< 53 * unitsPerOne := Nat.mul_lt_mul_of_pos_right
          (Nat.lt_of_lt_of_le hlow (Nat.le_trans hfew (by decide))) hone
    · calc total * unitsPerOne ≤ (m + 1) * steps * unitsPerOne := Nat.mul_le_mul_right _ hhigh
        _ = (m + 1) * unitsPerOne * steps := by ring
  have hnum : total * whole * unitsPerOne * unitsPerOne =
      total * unitsPerOne * (whole * unitsPerOne) := by ring
  rw [div_finite (Nat.mul_pos (Nat.mul_pos hsteps hpos) hone), hnum, Nat.mul_assoc steps,
    ofExact_mul_right (Nat.mul_pos hpos hone), ceil_ofExact hquotient hheld, ofNat_eq hheld,
    toNatUpTo_finite, Nat.mul_div_cancel _ hone]
  exact Nat.min_eq_left (Nat.le_trans hmost (by decide))

end Binary64

namespace BinSpec

open Binary64

/-! ## The greatest double mean -/

theorem exists_doubleMean {series : List (List UInt64)} (position : Nat) (greatest : Binary64)
    (hcycles : ∀ cycles ∈ series, cycles ≠ []) :
    ∃ upper, doubleMean position greatest (series.map samplesOf) = .ok upper := by
  induction series generalizing position greatest with
  | nil => exact ⟨greatest, rfl⟩
  | cons cycles series ih =>
    cases cycles with
    | nil => exact absurd rfl (hcycles [] List.mem_cons_self)
    | cons first cycles =>
      exact ih _ _ fun other hother => hcycles other (List.mem_cons_of_mem _ hother)

theorem max_zero_of_upTo {most : Nat} {x : Binary64} (h : UpTo most x) : Binary64.max 0 x = x := by
  obtain @⟨negative, units, held, positive, -⟩ := h
  have hzero : (0 : Binary64).rank = some 0 := by decide +kernel
  have hnumber : (0 : Binary64).isNaN = false := by decide +kernel
  have hle : (0 : Binary64) ≤ finite negative units held :=
    le_iff.2 ⟨0, units, hzero, by rw [rank, positive], Int.natCast_nonneg units⟩
  rw [Binary64.max, hnumber, if_neg Bool.false_ne_true, if_pos hle]

theorem exists_greatestDouble {series : List (List UInt64)} (hseries : series ≠ [])
    (hcycles : ∀ cycles ∈ series, cycles ≠ []) :
    ∃ upper, doubleMean 0 0 (series.map samplesOf) = .ok upper ∧ GreatestDouble series upper := by
  obtain ⟨upper, hupper⟩ := exists_doubleMean 0 0 hcycles
  obtain ⟨means, hmeans, hfold⟩ := exists_means hupper
  rw [List.map_map] at hmeans
  cases means with
  | nil => exact absurd (List.map_eq_nil_iff.1 hmeans) hseries
  | cons mean means =>
    have hfirst : some mean ∈ series.map (mean? ∘ samplesOf) := by
      rw [hmeans]
      exact List.mem_cons_self
    obtain ⟨cycles, -, hmean⟩ := List.mem_map.1 hfirst
    rw [List.map_cons, List.foldl_cons, max_zero_of_upTo (upTo_double (upTo_mean hmean))] at hfold
    obtain ⟨hmem, hbeyond⟩ := picks_max.foldl (mean * 2) (means.map (· * 2))
    rw [← hfold] at hmem hbeyond
    exact ⟨upper, hupper, greatestDouble_of_means hmeans hmem hbeyond⟩

/-! ## Bins in bases -/

/-- Shared bins as exact arithmetic has them: the range in bases, the step in bases, and the number
of steps below the end of the range. -/
structure WholeRange (units whole divisions total steps count : Nat) : Prop where
  whole_pos : 0 < whole
  two_le_divisions : 2 ≤ divisions
  below : whole * unitsPerOne < units
  few : total * whole ≤ 1 <<< 51
  range : Ceiling units (whole * unitsPerOne) total
  step : Ceiling total divisions steps
  edges : Ceiling total steps count

namespace WholeRange

variable {units whole divisions total steps count : Nat}

theorem two_le_total (h : WholeRange units whole divisions total steps count) : 2 ≤ total := by
  refine (h.range 1).2 ?_
  rw [Nat.one_mul]
  exact h.below

theorem steps_pos (h : WholeRange units whole divisions total steps count) : 0 < steps :=
  h.step.pos (Nat.lt_of_lt_of_le Nat.two_pos h.two_le_total)

theorem steps_lt (h : WholeRange units whole divisions total steps count) : steps < total := by
  have htwo := h.two_le_total
  have hle : steps ≤ total - 1 := by
    apply h.step.le
    calc total ≤ (total - 1) * 2 := by omega
      _ ≤ (total - 1) * divisions := Nat.mul_le_mul_left _ h.two_le_divisions
  omega

theorem two_le_count (h : WholeRange units whole divisions total steps count) : 2 ≤ count := by
  refine (h.edges 1).2 ?_
  rw [Nat.one_mul]
  exact h.steps_lt

theorem count_le (h : WholeRange units whole divisions total steps count) : count ≤ divisions := by
  apply h.edges.le
  rw [Nat.mul_comm]
  exact h.step.le_mul

theorem few_of_le (h : WholeRange units whole divisions total steps count) {n : Nat}
    (hn : n ≤ total) : n * whole ≤ 1 <<< 53 :=
  Nat.le_trans (Nat.mul_le_mul_right whole hn) (Nat.le_trans h.few (by decide))

theorem edge_le (h : WholeRange units whole divisions total steps count) {i : Nat}
    (hi : i < count) : i * (steps * whole) ≤ 1 <<< 53 := by
  rw [← Nat.mul_assoc]
  exact h.few_of_le (Nat.le_of_lt ((h.edges i).1 hi))

theorem count_le_held (h : WholeRange units whole divisions total steps count) :
    count ≤ 1 <<< 53 := by
  have hle : count ≤ total := h.edges.le (Nat.le_mul_of_pos_right total h.steps_pos)
  exact Nat.le_trans (Nat.le_mul_of_pos_right count h.whole_pos) (h.few_of_le hle)

theorem multiples_eq (h : WholeRange units whole divisions total steps count)
    {hstep : Held (steps * whole * unitsPerOne)} {i : Nat} (hi : i < count) :
    ofNat i * finite false (steps * whole * unitsPerOne) hstep =
      finite false (i * (steps * whole) * unitsPerOne) (held_whole (h.edge_le hi)) :=
  ofNat_mul_whole (Nat.le_trans (Nat.le_of_lt hi) h.count_le_held) (h.edge_le hi)

theorem ascending (h : WholeRange units whole divisions total steps count)
    (hstep : Held (steps * whole * unitsPerOne)) :
    (multiples count (finite false (steps * whole * unitsPerOne) hstep)).IsChain (· < ·) := by
  refine List.isChain_iff_getElem.2 fun i hi => ?_
  rw [length_multiples] at hi
  simp only [multiples, List.getElem_map, List.getElem_range, h.multiples_eq hi,
    h.multiples_eq (Nat.lt_of_succ_lt hi)]
  rw [finite_lt_finite_iff]
  have hpos : 0 < steps * whole := Nat.mul_pos h.steps_pos h.whole_pos
  exact Nat.mul_lt_mul_of_pos_right
    (Nat.mul_lt_mul_of_pos_right (Nat.lt_succ_self i) hpos) unitsPerOne_pos

/-- None of the roundings makes a difference. -/
theorem sharedRange_eq (h : WholeRange units whole divisions total steps count)
    {series : List (List Binary64)} {held : Held units} (hbase : Held (whole * unitsPerOne))
    (hseries : series ≠ []) (hupper : doubleMean 0 0 series = .ok (finite false units held))
    (hword : divisions ≤ 1 <<< 64) :
    ∃ hstep, sharedRange series divisions (finite false (whole * unitsPerOne) hbase) =
      .ok ⟨multiples count (finite false (steps * whole * unitsPerOne) hstep),
        finite false (steps * whole * unitsPerOne) hstep, false⟩ := by
  have hone := unitsPerOne_pos
  have hpos := h.whole_pos
  have htotal : 0 < total := Nat.lt_of_lt_of_le Nat.two_pos h.two_le_total
  have hrange := h.few_of_le (Nat.le_refl total)
  have hsteps := h.few_of_le (Nat.le_of_lt h.steps_lt)
  have hdivisions : 0 < divisions := Nat.lt_of_lt_of_le Nat.two_pos h.two_le_divisions
  have hround : (finite false units held).roundUp (finite false (whole * unitsPerOne) hbase) =
      finite false (total * whole * unitsPerOne) (held_whole hrange) :=
    roundUp_eq hpos (Nat.le_trans (Nat.le_mul_of_pos_right whole hone) (Nat.le_of_lt h.below))
      h.range hrange
  obtain ⟨share, hshare, hdivided, hsome, hceiling⟩ := exists_share hpos hdivisions hword h.step
    htotal h.few (held_whole hrange)
  have hcount := toNatUpTo_ceil_div hpos h.steps_pos h.edges (Nat.le_of_lt h.steps_lt)
    (Nat.le_trans (Nat.le_mul_of_pos_right total hpos) h.few) (held_whole hrange)
    (held_whole hsteps)
  have hstep : finite false (steps * whole * unitsPerOne) (held_whole hsteps) =
      (finite false (total * whole * unitsPerOne) (held_whole hrange) / ofNat divisions).roundUp
        (finite false (whole * unitsPerOne) hbase) := by
    rw [hdivided, roundUp_eq hpos hsome hceiling hsteps]
  refine ⟨held_whole hsteps, sharedRange_eq_ok_iff.2 ⟨h.two_le_divisions, rfl,
    zero_lt_whole hpos hbase, hseries, _, _, _, hupper, hround.symm, rfl,
    zero_lt_whole (Nat.mul_pos htotal hpos) (held_whole hrange), hstep, ?_⟩⟩
  rw [hcount]
  refine ofEdges_eq_ok_iff.2 ⟨?_, h.ascending (held_whole hsteps), rfl⟩
  rw [length_multiples]
  exact h.two_le_count

theorem map_value?_multiples (h : WholeRange units whole divisions total steps count)
    (hstep : Held (steps * whole * unitsPerOne)) :
    (multiples count (finite false (steps * whole * unitsPerOne) hstep)).map value? =
      (List.range count).map fun i => some ((i * (whole * steps) : Nat) : ℚ) := by
  rw [multiples, List.map_map]
  refine List.map_congr_left fun i hi => ?_
  rw [Function.comp_apply, h.multiples_eq (List.mem_range.1 hi), value?_whole,
    Nat.mul_comm steps whole]

theorem lt_count_iff (h : WholeRange units whole divisions total steps count) (i : Nat) :
    i < count ↔ i * (whole * steps) < total * whole := by
  rw [h.edges i, Nat.mul_left_comm, Nat.mul_comm whole]
  exact (Nat.mul_lt_mul_right h.whole_pos).symm

theorem edge_multiple (h : WholeRange units whole divisions total steps count)
    (hstep : Held (steps * whole * unitsPerOne)) :
    ∀ edge ∈ multiples count (finite false (steps * whole * unitsPerOne) hstep),
      ∃ m : Nat, edge.value? = some ((m * whole : Nat) : ℚ) := by
  intro edge hedge
  obtain ⟨i, hi, rfl⟩ := List.mem_map.1 hedge
  refine ⟨i * steps, ?_⟩
  rw [h.multiples_eq (List.mem_range.1 hi), value?_whole, Nat.mul_assoc]

end WholeRange

/-- There are no bins unless the greatest double mean is above the base. -/
theorem base_lt_of_sharedRange {series : List (List UInt64)} {divisions units base : Nat}
    {negative : Bool} {held : Held units} {hbase : Held base} {spec : BinSpec}
    (h : sharedRange (series.map samplesOf) divisions (finite false base hbase) = .ok spec)
    (hupper : doubleMean 0 0 (series.map samplesOf) = .ok (finite negative units held)) :
    base < units := by
  obtain ⟨upper, b, range, step, count, shared, hupper', hbase', -⟩ := exists_shared h
  obtain ⟨units', held', rfl, hbelow, -⟩ := shared.exists_upper hupper'
  rw [hupper, Except.ok.injEq, finite.injEq] at hupper'
  rw [finite.injEq] at hbase'
  omega

/-- Above the base there are a step and a number of edges as exact arithmetic has them. -/
theorem exists_wholeRange {units whole divisions total steps : Nat} (hpos : 0 < whole)
    (htwo : 2 ≤ divisions) (hbelow : whole * unitsPerOne < units) (hfew : total * whole ≤ 1 <<< 51)
    (hrange : Ceiling units (whole * unitsPerOne) total) (hstep : Ceiling total divisions steps) :
    ∃ count, WholeRange units whole divisions total steps count :=
  ⟨_, hpos, htwo, hbelow, hfew, hrange, hstep,
    .natCast_div total (hstep.pos (hrange.pos (Nat.zero_lt_of_lt hbelow)))⟩

/-- Shared bins of series that are not empty, with a whole base and as many divisions as a machine
word counts. While the range, which is the greatest double mean rounded up to a multiple of the
base, is at most `2 ^ 51`, there are bins exactly when that mean is above the base, and they are
those of exact arithmetic: the step is the range in bases, divided and rounded up, and the edges are
the multiples of the step below the end of the range. -/
theorem sharedRange_whole {series : List (List UInt64)} {divisions whole : Nat} {base : Binary64}
    (hseries : series ≠ []) (hcycles : ∀ cycles ∈ series, cycles ≠ []) (htwo : 2 ≤ divisions)
    (hword : divisions < 2 ^ 64) (hwhole : 1 ≤ whole) (hbase : base.value? = some (whole : ℚ)) :
    ∃ upper double, GreatestDouble series upper ∧ upper.value? = some double ∧
      let k := ⌈double / whole⌉₊
      let step := whole * ⌈(k : ℚ) / divisions⌉₊
      k * whole ≤ 2 ^ 51 →
        ((∃ spec, sharedRange (series.map samplesOf) divisions base = .ok spec) ↔
          whole < double) ∧
        ∀ spec, sharedRange (series.map samplesOf) divisions base = .ok spec →
          spec.step.value? = some (step : ℚ) ∧
          (∃ count,
            spec.edges.map value? = (List.range count).map (fun i => some ((i * step : Nat) : ℚ)) ∧
            ∀ i, i < count ↔ i * step < k * whole) ∧
          (∀ edge ∈ spec.edges, ∃ m : Nat, edge.value? = some ((m * whole : Nat) : ℚ)) ∧
          spec.binCount ≤ divisions - 1 := by
  obtain ⟨upper, hupper, hgreatest⟩ := exists_greatestDouble hseries hcycles
  obtain @⟨negative, units, held, positive, -⟩ : UpTo greatestDouble upper :=
    upTo_doubleMean (upTo_ofExact_zero Nat.one_pos false) hupper
  have hdouble : (finite negative units held).value? = some ((units : ℚ) / unitsPerOne) := by
    rw [value?_finite, positive, Int.cast_natCast]
  obtain ⟨hheld, rfl⟩ := exists_held_of_value? hwhole hbase
  refine ⟨_, _, hgreatest, hdouble, ?_⟩
  intro k step hfew
  have hrange : Ceiling units (whole * unitsPerOne) k := by
    refine .of_ceil fun i => ?_
    rw [lt_div_iff₀ (Nat.cast_pos.2 hwhole), lt_div_iff₀ unitsPerOne_cast_pos, ← Nat.cast_mul,
      ← Nat.cast_mul, Nat.cast_lt, Nat.mul_assoc]
  have hsteps : Ceiling k divisions ⌈(k : ℚ) / divisions⌉₊ :=
    .natCast_div k (Nat.lt_of_lt_of_le Nat.two_pos htwo)
  have habove : (whole : ℚ) < (units : ℚ) / unitsPerOne ↔ whole * unitsPerOne < units := by
    rw [lt_div_iff₀ unitsPerOne_cast_pos, ← Nat.cast_mul, Nat.cast_lt]
  have hsome : series.map samplesOf ≠ [] := fun hnil => hseries (List.map_eq_nil_iff.1 hnil)
  have hdivisions : divisions ≤ 1 <<< 64 := by
    rw [Nat.one_shiftLeft]
    exact Nat.le_of_lt hword
  rw [← Nat.one_shiftLeft] at hfew
  constructor
  · rw [habove]
    constructor
    · rintro ⟨spec, hspec⟩
      exact base_lt_of_sharedRange hspec hupper
    · intro hbelow
      obtain ⟨count, hexact⟩ := exists_wholeRange hwhole htwo hbelow hfew hrange hsteps
      obtain rfl := eq_false_of_signed (Nat.zero_lt_of_lt hbelow) positive
      obtain ⟨hstep, heq⟩ := hexact.sharedRange_eq hheld hsome hupper hdivisions
      exact ⟨_, heq⟩
  · intro spec hspec
    have hbelow := base_lt_of_sharedRange hspec hupper
    obtain ⟨count, hexact⟩ := exists_wholeRange hwhole htwo hbelow hfew hrange hsteps
    obtain rfl := eq_false_of_signed (Nat.zero_lt_of_lt hbelow) positive
    obtain ⟨hstep, heq⟩ := hexact.sharedRange_eq hheld hsome hupper hdivisions
    obtain rfl := Except.ok.inj (hspec.symm.trans heq)
    refine ⟨?_, ⟨count, hexact.map_value?_multiples hstep, hexact.lt_count_iff⟩,
      hexact.edge_multiple hstep, ?_⟩
    · rw [value?_whole, Nat.mul_comm]
    · rw [binCount, length_multiples]
      exact Nat.sub_le_sub_right hexact.count_le 1

/-- The mean 1000 with 7 divisions and the base 100: the range 2000 is 20 bases, and a seventh of
it, rounded up, is 3 of them. -/
theorem sharedRange_whole_sample :
    ∃ spec, sharedRange ([[1000]].map samplesOf) 7 (.ofNat 100) = .ok spec ∧
      spec.step.value? = some 300 ∧ spec.binCount ≤ 6 := by
  have hseries : ([[1000]] : List (List UInt64)) ≠ [] := by decide
  have hcycles : ∀ cycles ∈ ([[1000]] : List (List UInt64)), cycles ≠ [] := by decide
  obtain ⟨upper, double, hupper, hvalue, hexact⟩ := sharedRange_whole hseries hcycles
    (show 2 ≤ 7 by decide) (by decide) (show 1 ≤ 100 by decide) (value?_ofNat (by decide))
  have hdouble : double = 2000 := by
    obtain ⟨cycles, hmem, mean, hmean, rfl⟩ := hupper.mem
    obtain rfl := List.mem_singleton.1 hmem
    have hthousand : mean? (samplesOf [1000]) = some (.ofNat 1000) := by decide +kernel
    have htwice : ofNat 1000 * 2 = ofNat 2000 := by decide +kernel
    rw [hthousand, Option.some.injEq] at hmean
    rw [← hmean, htwice, value?_ofNat (by decide), Option.some.injEq] at hvalue
    rw [← hvalue, Nat.cast_ofNat]
  have hrange : ⌈double / (100 : Nat)⌉₊ = 20 := by
    rw [hdouble]
    norm_num
  have hstep : ⌈((20 : Nat) : ℚ) / (7 : Nat)⌉₊ = 3 := by
    rw [Nat.ceil_eq_iff (by decide)]
    norm_num
  simp only [hrange, hstep] at hexact
  obtain ⟨hiff, hspec⟩ := hexact (by decide)
  obtain ⟨spec, heq⟩ := hiff.2 (by rw [hdouble]; norm_num)
  obtain ⟨hwidth, -, -, hbins⟩ := hspec spec heq
  exact ⟨spec, heq, by simpa using hwidth, hbins⟩

end BinSpec

end HeapLatency
