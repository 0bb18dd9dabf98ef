import HeapLatency.Proofs.Number.Near

/-!
# Shortest decimals

The shortest decimal of a magnitude is near it, so that rounding gives the magnitude back. The
search always ends with a decimal: seventeen digits make a grid that is finer than the midpoints
are apart.
-/

namespace HeapLatency

namespace Decimal

theorem width_pos (n : Nat) : 0 < width n :=
  Nat.length_toDigits_pos

theorem lt_pow_width (n : Nat) : n < 10 ^ width n :=
  (Nat.length_toDigits_le_iff (by decide) (width_pos n)).1 (Nat.le_refl _)

theorem pow_width_le {n : Nat} (hn : 0 < n) : 10 ^ (width n - 1) ≤ n := by
  by_contra hlt
  by_cases hone : width n = 1
  · rw [hone] at hlt
    omega
  · have hpos := width_pos n
    have hshort : width n ≤ width n - 1 :=
      (Nat.length_toDigits_le_iff (by decide) (by omega)).2 (Nat.not_le.1 hlt)
    omega

end Decimal

namespace Binary64

/-! ## Decimal places

The units in `10 ^ exponent` are a quotient, `placeNum` by `placeDen`.
-/

def placeNum (exponent : Int) : Nat := unitsPerOne * 10 ^ exponent.toNat

def placeDen (exponent : Int) : Nat := 10 ^ (-exponent).toNat

theorem placeNum_pos (exponent : Int) : 0 < placeNum exponent :=
  Nat.mul_pos unitsPerOne_pos (Nat.pow_pos (by decide))

theorem placeDen_pos (exponent : Int) : 0 < placeDen exponent :=
  Nat.pow_pos (by decide)

theorem placeNum_natCast (k : Nat) : placeNum k = unitsPerOne * Nat.pow 10 k := rfl

theorem placeDen_natCast (k : Nat) : placeDen k = 1 := by
  rw [placeDen, show (-(k : Int)).toNat = 0 by omega, Nat.pow_zero]

theorem placeNum_neg (k : Nat) : placeNum (-k) = unitsPerOne := by
  rw [placeNum, show (-(k : Int)).toNat = 0 by omega, Nat.pow_zero, Nat.mul_one]

theorem placeDen_neg (k : Nat) : placeDen (-k) = Nat.pow 10 k := by
  rw [placeDen, Int.neg_neg]
  rfl

theorem placeNum_add (exponent : Int) (k : Nat) :
    placeNum (exponent + k) * placeDen exponent =
      10 ^ k * placeNum exponent * placeDen (exponent + k) := by
  have hpow : 10 ^ (exponent + k).toNat * 10 ^ (-exponent).toNat =
      10 ^ k * 10 ^ exponent.toNat * 10 ^ (-(exponent + k)).toNat := by
    rw [← Nat.pow_add, ← Nat.pow_add, ← Nat.pow_add]
    congr 1
    omega
  calc placeNum (exponent + k) * placeDen exponent
      = unitsPerOne * (10 ^ (exponent + k).toNat * 10 ^ (-exponent).toNat) := by
        rw [placeNum, placeDen, Nat.mul_assoc]
    _ = 10 ^ k * placeNum exponent * placeDen (exponent + k) := by
        rw [hpow, placeNum, placeDen]
        ring

/-- A place may be compared at any finer place. -/
theorem mul_placeNum_add_le_iff (n m : Nat) (exponent : Int) (k : Nat) :
    n * placeNum (exponent + k) ≤ m * placeDen (exponent + k) ↔
      n * 10 ^ k * placeNum exponent ≤ m * placeDen exponent := by
  have hleft : n * placeNum (exponent + k) * placeDen exponent =
      n * 10 ^ k * placeNum exponent * placeDen (exponent + k) := by
    rw [Nat.mul_assoc, placeNum_add]
    ring
  have hright : m * placeDen (exponent + k) * placeDen exponent =
      m * placeDen exponent * placeDen (exponent + k) := by
    ring
  rw [← Nat.mul_le_mul_right_iff (placeDen_pos exponent), hleft, hright,
    Nat.mul_le_mul_right_iff (placeDen_pos (exponent + k))]

theorem lt_mul_placeNum_add_iff (n m : Nat) (exponent : Int) (k : Nat) :
    m * placeDen (exponent + k) < n * placeNum (exponent + k) ↔
      m * placeDen exponent < n * 10 ^ k * placeNum exponent := by
  rw [← Nat.not_le, ← Nat.not_le, mul_placeNum_add_le_iff]

/-! ## The position of a magnitude -/

variable {units : Nat}

/-- A place lies just above a magnitude: the place before does not pass it. -/
structure Positioned (units : Nat) (position : Int) : Prop where
  below : placeNum (position - 1) ≤ units * placeDen (position - 1)
  above : units * placeDen position < placeNum position

theorem positioned_of_place {exponent : Int} (h : placeNum exponent ≤ units * placeDen exponent) :
    Positioned units
      (exponent + Decimal.width (units * placeDen exponent / placeNum exponent)) := by
  have hpos : 0 < units * placeDen exponent / placeNum exponent :=
    Nat.div_pos h (placeNum_pos exponent)
  have hlow := Decimal.pow_width_le hpos
  have hhigh := Decimal.lt_pow_width (units * placeDen exponent / placeNum exponent)
  have hwidth := Decimal.width_pos (units * placeDen exponent / placeNum exponent)
  generalize Decimal.width (units * placeDen exponent / placeNum exponent) = width at *
  rw [Nat.le_div_iff_mul_le (placeNum_pos exponent)] at hlow
  rw [Nat.div_lt_iff_lt_mul (placeNum_pos exponent)] at hhigh
  refine ⟨?_, ?_⟩
  · have h := (mul_placeNum_add_le_iff 1 units exponent (width - 1)).2 (by rwa [Nat.one_mul])
    rwa [Nat.one_mul,
      show exponent + ((width - 1 : Nat) : Int) = exponent + width - 1 by omega] at h
  · have h := (lt_mul_placeNum_add_iff 1 units exponent width).2 (by rwa [Nat.one_mul])
    rwa [Nat.one_mul] at h

theorem positioned_of_scaled (k : Nat) (h : unitsPerOne ≤ units * Nat.pow 10 k) :
    Positioned units (Decimal.width (units * Nat.pow 10 k / unitsPerOne) - k) := by
  rw [← placeNum_neg k, ← placeDen_neg k] at h ⊢
  rw [Int.sub_eq_add_neg, Int.add_comm]
  exact positioned_of_place h

theorem positioned_of_finer (k : Nat) (hpos : 0 < units) (h : unitsPerOne ≤ Nat.pow 10 k) :
    Positioned units (Decimal.width (units * Nat.pow 10 k / unitsPerOne) - k) :=
  positioned_of_scaled k (Nat.le_trans h (Nat.le_mul_of_pos_left _ hpos))

theorem positioned_decimalPosition (hpos : 0 < units) :
    -400 < decimalPosition units ∧ Positioned units (decimalPosition units) := by
  rw [decimalPosition]
  split_ifs with hone
  · have hscaled : units * Nat.pow 10 0 = units := Nat.mul_one units
    have h := positioned_of_scaled 0 (by rwa [hscaled])
    rw [hscaled, Int.natCast_zero, Int.sub_zero] at h
    exact ⟨by omega, h⟩
  · generalize hk : (400 : Nat) = k
    have hwidth := Decimal.width_pos (units * Nat.pow 10 k / unitsPerOne)
    have h := positioned_of_finer k hpos (by rw [← hk]; decide +kernel)
    rw [show (k : Int) = 400 by omega] at h
    exact ⟨by omega, h⟩

/-! ## The neighbours on a grid -/

/-- The check of a distance from a magnitude against one of its gaps. -/
def reaches (units scale distance gap : Nat) : Bool :=
  if units / spacing units % 2 == 0 then 4 * distance ≤ gap * scale else 4 * distance < gap * scale

theorem reaches_iff {scale distance gap : Nat} :
    reaches units scale distance gap = true ↔
      4 * distance ≤ gap * scale ∧
        (units / spacing units % 2 = 1 → 4 * distance < gap * scale) := by
  rw [reaches]
  split_ifs with hclosed
  · rw [beq_iff_eq] at hclosed
    rw [decide_eq_true_eq]
    exact ⟨fun h => ⟨h, by omega⟩, fun h => h.1⟩
  · rw [beq_iff_eq] at hclosed
    rw [decide_eq_true_eq]
    exact ⟨fun h => ⟨by omega, fun _ => h⟩, fun h => h.2 (by omega)⟩

theorem reaches_of_lt {scale distance gap : Nat} (h : 4 * distance < gap * scale) :
    reaches units scale distance gap = true :=
  reaches_iff.2 ⟨Nat.le_of_lt h, fun _ => h⟩

theorem onGrid?_eq (tie : Tie) (units : Nat) (exponent : Int) :
    onGrid? tie units exponent =
      let lower := units * placeDen exponent / placeNum exponent
      let below := units * placeDen exponent - lower * placeNum exponent
      let above := (lower + 1) * placeNum exponent - units * placeDen exponent
      match reaches units (placeDen exponent) below (gapBelow units),
        reaches units (placeDen exponent) above (gapAbove units) with
      | false, false => none
      | true, false => some lower
      | false, true => some (lower + 1)
      | true, true =>
        if below < above then some lower
        else if above < below then some (lower + 1)
        else if tie = .even ∧ lower % 2 = 0 then some lower
        else some (lower + 1) := by
  have hscale : (if 0 ≤ exponent then 1 else Nat.pow 10 (-exponent).toNat) =
      placeDen exponent := by
    split_ifs with h
    · obtain ⟨k, rfl⟩ := Int.eq_ofNat_of_zero_le h
      exact (placeDen_natCast k).symm
    · rfl
  have hden : (if 0 ≤ exponent then unitsPerOne * Nat.pow 10 exponent.toNat else unitsPerOne) =
      placeNum exponent := by
    split_ifs with h
    · rfl
    · obtain ⟨k, rfl⟩ : ∃ k : Nat, exponent = -k := ⟨(-exponent).toNat, by omega⟩
      exact (placeNum_neg k).symm
  rw [← hscale, ← hden]
  rfl

theorem near_of_reaches_below {num den : Nat} (hle : num ≤ units * den) (hden : 0 < den)
    (h : reaches units den (units * den - num) (gapBelow units) = true) : Near units num den := by
  have hgap : 0 < gapAbove units * den :=
    Nat.mul_pos (Nat.mul_pos (by decide) (spacing_pos units)) hden
  obtain ⟨hdistance, hodd⟩ := reaches_iff.1 h
  refine ⟨by omega, by omega, fun hmod => ?_⟩
  have := hodd hmod
  omega

theorem near_of_reaches_above {num den : Nat} (hle : units * den ≤ num) (hden : 0 < den)
    (h : reaches units den (num - units * den) (gapAbove units) = true) : Near units num den := by
  have hgap : 0 < gapBelow units * den :=
    Nat.mul_pos (Nat.lt_of_lt_of_le (spacing_pos units) (spacing_le_gapBelow units)) hden
  obtain ⟨hdistance, hodd⟩ := reaches_iff.1 h
  refine ⟨by omega, by omega, fun hmod => ?_⟩
  have := hodd hmod
  omega

theorem near_of_onGrid? {tie : Tie} {exponent : Int} {n : Nat}
    (h : onGrid? tie units exponent = some n) :
    Near units (n * placeNum exponent) (placeDen exponent) ∧
      (n = units * placeDen exponent / placeNum exponent ∨
        n = units * placeDen exponent / placeNum exponent + 1) := by
  have hden := placeDen_pos exponent
  have hlow := Nat.div_mul_le_self (units * placeDen exponent) (placeNum exponent)
  have hhigh := Nat.le_of_lt (Nat.lt_mul_of_div_lt
    (Nat.lt_succ_self (units * placeDen exponent / placeNum exponent)) (placeNum_pos exponent))
  rw [onGrid?_eq] at h
  generalize units * placeDen exponent / placeNum exponent = lower at *
  have hnear (found : n = lower ∨ n = lower + 1)
      (hbelow : n = lower → reaches units (placeDen exponent)
        (units * placeDen exponent - lower * placeNum exponent) (gapBelow units) = true)
      (habove : n = lower + 1 → reaches units (placeDen exponent)
        ((lower + 1) * placeNum exponent - units * placeDen exponent) (gapAbove units) = true) :
      Near units (n * placeNum exponent) (placeDen exponent) ∧ (n = lower ∨ n = lower + 1) := by
    refine ⟨?_, found⟩
    rcases found with rfl | rfl
    · exact near_of_reaches_below hlow hden (hbelow rfl)
    · exact near_of_reaches_above hhigh hden (habove rfl)
  simp only at h
  split at h
  · cases h
  · rename_i hb ha
    cases h
    exact hnear (.inl rfl) (fun _ => hb) (by omega)
  · rename_i hb ha
    cases h
    exact hnear (.inr rfl) (by omega) (fun _ => ha)
  · rename_i hb ha
    refine hnear ?_ (fun _ => hb) (fun _ => ha)
    split_ifs at h <;> cases h <;> simp

/-- On a grid finer than the midpoints are apart, one of the two neighbours is near. -/
theorem isSome_onGrid? (tie : Tie) {exponent : Int}
    (h : 4 * placeNum exponent < (gapBelow units + gapAbove units) * placeDen exponent) :
    (onGrid? tie units exponent).isSome = true := by
  have hlow := Nat.div_mul_le_self (units * placeDen exponent) (placeNum exponent)
  have hhigh := Nat.lt_mul_of_div_lt
    (Nat.lt_succ_self (units * placeDen exponent / placeNum exponent)) (placeNum_pos exponent)
  rw [onGrid?_eq]
  generalize units * placeDen exponent / placeNum exponent = lower at *
  rw [Nat.add_mul] at h
  rw [Nat.add_one_mul lower] at hhigh
  have hone : reaches units (placeDen exponent)
        (units * placeDen exponent - lower * placeNum exponent) (gapBelow units) = true ∨
      reaches units (placeDen exponent)
        ((lower + 1) * placeNum exponent - units * placeDen exponent) (gapAbove units) = true := by
    by_cases hbelow : 4 * (units * placeDen exponent - lower * placeNum exponent) <
        gapBelow units * placeDen exponent
    · exact .inl (reaches_of_lt hbelow)
    · refine .inr (reaches_of_lt ?_)
      rw [Nat.add_one_mul lower]
      omega
  simp only
  split
  · rename_i hb ha
    rw [hb, ha] at hone
    simp at hone
  · rfl
  · rfl
  · split_ifs <;> rfl

/-! ## Seventeen digits -/

theorem gaps_wide {place scale : Nat} (h : 10 ^ 16 * place ≤ units * scale) (hscale : 0 < scale) :
    4 * place < (gapBelow units + gapAbove units) * scale := by
  have hspacing : 0 < spacing units * scale := Nat.mul_pos (spacing_pos units) hscale
  have hgaps : (gapBelow units + gapAbove units) * scale =
      gapBelow units * scale + 2 * (spacing units * scale) := by
    rw [gapAbove]
    ring
  rw [hgaps]
  by_cases hpow : units = 1 <<< units.log2 ∧ 1 < spacing units
  · -- below a power of two the midpoint is nearer, but there the significand is least
    have htop := (log2_of_one_lt_spacing hpow.2).2
    rw [← Nat.one_shiftLeft, ← hpow.1] at htop
    have hunits : units * scale = 2 ^ 52 * (spacing units * scale) := by
      nth_rewrite 1 [htop]
      ring
    rw [gapBelow, if_pos hpow]
    omega
  · have hlt := Nat.mul_lt_mul_of_pos_right (units_lt_spacing_mul units) hscale
    have hunits : spacing units * 2 ^ 53 * scale = 2 ^ 53 * (spacing units * scale) := by ring
    rw [gapBelow, if_neg hpow, Nat.mul_assoc]
    omega

theorem mul_placeNum_of_positioned {position : Int} (h : Positioned units position) (k : Nat) :
    10 ^ k * placeNum (position - (k + 1 : Nat)) ≤ units * placeDen (position - (k + 1 : Nat)) ∧
      units * placeDen (position - (k + 1 : Nat)) <
        10 ^ (k + 1) * placeNum (position - (k + 1 : Nat)) := by
  have hlow := (mul_placeNum_add_le_iff 1 units (position - (k + 1 : Nat)) k).1
  have hhigh := (lt_mul_placeNum_add_iff 1 units (position - (k + 1 : Nat)) (k + 1)).1
  rw [Nat.one_mul, Nat.one_mul] at hlow hhigh
  rw [show position - ((k + 1 : Nat) : Int) + k = position - 1 by omega] at hlow
  rw [Int.sub_add_cancel] at hhigh
  exact ⟨hlow h.below, hhigh h.above⟩

/-! ## What is printed -/

def candidate? (tie : Tie) (units : Nat) (position : Int) (digits : Nat) : Option Decimal :=
  (onGrid? tie units (position - digits)).map fun n =>
    if n = Nat.pow 10 digits then ⟨1, position⟩ else ⟨n, position - digits⟩

theorem shortest_eq (tie : Tie) (units : Nat) :
    shortest tie units =
      ((List.range' 1 17).findSome? (candidate? tie units (decimalPosition units))).getD ⟨0, 0⟩ :=
  rfl

/-- What is known of the decimal that stands for a magnitude. -/
structure Printed (units : Nat) (d : Decimal) : Prop where
  near : Near units (d.digits * placeNum d.exponent) (placeDen d.exponent)
  digits_pos : 0 < d.digits
  digits_lt : d.digits < 10 ^ 17
  exponent_gt : -417 < d.exponent

theorem printed_of_candidate? {tie : Tie} {position : Int} {k : Nat} {d : Decimal}
    (hposition : Positioned units position) (hleast : -400 < position) (hk : k < 17)
    (h : candidate? tie units position (k + 1) = some d) : Printed units d := by
  obtain ⟨n, hfound, hd⟩ := Option.map_eq_some_iff.1 h
  obtain ⟨hnear, hn⟩ := near_of_onGrid? hfound
  obtain ⟨hlow, hhigh⟩ := mul_placeNum_of_positioned hposition k
  rw [← Nat.le_div_iff_mul_le (placeNum_pos _)] at hlow
  rw [← Nat.div_lt_iff_lt_mul (placeNum_pos _)] at hhigh
  have hpow : 0 < 10 ^ k := Nat.pow_pos (by decide)
  have hmost : 10 ^ (k + 1) ≤ 10 ^ 17 := Nat.pow_le_pow_right (by decide) hk
  split_ifs at hd with hround
  · -- rounded up to the next power of ten, which has one digit
    subst hd
    refine ⟨hnear.of_eq (placeDen_pos _) (placeDen_pos _) ?_, Nat.one_pos,
      Nat.one_lt_pow (by decide) (by decide), show -417 < position by omega⟩
    have hadd := placeNum_add (position - (k + 1 : Nat)) (k + 1)
    rw [Int.sub_add_cancel] at hadd
    rw [hround, Nat.one_mul]
    exact hadd.symm
  · subst hd
    rw [show Nat.pow 10 (k + 1) = 10 ^ (k + 1) from rfl] at hround
    exact ⟨hnear, show 0 < n by omega, show n < 10 ^ 17 by omega,
      show -417 < position - (k + 1 : Nat) by omega⟩

theorem printed_shortest (tie : Tie) (hpos : 0 < units) : Printed units (shortest tie units) := by
  obtain ⟨hleast, hposition⟩ := positioned_decimalPosition hpos
  have hsome : ((List.range' 1 17).findSome?
      (candidate? tie units (decimalPosition units))).isSome = true := by
    rw [List.findSome?_isSome_iff]
    refine ⟨17, List.mem_range'_1.2 (by decide), ?_⟩
    rw [candidate?, Option.isSome_map]
    exact isSome_onGrid? tie
      (gaps_wide (mul_placeNum_of_positioned hposition 16).1 (placeDen_pos _))
  obtain ⟨d, hd⟩ := Option.isSome_iff_exists.1 hsome
  obtain ⟨digits, hdigits, hfound⟩ := List.exists_of_findSome?_eq_some hd
  rw [List.mem_range'_1] at hdigits
  obtain ⟨k, rfl⟩ : ∃ k, digits = k + 1 := ⟨digits - 1, by omega⟩
  rw [shortest_eq, hd, Option.getD_some]
  exact printed_of_candidate? hposition hleast (by omega) hfound

end Binary64

end HeapLatency
