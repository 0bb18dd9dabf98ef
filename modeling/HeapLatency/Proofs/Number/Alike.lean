import HeapLatency.Proofs.Number.Arithmetic

/-!
# Alike numbers

Numbers at one place on the line differ at most in the sign of a zero, and NaN is alike to itself.
Comparisons do not tell alike numbers apart, nor does any operation but the division by a zero. Of
the extremes that folds pick from the same samples in different orders, all are alike.
-/

namespace HeapLatency.Binary64

/-- At one place on the line, or both NaN. -/
def Alike (x y : Binary64) : Prop := x.rank = y.rank

variable {x y x' y' : Binary64}

theorem Alike.refl (x : Binary64) : x.Alike x := rfl

theorem alike_zeros {s t : Bool} {hs ht : Held 0} : (finite s 0 hs).Alike (finite t 0 ht) := by
  cases s <;> cases t <;> rfl

theorem Alike.eq_or_zeros (h : x.Alike y) :
    x = y ∨ ∃ s t hs ht, x = finite s 0 hs ∧ y = finite t 0 ht := by
  cases x with
  | nan => cases y <;> first | exact Or.inl rfl | cases h
  | infinite s =>
    cases y with
    | nan => cases h
    | infinite t =>
      left
      have hplace := Option.some.inj h
      have hpos : 0 < overflow := by decide
      cases s <;> cases t <;> simp_all [signed]
    | finite t b hb =>
      have hplace := Option.some.inj h
      have hbound := hb.bounded
      cases s <;> cases t <;> simp [signed] at hplace <;> omega
  | finite s a ha =>
    cases y with
    | nan => cases h
    | infinite t =>
      have hplace := Option.some.inj h
      have hbound := ha.bounded
      cases s <;> cases t <;> simp [signed] at hplace <;> omega
    | finite t b hb =>
      have hplace := Option.some.inj h
      by_cases hzero : a = 0
      · have hzero' : b = 0 := by
          cases s <;> cases t <;> simp [signed] at hplace <;> omega
        subst hzero hzero'
        exact Or.inr ⟨s, t, ha, hb, rfl, rfl⟩
      · left
        have hsame : s = t ∧ a = b := by
          cases s <;> cases t <;> simp [signed] at hplace ⊢ <;> omega
        obtain ⟨rfl, rfl⟩ := hsame
        rfl

theorem alike_of_isNaN (hx : x.isNaN = true) (hy : y.isNaN = true) : x.Alike y := by
  cases x with
  | finite => cases hx
  | infinite => cases hx
  | nan =>
    cases y with
    | finite => cases hy
    | infinite => cases hy
    | nan => rfl

/-! ## Comparisons -/

theorem Alike.lt_iff (hx : x.Alike x') (hy : y.Alike y') : x < y ↔ x' < y' := by
  rw [Binary64.lt_iff, Binary64.lt_iff, show x.rank = x'.rank from hx,
    show y.rank = y'.rank from hy]

theorem Alike.le_iff (hx : x.Alike x') (hy : y.Alike y') : x ≤ y ↔ x' ≤ y' := by
  rw [Binary64.le_iff, Binary64.le_iff, show x.rank = x'.rank from hx,
    show y.rank = y'.rank from hy]

theorem Alike.same_eq (hx : x.Alike x') (hy : y.Alike y') : x.same y = x'.same y' := by
  simp only [same, hx.le_iff hy, hy.le_iff hx]

theorem Alike.isFinite_eq (h : x.Alike y) : x.isFinite = y.isFinite := by
  rcases h.eq_or_zeros with rfl | ⟨s, t, hs, ht, rfl, rfl⟩ <;> rfl

theorem Alike.same (h : x.Alike y) (hnumber : x.isNaN = false) : x.same y = true := by
  rw [← (Alike.refl x).same_eq h]
  exact same_self hnumber

theorem alike_of_le (hxy : x ≤ y) (hyx : y ≤ x) : x.Alike y := by
  obtain ⟨a, b, hx, hy, hab⟩ := Binary64.le_iff.1 hxy
  obtain ⟨b', a', hy', hx', hba⟩ := Binary64.le_iff.1 hyx
  rw [hx, Option.some.injEq] at hx'
  rw [hy, Option.some.injEq] at hy'
  rw [Alike, hx, hy, show a = b by omega]

theorem Alike.eq_of_pos (h : x.Alike y) (hpos : 0 < x) : x = y := by
  rcases h.eq_or_zeros with heq | ⟨s, t, hs, ht, rfl, rfl⟩
  · exact heq
  · obtain ⟨a, b, ha, hb, hab⟩ := Binary64.lt_iff.1 hpos
    have hzero : (0 : Binary64).rank = some 0 := by decide +kernel
    have hplace : (finite s 0 hs).rank = some 0 := by cases s <;> rfl
    rw [hzero, Option.some.injEq] at ha
    rw [hplace, Option.some.injEq] at hb
    omega

/-! ## Operations -/

theorem alike_ofExact_zero {s t : Bool} {den : Nat} (hden : 0 < den) :
    (ofExact s 0 den).Alike (ofExact t 0 den) := by
  obtain ⟨hs, heq⟩ := ofExact_zero s hden
  obtain ⟨ht, heq'⟩ := ofExact_zero t hden
  rw [heq, heq']
  exact alike_zeros

theorem Alike.neg (h : x.Alike y) : (-x).Alike (-y) := by
  rcases h.eq_or_zeros with rfl | ⟨s, t, hs, ht, rfl, rfl⟩
  · exact Alike.refl _
  · exact alike_zeros

theorem signed_zero (s : Bool) : signed s 0 = 0 := by cases s <;> rfl

theorem add_comm (x y : Binary64) : x + y = y + x := by
  cases x with
  | nan => cases y <;> rfl
  | infinite s =>
    cases y with
    | nan => rfl
    | finite t b hb => rfl
    | infinite t =>
      show (if s = t then infinite s else nan) = if t = s then infinite t else nan
      cases s <;> cases t <;> rfl
  | finite s a ha =>
    cases y with
    | nan => rfl
    | infinite t => rfl
    | finite t b hb =>
      show addFinite s a t b = addFinite t b s a
      rw [addFinite, addFinite, Int.add_comm, Bool.and_comm]

theorem Alike.add_left (h : x.Alike y) (z : Binary64) : (x + z).Alike (y + z) := by
  rcases h.eq_or_zeros with rfl | ⟨s, t, hs, ht, rfl, rfl⟩
  · exact Alike.refl _
  · cases z with
    | nan => rfl
    | infinite u => rfl
    | finite u c hc =>
      show (addFinite s 0 u c).Alike (addFinite t 0 u c)
      rw [addFinite, addFinite, signed_zero, signed_zero]
      split_ifs
      · exact alike_ofExact_zero Nat.one_pos
      · exact Alike.refl _

theorem Alike.add (hx : x.Alike x') (hy : y.Alike y') : (x + y).Alike (x' + y') := by
  have hfirst := hx.add_left y
  have hsecond := hy.add_left x'
  rw [add_comm y, add_comm y'] at hsecond
  exact Eq.trans hfirst hsecond

theorem Alike.sub (hx : x.Alike x') (hy : y.Alike y') : (x - y).Alike (x' - y') :=
  hx.add hy.neg

theorem mul_comm (x y : Binary64) : x * y = y * x := by
  cases x with
  | nan => cases y <;> rfl
  | infinite s =>
    cases y with
    | nan => rfl
    | infinite t =>
      show infinite (s != t) = infinite (t != s)
      rw [bne_comm]
    | finite t b hb =>
      show (if b = 0 then nan else infinite (s != t)) = if b = 0 then nan else infinite (t != s)
      rw [bne_comm]
  | finite s a ha =>
    cases y with
    | nan => rfl
    | infinite t =>
      show (if a = 0 then nan else infinite (s != t)) = if a = 0 then nan else infinite (t != s)
      rw [bne_comm]
    | finite t b hb =>
      show ofExact (s != t) (a * b) unitsPerOne = ofExact (t != s) (b * a) unitsPerOne
      rw [bne_comm, Nat.mul_comm]

theorem Alike.mul_right (h : x.Alike y) (z : Binary64) : (z * x).Alike (z * y) := by
  rcases h.eq_or_zeros with rfl | ⟨s, t, hs, ht, rfl, rfl⟩
  · exact Alike.refl _
  · cases z with
    | nan => rfl
    | infinite u => rfl
    | finite u c hc =>
      show (ofExact (u != s) (c * 0) unitsPerOne).Alike (ofExact (u != t) (c * 0) unitsPerOne)
      rw [Nat.mul_zero]
      exact alike_ofExact_zero unitsPerOne_pos

theorem Alike.div_left (h : x.Alike y) (z : Binary64) : (x / z).Alike (y / z) := by
  rcases h.eq_or_zeros with rfl | ⟨s, t, hs, ht, rfl, rfl⟩
  · exact Alike.refl _
  · cases z with
    | nan => rfl
    | infinite u => exact alike_ofExact_zero Nat.one_pos
    | finite u c hc =>
      show (if c = 0 then (if 0 = 0 then nan else _)
        else ofExact (s != u) (0 * unitsPerOne) c).Alike
        (if c = 0 then (if 0 = 0 then nan else _) else ofExact (t != u) (0 * unitsPerOne) c)
      rw [Nat.zero_mul]
      by_cases hzero : c = 0
      · rw [if_pos hzero, if_pos hzero]
        rfl
      · rw [if_neg hzero, if_neg hzero]
        exact alike_ofExact_zero (Nat.pos_of_ne_zero hzero)

/-! ## Extremes -/

theorem Picks.isNaN_foldl {beyond : Binary64 → Binary64 → Prop}
    {pick : Binary64 → Binary64 → Binary64} (h : Picks beyond pick) {best sample : Binary64}
    {samples : List Binary64} (hmem : sample ∈ best :: samples) (hnumber : sample.isNaN = false) :
    (samples.foldl pick best).isNaN = false := by
  induction samples generalizing best sample with
  | nil =>
    rw [List.mem_singleton.1 hmem] at hnumber
    exact hnumber
  | cons next samples ih =>
    rw [List.foldl_cons]
    rcases List.mem_cons.1 hmem with rfl | hmem
    · exact ih List.mem_cons_self (h.first sample next hnumber).1
    · rcases List.mem_cons.1 hmem with rfl | hmem
      · exact ih List.mem_cons_self (h.second best sample hnumber).1
      · exact ih (List.mem_cons_of_mem _ hmem) hnumber

/-- Folds over the same samples pick alike extremes, whichever sample comes first. -/
theorem Picks.alike_foldl {beyond : Binary64 → Binary64 → Prop}
    {pick : Binary64 → Binary64 → Binary64} (h : Picks beyond pick)
    (halike : ∀ x y, beyond x y → beyond y x → x.Alike y) {best other : Binary64}
    {samples others : List Binary64} (hperm : (best :: samples).Perm (other :: others)) :
    (samples.foldl pick best).Alike (others.foldl pick other) := by
  obtain ⟨hmem, hbeyond⟩ := h.foldl best samples
  obtain ⟨hmem', hbeyond'⟩ := h.foldl other others
  have hin := hperm.mem_iff.1 hmem
  have hin' := hperm.mem_iff.2 hmem'
  cases hnumber : (samples.foldl pick best).isNaN with
  | false => exact halike _ _ (hbeyond' _ hin hnumber) (hbeyond _ hin' (h.isNaN_foldl hin hnumber))
  | true =>
    -- with a number among the samples neither pick would be NaN
    cases hnumber' : (others.foldl pick other).isNaN with
    | false =>
      rw [h.isNaN_foldl hin' hnumber'] at hnumber
      cases hnumber
    | true => exact alike_of_isNaN hnumber hnumber'

end HeapLatency.Binary64
