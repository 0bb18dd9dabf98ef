import HeapLatency.Number.Binary64
import Mathlib.Data.List.Chain
import Mathlib.Tactic.SplitIfs

/-!
# Order of numbers

NaN aside the numbers of the format stand on one line, with every finite one between the two
infinities. The extreme of samples that a fold picks is one of them, and NaN only if all are.
-/

namespace HeapLatency.Binary64

variable {x y z : Binary64}

theorem lt_iff : x < y ↔ ∃ a b, x.rank = some a ∧ y.rank = some b ∧ a < b := by
  show x.less y = true ↔ _
  unfold less
  cases x.rank <;> cases y.rank <;> simp

theorem le_iff : x ≤ y ↔ ∃ a b, x.rank = some a ∧ y.rank = some b ∧ a ≤ b := by
  show x.atMost y = true ↔ _
  unfold atMost
  cases x.rank <;> cases y.rank <;> simp

theorem lt_trans (hxy : x < y) (hyz : y < z) : x < z := by
  obtain ⟨a, b, hx, hy, hab⟩ := lt_iff.1 hxy
  obtain ⟨b', c, hy', hz, hbc⟩ := lt_iff.1 hyz
  rw [hy, Option.some.injEq] at hy'
  exact lt_iff.2 ⟨a, c, hx, hz, by omega⟩

theorem le_trans (hxy : x ≤ y) (hyz : y ≤ z) : x ≤ z := by
  obtain ⟨a, b, hx, hy, hab⟩ := le_iff.1 hxy
  obtain ⟨b', c, hy', hz, hbc⟩ := le_iff.1 hyz
  rw [hy, Option.some.injEq] at hy'
  exact le_iff.2 ⟨a, c, hx, hz, by omega⟩

instance : Trans (fun x y : Binary64 => x < y) (fun x y => x < y) (fun x y => x < y) := ⟨lt_trans⟩

/-- NaN is the only number without a place on the line. -/
theorem exists_rank (h : x.isNaN = false) : ∃ a, x.rank = some a := by
  cases x with
  | nan => cases h
  | finite negative units held => exact ⟨_, rfl⟩
  | infinite negative => exact ⟨_, rfl⟩

theorem isNaN_of_lt (h : x < y) : x.isNaN = false ∧ y.isNaN = false := by
  obtain ⟨a, b, hx, hy, -⟩ := lt_iff.1 h
  cases x <;> cases y <;> simp_all [rank, isNaN]

theorem le_refl_of_number (h : x.isNaN = false) : x ≤ x := by
  obtain ⟨a, ha⟩ := exists_rank h
  exact le_iff.2 ⟨a, a, ha, ha, Int.le_refl a⟩

theorem le_of_not_le (hx : x.isNaN = false) (hy : y.isNaN = false) (h : ¬x ≤ y) : y ≤ x := by
  obtain ⟨a, ha⟩ := exists_rank hx
  obtain ⟨b, hb⟩ := exists_rank hy
  have hab : ¬a ≤ b := fun hab => h (le_iff.2 ⟨a, b, ha, hb, hab⟩)
  exact le_iff.2 ⟨b, a, hb, ha, by omega⟩

theorem isNaN_of_le (h : x ≤ y) : x.isNaN = false ∧ y.isNaN = false := by
  obtain ⟨a, b, hx, hy, -⟩ := le_iff.1 h
  cases x <;> cases y <;> simp_all [rank, isNaN]

theorem le_of_lt (h : x < y) : x ≤ y := by
  obtain ⟨a, b, hx, hy, hab⟩ := lt_iff.1 h
  exact le_iff.2 ⟨a, b, hx, hy, by omega⟩

theorem not_le_of_lt (h : x < y) : ¬y ≤ x := by
  intro hyx
  obtain ⟨a, b, hx, hy, hab⟩ := lt_iff.1 h
  obtain ⟨b', a', hy', hx', hba⟩ := le_iff.1 hyx
  rw [hx, Option.some.injEq] at hx'
  rw [hy, Option.some.injEq] at hy'
  omega

theorem not_lt_of_le (h : x ≤ y) : ¬y < x := fun hyx => not_le_of_lt hyx h

theorem lt_irrefl : ¬x < x := fun h => not_le_of_lt h (le_of_lt h)

theorem lt_of_not_le (hx : x.isNaN = false) (hy : y.isNaN = false) (h : ¬x ≤ y) : y < x := by
  obtain ⟨a, ha⟩ := exists_rank hx
  obtain ⟨b, hb⟩ := exists_rank hy
  have hab : ¬a ≤ b := fun hab => h (le_iff.2 ⟨a, b, ha, hb, hab⟩)
  exact lt_iff.2 ⟨b, a, hb, ha, by omega⟩

theorem le_of_not_lt (hx : x.isNaN = false) (hy : y.isNaN = false) (h : ¬x < y) : y ≤ x := by
  obtain ⟨a, ha⟩ := exists_rank hx
  obtain ⟨b, hb⟩ := exists_rank hy
  have hab : ¬a < b := fun hab => h (lt_iff.2 ⟨a, b, ha, hb, hab⟩)
  exact le_iff.2 ⟨b, a, hb, ha, by omega⟩

theorem lt_of_le_of_lt (hxy : x ≤ y) (hyz : y < z) : x < z := by
  obtain ⟨a, b, hx, hy, hab⟩ := le_iff.1 hxy
  obtain ⟨b', c, hy', hz, hbc⟩ := lt_iff.1 hyz
  rw [hy, Option.some.injEq] at hy'
  exact lt_iff.2 ⟨a, c, hx, hz, by omega⟩

theorem lt_of_lt_of_le (hxy : x < y) (hyz : y ≤ z) : x < z := by
  obtain ⟨a, b, hx, hy, hab⟩ := lt_iff.1 hxy
  obtain ⟨b', c, hy', hz, hbc⟩ := le_iff.1 hyz
  rw [hy, Option.some.injEq] at hy'
  exact lt_iff.2 ⟨a, c, hx, hz, by omega⟩

/-! ## Finite numbers -/

theorem isNaN_of_isFinite (h : x.isFinite = true) : x.isNaN = false := by
  cases x with
  | finite negative units held => rfl
  | infinite negative => rfl
  | nan => cases h

theorem finite_lt_finite_iff {a b : Nat} {ha : Held a} {hb : Held b} :
    (finite false a ha < finite false b hb) ↔ a < b := by
  rw [lt_iff]
  simp [rank, signed]

theorem finite_le_finite_iff {a b : Nat} {ha : Held a} {hb : Held b} :
    (finite false a ha ≤ finite false b hb) ↔ a ≤ b := by
  rw [le_iff]
  simp [rank, signed]

theorem rank_of_isFinite (h : x.isFinite = true) :
    ∃ a, x.rank = some a ∧ -(overflow : Int) < a ∧ a < overflow := by
  cases x with
  | infinite negative => cases h
  | nan => cases h
  | finite negative units held =>
    refine ⟨signed negative units, rfl, ?_⟩
    have hbound := held.bounded
    cases negative with
    | false =>
      show -(overflow : Int) < units ∧ (units : Int) < overflow
      omega
    | true =>
      show -(overflow : Int) < -units ∧ -(units : Int) < overflow
      omega

theorem isFinite_of_between (hx : x.isFinite = true) (hxy : x < y) (hyz : y < z)
    (hz : z.isFinite = true) : y.isFinite = true := by
  obtain ⟨a, b, ha, hb, hab⟩ := lt_iff.1 hxy
  obtain ⟨b', c, hb', hc, hbc⟩ := lt_iff.1 hyz
  obtain ⟨a', ha', hlow, -⟩ := rank_of_isFinite hx
  obtain ⟨c', hc', -, hhigh⟩ := rank_of_isFinite hz
  rw [hb, Option.some.injEq] at hb'
  rw [ha, Option.some.injEq] at ha'
  rw [hc, Option.some.injEq] at hc'
  cases y with
  | finite negative units held => rfl
  | nan => cases hb
  | infinite negative =>
    exfalso
    cases negative with
    | false =>
      have : b = (overflow : Int) := (Option.some.inj hb).symm
      omega
    | true =>
      have : b = -(overflow : Int) := (Option.some.inj hb).symm
      omega

theorem same_self (h : x.isNaN = false) : x.same x = true := by
  have hle := le_refl_of_number h
  rw [same, decide_eq_true hle, Bool.and_self]

/-! ## Extremes -/

/-- Of two numbers `pick` keeps one that the other does not lie beyond; NaN gives way to a
number. -/
structure Picks (beyond : Binary64 → Binary64 → Prop) (pick : Binary64 → Binary64 → Binary64) :
    Prop where
  refl : ∀ x, x.isNaN = false → beyond x x
  trans : ∀ x y z, beyond x y → beyond y z → beyond x z
  either : ∀ x y, pick x y = x ∨ pick x y = y
  first : ∀ x y, x.isNaN = false → (pick x y).isNaN = false ∧ beyond x (pick x y)
  second : ∀ x y, y.isNaN = false → (pick x y).isNaN = false ∧ beyond y (pick x y)

theorem picks_max : Picks (fun x y => x ≤ y) max where
  refl _ := le_refl_of_number
  trans _ _ _ := le_trans
  either x y := by
    unfold max
    split_ifs <;> simp
  first x y h := by
    rw [max, h, if_neg Bool.false_ne_true]
    split_ifs with hle
    · exact ⟨(isNaN_of_le hle).2, hle⟩
    · exact ⟨h, le_refl_of_number h⟩
  second x y h := by
    unfold max
    split_ifs with hx hle
    · exact ⟨h, le_refl_of_number h⟩
    · exact ⟨h, le_refl_of_number h⟩
    · exact ⟨eq_false_of_ne_true hx, le_of_not_le (eq_false_of_ne_true hx) h hle⟩

theorem picks_min : Picks (fun x y => y ≤ x) min where
  refl _ := le_refl_of_number
  trans _ _ _ hxy hyz := le_trans hyz hxy
  either x y := by
    unfold min
    split_ifs <;> simp
  first x y h := by
    rw [min, h, if_neg Bool.false_ne_true]
    split_ifs with hle
    · exact ⟨(isNaN_of_le hle).1, hle⟩
    · exact ⟨h, le_refl_of_number h⟩
  second x y h := by
    unfold min
    split_ifs with hx hle
    · exact ⟨h, le_refl_of_number h⟩
    · exact ⟨h, le_refl_of_number h⟩
    · exact ⟨eq_false_of_ne_true hx, le_of_not_le h (eq_false_of_ne_true hx) hle⟩

/-- The pick of samples is one of them, and no number among them lies beyond it. -/
theorem Picks.foldl {beyond : Binary64 → Binary64 → Prop}
    {pick : Binary64 → Binary64 → Binary64} (h : Picks beyond pick) (best : Binary64)
    (samples : List Binary64) :
    samples.foldl pick best ∈ best :: samples ∧
      ∀ sample ∈ best :: samples, sample.isNaN = false →
        beyond sample (samples.foldl pick best) := by
  induction samples generalizing best with
  | nil =>
    refine ⟨List.mem_singleton_self best, fun sample hsample hnumber => ?_⟩
    rw [List.mem_singleton.1 hsample] at hnumber ⊢
    exact h.refl best hnumber
  | cons next samples ih =>
    obtain ⟨hmem, hbeyond⟩ := ih (pick best next)
    rw [List.foldl_cons]
    constructor
    · rcases List.mem_cons.1 hmem with heq | hmem
      · rw [heq]
        rcases h.either best next with hbest | hnext
        · rw [hbest]
          exact List.mem_cons_self
        · rw [hnext]
          exact List.mem_cons_of_mem _ List.mem_cons_self
      · exact List.mem_cons_of_mem _ (List.mem_cons_of_mem _ hmem)
    · -- the first two samples are measured against their pick, and that against the rest
      intro sample hsample hnumber
      rcases List.mem_cons.1 hsample with rfl | hsample
      · obtain ⟨hpick, hfirst⟩ := h.first sample next hnumber
        exact h.trans _ _ _ hfirst (hbeyond _ List.mem_cons_self hpick)
      · rcases List.mem_cons.1 hsample with rfl | hsample
        · obtain ⟨hpick, hsecond⟩ := h.second best sample hnumber
          exact h.trans _ _ _ hsecond (hbeyond _ List.mem_cons_self hpick)
        · exact hbeyond sample (List.mem_cons_of_mem _ hsample) hnumber

end HeapLatency.Binary64
