/-!
# Binary64 numbers

A finite number is a sign and a magnitude counted in units of `2 ^ -1074`, the least
positive number of the format. In these units every finite number is an integer, so
comparisons and whole parts are integer arithmetic, and every other operation rounds its
exact result once: to the nearest number of the format, a tie to the even one.
-/

namespace HeapLatency

/-! ## Rounding a quotient -/

/-- The whole number nearest to `num / den`, a tie going to the even one, so that the error has no
direction. -/
def nearestEven (num den : Nat) : Nat :=
  let whole := num / den
  let twice := 2 * (num % den)
  if den < twice ∨ (twice = den ∧ whole % 2 = 1) then whole + 1 else whole

theorem div_le_nearestEven (num den : Nat) : num / den ≤ nearestEven num den := by
  simp only [nearestEven]
  split <;> omega

theorem nearestEven_le_div_succ (num den : Nat) : nearestEven num den ≤ num / den + 1 := by
  simp only [nearestEven]
  split <;> omega

namespace Binary64

/-! ## The format -/

/-- Units in the number one. -/
def unitsPerOne : Nat := 1 <<< 1074

/-- The first magnitude past the largest finite number, in units. -/
def overflow : Nat := 1 <<< 2098

/-- The distance between neighbouring numbers around a magnitude: 53 significant bits fit. -/
def spacing (units : Nat) : Nat := 1 <<< (units.log2 - 52)

/-- The magnitudes that the format holds. -/
structure Held (units : Nat) : Prop where
  aligned : units % spacing units = 0
  bounded : units < overflow

/-- The magnitude nearest to `num / den` units among those with 53 significant bits. -/
def roundMagnitude (num den : Nat) : Nat :=
  let step := spacing (num / den)
  nearestEven num (den * step) * step

theorem spacing_pos (units : Nat) : 0 < spacing units := by
  rw [spacing, Nat.one_shiftLeft]
  exact Nat.two_pow_pos _

theorem spacing_eq_one {units : Nat} (h : units < 1 <<< 53) : spacing units = 1 := by
  rw [Nat.one_shiftLeft] at h
  have hlog : units.log2 - 52 = 0 := by
    by_cases hz : units = 0
    · subst hz; decide
    · have := (Nat.log2_lt hz).2 h
      omega
  rw [spacing, hlog, Nat.shiftLeft_zero]

theorem aligned_shiftLeft {k s : Nat} (hlo : 1 <<< 52 ≤ k) (hhi : k ≤ 1 <<< 53) :
    (k <<< s) % spacing (k <<< s) = 0 := by
  rw [Nat.one_shiftLeft] at hlo hhi
  rw [spacing, Nat.one_shiftLeft, Nat.shiftLeft_eq]
  have hpos : 0 < 2 ^ s := Nat.two_pow_pos s
  have hne : k * 2 ^ s ≠ 0 := Nat.mul_ne_zero (by omega) (by omega)
  have hle : 52 + s ≤ (k * 2 ^ s).log2 := by
    rw [Nat.le_log2 hne, Nat.pow_add]
    exact Nat.mul_le_mul_right _ hlo
  rcases Nat.lt_or_eq_of_le hhi with hlt | heq
  · have hlog : (k * 2 ^ s).log2 = 52 + s := by
      have : (k * 2 ^ s).log2 < 53 + s := by
        rw [Nat.log2_lt hne, Nat.pow_add]
        exact Nat.mul_lt_mul_of_pos_right hlt hpos
      omega
    rw [hlog, Nat.add_sub_cancel_left]
    exact Nat.mul_mod_left k (2 ^ s)
  · have hpow : k * 2 ^ s = 2 ^ (53 + s) := by rw [heq, Nat.pow_add]
    have hlog : (k * 2 ^ s).log2 = 53 + s := by
      rw [hpow]
      exact Nat.log2_two_pow
    rw [hlog, hpow, show 53 + s = (53 + s - 52) + 52 by omega, Nat.pow_add,
      show 53 + s - 52 + 52 - 52 = 53 + s - 52 by omega]
    exact Nat.mul_mod_right _ _

theorem aligned_roundMagnitude (num den : Nat) :
    roundMagnitude num den % spacing (roundMagnitude num den) = 0 := by
  unfold roundMagnitude
  by_cases hsmall : num / den < 1 <<< 53
  · rw [spacing_eq_one hsmall, Nat.mul_one, Nat.mul_one]
    have hle := nearestEven_le_div_succ num den
    by_cases hlt : nearestEven num den < 1 <<< 53
    · rw [spacing_eq_one hlt]; exact Nat.mod_one _
    · have heq : nearestEven num den = (1 <<< 53) <<< 0 := by
        rw [Nat.shiftLeft_zero]; omega
      rw [heq]
      exact aligned_shiftLeft (by decide) (by decide)
  · have hq : 2 ^ 53 ≤ num / den := by rw [Nat.one_shiftLeft] at hsmall; omega
    have hne : num / den ≠ 0 := by omega
    have hlog : 53 ≤ (num / den).log2 := (Nat.le_log2 hne).2 hq
    have hsplit : (num / den).log2 = 52 + ((num / den).log2 - 52) := by omega
    have hlow : 2 ^ (52 + ((num / den).log2 - 52)) ≤ num / den := by
      rw [← hsplit]; exact Nat.log2_self_le hne
    have hhigh : num / den < 2 ^ (53 + ((num / den).log2 - 52)) := by
      have : num / den < 2 ^ ((num / den).log2 + 1) := Nat.lt_log2_self
      rwa [show (num / den).log2 + 1 = 53 + ((num / den).log2 - 52) by omega] at this
    have hdiv : num / (den * spacing (num / den)) = num / den / spacing (num / den) :=
      (Nat.div_div_eq_div_mul num den _).symm
    have hlo : 1 <<< 52 ≤ nearestEven num (den * spacing (num / den)) := by
      refine Nat.le_trans ?_ (div_le_nearestEven _ _)
      rw [hdiv, Nat.le_div_iff_mul_le (spacing_pos _), spacing, Nat.one_shiftLeft,
        Nat.one_shiftLeft, ← Nat.pow_add]
      exact hlow
    have hhi : nearestEven num (den * spacing (num / den)) ≤ 1 <<< 53 := by
      refine Nat.le_trans (nearestEven_le_div_succ _ _) ?_
      rw [hdiv, Nat.succ_le_iff, Nat.div_lt_iff_lt_mul (spacing_pos _), spacing,
        Nat.one_shiftLeft, Nat.one_shiftLeft, ← Nat.pow_add]
      exact hhigh
    have hmul : nearestEven num (den * spacing (num / den)) * spacing (num / den) =
        nearestEven num (den * spacing (num / den)) <<< ((num / den).log2 - 52) := by
      rw [Nat.shiftLeft_eq, spacing, Nat.one_shiftLeft]
    rw [hmul]
    exact aligned_shiftLeft hlo hhi

end Binary64

inductive Binary64 where
  | finite (negative : Bool) (units : Nat) (held : Binary64.Held units)
  | infinite (negative : Bool)
  | nan
  deriving DecidableEq

namespace Binary64

/-- The number nearest to `num / den` units; past the largest finite number, an infinity. -/
def ofExact (negative : Bool) (num den : Nat) : Binary64 :=
  if h : roundMagnitude num den < overflow then
    .finite negative (roundMagnitude num den) ⟨aligned_roundMagnitude num den, h⟩
  else
    .infinite negative

def ofNat (n : Nat) : Binary64 := ofExact false (n * unitsPerOne) 1

def ofInt (n : Int) : Binary64 := ofExact (n < 0) (n.natAbs * unitsPerOne) 1

instance (n : Nat) : OfNat Binary64 n := ⟨ofNat n⟩

instance : Inhabited Binary64 := ⟨ofNat 0⟩

def zero (negative : Bool) : Binary64 := ofExact negative 0 1

def half : Binary64 := ofExact false unitsPerOne 2

/-! ## Order -/

/-- Sign and magnitude as one integer. -/
def signed (negative : Bool) (units : Nat) : Int :=
  if negative then -(units : Int) else units

/-- Places on the number line, the infinities past every finite number; NaN has none. -/
def rank : Binary64 → Option Int
  | .finite negative units _ => some (signed negative units)
  | .infinite negative => some (signed negative overflow)
  | .nan => none

/-- Strictly below on the number line; never with NaN. -/
def less (x y : Binary64) : Bool :=
  match x.rank, y.rank with
  | some a, some b => a < b
  | _, _ => false

/-- At or below on the number line; never with NaN. Both zeros have one place. -/
def atMost (x y : Binary64) : Bool :=
  match x.rank, y.rank with
  | some a, some b => a ≤ b
  | _, _ => false

instance : LT Binary64 := ⟨fun x y => x.less y = true⟩
instance : LE Binary64 := ⟨fun x y => x.atMost y = true⟩
instance (x y : Binary64) : Decidable (x < y) := inferInstanceAs (Decidable (_ = true))
instance (x y : Binary64) : Decidable (x ≤ y) := inferInstanceAs (Decidable (_ = true))

/-- One place on the number line; NaN is equal to nothing. -/
def same (x y : Binary64) : Bool := decide (x ≤ y) && decide (y ≤ x)

def isNaN : Binary64 → Bool
  | .nan => true
  | _ => false

def isFinite : Binary64 → Bool
  | .finite .. => true
  | _ => false

/-- The greater of two numbers; of equal ones the second, and never NaN beside a number. -/
def max (x y : Binary64) : Binary64 :=
  if x.isNaN then y else if x ≤ y then y else x

/-- The smaller of two numbers; of equal ones the second, and never NaN beside a number. -/
def min (x y : Binary64) : Binary64 :=
  if x.isNaN then y else if y ≤ x then y else x

/-- The number nearest to `x` between `lo` and `hi`; NaN stays. -/
def clamp (x lo hi : Binary64) : Binary64 :=
  if x < lo then lo else if hi < x then hi else x

/-! ## Arithmetic -/

def neg : Binary64 → Binary64
  | .finite negative units held => .finite (!negative) units held
  | .infinite negative => .infinite (!negative)
  | .nan => .nan

/-- Sum of two finite numbers given by their signs and units. An exact zero is negative only
when both terms are. -/
def addFinite (s : Bool) (a : Nat) (t : Bool) (b : Nat) : Binary64 :=
  let sum := signed s a + signed t b
  if sum = 0 then zero (s && t) else ofExact (sum < 0) sum.natAbs 1

def add : Binary64 → Binary64 → Binary64
  | .finite s a _, .finite t b _ => addFinite s a t b
  | .infinite s, .infinite t => if s = t then .infinite s else .nan
  | .infinite s, .finite .. => .infinite s
  | .finite .., .infinite t => .infinite t
  | _, _ => .nan

def mul : Binary64 → Binary64 → Binary64
  | .finite s a _, .finite t b _ => ofExact (s != t) (a * b) unitsPerOne
  | .infinite s, .infinite t => .infinite (s != t)
  | .infinite s, .finite t b _ => if b = 0 then .nan else .infinite (s != t)
  | .finite s a _, .infinite t => if a = 0 then .nan else .infinite (s != t)
  | _, _ => .nan

def div : Binary64 → Binary64 → Binary64
  | .finite s a _, .finite t b _ =>
    if b = 0 then
      if a = 0 then .nan else .infinite (s != t)
    else
      ofExact (s != t) (a * unitsPerOne) b
  | .infinite s, .finite t _ _ => .infinite (s != t)
  | .finite s _ _, .infinite t => zero (s != t)
  | _, _ => .nan

instance : Neg Binary64 := ⟨neg⟩
instance : Add Binary64 := ⟨add⟩
instance : Sub Binary64 := ⟨fun x y => x + -y⟩
instance : Mul Binary64 := ⟨mul⟩
instance : Div Binary64 := ⟨div⟩

/-! ## Whole numbers -/

def isWhole : Binary64 → Bool
  | .finite _ units _ => units % unitsPerOne == 0
  | _ => false

/-- Whole part toward zero, with the sign kept. -/
def trunc : Binary64 → Binary64
  | .finite negative units _ => ofExact negative (units / unitsPerOne * unitsPerOne) 1
  | x => x

/-- The least whole number that is not below, with the sign kept. -/
def ceil : Binary64 → Binary64
  | .finite negative units _ =>
    let whole := units / unitsPerOne
    let up := !negative && units % unitsPerOne != 0
    ofExact negative ((if up then whole + 1 else whole) * unitsPerOne) 1
  | x => x

/-- Whole part as a natural number, held between zero and `limit`; NaN gives zero. -/
def toNatUpTo (limit : Nat) : Binary64 → Nat
  | .finite false units _ => Nat.min (units / unitsPerOne) limit
  | .infinite false => limit
  | _ => 0

/-- The nearest natural number, a half going up, held between zero and `limit`. -/
def nearestNatUpTo (limit : Nat) : Binary64 → Nat
  | .finite false units _ => Nat.min ((2 * units + unitsPerOne) / (2 * unitsPerOne)) limit
  | .infinite false => limit
  | _ => 0

/-! ## Bit patterns

The 64-bit interchange pattern of a number has one sign bit, eleven exponent bits and fifty-two
fraction bits. The pattern of a magnitude is the exponent field times `2 ^ 52` plus the
significand, so neighbouring numbers have neighbouring patterns. -/

private def signPattern (negative : Bool) : Nat := if negative then 1 <<< 63 else 0

private def infinityPattern : Nat := 2047 <<< 52

def toBits : Binary64 → UInt64
  | .finite negative units _ =>
    let field := units.log2 - 52
    UInt64.ofNat (signPattern negative + field <<< 52 + units >>> field)
  | .infinite negative => UInt64.ofNat (signPattern negative + infinityPattern)
  | .nan => UInt64.ofNat (infinityPattern + 1 <<< 51)

/-- Every pattern with a full exponent field and a fraction is NaN. -/
def ofBits (bits : UInt64) : Binary64 :=
  let negative := decide (1 <<< 63 ≤ bits.toNat)
  let magnitude := bits.toNat % (1 <<< 63)
  if infinityPattern < magnitude then .nan
  else if magnitude = infinityPattern then .infinite negative
  else
    let field := magnitude >>> 52 - 1
    ofExact negative ((magnitude - field <<< 52) <<< field) 1

end Binary64

/-! ## Logarithmic scales

A logarithmic axis needs the decimal logarithm and its inverse. Both are approximations whose last
digit depends on the machine, so everything that uses them takes them as a parameter and relies on
nothing about the values they return. -/

/-- A decimal logarithm together with powers of ten. -/
structure LogScale where
  log10 : Binary64 → Binary64
  pow10 : Binary64 → Binary64

namespace LogScale

private def lift (f : Float → Float) (x : Binary64) : Binary64 :=
  .ofBits (f (.ofBits x.toBits)).toBits

def machine : LogScale where
  log10 := lift Float.log10
  pow10 := lift fun x => Float.pow 10 x

end LogScale

end HeapLatency
