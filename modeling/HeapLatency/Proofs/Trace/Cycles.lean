import HeapLatency.Proofs.Number.Value
import HeapLatency.Trace.Row

/-!
# Cycles of a row

The cycles of an event are the whole part of the number in its field. Texts that are no numbers,
infinities, NaN and numbers from minus one down are refused. A whole part past 64 bits is not: it
is taken for the greatest count.
-/

namespace HeapLatency.Row

variable {field : List Char} {number : Binary64} {whole : ℤ}

/-- The field is a finite decimal number, and `whole` is its whole part. -/
def WholePart (field : List Char) (whole : ℤ) : Prop :=
  ∃ number value, Binary64.read? field = some number ∧ number.value? = some value ∧
    towardZero value = whole

theorem WholePart.unique {other : ℤ} (h : WholePart field whole) (h' : WholePart field other) :
    whole = other := by
  obtain ⟨number, value, hread, hvalue, rfl⟩ := h
  obtain ⟨number', value', hread', hvalue', rfl⟩ := h'
  obtain rfl := Option.some.inj (hread.symm.trans hread')
  obtain rfl := Option.some.inj (hvalue.symm.trans hvalue')
  rfl

theorem parseCycles_of_unreadable (h : Binary64.read? field = none) :
    parseCycles field = .error (.cycles field) := by
  rw [parseCycles, h]

theorem parseCycles_of_valueless (h : Binary64.read? field = some number)
    (hvalue : number.value? = none) : parseCycles field = .error (.cyclesOutOfRange field) := by
  rw [parseCycles, h]
  cases number with
  | finite negative units held => cases hvalue
  | infinite negative => rfl
  | nan => rfl

theorem parseCycles_of_wholePart (h : WholePart field whole) :
    parseCycles field =
      if whole < 0 then .error (.cyclesOutOfRange field)
      else .ok (UInt64.ofNat (Nat.min whole.toNat maxWord)) := by
  obtain ⟨number, value, hread, hvalue, rfl⟩ := h
  have htrunc := Binary64.value?_trunc hvalue
  have hfinite : number.trunc.isFinite = true := by
    obtain ⟨negative, units, held, hnumber, -⟩ := Binary64.exists_finite_of_value? htrunc
    rw [hnumber]
    rfl
  have hzero : (0 : Binary64).value? = some 0 := Binary64.value?_ofNat (Nat.zero_le _)
  have hbelow : number.trunc < 0 ↔ towardZero value < 0 := by
    rw [Binary64.lt_iff_of_value? htrunc hzero, Int.cast_lt_zero]
  have hwhole : number.trunc.toNatUpTo maxWord = Nat.min (towardZero value).toNat maxWord := by
    rw [Binary64.toNatUpTo_of_value? maxWord htrunc, towardZero_intCast]
  simp only [parseCycles, hread, hfinite, hwhole, Bool.not_true, Bool.false_or,
    decide_eq_true_eq, hbelow]

/-- Every reading of a field: none, a number without a value, or one with a whole part. -/
theorem read_cases (field : List Char) :
    Binary64.read? field = none ∨
      (∃ number, Binary64.read? field = some number ∧ number.value? = none) ∨
      ∃ whole, WholePart field whole := by
  cases hread : Binary64.read? field with
  | none => exact .inl rfl
  | some number =>
    cases hvalue : number.value? with
    | none => exact .inr (.inl ⟨number, rfl, hvalue⟩)
    | some value => exact .inr (.inr ⟨towardZero value, number, value, hread, hvalue, rfl⟩)

theorem not_wholePart_of_unreadable (h : Binary64.read? field = none) : ¬WholePart field whole := by
  rintro ⟨number, value, hread, -, -⟩
  rw [h] at hread
  cases hread

theorem not_wholePart_of_valueless (h : Binary64.read? field = some number)
    (hvalue : number.value? = none) : ¬WholePart field whole := by
  rintro ⟨number', value', hread, hvalue', -⟩
  obtain rfl := Option.some.inj (h.symm.trans hread)
  rw [hvalue] at hvalue'
  cases hvalue'

theorem parseCycles_eq_ok_iff {cycles : UInt64} :
    parseCycles field = .ok cycles ↔ WholePart field cycles.toNat ∨
      (cycles.toNat = maxWord ∧ ∃ whole, WholePart field whole ∧ maxWord < whole) := by
  rcases read_cases field with hread | ⟨number, hread, hvalue⟩ | ⟨whole, hwhole⟩
  · rw [parseCycles_of_unreadable hread]
    refine iff_of_false nofun ?_
    rintro (h | ⟨-, whole, h, -⟩) <;> exact not_wholePart_of_unreadable hread h
  · rw [parseCycles_of_valueless hread hvalue]
    refine iff_of_false nofun ?_
    rintro (h | ⟨-, whole, h, -⟩) <;> exact not_wholePart_of_valueless hread hvalue h
  have hpart (other : ℤ) : WholePart field other ↔ whole = other :=
    ⟨hwhole.unique, fun heq => heq ▸ hwhole⟩
  have hbound : cycles.toNat ≤ maxWord := Nat.le_of_lt_succ cycles.toNat_lt
  simp only [parseCycles_of_wholePart hwhole, hpart, exists_eq_left']
  split_ifs with hneg
  · refine iff_of_false nofun ?_
    omega
  · have hword : Nat.min whole.toNat maxWord < 2 ^ 64 :=
      Nat.lt_succ_of_le (Nat.min_le_right _ maxWord)
    rw [Except.ok.injEq, ← UInt64.toNat_inj, UInt64.toNat_ofNat_of_lt' hword]
    show min whole.toNat maxWord = _ ↔ _
    omega

theorem parseCycles_eq_error_iff {reason : RowError} :
    parseCycles field = .error reason ↔
      (reason = .cycles field ∧ Binary64.read? field = none) ∨
      (reason = .cyclesOutOfRange field ∧ (∃ number, Binary64.read? field = some number) ∧
        ∀ whole, WholePart field whole → whole < 0) := by
  rcases read_cases field with hread | ⟨number, hread, hvalue⟩ | ⟨whole, hwhole⟩
  · rw [parseCycles_of_unreadable hread, Except.error.injEq, eq_comm]
    simp only [hread, and_true, reduceCtorEq, exists_false, false_and, and_false, or_false]
  · have hnone : ∀ whole, WholePart field whole → whole < 0 := fun whole h =>
      absurd h (not_wholePart_of_valueless hread hvalue)
    rw [parseCycles_of_valueless hread hvalue, Except.error.injEq, eq_comm]
    simp only [hread, reduceCtorEq, and_false, Option.some.injEq, exists_eq', false_or, and_true,
      and_iff_left hnone]
  obtain ⟨number, -, hread, -, -⟩ := id hwhole
  have hsign : (∀ other, WholePart field other → other < 0) ↔ whole < 0 :=
    ⟨fun h => h whole hwhole, fun h other hother => hwhole.unique hother ▸ h⟩
  rw [parseCycles_of_wholePart hwhole, hsign]
  split_ifs with hneg
  · rw [Except.error.injEq, eq_comm]
    simp only [hread, reduceCtorEq, and_false, Option.some.injEq, exists_eq', false_or, and_true,
      and_iff_left hneg]
  · refine iff_of_false nofun ?_
    rintro (⟨-, h⟩ | ⟨-, -, h⟩)
    · rw [hread] at h
      cases h
    · exact hneg h

/-- What a field of cycles gives. The count is the whole part of the number, and all that is no
count is refused with the text of the field, with one exception: a whole part past 64 bits is no
fault, and the count is then the greatest one. -/
theorem parseCycles_outcome (field : List Char) :
    (∀ cycles : UInt64, parseCycles field = .ok cycles ↔
      WholePart field cycles.toNat ∨
      (cycles.toNat = 2 ^ 64 - 1 ∧ ∃ whole, WholePart field whole ∧ 2 ^ 64 - 1 < whole)) ∧
    ∀ reason, parseCycles field = .error reason ↔
      (reason = .cycles field ∧ Binary64.read? field = none) ∨
      (reason = .cyclesOutOfRange field ∧ (∃ number, Binary64.read? field = some number) ∧
        ∀ whole, WholePart field whole → whole < 0) :=
  ⟨fun _ => parseCycles_eq_ok_iff, fun _ => parseCycles_eq_error_iff⟩

/-- The first whole part that is no count of 64 bits is taken for the greatest count. -/
theorem parseCycles_clamped :
    parseCycles "18446744073709551616".toList = .ok 18446744073709551615 ∧
    WholePart "18446744073709551616".toList (2 ^ 64) ∧
    ¬WholePart "18446744073709551616".toList (18446744073709551615 : UInt64).toNat := by
  have held : Binary64.Held (2 ^ 64 * Binary64.unitsPerOne) :=
    ⟨by decide +kernel, by decide +kernel⟩
  have hread : Binary64.read? "18446744073709551616".toList =
      some (Binary64.ofExact false (2 ^ 64 * Binary64.unitsPerOne) 1) := by decide +kernel
  rw [Binary64.ofExact_of_held held] at hread
  have hwhole : WholePart "18446744073709551616".toList (2 ^ 64) :=
    ⟨_, _, hread, Binary64.value?_whole held, towardZero_intCast (2 ^ 64)⟩
  refine ⟨?_, hwhole, fun h => absurd (hwhole.unique h) (by decide)⟩
  rw [parseCycles_of_wholePart hwhole]
  rfl

end HeapLatency.Row
