import HeapLatency.Json.Typed
import HeapLatency.Number.Spelling
import HeapLatency.Proofs.Number.Reread
import HeapLatency.Proofs.Text.Encoding

/-!
# Numbers as text

A number is read up to the first byte that cannot go on with it. Whole numbers of 64 bits are read
back as they were; real numbers are read back from the digits and the power of ten of their data
text.
-/

namespace HeapLatency.JsonScan

/-! ## Digits -/

/-- The bytes of characters that are one byte each. -/
def single (text : List Char) : Bytes := text.map byte

theorem exists_digitChar {c : Char} (h : c.isDigit = true) : ∃ k < 10, c = Nat.digitChar k := by
  rw [Char.isDigit, Bool.and_eq_true, decide_eq_true_eq, decide_eq_true_eq] at h
  have hlow : 48 ≤ c.toNat := h.1
  have hhigh : c.toNat ≤ 57 := h.2
  refine ⟨c.toNat - 48, by omega, ?_⟩
  rw [← Char.toNat_inj, Nat.toNat_digitChar_of_lt_ten (by omega)]
  omega

theorem isDigitByte_digitChar : ∀ k < 10, isDigitByte (byte (Nat.digitChar k)) = true := by
  decide

theorem digitValue_digitChar : ∀ k < 10, digitValue (byte (Nat.digitChar k)) = k := by
  decide

theorem isDigitByte_byte {c : Char} (h : c.isDigit = true) : isDigitByte (byte c) = true := by
  obtain ⟨k, hk, rfl⟩ := exists_digitChar h
  exact isDigitByte_digitChar k hk

theorem digitValue_byte {c : Char} (h : c.isDigit = true) :
    digitValue (byte c) = c.toNat - '0'.toNat := by
  obtain ⟨k, hk, rfl⟩ := exists_digitChar h
  rw [digitValue_digitChar k hk, Nat.toNat_digitChar_of_lt_ten hk]
  exact (Nat.add_sub_cancel_left 48 k).symm

theorem byte_ne_zero {c : Char} (h : c.isDigit = true) (hne : c ≠ '0') : byte c ≠ byte '0' := by
  obtain ⟨k, hk, rfl⟩ := exists_digitChar h
  have hcases : ∀ k < 10, k ≠ 0 → byte (Nat.digitChar k) ≠ byte '0' := by decide
  refine hcases k hk ?_
  rintro rfl
  exact hne rfl

theorem isDigit_toDigits (n : Nat) : ∀ c ∈ Nat.toDigits 10 n, c.isDigit = true :=
  fun _ => Nat.isDigit_of_mem_toDigits (by decide) (by decide)

theorem ofDigitChars_toDigits (n : Nat) : Nat.ofDigitChars 10 (Nat.toDigits 10 n) 0 = n :=
  Nat.ofDigitChars_toDigits (by decide) (by decide)

theorem isDigit_replicate_zero (n : Nat) : ∀ c ∈ List.replicate n '0', c.isDigit = true := by
  intro c hc
  rw [List.eq_of_mem_replicate hc]
  rfl

theorem single_cons (c : Char) (text : List Char) : single (c :: text) = byte c :: single text :=
  rfl

theorem single_append (text other : List Char) :
    single (text ++ other) = single text ++ single other :=
  List.map_append

section Digits

variable {text : List Char} {rest : Bytes}

theorem le_ofDigitChars (text : List Char) (value : Nat) :
    value ≤ Nat.ofDigitChars 10 text value := by
  rw [Nat.ofDigitChars_eq_ofDigitChars_zero]
  exact Nat.le_trans (Nat.le_mul_of_pos_left value (Nat.pow_pos (by decide)))
    (Nat.le_add_right _ _)

theorem gather_of_not_digit {value count : Nat} (h : startsWithDigit rest = false) :
    gather value count rest = (value, count, rest) := by
  cases rest with
  | nil => rfl
  | cons b rest =>
    have hb : isDigitByte b = false := h
    rw [gather, hb]
    rfl

theorem gather_digits {value count : Nat} (hdigits : ∀ c ∈ text, c.isDigit = true)
    (hfits : Nat.ofDigitChars 10 text value ≤ maxWord) (hrest : startsWithDigit rest = false) :
    gather value count (single text ++ rest) =
      (Nat.ofDigitChars 10 text value, count + text.length, rest) := by
  induction text generalizing value count with
  | nil => exact gather_of_not_digit hrest
  | cons c text ih =>
    have hc := hdigits c List.mem_cons_self
    rw [Nat.ofDigitChars_cons] at hfits ⊢
    have hvalue := Nat.le_trans (le_ofDigitChars text _) hfits
    rw [single_cons, List.cons_append, gather, isDigitByte_byte hc, digitValue_byte hc,
      decide_eq_true hvalue]
    show gather _ _ (single text ++ rest) = _
    rw [ih (fun d hd => hdigits d (List.mem_cons_of_mem _ hd)) hfits, List.length_cons,
      Nat.add_comm text.length 1, Nat.add_assoc]

theorem takeWhile_digits (hdigits : ∀ c ∈ text, c.isDigit = true)
    (hrest : startsWithDigit rest = false) :
    (single text ++ rest).takeWhile isDigitByte = single text ∧
      (single text ++ rest).dropWhile isDigitByte = rest := by
  have hall : ∀ b ∈ single text, isDigitByte b = true := by
    intro b hb
    obtain ⟨c, hc, rfl⟩ := List.mem_map.1 hb
    exact isDigitByte_byte (hdigits c hc)
  have hnone : rest.takeWhile isDigitByte = [] ∧ rest.dropWhile isDigitByte = rest := by
    cases rest with
    | nil => exact ⟨rfl, rfl⟩
    | cons b rest =>
      have hb : isDigitByte b = false := hrest
      rw [List.takeWhile_cons, List.dropWhile_cons, hb]
      exact ⟨rfl, rfl⟩
  rw [List.takeWhile_append_of_pos hall, List.dropWhile_append_of_pos hall, hnone.1, hnone.2,
    List.append_nil]
  exact ⟨rfl, rfl⟩

theorem foldl_digits (hdigits : ∀ c ∈ text, c.isDigit = true) (value : Nat) :
    (single text).foldl (fun n b => 10 * n + digitValue b) value =
      Nat.ofDigitChars 10 text value := by
  induction text generalizing value with
  | nil => rfl
  | cons c text ih =>
    rw [single_cons, List.foldl_cons, Nat.ofDigitChars_cons,
      digitValue_byte (hdigits c List.mem_cons_self),
      ih fun d hd => hdigits d (List.mem_cons_of_mem _ hd)]

theorem startsWithDigit_digits (hdigits : ∀ c ∈ text, c.isDigit = true) (hne : text ≠ []) :
    startsWithDigit (single text ++ rest) = true := by
  cases text with
  | nil => exact absurd rfl hne
  | cons c text => exact isDigitByte_byte (hdigits c List.mem_cons_self)

end Digits

/-! ## Parts of a number -/

/-- What follows goes on with no number. -/
structure Ends (rest : Bytes) : Prop where
  digit : startsWithDigit rest = false
  point : rest.head? ≠ some (byte '.')
  exponent : startsWithExponent rest = false

/-- Digits of a whole number, which has no leading zeros. -/
structure Whole (text : List Char) : Prop where
  digits : ∀ c ∈ text, c.isDigit = true
  head : text = ['0'] ∨ ∃ c others, text = c :: others ∧ c ≠ '0'

section Parts

variable {negative : Bool} {digits : Nat} {start : Int} {text : List Char} {rest : Bytes}

theorem readUnsigned_whole (hwhole : Whole text) (hfits : Nat.ofDigitChars 10 text 0 ≤ maxWord)
    (hrest : startsWithDigit rest = false) :
    readUnsigned negative (single text ++ rest) =
      numberEnd negative (Nat.ofDigitChars 10 text 0) rest := by
  rcases hwhole.head with rfl | ⟨c, others, rfl, hne⟩
  · show readUnsigned negative (byte '0' :: rest) = numberEnd negative 0 rest
    rw [readUnsigned, if_pos rfl, hrest]
    rfl
  · have hc := hwhole.digits c List.mem_cons_self
    have hgather : gather 0 0 (single (c :: others) ++ rest) = _ :=
      gather_digits hwhole.digits hfits hrest
    rw [single_cons, List.cons_append] at hgather ⊢
    rw [readUnsigned, if_neg (byte_ne_zero hc hne), if_pos (isDigitByte_byte hc), hgather]

theorem numberEnd_of_ends (hrest : Ends rest) :
    numberEnd negative digits rest = .ok (wholeOf negative digits, rest) := by
  rw [numberEnd, hrest.digit, if_neg Bool.false_ne_true, if_neg hrest.point, hrest.exponent]
  rfl

theorem realEnd_of_ends (hrest : Ends rest) :
    realEnd negative digits start rest = real negative digits start rest := by
  rw [realEnd, hrest.exponent]
  rfl

theorem numberEnd_point (hdigits : ∀ c ∈ text, c.isDigit = true) (hne : text ≠ [])
    (hfits : Nat.ofDigitChars 10 text digits ≤ maxWord) (hrest : startsWithDigit rest = false) :
    numberEnd negative digits (byte '.' :: (single text ++ rest)) =
      realEnd negative (Nat.ofDigitChars 10 text digits) (-text.length) rest := by
  have hlength : text.length ≠ 0 := fun h => hne (List.length_eq_zero_iff.1 h)
  have hnone : ∀ c ∈ ([] : List Char), c.isDigit = true := nofun
  have hdrop : rest.dropWhile isDigitByte = rest := (takeWhile_digits hnone hrest).2
  show fraction negative digits 0 (single text ++ rest) = _
  rw [fraction, gather_digits hdigits hfits hrest]
  simp only
  rw [if_neg (by omega), hdrop, Nat.zero_add, Int.zero_sub]

theorem exponent_sign (down : Bool) (bytes : Bytes) :
    exponent negative digits start (byte (if down then '-' else '+') :: bytes) =
      if bytes.isEmpty then .error .endOfInput
      else if !startsWithDigit bytes then .error .malformed
      else
        let power := (bytes.takeWhile isDigitByte).foldl (fun n b => 10 * n + digitValue b) 0
        let rest := bytes.dropWhile isDigitByte
        if maxExponent < power then
          if digits ≠ 0 ∧ !down then .error .malformed else .ok (.real (.zero negative), rest)
        else real negative digits (if down then start - power else start + power) rest := by
  cases down <;> rfl

/-- The signed power of ten at the end of a number. -/
theorem exponent_power (down : Bool) {power : Nat} (hpower : power ≤ maxExponent)
    (hrest : startsWithDigit rest = false) :
    exponent negative digits start
        (byte (if down then '-' else '+') :: (single (Nat.toDigits 10 power) ++ rest)) =
      real negative digits (if down then start - power else start + power) rest := by
  have hdigits := isDigit_toDigits power
  have hne : Nat.toDigits 10 power ≠ [] := Nat.toDigits_ne_nil
  have hsome : (single (Nat.toDigits 10 power) ++ rest).isEmpty = false := by
    obtain ⟨c, others, heq⟩ := List.exists_cons_of_ne_nil hne
    rw [heq]
    rfl
  obtain ⟨htake, hdrop⟩ := takeWhile_digits hdigits hrest
  rw [exponent_sign, hsome, startsWithDigit_digits hdigits hne, htake, hdrop,
    foldl_digits hdigits, ofDigitChars_toDigits]
  simp only
  rw [if_neg Bool.false_ne_true, if_neg (by decide), if_neg (Nat.not_lt.2 hpower)]

end Parts

/-! ## Texts of decimals -/

/-- Characters that are one byte each. -/
def Ascii (text : List Char) : Prop := ∀ c ∈ text, c.toNat < 0x80

theorem encode_eq_single {text : List Char} (h : Ascii text) : Utf8.encode text = single text := by
  induction text with
  | nil => rfl
  | cons c text ih =>
    have hc : c.val.toNat ≤ 127 := Nat.le_of_lt_succ (h c List.mem_cons_self)
    rw [Utf8.encode_cons, ih fun d hd => h d (List.mem_cons_of_mem _ hd),
      String.utf8EncodeChar.eq_1,
      if_pos hc]
    rfl

theorem ascii_of_digits {text : List Char} (h : ∀ c ∈ text, c.isDigit = true) : Ascii text := by
  intro c hc
  obtain ⟨k, hk, rfl⟩ := exists_digitChar (h c hc)
  rw [Nat.toNat_digitChar_of_lt_ten hk]
  omega

theorem Ascii.append {text other : List Char} (h : Ascii text) (hother : Ascii other) :
    Ascii (text ++ other) :=
  List.forall_mem_append.2 ⟨h, hother⟩

theorem Ascii.cons {c : Char} {text : List Char} (hc : c.toNat < 0x80) (h : Ascii text) :
    Ascii (c :: text) :=
  List.forall_mem_cons.2 ⟨hc, h⟩

theorem Whole.exists_head {text : List Char} (h : Whole text) :
    ∃ c others, text = c :: others ∧ c.isDigit = true := by
  rcases h.head with rfl | ⟨c, others, rfl, -⟩
  · exact ⟨'0', [], rfl, rfl⟩
  · exact ⟨c, others, rfl, h.digits c List.mem_cons_self⟩

/-- A text is read as a decimal, whatever follows that is no part of a number. -/
structure Spells (text : List Char) (d : Decimal) : Prop where
  head : ∃ c others, text = c :: others ∧ c.isDigit = true
  ascii : Ascii text
  reads : ∀ negative rest, Ends rest →
    readUnsigned negative (single text ++ rest) = real negative d.digits d.exponent rest

section Spells

variable {whole fraction : List Char}

/-- Digits with a point between them. -/
theorem spells_point (hwhole : Whole whole) (hfraction : ∀ c ∈ fraction, c.isDigit = true)
    (hne : fraction ≠ []) (hfits : Nat.ofDigitChars 10 (whole ++ fraction) 0 ≤ maxWord) :
    Spells (whole ++ '.' :: fraction)
      ⟨Nat.ofDigitChars 10 (whole ++ fraction) 0, -fraction.length⟩ where
  head := by
    obtain ⟨c, others, heq, hc⟩ := hwhole.exists_head
    exact ⟨c, others ++ '.' :: fraction, by rw [heq, List.cons_append], hc⟩
  ascii := (ascii_of_digits hwhole.digits).append ((ascii_of_digits hfraction).cons (by decide))
  reads negative rest hrest := by
    rw [Nat.ofDigitChars_append] at hfits
    have hpart := Nat.le_trans (le_ofDigitChars fraction _) hfits
    rw [single_append, single_cons, List.append_assoc, List.cons_append,
      readUnsigned_whole hwhole hpart rfl, numberEnd_point hfraction hne hfits hrest.digit,
      realEnd_of_ends hrest, ← Nat.ofDigitChars_append]

/-- Digits with a point after the first and a signed power of ten. -/
theorem spells_scientific (hwhole : Whole whole) (hfraction : ∀ c ∈ fraction, c.isDigit = true)
    (hfits : Nat.ofDigitChars 10 (whole ++ fraction) 0 ≤ maxWord) {power : Int}
    (hpower : power.natAbs ≤ maxExponent) :
    Spells
      (whole ++ (if fraction.isEmpty then [] else '.' :: fraction) ++
        'e' :: (if power < 0 then '-' else '+') :: Nat.toDigits 10 power.natAbs)
      ⟨Nat.ofDigitChars 10 (whole ++ fraction) 0, power - fraction.length⟩ where
  head := by
    obtain ⟨c, others, heq, hc⟩ := hwhole.exists_head
    exact ⟨c, _, by rw [heq, List.cons_append, List.cons_append], hc⟩
  ascii := by
    refine ((ascii_of_digits hwhole.digits).append ?_).append
      (((ascii_of_digits (isDigit_toDigits power.natAbs)).cons ?_).cons (by decide))
    · split
      · exact nofun
      · exact (ascii_of_digits hfraction).cons (by decide)
    · split <;> decide
  reads negative rest hrest := by
    rw [Nat.ofDigitChars_append] at hfits
    have hpart := Nat.le_trans (le_ofDigitChars fraction _) hfits
    have hpower (start : Int) (digits : Nat) :
        exponent negative digits start
            (byte (if power < 0 then '-' else '+') ::
              (single (Nat.toDigits 10 power.natAbs) ++ rest)) =
          real negative digits (start + power) rest := by
      by_cases hneg : power < 0
      · rw [if_pos hneg, show start + power = start - power.natAbs by omega]
        exact exponent_power true hpower hrest.digit
      · rw [if_neg hneg, show start + power = start + power.natAbs by omega]
        exact exponent_power false hpower hrest.digit
    rw [single_append, single_append, single_cons, single_cons, List.append_assoc,
      List.append_assoc, Nat.ofDigitChars_append]
    by_cases hempty : fraction = []
    · subst hempty
      refine (readUnsigned_whole hwhole hpart rfl).trans ((hpower 0 _).trans ?_)
      rw [Int.zero_add, Nat.ofDigitChars_nil, List.length_nil, Int.natCast_zero, Int.sub_zero]
    · have hsome : fraction.isEmpty = false := by
        rwa [List.isEmpty_eq_false_iff]
      rw [hsome, if_neg Bool.false_ne_true, single_cons, List.cons_append,
        readUnsigned_whole hwhole hpart rfl, numberEnd_point hfraction hempty hfits rfl]
      refine (hpower _ _).trans ?_
      rw [show -(fraction.length : Int) + power = power - fraction.length by omega]

end Spells

/-! ## Data text -/

theorem exists_head_of_pos {n : Nat} (h : 0 < n) :
    ∃ c others, Nat.toDigits 10 n = c :: others ∧ c ≠ '0' := by
  induction n using Nat.strongRecOn with
  | ind n ih =>
    by_cases hten : n < 10
    · refine ⟨n.digitChar, [], Nat.toDigits_of_lt_base hten, ?_⟩
      rw [ne_eq, Nat.digitChar_eq_zero]
      omega
    · -- the first digit is that of the number without its last digit
      obtain ⟨c, others, heq, hne⟩ := ih (n / 10) (by omega) (by omega)
      refine ⟨c, others ++ [Nat.digitChar (n % 10)], ?_, hne⟩
      rw [Nat.toDigits_of_base_le (by decide) (Nat.not_lt.1 hten), heq, List.cons_append]

theorem toDigits_ne_zero {n : Nat} (h : 0 < n) : Nat.toDigits 10 n ≠ ['0'] := by
  obtain ⟨c, others, heq, hne⟩ := exists_head_of_pos h
  rw [heq]
  intro hzero
  exact hne (List.cons.inj hzero).1

theorem whole_toDigits (n : Nat) : Whole (Nat.toDigits 10 n) where
  digits := isDigit_toDigits n
  head := by
    rcases Nat.eq_zero_or_pos n with rfl | hpos
    · exact .inl (Nat.toDigits_zero 10)
    · exact .inr (exists_head_of_pos hpos)

theorem Whole.append {text other : List Char} (h : Whole text) (hne : text ≠ ['0'])
    (hother : ∀ c ∈ other, c.isDigit = true) : Whole (text ++ other) where
  digits := List.forall_mem_append.2 ⟨h.digits, hother⟩
  head := by
    obtain ⟨c, others, rfl, hc⟩ := h.head.resolve_left hne
    exact .inr ⟨c, others ++ other, List.cons_append, hc⟩

/-- What data text writes of a positive decimal. -/
def dataBody (d : Decimal) : String :=
  let point := d.exponent + Decimal.width d.digits
  if -5 < point ∧ point ≤ 16 then
    if 0 ≤ d.exponent then d.positional ++ ".0" else d.positional
  else d.scientific

theorem dataText?_finite (negative : Bool) {units : Nat} (held : Binary64.Held units) :
    (Binary64.finite negative units held).dataText? =
      some ((if negative then "-" else "") ++
        if units = 0 then "0.0" else dataBody (Binary64.shortest .even units)) := by
  rw [Binary64.dataText?]
  split <;> rfl

variable {d : Decimal}

theorem le_maxWord_of_lt {n : Nat} (h : n < 10 ^ 17) : n ≤ maxWord :=
  Nat.le_trans (Nat.le_of_lt h) (by decide)

theorem spells_tenths (hwhole : Whole whole) (hfits : 10 * Nat.ofDigitChars 10 whole 0 ≤ maxWord) :
    Spells (whole ++ ['.', '0']) ⟨10 * Nat.ofDigitChars 10 whole 0, -1⟩ := by
  have hvalue : Nat.ofDigitChars 10 (whole ++ ['0']) 0 = 10 * Nat.ofDigitChars 10 whole 0 := by
    rw [Nat.ofDigitChars_append]
    rfl
  have hspells := spells_point hwhole (List.forall_mem_singleton.2 (show '0'.isDigit = true by rfl))
    (List.cons_ne_nil _ _) (by rwa [hvalue])
  rwa [hvalue] at hspells

theorem spells_whole (hpos : 0 < d.digits) (hexp : 0 ≤ d.exponent)
    (hfits : 10 * (d.digits * 10 ^ d.exponent.toNat) < 10 ^ 17) :
    Spells (d.positional ++ ".0").toList ⟨10 * (d.digits * 10 ^ d.exponent.toNat), -1⟩ := by
  have hvalue : Nat.ofDigitChars 10
      (Nat.toDigits 10 d.digits ++ List.replicate d.exponent.toNat '0') 0 =
        d.digits * 10 ^ d.exponent.toNat := by
    rw [Nat.ofDigitChars_append, ofDigitChars_toDigits, Nat.ofDigitChars_replicate_zero,
      Nat.mul_comm]
  have hspells := spells_tenths
    ((whole_toDigits d.digits).append (toDigits_ne_zero hpos) (isDigit_replicate_zero _))
    (by rw [hvalue]; exact le_maxWord_of_lt hfits)
  rw [hvalue] at hspells
  rw [String.toList_append, Decimal.positional, if_pos hexp, String.toList_ofList]
  exact hspells

theorem Whole.take {text : List Char} (h : Whole text) (hne : text ≠ ['0']) (k : Nat) :
    Whole (text.take (k + 1)) where
  digits c hc := h.digits c (List.mem_of_mem_take hc)
  head := by
    obtain ⟨c, others, rfl, hc⟩ := h.head.resolve_left hne
    exact .inr ⟨c, others.take k, List.take_succ_cons, hc⟩

/-- The point stands between two digits. -/
theorem spells_inside {n places : Nat} (hpos : 0 < n) (hfits : n ≤ maxWord) (hplaces : 0 < places)
    (hshort : places < (Nat.toDigits 10 n).length) :
    Spells ((Nat.toDigits 10 n).take ((Nat.toDigits 10 n).length - places) ++
      '.' :: (Nat.toDigits 10 n).drop ((Nat.toDigits 10 n).length - places)) ⟨n, -places⟩ := by
  have hwhole := whole_toDigits n
  obtain ⟨k, hk⟩ : ∃ k, (Nat.toDigits 10 n).length - places = k + 1 :=
    ⟨(Nat.toDigits 10 n).length - places - 1, by omega⟩
  rw [hk]
  have hlength : ((Nat.toDigits 10 n).drop (k + 1)).length = places := by
    rw [List.length_drop]
    omega
  have hvalue : Nat.ofDigitChars 10
      ((Nat.toDigits 10 n).take (k + 1) ++ (Nat.toDigits 10 n).drop (k + 1)) 0 = n := by
    rw [List.take_append_drop, ofDigitChars_toDigits]
  have hsome : (Nat.toDigits 10 n).drop (k + 1) ≠ [] := by
    intro hnil
    rw [hnil, List.length_nil] at hlength
    omega
  have hspells := spells_point (hwhole.take (toDigits_ne_zero hpos) k)
    (fun c hc => hwhole.digits c (List.mem_of_mem_drop hc)) hsome (by rwa [hvalue])
  rwa [hvalue, hlength] at hspells

/-- All digits stand behind the point, with zeros before them. -/
theorem spells_behind {n places : Nat} (hfits : n ≤ maxWord)
    (hlong : (Nat.toDigits 10 n).length ≤ places) :
    Spells ('0' :: '.' ::
      (List.replicate (places - (Nat.toDigits 10 n).length) '0' ++ Nat.toDigits 10 n))
      ⟨n, -places⟩ := by
  generalize hzeros : List.replicate (places - (Nat.toDigits 10 n).length) '0' = zeros
  have hdigits : ∀ c ∈ zeros ++ Nat.toDigits 10 n, c.isDigit = true := by
    rw [← hzeros]
    exact List.forall_mem_append.2 ⟨isDigit_replicate_zero _, isDigit_toDigits n⟩
  have hlength : (zeros ++ Nat.toDigits 10 n).length = places := by
    rw [← hzeros, List.length_append, List.length_replicate]
    omega
  have hvalue : Nat.ofDigitChars 10 (['0'] ++ (zeros ++ Nat.toDigits 10 n)) 0 = n := by
    rw [← hzeros, Nat.ofDigitChars_append, Nat.ofDigitChars_append, Nat.ofDigitChars_replicate_zero]
    exact ofDigitChars_toDigits n
  have hsome : zeros ++ Nat.toDigits 10 n ≠ [] :=
    fun hnil => Nat.toDigits_ne_nil (List.append_eq_nil_iff.1 hnil).2
  have hspells := spells_point (whole_toDigits 0) hdigits hsome
    (by rwa [Nat.toDigits_zero, hvalue])
  rwa [Nat.toDigits_zero, hvalue, hlength] at hspells

theorem spells_fraction (hpos : 0 < d.digits) (hdigits : d.digits < 10 ^ 17)
    (hexp : d.exponent < 0) : Spells d.positional.toList d := by
  obtain ⟨n, exponent⟩ := d
  have hneg : exponent < 0 := hexp
  obtain ⟨places, rfl⟩ : ∃ places : Nat, exponent = -places := ⟨exponent.natAbs, by omega⟩
  have hplaces : (-(-(places : Int))).toNat = places := by omega
  rw [Decimal.positional, if_neg (show ¬(0 : Int) ≤ -places by omega), hplaces]
  by_cases hshort : places < (Nat.toDigits 10 n).length
  · rw [if_pos hshort, String.toList_ofList]
    exact spells_inside hpos (le_maxWord_of_lt hdigits) (by omega) hshort
  · rw [if_neg hshort, String.toList_ofList]
    exact spells_behind (le_maxWord_of_lt hdigits) (Nat.not_lt.1 hshort)

theorem toList_scientific (n : Nat) (exponent : Int) :
    (Decimal.scientific ⟨n, exponent⟩).toList =
      (Nat.toDigits 10 n).take 1 ++
        (if ((Nat.toDigits 10 n).drop 1).isEmpty then [] else '.' :: (Nat.toDigits 10 n).drop 1) ++
        'e' :: (if exponent + (Nat.toDigits 10 n).length - 1 < 0 then '-' else '+') ::
          Nat.toDigits 10 (exponent + (Nat.toDigits 10 n).length - 1).natAbs := by
  have hpoint (fraction : List Char) :
      (if fraction.isEmpty then "" else "." ++ String.ofList fraction).toList =
        if fraction.isEmpty then [] else '.' :: fraction := by
    split
    · rfl
    · rw [String.toList_append]
      exact congrArg ('.' :: ·) String.toList_ofList
  have hsign (power : Int) : (if power < 0 then "e-" else "e+").toList =
      ['e', if power < 0 then '-' else '+'] := by
    split <;> rfl
  rw [Decimal.scientific, natText]
  simp only [String.toList_append, String.toList_ofList, hpoint, hsign, List.append_assoc]
  rfl

theorem spells_powers (hpos : 0 < d.digits) (hd : Binary64.Readable d) :
    Spells d.scientific.toList d := by
  obtain ⟨n, exponent⟩ := d
  have hwhole := whole_toDigits n
  have hvalue : Nat.ofDigitChars 10
      ((Nat.toDigits 10 n).take 1 ++ (Nat.toDigits 10 n).drop 1) 0 = n := by
    rw [List.take_append_drop, ofDigitChars_toDigits]
  have hlength := Nat.length_toDigits_pos (b := 10) (n := n)
  have hshort : (Nat.toDigits 10 n).length ≤ 17 :=
    (Nat.length_toDigits_le_iff (by decide) (by decide)).2 hd.digits_lt
  have hleast : -417 < exponent := hd.exponent_gt
  have hmost : exponent ≤ 308 := hd.exponent_le
  have hpower : (exponent + (Nat.toDigits 10 n).length - 1).natAbs ≤ maxExponent := by
    rw [show maxExponent = 2147483647 from rfl]
    omega
  have hspells := spells_scientific (hwhole.take (toDigits_ne_zero hpos) 0)
    (fun c hc => hwhole.digits c (List.mem_of_mem_drop hc))
    (by rw [hvalue]; exact le_maxWord_of_lt hd.digits_lt) hpower
  have hstart : exponent + (Nat.toDigits 10 n).length - 1 - ((Nat.toDigits 10 n).drop 1).length =
      exponent := by
    rw [List.length_drop]
    omega
  rw [hvalue, hstart] at hspells
  rw [toList_scientific]
  exact hspells

/-- Data text is read as the decimal that it spells. -/
theorem spells_dataBody (hpos : 0 < d.digits) (hd : Binary64.Readable d) :
    Spells (dataBody d).toList d.spelled := by
  have hspelled := (Binary64.readable_spelled hd).digits_lt
  have hwidth := Decimal.width_pos d.digits
  rw [dataBody, Decimal.spelled] at *
  by_cases hmiddle : -5 < d.exponent + Decimal.width d.digits ∧
      d.exponent + Decimal.width d.digits ≤ 16
  · by_cases hexp : 0 ≤ d.exponent
    · rw [if_pos ⟨hexp, hmiddle.2⟩] at hspelled
      rw [if_pos hmiddle, if_pos hexp, if_pos ⟨hexp, hmiddle.2⟩]
      exact spells_whole hpos hexp hspelled
    · rw [if_pos hmiddle, if_neg hexp, if_neg (fun h => hexp h.1)]
      exact spells_fraction hpos hd.digits_lt (Int.not_le.1 hexp)
  · have hlarge : ¬(0 ≤ d.exponent ∧ d.exponent + Decimal.width d.digits ≤ 16) := by omega
    rw [if_neg hmiddle, if_neg hlarge]
    exact spells_powers hpos hd

end HeapLatency.JsonScan
