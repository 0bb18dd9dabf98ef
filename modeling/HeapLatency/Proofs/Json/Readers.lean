import HeapLatency.Proofs.Json.Numbers
import HeapLatency.Proofs.Json.Texts

/-!
# Readers of laid out values

What a reader of a known form makes of a value that is written one item a line. A reader takes the
text of the value and no more, and the first part that does not fit decides for the whole.
-/

namespace HeapLatency.JsonScan

/-! ## Texts that are read -/

theorem skipBlanks_append {blanks others : Bytes} {b : UInt8}
    (hblanks : blanks.all isBlankByte = true) (hb : isBlankByte b = false) :
    skipBlanks (blanks ++ b :: others) = b :: others := by
  rw [skipBlanks, List.dropWhile_append_of_pos (List.all_eq_true.1 hblanks), List.dropWhile_cons,
    hb]
  rfl

/-- A reader takes a text, behind any blanks and before whatever goes on with no number, and
gives an outcome. -/
structure Reads {α : Type} (reader : JsonReader α) (text : String) (outcome : Except JsonFault α) :
    Prop where
  head : ∃ b others, bytesOf text = b :: others ∧ isBlankByte b = false ∧ b ≠ byte ']'
  reads : ∀ blanks rest, blanks.all isBlankByte = true → Ends rest →
    reader (blanks ++ (bytesOf text ++ rest)) = outcome.map (·, rest)

theorem Reads.map {α β : Type} {reader : JsonReader α} {text : String}
    {outcome : Except JsonFault α} (h : Reads reader text outcome) (f : α → β) :
    Reads (fun bytes => (reader bytes).map fun (value, rest) => (f value, rest)) text
      (outcome.map f) where
  head := h.head
  reads blanks rest hblanks hrest := by
    rw [h.reads blanks rest hblanks hrest]
    cases outcome <;> rfl

theorem reads_text (text : String) : Reads expectText (Json.quoteText text) (.ok text) where
  head := ⟨_, _, bytesOf_quoteText text, rfl, by decide⟩
  reads blanks rest hblanks hrest := by
    rw [bytesOf_quoteText, List.cons_append, expectText, skipBlanks_append hblanks rfl,
      List.append_assoc]
    show (readText (inside text.toList ++ byte '"' :: rest)).map _ = _
    rw [readText_quoted]
    exact congrArg (fun text => Except.ok (text, rest)) String.ofList_toList

/-! ## Numbers -/

theorem not_blank_of_isDigitByte {b : UInt8} (h : isDigitByte b = true) :
    isBlankByte b = false ∧ b ≠ byte ']' ∧ b ≠ byte '-' ∧ b ≠ byte 'n' := by
  simp only [isDigitByte, Bool.and_eq_true, decide_eq_true_eq, UInt8.le_iff_toNat_le] at h
  have hlow : 48 ≤ b.toNat := h.1
  have hhigh : b.toNat ≤ 57 := h.2
  have hne (d : UInt8) (hd : d.toNat < 48 ∨ 57 < d.toNat) : b ≠ d := by
    rintro rfl
    omega
  refine ⟨?_, hne _ (by decide), hne _ (by decide), hne _ (by decide)⟩
  rw [isBlankByte, beq_false_of_ne (hne 0x20 (by decide)), beq_false_of_ne (hne 0x0A (by decide)),
    beq_false_of_ne (hne 0x09 (by decide)), beq_false_of_ne (hne 0x0D (by decide))]
  rfl

theorem expectNumber_digits {text : List Char} {blanks rest : Bytes}
    (hhead : ∃ c others, text = c :: others ∧ c.isDigit = true)
    (hblanks : blanks.all isBlankByte = true) :
    expectNumber (blanks ++ (single text ++ rest)) = readUnsigned false (single text ++ rest) := by
  obtain ⟨c, others, rfl, hc⟩ := hhead
  have hb := isDigitByte_byte hc
  obtain ⟨hblank, -, hminus, -⟩ := not_blank_of_isDigitByte hb
  rw [single_cons, List.cons_append, expectNumber, skipBlanks_append hblanks hblank]
  simp only
  rw [if_neg hminus, if_pos hb]

theorem expectNumber_minus {blanks rest : Bytes} (hblanks : blanks.all isBlankByte = true) :
    expectNumber (blanks ++ byte '-' :: rest) = readUnsigned true rest := by
  rw [expectNumber, skipBlanks_append hblanks rfl]
  rfl

theorem bytesOf_natText (n : Nat) : bytesOf (natText n) = single (Nat.toDigits 10 n) := by
  rw [bytesOf, natText, String.toList_ofList,
    encode_eq_single (ascii_of_digits (isDigit_toDigits n))]

theorem reads_nat {n : Nat} (h : n ≤ maxWord) : Reads expectNat (natText n) (.ok n) where
  head := by
    obtain ⟨c, others, heq, hc⟩ := (whole_toDigits n).exists_head
    obtain ⟨hblank, hclosing, -⟩ := not_blank_of_isDigitByte (isDigitByte_byte hc)
    exact ⟨byte c, single others, by rw [bytesOf_natText, heq, single_cons], hblank, hclosing⟩
  reads blanks rest hblanks hrest := by
    rw [bytesOf_natText, expectNat,
      expectNumber_digits (whole_toDigits n).exists_head hblanks,
      readUnsigned_whole (whole_toDigits n) (by rwa [ofDigitChars_toDigits]) hrest.digit,
      numberEnd_of_ends hrest, ofDigitChars_toDigits]
    rfl

/-- The decimal that data text spells for a magnitude. -/
def dataDecimal (units : Nat) : Decimal :=
  if units = 0 then ⟨0, -1⟩ else (Binary64.shortest .even units).spelled

section Real

open Binary64 (Held Readable reread)

variable {units : Nat}

theorem readable_dataDecimal (held : Held units) : Readable (dataDecimal units) := by
  rw [dataDecimal]
  split
  · exact Binary64.readable_tenths (by decide)
  · exact Binary64.readable_spelled
      (Binary64.readable_shortest (Nat.pos_of_ne_zero ‹_›) held)

theorem reread_finite (negative : Bool) (held : Held units) :
    reread (.finite negative units held) =
      if negative then -(dataDecimal units).byPowers else (dataDecimal units).byPowers := by
  rw [reread, dataDecimal]
  by_cases hzero : units = 0
  · subst hzero
    rw [if_pos rfl, if_pos rfl, Binary64.byPowers_eq_ofExact (Nat.zero_le _) (by decide)]
    obtain ⟨held', heq⟩ := Binary64.ofExact_zero false (Binary64.placeDen_pos (-1))
    rw [Nat.zero_mul, heq]
    cases negative <;> rfl
  · rw [if_neg hzero, if_neg hzero]

theorem spells_dataDecimal (held : Held units) :
    Spells (if units = 0 then "0.0" else dataBody (Binary64.shortest .even units)).toList
      (dataDecimal units) := by
  rw [dataDecimal]
  split
  · exact spells_tenths (whole_toDigits 0) (by decide)
  · have hpos := Nat.pos_of_ne_zero ‹_›
    exact spells_dataBody (Binary64.printed_shortest .even hpos).digits_pos
      (Binary64.readable_shortest hpos held)

theorem bytesOf_dataText {negative : Bool} {held : Held units} {text : String}
    (h : (Binary64.finite negative units held).dataText? = some text) :
    ∃ body, Spells body (dataDecimal units) ∧
      bytesOf text = (if negative then [byte '-'] else []) ++ single body := by
  rw [dataText?_finite, Option.some.injEq] at h
  refine ⟨_, spells_dataDecimal held, ?_⟩
  rw [← h, bytesOf_append, ← encode_eq_single (spells_dataDecimal held).ascii]
  cases negative <;> rfl

theorem expectNumber_dataText {negative : Bool} {held : Held units} {text : String}
    {blanks rest : Bytes} (h : (Binary64.finite negative units held).dataText? = some text)
    (hblanks : blanks.all isBlankByte = true) (hrest : Ends rest) :
    expectNumber (blanks ++ (bytesOf text ++ rest)) =
      .ok (.real (reread (.finite negative units held)), rest) := by
  obtain ⟨body, hspells, hbytes⟩ := bytesOf_dataText h
  rw [hbytes, reread_finite, ← Binary64.real_eq (readable_dataDecimal held),
    ← hspells.reads negative rest hrest]
  cases negative with
  | false => exact expectNumber_digits hspells.head hblanks
  | true => exact expectNumber_minus hblanks

theorem head_of_dataText {negative : Bool} {held : Held units} {text : String}
    (h : (Binary64.finite negative units held).dataText? = some text) :
    ∃ b others, bytesOf text = b :: others ∧ isBlankByte b = false ∧ b ≠ byte ']' ∧
      b ≠ byte 'n' := by
  obtain ⟨body, hspells, hbytes⟩ := bytesOf_dataText h
  rw [hbytes]
  cases negative with
  | true => exact ⟨byte '-', single body, rfl, rfl, by decide, by decide⟩
  | false =>
    obtain ⟨c, others, rfl, hc⟩ := hspells.head
    obtain ⟨hblank, hclosing, -, hnull⟩ := not_blank_of_isDigitByte (isDigitByte_byte hc)
    exact ⟨byte c, single others, rfl, hblank, hclosing, hnull⟩

end Real

/-- What reading the text of a real number gives. A number that JSON cannot hold is written as
null, which is no number. -/
def rereal (x : Binary64) : Except JsonFault Binary64 :=
  if x.isFinite then .ok x.reread else .error .mismatch

theorem expectReal_null {blanks rest : Bytes} (hblanks : blanks.all isBlankByte = true) :
    expectReal (blanks ++ (bytesOf "null" ++ rest)) = .error .mismatch := by
  show expectReal (blanks ++ byte 'n' :: byte 'u' :: byte 'l' :: byte 'l' :: rest) = _
  rw [expectReal, expectNumber, skipBlanks_append hblanks rfl]
  rfl

theorem exists_dataText {x : Binary64} (h : x.isFinite = true) :
    ∃ negative units held, x = .finite negative units held ∧
      ∃ text, x.dataText? = some text := by
  cases x with
  | finite negative units held =>
    exact ⟨negative, units, held, rfl, _, dataText?_finite negative held⟩
  | infinite negative => cases h
  | nan => cases h

theorem dataText?_of_not_finite {x : Binary64} (h : x.isFinite = false) : x.dataText? = none := by
  cases x with
  | finite negative units held => cases h
  | infinite negative => rfl
  | nan => rfl

theorem reads_real (x : Binary64) : Reads expectReal (Json.real x).scalarText (rereal x) := by
  rw [Json.scalarText, rereal]
  cases hx : x.isFinite with
  | true =>
    obtain ⟨negative, units, held, rfl, text, htext⟩ := exists_dataText hx
    obtain ⟨b, others, hbytes, hblank, hclosing, -⟩ := head_of_dataText htext
    rw [htext, Option.getD_some]
    refine ⟨⟨b, others, hbytes, hblank, hclosing⟩, fun blanks rest hblanks hrest => ?_⟩
    rw [expectReal, expectNumber_dataText htext hblanks hrest]
    rfl
  | false =>
    rw [dataText?_of_not_finite hx, Option.getD_none]
    exact ⟨⟨_, _, rfl, rfl, by decide⟩, fun blanks rest hblanks hrest => expectReal_null hblanks⟩

/-- A percentage, where an undefined one is written as null. -/
theorem reads_percent {percent : Option Binary64} (h : ∀ x ∈ percent, x.isFinite = true) :
    Reads expectRealOrNull (Json.optional .real percent).scalarText
      (.ok (percent.map Binary64.reread)) := by
  cases percent with
  | none =>
    refine ⟨⟨_, _, rfl, rfl, by decide⟩, fun blanks rest hblanks hrest => ?_⟩
    show expectRealOrNull (blanks ++ byte 'n' :: byte 'u' :: byte 'l' :: byte 'l' :: rest) = _
    rw [expectRealOrNull, skipBlanks_append hblanks rfl]
    rfl
  | some x =>
    have hx := h x rfl
    have hreads := reads_real x
    obtain ⟨negative, units, held, rfl, text, htext⟩ := exists_dataText hx
    obtain ⟨b, others, hbytes, hblank, hclosing, hnull⟩ := head_of_dataText htext
    refine ⟨hreads.head, fun blanks rest hblanks hrest => ?_⟩
    have hread := hreads.reads [] rest rfl hrest
    show expectRealOrNull (blanks ++ (bytesOf (Json.real _).scalarText ++ rest)) = _
    rw [Json.scalarText, htext, Option.getD_some, hbytes, List.cons_append] at hread ⊢
    rw [List.nil_append] at hread
    rw [expectRealOrNull, skipBlanks_append hblanks hblank]
    simp only
    rw [if_neg hnull, hread, rereal, hx]
    rfl

end HeapLatency.JsonScan
