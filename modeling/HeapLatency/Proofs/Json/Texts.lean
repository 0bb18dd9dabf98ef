import HeapLatency.Json.Print
import HeapLatency.Json.Scan
import HeapLatency.Proofs.Results
import HeapLatency.Proofs.Text.Encoding

/-!
# Quoted texts

A text that is written between quotes is read back as itself, whatever characters it has. What
needs an escape is told by the first byte; everything else stands for itself.
-/

namespace HeapLatency.JsonScan

open Json (escapeChar quoteText)

/-! ## Escapes -/

theorem escapeChar_control : ∀ n < 0x20, n ∉ [8, 9, 10, 12, 13] →
    bytesOf (escapeChar (Char.ofNat n)) =
      [byte '\\', byte 'u', byte '0', byte '0', byte (Nat.digitChar (n / 16)),
        byte (Nat.digitChar (n % 16))] := by
  decide +kernel

theorem hexValue?_digitChar : ∀ n < 16, hexValue? (byte (Nat.digitChar n)) = some n := by
  decide +kernel

theorem readHex_of_control {n : Nat} (h : n < 0x20) (rest : Bytes) :
    readHex (byte '0' :: byte '0' :: byte (Nat.digitChar (n / 16)) ::
      byte (Nat.digitChar (n % 16)) :: rest) = .ok (n, rest) := by
  rw [readHex, show byte '0' = byte (Nat.digitChar 0) from rfl, hexValue?_digitChar 0 (by decide),
    hexValue?_digitChar (n / 16) (by omega), hexValue?_digitChar (n % 16) (by omega)]
  simp only
  rw [show ((0 * 16 + 0) * 16 + n / 16) * 16 + n % 16 = n by omega]

theorem readUnit_of_control {n : Nat} (h : n < 0x20) (rest : Bytes) :
    readUnit (byte '0' :: byte '0' :: byte (Nat.digitChar (n / 16)) ::
      byte (Nat.digitChar (n % 16)) :: rest) = .ok (Utf8.encode [Char.ofNat n], rest) := by
  have htrailing : isTrailing n = false := by
    rw [isTrailing, decide_eq_false (by omega)]
    rfl
  have hleading : isLeading n = false := by
    rw [isLeading, decide_eq_false (by omega)]
    rfl
  rw [readUnit, readHex_of_control h]
  show (if isTrailing n = true then _ else if isLeading n = true then _ else _) = _
  rw [htrailing, hleading]
  rfl

/-- Characters that are written as an escape. -/
def Escaped (c : Char) : Prop := c = '"' ∨ c = '\\' ∨ c.toNat < 0x20

theorem exists_escape {c : Char} (h : Escaped c) :
    ∃ escape, bytesOf (escapeChar c) = byte '\\' :: escape ∧
      ∀ rest, readEscape true (escape ++ rest) = .ok (Utf8.encode [c], rest) := by
  rcases h with rfl | rfl | hcontrol
  · exact ⟨[byte '"'], by decide +kernel, fun rest => rfl⟩
  · exact ⟨[byte '\\'], by decide +kernel, fun rest => rfl⟩
  obtain ⟨n, hn, rfl⟩ : ∃ n < 0x20, c = Char.ofNat n :=
    ⟨c.toNat, hcontrol, (Char.ofNat_toNat c).symm⟩
  by_cases hshort : n ∈ [8, 9, 10, 12, 13]
  · simp only [List.mem_cons, List.not_mem_nil, or_false] at hshort
    rcases hshort with rfl | rfl | rfl | rfl | rfl
    · exact ⟨[byte 'b'], by decide +kernel, fun rest => rfl⟩
    · exact ⟨[byte 't'], by decide +kernel, fun rest => rfl⟩
    · exact ⟨[byte 'n'], by decide +kernel, fun rest => rfl⟩
    · exact ⟨[byte 'f'], by decide +kernel, fun rest => rfl⟩
    · exact ⟨[byte 'r'], by decide +kernel, fun rest => rfl⟩
  · exact ⟨_, escapeChar_control n hn hshort, readUnit_of_control hn⟩

/-! ## Plain characters -/

theorem bytesOf_escapeChar_of_plain {c : Char} (h : ¬Escaped c) :
    bytesOf (escapeChar c) = Utf8.encode [c] := by
  simp only [Escaped, not_or] at h
  obtain ⟨hquote, hbackslash, hcontrol⟩ := h
  have hne {d : Char} (hd : d.toNat < 0x20) : c ≠ d := by
    rintro rfl
    exact hcontrol hd
  rw [escapeChar, if_neg hquote, if_neg hbackslash, if_neg (hne (by decide)),
    if_neg (hne (by decide)), if_neg (hne (by decide)), if_neg (by omega), if_neg (by omega),
    if_neg hcontrol]
  show Utf8.encode (String.singleton c).toList = _
  rw [String.toList_singleton]

theorem plain_of_mem_encode {c : Char} (h : ¬Escaped c) {b : UInt8} (hb : b ∈ Utf8.encode [c]) :
    b ≠ byte '"' ∧ b ≠ byte '\\' ∧ ¬b < 0x20 := by
  rw [Utf8.encode, List.flatMap_singleton] at hb
  simp only [Escaped, not_or] at h
  obtain ⟨hquote, hbackslash, hcontrol⟩ := h
  have hchar (n : Nat) (hn : n < 0x80) (hbn : b.toNat = n) : c = Char.ofNat n := by
    rw [← hbn, ← Utf8.toNat_of_mem_utf8EncodeChar hb (by omega), Char.ofNat_toNat]
  refine ⟨?_, ?_, ?_⟩
  · rintro rfl
    exact hquote (hchar 34 (by decide) rfl)
  · rintro rfl
    exact hbackslash (hchar 92 (by decide) rfl)
  · intro hlow
    simp only [UInt8.lt_iff_toNat_lt, UInt8.reduceToNat] at hlow
    exact hcontrol (by rw [Utf8.toNat_of_mem_utf8EncodeChar hb (by omega)]; exact hlow)

theorem textFrom_plain (limit : Nat) (reversed : Bytes) {piece : Bytes}
    (h : ∀ b ∈ piece, b ≠ byte '"' ∧ b ≠ byte '\\' ∧ ¬b < 0x20) (rest : Bytes) :
    textFrom true (limit + piece.length) reversed (piece ++ rest) =
      textFrom true limit (piece.reverse ++ reversed) rest := by
  induction piece generalizing reversed with
  | nil => rfl
  | cons b piece ih =>
    obtain ⟨hquote, hbackslash, hcontrol⟩ := h b List.mem_cons_self
    rw [List.length_cons, ← Nat.add_assoc, List.cons_append, textFrom, if_neg hquote,
      if_neg hbackslash, if_neg hcontrol, ih _ fun d hd => h d (List.mem_cons_of_mem _ hd),
      List.reverse_cons, List.append_assoc, List.singleton_append]

/-! ## Texts -/

/-- The bytes of a text between its quotes. -/
def inside (text : List Char) : Bytes := text.flatMap fun c => bytesOf (escapeChar c)

theorem bytesOf_quoteText (text : String) :
    bytesOf (quoteText text) = byte '"' :: (inside text.toList ++ [byte '"']) := by
  have hjoin (chars : List Char) :
      bytesOf (String.join (chars.map escapeChar)) = inside chars := by
    induction chars with
    | nil => rfl
    | cons c chars ih =>
      rw [List.map_cons, String.join_cons, bytesOf_append, ih]
      rfl
  rw [quoteText, bytesOf_append, bytesOf_append, hjoin]
  rfl

/-- A character is read in at most as many steps as it has bytes. -/
theorem textFrom_escapeChar (c : Char) :
    ∃ steps ≤ (bytesOf (escapeChar c)).length, ∀ limit reversed rest,
      textFrom true (limit + steps) reversed (bytesOf (escapeChar c) ++ rest) =
        textFrom true limit ((Utf8.encode [c]).reverse ++ reversed) rest := by
  by_cases h : Escaped c
  · obtain ⟨escape, hbytes, hread⟩ := exists_escape h
    refine ⟨1, by rw [hbytes, List.length_cons]; omega, fun limit reversed rest => ?_⟩
    rw [hbytes, List.cons_append, textFrom, if_neg (by decide), if_pos rfl, hread]
  · rw [bytesOf_escapeChar_of_plain h]
    exact ⟨_, Nat.le_refl _, fun limit reversed rest =>
      textFrom_plain limit reversed (fun b => plain_of_mem_encode h) rest⟩

theorem textFrom_inside (text : List Char) :
    ∃ steps ≤ (inside text).length, ∀ limit reversed rest,
      textFrom true (limit + steps) reversed (inside text ++ rest) =
        textFrom true limit ((Utf8.encode text).reverse ++ reversed) rest := by
  induction text with
  | nil => exact ⟨0, Nat.le_refl 0, fun limit reversed rest => rfl⟩
  | cons c text ih =>
    obtain ⟨first, hfirst, hread⟩ := textFrom_escapeChar c
    obtain ⟨steps, hsteps, hothers⟩ := ih
    have hbytes : inside (c :: text) = bytesOf (escapeChar c) ++ inside text := List.flatMap_cons
    have hcontent : Utf8.encode (c :: text) = Utf8.encode [c] ++ Utf8.encode text :=
      Utf8.encode_append [c] text
    refine ⟨steps + first, by rw [hbytes, List.length_append]; omega,
      fun limit reversed rest => ?_⟩
    rw [hbytes, List.append_assoc, ← Nat.add_assoc, hread, hothers, hcontent, List.reverse_append,
      List.append_assoc]

theorem readText_quoted (text : List Char) (rest : Bytes) :
    readText (inside text ++ byte '"' :: rest) = .ok (text, rest) := by
  obtain ⟨steps, hsteps, hread⟩ := textFrom_inside text
  obtain ⟨limit, hlimit⟩ : ∃ limit, (inside text ++ byte '"' :: rest).length + 1 =
      limit + 1 + steps := by
    refine ⟨(inside text ++ byte '"' :: rest).length - steps, ?_⟩
    rw [List.length_append, List.length_cons]
    omega
  rw [readText, hlimit, hread, textFrom, if_pos rfl, List.append_nil, List.reverse_reverse]
  simp only [bind, Except.bind, Utf8.decode?_encode]
  rfl

end HeapLatency.JsonScan
