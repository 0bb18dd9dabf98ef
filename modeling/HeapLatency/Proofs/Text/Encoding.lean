import HeapLatency.Proofs.Text.Utf8

/-!
# Text from its own bytes

The bytes of a text are read as its characters, one piece for each, whatever bytes follow. So
nothing of a text is malformed, and either way of decoding gives the text back. Bytes that are read
as a character are the bytes of that character, so strict decoding accepts nothing else.
-/

namespace HeapLatency

namespace Utf8

/-! ## First and later bytes as numbers -/

theorem isTail_iff {b : UInt8} : isTail b = true ↔ 0x80 ≤ b.toNat ∧ b.toNat ≤ 0xBF := by
  simp [isTail, UInt8.le_iff_toNat_le]

theorem tailCount_one {first : UInt8} (hlow : 0xC2 ≤ first.toNat) (hhigh : first.toNat ≤ 0xDF) :
    tailCount first = some 1 := by
  simp only [tailCount, UInt8.le_iff_toNat_le, UInt8.reduceToNat]
  rw [if_neg (by omega), if_pos ⟨hlow, hhigh⟩]

theorem tailCount_two {first : UInt8} (hlow : 0xE0 ≤ first.toNat) (hhigh : first.toNat ≤ 0xEF) :
    tailCount first = some 2 := by
  simp only [tailCount, UInt8.le_iff_toNat_le, UInt8.reduceToNat]
  rw [if_neg (by omega), if_neg (by omega), if_pos ⟨hlow, hhigh⟩]

theorem tailCount_three {first : UInt8} (hlow : 0xF0 ≤ first.toNat) (hhigh : first.toNat ≤ 0xF4) :
    tailCount first = some 3 := by
  simp only [tailCount, UInt8.le_iff_toNat_le, UInt8.reduceToNat]
  rw [if_neg (by omega), if_neg (by omega), if_neg (by omega), if_pos ⟨hlow, hhigh⟩]

/-- A second byte that none of the narrowed ranges leaves out. -/
theorem fitsSecond_of {first second : UInt8} (htail : isTail second = true)
    (hthree : first.toNat = 0xE0 → 0xA0 ≤ second.toNat)
    (hsurrogate : first.toNat = 0xED → second.toNat ≤ 0x9F)
    (hfour : first.toNat = 0xF0 → 0x90 ≤ second.toNat)
    (hlast : first.toNat = 0xF4 → second.toNat ≤ 0x8F) : fitsSecond first second = true := by
  rw [fitsSecond, htail, Bool.true_and]
  simp only [UInt8.le_iff_toNat_le, ← UInt8.toNat_inj, UInt8.reduceToNat]
  split
  · exact decide_eq_true (hthree ‹_›)
  split
  · exact decide_eq_true (hsurrogate ‹_›)
  split
  · exact decide_eq_true (hfour ‹_›)
  split
  · exact decide_eq_true (hlast ‹_›)
  · rfl

theorem readTails_cons {payload count : Nat} {b : UInt8} {rest : Bytes}
    (h : isTail b = true) :
    readTails payload (count + 1) (b :: rest) =
      readTails (payload * 0x40 + b.toNat % 0x40) count rest := by
  rw [readTails, if_pos h]

theorem readPiece_of_tails {first second : UInt8} {count : Nat} {rest : Bytes}
    (hcount : tailCount first = some (count + 1)) (hsecond : fitsSecond first second = true) :
    readPiece first (second :: rest) =
      readTails (firstPayload first (count + 1) * 0x40 + second.toNat % 0x40) count rest := by
  simp only [readPiece, hcount, hsecond, if_true]

/-! ## Pieces of a text -/

/-- A byte of a character after its first, which carries six bits of it. -/
theorem toNat_tail (bits : Nat) : (UInt8.ofNat (bits % 64 + 128)).toNat = bits % 64 + 128 := by
  rw [UInt8.toNat_ofNat']
  omega

theorem isTail_tail (bits : Nat) : isTail (UInt8.ofNat (bits % 64 + 128)) = true := by
  rw [isTail_iff, toNat_tail]
  omega

section Pieces

variable {code : Nat} (rest : Bytes)

theorem readPiece_one (h : code ≤ 127) :
    readPiece (UInt8.ofNat code) rest = (some (Char.ofNat code), rest) := by
  have hfirst : (UInt8.ofNat code).toNat = code := by
    rw [UInt8.toNat_ofNat']
    omega
  have hcount : tailCount (UInt8.ofNat code) = some 0 := by
    rw [tailCount, if_pos]
    rw [UInt8.le_iff_toNat_le, hfirst]
    exact h
  simp only [readPiece, hcount, hfirst]

theorem readPiece_two (hlow : 127 < code) (hhigh : code ≤ 2047) :
    readPiece (UInt8.ofNat (code / 64 % 32 + 192)) (UInt8.ofNat (code % 64 + 128) :: rest) =
      (some (Char.ofNat code), rest) := by
  have hfirst : (UInt8.ofNat (code / 64 % 32 + 192)).toNat = code / 64 + 192 := by
    rw [UInt8.toNat_ofNat']
    omega
  have hcount : tailCount (UInt8.ofNat (code / 64 % 32 + 192)) = some 1 :=
    tailCount_one (by omega) (by omega)
  rw [readPiece_of_tails hcount (fitsSecond_of (isTail_tail code) (by omega) (by omega)
    (by omega) (by omega)), readTails, firstPayload, hfirst, toNat_tail]
  congr 3
  omega

theorem readPiece_three (hlow : 2047 < code) (hhigh : code ≤ 65535)
    (hvalid : code < 0xD800 ∨ 0xDFFF < code) :
    readPiece (UInt8.ofNat (code / 4096 % 16 + 224))
        (UInt8.ofNat (code / 64 % 64 + 128) :: UInt8.ofNat (code % 64 + 128) :: rest) =
      (some (Char.ofNat code), rest) := by
  have hfirst : (UInt8.ofNat (code / 4096 % 16 + 224)).toNat = code / 4096 + 224 := by
    rw [UInt8.toNat_ofNat']
    omega
  have hsecond := toNat_tail (code / 64)
  have hcount : tailCount (UInt8.ofNat (code / 4096 % 16 + 224)) = some 2 :=
    tailCount_two (by omega) (by omega)
  rw [readPiece_of_tails hcount (fitsSecond_of (isTail_tail _) (by omega) (by omega) (by omega)
    (by omega)), readTails_cons (isTail_tail _), readTails, firstPayload, hfirst, hsecond,
    toNat_tail]
  congr 3
  omega

theorem readPiece_four (hlow : 65535 < code) (hhigh : code < 0x110000) :
    readPiece (UInt8.ofNat (code / 262144 % 8 + 240))
        (UInt8.ofNat (code / 4096 % 64 + 128) :: UInt8.ofNat (code / 64 % 64 + 128) ::
          UInt8.ofNat (code % 64 + 128) :: rest) =
      (some (Char.ofNat code), rest) := by
  have hfirst : (UInt8.ofNat (code / 262144 % 8 + 240)).toNat = code / 262144 + 240 := by
    rw [UInt8.toNat_ofNat']
    omega
  have hsecond := toNat_tail (code / 4096)
  have hthird := toNat_tail (code / 64)
  have hcount : tailCount (UInt8.ofNat (code / 262144 % 8 + 240)) = some 3 :=
    tailCount_three (by omega) (by omega)
  have hpayload : firstPayload (UInt8.ofNat (code / 262144 % 8 + 240)) (2 + 1) =
      (code / 262144 + 240) % 8 := by
    rw [← hfirst]
    rfl
  rw [readPiece_of_tails hcount (fitsSecond_of (isTail_tail _) (by omega) (by omega) (by omega)
    (by omega)), readTails_cons (isTail_tail _), readTails_cons (isTail_tail _), readTails,
    hpayload, hsecond, hthird, toNat_tail]
  congr 3
  omega

/-- The bytes of a character are read as that character, and no byte more. -/
theorem readPiece_of_encode (c : Char) :
    ∃ first others, String.utf8EncodeChar c = first :: others ∧
      readPiece first (others ++ rest) = (some c, rest) := by
  have hvalid : c.val.toNat < 0xD800 ∨ 0xDFFF < c.val.toNat ∧ c.val.toNat < 0x110000 := c.valid
  have hchar : Char.ofNat c.val.toNat = c := Char.ofNat_toNat c
  rw [String.utf8EncodeChar.eq_1]
  generalize c.val.toNat = code at hvalid hchar
  subst hchar
  by_cases hone : code ≤ 127
  · rw [if_pos hone]
    exact ⟨_, _, rfl, readPiece_one rest hone⟩
  rw [if_neg hone]
  by_cases htwo : code ≤ 2047
  · rw [if_pos htwo]
    exact ⟨_, _, rfl, readPiece_two rest (by omega) htwo⟩
  rw [if_neg htwo]
  by_cases hthree : code ≤ 65535
  · rw [if_pos hthree]
    exact ⟨_, _, rfl, readPiece_three rest (by omega) hthree (by omega)⟩
  · rw [if_neg hthree]
    exact ⟨_, _, rfl, readPiece_four rest (by omega) (by omega)⟩

end Pieces

theorem encode_cons (c : Char) (text : List Char) :
    encode (c :: text) = String.utf8EncodeChar c ++ encode text := rfl

theorem encode_append (text other : List Char) :
    encode (text ++ other) = encode text ++ encode other :=
  List.flatMap_append

theorem piecesUpTo_encode {limit : Nat} {text : List Char} (h : (encode text).length ≤ limit) :
    piecesUpTo limit (encode text) = text.map some := by
  induction text generalizing limit with
  | nil => cases limit <;> rfl
  | cons c text ih =>
    obtain ⟨first, others, hbytes, hread⟩ := readPiece_of_encode (encode text) c
    rw [encode_cons, hbytes, List.cons_append] at h ⊢
    rw [List.length_cons, List.length_append] at h
    obtain ⟨limit, rfl⟩ : ∃ n, limit = n + 1 := ⟨limit - 1, by omega⟩
    rw [piecesUpTo, hread]
    exact congrArg (some c :: ·) (ih (by omega))

theorem pieces_encode (text : List Char) : pieces (encode text) = text.map some :=
  piecesUpTo_encode (Nat.le_refl _)

theorem decode?_encode (text : List Char) : decode? (encode text) = some text := by
  rw [decode?, pieces_encode]
  induction text with
  | nil => rfl
  | cons c text ih => rw [List.map_cons, List.mapM_cons, ih]; rfl

theorem decodeLenient_encode (text : List Char) : decodeLenient (encode text) = text := by
  rw [decodeLenient, pieces_encode, List.map_map]
  exact List.map_id text

/-! ## Bytes that are a text -/

theorem bounds_of_fitsSecond {first second : UInt8} (h : fitsSecond first second = true) :
    (0x80 ≤ second.toNat ∧ second.toNat ≤ 0xBF) ∧
      (first.toNat = 0xE0 → 0xA0 ≤ second.toNat) ∧ (first.toNat = 0xED → second.toNat ≤ 0x9F) ∧
      (first.toNat = 0xF0 → 0x90 ≤ second.toNat) ∧
      (first.toNat = 0xF4 → second.toNat ≤ 0x8F) := by
  rw [fitsSecond, Bool.and_eq_true, isTail_iff] at h
  obtain ⟨htail, h⟩ := h
  refine ⟨htail, ?_⟩
  simp only [UInt8.le_iff_toNat_le, ← UInt8.toNat_inj, UInt8.reduceToNat] at h
  split at h
  · rw [decide_eq_true_eq] at h
    omega
  split at h
  · rw [decide_eq_true_eq] at h
    omega
  split at h
  · rw [decide_eq_true_eq] at h
    omega
  split at h
  · rw [decide_eq_true_eq] at h
    omega
  · omega

theorem tailCount_cases {first : UInt8} {count : Nat} (h : tailCount first = some count) :
    (count = 0 ∧ first.toNat ≤ 0x7F) ∨
      (count = 1 ∧ 0xC2 ≤ first.toNat ∧ first.toNat ≤ 0xDF) ∨
      (count = 2 ∧ 0xE0 ≤ first.toNat ∧ first.toNat ≤ 0xEF) ∨
      (count = 3 ∧ 0xF0 ≤ first.toNat ∧ first.toNat ≤ 0xF4) := by
  simp only [tailCount, UInt8.le_iff_toNat_le, UInt8.reduceToNat] at h
  split at h
  · cases h
    omega
  split at h
  · cases h
    omega
  split at h
  · cases h
    omega
  split at h
  · cases h
    omega
  · cases h

theorem readTails_succ_eq_some {payload count : Nat} {bytes after : Bytes} {c : Char}
    (h : readTails payload (count + 1) bytes = (some c, after)) :
    ∃ b rest, bytes = b :: rest ∧ isTail b = true ∧
      readTails (payload * 0x40 + b.toNat % 0x40) count rest = (some c, after) := by
  cases bytes with
  | nil => cases h
  | cons b rest =>
    rw [readTails] at h
    split at h
    · exact ⟨b, rest, rfl, ‹_›, h⟩
    · cases h

theorem utf8EncodeChar_ofNat {code : Nat} (h : code < 0xD800 ∨ 0xDFFF < code ∧ code < 0x110000) :
    String.utf8EncodeChar (Char.ofNat code) =
      if code ≤ 0x7F then [UInt8.ofNat code]
      else if code ≤ 0x7FF then
        [UInt8.ofNat (code / 64 % 32 + 192), UInt8.ofNat (code % 64 + 128)]
      else if code ≤ 0xFFFF then
        [UInt8.ofNat (code / 4096 % 16 + 224), UInt8.ofNat (code / 64 % 64 + 128),
          UInt8.ofNat (code % 64 + 128)]
      else
        [UInt8.ofNat (code / 262144 % 8 + 240), UInt8.ofNat (code / 4096 % 64 + 128),
          UInt8.ofNat (code / 64 % 64 + 128), UInt8.ofNat (code % 64 + 128)] := by
  have hcode : (Char.ofNat code).val.toNat = code := by
    rw [Char.ofNat, dif_pos h]
    rfl
  rw [String.utf8EncodeChar.eq_1, hcode]

theorem eq_ofNat_of_toNat {b : UInt8} {n : Nat} (h : b.toNat = n) : b = UInt8.ofNat n := by
  rw [← h, UInt8.ofNat_toNat]

/-- Only the bytes of a character are read as that character. -/
theorem eq_append_of_readPiece {first : UInt8} {rest after : Bytes} {c : Char}
    (h : readPiece first rest = (some c, after)) :
    first :: rest = String.utf8EncodeChar c ++ after := by
  unfold readPiece at h
  split at h
  · cases h
  · rename_i hcount
    have hfirst : first.toNat ≤ 0x7F := by
      have hcases := tailCount_cases hcount
      omega
    cases h
    rw [utf8EncodeChar_ofNat (.inl (by omega)), if_pos hfirst, UInt8.ofNat_toNat]
    rfl
  · cases h
  · rename_i count second others hcount
    split at h
    · rename_i hsecond
      obtain ⟨hsecond, hthree, hsurrogate, hfour, hlast⟩ := bounds_of_fitsSecond hsecond
      obtain ⟨hzero, -⟩ | ⟨hone, hfirst⟩ | ⟨htwo, hfirst⟩ | ⟨hmany, hfirst⟩ :=
        tailCount_cases hcount
      · cases hzero
      · cases hone
        cases h
        rw [firstPayload, utf8EncodeChar_ofNat (.inl (by omega)), if_neg (by omega),
          if_pos (by omega)]
        exact List.cons_eq_cons.2 ⟨eq_ofNat_of_toNat (by omega),
          List.cons_eq_cons.2 ⟨eq_ofNat_of_toNat (by omega), rfl⟩⟩
      · cases htwo
        obtain ⟨third, rest, rfl, hthird, h⟩ := readTails_succ_eq_some h
        rw [isTail_iff] at hthird
        cases h
        rw [firstPayload, utf8EncodeChar_ofNat (by omega), if_neg (by omega), if_neg (by omega),
          if_pos (by omega)]
        exact List.cons_eq_cons.2 ⟨eq_ofNat_of_toNat (by omega),
          List.cons_eq_cons.2 ⟨eq_ofNat_of_toNat (by omega),
            List.cons_eq_cons.2 ⟨eq_ofNat_of_toNat (by omega), rfl⟩⟩⟩
      · cases hmany
        obtain ⟨third, rest, rfl, hthird, h⟩ := readTails_succ_eq_some h
        obtain ⟨fourth, rest, rfl, hfourth, h⟩ := readTails_succ_eq_some h
        rw [isTail_iff] at hthird hfourth
        cases h
        rw [show firstPayload first (2 + 1) = first.toNat % 0x08 from rfl,
          utf8EncodeChar_ofNat (by omega), if_neg (by omega), if_neg (by omega),
          if_neg (by omega)]
        exact List.cons_eq_cons.2 ⟨eq_ofNat_of_toNat (by omega),
          List.cons_eq_cons.2 ⟨eq_ofNat_of_toNat (by omega),
            List.cons_eq_cons.2 ⟨eq_ofNat_of_toNat (by omega),
              List.cons_eq_cons.2 ⟨eq_ofNat_of_toNat (by omega), rfl⟩⟩⟩⟩
    · cases h

theorem eq_encode_of_piecesUpTo {limit : Nat} {bytes : Bytes} {text : List Char}
    (hlimit : bytes.length ≤ limit) (h : piecesUpTo limit bytes = text.map some) :
    bytes = encode text := by
  induction limit generalizing bytes text with
  | zero =>
    rw [List.map_eq_nil_iff.1 h.symm]
    exact List.eq_nil_of_length_eq_zero (Nat.le_zero.1 hlimit)
  | succ limit ih =>
    cases bytes with
    | nil => rw [List.map_eq_nil_iff.1 h.symm, encode, List.flatMap_nil]
    | cons first rest =>
      obtain ⟨piece, after, hread⟩ : ∃ piece after, readPiece first rest = (piece, after) :=
        ⟨_, _, rfl⟩
      have hafter : after.length ≤ rest.length := by
        have hsuffix := readPiece_suffix first rest
        rw [hread] at hsuffix
        exact hsuffix.length_le
      rw [piecesUpTo, hread] at h
      cases text with
      | nil => cases h
      | cons c text =>
        obtain ⟨hpiece, hrest⟩ := List.cons.inj h
        rw [hpiece] at hread
        rw [List.length_cons] at hlimit
        rw [eq_append_of_readPiece hread, encode_cons, ih (by omega) hrest]

theorem mapM_id_eq_some_iff {pieces : List (Option Char)} {text : List Char} :
    pieces.mapM id = some text ↔ pieces = text.map some := by
  induction pieces generalizing text with
  | nil => cases text <;> simp
  | cons piece pieces ih =>
    rw [List.mapM_cons, Option.bind_eq_bind, Option.bind_eq_some_iff]
    constructor
    · rintro ⟨c, rfl, h⟩
      obtain ⟨rest, hrest, h⟩ := Option.bind_eq_some_iff.1 h
      cases h
      rw [ih.1 hrest]
      rfl
    · intro h
      cases text with
      | nil => cases h
      | cons c text =>
        obtain ⟨rfl, hrest⟩ := List.cons.inj h
        exact ⟨c, rfl, Option.bind_eq_some_iff.2 ⟨text, ih.2 hrest, rfl⟩⟩

/-- Strict decoding accepts the bytes of texts, and gives back the text. -/
theorem decode?_eq_some_iff {bytes : Bytes} {text : List Char} :
    decode? bytes = some text ↔ bytes = encode text := by
  constructor
  · intro h
    exact eq_encode_of_piecesUpTo (Nat.le_refl _) (mapM_id_eq_some_iff.1 h)
  · rintro rfl
    exact decode?_encode text

theorem decode?_eq_none_iff {bytes : Bytes} :
    decode? bytes = none ↔ ∀ text, bytes ≠ encode text := by
  simp only [Option.eq_none_iff_forall_ne_some, ne_eq, decode?_eq_some_iff]

end Utf8

end HeapLatency
