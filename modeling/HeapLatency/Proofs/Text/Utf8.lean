import HeapLatency.Text.Utf8
import Mathlib.Algebra.Group.Nat.Defs

/-!
# Characters of one byte

A character below `0x80` is its own byte, and no other character has such a byte. So it is in a
text exactly if its byte is in the bytes of the text, and what is shown of bytes has no such
character that is not among them.
-/

namespace HeapLatency

theorem bytesOf_injective : Function.Injective bytesOf := by
  intro text other h
  have hencoded : text.toList.utf8Encode = other.toList.utf8Encode := congrArg List.toByteArray h
  rw [String.utf8Encode_toList, String.utf8Encode_toList] at hencoded
  exact String.toByteArray_inj.1 hencoded

theorem bytesOf_append (text other : String) :
    bytesOf (text ++ other) = bytesOf text ++ bytesOf other := by
  rw [bytesOf, String.toList_append, Utf8.encode, List.flatMap_append]
  rfl

namespace Utf8

/-! ## Bytes of a text -/

theorem toNat_of_mem_utf8EncodeChar {b : UInt8} {c : Char} (h : b ∈ String.utf8EncodeChar c)
    (hb : b.toNat < 0x80) : c.toNat = b.toNat := by
  -- every byte of a longer character has its highest bit set
  have hval : c.toNat = c.val.toNat := rfl
  unfold String.utf8EncodeChar at h
  dsimp only at h
  split at h
  case' isFalse => split at h
  case' isFalse.isFalse => split at h
  all_goals
    simp only [List.mem_cons, List.not_mem_nil, or_false, ← UInt8.toNat_inj,
      UInt8.toNat_ofNat'] at h
    omega

theorem mem_of_mem_encode {b : UInt8} {text : List Char} (h : b ∈ encode text)
    (hb : b.toNat < 0x80) : Char.ofNat b.toNat ∈ text := by
  obtain ⟨c, hc, hmem⟩ := List.mem_flatMap.1 h
  rw [← toNat_of_mem_utf8EncodeChar hmem hb, Char.ofNat_toNat]
  exact hc

theorem head?_of_encode {b : UInt8} {text : List Char} (h : (encode text).head? = some b)
    (hb : b.toNat < 0x80) : text.head? = some (Char.ofNat b.toNat) := by
  cases text with
  | nil => cases h
  | cons c text =>
    obtain ⟨first, others, hbytes⟩ :=
      List.exists_cons_of_ne_nil (String.utf8EncodeChar_ne_nil (c := c))
    rw [encode, List.flatMap_cons, hbytes] at h
    have hfirst : first = b := Option.some.inj h
    have hmem : b ∈ String.utf8EncodeChar c := by
      rw [hbytes, hfirst]
      exact List.mem_cons_self
    rw [List.head?_cons, ← toNat_of_mem_utf8EncodeChar hmem hb, Char.ofNat_toNat]

/-! ## The text of bytes -/

theorem readTails_some {payload count : Nat} {bytes after : Bytes} {c : Char}
    (h : readTails payload count bytes = (some c, after)) :
    ∃ value, payload * 0x40 ^ count ≤ value ∧ c = Char.ofNat value := by
  induction count generalizing payload bytes with
  | zero =>
    rw [readTails] at h
    cases h
    exact ⟨payload, by omega, rfl⟩
  | succ count ih =>
    cases bytes with
    | nil =>
      rw [readTails] at h
      cases h
    | cons b bytes =>
      rw [readTails] at h
      split at h
      · obtain ⟨value, hle, hc⟩ := ih h
        refine ⟨value, Nat.le_trans ?_ hle, hc⟩
        rw [Nat.pow_succ', ← Nat.mul_assoc]
        exact Nat.mul_le_mul_right _ (by omega)
      · cases h

theorem readTails_suffix (payload count : Nat) (bytes : Bytes) :
    (readTails payload count bytes).2 <:+ bytes := by
  fun_induction readTails payload count bytes with
  | case1 payload rest => exact List.suffix_refl _
  | case2 payload count => exact List.suffix_refl _
  | case3 payload count b rest htail ih => exact ih.trans (List.suffix_cons b rest)
  | case4 payload count b rest htail => exact List.suffix_refl _

theorem readPiece_suffix (first : UInt8) (rest : Bytes) :
    (readPiece first rest).2 <:+ rest := by
  unfold readPiece
  split
  · exact List.suffix_refl _
  · exact List.suffix_refl _
  · exact List.suffix_refl _
  · split
    · exact (readTails_suffix _ _ _).trans (List.suffix_cons _ _)
    · exact List.suffix_refl _

theorem eq_of_toNat_ofNat {value n : Nat} (h : (Char.ofNat value).toNat = n) (hn : n ≠ 0) :
    value = n := by
  by_cases hvalid : value.isValidChar
  · rw [Char.ofNat, dif_pos hvalid] at h
    exact h
  · rw [Char.ofNat, dif_neg hvalid] at h
    exact absurd h.symm hn

/-- No character of several bytes stands for what a single byte does. -/
theorem le_payload {first second : UInt8} {count : Nat}
    (hcount : tailCount first = some (count + 1)) (hsecond : fitsSecond first second = true) :
    0x80 ≤ (firstPayload first (count + 1) * 0x40 + second.toNat % 0x40) * 0x40 ^ count := by
  have hfirst := first.toNat_lt
  rw [fitsSecond, isTail, Bool.and_eq_true, Bool.and_eq_true, decide_eq_true_eq,
    decide_eq_true_eq] at hsecond
  obtain ⟨⟨hlow, hhigh⟩, hsecond⟩ := hsecond
  unfold tailCount at hcount
  simp only [UInt8.le_iff_toNat_le, ← UInt8.toNat_inj, UInt8.reduceToNat] at *
  split at hcount
  · cases hcount
  split at hcount
  · cases hcount
    show 0x80 ≤ (first.toNat % 0x20 * 0x40 + second.toNat % 0x40) * 1
    omega
  split at hcount
  · cases hcount
    show 0x80 ≤ (first.toNat % 0x10 * 0x40 + second.toNat % 0x40) * 0x40
    by_cases hzero : first.toNat = 0xE0
    · rw [if_pos hzero, decide_eq_true_eq] at hsecond
      omega
    · omega
  split at hcount
  · cases hcount
    show 0x80 ≤ (first.toNat % 0x08 * 0x40 + second.toNat % 0x40) * 0x1000
    by_cases hzero : first.toNat = 0xF0
    · rw [if_neg (by omega), if_neg (by omega), if_pos hzero, decide_eq_true_eq] at hsecond
      omega
    · omega
  · cases hcount

theorem readPiece_ascii {first : UInt8} {rest after : Bytes} {c : Char}
    (h : readPiece first rest = (some c, after)) (hc : c.toNat < 0x80) (hne : c.toNat ≠ 0) :
    first.toNat = c.toNat := by
  unfold readPiece at h
  split at h
  · cases h
  · cases h
    exact eq_of_toNat_ofNat rfl hne
  · cases h
  · rename_i count second others hcount
    split at h
    · rename_i hsecond
      obtain ⟨value, hle, rfl⟩ := readTails_some h
      have hvalue : value = (Char.ofNat value).toNat := eq_of_toNat_ofNat rfl hne
      have hpayload := le_payload hcount hsecond
      omega
    · cases h

theorem mem_of_mem_piecesUpTo {limit : Nat} {bytes : Bytes} {c : Char}
    (h : some c ∈ piecesUpTo limit bytes) (hc : c.toNat < 0x80) (hne : c.toNat ≠ 0) :
    UInt8.ofNat c.toNat ∈ bytes := by
  induction limit generalizing bytes with
  | zero => cases h
  | succ limit ih =>
    cases bytes with
    | nil => cases h
    | cons first rest =>
      rw [piecesUpTo] at h
      rcases List.mem_cons.1 h with hpiece | hlater
      · have hfirst := readPiece_ascii (Prod.ext hpiece.symm rfl) hc hne
        rw [← hfirst, UInt8.ofNat_toNat]
        exact List.mem_cons_self
      · exact List.mem_cons_of_mem first ((readPiece_suffix first rest).subset (ih hlater))

theorem mem_of_mem_decodeLenient {bytes : Bytes} {c : Char} (h : c ∈ decodeLenient bytes)
    (hc : c.toNat < 0x80) (hne : c.toNat ≠ 0) : UInt8.ofNat c.toNat ∈ bytes := by
  obtain ⟨piece, hpiece, rfl⟩ := List.mem_map.1 h
  cases piece with
  | none => exact absurd hc (by decide)
  | some c => exact mem_of_mem_piecesUpTo hpiece hc hne

end Utf8

end HeapLatency
