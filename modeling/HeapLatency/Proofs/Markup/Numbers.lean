import HeapLatency.Bins.Spec
import HeapLatency.Proofs.Markup.Reading

/-!
# Numbers in markup

The text of a number has no character that marks structure, so it may stand anywhere in a
document: as the value of an attribute, in a text and, with the labels of bins, unescaped.
-/

namespace HeapLatency.Markup

/-- The characters that numbers are written with: digits, the minus sign, the point, and the letters
of what is not finite. -/
def isNumberChar (c : Char) : Bool := c.isDigit || "-.infNa".toList.contains c

def Numeric (text : List Char) : Prop := ∀ c ∈ text, isNumberChar c = true

instance (text : List Char) : Decidable (Numeric text) := List.decidableBAll _ text

theorem Numeric.plain {text : List Char} (h : Numeric text) : Plain text := by
  intro c hc
  have hchar := h c hc
  refine ⟨?_, ?_, ?_, ?_⟩
  all_goals
    rintro rfl
    exact absurd hchar (by decide)

theorem numeric_of_digits {text : List Char} (h : ∀ c ∈ text, c.isDigit = true) :
    Numeric text := by
  intro c hc
  rw [isNumberChar, h c hc, Bool.true_or]

theorem Numeric.append {text other : List Char} (h : Numeric text) (hother : Numeric other) :
    Numeric (text ++ other) :=
  List.forall_mem_append.2 ⟨h, hother⟩

theorem Numeric.toList_append {text other : String} (h : Numeric text.toList)
    (hother : Numeric other.toList) : Numeric (text ++ other).toList := by
  rw [String.toList_append]
  exact h.append hother

theorem Plain.toList_append {text other : String} (h : Plain text.toList)
    (hother : Plain other.toList) : Plain (text ++ other).toList := by
  rw [String.toList_append]
  exact h.append hother

theorem numeric_toDigits (n : Nat) : Numeric (Nat.toDigits 10 n) :=
  numeric_of_digits fun _ => Nat.isDigit_of_mem_toDigits (by decide) (by decide)

theorem numeric_replicate_zero (n : Nat) : Numeric (List.replicate n '0') := by
  refine numeric_of_digits fun c hc => ?_
  rw [List.eq_of_mem_replicate hc]
  rfl

theorem numeric_natText (n : Nat) : Numeric (natText n).toList := by
  rw [natText, String.toList_ofList]
  exact numeric_toDigits n

theorem numeric_intText (n : Int) : Numeric (intText n).toList := by
  rw [intText]
  refine .toList_append ?_ (numeric_natText _)
  split <;> decide

theorem numeric_fixedText (places : Nat) (value : Binary64) :
    Numeric (value.fixedText places).toList := by
  cases value with
  | finite negative units held =>
    refine .toList_append (.toList_append (.toList_append ?_ (numeric_natText _)) (by decide)) ?_
    · cases negative <;> decide
    · rw [String.toList_ofList]
      exact (numeric_replicate_zero _).append (numeric_toDigits _)
  | infinite negative =>
    have hword : Numeric "inf".toList := by decide
    refine .toList_append ?_ hword
    cases negative <;> decide
  | nan => exact (by decide : Numeric "NaN".toList)

theorem numeric_edgeText (edge : Binary64) : Numeric (edgeText edge).toList := by
  cases edge with
  | finite negative units held =>
    rw [edgeText]
    split
    · exact numeric_intText _
    · exact numeric_fixedText 2 _
  | infinite negative => exact numeric_fixedText 2 _
  | nan => exact numeric_fixedText 2 _

theorem plain_natText (n : Nat) : Plain (natText n).toList := (numeric_natText n).plain

theorem plain_fixedText (places : Nat) (value : Binary64) :
    Plain (value.fixedText places).toList :=
  (numeric_fixedText places value).plain

theorem plain_of_mem_markLast {labels : List String} (h : ∀ label ∈ labels, Plain label.toList) :
    ∀ label ∈ BinSpec.markLast labels, Plain label.toList := by
  induction labels with
  | nil => exact h
  | cons label labels ih =>
    cases labels with
    | nil =>
      exact List.forall_mem_singleton.2 ((h label List.mem_cons_self).toList_append (by decide))
    | cons next others =>
      exact List.forall_mem_cons.2
        ⟨h label List.mem_cons_self, ih fun other hother => h other (List.mem_cons_of_mem _ hother)⟩

theorem plain_of_mem_labels {bins : BinSpec} {label : String} (h : label ∈ bins.labels) :
    Plain label.toList := by
  refine plain_of_mem_markLast (fun other hother => ?_) label h
  obtain ⟨edge, -, rfl⟩ := List.mem_map.1 hother
  exact (numeric_edgeText edge).plain

end HeapLatency.Markup
