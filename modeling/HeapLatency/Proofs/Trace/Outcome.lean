import HeapLatency.Proofs.Text.Encoding
import HeapLatency.Proofs.Text.Lines
import HeapLatency.Trace.Parse

/-!
# The outcome of reading a trace

What reading gives for any bytes at all. Each line has at most one fault, which depends on its
position and its bytes alone, and the first fault in the order of the lines is the outcome. Only
without any fault does it matter whether the preamble is complete.
-/

namespace HeapLatency.Trace

/-! ## Single lines -/

/-- The row on a line: its text without the blanks at both ends, if any of it is left. -/
def rowOf? (line : Bytes) : Option (List Char) :=
  ((Utf8.decode? line).map trim).filter (· ≠ [])

theorem rowOf?_eq_some_iff {line : Bytes} {row : List Char} :
    rowOf? line = some row ↔ row ≠ [] ∧ ∃ text, line = Utf8.encode text ∧ trim text = row := by
  rw [rowOf?, Option.filter_eq_some_iff, Option.map_eq_some_iff, and_comm, decide_eq_true_eq]
  simp only [Utf8.decode?_eq_some_iff]

/-- The fault of a row on the line with a number. -/
def rowFault? (number : Nat) (row : List Char) : Option TraceError :=
  match Row.parse row with
  | .error reason => some (.malformed number row reason)
  | .ok _ => none

/-- The fault of the line at a position, counted from zero. The preamble has only to be text. -/
def lineFault? (position : Nat) (line : Bytes) : Option TraceError :=
  if Utf8.decode? line = none then some (.unreadable .invalidUtf8)
  else if position < 2 then none
  else (rowOf? line).bind (rowFault? (position + 1))

/-- The row on a line with its event. -/
def entryOf? (line : Bytes) : Option (List Char × Event) :=
  (rowOf? line).bind fun row => (Row.parse row).toOption.map fun event => (row, event)

theorem rowFault?_eq_some_iff {number : Nat} {row : List Char} {fault : TraceError} :
    rowFault? number row = some fault ↔
      ∃ reason, Row.parse row = .error reason ∧ fault = .malformed number row reason := by
  unfold rowFault?
  cases Row.parse row <;> simp [eq_comm]

theorem lineFault?_eq_unreadable_iff {position : Nat} {line : Bytes} {cause : Fault} :
    lineFault? position line = some (.unreadable cause) ↔
      cause = .invalidUtf8 ∧ Utf8.decode? line = none := by
  unfold lineFault?
  by_cases htext : Utf8.decode? line = none
  · simp [htext, eq_comm]
  · by_cases hposition : position < 2 <;>
      simp [htext, hposition, Option.bind_eq_some_iff, rowFault?_eq_some_iff]

theorem lineFault?_eq_malformed_iff {position number : Nat} {line : Bytes} {row : List Char}
    {reason : RowError} :
    lineFault? position line = some (.malformed number row reason) ↔
      number = position + 1 ∧ 2 ≤ position ∧ rowOf? line = some row ∧
        Row.parse row = .error reason := by
  unfold lineFault?
  by_cases htext : Utf8.decode? line = none
  · simp [htext, rowOf?]
  · by_cases hposition : position < 2
    · simp [htext, hposition, Nat.not_le.2 hposition]
    · rw [if_neg htext, if_neg hposition, Option.bind_eq_some_iff]
      simp only [rowFault?_eq_some_iff]
      constructor
      · rintro ⟨found, hfound, why, hwhy, heq⟩
        cases heq
        exact ⟨rfl, Nat.not_lt.1 hposition, hfound, hwhy⟩
      · rintro ⟨rfl, -, hfound, hwhy⟩
        exact ⟨row, hfound, reason, hwhy, rfl⟩

theorem lineFault?_ne_truncated {position : Nat} {line : Bytes} {count : Nat} :
    lineFault? position line ≠ some (.truncated count) := by
  unfold lineFault?
  by_cases htext : Utf8.decode? line = none
  · simp [htext]
  · by_cases hposition : position < 2 <;>
      simp [htext, hposition, Option.bind_eq_some_iff, rowFault?_eq_some_iff]

/-! ## The first fault -/

/-- The first fault of consecutive lines; `position` is the position of the first line. -/
def firstFault? (position : Nat) : List Bytes → Option TraceError
  | [] => none
  | line :: lines => (lineFault? position line).or (firstFault? (position + 1) lines)

theorem firstFault?_append (position : Nat) (before after : List Bytes) :
    firstFault? position (before ++ after) =
      (firstFault? position before).or (firstFault? (position + before.length) after) := by
  induction before generalizing position with
  | nil => rfl
  | cons line before ih =>
    rw [List.cons_append, firstFault?, firstFault?, ih, Option.or_assoc, List.length_cons]
    congr 3
    omega

theorem firstFault?_eq_some_iff {position : Nat} {lines : List Bytes} {fault : TraceError} :
    firstFault? position lines = some fault ↔
      ∃ index line, lines[index]? = some line ∧
        lineFault? (position + index) line = some fault ∧
        ∀ earlier < index, ∀ other, lines[earlier]? = some other →
          lineFault? (position + earlier) other = none := by
  induction lines generalizing position with
  | nil => simp [firstFault?]
  | cons line lines ih =>
    rw [firstFault?, Option.or_eq_some_iff]
    constructor
    · rintro (hline | ⟨hline, hothers⟩)
      · exact ⟨0, line, rfl, hline, fun earlier h => absurd h (Nat.not_lt_zero earlier)⟩
      · obtain ⟨index, found, hfound, hfault, hearlier⟩ := ih.1 hothers
        refine ⟨index + 1, found, hfound, ?_, ?_⟩
        · rwa [Nat.add_right_comm] at hfault
        · intro earlier hlt other hother
          cases earlier with
          | zero =>
            cases hother
            exact hline
          | succ earlier =>
            rw [← Nat.add_assoc, Nat.add_right_comm]
            exact hearlier earlier (Nat.lt_of_succ_lt_succ hlt) other hother
    · rintro ⟨index, found, hfound, hfault, hearlier⟩
      cases index with
      | zero =>
        cases hfound
        exact Or.inl hfault
      | succ index =>
        refine Or.inr ⟨hearlier 0 (Nat.succ_pos index) line rfl, ih.2 ?_⟩
        refine ⟨index, found, hfound, ?_, ?_⟩
        · rwa [Nat.add_right_comm]
        · intro earlier hlt other hother
          rw [Nat.add_right_comm]
          exact hearlier (earlier + 1) (Nat.succ_lt_succ hlt) other hother

theorem firstFault?_eq_none_iff {position : Nat} {lines : List Bytes} :
    firstFault? position lines = none ↔
      ∀ index line, lines[index]? = some line → lineFault? (position + index) line = none := by
  induction lines generalizing position with
  | nil => simp [firstFault?]
  | cons line lines ih =>
    rw [firstFault?, Option.or_eq_none_iff, ih]
    constructor
    · rintro ⟨hline, hothers⟩ index found hfound
      cases index with
      | zero =>
        cases hfound
        exact hline
      | succ index =>
        rw [← Nat.add_assoc, Nat.add_right_comm]
        exact hothers index found hfound
    · intro h
      refine ⟨h 0 line rfl, ?_⟩
      intro index found hfound
      rw [Nat.add_right_comm]
      exact h (index + 1) found hfound

theorem firstFault?_of_lineFault? {lines : List Bytes} {position : Nat} {line : Bytes}
    {fault : TraceError} (hline : lines[position]? = some line)
    (hfault : lineFault? (0 + position) line = some fault) :
    firstFault? 0 lines = some fault ∨
      ∃ first, firstFault? 0 lines = some first ∧
        ∃ earlier < position, ∃ other, lines[earlier]? = some other ∧
          lineFault? (0 + earlier) other = some first := by
  cases hfirst : firstFault? 0 lines with
  | none =>
    rw [firstFault?_eq_none_iff.1 hfirst position line hline] at hfault
    cases hfault
  | some first =>
    obtain ⟨place, found, hfound, hfoundFault, hbefore⟩ := firstFault?_eq_some_iff.1 hfirst
    rcases Nat.lt_trichotomy place position with hlt | heq | hgt
    · exact Or.inr ⟨first, rfl, place, hlt, found, hfound, hfoundFault⟩
    · subst heq
      rw [hline, Option.some.injEq] at hfound
      subst hfound
      exact Or.inl (hfoundFault ▸ hfault)
    · rw [hbefore position hgt line hline] at hfault
      cases hfault

/-! ## The whole trace -/

theorem rowsFrom_eq {position : Nat} (h : 2 ≤ position) (lines : List Bytes) :
    rowsFrom (position + 1) lines =
      match firstFault? position lines with
      | some fault => .error fault
      | none => .ok (lines.filterMap entryOf?) := by
  induction lines generalizing position with
  | nil => rfl
  | cons line lines ih =>
    have hrest := ih (Nat.le_succ_of_le h)
    rw [rowsFrom, firstFault?, lineFault?, if_neg (Nat.not_lt.2 h)]
    cases htext : Utf8.decode? line with
    | none => rfl
    | some text =>
      by_cases hblank : trim text = []
      · have hrow : rowOf? line = none := by simp [rowOf?, htext, hblank]
        have hentry : entryOf? line = none := by rw [entryOf?, hrow, Option.bind_none]
        simp only [hblank, List.isEmpty_nil, if_true, hrest, hrow, reduceCtorEq, if_false,
          Option.bind_none, Option.none_or, List.filterMap_cons, hentry]
      · have hrow : rowOf? line = some (trim text) := by simp [rowOf?, htext, hblank]
        have hkept : (trim text).isEmpty = false := by simpa using hblank
        simp only [hkept, Bool.false_eq_true, if_false, reduceCtorEq, hrow, Option.bind_some]
        cases hparse : Row.parse (trim text) with
        | error reason => simp [rowFault?, hparse]
        | ok event =>
          have hentry : entryOf? line = some (trim text, event) := by
            simp [entryOf?, hrow, hparse, Except.toOption]
          simp only [rowFault?, hparse, Option.none_or, hrest, List.filterMap_cons, hentry]
          cases firstFault? (position + 1) lines <;> rfl

theorem firstFault?_preamble {position : Nat} {lines : List Bytes}
    (h : position + lines.length ≤ 2) :
    firstFault? position lines =
      if lines.any fun line => (Utf8.decode? line).isNone then some (.unreadable .invalidUtf8)
      else none := by
  induction lines generalizing position with
  | nil => rfl
  | cons line lines ih =>
    rw [List.length_cons] at h
    have hposition : position < 2 := by omega
    rw [firstFault?, lineFault?, if_pos hposition, ih (by omega), List.any_cons]
    cases Utf8.decode? line <;> simp

theorem firstFault?_split (lines : List Bytes) :
    firstFault? 0 lines = (firstFault? 0 (lines.take 2)).or (firstFault? 2 (lines.drop 2)) := by
  rw [← List.take_append_drop 2 lines, firstFault?_append, List.take_append_drop, Nat.zero_add]
  by_cases h : 2 ≤ lines.length
  · rw [List.length_take_of_le h]
  · rw [List.drop_eq_nil_of_le (by omega)]
    rfl

theorem parse_eq (bytes : Bytes) :
    parse bytes =
      match firstFault? 0 (linesOf bytes) with
      | some fault => .error fault
      | none =>
        if (linesOf bytes).length < 2 then .error (.truncated (linesOf bytes).length)
        else
          .ok
            { events := (((linesOf bytes).drop 2).filterMap entryOf?).map (·.2)
              unrecognized :=
                (((linesOf bytes).drop 2).filterMap entryOf?).countP fun row =>
                  !Row.isRecognized row.1 } := by
  have htake : 0 + ((linesOf bytes).take 2).length ≤ 2 := by
    rw [Nat.zero_add]
    exact List.length_take_le 2 _
  simp only [parse, preamble]
  rw [firstFault?_split, firstFault?_preamble htake, rowsFrom_eq (Nat.le_refl 2)]
  by_cases hpreamble : ((linesOf bytes).take 2).any fun line => (Utf8.decode? line).isNone
  · simp only [hpreamble, if_true]
    rfl
  · simp only [hpreamble]
    cases firstFault? 2 ((linesOf bytes).drop 2) with
    | some fault => rfl
    | none =>
      by_cases hshort : (linesOf bytes).length < 2
      · simp only [hshort, if_true]
        rfl
      · simp only [hshort, if_false]
        rfl

theorem parse_eq_error_iff {bytes : Bytes} {fault : TraceError} :
    parse bytes = .error fault ↔
      firstFault? 0 (linesOf bytes) = some fault ∨
        firstFault? 0 (linesOf bytes) = none ∧ (linesOf bytes).length < 2 ∧
          fault = .truncated (linesOf bytes).length := by
  rw [parse_eq]
  cases firstFault? 0 (linesOf bytes) with
  | some first => simp
  | none => by_cases hshort : (linesOf bytes).length < 2 <;> simp [hshort, eq_comm]

theorem map_events_parse_eq_ok_iff {bytes : Bytes} {events : List Event} :
    (parse bytes).map Trace.events = .ok events ↔
      firstFault? 0 (linesOf bytes) = none ∧ 2 ≤ (linesOf bytes).length ∧
        events = (((linesOf bytes).drop 2).filterMap entryOf?).map (·.2) := by
  rw [parse_eq]
  cases firstFault? 0 (linesOf bytes) with
  | some first => simp [Except.map]
  | none =>
    by_cases hshort : (linesOf bytes).length < 2
    · simp [Except.map, hshort, Nat.not_le.2 hshort]
    · simp [Except.map, hshort, Nat.not_lt.1 hshort, eq_comm]

/-! ## Outcomes in terms of lines -/

/-- The line at a position holds a row that is no event. -/
def MalformedAt (lines : List Bytes) (position : Nat) (row : List Char) (reason : RowError) :
    Prop :=
  2 ≤ position ∧
    ∃ line, lines[position]? = some line ∧ rowOf? line = some row ∧ Row.parse row = .error reason

/-- Some line is no text, and no line before it holds a row that is no event. -/
def UnreadableFirst (lines : List Bytes) : Prop :=
  ∃ position line, lines[position]? = some line ∧ Utf8.decode? line = none ∧
    ∀ earlier < position, ∀ row reason, ¬MalformedAt lines earlier row reason

/-- A line is no text if it is the bytes of none. -/
theorem unreadableFirst_iff {lines : List Bytes} :
    UnreadableFirst lines ↔
      ∃ position line, lines[position]? = some line ∧ (∀ text, line ≠ Utf8.encode text) ∧
        ∀ earlier < position, ∀ row reason, ¬MalformedAt lines earlier row reason := by
  simp only [UnreadableFirst, Utf8.decode?_eq_none_iff]

theorem malformedAt_iff {lines : List Bytes} {position number : Nat} {row : List Char}
    {reason : RowError} :
    (number = position + 1 ∧ MalformedAt lines position row reason) ↔
      ∃ line, lines[position]? = some line ∧
        lineFault? (0 + position) line = some (.malformed number row reason) := by
  simp only [MalformedAt, lineFault?_eq_malformed_iff, Nat.zero_add]
  constructor
  · rintro ⟨hnumber, hle, line, hline, hrow⟩
    exact ⟨line, hline, hnumber, hle, hrow⟩
  · rintro ⟨line, hline, hnumber, hle, hrow⟩
    exact ⟨hnumber, hle, line, hline, hrow⟩

theorem not_malformedAt_of_no_fault {lines : List Bytes} {position : Nat} {row : List Char}
    {reason : RowError}
    (h : ∀ line, lines[position]? = some line → lineFault? (0 + position) line = none) :
    ¬MalformedAt lines position row reason := by
  intro hmalformed
  obtain ⟨line, hline, hfault⟩ := malformedAt_iff.1 ⟨rfl, hmalformed⟩
  rw [h line hline] at hfault
  cases hfault

/-- The first fault is that a line is no text, unless a malformed row stands before it. -/
theorem firstFault?_eq_unreadable_iff {lines : List Bytes} {cause : Fault} :
    firstFault? 0 lines = some (.unreadable cause) ↔
      cause = .invalidUtf8 ∧ UnreadableFirst lines := by
  constructor
  · intro h
    obtain ⟨position, line, hline, hfault, hearlier⟩ := firstFault?_eq_some_iff.1 h
    obtain ⟨rfl, htext⟩ := lineFault?_eq_unreadable_iff.1 hfault
    refine ⟨rfl, position, line, hline, htext, ?_⟩
    intro earlier hlt row reason
    exact not_malformedAt_of_no_fault (hearlier earlier hlt)
  · rintro ⟨rfl, position, line, hline, htext, hearlier⟩
    have hfault : lineFault? (0 + position) line = some (.unreadable .invalidUtf8) :=
      lineFault?_eq_unreadable_iff.2 ⟨rfl, htext⟩
    obtain hfirst | ⟨first, hfirst, place, hlt, other, hother, hotherFault⟩ :=
      firstFault?_of_lineFault? hline hfault
    · exact hfirst
    · cases first with
      | unreadable cause => rw [hfirst, (lineFault?_eq_unreadable_iff.1 hotherFault).1]
      | truncated count => exact absurd hotherFault lineFault?_ne_truncated
      | malformed number row reason =>
        have hplace := malformedAt_iff.2 ⟨other, hother, hotherFault⟩
        exact absurd hplace.2 (hearlier place hlt row reason)

theorem firstFault?_eq_malformed_iff {lines : List Bytes} {number : Nat} {row : List Char}
    {reason : RowError} :
    firstFault? 0 lines = some (.malformed number row reason) ↔
      ¬UnreadableFirst lines ∧ ∃ position, number = position + 1 ∧
        MalformedAt lines position row reason ∧
        ∀ earlier < position, ∀ row reason, ¬MalformedAt lines earlier row reason := by
  constructor
  · intro h
    refine ⟨?_, ?_⟩
    · intro hunreadable
      have hother := firstFault?_eq_unreadable_iff.2 ⟨rfl, hunreadable⟩
      rw [h] at hother
      cases hother
    · obtain ⟨position, line, hline, hfault, hearlier⟩ := firstFault?_eq_some_iff.1 h
      obtain ⟨hnumber, hmalformed⟩ := malformedAt_iff.2 ⟨line, hline, hfault⟩
      refine ⟨position, hnumber, hmalformed, ?_⟩
      intro earlier hlt row reason
      exact not_malformedAt_of_no_fault (hearlier earlier hlt)
  · rintro ⟨hreadable, position, hnumber, hmalformed, hearlier⟩
    obtain ⟨line, hline, hfault⟩ := malformedAt_iff.1 ⟨hnumber, hmalformed⟩
    obtain hfirst | ⟨first, hfirst, place, hlt, other, hother, hotherFault⟩ :=
      firstFault?_of_lineFault? hline hfault
    · exact hfirst
    · cases first with
      | unreadable cause => exact absurd (firstFault?_eq_unreadable_iff.1 hfirst).2 hreadable
      | truncated count => exact absurd hotherFault lineFault?_ne_truncated
      | malformed number found why =>
        have hplace := malformedAt_iff.2 ⟨other, hother, hotherFault⟩
        exact absurd hplace.2 (hearlier place hlt found why)

theorem firstFault?_ne_truncated {lines : List Bytes} {count : Nat} :
    firstFault? 0 lines ≠ some (.truncated count) := by
  intro h
  obtain ⟨place, found, -, hfault, -⟩ := firstFault?_eq_some_iff.1 h
  exact lineFault?_ne_truncated hfault

theorem firstFault?_zero_eq_none_iff {lines : List Bytes} :
    firstFault? 0 lines = none ↔
      ¬UnreadableFirst lines ∧ ∀ position row reason, ¬MalformedAt lines position row reason := by
  constructor
  · intro h
    refine ⟨?_, ?_⟩
    · intro hunreadable
      have hother := firstFault?_eq_unreadable_iff.2 ⟨rfl, hunreadable⟩
      rw [h] at hother
      cases hother
    · intro position row reason
      exact not_malformedAt_of_no_fault (firstFault?_eq_none_iff.1 h position)
  · rintro ⟨hreadable, hwellFormed⟩
    cases hfirst : firstFault? 0 lines with
    | none => rfl
    | some first =>
      cases first with
      | unreadable cause => exact absurd (firstFault?_eq_unreadable_iff.1 hfirst).2 hreadable
      | truncated count => exact absurd hfirst firstFault?_ne_truncated
      | malformed number row reason =>
        obtain ⟨-, position, -, hmalformed, -⟩ := firstFault?_eq_malformed_iff.1 hfirst
        exact absurd hmalformed (hwellFormed position row reason)

theorem map_parse_filterMap_rowOf? {lines : List Bytes}
    (h : ∀ line ∈ lines, ∀ row, rowOf? line = some row → ∀ reason, Row.parse row ≠ .error reason) :
    (lines.filterMap rowOf?).map Row.parse = ((lines.filterMap entryOf?).map (·.2)).map .ok := by
  induction lines with
  | nil => rfl
  | cons line lines ih =>
    have hothers := ih fun other hother => h other (List.mem_cons_of_mem line hother)
    cases hrow : rowOf? line with
    | none =>
      have hentry : entryOf? line = none := by rw [entryOf?, hrow, Option.bind_none]
      rw [List.filterMap_cons_none hrow, List.filterMap_cons_none hentry, hothers]
    | some row =>
      cases hparse : Row.parse row with
      | error reason => exact absurd hparse (h line List.mem_cons_self row hrow reason)
      | ok event =>
        have hentry : entryOf? line = some (row, event) := by
          simp [entryOf?, hrow, hparse, Except.toOption]
        rw [List.filterMap_cons_some hrow, List.filterMap_cons_some hentry, List.map_cons,
          List.map_cons, List.map_cons, hparse, hothers]

theorem map_parse_rows {lines : List Bytes}
    (h : ∀ position row reason, ¬MalformedAt lines position row reason) :
    ((lines.drop 2).filterMap rowOf?).map Row.parse =
      (((lines.drop 2).filterMap entryOf?).map (·.2)).map .ok := by
  apply map_parse_filterMap_rowOf?
  intro line hline row hrow reason hreason
  obtain ⟨index, hindex⟩ := List.getElem?_of_mem hline
  rw [List.getElem?_drop] at hindex
  exact h (2 + index) row reason ⟨Nat.le_add_right 2 index, line, hindex, hrow, hreason⟩

/-- Reading a trace has one of four outcomes, and which of them follows from its lines. A line
that is no text comes before everything but an earlier malformed row, the first malformed row
before a missing preamble. An error tells the number of the line in the whole file; otherwise
the events are those of the rows, in their order. -/
theorem parse_outcome (bytes : Bytes) :
    let lines := linesOf bytes
    (∀ cut, Lines.Cut bytes cut ↔ cut = lines) ∧
    (∀ cause, parse bytes = .error (.unreadable cause) ↔
      cause = .invalidUtf8 ∧ UnreadableFirst lines) ∧
    (∀ number row reason, parse bytes = .error (.malformed number row reason) ↔
      ¬UnreadableFirst lines ∧ ∃ position, number = position + 1 ∧
        MalformedAt lines position row reason ∧
        ∀ earlier < position, ∀ row reason, ¬MalformedAt lines earlier row reason) ∧
    (∀ count, parse bytes = .error (.truncated count) ↔
      ¬UnreadableFirst lines ∧ (∀ position row reason, ¬MalformedAt lines position row reason) ∧
        lines.length < 2 ∧ count = lines.length) ∧
    ∀ events, (parse bytes).map Trace.events = .ok events ↔
      ¬UnreadableFirst lines ∧ (∀ position row reason, ¬MalformedAt lines position row reason) ∧
        2 ≤ lines.length ∧
        ((lines.drop 2).filterMap rowOf?).map Row.parse = events.map .ok := by
  intro lines
  refine ⟨fun cut => Lines.cut_iff, ?_, ?_, ?_, ?_⟩
  · intro cause
    rw [parse_eq_error_iff, firstFault?_eq_unreadable_iff]
    simp [lines]
  · intro number row reason
    rw [parse_eq_error_iff, firstFault?_eq_malformed_iff]
    simp [lines]
  · intro count
    rw [parse_eq_error_iff, firstFault?_zero_eq_none_iff]
    simp [lines, firstFault?_ne_truncated, and_assoc]
  · intro events
    rw [map_events_parse_eq_ok_iff, firstFault?_zero_eq_none_iff, and_assoc]
    refine and_congr_right fun _ => and_congr_right fun hwellFormed => and_congr_right fun _ => ?_
    rw [map_parse_rows hwellFormed]
    constructor
    · rintro rfl
      rfl
    · intro h
      exact ((List.map_inj_right fun _ _ => Except.ok.inj).1 h).symm

end HeapLatency.Trace
