import HeapLatency.Proofs.Bins.Policies
import HeapLatency.Proofs.Chart.Pictures
import HeapLatency.Proofs.Chart.Verdicts

/-!
# Texts along the axes

An axis with many bins shows only some of its labels: the first, and from there every second, every
third and so on, such that there are few enough. The label of the last bin bears the overflow mark.
It is shown when the steps from the first label end on it, as they always do where all labels are
shown.
-/

namespace HeapLatency

open BinSpec (overflowMark markLast)

namespace BinSpec

variable {bins : BinSpec}

/-! ## The last label -/

/-- The label of the last bin, in which everything past the last edge is counted as well. -/
def terminalLabel (bins : BinSpec) : String := edgeText bins.last ++ overflowMark

theorem markLast_concat (labels : List String) (label : String) :
    markLast (labels ++ [label]) = labels ++ [label ++ overflowMark] := by
  induction labels with
  | nil => rfl
  | cons first labels ih =>
    cases labels with
    | nil => rfl
    | cons second others => exact congrArg (first :: ·) ih

theorem length_markLast (labels : List String) : (markLast labels).length = labels.length := by
  fun_induction markLast labels with
  | case1 => rfl
  | case2 label => rfl
  | case3 label labels _ ih => rw [List.length_cons, ih, List.length_cons]

theorem length_labels (bins : BinSpec) : bins.labels.length = bins.binCount := by
  rw [labels, length_markLast, List.length_map, List.length_drop, binCount]

theorem mark_not_mem_edgeText (edge : Binary64) : '+' ∉ (edgeText edge).toList := fun hmem =>
  absurd (Markup.numeric_edgeText edge '+' hmem) (by decide)

theorem edgeText_ne_terminalLabel (edge : Binary64) : edgeText edge ≠ bins.terminalLabel := by
  intro heq
  refine mark_not_mem_edgeText edge ?_
  rw [heq, terminalLabel, String.toList_append]
  exact List.mem_append_right _ (by decide)

/-- Only the last label bears the mark, so it is unlike all others. -/
theorem Sound.exists_labels (h : bins.Sound) :
    ∃ inner, bins.labels = inner ++ [bins.terminalLabel] ∧ bins.terminalLabel ∉ inner := by
  obtain ⟨edges, step, logarithmic⟩ := bins
  obtain ⟨outer, last, rfl⟩ : ∃ outer last, edges = outer ++ [last] := by
    refine (List.eq_nil_or_concat' edges).resolve_left ?_
    rintro rfl
    exact absurd h.two_le (Nat.not_succ_le_zero 1)
  have houter : 1 ≤ outer.length := by
    have htwo := h.two_le
    rw [List.length_append, List.length_singleton] at htwo
    omega
  refine ⟨(outer.drop 1).map edgeText, ?_, fun hmem => ?_⟩
  · rw [labels, terminalLabel, last_concat, List.drop_append_of_le_length houter, List.map_append,
      List.map_singleton, markLast_concat]
  · obtain ⟨edge, -, heq⟩ := List.mem_map.1 hmem
    exact edgeText_ne_terminalLabel edge heq

end BinSpec

namespace Svg

theorem mem_ticks_iff {labels : List String} {label : String} :
    label ∈ (ticks labels).map (·.1) ↔
      ∃ position, labels[position]? = some label ∧ position % tickStride labels.length = 0 := by
  simp only [ticks, List.mem_map, List.mem_filter, List.mem_zipIdx_iff_getElem?,
    decide_eq_true_iff]
  constructor
  · rintro ⟨⟨label, position⟩, ⟨hlabel, hshown⟩, rfl⟩
    exact ⟨position, hlabel, hshown⟩
  · rintro ⟨position, hlabel, hshown⟩
    exact ⟨(label, position), ⟨hlabel, hshown⟩, rfl⟩

/-- A label that stands at the end only is shown when the steps from the first label end on it. -/
theorem mem_ticks_concat_iff {inner : List String} {last : String} (h : last ∉ inner) :
    last ∈ (ticks (inner ++ [last])).map (·.1) ↔
      inner.length % tickStride (inner.length + 1) = 0 := by
  rw [mem_ticks_iff, List.length_append, List.length_singleton]
  constructor
  · rintro ⟨position, hlast, hshown⟩
    have hposition : position = inner.length := by
      rcases Nat.lt_trichotomy position inner.length with hlt | heq | hgt
      · rw [List.getElem?_append_left hlt] at hlast
        exact absurd (List.mem_of_getElem? hlast) h
      · exact heq
      · rw [List.getElem?_eq_none (by
          rw [List.length_append, List.length_singleton]
          exact hgt)] at hlast
        cases hlast
    rwa [hposition] at hshown
  · intro hshown
    exact ⟨inner.length, List.getElem?_concat_length, hshown⟩

theorem terminalLabel_mem_ticks_iff {bins : BinSpec} (h : bins.Sound) :
    bins.terminalLabel ∈ (ticks bins.labels).map (·.1) ↔
      (bins.binCount - 1) % tickStride bins.binCount = 0 := by
  obtain ⟨inner, hlabels, hother⟩ := h.exists_labels
  have hcount : bins.binCount = inner.length + 1 := by
    rw [← BinSpec.length_labels, hlabels, List.length_append, List.length_singleton]
  rw [hlabels, mem_ticks_concat_iff hother, hcount, Nat.add_sub_cancel]

theorem tickStride_of_le {labels : Nat} (h : labels ≤ maxTicks) : tickStride labels = 1 := by
  have hfew : (labels + (maxTicks - 1)) / maxTicks ≤ 1 :=
    Nat.lt_succ_iff.1 (Nat.div_lt_of_lt_mul (by rw [maxTicks] at h ⊢; omega))
  exact Nat.max_eq_right hfew

end Svg

namespace Markup

/-! ## A reader of texts -/

def Token.hasKeys (keys : List String) : Token → Bool
  | .opening _ attributes => attributes.map (·.1) == keys
  | _ => false

/-- The texts of the elements that have the given attributes and no others, in their order. -/
def textsKeyed (keys : List String) : List Token → List String
  | [] => []
  | token :: rest =>
    (if token.hasKeys keys then [String.ofList (charsAhead rest)] else []) ++ textsKeyed keys rest

example : (read "<g a=\"1\">x<b a=\"2\" c=\"3\">y</b><b a=\"4\">z</b></g>").map (textsKeyed ["a"]) =
    some ["x", "z"] := by
  decide

theorem charsAhead_append_of_nil {rest : List Token} (h : charsAhead rest = [])
    (tokens : List Token) : charsAhead (tokens ++ rest) = charsAhead tokens := by
  induction tokens with
  | nil => exact h
  | cons token tokens ih =>
    cases token with
    | char c => exact congrArg (c :: ·) ih
    | opening name attributes => rfl
    | closing name => rfl
    | single name attributes => rfl

theorem textsKeyed_append {keys : List String} {rest : List Token} (h : charsAhead rest = [])
    (tokens : List Token) :
    textsKeyed keys (tokens ++ rest) = textsKeyed keys tokens ++ textsKeyed keys rest := by
  induction tokens with
  | nil => rfl
  | cons token tokens ih =>
    rw [List.cons_append, textsKeyed, textsKeyed, charsAhead_append_of_nil h, ih, List.append_assoc]

theorem textsKeyed_chars (keys : List String) (text : List Char) :
    textsKeyed keys (text.map .char) = [] := by
  induction text with
  | nil => rfl
  | cons c text ih => exact ih

theorem Regular.charsAhead {part : Markup} (h : Regular part) (rest : List Token) :
    charsAhead (part.tokens ++ rest) = [] := by
  cases h <;> rfl

theorem textsKeyed_tokensAll {keys : List String} {parts : List Markup}
    (h : ∀ part ∈ parts, Regular part) {rest : List Token} (hrest : Markup.charsAhead rest = []) :
    textsKeyed keys (tokensAll parts ++ rest) =
      parts.flatMap (fun part => textsKeyed keys part.tokens) ++ textsKeyed keys rest := by
  induction parts with
  | nil => rfl
  | cons part parts ih =>
    have hothers : ∀ other ∈ parts, Regular other := fun other hother =>
      h other (List.mem_cons_of_mem part hother)
    have hahead : Markup.charsAhead (tokensAll parts ++ rest) = [] := by
      cases parts with
      | nil => exact hrest
      | cons next others =>
        rw [tokensAll, List.append_assoc]
        exact (hothers next List.mem_cons_self).charsAhead _
    rw [tokensAll, List.append_assoc, textsKeyed_append hahead, ih hothers, List.flatMap_cons,
      List.append_assoc]

theorem textsKeyed_text (keys : List String) (name : String) (attributes : List (String × String))
    (content : String) :
    textsKeyed keys (tokens (.element name attributes [.text content])) =
      if attributes.map (·.1) = keys then [content] else [] := by
  have hclosing : Markup.charsAhead [.closing name] = [] := rfl
  rw [tokens_cons, tokensAll, tokensAll, tokens, List.append_nil, textsKeyed, charsAhead_append,
    textsKeyed_append hclosing, textsKeyed_chars, String.ofList_toList]
  simp [Token.hasKeys, textsKeyed]

end Markup

namespace Svg

open Markup

/-! ## Ticks -/

/-- The attributes of the texts along the horizontal axis, and of its name. -/
def xTickKeys : List String := ["x", "y", "text-anchor"]

/-- The attributes of the texts along the vertical axis. -/
def yTickKeys : List String := ["x", "y", "text-anchor", "dy"]

/-- The texts along the horizontal axis; its name is written in the same way behind them. -/
def xTickTexts (tokens : List Token) : List String := (textsKeyed xTickKeys tokens).dropLast

/-- The texts along the vertical axis. -/
def yTickTexts (tokens : List Token) : List String := textsKeyed yTickKeys tokens

variable {keys : List String}

theorem ne_tickKeys {others : List String} (hkeys : keys ∈ [xTickKeys, yTickKeys])
    (h : others ≠ xTickKeys ∧ others ≠ yTickKeys) : others ≠ keys := by
  rcases List.mem_pair.1 hkeys with rfl | rfl
  · exact h.1
  · exact h.2

/-- Rectangles, and the titles in them, have other attributes than texts along an axis. -/
theorem textsKeyed_titledRect (hkeys : keys ∈ [xTickKeys, yTickKeys])
    (x y width height : Binary64) (fill title : String) :
    textsKeyed keys (titledRect x y width height fill title).tokens = [] := by
  have hclosing : Markup.charsAhead [.closing "rect"] = [] := rfl
  have hrect : (["x", "y", "width", "height", "fill"] == keys) = false :=
    beq_false_of_ne (ne_tickKeys hkeys (by decide))
  have htitle : [] ≠ keys := ne_tickKeys hkeys (by decide)
  rw [titledRect, tokens_cons, tokensAll, tokensAll, List.append_nil, textsKeyed, Token.hasKeys,
    textsKeyed_append hclosing, textsKeyed_text]
  simp only [List.map_cons, List.map_nil, hrect, if_neg htitle, Bool.false_eq_true, if_false]
  rfl

theorem textsKeyed_of_mem_bars {scale : LogScale} {chart : Chart} {frame : Frame} {part : Markup}
    (hkeys : keys ∈ [xTickKeys, yTickKeys]) (h : part ∈ bars scale chart frame) :
    textsKeyed keys part.tokens = [] := by
  rw [bars_eq] at h
  obtain ⟨shown, -, rfl⟩ := List.mem_map.1 h
  exact textsKeyed_titledRect hkeys _ _ _ _ _ _

theorem textsKeyed_of_mem_legend {chart : Chart} {frame : Frame} {part : Markup}
    (hkeys : keys ∈ [xTickKeys, yTickKeys]) (h : part ∈ legend chart frame) :
    textsKeyed keys part.tokens = [] := by
  obtain ⟨⟨series, position⟩, -, hpart⟩ := List.mem_flatMap.1 h
  rcases List.mem_pair.1 hpart with rfl | rfl
  · rfl
  · have hlabel : ["x", "y"] ≠ keys := ne_tickKeys hkeys (by decide)
    rw [textsKeyed_text, List.map_cons, List.map_cons, List.map_nil, if_neg hlabel]

/-- The texts along the vertical axis stand with the cells, unless there is nothing to show. -/
theorem textsKeyed_cells (hkeys : keys ∈ [xTickKeys, yTickKeys]) (chart : Chart) (yBins : BinSpec)
    (joint : JointHistogram) (frame : Frame) :
    (cells chart yBins joint frame).flatMap (fun part => textsKeyed keys part.tokens) =
      if joint.maxCount = 0 ∨ keys ≠ yTickKeys then [] else (ticks yBins.labels).map (·.1) := by
  rw [cells_eq]
  by_cases hnone : joint.maxCount = 0
  · rw [if_pos hnone, if_pos (Or.inl hnone), List.flatMap_nil]
  · have hcells (shown : ShownCell) :
        textsKeyed keys (shown.rect chart yBins joint frame).tokens = [] :=
      textsKeyed_titledRect hkeys _ _ _ _ _ _
    have hticks (tick : String × Nat) :
        textsKeyed keys (rowText frame yBins.binCount tick.1 tick.2).tokens =
          if yTickKeys = keys then [tick.1] else [] :=
      textsKeyed_text keys _ _ _
    rw [if_neg hnone, List.flatMap_append, List.flatMap_map, List.flatMap_map]
    simp only [hcells, hticks]
    by_cases hy : keys = yTickKeys
    · rw [if_neg (by simp [hnone, hy]), hy]
      simp [List.map_eq_flatMap]
    · rw [if_pos (Or.inr hy)]
      simp [Ne.symm hy]

/-- The texts along the horizontal axis stand with the axes, in front of its name. -/
theorem textsKeyed_axes (hkeys : keys ∈ [xTickKeys, yTickKeys]) (scale : LogScale) (chart : Chart)
    (frame : Frame) :
    (axes scale chart frame).flatMap (fun part => textsKeyed keys part.tokens) =
      if keys = xTickKeys then (shownTicks chart).map (·.1) ++ [chart.xLabel] else [] := by
  have hline (x1 y1 x2 y2 : Binary64) : textsKeyed keys (line x1 y1 x2 y2).tokens = [] := rfl
  have htick (x : Binary64) (label : String) :
      textsKeyed keys (columnText frame x label).tokens =
        if xTickKeys = keys then [label] else [] :=
    textsKeyed_text keys _ _ _
  have hname (x y name : String) :
      textsKeyed keys (tokens (.element "text" [("x", x), ("y", y), ("text-anchor", "middle")]
        [.text name])) = if xTickKeys = keys then [name] else [] :=
    textsKeyed_text keys _ _ _
  have hturned : ["x", "y", "text-anchor", "transform"] ≠ keys := ne_tickKeys hkeys (by decide)
  have hother (x y turn name : String) :
      textsKeyed keys (tokens (.element "text"
        [("x", x), ("y", y), ("text-anchor", "middle"), ("transform", turn)] [.text name])) = [] :=
    (textsKeyed_text keys _ _ _).trans (if_neg hturned)
  rw [axes, List.flatMap_append, List.flatMap_append, List.flatMap_map]
  simp only [axisLines, axisNames, List.flatMap_cons, List.flatMap_nil, hline, htick, hname,
    hother, List.append_nil, List.nil_append]
  by_cases hx : keys = xTickKeys
  · simp [hx, List.map_eq_flatMap]
  · simp [hx, Ne.symm hx]

end Svg

namespace Chart

open Markup Svg

/-! ## Pictures of traces -/

section Drawing

variable {scale : LogScale} {canvas : Canvas} {chart : Chart}

theorem textsKeyed_drawing {keys : List String} (hkeys : keys ∈ [xTickKeys, yTickKeys])
    (hticks : ∀ tick ∈ shownTicks chart, Literal tick.1.toList) :
    textsKeyed keys (chart.drawing scale canvas).tokens =
      (plot scale (.ofCanvas canvas) chart).flatMap (fun part => textsKeyed keys part.tokens) ++
        if keys = xTickKeys then (shownTicks chart).map (·.1) ++ [chart.xLabel] else [] := by
  have hclosing : Markup.charsAhead [.closing "svg"] = [] := rfl
  have hroot : (["xmlns", "width", "height", "viewBox"] == keys) = false :=
    beq_false_of_ne (ne_tickKeys hkeys (by decide))
  have htitle : ["x", "y", "text-anchor", "class"] ≠ keys := ne_tickKeys hkeys (by decide)
  have hstyle : textsKeyed keys (tokens (.element "style" [] [.verbatim Svg.style])) = [] :=
    (textsKeyed_text keys _ _ _).trans (if_neg (ne_tickKeys hkeys (by decide)))
  have hbackground (attributes : List (String × String)) :
      textsKeyed keys (tokens (.element "rect" attributes [])) = [] := rfl
  have hregular := regular_drawing scale canvas hticks
  rw [drawing] at hregular ⊢
  cases hregular with
  | elements h hparts =>
    rw [tokens_cons, textsKeyed, Token.hasKeys, textsKeyed_tokensAll hparts hclosing]
    simp only [List.map_cons, List.map_nil, hroot, Bool.false_eq_true, if_false, List.flatMap_cons,
      List.flatMap_append, hstyle, hbackground, textsKeyed_text, if_neg htitle,
      textsKeyed_axes hkeys, List.nil_append]
    exact List.append_nil _

theorem xTickTexts_drawing (hticks : ∀ tick ∈ shownTicks chart, Literal tick.1.toList) :
    xTickTexts (chart.drawing scale canvas).tokens = (shownTicks chart).map (·.1) := by
  have hkeys : xTickKeys ∈ [xTickKeys, yTickKeys] := List.mem_cons_self
  have hplot : (plot scale (.ofCanvas canvas) chart).flatMap
      (fun part => textsKeyed xTickKeys part.tokens) = [] := by
    rw [plot]
    split
    · split
      · rw [textsKeyed_cells hkeys, if_pos (Or.inr (by decide))]
      · rfl
    · rw [List.flatMap_eq_nil_iff]
      intro part hpart
      rcases List.mem_append.1 hpart with hpart | hpart
      · exact textsKeyed_of_mem_bars hkeys hpart
      · exact textsKeyed_of_mem_legend hkeys hpart
  rw [xTickTexts, textsKeyed_drawing hkeys hticks, hplot, if_pos rfl, List.nil_append,
    List.dropLast_concat]

theorem yTickTexts_drawing {yBins : BinSpec} {joint : JointHistogram}
    (hticks : ∀ tick ∈ shownTicks chart, Literal tick.1.toList) (hkind : chart.isHeatMap = true)
    (haxis : chart.yBins = some yBins) (hjoint : chart.jointHistogram? = some (.ok joint))
    (hsome : joint.maxCount ≠ 0) :
    yTickTexts (chart.drawing scale canvas).tokens = (ticks yBins.labels).map (·.1) := by
  have hkeys : yTickKeys ∈ [xTickKeys, yTickKeys] := List.mem_cons_of_mem _ List.mem_cons_self
  have hplot : plot scale (.ofCanvas canvas) chart =
      cells chart yBins joint (.ofCanvas canvas) := by
    rw [plot, if_pos hkind, haxis, hjoint]
  have hshown : ¬(joint.maxCount = 0 ∨ yTickKeys ≠ yTickKeys) := not_or.2 ⟨hsome, not_not_intro rfl⟩
  rw [yTickTexts, textsKeyed_drawing hkeys hticks, hplot, textsKeyed_cells hkeys, if_neg hshown,
    if_neg (by decide), List.append_nil]

end Drawing

/-- A chart of traces of any kind, be they classified or put together in another way. -/
inductive OfTraces (scale : LogScale) (binning : Binning) : Chart → Prop
  | latencyVsSize {trace : ClassifiedTrace} {operation : Operation} {chart : Chart}
      (h : latencyVsSize binning trace operation = .ok chart) : OfTraces scale binning chart
  | combined {trace : ClassifiedTrace} {chart : Chart}
      (h : combined binning trace = .ok chart) : OfTraces scale binning chart
  | logComparison {token : RunToken} {traces : List (String × ClassifiedTrace)}
      {operation : Operation} {chart : Chart}
      (h : logComparison scale binning token traces operation = .ok chart) :
      OfTraces scale binning chart

/-- What is known of the axes of a chart of traces. Only a heat map has a vertical one with bins,
and it never comes without anything to count. -/
structure Axes (binning : Binning) (chart : Chart) : Prop where
  labels : chart.tickLabels = chart.xBins.labels
  x : chart.xBins.Sound
  y : ∀ yBins ∈ chart.yBins, yBins.Sound ∧ chart.isHeatMap = true
  counted : ∀ joint, chart.jointHistogram? = some (.ok joint) → joint.maxCount ≠ 0
  heatMap : chart.kind = .latencyVsSize → chart.xBins.binCount = binning.heatMapBins - 1 ∧
    ∀ yBins ∈ chart.yBins, yBins.binCount = binning.heatMapBins - 1
  comparison : chart.kind = .logComparison → chart.xBins.binCount = binning.logBins

theorem maxCount_ne_zero {xBins yBins : BinSpec} {x y : List Binary64} {joint : JointHistogram}
    (hx : xBins.Sound) (hy : yBins.Sound) (hne : x ≠ [])
    (h : JointHistogram.ofSeries xBins yBins x y = .ok joint) : joint.maxCount ≠ 0 := by
  intro hnone
  obtain ⟨counted, hcounted, hsum, -⟩ :=
    JointHistogram.sum_counts_ofSeries hx.binCount_pos hy.binCount_pos
      (JointHistogram.length_eq_of_ofSeries h)
  obtain rfl : counted = joint := Except.ok.inj (hcounted.symm.trans h)
  rw [← sum_shownCells, shownCells_eq_nil hnone] at hsum
  exact hne (List.length_eq_zero_iff.1 hsum.symm)

theorem samples_ne_nil_of_meanScaled {samples : List Binary64} {divisions : Nat} {bins : BinSpec}
    (h : BinSpec.meanScaled samples divisions = .ok bins) : samples ≠ [] := by
  obtain ⟨-, mean, hmean, -⟩ := BinSpec.meanScaled_eq_ok_iff.1 h
  rintro rfl
  cases hmean

section OfTraces

variable {scale : LogScale} {binning : Binning} {chart : Chart}

theorem axes_of_noAxis (hlabels : chart.tickLabels = chart.xBins.labels) (hx : chart.xBins.Sound)
    (hnone : chart.yBins = none) (hkind : chart.kind ≠ .latencyVsSize)
    (hcount : chart.kind = .logComparison → chart.xBins.binCount = binning.logBins) :
    Axes binning chart where
  labels := hlabels
  x := hx
  y yBins hy := by
    rw [hnone] at hy
    cases hy
  counted joint hjoint := by
    rw [jointHistogram?_of_noAxis hnone] at hjoint
    cases hjoint
  heatMap h := absurd h hkind
  comparison := hcount

theorem OfTraces.axes (h : OfTraces scale binning chart) : Axes binning chart := by
  cases h with
  | latencyVsSize h =>
    obtain ⟨xBins, yBins, hx, hy, rfl⟩ := latencyVsSize_eq_ok_iff.1 h
    have hxSound := BinSpec.sound_of_meanScaled hx
    have hySound := BinSpec.sound_of_meanScaled hy
    have hcount {samples : List Binary64} {bins : BinSpec}
        (hbins : BinSpec.meanScaled samples binning.heatMapBins = .ok bins) :
        bins.binCount = binning.heatMapBins - 1 := by
      rw [BinSpec.binCount, (BinSpec.edges_of_meanScaled hbins).1]
    refine ⟨rfl, hxSound, ?_, fun joint hjoint => ?_, fun _ => ⟨hcount hx, ?_⟩, fun hkind => ?_⟩
    · rintro bins ⟨⟩
      exact ⟨hySound, rfl⟩
    · exact maxCount_ne_zero hxSound hySound (samples_ne_nil_of_meanScaled hx)
        (Option.some.inj hjoint)
    · rintro bins ⟨⟩
      exact hcount hy
    · cases hkind
  | combined h =>
    obtain ⟨xBins, hx, rfl⟩ := combined_eq_ok_iff.1 h
    have hkind : ChartKind.combined ≠ .latencyVsSize ∧ ChartKind.combined ≠ .logComparison := by
      decide
    exact axes_of_noAxis rfl (BinSpec.sound_of_sharedRange hx) rfl hkind.1 fun h => absurd h hkind.2
  | logComparison h =>
    obtain ⟨xBins, hx, rfl⟩ := logComparison_eq_ok_iff.1 h
    have hkind : ChartKind.logComparison ≠ .latencyVsSize := by decide
    refine axes_of_noAxis rfl (BinSpec.sound_of_logSpan hx) rfl hkind fun _ => ?_
    show xBins.edges.length - 1 = _
    rw [(BinSpec.edges_of_logSpan hx).2.1, Nat.add_sub_cancel]

/-- Of the texts along an axis, the label of the last bin is one exactly when the steps from the
first label end on it, for which it is enough that there are few bins. -/
structure EndsOnMark (bins : BinSpec) (texts : List String) : Prop where
  last : bins.labels.getLast? = some bins.terminalLabel
  shown : bins.terminalLabel ∈ texts ↔ (bins.binCount - 1) % tickStride bins.binCount = 0
  few : bins.binCount ≤ maxTicks → bins.terminalLabel ∈ texts

theorem endsOnMark_ticks {bins : BinSpec} (h : bins.Sound) :
    EndsOnMark bins ((ticks bins.labels).map (·.1)) := by
  obtain ⟨inner, hlabels, -⟩ := h.exists_labels
  refine ⟨?_, terminalLabel_mem_ticks_iff h, fun hfew => ?_⟩
  · rw [hlabels, List.getLast?_concat]
  · rw [terminalLabel_mem_ticks_iff h, tickStride_of_le hfew, Nat.mod_one]

theorem OfTraces.endsOnMark (h : OfTraces scale binning chart) {canvas : Canvas} {text : String}
    (htext : chart.toSvg scale canvas = .ok text) :
    ∃ tokens, Markup.read text = some tokens ∧ EndsOnMark chart.xBins (xTickTexts tokens) ∧
      ∀ yBins ∈ chart.yBins, EndsOnMark yBins (yTickTexts tokens) := by
  obtain ⟨hplotted, rfl⟩ := toSvg_eq_ok_iff.1 htext
  have hticks := literal_shownTicks h.axes.labels
  have hshown : shownTicks chart = ticks chart.xBins.labels := by
    rw [shownTicks, h.axes.labels, ← BinSpec.length_labels, List.take_length]
  refine ⟨_, (readsAs_drawing scale canvas hticks).read, ?_, fun yBins haxis => ?_⟩
  · rw [xTickTexts_drawing hticks, hshown]
    exact endsOnMark_ticks h.axes.x
  · obtain ⟨hsound, hkind⟩ := h.axes.y yBins haxis
    obtain ⟨-, _, joint, -, hjoint⟩ := hplotted.cells hkind
    rw [yTickTexts_drawing hticks hkind haxis hjoint (h.axes.counted joint hjoint)]
    exact endsOnMark_ticks hsound

/-- The overflow mark of an axis is visible exactly where the steps from its first label end on the
last one, so with up to twenty bins it always is. A heat map has one bin less than it is configured
to have divisions, a comparison as many as it is configured to have. -/
theorem overflow_mark_shown_iff (canvas : Canvas) (h : OfTraces scale binning chart) :
    (Built scale binning chart → ∃ text, chart.toSvg scale canvas = .ok text) ∧
    (∀ text, chart.toSvg scale canvas = .ok text →
      ∃ tokens, Markup.read text = some tokens ∧ EndsOnMark chart.xBins (xTickTexts tokens) ∧
        ∀ yBins ∈ chart.yBins, EndsOnMark yBins (yTickTexts tokens)) ∧
    (chart.kind = .latencyVsSize → chart.xBins.binCount = binning.heatMapBins - 1 ∧
      ∀ yBins ∈ chart.yBins, yBins.binCount = binning.heatMapBins - 1) ∧
    (chart.kind = .logComparison → chart.xBins.binCount = binning.logBins) := by
  refine ⟨fun hbuilt => ?_, fun text htext => h.endsOnMark htext, h.axes.heatMap,
    h.axes.comparison⟩
  cases hbuilt with
  | latencyVsSize h => exact (drawable_latencyVsSize scale h).svg canvas
  | combined h => exact (drawable_combined scale h).svg canvas
  | logComparison h => exact (drawable_logComparison h).svg canvas

end OfTraces

/-- With the numbers of the default configuration every other label of a heat map is shown, from the
first of 39 to the last. -/
theorem overflow_mark_shown_iff_sample :
    ∃ heatMap yBins text tokens,
      latencyVsSize {} (.ofEvents "run_first.csv" {} sampleEvents) .malloc = .ok heatMap ∧
      heatMap.yBins = some yBins ∧ heatMap.toSvg ⟨id, id⟩ {} = .ok text ∧
      Markup.read text = some tokens ∧ heatMap.xBins.terminalLabel = "1316250+" ∧
      "1316250+" ∈ xTickTexts tokens ∧ yBins.terminalLabel = "1.46+" ∧
      "1.46+" ∈ yTickTexts tokens := by
  obtain ⟨heatMap, hheatMap, hlabels⟩ : ∃ chart,
      latencyVsSize {} (.ofEvents "run_first.csv" {} sampleEvents) .malloc = .ok chart ∧
      (chart.kind, chart.xBins.terminalLabel, chart.yBins.map (·.terminalLabel)) =
        (.latencyVsSize, "1316250+", some "1.46+") :=
    exists_of_toOption_map (by decide +kernel)
  obtain ⟨hkind, hx, hy⟩ : heatMap.kind = .latencyVsSize ∧
      heatMap.xBins.terminalLabel = "1316250+" ∧
      heatMap.yBins.map (·.terminalLabel) = some "1.46+" := by
    simpa only [Prod.mk.injEq] using hlabels
  obtain ⟨yBins, haxis, hy⟩ := Option.map_eq_some_iff.1 hy
  have htraces : OfTraces ⟨id, id⟩ {} heatMap := .latencyVsSize hheatMap
  obtain ⟨hdrawn, hshown, hcount, -⟩ := overflow_mark_shown_iff {} htraces
  obtain ⟨text, htext⟩ := hdrawn (.latencyVsSize hheatMap)
  obtain ⟨tokens, hread, hxEnd, hyEnd⟩ := hshown text htext
  obtain ⟨hxCount, hyCount⟩ := hcount hkind
  refine ⟨heatMap, yBins, text, tokens, hheatMap, haxis, htext, hread, hx, ?_, hy, ?_⟩
  · rw [← hx, hxEnd.shown, hxCount]
    decide
  · rw [← hy, (hyEnd yBins haxis).shown, hyCount yBins haxis]
    decide

/-- With the numbers of the default configuration every other of the 40 labels of a comparison is
shown, from the first to the last but one, so its overflow mark is not. -/
theorem overflow_mark_unshown :
    ∃ comparison text tokens,
      logComparison ⟨id, id⟩ {} ⟨"run"⟩
        [("tlsf", .ofEvents "run_tlsf.csv" {} sampleEvents),
          ("native", .ofEvents "run_native.csv" {} sampleEvents)] .free = .ok comparison ∧
      comparison.toSvg ⟨id, id⟩ {} = .ok text ∧ Markup.read text = some tokens ∧
      comparison.xBins.labels.getLast? = some "300.50+" ∧ "300.50+" ∉ xTickTexts tokens := by
  obtain ⟨comparison, hcomparison, hlabels⟩ : ∃ chart,
      logComparison ⟨id, id⟩ {} ⟨"run"⟩
        [("tlsf", .ofEvents "run_tlsf.csv" {} sampleEvents),
          ("native", .ofEvents "run_native.csv" {} sampleEvents)] .free = .ok chart ∧
      (chart.kind, chart.xBins.terminalLabel) = (.logComparison, "300.50+") :=
    exists_of_toOption_map (by decide +kernel)
  obtain ⟨hkind, hx⟩ := Prod.mk.inj hlabels
  have htraces : OfTraces ⟨id, id⟩ {} comparison := .logComparison hcomparison
  obtain ⟨text, htext⟩ := (drawable_logComparison hcomparison).svg {}
  obtain ⟨tokens, hread, hend, -⟩ := htraces.endsOnMark htext
  refine ⟨comparison, text, tokens, hcomparison, htext, hread, hx ▸ hend.last, ?_⟩
  rw [← hx, hend.shown, htraces.axes.comparison hkind]
  decide

end Chart

end HeapLatency
