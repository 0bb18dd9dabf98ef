import HeapLatency.Proofs.Chart.Drawing

/-!
# Words of a chart

What a reader makes of the drawing of a chart does not depend on its words: the tags are those of
the same chart without words, and the words are found as texts, as they were given. This holds as
long as the labels along the horizontal axis, which are drawn as they are, have no character that
marks structure.
-/

namespace HeapLatency.Chart

open Markup Svg

/-- The chart without its words. -/
def wordless (chart : Chart) : Chart :=
  { chart with
    title := ""
    xLabel := ""
    yLabel := ""
    series := chart.series.map fun series => { series with label := "" }
    tickLabels := chart.tickLabels.map fun _ => "" }

@[simp] theorem xBins_wordless (chart : Chart) : chart.wordless.xBins = chart.xBins := rfl

@[simp] theorem yBins_wordless (chart : Chart) : chart.wordless.yBins = chart.yBins := rfl

@[simp] theorem isHeatMap_wordless (chart : Chart) :
    chart.wordless.isHeatMap = chart.isHeatMap := rfl

theorem series_wordless (chart : Chart) :
    chart.wordless.series = chart.series.map fun series => { series with label := "" } := rfl

theorem histograms_wordless (chart : Chart) : chart.wordless.histograms = chart.histograms := by
  rw [histograms, wordless, List.map_map]
  rfl

theorem barValues_wordless (chart : Chart) : barValues chart.wordless = barValues chart := by
  rw [barValues, barValues, histograms_wordless]
  rfl

theorem jointHistogram?_wordless (chart : Chart) :
    chart.wordless.jointHistogram? = chart.jointHistogram? := by
  rw [jointHistogram?, jointHistogram?, yBins_wordless, series_wordless]
  cases chart.yBins with
  | none => rfl
  | some yBins => rcases chart.series with _ | ⟨x, _ | ⟨y, _ | ⟨z, others⟩⟩⟩ <;> rfl

theorem EachPlaced.wordless {chart : Chart} (h : chart.EachPlaced) :
    chart.wordless.EachPlaced := by
  rw [EachPlaced, series_wordless]
  exact List.forall_mem_map.2 h

theorem PairsPlaced.wordless {chart : Chart} (h : chart.PairsPlaced) :
    chart.wordless.PairsPlaced := by
  intro yBins x y haxis hseries
  rw [series_wordless] at hseries
  obtain ⟨first, others, hfirst, rfl, hothers⟩ := List.map_eq_cons_iff.1 hseries
  obtain ⟨second, rest, rfl, rfl, hrest⟩ := List.map_eq_cons_iff.1 hothers
  rw [List.map_eq_nil_iff.1 hrest] at hfirst
  exact h yBins first second haxis hfirst

theorem shownBars_wordless (chart : Chart) :
    shownBars chart.wordless = (shownBars chart).map fun shown => { shown with label := "" } := by
  rw [shownBars, shownBars, barValues_wordless, series_wordless, List.zip_map_left, List.zipIdx_map,
    List.flatMap_map]
  simp only [apply_ite (List.map _), List.map_nil, List.map_flatMap, List.map_filterMap,
    apply_ite (Option.map _), Option.map_none, Option.map_some]
  rfl

theorem ticks_map (f : String → String) (labels : List String) :
    ticks (labels.map f) = (ticks labels).map fun tick => (f tick.1, tick.2) := by
  rw [ticks, ticks, List.length_map, List.zipIdx_map, List.filter_map]
  rfl

theorem shownTicks_wordless (chart : Chart) :
    shownTicks chart.wordless = (shownTicks chart).map fun tick => ("", tick.2) := by
  have htake : chart.wordless.tickLabels.take chart.wordless.xBins.binCount =
      (chart.tickLabels.take chart.xBins.binCount).map fun _ => "" := List.map_take.symm
  rw [shownTicks, shownTicks, htake, ticks_map]

theorem tags_titledRect (x y width height : Binary64) (fill title : String) :
    tags (titledRect x y width height fill title) =
      tags (titledRect x y width height fill "") := by
  rw [titledRect, titledRect, tags_cons, tags_cons]
  simp only [List.flatMap_cons, List.flatMap_nil, tags_cons, tags_text]

theorem tags_bar (scale : LogScale) (chart : Chart) (frame : Frame) (greatest : Binary64)
    (label : String) (position bin : Nat) (value : Binary64) :
    tags (bar scale chart.wordless frame greatest "" position bin value) =
      tags (bar scale chart frame greatest label position bin value) := by
  have hlength : chart.wordless.series.length = chart.series.length := List.length_map _
  rw [bar, bar, barRect, barRect, xBins_wordless, hlength]
  exact (tags_titledRect _ _ _ _ _ _).trans (tags_titledRect _ _ _ _ _ _).symm

theorem flatMap_tags_bars (scale : LogScale) (chart : Chart) (frame : Frame) :
    (bars scale chart.wordless frame).flatMap tags = (bars scale chart frame).flatMap tags := by
  rw [bars_eq, bars_eq, shownBars_wordless, barValues_wordless, List.map_map, List.flatMap_map,
    List.flatMap_map]
  exact congrArg (fun f => (shownBars chart).flatMap f)
    (funext fun shown => tags_bar scale chart frame _ _ _ _ _)

theorem flatMap_tags_legend (chart : Chart) (frame : Frame) :
    (legend chart.wordless frame).flatMap tags = (legend chart frame).flatMap tags := by
  rw [legend, legend, series_wordless, List.zipIdx_map, List.flatMap_map, List.flatMap_assoc,
    List.flatMap_assoc]
  congr 1
  funext entry
  simp only [legendEntry, List.flatMap_cons, List.flatMap_nil, tags_cons, tags_text]
  rfl

theorem flatMap_tags_axes (scale : LogScale) (chart : Chart) (frame : Frame) :
    (axes scale chart.wordless frame).flatMap tags = (axes scale chart frame).flatMap tags := by
  rw [axes, axes, shownTicks_wordless]
  simp only [axisNames, columnText, Function.comp_apply, List.flatMap_append, List.flatMap_map,
    List.map_map, List.flatMap_cons, List.flatMap_nil, tags_cons, tags_text, tags_verbatim]
  rfl

theorem flatMap_tags_plot (scale : LogScale) (frame : Frame) (chart : Chart) :
    (plot scale frame chart.wordless).flatMap tags = (plot scale frame chart).flatMap tags := by
  rw [plot, plot, isHeatMap_wordless, jointHistogram?_wordless]
  split
  · rfl
  · rw [List.flatMap_append, List.flatMap_append, flatMap_tags_bars, flatMap_tags_legend]

/-- The words of a chart leave no trace in the tags of its drawing. -/
theorem tags_drawing_wordless (scale : LogScale) (canvas : Canvas) (chart : Chart) :
    tags (chart.wordless.drawing scale canvas) = tags (chart.drawing scale canvas) := by
  rw [drawing, drawing, tags_cons, tags_cons]
  simp only [List.flatMap_cons, List.flatMap_append, flatMap_tags_plot, flatMap_tags_axes,
    tags_cons, tags_text, List.flatMap_nil]

/-! ## Reading a drawing -/

/-- A reader makes out the tokens of a text: one element around everything, whose parts are nested,
and a tag for each opening bracket. -/
structure ReadsAs (text : String) (tokens : List Token) : Prop where
  read : Markup.read text = some tokens
  root : ∃ attributes inner,
    tokens = .opening "svg" attributes :: (inner ++ [.closing "svg"]) ∧ Nested inner
  brackets : text.toList.count '<' = (tagsOf tokens).length

theorem Plotted.wordless {chart : Chart} (h : chart.Plotted) : chart.wordless.Plotted where
  series := by
    rw [series_wordless]
    exact fun hnil => h.series (List.map_eq_nil_iff.1 hnil)
  bars hkind := (h.bars hkind).wordless
  cells hkind := by
    obtain ⟨hplaced, hjoint⟩ := h.cells hkind
    rw [yBins_wordless, jointHistogram?_wordless]
    exact ⟨hplaced.wordless, hjoint⟩

theorem readsAs_drawing (scale : LogScale) (canvas : Canvas) {chart : Chart}
    (hticks : ∀ tick ∈ shownTicks chart, Literal tick.1.toList) :
    ReadsAs (chart.drawing scale canvas).render (chart.drawing scale canvas).tokens := by
  have hregular := regular_drawing scale canvas hticks
  exact ⟨hregular.read, ⟨_, _, tokens_cons _ _ _ _, hregular.nested⟩, hregular.count_lt⟩

/-- The words of a chart have no part in the structure of its drawing: it is one element, whose
tags and opening brackets are those of the chart without words, and every word is found as the
whole text of an element. -/
theorem words_stay_texts {scale : LogScale} {canvas : Canvas} {chart : Chart} {text : String}
    (hticks : ∀ tick ∈ shownTicks chart, Literal tick.1.toList)
    (h : chart.toSvg scale canvas = .ok text) :
    ∃ tokens, ReadsAs text tokens ∧ textsOf tokens = chart.drawnTexts ∧
      ∃ blank blankTokens, chart.wordless.toSvg scale canvas = .ok blank ∧
        ReadsAs blank blankTokens ∧ tagsOf tokens = tagsOf blankTokens ∧
        text.toList.count '<' = blank.toList.count '<' := by
  obtain ⟨hplotted, rfl⟩ := toSvg_eq_ok_iff.1 h
  have hreads := readsAs_drawing scale canvas hticks
  have hblank : ∀ tick ∈ shownTicks chart.wordless, Literal tick.1.toList := by
    rw [shownTicks_wordless]
    exact List.forall_mem_map.2 fun _ _ => (by decide : Literal "".toList)
  have hblankReads := readsAs_drawing scale canvas hblank
  have htags : tagsOf (chart.drawing scale canvas).tokens =
      tagsOf (chart.wordless.drawing scale canvas).tokens :=
    (tags_drawing_wordless scale canvas chart).symm
  refine ⟨_, hreads, ?_, _, _, toSvg_eq_ok_iff.2 ⟨hplotted.wordless, rfl⟩, hblankReads, htags, ?_⟩
  · rw [(regular_drawing scale canvas hticks).textsOf, texts_drawing]
  · rw [hreads.brackets, hblankReads.brackets, htags]

/-- A chart of one bar with the given label along its axis. -/
def lettered (tick : String) : Chart where
  kind := .combined
  stem := "lettered"
  title := "</text> & \"more\""
  xLabel := "a < b"
  yLabel := "&amp;"
  series := [⟨"<rect/>", [1]⟩]
  xBins := ⟨[0, 2], 2, false⟩
  yBins := none
  tickLabels := [tick]
  density := false

theorem plotted_lettered (tick : String) : (lettered tick).Plotted :=
  ⟨List.cons_ne_nil _ _, fun _ => eachPlaced_of_pos Nat.one_pos, nofun⟩

theorem words_stay_texts_sample :
    (∀ tick ∈ shownTicks (lettered "> 2"), Literal tick.1.toList) ∧
      ∃ text tokens, (lettered "> 2").toSvg ⟨id, id⟩ {} = .ok text ∧ ReadsAs text tokens ∧
        textsOf tokens =
          [(["svg", "style"], Svg.style), (["svg", "text"], "</text> & \"more\""),
            (["svg", "rect", "title"], "<rect/> [0, 2): 1"), (["svg", "text"], "<rect/>"),
            (["svg", "text"], "> 2"), (["svg", "text"], "a < b"), (["svg", "text"], "&amp;")] := by
  have hticks : ∀ tick ∈ shownTicks (lettered "> 2"), Literal tick.1.toList :=
    List.forall_mem_singleton.2 (by decide)
  have htext : (lettered "> 2").toSvg ⟨id, id⟩ {} = .ok _ :=
    toSvg_eq_ok_iff.2 ⟨plotted_lettered "> 2", rfl⟩
  obtain ⟨tokens, hreads, htexts, -⟩ := words_stay_texts hticks htext
  exact ⟨hticks, _, tokens, htext, hreads, htexts.trans (by decide +kernel)⟩

/-- A label along the axis is drawn as it is: one that looks like a tag becomes one, and is not
found among the texts. -/
theorem labels_become_markup :
    ∃ text tokens, (lettered "<b/>").toSvg ⟨id, id⟩ {} = .ok text ∧
      Markup.read text = some tokens ∧ .single "b" [] ∈ tagsOf tokens ∧
      (["svg", "text"], "<b/>") ∉ textsOf tokens := by
  have hfound : (readFrom .content ((lettered "<b/>").drawing ⟨id, id⟩ {}).chars).any
      (fun tokens => (tagsOf tokens).contains (.single "b" []) &&
        !(textsOf tokens).contains (["svg", "text"], "<b/>")) = true := by
    decide +kernel
  obtain ⟨tokens, htokens, hmem⟩ := (Option.any_eq_true _ _).1 hfound
  rw [Bool.and_eq_true, Bool.not_eq_true', ← Bool.not_eq_true, List.contains_iff_mem,
    List.contains_iff_mem] at hmem
  obtain ⟨htag, htext⟩ := hmem
  refine ⟨_, tokens, toSvg_eq_ok_iff.2 ⟨plotted_lettered "<b/>", rfl⟩, ?_, htag, htext⟩
  rw [Markup.read, toList_render]
  exact htokens

end HeapLatency.Chart
