import HeapLatency.Proofs.Chart.Lookups
import HeapLatency.Proofs.Markup.Numbers
import HeapLatency.Proofs.Markup.Rendered

/-!
# Charts as drawings

The drawing of a chart as markup: of which parts it consists, that all of them can be read back,
and which texts it has, the strings of the chart among them.
-/

namespace HeapLatency

open Markup

namespace Svg

/-! ## Shapes -/

theorem plain_places (value : Binary64) : Plain (places value).toList := plain_fixedText 2 value

theorem plain_colorOf (position : Nat) : Plain (colorOf position).toList := by
  have hall : palette.all (fun color => Plain color.toList) = true := by decide
  have hmem : colorOf position ∈ palette := List.mem_of_getElem? (colorOf_eq position)
  exact of_decide_eq_true (List.all_eq_true.1 hall _ hmem)

theorem plain_heatColor (intensity : Binary64) : Plain (heatColor intensity).toList := by
  refine .toList_append (.toList_append (.toList_append (.toList_append (.toList_append
    (.toList_append ?_ ?_) ?_) ?_) ?_) ?_) ?_
  all_goals first | decide | exact plain_natText _

theorem taggable_rect (x y width height : Binary64) {fill : String} (hfill : Plain fill.toList) :
    Taggable "rect" [("x", places x), ("y", places y), ("width", places width),
      ("height", places height), ("fill", fill)] :=
  .cons rfl (plain_places x) (.cons rfl (plain_places y) (.cons rfl (plain_places width)
    (.cons rfl (plain_places height) (.cons rfl hfill (.nil rfl)))))

theorem regular_titledRect (x y width height : Binary64) {fill : String}
    (hfill : Plain fill.toList) (title : String) :
    Regular (titledRect x y width height fill title) :=
  .elements (taggable_rect x y width height hfill)
    (List.forall_mem_singleton.2 (.text (.nil rfl) title))

theorem regular_line (x1 y1 x2 y2 : Binary64) : Regular (line x1 y1 x2 y2) :=
  .empty (.cons rfl (plain_places x1) (.cons rfl (plain_places y1) (.cons rfl (plain_places x2)
    (.cons rfl (plain_places y2) (.cons rfl (by decide) (.nil rfl))))))

/-! ## Bars -/

structure ShownBar where
  label : String
  position : Nat
  bin : Nat
  value : Binary64

/-- The bars that are drawn, series by series and bin by bin. -/
def shownBars (chart : Chart) : List ShownBar :=
  let values := barValues chart
  if values.flatten.foldl Binary64.max 0 ≤ 0 then []
  else
    (chart.series.zip values).zipIdx.flatMap fun ((series, values), position) =>
      values.zipIdx.filterMap fun (value, bin) =>
        if value ≤ 0 then none else some ⟨series.label, position, bin, value⟩

def ShownBar.title (chart : Chart) (shown : ShownBar) : String :=
  shown.label ++ " [" ++ edgeText (chart.xBins.edge shown.bin) ++ ", " ++
    edgeText (chart.xBins.edge (shown.bin + 1)) ++ "): " ++ shown.value.plainText

theorem bars_eq (scale : LogScale) (chart : Chart) (frame : Frame) :
    bars scale chart frame =
      (shownBars chart).map fun shown =>
        bar scale chart frame ((barValues chart).flatten.foldl Binary64.max 0) shown.label
          shown.position shown.bin shown.value := by
  rw [bars, shownBars]
  simp only [group, apply_ite (List.map _), List.map_nil, List.map_flatMap, List.map_filterMap,
    apply_ite (Option.map _), Option.map_none, Option.map_some]

/-! ## Cells -/

structure ShownCell where
  x : Nat
  y : Nat
  count : Nat

/-- The cells that are drawn, column by column. -/
def shownCells (joint : JointHistogram) : List ShownCell :=
  joint.counts.zipIdx.flatMap fun (column, x) =>
    column.zipIdx.filterMap fun (count, y) =>
      if count = 0 then none else some ⟨x, y, count⟩

def ShownCell.title (shown : ShownCell) : String := natText shown.count ++ " ops"

def ShownCell.rect (chart : Chart) (yBins : BinSpec) (joint : JointHistogram) (frame : Frame)
    (shown : ShownCell) : Markup :=
  cellRect frame chart.xBins.binCount yBins.binCount joint.maxCount shown.x shown.y shown.count

theorem cells_eq (chart : Chart) (yBins : BinSpec) (joint : JointHistogram) (frame : Frame) :
    cells chart yBins joint frame =
      if joint.maxCount = 0 then []
      else (shownCells joint).map (ShownCell.rect chart yBins joint frame) ++
        (ticks yBins.labels).map fun tick => rowText frame yBins.binCount tick.1 tick.2 := by
  rw [cells, shownCells]
  simp only [List.map_flatMap, List.map_filterMap, apply_ite (Option.map _), Option.map_none,
    Option.map_some]
  rfl

/-! ## Parts that are read back -/

theorem regular_bars {scale : LogScale} {chart : Chart} {frame : Frame} {part : Markup}
    (h : part ∈ bars scale chart frame) : Regular part := by
  rw [bars_eq] at h
  obtain ⟨shown, -, rfl⟩ := List.mem_map.1 h
  exact regular_titledRect _ _ _ _ (plain_colorOf shown.position) _

theorem regular_legend {chart : Chart} {frame : Frame} {part : Markup}
    (h : part ∈ legend chart frame) : Regular part := by
  obtain ⟨⟨series, position⟩, -, hpart⟩ := List.mem_flatMap.1 h
  rcases List.mem_cons.1 hpart with rfl | hpart
  · exact .empty (.cons rfl (plain_places _) (.cons rfl (plain_places _) (.cons rfl (by decide)
      (.cons rfl (by decide) (.cons rfl (plain_colorOf position) (.cons rfl (by decide)
        (.nil rfl)))))))
  · rw [List.mem_singleton.1 hpart]
    exact .text (.cons rfl (plain_places _) (.cons rfl (plain_places _) (.nil rfl))) _

theorem regular_cells {chart : Chart} {yBins : BinSpec} {joint : JointHistogram} {frame : Frame}
    {part : Markup} (h : part ∈ cells chart yBins joint frame) : Regular part := by
  rw [cells_eq] at h
  split at h
  · cases h
  · rcases List.mem_append.1 h with h | h
    · obtain ⟨shown, -, rfl⟩ := List.mem_map.1 h
      exact regular_titledRect _ _ _ _ (plain_heatColor _) _
    · obtain ⟨tick, -, rfl⟩ := List.mem_map.1 h
      exact .text (.cons rfl (plain_places _) (.cons rfl (plain_places _) (.cons rfl (by decide)
        (.cons rfl (by decide) (.nil rfl))))) _

theorem regular_axes {scale : LogScale} {chart : Chart} {frame : Frame} {part : Markup}
    (hticks : ∀ tick ∈ shownTicks chart, Literal tick.1.toList)
    (h : part ∈ axes scale chart frame) : Regular part := by
  have hmiddle : Plain ("rotate(-90 20 " ++ places (frame.top + frame.height / 2) ++ ")").toList :=
    .toList_append (.toList_append (by decide) (plain_places _)) (by decide)
  rw [axes, List.mem_append, List.mem_append] at h
  rcases h with (h | h) | h
  · rcases List.mem_pair.1 h with rfl | rfl
    · exact regular_line _ _ _ _
    · exact regular_line _ _ _ _
  · obtain ⟨tick, htick, rfl⟩ := List.mem_map.1 h
    exact .verbatim (.cons rfl (plain_places _) (.cons rfl (plain_places _) (.cons rfl (by decide)
      (.nil rfl)))) (hticks tick htick)
  · rcases List.mem_pair.1 h with rfl | rfl
    · exact .text (.cons rfl (plain_places _) (.cons rfl (plain_places _) (.cons rfl (by decide)
        (.nil rfl)))) _
    · exact .text (.cons rfl (by decide) (.cons rfl (plain_places _) (.cons rfl (by decide)
        (.cons rfl hmiddle (.nil rfl))))) _

theorem regular_plot {scale : LogScale} {frame : Frame} {chart : Chart} {part : Markup}
    (h : part ∈ plot scale frame chart) : Regular part := by
  unfold plot at h
  split at h
  · split at h
    · exact regular_cells h
    · cases h
  · rcases List.mem_append.1 h with h | h
    · exact regular_bars h
    · exact regular_legend h

end Svg

namespace Chart

open Svg

theorem regular_drawing (scale : LogScale) (canvas : Canvas) {chart : Chart}
    (hticks : ∀ tick ∈ shownTicks chart, Literal tick.1.toList) :
    Regular (chart.drawing scale canvas) := by
  have hview : Plain
      ("0 0 " ++ natText canvas.width ++ " " ++ natText canvas.height).toList :=
    .toList_append (.toList_append (.toList_append (by decide) (plain_natText _)) (by decide))
      (plain_natText _)
  refine .elements (.cons rfl (by decide) (.cons rfl (plain_natText _) (.cons rfl
    (plain_natText _) (.cons rfl hview (.nil rfl))))) ?_
  simp only [List.forall_mem_cons, List.forall_mem_append]
  refine ⟨?_, ?_, ?_, fun part => regular_plot, fun part => regular_axes hticks⟩
  · exact .verbatim (.nil rfl) (by decide)
  · exact .empty (.cons rfl (by decide) (.cons rfl (by decide) (.cons rfl (plain_natText _)
      (.cons rfl (plain_natText _) (.cons rfl (by decide) (.nil rfl))))))
  · exact .text (.cons rfl (plain_natText _) (.cons rfl (by decide) (.cons rfl (by decide)
      (.cons rfl (by decide) (.nil rfl))))) _

/-! ## Texts -/

/-- The texts between the title and the axes, each with the elements around it. -/
def plotTexts (chart : Chart) : List (List String × String) :=
  if chart.isHeatMap then
    match chart.yBins, chart.jointHistogram? with
    | some yBins, some (.ok joint) =>
      if joint.maxCount = 0 then []
      else (shownCells joint).map (fun shown => (["svg", "rect", "title"], shown.title)) ++
        (ticks yBins.labels).map fun tick => (["svg", "text"], tick.1)
    | _, _ => []
  else
    (shownBars chart).map (fun shown => (["svg", "rect", "title"], shown.title chart)) ++
      chart.series.map fun series => (["svg", "text"], series.label)

/-- All texts of a drawing, in the order in which they stand. -/
def drawnTexts (chart : Chart) : List (List String × String) :=
  (["svg", "style"], Svg.style) :: (["svg", "text"], chart.title) ::
    (chart.plotTexts ++
      (shownTicks chart).map (fun tick => (["svg", "text"], tick.1)) ++
      [(["svg", "text"], chart.xLabel), (["svg", "text"], chart.yLabel)])

theorem flatMap_texts_bars (scale : LogScale) (chart : Chart) (frame : Frame) :
    (bars scale chart frame).flatMap (texts ["svg"]) =
      (shownBars chart).map fun shown => (["svg", "rect", "title"], shown.title chart) := by
  rw [bars_eq, List.flatMap_map, List.map_eq_flatMap]
  rfl

theorem flatMap_texts_legend (chart : Chart) (frame : Frame) :
    (legend chart frame).flatMap (texts ["svg"]) =
      chart.series.map fun series => (["svg", "text"], series.label) := by
  have hentries : (legend chart frame).flatMap (texts ["svg"]) =
      chart.series.zipIdx.flatMap fun entry => [(["svg", "text"], entry.1.label)] := by
    rw [legend, List.flatMap_assoc]
    rfl
  rw [hentries, ← List.map_eq_flatMap]
  conv_rhs => rw [← List.zipIdx_map_fst 0 chart.series, List.map_map]
  rfl

theorem flatMap_texts_cells (chart : Chart) (yBins : BinSpec) (joint : JointHistogram)
    (frame : Frame) :
    (cells chart yBins joint frame).flatMap (texts ["svg"]) =
      if joint.maxCount = 0 then []
      else (shownCells joint).map (fun shown => (["svg", "rect", "title"], shown.title)) ++
        (ticks yBins.labels).map fun tick => (["svg", "text"], tick.1) := by
  rw [cells_eq]
  split
  · rfl
  · rw [List.flatMap_append, List.flatMap_map, List.flatMap_map, List.map_eq_flatMap,
      List.map_eq_flatMap]
    rfl

theorem flatMap_texts_axes (scale : LogScale) (chart : Chart) (frame : Frame) :
    (axes scale chart frame).flatMap (texts ["svg"]) =
      (shownTicks chart).map (fun tick => (["svg", "text"], tick.1)) ++
        [(["svg", "text"], chart.xLabel), (["svg", "text"], chart.yLabel)] := by
  rw [axes, List.flatMap_append, List.flatMap_append, List.flatMap_map, List.map_eq_flatMap]
  rfl

theorem flatMap_texts_plot (scale : LogScale) (frame : Frame) (chart : Chart) :
    (plot scale frame chart).flatMap (texts ["svg"]) = chart.plotTexts := by
  rw [plot, plotTexts]
  by_cases hkind : chart.isHeatMap = true
  · rw [if_pos hkind, if_pos hkind]
    cases chart.yBins with
    | none => rfl
    | some yBins =>
      cases chart.jointHistogram? with
      | none => rfl
      | some outcome =>
        cases outcome with
        | error cause => rfl
        | ok joint => exact flatMap_texts_cells chart yBins joint frame
  · rw [if_neg hkind, if_neg hkind, List.flatMap_append, flatMap_texts_bars,
      flatMap_texts_legend]

theorem texts_drawing (scale : LogScale) (canvas : Canvas) (chart : Chart) :
    (chart.drawing scale canvas).texts [] = chart.drawnTexts := by
  rw [drawing, texts, ownText?]
  · simp only
    rw [List.nil_append, textsAll_eq_flatMap, List.flatMap_cons, List.flatMap_cons,
      List.flatMap_cons, List.flatMap_append, flatMap_texts_plot, flatMap_texts_axes, drawnTexts,
      List.append_assoc]
    rfl
  all_goals
    intro content h
    cases h

end Chart

end HeapLatency
