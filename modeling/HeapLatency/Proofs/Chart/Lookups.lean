import HeapLatency.Chart.Data
import HeapLatency.Chart.Svg
import HeapLatency.Proofs.Bins.Counting

/-!
# Looking things up

Drawing a chart fails where an edge, a count, a label or a colour is looked up that is not there.
Here the parts of a chart are described as if everything were there, and the drawing is shown to
find all of it wherever samples that are to be counted have bins.
-/

namespace HeapLatency

theorem filterMap_eq_map_filter {α β : Type} (p : α → Prop) [DecidablePred p] (f : α → β)
    (items : List α) :
    (items.filterMap fun a => if p a then none else some (f a)) =
      (items.filter fun a => ¬p a).map f := by
  induction items with
  | nil => rfl
  | cons a items ih => by_cases h : p a <;> simp [h, ih]

theorem inRange_eq_ok {α : Type} {found : Option α} {a : α} (h : found = some a) :
    inRange found = .ok a := by
  rw [h, inRange]

theorem eq_outOfRange_of_inRange {α : Type} {found : Option α} {error : RenderError}
    (h : inRange found = .error error) : error = .outOfRange := by
  cases found with
  | none => exact (Except.error.inj h).symm
  | some a => cases h

namespace Chart

variable {chart : Chart}

/-! ## Counts -/

def histograms (chart : Chart) : List Histogram :=
  chart.series.map fun series => .ofSeries chart.xBins series.values

/-- The counts of two series against each other; absent without a second axis or with any other
number of series. -/
def jointHistogram? (chart : Chart) : Option (Except BinError JointHistogram) :=
  match chart.yBins, chart.series with
  | some yBins, [x, y] => some (JointHistogram.ofSeries chart.xBins yBins x.values y.values)
  | _, _ => none

/-- Each series that has samples has bins for them. -/
def EachPlaced (chart : Chart) : Prop :=
  ∀ series ∈ chart.series, series.values ≠ [] → 0 < chart.xBins.binCount

/-- Two series that are counted against each other have bins for their samples. -/
def PairsPlaced (chart : Chart) : Prop :=
  ∀ yBins x y, chart.yBins = some yBins → chart.series = [x, y] →
    JointHistogram.Placed chart.xBins yBins x.values y.values

theorem eachPlaced_of_pos (h : 0 < chart.xBins.binCount) : chart.EachPlaced := fun _ _ _ => h

theorem pairsPlaced_of_pos (hx : 0 < chart.xBins.binCount)
    (hy : ∀ yBins ∈ chart.yBins, 0 < yBins.binCount) : chart.PairsPlaced :=
  fun yBins _ _ haxis _ _ _ => ⟨hx, hy yBins haxis⟩

theorem inRange_ofSeries {bins : BinSpec} {samples : List Binary64}
    (h : samples ≠ [] → 0 < bins.binCount) :
    inRange (Histogram.ofSeries? bins samples) = .ok (.ofSeries bins samples) :=
  inRange_eq_ok (Histogram.ofSeries?_eq_some_iff.2 ⟨h, rfl⟩)

theorem countEach_eq (h : chart.EachPlaced) : chart.countEach = .ok chart.histograms :=
  mapM_eq_pure fun series hseries => inRange_ofSeries (h series hseries)

theorem exists_ofSeries?_eq_none (h : ¬chart.EachPlaced) :
    ∃ series ∈ chart.series, Histogram.ofSeries? chart.xBins series.values = none := by
  simp only [EachPlaced, not_forall] at h
  obtain ⟨series, hseries, hsome, hbins⟩ := h
  refine ⟨series, hseries, ?_⟩
  cases hcounted : Histogram.ofSeries? chart.xBins series.values with
  | none => rfl
  | some histogram => exact absurd ((Histogram.ofSeries?_eq_some_iff.1 hcounted).1 hsome) hbins

theorem countEach_eq_error (h : ¬chart.EachPlaced) : chart.countEach = .error .outOfRange := by
  obtain ⟨series, hseries, hnone⟩ := exists_ofSeries?_eq_none h
  refine mapM_eq_error ⟨series, hseries, ?_⟩ fun series _ error => eq_outOfRange_of_inRange
  rw [hnone]
  rfl

theorem jointHistogram?_eq {yBins : BinSpec} {x y : LabeledSeries}
    (haxis : chart.yBins = some yBins) (hseries : chart.series = [x, y]) :
    chart.jointHistogram? =
      some (JointHistogram.ofSeries chart.xBins yBins x.values y.values) := by
  rw [jointHistogram?, haxis, hseries]

theorem exists_pairs {outcome : Except BinError JointHistogram}
    (h : chart.jointHistogram? = some outcome) :
    ∃ yBins x y, chart.yBins = some yBins ∧ chart.series = [x, y] ∧
      JointHistogram.ofSeries chart.xBins yBins x.values y.values = outcome := by
  unfold jointHistogram? at h
  split at h
  · rename_i haxis hseries
    exact ⟨_, _, _, haxis, hseries, Option.some.inj h⟩
  · cases h

/-- Without a second axis or two series there is nothing to count against each other. -/
theorem countPairs_eq_none (h : chart.jointHistogram? = none) : chart.countPairs = .ok none := by
  unfold countPairs
  split
  · rename_i haxis hseries
    rw [jointHistogram?_eq haxis hseries] at h
    cases h
  · rfl

theorem countPairs_eq {outcome : Except BinError JointHistogram} (hplaced : chart.PairsPlaced)
    (h : chart.jointHistogram? = some outcome) :
    chart.countPairs = (outcome.mapError RenderError.bins).map some := by
  obtain ⟨yBins, x, y, haxis, hseries, rfl⟩ := exists_pairs h
  have hcounted := JointHistogram.ofSeries?_eq_some_iff.2 ⟨hplaced _ _ _ haxis hseries, rfl⟩
  rw [countPairs, haxis, hseries]
  dsimp only
  rw [inRange_eq_ok hcounted]
  cases JointHistogram.ofSeries chart.xBins yBins x.values y.values <;> rfl

theorem countPairs_eq_error (h : ¬chart.PairsPlaced) : chart.countPairs = .error .outOfRange := by
  simp only [PairsPlaced, not_forall] at h
  obtain ⟨yBins, x, y, haxis, hseries, hbins⟩ := h
  rw [countPairs, haxis, hseries]
  dsimp only
  cases hcounted : JointHistogram.ofSeries? chart.xBins yBins x.values y.values with
  | none => rfl
  | some outcome => exact absurd (JointHistogram.ofSeries?_eq_some_iff.1 hcounted).1 hbins

theorem countPairs_eq_some_iff {joint : JointHistogram} :
    chart.countPairs = .ok (some joint) ↔
      chart.PairsPlaced ∧ chart.jointHistogram? = some (.ok joint) := by
  by_cases hplaced : chart.PairsPlaced
  case neg =>
    rw [countPairs_eq_error hplaced]
    exact iff_of_false (fun h => by cases h) fun h => hplaced h.1
  cases hjoint : chart.jointHistogram? with
  | none =>
    rw [countPairs_eq_none hjoint]
    exact iff_of_false (fun h => by cases h) fun h => by cases h.2
  | some outcome =>
    rw [countPairs_eq hplaced hjoint, map_eq_ok]
    simp [hplaced, mapError_eq_ok]

/-! ## Charts as JSON -/

/-- The JSON form of a series. -/
def seriesRecord (chart : Chart) (series : LabeledSeries) : Json :=
  let histogram := Histogram.ofSeries chart.xBins series.values
  .record ([
    ("label", .text series.label),
    ("samples", .nat series.values.length),
    ("counts", Json.nats histogram.counts),
    ("total", .nat histogram.total)] ++
    if chart.density then [("density", Json.reals (histogram.density chart.xBins))] else [])

theorem inRange_density {bins : BinSpec} (samples : List Binary64) :
    inRange ((Histogram.ofSeries bins samples).density? bins) =
      .ok ((Histogram.ofSeries bins samples).density bins) :=
  inRange_eq_ok (Histogram.density?_eq (length_tally _ _ _))

theorem mapM_seriesJson (h : chart.EachPlaced) :
    chart.series.mapM chart.seriesJson = .ok (chart.series.map chart.seriesRecord) := by
  refine mapM_eq_pure fun series hseries => ?_
  rw [seriesJson, inRange_ofSeries (h series hseries), seriesRecord]
  cases hdensity : chart.density with
  | false => rfl
  | true =>
    show (do
      let densities ← (inRange ((Histogram.ofSeries chart.xBins series.values).density?
        chart.xBins)).map _
      pure _) = _
    rw [inRange_density]
    rfl

theorem mapM_seriesJson_eq_error (h : ¬chart.EachPlaced) :
    chart.series.mapM chart.seriesJson = .error .outOfRange := by
  obtain ⟨series, hseries, hnone⟩ := exists_ofSeries?_eq_none h
  refine mapM_eq_error ⟨series, hseries, ?_⟩ fun series _ error herror => ?_
  · rw [seriesJson, hnone]
    rfl
  · rw [seriesJson, bind_eq_error] at herror
    rcases herror with herror | ⟨histogram, -, herror⟩
    · exact eq_outOfRange_of_inRange herror
    dsimp only at herror
    split at herror
    · rcases bind_eq_error.1 herror with herror | ⟨densities, -, herror⟩
      · exact eq_outOfRange_of_inRange (map_eq_error.1 herror)
      · cases herror
    · cases herror

end Chart

namespace Svg

/-! ## Bars -/

/-- Where a value lies between the first and the last edge, from zero to one. -/
def axisFraction (scale : LogScale) (bins : BinSpec) (value : Binary64) : Binary64 :=
  fraction scale bins.logarithmic bins.first bins.last value

def Frame.xOf (frame : Frame) (scale : LogScale) (bins : BinSpec) (value : Binary64) : Binary64 :=
  frame.left + frame.width * axisFraction scale bins value

theorem across_eq {bins : BinSpec} (h : 0 < bins.binCount) (frame : Frame) (scale : LogScale)
    (value : Binary64) : frame.across scale bins value = .ok (frame.xOf scale bins value) := by
  obtain ⟨hfirst, hlast⟩ := BinSpec.getElem?_ends h
  rw [Frame.across, hfirst, hlast]
  rfl

def colorOf (position : Nat) : String := palette[position % palette.length]?.getD ""

theorem colorOf_eq (position : Nat) :
    palette[position % palette.length]? = some (colorOf position) := by
  have hlt : position % palette.length < palette.length := Nat.mod_lt _ (by decide)
  rw [colorOf, List.getElem?_eq_getElem hlt, Option.getD_some]

theorem colorAt_eq (position : Nat) : colorAt position = .ok (colorOf position) :=
  inRange_eq_ok (colorOf_eq position)

def barValues (chart : Chart) : List (List Binary64) :=
  chart.histograms.map fun histogram =>
    if chart.density then histogram.density chart.xBins
    else histogram.counts.map Binary64.ofNat

theorem length_barValues (chart : Chart) : (barValues chart).length = chart.series.length := by
  rw [barValues, List.length_map, Chart.histograms, List.length_map]

theorem length_of_mem_barValues {chart : Chart} {values : List Binary64}
    (h : values ∈ barValues chart) : values.length = chart.xBins.binCount := by
  rw [barValues, Chart.histograms, List.map_map] at h
  obtain ⟨series, -, rfl⟩ := List.mem_map.1 h
  simp only [Function.comp_apply, Histogram.density]
  split
  · split <;> simp [Histogram.counts_ofSeries]
  · simp [Histogram.counts_ofSeries]

theorem barHeights_eq {chart : Chart} (h : chart.EachPlaced) :
    barHeights chart = .ok (barValues chart) := by
  have hheights : chart.histograms.mapM (fun histogram =>
      if chart.density then inRange (histogram.density? chart.xBins)
      else return histogram.counts.map Binary64.ofNat) = .ok (barValues chart) := by
    refine mapM_eq_pure fun histogram hhistogram => ?_
    obtain ⟨series, -, rfl⟩ := List.mem_map.1 hhistogram
    rw [Chart.inRange_density]
    split <;> rfl
  rw [barHeights, Chart.countEach_eq h]
  exact hheights

/-- The bar of a bin. Bars of several series share the width of the bin. -/
def bar (scale : LogScale) (chart : Chart) (frame : Frame) (greatest : Binary64)
    (label : String) (position bin : Nat) (value : Binary64) : Markup :=
  let bins := chart.xBins
  barRect frame greatest chart.series.length position (frame.xOf scale bins (bins.edge bin))
    (frame.xOf scale bins (bins.edge (bin + 1))) value (colorOf position)
    (barTitle label (bins.edge bin) (bins.edge (bin + 1)) value)

theorem drawBar_eq {chart : Chart} {series : LabeledSeries} {position bin : Nat}
    (hbin : bin < chart.xBins.binCount) (hseries : chart.series[position]? = some series)
    (scale : LogScale) (frame : Frame) (greatest value : Binary64) :
    drawBar scale chart frame greatest (colorOf position) position bin value =
      .ok (bar scale chart frame greatest series.label position bin value) := by
  have hbins := Nat.zero_lt_of_lt hbin
  obtain ⟨hlower, hupper⟩ := BinSpec.getElem?_sides hbin
  rw [drawBar, hlower, hupper, hseries]
  simp only [inRange, across_eq hbins]
  rfl

/-- The bars of one series. -/
def group (scale : LogScale) (chart : Chart) (frame : Frame) (greatest : Binary64)
    (label : String) (values : List Binary64) (position : Nat) : List Markup :=
  values.zipIdx.filterMap fun (value, bin) =>
    if value ≤ 0 then none else some (bar scale chart frame greatest label position bin value)

theorem drawGroup_eq {chart : Chart} {series : LabeledSeries} {values : List Binary64}
    {position : Nat} (hseries : chart.series[position]? = some series)
    (hvalues : values ∈ barValues chart) (scale : LogScale) (frame : Frame)
    (greatest : Binary64) :
    drawGroup scale chart frame greatest values position =
      .ok (group scale chart frame greatest series.label values position) := by
  rw [drawGroup, colorAt_eq, group]
  have hfilter := filterMap_eq_map_filter (fun entry : Binary64 × Nat => entry.1 ≤ 0)
    (fun entry => bar scale chart frame greatest series.label position entry.2 entry.1)
    values.zipIdx
  refine Eq.trans ?_ (congrArg Except.ok hfilter.symm)
  refine mapM_eq_pure fun (value, bin) hvalue => drawBar_eq ?_ hseries scale frame greatest value
  rw [← length_of_mem_barValues hvalues]
  exact List.snd_lt_of_mem_zipIdx (List.mem_of_mem_filter hvalue)

def bars (scale : LogScale) (chart : Chart) (frame : Frame) : List Markup :=
  let values := barValues chart
  let greatest := values.flatten.foldl Binary64.max 0
  if greatest ≤ 0 then []
  else
    (chart.series.zip values).zipIdx.flatMap fun ((series, values), position) =>
      group scale chart frame greatest series.label values position

theorem drawBars_eq {chart : Chart} (h : chart.EachPlaced) (scale : LogScale) (frame : Frame) :
    drawBars scale chart frame = .ok (bars scale chart frame) := by
  have hgroups (greatest : Binary64) : (barValues chart).zipIdx.mapM (fun entry =>
      drawGroup scale chart frame greatest entry.1 entry.2) =
        .ok ((chart.series.zip (barValues chart)).zipIdx.map fun entry =>
          group scale chart frame greatest entry.1.1.label entry.1.2 entry.2) := by
    conv_lhs => rw [← List.map_snd_zip (Nat.le_of_eq (length_barValues chart)), List.zipIdx_map,
      List.mapM_map]
    refine mapM_eq_pure fun entry hentry => ?_
    obtain ⟨hseries, hvalues⟩ :=
      List.getElem?_zip_eq_some.1 (List.mem_zipIdx_iff_getElem?.1 hentry)
    exact drawGroup_eq hseries (List.mem_of_getElem? hvalues) scale frame greatest
  rw [drawBars, barHeights_eq h, bars, List.flatMap_def]
  show (if (barValues chart).flatten.foldl Binary64.max 0 ≤ 0 then _ else _) = _
  split
  · rfl
  · show ((barValues chart).zipIdx.mapM (fun entry =>
      drawGroup scale chart frame _ entry.1 entry.2) >>= _) = _
    rw [hgroups]
    rfl

theorem drawBars_eq_error {chart : Chart} (h : ¬chart.EachPlaced) (scale : LogScale)
    (frame : Frame) : drawBars scale chart frame = .error .outOfRange := by
  rw [drawBars, barHeights, Chart.countEach_eq_error h]
  rfl

def legend (chart : Chart) (frame : Frame) : List Markup :=
  chart.series.zipIdx.flatMap fun (series, position) =>
    legendEntry frame position (colorOf position) series.label

theorem drawLegend_eq (chart : Chart) (frame : Frame) :
    drawLegend chart frame = .ok (legend chart frame) := by
  have hentries : chart.series.zipIdx.mapM (fun (series, position) => do
      let color ← colorAt position
      return legendEntry frame position color series.label) =
        (.ok (chart.series.zipIdx.map fun (series, position) =>
          legendEntry frame position (colorOf position) series.label) :
            Except RenderError (List (List Markup))) :=
    mapM_eq_pure fun (series, position) _ => by
      dsimp only
      rw [colorAt_eq]
      rfl
  rw [drawLegend, hentries, legend, List.flatMap_def]
  rfl

/-! ## Cells -/

/-- The cells of a heat map, none for bins without samples, and the texts along its vertical
axis. Without any sample there are neither. -/
def cells (chart : Chart) (yBins : BinSpec) (histogram : JointHistogram) (frame : Frame) :
    List Markup :=
  let columns := chart.xBins.binCount
  let rows := yBins.binCount
  let greatest := histogram.maxCount
  if greatest = 0 then []
  else
    (histogram.counts.zipIdx.flatMap fun (column, x) =>
      column.zipIdx.filterMap fun (count, y) =>
        if count = 0 then none else some (cellRect frame columns rows greatest x y count)) ++
    (ticks yBins.labels).map fun (label, bin) => rowText frame rows label bin

theorem drawCells_eq {yBins : BinSpec} {histogram : JointHistogram}
    (h : histogram.maxCount = 0 ∨ 0 < yBins.binCount) (chart : Chart) (frame : Frame) :
    drawCells chart yBins histogram frame = .ok (cells chart yBins histogram frame) := by
  rw [drawCells, cells]
  by_cases hnone : histogram.maxCount = 0
  · rw [if_pos hnone, if_pos hnone]
    rfl
  · rw [if_neg hnone, if_neg hnone, BinSpec.labels?_eq (h.resolve_left hnone)]
    rfl

/-! ## Axes -/

/-- The position of the text of a bin along the horizontal axis, at the upper edge of the bin.
The bins of a heat map are equally wide. -/
def tickX (scale : LogScale) (chart : Chart) (frame : Frame) (bin : Nat) : Binary64 :=
  if chart.isHeatMap then
    frame.left + frame.width * .ofNat (bin + 1) / .ofNat chart.xBins.binCount
  else frame.xOf scale chart.xBins (chart.xBins.edge (bin + 1))

theorem drawTick_eq {chart : Chart} {bin : Nat} (h : bin < chart.xBins.binCount)
    (scale : LogScale) (frame : Frame) (label : String) :
    drawTick scale chart frame label bin =
      .ok (columnText frame (tickX scale chart frame bin) label) := by
  rw [drawTick, tickX, (BinSpec.getElem?_sides h).2]
  split
  · rfl
  · have hx := across_eq (Nat.zero_lt_of_lt h) frame scale (chart.xBins.edge (bin + 1))
    show ((frame.across scale chart.xBins (chart.xBins.edge (bin + 1))) >>= _) = _
    rw [hx]
    rfl

theorem getElem?_of_mem_ticks {labels : List String} {tick : String × Nat}
    (h : tick ∈ ticks labels) : labels[tick.2]? = some tick.1 :=
  List.mem_zipIdx_iff_getElem?.1 (List.mem_of_mem_filter h)

theorem lt_of_mem_ticks {labels : List String} {tick : String × Nat} (h : tick ∈ ticks labels) :
    tick.2 < labels.length :=
  (List.getElem?_eq_some_iff.1 (getElem?_of_mem_ticks h)).1

/-- The texts along the horizontal axis. -/
def shownTicks (chart : Chart) : List (String × Nat) :=
  ticks (chart.tickLabels.take chart.xBins.binCount)

/-- Both axes with their names and the texts along the horizontal one. -/
def axes (scale : LogScale) (chart : Chart) (frame : Frame) : List Markup :=
  axisLines frame ++
    ((shownTicks chart).map fun (label, bin) =>
      columnText frame (tickX scale chart frame bin) label) ++
    axisNames chart frame

/-- However many labels there are, those that are shown have a bin to stand at. -/
theorem drawAxes_eq (scale : LogScale) (chart : Chart) (frame : Frame) :
    drawAxes scale chart frame = .ok (axes scale chart frame) := by
  have hslice : slice? chart.tickLabels 0
      (Nat.min chart.tickLabels.length chart.xBins.binCount) =
        some (chart.tickLabels.take chart.xBins.binCount) := by
    rw [slice?, if_pos ⟨Nat.zero_le _, Nat.min_le_left _ _⟩, List.drop_zero]
    refine congrArg some (List.take_eq_take_iff.2 ?_)
    show min (min _ _) _ = min _ _
    omega
  have htexts : (shownTicks chart).mapM (fun tick =>
      drawTick scale chart frame tick.1 tick.2) =
        .ok ((shownTicks chart).map fun tick =>
          columnText frame (tickX scale chart frame tick.2) tick.1) := by
    refine mapM_eq_pure fun tick htick => drawTick_eq ?_ scale frame tick.1
    have hlt := lt_of_mem_ticks htick
    rw [List.length_take] at hlt
    omega
  rw [drawAxes, hslice]
  show ((shownTicks chart).mapM (fun tick => drawTick scale chart frame tick.1 tick.2) >>=
    _) = _
  rw [htexts]
  rfl

/-! ## Plots -/

/-- What is drawn between the title and the axes of a chart that can be drawn. -/
def plot (scale : LogScale) (frame : Frame) (chart : Chart) : List Markup :=
  if chart.isHeatMap then
    match chart.yBins, chart.jointHistogram? with
    | some yBins, some (.ok joint) => cells chart yBins joint frame
    | _, _ => []
  else bars scale chart frame ++ legend chart frame

theorem drawHeatMap_eq_ok_iff {chart : Chart} {frame : Frame} {parts : List Markup}
    (scale : LogScale) (hkind : chart.isHeatMap = true) :
    drawHeatMap chart frame = .ok parts ↔
      (chart.PairsPlaced ∧
        ∃ yBins joint, chart.yBins = some yBins ∧ chart.jointHistogram? = some (.ok joint)) ∧
        parts = plot scale frame chart := by
  rw [drawHeatMap, plot, if_pos hkind]
  cases haxis : chart.yBins with
  | none =>
    refine iff_of_false (fun h => by cases h) ?_
    rintro ⟨⟨-, _, _, hnone, -⟩, -⟩
    cases hnone
  | some yBins =>
    dsimp only
    by_cases hplaced : chart.PairsPlaced
    case neg =>
      rw [Chart.countPairs_eq_error hplaced]
      exact iff_of_false (fun h => by cases h) fun h => hplaced h.1.1
    cases hjoint : chart.jointHistogram? with
    | none =>
      rw [Chart.countPairs_eq_none hjoint]
      refine iff_of_false (fun h => by cases h) ?_
      rintro ⟨⟨-, _, _, -, hnone⟩, -⟩
      cases hnone
    | some outcome =>
      rw [Chart.countPairs_eq hplaced hjoint]
      cases outcome with
      | error cause =>
        refine iff_of_false (fun h => by cases h) ?_
        rintro ⟨⟨-, _, _, -, herror⟩, -⟩
        cases herror
      | ok joint =>
        obtain ⟨others, x, y, hothers, hseries, hcounted⟩ := Chart.exists_pairs hjoint
        obtain rfl : yBins = others := Option.some.inj (haxis.symm.trans hothers)
        have hcells := drawCells_eq (JointHistogram.maxCount_eq_zero_or
          (hplaced _ _ _ haxis hseries) hcounted) chart frame
        show drawCells chart yBins joint frame = .ok parts ↔ _
        rw [hcells, Except.ok.injEq, eq_comm]
        exact ⟨fun h => ⟨⟨hplaced, yBins, joint, rfl, rfl⟩, h⟩, And.right⟩

end Svg

/-! ## Drawings -/

namespace Chart

/-- A chart with a series, with bins for its samples, and with all that its kind asks for. -/
structure Plotted (chart : Chart) : Prop where
  series : chart.series ≠ []
  bars : chart.isHeatMap = false → chart.EachPlaced
  cells : chart.isHeatMap = true → chart.PairsPlaced ∧
    ∃ yBins joint, chart.yBins = some yBins ∧ chart.jointHistogram? = some (.ok joint)

/-- The drawing of a chart that can be drawn. -/
def drawing (scale : LogScale) (canvas : Canvas) (chart : Chart) : Markup :=
  .element "svg"
    [("xmlns", "http://www.w3.org/2000/svg"), ("width", natText canvas.width),
      ("height", natText canvas.height),
      ("viewBox", "0 0 " ++ natText canvas.width ++ " " ++ natText canvas.height)]
    (.element "style" [] [.verbatim Svg.style] ::
      .element "rect"
        [("x", "0"), ("y", "0"), ("width", natText canvas.width),
          ("height", natText canvas.height), ("fill", "white")] [] ::
      .element "text"
        [("x", natText (canvas.width / 2)), ("y", "25"), ("text-anchor", "middle"),
          ("class", "title")]
        [.text chart.title] ::
      (Svg.plot scale (.ofCanvas canvas) chart ++ Svg.axes scale chart (.ofCanvas canvas)))

theorem toMarkup_eq_ok_iff {scale : LogScale} {canvas : Canvas} {chart : Chart}
    {markup : Markup} :
    chart.toMarkup scale canvas = .ok markup ↔
      chart.Plotted ∧ markup = chart.drawing scale canvas := by
  rw [toMarkup]
  by_cases hseries : chart.series = []
  · refine iff_of_false ?_ fun h => h.1.series hseries
    rw [hseries]
    intro h
    cases h
  · rw [if_neg (by simpa using hseries)]
    dsimp only
    by_cases hkind : chart.isHeatMap = true
    · simp only [if_pos hkind, bind_eq_ok, pure_eq_ok, Svg.drawHeatMap_eq_ok_iff scale hkind,
        Svg.drawAxes_eq, Except.ok.injEq, exists_eq_left']
      constructor
      · rintro ⟨parts, ⟨hcells, rfl⟩, rfl⟩
        exact ⟨⟨hseries, fun h => absurd hkind (Bool.eq_false_iff.1 h), fun _ => hcells⟩, rfl⟩
      · rintro ⟨h, rfl⟩
        exact ⟨_, ⟨h.cells hkind, rfl⟩, rfl⟩
    · rw [if_neg hkind]
      by_cases hplaced : chart.EachPlaced
      · rw [Svg.drawBars_eq hplaced, Svg.drawLegend_eq, Svg.drawAxes_eq]
        show Except.ok _ = _ ↔ _
        rw [Except.ok.injEq, eq_comm, drawing, Svg.plot, if_neg hkind]
        exact ⟨fun h => ⟨⟨hseries, fun _ => hplaced, fun h => absurd h hkind⟩, h⟩, And.right⟩
      · rw [Svg.drawBars_eq_error hplaced]
        exact iff_of_false (fun h => by cases h) fun h =>
          hplaced (h.1.bars (Bool.eq_false_iff.2 hkind))

theorem toSvg_eq_ok_iff {scale : LogScale} {canvas : Canvas} {chart : Chart} {text : String} :
    chart.toSvg scale canvas = .ok text ↔
      chart.Plotted ∧ text = (chart.drawing scale canvas).render := by
  rw [toSvg, map_eq_ok]
  simp only [toMarkup_eq_ok_iff]
  constructor
  · rintro ⟨markup, ⟨hplotted, rfl⟩, rfl⟩
    exact ⟨hplotted, rfl⟩
  · rintro ⟨hplotted, rfl⟩
    exact ⟨_, ⟨hplotted, rfl⟩, rfl⟩

end Chart

end HeapLatency
