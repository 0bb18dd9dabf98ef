import HeapLatency.Proofs.Chart.Counts

/-!
# Verdicts of both generators

A chart that cannot be drawn is refused by either generator, but each finds out by itself: one
looks at the kind of the chart first, the other at whether there are series to count against each
other. They agree except on charts whose second axis does not go with their series.
-/

namespace HeapLatency.Chart

/-- Whether a generator accepts a chart, and why not. -/
def verdict {α : Type} (outcome : Except RenderError α) : Except RenderError Unit :=
  outcome.map fun _ => ()

/-- A chart with a second axis on which the generators differ. -/
inductive Disputed (chart : Chart) : Prop
  /-- A heat map whose series are not two. -/
  | unpaired {yBins : BinSpec} (haxis : chart.yBins = some yBins)
      (hkind : chart.isHeatMap = true) (hsome : chart.series ≠ [])
      (hseries : chart.series.length ≠ 2)
  /-- A chart of bars with two series that do not pair up. -/
  | uneven {yBins : BinSpec} {x y : LabeledSeries} (haxis : chart.yBins = some yBins)
      (hkind : chart.isHeatMap = false) (hseries : chart.series = [x, y])
      (hlength : x.values.length ≠ y.values.length)
  /-- A chart of bars with two series that pair up, but only the axis of the bars has bins. -/
  | unbinned {yBins : BinSpec} {x y : LabeledSeries} (haxis : chart.yBins = some yBins)
      (hkind : chart.isHeatMap = false) (hseries : chart.series = [x, y])
      (hlength : x.values.length = y.values.length) (hsome : x.values ≠ [])
      (hx : 0 < chart.xBins.binCount) (hy : yBins.binCount = 0)

/-! ## Each generator -/

theorem verdict_toSvg_nil {chart : Chart} (scale : LogScale) (canvas : Canvas)
    (h : chart.series = []) :
    verdict (chart.toSvg scale canvas) = .error (.emptyChart chart.stem) := by
  rw [toSvg, toMarkup, h]
  rfl

theorem verdict_toSvg_bars {chart : Chart} (scale : LogScale) (canvas : Canvas)
    (h : chart.series ≠ []) (hkind : chart.isHeatMap = false) :
    verdict (chart.toSvg scale canvas) = verdict chart.countEach := by
  by_cases hplaced : chart.EachPlaced
  · have hplotted : chart.Plotted :=
      { series := h
        bars := fun _ => hplaced
        cells := fun hcells => absurd hcells (Bool.eq_false_iff.1 hkind) }
    rw [toSvg_eq_ok_iff.2 ⟨hplotted, rfl⟩, countEach_eq hplaced]
    rfl
  · have hsome : ¬chart.series.isEmpty = true := by simpa using h
    rw [toSvg, toMarkup, if_neg hsome, hkind]
    dsimp only
    rw [if_neg Bool.false_ne_true, Svg.drawBars_eq_error hplaced, countEach_eq_error hplaced]
    rfl

theorem verdict_drawCells {chart : Chart} {joint : JointHistogram} (hplaced : chart.PairsPlaced)
    (hjoint : chart.jointHistogram? = some (.ok joint)) (frame : Svg.Frame) :
    ∀ yBins, chart.yBins = some yBins →
      verdict (Svg.drawCells chart yBins joint frame) = .ok () := by
  intro yBins haxis
  obtain ⟨others, x, y, hothers, hseries, hcounted⟩ := exists_pairs hjoint
  obtain rfl : yBins = others := Option.some.inj (haxis.symm.trans hothers)
  rw [Svg.drawCells_eq (JointHistogram.maxCount_eq_zero_or (hplaced _ _ _ haxis hseries) hcounted)]
  rfl

theorem verdict_toSvg_heatMap {chart : Chart} (scale : LogScale) (canvas : Canvas)
    (h : chart.series ≠ []) (hkind : chart.isHeatMap = true) :
    verdict (chart.toSvg scale canvas) =
      match chart.yBins with
      | none => .error (.missingAxis chart.stem)
      | some _ => chart.countPairs.bind fun joint =>
        if joint.isSome then .ok () else .error (.emptyChart chart.stem) := by
  have hsome : ¬chart.series.isEmpty = true := by simpa using h
  have hplot : verdict (chart.toSvg scale canvas) =
      verdict (Svg.drawHeatMap chart (.ofCanvas canvas)) := by
    rw [toSvg, toMarkup, if_neg hsome]
    dsimp only
    rw [if_pos hkind, Svg.drawAxes_eq]
    cases Svg.drawHeatMap chart (.ofCanvas canvas) <;> rfl
  rw [hplot, Svg.drawHeatMap]
  cases haxis : chart.yBins with
  | none => rfl
  | some yBins =>
    dsimp only
    by_cases hplaced : chart.PairsPlaced
    · cases hjoint : chart.jointHistogram? with
      | none =>
        rw [countPairs_eq_none hjoint]
        rfl
      | some outcome =>
        rw [countPairs_eq hplaced hjoint]
        cases outcome with
        | error cause => rfl
        | ok joint => exact verdict_drawCells hplaced hjoint _ yBins haxis
    · rw [countPairs_eq_error hplaced]
      rfl

theorem verdict_toJson_nil {chart : Chart} (h : chart.series = []) :
    verdict chart.toJson = .error (.emptyChart chart.stem) := by
  rw [toJson, h]
  rfl

theorem verdict_toJson {chart : Chart} (h : chart.series ≠ []) :
    verdict chart.toJson = chart.jointCounts.bind fun _ => verdict chart.seriesData := by
  have hsome : ¬chart.series.isEmpty = true := by simpa using h
  rw [toJson, if_neg hsome]
  dsimp only
  cases chart.jointCounts with
  | error error => rfl
  | ok counts => cases chart.seriesData <;> rfl

theorem verdict_seriesData {chart : Chart} (hkind : chart.isHeatMap = false) :
    verdict chart.seriesData = verdict chart.countEach := by
  rw [seriesData, hkind]
  by_cases hplaced : chart.EachPlaced
  · rw [countEach_eq hplaced, if_neg Bool.false_ne_true, mapM_seriesJson hplaced]
    rfl
  · rw [countEach_eq_error hplaced, if_neg Bool.false_ne_true, mapM_seriesJson_eq_error hplaced]
    rfl

theorem verdict_countEach (chart : Chart) :
    verdict chart.countEach = .ok () ∨ verdict chart.countEach = .error .outOfRange := by
  by_cases hplaced : chart.EachPlaced
  · exact .inl (by rw [countEach_eq hplaced]; rfl)
  · exact .inr (by rw [countEach_eq_error hplaced]; rfl)

/-! ## Counting series against each other -/

theorem jointHistogram?_of_noAxis {chart : Chart} (h : chart.yBins = none) :
    chart.jointHistogram? = none := by
  rw [jointHistogram?, h]

theorem jointHistogram?_eq_none_iff {chart : Chart} {yBins : BinSpec}
    (haxis : chart.yBins = some yBins) :
    chart.jointHistogram? = none ↔ chart.series.length ≠ 2 := by
  constructor
  · intro h hlength
    obtain ⟨x, y, hseries⟩ := List.length_eq_two.1 hlength
    rw [jointHistogram?_eq haxis hseries] at h
    cases h
  · intro h
    unfold jointHistogram?
    split
    · rename_i hseries
      exact absurd (List.length_eq_two.2 ⟨_, _, hseries⟩) h
    · rfl

/-- Two series of different lengths are refused before a bin is looked up. -/
theorem countPairs_of_uneven {chart : Chart} {yBins : BinSpec} {x y : LabeledSeries}
    (haxis : chart.yBins = some yBins) (hseries : chart.series = [x, y])
    (hlength : x.values.length ≠ y.values.length) :
    chart.countPairs = .error (.bins (.lengthMismatch x.values.length y.values.length)) := by
  rw [countPairs, haxis, hseries]
  dsimp only
  rw [JointHistogram.ofSeries?, if_pos hlength]
  rfl

/-! ## Both generators -/

theorem verdicts_of_unpaired {chart : Chart} {yBins : BinSpec} (scale : LogScale)
    (canvas : Canvas) (haxis : chart.yBins = some yBins) (hkind : chart.isHeatMap = true)
    (hsome : chart.series ≠ []) (hseries : chart.series.length ≠ 2) :
    verdict (chart.toSvg scale canvas) = .error (.emptyChart chart.stem) ∧
      verdict chart.toJson = .error (.missingAxis chart.stem) := by
  have hpairs := countPairs_eq_none ((jointHistogram?_eq_none_iff haxis).2 hseries)
  constructor
  · rw [verdict_toSvg_heatMap scale canvas hsome hkind, haxis, hpairs]
    rfl
  · rw [verdict_toJson hsome, jointCounts, hpairs, hkind]
    rfl

theorem verdicts_of_uneven {chart : Chart} {yBins : BinSpec} {x y : LabeledSeries}
    (scale : LogScale) (canvas : Canvas) (haxis : chart.yBins = some yBins)
    (hkind : chart.isHeatMap = false) (hseries : chart.series = [x, y])
    (hlength : x.values.length ≠ y.values.length) :
    verdict (chart.toSvg scale canvas) = verdict chart.countEach ∧
      verdict chart.toJson =
        .error (.bins (.lengthMismatch x.values.length y.values.length)) := by
  have hsome : chart.series ≠ [] := by
    rw [hseries]
    exact List.cons_ne_nil _ _
  refine ⟨verdict_toSvg_bars scale canvas hsome hkind, ?_⟩
  rw [verdict_toJson hsome, jointCounts, countPairs_of_uneven haxis hseries hlength]
  rfl

theorem verdicts_of_unbinned {chart : Chart} {yBins : BinSpec} {x y : LabeledSeries}
    (scale : LogScale) (canvas : Canvas) (haxis : chart.yBins = some yBins)
    (hkind : chart.isHeatMap = false) (hseries : chart.series = [x, y])
    (hlength : x.values.length = y.values.length) (hvalues : x.values ≠ [])
    (hx : 0 < chart.xBins.binCount) (hy : yBins.binCount = 0) :
    verdict (chart.toSvg scale canvas) = .ok () ∧ verdict chart.toJson = .error .outOfRange := by
  have hsome : chart.series ≠ [] := by
    rw [hseries]
    exact List.cons_ne_nil _ _
  have hunplaced : ¬chart.PairsPlaced := fun h => by
    have hbins := (h yBins x y haxis hseries hlength hvalues).2
    omega
  constructor
  · rw [verdict_toSvg_bars scale canvas hsome hkind, countEach_eq (eachPlaced_of_pos hx)]
    rfl
  · rw [verdict_toJson hsome, jointCounts, countPairs_eq_error hunplaced]
    rfl

theorem pairsPlaced_of_bars {chart : Chart} (h : ¬chart.Disputed)
    (hkind : chart.isHeatMap = false) (hplaced : chart.EachPlaced) : chart.PairsPlaced := by
  intro yBins x y haxis hseries hlength hvalues
  have hx := hplaced x (by rw [hseries]; exact List.mem_cons_self) hvalues
  exact ⟨hx, Nat.pos_of_ne_zero fun hy =>
    h (.unbinned haxis hkind hseries hlength hvalues hx hy)⟩

theorem verdicts_agree_bars {chart : Chart} (scale : LogScale) (canvas : Canvas)
    (h : ¬chart.Disputed) (hsome : chart.series ≠ []) (hkind : chart.isHeatMap = false) :
    verdict (chart.toSvg scale canvas) = verdict chart.toJson := by
  rw [verdict_toSvg_bars scale canvas hsome hkind, verdict_toJson hsome, jointCounts, hkind,
    verdict_seriesData hkind]
  cases hjoint : chart.jointHistogram? with
  | none =>
    rw [countPairs_eq_none hjoint]
    rfl
  | some outcome =>
    obtain ⟨yBins, x, y, haxis, hseries, hcounted⟩ := exists_pairs hjoint
    -- series of different lengths would be disputed
    have hlength : x.values.length = y.values.length :=
      Classical.not_not.1 fun hlength => h (.uneven haxis hkind hseries hlength)
    rw [JointHistogram.ofSeries_of_length_eq _ _ hlength] at hcounted
    subst hcounted
    by_cases hplaced : chart.PairsPlaced
    · rw [countPairs_eq hplaced hjoint]
      rfl
    · rw [countPairs_eq_error hplaced,
        countEach_eq_error fun heach => hplaced (pairsPlaced_of_bars h hkind heach)]
      rfl

theorem verdicts_agree_heatMap {chart : Chart} (scale : LogScale) (canvas : Canvas)
    (h : ¬chart.Disputed) (hsome : chart.series ≠ []) (hkind : chart.isHeatMap = true) :
    verdict (chart.toSvg scale canvas) = verdict chart.toJson := by
  rw [verdict_toSvg_heatMap scale canvas hsome hkind, verdict_toJson hsome, jointCounts,
    seriesData, hkind]
  cases haxis : chart.yBins with
  | none =>
    rw [countPairs_eq_none (jointHistogram?_of_noAxis haxis)]
    rfl
  | some yBins =>
    dsimp only
    cases hpairs : chart.countPairs with
    | error error => rfl
    | ok joint =>
      cases joint with
      | some joint => rfl
      | none =>
        have hseries : chart.series.length = 2 :=
          Classical.not_not.1 fun hseries => h (.unpaired haxis hkind hsome hseries)
        obtain ⟨x, y, hseries⟩ := List.length_eq_two.1 hseries
        by_cases hplaced : chart.PairsPlaced
        · rw [countPairs_eq hplaced (jointHistogram?_eq haxis hseries), map_eq_ok] at hpairs
          obtain ⟨_, -, hnone⟩ := hpairs
          cases hnone
        · rw [countPairs_eq_error hplaced] at hpairs
          cases hpairs

theorem verdicts_agree {chart : Chart} (scale : LogScale) (canvas : Canvas)
    (h : ¬chart.Disputed) : verdict (chart.toSvg scale canvas) = verdict chart.toJson := by
  by_cases hsome : chart.series = []
  · rw [verdict_toSvg_nil scale canvas hsome, verdict_toJson_nil hsome]
  · cases hkind : chart.isHeatMap with
    | false => exact verdicts_agree_bars scale canvas h hsome hkind
    | true => exact verdicts_agree_heatMap scale canvas h hsome hkind

theorem countPairs_ne_outOfRange {chart : Chart} (h : chart.PairsPlaced) :
    chart.countPairs ≠ .error .outOfRange := by
  cases hjoint : chart.jointHistogram? with
  | none =>
    rw [countPairs_eq_none hjoint]
    intro herror
    cases herror
  | some outcome =>
    rw [countPairs_eq h hjoint]
    intro herror
    cases outcome <;> cases herror

theorem jointCounts_ne_outOfRange {chart : Chart} (h : chart.PairsPlaced) :
    chart.jointCounts ≠ .error .outOfRange := by
  intro herror
  rw [jointCounts, bind_eq_error] at herror
  rcases herror with herror | ⟨joint, -, herror⟩
  · exact countPairs_ne_outOfRange h herror
  · cases joint with
    | some joint => cases herror
    | none => cases hkind : chart.isHeatMap <;> rw [hkind] at herror <;> cases herror

/-- Over bins for all samples, neither generator looks up anything that is not there, be the chart
drawn or refused. -/
theorem ne_outOfRange {chart : Chart} (scale : LogScale) (canvas : Canvas)
    (heach : chart.EachPlaced) (hpairs : chart.PairsPlaced) :
    chart.toSvg scale canvas ≠ .error .outOfRange ∧ chart.toJson ≠ .error .outOfRange := by
  suffices hverdict : verdict (chart.toSvg scale canvas) ≠ .error .outOfRange ∧
      verdict chart.toJson ≠ .error .outOfRange from
    ⟨fun h => hverdict.1 (by rw [h]; rfl), fun h => hverdict.2 (by rw [h]; rfl)⟩
  by_cases hsome : chart.series = []
  · rw [verdict_toSvg_nil scale canvas hsome, verdict_toJson_nil hsome]
    exact ⟨fun h => (by cases h), fun h => (by cases h)⟩
  constructor
  · cases hkind : chart.isHeatMap with
    | false =>
      rw [verdict_toSvg_bars scale canvas hsome hkind, countEach_eq heach]
      intro h
      cases h
    | true =>
      rw [verdict_toSvg_heatMap scale canvas hsome hkind]
      intro h
      split at h
      · cases h
      · cases hjoint : chart.countPairs with
        | error error =>
          rw [hjoint] at h
          cases h
          exact countPairs_ne_outOfRange hpairs hjoint
        | ok joint =>
          rw [hjoint] at h
          cases joint <;> cases h
  · rw [verdict_toJson hsome, seriesData_eq_ok_iff.2 ⟨fun _ => heach, rfl⟩]
    intro h
    cases hjoint : chart.jointCounts with
    | error error =>
      rw [hjoint] at h
      cases h
      exact jointCounts_ne_outOfRange hpairs hjoint
    | ok counts =>
      rw [hjoint] at h
      cases h

/-- The generators accept the same charts and refuse the others for the same reason, but for the
disputed ones, and on each of those they differ. -/
theorem verdicts_agree_iff (scale : LogScale) (canvas : Canvas) (chart : Chart) :
    verdict (chart.toSvg scale canvas) = verdict chart.toJson ↔ ¬ chart.Disputed := by
  refine ⟨fun hagree hdisputed => ?_, verdicts_agree scale canvas⟩
  cases hdisputed with
  | unpaired haxis hkind hsome hseries =>
    obtain ⟨hsvg, hjson⟩ := verdicts_of_unpaired scale canvas haxis hkind hsome hseries
    rw [hsvg, hjson] at hagree
    cases hagree
  | uneven haxis hkind hseries hlength =>
    obtain ⟨hsvg, hjson⟩ := verdicts_of_uneven scale canvas haxis hkind hseries hlength
    rw [hsvg, hjson] at hagree
    rcases verdict_countEach chart with hbars | hbars
    · rw [hbars] at hagree
      cases hagree
    · rw [hbars] at hagree
      cases hagree
  | unbinned haxis hkind hseries hlength hvalues hx hy =>
    obtain ⟨hsvg, hjson⟩ :=
      verdicts_of_unbinned scale canvas haxis hkind hseries hlength hvalues hx hy
    rw [hsvg, hjson] at hagree
    cases hagree

/-- Over bins of samples: bars of two samples beside one, which only SVG accepts, and a heat map
of a single series, which one generator finds to be without series and the other without its
second axis. -/
theorem verdicts_differ :
    ∃ bins, BinSpec.meanScaled [1] 4 = .ok bins ∧
      let bars : Chart :=
        { kind := .combined, stem := "bars", title := "", xLabel := "", yLabel := "",
          series := [⟨"x", [1, 1]⟩, ⟨"y", [1]⟩], xBins := bins, yBins := some bins,
          tickLabels := [], density := false }
      let cells : Chart :=
        { bars with kind := .latencyVsSize, stem := "cells", series := [⟨"x", [1]⟩] }
      verdict (bars.toSvg ⟨id, id⟩ {}) = .ok () ∧
        verdict bars.toJson = .error (.bins (.lengthMismatch 2 1)) ∧
        verdict (cells.toSvg ⟨id, id⟩ {}) = .error (.emptyChart "cells") ∧
        verdict cells.toJson = .error (.missingAxis "cells") := by
  obtain ⟨bins, hbins⟩ : ∃ bins, BinSpec.meanScaled [1] 4 = .ok bins :=
    exists_of_isOk (by decide +kernel)
  refine ⟨bins, hbins, ?_⟩
  intro bars cells
  have hlength : [(1 : Binary64), 1].length ≠ [(1 : Binary64)].length := by decide
  have hbars : bars.series = [⟨"x", [1, 1]⟩, ⟨"y", [1]⟩] := rfl
  have hcells : cells.series ≠ [] := List.cons_ne_nil _ _
  have hplaced : bars.EachPlaced :=
    eachPlaced_of_pos (BinSpec.sound_of_meanScaled hbins).binCount_pos
  obtain ⟨hsvg, hjson⟩ := verdicts_of_uneven ⟨id, id⟩ {} rfl rfl hbars hlength
  obtain ⟨hempty, haxis⟩ := verdicts_of_unpaired ⟨id, id⟩ {} rfl rfl hcells
    (Nat.ne_of_lt Nat.one_lt_two)
  rw [countEach_eq hplaced] at hsvg
  exact ⟨hsvg, hjson, hempty, haxis⟩

end HeapLatency.Chart
