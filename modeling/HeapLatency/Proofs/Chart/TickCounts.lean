import HeapLatency.Proofs.Bins.WholeRanges
import HeapLatency.Proofs.Chart.Ticks

/-!
# Numbers of texts along the axes

However many labels a chart has, and whether or not they match its bins, the horizontal axis shows
those at the multiples of the stride, as far as there are both labels and bins. These are at most
twenty, and nothing else of the picture depends on the labels.
-/

namespace HeapLatency

/-! ## Multiples below a limit -/

/-- Below a limit there are as many multiples as it takes steps to reach the limit. -/
theorem filter_range_mod {limit stride count : Nat} (hstride : 0 < stride)
    (h : Ceiling limit stride count) :
    (List.range limit).filter (fun i => i % stride = 0) = (List.range count).map (· * stride) := by
  induction limit generalizing count with
  | zero =>
    obtain rfl : count = 0 := Nat.le_zero.1 (h.le (Nat.zero_le _))
    rfl
  | succ limit ih =>
    rw [List.range_succ, List.filter_append]
    by_cases hmultiple : limit % stride = 0
    · obtain ⟨steps, hsteps⟩ := Nat.dvd_of_mod_eq_zero hmultiple
      rw [Nat.mul_comm] at hsteps
      have hbefore : Ceiling limit stride steps := by
        intro i
        rw [hsteps, Nat.mul_lt_mul_right hstride]
      have hafter : Ceiling (limit + 1) stride (steps + 1) := by
        refine .of_between (by omega) ?_
        rw [Nat.succ_mul]
        omega
      rw [ih hbefore, h.unique hafter, List.range_succ, List.map_append]
      simp [hsteps]
    · have hbefore : Ceiling limit stride count := by
        intro i
        have hne : i * stride ≠ limit := by
          rintro rfl
          exact hmultiple (Nat.mul_mod_left i stride)
        rw [h i]
        omega
      rw [ih hbefore]
      simp [hmultiple]

namespace Svg

/-- A text along the horizontal axis. -/
def xTick (scale : LogScale) (chart : Chart) (frame : Frame) (tick : String × Nat) : Markup :=
  columnText frame (tickX scale chart frame tick.2) tick.1

theorem axes_eq (scale : LogScale) (chart : Chart) (frame : Frame) :
    axes scale chart frame =
      axisLines frame ++ (shownTicks chart).map (xTick scale chart frame) ++
        axisNames chart frame := rfl

theorem tickStride_pos (labels : Nat) : 0 < tickStride labels := Nat.le_max_right _ _

theorem count_ticks_le {labels count : Nat} (h : Ceiling labels (tickStride labels) count) :
    count ≤ maxTicks := by
  apply h.le
  have hstride : (labels + (maxTicks - 1)) / maxTicks ≤ tickStride labels := Nat.le_max_left _ _
  rw [maxTicks] at hstride ⊢
  omega

theorem map_snd_ticks (labels : List String) :
    (ticks labels).map (·.2) =
      (List.range labels.length).filter fun i => i % tickStride labels.length = 0 := by
  have hpositions := List.filter_map (f := fun tick : String × Nat => tick.2)
    (p := fun i => decide (i % tickStride labels.length = 0)) (l := labels.zipIdx)
  rw [List.zipIdx_map_snd, ← List.range_eq_range'] at hpositions
  exact hpositions.symm

theorem length_ticks {labels : List String} {count : Nat}
    (h : Ceiling labels.length (tickStride labels.length) count) :
    (ticks labels).length = count := by
  rw [← List.length_map (f := fun tick : String × Nat => tick.2), map_snd_ticks,
    filter_range_mod (tickStride_pos _) h, List.length_map, List.length_range]

theorem getElem?_ticks {labels : List String} {count : Nat}
    (h : Ceiling labels.length (tickStride labels.length) count) {k : Nat} (hk : k < count) :
    ∃ label, labels[k * tickStride labels.length]? = some label ∧
      (ticks labels)[k]? = some (label, k * tickStride labels.length) := by
  have hget : ((ticks labels).map (·.2))[k]? = some (k * tickStride labels.length) := by
    rw [map_snd_ticks, filter_range_mod (tickStride_pos _) h, List.getElem?_map,
      List.getElem?_range hk, Option.map_some]
  rw [List.getElem?_map] at hget
  obtain ⟨⟨label, position⟩, htick, rfl⟩ := Option.map_eq_some_iff.1 hget
  exact ⟨label, getElem?_of_mem_ticks (List.mem_of_getElem? htick), htick⟩

end Svg

namespace Chart

open Markup Svg

variable {scale : LogScale} {canvas : Canvas} {chart : Chart}

/-- The same chart with other labels along its horizontal axis. -/
def relabelled (chart : Chart) (labels : List String) : Chart := { chart with tickLabels := labels }

theorem Plotted.relabelled (h : chart.Plotted) (labels : List String) :
    (chart.relabelled labels).Plotted :=
  ⟨h.series, h.bars, h.cells⟩

/-- In front of its axes a picture does not go by the labels. -/
theorem exists_drawing (scale : LogScale) (canvas : Canvas) (chart : Chart) :
    ∃ attributes front, front ≠ [] ∧ ∀ labels,
      (chart.relabelled labels).drawing scale canvas =
        .element "svg" attributes
          (front ++ axes scale (chart.relabelled labels) (.ofCanvas canvas)) :=
  ⟨_, _ :: _ :: .element "text" _ [.text chart.title] :: plot scale (.ofCanvas canvas) chart,
    List.cons_ne_nil _ _, fun _ => rfl⟩

/-- Of the picture of a chart only the texts along the horizontal axis go by the labels. -/
theorem render_drawing (scale : LogScale) (canvas : Canvas) (chart : Chart) :
    ∃ before after, ∀ labels,
      ((chart.relabelled labels).drawing scale canvas).render =
        before ++ renderAll ((shownTicks (chart.relabelled labels)).map
          (xTick scale chart (.ofCanvas canvas))) ++ after := by
  obtain ⟨attributes, front, hfront, hdrawing⟩ := exists_drawing scale canvas chart
  refine ⟨"<" ++ "svg" ++ attributesText attributes ++ ">" ++
      renderAll (front ++ axisLines (.ofCanvas canvas)),
    renderAll (axisNames chart (.ofCanvas canvas)) ++ "</" ++ "svg" ++ ">", fun labels => ?_⟩
  rw [hdrawing, render_element (List.append_ne_nil_of_left_ne_nil hfront _), axes_eq,
    renderAll_append, renderAll_append, renderAll_append, renderAll_append]
  simp only [String.append_assoc]
  rfl

/-- The number of labels that have a bin to stand at. -/
def placedLabels (chart : Chart) : Nat := min chart.tickLabels.length chart.xBins.binCount

/-- The labels at the multiples of a stride, in their order, each with its position. -/
structure Spaced (chart : Chart) (stride : Nat) (shown : List (String × Nat)) : Prop where
  stride_pos : 1 ≤ stride
  length_eq : shown.length = (chart.placedLabels + stride - 1) / stride
  length_le : shown.length ≤ 20
  label : ∀ k < shown.length, k * stride < chart.placedLabels ∧
    ∃ label, chart.tickLabels[k * stride]? = some label ∧ shown[k]? = some (label, k * stride)

theorem spaced_shownTicks (chart : Chart) :
    chart.Spaced (tickStride chart.placedLabels) (shownTicks chart) := by
  have hplaced : (chart.tickLabels.take chart.xBins.binCount).length = chart.placedLabels := by
    rw [List.length_take, Nat.min_comm, placedLabels]
  have hpos := tickStride_pos chart.placedLabels
  have hceiling := Ceiling.add_pred_div chart.placedLabels hpos
  have hlabels := hceiling
  rw [← hplaced] at hlabels
  have hlength : (shownTicks chart).length =
      (chart.placedLabels + tickStride chart.placedLabels - 1) / tickStride chart.placedLabels := by
    rw [shownTicks, length_ticks hlabels, hplaced]
  refine ⟨hpos, hlength, ?_, fun k hk => ?_⟩
  · rw [hlength]
    exact count_ticks_le hceiling
  · rw [hlength] at hk
    have hlt := (hceiling k).1 hk
    obtain ⟨label, hlabel, hshown⟩ := getElem?_ticks hlabels (by rwa [hplaced])
    rw [hplaced] at hlabel hshown
    rw [List.getElem?_take_of_lt (Nat.lt_of_lt_of_le hlt (Nat.min_le_right _ _))] at hlabel
    exact ⟨hlt, label, hlabel, hshown⟩

theorem Spaced.mem_tickLabels {stride : Nat} {shown : List (String × Nat)}
    (h : chart.Spaced stride shown) {tick : String × Nat} (htick : tick ∈ shown) :
    tick.1 ∈ chart.tickLabels := by
  obtain ⟨k, hk, rfl⟩ := List.mem_iff_getElem.1 htick
  obtain ⟨-, label, hlabel, hshown⟩ := h.label k hk
  obtain ⟨_, heq⟩ := List.getElem?_eq_some_iff.1 hshown
  rw [heq]
  exact List.mem_of_getElem? hlabel

/-- Over bins of any policy, whatever the labels and the series, no position is asked for that
there is not. In its picture the labels at the multiples of the stride stand along the horizontal
axis. The rest is the picture of the same chart without labels, and labels that are not markup are
read back. -/
theorem ticks_bounded (canvas : Canvas) (hx : BinSpec.Made scale chart.xBins)
    (hy : ∀ yBins ∈ chart.yBins, BinSpec.Made scale yBins) :
    (chart.toSvg scale canvas ≠ .error .outOfRange ∧ chart.toJson ≠ .error .outOfRange) ∧
    ∀ text, chart.toSvg scale canvas = .ok text →
      ∃ shown, chart.Spaced (tickStride chart.placedLabels) shown ∧
        (∃ before after,
          (chart.relabelled []).toSvg scale canvas = .ok (before ++ after) ∧
          text = before ++ renderAll (shown.map (xTick scale chart (.ofCanvas canvas))) ++ after) ∧
        ((∀ tick ∈ shown, Literal tick.1.toList) →
          ∃ tokens, Markup.read text = some tokens ∧ xTickTexts tokens = shown.map (·.1)) := by
  have hpos := hx.sound.binCount_pos
  refine ⟨ne_outOfRange scale canvas (eachPlaced_of_pos hpos)
    (pairsPlaced_of_pos hpos fun yBins h => (hy yBins h).sound.binCount_pos), fun text h => ?_⟩
  obtain ⟨hplotted, rfl⟩ := toSvg_eq_ok_iff.1 h
  obtain ⟨before, after, hrender⟩ := render_drawing scale canvas chart
  refine ⟨shownTicks chart, spaced_shownTicks chart, ⟨before, after, ?_, ?_⟩, fun hticks => ?_⟩
  · have hnone : shownTicks (chart.relabelled []) = [] := by
      rw [shownTicks, relabelled, List.take_nil]
      rfl
    have hblank := hrender []
    rw [hnone, List.map_nil, renderAll, String.append_empty] at hblank
    exact toSvg_eq_ok_iff.2 ⟨hplotted.relabelled [], hblank.symm⟩
  · exact hrender chart.tickLabels
  · exact ⟨_, (readsAs_drawing scale canvas hticks).read, xTickTexts_drawing hticks⟩

/-- Both operations of a trace over fifty-nine bins, with labels for the first forty-five, every
third of which is shown. -/
theorem ticks_bounded_sample :
    let labels := (List.range 45).map natText
    ∃ both, combined { combinedBins := 60 } (.ofEvents "run_first.csv" {} sampleEvents) = .ok both ∧
      both.xBins.binCount = 59 ∧
      (both.relabelled labels).toSvg ⟨id, id⟩ {} ≠ .error .outOfRange ∧
      ∃ text tokens, (both.relabelled labels).toSvg ⟨id, id⟩ {} = .ok text ∧
        Markup.read text = some tokens ∧ (xTickTexts tokens).length = 15 ∧
        (xTickTexts tokens)[14]? = some "42" := by
  intro labels
  obtain ⟨both, hboth, hcount⟩ : ∃ chart,
      combined { combinedBins := 60 } (.ofEvents "run_first.csv" {} sampleEvents) = .ok chart ∧
        chart.xBins.binCount = 59 := exists_of_toOption_map (by decide +kernel)
  obtain ⟨plain, hplain⟩ := (drawable_combined ⟨id, id⟩ hboth).svg {}
  have hplotted := (toSvg_eq_ok_iff.1 hplain).1.relabelled labels
  obtain ⟨hx, haxis⟩ : BinSpec.Made ⟨id, id⟩ both.xBins ∧ both.yBins = none := by
    obtain ⟨xBins, hbins, rfl⟩ := combined_eq_ok_iff.1 hboth
    exact ⟨.sharedRange hbins, rfl⟩
  have hxBins : BinSpec.Made ⟨id, id⟩ (both.relabelled labels).xBins := hx
  obtain ⟨⟨hfound, -⟩, hpicture⟩ := ticks_bounded {} hxBins fun yBins hyBins => by
    cases haxis.symm.trans hyBins
  obtain ⟨shown, hspaced, -, hread⟩ := hpicture _ (toSvg_eq_ok_iff.2 ⟨hplotted, rfl⟩)
  have hplaced : (both.relabelled labels).placedLabels = 45 := by
    rw [placedLabels, relabelled, hcount, List.length_map, List.length_range]
    rfl
  have hliteral : ∀ label ∈ labels, Literal label.toList := by decide +kernel
  obtain ⟨tokens, htokens, htexts⟩ :=
    hread fun tick htick => hliteral tick.1 (hspaced.mem_tickLabels htick)
  have hlength := hspaced.length_eq
  rw [hplaced] at hlength hspaced
  have hfifteen : shown.length = 15 := hlength
  obtain ⟨-, label, hlabel, hshown⟩ := hspaced.label 14 (by omega)
  obtain rfl : "42" = label := Option.some.inj hlabel
  refine ⟨both, hboth, hcount, hfound, _, tokens, toSvg_eq_ok_iff.2 ⟨hplotted, rfl⟩, htokens, ?_,
    ?_⟩
  · rw [htexts, List.length_map, hfifteen]
  · rw [htexts, List.getElem?_map, hshown, Option.map_some]

end Chart

end HeapLatency
