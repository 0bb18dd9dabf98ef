import HeapLatency.Proofs.Bins.Densities
import HeapLatency.Proofs.Chart.Drawable
import HeapLatency.Proofs.Chart.Words
import HeapLatency.Proofs.Number.Whole

/-!
# Counts in pictures

What can be read of the counts of a chart from its picture. A reader who collects the titles of
rectangles gets one for each count that is not zero, in the order of the counts, and none else:
nothing is dropped on the way, neither by a bar that comes out as zero nor by a picture that is
left empty.
-/

namespace HeapLatency

namespace Markup

/-! ## Titles of rectangles -/

def Token.opens (name : String) : Token → Bool
  | .opening other _ => other == name
  | _ => false

theorem Token.opens_opening (name : String) (attributes : List (String × String)) :
    (Token.opening name attributes).opens name = true :=
  beq_self_eq_true name

/-- The characters in front of the next tag. -/
def charsAhead : List Token → List Char
  | .char c :: rest => c :: charsAhead rest
  | _ => []

/-- The text of a title that begins here. -/
def titleAhead? : List Token → Option String
  | [] => none
  | token :: rest =>
    if token.opens "title" then some (String.ofList (charsAhead rest)) else none

/-- The titles of the rectangles that have one, in the order of the rectangles. -/
def rectTitles : List Token → List String
  | [] => []
  | token :: rest =>
    (if token.opens "rect" then (titleAhead? rest).toList else []) ++ rectTitles rest

example : (read "<g><rect/><rect><title>a&lt;b</title></rect><title>c</title></g>").map rectTitles =
    some ["a<b"] := by
  decide

/-- Only single rectangles, which have no title. -/
def Untitled (markup : Markup) : Prop := ∀ token ∈ markup.tags, token.opens "rect" = false

theorem rectTitles_append {tokens : List Token}
    (h : ∀ token ∈ tagsOf tokens, token.opens "rect" = false) (rest : List Token) :
    rectTitles (tokens ++ rest) = rectTitles rest := by
  induction tokens with
  | nil => rfl
  | cons token tokens ih =>
    have hfirst : token.opens "rect" = false := by
      cases token with
      | char c => rfl
      | opening name attributes => exact h _ List.mem_cons_self
      | closing name => rfl
      | single name attributes => rfl
    have hothers : ∀ other ∈ tagsOf tokens, other.opens "rect" = false := fun other hother =>
      h other ((List.sublist_cons_self token tokens).filter _ |>.subset hother)
    rw [List.cons_append, rectTitles, hfirst, if_neg Bool.false_ne_true, List.nil_append,
      ih hothers]

theorem rectTitles_untitled {parts : List Markup} (h : ∀ part ∈ parts, Untitled part)
    (rest : List Token) : rectTitles (tokensAll parts ++ rest) = rectTitles rest := by
  refine rectTitles_append (fun token htoken => ?_) rest
  rw [tagsOf_tokensAll, List.mem_flatMap] at htoken
  obtain ⟨part, hpart, hmem⟩ := htoken
  exact h part hpart token hmem

theorem untitled_text (content : String) : Untitled (.text content) := by
  rw [Untitled, tags_text]
  exact List.forall_mem_nil _

theorem untitled_verbatim (content : String) : Untitled (.verbatim content) := by
  rw [Untitled, tags_verbatim]
  exact List.forall_mem_nil _

theorem untitled_empty (name : String) (attributes : List (String × String)) :
    Untitled (.element name attributes []) :=
  List.forall_mem_singleton.2 rfl

theorem untitled_element {name : String} (hname : (name == "rect") = false)
    (attributes : List (String × String)) {part : Markup} (hpart : Untitled part) :
    Untitled (.element name attributes [part]) := by
  rw [Untitled, tags_cons, List.flatMap_singleton, List.forall_mem_cons, List.forall_mem_append,
    List.forall_mem_singleton]
  exact ⟨hname, hpart, rfl⟩

theorem charsAhead_append (text : List Char) (name : String) (rest : List Token) :
    charsAhead (text.map .char ++ .closing name :: rest) = text := by
  induction text with
  | nil => rfl
  | cons c text ih => rw [List.map_cons, List.cons_append, charsAhead, ih]

theorem tokensAll_append (parts others : List Markup) :
    tokensAll (parts ++ others) = tokensAll parts ++ tokensAll others := by
  rw [tokensAll_eq_flatMap, tokensAll_eq_flatMap, tokensAll_eq_flatMap, List.flatMap_append]

theorem rectTitles_map {α : Type} {part : α → Markup} {title : α → String}
    (h : ∀ item rest, rectTitles ((part item).tokens ++ rest) = title item :: rectTitles rest)
    (items : List α) (rest : List Token) :
    rectTitles (tokensAll (items.map part) ++ rest) = items.map title ++ rectTitles rest := by
  induction items with
  | nil => rfl
  | cons item items ih =>
    rw [List.map_cons, tokensAll, List.append_assoc, h, ih, List.map_cons, List.cons_append]

end Markup

namespace Svg

open Markup

theorem rectTitles_titledRect (x y width height : Binary64) (fill title : String)
    (rest : List Token) :
    rectTitles ((titledRect x y width height fill title).tokens ++ rest) =
      title :: rectTitles rest := by
  have htokens : tokens (.element "title" [] [.text title]) =
      .opening "title" [] :: (title.toList.map .char ++ [.closing "title"]) := by
    rw [tokens_cons, tokensAll, tokensAll, tokens, List.append_nil]
  have hahead (rest : List Token) :
      titleAhead? (tokens (.element "title" [] [.text title]) ++ rest) = some title := by
    rw [htokens, List.cons_append, List.append_assoc, List.singleton_append, titleAhead?,
      if_pos (Token.opens_opening _ _), charsAhead_append, String.ofList_toList]
  have hown : Untitled (.element "title" [] [.text title]) :=
    untitled_element (by decide) [] (untitled_text title)
  rw [titledRect, tokens_cons, tokensAll, tokensAll, List.append_nil, List.cons_append,
    List.append_assoc, List.singleton_append, rectTitles, if_pos (Token.opens_opening _ _), hahead,
    rectTitles_append hown]
  rfl

/-! ## Pictures -/

theorem untitled_of_mem_legend {chart : Chart} {frame : Frame} {part : Markup}
    (h : part ∈ legend chart frame) : Untitled part := by
  obtain ⟨⟨series, position⟩, -, hpart⟩ := List.mem_flatMap.1 h
  rcases List.mem_pair.1 hpart with rfl | rfl
  · exact untitled_empty _ _
  · exact untitled_element (by decide) _ (untitled_text _)

theorem untitled_of_mem_axes {scale : LogScale} {chart : Chart} {frame : Frame} {part : Markup}
    (h : part ∈ axes scale chart frame) : Untitled part := by
  rw [axes, List.mem_append, List.mem_append] at h
  rcases h with (h | h) | h
  · rcases List.mem_pair.1 h with rfl | rfl
    · exact untitled_empty _ _
    · exact untitled_empty _ _
  · obtain ⟨tick, -, rfl⟩ := List.mem_map.1 h
    exact untitled_element (by decide) _ (untitled_verbatim _)
  · rcases List.mem_pair.1 h with rfl | rfl
    · exact untitled_element (by decide) _ (untitled_text _)
    · exact untitled_element (by decide) _ (untitled_text _)

theorem rectTitles_bars (scale : LogScale) (chart : Chart) (frame : Frame) (rest : List Token) :
    rectTitles (tokensAll (bars scale chart frame ++ legend chart frame) ++ rest) =
      (shownBars chart).map (·.title chart) ++ rectTitles rest := by
  have hbar (shown : ShownBar) (rest : List Token) :
      rectTitles ((bar scale chart frame ((barValues chart).flatten.foldl Binary64.max 0)
        shown.label shown.position shown.bin shown.value).tokens ++ rest) =
        shown.title chart :: rectTitles rest :=
    rectTitles_titledRect _ _ _ _ _ _ rest
  rw [tokensAll_append, List.append_assoc, bars_eq, rectTitles_map hbar,
    rectTitles_untitled fun part => untitled_of_mem_legend]

theorem rectTitles_cells (chart : Chart) (yBins : BinSpec) (joint : JointHistogram) (frame : Frame)
    (rest : List Token) :
    rectTitles (tokensAll (cells chart yBins joint frame) ++ rest) =
      (if joint.maxCount = 0 then [] else (shownCells joint).map (·.title)) ++
        rectTitles rest := by
  rw [cells_eq]
  split
  · rfl
  · have hcell (shown : ShownCell) (rest : List Token) :
        rectTitles ((shown.rect chart yBins joint frame).tokens ++ rest) =
          shown.title :: rectTitles rest :=
      rectTitles_titledRect _ _ _ _ _ _ rest
    have hticks : ∀ part ∈ (ticks yBins.labels).map fun tick =>
        rowText frame yBins.binCount tick.1 tick.2, Untitled part :=
      List.forall_mem_map.2 fun tick _ => untitled_element (by decide) _ (untitled_text _)
    rw [tokensAll_append, List.append_assoc, rectTitles_map hcell, rectTitles_untitled hticks]

end Svg

namespace Chart

open Markup Svg

theorem rectTitles_drawing {titles : List String} (scale : LogScale) (canvas : Canvas)
    (chart : Chart)
    (h : ∀ rest, rectTitles (tokensAll (plot scale (.ofCanvas canvas) chart) ++ rest) =
      titles ++ rectTitles rest) :
    rectTitles (chart.drawing scale canvas).tokens = titles := by
  have hstyle : Untitled (.element "style" [] [.verbatim Svg.style]) :=
    untitled_element (by decide) _ (untitled_verbatim _)
  have hname (attributes : List (String × String)) :
      Untitled (.element "text" attributes [.text chart.title]) :=
    untitled_element (by decide) _ (untitled_text _)
  have hroot (attributes : List (String × String)) :
      ∀ token ∈ tagsOf [.opening "svg" attributes], token.opens "rect" = false :=
    List.forall_mem_singleton.2 (by decide : ("svg" == "rect") = false)
  rw [drawing, tokens_cons, ← List.singleton_append, rectTitles_append (hroot _), tokensAll,
    tokensAll, tokensAll, tokensAll_append, List.append_assoc, rectTitles_append hstyle,
    List.append_assoc, rectTitles_append (untitled_empty _ _), List.append_assoc,
    rectTitles_append (hname _), List.append_assoc, h,
    rectTitles_untitled fun part => untitled_of_mem_axes]
  exact List.append_nil titles

/-! ## Bars and counts -/

/-- A bin of a series that has samples. -/
structure CountedBin where
  label : String
  bin : Nat
  count : Nat
  /-- The number of samples of the series. -/
  total : Nat
  deriving DecidableEq

/-- The bins that have samples, series by series and bin by bin. -/
def countedBins (chart : Chart) : List CountedBin :=
  (chart.series.zip chart.histograms).flatMap fun (series, histogram) =>
    histogram.counts.zipIdx.filterMap fun (count, bin) =>
      if count = 0 then none else some ⟨series.label, bin, count, histogram.total⟩

/-- The title of a bar with a given number. -/
def CountedBin.title (chart : Chart) (counted : CountedBin) (number : String) : String :=
  counted.label ++ " [" ++ edgeText (chart.xBins.edge counted.bin) ++ ", " ++
    edgeText (chart.xBins.edge (counted.bin + 1)) ++ "): " ++ number

/-- The height of the bar of a bin. -/
def barValue (chart : Chart) (total bin count : Nat) : Binary64 :=
  if chart.density then
    if total = 0 then 0 else .ofNat count / (.ofNat total * chart.xBins.width bin)
  else .ofNat count

theorem barValue_of_counts {chart : Chart} (h : chart.density = false) (total bin count : Nat) :
    barValue chart total bin count = .ofNat count := by
  rw [barValue, h, if_neg Bool.false_ne_true]

theorem barValue_of_densities {chart : Chart} (h : chart.density = true) {total : Nat}
    (htotal : total ≠ 0) (bin count : Nat) :
    barValue chart total bin count = .ofNat count / (.ofNat total * chart.xBins.width bin) := by
  rw [barValue, if_pos h, if_neg htotal]

theorem barValues_eq (chart : Chart) :
    barValues chart = chart.histograms.map fun histogram =>
      histogram.counts.mapIdx (barValue chart histogram.total) := by
  rw [barValues]
  refine List.map_congr_left fun histogram _ => ?_
  have hmap {α : Type} (f : Nat → α) :
      histogram.counts.map f = histogram.counts.mapIdx fun _ count => f count := by
    rw [List.mapIdx_eq_zipIdx_map]
    conv_lhs => rw [← List.zipIdx_map_fst 0 histogram.counts, List.map_map]
    rfl
  have hvalue : barValue chart histogram.total = fun bin count =>
      if chart.density then
        if histogram.total = 0 then 0
        else .ofNat count / (.ofNat histogram.total * chart.xBins.width bin)
      else .ofNat count := rfl
  rw [hvalue, Histogram.density]
  split_ifs
  · exact hmap _
  · rfl
  · exact hmap _

/-- Bars are as high as counts: above zero exactly where a count is. -/
def Faithful (chart : Chart) : Prop :=
  ∀ histogram ∈ chart.histograms, ∀ entry ∈ histogram.counts.zipIdx,
    (barValue chart histogram.total entry.2 entry.1).Follows entry.1

theorem flatMap_zipIdx_fst {α β : Type} (items : List α) (f : α → List β) :
    items.zipIdx.flatMap (fun entry => f entry.1) = items.flatMap f := by
  conv_rhs => rw [← List.zipIdx_map_fst 0 items, List.flatMap_map]

theorem zipIdx_mapIdx {α β : Type} (f : Nat → α → β) (items : List α) :
    (items.mapIdx f).zipIdx = items.zipIdx.map fun entry => (f entry.2 entry.1, entry.2) := by
  refine List.ext_getElem (by simp) fun position _ _ => ?_
  simp

theorem map_title_shownBars (chart : Chart) :
    (shownBars chart).map (·.title chart) =
      if (barValues chart).flatten.foldl Binary64.max 0 ≤ 0 then []
      else
        (chart.series.zip chart.histograms).flatMap fun entry =>
          entry.2.counts.zipIdx.filterMap fun counted =>
            if barValue chart entry.2.total counted.2 counted.1 ≤ 0 then none
            else
              some (CountedBin.title chart ⟨entry.1.label, counted.2, counted.1, entry.2.total⟩
                (barValue chart entry.2.total counted.2 counted.1).plainText) := by
  rw [shownBars]
  simp only [apply_ite (List.map _), List.map_nil, List.map_flatMap, List.map_filterMap,
    apply_ite (Option.map _), Option.map_none, Option.map_some]
  congr 1
  rw [barValues_eq, List.zip_map_right, List.zipIdx_map, List.flatMap_map]
  refine Eq.trans ?_ (flatMap_zipIdx_fst _ _)
  refine congrArg (fun f => List.flatMap f _) (funext fun entry => ?_)
  obtain ⟨⟨series, histogram⟩, position⟩ := entry
  show List.filterMap _ (histogram.counts.mapIdx (barValue chart histogram.total)).zipIdx = _
  rw [zipIdx_mapIdx, List.filterMap_map]
  rfl

theorem mem_histograms_of_zip {chart : Chart} {entry : LabeledSeries × Histogram}
    (h : entry ∈ chart.series.zip chart.histograms) : entry.2 ∈ chart.histograms :=
  (List.of_mem_zip h).2

/-- Where bars are as high as counts, a picture that is left empty has nothing to show. -/
theorem nonpos_of_greatest {chart : Chart} (h : chart.Faithful)
    (hgreatest : (barValues chart).flatten.foldl Binary64.max 0 ≤ 0) {histogram : Histogram}
    (hhistogram : histogram ∈ chart.histograms) {entry : Nat × Nat}
    (hentry : entry ∈ histogram.counts.zipIdx) :
    barValue chart histogram.total entry.2 entry.1 ≤ 0 := by
  refine Binary64.le_trans ?_ hgreatest
  refine (Binary64.picks_max.foldl 0 (barValues chart).flatten).2 _ (List.mem_cons_of_mem _ ?_)
    (h histogram hhistogram entry hentry).number
  rw [barValues_eq, List.mem_flatten]
  refine ⟨_, List.mem_map_of_mem hhistogram, ?_⟩
  rw [List.mapIdx_eq_zipIdx_map]
  exact List.mem_map.2 ⟨entry, hentry, rfl⟩

theorem titles_shownBars {chart : Chart} (h : chart.Faithful) :
    (shownBars chart).map (·.title chart) =
      (countedBins chart).map fun counted =>
        counted.title chart (barValue chart counted.total counted.bin counted.count).plainText := by
  rw [map_title_shownBars, countedBins, List.map_flatMap]
  simp only [List.map_filterMap, apply_ite (Option.map _), Option.map_none, Option.map_some]
  split_ifs with hgreatest
  · symm
    rw [List.flatMap_eq_nil_iff]
    intro entry hentry
    rw [List.filterMap_eq_nil_iff]
    intro counted hcounted
    have hhistogram := mem_histograms_of_zip hentry
    rw [if_pos]
    exact (h _ hhistogram counted hcounted).nonpos_iff.1
      (nonpos_of_greatest h hgreatest hhistogram hcounted)
  · refine List.flatMap_congr fun entry hentry => ?_
    refine List.filterMap_congr fun counted hcounted => ?_
    exact if_congr (h _ (mem_histograms_of_zip hentry) counted hcounted).nonpos_iff rfl rfl

theorem faithful_of_counts {chart : Chart} (h : chart.density = false) : chart.Faithful := by
  intro histogram _ entry _
  rw [barValue_of_counts h]
  exact Binary64.follows_ofNat entry.1

theorem eq_zero_of_no_samples {bins : BinSpec} {samples : List Binary64} {count : Nat}
    (hnone : samples.length = 0) (h : count ∈ tally bins.binCount bins.binIndex samples) :
    count = 0 := by
  rw [List.length_eq_zero_iff.1 hnone, tally_nil] at h
  exact List.eq_of_mem_replicate h

theorem total_pos_of_mem_countedBins {chart : Chart} {counted : CountedBin}
    (h : counted ∈ countedBins chart) : 0 < counted.total := by
  obtain ⟨⟨labeled, histogram⟩, hentry, hcounted⟩ := List.mem_flatMap.1 h
  obtain ⟨⟨count, bin⟩, hcount, hsome⟩ := List.mem_filterMap.1 hcounted
  obtain ⟨series, -, hseries⟩ := List.mem_map.1 (mem_histograms_of_zip hentry)
  subst hseries
  dsimp only at hsome
  split_ifs at hsome with hzero
  cases hsome
  rw [Histogram.counts_ofSeries] at hcount
  exact Nat.pos_of_ne_zero fun hnone =>
    hzero (eq_zero_of_no_samples hnone (List.fst_mem_of_mem_zipIdx hcount))

/-- Densities over bins that all series share do not vanish where there are samples. -/
theorem faithful_of_densities {chart : Chart} {shared : List (List UInt64)} {divisions : Nat}
    {base : Binary64} (hdensity : chart.density = true)
    (hbins : BinSpec.sharedRange (shared.map samplesOf) divisions base = .ok chart.xBins)
    (hword : ∀ series ∈ chart.series, series.values.length < 1 <<< 64) : chart.Faithful := by
  intro histogram hhistogram entry hentry
  obtain ⟨series, hseries, rfl⟩ := List.mem_map.1 hhistogram
  have htotal : (Histogram.ofSeries chart.xBins series.values).total = series.values.length := rfl
  rw [Histogram.counts_ofSeries] at hentry
  rw [htotal]
  by_cases hnone : series.values.length = 0
  · rw [barValue, if_pos hdensity, if_pos hnone,
      eq_zero_of_no_samples hnone (List.fst_mem_of_mem_zipIdx hentry)]
    exact Binary64.follows_ofNat 0
  · have hbin := List.snd_lt_of_mem_zipIdx hentry
    rw [length_tally, Nat.add_zero] at hbin
    rw [barValue_of_densities hdensity hnone]
    exact Binary64.follows_density hbins hbin (Nat.pos_of_ne_zero hnone) (hword series hseries) _

/-! ## Sums of what is shown -/

theorem sum_filterMap_zipIdx (counts : List Nat) :
    (counts.zipIdx.filterMap fun entry => if entry.1 = 0 then none else some entry.1).sum =
      counts.sum := by
  have hfirst : counts.zipIdx.filterMap (fun entry => if entry.1 = 0 then none else some entry.1) =
      counts.filterMap fun count => if count = 0 then none else some count := by
    conv_rhs => rw [← List.zipIdx_map_fst 0 counts, List.filterMap_map]
    rfl
  rw [hfirst]
  clear hfirst
  induction counts with
  | nil => rfl
  | cons count counts ih =>
    rw [List.filterMap_cons]
    by_cases hzero : count = 0
    · rw [if_pos hzero, List.sum_cons, hzero, Nat.zero_add]
      exact ih
    · rw [if_neg hzero, List.sum_cons, List.sum_cons]
      exact congrArg (count + ·) ih

theorem sum_flatMap {α : Type} (items : List α) (f : α → List Nat) :
    (items.flatMap f).sum = (items.map fun item => (f item).sum).sum := by
  rw [List.flatMap_def, List.sum_flatten, List.map_map]
  rfl

theorem sum_shownCells (joint : JointHistogram) :
    ((shownCells joint).map (·.count)).sum = joint.counts.flatten.sum := by
  rw [shownCells, List.map_flatMap]
  simp only [List.map_filterMap, apply_ite (Option.map _), Option.map_none, Option.map_some]
  rw [flatMap_zipIdx_fst joint.counts fun column =>
    column.zipIdx.filterMap fun entry => if entry.1 = 0 then none else some entry.1]
  simp only [sum_flatMap, sum_filterMap_zipIdx]
  exact List.sum_flatten.symm

theorem sum_countedBins (chart : Chart) :
    ((countedBins chart).map (·.count)).sum = (chart.histograms.map (·.counts.sum)).sum := by
  rw [countedBins, List.map_flatMap]
  simp only [List.map_filterMap, apply_ite (Option.map _), Option.map_none, Option.map_some,
    sum_flatMap, sum_filterMap_zipIdx]
  have hlength : chart.histograms.length ≤ chart.series.length := by
    rw [histograms, List.length_map]
  conv_rhs => rw [← List.map_snd_zip hlength, List.map_map]
  rfl

theorem le_foldl_max {count greatest : Nat} {counts : List Nat} (h : count ∈ greatest :: counts) :
    count ≤ counts.foldl Nat.max greatest := by
  induction counts generalizing greatest count with
  | nil => exact Nat.le_of_eq (List.mem_singleton.1 h)
  | cons next counts ih =>
    have hnext : Nat.max greatest next ≤ counts.foldl Nat.max (Nat.max greatest next) :=
      ih List.mem_cons_self
    rw [List.foldl_cons]
    rcases List.mem_cons.1 h with rfl | h
    · exact Nat.le_trans (Nat.le_max_left _ _) hnext
    · rcases List.mem_cons.1 h with rfl | h
      · exact Nat.le_trans (Nat.le_max_right _ _) hnext
      · exact ih (List.mem_cons_of_mem _ h)

theorem shownCells_eq_nil {joint : JointHistogram} (h : joint.maxCount = 0) :
    shownCells joint = [] := by
  rw [shownCells, List.flatMap_eq_nil_iff]
  intro column hcolumn
  rw [List.filterMap_eq_nil_iff]
  intro entry hentry
  have hmem : entry.1 ∈ joint.counts.flatten :=
    List.mem_flatten.2 ⟨_, List.fst_mem_of_mem_zipIdx hcolumn,
      List.fst_mem_of_mem_zipIdx hentry⟩
  have hle : entry.1 ≤ joint.maxCount := le_foldl_max (List.mem_cons_of_mem 0 hmem)
  exact if_pos (by omega)

/-! ## Readers of pictures -/

/-- Who reads the picture of a chart finds these titles of rectangles. -/
def ShowsTitles (scale : LogScale) (canvas : Canvas) (chart : Chart) (titles : List String) :
    Prop :=
  ∃ text tokens, chart.toSvg scale canvas = .ok text ∧ Markup.read text = some tokens ∧
    rectTitles tokens = titles

theorem literal_shownTicks {chart : Chart} (h : chart.tickLabels = chart.xBins.labels) :
    ∀ tick ∈ shownTicks chart, Literal tick.1.toList := by
  intro tick htick
  have hlabel := List.mem_of_mem_take (List.mem_of_getElem? (getElem?_of_mem_ticks htick))
  rw [h] at hlabel
  exact (plain_of_mem_labels hlabel).literal

theorem showsTitles_of_plot {titles : List String} (scale : LogScale) (canvas : Canvas)
    {chart : Chart} (hplotted : chart.Plotted) (hlabels : chart.tickLabels = chart.xBins.labels)
    (h : ∀ rest, rectTitles (tokensAll (plot scale (.ofCanvas canvas) chart) ++ rest) =
      titles ++ rectTitles rest) : ShowsTitles scale canvas chart titles :=
  ⟨_, _, toSvg_eq_ok_iff.2 ⟨hplotted, rfl⟩,
    (readsAs_drawing scale canvas (literal_shownTicks hlabels)).read,
    rectTitles_drawing scale canvas chart h⟩

theorem showsTitles_of_bars (scale : LogScale) (canvas : Canvas) {chart : Chart}
    (hkind : chart.isHeatMap = false) (hseries : chart.series ≠ [])
    (hplaced : chart.EachPlaced) (hlabels : chart.tickLabels = chart.xBins.labels)
    (h : chart.Faithful)
    {number : CountedBin → Binary64}
    (hnumber : ∀ counted ∈ countedBins chart,
      barValue chart counted.total counted.bin counted.count = number counted) :
    ShowsTitles scale canvas chart ((countedBins chart).map fun counted =>
      counted.title chart (number counted).plainText) := by
  have hplotted : chart.Plotted :=
    { series := hseries
      bars := fun _ => hplaced
      cells := fun hcells => absurd hcells (Bool.eq_false_iff.1 hkind) }
  refine showsTitles_of_plot scale canvas hplotted hlabels fun rest => ?_
  rw [plot, if_neg (Bool.eq_false_iff.1 hkind), rectTitles_bars, titles_shownBars h]
  exact congrArg (· ++ rectTitles rest) (List.map_congr_left fun counted hcounted => by
    rw [hnumber counted hcounted])

theorem showsTitles_of_cells (scale : LogScale) (canvas : Canvas) {chart : Chart}
    {yBins : BinSpec} {joint : JointHistogram} (hkind : chart.isHeatMap = true)
    (hseries : chart.series ≠ []) (hlabels : chart.tickLabels = chart.xBins.labels)
    (haxis : chart.yBins = some yBins) (hcounted : chart.countPairs = .ok (some joint)) :
    ShowsTitles scale canvas chart ((shownCells joint).map (·.title)) := by
  obtain ⟨hplaced, hjoint⟩ := countPairs_eq_some_iff.1 hcounted
  have hplotted : chart.Plotted :=
    { series := hseries
      bars := fun hbars => absurd hkind (Bool.eq_false_iff.1 hbars)
      cells := fun _ => ⟨hplaced, _, _, haxis, hjoint⟩ }
  refine showsTitles_of_plot scale canvas hplotted hlabels fun rest => ?_
  have hcells : plot scale (.ofCanvas canvas) chart =
      cells chart yBins joint (.ofCanvas canvas) := by
    rw [plot, if_pos hkind, haxis, hjoint]
  rw [hcells, rectTitles_cells]
  split_ifs with hnone
  · rw [shownCells_eq_nil hnone]
    rfl
  · rfl

/-- Nothing is lost between the counts of a chart and its picture. The cells of a heat map, and the
bars of a comparison, have the counts as their numbers, which add up to the number of samples and
are those of the chart as JSON; a comparison writes them as they are up to `2 ^ 53`, from where on
not all numbers are told apart. Bars of densities stand where there are samples, and nowhere
else. -/
theorem pictures_show_counts (scale : LogScale) (canvas : Canvas) (binning : Binning) :
    (∀ (name : String) (cutoffs : Cutoffs) (events : List Event) (operation : Operation)
      (chart : Chart),
      latencyVsSize binning (.ofEvents name cutoffs events) operation = .ok chart →
        ∃ joint json, chart.countPairs = .ok (some joint) ∧
          ShowsTitles scale canvas chart
            ((shownCells joint).map fun cell => natText cell.count ++ " ops") ∧
          ((shownCells joint).map (·.count)).sum = (eventsOf operation events).length ∧
          chart.toJson = .ok json ∧
          json.get? "counts_2d" = some (.list (joint.counts.map Json.nats))) ∧
    (∀ (token : RunToken) (traces : List (String × ClassifiedTrace)) (operation : Operation)
      (chart : Chart),
      logComparison scale binning token traces operation = .ok chart →
        chart.countEach = .ok chart.histograms ∧
        ShowsTitles scale canvas chart ((countedBins chart).map fun counted =>
          counted.title chart (Binary64.ofNat counted.count).plainText) ∧
        (∀ counted ∈ countedBins chart, counted.count < 2 ^ 53 →
          (Binary64.ofNat counted.count).plainText = natText counted.count) ∧
        ((countedBins chart).map (·.count)).sum =
          (traces.map fun trace => (trace.2.series operation).latencies.length).sum ∧
        ∃ json items, chart.toJson = .ok json ∧ json.get? "series" = some (.list items) ∧
          items.map (·.get? "counts") =
            chart.histograms.map fun histogram => some (Json.nats histogram.counts)) ∧
    ∀ (trace : ClassifiedTrace) (chart : Chart), combined binning trace = .ok chart →
      trace.malloc.latencies.length < 1 <<< 64 → trace.free.latencies.length < 1 <<< 64 →
        chart.countEach = .ok chart.histograms ∧
        ShowsTitles scale canvas chart ((countedBins chart).map fun counted =>
          counted.title chart
            (Binary64.ofNat counted.count /
              (.ofNat counted.total * chart.xBins.width counted.bin)).plainText) := by
  refine ⟨fun name cutoffs events operation chart h => ?_, fun token traces operation chart h => ?_,
    fun trace chart h hmalloc hfree => ?_⟩
  · obtain ⟨joint, hcounted, hsum, -, json, hjson, hcounts⟩ :=
      (countsPairs_latencyVsSize h).counted
    obtain ⟨xBins, yBins, -, -, rfl⟩ := latencyVsSize_eq_ok_iff.1 h
    exact ⟨joint, json, hcounted,
      showsTitles_of_cells scale canvas rfl (List.cons_ne_nil _ _) rfl rfl hcounted,
      (sum_shownCells joint).trans hsum, hjson, hcounts⟩
  · obtain ⟨hcounted, hsums, -, json, items, hjson, hitems, -, -, hcounts⟩ :=
      countsEach_logComparison h
    obtain ⟨text, htext⟩ := (drawable_logComparison h).svg canvas
    have hseries := (toSvg_eq_ok_iff.1 htext).1.series
    obtain ⟨xBins, hbins, rfl⟩ := logComparison_eq_ok_iff.1 h
    have hpos := (BinSpec.sound_of_logSpan hbins).binCount_pos
    refine ⟨hcounted, showsTitles_of_bars scale canvas rfl hseries (eachPlaced_of_pos hpos) rfl
      (faithful_of_counts rfl) fun counted _ => barValue_of_counts rfl _ _ _,
      fun counted _ hexact => Binary64.plainText_ofNat hexact, ?_, json, items, hjson, hitems,
      hcounts⟩
    rw [sum_countedBins, hsums]
  · obtain ⟨xBins, hbins, rfl⟩ := combined_eq_ok_iff.1 h
    have hshared : BinSpec.sharedRange
        ([trace.malloc.latencies, trace.free.latencies].map samplesOf) binning.combinedBins
        binning.roundingBase = .ok xBins := hbins
    have hword (latencies : List UInt64) (h : latencies.length < 1 <<< 64) :
        (samplesOf latencies).length < 1 <<< 64 := by rwa [length_samplesOf]
    have hpos := (BinSpec.sound_of_sharedRange hbins).binCount_pos
    refine ⟨countEach_eq (eachPlaced_of_pos hpos), showsTitles_of_bars scale canvas rfl
      (List.cons_ne_nil _ _) (eachPlaced_of_pos hpos) rfl (faithful_of_densities rfl hshared ?_)
      fun counted hcounted =>
        barValue_of_densities rfl (total_pos_of_mem_countedBins hcounted).ne' _ _⟩
    exact List.forall_mem_cons.2 ⟨hword _ hmalloc, List.forall_mem_singleton.2 (hword _ hfree)⟩

/-- A picture of each kind. The larger chunk was the faster one, so the two are in opposite cells,
and most bins of the densities stay empty. -/
theorem pictures_show_counts_sample :
    let binning : Binning := { heatMapBins := 3, logBins := 2 }
    let trace := ClassifiedTrace.ofEvents "run_first.csv" {} sampleEvents
    ∃ heatMap comparison both,
      latencyVsSize binning trace .malloc = .ok heatMap ∧
      ShowsTitles ⟨id, id⟩ {} heatMap ["1 ops", "1 ops"] ∧
      logComparison ⟨id, id⟩ binning ⟨"run"⟩ [("first", trace)] .free = .ok comparison ∧
      ShowsTitles ⟨id, id⟩ {} comparison ["first [300, 300.50): 1"] ∧
      combined binning trace = .ok both ∧
      ShowsTitles ⟨id, id⟩ {} both
        ["malloc [0, 45000): 0.000011111111111111112",
          "malloc [810000, 855000): 0.000011111111111111112",
          "free [0, 45000): 0.000022222222222222223"] := by
  intro binning trace
  obtain ⟨hcells, hbars, hdensities⟩ := pictures_show_counts ⟨id, id⟩ {} binning
  obtain ⟨heatMap, hheatMap, htitles⟩ : ∃ chart, latencyVsSize binning trace .malloc = .ok chart ∧
      chart.countPairs.toOption.map (fun joint => joint.map fun joint =>
        (shownCells joint).map fun cell => natText cell.count ++ " ops") =
        some (some ["1 ops", "1 ops"]) :=
    exists_of_toOption_map (by decide +kernel)
  obtain ⟨comparison, hcomparison, hcompared⟩ : ∃ chart,
      logComparison ⟨id, id⟩ binning ⟨"run"⟩ [("first", trace)] .free = .ok chart ∧
      (countedBins chart).map (fun counted =>
        counted.title chart (Binary64.ofNat counted.count).plainText) =
        ["first [300, 300.50): 1"] :=
    exists_of_toOption_map (by decide +kernel)
  obtain ⟨both, hboth, hdense⟩ : ∃ chart, combined binning trace = .ok chart ∧
      (countedBins chart).map (fun counted => counted.title chart
        (Binary64.ofNat counted.count /
          (.ofNat counted.total * chart.xBins.width counted.bin)).plainText) =
        ["malloc [0, 45000): 0.000011111111111111112",
          "malloc [810000, 855000): 0.000011111111111111112",
          "free [0, 45000): 0.000022222222222222223"] :=
    exists_of_toOption_map (by decide +kernel)
  obtain ⟨joint, json, hjoint, hshown, -⟩ := hcells _ _ _ _ _ hheatMap
  rw [hjoint] at htitles
  have htitles := Option.some.inj htitles
  refine ⟨heatMap, comparison, both, hheatMap, ?_, hcomparison, ?_, hboth, ?_⟩
  · rw [← Option.some.inj htitles]
    exact hshown
  · rw [← hcompared]
    exact (hbars _ _ _ _ hcomparison).2.1
  · rw [← hdense]
    exact (hdensities _ _ hboth (by decide) (by decide)).2

end Chart

end HeapLatency
