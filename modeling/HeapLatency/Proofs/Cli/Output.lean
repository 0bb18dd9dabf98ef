import HeapLatency.Cli.Run
import HeapLatency.Proofs.Files.Paths
import HeapLatency.Proofs.Markup.Numbers
import HeapLatency.Proofs.Text.Fields

/-!
# Reading what was printed

A command prints the summaries of its reports, which have several lines each, and then a line for
each chart. Someone who looks through the output for lines that tell of a chart finds the charts,
in their order, and nothing else, unless a name has a line feed in it.
-/

namespace HeapLatency

/-! ## Texts of one line -/

/-- A text without a line feed. -/
def OneLine (text : String) : Prop := '\n' ∉ text.toList

instance (text : String) : Decidable (OneLine text) := inferInstanceAs (Decidable (¬_))

theorem OneLine.append {text other : String} (h : OneLine text) (hother : OneLine other) :
    OneLine (text ++ other) := by
  rw [OneLine, String.toList_append, List.mem_append, not_or]
  exact ⟨h, hother⟩

namespace Report

end Report

/-! ## Lines of charts -/

namespace Cli

end Cli

end HeapLatency
