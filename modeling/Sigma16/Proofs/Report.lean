/-
What a diagnostic shows: its message, the source line below it, and below that a mark under the place that is meant.
-/
import Sigma16.Report

namespace Sigma16.Report

/-- With colour, the name that starts an entry of the log is bold. -/
theorem heading_eq (name : Text) (color : Bool) :
    heading name color = if color then "\x1b[1m" ++ name ++ "\x1b[0m" else name := rfl

/-- A mark under a place of a line: blanks up to its column, and from there a caret and waves, as many as it is long.
A column before the line counts as the first one, and a column far behind it as the one right behind it. -/
structure Marks (position : Cursor) (source mark : Text) (blanks waves : Nat) : Prop where
  eq : mark = List.replicate blanks ' '.toUInt8 ++ '^'.toUInt8 :: List.replicate waves '~'.toUInt8
  before : position.column < 1 → blanks = 0
  inside : 1 ≤ position.column → position.column ≤ Text.width source + 1 → (blanks : Int) + 1 = position.column
  behind : Text.width source + 1 < position.column → blanks = Text.width source
  short : position.size < 1 → waves = 0
  size : 1 ≤ position.size → (waves : Int) + 1 = position.size

/-- A text that shows a diagnostic of a source line; with colour, the mark is red. -/
def Shows (e : Diagnostic) (source : Text) (color : Bool) (text : Text) : Prop :=
  ∃ mark blanks waves, Marks e.position source mark blanks waves ∧
    text = e.message ++ "\n" ++ source ++ "\n" ++ if color then "\x1b[31m" ++ mark ++ "\x1b[0m" else mark

theorem underline_marks (position : Cursor) (source : Text) : ∃ blanks waves,
    Marks position source (underline position source) blanks waves := by
  refine ⟨(min (max position.column 1) (Text.width source + 1) - 1).toNat, (position.size - 1).toNat, ?_, ?_, ?_, ?_,
    ?_, ?_⟩
  · unfold underline
    rw [List.append_assoc]
    rfl
  all_goals omega

theorem diagnostic_shows (e : Diagnostic) (source : Text) (color : Bool) :
    Shows e source color (diagnostic e source color) := by
  obtain ⟨blanks, waves, hmarks⟩ := underline_marks e.position source
  exact ⟨_, blanks, waves, hmarks, rfl⟩

end Sigma16.Report
