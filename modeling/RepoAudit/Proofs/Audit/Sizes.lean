import RepoAudit.Audit.Structure
import RepoAudit.Proofs.History.Totals

/-!
# Sizes

A file has hardly more lines than bytes, and the churn of a file is at most the number of lines of
all changes. So both fit into 64 bits if what they are counted from does.
-/

namespace RepoAudit

open Project

namespace Text

theorem length_fieldsBy_le (sep : Char → Bool) (cs : List Char) :
    (fieldsBy sep cs).length ≤ cs.length + 1 := by
  induction cs with
  | nil => simp [fieldsBy]
  | cons c rest ih =>
    unfold fieldsBy
    split
    · rename_i first others found
      rw [found] at ih
      split <;> simp only [List.length_cons] at ih ⊢ <;> omega
    · simp

theorem length_lines_le (cs : List Char) : (lines cs).length ≤ cs.length + 1 := by
  have fields := length_fieldsBy_le (· == '\n') cs
  unfold lines
  split
  · simp
  · split
    · simp
    · rename_i last before parts
      have same := congrArg List.length parts
      rw [List.length_reverse, List.length_cons] at same
      change (Text.fields '\n' cs).length ≤ _ at fields
      split <;> simp <;> omega

theorem length_decodedPieces_le (bs : List UInt8) : (decodedPieces bs).length ≤ bs.length := by
  fun_induction decodedPieces bs <;> simp_all <;> omega

end Text

/-- A file has hardly more lines than bytes. -/
theorem Audit.TextFile.lineCount_le (t : TextFile) :
    Source.lineCount t.text ≤ t.content.length + 1 := by
  have decoded : (Text.decoded t.content).length ≤ t.content.length := by
    rw [Text.decoded, List.length_map]
    exact Text.length_decodedPieces_le t.content
  calc Source.lineCount t.text
      ≤ (Text.lines t.text.toList).length := List.length_filter_le ..
    _ ≤ t.text.toList.length + 1 := Text.length_lines_le _
    _ = (Text.decoded t.content).length + 1 := by rw [text, String.toList_ofList]
    _ ≤ t.content.length + 1 := Nat.succ_le_succ decoded

namespace History

/-- The lines of all changes of a commit. -/
def Entry.allLines (e : Entry) : Nat := (e.changes.map fun c => c.added + c.deleted).sum

theorem Entry.linesIn_le (e : Entry) (path : String) :
    (e.linesIn path).added + (e.linesIn path).deleted ≤ e.allLines := by
  rw [linesIn, Lines.added_sum, Lines.deleted_sum, List.map_map, List.map_map, allLines]
  change ((e.changes.filter (·.path = path)).map (·.added)).sum +
    ((e.changes.filter (·.path = path)).map (·.deleted)).sum ≤ _
  rw [← List.sum_map_add]
  exact (List.filter_sublist.map _).sum_le_sum fun _ _ => Nat.zero_le _

theorem FileAccount.churn_le {counts : String → Bool} {entries : List Entry} {f : File}
    (account : FileAccount counts entries f) : f.churn ≤ (entries.map Entry.allLines).sum := by
  rw [account.churn, account.linesAdded, account.linesDeleted, ← List.sum_map_add]
  calc ((touching counts entries f.path).map fun e =>
        (e.linesIn f.path).added + (e.linesIn f.path).deleted).sum
      ≤ ((touching counts entries f.path).map Entry.allLines).sum :=
        List.sum_le_sum fun e _ => e.linesIn_le f.path
    _ ≤ (entries.map Entry.allLines).sum :=
        (List.filter_sublist.map _).sum_le_sum fun _ _ => Nat.zero_le _

end History

end RepoAudit
