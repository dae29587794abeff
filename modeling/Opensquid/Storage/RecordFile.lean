import Opensquid.Lib.FrontMatter
import Opensquid.Lib.Table

/-!
# Record files

One record a file: YAML front matter between two fences, then the text of the record.
-/

namespace Opensquid.Storage

open Opensquid.Lib Opensquid.Lib.FrontMatter

/-- The text holds `part`. -/
def includes (text part : String) : Prop := part.toList <:+: text.toList

instance (text part : String) : Decidable (includes text part) :=
  inferInstanceAs (Decidable (_ <:+: _))

/-- None: it throws. -/
def safeRecordId (id : String) : Option String :=
  if id = "" ∨ includes id "/" ∨ includes id "\\" ∨ includes id ".." then none else some id

theorem eq_of_safeRecordId {id safe : String} (accepted : safeRecordId id = some safe) : safe = id := by
  rw [safeRecordId] at accepted
  split at accepted
  · cases accepted
  · exact (Option.some.inj accepted).symm

/-- `${id}.md`. -/
def recordName (id : String) : String := id ++ ".md"

/-- `f.endsWith('.md')`. -/
def isRecordName (name : String) : Bool := ".md".toList.isSuffixOf name.toList

theorem recordName_injective {id id' : String} (same : recordName id = recordName id') : id = id' := by
  have chars := congrArg String.toList same
  rw [recordName, recordName, String.toList_append, String.toList_append] at chars
  exact String.toList_inj.mp (List.append_cancel_right chars)

theorem isRecordName_recordName (id : String) : isRecordName (recordName id) = true := by
  rw [isRecordName, recordName, String.toList_append, List.isSuffixOf_iff_suffix]
  exact List.suffix_append _ _

/-- `new Date(0).toISOString()`. -/
def epoch : String := "1970-01-01T00:00:00.000Z"

end Opensquid.Storage
