import LangFile.Entry.Scan
import LangFile.Finding

/-!
# Comparing a language file with its reference

The file that is compared is the candidate. An entry of the candidate whose key the reference lacks
is an error, and one whose value is empty a warning. A key of the reference that no entry of the
candidate has is an error at the first entry with that key in the reference's text.
-/

namespace LangFile

/-- The findings about a candidate and about its reference. -/
structure Comparison where
  candidatePath : Text
  referencePath : Text
  candidate : List Finding
  reference : List Finding

namespace Comparison

/-- Some finding is an error. -/
def hasErrors (c : Comparison) : Bool :=
  (c.candidate ++ c.reference).any fun f => f.severity = .error

/-- The finding about an entry of the candidate, if it deserves one. -/
def candidateFinding? (path referenceName : Text) (referenceKeys : List Text) (e : Entry) :
    Option Finding :=
  let report (severity : Severity) (message : Text) : Finding :=
    ⟨path, ⟨e.start, e.stop⟩, severity, message, e.key⟩
  if !referenceKeys.contains e.key then
    some (report .error ("Key not present in " ++ referenceName))
  else if e.value = some [] then some (report .warning "Translation is empty")
  else none

/-- The finding about a key that the candidate lacks; none when no entry of the reference's text
has the key. -/
def referenceFinding? (path candidateName : Text) (entries : List Entry) (key : Text) :
    Option Finding :=
  (firstWithKey key entries).map fun e =>
    ⟨path, ⟨e.start, e.stop⟩, .error, "Missing translation in " ++ candidateName, key⟩

/-- Compares a candidate with a reference, whose keys are given in order. -/
def compare (candidatePath candidateText referencePath referenceText : Text)
    (referenceKeys : List Text) : Comparison :=
  let candidateName := (Path.ofText candidatePath).name
  let referenceName := (Path.ofText referencePath).name
  let entries := Entry.scan candidateText
  let found := entries.map (·.key)
  let missing := referenceKeys.filter fun key => !found.contains key
  { candidatePath, referencePath
    candidate := entries.filterMap (candidateFinding? candidatePath referenceName referenceKeys)
    reference :=
      missing.filterMap (referenceFinding? referencePath candidateName (Entry.scan referenceText)) }

end Comparison

end LangFile
