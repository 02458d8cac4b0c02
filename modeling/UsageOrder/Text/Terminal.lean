import UsageOrder.Text.Basic

/-!
# Terminal sequences

A terminal takes some sequences of characters for commands, such as a change of colour.  Such a
sequence starts with an escape character and an opening bracket, goes on with digits, semicolons and
question marks, and ends with a letter.  Output that does not go to a terminal is written without
them.
-/

namespace UsageOrder
namespace Text

/-- Whether a character may stand between the start of a sequence and its last letter. -/
def isParameter (c : Char) : Bool := c.isDigit || c = ';' || c = '?'

/-- What follows a terminal sequence, given what follows its opening bracket; none if the sequence
is not one. -/
def afterSequence? : Text → Option Text
  | [] => none
  | c :: rest => if isParameter c then afterSequence? rest else if c.isAlpha then some rest else none

theorem afterSequence?_length {text rest : Text} (h : afterSequence? text = some rest) :
    rest.length < text.length := by
  induction text with
  | nil => simp [afterSequence?] at h
  | cons c text ih =>
    unfold afterSequence? at h
    split at h
    · have := ih h
      simp only [List.length_cons]
      omega
    · split at h
      · cases h
        simp
      · simp at h

/-- A text without terminal sequences. -/
def withoutSequences (text : Text) : Text :=
  match text with
  | [] => []
  | '\x1b' :: '[' :: rest =>
    match _h : afterSequence? rest with
    | some rest => withoutSequences rest
    | none => '\x1b' :: '[' :: withoutSequences rest
  | c :: rest => c :: withoutSequences rest
termination_by text.length
decreasing_by
  · have := afterSequence?_length _h
    simp only [List.length_cons]
    omega
  all_goals simp only [List.length_cons]; omega

/-- A line without terminal sequences. -/
def uncoloured (line : String) : String := String.ofList (withoutSequences line.toList)

end Text
end UsageOrder
