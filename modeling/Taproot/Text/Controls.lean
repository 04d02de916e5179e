/-! # Control sequences of terminals

A control sequence is the escape character, an opening bracket, parameters and a letter. Text that
is not written to a terminal goes without them.
-/
namespace Taproot.Text

def escapeMark : Char := '\x1b'

def isParameter (c : Char) : Bool := c.isDigit || c == ';' || c == '?'

/-- What follows the rest of a control sequence behind its escape character. -/
def afterControl? : List Char → Option (List Char)
  | '[' :: rest =>
    match rest.dropWhile isParameter with
    | c :: after => if c.isAlpha then some after else none
    | [] => none
  | _ => none

theorem length_afterControl? {cs rest : List Char} (h : afterControl? cs = some rest) :
    rest.length < cs.length := by
  unfold afterControl? at h
  split at h
  · rename_i tail
    split at h
    · rename_i c after heq
      have hl : (c :: after).length ≤ tail.length :=
        heq ▸ (List.dropWhile_sublist isParameter).length_le
      split at h
      · cases h
        simp only [List.length_cons] at hl ⊢
        omega
      · cases h
    · cases h
  · cases h

def dropControls (cs : List Char) : List Char :=
  match cs with
  | [] => []
  | c :: rest =>
    if c = escapeMark then
      match h : afterControl? rest with
      | some after =>
        have := length_afterControl? h
        dropControls after
      | none => c :: dropControls rest
    else c :: dropControls rest
termination_by cs.length
decreasing_by
  all_goals simp only [List.length_cons]; omega

def withoutControls (s : String) : String := String.ofList (dropControls s.toList)

end Taproot.Text
