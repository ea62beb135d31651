/-
  Script/Text/Input.lean
  ======================
  **Lines of input.**

  Input is bytes.  A line ends at a line feed, before which one carriage return
  is dropped; what stands behind the last line feed is a line too, if there is
  anything.  A line need not be valid UTF-8.
-/
namespace Script

def lineFeed : UInt8 := 10

def carriageReturn : UInt8 := 13

/-- Split bytes into lines, without their line ends. -/
def byteLines (bytes : List UInt8) : List (List UInt8) :=
  match bytes with
  | [] => []
  | b :: rest =>
    match _h : (b :: rest).dropWhile (· != lineFeed) with
    | [] => [b :: rest]
    | _ :: below =>
      let line := (b :: rest).takeWhile (· != lineFeed)
      (if line.getLast? = some carriageReturn then line.dropLast else line) :: byteLines below
termination_by bytes.length
decreasing_by
  have := (List.dropWhile_sublist (l := b :: rest) (· != lineFeed)).length_le
  simp_all only [List.length_cons]
  omega

/-- The text that bytes encode, if they are valid UTF-8. -/
def decodeText? (bytes : ByteArray) : Option String := String.fromUTF8? bytes

/-- The lines of an input; `none` stands for a line that is not a text. -/
def inputLines (input : ByteArray) : List (Option String) :=
  (byteLines input.toList).map fun line => decodeText? ⟨line.toArray⟩

end Script
