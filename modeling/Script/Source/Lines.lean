/-
  Script/Source/Lines.lean
  ========================
  **The lines of a source text.**

  Lines end at a line feed; one carriage return directly before the line feed
  belongs to the line end.  Text behind the last line feed is a line of its own
  only if there is any, and keeps a carriage return at its end.
-/
namespace Script

/-- A line without the carriage return of its line end. -/
def withoutReturn (line : List Char) : List Char :=
  if line.getLast? = some '\r' then line.dropLast else line

/-- The lines of a text, without their line ends. -/
def linesOf (cs : List Char) : List (List Char) :=
  match cs with
  | [] => []
  | c :: rest =>
    match _h : (c :: rest).dropWhile (· != '\n') with
    | [] => [c :: rest]
    | _ :: below => withoutReturn ((c :: rest).takeWhile (· != '\n')) :: linesOf below
termination_by cs.length
decreasing_by
  have := (List.dropWhile_sublist (l := c :: rest) (· != '\n')).length_le
  simp_all only [List.length_cons]
  omega

/-- Line `n` of a text, counted from one. -/
def sourceLine? (source : String) (n : Nat) : Option String :=
  match n with
  | 0 => none
  | i + 1 => ((linesOf source.toList)[i]?).map String.ofList

end Script
