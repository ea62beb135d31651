/-
  Script/Proofs/Source/Lines.lean
  ===============================
  **Lines and columns, counted.**

  A place in a text has a line and a column in two ways.  They can be counted
  while the text is read up to it, as positions are; or the whole text can be cut
  into lines, which drops line feeds, carriage returns before them, and nothing
  else.  Both agree: the line of that number is the one in which the place is,
  and what it holds before the place are the characters since the last line feed.

  Main statements: `Position.afterAll_start`, `linesOf_endedLines`,
  `sourceLine?_of_text`, and what the line of a place begins with
  (`exists_head?_linesOf`, `head?_linesOf_eq_none_iff`).
-/
import Mathlib.Data.List.DropRight
import Mathlib.Data.String.Basic
import Script.Source.Lines
import Script.Source.Position

namespace Script

/-! ### Counting -/

/-- The end of a text, behind its last line feed. -/
def behindFeed (cs : List Char) : List Char := cs.rtakeWhile (· != '\n')

theorem behindFeed_append_feed (cs : List Char) : behindFeed (cs ++ ['\n']) = [] :=
  List.rtakeWhile_concat_neg _ _ _ (by decide)

theorem behindFeed_append_other (cs : List Char) {c : Char} (other : c ≠ '\n') :
    behindFeed (cs ++ [c]) = behindFeed cs ++ [c] :=
  List.rtakeWhile_concat_pos _ _ _ (by simpa using other)

theorem feed_not_mem_behindFeed (cs : List Char) : '\n' ∉ behindFeed cs := by
  intro mem
  have other := List.mem_rtakeWhile_imp mem
  simp at other

theorem behindFeed_eq_nil_iff (cs : List Char) :
    behindFeed cs = [] ↔ cs = [] ∨ cs.getLast? = some '\n' := by
  rcases List.eq_nil_or_concat cs with rfl | ⟨cs, c, rfl⟩
  · simp [behindFeed]
  · rw [List.concat_eq_append, List.getLast?_concat]
    by_cases feed : c = '\n'
    · subst feed
      simp [behindFeed_append_feed]
    · simp [behindFeed_append_other cs feed, feed]

/-- The position behind a text, counted in it. -/
theorem Position.afterAll_start (cs : List Char) :
    Position.start.afterAll cs =
      ⟨String.utf8Len cs, 1 + cs.count '\n', 1 + (behindFeed cs).length⟩ := by
  induction cs using List.reverseRecOn with
  | nil => rfl
  | append_singleton cs c ih =>
    have size : String.utf8Len [c] = c.utf8Size := by simp
    rw [afterAll_append, ih, afterAll_cons, afterAll_nil, String.utf8Len_append, size, after]
    by_cases feed : c = '\n'
    · subst feed
      rw [if_pos rfl, behindFeed_append_feed, List.count_append]
      rfl
    · have none : [c].count '\n' = 0 := List.count_eq_zero.mpr (by simpa using Ne.symm feed)
      rw [if_neg feed, behindFeed_append_other cs feed, List.count_append, none, List.length_append]
      rfl

/-! ### Cutting into lines -/

/-- Lines, one below the other, each ended by a line feed. -/
def endedLines (ls : List (List Char)) : List Char := ls.flatMap (· ++ ['\n'])

theorem takeWhile_dropWhile_of_feed {line : List Char} (clean : '\n' ∉ line)
    (below : List Char) :
    (line ++ '\n' :: below).takeWhile (· != '\n') = line ∧
      (line ++ '\n' :: below).dropWhile (· != '\n') = '\n' :: below := by
  have others : ∀ c ∈ line, (c != '\n') = true := by
    intro c hc
    have other : c ≠ '\n' := by
      rintro rfl
      exact clean hc
    simpa using other
  rw [List.takeWhile_append_of_pos others, List.dropWhile_append_of_pos others]
  simp

/-- Up to the first line feed there is one line. -/
theorem linesOf_of_feed {line : List Char} (clean : '\n' ∉ line) (below : List Char) :
    linesOf (line ++ '\n' :: below) = withoutReturn line :: linesOf below := by
  obtain ⟨taken, dropped⟩ := takeWhile_dropWhile_of_feed clean below
  obtain ⟨c, cs, text⟩ : ∃ c cs, line ++ '\n' :: below = c :: cs := by
    rcases line with _ | ⟨c, cs⟩
    · exact ⟨_, _, rfl⟩
    · exact ⟨c, _, rfl⟩
  rw [text] at taken dropped ⊢
  rw [linesOf]
  split
  · rename_i none
    rw [dropped] at none
    cases none
  · rename_i rest more
    rw [dropped] at more
    obtain ⟨-, rfl⟩ := List.cons.inj more
    rw [taken]

/-- Without a line feed there is one line, unless there is nothing. -/
theorem linesOf_of_clean {cs : List Char} (solid : cs ≠ []) (clean : '\n' ∉ cs) :
    linesOf cs = [cs] := by
  obtain ⟨c, cs, rfl⟩ := List.exists_cons_of_ne_nil solid
  have dropped : (c :: cs).dropWhile (· != '\n') = [] := by
    rw [List.dropWhile_eq_nil_iff]
    intro d hd
    have other : d ≠ '\n' := by
      rintro rfl
      exact clean hd
    simpa using other
  rw [linesOf]
  split
  · rfl
  · rename_i more
    rw [dropped] at more
    cases more

theorem linesOf_endedLines {ls : List (List Char)} (clean : ∀ l ∈ ls, '\n' ∉ l) (cs : List Char) :
    linesOf (endedLines ls ++ cs) = ls.map withoutReturn ++ linesOf cs := by
  induction ls with
  | nil => rfl
  | cons l ls ih =>
    obtain ⟨first, others⟩ := List.forall_mem_cons.mp clean
    have text : endedLines (l :: ls) ++ cs = l ++ '\n' :: (endedLines ls ++ cs) := by
      simp [endedLines]
    rw [text, linesOf_of_feed first, ih others]
    rfl

theorem count_endedLines {ls : List (List Char)} (clean : ∀ l ∈ ls, '\n' ∉ l) :
    (endedLines ls).count '\n' = ls.length := by
  induction ls with
  | nil => rfl
  | cons l ls ih =>
    obtain ⟨first, others⟩ := List.forall_mem_cons.mp clean
    have text : endedLines (l :: ls) = l ++ '\n' :: endedLines ls := by simp [endedLines]
    rw [text, List.count_append, List.count_eq_zero.mpr first, List.count_cons_self, ih others,
      List.length_cons, Nat.zero_add]

/-- A text is lines that are ended, and what is behind its last line feed. -/
theorem exists_endedLines (cs : List Char) :
    ∃ ls, cs = endedLines ls ++ behindFeed cs ∧ ∀ l ∈ ls, '\n' ∉ l := by
  induction cs using List.reverseRecOn with
  | nil => exact ⟨[], rfl, List.forall_mem_nil _⟩
  | append_singleton cs c ih =>
    obtain ⟨ls, text, clean⟩ := ih
    by_cases feed : c = '\n'
    · subst feed
      refine ⟨ls ++ [behindFeed cs], ?_, ?_⟩
      · rw [behindFeed_append_feed]
        nth_rewrite 1 [text]
        simp [endedLines]
      · intro l hl
        rcases List.mem_append.mp hl with hl | hl
        · exact clean l hl
        · rw [List.mem_singleton.mp hl]
          exact feed_not_mem_behindFeed cs
    · refine ⟨ls, ?_, clean⟩
      rw [behindFeed_append_other cs feed, ← List.append_assoc, ← text]

/-! ### The line of a place -/

/-- The line of a place in a text, by its number, is the one that begins behind the
    last line feed before the place. -/
theorem sourceLine?_of_text {source : String} {before behind : List Char}
    (text : source.toList = before ++ behind) :
    sourceLine? source (1 + before.count '\n') =
      (linesOf (behindFeed before ++ behind)).head?.map String.ofList := by
  obtain ⟨ls, cut, clean⟩ := exists_endedLines before
  have number : before.count '\n' = ls.length := by
    rw [cut, List.count_append, count_endedLines clean,
      List.count_eq_zero.mpr (feed_not_mem_behindFeed before), Nat.add_zero]
  have lines : linesOf source.toList =
      ls.map withoutReturn ++ linesOf (behindFeed before ++ behind) := by
    rw [text, cut, List.append_assoc, linesOf_endedLines clean, ← cut]
  rw [Nat.add_comm, sourceLine?, number, lines, List.getElem?_append_right (by simp),
    List.length_map, Nat.sub_self, List.head?_eq_getElem?]

/-- A line goes on with what is neither a line feed nor a carriage return. -/
theorem exists_head?_linesOf {first : List Char} (clean : '\n' ∉ first) {c : Char}
    (feed : c ≠ '\n') (carriage : c ≠ '\r') (cs : List Char) :
    ∃ more below, (linesOf (first ++ c :: cs)).head? = some (first ++ c :: more) ∧
      cs = more ++ below := by
  by_cases ended : '\n' ∈ cs
  · obtain ⟨inside, below, rfl, clean'⟩ := List.eq_append_cons_of_mem ended
    have line : '\n' ∉ first ++ c :: inside := by
      simp [clean, clean', Ne.symm feed]
    have text : first ++ c :: (inside ++ '\n' :: below) =
        (first ++ c :: inside) ++ '\n' :: below := by simp
    rw [text, linesOf_of_feed line, List.head?_cons, withoutReturn]
    split
    · -- the carriage return that is dropped is behind `c`
      rename_i last
      rcases List.eq_nil_or_concat inside with rfl | ⟨inside, d, rfl⟩
      · rw [List.getLast?_concat] at last
        exact absurd (Option.some.inj last) carriage
      · refine ⟨inside, d :: '\n' :: below, ?_, by simp⟩
        rw [List.concat_eq_append, ← List.cons_append, ← List.append_assoc, List.dropLast_concat]
    · exact ⟨inside, '\n' :: below, rfl, rfl⟩
  · have line : '\n' ∉ first ++ c :: cs := by
      simp [clean, ended, Ne.symm feed]
    refine ⟨cs, [], ?_, (List.append_nil cs).symm⟩
    rw [linesOf_of_clean (by simp) line, List.head?_cons]

theorem head?_linesOf_eq_none_iff {cs : List Char} (clean : '\n' ∉ cs) :
    (linesOf cs).head? = none ↔ cs = [] := by
  by_cases none : cs = []
  · subst none
    simp [linesOf]
  · simp [linesOf_of_clean none clean, none]

end Script
