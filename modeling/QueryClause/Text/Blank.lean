import QueryClause.Text.Ranges

/-!
# Blank characters

The Unicode property White_Space, and the removal of blanks at the ends of a
text. The controls U+001C to U+001F and the zero-width characters are not blank.
-/

namespace QueryClause.Text

/-- The code points with the property White_Space. -/
def blankTable : List (Nat × Nat) :=
  [(0x09, 0x0d), (0x20, 0x20), (0x85, 0x85), (0xa0, 0xa0), (0x1680, 0x1680), (0x2000, 0x200a),
   (0x2028, 0x2029), (0x202f, 0x202f), (0x205f, 0x205f), (0x3000, 0x3000)]

def isBlank (char : Char) : Bool :=
  covers blankTable char.toNat

def trimStart (chars : List Char) : List Char :=
  chars.dropWhile isBlank

def trimEnd : List Char → List Char
  | [] => []
  | char :: rest =>
      match trimEnd rest with
      | [] => if isBlank char then [] else [char]
      | kept => char :: kept

def trim (chars : List Char) : List Char :=
  trimEnd (trimStart chars)

/-- What is cut off the end is blank. -/
theorem trimEnd_append (chars : List Char) :
    ∃ blanks, trimEnd chars ++ blanks = chars ∧ ∀ char ∈ blanks, isBlank char = true := by
  induction chars with
  | nil => exact ⟨[], rfl, by simp⟩
  | cons char rest ih =>
      obtain ⟨blanks, whole, allBlank⟩ := ih
      unfold trimEnd
      split
      · rename_i nothing
        rw [nothing] at whole
        subst whole
        split
        · rename_i blank
          exact ⟨char :: blanks, rfl, by simpa [blank] using allBlank⟩
        · exact ⟨blanks, rfl, allBlank⟩
      · exact ⟨blanks, congrArg (char :: ·) whole, allBlank⟩

end QueryClause.Text
