/-!
# Quoted strings

A string literal stands between single quotes, and a quote inside it is written
twice. Each content has one written form, which `written` gives and `read?` reads.
-/

namespace QueryClause.Quoted

def quote : Char := '\''

def doubled : List Char → List Char
  | [] => []
  | char :: rest => if char = quote then quote :: quote :: doubled rest else char :: doubled rest

def written (content : List Char) : List Char :=
  quote :: doubled content ++ [quote]

/-- Reads what follows an opening quote: the content, and the text after the
closing quote. There is none if the literal is not closed. -/
def read? : List Char → Option (List Char × List Char)
  | [] => none
  | [char] => if char = quote then some ([], []) else none
  | char :: next :: rest =>
      if char = quote then
        if next = quote then (read? rest).map fun (content, after) => (quote :: content, after)
        else some ([], next :: rest)
      else (read? (next :: rest)).map fun (content, after) => (char :: content, after)

/-- Reading a written form gives its content, where no further quote follows. -/
theorem read?_doubled (content rest : List Char) (ends : rest.head? ≠ some quote) :
    read? (doubled content ++ quote :: rest) = some (content, rest) := by
  induction content with
  | nil =>
      cases rest with
      | nil => simp [doubled, read?]
      | cons next after =>
          have different : next ≠ quote := fun same => ends (by simp [same])
          simp [doubled, read?, different]
  | cons char others ih =>
      by_cases same : char = quote
      · simp [doubled, read?, same, ih]
      · cases split : doubled others ++ quote :: rest with
        | nil => simp at split
        | cons next after =>
            rw [split] at ih
            simp [doubled, read?, same, split, ih]

theorem eq_of_read?_eq_some {chars content rest : List Char}
    (found : read? chars = some (content, rest)) :
    chars = doubled content ++ quote :: rest ∧ rest.head? ≠ some quote := by
  fun_induction read? chars generalizing content rest with
  | case1 => simp at found
  | case2 =>
      simp only [Option.some.injEq, Prod.mk.injEq] at found
      obtain ⟨rfl, rfl⟩ := found
      simp_all [doubled]
  | case3 => simp at found
  | case4 _ ih =>
      obtain ⟨⟨inner, after⟩, read, same⟩ := Option.map_eq_some_iff.mp found
      simp only [Prod.mk.injEq] at same
      obtain ⟨rfl, rfl⟩ := same
      obtain ⟨shape, ends⟩ := ih read
      simp_all [doubled]
  | case5 =>
      simp only [Option.some.injEq, Prod.mk.injEq] at found
      obtain ⟨rfl, rfl⟩ := found
      simp_all [doubled]
  | case6 _ _ _ _ ih =>
      obtain ⟨⟨inner, after⟩, read, same⟩ := Option.map_eq_some_iff.mp found
      simp only [Prod.mk.injEq] at same
      obtain ⟨rfl, rfl⟩ := same
      obtain ⟨shape, ends⟩ := ih read
      simp_all [doubled]

end QueryClause.Quoted
