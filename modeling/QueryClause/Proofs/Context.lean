import QueryClause.Proofs.Characters
import QueryClause.Token.Numeral

/-!
# Readers and what follows

A reader cuts a text in two, into what it takes and what it leaves. How far it goes
may depend on what follows. Two properties say that the dependence is slight: the
end of a text that a reader leaves alone can be removed, and a stop with anything
behind it can be added.
-/

namespace QueryClause

/-- Cutting loses nothing. -/
def Lossless (reader : List Char → List Char × List Char) : Prop :=
  ∀ chars, (reader chars).1 ++ (reader chars).2 = chars

/-- An end of the text that is left alone can be removed. -/
def Prunes (reader : List Char → List Char × List Char) : Prop :=
  ∀ ⦃chars cut taken rest : List Char⦄,
    reader (chars ++ cut) = (taken, rest ++ cut) → reader chars = (taken, rest)

/-- A stop, and whatever comes after it, can be added at the end. -/
def Extends (reader : List Char → List Char × List Char) : Prop :=
  ∀ ⦃chars more : List Char⦄, Stops more →
    reader (chars ++ more) = ((reader chars).1, (reader chars).2 ++ more)

theorem Lossless.eq_append {reader : List Char → List Char × List Char}
    (lossless : Lossless reader) {chars cut taken rest : List Char}
    (found : reader (chars ++ cut) = (taken, rest ++ cut)) : chars = taken ++ rest := by
  have whole := lossless (chars ++ cut)
  rw [found, ← List.append_assoc] at whole
  exact (List.append_cancel_right whole).symm

/-- A reader that takes nothing of an end of a text takes nothing of the empty text. -/
theorem Lossless.of_nil {reader : List Char → List Char × List Char}
    (lossless : Lossless reader) {cut taken rest : List Char}
    (found : reader cut = (taken, rest ++ cut)) : taken = [] ∧ rest = [] := by
  have whole : [] = taken ++ rest := lossless.eq_append found
  exact List.append_eq_nil_iff.mp whole.symm

/-! ## Runs of characters -/

/-- The reader of the longest run of characters that pass a test. -/
def run (test : Char → Bool) (chars : List Char) : List Char × List Char :=
  (chars.takeWhile test, chars.dropWhile test)

theorem run_lossless (test : Char → Bool) : Lossless (run test) :=
  fun _ => List.takeWhile_append_dropWhile

/-- A run ends before the first character that fails the test. -/
theorem run_append {test : Char → Bool} {taken rest : List Char}
    (inside : ∀ char ∈ taken, test char = true)
    (outside : ∀ char ∈ rest.head?, test char = false) : run test (taken ++ rest) = (taken, rest) := by
  rw [run, List.takeWhile_append_of_pos inside, List.dropWhile_append_of_pos inside]
  cases rest with
  | nil => simp
  | cons char others => simp [outside char rfl]

/-- A text is split before its first character outside a class in one way only. -/
theorem eq_of_append_run {test : Char → Bool} {taken other rest behind : List Char}
    (inside : ∀ char ∈ taken, test char = true) (insideOther : ∀ char ∈ other, test char = true)
    (outside : ∀ char ∈ rest.head?, test char = false)
    (outsideBehind : ∀ char ∈ behind.head?, test char = false)
    (whole : taken ++ rest = other ++ behind) : taken = other ∧ rest = behind := by
  have first := run_append inside outside
  rw [whole, run_append insideOther outsideBehind, Prod.mk.injEq] at first
  exact ⟨first.1.symm, first.2.symm⟩

theorem head?_dropWhile {test : Char → Bool} {chars : List Char} {char : Char}
    (next : char ∈ (chars.dropWhile test).head?) : test char = false := by
  have := List.head?_dropWhile_not test chars
  simp_all

theorem run_prunes (test : Char → Bool) : Prunes (run test) := by
  intro chars cut taken rest found
  induction chars generalizing taken with
  | nil =>
      obtain ⟨rfl, rfl⟩ := (run_lossless test).of_nil found
      rfl
  | cons char others ih =>
      cases passes : test char with
      | true =>
          simp only [run, List.cons_append, List.takeWhile_cons_of_pos passes,
            List.dropWhile_cons_of_pos passes, Prod.mk.injEq] at found ⊢
          obtain ⟨rfl, left⟩ := found
          have inner := ih (Prod.ext rfl left)
          simp only [run, Prod.mk.injEq] at inner
          exact ⟨by rw [inner.1], inner.2⟩
      | false =>
          have whole := (run_lossless test).eq_append found
          obtain rfl : taken = [] := by simpa [run, passes] using (congrArg Prod.fst found).symm
          rw [← show char :: others = rest from whole]
          simp [run, passes]

theorem run_extends {test : Char → Bool} (refused : ∀ char, isStop char = true → test char = false) :
    Extends (run test) := by
  intro chars more stops
  induction chars with
  | nil =>
      cases more with
      | nil => rfl
      | cons char rest => simp [run, refused char (stops_cons.mp stops)]
  | cons char others ih =>
      cases passes : test char with
      | true => simp_all [run]
      | false => simp [run, passes]

/-- The reader of one character, if it passes a test. -/
def optional (test : Char → Bool) : List Char → List Char × List Char
  | [] => ([], [])
  | char :: rest => if test char then ([char], rest) else ([], char :: rest)

theorem optional_prunes (test : Char → Bool) : Prunes (optional test) := by
  intro chars cut taken rest found
  cases chars with
  | nil =>
      cases cut with
      | nil => simpa [optional] using found
      | cons char others =>
          have lengths := congrArg (fun pair => pair.2.length) found
          cases passes : test char with
          | true => simp [optional, passes] at lengths; omega
          | false => simp_all [optional]
  | cons char others =>
      simp only [optional, List.cons_append] at found ⊢
      split at found
      · simp_all
      · simp only [Prod.mk.injEq] at found
        obtain ⟨rfl, left⟩ := found
        rw [← List.cons_append] at left
        rw [List.append_cancel_right left]
        simp_all

theorem optional_extends {test : Char → Bool}
    (refused : ∀ char, isStop char = true → test char = false) : Extends (optional test) := by
  intro chars more stops
  cases chars with
  | nil =>
      cases more with
      | nil => rfl
      | cons char rest => simp [optional, refused char (stops_cons.mp stops)]
  | cons char others =>
      simp only [optional, List.cons_append]
      split <;> rfl

/-! ## Words and numerals -/

theorem refuses_of_isStop {char : Char} (stop : isStop char = true) :
    Word.isPart char = false ∧ char.isDigit = false ∧ Word.isStart char = false ∧
      Decimal.isExponentMark char = false ∧ char ∉ ['/', '.', '+', '-'] := by
  obtain ⟨noPart, noDate, noSlash⟩ := apart_of_isStop stop
  refine ⟨noPart, ?_, ?_, ?_, ?_⟩
  · cases digit : char.isDigit with
    | false => rfl
    | true => simp [(apart_of_isDigit digit).1] at noPart
  · cases starts : Word.isStart char with
    | false => rfl
    | true => simp [Word.isPart_of_isStart starts] at noPart
  · cases mark : Decimal.isExponentMark char with
    | false => rfl
    | true =>
        simp only [Decimal.isExponentMark, Bool.or_eq_true, beq_iff_eq] at mark
        rcases mark with rfl | rfl <;> exact absurd noPart (by decide)
  · intro mark
    simp only [List.mem_cons, List.not_mem_nil, or_false, noSlash, false_or] at mark
    rcases mark with rfl | rfl | rfl <;> exact absurd noDate (by decide)

namespace Word

theorem readPath_lossless : Lossless readPath :=
  readPath_append

/-- Either a path is one word, or a slash follows its first word. -/
theorem readPath_cases (chars : List Char) :
    readPath chars = run isPart chars ∨
      (chars.dropWhile isPart).head? = some '/' ∧ '/' ∈ (readPath chars).1 := by
  induction chars with
  | nil => exact Or.inl rfl
  | cons char rest ih =>
      by_cases part : isPart char = true
      · simp only [readPath, run, part, Bool.true_or, if_true, List.takeWhile_cons_of_pos,
          List.dropWhile_cons_of_pos]
        exact ih.imp (fun same => by rw [same]; rfl) fun ⟨slash, mem⟩ =>
          ⟨slash, List.mem_cons_of_mem _ mem⟩
      · by_cases slash : char = '/' ∧ begins rest = true
        · obtain ⟨rfl, follows⟩ := slash
          exact Or.inr (by simp [readPath, part, follows])
        · exact Or.inl (by simp_all [readPath, run])

/-- A path that begins with a word is not empty. -/
theorem readPath_ne_nil {chars : List Char} (starts : begins chars = true) :
    (readPath chars).1 ≠ [] := by
  cases chars with
  | nil => simp [begins] at starts
  | cons char rest => simp [readPath, isPart_of_isStart starts]

theorem readPath_prunes : Prunes readPath := by
  intro chars cut taken rest found
  induction chars generalizing taken with
  | nil =>
      obtain ⟨rfl, rfl⟩ := readPath_lossless.of_nil found
      rfl
  | cons char others ih =>
      have whole := readPath_lossless.eq_append found
      by_cases goesOn : (isPart char || (char == '/' && begins (others ++ cut))) = true
      · simp only [readPath, List.cons_append, goesOn, if_true, Prod.mk.injEq] at found
        obtain ⟨rfl, left⟩ := found
        have inner := ih (Prod.ext rfl left)
        have goesOnAlone : (isPart char || (char == '/' && begins others)) = true := by
          cases others with
          | cons next last => exact goesOn
          | nil =>
              -- the word after the slash would have to be taken from what is cut off
              have empty : (readPath cut).1 = [] := (congrArg Prod.fst inner).symm
              cases starts : begins cut with
              | true => exact absurd empty (readPath_ne_nil starts)
              | false =>
                  have part : isPart char = true := by simpa [starts] using goesOn
                  simp [part]
        simp [readPath, goesOnAlone, inner]
      · have stays : ¬(isPart char || (char == '/' && begins others)) = true := by
          cases others with
          | cons next last => exact goesOn
          | nil =>
              intro goes
              exact goesOn (by simp_all [begins])
        obtain rfl : taken = [] := by
          simpa [readPath, goesOn] using (congrArg Prod.fst found).symm
        rw [← show char :: others = rest from whole]
        simp [readPath, stays]

theorem begins_append {chars more : List Char} (stops : Stops more) :
    begins (chars ++ more) = begins chars := by
  cases chars with
  | cons char rest => rfl
  | nil =>
      cases more with
      | nil => rfl
      | cons char rest => exact (refuses_of_isStop (stops_cons.mp stops)).2.2.1

theorem readPath_extends : Extends readPath := by
  intro chars more stops
  induction chars with
  | nil =>
      cases more with
      | nil => rfl
      | cons char rest =>
          have refused := refuses_of_isStop (stops_cons.mp stops)
          simp_all [readPath]
  | cons char others ih =>
      rw [List.cons_append, readPath, readPath, begins_append stops]
      split
      · simp [ih]
      · rfl

end Word

namespace Numeral

theorem readSign_eq : readSign = optional (fun char => char == '-') := by
  funext chars
  unfold readSign
  split
  · rfl
  · rename_i other
    cases chars with
    | nil => rfl
    | cons char rest =>
        have different : char ≠ '-' := fun same => other rest (by rw [same])
        simp [optional, different]

theorem readExponentSign_eq :
    readExponentSign = optional (fun char => char == '+' || char == '-') := by
  funext chars
  unfold readExponentSign
  split
  · rfl
  · rfl
  · rename_i noPlus noMinus
    cases chars with
    | nil => rfl
    | cons char rest =>
        have notPlus : char ≠ '+' := fun same => noPlus rest (by rw [same])
        have notMinus : char ≠ '-' := fun same => noMinus rest (by rw [same])
        simp [optional, notPlus, notMinus]

theorem readSign_prunes : Prunes readSign :=
  readSign_eq ▸ optional_prunes _

theorem readExponentSign_prunes : Prunes readExponentSign :=
  readExponentSign_eq ▸ optional_prunes _

theorem readDigits_prunes : Prunes readDigits :=
  run_prunes Char.isDigit

theorem readSign_extends : Extends readSign :=
  readSign_eq ▸ optional_extends fun char stop => by
    have := refuses_of_isStop stop
    simp_all

theorem readExponentSign_extends : Extends readExponentSign :=
  readExponentSign_eq ▸ optional_extends fun char stop => by
    have := refuses_of_isStop stop
    simp_all

theorem readDigits_extends : Extends readDigits :=
  run_extends fun _ stop => (refuses_of_isStop stop).2.1

theorem readFraction_cons (char : Char) (rest : List Char) :
    readFraction (char :: rest) =
      if char = '.' ∧ beginsWithDigit rest = true then
        (char :: (readDigits rest).1, (readDigits rest).2)
      else ([], char :: rest) := by
  by_cases point : char = '.'
  · subst point
    simp [readFraction]
  · simp [readFraction, point]

theorem readDigits_ne_nil {chars : List Char} (starts : beginsWithDigit chars = true) :
    (readDigits chars).1 ≠ [] := by
  cases chars with
  | nil => simp [beginsWithDigit] at starts
  | cons char rest => simp [readDigits, show char.isDigit = true from starts]

theorem readFraction_prunes : Prunes readFraction := by
  intro chars cut taken rest found
  cases chars with
  | nil =>
      obtain ⟨rfl, rfl⟩ := Lossless.of_nil readFraction_append found
      rfl
  | cons char others =>
      have whole := Lossless.eq_append readFraction_append found
      rw [List.cons_append, readFraction_cons] at found
      rw [readFraction_cons]
      split at found
      · rename_i present
        simp only [Prod.mk.injEq] at found
        obtain ⟨rfl, left⟩ := found
        have inner := readDigits_prunes (Prod.ext rfl left)
        have starts : beginsWithDigit others = true := by
          cases others with
          | cons next last => exact present.2
          | nil => exact absurd (congrArg Prod.fst inner).symm (readDigits_ne_nil present.2)
        simp [present.1, starts, inner]
      · rename_i absent
        obtain rfl : taken = [] := (congrArg Prod.fst found).symm
        have absentAlone : ¬(char = '.' ∧ beginsWithDigit others = true) := by
          cases others with
          | cons next last => exact absent
          | nil => simp [beginsWithDigit]
        rw [if_neg absentAlone, whole, List.nil_append]

theorem beginsWithDigit_append {chars more : List Char} (stops : Stops more) :
    beginsWithDigit (chars ++ more) = beginsWithDigit chars := by
  cases chars with
  | cons char rest => rfl
  | nil =>
      cases more with
      | nil => rfl
      | cons char rest => exact (refuses_of_isStop (stops_cons.mp stops)).2.1

theorem readFraction_extends : Extends readFraction := by
  intro chars more stops
  cases chars with
  | nil =>
      cases more with
      | nil => rfl
      | cons char rest =>
          have refused := refuses_of_isStop (stops_cons.mp stops)
          have noPoint : char ≠ '.' := by simp_all
          simp [readFraction, noPoint]
  | cons char others =>
      rw [List.cons_append, readFraction_cons, readFraction_cons, beginsWithDigit_append stops,
        readDigits_extends stops]
      split <;> rfl

theorem readExponent_prunes : Prunes readExponent := by
  intro chars cut taken rest found
  cases chars with
  | nil =>
      obtain ⟨rfl, rfl⟩ := Lossless.of_nil readExponent_append found
      rfl
  | cons mark others =>
      have whole := Lossless.eq_append readExponent_append found
      rw [List.cons_append] at found
      by_cases isMark : Decimal.isExponentMark mark = true
      · simp only [readExponent, isMark, if_true, Prod.mk.injEq] at found ⊢
        obtain ⟨rfl, left⟩ := found
        have digits := readDigits_append (readExponentSign (others ++ cut)).2
        rw [left, ← List.append_assoc] at digits
        have sign := readExponentSign_prunes (Prod.ext rfl digits.symm)
        rw [← digits] at left
        have inner := readDigits_prunes (Prod.ext rfl left)
        rw [← digits, sign]
        simp [inner]
      · simp only [readExponent, isMark] at found ⊢
        simp_all

theorem readExponent_extends : Extends readExponent := by
  intro chars more stops
  cases chars with
  | nil =>
      cases more with
      | nil => rfl
      | cons char rest =>
          have refused := refuses_of_isStop (stops_cons.mp stops)
          simp [readExponent, refused]
  | cons mark others =>
      by_cases isMark : Decimal.isExponentMark mark = true
      · simp only [readExponent, List.cons_append, isMark, if_true]
        rw [readExponentSign_extends stops]
        dsimp only
        rw [readDigits_extends stops]
      · simp [readExponent, isMark]

theorem readTail_prunes : Prunes readTail := by
  intro chars cut taken rest found
  cases chars with
  | nil =>
      obtain ⟨rfl, rfl⟩ := Lossless.of_nil readTail_append found
      rfl
  | cons char others =>
      have whole := Lossless.eq_append readTail_append found
      have starts : Word.begins (char :: others ++ cut) = Word.begins (char :: others) := rfl
      unfold readTail at found ⊢
      rw [starts] at found
      split at found
      · rename_i word
        rw [if_pos word]
        exact run_prunes Word.isPart found
      · rename_i noWord
        obtain rfl : taken = [] := (congrArg Prod.fst found).symm
        rw [if_neg noWord, whole, List.nil_append]

theorem readTail_extends : Extends readTail := by
  intro chars more stops
  unfold readTail
  rw [Word.begins_append stops]
  split
  · exact run_extends (fun _ stop => (refuses_of_isStop stop).1) stops
  · rfl

/-- The stages of a numeral, one after the other. -/
theorem read_eq {chars rest₁ rest₂ rest₃ rest₄ rest : List Char}
    {sign whole fraction exponent tail : List Char} (readsSign : readSign chars = (sign, rest₁))
    (readsWhole : readDigits rest₁ = (whole, rest₂))
    (readsFraction : readFraction rest₂ = (fraction, rest₃))
    (readsExponent : readExponent rest₃ = (exponent, rest₄))
    (readsTail : readTail rest₄ = (tail, rest)) :
    read chars = ⟨sign ++ whole ++ fraction ++ exponent ++ tail, !exponent.isEmpty, rest⟩ := by
  simp [read, readsSign, readsWhole, readsFraction, readsExponent, readsTail]

/-- A numeral that ends before the end of a text is read alike from less of the text. -/
theorem read_prune {chars cut rest : List Char} {numeral : Numeral}
    (found : read (chars ++ cut) = numeral) (left : numeral.rest = rest ++ cut) :
    read chars = { numeral with rest := rest } := by
  cases sign : readSign (chars ++ cut) with
  | mk signChars rest₁ =>
  cases whole : readDigits rest₁ with
  | mk wholeChars rest₂ =>
  cases fraction : readFraction rest₂ with
  | mk fractionChars rest₃ =>
  cases exponent : readExponent rest₃ with
  | mk exponentChars rest₄ =>
  cases tail : readTail rest₄ with
  | mk tailChars rest₅ =>
  have stages := read_eq sign whole fraction exponent tail
  rw [found] at stages
  subst stages
  dsimp only at left
  subst left
  have back₄ := readTail_append rest₄
  have back₃ := readExponent_append rest₃
  have back₂ := readFraction_append rest₂
  have back₁ := readDigits_append rest₁
  rw [tail] at back₄
  rw [exponent, ← back₄] at back₃
  rw [fraction, ← back₃] at back₂
  rw [whole, ← back₂] at back₁
  dsimp only at back₁ back₂ back₃ back₄
  simp only [← List.append_assoc] at back₁ back₂ back₃ back₄
  subst back₄ back₃ back₂ back₁
  exact read_eq (readSign_prunes sign) (readDigits_prunes whole) (readFraction_prunes fraction)
    (readExponent_prunes exponent) (readTail_prunes tail)

/-- A stop after a numeral, and whatever comes after it, is left alone. -/
theorem read_extend {chars more : List Char} (stops : Stops more) :
    read (chars ++ more) = { read chars with rest := (read chars).rest ++ more } := by
  simp only [read]
  rw [readSign_extends stops]
  dsimp only
  rw [readDigits_extends stops]
  dsimp only
  rw [readFraction_extends stops]
  dsimp only
  rw [readExponent_extends stops]
  dsimp only
  rw [readTail_extends stops]

end Numeral

end QueryClause
