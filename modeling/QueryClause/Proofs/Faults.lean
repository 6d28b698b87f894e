import QueryClause.Proofs.Walk

/-!
# What a scan refuses

`Faulty` says, fault by fault, which texts cannot be scanned. It is the other side of `Scanned`:
a scan reports a fault exactly where that relation holds.
-/

namespace QueryClause

/-- The text begins with characters that the fault is about. -/
inductive Faulty : List Char → Fault → Prop where
  | unterminated {body : List Char} (unclosed : Quoted.read? body = none) :
      Faulty (Quoted.quote :: body) .unterminatedString
  | number {chars : List Char}
      (starts : Numeral.beginsWithDigit (Numeral.readSign chars).2 = true)
      (undated : DateTime.read? chars = none)
      (invalid : (Numeral.read chars).value? = none) :
      Faulty chars (.invalidNumber (String.ofList (Numeral.read chars).chars))
  | dollar {rest : List Char} (alone : ∀ char ∈ rest.head?, Word.isPart char = false) :
      Faulty ('$' :: rest) (.unexpectedCharacter '$')
  | stray {char : Char} {rest : List Char} (noDigit : char.isDigit = false)
      (noStart : Word.isStart char = false)
      (noMark : char ∉ ['(', ')', ',', Quoted.quote, '-', '$']) :
      Faulty (char :: rest) (.unexpectedCharacter char)

namespace Scan

variable {chars : List Char} {fault : Fault}

theorem quoted_faulty (failed : (quoted chars).outcome = .error fault) :
    Faulty (Quoted.quote :: chars) fault := by
  unfold quoted at failed
  split at failed
  · cases failed
  · rename_i unclosed
    obtain rfl := Except.error.inj failed
    exact .unterminated unclosed

theorem number_faulty (starts : Numeral.beginsWithDigit (Numeral.readSign chars).2 = true)
    (undated : DateTime.read? chars = none) (failed : (number chars).outcome = .error fault) :
    Faulty chars fault := by
  unfold number at failed
  dsimp only at failed
  split at failed
  · cases failed
  · rename_i invalid
    obtain rfl := Except.error.inj failed
    exact .number starts undated invalid

theorem digits_faulty {char : Char} {rest : List Char} (digit : char.isDigit = true)
    (failed : (digits (char :: rest)).outcome = .error fault) : Faulty (char :: rest) fault := by
  unfold digits at failed
  split at failed
  · cases failed
  · rename_i undated
    exact number_faulty (Numeral.signedDigit_of_isDigit digit) undated failed

theorem dollarPath_faulty (failed : (dollarPath chars).outcome = .error fault) :
    Faulty ('$' :: chars) fault := by
  cases chars with
  | nil =>
      obtain rfl := Except.error.inj failed
      exact .dollar (by simp)
  | cons first others =>
      by_cases part : Word.isPart first = true
      · simp [dollarPath, part] at failed
      · simp only [dollarPath, part] at failed
        obtain rfl := Except.error.inj failed
        exact .dollar (by simpa using part)

theorem word_ne_error : (word chars).outcome ≠ .error fault := by
  unfold word
  dsimp only
  split
  · split <;> simp [path]
  · simp [path]

end Scan

/-- Where a scan reports a fault, the relation holds. -/
theorem faulty_of_scan {chars : List Char} {fault : Fault}
    (failed : (scan chars).outcome = .error fault) : Faulty chars fault := by
  cases chars with
  | nil => cases failed
  | cons char rest =>
      by_cases mark : char = '(' ∨ char = ')' ∨ char = ','
      · rcases mark with rfl | rfl | rfl <;> cases failed
      by_cases quotes : char = Quoted.quote
      · subst quotes
        rw [scan_quote] at failed
        exact Scan.quoted_faulty failed
      by_cases sign : char = '-'
      · subst sign
        rw [scan_minus] at failed
        split at failed
        · rename_i digit
          exact Scan.number_faulty digit (DateTime.read?_minus rest) failed
        · cases failed
      by_cases dollar : char = '$'
      · subst dollar
        rw [scan_dollar] at failed
        exact Scan.dollarPath_faulty failed
      by_cases digit : char.isDigit = true
      · rw [scan_of_isDigit digit] at failed
        exact Scan.digits_faulty digit failed
      by_cases starts : Word.isStart char = true
      · rw [scan_of_isStart starts] at failed
        exact absurd failed Scan.word_ne_error
      · have noMark : char ∉ ['(', ')', ',', Quoted.quote, '-', '$'] := by simp_all
        simp only [List.mem_cons, not_or] at noMark
        obtain rfl : Fault.unexpectedCharacter char = fault := by
          simpa [scan, noMark, digit, starts] using failed
        exact .stray (by simpa using digit) (by simpa using starts) (by simp [noMark])

/-- Where the relation holds, a scan reports the fault. -/
theorem Faulty.scan_eq {chars : List Char} {fault : Fault} (faulty : Faulty chars fault) :
    (scan chars).outcome = .error fault := by
  cases faulty with
  | unterminated unclosed => simp [scan_quote, Scan.quoted, unclosed]
  | number starts undated invalid =>
      rw [scan_of_undated starts undated]
      simp [Scan.number, invalid]
  | @dollar rest alone =>
      rw [scan_dollar]
      cases rest with
      | nil => rfl
      | cons first others => simp [Scan.dollarPath, alone first rfl]
  | stray noDigit noStart noMark =>
      simp only [List.mem_cons, not_or] at noMark
      simp [scan, noMark, noDigit, noStart]

/-- A call reports a fault that the text behind the blanks begins with, and where it does. -/
theorem Cursor.next_eq_error_iff {cursor : Cursor} {error : LexError} :
    cursor.next.1 = .error error ↔
      Faulty cursor.skipBlanks.rest error.fault ∧ error.position = cursor.skipBlanks.position := by
  have next : cursor.next.1 = .error error ↔
      (scan cursor.skipBlanks.rest).outcome = .error error.fault ∧
        error.position = cursor.skipBlanks.position := by
    unfold Cursor.next
    dsimp only
    split
    · rename_i outcome
      simp [outcome]
    · rename_i fault outcome
      obtain ⟨reported, position⟩ := error
      simp [outcome, eq_comm]
  rw [next]
  exact and_congr_left' ⟨faulty_of_scan, Faulty.scan_eq⟩

end QueryClause
