import QueryClause.Lexeme
import QueryClause.Proofs.DateTimeContext

/-!
# What a scan finds

`Scanned` says, token by token, which characters make it up and what may follow
them. A scan finds a token exactly where that relation holds.
-/

namespace QueryClause

/-- The characters `taken` make up the token where `rest` follows them. -/
inductive Scanned : List Char → Token → List Char → Prop where
  | openParen {rest : List Char} : Scanned ['('] .openParen rest
  | closeParen {rest : List Char} : Scanned [')'] .closeParen rest
  | comma {rest : List Char} : Scanned [','] .comma rest
  | minus {rest : List Char} (unsigned : Numeral.beginsWithDigit rest = false) :
      Scanned ['-'] .minus rest
  | text {content rest : List Char} (closed : rest.head? ≠ some Quoted.quote) :
      Scanned (Quoted.written content) (.literal (.text (String.ofList content))) rest
  | number {numeral : Numeral} {decimal : Decimal}
      (starts : Numeral.beginsWithDigit (Numeral.readSign numeral.chars).2 = true)
      (undated : DateTime.read? (numeral.chars ++ numeral.rest) = none)
      (read : Numeral.read (numeral.chars ++ numeral.rest) = numeral)
      (valued : numeral.value? = some decimal) :
      Scanned numeral.chars (.literal (.number decimal)) numeral.rest
  | timestamp {taken rest : List Char}
      (read : DateTime.read? (taken ++ rest) = some (taken, rest)) :
      Scanned taken (.literal (.timestamp (String.ofList taken))) rest
  | keyword {taken rest : List Char} {token : Token}
      (reserved : Token.keyword? (String.ofList taken) = some token)
      (ended : ∀ char ∈ rest.head?, Word.isPart char = false ∧ char ≠ '/') :
      Scanned taken token rest
  | path {taken rest : List Char} (starts : Word.begins taken = true)
      (read : Word.readPath (taken ++ rest) = (taken, rest))
      (free : Token.keyword? (String.ofList taken) = none ∨ rest.head? = some '/') :
      Scanned taken (.identifier (String.ofList taken)) rest
  | dollarPath {first : Char} {name rest : List Char} (starts : Word.isPart first = true)
      (read : Word.readPath (first :: name ++ rest) = (first :: name, rest)) :
      Scanned ('$' :: first :: name) (.identifier (String.ofList ('$' :: first :: name))) rest

/-! ## Reserved words -/

theorem keyword?_eq_some {word : String} {token : Token}
    (reserved : Token.keyword? word = some token) :
    (∃ operator : BinaryOp, word = operator.keyword ∧ token = .binary operator) ∨
      (word = "not" ∧ token = .not) ∨
      (∃ truth : Bool, word = (if truth then "true" else "false") ∧
        token = .literal (.boolean truth)) ∨
      (word = "null" ∧ token = .literal .null) := by
  unfold Token.keyword? at reserved
  split at reserved
  all_goals simp at reserved
  all_goals subst reserved
  all_goals simp [BinaryOp.keyword]

/-- Whether a token can be that of a reserved word. -/
def Token.isReserved : Token → Bool
  | .binary _ | .not | .literal (.boolean _) | .literal .null => true
  | _ => false

theorem isReserved_of_keyword? {word : String} {token : Token}
    (reserved : Token.keyword? word = some token) : token.isReserved = true := by
  rcases keyword?_eq_some reserved with
    ⟨_, _, rfl⟩ | ⟨_, rfl⟩ | ⟨_, _, rfl⟩ | ⟨_, rfl⟩ <;> rfl

/-- A reserved word is a word. -/
theorem word_of_reserved {taken : List Char} {token : Token}
    (reserved : Token.keyword? (String.ofList taken) = some token) :
    (∀ char ∈ taken, Word.isPart char = true) ∧ Word.begins taken = true ∧ '/' ∉ taken := by
  have checked : (String.ofList taken).toList.all Word.isPart = true ∧
      Word.begins (String.ofList taken).toList = true ∧ '/' ∉ (String.ofList taken).toList := by
    rcases keyword?_eq_some reserved with
      ⟨operator, word, _⟩ | ⟨word, _⟩ | ⟨truth, word, _⟩ | ⟨word, _⟩ <;> rw [word]
    · cases operator <;> decide
    · decide
    · cases truth <;> decide
    · decide
  rw [String.toList_ofList] at checked
  exact ⟨List.all_eq_true.mp checked.1, checked.2⟩

/-! ## First characters -/

theorem scan_quote (body : List Char) : scan (Quoted.quote :: body) = Scan.quoted body := by
  simp [scan, Quoted.quote]

theorem scan_minus (rest : List Char) :
    scan ('-' :: rest) = if Numeral.beginsWithDigit rest then Scan.number ('-' :: rest)
      else ⟨['-'], .ok .minus, rest⟩ := by
  simp [scan, Quoted.quote]

theorem scan_dollar (rest : List Char) : scan ('$' :: rest) = Scan.dollarPath rest := by
  simp [scan, Quoted.quote]

theorem scan_of_isDigit {char : Char} {rest : List Char} (digit : char.isDigit = true) :
    scan (char :: rest) = Scan.digits (char :: rest) := by
  have apart := (apart_of_isDigit digit).2.2.2.2
  simp only [List.mem_cons, not_or] at apart
  simp [scan, apart, digit]

theorem scan_of_isStart {char : Char} {rest : List Char} (starts : Word.isStart char = true) :
    scan (char :: rest) = Scan.word (char :: rest) := by
  obtain ⟨noDigit, _, apart⟩ := apart_of_isStart starts
  simp only [List.mem_cons, not_or] at apart
  simp [scan, apart, noDigit, starts]

theorem Numeral.signedDigit_append {taken rest : List Char}
    (starts : beginsWithDigit (readSign taken).2 = true) :
    beginsWithDigit (readSign (taken ++ rest)).2 = true := by
  rw [readSign_eq] at starts ⊢
  cases taken with
  | nil => simp [optional, beginsWithDigit] at starts
  | cons first others =>
      simp only [optional, List.cons_append] at starts ⊢
      split at starts
      · rename_i sign
        rw [if_pos sign]
        cases others with
        | nil => simp [beginsWithDigit] at starts
        | cons second last => exact starts
      · rename_i noSign
        rw [if_neg noSign]
        exact starts

theorem Numeral.signedDigit_of_isDigit {char : Char} {rest : List Char}
    (digit : char.isDigit = true) : beginsWithDigit (readSign (char :: rest)).2 = true := by
  have noSign : char ≠ '-' := by
    have apart := (apart_of_isDigit digit).2.2.2.2
    simp_all
  simpa [readSign_eq, optional, noSign, beginsWithDigit] using digit

theorem scan_of_undated {chars : List Char}
    (starts : Numeral.beginsWithDigit (Numeral.readSign chars).2 = true)
    (undated : DateTime.read? chars = none) : scan chars = Scan.number chars := by
  cases chars with
  | nil => simp [Numeral.readSign, Numeral.beginsWithDigit] at starts
  | cons char rest =>
      by_cases sign : char = '-'
      · subst sign
        rw [scan_minus, if_pos (by simpa [Numeral.readSign] using starts)]
      · have digit : char.isDigit = true := by
          simpa [Numeral.readSign_eq, optional, sign, Numeral.beginsWithDigit] using starts
        rw [scan_of_isDigit digit]
        simp [Scan.digits, undated]

/-! ## Scanning is what the relation says -/

theorem scan_of_reserved {taken rest : List Char} {token : Token}
    (reserved : Token.keyword? (String.ofList taken) = some token)
    (ended : ∀ char ∈ rest.head?, Word.isPart char = false ∧ char ≠ '/') :
    scan (taken ++ rest) = ⟨taken, .ok token, rest⟩ := by
  obtain ⟨parts, starts, _⟩ := word_of_reserved reserved
  have splits := run_append parts fun char next => (ended char next).1
  simp only [run, Prod.mk.injEq] at splits
  have noSlash : rest.head? ≠ some '/' := fun slash => (ended '/' slash).2 rfl
  cases taken with
  | nil => simp [Word.begins] at starts
  | cons first others =>
      rw [List.cons_append, scan_of_isStart starts, ← List.cons_append, Scan.word]
      simp only [splits, reserved, if_neg noSlash]

theorem scan_of_path {taken rest : List Char} (starts : Word.begins taken = true)
    (read : Word.readPath (taken ++ rest) = (taken, rest))
    (free : Token.keyword? (String.ofList taken) = none ∨ rest.head? = some '/') :
    scan (taken ++ rest) = ⟨taken, .ok (.identifier (String.ofList taken)), rest⟩ := by
  have isPath : Scan.path (taken ++ rest) =
      ⟨taken, .ok (.identifier (String.ofList taken)), rest⟩ := by
    simp [Scan.path, read]
  have isWord : scan (taken ++ rest) = Scan.word (taken ++ rest) := by
    cases taken with
    | nil => simp [Word.begins] at starts
    | cons first others => exact scan_of_isStart starts
  rw [isWord, ← isPath, Scan.word]
  split
  · rename_i token reserved
    rw [if_pos]
    rcases Word.readPath_cases (taken ++ rest) with oneWord | ⟨slash, _⟩
    · simp only [read, run, Prod.mk.injEq] at oneWord
      rw [← oneWord.1] at reserved
      rw [← oneWord.2]
      exact free.resolve_left (by simp [reserved])
    · exact slash
  · rfl

/-- Where the relation holds, a scan finds the token. -/
theorem Scanned.scan_eq {taken rest : List Char} {token : Token}
    (scanned : Scanned taken token rest) : scan (taken ++ rest) = ⟨taken, .ok token, rest⟩ := by
  cases scanned with
  | openParen => rfl
  | closeParen => rfl
  | comma => rfl
  | minus unsigned => simp [scan_minus, unsigned]
  | @text content _ closed =>
      have body := Quoted.read?_doubled content rest closed
      simp [Quoted.written, scan_quote, Scan.quoted, body]
  | number starts undated read valued =>
      rw [scan_of_undated (Numeral.signedDigit_append starts) undated]
      simp [Scan.number, read, valued]
  | timestamp read =>
      obtain ⟨first, others, rfl, digit⟩ := DateTime.exists_of_read? read
      rw [List.cons_append, scan_of_isDigit digit, ← List.cons_append, Scan.digits]
      simp only [read]
  | keyword reserved ended => exact scan_of_reserved reserved ended
  | path starts read free => exact scan_of_path starts read free
  | dollarPath starts read =>
      simp only [List.cons_append] at read ⊢
      simp [scan_dollar, Scan.dollarPath, starts, read]

theorem Scan.quoted_scanned {body : List Char} {token : Token}
    (found : (quoted body).outcome = .ok token) :
    Scanned (quoted body).taken token (quoted body).rest := by
  unfold quoted at found ⊢
  split at found
  · rename_i content rest read
    obtain rfl := Except.ok.inj found
    exact .text (Quoted.eq_of_read?_eq_some read).2
  · cases found

theorem Numeral.signedDigit_read {chars : List Char}
    (starts : beginsWithDigit (readSign chars).2 = true) :
    beginsWithDigit (readSign (read chars).chars).2 = true := by
  cases chars with
  | nil => simp [readSign, beginsWithDigit] at starts
  | cons first others =>
      by_cases sign : first = '-'
      · subst sign
        cases others with
        | nil => simp [readSign, beginsWithDigit] at starts
        | cons second last =>
            have digit : second.isDigit = true := by
              simpa [readSign, beginsWithDigit] using starts
            simp [read, readSign, readDigits, digit, beginsWithDigit]
      · have digit : first.isDigit = true := by
          simpa [readSign_eq, optional, sign, beginsWithDigit] using starts
        simp [read, readSign_eq, optional, sign, readDigits, digit, beginsWithDigit]

theorem Scan.number_scanned {chars : List Char} {token : Token}
    (starts : Numeral.beginsWithDigit (Numeral.readSign chars).2 = true)
    (undated : DateTime.read? chars = none) (found : (number chars).outcome = .ok token) :
    Scanned (number chars).taken token (number chars).rest := by
  have whole := Numeral.read_append chars
  unfold number at found ⊢
  dsimp only at found ⊢
  split at found
  · rename_i decimal valued
    obtain rfl := Except.ok.inj found
    refine .number (Numeral.signedDigit_read starts) ?_ ?_ valued
    · rwa [whole]
    · rw [whole]
  · cases found

theorem Scan.path_scanned {chars : List Char} (starts : Word.begins chars = true)
    (free : Token.keyword? (String.ofList (chars.takeWhile Word.isPart)) = none ∨
      (chars.dropWhile Word.isPart).head? = some '/') :
    Scanned (path chars).taken (.identifier (String.ofList (path chars).taken))
      (path chars).rest := by
  have whole := Word.readPath_append chars
  refine .path ?_ (by simp only [path, whole]) ?_
  · cases chars with
    | nil => exact starts
    | cons first others =>
        simp only [path, Word.readPath, Word.isPart_of_isStart starts, Bool.true_or, if_true]
        exact starts
  · rcases Word.readPath_cases chars with oneWord | ⟨slash, inside⟩
    · simpa only [path, oneWord, run] using free
    · refine Or.inl ?_
      cases reserved : Token.keyword? (String.ofList (path chars).taken) with
      | none => rfl
      | some token => exact absurd inside (word_of_reserved reserved).2.2

theorem Scan.word_scanned {chars : List Char} {token : Token} (starts : Word.begins chars = true)
    (found : (word chars).outcome = .ok token) :
    Scanned (word chars).taken token (word chars).rest := by
  unfold word at found ⊢
  dsimp only at found ⊢
  split at found
  · rename_i reserved
    split at found
    · rename_i slash
      obtain rfl := Except.ok.inj found
      rw [if_pos slash]
      exact path_scanned starts (Or.inr slash)
    · rename_i noSlash
      obtain rfl := Except.ok.inj found
      rw [if_neg noSlash]
      refine .keyword reserved fun char next => ⟨head?_dropWhile next, ?_⟩
      rintro rfl
      exact noSlash next
  · rename_i free
    obtain rfl := Except.ok.inj found
    exact path_scanned starts (Or.inl free)

theorem Scan.dollarPath_scanned {chars : List Char} {token : Token}
    (found : (dollarPath chars).outcome = .ok token) :
    Scanned (dollarPath chars).taken token (dollarPath chars).rest := by
  cases chars with
  | nil => cases found
  | cons first others =>
      by_cases part : Word.isPart first = true
      · have whole := Word.readPath_append (first :: others)
        simp only [dollarPath, part, if_true] at found ⊢
        obtain rfl := Except.ok.inj found
        simp only [Word.readPath, part, Bool.true_or, if_true] at whole ⊢
        refine .dollarPath part ?_
        rw [whole]
        simp [Word.readPath, part]
      · simp [dollarPath, part] at found

theorem Scan.digits_scanned {char : Char} {rest : List Char} {token : Token}
    (digit : char.isDigit = true) (found : (digits (char :: rest)).outcome = .ok token) :
    Scanned (digits (char :: rest)).taken token (digits (char :: rest)).rest := by
  unfold digits at found ⊢
  split at found
  · rename_i literal after read
    obtain rfl := Except.ok.inj found
    refine .timestamp ?_
    rw [DateTime.read?_append read]
    exact read
  · rename_i undated
    exact number_scanned (Numeral.signedDigit_of_isDigit digit) undated found

/-- Where a scan finds a token, the relation holds. -/
theorem scanned_of_scan {chars : List Char} {token : Token} (nonempty : chars ≠ [])
    (found : (scan chars).outcome = .ok token) :
    Scanned (scan chars).taken token (scan chars).rest := by
  cases chars with
  | nil => exact absurd rfl nonempty
  | cons char rest =>
      by_cases opens : char = '('
      · subst opens
        obtain rfl := Except.ok.inj found
        exact .openParen
      by_cases closes : char = ')'
      · subst closes
        obtain rfl := Except.ok.inj found
        exact .closeParen
      by_cases divides : char = ','
      · subst divides
        obtain rfl := Except.ok.inj found
        exact .comma
      by_cases quotes : char = Quoted.quote
      · subst quotes
        rw [scan_quote] at found ⊢
        exact Scan.quoted_scanned found
      by_cases sign : char = '-'
      · subst sign
        rw [scan_minus] at found ⊢
        split at found
        · rename_i digit
          rw [if_pos digit]
          exact Scan.number_scanned digit (DateTime.read?_minus rest) found
        · rename_i noDigit
          rw [if_neg noDigit]
          obtain rfl := Except.ok.inj found
          exact .minus (by simpa using noDigit)
      by_cases dollar : char = '$'
      · subst dollar
        rw [scan_dollar] at found ⊢
        exact Scan.dollarPath_scanned found
      by_cases digit : char.isDigit = true
      · rw [scan_of_isDigit digit] at found ⊢
        exact Scan.digits_scanned digit found
      by_cases starts : Word.isStart char = true
      · rw [scan_of_isStart starts] at found ⊢
        exact Scan.word_scanned starts found
      · simp [scan, *] at found

end QueryClause
