import Mathlib
import QueryClause.Proofs.DateTimeContext

/-!
# The pattern of date-time literals

The pattern `YYYY-MM-DD[Thh:mm[:ss[.f+]][Z|(+|-)hh:mm]]` as a regular expression. Each optional
part is taken whenever it is there in full, and this gives the longest match: no part begins with
a character that the part before it could also take. A literal that fits into the window is thus
read as the longest match of the pattern.
-/

namespace QueryClause.DateTime

open RegularExpression

/-! ## The pattern -/

/-- One ASCII digit. -/
def digit : RegularExpression Char :=
  ("0123456789".toList.map char).sum

/-- A time of day or an offset from it, `hh:mm`. -/
def clock : RegularExpression Char :=
  digit ^ 2 * (char ':' * digit ^ 2)

/-- A date, `YYYY-MM-DD`. -/
def date : RegularExpression Char :=
  digit ^ 4 * (char '-' * (digit ^ 2 * (char '-' * digit ^ 2)))

/-- A fraction of a second, `.f+`. -/
def fraction : RegularExpression Char :=
  char '.' * digit * digit.star

/-- The seconds, `:ss[.f+]`. -/
def seconds : RegularExpression Char :=
  char ':' * digit ^ 2 * (1 + fraction)

/-- A zone, `Z|(+|-)hh:mm`. -/
def zone : RegularExpression Char :=
  char 'Z' + (char '+' * clock + char '-' * clock)

/-- A time, `Thh:mm[:ss[.f+]][Z|(+|-)hh:mm]`. -/
def time : RegularExpression Char :=
  char 'T' * clock * ((1 + seconds) * (1 + zone))

/-- A date-time literal, `YYYY-MM-DD[Thh:mm[:ss[.f+]][Z|(+|-)hh:mm]]`. -/
def pattern : RegularExpression Char :=
  date * (1 + time)

/-! ## Characters of matches -/

/-- Whether all characters that an expression is made of pass a test. -/
def draws (test : Char → Bool) : RegularExpression Char → Bool
  | .zero | .epsilon => true
  | .char mark => test mark
  | .plus first second | .comp first second => draws test first && draws test second
  | .star inner => draws test inner

theorem forall_mem_of_draws {test : Char → Bool} {expression : RegularExpression Char}
    (drawn : draws test expression = true) :
    ∀ word ∈ expression.matches', ∀ char ∈ word, test char = true := by
  induction expression with
  | zero => exact fun word mem => absurd mem (Language.notMem_zero word)
  | epsilon =>
      rintro word rfl
      simp
  | char mark =>
      rintro word rfl
      simpa [draws] using drawn
  | plus first second ihFirst ihSecond =>
      obtain ⟨drawnFirst, drawnSecond⟩ := Bool.and_eq_true_iff.mp drawn
      rintro word (mem | mem)
      · exact ihFirst drawnFirst word mem
      · exact ihSecond drawnSecond word mem
  | comp first second ihFirst ihSecond =>
      obtain ⟨drawnFirst, drawnSecond⟩ := Bool.and_eq_true_iff.mp drawn
      rintro word ⟨before, memBefore, after, memAfter, rfl⟩
      exact List.forall_mem_append.mpr
        ⟨ihFirst drawnFirst before memBefore, ihSecond drawnSecond after memAfter⟩
  | star inner ih =>
      rintro word mem
      obtain ⟨parts, rfl, matched⟩ := Language.mem_kstar.mp mem
      intro char mem
      obtain ⟨part, memPart, memChar⟩ := List.mem_flatten.mp mem
      exact ih drawn part (matched part memPart) char memChar

/-- Literals are made of the characters that are looked at. -/
theorem isDateTimeChar_of_pattern {word : List Char} (mem : word ∈ pattern.matches') :
    ∀ char ∈ word, isDateTimeChar char = true := by
  have drawn : draws isDateTimeChar pattern = true := by decide
  exact forall_mem_of_draws drawn word mem

theorem mem_sum_char {marks word : List Char} :
    word ∈ (marks.map char).sum.matches' ↔ ∃ mark ∈ marks, word = [mark] := by
  induction marks with
  | nil => simp
  | cons mark marks ih =>
      rw [List.map_cons, List.sum_cons, matches'_add, Language.mem_add, ih,
        List.exists_mem_cons_iff]
      rfl

theorem mem_digits_iff_isDigit {char : Char} :
    char ∈ "0123456789".toList ↔ char.isDigit = true := by
  constructor
  · intro mem
    have all : "0123456789".toList.all Char.isDigit = true := by decide
    exact List.all_eq_true.mp all char mem
  · intro isDigit
    have bounds : 48 ≤ char.toNat ∧ char.toNat ≤ 57 := by
      simpa [Char.isDigit, UInt32.le_iff_toNat_le] using isDigit
    have listed : ∀ offset < 10, Char.ofNat (48 + offset) ∈ "0123456789".toList := by decide
    have mem := listed (char.toNat - 48) (by omega)
    rwa [Nat.add_sub_cancel' bounds.1, Char.ofNat_toNat] at mem

theorem mem_digit {word : List Char} :
    word ∈ digit.matches' ↔ ∃ char : Char, char.isDigit = true ∧ word = [char] := by
  simp only [digit, mem_sum_char, mem_digits_iff_isDigit]

theorem mem_star_digit {word : List Char} :
    word ∈ digit.star.matches' ↔ ∀ char ∈ word, char.isDigit = true := by
  constructor
  · have drawn : draws Char.isDigit digit.star = true := by decide
    exact forall_mem_of_draws drawn word
  · intro digits
    refine Language.mem_kstar.mpr ⟨word.map fun char => [char], ?_, ?_⟩
    · exact (List.flatMap_singleton' word).symm
    · simp only [List.forall_mem_map]
      exact fun char mem => mem_digit.mpr ⟨char, digits char mem, rfl⟩

/-! ## Parts of fixed form -/

/-- Reading takes just the words of the language, whatever follows them. -/
def Reads (part : List Char → Option (List Char)) (language : Language Char) : Prop :=
  ∀ ⦃chars rest : List Char⦄,
    part chars = some rest ↔ ∃ taken ∈ language, chars = taken ++ rest

namespace Reads

variable {first second : List Char → Option (List Char)} {one two : Language Char}

theorem bind (reads : Reads first one) (readsOn : Reads second two) :
    Reads (fun chars => first chars >>= second) (one * two) := by
  intro chars rest
  simp only [Option.bind_eq_bind, Option.bind_eq_some_iff, Language.mem_mul]
  constructor
  · rintro ⟨middle, found, foundOn⟩
    obtain ⟨taken, mem, rfl⟩ := reads.mp found
    obtain ⟨more, memMore, rfl⟩ := readsOn.mp foundOn
    exact ⟨taken ++ more, ⟨taken, mem, more, memMore, rfl⟩, (List.append_assoc ..).symm⟩
  · rintro ⟨_, ⟨taken, mem, more, memMore, rfl⟩, rfl⟩
    refine ⟨more ++ rest, reads.mpr ⟨taken, mem, List.append_assoc ..⟩, ?_⟩
    exact readsOn.mpr ⟨more, memMore, rfl⟩

/-- Of two parts that do not stand at the same place, either is read. -/
theorem orElse (reads : Reads first one) (readsElse : Reads second two)
    (apart : ∀ chars, first chars = none ∨ second chars = none) :
    Reads (fun chars => first chars <|> second chars) (one + two) := by
  intro chars rest
  have either : (first chars <|> second chars) = some rest ↔
      first chars = some rest ∨ second chars = some rest := by
    rcases apart chars with missing | missing <;> cases found : first chars <;> simp_all
  rw [either, reads, readsElse]
  simp only [Language.mem_add, or_and_right, exists_or]

end Reads

theorem afterMark_reads (mark : Char) : Reads (afterMark mark) (char mark).matches' := by
  intro chars rest
  constructor
  · intro found
    exact ⟨[mark], rfl, exists_of_afterMark found⟩
  · rintro ⟨_, rfl, rfl⟩
    simp [afterMark]

theorem afterDigits_reads (count : Nat) : Reads (afterDigits count) (digit ^ count).matches' := by
  rw [matches'_pow]
  induction count with
  | zero =>
      intro chars rest
      simp [afterDigits]
  | succ count ih =>
      intro chars rest
      have step : afterDigits (count + 1) chars = some rest ↔
          ∃ first others, first.isDigit = true ∧ chars = first :: others ∧
            afterDigits count others = some rest := by
        cases chars <;> simp [afterDigits]
      rw [step, pow_succ']
      simp only [Language.mem_mul, mem_digit]
      constructor
      · rintro ⟨first, others, isDigit, rfl, found⟩
        obtain ⟨taken, mem, rfl⟩ := ih.mp found
        exact ⟨_, ⟨[first], ⟨first, isDigit, rfl⟩, taken, mem, rfl⟩, rfl⟩
      · rintro ⟨_, ⟨_, ⟨first, isDigit, rfl⟩, taken, mem, rfl⟩, rfl⟩
        exact ⟨first, _, isDigit, rfl, ih.mpr ⟨taken, mem, rfl⟩⟩

theorem afterClock_reads : Reads afterClock clock.matches' :=
  (afterDigits_reads 2).bind ((afterMark_reads ':').bind (afterDigits_reads 2))

theorem afterDate_reads : Reads afterDate date.matches' :=
  (afterDigits_reads 4).bind ((afterMark_reads '-').bind
    ((afterDigits_reads 2).bind ((afterMark_reads '-').bind (afterDigits_reads 2))))

/-! ## Longest matches -/

/-- The longest word of a language that a text begins with. -/
structure Longest (language : Language Char) (chars taken : List Char) : Prop where
  mem : taken ∈ language
  begins : taken <+: chars
  most : ∀ other ∈ language, other <+: chars → other.length ≤ taken.length

namespace Longest

variable {one two : Language Char} {chars taken other : List Char}

theorem unique (longest : Longest one chars taken) (alike : Longest one chars other) :
    taken = other := by
  have shorter := longest.most other alike.mem alike.begins
  have longer := alike.most taken longest.mem longest.begins
  exact (List.prefix_of_prefix_length_le longest.begins alike.begins longer).eq_of_length
    (Nat.le_antisymm longer shorter)

/-- The longest word is still the longest where less of the text is seen. -/
theorem shorten (longest : Longest one chars taken) (less : other <+: chars)
    (fits : taken <+: other) : Longest one other taken :=
  ⟨longest.mem, fits, fun word mem begins => longest.most word mem (begins.trans less)⟩

/-- A word that is taken whatever follows goes before a longest word. -/
theorem append {part : List Char → Option (List Char)} {rest : List Char}
    (reads : Reads part one) (mem : taken ∈ one) (longest : Longest two rest other) :
    Longest (one * two) (taken ++ rest) (taken ++ other) := by
  refine ⟨Language.append_mem_mul mem longest.mem, ?_, ?_⟩
  · exact (List.prefix_append_right_inj taken).mpr longest.begins
  · rintro _ ⟨first, memFirst, second, memSecond, rfl⟩ ⟨behind, whole⟩
    simp only [List.append_assoc] at whole
    have found : part (taken ++ rest) = some rest := reads.mpr ⟨taken, mem, rfl⟩
    have alike : part (taken ++ rest) = some (second ++ behind) :=
      reads.mpr ⟨first, memFirst, whole.symm⟩
    obtain rfl : rest = second ++ behind := Option.some.inj (found.symm.trans alike)
    obtain rfl : first = taken := List.append_cancel_right whole
    have bound := longest.most second memSecond (List.prefix_append ..)
    simpa using bound

end Longest

/-- Reading takes the longest word of the language that the text begins with. -/
def Greedy (reader : List Char → List Char) (language : Language Char) : Prop :=
  ∀ chars, ∃ taken, chars = taken ++ reader chars ∧ Longest language chars taken

namespace Greedy

variable {one two : Language Char}

theorem nothing : Greedy id 1 := by
  intro chars
  refine ⟨[], rfl, rfl, List.nil_prefix, ?_⟩
  rintro _ rfl _
  exact Nat.le_refl 0

theorem dropDigits : Greedy (List.dropWhile Char.isDigit) digit.star.matches' := by
  intro chars
  refine ⟨chars.takeWhile Char.isDigit, List.takeWhile_append_dropWhile.symm, ?_, ?_, ?_⟩
  · exact mem_star_digit.mpr fun char => List.mem_takeWhile_imp
  · exact List.takeWhile_prefix _
  · rintro other mem ⟨behind, rfl⟩
    rw [List.takeWhile_append_of_pos (mem_star_digit.mp mem), List.length_append]
    exact Nat.le_add_right _ _

/-- A part is read on from where it is there, and nothing is read where it is missing. -/
theorem choose {part : List Char → Option (List Char)} {present : List Char → List Char}
    (reads : Reads part one) (greedy : Greedy present two) :
    Greedy (choose part present id) (1 + one * two) := by
  intro chars
  cases found : part chars with
  | none =>
      refine ⟨[], by simp [DateTime.choose, found], .inl rfl, List.nil_prefix, ?_⟩
      rintro other (rfl | ⟨first, memFirst, second, memSecond, rfl⟩) ⟨behind, rfl⟩
      · exact Nat.le_refl 0
      · rw [reads.mpr ⟨first, memFirst, List.append_assoc ..⟩] at found
        cases found
  | some rest =>
      obtain ⟨taken, mem, rfl⟩ := reads.mp found
      obtain ⟨more, whole, longest⟩ := greedy rest
      have both := longest.append reads mem
      refine ⟨taken ++ more, ?_, .inr both.mem, both.begins, ?_⟩
      · simp [DateTime.choose, found, ← whole]
      · rintro other (rfl | memOther) begins
        · exact Nat.zero_le _
        · exact both.most other memOther begins

/-- One part is read after the other, where the second begins with no character of the first. -/
theorem comp {first second : List Char → List Char} (greedy : Greedy first one)
    (greedyOn : Greedy second two)
    (apart : ∀ word ∈ one, ∀ char ∈ word, ∀ more ∈ two, more.head? ≠ some char) :
    Greedy (fun chars => second (first chars)) (one * two) := by
  intro chars
  obtain ⟨taken, whole, longest⟩ := greedy chars
  obtain ⟨more, wholeOn, longestOn⟩ := greedyOn (first chars)
  have split : chars = taken ++ more ++ second (first chars) := by
    rw [List.append_assoc, ← wholeOn, ← whole]
  refine ⟨taken ++ more, split, Language.append_mem_mul longest.mem longestOn.mem, ?_, ?_⟩
  · exact ⟨_, split.symm⟩
  · rintro _ ⟨before, memBefore, after, memAfter, rfl⟩ begins
    have begun : before <+: chars := (List.prefix_append before after).trans begins
    have shorter := longest.most before memBefore begun
    -- The first part takes as much as it can, so a word of both parts can only leave it early.
    obtain ⟨skipped, rfl⟩ := List.prefix_of_prefix_length_le begun longest.begins shorter
    cases skipped with
    | nil =>
        rw [List.append_nil] at whole ⊢
        rw [whole, List.prefix_append_right_inj] at begins
        have bound := longestOn.most after memAfter begins
        simpa using bound
    | cons next others =>
        rw [whole, List.append_assoc, List.prefix_append_right_inj] at begins
        cases after with
        | nil => simp
        | cons char behind =>
            have same := (List.cons_prefix_cons.mp begins).1
            have absent := apart _ longest.mem next (by simp) _ memAfter
            exact absurd (by simp [same]) absent

end Greedy

theorem afterFraction_greedy : Greedy afterFraction (1 + fraction).matches' := by
  have one : (digit ^ 1).matches' = digit.matches' := by rw [matches'_pow, pow_one]
  have reads := (afterMark_reads '.').bind (afterDigits_reads 1)
  rw [one] at reads
  rw [afterFraction_eq]
  exact .choose reads .dropDigits

theorem afterSeconds_greedy : Greedy afterSeconds (1 + seconds).matches' := by
  rw [afterSeconds_eq]
  exact .choose ((afterMark_reads ':').bind (afterDigits_reads 2)) afterFraction_greedy

/-- A zone, which is `Z` or an offset with either sign, and what follows it. -/
def afterZone? (chars : List Char) : Option (List Char) :=
  afterMark 'Z' chars
    <|> (afterMark '+' chars >>= afterClock)
    <|> (afterMark '-' chars >>= afterClock)

theorem afterZone?_reads : Reads afterZone? zone.matches' := by
  have east := (afterMark_reads '+').bind afterClock_reads
  have west := (afterMark_reads '-').bind afterClock_reads
  refine (afterMark_reads 'Z').orElse (east.orElse west ?_) ?_
  · intro chars
    cases found : afterMark '+' chars with
    | none => exact .inl rfl
    | some rest => exact .inr (by simp [exists_of_afterMark found, afterMark])
  · intro chars
    cases found : afterMark 'Z' chars with
    | none => exact .inl rfl
    | some rest => exact .inr (by simp [exists_of_afterMark found, afterMark])

theorem afterZone_greedy : Greedy afterZone (1 + zone).matches' := by
  have chosen : afterZone = choose afterZone? id id := by
    funext chars
    have same : afterZone chars = (afterZone? chars).getD chars := rfl
    rw [same, choose]
    cases afterZone? chars <;> rfl
  have alone : (1 + zone).matches' = 1 + zone.matches' * 1 := by
    rw [mul_one]
    rfl
  rw [chosen, alone]
  exact .choose afterZone?_reads .nothing

/-- A zone begins with a character that does not occur in seconds. -/
theorem seconds_apart_zone :
    ∀ word ∈ (1 + seconds).matches', ∀ char ∈ word, ∀ more ∈ (1 + zone).matches',
      more.head? ≠ some char := by
  have drawn : draws (fun char => char ∉ ['Z', '+', '-']) (1 + seconds) = true := by decide
  have heads : ∀ more ∈ (1 + zone).matches', ∀ char ∈ more.head?, char ∈ ['Z', '+', '-'] := by
    rintro more (rfl | rfl | ⟨_, rfl, _, _, rfl⟩ | ⟨_, rfl, _, _, rfl⟩) <;> simp
  intro word mem char memChar more memMore begins
  have absent := forall_mem_of_draws drawn word mem char memChar
  rw [decide_eq_true_eq] at absent
  exact absent (heads more memMore char begins)

theorem afterTime_greedy : Greedy afterTime (1 + time).matches' := by
  rw [afterTime_eq]
  exact .choose ((afterMark_reads 'T').bind afterClock_reads)
    (afterSeconds_greedy.comp afterZone_greedy seconds_apart_zone)

/-! ## Literals -/

/-- What is read as a literal, from all of a text, is the longest match of the pattern. -/
theorem longest_of_afterLiteral {chars rest : List Char} (found : afterLiteral chars = some rest) :
    ∃ taken, chars = taken ++ rest ∧ Longest pattern.matches' chars taken := by
  obtain ⟨middle, foundDate, rfl⟩ := Option.map_eq_some_iff.mp found
  obtain ⟨day, mem, rfl⟩ := afterDate_reads.mp foundDate
  obtain ⟨clock, whole, longest⟩ := afterTime_greedy middle
  refine ⟨day ++ clock, ?_, longest.append afterDate_reads mem⟩
  rw [List.append_assoc, ← whole]

/-- A text that begins with a match has a literal to read, of which the date is the front. -/
theorem exists_afterLiteral {word : List Char} (mem : word ∈ pattern.matches') (rest : List Char) :
    ∃ unread, afterLiteral (word ++ rest) = some unread := by
  obtain ⟨day, memDay, clock, _, rfl⟩ := mem
  have found : afterDate (day ++ clock ++ rest) = some (clock ++ rest) :=
    afterDate_reads.mpr ⟨day, memDay, List.append_assoc ..⟩
  exact ⟨_, by rw [afterLiteral, found, Option.map_some]⟩

/-- A match begins with a digit. -/
theorem exists_digit_of_pattern {word : List Char} (mem : word ∈ pattern.matches') :
    ∃ first others, word = first :: others ∧ first.isDigit = true := by
  obtain ⟨unread, literal⟩ := exists_afterLiteral mem []
  obtain ⟨first, others, whole, isDigit⟩ := exists_of_afterLiteral literal
  rw [List.append_nil] at whole
  exact ⟨first, others ++ unread, whole, isDigit⟩

theorem afterLiteral_of_longest {taken rest : List Char}
    (longest : Longest pattern.matches' (taken ++ rest) taken) :
    afterLiteral (taken ++ rest) = some rest := by
  obtain ⟨unread, found⟩ := exists_afterLiteral longest.mem rest
  obtain ⟨other, whole, alike⟩ := longest_of_afterLiteral found
  obtain rfl := longest.unique alike
  rw [found, List.append_cancel_left whole]

/-- A date has ten characters. -/
theorem length_of_afterDate {chars rest : List Char} (found : afterDate chars = some rest) :
    chars.length = 10 + rest.length := by
  simp only [afterDate, Option.bind_eq_bind, Option.bind_eq_some_iff] at found
  obtain ⟨_, year, _, dash, _, month, _, dashOn, day⟩ := found
  obtain ⟨years, rfl, lengthYear, -⟩ := exists_of_afterDigits year
  obtain rfl := exists_of_afterMark dash
  obtain ⟨months, rfl, lengthMonth, -⟩ := exists_of_afterDigits month
  obtain rfl := exists_of_afterMark dashOn
  obtain ⟨days, rfl, lengthDay, -⟩ := exists_of_afterDigits day
  simp only [List.length_append, List.length_cons]
  omega

/-- No literal is read just where no match of the pattern stands. -/
theorem read?_eq_none_iff_pattern {chars : List Char} :
    read? chars = none ↔ ∀ word ∈ pattern.matches', ¬ word <+: chars := by
  rw [read?_eq_none_iff]
  constructor
  · rintro missing _ ⟨day, mem, clock, memClock, rfl⟩ ⟨behind, rfl⟩
    have short := length_of_afterDate (afterDate_reads.mpr ⟨day, mem, (List.append_nil _).symm⟩)
    have inside : ∀ char ∈ day, isDateTimeChar char = true := fun char memChar =>
      isDateTimeChar_of_pattern (Language.append_mem_mul mem memClock) char
        (List.mem_append_left _ memChar)
    have fits : day.length ≤ window := by
      rw [short]
      decide
    rw [List.append_assoc, ahead_of_inside _ inside fits,
      afterDate_reads.mpr ⟨day, mem, rfl⟩] at missing
    cases missing
  · intro unmatched
    cases found : afterDate (ahead window chars) with
    | none => rfl
    | some middle =>
        have literal : afterLiteral (ahead window chars) = some (afterTime middle) := by
          rw [afterLiteral, found, Option.map_some]
        obtain ⟨taken, _, longest⟩ := longest_of_afterLiteral literal
        exact absurd (longest.begins.trans (ahead_prefix_self _ _)) (unmatched taken longest.mem)

/-- The longest match of the pattern is read, if it fits into the window. -/
theorem read?_of_longest {taken rest : List Char}
    (longest : Longest pattern.matches' (taken ++ rest) taken) (fits : taken.length ≤ window) :
    read? (taken ++ rest) = some (taken, rest) := by
  refine read?_eq_some_iff.mpr ⟨isDateTimeChar_of_pattern longest.mem, fits, ?_⟩
  refine afterLiteral_of_longest (longest.shorten ?_ (List.prefix_append ..))
  exact (List.prefix_append_right_inj taken).mpr (ahead_prefix_self _ rest)

/-- A literal with no further character of literals behind it is the longest match. -/
theorem longest_of_read? {taken rest : List Char}
    (found : read? (taken ++ rest) = some (taken, rest))
    (ended : ∀ char ∈ rest.head?, isDateTimeChar char = false) :
    Longest pattern.matches' (taken ++ rest) taken := by
  obtain ⟨_, _, literal⟩ := read?_eq_some_iff.mp found
  obtain ⟨other, whole, longest⟩ := longest_of_afterLiteral literal
  obtain rfl : taken = other := List.append_cancel_right whole
  refine ⟨longest.mem, List.prefix_append .., fun word mem begins => ?_⟩
  -- A longer match would hold the character behind the literal.
  by_contra longer
  obtain ⟨more, rfl⟩ := List.prefix_of_prefix_length_le (List.prefix_append taken rest) begins
    (Nat.le_of_not_le longer)
  rw [List.prefix_append_right_inj] at begins
  cases more with
  | nil => simp at longer
  | cons char behind =>
      obtain ⟨after, rfl⟩ := begins
      have outside := ended char rfl
      rw [isDateTimeChar_of_pattern mem char (by simp)] at outside
      cases outside

end QueryClause.DateTime
