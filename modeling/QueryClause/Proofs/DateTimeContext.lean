import QueryClause.Proofs.Context

/-!
# Date-time literals and what follows

A date is read without a look at what follows it. Each optional part after it looks
ahead as far as the part goes, and is left out where it is not there in full. A
literal is read alike from less of the text, and from a text that goes on after a stop.
-/

namespace QueryClause.DateTime

/-- Reading takes the same characters whatever follows them. -/
def Fixed (reader : List Char → Option (List Char)) : Prop :=
  ∀ ⦃chars rest : List Char⦄, reader chars = some rest →
    ∃ taken, chars = taken ++ rest ∧ ∀ other, reader (taken ++ other) = some other

namespace Fixed

variable {reader : List Char → Option (List Char)} {chars rest : List Char}

theorem extend (fixed : Fixed reader) (more : List Char) (found : reader chars = some rest) :
    reader (chars ++ more) = some (rest ++ more) := by
  obtain ⟨taken, rfl, always⟩ := fixed found
  rw [List.append_assoc]
  exact always (rest ++ more)

theorem prune (fixed : Fixed reader) {cut : List Char}
    (found : reader (chars ++ cut) = some (rest ++ cut)) : reader chars = some rest := by
  obtain ⟨taken, whole, always⟩ := fixed found
  rw [← List.append_assoc] at whole
  rw [List.append_cancel_right whole]
  exact always rest

theorem bind {second : List Char → Option (List Char)} (fixed : Fixed reader)
    (fixedSecond : Fixed second) : Fixed fun chars => reader chars >>= second := by
  intro chars rest found
  obtain ⟨middle, first, last⟩ := Option.bind_eq_some_iff.mp found
  obtain ⟨taken, rfl, always⟩ := fixed first
  obtain ⟨more, rfl, alwaysMore⟩ := fixedSecond last
  refine ⟨taken ++ more, (List.append_assoc ..).symm, fun other => ?_⟩
  simp only [List.append_assoc, always]
  exact alwaysMore other

end Fixed

theorem afterDigits_fixed (count : Nat) : Fixed (afterDigits count) := by
  intro chars rest found
  fun_induction afterDigits count chars with
  | case1 chars =>
      obtain rfl := Option.some.inj found
      exact ⟨[], rfl, fun _ => by simp [afterDigits]⟩
  | case2 => simp at found
  | case3 count char others digit ih =>
      obtain ⟨taken, rfl, always⟩ := ih found
      exact ⟨char :: taken, rfl, fun other => by simpa [afterDigits, digit] using always other⟩
  | case4 => simp at found

theorem afterMark_fixed (mark : Char) : Fixed (afterMark mark) := by
  intro chars rest found
  cases chars with
  | nil => simp [afterMark] at found
  | cons char others =>
      by_cases same : char = mark
      · obtain rfl : others = rest := by simpa [afterMark, same] using found
        exact ⟨[char], rfl, fun _ => by simp [afterMark, same]⟩
      · simp [afterMark, same] at found

theorem exists_of_afterDigits {count : Nat} {chars rest : List Char}
    (found : afterDigits count chars = some rest) :
    ∃ digits, chars = digits ++ rest ∧ digits.length = count ∧
      ∀ char ∈ digits, char.isDigit = true := by
  fun_induction afterDigits count chars with
  | case1 chars =>
      cases found
      exact ⟨[], rfl, rfl, by simp⟩
  | case2 => cases found
  | case3 count char others digit ih =>
      obtain ⟨digits, rfl, length, allDigits⟩ := ih found
      exact ⟨char :: digits, rfl, by simp [length], by simpa using ⟨digit, allDigits⟩⟩
  | case4 => cases found

theorem exists_of_afterMark {mark : Char} {chars rest : List Char}
    (found : afterMark mark chars = some rest) : chars = mark :: rest := by
  cases chars with
  | nil => cases found
  | cons char others =>
      simp only [afterMark, Option.ite_none_right_eq_some, Option.some.injEq] at found
      obtain ⟨rfl, rfl⟩ := found
      rfl

theorem afterClock_fixed : Fixed afterClock :=
  (afterDigits_fixed 2).bind ((afterMark_fixed ':').bind (afterDigits_fixed 2))

theorem afterDate_fixed : Fixed afterDate :=
  (afterDigits_fixed 4).bind ((afterMark_fixed '-').bind
    ((afterDigits_fixed 2).bind ((afterMark_fixed '-').bind (afterDigits_fixed 2))))

/-! ## Optional parts -/

/-- Reading leaves an end of the text, and an end that is left alone can be removed. -/
structure Steady (reader : List Char → List Char) : Prop where
  leavesEnd : ∀ chars, ∃ taken, chars = taken ++ reader chars
  cuts : ∀ ⦃chars cut rest : List Char⦄,
    reader (chars ++ cut) = rest ++ cut → reader chars = rest

/-- Reads on with `present` after a part, or with `absent` where the part is missing. -/
def choose (part : List Char → Option (List Char)) (present absent : List Char → List Char)
    (chars : List Char) : List Char :=
  match part chars with
  | some rest => present rest
  | none => absent chars

namespace Steady

theorem id : Steady id :=
  ⟨fun _ => ⟨[], rfl⟩, fun _ _ _ left => List.append_cancel_right left⟩

theorem dropDigits : Steady (List.dropWhile Char.isDigit) :=
  ⟨fun chars => ⟨chars.takeWhile Char.isDigit, List.takeWhile_append_dropWhile.symm⟩,
    fun _ _ _ left => congrArg Prod.snd (run_prunes Char.isDigit (Prod.ext rfl left))⟩

theorem comp {first second : List Char → List Char} (steady : Steady first)
    (steadySecond : Steady second) : Steady fun chars => second (first chars) := by
  constructor
  · intro chars
    obtain ⟨taken, whole⟩ := steady.leavesEnd chars
    obtain ⟨more, remaining⟩ := steadySecond.leavesEnd (first chars)
    refine ⟨taken ++ more, ?_⟩
    rw [List.append_assoc, ← remaining, ← whole]
  · intro chars cut rest left
    obtain ⟨taken, whole⟩ := steadySecond.leavesEnd (first (chars ++ cut))
    rw [left, ← List.append_assoc] at whole
    rw [whole] at left
    rw [steady.cuts whole]
    exact steadySecond.cuts left

/-- A part that is missing in a text is missing in each of its beginnings. -/
theorem choose {part : List Char → Option (List Char)} {present absent : List Char → List Char}
    (fixed : Fixed part) (steadyPresent : Steady present) (steadyAbsent : Steady absent) :
    Steady (choose part present absent) := by
  constructor
  · intro chars
    cases found : part chars with
    | none => simpa [DateTime.choose, found] using steadyAbsent.leavesEnd chars
    | some rest =>
        obtain ⟨taken, rfl, _⟩ := fixed found
        obtain ⟨more, whole⟩ := steadyPresent.leavesEnd rest
        refine ⟨taken ++ more, ?_⟩
        simpa [DateTime.choose, found] using whole
  · intro chars cut rest left
    cases found : part (chars ++ cut) with
    | none =>
        have missing : part chars = none := by
          cases alone : part chars with
          | none => rfl
          | some other => simp [fixed.extend cut alone] at found
        simp only [DateTime.choose, found] at left
        simpa [DateTime.choose, missing] using steadyAbsent.cuts left
    | some middle =>
        simp only [DateTime.choose, found] at left
        obtain ⟨taken, whole⟩ := steadyPresent.leavesEnd middle
        rw [left, ← List.append_assoc] at whole
        subst whole
        simpa [DateTime.choose, fixed.prune found] using steadyPresent.cuts left

end Steady

theorem afterFraction_eq :
    afterFraction = choose (fun chars => afterMark '.' chars >>= afterDigits 1)
      (List.dropWhile Char.isDigit) id := by
  funext chars
  rfl

theorem afterSeconds_eq :
    afterSeconds = choose (fun chars => afterMark ':' chars >>= afterDigits 2)
      afterFraction id := by
  funext chars
  rfl

theorem afterZone_eq :
    afterZone = choose (afterMark 'Z') id
      (choose (fun chars => afterMark '+' chars >>= afterClock) id
        (choose (fun chars => afterMark '-' chars >>= afterClock) id id)) := by
  funext chars
  unfold afterZone choose
  cases zulu : afterMark 'Z' chars with
  | some rest => rfl
  | none =>
      cases east : afterMark '+' chars >>= afterClock with
      | some rest => simp [east]
      | none => cases west : afterMark '-' chars >>= afterClock <;> simp [east, west]

theorem afterTime_eq :
    afterTime = choose (fun chars => afterMark 'T' chars >>= afterClock)
      (fun rest => afterZone (afterSeconds rest)) id := by
  funext chars
  rfl

theorem afterSeconds_steady : Steady afterSeconds :=
  afterSeconds_eq ▸ .choose ((afterMark_fixed ':').bind (afterDigits_fixed 2))
    (afterFraction_eq ▸ .choose ((afterMark_fixed '.').bind (afterDigits_fixed 1)) .dropDigits .id)
    .id

theorem afterZone_steady : Steady afterZone :=
  afterZone_eq ▸ .choose (afterMark_fixed 'Z') .id
    (.choose ((afterMark_fixed '+').bind afterClock_fixed) .id
      (.choose ((afterMark_fixed '-').bind afterClock_fixed) .id .id))

theorem afterTime_steady : Steady afterTime :=
  afterTime_eq ▸ .choose ((afterMark_fixed 'T').bind afterClock_fixed)
    (afterSeconds_steady.comp afterZone_steady) .id

/-! ## Whole literals -/

theorem afterLiteral_prune {chars cut rest : List Char}
    (found : afterLiteral (chars ++ cut) = some (rest ++ cut)) : afterLiteral chars = some rest := by
  obtain ⟨middle, date, time⟩ := Option.map_eq_some_iff.mp found
  obtain ⟨taken, whole⟩ := afterTime_steady.leavesEnd middle
  rw [time, ← List.append_assoc] at whole
  subst whole
  exact Option.map_eq_some_iff.mpr ⟨_, afterDate_fixed.prune date, afterTime_steady.cuts time⟩

/-- A literal takes at least one character, and the first is a digit. -/
theorem exists_of_afterLiteral {chars rest : List Char} (found : afterLiteral chars = some rest) :
    ∃ first taken, chars = first :: taken ++ rest ∧ first.isDigit = true := by
  obtain ⟨middle, date, time⟩ := Option.map_eq_some_iff.mp found
  obtain ⟨clock, whole⟩ := afterTime_steady.leavesEnd middle
  obtain ⟨taken, rfl, always⟩ := afterDate_fixed date
  cases taken with
  | nil => exact absurd (always []) (by simp [afterDate, afterDigits])
  | cons first others =>
      refine ⟨first, others ++ clock, by simp [← time, ← whole], ?_⟩
      cases digit : first.isDigit with
      | true => rfl
      | false => exact absurd (always []) (by simp [afterDate, afterDigits, digit])

/-- The characters at the front of a text that are looked at, up to a number of them. -/
def ahead (count : Nat) (chars : List Char) : List Char :=
  (chars.take count).takeWhile isDateTimeChar

theorem ahead_prefix_self (count : Nat) (chars : List Char) : ahead count chars <+: chars :=
  (List.takeWhile_prefix _).trans (List.take_prefix _ _)

theorem isDateTimeChar_of_mem_ahead {count : Nat} {chars : List Char} {char : Char}
    (mem : char ∈ ahead count chars) : isDateTimeChar char = true :=
  List.all_eq_true.mp List.all_takeWhile char mem

theorem length_ahead_le (count : Nat) (chars : List Char) :
    (ahead count chars).length ≤ count :=
  Nat.le_trans (List.takeWhile_prefix _).length_le (List.length_take_le _ _)

theorem ahead_append (count : Nat) (chars more : List Char) :
    ∃ further, ahead count (chars ++ more) = ahead count chars ++ further := by
  induction chars generalizing count with
  | nil => exact ⟨ahead count more, by simp [ahead]⟩
  | cons char others ih =>
      cases count with
      | zero => exact ⟨[], by simp [ahead]⟩
      | succ count =>
          obtain ⟨further, whole⟩ := ih count
          cases passes : isDateTimeChar char with
          | true => exact ⟨further, by simpa [ahead, passes] using whole⟩
          | false => exact ⟨[], by simp [ahead, passes]⟩

theorem ahead_append_of_stops (count : Nat) (chars : List Char) {more : List Char}
    (stops : Stops more) : ahead count (chars ++ more) = ahead count chars := by
  induction chars generalizing count with
  | nil =>
      cases count with
      | zero => simp [ahead]
      | succ count =>
          cases more with
          | nil => rfl
          | cons char rest => simp [ahead, (apart_of_isStop (stops_cons.mp stops)).2.1]
  | cons char others ih =>
      cases count with
      | zero => simp [ahead]
      | succ count =>
          have inner := ih count
          cases passes : isDateTimeChar char with
          | true => simpa [ahead, passes] using inner
          | false => simp [ahead, passes]

theorem ahead_of_inside {count : Nat} {taken : List Char} (rest : List Char)
    (inside : ∀ char ∈ taken, isDateTimeChar char = true) (fits : taken.length ≤ count) :
    ahead count (taken ++ rest) = taken ++ ahead (count - taken.length) rest := by
  rw [ahead, List.take_append, List.take_of_length_le fits,
    List.takeWhile_append_of_pos inside]
  rfl

/-- A literal is read where it fits into the window and is all that can be read of
the characters that are looked at. -/
theorem read?_eq_some_iff {taken rest : List Char} :
    read? (taken ++ rest) = some (taken, rest) ↔
      (∀ char ∈ taken, isDateTimeChar char = true) ∧ taken.length ≤ window ∧
        afterLiteral (taken ++ ahead (window - taken.length) rest) =
          some (ahead (window - taken.length) rest) := by
  constructor
  · intro found
    simp only [read?, Option.map_eq_some_iff, List.splitAt_eq, Prod.mk.injEq] at found
    obtain ⟨unread, literal, takes, _⟩ := found
    change afterLiteral (ahead window (taken ++ rest)) = some unread at literal
    change List.take ((ahead window (taken ++ rest)).length - _) _ = _ at takes
    obtain ⟨first, others, whole, _⟩ := exists_of_afterLiteral literal
    obtain ⟨beyond, split⟩ := ahead_prefix_self window (taken ++ rest)
    have length : (ahead window (taken ++ rest)).length - unread.length =
        (first :: others).length := by
      rw [whole, List.length_append]
      omega
    rw [length, ← split, whole, List.append_assoc, List.take_left] at takes
    subst takes
    have inside : ∀ char ∈ first :: others, isDateTimeChar char = true := by
      intro char mem
      exact isDateTimeChar_of_mem_ahead (whole ▸ List.mem_append_left unread mem)
    have fits : (first :: others).length ≤ window := by
      have bound := length_ahead_le window (first :: others ++ rest)
      rw [whole, List.length_append] at bound
      omega
    refine ⟨inside, fits, ?_⟩
    have looked := ahead_of_inside rest inside fits
    rw [whole] at literal looked
    rwa [← List.append_cancel_left looked]
  · rintro ⟨inside, fits, literal⟩
    have looked := ahead_of_inside rest inside fits
    simp only [read?, Option.map_eq_some_iff, List.splitAt_eq, Prod.mk.injEq]
    refine ⟨_, (congrArg afterLiteral looked).trans literal, ?_⟩
    have length : (ahead window (taken ++ rest)).length -
        (ahead (window - taken.length) rest).length = taken.length := by
      rw [looked, List.length_append]
      omega
    unfold ahead at length
    unfold ahead
    rw [length]
    simp

theorem exists_of_read? {taken rest : List Char}
    (found : read? (taken ++ rest) = some (taken, rest)) :
    ∃ first others, taken = first :: others ∧ first.isDigit = true := by
  obtain ⟨_, _, literal⟩ := read?_eq_some_iff.mp found
  obtain ⟨first, others, whole, digit⟩ := exists_of_afterLiteral literal
  exact ⟨first, others, List.append_cancel_right whole, digit⟩

/-- There is no literal where no date stands. -/
theorem read?_eq_none_iff (chars : List Char) :
    read? chars = none ↔ afterDate (ahead window chars) = none := by
  simp [read?, afterLiteral, ahead]

theorem read?_minus (rest : List Char) : read? ('-' :: rest) = none := by
  rw [read?_eq_none_iff]
  simp [ahead, window, isDateTimeChar, afterDate, afterDigits]

theorem read?_prune {taken rest cut : List Char}
    (found : read? (taken ++ (rest ++ cut)) = some (taken, rest ++ cut)) :
    read? (taken ++ rest) = some (taken, rest) := by
  obtain ⟨inside, fits, literal⟩ := read?_eq_some_iff.mp found
  obtain ⟨further, whole⟩ := ahead_append (window - taken.length) rest cut
  rw [whole, ← List.append_assoc] at literal
  exact read?_eq_some_iff.mpr ⟨inside, fits, afterLiteral_prune literal⟩

theorem read?_extend {taken rest more : List Char} (stops : Stops more)
    (found : read? (taken ++ rest) = some (taken, rest)) :
    read? (taken ++ (rest ++ more)) = some (taken, rest ++ more) := by
  obtain ⟨inside, fits, literal⟩ := read?_eq_some_iff.mp found
  refine read?_eq_some_iff.mpr ⟨inside, fits, ?_⟩
  rwa [ahead_append_of_stops _ _ stops]

theorem read?_eq_none_of_append {chars cut : List Char} (missing : read? (chars ++ cut) = none) :
    read? chars = none := by
  rw [read?_eq_none_iff] at missing ⊢
  obtain ⟨further, whole⟩ := ahead_append window chars cut
  rw [whole] at missing
  cases found : afterDate (ahead window chars) with
  | none => rfl
  | some rest => simp [afterDate_fixed.extend further found] at missing

theorem read?_append_eq_none {chars more : List Char} (stops : Stops more)
    (missing : read? chars = none) : read? (chars ++ more) = none := by
  rw [read?_eq_none_iff] at missing ⊢
  rwa [ahead_append_of_stops _ _ stops]

end QueryClause.DateTime
