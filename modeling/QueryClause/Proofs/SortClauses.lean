import Mathlib
import QueryClause.OrderBy
import QueryClause.Proofs.Numbering
import QueryClause.Proofs.Pieces
import QueryClause.Proofs.QuotedNames

/-!
# The clauses of a sort order

A sort order is accepted where each of its clauses is a field of the map, which one direction may
follow, and otherwise the first item at fault is reported. The SQL of an accepted sort order tells
its sort keys: it can be read back key by key, whatever the columns are named.
-/

namespace QueryClause

/-- The column with the given parts, if they are parts of a column. -/
def Column.ofParts? (parts : List String) : Option Column :=
  if valid : parts ≠ [] ∧ (∀ part ∈ parts, part ≠ "") ∧ ∀ part ∈ parts, '.' ∉ part.toList then
    some ⟨parts, valid.1, valid.2.1, valid.2.2⟩
  else none

theorem Column.ofParts?_parts (column : Column) : ofParts? column.parts = some column :=
  dif_pos ⟨column.parts_ne_nil, column.part_ne_empty, column.part_no_point⟩

namespace OrderBy

/-! ## What a clause says -/

/-- The words of the clauses of a text, which is split at commas, and each clause at blanks. -/
def clauseWords (text : String) : List (List String) :=
  (text.toList.splitOn ',').map fun clause =>
    ((clause.splitOnP Text.isBlank).filter fun word => !word.isEmpty).map String.ofList

/-- The field that a clause names: its first word, and the empty text if it has none. -/
def fieldOf (words : List String) : String :=
  words.headD ""

/-- Whether a word is `asc` or `desc` without regard to ASCII case. -/
def isDirection (word : String) : Bool :=
  ["asc", "desc"].contains word.toLower

/-- The first item behind the field of a clause that is at fault: its second word, if that is no
direction, or else its third word. -/
def misdirection? (words : List String) : Option String :=
  (words[1]?.filter fun word => !isDirection word).or words[2]?

/-- The first item of a clause that is at fault: its field, if that is not in the map, or else
what is at fault behind it. -/
def offender? (fields : FieldMap) (words : List String) : Option String :=
  if fields.contains (fieldOf words) then misdirection? words else some (fieldOf words)

/-- A clause gives a sort key: the column of its field, in ascending order unless it says `desc`. -/
structure Denotes (fields : FieldMap) (words : List String) (key : SortKey) : Prop where
  column : fields.get? (fieldOf words) = some key.column
  direction : key.direction =
    if words[1]?.any (fun word => word.toLower == "desc") then .descending else .ascending

/-- A clause gives one sort key at most. -/
theorem Denotes.rightUnique (fields : FieldMap) : Relator.RightUnique (Denotes fields) := by
  rintro words ⟨column, direction⟩ ⟨other, found⟩ first second
  obtain rfl := Option.some.inj (first.column.symm.trans second.column)
  obtain rfl := first.direction.trans second.direction.symm
  rfl

theorem clauseWords_eq (text : String) : clauseWords text = (clauses text).map wordsOf := by
  rw [clauseWords, clauses, Text.pieces_eq_splitOnP, List.splitOn]
  refine List.map_congr_left fun clause _ => ?_
  rw [wordsOf, Text.words, Text.pieces_eq_splitOnP]

/-- Nothing in a clause is at fault if it is a field of the map, which a direction may follow. -/
theorem offender?_eq_none_iff {fields : FieldMap} {words : List String} :
    offender? fields words = none ↔
      words.length ≤ 2 ∧ fields.contains (fieldOf words) = true ∧
        ∀ word ∈ words[1]?, isDirection word = true := by
  have behind : misdirection? words = none ↔
      (∀ word ∈ words[1]?, isDirection word = true) ∧ words.length ≤ 2 := by
    simp [misdirection?, Option.filter_eq_none_iff]
  by_cases known : fields.contains (fieldOf words) = true
  · rw [offender?, if_pos known, behind, and_comm]
    simp [known]
  · simp [offender?, known]

theorem Direction.sameWord_eq {name : String} (lower : name.toList.map Char.toLower = name.toList)
    (word : String) : sameWord word name = (word.toLower == name) := by
  rw [sameWord, lower, Bool.eq_iff_iff, beq_iff_eq, beq_iff_eq, ← String.toList_inj,
    String.toLower, String.toList_map]

theorem Direction.ofWord?_eq (word : String) :
    ofWord? word = if word.toLower = "asc" then some .ascending
      else if word.toLower = "desc" then some .descending else none := by
  simp only [ofWord?, sameWord_eq (by decide : "asc".toList.map Char.toLower = "asc".toList),
    sameWord_eq (by decide : "desc".toList.map Char.toLower = "desc".toList), beq_iff_eq]

theorem isDirection_eq (word : String) : isDirection word = (Direction.ofWord? word).isSome := by
  rw [Direction.ofWord?_eq]
  split
  · simp [isDirection, *]
  · split <;> simp [isDirection, *]

/-- A direction is descending exactly if it is written `desc`. -/
theorem Direction.eq_of_ofWord? {word : String} {direction : Direction}
    (named : ofWord? word = some direction) :
    direction = if word.toLower == "desc" then .descending else .ascending := by
  rw [ofWord?_eq] at named
  split at named
  · rename_i ascending
    obtain rfl := Option.some.inj named
    rw [ascending]
    rfl
  · split at named
    · rename_i descending
      obtain rfl := Option.some.inj named
      rw [descending]
      rfl
    · cases named

/-! ## Clause by clause -/

theorem sortKey_eq (fields : FieldMap) (clause : List Char) :
    sortKey fields clause = keyOfWords fields (fieldOf (wordsOf clause)) (wordsOf clause).tail := by
  unfold sortKey
  split <;> simp [*, fieldOf]

/-- The direction of a clause, unless something behind its field is at fault. -/
theorem directionOf_tail (words : List String) :
    match directionOf words.tail with
    | .ok direction => misdirection? words = none ∧
        direction = if words[1]?.any (fun word => word.toLower == "desc") then .descending
          else .ascending
    | .error fault => misdirection? words = some fault.word := by
  match words with
  | [] => exact ⟨rfl, rfl⟩
  | [_] => exact ⟨rfl, rfl⟩
  | field :: word :: rest =>
      have second : (field :: word :: rest)[1]? = some word := rfl
      have isNamed := isDirection_eq word
      rw [List.tail_cons, directionOf, misdirection?, second]
      cases named : Direction.ofWord? word with
      | none =>
          rw [named] at isNamed
          simp [isNamed, Fault.word]
      | some direction =>
          rw [named] at isNamed
          have accepted : Option.filter (fun word => !isDirection word) (some word) = none := by
            simp [isNamed]
          rw [accepted, Option.none_or]
          cases rest with
          | nil => exact ⟨rfl, Direction.eq_of_ofWord? named⟩
          | cons extra others => rfl

/-- The sort key of a clause, unless something in it is at fault. -/
theorem keyOfWords_fieldOf (fields : FieldMap) (words : List String) :
    match keyOfWords fields (fieldOf words) words.tail with
    | .ok key => offender? fields words = none ∧ Denotes fields words key
    | .error fault => offender? fields words = some fault.word := by
  have behind := directionOf_tail words
  unfold keyOfWords
  cases known : fields.get? (fieldOf words) with
  | none => exact if_neg (by simp [Dictionary.contains, known])
  | some column =>
      have later : offender? fields words = misdirection? words :=
        if_pos (by simp [Dictionary.contains, known])
      cases found : directionOf words.tail with
      | ok direction =>
          rw [found] at behind
          exact ⟨later.trans behind.1, known, behind.2⟩
      | error fault =>
          rw [found] at behind
          exact later.trans behind

/-- The sort keys of clauses, unless something in one of them is at fault. -/
theorem mapM_sortKey (fields : FieldMap) (clauses : List (List Char)) :
    match clauses.mapM (sortKey fields) with
    | .ok keys => (∀ words ∈ clauses.map wordsOf, offender? fields words = none) ∧
        List.Forall₂ (Denotes fields) (clauses.map wordsOf) keys
    | .error fault => (clauses.map wordsOf).findSome? (offender? fields) = some fault.word := by
  induction clauses with
  | nil => exact ⟨by simp, .nil⟩
  | cons clause rest ih =>
      have first := keyOfWords_fieldOf fields (wordsOf clause)
      rw [← sortKey_eq] at first
      rw [List.mapM_cons, List.map_cons]
      cases found : sortKey fields clause with
      | error fault =>
          rw [found] at first
          change List.findSome? _ (wordsOf clause :: _) = _
          rw [List.findSome?_cons, first]
      | ok key =>
          rw [found] at first
          cases more : rest.mapM (sortKey fields) with
          | error fault =>
              rw [more] at ih
              change List.findSome? _ (wordsOf clause :: _) = _
              rw [List.findSome?_cons, first.1]
              exact ih
          | ok keys =>
              rw [more] at ih
              exact ⟨List.forall_mem_cons.mpr ⟨first.1, ih.1⟩, .cons first.2 ih.2⟩

/-! ## Reading sort keys back -/

/-- Reads the direction behind a column, and tells what is left. -/
def Direction.read? (chars : List Char) : Option (Direction × List Char) :=
  [ascending, descending].findSome? fun direction =>
    (chars.dropPrefix? direction.sql.toList).map fun rest => (direction, rest)

/-- Reads a sort key: a name, whose parts are those of a column, and a direction. -/
def SortKey.read? (chars : List Char) : Option (SortKey × List Char) := do
  let (parts, afterName) ← Sql.readName? chars
  let column ← Column.ofParts? parts
  let (direction, rest) ← Direction.read? afterName
  return (⟨column, direction⟩, rest)

/-- Reads sort keys up to the end of the text, with commas between them. There are no more than
`count` of them. -/
def readKeys? : Nat → List Char → Option (List SortKey)
  | 0, _ => none
  | count + 1, chars =>
      match SortKey.read? chars with
      | none => none
      | some (key, []) => some [key]
      | some (key, rest) =>
          ((rest.dropPrefix? ", ".toList).bind (readKeys? count)).map fun keys => key :: keys

/-- Reads the SQL of a sort order. Each key takes at least one character. -/
def decode? (sql : String) : Option (List SortKey) := do
  let chars ← sql.toList.dropPrefix? "ORDER BY ".toList
  readKeys? chars.length chars

/-- The text of a sort key. -/
def SortKey.sql (key : SortKey) : String :=
  key.column.sql ++ key.direction.sql

theorem Direction.read?_append (direction : Direction) (rest : List Char) :
    read? (direction.sql.toList ++ rest) = some (direction, rest) := by
  cases direction <;> simp [read?, sql, List.dropPrefix?]

/-- A sort key is read back, whatever follows it. -/
theorem SortKey.read?_append (key : SortKey) (rest : List Char) :
    read? (key.sql.toList ++ rest) = some (key, rest) := by
  have ends : Sql.EndsName (key.direction.sql.toList ++ rest) := by
    cases key.direction <;> simp [Sql.EndsName, Direction.sql, Column.quote]
  rw [read?, sql, String.toList_append, List.append_assoc, Sql.readName?_column _ ends]
  simp [Column.ofParts?_parts, Direction.read?_append]

/-- Behind a comma the reading goes on with the next key. -/
theorem readKeys?_comma (key : SortKey) (rest : List Char) (count : Nat) :
    readKeys? (count + 1) (key.sql.toList ++ (", ".toList ++ rest)) =
      (readKeys? count rest).map fun keys => key :: keys := by
  rw [readKeys?, key.read?_append]
  simp [List.dropPrefix?]

theorem readKeys?_intercalate : (keys : List SortKey) → keys ≠ [] → {count : Nat} →
    keys.length ≤ count →
      readKeys? count (", ".intercalate (keys.map SortKey.sql)).toList = some keys
  | [], nonempty, _, _ => absurd rfl nonempty
  | [key], _, count + 1, _ => by
      have read := key.read?_append []
      rw [List.append_nil] at read
      rw [List.map_singleton, String.intercalate_singleton, readKeys?, read]
  | key :: next :: others, _, count + 1, enough => by
      have behind := readKeys?_intercalate (next :: others) (List.cons_ne_nil _ _)
        (Nat.le_of_succ_le_succ enough)
      rw [List.map_cons] at behind
      rw [List.map_cons, List.map_cons, String.intercalate_cons_cons, String.toList_append,
        String.toList_append, List.append_assoc, readKeys?_comma, behind, Option.map_some]

/-! ## The SQL of sort keys -/

theorem renderFrom_fragment (key : SortKey) (first : Nat) :
    key.fragment.renderFrom first = ⟨key.sql, []⟩ := by
  rw [SortKey.fragment, Fragment.renderFrom_append, Fragment.renderFrom_identifier,
    Fragment.renderFrom_keyword]
  rfl

theorem sqlEach_map_fragment (keys : List SortKey) (first : Nat) :
    Fragment.sqlEach first (keys.map SortKey.fragment) = keys.map SortKey.sql := by
  induction keys generalizing first with
  | nil => rfl
  | cons key rest ih =>
      rw [List.map_cons, Fragment.sqlEach_cons, ih, renderFrom_fragment, List.map_cons]

theorem renderFrom_orderFragment (keys : List SortKey) (first : Nat) :
    (orderFragment keys).renderFrom first =
      ⟨"ORDER BY " ++ ", ".intercalate (keys.map SortKey.sql), []⟩ := by
  have unbound : (Fragment.join ", " (keys.map SortKey.fragment)).renderFrom first =
      ⟨", ".intercalate (keys.map SortKey.sql), []⟩ := by
    rw [Fragment.renderFrom_join, sqlEach_map_fragment]
    simp [SortKey.fragment]
  have noValues := congrArg Rendered.params unbound
  rw [orderFragment, Fragment.renderFrom_append, Fragment.renderFrom_keyword,
    Fragment.params_keyword, List.length_nil, Nat.add_zero, unbound]
  exact congrArg _ noValues

theorem length_le_intercalate : (keys : List SortKey) →
    keys.length ≤ (", ".intercalate (keys.map SortKey.sql)).toList.length
  | [] => Nat.zero_le _
  | [key] => by
      have some : 0 < key.direction.sql.toList.length := by
        cases key.direction <;> decide
      simp [SortKey.sql]
      omega
  | key :: next :: others => by
      have behind := length_le_intercalate (next :: others)
      rw [List.map_cons] at behind
      rw [List.map_cons, List.map_cons, String.intercalate_cons_cons, String.toList_append,
        String.toList_append]
      simp only [List.length_append, List.length_cons] at behind ⊢
      have comma : ", ".toList.length = 2 := rfl
      omega

/-- The SQL of sort keys is read back as the keys. -/
theorem decode?_orderFragment {keys : List SortKey} (nonempty : keys ≠ []) (first : Nat) :
    decode? ((orderFragment keys).renderFrom first).sql = some keys := by
  have prefixed (rest : List Char) :
      ("ORDER BY ".toList ++ rest).dropPrefix? "ORDER BY ".toList = some rest :=
    List.dropPrefix?_append_of_beq rest (beq_self_eq_true _)
  rw [renderFrom_orderFragment, decode?, String.toList_append, prefixed]
  exact readKeys?_intercalate keys nonempty (length_le_intercalate keys)

/-! ## Sort orders -/

theorem withStable_cons (key : SortKey) (rest : List SortKey) (stable : Option Column) :
    withStable (key :: rest) stable =
      key :: rest ++ stable.toList.map fun column => ⟨column, key.direction⟩ := by
  cases stable <;> simp [withStable]

/-- The sort keys of an accepted text, or the item that is reported. -/
theorem compile_clauses (text : String) (fields : FieldMap) (stable : Option Column) :
    match compile text fields stable with
    | .ok fragment => (∀ words ∈ clauseWords text, offender? fields words = none) ∧
        ∃ key rest, List.Forall₂ (Denotes fields) (clauseWords text) (key :: rest) ∧
          fragment = orderFragment
            (key :: rest ++ stable.toList.map fun column => ⟨column, key.direction⟩)
    | .error error => ∃ item, (clauseWords text).findSome? (offender? fields) = some item ∧
        error = .unsupportedField item none := by
  have clauseByClause := mapM_sortKey fields (clauses text)
  rw [← clauseWords_eq] at clauseByClause
  unfold compile sortKeys
  cases found : (clauses text).mapM (sortKey fields) with
  | error fault =>
      rw [found] at clauseByClause
      exact ⟨fault.word, clauseByClause, rfl⟩
  | ok keys =>
      rw [found] at clauseByClause
      obtain ⟨faultless, denotes⟩ := clauseByClause
      cases keys with
      | nil =>
          -- A text has at least one clause.
          have none := List.forall₂_nil_right_iff.mp denotes
          rw [clauseWords_eq, List.map_eq_nil_iff] at none
          exact absurd none (Text.pieces_ne_nil _ _)
      | cons key rest => exact ⟨faultless, key, rest, denotes, by rw [withStable_cons]⟩

/-- A sort order is accepted exactly if each of its clauses has at most two words, a field of the
map, and no second word but a direction. Otherwise the first item at fault in the first clause at
fault is reported, without a position. An accepted sort order binds no values, and its SQL is read
back as the sort keys of its clauses in order, followed by the stable column, if there is one, in
the direction of the first clause. -/
theorem sort_order_decodes (text : String) (fields : FieldMap) (stable : Option Column) :
    ((∃ fragment, compile text fields stable = .ok fragment) ↔
      ∀ words ∈ clauseWords text, words.length ≤ 2 ∧ fields.contains (fieldOf words) = true ∧
        ∀ word ∈ words[1]?, isDirection word = true) ∧
    (∀ error, compile text fields stable = .error error ↔
      ∃ item, (clauseWords text).findSome? (offender? fields) = some item ∧
        error = .unsupportedField item none) ∧
    ∀ fragment, compile text fields stable = .ok fragment → ∀ first,
      (fragment.renderFrom first).params = [] ∧
      ∃ key rest, List.Forall₂ (Denotes fields) (clauseWords text) (key :: rest) ∧
        decode? (fragment.renderFrom first).sql =
          some (key :: rest ++ stable.toList.map fun column => ⟨column, key.direction⟩) := by
  have outcome := compile_clauses text fields stable
  simp only [← offender?_eq_none_iff]
  cases compiled : compile text fields stable with
  | error error =>
      rw [compiled] at outcome
      obtain ⟨item, reported, rfl⟩ := outcome
      have atFault : ¬∀ words ∈ clauseWords text, offender? fields words = none := by
        rw [← List.findSome?_eq_none_iff, reported]
        exact Option.some_ne_none item
      refine ⟨by simpa using atFault, fun error => ?_, fun _ other => by cases other⟩
      simp [reported, eq_comm]
  | ok fragment =>
      rw [compiled] at outcome
      obtain ⟨faultless, key, rest, denotes, rfl⟩ := outcome
      refine ⟨⟨fun _ => faultless, fun _ => ⟨_, rfl⟩⟩, fun error => ?_, ?_⟩
      · simp [List.findSome?_eq_none_iff.mpr faultless]
      · rintro _ ⟨⟩ first
        exact ⟨by rw [renderFrom_orderFragment], key, rest, denotes,
          decode?_orderFragment (by simp) first⟩

/-- A column may be named like the SQL around it: `a, a DESC` has two keys, and the stable column
is a third one. -/
theorem sort_order_decodes_quoted :
    ∃ (fields : FieldMap) (column : Column) (fragment : Fragment),
      column.parts = ["t", "a\" ASC, "] ∧
      compile "a, a DESC" fields (some column) = .ok fragment ∧
      decode? (fragment.renderFrom 7).sql =
        some [⟨column, .ascending⟩, ⟨column, .descending⟩, ⟨column, .ascending⟩] := by
  let column : Column := ⟨["t", "a\" ASC, "], by simp, by simp, by decide⟩
  let fields : FieldMap := ⟨[("a", column)], by simp⟩
  have compiled : compile "a, a DESC" fields (some column) = .ok (orderFragment
      [⟨column, .ascending⟩, ⟨column, .descending⟩, ⟨column, .ascending⟩]) := by rfl
  have words : clauseWords "a, a DESC" = [["a"], ["a", "DESC"]] := by rfl
  have lower : "DESC".toLower = "desc" := by decide +kernel
  have keys : List.Forall₂ (Denotes fields) (clauseWords "a, a DESC")
      [⟨column, .ascending⟩, ⟨column, .descending⟩] := by
    rw [words]
    exact .cons ⟨rfl, rfl⟩ (.cons ⟨rfl, by simp [lower]⟩ .nil)
  obtain ⟨_, key, rest, denotes, decoded⟩ := (sort_order_decodes _ _ _).2.2 _ compiled 7
  have same := List.right_unique_forall₂' (Denotes.rightUnique fields) denotes keys
  obtain ⟨rfl, rfl⟩ := List.cons.inj same
  exact ⟨fields, column, _, rfl, compiled, decoded⟩

end OrderBy

end QueryClause
