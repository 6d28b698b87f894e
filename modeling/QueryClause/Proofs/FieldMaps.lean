import Mathlib
import QueryClause.FieldMap

/-!
# Ways to build a field map

A field map can be built from pairs of texts, from columns, entry by entry, and from a JSON object.
All of them read the columns first and then put them into the map in turn, so that they give one
map: the last column of each field counts. Where a column cannot be read, the first one is
reported, in the order of the pairs or in ascending order of the fields of an object.
-/

namespace QueryClause

/-! ## Reading all items of a list -/

section Reading

variable {α β ε : Type} {read : α → Except ε β} {items : List α}

theorem map_eq_ok_iff {change : α → β} {source : Except ε α} {result : β} :
    source.map change = .ok result ↔ ∃ value, source = .ok value ∧ change value = result := by
  cases source <;> simp [Except.map]

theorem exists_map_iff {change : α → β} {source : Except ε α} :
    (∃ result, source.map change = .ok result) ↔ ∃ value, source = .ok value := by
  cases source <;> simp [Except.map]

theorem map_eq_error_iff {change : α → β} {source : Except ε α} {reason : ε} :
    source.map change = .error reason ↔ source = .error reason := by
  cases source <;> simp [Except.map]

/-- All items are read exactly if each is read as the result at its place. -/
theorem mapM_eq_ok_iff {results : List β} :
    items.mapM read = .ok results ↔
      List.Forall₂ (fun item result => read item = .ok result) items results := by
  induction items generalizing results with
  | nil => cases results <;> simp [pure, Except.pure]
  | cons item rest ih =>
      rw [List.mapM_cons, List.forall₂_cons_left_iff]
      simp only [← ih]
      cases read item with
      | error reason => simp [bind, Except.bind]
      | ok result =>
          cases rest.mapM read with
          | error reason => simp [bind, Except.bind]
          | ok found => simp [bind, Except.bind, pure, Except.pure, eq_comm]

/-- Reading fails exactly at the first item that cannot be read. -/
theorem mapM_eq_error_iff {reason : ε} :
    items.mapM read = .error reason ↔
      ∃ before item after, items = before ++ item :: after ∧
        (∀ earlier ∈ before, ∃ result, read earlier = .ok result) ∧ read item = .error reason := by
  induction items with
  | nil => simp [pure, Except.pure]
  | cons item rest ih =>
      rw [List.mapM_cons]
      cases first : read item with
      | error other =>
          constructor
          · intro failed
            cases failed
            exact ⟨[], item, rest, rfl, by simp, first⟩
          · rintro ⟨before, culprit, after, split, fine, failed⟩
            cases before with
            | nil =>
                obtain ⟨rfl, -⟩ := List.cons.inj split
                cases first.symm.trans failed
                rfl
            | cons earlier others =>
                obtain ⟨rfl, -⟩ := List.cons.inj split
                obtain ⟨result, fineFirst⟩ := fine item List.mem_cons_self
                rw [first] at fineFirst
                cases fineFirst
      | ok result =>
          have goesOn : (Except.ok result >>= fun first => rest.mapM read >>= fun others =>
              pure (first :: others)) = .error reason ↔ rest.mapM read = .error reason := by
            cases rest.mapM read <;> simp [bind, Except.bind, pure, Except.pure]
          rw [goesOn, ih]
          constructor
          · rintro ⟨before, culprit, after, rfl, fine, failed⟩
            exact ⟨item :: before, culprit, after, rfl,
              List.forall_mem_cons.mpr ⟨⟨result, first⟩, fine⟩, failed⟩
          · rintro ⟨before, culprit, after, split, fine, failed⟩
            cases before with
            | nil =>
                obtain ⟨rfl, -⟩ := List.cons.inj split
                rw [first] at failed
                cases failed
            | cons earlier others =>
                obtain ⟨rfl, rfl⟩ := List.cons.inj split
                exact ⟨others, culprit, after, rfl, (List.forall_mem_cons.mp fine).2, failed⟩

/-- All items are read exactly if each of them can be read. -/
theorem exists_mapM_iff :
    (∃ results, items.mapM read = .ok results) ↔ ∀ item ∈ items, ∃ result, read item = .ok result := by
  constructor
  · rintro ⟨results, ran⟩
    have each : List.Forall₂ (fun item result => (∃ result, read item = .ok result) ∧
        read item = .ok result) items results :=
      (mapM_eq_ok_iff.mp ran).imp fun _ result found => ⟨⟨result, found⟩, found⟩
    exact ((List.forall₂_and_left _ _).mp each).1
  · intro fine
    cases ran : items.mapM read with
    | ok results => exact ⟨results, rfl⟩
    | error reason =>
        obtain ⟨before, item, after, rfl, -, failed⟩ := mapM_eq_error_iff.mp ran
        obtain ⟨result, found⟩ := fine item (by simp)
        rw [failed] at found
        cases found

end Reading

/-! ## Dictionaries -/

namespace Dictionary

variable {α : Type} {dictionary first second : Dictionary α} {key : String} {value : α}

/-- Around an entry stand those with smaller keys before it, and those with greater keys behind. -/
theorem lt_of_entries_eq {before after : List (String × α)}
    (split : dictionary.entries = before ++ (key, value) :: after) :
    (∀ entry ∈ before, entry.1 < key) ∧ ∀ entry ∈ after, key < entry.1 := by
  have ascending := dictionary.ascending
  rw [split, List.pairwise_append, List.pairwise_cons] at ascending
  exact ⟨fun entry mem => ascending.2.2 entry mem _ List.mem_cons_self, ascending.2.1.1⟩

/-- The value under a key is that of the entry with the key. -/
theorem get?_eq_some_iff : dictionary.get? key = some value ↔ (key, value) ∈ dictionary.entries := by
  rw [get?, List.lookup_eq_some_iff, List.mem_iff_append]
  constructor
  · rintro ⟨before, after, split, -⟩
    exact ⟨before, after, split⟩
  · rintro ⟨before, after, split⟩
    refine ⟨before, after, split, fun entry mem => ?_⟩
    simpa using ((lt_of_entries_eq split).1 entry mem).ne'

/-- Dictionaries with the same values under all keys are the same. -/
theorem ext_get? (same : ∀ key, first.get? key = second.get? key) : first = second := by
  have nodup (dictionary : Dictionary α) : dictionary.entries.Nodup :=
    dictionary.ascending.imp fun less equal => (less.trans_eq (congrArg Prod.fst equal.symm)).false
  have members : first.entries.Perm second.entries := by
    refine (List.perm_ext_iff_of_nodup (nodup first) (nodup second)).mpr fun (key, value) => ?_
    rw [← get?_eq_some_iff, ← get?_eq_some_iff, same]
  have entries : first.entries = second.entries :=
    members.eq_of_pairwise (fun _ _ _ _ less more => (less.asymm more).elim) first.ascending
      second.ascending
  cases first
  cases second
  exact (mk.injEq ..).mpr entries

/-- Each key stands once, so that the entries can be searched from either end. -/
theorem lookup_reverse_entries (dictionary : Dictionary α) (key : String) :
    dictionary.entries.reverse.lookup key = dictionary.get? key := by
  refine Option.ext fun value => ?_
  rw [get?_eq_some_iff, List.lookup_eq_some_iff]
  constructor
  · rintro ⟨before, after, split, -⟩
    rw [← List.mem_reverse, split]
    simp
  · intro mem
    obtain ⟨before, after, split⟩ := List.mem_iff_append.mp mem
    refine ⟨after.reverse, before.reverse, by simp [split], fun entry behind => ?_⟩
    simpa using ((lt_of_entries_eq split).2 entry (List.mem_reverse.mp behind)).ne

theorem ofList_concat (entries : List (String × α)) (entry : String × α) :
    ofList (entries ++ [entry]) = (ofList entries).insert entry.1 entry.2 :=
  List.foldl_concat ..

/-- A key holds the value of the last entry with the key. -/
theorem get?_ofList (entries : List (String × α)) (key : String) :
    (ofList entries).get? key = entries.reverse.lookup key := by
  induction entries using List.reverseRecOn with
  | nil => rfl
  | append_singleton entries entry ih =>
      rw [ofList_concat, get?_insert, ih, List.reverse_concat, List.lookup_cons]
      by_cases same : key = entry.1
      · simp [same]
      · simp [same, beq_false_of_ne same]

/-- There are as many keys as different ones in the list. -/
theorem size_ofList (entries : List (String × α)) :
    (ofList entries).size = (entries.map Prod.fst).dedup.length := by
  have nodup : ((ofList entries).entries.map Prod.fst).Nodup :=
    List.pairwise_map.mpr ((ofList entries).ascending.imp ne_of_lt)
  have keys : ((ofList entries).entries.map Prod.fst).Perm (entries.map Prod.fst).dedup := by
    refine (List.perm_ext_iff_of_nodup nodup (List.nodup_dedup _)).mpr fun key => ?_
    rw [List.mem_dedup]
    have known (entries : List (String × α)) :
        (entries.lookup key).isSome = true ↔ key ∈ entries.map Prod.fst := by
      rw [List.lookup_isSome_iff, List.mem_map]
      exact exists_congr fun entry => and_congr_right' (by rw [beq_iff_eq, eq_comm])
    rw [← known, ← known, ← get?, get?_ofList, known, known, List.map_reverse, List.mem_reverse]
  rw [size, ← keys.length_eq, List.length_map]

end Dictionary

/-! ## Field maps -/

theorem Column.parse_eq_error_iff {text : String} {error : ConfigError} :
    parse text = .error error ↔
      (∀ column, parse text ≠ .ok column) ∧ error = .invalidColumn text := by
  unfold parse
  split <;> simp [eq_comm]

namespace FieldMap

section Entries

variable {α : Type} {read : String → α → Except ConfigError Column}
  {entries : List (String × α)} {columns : List (String × Column)}

/-- Entries with their columns, which are read in order. -/
def readAll (read : String → α → Except ConfigError Column) (entries : List (String × α)) :
    Except ConfigError (List (String × Column)) :=
  entries.mapM fun entry => (read entry.1 entry.2).map (Prod.mk entry.1)

/-- Putting columns into a map as they are read is the same as reading them all first. -/
theorem foldlM_insert (read : String → α → Except ConfigError Column)
    (entries : List (String × α)) (start : FieldMap) :
    entries.foldlM (fun map entry => (read entry.1 entry.2).map (map.insert entry.1)) start =
      (readAll read entries).map fun columns =>
        columns.foldl (fun map entry => map.insert entry.1 entry.2) start := by
  induction entries generalizing start with
  | nil => rfl
  | cons entry rest ih =>
      rw [readAll, List.foldlM_cons, List.mapM_cons]
      cases read entry.1 entry.2 with
      | error reason => rfl
      | ok column =>
          change List.foldlM _ _ rest = _
          rw [ih, readAll]
          cases rest.mapM fun entry => (read entry.1 entry.2).map (Prod.mk entry.1) <;> rfl

theorem readAll_eq_ok_iff :
    readAll read entries = .ok columns ↔
      List.Forall₂ (fun entry column => read entry.1 entry.2 = .ok column.2 ∧ entry.1 = column.1)
        entries columns := by
  rw [readAll, mapM_eq_ok_iff]
  refine Iff.of_eq ?_
  congr
  funext entry column
  simp [map_eq_ok_iff, Prod.ext_iff]

theorem exists_readAll_iff :
    (∃ columns, readAll read entries = .ok columns) ↔
      ∀ entry ∈ entries, ∃ column, read entry.1 entry.2 = .ok column := by
  rw [readAll, exists_mapM_iff]
  exact forall₂_congr fun _ _ => exists_map_iff

theorem readAll_eq_error_iff {error : ConfigError} :
    readAll read entries = .error error ↔
      ∃ before entry after, entries = before ++ entry :: after ∧
        (∀ earlier ∈ before, ∃ column, read earlier.1 earlier.2 = .ok column) ∧
        read entry.1 entry.2 = .error error := by
  simp only [readAll, mapM_eq_error_iff, exists_map_iff, map_eq_error_iff]

theorem lookup_of_forall₂ {field : String}
    (reads : List.Forall₂ (fun entry column => read entry.1 entry.2 = .ok column.2 ∧
      entry.1 = column.1) entries columns) :
    columns.lookup field =
      (entries.lookup field).bind fun value => (read field value).toOption := by
  induction reads with
  | nil => rfl
  | @cons entry column entries columns found _ ih =>
      obtain ⟨found, same⟩ := found
      rw [List.lookup_cons, List.lookup_cons, ← same, ih]
      by_cases here : field = entry.1
      · simp [here, found, Except.toOption]
      · simp [beq_false_of_ne here]

/-- The column of a field is the one that its last entry is read as. -/
theorem get?_of_readAll (ran : readAll read entries = .ok columns) (field : String) :
    (Dictionary.ofList columns).get? field =
      (entries.reverse.lookup field).bind fun value => (read field value).toOption := by
  rw [Dictionary.get?_ofList]
  exact lookup_of_forall₂ (List.forall₂_reverse_iff.mpr (readAll_eq_ok_iff.mp ran))

theorem keys_of_readAll (ran : readAll read entries = .ok columns) :
    columns.map Prod.fst = entries.map Prod.fst := by
  have reads := readAll_eq_ok_iff.mp ran
  clear ran
  induction reads with
  | nil => rfl
  | cons found _ ih => rw [List.map_cons, List.map_cons, ih, found.2]

end Entries

/-- The column that a JSON value gives a field. -/
def columnOf (field : String) : Json → Except ConfigError Column
  | .text column => Column.parse column
  | _ => .error (.columnNotText field)

theorem ofPairs_eq (pairs : List (String × String)) :
    ofPairs pairs = (readAll (fun _ => Column.parse) pairs).map Dictionary.ofList := by
  have step : (fun (map : FieldMap) (pair : String × String) => add map pair.1 pair.2) =
      fun map pair => (Column.parse pair.2).map (map.insert pair.1) := by
    funext map pair
    rw [add]
    cases Column.parse pair.2 <;> rfl
  rw [ofPairs, step]
  exact foldlM_insert (fun _ => Column.parse) pairs Dictionary.empty

theorem ofJson_eq (members : List (String × Json)) :
    ofJson (.object members) =
      (readAll columnOf (Dictionary.ofList members).entries).map Dictionary.ofList := by
  have step : (fun (map : FieldMap) (member : String × Json) => addJson map member.1 member.2) =
      fun map member => (columnOf member.1 member.2).map (map.insert member.1) := by
    funext map ⟨field, value⟩
    cases value with
    | text column =>
        change add map field column = (Column.parse column).map _
        rw [add]
        cases Column.parse column <;> rfl
    | _ => rfl
  rw [ofJson, step]
  exact foldlM_insert columnOf _ Dictionary.empty

theorem columnOf_eq_ok_iff {field : String} {value : Json} {column : Column} :
    columnOf field value = .ok column ↔
      ∃ text, value = .text text ∧ Column.parse text = .ok column := by
  cases value <;> simp [columnOf]

/-- What is wrong with a value that gives a field no column. -/
inductive Misfit (field : String) : Json → ConfigError → Prop where
  | notText {value : Json} (other : ∀ text, value ≠ .text text) :
      Misfit field value (.columnNotText field)
  | invalid {text : String} (refused : ∀ column, Column.parse text ≠ .ok column) :
      Misfit field (.text text) (.invalidColumn text)

theorem columnOf_eq_error_iff {field : String} {value : Json} {error : ConfigError} :
    columnOf field value = .error error ↔ Misfit field value error := by
  constructor
  · intro failed
    cases value with
    | text text =>
        obtain ⟨refused, rfl⟩ := Column.parse_eq_error_iff.mp failed
        exact .invalid refused
    | _ =>
        cases failed
        exact .notText (by simp)
  · rintro (⟨other⟩ | ⟨refused⟩)
    · cases value with
      | text text => exact absurd rfl (other text)
      | _ => rfl
    · exact Column.parse_eq_error_iff.mpr ⟨refused, rfl⟩

theorem exists_ofPairs_iff {pairs : List (String × String)} :
    (∃ map, ofPairs pairs = .ok map) ↔ ∀ pair ∈ pairs, ∃ column, Column.parse pair.2 = .ok column := by
  rw [ofPairs_eq, exists_map_iff, exists_readAll_iff]

theorem ofPairs_eq_error_iff {pairs : List (String × String)} {error : ConfigError} :
    ofPairs pairs = .error error ↔
      ∃ before field text after, pairs = before ++ (field, text) :: after ∧
        (∀ pair ∈ before, ∃ column, Column.parse pair.2 = .ok column) ∧
        (∀ column, Column.parse text ≠ .ok column) ∧ error = .invalidColumn text := by
  simp only [ofPairs_eq, map_eq_error_iff, readAll_eq_error_iff, Column.parse_eq_error_iff,
    Prod.exists]

/-- The members that are visited are the last ones of each name. -/
theorem mem_entries_iff {members : List (String × Json)} {field : String} {value : Json} :
    (field, value) ∈ (Dictionary.ofList members).entries ↔
      members.reverse.lookup field = some value := by
  rw [← Dictionary.get?_ofList, Dictionary.get?_eq_some_iff]

theorem exists_ofJson_iff {members : List (String × Json)} :
    (∃ map, ofJson (.object members) = .ok map) ↔
      ∀ field value, members.reverse.lookup field = some value →
        ∃ column, columnOf field value = .ok column := by
  simp only [ofJson_eq, exists_map_iff, exists_readAll_iff, Prod.forall, mem_entries_iff]

/-- The error of an object is that of its smallest name with a value that is no column. -/
theorem ofJson_eq_error_iff {members : List (String × Json)} {error : ConfigError} :
    ofJson (.object members) = .error error ↔
      ∃ field value, members.reverse.lookup field = some value ∧ Misfit field value error ∧
        ∀ smaller other, smaller < field → members.reverse.lookup smaller = some other →
          ∃ column, columnOf smaller other = .ok column := by
  simp only [ofJson_eq, map_eq_error_iff, readAll_eq_error_iff, ← columnOf_eq_error_iff,
    ← mem_entries_iff]
  constructor
  · rintro ⟨before, ⟨field, value⟩, after, split, fine, failed⟩
    refine ⟨field, value, by simp [split], failed, fun smaller other less mem => ?_⟩
    rw [split, List.mem_append, List.mem_cons, Prod.mk.injEq] at mem
    rcases mem with ahead | ⟨rfl, -⟩ | behind
    · exact fine _ ahead
    · exact absurd less (lt_irrefl _)
    · exact absurd less ((Dictionary.lt_of_entries_eq split).2 _ behind).not_gt
  · rintro ⟨field, value, mem, failed, fine⟩
    obtain ⟨before, after, split⟩ := List.mem_iff_append.mp mem
    refine ⟨before, _, after, split, fun earlier ahead => ?_, failed⟩
    refine fine _ _ ((Dictionary.lt_of_entries_eq split).1 earlier ahead) ?_
    rw [split]
    exact List.mem_append_left _ ahead

/-- The column of a field is that of its last pair. -/
theorem get?_of_ofPairs {pairs : List (String × String)} {map : FieldMap}
    (built : ofPairs pairs = .ok map) (field : String) :
    map.get? field = (pairs.reverse.lookup field).bind fun text => (Column.parse text).toOption := by
  rw [ofPairs_eq] at built
  obtain ⟨columns, ran, rfl⟩ := map_eq_ok_iff.mp built
  exact get?_of_readAll ran field

theorem get?_of_ofJson {members : List (String × Json)} {map : FieldMap}
    (built : ofJson (.object members) = .ok map) (field : String) :
    map.get? field =
      (members.reverse.lookup field).bind fun value => (columnOf field value).toOption := by
  rw [ofJson_eq] at built
  obtain ⟨columns, ran, rfl⟩ := map_eq_ok_iff.mp built
  rw [get?_of_readAll ran, Dictionary.lookup_reverse_entries, Dictionary.get?_ofList]

/-- An object with the last column text of each field gives the map of the pairs. -/
theorem ofJson_of_ofPairs {pairs : List (String × String)} {members : List (String × Json)}
    {map : FieldMap} (built : ofPairs pairs = .ok map)
    (same : ∀ field, members.reverse.lookup field = (pairs.reverse.lookup field).map Json.text) :
    ofJson (.object members) = .ok map := by
  have fine := exists_ofPairs_iff.mp ⟨map, built⟩
  have visited : ∀ field value, members.reverse.lookup field = some value →
      ∃ column, columnOf field value = .ok column := by
    intro field value found
    obtain ⟨text, last, rfl⟩ := Option.map_eq_some_iff.mp ((same field).symm.trans found)
    obtain ⟨before, after, split, -⟩ := List.lookup_eq_some_iff.mp last
    refine fine (field, text) (List.mem_reverse.mp ?_)
    rw [split]
    simp
  obtain ⟨other, read⟩ := exists_ofJson_iff.mpr visited
  obtain rfl : other = map := Dictionary.ext_get? fun field => by
    rw [get?_of_ofJson read, get?_of_ofPairs built, same, Option.bind_map]
    rfl
  exact read

end FieldMap

/-- A map can be built from pairs exactly if each of their texts is a column, and otherwise the first
that is none is reported. It is then the map of the columns, put in one by one or all at once, and
that of any object with the last text of each field. It has the column of the last pair of each
field, and as many fields as there are different ones. An object gives a map exactly if the last
value of each name is the text of a column, and otherwise the smallest name that has none is
reported. -/
theorem field_maps_agree :
    (∀ pairs : List (String × String),
      ((∃ map, FieldMap.ofPairs pairs = .ok map) ↔
        ∀ pair ∈ pairs, ∃ column, Column.parse pair.2 = .ok column) ∧
      (∀ error, FieldMap.ofPairs pairs = .error error ↔
        ∃ before field text after, pairs = before ++ (field, text) :: after ∧
          (∀ pair ∈ before, ∃ column, Column.parse pair.2 = .ok column) ∧
          (∀ column, Column.parse text ≠ .ok column) ∧ error = .invalidColumn text) ∧
      ∀ map, FieldMap.ofPairs pairs = .ok map →
        (∃ columns, List.Forall₂ (fun pair entry => Column.parse pair.2 = .ok entry.2 ∧
            pair.1 = entry.1) pairs columns ∧
          map = Dictionary.ofList columns ∧
          map = columns.foldl (fun built entry => built.insert entry.1 entry.2) Dictionary.empty) ∧
        (∀ members : List (String × Json),
          (∀ field, members.reverse.lookup field = (pairs.reverse.lookup field).map Json.text) →
          FieldMap.ofJson (.object members) = .ok map) ∧
        (∀ field, map.get? field =
          (pairs.reverse.lookup field).bind fun text => (Column.parse text).toOption) ∧
        map.size = (pairs.map Prod.fst).dedup.length) ∧
    ∀ members : List (String × Json),
      ((∃ map, FieldMap.ofJson (.object members) = .ok map) ↔
        ∀ field value, members.reverse.lookup field = some value →
          ∃ text column, value = .text text ∧ Column.parse text = .ok column) ∧
      ∀ error, FieldMap.ofJson (.object members) = .error error ↔
        ∃ field value, members.reverse.lookup field = some value ∧
          FieldMap.Misfit field value error ∧
          ∀ smaller other, smaller < field → members.reverse.lookup smaller = some other →
            ∃ text column, other = .text text ∧ Column.parse text = .ok column := by
  have readable (field : String) (value : Json) :
      (∃ text column, value = .text text ∧ Column.parse text = .ok column) ↔
        ∃ column, FieldMap.columnOf field value = .ok column := by
    simp only [FieldMap.columnOf_eq_ok_iff]
    exact exists_comm
  refine ⟨fun pairs => ⟨FieldMap.exists_ofPairs_iff, fun _ => FieldMap.ofPairs_eq_error_iff, ?_⟩,
    fun members => ⟨?_, fun error => ?_⟩⟩
  · intro map built
    refine ⟨?_, fun members => FieldMap.ofJson_of_ofPairs built, FieldMap.get?_of_ofPairs built, ?_⟩
    all_goals
      rw [FieldMap.ofPairs_eq] at built
      obtain ⟨columns, ran, rfl⟩ := map_eq_ok_iff.mp built
    · exact ⟨columns, FieldMap.readAll_eq_ok_iff.mp ran, rfl, rfl⟩
    · rw [Dictionary.size_ofList, FieldMap.keys_of_readAll ran]
  · rw [FieldMap.exists_ofJson_iff]
    exact forall₂_congr fun field value => imp_congr_right fun _ => (readable field value).symm
  · rw [FieldMap.ofJson_eq_error_iff]
    simp only [← readable]

/-- Of two columns of `a` the later one counts, in the pairs as in an object that repeats the name; and
in an object the smaller of two names at fault is reported, though it stands behind the other. -/
theorem field_maps_agree_repeated :
    ∃ (map : FieldMap) (first last : Column), Column.parse "x" = .ok first ∧
      Column.parse "t.y" = .ok last ∧
      FieldMap.ofPairs [("a", "x"), ("b", "x"), ("a", "t.y")] = .ok map ∧
      map = ((Dictionary.empty.insert "a" first).insert "b" first).insert "a" last ∧
      FieldMap.ofJson (.object [("a", .null), ("b", .text "x"), ("a", .text "t.y")]) = .ok map ∧
      map.get? "a" = some last ∧ map.size = 2 ∧
      FieldMap.ofJson (.object [("c", .text "x."), ("b", .null), ("a", .text "x")]) =
        .error (.columnNotText "b") := by
  let first : Column := ⟨["x"], by simp, by simp, by decide⟩
  let last : Column := ⟨["t", "y"], by simp, by simp, by decide⟩
  have readFirst : Column.parse "x" = .ok first := by decide +kernel
  have readLast : Column.parse "t.y" = .ok last := by decide +kernel
  obtain ⟨accepts, -, facts⟩ := field_maps_agree.1 [("a", "x"), ("b", "x"), ("a", "t.y")]
  obtain ⟨map, built⟩ := accepts.mpr (by simp [readFirst, readLast])
  obtain ⟨⟨columns, reads, -, inserted⟩, fromJson, get, size⟩ := facts map built
  obtain rfl : columns = [("a", first), ("b", first), ("a", last)] := by
    simpa [List.forall₂_cons_left_iff, readFirst, readLast, Prod.ext_iff] using reads
  refine ⟨map, first, last, readFirst, readLast, built, inserted, fromJson _ fun field => ?_, ?_,
    size, ((field_maps_agree.2 _).2 _).mpr ⟨"b", .null, rfl, .notText (by simp), ?_⟩⟩
  · by_cases isA : field = "a"
    · simp [isA]
    · by_cases isB : field = "b"
      · simp [isB, List.lookup_cons]
      · simp [List.lookup_cons, beq_false_of_ne isA, beq_false_of_ne isB]
  · rw [get]
    exact congrArg Except.toOption readLast
  · intro smaller other less found
    by_cases isA : smaller = "a"
    · obtain rfl : Json.text "x" = other := by simpa [isA] using found
      exact ⟨"x", first, rfl, readFirst⟩
    · have notB : smaller ≠ "b" := less.ne
      have notC : smaller ≠ "c" := (less.trans (by decide)).ne
      simp [List.lookup_cons, beq_false_of_ne isA, beq_false_of_ne notB, beq_false_of_ne notC] at found

end QueryClause
