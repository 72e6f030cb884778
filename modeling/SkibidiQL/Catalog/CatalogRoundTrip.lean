import SkibidiQL.Catalog.JsonReads

/-!
# The catalog file round trip

`Catalog.load` of what `Catalog.save` writes gives the tables, the snapshots and the contexts back, for
every catalog without the empty fields for which the reader puts a default (`CatalogOK`).
-/

namespace SkibidiQL

open Bytes Json

namespace CatalogFile

variable {α β σ : Type}

/-! ### Layouts -/

/-- The keys of the fields as bytes. -/
def keyed (fields : List (String × Bytes)) : List (Bytes × Bytes) :=
  fields.map fun item ↦ (lit item.1, item.2)

/-- A literal of blanks is blank. -/
theorem allSpace_lit (s : String) (h : (lit s).all isSpace = true) : AllSpace (lit s) :=
  fun b hb ↦ List.all_eq_true.1 h b hb

/-- A comma and blanks separate. -/
theorem separator_lit (s : String) (gap : Bytes) (h : lit s = 44 :: gap)
    (hgap : gap.all isSpace = true) : Separator (lit s) :=
  ⟨gap, h, fun b hb ↦ List.all_eq_true.1 hgap b hb⟩

/-- Joined fields are the first and then the others, each behind a separator. -/
theorem joinStrings_fields (separator : Bytes) (first : String × Bytes)
    (items : List (String × Bytes)) :
    joinStrings separator ((first :: items).map fun item ↦ field item.1 item.2) =
      fieldText (lit first.1, first.2) ++ (keyed items).flatMap (separator ++ fieldText ·) := by
  rw [List.map_cons, joinStrings_cons, keyed, List.flatMap_map, List.flatMap_map]
  rfl

/-- An object on one line is read back when its fields are. -/
theorem reads_object {read : Bytes → σ → JsonM σ} {record record' : σ} {first : String × Bytes}
    {items : List (String × Bytes)}
    (h : FieldsRead read (keyed (first :: items)) record record') :
    Reads (parseObject? read record) (object ", " (first :: items)) (some record') := by
  have hread := reads_object? (separator_lit ", " [32] rfl rfl) allSpace_nil allSpace_nil h
  have htext : object ", " (first :: items) = 123 :: ([] ++ (fieldText (lit first.1, first.2) ++
      ((keyed items).flatMap (lit ", " ++ fieldText ·) ++ ([] ++ [125])))) := by
    rw [object, joinStrings_fields, show lit "\x7b" = [123] from rfl, show lit "\x7d" = [125] from rfl]
    simp only [List.nil_append, List.append_assoc, List.cons_append]
  rw [htext]
  exact hread

/-- An object over several lines is read back when its fields are. -/
theorem reads_block {read : Bytes → σ → JsonM σ} {record record' : σ} {first : String × Bytes}
    {items : List (String × Bytes)}
    (h : FieldsRead read (keyed (first :: items)) record record') :
    Reads (parseObject? read record) (block (first :: items)) (some record') := by
  have hread := reads_object? (separator_lit ",\n      " (lit "\n      ") rfl rfl)
    (allSpace_lit "\n      " rfl) (allSpace_lit "\n    " rfl) h
  have htext : block (first :: items) = 123 :: (lit "\n      " ++ (fieldText (lit first.1, first.2) ++
      ((keyed items).flatMap (lit ",\n      " ++ fieldText ·) ++ (lit "\n    " ++ [125])))) := by
    rw [block, joinStrings_fields, show lit "\x7b\n      " = 123 :: lit "\n      " from rfl,
      show lit "\n    \x7d" = lit "\n    " ++ [125] from rfl]
    simp only [List.append_assoc, List.cons_append]
  rw [htext]
  exact hread

/-- An array is read back when its items are. -/
theorem reads_array {element : JsonM α} {write : α → Bytes} {items : List α}
    (hopens : ∀ item, Opens (write item)) (hitems : ∀ item ∈ items, Reads element (write item) item) :
    Reads (parseArray element) (array (items.map write)) items := by
  cases items with
  | nil => exact reads_array_nil element
  | cons first items =>
    have hpairs : ∀ item ∈ (write first, first) :: items.map fun item ↦ (write item, item),
        Reads element item.1 item.2 := by
      intro item hitem
      rcases List.mem_cons.1 hitem with rfl | hitem
      · exact hitems first List.mem_cons_self
      · obtain ⟨value, hvalue, rfl⟩ := List.mem_map.1 hitem
        exact hitems value (List.mem_cons_of_mem _ hvalue)
    have hread := reads_array_cons (separator_lit ",\n        " (lit "\n        ") rfl rfl)
      (allSpace_lit "\n        " rfl) (allSpace_lit "\n      " rfl) (write first, first) _ (hopens first)
      hpairs
    have hvalues : (items.map fun item ↦ (write item, item)).map (·.2) = items := by
      rw [List.map_map]
      exact List.map_id items
    have htext : array ((first :: items).map write) = 91 :: (lit "\n        " ++ (write first ++
        ((items.map fun item ↦ (write item, item)).flatMap (lit ",\n        " ++ ·.1) ++
          (lit "\n      " ++ [93])))) := by
      rw [array, lines, List.map_cons, List.map_cons, List.isEmpty_cons, if_neg Bool.false_ne_true,
        joinStrings_cons, List.flatMap_map, List.flatMap_map, List.flatMap_map,
        show lit "[" = [91] from rfl, show lit "]" = [93] from rfl]
      simp only [List.append_assoc, List.cons_append, List.nil_append]
      rfl
    rw [htext]
    rw [hvalues] at hread
    exact hread

/-- An array of texts is read back. -/
theorem reads_strings (values : List Bytes) :
    Reads parseStringArray (writeJsonStringArray values) values := by
  cases values with
  | nil => exact reads_array_nil parseString
  | cons first values =>
    have hpairs : ∀ item ∈ (quoted first, first) :: values.map fun value ↦ (quoted value, value),
        Reads parseString item.1 item.2 := by
      intro item hitem
      rcases List.mem_cons.1 hitem with rfl | hitem
      · exact reads_quoted first
      · obtain ⟨value, -, rfl⟩ := List.mem_map.1 hitem
        exact reads_quoted value
    have hopens : Opens (quoted first) := by
      rw [← List.append_nil (quoted first)]
      exact opens_quoted first []
    have hread := reads_array_cons (separator_lit ", " [32] rfl rfl) allSpace_nil allSpace_nil
      (quoted first, first) _ hopens hpairs
    have hvalues : (values.map fun value ↦ (quoted value, value)).map (·.2) = values := by
      rw [List.map_map]
      exact List.map_id values
    have htext : writeJsonStringArray (first :: values) = 91 :: ([] ++ (quoted first ++
        ((values.map fun value ↦ (quoted value, value)).flatMap (lit ", " ++ ·.1) ++
          ([] ++ [93])))) := by
      rw [writeJsonStringArray, List.map_cons, joinStrings_cons, List.flatMap_map, List.flatMap_map,
        show lit "[" = [91] from rfl, show lit "]" = [93] from rfl]
      simp only [List.append_assoc, List.cons_append, List.nil_append]
    rw [htext]
    rw [hvalues] at hread
    exact hread

/-- An object opens an element. -/
theorem opens_object (fields : List (String × Bytes)) : Opens (object ", " fields) :=
  ⟨123, _, rfl, by decide, by decide, by decide⟩

/-! ### Records -/

/-- A column is read back. -/
theorem reads_column {column : ColumnMeta} (htype : column.type ≠ []) :
    Reads parseColumn (writeColumn column) column := by
  have hread : Reads (parseObject? columnField {}) (writeColumn column) (some column) := by
    refine reads_object ?_
    dsimp only [keyed, List.map]
    exact .cons ((reads_quoted _).into _) <| .cons ((reads_quoted _).into _) <|
      .cons ((reads_bool _).into _) <| .cons ((reads_bool _).into _) <|
      .cons ((reads_quoted _).into _) <| .cons ((reads_quoted _).into _) <| .nil _
  intro space rest hspace hrest
  rw [parseColumn, EStateM.bind_of_ok (hread space rest hspace hrest)]
  show (pure (if column.type.isEmpty then _ else column) : JsonM ColumnMeta) rest = _
  rw [List.isEmpty_eq_false_iff.2 htype, if_neg Bool.false_ne_true]
  rfl

/-- A table is read back when its columns have types. -/
theorem reads_table {table : TableMeta} (hcolumns : ∀ column ∈ table.columns, column.type ≠ []) :
    Reads (parseTable table.name) (writeTable table) table := by
  have hread : Reads (parseObject? tableField { name := table.name }) (writeTable table) (some table) := by
    refine reads_block ?_
    dsimp only [keyed, List.map]
    exact .cons ((reads_array (fun _ ↦ opens_object _)
      fun column hcolumn ↦ reads_column (hcolumns column hcolumn)).into _) <| .nil _
  exact hread.object

/-- A feature of a snapshot is read back. -/
theorem reads_feature (feature : SnapshotFeatureMeta) :
    Reads parseFeature (writeFeature feature) feature := by
  have hread : Reads (parseObject? featureField {}) (writeFeature feature) (some feature) := by
    refine reads_object ?_
    dsimp only [keyed, List.map]
    exact .cons ((reads_quoted _).into _) <| .cons ((reads_quoted _).into _) <| .nil _
  exact hread.object

/-- A row of a snapshot is read back. -/
theorem reads_row (row : SnapshotRowMeta) : Reads parseRow (writeRow row) row := by
  have hread : Reads (parseObject? rowField {}) (writeRow row) (some row) := by
    refine reads_object ?_
    dsimp only [keyed, List.map]
    exact .cons ((reads_quoted _).into _) <| .cons ((reads_quoted _).into _) <| .nil _
  exact hread.object

/-- A snapshot is read back with its features and rows. -/
theorem reads_snapshot (snapshot : DatasetSnapshotMeta) :
    Reads (parseSnapshot snapshot.name) (writeSnapshot snapshot) snapshot := by
  have hread : Reads (parseObject? snapshotField { name := snapshot.name }) (writeSnapshot snapshot)
      (some snapshot) := by
    refine reads_block ?_
    dsimp only [keyed, List.map]
    exact .cons ((reads_quoted _).into _) <| .cons ((reads_quoted _).into _) <|
      .cons ((reads_quoted _).into _) <| .cons ((reads_quoted _).into _) <|
      .cons ((reads_quoted _).into _) <| .cons ((reads_number _).into _) <|
      .cons ((reads_array (fun _ ↦ opens_object _) fun _ _ ↦ reads_feature _).into _) <|
      .cons ((reads_feature _).into _) <|
      .cons ((reads_array (fun _ ↦ opens_object _) fun _ _ ↦ reads_row _).into _) <|
      .cons ((reads_strings _).into _) <| .nil _
  exact hread.object

/-- A value that is not empty is not replaced by its default. -/
theorem orElse_of_ne {value : Bytes} (h : value ≠ []) (other : Bytes) : orElse value other = value := by
  rw [orElse, List.isEmpty_eq_false_iff.2 h, if_neg Bool.false_ne_true]

/-- The fields of a message that the reader fills in when they are empty. -/
structure MessageOK (message : ContextMessageMeta) : Prop where
  tab : message.tab ≠ []
  schemaName : message.schemaName ≠ []
  schemaVersion : message.schemaVersion ≠ []
  storageRoute : message.storageRoute ≠ []

/-- A message is read back. -/
theorem reads_message {message : ContextMessageMeta} (h : MessageOK message) :
    Reads parseMessage (writeMessage message) message := by
  have hread : Reads (parseObject? messageField {}) (writeMessage message) (some message) := by
    refine reads_object ?_
    dsimp only [keyed, List.map]
    exact .cons ((reads_number _).into _) <| .cons ((reads_quoted _).into _) <|
      .cons ((reads_quoted _).into _) <| .cons ((reads_quoted _).into _) <|
      .cons ((reads_quoted _).into _) <| .cons ((reads_quoted _).into _) <|
      .cons ((reads_quoted _).into _) <| .cons ((reads_strings _).into _) <|
      .cons ((reads_strings _).into _) <| .cons ((reads_strings _).into _) <|
      .cons ((reads_strings _).into _) <| .nil _
  have hfill : fillMessage message = message := by
    rw [fillMessage, orElse_of_ne h.tab, orElse_of_ne h.schemaName, orElse_of_ne h.schemaVersion,
      orElse_of_ne h.storageRoute]
  have hfilled := hread.object.into fillMessage
  rw [Option.getD_some, hfill] at hfilled
  exact hfilled

/-- The fields of an atom that the reader fills in when they are empty. -/
structure AtomOK (atom : ContextAtomMeta) : Prop where
  tab : atom.tab ≠ []
  schemaName : atom.schemaName ≠ []
  schemaVersion : atom.schemaVersion ≠ []
  extractorConfidence : atom.extractorConfidence ≠ []

/-- An atom is read back. -/
theorem reads_atom {atom : ContextAtomMeta} (h : AtomOK atom) :
    Reads parseAtom (writeAtom atom) atom := by
  have hread : Reads (parseObject? atomField {}) (writeAtom atom) (some atom) := by
    refine reads_object ?_
    dsimp only [keyed, List.map]
    exact .cons ((reads_quoted _).into _) <| .cons ((reads_quoted _).into _) <|
      .cons ((reads_quoted _).into _) <| .cons ((reads_quoted _).into _) <|
      .cons ((reads_quoted _).into _) <| .cons ((reads_quoted _).into _) <|
      .cons ((reads_quoted _).into _) <| .cons ((reads_quoted _).into _) <|
      .cons ((reads_quoted _).into _) <| .cons ((reads_strings _).into _) <|
      .cons ((reads_strings _).into _) <| .cons ((reads_quoted _).into _) <|
      .cons ((reads_quoted _).into _) <| .cons ((reads_number _).into _) <|
      .cons ((reads_number _).into _) <| .cons ((reads_quoted _).into _) <| .nil _
  have hfill : fillAtom atom = atom := by
    rw [fillAtom, orElse_of_ne h.tab, orElse_of_ne h.schemaName, orElse_of_ne h.schemaVersion,
      orElse_of_ne h.extractorConfidence]
  have hfilled := hread.object.into fillAtom
  rw [Option.getD_some, hfill] at hfilled
  exact hfilled

/-- A tab alias is read back. -/
theorem reads_tabAlias (entry : ContextTabAliasMeta) :
    Reads parseTabAlias (writeTabAlias entry) entry := by
  have hread : Reads (parseObject? tabAliasField ⟨[], []⟩) (writeTabAlias entry) (some entry) := by
    refine reads_object ?_
    dsimp only [keyed, List.map]
    exact .cons ((reads_quoted _).into _) <| .cons ((reads_quoted _).into _) <| .nil _
  exact hread.object

/-- Tab aliases are read back where neither side is empty. -/
theorem reads_tabAliases {entries : List ContextTabAliasMeta}
    (h : ∀ entry ∈ entries, entry.aliasTab ≠ [] ∧ entry.target ≠ []) :
    Reads parseTabAliases (array (entries.map writeTabAlias)) entries := by
  have hkeep : (entries.filter fun entry ↦ !entry.aliasTab.isEmpty && !entry.target.isEmpty) =
      entries := by
    refine List.filter_eq_self.2 fun entry hentry ↦ ?_
    rw [List.isEmpty_eq_false_iff.2 (h entry hentry).1, List.isEmpty_eq_false_iff.2 (h entry hentry).2]
    rfl
  have hread : Reads (parseArray parseTabAlias) (array (entries.map writeTabAlias)) entries :=
    reads_array (fun _ ↦ opens_object _) fun _ _ ↦ reads_tabAlias _
  have hfiltered := hread.into
    (List.filter fun entry ↦ !entry.aliasTab.isEmpty && !entry.target.isEmpty)
  rw [hkeep] at hfiltered
  exact hfiltered

/-- A context without empty fields that the reader fills in or drops. -/
structure ContextOK (context : ConversationContextMeta) : Prop where
  messages : ∀ message ∈ context.messages, MessageOK message
  atoms : ∀ atom ∈ context.atoms, AtomOK atom
  tabAliases : ∀ entry ∈ context.tabAliases, entry.aliasTab ≠ [] ∧ entry.target ≠ []

/-- A context is read back with its messages, atoms and aliases. -/
theorem reads_context {context : ConversationContextMeta} (h : ContextOK context) :
    Reads (parseContext context.name) (writeContext context) context := by
  have hread : Reads (parseObject? contextField { name := context.name }) (writeContext context)
      (some context) := by
    refine reads_block ?_
    dsimp only [keyed, List.map]
    exact .cons ((reads_array (fun _ ↦ opens_object _)
        fun message hmessage ↦ reads_message (h.messages message hmessage)).into _) <|
      .cons ((reads_array (fun _ ↦ opens_object _)
        fun atom hatom ↦ reads_atom (h.atoms atom hatom)).into _) <|
      .cons ((reads_tabAliases h.tabAliases).into _) <| .nil _
  exact hread.object

/-! ### Maps -/

/-- A map is rebuilt from its entries. -/
theorem insertMany_toList (map : NameMap β) : (∅ : NameMap β).insertMany map.toList = map := by
  refine Std.ExtTreeMap.ext_getElem? fun {name} ↦ ?_
  rcases hvalue : map[name]? with _ | value
  · have hnot : (map.toList.map Prod.fst).contains name = false := by
      rw [Std.ExtTreeMap.map_fst_toList_eq_keys, ← Bool.not_eq_true, List.contains_iff_mem,
        Std.ExtTreeMap.mem_keys, ← Std.ExtTreeMap.isSome_getElem?_iff_mem, hvalue]
      exact Bool.false_ne_true
    rw [Std.ExtTreeMap.getElem?_insertMany_list_of_contains_eq_false hnot, Std.ExtTreeMap.getElem?_empty]
  · exact Std.ExtTreeMap.getElem?_insertMany_list_of_mem Std.ReflCmp.compare_self
      Std.ExtTreeMap.distinct_keys_toList (Std.ExtTreeMap.mem_toList_iff_getElem?_eq_some.2 hvalue)

/-- The entries are read one after the other into the map. -/
theorem fieldsRead_entries {parse : Bytes → JsonM β} {write : β → Bytes} {items : List (Bytes × β)}
    (h : ∀ item ∈ items, Reads (parse item.1) (write item.2) item.2) (map : NameMap β) :
    FieldsRead (fun name map ↦ into (parse name) (map.insert name ·))
      (items.map fun item ↦ (item.1, write item.2)) map (map.insertMany items) := by
  induction items generalizing map with
  | nil =>
    rw [Std.ExtTreeMap.insertMany_nil]
    exact .nil map
  | cons item items ih =>
    rw [Std.ExtTreeMap.insertMany_cons]
    exact .cons ((h item List.mem_cons_self).into _)
      (ih (fun item hitem ↦ h item (List.mem_cons_of_mem _ hitem)) _)

/-- The entries of a map are read back when each value is. -/
theorem reads_entries {parse : Bytes → JsonM β} {write : β → Bytes} {map : NameMap β}
    (h : ∀ name value, map[name]? = some value → Reads (parse name) (write value) value) :
    Reads (parseEntries parse) (entries write map) map := by
  have hfields := fieldsRead_entries (fun (item : Bytes × β) (hitem : item ∈ map.toList) ↦
    h item.1 item.2 (Std.ExtTreeMap.mem_toList_iff_getElem?_eq_some.1 hitem)) ∅
  rw [insertMany_toList] at hfields
  rcases hlist : map.toList with _ | ⟨first, items⟩
  · have hempty : map = ∅ := by rw [← insertMany_toList map, hlist, Std.ExtTreeMap.insertMany_nil]
    have htext : entries write map = [123, 125] := by
      rw [entries, hlist]
      rfl
    rw [htext, hempty]
    exact (reads_object?_nil _ ∅).object
  · rw [hlist] at hfields
    have hread := reads_object? (separator_lit ",\n    " (lit "\n    ") rfl rfl)
      (allSpace_lit "\n    " rfl) (allSpace_lit "\n  " rfl) hfields
    have htext : entries write map = 123 :: (lit "\n    " ++ (fieldText (first.1, write first.2) ++
        ((items.map fun item ↦ (item.1, write item.2)).flatMap (lit ",\n    " ++ fieldText ·) ++
          (lit "\n  " ++ [125])))) := by
      rw [entries, hlist, lines, List.map_cons, List.isEmpty_cons, if_neg Bool.false_ne_true,
        joinStrings_cons, List.flatMap_map, List.flatMap_map, show lit "\x7b" = [123] from rfl,
        show lit "\x7d" = [125] from rfl]
      simp only [fieldText, List.append_assoc, List.cons_append, List.nil_append]
      rfl
    rw [htext]
    exact hread.object

end CatalogFile

/-! ### The catalog -/

open CatalogFile

/-- A catalog whose entries are filed under their names, and which has no empty field that the reader
fills in or drops. -/
structure CatalogOK (catalog : Catalog) : Prop where
  tables : ∀ name (table : TableMeta), catalog.tables[name]? = some table →
    table.name = name ∧ ∀ column ∈ table.columns, column.type ≠ []
  snapshots : ∀ name (snapshot : DatasetSnapshotMeta), catalog.snapshots[name]? = some snapshot →
    snapshot.name = name
  contexts : ∀ name (context : ConversationContextMeta), catalog.contexts[name]? = some context →
    context.name = name ∧ ContextOK context

/-- What the reader of the catalog finds. -/
def Catalog.data (catalog : Catalog) : CatalogData :=
  ⟨catalog.tables, catalog.snapshots, catalog.contexts⟩

/-- **A well-formed catalog is read back from what is saved.** -/
theorem parseCatalog_save {catalog : Catalog} (h : CatalogOK catalog) :
    parseCatalog catalog.save = .ok catalog.data [] := by
  have htables : Reads (parseEntries parseTable) (entries writeTable catalog.tables) catalog.tables := by
    refine reads_entries fun name table htable ↦ ?_
    obtain ⟨rfl, hcolumns⟩ := h.tables name table htable
    exact reads_table hcolumns
  have hsnapshots : Reads (parseEntries parseSnapshot) (entries writeSnapshot catalog.snapshots)
      catalog.snapshots := by
    refine reads_entries fun name snapshot hsnapshot ↦ ?_
    obtain rfl := h.snapshots name snapshot hsnapshot
    exact reads_snapshot snapshot
  have hcontexts : Reads (parseEntries parseContext) (entries writeContext catalog.contexts)
      catalog.contexts := by
    refine reads_entries fun name context hcontext ↦ ?_
    obtain ⟨rfl, hok⟩ := h.contexts name context hcontext
    exact reads_context hok
  -- The three tables are the fields of one object, read in the order in which they are written.
  have hfields : FieldsRead parseCatalogField (keyed [("tables", entries writeTable catalog.tables),
      ("snapshots", entries writeSnapshot catalog.snapshots),
      ("contexts", entries writeContext catalog.contexts)]) {} catalog.data := by
    dsimp only [keyed, List.map]
    exact .cons (htables.into _) <| .cons (hsnapshots.into _) <| .cons (hcontexts.into _) <| .nil _
  have hread := reads_object? (separator_lit ",\n  " (lit "\n  ") rfl rfl)
    (allSpace_lit "\n  " rfl) (allSpace_lit "\n" rfl) hfields
  have hrest : NoDigit (lit "\n") := noDigit_cons (by decide)
  have hobject := hread [] (lit "\n") allSpace_nil hrest
  have htext : catalog.save = 123 :: (lit "\n  " ++ (fieldText (lit "tables",
      entries writeTable catalog.tables) ++ ((keyed [("snapshots",
        entries writeSnapshot catalog.snapshots), ("contexts",
        entries writeContext catalog.contexts)]).flatMap (lit ",\n  " ++ fieldText ·) ++
      (lit "\n" ++ [125])))) ++ lit "\n" := by
    rw [Catalog.save, joinStrings_cons, show lit "\x7b\n  " = 123 :: lit "\n  " from rfl,
      show lit "\n\x7d\n" = lit "\n" ++ [125] ++ lit "\n" from rfl]
    simp only [keyed, field, fieldText, List.map_cons, List.map_nil, List.flatMap_cons, List.flatMap_nil,
      List.append_assoc, List.cons_append, List.nil_append]
  rw [parseCatalog, htext]
  exact EStateM.bind_of_ok hobject

/-- What `save` writes, `load` reads back into an empty catalog. -/
theorem CatalogOK.load_save {catalog : Catalog} (h : CatalogOK catalog) :
    Catalog.load {} (some catalog.save) = { catalog with revision := 1 } := by
  rw [Catalog.load, parseCatalog_save h]
  show Catalog.mk ((∅ : NameMap TableMeta).insertMany catalog.tables.toList)
    ((∅ : NameMap DatasetSnapshotMeta).insertMany catalog.snapshots.toList)
    ((∅ : NameMap ConversationContextMeta).insertMany catalog.contexts.toList) (0 + 1) = _
  rw [insertMany_toList, insertMany_toList, insertMany_toList]
  rfl

end SkibidiQL
