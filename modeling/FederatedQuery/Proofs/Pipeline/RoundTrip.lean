import FederatedQuery.Pipeline.Write
import FederatedQuery.Plan.Build
import FederatedQuery.Proofs.Document.Codec
import FederatedQuery.Proofs.Document.Entries

/-!
Rows that are written to a collection and read again. The write names the fields of a document after the columns in the
store, and the scan of the table gives them their names in the row type. What comes out is what went in, for every
table whose names tell its columns apart and are no paths.
-/
namespace FederatedQuery

namespace Pipeline

open Document

/-- A name that is no path into a document and no variable. -/
def isPlain (name : String) : Bool := !name.toList.contains '.' && decide (name.toList.head? ≠ some '$')

/-- The field that a path of one step names. -/
def pathField? (text : String) : Option String :=
  match text.toList with
  | '$' :: name => if isPlain (String.ofList name) then some (String.ofList name) else none
  | _ => none

/-- What an entry of a projection makes of a document, if it copies a field or leaves the store's key out. A field that
is not there is not copied. -/
def copied? (source : Entries) : String × Document → Option Entries
  | (key, .string text) =>
    if isPlain key then (pathField? text).map fun name => ((source.get? name).map fun v => (key, v)).toList else none
  | (key, .int i) => if key = "_id" ∧ i = 0 then some [] else none
  | _ => none

/-- A document after a stage, if the stage only copies fields and says what becomes of the store's key. -/
def Stage.copy? : Stage → Document → Option Document
  | .project fields, .object source =>
    if (fields.get? "_id").isSome then (fields.mapM (copied? source)).map fun parts => .object parts.flatten else none
  | _, _ => none

/-- Documents after stages, if these only copy fields. -/
def copyThrough? : List Stage → List Document → Option (List Document)
  | [], documents => some documents
  | stage :: rest, documents => (documents.mapM stage.copy?).bind (copyThrough? rest)

/-- A table whose columns are told apart by their names, in the row type and in the store. -/
structure Addressable (table : Table) : Prop where
  logical : table.rowType.names.Nodup
  physical : ∀ names, table.physicalNames = some names → names.Nodup ∧ names.length = table.rowType.names.length
  plain : ∀ name ∈ table.rowType.names ++ table.physicalNames.getD [], isPlain name = true

namespace Addressable

variable {table : Table}

theorem storedNames_eq (addressable : Addressable table) :
    storedNames table = table.physicalNames.getD table.rowType.names := by
  refine List.ext_getElem? fun i => ?_
  rw [storedNames, List.getElem?_mapIdx]
  cases given : table.physicalNames with
  | none =>
    have named : table.rowType.names[i]? = table.physicalName? i := by
      rw [Table.physicalName?, given, RowType.names, List.getElem?_map]
    rw [Option.getD_none, named]
    cases found : table.physicalName? i with
    | none => rfl
    | some => rw [Option.map_some, storedName, found, Option.getD_some]
  | some names =>
    have named : table.physicalName? i = names[i]? := by rw [Table.physicalName?, given]
    have lengths := (addressable.physical names given).2
    rw [Option.getD_some]
    by_cases within : i < names.length
    · rw [List.getElem?_eq_getElem (lengths ▸ within), Option.map_some, storedName, named,
        List.getElem?_eq_getElem within, Option.getD_some]
    · rw [List.getElem?_eq_none (Nat.le_of_not_lt within), List.getElem?_eq_none (lengths ▸ Nat.le_of_not_lt within)]
      rfl

theorem storedNames_nodup (addressable : Addressable table) : (storedNames table).Nodup := by
  rw [addressable.storedNames_eq]
  cases given : table.physicalNames with
  | none => exact addressable.logical
  | some names => exact (addressable.physical names given).1

theorem storedNames_length (table : Table) : (storedNames table).length = table.rowType.names.length := by
  rw [storedNames, List.length_mapIdx]

theorem storedNames_plain (addressable : Addressable table) : ∀ name ∈ storedNames table, isPlain name = true := by
  rw [addressable.storedNames_eq]
  intro name mem
  cases given : table.physicalNames with
  | none =>
    rw [given] at mem
    exact addressable.plain name (List.mem_append_left _ mem)
  | some =>
    rw [given] at mem
    refine addressable.plain name (List.mem_append_right _ ?_)
    rwa [given]

theorem storedNames_of_not_mapped (addressable : Addressable table) (same : table.hasMapping = false) :
    storedNames table = table.rowType.names := by
  rw [addressable.storedNames_eq]
  cases given : table.physicalNames with
  | none => rfl
  | some names =>
    rw [Table.hasMapping, given, List.any_eq_false] at same
    rw [← List.forall₂_eq_eq_eq, List.forall₂_iff_zip]
    refine ⟨(addressable.physical names given).2, fun {physical logical} mem => ?_⟩
    by_contra differ
    exact same (physical, logical) mem (decide_eq_true differ)

end Addressable

/-- The values of a row with their documents, which are read as values of the columns again. -/
abbrev RowEncodes (fields : List Field) (cells : List (Value × Document)) : Prop :=
  List.Forall₂ (fun f cell => Encodes f.type cell.1 cell.2) fields cells

theorem exists_rowEncodes {fields : List Field} {row : Row}
    (typed : List.Forall₂ (fun f v => WellTyped f.type v) fields row) :
    ∃ cells, RowEncodes fields cells ∧ cells.map Prod.fst = row := by
  induction typed with
  | nil => exact ⟨[], .nil, rfl⟩
  | cons first _ ih =>
    obtain ⟨d, encodes⟩ := exists_encodes first
    obtain ⟨cells, rest, rfl⟩ := ih
    exact ⟨(_, d) :: cells, .cons encodes rest, rfl⟩

variable {fields : List Field} {cells : List (Value × Document)} {names stored : List String} {source : Entries}
  {parts : List Entries}

theorem forall₂_named (encodes : RowEncodes fields cells) (names : List String) :
    List.Forall₂ (fun pair named => named.1 = pair.1 ∧ ofValue pair.2 = .ok named.2)
      (names.zip (cells.map Prod.fst)) (names.zip (cells.map Prod.snd)) := by
  induction encodes generalizing names with
  | nil =>
    rw [List.map_nil, List.map_nil, List.zip_nil_right, List.zip_nil_right]
    exact .nil
  | cons first _ ih =>
    cases names with
    | nil => exact .nil
    | cons name names => exact .cons ⟨rfl, first.written⟩ (ih names)

theorem rowDocument_eq_ok (encodes : RowEncodes fields cells) (distinct : names.Nodup)
    (lengths : names.length = fields.length) :
    rowDocument names (cells.map Prod.fst) = .ok (.object (names.zip (cells.map Prod.snd))) := by
  have apart : (Entries.keys (names.zip (cells.map Prod.snd))).Nodup := by
    rwa [Entries.keys_zip]
    rw [lengths, List.length_map, encodes.length_eq]
  refine bind_eq_ok.2 ⟨_, mapM_eq_ok.2 ((forall₂_named encodes names).imp ?_), ?_⟩
  · rintro ⟨name, v⟩ ⟨_, d⟩ ⟨rfl, written⟩
    exact bind_eq_ok.2 ⟨d, written, rfl⟩
  · rw [Entries.ofPairs_of_nodup apart]
    rfl

theorem toRow_eq_ok {rowType : RowType} (encodes : RowEncodes rowType.fields cells) {entries : Entries}
    (found : ∀ pair ∈ rowType.names.zip (cells.map Prod.snd), entries.get? pair.1 = some pair.2) :
    toRow rowType (.object entries) = .ok (cells.map Prod.fst) := by
  rw [toRow, mapM_eq_ok]
  rw [RowType.names] at found
  generalize rowType.fields = fields at encodes found
  induction encodes with
  | nil => exact .nil
  | cons first _ ih =>
    rw [List.map_cons, List.map_cons, List.zip_cons_cons, List.forall_mem_cons] at found
    refine .cons ?_ (ih found.2)
    rw [found.1]
    exact first.read

theorem pathField?_path {name : String} (plain : isPlain name = true) : pathField? ("$" ++ name) = some name := by
  have text : ("$" ++ name).toList = '$' :: name.toList := String.toList_append
  rw [pathField?, text]
  change (if isPlain (String.ofList name.toList) = true then some (String.ofList name.toList) else none) = _
  rw [String.ofList_toList, if_pos plain]

theorem copied?_paths {documents : List Document} (lengths : names.length = stored.length)
    (sizes : stored.length = documents.length) (keys : ∀ name ∈ names, isPlain name = true)
    (paths : ∀ name ∈ stored, isPlain name = true)
    (found : ∀ pair ∈ stored.zip documents, source.get? pair.1 = some pair.2) :
    ∃ parts, (names.zip (stored.map path)).mapM (copied? source) = some parts ∧
      parts.flatten = names.zip documents := by
  induction names generalizing stored documents with
  | nil => exact ⟨[], rfl, rfl⟩
  | cons name names ih =>
    cases stored with
    | nil => cases lengths
    | cons physical stored =>
      cases documents with
      | nil => cases sizes
      | cons d documents =>
        rw [List.forall_mem_cons] at keys paths
        rw [List.zip_cons_cons, List.forall_mem_cons] at found
        obtain ⟨parts, made, joined⟩ := ih (Nat.succ.inj lengths) (Nat.succ.inj sizes) keys.2 paths.2 found.2
        refine ⟨[(name, d)] :: parts, ?_, ?_⟩
        · have here : copied? source (name, path physical) = some [(name, d)] := by
            rw [path, copied?, if_pos keys.1, pathField?_path paths.1, Option.map_some, found.1]
            rfl
          rw [List.map_cons, List.zip_cons_cons, List.mapM_cons, here, made]
          rfl
        · rw [List.flatten_cons, joined]
          rfl

theorem copy?_project {fields : Entries} {v : Document} (told : fields.get? "_id" = some v)
    (copies : fields.mapM (copied? source) = some parts) :
    (Stage.project fields).copy? (.object source) = some (.object parts.flatten) := by
  have isSome : (fields.get? "_id").isSome = true := told ▸ rfl
  rw [Stage.copy?, if_pos isSome, copies, Option.map_some]

theorem copy?_hideId {pairs : Entries} (copies : pairs.mapM (copied? source) = some parts) :
    (Stage.project (hideId pairs)).copy? (.object source) = some (.object parts.flatten) := by
  cases told : pairs.get? "_id" with
  | some =>
    have shown : hideId pairs = pairs := if_pos (told ▸ rfl)
    rw [shown, copy?_project told copies]
  | none =>
    have absent : "_id" ∉ pairs.keys := by
      intro mem
      obtain ⟨entry, inside, same⟩ := List.mem_map.1 mem
      have apart := List.lookup_eq_none_iff.1 told entry inside
      rw [same] at apart
      exact absurd apart (by decide)
    have hidden : hideId pairs = pairs ++ [("_id", .int 0)] := by
      rw [← Entries.put_of_not_mem absent]
      exact if_neg (told ▸ Bool.false_ne_true)
    have present : Entries.get? (pairs ++ [("_id", .int 0)]) "_id" = some (.int 0) := by
      rw [Entries.get?, List.lookup_append, show List.lookup "_id" pairs = none from told]
      rfl
    have more : (pairs ++ [("_id", Document.int 0)]).mapM (copied? source) = some (parts ++ [[]]) := by
      rw [List.mapM_append, copies]
      rfl
    rw [hidden, copy?_project present more, List.flatten_append, List.flatten_singleton, List.append_nil]

/-- The documents of rows in the store become documents with the names of the row type. -/
theorem copyThrough?_scanStages {table : Table} (addressable : Addressable table) {stored : List (List Document)}
    (sizes : ∀ documents ∈ stored, documents.length = table.rowType.names.length) :
    copyThrough? (scanStages table) (stored.map fun documents => .object ((storedNames table).zip documents)) =
      some (stored.map fun documents => .object (table.rowType.names.zip documents)) := by
  have lengths := Addressable.storedNames_length table
  cases mapped : table.hasMapping with
  | false =>
    rw [scanStages, mapped, if_neg Bool.false_ne_true, copyThrough?, addressable.storedNames_of_not_mapped mapped]
  | true =>
    have distinct : (Entries.keys (table.rowType.names.zip ((storedNames table).map path))).Nodup := by
      rw [Entries.keys_zip]
      · exact addressable.logical
      · rw [List.length_map, lengths]
    have each : ∀ documents ∈ stored,
        (Stage.project (hideId (table.rowType.names.zip ((storedNames table).map path)))).copy?
          (.object ((storedNames table).zip documents)) = some (.object (table.rowType.names.zip documents)) := by
      intro documents mem
      have size : (storedNames table).length = documents.length := lengths.trans (sizes documents mem).symm
      have found : ∀ pair ∈ (storedNames table).zip documents,
          Entries.get? ((storedNames table).zip documents) pair.1 = some pair.2 := fun pair inside =>
        Entries.get?_of_mem ((Entries.keys_zip size).symm ▸ addressable.storedNames_nodup) inside
      obtain ⟨parts, copies, joined⟩ := copied?_paths lengths.symm size
        (fun name inside => addressable.plain name (List.mem_append_left _ inside)) addressable.storedNames_plain found
      rw [copy?_hideId copies, joined]
    rw [scanStages, mapped, if_pos rfl, Entries.ofPairs_of_nodup distinct, copyThrough?, List.mapM_map]
    exact congrArg (Option.bind · (copyThrough? [])) (mapM_eq_some_map each)

theorem entriesMarkers_eq_any (entries : List (String × Document)) :
    entriesMarkers entries = entries.any fun entry => entry.2.hasMarkers := by
  induction entries with
  | nil => rfl
  | cons _ _ ih => rw [entriesMarkers, ih, List.any_cons]

theorem hasMarkers_object {entries : List (String × Document)} (plain : ∀ entry ∈ entries, isPlain entry.1 = true)
    (closed : ∀ entry ∈ entries, entry.2.hasMarkers = false) : (Document.object entries).hasMarkers = false := by
  have unmarked : markerIndex? (.object entries) = none := by
    rcases entries with _ | ⟨⟨key, v⟩, _ | ⟨_, _⟩⟩
    · rfl
    · refine if_neg fun reserved => ?_
      have name : isPlain key = true := plain (key, v) (.head _)
      rw [reserved] at name
      exact absurd name (by decide)
    · rfl
  rw [hasMarkers, unmarked, entriesMarkers_eq_any, Option.isSome_none, Bool.false_or, List.any_eq_false]
  exact fun entry mem => Bool.eq_false_iff.1 (closed entry mem)

/-- Rows of the types of a table are inserted as documents without places for parameters, and the scan of the table
reads the same rows from them. -/
theorem read_inserted_rows {table : Table} (addressable : Addressable table) {rows : List Row}
    (typed : ∀ row ∈ rows, List.Forall₂ (fun f v => WellTyped f.type v) table.rowType.fields row) (h h' : Head) :
    ∃ documents stages read,
      writeOf table .insert (.values h rows) = .ok (.insert table.physicalTable documents) ∧
      (Write.insert table.physicalTable documents).hasMarkers = false ∧
      chain (.scan h' table) = .ok ⟨table.physicalTable, stages⟩ ∧
      copyThrough? stages documents = some read ∧ read.mapM (toRow table.rowType) = .ok rows := by
  obtain ⟨cells, related⟩ := exists_forall₂ fun row mem => exists_rowEncodes (typed row mem)
  have sizes : ∀ documents ∈ cells.map (List.map Prod.snd), documents.length = table.rowType.names.length := by
    intro documents mem
    obtain ⟨row, inside, rfl⟩ := List.mem_map.1 mem
    obtain ⟨_, -, encodes, -⟩ := exists_of_forall₂_right related inside
    rw [List.length_map, RowType.names, List.length_map, encodes.length_eq]
  have lengths : (storedNames table).length = table.rowType.fields.length := by
    rw [Addressable.storedNames_length, RowType.names, List.length_map]
  refine ⟨_, _, _, ?_, ?_, rfl, copyThrough?_scanStages addressable sizes, ?_⟩
  · refine bind_eq_ok.2 ⟨_, mapM_eq_ok.2 ?_, rfl⟩
    rw [List.map_map, List.forall₂_map_right_iff]
    refine related.imp ?_
    rintro _ row ⟨encodes, rfl⟩
    exact rowDocument_eq_ok encodes addressable.storedNames_nodup lengths
  · rw [Write.hasMarkers, List.any_eq_false]
    intro d mem
    rw [List.map_map] at mem
    obtain ⟨row, inside, rfl⟩ := List.mem_map.1 mem
    obtain ⟨_, -, encodes, -⟩ := exists_of_forall₂_right related inside
    refine Bool.eq_false_iff.1 (hasMarkers_object ?_ ?_)
    · exact fun entry mem => addressable.storedNames_plain entry.1 (List.of_mem_zip mem).1
    · intro entry mem
      obtain ⟨cell, present, same⟩ := List.mem_map.1 (List.of_mem_zip mem).2
      obtain ⟨_, -, encodes⟩ := exists_of_forall₂_right encodes present
      rw [← same, encodes.closed]
  · rw [mapM_eq_ok, List.map_map, List.forall₂_map_left_iff]
    refine related.flip.imp ?_
    rintro row _ ⟨encodes, rfl⟩
    refine toRow_eq_ok encodes fun pair mem => Entries.get?_of_mem ?_ mem
    rw [Entries.keys_zip]
    · exact addressable.logical
    · rw [RowType.names, List.length_map, List.length_map, encodes.length_eq]

/-- A collection whose columns have other names in the store, one of them the name of another column. -/
def journal : Table :=
  { Table.named "journal" ⟨[⟨"id", .integer, false⟩, ⟨"day", .date, true⟩,
      ⟨"tags", .array (.array (.varchar (some 3))), true⟩, ⟨"raw", .binary, true⟩]⟩ with
    convention := .document, physicalNames := some ["_id", "d", "tags", "id"] }

theorem read_inserted_rows_journal : let rows : List Row :=
      [[.int 7, .date (-1), .array [.array [.string "abc", .null], .null], .bytes [222, 173]],
        [.int (-3), .null, .null, .null]]
    journal.hasMapping = true ∧ Addressable journal ∧ ∃ documents stages read,
      writeOf journal .insert (.values (Plan.logicalHead journal.rowType) rows) = .ok (.insert "journal" documents) ∧
      (Write.insert "journal" documents).hasMarkers = false ∧
      chain (Plan.ofTable journal) = .ok ⟨"journal", stages⟩ ∧
      copyThrough? stages documents = some read ∧ read.mapM (toRow journal.rowType) = .ok rows := by
  have addressable : Addressable journal := by
    refine ⟨by decide, ?_, by decide⟩
    rintro _ ⟨⟩
    decide
  refine ⟨by decide, addressable, read_inserted_rows addressable ?_ _ _⟩
  rw [List.forall_mem_cons, List.forall_mem_singleton]
  refine ⟨.cons (.integer rfl) (.cons (.date _) (.cons (.array ?_) (.cons (.binary _) .nil))),
    .cons (.integer rfl) (.cons (.null _) (.cons (.null _) (.cons (.null _) .nil)))⟩
  rw [List.forall_mem_cons, List.forall_mem_singleton]
  refine ⟨.array ?_, .null _⟩
  rw [List.forall_mem_cons, List.forall_mem_singleton]
  exact ⟨.bounded (by decide), .null _⟩

end Pipeline

end FederatedQuery
