import SignedRecords.Bytes.Hex
import SignedRecords.Store.Rows

/-!
# Stores as texts

A store of rows as a text with one row a line: the name of the table, the key and the value, the
last two in hexadecimal digits. Lines of another form are passed over when a text is read.
-/

namespace SignedRecords.RowStore

/-- The line of a row. -/
def dumpRow (table : String) (row : Bytes × Bytes) : String :=
  s!"{table} {Hex.encode row.1} {Hex.encode row.2}\n"

/-- The text of a store. -/
def dump (s : RowStore) : String :=
  String.join (s.records.rows.map (dumpRow "record") ++ s.failed.rows.map (dumpRow "failed"))

/-- Enters the row of a line. -/
def restoreLine (s : RowStore) (line : String) : RowStore :=
  match line.splitOn " " with
  | [table, key, value] =>
    match Hex.decode key, Hex.decode value with
    | .ok key, .ok value =>
      if table = "record" then { s with records := s.records.insert key value }
      else if table = "failed" then { s with failed := s.failed.insert key value }
      else s
    | _, _ => s
  | _ => s

/-- The store of a text. -/
def restore (text : String) : RowStore := (text.splitOn "\n").foldl restoreLine .empty

end SignedRecords.RowStore
