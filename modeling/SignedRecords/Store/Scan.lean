import SignedRecords.Store.Basic

/-!
# Writes and scans beside each other

A store that several callers use. A write either succeeds or changes nothing, so what callers write
at once comes in some order. A scan follows the tokens from page to page, and between two of its
pages others may write.
-/

namespace SignedRecords.Store

/-- The store after somebody has tried to write a record. -/
def attempt (s : Store) (r : Record) : Store := (s.write r).toOption.getD s

/-- The store after somebody has tried to write some records, the first one first. -/
def writeAll (s : Store) (rs : List Record) : Store := rs.foldl attempt s

/-- The pages of a scan from a token on, each with the store it was read from. The records of one
    list are written after each page; when no list is left, the scan is broken off. -/
def scan (pageSize : Nat) (s : Store) (token : Option String) :
    List (List Record) → List (Store × Page)
  | [] => [(s, s.list token pageSize)]
  | rs :: later =>
    (s, s.list token pageSize) ::
      match (s.list token pageSize).next with
      | none => []
      | some next => scan pageSize (s.writeAll rs) (some next) later

end SignedRecords.Store
