import Ripple.Store

/-!
# Fingerprints

A fingerprint is the digest of one byte string that spells out a store: the tables by
ascending identifier and in each table the identifier, the name, the row count and, column by
column, identifier, kind and cells. Numbers of any sort take eight bytes, least significant
first.
-/

namespace Ripple

/-- The eight bytes of a 64-bit word, least significant first. -/
def word64Bytes (word : UInt64) : List UInt8 :=
  (List.range 8).map fun i => (word >>> (8 * i).toUInt64).toUInt8

/-- A count as eight bytes. -/
def countBytes (n : Nat) : List UInt8 := word64Bytes n.toUInt64

/-- The UTF-8 form of a text. -/
def textBytes (text : String) : List UInt8 := text.toUTF8.toList

/-- The bytes of a cell. A text is preceded by the number of its bytes. -/
def Value.bytes : Value → List UInt8
  | .number n => word64Bytes n.bits
  | .bool b => [if b then 1 else 0]
  | .text s => countBytes (textBytes s).length ++ textBytes s
  | .ref r => word64Bytes r.table.raw ++ countBytes r.row

/-- The bytes of a column: identifier, kind and `ColumnData::hash_into`. -/
def Column.bytes (c : Column) : List UInt8 :=
  word64Bytes c.spec.id.raw ++ textBytes c.spec.kind.name ++ c.cells.flatMap Value.bytes

/-- `Table::hash_into`: the bytes of a table. -/
def Table.bytes (t : Table) : List UInt8 :=
  word64Bytes t.id.raw ++ textBytes t.name ++ countBytes t.rowCount ++ t.columns.flatMap Column.bytes

/-- The bytes a store is recognised by. -/
def Store.bytes (s : Store) : List UInt8 := s.tables.flatMap Table.bytes

/-- `TableStore::fingerprint`, with the name of the digest. -/
def Store.fingerprint (s : Store) : String :=
  "blake3:" ++ Text.Hex.ofBytes (Digest.hash s.bytes)

end Ripple
