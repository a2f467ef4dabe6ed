import TopicView.Decoder
import TopicView.Header
import TopicView.Instant
import TopicView.Topic

/-!
# Records

A raw record is what a log holds; a record is what a read delivers, its key and value decoded.
-/

namespace TopicView

/-- Without a key, value or timestamp the field is `none`; a record without value is a
tombstone. -/
structure RawRecord where
  key : Option Bytes
  value : Option Bytes
  partition : PartitionId
  offset : Offset
  timestamp : Option Timestamp
  headers : List (String × Bytes)
  deriving DecidableEq, Repr

structure Record where
  key : String
  value : String
  partition : PartitionId
  offset : Offset
  time : Option Instant
  headers : List (String × Bytes)
  deriving DecidableEq, Repr

/-- Keys are decoded lossily, values by `decoder`. -/
def RawRecord.decode (decoder : Decoder) (raw : RawRecord) : Record where
  key := (raw.key.map Utf8.lossy).getD ""
  value := decoder.display raw.value
  partition := raw.partition
  offset := raw.offset
  time := raw.timestamp.bind Instant.ofTimestamp?
  headers := raw.headers

namespace Record

def headerTexts (r : Record) : List (String × String) :=
  r.headers.map fun (name, value) ↦ (name, Header.render value)

/-- The fields in their written order. -/
def toJson (r : Record) : Json :=
  .obj [("key", .str r.key), ("value", .str r.value), ("partition", .int r.partition.toInt),
    ("offset", .int r.offset.toInt),
    ("timestamp", match r.time with | some i => .str i.exchangeText | none => .null),
    ("headers", .arr (r.headerTexts.map fun (name, text) ↦ .arr [.str name, .str text]))]

end Record
end TopicView
