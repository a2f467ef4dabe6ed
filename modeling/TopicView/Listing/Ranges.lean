import TopicView.Listing.Table
import TopicView.Listing.Transcript

/-!
# Listing of retained ranges

One row for each partition: which offsets it holds and how many records.
-/

namespace TopicView

structure RangeRow where
  partition : PartitionId
  oldest : Offset
  /-- An empty partition has no newest record. -/
  newest : Option Offset
  next : Offset
  records : UInt64
  deriving DecidableEq, Repr

namespace RangeRow

def make? (partition : PartitionId) (o : Offsets) : Option RangeRow := do
  let newest ← if o.isEmpty then pure none else o.newest?.map some
  return ⟨partition, o.oldest, newest, o.firstAvailable, ← o.recordCount?⟩

def titles : List String := ["PARTITION", "OLDEST", "NEWEST", "NEXT", "RECORDS"]

def cells (r : RangeRow) : List String :=
  [Numeral.text r.partition.toInt, Numeral.text r.oldest.toInt,
   match r.newest with | some n => Numeral.text n.toInt | none => "-",
   Numeral.text r.next.toInt, Numeral.text r.records.toNat]

/-- A missing newest offset has no member. -/
def toJson (r : RangeRow) : Json :=
  .obj ([("partition", .int r.partition.toInt), ("oldest", .int r.oldest.toInt)] ++
    (match r.newest with | some n => [("newest", .int n.toInt)] | none => []) ++
    [("first_available", .int r.next.toInt), ("records", .int r.records.toNat)])

end RangeRow

structure RangeQuery where
  topic : String
  partitions : List PartitionId := []
  deriving DecidableEq, Repr

namespace RangeQuery

/-- The rows by partition. -/
def rows (log : Log) (q : RangeQuery) : Result ListingError (List RangeRow) := do
  let partitions ← partitionsToRead log q.topic q.partitions
  let offsets ← (resolve q.topic (log.lookup q.topic) (PartitionSet.ofList partitions).toList
    ).mapError ListingError.read
  offsets.mapM fun (partition, o) ↦ RangeRow.make? partition o

/-- The number of all records, if a word holds it. -/
def total? (rows : List RangeRow) : Option Nat :=
  let n := rows.foldl (fun n row ↦ n + row.records.toNat) 0
  if n < UInt64.size then some n else none

def print? (format : OutputFormat) (q : RangeQuery) (rows : List RangeRow) : Option Transcript :=
  match format with
  | .json => some (.print [(Json.arr (rows.map RangeRow.toJson)).compact])
  | .table => (total? rows).map fun total ↦
    .print (Table.render RangeRow.titles (rows.map RangeRow.cells)) ++
      .notify .info s!"Topic '{q.topic}' retains {Numeral.text total} records"

def list (log : Log) (format : OutputFormat) (q : RangeQuery) : Result ListingError Listing := do
  return ⟨← q.print? format (← q.rows log), .done⟩

end RangeQuery
end TopicView
