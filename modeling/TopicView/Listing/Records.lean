import TopicView.Log.Cursor
import TopicView.Read.Handle
import TopicView.Listing.Table
import TopicView.Listing.Transcript
import TopicView.Text.Excerpt

/-!
# Listing of records

A read of a topic, drained to its end: each record as a line of JSON when it comes, or all of them
in a table once the read is over.
-/

namespace TopicView

structure RecordQuery where
  topic : String
  partitions : List PartitionId := []
  mode : Mode := .beginning
  limit : UInt64 := 50
  filter : Option Filter := none
  decoder : DecoderKind := .utf8
  capacity : Option UInt64 := none
  /-- Whether tables show headers. -/
  headers : Bool := false
  deriving DecidableEq, Repr

namespace RecordQuery

def valueWidth : Nat := 80

def headersText (r : Record) : String :=
  ", ".intercalate (r.headerTexts.map fun (name, text) ↦ s!"{name}={text}")

def titles (q : RecordQuery) : List String :=
  ["PARTITION", "OFFSET", "TIMESTAMP", "KEY", "VALUE"] ++ if q.headers then ["HEADERS"] else []

/-- Keys are cut to half the width of values. -/
def cells (q : RecordQuery) (r : Record) : List String :=
  [Numeral.text r.partition.toInt, Numeral.text r.offset.toInt,
   match r.time with | some i => i.tableText | none => "-",
   Text.shorten (valueWidth / 2) r.key, Text.shorten valueWidth r.value] ++
    if q.headers then [headersText r] else []

/-! ## Printing -/

def recordsOf (events : List Event) : List Record :=
  events.filterMap fun
    | .record r => some r
    | .failure _ => none

def printEvent (format : OutputFormat) : Event → Transcript
  | .record r =>
    match format with
    | .json => .print [r.toJson.compact]
    | .table => {}
  | .failure f => .notify .warning f.message

def printEvents (format : OutputFormat) (events : List Event) : Transcript :=
  events.foldr (fun event rest ↦ printEvent format event ++ rest) {}

def printTable (q : RecordQuery) (records : List Record) : Transcript :=
  if records.isEmpty then .notify .info "No records found"
  else .print (Table.render q.titles (records.map q.cells))

def printSummary (s : Summary) : Transcript :=
  let read := Numeral.text s.emitted.toNat
  let partitions := Numeral.text s.reports.length
  let message := s!"Read {read} records from {partitions} partitions"
  match s.failedPartitions with
  | [] => .notify .success message
  | failed =>
    let names := ", ".intercalate (failed.map fun p ↦ Numeral.text p.toInt)
    .notify .warning s!"{message} ({Numeral.text failed.length} failed: {names})"

/-! ## Running -/

def request (q : RecordQuery) (partitions : List PartitionId) : Request :=
  ⟨q.topic, .ofList partitions, q.mode, q.limit, q.filter⟩

/-- What a listing reads with: its option comes before the settings. -/
def readerSettings (q : RecordQuery) (settings : ReaderSettings) : ReaderSettings :=
  match q.capacity with
  | some channelCapacity => { settings with channelCapacity }
  | none => settings

/-- Drains a read and prints what comes, then its summary. -/
def printRead (log : Log) (format : OutputFormat) (q : RecordQuery) (r : Read LogCursor) :
    Listing :=
  let (events, drained, log, r) :=
    r.drain Log.client Read.nextEvent (r.itemBound Log.client log) log
  let printed := printEvents format events
  match drained with
  | .ended =>
    let (summary, _) := r.finish Log.client log
    let table := match format with
      | .table => q.printTable (recordsOf events)
      | .json => {}
    ⟨printed ++ table ++ printSummary summary, .done⟩
  | _ => ⟨printed, .waiting⟩

def start (log : Log) (settings : ReaderSettings) (q : RecordQuery) :
    Result ListingError (Started LogCursor) := do
  let request := q.request (← partitionsToRead log q.topic q.partitions)
  let started :=
    startRead Log.client log (q.readerSettings settings) q.decoder.decoder request false
  started.mapError ListingError.read

def list (log : Log) (settings : ReaderSettings) (format : OutputFormat) (q : RecordQuery) :
    Result ListingError Listing := do
  match ← q.start log settings with
  | .emptyTopic =>
    let message := s!"Topic '{q.topic}' has no records to read in {q.mode.name} mode"
    return ⟨.notify .info message, .done⟩
  | .running r => return q.printRead log format r

end RecordQuery
end TopicView
