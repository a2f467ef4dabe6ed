import TopicView.Listing.Records
import TopicView.Proofs.Json.RoundTrip
import TopicView.Proofs.Read.Drain

/-!
# Lines of JSON

A read listed in JSON prints every record on a line of its own.  What the writer puts down has no
byte below the space, so the line ends between the records are the only ones, and each line is read
back as a document that says what the record says.
-/

namespace TopicView

namespace Utf8

theorem le_of_mem_encodeChar {c : Char} (hc : ' ' ≤ c) {b : UInt8}
    (hb : b ∈ String.utf8EncodeChar c) : 0x20 ≤ b := by
  obtain ⟨v, hv⟩ : ∃ v, c.val.toNat = v := ⟨_, rfl⟩
  have hlow : 32 ≤ v := hv ▸ UInt32.le_iff_toNat_le.mp hc
  have hbyte {n : Nat} (hn : 32 ≤ n) (hn' : n < 256) : 0x20 ≤ UInt8.ofNat n := by
    rw [UInt8.le_iff_toNat_le, UInt8.toNat_ofNat_of_lt' hn']
    exact hn
  simp only [String.utf8EncodeChar, hv] at hb
  split_ifs at hb with hone htwo hthree
  all_goals
    simp only [List.mem_cons, List.not_mem_nil, or_false] at hb
    rcases hb with rfl | rfl | rfl | rfl <;> exact hbyte (by omega) (by omega)

theorem le_of_mem_encode {s : String} (h : ∀ c ∈ s.toList, ' ' ≤ c) : ∀ b ∈ encode s, 0x20 ≤ b := by
  intro b hb
  obtain ⟨c, hc, hb⟩ := List.mem_flatMap.mp hb
  exact le_of_mem_encodeChar (h c hc) hb

end Utf8

namespace Json

theorem space_le_of_mem_escapeChar {c d : Char} (h : d ∈ escapeChar c) : ' ' ≤ d := by
  have hhex : ∀ n < 16, ' ' ≤ Numeral.hexDigit n := by decide
  have hpair {x : Char} (hx : ' ' ≤ x) (h : d ∈ ['\\', x]) : ' ' ≤ d := by
    rw [List.mem_cons, List.mem_singleton] at h
    obtain rfl | rfl := h
    · decide
    · exact hx
  unfold escapeChar at h
  split_ifs at h with hquote hslash hb hf hn hr ht hlow
  iterate 7 exact hpair (by decide) h
  · have hlt : c.toNat < 32 := hlow
    simp only [List.mem_cons, List.not_mem_nil, or_false] at h
    obtain rfl | rfl | rfl | rfl | rfl | rfl := h
    · decide
    · decide
    · decide
    · decide
    · exact hhex _ (by omega)
    · exact hhex _ (Nat.mod_lt _ (by decide))
  · exact List.mem_singleton.mp h ▸ Char.not_lt.mp hlow

theorem space_le_of_mem_writeString {s : String} {c : Char} (h : c ∈ writeString s) : ' ' ≤ c := by
  have hquote : ' ' ≤ '"' := by decide
  obtain rfl | h := List.mem_cons.mp h
  · exact hquote
  · obtain h | h := List.mem_append.mp h
    · obtain ⟨d, -, hd⟩ := List.mem_flatMap.mp h
      exact space_le_of_mem_escapeChar hd
    · exact List.mem_singleton.mp h ▸ hquote

theorem space_le_of_mem_ofInt {n : Int} {c : Char} (h : c ∈ Numeral.ofInt n) : ' ' ≤ c := by
  have hdigits {n : Nat} (h : c ∈ Numeral.ofNat n) : ' ' ≤ c := by
    have hdigit := Numeral.isDigit_of_mem_ofNat h
    simp only [Numeral.isDigit, Bool.and_eq_true, decide_eq_true_eq] at hdigit
    exact Char.le_trans (show ' ' ≤ '0' by decide) hdigit.1
  cases n with
  | ofNat n => exact hdigits h
  | negSucc n =>
      obtain rfl | h := List.mem_cons.mp h
      · decide
      · exact hdigits h

theorem space_le_of_mem_enclose {left right : Char} (hleft : ' ' ≤ left) (hright : ' ' ≤ right)
    {depth : Nat} {parts : List (List Char)} (hparts : ∀ part ∈ parts, ∀ c ∈ part, ' ' ≤ c) :
    ∀ c ∈ Spacing.tight.enclose left right depth parts, ' ' ≤ c := by
  have hcomma : ' ' ≤ ',' := by decide
  cases parts with
  | nil => simp [Spacing.enclose, hleft, hright]
  | cons part parts =>
      obtain ⟨hpart, hparts⟩ := List.forall_mem_cons.mp hparts
      have hmore : ∀ c ∈ Spacing.tight.more (depth + 1) parts, ' ' ≤ c := by
        intro c hc
        obtain ⟨p, hp, hc⟩ := List.mem_flatMap.mp hc
        obtain rfl | hc := List.mem_cons.mp hc
        · exact hcomma
        · exact hparts p hp c hc
      intro c hc
      simp only [Spacing.enclose, Spacing.tight, List.nil_append, List.mem_cons, List.mem_append,
        List.append_nil, List.not_mem_nil, or_false] at hc
      obtain rfl | (hc | hc) | rfl := hc
      · exact hleft
      · exact hpart c hc
      · exact hmore c hc
      · exact hright

/-- The compact form of a document without doubles has no control characters. -/
theorem Integral.space_le {v : Json} (h : v.Integral) : ∀ c ∈ v.writeCompact, ' ' ≤ c := by
  have hcolon : ' ' ≤ ':' := by decide
  have hall {chars : List Char} (h : chars.all (' ' ≤ ·) = true) : ∀ c ∈ chars, ' ' ≤ c :=
    fun c hc ↦ of_decide_eq_true (List.all_eq_true.mp h c hc)
  induction h with
  | null => exact hall rfl
  | bool b => exact hall (by cases b <;> rfl)
  | int _ => exact fun c ↦ space_le_of_mem_ofInt
  | str s => exact fun c ↦ space_le_of_mem_writeString
  | arr _ ih =>
      rw [rules_compact.arr 0]
      exact space_le_of_mem_enclose (by decide) (by decide) (List.forall_mem_map.mpr ih)
  | obj _ ih =>
      rw [rules_compact.obj 0]
      refine space_le_of_mem_enclose (by decide) (by decide) (List.forall_mem_map.mpr fun p hp ↦ ?_)
      intro c hc
      obtain hc | hc := List.mem_append.mp hc
      · exact space_le_of_mem_writeString hc
      · obtain rfl | hc := List.mem_cons.mp hc
        · exact hcolon
        · exact ih p hp c hc

theorem Integral.byte_le {v : Json} (h : v.Integral) : ∀ b ∈ Utf8.encode v.compact, 0x20 ≤ b := by
  refine Utf8.le_of_mem_encode ?_
  rw [compact, String.toList_ofList]
  exact h.space_le

theorem get?_settle_obj (key : String) (members : List (String × Json)) :
    (obj members).settle.get? key = (last? key members).map settle := by
  rw [settle_obj, get?, lookup_settled]

/-! ## The line of a record -/

/-- The document says what the record says, and nothing else. -/
structure Accounts (v : Json) (r : Record) : Prop where
  key : v.get? "key" = some (.str r.key)
  value : v.get? "value" = some (.str r.value)
  partition : v.get? "partition" = some (.int r.partition.toInt)
  offset : v.get? "offset" = some (.int r.offset.toInt)
  timestamp :
    v.get? "timestamp" = some ((r.time.map fun i ↦ .str i.exchangeText).getD .null)
  headers : v.get? "headers" = some (.arr (r.headers.map fun (name, bytes) ↦
    .arr [.str name, .str (Header.render bytes)]))
  only (name : String) (h : v.get? name ≠ none) :
    name ∈ ["key", "value", "partition", "offset", "timestamp", "headers"]

end Json

namespace Record

variable (r : Record)

theorem integral_toJson : r.toJson.Integral := by
  have hlow := r.partition.le_toInt
  have hhigh := r.partition.toInt_lt
  have hlow' := r.offset.le_toInt
  have hhigh' := r.offset.toInt_lt
  have hmin : Int64.minValue.toInt = -9223372036854775808 := rfl
  have hsize : (UInt64.size : Int) = 18446744073709551616 := rfl
  refine .obj ?_
  simp only [List.forall_mem_cons]
  refine ⟨.str _, .str _, .int ⟨by omega, by omega⟩, .int ⟨by omega, by omega⟩, ?_, .arr ?_, nofun⟩
  · cases r.time with
    | none => exact .null
    | some i => exact .str _
  · refine List.forall_mem_map.mpr fun p _ ↦ .arr ?_
    simp only [List.forall_mem_cons]
    exact ⟨.str _, .str _, nofun⟩

theorem within_toJson : r.toJson.Within Json.depthLimit := by
  refine .obj ?_
  simp only [List.forall_mem_cons]
  refine ⟨.str _, .str _, .num _, .num _, ?_, .arr ?_, nofun⟩
  · cases r.time with
    | none => exact .null
    | some i => exact .str _
  · refine List.forall_mem_map.mpr fun p _ ↦ .arr ?_
    simp only [List.forall_mem_cons]
    exact ⟨.str _, .str _, nofun⟩

/-- What the line of a record denotes. -/
theorem accounts_settle_toJson : r.toJson.settle.Accounts r where
  key := by rw [toJson, Json.get?_settle_obj]; rfl
  value := by rw [toJson, Json.get?_settle_obj]; rfl
  partition := by rw [toJson, Json.get?_settle_obj]; rfl
  offset := by rw [toJson, Json.get?_settle_obj]; rfl
  timestamp := by
    rw [toJson, Json.get?_settle_obj]
    cases r.time with
    | none => rfl
    | some i => rfl
  headers := by
    rw [toJson, Json.get?_settle_obj]
    change some (Json.arr _).settle = _
    rw [Json.settle_arr, headerTexts, List.map_map, List.map_map]
    rfl
  only name h := by
    rw [toJson, Json.get?_settle_obj] at h
    obtain ⟨v, hv⟩ := Option.ne_none_iff_exists'.mp (mt (congrArg (Option.map Json.settle)) h)
    exact List.mem_map_of_mem (f := Prod.fst) (Json.mem_of_last? hv)

theorem denotes_toJson : Json.Denotes (Utf8.encode r.toJson.compact) r.toJson :=
  Json.rules_compact.denotes r.integral_toJson r.within_toJson

end Record

/-- The line has no byte below the space, denotes what the record says, and is read back as it. -/
structure IsLineOf (line : Bytes) (r : Record) : Prop where
  printed : ∀ b ∈ line, 0x20 ≤ b
  accounts : ∃ doc, Json.Denotes line doc ∧ Json.read line = .ok doc.settle ∧ doc.settle.Accounts r

theorem isLineOf_toJson (r : Record) : IsLineOf (Utf8.encode r.toJson.compact) r where
  printed := r.integral_toJson.byte_le
  accounts := ⟨r.toJson, r.denotes_toJson, Json.read_eq_ok_iff.mpr ⟨_, r.denotes_toJson, rfl⟩,
    r.accounts_settle_toJson⟩

/-! ## Lines of a listing -/

namespace Transcript

def newline : UInt8 := 10

/-- The bytes on the stream of data. -/
def output (t : Transcript) : Bytes := t.data.flatMap fun line ↦ Utf8.encode line ++ [newline]

theorem output_print (line : String) : (print [line]).output = Utf8.encode line ++ [newline] :=
  List.flatMap_singleton _ _

theorem splitOn_output {t : Transcript} (h : ∀ line ∈ t.data, ∀ b ∈ Utf8.encode line, 0x20 ≤ b) :
    t.output.splitOn newline = t.data.map Utf8.encode ++ [[]] := by
  obtain ⟨data, notices⟩ := t
  change (data.flatMap fun line ↦ Utf8.encode line ++ [newline]).splitOn newline = _
  induction data with
  | nil => rfl
  | cons line data ih =>
      obtain ⟨hline, hdata⟩ := List.forall_mem_cons.mp h
      have hnewline : newline ∉ Utf8.encode line := fun hmem ↦ absurd (hline _ hmem) (by decide)
      rw [List.flatMap_cons, List.append_assoc, List.singleton_append,
        List.splitOn_append_cons_self_of_not_mem hnewline, ih hdata]
      rfl

end Transcript

namespace Stage

/-- A course of the read leads here, nobody stops it, and the caller has taken all that the workers
have sent. -/
structure Led (log : Log) (r : Read LogCursor) (x : Stage Log LogCursor) : Prop where
  course : ∃ moves : List (Move Empty), (∀ m ∈ moves, m.IsInner) ∧
    (start log r).play Log.client Empty.elim moves = x
  taken_eq : x.taken = x.sent

end Stage

/-- What a read delivers that has been started, and how its listing ends. -/
inductive Started.Delivers (log : Log) : Started LogCursor → ListingEnd → List Record → Prop
  | nothing : Delivers log .emptyTopic .done []
  | all {r : Read LogCursor} {x : Stage Log LogCursor} (led : x.Led log r) (drained : x.IsDrained) :
      Delivers log (.running r) .done x.taken
  /-- Not every worker is over, but those that are not have to wait. -/
  | soFar {r : Read LogCursor} {x : Stage Log LogCursor} (led : x.Led log r)
      (rests : x.AtRest Log.client) (stays : x.read.isOver = false) :
      Delivers log (.running r) .waiting x.taken

namespace RecordQuery

theorem data_printEvents (events : List Event) :
    (printEvents .json events).data = (recordsOf events).map fun r ↦ r.toJson.compact := by
  induction events with
  | nil => rfl
  | cons event events ih =>
      have hcons : (printEvents .json (event :: events)).data =
          (printEvent .json event).data ++ (printEvents .json events).data := rfl
      rw [hcons, ih]
      cases event with
      | record r => rfl
      | failure f => rfl

theorem data_printSummary (s : Summary) : (printSummary s).data = [] := by
  unfold printSummary
  split <;> rfl

theorem lines_of_data {t : Transcript} {records : List Record}
    (hdata : t.data = records.map fun r ↦ r.toJson.compact) : ∃ lines,
      t.output.splitOn Transcript.newline = lines ++ [[]] ∧
        List.Forall₂ IsLineOf lines records := by
  refine ⟨t.data.map Utf8.encode, Transcript.splitOn_output ?_, ?_⟩
  · rw [hdata]
    exact List.forall_mem_map.mpr fun record _ ↦ (isLineOf_toJson record).printed
  · rw [hdata, List.forall₂_map_left_iff, List.forall₂_map_left_iff]
    exact List.forall₂_same.mpr fun record _ ↦ isLineOf_toJson record

theorem exists_startRead {log : Log} {settings : ReaderSettings} {q : RecordQuery}
    {started : Started LogCursor} (h : q.start log settings = .ok started) : ∃ ps,
      startRead Log.client log (q.readerSettings settings) q.decoder.decoder (q.request ps) false =
        .ok started := by
  obtain ⟨ps, -, hstart⟩ := Result.bind_eq_ok_iff.mp h
  exact ⟨ps, Result.mapError_eq_ok_iff.mp hstart⟩

/-- A listing in JSON prints the records of a course that its read has been taken along. -/
theorem delivers_printRead {log : Log} {settings : ReaderSettings} {q : RecordQuery}
    {r : Read LogCursor} (hstart : q.start log settings = .ok (.running r)) : ∃ records,
      (q.printRead log .json r).transcript.data = (records.map fun r ↦ r.toJson.compact) ∧
        Started.Delivers log (.running r) (q.printRead log .json r).ending records := by
  obtain ⟨ps, hstart⟩ := exists_startRead hstart
  obtain ⟨moves, x, hinner, hcourse, hexhausted, htaken, -, hdrain⟩ := Stage.drain_gives_all hstart
  have hled : Stage.Led log r x := ⟨⟨moves, hinner, hcourse⟩, htaken⟩
  have hrecords : recordsOf x.events = x.taken := x.records_of_events
  have happend (a b : Transcript) : (a ++ b).data = a.data ++ b.data := rfl
  refine ⟨x.taken, ?_⟩
  rw [printRead, hdrain]
  cases hover : x.read.isOver with
  | true =>
      refine ⟨?_, .all hled (hexhausted.isDrained hover)⟩
      simp [happend, data_printEvents, data_printSummary, hrecords]
  | false =>
      refine ⟨?_, .soFar hled hexhausted.atRest hover⟩
      exact (data_printEvents x.events).trans (by rw [hrecords])

/-- A record is listed in JSON as one line, which has no byte below the space and is read back as
what the record says.  A read that can be started is listed: cut at its line ends, the output is the
lines of the records that the read delivers, one for each and in the order in which they come. -/
theorem lines_recover_records :
    (∀ record, ∃ line, (printEvent .json (.record record)).output = line ++ [Transcript.newline] ∧
      IsLineOf line record) ∧
    ∀ (log : Log) (settings : ReaderSettings) (q : RecordQuery) (started : Started LogCursor),
      q.start log settings = .ok started → ∃ listing lines records,
        q.list log settings .json = .ok listing ∧
        listing.transcript.output.splitOn Transcript.newline = lines ++ [[]] ∧
        List.Forall₂ IsLineOf lines records ∧ started.Delivers log listing.ending records := by
  refine ⟨fun record ↦ ⟨_, Transcript.output_print _, isLineOf_toJson record⟩,
    fun log settings q started hstart ↦ ?_⟩
  cases started with
  | emptyTopic =>
      have hlist : ∃ notice, q.list log settings .json = .ok ⟨⟨[], notice⟩, .done⟩ := by
        rw [list, hstart]
        exact ⟨_, rfl⟩
      obtain ⟨notice, hlist⟩ := hlist
      exact ⟨_, [], [], hlist, rfl, .nil, .nothing⟩
  | running r =>
      obtain ⟨records, hdata, hdelivers⟩ := delivers_printRead hstart
      obtain ⟨lines, houtput, hlines⟩ := lines_of_data hdata
      refine ⟨q.printRead log .json r, lines, records, ?_, houtput, hlines, hdelivers⟩
      rw [list, hstart]
      rfl

/-- All records of two partitions. -/
def sample : RecordQuery := { topic := "t" }

def sampleRead : Read LogCursor :=
  .make (sample.request [0, 1]) sample.decoder.decoder 256 false
    (planAll (sample.request [0, 1]) [(0, ⟨0, 2⟩), (1, ⟨0, 1⟩)])

/-- The listing prints the three records that there are. -/
theorem lines_recover_sample :
    sample.start Log.sample {} = .ok (.running sampleRead) ∧ ∃ listing lines records,
      sample.list Log.sample {} .json = .ok listing ∧ listing.transcript.data.length = 3 ∧
      listing.transcript.output.splitOn Transcript.newline = lines ++ [[]] ∧
      List.Forall₂ IsLineOf lines records ∧ listing.ending = .done ∧
      (Started.running sampleRead).Delivers Log.sample .done records := by
  have hstart : sample.start Log.sample {} = .ok (.running sampleRead) := rfl
  have hlist : sample.list Log.sample {} .json =
      .ok (sample.printRead Log.sample .json sampleRead) := rfl
  obtain ⟨listing, lines, records, hlisted, houtput, hlines, hdelivers⟩ :=
    lines_recover_records.2 Log.sample {} sample _ hstart
  obtain rfl := Result.ok.inj (hlist.symm.trans hlisted)
  exact ⟨hstart, _, lines, records, hlist, rfl, houtput, hlines, rfl, hdelivers⟩

end RecordQuery
end TopicView
