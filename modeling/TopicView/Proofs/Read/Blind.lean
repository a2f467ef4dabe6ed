import TopicView.Proofs.Read.Redecode

/-!
# What a decoder affects

A filter by key, and one that looks for nothing in the values, does not see what the values are
decoded to.  Reads with such a filter, or with none, differ from decoder to decoder in the values of
the records and in nothing else: each of them is the image of a read whose decoder loses nothing.
-/

namespace TopicView

/-- The filter goes by the key, or by a text that every value contains. -/
def Filter.IsBlind (f : Filter) : Prop := f.keyMode ≠ .none ∨ f.valueTerm = ""

instance : DecidablePred Filter.IsBlind := fun f ↦
  inferInstanceAs (Decidable (f.keyMode ≠ .none ∨ f.valueTerm = ""))

theorem Text.contains_empty (text : String) : Text.contains text "" = true := by
  have hoccurs (cs : List Char) : Text.occursIn [] cs = true := by
    cases cs <;> rfl
  exact hoccurs text.toList

theorem admits_of_isBlind {filter : Option Filter} (h : ∀ f, filter = some f → f.IsBlind)
    (key value value' : String) : admits filter key value = admits filter key value' := by
  cases filter with
  | none => rfl
  | some f =>
      obtain ⟨mode, keyTerm, valueTerm⟩ := f
      cases mode with
      | contains => rfl
      | startsWith => rfl
      | none =>
          obtain hmode | rfl : KeyMode.none ≠ .none ∨ valueTerm = "" := h _ rfl
          · exact (hmode rfl).elim
          · exact (Text.contains_empty value).trans (Text.contains_empty value').symm

namespace Decoder

/-- One character for each byte, behind a mark that there is a value. -/
def verbatim : Decoder where
  name := "verbatim"
  decode bytes := .ok (String.ofList ('=' :: bytes.map fun b ↦ Char.ofNat b.toNat))

/-- The value that `verbatim` has been given. -/
def heldIn (text : String) : Option Bytes :=
  match text.toList with
  | [] => none
  | _ :: cs => some (cs.map fun c ↦ UInt8.ofNat c.toNat)

theorem heldIn_display (value : Option Bytes) : heldIn (verbatim.display value) = value := by
  cases value with
  | none => rfl
  | some bytes =>
      have hbyte (b : UInt8) : UInt8.ofNat (Char.ofNat b.toNat).toNat = b := by
        have hvalid : b.toNat.isValidChar := .inl (Nat.lt_trans b.toNat_lt (by decide))
        rw [Char.ofNat, dif_pos hvalid]
        exact UInt8.ofNat_toNat
      simp [heldIn, display, verbatim, Function.comp_def, hbyte]

end Decoder

/-- The record with its value as `d` shows it. -/
def Record.reread (d : Decoder) (a : Record) : Record :=
  { a with value := d.display (Decoder.heldIn a.value) }

theorem recodes_verbatim {filter : Option Filter} (h : ∀ f, filter = some f → f.IsBlind)
    (d : Decoder) : Recodes filter .verbatim d (Record.reread d) where
  decode_eq raw := by
    rw [Record.reread, RawRecord.decode, RawRecord.decode, Decoder.heldIn_display]
  admits_eq raw := admits_of_isBlind h _ _ _

variable {σ κ δ : Type}

def Started.map (f : Record → Record) (d : Decoder) : Started κ → Started κ
  | .emptyTopic => .emptyTopic
  | .running r => .running (r.map f d)

theorem Read.make_map (f : Record → Record) (d d' : Decoder) (request : Request) (capacity : Nat)
    (cancelled : Bool) (plans : List (PartitionId × Plan)) :
    (Read.make request d capacity cancelled plans : Read κ).map f d' =
      .make request d' capacity cancelled plans := by
  have hworkers : (plans.map fun e ↦ (Worker.start e.1 e.2 : Worker κ)).map (Worker.map f) =
      plans.map fun e ↦ .start e.1 e.2 := List.map_map
  rw [Read.map, Read.make, Read.make, hworkers]
  rfl

/-- The decoder has no part in what becomes of the start. -/
theorem startRead_map (f : Record → Record) (d d' : Decoder) (client : Client σ κ) (s : σ)
    (settings : ReaderSettings) (request : Request) (cancelled : Bool) :
    startRead client s settings d' request cancelled =
      Started.map f d' <$> startRead client s settings d request cancelled := by
  unfold startRead
  cases request.validate with
  | error fault => rfl
  | ok u =>
      cases settings.validate with
      | error fault => rfl
      | ok v =>
          cases resolve request.topic (client.lookup s request.topic)
              request.partitions.toList with
          | error e => rfl
          | crash => rfl
          | ok ranges =>
              simp only [Result.lift_mapError, Result.lift_ok, Result.mapError, Result.ok_bind]
              split
              · rfl
              · cases planAll? request ranges with
                | none => rfl
                | some plans =>
                    simp only [Result.lift_some, Result.ok_bind]
                    split
                    · rfl
                    · exact congrArg (fun r ↦ Result.ok (Started.running r))
                        (Read.make_map f d d' request _ cancelled plans).symm

/-! ## Where the records come from -/

namespace Stage

variable {client : Client σ κ} {alter : δ → σ → σ} {s : σ} {settings : ReaderSettings}
  {request : Request} {cancelled : Bool} {ranges : List (PartitionId × Offsets)} {d : Decoder}
  {r : Read κ}

theorem relays_play (h : Launched client s settings d request cancelled ranges r)
    (moves : List (Move δ)) :
    ((start s r).play client alter moves).Each (Worker.Relays r.job) := by
  have hstart : (start s r).Each (Worker.Relays r.job) := each_start h (Worker.relays_start _)
  have hboth : ((start s r).play client alter moves).Framed r ∧
      ((start s r).play client alter moves).Each (Worker.Relays r.job) := by
    refine play_keeps client alter (start s r)
      (P := fun y ↦ y.Framed r ∧ y.Each (Worker.Relays r.job)) ⟨framed_start s r, hstart⟩ moves ?_
    rintro y m - ⟨hframed, hrelays⟩
    have hnext : y.Next client alter m (y.step client alter m) := next_step alter m
    refine ⟨hframed.next hnext, hrelays.next (fun hstep hold ↦ ?_) hnext⟩
    rw [hframed.job_eq] at hstep
    exact hold.step hstep
  exact hboth.2

/-- Every record that the caller takes is one that a cursor has yielded, decoded. -/
theorem exists_raw_of_taken (h : Launched client s settings d request cancelled ranges r)
    (moves : List (Move δ)) {a : Record}
    (ha : a ∈ ((start s r).play client alter moves).taken) :
    ∃ raw, raw.decode d = a ∧
      ∃ i, .act i (.pulled raw) ∈ ((start s r).play client alter moves).history := by
  have hchanneled : Channeled settings.channelCapacity.toNat
      ((start s r).play client alter moves) := channeled_play h moves
  have hsent := hchanneled.taken_prefix.subset ha
  obtain ⟨i, w, hw, hmem⟩ :=
    exists_worker_of_shown (framed_play client alter s r moves) (sent_eq_shown ▸ hsent)
  have hwithin := (relays_play h moves i w hw).within
  obtain ⟨raw, hraw, -, hdecode, -⟩ :=
    Job.mem_shows.mp (hwithin.subset (List.mem_append_left _ hmem))
  have hdecoder : r.job.decoder = d := by
    rw [h.made]
    rfl
  exact ⟨raw, hdecoder ▸ hdecode, i, mem_actsOf.mp (Act.mem_pulledIn.mp hraw)⟩

/-! ## Two decoders -/

/-- What two reads with decoders `d` and `d'` have in common after the same moves. -/
structure Agrees (client : Client σ κ) (d d' : Decoder) (x y : Stage σ κ) : Prop where
  state_eq : x.state = y.state
  plans_eq : x.read.plans = y.read.plans
  /-- The same records have been delivered, each with the value as the decoder shows it. -/
  taken : ∃ raws : List RawRecord, x.taken = raws.map (·.decode d) ∧
    y.taken = raws.map (·.decode d') ∧
    ∀ raw ∈ raws, ∃ i, .act i (.pulled raw) ∈ x.history ∧ .act i (.pulled raw) ∈ y.history
  /-- So they agree but for their values. -/
  taken_eq : x.taken.map (fun a ↦ (a.partition, a.offset, a.key, a.time, a.headers)) =
    y.taken.map fun a ↦ (a.partition, a.offset, a.key, a.time, a.headers)
  reported_eq : x.reported = y.reported
  heard_eq : x.heard = y.heard
  summary_eq : x.read.summary? = y.read.summary?
  finish_eq : x.read.finish client x.state = y.read.finish client y.state

theorem exists_map_eq {α β : Type} {g : α → β} {Q : α → Prop} {l : List β}
    (h : ∀ b ∈ l, ∃ a, g a = b ∧ Q a) : ∃ as : List α, as.map g = l ∧ ∀ a ∈ as, Q a := by
  induction l with
  | nil => exact ⟨[], rfl, nofun⟩
  | cons b l ih =>
      obtain ⟨a, rfl, ha⟩ := h b List.mem_cons_self
      obtain ⟨as, rfl, has⟩ := ih fun c hc ↦ h c (List.mem_cons_of_mem _ hc)
      exact ⟨a :: as, rfl, List.forall_mem_cons.mpr ⟨ha, has⟩⟩

theorem pulled_of_map {f : Record → Record} {d' : Decoder} {x : Stage σ κ} {i : Nat}
    {raw : RawRecord} (h : .act i (.pulled raw) ∈ x.history) :
    .act i (.pulled raw) ∈ (x.map f d').history :=
  List.mem_map.mpr ⟨_, h, rfl⟩

/-- Two images of one course agree. -/
theorem agrees_of_verbatim (hblind : ∀ f, request.filter = some f → f.IsBlind)
    (h : Launched client s settings .verbatim request cancelled ranges r) (moves : List (Move δ))
    (d d' : Decoder) :
    Agrees client d d' ((start s (r.map (Record.reread d) d)).play client alter moves)
      ((start s (r.map (Record.reread d') d')).play client alter moves) := by
  have hjob : r.job = ⟨request.topic, .verbatim, request.filter⟩ := by
    rw [h.made]
    rfl
  have hrecodes (d : Decoder) : Recodes r.job.filter r.job.decoder d (Record.reread d) := by
    rw [hjob]
    exact recodes_verbatim hblind d
  have hplay (d : Decoder) := play_map (hrecodes d) client alter s moves
  rw [hplay d, hplay d']
  obtain ⟨x, hx⟩ : ∃ x, (start s r).play client alter moves = x := ⟨_, rfl⟩
  have hframed : x.Framed r := hx ▸ framed_play client alter s r moves
  -- every record taken is the reading of one that was pulled
  have htaken : ∃ raws : List RawRecord, raws.map (·.decode .verbatim) = x.taken ∧
      ∀ raw ∈ raws, ∃ i, .act i (.pulled raw) ∈ x.history := by
    refine exists_map_eq fun a ha ↦ ?_
    subst hx
    exact exists_raw_of_taken h moves ha
  obtain ⟨raws, hraws, hpulled⟩ := htaken
  have hread (d : Decoder) : (x.map (Record.reread d) d).taken = raws.map (·.decode d) := by
    rw [taken_map, ← hraws, List.map_map]
    exact List.map_congr_left fun raw _ ↦ (recodes_verbatim hblind d).decode_eq raw
  have hfinish (d : Decoder) : (x.map (Record.reread d) d).read.finish client x.state =
      x.read.finish client x.state :=
    Read.finish_map (hframed.job_eq ▸ hrecodes d) client x.state
  have hplans (d : Decoder) : (x.map (Record.reread d) d).read.plans = x.read.plans :=
    List.map_map
  rw [hx]
  constructor
  case state_eq => rfl
  case plans_eq => rw [hplans, hplans]
  case taken =>
    refine ⟨raws, hread d, hread d', fun raw hraw ↦ ?_⟩
    obtain ⟨i, hi⟩ := hpulled raw hraw
    exact ⟨i, pulled_of_map hi, pulled_of_map hi⟩
  case taken_eq =>
    rw [hread, hread, List.map_map, List.map_map]
    rfl
  case reported_eq => rw [reported_map, reported_map]
  case heard_eq => rw [heard_map, heard_map]
  case summary_eq => exact (Read.summary_map _).trans (Read.summary_map _).symm
  case finish_eq => exact (hfinish d).trans (hfinish d').symm

/-- The decoder only affects values.  Whatever the client, a read that does not filter by values
starts in the same way with every decoder, and after the same moves it has delivered the same
records but for their values, reported the same errors, and ends in the same summary.  A missing
value is delivered as the empty text, and one that its decoder refuses as a text that is not. -/
theorem decoder_only_affects_values (client : Client σ κ) (alter : δ → σ → σ) (s : σ)
    (settings : ReaderSettings) (request : Request)
    (hblind : ∀ f, request.filter = some f → f.IsBlind) (cancelled : Bool) (d d' : Decoder) :
    ((∃ error, startRead client s settings d request cancelled = .error error ∧
        startRead client s settings d' request cancelled = .error error) ∨
      (startRead client s settings d request cancelled = .ok .emptyTopic ∧
        startRead client s settings d' request cancelled = .ok .emptyTopic) ∨
      (startRead client s settings d request cancelled = .crash ∧
        startRead client s settings d' request cancelled = .crash) ∨
      ∃ r r', startRead client s settings d request cancelled = .ok (.running r) ∧
        startRead client s settings d' request cancelled = .ok (.running r') ∧
        ∀ moves : List (Move δ), Agrees client d d' ((start s r).play client alter moves)
          ((start s r').play client alter moves)) ∧
    ∀ (decoder : Decoder) (raw : RawRecord),
      (raw.value = none → (raw.decode decoder).value = "") ∧
      ∀ bytes e, raw.value = some bytes → decoder.decode bytes = .error e →
        (raw.decode decoder).value = s!"<decode error ({decoder.name}): {e.message}>" ∧
          (raw.decode decoder).value ≠ "" := by
  constructor
  · have hstart (d : Decoder) := startRead_map (Record.reread d) .verbatim d client s settings
      request cancelled
    rw [hstart d, hstart d']
    cases hverbatim : startRead client s settings .verbatim request cancelled with
    | error error => exact .inl ⟨error, rfl, rfl⟩
    | crash => exact .inr (.inr (.inl ⟨rfl, rfl⟩))
    | ok started =>
        cases started with
        | emptyTopic => exact .inr (.inl ⟨rfl, rfl⟩)
        | running r =>
            obtain ⟨ranges, hlaunched⟩ := exists_launched hverbatim
            exact .inr (.inr (.inr ⟨_, _, rfl, rfl, fun moves ↦
              agrees_of_verbatim hblind hlaunched moves d d'⟩))
  · intro decoder raw
    refine ⟨fun hnone ↦ ?_, fun bytes e hbytes herror ↦ ?_⟩
    · simp [RawRecord.decode, hnone, Decoder.display]
    · have hvalue : (raw.decode decoder).value =
          s!"<decode error ({decoder.name}): {e.message}>" := by
        simp [RawRecord.decode, hbytes, Decoder.display, herror]
      refine ⟨hvalue, fun hempty ↦ ?_⟩
      have hchars := congrArg String.toList (hvalue.symm.trans hempty)
      simp at hchars
      exact absurd hchars.1 (by decide)

/-- A request whose filter goes by the key, so that the term for the value plays no part. -/
def keyedRequest : Request :=
  { sampleRequest .beginning 4 with filter := some ⟨.startsWith, "", "b"⟩ }

def keyedRead (d : Decoder) : Read LogCursor :=
  .make keyedRequest d 256 false (planAll keyedRequest [(0, ⟨0, 2⟩), (1, ⟨0, 1⟩)])

theorem decoder_only_affects_values_of_sample :
    let x := (start Log.sample (keyedRead .lossy)).play Log.client Empty.elim
      (Move.oneByOne 13 8 3)
    let y := (start Log.sample (keyedRead (.json false))).play Log.client Empty.elim
      (Move.oneByOne 13 8 3)
    (∀ f, keyedRequest.filter = some f → f.IsBlind) ∧
      startRead Log.client Log.sample {} .lossy keyedRequest false =
        .ok (.running (keyedRead .lossy)) ∧
      startRead Log.client Log.sample {} (.json false) keyedRequest false =
        .ok (.running (keyedRead (.json false))) ∧
      x.taken.map (·.value) = ["a", "b", "c"] ∧ Agrees Log.client .lossy (.json false) x y := by
  have hblind : ∀ f, keyedRequest.filter = some f → f.IsBlind := by
    rintro f hf
    obtain rfl := Option.some.inj hf
    decide
  have hstart (d : Decoder) : startRead Log.client Log.sample {} d keyedRequest false =
      .ok (.running (keyedRead d)) := rfl
  obtain ⟨⟨error, herror, -⟩ | ⟨hempty, -⟩ | ⟨hcrashed, -⟩ | ⟨r, r', hr, hr', hagrees⟩, -⟩ :=
    decoder_only_affects_values Log.client Empty.elim Log.sample {} keyedRequest hblind false
      .lossy (.json false)
  · exact nomatch (hstart .lossy).symm.trans herror
  · exact nomatch (hstart .lossy).symm.trans hempty
  · exact nomatch (hstart .lossy).symm.trans hcrashed
  · obtain rfl := Started.running.inj (Result.ok.inj ((hstart .lossy).symm.trans hr))
    obtain rfl := Started.running.inj (Result.ok.inj ((hstart (.json false)).symm.trans hr'))
    exact ⟨hblind, hstart .lossy, hstart (.json false), rfl, hagrees (Move.oneByOne 13 8 3)⟩

end Stage
end TopicView
