import TopicView.Proofs.Json.Format
import TopicView.Proofs.Keyed
import TopicView.Read.Request

/-!
# Exchange of requests

A request that is written in JSON is read back as it was, in either form of the text, and so is a
request that has been read from a text of any other form.
-/

namespace TopicView

open Json (Spacing)

theorem PartitionSet.ofList_toList (s : PartitionSet) : ofList s.toList = s := by
  obtain ⟨toList, ascending⟩ := s
  have hsorted : Keyed.sortedSet toList = toList := by
    rw [Keyed.sortedSet, Keyed.ofList_eq_self (List.pairwise_map.mpr ascending), Keyed.keys,
      List.map_map]
    exact List.map_id toList
  simp only [ofList, hsorted]

section Written

variable {sp : Spacing} {w : Nat → Json → List Char} (h : sp.Rules w) (depth gap : Nat)

include h

theorem Filter.reads_format (f : Filter) :
    Filter.format.Reads (depth + 1) (w gap f.toJson) f := by
  have hmode : KeyMode.format.Reads depth (w (gap + 1) (.str f.keyMode.name)) f.keyMode := by
    rw [h.str]
    exact Json.Format.reads_choice (by cases f.keyMode <;> rfl) depth
  have hkey : Json.Format.string.Reads depth (w (gap + 1) (.str f.keyTerm)) f.keyTerm :=
    h.str _ _ ▸ Json.Format.reads_string depth f.keyTerm
  have hvalue : Json.Format.string.Reads depth (w (gap + 1) (.str f.valueTerm)) f.valueTerm :=
    h.str _ _ ▸ Json.Format.reads_string depth f.valueTerm
  exact h.reads_record (.put rfl (by decide) hmode (.put rfl (by decide) hkey
    (.put rfl (by decide) hvalue (.done rfl))))

theorem Request.reads_format (r : Request) :
    Request.format.Reads (depth + 2) (w gap r.toJson) r := by
  have htopic : Json.Format.string.Reads (depth + 1) (w (gap + 1) (.str r.topic)) r.topic :=
    h.str _ _ ▸ Json.Format.reads_string (depth + 1) r.topic
  have hpartitions : (Json.Format.listOf .int32).Reads (depth + 1)
      (w (gap + 1) (.arr (r.partitions.toList.map fun p ↦ .int p.toInt))) r.partitions.toList := by
    refine h.reads_list (List.forall₂_map_left_iff.mpr (List.forall₂_same.mpr fun p _ ↦ ?_))
    exact h.num _ _ ▸ Json.Format.reads_int32 p depth
  have hmode : Mode.format.Reads (depth + 1) (w (gap + 1) (.str r.mode.name)) r.mode := by
    rw [h.str]
    exact Json.Format.reads_choice (by cases r.mode <;> rfl) (depth + 1)
  have hlimit : Json.Format.uint64.Reads (depth + 1) (w (gap + 1) (.int r.limit.toNat)) r.limit :=
    h.num _ _ ▸ Json.Format.reads_uint64 r.limit (depth + 1)
  have hfilter {v : Json} (hnone : r.filter = none → v = .null)
      (hsome : ∀ f, r.filter = some f → v = f.toJson) :
      (Json.Format.option Filter.format).Reads (depth + 1) (w (gap + 1) v) r.filter := by
    cases hf : r.filter with
    | none =>
        rw [hnone hf, h.null]
        exact Json.Format.reads_none Filter.format (depth + 1)
    | some f =>
        rw [hsome f hf]
        refine Json.Format.reads_some (f.reads_format h depth (gap + 1)) fun ds heq ↦ ?_
        simp only [Filter.toJson, h.obj] at heq
        exact absurd (List.cons.inj heq).1 (by decide)
  have hread : Request.format.Reads (depth + 2) (w gap r.toJson)
      { r with partitions := .ofList r.partitions.toList } :=
    h.reads_record (.put rfl (by decide) htopic (.put rfl (by decide) hpartitions
      (.put rfl (by decide) hmode (.put rfl (by decide) hlimit
        (.put rfl (by decide) (hfilter (fun hf ↦ by rw [hf]) fun f hf ↦ by rw [hf])
          (.done rfl))))))
  rwa [PartitionSet.ofList_toList] at hread

theorem Request.read_written (r : Request) :
    Request.format.read (Utf8.encode (String.ofList (w 0 r.toJson))) = .ok r :=
  Json.Format.read_encode (r.reads_format h 125 0)

end Written

namespace Request

/-- Either form of what is written for a request is read back as that request.  Whatever text a
request has been read from, it is the same once it has been written and read again: it names as many
partitions, enforces the same limit and is accepted or refused for the same reason. -/
theorem survives_exchange :
    (∀ r : Request, format.read (Utf8.encode r.toJson.compact) = .ok r ∧
      format.read (Utf8.encode r.toJson.pretty) = .ok r) ∧
    ∀ (bytes : Bytes) (r : Request), format.read bytes = .ok r →
      ∃ r', format.read (Utf8.encode r.toJson.compact) = .ok r' ∧ r' = r ∧
        r'.partitions.size = r.partitions.size ∧ r'.effectiveLimit = r.effectiveLimit ∧
          r'.validate = r.validate :=
  ⟨fun r ↦ ⟨r.read_written Json.rules_compact, r.read_written Json.rules_pretty⟩,
    fun _ r _ ↦ ⟨r, r.read_written Json.rules_compact, rfl, rfl, rfl, rfl⟩⟩

/-- The fields in another order, one partition twice and the filter null. -/
def scrambled : Json :=
  .obj [("filter", .null), ("limit", .int 0), ("partitions", .arr [.int 3, .int (-1), .int 3]),
    ("topic", .str " \n"), ("mode", .str "live")]

theorem survives_exchange_of_scrambled :
    let r : Request := ⟨" \n", .ofList [3, -1, 3], .live, 0, none⟩
    format.read (Utf8.encode scrambled.pretty) = .ok r ∧
      ∃ r', format.read (Utf8.encode r.toJson.compact) = .ok r' ∧ r' = r ∧
        r'.partitions.size = 2 ∧ r'.effectiveLimit = none ∧ r'.validate = .error .blankTopic := by
  intro r
  have hread : format.read (Utf8.encode scrambled.pretty) = .ok r := by
    have hlimit : Json.Format.uint64.Reads 126 (Json.writePretty 1 (.int 0)) 0 :=
      Json.Format.reads_uint64 0 126
    have hlist : (Json.Format.listOf .int32).Reads 126
        (Json.writePretty 1 (.arr [.int 3, .int (-1), .int 3])) [3, -1, 3] :=
      Json.rules_pretty.reads_list (.cons (Json.Format.reads_int32 3 125)
        (.cons (Json.Format.reads_int32 (-1) 125) (.cons (Json.Format.reads_int32 3 125) .nil)))
    have hmode : Mode.format.Reads 126 (Json.writePretty 1 (.str "live")) .live :=
      Json.Format.reads_choice rfl 126
    have hreads : format.Reads 127 (Json.writePretty 0 scrambled) r :=
      Json.rules_pretty.reads_record
        (.put rfl (by decide) (Json.Format.reads_none Filter.format 126)
          (.put rfl (by decide) hlimit (.put rfl (by decide) hlist
            (.put rfl (by decide) (Json.Format.reads_string 126 " \n")
              (.put rfl (by decide) hmode (.done rfl))))))
    exact Json.Format.read_encode hreads
  obtain ⟨r', hread', hr, hsize, hlimit, hvalid⟩ := survives_exchange.2 _ r hread
  exact ⟨hread, r', hread', hr, hsize.trans (by decide), hlimit.trans rfl, hvalid.trans (by decide)⟩

end Request
end TopicView
