import TopicView.Decoder
import TopicView.Proofs.Json.Container

/-!
# Written documents are read back

A value without doubles is what the grammar finds in either text that is written for it, so that
decoding a document once more changes nothing.
-/

namespace TopicView.Json

section Rules

variable {sp : Spacing} {w : Nat → Json → List Char} (h : sp.Rules w)
include h

/-- What is written for a value without doubles spells that value. -/
theorem Spacing.Rules.spells {v : Json} (hints : v.Integral) {limit : Nat}
    (hdepth : v.Within limit) (depth : Nat) : Spells (Spelled limit) (w depth v) v := by
  induction v generalizing limit depth with
  | null => exact h.null depth ▸ fun t ↦ spelled_of_scalar .null
  | bool b =>
      rw [h.bool depth b]
      cases b with
      | true => exact fun t ↦ spelled_of_scalar .isTrue
      | false => exact fun t ↦ spelled_of_scalar .isFalse
  | num n =>
      cases hints with
      | int hheld =>
          exact h.num depth (.int _) ▸ fun t ↦ spelled_of_scalar (.num (isNumeral_ofInt hheld t))
  | str s =>
      intro t
      obtain ⟨r, hr, hchars⟩ := exists_chars_of_written s t
      rw [h.str depth s, hr]
      exact spelled_of_scalar (.str hchars)
  | arr items ih =>
      cases hints with
      | arr hints =>
          cases hdepth with
          | arr hdepth =>
              intro t
              have hparts : List.Forall₂ (Spells (Spelled _)) (items.map (w (depth + 1))) items :=
                List.forall₂_map_left_iff.mpr <| List.forall₂_same.mpr fun v hv ↦
                  ih v hv (hints v hv) (hdepth v hv) (depth + 1)
              obtain ⟨s, hs, henclosed⟩ := enclosed_spaced sp '[' depth hparts t
              exact .inr (.inl ⟨s, items, h.arr depth items ▸ hs, rfl, henclosed⟩)
  | obj members ih =>
      cases hints with
      | obj hints =>
          cases hdepth with
          | obj hdepth =>
              intro t
              have hparts : List.Forall₂ (Spells (Entry (Spelled _)))
                  (members.map fun p ↦ sp.member p.1 (w (depth + 1) p.2)) members :=
                List.forall₂_map_left_iff.mpr <| List.forall₂_same.mpr fun p hp ↦
                  entry_spaced (ih p hp (hints p hp) (hdepth p hp) (depth + 1))
              obtain ⟨s, hs, henclosed⟩ := enclosed_spaced sp '\x7b' depth hparts t
              exact .inr (.inr ⟨s, members, h.obj depth members ▸ hs, rfl, henclosed⟩)

theorem Spacing.Rules.denotes {v : Json} (hints : v.Integral) (hdepth : v.Within depthLimit) :
    Denotes (Utf8.encode (String.ofList (w 0 v))) v := by
  have hspelled := h.spells hints hdepth 0 []
  rw [List.append_nil] at hspelled
  exact ⟨w 0 v, _, [], (Utf8.encode_ofList _).symm, .stop, hspelled, .stop⟩

end Rules

/-- A text is read as the document that it denotes, settled. -/
theorem read_eq_ok_iff {bytes : Bytes} {v : Json} :
    read bytes = .ok v ↔ ∃ doc, Denotes bytes doc ∧ v = doc.settle := by
  rw [read_eq]
  constructor
  · intro h
    obtain ⟨doc, hdoc, rfl⟩ := exists_of_map_ok h
    exact ⟨doc, readDocument_eq_ok_iff.mp hdoc, rfl⟩
  · rintro ⟨doc, hdoc, rfl⟩
    rw [hdoc.readDocument_eq]
    rfl

/-! ## Decoding again -/

theorem decode_of_read {bytes : Bytes} {v : Json} (h : read bytes = .ok v) (pretty : Bool) :
    (Decoder.json pretty).decode bytes = .ok (if pretty then v.pretty else v.compact) := by
  simp only [Decoder.json, h]

/-- Decoding is stable.  The decoder accepts exactly the texts that denote a document, and each of
them denotes one.  A document whose numbers are integers is decoded to a text that denotes the same
document, with its keys in order and each once, and is decoded to itself; either form of it is
decoded to the other. -/
theorem decode_stable (bytes : Bytes) :
    ((∃ s, (Decoder.json false).decode bytes = .ok s) ↔ ∃! doc, Denotes bytes doc) ∧
      ∀ {doc : Json} {s : String}, Denotes bytes doc → doc.settle.Integral →
        (Decoder.json false).decode bytes = .ok s →
          (Decoder.json false).decode (Utf8.encode s) = .ok s ∧
            (∃ p, (Decoder.json true).decode bytes = .ok p ∧
              (Decoder.json true).decode (Utf8.encode s) = .ok p ∧
              (Decoder.json false).decode (Utf8.encode p) = .ok s) ∧
            ∃ doc', Denotes (Utf8.encode s) doc' ∧ doc'.Normal ∧ doc.Same doc' := by
  refine ⟨⟨?_, ?_⟩, fun {doc s} hdoc hints hdecode ↦ ?_⟩
  · rintro ⟨s, hs⟩
    cases hread : read bytes with
    | error fault => simp only [Decoder.json, hread, reduceCtorEq] at hs
    | ok v =>
        obtain ⟨doc, hdoc, -⟩ := read_eq_ok_iff.mp hread
        exact ⟨doc, hdoc, fun doc' hdoc' ↦ hdoc'.unique hdoc⟩
  · rintro ⟨doc, hdoc, -⟩
    exact ⟨_, decode_of_read (read_eq_ok_iff.mpr ⟨doc, hdoc, rfl⟩) false⟩
  · obtain ⟨v, hv⟩ : ∃ v, doc.settle = v := ⟨_, rfl⟩
    have hread : read bytes = .ok v := read_eq_ok_iff.mpr ⟨doc, hdoc, hv.symm⟩
    obtain ⟨hnormal, hdepth⟩ := normal_and_within_of_read hread
    rw [hv] at hints
    have hcompact : Denotes (Utf8.encode v.compact) v := rules_compact.denotes hints hdepth
    have hpretty : Denotes (Utf8.encode v.pretty) v := rules_pretty.denotes hints hdepth
    have hback {bytes : Bytes} (h : Denotes bytes v) : read bytes = .ok v :=
      read_eq_ok_iff.mpr ⟨v, h, (settle_of_normal hnormal).symm⟩
    obtain rfl : v.compact = s :=
      Except.ok.inj ((decode_of_read hread false).symm.trans hdecode)
    refine ⟨decode_of_read (hback hcompact) false, ⟨v.pretty, decode_of_read hread true,
      decode_of_read (hback hcompact) true, decode_of_read (hback hpretty) false⟩, v, hcompact,
      hnormal, ?_⟩
    rw [same_iff, hv, settle_of_normal hnormal]

/-- Escapes of every kind, white space, and one key twice. -/
def respelled : String :=
  " \x7b\"b\" : 1,\t\"\\uD83D\\ude00\":[ -7 ,null ],\n\"b\":\"\\/\\u00e9\\b\"\x7d"

def respelledDocument : Json :=
  .obj [("b", .int 1), ("😀", .arr [.int (-7), .null]), ("b", .str "/é\x08")]

theorem denotes_respelled : Denotes (Utf8.encode respelled) respelledDocument := by
  have hspace {s t : Text} (h : White s t) : White (.char ' ' :: s) t := .step (by decide) h
  have hb {s : Text} : Chars (.char 'b' :: .char '"' :: s) "b".toList s :=
    .plain (by decide) (by decide) (by decide) .quote
  have hsmile {s : Text} : Chars (spelled "\\uD83D\\ude00\"".toList ++ s) "😀".toList s :=
    .escape (.pair (by decide) rfl rfl
      (.mk (w := 13) (x := 8) (y := 3) (z := 13) (by decide) (by decide) (by decide) (by decide))
      (.mk (w := 13) (x := 14) (y := 0) (z := 0) (by decide) (by decide) (by decide)
        (by decide))) .quote
  have hslash {s : Text} : Chars (spelled "\\/\\u00e9\\b\"".toList ++ s) "/é\x08".toList s :=
    .escape (.letter (by decide)) (.escape (.code (c := 'é')
      (.mk (w := 0) (x := 0) (y := 14) (z := 9) (by decide) (by decide) (by decide) (by decide)))
        (.escape (.letter (by decide)) .quote))
  have hone {t : Text} : IsNumeral (.char '1' :: t) (.int 1) t :=
    .mk (l := ⟨false, ['1'], [], none⟩) .none (.digits (by decide) (.last (by decide))) .none .none
      (.int (.natural rfl rfl rfl (by decide)))
  have hseven {t : Text} : IsNumeral (.char '-' :: .char '7' :: t) (.int (-7)) t :=
    .mk (l := ⟨true, ['7'], [], none⟩) .minus (.digits (by decide) (.last (by decide))) .none .none
      (.int (.negative rfl rfl rfl (by decide) (by decide)))
  have harr {s : Text} :
      Spelled 126 (spelled "[ -7 ,null ]".toList ++ s) (.arr [.int (-7), .null]) s :=
    .inr (.inl ⟨_, _, rfl, rfl, .some (.more (hspace .stop) (spelled_of_scalar (.num hseven))
      (hspace .stop) (.last .stop (spelled_of_scalar .null) (hspace .stop)))⟩)
  exact ⟨respelled.toList, _, [], rfl, hspace .stop, .inr (.inr ⟨_, _, rfl, rfl, .some
    (.more .stop (.mk hb (hspace .stop) (hspace .stop) (spelled_of_scalar (.num hone))) .stop
      (.more (.step (by decide) .stop) (.mk hsmile .stop .stop harr) .stop
        (.last (.step (by decide) .stop)
          (.mk hb .stop .stop (spelled_of_scalar (.str hslash))) .stop)))⟩), .stop⟩

/-- The same document in compact form. -/
def rewritten : String := "\x7b\"b\":\"/é\\b\",\"😀\":[-7,null]\x7d"

theorem compact_respelledDocument : respelledDocument.settle.compact = rewritten := by
  have hseven : Numeral.ofInt (-7) = ['-', '7'] := by
    change '-' :: Numeral.ofNat 7 = _
    rw [Numeral.ofNat]
    rfl
  have hsettle : respelledDocument.settle =
      .obj [("b", .str "/é\x08"), ("😀", .arr [.int (-7), .null])] := by
    have hlt : "b" < "😀" := by decide
    have hgt : ¬ "😀" < "b" := by decide
    have hself : ¬ "b" < "b" := by decide
    simp only [respelledDocument, settle, settleItems, settleMembers, object, Keyed.ofList,
      Keyed.insert, int, List.foldl, hlt, hgt, hself, if_true, if_false]
  have hwritten : respelledDocument.settle.writeCompact = rewritten.toList := by
    rw [hsettle]
    simp [writeCompact, writeMembers, writeItems, writeString, escapeChar, int, Number.write,
      hseven, rewritten]
  rw [compact, hwritten, String.ofList_toList]

theorem decode_stable_of_respelled :
    (∃! doc, Denotes (Utf8.encode respelled) doc) ∧
      Denotes (Utf8.encode respelled) respelledDocument ∧ respelledDocument.settle.Integral ∧
      (Decoder.json false).decode (Utf8.encode respelled) = .ok rewritten ∧
      (Decoder.json false).decode (Utf8.encode rewritten) = .ok rewritten ∧
      (∃ p, (Decoder.json true).decode (Utf8.encode respelled) = .ok p ∧
        (Decoder.json true).decode (Utf8.encode rewritten) = .ok p ∧
        (Decoder.json false).decode (Utf8.encode p) = .ok rewritten) ∧
      ∃ doc', Denotes (Utf8.encode rewritten) doc' ∧ doc'.Normal ∧
        respelledDocument.Same doc' := by
  have hints : respelledDocument.Integral := by
    refine .obj ?_
    simp only [List.forall_mem_cons]
    refine ⟨.int ⟨by decide, by decide⟩, .arr ?_, .str _, nofun⟩
    simp only [List.forall_mem_cons]
    exact ⟨.int ⟨by decide, by decide⟩, .null, nofun⟩
  have hread : read (Utf8.encode respelled) = .ok respelledDocument.settle :=
    read_eq_ok_iff.mpr ⟨_, denotes_respelled, rfl⟩
  have hdecode : (Decoder.json false).decode (Utf8.encode respelled) = .ok rewritten :=
    (decode_of_read hread false).trans (congrArg Except.ok compact_respelledDocument)
  obtain ⟨haccepted, hstable⟩ := decode_stable (Utf8.encode respelled)
  exact ⟨haccepted.mp ⟨rewritten, hdecode⟩, denotes_respelled, hints.settle, hdecode,
    hstable denotes_respelled hints.settle hdecode⟩

end TopicView.Json
