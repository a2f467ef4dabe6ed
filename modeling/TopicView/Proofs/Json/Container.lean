import Mathlib.Data.List.Forall2
import TopicView.Proofs.Json.Spacing

/-!
# Spaced containers

Where the grammar finds something in each part of a container, it finds the list of it in the
container, however the parts are spaced.
-/

namespace TopicView.Json

variable {α : Type} {R : Text → α → Text → Prop} {sp : Spacing}

/-- The characters spell the value whatever follows. -/
abbrev Spells (R : Text → α → Text → Prop) (cs : List Char) (a : α) : Prop :=
  ∀ t, R (spelled cs ++ t) a t

/-- Behind the first part stand the others, each behind a comma, and the bracket. -/
theorem series_spaced (sp : Spacing) (depth : Nat) {right : Char} {part : List Char}
    {parts : List (List Char)} {a : α} {as : List α} (hpart : Spells R part a)
    (h : List.Forall₂ (Spells R) parts as) (t : Text) :
    Series R right (spelled (sp.line (depth + 1) ++ part ++ sp.more (depth + 1) parts ++
      sp.line depth) ++ .char right :: t) (a :: as) t := by
  induction h generalizing part a with
  | nil =>
      have hgap := white_spelled (sp.isSpace_line depth) (.char right :: t)
      have hseries := Series.last (white_spelled (sp.isSpace_line (depth + 1)) _) (hpart _) hgap
      simpa [Spacing.more] using hseries
  | cons hnext _ ih =>
      have hseries := Series.more (white_spelled (sp.isSpace_line (depth + 1)) _) (hpart _) .stop
        (ih hnext)
      simpa [Spacing.more] using hseries

theorem enclosed_spaced (sp : Spacing) (left : Char) {right : Char} (depth : Nat)
    {parts : List (List Char)} {as : List α} (h : List.Forall₂ (Spells R) parts as) (t : Text) :
    ∃ s, spelled (sp.enclose left right depth parts) ++ t = .char left :: s ∧
      Enclosed R right s as t := by
  cases h with
  | nil => exact ⟨_, rfl, .none .stop⟩
  | cons hpart h =>
      refine ⟨_, ?_, .some (series_spaced sp depth hpart h t)⟩
      simp [Spacing.enclose]

theorem entry_spaced {key : String} {written : List Char} {a : α} (h : Spells R written a) :
    Spells (Entry R) (sp.member key written) (key, a) := by
  intro t
  obtain ⟨r, hr, hchars⟩ := exists_chars_of_written key
    (.char ':' :: (spelled sp.colon ++ (spelled written ++ t)))
  have hentry : Entry R (.char '"' :: r) (key, a) t :=
    .mk hchars .stop (white_spelled sp.isSpace_colon _) (h t)
  rw [← hr] at hentry
  simpa [Spacing.member] using hentry

end TopicView.Json
