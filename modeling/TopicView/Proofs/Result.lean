import TopicView.Result

/-!
# Steps of results

A sequence of steps returns when each of them does, and otherwise comes to what the first one comes
to that does not.
-/

namespace TopicView.Result

variable {ε ε' α β : Type}

@[simp] theorem pure_eq (a : α) : (pure a : Result ε α) = ok a := rfl

@[simp] theorem ok_bind (a : α) (f : α → Result ε β) : ok a >>= f = f a := rfl

@[simp] theorem error_bind (e : ε) (f : α → Result ε β) : error e >>= f = error e := rfl

@[simp] theorem crash_bind (f : α → Result ε β) : (crash : Result ε α) >>= f = crash := rfl

@[simp] theorem lift_ok (a : α) : (liftM (Except.ok a : Except ε α) : Result ε α) = ok a := rfl

@[simp] theorem lift_error (e : ε) : (liftM (Except.error e : Except ε α) : Result ε α) = error e :=
  rfl

@[simp] theorem lift_some (a : α) : (liftM (some a) : Result ε α) = ok a := rfl

@[simp] theorem lift_none : (liftM (none : Option α) : Result ε α) = crash := rfl

@[simp] theorem map_ok (f : α → β) (a : α) : f <$> (ok a : Result ε α) = ok (f a) := rfl

@[simp] theorem map_error (f : α → β) (e : ε) : f <$> (error e : Result ε α) = error e := rfl

@[simp] theorem map_crash (f : α → β) : f <$> (crash : Result ε α) = crash := rfl

instance : LawfulMonad (Result ε) :=
  LawfulMonad.mk' _ (fun x ↦ by cases x <;> rfl) (fun _ _ ↦ rfl) (fun x _ _ ↦ by cases x <;> rfl)

theorem mapM_eq_ok {l : List α} {f : α → Result ε β} {g : α → β} (h : ∀ a ∈ l, f a = ok (g a)) :
    l.mapM f = ok (l.map g) := by
  induction l with
  | nil => rfl
  | cons a l ih =>
      obtain ⟨hhead, htail⟩ := List.forall_mem_cons.mp h
      rw [List.mapM_cons, hhead, ih htail]
      rfl

variable {x : Result ε α} {f : α → Result ε β} {b : β}

theorem bind_eq_ok_iff : x >>= f = ok b ↔ ∃ a, x = ok a ∧ f a = ok b := by
  cases x <;> simp

theorem bind_eq_error_iff {e : ε} :
    x >>= f = error e ↔ x = error e ∨ ∃ a, x = ok a ∧ f a = error e := by
  cases x <;> simp

theorem bind_eq_crash_iff : x >>= f = crash ↔ x = crash ∨ ∃ a, x = ok a ∧ f a = crash := by
  cases x <;> simp

theorem map_eq_ok_iff {g : α → β} : g <$> x = ok b ↔ ∃ a, x = ok a ∧ g a = b := by
  cases x <;> simp

theorem map_eq_crash_iff {g : α → β} : g <$> x = crash ↔ x = crash := by
  cases x <;> simp

theorem lift_eq_ok_iff {x : Except ε α} {a : α} : (liftM x : Result ε α) = ok a ↔ x = .ok a := by
  cases x <;> simp

theorem lift_option_eq_ok_iff {x : Option α} {a : α} :
    (liftM x : Result ε α) = ok a ↔ x = some a := by
  cases x <;> simp

@[simp] theorem lift_mapError (g : ε → ε') (x : Except ε α) :
    (liftM (x.mapError g) : Result ε' α) = (liftM x : Result ε α).mapError g := by
  cases x <;> rfl

@[simp] theorem mapError_eq_ok_iff {g : ε → ε'} {a : α} : x.mapError g = ok a ↔ x = ok a := by
  cases x <;> simp [mapError]

@[simp] theorem mapError_eq_crash_iff {g : ε → ε'} : x.mapError g = crash ↔ x = crash := by
  cases x <;> simp [mapError]

end TopicView.Result
