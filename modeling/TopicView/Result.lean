/-!
# Results

What a step of the program comes to.  An error goes to the caller.  A crash, as where the result of
an addition is not a word, goes past everybody.
-/

namespace TopicView

inductive Result (ε α : Type)
  | ok (a : α)
  | error (e : ε)
  | crash
  deriving DecidableEq, Repr

namespace Result

variable {ε ε' α β : Type}

def bind : Result ε α → (α → Result ε β) → Result ε β
  | ok a, f => f a
  | error e, _ => error e
  | crash, _ => crash

instance : Monad (Result ε) where
  pure := ok
  bind := bind

def mapError (f : ε → ε') : Result ε α → Result ε' α
  | ok a => ok a
  | error e => error (f e)
  | crash => crash

instance : MonadLift (Except ε) (Result ε) where
  monadLift
    | .ok a => ok a
    | .error e => error e

/-- What should be there and is not makes the program crash. -/
instance : MonadLift Option (Result ε) where
  monadLift
    | some a => ok a
    | none => crash

end Result
end TopicView
