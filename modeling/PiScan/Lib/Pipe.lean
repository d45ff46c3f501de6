/-!
# Pipes

A pipe takes items in at one end and gives them out at the other, in order.
`Pipe α` records what has entered, what has left and what it holds, with the
balance of the three as a field; putting items in and taking any number of them
out are its only operations, so after any sequence of them nothing is lost,
doubled or out of order (`Pipe.left_prefix`).
-/

namespace Pipes

variable {α : Type}

structure Pipe (α : Type) where
  entered : List α
  left : List α
  held : List α
  balanced : left ++ held = entered

namespace Pipe

def empty : Pipe α where
  entered := []
  left := []
  held := []
  balanced := rfl

def put (p : Pipe α) (xs : List α) : Pipe α where
  entered := p.entered ++ xs
  left := p.left
  held := p.held ++ xs
  balanced := by rw [← List.append_assoc, p.balanced]

/-- The next `n` items leave, or all that there are. -/
def take (p : Pipe α) (n : Nat) : Pipe α where
  entered := p.entered
  left := p.left ++ p.held.take n
  held := p.held.drop n
  balanced := by rw [List.append_assoc, List.take_append_drop, p.balanced]

/-- What has left a pipe is the beginning of what has entered it. -/
theorem left_prefix (p : Pipe α) : p.left <+: p.entered := ⟨p.held, p.balanced⟩

end Pipe

end Pipes
