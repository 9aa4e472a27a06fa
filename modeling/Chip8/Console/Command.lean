import Chip8.Console.Step

/-! The operations of a console as data, so that histories are lists. -/

namespace Chip8

inductive Command
  | step (key : Option Int)
  | execute (word : Int)
  | run (count : Int)
  | tick
  | press (key : Int)
  | release (key : Int)
  | seen
deriving DecidableEq, Repr

inductive Reply
  | done
  | stepped (r : StepResult)
  | ran (again : Bool)
deriving DecidableEq, Repr

namespace Console

def apply (c : Console) : Command → Outcome Console Reply
  | .step key => let r := c.step key; (r.1.map .stepped, r.2)
  | .execute w => let r := c.execute w; (r.1.map fun _ => .done, r.2)
  | .run n => let r := c.run n; (r.1.map .ran, r.2)
  | .tick => (.ok .done, c.tick)
  | .press k => (.ok .done, c.press k)
  | .release k => (.ok .done, c.release k)
  | .seen => (.ok .done, { c with drawn := false })

/-- The console after a history. It goes on after a failure. -/
def after (c : Console) : List Command → Console
  | [] => c
  | d :: ds => (c.apply d).2.after ds

def replies (c : Console) : List Command → List (Except Fault Reply)
  | [] => []
  | d :: ds => (c.apply d).1 :: (c.apply d).2.replies ds

theorem after_append (c : Console) (ds es : List Command) :
    c.after (ds ++ es) = (c.after ds).after es := by
  induction ds generalizing c with
  | nil => rfl
  | cons d ds ih => simp [after, ih]

end Console

end Chip8
