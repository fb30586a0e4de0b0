/-!
# Reports

Messages about what an operation did without failing, in the order they arose.
-/

set_option autoImplicit false

namespace PoseRig

inductive Level where
  | info
  | warning
  | error
  deriving DecidableEq, Repr

structure Report where
  entries : List (Level × String) := []
  deriving DecidableEq, Repr, Inhabited

namespace Report

def info (message : String) : Report := ⟨[(.info, message)]⟩

def warning (message : String) : Report := ⟨[(.warning, message)]⟩

def error (message : String) : Report := ⟨[(.error, message)]⟩

def append (a b : Report) : Report := ⟨a.entries ++ b.entries⟩

instance : Append Report := ⟨append⟩

def messages (r : Report) (level : Level) : List String :=
  (r.entries.filter fun e => e.1 == level).map Prod.snd

def count (r : Report) (level : Level) : Nat := (r.messages level).length

def hasErrors (r : Report) : Bool := decide (0 < r.count .error)

theorem messages_append (a b : Report) (level : Level) :
    (a ++ b).messages level = a.messages level ++ b.messages level := by
  show (append a b).messages level = _
  simp [messages, append]

theorem count_append (a b : Report) (level : Level) :
    (a ++ b).count level = a.count level + b.count level := by
  rw [count, messages_append, List.length_append]
  rfl

@[simp] theorem hasErrors_append (a b : Report) :
    (a ++ b).hasErrors = (a.hasErrors || b.hasErrors) := by
  rw [hasErrors, count_append, hasErrors, hasErrors, ← Bool.decide_or]
  exact decide_eq_decide.mpr Nat.add_pos_iff_pos_or_pos

@[simp] theorem hasErrors_info (message : String) : (info message).hasErrors = false := rfl

@[simp] theorem hasErrors_error (message : String) : (error message).hasErrors = true := rfl

end Report

end PoseRig
