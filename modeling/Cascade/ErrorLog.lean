import Cascade.Value

/-!
The record of failures: the messages of each command in the order of arrival, the commands in the
order of their first failure.
-/

namespace Cascade

/-- Messages by command. -/
structure ErrorLog where
  entries : Entries (List String)

namespace ErrorLog

def empty : ErrorLog := ⟨[]⟩

def get (log : ErrorLog) (command : String) : List String :=
  (log.entries.get? command).getD []

/-- Records one more message of a command. -/
def add (command message : String) (log : ErrorLog) : ErrorLog :=
  ⟨log.entries.put command (log.get command ++ [message])⟩

def size (log : ErrorLog) : Nat :=
  log.entries.foldl (fun size entry => size + entry.2.length) 0

def isEmpty (log : ErrorLog) : Bool :=
  log.entries.isEmpty

theorem get_add_self (command message : String) (log : ErrorLog) :
    (log.add command message).get command = log.get command ++ [message] := by
  simp [add, get, Entries.get?_put_self]

theorem get_add_of_ne {command other : String} (h : other ≠ command) (message : String)
    (log : ErrorLog) : (log.add command message).get other = log.get other := by
  simp [add, get, Entries.get?_put_of_ne h]

end ErrorLog

end Cascade
