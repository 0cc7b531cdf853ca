import Cascade.Library.System

/-!
Demo commands, one for each way of reporting the end.
-/

namespace Cascade.Library.Greeting

/-- The parameters of a greeting; the callback is the last of them. -/
def helloSignature : Signature := ⟨"setup.<locals>.hello", ["whom", "done"], 0⟩

/-- Greets someone and calls back with whom. -/
def helloCode (config : Entries Value) : CommandCode where
  waits := false
  run arguments := do
    let parameters := arguments.parameters
    Action.ofExcept (helloSignature.check (parameters.length + 1))
    let given := parameters.head?.getD .null
    let whom := if given.isTrue then given else (config.get? "who").getD (.text "world")
    System.say .message ("Hello " ++ whom.toText ++ "!")
    .ask (.complete (.ok whom)) fun _ => return .value .null

def hello (config : Entries Value) : Draft :=
  { Draft.ofCode "hello" (helloCode config) with
    help := "Say Hello, hello(whom)"
    convention := some .callback }

/-- The element of a value under a name, in square brackets. -/
def element (value : Value) (name : String) : Except Fault Value :=
  match value with
  | .map entries =>
      match Entries.get? entries name with
      | some found => .ok found
      | none => .error (.because .key name)
  | .text _ => .error (.because .type "string indices must be integers, not 'str'")
  | other => .error (.because .type ("'" ++ other.kindName ++ "' object is not subscriptable"))

def welcomeSignature : Signature := ⟨"setup.<locals>.welcome", ["args"], 0⟩

def welcome : Draft :=
  { Draft.ofCode "welcome" {
      waits := true
      run := fun arguments => do
        let parameters := arguments.parameters
        Action.ofExcept (welcomeSignature.check parameters.length)
        return .awaitable false (Routine.ofAction do
          let name ← Action.ofExcept (element (parameters.head?.getD .null) "name")
          System.say .message ("Welcome " ++ name.toText ++ "!")
          return .null) } with
    help := "Say Welcome, welcome(name: 'randy')" }

/-- The parameters of a command that ignores what it may be given. -/
def ignoring (function : String) : Signature := ⟨"setup.<locals>." ++ function, [], 1⟩

/-- Says something and gives something to wait for that lasts one turn. -/
def foo : Draft :=
  { Draft.ofCode "foo" {
      waits := false
      run := fun arguments => do
        Action.ofExcept ((ignoring "foo").check arguments.parameters.length)
        System.say .message "Hello FOO!"
        return .awaitable false (.sleep .zero none fun _ => .finish .null) } with
    help := "Say FOO" }

def bar : Draft :=
  { Draft.ofCode "bar" {
      waits := false
      run := fun arguments => do
        Action.ofExcept ((ignoring "bar").check arguments.parameters.length)
        System.say .message "Hello BAR!"
        return .value .null } with
    help := "Say BAR" }

/-- Says something in a group of its own. -/
def dummy : Draft :=
  { Draft.ofCode "dummy" {
      waits := true
      run := fun arguments => do
        Action.ofExcept ((ignoring "dummy").check arguments.parameters.length)
        return .awaitable false (Routine.ofAction do
          System.say .message "dummy!"
          return .null) } with
    help := "async dummy demo"
    group := some "dummy" }

/-- The demo commands in the order of their registration, for a module's settings. -/
def drafts (config : Entries Value) : List Draft :=
  [hello config, welcome, foo, bar, dummy]

end Cascade.Library.Greeting
