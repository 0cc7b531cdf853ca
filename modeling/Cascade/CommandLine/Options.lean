import Cascade.Files.Path
import Cascade.Text.Quoted

/-!
The words of a command line: options, which start with a hyphen, and invocations. Every word is
classified before anything is read from it. The invocations stand together; what follows a later option
is not one of them.
-/

namespace Cascade.CommandLine

/-- An option. -/
inductive Switch
  | help
  | config
  | modules
  | noExitOnError
  | showHidden
  | verbose
  deriving DecidableEq

namespace Switch

/-- Every option, in the order of the table. -/
def all : List Switch :=
  [.help, .config, .modules, .noExitOnError, .showHidden, .verbose]

def spellings : Switch → List String
  | help => ["-h", "--help"]
  | config => ["--config", "-c"]
  | modules => ["--modules", "-m"]
  | noExitOnError => ["--no-exit-on-error"]
  | showHidden => ["--show-hidden"]
  | verbose => ["--verbose", "-v"]

def takesValue : Switch → Bool
  | config | modules => true
  | _ => false

/-- The name of an option in messages: its spellings. -/
def label (switch : Switch) : String :=
  joined "/" switch.spellings

def table : List (List Char × Switch) :=
  all.flatMap fun switch => switch.spellings.map fun spelling => (spelling.toList, switch)

def ofSpelling? (spelling : List Char) : Option Switch :=
  (table.find? fun entry => entry.1 = spelling).map Prod.snd

def ofLetter? (letter : Char) : Option Switch :=
  ofSpelling? ['-', letter]

end Switch

/-- Why a command line cannot be read. -/
inductive Misuse
  | ambiguous (word : String) (spellings : List String)
  | missingValue (switch : Switch)
  | unexpectedValue (switch : Switch) (value : String)
  | unrecognized (words : List String)
  deriving DecidableEq

def Misuse.message : Misuse → String
  | ambiguous word spellings =>
      "ambiguous option: " ++ word ++ " could match " ++ joined ", " spellings
  | missingValue switch => "argument " ++ switch.label ++ ": expected one argument"
  | unexpectedValue switch value =>
      "argument " ++ switch.label ++ ": ignored explicit argument " ++ quoted value
  | unrecognized words => "unrecognized arguments: " ++ joined " " words

/-- A word as it is classified. An option may have a value in the same word. -/
inductive Word
  | plain (text : String)
  | separator
  | option (switch : Switch) (isLong : Bool) (attached : Option (List Char))
  | unknown (text : String)

namespace Word

/-- The text of a word that is no known option. -/
def text : Word → String
  | plain text | unknown text => text
  | separator => "--"
  | option _ _ _ => ""

def isLong (spelling : List Char) : Bool :=
  ['-', '-'].isPrefixOf spelling

/-- The part of a word before its first equals sign and the part after it, if it has one. -/
def cutValue (word : List Char) : List Char × Option (List Char) :=
  match word.dropWhile (· != '=') with
  | _ :: value => (word.takeWhile (· != '='), some value)
  | [] => (word, none)

/-- The spellings that a word may stand for, each with its option and the value in the word. A long one
may be cut short, and a letter may be followed by its value or by further letters. -/
def candidates (word : List Char) : List (List Char × Switch × Option (List Char)) :=
  if isLong word then
    let (start, value) := cutValue word
    (Switch.table.filter fun entry => start.isPrefixOf entry.1).map fun entry =>
      (entry.1, entry.2, value)
  else
    (Switch.table.filter fun entry => entry.1 = word.take 2).map fun entry =>
      (entry.1, entry.2, some (word.drop 2))

/-- The text without a line feed at its end. -/
def withoutLineEnd (text : List Char) : List Char :=
  if text.getLast? = some '\n' then text.dropLast else text

def isDigits (text : List Char) : Bool :=
  !text.isEmpty && text.all Text.Classes.isDecimal

/-- A hyphen and a number: digits, or digits behind a point. -/
def isNegativeNumber (word : List Char) : Bool :=
  match word with
  | '-' :: rest =>
      let number := withoutLineEnd rest
      match Text.Pieces.split '.' number with
      | [whole] => isDigits whole
      | [whole, fraction] => (whole.isEmpty || isDigits whole) && isDigits fraction
      | _ => false
  | _ => false

/-- Classifies a word that starts with a hyphen and is no spelling. -/
def classifyOther (word : List Char) : Except Misuse Word :=
  let text := String.ofList word
  match candidates word with
  | [(spelling, switch, value)] => .ok (.option switch (isLong spelling) value)
  | [] => .ok (if isNegativeNumber word || word.contains ' ' then .plain text else .unknown text)
  | several =>
      .error (.ambiguous text (several.map fun candidate => String.ofList candidate.1))

/-- Classifies a word other than the separator. -/
def classify (text : String) : Except Misuse Word :=
  match text.toList with
  | [] | ['-'] => .ok (.plain text)
  | '-' :: rest =>
      let word := '-' :: rest
      let (start, value) := cutValue word
      match Switch.ofSpelling? word, Switch.ofSpelling? start with
      | some switch, _ => .ok (.option switch (isLong word) none)
      | none, some switch => .ok (.option switch (isLong start) value)
      | none, none => classifyOther word
  | _ => .ok (.plain text)

/-- Classifies the words of a command line. After a separator no word is an option. -/
def classifyAll : List String → Except Misuse (List Word)
  | [] => .ok []
  | "--" :: rest => .ok (.separator :: rest.map Word.plain)
  | text :: rest => do
      let word ← classify text
      let words ← classifyAll rest
      return word :: words

end Word

/-- The options in one word: letters without a value, and the last option with the value in the word. -/
structure Cluster where
  before : List Switch
  last : Switch
  attached : Option (List Char)

namespace Cluster

/-- Reads the characters behind an option's letter: its value, or further letters. -/
def readLetters (before : List Switch) (switch : Switch) :
    List Char → Except Misuse Cluster
  | [] => .ok ⟨before, switch, none⟩
  | letter :: rest =>
      if switch.takesValue then .ok ⟨before, switch, some (letter :: rest)⟩
      else
        match Switch.ofLetter? letter with
        | some next => readLetters (before ++ [switch]) next rest
        | none => .error (.unexpectedValue switch (String.ofList (letter :: rest)))

def read (switch : Switch) (isLong : Bool) : Option (List Char) → Except Misuse Cluster
  | none => .ok ⟨[], switch, none⟩
  | some value =>
      if switch.takesValue then .ok ⟨[], switch, some value⟩
      else if isLong || value.isEmpty then
        .error (.unexpectedValue switch (String.ofList value))
      else readLetters [] switch value

end Cluster

/-- What a command line asks for. -/
structure Options where
  invocations : List String
  config : Option Path
  moduleDirectories : List Path
  exitOnError : Option Bool
  showHidden : Option Bool
  verbose : Bool

/-- Why a command line does not lead to a run: help was asked for, or it cannot be read. -/
inductive Ending
  | help
  | refused (misuse : Misuse)

namespace Options

def standard : Options := ⟨[], none, [], none, none, false⟩

def apply (options : Options) (value : String) : Switch → Except Ending Options
  | .help => .error .help
  | .config => .ok { options with config := some (Path.ofText value) }
  | .modules =>
      .ok { options with moduleDirectories := options.moduleDirectories ++ [Path.ofText value] }
  | .noExitOnError => .ok { options with exitOnError := some false }
  | .showHidden => .ok { options with showHidden := some true }
  | .verbose => .ok { options with verbose := true }

def applyAll (options : Options) (value : String) (cluster : Cluster) :
    Except Ending Options := do
  let options ← cluster.before.foldlM (fun options switch => options.apply "" switch) options
  options.apply value cluster.last

/-- The invocations among words that are no options: the first separator is left out. -/
def invocationsOf (words : List Word) : List String :=
  let start := words.takeWhile fun word =>
    match word with
    | .separator => false
    | _ => true
  (start ++ words.drop (start.length + 1)).map Word.text

/-- What has been read: the options, whether the invocations have been met, and the words that cannot be
used. -/
structure Progress where
  options : Options
  metInvocations : Bool
  unused : List String

/-- Takes a run of words that are no options. -/
def takeRun (progress : Progress) : List Word → Progress
  | [] => progress
  | words =>
      if progress.metInvocations then
        { progress with unused := progress.unused ++ words.map Word.text }
      else
        { progress with
            options := { progress.options with invocations := invocationsOf words }
            metInvocations := true }

/-- Reads classified words, with a run of words pending that are no options. -/
def readWords (progress : Progress) (pending : List Word) : List Word → Except Ending Progress
  | [] => .ok (takeRun progress pending)
  | .unknown text :: rest =>
      let progress := takeRun progress pending
      readWords { progress with unused := progress.unused ++ [text] } [] rest
  | .option switch isLong attached :: rest => do
      let progress := takeRun progress pending
      let cluster ← (Cluster.read switch isLong attached).mapError Ending.refused
      match cluster.last.takesValue, cluster.attached, rest with
      | true, none, .plain value :: rest =>
          let options ← progress.options.applyAll value cluster
          readWords { progress with options := options } [] rest
      | true, none, _ => .error (.refused (.missingValue cluster.last))
      | _, attached, rest =>
          let options ← progress.options.applyAll (String.ofList (attached.getD [])) cluster
          readWords { progress with options := options } [] rest
  | word :: rest => readWords progress (pending ++ [word]) rest

def read (words : List String) : Except Ending Options := do
  let words ← (Word.classifyAll words).mapError Ending.refused
  let progress ← readWords ⟨standard, false, []⟩ [] words
  if progress.unused.isEmpty then return progress.options
  else throw (.refused (.unrecognized progress.unused))

end Options

end Cascade.CommandLine
