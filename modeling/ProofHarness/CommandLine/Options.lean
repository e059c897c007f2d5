import ProofHarness.Text.Search

/-!
# Options on a command line

Taking a list of words apart into options and other words.  An option is written with two dashes
and a name, or with one dash and a letter; its value follows in the same word or is the next one,
which must not look like an option itself.  Two dashes alone end the options.  The words are read
from left to right, and the first thing that is wrong, or asks for help, ends the reading.
-/

set_option autoImplicit false

namespace ProofHarness.CommandLine

open Text

/-- An option that can be given. -/
structure Switch where
  name : String
  letter : Option Char
  /-- Whether it takes a value. -/
  valued : Bool
  /-- Whether it can be given more than once. -/
  repeatable : Bool
  /-- Whether a value can be used. -/
  accepts : String → Bool

/-- The option that asks for help. -/
def helpSwitch : Switch := ⟨"help", some 'h', false, true, fun _ => true⟩

/-- What a list of words consists of. -/
inductive Item where
  | flag (name : String)
  | value (name value : String)
  | word (text : String)
  deriving DecidableEq, Repr

/-- Why the words are not followed. -/
inductive Stop where
  | help
  | misuse
  deriving DecidableEq, Repr

/-- The items of one word, the options given so far, and the option that waits for its value. -/
structure Progress where
  items : List Item
  given : List String
  waiting : Option Switch

/-- Whether a word looks like an option. -/
def isOption (word : String) : Bool := word != "-" && "-".toList.isPrefixOf word.toList

/-- Whether an option may not be given now. -/
def isRefused (given : List String) (s : Switch) : Bool :=
  !s.repeatable && given.contains s.name

/-- The step of an option with its value. -/
def valueStep (given : List String) (s : Switch) (value : String) : Except Stop Progress :=
  if isRefused given s || !s.accepts value then .error .misuse
  else .ok ⟨[.value s.name value], s.name :: given, none⟩

/-- The step of an option without a value. -/
def flagStep (given : List String) (s : Switch) : Except Stop Progress :=
  if isRefused given s then .error .misuse
  else if s.name == "help" then .error .help
  else .ok ⟨[.flag s.name], s.name :: given, none⟩

/-- The step of a word with two dashes, without the dashes. -/
def longStep (switches : List Switch) (given : List String) (text : List Char) :
    Except Stop Progress :=
  let (name, value?) :=
    match splitOnce ['='] text with
    | some (name, value) => (name, some value)
    | none => (text, none)
  match switches.find? fun s => s.name.toList == name with
  | none => .error .misuse
  | some s =>
    match value? with
    | some value => if s.valued then valueStep given s (String.ofList value) else .error .misuse
    | none => if s.valued then .ok ⟨[], given, some s⟩ else flagStep given s

/-- The step of the letters after one dash. -/
def lettersStep (switches : List Switch) : List String → List Char → Except Stop Progress
  | given, [] => .ok ⟨[], given, none⟩
  | given, c :: cs =>
    match switches.find? fun s => s.letter == some c with
    | none => .error .misuse
    | some s =>
      if s.valued then
        match cs with
        | [] => .ok ⟨[], given, some s⟩
        | d :: rest => valueStep given s (String.ofList (if d == '=' then rest else cs))
      else
        (flagStep given s).bind fun step =>
          (lettersStep switches step.given cs).map fun later =>
            { later with items := step.items ++ later.items }

/-- The items of the words after two dashes, `count` words having been met before; `accepts` says
which words can stand where. -/
def plainItems (accepts : Nat → String → Bool) : Nat → List String → Except Stop (List Item)
  | _, [] => .ok []
  | count, w :: ws =>
    if accepts count w then (plainItems accepts (count + 1) ws).map (.word w :: ·)
    else .error .misuse

/-- The items of some words, with the option that waits for its value, the options given so far and
the number of other words so far. -/
def itemsFrom (switches : List Switch) (accepts : Nat → String → Bool) :
    Option Switch → List String → Nat → List String → Except Stop (List Item)
  | none, _, _, [] => .ok []
  | some _, _, _, [] => .error .misuse
  | some s, given, count, w :: ws =>
    if isOption w then .error .misuse
    else
      (valueStep given s w).bind fun step =>
        (itemsFrom switches accepts none step.given count ws).map (step.items ++ ·)
  | none, given, count, w :: ws =>
    if w == "--" then plainItems accepts count ws
    else if isOption w then
      let body := w.toList.drop 1
      let step :=
        match body with
        | '-' :: text => longStep switches given text
        | _ => lettersStep switches given body
      step.bind fun step =>
        (itemsFrom switches accepts step.waiting step.given count ws).map (step.items ++ ·)
    else if accepts count w then
      (itemsFrom switches accepts none given (count + 1) ws).map (.word w :: ·)
    else .error .misuse

/-- The items of some words. -/
def items (switches : List Switch) (accepts : Nat → String → Bool) (words : List String) :
    Except Stop (List Item) :=
  itemsFrom (helpSwitch :: switches) accepts none [] 0 words

/-- The value of an option among some items. -/
def valueOf? (name : String) (items : List Item) : Option String :=
  items.findSome? fun
    | .value n v => if n == name then some v else none
    | _ => none

/-- Whether a flag is among some items. -/
def hasFlag (name : String) (items : List Item) : Bool := items.contains (.flag name)

/-- The words among some items that are no options. -/
def wordsOf (items : List Item) : List String :=
  items.filterMap fun
    | .word w => some w
    | _ => none

end ProofHarness.CommandLine
