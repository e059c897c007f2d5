import ProofHarness.Json.Token

/-!
# Reading JSON texts

Reading a value of a known form from tokens.  A reader gets the tokens from its value on and gives
the value with the number of tokens read; a fault stops it.  Values of fields that are not known
are passed over, however deep they are.
-/

set_option autoImplicit false

namespace ProofHarness.Json

/-- A reader of values. -/
abbrev Reader (α : Type) := List Token → Except Fault (α × Nat)

/-! ## Passing over a value -/

/-- What may come next while a value is passed over. -/
inductive Next where
  | value
  /-- The first member of the innermost bracket, or its end. -/
  | first
  /-- A comma, or the end of the innermost bracket. -/
  | more
  | key
  | colon
  deriving DecidableEq, Repr

/-- The fault of a missing comma in a bracket, or of the end of the text there. -/
def commaFault (bracket : Char) (t : Token) : Fault :=
  if bracket == '[' then t.refused .endInList .listCommaExpected
  else t.refused .endInObject .objectCommaExpected

/-- The step that a value begins with. -/
def passValue (open_ : List Char) (t : Token) : Except Fault (List Char × Next) :=
  if t.starts '[' then .ok ('[' :: open_, .first)
  else if t.starts '\x7b' then .ok ('\x7b' :: open_, .first)
  else if t.isLiteral then
    match t.passing with
    | some f => .error f
    | none => .ok (open_, .more)
  else .error (t.refused .endInValue .valueExpected)

/-- The step of a key. -/
def passKey (open_ : List Char) (t : Token) : Except Fault (List Char × Next) :=
  if t.starts '\x22' then
    match t.passing with
    | some f => .error f
    | none => .ok (open_, .colon)
  else .error (t.refused .endInObject .keyExpected)

/-- Whether a token closes a bracket. -/
def closes (bracket : Char) (t : Token) : Bool :=
  t.starts (if bracket == '[' then ']' else '\x7d')

/-- One step of passing over a value, with the open brackets. -/
def passStep (open_ : List Char) (next : Next) (t : Token) : Except Fault (List Char × Next) :=
  match next, open_ with
  | .value, _ => passValue open_ t
  | .key, _ => passKey open_ t
  | .colon, _ =>
    if t.starts ':' then .ok (open_, .value) else .error (t.refused .endInObject .colonExpected)
  | .first, bracket :: outer =>
    if closes bracket t then .ok (outer, .more)
    else if t.symbol.isNone then .error (commaFault bracket t)
    else if bracket == '[' then passValue open_ t
    else passKey open_ t
  | .more, bracket :: outer =>
    if closes bracket t then .ok (outer, .more)
    else if t.starts ',' then .ok (open_, if bracket == '[' then .value else .key)
    else .error (commaFault bracket t)
  | _, [] => passValue [] t

/-- Passes over a value, with the open brackets; gives the number of tokens. -/
def passFrom : List Char → Next → List Token → Except Fault Nat
  | _, _, [] => .ok 0
  | open_, next, t :: ts =>
    (passStep open_ next t).bind fun r =>
      if r.1.isEmpty && r.2 == .more then .ok 1 else (passFrom r.1 r.2 ts).map (· + 1)

/-- Passes over a value. -/
def pass : Reader Unit := fun ts => (passFrom [] .value ts).map fun n => ((), n)

/-! ## Simple values -/

/-- The fault of a value of another form than the expected one. -/
def wrongType (expected : String) (t : Token) : Fault :=
  if t.starts '[' then ⟨.wrongType "sequence" expected, t.start⟩
  else if t.starts '\x7b' then ⟨.wrongType "map" expected, t.start⟩
  else if t.isLiteral then
    match t.meaning with
    | .ok meant => ⟨.wrongType meant.described expected, t.stop⟩
    | .error f => f
  else t.refused .endInValue .valueExpected

/-- What a string token means. -/
def stringOf (expected : String) (t : Token) : Except Fault String :=
  if t.starts '\x22' then
    match t.meaning with
    | .ok (.string s) => .ok s
    | .ok _ => .error (wrongType expected t)
    | .error f => .error f
  else .error (wrongType expected t)

/-- Reads a string. -/
def readString (expected : String) : Reader String
  | [] => .error ⟨.endInValue, 0⟩
  | t :: _ => (stringOf expected t).map fun s => (s, 1)

/-- Reads a string or `null`. -/
def readNullable : Reader (Option String)
  | [] => .error ⟨.endInValue, 0⟩
  | t :: _ =>
    if t.starts 'n' then t.meaning.map fun _ => (none, 1)
    else (stringOf "a string" t).map fun s => (some s, 1)

/-- The strings of a list from its `first` member on, from a comma or end on (`more`), or from a
member on that has to be there (`value`). -/
def stringsFrom : Next → List Token → Except Fault (List String × Nat)
  | _, [] => .ok ([], 0)
  | next, t :: ts =>
    let member : Except Fault (List String × Nat) :=
      (stringOf "a string" t).bind fun s =>
        (stringsFrom .more ts).map fun r => (s :: r.1, r.2 + 1)
    match next with
    | .more =>
      if t.starts ']' then .ok ([], 1)
      else if t.starts ',' then (stringsFrom .value ts).map fun r => (r.1, r.2 + 1)
      else .error (t.refused .endInList .listCommaExpected)
    | .first =>
      if t.starts ']' then .ok ([], 1)
      else if t.symbol.isNone then .error ⟨.endInList, t.peek⟩
      else member
    | _ => if t.starts ']' then .error ⟨.trailingComma, t.peek⟩ else member

/-- Reads a list of strings. -/
def readStrings : Reader (List String)
  | [] => .error ⟨.endInValue, 0⟩
  | t :: ts =>
    if t.starts '[' then (stringsFrom .first ts).map fun r => (r.1, r.2 + 1)
    else .error (wrongType "a sequence" t)

/-! ## Variants -/

/-- The variant with a given name, where the name ends at the place `offset`. -/
def variantNamed {α : Type} (variants : List (String × α)) (name : String) (offset : Nat) :
    Except Fault α :=
  match variants.find? fun v => v.1 == name with
  | some v => .ok v.2
  | none => .error ⟨.unknownVariant name, offset⟩

/-- The rest of a variant that is written as the only key of an object, with `null` as its value.
-/
def variantTail : List Token → Except Fault Unit
  | colon :: value :: brace :: _ =>
    if !colon.starts ':' then .error (colon.refused .endInObject .colonExpected)
    else if !value.starts 'n' then .error (wrongType "unit" value)
    else
      match value.meaning with
      | .error f => .error f
      | .ok _ =>
        if brace.starts '\x7d' then .ok ()
        else if brace.symbol.isNone then .error ⟨.endInObject, brace.start⟩
        else .error ⟨.valueExpected, brace.start⟩
  | colon :: value :: _ =>
    if !colon.starts ':' then .error (colon.refused .endInObject .colonExpected)
    else .error (wrongType "unit" value)
  | t :: _ => .error (t.refused .endInObject .colonExpected)
  | [] => .ok ()

/-- Reads one of several variants. -/
def readVariant {α : Type} (variants : List (String × α)) : Reader α
  | t :: ts =>
    if t.starts '\x22' then
      (stringOf "variant identifier" t).bind fun name =>
        (variantNamed variants name t.stop).map fun v => (v, 1)
    else if t.starts '\x7b' then
      match ts with
      | name :: rest =>
        (stringOf "variant identifier" name).bind fun text =>
          (variantNamed variants text name.stop).bind fun v =>
            (variantTail rest).map fun _ => (v, 5)
      | [] => .error ⟨.endInValue, t.stop⟩
    else .error (t.refused .endInValue .valueExpected)
  | [] => .error ⟨.endInValue, 0⟩

/-! ## Records -/

/-- A field of a record: its name, and a reader of what its value changes in the record. -/
structure Field (α : Type) where
  name : String
  read : Reader (α → α)

/-- Whether the members of a record may go on. -/
def memberFault? (next : Next) (t : Token) : Option Fault :=
  match next with
  | .first =>
    if t.symbol.isNone then some ⟨.endInObject, t.peek⟩
    else if t.starts '\x22' then none
    else some ⟨.keyExpected, t.peek⟩
  | _ =>
    if t.starts '\x22' then none
    else if t.starts '\x7d' then some ⟨.trailingComma, t.peek⟩
    else some (t.refused .endInValue .keyExpected)

/-- The place that is reported for a key which was there before: in front of the next token, or
after it if it closes the record. -/
def afterKey : List Token → Nat
  | [] => 0
  | t :: _ => if t.starts '\x7d' then t.stop else t.start

/-- The value of a member after its key: a colon and the value. -/
def memberValue {α : Type} (fields : List (Field α)) (seen : List String) (key : String) :
    Reader (α → α)
  | [] => .ok (id, 0)
  | colon :: ts =>
    let field? := fields.find? fun f => f.name == key
    if field?.isSome && seen.contains key then
      .error ⟨.duplicateField key, afterKey (colon :: ts)⟩
    else if !colon.starts ':' then .error (colon.refused .endInObject .colonExpected)
    else
      match field? with
      | some f => (f.read ts).map fun r => (r.1, r.2 + 1)
      | none => (pass ts).map fun r => (id, r.2 + 1)

/-- The members of a record between braces, `skip` tokens of which belong to the member before;
`seen` are the keys so far. -/
def membersFrom {α : Type} (fields : List (Field α)) :
    Nat → Next → List String → α → List Token → Except Fault (α × Nat)
  | _, _, _, value, [] => .ok (value, 0)
  | skip + 1, next, seen, value, _ :: ts =>
    (membersFrom fields skip next seen value ts).map fun r => (r.1, r.2 + 1)
  | 0, .more, seen, value, t :: ts =>
    if t.starts '\x7d' then .ok (value, 1)
    else if t.starts ',' then
      (membersFrom fields 0 .key seen value ts).map fun r => (r.1, r.2 + 1)
    else .error (t.refused .endInObject .objectCommaExpected)
  | 0, next, seen, value, t :: ts =>
    if next == .first && t.starts '\x7d' then .ok (value, 1)
    else
      match memberFault? next t with
      | some f => .error f
      | none =>
        (stringOf "" t).bind fun key =>
          (memberValue fields seen key ts).bind fun change =>
            (membersFrom fields change.2 .more (key :: seen) (change.1 value) ts).map fun r =>
              (r.1, r.2 + 1)

/-- The end of a record that is written as a list, where all its fields have been read. -/
def listEnd : List Token → Except Fault Nat
  | [] => .ok 0
  | t :: ts =>
    if t.starts ']' then .ok 1
    else if t.starts ',' then
      match ts with
      | u :: _ => .error ⟨if u.starts ']' then .trailingComma else .trailingCharacters, u.peek⟩
      | [] => .error ⟨.trailingCharacters, t.peek⟩
    else .error (t.refused .endInList .trailingCharacters)

/-- The fields of a record that is written as a list, in their order; fields at the end may be
missing. -/
def positionsFrom {α : Type} : List (Field α) → Next → α → List Token → Except Fault (α × Nat)
  | [], _, value, ts => (listEnd ts).map fun n => (value, n)
  | f :: fields, next, value, ts =>
    match ts with
    | [] => .ok (value, 0)
    | t :: rest =>
      if t.starts ']' then .ok (value, 1)
      else if next == .first then
        if t.symbol.isNone then .error ⟨.endInList, t.peek⟩
        else
          (f.read ts).bind fun r =>
            (positionsFrom fields .more (r.1 value) (ts.drop r.2)).map fun s => (s.1, s.2 + r.2)
      else if t.starts ',' then
        match rest with
        | [] => .ok (value, 1)
        | u :: _ =>
          if u.starts ']' then .error ⟨.trailingComma, u.peek⟩
          else if u.symbol.isNone then .error ⟨.endInValue, u.peek⟩
          else
            (f.read rest).bind fun r =>
              (positionsFrom fields .more (r.1 value) (rest.drop r.2)).map fun s =>
                (s.1, s.2 + r.2 + 1)
      else .error (t.refused .endInList .listCommaExpected)

/-- Reads a record of the given title and fields; a field that is missing keeps its value. -/
def readRecord {α : Type} (title : String) (fields : List (Field α)) (value : α) : Reader α
  | [] => .error ⟨.endInValue, 0⟩
  | t :: ts =>
    if t.starts '\x7b' then
      (membersFrom fields 0 .first [] value ts).map fun r => (r.1, r.2 + 1)
    else if t.starts '[' then
      (positionsFrom fields .first value ts).map fun r => (r.1, r.2 + 1)
    else .error (wrongType title t)

/-- The value that a text consists of. -/
def readText {α : Type} (read : Reader α) (text : String) : Except Fault α :=
  let ts := tokens text
  (read ts).bind fun r =>
    match ts.drop r.2 with
    | t :: _ => if t.symbol.isNone then .ok r.1 else .error ⟨.trailingCharacters, t.peek⟩
    | [] => .ok r.1

end ProofHarness.Json
