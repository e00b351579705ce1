import StackDepth.Numeral.Literal
import StackDepth.Text.Quoted
import StackDepth.Text.Split

/-!
# Flags

A flag is written `--name value` or `--name=value`, or with its letter as `-x value`, `-xvalue` or
`-x=value`. A switch needs no value, so that several switches may share one dash. Flags and operands may be
mixed in any order; behind `--` everything is an operand. `Flag.parse` reads arguments one after the other
and stops at the first that is wrong.
-/

namespace StackDepth

namespace Command

/-- What a flag takes. -/
inductive FlagKind where
  /-- A truth value, true if it is left out. -/
  | switch
  /-- A whole number. -/
  | number
  /-- A text. -/
  | text
deriving DecidableEq, Inhabited

/-- A flag. -/
structure Flag where
  /-- The name behind two dashes. -/
  name : String
  /-- What the flag takes. -/
  kind : FlagKind
  /-- The letter behind one dash. -/
  letter : Option Char := none
deriving DecidableEq, Inhabited

/-- What a flag was set to. -/
inductive FlagValue where
  /-- A truth value. -/
  | switch (b : Bool)
  /-- A whole number. -/
  | number (n : Int)
  /-- A text. -/
  | text (s : String)
deriving DecidableEq, Inhabited

/-- Why a text cannot be the value of a flag. -/
inductive ValueError where
  /-- It is no whole number. -/
  | badNumber (text : String)
  /-- It is a whole number of more than 64 bits. -/
  | largeNumber (text : String)
  /-- It is no truth value. -/
  | badTruth (text : String)
deriving DecidableEq, Inhabited

/-- The text of an error. -/
def ValueError.message : ValueError → String
  | .badNumber text => "strconv.ParseInt: parsing " ++ Text.quoted text ++ ": invalid syntax"
  | .largeNumber text => "strconv.ParseInt: parsing " ++ Text.quoted text ++ ": value out of range"
  | .badTruth text => "strconv.ParseBool: parsing " ++ Text.quoted text ++ ": invalid syntax"

/-- Why an argument cannot be read. -/
inductive FlagError where
  /-- There is no name behind the dashes. -/
  | badForm (argument : String)
  /-- There is no flag of that name. -/
  | unknownName (name : String)
  /-- There is no flag of that letter. -/
  | unknownLetter (letter : Char) (letters : String)
  /-- The value behind a name is missing. -/
  | missingValue (name : String)
  /-- The value behind a letter is missing. -/
  | missingAfterLetter (letter : Char) (letters : String)
  /-- The value does not fit the flag. -/
  | badValue (flag : Flag) (value : String) (cause : ValueError)
deriving DecidableEq, Inhabited

/-- A letter between single quotes. -/
def quotedLetter (c : Char) : String :=
  "'" ++ (if c = '\'' then "\\'" else if c = '"' then "\"" else Text.quotedChar c) ++ "'"

/-- How a flag is named in errors. -/
def Flag.title (f : Flag) : String :=
  match f.letter with
  | some c => "-" ++ c.toString ++ ", --" ++ f.name
  | none => "--" ++ f.name

/-- The text of an error. -/
def FlagError.message : FlagError → String
  | .badForm argument => "bad flag syntax: " ++ argument
  | .unknownName name => "unknown flag: --" ++ name
  | .unknownLetter c letters => "unknown shorthand flag: " ++ quotedLetter c ++ " in -" ++ letters
  | .missingValue name => "flag needs an argument: --" ++ name
  | .missingAfterLetter c letters =>
      "flag needs an argument: " ++ quotedLetter c ++ " in -" ++ letters
  | .badValue flag value cause =>
      "invalid argument " ++ Text.quoted value ++ " for " ++ Text.quoted flag.title ++ " flag: " ++
        cause.message

/-- A truth value as it is written behind a switch. -/
def truth? : String → Option Bool
  | "1" | "t" | "T" | "true" | "TRUE" | "True" => some true
  | "0" | "f" | "F" | "false" | "FALSE" | "False" => some false
  | _ => none

/-- A flag that was set, and its value. -/
abbrev Setting : Type := String × FlagValue

namespace Flag

/-- The value of a text for a kind of flag. -/
def readValue (kind : FlagKind) (value : String) : Except ValueError FlagValue :=
  match kind with
  | .text => .ok (.text value)
  | .switch =>
      match truth? value with
      | some b => .ok (.switch b)
      | none => .error (.badTruth value)
  | .number =>
      match Numeral.literal value.toList with
      | .ok n => .ok (.number n)
      | .error .malformed => .error (.badNumber value)
      | .error .outOfRange => .error (.largeNumber value)

/-- Sets a flag to a text. -/
def set (f : Flag) (value : String) : Except FlagError Setting :=
  match readValue f.kind value with
  | .ok v => .ok (f.name, v)
  | .error cause => .error (.badValue f value cause)

/-- Reads what follows two dashes; `next` is the argument behind. Tells whether that argument was used. -/
def parseName (flags : List Flag) (argument : String) (body : List Char) (next : Option String) :
    Except FlagError (Setting × Bool) := do
  if body.isEmpty || body.head? == some '-' || body.head? == some '=' then throw (.badForm argument)
  let name := String.ofList (body.takeWhile (· ≠ '='))
  match flags.find? (·.name == name) with
  | none => throw (.unknownName name)
  | some f =>
      match Text.cutWith? (· == '=') body with
      | some (_, value) => return (← f.set (String.ofList value), false)
      | none =>
          if f.kind = .switch then return (← f.set "true", false)
          match next with
          | some value => return (← f.set value, true)
          | none => throw (.missingValue name)

/-- The first byte of a character in UTF-8, as a character. -/
def leadByte (c : Char) : Char :=
  match (String.singleton c).toUTF8.toList with
  | b :: _ => Char.ofNat b.toNat
  | [] => c

/-- Reads the letters behind one dash; `next` is the argument behind. Tells whether that argument was
used. -/
def parseLetters (flags : List Flag) (next : Option String) :
    List Char → Except FlagError (List Setting × Bool)
  | [] => .ok ([], false)
  | c :: rest => do
      let letters := String.ofList (c :: rest)
      match flags.find? (·.letter == some c) with
      | none => throw (.unknownLetter (leadByte c) letters)
      | some f =>
          match rest with
          | '=' :: d :: value => return ([← f.set (String.ofList (d :: value))], false)
          | _ =>
              if f.kind = .switch then
                let first ← f.set "true"
                let (more, used) ← parseLetters flags next rest
                return (first :: more, used)
              if !rest.isEmpty then return ([← f.set (String.ofList rest)], false)
              match next with
              | some value => return ([← f.set value], true)
              | none => throw (.missingAfterLetter c letters)

/-- Reads arguments: the flags in the order they were set, and the operands. -/
def parse (flags : List Flag) : List String → Except FlagError (List Setting × List String)
  | [] => .ok ([], [])
  | argument :: rest =>
      match argument.toList with
      | ['-', '-'] => .ok ([], rest)
      | '-' :: '-' :: body => do
          match rest with
          | [] =>
              let (s, _) ← parseName flags argument body none
              return ([s], [])
          | next :: rest =>
              let (s, used) ← parseName flags argument body (some next)
              let (settings, operands) ← if used then parse flags rest else parse flags (next :: rest)
              return (s :: settings, operands)
      | '-' :: c :: letters => do
          match rest with
          | [] =>
              let (s, _) ← parseLetters flags none (c :: letters)
              return (s, [])
          | next :: rest =>
              let (s, used) ← parseLetters flags (some next) (c :: letters)
              let (settings, operands) ← if used then parse flags rest else parse flags (next :: rest)
              return (s ++ settings, operands)
      | _ => do
          let (settings, operands) ← parse flags rest
          return (settings, argument :: operands)

end Flag

end Command

end StackDepth
