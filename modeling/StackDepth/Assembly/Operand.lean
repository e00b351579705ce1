import StackDepth.Program.Basic

/-!
# Operands

Registers are written `r0` to `r31` or as a half of a pointer (`XL`, ..., `ZH`); the number behind `r`
may be in any notation. Pointers are written `X`, `X+`, `-X` or, for `Y` and `Z`, with a displacement
from 0 to 63. Constants are labels or numbers within a range, and the target of a relative transfer is
a label, a number, or a distance in bytes from the next instruction.
-/

namespace StackDepth

namespace Assembly

/-- Why an operand is refused. -/
inductive OperandError where
  /-- The number of operands is wrong. -/
  | count (want got : Nat)
  /-- The text names no register. -/
  | notRegister (text : String)
  /-- The pointer is missing. -/
  | missingPointer
  /-- The text starts with no pointer. -/
  | notPointer (text : String)
  /-- The text behind the pointer makes no sense. -/
  | badPointer (text : String)
  /-- `X` takes no displacement. -/
  | displacedX
  /-- The displacement is too large or negative. -/
  | displacement (q : Int)
  /-- The text is no number. -/
  | number (error : Numeral.Error)
  /-- The text is neither a label nor a number. -/
  | unknownLabel (text : String)
  /-- The constant lies outside its range. -/
  | outOfRange (text : String) (low high : Int)
  /-- The distance is odd. -/
  | oddDistance (text : String)
  /-- The target is odd. -/
  | oddTarget (text : String)
  /-- The target is too far away. -/
  | tooFar (text : String)
  /-- A register pair starts at an odd register. -/
  | oddPair
  /-- A multiplication needs upper registers, up to a last one. -/
  | upperRegisters (last : Nat)
  /-- The instruction needs an upper register. -/
  | serRegister
  /-- Immediates need an upper register. -/
  | immediateRegister
  /-- The instruction needs one of the last four pairs. -/
  | wordRegister
deriving DecidableEq, Inhabited

/-- The text of an error. -/
def OperandError.message : OperandError → String
  | .count want got =>
      "want " ++ Text.decimal want ++ " operands, got " ++ Text.decimal got
  | .notRegister text => Text.quoted text ++ " is not a register"
  | .missingPointer => "missing pointer register"
  | .notPointer text => Text.quoted text ++ " is not a pointer register"
  | .badPointer text => "bad pointer operand " ++ text
  | .displacedX => "X has no displacement form"
  | .displacement q => "displacement " ++ Text.decimal q ++ " out of range 0..63"
  | .number error => error.message
  | .unknownLabel text => "unknown label: " ++ Text.quoted text
  | .outOfRange text low high =>
      "operand " ++ text ++ " out of range " ++ Text.decimal low ++ ".." ++ Text.decimal high
  | .oddDistance text => "odd branch offset " ++ text
  | .oddTarget text => "misaligned instruction fetch: target " ++ text
  | .tooFar text => "target " ++ text ++ " out of range"
  | .oddPair => "register pairs must start at an even register"
  | .upperRegisters last => "operands must be in r16..r" ++ Text.decimal last
  | .serRegister => "SER needs r16..r31"
  | .immediateRegister => "immediate forms need r16..r31"
  | .wordRegister => "word immediate forms need r24, r26, r28 or r30"

/-! ### Registers -/

/-- The halves of the pointers by name. -/
def registerAlias? : String → Option Nat
  | "XL" => some 26
  | "XH" => some 27
  | "YL" => some 28
  | "YH" => some 29
  | "ZL" => some 30
  | "ZH" => some 31
  | _ => none

/-- The number of a register. A sign right behind the letter is refused. -/
def registerNumber? : List Char → Option Nat
  | 'R' :: c :: cs =>
      if c = '-' ∨ c = '+' then none
      else
        match Numeral.parseList (c :: cs) with
        | .ok n => if 0 ≤ n ∧ n < 32 then some n.toNat else none
        | .error _ => none
  | _ => none

/-- Reads a register. -/
def register (s : String) : Except OperandError Nat :=
  let upper := Text.toUpper (Text.trim s)
  match registerAlias? upper with
  | some r => .ok r
  | none =>
      match registerNumber? upper.toList with
      | some r => .ok r
      | none => .error (.notRegister s)

/-! ### Pointers -/

/-- How a pointer is used. -/
inductive PointerMode where
  /-- As it is. -/
  | plain
  /-- Incremented afterwards. -/
  | postIncrement
  /-- Decremented before. -/
  | preDecrement
  /-- With a displacement. -/
  | displaced (q : Int)
deriving DecidableEq, Inhabited

/-- A pointer operand. -/
structure Pointer where
  /-- The low register of the pointer. -/
  base : Nat
  /-- How it is used. -/
  mode : PointerMode
deriving DecidableEq, Inhabited

/-- The displacement, zero if there is none. -/
def Pointer.offset (p : Pointer) : Int :=
  match p.mode with
  | .displaced q => q
  | _ => 0

/-- The low register of a pointer by its letter. -/
def pointerBase? : Char → Option Nat
  | 'X' => some regX
  | 'Y' => some regY
  | 'Z' => some regZ
  | _ => none

/-- The mode that follows the letter of a pointer with low register `base`; `text` is the operand. -/
def pointerMode (base : Nat) (text : String) : List Char → Except OperandError PointerMode
  | [] => .ok .plain
  | ['+'] => .ok .postIncrement
  | '+' :: digits =>
      if base = regX then .error .displacedX
      else
        match Numeral.parseList digits with
        | .error e => .error (.number e)
        | .ok q => if 0 ≤ q ∧ q ≤ 63 then .ok (.displaced q) else .error (.displacement q)
  | _ => .error (.badPointer text)

/-- Reads a pointer. -/
def pointer (s : String) : Except OperandError Pointer :=
  let upper := (Text.toUpper (Text.trim s)).toList
  let (decrement, body) :=
    match upper with
    | '-' :: cs => (true, cs)
    | cs => (false, cs)
  let text := String.ofList body
  match body with
  | [] => .error .missingPointer
  | c :: rest =>
      match pointerBase? c with
      | none => .error (.notPointer text)
      | some base =>
          if decrement then
            if rest.isEmpty then .ok ⟨base, .preDecrement⟩ else .error (.badPointer ("-" ++ text))
          else (pointerMode base text rest).map (Pointer.mk base)

/-! ### Constants and targets -/

/-- The value of a label or a number. -/
def constant (labels : Labels) (s : String) : Except OperandError Int :=
  let text := Text.trim s
  match labels.lookup text with
  | some a => .ok a.toNat
  | none =>
      match Numeral.parse s with
      | .ok v => .ok v
      | .error _ => .error (.unknownLabel text)

/-- A constant from `low` to `high`. -/
def constantIn (labels : Labels) (s : String) (low high : Int) : Except OperandError Int := do
  let v ← constant labels s
  if low ≤ v ∧ v ≤ high then .ok v else .error (.outOfRange s low high)

/-- A bit number. -/
def bitNumber (labels : Labels) (s : String) : Except OperandError Nat :=
  (constantIn labels s 0 7).map Int.toNat

/-- The operand is a distance: a dot and a signed number. -/
def distance? : List Char → Option (List Char)
  | '.' :: c :: cs => if c = '+' ∨ c = '-' then some (c :: cs) else none
  | _ => none

/-- The distance in words of a relative transfer at `pc`, which must lie in `[-limit, limit)`. -/
def relativeWords (labels : Labels) (s : String) (pc : Address) (limit : Int) :
    Except OperandError Int := do
  let text := Text.trim s
  let k ←
    match distance? text.toList with
    | some digits =>
        match Numeral.parseList digits with
        | .error e => .error (.number e)
        | .ok d => if d % 2 = 0 then .ok (d / 2) else .error (.oddDistance text)
    | none => do
        let t ← constant labels text
        if t % 2 = 0 then .ok ((t - pc.toNat - 2) / 2) else .error (.oddTarget text)
  if -limit ≤ k ∧ k < limit then .ok k else .error (.tooFar text)

/-- The word address of an absolute transfer. -/
def absoluteWord (labels : Labels) (s : String) : Except OperandError Int := do
  let a ← constantIn labels s 0 0xFFFF
  if a % 2 = 0 then .ok (a / 2) else .error (.oddTarget s)

end Assembly

end StackDepth
