import StackDepth.Binary64
import StackDepth.Duration
import StackDepth.Numeral.Literal
import StackDepth.Yaml.Node
import StackDepth.Yaml.Timestamp

/-!
# What scalars stand for

A plain scalar stands for nothing, a truth value, a whole number, a real number or its own text;
`Value.ofText` tells which. A scalar in quotes is a text, and a tag may ask for something else. The readers
of this module fit a node to a type: each takes the value held so far, which a node that stands for nothing
leaves as it is, and gives `none` if the node does not fit. A mapping in which a key occurs twice fits no
type. The key `<<` brings in the pairs of other mappings, as far as their keys do not stand in the mapping
itself or in an earlier one of them.
-/

namespace StackDepth

namespace Yaml

/-- What a scalar stands for. -/
inductive Value where
  /-- Nothing. -/
  | null
  /-- A truth value. -/
  | truth (b : Bool)
  /-- A whole number. -/
  | whole (n : Int)
  /-- A real number. -/
  | real (x : Binary64)
  /-- Less than every number. -/
  | belowAll
  /-- More than every number, or none at all. -/
  | beyondAll
  /-- A day, or a time of a day. -/
  | time
  /-- A text. -/
  | text (s : String)
deriving Inhabited

namespace Value

/-- The texts that stand for something by agreement. -/
def byName? : String → Option Value
  | "" | "~" | "null" | "Null" | "NULL" => some .null
  | "true" | "True" | "TRUE" => some (.truth true)
  | "false" | "False" | "FALSE" => some (.truth false)
  | "-.inf" | "-.Inf" | "-.INF" => some .belowAll
  | ".inf" | ".Inf" | ".INF" | "+.inf" | "+.Inf" | "+.INF" => some .beyondAll
  | ".nan" | ".NaN" | ".NAN" => some .beyondAll
  | _ => none

/-- A whole number with an optional sign: 64 bits with a sign, and as many for the magnitude without. -/
def signedWhole? (cs : List Char) : Option Int :=
  let (negative, body) := Numeral.splitSign cs
  let (base, digits) := Numeral.literalBase body
  (Numeral.magnitude? base digits).bind fun n =>
    let v := Numeral.applySign negative n
    let limit : Int := if body.length < cs.length then Numeral.signedLimit else Numeral.unsignedLimit
    if -Numeral.signedLimit ≤ v ∧ v < limit then some v else none

/-- A whole number. The digits behind `0b` and `0o` may carry a sign of their own. -/
def whole? (cs : List Char) : Option Int :=
  match signedWhole? cs with
  | some n => some n
  | none =>
      match cs with
      | '0' :: 'b' :: digits => Numeral.signed? 2 64 digits
      | '0' :: 'o' :: digits => Numeral.signed? 8 64 digits
      | _ => none

/-- An exponent behind its letter, with an optional sign. -/
def exponent? (cs : List Char) : Option Int :=
  let (negative, digits) := Numeral.splitSign cs
  (Numeral.magnitude? 10 digits).map fun n => Numeral.applySign negative n

/-- The number `m * 10 ^ e`, unless it is beyond all limits. An exponent far out of range is cut off, which
changes no result. -/
def scaled? (negative : Bool) (m : Nat) (e : Int) : Option Value :=
  let e := max (-(m.log2 + 400 : Int)) (min e 400)
  let x := Binary64.ofRatio negative (m * Nat.pow 10 e.toNat) (Nat.pow 10 (-e).toNat)
  if Binary64.limit ≤ x.floorAbs then none else some (.real x)

/-- A real number in decimal, with an optional sign, fraction and exponent. -/
def real? (cs : List Char) : Option Value := do
  let (negative, body) := Numeral.splitSign cs
  let (before, rest) := body.span Char.isDigit
  let (fraction, rest) :=
    match rest with
    | '.' :: rest => rest.span Char.isDigit
    | rest => ([], rest)
  let m ← Numeral.magnitude? 10 (before ++ fraction)
  let e ←
    match rest with
    | [] => some 0
    | c :: rest => if c.toLower = 'e' then exponent? rest else none
  scaled? negative m (e - fraction.length)

/-- Drops underscores, each of which has to stand between two digits; `before` is the character in front. -/
def joinDigits? (before : Char) : List Char → Option (List Char)
  | [] => some []
  | '_' :: c :: cs => if before.isDigit && c.isDigit then (joinDigits? c cs).map (c :: ·) else none
  | c :: cs => if c = '_' then none else (joinDigits? c cs).map (c :: ·)

/-- What an unquoted scalar stands for. In a number that begins with a digit or a sign all underscores are
dropped, in one that begins with a point those between digits. -/
def ofText (s : String) : Value :=
  match byName? s with
  | some v => v
  | none =>
      match s.toList with
      | [] => .null
      | c :: cs =>
          if c.isDigit || c = '+' || c = '-' then
            let plain := (c :: cs).filter (· ≠ '_')
            match whole? plain with
            | some n => .whole n
            | none => (real? plain).getD (.text s)
          else if c = '.' then ((joinDigits? c cs).bind fun cs => real? (c :: cs)).getD (.text s)
          else .text s

/-- The tag of what a value stands for. -/
def tag : Value → String
  | .null => "!!null"
  | .truth _ => "!!bool"
  | .whole _ => "!!int"
  | .real _ | .belowAll | .beyondAll => "!!float"
  | .time => "!!timestamp"
  | .text _ => "!!str"

/-- The value as far as it fits a tag. A whole number of 64 bits fits the tag of real numbers. -/
def fit? (v : Value) (tag : String) : Option Value :=
  if v.tag == tag then some v
  else
    match v with
    | .whole n =>
        if tag == "!!float" ∧ n < Numeral.signedLimit then
          some (.real (Binary64.ofRatio (n < 0) n.natAbs 1))
        else none
    | _ => none

/-- A real number without its fraction, as a number of 64 bits; what lies below them becomes the least. -/
def truncate (x : Binary64) : Option Int :=
  let n : Int := Numeral.applySign x.negative x.floorAbs
  if Numeral.signedLimit < n then none
  else if n = Numeral.signedLimit ∨ n < -Numeral.signedLimit then some (-Numeral.signedLimit)
  else some n

end Value

/-! ### Tags -/

/-- The value of a letter in base 64. -/
def base64Value? (c : Char) : Option Nat :=
  if 'A' ≤ c ∧ c ≤ 'Z' then some (c.toNat - 65)
  else if 'a' ≤ c ∧ c ≤ 'z' then some (c.toNat - 71)
  else if c.isDigit then some (c.toNat + 4)
  else if c == '+' then some 62
  else if c == '/' then some 63
  else none

/-- The bytes of letters in base 64, which come in groups of four; one or two equals signs fill up the
last group. -/
def base64? : List Char → Option (List UInt8)
  | [] => some []
  | [a, b, '=', '='] => do
      let n := (← base64Value? a) * 64 + (← base64Value? b)
      some [(n / 16).toUInt8]
  | [a, b, c, '='] => do
      let n := ((← base64Value? a) * 64 + (← base64Value? b)) * 64 + (← base64Value? c)
      some [(n / 1024).toUInt8, (n / 4).toUInt8]
  | a :: b :: c :: d :: rest => do
      let n := (((← base64Value? a) * 64 + (← base64Value? b)) * 64 + (← base64Value? c)) * 64 +
        (← base64Value? d)
      some ((n / 65536).toUInt8 :: (n / 256).toUInt8 :: n.toUInt8 :: (← base64? rest))
  | _ => none

/-- The first character of bytes in UTF-8 and the number of its bytes, which is `n` at least. A byte that
begins no character stands for the replacement character. -/
def firstChar (bytes : List UInt8) : Nat → Nat → Char × Nat
  | 0, _ => (Char.ofNat 0xFFFD, 1)
  | left + 1, n =>
      match (String.fromUTF8? ⟨(bytes.take n).toArray⟩).map String.toList with
      | some [c] => (c, n)
      | _ => firstChar bytes left (n + 1)

/-- The characters of bytes in UTF-8, of which there are `left` at most. -/
def charsOf : Nat → List UInt8 → List Char
  | 0, _ | _, [] => []
  | left + 1, bytes =>
      let (c, n) := firstChar bytes 4 1
      c :: charsOf left (bytes.drop n)

/-- The text of letters in base 64 in lines. -/
def binaryText? (s : String) : Option String :=
  (base64? (s.toList.filter fun c => c ≠ '\n' && c ≠ '\r')).map fun bytes =>
    String.ofList (charsOf bytes.length bytes)

/-- What a scalar stands for; none if it does not fit its tag. A tag that is not one of the format leaves the
text. -/
def Scalar.value? (s : Scalar) : Option Value :=
  match s.tag with
  | none => some (if s.quoted then .text s.text else .ofText s.text)
  | some "!!binary" => (binaryText? s.text).map .text
  | some "!!timestamp" => if isTimestamp s.text then some .time else none
  | some tag =>
      if ["!!bool", "!!int", "!!float", "!!null"].contains tag then (Value.ofText s.text).fit? tag
      else some (.text s.text)

/-! ### Fitting nodes to types -/

/-- The node stands for nothing. -/
def Node.isNull (n : Node) : Bool :=
  match n.resolve? with
  | some (.scalar s) =>
      match s.value? with
      | some .null => true
      | _ => false
  | _ => false

namespace Fit

/-- A reader of a type, which starts from the value held so far. -/
abbrev Reader (α : Type) : Type := α → Node → Option α

/-- A reader of scalars: what stands for nothing keeps the old value. -/
def scalar {α : Type} (read : Scalar → Value → Option α) : Reader α := fun old n => do
  match ← n.resolve? with
  | .scalar s =>
      match ← s.value? with
      | .null => some old
      | v => read s v
  | _ => none

/-- A text keeps its characters, whatever they stand for. -/
def text : Reader String :=
  scalar fun s v =>
    match v with
    | .text t => some t
    | _ => some s.text

/-- A whole number of 64 bits; a real number loses its fraction. -/
def int : Reader Int :=
  scalar fun _ v =>
    match v with
    | .whole n => if n < Numeral.signedLimit then some n else none
    | .real x => Value.truncate x
    | .belowAll => some (-Numeral.signedLimit)
    | _ => none

/-- A duration with its unit. -/
def duration : Reader Int :=
  scalar fun _ v =>
    match v with
    | .text s => Duration.parse? s
    | _ => none

/-- The words for truth values beyond `true` and `false`. -/
def truthWord? : String → Option Bool
  | "y" | "Y" | "yes" | "Yes" | "YES" | "on" | "On" | "ON" => some true
  | "n" | "N" | "no" | "No" | "NO" | "off" | "Off" | "OFF" => some false
  | _ => none

/-- A truth value. -/
def truth : Reader Bool :=
  scalar fun _ v =>
    match v with
    | .truth b => some b
    | .text s => truthWord? s
    | _ => none

/-- A list of items of one type, each starting from `fresh`. Items that stand for nothing are left out, and
a list that stands for nothing is empty. -/
def list {α : Type} (fresh : α) (item : Reader α) : Reader (List α) := fun _ n => do
  match ← n.resolve? with
  | .sequence items => (items.filter (!·.isNull)).mapM (item fresh)
  | n => if n.isNull then some [] else none

/-! ### Records -/

/-- What tells keys apart: their kind, and the text or the name. -/
def keyIdentity : Node → Nat × String
  | .scalar s => (0, s.text)
  | .sequence _ => (1, "")
  | .mapping _ => (2, "")
  | .alias name _ => (3, name)

/-- No key occurs twice. -/
def distinctKeys (entries : List (Node × Node)) : Bool :=
  let keys := entries.map fun (k, _) => keyIdentity k
  keys.eraseDups.length == keys.length

/-- The key that brings in other mappings. -/
def isMerge : Node → Bool
  | .scalar s => s.text == "<<" && (if s.quoted then s.tag == some "!!merge" else s.tag.all (· == "!!merge"))
  | _ => false

/-- The name of a field, or nothing if the key stands for nothing. -/
def keyName? (n : Node) : Option (Option String) := do
  match ← n.resolve? with
  | .scalar s =>
      match ← s.value? with
      | .null => some none
      | .text t => some (some t)
      | _ => some (some s.text)
  | _ => none

/-- The names among the keys of a mapping. -/
def keyNames (entries : List (Node × Node)) : List String :=
  entries.filterMap fun (k, _) => (keyName? k).bind id

/-- The pairs of a mapping. -/
def entries? (n : Node) : Option (List (Node × Node)) := do
  match ← n.resolve? with
  | .mapping entries => some entries
  | _ => none

/-- The mappings that are brought in: a mapping, or a sequence of them. -/
def mergeSources? : Node → Option (List (List (Node × Node)))
  | .sequence items => items.mapM entries?
  | n => (entries? n).map ([·])

/-- A field of a record: its key, and how a node changes the record. -/
structure Field (α : Type) where
  /-- The key. -/
  name : String
  /-- How a node changes the record. -/
  read : Reader α

/-- A record that is being read. -/
structure Partial (α : Type) where
  /-- The record so far. -/
  record : α
  /-- The fields that this mapping has set. -/
  done : List String := []
  /-- The names that are passed over, if this mapping is brought in. -/
  known : Option (List String) := none

/-- Reads a value into the field of a name. Names of no field are passed over. -/
def setField {α : Type} (fields : List (Field α)) (p : Partial α) (name : String) (value : Node) :
    Option (Partial α) :=
  match fields.find? (·.name == name) with
  | none => some p
  | some f =>
      if p.done.contains name then none
      else (f.read p.record value).map fun record => { p with record, done := name :: p.done }

/-- Reads one pair of a mapping into a record. -/
def entry {α : Type} (fields : List (Field α)) (p : Partial α) : Node × Node → Option (Partial α)
  | (key, value) =>
      if isMerge key then some p
      else do
        match ← keyName? key with
        | none => some p
        | some name =>
            match p.known with
            | none => setField fields p name value
            | some known =>
                if known.contains name then some p
                else setField fields { p with known := some (name :: known) } name value

/-- Reads a mapping into a record, and then the mappings that it brings in. -/
def mapping {α : Type} (fields : List (Field α)) :
    Nat → Option (List String) → α → List (Node × Node) → Option (α × Option (List String))
  | 0, _, _, _ => none
  | fuel + 1, known, old, entries => do
      if !distinctKeys entries then none
      else
        let p ← entries.foldlM (entry fields) { record := old, known }
        match entries.find? fun (k, _) => isMerge k with
        | none => some (p.record, p.known)
        | some (_, source) =>
            let (record, names) ← (← mergeSources? source).foldlM
              (fun (record, names) es => do
                let (record, names) ← mapping fields fuel (some names) record es
                some (record, names.getD []))
              (p.record, p.known.getD (keyNames entries))
            some (record, p.known.map fun _ => names)

/-- A record. Mappings are brought in one inside the other at most `limit` times. -/
def record {α : Type} (fields : List (Field α)) (limit : Nat) : Reader α := fun old n => do
  match ← n.resolve? with
  | .mapping entries => (mapping fields (limit + 1) none old entries).map Prod.fst
  | n => if n.isNull then some old else none

end Fit

end Yaml

end StackDepth
