import Patchbay.Text.Digit
import Patchbay.Text.Quoted

/-!
Command lines.  A grammar names the flags and the places of a program; reading a list of arguments
by it gives the flags and the places filled, and the arguments that nothing took.
-/

namespace Patchbay
namespace Command

inductive FlagEffect where
  /-- Ask for help instead of running. -/
  | help
  | switch
  /-- Take the argument behind it. -/
  | value
deriving DecidableEq, Repr

structure Flag where
  names : List String
  effect : FlagEffect
  required : Bool := false
deriving DecidableEq, Repr

def Flag.label (f : Flag) : String := "/".intercalate f.names

inductive Extent where
  | one
  /-- At least one, up to the next flag. -/
  | many
  /-- All that follow, flags included. -/
  | rest
deriving DecidableEq, Repr

structure Place where
  name : String
  extent : Extent
deriving DecidableEq, Repr

structure Grammar where
  program : String
  flags : List Flag
  places : List Place
deriving DecidableEq, Repr

/-! ### Faults -/

inductive UsageFault where
  | ambiguous (given : String) (names : List String)
  | ignored (flag : String) (text : String)
  | noArgument (flag : String)
  | required (names : List String)
  | unknownCommand (given : String) (known : List String)
  | unrecognized (arguments : List String)
deriving DecidableEq, Repr

def UsageFault.message : UsageFault → String
  | .ambiguous given names =>
    "ambiguous option: " ++ given ++ " could match " ++ ", ".intercalate names
  | .ignored flag text =>
    "argument " ++ flag ++ ": ignored explicit argument " ++ Text.quote text
  | .noArgument flag => "argument " ++ flag ++ ": expected one argument"
  | .required names => "the following arguments are required: " ++ ", ".intercalate names
  | .unknownCommand given known =>
    "argument command: invalid choice: " ++ Text.quote given ++ " (choose from " ++
      ", ".intercalate (known.map Text.quote) ++ ")"
  | .unrecognized arguments => "unrecognized arguments: " ++ " ".intercalate arguments

inductive Stop where
  | help
  | refused (program : String) (fault : UsageFault)
deriving DecidableEq, Repr

def Stop.text : Stop → String
  | .help => ""
  | .refused program fault => program ++ ": error: " ++ fault.message ++ "\n"

def Stop.exitCode : Stop → Nat
  | .help => 0
  | .refused _ _ => 2

/-! ### Tokens -/

structure Attached where
  /-- Whether an equals sign is between the flag and the text. -/
  equals : Bool
  text : String
deriving DecidableEq, Repr

structure Use where
  flag : Flag
  name : String
  attached : Option Attached
deriving DecidableEq, Repr

inductive Token where
  | argument (text : String)
  /-- The first double dash; no flag comes after it. -/
  | dashes
  | use (text : String) (use : Use)
  | unknownFlag (text : String)
deriving DecidableEq, Repr

namespace Token

def text : Token → String
  | .argument s => s
  | .dashes => "--"
  | .use s _ => s
  | .unknownFlag s => s

def isFlag : Token → Bool
  | .use _ _ => true
  | .unknownFlag _ => true
  | _ => false

def isDashes (t : Token) : Bool := t == .dashes

end Token

namespace Grammar

def flag? (g : Grammar) (name : String) : Option Flag :=
  g.flags.find? fun f => f.names.contains name

def names (g : Grammar) : List (String × Flag) :=
  g.flags.flatMap fun f => f.names.map fun n => (n, f)

/-- Cut at the first equals sign; the second part is missing where there is none. -/
def cutEquals (cs : List Char) : List Char × Option (List Char) :=
  let head := cs.takeWhile (· ≠ '=')
  (head, if head.length < cs.length then some (cs.drop (head.length + 1)) else none)

def attachedBy (equals : Bool) (cs : Option (List Char)) : Option Attached :=
  cs.map fun cs => { equals, text := String.ofList cs }

/-- Long names may be cut short.  Behind a short name a text may follow at once. -/
def candidates (g : Grammar) (cs : List Char) : List Use :=
  match cs with
  | '-' :: '-' :: _ =>
    let (head, tail) := cutEquals cs
    (g.names.filter fun (n, _) => head.isPrefixOf n.toList).map fun (n, f) =>
      { flag := f, name := n, attached := attachedBy true tail }
  | _ =>
    g.names.filterMap fun (n, f) =>
      if n.toList = cs.take 2 then
        some { flag := f, name := n, attached := attachedBy false (some (cs.drop 2)) }
      else if cs.isPrefixOf n.toList then some { flag := f, name := n, attached := none }
      else none

/-- Digits, with a point before the last of them perhaps. -/
def isUnsigned (cs : List Char) : Bool :=
  let isDigit := fun c => (Text.digit? c).isSome
  match cs.dropWhile isDigit with
  | [] => !cs.isEmpty
  | '.' :: fraction => !fraction.isEmpty && fraction.all isDigit
  | _ => false

/-- Negative numbers are arguments and no flags.  A line break may follow. -/
def isNegative : List Char → Bool
  | '-' :: cs => isUnsigned (if cs.getLast? = some '\n' then cs.dropLast else cs)
  | _ => false

/-- What starts with a dash is a flag, unless it is a number or holds a space. -/
def token (g : Grammar) (s : String) : Except Stop Token :=
  let cs := s.toList
  if cs.head? ≠ some '-' then .ok (.argument s)
  else
    match g.flag? s with
    | some f => .ok (.use s { flag := f, name := s, attached := none })
    | none =>
      if cs.length = 1 then .ok (.argument s)
      else
        let (head, tail) := cutEquals cs
        match tail, g.flag? (String.ofList head) with
        | some _, some f =>
          .ok (.use s { flag := f, name := String.ofList head, attached := attachedBy true tail })
        | _, _ =>
          match g.candidates cs with
          | [u] => .ok (.use s u)
          | u :: us => .error (.refused g.program (.ambiguous s ((u :: us).map Use.name)))
          | [] =>
            if isNegative cs || cs.contains ' ' then .ok (.argument s) else .ok (.unknownFlag s)

def tokens (g : Grammar) : List String → Except Stop (List Token)
  | [] => .ok []
  | s :: rest =>
    if s = "--" then .ok (.dashes :: rest.map .argument)
    else do
      let t ← g.token s
      return t :: (← g.tokens rest)

end Grammar

/-! ### Places -/

namespace Place

/-- Take the arguments of a place from the front, a double dash left out.  The place of the rest
keeps it. -/
def take (p : Place) (ts : List Token) : Option (List String × List Token) :=
  let dashes := ts.takeWhile Token.isDashes
  match ts.drop dashes.length with
  | .argument a :: more =>
    match p.extent with
    | .one => some ([a], more.dropWhile Token.isDashes)
    | .many =>
      let taken := more.takeWhile fun t => !t.isFlag
      some (((dashes ++ .argument a :: taken).map Token.text).erase "--", more.drop taken.length)
    | .rest => some (ts.map Token.text, [])
  | _ => none

end Place

structure Reading where
  /-- Places that are not filled. -/
  places : List Place
  filled : List (String × List String) := []
  /-- Flags in the order of the line, by their labels. -/
  flags : List (String × String) := []
  extras : List String := []

namespace Reading

/-- Fill places in their order as long as there are arguments for them. -/
def fillPlaces : List Place → List Token → List (String × List String) × List Place × List Token
  | [], ts => ([], [], ts)
  | p :: ps, ts =>
    match p.take ts with
    | none => ([], p :: ps, ts)
    | some (taken, rest) =>
      let (filled, left, rest) := fillPlaces ps rest
      ((p.name, taken) :: filled, left, rest)

def fill (r : Reading) (ts : List Token) : Reading × List Token :=
  let (filled, left, rest) := fillPlaces r.places ts
  ({ r with places := left, filled := r.filled ++ filled }, rest)

def withFlag (r : Reading) (f : Flag) (value : String) : Reading :=
  { r with flags := r.flags ++ [(f.label, value)] }

def withExtras (r : Reading) (ts : List Token) : Reading :=
  { r with extras := r.extras ++ ts.map Token.text }

/-- The value of a flag, that of its last use. -/
def value? (r : Reading) (label : String) : Option String := r.flags.reverse.lookup label

def values (r : Reading) (label : String) : List String :=
  (r.flags.filter fun (l, _) => l == label).map Prod.snd

def arguments (r : Reading) (place : String) : List String := (r.filled.lookup place).getD []

end Reading

namespace Grammar

/-- Short flags that take nothing may stand together behind one dash. -/
def bundle (g : Grammar) (f : Flag) : List Char → Except UsageFault Unit
  | [] => .ok ()
  | '-' :: rest => .error (.ignored f.label (String.ofList ('-' :: rest)))
  | c :: rest =>
    match g.flag? (String.ofList ['-', c]) with
    | none => .ok ()
    | some f =>
      match rest with
      | '=' :: text => .error (.ignored f.label (String.ofList text))
      | _ => bundle g f rest

/-- A text attached to a flag that takes none is a fault, but for a bundle. -/
def checkAttached (g : Grammar) (u : Use) : Option Attached → Except UsageFault Unit
  | none => .ok ()
  | some a =>
    if a.equals then .error (.ignored u.flag.label a.text) else g.bundle u.flag a.text.toList

def takeUse (g : Grammar) (u : Use) (r : Reading) (rest : List Token) :
    Except Stop (Reading × List Token) :=
  match u.flag.effect with
  | .value =>
    match u.attached, rest with
    | some a, _ => .ok (r.withFlag u.flag a.text, rest)
    | none, .argument s :: rest => .ok (r.withFlag u.flag s, rest)
    | none, _ => .error (.refused g.program (.noArgument u.flag.label))
  | .switch => do
    (g.checkAttached u u.attached).mapError (.refused g.program)
    return (r.withFlag u.flag "", rest)
  | .help => do
    (g.checkAttached u u.attached).mapError (.refused g.program)
    throw .help

/-- Places and flags by turns.  Arguments that no place takes are kept as extras. -/
def readTokens (g : Grammar) : Nat → Reading → List Token → Except Stop Reading
  | 0, r, ts => .ok (r.withExtras ts)
  | fuel + 1, r, ts =>
    if ts.any Token.isFlag then
      match ts with
      | .use _ u :: rest => do
        let (r, rest) ← g.takeUse u r rest
        g.readTokens fuel r rest
      | .unknownFlag s :: rest => g.readTokens fuel (r.withExtras [.unknownFlag s]) rest
      | _ =>
        let (filled, rest) := r.fill ts
        if rest.length < ts.length then g.readTokens fuel filled rest
        else
          let skipped := ts.takeWhile fun t => !t.isFlag
          g.readTokens fuel (r.withExtras skipped) (ts.drop skipped.length)
    else
      let (r, rest) := r.fill ts
      .ok (r.withExtras rest)

def lacking (g : Grammar) (r : Reading) : List String :=
  r.places.map Place.name ++
    (g.flags.filter fun f => f.required && (r.value? f.label).isNone).map Flag.label

def read (g : Grammar) (arguments : List String) : Except Stop Reading := do
  let ts ← g.tokens arguments
  let r ← g.readTokens (ts.length + 1) { places := g.places } ts
  match g.lacking r with
  | [] => return r
  | names => throw (.refused g.program (.required names))

end Grammar
end Command
end Patchbay
