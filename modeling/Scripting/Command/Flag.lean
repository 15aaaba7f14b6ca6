import Scripting.Text.Quoted

/-!
Flags of a command. They come before the other arguments as `-name value`,
`-name=value` or, for a switch, `-name` alone; two dashes mean the same as one.
-/

namespace Scripting.Command

/-- A flag with a text, or a switch. -/
structure Flag where
  name : Text
  help : Text
  isSwitch : Bool := false

namespace Flag

def dash : UInt8 := 0x2D

def equalSign : UInt8 := 0x3D

inductive Fault where
  /-- The list of flags was asked for. -/
  | help
  | badForm (argument : Text)
  | undefined (name : Text)
  | noValue (name : Text)
  | notBoolean (value name : Text)

/-- The message of a fault; a wish for help has none. -/
def Fault.message? : Fault → Option Text
  | help => none
  | badForm argument => some (Text.utf8 "bad flag syntax: " ++ argument)
  | undefined name => some (Text.utf8 "flag provided but not defined: -" ++ name)
  | noValue name => some (Text.utf8 "flag needs an argument: -" ++ name)
  | notBoolean value name =>
    some (Text.utf8 "invalid boolean value " ++ value.quote ++ Text.utf8 " for -" ++ name ++
      Text.utf8 ": parse error")

def boolean? (t : Text) : Option Bool :=
  if ["1", "t", "T", "true", "TRUE", "True"].any fun s => t = Text.utf8 s then some true
  else if ["0", "f", "F", "false", "FALSE", "False"].any fun s => t = Text.utf8 s then some false
  else none

def usage (command : Text) (flags : List Flag) : Text :=
  Text.utf8 "Usage of " ++ command ++ Text.utf8 ":\n" ++ flags.flatMap fun flag =>
    Text.utf8 "  -" ++ flag.name ++ (if flag.isSwitch then [] else Text.utf8 " string") ++
      Text.utf8 "\n    \t" ++ flag.help ++ Text.utf8 "\n"

/-- The flags that were given with their values, and the arguments after them. -/
structure Given where
  values : List (Text × Text) := []
  arguments : List Text := []

namespace Given

def cons (name value : Text) (g : Given) : Given := { g with values := (name, value) :: g.values }

/-- The last value of a flag; empty if it was not given. -/
def value (g : Given) (name : Text) : Text :=
  ((g.values.reverse.find? fun v => v.1 = name).map Prod.snd).getD []

/-- Whether a switch was last set. -/
def isOn (g : Given) (name : Text) : Bool := (boolean? (g.value name)).getD false

end Given

/-- Reads arguments up to the first that is no flag, or past two dashes alone. -/
def read (flags : List Flag) : List Text → Except Fault Given
  | [] => .ok {}
  | argument :: rest =>
    if argument.length < 2 || argument.head? != some dash then
      .ok { arguments := argument :: rest }
    else if argument = [dash, dash] then .ok { arguments := rest }
    else
      let body := if argument[1]? = some dash then argument.drop 2 else argument.drop 1
      if body.head? = some dash || body.head? = some equalSign then .error (.badForm argument)
      else
        let name := body.takeWhile (· != equalSign)
        let value? := if body.contains equalSign then some (body.drop (name.length + 1)) else none
        match flags.find? fun flag => flag.name = name with
        | none =>
          if name = Text.utf8 "help" || name = Text.utf8 "h" then .error .help
          else .error (.undefined name)
        | some flag =>
          if flag.isSwitch then
            let value := value?.getD (Text.utf8 "true")
            if (boolean? value).isSome then (read flags rest).map (.cons name value)
            else .error (.notBoolean value name)
          else
            match value?, rest with
            | some value, rest => (read flags rest).map (.cons name value)
            | none, value :: rest => (read flags rest).map (.cons name value)
            | none, [] => .error (.noValue name)

end Flag

end Scripting.Command
