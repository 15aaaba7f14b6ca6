import Scripting.Host

/-!
Host functions that try out each way in which a host function can act: they
return nothing, fail, raise an error, look names up, declare them, and count
their arguments.
-/

namespace Scripting.Host.Probe

/-- Goes on with the value that a scope gave, or fails as it did. -/
def finish : Except BindingError Value → HostAction
  | .ok value => .done (some value)
  | .error e => .fail (.binding e)

/-- Returns nothing, whatever the arguments. -/
def nothing (_ : List Value) : HostAction := .done none

def fail : List Value → HostAction
  | [] => .fail (.host (Text.utf8 "failed"))
  | value :: _ => .display value fun t => .fail (.host t)

def raise (arguments : List Value) : HostAction :=
  let line : Int := match arguments with
    | .number n :: _ => n.truncate
    | _ => 0
  let error (detail : Text) : HostAction := .raise ⟨line, .host (Text.utf8 "raised"), detail⟩
  match arguments with
  | _ :: detail :: _ => .display detail error
  | _ => error []

def scope : List Value → HostAction
  | [] => .done none
  | name :: _ => .display name fun t => .lookup t finish

/-- Declares a name in the scope of the call; a third argument makes it constant. -/
def define : List Value → HostAction
  | name :: value :: more => .display name fun t => .declare t value (!more.isEmpty) finish
  | _ => .done none

def count (arguments : List Value) : HostAction :=
  .done (some (.number (Number.ofNat arguments.length)))

def functions : Table (List Value → HostAction) :=
  ⟨[(Text.utf8 "nothing", nothing), (Text.utf8 "fail", fail), (Text.utf8 "raise", raise),
    (Text.utf8 "scope", scope), (Text.utf8 "define", define), (Text.utf8 "count", count)]⟩

end Scripting.Host.Probe
