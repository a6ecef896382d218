import OpticScript.Keywords

/-!
# Scripts

A script is a list of commands, one for each element of an optical setup. A command has
a directive, parameters, and the parameters of the further surfaces of its element. The
text form has one line for a command and one, with a plus sign, for each surface
(`Script.render`).
-/

namespace OpticScript

/-- The form of a surface line. -/
def Parameters.renderSurface (surface : Parameters) : String := "\t+ " ++ surface.render

/-- A command line and the surface lines below it. -/
structure Command where
  directive : String
  parameters : Parameters
  surfaces : Array Parameters := #[]
  deriving BEq, DecidableEq, Inhabited

namespace Command

def addSurface (command : Command) (surface : Parameters) : Command :=
  { command with surfaces := command.surfaces.push surface }

def render (command : Command) : String :=
  String.intercalate "\n"
    ((command.directive ++ " " ++ command.parameters.render)
      :: command.surfaces.toList.map Parameters.renderSurface)

end Command

/-- The commands of a script in their order. -/
structure Script where
  commands : Array Command
  deriving BEq, DecidableEq, Inhabited

namespace Script

def empty : Script := { commands := #[] }

def size (script : Script) : Nat := script.commands.size

def isEmpty (script : Script) : Bool := script.commands.isEmpty

def push (script : Script) (command : Command) : Script :=
  { commands := script.commands.push command }

/-- The script with a further surface on its last command, if it has a command. -/
def addSurface? (script : Script) (surface : Parameters) : Option Script :=
  match script.commands.back? with
  | none => none
  | some command =>
    some { commands := script.commands.pop.push (command.addSurface surface) }

def directives (script : Script) : List String :=
  script.commands.toList.map Command.directive

def render (script : Script) : String :=
  String.join (script.commands.toList.map fun command => command.render ++ "\n")

end Script

end OpticScript
