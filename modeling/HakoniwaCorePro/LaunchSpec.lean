import Mathlib.Tactic.Common

/-!
# The launch file

What the launcher reads of `launch.json`. Of an asset only what decides its place in the order and
its environment is kept; a mapping is the list of its items, in order, with different keys.
-/

namespace HakoniwaCorePro
namespace Launch

/-- A Python `str`: its code points, those included that no character has. -/
abbrev Text := List ℕ

def lit (s : String) : Text := s.toList.map Char.toNat

structure EnvOps where
  set : Option (List (Text × Text))
  prepend : Option (List (Text × List Text))
  append : Option (List (Text × List Text))
  unset : Option (List Text)

structure Defaults where
  env : Option EnvOps

structure Asset where
  name : Text
  env : Option EnvOps
  dependsOn : List Text

structure LauncherSpec where
  defaults : Option Defaults
  assets : List Asset

end Launch
end HakoniwaCorePro
