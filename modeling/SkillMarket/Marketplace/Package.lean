import SkillMarket.Json.Reader

/-!
The descriptor of a package, of which only the version matters.
-/

namespace SkillMarket.Marketplace

/-- A descriptor: the members of a JSON object. -/
structure Package where
  fields : Json.Object

/-- Why a text is no descriptor. -/
inductive PackageDefect where
  | notJson (error : Json.Error)
  | notObject
deriving DecidableEq, Repr

def PackageDefect.message : PackageDefect → String
  | notJson error => error.message
  | notObject => "top-level value is not an object"

/-- Reads a descriptor. -/
def Package.parse (text : String) : Except PackageDefect Package :=
  match Json.parse text with
  | .error e => .error (.notJson e)
  | .ok (.object fields) => .ok ⟨fields⟩
  | .ok _ => .error .notObject

/-- The declared version, if it is a text that is not empty. -/
def Package.version? (p : Package) : Option String :=
  ((p.fields.get? "version").bind Json.Value.asString?).filter (· ≠ "")

end SkillMarket.Marketplace
