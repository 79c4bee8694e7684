import Wiring.Component

/-!
# Defaults that a type declares

A type declares attributes, some with a default value.  Starting a component
adds the defaults of the attributes that the request does not give.  Of several
declarations of one attribute the first with a default counts.  Where the model
does not declare the type, the request stands as it is.
-/

namespace Wiring

/-- A component together with the defaults of its type. -/
structure Resolution where
  /-- The requested component, with the defaults added. -/
  component : Component
  typeResolved : Bool
  /-- The keys that were added, in the order of the declarations. -/
  defaulted : List String
deriving DecidableEq, Repr

namespace Component

/-- Add the default of one declared attribute, unless the attribute has a value
or no name. -/
def addDefault (r : Resolution) (declared : Attribute) : Resolution :=
  match declared.default? with
  | none => r
  | some value =>
    if declared.name = "" || r.component.attributes.contains declared.name then r
    else
      { r with
        component :=
          { r.component with
            attributes := r.component.attributes.insert declared.name value }
        defaulted := r.defaulted ++ [declared.name] }

/-- Add the defaults that the type of a component declares in a model. -/
def resolve (c : Component) (model : Model) : Resolution :=
  match model.findType c.typeName with
  | none => ⟨c, false, []⟩
  | some declaration => declaration.dictionary.foldl addDefault ⟨c, true, []⟩

/-- The notices of resolving a component. -/
def resolveNotices (c : Component) (model : Model) : List Notice :=
  if (c.resolve model).typeResolved then [] else [.typeUnknown c.typeName c.id]

end Component

end Wiring
