/-!
# The component model

The document that describes a running system: nodes with the component
instances they host, packages with the types that can be instantiated, and
channels.  Lists keep their order, and nothing forbids two entries of one name;
the look-ups of `Wiring.Model.Lookup` say which of them counts.
-/

namespace Wiring

/-- A running component instance. -/
structure Instance where
  name : String
  /-- The type name it was started with, possibly qualified and versioned. -/
  typeName : String
deriving DecidableEq, Repr, Inhabited

/-- An execution node. -/
structure Node where
  name : String := ""
  components : List Instance := []
deriving DecidableEq, Repr, Inhabited

/-- An attribute that a type declares. -/
structure Attribute where
  name : String
  /-- The value used when a request gives none. -/
  default? : Option String := none
deriving DecidableEq, Repr, Inhabited

/-- The declaration of a component type. -/
structure TypeDefinition where
  name : String := ""
  version? : Option String := none
  dictionary : List Attribute := []
deriving DecidableEq, Repr, Inhabited

/-- A package: one segment of a package path, with what lies below it. -/
structure Package where
  name : String := ""
  packages : List Package := []
  types : List TypeDefinition := []
deriving Repr, Inhabited

/-- A channel instance. -/
structure Hub where
  name : String
  typeName : String
deriving DecidableEq, Repr, Inhabited

mutual

/-- Equality of package trees is decided along the trees. -/
def Package.decEq : (p q : Package) → Decidable (p = q)
  | ⟨name, packages, types⟩, ⟨name', packages', types'⟩ =>
    if hname : name = name' then
      if htypes : types = types' then
        match Package.decEqAll packages packages' with
        | isTrue hpackages => isTrue (by rw [hname, hpackages, htypes])
        | isFalse hpackages => isFalse fun h => hpackages (Package.mk.inj h).2.1
      else isFalse fun h => htypes (Package.mk.inj h).2.2
    else isFalse fun h => hname (Package.mk.inj h).1

/-- Equality of lists of package trees. -/
def Package.decEqAll : (ps qs : List Package) → Decidable (ps = qs)
  | [], [] => isTrue rfl
  | [], _ :: _ => isFalse nofun
  | _ :: _, [] => isFalse nofun
  | p :: ps, q :: qs =>
    match Package.decEq p q, Package.decEqAll ps qs with
    | isTrue h, isTrue hs => isTrue (by rw [h, hs])
    | isFalse h, _ => isFalse fun heq => h (List.cons.inj heq).1
    | _, isFalse hs => isFalse fun heq => hs (List.cons.inj heq).2

end

instance : DecidableEq Package := Package.decEq

/-- The whole document. -/
structure Model where
  nodes : List Node := []
  packages : List Package := []
  hubs : List Hub := []
deriving DecidableEq, Repr, Inhabited

end Wiring
