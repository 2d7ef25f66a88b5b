import Mathlib.Data.List.Basic

/-!
# Schemas

The part of an XML schema the generator derives event codes from: content models, their attributes,
and how one type is derived from another.
-/

namespace Iso15118.Codegen

/-- `QName`. -/
structure QName where
  localName : String
  namespaceName : String
  deriving DecidableEq, Repr

/-- The order of names in EXI: by local name, and by namespace only then. -/
def QName.le (a b : QName) : Bool :=
  decide (a.localName < b.localName)
    || (decide (a.localName = b.localName) && decide (a.namespaceName ≤ b.namespaceName))

/-- `TypeRef`. -/
inductive TypeRef where
  | named (name : QName)
  | anonymous (index : Nat)
  deriving DecidableEq, Repr

/-- `UNBOUNDED`. -/
def unbounded : Nat := 4294967295

/-- `ElementParticle`. -/
structure ElementParticle where
  name : QName
  typeRef : TypeRef
  min : Nat
  max : Nat
  nillable : Bool
  deriving DecidableEq, Repr

/-- `Particle`, with the bounds of a group in place. -/
inductive Particle where
  | element (e : ElementParticle)
  | sequence (items : List Particle) (min max : Nat)
  | choice (items : List Particle) (min max : Nat)
  | all (items : List Particle) (min max : Nat)
  | any (min max : Nat)

/-- `Particle::min`. -/
def Particle.min : Particle → Nat
  | element e => e.min
  | sequence _ min _ | choice _ min _ | all _ min _ | any min _ => min

/-- `Particle::max`. -/
def Particle.max : Particle → Nat
  | element e => e.max
  | sequence _ _ max | choice _ _ max | all _ _ max | any _ max => max

/-- `Attribute`. -/
structure Attribute where
  name : QName
  typeRef : TypeRef
  required : Bool
  deriving DecidableEq, Repr

/-- `Derivation`. -/
inductive Derivation where
  | none
  | extension
  | restriction
  deriving DecidableEq, Repr

/-- `ComplexType`. -/
structure ComplexType where
  base : Option QName
  derivation : Derivation
  particle : Option Particle
  attributes : List Attribute
  mixed : Bool
  simpleContent : Option QName

/-- `Schema`: what its named types are, those that are complex. -/
structure Schema where
  complex : QName → Option ComplexType

end Iso15118.Codegen
