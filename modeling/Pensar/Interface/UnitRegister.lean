import Pensar.Model.ContactSystem

/-!
# A register of units

What `OrgDAO` is for: units are kept as they were handed over, in the order of their ids, each under
a unit that is there or under none.  A unit that is removed leaves its children without a parent.
-/

set_option autoImplicit false

namespace Pensar.Interface

open Pensar.Computation
open Pensar.Model

variable {D : Type}

/-- The units, and the last id that was given. -/
@[ext] structure UnitRegister where
  units : List OrgUnitDTO
  lastId : ℕ

namespace UnitRegister

def empty : UnitRegister := ⟨[], 0⟩

variable (m : UnitRegister)

def find (id : ℤ) : Option OrgUnitDTO := m.units.find? fun u => u.id = id

/-- The units under a unit; no unit has the id 0, which stands for no parent. -/
def children (id : ℤ) : List OrgUnitDTO := m.units.filter fun u => u.parentId = id ∧ id ≠ 0

/-- The unit as it is kept; `none` if a text is too long, or if there is no such type. -/
def kept (o : OrgUnitDTO) (id : ℤ) : Option OrgUnitDTO := do
  let orgType ← varchar 20 o.orgType
  let federalTaxId ← varchar 20 o.federalTaxId
  if ORG_TYPES.contains orgType then some { o with id, orgType, federalTaxId } else none

/-- What is kept of the unit, if it can be: its parent is there, or it is its own parent. -/
def admitted (o : OrgUnitDTO) (id : ℤ) : Option OrgUnitDTO :=
  (kept o id).filter fun u => u.parentId = 0 ∨ u.parentId = id ∨ (m.find u.parentId).isSome

def insert (o : OrgUnitDTO) (fate : Fate) : UnitRegister × ContactAnswer :=
  let id := m.lastId + fate.skipped + 1
  match if fate.refused then none else m.admitted o id with
  | some u => (⟨m.units ++ [u], id⟩, .inserted id)
  | none => (m, .threw)

def update (o : OrgUnitDTO) (fate : Fate) : UnitRegister × ContactAnswer :=
  if fate.refused then (m, .threw)
  else if m.find o.id = none then (m, .found false)
  else
    match m.admitted o o.id with
    | some u => ({ m with units := m.units.map fun v => if v.id = o.id then u else v }, .found true)
    | none => (m, .threw)

/-- The children of a unit lose their parent. -/
def orphaned (id : ℤ) (u : OrgUnitDTO) : OrgUnitDTO :=
  if u.parentId = id then { u with parentId := 0 } else u

def remove (id : ℤ) (fate : Fate) : UnitRegister × ContactAnswer :=
  if fate.refused then (m, .threw)
  else
    ({ m with units := (m.units.filter fun u => u.id ≠ id).map (orphaned id) },
      .found (m.find id).isSome)

/-- The register under the calls of all DAO classes: it answers those of `OrgDAO` on units. -/
def machine : Machine UnitRegister (DaoCall D × Fate) (Option ContactAnswer) where
  step m := fun (call, fate) =>
    match call with
    | .insertOrgUnit o => (m.insert o fate).map (fun m => m) some
    | .updateOrgUnit o => (m.update o fate).map (fun m => m) some
    | .removeOrgUnit id => (m.remove id fate).map (fun m => m) some
    | _ => (m, none)

end UnitRegister

end Pensar.Interface
