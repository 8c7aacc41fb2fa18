import Pensar.Model.Object

/-!
# `Generator` (`cpp/src/generator.hpp`)

A counter that hands out ids, itself an `Object` that can be saved.  The id type of every
generator in the library is `Id`.
-/

set_option autoImplicit false

namespace Pensar.Model

open Pensar.Computation

/-- `Generator::Data`.
SOURCE: cpp/src/generator.hpp:52-58 -/
@[ext] structure Generator.Data where
  minitialValue : Id
  mvalue : Id
  mstep : Id
  deriving DecidableEq, Repr

abbrev Generator := Derived Generator.Data

namespace Generator

def Data.layout : Layout Data :=
  (Id.layout.prod (Id.layout.prod Id.layout)).map
    { toFun := fun ⟨initialValue, value, step⟩ => ⟨initialValue, value, step⟩
      invFun := fun ⟨initialValue, value, step⟩ => ⟨initialValue, value, step⟩
      left_inv := fun _ => rfl
      right_inv := fun _ => rfl }

@[simp] theorem Data.layout_width : Data.layout.width = 24 := rfl

/-- SOURCE: cpp/src/generator.hpp:63 -/
def INFO : ClassInfo := .make CPPLIB_NAMESPACE (W "Generator") 2 1 1 cpplibNamespace_length

def record : RecordType Data where
  info := INFO
  layout := Data.layout
  mismatch := "ClassInfo mismatch in Generator::read"
  info_ne_null := ClassInfo.make_ne_null (by decide)
  width_pos := by decide

/-- The constructor.
SOURCE: cpp/src/generator.hpp:79 -/
def new (aid : Id := NULL_ID) (initialValue : Id := 0) (step : Id := 1) : Generator :=
  ⟨⟨if aid = NULL_ID then 0 else aid⟩, ⟨initialValue, initialValue, step⟩⟩

/-- The new value, and the generator after it was handed out.
SOURCE: cpp/src/generator.hpp:85 -/
def getId (g : Generator) : Id × Generator :=
  let value := g.mdata.mvalue + g.mdata.mstep
  (value, { g with mdata := { g.mdata with mvalue := value } })

/-- The next value, which is not handed out.
SOURCE: cpp/src/generator.hpp:89 -/
def next (g : Generator) : Id := g.mdata.mvalue + g.mdata.mstep

/-- SOURCE: cpp/src/generator.hpp:93 -/
def current (g : Generator) : Id := g.mdata.mvalue

/-- SOURCE: cpp/src/generator.hpp:107-115 -/
def write (g : Generator) (bb : BinaryBuffer) : BinaryBuffer := Derived.write record g bb

/-- SOURCE: cpp/src/generator.hpp:117-132 -/
def read (g : Generator) (bb : BinaryBuffer) : Generator × BinaryBuffer × Log :=
  Derived.read record g bb

def copyConstruct (storage x : Generator) : Option Generator :=
  Derived.copyConstruct record storage x

def copyAssign (y x : Generator) : Option Generator := Derived.copyAssign record y x

end Generator

end Pensar.Model
