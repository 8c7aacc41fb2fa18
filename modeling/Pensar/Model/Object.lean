import Pensar.Model.ClassInfo

/-!
# `Object` and classes derived from it (`cpp/src/object.hpp`)

Every class of the library derives from `Object`, which holds the id.  A derived class
with a `Data` struct of its own overrides `data()` and `data_size()`, and reads and
writes `Object`'s record first and its own second.  `Derived δ` is such an object, the
two structs side by side.

`assign`, through which all copying goes, is where the two meet: it copies bytes between
the blocks that `data()` points to, and which block that is depends on the dynamic type
each of the two objects has at that moment.
-/

set_option autoImplicit false

namespace Pensar.Model

open Pensar.Computation

/-- `using Id = int_fast64_t`. -/
abbrev Id := BitVec 64

def Id.layout : Layout Id := Layout.int64

@[simp] theorem Id.layout_width : Id.layout.width = 8 := rfl

/-- SOURCE: cpp/src/constant.hpp:63 -/
def NULL_ID : Id := -1

/-- class `Object`; its `Data` has the one member `mid`.
SOURCE: cpp/src/object.hpp:112-121 -/
@[ext] structure Object where
  mid : Id
  deriving DecidableEq, Repr

namespace Object

/-- SOURCE: cpp/src/object.hpp:106 -/
def INFO : ClassInfo := .make CPPLIB_NAMESPACE (W "Object") 1 1 1 cpplibNamespace_length

def record : RecordType Id where
  info := INFO
  layout := Id.layout
  mismatch := "ClassInfo mismatch in Object::read"
  info_ne_null := ClassInfo.make_ne_null (by decide)
  width_pos := by decide

/-- SOURCE: cpp/src/object.hpp:235 -/
def id (o : Object) : Id := o.mid

/-- SOURCE: cpp/src/object.hpp:183-189 -/
def write (o : Object) (bb : BinaryBuffer) : BinaryBuffer := record.write bb o.mid

/-- SOURCE: cpp/src/object.hpp:191-204 -/
def read (o : Object) (bb : BinaryBuffer) : Object × BinaryBuffer × Log :=
  let (mid, bb, log) := record.read bb o.mid
  (⟨mid⟩, bb, log)

end Object

/-! ## Derived classes -/

/-- An object of a class derived from `Object`: `Object`'s struct and the derived one. -/
@[ext] structure Derived (δ : Type) where
  object : Object
  mdata : δ
  deriving DecidableEq, Repr

/-- The class whose overriders a virtual call reaches. -/
inductive DynamicType where
  | object
  | derived

namespace Derived

variable {δ : Type} (R : RecordType δ)

def id (o : Derived δ) : Id := o.object.id

/-- `Object::write` and then the record of the class. -/
def write (o : Derived δ) (bb : BinaryBuffer) : BinaryBuffer :=
  R.write (o.object.write bb) o.mdata

/-- `Object::read` and then the record of the class; `Object::read` has no way to say
that it failed. -/
def read (o : Derived δ) (bb : BinaryBuffer) : Derived δ × BinaryBuffer × Log :=
  let (object, bb, log) := o.object.read bb
  let (mdata, bb, log') := R.read bb o.mdata
  (⟨object, mdata⟩, bb, log ++ log')

/-- `data()`: the bytes of the struct that the dynamic type points to. -/
def data (t : DynamicType) (o : Derived δ) : List Byte :=
  match t with
  | .object => Id.layout.encode o.object.mid
  | .derived => R.layout.encode o.mdata

def dataSize (t : DynamicType) : ℕ :=
  match t with
  | .object => Id.layout.width
  | .derived => R.layout.width

/-- The object after the struct that `data()` points to was overwritten. -/
def setData (t : DynamicType) (o : Derived δ) (bytes : List Byte) : Derived δ :=
  match t with
  | .object => { o with object := ⟨Id.layout.decode bytes⟩ }
  | .derived => { o with mdata := R.layout.decode bytes }

/-- `memcpy (data (), o.data (), data_size ())`: the target's dynamic type is `t`, the
source is a complete object.  `none`: the source's struct is shorter than that.
SOURCE: cpp/src/object.hpp:143 -/
def assign (t : DynamicType) (self o : Derived δ) : Option (Derived δ) :=
  let src := o.data R .derived
  if src.length < dataSize R t then
    none
  else
    some (self.setData R t (memcpyAt (self.data R t) 0 (src.take (dataSize R t))))

/-- The implicit copy constructor: while `Object (const Object&)` runs the object is an
`Object` only, then the derived struct is copied.  `storage` is the memory it is built in.
SOURCE: cpp/src/object.hpp:161 -/
def copyConstruct (storage x : Derived δ) : Option (Derived δ) := do
  let self ← assign R .object { storage with object := ⟨NULL_ID⟩ } x
  pure { self with mdata := x.mdata }

/-- The implicit copy assignment: `Object::operator=` on a complete object, then the
derived struct is assigned.
SOURCE: cpp/src/object.hpp:271 -/
def copyAssign (y x : Derived δ) : Option (Derived δ) := do
  let y ← assign R .derived y x
  pure { y with mdata := x.mdata }

end Derived

end Pensar.Model
