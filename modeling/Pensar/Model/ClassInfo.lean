import Pensar.Model.CS

/-!
# `ClassInfo` (`cpp/src/class_info.hpp`)

The record that stands in front of the data of every class in a binary stream: the
namespace, the class name and three interface versions.  Two are compared byte by byte,
which for a type without padding is equality.
-/

set_option autoImplicit false

namespace Pensar.Model

open Pensar.Computation

/-- `using VersionInt = int16_t`. -/
abbrev VersionInt := BitVec 16

/-- SOURCE: cpp/src/constant.hpp:90 -/
def CPPLIB_NAMESPACE : S := W "pensar_digital::cpplib"

theorem cpplibNamespace_length : CPPLIB_NAMESPACE.length < 100 := by decide

/-- struct `ClassInfo`.
SOURCE: cpp/src/class_info.hpp:12-18 -/
@[ext] structure ClassInfo where
  mnamespace : CS 0 100
  mclassName : CS 0 100
  mpublicInterfaceVersion : VersionInt
  mprotectedInterfaceVersion : VersionInt
  mprivateInterfaceVersion : VersionInt
  deriving DecidableEq

namespace ClassInfo

/-- The constructor, for names that fit.
SOURCE: cpp/src/class_info.hpp:22-28 -/
def make (ns cn : S) (pubVer proVer priVer : VersionInt)
    (hns : ns.length < 100 := by decide) (hcn : cn.length < 100 := by decide) : ClassInfo :=
  ⟨CS.ofS ns hns, CS.ofS cn hcn, pubVer, proVer, priVer⟩

/-- `ClassInfo info;`: empty names and the versions `NULL_VERSION`. -/
def null : ClassInfo := make [] [] (-1) (-1) (-1)

/-- A class with a version is not the null one. -/
theorem make_ne_null {ns cn : S} {pubVer proVer priVer : VersionInt} {hns : ns.length < 100}
    {hcn : cn.length < 100} (hver : pubVer ≠ -1) :
    make ns cn pubVer proVer priVer hns hcn ≠ null := by
  intro h
  exact hver (congrArg mpublicInterfaceVersion h)

/-- SOURCE: cpp/src/class_info.hpp:40-45 -/
def fullClassName (info : ClassInfo) : Option S := do
  let ns ← info.mnamespace.toString?
  let cn ← info.mclassName.toString?
  pure (ns ++ W "::" ++ cn)

/-- The bytes of the struct: two arrays of 100 characters and three shorts, no padding. -/
def layout : Layout ClassInfo :=
  let name : Layout (CS 0 100) := CS.layout
  let version : Layout VersionInt := Layout.int16
  (name.prod (name.prod (version.prod (version.prod version)))).map
    { toFun := fun ⟨ns, cn, pubVer, proVer, priVer⟩ => ⟨ns, cn, pubVer, proVer, priVer⟩
      invFun := fun ⟨ns, cn, pubVer, proVer, priVer⟩ => ⟨ns, cn, pubVer, proVer, priVer⟩
      left_inv := fun _ => rfl
      right_inv := fun _ => rfl }

@[simp] theorem layout_width : layout.width = 206 := rfl

/-- SOURCE: cpp/src/class_info.hpp:63-66 -/
def bytes (info : ClassInfo) : List Byte := layout.encode info

@[simp] theorem bytes_length (info : ClassInfo) : info.bytes.length = 206 :=
  layout.encode_length info

@[simp] theorem decode_bytes (info : ClassInfo) : layout.decode info.bytes = info :=
  layout.decode_encode info

theorem fullClassName_make (ns cn : S) (pubVer proVer priVer : VersionInt)
    (hns : ns.length < 100) (hcn : cn.length < 100) (hns0 : NULL_CHAR ∉ ns)
    (hcn0 : NULL_CHAR ∉ cn) :
    (make ns cn pubVer proVer priVer hns hcn).fullClassName = some (ns ++ W "::" ++ cn) := by
  simp [fullClassName, make, CS.toString_ofS ns hns hns0, CS.toString_ofS cn hcn hcn0]

end ClassInfo

/-! ## Records -/

/-- What a class puts into a binary stream for its own data: its `INFO`, the bytes of its
`Data`, and the message it reports when another `ClassInfo` stands there. -/
structure RecordType (α : Type) where
  info : ClassInfo
  layout : Layout α
  mismatch : String
  info_ne_null : info ≠ ClassInfo.null
  width_pos : 0 < layout.width

namespace RecordType

variable {α : Type} (R : RecordType α)

/-- `bb.write (INFO.bytes ())` and then the data. -/
def write (bb : BinaryBuffer) (x : α) : BinaryBuffer :=
  (bb.write R.info.bytes).write (R.layout.encode x)

/-- Read a `ClassInfo`, compare it with `INFO`, and only if it is that one read over the
data. -/
def read (bb : BinaryBuffer) (x : α) : α × BinaryBuffer × Log :=
  let (info, bb, log) := bb.readPod ClassInfo.layout ClassInfo.null
  if info ≠ R.info then
    (x, bb, log ++ [R.mismatch])
  else
    let (x, bb, log') := bb.readPod R.layout x
    (x, bb, log ++ log')

end RecordType

end Pensar.Model
