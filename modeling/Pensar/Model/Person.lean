import Pensar.Model.Object

/-!
# `Person` (`contact/person.hpp`)

A person's record: five e-mail addresses, the name, the date of birth and five phone
numbers, all fixed strings, so that the whole struct is a block of 1770 bytes.
-/

set_option autoImplicit false

namespace Pensar.Model

open Pensar.Computation

/-- SOURCE: contact/contact.hpp:16 -/
abbrev ContactQualifier := Byte

/-- struct `Email`.
SOURCE: contact/e-mail.hpp:103-109 -/
@[ext] structure Email where
  mlocalPart : CS 0 64
  mdomain : CS 0 255
  mqualifier : ContactQualifier
  deriving DecidableEq

/-- class `PersonName`.
SOURCE: contact/person.hpp:38-47 -/
@[ext] structure PersonName where
  mfirst : CS 0 20
  mmiddle : CS 0 20
  mlast : CS 0 20
  deriving DecidableEq

/-- class `Date`, a `std::chrono::year_month_day`.
SOURCE: cpp/src/date.hpp:15-23 -/
@[ext] structure Date where
  year : BitVec 16
  month : Byte
  day : Byte
  deriving DecidableEq

/-- struct `PhoneNumber`.
SOURCE: contact/phone.hpp:20-29 -/
@[ext] structure PhoneNumber where
  mcountryCode : CS 0 4
  mareacode : CS 0 5
  mnumber : CS 0 11
  mqualifier : ContactQualifier
  deriving DecidableEq

def Email.layout : Layout Email :=
  (CS.layout.prod (CS.layout.prod Layout.byte)).map
    { toFun := fun ⟨localPart, domain, qualifier⟩ => ⟨localPart, domain, qualifier⟩
      invFun := fun ⟨localPart, domain, qualifier⟩ => ⟨localPart, domain, qualifier⟩
      left_inv := fun _ => rfl
      right_inv := fun _ => rfl }

def PersonName.layout : Layout PersonName :=
  (CS.layout.prod (CS.layout.prod CS.layout)).map
    { toFun := fun ⟨first, middle, last⟩ => ⟨first, middle, last⟩
      invFun := fun ⟨first, middle, last⟩ => ⟨first, middle, last⟩
      left_inv := fun _ => rfl
      right_inv := fun _ => rfl }

def Date.layout : Layout Date :=
  (Layout.int16.prod (Layout.byte.prod Layout.byte)).map
    { toFun := fun ⟨year, month, day⟩ => ⟨year, month, day⟩
      invFun := fun ⟨year, month, day⟩ => ⟨year, month, day⟩
      left_inv := fun _ => rfl
      right_inv := fun _ => rfl }

def PhoneNumber.layout : Layout PhoneNumber :=
  (CS.layout.prod (CS.layout.prod (CS.layout.prod Layout.byte))).map
    { toFun := fun ⟨countryCode, areacode, number, qualifier⟩ =>
        ⟨countryCode, areacode, number, qualifier⟩
      invFun := fun ⟨countryCode, areacode, number, qualifier⟩ =>
        ⟨countryCode, areacode, number, qualifier⟩
      left_inv := fun _ => rfl
      right_inv := fun _ => rfl }

/-- `Person::Data`; `_reserved` fills the tail.
SOURCE: contact/person.hpp:118-132 -/
@[ext] structure Person.Data where
  memail1 : Email
  memail2 : Email
  memail3 : Email
  memail4 : Email
  memail5 : Email
  mname : PersonName
  mdateOfBirth : Date
  mphone1 : PhoneNumber
  mphone2 : PhoneNumber
  mphone3 : PhoneNumber
  mphone4 : PhoneNumber
  mphone5 : PhoneNumber
  reserved : Byte
  deriving DecidableEq

abbrev Person := Derived Person.Data

namespace Person

/-- The members in the order they are declared, no padding. -/
def Data.layout : Layout Data :=
  let email := Email.layout
  let phone := PhoneNumber.layout
  (email.prod (email.prod (email.prod (email.prod (email.prod (PersonName.layout.prod
    (Date.layout.prod (phone.prod (phone.prod (phone.prod (phone.prod (phone.prod
      Layout.byte)))))))))))).map
    { toFun := fun ⟨email1, email2, email3, email4, email5, name, dateOfBirth,
          phone1, phone2, phone3, phone4, phone5, reserved⟩ =>
        ⟨email1, email2, email3, email4, email5, name, dateOfBirth,
          phone1, phone2, phone3, phone4, phone5, reserved⟩
      invFun := fun ⟨email1, email2, email3, email4, email5, name, dateOfBirth,
          phone1, phone2, phone3, phone4, phone5, reserved⟩ =>
        ⟨email1, email2, email3, email4, email5, name, dateOfBirth,
          phone1, phone2, phone3, phone4, phone5, reserved⟩
      left_inv := fun _ => rfl
      right_inv := fun _ => rfl }

@[simp] theorem Data.layout_width : Data.layout.width = 1770 := rfl

/-- SOURCE: contact/person.hpp:148 -/
def INFO : ClassInfo := .make CPPLIB_NAMESPACE (W "Person") 1 1 1 cpplibNamespace_length

def record : RecordType Data where
  info := INFO
  layout := Data.layout
  mismatch := "ClassInfo mismatch in Person::read"
  info_ne_null := ClassInfo.make_ne_null (by decide)
  width_pos := by simp

/-- SOURCE: contact/person.hpp:168-174 -/
def write (p : Person) (bb : BinaryBuffer) : BinaryBuffer := Derived.write record p bb

/-- SOURCE: contact/person.hpp:176-187 -/
def read (p : Person) (bb : BinaryBuffer) : Person × BinaryBuffer × Log :=
  Derived.read record p bb

def copyConstruct (storage x : Person) : Option Person := Derived.copyConstruct record storage x

def copyAssign (y x : Person) : Option Person := Derived.copyAssign record y x

end Person

end Pensar.Model
