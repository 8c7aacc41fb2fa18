import Pensar.Analysis.BinaryBufferSteps
import Pensar.Model.Generator
import Pensar.Model.Person

/-!
# Copying objects of derived classes

`assign` is meant to carry `Object`'s struct over.  When a derived object is copy
constructed the target is an `Object` and the source is not, so the first bytes of the
source's derived struct land in the target's id (`copyConstruct_id`).  When it is copy
assigned both are derived, so the derived struct is copied and the id is never touched
(`copyAssign_id`).  The derived struct itself arrives in both cases.
-/

set_option autoImplicit false

namespace Pensar.Analysis

open Pensar.Computation
open Pensar.Model

variable {δ : Type} (R : RecordType δ)

/-- The first eight bytes of the derived struct, read as an id. -/
def leadingId (x : δ) : Id := Id.layout.decode ((R.layout.encode x).take Id.layout.width)

theorem assign_object (hwidth : Id.layout.width ≤ R.layout.width) (self o : Derived δ) :
    Derived.assign R .object self o =
      some { self with object := ⟨leadingId R o.mdata⟩ } := by
  have hsrc : ¬ (o.data R .derived).length < Derived.dataSize R .object := by
    simpa [Derived.data, Derived.dataSize] using hwidth
  have hblock : (self.data R .object).length =
      ((o.data R .derived).take (Derived.dataSize R .object)).length := by
    simp only [Derived.data, Derived.dataSize, Layout.encode_length, List.length_take]
    omega
  unfold Derived.assign
  rw [if_neg hsrc, memcpyAt_zero hblock.le]
  rfl

theorem assign_derived (self o : Derived δ) :
    Derived.assign R .derived self o = some { self with mdata := o.mdata } := by
  have hsrc : ¬ (o.data R .derived).length < Derived.dataSize R .derived := by
    simp [Derived.data, Derived.dataSize]
  have hall : (o.data R .derived).take (Derived.dataSize R .derived) = R.layout.encode o.mdata :=
    List.take_of_length_le (by simp [Derived.data, Derived.dataSize])
  have hblock : (self.data R .derived).length = (R.layout.encode o.mdata).length := by
    simp [Derived.data]
  unfold Derived.assign
  rw [if_neg hsrc, hall, memcpyAt_zero hblock.le]
  simp [Derived.setData]

theorem copyConstruct_eq (hwidth : Id.layout.width ≤ R.layout.width) (storage x : Derived δ) :
    Derived.copyConstruct R storage x = some ⟨⟨leadingId R x.mdata⟩, x.mdata⟩ := by
  simp [Derived.copyConstruct, assign_object R hwidth]

theorem copyAssign_eq (y x : Derived δ) :
    Derived.copyAssign R y x = some ⟨y.object, x.mdata⟩ := by
  simp [Derived.copyAssign, assign_derived R]

/-- Both ways of copying `x`, into new storage and over `y`, give its id and its data. -/
def CopiesKeepIdentity (copyConstruct copyAssign : Derived δ → Derived δ → Option (Derived δ))
    (storage y x : Derived δ) : Prop :=
  ∃ c a, copyConstruct storage x = some c ∧ copyAssign y x = some a ∧
    (c.id = x.id ∧ c.mdata = x.mdata) ∧ (a.id = x.id ∧ a.mdata = x.mdata)

theorem copies_keep_identity_iff (hwidth : Id.layout.width ≤ R.layout.width)
    (storage y x : Derived δ) :
    CopiesKeepIdentity (Derived.copyConstruct R) (Derived.copyAssign R) storage y x ↔
      leadingId R x.mdata = x.id ∧ y.id = x.id := by
  simp [CopiesKeepIdentity, copyConstruct_eq R hwidth, copyAssign_eq, Derived.id, Object.id]

/-- A generator's struct begins with its initial value. -/
theorem leadingId_generator (d : Generator.Data) :
    leadingId Generator.record d = d.minitialValue := by
  have hbytes : Generator.Data.layout.encode d =
      Id.layout.encode d.minitialValue ++
        (Id.layout.encode d.mvalue ++ Id.layout.encode d.mstep) := rfl
  have htake : (Generator.Data.layout.encode d).take Id.layout.width =
      Id.layout.encode d.minitialValue := by
    rw [hbytes]
    exact List.take_left' (Id.layout.encode_length _)
  show Id.layout.decode ((Generator.Data.layout.encode d).take Id.layout.width) = _
  rw [htake, Layout.decode_encode]

/-- A person's struct begins with the characters of the first e-mail address. -/
theorem leadingId_person (d : Person.Data) :
    leadingId Person.record d = Id.layout.decode (d.memail1.mlocalPart.data.take 8) := by
  have hbytes : ∃ rest, Person.Data.layout.encode d = d.memail1.mlocalPart.data ++ rest :=
    ⟨_, List.append_assoc _ _ _⟩
  obtain ⟨rest, hrest⟩ := hbytes
  have htake : (Person.Data.layout.encode d).take 8 = d.memail1.mlocalPart.data.take 8 := by
    rw [hrest]
    exact List.take_append_of_le_length (by simp [CS.size_eq])
  show Id.layout.decode ((Person.Data.layout.encode d).take 8) = _
  rw [htake]

/-- **Copies keep identity exactly when the source's struct begins with its id and the
target of the assignment has that id already.** -/
theorem copies_iff_leading_id (gStorage gy gx : Generator) (pStorage py px : Person) :
    (CopiesKeepIdentity Generator.copyConstruct Generator.copyAssign gStorage gy gx ↔
        gx.mdata.minitialValue = gx.id ∧ gy.id = gx.id) ∧
    (CopiesKeepIdentity Person.copyConstruct Person.copyAssign pStorage py px ↔
        Id.layout.decode (px.mdata.memail1.mlocalPart.data.take 8) = px.id ∧ py.id = px.id) := by
  constructor
  · have h := copies_keep_identity_iff Generator.record (by decide) gStorage gy gx
    rwa [leadingId_generator] at h
  · have h := copies_keep_identity_iff Person.record (by simp [Person.record]) pStorage py px
    rwa [leadingId_person] at h

/-- The generator with id 1 that counts from 0: its copy has the id 0, and a generator
with another id keeps that when it is assigned. -/
theorem copies_lose_identity :
    ¬ ∀ storage y x : Generator,
      CopiesKeepIdentity Generator.copyConstruct Generator.copyAssign storage y x := by
  intro h
  obtain ⟨c, a, hc, -, ⟨hid, -⟩, -⟩ := h (.new 7) (.new 7) (.new 1)
  rw [Generator.copyConstruct, copyConstruct_eq Generator.record (by decide),
    leadingId_generator] at hc
  cases hc
  revert hid
  decide

end Pensar.Analysis
