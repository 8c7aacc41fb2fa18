import Mathlib.Data.List.TakeWhile
import Pensar.Interface.FixedStringHistory
import Pensar.Analysis.FixedStringText

/-!
# Fixed strings stay terminated

The invariant is that the last element of the array is NUL: `copy` writes at most
`MAX - 1` characters, and so does `+=` as long as the two lengths do not add up to `MAX`.
When they do, the test in `+=` lets them pass, the characters fill the array, and the NUL
is written behind it (`append_eq_undefined`).

Main result: `terminated_along_iff`.
-/

set_option autoImplicit false

namespace Pensar.Analysis

open Pensar.Computation
open Pensar.Model
open Pensar.Interface

variable {MIN MAX : ℕ} {cs as : Bool}

/-! ## Results of operations -/

/-- What an operation has to deliver for the new value, if there is one, to satisfy `P`. -/
def Delivers (P : CS MIN MAX cs as → Prop)
    (result : Outcome (Except String (CS MIN MAX cs as))) : Prop :=
  result.Safe fun r => ∀ v, r = .ok v → P v

section Store

variable {P : CS MIN MAX cs as → Prop} {values : List (CS MIN MAX cs as)}

theorem delivers_value (r : Except String (CS MIN MAX cs as)) :
    Delivers P (.value r) ↔ ∀ v, r = .ok v → P v := Iff.rfl

theorem delivers_ok (v : CS MIN MAX cs as) : Delivers P (.value (.ok v)) ↔ P v := by
  simp [delivers_value]

theorem produce_safe_iff (hvalues : ∀ v ∈ values, P v)
    (result : Outcome (Except String (CS MIN MAX cs as))) :
    (produce values result).Safe (fun vs => ∀ v ∈ vs, P v) ↔ Delivers P result := by
  match result with
  | .value (.ok v) =>
    rw [delivers_ok]
    show (∀ x ∈ values ++ [v], P x) ↔ P v
    constructor
    · intro h
      exact h v (by simp)
    · intro hv x hx
      rcases List.mem_append.mp hx with hx | hx
      · exact hvalues x hx
      · rwa [List.mem_singleton.mp hx]
  | .value (.error message) => exact iff_of_true hvalues fun v h => by cases h
  | .undefined => exact Iff.rfl
  | .terminated => exact Iff.rfl

theorem change_safe_iff (hvalues : ∀ v ∈ values, P v) {i : ℕ} (hi : i < values.length)
    (result : Outcome (Except String (CS MIN MAX cs as))) :
    (change values i result).Safe (fun vs => ∀ v ∈ vs, P v) ↔ Delivers P result := by
  match result with
  | .value (.ok v) =>
    rw [delivers_ok]
    show (∀ x ∈ values.set i v, P x) ↔ P v
    constructor
    · intro h
      exact h v (List.mem_set hi v)
    · intro hv x hx
      rcases List.mem_or_eq_of_mem_set hx with hx | rfl
      · exact hvalues x hx
      · exact hv
  | .value (.error message) => exact iff_of_true hvalues fun v h => by cases h
  | .undefined => exact Iff.rfl
  | .terminated => exact Iff.rfl

theorem withValue_safe_iff {Q : List (CS MIN MAX cs as) → Prop} (hvalues : Q values) (i : ℕ)
    (f : CS MIN MAX cs as → Outcome (List (CS MIN MAX cs as))) :
    (withValue values i f).Safe Q ↔ ∀ v, values[i]? = some v → (f v).Safe Q := by
  unfold withValue
  cases values[i]? with
  | none => exact iff_of_true hvalues fun v h => by cases h
  | some v => simp

/-- An operation on one value keeps `P` if it delivers values with `P`. -/
theorem withValue_change_safe (hvalues : ∀ v ∈ values, P v) (i : ℕ)
    (f : CS MIN MAX cs as → Outcome (Except String (CS MIN MAX cs as)))
    (hf : ∀ v, P v → Delivers P (f v)) :
    (withValue values i fun v => change values i (f v)).Safe fun vs => ∀ v ∈ vs, P v := by
  apply (withValue_safe_iff hvalues i _).mpr
  intro v hv
  have hi := (List.getElem?_eq_some_iff.mp hv).1
  exact (change_safe_iff hvalues hi _).mpr (hf v (hvalues v (List.mem_of_getElem? hv)))

end Store

/-! ## The last element -/

def LastNull (v : CS MIN MAX cs as) : Prop := v.data[MAX - 1]? = some NULL_CHAR

/-- Some index below `MAX` holds NUL, and so the length is below `MAX`. -/
def Terminated (v : CS MIN MAX cs as) : Prop :=
  (∃ i < MAX, v.data[i]? = some NULL_CHAR) ∧ ∃ n < MAX, v.length? = some n

theorem LastNull.terminated {v : CS MIN MAX cs as} (h : LastNull v) : Terminated v := by
  have hlt := (List.getElem?_eq_some_iff.mp h).1
  rw [v.size_eq] at hlt
  exact ⟨⟨MAX - 1, hlt, h⟩, length_of_mem (List.mem_of_getElem? h)⟩

theorem new_lastNull (h : 0 < MAX) : LastNull (CS.new : CS MIN MAX cs as) := by
  unfold LastNull CS.new
  rw [List.getElem?_replicate, if_pos (by omega)]

/-- `memcpy` changes nothing behind what it writes. -/
theorem memcpyAt_getElem? {buffer src : List Byte} {i k : ℕ} (hi : i ≤ buffer.length)
    (hk : i + src.length ≤ k) : (memcpyAt buffer i src)[k]? = buffer[k]? := by
  unfold memcpyAt
  have hlen : (buffer.take i ++ src).length = i + src.length := by
    rw [List.length_append, List.length_take, Nat.min_eq_left hi]
  rw [List.getElem?_append_right (by omega), hlen, List.getElem?_drop]
  congr 1
  omega

theorem set_null_getElem? {data : List C} {i k : ℕ} (h : data[k]? = some NULL_CHAR) :
    (data.set i NULL_CHAR)[k]? = some NULL_CHAR := by
  by_cases hik : i = k
  · subst hik
    rw [List.getElem?_set_self (List.getElem?_eq_some_iff.mp h).1]
  · rw [List.getElem?_set_ne hik, h]

theorem copy_lastNull {self v : CS MIN MAX cs as} {s : S} {addNullAtEnd fillNullBeforeCopy : Bool}
    (h : self.copy s addNullAtEnd fillNullBeforeCopy = .ok v)
    (hself : fillNullBeforeCopy = true ∨ LastNull self) : LastNull v := by
  unfold CS.copy at h
  split at h
  case isTrue => cases h
  case isFalse hmax =>
    split at h
    case isTrue => cases h
    case isFalse hmin =>
      have hfilled : (if fillNullBeforeCopy then self.fillNull else self).data[MAX - 1]? =
          some NULL_CHAR := by
        cases fillNullBeforeCopy with
        | true =>
          have hnew : LastNull (CS.new : CS MIN MAX cs as) := new_lastNull (by omega)
          exact hnew
        | false => exact hself.resolve_left Bool.false_ne_true
      have hcopied : (memcpyAt (if fillNullBeforeCopy then self.fillNull else self).data 0
          s)[MAX - 1]? = (if fillNullBeforeCopy then self.fillNull else self).data[MAX - 1]? :=
        memcpyAt_getElem? (Nat.zero_le _) (by omega)
      rw [hfilled] at hcopied
      simp only at h
      split at h
      · cases h
        exact set_null_getElem? hcopied
      · cases h
        exact hcopied

theorem copy_delivers {self : CS MIN MAX cs as} {s : S} {addNullAtEnd fillNullBeforeCopy : Bool}
    (hself : fillNullBeforeCopy = true ∨ LastNull self) :
    Delivers LastNull (.value (self.copy s addNullAtEnd fillNullBeforeCopy)) := by
  rw [delivers_value]
  intro v hv
  exact copy_lastNull hv hself

theorem assignString_delivers (self : CS MIN MAX cs as) (s : S) :
    Delivers LastNull ((self.assignString s) >>= fun v => .value (.ok v)) := by
  unfold CS.assignString
  cases hcopy : self.copy s with
  | error message => exact trivial
  | ok v => exact (delivers_ok v).mpr (copy_lastNull hcopy (Or.inl rfl))

theorem assign_delivers (self : CS MIN MAX cs as) {other : CS MIN MAX cs as}
    (hother : LastNull other) (same : Bool) :
    Delivers LastNull (self.assign other same) := by
  obtain ⟨n, -, hn⟩ := hother.terminated.2
  unfold CS.assign
  rw [hn]
  exact copy_delivers (Or.inl rfl)

/-! ## `+=` -/

section Append

variable {v w : CS MIN MAX cs as} {n m : ℕ}

theorem append_eq_error (hn : v.length? = some n) (hm : w.length? = some m) (h : MAX < n + m) :
    v.append w = .value (.error ("CString is too long. Max size is " ++ toString MAX)) := by
  unfold CS.append
  rw [hn, hm]
  exact dif_pos h

/-- Lengths that add up to `MAX` pass the test, and the NUL goes behind the array. -/
theorem append_eq_undefined (hn : v.length? = some n) (hm : w.length? = some m)
    (h : n + m = MAX) : v.append w = .undefined := by
  unfold CS.append
  rw [hn, hm]
  simp only
  rw [dif_neg (by omega), if_neg (by omega)]

theorem append_eq_ok (hn : v.length? = some n) (hm : w.length? = some m) (h : n + m < MAX) :
    ∃ u : CS MIN MAX cs as, v.append w = .value (.ok u) ∧
      u.data = (memcpyAt v.data n (w.data.take m)).set (n + m) NULL_CHAR := by
  unfold CS.append
  rw [hn, hm]
  simp only
  rw [dif_neg (by omega), if_pos h]
  exact ⟨_, rfl, rfl⟩

end Append

theorem append_delivers_iff {v w : CS MIN MAX cs as} (hv : LastNull v) (hw : LastNull w) :
    Delivers LastNull (v.append w) ↔
      ∀ n m, v.length? = some n → w.length? = some m → n + m ≠ MAX := by
  obtain ⟨n, hnlt, hn⟩ := hv.terminated.2
  obtain ⟨m, hmlt, hm⟩ := hw.terminated.2
  constructor
  · intro h n' m' hn' hm' hsum
    rw [append_eq_undefined hn' hm' hsum] at h
    exact h
  · intro h
    have hsum : n + m ≠ MAX := h n m hn hm
    by_cases hlong : MAX < n + m
    · rw [append_eq_error hn hm hlong]
      intro u hu
      cases hu
    · obtain ⟨u, happend, hdata⟩ := append_eq_ok hn hm (by omega)
      rw [happend, delivers_ok]
      unfold LastNull
      rw [hdata]
      apply set_null_getElem?
      rw [memcpyAt_getElem?]
      · exact hv
      · rw [v.size_eq]
        omega
      · rw [List.length_take, w.size_eq]
        omega

/-! ## Histories -/

/-- The two strings of `+=` and `+` do not have exactly `MAX` characters together.  (And a
string that is default constructed has room for its NUL.) -/
def LeavesRoom (values : List (CS MIN MAX cs as)) : CSCall MIN MAX cs as → Prop
  | .append value source | .plus value source =>
    ∀ v w, values[value]? = some v → values[source]? = some w →
      ∀ n m, v.length? = some n → w.length? = some m → n + m ≠ MAX
  | .constructDefault => 0 < MAX
  | _ => True

theorem csStep_keeps_lastNull {values : List (CS MIN MAX cs as)}
    (hvalues : ∀ v ∈ values, LastNull v) (call : CSCall MIN MAX cs as)
    (hcall : LeavesRoom values call) :
    (csStep values call).Safe fun vs => ∀ v ∈ vs, LastNull v := by
  have hat : ∀ {i : ℕ} {v : CS MIN MAX cs as}, values[i]? = some v → LastNull v :=
    fun h => hvalues _ (List.mem_of_getElem? h)
  have hlt : ∀ {i : ℕ} {v : CS MIN MAX cs as}, values[i]? = some v → i < values.length :=
    fun h => (List.getElem?_eq_some_iff.mp h).1
  cases call with
  | constructDefault =>
    exact (produce_safe_iff hvalues _).mpr ((delivers_ok _).mpr (new_lastNull hcall))
  | construct storage str =>
    exact (produce_safe_iff hvalues _).mpr (copy_delivers (Or.inl rfl))
  | constructC storage str =>
    exact (produce_safe_iff hvalues _).mpr (copy_delivers (Or.inl rfl))
  | constructCopy source =>
    apply (withValue_safe_iff hvalues source _).mpr
    intro v hv
    exact (produce_safe_iff hvalues _).mpr ((delivers_ok v).mpr (hat hv))
  | copy value str addNullAtEnd fillNullBeforeCopy =>
    apply withValue_change_safe hvalues value
    intro v hv
    exact copy_delivers (Or.inr hv)
  | copyC value str =>
    apply withValue_change_safe hvalues value
    intro v hv
    exact copy_delivers (Or.inl rfl)
  | assignString value str =>
    apply withValue_change_safe hvalues value
    intro v hv
    exact assignString_delivers v str
  | assignC value str =>
    apply withValue_change_safe hvalues value
    intro v hv
    exact copy_delivers (Or.inl rfl)
  | copyAssign value source =>
    apply (withValue_safe_iff hvalues source _).mpr
    intro w hw
    by_cases hvalue : value < values.length
    · exact (change_safe_iff hvalues hvalue _).mpr ((delivers_ok w).mpr (hat hw))
    · show ∀ x ∈ values.set value w, LastNull x
      rwa [List.set_eq_of_length_le (by omega)]
  | assign value source =>
    apply (withValue_safe_iff hvalues value _).mpr
    intro v hv
    apply (withValue_safe_iff hvalues source _).mpr
    intro w hw
    exact (change_safe_iff hvalues (hlt hv) _).mpr (assign_delivers v (hat hw) _)
  | read value is =>
    apply withValue_change_safe hvalues value
    intro v hv
    exact copy_delivers (Or.inl rfl)
  | append value source =>
    apply (withValue_safe_iff hvalues value _).mpr
    intro v hv
    apply (withValue_safe_iff hvalues source _).mpr
    intro w hw
    exact (change_safe_iff hvalues (hlt hv) _).mpr
      ((append_delivers_iff (hat hv) (hat hw)).mpr (hcall v w hv hw))
  | plus value source =>
    apply (withValue_safe_iff hvalues value _).mpr
    intro v hv
    apply (withValue_safe_iff hvalues source _).mpr
    intro w hw
    exact (produce_safe_iff hvalues _).mpr
      ((append_delivers_iff (hat hv) (hat hw)).mpr (hcall v w hv hw))

theorem leavesRoom_of_safe {values : List (CS MIN MAX cs as)} (call : CSCall MIN MAX cs as)
    (hsafe : (csStep values call).Safe fun vs => ∀ v ∈ vs, Terminated v) :
    LeavesRoom values call := by
  cases call with
  | constructDefault =>
    have hnew : Terminated (CS.new : CS MIN MAX cs as) :=
      hsafe CS.new (List.mem_append_right _ List.mem_cons_self)
    obtain ⟨⟨i, hi, -⟩, -⟩ := hnew
    exact Nat.zero_lt_of_lt hi
  | append value source =>
    intro v w hv hw n m hn hm hsum
    simp only [csStep, withValue, hv, hw, append_eq_undefined hn hm hsum] at hsafe
    exact hsafe
  | plus value source =>
    intro v w hv hw n m hn hm hsum
    simp only [csStep, withValue, hv, hw, CS.plus, append_eq_undefined hn hm hsum] at hsafe
    exact hsafe
  | _ => exact trivial

/-- **Termination.**  Along a history every value keeps a NUL in its array and nothing is
written behind one, exactly when no `+=` and no `+` has two strings of exactly `MAX`
characters together. -/
theorem terminated_along_iff (calls : List (CSCall MIN MAX cs as)) :
    MeetsAlong csStep (fun values call => (csStep values call).Safe fun vs =>
        ∀ v ∈ vs, Terminated v) [] calls ↔
      MeetsAlong csStep LeavesRoom [] calls :=
  safe_along_iff csStep (fun values => ∀ v ∈ values, LastNull v)
    (fun values => ∀ v ∈ values, Terminated v) LeavesRoom (fun _ => True)
    (fun _ h v hv => (h v hv).terminated)
    (fun _ call _ hvalues hcall => csStep_keeps_lastNull hvalues call hcall)
    (fun _ call _ _ hsafe => leavesRoom_of_safe call hsafe)
    [] calls (fun _ _ => trivial) (by simp)

/-- `"ab" += "ab"` in an array of four. -/
theorem not_terminated_append_full :
    ¬ MeetsAlong csStep (fun values call => (csStep values call).Safe fun vs =>
        ∀ v ∈ vs, Terminated v) []
      [.construct (CS.new : CS 0 4) (W "ab"), .construct CS.new (W "ab"), .append 0 1] := by
  intro h
  have hrest := h.2 _ rfl
  have hlast := (hrest.2 _ rfl).1
  exact hlast

end Pensar.Analysis
