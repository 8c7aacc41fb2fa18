import Pensar.Computation.Replay

/-!
# The writes of open transactions

Transactions write to two kinds of stores: to a log, where each write is one more entry, and
to cells, where the writer holds the cell until it ends and others see the version from before.
A commit makes the writes of a transaction permanent, a rollback takes them back.

What a store shows depends on the transactions `A` that one counts as committed, although they
may still be open; with none of them it is what every other session sees.  The rules say that a
commit or a rollback of `x` shows what the store already showed with `x` counted in or out.
-/

set_option autoImplicit false

namespace Pensar.Computation

variable {ξ α β : Type}

/-- `A` and `x`. -/
def including [DecidableEq ξ] (A : ξ → Bool) (x : ξ) : ξ → Bool := fun y => A y || decide (y = x)

/-- `A` without `x`. -/
def excluding [DecidableEq ξ] (A : ξ → Bool) (x : ξ) : ξ → Bool := fun y => A y && decide (y ≠ x)

/-! ## Entries -/

/-- An entry of a log, and its writer as long as that is open. -/
structure Tentative (ξ α : Type) where
  writer : Option ξ
  item : α
  deriving DecidableEq, Repr

namespace Tentative

def map (f : α → β) (entry : Tentative ξ α) : Tentative ξ β := ⟨entry.writer, f entry.item⟩

def visible (A : ξ → Bool) (entries : List (Tentative ξ α)) : List α :=
  (entries.filter fun entry => entry.writer.all A).map item

@[simp] theorem visible_nil (A : ξ → Bool) : visible A ([] : List (Tentative ξ α)) = [] := rfl

theorem visible_cons (A : ξ → Bool) (entry : Tentative ξ α) (entries : List (Tentative ξ α)) :
    visible A (entry :: entries) =
      if entry.writer.all A then entry.item :: visible A entries else visible A entries := by
  unfold visible
  rw [List.filter_cons]
  split <;> rfl

@[simp] theorem visible_append (A : ξ → Bool) (entries more : List (Tentative ξ α)) :
    visible A (entries ++ more) = visible A entries ++ visible A more := by
  simp [visible]

theorem visible_write (A : ξ → Bool) (x : ξ) (a : α) :
    visible A [⟨some x, a⟩] = if A x then [a] else [] := by
  simp [visible_cons]

theorem visible_sublist (A : ξ → Bool) (entries : List (Tentative ξ α)) :
    (visible A entries).Sublist (entries.map item) :=
  List.filter_sublist.map item

theorem visible_map (A : ξ → Bool) (f : α → β) (entries : List (Tentative ξ α)) :
    visible A (entries.map (map f)) = (visible A entries).map f := by
  induction entries with
  | nil => rfl
  | cons entry entries ih =>
    rw [List.map_cons, visible_cons, visible_cons, ih]
    have hwriter : (entry.map f).writer = entry.writer := rfl
    rw [hwriter]
    split <;> rfl

variable [DecidableEq ξ]

def commit (x : ξ) (entries : List (Tentative ξ α)) : List (Tentative ξ α) :=
  entries.map fun entry => if entry.writer = some x then ⟨none, entry.item⟩ else entry

def rollback (x : ξ) (entries : List (Tentative ξ α)) : List (Tentative ξ α) :=
  entries.filter fun entry => entry.writer ≠ some x

theorem visible_commit (A : ξ → Bool) (x : ξ) (entries : List (Tentative ξ α)) :
    visible A (commit x entries) = visible (including A x) entries := by
  induction entries with
  | nil => rfl
  | cons entry entries ih =>
    unfold commit at ih ⊢
    rw [List.map_cons, visible_cons, visible_cons, ih]
    by_cases hx : entry.writer = some x
    · simp [hx, including]
    · cases hwriter : entry.writer with
      | none => simp [hwriter]
      | some y =>
        have hy : y ≠ x := by simpa [hwriter] using hx
        simp [hwriter, hy, including]

theorem visible_rollback (A : ξ → Bool) (x : ξ) (entries : List (Tentative ξ α)) :
    visible A (rollback x entries) = visible (excluding A x) entries := by
  unfold rollback visible
  rw [List.filter_filter]
  congr 1
  apply List.filter_congr
  intro entry _
  cases hwriter : entry.writer with
  | none => simp
  | some y => simp [excluding]

theorem commit_map (x : ξ) (f : α → β) (entries : List (Tentative ξ α)) :
    commit x (entries.map (map f)) = (commit x entries).map (map f) := by
  unfold commit
  rw [List.map_map, List.map_map]
  apply List.map_congr_left
  intro entry _
  by_cases hx : entry.writer = some x
  · simp [map, hx]
  · simp [map, hx]

theorem rollback_map (x : ξ) (f : α → β) (entries : List (Tentative ξ α)) :
    rollback x (entries.map (map f)) = (rollback x entries).map (map f) := by
  unfold rollback
  rw [List.filter_map]
  rfl

theorem map_item_commit (x : ξ) (entries : List (Tentative ξ α)) :
    (commit x entries).map item = entries.map item := by
  unfold commit
  rw [List.map_map]
  apply List.map_congr_left
  intro entry _
  by_cases hx : entry.writer = some x
  · simp [hx]
  · simp [hx]

theorem rollback_sublist (x : ξ) (entries : List (Tentative ξ α)) :
    (rollback x entries).Sublist entries :=
  List.filter_sublist

/-- A committed entry with an item that is to be taken away. -/
def expired (p : α → Bool) (entry : Tentative ξ α) : Bool := entry.writer.isNone && p entry.item

omit [DecidableEq ξ] in
/-- Everyone sees the entries that are taken away. -/
theorem visible_perm_expired (A : ξ → Bool) (p : α → Bool) (entries : List (Tentative ξ α)) :
    (visible A entries).Perm (visible A (entries.filter fun entry => !expired p entry) ++
      (entries.filter (expired p)).map item) := by
  induction entries with
  | nil => exact List.Perm.refl _
  | cons entry entries ih =>
    rw [visible_cons, List.filter_cons, List.filter_cons]
    cases hexpired : expired p entry with
    | true =>
      have hwriter : entry.writer = none := by
        rw [expired, Bool.and_eq_true, Option.isNone_iff_eq_none] at hexpired
        exact hexpired.1
      simpa [hwriter] using (ih.cons entry.item).trans List.perm_middle.symm
    | false =>
      cases hvisible : entry.writer.all A with
      | true => simpa [visible_cons, hvisible] using ih
      | false => simpa [visible_cons, hvisible] using ih

end Tentative

/-! ## Cells -/

/-- A cell: its version for everyone, and the version of the transaction that holds it. -/
structure Cell (ξ α : Type) where
  committed : Option α
  pending : Option (ξ × Option α)
  deriving DecidableEq, Repr

namespace Cell

/-- A cell that nothing has been written to. -/
def blank : Cell ξ α := ⟨none, none⟩

def version (A : ξ → Bool) (cell : Cell ξ α) : Option α :=
  match cell.pending with
  | some (y, v) => if A y then v else cell.committed
  | none => cell.committed

@[simp] theorem version_blank (A : ξ → Bool) : (blank : Cell ξ α).version A = none := rfl

def write (x : ξ) (v : Option α) (cell : Cell ξ α) : Cell ξ α := ⟨cell.committed, some (x, v)⟩

@[simp] theorem version_write (A : ξ → Bool) (x : ξ) (v : Option α) (cell : Cell ξ α) :
    (cell.write x v).version A = if A x then v else cell.committed := rfl

/-- `a` is a version of the cell, for everyone or for the transaction that holds it. -/
def Shows (cell : Cell ξ α) (a : α) : Prop :=
  cell.committed = some a ∨ ∃ y, cell.pending = some (y, some a)

variable [DecidableEq ξ]

/-- No other transaction than `x` holds the cell. -/
def freeFor (x : ξ) (cell : Cell ξ α) : Bool := cell.pending.all fun held => held.1 = x

/-- What `x` sees in the cell. -/
def current (x : ξ) (cell : Cell ξ α) : Option α := cell.version fun y => decide (y = x)

def commit (x : ξ) (cell : Cell ξ α) : Cell ξ α :=
  match cell.pending with
  | some (y, v) => if y = x then ⟨v, none⟩ else cell
  | none => cell

def rollback (x : ξ) (cell : Cell ξ α) : Cell ξ α :=
  match cell.pending with
  | some (y, _) => if y = x then ⟨cell.committed, none⟩ else cell
  | none => cell

@[simp] theorem freeFor_blank (x : ξ) : (blank : Cell ξ α).freeFor x = true := rfl

@[simp] theorem current_blank (x : ξ) : (blank : Cell ξ α).current x = none := rfl

/-- Where `x` counts as committed, a cell that no other holds shows what `x` sees. -/
theorem version_eq_current {A : ξ → Bool} {x : ξ} {cell : Cell ξ α}
    (hfree : cell.freeFor x = true) (hA : A x = true) : cell.version A = cell.current x := by
  unfold freeFor at hfree
  unfold current version
  cases hpending : cell.pending with
  | none => rfl
  | some held =>
    obtain ⟨y, v⟩ := held
    have hy : y = x := by simpa [hpending] using hfree
    simp [hy, hA]

theorem version_eq_committed {A : ξ → Bool} {x : ξ} {cell : Cell ξ α}
    (hfree : cell.freeFor x = true) (hA : A x = false) : cell.version A = cell.committed := by
  unfold freeFor at hfree
  unfold version
  cases hpending : cell.pending with
  | none => rfl
  | some held =>
    obtain ⟨y, v⟩ := held
    have hy : y = x := by simpa [hpending] using hfree
    simp [hy, hA]

theorem version_commit (A : ξ → Bool) (x : ξ) (cell : Cell ξ α) :
    (cell.commit x).version A = cell.version (including A x) := by
  obtain ⟨committed, pending⟩ := cell
  cases pending with
  | none => rfl
  | some held =>
    obtain ⟨y, v⟩ := held
    by_cases hy : y = x
    · simp [commit, version, including, hy]
    · simp [commit, version, including, hy]

theorem version_rollback (A : ξ → Bool) (x : ξ) (cell : Cell ξ α) :
    (cell.rollback x).version A = cell.version (excluding A x) := by
  obtain ⟨committed, pending⟩ := cell
  cases pending with
  | none => rfl
  | some held =>
    obtain ⟨y, v⟩ := held
    by_cases hy : y = x
    · simp [rollback, version, excluding, hy]
    · simp [rollback, version, excluding, hy]

def versions (A : ξ → Bool) (cells : List (Cell ξ α)) : List α := cells.filterMap (version A)

omit [DecidableEq ξ] in
@[simp] theorem versions_append_blank (A : ξ → Bool) (cells : List (Cell ξ α)) :
    versions A (cells ++ [blank]) = versions A cells := by
  simp [versions]

theorem versions_commit (A : ξ → Bool) (x : ξ) (cells : List (Cell ξ α)) :
    versions A (cells.map (commit x)) = versions (including A x) cells := by
  unfold versions
  rw [List.filterMap_map]
  congr 1
  funext cell
  exact version_commit A x cell

theorem versions_rollback (A : ξ → Bool) (x : ξ) (cells : List (Cell ξ α)) :
    versions A (cells.map (rollback x)) = versions (excluding A x) cells := by
  unfold versions
  rw [List.filterMap_map]
  congr 1
  funext cell
  exact version_rollback A x cell

/-- What a list of cells shows before and after a write of `x` to one of them. -/
theorem versions_write {x : ξ} {cells : List (Cell ξ α)} {i : ℕ} {cell : Cell ξ α}
    (hcell : cells[i]? = some cell) (hfree : cell.freeFor x = true) (v : Option α)
    (A : ξ → Bool) :
    ∃ rest : Multiset α,
      (versions A cells : Multiset α) =
        present (if A x then cell.current x else cell.committed) + rest ∧
      (versions A (cells.set i (cell.write x v)) : Multiset α) =
        present (if A x then v else cell.committed) + rest := by
  obtain ⟨hi, rfl⟩ := List.getElem?_eq_some_iff.mp hcell
  obtain ⟨rest, hrest⟩ := exists_rest_filterMap_set (version A) cells i hi
  refine ⟨rest, ?_, hrest _⟩
  have hversion : cells[i].version A = if A x then cells[i].current x else cells[i].committed := by
    cases hA : A x with
    | true => exact version_eq_current hfree hA
    | false => exact version_eq_committed hfree hA
  have hbefore := hrest cells[i]
  rwa [List.set_getElem_self, hversion] at hbefore

end Cell

end Pensar.Computation
