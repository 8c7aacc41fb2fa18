import Mathlib.Data.List.Flatten
import Mathlib.Data.List.Nodup
import Mathlib.Data.List.Perm.Basic

/-!
# Rows that refer to each other

The rows of all the tables of a database, with the constraints that a schema declares for them:
keys, unique values, checks, and foreign keys of two kinds.  Where a row that is referred to is
deleted, a `cascade` reference has the row that holds it deleted as well, and a `weak` one is set
to `NULL`.

A statement that inserts or updates a row is refused if the row breaks a constraint.  A statement
that deletes one is carried out as the triggers of the foreign keys do it: the rows that refer to
a deleted row are deleted, then the rows that refer to those, one deleted key after the other.

* `Schema.insert_consistent`, `Schema.update_consistent`, `Schema.delete_consistent`: no statement
  breaks a constraint, though a delete checks none.
* `Schema.delete_eq`: what a delete leaves are the rows from which no chain of `cascade`
  references leads to the deleted one.
* `Schema.deleteAll_eq`: several deletes can come in any order.
-/

set_option autoImplicit false

namespace Pensar.Computation

theorem map_filter_map_filter {α β γ : Type} (l : List α) (p : α → Bool) (f : α → β)
    (q : β → Bool) (g : β → γ) :
    (((l.filter p).map f).filter q).map g =
      (l.filter fun a => p a && q (f a)).map fun a => g (f a) := by
  induction l with
  | nil => rfl
  | cons a l ih =>
    cases hp : p a with
    | false => simp [hp, ih]
    | true =>
      cases hq : q (f a) with
      | false => simpa [hp, hq] using ih
      | true => simpa [hp, hq] using ih

/-- The constraints of a row.  `setNull p` sets the weak references to the keys of `p` to
`NULL`. -/
structure Schema (R K U : Type) where
  key : R → K
  cascade : R → List K
  weak : R → List K
  unique : R → List U
  check : R → Bool
  setNull : (K → Bool) → R → R
  unique_nodup : ∀ r, (unique r).Nodup
  key_setNull : ∀ p r, key (setNull p r) = key r
  cascade_setNull : ∀ p r, cascade (setNull p r) = cascade r
  weak_setNull : ∀ p r, weak (setNull p r) = (weak r).filter fun k => !p k
  unique_setNull : ∀ p r, unique (setNull p r) = unique r
  check_setNull : ∀ p r, check (setNull p r) = check r
  setNull_setNull : ∀ p q r, setNull p (setNull q r) = setNull (fun k => q k || p k) r
  setNull_eq_self : ∀ p r, (∀ k ∈ weak r, p k = false) → setNull p r = r

namespace Schema

variable {R K U : Type} (S : Schema R K U)

/-! ## Constraints -/

structure Consistent (rows : List R) : Prop where
  keys : (rows.map S.key).Nodup
  cascade : ∀ r ∈ rows, ∀ k ∈ S.cascade r, k ∈ rows.map S.key
  weak : ∀ r ∈ rows, ∀ k ∈ S.weak r, k ∈ rows.map S.key
  unique : (rows.flatMap S.unique).Nodup
  check : ∀ r ∈ rows, S.check r = true

theorem consistent_nil : S.Consistent [] where
  keys := List.nodup_nil
  cascade := by simp
  weak := by simp
  unique := List.nodup_nil
  check := by simp

theorem setNull_congr (p q : K → Bool) (r : R) (h : ∀ k ∈ S.weak r, p k = q k) :
    S.setNull p r = S.setNull q r := by
  have hq : S.setNull p (S.setNull q r) = S.setNull q r := by
    refine S.setNull_eq_self _ _ fun k hk => ?_
    rw [S.weak_setNull, List.mem_filter] at hk
    rw [h k hk.1]
    simpa using hk.2
  have hp : S.setNull q (S.setNull p r) = S.setNull p r := by
    refine S.setNull_eq_self _ _ fun k hk => ?_
    rw [S.weak_setNull, List.mem_filter] at hk
    rw [← h k hk.1]
    simpa using hk.2
  rw [← hq, ← hp, S.setNull_setNull, S.setNull_setNull]
  simp only [Bool.or_comm]

/-- A change of rows that the constraints do not see. -/
structure Invisible (f : R → R) : Prop where
  key : ∀ r, S.key (f r) = S.key r
  cascade : ∀ r, S.cascade (f r) = S.cascade r
  weak : ∀ r, S.weak (f r) = S.weak r
  unique : ∀ r, S.unique (f r) = S.unique r
  check : ∀ r, S.check (f r) = S.check r

theorem Invisible.keys_map {f : R → R} (hf : S.Invisible f) (rows : List R) :
    (rows.map f).map S.key = rows.map S.key := by
  rw [List.map_map]
  exact List.map_congr_left fun r _ => hf.key r

theorem Invisible.consistent_map {f : R → R} (hf : S.Invisible f) {rows : List R}
    (h : S.Consistent rows) : S.Consistent (rows.map f) where
  keys := by
    rw [hf.keys_map]
    exact h.keys
  cascade := by
    rw [hf.keys_map]
    intro r hr k hk
    obtain ⟨x, hx, rfl⟩ := List.mem_map.mp hr
    exact h.cascade x hx k (hf.cascade x ▸ hk)
  weak := by
    rw [hf.keys_map]
    intro r hr k hk
    obtain ⟨x, hx, rfl⟩ := List.mem_map.mp hr
    exact h.weak x hx k (hf.weak x ▸ hk)
  unique := by
    rw [List.flatMap_map]
    simp only [hf.unique]
    exact h.unique
  check := by
    intro r hr
    obtain ⟨x, hx, rfl⟩ := List.mem_map.mp hr
    rw [hf.check]
    exact h.check x hx

variable [DecidableEq K]

/-- The rows with another key than that one. -/
def others (rows : List R) (k : K) : List R := rows.filter fun r => S.key r ≠ k

/-- The row fits with the others; it may refer to itself. -/
def Accepts (rows : List R) (new : R) : Prop :=
  (∀ k ∈ S.cascade new ++ S.weak new, k = S.key new ∨ k ∈ rows.map S.key) ∧
    (∀ u ∈ S.unique new, u ∉ (S.others rows (S.key new)).flatMap S.unique) ∧
    S.check new = true

instance [DecidableEq U] (rows : List R) (new : R) : Decidable (S.Accepts rows new) :=
  inferInstanceAs (Decidable (_ ∧ _ ∧ _))

/-! ## Statements -/

def insert [DecidableEq U] (rows : List R) (new : R) : Option (List R) :=
  if S.key new ∉ rows.map S.key ∧ S.Accepts rows new then some (rows ++ [new]) else none

/-- The rows with the one of that key replaced. -/
def replace (rows : List R) (new : R) : List R :=
  rows.map fun r => if S.key r = S.key new then new else r

def update [DecidableEq U] (rows : List R) (new : R) : Option (List R) :=
  if S.Accepts rows new then some (S.replace rows new) else none

/-- The keys of the rows that refer to that key. -/
def referring (rows : List R) (k : K) : List K :=
  (rows.filter fun r => k ∈ S.cascade r).map S.key

/-- The rows that are left when the references to a key have been dealt with. -/
def round (rows : List R) (k : K) : List R :=
  (rows.filter fun r => k ∉ S.cascade r).map (S.setNull (· = k))

theorem length_round_add (rows : List R) (k : K) :
    (S.round rows k).length + (S.referring rows k).length = rows.length := by
  have hsplit := (List.filter_append_perm (fun r => decide (k ∈ S.cascade r)) rows).length_eq
  simp only [List.length_append] at hsplit
  simp only [round, referring, List.length_map, decide_not]
  omega

/-- What the triggers do for rows that were deleted: for the first of their keys, the rows that
refer to it are deleted or have their reference set to `NULL`, and the keys of the deleted ones
are dealt with next. -/
def cascadeDelete (rows : List R) : List K → List R
  | [] => rows
  | k :: pending => cascadeDelete (S.round rows k) (S.referring rows k ++ pending)
termination_by pending => 2 * rows.length + pending.length
decreasing_by
  have hlength := S.length_round_add rows k
  rw [List.length_append, List.length_cons]
  omega

/-- The row of that key is deleted. -/
def delete (rows : List R) (k : K) : List R :=
  S.cascadeDelete (S.others rows k) ((rows.filter fun r => S.key r = k).map S.key)

/-! ## Inserting and updating -/

theorem others_eq_self {rows : List R} {k : K} (h : k ∉ rows.map S.key) :
    S.others rows k = rows := by
  unfold others
  rw [List.filter_eq_self]
  intro r hr
  refine decide_eq_true ?_
  rintro rfl
  exact h (List.mem_map_of_mem hr)

theorem insert_eq_some_iff [DecidableEq U] {rows rows' : List R} {new : R} :
    S.insert rows new = some rows' ↔
      S.key new ∉ rows.map S.key ∧ S.Accepts rows new ∧ rows' = rows ++ [new] := by
  unfold insert
  split
  · next h => simp [h.2, show S.key new ∉ rows.map S.key from h.1, eq_comm]
  · next h =>
    constructor
    · intro hnone
      cases hnone
    · rintro ⟨hkey, haccepts, -⟩
      exact absurd ⟨hkey, haccepts⟩ h

theorem update_eq_some_iff [DecidableEq U] {rows rows' : List R} {new : R} :
    S.update rows new = some rows' ↔ S.Accepts rows new ∧ rows' = S.replace rows new := by
  unfold update
  split
  · next h => simp [h, eq_comm]
  · next h => simp [h]

/-- **A row that is inserted breaks no constraint.** -/
theorem insert_consistent [DecidableEq U] {rows rows' : List R} {new : R} (h : S.Consistent rows)
    (hinsert : S.insert rows new = some rows') : S.Consistent rows' := by
  obtain ⟨hkey, ⟨hrefs, hunique, hcheck⟩, rfl⟩ := S.insert_eq_some_iff.mp hinsert
  rw [S.others_eq_self hkey] at hunique
  have hkeys : (rows ++ [new]).map S.key = rows.map S.key ++ [S.key new] := by simp
  have hnew : ∀ k ∈ S.cascade new ++ S.weak new, k ∈ (rows ++ [new]).map S.key := by
    intro k hk
    rw [hkeys]
    rcases hrefs k hk with rfl | hmem
    · exact List.mem_append_right _ (List.mem_singleton_self _)
    · exact List.mem_append_left _ hmem
  refine ⟨?_, ?_, ?_, ?_, ?_⟩
  · rw [hkeys]
    exact h.keys.append (List.nodup_singleton _) (List.disjoint_singleton.mpr hkey)
  · intro r hr k hk
    rcases List.mem_append.mp hr with hr | hr
    · rw [hkeys]
      exact List.mem_append_left _ (h.cascade r hr k hk)
    · obtain rfl := List.mem_singleton.mp hr
      exact hnew k (List.mem_append_left _ hk)
  · intro r hr k hk
    rcases List.mem_append.mp hr with hr | hr
    · rw [hkeys]
      exact List.mem_append_left _ (h.weak r hr k hk)
    · obtain rfl := List.mem_singleton.mp hr
      exact hnew k (List.mem_append_right _ hk)
  · rw [List.flatMap_append, List.flatMap_singleton]
    refine h.unique.append (S.unique_nodup new) ?_
    intro u hu hu'
    exact hunique u hu' hu
  · intro r hr
    rcases List.mem_append.mp hr with hr | hr
    · exact h.check r hr
    · obtain rfl := List.mem_singleton.mp hr
      exact hcheck

@[simp] theorem keys_replace (rows : List R) (new : R) :
    (S.replace rows new).map S.key = rows.map S.key := by
  unfold replace
  rw [List.map_map]
  refine List.map_congr_left fun r _ => ?_
  by_cases hr : S.key r = S.key new <;> simp [hr]

theorem mem_replace_iff {rows : List R} {new r : R} :
    r ∈ S.replace rows new ↔
      (r = new ∧ S.key new ∈ rows.map S.key) ∨ (r ∈ rows ∧ S.key r ≠ S.key new) := by
  constructor
  · intro h
    obtain ⟨x, hx, rfl⟩ := List.mem_map.mp h
    by_cases hkey : S.key x = S.key new
    · rw [if_pos hkey]
      exact Or.inl ⟨rfl, hkey ▸ List.mem_map_of_mem hx⟩
    · rw [if_neg hkey]
      exact Or.inr ⟨hx, hkey⟩
  · rintro (⟨rfl, hmem⟩ | ⟨hr, hkey⟩)
    · obtain ⟨x, hx, hkey⟩ := List.mem_map.mp hmem
      exact List.mem_map.mpr ⟨x, hx, if_pos hkey⟩
    · exact List.mem_map.mpr ⟨r, hr, if_neg hkey⟩

theorem replace_eq_self {rows : List R} {new : R} (h : S.key new ∉ rows.map S.key) :
    S.replace rows new = rows := by
  unfold replace
  refine (List.map_congr_left fun r hr => if_neg ?_).trans (List.map_id rows)
  intro hkey
  exact h (hkey ▸ List.mem_map_of_mem hr)

omit [DecidableEq K] in
/-- The row of a key, and the rows around it. -/
theorem exists_split {rows : List R} (h : (rows.map S.key).Nodup) {k : K}
    (hk : k ∈ rows.map S.key) :
    ∃ before r after, rows = before ++ r :: after ∧ S.key r = k ∧
      k ∉ before.map S.key ∧ k ∉ after.map S.key := by
  obtain ⟨r, hr, rfl⟩ := List.mem_map.mp hk
  obtain ⟨before, after, rfl⟩ := List.append_of_mem hr
  rw [List.map_append, List.map_cons, List.nodup_middle, List.nodup_cons, List.mem_append,
    not_or] at h
  exact ⟨before, r, after, rfl, rfl, h.1.1, h.1.2⟩

theorem replace_split {before after : List R} {r new : R} (hr : S.key r = S.key new)
    (hbefore : S.key new ∉ before.map S.key) (hafter : S.key new ∉ after.map S.key) :
    S.replace (before ++ r :: after) new = before ++ new :: after := by
  have hb := S.replace_eq_self hbefore
  have ha := S.replace_eq_self hafter
  unfold replace at *
  simp [hb, ha, hr]

theorem others_split {before after : List R} {r : R} (hbefore : S.key r ∉ before.map S.key)
    (hafter : S.key r ∉ after.map S.key) :
    S.others (before ++ r :: after) (S.key r) = before ++ after := by
  have hb := S.others_eq_self hbefore
  have ha := S.others_eq_self hafter
  unfold others at *
  rw [List.filter_append, hb, List.filter_cons_of_neg (by simp), ha]

/-- **A row that is updated breaks no constraint.** -/
theorem update_consistent [DecidableEq U] {rows rows' : List R} {new : R} (h : S.Consistent rows)
    (hupdate : S.update rows new = some rows') : S.Consistent rows' := by
  obtain ⟨⟨hrefs, hunique, hcheck⟩, rfl⟩ := S.update_eq_some_iff.mp hupdate
  by_cases hkey : S.key new ∈ rows.map S.key
  · have hnew : ∀ k ∈ S.cascade new ++ S.weak new, k ∈ rows.map S.key := by
      intro k hk
      rcases hrefs k hk with rfl | hmem
      · exact hkey
      · exact hmem
    refine ⟨?_, ?_, ?_, ?_, ?_⟩
    · rw [S.keys_replace]
      exact h.keys
    · intro r hr k hk
      rw [S.keys_replace]
      rcases S.mem_replace_iff.mp hr with ⟨rfl, -⟩ | ⟨hmem, -⟩
      · exact hnew k (List.mem_append_left _ hk)
      · exact h.cascade r hmem k hk
    · intro r hr k hk
      rw [S.keys_replace]
      rcases S.mem_replace_iff.mp hr with ⟨rfl, -⟩ | ⟨hmem, -⟩
      · exact hnew k (List.mem_append_right _ hk)
      · exact h.weak r hmem k hk
    · obtain ⟨before, r, after, rfl, hr, hbefore, hafter⟩ := S.exists_split h.keys hkey
      rw [S.replace_split hr hbefore hafter]
      rw [← hr] at hbefore hafter hunique
      rw [S.others_split hbefore hafter] at hunique
      have hall := h.unique
      simp only [List.flatMap_append, List.flatMap_cons] at hall hunique ⊢
      have hrest : (before.flatMap S.unique ++ after.flatMap S.unique).Nodup :=
        hall.sublist ((List.sublist_append_right _ _).append_left _)
      have hmove : (S.unique new ++
          (before.flatMap S.unique ++ after.flatMap S.unique)).Perm
            (before.flatMap S.unique ++ (S.unique new ++ after.flatMap S.unique)) := by
        rw [← List.append_assoc, ← List.append_assoc]
        exact List.perm_append_comm.append_right _
      exact (hmove.nodup_iff).mp ((S.unique_nodup new).append hrest hunique)
    · intro r hr
      rcases S.mem_replace_iff.mp hr with ⟨rfl, -⟩ | ⟨hmem, -⟩
      · exact hcheck
      · exact h.check r hmem
  · rw [S.replace_eq_self hkey]
    exact h

/-- **A row that is updated to itself** is accepted, and nothing changes. -/
theorem update_self [DecidableEq U] {rows : List R} (h : S.Consistent rows) {r : R}
    (hr : r ∈ rows) : S.update rows r = some rows := by
  have hkey : S.key r ∈ rows.map S.key := List.mem_map_of_mem hr
  refine S.update_eq_some_iff.mpr ⟨⟨?_, ?_, h.check r hr⟩, ?_⟩
  · intro k hk
    rcases List.mem_append.mp hk with hk | hk
    · exact Or.inr (h.cascade r hr k hk)
    · exact Or.inr (h.weak r hr k hk)
  · obtain ⟨before, x, after, rfl, hx, hbefore, hafter⟩ := S.exists_split h.keys hkey
    obtain rfl : x = r := List.inj_on_of_nodup_map h.keys (by simp) hr hx
    rw [S.others_split hbefore hafter]
    have hall := h.unique
    simp only [List.flatMap_append, List.flatMap_cons] at hall ⊢
    intro u hu hmem
    rcases List.mem_append.mp hmem with hmem | hmem
    · exact (List.nodup_append'.mp hall).2.2 hmem (List.mem_append_left _ hu)
    · exact (List.nodup_append'.mp (List.nodup_append'.mp hall).2.1).2.2 hu hmem
  · unfold replace
    symm
    refine (List.map_congr_left fun x hx => ?_).trans (List.map_id rows)
    by_cases hxr : S.key x = S.key r
    · rw [if_pos hxr]
      exact (List.inj_on_of_nodup_map h.keys hx hr hxr).symm
    · rw [if_neg hxr]
      rfl

/-! ## What a delete takes along -/

/-- A chain of `cascade` references leads from the row to the row of that key. -/
inductive Gone (rows : List R) (k : K) : R → Prop where
  | here {r : R} (hr : r ∈ rows) (hkey : S.key r = k) : Gone rows k r
  | refers {q r : R} (hq : Gone rows k q) (hr : r ∈ rows) (h : S.key q ∈ S.cascade r) :
      Gone rows k r

/-- A chain leads from the row to one of the keys, whose rows are gone already. -/
inductive Doomed (rows : List R) (ks : List K) : R → Prop where
  | here {r : R} {k : K} (hr : r ∈ rows) (hk : k ∈ ks) (h : k ∈ S.cascade r) : Doomed rows ks r
  | refers {q r : R} (hq : Doomed rows ks q) (hr : r ∈ rows) (h : S.key q ∈ S.cascade r) :
      Doomed rows ks r

section Chains

omit [DecidableEq K]
variable {S}

theorem Gone.mem {rows : List R} {k : K} {r : R} (h : S.Gone rows k r) : r ∈ rows := by
  cases h <;> assumption

theorem Doomed.mem {rows : List R} {ks : List K} {r : R} (h : S.Doomed rows ks r) :
    r ∈ rows := by
  cases h <;> assumption

/-- Whether a row is gone depends on its key and its references only. -/
theorem Gone.congr {rows : List R} {k : K} {r r' : R} (h : S.Gone rows k r) (hr' : r' ∈ rows)
    (hkey : S.key r' = S.key r) (hcascade : S.cascade r' = S.cascade r) : S.Gone rows k r' := by
  cases h with
  | here _ hk => exact .here hr' (hkey.trans hk)
  | refers hq _ h => exact .refers hq hr' (hcascade ▸ h)

theorem not_doomed_nil {rows : List R} {r : R} : ¬ S.Doomed rows [] r := by
  intro h
  induction h with
  | here _ hk _ => cases hk
  | refers _ _ _ ih => exact ih

end Chains

theorem mem_referring {rows : List R} {k j : K} :
    j ∈ S.referring rows k ↔ ∃ q ∈ rows, k ∈ S.cascade q ∧ S.key q = j := by
  simp [referring, and_assoc]

theorem mem_round {rows : List R} {k : K} {r : R} :
    r ∈ S.round rows k ↔ ∃ x ∈ rows, k ∉ S.cascade x ∧ S.setNull (· = k) x = r := by
  simp [round, and_assoc]

/-- **One round**: a row is doomed if it refers to the key that is dealt with, or is doomed by the
keys that are dealt with after it. -/
theorem doomed_cons_iff {rows : List R} {k : K} {pending : List K} {r : R} (hr : r ∈ rows) :
    S.Doomed rows (k :: pending) r ↔ k ∈ S.cascade r ∨
      S.Doomed (S.round rows k) (S.referring rows k ++ pending) (S.setNull (· = k) r) := by
  have hkept : ∀ x ∈ rows, k ∉ S.cascade x → S.setNull (· = k) x ∈ S.round rows k :=
    fun x hx hk => S.mem_round.mpr ⟨x, hx, hk, rfl⟩
  constructor
  · intro h
    clear hr
    induction h with
    | @here r j hr hj h =>
      by_cases hk : k ∈ S.cascade r
      · exact Or.inl hk
      · rcases List.mem_cons.mp hj with rfl | hj
        · exact absurd h hk
        · exact Or.inr (.here (hkept r hr hk) (List.mem_append_right _ hj)
            (by rwa [S.cascade_setNull]))
    | @refers q r hq hr h ih =>
      by_cases hk : k ∈ S.cascade r
      · exact Or.inl hk
      · right
        rcases ih with hqk | hq'
        · refine .here (hkept r hr hk) (List.mem_append_left _ ?_) (by rwa [S.cascade_setNull])
          exact S.mem_referring.mpr ⟨q, hq.mem, hqk, rfl⟩
        · refine .refers hq' (hkept r hr hk) ?_
          rwa [S.cascade_setNull, S.key_setNull]
  · rintro (h | h)
    · exact .here hr List.mem_cons_self h
    · generalize hr' : S.setNull (· = k) r = r' at h
      induction h generalizing r with
      | @here r' j _ hj h =>
        rw [← hr', S.cascade_setNull] at h
        rcases List.mem_append.mp hj with hj | hj
        · obtain ⟨q, hq, hqk, rfl⟩ := S.mem_referring.mp hj
          exact .refers (.here hq List.mem_cons_self hqk) hr h
        · exact .here hr (List.mem_cons_of_mem _ hj) h
      | @refers q' r' hq' _ h ih =>
        obtain ⟨q, hq, -, rfl⟩ := S.mem_round.mp hq'.mem
        rw [← hr', S.cascade_setNull, S.key_setNull] at h
        exact .refers (ih hq rfl) hr h

/-- The keys whose rows are gone after one round. -/
theorem doomed_keys_cons_iff {rows : List R} {k : K} {pending : List K} {j : K} :
    (j ∈ k :: pending ∨ ∃ q, S.Doomed rows (k :: pending) q ∧ S.key q = j) ↔
      j = k ∨ j ∈ S.referring rows k ++ pending ∨
        ∃ q, S.Doomed (S.round rows k) (S.referring rows k ++ pending) q ∧ S.key q = j := by
  constructor
  · rintro (hj | ⟨q, hq, rfl⟩)
    · rcases List.mem_cons.mp hj with rfl | hj
      · exact Or.inl rfl
      · exact Or.inr (Or.inl (List.mem_append_right _ hj))
    · rcases (S.doomed_cons_iff hq.mem).mp hq with hk | hq'
      · exact Or.inr (Or.inl (List.mem_append_left _ (S.mem_referring.mpr ⟨q, hq.mem, hk, rfl⟩)))
      · exact Or.inr (Or.inr ⟨_, hq', S.key_setNull _ _⟩)
  · rintro (rfl | hj | ⟨q', hq', rfl⟩)
    · exact Or.inl List.mem_cons_self
    · rcases List.mem_append.mp hj with hj | hj
      · obtain ⟨q, hq, hk, rfl⟩ := S.mem_referring.mp hj
        exact Or.inr ⟨q, (S.doomed_cons_iff hq).mpr (Or.inl hk), rfl⟩
      · exact Or.inl (List.mem_cons_of_mem _ hj)
    · obtain ⟨q, hq, -, rfl⟩ := S.mem_round.mp hq'.mem
      exact Or.inr ⟨q, (S.doomed_cons_iff hq).mpr (Or.inr hq'), (S.key_setNull _ _).symm⟩

open scoped Classical in
/-- **What the triggers leave**: the rows that are not doomed, without the references to the keys
that are gone. -/
theorem cascadeDelete_eq (rows : List R) (ks : List K) :
    S.cascadeDelete rows ks =
      (rows.filter fun r => ¬ S.Doomed rows ks r).map
        (S.setNull fun j => j ∈ ks ∨ ∃ q, S.Doomed rows ks q ∧ S.key q = j) := by
  induction rows, ks using cascadeDelete.induct S with
  | case1 rows =>
    rw [cascadeDelete]
    have hfilter : (rows.filter fun r => ¬ S.Doomed rows [] r) = rows :=
      List.filter_eq_self.mpr fun r _ => decide_eq_true not_doomed_nil
    rw [hfilter]
    symm
    refine (List.map_congr_left fun r _ => S.setNull_eq_self _ r ?_).trans (List.map_id rows)
    intro k _
    simp [not_doomed_nil]
  | case2 rows k pending ih =>
    rw [cascadeDelete, ih]
    refine (map_filter_map_filter rows _ _ _ _).trans ?_
    have hrows : (rows.filter fun r => decide (k ∉ S.cascade r) &&
        decide (¬ S.Doomed (S.round rows k) (S.referring rows k ++ pending)
          (S.setNull (· = k) r))) = rows.filter fun r => ¬ S.Doomed rows (k :: pending) r := by
      refine List.filter_congr fun r hr => ?_
      rw [← Bool.decide_and, decide_eq_decide, S.doomed_cons_iff hr, not_or]
    rw [hrows]
    refine List.map_congr_left fun r _ => ?_
    rw [S.setNull_setNull]
    congr 1
    funext j
    rw [← Bool.decide_or, decide_eq_decide, S.doomed_keys_cons_iff]

theorem mem_others {rows : List R} {k : K} {r : R} :
    r ∈ S.others rows k ↔ r ∈ rows ∧ S.key r ≠ k := by
  simp [others]

/-- The keys of the rows with that key: none, if there is no row. -/
theorem mem_keys_of {rows : List R} {k j : K} :
    j ∈ (rows.filter fun r => S.key r = k).map S.key ↔ ∃ q ∈ rows, S.key q = k ∧ j = k := by
  constructor
  · intro h
    obtain ⟨q, hq, rfl⟩ := List.mem_map.mp h
    obtain ⟨hmem, hkey⟩ := List.mem_filter.mp hq
    exact ⟨q, hmem, of_decide_eq_true hkey, of_decide_eq_true hkey⟩
  · rintro ⟨q, hq, rfl, rfl⟩
    exact List.mem_map_of_mem (List.mem_filter.mpr ⟨hq, decide_eq_true rfl⟩)

theorem gone_iff {rows : List R} {k : K} {r : R} (hr : r ∈ rows) :
    S.Gone rows k r ↔ S.key r = k ∨
      S.Doomed (S.others rows k) ((rows.filter fun q => S.key q = k).map S.key) r := by
  constructor
  · intro h
    clear hr
    induction h with
    | here _ hkey => exact Or.inl hkey
    | @refers q r hq hr h ih =>
      by_cases hkey : S.key r = k
      · exact Or.inl hkey
      · right
        have hother : r ∈ S.others rows k := S.mem_others.mpr ⟨hr, hkey⟩
        rcases ih with hqk | hq'
        · exact .here hother (S.mem_keys_of.mpr ⟨q, hq.mem, hqk, rfl⟩) (hqk ▸ h)
        · exact .refers hq' hother h
  · rintro (hkey | h)
    · exact .here hr hkey
    · clear hr
      induction h with
      | here hr hj h =>
        obtain ⟨q, hq, hkey, rfl⟩ := S.mem_keys_of.mp hj
        exact .refers (.here hq hkey) (S.mem_others.mp hr).1 (hkey ▸ h)
      | refers _ hr h ih => exact .refers ih (S.mem_others.mp hr).1 h

theorem gone_keys_iff {rows : List R} {k j : K} :
    (∃ q, S.Gone rows k q ∧ S.key q = j) ↔
      j ∈ (rows.filter fun q => S.key q = k).map S.key ∨
        ∃ q, S.Doomed (S.others rows k) ((rows.filter fun q => S.key q = k).map S.key) q ∧
          S.key q = j := by
  constructor
  · rintro ⟨q, hq, rfl⟩
    rcases (S.gone_iff hq.mem).mp hq with hkey | hdoomed
    · exact Or.inl (S.mem_keys_of.mpr ⟨q, hq.mem, hkey, hkey⟩)
    · exact Or.inr ⟨q, hdoomed, rfl⟩
  · rintro (hj | ⟨q, hq, rfl⟩)
    · obtain ⟨q, hq, hkey, rfl⟩ := S.mem_keys_of.mp hj
      exact ⟨q, .here hq hkey, hkey⟩
    · exact ⟨q, (S.gone_iff (S.mem_others.mp hq.mem).1).mpr (Or.inr hq), rfl⟩

open scoped Classical in
/-- **What a delete leaves**: the rows that are not gone, without the references to rows that
are. -/
theorem delete_eq (rows : List R) (k : K) :
    S.delete rows k =
      (rows.filter fun r => ¬ S.Gone rows k r).map
        (S.setNull fun j => ∃ q, S.Gone rows k q ∧ S.key q = j) := by
  rw [delete, cascadeDelete_eq, others, List.filter_filter]
  have hrows : (rows.filter fun r =>
      decide (¬ S.Doomed (S.others rows k) ((rows.filter fun q => S.key q = k).map S.key) r) &&
        decide (S.key r ≠ k)) = rows.filter fun r => ¬ S.Gone rows k r := by
    refine List.filter_congr fun r hr => ?_
    rw [← Bool.decide_and, decide_eq_decide, S.gone_iff hr, not_or, and_comm]
  rw [show (rows.filter fun r => decide (S.key r ≠ k)) = S.others rows k from rfl, hrows]
  refine List.map_congr_left fun r _ => ?_
  congr 1
  funext j
  rw [decide_eq_decide, S.gone_keys_iff]

open scoped Classical in
theorem mem_delete {rows : List R} {k : K} {r : R} :
    r ∈ S.delete rows k ↔ ∃ x ∈ rows, ¬ S.Gone rows k x ∧
      S.setNull (fun j => ∃ q, S.Gone rows k q ∧ S.key q = j) x = r := by
  rw [S.delete_eq]
  simp [and_assoc]

/-- A delete of a row that is not there leaves everything as it was. -/
theorem delete_eq_self {rows : List R} {k : K} (h : k ∉ rows.map S.key) :
    S.delete rows k = rows := by
  have hnone : (rows.filter fun r => S.key r = k) = [] := by
    rw [List.filter_eq_nil_iff]
    intro r hr hkey
    exact h (of_decide_eq_true hkey ▸ List.mem_map_of_mem hr)
  rw [delete, hnone, S.others_eq_self h, List.map_nil, cascadeDelete]

/-! ## Deletes keep the constraints -/

/-- The rows that are left have their keys. -/
theorem mem_keys_delete {rows : List R} {k j : K} :
    j ∈ (S.delete rows k).map S.key ↔ ∃ x ∈ rows, ¬ S.Gone rows k x ∧ S.key x = j := by
  constructor
  · intro h
    obtain ⟨r, hr, rfl⟩ := List.mem_map.mp h
    obtain ⟨x, hx, hgone, rfl⟩ := S.mem_delete.mp hr
    exact ⟨x, hx, hgone, (S.key_setNull _ _).symm⟩
  · rintro ⟨x, hx, hgone, rfl⟩
    rw [← S.key_setNull _ x]
    exact List.mem_map_of_mem (S.mem_delete.mpr ⟨x, hx, hgone, rfl⟩)

theorem keys_delete_sublist (rows : List R) (k : K) :
    ((S.delete rows k).map S.key).Sublist (rows.map S.key) := by
  rw [S.delete_eq, List.map_map]
  exact (List.map_congr_left fun r _ => S.key_setNull _ r).symm ▸ List.filter_sublist.map S.key

theorem unique_delete_sublist (rows : List R) (k : K) :
    ((S.delete rows k).flatMap S.unique).Sublist (rows.flatMap S.unique) := by
  rw [S.delete_eq, List.flatMap_map]
  simp only [S.unique_setNull]
  exact List.filter_sublist.flatMap S.unique

/-- **A row that is deleted breaks no constraint**: what referred to it, or to a row that went
with it, is gone or refers to nothing now. -/
theorem delete_consistent {rows : List R} (h : S.Consistent rows) (k : K) :
    S.Consistent (S.delete rows k) where
  keys := h.keys.sublist (S.keys_delete_sublist rows k)
  cascade := by
    intro r hr j hj
    obtain ⟨x, hx, hgone, rfl⟩ := S.mem_delete.mp hr
    rw [S.cascade_setNull] at hj
    obtain ⟨q, hq, rfl⟩ := List.mem_map.mp (h.cascade x hx j hj)
    exact S.mem_keys_delete.mpr ⟨q, hq, fun hqgone => hgone (.refers hqgone hx hj), rfl⟩
  weak := by
    intro r hr j hj
    obtain ⟨x, hx, -, rfl⟩ := S.mem_delete.mp hr
    rw [S.weak_setNull] at hj
    obtain ⟨hweak, hkept⟩ := List.mem_filter.mp hj
    obtain ⟨q, hq, rfl⟩ := List.mem_map.mp (h.weak x hx j hweak)
    refine S.mem_keys_delete.mpr ⟨q, hq, fun hqgone => ?_, rfl⟩
    simp only [Bool.not_eq_true', decide_eq_false_iff_not] at hkept
    exact hkept ⟨q, hqgone, rfl⟩
  unique := h.unique.sublist (S.unique_delete_sublist rows k)
  check := by
    intro r hr
    obtain ⟨x, hx, -, rfl⟩ := S.mem_delete.mp hr
    rw [S.check_setNull]
    exact h.check x hx

/-! ## Deletes in any order -/

open scoped Classical in
/-- What a second delete takes along is what it would have taken along alone. -/
theorem gone_delete_iff {rows : List R} {k l : K} {x : R} (hx : x ∈ rows)
    (hkept : ¬ S.Gone rows k x) :
    S.Gone (S.delete rows k) l (S.setNull (fun j => ∃ q, S.Gone rows k q ∧ S.key q = j) x) ↔
      S.Gone rows l x := by
  constructor
  · intro h
    generalize hr : S.setNull (fun j => ∃ q, S.Gone rows k q ∧ S.key q = j) x = r at h
    induction h generalizing x with
    | here _ hkey =>
      refine .here hx ?_
      rwa [← hr, S.key_setNull] at hkey
    | refers hq' _ h ih =>
      obtain ⟨q, hq, hqkept, rfl⟩ := S.mem_delete.mp hq'.mem
      rw [← hr, S.cascade_setNull, S.key_setNull] at h
      exact .refers (ih hq hqkept rfl) hx h
  · intro h
    clear hx
    induction h with
    | @here x hx hkey =>
      exact .here (S.mem_delete.mpr ⟨x, hx, hkept, rfl⟩) ((S.key_setNull _ _).trans hkey)
    | @refers q x hq hx h ih =>
      have hqkept : ¬ S.Gone rows k q := fun hgone => hkept (.refers hgone hx h)
      refine .refers (ih hqkept) (S.mem_delete.mpr ⟨x, hx, hkept, rfl⟩) ?_
      rwa [S.cascade_setNull, S.key_setNull]

/-- The rows of several keys are deleted one after the other. -/
def deleteAll (rows : List R) (ks : List K) : List R := ks.foldl S.delete rows

open scoped Classical in
/-- **Several deletes** leave the rows that none of them takes along, whatever their order. -/
theorem deleteAll_eq (rows : List R) (ks : List K) :
    S.deleteAll rows ks =
      (rows.filter fun r => ¬ ∃ k ∈ ks, S.Gone rows k r).map
        (S.setNull fun j => ∃ q, (∃ k ∈ ks, S.Gone rows k q) ∧ S.key q = j) := by
  induction ks generalizing rows with
  | nil =>
    have hkept : S.setNull (fun _ => false) = id :=
      funext fun r => S.setNull_eq_self _ r fun _ _ => rfl
    simp [deleteAll, hkept]
  | cons k ks ih =>
    rw [deleteAll, List.foldl_cons, ← deleteAll, ih]
    conv_lhs =>
      enter [2, 2]
      rw [S.delete_eq rows k]
    refine (map_filter_map_filter rows _ _ _ _).trans ?_
    have hrows : (rows.filter fun r => decide (¬ S.Gone rows k r) &&
        decide (¬ ∃ l ∈ ks, S.Gone (S.delete rows k) l
          (S.setNull (fun j => ∃ q, S.Gone rows k q ∧ S.key q = j) r))) =
        rows.filter fun r => ¬ ∃ l ∈ k :: ks, S.Gone rows l r := by
      refine List.filter_congr fun r hr => ?_
      rw [← Bool.decide_and, decide_eq_decide, List.exists_mem_cons_iff, not_or]
      refine and_congr_right fun hkept => ?_
      simp only [S.gone_delete_iff hr hkept]
    rw [hrows]
    refine List.map_congr_left fun r _ => ?_
    rw [S.setNull_setNull]
    congr 1
    funext j
    rw [← Bool.decide_or, decide_eq_decide]
    constructor
    · rintro (⟨q, hq, rfl⟩ | ⟨q', ⟨l, hl, hq'⟩, rfl⟩)
      · exact ⟨q, ⟨k, List.mem_cons_self, hq⟩, rfl⟩
      · obtain ⟨q, hq, hqkept, rfl⟩ := S.mem_delete.mp hq'.mem
        exact ⟨q, ⟨l, List.mem_cons_of_mem _ hl, (S.gone_delete_iff hq hqkept).mp hq'⟩,
          (S.key_setNull _ _).symm⟩
    · rintro ⟨q, ⟨l, hl, hq⟩, rfl⟩
      by_cases hgone : S.Gone rows k q
      · exact Or.inl ⟨q, hgone, rfl⟩
      · rcases List.mem_cons.mp hl with rfl | hl
        · exact absurd hq hgone
        · exact Or.inr ⟨_, ⟨l, hl, (S.gone_delete_iff hq.mem hgone).mpr hq⟩, S.key_setNull _ _⟩

end Schema

end Pensar.Computation
