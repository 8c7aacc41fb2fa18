import Pensar.Interface.CommandTree
import Pensar.Model.CommandEquality

/-!
# Is the equality of commands an equivalence?

What `equals` stands for is `Alike`: the same id and, of two composites, children alike in
pairs, of two others, the same flag.  `Alike` is an equivalence (`alike_refl`, `alike_symm`,
`alike_trans`), and where the comparison of two commands is proper in both directions it
answers just that (`equals_spec`).  It is proper in both directions for the commands that
are `Comparable`: while ids agree, kinds and numbers of children have to agree too.

Main result: `equalityLaws_iff` says for which commands `equals` is an equivalence.
-/

set_option autoImplicit false

namespace Pensar.Analysis

open Pensar.Computation
open Pensar.Model
open Pensar.Interface

variable {L : Type}

/-! ## What is compared -/

mutual

/-- The commands are equal: the ids, the flags of commands that are not composites, and the
children in order. -/
def Alike : Command L → Command L → Prop
  | .composite ⟨base, mcommands, mindex⟩, r =>
    match r with
    | .composite other =>
      base.id = other.base.id ∧ AlikeFrom mcommands mindex other.mcommands other.mindex
    | _ => False
  | .leaf base _, r => base.id = r.base.id ∧ r.dataLayout = .command ∧ base.mok = r.base.mok
  | .null base, r => base.id = r.base.id ∧ r.dataLayout = .command ∧ base.mok = r.base.mok

def AlikeFrom : List (Ptr (Command L)) → ℕ → List (Ptr (Command L)) → ℕ → Prop
  | _, 0, _, n => n = 0
  | .live c :: ps, todo + 1, .live d :: qs, n + 1 => Alike c d ∧ AlikeFrom ps todo qs n
  | _, _ + 1, _, _ => False

end

mutual

/-- The commands differ in their ids, or are of one kind; and then, if they are composites,
walking over the children of both at once ends with both, or at children that differ. -/
def Comparable : Command L → Command L → Prop
  | .composite ⟨base, mcommands, mindex⟩, r =>
    match r with
    | .composite other =>
      base.id = other.base.id → ComparableFrom mcommands mindex other.mcommands other.mindex
    | _ => base.id ≠ r.base.id
  | .leaf base _, r => base.id = r.base.id → r.dataLayout = .command
  | .null base, r => base.id = r.base.id → r.dataLayout = .command

def ComparableFrom : List (Ptr (Command L)) → ℕ → List (Ptr (Command L)) → ℕ → Prop
  | _, 0, _, n => n = 0
  | .live c :: ps, todo + 1, .live d :: qs, n + 1 =>
    Comparable c d ∧ (Alike c d → ComparableFrom ps todo qs n)
  | _, _ + 1, _, _ => False

end

/-- Walking over two lists at once ends with both, or at a pair without `E`. -/
def Lockstep {α : Type} (E P : α → α → Prop) : List α → List α → Prop
  | [], [] => True
  | x :: xs, y :: ys => P x y ∧ (E x y → Lockstep E P xs ys)
  | _, _ => False

/-- What a caller expects of `equals` on three commands: the laws of an equivalence, and that
every comparison among the three is proper. -/
structure EqualityLaws (pointerBytes : Ptr (Command L) → List Byte) (a b c : Command L) :
    Prop where
  refl : (a.equals pointerBytes a).Holds
  symm : (a.equals pointerBytes b).Holds → (b.equals pointerBytes a).Holds
  trans : (a.equals pointerBytes b).Holds → (b.equals pointerBytes c).Holds →
    (a.equals pointerBytes c).Holds
  proper : ∀ l ∈ [a, b, c], ∀ r ∈ [a, b, c], (l.equals pointerBytes r).Proper

theorem alikeFrom_children (cs ds : List (Command L)) (rest rest' : List (Ptr (Command L))) :
    AlikeFrom (cs.map .live ++ rest) cs.length (ds.map .live ++ rest') ds.length ↔
      List.Forall₂ Alike cs ds := by
  induction cs generalizing ds with
  | nil => cases ds <;> simp [AlikeFrom]
  | cons c cs ih =>
    cases ds with
    | nil => cases rest' with
      | nil => simp [AlikeFrom]
      | cons p ps => cases p <;> simp [AlikeFrom]
    | cons d ds => simp [AlikeFrom, ih]

theorem comparableFrom_children (cs ds : List (Command L)) (rest rest' : List (Ptr (Command L))) :
    ComparableFrom (cs.map .live ++ rest) cs.length (ds.map .live ++ rest') ds.length ↔
      Lockstep Alike Comparable cs ds := by
  induction cs generalizing ds with
  | nil => cases ds <;> simp [ComparableFrom, Lockstep]
  | cons c cs ih =>
    cases ds with
    | nil => cases rest' with
      | nil => simp [ComparableFrom, Lockstep]
      | cons p ps => cases p <;> simp [ComparableFrom, Lockstep]
    | cons d ds => simp [ComparableFrom, Lockstep, ih]

@[simp] theorem alike_composite (base base' : CommandBase) (cs ds : List (Command L))
    (rest rest' : List (Ptr (Command L))) :
    Alike (.composite ⟨base, cs.map .live ++ rest, cs.length⟩)
        (.composite ⟨base', ds.map .live ++ rest', ds.length⟩) ↔
      base.id = base'.id ∧ List.Forall₂ Alike cs ds := by
  rw [Alike, alikeFrom_children]

@[simp] theorem comparable_composite (base base' : CommandBase) (cs ds : List (Command L))
    (rest rest' : List (Ptr (Command L))) :
    Comparable (.composite ⟨base, cs.map .live ++ rest, cs.length⟩)
        (.composite ⟨base', ds.map .live ++ rest', ds.length⟩) ↔
      (base.id = base'.id → Lockstep Alike Comparable cs ds) := by
  rw [Comparable, comparableFrom_children]

theorem comparable_ofChildren (base base' : CommandBase) (cs ds : List (Command L)) :
    Comparable (.composite (ofChildren base cs)) (.composite (ofChildren base' ds)) ↔
      (base.id = base'.id → Lockstep Alike Comparable cs ds) :=
  comparable_composite base base' cs ds _ _

section Plain

variable {l r : Command L} (hl : l.dataLayout = .command)
include hl

theorem alike_plain :
    Alike l r ↔ l.base.id = r.base.id ∧ r.dataLayout = .command ∧ l.base.mok = r.base.mok := by
  cases l with
  | leaf base cmd => rw [Alike]; rfl
  | null base => rw [Alike]; rfl
  | composite cc => cases hl

theorem comparable_plain :
    Comparable l r ↔ (l.base.id = r.base.id → r.dataLayout = .command) := by
  cases l with
  | leaf base cmd => rw [Comparable]; rfl
  | null base => rw [Comparable]; rfl
  | composite cc => cases hl

theorem not_alike_composite_plain (cc : CompositeCommand (Command L)) :
    ¬ Alike (.composite cc) l := by
  cases l with
  | leaf base cmd => simp [Alike]
  | null base => simp [Alike]
  | composite cc => cases hl

theorem comparable_composite_plain (cc : CompositeCommand (Command L)) :
    Comparable (.composite cc) l ↔ cc.base.id ≠ l.base.id := by
  cases l with
  | leaf base cmd => simp [Comparable]
  | null base => simp [Comparable]
  | composite cc => cases hl

end Plain

/-! ## `Alike` is an equivalence -/

theorem forall₂_flip {α β : Type} {R : α → β → Prop} {S : β → α → Prop} {xs : List α}
    {ys : List β} (h : List.Forall₂ R xs ys) (hRS : ∀ x ∈ xs, ∀ y ∈ ys, R x y → S y x) :
    List.Forall₂ S ys xs := by
  induction h with
  | nil => exact .nil
  | cons hxy _ ih =>
    refine .cons (hRS _ (by simp) _ (by simp) hxy) (ih ?_)
    intro x hx y hy
    exact hRS x (by simp [hx]) y (by simp [hy])

theorem forall₂_comp {α β γ : Type} {R : α → β → Prop} {S : β → γ → Prop} {T : α → γ → Prop}
    {xs : List α} {ys : List β} {zs : List γ} (h : List.Forall₂ R xs ys)
    (h' : List.Forall₂ S ys zs)
    (hRST : ∀ x ∈ xs, ∀ y ∈ ys, ∀ z ∈ zs, R x y → S y z → T x z) : List.Forall₂ T xs zs := by
  induction h generalizing zs with
  | nil =>
    cases h'
    exact .nil
  | cons hxy _ ih =>
    cases h' with
    | cons hyz hrest =>
      refine .cons (hRST _ (by simp) _ (by simp) _ (by simp) hxy hyz) (ih hrest ?_)
      intro x hx y hy z hz
      exact hRST x (by simp [hx]) y (by simp [hy]) z (by simp [hz])

theorem alike_refl {c : Command L} (hc : WellBuilt c) : Alike c c := by
  induction hc with
  | leaf base cmd => exact (alike_plain rfl).mpr ⟨rfl, rfl, rfl⟩
  | null base => exact (alike_plain rfl).mpr ⟨rfl, rfl, rfl⟩
  | composite base children rest hlen hchildren ih =>
    exact (alike_composite _ _ _ _ _ _).mpr ⟨rfl, List.forall₂_same.mpr ih⟩

theorem alike_plain_symm {l r : Command L} (hl : l.dataLayout = .command) (h : Alike l r) :
    Alike r l := by
  obtain ⟨hid, hr, hok⟩ := (alike_plain hl).mp h
  exact (alike_plain hr).mpr ⟨hid.symm, hl, hok.symm⟩

theorem alike_symm {l r : Command L} (hl : WellBuilt l) (hr : WellBuilt r) (h : Alike l r) :
    Alike r l := by
  induction hl generalizing r with
  | leaf base cmd => exact alike_plain_symm rfl h
  | null base => exact alike_plain_symm rfl h
  | composite base children rest hlen hchildren ih =>
    cases hr with
    | leaf base' cmd => exact absurd h (not_alike_composite_plain rfl _)
    | null base' => exact absurd h (not_alike_composite_plain rfl _)
    | composite base' children' rest' hlen' hchildren' =>
      obtain ⟨hid, hsame⟩ := (alike_composite _ _ _ _ _ _).mp h
      refine (alike_composite _ _ _ _ _ _).mpr ⟨hid.symm, forall₂_flip hsame ?_⟩
      intro c hc d hd hcd
      exact ih c hc (hchildren' d hd) hcd

theorem alike_trans {a b c : Command L} (ha : WellBuilt a) (hb : WellBuilt b) (hc : WellBuilt c)
    (hab : Alike a b) (hbc : Alike b c) : Alike a c := by
  induction ha generalizing b c with
  | leaf base cmd =>
    obtain ⟨hid, hlayout, hok⟩ := (alike_plain rfl).mp hab
    obtain ⟨hid', hlayout', hok'⟩ := (alike_plain hlayout).mp hbc
    exact (alike_plain rfl).mpr ⟨hid.trans hid', hlayout', hok.trans hok'⟩
  | null base =>
    obtain ⟨hid, hlayout, hok⟩ := (alike_plain rfl).mp hab
    obtain ⟨hid', hlayout', hok'⟩ := (alike_plain hlayout).mp hbc
    exact (alike_plain rfl).mpr ⟨hid.trans hid', hlayout', hok.trans hok'⟩
  | composite base children rest hlen hchildren ih =>
    cases hb with
    | leaf base' cmd => exact absurd hab (not_alike_composite_plain rfl _)
    | null base' => exact absurd hab (not_alike_composite_plain rfl _)
    | composite base' children' rest' hlen' hchildren' =>
      cases hc with
      | leaf base'' cmd => exact absurd hbc (not_alike_composite_plain rfl _)
      | null base'' => exact absurd hbc (not_alike_composite_plain rfl _)
      | composite base'' children'' rest'' hlen'' hchildren'' =>
        obtain ⟨hid, hsame⟩ := (alike_composite _ _ _ _ _ _).mp hab
        obtain ⟨hid', hsame'⟩ := (alike_composite _ _ _ _ _ _).mp hbc
        refine (alike_composite _ _ _ _ _ _).mpr ⟨hid.trans hid', forall₂_comp hsame hsame' ?_⟩
        intro x hx y hy z hz hxy hyz
        exact ih x hx (hchildren' y hy) (hchildren'' z hz) hxy hyz

theorem lockstep_self {α : Type} {E P : α → α → Prop} (xs : List α) (h : ∀ x ∈ xs, P x x) :
    Lockstep E P xs xs := by
  induction xs with
  | nil => exact trivial
  | cons x xs ih => exact ⟨h x (by simp), fun _ => ih fun y hy => h y (by simp [hy])⟩

theorem comparable_self {c : Command L} (hc : WellBuilt c) : Comparable c c := by
  induction hc with
  | leaf base cmd => exact (comparable_plain rfl).mpr fun _ => rfl
  | null base => exact (comparable_plain rfl).mpr fun _ => rfl
  | composite base children rest hlen hchildren ih =>
    exact (comparable_composite _ _ _ _ _ _).mpr fun _ => lockstep_self children ih

/-! ## What `equals` answers -/

section Equals

variable (pointerBytes : Ptr (Command L) → List Byte)

theorem equals_plain {l : Command L} (hl : l.dataLayout = .command) (r : Command L) :
    l.equals pointerBytes r = l.equalsCommand pointerBytes r := by
  cases l with
  | leaf base cmd => rw [Command.equals]
  | null base => rw [Command.equals]
  | composite cc => cases hl

theorem equals_composite_plain {r : Command L} (hr : r.dataLayout = .command)
    (cc : CompositeCommand (Command L)) :
    Command.equals pointerBytes (.composite cc) r = .answer false := by
  cases r with
  | leaf base cmd => simp [Command.equals]
  | null base => simp [Command.equals]
  | composite cc => cases hr

theorem data_plain {c : Command L} (hc : c.dataLayout = .command) :
    (c.data pointerBytes).take 1 = [c.base.mok.mvalue] := by
  cases c with
  | leaf base cmd => rfl
  | null base => rfl
  | composite cc => cases hc

theorem dataSize_plain {c : Command L} (hc : c.dataLayout = .command) : c.dataSize = 1 := by
  cases c with
  | leaf base cmd => rfl
  | null base => rfl
  | composite cc => cases hc

theorem equalsCommand_proper {l : Command L} (hl : l.dataLayout = .command) (r : Command L) :
    (l.equalsCommand pointerBytes r).Proper ↔
      (l.base.id = r.base.id → r.dataLayout = .command) := by
  unfold Command.equalsCommand Command.hash
  by_cases hid : l.base.id = r.base.id
  · simp [hid, hl, Access.Allowed, eq_comm]
  · simp [hid]

theorem equalsCommand_holds {l r : Command L} (hl : l.dataLayout = .command)
    (hr : r.dataLayout = .command) :
    (l.equalsCommand pointerBytes r).Holds ↔
      l.base.id = r.base.id ∧ l.base.mok = r.base.mok := by
  unfold Command.equalsCommand Command.hash
  by_cases hid : l.base.id = r.base.id
  · simp [hid, dataSize_plain hl, data_plain pointerBytes hl, data_plain pointerBytes hr,
      Bool8.ext_iff]
  · simp [hid]

/-- Compared in both directions, the commands answer whether they are alike, if the
comparisons are proper. -/
structure ComparesAs (l r : Command L) : Prop where
  proper : (l.equals pointerBytes r).Proper ∧ (r.equals pointerBytes l).Proper ↔ Comparable l r
  holds : Comparable l r → ((l.equals pointerBytes r).Holds ↔ Alike l r)
  holds_symm : Comparable l r → ((r.equals pointerBytes l).Holds ↔ Alike l r)

theorem comparesAs_plain {l r : Command L} (hl : l.dataLayout = .command)
    (hr : r.dataLayout = .command) : ComparesAs pointerBytes l r := by
  refine ⟨?_, ?_, ?_⟩
  · simp [equals_plain pointerBytes hl, equals_plain pointerBytes hr,
      equalsCommand_proper pointerBytes hl, equalsCommand_proper pointerBytes hr,
      comparable_plain hl, hl, hr]
  · intro _
    simp [equals_plain pointerBytes hl, equalsCommand_holds pointerBytes hl hr, alike_plain hl, hr]
  · intro _
    simp [equals_plain pointerBytes hr, equalsCommand_holds pointerBytes hr hl, alike_plain hl, hr,
      eq_comm]

theorem comparesAs_composite_plain (cc : CompositeCommand (Command L)) {r : Command L}
    (hr : r.dataLayout = .command) : ComparesAs pointerBytes (.composite cc) r := by
  have hforward := equals_composite_plain pointerBytes hr cc
  have hbackward := equals_plain pointerBytes hr (.composite cc)
  have hcomparable := comparable_composite_plain hr cc
  refine ⟨?_, ?_, ?_⟩
  · rw [hforward, hbackward, hcomparable, equalsCommand_proper pointerBytes hr]
    simp [Command.base, Command.dataLayout, eq_comm]
  · intro _
    rw [hforward]
    simp [not_alike_composite_plain hr cc]
  · intro hdiffer
    have hid : r.hash ≠ (Command.composite cc).hash := (hcomparable.mp hdiffer).symm
    rw [hbackward, Command.equalsCommand, if_pos hid]
    simp [not_alike_composite_plain hr cc]

theorem comparesAs_plain_composite {l : Command L} (hl : l.dataLayout = .command)
    (cc : CompositeCommand (Command L)) : ComparesAs pointerBytes l (.composite cc) := by
  have h := comparesAs_composite_plain pointerBytes cc hl
  have hcomparable : Comparable l (.composite cc) ↔ Comparable (.composite cc) l := by
    rw [comparable_plain hl, comparable_composite_plain hl cc]
    simp [Command.base, Command.dataLayout, eq_comm]
  have halike : ¬ Alike l (.composite cc) := by
    rw [alike_plain hl]
    simp [Command.dataLayout]
  have halike' := not_alike_composite_plain hl cc
  refine ⟨?_, ?_, ?_⟩
  · rw [hcomparable, and_comm]
    exact h.proper
  · intro hc
    simpa [halike, halike'] using h.holds_symm (hcomparable.mp hc)
  · intro hc
    simpa [halike, halike'] using h.holds (hcomparable.mp hc)

/-- A round of the loop, where both composites have a child. -/
theorem equalsFrom_cons (c d : Command L) (cs ds : List (Command L))
    (rest rest' : List (Ptr (Command L))) (i : ℕ) :
    equalsFrom pointerBytes ((c :: cs).map .live ++ rest) (c :: cs).length
        ((d :: ds).map .live ++ rest') (i + (d :: ds).length) i =
      .read (.childSlot i (i + (d :: ds).length))
        ((c.equals pointerBytes d).andThen
          (equalsFrom pointerBytes (cs.map .live ++ rest) cs.length (ds.map .live ++ rest')
            (i + 1 + ds.length) (i + 1))) := by
  have hcount : i + (d :: ds).length = i + 1 + ds.length := by
    rw [List.length_cons]
    omega
  rw [hcount]
  simp [equalsFrom]

/-- The round in which the right composite has no child left. -/
theorem equalsFrom_past_end (c : Command L) (cs : List (Command L))
    (rest rest' : List (Ptr (Command L))) (i : ℕ) :
    ¬ (equalsFrom pointerBytes ((c :: cs).map .live ++ rest) (c :: cs).length rest' i
      i).Proper := by
  cases rest' with
  | nil => simp [equalsFrom, Access.Allowed]
  | cons p ps => cases p <;> simp [equalsFrom, Access.Allowed]

/-- The loop of `CompositeCommand::equals`, in both directions. -/
theorem equalsFrom_spec (cs ds : List (Command L)) (rest rest' : List (Ptr (Command L))) (i : ℕ)
    (hspec : ∀ c ∈ cs, ∀ d ∈ ds, ComparesAs pointerBytes c d) :
    ((equalsFrom pointerBytes (cs.map .live ++ rest) cs.length (ds.map .live ++ rest')
          (i + ds.length) i).Proper ∧
        (equalsFrom pointerBytes (ds.map .live ++ rest') ds.length (cs.map .live ++ rest)
          (i + cs.length) i).Proper ↔ Lockstep Alike Comparable cs ds) ∧
      (Lockstep Alike Comparable cs ds →
        ((equalsFrom pointerBytes (cs.map .live ++ rest) cs.length (ds.map .live ++ rest')
          (i + ds.length) i).Holds ↔ List.Forall₂ Alike cs ds) ∧
        ((equalsFrom pointerBytes (ds.map .live ++ rest') ds.length (cs.map .live ++ rest)
          (i + cs.length) i).Holds ↔ List.Forall₂ Alike cs ds)) := by
  induction cs generalizing ds i with
  | nil =>
    cases ds with
    | nil => simp [equalsFrom, Lockstep]
    | cons d ds =>
      have hpast := equalsFrom_past_end pointerBytes d ds rest' rest i
      refine ⟨⟨fun h => absurd h.2 hpast, False.elim⟩, False.elim⟩
  | cons c cs ih =>
    cases ds with
    | nil =>
      have hpast := equalsFrom_past_end pointerBytes c cs rest rest' i
      refine ⟨⟨fun h => absurd h.1 hpast, False.elim⟩, False.elim⟩
    | cons d ds =>
      have hcd : ComparesAs pointerBytes c d := hspec c (by simp) d (by simp)
      obtain ⟨hproper, hholds⟩ := ih ds (i + 1) fun x hx y hy =>
        hspec x (by simp [hx]) y (by simp [hy])
      rw [equalsFrom_cons, equalsFrom_cons]
      have hslot : i < i + (d :: ds).length := by simp
      have hslot' : i < i + (c :: cs).length := by simp
      simp only [Comparison.proper_read, Comparison.proper_andThen, Comparison.holds_read,
        Comparison.holds_andThen, Access.Allowed, hslot, hslot', true_and, Lockstep,
        List.forall₂_cons]
      constructor
      · constructor
        · rintro ⟨⟨hc, hcs⟩, hd, hds⟩
          have hcomparable := hcd.proper.mp ⟨hc, hd⟩
          refine ⟨hcomparable, ?_⟩
          intro halike
          exact hproper.mp ⟨hcs ((hcd.holds hcomparable).mpr halike),
            hds ((hcd.holds_symm hcomparable).mpr halike)⟩
        · rintro ⟨hcomparable, hrest⟩
          obtain ⟨hc, hd⟩ := hcd.proper.mpr hcomparable
          refine ⟨⟨hc, ?_⟩, hd, ?_⟩
          · intro heq
            exact (hproper.mpr (hrest ((hcd.holds hcomparable).mp heq))).1
          · intro heq
            exact (hproper.mpr (hrest ((hcd.holds_symm hcomparable).mp heq))).2
      · rintro ⟨hcomparable, hrest⟩
        rw [hcd.holds hcomparable, hcd.holds_symm hcomparable]
        constructor
        · exact and_congr_right fun halike => (hholds (hrest halike)).1
        · exact and_congr_right fun halike => (hholds (hrest halike)).2

/-- **What `equals` answers**, for any two commands. -/
theorem equals_spec {l r : Command L} (hl : WellBuilt l) (hr : WellBuilt r) :
    ComparesAs pointerBytes l r := by
  induction hl generalizing r with
  | leaf base cmd =>
    cases hr with
    | leaf base' cmd' => exact comparesAs_plain pointerBytes rfl rfl
    | null base' => exact comparesAs_plain pointerBytes rfl rfl
    | composite base' children' rest' hlen' hchildren' =>
      exact comparesAs_plain_composite pointerBytes rfl _
  | null base =>
    cases hr with
    | leaf base' cmd' => exact comparesAs_plain pointerBytes rfl rfl
    | null base' => exact comparesAs_plain pointerBytes rfl rfl
    | composite base' children' rest' hlen' hchildren' =>
      exact comparesAs_plain_composite pointerBytes rfl _
  | composite base children rest hlen hchildren ih =>
    cases hr with
    | leaf base' cmd' => exact comparesAs_composite_plain pointerBytes _ rfl
    | null base' => exact comparesAs_composite_plain pointerBytes _ rfl
    | composite base' children' rest' hlen' hchildren' =>
      have hloop := equalsFrom_spec pointerBytes children children' rest rest' 0
        fun c hc d hd => ih c hc (hchildren' d hd)
      simp only [Nat.zero_add] at hloop
      obtain ⟨hproper, hholds⟩ := hloop
      by_cases hid : base.id = base'.id
      · have hforward : Command.equals pointerBytes
            (.composite ⟨base, children.map .live ++ rest, children.length⟩)
            (.composite ⟨base', children'.map .live ++ rest', children'.length⟩) =
              equalsFrom pointerBytes (children.map .live ++ rest) children.length
                (children'.map .live ++ rest') children'.length 0 := by
          simp [Command.equals, hid]
        have hbackward : Command.equals pointerBytes
            (.composite ⟨base', children'.map .live ++ rest', children'.length⟩)
            (.composite ⟨base, children.map .live ++ rest, children.length⟩) =
              equalsFrom pointerBytes (children'.map .live ++ rest') children'.length
                (children.map .live ++ rest) children.length 0 := by
          simp [Command.equals, hid]
        refine ⟨?_, ?_, ?_⟩
        · rw [hforward, hbackward, hproper]
          simp [hid]
        · intro hcomparable
          rw [hforward, alike_composite]
          simpa [hid] using (hholds ((comparable_composite _ _ _ _ _ _).mp hcomparable hid)).1
        · intro hcomparable
          rw [hbackward, alike_composite]
          simpa [hid] using (hholds ((comparable_composite _ _ _ _ _ _).mp hcomparable hid)).2
      · have hid' : base'.id ≠ base.id := Ne.symm hid
        refine ⟨?_, ?_, ?_⟩
        · simp [Command.equals, hid, hid']
        · intro _
          simp [Command.equals, hid, hid']
        · intro _
          simp [Command.equals, hid]

/-- **`equals` is an equivalence on three commands, and each comparison among them is
proper, exactly when any two of them are comparable.** -/
theorem equalityLaws_iff {a b c : Command L} (ha : WellBuilt a) (hb : WellBuilt b)
    (hc : WellBuilt c) :
    EqualityLaws pointerBytes a b c ↔ Comparable a b ∧ Comparable b c ∧ Comparable a c := by
  have hab := equals_spec pointerBytes ha hb
  have hbc := equals_spec pointerBytes hb hc
  have hac := equals_spec pointerBytes ha hc
  have hself : ∀ {x : Command L}, WellBuilt x → (x.equals pointerBytes x).Proper := fun hx =>
    ((equals_spec pointerBytes hx hx).proper.mpr (comparable_self hx)).1
  constructor
  · intro h
    refine ⟨hab.proper.mp ⟨?_, ?_⟩, hbc.proper.mp ⟨?_, ?_⟩, hac.proper.mp ⟨?_, ?_⟩⟩ <;>
      exact h.proper _ (by simp) _ (by simp)
  · rintro ⟨hcab, hcbc, hcac⟩
    have pab := hab.proper.mpr hcab
    have pbc := hbc.proper.mpr hcbc
    have pac := hac.proper.mpr hcac
    refine ⟨?_, ?_, ?_, ?_⟩
    · exact ((equals_spec pointerBytes ha ha).holds (comparable_self ha)).mpr (alike_refl ha)
    · intro h
      exact (hab.holds_symm hcab).mpr ((hab.holds hcab).mp h)
    · intro h h'
      have halike := alike_trans ha hb hc ((hab.holds hcab).mp h) ((hbc.holds hcbc).mp h')
      exact (hac.holds hcac).mpr halike
    · simp [hself ha, hself hb, hself hc, pab, pbc, pac]

/-- Two composites with one child each, and one with another id and two. -/
theorem equalityLaws_groups :
    EqualityLaws (fun _ => List.replicate 8 0)
      (.composite (ofChildren ⟨⟨1⟩, .T⟩ [.null ⟨⟨2⟩, .T⟩]) : Command Empty)
      (.composite (ofChildren ⟨⟨1⟩, .UNKNOWN⟩ [.null ⟨⟨2⟩, .UNKNOWN⟩]))
      (.composite (ofChildren ⟨⟨3⟩, .T⟩ [.null ⟨⟨2⟩, .T⟩, .null ⟨⟨4⟩, .T⟩])) := by
  refine (equalityLaws_iff _ (wellBuilt_ofChildren _ (by decide) ?_)
    (wellBuilt_ofChildren _ (by decide) ?_) (wellBuilt_ofChildren _ (by decide) ?_)).mpr ?_
  · simp [WellBuilt.null]
  · simp [WellBuilt.null]
  · simp [WellBuilt.null]
  · simp only [comparable_ofChildren, Lockstep]
    refine ⟨fun _ => ⟨(comparable_plain rfl).mpr fun _ => rfl, fun _ => trivial⟩, ?_, ?_⟩
    · exact fun hid => absurd hid (by decide)
    · exact fun hid => absurd hid (by decide)

/-- The composite without children takes the other one for its equal, which reads the null
pointer behind the children of the first. -/
theorem not_equalityLaws_prefix :
    ¬ ∀ (pointerBytes : Ptr (Command Empty) → List Byte) (a b c : Command Empty),
      WellBuilt a → WellBuilt b → WellBuilt c → EqualityLaws pointerBytes a b c := by
  intro h
  have hempty : WellBuilt (.composite (ofChildren ⟨⟨1⟩, .UNKNOWN⟩ []) : Command Empty) :=
    wellBuilt_ofChildren _ (by decide) (by simp)
  have hnull : WellBuilt
      (.composite (ofChildren ⟨⟨1⟩, .UNKNOWN⟩ [.null ⟨⟨2⟩, .UNKNOWN⟩]) : Command Empty) :=
    wellBuilt_ofChildren _ (by decide) (by simp [WellBuilt.null])
  have hsymm := (h (fun _ => List.replicate 8 0) _ _ _ hempty hnull hempty).symm
  have hundefined := hsymm rfl
  cases hundefined

end Equals

end Pensar.Analysis
