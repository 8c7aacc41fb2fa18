import Pensar.Interface.EmailHistory
import Pensar.Analysis.EmailGrammar
import Pensar.Analysis.FixedStringText

/-!
# Constructing e-mails from strings

The validator looks at the string and the constructor at the two fixed strings that it
copies the parts to.  They disagree where the arrays have not the room, where a part goes on
behind a NUL, and where `null@null` is spelled in another way.

Main result: `construction_agrees_iff`.
-/

set_option autoImplicit false

namespace Pensar.Analysis

open Pensar.Computation
open Pensar.Interface
open Pensar.Model

/-! ## The test for the null sentinel -/

section Construction

variable (nfdBase : C → C)

theorem eq_null_decides {N : ℕ} {v : CS 0 N} {l : S} (hv : v.toString? = some l)
    (hnull : (W "null").length < N) :
    (Email.defined (v.eq? nfdBase (CS.ofS (W "null") hnull))).Decides (SpellsNull nfdBase l) := by
  have hfree : NULL_CHAR ∉ W "null" := by decide
  have hfour : (W "null").length = 4 := rfl
  rw [eq_of_toString nfdBase hv (CS.toString_ofS _ hnull hfree), hfour]
  simp [Email.defined, SpellsNull]

theorem isNull_decides {lp : Email.LocalPart} {d : Email.Domain} {l m : S}
    (hl : lp.toString? = some l) (hm : d.toString? = some m) :
    (Email.isNull nfdBase lp d).Decides (SpellsNull nfdBase l ∧ SpellsNull nfdBase m) :=
  (eq_null_decides nfdBase hl _).and fun _ => eq_null_decides nfdBase hm _

/-- What `initialize` does with fixed strings that stand for something. -/
theorem initialized_cases {lp : Email.LocalPart} {d : Email.Domain} {l m : S}
    (hl : lp.toString? = some l) (hm : d.toString? = some m) (cq : ContactQualifier) :
    (TakenParts nfdBase l m ∧ Email.initialized nfdBase lp d cq = .value (.ok ⟨lp, d, cq⟩)) ∨
      (¬ TakenParts nfdBase l m ∧
        ∃ message, Email.initialized nfdBase lp d cq = .value (.error message)) := by
  obtain ⟨null, hnull, hnullIff⟩ := isNull_decides nfdBase hl hm
  obtain ⟨validLocal, hlocal, hlocalIff⟩ := isValidLocalPart_decides l
  obtain ⟨validDomain, hdomain, hdomainIff⟩ := isValidDomain_decides m
  simp only [Email.initialized, hnull, hl, hm, Email.defined, hlocal, hdomain,
    Outcome.value_bind, TakenParts]
  cases null <;> cases validLocal <;> cases validDomain <;> simp_all

/-- The cut at the first `@`, and the copies of the two parts. -/
theorem ofString_cases (storage : Email.LocalPart × Email.Domain) {l d : S} (hl : Wc '@' ∉ l)
    (cq : ContactQualifier) :
    (∃ (hlocal : l.length < 64) (hdomain : d.length < 255),
        Email.ofString nfdBase storage (l ++ Wc '@' :: d) cq =
          Email.initialized nfdBase (CS.ofS l hlocal) (CS.ofS d hdomain) cq) ∨
      (¬ (l.length < 64 ∧ d.length < 255) ∧
        ∃ message, Email.ofString nfdBase storage (l ++ Wc '@' :: d) cq =
          .value (.error message)) := by
  have htake : (l ++ Wc '@' :: d).take l.length = l := List.take_left
  simp only [Email.ofString, findFrom_zero_of_cut d hl, htake, substr_cut, Outcome.value_bind,
    CS.ofString]
  by_cases hlocal : l.length < 64
  · rw [CS.copy_eq_ofS storage.1 l hlocal (Nat.zero_le _)]
    by_cases hdomain : d.length < 255
    · rw [CS.copy_eq_ofS storage.2 d hdomain (Nat.zero_le _)]
      exact .inl ⟨hlocal, hdomain, rfl⟩
    · refine .inr ⟨fun h => hdomain h.2, ?_⟩
      simp [CS.copy, show d.length ≥ 255 by omega]
  · refine .inr ⟨fun h => hlocal h.1, ?_⟩
    simp [CS.copy, show l.length ≥ 64 by omega]

/-- The constructor lets in exactly the strings whose parts have the room and are taken; the
e-mail then stands for the parts up to their first NUL. -/
theorem ofString_ok_iff (storage : Email.LocalPart × Email.Domain) {l d : S} (hl : Wc '@' ∉ l)
    (cq : ContactQualifier) :
    (∃ e, Email.ofString nfdBase storage (l ++ Wc '@' :: d) cq = .value (.ok e)) ↔
      l.length < 64 ∧ d.length < 255 ∧ TakenParts nfdBase (upToNul l) (upToNul d) := by
  rcases ofString_cases nfdBase storage (d := d) hl cq with
    ⟨hlocal, hdomain, heq⟩ | ⟨hroom, message, heq⟩
  · rw [heq]
    rcases initialized_cases nfdBase (toString_ofS_upToNul l hlocal)
      (toString_ofS_upToNul d hdomain) cq with ⟨htaken, h⟩ | ⟨htaken, message, h⟩
    · simp [h, hlocal, hdomain, htaken]
    · simp [h, htaken]
  · rw [heq]
    constructor
    · rintro ⟨e, he⟩
      cases he
    · rintro ⟨hlocal, hdomain, -⟩
      exact absurd ⟨hlocal, hdomain⟩ hroom

theorem toString_of_ofString {storage : Email.LocalPart × Email.Domain} {l d : S}
    (hl : Wc '@' ∉ l) {cq : ContactQualifier} {e : Email}
    (he : Email.ofString nfdBase storage (l ++ Wc '@' :: d) cq = .value (.ok e)) :
    e.mlocalPart.toString? = some (upToNul l) ∧ e.mdomain.toString? = some (upToNul d) := by
  rcases ofString_cases nfdBase storage (d := d) hl cq with
    ⟨hlocal, hdomain, heq⟩ | ⟨-, message, heq⟩
  · have hl' : (CS.ofS l hlocal : Email.LocalPart).toString? = _ := toString_ofS_upToNul l hlocal
    have hd' : (CS.ofS d hdomain : Email.Domain).toString? = _ := toString_ofS_upToNul d hdomain
    rw [heq] at he
    rcases initialized_cases nfdBase hl' hd' cq with ⟨-, h⟩ | ⟨-, message, h⟩
    · rw [h] at he
      cases he
      exact ⟨hl', hd'⟩
    · rw [h] at he
      cases he
  · rw [heq] at he
    cases he

/-! ## Putting the address together again -/

theorem concat_eq {N : ℕ} (lhs : S) {rhs : CS 0 N} {m : S} (hm : rhs.toString? = some m)
    (hroom : (lhs ++ m).length < N) :
    Email.concat lhs rhs = .value (.ok (CS.ofS (lhs ++ m) (by omega))) := by
  have hlen : lhs.length + m.length < N := by rwa [List.length_append] at hroom
  simp only [Email.concat, CS.length?, hm, Option.map_some]
  rw [dif_neg (by omega)]
  congr 2
  apply CS.ext
  have hrest : N + 1 - lhs.length - m.length = N + 1 - (lhs.length + m.length) := by omega
  simp [memcpyAt, CS.new, CS.ofS, (toString_eq_some hm).1, hrest]

theorem str_eq {e : Email} {l m : S} (hl : e.mlocalPart.toString? = some l)
    (hm : e.mdomain.toString? = some m) :
    e.str = if (l ++ Wc '@' :: m).length < 255 then .value (l ++ Wc '@' :: m)
      else .terminated := by
  have hat : l ++ Wc '@' :: m = (l ++ W "@") ++ m := by simp [W, Wc]
  rw [hat]
  split
  · next hroom =>
    have hfree : NULL_CHAR ∉ (l ++ W "@") ++ m := by
      have hsep : NULL_CHAR ∉ W "@" := by decide
      simp [(toString_eq_some hl).2, (toString_eq_some hm).2, hsep]
    simp only [Email.str, hl, Email.defined, Outcome.value_bind, concat_eq _ hm hroom,
      CS.toString_ofS _ _ hfree]
  · next hroom =>
    rw [List.length_append] at hroom
    simp only [Email.str, hl, Email.defined, Outcome.value_bind, Email.concat, CS.length?, hm,
      Option.map_some]
    rw [dif_pos (by omega)]
    rfl

/-! ## Where the two agree -/

theorem nul_not_mem_of_validLocalPart {l : S} (h : ValidLocalPart l) : NULL_CHAR ∉ l :=
  fun hmem => absurd (h.characters _ hmem) (by decide)

theorem mem_of_validDomain {d : S} (h : ValidDomain d) {c : C} (hc : c ∈ d) :
    c = Wc '.' ∨ c ∈ letters ++ digits ++ W "-" := by
  obtain ⟨-, labels, rfl, hlabels⟩ := h
  rcases mem_of_mem_intercalate hc with hdot | ⟨label, hlabel, hmem⟩
  · exact .inl hdot
  · exact .inr ((hlabels.valid label hlabel).characters _ hmem)

theorem nul_not_mem_of_validDomain {d : S} (h : ValidDomain d) : NULL_CHAR ∉ d :=
  fun hmem => absurd (mem_of_validDomain h hmem) (by decide)

theorem at_not_mem_of_validDomain {d : S} (h : ValidDomain d) : Wc '@' ∉ d :=
  fun hmem => absurd (mem_of_validDomain h hmem) (by decide)

theorem dot_mem_of_validDomain {d : S} (h : ValidDomain d) : Wc '.' ∈ d := by
  by_contra hfree
  have htwo := ((validDomain_iff d).mp h).2.two
  rw [List.splitOn_eq_singleton hfree] at htwo
  simp at htwo

theorem equal_of_ascii {c c2 : C} (hc : c < 128) (hc2 : c2 < 128) :
    equal nfdBase c c2 = decide (tolower c = tolower c2) := by
  simp [equal, removeAccentChar, hc, hc2]

theorem dot_not_mem_of_spellsNull {l : S} (h : SpellsNull nfdBase l) : Wc '.' ∉ l := by
  obtain ⟨hlen, hequal⟩ := h
  have hdot : ∀ c ∈ W "null", equal nfdBase (Wc '.') c = false := by
    intro c hc
    have hascii : ∀ c ∈ W "null", c < 128 := forall_mem_of_all (by decide)
    have hother : ∀ c ∈ W "null", tolower (Wc '.') ≠ tolower c := forall_mem_of_all (by decide)
    rw [equal_of_ascii nfdBase (by decide) (hascii c hc)]
    exact decide_eq_false (hother c hc)
  intro hmem
  obtain ⟨i, hi, hget⟩ := List.getElem_of_mem hmem
  have hnull : i < (W "null").length := by
    show i < 4
    omega
  have hpair : (Wc '.', (W "null")[i]) ∈ l.zip (W "null") := by
    rw [List.mem_iff_getElem]
    refine ⟨i, by rw [List.length_zip]; omega, ?_⟩
    rw [List.getElem_zip, hget]
  have h := hequal _ hpair
  rw [hdot _ (List.getElem_mem hnull)] at h
  cases h

theorem isValidEmailAddress_iff (s : S) :
    isValidEmailAddress s = .value true ↔ ValidAddress s := by
  obtain ⟨b, hb, hiff⟩ := isValidEmailAddress_decides s
  rw [hb, ← hiff]
  simp

theorem spellsNull_null : SpellsNull nfdBase (W "null") := by
  refine ⟨rfl, ?_⟩
  have hsame : ∀ p ∈ (W "null").zip (W "null"), p.1 = p.2 := forall_mem_of_all (by decide)
  intro p hp
  rw [hsame p hp]
  simp [equal]

theorem nullEmailStr_eq : Email.nullEmailStr = W "null" ++ Wc '@' :: W "null" := by decide

/-- The two parts of a string are the ones at its first `@`. -/
theorem misread_of_cut {l d : S} (hl : Wc '@' ∉ l) :
    Misread nfdBase (l ++ Wc '@' :: d) ↔
      l.length < 64 ∧ d.length < 255 ∧
        ((l ++ Wc '@' :: d ≠ Email.nullEmailStr ∧ SpellsNull nfdBase (upToNul l) ∧
            SpellsNull nfdBase (upToNul d)) ∨
          (NULL_CHAR ∈ l ++ Wc '@' :: d ∧ ValidLocalPart (upToNul l) ∧
            ValidDomain (upToNul d))) := by
  constructor
  · rintro ⟨l', d', hcut, hl', hrest⟩
    obtain ⟨rfl, rfl⟩ := cut_unique hl hl' hcut
    exact hrest
  · intro h
    exact ⟨l, d, rfl, hl, h⟩

theorem noRoom_of_cut {l d : S} (hl : Wc '@' ∉ l) :
    NoRoom (l ++ Wc '@' :: d) ↔
      ValidAddress (l ++ Wc '@' :: d) ∧ (64 ≤ l.length ∨ 255 ≤ (l ++ Wc '@' :: d).length) := by
  have hidx : (l ++ Wc '@' :: d).idxOf (Wc '@') = l.length := by
    rw [List.idxOf_append_of_notMem hl, List.idxOf_cons_self, Nat.add_zero]
  rw [NoRoom, hidx]

section Cases

variable (storage : Email.LocalPart × Email.Domain) (cq : ContactQualifier)

theorem construction_agrees_of_valid {l d : S} (hl : Wc '@' ∉ l) (hlocal : ValidLocalPart l)
    (hdomain : ValidDomain d) (hvalid : ValidAddress (l ++ Wc '@' :: d)) :
    ConstructionAgrees nfdBase storage (l ++ Wc '@' :: d) cq ↔
      ¬ NoRoom (l ++ Wc '@' :: d) ∧ ¬ Misread nfdBase (l ++ Wc '@' :: d) := by
  have hl0 := nul_not_mem_of_validLocalPart hlocal
  have hd0 := nul_not_mem_of_validDomain hdomain
  have hnul : NULL_CHAR ∉ l ++ Wc '@' :: d := by
    have hat : NULL_CHAR ≠ Wc '@' := by decide
    simp [hl0, hd0, hat]
  have hmisread : ¬ Misread nfdBase (l ++ Wc '@' :: d) := by
    rw [misread_of_cut nfdBase hl, upToNul_eq_self hl0, upToNul_eq_self hd0]
    rintro ⟨-, -, ⟨-, -, hnull⟩ | ⟨h, -⟩⟩
    · exact dot_not_mem_of_spellsNull nfdBase hnull (dot_mem_of_validDomain hdomain)
    · exact hnul h
  have hconstructs := ofString_ok_iff nfdBase storage (d := d) hl cq
  rw [upToNul_eq_self hl0, upToNul_eq_self hd0] at hconstructs
  have htaken : TakenParts nfdBase l d := .inr ⟨hlocal, hdomain⟩
  have hlen : (l ++ Wc '@' :: d).length = l.length + (d.length + 1) := by
    rw [List.length_append, List.length_cons]
  simp only [ConstructionAgrees, hconstructs, isValidEmailAddress_iff, hvalid, true_or, iff_true,
    htaken, and_true, hmisread, not_false_eq_true, noRoom_of_cut hl, true_and, not_or, not_le]
  constructor
  · rintro ⟨hfits, hstr⟩
    obtain ⟨e, he⟩ := hconstructs.mpr ⟨hfits.1, hfits.2, htaken⟩
    obtain ⟨hlText, hdText⟩ := toString_of_ofString nfdBase hl he
    rw [upToNul_eq_self hl0] at hlText
    rw [upToNul_eq_self hd0] at hdText
    refine ⟨hfits.1, ?_⟩
    by_contra hlong
    have h := hstr e he
    rw [str_eq hlText hdText, if_neg hlong] at h
    cases h
  · rintro ⟨hfits, hshort⟩
    refine ⟨⟨hfits, by omega⟩, ?_⟩
    intro e he
    obtain ⟨hlText, hdText⟩ := toString_of_ofString nfdBase hl he
    rw [upToNul_eq_self hl0] at hlText
    rw [upToNul_eq_self hd0] at hdText
    rw [str_eq hlText hdText, if_pos hshort]

theorem construction_agrees_null :
    ConstructionAgrees nfdBase storage Email.nullEmailStr cq := by
  have hl : Wc '@' ∉ W "null" := by decide
  have hnul : NULL_CHAR ∉ W "null" := by decide
  have htext : upToNul (W "null") = W "null" := upToNul_eq_self hnul
  rw [nullEmailStr_eq]
  constructor
  · rw [ofString_ok_iff nfdBase storage hl, htext, ← nullEmailStr_eq]
    exact iff_of_true ⟨by decide, by decide, .inl ⟨spellsNull_null _, spellsNull_null _⟩⟩
      (.inr rfl)
  · intro e he
    obtain ⟨hlText, hdText⟩ := toString_of_ofString nfdBase hl he
    rw [htext] at hlText hdText
    rw [str_eq hlText hdText, if_pos (by decide)]

theorem construction_agrees_of_invalid {l d : S} (hl : Wc '@' ∉ l)
    (hvalid : ¬ ValidAddress (l ++ Wc '@' :: d)) (hnull : l ++ Wc '@' :: d ≠ Email.nullEmailStr) :
    ConstructionAgrees nfdBase storage (l ++ Wc '@' :: d) cq ↔
      ¬ Misread nfdBase (l ++ Wc '@' :: d) := by
  have hreject : ¬ (isValidEmailAddress (l ++ Wc '@' :: d) = .value true ∨
      l ++ Wc '@' :: d = Email.nullEmailStr) := by
    rintro (h | h)
    · exact hvalid ((isValidEmailAddress_iff _).mp h)
    · exact hnull h
  -- what is let in without being an address is let in by mistake
  have hmisread : (∃ e, Email.ofString nfdBase storage (l ++ Wc '@' :: d) cq = .value (.ok e)) ↔
      Misread nfdBase (l ++ Wc '@' :: d) := by
    rw [ofString_ok_iff nfdBase storage hl, misread_of_cut nfdBase hl]
    constructor
    · rintro ⟨hlocal, hdomain, hnulls | ⟨hvl, hvd⟩⟩
      · exact ⟨hlocal, hdomain, .inl ⟨hnull, hnulls⟩⟩
      · refine ⟨hlocal, hdomain, .inr ⟨?_, hvl, hvd⟩⟩
        by_contra hnul
        have hnul' : NULL_CHAR ∉ l ∧ NULL_CHAR ∉ d := by
          constructor
          · exact fun h => hnul (List.mem_append_left _ h)
          · exact fun h => hnul (List.mem_append_right _ (List.mem_cons_of_mem _ h))
        rw [upToNul_eq_self hnul'.1] at hvl
        rw [upToNul_eq_self hnul'.2] at hvd
        exact hvalid ((validAddress_of_cut hl).mpr ⟨at_not_mem_of_validDomain hvd, hvl, hvd⟩)
    · rintro ⟨hlocal, hdomain, ⟨-, hnulls⟩ | ⟨-, hparts⟩⟩
      · exact ⟨hlocal, hdomain, .inl hnulls⟩
      · exact ⟨hlocal, hdomain, .inr hparts⟩
  rw [ConstructionAgrees, hmisread]
  constructor
  · rintro ⟨hiff, -⟩ h
    exact hreject (hiff.mp h)
  · intro h
    refine ⟨iff_of_false h hreject, ?_⟩
    intro e he
    exact absurd (hmisread.mp ⟨e, he⟩) h

theorem construction_agrees_of_no_at {s : S} (hat : Wc '@' ∉ s) :
    ConstructionAgrees nfdBase storage s cq := by
  have hfind : findFrom s (Wc '@') 0 = none := findFrom_eq_none_iff.mpr (by simpa using hat)
  have hvalid : ¬ ValidAddress s := fun h => hat (at_mem_of_validAddress h)
  have hnull : s ≠ Email.nullEmailStr := by
    rintro rfl
    exact hat (by decide)
  simp [ConstructionAgrees, Email.ofString, hfind, isValidEmailAddress_iff, hvalid, hnull]

end Cases

/-- **Main result.**  The construction from a string is without an exception exactly for the
addresses and `null@null`, and then keeps the string, exactly when the string is no address
that the arrays have not the room for and is not let in by mistake. -/
theorem construction_agrees_iff (storage : Email.LocalPart × Email.Domain) (s : S)
    (cq : ContactQualifier) :
    ConstructionAgrees nfdBase storage s cq ↔ ¬ NoRoom s ∧ ¬ Misread nfdBase s := by
  by_cases hat : Wc '@' ∈ s
  · obtain ⟨l, d, rfl, hl⟩ := List.eq_append_cons_of_mem hat
    by_cases hvalid : ValidAddress (l ++ Wc '@' :: d)
    · obtain ⟨-, hlocal, hdomain⟩ := (validAddress_of_cut hl).mp hvalid
      exact construction_agrees_of_valid nfdBase storage cq hl hlocal hdomain hvalid
    have hnoRoom : ¬ NoRoom (l ++ Wc '@' :: d) := fun h => hvalid h.1
    by_cases hnull : l ++ Wc '@' :: d = Email.nullEmailStr
    · have hmisread : ¬ Misread nfdBase Email.nullEmailStr := by
        rw [nullEmailStr_eq, misread_of_cut nfdBase (by decide), ← nullEmailStr_eq]
        rintro ⟨-, -, ⟨h, -⟩ | ⟨h, -⟩⟩
        · exact h rfl
        · exact absurd h (by decide)
      rw [hnull] at hnoRoom ⊢
      exact iff_of_true (construction_agrees_null nfdBase storage cq) ⟨hnoRoom, hmisread⟩
    · rw [construction_agrees_of_invalid nfdBase storage cq hl hvalid hnull]
      simp [hnoRoom]
  · have hmisread : ¬ Misread nfdBase s := by
      rintro ⟨l, d, rfl, -⟩
      exact hat (by simp)
    have hnoRoom : ¬ NoRoom s := fun h => hat (at_mem_of_validAddress h.1)
    exact iff_of_true (construction_agrees_of_no_at nfdBase storage cq hat) ⟨hnoRoom, hmisread⟩

/-- A local part of 64 characters, which the validator takes, and `NULL@null`, which it does
not. -/
theorem not_construction_agrees_longest :
    ¬ ConstructionAgrees id (CS.new, CS.new)
        (List.replicate 64 (Wc 'a') ++ Wc '@' :: W "x.com") 0 ∧
      ¬ ConstructionAgrees id (CS.new, CS.new) (W "NULL" ++ Wc '@' :: W "null") 0 := by
  have hl : Wc '@' ∉ List.replicate 64 (Wc 'a') := by decide
  have hlocal : ValidLocalPart (List.replicate 64 (Wc 'a')) :=
    ⟨by decide, by decide, forall_mem_of_all (by decide), by decide, by decide, by decide⟩
  have hdomain : ValidDomain (W "x.com") :=
    ⟨by decide, [W "x", W "com"], rfl, by decide, forall_mem_of_all (by decide), W "com", rfl,
      by decide, forall_mem_of_all (by decide)⟩
  have hvalid := (isValidEmailAddress_iff _).mpr
    ((validAddress_of_cut hl).mpr ⟨by decide, hlocal, hdomain⟩)
  constructor
  · rintro ⟨hiff, -⟩
    have hroom := ((ofString_ok_iff id _ hl 0).mp (hiff.mpr (.inl hvalid))).1
    exact absurd hroom (by decide)
  · rintro ⟨hiff, -⟩
    have hspelled : TakenParts id (upToNul (W "NULL")) (upToNul (W "null")) :=
      .inl ⟨⟨rfl, forall_mem_of_all (by decide)⟩, ⟨rfl, forall_mem_of_all (by decide)⟩⟩
    rcases hiff.mp ((ofString_ok_iff id _ (by decide) 0).mpr
      ⟨by decide, by decide, hspelled⟩) with h | h
    · obtain ⟨-, -, hd⟩ := (validAddress_of_cut (by decide)).mp ((isValidEmailAddress_iff _).mp h)
      exact absurd (dot_mem_of_validDomain hd) (by decide)
    · exact absurd h (by decide)

end Construction

end Pensar.Analysis
