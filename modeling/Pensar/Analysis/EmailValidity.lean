import Pensar.Analysis.EmailConstruction

/-!
# The values of e-mails along a history

The constructors and `initialize` check what they store; `operator>>` stores the two parts
of a word as they are.  A call that throws has stored nothing yet.

Main result: `emails_valid_along_iff`.
-/

set_option autoImplicit false

namespace Pensar.Analysis

open Pensar.Computation
open Pensar.Interface
open Pensar.Model

section History

variable (nfdBase : C → C) (Null : S → S → Prop)

/-! ## Results of calls -/

section Results

variable {Null} {emails : List Email}

theorem resultSound_undefined : ResultSound Null emails .undefined := by
  rintro thrown after ⟨⟩

theorem resultSound_terminated : ResultSound Null emails .terminated := by
  rintro thrown after ⟨⟩

theorem resultSound_throws (message : String) :
    ResultSound Null emails (.value (some message, emails)) := by
  rintro thrown after ⟨⟩
  rfl

theorem resultSound_returns_iff (after : List Email) :
    ResultSound Null emails (.value (none, after)) ↔ ∀ e ∈ after, ValidEmail Null e := by
  constructor
  · intro h
    exact h none after rfl
  · rintro h thrown after ⟨⟩
    exact h

/-- A constructor or `initialize` is sound if what it stores is a valid e-mail. -/
theorem settle_sound_iff {store : Email → List Email}
    (hstore : ∀ e, (∀ x ∈ store e, ValidEmail Null x) ↔ ValidEmail Null e)
    (result : Outcome (Except String Email)) :
    ResultSound Null emails (settle emails store result) ↔
      ∀ e, result = .value (.ok e) → ValidEmail Null e := by
  match result with
  | .value (.ok e) =>
    show ResultSound Null emails (.value (none, store e)) ↔ _
    rw [resultSound_returns_iff, hstore]
    constructor
    · rintro h _ ⟨⟩
      exact h
    · intro h
      exact h e rfl
  | .value (.error message) =>
    exact iff_of_true (resultSound_throws message) fun e h => by cases h
  | .undefined => exact iff_of_true resultSound_undefined fun e h => by cases h
  | .terminated => exact iff_of_true resultSound_terminated fun e h => by cases h

theorem valid_append_iff (hvalid : ∀ e ∈ emails, ValidEmail Null e) (e : Email) :
    (∀ x ∈ emails ++ [e], ValidEmail Null x) ↔ ValidEmail Null e := by
  constructor
  · intro h
    exact h e (by simp)
  · intro he x hx
    rcases List.mem_append.mp hx with hx | hx
    · exact hvalid x hx
    · rwa [List.mem_singleton.mp hx]

theorem valid_set_iff (hvalid : ∀ e ∈ emails, ValidEmail Null e) {i : ℕ} (hi : i < emails.length)
    (e : Email) : (∀ x ∈ emails.set i e, ValidEmail Null x) ↔ ValidEmail Null e := by
  constructor
  · intro h
    exact h e (List.mem_set hi e)
  · intro he x hx
    rcases List.mem_or_eq_of_mem_set hx with hx | rfl
    · exact hvalid x hx
    · exact he

end Results

/-! ## What a call stores -/

theorem not_validDomain_of_spellsNull {d : S} (h : SpellsNull nfdBase d) : ¬ ValidDomain d :=
  fun hdomain => dot_not_mem_of_spellsNull nfdBase h (dot_mem_of_validDomain hdomain)

theorem validEmail_iff {e : Email} {l d : S} (hl : e.mlocalPart.toString? = some l)
    (hd : e.mdomain.toString? = some d) :
    ValidEmail Null e ↔ (ValidLocalPart l ∧ ValidDomain d) ∨ Null l d := by
  constructor
  · rintro ⟨l', d', hl', hd', h⟩
    rw [hl] at hl'
    rw [hd] at hd'
    cases hl'
    cases hd'
    exact h
  · intro h
    exact ⟨l, d, hl, hd, h⟩

/-- What the checks of the constructors let in is valid if the spellings of `null` are
counted as the null sentinel. -/
theorem taken_valid_iff (l d : S) :
    (TakenParts nfdBase l d → (ValidLocalPart l ∧ ValidDomain d) ∨ Null l d) ↔
      (EqualsNull nfdBase l d → Null l d) := by
  constructor
  · intro h hnull
    rcases h (.inl hnull) with hvalid | hnull'
    · exact absurd hvalid.2 (not_validDomain_of_spellsNull nfdBase hnull.2)
    · exact hnull'
  · rintro h (hnull | hvalid)
    · exact .inr (h hnull)
    · exact .inl hvalid

theorem initialized_texts {lp : Email.LocalPart} {d : Email.Domain} {cq : ContactQualifier}
    {e : Email} (h : Email.initialized nfdBase lp d cq = .value (.ok e)) :
    ∃ l m, lp.toString? = some l ∧ d.toString? = some m := by
  cases hl : lp.toString? with
  | none => simp [Email.initialized, Email.isNull, CS.eq?, CS.length?, hl, Email.defined] at h
  | some l =>
    cases hm : d.toString? with
    | some m => exact ⟨l, m, rfl, rfl⟩
    | none =>
      obtain ⟨null, hnull, -⟩ := eq_null_decides nfdBase hl (by decide : (W "null").length < 64)
      obtain ⟨validLocal, hlocal, -⟩ := isValidLocalPart_decides l
      have hdomain : d.eq? nfdBase Email.NULL_DOMAIN = none := by simp [CS.eq?, CS.length?, hm]
      have hisNull : Email.isNull nfdBase lp d = if null then .undefined else .value false := by
        show (do
          if ← Email.defined (lp.eq? nfdBase Email.NULL_LOCAL_PART) then
            Email.defined (d.eq? nfdBase Email.NULL_DOMAIN)
          else .value false) = _
        rw [Email.NULL_LOCAL_PART, hnull, hdomain]
        rfl
      simp only [Email.initialized, hisNull, hl, hm] at h
      cases null <;> cases validLocal <;> simp [Email.defined, hlocal] at h

theorem initialized_valid_iff (lp : Email.LocalPart) (d : Email.Domain) (cq : ContactQualifier) :
    (∀ e, Email.initialized nfdBase lp d cq = .value (.ok e) → ValidEmail Null e) ↔
      ∀ l m, lp.toString? = some l → d.toString? = some m →
        EqualsNull nfdBase l m → Null l m := by
  constructor
  · intro h l m hl hm
    apply (taken_valid_iff nfdBase Null l m).mp
    intro htaken
    rcases initialized_cases nfdBase hl hm cq with ⟨-, hvalue⟩ | ⟨hnot, -⟩
    · exact (validEmail_iff Null hl hm).mp (h _ hvalue)
    · exact absurd htaken hnot
  · intro h e he
    obtain ⟨l, m, hl, hm⟩ := initialized_texts nfdBase he
    rcases initialized_cases nfdBase hl hm cq with ⟨htaken, hvalue⟩ | ⟨-, message, hvalue⟩
    · rw [hvalue] at he
      cases he
      exact (validEmail_iff Null hl hm).mpr
        ((taken_valid_iff nfdBase Null l m).mpr (h l m hl hm) htaken)
    · rw [hvalue] at he
      cases he

theorem ofString_valid_iff (storage : Email.LocalPart × Email.Domain) (s : S)
    (cq : ContactQualifier) :
    (∀ e, Email.ofString nfdBase storage s cq = .value (.ok e) → ValidEmail Null e) ↔
      ∀ l d, PartsOf s l d →
        EqualsNull nfdBase (upToNul l) (upToNul d) → Null (upToNul l) (upToNul d) := by
  constructor
  · rintro h l d ⟨rfl, hl, hlocal, hdomain⟩
    apply (taken_valid_iff nfdBase Null _ _).mp
    intro htaken
    obtain ⟨e, he⟩ := (ofString_ok_iff nfdBase storage hl cq).mpr ⟨hlocal, hdomain, htaken⟩
    obtain ⟨hlText, hdText⟩ := toString_of_ofString nfdBase hl he
    exact (validEmail_iff Null hlText hdText).mp (h e he)
  · intro h e he
    by_cases hat : Wc '@' ∈ s
    · obtain ⟨l, d, rfl, hl⟩ := List.eq_append_cons_of_mem hat
      obtain ⟨hlocal, hdomain, htaken⟩ := (ofString_ok_iff nfdBase storage hl cq).mp ⟨e, he⟩
      obtain ⟨hlText, hdText⟩ := toString_of_ofString nfdBase hl he
      exact (validEmail_iff Null hlText hdText).mpr
        ((taken_valid_iff nfdBase Null _ _).mpr (h l d ⟨rfl, hl, hlocal, hdomain⟩) htaken)
    · have hfind : findFrom s (Wc '@') 0 = none := findFrom_eq_none_iff.mpr (by simpa using hat)
      simp [Email.ofString, hfind] at he

theorem partsOf_unique {s l d l' d' : S} (h : PartsOf s l d) (h' : PartsOf s l' d') :
    l = l' ∧ d = d' := by
  obtain ⟨rfl, hl, -⟩ := h
  obtain ⟨hcut, hl', -⟩ := h'
  exact cut_unique hl hl' hcut

/-- `operator>>`: no `@`, parts without the room, or the parts as they are. -/
theorem extract_cases (e : Email) (is : InStream) :
    ((∀ l d, ¬ PartsOf is.extract.1 l d) ∧
        (e.extract is = .value (.error "Invalid email address", e, is.extract.2) ∨
          e.extract is = .terminated)) ∨
      ∃ (l d : S) (hl : l.length < 64) (hd : d.length < 255), PartsOf is.extract.1 l d ∧
        e.extract is = .value (.ok (), ⟨CS.ofS l hl, CS.ofS d hd, e.mqualifier⟩, is.extract.2) := by
  by_cases hat : Wc '@' ∈ is.extract.1
  · obtain ⟨l, d, hword, hl⟩ := List.eq_append_cons_of_mem hat
    have htake : (l ++ Wc '@' :: d).take l.length = l := List.take_left
    have hread : e.extract is =
        (do
          let mlocalPart ← e.mlocalPart.assignString l
          let mdomain ← e.mdomain.assignString d
          .value (.ok (), { e with mlocalPart, mdomain }, is.extract.2)) := by
      simp only [Email.extract, hword, findFrom_zero_of_cut d hl, htake, substr_cut,
        Outcome.value_bind]
    have hparts : ∀ l' d', PartsOf is.extract.1 l' d' → l.length < 64 ∧ d.length < 255 := by
      rintro l' d' ⟨hword', hl', hroom⟩
      obtain ⟨rfl, rfl⟩ := cut_unique hl hl' (hword.symm.trans hword')
      exact hroom
    by_cases hlocal : l.length < 64
    · by_cases hdomain : d.length < 255
      · refine .inr ⟨l, d, hlocal, hdomain, ⟨hword, hl, hlocal, hdomain⟩, ?_⟩
        rw [hread, CS.assignString, CS.copy_eq_ofS e.mlocalPart l hlocal (Nat.zero_le _),
          CS.assignString, CS.copy_eq_ofS e.mdomain d hdomain (Nat.zero_le _)]
        rfl
      · refine .inl ⟨fun l' d' h => hdomain (hparts l' d' h).2, .inr ?_⟩
        rw [hread, CS.assignString, CS.copy_eq_ofS e.mlocalPart l hlocal (Nat.zero_le _)]
        simp [CS.assignString, CS.copy, show d.length ≥ 255 by omega]
    · refine .inl ⟨fun l' d' h => hlocal (hparts l' d' h).1, .inr ?_⟩
      rw [hread]
      simp [CS.assignString, CS.copy, show l.length ≥ 64 by omega]
  · have hfind : findFrom is.extract.1 (Wc '@') 0 = none :=
      findFrom_eq_none_iff.mpr (by simpa using hat)
    refine .inl ⟨?_, .inl (by simp only [Email.extract, hfind])⟩
    rintro l d ⟨hword, -⟩
    exact hat (by rw [hword]; simp)

/-! ## Steps and runs -/

/-- An extraction into a value that is there. -/
theorem extract_sound_iff {emails : List Email} (hvalid : ∀ e ∈ emails, ValidEmail Null e)
    {value : ℕ} {e : Email} (he : emails[value]? = some e) (is : InStream) :
    ResultSound Null emails (emailCall nfdBase emails (.extract value is)) ↔
      GivenValid nfdBase Null emails (.extract value is) := by
  have hvalue : value < emails.length := (List.getElem?_eq_some_iff.mp he).1
  simp only [emailCall, he, GivenValid, hvalue, forall_const]
  rcases extract_cases e is with ⟨hnone, heq | heq⟩ | ⟨l, d, hlocal, hdomain, hparts, heq⟩
  · have hset : emails.set value e = emails := by
      obtain ⟨hi, rfl⟩ := List.getElem?_eq_some_iff.mp he
      exact List.set_getElem_self hi
    rw [heq, Outcome.value_bind]
    dsimp only
    rw [hset]
    exact iff_of_true (resultSound_throws _) fun l d h => absurd h (hnone l d)
  · rw [heq, Outcome.terminated_bind]
    exact iff_of_true resultSound_terminated fun l d h => absurd h (hnone l d)
  · rw [heq, Outcome.value_bind, resultSound_returns_iff, valid_set_iff hvalid hvalue,
      validEmail_iff Null (toString_ofS_upToNul l hlocal) (toString_ofS_upToNul d hdomain)]
    constructor
    · intro h l' d' hparts'
      obtain ⟨rfl, rfl⟩ := partsOf_unique hparts hparts'
      exact h
    · intro h
      exact h l d hparts

/-- **One call.** -/
theorem emailCall_sound_iff {emails : List Email} (hvalid : ∀ e ∈ emails, ValidEmail Null e)
    (call : EmailCall) :
    ResultSound Null emails (emailCall nfdBase emails call) ↔
      GivenValid nfdBase Null emails call := by
  cases call with
  | ofParts lp d cq =>
    show ResultSound Null emails (settle emails _ (Email.ofParts nfdBase lp d cq)) ↔ _
    rw [settle_sound_iff (valid_append_iff hvalid)]
    exact initialized_valid_iff nfdBase Null lp d cq
  | ofString storage s cq =>
    show ResultSound Null emails (settle emails _ (Email.ofString nfdBase storage s cq)) ↔ _
    rw [settle_sound_iff (valid_append_iff hvalid)]
    exact ofString_valid_iff nfdBase Null storage s cq
  | initializeWith value lp d cq =>
    by_cases hvalue : value < emails.length
    · simp only [emailCall, hvalue, if_true, GivenValid, forall_const]
      rw [settle_sound_iff (valid_set_iff hvalid hvalue)]
      exact initialized_valid_iff nfdBase Null lp d cq
    · simp only [emailCall, hvalue, if_false, GivenValid, false_implies, iff_true]
      exact (resultSound_returns_iff emails).mpr hvalid
  | extract value is =>
    cases he : emails[value]? with
    | some e => exact extract_sound_iff nfdBase Null hvalid he is
    | none =>
      have hvalue : ¬ value < emails.length := by
        rw [List.getElem?_eq_none_iff] at he
        omega
      simp only [emailCall, he, GivenValid, hvalue, false_implies, iff_true]
      exact (resultSound_returns_iff emails).mpr hvalid

theorem emailStep_keeps_valid {emails after : List Email} {call : EmailCall}
    (hvalid : ∀ e ∈ emails, ValidEmail Null e) (hgiven : GivenValid nfdBase Null emails call)
    (hstep : emailStep nfdBase emails call = .value after) : ∀ e ∈ after, ValidEmail Null e := by
  obtain ⟨⟨thrown, emails'⟩, hcall, hafter⟩ := (Outcome.bind_eq_value_iff _ _ _).mp hstep
  cases hafter
  have hsound := (emailCall_sound_iff nfdBase Null hvalid call).mpr hgiven thrown after hcall
  cases thrown with
  | none => exact hsound
  | some message =>
    rw [show after = emails from hsound]
    exact hvalid

theorem sound_along_iff (calls : List EmailCall) :
    MeetsAlong (emailStep nfdBase)
        (fun emails call => ResultSound Null emails (emailCall nfdBase emails call)) [] calls ↔
      MeetsAlong (emailStep nfdBase) (GivenValid nfdBase Null) [] calls := by
  apply meetsAlong_iff (emailStep nfdBase) (fun emails => ∀ e ∈ emails, ValidEmail Null e) _ _
    (fun _ => True)
  · intro emails call _ hvalid
    exact emailCall_sound_iff nfdBase Null hvalid call
  · intro emails call after _ hvalid hgiven hstep
    exact emailStep_keeps_valid nfdBase Null hvalid hgiven hstep
  · simp
  · simp

/-- **Main result.**  Along any history the e-mails are valid or the null sentinel after every
call that returns, and what they were after every call that throws, exactly when every step
is as `GivenValid` says: for the null sentinel to the letter, and in the sense of
`operator==`. -/
theorem emails_valid_along_iff (calls : List EmailCall) :
    (MeetsAlong (emailStep nfdBase) (fun emails call =>
          ResultSound ExactNull emails (emailCall nfdBase emails call)) [] calls ↔
        MeetsAlong (emailStep nfdBase) (GivenValid nfdBase ExactNull) [] calls) ∧
      (MeetsAlong (emailStep nfdBase) (fun emails call =>
          ResultSound (EqualsNull nfdBase) emails (emailCall nfdBase emails call)) [] calls ↔
        MeetsAlong (emailStep nfdBase) (GivenValid nfdBase (EqualsNull nfdBase)) [] calls) :=
  ⟨sound_along_iff nfdBase ExactNull calls, sound_along_iff nfdBase (EqualsNull nfdBase) calls⟩

/-- `a@b`, read into the null e-mail. -/
theorem not_emails_valid_extract :
    ¬ MeetsAlong (emailStep id) (fun emails call =>
        ResultSound (EqualsNull id) emails (emailCall id emails call)) []
      [.ofParts Email.NULL_LOCAL_PART Email.NULL_DOMAIN 0,
        .extract 0 { remaining := W "a@b" }] := by
  rw [sound_along_iff]
  rintro ⟨-, hrest⟩
  have hl : Email.NULL_LOCAL_PART.toString? = some (W "null") :=
    CS.toString_ofS _ _ (by decide)
  have hd : Email.NULL_DOMAIN.toString? = some (W "null") := CS.toString_ofS _ _ (by decide)
  have hstep : emailStep id []
      (.ofParts Email.NULL_LOCAL_PART Email.NULL_DOMAIN 0) =
        .value [⟨Email.NULL_LOCAL_PART, Email.NULL_DOMAIN, 0⟩] := by
    rcases initialized_cases id hl hd 0 with ⟨-, h⟩ | ⟨h, -⟩
    · simp [emailStep, emailCall, Email.ofParts, h, settle]
    · exact absurd (.inl ⟨spellsNull_null id, spellsNull_null id⟩) h
  have hparts : PartsOf (InStream.extract { remaining := W "a@b" }).1 (W "a") (W "b") :=
    ⟨by decide, by decide, by decide, by decide⟩
  rcases (hrest _ hstep).1 (by decide) _ _ hparts with ⟨-, hdomain⟩ | ⟨hnull, -⟩
  · exact absurd (dot_mem_of_validDomain hdomain) (by decide)
  · exact absurd hnull.1 (by decide)

end History

end Pensar.Analysis
