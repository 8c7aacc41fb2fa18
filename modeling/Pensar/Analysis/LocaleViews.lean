import Pensar.Analysis.OrgHierarchyRows

/-!
# Materialized and live hierarchies

There is a view for each locale of the installation.  The refresh goes over the locales that there
are now and makes the name of a view from each code: it fails for a code whose suffix belongs to
no view, and a code with the suffix of another one reads the view of the other.  And a view's
`parent_id` is a `D_EntityId` where `fn_mv_org_hierarchy` declares a `BIGINT`.

`IsInstalled` is what refreshing keeps of the views: their names, and the codes in their queries.
A refresh of all codes with views leaves each of these views with the rows of its code
(`refreshLoop_spec`), in which a locale that is no longer the one of its view finds other rows.

Main result: `viewsAgree_iff` says after which statements the two hierarchies agree.
-/

set_option autoImplicit false

namespace Pensar.Analysis

open Pensar.Computation
open Pensar.Model
open OrgDatabase (Keys Consistent)
open LocaleViews (refreshLoop fnRefreshLocaleMvs fnMvOrgHierarchy)

variable {V : Type}

/-! ## What a caller expects -/

/-- The refresh completes, and after it each locale reads in its view the rows that
`fn_org_hierarchy` finds for it; given enough rounds for the recursion. -/
def ViewsAgree (rule : ReturnRule) (db : OrgDatabase V) (views : LocaleViews) : Prop :=
  ∃ bound, ∀ fuel, bound < fuel → ∃ refreshed,
    fnRefreshLocaleMvs views db fuel = some refreshed ∧
      ∀ l ∈ db.tLocale, ∃ rows live,
        fnMvOrgHierarchy rule refreshed (some l.code) = some rows ∧
        db.fnOrgHierarchy rule fuel l.code = some live ∧ rows.Perm live

/-- The suffix of the code is the one of a locale of the installation. -/
def HasView (code : SqlText) : Prop :=
  ∃ k ∈ INSTALLED_LOCALES, localeSuffix k.code = localeSuffix code

/-- The code has a view, and the same rows belong into the hierarchy for it and for the code of the
view. -/
def ReadsItsOwn (db : OrgDatabase V) (code : SqlText) : Prop :=
  ∃ k ∈ INSTALLED_LOCALES, localeSuffix k.code = localeSuffix code ∧
    ∀ row, Listed db k.code row ↔ Listed db code row

/-- The views have the names and the queries that they got at the installation. -/
structure IsInstalled (views : LocaleViews) : Prop where
  orgHierarchy : views.orgHierarchy.map (fun v => (v.name, v.code)) =
    INSTALLED_LOCALES.map fun k => (mvOrgHierarchy k.code, k.code)
  contactQualifier :
    views.contactQualifier = INSTALLED_LOCALES.map fun k => mvContactQualifier k.code
  role : views.role = INSTALLED_LOCALES.map fun k => mvRole k.code

theorem isInstalled_installed : IsInstalled LocaleViews.installed where
  orgHierarchy := rfl
  contactQualifier := rfl
  role := rfl

/-- Two locales of the installation do not share a suffix. -/
theorem eq_of_localeSuffix {k k' : Model.Locale} (hk : k ∈ INSTALLED_LOCALES)
    (hk' : k' ∈ INSTALLED_LOCALES) (h : localeSuffix k.code = localeSuffix k'.code) : k = k' := by
  have hsuffixes : (INSTALLED_LOCALES.map fun l => localeSuffix l.code).Nodup := by decide
  exact eq_of_key hsuffixes hk hk' h

theorem mvOrgHierarchy_eq_iff {code code' : SqlText} :
    mvOrgHierarchy code = mvOrgHierarchy code' ↔ localeSuffix code = localeSuffix code' :=
  List.append_right_inj "MV_OrgHierarchy_".toList

/-! ## Names of views -/

section Names

variable {views : LocaleViews} (hviews : IsInstalled views)
include hviews

theorem mem_orgHierarchy {v : HierarchyView} (hv : v ∈ views.orgHierarchy) :
    ∃ k ∈ INSTALLED_LOCALES, v.name = mvOrgHierarchy k.code ∧ v.code = k.code := by
  have hmem : (v.name, v.code) ∈ views.orgHierarchy.map fun v => (v.name, v.code) :=
    List.mem_map_of_mem hv
  rw [hviews.orgHierarchy] at hmem
  obtain ⟨k, hk, hpair⟩ := List.mem_map.mp hmem
  exact ⟨k, hk, (congrArg Prod.fst hpair).symm, (congrArg Prod.snd hpair).symm⟩

theorem exists_view {k : Model.Locale} (hk : k ∈ INSTALLED_LOCALES) :
    ∃ v ∈ views.orgHierarchy, v.name = mvOrgHierarchy k.code ∧ v.code = k.code := by
  have hmem : (mvOrgHierarchy k.code, k.code) ∈
      views.orgHierarchy.map fun v => (v.name, v.code) := by
    rw [hviews.orgHierarchy]
    exact List.mem_map_of_mem hk
  obtain ⟨v, hv, hpair⟩ := List.mem_map.mp hmem
  exact ⟨v, hv, congrArg Prod.fst hpair, congrArg Prod.snd hpair⟩

theorem any_view_iff (code : SqlText) :
    (views.orgHierarchy.any fun v => v.name = mvOrgHierarchy code) = true ↔ HasView code := by
  rw [List.any_eq_true]
  constructor
  · rintro ⟨v, hv, hname⟩
    obtain ⟨k, hk, hkname, -⟩ := mem_orgHierarchy hviews hv
    have hsame : mvOrgHierarchy k.code = mvOrgHierarchy code :=
      hkname.symm.trans (of_decide_eq_true hname)
    exact ⟨k, hk, mvOrgHierarchy_eq_iff.mp hsame⟩
  · rintro ⟨k, hk, hsuffix⟩
    obtain ⟨v, hv, hname, -⟩ := exists_view hviews hk
    exact ⟨v, hv, decide_eq_true (hname.trans (mvOrgHierarchy_eq_iff.mpr hsuffix))⟩

theorem other_views_iff (code : SqlText) :
    (views.contactQualifier.contains (mvContactQualifier code) &&
      views.role.contains (mvRole code)) = true ↔ HasView code := by
  rw [hviews.contactQualifier, hviews.role, Bool.and_eq_true, List.contains_iff_mem,
    List.contains_iff_mem, List.mem_map, List.mem_map]
  unfold HasView mvContactQualifier mvRole
  simp only [List.append_cancel_left_eq, and_self]

end Names

/-! ## The refresh -/

section Refresh

variable {db : OrgDatabase V} (hkeys : db.Keys) {fuel : ℕ} (hfuel : db.tOrgUnit.length < fuel)
include hkeys hfuel

/-- The views after the refresh of one. -/
theorem refreshOrgHierarchy_eq (views : LocaleViews) (name : SqlText) :
    views.refreshOrgHierarchy db fuel name =
      if views.orgHierarchy.any fun v => v.name = name then
        some { views with
          orgHierarchy := views.orgHierarchy.map fun v =>
            if v.name = name then { v with rows := orgTreeRows db v.code } else v }
      else
        none := by
  have hone : (fun v : HierarchyView =>
      if v.name = name then (db.orgTree fuel v.code).map fun rows => { v with rows } else some v) =
        fun v => pure (if v.name = name then { v with rows := orgTreeRows db v.code } else v) := by
    funext v
    rw [orgTree_eq hkeys v.code hfuel]
    split <;> rfl
  unfold LocaleViews.refreshOrgHierarchy
  rw [hone, List.mapM_pure]
  rfl

/-- What the loop leaves: the views of the codes hold the rows of their queries. -/
structure Refreshed (db : OrgDatabase V) (names : List SqlText) (views : LocaleViews) : Prop where
  installed : IsInstalled views
  rows : ∀ v ∈ views.orgHierarchy, v.name ∈ names → v.rows = orgTreeRows db v.code

omit hkeys hfuel in
theorem isInstalled_refreshed {views : LocaleViews} (hviews : IsInstalled views) (name : SqlText) :
    IsInstalled { views with
      orgHierarchy := views.orgHierarchy.map fun v =>
        if v.name = name then { v with rows := orgTreeRows db v.code } else v } where
  orgHierarchy := by
    rw [← hviews.orgHierarchy, List.map_map]
    refine List.map_congr_left fun v _ => ?_
    dsimp only [Function.comp]
    split <;> rfl
  contactQualifier := hviews.contactQualifier
  role := hviews.role

/-- **The loop of `fn_refresh_locale_mvs`** ends if all codes have a view. -/
theorem refreshLoop_spec (codes done : List SqlText) {views : LocaleViews}
    (hviews : Refreshed db done views) :
    (∀ refreshed, refreshLoop db fuel codes views = some refreshed →
      Refreshed db (done ++ codes.map mvOrgHierarchy) refreshed) ∧
    ((refreshLoop db fuel codes views).isSome ↔ ∀ code ∈ codes, HasView code) := by
  induction codes generalizing done views with
  | nil =>
    constructor
    · rintro refreshed ⟨⟩
      simpa using hviews
    · simp [refreshLoop]
  | cons code codes ih =>
    rw [refreshLoop, refreshOrgHierarchy_eq hkeys hfuel]
    by_cases hview : HasView code
    · rw [if_pos ((any_view_iff hviews.installed code).mpr hview)]
      have hnext : Refreshed db (done ++ [mvOrgHierarchy code]) { views with
          orgHierarchy := views.orgHierarchy.map fun v =>
            if v.name = mvOrgHierarchy code then { v with rows := orgTreeRows db v.code }
            else v } := by
        refine ⟨isInstalled_refreshed hviews.installed _, ?_⟩
        intro v hv hname
        obtain ⟨w, hw, rfl⟩ := List.mem_map.mp hv
        by_cases hnow : w.name = mvOrgHierarchy code
        · rw [if_pos hnow]
        · rw [if_neg hnow] at hname ⊢
          refine hviews.rows w hw ?_
          simpa [hnow] using hname
      have hothers := (other_views_iff hnext.installed code).mpr hview
      obtain ⟨hsome, hiff⟩ := ih _ hnext
      simp only [Option.bind_eq_bind, Option.bind_some, hothers, if_true]
      constructor
      · intro refreshed hrefreshed
        simpa [List.append_assoc] using hsome refreshed hrefreshed
      · rw [hiff]
        simp [hview]
    · have hnone : ¬ (views.orgHierarchy.any fun v => v.name = mvOrgHierarchy code) = true :=
        mt (any_view_iff hviews.installed code).mp hview
      rw [if_neg hnone]
      simp [hview]

theorem fnRefreshLocaleMvs_spec {views : LocaleViews} (hviews : IsInstalled views) :
    (∀ refreshed, fnRefreshLocaleMvs views db fuel = some refreshed →
      Refreshed db (db.tLocale.map fun l => mvOrgHierarchy l.code) refreshed) ∧
    ((fnRefreshLocaleMvs views db fuel).isSome ↔ ∀ l ∈ db.tLocale, HasView l.code) := by
  have hperm : ((OrderBy.ascending Locale.id).sort db.tLocale).Perm db.tLocale :=
    (OrderBy.ascending Locale.id).perm db.tLocale
  have hstart : Refreshed db [] views := ⟨hviews, by simp⟩
  obtain ⟨hsome, hiff⟩ := refreshLoop_spec hkeys hfuel
    (((OrderBy.ascending Locale.id).sort db.tLocale).map Locale.code) [] hstart
  constructor
  · intro refreshed hrefreshed
    obtain ⟨hinstalled, hrows⟩ := hsome refreshed hrefreshed
    refine ⟨hinstalled, fun v hv hname => hrows v hv ?_⟩
    obtain ⟨l, hl, hlname⟩ := List.mem_map.mp hname
    rw [List.nil_append, List.map_map]
    exact List.mem_map.mpr ⟨l, hperm.mem_iff.mpr hl, hlname⟩
  · unfold fnRefreshLocaleMvs
    rw [hiff]
    simp [hperm.mem_iff]

end Refresh

/-! ## Reading the views -/

theorem returnQuery_view {R : Type} (rule : ReturnRule) (rows : List R) :
    returnQuery rule HIERARCHY_COLUMNS VIEW_COLUMNS rows =
      if rule.accepts .bigint .dEntityId then some rows else none := by
  simp [returnQuery, HIERARCHY_COLUMNS, VIEW_COLUMNS, rule.same]

/-- What a session of a locale with a view reads after a refresh. -/
theorem fnMvOrgHierarchy_eq (rule : ReturnRule) {db : OrgDatabase V} {views : LocaleViews}
    {names : List SqlText} (hviews : Refreshed db names views) {k : Model.Locale}
    (hk : k ∈ INSTALLED_LOCALES) {code : SqlText}
    (hsuffix : localeSuffix k.code = localeSuffix code)
    (hname : mvOrgHierarchy code ∈ names) :
    fnMvOrgHierarchy rule views (some code) =
      if rule.accepts .bigint .dEntityId then some (orgTreeRows db k.code) else none := by
  have hsession : LocaleViews.sessionLocale (some code) = code := by
    cases code with
    | nil =>
      -- no suffix of an installed locale is empty
      have hempty : ∀ k ∈ INSTALLED_LOCALES, localeSuffix k.code ≠ [] := by decide
      exact absurd hsuffix (hempty k hk)
    | cons c cs => rfl
  have hview : ∃ v, (views.orgHierarchy.find? fun v => v.name = mvOrgHierarchy code) = some v := by
    rw [← Option.isSome_iff_exists, List.find?_isSome]
    exact List.any_eq_true.mp ((any_view_iff hviews.installed code).mpr ⟨k, hk, hsuffix⟩)
  obtain ⟨v, hv⟩ := hview
  have hvname : v.name = mvOrgHierarchy code := by simpa using List.find?_some hv
  have hvmem := List.mem_of_find?_eq_some hv
  obtain ⟨k', hk', hk'name, hcode⟩ := mem_orgHierarchy hviews.installed hvmem
  have hkk' : k' = k :=
    eq_of_localeSuffix hk' hk
      ((mvOrgHierarchy_eq_iff.mp (hk'name.symm.trans hvname)).trans hsuffix.symm)
  have hrows : v.rows = orgTreeRows db k.code := by
    rw [hviews.rows v hvmem (hvname ▸ hname), hcode, hkk']
  rw [fnMvOrgHierarchy, hsession, hv, Option.bind_some, returnQuery_view, hrows]

/-- Rows of one database that belong into the hierarchies for two codes. -/
theorem orgTreeRows_perm_iff {db : OrgDatabase V} (hkeys : db.Keys) (code code' : SqlText) :
    (orgTreeRows db code).Perm (orgTreeRows db code') ↔
      ∀ row, Listed db code row ↔ Listed db code' row := by
  rw [List.perm_ext_iff_of_nodup (.of_map _ (nodup_orgTreeRows hkeys code))
    (.of_map _ (nodup_orgTreeRows hkeys code'))]
  simp only [mem_orgTreeRows hkeys]

/-! ## Do the hierarchies agree? -/

/-- There always is a locale: those of the installation cannot be deleted. -/
theorem exists_locale {db : OrgDatabase V} (hdb : db.Consistent) : ∃ l, l ∈ db.tLocale := by
  have hone := hdb.references.qualifier 1 (by decide)
  obtain ⟨l, hl, -⟩ := List.mem_map.mp hone
  exact ⟨l, hl⟩

theorem viewsAgree_consistent_iff (rule : ReturnRule) {db : OrgDatabase V} (hdb : db.Consistent)
    {views : LocaleViews} (hviews : IsInstalled views) :
    ViewsAgree rule db views ↔
      rule.accepts .bigint .dEntityId ∧ ∀ l ∈ db.tLocale, ReadsItsOwn db l.code := by
  have hkeys := hdb.keys
  constructor
  · rintro ⟨bound, h⟩
    obtain ⟨refreshed, hrefresh, hagree⟩ :=
      h (max bound db.tOrgUnit.length + 1) (by omega)
    have hfuel : db.tOrgUnit.length < max bound db.tOrgUnit.length + 1 := by omega
    obtain ⟨hsome, hiff⟩ := fnRefreshLocaleMvs_spec hkeys hfuel hviews
    have hcover := hiff.mp (by rw [hrefresh]; rfl)
    have hrefreshed := hsome refreshed hrefresh
    have hread : ∀ l ∈ db.tLocale, rule.accepts .bigint .dEntityId ∧ ReadsItsOwn db l.code := by
      intro l hl
      obtain ⟨k, hk, hsuffix⟩ := hcover l hl
      obtain ⟨rows, live, hrows, hlive, hperm⟩ := hagree l hl
      rw [fnMvOrgHierarchy_eq rule hrefreshed hk hsuffix (List.mem_map_of_mem hl)] at hrows
      split at hrows
      · rename_i haccepts
        obtain rfl := Option.some.inj hrows
        rw [fnOrgHierarchy_eq rule hkeys l.code hfuel, Option.some.injEq] at hlive
        subst hlive
        exact ⟨haccepts, k, hk, hsuffix, (orgTreeRows_perm_iff hkeys _ _).mp hperm⟩
      · cases hrows
    obtain ⟨l, hl⟩ := exists_locale hdb
    exact ⟨(hread l hl).1, fun l hl => (hread l hl).2⟩
  · rintro ⟨haccepts, hown⟩
    refine ⟨db.tOrgUnit.length, fun fuel hfuel => ?_⟩
    obtain ⟨hsome, hiff⟩ := fnRefreshLocaleMvs_spec hkeys hfuel hviews
    have hcover : ∀ l ∈ db.tLocale, HasView l.code := by
      intro l hl
      obtain ⟨k, hk, hsuffix, -⟩ := hown l hl
      exact ⟨k, hk, hsuffix⟩
    obtain ⟨refreshed, hrefresh⟩ := Option.isSome_iff_exists.mp (hiff.mpr hcover)
    refine ⟨refreshed, hrefresh, fun l hl => ?_⟩
    obtain ⟨k, hk, hsuffix, hlisted⟩ := hown l hl
    refine ⟨orgTreeRows db k.code, orgTreeRows db l.code, ?_, ?_, ?_⟩
    · rw [fnMvOrgHierarchy_eq rule (hsome refreshed hrefresh) hk hsuffix (List.mem_map_of_mem hl),
        if_pos haccepts]
    · exact fnOrgHierarchy_eq rule hkeys l.code hfuel
    · exact (orgTreeRows_perm_iff hkeys _ _).mpr hlisted

/-- **After any statements, a refresh makes the hierarchies agree exactly when the server takes a
`D_EntityId` for a `BIGINT`, and each locale has a view, with the code of the locale or one for
which the same rows are listed.** -/
theorem viewsAgree_iff (rule : ReturnRule) (ts : TextSearch V)
    (statements : List (OrgStatement V)) :
    let db := (OrgDatabase.server ts).run .installed statements
    ViewsAgree rule db .installed ↔
      rule.accepts .bigint .dEntityId ∧ ∀ l ∈ db.tLocale, ReadsItsOwn db l.code :=
  viewsAgree_consistent_iff rule
    (OrgDatabase.server_run_consistent ts _ statements OrgDatabase.installed_consistent)
    isInstalled_installed

/-- With the server's own rule the accessor fails after the installation; with another one, the
refresh fails after the insertion of a locale. -/
theorem not_viewsAgree :
    (¬ ∀ (ts : TextSearch Unit) statements,
      ViewsAgree .exact ((OrgDatabase.server ts).run .installed statements) .installed) ∧
    ¬ ∀ (ts : TextSearch Unit) statements,
      ViewsAgree .lenient ((OrgDatabase.server ts).run .installed statements) .installed := by
  have hconsistent := OrgDatabase.installed_consistent (V := Unit)
  let ts : TextSearch Unit := ⟨fun _ => (), fun _ _ => (), fun _ _ => ()⟩
  constructor
  · intro h
    have hagree := (viewsAgree_consistent_iff .exact hconsistent isInstalled_installed).mp (h ts [])
    exact absurd hagree.1 (by decide)
  · intro h
    have hrun := OrgDatabase.server_run_consistent ts _
      [.insertLocale ⟨6, "de-DE".toList, false⟩] hconsistent
    have hagree := (viewsAgree_consistent_iff .lenient hrun isInstalled_installed).mp
      (h ts [.insertLocale ⟨6, "de-DE".toList, false⟩])
    obtain ⟨k, hk, hsuffix, -⟩ := hagree.2 ⟨6, "de-DE".toList, false⟩ (by decide)
    have hnone : ∀ k ∈ INSTALLED_LOCALES, localeSuffix k.code ≠ localeSuffix "de-DE".toList := by
      decide
    exact hnone k hk hsuffix

end Pensar.Analysis
