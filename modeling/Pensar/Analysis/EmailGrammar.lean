import Pensar.Interface.EmailGrammar

/-!
# The validators against the grammar

Every validator ends, reads the string at its own indices only, and answers what the grammar
says.  The scan of a domain is about the rest of the string from `start` on: its next label
ends at the next dot, so that the labels seen are the pieces between the dots
(`labelLoop_eq`), and the top-level label is what follows the last of them.

Main result: `email_validators_accept_grammar`.
-/

set_option autoImplicit false

namespace Pensar.Analysis

open Pensar.Computation
open Pensar.Interface
open Pensar.Model

/-! ## Characters -/

/-- The characters of a list, by their codes. -/
theorem mem_iff_of_codes {chars : S} {codes : List ℕ} (h : chars.map UInt8.toNat = codes) (c : C) :
    c ∈ chars ↔ c.toNat ∈ codes := by
  rw [← h, List.mem_map_of_injective fun _ _ => UInt8.toNat_inj.mp]

theorem isLetter_iff (c : C) : isLetter c = true ↔ c ∈ letters := by
  have hcodes : letters.map UInt8.toNat = List.range' 65 26 ++ List.range' 97 26 := by decide
  have hbounds : (Wc 'a').toNat = 97 ∧ (Wc 'z').toNat = 122 ∧ (Wc 'A').toNat = 65 ∧
      (Wc 'Z').toNat = 90 := ⟨rfl, rfl, rfl, rfl⟩
  rw [mem_iff_of_codes hcodes]
  simp only [isLetter, UInt8.le_iff_toNat_le, hbounds, Bool.or_eq_true, Bool.and_eq_true,
    decide_eq_true_eq, List.mem_append, List.mem_range'_1]
  omega

theorem isDigit_iff (c : C) : isDigit c = true ↔ c ∈ digits := by
  have hcodes : digits.map UInt8.toNat = List.range' 48 10 := by decide
  have hbounds : (Wc '0').toNat = 48 ∧ (Wc '9').toNat = 57 := ⟨rfl, rfl⟩
  rw [mem_iff_of_codes hcodes]
  simp only [isDigit, UInt8.le_iff_toNat_le, hbounds, Bool.and_eq_true, decide_eq_true_eq,
    List.mem_range'_1]
  omega

theorem dot_not_labelChar : Wc '.' ∉ letters ++ digits ++ W "-" := by decide

/-! ## Reading a piece of a string by index

`l` is the piece that starts at `start`.
-/

section Pieces

variable {s l t : S} {start : ℕ}

theorem charAt_piece (hpiece : s.drop start = l ++ t) {i : ℕ} {c : C} (hc : l[i]? = some c) :
    charAt s (start + i) = .value c := by
  have hi : i < l.length := (List.getElem?_eq_some_iff.mp hc).1
  have hs : s[start + i]? = some c := by
    rw [← List.getElem?_drop, hpiece, List.getElem?_append_left hi, hc]
  simp [charAt, hs]

theorem charAt_front (hpiece : s.drop start = l ++ t) {c : C} (hc : l.head? = some c) :
    charAt s start = .value c :=
  charAt_piece (i := 0) hpiece (by rw [← List.head?_eq_getElem?, hc])

theorem charAt_back (hpiece : s.drop start = l ++ t) {c : C} (hc : l.getLast? = some c) :
    charAt s (start + l.length - 1) = .value c := by
  have hne : l ≠ [] := by
    rintro rfl
    simp at hc
  have hpos : 0 < l.length := List.length_pos_of_ne_nil hne
  rw [Nat.add_sub_assoc hpos]
  apply charAt_piece hpiece
  rw [← List.getLast?_eq_getElem?, hc]

end Pieces

/-! ## The local part -/

theorem twoDots_infix_cons (c : C) (rest : S) :
    W ".." <:+: c :: rest ↔
      (c = Wc '.' ∧ rest.head? = some (Wc '.')) ∨ W ".." <:+: rest := by
  have hdots : W ".." = [Wc '.', Wc '.'] := rfl
  rw [List.infix_cons_iff, hdots, List.cons_prefix_cons, eq_comm (a := Wc '.') (b := c)]
  cases rest with
  | nil => simp
  | cons c2 rest => simp [List.cons_prefix_cons, eq_comm (a := Wc '.')]

theorem localPartLoop_iff (l : S) (prevDot : Bool) :
    localPartLoop l prevDot = true ↔
      (∀ c ∈ l, c ∈ letters ++ digits ++ W "_+.-") ∧ ¬ W ".." <:+: l ∧
        (prevDot = true → l.head? ≠ some (Wc '.')) := by
  induction l generalizing prevDot with
  | nil => simp [localPartLoop, W]
  | cons c rest ih =>
    rw [twoDots_infix_cons]
    by_cases hdot : c = Wc '.'
    · subst hdot
      have hmem : Wc '.' ∈ letters ++ digits ++ W "_+.-" := by decide
      cases prevDot with
      | true => simp [localPartLoop]
      | false =>
        have hloop : localPartLoop (Wc '.' :: rest) false = localPartLoop rest true := by
          simp [localPartLoop]
        rw [hloop, ih]
        simp only [List.mem_cons, forall_eq_or_imp, hmem]
        tauto
    · have hchar : (isLetter c || isDigit c || c = Wc '_' || c = Wc '-' || c = Wc '+') = true ↔
          c ∈ letters ++ digits ++ W "_+.-" := by
        have hrest : W "_+.-" = [Wc '_', Wc '+', Wc '.', Wc '-'] := rfl
        simp only [Bool.or_eq_true, isLetter_iff, isDigit_iff, decide_eq_true_eq, hrest,
          List.mem_append, List.mem_cons, List.not_mem_nil, or_false, hdot, false_or]
        tauto
      by_cases hc : c ∈ letters ++ digits ++ W "_+.-"
      · simp only [localPartLoop, hdot, if_false, hchar.mpr hc, if_true, ih, List.mem_cons,
          forall_eq_or_imp, hc]
        simp [hdot]
      · have hfalse := mt hchar.mp hc
        simp only [localPartLoop, hdot, if_false, hfalse, List.mem_cons, forall_eq_or_imp, hc]
        simp

theorem isValidLocalPart_decides (lp : S) :
    (isValidLocalPart lp).Decides (ValidLocalPart lp) := by
  cases lp with
  | nil =>
    have hnot : ¬ ValidLocalPart [] := fun h => absurd h.nonempty (by simp)
    simp [isValidLocalPart, hnot]
  | cons c rest =>
    have hpiece : (c :: rest).drop 0 = (c :: rest) ++ [] := by simp
    obtain ⟨last, hlast⟩ : ∃ last, (c :: rest).getLast? = some last :=
      ⟨_, List.getLast?_eq_some_getLast (by simp)⟩
    have hfront : charAt (c :: rest) 0 = .value c := charAt_front hpiece rfl
    have hback : charAt (c :: rest) ((c :: rest).length - 1) = .value last := by
      have h := charAt_back hpiece hlast
      rwa [Nat.zero_add] at h
    have hloop : (Outcome.value (localPartLoop (c :: rest) false)).Decides
        ((∀ x ∈ c :: rest, x ∈ letters ++ digits ++ W "_+.-") ∧ ¬ W ".." <:+: c :: rest) := by
      simp [localPartLoop_iff]
    simp only [isValidLocalPart, hfront, hback, Outcome.value_bind]
    refine (Outcome.Decides.unless fun _ => Outcome.Decides.unless fun _ =>
      Outcome.Decides.unless fun _ => hloop).congr ?_
    constructor
    · rintro ⟨hsize, hf, hb, hchars, hdots⟩
      refine ⟨by simp, by simpa using hsize, hchars, by simpa using hf, ?_, hdots⟩
      simpa [hlast] using hb
    · intro h
      have hshort : rest.length + 1 ≤ 64 := h.short
      refine ⟨by simpa using hshort, ?_, ?_, h.characters, h.noConsecutiveDots⟩
      · simpa using h.noLeadingDot
      · simpa [hlast] using h.noTrailingDot

/-! ## One label -/

theorem labelChars_decides {domain l t : S} {i : ℕ} (hpiece : domain.drop i = l ++ t) :
    (labelChars domain i l.length).Decides (∀ c ∈ l, c ∈ letters ++ digits ++ W "-") := by
  induction l generalizing i with
  | nil => simp [labelChars]
  | cons c l ih =>
    have hread : charAt domain i = .value c := charAt_front hpiece rfl
    have hnext : domain.drop (i + 1) = l ++ t := by
      rw [← List.drop_drop, hpiece]
      rfl
    have hchar : (isLetter c || isDigit c || c = Wc '-') = true ↔
        c ∈ letters ++ digits ++ W "-" := by
      have hrest : W "-" = [Wc '-'] := rfl
      simp only [Bool.or_eq_true, isLetter_iff, isDigit_iff, decide_eq_true_eq, hrest,
        List.mem_append, List.mem_singleton]
    simp only [List.length_cons, labelChars, hread, Outcome.value_bind]
    by_cases hc : c ∈ letters ++ digits ++ W "-"
    · simp only [hchar.mpr hc, if_true]
      refine (ih hnext).congr ?_
      simp only [List.mem_cons, forall_eq_or_imp, hc, true_and]
    · have hfalse := mt hchar.mp hc
      simp only [hfalse, List.mem_cons, forall_eq_or_imp, hc, false_and]
      simp

theorem isValidLabel_decides {domain l t : S} {start : ℕ} (hpiece : domain.drop start = l ++ t) :
    (isValidLabel domain start (start + l.length)).Decides (ValidLabel l) := by
  cases l with
  | nil =>
    have hnot : ¬ ValidLabel [] := fun h => absurd h.nonempty (by simp)
    simp [isValidLabel, hnot]
  | cons c rest =>
    obtain ⟨last, hlast⟩ : ∃ last, (c :: rest).getLast? = some last :=
      ⟨_, List.getLast?_eq_some_getLast (by simp)⟩
    have hlen : start + (c :: rest).length - start = (c :: rest).length :=
      Nat.add_sub_cancel_left ..
    simp only [isValidLabel, charAt_front hpiece rfl, charAt_back hpiece hlast, hlen,
      Outcome.value_bind]
    refine (Outcome.Decides.unless fun _ => Outcome.Decides.unless fun _ =>
      Outcome.Decides.unless fun _ => labelChars_decides hpiece).congr ?_
    constructor
    · rintro ⟨hsize, hf, hb, hchars⟩
      refine ⟨by simp, by simpa using hsize, hchars, by simpa using hf, ?_⟩
      simpa [hlast] using hb
    · intro h
      have hshort : rest.length + 1 ≤ 63 := h.short
      refine ⟨by simpa using hshort, ?_, ?_, h.characters⟩
      · simpa using h.noLeadingHyphen
      · simpa [hlast] using h.noTrailingHyphen

/-! ## The loop over the labels -/

instance (label : S) : Decidable (ValidLabel label) :=
  decidable_of_iff
    (1 ≤ label.length ∧ label.length ≤ 63 ∧
      label.all (fun c => decide (c ∈ letters ++ digits ++ W "-")) = true ∧
      label.head? ≠ some (Wc '-') ∧ label.getLast? ≠ some (Wc '-'))
    ⟨fun ⟨h1, h2, h3, h4, h5⟩ => ⟨h1, h2, forall_mem_of_all h3, h4, h5⟩,
      fun ⟨h1, h2, h3, h4, h5⟩ =>
        ⟨h1, h2, List.all_eq_true.mpr fun c hc => decide_eq_true (h3 c hc), h4, h5⟩⟩

/-- One turn of the loop. -/
theorem labelLoop_next {domain l t : S} {start : ℕ} (k : ℕ) (hstart : start ≤ domain.length)
    (hpiece : domain.drop start = l ++ t) (hend : labelEnd domain start = start + l.length) :
    labelLoop domain start k =
      if ValidLabel l then labelLoop domain (start + l.length + 1) (k + 1) else .value none := by
  obtain ⟨b, hb, hvalid⟩ := isValidLabel_decides hpiece
  rw [labelLoop, dif_pos hstart]
  simp only [hend, hb, Outcome.value_bind]
  cases b with
  | true => simp [hvalid.mp rfl]
  | false =>
    have hnot : ¬ ValidLabel l := fun h => absurd (hvalid.mpr h) (by simp)
    simp [hnot]

/-- **The loop sees the pieces between the dots.** -/
theorem labelLoop_eq (domain : S) (start k : ℕ) (hstart : start ≤ domain.length) :
    labelLoop domain start k =
      .value (if ∀ label ∈ (domain.drop start).splitOn (Wc '.'), ValidLabel label then
        some (k + ((domain.drop start).splitOn (Wc '.')).length) else none) := by
  -- by induction on the length of the rest
  obtain ⟨n, hn⟩ : ∃ n, n = domain.length - start := ⟨_, rfl⟩
  induction n using Nat.strong_induction_on generalizing start k with
  | _ n ih =>
    rcases findFrom_cases domain (Wc '.') start with ⟨hfind, hfree⟩ | ⟨l, r, hfind, hcut, hl⟩
    · -- the last label
      have hend : labelEnd domain start = start + (domain.drop start).length := by
        simp only [labelEnd, hfind, List.length_drop]
        omega
      have hpast : ¬ start + (domain.drop start).length + 1 ≤ domain.length := by
        rw [List.length_drop]
        omega
      rw [labelLoop_next k hstart (List.append_nil _).symm hend, List.splitOn_eq_singleton hfree]
      by_cases hvalid : ValidLabel (domain.drop start)
      · rw [labelLoop, dif_neg hpast]
        simp [hvalid]
      · simp [hvalid]
    · have hend : labelEnd domain start = start + l.length := by
        simp only [labelEnd, hfind]
      have hlen : domain.length - start = l.length + (r.length + 1) := by
        have h := congrArg List.length hcut
        rwa [List.length_drop, List.length_append, List.length_cons] at h
      have hrest : domain.drop (start + l.length + 1) = r := by
        rw [Nat.add_assoc, ← List.drop_drop, hcut, ← List.drop_drop, List.drop_left]
        rfl
      rw [labelLoop_next k hstart hcut hend, hcut, splitOn_of_cut r hl]
      by_cases hvalid : ValidLabel l
      · rw [if_pos hvalid,
          ih (domain.length - (start + l.length + 1)) (by omega) _ _ (by omega) rfl, hrest]
        simp only [List.mem_cons, forall_eq_or_imp, hvalid, true_and, List.length_cons]
        congr 3
        omega
      · simp [hvalid]

/-! ## The domain -/

theorem dot_not_mem_of_validLabel {label : S} (h : ValidLabel label) : Wc '.' ∉ label :=
  fun hmem => dot_not_labelChar (h.characters _ hmem)

theorem validDomain_iff (d : S) :
    ValidDomain d ↔ d.length ≤ 255 ∧ DomainLabels (d.splitOn (Wc '.')) := by
  constructor
  · rintro ⟨hlen, labels, hd, hlabels⟩
    have hne : labels ≠ [] := by
      rintro rfl
      exact absurd hlabels.two (by simp)
    have hsplit : d.splitOn (Wc '.') = labels :=
      splitOn_eq_iff.mpr ⟨hd, hne, fun l hl => dot_not_mem_of_validLabel (hlabels.valid l hl)⟩
    exact ⟨hlen, hsplit ▸ hlabels⟩
  · rintro ⟨hlen, hlabels⟩
    exact ⟨hlen, _, (splitOn_eq_iff.mp rfl).1, hlabels⟩

theorem all_isLetter_iff (l : S) : l.all isLetter = true ↔ ∀ c ∈ l, c ∈ letters := by
  simp only [List.all_eq_true, isLetter_iff]

theorem substr_cut (l : S) (c : C) (d : S) : substr (l ++ c :: d) (l.length + 1) = .value d := by
  have hdrop : (l ++ c :: d).drop (l.length + 1) = d := by
    rw [← List.drop_drop, List.drop_left]
    rfl
  rw [substr, if_pos, hdrop]
  rw [List.length_append, List.length_cons]
  omega

/-- The part of `is_valid_domain` behind the loop reads the last label. -/
theorem topLevel_decides {d l r : S} (hcut : d = l ++ Wc '.' :: r) :
    (do
      let tld ← substr d (l.length + 1)
      if tld.length < 2 then .value false else .value (tld.all isLetter)).Decides (TopLevel r) := by
  have hread : substr d (l.length + 1) = .value r := by
    rw [hcut, substr_cut]
  simp only [hread, Outcome.value_bind]
  refine (Outcome.Decides.unless fun _ => (Outcome.decides_value _ _).mpr
    (all_isLetter_iff r)).congr ?_
  constructor
  · rintro ⟨hlong, halpha⟩
    exact ⟨by omega, halpha⟩
  · rintro ⟨hlong, halpha⟩
    exact ⟨by omega, halpha⟩

theorem isValidDomain_decides (d : S) : (isValidDomain d).Decides (ValidDomain d) := by
  apply Outcome.Decides.congr _ (validDomain_iff d).symm
  have hempty : d = [] → ¬ DomainLabels (d.splitOn (Wc '.')) := by
    rintro rfl h
    exact absurd h.two (by simp [List.splitOn_nil])
  simp only [isValidDomain, labelLoop_eq d 0 0 (Nat.zero_le _), List.drop_zero, Nat.zero_add,
    Outcome.value_bind]
  by_cases hsize : d.isEmpty || d.length > 255
  · have hnot : ¬ (d.length ≤ 255 ∧ DomainLabels (d.splitOn (Wc '.'))) := by
      rintro ⟨hlen, hlabels⟩
      rcases Bool.or_eq_true_iff.mp hsize with h | h
      · exact hempty (List.isEmpty_iff.mp h) hlabels
      · exact absurd hlen (by simpa using h)
    rw [if_pos hsize]
    simp [hnot]
  rw [if_neg hsize]
  have hlen : d.length ≤ 255 := by
    have h := hsize
    simp only [Bool.or_eq_true, not_or, decide_eq_true_eq] at h
    omega
  by_cases hvalid : ∀ label ∈ d.splitOn (Wc '.'), ValidLabel label
  · rw [if_pos hvalid]
    by_cases htwo : (d.splitOn (Wc '.')).length < 2
    · have hnot : ¬ DomainLabels (d.splitOn (Wc '.')) := fun h => absurd h.two (by omega)
      simp [htwo, hnot]
    · rcases rfind_cases d (Wc '.') with ⟨-, hfree⟩ | ⟨l, r, hfind, hcut, hr⟩
      · exact absurd (by simp [List.splitOn_eq_singleton hfree]) htwo
      · have hlast : (d.splitOn (Wc '.')).getLast? = some r := by
          rw [hcut]
          exact getLast_splitOn l hr
        simp only [htwo, if_false, hfind]
        apply (topLevel_decides hcut).congr
        constructor
        · intro htop
          exact ⟨hlen, by omega, hvalid, r, hlast, htop⟩
        · rintro ⟨-, -, -, top, htop, h⟩
          rw [hlast] at htop
          cases htop
          exact h
  · have hnot : ¬ DomainLabels (d.splitOn (Wc '.')) := fun h => hvalid h.valid
    rw [if_neg hvalid]
    simp [hnot]

/-! ## The address -/

/-- Where the first `@` cuts a string decides which two parts it may have. -/
theorem validAddress_of_cut {localPart domain : S} (hlocal : Wc '@' ∉ localPart) :
    ValidAddress (localPart ++ Wc '@' :: domain) ↔
      Wc '@' ∉ domain ∧ ValidLocalPart localPart ∧ ValidDomain domain := by
  constructor
  · rintro ⟨l, d, hcut, hl, hd, hvl, hvd⟩
    obtain ⟨rfl, -, rfl⟩ := (List.append_cons_inj_of_notMem hl hd).mp hcut.symm
    exact ⟨hd, hvl, hvd⟩
  · rintro ⟨hd, hvl, hvd⟩
    exact ⟨_, _, rfl, hlocal, hd, hvl, hvd⟩

theorem at_mem_of_validAddress {s : S} (h : ValidAddress s) : Wc '@' ∈ s := by
  obtain ⟨l, d, rfl, -⟩ := h
  simp

theorem isValidEmailAddress_decides (s : S) :
    (isValidEmailAddress s).Decides (ValidAddress s) := by
  rcases findFrom_cases s (Wc '@') 0 with ⟨hfind, hfree⟩ | ⟨l, d, hfind, hcut, hl⟩
  · have hnot : ¬ ValidAddress s := fun h => hfree (by simpa using at_mem_of_validAddress h)
    simp [isValidEmailAddress, hfind, hnot]
  rw [List.drop_zero] at hcut
  rw [Nat.zero_add] at hfind
  have hs : s.isEmpty = false := by simp [hcut]
  have htake : s.take l.length = l := by
    rw [hcut, List.take_left]
  have hlen : s.length = l.length + (d.length + 1) := by
    rw [hcut, List.length_append, List.length_cons]
  have hrest : substr s (l.length + 1) = .value d := by
    rw [hcut, substr_cut]
  have hsecond : ((findFrom s (Wc '@') (l.length + 1)).isSome = true) ↔ Wc '@' ∈ d := by
    have hdrop : s.drop (l.length + 1) = d := by
      rw [hcut, ← List.drop_drop, List.drop_left]
      rfl
    rw [← Option.ne_none_iff_isSome, Ne, findFrom_eq_none_iff, hdrop, not_not]
  simp only [isValidEmailAddress, hs, hfind, htake, hrest, Outcome.value_bind, if_false,
    Bool.false_eq_true]
  refine (Outcome.Decides.unless fun _ => Outcome.Decides.unless fun _ =>
    (isValidLocalPart_decides l).and fun _ => isValidDomain_decides d).congr ?_
  have hvalid : ValidAddress s ↔ Wc '@' ∉ d ∧ ValidLocalPart l ∧ ValidDomain d := by
    rw [hcut, validAddress_of_cut hl]
  rw [hvalid, hsecond]
  constructor
  · rintro ⟨-, hd, hvl, hvd⟩
    exact ⟨hd, hvl, hvd⟩
  · rintro ⟨hd, hvl, hvd⟩
    refine ⟨?_, hd, hvl, hvd⟩
    have hfront := hvl.nonempty
    have hback : d ≠ [] := by
      rintro rfl
      exact absurd ((validDomain_iff []).mp hvd).2.two (by simp [List.splitOn_nil])
    have hpos : 0 < d.length := List.length_pos_of_ne_nil hback
    simp only [Bool.or_eq_true, decide_eq_true_eq]
    omega

/-- **Main result.**  On every string the validators end, read no index out of range, and
answer what the grammar says: the one of addresses, and the two of their parts. -/
theorem email_validators_accept_grammar (s : S) :
    (isValidEmailAddress s).Decides (ValidAddress s) ∧
      (isValidLocalPart s).Decides (ValidLocalPart s) ∧
      (isValidDomain s).Decides (ValidDomain s) :=
  ⟨isValidEmailAddress_decides s, isValidLocalPart_decides s, isValidDomain_decides s⟩

end Pensar.Analysis
