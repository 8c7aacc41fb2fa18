import Pensar.Analysis.PersonName

/-!
# Reading a name back

Behind the first name the reader takes one space, and takes the next word as the middle name
unless a second space follows.  The writer never emits two spaces in a row, so that without a
middle name the last name is read as the middle one, and nothing is left for the last name.

Main result: `read_write_iff`.
-/

set_option autoImplicit false

namespace Pensar.Analysis

open Pensar.Computation
open Pensar.Model

variable {n : PersonName} {first middle last : S}

/-- A word: not empty, and free of white space. -/
structure IsWord (s : S) : Prop where
  ne_nil : s ≠ []
  no_space : ∀ c ∈ s, isspace c = false

/-- Something that ends a word. -/
def EndsWord (rest : S) : Prop := ∀ c, rest.head? = some c → isspace c = true

theorem isWord_of_all {s : S} (hne : s ≠ []) (hall : s.all fun c => !isspace c) : IsWord s :=
  ⟨hne, fun c hc => by simpa using List.all_eq_true.mp hall c hc⟩

theorem IsWord.cons {s : S} (h : IsWord s) :
    ∃ c cs, s = c :: cs ∧ isspace c = false ∧ c ≠ SPACE := by
  obtain ⟨c, cs, rfl⟩ := List.exists_cons_of_ne_nil h.ne_nil
  have hc := h.no_space c List.mem_cons_self
  refine ⟨c, cs, rfl, hc, ?_⟩
  rintro rfl
  exact absurd hc (by decide)

/-- A word is extracted up to its end. -/
theorem extract_word {s rest : S} (hs : IsWord s) (hrest : EndsWord rest) :
    InStream.extract { remaining := s ++ rest } =
      (s, { remaining := rest, good := !rest.isEmpty }) := by
  obtain ⟨c, cs, hcons, hspace, -⟩ := hs.cons
  have hahead : (s ++ rest).dropWhile isspace = s ++ rest := by
    rw [hcons, List.cons_append, List.dropWhile_cons_of_neg (by rw [hspace]; decide)]
  have hend : rest.takeWhile (fun c => !isspace c) = [] := by
    cases rest with
    | nil => rfl
    | cons d ds => exact List.takeWhile_cons_of_neg (by rw [hrest d rfl]; decide)
  have hfield : (s ++ rest).takeWhile (fun c => !isspace c) = s := by
    rw [List.takeWhile_append_of_pos fun c hc => by rw [hs.no_space c hc]; rfl, hend,
      List.append_nil]
  have hne : s.isEmpty = false := by rw [hcons]; rfl
  simp only [InStream.extract, if_true, hahead, hfield, List.drop_left, hne, Bool.not_false,
    Bool.and_true, decide_true, Bool.true_or]

/-- A field that takes a string that fits. -/
theorem read_word {N : ℕ} (field : CS 0 N) {s rest : S} (hs : IsWord s) (hrest : EndsWord rest)
    (hfits : s.length < N) :
    field.read { remaining := s ++ rest } =
      (.ok (CS.ofS s hfits), { remaining := rest, good := !rest.isEmpty }) := by
  simp only [CS.read, extract_word hs hrest, CS.copy_eq_ofS field s hfits (Nat.zero_le _)]

theorem endsWord_space (rest : S) : EndsWord (SPACE :: rest) := by
  intro c hc
  obtain rfl : SPACE = c := Option.some.inj hc
  decide

theorem endsWord_nil : EndsWord [] := fun _ hc => nomatch hc

theorem ignoreSpace_space (rest : S) :
    InStream.ignoreSpace { remaining := SPACE :: rest } = { remaining := rest } := rfl

theorem peek_word {s : S} (hs : IsWord s) (rest : S) :
    ∃ c, InStream.peek { remaining := s ++ rest } = (some c, { remaining := s ++ rest }) ∧
      some c ≠ some SPACE := by
  obtain ⟨c, cs, rfl, -, hc⟩ := hs.cons
  exact ⟨c, rfl, fun heq => hc (Option.some.inj heq)⟩

/-- The first two words: the second one becomes the middle name. -/
theorem read_two_words (target : PersonName) {s t rest : S} (hs : IsWord s) (ht : IsWord t)
    (hrest : EndsWord rest) (hfits : s.length < 20) (hfits' : t.length < 20) :
    target.read { remaining := s ++ SPACE :: (t ++ rest) } =
      PersonName.readLast ⟨CS.ofS s hfits, CS.ofS t hfits', target.mlast⟩
        (InStream.ignoreSpace { remaining := rest, good := !rest.isEmpty }) := by
  obtain ⟨c, hpeek, hc⟩ := peek_word ht rest
  rw [PersonName.read, read_word target.mfirst hs (endsWord_space _) hfits]
  simp only [List.isEmpty_cons, Bool.not_false, ignoreSpace_space, hpeek, hc, ne_eq,
    not_false_eq_true, if_true, read_word target.mmiddle ht hrest hfits']

/-- Names as the text format is meant for. -/
structure HoldsWords (n : PersonName) (first middle last : S) : Prop extends
    HoldsNames n first middle last where
  first_word : IsWord first
  middle_word : middle ≠ [] → IsWord middle
  last_word : IsWord last

/-- Whatever the object is that the text is read into, it then holds the same strings. -/
def ReadsBack (n : PersonName) (first middle last : S) : Prop :=
  ∀ target : PersonName, ∃ text n' is, n.write [] = .value text ∧
    target.read { remaining := text } = (.ok (), n', is) ∧ HoldsNames n' first middle last

theorem toString_of_holds {N : ℕ} {v : CS 0 N} {s : S} (h : v.toString? = some s)
    (hfits : s.length < N) : (CS.ofS s hfits : CS 0 N).toString? = some s :=
  CS.toString_ofS s hfits (toString_eq_some h).2

/-- With a middle name. -/
theorem reads_middle (h : HoldsWords n first middle last) (hmiddle : middle ≠ []) :
    ReadsBack n first middle last := by
  intro target
  obtain ⟨⟨hf, hm, hl⟩, hfirst, hword, hlast⟩ := h
  have hlf := lt_of_toString hf
  have hlm := lt_of_toString hm
  have hll := lt_of_toString hl
  have hlen : middle.length ≠ 0 := fun hzero => hmiddle (List.length_eq_zero_iff.mp hzero)
  refine ⟨first ++ SPACE :: (middle ++ SPACE :: (last ++ [])),
    ⟨CS.ofS first hlf, CS.ofS middle hlm, CS.ofS last hll⟩, { remaining := [], good := false },
    ?_, ?_, toString_of_holds hf hlf, toString_of_holds hm hlm, toString_of_holds hl hll⟩
  · rw [write_eq ⟨hf, hm, hl⟩, if_neg hlen]
    simp only [List.nil_append, List.append_assoc, List.cons_append, List.append_nil]
  · rw [read_two_words target hfirst (hword hmiddle) (endsWord_space _) hlf hlm]
    simp only [List.isEmpty_cons, Bool.not_false, ignoreSpace_space, PersonName.readLast,
      read_word target.mlast hlast endsWord_nil hll, List.isEmpty_nil, Bool.not_true]

/-- Without a middle name the last name becomes the middle one. -/
theorem reads_no_middle (h : HoldsWords n first [] last) : ¬ ReadsBack n first [] last := by
  intro hread
  obtain ⟨⟨hf, hm, hl⟩, hfirst, -, hlast⟩ := h
  have hlf := lt_of_toString hf
  have hll := lt_of_toString hl
  obtain ⟨text, n', is, hwrite, hresult, ⟨-, hm', -⟩⟩ := hread n
  have htext : text = first ++ SPACE :: (last ++ []) := by
    rw [write_eq ⟨hf, hm, hl⟩] at hwrite
    rw [← Outcome.value.inj hwrite]
    simp only [List.length_nil, if_true, List.nil_append, List.append_assoc, List.append_nil,
      List.singleton_append]
  rw [htext, read_two_words n hfirst hlast endsWord_nil hlf hll] at hresult
  have hmiddle : n'.mmiddle = CS.ofS last hll := by
    unfold PersonName.readLast at hresult
    split at hresult
    · cases hresult
    · cases hresult
      rfl
  rw [hmiddle, toString_of_holds hl hll] at hm'
  exact hlast.ne_nil (Option.some.inj hm')

/-- **Reading back**: the three names are the same exactly when there is a middle name. -/
theorem read_write_iff (h : HoldsWords n first middle last) :
    ReadsBack n first middle last ↔ middle ≠ [] := by
  constructor
  · rintro hread rfl
    exact reads_no_middle h hread
  · exact reads_middle h

theorem holdsWords_ana : HoldsWords
    ⟨CS.ofS (W "Ana") (by decide), CS.ofS (W "Maria") (by decide), CS.ofS (W "Silva") (by decide)⟩
    (W "Ana") (W "Maria") (W "Silva") :=
  ⟨⟨by decide, by decide, by decide⟩, isWord_of_all (by decide) (by decide),
    fun _ => isWord_of_all (by decide) (by decide), isWord_of_all (by decide) (by decide)⟩

theorem read_write_ana : ReadsBack
    ⟨CS.ofS (W "Ana") (by decide), CS.ofS (W "Maria") (by decide), CS.ofS (W "Silva") (by decide)⟩
    (W "Ana") (W "Maria") (W "Silva") :=
  (read_write_iff holdsWords_ana).mpr (by decide)

/-- The person of the test: `John Doe`. -/
theorem not_readsBack_john :
    ¬ ∀ n first middle last, HoldsWords n first middle last → ReadsBack n first middle last := by
  intro h
  have hread := h
    ⟨CS.ofS (W "John") (by decide), CS.ofS [] (by decide), CS.ofS (W "Doe") (by decide)⟩
    (W "John") [] (W "Doe") ⟨⟨by decide, by decide, by decide⟩,
      isWord_of_all (by decide) (by decide), fun hne => absurd rfl hne,
      isWord_of_all (by decide) (by decide)⟩
  obtain ⟨text, n', is, hwrite, hresult, ⟨-, -, hlast⟩⟩ := hread
    ⟨CS.ofS [] (by decide), CS.ofS [] (by decide), CS.ofS [] (by decide)⟩
  cases hwrite
  cases hresult
  exact absurd hlast (by decide)

end Pensar.Analysis
