import ShaderChain.Proofs.Text.Token

/-! The search for an identifier. It finds an occurrence that no identifier character touches. If
the identifier starts with a character of several bytes, only the leftmost occurrence is looked
at. -/

namespace ShaderChain.Text

/-- A place where `ident` stands in the text. -/
structure Occurrence (ident text : List Char) where
  before : List Char
  after : List Char
  split : text = before ++ (ident ++ after)

namespace Occurrence

variable {ident text : List Char}

def Delimited (o : Occurrence ident text) : Prop :=
  (∀ c ∈ o.before.getLast?, isIdentChar c = false) ∧ ∀ c ∈ o.after.head?, isIdentChar c = false

def Leftmost (o : Occurrence ident text) : Prop :=
  ∀ other : Occurrence ident text, o.before.length ≤ other.before.length

theorem eq_of_length {o other : Occurrence ident text}
    (hlength : o.before.length = other.before.length) : o = other := by
  obtain ⟨before, after, hsplit⟩ := o
  obtain ⟨otherBefore, otherAfter, hother⟩ := other
  obtain ⟨rfl, hrest⟩ := List.append_inj (hsplit.symm.trans hother) hlength
  obtain rfl := List.append_cancel_left hrest
  rfl

theorem Leftmost.eq {o other : Occurrence ident text} (ho : o.Leftmost) (hother : other.Leftmost) :
    o = other :=
  eq_of_length (Nat.le_antisymm (ho other) (hother o))

theorem exists_leftmost (o : Occurrence ident text) :
    ∃ first : Occurrence ident text, first.Leftmost := by
  induction hlength : o.before.length using Nat.strong_induction_on generalizing o with
  | h n ih =>
      by_cases hleft : o.Leftmost
      · exact ⟨o, hleft⟩
      · simp only [Leftmost, not_forall, Nat.not_le] at hleft
        obtain ⟨other, hless⟩ := hleft
        exact ih _ (hlength ▸ hless) other rfl

end Occurrence

theorem touches_eq_false {edge : Option Char} :
    touches edge = false ↔ ∀ c ∈ edge, isIdentChar c = false := by
  cases edge <;> simp [touches]

/-! The search from within a text. `edge` is the character before, and the last character of the
text that was passed takes its place. -/

theorem getLast?_cons_or (c : Char) (before : List Char) (edge : Option Char) :
    (c :: before).getLast?.or edge = before.getLast?.or (some c) := by
  cases before <;> simp [List.getLast?_cons]

theorem searchFrom_of_not_starts {ident rest : List Char} {c : Char}
    (hstarts : ¬ident <+: c :: rest) (edge : Option Char) :
    searchFrom ident edge (c :: rest) = searchFrom ident (some c) rest := by
  rw [searchFrom, if_neg (by rwa [List.isPrefixOf_iff_prefix])]

theorem searchFrom_occurrence {first : Char} (more after : List Char) (edge : Option Char) :
    searchFrom (first :: more) edge (first :: more ++ after) =
      if touches edge = false ∧ touches after.head? = false then .found
      else if first.toNat < 0x80 then searchFrom (first :: more) (some first) (more ++ after)
      else .offBoundary := by
  have hstarts : (first :: more).isPrefixOf (first :: (more ++ after)) = true := by
    rw [List.isPrefixOf_iff_prefix, ← List.cons_append]
    exact List.prefix_append ..
  have hdrop : (first :: (more ++ after)).drop (first :: more).length = after := by
    rw [← List.cons_append, List.drop_left]
  rw [List.cons_append, searchFrom, if_pos hstarts, hdrop]
  cases touches edge <;> cases touches after.head? <;> rfl

theorem searchFrom_skip {ident before text : List Char}
    (hskip : ∀ i < before.length, ¬ident <+: (before ++ text).drop i) (edge : Option Char) :
    searchFrom ident edge (before ++ text) =
      searchFrom ident (before.getLast?.or edge) text := by
  induction before generalizing edge with
  | nil => rfl
  | cons c rest ih =>
      have hrest : ∀ i < rest.length, ¬ident <+: (rest ++ text).drop i := fun i hi =>
        hskip (i + 1) (by simpa using hi)
      rw [getLast?_cons_or, ← ih hrest (some c)]
      exact searchFrom_of_not_starts (hskip 0 (by simp)) edge

/-- An occurrence that nothing touches. `edge` touches one that starts the text. -/
def FreeAfter (edge : Option Char) (ident text : List Char) : Prop :=
  ∃ o : Occurrence ident text,
    touches (o.before.getLast?.or edge) = false ∧ touches o.after.head? = false

theorem freeAfter_cons {edge : Option Char} {ident rest : List Char} {c : Char}
    (hstart : ∀ after, c :: rest = ident ++ after →
      ¬(touches edge = false ∧ touches after.head? = false)) :
    FreeAfter edge ident (c :: rest) ↔ FreeAfter (some c) ident rest := by
  constructor
  · rintro ⟨⟨before, after, hsplit⟩, hfree⟩
    cases before with
    | nil => exact absurd hfree (hstart after hsplit)
    | cons d before =>
        obtain ⟨rfl, hrest⟩ := List.cons.inj hsplit
        rw [getLast?_cons_or] at hfree
        exact ⟨⟨before, after, hrest⟩, hfree⟩
  · rintro ⟨⟨before, after, rfl⟩, hfree⟩
    rw [← getLast?_cons_or c before edge] at hfree
    exact ⟨⟨c :: before, after, rfl⟩, hfree⟩

theorem searchFrom_of_ascii {first : Char} (hascii : first.toNat < 0x80) (more text : List Char)
    (edge : Option Char) :
    (searchFrom (first :: more) edge text = .found ↔ FreeAfter edge (first :: more) text) ∧
      searchFrom (first :: more) edge text ≠ .offBoundary := by
  induction text generalizing edge with
  | nil =>
      refine ⟨iff_of_false nofun ?_, nofun⟩
      rintro ⟨⟨before, after, hsplit⟩, -⟩
      simp at hsplit
  | cons c rest ih =>
      by_cases hstarts : first :: more <+: c :: rest
      · obtain ⟨after, hafter⟩ := hstarts
        rw [← hafter, searchFrom_occurrence, hafter]
        by_cases hfree : touches edge = false ∧ touches after.head? = false
        · rw [if_pos hfree]
          exact ⟨iff_of_true rfl ⟨⟨[], after, hafter.symm⟩, hfree⟩, nofun⟩
        · obtain ⟨rfl, rfl⟩ := List.cons.inj hafter
          rw [if_neg hfree, if_pos hascii, freeAfter_cons]
          · exact ih (some first)
          · intro other hother
            rwa [← List.append_cancel_left (hafter.trans hother)]
      · rw [searchFrom_of_not_starts hstarts, freeAfter_cons]
        · exact ih (some c)
        · intro after hafter
          exact absurd ⟨after, hafter.symm⟩ hstarts

section Search

variable {ident text : List Char}

theorem Occurrence.delimited_iff {o : Occurrence ident text} :
    o.Delimited ↔ touches o.before.getLast? = false ∧ touches o.after.head? = false := by
  rw [touches_eq_false, touches_eq_false, Delimited]

theorem freeAfter_none : FreeAfter none ident text ↔ ∃ o : Occurrence ident text, o.Delimited := by
  simp only [FreeAfter, Occurrence.delimited_iff, Option.or_none]

theorem search_of_ne_nil (hne : ident ≠ []) (text : List Char) :
    search ident text = searchFrom ident none text := by
  rw [search, if_neg (by simpa using hne)]

theorem search_of_ascii {first : Char} {more : List Char} (hascii : first.toNat < 0x80)
    (text : List Char) :
    (search (first :: more) text = .found ↔
        ∃ o : Occurrence (first :: more) text, o.Delimited) ∧
      search (first :: more) text ≠ .offBoundary := by
  rw [search_of_ne_nil (by simp), ← freeAfter_none]
  exact searchFrom_of_ascii hascii more text none

theorem search_of_no_occurrence (hne : ident ≠ []) (hnone : ¬Nonempty (Occurrence ident text)) :
    search ident text = .absent := by
  have hskip : ∀ i < text.length, ¬ident <+: (text ++ []).drop i := by
    rintro i - ⟨after, hafter⟩
    rw [List.append_nil] at hafter
    refine hnone ⟨text.take i, after, ?_⟩
    rw [hafter, List.take_append_drop]
  rw [search_of_ne_nil hne, ← List.append_nil text, searchFrom_skip hskip]
  rfl

/-- The search comes to the leftmost occurrence, whatever the identifier starts with. -/
theorem search_leftmost {o : Occurrence ident text} (hne : ident ≠ []) (ho : o.Leftmost) :
    search ident text = searchFrom ident o.before.getLast? (ident ++ o.after) := by
  have hskip : ∀ i < o.before.length, ¬ident <+: (o.before ++ (ident ++ o.after)).drop i := by
    rintro i hi ⟨after, hafter⟩
    rw [← o.split] at hafter
    have hleft := ho ⟨text.take i, after, by rw [hafter, List.take_append_drop]⟩
    rw [List.length_take] at hleft
    omega
  rw [search_of_ne_nil hne, ← Option.or_none (o := o.before.getLast?), ← searchFrom_skip hskip,
    ← o.split]

theorem search_of_multibyte {first : Char} {more : List Char} (hfirst : 0x80 ≤ first.toNat)
    {o : Occurrence (first :: more) text} (ho : o.Leftmost) :
    (o.Delimited → search (first :: more) text = .found) ∧
      (¬o.Delimited → search (first :: more) text = .offBoundary) := by
  rw [search_leftmost (by simp) ho, searchFrom_occurrence, Occurrence.delimited_iff]
  exact ⟨fun hfree => if_pos hfree,
    fun hfree => (if_neg hfree).trans (if_neg (Nat.not_lt.mpr hfirst))⟩

end Search

/-- What a search answers, by the occurrences of the identifier. -/
structure Searched (ident text : List Char) (answer : Search) : Prop where
  empty : ident = [] → answer = .absent
  ascii : ∀ first ∈ ident.head?, first.toNat < 0x80 → answer ≠ .offBoundary ∧
    (answer = .found ↔ ∃ o : Occurrence ident text, o.Delimited)
  multibyte : ∀ first ∈ ident.head?, 0x80 ≤ first.toNat →
    (answer = .absent ↔ ¬Nonempty (Occurrence ident text)) ∧
    (answer = .found ↔ ∃ o : Occurrence ident text, o.Leftmost ∧ o.Delimited) ∧
    (answer = .offBoundary ↔ ∃ o : Occurrence ident text, o.Leftmost ∧ ¬o.Delimited)

theorem searched_search (ident text : List Char) : Searched ident text (search ident text) := by
  cases ident with
  | nil => exact ⟨fun _ => rfl, nofun, nofun⟩
  | cons first more =>
      refine ⟨nofun, ?_, ?_⟩
      · rintro _ ⟨⟩ hascii
        exact (search_of_ascii hascii text).symm
      · rintro _ ⟨⟩ hfirst
        by_cases hoccurs : Nonempty (Occurrence (first :: more) text)
        · obtain ⟨o, ho⟩ := hoccurs.some.exists_leftmost
          obtain ⟨hfound, hoff⟩ := search_of_multibyte hfirst ho
          by_cases hfree : o.Delimited
          · rw [hfound hfree]
            refine ⟨iff_of_false nofun (not_not_intro hoccurs), iff_of_true rfl ⟨o, ho, hfree⟩,
              iff_of_false nofun ?_⟩
            rintro ⟨other, hother, hnot⟩
            exact hnot (ho.eq hother ▸ hfree)
          · rw [hoff hfree]
            refine ⟨iff_of_false nofun (not_not_intro hoccurs), iff_of_false nofun ?_,
              iff_of_true rfl ⟨o, ho, hfree⟩⟩
            rintro ⟨other, hother, hdelimited⟩
            exact hfree (ho.eq hother ▸ hdelimited)
        · rw [search_of_no_occurrence (by simp) hoccurs]
          exact ⟨iff_of_true rfl hoccurs, iff_of_false nofun fun ⟨o, _⟩ => hoccurs ⟨o⟩,
            iff_of_false nofun fun ⟨o, _⟩ => hoccurs ⟨o⟩⟩

end ShaderChain.Text
