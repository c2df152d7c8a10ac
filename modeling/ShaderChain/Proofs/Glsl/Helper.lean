import Mathlib.Data.List.Nodup
import Mathlib.Order.Bounds.Basic
import ShaderChain.Proofs.Text.Bytes

/-! The helpers that texts need. One pass from the last helper to the first finds them all, because
no helper mentions a later one. -/

namespace ShaderChain

namespace Helper

def MentionedIn (helper : Helper) (text : String) : Prop :=
  ∃ o : Text.Occurrence helper.name.toList text.toList, o.Delimited

theorem mentions_iff {helper : Helper} (hhelper : helper ∈ table) (text : String) :
    Text.mentions text helper.name = true ↔ helper.MentionedIn text := by
  obtain ⟨first, hfirst, hascii⟩ := exists_first hhelper
  rw [Text.mentions, beq_iff_eq]
  exact ((Text.searched_search _ text.toList).ascii first hfirst hascii).2

/-! The order of the table. -/

theorem toList_text {helper : Helper} {lines : List (List Char)}
    (hlines : helper.lines = lines.map String.ofList) :
    helper.text.toList = lines.flatMap (· ++ ['\n']) := by
  rw [text, hlines]
  simp [Function.comp_def, List.flatMap_map]

/-- The characters are given for what the texts spell, so that the search can be carried out. -/
theorem not_mentions_later {helper : Helper} {later : List Helper} (lines names : List (List Char))
    (hlines : helper.lines = lines.map String.ofList)
    (hnames : later.map Helper.name = names.map String.ofList)
    (hsearch : ∀ name ∈ names, Text.search name (lines.flatMap (· ++ ['\n'])) ≠ .found) :
    ∀ other ∈ later, Text.mentions helper.text other.name = false := by
  intro other hother
  have hname := List.mem_map_of_mem (f := Helper.name) hother
  rw [hnames] at hname
  obtain ⟨name, hmem, hspelled⟩ := List.mem_map.mp hname
  rw [Text.mentions, toList_text hlines, ← hspelled, String.toList_ofList]
  simpa using hsearch name hmem

theorem pairwise_table :
    table.Pairwise fun first second => Text.mentions first.text second.name = false := by
  refine .cons (not_mentions_later [_, _, _] [_, _, _, _, _] rfl rfl (by decide +kernel)) ?_
  refine .cons (not_mentions_later [_, _, _] [_, _, _, _] rfl rfl (by decide +kernel)) ?_
  refine .cons (not_mentions_later [_, _, _, _] [_, _, _] rfl rfl (by decide +kernel)) ?_
  refine .cons (not_mentions_later [_, _, _, _, _, _, _, _] [_, _] rfl rfl (by decide +kernel)) ?_
  refine .cons (not_mentions_later [_, _, _, _, _] [_] rfl rfl (by decide +kernel)) ?_
  exact List.pairwise_singleton ..

theorem nodup_table : table.Nodup := by
  have hnames : (table.map Helper.name).Nodup := by decide +kernel
  exact List.Nodup.of_map Helper.name hnames

/-! The pass over a part of the table. -/

section Pass

variable (texts : List String) {helpers : List Helper}

theorem mem_neededIn_cons {helper other : Helper} {rest : List Helper} :
    other ∈ neededIn texts (helper :: rest) ↔
      (other = helper ∧ ((∃ text ∈ texts, Text.mentions text helper.name = true) ∨
        ∃ user ∈ neededIn texts rest, Text.mentions user.text helper.name = true)) ∨
      other ∈ neededIn texts rest := by
  simp only [neededIn]
  split <;> simp_all

theorem neededIn_sublist (helpers : List Helper) : (neededIn texts helpers).Sublist helpers := by
  induction helpers with
  | nil => exact .slnil
  | cons helper rest ih =>
      simp only [neededIn]
      split
      · exact ih.cons_cons helper
      · exact ih.cons helper

theorem mem_neededIn_of_text {helper : Helper} (hhelper : helper ∈ helpers) {text : String}
    (htext : text ∈ texts) (hmentions : Text.mentions text helper.name = true) :
    helper ∈ neededIn texts helpers := by
  induction helpers with
  | nil => cases hhelper
  | cons first rest ih =>
      rw [mem_neededIn_cons]
      rcases List.mem_cons.mp hhelper with rfl | hrest
      · exact .inl ⟨rfl, .inl ⟨text, htext, hmentions⟩⟩
      · exact .inr (ih hrest)

theorem mem_neededIn_of_helper
    (hordered : helpers.Pairwise fun first second => Text.mentions first.text second.name = false)
    {helper user : Helper} (hhelper : helper ∈ helpers) (huser : user ∈ neededIn texts helpers)
    (hmentions : Text.mentions user.text helper.name = true) :
    helper ∈ neededIn texts helpers := by
  induction helpers with
  | nil => cases hhelper
  | cons first rest ih =>
      obtain ⟨hfirst, hrest⟩ := List.pairwise_cons.mp hordered
      rcases List.mem_cons.mp hhelper with rfl | hlater
      · -- The helper itself is the only one that may mention it and is not later.
        rcases (mem_neededIn_cons texts).mp huser with ⟨rfl, -⟩ | huser'
        · exact huser
        · exact (mem_neededIn_cons texts).mpr (.inl ⟨rfl, .inr ⟨user, huser', hmentions⟩⟩)
      · rcases (mem_neededIn_cons texts).mp huser with ⟨rfl, -⟩ | huser'
        · rw [hfirst helper hlater] at hmentions
          cases hmentions
        · exact (mem_neededIn_cons texts).mpr (.inr (ih hrest hlater huser'))

theorem neededIn_congr {texts others : List String} (hsame : ∀ text, text ∈ texts ↔ text ∈ others)
    (helpers : List Helper) : neededIn texts helpers = neededIn others helpers := by
  have hany (name : String) : texts.any (Text.mentions · name) =
      others.any (Text.mentions · name) := by
    rw [Bool.eq_iff_iff, List.any_eq_true, List.any_eq_true]
    simp only [hsame]
  induction helpers with
  | nil => rfl
  | cons helper rest ih => simp only [neededIn, ih, hany]

end Pass

/-! The least set of helpers that has those in the texts and with each one those in its own text. -/

structure Closed (texts : List String) (helpers : Set Helper) : Prop where
  inTexts : ∀ helper ∈ table, ∀ text ∈ texts, helper.MentionedIn text → helper ∈ helpers
  inHelpers : ∀ helper ∈ table, ∀ user ∈ helpers, helper.MentionedIn user.text → helper ∈ helpers

theorem neededIn_subset_of_closed {texts : List String} {set : Set Helper} (hset : Closed texts set)
    {helpers : List Helper} (hhelpers : ∀ helper ∈ helpers, helper ∈ table) :
    ∀ helper ∈ neededIn texts helpers, helper ∈ set := by
  induction helpers with
  | nil => nofun
  | cons first rest ih =>
      obtain ⟨hfirst, hrest⟩ := List.forall_mem_cons.mp hhelpers
      intro helper hhelper
      rcases (mem_neededIn_cons texts).mp hhelper with ⟨rfl, hmentions⟩ | hlater
      · rcases hmentions with ⟨text, htext, hmentions⟩ | ⟨user, huser, hmentions⟩
        · exact hset.inTexts _ hfirst text htext ((mentions_iff hfirst text).mp hmentions)
        · exact hset.inHelpers _ hfirst user (ih hrest user huser)
            ((mentions_iff hfirst user.text).mp hmentions)
      · exact ih hrest helper hlater

theorem isLeast_needed (texts : List String) :
    IsLeast {set | Closed texts set} {helper | helper ∈ needed texts} := by
  refine ⟨⟨?_, ?_⟩, fun set hset helper hhelper => ?_⟩
  · intro helper hhelper text htext hmentioned
    exact mem_neededIn_of_text texts hhelper htext ((mentions_iff hhelper text).mpr hmentioned)
  · intro helper hhelper user huser hmentioned
    exact mem_neededIn_of_helper texts pairwise_table hhelper huser
      ((mentions_iff hhelper user.text).mpr hmentioned)
  · exact neededIn_subset_of_closed hset (fun _ hmem => hmem) helper hhelper

/-- How the helpers that the texts need are listed. -/
structure Arranged (texts : List String) (helpers : List Helper) : Prop where
  least : IsLeast {set | Closed texts set} {helper | helper ∈ helpers}
  ordered : helpers.Sublist table
  once : helpers.Nodup
  usedFirst : ∀ before user after, helpers = before ++ user :: after →
    ∀ helper ∈ table, helper ≠ user → helper.MentionedIn user.text → helper ∈ before

theorem arranged_needed (texts : List String) : Arranged texts (needed texts) := by
  have hsublist : (needed texts).Sublist table := neededIn_sublist texts table
  refine ⟨isLeast_needed texts, hsublist, nodup_table.sublist hsublist, ?_⟩
  intro before user after hsplit helper hhelper hne hmentioned
  have huser : user ∈ needed texts := by
    rw [hsplit]
    simp
  have hneeded : helper ∈ needed texts :=
    (isLeast_needed texts).1.inHelpers helper hhelper user huser hmentioned
  have hordered := pairwise_table.sublist hsublist
  rw [hsplit, List.pairwise_append, List.pairwise_cons] at hordered
  obtain ⟨-, ⟨hlater, -⟩, -⟩ := hordered
  rw [hsplit, List.mem_append, List.mem_cons] at hneeded
  rcases hneeded with hbefore | rfl | hafter
  · exact hbefore
  · exact absurd rfl hne
  · have hmentions := (mentions_iff hhelper user.text).mpr hmentioned
    rw [hlater helper hafter] at hmentions
    cases hmentions

theorem needed_congr {texts others : List String} (hsame : ∀ text, text ∈ texts ↔ text ∈ others) :
    needed texts = needed others :=
  neededIn_congr hsame table

end Helper

end ShaderChain
