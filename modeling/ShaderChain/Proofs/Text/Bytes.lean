import ShaderChain.Glsl.Helper
import ShaderChain.Proofs.Text.Search

/-! The search by bytes. Texts are searched in UTF-8, where a place need not be one where a
character starts. Both ways of searching have the same answers. -/

namespace ShaderChain

namespace Text

def utf8 (cs : List Char) : List UInt8 :=
  cs.flatMap String.utf8EncodeChar

def isIdentByte (b : UInt8) : Bool :=
  isIdentChar (Char.ofUInt8 b)

/-- Whether the bytes are at an end or start a character. -/
def atBoundary (bytes : List UInt8) : Bool :=
  bytes.head?.all fun b => b.IsUTF8FirstByte

def searchBytesFrom (ident : List UInt8) (before : Option UInt8) : List UInt8 → Search
  | [] => .absent
  | b :: rest =>
      if ident.isPrefixOf (b :: rest) then
        if !before.any isIdentByte && !((b :: rest).drop ident.length).head?.any isIdentByte then
          .found
        else if atBoundary rest then searchBytesFrom ident (some b) rest
        else .offBoundary
      else searchBytesFrom ident (some b) rest

def searchBytes (ident text : List UInt8) : Search :=
  if ident.isEmpty then .absent else searchBytesFrom ident none text

/-! The bytes of a character. -/

theorem exists_utf8EncodeChar (c : Char) :
    ∃ first more, String.utf8EncodeChar c = first :: more ∧ first.IsUTF8FirstByte ∧
      (∀ b ∈ more, ¬b.IsUTF8FirstByte) ∧ (more = [] ↔ c.toNat < 0x80) := by
  obtain ⟨first, more, hbytes⟩ := List.exists_cons_of_ne_nil (String.utf8EncodeChar_ne_nil (c := c))
  have hstart (i : Nat) (hi : i < (first :: more).length) :
      (first :: more)[i].IsUTF8FirstByte ↔ i = 0 := by
    simp only [← hbytes, UInt8.isUTF8FirstByte_getElem_utf8EncodeChar]
  refine ⟨first, more, hbytes, (hstart 0 (by simp)).mpr rfl, ?_, ?_⟩
  · intro b hb
    obtain ⟨i, hi, rfl⟩ := List.getElem_of_mem hb
    exact mt (hstart (i + 1) (by simpa using hi)).mp (by omega)
  · have hsize := String.length_utf8EncodeChar c
    rw [hbytes, List.length_cons] at hsize
    have hone := Char.utf8Size_eq_one_iff (c := c)
    rw [UInt32.le_iff_toNat_le] at hone
    rw [← List.length_eq_zero_iff]
    have hval : c.val.toNat = c.toNat := rfl
    have hbound : (127 : UInt32).toNat = 127 := rfl
    omega

theorem toNat_of_mem_utf8EncodeChar {c : Char} (hc : 0x80 ≤ c.toNat) {b : UInt8}
    (hb : b ∈ String.utf8EncodeChar c) : 0x80 ≤ b.toNat := by
  have hval : c.val.toNat = c.toNat := rfl
  unfold String.utf8EncodeChar at hb
  rw [hval, if_neg (by omega)] at hb
  split_ifs at hb <;> simp only [List.mem_cons, List.not_mem_nil, or_false] at hb <;>
    rcases hb with rfl | rfl | rfl | rfl <;> simp <;> omega

theorem isIdentChar_of_multibyte {c : Char} (hc : 0x80 ≤ c.toNat) : isIdentChar c = false := by
  rw [Bool.eq_false_iff]
  intro hident
  have hcode := toNat_of_isIdentChar hident
  omega

/-- The bytes of a character count as identifier characters if it is one. -/
theorem isIdentByte_of_mem {c : Char} {b : UInt8} (hb : b ∈ String.utf8EncodeChar c) :
    isIdentByte b = isIdentChar c := by
  by_cases hascii : c.toNat < 0x80
  · have hval : c.val.toNat ≤ 0x7f := Nat.le_of_lt_succ hascii
    unfold String.utf8EncodeChar at hb
    rw [if_pos hval] at hb
    have hchar : Char.ofUInt8 b = c := by
      apply Char.ext
      apply UInt32.toNat_inj.mp
      rw [List.mem_singleton.mp hb]
      exact (UInt8.toNat_toUInt32 _).trans (Nat.mod_eq_of_lt (by omega))
    rw [isIdentByte, hchar]
  · have hmulti := Nat.le_of_not_lt hascii
    rw [isIdentChar_of_multibyte hmulti]
    apply isIdentChar_of_multibyte
    exact toNat_of_mem_utf8EncodeChar hmulti hb

theorem utf8_cons (c : Char) (cs : List Char) :
    utf8 (c :: cs) = String.utf8EncodeChar c ++ utf8 cs := rfl

theorem utf8_append (front back : List Char) : utf8 (front ++ back) = utf8 front ++ utf8 back :=
  List.flatMap_append

theorem utf8EncodeChar_append_inj {c d : Char} {rest other : List UInt8}
    (heq : String.utf8EncodeChar c ++ rest = String.utf8EncodeChar d ++ other) :
    c = d ∧ rest = other := by
  have hbytes := congrArg List.toByteArray heq
  rw [List.toByteArray_append, List.toByteArray_append] at hbytes
  have hchar := congrArg (ByteArray.utf8DecodeChar? · 0) hbytes
  simp only [ByteArray.utf8DecodeChar?_utf8EncodeChar_append] at hchar
  obtain rfl := Option.some.inj hchar
  exact ⟨rfl, List.append_cancel_left heq⟩

theorem utf8_isPrefix_iff (ident text : List Char) : utf8 ident <+: utf8 text ↔ ident <+: text := by
  constructor
  · rintro ⟨rest, hrest⟩
    induction ident generalizing text with
    | nil => exact List.nil_prefix
    | cons c more ih =>
        cases text with
        | nil =>
            obtain ⟨first, bytes, hbytes, -⟩ := exists_utf8EncodeChar c
            rw [utf8_cons, hbytes] at hrest
            cases hrest
        | cons d text =>
            rw [utf8_cons, utf8_cons, List.append_assoc] at hrest
            obtain ⟨rfl, htail⟩ := utf8EncodeChar_append_inj hrest
            exact List.cons_prefix_cons.mpr ⟨rfl, ih text htail⟩
  · rintro ⟨after, rfl⟩
    rw [utf8_append]
    exact List.prefix_append ..

theorem any_isIdentByte_head? (cs : List Char) :
    (utf8 cs).head?.any isIdentByte = touches cs.head? := by
  cases cs with
  | nil => rfl
  | cons c rest =>
      obtain ⟨first, more, hbytes, -⟩ := exists_utf8EncodeChar c
      rw [utf8_cons, hbytes]
      exact isIdentByte_of_mem (hbytes ▸ List.mem_cons_self)

theorem atBoundary_utf8 (cs : List Char) : atBoundary (utf8 cs) = true := by
  cases cs with
  | nil => rfl
  | cons c rest =>
      obtain ⟨first, more, hbytes, hfirst, -⟩ := exists_utf8EncodeChar c
      rw [utf8_cons, hbytes]
      exact decide_eq_true hfirst

/-! No text starts inside a character, so that the search goes by the bytes there. -/

theorem searchBytesFrom_skip {ident : List Char} (hne : ident ≠ []) {inner : List UInt8}
    (hinner : ∀ b ∈ inner, ¬b.IsUTF8FirstByte) (edge : Option UInt8) (text : List UInt8) :
    searchBytesFrom (utf8 ident) edge (inner ++ text) =
      searchBytesFrom (utf8 ident) (inner.getLast?.or edge) text := by
  induction inner generalizing edge with
  | nil => rfl
  | cons b rest ih =>
      obtain ⟨hb, hrest⟩ := List.forall_mem_cons.mp hinner
      have hstarts : ¬(utf8 ident).isPrefixOf (b :: (rest ++ text)) = true := by
        obtain ⟨c, more, rfl⟩ := List.exists_cons_of_ne_nil hne
        obtain ⟨first, bytes, hbytes, hfirst, -⟩ := exists_utf8EncodeChar c
        rw [utf8_cons, hbytes, List.isPrefixOf_iff_prefix, List.cons_append, List.cons_prefix_cons]
        rintro ⟨rfl, -⟩
        exact hb hfirst
      rw [List.cons_append, searchBytesFrom, if_neg hstarts, ih hrest]
      cases rest <;> simp [List.getLast?_cons]

theorem searchBytesFrom_utf8 {ident : List Char} (hne : ident ≠ []) (text : List Char)
    {edge : Option UInt8} {before : Option Char} (hedge : edge.any isIdentByte = touches before) :
    searchBytesFrom (utf8 ident) edge (utf8 text) = searchFrom ident before text := by
  induction text generalizing edge before with
  | nil => rfl
  | cons c rest ih =>
      obtain ⟨first, more, hbytes, -, hmore, hascii⟩ := exists_utf8EncodeChar c
      have hlast : (more.getLast?.or (some first)).any isIdentByte = touches (some c) := by
        have hmem : ∀ b ∈ first :: more, isIdentByte b = isIdentChar c := fun b hb =>
          isIdentByte_of_mem (hbytes ▸ hb)
        cases hlast : more.getLast? with
        | none => exact hmem first List.mem_cons_self
        | some last => exact hmem last (List.mem_cons_of_mem _ (List.mem_of_getLast? hlast))
      have hrest : searchBytesFrom (utf8 ident) (some first) (more ++ utf8 rest) =
          searchFrom ident (some c) rest := by
        rw [searchBytesFrom_skip hne hmore]
        exact ih hlast
      have hstarts : (utf8 ident).isPrefixOf (first :: (more ++ utf8 rest)) =
          ident.isPrefixOf (c :: rest) := by
        rw [Bool.eq_iff_iff, List.isPrefixOf_iff_prefix, List.isPrefixOf_iff_prefix,
          ← utf8_isPrefix_iff, utf8_cons, hbytes, List.cons_append]
      have hboundary : atBoundary (more ++ utf8 rest) = decide (c.toNat < 0x80) := by
        rw [Bool.eq_iff_iff, decide_eq_true_iff, ← hascii]
        cases more with
        | nil => simp [atBoundary_utf8]
        | cons b _ => simp [atBoundary, hmore b (by simp)]
      rw [utf8_cons, hbytes, List.cons_append, searchBytesFrom, searchFrom, hstarts, hrest,
        hboundary, hedge]
      split
      · rename_i hstarted
        obtain ⟨after, hafter⟩ := List.isPrefixOf_iff_prefix.mp hstarted
        have hdrop : (first :: (more ++ utf8 rest)).drop (utf8 ident).length = utf8 after := by
          rw [← List.cons_append, ← hbytes, ← utf8_cons, ← hafter, utf8_append, List.drop_left]
        rw [hdrop, any_isIdentByte_head?, ← hafter, List.drop_left]
        simp
      · rfl

theorem searchBytes_utf8 (ident text : List Char) :
    searchBytes (utf8 ident) (utf8 text) = search ident text := by
  cases ident with
  | nil => rfl
  | cons c more =>
      obtain ⟨first, bytes, hbytes, -⟩ := exists_utf8EncodeChar c
      have hne : utf8 (c :: more) ≠ [] := by
        rw [utf8_cons, hbytes]
        simp
      rw [searchBytes, if_neg (by simpa using hne), search_of_ne_nil (by simp)]
      exact searchBytesFrom_utf8 (by simp) text rfl

end Text

theorem Helper.exists_first {helper : Helper} (hhelper : helper ∈ table) :
    ∃ first ∈ helper.name.toList.head?, first.toNat < 0x80 := by
  have hnames : table.all (·.name.toList.head?.any (·.toNat < 0x80)) = true := by decide +kernel
  have hname := List.all_eq_true.mp hnames helper hhelper
  obtain ⟨first, hfirst, hascii⟩ := (Option.any_eq_true ..).mp hname
  exact ⟨first, hfirst, of_decide_eq_true hascii⟩

namespace Text

/-- A search answers by the occurrences of the identifier, and by bytes as by characters. No search
for a helper goes off the boundaries of characters. -/
theorem search_answers (ident text : List Char) :
    Searched ident text (search ident text) ∧
      searchBytes (utf8 ident) (utf8 text) = search ident text ∧
      ∀ helper ∈ Helper.table, search helper.name.toList text ≠ .offBoundary := by
  refine ⟨searched_search ident text, searchBytes_utf8 ident text, fun helper hhelper => ?_⟩
  obtain ⟨first, hfirst, hascii⟩ := Helper.exists_first hhelper
  exact ((searched_search _ text).ascii first hfirst hascii).1

-- The second `ß` counts, but the search does not come to it.
example : search ['ß'] ['ß', 'x', ' ', 'ß'] = .offBoundary := by decide

end Text

end ShaderChain
