import UsageOrder.Proofs.ReadBack

/-!
# What is written on many lines is read back

A value without numbers, in which no object has a key twice, is read back from its text on many lines
(`parse_indented`).  Its strings may be any: a character that cannot stand for itself is escaped, as
one code of four digits or as a pair of them, and read as that character (`readString_escapeChar`).
-/

namespace UsageOrder
namespace Json

/-! ### Escapes -/

theorem hexValue?_digitChar {digit : Nat} (h : digit < 16) :
    hexValue? digit.digitChar = some digit := by
  have hall : ∀ digit < 16, hexValue? (Nat.digitChar digit) = some digit := by decide
  exact hall digit h

/-- A number below the fourth power of sixteen has four digits. -/
theorem hex_four {n : Nat} (h : n < 0x10000) : Text.hex 4 n = [Nat.digitChar (n / 4096),
    Nat.digitChar (n / 256 % 16), Nat.digitChar (n / 16 % 16), Nat.digitChar (n % 16)] := by
  have hdigits : ∀ m, 16 ≤ m → Nat.toDigits 16 m = Nat.toDigits 16 (m / 16) ++ [(m % 16).digitChar] :=
    fun m hm => Nat.toDigits_of_base_le (by decide) hm
  have hthird : n / 16 / 16 = n / 256 := Nat.div_div_eq_div_mul ..
  have hfourth : n / 16 / 16 / 16 = n / 4096 := by omega
  rcases Nat.lt_or_ge n 16 with h₁ | h₁
  · rw [Text.hex, Nat.toDigits_of_lt_base h₁, Nat.div_eq_of_lt (by omega : n < 4096),
      Nat.div_eq_of_lt (by omega : n < 256), Nat.div_eq_of_lt h₁, Nat.mod_eq_of_lt h₁]
    rfl
  rcases Nat.lt_or_ge n 256 with h₂ | h₂
  · rw [Text.hex, hdigits n h₁, Nat.toDigits_of_lt_base (by omega : n / 16 < 16),
      Nat.div_eq_of_lt (by omega : n < 4096), Nat.div_eq_of_lt h₂,
      Nat.mod_eq_of_lt (by omega : n / 16 < 16)]
    rfl
  rcases Nat.lt_or_ge n 4096 with h₃ | h₃
  · rw [Text.hex, hdigits n h₁, hdigits (n / 16) (by omega),
      Nat.toDigits_of_lt_base (by omega : n / 16 / 16 < 16), hthird, Nat.div_eq_of_lt h₃, Nat.mod_eq_of_lt (by omega : n / 256 < 16)]
    rfl
  · rw [Text.hex, hdigits n h₁, hdigits (n / 16) (by omega), hdigits (n / 16 / 16) (by omega),
      Nat.toDigits_of_lt_base (by omega : n / 16 / 16 / 16 < 16), hfourth, hthird]
    rfl

/-- Four digits are read as their number. -/
theorem hexCode?_hex {n : Nat} (h : n < 0x10000) (rest : Text) :
    hexCode? (Text.hex 4 n ++ rest) = some n := by
  have hdigits : (Text.hex 4 n ++ rest).take 4 = Text.hex 4 n := by
    rw [hex_four h]
    rfl
  rw [hexCode?, hdigits, hex_four h]
  simp only [List.mapM_cons, List.mapM_nil, hexValue?_digitChar (by omega : n / 4096 < 16),
    hexValue?_digitChar (by omega : n / 256 % 16 < 16),
    hexValue?_digitChar (by omega : n / 16 % 16 < 16), hexValue?_digitChar (by omega : n % 16 < 16),
    Option.bind_eq_bind, Option.bind_some, Option.pure_def, Option.some.injEq]
  omega

theorem drop_hex {n : Nat} (h : n < 0x10000) (rest : Text) :
    (Text.hex 4 n ++ rest).drop 4 = rest := by
  rw [hex_four h]
  rfl

theorem codeEscape_hex {n : Nat} (h : n < 0x10000) (hlow : n < 0xD800 ∨ 0xDFFF < n) {rest : Text}
    (hrest : rest ≠ []) : codeEscape (Text.hex 4 n ++ rest) = .ok (Char.ofNat n, rest) := by
  rw [codeEscape, drop_hex h, hexCode?_hex h, if_neg (by simpa using hrest)]
  dsimp only
  rw [if_neg (by omega), if_neg (by omega)]

theorem escapeUnit_append (n : Nat) (rest : Text) :
    escapeUnit n ++ rest = '\\' :: 'u' :: (Text.hex 4 n ++ rest) := rfl

/-- A pair of codes is read as one character. -/
theorem codeEscape_pair {high low : Nat} (hhigh : high < 1024) (hlow : low < 1024) {rest : Text}
    (hrest : rest ≠ []) :
    codeEscape (Text.hex 4 (0xD800 + high) ++ (escapeUnit (0xDC00 + low) ++ rest)) =
      .ok (Char.ofNat (0x10000 + high * 1024 + low), rest) := by
  have hlowHalf : lowHalf (escapeUnit (0xDC00 + low) ++ rest) = .ok (some (0xDC00 + low)) := by
    rw [escapeUnit_append, lowHalf, drop_hex (by omega), hexCode?_hex (by omega), if_neg (by simpa using hrest)]
    dsimp only
    rw [if_pos (by omega)]
  have hdrop : (escapeUnit (0xDC00 + low) ++ rest).drop 6 = rest := drop_hex (by omega) rest
  rw [codeEscape, drop_hex (by omega), hexCode?_hex (by omega), if_neg (by simp [escapeUnit])]
  dsimp only
  rw [if_pos (by omega), hlowHalf]
  simp only [bind, Except.bind, hdrop, Nat.add_sub_cancel_left]

/-- A code of its own is that of the character. -/
theorem readString_code (opening : Text) (fuel : Nat) (done : Text) {text rest : Text} {c : Char}
    (h : codeEscape text = .ok (c, rest)) :
    readString opening (fuel + 1) done ('\\' :: 'u' :: text) =
      readString opening fuel (c :: done) rest := by
  rw [readString, h]
  rfl

theorem readString_short (opening : Text) (fuel : Nat) (done rest : Text) {mark c : Char}
    (hmark : mark ≠ 'u') (h : shortEscape? mark = some c) :
    readString opening (fuel + 1) done ('\\' :: mark :: rest) =
      readString opening fuel (c :: done) rest := by
  rw [readString, h]
  exact hmark

/-- **A character of a string is read back from its escape,** if the string goes on behind it. -/
theorem readString_escapeChar (opening : Text) (fuel : Nat) (done : Text) (c : Char) {rest : Text}
    (hrest : rest ≠ []) :
    readString opening (fuel + 1) done (escapeChar c ++ rest) =
      readString opening fuel (c :: done) rest := by
  have hchar : ∀ {n}, c.toNat = n → c = Char.ofNat n := by
    rintro n rfl
    exact (Char.ofNat_toNat c).symm
  rw [escapeChar]
  split_ifs with hquote hline hreturn htab hback hfeed hplain hunit
  · rcases hquote with rfl | rfl <;> exact readString_short _ _ _ _ (by decide) rfl
  · exact readString_short _ _ _ _ (by decide) (by rw [hline]; rfl)
  · exact readString_short _ _ _ _ (by decide) (by rw [hreturn]; rfl)
  · exact readString_short _ _ _ _ (by decide) (by rw [htab]; rfl)
  · exact readString_short _ _ _ _ (by decide) (by rw [hchar hback]; rfl)
  · exact readString_short _ _ _ _ (by decide) (by rw [hchar hfeed]; rfl)
  · rw [not_or] at hquote
    rw [List.singleton_append, readString, if_neg (by omega)]
    all_goals simp [hquote.1, hquote.2]
  · rw [escapeUnit_append]
    refine readString_code _ _ _ ?_
    have hvalid : c.toNat < 0xD800 ∨ 0xDFFF < c.toNat ∧ c.toNat < 0x110000 := c.valid
    rw [codeEscape_hex hunit (by omega) hrest, Char.ofNat_toNat]
  · rw [List.append_assoc, escapeUnit_append]
    refine readString_code _ _ _ ?_
    have hvalid : c.toNat < 0xD800 ∨ 0xDFFF < c.toNat ∧ c.toNat < 0x110000 := c.valid
    have hhigh : (c.toNat - 0x10000) / 1024 < 1024 := by omega
    have hlow : (c.toNat - 0x10000) % 1024 < 1024 := Nat.mod_lt _ (by decide)
    have hwhole : 0x10000 + (c.toNat - 0x10000) / 1024 * 1024 + (c.toNat - 0x10000) % 1024 =
        c.toNat := by omega
    rw [codeEscape_pair hhigh hlow hrest, hwhole, Char.ofNat_toNat]

/-- **A string is read back up to its closing quote.** -/
theorem readString_escaped (opening : Text) {text rest done : Text} {fuel : Nat}
    (hfuel : (text.flatMap escapeChar).length < fuel) :
    readString opening fuel done (text.flatMap escapeChar ++ '"' :: rest) =
      .ok (done.reverse ++ text, rest) := by
  induction text generalizing fuel done with
  | nil =>
    obtain ⟨fuel, rfl⟩ := Nat.exists_eq_succ_of_ne_zero (Nat.ne_of_gt hfuel)
    simp [readString]
  | cons c text ih =>
    obtain ⟨fuel, rfl⟩ := Nat.exists_eq_succ_of_ne_zero (Nat.ne_of_gt (Nat.zero_lt_of_lt hfuel))
    have hsome : 0 < (escapeChar c).length := by
      refine List.length_pos_of_ne_nil ?_
      rw [escapeChar]
      split_ifs <;> exact List.cons_ne_nil _ _
    rw [List.flatMap_cons, List.length_append] at hfuel
    rw [List.flatMap_cons, List.append_assoc, readString_escapeChar _ _ _ _ (by simp),
      ih (by omega)]
    simp

/-! ### Values on many lines -/

/-- A value without numbers, in which no object has a key twice. -/
inductive Worded : Json → Prop
  | null : Worded .null
  | bool (b : Bool) : Worded (.bool b)
  | str (s : String) : Worded (.str s)
  | arr {items : List Json} (worded : ∀ item ∈ items, Worded item) : Worded (.arr items)
  | obj {members : List (String × Json)} (keys : (members.map Prod.fst).Nodup)
      (worded : ∀ member ∈ members, Worded member.2) : Worded (.obj members)

/-- Texts on lines of their own at a level. -/
def stacked (level : Nat) (texts : List String) : Text :=
  (',' :: (newLine level).toList).intercalate (texts.map String.toList)

theorem stacked_cons_cons (level : Nat) (first second : String) (texts : List String) :
    stacked level (first :: second :: texts) =
      first.toList ++ ',' :: ((newLine level).toList ++ stacked level (second :: texts)) := by
  simp [stacked, List.intercalate_cons_cons]

theorem stacked_singleton (level : Nat) (text : String) : stacked level [text] = text.toList := by
  simp [stacked]

theorem indentedItems_eq_map (items : List Json) (level : Nat) :
    indentedItems items level = items.map fun item => indentedAt item level := by
  induction items with
  | nil => rfl
  | cons item items ih => rw [indentedItems, ih, List.map_cons]

theorem indentedMembers_eq_map (members : List (String × Json)) (level : Nat) :
    indentedMembers members level = members.map fun member => indentedMember member level := by
  induction members with
  | nil => rfl
  | cons member members ih => rw [indentedMembers, ih, List.map_cons]

theorem toList_block {pieces : List String} (h : pieces ≠ []) (opening closing : String)
    (level : Nat) : (block opening closing level pieces).toList = opening.toList ++
      ((newLine (level + 1)).toList ++ (stacked (level + 1) pieces ++
        ((newLine level).toList ++ closing.toList))) := by
  rw [block, if_neg (by simpa using h)]
  simp [String.toList_intercalate, stacked]

theorem toList_indentedMember (key : String) (value : Json) (level : Nat) :
    (indentedMember (key, value) level).toList =
      '"' :: (key.toList.flatMap escapeChar ++ '"' :: ':' :: ' ' ::
        (indentedAt value level).toList) := by
  rw [indentedMember, escaped]
  simp

/-- What is in front of a value, a bracket or a brace on a line of its own is skipped. -/
theorem skipSpace_newLine (level : Nat) {c : Char} (h : isSpace c = false) (rest : Text) :
    skipSpace ((newLine level).toList ++ c :: rest) = c :: rest := by
  have hspace : ∀ d ∈ (newLine level).toList, isSpace d = true := by
    intro d hd
    rw [newLine, String.toList_ofList] at hd
    rcases List.mem_cons.1 hd with rfl | hd
    · rfl
    · obtain rfl := List.eq_of_mem_replicate hd
      rfl
  rw [skipSpace, List.dropWhile_append_of_pos hspace, List.dropWhile_cons_of_neg (by simp [h])]

theorem starts_block {pieces : List String} {opening : Char} (closing : String) (level : Nat)
    (h : isSpace opening = false ∧ opening ≠ ']' ∧ opening ≠ '\x7d' ∧ opening ≠ '\uFEFF') :
    Starts (block (String.ofList [opening]) closing level pieces).toList := by
  obtain ⟨more, hmore⟩ : ∃ more,
      (block (String.ofList [opening]) closing level pieces).toList = opening :: more := by
    rw [block]
    split_ifs <;> simp
  exact ⟨opening, more, hmore, h⟩

theorem starts_indentedAt {value : Json} (h : Worded value) (level : Nat) :
    Starts (indentedAt value level).toList := by
  cases h with
  | null =>
    rw [indentedAt]
    exact ⟨'n', ['u', 'l', 'l'], rfl, by decide, by decide, by decide, by decide⟩
  | bool b =>
    rw [indentedAt]
    cases b <;> exact ⟨_, _, rfl, by decide, by decide, by decide, by decide⟩
  | str s =>
    rw [indentedAt, escaped, String.toList_ofList]
    exact ⟨'"', _, rfl, by decide, by decide, by decide, by decide⟩
  | arr worded => exact starts_block _ _ (by decide)
  | obj keys worded => exact starts_block _ _ (by decide)

theorem starts_stacked {first : String} (h : Starts first.toList) (level : Nat)
    (texts : List String) : Starts (stacked level (first :: texts)) := by
  cases texts with
  | nil => rwa [stacked_singleton]
  | cons second texts =>
    rw [stacked_cons_cons]
    exact h.append _

theorem starts_indentedItems {first : Json} (h : Worded first) (items : List Json) (level : Nat) :
    Starts (stacked level (indentedItems (first :: items) level)) :=
  starts_stacked (starts_indentedAt h level) level _

theorem starts_indentedMembers (first : String × Json) (members : List (String × Json))
    (level : Nat) : Starts (stacked level (indentedMembers (first :: members) level)) := by
  obtain ⟨key, value⟩ := first
  refine starts_stacked ?_ level _
  rw [toList_indentedMember]
  exact ⟨'"', _, rfl, by decide, by decide, by decide, by decide⟩

/-- The line end in front of a value is skipped. -/
theorem Starts.skipSpace_eq {text : Text} (h : Starts text) (level : Nat) (rest : Text) :
    skipSpace ((newLine level).toList ++ (text ++ rest)) = text ++ rest := by
  obtain ⟨c, more, rfl, hspace, -⟩ := h
  exact skipSpace_newLine level hspace (more ++ rest)

/-! ### Reading back -/

/-- With less fuel than a limit every value without numbers is read back from its text. -/
def ReadsStacked (limit : Nat) : Prop :=
  ∀ fuel < limit, ∀ (value : Json) (level : Nat) (rest : Text), Worded value →
    2 * (indentedAt value level).toList.length ≤ fuel →
      readValue fuel ((indentedAt value level).toList ++ rest) = .ok (value, rest)

theorem ReadsStacked.mono {limit less : Nat} (h : ReadsStacked limit) (hle : less ≤ limit) :
    ReadsStacked less :=
  fun fuel hfuel => h fuel (Nat.lt_of_lt_of_le hfuel hle)

/-- The items of a list are read back if each of them is. -/
theorem readItems_stacked {limit : Nat} (hread : ReadsStacked limit) {first : Json}
    {items done : List Json} {level outer : Nat} {rest : Text}
    (h : ∀ item ∈ first :: items, Worded item)
    (hfuel : 2 * (stacked level (indentedItems (first :: items) level)).length < limit) :
    readItems limit done (stacked level (indentedItems (first :: items) level) ++
        ((newLine outer).toList ++ ']' :: rest)) =
      .ok (items.reverse ++ first :: done, rest) := by
  induction items generalizing first limit done with
  | nil =>
    obtain ⟨fuel, rfl⟩ : ∃ left, limit = left + 1 :=
      Nat.exists_eq_succ_of_ne_zero (Nat.ne_of_gt (Nat.zero_lt_of_lt hfuel))
    rw [indentedItems, indentedItems, stacked_singleton] at hfuel ⊢
    rw [readItems, hread fuel (Nat.lt_succ_self _) first level _ (h first (List.mem_cons_self ..))
      (by omega)]
    simp only [bind, Except.bind, skipSpace_newLine outer (by decide : isSpace ']' = false)]
    rfl
  | cons second items ih =>
    obtain ⟨fuel, rfl⟩ : ∃ left, limit = left + 1 :=
      Nat.exists_eq_succ_of_ne_zero (Nat.ne_of_gt (Nat.zero_lt_of_lt hfuel))
    obtain ⟨hfirst, hitems⟩ := List.forall_mem_cons.1 h
    rw [indentedItems, indentedItems, stacked_cons_cons] at hfuel ⊢
    rw [← indentedItems] at hfuel ⊢
    simp only [List.length_cons, List.length_append] at hfuel
    have hstarts := starts_indentedItems (hitems second (List.mem_cons_self ..)) items level
    rw [List.append_assoc, List.cons_append, List.append_assoc, readItems,
      hread fuel (Nat.lt_succ_self _) first level _ hfirst (by omega)]
    change readItems fuel (first :: done) (skipSpace _) = _
    rw [hstarts.skipSpace_eq, ih (hread.mono (Nat.le_succ _)) hitems (by omega)]
    simp

/-- What stands behind the key of a member, which may be any text. -/
theorem readMembers_escaped {key : String} {fuel : Nat} {text : Text}
    (hfuel : (key.toList.flatMap escapeChar).length < fuel) (htext : Starts text)
    (done : List (String × Json)) :
    readMembers (fuel + 1) done
        ('"' :: (key.toList.flatMap escapeChar ++ '"' :: ':' :: ' ' :: text)) =
      readValue fuel text >>= fun read =>
        match skipSpace read.2 with
        | '\x7d' :: rest => .ok ((key, read.1) :: done, rest)
        | ',' :: rest => readMembers fuel ((key, read.1) :: done) (skipSpace rest)
        | rest => stop .expectingComma rest := by
  have hskip : skipSpace (' ' :: text) = text := by
    rw [← List.append_nil text]
    exact skipSpace_starts htext []
  rw [readMembers, readString_escaped _ hfuel]
  conv_rhs => rw [← hskip]
  simp only [bind, Except.bind, List.reverse_nil, List.nil_append, String.ofList_toList]
  rfl

/-- The members of an object are read back if each of their values is. -/
theorem readMembers_stacked {limit : Nat} (hread : ReadsStacked limit) {first : String × Json}
    {members done : List (String × Json)} {level outer : Nat} {rest : Text}
    (h : ∀ member ∈ first :: members, Worded member.2)
    (hfuel : 2 * (stacked level (indentedMembers (first :: members) level)).length < limit) :
    readMembers limit done (stacked level (indentedMembers (first :: members) level) ++
        ((newLine outer).toList ++ '\x7d' :: rest)) =
      .ok (members.reverse ++ first :: done, rest) := by
  induction members generalizing first limit done with
  | nil =>
    obtain ⟨fuel, rfl⟩ : ∃ left, limit = left + 1 :=
      Nat.exists_eq_succ_of_ne_zero (Nat.ne_of_gt (Nat.zero_lt_of_lt hfuel))
    obtain ⟨key, value⟩ := first
    have hvalue : Worded value := h (key, value) (List.mem_cons_self ..)
    rw [indentedMembers, indentedMembers, stacked_singleton, toList_indentedMember] at hfuel ⊢
    simp only [List.length_cons, List.length_append] at hfuel
    simp only [List.cons_append, List.append_assoc]
    rw [readMembers_escaped (by omega) ((starts_indentedAt hvalue level).append _),
      hread fuel (Nat.lt_succ_self _) value level _ hvalue (by omega)]
    simp only [bind, Except.bind, skipSpace_newLine outer (by decide : isSpace '\x7d' = false)]
    rfl
  | cons second members ih =>
    obtain ⟨fuel, rfl⟩ : ∃ left, limit = left + 1 :=
      Nat.exists_eq_succ_of_ne_zero (Nat.ne_of_gt (Nat.zero_lt_of_lt hfuel))
    obtain ⟨key, value⟩ := first
    obtain ⟨hvalue, hmembers⟩ := List.forall_mem_cons.1 h
    have hstarts := starts_indentedMembers second members level
    have hnext : stacked level (indentedMembers ((key, value) :: second :: members) level) =
        (indentedMember (key, value) level).toList ++ ',' :: ((newLine level).toList ++
          stacked level (indentedMembers (second :: members) level)) := stacked_cons_cons ..
    rw [hnext, toList_indentedMember] at hfuel ⊢
    simp only [List.length_cons, List.length_append] at hfuel
    simp only [List.cons_append, List.append_assoc]
    rw [readMembers_escaped (by omega) ((starts_indentedAt hvalue level).append _),
      hread fuel (Nat.lt_succ_self _) value level _ hvalue (by omega)]
    change readMembers fuel ((key, value) :: done) (skipSpace _) = _
    rw [hstarts.skipSpace_eq, ih (hread.mono (Nat.le_succ _)) hmembers (by omega)]
    simp

theorem readValue_list_newLine {text : Text} (h : Starts text) (fuel level : Nat) :
    readValue (fuel + 1) ('[' :: ((newLine level).toList ++ text)) =
      readItems fuel [] text >>= fun read => .ok (.arr read.1.reverse, read.2) := by
  have hskip := h.skipSpace_eq level []
  obtain ⟨c, more, rfl, -, hbracket, -⟩ := h
  rw [List.append_nil] at hskip
  rw [readValue, hskip]
  split
  · rename_i heq
    exact absurd (List.cons.inj heq).1 hbracket
  · rfl

theorem readValue_object_newLine {text : Text} (h : Starts text) (fuel level : Nat) :
    readValue (fuel + 1) ('\x7b' :: ((newLine level).toList ++ text)) =
      readMembers fuel [] text >>= fun read =>
        .ok (.obj (mergeMembers read.1.reverse), read.2) := by
  have hskip := h.skipSpace_eq level []
  obtain ⟨c, more, rfl, -, -, hbrace, -⟩ := h
  rw [List.append_nil] at hskip
  rw [readValue, hskip]
  split
  · rename_i heq
    exact absurd (List.cons.inj heq).1 hbrace
  · rfl

theorem toList_block_nil (opening closing : String) (level : Nat) :
    (block opening closing level []).toList = opening.toList ++ closing.toList := by
  rw [block, List.isEmpty_nil, if_pos rfl, String.toList_append]

/-- A list is read back if each of its items is. -/
theorem readValue_arr_stacked {fuel : Nat} (hread : ReadsStacked fuel) {items : List Json}
    (h : ∀ item ∈ items, Worded item) {level : Nat} {rest : Text}
    (hfuel : 2 * (indentedAt (.arr items) level).toList.length ≤ fuel + 1) :
    readValue (fuel + 1) ((indentedAt (.arr items) level).toList ++ rest) =
      .ok (.arr items, rest) := by
  cases items with
  | nil =>
    rw [indentedAt, indentedItems, toList_block_nil]
    rfl
  | cons first items =>
    have hpieces : indentedItems (first :: items) (level + 1) ≠ [] := List.cons_ne_nil _ _
    have hopening : "[".toList = ['['] := rfl
    have hclosing : "]".toList = [']'] := rfl
    have hstarts := starts_indentedItems (h first (List.mem_cons_self ..)) items (level + 1)
    rw [indentedAt, toList_block hpieces, hopening, hclosing] at hfuel ⊢
    simp only [List.length_cons, List.length_append, List.length_nil] at hfuel
    simp only [List.append_assoc, List.cons_append, List.nil_append]
    rw [readValue_list_newLine (hstarts.append _), readItems_stacked hread h (by omega)]
    simp [bind, Except.bind]

/-- An object is read back if the value of each of its members is. -/
theorem readValue_obj_stacked {fuel : Nat} (hread : ReadsStacked fuel)
    {members : List (String × Json)} (hkeys : (members.map Prod.fst).Nodup)
    (h : ∀ member ∈ members, Worded member.2) {level : Nat} {rest : Text}
    (hfuel : 2 * (indentedAt (.obj members) level).toList.length ≤ fuel + 1) :
    readValue (fuel + 1) ((indentedAt (.obj members) level).toList ++ rest) =
      .ok (.obj members, rest) := by
  cases members with
  | nil =>
    rw [indentedAt, indentedMembers, toList_block_nil]
    rfl
  | cons first members =>
    have hpieces : indentedMembers (first :: members) (level + 1) ≠ [] := List.cons_ne_nil _ _
    have hopening : "\x7b".toList = ['\x7b'] := rfl
    have hclosing : "\x7d".toList = ['\x7d'] := rfl
    have hstarts := starts_indentedMembers first members (level + 1)
    rw [indentedAt, toList_block hpieces, hopening, hclosing] at hfuel ⊢
    simp only [List.length_cons, List.length_append, List.length_nil] at hfuel
    simp only [List.append_assoc, List.cons_append, List.nil_append]
    rw [readValue_object_newLine (hstarts.append _), readMembers_stacked hread h (by omega)]
    simp [bind, Except.bind, mergeMembers_eq_self hkeys]

/-- **A value without numbers is read back from its text.** -/
theorem readsStacked (limit : Nat) : ReadsStacked limit := by
  induction limit with
  | zero => exact fun fuel hfuel => absurd hfuel (Nat.not_lt_zero fuel)
  | succ limit ih =>
    intro fuel hlimit value level rest h hfuel
    obtain ⟨c, more, hstart, -⟩ := starts_indentedAt h level
    obtain ⟨fuel, rfl⟩ : ∃ left, fuel = left + 1 :=
      Nat.exists_eq_succ_of_ne_zero (by rw [hstart, List.length_cons] at hfuel; omega)
    have hless : ReadsStacked fuel := ih.mono (by omega)
    cases h with
    | null =>
      rw [indentedAt]
      rfl
    | bool b =>
      rw [indentedAt]
      cases b <;> rfl
    | str s =>
      rw [indentedAt, escaped, String.toList_ofList] at hfuel ⊢
      simp only [List.length_cons, List.length_append, List.cons_append] at hfuel
      rw [List.cons_append, List.cons_append, List.append_assoc, List.singleton_append, readValue,
        readString_escaped _ (by omega)]
      simp [bind, Except.bind]
    | arr worded => exact readValue_arr_stacked hless worded hfuel
    | obj keys worded => exact readValue_obj_stacked hless keys worded hfuel

/-- **The text of a value without numbers on many lines holds that value.** -/
theorem parse_indented {value : Json} (h : Worded value) :
    parse (indented value).toList = .ok value := by
  have hread := readsStacked _ _ (Nat.lt_succ_self _) value 0 [] h (Nat.le_add_right _ 2)
  have hskip := skipSpace_starts (starts_indentedAt h 0) []
  obtain ⟨c, more, heq, -, -, -, hmark⟩ := starts_indentedAt h 0
  rw [List.append_nil] at hread hskip
  have hall : readAll (indented value).toList = .ok value := by
    rw [indented]
    rw [heq] at hread hskip ⊢
    unfold readAll
    split
    · rename_i hmatch
      exact absurd (List.cons.inj hmatch).1 hmark
    · rw [hskip, hread]
      rfl
  rw [parse, hall]

/-! ### Line ends -/

/-- The escape of a character has no control characters. -/
theorem le_toNat_escapeChar {c d : Char} (h : d ∈ escapeChar c) : 32 ≤ d.toNat := by
  have hdigit : ∀ {n}, n < 16 → 32 ≤ (Nat.digitChar n).toNat := by decide
  have hunit : ∀ {n}, n < 0x10000 → d ∈ escapeUnit n → 32 ≤ d.toNat := by
    intro n hn hmem
    rw [escapeUnit, hex_four hn] at hmem
    simp only [List.mem_cons, List.not_mem_nil, or_false] at hmem
    rcases hmem with rfl | rfl | rfl | rfl | rfl | rfl
    · decide
    · decide
    · exact hdigit (by omega)
    · exact hdigit (by omega)
    · exact hdigit (by omega)
    · exact hdigit (by omega)
  have hvalid : c.toNat < 0xD800 ∨ 0xDFFF < c.toNat ∧ c.toNat < 0x110000 := c.valid
  have hshort : ∀ {mark : Char}, 32 ≤ mark.toNat → d ∈ ['\\', mark] → 32 ≤ d.toNat := by
    intro mark hmark hmem
    simp only [List.mem_cons, List.not_mem_nil, or_false] at hmem
    rcases hmem with rfl | rfl
    · decide
    · exact hmark
  rw [escapeChar] at h
  split_ifs at h with hquote hline hreturn htab hback hfeed hplain hsingle
  · exact hshort (by rcases hquote with rfl | rfl <;> decide) h
  · exact hshort (by decide) h
  · exact hshort (by decide) h
  · exact hshort (by decide) h
  · exact hshort (by decide) h
  · exact hshort (by decide) h
  · exact List.mem_singleton.1 h ▸ hplain.1
  · exact hunit hsingle h
  · rcases List.mem_append.1 h with h | h
    · exact hunit (by omega) h
    · exact hunit (by omega) h

theorem le_toNat_escapes {text : Text} {c : Char} (h : c ∈ text.flatMap escapeChar) :
    32 ≤ c.toNat := by
  obtain ⟨d, -, hc⟩ := List.mem_flatMap.1 h
  exact le_toNat_escapeChar hc

theorem mem_newLine {level : Nat} {c : Char} (h : c ∈ (newLine level).toList) :
    c = '\n' ∨ 32 ≤ c.toNat := by
  rw [newLine, String.toList_ofList] at h
  rcases List.mem_cons.1 h with rfl | h
  · exact Or.inl rfl
  · obtain rfl := List.eq_of_mem_replicate h
    exact Or.inr (by decide)

theorem mem_stacked {level : Nat} {texts : List String} {c : Char} (h : c ∈ stacked level texts) :
    (c = '\n' ∨ 32 ≤ c.toNat) ∨ ∃ text ∈ texts, c ∈ text.toList := by
  induction texts with
  | nil => exact absurd h (by simp [stacked])
  | cons first texts ih =>
    cases texts with
    | nil =>
      rw [stacked_singleton] at h
      exact Or.inr ⟨first, List.mem_cons_self .., h⟩
    | cons second texts =>
      rw [stacked_cons_cons, List.mem_append, List.mem_cons, List.mem_append] at h
      rcases h with h | rfl | h | h
      · exact Or.inr ⟨first, List.mem_cons_self .., h⟩
      · exact Or.inl (Or.inr (by decide))
      · exact Or.inl (mem_newLine h)
      · exact (ih h).imp_right fun ⟨text, htext, h⟩ => ⟨text, List.mem_cons_of_mem _ htext, h⟩

theorem mem_block {opening closing : String} {level : Nat} {pieces : List String} {c : Char}
    (hopening : (opening.toList.all fun d => decide (32 ≤ d.toNat)) = true)
    (hclosing : (closing.toList.all fun d => decide (32 ≤ d.toNat)) = true)
    (h : c ∈ (block opening closing level pieces).toList) :
    (c = '\n' ∨ 32 ≤ c.toNat) ∨ ∃ piece ∈ pieces, c ∈ piece.toList := by
  have hopening : ∀ d ∈ opening.toList, 32 ≤ d.toNat := fun d hd =>
    of_decide_eq_true (List.all_eq_true.1 hopening d hd)
  have hclosing : ∀ d ∈ closing.toList, 32 ≤ d.toNat := fun d hd =>
    of_decide_eq_true (List.all_eq_true.1 hclosing d hd)
  by_cases hpieces : pieces = []
  · rw [block, if_pos (by simpa using hpieces), String.toList_append, List.mem_append] at h
    exact Or.inl (Or.inr (h.elim (hopening c) (hclosing c)))
  · rw [toList_block hpieces, List.mem_append, List.mem_append, List.mem_append,
      List.mem_append] at h
    rcases h with h | h | h | h | h
    · exact Or.inl (Or.inr (hopening c h))
    · exact Or.inl (mem_newLine h)
    · exact mem_stacked h
    · exact Or.inl (mem_newLine h)
    · exact Or.inl (Or.inr (hclosing c h))

/-- The text of a value without numbers on many lines has no control characters but line feeds. -/
theorem mem_indentedAt {value : Json} (h : Worded value) {level : Nat} {c : Char}
    (hc : c ∈ (indentedAt value level).toList) : c = '\n' ∨ 32 ≤ c.toNat := by
  induction h generalizing level with
  | null =>
    rw [indentedAt] at hc
    have hall : ("null".toList.all fun c => decide (32 ≤ c.toNat)) = true := by decide
    exact Or.inr (of_decide_eq_true (List.all_eq_true.1 hall c hc))
  | bool b =>
    rw [indentedAt] at hc
    have hall : ∀ b : Bool,
        ((if b then "true" else "false").toList.all fun c => decide (32 ≤ c.toNat)) = true := by
      decide
    exact Or.inr (of_decide_eq_true (List.all_eq_true.1 (hall b) c hc))
  | str s =>
    rw [indentedAt, escaped, String.toList_ofList, List.cons_append, List.mem_cons, List.mem_append,
      List.mem_singleton] at hc
    rcases hc with rfl | hc | rfl
    · exact Or.inr (by decide)
    · exact Or.inr (le_toNat_escapes hc)
    · exact Or.inr (by decide)
  | arr worded ih =>
    rw [indentedAt, indentedItems_eq_map] at hc
    rcases mem_block (by decide) (by decide) hc with hc | ⟨piece, hpiece, hc⟩
    · exact hc
    · obtain ⟨item, hitem, rfl⟩ := List.mem_map.1 hpiece
      exact ih item hitem hc
  | obj keys worded ih =>
    rw [indentedAt, indentedMembers_eq_map] at hc
    rcases mem_block (by decide) (by decide) hc with hc | ⟨piece, hpiece, hc⟩
    · exact hc
    · obtain ⟨⟨key, value⟩, hmember, rfl⟩ := List.mem_map.1 hpiece
      rw [toList_indentedMember, List.mem_cons, List.mem_append, List.mem_cons, List.mem_cons,
        List.mem_cons] at hc
      rcases hc with rfl | hc | rfl | rfl | rfl | hc
      · exact Or.inr (by decide)
      · exact Or.inr (le_toNat_escapes hc)
      · exact Or.inr (by decide)
      · exact Or.inr (by decide)
      · exact Or.inr (by decide)
      · exact ih (key, value) hmember hc

/-- Such a text has no line ends to be unified. -/
theorem unifyLineEnds_indented {value : Json} (h : Worded value) :
    Text.unifyLineEnds value.indented.toList = value.indented.toList :=
  Text.unifyLineEnds_eq_self fun hmem => absurd (mem_indentedAt h hmem) (by decide)

end Json
end UsageOrder
