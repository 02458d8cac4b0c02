import Mathlib.Data.List.Nodup
import UsageOrder.Json.Printer
import UsageOrder.Json.Reader

/-!
# What is written on one line is read back

A plain value holds no floating point number, no negative number and no character that has to be
escaped, and no object of it has a key twice.  Its text on one line is read as that value, whatever
follows behind it that could not continue a number (`readsBack`).

| part | lemma |
|---|---|
| a string | `readString_plain` |
| a number | `readNumber?_repr` |
| a list | `readItems_compact` |
| an object | `readMembers_compact` |
-/

namespace UsageOrder

/-! ### Numbers -/

namespace Text

theorem ofDigits_concat (values : List Nat) (value : Nat) :
    ofDigits (values ++ [value]) = 10 * ofDigits values + value := by
  rw [ofDigits, List.foldl_append]
  rfl

theorem digitValue?_digitChar {digit : Nat} (h : digit < 10) :
    digitValue? digit.digitChar = some digit := by
  have hall : ∀ digit < 10, digitValue? (Nat.digitChar digit) = some digit := by decide
  exact hall digit h

/-- The digits of a number stand for it. -/
theorem ofDigits_toDigits (n : Nat) :
    ofDigits ((Nat.toDigits 10 n).filterMap digitValue?) = n := by
  induction n using Nat.strongRecOn with
  | ind n ih =>
    rcases Nat.lt_or_ge n 10 with hlt | hge
    · rw [Nat.toDigits_of_lt_base hlt, List.filterMap_cons, digitValue?_digitChar hlt]
      simp [ofDigits]
    · rw [Nat.toDigits_of_base_le (by decide) hge, List.filterMap_append, List.filterMap_cons,
        digitValue?_digitChar (Nat.mod_lt n (by decide)), List.filterMap_nil, ofDigits_concat,
        ih (n / 10) (by omega)]
      omega

/-- The digits of a number other than zero do not start with zero. -/
theorem head?_toDigits_ne {n : Nat} (h : 0 < n) : (Nat.toDigits 10 n).head? ≠ some '0' := by
  induction n using Nat.strongRecOn with
  | ind n ih =>
    rcases Nat.lt_or_ge n 10 with hlt | hge
    · have hall : ∀ digit < 10, 0 < digit → some (Nat.digitChar digit) ≠ some '0' := by decide
      rw [Nat.toDigits_of_lt_base hlt]
      exact hall n hlt h
    · rw [Nat.toDigits_of_base_le (by decide) hge,
        List.head?_append_of_ne_nil _ Nat.toDigits_ne_nil]
      exact ih (n / 10) (by omega) (by omega)

end Text

namespace Json

/-- A text that cannot continue a number. -/
def Ends (rest : Text) : Prop :=
  ∀ c ∈ rest.head?, c.isDigit = false ∧ c ≠ '.' ∧ c ≠ 'e' ∧ c ≠ 'E'

theorem spanDigits_append {digits rest : Text} (h : ∀ c ∈ digits, c.isDigit = true)
    (hrest : Ends rest) : spanDigits (digits ++ rest) = (digits, rest) := by
  have htake : rest.takeWhile Char.isDigit = [] ∧ rest.dropWhile Char.isDigit = rest := by
    cases rest with
    | nil => exact ⟨rfl, rfl⟩
    | cons c rest =>
      have hc := (hrest c rfl).1
      simp [hc]
  rw [spanDigits, List.takeWhile_append_of_pos h, List.dropWhile_append_of_pos h, htake.1, htake.2,
    List.append_nil]

theorem spanFraction?_eq_none {rest : Text} (h : Ends rest) : spanFraction? rest = none := by
  cases rest with
  | nil => rfl
  | cons c rest =>
    have hc := (h c rfl).2.1
    unfold spanFraction?
    split
    · rename_i heq
      exact absurd (List.cons.inj heq).1 hc
    · rfl

theorem spanExponent?_eq_none {rest : Text} (h : Ends rest) : spanExponent? rest = none := by
  cases rest with
  | nil => rfl
  | cons c rest =>
    obtain ⟨-, -, he, hE⟩ := h c rfl
    simp [spanExponent?, he, hE]

/-- The digits of a number are read as that number. -/
theorem readNumber?_repr {n : Nat} (hlength : (Nat.toDigits 10 n).length ≤ Text.maxDigits)
    {rest : Text} (hrest : Ends rest) :
    readNumber? (Nat.toDigits 10 n ++ rest) = some (.ok (.int n), rest) := by
  have hdigits : ∀ c ∈ Nat.toDigits 10 n, c.isDigit = true :=
    fun c hc => Nat.isDigit_of_mem_toDigits (by decide) (by decide) hc
  have hvalue := Text.ofDigits_toDigits n
  obtain ⟨first, digits, heq⟩ := List.exists_cons_of_ne_nil (Nat.toDigits_ne_nil (n := n) (b := 10))
  -- The number has no sign.
  have hsign : first ≠ '-' := by
    rintro rfl
    exact absurd (hdigits '-' (by rw [heq]; exact List.mem_cons_self ..)) (by decide)
  rw [heq] at hvalue hlength ⊢
  rcases Nat.eq_zero_or_pos n with rfl | hpos
  · have hzero : Nat.toDigits 10 0 = ['0'] := rfl
    obtain ⟨hfirst, hnil⟩ := List.cons.inj (heq.symm.trans hzero)
    subst hfirst hnil
    have hlimit : Text.maxDigits ≠ 0 := by decide
    simp [readNumber?, spanFraction?_eq_none hrest, spanExponent?_eq_none hrest, hvalue, hlimit]
  · have hzero : first ≠ '0' := by
      rintro rfl
      exact Text.head?_toDigits_ne hpos (by rw [heq]; rfl)
    have hspan : spanDigits (first :: (digits ++ rest)) = (first :: digits, rest) := by
      rw [← List.cons_append, ← heq]
      exact spanDigits_append hdigits hrest
    have hlimit : ¬ Text.maxDigits < (first :: digits).length := Nat.not_lt.2 hlength
    rw [readNumber?]
    simp only [List.cons_append, hspan, spanFraction?_eq_none hrest, spanExponent?_eq_none hrest,
      List.isEmpty_cons, Bool.false_eq_true, if_false, Option.getD_none, List.append_nil, hvalue,
      List.isEmpty_nil, Bool.not_true, hlimit]
    · exact fun _ hcons => hsign (List.cons.inj hcons).1
    · exact fun _ hcons => hzero (List.cons.inj hcons).1

/-! ### Plain values -/

/-- A character that stands for itself in a string. -/
def plainChar (c : Char) : Bool := decide (32 ≤ c.toNat ∧ c.toNat < 127) && c != '"' && c != '\\'

/-- A text that is written as it is. -/
def plainText (s : String) : Bool := s.toList.all plainChar

mutual
/-- A value without floating point numbers, negative numbers and characters to be escaped. -/
def isPlain : Json → Bool
  | .null => true
  | .bool _ => true
  | .int n => decide (0 ≤ n ∧ (Nat.toDigits 10 n.toNat).length ≤ Text.maxDigits)
  | .real _ => false
  | .str s => plainText s
  | .arr items => plainItems items
  | .obj members => decide (members.map Prod.fst).Nodup && plainMembers members
termination_by structural value => value

/-- Values that all are plain. -/
def plainItems : List Json → Bool
  | [] => true
  | item :: items => isPlain item && plainItems items
termination_by structural items => items

/-- Members whose keys and values are plain. -/
def plainMembers : List (String × Json) → Bool
  | [] => true
  | member :: members => plainMember member && plainMembers members
termination_by structural members => members

/-- A member whose key and value are plain. -/
def plainMember : String × Json → Bool
  | (key, value) => plainText key && isPlain value
termination_by structural member => member
end

theorem escapeChar_plain {c : Char} (h : plainChar c = true) : escapeChar c = [c] := by
  simp only [plainChar, Bool.and_eq_true, decide_eq_true_eq, bne_iff_ne] at h
  obtain ⟨⟨⟨hlow, hhigh⟩, hquote⟩, hslash⟩ := h
  have hcontrol : ∀ d : Char, d.toNat < 32 → c ≠ d := by
    rintro d hd rfl
    omega
  rw [escapeChar]
  simp only [hquote, hslash, or_self, if_false, hcontrol '\n' (by decide),
    hcontrol '\r' (by decide), hcontrol '\t' (by decide)]
  rw [if_neg (by omega), if_neg (by omega), if_pos ⟨hlow, hhigh⟩]

theorem toList_escaped {s : String} (h : plainText s = true) :
    (escaped s).toList = '"' :: (s.toList ++ ['"']) := by
  have hflat : s.toList.flatMap escapeChar = s.toList := by
    rw [plainText, List.all_eq_true] at h
    have hmap : s.toList.flatMap escapeChar = s.toList.flatMap fun c => [c] :=
      List.flatMap_congr fun c hc => escapeChar_plain (h c hc)
    rw [hmap, List.flatMap_singleton']
  rw [escaped, hflat, String.toList_ofList]
  rfl

/-- A plain string is read up to its closing quote. -/
theorem readString_plain (opening : Text) {text rest done : Text} {fuel : Nat}
    (h : text.all plainChar = true) (hfuel : text.length < fuel) :
    readString opening fuel done (text ++ '"' :: rest) = .ok (done.reverse ++ text, rest) := by
  induction text generalizing fuel done with
  | nil =>
    obtain ⟨fuel, rfl⟩ := Nat.exists_eq_succ_of_ne_zero (Nat.ne_of_gt hfuel)
    simp [readString]
  | cons c text ih =>
    obtain ⟨fuel, rfl⟩ := Nat.exists_eq_succ_of_ne_zero (Nat.ne_of_gt (Nat.zero_lt_of_lt hfuel))
    rw [List.all_cons, Bool.and_eq_true] at h
    obtain ⟨hc, htext⟩ := h
    simp only [plainChar, Bool.and_eq_true, decide_eq_true_eq, bne_iff_ne] at hc
    obtain ⟨⟨⟨hlow, -⟩, hquote⟩, hslash⟩ := hc
    have hstep : readString opening (fuel + 1) done (c :: (text ++ '"' :: rest)) =
        readString opening fuel (c :: done) (text ++ '"' :: rest) := by
      rw [readString, if_neg (by omega)]
      all_goals simp [hquote, hslash]
    rw [List.cons_append, hstep, ih htext (by simpa using hfuel)]
    simp

/-! ### Texts on one line -/

/-- Texts with a comma and a blank between them. -/
def joined (texts : List String) : Text := [',', ' '].intercalate (texts.map String.toList)

theorem joined_cons_cons (first second : String) (texts : List String) :
    joined (first :: second :: texts) = first.toList ++ ',' :: ' ' :: joined (second :: texts) := by
  simp [joined, List.intercalate_cons_cons]

theorem joined_singleton (text : String) : joined [text] = text.toList := by
  simp [joined]

theorem toList_compact_arr (items : List Json) :
    (compact (.arr items)).toList = '[' :: (joined (compactItems items) ++ [']']) := by
  rw [compact, String.toList_append, String.toList_append, String.toList_intercalate]
  rfl

theorem toList_compact_obj (members : List (String × Json)) :
    (compact (.obj members)).toList = '\x7b' :: (joined (compactMembers members) ++ ['\x7d']) := by
  rw [compact, String.toList_append, String.toList_append, String.toList_intercalate]
  rfl

theorem toList_compact_int {n : Int} (h : 0 ≤ n) :
    (compact (.int n)).toList = Nat.toDigits 10 n.toNat := by
  obtain ⟨n, rfl⟩ := Int.eq_ofNat_of_zero_le h
  have hrepr : compact (.int n) = String.ofList (Nat.toDigits 10 n) := by
    rw [compact, Int.toString_eq_repr, ← Nat.repr_eq_ofList_toDigits]
    rfl
  rw [hrepr, String.toList_ofList]
  rfl

/-- A text that starts a value: neither space nor the end of a list or an object, and not with a
byte order mark. -/
def Starts (text : Text) : Prop :=
  ∃ c rest, text = c :: rest ∧ isSpace c = false ∧ c ≠ ']' ∧ c ≠ '\x7d' ∧ c ≠ '\uFEFF'

theorem starts_compact {value : Json} (h : value.isPlain = true) :
    Starts (compact value).toList := by
  cases value with
  | null => exact ⟨'n', ['u', 'l', 'l'], rfl, by decide, by decide, by decide, by decide⟩
  | bool b => cases b <;> exact ⟨_, _, rfl, by decide, by decide, by decide, by decide⟩
  | int n =>
    rw [isPlain, decide_eq_true_eq] at h
    rw [toList_compact_int h.1]
    obtain ⟨first, digits, heq⟩ :=
      List.exists_cons_of_ne_nil (Nat.toDigits_ne_nil (n := n.toNat) (b := 10))
    have hdigit : first.isDigit = true := Nat.isDigit_of_mem_toDigits (by decide) (by decide)
      (heq ▸ List.mem_cons_self .. : first ∈ Nat.toDigits 10 n.toNat)
    have hne : ∀ c : Char, c.isDigit = false → first ≠ c := by
      rintro c hc rfl
      exact Bool.false_ne_true (hc.symm.trans hdigit)
    refine ⟨first, digits, heq, ?_, hne _ (by decide), hne _ (by decide), hne _ (by decide)⟩
    simp [isSpace, hne ' ' (by decide), hne '\t' (by decide), hne '\n' (by decide),
      hne '\r' (by decide)]
  | real x => exact absurd h (by simp [isPlain])
  | str s =>
    rw [isPlain] at h
    rw [compact, toList_escaped h]
    exact ⟨'"', _, rfl, by decide, by decide, by decide, by decide⟩
  | arr items =>
    rw [toList_compact_arr]
    exact ⟨'[', _, rfl, by decide, by decide, by decide, by decide⟩
  | obj members =>
    rw [toList_compact_obj]
    exact ⟨'\x7b', _, rfl, by decide, by decide, by decide, by decide⟩

theorem skipSpace_starts {text : Text} (h : Starts text) (rest : Text) :
    skipSpace (text ++ rest) = text ++ rest := by
  obtain ⟨c, more, rfl, hspace, -⟩ := h
  exact List.dropWhile_cons_of_neg (by simp [hspace])

theorem Starts.append {text : Text} (h : Starts text) (rest : Text) : Starts (text ++ rest) := by
  obtain ⟨c, more, rfl, hc⟩ := h
  exact ⟨c, more ++ rest, rfl, hc⟩

theorem starts_joined {first : String} (h : Starts first.toList) (texts : List String) :
    Starts (joined (first :: texts)) := by
  cases texts with
  | nil => rwa [joined_singleton]
  | cons second texts =>
    rw [joined_cons_cons]
    exact h.append _

theorem starts_items {first : Json} {items : List Json} (h : plainItems (first :: items) = true) :
    Starts (joined (compactItems (first :: items))) :=
  starts_joined (starts_compact (Bool.and_eq_true_iff.1 h).1) _

theorem starts_members {first : String × Json} {members : List (String × Json)}
    (h : plainMembers (first :: members) = true) :
    Starts (joined (compactMembers (first :: members))) := by
  obtain ⟨key, value⟩ := first
  have hkey : plainText key = true := (Bool.and_eq_true_iff.1 (Bool.and_eq_true_iff.1 h).1).1
  refine starts_joined ?_ _
  rw [compactMember, String.toList_append, String.toList_append, toList_escaped hkey]
  exact ⟨'"', _, rfl, by decide, by decide, by decide, by decide⟩

theorem ends_cons {c : Char} (h : c.isDigit = false ∧ c ≠ '.' ∧ c ≠ 'e' ∧ c ≠ 'E') (rest : Text) :
    Ends (c :: rest) := by
  rintro d hd
  obtain rfl := Option.some.inj hd
  exact h

/-- A number is no word. -/
theorem readWord?_toDigits (n : Nat) (rest : Text) :
    readWord? (Nat.toDigits 10 n ++ rest) = none := by
  obtain ⟨first, digits, heq⟩ := List.exists_cons_of_ne_nil (Nat.toDigits_ne_nil (n := n) (b := 10))
  have hdigit : first.isDigit = true := Nat.isDigit_of_mem_toDigits (by decide) (by decide)
    (heq ▸ List.mem_cons_self .. : first ∈ Nat.toDigits 10 n)
  have hne : ∀ c : Char, c.isDigit = false → c ≠ first := by
    rintro c hc rfl
    exact Bool.false_ne_true (hc.symm.trans hdigit)
  rw [heq]
  simp [readWord?, words, hne 'n' (by decide), hne 't' (by decide),
    hne 'f' (by decide), hne 'N' (by decide), hne 'I' (by decide), hne '-' (by decide)]

theorem setMember_new {key : String} {members : List (String × Json)}
    (h : key ∉ members.map Prod.fst) (value : Json) :
    setMember key value members = members ++ [(key, value)] := by
  induction members with
  | nil => rfl
  | cons member members ih =>
    rw [List.map_cons, List.mem_cons, not_or] at h
    rw [setMember, if_neg (Ne.symm h.1), ih h.2]
    rfl

/-- Keys that are all different keep their places. -/
theorem mergeMembers_eq_self {members : List (String × Json)}
    (h : (members.map Prod.fst).Nodup) : mergeMembers members = members := by
  have hrun : ∀ done : List (String × Json), ((done ++ members).map Prod.fst).Nodup →
      members.foldl (fun members setting => setMember setting.1 setting.2 members) done =
        done ++ members := by
    clear h
    induction members with
    | nil => simp
    | cons member members ih =>
      intro done hnodup
      have hsplit : done ++ member :: members = (done ++ [member]) ++ members := by simp
      have hnew : member.1 ∉ done.map Prod.fst := by
        rw [List.map_append, List.map_cons] at hnodup
        exact fun hmem => List.disjoint_of_nodup_append hnodup hmem (List.mem_cons_self ..)
      rw [List.foldl_cons, setMember_new hnew, ih (done ++ [member]) (hsplit ▸ hnodup), hsplit]
  exact hrun [] h

/-! ### Lists and objects -/

theorem readValue_list {text : Text} (h : Starts text) (fuel : Nat) :
    readValue (fuel + 1) ('[' :: text) =
      readItems fuel [] text >>= fun read => .ok (.arr read.1.reverse, read.2) := by
  have hskip := skipSpace_starts h []
  obtain ⟨c, more, rfl, -, hbracket, -⟩ := h
  rw [List.append_nil] at hskip
  rw [readValue, hskip]
  split
  · rename_i heq
    exact absurd (List.cons.inj heq).1 hbracket
  · rfl

theorem readValue_object {text : Text} (h : Starts text) (fuel : Nat) :
    readValue (fuel + 1) ('\x7b' :: text) =
      readMembers fuel [] text >>= fun read =>
        .ok (.obj (mergeMembers read.1.reverse), read.2) := by
  have hskip := skipSpace_starts h []
  obtain ⟨c, more, rfl, -, -, hbrace, -⟩ := h
  rw [List.append_nil] at hskip
  rw [readValue, hskip]
  split
  · rename_i heq
    exact absurd (List.cons.inj heq).1 hbrace
  · rfl

variable {fuel : Nat} {text rest : Text} {value : Json}

theorem readItems_last (h : readValue fuel text = .ok (value, ']' :: rest)) (done : List Json) :
    readItems (fuel + 1) done text = .ok (value :: done, rest) := by
  rw [readItems, h]
  rfl

theorem readItems_next (h : readValue fuel text = .ok (value, ',' :: ' ' :: rest))
    (hrest : Starts rest) (done : List Json) :
    readItems (fuel + 1) done text = readItems fuel (value :: done) rest := by
  have hskip : skipSpace (' ' :: rest) = rest := by
    rw [← List.append_nil rest]
    exact skipSpace_starts hrest []
  rw [readItems, h]
  change readItems fuel (value :: done) (skipSpace (' ' :: rest)) = _
  rw [hskip]

/-- What stands behind the key of a member. -/
theorem readMembers_key {key : String} (h : plainText key = true) (hfuel : key.toList.length < fuel)
    (htext : Starts text) (done : List (String × Json)) :
    readMembers (fuel + 1) done ((escaped key).toList ++ ':' :: ' ' :: text) =
      readValue fuel text >>= fun read =>
        match skipSpace read.2 with
        | '\x7d' :: rest => .ok ((key, read.1) :: done, rest)
        | ',' :: rest => readMembers fuel ((key, read.1) :: done) (skipSpace rest)
        | rest => stop .expectingComma rest := by
  have hskip : skipSpace (' ' :: text) = text := by
    rw [← List.append_nil text]
    exact skipSpace_starts htext []
  -- The characters of the key are what is read.
  obtain ⟨chars, rfl⟩ : ∃ chars, key = String.ofList chars :=
    ⟨key.toList, String.ofList_toList.symm⟩
  rw [toList_escaped h, List.cons_append, List.append_assoc, List.singleton_append, readMembers,
    readString_plain _ h hfuel, String.toList_ofList]
  conv_rhs => rw [← hskip]
  rfl

/-- With less fuel than a limit every plain value is read back from its text. -/
def ReadsBack (limit : Nat) : Prop :=
  ∀ fuel < limit, ∀ (value : Json) (rest : Text), value.isPlain = true → Ends rest →
    2 * (compact value).toList.length ≤ fuel →
      readValue fuel ((compact value).toList ++ rest) = .ok (value, rest)

theorem ReadsBack.mono {limit less : Nat} (h : ReadsBack limit) (hle : less ≤ limit) :
    ReadsBack less :=
  fun fuel hfuel => h fuel (Nat.lt_of_lt_of_le hfuel hle)

/-- The items of a list are read back if each of them is. -/
theorem readItems_compact {limit : Nat} (hread : ReadsBack limit) {first : Json}
    {items done : List Json} {rest : Text} (h : plainItems (first :: items) = true)
    (hfuel : 2 * (joined (compactItems (first :: items))).length < limit) :
    readItems limit done (joined (compactItems (first :: items)) ++ ']' :: rest) =
      .ok (items.reverse ++ first :: done, rest) := by
  induction items generalizing first limit done with
  | nil =>
    obtain ⟨fuel, rfl⟩ : ∃ left, limit = left + 1 :=
      Nat.exists_eq_succ_of_ne_zero (Nat.ne_of_gt (Nat.zero_lt_of_lt hfuel))
    obtain ⟨hfirst, -⟩ := Bool.and_eq_true_iff.1 h
    rw [compactItems, compactItems, joined_singleton] at hfuel ⊢
    exact readItems_last
      (hread fuel (Nat.lt_succ_self _) first _ hfirst (ends_cons (by decide) _) (by omega)) done
  | cons second items ih =>
    obtain ⟨fuel, rfl⟩ : ∃ left, limit = left + 1 :=
      Nat.exists_eq_succ_of_ne_zero (Nat.ne_of_gt (Nat.zero_lt_of_lt hfuel))
    obtain ⟨hfirst, hitems⟩ := Bool.and_eq_true_iff.1 h
    rw [compactItems, compactItems, joined_cons_cons] at hfuel ⊢
    simp only [List.length_cons, List.length_append] at hfuel
    have hvalue := hread fuel (Nat.lt_succ_self _) first
      (',' :: ' ' :: (joined (compactItems (second :: items)) ++ ']' :: rest)) hfirst
      (ends_cons (by decide) _) (by omega)
    rw [List.append_assoc]
    refine (readItems_next hvalue ((starts_items hitems).append _) done).trans ?_
    rw [ih (hread.mono (Nat.le_succ _)) hitems (by rw [compactItems]; omega)]
    simp

theorem toList_compactMember (key : String) (value : Json) :
    (compactMember (key, value)).toList =
      (escaped key).toList ++ ':' :: ' ' :: (compact value).toList := by
  rw [compactMember, String.toList_append, String.toList_append]
  simp

theorem length_compactMember {key : String} (h : plainText key = true) (value : Json) :
    (compactMember (key, value)).toList.length =
      key.toList.length + 4 + (compact value).toList.length := by
  rw [toList_compactMember, toList_escaped h]
  simp only [List.length_cons, List.length_append, List.length_nil]
  omega

/-- The members of an object are read back if each of their values is. -/
theorem readMembers_compact {limit : Nat} (hread : ReadsBack limit) {first : String × Json}
    {members done : List (String × Json)} {rest : Text}
    (h : plainMembers (first :: members) = true)
    (hfuel : 2 * (joined (compactMembers (first :: members))).length < limit) :
    readMembers limit done (joined (compactMembers (first :: members)) ++ '\x7d' :: rest) =
      .ok (members.reverse ++ first :: done, rest) := by
  induction members generalizing first limit done with
  | nil =>
    obtain ⟨fuel, rfl⟩ : ∃ left, limit = left + 1 :=
      Nat.exists_eq_succ_of_ne_zero (Nat.ne_of_gt (Nat.zero_lt_of_lt hfuel))
    obtain ⟨key, value⟩ := first
    obtain ⟨hkey, hvalue⟩ := Bool.and_eq_true_iff.1 (Bool.and_eq_true_iff.1 h).1
    rw [compactMembers, compactMembers, joined_singleton, length_compactMember hkey] at hfuel
    rw [compactMembers, compactMembers, joined_singleton, toList_compactMember, List.append_assoc]
    refine (readMembers_key hkey (by omega) ((starts_compact hvalue).append _) done).trans ?_
    rw [hread fuel (Nat.lt_succ_self _) value _ hvalue (ends_cons (by decide) _) (by omega)]
    rfl
  | cons second members ih =>
    obtain ⟨fuel, rfl⟩ : ∃ left, limit = left + 1 :=
      Nat.exists_eq_succ_of_ne_zero (Nat.ne_of_gt (Nat.zero_lt_of_lt hfuel))
    obtain ⟨key, value⟩ := first
    obtain ⟨hfirst, hmembers⟩ := Bool.and_eq_true_iff.1 h
    obtain ⟨hkey, hvalue⟩ := Bool.and_eq_true_iff.1 hfirst
    have hnext : joined (compactMembers ((key, value) :: second :: members)) =
        (compactMember (key, value)).toList ++ ',' :: ' ' ::
          joined (compactMembers (second :: members)) := joined_cons_cons ..
    rw [hnext, List.length_append, length_compactMember hkey, List.length_cons,
      List.length_cons] at hfuel
    have hskip :
        skipSpace (' ' :: (joined (compactMembers (second :: members)) ++ '\x7d' :: rest)) =
          joined (compactMembers (second :: members)) ++ '\x7d' :: rest :=
      skipSpace_starts (starts_members hmembers) _
    rw [hnext, toList_compactMember, List.append_assoc, List.append_assoc]
    refine (readMembers_key hkey (by omega) ((starts_compact hvalue).append _) done).trans ?_
    rw [List.cons_append, List.cons_append,
      hread fuel (Nat.lt_succ_self _) value _ hvalue (ends_cons (by decide) _) (by omega)]
    change readMembers fuel ((key, value) :: done) (skipSpace (' ' :: _)) = _
    rw [hskip, ih (hread.mono (Nat.le_succ _)) hmembers (by omega)]
    simp

/-- **A plain value is read back from its text.** -/
theorem readsBack (limit : Nat) : ReadsBack limit := by
  induction limit with
  | zero => exact fun fuel hfuel => absurd hfuel (Nat.not_lt_zero fuel)
  | succ limit ih =>
    intro fuel hlimit value rest h hrest hfuel
    obtain ⟨c, more, hstart, -⟩ := starts_compact h
    obtain ⟨fuel, rfl⟩ : ∃ left, fuel = left + 1 :=
      Nat.exists_eq_succ_of_ne_zero (by rw [hstart, List.length_cons] at hfuel; omega)
    have hless : ReadsBack fuel := ih.mono (by omega)
    cases value with
    | null => rfl
    | bool b => cases b <;> rfl
    | int n =>
      rw [isPlain, decide_eq_true_eq] at h
      rw [toList_compact_int h.1] at hstart ⊢
      have hdigit : c.isDigit = true := Nat.isDigit_of_mem_toDigits (by decide) (by decide)
        (hstart ▸ List.mem_cons_self .. : c ∈ Nat.toDigits 10 n.toNat)
      have hne : ∀ d : Char, d.isDigit = false → c ≠ d := by
        rintro d hd rfl
        exact Bool.false_ne_true (hd.symm.trans hdigit)
      rw [hstart, List.cons_append, readValue, ← List.cons_append, ← hstart, readWord?_toDigits,
        readNumber?_repr h.2 hrest]
      · simp only [Int.toNat_of_nonneg h.1]
      all_goals simp [hne '"' (by decide), hne '[' (by decide), hne '\x7b' (by decide)]
    | real x => exact absurd h (by simp [isPlain])
    | str s =>
      rw [isPlain] at h
      rw [compact, toList_escaped h] at hfuel ⊢
      simp only [List.length_cons, List.length_append, List.length_nil] at hfuel
      rw [List.cons_append, List.append_assoc, readValue]
      simp only [List.singleton_append]
      rw [readString_plain _ h (by omega)]
      simp [bind, Except.bind]
    | arr items =>
      rw [isPlain] at h
      rw [toList_compact_arr] at hfuel ⊢
      simp only [List.length_cons, List.length_append, List.length_nil] at hfuel
      rw [List.cons_append, List.append_assoc, List.singleton_append]
      cases items with
      | nil => rfl
      | cons first items =>
        rw [readValue_list ((starts_items h).append _), readItems_compact hless h (by omega)]
        simp [bind, Except.bind]
    | obj members =>
      rw [isPlain, Bool.and_eq_true, decide_eq_true_eq] at h
      rw [toList_compact_obj] at hfuel ⊢
      simp only [List.length_cons, List.length_append, List.length_nil] at hfuel
      rw [List.cons_append, List.append_assoc, List.singleton_append]
      cases members with
      | nil => rfl
      | cons first members =>
        rw [readValue_object ((starts_members h.2).append _),
          readMembers_compact hless h.2 (by omega)]
        simp [bind, Except.bind, mergeMembers_eq_self h.1]

/-- **The text of a plain value on one line holds that value.** -/
theorem parse_compact {value : Json} (h : value.isPlain = true) :
    parse (compact value).toList = .ok value := by
  have hread :=
    readsBack _ _ (Nat.lt_succ_self _) value [] h (by simp [Ends]) (Nat.le_add_right _ 2)
  have hskip := skipSpace_starts (starts_compact h) []
  obtain ⟨c, more, heq, -, -, -, hmark⟩ := starts_compact h
  rw [List.append_nil] at hread hskip
  have hall : readAll (compact value).toList = .ok value := by
    rw [heq] at hread hskip ⊢
    unfold readAll
    split
    · rename_i hmatch
      exact absurd (List.cons.inj hmatch).1 hmark
    · rw [hskip, hread]
      rfl
  rw [parse, hall]

/-! ### Line ends -/

/-- Induction on a value: what holds of all items and of the values of all members holds of the
whole. -/
theorem induct {motive : Json → Prop} (null : motive .null) (bool : ∀ b, motive (.bool b))
    (int : ∀ n, motive (.int n)) (real : ∀ x, motive (.real x)) (str : ∀ s, motive (.str s))
    (arr : ∀ items, (∀ item ∈ items, motive item) → motive (.arr items))
    (obj : ∀ members, (∀ member ∈ members, motive member.2) → motive (.obj members))
    (value : Json) : motive value :=
  @Json.rec motive (fun items => ∀ item ∈ items, motive item)
    (fun members => ∀ member ∈ members, motive member.2) (fun member => motive member.2)
    null bool int real str arr obj
    (fun _ hitem => absurd hitem List.not_mem_nil)
    (fun _ _ hfirst hrest => List.forall_mem_cons.2 ⟨hfirst, hrest⟩)
    (fun _ hmember => absurd hmember List.not_mem_nil)
    (fun _ _ hfirst hrest => List.forall_mem_cons.2 ⟨hfirst, hrest⟩)
    (fun _ _ hvalue => hvalue) value

theorem mem_joined {texts : List String} {c : Char} (h : c ∈ joined texts) :
    c = ',' ∨ c = ' ' ∨ ∃ text ∈ texts, c ∈ text.toList := by
  induction texts with
  | nil => exact absurd h (by simp [joined])
  | cons first texts ih =>
    cases texts with
    | nil =>
      rw [joined_singleton] at h
      exact Or.inr (Or.inr ⟨first, List.mem_cons_self .., h⟩)
    | cons second texts =>
      rw [joined_cons_cons, List.mem_append, List.mem_cons, List.mem_cons] at h
      rcases h with h | h | h | h
      · exact Or.inr (Or.inr ⟨first, List.mem_cons_self .., h⟩)
      · exact Or.inl h
      · exact Or.inr (Or.inl h)
      · rcases ih h with h | h | ⟨text, htext, h⟩
        · exact Or.inl h
        · exact Or.inr (Or.inl h)
        · exact Or.inr (Or.inr ⟨text, List.mem_cons_of_mem _ htext, h⟩)

theorem compactItems_eq_map (items : List Json) : compactItems items = items.map compact := by
  induction items with
  | nil => rfl
  | cons item items ih => rw [compactItems, ih, List.map_cons]

theorem compactMembers_eq_map (members : List (String × Json)) :
    compactMembers members = members.map compactMember := by
  induction members with
  | nil => rfl
  | cons member members ih => rw [compactMembers, ih, List.map_cons]

theorem le_toNat_escaped {s : String} (h : plainText s = true) {c : Char}
    (hc : c ∈ (escaped s).toList) : 32 ≤ c.toNat := by
  rw [toList_escaped h, List.mem_cons, List.mem_append, List.mem_singleton] at hc
  rcases hc with rfl | hc | rfl
  · decide
  · rw [plainText, List.all_eq_true] at h
    have hplain := h c hc
    simp only [plainChar, Bool.and_eq_true, decide_eq_true_eq] at hplain
    exact hplain.1.1.1
  · decide

theorem isPlain_of_mem_items {items : List Json} (h : plainItems items = true) {item : Json}
    (hmem : item ∈ items) : item.isPlain = true := by
  induction items with
  | nil => exact absurd hmem List.not_mem_nil
  | cons first items ih =>
    obtain ⟨hfirst, hitems⟩ := Bool.and_eq_true_iff.1 h
    rcases List.mem_cons.1 hmem with rfl | hmem
    · exact hfirst
    · exact ih hitems hmem

theorem plainMember_of_mem {members : List (String × Json)} (h : plainMembers members = true)
    {member : String × Json} (hmem : member ∈ members) : plainMember member = true := by
  induction members with
  | nil => exact absurd hmem List.not_mem_nil
  | cons first members ih =>
    obtain ⟨hfirst, hmembers⟩ := Bool.and_eq_true_iff.1 h
    rcases List.mem_cons.1 hmem with rfl | hmem
    · exact hfirst
    · exact ih hmembers hmem

/-- The text of a plain value on one line has no control characters. -/
theorem le_toNat_compact {value : Json} (h : value.isPlain = true) {c : Char}
    (hc : c ∈ (compact value).toList) : 32 ≤ c.toNat := by
  induction value using induct with
  | null =>
    have hall : ("null".toList.all fun c => decide (32 ≤ c.toNat)) = true := by decide
    exact of_decide_eq_true (List.all_eq_true.1 hall c hc)
  | bool b =>
    have hall : ∀ b : Bool,
        ((compact (.bool b)).toList.all fun c => decide (32 ≤ c.toNat)) = true := by decide
    exact of_decide_eq_true (List.all_eq_true.1 (hall b) c hc)
  | int n =>
    rw [isPlain, decide_eq_true_eq] at h
    rw [toList_compact_int h.1] at hc
    have hdigit := Nat.isDigit_of_mem_toDigits (by decide) (by decide) hc
    have hlow : 48 ≤ c.toNat := (Char.isDigit_iff_toNat.1 hdigit).1
    omega
  | real x => exact absurd h (by simp [isPlain])
  | str s => exact le_toNat_escaped h hc
  | arr items ih =>
    rw [isPlain] at h
    rw [toList_compact_arr, List.mem_cons, List.mem_append, List.mem_singleton] at hc
    rcases hc with rfl | hc | rfl
    · decide
    · rcases mem_joined hc with rfl | rfl | ⟨text, htext, hc⟩
      · decide
      · decide
      · rw [compactItems_eq_map] at htext
        obtain ⟨item, hitem, rfl⟩ := List.mem_map.1 htext
        exact ih item hitem (isPlain_of_mem_items h hitem) hc
    · decide
  | obj members ih =>
    rw [isPlain, Bool.and_eq_true] at h
    rw [toList_compact_obj, List.mem_cons, List.mem_append, List.mem_singleton] at hc
    rcases hc with rfl | hc | rfl
    · decide
    · rcases mem_joined hc with rfl | rfl | ⟨text, htext, hc⟩
      · decide
      · decide
      · rw [compactMembers_eq_map] at htext
        obtain ⟨⟨key, value⟩, hmember, rfl⟩ := List.mem_map.1 htext
        obtain ⟨hkey, hvalue⟩ := Bool.and_eq_true_iff.1 (plainMember_of_mem h.2 hmember)
        rw [toList_compactMember, List.mem_append, List.mem_cons, List.mem_cons] at hc
        rcases hc with hc | rfl | rfl | hc
        · exact le_toNat_escaped hkey hc
        · decide
        · decide
        · exact ih _ hmember hvalue hc
    · decide

end Json

/-- A text without carriage returns has its line ends as they should be. -/
theorem Text.unifyLineEnds_eq_self {text : Text} (h : '\r' ∉ text) : text.unifyLineEnds = text := by
  induction text with
  | nil => rfl
  | cons c text ih =>
    rw [List.mem_cons, not_or] at h
    rw [unifyLineEnds, if_neg (Ne.symm h.1), ih h.2]
    rintro rest rfl
    exact absurd rfl h.1

/-- Printed JSON has no line ends to be unified. -/
theorem Json.unifyLineEnds_compact {value : Json} (h : value.isPlain = true) :
    Text.unifyLineEnds value.compact.toList = value.compact.toList :=
  Text.unifyLineEnds_eq_self fun hmem => absurd (le_toNat_compact h hmem) (by decide)

end UsageOrder
