import UsageOrder.Proofs.SoundTrees
import UsageOrder.Styled.Lookup

/-!
# Which statements are collected

What it is to hold a styled declaration is said without the steps that look for one (`HoldsStyled`,
`candidate_eq_some_iff`).  Of the statements that hold one under a name the first is collected
(`Gathered`): taking in the next statement keeps this up (`Gathered.extend`), so it holds of all
statements (`ofStatements_gathered`).  The tables have an entry for each declaration
(`WellFormed.lookups_eq`), and statements that hold nothing of the kind may come and go anywhere
(`foldlM_extend_of_interspersed`).  The main statement is `ofStatements_gathers`.
-/

namespace UsageOrder

/-- A statement holds a variable declaration: it is one, or it exports one by name. -/
inductive HoldsVariables : Json → Json → Prop
  | plain {statement : Json} (kind : statement.kind = .variableDeclaration) :
      HoldsVariables statement statement
  | exported {statement declaration : Json} (exports : statement.kind = .exportNamedDeclaration)
      (member : statement.get? "declaration" = some declaration)
      (kind : declaration.kind = .variableDeclaration) : HoldsVariables statement declaration

/-- **A statement holds a styled declaration:** its variable declaration has one declarator, whose
target is an identifier and whose initializer is styled. -/
structure HoldsStyled (markers : List Json) (statement : Json) (candidate : Candidate) : Prop where
  declarator : ∃ declaration declarator, HoldsVariables statement declaration ∧
    declaration.get? "declarations" = some (.arr [declarator]) ∧
    declarator.getD "id" = candidate.identifier ∧ declarator.getD "init" = candidate.initializer
  identifier : candidate.identifier.kind = .identifier
  styled : Styled.classify markers candidate.initializer = .ok (some candidate.styled)

/-- A statement holds a styled declaration under a name. -/
def HoldsUnder (markers : List Json) (statement : Json) (name : Name) : Prop :=
  ∃ candidate value, HoldsStyled markers statement candidate ∧
    candidate.identifier.get? "name" = some value ∧ Name.ofJson value = .ok name

/-- A declaration is the one that a statement holds, with the range of the whole statement. -/
structure TakenFrom (markers : List Json) (statement : Json) (declaration : Declaration) : Prop where
  held : HoldsStyled markers statement
    ⟨declaration.anchor, declaration.initializer, declaration.styled⟩
  named : ∃ value, declaration.anchor.get? "name" = some value ∧
    Name.ofJson value = .ok declaration.name
  ranged : statement.range = .ok declaration.range

/-- The statement at an index is the first to hold a styled declaration under its name. -/
def FirstAt (markers body : List Json) (index : Nat) : Prop :=
  ∃ statement name, body[index]? = some statement ∧ HoldsUnder markers statement name ∧
    ∀ earlier < index, ∀ other otherName, body[earlier]? = some other →
      HoldsUnder markers other otherName → (otherName == name) = false

/-- **One list of statements comes from another one** by inserting and deleting statements that hold
no styled declaration. -/
inductive Interspersed (markers : List Json) : List Json → List Json → Prop
  | nil : Interspersed markers [] []
  | keep (statement : Json) {body body' : List Json} (rest : Interspersed markers body body') :
      Interspersed markers (statement :: body) (statement :: body')
  | insert {statement : Json} (none : ¬ ∃ candidate, HoldsStyled markers statement candidate)
      {body body' : List Json} (rest : Interspersed markers body body') :
      Interspersed markers body (statement :: body')
  | delete {statement : Json} (none : ¬ ∃ candidate, HoldsStyled markers statement candidate)
      {body body' : List Json} (rest : Interspersed markers body body') :
      Interspersed markers (statement :: body) body'

variable {markers body body' : List Json} {statement declaration declarator : Json} {name name' : Name}

/-! ### What a statement holds -/

namespace Json

theorem getD_of_get? {value found : Json} {key : String} (h : value.get? key = some found) :
    value.getD key = found := by
  rw [getD, h, Option.getD_some]

theorem require_eq_ok_iff {value found : Json} {key : String} :
    value.require key = .ok found ↔ value.get? key = some found := by
  cases value with
  | obj members =>
    simp only [require, get?]
    cases memberOf? key members <;> simp
  | _ => simp [require, get?]

theorem member_eq_ok_of_kind {value found : Json} {key : String} (h : value.getD key = found)
    (hkind : found.kind ≠ .other) : value.member key = .ok found := by
  cases value with
  | obj members => exact congrArg Except.ok h
  | _ => exact absurd (h ▸ rfl) hkind

end Json

namespace Declaration

theorem held_eq_some_iff : held statement = some declaration ↔ HoldsVariables statement declaration := by
  constructor
  · intro h
    rw [held] at h
    split at h
    case h_1 hkind => exact Option.some.inj h ▸ .plain hkind
    case h_2 hkind =>
      dsimp only at h
      split_ifs at h with hinner
      obtain rfl := Option.some.inj h
      exact .exported hkind
        (Json.get?_of_isNode (Json.isNode_of_kind (by rw [hinner]; simp))) hinner
    case h_3 => exact absurd h (by simp)
  · rintro (hkind | ⟨hexports, hmember, hkind⟩)
    · rw [held, hkind]
    · rw [held, hexports]
      simp only [Json.getD_of_get? hmember, hkind, if_true]

/-- A declarator with members is the sole one exactly when it is the only one in a list. -/
theorem soleDeclarator_eq_some_iff {members : List (String × Json)} :
    soleDeclarator declaration = .ok (some (.obj members)) ↔
      declaration.get? "declarations" = some (.arr [.obj members]) := by
  rw [soleDeclarator, Json.getD]
  cases declaration.get? "declarations" with
  | none => simp [Json.truthy]
  | some value =>
    cases value with
    | arr items => rcases items with _ | ⟨first, _ | ⟨second, rest⟩⟩ <;> simp [Json.truthy]
    | str s => by_cases hempty : s = "" <;> by_cases hone : s.length = 1 <;>
        simp [Json.truthy, hempty, hone]
    | obj entries => rcases entries with _ | ⟨first, _ | ⟨second, rest⟩⟩ <;> simp [Json.truthy]
    | null | bool | int | real => simp [Json.truthy]; try split_ifs <;> simp

/-- **What a statement is found to declare is what it holds.** -/
theorem candidate_eq_some_iff {found : Candidate} :
    candidate markers statement = .ok (some found) ↔ HoldsStyled markers statement found := by
  constructor
  · intro h
    rw [candidate] at h
    cases hheld : held statement with
    | none => rw [hheld] at h; exact absurd (Except.ok.inj h) (by simp)
    | some declaration =>
      rw [hheld] at h
      obtain ⟨sole, hsole, h⟩ := bind_eq_ok_iff.1 h
      cases sole with
      | none => exact absurd (Except.ok.inj h) (by simp)
      | some declarator =>
        obtain ⟨identifier, hidentifier, h⟩ := bind_eq_ok_iff.1 h
        dsimp only at h
        split_ifs at h with hkind
        · exact absurd (Except.ok.inj h) (by simp)
        · obtain ⟨styled, hstyled, h⟩ := bind_eq_ok_iff.1 h
          cases styled with
          | none => exact absurd (Except.ok.inj h) (by simp)
          | some styled =>
            obtain rfl := Option.some.inj (Except.ok.inj h)
            -- Only an object has members, so the declarator is one.
            cases declarator with
            | obj members =>
              exact ⟨⟨declaration, .obj members, held_eq_some_iff.1 hheld,
                soleDeclarator_eq_some_iff.1 hsole, Except.ok.inj hidentifier, rfl⟩,
                not_not.1 hkind, hstyled⟩
            | _ => exact absurd hidentifier (by simp [Json.member])
  · rintro ⟨⟨declaration, declarator, hheld, hsole, hid, hinit⟩, hkind, hstyled⟩
    have hmember : declarator.member "id" = .ok found.identifier :=
      Json.member_eq_ok_of_kind hid (by rw [hkind]; simp)
    cases declarator with
    | obj members =>
      rw [candidate, held_eq_some_iff.2 hheld]
      simp only [soleDeclarator_eq_some_iff.2 hsole, hmember, hkind, hinit, hstyled, bind,
        Except.bind, ne_eq, not_true_eq_false, if_false]
    | _ => exact absurd hmember (by simp [Json.member])

end Declaration

theorem TakenFrom.holdsUnder {taken : Declaration} (h : TakenFrom markers statement taken) :
    HoldsUnder markers statement taken.name := by
  obtain ⟨value, hvalue, hname⟩ := h.named
  exact ⟨_, value, h.held, hvalue, hname⟩

/-- A statement holds at most one name. -/
theorem HoldsUnder.unique (h : HoldsUnder markers statement name)
    (h' : HoldsUnder markers statement name') : name = name' := by
  obtain ⟨found, value, hheld, hvalue, hname⟩ := h
  obtain ⟨found', value', hheld', hvalue', hname'⟩ := h'
  obtain rfl := Option.some.inj (Except.ok.inj ((Declaration.candidate_eq_some_iff.2 hheld).symm.trans
    (Declaration.candidate_eq_some_iff.2 hheld')))
  obtain rfl := Option.some.inj (hvalue.symm.trans hvalue')
  exact Except.ok.inj (hname.symm.trans hname')

/-- Under a name that is not there a value comes last. -/
theorem Lookups.put_of_forall {α : Type} (value : α) {entries : List (Name × α)}
    (h : ∀ entry ∈ entries, (name == entry.1) = false) :
    put name value entries = entries ++ [(name, value)] := by
  induction entries with
  | nil => rfl
  | cons entry entries ih =>
    obtain ⟨hentry, hentries⟩ := List.forall_mem_cons.1 h
    rw [put, hentry, ih hentries]
    rfl

namespace Collection

variable {found found' collection collection' : Collection}

/-! ### Taking in a statement -/

/-- **A statement is passed over only if it holds nothing or its name is taken;** else its
declaration comes last. -/
theorem extend_inversion (h : extend markers found statement = .ok found') :
    (found' = found ∧ ∀ name, HoldsUnder markers statement name → found.names.contains name = true) ∨
      ∃ taken, TakenFrom markers statement taken ∧ found.names.contains taken.name = false ∧
        found' = found ++ [taken] := by
  obtain ⟨held, hheld, h⟩ := bind_eq_ok_iff.1 h
  cases held with
  | none =>
    refine Or.inl ⟨(Except.ok.inj h).symm, ?_⟩
    rintro name ⟨candidate, -, hcandidate, -⟩
    exact absurd (Except.ok.inj (hheld.symm.trans (Declaration.candidate_eq_some_iff.2 hcandidate)))
      (by simp)
  | some candidate =>
    obtain ⟨value, hvalue, h⟩ := bind_eq_ok_iff.1 h
    obtain ⟨name, hname, h⟩ := bind_eq_ok_iff.1 h
    have hholds := Declaration.candidate_eq_some_iff.1 hheld
    have hvalue := Json.require_eq_ok_iff.1 hvalue
    split at h
    · rename_i htaken
      refine Or.inl ⟨(Except.ok.inj h).symm, fun other hother => ?_⟩
      rwa [← HoldsUnder.unique ⟨candidate, value, hholds, hvalue, hname⟩ hother]
    · rename_i hnew
      obtain ⟨range, hrange, h⟩ := bind_eq_ok_iff.1 h
      exact Or.inr ⟨_, ⟨hholds, ⟨value, hvalue, hname⟩, hrange⟩, Bool.not_eq_true _ ▸ hnew,
        (Except.ok.inj h).symm⟩

/-- A statement that holds no styled declaration is passed over. -/
theorem extend_of_not_holds (hnone : ¬ ∃ candidate, HoldsStyled markers statement candidate)
    (h : extend markers found statement = .ok found') : found' = found := by
  rcases extend_inversion h with ⟨hsame, -⟩ | ⟨taken, htaken, -⟩
  · exact hsame
  · exact absurd ⟨_, htaken.held⟩ hnone

/-- **Statements that hold no styled declaration may come and go.** -/
theorem foldlM_extend_of_interspersed (h : Interspersed markers body body') (found : Collection)
    (hbody : body.foldlM (extend markers) found = .ok collection)
    (hbody' : body'.foldlM (extend markers) found = .ok collection') : collection' = collection := by
  induction h generalizing found with
  | nil => exact Except.ok.inj (hbody'.symm.trans hbody)
  | keep statement _ ih =>
    rw [List.foldlM_cons] at hbody hbody'
    obtain ⟨next, hnext, hbody⟩ := bind_eq_ok_iff.1 hbody
    obtain ⟨next', hnext', hbody'⟩ := bind_eq_ok_iff.1 hbody'
    obtain rfl := Except.ok.inj (hnext.symm.trans hnext')
    exact ih next hbody hbody'
  | insert hnone _ ih =>
    rw [List.foldlM_cons] at hbody'
    obtain ⟨next, hnext, hrest⟩ := bind_eq_ok_iff.1 hbody'
    rw [extend_of_not_holds hnone hnext] at hrest
    exact ih found hbody hrest
  | delete hnone _ ih =>
    rw [List.foldlM_cons] at hbody
    obtain ⟨next, hnext, hrest⟩ := bind_eq_ok_iff.1 hbody
    rw [extend_of_not_holds hnone hnext] at hrest
    exact ih found hrest hbody'

/-! ### The first statement for each name -/

/-- **The declarations are those of the first statement for each name, in their order:** the indices
are all those of such statements, going up, and each declaration is the one its statement holds. -/
structure Gathered (markers body : List Json) (indices : List Nat) (found : Collection) : Prop where
  ascending : indices.Pairwise (· < ·)
  firsts : ∀ index, index ∈ indices ↔ FirstAt markers body index
  taken : List.Forall₂ (fun index declaration => ∃ statement, body[index]? = some statement ∧
    TakenFrom markers statement declaration) indices found

theorem lt_length_of_getElem? {α : Type} {items : List α} {item : α} {index : Nat}
    (h : items[index]? = some item) : index < items.length :=
  (List.getElem?_eq_some_iff.1 h).1

theorem getElem?_append_of_some {α : Type} {items : List α} {item : α} {index : Nat}
    (h : items[index]? = some item) (more : List α) : (items ++ more)[index]? = some item :=
  (List.getElem?_append_left (lt_length_of_getElem? h)).trans h

/-- Behind a list of statements a statement is first if no statement of the list has its name. -/
theorem firstAt_append_singleton_iff {index : Nat} :
    FirstAt markers (body ++ [statement]) index ↔ FirstAt markers body index ∨
      index = body.length ∧ ∃ name, HoldsUnder markers statement name ∧
        ∀ (earlier : Nat) (other : Json) (otherName : Name), body[earlier]? = some other →
          HoldsUnder markers other otherName → (otherName == name) = false := by
  constructor
  · rintro ⟨held, name, hheld, hname, hfirst⟩
    have hbefore : ∀ earlier other otherName, earlier < index → body[earlier]? = some other →
        HoldsUnder markers other otherName → (otherName == name) = false :=
      fun earlier other otherName hearlier hother =>
        hfirst earlier hearlier other otherName (getElem?_append_of_some hother _)
    rcases Nat.lt_or_ge index body.length with hlt | hge
    · rw [List.getElem?_append_left hlt] at hheld
      exact Or.inl ⟨held, name, hheld, hname, fun earlier hearlier other otherName =>
        hbefore earlier other otherName hearlier⟩
    · have hindex : index = body.length := by
        have hbound := lt_length_of_getElem? hheld
        rw [List.length_append, List.length_singleton] at hbound
        omega
      subst hindex
      obtain rfl : statement = held := by simpa using hheld
      exact Or.inr ⟨rfl, name, hname, fun earlier other otherName hother =>
        hbefore earlier other otherName (lt_length_of_getElem? hother) hother⟩
  · rintro (⟨held, name, hheld, hname, hfirst⟩ | ⟨rfl, name, hname, hfirst⟩)
    · refine ⟨held, name, getElem?_append_of_some hheld _, hname,
        fun earlier hearlier other otherName hother => hfirst earlier hearlier other otherName ?_⟩
      rwa [List.getElem?_append_left (hearlier.trans (lt_length_of_getElem? hheld))] at hother
    · refine ⟨statement, name, by simp, hname,
        fun earlier hearlier other otherName hother => hfirst earlier other otherName ?_⟩
      rwa [List.getElem?_append_left hearlier] at hother

namespace Gathered

variable {indices : List Nat}

/-- The name of every statement that holds one is taken. -/
theorem contains (h : Gathered markers body indices found) {index : Nat}
    (hindex : body[index]? = some statement) (hname : HoldsUnder markers statement name) :
    found.names.contains name = true := by
  induction index using Nat.strongRecOn generalizing statement name with
  | ind index ih =>
    by_cases hearlier : ∃ earlier < index, ∃ other otherName, body[earlier]? = some other ∧
        HoldsUnder markers other otherName ∧ (otherName == name) = true
    · obtain ⟨earlier, hlt, other, otherName, hother, hholds, heq⟩ := hearlier
      exact (List.contains_congr heq).symm.trans (ih earlier hlt hother hholds)
    · have hfirst : FirstAt markers body index :=
        ⟨statement, name, hindex, hname, fun earlier hlt other otherName hother hholds =>
          Bool.eq_false_iff.2 fun heq => hearlier ⟨earlier, hlt, other, otherName, hother, hholds, heq⟩⟩
      obtain ⟨declaration, hmem, held, hheld, htaken⟩ :=
        exists_mem_of_forall₂ h.taken ((h.firsts index).2 hfirst)
      obtain rfl := Option.some.inj (hindex.symm.trans hheld)
      exact List.contains_iff_exists_mem_beq.2
        ⟨declaration.name, List.mem_map_of_mem hmem, beq_of_eq (hname.unique htaken.holdsUnder)⟩

/-- A name that is taken is that of some statement. -/
theorem exists_holdsUnder (h : Gathered markers body indices found)
    (hname : found.names.contains name = true) :
    ∃ (index : Nat) (statement : Json) (other : Name), body[index]? = some statement ∧
      HoldsUnder markers statement other ∧ (other == name) = true := by
  obtain ⟨other, hother, heq⟩ := List.contains_iff_exists_mem_beq.1 hname
  obtain ⟨declaration, hmem, rfl⟩ := List.mem_map.1 hother
  obtain ⟨index, -, statement, hstatement, htaken⟩ := exists_mem_of_forall₂ h.taken.flip hmem
  exact ⟨index, statement, _, hstatement, htaken.holdsUnder, PartialEquivBEq.symm heq⟩

/-- **Taking in the next statement.** -/
theorem extend (h : Gathered markers body indices found)
    (hextend : Collection.extend markers found statement = .ok found') :
    ∃ indices', Gathered markers (body ++ [statement]) indices' found' := by
  have hkept : List.Forall₂ (fun index declaration => ∃ held,
      (body ++ [statement])[index]? = some held ∧ TakenFrom markers held declaration) indices found :=
    h.taken.imp fun index declaration ⟨held, hheld, htaken⟩ =>
      ⟨held, getElem?_append_of_some hheld _, htaken⟩
  rcases extend_inversion hextend with ⟨rfl, hpassed⟩ | ⟨declaration, htaken, hnew, rfl⟩
  · refine ⟨indices, h.ascending, fun index => ?_, hkept⟩
    rw [h.firsts, firstAt_append_singleton_iff]
    refine ⟨Or.inl, fun hfirst => hfirst.resolve_right ?_⟩
    rintro ⟨-, name, hname, hunheld⟩
    -- The name is taken, so one of the statements before has it.
    obtain ⟨earlier, other, otherName, hother, hholds, heq⟩ := h.exists_holdsUnder (hpassed name hname)
    exact Bool.false_ne_true ((hunheld earlier other otherName hother hholds).symm.trans heq)
  · refine ⟨indices ++ [body.length], ?_, fun index => ?_, ?_⟩
    · rw [List.pairwise_append]
      refine ⟨h.ascending, List.pairwise_singleton _ _, fun index hindex other hother => ?_⟩
      obtain ⟨held, -, hheld, -⟩ := (h.firsts index).1 hindex
      exact List.mem_singleton.1 hother ▸ lt_length_of_getElem? hheld
    · rw [List.mem_append, List.mem_singleton, h.firsts, firstAt_append_singleton_iff]
      refine or_congr_right ⟨fun hindex => ⟨hindex, declaration.name, htaken.holdsUnder, ?_⟩, And.left⟩
      intro earlier other otherName hother hholds
      rw [Bool.eq_false_iff]
      intro heq
      have hcontains := (List.contains_congr heq).symm.trans (h.contains hother hholds)
      exact Bool.false_ne_true (hnew.symm.trans hcontains)
    · exact List.rel_append hkept (.cons ⟨statement, by simp, htaken⟩ .nil)

end Gathered

/-- **What is collected comes from the first statement for each name.** -/
theorem ofStatements_gathered (h : ofStatements markers body = .ok collection) :
    ∃ indices, Gathered markers body indices collection := by
  have hrun : ∀ (front rest : List Json) (found : Collection) (indices : List Nat),
      Gathered markers front indices found → rest.foldlM (extend markers) found = .ok collection →
        ∃ indices, Gathered markers (front ++ rest) indices collection := by
    intro front rest
    induction rest generalizing front with
    | nil =>
      intro found indices hfound hrest
      rw [List.append_nil, ← Except.ok.inj hrest]
      exact ⟨indices, hfound⟩
    | cons statement rest ih =>
      intro found indices hfound hrest
      rw [List.foldlM_cons] at hrest
      obtain ⟨next, hnext, hrest⟩ := bind_eq_ok_iff.1 hrest
      obtain ⟨indices', hindices'⟩ := hfound.extend hnext
      rw [List.append_cons]
      exact ih (front ++ [statement]) next indices' hindices' hrest
  refine hrun [] body [] [] ⟨List.Pairwise.nil, fun index => ?_, .nil⟩ h
  refine iff_of_false List.not_mem_nil ?_
  rintro ⟨statement, -, hstatement, -⟩
  exact absurd hstatement (by simp)

/-! ### The tables -/

theorem lookups_concat (collection : Collection) (declaration : Declaration) :
    lookups (collection ++ [declaration]) = collection.lookups.add declaration := by
  rw [lookups, List.foldl_append]
  rfl

/-- **The tables have one entry for each declaration, under its name.** -/
theorem lookups_eq (h : collection.names.Pairwise fun a b => (a == b) = false) :
    collection.lookups =
      ⟨collection.map fun declaration => (declaration.name, declaration),
        collection.map fun declaration => (declaration.name, declaration.position),
        collection.map fun declaration => (declaration.name, declaration.anchor)⟩ := by
  induction collection using List.reverseRecOn with
  | nil => rfl
  | append_singleton collection declaration ih =>
    rw [names_concat, List.pairwise_append] at h
    obtain ⟨hdistinct, -, hnew⟩ := h
    have hput : ∀ {α : Type} (f : Declaration → α),
        Lookups.put declaration.name (f declaration)
          (collection.map fun declaration => (declaration.name, f declaration)) =
            (collection ++ [declaration]).map fun declaration => (declaration.name, f declaration) := by
      intro α f
      rw [Lookups.put_of_forall, List.map_append, List.map_singleton]
      intro entry hentry
      obtain ⟨other, hother, rfl⟩ := List.mem_map.1 hentry
      rw [BEq.comm]
      exact hnew other.name (List.mem_map_of_mem hother) _ (List.mem_singleton_self _)
    rw [lookups_concat, ih hdistinct]
    exact Lookups.ext (hput id) (hput Declaration.position) (hput Declaration.anchor)

/-- What is looked up under a name is the declaration of the name. -/
theorem lookup_byName (collection : Collection) (name : Name) :
    (collection.map fun declaration => (declaration.name, declaration)).lookup name =
      collection.named? name := by
  induction collection with
  | nil => rfl
  | cons first collection ih =>
    rw [List.map_cons, List.lookup_cons, named?, List.find?_cons, BEq.comm]
    cases first.name == name with
    | true => rfl
    | false => exact ih

/-- **What a collection holds.**  The names are pairwise different and the positions count up, the
tables have an entry for each declaration, the declarations are those of the first statement for each
name, and statements that hold no styled declaration change neither them nor what they refer to. -/
theorem ofStatements_gathers (h : ofStatements markers body = .ok collection) :
    (collection.names.Pairwise fun a b => (a == b) = false) ∧
      (∀ (index : Nat) (declaration : Declaration), collection[index]? = some declaration →
        declaration.position = index) ∧
      (collection.lookups =
          ⟨collection.map fun declaration => (declaration.name, declaration),
            collection.map fun declaration => (declaration.name, declaration.position),
            collection.map fun declaration => (declaration.name, declaration.anchor)⟩ ∧
        ∀ name, collection.lookups.byName.lookup name = collection.named? name) ∧
      (∃ indices, Gathered markers body indices collection) ∧
      ∀ body' collection', Interspersed markers body body' →
        ofStatements markers body' = .ok collection' →
          collection' = collection ∧ collection'.prerequisites = collection.prerequisites := by
  have hformed := ofStatements_wellFormed h
  have hlookups := lookups_eq hformed.distinct
  refine ⟨hformed.distinct, fun index declaration hindex => ?_,
    ⟨hlookups, fun name => hlookups ▸ lookup_byName collection name⟩, ofStatements_gathered h,
    fun body' collection' hbetween h' => ?_⟩
  · have hposition : (collection.map Declaration.position)[index]? = some declaration.position := by
      rw [List.getElem?_map, hindex, Option.map_some]
    rw [hformed.positions] at hposition
    obtain ⟨hlt, hposition⟩ := List.getElem?_eq_some_iff.1 hposition
    rw [← hposition, List.getElem_range]
  · obtain rfl := foldlM_extend_of_interspersed hbetween [] h h'
    exact ⟨rfl, rfl⟩

/-! ### Two titles -/

open Rule (cssStatement cssDeclaration)

/-- A statement that exports another one by name. -/
def exportStatement (range : Range) (statement : Json) : Json :=
  .obj [("type", .str "ExportNamedDeclaration"),
    ("range", .arr [.int range.start, .int range.stop]), ("declaration", statement)]

/-- An import, a title, a wrapper that refers to it and is exported, and another title. -/
def twoTitles : List Json :=
  [.obj [("type", .str "ImportDeclaration")], cssStatement "Title" ⟨20, 40⟩ [],
    exportStatement ⟨41, 78⟩ (cssStatement "Wrapper" ⟨48, 78⟩ ["Title"]),
    cssStatement "Title" ⟨79, 99⟩ []]

/-- The import is gone, and two variables are declared by one statement. -/
def twoTitlesMixed : List Json :=
  [cssStatement "Title" ⟨20, 40⟩ [],
    .obj [("type", .str "VariableDeclaration"), ("declarations", .arr [.null, .null])],
    exportStatement ⟨41, 78⟩ (cssStatement "Wrapper" ⟨48, 78⟩ ["Title"]),
    cssStatement "Title" ⟨79, 99⟩ []]

/-- The first title and the wrapper, with the range of the export. -/
def firstTitle : Collection :=
  [cssDeclaration "Title" 0 ⟨20, 40⟩ [],
    { cssDeclaration "Wrapper" 1 ⟨48, 78⟩ ["Title"] with range := ⟨41, 78⟩ }]

theorem not_holdsStyled_of_candidate (h : Declaration.candidate markers statement = .ok none) :
    ¬ ∃ candidate, HoldsStyled markers statement candidate := by
  rintro ⟨candidate, hholds⟩
  exact absurd (Except.ok.inj (h.symm.trans (Declaration.candidate_eq_some_iff.2 hholds))) (by simp)

/-- The first title is collected and the second one is not, with or without the import. -/
theorem ofStatements_gathers_twoTitles :
    let markers := Styled.defaultMarkers.map Json.str
    ofStatements markers twoTitles = .ok firstTitle ∧
      Interspersed markers twoTitles twoTitlesMixed ∧
      ofStatements markers twoTitlesMixed = .ok firstTitle ∧
      firstTitle.lookups.positions = [(.text "Title", 0), (.text "Wrapper", 1)] ∧
      (∃ indices, Gathered markers twoTitles indices firstTitle) ∧
      ∀ collection', ofStatements markers twoTitlesMixed = .ok collection' →
        collection'.prerequisites = firstTitle.prerequisites := by
  intro markers
  have hbody : ofStatements markers twoTitles = .ok firstTitle := rfl
  have hmixed : Interspersed markers twoTitles twoTitlesMixed :=
    .delete (not_holdsStyled_of_candidate rfl) (.keep _ (.insert (not_holdsStyled_of_candidate rfl)
      (.keep _ (.keep _ .nil))))
  obtain ⟨-, -, ⟨hlookups, -⟩, hgathered, hsame⟩ := ofStatements_gathers hbody
  exact ⟨hbody, hmixed, rfl, by rw [hlookups]; rfl, hgathered,
    fun collection' h' => (hsame _ collection' hmixed h').2⟩

end Collection
end UsageOrder
