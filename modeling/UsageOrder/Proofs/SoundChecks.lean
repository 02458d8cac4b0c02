import UsageOrder.Proofs.SoundTrees

/-!
# Checks of regular trees

A check of a source whose statements are regular is contained, if the settings are of their kinds
(`check_contained`): it gives diagnostics, or the fault that some node has no range.  The same goes
for the comparison of a tree with its text (`verify_contained`) and for reading a dump
(`ofJson_contained`).
-/

namespace UsageOrder

/-! ### Collecting -/

theorem Name.ofJson_str (s : String) : ofJson (.str s) = .ok (.text s) := rfl

theorem Styled.classify_returns (markers : List String) {init : Json}
    (h : init.isNode = true → init.regular = true) :
    ∃ styled, classify (markers.map .str) init = .ok styled := by
  have hmarkers : ∃ names, (markers.map Json.str).mapM Name.ofJson = Except.ok names := by
    refine exists_mapM_of_forall fun value hvalue => ?_
    obtain ⟨s, -, rfl⟩ := List.mem_map.1 hvalue
    exact ⟨_, Name.ofJson_str s⟩
  obtain ⟨names, hnames⟩ := hmarkers
  -- The chain under a key ends in a text or in nothing, both of which are names.
  have hroot : ∀ key, key ∉ Json.metadataKeys → init.kind ≠ .other →
      ∃ value name, (init.getD key).root = .ok value ∧ Name.ofJson value = .ok name := by
    intro key hkey hkind
    have hregular : (init.getD key).isNode = true → (init.getD key).regular = true :=
      Json.regular_getD (h (Json.isNode_of_kind hkind)) hkey
    rcases Json.root_of_regular _ hregular with hnull | ⟨s, hs⟩
    · exact ⟨.null, .null, hnull, rfl⟩
    · exact ⟨.str s, .text s, hs, rfl⟩
  rw [classify]
  simp only [hnames, bind, Except.bind]
  split
  · rename_i hkind
    obtain ⟨value, name, hvalue, hname⟩ := hroot "tag" (by decide) (by rw [hkind]; simp)
    simp only [hvalue, hname]
    exact ⟨_, rfl⟩
  · rename_i hkind
    obtain ⟨value, name, hvalue, hname⟩ := hroot "callee" (by decide) (by rw [hkind]; simp)
    simp only [hvalue, hname]
    exact ⟨_, rfl⟩
  · exact ⟨_, rfl⟩

namespace Declaration

/-- The declarator of a regular declaration that has exactly one is regular. -/
theorem soleDeclarator_returns {declaration : Json} (h : declaration.regular = true)
    (hkind : declaration.kind = .variableDeclaration) :
    ∃ sole, soleDeclarator declaration = .ok sole ∧
      ∀ declarator, sole = some declarator → declarator.regular = true := by
  rw [soleDeclarator]
  cases hvalue : declaration.get? "declarations" with
  | none => exact ⟨none, by rw [Json.getD, hvalue]; rfl, by simp⟩
  | some value =>
    obtain ⟨items, rfl, hnodes⟩ := Json.exists_items h (by rw [hkind]; rfl) hvalue
    rw [Json.getD, hvalue, Option.getD_some]
    rcases items with _ | ⟨declarator, _ | ⟨next, rest⟩⟩
    · exact ⟨none, rfl, by simp⟩
    · refine ⟨some declarator, rfl, fun other hother => ?_⟩
      obtain rfl := Option.some.inj hother
      have hmem : declarator ∈ [declarator] := List.mem_singleton_self declarator
      exact Json.regular_of_mem_children h
        (Json.mem_children_of_mem_items hvalue (by decide) hmem (hnodes rfl declarator hmem))
    · exact ⟨none, rfl, by simp⟩

theorem held_regular {statement declaration : Json} (h : statement.regular = true)
    (hheld : held statement = some declaration) :
    declaration.regular = true ∧ declaration.kind = .variableDeclaration := by
  rw [held] at hheld
  split at hheld
  · rename_i hkind
    obtain rfl := Option.some.inj hheld
    exact ⟨h, hkind⟩
  · dsimp only at hheld
    split_ifs at hheld with hkind
    obtain rfl := Option.some.inj hheld
    exact ⟨Json.regular_getD h (by decide) (Json.isNode_of_kind (by rw [hkind]; simp)), hkind⟩
  · exact absurd hheld (by simp)

/-- What a regular statement declares has a regular identifier and a regular initializer. -/
theorem candidate_returns (markers : List String) {statement : Json}
    (h : statement.regular = true) :
    ∃ found, candidate (markers.map .str) statement = .ok found ∧
      ∀ candidate, found = some candidate → candidate.identifier.regular = true ∧
        candidate.identifier.kind = .identifier ∧
          (candidate.initializer.isNode = true → candidate.initializer.regular = true) := by
  rw [candidate]
  cases hheld : held statement with
  | none => exact ⟨none, rfl, by simp⟩
  | some declaration =>
    obtain ⟨hregular, hkind⟩ := held_regular h hheld
    obtain ⟨sole, hsole, hdeclarator⟩ := soleDeclarator_returns hregular hkind
    simp only [hsole, bind, Except.bind]
    cases sole with
    | none => exact ⟨none, rfl, by simp⟩
    | some declarator =>
      have hdeclarator := hdeclarator declarator rfl
      have hid : declarator.member "id" = .ok (declarator.getD "id") := by
        obtain ⟨members, rfl⟩ := Json.exists_members (Json.regular_iff.1 hdeclarator).1
        rfl
      simp only [hid]
      split
      · exact ⟨none, rfl, by simp⟩
      · rename_i hidentifier
        have hidentifier : (declarator.getD "id").kind = .identifier := not_not.1 hidentifier
        have hinit : (declarator.getD "init").isNode = true →
            (declarator.getD "init").regular = true := Json.regular_getD hdeclarator (by decide)
        obtain ⟨styled, hstyled⟩ := Styled.classify_returns markers hinit
        simp only [hstyled]
        cases styled with
        | none => exact ⟨none, rfl, by simp⟩
        | some styled =>
          refine ⟨_, rfl, fun candidate heq => ?_⟩
          obtain rfl := Option.some.inj heq
          exact ⟨Json.regular_getD hdeclarator (by decide)
            (Json.isNode_of_kind (by rw [hidentifier]; simp)), hidentifier, hinit⟩

/-- What a check relies on in a declaration. -/
structure Regular (declaration : Declaration) : Prop where
  named : ∃ s, declaration.name = .text s
  anchored : Contained declaration.anchor.range
  references : ∀ reference ∈ declaration.initializer.references, ∃ s, reference = .ok (.str s)

end Declaration

namespace Collection

/-- Taking in a regular statement is contained, and what it declares is regular. -/
theorem extend_contained (markers : List String) {found : Collection} {statement : Json}
    (h : statement.regular = true) (hfound : ∀ declaration ∈ found, declaration.Regular) :
    Contained (extend (markers.map .str) found statement) ∧
      ∀ found', extend (markers.map .str) found statement = .ok found' →
        ∀ declaration ∈ found', declaration.Regular := by
  obtain ⟨held, hheld, hregular⟩ := Declaration.candidate_returns markers h
  rw [extend]
  simp only [hheld, bind, Except.bind]
  cases held with
  | none => exact ⟨Contained.ok _, fun found' heq => Except.ok.inj heq ▸ hfound⟩
  | some candidate =>
    obtain ⟨hidentifier, hkind, hinit⟩ := hregular candidate rfl
    obtain ⟨s, hs⟩ := Json.exists_name hidentifier (Or.inl hkind)
    simp only [hs, Name.ofJson_str]
    split
    · exact ⟨Contained.ok _, fun found' heq => Except.ok.inj heq ▸ hfound⟩
    · cases hrange : statement.range with
      | error fault =>
        exact ⟨fun fault' heq => Except.error.inj heq ▸ Json.range_contained h fault hrange,
          fun found' heq => absurd heq (by simp)⟩
      | ok range =>
        refine ⟨Contained.ok _, fun found' heq => ?_⟩
        rw [← Except.ok.inj heq]
        refine List.forall_mem_append.2 ⟨hfound, List.forall_mem_singleton.2 ?_⟩
        refine ⟨⟨s, rfl⟩, Json.range_contained hidentifier, ?_⟩
        cases hnode : candidate.initializer.isNode with
        | true => exact Json.references_of_regular _ (hinit hnode)
        | false =>
          rw [Json.references_of_not_isNode hnode]
          exact fun _ hnil => absurd hnil List.not_mem_nil

/-- **Collecting from regular statements is contained,** and what is collected is regular. -/
theorem ofStatements_contained (markers : List String) {body : List Json}
    (h : ∀ statement ∈ body, statement.regular = true) :
    Contained (ofStatements (markers.map .str) body) ∧
      ∀ collection, ofStatements (markers.map .str) body = .ok collection →
        ∀ declaration ∈ collection, declaration.Regular := by
  have hrun : ∀ found : Collection, (∀ declaration ∈ found, declaration.Regular) →
      Contained (body.foldlM (extend (markers.map .str)) found) ∧
        ∀ collection, body.foldlM (extend (markers.map .str)) found = .ok collection →
          ∀ declaration ∈ collection, declaration.Regular := by
    induction body with
    | nil => exact fun found hfound => ⟨Contained.ok _, fun _ heq => Except.ok.inj heq ▸ hfound⟩
    | cons statement body ih =>
      obtain ⟨hstatement, hbody⟩ := List.forall_mem_cons.1 h
      intro found hfound
      obtain ⟨hstep, hnext⟩ := extend_contained markers hstatement hfound
      rw [List.foldlM_cons]
      refine ⟨hstep.bind fun next heq => (ih hbody next (hnext next heq)).1,
        fun collection heq => ?_⟩
      obtain ⟨next, hextend, hrest⟩ := bind_eq_ok_iff.1 heq
      exact (ih hbody next (hnext next hextend)).2 collection hrest
  exact hrun [] fun _ hnil => absurd hnil List.not_mem_nil

theorem exists_names {collection : Collection}
    (h : ∀ declaration ∈ collection, declaration.Regular) :
    ∃ names : List String, collection.names = names.map .text := by
  have hrange : collection.names ∈ Set.range (List.map Name.text) := by
    rw [Set.range_list_map]
    intro name hname
    obtain ⟨declaration, hmem, rfl⟩ := List.mem_map.1 hname
    obtain ⟨s, hs⟩ := (h declaration hmem).named
    exact ⟨s, hs.symm⟩
  obtain ⟨names, hnames⟩ := hrange
  exact ⟨names, hnames.symm⟩

/-- What regular declarations refer to can be listed. -/
theorem prerequisites_returns {collection : Collection}
    (h : ∀ declaration ∈ collection, declaration.Regular) :
    ∃ prerequisites, collection.prerequisites = .ok prerequisites := by
  refine exists_mapM_of_forall fun declaration hmem => ?_
  have hreferences := (h declaration hmem).references
  obtain ⟨names, hnames⟩ : ∃ names, declaration.initializer.references.mapM
      (fun reference => reference.bind Name.ofJson) = .ok names :=
    exists_mapM_of_forall fun reference hreference => by
      obtain ⟨s, rfl⟩ := hreferences reference hreference
      exact ⟨.text s, rfl⟩
  -- Only texts come out of texts, and whatever is left of them are texts.
  have htexts : ∃ ss, Name.texts ((names.filter fun name =>
      collection.names.contains name && !name.same declaration.name).eraseDups) = .ok ss := by
    refine exists_mapM_of_forall fun name hname => ?_
    have hyielded := List.mem_of_mem_filter (mem_of_mem_eraseDups _ hname)
    obtain ⟨reference, hreference, heq⟩ := exists_mem_of_mapM_result hnames hyielded
    obtain ⟨s, rfl⟩ := hreferences reference hreference
    obtain rfl := Except.ok.inj heq
    exact ⟨s, rfl⟩
  obtain ⟨ss, hss⟩ := htexts
  have hothers : prerequisitesOf collection.names declaration = .ok _ :=
    bind_eq_ok_iff.2 ⟨names, hnames, bind_eq_ok_iff.2 ⟨ss, hss, rfl⟩⟩
  exact ⟨_, bind_eq_ok_iff.2 ⟨_, hothers, rfl⟩⟩

end Collection

/-! ### Uses -/

namespace FirstUses

theorem ofNode_contained (tracked : List Name) {node : Json} (h : node.regular = true) :
    Contained (ofNode tracked node) := by
  rw [ofNode]
  split
  · exact Contained.ok _
  · dsimp only
    split
    · exact Contained.ok _
    · rename_i htag
      have hkind : (node.getD "name").kind = .elementName := not_not.1 htag
      have htag : (node.getD "name").regular = true :=
        Json.regular_getD h (by decide) (Json.isNode_of_kind (by rw [hkind]; simp))
      obtain ⟨s, hs⟩ := Json.exists_name htag (Or.inr hkind)
      simp only [hs, Name.ofJson_str, bind, Except.bind]
      split
      · cases hrange : node.range with
        | error fault =>
          exact fun fault' heq => Except.error.inj heq ▸ Json.range_contained h fault hrange
        | ok range => exact Contained.ok _
      · exact Contained.ok _

theorem ofStatement_contained (tracked : List Name) (declared : List Range) {statement : Json}
    (h : statement.regular = true) : Contained (ofStatement tracked declared statement) := by
  refine (Json.range_contained h).bind fun range _ => ?_
  split
  · exact Contained.ok _
  · refine Contained.bind (Contained.mapM fun node hnode => ?_) fun _ _ => Contained.ok _
    exact ofNode_contained tracked (Json.regular_of_mem_walk h hnode)

/-- **Ranking is contained** if the declarations have texts for names. -/
theorem find_contained (strategy : UsageStrategy) {body : List Json}
    (h : ∀ statement ∈ body, statement.regular = true) (text : Text) {collection : Collection}
    {names : List String} (hnames : collection.names = names.map .text) :
    Contained (find strategy body text collection) := by
  have hunused : ∀ uses : FirstUses, uses.map Prod.fst = collection.names →
      ∃ ss, Name.texts uses.unused = .ok ss := by
    intro uses huses
    refine exists_mapM_of_forall fun name hname => ?_
    obtain ⟨use, huse, rfl⟩ := List.mem_map.1 hname
    have hmem : use.1 ∈ uses.map Prod.fst := List.mem_map_of_mem (List.mem_of_mem_filter huse)
    rw [huses, hnames] at hmem
    obtain ⟨s, -, hs⟩ := List.mem_map.1 hmem
    exact ⟨s, by rw [← hs]; rfl⟩
  unfold find
  cases strategy with
  | text =>
    refine Contained.bind (Contained.ok _) fun uses huses => ?_
    obtain ⟨ss, hss⟩ := hunused uses (by
      rw [← Except.ok.inj huses]
      simp [textual, Function.comp_def])
    exact Contained.bind (Contained.of_eq_ok hss) fun _ _ => Contained.ok _
  | structural =>
    refine Contained.bind ?_ fun uses huses => ?_
    · refine Contained.bind (Contained.mapM fun statement hstatement => ?_) fun _ _ =>
        Contained.ok _
      exact ofStatement_contained _ _ (h statement hstatement)
    · obtain ⟨found, -, huses⟩ := bind_eq_ok_iff.1 huses
      obtain ⟨ss, hss⟩ := hunused uses (by
        rw [← Except.ok.inj huses]
        simp [Function.comp_def])
      exact Contained.bind (Contained.of_eq_ok hss) fun _ _ => Contained.ok _

end FirstUses

/-! ### Sources -/

namespace Source

/-- A source whose statements are regular. -/
def Regular (source : Source) : Prop := ∀ statement ∈ source.body, statement.regular = true

theorem verifyDeclarator_contained (source : Source) {node : Json} (h : node.regular = true) :
    Contained (source.verifyDeclarator node) := by
  rw [verifyDeclarator]
  split
  · exact Contained.ok ()
  · dsimp only
    split
    · exact Contained.ok ()
    · rename_i hidentifier
      have hkind : (node.getD "id").kind = .identifier := not_not.1 hidentifier
      have hregular : (node.getD "id").regular = true :=
        Json.regular_getD h (by decide) (Json.isNode_of_kind (by rw [hkind]; simp))
      obtain ⟨there, hthere⟩ := Json.hasRange_of_isNode (Json.regular_iff.1 hregular).1
      obtain ⟨s, hs⟩ := Json.exists_name hregular (Or.inl hkind)
      refine Contained.bind (Contained.of_eq_ok hthere) fun there _ => ?_
      split
      · exact Contained.ok ()
      · refine (Json.range_contained hregular).bind fun range _ => ?_
        refine Contained.bind (Contained.of_eq_ok hs) fun name hname => ?_
        obtain rfl := Except.ok.inj (hs.symm.trans hname)
        dsimp only
        split
        · exact Contained.ok ()
        · exact fun fault heq => Except.error.inj heq ▸ rfl

/-- **Comparing a regular tree with a text is contained.** -/
theorem verify_contained {source : Source} (h : source.Regular) : Contained source.verify := by
  refine Contained.forM fun statement hstatement => ?_
  have hregular := h statement hstatement
  refine (Json.range_contained hregular).bind fun range _ => ?_
  split
  · exact fun fault heq => Except.error.inj heq ▸ rfl
  · exact Contained.forM fun node hnode =>
      source.verifyDeclarator_contained (Json.regular_of_mem_walk hregular hnode)

/-- How deep the lists and objects of a text are nested, when `depth` of them are open at its start.
Brackets in a string do not count. -/
def nesting : (quoted : Bool) → (depth : Nat) → Text → Nat
  | _, depth, [] => depth
  | true, depth, '\\' :: _ :: text => nesting true depth text
  | quoted, depth, c :: text =>
    if c = '"' then nesting (!quoted) depth text
    else if quoted then nesting quoted depth text
    else if c = '[' || c = '{' then nesting quoted (depth + 1) text
    else if c = ']' || c = '}' then max depth (nesting quoted (depth - 1) text)
    else nesting quoted depth text

/-- How deep a dump may be nested: an interpreter with a limit on nested calls can read it and go
through it all the same. -/
def deepest : Nat := 480

/-- A dump on which a check can rely: whole numbers are not too long for reading, and if it is a
program its statements are regular.  It is not so deep that the limit on nested calls, which the reader
leaves out, would count. -/
structure RegularDump (json : Text) : Prop where
  shallow : nesting false 0 json ≤ deepest
  readable : ∀ error, Json.parse json = .error error → error.problem ≠ .tooManyDigits
  statements : ∀ tree body, Json.parse json = .ok tree → statements tree = .ok body →
    ∀ statement ∈ body, statement.regular = true

/-- **Reading a regular dump is contained** and gives a regular source. -/
theorem ofJson_contained {json : Text} (h : RegularDump json) (path : Option Path) (text : Text) :
    Contained (ofJson path text json) ∧
      ∀ source, ofJson path text json = .ok source → source.Regular := by
  rw [ofJson]
  cases hparse : Json.parse json with
  | error error =>
    simp only [if_neg (h.readable error hparse)]
    exact ⟨fun fault heq => Except.error.inj heq ▸ rfl, fun source heq => absurd heq (by simp)⟩
  | ok tree =>
    refine ⟨Contained.bind ?_ fun _ _ => Contained.ok _, fun source heq => ?_⟩
    · rw [Source.statements]
      split
      · exact fun fault heq => Except.error.inj heq ▸ rfl
      · split
        · exact Contained.ok _
        · exact fun fault heq => Except.error.inj heq ▸ rfl
    · obtain ⟨body, hbody, heq⟩ := bind_eq_ok_iff.1 heq
      obtain rfl := Except.ok.inj heq
      exact h.statements tree body hparse hbody

end Source

/-! ### Checks -/

namespace Rule

/-- The settings of a rule are of the kinds that they are declared with. -/
structure Typed (rule : Rule) : Prop where
  markers : ∃ markers : List String, rule.markerNames = .arr (markers.map .str)
  separator : ∃ separator, rule.separator = .str separator
  passes : ∃ limit, rule.maxPasses = .int limit

variable {rule : Rule} {strategy : UsageStrategy} {source : Source} {collection : Collection}
  {prerequisites : Prerequisites Name} {uses : FirstUses}

/-- Putting regular declarations in order fails only if there is no order. -/
theorem Analysed.reconcileRanked_error
    (h : rule.Analysed strategy source collection prerequisites uses) (hrule : rule.Typed)
    (hregular : ∀ declaration ∈ collection, declaration.Regular) {fault : Fault}
    (hfault : Order.reconcileRanked collection.names uses.ranks prerequisites rule.maxPasses =
      .error fault) : ∃ cause, fault = .unresolvable cause := by
  obtain ⟨names, hnames⟩ := Collection.exists_names hregular
  obtain ⟨entries, rfl⟩ := h.exists_texts hnames
  obtain ⟨limit, hlimit⟩ := hrule.passes
  have hcover : uses.ranks.Cover names :=
    Order.cover_of_names ((FirstUses.names_of_find h.ranked).trans hnames)
  rw [hnames, hlimit, Order.reconcileRanked, Order.refuseCycle_texts] at hfault
  cases hcycle : entries.cycle? with
  | some path =>
    rw [hcycle] at hfault
    exact ⟨.cycle path, (Except.error.inj hfault).symm⟩
  | none =>
    rw [hcycle] at hfault
    obtain ⟨start, hstart⟩ := Order.initialRanked_returns hcover
    obtain ⟨first, rfl, -⟩ := Order.exists_texts_of_perm (Order.initialRanked_perm hstart)
    have htexts : Name.texts (first.map .text) = .ok first := Name.texts_eq_ok_iff.2 rfl
    simp only [bind, Except.bind, Order.settleRanked, hstart, htexts, Order.passLimit,
      Json.toInt?] at hfault
    split at hfault
    · exact absurd hfault (by simp)
    · exact ⟨_, (Except.error.inj hfault).symm⟩

/-- Diagnostics at the identifiers of regular declarations can be located unless these have no
range. -/
theorem located_contained (hregular : ∀ declaration ∈ collection, declaration.Regular)
    (text : Text) {diagnostics : List Diagnostic}
    (h : ∀ diagnostic ∈ diagnostics, ∃ declaration ∈ collection,
      diagnostic.anchor = declaration.anchor) :
    Contained (diagnostics.mapM (Diagnostic.locate text)) := by
  refine Contained.mapM fun diagnostic hmem => ?_
  obtain ⟨declaration, hdeclaration, hanchor⟩ := h diagnostic hmem
  refine Contained.bind (Contained.bind ?_ fun _ _ => Contained.ok _) fun _ _ => Contained.ok _
  rw [hanchor]
  exact (hregular declaration hdeclaration).anchored

theorem mem_of_firstConcerned {path : List String} {declaration : Declaration}
    (h : firstConcerned collection path = some declaration) : declaration ∈ collection := by
  rw [firstConcerned] at h
  split at h
  · exact List.mem_of_head? h
  · exact List.mem_of_mem_filter (List.mem_of_head? h)

/-- **A check of a regular source is contained.** -/
theorem check_contained (hrule : rule.Typed) (strategy : UsageStrategy) (h : source.Regular) :
    Contained (rule.check strategy source) := by
  obtain ⟨markers, hmarkers⟩ := hrule.markers
  have hitems : rule.markerNames.items = .ok (markers.map .str) := by rw [hmarkers]; rfl
  obtain ⟨hcollect, hcollected⟩ := Collection.ofStatements_contained markers h
  cases hcollection : Collection.ofStatements (markers.map .str) source.body with
  | error fault =>
    have hcheck : rule.check strategy source = .error fault := by
      simp only [check, findings, hitems, hcollection, bind, Except.bind]
    rw [hcheck]
    exact fun fault' heq => Except.error.inj heq ▸ hcollect fault hcollection
  | ok collection =>
    have hregular := hcollected collection hcollection
    obtain ⟨names, hnames⟩ := Collection.exists_names hregular
    obtain ⟨prerequisites, hprerequisites⟩ := Collection.prerequisites_returns hregular
    by_cases htwo : collection.length < 2
    · have hcheck : rule.check strategy source = .ok [] := by
        simp only [check, findings, hitems, hcollection, htwo, if_true, bind, Except.bind]
        rfl
      exact Contained.of_eq_ok hcheck
    cases huses : FirstUses.find strategy source.body source.text collection with
    | error fault =>
      have hcheck : rule.check strategy source = .error fault := by
        simp only [check, findings, hitems, hcollection, htwo, if_false, hprerequisites, huses,
          bind, Except.bind]
      rw [hcheck]
      exact fun fault' heq => Except.error.inj heq ▸
        FirstUses.find_contained strategy h source.text hnames fault huses
    | ok uses =>
      have hanalysed : rule.Analysed strategy source collection prerequisites uses :=
        ⟨⟨_, hitems, hcollection⟩, Nat.not_lt.1 htwo, hprerequisites, huses⟩
      rw [hanalysed.check_eq]
      cases hreconcile : Order.reconcileRanked collection.names uses.ranks prerequisites
          rule.maxPasses with
      | error fault =>
        obtain ⟨cause, rfl⟩ := hanalysed.reconcileRanked_error hrule hregular hreconcile
        refine located_contained hregular source.text fun diagnostic hmem => ?_
        obtain ⟨declaration, hfirst, rfl⟩ := Option.map_eq_some_iff.1 (Option.mem_toList.1 hmem)
        exact ⟨declaration, mem_of_firstConcerned hfirst, rfl⟩
      | ok settled =>
        obtain ⟨separator, hseparator⟩ := hrule.separator
        obtain ⟨reported, hreported⟩ := displaced_returns hseparator source.text settled.order
        refine Contained.bind (Contained.of_eq_ok hreported) fun found hfound => ?_
        exact located_contained hregular source.text fun diagnostic hmem =>
          anchor_of_displaced hfound hmem

end Rule
end UsageOrder
