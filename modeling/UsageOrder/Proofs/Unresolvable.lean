import UsageOrder.Proofs.FixedOrder
import UsageOrder.Proofs.Idempotence

/-!
# Only a cycle of references cannot be resolved

What an initializer refers to is a text by the time it is listed, while a declaration may have any
value for its name.  Names that are no texts are required by nothing, so they lie on no cycle, and
the search that goes through them still decides whether there is one
(`ListsTexts.cycle?_eq_none_iff`).

| references | what a check reports |
|---|---|
| a cycle | one problem without a fix, at the first declaration on a cycle (`Analysed.check_of_cyclic`) |
| no cycle | displaced declarations, each with its fix (`Analysed.fix_of_acyclic`) |
-/

namespace UsageOrder

/-! ### Prerequisites that are texts -/

theorem keepsApart_key : KeepsApart Name.key := by
  intro a b
  rw [Bool.eq_iff_iff, Name.beq_iff_key_eq, beq_iff_eq]

namespace Prerequisites

theorem cycle?_rename {α β : Type} [BEq α] [BEq β] [EquivBEq α] [EquivBEq β] {f : α → β}
    (hf : KeepsApart f) (prerequisites : Prerequisites α) :
    (prerequisites.rename f).cycle? = prerequisites.cycle?.map (List.map f) := by
  rw [cycle?, cycle?, explore_rename hf]
  rfl

theorem exists_rel_of_mem_tail {α : Type} {R : α → α → Prop} {path : List α} (h : path.IsChain R) :
    ∀ b ∈ path.tail, ∃ a, R a b := by
  induction path with
  | nil => exact fun _ hb => absurd hb List.not_mem_nil
  | cons first path ih =>
    cases path with
    | nil => exact fun _ hb => absurd hb List.not_mem_nil
    | cons second path =>
      obtain ⟨hfirst, hpath⟩ := List.isChain_cons_cons.1 h
      exact List.forall_mem_cons.2 ⟨⟨first, hfirst⟩, ih hpath⟩

/-- Whatever has to come before something is a text; what it comes before may be any name. -/
def ListsTexts (prerequisites : Prerequisites Name) : Prop :=
  ∀ entry ∈ prerequisites, ∃ ss : List String, entry.2 = ss.map .text

namespace ListsTexts

variable {prerequisites : Prerequisites Name}

theorem exists_text (h : prerequisites.ListsTexts) {name other : Name}
    (hrequires : prerequisites.Requires name other) : ∃ s, other = .text s := by
  rw [Requires, before] at hrequires
  cases hlookup : prerequisites.lookup name with
  | none => rw [hlookup] at hrequires; exact absurd hrequires List.not_mem_nil
  | some others =>
    obtain ⟨entry, hentry, hothers⟩ := exists_mem_of_lookup hlookup
    obtain ⟨ss, hss⟩ := h entry hentry
    rw [hlookup, Option.getD_some, ← hothers, hss] at hrequires
    obtain ⟨s, -, hs⟩ := List.mem_map.1 hrequires
    exact ⟨s, hs.symm⟩

/-- Requirements are the same whether names are compared by their values or by their keys. -/
theorem requires_key_iff (h : prerequisites.ListsTexts) {name other : Name} :
    (prerequisites.rename Name.key).Requires name.key other.key ↔
      prerequisites.Requires name other := by
  rw [Requires, before_rename keepsApart_key]
  refine ⟨fun hkey => ?_, fun hother => List.mem_map_of_mem hother⟩
  obtain ⟨found, hfound, hsame⟩ := List.mem_map.1 hkey
  obtain ⟨s, rfl⟩ := h.exists_text hfound
  rwa [Name.eq_text_of_beq (Name.beq_iff_key_eq.2 hsame.symm)]

theorem cycle?_isCycle (h : prerequisites.ListsTexts) {path : List Name}
    (hpath : prerequisites.cycle? = some path) : prerequisites.IsCycle path := by
  have hkeys : (prerequisites.rename Name.key).cycle? = some (path.map Name.key) := by
    rw [cycle?_rename keepsApart_key, hpath]
    rfl
  obtain ⟨hchain, hclosed, hnodup, htwo⟩ := Prerequisites.cycle?_isCycle hkeys
  rw [List.length_map] at htwo
  rw [← List.map_dropLast] at hnodup
  have hchain' : path.IsChain prerequisites.Requires :=
    List.isChain_of_isChain_map Name.key (fun _ _ => h.requires_key_iff.1) hchain
  refine ⟨hchain', ?_, List.Nodup.of_map _ hnodup, htwo⟩
  -- The ends have the same key, and the last name is required, hence a text.
  match path, htwo with
  | first :: second :: rest, _ =>
    have hlast := List.getLast?_eq_some_getLast (List.cons_ne_nil second rest)
    obtain ⟨_, hrequires⟩ := exists_rel_of_mem_tail hchain' _ (List.mem_of_getLast? hlast)
    obtain ⟨s, hs⟩ := h.exists_text hrequires
    rw [List.head?_map, List.getLast?_map, List.head?_cons, List.getLast?_cons_cons, hlast, hs,
      Option.map_some, Option.map_some] at hclosed
    rw [List.head?_cons, List.getLast?_cons_cons, hlast, hs,
      Name.eq_text_of_beq (Name.beq_iff_key_eq.2 (Option.some.inj hclosed))]

/-- **No cycle is reported exactly when there is none,** also among names that are no texts. -/
theorem cycle?_eq_none_iff (h : prerequisites.ListsTexts) :
    prerequisites.cycle? = none ↔ prerequisites.Acyclic := by
  constructor
  · intro hnone name hname
    have hkeys : (prerequisites.rename Name.key).cycle? = none := by
      rw [cycle?_rename keepsApart_key, hnone]
      rfl
    exact Prerequisites.cycle?_eq_none_iff.1 hkeys name.key
      (Relation.TransGen.lift Name.key (fun _ _ => h.requires_key_iff.2) name name hname)
  · intro hacyclic
    cases hpath : prerequisites.cycle? with
    | none => rfl
    | some path => exact absurd hacyclic (h.cycle?_isCycle hpath).not_acyclic

/-- The names on a cycle are texts. -/
theorem exists_texts_of_isCycle (h : prerequisites.ListsTexts) {path : List Name}
    (hcycle : prerequisites.IsCycle path) : ∃ ss : List String, path = ss.map .text := by
  have hrange : path ∈ Set.range (List.map Name.text) := by
    rw [Set.range_list_map]
    intro name hname
    -- Each name on a cycle comes after another one, the first as it is also the last.
    have htail : name ∈ path.tail := by
      match path, hcycle.two_le, hcycle.closed with
      | first :: second :: rest, _, hclosed =>
        rcases List.mem_cons.1 hname with rfl | hname
        · rw [List.getLast?_cons_cons, List.head?_cons] at hclosed
          exact List.mem_of_getLast? hclosed.symm
        · exact hname
    obtain ⟨_, hrequires⟩ := exists_rel_of_mem_tail hcycle.chain name htail
    obtain ⟨s, hs⟩ := h.exists_text hrequires
    exact ⟨s, hs.symm⟩
  obtain ⟨ss, hss⟩ := hrange
  exact ⟨ss, hss.symm⟩

end ListsTexts

/-! ### What a search goes through -/

section Finished

variable {α : Type} [BEq α] [EquivBEq α] {prerequisites : Prerequisites α} {P : α → Prop}

theorem search_finished (hrequired : ∀ name other, prerequisites.Requires name other → P other)
    (finished : List α) (trail : Trail α) (hfinished : ∀ name ∈ finished, P name)
    (htrail : ∀ step ∈ trail, P step.1 ∧ ∀ other ∈ step.2, P other) :
    ∀ name ∈ (prerequisites.search finished trail).finished, P name := by
  induction finished, trail using search.induct prerequisites with
  | case1 finished => rw [search]; exact hfinished
  | case2 finished name trail ih =>
    obtain ⟨⟨hname, -⟩, hrest⟩ := List.forall_mem_cons.1 htrail
    rw [search]
    exact ih (List.forall_mem_cons.2 ⟨hname, hfinished⟩) hrest
  | case3 finished name next later trail hon => rw [search, if_pos hon]; exact hfinished
  | case4 finished name next later trail hon hfin ih =>
    obtain ⟨⟨hname, hlater⟩, hrest⟩ := List.forall_mem_cons.1 htrail
    rw [search, if_neg hon, if_pos hfin]
    exact ih hfinished (List.forall_mem_cons.2 ⟨⟨hname, (List.forall_mem_cons.1 hlater).2⟩, hrest⟩)
  | case5 finished name next later trail hon hfin ih =>
    obtain ⟨⟨hname, hlater⟩, hrest⟩ := List.forall_mem_cons.1 htrail
    obtain ⟨hnext, hlater⟩ := List.forall_mem_cons.1 hlater
    rw [search, if_neg hon, if_neg hfin]
    exact ih hfinished (List.forall_mem_cons.2 ⟨⟨hnext, hrequired next⟩,
      List.forall_mem_cons.2 ⟨⟨hname, hlater⟩, hrest⟩⟩)

theorem searchFrom_finished (hrequired : ∀ name other, prerequisites.Requires name other → P other)
    (names finished : List α) (hfinished : ∀ name ∈ finished, P name)
    (hnames : ∀ name ∈ names, P name) :
    ∀ name ∈ (prerequisites.searchFrom finished names).finished, P name := by
  induction names generalizing finished with
  | nil => exact hfinished
  | cons name names ih =>
    obtain ⟨hname, hnames⟩ := List.forall_mem_cons.1 hnames
    rw [searchFrom]
    split
    · exact ih finished hfinished hnames
    · have hsearch := search_finished hrequired finished [(name, prerequisites.before name)]
        hfinished (List.forall_mem_singleton.2 ⟨hname, hrequired name⟩)
      split
      · rename_i heq
        rw [heq] at hsearch
        exact hsearch
      · rename_i finished' heq
        rw [heq] at hsearch
        exact ih finished' hsearch hnames

/-- A search finishes only names that have an entry or are required. -/
theorem explore_finished (hrequired : ∀ name other, prerequisites.Requires name other → P other)
    (hkeys : ∀ key ∈ prerequisites.keys, P key) : ∀ name ∈ prerequisites.explore.finished, P name :=
  searchFrom_finished hrequired prerequisites.keys [] (fun _ h => absurd h List.not_mem_nil) hkeys

end Finished
end Prerequisites

namespace Order

theorem followed_of_listsTexts {prerequisites : Prerequisites Name}
    (h : prerequisites.ListsTexts) : followed prerequisites = prerequisites := by
  refine (List.map_congr_left fun entry hentry => ?_).trans (List.map_id _)
  have hwhole : entry.2.takeWhile (fun name => !(name == Name.null)) = entry.2 := by
    obtain ⟨ss, hss⟩ := h entry hentry
    rw [List.takeWhile_eq_self_iff, hss]
    intro name hname
    obtain ⟨s, -, rfl⟩ := List.mem_map.1 hname
    rfl
  rw [hwhole]
  rfl

/-- The search for a cycle fails on nothing if something can be looked up under every name. -/
theorem cycleOfNames_of_listsTexts {prerequisites : Prerequisites Name}
    (h : prerequisites.ListsTexts) (hkeys : ∀ key ∈ prerequisites.keys, key.isComposite = false) :
    cycleOfNames prerequisites = .ok prerequisites.cycle? := by
  have hrequired : ∀ name other, prerequisites.Requires name other → other.isComposite = false := by
    intro name other hother
    obtain ⟨s, rfl⟩ := h.exists_text hother
    rfl
  have hfinished : prerequisites.explore.finished.any Name.isComposite = false :=
    List.any_eq_false.2 fun name hname =>
      Bool.eq_false_iff.1 (Prerequisites.explore_finished hrequired hkeys name hname)
  rw [cycleOfNames, followed_of_listsTexts h]
  simp only [hfinished, Bool.false_eq_true, if_false]
  rfl

/-- A table of ranks that are numbers ranks every name that has an entry. -/
theorem cover_of_names {uses : FirstUses} {names : List String}
    (h : uses.map Prod.fst = names.map .text) : uses.ranks.Cover names := by
  intro name hname
  have hmem : Name.text name ∈ uses.map Prod.fst := h ▸ List.mem_map_of_mem hname
  obtain ⟨use, huse, hkey⟩ := List.mem_map.1 hmem
  cases hlookup : uses.ranks.lookup (.text name) with
  | none =>
    have hother : (Name.text name != use.1) = true :=
      List.lookup_eq_none_iff.1 hlookup _ (List.mem_map_of_mem huse)
    rw [hkey, bne, BEq.rfl] at hother
    exact absurd hother Bool.false_ne_true
  | some rank =>
    obtain ⟨entry, hentry, rfl⟩ := exists_mem_of_lookup hlookup
    obtain ⟨size, hsize, -⟩ := comparable_ranks uses entry hentry
    exact ⟨entry.2, rfl, by rw [hsize]; rfl⟩

/-- Without a cycle as many passes as there are names are enough, whatever value allows them. -/
theorem reconcileRanked_of_acyclic {names : List String} (hnodup : names.Nodup) {ranks : Ranks}
    (hranks : ranks.Cover names) {prerequisites : Prerequisites String}
    (hacyclic : prerequisites.Acyclic) (hnonempty : names ≠ []) {maxPasses : Json} {limit : Nat}
    (hlimit : passLimit maxPasses = .ok limit) (hmax : names.length ≤ limit) :
    ∃ settled, reconcileRanked (names.map .text) ranks (prerequisites.rename .text) maxPasses =
      .ok settled := by
  obtain ⟨d, hd, hlength⟩ := exists_longest hacyclic names
  have hpositive : 0 < names.length := List.length_pos_of_ne_nil hnonempty
  have hmax' : (d : Int) + 1 ≤ limit := by omega
  obtain ⟨settled, hsettled, -⟩ := reconcileRanked_returns hnodup hranks hacyclic hd.2 hmax'
  obtain ⟨hcycle, first, limit', result, hfirst, hlimit', hsettle, rfl⟩ :=
    reconcileRanked_eq_ok_iff.1 hsettled
  obtain rfl : limit = limit' := Except.ok.inj hlimit'
  exact ⟨_, reconcileRanked_eq_ok_iff.2 ⟨hcycle, first, limit, result, hfirst, hlimit, hsettle, rfl⟩⟩

theorem initialRanked_ne_unresolvable (names : List Name) (ranks : Ranks) (cause : OrderFault) :
    initialRanked names ranks ≠ .error (.unresolvable cause) := by
  intro h
  rcases bind_eq_error_iff.1 h with h | ⟨keys, -, h⟩
  · obtain ⟨name, -, h⟩ := exists_mem_of_mapM_error h
    rcases bind_eq_error_iff.1 h with h | ⟨_, -, h⟩
    · rw [Ranks.require, Name.usable] at h
      split at h
      · exact absurd h (by simp [bind, Except.bind])
      · simp only [bind, Except.bind] at h
        split at h <;> exact absurd h (by simp)
    · exact absurd h (by simp)
  · split at h
    · exact absurd h (by simp)
    · split at h <;> exact absurd h (by simp)

/-- Passes that do not settle are reported of texts only. -/
theorem exists_texts_of_settleRanked {names : List Name} {ranks : Ranks}
    {prerequisites : Prerequisites Name} {maxPasses : Json} {cause : OrderFault}
    (h : settleRanked names ranks prerequisites maxPasses = .error (.unresolvable cause)) :
    ∃ ss : List String, names = ss.map .text := by
  rcases bind_eq_error_iff.1 h with h | ⟨start, hstart, h⟩
  · exact absurd h (initialRanked_ne_unresolvable names ranks cause)
  rcases bind_eq_error_iff.1 h with h | ⟨first, hfirst, -⟩
  · obtain ⟨name, -, h⟩ := exists_mem_of_mapM_error h
    cases name <;> exact absurd h (by simp [Name.toText])
  · obtain rfl := Name.texts_eq_ok_iff.1 hfirst
    obtain ⟨ss, hss, -⟩ := exists_texts_of_perm (initialRanked_perm hstart).symm
    exact ⟨ss, hss⟩

end Order

/-! ### References between declarations -/

namespace Collection

/-- The initializer of one declaration refers to another one. -/
def Refers (collection : Collection) (a b : String) : Prop :=
  a ≠ b ∧ ∃ declaration ∈ collection, declaration.name = .text a ∧
    .ok (.str b) ∈ declaration.initializer.references

/-- A simple cycle of references: each name on the path is that of a declaration that refers to the
next one, the last name is the first one, and no other occurs twice. -/
structure IsCycle (collection : Collection) (path : List String) : Prop where
  chain : path.IsChain collection.Refers
  closed : path.head? = path.getLast?
  nodup : path.dropLast.Nodup
  three_le : 3 ≤ path.length

theorem mem_of_mem_eraseDups {α : Type} [BEq α] (items : List α) {item : α}
    (h : item ∈ items.eraseDups) : item ∈ items := by
  match items, h with
  | first :: rest, h =>
    rw [List.eraseDups_cons] at h
    rcases List.mem_cons.1 h with rfl | h
    · exact List.mem_cons_self ..
    · exact List.mem_cons_of_mem _ (List.mem_of_mem_filter (mem_of_mem_eraseDups _ h))
termination_by items.length
decreasing_by exact Nat.lt_succ_of_le (List.length_filter_le _ _)

/-- What is listed as a prerequisite of a declaration is a name that its initializer yields, and not
its own. -/
theorem refers_of_prerequisitesOf {tracked others : List Name} {declaration : Declaration}
    (h : prerequisitesOf tracked declaration = .ok others) {s : String}
    (hs : .text s ∈ others) : .ok (.str s) ∈ declaration.initializer.references ∧
      declaration.name ≠ .text s := by
  obtain ⟨names, hnames, h⟩ := bind_eq_ok_iff.1 h
  obtain ⟨_, -, h⟩ := bind_eq_ok_iff.1 h
  obtain rfl := Except.ok.inj h
  obtain ⟨hmem, hkept⟩ := List.mem_filter.1 (mem_of_mem_eraseDups _ hs)
  obtain ⟨reference, hreference, hname⟩ := exists_mem_of_mapM_result hnames hmem
  constructor
  · cases reference with
    | error fault => exact absurd hname (by simp [Except.bind])
    | ok value =>
      obtain rfl : value = .str s := by
        cases value <;> simp_all [Except.bind, Name.ofJson, Name.ofValue, Name.usable,
          Name.isComposite]
      exact hreference
  · intro heq
    rw [heq, Bool.and_eq_true, Name.same, BEq.rfl] at hkept
    exact absurd hkept.2 Bool.false_ne_true

/-- Requirements between texts are references between declarations. -/
theorem refers_of_requires {collection : Collection} {prerequisites : Prerequisites Name}
    (hcollection : collection.WellFormed) (h : collection.prerequisites = .ok prerequisites)
    {a b : String} (hrequires : prerequisites.Requires (.text a) (.text b)) :
    collection.Refers a b := by
  have hkey : prerequisites.keys.contains (.text a) = true := by
    by_contra hnone
    rw [Bool.not_eq_true] at hnone
    rw [Prerequisites.Requires, Prerequisites.before_eq_nil_of_not_contains hnone] at hrequires
    exact absurd hrequires List.not_mem_nil
  rw [keys_prerequisites h] at hkey
  obtain ⟨name, hname, heq⟩ := List.contains_iff_exists_mem_beq.1 hkey
  obtain rfl := Name.eq_text_of_beq (PartialEquivBEq.symm heq)
  obtain ⟨declaration, hmem, hdeclared⟩ := List.mem_map.1 hname
  have hbefore := before_name hcollection h hmem
  rw [hdeclared] at hbefore
  obtain ⟨hreference, hne⟩ := refers_of_prerequisitesOf hbefore hrequires
  rw [hdeclared] at hne
  exact ⟨fun hab => hne (congrArg Name.text hab), declaration, hmem, hdeclared, hreference⟩

/-- A cycle of requirements is one of references. -/
theorem isCycle_of_requires {collection : Collection} {prerequisites : Prerequisites Name}
    (hcollection : collection.WellFormed) (h : collection.prerequisites = .ok prerequisites)
    {path : List String} (hcycle : prerequisites.IsCycle (path.map .text)) :
    collection.IsCycle path := by
  have hchain : path.IsChain collection.Refers :=
    List.isChain_of_isChain_map Name.text (fun _ _ => refers_of_requires hcollection h) hcycle.chain
  have hclosed : path.head? = path.getLast? := by
    have hends := hcycle.closed
    rw [List.head?_map, List.getLast?_map] at hends
    exact Option.map_injective (fun _ _ heq => Name.text.inj heq) hends
  refine ⟨hchain, hclosed, ?_, ?_⟩
  · have hnodup := hcycle.nodup
    rw [← List.map_dropLast] at hnodup
    exact List.Nodup.of_map _ hnodup
  · have htwo := hcycle.two_le
    rw [List.length_map] at htwo
    match path, htwo with
    | [first, second], _ =>
      -- A path of one step would lead from a name to itself.
      have hne := (List.isChain_cons_cons.1 hchain).1.1
      exact absurd (Option.some.inj hclosed) hne
    | _ :: _ :: _ :: _, _ => simp

/-- Something can be looked up under the name of every declaration. -/
theorem isComposite_name {markers body : List Json} {collection : Collection}
    (h : ofStatements markers body = .ok collection) :
    ∀ name ∈ collection.names, name.isComposite = false := by
  have hrun : ∀ found : Collection, (∀ name ∈ found.names, name.isComposite = false) →
      body.foldlM (extend markers) found = .ok collection →
        ∀ name ∈ collection.names, name.isComposite = false := by
    clear h
    induction body with
    | nil => exact fun found hfound h => Except.ok.inj h ▸ hfound
    | cons statement body ih =>
      intro found hfound h
      rw [List.foldlM_cons] at h
      obtain ⟨next, hnext, h⟩ := bind_eq_ok_iff.1 h
      refine ih next ?_ h
      rcases extend_cases hnext with rfl | ⟨declaration, hdeclares, -, -, rfl⟩
      · exact hfound
      · obtain ⟨value, -, hname⟩ := hdeclares.named
        rw [names_concat]
        refine List.forall_mem_append.2 ⟨hfound, List.forall_mem_singleton.2 ?_⟩
        rw [Name.ofJson, Name.usable] at hname
        split at hname
        · exact absurd hname (by simp)
        · rename_i husable
          rw [← Except.ok.inj hname]
          exact Bool.eq_false_iff.2 husable
  exact hrun [] (fun _ h => absurd h List.not_mem_nil) h

end Collection

/-- First uses are listed for the names of the collection, in their order. -/
theorem FirstUses.names_of_find {strategy : UsageStrategy} {body : List Json} {text : Text}
    {collection : Collection} {uses : FirstUses}
    (h : find strategy body text collection = .ok uses) : uses.map Prod.fst = collection.names := by
  unfold find at h
  cases strategy with
  | text =>
    obtain ⟨found, hfound, h⟩ := bind_eq_ok_iff.1 h
    obtain ⟨_, -, h⟩ := bind_eq_ok_iff.1 h
    obtain rfl := Except.ok.inj h
    obtain rfl := Except.ok.inj hfound
    simp [textual, Function.comp_def]
  | structural =>
    obtain ⟨found, hfound, h⟩ := bind_eq_ok_iff.1 h
    obtain ⟨_, -, h⟩ := bind_eq_ok_iff.1 h
    obtain rfl := Except.ok.inj h
    obtain ⟨_, -, hfound⟩ := bind_eq_ok_iff.1 hfound
    obtain rfl := Except.ok.inj hfound
    simp [Function.comp_def]

namespace Rule

variable {rule : Rule} {strategy : UsageStrategy} {source : Source} {collection : Collection}
  {prerequisites : Prerequisites Name} {uses : FirstUses}

/-! ### A cycle -/

/-- What is reported of a cycle: the path itself, at the earliest declaration on it, and no fix. -/
structure ReportsCycle (text : Text) (collection : Collection) (path : List String)
    (diagnostic : Diagnostic) : Prop where
  cycle : collection.IsCycle path
  earliest : ∃ first ∈ collection, first.name ∈ path.map Name.text ∧
    (∀ declaration ∈ collection, declaration.name ∈ path.map Name.text →
      first.position ≤ declaration.position) ∧
    diagnostic.name = first.name ∧ diagnostic.anchor = first.anchor
  located : ∃ range, diagnostic.anchor.range = .ok range ∧
    diagnostic.position = text.position range.start
  message : diagnostic.message =
    "Unresolvable ordering of styled declarations: " ++ " -> ".intercalate path
  fix : diagnostic.fix = none

theorem Analysed.listsTexts (h : rule.Analysed strategy source collection prerequisites uses) :
    prerequisites.ListsTexts := by
  intro entry hentry
  obtain ⟨declaration, -, hentry⟩ := exists_mem_of_mapM_result h.extracted hentry
  obtain ⟨others, hothers, hentry⟩ := bind_eq_ok_iff.1 hentry
  obtain rfl := Except.ok.inj hentry
  exact Collection.prerequisitesOf_texts hothers

theorem Analysed.cycleOfNames_eq (h : rule.Analysed strategy source collection prerequisites uses) :
    Order.cycleOfNames prerequisites = .ok prerequisites.cycle? := by
  obtain ⟨markers, -, hcollection⟩ := h.collected
  refine Order.cycleOfNames_of_listsTexts h.listsTexts ?_
  rw [Collection.keys_prerequisites h.extracted]
  exact Collection.isComposite_name hcollection

/-- A cycle is reported at the first declaration on it. -/
theorem firstConcerned_of_mem (h : collection.WellFormed) {path : List String}
    {declaration : Declaration} (hmem : declaration ∈ collection)
    (hpath : declaration.name ∈ path.map Name.text) :
    ∃ first ∈ collection, firstConcerned collection path = some first ∧
      first.name ∈ path.map Name.text ∧ ∀ other ∈ collection,
        other.name ∈ path.map Name.text → first.position ≤ other.position := by
  have hconcerned : ∀ other : Declaration,
      (path.any fun name => other.name == .text name) = true ↔ other.name ∈ path.map Name.text := by
    intro other
    rw [List.any_eq_true, List.mem_map]
    constructor
    · rintro ⟨s, hs, heq⟩
      exact ⟨s, hs, (Name.eq_text_of_beq heq).symm⟩
    · rintro ⟨s, hs, heq⟩
      exact ⟨s, hs, heq ▸ BEq.rfl⟩
  obtain ⟨first, hfirst⟩ : ∃ first,
      (collection.find? fun other => path.any fun name => other.name == .text name) =
        some first := by
    rw [← Option.isSome_iff_exists, List.find?_isSome]
    exact ⟨declaration, hmem, (hconcerned declaration).2 hpath⟩
  obtain ⟨hon, front, back, hsplit, hfront⟩ := List.find?_eq_some_iff_append.1 hfirst
  have hinvolved : ¬ (collection.filter fun other =>
      path.any fun name => other.name == .text name).isEmpty = true := by
    rw [List.isEmpty_iff, ← List.head?_eq_none_iff, List.head?_filter, hfirst]
    exact Option.some_ne_none first
  refine ⟨first, List.mem_of_find?_eq_some hfirst, ?_, (hconcerned first).1 hon,
    fun other hother hpath => ?_⟩
  · rw [firstConcerned]
    simp only [hinvolved, Bool.false_eq_true, if_false]
    rw [List.head?_filter, hfirst]
  · -- Whatever stands in front of the first one is not on the path.
    have hpositions := h.pairwise_position
    rw [hsplit] at hother hpositions
    rcases List.mem_append.1 hother with hother | hother
    · have hoff := hfront other hother
      rw [(hconcerned other).2 hpath] at hoff
      exact absurd hoff Bool.false_ne_true
    · rcases List.mem_cons.1 hother with rfl | hother
      · exact Nat.le_refl _
      · have hback := (List.pairwise_append.1 hpositions).2.1
        exact Nat.le_of_lt (List.rel_of_pairwise_cons hback hother)

/-- **A cycle is reported once.**  The only diagnostic has no fix, stands at the earliest
declaration on a simple cycle of references and lists that cycle. -/
theorem Analysed.check_of_cyclic (h : rule.Analysed strategy source collection prerequisites uses)
    (hranged : ∀ declaration ∈ collection, ∃ range, declaration.anchor.range = .ok range)
    (hcyclic : ¬ prerequisites.Acyclic) :
    ∃ path diagnostic, rule.check strategy source = .ok [diagnostic] ∧
      ReportsCycle source.text collection path diagnostic := by
  have hlists := h.listsTexts
  obtain ⟨names, hnames⟩ : ∃ names, prerequisites.cycle? = some names := by
    rw [← hlists.cycle?_eq_none_iff] at hcyclic
    exact Option.ne_none_iff_exists'.1 hcyclic
  have hrequired := hlists.cycle?_isCycle hnames
  obtain ⟨path, rfl⟩ := hlists.exists_texts_of_isCycle hrequired
  have hcycle := Collection.isCycle_of_requires h.wellFormed h.extracted hrequired
  -- The path has a first step, and the declaration that takes it is on the path.
  obtain ⟨declaration, hmem, hpath, hnonempty⟩ : ∃ declaration ∈ collection,
      declaration.name ∈ path.map Name.text ∧ path.isEmpty = false := by
    match path, hcycle.three_le, hcycle.chain with
    | a :: b :: rest, _, hchain =>
      obtain ⟨-, declaration, hmem, hname, -⟩ := (List.isChain_cons_cons.1 hchain).1
      exact ⟨declaration, hmem, hname ▸ List.mem_cons_self .., rfl⟩
  obtain ⟨first, hfirst, hconcerned, hon, hleast⟩ := firstConcerned_of_mem h.wellFormed hmem hpath
  obtain ⟨range, hrange⟩ := hranged first hfirst
  have hreconcile : Order.reconcileRanked collection.names uses.ranks prerequisites
      rule.maxPasses = .error (.unresolvable (.cycle path)) := by
    have htexts : Name.texts (path.map .text) = .ok path := Name.texts_eq_ok_iff.2 rfl
    rw [Order.reconcileRanked, Order.refuseCycle, h.cycleOfNames_eq, hnames]
    simp only [bind, Except.bind, htexts]
  refine ⟨path, { name := first.name
                  anchor := first.anchor
                  message := "Unresolvable ordering of styled declarations: " ++
                    " -> ".intercalate path
                  position := source.text.position range.start }, ?_, ?_⟩
  · rw [h.check_eq, hreconcile]
    simp only [unresolvable, OrderFault.path, hconcerned, hnonempty, Bool.false_eq_true, if_false,
      Option.map_some, Option.toList_some]
    refine mapM_cons_eq_ok_iff.2 ⟨_, [], ?_, rfl, rfl⟩
    simp only [Diagnostic.locate, Diagnostic.offset, hrange, bind, Except.bind]
  · exact ⟨hcycle, ⟨first, hfirst, hon, hleast, rfl, rfl⟩, ⟨range, hrange, rfl⟩, rfl, rfl⟩

/-- Diagnostics without a fix leave the text as it is. -/
theorem applyFixes_of_fix_eq_none (text : Text) {diagnostics : List Diagnostic}
    (h : ∀ diagnostic ∈ diagnostics, diagnostic.fix = none) :
    applyFixes text diagnostics = (text, []) := by
  have hnone : (diagnostics.filterMap fun diagnostic =>
      diagnostic.fix.map (Fixable.mk diagnostic)) = [] :=
    List.filterMap_eq_nil_iff.2 fun diagnostic hmem => by rw [h diagnostic hmem, Option.map_none]
  rw [applyFixes, Fixable.accepted, Fixable.sorted, hnone, List.mergeSort_nil]
  rfl

/-! ### No cycle -/

theorem Analysed.reconciled_of_acyclic
    (h : rule.Analysed strategy source collection prerequisites uses) {limit : Nat}
    (hlimit : Order.passLimit rule.maxPasses = .ok limit) (hmax : collection.length ≤ limit)
    (hacyclic : prerequisites.Acyclic) {names : List String}
    (hnames : collection.names = names.map .text) :
    ∃ settled, Order.reconcileRanked collection.names uses.ranks prerequisites rule.maxPasses =
      .ok settled := by
  obtain ⟨entries, rfl⟩ := h.exists_texts hnames
  have hnodup : names.Nodup := by
    have := h.wellFormed.nodup_names
    rw [hnames] at this
    exact List.Nodup.of_map _ this
  have hlength : names.length = collection.length := by
    have := congrArg List.length hnames
    simpa [Collection.names] using this.symm
  have hacyclic' : entries.Acyclic := by
    rw [← Prerequisites.cycle?_eq_none_iff, ← Option.map_eq_none_iff (f := List.map Name.text),
      ← Prerequisites.cycle?_rename keepsApart_text]
    exact h.listsTexts.cycle?_eq_none_iff.2 hacyclic
  have hcover : uses.ranks.Cover names :=
    Order.cover_of_names ((FirstUses.names_of_find h.ranked).trans hnames)
  have hnonempty : names ≠ [] := by
    rintro rfl
    have := h.two_le
    simp at hlength
    omega
  rw [hnames]
  exact Order.reconcileRanked_of_acyclic hnodup hcover hacyclic' hnonempty hlimit
    (hlength ▸ hmax)

/-- **Without a cycle every diagnostic has a fix.** -/
theorem Analysed.fix_of_acyclic (h : rule.Analysed strategy source collection prerequisites uses)
    {limit : Nat} (hlimit : Order.passLimit rule.maxPasses = .ok limit)
    (hmax : collection.length ≤ limit) (hacyclic : prerequisites.Acyclic)
    {diagnostics : List Diagnostic} (hcheck : rule.check strategy source = .ok diagnostics) :
    ∀ diagnostic ∈ diagnostics, diagnostic.fix.isSome = true := by
  intro diagnostic hmem
  cases hreconcile : Order.reconcileRanked collection.names uses.ranks prerequisites
      rule.maxPasses with
  | ok settled =>
    rw [h.check_of_settled hreconcile] at hcheck
    obtain ⟨reported, hreported, hlocated⟩ := bind_eq_ok_iff.1 hcheck
    obtain ⟨found, hfound, -, -, hfix⟩ := exists_mem_of_located hlocated hmem
    obtain ⟨pair, -, hpair⟩ := exists_mem_of_mapM_result hreported hfound
    obtain ⟨separator, -, hpair⟩ := bind_eq_ok_iff.1 hpair
    rw [← hfix, ← Except.ok.inj hpair]
    rfl
  | error fault =>
    rw [h.check_eq, hreconcile] at hcheck
    cases fault with
    | unresolvable cause =>
      -- Nothing is refused for a cycle, and passes that do not settle are those of texts.
      exfalso
      rcases bind_eq_error_iff.1 hreconcile with hrefused | ⟨-, -, hunsettled⟩
      · rw [Order.refuseCycle, h.cycleOfNames_eq, h.listsTexts.cycle?_eq_none_iff.2 hacyclic]
          at hrefused
        exact absurd hrefused (by simp [bind, Except.bind])
      · obtain ⟨names, hnames⟩ := Order.exists_texts_of_settleRanked hunsettled
        obtain ⟨settled, hsettled⟩ := h.reconciled_of_acyclic hlimit hmax hacyclic hnames
        exact absurd (hreconcile.symm.trans hsettled) (by simp)
    | _ => exact absurd hcheck (by simp)

theorem mem_of_mem_displacedPairs {order : List Name} {pair : Declaration × Declaration}
    (h : pair ∈ displacedPairs (order.filterMap collection.named?)) : pair.2 ∈ collection := by
  have hpair := List.mem_of_mem_filter h
  have hmem := List.mem_of_mem_drop (List.of_mem_zip hpair).2
  obtain ⟨name, -, hname⟩ := List.mem_filterMap.1 hmem
  exact List.mem_of_find?_eq_some hname

/-- A separator that is a text is all that is needed to report what is displaced. -/
theorem displaced_returns {separator : String} (hseparator : rule.separator = .str separator)
    (text : Text) (order : List Name) :
    ∃ reported, displaced text rule.separator collection order = .ok reported := by
  refine exists_mapM_of_forall fun pair _ => ?_
  rw [misplaced, hseparator]
  exact ⟨_, rfl⟩

/-- What is displaced is reported at a declaration. -/
theorem anchor_of_displaced {text : Text} {separator : Json} {order : List Name}
    {reported : List Diagnostic} (h : displaced text separator collection order = .ok reported)
    {diagnostic : Diagnostic} (hmem : diagnostic ∈ reported) :
    ∃ declaration ∈ collection, diagnostic.anchor = declaration.anchor := by
  obtain ⟨pair, hpair, hmisplaced⟩ := exists_mem_of_mapM_result h hmem
  obtain ⟨_, -, hmisplaced⟩ := bind_eq_ok_iff.1 hmisplaced
  obtain rfl := Except.ok.inj hmisplaced
  exact ⟨pair.2, mem_of_mem_displacedPairs hpair, rfl⟩

/-- Without a cycle a check of declarations with texts for names succeeds. -/
theorem Analysed.check_returns (h : rule.Analysed strategy source collection prerequisites uses)
    (hranged : ∀ declaration ∈ collection, ∃ range, declaration.anchor.range = .ok range)
    {limit : Nat} (hlimit : Order.passLimit rule.maxPasses = .ok limit)
    (hmax : collection.length ≤ limit) (hacyclic : prerequisites.Acyclic) {separator : String}
    (hseparator : rule.separator = .str separator) {names : List String}
    (hnames : collection.names = names.map .text) :
    ∃ diagnostics, rule.check strategy source = .ok diagnostics := by
  obtain ⟨settled, hsettled⟩ := h.reconciled_of_acyclic hlimit hmax hacyclic hnames
  rw [h.check_of_settled hsettled]
  obtain ⟨reported, hreported⟩ := displaced_returns hseparator source.text settled.order
  have hlocated : ∀ diagnostic ∈ reported,
      ∃ located, diagnostic.locate source.text = .ok located := by
    intro diagnostic hmem
    obtain ⟨declaration, hdeclaration, hanchor⟩ := anchor_of_displaced hreported hmem
    obtain ⟨range, hrange⟩ := hranged declaration hdeclaration
    rw [Diagnostic.locate, Diagnostic.offset, hanchor]
    simp only [hrange]
    exact ⟨_, rfl⟩
  obtain ⟨diagnostics, hdiagnostics⟩ := exists_mapM_of_forall hlocated
  exact ⟨diagnostics, bind_eq_ok_iff.2 ⟨reported, hreported, hdiagnostics⟩⟩

/-- **Only a cycle of references cannot be resolved.**  Let at least two declarations be collected
and ranked, all with a place for their identifiers, and let there be as many passes as declarations.
If what they refer to has a cycle, a check reports exactly one problem, at the earliest declaration
on a simple cycle of references that the message lists, and the text stays as it is.  If it has
none, every reported problem has a fix. -/
theorem check_unresolvable (h : rule.Analysed strategy source collection prerequisites uses)
    (hranged : ∀ declaration ∈ collection, ∃ range, declaration.anchor.range = .ok range)
    {limit : Nat} (hlimit : Order.passLimit rule.maxPasses = .ok limit)
    (hmax : collection.length ≤ limit) :
    (¬ prerequisites.Acyclic → ∃ path diagnostic,
      rule.check strategy source = .ok [diagnostic] ∧
        ReportsCycle source.text collection path diagnostic ∧
        applyFixes source.text [diagnostic] = (source.text, [])) ∧
      (prerequisites.Acyclic →
        (∀ diagnostics, rule.check strategy source = .ok diagnostics →
          ∀ diagnostic ∈ diagnostics, diagnostic.fix.isSome = true) ∧
        ∀ (separator : String) (names : List String), rule.separator = .str separator →
          collection.names = names.map .text →
            ∃ diagnostics, rule.check strategy source = .ok diagnostics) := by
  refine ⟨fun hcyclic => ?_, fun hacyclic => ⟨fun diagnostics hcheck => ?_,
    fun separator names hseparator hnames => ?_⟩⟩
  · obtain ⟨path, diagnostic, hcheck, hreports⟩ := h.check_of_cyclic hranged hcyclic
    exact ⟨path, diagnostic, hcheck, hreports, applyFixes_of_fix_eq_none source.text
      (List.forall_mem_singleton.2 hreports.fix)⟩
  · exact h.fix_of_acyclic hlimit hmax hacyclic hcheck
  · exact h.check_returns hranged hlimit hmax hacyclic hseparator hnames

/-! ### Two declarations that refer to each other -/

/-- A statement that is an element with the tag `Title`, whose opening has some more members. -/
def titleElement (range : Range) (members : List (String × Json)) : Json :=
  .obj [("type", .str "ExpressionStatement"), ("range", .arr [.int range.start, .int range.stop]),
    ("expression", .obj [("type", .str "JSXElement"),
      ("openingElement", .obj ([("type", .str "JSXOpeningElement"),
        ("name", .obj [("type", .str "JSXIdentifier"), ("name", .str "Title")])] ++ members))])]

/-- Two declarations that refer to each other, and a use of the first one. -/
def titleAndWrapperCrossed (members : List (String × Json)) : Source where
  path := none
  text := "const Title = css`${Wrapper}`;\nconst Wrapper = css`${Title}`;\n<Title />;\n".toList
  body := [cssStatement "Title" ⟨0, 30⟩ ["Wrapper"], cssStatement "Wrapper" ⟨31, 61⟩ ["Title"],
    titleElement ⟨62, 72⟩ members]

/-- Its declarations. -/
def crossedDeclarations : Collection :=
  [cssDeclaration "Title" 0 ⟨0, 30⟩ ["Wrapper"], cssDeclaration "Wrapper" 1 ⟨31, 61⟩ ["Title"]]

/-- What they refer to. -/
def crossedPrerequisites : Prerequisites Name :=
  Prerequisites.rename .text [("Title", ["Wrapper"]), ("Wrapper", ["Title"])]

theorem crossedPrerequisites_not_acyclic : ¬ crossedPrerequisites.Acyclic := by
  intro h
  have hTitle : crossedPrerequisites.Requires (.text "Title") (.text "Wrapper") :=
    List.mem_singleton.2 rfl
  have hWrapper : crossedPrerequisites.Requires (.text "Wrapper") (.text "Title") :=
    List.mem_singleton.2 rfl
  exact h (.text "Title") (.tail (.single hTitle) hWrapper)

theorem crossedDeclarations_ranged :
    ∀ declaration ∈ crossedDeclarations, ∃ range, declaration.anchor.range = .ok range :=
  List.forall_mem_cons.2 ⟨⟨⟨6, 11⟩, rfl⟩, List.forall_mem_singleton.2 ⟨⟨37, 44⟩, rfl⟩⟩

/-- The cycle is reported at the title. -/
theorem check_unresolvable_titleAndWrapperCrossed :
    ∃ uses, default.Analysed .structural
        (titleAndWrapperCrossed [("range", .arr [.int 62, .int 71])])
        crossedDeclarations crossedPrerequisites uses ∧
      Order.passLimit default.maxPasses = .ok 1000 ∧ ¬ crossedPrerequisites.Acyclic ∧
      ∃ path diagnostic,
        default.check .structural (titleAndWrapperCrossed [("range", .arr [.int 62, .int 71])]) =
          .ok [diagnostic] ∧
        ReportsCycle (titleAndWrapperCrossed [("range", .arr [.int 62, .int 71])]).text
          crossedDeclarations path diagnostic := by
  have h : default.Analysed .structural
      (titleAndWrapperCrossed [("range", .arr [.int 62, .int 71])])
      crossedDeclarations crossedPrerequisites
      [(.text "Title", some 62), (.text "Wrapper", none)] :=
    ⟨⟨Styled.defaultMarkers.map Json.str, rfl, rfl⟩, by decide, rfl, by cbv⟩
  obtain ⟨path, diagnostic, hcheck, hreports, -⟩ := (check_unresolvable h
    crossedDeclarations_ranged rfl (by decide)).1 crossedPrerequisites_not_acyclic
  exact ⟨_, h, rfl, crossedPrerequisites_not_acyclic, path, diagnostic, hcheck, hreports⟩

/-- Where the element has no place of its own, ranking fails before a cycle is looked for. -/
theorem check_titleAndWrapperCrossed_unranked :
    Collection.ofStatements (Styled.defaultMarkers.map Json.str)
        (titleAndWrapperCrossed []).body = .ok crossedDeclarations ∧
      2 ≤ crossedDeclarations.length ∧
      (∀ declaration ∈ crossedDeclarations, ∃ range, declaration.anchor.range = .ok range) ∧
      crossedDeclarations.prerequisites = .ok crossedPrerequisites ∧
      ¬ crossedPrerequisites.Acyclic ∧
      Order.passLimit default.maxPasses = .ok 1000 ∧ crossedDeclarations.length ≤ 1000 ∧
      ¬ ∃ diagnostic, default.check .structural (titleAndWrapperCrossed []) = .ok [diagnostic] := by
  have hfault : default.check .structural (titleAndWrapperCrossed []) =
      .error (.tree (.noRange (.str "JSXOpeningElement"))) := by cbv
  refine ⟨rfl, by decide, crossedDeclarations_ranged, rfl, crossedPrerequisites_not_acyclic, rfl,
    by decide, ?_⟩
  rintro ⟨diagnostic, hcheck⟩
  exact absurd (hfault.symm.trans hcheck) (by simp)

end Rule
end UsageOrder
