import UsageOrder.Proofs.Collecting
import UsageOrder.Proofs.Reconcile
import UsageOrder.Rule

/-!
# A file is clean exactly when its declarations stand in the desired order

The check compares only neighbours in the desired order, but positions that go up from neighbour to
neighbour go up throughout, and of all arrangements of the declarations only the declared one has
them so (`displacedPairs_eq_nil_iff`, `eq_names_of_displacedPairs`).  As the desired order respects
every prerequisite, a clean file declares each styled declaration after those it refers to
(`Analysed.position_lt_of_clean`).
-/

namespace UsageOrder

/-! ### Positions and names of a collection -/

namespace Collection.WellFormed

variable {collection : Collection}

/-- One declaration stands before another one exactly when its position is less. -/
theorem precedes_iff (h : collection.WellFormed) {a b : Declaration} (ha : a ∈ collection)
    (hb : b ∈ collection) : Order.Precedes collection a b ↔ a.position < b.position := by
  have hforward : ∀ c d : Declaration, Order.Precedes collection c d → c.position < d.position := by
    intro c d hcd
    have hpair : [c, d].Pairwise fun a b => a.position < b.position :=
      h.pairwise_position.sublist hcd
    exact List.rel_of_pairwise_cons hpair (List.mem_singleton_self d)
  refine ⟨hforward a b, fun hlt => ?_⟩
  have hne : a ≠ b := fun heq => absurd hlt (by rw [heq]; exact lt_irrefl _)
  rcases Order.precedes_total ha hb hne with hab | hba
  · exact hab
  · exact absurd (hforward b a hba) (lt_asymm hlt)

theorem nodup_names (h : collection.WellFormed) : collection.names.Nodup :=
  Name.nodup_of_pairwise h.distinct

end Collection.WellFormed

theorem Order.Precedes.map {α β : Type} {order : List α} {a b : α}
    (h : Order.Precedes order a b) (f : α → β) : Order.Precedes (order.map f) (f a) (f b) :=
  List.Sublist.map f h

namespace Rule

/-! ### Neighbours in the desired order -/

theorem displacedPairs_eq_nil_iff {desired : List Declaration} :
    displacedPairs desired = [] ↔ desired.Pairwise fun a b => a.position < b.position := by
  have hneighbours : displacedPairs desired = [] ↔
      desired.IsChain fun a b => a.position < b.position := by
    induction desired with
    | nil => simp [displacedPairs]
    | cons first desired ih =>
      cases desired with
      | nil => simp [displacedPairs]
      | cons second desired =>
        have hpairs : displacedPairs (first :: second :: desired) =
            (if second.position ≤ first.position then [(first, second)] else []) ++
              displacedPairs (second :: desired) := by
          rw [displacedPairs, List.drop_one, List.tail_cons, List.zip_cons_cons, List.filter_cons]
          by_cases hle : second.position ≤ first.position
          · rw [if_pos (decide_eq_true hle), if_pos hle]
            rfl
          · rw [if_neg (by simpa using hle), if_neg hle]
            rfl
        rw [List.isChain_cons_cons, ← ih, hpairs, List.append_eq_nil_iff]
        simp
  rw [hneighbours]
  have htrans : Trans (fun a b : Declaration => a.position < b.position)
      (fun a b : Declaration => a.position < b.position)
      (fun a b : Declaration => a.position < b.position) := ⟨fun h h' => lt_trans h h'⟩
  exact List.isChain_iff_pairwise

/-- An arrangement of all declarations without a displaced one is the declared order. -/
theorem eq_names_of_displacedPairs {collection : Collection} (h : collection.WellFormed)
    {order : List Name} (hperm : order.Perm collection.names)
    (hnone : displacedPairs (order.filterMap collection.named?) = []) :
    order = collection.names := by
  have hdesired := h.filterMap_named?_perm hperm
  have hsame : order.filterMap collection.named? = collection :=
    List.Perm.eq_of_pairwise (fun a b _ _ hab hba => absurd hab (lt_asymm hba))
      (displacedPairs_eq_nil_iff.1 hnone) h.pairwise_position hdesired
  have hnames := h.names_filterMap_named? hperm.subset
  rw [hsame] at hnames
  exact hnames.symm

/-! ### The steps of a check -/

/-- What the first three steps of a check give: at least two declarations, what each of them refers
to, and the first use of each. -/
structure Analysed (rule : Rule) (strategy : UsageStrategy) (source : Source)
    (collection : Collection) (prerequisites : Prerequisites Name) (uses : FirstUses) : Prop where
  collected : ∃ markers, rule.markerNames.items = .ok markers ∧
    Collection.ofStatements markers source.body = .ok collection
  two_le : 2 ≤ collection.length
  extracted : collection.prerequisites = .ok prerequisites
  ranked : FirstUses.find strategy source.body source.text collection = .ok uses

variable {rule : Rule} {strategy : UsageStrategy} {source : Source} {collection : Collection}
  {prerequisites : Prerequisites Name} {uses : FirstUses}

/-- A check that succeeds has collected the declarations, and if it reports anything it has analysed
them. -/
theorem analysed_of_check {diagnostics : List Diagnostic}
    (hcheck : rule.check strategy source = .ok diagnostics) :
    ∃ collection, (∃ markers, rule.markerNames.items = .ok markers ∧
      Collection.ofStatements markers source.body = .ok collection) ∧
      (diagnostics = [] ∨ ∃ prerequisites uses,
        rule.Analysed strategy source collection prerequisites uses) := by
  obtain ⟨findings, hfindings, hlocated⟩ := bind_eq_ok_iff.1 hcheck
  obtain ⟨markers, hmarkers, hfindings⟩ := bind_eq_ok_iff.1 hfindings
  obtain ⟨collection, hcollection, hfindings⟩ := bind_eq_ok_iff.1 hfindings
  refine ⟨collection, ⟨markers, hmarkers, hcollection⟩, ?_⟩
  split at hfindings
  · obtain rfl := Except.ok.inj hfindings
    exact Or.inl (Except.ok.inj hlocated).symm
  · rename_i htwo
    obtain ⟨prerequisites, hprerequisites, hfindings⟩ := bind_eq_ok_iff.1 hfindings
    obtain ⟨uses, huses, -⟩ := bind_eq_ok_iff.1 hfindings
    exact Or.inr ⟨prerequisites, uses, ⟨markers, hmarkers, hcollection⟩, Nat.not_lt.1 htwo,
      hprerequisites, huses⟩

theorem Analysed.wellFormed
    (h : rule.Analysed strategy source collection prerequisites uses) : collection.WellFormed := by
  obtain ⟨markers, -, hcollection⟩ := h.collected
  exact Collection.ofStatements_wellFormed hcollection

/-- What a check reports does not depend on where the file is. -/
theorem check_path (rule : Rule) (strategy : UsageStrategy) (source : Source)
    (path : Option Path) :
    rule.check strategy { source with path := path } = rule.check strategy source := by
  rw [check, check, findings, findings]
  cases rule.markerNames.items with
  | error fault => rfl
  | ok markers =>
    simp only [bind, Except.bind]
    cases Collection.ofStatements markers source.body with
    | error fault => rfl
    | ok collection =>
      dsimp only
      split_ifs
      · rfl
      · cases collection.prerequisites with
        | error fault => rfl
        | ok prerequisites =>
          cases FirstUses.find strategy source.body source.text collection with
          | error fault => rfl
          | ok uses =>
            dsimp only
            cases Order.reconcileRanked collection.names uses.ranks prerequisites
                rule.maxPasses with
            | ok settled => rfl
            | error fault => cases fault <;> rfl

/-- The last step of a check: the displaced declarations, or the one at which an order that cannot
be resolved is reported. -/
theorem Analysed.check_eq (h : rule.Analysed strategy source collection prerequisites uses) :
    rule.check strategy source =
      match Order.reconcileRanked collection.names uses.ranks prerequisites rule.maxPasses with
      | .ok settled =>
        displaced source.text rule.separator collection settled.order >>=
          fun diagnostics => diagnostics.mapM (Diagnostic.locate source.text)
      | .error (.unresolvable cause) =>
        (unresolvable collection cause).mapM (Diagnostic.locate source.text)
      | .error fault => .error fault := by
  obtain ⟨markers, hmarkers, hcollection⟩ := h.collected
  have htwo : ¬ collection.length < 2 := Nat.not_lt.2 h.two_le
  rw [check, findings]
  simp only [bind, Except.bind, hmarkers, hcollection, htwo, if_false, h.extracted, h.ranked]
  cases Order.reconcileRanked collection.names uses.ranks prerequisites rule.maxPasses with
  | ok settled =>
    dsimp only
    cases displaced source.text rule.separator collection settled.order with
    | error fault => rfl
    | ok diagnostics => rfl
  | error fault => cases fault <;> rfl

/-- Where there is a desired order, a check reports what is displaced in it. -/
theorem Analysed.check_of_settled
    (h : rule.Analysed strategy source collection prerequisites uses) {settled : Settled Name}
    (hsettled : Order.reconcileRanked collection.names uses.ranks prerequisites rule.maxPasses =
      .ok settled) :
    rule.check strategy source =
      displaced source.text rule.separator collection settled.order >>=
        fun diagnostics => diagnostics.mapM (Diagnostic.locate source.text) := by
  rw [h.check_eq, hsettled]

theorem displaced_eq_nil_iff {text : Text} {separator : Json} {order : List Name} :
    displaced text separator collection order = .ok [] ↔
      displacedPairs (order.filterMap collection.named?) = [] := by
  rw [displaced, mapM_eq_ok_iff, List.forall₂_nil_right_iff]

theorem unresolvable_ne_nil (hcollection : collection ≠ []) (cause : OrderFault) :
    unresolvable collection cause ≠ [] := by
  have hconcerned : (firstConcerned collection cause.path).isSome = true := by
    unfold firstConcerned
    simp only
    split
    · exact List.isSome_head?.2 hcollection
    · rename_i hinvolved
      exact List.isSome_head?.2 fun hnil => hinvolved (by rw [hnil]; rfl)
  obtain ⟨declaration, hdeclaration⟩ := Option.isSome_iff_exists.1 hconcerned
  simp [unresolvable, hdeclaration]

/-- The prerequisites of a file whose declarations have texts for names are texts. -/
theorem Analysed.exists_texts (h : rule.Analysed strategy source collection prerequisites uses)
    {names : List String} (hnames : collection.names = names.map .text) :
    ∃ entries : Prerequisites String, prerequisites = entries.rename .text := by
  have hrange : prerequisites ∈ Set.range (List.map (Prerequisites.renameEntry Name.text)) := by
    rw [Set.range_list_map]
    intro entry hentry
    obtain ⟨declaration, hmem, hentry⟩ := exists_mem_of_mapM_result h.extracted hentry
    obtain ⟨others, hothers, hentry⟩ := bind_eq_ok_iff.1 hentry
    obtain rfl := Except.ok.inj hentry
    obtain ⟨ss, rfl⟩ := Collection.prerequisitesOf_texts hothers
    have hname : declaration.name ∈ collection.names := List.mem_map_of_mem hmem
    rw [hnames] at hname
    obtain ⟨s, -, hs⟩ := List.mem_map.1 hname
    exact ⟨(s, ss), by rw [Prerequisites.renameEntry, hs]⟩
  obtain ⟨entries, hentries⟩ := hrange
  exact ⟨entries, hentries.symm⟩

/-- The desired order of a file lists its declarations, and a declaration whose name is a
prerequisite of another one stands before it. -/
theorem Analysed.reconciled (h : rule.Analysed strategy source collection prerequisites uses)
    {settled : Settled Name}
    (hsettled : Order.reconcileRanked collection.names uses.ranks prerequisites rule.maxPasses =
      .ok settled) :
    settled.order.Perm collection.names ∧ ∀ name ∈ collection.names,
      ∀ other ∈ prerequisites.before name, other ∈ collection.names →
        Order.Precedes settled.order other name := by
  obtain ⟨names, hnames⟩ := Order.exists_texts_of_reconcileRanked hsettled
  obtain ⟨entries, rfl⟩ := h.exists_texts hnames
  have hnodup : names.Nodup := by
    have := h.wellFormed.nodup_names
    rw [hnames] at this
    exact List.Nodup.of_map _ this
  rw [hnames] at hsettled ⊢
  obtain ⟨order, horder, hperm, hsat⟩ := Order.reconcileRanked_satisfied hnodup hsettled
  rw [horder]
  refine ⟨hperm.map Name.text, fun name hname other hother hmem => ?_⟩
  obtain ⟨s, hs, rfl⟩ := List.mem_map.1 hname
  rw [Prerequisites.before_rename keepsApart_text] at hother
  obtain ⟨t, ht, rfl⟩ := List.mem_map.1 hother
  have htmem : t ∈ names := by
    obtain ⟨u, hu, heq⟩ := List.mem_map.1 hmem
    exact Name.text.inj heq ▸ hu
  exact (hsat s hs t ht (hperm.mem_iff.2 htmem)).map Name.text

theorem mapM_locate_eq_nil_iff {text : Text} {diagnostics : List Diagnostic} :
    diagnostics.mapM (Diagnostic.locate text) = .ok [] ↔ diagnostics = [] := by
  rw [mapM_eq_ok_iff, List.forall₂_nil_right_iff]

/-- **Nothing is reported exactly when the desired order is the declared one.** -/
theorem Analysed.check_eq_ok_nil_iff
    (h : rule.Analysed strategy source collection prerequisites uses) :
    rule.check strategy source = .ok [] ↔ ∃ settled,
      Order.reconcileRanked collection.names uses.ranks prerequisites rule.maxPasses = .ok settled ∧
        settled.order = collection.names := by
  constructor
  · intro hclean
    cases hreconcile : Order.reconcileRanked collection.names uses.ranks prerequisites
        rule.maxPasses with
    | ok settled =>
      rw [h.check_of_settled hreconcile] at hclean
      obtain ⟨diagnostics, hdisplaced, hlocated⟩ := bind_eq_ok_iff.1 hclean
      obtain rfl := mapM_locate_eq_nil_iff.1 hlocated
      exact ⟨settled, rfl, eq_names_of_displacedPairs h.wellFormed (h.reconciled hreconcile).1
        (displaced_eq_nil_iff.1 hdisplaced)⟩
    | error fault =>
      rw [h.check_eq, hreconcile] at hclean
      have hnonempty : collection ≠ [] := by
        have := h.two_le
        rintro rfl
        simp at this
      cases fault with
      | unresolvable cause =>
        exact absurd (mapM_locate_eq_nil_iff.1 hclean) (unresolvable_ne_nil hnonempty cause)
      | _ => exact absurd hclean (by simp)
  · rintro ⟨settled, hsettled, horder⟩
    have hpairs : displacedPairs (settled.order.filterMap collection.named?) = [] := by
      rw [horder, h.wellFormed.filterMap_named?_names]
      exact displacedPairs_eq_nil_iff.2 h.wellFormed.pairwise_position
    rw [h.check_of_settled hsettled]
    exact bind_eq_ok_iff.2 ⟨[], displaced_eq_nil_iff.2 hpairs, rfl⟩

/-- In a clean file a declaration stands after every other one that its initializer refers to. -/
theorem Analysed.position_lt_of_clean
    (h : rule.Analysed strategy source collection prerequisites uses)
    (hclean : rule.check strategy source = .ok []) {referrer referred : Declaration}
    (hreferrer : referrer ∈ collection) (hreferred : referred ∈ collection)
    (hne : referred ≠ referrer) {value : Json}
    (hvalue : .ok value ∈ referrer.initializer.references)
    (hname : Name.ofJson value = .ok referred.name) : referred.position < referrer.position := by
  have hcollection := h.wellFormed
  obtain ⟨settled, hsettled, horder⟩ := h.check_eq_ok_nil_iff.1 hclean
  obtain ⟨names, hnames⟩ := Order.exists_texts_of_reconcileRanked hsettled
  have hmemReferred : referred.name ∈ collection.names := List.mem_map_of_mem hreferred
  have hmemReferrer : referrer.name ∈ collection.names := List.mem_map_of_mem hreferrer
  -- Names are texts here, so names that count as equal are equal.
  obtain ⟨s, -, hs⟩ := List.mem_map.1 (hnames ▸ hmemReferred)
  have hbeq : ∀ other : Name, (other == referred.name) = true → other = referred.name := by
    intro other hother
    rw [← hs] at hother ⊢
    exact Name.eq_text_of_beq hother
  have hsame : referred.name.same referrer.name = false := by
    rw [Name.same, Bool.and_eq_false_iff, Bool.eq_false_iff]
    refine Or.inl fun heq => hne ?_
    have hequal := hbeq referrer.name (PartialEquivBEq.symm heq)
    exact hcollection.eq_of_name_eq hreferred hreferrer hequal.symm
  have hbefore := Collection.before_name hcollection h.extracted hreferrer
  obtain ⟨other, hother, heq⟩ := Collection.exists_mem_prerequisitesOf hbefore hvalue hname
    (List.contains_iff_exists_mem_beq.2 ⟨_, hmemReferred, BEq.rfl⟩) hsame
  rw [hbeq other heq] at hother
  have hprecedes := (h.reconciled hsettled).2 _ hmemReferrer _ hother hmemReferred
  rw [horder] at hprecedes
  rw [← hcollection.precedes_iff hreferred hreferrer]
  rcases Order.precedes_total hreferred hreferrer hne with hfirst | hlast
  · exact hfirst
  · exact absurd hprecedes ((hlast.map Declaration.name).asymm hcollection.nodup_names)

/-- **A file is clean exactly when its declarations stand in the desired order,** and in a clean
file every declaration stands after all other declarations that its initializer refers to. -/
theorem check_clean_iff (h : rule.Analysed strategy source collection prerequisites uses) :
    (rule.check strategy source = .ok [] ↔ ∃ settled,
      Order.reconcileRanked collection.names uses.ranks prerequisites rule.maxPasses = .ok settled ∧
        settled.order = collection.names) ∧
      (rule.check strategy source = .ok [] → ∀ referrer ∈ collection, ∀ referred ∈ collection,
        referred ≠ referrer → ∀ value, .ok value ∈ referrer.initializer.references →
          Name.ofJson value = .ok referred.name → referred.position < referrer.position) :=
  ⟨h.check_eq_ok_nil_iff, fun hclean _ hreferrer _ hreferred hne _ hvalue hname =>
    h.position_lt_of_clean hclean hreferrer hreferred hne hvalue hname⟩

/-! ### A small file -/

/-- An identifier as a parser gives it, at a place in the text. -/
def identifierAt (name : String) (start : Int) : Json :=
  .obj [("type", .str "Identifier"), ("name", .str name),
    ("range", .arr [.int start, .int (start + name.length)])]

/-- A template with the tag `css` that refers to some names. -/
def cssTemplate (start : Int) (references : List String) : Json :=
  .obj [("type", .str "TaggedTemplateExpression"), ("tag", identifierAt "css" start),
    ("quasi", .obj [("type", .str "TemplateLiteral"),
      ("expressions", .arr (references.map fun name => identifierAt name (start + 6)))])]

/-- The statement that declares a name by such a template. -/
def cssStatement (name : String) (range : Range) (references : List String) : Json :=
  .obj [("type", .str "VariableDeclaration"), ("range", .arr [.int range.start, .int range.stop]),
    ("declarations", .arr [.obj [("type", .str "VariableDeclarator"),
      ("id", identifierAt name (range.start + 6)),
      ("init", cssTemplate (range.start + 9 + name.length) references)]])]

/-- The declaration in such a statement. -/
def cssDeclaration (name : String) (position : Nat) (range : Range) (references : List String) :
    Declaration where
  name := .text name
  position := position
  range := range
  initializer := cssTemplate (range.start + 9 + name.length) references
  anchor := identifierAt name (range.start + 6)
  styled := ⟨.taggedTemplate, .text "css"⟩

/-- Two declarations, the second of which refers to the first one and is used first. -/
def titleAndWrapper : Source where
  path := none
  text := "const Title = css``;\nconst Wrapper = css`${Title}`;\n<Wrapper><Title>".toList
  body := [cssStatement "Title" ⟨0, 20⟩ [], cssStatement "Wrapper" ⟨21, 51⟩ ["Title"]]

/-- The wrapper is used first and yet stays behind the title that it refers to. -/
theorem check_clean_titleAndWrapper :
    ∃ collection prerequisites uses,
      default.Analysed .text titleAndWrapper collection prerequisites uses ∧
        default.check .text titleAndWrapper = .ok [] ∧
          ∀ referrer ∈ collection, ∀ referred ∈ collection, referred ≠ referrer →
            ∀ value, .ok value ∈ referrer.initializer.references →
              Name.ofJson value = .ok referred.name → referred.position < referrer.position := by
  have h : default.Analysed .text titleAndWrapper
      [cssDeclaration "Title" 0 ⟨0, 20⟩ [], cssDeclaration "Wrapper" 1 ⟨21, 51⟩ ["Title"]]
      (Prerequisites.rename .text [("Title", []), ("Wrapper", ["Title"])])
      [(.text "Title", some 61), (.text "Wrapper", some 52)] :=
    ⟨⟨Styled.defaultMarkers.map Json.str, rfl, rfl⟩, by decide, rfl, rfl⟩
  have hsettled : Order.reconcileRanked (["Title", "Wrapper"].map .text)
      [(.text "Title", ⟨.int 61⟩), (.text "Wrapper", ⟨.int 52⟩)]
      (Prerequisites.rename .text [("Title", []), ("Wrapper", ["Title"])]) (.int 1000) =
        .ok ⟨["Title", "Wrapper"].map .text, 2⟩ :=
    Order.reconcileRanked_eq_ok_iff.2 ⟨by cbv, ["Wrapper", "Title"], 1000,
      ⟨["Title", "Wrapper"], 2⟩, by cbv, rfl, by decide, rfl⟩
  have hclean := (check_clean_iff h).1.2 ⟨_, hsettled, rfl⟩
  exact ⟨_, _, _, h, hclean, (check_clean_iff h).2 hclean⟩

end Rule
end UsageOrder
