import UsageOrder.Proofs.Check
import UsageOrder.Proofs.Parts
import UsageOrder.Proofs.Ranking

/-!
# Putting the desired order in order again

Names that already stand in the desired order need not come out in it again.  The ranks order names
of equal rank as they are given, and a pass may have turned these around: two names that both have
to be moved behind a third one are moved one after the other, so the first of them ends up last
(`reconcileRanked_turns`).

What does not depend on how ties were broken comes out again.  Suppose that up to some place of the
desired order names of equal rank stand as they were given, and that from there on all goes by rank
(`KeepsTies`).  The names up to that place require none behind it, so they settle by themselves, and
they start from the same order as before (`initial_append`).  Those behind it are never moved
(`settle_again`).
-/

namespace UsageOrder
namespace Order

/-- Up to some place names of equal rank stand as they were given, and from there on all goes by
rank. -/
def KeepsTies {α : Type} (names : List α) (rank : α → Rank) (order : List α) : Prop :=
  ∃ front back, order = front ++ back ∧
    (∀ a ∈ front, ∀ b ∈ front, (rank a).le (rank b) = true → (rank b).le (rank a) = true →
      Precedes names a b → Precedes front a b) ∧
    (∀ a ∈ front, ∀ b ∈ back, (rank a).le (rank b) = true) ∧
    back.Pairwise fun a b => (rank a).le (rank b) = true

section Again

variable {α : Type} [BEq α] [LawfulBEq α] {prerequisites : Prerequisites α}

theorem filter_contains_append {front back : List α} (hnodup : (front ++ back).Nodup) :
    (front ++ back).filter front.contains = front := by
  have hback : back.filter front.contains = [] := by
    rw [List.filter_eq_nil_iff]
    intro name hname hfront
    exact List.disjoint_of_nodup_append hnodup (List.contains_iff_mem.1 hfront) hname
  have hfront : front.filter front.contains = front :=
    List.filter_eq_self.2 fun name hname => List.contains_iff_mem.2 hname
  rw [List.filter_append, hback, hfront, List.append_nil]

/-- **The order that the second run starts from:** the first names as the first run started with
them, and the last ones as they stand. -/
theorem initial_append {rank : α → Rank} (h : Ranked rank) {names front back : List α}
    (hnodup : names.Nodup) (hperm : (front ++ back).Perm names)
    (hties : ∀ a ∈ front, ∀ b ∈ front, (rank a).le (rank b) = true →
      (rank b).le (rank a) = true → Precedes names a b → Precedes front a b)
    (hlow : ∀ a ∈ front, ∀ b ∈ back, (rank a).le (rank b) = true)
    (hsorted : back.Pairwise fun a b => (rank a).le (rank b) = true) :
    initial (front ++ back) rank = (initial names rank).filter front.contains ++ back := by
  have hnodup' := hperm.nodup_iff.2 hnodup
  have hpart : ((initial names rank).filter front.contains).Perm front := by
    have hfilter := ((initial_perm names rank).trans hperm.symm).filter front.contains
    rwa [filter_contains_append hnodup'] at hfilter
  have hagain := initial_perm (front ++ back) rank
  refine (eq_of_precedes ((hpart.append_right back).trans hagain.symm)
    (hagain.nodup_iff.2 hnodup') fun a b hab => ?_).symm
  have hmem : ∀ {name}, name ∈ (initial names rank).filter front.contains ++ back →
      name ∈ front ++ back := fun hname => (hpart.append_right back).mem_iff.1 hname
  rw [precedes_initial_iff h hnodup' (hmem hab.mem_left) (hmem hab.mem_right)]
  rcases precedes_append_iff.1 hab with hab | ⟨ha, hb⟩ | hab
  · have ha := hpart.mem_iff.1 hab.mem_left
    have hb := hpart.mem_iff.1 hab.mem_right
    have hfirst : Precedes (initial names rank) a b := hab.trans List.filter_sublist
    obtain ⟨hle, htied⟩ := (precedes_initial_iff h hnodup
      (hperm.mem_iff.1 (List.mem_append_left back ha))
      (hperm.mem_iff.1 (List.mem_append_left back hb))).1 hfirst
    exact ⟨hle, fun hge => precedes_append_iff.2 (Or.inl (hties a ha b hb hle hge (htied hge)))⟩
  · have ha := hpart.mem_iff.1 ha
    exact ⟨hlow a ha b hb, fun _ => precedes_append_iff.2 (Or.inr (Or.inl ⟨ha, hb⟩))⟩
  · exact ⟨List.pairwise_iff_forall_sublist.1 hsorted hab,
      fun _ => precedes_append_iff.2 (Or.inr (Or.inr hab))⟩

/-- **The second run ends in the same order,** in no more passes. -/
theorem settle_again {first front back : List α} {left : Nat} {settled : Settled α}
    (hnodup : first.Nodup) (hwf : WellFounded fun a b => prerequisites.Requires b a)
    (h : settle prerequisites left 0 first = some settled)
    (horder : settled.order = front ++ back) :
    ∃ passes ≤ settled.passes,
      settle prerequisites left 0 (first.filter front.contains ++ back) =
        some ⟨settled.order, passes⟩ := by
  obtain ⟨hperm, -⟩ := settle_sound hnodup h
  have hsat : ∀ name ∈ front ++ back, Satisfied prerequisites (front ++ back) name := by
    rw [← horder]
    exact fun name hname => settle_satisfied hnodup hwf h hname
  have hnodup' : (front ++ back).Nodup := horder ▸ hperm.nodup_iff.2 hnodup
  rw [horder] at hperm
  -- A name up to the place requires none behind it, for those have to stand before it.
  have hfront : ∀ name ∈ front, ∀ other ∈ prerequisites.before name, other ∉ back := by
    intro name hname other hother hback
    have hprecedes := hsat name (List.mem_append_left back hname) other hother
      (List.mem_append_right front hback)
    exact hprecedes.asymm hnodup' (precedes_append_iff.2 (Or.inr (Or.inl ⟨hname, hback⟩)))
  have hclosed : ClosedIn prerequisites front.contains first := by
    intro name hname hkept other hother hmem
    have hmem' := hperm.mem_iff.2 hmem
    rw [List.contains_iff_mem] at hkept ⊢
    exact (List.mem_append.1 hmem').resolve_right (hfront name hkept other hother)
  obtain ⟨passes, hpasses, hpart⟩ := settle_filter hclosed hnodup h
  rw [horder, filter_contains_append hnodup'] at hpart
  have hpartPerm : (first.filter front.contains).Perm front := by
    have hfilter := hperm.symm.filter front.contains
    rwa [filter_contains_append hnodup'] at hfilter
  refine ⟨passes, hpasses, ?_⟩
  rw [horder]
  refine settle_append ((hpartPerm.append_right back).nodup_iff.2 hnodup')
    (fun name hname => hfront name (hpartPerm.mem_iff.1 hname)) (fun name hname => ?_) hpart
  exact (hsat name (List.mem_append_right front hname)).of_perm_front hpartPerm hnodup' hname

end Again

/-! ### Runs over other tables -/

theorem comparable_ranks (uses : FirstUses) : uses.ranks.Comparable := by
  intro entry hentry
  obtain ⟨⟨name, use⟩, -, rfl⟩ := List.mem_map.1 hentry
  cases use with
  | none => exact ⟨.infinite false, rfl, by simp⟩
  | some offset => exact ⟨.finite offset, rfl, by simp⟩

/-- A run depends on the ranks of the names and on what each of them requires, not on the tables
that hold these. -/
theorem reconcileRanked_congr {names : List String} (hnodup : names.Nodup) {ranks ranks' : Ranks}
    (hcover : ranks.Cover names) (hranks : ranks.Comparable) (hranks' : ranks'.Comparable)
    (hlookup : ∀ name ∈ names, ranks'.lookup (.text name) = ranks.lookup (.text name))
    {prerequisites prerequisites' : Prerequisites String} (hacyclic : prerequisites'.Acyclic)
    (hbefore : ∀ name ∈ names, prerequisites'.before name = prerequisites.before name)
    {maxPasses : Json} {settled : Settled Name}
    (h : reconcileRanked (names.map .text) ranks (prerequisites.rename .text) maxPasses =
      .ok settled) :
    reconcileRanked (names.map .text) ranks' (prerequisites'.rename .text) maxPasses =
      .ok settled := by
  have hcover' : ranks'.Cover names := by
    intro name hname
    rw [hlookup name hname]
    exact hcover name hname
  have hinitial : initial names ranks.ofText = initial names ranks'.ofText := by
    refine initial_congr fun name hname => ?_
    rw [Ranks.ofText, Ranks.ofText, Ranks.of, Ranks.of, hlookup name hname]
  obtain ⟨-, first, limit, result, hfirst, hlimit, hsettle, rfl⟩ := reconcileRanked_eq_ok_iff.1 h
  rw [initialRanked_texts hcover hranks, hinitial] at hfirst
  have hfirst' := Except.ok.inj hfirst
  obtain rfl := (List.map_inj_right fun _ _ heq => Name.text.inj heq).1 hfirst'
  have hperm := initial_perm names ranks'.ofText
  refine reconcileRanked_eq_ok_iff.2 ⟨Prerequisites.cycle?_eq_none_iff.2 hacyclic, _, limit, result,
    initialRanked_texts hcover' hranks', hlimit, ?_, rfl⟩
  rw [← hsettle]
  refine settle_congr (hperm.nodup_iff.2 hnodup) (fun name hname other => ?_) limit 0
  rw [hbefore name (hperm.mem_iff.1 hname)]

/-- A run over the desired order gives that order again, if it keeps ties. -/
theorem reconcileRanked_again {names : List String} (hnodup : names.Nodup) {ranks : Ranks}
    (hcover : ranks.Cover names) (hranks : ranks.Comparable)
    {prerequisites : Prerequisites String} {maxPasses : Json} {order : List String} {passes : Nat}
    (h : reconcileRanked (names.map .text) ranks (prerequisites.rename .text) maxPasses =
      .ok ⟨order.map .text, passes⟩)
    (hties : KeepsTies names ranks.ofText order) :
    ∃ passes' ≤ passes, reconcileRanked (order.map .text) ranks (prerequisites.rename .text)
      maxPasses = .ok ⟨order.map .text, passes'⟩ := by
  obtain ⟨hcycle, first, limit, result, hfirst, hlimit, hsettle, hresult⟩ :=
    reconcileRanked_eq_ok_iff.1 h
  rw [renameSettled, Settled.mk.injEq] at hresult
  obtain ⟨horder, rfl⟩ := hresult
  obtain rfl := (List.map_inj_right fun _ _ heq => Name.text.inj heq).1 horder
  rw [initialRanked_texts hcover hranks] at hfirst
  obtain rfl := (List.map_inj_right fun _ _ heq => Name.text.inj heq).1 (Except.ok.inj hfirst)
  have hnodup' : (initial names ranks.ofText).Nodup := (initial_perm names _).nodup_iff.2 hnodup
  have hperm := (settle_sound hnodup' hsettle).1.trans (initial_perm names _)
  obtain ⟨front, back, hsplit, hequal, hlow, hsorted⟩ := hties
  obtain ⟨passes', hpasses, hagain⟩ := settle_again hnodup'
    (Prerequisites.wellFounded_of_cycle?_eq_none hcycle) hsettle hsplit
  have hcover' : ranks.Cover result.order := fun name hname => hcover name (hperm.mem_iff.1 hname)
  have hstart : initial result.order ranks.ofText =
      (initial names ranks.ofText).filter front.contains ++ back := by
    rw [hsplit] at hperm ⊢
    exact initial_append (ranked_ofText hranks) hnodup hperm hequal hlow hsorted
  refine ⟨passes', hpasses, reconcileRanked_eq_ok_iff.2 ⟨hcycle, _, limit,
    ⟨result.order, passes'⟩, initialRanked_texts hcover' hranks, hlimit, ?_, rfl⟩⟩
  rw [hstart, hagain]

end Order

theorem Collection.keys_prerequisites {collection : Collection}
    {prerequisites : Prerequisites Name} (h : collection.prerequisites = .ok prerequisites) :
    prerequisites.keys = collection.names := by
  have hkeys : ∀ (part : Collection) (entries : Prerequisites Name),
      (part.mapM fun declaration => do
        .ok (declaration.name, ← prerequisitesOf collection.names declaration)) = .ok entries →
      entries.keys = part.names := by
    intro part
    induction part with
    | nil =>
      intro entries hentries
      obtain rfl := Except.ok.inj hentries
      rfl
    | cons first part ih =>
      intro entries hentries
      obtain ⟨entry, rest, hentry, hrest, rfl⟩ := mapM_cons_eq_ok_iff.1 hentries
      obtain ⟨others, -, hentry⟩ := bind_eq_ok_iff.1 hentry
      obtain rfl := Except.ok.inj hentry
      exact congrArg (first.name :: ·) (ih rest hrest)
  exact hkeys collection prerequisites h

namespace Order

/-- **The desired order comes out again if it keeps ties.**  If up to some place of it names of
equal rank stand as they were given, and from there on all goes by rank, a run over the desired
order gives the same order in no more passes.  A file whose declarations stand in it, with the same
ranks and the same prerequisites, is clean. -/
theorem reconcileRanked_idempotent {names : List String} (hnodup : names.Nodup) {ranks : Ranks}
    (hcover : ranks.Cover names) (hranks : ranks.Comparable)
    {prerequisites : Prerequisites String} {maxPasses : Json} {order : List String} {passes : Nat}
    (h : reconcileRanked (names.map .text) ranks (prerequisites.rename .text) maxPasses =
      .ok ⟨order.map .text, passes⟩)
    (hties : KeepsTies names ranks.ofText order) :
    (∃ passes' ≤ passes, reconcileRanked (order.map .text) ranks (prerequisites.rename .text)
      maxPasses = .ok ⟨order.map .text, passes'⟩) ∧
      ∀ (rule : Rule) (strategy : UsageStrategy) (source : Source) (collection : Collection)
        (found : Prerequisites Name) (uses : FirstUses),
        rule.Analysed strategy source collection found uses → rule.maxPasses = maxPasses →
        collection.names = order.map .text →
        (∀ name ∈ order, uses.ranks.lookup (.text name) = ranks.lookup (.text name)) →
        (∀ name ∈ order, found.before (.text name) = (prerequisites.before name).map .text) →
        rule.check strategy source = .ok [] := by
  obtain ⟨passes', hpasses, hagain⟩ := reconcileRanked_again hnodup hcover hranks h hties
  refine ⟨⟨passes', hpasses, hagain⟩, ?_⟩
  rintro rule strategy source collection found uses hanalysed rfl hnames hlookup hfound
  obtain ⟨order', horder', hperm, -⟩ := reconcileRanked_satisfied hnodup h
  obtain rfl := (List.map_inj_right fun _ _ heq => Name.text.inj heq).1 horder'
  obtain ⟨entries, rfl⟩ := hanalysed.exists_texts hnames
  have hbefore : ∀ name ∈ order, entries.before name = prerequisites.before name := by
    intro name hname
    have htexts := hfound name hname
    rw [Prerequisites.before_rename keepsApart_text] at htexts
    exact (List.map_inj_right fun _ _ heq => Name.text.inj heq).1 htexts
  have hacyclic : entries.Acyclic := by
    have hkeys := Collection.keys_prerequisites hanalysed.extracted
    rw [Prerequisites.keys_rename, hnames] at hkeys
    have hkeys := (List.map_inj_right fun _ _ heq => Name.text.inj heq).1 hkeys
    -- What the file refers to is among what is required.
    have hsub : ∀ a b, entries.Requires a b → prerequisites.Requires a b := by
      intro a b hab
      by_cases ha : a ∈ order
      · rw [Prerequisites.Requires, ← hbefore a ha]
        exact hab
      · rw [Prerequisites.Requires, Prerequisites.before_eq_nil_of_not_contains] at hab
        · exact absurd hab List.not_mem_nil
        · rw [hkeys, Bool.eq_false_iff]
          exact fun hcontains => ha (List.contains_iff_mem.1 hcontains)
    obtain ⟨hcycle, -⟩ := reconcileRanked_eq_ok_iff.1 h
    exact fun name hname => Prerequisites.cycle?_eq_none_iff.1 hcycle name
      (Relation.TransGen.mono hsub _ _ hname)
  have hcover' : ranks.Cover order := fun name hname => hcover name (hperm.mem_iff.1 hname)
  rw [hanalysed.check_eq_ok_nil_iff, hnames]
  exact ⟨_, reconcileRanked_congr (hperm.nodup_iff.2 hnodup) hcover' hranks (comparable_ranks uses)
    hlookup hacyclic hbefore hagain, rfl⟩

/-- Four declarations in the desired order: a title that refers to a base and is used, and a footer
that refers to a theme and is not. -/
def titleAndFooter : Source where
  path := none
  text := ("const Base = css``;\nconst Title = css`${Base}`;\nconst Theme = css``;\n" ++
    "const Footer = css`${Theme}`;\n<Title>").toList
  body := [Rule.cssStatement "Base" ⟨0, 19⟩ [], Rule.cssStatement "Title" ⟨20, 47⟩ ["Base"],
    Rule.cssStatement "Theme" ⟨48, 68⟩ [], Rule.cssStatement "Footer" ⟨69, 98⟩ ["Theme"]]

set_option maxRecDepth 2000 in
/-- The theme and the footer have been turned around, but what is used stands in front of both. -/
theorem reconcileRanked_idempotent_titleAndFooter :
    ∃ ranks : Ranks, ∃ prerequisites : Prerequisites String,
      ["Title", "Base", "Footer", "Theme"].Nodup ∧
      ranks.Cover ["Title", "Base", "Footer", "Theme"] ∧ ranks.Comparable ∧
      reconcileRanked (["Title", "Base", "Footer", "Theme"].map .text) ranks
        (prerequisites.rename .text) (.int 1000) =
          .ok ⟨["Base", "Title", "Theme", "Footer"].map .text, 2⟩ ∧
      KeepsTies ["Title", "Base", "Footer", "Theme"] ranks.ofText
        ["Base", "Title", "Theme", "Footer"] ∧
      (∃ passes ≤ 2, reconcileRanked (["Base", "Title", "Theme", "Footer"].map .text) ranks
        (prerequisites.rename .text) (.int 1000) =
          .ok ⟨["Base", "Title", "Theme", "Footer"].map .text, passes⟩) ∧
      Rule.default.check .text titleAndFooter = .ok [] := by
  have hcover : Ranks.Cover [(.text "Title", ⟨.int 99⟩), (.text "Base", .infinite),
      (.text "Footer", .infinite), (.text "Theme", .infinite)]
      ["Title", "Base", "Footer", "Theme"] := by decide
  have hranks : Ranks.Comparable [(.text "Title", ⟨.int 99⟩), (.text "Base", .infinite),
      (.text "Footer", .infinite), (.text "Theme", .infinite)] := by decide
  have hrun : reconcileRanked (["Title", "Base", "Footer", "Theme"].map .text)
      [(.text "Title", ⟨.int 99⟩), (.text "Base", .infinite), (.text "Footer", .infinite),
        (.text "Theme", .infinite)]
      (Prerequisites.rename .text [("Title", ["Base"]), ("Base", []), ("Footer", ["Theme"]),
        ("Theme", [])]) (.int 1000) = .ok ⟨["Base", "Title", "Theme", "Footer"].map .text, 2⟩ :=
    reconcileRanked_eq_ok_iff.2 ⟨by cbv, ["Title", "Base", "Footer", "Theme"], 1000,
      ⟨["Base", "Title", "Theme", "Footer"], 2⟩, by cbv, rfl, by decide, rfl⟩
  have hties : KeepsTies ["Title", "Base", "Footer", "Theme"]
      (Ranks.ofText [(.text "Title", ⟨.int 99⟩), (.text "Base", .infinite),
        (.text "Footer", .infinite), (.text "Theme", .infinite)])
      ["Base", "Title", "Theme", "Footer"] := by
    refine ⟨["Base", "Title"], ["Theme", "Footer"], rfl, fun a ha b hb hle hge hab => ?_,
      by decide, by decide⟩
    simp only [List.mem_cons, List.not_mem_nil, or_false] at ha hb
    rcases ha with rfl | rfl <;> rcases hb with rfl | rfl
    · exact absurd rfl (hab.ne (by decide))
    · exact absurd hle (by decide)
    · exact absurd hge (by decide)
    · exact absurd rfl (hab.ne (by decide))
  have hfile : Rule.default.Analysed .text titleAndFooter
      [Rule.cssDeclaration "Base" 0 ⟨0, 19⟩ [], Rule.cssDeclaration "Title" 1 ⟨20, 47⟩ ["Base"],
        Rule.cssDeclaration "Theme" 2 ⟨48, 68⟩ [],
        Rule.cssDeclaration "Footer" 3 ⟨69, 98⟩ ["Theme"]]
      (Prerequisites.rename .text [("Base", []), ("Title", ["Base"]), ("Theme", []),
        ("Footer", ["Theme"])])
      [(.text "Base", none), (.text "Title", some 99), (.text "Theme", none),
        (.text "Footer", none)] :=
    ⟨⟨Styled.defaultMarkers.map Json.str, rfl, rfl⟩, by decide, rfl, rfl⟩
  obtain ⟨hagain, hclean⟩ := reconcileRanked_idempotent (by decide) hcover hranks hrun hties
  refine ⟨_, _, by decide, hcover, hranks, hrun, hties, hagain,
    hclean _ _ _ _ _ _ hfile rfl rfl ?_ ?_⟩
  all_goals
    intro name hname
    simp only [List.mem_cons, List.not_mem_nil, or_false] at hname
    rcases hname with rfl | rfl | rfl | rfl <;> rfl

/-- **The desired order need not come out again.**  A theme that is not used is required by a title
that is used and by a footer that is not, and is declared last.  The title and then the footer are
moved behind it, so the footer stands first of the two; from there only the title is moved. -/
theorem reconcileRanked_turns :
    reconcileRanked (["Title", "Footer", "Theme"].map .text)
        [(.text "Title", ⟨.int 1⟩), (.text "Footer", .infinite), (.text "Theme", .infinite)]
        (Prerequisites.rename .text [("Title", ["Theme"]), ("Footer", ["Theme"]), ("Theme", [])])
        (.int 1000) = .ok ⟨["Theme", "Footer", "Title"].map .text, 2⟩ ∧
      reconcileRanked (["Theme", "Footer", "Title"].map .text)
        [(.text "Title", ⟨.int 1⟩), (.text "Footer", .infinite), (.text "Theme", .infinite)]
        (Prerequisites.rename .text [("Title", ["Theme"]), ("Footer", ["Theme"]), ("Theme", [])])
        (.int 1000) = .ok ⟨["Theme", "Title", "Footer"].map .text, 2⟩ :=
  ⟨reconcileRanked_eq_ok_iff.2 ⟨by cbv, ["Title", "Footer", "Theme"], 1000,
      ⟨["Theme", "Footer", "Title"], 2⟩, by cbv, rfl, by decide, rfl⟩,
    reconcileRanked_eq_ok_iff.2 ⟨by cbv, ["Title", "Theme", "Footer"], 1000,
      ⟨["Theme", "Title", "Footer"], 2⟩, by cbv, rfl, by decide, rfl⟩⟩

end Order
end UsageOrder
