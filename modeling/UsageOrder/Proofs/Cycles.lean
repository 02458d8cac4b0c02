import Mathlib
import UsageOrder.Order.Prerequisites

/-!
# The search for a cycle finds one exactly when there is one

A name requires the names among its prerequisites, and the prerequisites have a cycle when some name
requires itself, directly or through others.  The search keeps two things in step: the names on the
trail form a path, each one required by the one below it, and the finished names are *grounded*,
which means that each of them requires only names that were finished before it.

| statement | what it says |
|---|---|
| `wellFounded_step` | the search takes no more than finitely many steps |
| `search_spec` | a search ends in a simple cycle, or finishes every name of its trail |
| `cycle?_isCycle` | a reported path is a simple cycle of actual requirements |
| `cycle?_eq_none_iff` | nothing is reported exactly when there is no cycle |
-/

namespace UsageOrder
namespace Prerequisites

variable {α : Type} [BEq α] {prerequisites : Prerequisites α}

/-- A name requires another one that has to come before it. -/
def Requires (prerequisites : Prerequisites α) (name other : α) : Prop :=
  other ∈ prerequisites.before name

/-- No name requires itself, be it through other names. -/
def Acyclic (prerequisites : Prerequisites α) : Prop :=
  ∀ name, ¬ Relation.TransGen prerequisites.Requires name name

/-- A simple cycle: a path of requirements back to the name it starts from, on which no other name
occurs twice. -/
structure IsCycle (prerequisites : Prerequisites α) (path : List α) : Prop where
  chain : path.IsChain prerequisites.Requires
  closed : path.head? = path.getLast?
  nodup : path.dropLast.Nodup
  two_le : 2 ≤ path.length

/-- Names each of which requires only names further back in the list. -/
def Grounded (prerequisites : Prerequisites α) : List α → Prop
  | [] => True
  | name :: names => (∀ other, prerequisites.Requires name other → other ∈ names) ∧
      Grounded prerequisites names

/-- Every name that a step of the trail requires is still to be followed, finished, or the name of
the step above it. -/
def Accounted (prerequisites : Prerequisites α) (finished : List α) : Option α → Trail α → Prop
  | _, [] => True
  | above, (name, later) :: trail =>
    (∀ other, prerequisites.Requires name other →
      other ∈ later ∨ other ∈ finished ∨ above = some other) ∧
      Accounted prerequisites finished (some name) trail

/-- What holds of the finished names and of the trail throughout a search. -/
structure Searching (prerequisites : Prerequisites α) (finished : List α) (trail : Trail α) :
    Prop where
  grounded : prerequisites.Grounded finished
  accounted : prerequisites.Accounted finished none trail
  /-- Each name on the trail is required by the one below it. -/
  path : (onTrail trail).IsChain fun name below => prerequisites.Requires below name
  nodup : (onTrail trail).Nodup
  /-- What is still to be followed is required. -/
  required : ∀ step ∈ trail, ∀ other ∈ step.2, prerequisites.Requires step.1 other

/-! ### Finished names -/

theorem Grounded.acc {names : List α} (h : prerequisites.Grounded names) :
    ∀ name ∈ names, Acc (fun a b => prerequisites.Requires b a) name := by
  induction names with
  | nil => exact fun _ hname => absurd hname List.not_mem_nil
  | cons first names ih =>
    intro name hname
    rcases List.mem_cons.1 hname with rfl | hname
    · exact Acc.intro _ fun other hother => ih h.2 other (h.1 other hother)
    · exact ih h.2 name hname

theorem Accounted.mono {finished finished' : List α} {above : Option α} {trail : Trail α}
    (h : prerequisites.Accounted finished above trail) (hsub : finished ⊆ finished') :
    prerequisites.Accounted finished' above trail := by
  induction trail generalizing above with
  | nil => trivial
  | cons step trail ih =>
    refine ⟨fun other hother => ?_, ih h.2⟩
    rcases h.1 other hother with hlater | hfin | habove
    · exact Or.inl hlater
    · exact Or.inr (Or.inl (hsub hfin))
    · exact Or.inr (Or.inr habove)

/-- A name above the trail that is finished need no longer be kept in mind. -/
theorem Accounted.drop_above {finished : List α} {name : α} {trail : Trail α}
    (h : prerequisites.Accounted finished (some name) trail) (hname : name ∈ finished) :
    prerequisites.Accounted finished none trail := by
  cases trail with
  | nil => trivial
  | cons step trail =>
    refine ⟨fun other hother => ?_, h.2⟩
    rcases h.1 other hother with hlater | hfin | habove
    · exact Or.inl hlater
    · exact Or.inr (Or.inl hfin)
    · exact Or.inr (Or.inl (Option.some.inj habove ▸ hname))

/-! ### The steps of a search -/

/-- A step whose prerequisites are all followed is finished. -/
theorem Searching.finish {finished : List α} {name : α} {trail : Trail α}
    (h : prerequisites.Searching finished ((name, []) :: trail)) :
    prerequisites.Searching (name :: finished) trail := by
  obtain ⟨hown, hbelow⟩ := h.accounted
  have hfin : ∀ other, prerequisites.Requires name other → other ∈ finished := by
    intro other hother
    rcases hown other hother with hlater | hfin | habove
    · exact absurd hlater List.not_mem_nil
    · exact hfin
    · exact absurd habove (Option.some_ne_none other).symm
  exact {
    grounded := ⟨hfin, h.grounded⟩
    accounted := (hbelow.mono (List.subset_cons_self name finished)).drop_above
      (List.mem_cons_self ..)
    path := h.path.tail
    nodup := (List.nodup_cons.1 h.nodup).2
    required := fun step hstep => h.required step (List.mem_cons_of_mem _ hstep) }

/-- A prerequisite that is finished is passed over. -/
theorem Searching.skip {finished : List α} {name next : α} {later : List α} {trail : Trail α}
    (h : prerequisites.Searching finished ((name, next :: later) :: trail))
    (hnext : next ∈ finished) : prerequisites.Searching finished ((name, later) :: trail) := by
  obtain ⟨hown, hbelow⟩ := h.accounted
  refine { grounded := h.grounded, accounted := ⟨fun other hother => ?_, hbelow⟩,
           path := h.path, nodup := h.nodup, required := fun step hstep other hother => ?_ }
  · rcases hown other hother with hlater | hrest
    · rcases List.mem_cons.1 hlater with rfl | hlater
      · exact Or.inr (Or.inl hnext)
      · exact Or.inl hlater
    · exact Or.inr hrest
  · rcases List.mem_cons.1 hstep with rfl | hstep
    · exact h.required _ (List.mem_cons_self ..) other (List.mem_cons_of_mem _ hother)
    · exact h.required step (List.mem_cons_of_mem _ hstep) other hother

/-- A new prerequisite is put on the trail. -/
theorem Searching.push {finished : List α} {name next : α} {later : List α} {trail : Trail α}
    (h : prerequisites.Searching finished ((name, next :: later) :: trail))
    (hnext : next ∉ onTrail ((name, later) :: trail)) :
    prerequisites.Searching finished
      ((next, prerequisites.before next) :: (name, later) :: trail) := by
  obtain ⟨hown, hbelow⟩ := h.accounted
  have hreq : prerequisites.Requires name next :=
    h.required (name, next :: later) (List.mem_cons_self ..) next (List.mem_cons_self ..)
  refine { grounded := h.grounded
           accounted := ⟨fun other hother => Or.inl hother, fun other hother => ?_, hbelow⟩
           path := List.IsChain.cons_cons hreq h.path
           nodup := List.nodup_cons.2 ⟨hnext, h.nodup⟩
           required := fun step hstep other hother => ?_ }
  · rcases hown other hother with hlater | hfin | habove
    · rcases List.mem_cons.1 hlater with rfl | hlater
      · exact Or.inr (Or.inr rfl)
      · exact Or.inl hlater
    · exact Or.inr (Or.inl hfin)
    · exact absurd habove (Option.some_ne_none other).symm
  · rcases List.mem_cons.1 hstep with rfl | hstep
    · exact hother
    rcases List.mem_cons.1 hstep with rfl | hstep
    · exact h.required (name, next :: later) (List.mem_cons_self ..) other
        (List.mem_cons_of_mem _ hother)
    · exact h.required step (List.mem_cons_of_mem _ hstep) other hother

/-! ### The search ends -/

/-- One step of a search, from the finished names and the trail to those after it. -/
inductive Step (prerequisites : Prerequisites α) : List α × Trail α → List α × Trail α → Prop
  | finish {finished : List α} {name : α} {trail : Trail α} :
      Step prerequisites (finished, (name, []) :: trail) (name :: finished, trail)
  | skip {finished : List α} {name next : α} {later : List α} {trail : Trail α}
      (free : (onTrail ((name, later) :: trail)).contains next = false)
      (done : finished.contains next = true) :
      Step prerequisites (finished, (name, next :: later) :: trail)
        (finished, (name, later) :: trail)
  | push {finished : List α} {name next : α} {later : List α} {trail : Trail α}
      (free : (onTrail ((name, later) :: trail)).contains next = false)
      (new : finished.contains next = false) :
      Step prerequisites (finished, (name, next :: later) :: trail)
        (finished, (next, prerequisites.before next) :: (name, later) :: trail)

/-- What a search leads to does not change by a step of it. -/
theorem search_of_step [EquivBEq α] {finished finished' : List α} {trail trail' : Trail α}
    (h : prerequisites.Step (finished, trail) (finished', trail')) :
    prerequisites.search finished trail = prerequisites.search finished' trail' := by
  cases h with
  | finish => rw [search]
  | skip free done => rw [search, if_neg (by simp [free]), if_pos done]
  | push free new => rw [search, if_neg (by simp [free]), if_neg (by simp [new])]

/-- **No search goes on forever:** each step leaves fewer names unseen, or as many and less to be
followed. -/
theorem wellFounded_step [EquivBEq α] (prerequisites : Prerequisites α) :
    WellFounded fun after before => prerequisites.Step before after := by
  refine Subrelation.wf ?_ (InvImage.wf
    (fun state : List α × Trail α => (prerequisites.unseen state.1 state.2, remaining state.2))
    (Nat.lt_wfRel.wf.prod_lex Nat.lt_wfRel.wf))
  intro after before hstep
  cases hstep with
  | @finish finished name trail =>
    refine Prod.lex_def.2 (Or.inr ⟨unseen_finish prerequisites finished name trail, ?_⟩)
    change remaining trail < remaining ((name, []) :: trail)
    rw [remaining_cons]
    omega
  | @skip finished name next later trail free done =>
    refine Prod.lex_def.2 (Or.inr ⟨unseen_advance prerequisites finished name _ _ trail, ?_⟩)
    change remaining ((name, later) :: trail) < remaining ((name, next :: later) :: trail)
    simp only [remaining_cons, List.length_cons]
    omega
  | @push finished name next later trail free new =>
    have hle := unseen_push_le prerequisites finished (next, prerequisites.before next)
      ((name, later) :: trail)
    rcases Nat.lt_or_eq_of_le hle with hlt | heq
    · exact Prod.lex_def.2 (Or.inl hlt)
    · refine Prod.lex_def.2 (Or.inr ⟨heq, ?_⟩)
      -- A name that was not unseen has no entry, so there is nothing to be followed from it.
      have hkey : prerequisites.keys.contains next = false := by
        rw [Bool.eq_false_iff]
        exact fun hkey => Nat.ne_of_lt (unseen_push_lt _ hkey new free) heq
      change remaining ((next, prerequisites.before next) :: (name, later) :: trail) <
        remaining ((name, next :: later) :: trail)
      simp only [before_eq_nil_of_not_contains hkey, remaining_cons, List.length_cons,
        List.length_nil]
      omega

/-! ### What a search leads to -/

variable [LawfulBEq α]

/-- A trail that runs into one of its own names holds a simple cycle. -/
theorem Searching.loop_isCycle {finished : List α} {name next : α} {later : List α}
    {trail : Trail α} (h : prerequisites.Searching finished ((name, next :: later) :: trail))
    (hnext : next ∈ onTrail ((name, later) :: trail)) :
    prerequisites.IsCycle (loop next ((name, later) :: trail)) := by
  have hreq : prerequisites.Requires name next :=
    h.required (name, next :: later) (List.mem_cons_self ..) next (List.mem_cons_self ..)
  -- The trail from its first name on, cut in front of the name that it runs into.
  obtain ⟨front, back, hsplit⟩ := List.append_of_mem (List.mem_reverse.2 hnext)
  have hnodup : (onTrail ((name, later) :: trail)).reverse.Nodup := List.nodup_reverse.2 h.nodup
  have hchain : (onTrail ((name, later) :: trail)).reverse.IsChain prerequisites.Requires :=
    List.isChain_reverse.2 h.path
  have hlast : (onTrail ((name, later) :: trail)).reverse.getLast? = some name := by
    simp [onTrail]
  rw [hsplit] at hnodup hchain hlast
  have hfront : ∀ other ∈ front, (!(other == next)) = true := by
    intro other hother
    have hne : other ≠ next := fun heq => (List.nodup_append.1 hnodup).2.2 other hother next
      (List.mem_cons_self ..) heq
    simpa using hne
  have hloop : loop next ((name, later) :: trail) = next :: back ++ [next] := by
    rw [loop, hsplit, List.dropWhile_append_of_pos hfront]
    simp
  have hlast' : (next :: back).getLast? = some name := by
    rw [List.getLast?_append] at hlast
    simpa using hlast
  rw [hloop]
  exact {
    chain := List.isChain_append.2 ⟨(List.isChain_append.1 hchain).2.1, List.isChain_singleton _,
      fun last hl first hf => by
        obtain rfl : name = last := Option.some.inj (hlast'.symm.trans hl)
        obtain rfl : next = first := by simpa using hf
        exact hreq⟩
    closed := by rw [List.getLast?_concat]; rfl
    nodup := by rw [List.dropLast_concat]; exact (List.nodup_append.1 hnodup).2.1
    two_le := by simp }

/-- **What a search leads to.**  It either runs into a simple cycle, or finishes all names of its
trail, and the finished names stay grounded. -/
theorem search_spec (finished : List α) (trail : Trail α)
    (h : prerequisites.Searching finished trail) :
    (∀ path, (prerequisites.search finished trail).cycle = some path →
      prerequisites.IsCycle path) ∧
      ((prerequisites.search finished trail).cycle = none →
        prerequisites.Grounded (prerequisites.search finished trail).finished ∧
          finished ⊆ (prerequisites.search finished trail).finished ∧
          onTrail trail ⊆ (prerequisites.search finished trail).finished) := by
  induction finished, trail using search.induct prerequisites with
  | case1 finished =>
    rw [search]
    exact ⟨fun path hpath => absurd hpath (by simp),
      fun _ => ⟨h.grounded, List.Subset.refl _, List.nil_subset _⟩⟩
  | case2 finished name trail ih =>
    rw [search]
    obtain ⟨hcycle, hnone⟩ := ih h.finish
    refine ⟨hcycle, fun hn => ?_⟩
    obtain ⟨hground, hfin, htrail⟩ := hnone hn
    exact ⟨hground, List.Subset.trans (List.subset_cons_self name finished) hfin,
      List.cons_subset.2 ⟨hfin (List.mem_cons_self ..), htrail⟩⟩
  | case3 finished name next later trail hon =>
    rw [search, if_pos hon]
    refine ⟨fun path hpath => ?_, fun hn => absurd hn (by simp)⟩
    obtain rfl := Option.some.inj hpath
    exact h.loop_isCycle (List.contains_iff_mem.1 hon)
  | case4 finished name next later trail hon hfin ih =>
    rw [search, if_neg hon, if_pos hfin]
    exact ih (h.skip (List.contains_iff_mem.1 hfin))
  | case5 finished name next later trail hon hfin ih =>
    rw [search, if_neg hon, if_neg hfin]
    obtain ⟨hcycle, hnone⟩ := ih (h.push fun hmem => hon (List.contains_iff_mem.2 hmem))
    refine ⟨hcycle, fun hn => ?_⟩
    obtain ⟨hground, hsub, htrail⟩ := hnone hn
    exact ⟨hground, hsub, List.Subset.trans (List.subset_cons_self next _) htrail⟩

omit [LawfulBEq α] in
theorem Searching.start {finished : List α} (h : prerequisites.Grounded finished) (name : α) :
    prerequisites.Searching finished [(name, prerequisites.before name)] where
  grounded := h
  accounted := ⟨fun _ hother => Or.inl hother, trivial⟩
  path := List.isChain_singleton _
  nodup := List.nodup_singleton _
  required step hstep other hother := by
    obtain rfl := List.mem_singleton.1 hstep
    exact hother

/-- The searches from several names, one after the other. -/
theorem searchFrom_spec (names finished : List α) (h : prerequisites.Grounded finished) :
    (∀ path, (prerequisites.searchFrom finished names).cycle = some path →
      prerequisites.IsCycle path) ∧
      ((prerequisites.searchFrom finished names).cycle = none →
        prerequisites.Grounded (prerequisites.searchFrom finished names).finished ∧
          finished ⊆ (prerequisites.searchFrom finished names).finished ∧
          names ⊆ (prerequisites.searchFrom finished names).finished) := by
  induction names generalizing finished with
  | nil =>
    exact ⟨fun path hpath => absurd hpath (by simp [searchFrom]),
      fun _ => ⟨h, List.Subset.refl _, List.nil_subset _⟩⟩
  | cons name names ih =>
    rw [searchFrom]
    split
    · rename_i hname
      obtain ⟨hcycle, hnone⟩ := ih finished h
      refine ⟨hcycle, fun hn => ?_⟩
      obtain ⟨hground, hsub, hnames⟩ := hnone hn
      exact ⟨hground, hsub,
        List.cons_subset.2 ⟨hsub (List.contains_iff_mem.1 hname), hnames⟩⟩
    · obtain ⟨hcycle, hnone⟩ := search_spec _ _ (Searching.start h name)
      split
      · rename_i path finished' hsearch
        rw [hsearch] at hcycle
        exact ⟨hcycle, fun hn => absurd hn (by simp)⟩
      · rename_i finished' hsearch
        rw [hsearch] at hnone
        obtain ⟨hground, hsub, htrail⟩ := hnone rfl
        obtain ⟨hcycle', hnone'⟩ := ih finished' hground
        refine ⟨hcycle', fun hn => ?_⟩
        obtain ⟨hground', hsub', hnames'⟩ := hnone' hn
        exact ⟨hground', List.Subset.trans hsub hsub',
          List.cons_subset.2 ⟨hsub' (htrail (List.mem_cons_self ..)), hnames'⟩⟩

/-- **A reported path is a simple cycle** of actual requirements. -/
theorem cycle?_isCycle {path : List α} (h : prerequisites.cycle? = some path) :
    prerequisites.IsCycle path :=
  (searchFrom_spec prerequisites.keys [] trivial).1 path h

omit [LawfulBEq α] in
theorem Acyclic.of_wellFounded
    (h : WellFounded fun a b => prerequisites.Requires b a) : prerequisites.Acyclic := by
  intro name hname
  have hirrefl := h.transGen.irrefl.irrefl name
  exact hirrefl (Relation.transGen_swap.1 hname)

omit [LawfulBEq α] in
theorem IsCycle.not_acyclic {path : List α} (h : prerequisites.IsCycle path) :
    ¬ prerequisites.Acyclic := by
  obtain ⟨hchain, hclosed, -, htwo⟩ := h
  match path, htwo with
  | first :: second :: rest, _ =>
    intro hacyclic
    have hlast : (first :: second :: rest).getLast (List.cons_ne_nil _ _) = first := by
      rw [List.getLast?_eq_some_getLast (List.cons_ne_nil _ _)] at hclosed
      exact (Option.some.inj hclosed).symm
    have hstep := (List.isChain_cons_cons.1 hchain).1
    have hrest : Relation.ReflTransGen prerequisites.Requires second first :=
      List.relationReflTransGen_of_exists_isChain_cons rest (List.isChain_cons_cons.1 hchain).2
        (by rwa [List.getLast_cons_cons] at hlast)
    exact hacyclic first (Relation.TransGen.head' hstep hrest)

/-- If the search ends without a cycle, requirements lead nowhere forever. -/
theorem wellFounded_of_cycle?_eq_none (h : prerequisites.cycle? = none) :
    WellFounded fun a b => prerequisites.Requires b a := by
  obtain ⟨hground, -, hkeys⟩ := (searchFrom_spec prerequisites.keys [] trivial).2 h
  refine ⟨fun name => ?_⟩
  by_cases hkey : prerequisites.keys.contains name = true
  · exact hground.acc name (hkeys (List.contains_iff_mem.1 hkey))
  · have hnil := before_eq_nil_of_not_contains (Bool.not_eq_true _ ▸ hkey)
    refine Acc.intro _ fun other hother => ?_
    rw [Requires, hnil] at hother
    exact absurd hother List.not_mem_nil

/-- **No cycle is reported exactly when there is none.** -/
theorem cycle?_eq_none_iff : prerequisites.cycle? = none ↔ prerequisites.Acyclic := by
  constructor
  · intro h
    exact Acyclic.of_wellFounded (wellFounded_of_cycle?_eq_none h)
  · intro h
    cases hpath : prerequisites.cycle? with
    | none => rfl
    | some path => exact absurd h (cycle?_isCycle hpath).not_acyclic

/-- **The search for a cycle ends, and it reports exactly the cycles:** nothing if no name requires
itself, be it through other names, and otherwise a path of requirements from a name back to it, of
one step at least, on which no other name occurs twice. -/
theorem reports_cycles (prerequisites : Prerequisites α) :
    (WellFounded fun after before => prerequisites.Step before after) ∧
      (prerequisites.cycle? = none ↔ prerequisites.Acyclic) ∧
        ∀ path, prerequisites.cycle? = some path → prerequisites.IsCycle path :=
  ⟨wellFounded_step prerequisites, cycle?_eq_none_iff, fun _ => cycle?_isCycle⟩

/-- A cycle of three names beside names without an entry, one of them listed twice. -/
theorem reports_cycles_longer :
    Prerequisites.cycle? [("A", ["E", "E"]), ("B", ["A", "D"]), ("C", ["B"]), ("D", ["C"])] =
        some ["B", "D", "C", "B"] ∧
      IsCycle [("A", ["E", "E"]), ("B", ["A", "D"]), ("C", ["B"]), ("D", ["C"])]
        ["B", "D", "C", "B"] := by
  have hcycle : Prerequisites.cycle?
      [("A", ["E", "E"]), ("B", ["A", "D"]), ("C", ["B"]), ("D", ["C"])] =
        some ["B", "D", "C", "B"] := by cbv
  exact ⟨hcycle, (reports_cycles _).2.2 _ hcycle⟩

end Prerequisites
end UsageOrder
