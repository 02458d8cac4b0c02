import UsageOrder.Proofs.Overtaking
import UsageOrder.Proofs.Ranking

/-!
# What becomes of the order of names that are not used

Where ranks are numbers that can be compared, names that are not used come last by rank, in the order
in which they are given (`precedes_initialRanked`).  From there on they may be turned around: two names
that both have to be moved behind a third one are moved one after the other, so the first of them ends
up last (`reconcileRanked_turns_unused`).  Which of two names comes first is decided by the last name
that each of them waits for, itself or a name that it requires, directly or through others; only
names that wait for the same last one may come out either way (`reconcileRanked_unused_iff`).
-/

namespace UsageOrder

namespace Order

/-! ### The order of the ranks -/

/-- No rank that can be compared comes behind that of a name that is not used. -/
theorem le_infinite (rank : Rank) : rank.le .infinite = true := by
  obtain ⟨value⟩ := rank
  cases value with
  | real x => cases x <;> rfl
  | _ => rfl

/-- **A name that is not used stays behind those that are given in front of it,** whatever their
ranks are, if these can be compared. -/
theorem precedes_initialRanked {names first : List String} (hnodup : names.Nodup) {ranks : Ranks}
    (hcover : ranks.Cover names) (hranks : ranks.Comparable)
    (hfirst : initialRanked (names.map .text) ranks = .ok (first.map .text)) {a b : String}
    (hab : Precedes names a b) (hb : ranks.lookup (.text b) = some .infinite) :
    Precedes first a b := by
  have hrank : ranks.ofText b = .infinite := by
    rw [Ranks.ofText, Ranks.of, hb, Option.getD_some]
  rw [initialRanked_texts hcover hranks] at hfirst
  obtain rfl := (List.map_inj_right fun _ _ heq => Name.text.inj heq).1 (Except.ok.inj hfirst)
  refine (precedes_initial_iff (ranked_ofText hranks) hnodup hab.mem_left hab.mem_right).2
    ⟨?_, fun _ => hab⟩
  rw [hrank]
  exact le_infinite _

/-! ### The desired order -/

/-- **When two names that are not used keep their order.**  Of two names the second of which is not
used, the first comes first by rank as well.  Each of them waits for some last name, and if these
differ the two names come out as their last names stand by rank. -/
theorem reconcileRanked_unused_iff {names : List String} (hnodup : names.Nodup) {ranks : Ranks}
    (hcover : ranks.Cover names) (hranks : ranks.Comparable)
    {prerequisites : Prerequisites String} {maxPasses : Json} {settled : Settled Name}
    (h : reconcileRanked (names.map .text) ranks (prerequisites.rename .text) maxPasses =
      .ok settled)
    {a b : String} (hab : Precedes names a b) (hb : ranks.lookup (.text b) = some .infinite) :
    ∃ first order : List String,
      initialRanked (names.map .text) ranks = .ok (first.map .text) ∧ Precedes first a b ∧
        settled.order = order.map .text ∧
        (∃ last, LastAwaited prerequisites first a last) ∧
        (∃ last, LastAwaited prerequisites first b last) ∧
        ∀ lastA lastB, LastAwaited prerequisites first a lastA →
          LastAwaited prerequisites first b lastB → lastA ≠ lastB →
            (Precedes order a b ↔ Precedes first lastA lastB) := by
  obtain ⟨first, order, limit, passes, hfirst, hperm, horder, hsettle⟩ :=
    exists_settle_of_reconcileRanked h
  obtain ⟨hcycle, -⟩ := reconcileRanked_eq_ok_iff.1 h
  have hfirstNodup := hperm.nodup_iff.2 hnodup
  have horderPerm : order.Perm first := (settle_sound hfirstNodup hsettle).1
  have howed : Owed prerequisites first order :=
    settle_owed hfirstNodup (List.Perm.refl first) (owed_refl hfirstNodup) hsettle
  have hsat : ∀ name ∈ order, Satisfied prerequisites order name := fun name hname =>
    settle_satisfied hfirstNodup (Prerequisites.wellFounded_of_cycle?_eq_none hcycle) hsettle hname
  have hstart := precedes_initialRanked hnodup hcover hranks hfirst hab hb
  refine ⟨first, order, hfirst, hstart, horder, exists_lastAwaited _ hstart.mem_left,
    exists_lastAwaited _ hstart.mem_right, fun lastA lastB hlastA hlastB hne => ?_⟩
  constructor
  · intro hkept
    rcases precedes_total (hlastA.awaits.mem hstart.mem_left)
      (hlastB.awaits.mem hstart.mem_right) hne with hlasts | hlasts
    · exact hlasts
    · have hturned := precedes_of_lastAwaited howed horderPerm hfirstNodup hsat hlastB hlastA
        hstart.mem_left hlasts
      exact absurd hturned (hkept.asymm (horderPerm.nodup_iff.2 hfirstNodup))
  · exact precedes_of_lastAwaited howed horderPerm hfirstNodup hsat hlastA hlastB hstart.mem_right

section Sole

variable {α : Type} [BEq α] {prerequisites : Prerequisites α} {name other : α}

/-- A name whose sole prerequisite requires nothing leads to that one only. -/
theorem eq_of_requires_sole (hname : prerequisites.before name = [other])
    (hother : prerequisites.before other = []) {z : α}
    (h : Relation.TransGen prerequisites.Requires name z) : z = other := by
  obtain ⟨next, hnext, hrest⟩ := Relation.TransGen.head'_iff.1 h
  rw [Prerequisites.Requires, hname] at hnext
  obtain rfl := List.mem_singleton.1 hnext
  rcases Relation.ReflTransGen.cases_head hrest with rfl | ⟨further, hfurther, -⟩
  · rfl
  · rw [Prerequisites.Requires, hother] at hfurther
    exact absurd hfurther List.not_mem_nil

/-- A name waits for its sole prerequisite if that one requires nothing and comes behind it. -/
theorem lastAwaited_of_sole {first : List α} (hname : prerequisites.before name = [other])
    (hother : prerequisites.before other = []) (hbehind : Precedes first name other) :
    LastAwaited prerequisites first name other where
  awaits := .single ⟨by rw [Prerequisites.Requires, hname]; exact List.mem_cons_self ..,
    hbehind.mem_right⟩
  greatest z hz := by
    rcases Relation.reflTransGen_iff_eq_or_transGen.1 hz with rfl | hz
    · exact Or.inr hbehind
    · exact Or.inl (eq_of_requires_sole hname hother
        (Relation.TransGen.mono (fun _ _ hrequires => hrequires.1) _ _ hz))

end Sole

/-- A header that waits for a base and a footer that waits for a theme stay in order, since the base
comes before the theme. -/
theorem reconcileRanked_unused_baseAndTheme :
    ∃ (ranks : Ranks) (prerequisites : Prerequisites String) (first order : List String),
      ["Header", "Footer", "Base", "Theme"].Nodup ∧
      ranks.Cover ["Header", "Footer", "Base", "Theme"] ∧ ranks.Comparable ∧
      reconcileRanked (["Header", "Footer", "Base", "Theme"].map .text) ranks
        (prerequisites.rename .text) (.int 1000) = .ok ⟨order.map .text, 2⟩ ∧
      Precedes ["Header", "Footer", "Base", "Theme"] "Header" "Footer" ∧
      ranks.lookup (.text "Header") = some .infinite ∧
      ranks.lookup (.text "Footer") = some .infinite ∧
      LastAwaited prerequisites first "Header" "Base" ∧
      LastAwaited prerequisites first "Footer" "Theme" ∧ Precedes order "Header" "Footer" := by
  have hcover : Ranks.Cover [(.text "Header", .infinite), (.text "Footer", .infinite),
      (.text "Base", .infinite), (.text "Theme", .infinite)]
      ["Header", "Footer", "Base", "Theme"] := by decide
  have hranks : Ranks.Comparable [(.text "Header", .infinite), (.text "Footer", .infinite),
      (.text "Base", .infinite), (.text "Theme", .infinite)] := by decide
  have hinitial : initialRanked (["Header", "Footer", "Base", "Theme"].map .text)
      [(.text "Header", .infinite), (.text "Footer", .infinite), (.text "Base", .infinite),
        (.text "Theme", .infinite)] =
      .ok (["Header", "Footer", "Base", "Theme"].map .text) := by cbv
  have hrun : reconcileRanked (["Header", "Footer", "Base", "Theme"].map .text)
      [(.text "Header", .infinite), (.text "Footer", .infinite), (.text "Base", .infinite),
        (.text "Theme", .infinite)]
      (Prerequisites.rename .text [("Header", ["Base"]), ("Footer", ["Theme"]), ("Base", []),
        ("Theme", [])]) (.int 1000) = .ok ⟨["Base", "Header", "Theme", "Footer"].map .text, 2⟩ :=
    reconcileRanked_eq_ok_iff.2 ⟨by cbv, ["Header", "Footer", "Base", "Theme"], 1000,
      ⟨["Base", "Header", "Theme", "Footer"], 2⟩, hinitial, rfl, by decide, rfl⟩
  have hgiven : Precedes ["Header", "Footer", "Base", "Theme"] "Header" "Footer" := by
    simp [Precedes]
  obtain ⟨first, order, hfirst, -, horder, -, -, hiff⟩ :=
    reconcileRanked_unused_iff (by decide) hcover hranks hrun hgiven rfl
  rw [hinitial] at hfirst
  obtain rfl := (List.map_inj_right fun _ _ heq => Name.text.inj heq).1 (Except.ok.inj hfirst)
  obtain rfl := (List.map_inj_right fun _ _ heq => Name.text.inj heq).1 horder
  have hheader : LastAwaited [("Header", ["Base"]), ("Footer", ["Theme"]), ("Base", []),
      ("Theme", [])] ["Header", "Footer", "Base", "Theme"] "Header" "Base" :=
    lastAwaited_of_sole rfl rfl (by simp [Precedes])
  have hfooter : LastAwaited [("Header", ["Base"]), ("Footer", ["Theme"]), ("Base", []),
      ("Theme", [])] ["Header", "Footer", "Base", "Theme"] "Footer" "Theme" :=
    lastAwaited_of_sole rfl rfl (by simp [Precedes])
  exact ⟨_, _, _, _, by decide, hcover, hranks, hrun, hgiven, rfl, rfl, hheader, hfooter,
    (hiff _ _ hheader hfooter (by decide)).2 (by simp [Precedes])⟩

/-- **Names that are not used need not keep their order.**  A header and a footer that are not used
and do not require one another both require a theme that comes last.  The header and then the footer
are moved behind it, so the footer comes out first. -/
theorem reconcileRanked_turns_unused :
    ["Header", "Footer", "Theme"].Nodup ∧
      Prerequisites.Acyclic [("Header", ["Theme"]), ("Footer", ["Theme"]), ("Theme", [])] ∧
      ¬ Relation.TransGen (Prerequisites.Requires
        [("Header", ["Theme"]), ("Footer", ["Theme"]), ("Theme", [])]) "Header" "Footer" ∧
      ¬ Relation.TransGen (Prerequisites.Requires
        [("Header", ["Theme"]), ("Footer", ["Theme"]), ("Theme", [])]) "Footer" "Header" ∧
      Precedes ["Header", "Footer", "Theme"] "Header" "Footer" ∧
      reconcileRanked (["Header", "Footer", "Theme"].map .text)
        [(.text "Header", .infinite), (.text "Footer", .infinite), (.text "Theme", .infinite)]
        (Prerequisites.rename .text [("Header", ["Theme"]), ("Footer", ["Theme"]), ("Theme", [])])
        (.int 1000) = .ok ⟨["Theme", "Footer", "Header"].map .text, 2⟩ ∧
      Precedes ["Theme", "Footer", "Header"] "Footer" "Header" := by
  refine ⟨by decide, Prerequisites.cycle?_eq_none_iff.1 (by cbv), fun h => ?_, fun h => ?_,
    by simp [Precedes], reconcileRanked_eq_ok_iff.2 ⟨by cbv, ["Header", "Footer", "Theme"], 1000,
      ⟨["Theme", "Footer", "Header"], 2⟩, by cbv, rfl, by decide, rfl⟩, by simp [Precedes]⟩
  · exact absurd (eq_of_requires_sole rfl rfl h) (by decide)
  · exact absurd (eq_of_requires_sole rfl rfl h) (by decide)

end Order
end UsageOrder
