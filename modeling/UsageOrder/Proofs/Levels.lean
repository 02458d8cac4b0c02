import Mathlib.Data.List.Perm.Subperm
import Mathlib.Order.Bounds.Basic
import Mathlib.Order.Lattice.Nat
import UsageOrder.Proofs.Cycles
import UsageOrder.Proofs.Passes

/-!
# How many passes an order takes

The number of violated prerequisites may grow during a pass, so what makes the passes end is not a
count but a level.  A name is of level `k` when no chain of prerequisites inside the order leads
more than `k` steps on from it.  After `k` passes all names of level `k` are satisfied, and from then on
they stay where they are.

| statement | what it says |
|---|---|
| `SatisfiedUpTo.adjust` | a pass reaches one level further |
| `satisfied_of_adjust_eq` | in an order that a pass keeps, every name with a level is satisfied |
| `exists_longest` | without a cycle there is a longest chain, shorter than the list of names |
| `settle_returns` | one pass more than the longest chain has steps is enough |
-/

namespace UsageOrder
namespace Order

variable {α : Type} [BEq α] {prerequisites : Prerequisites α}

/-! ### Levels -/

/-- A name of level `k`: no chain of prerequisites inside the list leads more than `k` steps on from
it. -/
def Level (prerequisites : Prerequisites α) (names : List α) : Nat → α → Prop
  | 0, name => ∀ other ∈ prerequisites.before name, other ∉ names
  | k + 1, name => ∀ other ∈ prerequisites.before name, other ∈ names →
      Level prerequisites names k other

theorem Level.succ {names : List α} {k : Nat} {name : α} (h : Level prerequisites names k name) :
    Level prerequisites names (k + 1) name := by
  induction k generalizing name with
  | zero => exact fun other hother hmem => absurd hmem (h other hother)
  | succ k ih => exact fun other hother hmem => ih (h other hother hmem)

theorem Level.mono {names : List α} {k l : Nat} {name : α} (h : Level prerequisites names k name)
    (hle : k ≤ l) : Level prerequisites names l name := by
  induction hle with
  | refl => exact h
  | step _ ih => exact ih.succ

/-- The prerequisites of a name are of its level too. -/
theorem Level.before {names : List α} {k : Nat} {name other : α}
    (h : Level prerequisites names k name) (hother : other ∈ prerequisites.before name)
    (hmem : other ∈ names) : Level prerequisites names k other := by
  cases k with
  | zero => exact absurd hmem (h other hother)
  | succ k => exact (h other hother hmem).succ

theorem level_congr {names names' : List α} (hperm : names.Perm names') (k : Nat) (name : α) :
    Level prerequisites names k name ↔ Level prerequisites names' k name := by
  induction k generalizing name with
  | zero => simp only [Level, hperm.mem_iff]
  | succ k ih => simp only [Level, hperm.mem_iff, ih]

/-- Without a cycle every name has a level. -/
theorem exists_level (hwf : WellFounded fun a b => prerequisites.Requires b a) (names : List α)
    (name : α) : ∃ k, Level prerequisites names k name := by
  induction name using hwf.induction with
  | _ name ih =>
    -- The greatest of the levels of the prerequisites serves for all of them.
    have hcommon : ∀ others ⊆ prerequisites.before name, ∃ k, ∀ other ∈ others,
        Level prerequisites names k other := by
      intro others hsub
      induction others with
      | nil => exact ⟨0, fun _ h => absurd h List.not_mem_nil⟩
      | cons first others ihOthers =>
        obtain ⟨hfirst, hsub⟩ := List.cons_subset.1 hsub
        obtain ⟨k, hk⟩ := ih first hfirst
        obtain ⟨l, hl⟩ := ihOthers hsub
        refine ⟨max k l, fun other hother => ?_⟩
        rcases List.mem_cons.1 hother with rfl | hother
        · exact hk.mono (le_max_left k l)
        · exact (hl other hother).mono (le_max_right k l)
    obtain ⟨k, hk⟩ := hcommon _ (List.Subset.refl _)
    exact ⟨k + 1, fun other hother _ => hk other hother⟩

/-! ### Chains of prerequisites -/

/-- A chain of names of a list each of which requires the next one. -/
structure IsChainIn (prerequisites : Prerequisites α) (names chain : List α) : Prop where
  linked : chain.IsChain prerequisites.Requires
  inside : chain ⊆ names

/-- The numbers of steps of the chains inside a list of names. -/
def chainSteps (prerequisites : Prerequisites α) (names : List α) : Set Nat :=
  {steps | ∃ chain, IsChainIn prerequisites names chain ∧ chain.length - 1 = steps}

/-- A bound on the chains that start with a name bounds its level. -/
theorem level_of_chains {names : List α} {d : Nat} {name : α} (hname : name ∈ names)
    (h : ∀ chain, IsChainIn prerequisites names (name :: chain) → chain.length ≤ d) :
    Level prerequisites names d name := by
  -- A chain from a prerequisite is continued to the front by the name itself.
  have hcons : ∀ other ∈ prerequisites.before name, ∀ chain,
      IsChainIn prerequisites names (other :: chain) →
        IsChainIn prerequisites names (name :: other :: chain) := fun other hother chain hchain =>
    ⟨List.IsChain.cons_cons hother hchain.linked, List.cons_subset.2 ⟨hname, hchain.inside⟩⟩
  induction d generalizing name with
  | zero =>
    intro other hother hmem
    have hsingle : IsChainIn prerequisites names [other] :=
      ⟨List.isChain_singleton _, List.cons_subset.2 ⟨hmem, List.nil_subset _⟩⟩
    have := h [other] (hcons other hother [] hsingle)
    simp at this
  | succ d ih =>
    intro other hother hmem
    refine ih hmem (fun chain hchain => ?_) fun next hnext chain hchain =>
      ⟨List.IsChain.cons_cons hnext hchain.linked, List.cons_subset.2 ⟨hmem, hchain.inside⟩⟩
    have := h (other :: chain) (hcons other hother chain hchain)
    rw [List.length_cons] at this
    omega

theorem IsChainIn.nodup {names chain : List α} (h : IsChainIn prerequisites names chain)
    (hacyclic : prerequisites.Acyclic) : chain.Nodup := by
  have hpairwise : chain.Pairwise (Relation.TransGen prerequisites.Requires) :=
    (h.linked.imp fun _ _ hreq => Relation.TransGen.single hreq).pairwise
  refine List.Pairwise.imp ?_ hpairwise
  rintro a _ hreq rfl
  exact hacyclic a hreq

/-- **Without a cycle there is a longest chain,** and it has fewer steps than there are names. -/
theorem exists_longest (hacyclic : prerequisites.Acyclic) (names : List α) :
    ∃ d, IsGreatest (chainSteps prerequisites names) d ∧ d + 1 ≤ max 1 names.length := by
  have hbound : ∀ steps ∈ chainSteps prerequisites names, steps + 1 ≤ max 1 names.length := by
    rintro _ ⟨chain, hchain, rfl⟩
    have hle := (List.subperm_of_subset (hchain.nodup hacyclic) hchain.inside).length_le
    omega
  have hempty : 0 ∈ chainSteps prerequisites names :=
    ⟨[], ⟨List.isChain_nil, List.nil_subset _⟩, rfl⟩
  have hbdd : BddAbove (chainSteps prerequisites names) :=
    ⟨max 1 names.length, fun steps hsteps => by have := hbound steps hsteps; omega⟩
  have hmem := Nat.sSup_mem ⟨0, hempty⟩ hbdd
  exact ⟨_, ⟨hmem, fun _ hsteps => le_csSup hbdd hsteps⟩, hbound _ hmem⟩

theorem level_of_longest {names : List α} {d : Nat}
    (h : d ∈ upperBounds (chainSteps prerequisites names)) {name : α} (hname : name ∈ names) :
    Level prerequisites names d name :=
  level_of_chains hname fun chain hchain => h ⟨name :: chain, hchain, rfl⟩

/-! ### Satisfied names -/

/-- All names of a level are satisfied. -/
def SatisfiedUpTo (prerequisites : Prerequisites α) (k : Nat) (order : List α) : Prop :=
  ∀ name ∈ order, Level prerequisites order k name → Satisfied prerequisites order name

theorem satisfiedUpTo_zero (order : List α) : SatisfiedUpTo prerequisites 0 order :=
  fun _ _ hlevel other hother hmem => absurd hmem (hlevel other hother)

/-! ### Pass after pass -/

variable [LawfulBEq α]

/-- **A pass reaches one level further.** -/
theorem SatisfiedUpTo.adjust {k : Nat} {order : List α} (hnodup : order.Nodup)
    (h : SatisfiedUpTo prerequisites k order) :
    SatisfiedUpTo prerequisites (k + 1) (adjust prerequisites order) := by
  have hsteady : Steady prerequisites (Level prerequisites order k) order :=
    ⟨hnodup, fun _ _ hlevel _ hother hmem => hlevel.before hother hmem, h⟩
  have hperm := adjust_perm prerequisites hnodup
  intro name hname hlevel
  refine hsteady.adjust.2 name (hperm.mem_iff.1 hname) fun other hother hmem => ?_
  exact (level_congr hperm k other).1 (hlevel other hother (hperm.mem_iff.2 hmem))

/-- In an order that a pass leaves as it is, every name that has a level is satisfied. -/
theorem satisfied_of_adjust_eq {order : List α} (hnodup : order.Nodup)
    (hfix : adjust prerequisites order = order) {k : Nat} {name : α} (hname : name ∈ order)
    (hlevel : Level prerequisites order k name) : Satisfied prerequisites order name := by
  have hall : ∀ k, SatisfiedUpTo prerequisites k order := by
    intro k
    induction k with
    | zero => exact satisfiedUpTo_zero order
    | succ k ih => exact hfix ▸ ih.adjust hnodup
  exact hall k name hname hlevel

/-! ### The passes of a run -/

/-- A settled order is a rearrangement of the order it started from that a pass leaves as it is. -/
theorem settle_sound {left done : Nat} {order : List α} {settled : Settled α}
    (hnodup : order.Nodup) (h : settle prerequisites left done order = some settled) :
    settled.order.Perm order ∧ adjust prerequisites settled.order = settled.order := by
  induction left generalizing done order with
  | zero => simp [settle] at h
  | succ left ih =>
    have hperm := adjust_perm prerequisites hnodup
    rw [settle] at h
    by_cases hfix : (adjust prerequisites order == order) = true
    · rw [if_pos hfix] at h
      obtain rfl := Option.some.inj h
      exact ⟨List.Perm.refl _, eq_of_beq hfix⟩
    · rw [if_neg hfix] at h
      obtain ⟨hperm', hfix'⟩ := ih (hperm.nodup_iff.2 hnodup) h
      exact ⟨hperm'.trans hperm, hfix'⟩

/-- **Enough passes settle an order.**  If all names are of level `d` and those of level `k` are
satisfied already, the order settles within `d - k + 1` passes. -/
theorem settle_returns {d k left done : Nat} {order : List α} (hnodup : order.Nodup)
    (hlevel : ∀ name ∈ order, Level prerequisites order d name)
    (hsat : SatisfiedUpTo prerequisites k order) (hk : k ≤ d) (hleft : d - k < left) :
    ∃ settled, settle prerequisites left done order = some settled ∧
      settled.passes ≤ done + (d - k) + 1 := by
  induction left generalizing k done order with
  | zero => exact absurd hleft (Nat.not_lt_zero _)
  | succ left ih =>
    rw [settle]
    by_cases hfix : (adjust prerequisites order == order) = true
    · exact ⟨⟨order, done + 1⟩, if_pos hfix, by simp only; omega⟩
    · rw [if_neg hfix]
      -- Below the last level there is another pass; at the last level nothing could have moved.
      have hlt : k < d := by
        by_contra hnot
        obtain rfl : k = d := by omega
        have hself := adjust_eq_self hnodup fun name hname => hsat name hname (hlevel name hname)
        exact hfix (by rw [hself]; exact beq_self_eq_true order)
      have hperm := adjust_perm prerequisites hnodup
      obtain ⟨settled, hsettled, hpasses⟩ := @ih _ (done + 1) _ (hperm.nodup_iff.2 hnodup)
        (fun name hname => (level_congr hperm d name).2 (hlevel name (hperm.mem_iff.1 hname)))
        (hsat.adjust hnodup) hlt (by omega)
      exact ⟨settled, hsettled, by omega⟩

/-- In a settled order every prerequisite stands before the names that require it. -/
theorem settle_satisfied {left done : Nat} {order : List α} {settled : Settled α}
    (hnodup : order.Nodup) (hwf : WellFounded fun a b => prerequisites.Requires b a)
    (h : settle prerequisites left done order = some settled) {name : α}
    (hname : name ∈ settled.order) : Satisfied prerequisites settled.order name := by
  obtain ⟨hperm, hfix⟩ := settle_sound hnodup h
  obtain ⟨k, hlevel⟩ := exists_level hwf settled.order name
  exact satisfied_of_adjust_eq (hperm.nodup_iff.2 hnodup) hfix hname hlevel

end Order
end UsageOrder
