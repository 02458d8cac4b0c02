import UsageOrder.Proofs.FirstCopies

/-!
# The sessions that are listed

Sessions are sorted by the times of their last changes.  Where these times differ, the sessions can be
told by a list of names and times, from the latest to the earliest (`BackupStore.Lists`), and sorting
gives just this list (`BackupStore.Lists.newestFirst`).  One session more is one item more at its front
(`BackupStore.Lists.cons`), and the removal of those that are too many leaves as many items of it as
are kept (`BackupStore.Lists.surplus`, `BackupStore.Lists.drop`).  What is no session stays.
-/

namespace UsageOrder

namespace Entry

variable {members : List (String × Entry)} {name : String} {entry : Entry}

theorem filter_ne_of_lookup (h : members.lookup name = none) :
    (members.filter fun member => decide (member.1 ≠ name)) = members :=
  List.filter_eq_self.2 fun _ hmember => decide_eq_true
    (ne_of_mem_of_not_mem (List.mem_map_of_mem hmember) (lookup_eq_none_iff.1 h))

/-- The members of a directory are one of them and the others. -/
theorem perm_cons_filter (hnodup : (members.map Prod.fst).Nodup) (hmem : (name, entry) ∈ members) :
    members.Perm ((name, entry) :: members.filter fun member => decide (member.1 ≠ name)) := by
  induction members with
  | nil => exact absurd hmem List.not_mem_nil
  | cons member members ih =>
    obtain ⟨hnew, hrest⟩ := List.nodup_cons.1 hnodup
    rcases List.mem_cons.1 hmem with rfl | hmem
    · rw [List.filter_cons_of_neg (by simp), filter_ne_of_lookup (lookup_eq_none_iff.2 hnew)]
    · have hne : member.1 ≠ name := fun heq => hnew (heq ▸ List.mem_map_of_mem hmem)
      rw [List.filter_cons_of_pos (by simpa using hne)]
      exact ((ih hrest hmem).cons member).trans (.swap ..)

end Entry

namespace BackupStore

variable {store : BackupStore} {now : Nat} {name : String} {entry : Entry}
  {members members' others entries : List (String × Entry)} {listed : List (String × Nat)}

/-- An entry by its name and the time of its last change, which is now if it has none yet. -/
def timed (now : Nat) (member : String × Entry) : String × Nat :=
  (member.1, member.2.changed.getD now)

theorem getD_le_of_le {a b : ChangeTime} (h : ChangeTime.le a b = true) (ha : a.getD now ≤ now) :
    a.getD now ≤ b.getD now := by
  cases a <;> cases b <;> simp_all [ChangeTime.le]

/-- **Sessions that have changed at different times are sorted by these times.** -/
theorem newestFirst_timed (hperm : (entries.map (timed now)).Perm listed)
    (hsorted : listed.Pairwise fun a b => b.2 < a.2) (hpast : ∀ item ∈ listed, item.2 ≤ now) :
    (newestFirst entries).map (timed now) = listed := by
  have hsame : ((newestFirst entries).map (timed now)).Perm listed :=
    ((List.mergeSort_perm ..).map _).trans hperm
  have hpairs : ((newestFirst entries).map (timed now)).Pairwise fun a b => b.2 ≤ a.2 := by
    refine List.pairwise_map.2 ((pairwise_newestFirst entries).imp_of_mem fun _ hb hle => ?_)
    exact getD_le_of_le hle (hpast _ (hsame.mem_iff.1 (List.mem_map_of_mem hb)))
  have htimes : (listed.map Prod.snd).Nodup :=
    List.pairwise_map.2 (hsorted.imp fun hlt => Nat.ne_of_gt hlt)
  refine hsame.eq_of_pairwise (fun a b ha hb hle hle' => ?_) hpairs
    (hsorted.imp fun hlt => Nat.le_of_lt hlt)
  exact List.inj_on_of_nodup_map htimes (hsame.mem_iff.1 ha) hb (Nat.le_antisymm hle' hle)

theorem isSession_settle (now : Nat) (member : String × Entry) :
    isSession (member.1, member.2.settle now) = isSession member := by
  cases hentry : member.2 <;> simp [isSession, Entry.settle, Entry.isDirectory, hentry]

theorem timed_settle (now now' : Nat) (member : String × Entry) :
    timed now' (member.1, member.2.settle now) = timed now member := by
  obtain ⟨name, entry⟩ := member
  cases entry <;> rfl

/-- **What is in the directory of the sessions:** the sessions that are listed, with their times, and
what is no session. -/
structure Lists (now : Nat) (others members : List (String × Entry))
    (listed : List (String × Nat)) : Prop where
  nodup : (members.map Prod.fst).Nodup
  others : (members.filter fun member => !isSession member) = others
  sessions : ((members.filter isSession).map (timed now)).Perm listed

/-- What is removed is a session of the directory. -/
theorem mem_of_surplus {keep : Int} (hkeep : store.keepSessions.toInt? = some keep)
    {old : List (String × Entry)} {member : String × Entry}
    (hold : store.surplus (newestFirst (members.filter isSession)) = .ok old)
    (hmember : member ∈ old) : member ∈ members ∧ isSession member = true := by
  rw [surplus_eq_drop hkeep] at hold
  obtain rfl := Except.ok.inj hold
  exact List.mem_filter.1 ((List.mergeSort_perm ..).mem_iff.1 (List.mem_of_mem_drop hmember))

namespace Lists

/-- The same sessions are listed when the changes have got their times. -/
theorem later (h : Lists now others members listed) (now' : Nat)
    (hsettled : ∀ now, Entry.settleMembers now others = others) :
    Lists now' others (Entry.settleMembers now members) listed := by
  have hkept : ∀ kept : String × Entry → Bool,
      (∀ member, kept (member.1, member.2.settle now) = kept member) →
      (Entry.settleMembers now members).filter kept =
        Entry.settleMembers now (members.filter kept) := by
    intro kept hsame
    rw [Entry.settleMembers_eq_map, Entry.settleMembers_eq_map, List.filter_map]
    exact congrArg _ (List.filter_congr fun member _ => hsame member)
  refine ⟨?_, ?_, ?_⟩
  · rw [Entry.settleMembers_eq_map, List.map_map]
    exact h.nodup
  · rw [hkept _ fun member => congrArg Bool.not (isSession_settle now member), h.others, hsettled]
  · rw [hkept _ (isSession_settle now), Entry.settleMembers_eq_map, List.map_map]
    have htimed : timed now' ∘ (fun member : String × Entry => (member.1, member.2.settle now)) =
        timed now := funext fun member => timed_settle now now' member
    rw [htimed]
    exact h.sessions

/-- There is one session more. -/
theorem cons (h : Lists now others (members.filter fun member => decide (member.1 ≠ name)) listed)
    (hnodup : (members.map Prod.fst).Nodup) (hmem : (name, entry) ∈ members)
    (hsession : isSession (name, entry) = true) :
    Lists now others members (timed now (name, entry) :: listed) := by
  refine ⟨hnodup, ?_, ?_⟩
  · rw [← h.others, List.filter_filter]
    refine List.filter_congr fun member hmember => ?_
    by_cases hname : member.1 = name
    · obtain rfl : member = (name, entry) := List.inj_on_of_nodup_map hnodup hmember hmem hname
      simp [hsession]
    · simp [hname]
  · have hperm := ((Entry.perm_cons_filter hnodup hmem).filter isSession).map (timed now)
    rw [List.filter_cons_of_pos hsession, List.map_cons] at hperm
    exact hperm.trans (h.sessions.cons _)

/-- The sessions that are listed from the latest to the earliest. -/
theorem newestFirst (h : Lists now others members listed)
    (hsorted : listed.Pairwise fun a b => b.2 < a.2) (hpast : ∀ item ∈ listed, item.2 ≤ now) :
    (newestFirst (members.filter isSession)).map (timed now) = listed :=
  newestFirst_timed h.sessions hsorted hpast

/-- **The sessions that are too many are the earliest ones.** -/
theorem surplus (h : Lists now others members listed)
    (hsorted : listed.Pairwise fun a b => b.2 < a.2) (hpast : ∀ item ∈ listed, item.2 ≤ now)
    {keep : Int} (hkeep : store.keepSessions.toInt? = some keep) (hpos : 1 ≤ keep)
    {old : List (String × Entry)}
    (hold : store.surplus (BackupStore.newestFirst (members.filter isSession)) = .ok old) :
    old.map (timed now) = listed.drop keep.toNat := by
  rw [surplus_eq_drop hkeep] at hold
  obtain rfl := Except.ok.inj hold
  rw [List.map_drop, h.newestFirst hsorted hpast, ← List.length_map (timed now),
    h.newestFirst hsorted hpast, Text.clamp, if_neg (by omega)]
  rcases Nat.le_total listed.length keep.toNat with hle | hle
  · rw [List.drop_of_length_le hle, List.drop_of_length_le (by omega)]
  · congr 1
    omega

theorem names (h : Lists now others members listed) : (listed.map Prod.fst).Nodup := by
  have hnames : (((members.filter isSession).map (timed now)).map Prod.fst).Nodup := by
    rw [List.map_map]
    exact h.nodup.sublist (List.filter_sublist.map Prod.fst)
  exact (h.sessions.map Prod.fst).nodup_iff.1 hnames

/-- What has the name of a session that is listed is one. -/
theorem isSession_of_mem (h : Lists now others members listed) {member : String × Entry}
    (hmember : member ∈ members) (hlisted : member.1 ∈ listed.map Prod.fst) :
    isSession member = true := by
  obtain ⟨item, hitem, hname⟩ := List.mem_map.1 hlisted
  obtain ⟨other, hother, rfl⟩ := List.mem_map.1 (h.sessions.mem_iff.2 hitem)
  obtain ⟨hthere, hsession⟩ := List.mem_filter.1 hother
  obtain rfl := List.inj_on_of_nodup_map h.nodup hthere hmember hname
  exact hsession

/-- A session that is kept is not one of those that are removed. -/
theorem not_mem_drop (h : Lists now others members listed) {count : Nat} {item : String × Nat}
    (hitem : item ∈ listed.take count) : item.1 ∉ (listed.drop count).map Prod.fst := by
  have hsplit := h.names
  rw [← List.take_append_drop count listed, List.map_append] at hsplit
  exact List.disjoint_of_nodup_append hsplit (List.mem_map_of_mem hitem)

/-- **The sessions that were too many are gone.** -/
theorem drop (h : Lists now others members listed) {count : Nat} {removed : List String}
    (hremoved : removed = (listed.drop count).map Prod.fst) :
    Lists now others (members.filter fun member => decide (member.1 ∉ removed))
      (listed.take count) := by
  subst hremoved
  refine ⟨h.nodup.sublist (List.filter_sublist.map _), ?_, ?_⟩
  · rw [← h.others, List.filter_filter]
    refine List.filter_congr fun member hmember => ?_
    by_cases hremoved : member.1 ∈ (listed.drop count).map Prod.fst
    · have hsession := h.isSession_of_mem hmember
        (List.map_subset _ (List.drop_subset _ _) hremoved)
      simp [hsession]
    · simp only [hremoved, not_false_eq_true, decide_true, Bool.and_true]
  · have hleft : listed.filter (fun item => decide (item.1 ∉ (listed.drop count).map Prod.fst)) =
        listed.take count := by
      conv_lhs => arg 2; rw [← List.take_append_drop count listed]
      rw [List.filter_append, List.filter_eq_self.2, List.filter_eq_nil_iff.2, List.append_nil]
      · intro item hitem hkept
        exact of_decide_eq_true hkept (List.mem_map_of_mem hitem)
      · intro item hitem
        exact decide_eq_true (h.not_mem_drop hitem)
    rw [← hleft, List.filter_comm]
    have hperm := h.sessions.filter fun item =>
      decide (item.1 ∉ (listed.drop count).map Prod.fst)
    rw [List.filter_map] at hperm
    exact hperm

end Lists
end BackupStore
end UsageOrder
