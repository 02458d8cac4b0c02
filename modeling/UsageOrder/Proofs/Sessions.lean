import UsageOrder.Proofs.Frames
import UsageOrder.Project.Backup

/-!
# Which sessions are removed

The sessions beyond those that are kept are removed, from the one that was changed last on.  So the
session of the run in progress is kept if no other one was changed by the run
(`BackupStore.ne_of_mem_surplus`).  A directory changes when an entry of its own is added or taken
away; `Entry.Dated` says which sessions have changed since the run has started, and it is kept by
every change of the tree that is not in one of the other sessions (`Entry.Dated.put`,
`Entry.Dated.remove`).
-/

namespace UsageOrder
namespace Entry

variable {top entry : Entry} {base parent : List String} {new new' : String → Prop} {x : String}

/-- No name is there twice, and of the sessions only those with the given names are being changed by
the operation in progress. -/
structure DatedMembers (new : String → Prop) (members : List (String × Entry)) : Prop where
  nodup : (members.map Prod.fst).Nodup
  changed : ∀ member ∈ members, BackupStore.isSession member = true →
    member.2.changed = none → new member.1

/-- The sessions in a directory that are being changed have the given names. -/
def Dated (base : List String) (new : String → Prop) (top : Entry) : Prop :=
  ∀ members changed, top.at? base = some (.directory members changed) → DatedMembers new members

/-! ### Members that are set -/

theorem map_fst_setMember {members : List (String × Entry)} {name : String}
    (h : (members.lookup name).isSome = true) (entry : Entry) :
    (setMember name entry members).map Prod.fst = members.map Prod.fst := by
  induction members with
  | nil => exact absurd h (by simp)
  | cons member members ih =>
    obtain ⟨key, value⟩ := member
    rw [lookup_member] at h
    rw [setMember]
    split_ifs with hkey
    · rw [List.map_cons, List.map_cons, hkey]
    · rw [if_neg (Ne.symm hkey)] at h
      rw [List.map_cons, List.map_cons, ih h]

theorem mem_setMember {members : List (String × Entry)} {name : String} {member : String × Entry}
    (hnodup : (members.map Prod.fst).Nodup) (h : member ∈ setMember name entry members) :
    member = (name, entry) ∨ member ∈ members ∧ member.1 ≠ name := by
  induction members with
  | nil => exact Or.inl (List.mem_singleton.1 h)
  | cons first members ih =>
    obtain ⟨key, value⟩ := first
    obtain ⟨hfirst, hrest⟩ := List.nodup_cons.1 hnodup
    rw [setMember] at h
    split_ifs at h with hkey
    · rcases List.mem_cons.1 h with h | h
      · exact Or.inl h
      · refine Or.inr ⟨List.mem_cons_of_mem _ h, fun heq => hfirst ?_⟩
        exact List.mem_map.2 ⟨member, h, heq.trans (Eq.symm hkey)⟩
    · rcases List.mem_cons.1 h with rfl | h
      · exact Or.inr ⟨List.mem_cons_self .., hkey⟩
      · exact (ih hrest h).imp_right (And.imp_left (List.mem_cons_of_mem _))

/-- What stays a directory is a session if it was one. -/
theorem isSession_congr {name : String} {entry' : Entry} (h : entry'.leaf? = none ↔ entry.leaf? = none) :
    BackupStore.isSession (name, entry') = BackupStore.isSession (name, entry) := by
  have hdirectory : entry'.isDirectory = entry.isDirectory := by
    cases entry <;> cases entry' <;> simp_all [leaf?, isDirectory]
  rw [BackupStore.isSession, BackupStore.isSession, hdirectory]

/-- There is no directory in a file. -/
theorem members_eq_nil_of_leaf (h : entry.leaf? = some entry) {rest : List String}
    {members : List (String × Entry)} {changed : ChangeTime}
    (hat : entry.at? rest = some (.directory members changed)) : members = [] := by
  cases rest with
  | nil =>
    obtain rfl := Option.some.inj hat
    exact absurd h (by simp [leaf?])
  | cons name rest =>
    have hseen : entry.seen (name :: rest) = none := seen_cons_of_leaf (by simp [h]) name rest
    rw [seen, hat] at hseen
    exact absurd hseen (by simp)

/-- An entry in which something is set below its own entries keeps its time. -/
theorem changed_put {rest : List String} (h : rest ≠ []) (top new : Entry) :
    (top.put rest new).changed = top.changed ∨
      (top.put rest new).changed = none ∧ rest.length = 1 := by
  obtain ⟨name, rest, rfl⟩ := List.exists_cons_of_ne_nil h
  cases top with
  | directory members changed =>
    rw [put]
    cases members.lookup name with
    | some child => exact Or.inl rfl
    | none =>
      dsimp only
      split_ifs with hrest
      · exact Or.inr ⟨rfl, by simp [List.isEmpty_iff.1 hrest]⟩
      · exact Or.inl rfl
  | file | archive => exact Or.inl rfl

theorem changed_remove {rest : List String} (h : rest ≠ []) (top : Entry) :
    (top.remove rest).changed = top.changed ∨
      (top.remove rest).changed = none ∧ rest.length = 1 := by
  cases top with
  | directory members changed =>
    rcases rest with _ | ⟨name, _ | ⟨next, rest⟩⟩
    · exact absurd rfl h
    · rw [remove]
      split_ifs
      · exact Or.inr ⟨rfl, rfl⟩
      · exact Or.inl rfl
    · rw [remove_below (by simp)]
      cases members.lookup name <;> exact Or.inl rfl
  | file | archive =>
    rw [remove_of_leaf (by simp [leaf?])]
    exact Or.inl rfl

namespace DatedMembers

variable {members : List (String × Entry)} {name : String} {child : Entry}

theorem mono (h : DatedMembers new members)
    (hnew : ∀ member ∈ members, new member.1 → new' member.1) : DatedMembers new' members where
  nodup := h.nodup
  changed member hmember hsession htime :=
    hnew member hmember (h.changed member hmember hsession htime)

/-- A member gets another entry. -/
theorem setMember (h : DatedMembers new members) (hlookup : members.lookup name = some child)
    (hentry : BackupStore.isSession (name, entry) = true → entry.changed = none → new name) :
    DatedMembers new (setMember name entry members) where
  nodup := by
    rw [map_fst_setMember (by rw [hlookup]; rfl)]
    exact h.nodup
  changed member hmember hsession htime := by
    rcases mem_setMember h.nodup hmember with rfl | ⟨hmem, -⟩
    · exact hentry hsession htime
    · exact h.changed member hmem hsession htime

/-- There is a member more. -/
theorem append (h : DatedMembers new members) (hlookup : members.lookup name = none)
    (hentry : BackupStore.isSession (name, entry) = true → entry.changed = none → new name) :
    DatedMembers new (members ++ [(name, entry)]) where
  nodup := by
    rw [List.map_append]
    refine h.nodup.append (List.nodup_singleton _) ?_
    intro other hother hname
    obtain rfl := List.mem_singleton.1 hname
    exact lookup_eq_none_iff.1 hlookup hother
  changed member hmember hsession htime := by
    rcases List.mem_append.1 hmember with hmem | hmem
    · exact h.changed member hmem hsession htime
    · obtain rfl := List.mem_singleton.1 hmem
      exact hentry hsession htime

/-- A member is gone. -/
theorem filter_ne (h : DatedMembers new members) (hnew : ∀ other, other ≠ name → new other → new' other) :
    DatedMembers new' (members.filter fun member => decide (member.1 ≠ name)) where
  nodup := h.nodup.sublist ((List.filter_sublist).map _)
  changed member hmember hsession htime := by
    obtain ⟨hmem, hne⟩ := List.mem_filter.1 hmember
    exact hnew _ (of_decide_eq_true hne) (h.changed member hmem hsession htime)

/-- Something changes below a member, which is not another session. -/
theorem setBelow (h : DatedMembers new members) (hlookup : members.lookup name = some child)
    (hleaf : entry.leaf? = child.leaf?)
    (hchanged : entry.changed = child.changed ∨
      (BackupStore.sessionMark.toList.isPrefixOf name.toList = true → new name)) :
    DatedMembers new (Entry.setMember name entry members) := by
  refine h.setMember hlookup fun hsession htime => ?_
  have hold : BackupStore.isSession (name, child) = true := by
    rwa [← isSession_congr (by rw [hleaf])]
  rcases hchanged with hsame | hname
  · exact h.changed _ (mem_of_lookup hlookup) hold (hsame ▸ htime)
  · exact hname (Bool.and_eq_true_iff.1 hold).1

/-- An entry is set in a member or below it. -/
theorem put (h : DatedMembers new members) {below : List String} {changed changed' : ChangeTime}
    {members' : List (String × Entry)}
    (heq : (directory members changed).put (name :: below) entry = directory members' changed')
    (hhere : below = [] → BackupStore.isSession (name, entry) = true → entry.changed = none →
      new name)
    (hbelow : below.length = 1 → BackupStore.sessionMark.toList.isPrefixOf name.toList = true →
      new name) : DatedMembers new members' := by
  rw [Entry.put] at heq
  cases below with
  | nil =>
    cases hlookup : members.lookup name with
    | some child =>
      rw [hlookup] at heq
      obtain ⟨rfl, -⟩ := Entry.directory.inj heq
      exact h.setMember hlookup (hhere rfl)
    | none =>
      rw [hlookup] at heq
      obtain ⟨rfl, -⟩ := Entry.directory.inj heq
      exact h.append hlookup (hhere rfl)
  | cons second below =>
    cases hlookup : members.lookup name with
    | some child =>
      rw [hlookup] at heq
      obtain ⟨rfl, -⟩ := Entry.directory.inj heq
      refine h.setBelow hlookup (leaf?_put (List.cons_ne_nil _ _) child entry) ?_
      exact (changed_put (List.cons_ne_nil _ _) child entry).imp_right fun hchild => hbelow hchild.2
    | none =>
      rw [hlookup] at heq
      obtain ⟨rfl, -⟩ := Entry.directory.inj heq
      exact h

/-- An entry is taken away: a member or one below it. -/
theorem remove (h : DatedMembers new members) {below : List String} {changed changed' : ChangeTime}
    {members' : List (String × Entry)}
    (heq : (directory members changed).remove (name :: below) = directory members' changed')
    (hbelow : below.length = 1 → BackupStore.sessionMark.toList.isPrefixOf name.toList = true →
      new name)
    (hnew : ∀ other, (below = [] → other ≠ name) → new other → new' other) :
    DatedMembers new' members' := by
  cases below with
  | nil =>
    rw [Entry.remove] at heq
    split_ifs at heq with hthere
    · obtain ⟨rfl, -⟩ := Entry.directory.inj heq
      exact h.filter_ne fun other hother => hnew other fun _ => hother
    · obtain ⟨rfl, -⟩ := Entry.directory.inj heq
      have hnone := lookup_eq_none_iff.1 (Option.not_isSome_iff_eq_none.1 hthere)
      refine h.mono fun member hmember => hnew _ fun _ heq => hnone ?_
      exact List.mem_map.2 ⟨member, hmember, heq⟩
  | cons second below =>
    have hkeep : ∀ other, new other → new' other := fun other =>
      hnew other fun hnil => absurd hnil (List.cons_ne_nil _ _)
    rw [remove_below (List.cons_ne_nil _ _)] at heq
    cases hlookup : members.lookup name with
    | some child =>
      rw [hlookup] at heq
      obtain ⟨rfl, -⟩ := Entry.directory.inj heq
      refine (h.setBelow hlookup (leaf?_remove _ child) ?_).mono fun _ _ => hkeep _
      exact (changed_remove (List.cons_ne_nil _ _) child).imp_right fun hchild => hbelow hchild.2
    | none =>
      rw [hlookup] at heq
      obtain ⟨rfl, -⟩ := Entry.directory.inj heq
      exact h.mono fun _ _ => hkeep _

end DatedMembers

/-! ### Changes of a tree -/

/-- A place below a directory is that of a member of it, or in one. -/
theorem exists_member_of_prefix (hunder : ¬ parent ++ [x] <+: base)
    (habove : base <+: parent ++ [x]) :
    ∃ name below, parent ++ [x] = base ++ name :: below ∧
      (below = [] ↔ parent = base) ∧ (below = [] → name = x) ∧
      (below.length = 1 → parent = base ++ [name]) := by
  obtain ⟨rest, hrest⟩ := habove
  have hsome : rest ≠ [] := by
    rintro rfl
    exact hunder (by rw [← hrest, List.append_nil])
  obtain ⟨name, below, rfl⟩ := List.exists_cons_of_ne_nil hsome
  have hlength := congrArg List.length hrest
  simp only [List.length_append, List.length_cons, List.length_nil] at hlength
  refine ⟨name, below, hrest.symm, ⟨?_, ?_⟩, ?_, fun hone => ?_⟩
  · rintro rfl
    exact (List.append_inj' hrest rfl).1.symm
  · rintro rfl
    exact List.length_eq_zero_iff.1 (by omega)
  · rintro rfl
    exact List.singleton_inj.1 (List.append_inj' hrest rfl).2
  · obtain ⟨second, rfl⟩ := List.length_eq_one_iff.1 hone
    simpa using (congrArg List.dropLast hrest).symm

namespace Dated

/-- Where nothing is in a directory no session has changed. -/
theorem of_empty (h : ∀ members changed, top.at? base = some (.directory members changed) →
    members = []) : Dated base new top := by
  intro members changed hentry
  rw [h members changed hentry]
  exact ⟨List.nodup_nil, fun member hmember => absurd hmember List.not_mem_nil⟩

/-- What changes in the directory of the sessions is one of its members. -/
theorem of_members (h : Dated base new top) {top' : Entry} {change : Entry → Entry}
    (hat : top'.at? base = (top.at? base).map change)
    (hleaf : ∀ entry, (change entry).leaf? = entry.leaf?)
    (hmembers : ∀ members changed members' changed', DatedMembers new members →
      change (.directory members changed) = .directory members' changed' →
        DatedMembers new' members') : Dated base new' top' := by
  intro members' changed' hat'
  rw [hat, Option.map_eq_some_iff] at hat'
  obtain ⟨old, hold, heq⟩ := hat'
  obtain ⟨members, changed, rfl⟩ : ∃ members changed, old = .directory members changed := by
    rw [← leaf?_eq_none_iff, ← hleaf, heq]
    rfl
  exact hmembers members changed members' changed' (h members changed hold) heq

/-- **An entry is set at a place** that is not in another session. -/
theorem put (h : Dated base new top) (hparent : top.IsDirectoryAt parent)
    (hsmall : ∀ rest members changed, entry.at? rest = some (.directory members changed) →
      members = [])
    (hname : ∀ name, parent = base ++ [name] →
      BackupStore.sessionMark.toList.isPrefixOf name.toList = true → new name)
    (hentry : parent = base → BackupStore.isSession (x, entry) = true → entry.changed = none →
      new x) :
    Dated base new (top.put (parent ++ [x]) entry) := by
  by_cases hunder : parent ++ [x] <+: base
  · -- The directory of sessions is what was set, or below it.
    obtain ⟨rest, rfl⟩ := hunder
    refine of_empty fun members changed hat => ?_
    rw [at?_put_under hparent] at hat
    exact hsmall rest members changed hat
  by_cases habove : base <+: parent ++ [x]
  · obtain ⟨name, below, hplace, hnil, hsame, hone⟩ := exists_member_of_prefix hunder habove
    have hat : (top.put (parent ++ [x]) entry).at? base =
        (top.at? base).map fun old => old.put (name :: below) entry := by
      rw [hplace, at?_put_above (List.cons_ne_nil _ _)]
    refine h.of_members hat (fun old => leaf?_put (List.cons_ne_nil _ _) old entry)
      fun members changed members' changed' hmembers heq => ?_
    refine hmembers.put heq (fun hbelow => ?_) fun hbelow => hname name (hone hbelow)
    rw [hsame hbelow]
    exact hentry (hnil.1 hbelow)
  · intro members changed hat
    rw [at?_put_apart hunder habove] at hat
    exact h members changed hat

/-- **The entry at a place is taken away,** which is not in another session. -/
theorem remove (h : Dated base new top)
    (hname : ∀ name, parent = base ++ [name] →
      BackupStore.sessionMark.toList.isPrefixOf name.toList = true → new name)
    (hnew : ∀ other, (parent = base → other ≠ x) → new other → new' other) :
    Dated base new' (top.remove (parent ++ [x])) := by
  by_cases hunder : parent ++ [x] <+: base
  · obtain ⟨rest, rfl⟩ := hunder
    refine of_empty fun members changed hat => ?_
    rw [at?_remove_under] at hat
    exact absurd hat (by simp)
  by_cases habove : base <+: parent ++ [x]
  · obtain ⟨name, below, hplace, hnil, hsame, hone⟩ := exists_member_of_prefix hunder habove
    have hat : (top.remove (parent ++ [x])).at? base =
        (top.at? base).map fun old => old.remove (name :: below) := by
      rw [hplace, at?_remove_above (List.cons_ne_nil _ _)]
    refine h.of_members hat (fun old => leaf?_remove _ old)
      fun members changed members' changed' hmembers heq => ?_
    refine hmembers.remove heq (fun hbelow => hname name (hone hbelow)) fun other hother => ?_
    refine hnew other fun hparent => ?_
    rw [← hsame (hnil.2 hparent)]
    exact hother (hnil.2 hparent)
  · intro members changed hat
    rw [at?_remove_apart hunder habove] at hat
    have hne : parent ≠ base := by
      rintro rfl
      exact habove (List.prefix_append _ _)
    exact (h members changed hat).mono fun member _ => hnew _ fun heq => absurd heq hne

end Dated
end Entry

/-! ### The sessions that are removed -/

namespace ChangeTime

theorem le_trans {a b c : ChangeTime} (h : ChangeTime.le a b = true)
    (h' : ChangeTime.le b c = true) : ChangeTime.le a c = true := by
  cases a <;> cases b <;> cases c <;> simp_all [ChangeTime.le]
  omega

theorem le_total (a b : ChangeTime) : (ChangeTime.le a b || ChangeTime.le b a) = true := by
  cases a <;> cases b <;> simp [ChangeTime.le]
  omega

end ChangeTime

namespace BackupStore

variable {store : BackupStore} {members old : List (String × Entry)} {fresh : String}

theorem pairwise_newestFirst (entries : List (String × Entry)) :
    (newestFirst entries).Pairwise fun a b => ChangeTime.le b.2.changed a.2.changed = true := by
  refine List.pairwise_mergeSort (fun a b c h h' => ?_) (fun a b => ?_) entries
  · exact ChangeTime.le_trans h' h
  · exact ChangeTime.le_total b.2.changed a.2.changed

theorem surplus_eq_drop {keep : Int} (h : store.keepSessions.toInt? = some keep)
    (entries : List (String × Entry)) :
    store.surplus entries = .ok (entries.drop (Text.clamp entries.length keep)) := by
  rw [surplus, h]
  cases hkeep : store.keepSessions with
  | null => exact absurd h (by simp [hkeep, Json.toInt?])
  | _ => rfl

/-- **The session of the run in progress is kept,** if no other one has changed. -/
theorem ne_of_mem_surplus {keep : Int} {entry : Entry} (hkeep : store.keepSessions.toInt? = some keep)
    (hpos : 1 ≤ keep) (hmembers : Entry.DatedMembers (· = fresh) members)
    (hentry : (fresh, entry) ∈ members) (hsession : isSession (fresh, entry) = true)
    (htime : entry.changed = none)
    (h : store.surplus (newestFirst (members.filter isSession)) = .ok old) {member : String × Entry}
    (hmember : member ∈ old) : member ∈ members ∧ isSession member = true ∧ member.1 ≠ fresh := by
  rw [surplus_eq_drop hkeep] at h
  obtain rfl := Except.ok.inj h
  generalize hsorted : newestFirst (members.filter isSession) = sorted at hmember
  have hperm : sorted.Perm (members.filter isSession) := hsorted ▸ List.mergeSort_perm ..
  have hmem : ∀ {other}, other ∈ sorted ↔ other ∈ members ∧ isSession other = true := by
    intro other
    rw [hperm.mem_iff, List.mem_filter]
  have hsome : (fresh, entry) ∈ sorted := hmem.2 ⟨hentry, hsession⟩
  obtain ⟨first, rest, hcons⟩ := List.exists_cons_of_ne_nil (List.ne_nil_of_mem hsome)
  subst hcons
  -- At least one session is kept, so what is removed is among the others.
  have hclamp : ∃ kept, Text.clamp (first :: rest).length keep = kept + 1 := by
    refine Nat.exists_eq_succ_of_ne_zero ?_
    rw [Text.clamp, if_neg (by omega), List.length_cons]
    omega
  obtain ⟨kept, hkept⟩ := hclamp
  rw [hkept, List.drop_succ_cons] at hmember
  have hrest : member ∈ rest := List.mem_of_mem_drop hmember
  obtain ⟨hthere, hstored⟩ := hmem.1 (List.mem_cons_of_mem first hrest)
  refine ⟨hthere, hstored, fun hname => ?_⟩
  -- A session that is behind the first one has changed no later.
  have hfirst : first.1 = fresh := by
    have hle := (List.pairwise_cons.1 (hsorted ▸ pairwise_newestFirst _)).1 member hrest
    have hmember : member = (fresh, entry) :=
      List.inj_on_of_nodup_map hmembers.nodup hthere hentry hname
    rw [hmember, htime] at hle
    obtain ⟨hthere', hstored'⟩ := hmem.1 (List.mem_cons_self ..)
    have hnone : first.2.changed = none := by
      cases htime : first.2.changed with
      | none => rfl
      | some time => exact absurd (htime ▸ hle) (by simp [ChangeTime.le])
    exact hmembers.changed first hthere' hstored' hnone
  have hnodup : ((first :: rest).map Prod.fst).Nodup :=
    (hperm.map Prod.fst).nodup_iff.2 (hmembers.nodup.sublist (List.filter_sublist.map _))
  refine (List.nodup_cons.1 hnodup).1 ?_
  rw [hfirst, ← hname]
  exact List.mem_map_of_mem hrest

end BackupStore
end UsageOrder
