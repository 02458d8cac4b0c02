import UsageOrder.Proofs.Retained
import UsageOrder.Proofs.Timestamps

/-!
# Sessions that rest in their store

A session that has ended rests in the store as long as its entry stays in the directory of the sessions
and nothing comes to the place of its directory (`BackupStore.Rests.of_members`).  A store keeps its
latest sessions, the one in progress and what was in the directory before (`BackupStore.Keeps`):

| step | what becomes of the sessions |
|---|---|
| a session is opened | its name has the time, so it is a new one (`Keeps.opened`) |
| a file is backed up | only the session in progress changes (`Keeps.backedUp`) |
| a session ends | it is the latest (`Keeps.filed`), and the earliest are removed (`Retains.pruned`) |
| a session is restored | nothing changes in the directory (`Keeps.restored`) |
| anything elsewhere | nothing changes in the directory (`Keeps.elsewhere`) |

Times are what this rests on: no session has changed after it has ended, so the sessions are sorted by
the times of their ends, and their names are different because they were opened at different times.
-/

namespace UsageOrder
namespace BackupStore

variable {store : BackupStore} {session : Session} {home place : List String}
  {copies : List Copy} {others members members' : List (String × Entry)}
  {changed changed' : ChangeTime} {world world' start : World} {id name : String}

/-! ### The names of sessions -/

/-- A name that starts like those of the sessions that are opened at a time. -/
def Stamped (seconds : Nat) (name : String) : Prop :=
  sessionMark.toList ++ (Timestamp.ofSeconds seconds).toList <+: name.toList

namespace Stamped

variable {seconds seconds' : Nat}

theorem eq (h : Stamped seconds name) (h' : Stamped seconds' name) : seconds = seconds' := by
  obtain ⟨rest, hrest⟩ := h
  obtain ⟨rest', hrest'⟩ := h'
  rw [← hrest', List.append_assoc, List.append_assoc] at hrest
  exact Timestamp.eq_of_ofSeconds_append (List.append_cancel_left hrest)

theorem append (h : Stamped seconds name) (more : String) : Stamped seconds (name ++ more) := by
  rw [Stamped, String.toList_append]
  exact h.trans (List.prefix_append _ _)

theorem newSession (store : BackupStore) (description : Json) (seconds : Nat) :
    Stamped seconds (store.newSession description seconds).id := by
  rw [Stamped, BackupStore.newSession, String.toList_append, String.toList_append]
  exact List.prefix_append _ _

/-- A session is stored under a name with its time. -/
theorem stored (h : Stamped seconds session.id)
    (hstored : Stored store session home copies name world) : Stamped seconds name := by
  cases hstored with
  | directory => exact h
  | archive => exact h.append archiveEnd

end Stamped

/-! ### What is aside of the sessions -/

/-- A place that is in nothing that has the name of a session. -/
def Aside (store : BackupStore) (home place : List String) : Prop :=
  ∀ name, sessionMark.toList.isPrefixOf name.toList = true → ¬ store.base home ++ [name] <+: place

theorem aside_of_outside (h : ¬ store.base home <+: place) : store.Aside home place :=
  fun _ _ hstarts => h ((List.prefix_append _ _).trans hstarts)

theorem Aside.spared (h : store.Aside home place) : store.Spared home place world :=
  fun name hmark hstarts => absurd hstarts (h name hmark)

/-- A file outside of the directory of the sessions can be put back as long as nothing changes but the
sessions. -/
theorem Origin.of_aside (h : store.Origin id home place world)
    (houtside : ¬ store.base home <+: place)
    (hseen : ∀ other, store.Aside home other → world'.files.seen other = world.files.seen other) :
    store.Origin id home place world' where
  toEligible := h.toEligible
  above count hcount := (hseen _ (aside_of_outside fun hstarts =>
    houtside (hstarts.trans (List.take_prefix _ _)))).trans (h.above count hcount)
  notDirectory hdirectory :=
    h.notDirectory ((hseen _ (aside_of_outside houtside)).symm.trans hdirectory)

theorem Standing.isDirectoryAt_upTo (h : store.Standing home world) (count : Nat) :
    world.files.IsDirectoryAt ((store.directory.upTo count).spot home) := by
  by_cases hcount : count < store.directory.parts.length
  · have hthrough := h.leads.through count hcount
    rwa [h.workingDirectory] at hthrough
  · rw [Path.upTo, List.take_of_length_le (Nat.le_of_not_lt hcount)]
    exact h.directory

/-- What stays as it is whatever sessions there are: neither the working directory nor the way to the
directory of the sessions is in a session. -/
structure Ground (store : BackupStore) (home : List String) : Prop where
  noNull : store.directory.hasNull = false
  names : ∀ name ∈ home, Path.IsName name
  apart : store.Aside home home
  way : ∀ count, store.Aside home ((store.directory.upTo count).spot home)

theorem Ground.site (h : store.Ground home) {description : Json} {seconds : Nat}
    (hname : Path.IsName (store.newSession description seconds).id) :
    store.Site (store.newSession description seconds) home where
  names := h.names
  id := store.sessionName_newSession hname
  path := newSession_directory hname
  way := h.way

/-! ### Packing or not -/

/-- The store that packs its sessions, or that does not. -/
def compressing (store : BackupStore) (compression : Json) : BackupStore :=
  { store with compression := compression }

theorem Site.compressing (h : store.Site session home) (compression : Json) :
    (store.compressing compression).Site session home :=
  ⟨h.names, h.id, h.path, h.way⟩

theorem Origin.compressing (h : store.Origin id home place world) (compression : Json) :
    (store.compressing compression).Origin id home place world :=
  ⟨⟨h.ne_nil, h.names, h.apart, h.notInside, h.notMetadata⟩, h.above, h.notDirectory⟩

theorem Saving.compressing {new : String → Prop} (h : Saving store session home new copies world)
    (compression : Json) : Saving (store.compressing compression) session home new copies world :=
  { h with origin := fun copy hcopy => (h.origin copy hcopy).compressing compression }

theorem Standing.of_compressing {compression : Json}
    (h : (store.compressing compression).Standing home world) : store.Standing home world :=
  ⟨h.workingDirectory, h.leads, h.directory⟩

theorem Stored.of_compressing {compression : Json}
    (h : Stored (store.compressing compression) session home copies name world) :
    Stored store session home copies name world := by
  cases h with
  | directory there holds => exact .directory there holds
  | archive gone there usable holds => exact .archive gone there usable holds

/-! ### Sessions that have ended -/

/-- A session that has ended: its copies, the name under which it was stored, and when that was. -/
structure Ended where
  session : Session
  copies : List Copy
  name : String
  time : Nat

/-- The name and the time by which a session that has ended is listed. -/
def Ended.listed (ended : Ended) : String × Nat := (ended.name, ended.time)

/-- **A session that rests in its store:** it is stored, and the ways back to the files of its copies
are open, which are outside of the directory of the sessions. -/
structure Rests (store : BackupStore) (home : List String) (ended : Ended) (world : World) : Prop where
  site : store.Site ended.session home
  stored : Stored store ended.session home ended.copies ended.name world
  outside : ∀ copy ∈ ended.copies, ¬ store.base home <+: copy.place
  origin : ∀ copy ∈ ended.copies, store.Origin ended.session.id home copy.place world

namespace Rests

variable {ended : Ended}

theorem kept (h : store.Rests home ended world) (hstanding : store.Standing home world) :
    Kept store ended.session home ended.copies world :=
  ⟨⟨_, h.stored⟩, hstanding, h.origin⟩

theorem later (h : store.Rests home ended world) (now : Nat) :
    store.Rests home ended (world.later now) where
  site := h.site
  stored := h.stored.later now
  outside := h.outside
  origin copy hcopy := (h.origin copy hcopy).later now

/-- A session rests as long as its entry stays, nothing comes to the place of its directory, and
nothing changes but sessions. -/
theorem of_members (h : store.Rests home ended world)
    (hat : world.files.at? (store.base home) = some (.directory members changed))
    (hat' : world'.files.at? (store.base home) = some (.directory members' changed'))
    (hentry : members'.lookup ended.name = members.lookup ended.name)
    (hgone : members.lookup ended.session.id = none → members'.lookup ended.session.id = none)
    (hseen : ∀ other, store.Aside home other →
      world'.files.seen other = world.files.seen other) : store.Rests home ended world' where
  site := h.site
  stored := h.stored.of_members hat hat' hentry hgone
  outside := h.outside
  origin copy hcopy := (h.origin copy hcopy).of_aside (h.outside copy hcopy) hseen

/-- A session rests as long as its entry and that of its directory are among those that stay. -/
theorem of_filter (h : store.Rests home ended world) (kept : String → Bool)
    (hat : world.files.at? (store.base home) = some (.directory members changed))
    (hat' : world'.files.at? (store.base home) = some (.directory members' changed'))
    (hkept : (members'.filter fun member => kept member.1) =
      members.filter fun member => kept member.1)
    (hname : kept ended.name = true) (hid : kept ended.session.id = true)
    (hseen : ∀ other, store.Aside home other →
      world'.files.seen other = world.files.seen other) : store.Rests home ended world' := by
  have hlookup : ∀ {other}, kept other = true → members'.lookup other = members.lookup other := by
    intro other hother
    have hsame := congrArg (List.lookup other) hkept
    rwa [lookup_filter, lookup_filter, if_pos hother, if_pos hother] at hsame
  exact h.of_members hat hat' (hlookup hname) (fun hgone => (hlookup hid).trans hgone) hseen

end Rests

/-! ### What is known at every time -/

/-- The entries beside that of the session in progress. -/
def besides (current : Option (Session × List Copy)) (members : List (String × Entry)) :
    List (String × Entry) :=
  match current with
  | none => members
  | some (session, _) => members.filter fun member => decide (member.1 ≠ session.id)

/-- What is known of the session in progress, if there is one: it was opened before a limit, and not at
the time of one of those that have ended. -/
inductive Underway (store : BackupStore) (home : List String) (limit : Nat) (retained : List Ended)
    (world : World) : Option (Session × List Copy) → Prop
  | idle (idle : world.session = none) : Underway store home limit retained world none
  | running {session : Session} {copies : List Copy} {seconds : Nat} (site : store.Site session home)
      (saving : Saving store session home (· = session.id) copies world)
      (outside : ∀ copy ∈ copies, ¬ store.base home <+: copy.place) (opened : seconds < limit)
      (stamped : Stamped seconds session.id)
      (apart : ∀ ended ∈ retained, ¬ Stamped seconds ended.session.id) :
      Underway store home limit retained world (some (session, copies))

/-- **What a store retains:** in its directory there are the sessions that are retained, that in
progress, and what has been there before. -/
structure Retains (store : BackupStore) (home : List String) (others : List (String × Entry))
    (limit : Nat) (retained : List Ended) (current : Option (Session × List Copy)) (world : World) :
    Prop where
  standing : store.Standing home world
  homeThere : world.files.IsDirectoryAt home
  lists : ∃ members changed,
    world.files.at? (store.base home) = some (.directory members changed) ∧
      Lists world.now others (besides current members) (retained.map Ended.listed)
  rests : ∀ ended ∈ retained, store.Rests home ended world
  sorted : retained.Pairwise fun a b => b.time < a.time
  past : ∀ ended ∈ retained, ended.time < limit
  stamped : ∀ ended ∈ retained, ∃ seconds < limit, Stamped seconds ended.session.id

/-- What a store retains, and what is known of the session in progress. -/
structure Keeps (store : BackupStore) (home : List String) (others : List (String × Entry))
    (limit : Nat) (retained : List Ended) (current : Option (Session × List Copy)) (world : World) :
    Prop extends store.Retains home others limit retained current world where
  underway : Underway store home limit retained world current

variable {limit : Nat} {retained : List Ended} {current : Option (Session × List Copy)}

namespace Retains

theorem lists_of_at? (h : Retains store home others limit retained current world)
    (hat : world.files.at? (store.base home) = some (.directory members changed)) :
    Lists world.now others (besides current members) (retained.map Ended.listed) := by
  obtain ⟨_, _, hat', hlists⟩ := h.lists
  obtain ⟨rfl, -⟩ := Entry.directory.inj (Option.some.inj (hat.symm.trans hat'))
  exact hlists

/-- A session that has ended was opened at a time that its id and its name tell. -/
theorem exists_stamped (h : Retains store home others limit retained current world) {ended : Ended}
    (hended : ended ∈ retained) : ∃ seconds < limit, Stamped seconds ended.session.id ∧
      Stamped seconds ended.name := by
  obtain ⟨seconds, hbefore, hstamped⟩ := h.stamped ended hended
  exact ⟨seconds, hbefore, hstamped, hstamped.stored (h.rests ended hended).stored⟩

/-- At a time at which none of the sessions was opened none of their names was given. -/
theorem not_stamped (h : Retains store home others limit retained current world) {seconds : Nat}
    (hapart : ∀ ended ∈ retained, ¬ Stamped seconds ended.session.id) {ended : Ended}
    (hended : ended ∈ retained) : ¬ Stamped seconds ended.name := by
  obtain ⟨seconds', -, hid, hname⟩ := h.exists_stamped hended
  exact fun hsame => hapart ended hended (hsame.eq hname ▸ hid)

/-- What is a session beside the one in progress is one of those that are retained. -/
theorem exists_ended (h : Retains store home others limit retained current world)
    (hat : world.files.at? (store.base home) = some (.directory members changed))
    {member : String × Entry} (hmember : member ∈ besides current members)
    (hsession : isSession member = true) :
    ∃ ended ∈ retained, ended.name = member.1 ∧ ended.time = member.2.changed.getD world.now := by
  obtain ⟨ended, hended, hlisted⟩ := List.mem_map.1 ((h.lists_of_at? hat).sessions.mem_iff.1
    (List.mem_map_of_mem (List.mem_filter.2 ⟨hmember, hsession⟩)))
  exact ⟨ended, hended, Prod.mk.inj hlisted⟩

end Retains

/-- Sessions are retained as long as the directories and the entries of the directory of the sessions
are the same. -/
theorem Retains.of_same (h : Retains store home others limit retained current world)
    (hworking : world'.workingDirectory = world.workingDirectory) (hnow : world'.now = world.now)
    (hdirectory : ∀ place, world'.files.IsDirectoryAt place ↔ world.files.IsDirectoryAt place)
    (hsame : ∀ members changed,
      world.files.at? (store.base home) = some (.directory members changed) →
        ∃ changed', world'.files.at? (store.base home) = some (.directory members changed')) :
    Retains store home others limit retained current world' := by
  obtain ⟨members, changed, hat, hlists⟩ := h.lists
  obtain ⟨changed', hat'⟩ := hsame members changed hat
  refine ⟨h.standing.of_directories hworking fun place => (hdirectory place).2,
    (hdirectory _).2 h.homeThere, ⟨members, changed', hat', hnow ▸ hlists⟩,
    fun ended hended => ?_, h.sorted, h.past, h.stamped⟩
  obtain ⟨hsite, hstored, houtside, horigin⟩ := h.rests ended hended
  exact ⟨hsite, hstored.of_members hat hat' rfl id, houtside, fun copy hcopy =>
    (horigin copy hcopy).mono (fun other => (hdirectory other).2) fun other hother =>
      Or.inl ((hdirectory other).1 hother)⟩

namespace Keeps

theorem mono (h : Keeps store home others limit retained current world) {limit' : Nat}
    (hle : limit ≤ limit') : Keeps store home others limit' retained current world where
  standing := h.standing
  homeThere := h.homeThere
  lists := h.lists
  rests := h.rests
  sorted := h.sorted
  past ended hended := Nat.lt_of_lt_of_le (h.past ended hended) hle
  stamped ended hended :=
    (h.stamped ended hended).imp fun _ hstamped => ⟨Nat.lt_of_lt_of_le hstamped.1 hle, hstamped.2⟩
  underway := by
    cases h.underway with
    | idle idle => exact .idle idle
    | running site saving outside opened stamped apart =>
      exact .running site saving outside (Nat.lt_of_lt_of_le opened hle) stamped apart

/-- Time may pass. -/
theorem later (h : Keeps store home others limit retained current world)
    (hsettled : ∀ now, Entry.settleMembers now others = others) (now : Nat) :
    Keeps store home others limit retained current (world.later now) where
  standing := h.standing.later now
  homeThere := (Entry.isDirectoryAt_settle_iff _).2 h.homeThere
  lists := by
    obtain ⟨members, changed, hat, hlists⟩ := h.lists
    refine ⟨Entry.settleMembers world.now members, some (changed.getD world.now), ?_, ?_⟩
    · exact (Entry.at?_settle ..).trans (by rw [hat]; rfl)
    · have hbesides : besides current (Entry.settleMembers world.now members) =
          Entry.settleMembers world.now (besides current members) := by
        cases current with
        | none => rfl
        | some current =>
          rw [besides, besides, Entry.settleMembers_eq_map, Entry.settleMembers_eq_map,
            List.filter_map]
          rfl
      rw [hbesides]
      exact hlists.later now hsettled
  rests ended hended := (h.rests ended hended).later now
  sorted := h.sorted
  past := h.past
  stamped := h.stamped
  underway := by
    cases h.underway with
    | idle idle => exact .idle idle
    | running site saving outside opened stamped apart =>
      exact .running site (saving.later now) outside opened stamped apart

/-- A change after which the directories and the entries of the directory of the sessions are the same
keeps all. -/
theorem of_same (h : Keeps store home others limit retained current world)
    (hworking : world'.workingDirectory = world.workingDirectory) (hnow : world'.now = world.now)
    (hsession : world'.session = world.session)
    (hdirectory : ∀ place, world'.files.IsDirectoryAt place ↔ world.files.IsDirectoryAt place)
    (hsame : ∀ members changed,
      world.files.at? (store.base home) = some (.directory members changed) →
        ∃ changed', world'.files.at? (store.base home) = some (.directory members changed')) :
    Keeps store home others limit retained current world' := by
  have hretains := h.toRetains.of_same hworking hnow hdirectory hsame
  obtain ⟨members, changed, hat, -⟩ := h.lists
  obtain ⟨changed', hat'⟩ := hsame members changed hat
  have hsessions : store.SameSessions home world world' :=
    ⟨h.standing, hretains.standing, hnow, members, changed, changed', hat, hat'⟩
  refine ⟨hretains, ?_⟩
  cases h.underway with
  | idle idle => exact .idle (hsession.trans idle)
  | running site saving outside opened stamped apart =>
    refine .running site (saving.keep hworking hsession (fun place => (hdirectory place).2)
      (fun place hplace => Or.inl ((hdirectory place).1 hplace)) (fun below => ?_) ?_) outside
      opened stamped apart
    · exact Entry.contentAt_congr (by
        rw [sessionPlace, List.append_assoc]
        exact hsessions.seen_eq _)
    · intro inner time hinner
      obtain ⟨rfl, -⟩ := Entry.directory.inj (Option.some.inj (hat'.symm.trans hinner))
      exact saving.dated members changed hat

/-- What is kept when nothing changes but the entry of the session in progress. -/
theorem of_underway (h : Keeps store home others limit retained current world)
    (hunderway : Underway store home limit retained world' (some (session, copies)))
    (hnow : world'.now = world.now)
    (hat : world.files.at? (store.base home) = some (.directory members changed))
    (hat' : world'.files.at? (store.base home) = some (.directory members' changed'))
    (hothers : (members'.filter fun member => decide (member.1 ≠ session.id)) =
      members.filter fun member => decide (member.1 ≠ session.id))
    (hbesides : besides current members = members.filter fun member => decide (member.1 ≠ session.id))
    (hseen : ∀ other, ¬ store.sessionPlace session.id home <+: other →
      world'.files.seen other = world.files.seen other) :
    Keeps store home others limit retained (some (session, copies)) world' := by
  cases hunderway with
  | running site saving outside opened stamped apart =>
    refine ⟨⟨saving.standing site, saving.homeThere, ⟨members', changed', hat', ?_⟩,
      fun ended hended => ?_, h.sorted, h.past, h.stamped⟩,
      .running site saving outside opened stamped apart⟩
    · rw [besides, hothers, ← hbesides, hnow]
      exact h.lists_of_at? hat
    · have hname : ended.name ≠ session.id := fun heq =>
        h.not_stamped apart hended (heq ▸ stamped)
      have hid : ended.session.id ≠ session.id := fun heq => apart ended hended (heq ▸ stamped)
      exact (h.rests ended hended).of_filter (fun key => decide (key ≠ session.id)) hat hat' hothers
        (decide_eq_true hname) (decide_eq_true hid)
        fun other hother => hseen other (hother _ site.id.marked)

end Keeps

/-! ### A session is opened -/

/-- Only the directory of a session is made where there is that of the sessions. -/
theorem Standing.grows (h : store.Standing home world) (hsite : store.Site session home)
    (hgrows : World.Grows session.directory world world')
    (hat : world.files.at? (store.base home) = some (.directory members changed)) :
    (∃ members' changed',
      world'.files.at? (store.base home) = some (.directory members' changed') ∧
        (members'.filter fun member => decide (member.1 ≠ session.id)) =
          members.filter fun member => decide (member.1 ≠ session.id)) ∧
      ∀ other, ¬ store.sessionPlace session.id home <+: other →
        world'.files.seen other = world.files.seen other := by
  induction hgrows with
  | refl => exact ⟨⟨members, changed, hat, rfl⟩, fun _ _ => rfl⟩
  | @make between count made grown leads free ih =>
    obtain ⟨⟨members', changed', hat', hothers⟩, hseen⟩ := ih
    have hstanding : store.Standing home between :=
      h.of_directories grown.workingDirectory fun _ => grown.isDirectoryAt
    have hmade : made = (session.directory.upTo count).spot home :=
      ((hstanding.place_iff hsite).1 leads).2
    rcases hsite.spot_upTo count with ⟨count', heq⟩ | heq
    · have hthere := hstanding.isDirectoryAt_upTo count'
      rw [← heq, ← hmade, Entry.IsDirectoryAt, Entry.seen, free] at hthere
      exact absurd hthere (by simp)
    · rw [hmade, heq]
      obtain ⟨members'', changed'', hlast, hothers'⟩ :=
        Entry.at?_put_member hat' session.id (.directory [] none)
      exact ⟨⟨members'', changed'', hlast, hothers'.trans hothers⟩, fun other hother =>
        (Entry.seen_put_of_not_under hother _ _).trans (hseen other hother)⟩

/-- Nothing has the id of a session that is opened: a directory with it would be a session. -/
theorem Keeps.seen_session_eq_none (h : Keeps store home others limit retained none world)
    (hsite : store.Site session home) {seconds : Nat} (hstamped : Stamped seconds session.id)
    (hapart : ∀ ended ∈ retained, ¬ Stamped seconds ended.session.id)
    (hmade : world.makeDirectories session.directory = .ok world') :
    world.files.seen (store.sessionPlace session.id home) = none := by
  obtain ⟨members, changed, hat, -⟩ := h.lists
  have hworking := h.standing.workingDirectory
  have hthere := (World.isDirectoryAt_of_makeDirectories (hworking ▸ hsite.dots_not_mem)
    (hworking ▸ h.homeThere) hmade).2
  rw [hworking, hsite.spot_session] at hthere
  rcases (World.grows_of_makeDirectories hmade).2.seen (store.sessionPlace session.id home) with
    hsame | ⟨hfree, -⟩
  · obtain ⟨inner, time, hinner⟩ := Entry.isDirectoryAt_iff.1 (hsame.symm.trans hthere)
    obtain ⟨ended, hended, hused, -⟩ := h.exists_ended hat
      (mem_of_lookup ((Entry.at?_concat_iff hat).1 hinner))
      (Bool.and_eq_true_iff.2 ⟨hsite.id.marked, rfl⟩)
    exact absurd (hused ▸ hstamped) (h.not_stamped hapart hended)
  · exact hfree

/-- While no session is in progress no session is being changed. -/
theorem Keeps.dated (h : Keeps store home others limit retained none world)
    (hlimit : limit ≤ world.now) (new : String → Prop) :
    world.files.Dated (store.base home) new := by
  intro members changed hat
  refine ⟨(h.lists_of_at? hat).nodup, fun member hmember hsession htime => ?_⟩
  obtain ⟨ended, hended, -, hsame⟩ := h.exists_ended hat hmember hsession
  have hpast := h.past ended hended
  rw [htime, Option.getD_none] at hsame
  omega

/-- **A session is opened.** -/
theorem Keeps.opened (h : Keeps store home others limit retained none world)
    (hground : store.Ground home) (hlimit : limit ≤ world.now) {description : Json} {directory : Path}
    (hname : Path.IsName (store.newSession description world.now).id)
    (hresult : store.startSession description world = (.ok directory, world')) :
    Keeps store home others (world'.now + 1) retained
      (some (store.newSession description world.now, [])) world' := by
  have hsite := hground.site hname
  have hstamped := Stamped.newSession store description world.now
  have hapart : ∀ ended ∈ retained, ¬ Stamped world.now ended.session.id := by
    intro ended hended hsame
    obtain ⟨seconds, hbefore, hended'⟩ := h.stamped ended hended
    have heq := hsame.eq hended'
    omega
  rw [startSession_apply] at hresult
  generalize hnew : store.newSession description world.now = session at *
  cases hmade : world.makeDirectories session.directory with
  | error fault =>
    rw [hmade] at hresult
    exact absurd (Prod.mk.inj hresult).1 (by simp)
  | ok grown =>
    rw [hmade] at hresult
    obtain rfl := (Prod.mk.inj hresult).2
    obtain ⟨members, changed, hat, -⟩ := h.lists
    have hgrows := (World.grows_of_makeDirectories hmade).2
    obtain ⟨⟨members', changed', hat', hothers⟩, hseen⟩ := h.standing.grows hsite hgrows hat
    have hunused := h.seen_session_eq_none hsite hstamped hapart hmade
    have hfresh : members.lookup session.id = none := (Entry.seen_concat_eq_none_iff hat).1 hunused
    have hsaving : Saving store session home (· = session.id) []
        { grown with session := some session } :=
      Saving.opened hsite (hnew ▸ rfl) rfl h.standing.workingDirectory h.homeThere hunused
        (h.dated hlimit _) hmade
    have hnow : grown.now = world.now := by rw [hgrows.eq_files]
    have hlater : limit ≤ grown.now + 1 := by omega
    exact (h.mono hlater).of_underway (.running hsite hsaving
      (fun copy hcopy => absurd hcopy List.not_mem_nil) (by omega) hstamped hapart) hnow hat hat'
      hothers (Entry.filter_ne_of_lookup hfresh).symm hseen

/-! ### A file is backed up -/

/-- Backing up a file takes no time. -/
theorem now_of_backupFile {path : Path} {outcome : Except Fault (Option Path)}
    (h : store.backupFile path world = (outcome, world')) : world'.now = world.now := by
  have hmade : ∀ {path : Path} {before grown : World}, before.makeDirectories path = .ok grown →
      grown.now = before.now := fun hmade => by
    rw [(World.grows_of_makeDirectories hmade).2.eq_files]
  have hcurrent : ∀ {session : Session} {ready : World}, store.Current world session ready →
      ready.now = world.now := by
    intro session ready current
    cases current with
    | running inProgress => rfl
    | opened idle made =>
      have hgrown := hmade made
      exact hgrown
  have hbacked := store.backupFile_cases path world
  rw [h] at hbacked
  cases hbacked with
  | fault begun =>
    cases begun with
    | start => rfl
    | session current => exact hcurrent current
    | directories current made => exact (hmade made).trans (hcurrent current)
  | absent current gone =>
    have hready := hcurrent current
    exact hready
  | listed current known => exact hcurrent current
  | copied current unlisted made copied =>
    obtain ⟨-, -, -, -, -, -, rfl⟩ := World.copyFile_eq_ok_iff.1 copied
    exact (hmade made).trans (hcurrent current)

/-- **A file is backed up,** or that fails. -/
theorem Keeps.backedUp (h : Keeps store home others limit retained (some (session, copies)) world)
    {text : String} {outcome : Except Fault (Option Path)}
    (houtside : ¬ store.base home <+: (Path.ofText text).spot home)
    (hmetadata : ¬ metadataFile.parts <+: (Path.ofText text).spot home)
    (hdirectory : ¬ world.files.IsDirectoryAt ((Path.ofText text).spot home))
    (hresult : store.backupFile (Path.ofText text) world = (outcome, world')) :
    Keeps store home others limit retained
      (some (session, noted copies ((Path.ofText text).spot home)
        (world.files.contentAt ((Path.ofText text).spot home)) outcome)) world' := by
  obtain ⟨members, changed, hat, -⟩ := h.lists
  cases h.underway with
  | running site saving outside opened stamped apart =>
    obtain ⟨hsaving, hwithin⟩ := saving.noted site rfl houtside hmetadata hdirectory hresult
    obtain ⟨child, hat'⟩ := hwithin.members_eq hat
    exact h.of_underway (.running site hsaving (outside_noted outside houtside) opened stamped apart)
      (now_of_backupFile hresult) hat hat' (Entry.filter_setMember ..) rfl fun other hother =>
        hwithin.seen_eq hother

/-! ### What happens between the sessions -/

/-- **A session that rests is restored,** which changes nothing of what is kept. -/
theorem Keeps.restored (h : Keeps store home others limit retained current world) {ended : Ended}
    (hended : ended ∈ retained) :
    ∃ files, store.restore ended.session.id world = (.ok true, { world with files := files }) ∧
      store.Restores home ended.copies world.files files ∧
      Keeps store home others limit retained current { world with files := files } := by
  have hrests := h.rests ended hended
  obtain ⟨files, hrestored, hrestores⟩ := (hrests.kept h.standing).restored hrests.site
  refine ⟨files, hrestored, hrestores, h.of_same rfl rfl rfl (fun place => ?_)
    (hrestores.sessions hrests.outside)⟩
  by_cases hplace : place ∈ ended.copies.map Copy.place
  · obtain ⟨copy, hcopy, rfl⟩ := List.mem_map.1 hplace
    obtain ⟨file, hfile, -⟩ := Entry.contentAt_eq_some_iff.1 (hrestores.contents copy hcopy)
    exact iff_of_false (fun hthere => absurd (hfile.symm.trans hthere) (by simp))
      (hrests.origin copy hcopy).notDirectory
  · exact iff_of_eq (congrArg (· = some none) (hrestores.others place hplace))

/-- **A change outside of the directory of the sessions** changes nothing of what is kept. -/
theorem Keeps.elsewhere (h : Keeps store home others limit retained current world)
    (hground : store.Ground home) (hsettled : ∀ now, Entry.settleMembers now others = others)
    (hchange : store.Elsewhere home world world') :
    Keeps store home others limit retained current world' := by
  have hplace_iff : ∀ {path : Path} {place : List String}, world.place path = .ok place →
      place = path.spot home := fun hplace => by
    have hdots : ".." ∉ world.workingDirectory := fun hmem =>
      (hground.names _ (h.standing.workingDirectory ▸ hmem)).ne_dots rfl
    exact h.standing.workingDirectory ▸ ((World.place_eq_ok_iff hdots).1 hplace).2
  have hsame : ∀ {files : Entry}, (∀ rest, files.at? (store.base home ++ rest) =
      world.files.at? (store.base home ++ rest)) → ∀ members changed,
        world.files.at? (store.base home) = some (.directory members changed) →
          ∃ changed', files.at? (store.base home) = some (.directory members changed') := by
    intro files hfiles members changed hat
    refine ⟨changed, ?_⟩
    have hbase := hfiles []
    rw [List.append_nil] at hbase
    exact hbase.trans hat
  cases hchange with
  | waited now => exact h.later hsettled now
  | written hparts outside written =>
    obtain ⟨place, hplace, rfl⟩ := World.writeFile_eq_ok_iff.1 written
    obtain rfl := hplace_iff hplace.leads
    exact h.of_same rfl rfl rfl (fun other => hplace.isDirectoryAt_put_iff hparts rfl)
      (hsame (at?_put_outside h.standing.directory hplace.notDirectory outside))
  | removed hparts outside removed =>
    obtain ⟨place, hplace, -, rfl⟩ := World.removeFile_eq_ok_iff.1 removed
    obtain rfl := hplace_iff hplace.leads
    exact h.of_same rfl rfl rfl (fun other => hplace.isDirectoryAt_remove_iff hparts)
      (hsame (at?_remove_outside h.standing.directory hplace.notDirectory outside))

/-! ### A session ends -/

theorem storedName_cases (store : BackupStore) (id : String) :
    store.storedName id = id ∨ store.storedName id = id ++ archiveEnd := by
  rw [storedName]
  split_ifs
  · exact Or.inr rfl
  · exact Or.inl rfl

/-- No other session has a name under which that in progress can be stored. -/
theorem Retains.ne_of_mem_besides {seconds : Nat}
    (h : Retains store home others limit retained (some (session, copies)) world)
    (hid : SessionName session.id) (hstamped : Stamped seconds session.id)
    (hapart : ∀ ended ∈ retained, ¬ Stamped seconds ended.session.id)
    (hname : name = session.id ∨ name = session.id ++ archiveEnd)
    (hat : world.files.at? (store.base home) = some (.directory members changed)) :
    ∀ member ∈ besides (some (session, copies)) members, member.1 ≠ name := by
  rintro member hmember rfl
  rcases hname with hname | hname
  · exact of_decide_eq_true (List.mem_filter.1 hmember).2 hname
  · have hsession : isSession member = true := by
      rw [isSession, hname, hid.archive.marked, archiveEnd_isSuffixOf, Bool.or_true, Bool.and_true]
    obtain ⟨ended, hended, hsame, -⟩ := h.exists_ended hat hmember hsession
    refine h.not_stamped hapart hended ?_
    rw [hsame, hname]
    exact hstamped.append archiveEnd

/-- **The session in progress is one of those that are retained** when it has been stored. -/
theorem Keeps.filed (h : Keeps store home others limit retained (some (session, copies)) world)
    (hground : store.Ground home) (hlimit : limit ≤ world.now) {compression : Json} {filed : World}
    (hfiled : Filed (store.compressing compression) session home copies world filed) :
    Retains store home others (world.now + 1)
      (⟨session, copies, (store.compressing compression).storedName session.id, world.now⟩ ::
        retained) none filed := by
  obtain ⟨members, changed, hat, hlists⟩ := h.lists
  obtain ⟨hstored, hstanding, hchanged, hdated, hnow, houtside, hothers⟩ := hfiled
  have hname := (store.compressing compression).storedName_cases session.id
  generalize (store.compressing compression).storedName session.id = name at *
  obtain ⟨members', changed', hat', hrest⟩ := hothers members changed hat
  have hseen : ∀ other, store.Aside home other → filed.files.seen other = world.files.seen other :=
    fun other hother => houtside other hother.spared
  cases h.underway with
  | @running _ _ seconds site saving outside opened stamped apart =>
    have hfree := h.ne_of_mem_besides site.id stamped apart hname hat
    have hbesides : (members'.filter fun member => decide (member.1 ≠ name)) =
        besides (some (session, copies)) members :=
      hrest.trans (List.filter_eq_self.2 fun member hmember => decide_eq_true (hfree member hmember))
    obtain ⟨entry, hentry, hsession⟩ := hstored.exists_entry site.id
    have hmem := mem_of_lookup ((Entry.at?_concat_iff hat').1 hentry)
    have hall := Lists.cons (hbesides.symm ▸ hlists) (hdated _ _ hat').nodup hmem hsession
    rw [timed, hchanged entry hentry] at hall
    -- Beside the directory and the archive of the session all entries stay.
    have hboth : (members'.filter fun member =>
          decide (member.1 ≠ session.id) && decide (member.1 ≠ name)) =
        members.filter fun member => decide (member.1 ≠ session.id) && decide (member.1 ≠ name) := by
      have hfiltered := congrArg (List.filter fun member => decide (member.1 ≠ session.id)) hrest
      rw [List.filter_filter, List.filter_filter, List.filter_filter] at hfiltered
      refine hfiltered.trans (List.filter_congr fun member _ => ?_)
      rw [Bool.and_comm, ← Bool.and_assoc, Bool.and_self]
    have hstamped := stamped.stored hstored
    have hkept : ∀ {key : String}, ¬ Stamped seconds key →
        (decide (key ≠ session.id) && decide (key ≠ name)) = true := fun hnot =>
      Bool.and_eq_true_iff.2 ⟨decide_eq_true fun heq => hnot (heq ▸ stamped),
        decide_eq_true fun heq => hnot (heq ▸ hstamped)⟩
    exact {
      standing := hstanding.of_compressing
      homeThere := (hseen _ hground.apart).trans h.homeThere
      lists := ⟨members', changed', hat', hnow ▸ hall⟩
      rests := List.forall_mem_cons.2 ⟨⟨site, hstored.of_compressing, outside, fun copy hcopy =>
        (saving.origin copy hcopy).of_aside (outside copy hcopy) hseen⟩, fun ended hended =>
          (h.rests ended hended).of_filter
            (fun key => decide (key ≠ session.id) && decide (key ≠ name)) hat hat' hboth
            (hkept (h.not_stamped apart hended)) (hkept (apart ended hended)) hseen⟩
      sorted := List.pairwise_cons.2
        ⟨fun ended hended => Nat.lt_of_lt_of_le (h.past ended hended) hlimit, h.sorted⟩
      past := List.forall_mem_cons.2 ⟨Nat.lt_succ_self _, fun ended hended =>
        Nat.lt_succ_of_lt (Nat.lt_of_lt_of_le (h.past ended hended) hlimit)⟩
      stamped := List.forall_mem_cons.2 ⟨⟨seconds, by omega, stamped⟩, fun ended hended => by
        obtain ⟨seconds', hbefore, hstamped⟩ := h.stamped ended hended
        exact ⟨seconds', by omega, hstamped⟩⟩ }

/-- The sessions that are retained are in the order of their times, which are over. -/
theorem Retains.sorted_listed (h : Retains store home others limit retained current world)
    (hlimit : limit ≤ world.now + 1) :
    ((retained.map Ended.listed).Pairwise fun a b => b.2 < a.2) ∧
      ∀ item ∈ retained.map Ended.listed, item.2 ≤ world.now := by
  refine ⟨List.pairwise_map.2 h.sorted, List.forall_mem_map.2 fun ended hended => ?_⟩
  exact Nat.le_of_lt_succ (Nat.lt_of_lt_of_le (h.past ended hended) hlimit)

/-- **The earliest sessions are removed,** as far as they are too many. -/
theorem Retains.pruned (h : Retains store home others limit retained none world)
    (hground : store.Ground home) (hsite : store.Site session home) (hlimit : limit ≤ world.now + 1)
    {keep : Int} (hkeep : store.keepSessions.toInt? = some keep) (hpos : 1 ≤ keep) {count : Nat}
    (hresult : store.removeOld world = (.ok count, world')) :
    Retains store home others limit (retained.take keep.toNat) none world' ∧
      world'.now = world.now := by
  obtain ⟨members, changed, hat, hlists⟩ := h.lists
  obtain ⟨hsorted, hpast⟩ := h.sorted_listed hlimit
  obtain ⟨old, hsurplus, -, hremoved⟩ := removeOld_of_ok hsite h.standing hat hresult
  have hold := hlists.surplus hsorted hpast hkeep hpos hsurplus
  have hmarked : ∀ member ∈ old, sessionMark.toList.isPrefixOf member.1.toList = true :=
    fun member hmember => (Bool.and_eq_true_iff.1 (mem_of_surplus hkeep hsurplus hmember).2).1
  obtain ⟨hstanding, hnow, hleft, hframe⟩ := removeEach_of_ok hsite hmarked h.standing hremoved
  obtain ⟨changed', hat'⟩ := hleft members changed hat
  have hnames : old.map Prod.fst = ((retained.map Ended.listed).drop keep.toNat).map Prod.fst := by
    rw [← hold, List.map_map]
    rfl
  have hseen : ∀ other, store.Aside home other → world'.files.seen other = world.files.seen other :=
    fun other hother => hframe other fun member hmember => hother _ (hmarked member hmember)
  have htaken : ∀ {ended}, ended ∈ retained.take keep.toNat → ended ∈ retained := List.mem_of_mem_take
  refine ⟨⟨hstanding, (hseen _ hground.apart).trans h.homeThere, ⟨_, changed', hat', ?_⟩,
    fun ended hended => ?_, h.sorted.sublist (List.take_sublist _ _),
    fun ended hended => h.past ended (htaken hended),
    fun ended hended => h.stamped ended (htaken hended)⟩, hnow⟩
  · rw [List.map_take, hnow]
    exact hlists.drop hnames
  · have hitem : ended.listed ∈ (retained.map Ended.listed).take keep.toNat := by
      rw [← List.map_take]
      exact List.mem_map_of_mem hended
    have hkept : ended.name ∉ old.map Prod.fst := hnames ▸ hlists.not_mem_drop hitem
    refine (h.rests ended (htaken hended)).of_members hat hat' ?_ (fun hgone => ?_) hseen
    · rw [lookup_filter fun key => decide (key ∉ old.map Prod.fst), if_pos (decide_eq_true hkept)]
    · rw [lookup_filter fun key => decide (key ∉ old.map Prod.fst), hgone, ite_self]

/-- **A session ends:** it is the latest of those that are retained, and the earliest are removed. -/
theorem Keeps.ended (h : Keeps store home others limit retained (some (session, copies)) world)
    (hground : store.Ground home) (hlimit : limit ≤ world.now) {keep : Int}
    (hkeep : store.keepSessions.toInt? = some keep) (hpos : 1 ≤ keep) {compression : Json}
    {result : Option Path}
    (hresult : (store.compressing compression).finalize world = (.ok result, world')) :
    Keeps store home others (world'.now + 1)
      ((⟨session, copies, (store.compressing compression).storedName session.id, world.now⟩ ::
        retained).take keep.toNat) none world' := by
  cases h.underway with
  | running site saving outside opened stamped apart =>
    obtain ⟨filed, count, removed, hfiled, hremoved, rfl⟩ :=
      (saving.compressing compression).filed (site.compressing compression) hresult
    obtain ⟨hpruned, hnow⟩ := (h.filed hground hlimit hfiled).pruned hground site
      (Nat.le_of_eq (congrArg (· + 1) hfiled.now.symm)) hkeep hpos hremoved
    have hlast : Retains store home others (world.now + 1) _ none { removed with session := none } :=
      hpruned.of_same rfl rfl (fun _ => Iff.rfl) fun members changed hat => ⟨changed, hat⟩
    have hkeeps : Keeps store home others (world.now + 1) _ none { removed with session := none } :=
      ⟨hlast, .idle rfl⟩
    exact hkeeps.mono (Nat.le_of_eq (congrArg (· + 1) (hnow.trans hfiled.now).symm))

/-! ### What is retained -/

theorem Retains.directoryAt_eq (h : Retains store home others limit retained current world)
    (hground : store.Ground home)
    (hat : world.files.at? (store.base home) = some (.directory members changed)) :
    world.directoryAt store.directory = .ok members := by
  have hworking := h.standing.workingDirectory
  have hdots : ".." ∉ world.workingDirectory := fun hmem =>
    (hground.names _ (hworking ▸ hmem)).ne_dots rfl
  have hplace : world.place store.directory = .ok (store.base home) :=
    (World.place_eq_ok_iff hdots).2 ⟨h.standing.leads, by rw [hworking]; rfl⟩
  exact bind_eq_ok_iff.2
    ⟨_, World.locate_eq_ok_iff.2 ⟨hground.noNull, hplace, hat⟩, rfl⟩

/-- **The sessions that are retained are those that are listed.** -/
theorem Retains.exists_entries (h : Retains store home others limit retained none world)
    (hground : store.Ground home) (hlimit : limit ≤ world.now + 1) :
    ∃ entries, store.sessionEntries world = .ok entries ∧
      (newestFirst entries).map (timed world.now) = retained.map Ended.listed := by
  obtain ⟨members, changed, hat, hlists⟩ := h.lists
  obtain ⟨hsorted, hpast⟩ := h.sorted_listed hlimit
  exact ⟨members.filter isSession, bind_eq_ok_iff.2 ⟨members, h.directoryAt_eq hground hat, rfl⟩,
    hlists.newestFirst hsorted hpast⟩

/-- Where no session is too many none is removed. -/
theorem Retains.removeOld_eq (h : Retains store home others limit retained none world)
    (hground : store.Ground home) (hlimit : limit ≤ world.now + 1) {keep : Int}
    (hkeep : store.keepSessions.toInt? = some keep) (hfew : retained.length ≤ keep.toNat) :
    store.removeOld world = (.ok 0, world) := by
  obtain ⟨entries, hentries, hsorted⟩ := h.exists_entries hground hlimit
  have hlength := congrArg List.length hsorted
  rw [List.length_map, List.length_map] at hlength
  have hsurplus : store.surplus (newestFirst entries) = .ok [] := by
    rw [surplus_eq_drop hkeep, List.drop_of_length_le]
    rw [Text.clamp]
    split_ifs <;> omega
  rw [removeOld, Run.bind_ok (Run.read_iff.2 ⟨hentries, rfl⟩),
    Run.bind_ok (Run.ofExcept_iff.2 ⟨hsurplus, rfl⟩)]
  rfl

end BackupStore
end UsageOrder
