import UsageOrder.Proofs.Listing
import UsageOrder.Proofs.UndoneRuns

/-!
# The first copies of files

Between the opening of a session and its end files are backed up, by any path and in any order, while
files outside of the store's directory are written and removed and time passes
(`BackupStore.Course`).  Each file that was backed up is noted with what it held at the first backup
that succeeded.  The session keeps just these copies (`BackupStore.Course.saving`), whatever happens
elsewhere after its end (`BackupStore.Elsewhere.kept`), and restoring it gives them back and changes
nothing else, not even the list of sessions (`BackupStore.restore_course`).

The session has to be where its name says, in the directory of the sessions, and the way to that
directory may not lead through one of them (`BackupStore.restore_course_lost`).
-/

namespace UsageOrder
namespace BackupStore

variable {store : BackupStore} {session : Session} {home place : List String}
  {new : String → Prop} {copies : List Copy} {world world' start opened : World} {path : Path}

/-! ### What happens elsewhere -/

/-- **A change outside of the directory of the sessions:** a file is written or removed there, or time
passes. -/
inductive Elsewhere (store : BackupStore) (home : List String) : World → World → Prop
  | written {world world' : World} {text : String} {content : Content}
      (named : (Path.ofText text).parts ≠ [])
      (outside : ¬ store.base home <+: (Path.ofText text).spot home)
      (written : world.writeFile (Path.ofText text) (.file content none) = .ok world') :
      Elsewhere store home world world'
  | removed {world world' : World} {text : String} (named : (Path.ofText text).parts ≠ [])
      (outside : ¬ store.base home <+: (Path.ofText text).spot home)
      (removed : world.removeFile (Path.ofText text) = .ok world') :
      Elsewhere store home world world'
  | waited (world : World) (now : Nat) : Elsewhere store home world (world.later now)

/-- What is in the directory of the sessions stays when something is set outside of it. -/
theorem at?_put_outside {top file : Entry} (hbase : top.IsDirectoryAt (store.base home))
    (hplace : ¬ top.IsDirectoryAt place) (houtside : ¬ store.base home <+: place)
    (rest : List String) :
    (top.put place file).at? (store.base home ++ rest) = top.at? (store.base home ++ rest) := by
  refine Entry.at?_put_apart (fun hunder => ?_)
    (fun habove => houtside ((List.prefix_append _ _).trans habove)) top file
  rcases List.prefix_or_prefix_of_prefix hunder (List.prefix_append _ rest) with hprefix | hprefix
  · exact hplace (hbase.of_prefix hprefix)
  · exact houtside hprefix

theorem at?_remove_outside {top : Entry} (hbase : top.IsDirectoryAt (store.base home))
    (hplace : ¬ top.IsDirectoryAt place) (houtside : ¬ store.base home <+: place)
    (rest : List String) :
    (top.remove place).at? (store.base home ++ rest) = top.at? (store.base home ++ rest) := by
  refine Entry.at?_remove_apart (fun hunder => ?_)
    (fun habove => houtside ((List.prefix_append _ _).trans habove)) top
  rcases List.prefix_or_prefix_of_prefix hunder (List.prefix_append _ rest) with hprefix | hprefix
  · exact hplace (hbase.of_prefix hprefix)
  · exact houtside hprefix

/-- What is outside of the directory of the sessions is not in a directory there. -/
theorem parent_ne_of_outside {parent : List String} {name : String}
    (houtside : ¬ store.base home <+: parent ++ [name]) (below : List String) :
    parent ≠ store.base home ++ below := by
  rintro rfl
  exact houtside ((List.prefix_append _ _).trans (List.prefix_append _ _))

/-- **A session in progress stays one,** whatever happens elsewhere. -/
theorem Elsewhere.saving (h : store.Elsewhere home world world') (hsite : store.Site session home)
    (hsaving : Saving store session home new copies world) :
    Saving store session home new copies world' := by
  have hinside : ∀ {place}, ¬ store.base home <+: place →
      ¬ store.sessionPlace session.id home <+: place := fun houtside hprefix =>
    houtside ((List.prefix_append _ _).trans hprefix)
  cases h with
  | waited now => exact hsaving.later now
  | written hparts outside written =>
    obtain ⟨place, hplace, rfl⟩ := World.writeFile_eq_ok_iff.1 written
    obtain ⟨-, rfl⟩ := (hsaving.place_iff hsite).1 hplace.leads
    refine hsaving.put hplace hparts rfl (hinside outside) ?_
    obtain ⟨parent, hparent, hspot⟩ := hplace.exists_parent hparts
    rw [hspot] at outside ⊢
    have hne := parent_ne_of_outside outside
    exact hsaving.dated.put hparent (fun rest members changed => Entry.members_eq_nil_of_leaf rfl)
      (fun name hname => absurd hname (hne [name]))
      fun hbase => absurd (hbase.trans (List.append_nil _).symm) (hne [])
  | removed hparts outside removed =>
    obtain ⟨place, hplace, -, rfl⟩ := World.removeFile_eq_ok_iff.1 removed
    obtain ⟨-, rfl⟩ := (hsaving.place_iff hsite).1 hplace.leads
    refine hsaving.remove hplace hparts (hinside outside) ?_
    obtain ⟨parent, hparent, hspot⟩ := hplace.exists_parent hparts
    rw [hspot] at outside ⊢
    have hne := parent_ne_of_outside outside
    exact hsaving.dated.remove (fun name hname => absurd hname (hne [name])) fun _ _ hnew => hnew

/-- A session stays kept when its directory stays as it is, and so do all directories. -/
theorem Kept.of_at? (h : Kept store session home copies world)
    (hworking : world'.workingDirectory = world.workingDirectory)
    (hdirectory : ∀ place, world'.files.IsDirectoryAt place ↔ world.files.IsDirectoryAt place)
    (hat : ∀ rest, world'.files.at? (store.base home ++ rest) =
      world.files.at? (store.base home ++ rest)) : Kept store session home copies world' where
  stored := h.stored.imp fun name hstored => by
    cases hstored with
    | directory there holds => exact .directory ((hat _).trans there) holds
    | archive gone there usable holds =>
      refine .archive ?_ ((hat _).trans there) usable holds
      rw [Entry.seen, sessionPlace, hat]
      exact gone
  standing := h.standing.of_directories hworking fun place => (hdirectory place).2
  origin copy hcopy := (h.origin copy hcopy).mono (fun other => (hdirectory other).2)
    fun other hother => Or.inl ((hdirectory other).1 hother)

/-- **A session that is kept stays so,** whatever happens elsewhere. -/
theorem Elsewhere.kept (h : store.Elsewhere home world world') (hsite : store.Site session home)
    (hkept : Kept store session home copies world) : Kept store session home copies world' := by
  cases h with
  | waited now => exact hkept.later now
  | written hparts outside written =>
    obtain ⟨place, hplace, rfl⟩ := World.writeFile_eq_ok_iff.1 written
    obtain ⟨-, rfl⟩ := (hkept.standing.place_iff hsite).1 hplace.leads
    exact hkept.of_at? rfl (fun other => hplace.isDirectoryAt_put_iff hparts rfl)
      (at?_put_outside hkept.standing.directory hplace.notDirectory outside)
  | removed hparts outside removed =>
    obtain ⟨place, hplace, -, rfl⟩ := World.removeFile_eq_ok_iff.1 removed
    obtain ⟨-, rfl⟩ := (hkept.standing.place_iff hsite).1 hplace.leads
    exact hkept.of_at? rfl (fun other => hplace.isDirectoryAt_remove_iff hparts)
      (at?_remove_outside hkept.standing.directory hplace.notDirectory outside)

/-! ### Files that are backed up -/

/-- The copies once a backup has ended: if it has succeeded, and there is none of the file yet, there is
one of what the file held. -/
def noted (copies : List Copy) (place : List String) (content : Option Entry) :
    Except Fault (Option Path) → List Copy
  | .ok (some _) =>
    match content with
    | some content =>
      if place ∈ copies.map Copy.place then copies else copies ++ [⟨place, content⟩]
    | none => copies
  | _ => copies

/-- **The course of a session** from its opening on: files are backed up, whether that succeeds or not,
and there are changes elsewhere. -/
inductive Course (store : BackupStore) (home : List String) (opened : World) :
    List Copy → World → Prop
  | opened : Course store home opened [] opened
  | backedUp {copies : List Copy} {world world' : World} {text : String}
      {outcome : Except Fault (Option Path)} (course : Course store home opened copies world)
      (outside : ¬ store.base home <+: (Path.ofText text).spot home)
      (notMetadata : ¬ metadataFile.parts <+: (Path.ofText text).spot home)
      (notDirectory : ¬ world.files.IsDirectoryAt ((Path.ofText text).spot home))
      (result : store.backupFile (Path.ofText text) world = (outcome, world')) :
      Course store home opened (noted copies ((Path.ofText text).spot home)
        (world.files.contentAt ((Path.ofText text).spot home)) outcome) world'
  | elsewhere {copies : List Copy} {world world' : World}
      (course : Course store home opened copies world)
      (change : store.Elsewhere home world world') : Course store home opened copies world'

/-- What is not there is not backed up. -/
theorem backupFile_of_missing (hsession : world.session = some session)
    (h : world.pathExists path ≠ .ok true ∨ path.hasNull = true) :
    ∃ outcome log, store.backupFile path world = (outcome, { world with log := log }) ∧
      ∀ backup, outcome ≠ .ok (some backup) := by
  have hcurrent := currentSession_of_running store hsession
  rw [backupFile, Run.bind_ok hcurrent, Run.bind_apply, Run.pathExists, Run.read_apply]
  cases hthere : world.pathExists path with
  | error fault => exact ⟨.error fault, world.log, rfl, fun _ heq => absurd heq (by simp)⟩
  | ok there =>
    cases there with
    | false => exact ⟨.ok none, _, rfl, fun _ heq => absurd heq (by simp)⟩
    | true =>
      have hnull := h.resolve_left (not_not_intro hthere)
      have hresolve : Run.read (fun world => world.resolve path) world =
          (.error .badValue, world) := by
        rw [Run.read_apply, World.resolve, hnull]
        rfl
      exact ⟨.error .badValue, world.log, Run.bind_error hresolve _,
        fun _ heq => absurd heq (by simp)⟩

theorem noted_of_ne {content : Option Entry} {outcome : Except Fault (Option Path)}
    (h : ∀ backup, outcome ≠ .ok (some backup)) : noted copies place content outcome = copies := by
  rcases outcome with fault | (_ | backup)
  · rfl
  · rfl
  · exact absurd rfl (h backup)

theorem noted_of_mem {content : Option Entry} {outcome : Except Fault (Option Path)}
    (h : (∃ backup, outcome = .ok backup) → place ∈ copies.map Copy.place) :
    noted copies place content outcome = copies := by
  rcases outcome with fault | (_ | backup)
  · rfl
  · rfl
  · cases content with
    | none => rfl
    | some content => exact if_pos (h ⟨_, rfl⟩)

/-- **A backup keeps the copies that are noted,** and changes nothing but the session. -/
theorem Saving.noted (h : Saving store session home new copies world)
    (hsite : store.Site session home) (hid : new session.id) {text : String}
    {outcome : Except Fault (Option Path)}
    (houtside : ¬ store.base home <+: (Path.ofText text).spot home)
    (hmetadata : ¬ metadataFile.parts <+: (Path.ofText text).spot home)
    (hdirectory : ¬ world.files.IsDirectoryAt ((Path.ofText text).spot home))
    (hresult : store.backupFile (Path.ofText text) world = (outcome, world')) :
    Saving store session home new (BackupStore.noted copies ((Path.ofText text).spot home)
        (world.files.contentAt ((Path.ofText text).spot home)) outcome) world' ∧
      Entry.Within (store.sessionPlace session.id home) world.files world'.files := by
  generalize hpath : Path.ofText text = path at *
  by_cases hexists : world.pathExists path = .ok true ∧ path.hasNull = false
  · obtain ⟨hexists, hnull⟩ := hexists
    obtain ⟨place, hthere, hseen⟩ := World.pathExists_eq_true_iff.1 hexists
    obtain ⟨-, rfl⟩ := (h.place_iff hsite).1 hthere
    obtain ⟨file, hfile⟩ : ∃ file, world.files.seen (path.spot home) = some (some file) := by
      obtain ⟨found, hfound⟩ := Option.ne_none_iff_exists'.1 hseen
      cases found with
      | none => exact absurd hfound hdirectory
      | some file => exact ⟨file, hfound⟩
    have hplace : store.Eligible session.id home (path.spot home) := {
      ne_nil := fun hnil => hdirectory (hnil ▸ h.homeThere.root)
      names := by
        obtain rfl := hpath
        exact Path.isName_of_mem_spot hnull hsite.names
      apart := fun ⟨_, _, hprefix, _⟩ => houtside ((List.prefix_append _ _).trans hprefix)
      notInside := fun hprefix => houtside ((List.prefix_append _ _).trans hprefix)
      notMetadata := hmetadata }
    have hbacked := store.backupFile_cases path world
    rw [hresult] at hbacked
    obtain ⟨hwithin, ⟨hsaving, hlisted⟩ | ⟨content, backup, rfl, hnew, hcontent, hsaving⟩⟩ :=
      h.backedUp hsite hid hplace ⟨⟨hnull, hthere, hdirectory⟩, hfile⟩ hbacked
    · rw [noted_of_mem fun ⟨backup, hok⟩ => hlisted backup hok]
      exact ⟨hsaving, hwithin⟩
    · rw [hcontent, BackupStore.noted, if_neg hnew]
      exact ⟨hsaving, hwithin⟩
  · obtain ⟨outcome', log, hskipped, hfailed⟩ := backupFile_of_missing h.inProgress (by
      rw [not_and_or] at hexists
      simpa using hexists)
    obtain ⟨rfl, rfl⟩ := Prod.mk.inj (hskipped.symm.trans hresult)
    rw [noted_of_ne hfailed]
    exact ⟨h.of_seen rfl rfl (fun _ => rfl) h.dated, h.within⟩

/-- What is noted is noted outside of the directory of the sessions. -/
theorem outside_noted {content : Option Entry} {outcome : Except Fault (Option Path)}
    (h : ∀ copy ∈ copies, ¬ store.base home <+: copy.place) (hplace : ¬ store.base home <+: place) :
    ∀ copy ∈ noted copies place content outcome, ¬ store.base home <+: copy.place := by
  rcases outcome with fault | (_ | backup)
  · exact h
  · exact h
  · cases content with
    | none => exact h
    | some content =>
      rw [noted]
      split_ifs
      · exact h
      · exact List.forall_mem_append.2 ⟨h, List.forall_mem_singleton.2 hplace⟩

/-- **The session keeps what is noted in its course.** -/
theorem Course.saving (h : store.Course home opened copies world) (hsite : store.Site session home)
    (hopened : Saving store session home new [] opened) (hid : new session.id) :
    Saving store session home new copies world ∧
      ∀ copy ∈ copies, ¬ store.base home <+: copy.place := by
  induction h with
  | opened => exact ⟨hopened, fun copy hcopy => absurd hcopy List.not_mem_nil⟩
  | backedUp course outside notMetadata notDirectory result ih =>
    exact ⟨(ih.1.noted hsite hid outside notMetadata notDirectory result).1,
      outside_noted ih.2 outside⟩
  | elsewhere course change ih => exact ⟨change.saving hsite ih.1, ih.2⟩

/-! ### The session that is restored -/

/-- A session that can be opened under a name, which is that of an entry, in a directory to which the way
does not lead through a session. -/
structure Openable (store : BackupStore) (id : String) (start : World) : Prop
    extends store.Fresh id start where
  isName : Path.IsName id
  way : ∀ count name, sessionMark.toList.isPrefixOf name.toList = true →
    ¬ store.base start.workingDirectory ++ [name] <+:
      (store.directory.upTo count).spot start.workingDirectory

/-- A session that is opened has no copies. -/
theorem Openable.saving {description : Json} {directory : Path}
    (h : store.Openable (store.newSession description start.now).id start)
    (hopened : store.startSession description start = (.ok directory, opened)) :
    store.Site (store.newSession description start.now) start.workingDirectory ∧
      Saving store (store.newSession description start.now) start.workingDirectory
        (· = (store.newSession description start.now).id) [] opened := by
  have hsite : store.Site (store.newSession description start.now) start.workingDirectory := {
    names := h.world.names _ (by rw [h.world.workingDirectory]; simp)
    id := store.sessionName_newSession h.isName
    path := newSession_directory h.isName
    way := h.way }
  refine ⟨hsite, ?_⟩
  rw [startSession_apply] at hopened
  cases hmade : start.makeDirectories (store.newSession description start.now).directory with
  | error fault =>
    rw [hmade] at hopened
    exact absurd (Prod.mk.inj hopened).1 (by simp)
  | ok grown =>
    rw [hmade] at hopened
    obtain rfl := (Prod.mk.inj hopened).2
    exact Saving.opened hsite rfl rfl rfl h.world.workingDirectory h.unused h.toFresh.dated hmade

/-- **The first copies are given back.**  A session that was opened, used and ended can be restored,
whatever has happened elsewhere since: every file that was backed up holds what it held at its first
backup that succeeded, nothing else is seen to change, and the same sessions are listed. -/
theorem restore_course {description : Json} {directory : Path} {result : Option Path}
    {last ended later : World} {keep : Int}
    (hstart : store.Openable (store.newSession description start.now).id start)
    (hopened : store.startSession description start = (.ok directory, opened))
    (hcourse : store.Course start.workingDirectory opened copies last)
    (hkeep : store.keepSessions.toInt? = some keep) (hpos : 1 ≤ keep)
    (hended : store.finalize last = (.ok result, ended))
    (hlater : Relation.ReflTransGen (store.Elsewhere start.workingDirectory) ended later) :
    ∃ restored, store.restore (store.newSession description start.now).id later =
        (.ok true, restored) ∧
      (∀ copy ∈ copies, restored.files.contentAt copy.place = some copy.content) ∧
      (∀ place ∉ copies.map Copy.place, restored.files.seen place = later.files.seen place) ∧
      (store.sessions restored).1 = (store.sessions later).1 := by
  obtain ⟨hsite, hsaving⟩ := hstart.saving hopened
  obtain ⟨hsaved, houtside⟩ := hcourse.saving hsite hsaving rfl
  obtain ⟨hkept, -⟩ := hsaved.finalized hsite hkeep hpos hended
  have hlast : Kept store (store.newSession description start.now) start.workingDirectory copies
      later := by
    clear hended
    induction hlater with
    | refl => exact hkept
    | tail _ change ih => exact change.kept hsite ih
  obtain ⟨files, hrestored, hrestores⟩ := hlast.restored hsite
  refine ⟨_, hrestored, hrestores.contents, hrestores.others, ?_⟩
  have hdirectory : ∀ place, later.files.IsDirectoryAt place → files.IsDirectoryAt place := by
    intro place hplace
    refine (hrestores.others place fun hmem => ?_).trans hplace
    obtain ⟨copy, hcopy, rfl⟩ := List.mem_map.1 hmem
    exact (hlast.origin copy hcopy).notDirectory hplace
  obtain ⟨members, changed, hmembers⟩ := Entry.isDirectoryAt_iff.1 hlast.standing.directory
  obtain ⟨changed', hmembers'⟩ := hrestores.sessions houtside members changed hmembers
  exact sessions_congr ⟨hlast.standing, hlast.standing.of_directories rfl hdirectory, rfl,
    members, changed, changed', hmembers, hmembers'⟩ hsite.dots_not_mem

/-! ### A file that is rewritten -/

section
set_option maxRecDepth 2000

open CheckCommand Processor

/-- A file at the root. -/
def note (text : Text) : String × Entry := ("a.txt", .file (.text text) none)

/-- The file beside the directory of the sessions, in which one is in progress. -/
def noteWorld (text : Text) (inside : List (String × Entry)) (files : List String) : World :=
  { rootWorld [note text, (".backups", .directory [(firstSession.id, .directory inside none)] none)]
      (some 0) with session := some (sessionIn ".backups" files) }

/-- The file before the session. -/
def firstNote : World := rootWorld [note ['x'], (".backups", .directory [] (some 0))] (some 0)

theorem openable_firstNote : (storeIn ".backups").Openable firstSession.id firstNote where
  world := .of_tidy rfl (Entry.tidy_directory (by decide) (List.forall_mem_cons.2
    ⟨⟨by decide, Entry.tidy_leaf rfl⟩, List.forall_mem_singleton.2 ⟨by decide, Entry.tidy_empty⟩⟩))
  unused := rfl
  earlier members changed hmembers := by
    obtain ⟨rfl, -⟩ := Entry.directory.inj (Option.some.inj hmembers)
    exact fun _ hmember => absurd hmember List.not_mem_nil
  isName := by decide
  way := fun count name _ => not_prefix_backups count name

/-- The copy of the file. -/
def noteCopy : Path := ⟨0, [".backups", firstSession.id, "a.txt"]⟩

theorem startSession_firstNote : (storeIn ".backups").startSession (.str "fix") firstNote =
    (.ok (sessionIn ".backups" []).directory, noteWorld ['x'] [] []) := by
  have hnew : (storeIn ".backups").newSession (.str "fix") firstNote.now =
      sessionIn ".backups" [] := newSession_storeIn _ rfl
  have hmade : firstNote.makeDirectories (sessionIn ".backups" []).directory =
      .ok { noteWorld ['x'] [] [] with session := none } := rfl
  rw [startSession_apply, hnew, hmade]
  rfl

theorem ofText_note : Path.ofText "a.txt" = ⟨0, ["a.txt"]⟩ := Path.ofText_of_isName (by decide)

/-- The file is rewritten or removed, which is a change outside of the directory of the sessions. -/
theorem outside_note : ¬ (storeIn ".backups").base [] <+: (Path.ofText "a.txt").spot [] := by
  rw [ofText_note]
  decide

theorem parts_note : (Path.ofText "a.txt").parts ≠ [] := by
  rw [ofText_note]
  decide

/-- The file is backed up before it is rewritten, and once more. -/
theorem course_firstNote : (storeIn ".backups").Course [] (noteWorld ['x'] [] [])
    [⟨["a.txt"], .file (.text ['x']) none⟩] (noteWorld ['y'] [note ['x']] ["/a.txt"]) := by
  have hspot : (Path.ofText "a.txt").spot [] = ["a.txt"] := congrArg (Path.spot []) ofText_note
  have hmetadata : ¬ metadataFile.parts <+: (Path.ofText "a.txt").spot [] := by
    rw [hspot]
    decide
  have hfile : ∀ text inside files,
      ¬ (noteWorld text inside files).files.IsDirectoryAt ((Path.ofText "a.txt").spot []) := by
    intro text inside files h
    rw [hspot] at h
    exact Option.some_ne_none _ (Option.some.inj h)
  have hcopied : (noteWorld ['x'] [] []).copyFile ⟨0, ["a.txt"]⟩ noteCopy =
      .ok (noteWorld ['x'] [note ['x']] []) := rfl
  have hfirst : (storeIn ".backups").backupFile (Path.ofText "a.txt") (noteWorld ['x'] [] []) =
      (.ok (some noteCopy), noteWorld ['x'] [note ['x']] ["/a.txt"]) := by
    have hsession : (noteWorld ['x'] [] []).session = some (sessionIn ".backups" []) := rfl
    have hthere : (noteWorld ['x'] [] []).pathExists ⟨0, ["a.txt"]⟩ = .ok true := rfl
    have hmade : (noteWorld ['x'] [] []).makeDirectories noteCopy.parent =
        .ok (noteWorld ['x'] [] []) := rfl
    have hbackup := backupFile_of_copied (storeIn ".backups") hsession hthere rfl List.not_mem_nil
      hmade hcopied
    rw [ofText_note]
    exact hbackup
  have hwritten : (noteWorld ['x'] [note ['x']] ["/a.txt"]).writeFile (Path.ofText "a.txt")
      (.file (.text ['y']) none) = .ok (noteWorld ['y'] [note ['x']] ["/a.txt"]) := by
    rw [ofText_note]
    rfl
  have hsecond : (storeIn ".backups").backupFile (Path.ofText "a.txt")
      (noteWorld ['y'] [note ['x']] ["/a.txt"]) =
        (.ok (some noteCopy), noteWorld ['y'] [note ['x']] ["/a.txt"]) := by
    rw [ofText_note]
    rfl
  have hcourse := ((Course.opened.backedUp outside_note hmetadata (hfile _ _ _) hfirst).elsewhere
    (.written parts_note outside_note hwritten)).backedUp outside_note hmetadata (hfile _ _ _) hsecond
  rw [hspot] at hcourse
  exact hcourse

/-- **The file is given back as it was before the session,** though it was backed up again when it had
been rewritten and was removed after the session. -/
theorem restore_course_firstNote :
    (storeIn ".backups").Openable firstSession.id firstNote ∧
      (storeIn ".backups").Course [] (noteWorld ['x'] [] [])
        [⟨["a.txt"], .file (.text ['x']) none⟩] (noteWorld ['y'] [note ['x']] ["/a.txt"]) ∧
      ∃ ended later restored,
        (storeIn ".backups").finalize (noteWorld ['y'] [note ['x']] ["/a.txt"]) =
          (.ok (some (sessionIn ".backups" ["/a.txt"]).directory), ended) ∧
        Relation.ReflTransGen ((storeIn ".backups").Elsewhere []) ended later ∧
        later.files.contentAt ["a.txt"] = none ∧
        (storeIn ".backups").restore firstSession.id later = (.ok true, restored) ∧
        restored.files.contentAt ["a.txt"] = some (.file (.text ['x']) none) := by
  let written : World :=
    noteWorld ['y'] [note ['x'], metadataIn ".backups" ["/a.txt"]] ["/a.txt"]
  let later : World := rootWorld [(".backups", .directory [(firstSession.id,
    .directory [note ['x'], metadataIn ".backups" ["/a.txt"]] none)] none)] none
  have hsession : (noteWorld ['y'] [note ['x']] ["/a.txt"]).session =
      some (sessionIn ".backups" ["/a.txt"]) := rfl
  have hwrite : (noteWorld ['y'] [note ['x']] ["/a.txt"]).writeText
      ((sessionIn ".backups" ["/a.txt"]).directory.join metadataFile)
      (metadata (sessionIn ".backups" ["/a.txt"])).indented.toList = .ok written := rfl
  have hentries : (storeIn ".backups").sessionEntries written = .ok [(firstSession.id,
      .directory [note ['x'], metadataIn ".backups" ["/a.txt"]] none)] := rfl
  have hended : (storeIn ".backups").finalize (noteWorld ['y'] [note ['x']] ["/a.txt"]) =
      (.ok (some (sessionIn ".backups" ["/a.txt"]).directory), { written with session := none }) :=
    finalize_of_single hsession hwrite hentries
  have hgone : ({ written with session := none } : World).removeFile (Path.ofText "a.txt") =
      .ok later := by
    rw [ofText_note]
    rfl
  have hlater := Relation.ReflTransGen.single
    (Elsewhere.removed parts_note outside_note hgone)
  have hnew : (storeIn ".backups").newSession (.str "fix") firstNote.now =
      sessionIn ".backups" [] := newSession_storeIn _ rfl
  obtain ⟨restored, hrestored, hcontents, -⟩ := restore_course (hnew ▸ openable_firstNote)
    startSession_firstNote course_firstNote (rfl : (Json.int 1).toInt? = some 1) le_rfl hended hlater
  rw [hnew] at hrestored
  exact ⟨openable_firstNote, course_firstNote, _, _, restored, hended, hlater, rfl, hrestored,
    hcontents _ (List.mem_singleton_self _)⟩

/-! ### Where the sessions are -/

/-- A session with a name that leads back from the directory of the sessions. -/
def strayId : String := "fix_19700101_000000_000000_/../../x"

/-- The directory of this session. -/
def strayDirectory : Path := ⟨0, [".backups", "fix_19700101_000000_000000_", "..", "..", "x"]⟩

/-- This session. -/
def straySession : Session := ⟨strayId, firstSession.timestamp, strayDirectory, [], false⟩

/-- The file beside the directory of this session. -/
def strayWorld (inside : List (String × Entry)) (changed : ChangeTime) : World :=
  rootWorld [note ['x'],
    (".backups", .directory [("fix_19700101_000000_000000_", .directory [] none)] none),
    ("x", .directory inside changed)] none

theorem join_strayId : (Path.ofText ".backups").join (Path.ofText strayId) = strayDirectory := rfl

theorem newSession_stray : (storeIn ".backups").newSession (.str "/../../x") firstNote.now =
    straySession := by
  have hid : sessionMark ++ Timestamp.ofSeconds 0 ++
      (if (Json.str "/../../x").truthy then "_" ++ (Json.str "/../../x").plain else "") =
        strayId := rfl
  have hnow : firstNote.now = 0 := rfl
  rw [newSession, hnow, hid, ofSeconds_firstSession, storeIn, join_strayId]
  rfl

theorem startSession_stray : (storeIn ".backups").startSession (.str "/../../x") firstNote =
    (.ok strayDirectory, { strayWorld [] none with session := some straySession }) := by
  have hmade : firstNote.makeDirectories straySession.directory = .ok (strayWorld [] none) := rfl
  rw [startSession_apply, newSession_stray, hmade]
  rfl

theorem finalize_stray : (storeIn ".backups").finalize
      { strayWorld [] none with session := some straySession } =
    (.ok (some strayDirectory), strayWorld
      [("session.json", .file (.text (metadata straySession).indented.toList) none)] none) := by
  let written : World := { strayWorld [("session.json",
    .file (.text (metadata straySession).indented.toList) none)] none with
      session := some straySession }
  have hwrite : ({ strayWorld [] none with session := some straySession } : World).writeText
      (straySession.directory.join metadataFile) (metadata straySession).indented.toList =
        .ok written := rfl
  have hentries : (storeIn ".backups").sessionEntries written =
      .ok [("fix_19700101_000000_000000_", .directory [] none)] := rfl
  exact finalize_of_single rfl hwrite hentries


/-- Without its metadata the session is not found, and the metadata are outside of the directory of the
sessions. -/
theorem restore_stray : ∃ later last,
    (storeIn ".backups").Elsewhere [] (strayWorld
      [("session.json", .file (.text (metadata straySession).indented.toList) none)] none) later ∧
    (storeIn ".backups").restore strayId later = (.ok false, last) := by
  have hpath : Path.ofText "x/session.json" = ⟨0, ["x", "session.json"]⟩ := rfl
  have hgone : (strayWorld [("session.json",
      .file (.text (metadata straySession).indented.toList) none)] none).removeFile
        (Path.ofText "x/session.json") = .ok (strayWorld [] none) := by
    rw [hpath]
    rfl
  refine ⟨_, _, .removed (by rw [hpath]; decide) (by rw [hpath]; decide) hgone,
    restore_of_missing ?_ ?_⟩
  · have hthere : (strayWorld [] none).pathExists strayDirectory = .ok true := rfl
    rw [storeIn, join_strayId, unpackMissing, Run.bind_ok (Run.pathExists_iff.2 ⟨hthere, rfl⟩)]
    rfl
  · rw [storeIn, join_strayId]
    rfl

/-- **A session cannot be restored** when the way to it leads through a session that is removed, or when
its name leads out of the directory of the sessions. -/
theorem restore_course_lost :
    ((storeIn winding).Fresh (sessionIn winding []).id windingWorld ∧
      Path.IsName (sessionIn winding []).id ∧
      ∃ opened ended last,
        (storeIn winding).startSession (.str "fix") windingWorld =
          (.ok (sessionIn winding []).directory, opened) ∧
        (storeIn winding).Course [] opened [] opened ∧
        (storeIn winding).finalize opened =
          (.ok (some (sessionIn winding []).directory), ended) ∧
        (storeIn winding).restore (sessionIn winding []).id ended = (.ok false, last)) ∧
    ((storeIn ".backups").Fresh strayId firstNote ∧
      (∀ count name, ¬ (storeIn ".backups").base [] ++ [name] <+:
        ((storeIn ".backups").directory.upTo count).spot []) ∧
      ∃ opened ended later last,
        (storeIn ".backups").startSession (.str "/../../x") firstNote =
          (.ok strayDirectory, opened) ∧
        (storeIn ".backups").Course [] opened [] opened ∧
        (storeIn ".backups").finalize opened = (.ok (some strayDirectory), ended) ∧
        Relation.ReflTransGen ((storeIn ".backups").Elsewhere []) ended later ∧
        (storeIn ".backups").restore strayId later = (.ok false, last)) := by
  constructor
  · have hnew : (storeIn winding).newSession (.str "fix") windingWorld.now = sessionIn winding [] :=
      newSession_storeIn _ rfl
    have hstart : (storeIn winding).startSession (.str "fix") windingWorld =
        (.ok (sessionIn winding []).directory,
          { windingOpened with session := some (sessionIn winding []) }) := by
      rw [startSession_apply, hnew, makeDirectories_winding]
    have hfiles : ({ windingOpened with files := windingEnded } : World).files = windingEnded := rfl
    obtain ⟨last, hrestore⟩ := restore_winding hfiles rfl
    exact ⟨ordinary_winding.toFresh, by decide, _, _, last, hstart, .opened, finalize_winding,
      hrestore⟩
  · obtain ⟨later, last, hlater, hrestore⟩ := restore_stray
    exact ⟨⟨openable_firstNote.world, rfl, openable_firstNote.earlier⟩, not_prefix_backups, _, _,
      later, last, startSession_stray, .opened, finalize_stray, .single hlater, hrestore⟩

end

end BackupStore
end UsageOrder
