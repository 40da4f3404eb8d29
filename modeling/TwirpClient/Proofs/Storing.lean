import Mathlib.Data.List.Nodup
import TwirpClient.Proofs.FileNames
import TwirpClient.Proofs.Following
import TwirpClient.Proofs.Running

/-!
# Storing clients

What the second half of a run leaves behind. First the directory is made, and every place that its path leads
down to is a directory then (`ensureDirectory_run`). After that each client is written at the end of a path
that leads to the directory and down to one more name, which is never a name that leads elsewhere. So the tree
differs from the one before in no place but these (`World.run_stores`).
-/

namespace TwirpClient

/-! ## Making directories -/

namespace FileTree

/-- Whether a tree is another with new directories at some places. -/
def Gains (places : List Place) (tree tree' : FileTree) : Prop :=
  ∀ place, tree'.node? place = tree.node? place ∨
    place ∈ places ∧ tree.node? place = none ∧ tree'.node? place = some .directory

variable {tree tree' tree'' : FileTree} {places : List Place} {here place : Place} {path : String}
  {names : List String}

theorem Gains.refl (places : List Place) (tree : FileTree) : Gains places tree tree :=
  fun _ => .inl rfl

theorem Gains.trans (h : Gains places tree tree') (h' : Gains places tree' tree'') : Gains places tree tree'' := by
  intro place
  rcases h place with hsame | ⟨hplace, hnone, hmade⟩
  · rcases h' place with hsame' | ⟨hplace, hnone, hmade⟩
    · exact .inl (hsame'.trans hsame)
    · exact .inr ⟨hplace, hsame ▸ hnone, hmade⟩
  · rcases h' place with hsame' | ⟨-, hnone', -⟩
    · exact .inr ⟨hplace, hnone, hsame'.trans hmade⟩
    · rw [hmade] at hnone'
      cases hnone'

theorem Gains.mono {places' : List Place} (h : Gains places tree tree') (hsub : ∀ place ∈ places, place ∈ places') :
    Gains places' tree tree' :=
  fun place => (h place).imp_right (And.imp_left (hsub place))

theorem Gains.directory (h : Gains places tree tree') (hplace : tree.node? place = some .directory) :
    tree'.node? place = some .directory := by
  rcases h place with hsame | ⟨-, hnone, -⟩
  · exact hsame.trans hplace
  · rw [hplace] at hnone
    cases hnone

theorem directoryAt_eq_ok_iff :
    tree.directoryAt here path = .ok place ↔
      ∃ start, startOf here path = .ok start ∧ tree.walk start (Path.names path) = .ok place := by
  change (startOf here path).bind _ = _ ↔ _
  exact bind_eq_ok_iff

/-- A directory that is made is the last place that its path leads down to, and then the path leads to it. -/
theorem makeDirectory_gains (h : tree.makeDirectory here path = .ok tree') :
    Gains (Place.enteredBy here path) tree tree' ∧ ∃ place, tree'.directoryAt here path = .ok place := by
  obtain ⟨outer, name, slash, htarget, hnone, rfl⟩ := makeDirectory_eq_ok_iff.mp h
  obtain ⟨front, blanks, hnames, hblanks, hstart, hwalk, hdown, hsize, -⟩ := target_eq_entry_iff.mp htarget
  obtain ⟨hpasses, hfollow⟩ := walk_eq_ok_iff.mp hwalk
  have hentered : Place.enteredBy here path =
      (Place.start here path).entered front ++ [name :: outer] := by
    rw [Place.enteredBy, hnames, Place.entered_append, hfollow, Place.entered_cons_of_leadsDown hdown,
      Place.entered_blanks hblanks]
  have hput := node?_put tree .directory (List.cons_ne_nil name outer)
  have hgains : Gains (Place.enteredBy here path) tree (tree.put (name :: outer) .directory) := by
    intro place
    by_cases hplace : place = name :: outer
    · refine .inr ⟨?_, hplace ▸ hnone, ?_⟩
      · rw [hentered, hplace]
        exact List.mem_append_right _ List.mem_cons_self
      · rw [hput, if_pos hplace]
    · rw [hput, if_neg hplace]
      exact .inl rfl
  refine ⟨hgains, _, directoryAt_eq_ok_iff.mpr ⟨_, hstart, walk_eq_ok_iff.mpr ⟨⟨?_, ?_⟩, rfl⟩⟩⟩
  · intro inner hinner
    rw [← Place.enteredBy, hentered] at hinner
    rcases List.mem_append.mp hinner with hinner | hinner
    · exact hgains.directory (hpasses.isDirectory inner hinner)
    · rw [List.mem_singleton.mp hinner, hput, if_pos rfl]
  · intro other hother
    rw [hnames] at hother
    rcases List.mem_append.mp hother with hother | hother
    · exact hpasses.fits other hother
    · rcases List.mem_cons.mp hother with rfl | hother
      · exact hsize
      · rw [hblanks other hother]
        decide

/-! ## Writing files -/

variable {directory name other : String}

/-- Whether a file of a name can be written into a directory. -/
structure Receives (tree : FileTree) (here : Place) (directory name : String) : Prop where
  starts : startOf here (Path.join directory name) = .ok (Place.start here directory)
  passes : tree.Passes (Place.start here directory) (Path.names directory)
  fits : name.utf8ByteSize ≤ maxName
  isFree : tree.node? (name :: Place.ofPath here directory) ≠ some .directory

/-- A file is written at its name in the place of the directory. -/
theorem writeFile_join_eq_ok_iff (hslash : '/' ∉ name.toList) (hdown : Place.LeadsDown name) {content : List UInt8} :
    tree.writeFile here (Path.join directory name) content = .ok tree' ↔
      tree.Receives here directory name ∧
        tree.put (name :: Place.ofPath here directory) (.file content) = tree' := by
  obtain ⟨front, hnames, hfront⟩ := Path.names_join directory hslash
  have hstart := Place.start_join hslash here directory
  have hwalk : ∀ place, tree.walk (Place.start here directory) front = .ok place ↔
      tree.Passes (Place.start here directory) (Path.names directory) ∧ Place.ofPath here directory = place := by
    intro place
    rw [Place.ofPath, ← walk_eq_ok_iff]
    rcases hfront with hfront | hfront
    · rw [hfront]
    · rw [hfront, walk_append_blank]
  rw [writeFile_eq_ok_iff]
  constructor
  · rintro ⟨place, last, htarget, hnode, rfl⟩
    obtain ⟨names, blanks, hsplit, -, hstarts, hfollowed, -, hsize, hslash⟩ := target_eq_entry_iff.mp htarget
    obtain rfl : blanks = [] := by simpa using hslash
    obtain ⟨rfl, hlast⟩ := List.append_inj' (hnames.symm.trans hsplit) rfl
    obtain rfl := (List.cons.inj hlast).1
    rw [hstart] at hstarts hfollowed
    obtain ⟨hpasses, rfl⟩ := (hwalk place).mp hfollowed
    exact ⟨⟨hstarts, hpasses, hsize, hnode⟩, rfl⟩
  · rintro ⟨⟨hstarts, hpasses, hsize, hnode⟩, rfl⟩
    refine ⟨_, name, target_eq_entry_iff.mpr ⟨front, [], hnames, by simp, ?_, ?_, hdown, hsize, rfl⟩, hnode, rfl⟩
    · rw [hstart, hstarts]
    · rw [hstart]
      exact (hwalk _).mpr ⟨hpasses, rfl⟩

/-- A file in a directory keeps none of the others from being written. -/
theorem Receives.put_iff (h : tree.Receives here directory name) (content : List UInt8) :
    (tree.put (name :: Place.ofPath here directory) (.file content)).Receives here directory other ↔
      tree.Receives here directory other := by
  have hput := node?_put tree (.file content) (List.cons_ne_nil name (Place.ofPath here directory))
  have hpasses : (tree.put (name :: Place.ofPath here directory) (.file content)).Passes
      (Place.start here directory) (Path.names directory) := by
    refine ⟨fun inner hinner => ?_, h.passes.fits⟩
    have hinnerDirectory := h.passes.isDirectory inner hinner
    rw [hput, if_neg, hinnerDirectory]
    rintro rfl
    exact h.isFree hinnerDirectory
  have hfree : (tree.put (name :: Place.ofPath here directory) (.file content)).node?
      (other :: Place.ofPath here directory) ≠ some .directory ↔
        tree.node? (other :: Place.ofPath here directory) ≠ some .directory := by
    rw [hput]
    split
    next hsame =>
      rw [hsame]
      exact ⟨fun _ => h.isFree, fun _ => nofun⟩
    next => rfl
  exact ⟨fun h' => ⟨h'.starts, h.passes, h'.fits, hfree.mp h'.isFree⟩,
    fun h' => ⟨h'.starts, hpasses, h'.fits, hfree.mpr h'.isFree⟩⟩

/-- The tree with the files of some clients at a place, each in place of any before of its name. -/
def store (tree : FileTree) (place : Place) (clients : List Client.ClientFile) : FileTree :=
  clients.foldl (fun tree client => tree.put (client.name :: place) (.file (Text.Utf8.encode client.content))) tree

/-- Of clients with one name, the last is found. -/
theorem node?_store (clients : List Client.ClientFile) (place : Place) :
    (tree.store here clients).node? place =
      match clients.reverse.find? fun client => client.name :: here = place with
      | some client => some (.file (Text.Utf8.encode client.content))
      | none => tree.node? place := by
  induction clients generalizing tree with
  | nil => rfl
  | cons client clients ih =>
    rw [store, List.foldl_cons, ← store, ih, List.reverse_cons, List.find?_append]
    cases clients.reverse.find? fun client => client.name :: here = place with
    | some later => rfl
    | none =>
      rw [node?_put _ _ (List.cons_ne_nil _ _), Option.none_or]
      by_cases hplace : client.name :: here = place
      · rw [List.find?_cons_of_pos (by simpa using hplace), if_pos hplace.symm]
      · rw [List.find?_cons_of_neg (by simpa using hplace), if_neg (Ne.symm hplace)]
        rfl

/-- Clients of different names are all found. -/
theorem node?_store_of_nodup {clients : List Client.ClientFile} {client : Client.ClientFile}
    (hnodup : (clients.map Client.ClientFile.name).Nodup) (hclient : client ∈ clients) :
    (tree.store here clients).node? (client.name :: here) = some (.file (Text.Utf8.encode client.content)) := by
  rw [node?_store]
  cases hfind : clients.reverse.find? fun other => other.name :: here = client.name :: here with
  | none =>
    have hnone := List.find?_eq_none.mp hfind client (List.mem_reverse.mpr hclient)
    simp at hnone
  | some other =>
    have hname : other.name = client.name := by simpa using List.find?_some hfind
    have hother := List.mem_reverse.mp (List.mem_of_find?_eq_some hfind)
    rw [List.inj_on_of_nodup_map hnodup hother hclient hname]

end FileTree

namespace Command

open Client FileTree
open Wire (Bytes)

variable {world : World} {path directory : String} {paths : List String} {places : List Place}

/-- An attempt to make a directory, which may be there already: what is said if it is not there now, and the world
after it. -/
def World.makeOrFind (world : World) (path : String) : Except String Unit × World :=
  let attempt := world.tree.makeDirectory world.here path
  (if attempt.isOk ∨ (world.tree.directoryAt world.here path).isOk then .ok () else .error world.words,
    world.settle attempt)

theorem acceptMaking_run (path : String) (world : World) {attempt : Except Obstacle FileTree}
    (hattempt : world.tree.makeDirectory world.here path = attempt) :
    (acceptMaking (m := StateM World) path (World.makingOf world.words attempt)).run (world.settle attempt) =
      world.makeOrFind path := by
  have hfind : (liftM (Host.isDirectory path : StateM World Bool) : ExceptT String (StateM World) Bool).run world =
      (.ok (world.tree.directoryAt world.here path).isOk, world) := rfl
  rw [World.makeOrFind, hattempt]
  rcases attempt with obstacle | tree
  · cases obstacle with
    | missing | blocked =>
      change (acceptMaking (m := StateM World) path _).run world = _
      rw [World.makingOf, acceptMaking, bind_run, hfind]
      cases (world.tree.directoryAt world.here path).isOk with
      | false => rfl
      | true => rfl
  · rfl

/-- A directory is attempted once, or again after those around it if it has no place to be in. -/
theorem makeDirectories_cons_run (path : String) (around : List String) (world : World) :
    (makeDirectories (m := StateM World) (path :: around)).run world =
      if World.makingOf world.words (world.tree.makeDirectory world.here path) = .homeless world.words then
        let outer := (makeDirectories (m := StateM World) around).run world
        if outer.1.isOk then outer.2.makeOrFind path else outer
      else world.makeOrFind path := by
  have hmake : ∀ world : World,
      (liftM (Host.makeDirectory path : StateM World Making) : ExceptT String (StateM World) Making).run world =
        (.ok (World.makingOf world.words (world.tree.makeDirectory world.here path)),
          world.settle (world.tree.makeDirectory world.here path)) := fun _ => rfl
  rw [makeDirectories, bind_run, hmake]
  -- Only a directory without a place to be in is attempted again, and only if those around it were made.
  cases hattempt : world.tree.makeDirectory world.here path with
  | ok tree => exact acceptMaking_run path world hattempt
  | error obstacle =>
    cases obstacle with
    | blocked => exact acceptMaking_run path world hattempt
    | missing =>
      change ExceptT.run (m := StateM World) (makeDirectories around >>= _) world = _
      rw [bind_run, if_pos (show World.makingOf _ (.error .missing) = .homeless _ from rfl)]
      rcases (makeDirectories (m := StateM World) around).run world with ⟨words | _, after⟩
      · rfl
      · change ExceptT.run (m := StateM World) (liftM (Host.makeDirectory path : StateM World Making) >>= _) after =
          after.makeOrFind path
        rw [bind_run, hmake]
        exact acceptMaking_run path after rfl

theorem makeOrFind_run (world : World) (hpath : ∀ inner ∈ Place.enteredBy world.here path, inner ∈ places) :
    ∃ done tree, world.makeOrFind path = (done, { world with tree := tree }) ∧ Gains places world.tree tree ∧
      (done.isOk = true → ∃ place, tree.directoryAt world.here path = .ok place) := by
  rw [World.makeOrFind]
  cases hmake : world.tree.makeDirectory world.here path with
  | ok tree =>
    obtain ⟨hgains, hplace⟩ := makeDirectory_gains hmake
    exact ⟨.ok (), tree, rfl, hgains.mono hpath, fun _ => hplace⟩
  | error obstacle =>
    refine ⟨_, world.tree, rfl, .refl _ _, fun hdone => ?_⟩
    split at hdone
    next hthere => exact isOk_iff.mp (hthere.resolve_left nofun)
    next => cases hdone

/-- However far it comes, making directories gains only places that the paths lead down to. If it succeeds, its
first path leads to a directory. -/
theorem makeDirectories_run (places : List Place) (paths : List String) (world : World)
    (hpaths : ∀ path ∈ paths, ∀ inner ∈ Place.enteredBy world.here path, inner ∈ places) :
    ∃ done tree, (makeDirectories (m := StateM World) paths).run world = (done, { world with tree := tree }) ∧
      Gains places world.tree tree ∧
      (done.isOk = true → ∀ path ∈ paths.head?, ∃ place, tree.directoryAt world.here path = .ok place) := by
  induction paths with
  | nil => exact ⟨.ok (), world.tree, rfl, .refl _ _, fun _ => nofun⟩
  | cons path around ih =>
    obtain ⟨hpath, haround⟩ := List.forall_mem_cons.mp hpaths
    simp only [List.head?_cons, Option.mem_some_iff, forall_eq']
    rw [makeDirectories_cons_run]
    split
    next =>
      obtain ⟨done, outer, hrun, hgains, -⟩ := ih haround
      rw [hrun]
      cases done with
      | error words => exact ⟨.error words, outer, rfl, hgains, nofun⟩
      | ok =>
        obtain ⟨done, tree, hrun', hgains', hthere⟩ := makeOrFind_run { world with tree := outer } hpath
        exact ⟨done, tree, hrun', hgains.trans hgains', hthere⟩
    next => exact makeOrFind_run world hpath

/-- If a directory is there in the end, so is everything that its path leads down to, which was there or was
missing before, and nothing else has changed. -/
theorem ensureDirectory_run (directory : String) (world : World) :
    ∃ done tree, (ensureDirectory (m := StateM World) directory).run world = (done, { world with tree := tree }) ∧
      (done.isOk = true →
        (directory = "" ∨ tree.directoryAt world.here directory = .ok (Place.ofPath world.here directory)) ∧
        (∀ place ∈ Place.enteredBy world.here directory,
          world.tree.node? place = none ∨ world.tree.node? place = some .directory) ∧
        ∀ place, tree.node? place =
          if place ∈ Place.enteredBy world.here directory then some .directory else world.tree.node? place) := by
  rw [ensureDirectory]
  by_cases hempty : directory = ""
  · rw [if_pos hempty, hempty]
    refine ⟨.ok (), world.tree, rfl, fun _ => ⟨.inl rfl, nofun, fun place => (if_neg ?_).symm⟩⟩
    exact nofun
  · rw [if_neg hempty]
    obtain ⟨done, tree, hrun, hgains, hthere⟩ := makeDirectories_run (Place.enteredBy world.here directory)
      (directory :: Path.ancestors directory) world
      (List.forall_mem_cons.mpr ⟨fun _ => id, fun around => Place.enteredBy_ancestors⟩)
    refine ⟨done, tree, hrun, fun hdone => ?_⟩
    obtain ⟨last, hlast⟩ := hthere hdone directory rfl
    obtain ⟨start, hstart, hwalk⟩ := directoryAt_eq_ok_iff.mp hlast
    obtain rfl := startOf_eq_ok hstart
    obtain ⟨hpasses, rfl⟩ := walk_eq_ok_iff.mp hwalk
    refine ⟨.inr hlast, fun place hentered => ?_, fun place => ?_⟩
    · rcases hgains place with hsame | ⟨-, hnone, -⟩
      · exact .inr (hsame.symm.trans (hpasses.isDirectory place hentered))
      · exact .inl hnone
    · split
      next hentered => exact hpasses.isDirectory place hentered
      next hentered =>
        rcases hgains place with hsame | ⟨hplace, -⟩
        · exact hsame
        · exact absurd hplace hentered

/-! ## Writing clients -/

/-- A client that has a generated file's name. -/
def IsNamed (client : ClientFile) : Prop := '/' ∉ client.name.toList ∧ Place.LeadsDown client.name

section WriteClient

variable {client : ClientFile}

theorem writeClient_run_ok {tree : FileTree} (h : world.tree.writeFile world.here (Path.join directory client.name)
      (Text.Utf8.encode client.content) = .ok tree) :
    (writeClient (m := StateM World) directory client).run world = (.ok (), { world with tree := tree }) := by
  have hwrite : (Host.writeFile (m := StateM World) (Path.join directory client.name)
      (Text.Utf8.encode client.content)).run world = (.ok (), { world with tree := tree }) := by
    change (world.answer _, World.settle _ _) = _
    rw [h]
    rfl
  rw [writeClient, adapt_run, hwrite]
  rfl

theorem writeClient_run_error {obstacle : Obstacle} (h : world.tree.writeFile world.here
      (Path.join directory client.name) (Text.Utf8.encode client.content) = .error obstacle) :
    (writeClient (m := StateM World) directory client).run world =
      (.error (.fileUnwritable (Path.join directory client.name) world.words), world) := by
  have hwrite : (Host.writeFile (m := StateM World) (Path.join directory client.name)
      (Text.Utf8.encode client.content)).run world = (.error world.words, world) := by
    change (world.answer _, World.settle _ _) = _
    rw [h]
    rfl
  rw [writeClient, adapt_run, hwrite]
  rfl

end WriteClient

/-- Writing clients succeeds if each of them could be written by itself, and fails otherwise. -/
theorem writeClients_run (directory : String) (clients : List ClientFile)
    (hnamed : ∀ client ∈ clients, IsNamed client) (world : World) :
    (∀ client ∈ clients, world.tree.Receives world.here directory client.name) ∧
        (clients.forM (writeClient (m := StateM World) directory)).run world =
          (.ok (), { world with tree := world.tree.store (Place.ofPath world.here directory) clients }) ∨
      (¬∀ client ∈ clients, world.tree.Receives world.here directory client.name) ∧
        ∃ failure after,
          (clients.forM (writeClient (m := StateM World) directory)).run world = (.error failure, after) := by
  induction clients generalizing world with
  | nil => exact .inl ⟨nofun, rfl⟩
  | cons client clients ih =>
    obtain ⟨⟨hslash, hdown⟩, hnamed⟩ := List.forall_mem_cons.mp hnamed
    have hfirst : (client :: clients).forM (writeClient (m := StateM World) directory) =
        writeClient directory client >>= fun _ => clients.forM (writeClient directory) := rfl
    rw [hfirst, bind_run, List.forall_mem_cons]
    cases hwrite : world.tree.writeFile world.here (Path.join directory client.name)
        (Text.Utf8.encode client.content) with
    | error obstacle =>
      rw [writeClient_run_error hwrite]
      refine .inr ⟨fun hall => ?_, _, _, rfl⟩
      rw [(writeFile_join_eq_ok_iff hslash hdown).mpr ⟨hall.1, rfl⟩] at hwrite
      cases hwrite
    | ok tree =>
      rw [writeClient_run_ok hwrite]
      obtain ⟨hreceives, rfl⟩ := (writeFile_join_eq_ok_iff hslash hdown).mp hwrite
      -- The other clients could be written after this one exactly if they could be before.
      have hrest := ih hnamed { world with
        tree := world.tree.put (client.name :: Place.ofPath world.here directory)
          (.file (Text.Utf8.encode client.content)) }
      simp only [hreceives.put_iff] at hrest
      rw [and_iff_right hreceives]
      exact hrest

theorem isNamed_of_generateSet {files : List Schema.File} {options : Options} {clients : List ClientFile}
    (h : Plugin.generateSet files options = .ok clients) : ∀ client ∈ clients, IsNamed client := by
  intro client hclient
  have hname : client.name ∈ clients.map ClientFile.name := List.mem_map_of_mem hclient
  rw [Generator.names_of_generateAll h] at hname
  obtain ⟨path, -, hpath⟩ := List.mem_map.mp hname
  rw [IsNamed, ← hpath]
  exact ⟨Naming.slash_notMem_outputName path, Naming.outputName_leadsDown path⟩

theorem isOk_writeFile_iff {client : ClientFile} (h : IsNamed client) (directory : String) (tree : FileTree)
    (here : Place) :
    (tree.writeFile here (Path.join directory client.name) (Text.Utf8.encode client.content)).isOk = true ↔
      tree.Receives here directory client.name := by
  simp only [isOk_iff, writeFile_join_eq_ok_iff h.1 h.2, exists_and_left, exists_eq', and_true]

/-- A directory stays where its path leads when files are stored in it. -/
theorem directoryAt_store {tree : FileTree} {here : Place} {directory : String} {clients : List ClientFile}
    (h : tree.directoryAt here directory = .ok (Place.ofPath here directory))
    (hreceives : ∀ client ∈ clients, tree.Receives here directory client.name) :
    (tree.store (Place.ofPath here directory) clients).directoryAt here directory =
      .ok (Place.ofPath here directory) := by
  obtain ⟨start, hstart, hwalk⟩ := directoryAt_eq_ok_iff.mp h
  obtain rfl := startOf_eq_ok hstart
  obtain ⟨⟨hdirectory, hfits⟩, -⟩ := walk_eq_ok_iff.mp hwalk
  refine directoryAt_eq_ok_iff.mpr ⟨_, hstart, walk_eq_ok_iff.mpr ⟨⟨fun inner hinner => ?_, hfits⟩, rfl⟩⟩
  rw [node?_store]
  cases hfind : clients.reverse.find? fun client => client.name :: Place.ofPath here directory = inner with
  | none => exact hdirectory inner hinner
  | some client =>
    have hplace : client.name :: Place.ofPath here directory = inner := by simpa using List.find?_some hfind
    have hclient := List.mem_reverse.mp (List.mem_of_find?_eq_some hfind)
    exact absurd (hplace ▸ hdirectory inner hinner) (hreceives client hclient).isFree

/-- Storing succeeds if the directory is made and each client could be written into it by itself, and fails
otherwise. -/
theorem storeClients_run (directory : String) (clients : List ClientFile)
    (hnamed : ∀ client ∈ clients, IsNamed client) (world : World) :
    (∃ tree, (ensureDirectory (m := StateM World) directory).run world = (.ok (), { world with tree := tree }) ∧
      (∀ client ∈ clients, tree.Receives world.here directory client.name) ∧
      (storeClients directory clients).run world =
        (.ok (), { world with tree := tree.store (Place.ofPath world.here directory) clients })) ∨
    ∃ done tree, (ensureDirectory (m := StateM World) directory).run world = (done, { world with tree := tree }) ∧
      ¬(done.isOk = true ∧ ∀ client ∈ clients, tree.Receives world.here directory client.name) ∧
      ∃ failure after, (storeClients directory clients).run world = (.error failure, after) := by
  obtain ⟨done, tree, hrun, -⟩ := ensureDirectory_run directory world
  cases done with
  | error words =>
    refine .inr ⟨.error words, tree, hrun, nofun, .directoryUnmade directory words, { world with tree := tree }, ?_⟩
    rw [storeClients, bind_run, adapt_run, hrun]
    rfl
  | ok =>
    have hstore : (storeClients directory clients).run world =
        (clients.forM (writeClient (m := StateM World) directory)).run { world with tree := tree } := by
      rw [storeClients, bind_run, adapt_run, hrun]
      rfl
    rcases writeClients_run directory clients hnamed { world with tree := tree } with
      ⟨hreceives, hwritten⟩ | ⟨hrefused, failure, after, hfailed⟩
    · exact .inl ⟨tree, hrun, hreceives, hstore.trans hwritten⟩
    · exact .inr ⟨.ok (), tree, hrun, fun h => hrefused h.2, failure, after, hstore.trans hfailed⟩

/-- A run that has its clients stores them and succeeds, or fails. -/
theorem World.run_of_generated {world : World} {input : String} {rest : List String} {clients : List ClientFile}
    (hshort : input ≠ "-h") (hlong : input ≠ "--help") (hnamed : ∀ client ∈ clients, IsNamed client)
    (hgenerated : world.generated input (rest[1]?.getD "") = .ok clients) :
    let directory := rest[0]?.getD "."
    (∃ tree, (ensureDirectory (m := StateM World) directory).run world = (.ok (), { world with tree := tree }) ∧
      (∀ client ∈ clients, tree.Receives world.here directory client.name) ∧
      world.run (input :: rest) =
        (0, { world with tree := tree.store (Place.ofPath world.here directory) clients })) ∨
    ∃ done tree, (ensureDirectory (m := StateM World) directory).run world = (done, { world with tree := tree }) ∧
      ¬(done.isOk = true ∧ ∀ client ∈ clients, tree.Receives world.here directory client.name) ∧
      ∃ after, world.run (input :: rest) = (1, after) := by
  intro directory
  have hrun := World.run_generate hshort hlong rest world
  rw [runGenerate_run, hgenerated] at hrun
  dsimp only at hrun
  rcases storeClients_run (rest[0]?.getD ".") clients hnamed world with
    ⟨tree, hmade, hreceives, hstored⟩ | ⟨done, tree, hmade, hrefused, failure, after, hfailed⟩
  · rw [hstored] at hrun
    exact .inl ⟨tree, hmade, hreceives, hrun⟩
  · rw [hfailed] at hrun
    exact .inr ⟨done, tree, hmade, hrefused, _, hrun⟩

/-- A run whose clients can be generated succeeds exactly if the directory can be made and each client be written
into it. Then the directory is there with all that its path leads down to and that was missing before, each client
is in it under its name unless a later one has the same, and every other place is as it was. -/
theorem World.run_stores (world : World) (input : String) (rest : List String) (hshort : input ≠ "-h")
    (hlong : input ≠ "--help") (bytes : Bytes) (files : List Schema.File) (options : Options)
    (clients : List ClientFile) (hsource : world.source input = some bytes)
    (hset : Schema.decodeSet? bytes = some files) (hoptions : Plugin.optionsOf (rest[1]?.getD "") = .ok options)
    (hclients : Plugin.generateSet files options = .ok clients) :
    let directory := rest[0]?.getD "."
    let out := Place.ofPath world.here directory
    let made := (ensureDirectory (m := StateM World) directory).run world
    ((world.run (input :: rest)).1 = 0 ↔
      made.1.isOk = true ∧ ∀ client ∈ clients, (made.2.tree.writeFile world.here (Path.join directory client.name)
        (Text.Utf8.encode client.content)).isOk = true) ∧
    ((world.run (input :: rest)).1 = 0 →
      ∃ tree, world.run (input :: rest) = (0, { world with tree := tree }) ∧
        (directory = "" ∨ tree.directoryAt world.here directory = .ok out) ∧
        (∀ client ∈ clients, '/' ∉ client.name.toList ∧ client.name ≠ "" ∧ client.name ≠ "." ∧ client.name ≠ "..") ∧
        (∀ place ∈ Place.enteredBy world.here directory,
          world.tree.node? place = none ∨ world.tree.node? place = some .directory) ∧
        ∀ place, tree.node? place =
          match clients.reverse.find? fun client => client.name :: out = place with
          | some client => some (.file (Text.Utf8.encode client.content))
          | none =>
            if place ∈ Place.enteredBy world.here directory then some .directory else world.tree.node? place) := by
  intro directory out made
  have hnamed := isNamed_of_generateSet hclients
  have hgenerated : world.generated input (rest[1]?.getD "") = .ok clients :=
    generated_eq_ok_iff.mpr ⟨bytes, files, options, hsource, hset, hoptions, hclients⟩
  have hwritable : ∀ tree : FileTree, (∀ client ∈ clients,
      (tree.writeFile world.here (Path.join directory client.name) (Text.Utf8.encode client.content)).isOk = true) ↔
        ∀ client ∈ clients, tree.Receives world.here directory client.name :=
    fun tree => forall₂_congr fun client hclient =>
      isOk_writeFile_iff (hnamed client hclient) directory tree world.here
  rw [hwritable]
  rcases World.run_of_generated hshort hlong hnamed hgenerated with
    ⟨tree, hmade, hreceives, hrun⟩ | ⟨done, tree, hmade, hrefused, after, hrun⟩
  · obtain ⟨done, tree', hmade', hthere⟩ := ensureDirectory_run directory world
    cases hmade.symm.trans hmade'
    obtain ⟨hdirectory, hbefore, hplaces⟩ := hthere rfl
    have hmade : made = (.ok (), { world with tree := tree }) := hmade
    rw [hrun, hmade]
    refine ⟨⟨fun _ => ⟨rfl, hreceives⟩, fun _ => rfl⟩, fun _ => ⟨_, rfl, ?_, hnamed, hbefore, fun place => ?_⟩⟩
    · exact hdirectory.imp_right fun h => directoryAt_store h hreceives
    · rw [node?_store, hplaces]
  · have hmade : made = (done, { world with tree := tree }) := hmade
    rw [hrun, hmade]
    exact ⟨⟨nofun, fun h => absurd h hrefused⟩, nofun⟩

/-- The files of the set are called after places elsewhere, and two of their clients have one name. -/
theorem run_stores_hostile_names :
    let bytes : Bytes := "\n\x0c\n\n../x.proto\n\x11\n\x0f/etc/x.v1.proto\n\x03\n\x01y".toUTF8.toList
    let world : World :=
      { tree := (FileTree.plant {} ["set", "work"] bytes).plant ["x.twirp.ts", "work"] [], here := ["work"] }
    let files : List Schema.File :=
      [{ name := some "../x.proto" }, { name := some "/etc/x.v1.proto" }, { name := some "y" }]
    ∃ (first second third : ClientFile) (tree : FileTree),
      Plugin.generateSet files ⟨"v6", .pbjs⟩ = .ok [first, second, third] ∧
      world.run ["set", "out/new/", "version=v6"] = (0, { world with tree := tree }) ∧
      tree.node? ["x.twirp.ts", "new", "out", "work"] = some (.file (Text.Utf8.encode second.content)) ∧
      tree.node? ["y.twirp.ts", "new", "out", "work"] = some (.file (Text.Utf8.encode third.content)) ∧
      tree.node? ["x.twirp.ts", "work"] = some (.file []) ∧ tree.node? ["etc"] = none := by
  intro bytes world files
  obtain ⟨clients, hclients⟩ : ∃ clients, Plugin.generateSet files ⟨"v6", .pbjs⟩ = .ok clients :=
    isOk_iff.mp (by decide +kernel)
  have hnames : clients.map ClientFile.name = ["x.twirp.ts", "x.twirp.ts", "y.twirp.ts"] :=
    (Generator.names_of_generateAll hclients).trans (by decide +kernel)
  obtain ⟨⟨_, first⟩, ⟨_, second⟩, ⟨_, third⟩, rfl⟩ :=
    List.length_eq_three.mp ((List.length_map _).symm.trans (congrArg List.length hnames))
  obtain ⟨rfl, rfl, rfl⟩ : _ = "x.twirp.ts" ∧ _ = "x.twirp.ts" ∧ _ = "y.twirp.ts" := by simpa using hnames
  obtain ⟨hexit, hstored⟩ := world.run_stores "set" ["out/new/", "version=v6"] (by decide) (by decide) bytes files
    ⟨"v6", .pbjs⟩ _ (by decide +kernel) (by decide +kernel) (by decide +kernel) hclients
  have hmade : ((ensureDirectory (m := StateM World) "out/new/").run world).1.isOk = true := by decide +kernel
  have hsucceeds : (world.run ["set", "out/new/", "version=v6"]).1 = 0 := by
    simp only [hexit, List.forall_mem_cons]
    refine ⟨hmade, ?_, ?_, ?_, nofun⟩ <;> rfl
  obtain ⟨tree, hrun, -, -, -, hplaces⟩ := hstored hsucceeds
  refine ⟨_, _, _, tree, hclients, hrun, ?_, ?_, ?_, ?_⟩ <;>
  · rw [hplaces]
    rfl

end Command

end TwirpClient
