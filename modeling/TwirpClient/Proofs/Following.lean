import Mathlib.Data.List.DropRight
import TwirpClient.FileTree.Basic
import TwirpClient.Proofs.Cutting
import TwirpClient.Proofs.Collecting

/-!
# Where paths lead

Going along a path looks each directory on the way up in the tree. What can be said of a path without a tree
is said here first: the place that it leads to (`Place.ofPath`), and the places that it goes down to
(`Place.enteredBy`). Going along a path succeeds exactly if all of the latter are directories, and comes to the
former (`walk_eq_ok_iff`).

Of the operations of a tree that change it, each puts one node at the end of a path (`makeDirectory_eq_ok_iff`,
`writeFile_eq_ok_iff`) and leaves every other place as it is (`node?_put`).
-/

namespace TwirpClient

/-! ## Following names -/

namespace Place

variable {place : Place} {name : String} {names names' : List String}

/-- Whether a name leads down from a directory, to something that has this name. -/
def LeadsDown (name : String) : Prop := name ≠ "" ∧ name ≠ "." ∧ name ≠ ".."

instance : DecidablePred LeadsDown :=
  fun name => inferInstanceAs (Decidable (name ≠ "" ∧ name ≠ "." ∧ name ≠ ".."))

/-- The place that a name leads to. -/
def step (place : Place) (name : String) : Place :=
  if name = "" ∨ name = "." then place
  else if name = ".." then place.tail
  else name :: place

/-- The place that some names lead to, one after the other. -/
def follow (place : Place) (names : List String) : Place := names.foldl step place

/-- The places that some names lead down to on their way. -/
def entered (place : Place) : List String → List Place
  | [] => []
  | name :: names =>
    if LeadsDown name then (name :: place) :: entered (name :: place) names
    else entered (place.step name) names

theorem step_of_leadsDown (h : LeadsDown name) : place.step name = name :: place := by
  obtain ⟨hempty, hdot, hup⟩ := h
  rw [step, if_neg (not_or.mpr ⟨hempty, hdot⟩), if_neg hup]

theorem step_of_stays (h : name = "" ∨ name = ".") : place.step name = place := by
  rw [step, if_pos h]

/-- What stays where it is does not lead down. The only other name that does not is `..`. -/
theorem not_leadsDown_of_stays (h : name = "" ∨ name = ".") : ¬LeadsDown name := by
  rintro ⟨hempty, hdot, -⟩
  exact h.elim hempty hdot

theorem entered_cons_of_leadsDown (h : LeadsDown name) :
    place.entered (name :: names) = (name :: place) :: Place.entered (name :: place) names := by
  rw [entered, if_pos h]

theorem entered_cons_of_not (h : ¬LeadsDown name) :
    place.entered (name :: names) = (place.step name).entered names := by
  rw [entered, if_neg h]

/-- The way along some names and then others goes on where the first of them lead. -/
theorem entered_append :
    place.entered (names ++ names') = place.entered names ++ (place.follow names).entered names' := by
  induction names generalizing place with
  | nil => rfl
  | cons name names ih =>
    rw [List.cons_append, follow, List.foldl_cons, ← follow]
    by_cases h : LeadsDown name
    · rw [entered_cons_of_leadsDown h, entered_cons_of_leadsDown h, ih, step_of_leadsDown h, List.cons_append]
    · rw [entered_cons_of_not h, entered_cons_of_not h, ih]

/-- Names that stay where they are may be left out. -/
theorem entered_filter (stays : String → Bool) (h : ∀ name, stays name = false → name = "" ∨ name = ".") :
    place.entered (names.filter stays) = place.entered names := by
  induction names generalizing place with
  | nil => rfl
  | cons name names ih =>
    cases hname : stays name with
    | false =>
      have hstays := h name hname
      rw [List.filter_cons_of_neg (by simp [hname]), ih, entered_cons_of_not (not_leadsDown_of_stays hstays),
        step_of_stays hstays]
    | true =>
      rw [List.filter_cons_of_pos hname]
      by_cases hdown : LeadsDown name
      · rw [entered_cons_of_leadsDown hdown, entered_cons_of_leadsDown hdown, ih]
      · rw [entered_cons_of_not hdown, entered_cons_of_not hdown, ih]

/-- The empty names behind a slash at the end of a path lead nowhere. -/
theorem entered_blanks (h : ∀ name ∈ names, name = "") : place.entered names = [] := by
  induction names with
  | nil => rfl
  | cons name names ih =>
    have hname : name = "" ∨ name = "." := .inl (h name List.mem_cons_self)
    rw [entered_cons_of_not (not_leadsDown_of_stays hname), step_of_stays hname]
    exact ih fun other hother => h other (List.mem_cons_of_mem _ hother)

/-- Where a path starts, seen from a directory. -/
def start (here : Place) (path : String) : Place := if Path.isRooted path then [] else here

/-- The place that a path leads to. -/
def ofPath (here : Place) (path : String) : Place := (start here path).follow (Path.names path)

/-- The places that a path leads down to on its way. -/
def enteredBy (here : Place) (path : String) : List Place := (start here path).entered (Path.names path)

end Place

/-! ## Going along a path -/

namespace FileTree

variable {tree tree' : FileTree} {here place : Place} {name path : String} {names : List String}

/-- A step that leads up or stays needs nothing of the tree. -/
theorem enter_of_not_leadsDown (h : ¬Place.LeadsDown name) : tree.enter place name = .ok (place.step name) := by
  rw [enter, Place.step]
  by_cases hstays : name = "" ∨ name = "."
  · rw [if_pos hstays, if_pos hstays]
  · have hup : name = ".." := by
      by_contra hup
      exact h ⟨fun heq => hstays (.inl heq), fun heq => hstays (.inr heq), hup⟩
    rw [if_neg hstays, if_neg hstays, if_pos hup, if_pos hup]

/-- A step down needs a directory of this name, and a name that is not too long for the system. -/
theorem enter_eq_ok_iff (h : Place.LeadsDown name) {place' : Place} :
    tree.enter place name = .ok place' ↔
      tree.node? (name :: place) = some .directory ∧ name.utf8ByteSize ≤ maxName ∧ name :: place = place' := by
  obtain ⟨hempty, hdot, hup⟩ := h
  rw [enter, if_neg (not_or.mpr ⟨hempty, hdot⟩), if_neg hup]
  by_cases hsize : maxName < name.utf8ByteSize
  · rw [if_pos hsize]
    exact ⟨nofun, fun hok => absurd hok.2.1 (Nat.not_le.mpr hsize)⟩
  · rw [if_neg hsize, and_iff_right (Nat.not_lt.mp hsize)]
    split
    next hnode => rw [hnode, and_iff_right rfl, Except.ok.injEq]
    next hnode =>
      rw [hnode]
      exact ⟨nofun, nofun⟩
    next hnode =>
      rw [hnode]
      exact ⟨nofun, nofun⟩

/-- Whether nothing stands in the way of following some names. -/
structure Passes (tree : FileTree) (place : Place) (names : List String) : Prop where
  isDirectory : ∀ inner ∈ place.entered names, tree.node? inner = some .directory
  fits : ∀ name ∈ names, name.utf8ByteSize ≤ maxName

theorem passes_cons_iff_of_leadsDown (h : Place.LeadsDown name) :
    tree.Passes place (name :: names) ↔
      (tree.node? (name :: place) = some .directory ∧ name.utf8ByteSize ≤ maxName) ∧
        tree.Passes (name :: place) names := by
  constructor
  · rintro ⟨hdirectory, hfits⟩
    rw [Place.entered_cons_of_leadsDown h] at hdirectory
    rw [List.forall_mem_cons] at hdirectory hfits
    exact ⟨⟨hdirectory.1, hfits.1⟩, hdirectory.2, hfits.2⟩
  · rintro ⟨⟨hnode, hsize⟩, hdirectory, hfits⟩
    refine ⟨?_, List.forall_mem_cons.mpr ⟨hsize, hfits⟩⟩
    rw [Place.entered_cons_of_leadsDown h]
    exact List.forall_mem_cons.mpr ⟨hnode, hdirectory⟩

theorem size_le_of_not_leadsDown (h : ¬Place.LeadsDown name) : name.utf8ByteSize ≤ maxName := by
  rw [Place.LeadsDown, not_and_or, not_and_or, not_not, not_not, not_not] at h
  rcases h with rfl | rfl | rfl <;> decide

theorem passes_cons_iff_of_not (h : ¬Place.LeadsDown name) :
    tree.Passes place (name :: names) ↔ tree.Passes (place.step name) names := by
  constructor
  · rintro ⟨hdirectory, hfits⟩
    rw [Place.entered_cons_of_not h] at hdirectory
    exact ⟨hdirectory, (List.forall_mem_cons.mp hfits).2⟩
  · rintro ⟨hdirectory, hfits⟩
    refine ⟨?_, List.forall_mem_cons.mpr ⟨size_le_of_not_leadsDown h, hfits⟩⟩
    rwa [Place.entered_cons_of_not h]

/-- Names can be followed if what they lead down to are directories, and lead where they lead in any tree. -/
theorem walk_eq_ok_iff {place' : Place} :
    tree.walk place names = .ok place' ↔ tree.Passes place names ∧ place.follow names = place' := by
  induction names generalizing place with
  | nil =>
    have hpasses : tree.Passes place [] := ⟨nofun, nofun⟩
    change Except.ok place = Except.ok place' ↔ _
    rw [Except.ok.injEq, and_iff_right hpasses]
    rfl
  | cons name names ih =>
    have hwalk : tree.walk place (name :: names) = (tree.enter place name).bind fun next => tree.walk next names :=
      List.foldlM_cons
    have hfollow : place.follow (name :: names) = (place.step name).follow names := rfl
    rw [hwalk, hfollow]
    by_cases hdown : Place.LeadsDown name
    · rw [passes_cons_iff_of_leadsDown hdown, Place.step_of_leadsDown hdown, and_assoc, ← ih]
      cases henter : tree.enter place name with
      | error obstacle =>
        refine ⟨nofun, fun h => ?_⟩
        rw [(enter_eq_ok_iff hdown).mpr ⟨h.1.1, h.1.2, rfl⟩] at henter
        cases henter
      | ok next =>
        obtain ⟨hnode, hsize, rfl⟩ := (enter_eq_ok_iff hdown).mp henter
        exact (and_iff_right ⟨hnode, hsize⟩).symm
    · rw [enter_of_not_leadsDown hdown, passes_cons_iff_of_not hdown, ← ih]
      rfl

/-- A slash at the end of a path changes nothing about where it leads. -/
theorem walk_append_blank : tree.walk place (names ++ [""]) = tree.walk place names := by
  have hblank : ∀ inner : Place, tree.walk inner [""] = .ok inner := fun inner => rfl
  rw [walk, List.foldlM_append, ← walk]
  cases tree.walk place names with
  | error obstacle => rfl
  | ok inner => exact hblank inner

/-! ## Putting a node -/

theorem lookup_filter_ne {α β : Type} [BEq α] [LawfulBEq α] [DecidableEq α] {key other : α} (h : other ≠ key)
    (entries : List (α × β)) : (entries.filter fun entry => entry.1 ≠ key).lookup other = entries.lookup other := by
  induction entries with
  | nil => rfl
  | cons entry entries ih =>
    obtain ⟨first, value⟩ := entry
    by_cases hfirst : first = key
    · have hother : (other == first) = false := by simpa [hfirst] using h
      rw [List.filter_cons_of_neg (by simpa using hfirst), ih, List.lookup_cons, hother]
    · rw [List.filter_cons_of_pos (by simpa using hfirst), List.lookup_cons, List.lookup_cons, ih]

/-- Putting something at a place changes that place and no other. The root stays a directory. -/
theorem node?_put (tree : FileTree) (node : Node) (hplace : place ≠ []) (other : Place) :
    (tree.put place node).node? other = if other = place then some node else tree.node? other := by
  by_cases hsame : other = place
  · rw [if_pos hsame, hsame, node?, if_neg hplace]
    exact List.lookup_cons_self
  · rw [if_neg hsame, node?, node?]
    by_cases hroot : other = []
    · rw [if_pos hroot, if_pos hroot]
    · have hkey : (other == place) = false := by simpa using hsame
      rw [if_neg hroot, if_neg hroot, put, List.lookup_cons, hkey]
      exact lookup_filter_ne hsame _

/-! ## What a path is about -/

/-- A text that is a path starts at the root or here. -/
theorem startOf_eq_ok {start : Place} (h : startOf here path = .ok start) : start = Place.start here path := by
  rw [startOf] at h
  split at h
  · cases h
  · split at h
    · cases h
    · rw [Place.start]
      split at h
      next hrooted =>
        cases h
        rw [if_pos hrooted]
      next hrooted =>
        cases h
        rw [if_neg hrooted]

/-- Names are all empty, or there is a last one that is not. -/
theorem last_name (names : List String) :
    (∀ name ∈ names, name = "") ∨
      ∃ front name blanks, names = front ++ name :: blanks ∧ name ≠ "" ∧ ∀ blank ∈ blanks, blank = "" := by
  cases hfind : names.reverse.find? (· ≠ "") with
  | none =>
    refine .inl fun name hname => ?_
    simpa using List.find?_eq_none.mp hfind name (List.mem_reverse.mpr hname)
  | some name =>
    obtain ⟨hname, blanks, front, hsplit, hblanks⟩ := List.find?_eq_some_iff_append.mp hfind
    refine .inr ⟨front.reverse, name, blanks.reverse, ?_, by simpa using hname, ?_⟩
    · rw [List.reverse_eq_iff.mp hsplit, List.reverse_append, List.reverse_cons, List.append_assoc,
        List.singleton_append]
    · intro blank hblank
      simpa using hblanks blank (List.mem_reverse.mp hblank)

/-- A path of slashes alone is about the root. -/
theorem target_of_blank (h : ∀ name ∈ Path.names path, name = "") :
    tree.target here path = (startOf here path).map Target.directory := by
  have hall : ∀ name ∈ (Path.names path).reverse, decide (name = "") = true :=
    fun name hname => decide_eq_true (h name (List.mem_reverse.mp hname))
  rw [target]
  dsimp only
  rw [List.dropWhile_eq_nil_iff.mpr hall]
  cases startOf here path with
  | error obstacle => rfl
  | ok start => rfl

/-- A path with a last name is about this name, and follows those before it. Empty names behind it are a slash at
the end. -/
theorem target_of_name {blanks : List String} (hnames : Path.names path = names ++ name :: blanks)
    (hname : name ≠ "") (hblanks : ∀ blank ∈ blanks, blank = "") :
    tree.target here path =
      (startOf here path).bind fun start => (tree.walk start names).bind fun place =>
        if name = "." ∨ name = ".." then (tree.enter place name).map Target.directory
        else if maxName < name.utf8ByteSize then .error .blocked
        else .ok (.entry place name (!blanks.isEmpty)) := by
  have hnamed : ((Path.names path).reverse.dropWhile (· = "")).reverse = names ++ [name] := by
    have hall : ∀ blank ∈ blanks.reverse, decide (blank = "") = true :=
      fun blank hblank => decide_eq_true (hblanks blank (List.mem_reverse.mp hblank))
    rw [hnames, List.reverse_append, List.reverse_cons, List.append_assoc, List.dropWhile_append_of_pos hall,
      List.singleton_append, List.dropWhile_cons_of_neg (by simpa using hname), List.reverse_cons,
      List.reverse_reverse]
  have hslash : decide ((names ++ [name]).length < (Path.names path).length) = !blanks.isEmpty := by
    rw [hnames]
    cases blanks with
    | nil => simp
    | cons blank blanks => simp
  rw [target]
  dsimp only
  rw [hnamed, hslash, List.getLast?_concat, List.dropLast_concat]
  cases startOf here path with
  | error obstacle => rfl
  | ok start =>
    change (tree.walk start names).bind _ = (tree.walk start names).bind _
    cases tree.walk start names with
    | error obstacle => rfl
    | ok place =>
      change ite _ _ _ = ite _ _ _
      split
      · cases tree.enter place name with
        | error obstacle => rfl
        | ok inner => rfl
      · rfl

/-- A path is about something in a directory exactly if its last name leads down and the names before it can be
followed. -/
theorem target_eq_entry_iff {slash : Bool} :
    tree.target here path = .ok (.entry place name slash) ↔
      ∃ names blanks, Path.names path = names ++ name :: blanks ∧ (∀ blank ∈ blanks, blank = "") ∧
        startOf here path = .ok (Place.start here path) ∧ tree.walk (Place.start here path) names = .ok place ∧
        Place.LeadsDown name ∧ name.utf8ByteSize ≤ maxName ∧ (!blanks.isEmpty) = slash := by
  constructor
  · intro h
    rcases last_name (Path.names path) with hblank | ⟨front, last, blanks, hnames, hlast, hblanks⟩
    · rw [target_of_blank hblank] at h
      obtain ⟨start, -, hstart⟩ := map_eq_ok_iff.mp h
      cases hstart
    · rw [target_of_name hnames hlast hblanks] at h
      obtain ⟨start, hstart, h⟩ := bind_eq_ok_iff.mp h
      obtain rfl := startOf_eq_ok hstart
      obtain ⟨outer, hwalk, h⟩ := bind_eq_ok_iff.mp h
      split at h
      next hdots =>
        obtain ⟨inner, -, hinner⟩ := map_eq_ok_iff.mp h
        cases hinner
      next hdots =>
        split at h
        next hsize => cases h
        next hsize =>
          cases h
          rw [not_or] at hdots
          exact ⟨front, blanks, hnames, hblanks, hstart, hwalk, ⟨hlast, hdots⟩, Nat.not_lt.mp hsize, rfl⟩
  · rintro ⟨front, blanks, hnames, hblanks, hstart, hwalk, ⟨hlast, hdots⟩, hsize, rfl⟩
    rw [target_of_name hnames hlast hblanks, hstart]
    change (tree.walk (Place.start here path) front).bind _ = _
    rw [hwalk]
    change ite _ _ _ = _
    rw [if_neg (not_or.mpr hdots), if_neg (Nat.not_lt.mpr hsize)]

/-- A file is put where the path is about a name without a slash behind it, unless a directory has this name. -/
theorem writeFile_eq_ok_iff {content : List UInt8} :
    tree.writeFile here path content = .ok tree' ↔
      ∃ place name, tree.target here path = .ok (.entry place name false) ∧
        tree.node? (name :: place) ≠ some .directory ∧ tree.put (name :: place) (.file content) = tree' := by
  change (tree.target here path).bind _ = _ ↔ _
  rw [bind_eq_ok_iff]
  constructor
  · rintro ⟨target, htarget, h⟩
    split at h
    next place name =>
      split at h
      next hnode => cases h
      next hnode =>
        cases h
        exact ⟨place, name, htarget, hnode, rfl⟩
    next hother => cases h
  · rintro ⟨place, name, htarget, hnode, rfl⟩
    refine ⟨_, htarget, ?_⟩
    dsimp only
    split
    next hdirectory => exact absurd hdirectory hnode
    next => rfl

/-- A directory is put where the path is about a name that nothing has yet. -/
theorem makeDirectory_eq_ok_iff :
    tree.makeDirectory here path = .ok tree' ↔
      ∃ place name slash, tree.target here path = .ok (.entry place name slash) ∧
        tree.node? (name :: place) = none ∧ tree.put (name :: place) .directory = tree' := by
  change (tree.target here path).bind _ = _ ↔ _
  rw [bind_eq_ok_iff]
  constructor
  · rintro ⟨target, htarget, h⟩
    split at h
    next place name slash =>
      split at h
      next hnode =>
        cases h
        exact ⟨place, name, slash, htarget, hnode, rfl⟩
      next hnode => cases h
    next => cases h
  · rintro ⟨place, name, slash, htarget, hnode, rfl⟩
    refine ⟨_, htarget, ?_⟩
    dsimp only
    rw [hnode]
    rfl

end FileTree

/-! ## Paths made from others -/

namespace Path

variable {path directory name : String}

theorem names_append_slash (front back : String) : names (front ++ "/" ++ back) = names front ++ names back := by
  have hchars : (front ++ "/" ++ back).toList = front.toList ++ '/' :: back.toList := by simp
  rw [names, Text.pieces, hchars, List.splitOn_append_cons_self, List.map_append]
  rfl

theorem names_of_notMem (h : '/' ∉ name.toList) : names name = [name] := by
  rw [names, Text.pieces, List.splitOn_eq_singleton h, List.map_singleton, String.ofList_toList]

theorem notMem_of_mem_names (h : name ∈ names path) : '/' ∉ name.toList :=
  (Text.isCut_iff.mpr rfl : Text.IsCut '/' path (names path)).2.2 name h

theorem names_intercalate {parts : List String} (hne : parts ≠ []) (h : ∀ part ∈ parts, '/' ∉ part.toList) :
    names ("/".intercalate parts) = parts :=
  Text.isCut_iff.mp ⟨rfl, hne, h⟩

theorem head?_names_of_isRooted (h : isRooted path = true) : (names path).head? = some "" := by
  obtain ⟨rest, hrest⟩ := List.head?_eq_some_iff.mp (beq_iff_eq.mp h)
  rw [names, Text.pieces, hrest, List.splitOn_cons_eq_if_modifyHead, if_pos BEq.rfl]
  rfl

/-- A name without a slash does not start at the root. -/
theorem isRooted_of_notMem (h : '/' ∉ name.toList) : isRooted name = false :=
  beq_eq_false_iff_ne.mpr fun hhead => h (List.mem_of_head? hhead)

/-- A name without a slash cannot start at the root, so it is put behind the directory. -/
theorem join_of_notMem (directory : String) (h : '/' ∉ name.toList) :
    join directory name =
      if directory = "" ∨ directory.toList.getLast? = some '/' then directory ++ name
      else directory ++ "/" ++ name := by
  rw [join, isRooted_of_notMem h, if_neg Bool.false_ne_true]

/-- A name in a directory comes behind the names of the directory, less the empty one behind a slash at the end. -/
theorem names_join (directory : String) (h : '/' ∉ name.toList) :
    ∃ front, names (join directory name) = front ++ [name] ∧
      (names directory = front ∨ names directory = front ++ [""]) := by
  rw [join_of_notMem directory h]
  split
  next hends =>
    rcases hends with rfl | hlast
    · exact ⟨[], by rw [String.empty_append, names_of_notMem h, List.nil_append], .inr rfl⟩
    · obtain ⟨front, hfront⟩ := List.getLast?_eq_some_iff.mp hlast
      have hdirectory : directory = String.ofList front ++ "/" := by
        rw [← String.toList_inj, hfront]
        simp
      refine ⟨names (String.ofList front), ?_, .inr ?_⟩
      · rw [hdirectory, names_append_slash, names_of_notMem h]
      · rw [hdirectory, ← String.append_empty (s := String.ofList front ++ "/"), names_append_slash]
        rfl
  next => exact ⟨names directory, by rw [names_append_slash, names_of_notMem h], .inl rfl⟩

/-- Whether a file in a directory is reached from the root is a matter of the directory. -/
theorem isRooted_join (directory : String) (h : '/' ∉ name.toList) :
    isRooted (join directory name) = isRooted directory := by
  rw [join_of_notMem directory h]
  by_cases hempty : directory = ""
  · rw [if_pos (.inl hempty), hempty, String.empty_append, isRooted_of_notMem h]
    rfl
  · have hhead : ∀ rest : String, isRooted (directory ++ rest) = isRooted directory := by
      intro rest
      have hchars : directory.toList ≠ [] := by simpa using hempty
      rw [isRooted, isRooted, String.toList_append, List.head?_append_of_ne_nil _ hchars]
    split
    next => exact hhead name
    next => rw [String.append_assoc, hhead]

/-- The steps of a path are among its names. -/
theorem mem_names_of_mem_steps (h : name ∈ steps path) : name ∈ names path ∧ name ≠ "" := by
  rw [steps] at h
  split at h
  next rest hnames =>
    rw [hnames]
    rcases List.mem_cons.mp h with rfl | h
    · exact ⟨List.mem_cons_self, by decide⟩
    · obtain ⟨hmem, hname⟩ := List.mem_filter.mp h
      exact ⟨List.mem_cons_of_mem _ hmem, (of_decide_eq_true hname).1⟩
  next =>
    obtain ⟨hmem, hname⟩ := List.mem_filter.mp h
    exact ⟨hmem, (of_decide_eq_true hname).1⟩

end Path

namespace Place

variable {here : Place} {path : String}

theorem start_join {name : String} (h : '/' ∉ name.toList) (here : Place) (directory : String) :
    start here (Path.join directory name) = start here directory := by
  rw [start, start, Path.isRooted_join directory h]

theorem follow_concat (place : Place) (names : List String) (name : String) :
    place.follow (names ++ [name]) = (place.follow names).step name := by
  rw [follow, List.foldl_append]
  rfl

/-- A name that leads down is one step below the directory that it is joined to. -/
theorem ofPath_join {name : String} (hslash : '/' ∉ name.toList) (hdown : LeadsDown name) (here : Place)
    (directory : String) : ofPath here (Path.join directory name) = name :: ofPath here directory := by
  obtain ⟨front, hnames, hdirectory⟩ := Path.names_join directory hslash
  have hfront : follow (start here directory) front = ofPath here directory := by
    rw [ofPath]
    rcases hdirectory with hdirectory | hdirectory
    · rw [hdirectory]
    · rw [hdirectory, follow_concat, step_of_stays (.inl rfl)]
  calc ofPath here (Path.join directory name)
    _ = (start here directory).follow (front ++ [name]) := by rw [ofPath, start_join hslash, hnames]
    _ = ((start here directory).follow front).step name := follow_concat _ front name
    _ = name :: ofPath here directory := by rw [hfront, step_of_leadsDown hdown]

theorem entered_steps {place : Place} : place.entered (Path.steps path) = place.entered (Path.names path) := by
  have hstays : ∀ name : String, decide (name ≠ "" ∧ name ≠ ".") = false → name = "" ∨ name = "." := by
    intro name hname
    simpa [or_iff_not_imp_left] using hname
  rw [Path.steps]
  split
  next rest hnames =>
    have hdot : ¬LeadsDown "." := by decide
    rw [hnames, entered_cons_of_not hdot, entered_cons_of_not hdot, entered_filter _ hstays]
  next => rw [entered_filter _ hstays]

/-- What is written from the first steps of a path leads along the way of the path. -/
theorem enteredBy_parts {parts : List String} (hne : parts ≠ []) (hparts : ∀ part ∈ parts, part ∈ Path.steps path) :
    enteredBy here ((if Path.isRooted path then "/" else "") ++ "/".intercalate parts) =
      (start here path).entered parts := by
  have hnames : Path.names ("/".intercalate parts) = parts :=
    Path.names_intercalate hne fun part hpart =>
      Path.notMem_of_mem_names (Path.mem_names_of_mem_steps (hparts part hpart)).1
  cases hrooted : Path.isRooted path with
  | true =>
    have haround : Path.isRooted ("/" ++ "/".intercalate parts) = true := by simp [Path.isRooted]
    have hroot : Path.names ("/" ++ "/".intercalate parts) = "" :: parts :=
      (Path.names_append_slash "" ("/".intercalate parts)).trans (by rw [hnames]; rfl)
    have hblank : ¬LeadsDown "" := by decide
    rw [if_pos rfl, enteredBy, start, start, if_pos haround, if_pos hrooted, hroot]
    exact entered_cons_of_not hblank
  | false =>
    have haround : Path.isRooted ("/".intercalate parts) = false := by
      by_contra hslash
      have hhead := Path.head?_names_of_isRooted (Bool.not_eq_false _ ▸ hslash)
      rw [hnames] at hhead
      exact (Path.mem_names_of_mem_steps (hparts "" (List.mem_of_mem_head? hhead))).2 rfl
    rw [if_neg Bool.false_ne_true, String.empty_append, enteredBy, start, start, haround, hrooted, hnames]

/-- The paths that are tried if a directory has no home lead along the way of its own. -/
theorem enteredBy_ancestors {around : String} (h : around ∈ Path.ancestors path) :
    ∀ inner ∈ enteredBy here around, inner ∈ enteredBy here path := by
  intro inner hinner
  rw [Path.ancestors, List.mem_append] at h
  rcases h with h | h
  · obtain ⟨count, hcount, rfl⟩ := List.mem_map.mp h
    rw [List.mem_reverse, List.mem_range] at hcount
    have hprefix : (Path.steps path).dropLast.take (count + 1) <+: Path.steps path :=
      (List.take_prefix _ _).trans (List.dropLast_prefix _)
    obtain ⟨rest, hrest⟩ := hprefix
    have hne : (Path.steps path).dropLast.take (count + 1) ≠ [] := by
      rw [← List.length_pos_iff, List.length_take]
      omega
    rw [enteredBy_parts hne fun part hpart => hrest ▸ List.mem_append_left _ hpart] at hinner
    rw [enteredBy, ← entered_steps, ← hrest, entered_append]
    exact List.mem_append_left _ hinner
  · split at h
    next =>
      rw [List.mem_singleton.mp h] at hinner
      cases hinner
    next => cases h

end Place

end TwirpClient
