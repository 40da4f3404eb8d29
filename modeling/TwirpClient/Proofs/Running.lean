import TwirpClient.Command.World
import TwirpClient.Proofs.FileSets

/-!
# Runs in a world

What a run of the command does to a world, step by step. A run that works alone has two halves: it generates
all clients (`World.generated`), and then it stores them. The first half only reads, so a run that fails in it
leaves the world as it was but for its message (`World.run_untouched`).
-/

namespace TwirpClient.Command

open Client
open Wire (Bytes)

/-! ## Steps -/

section Steps

variable {ε ε' α β γ : Type} (world : World)

/-- A step that fails ends the run, in the world that it leaves. -/
theorem bind_run (first : ExceptT ε (StateM World) α) (rest : α → ExceptT ε (StateM World) β) :
    (first >>= rest).run world =
      match first.run world with
      | (.ok value, after) => (rest value).run after
      | (.error fault, after) => (.error fault, after) := by
  change StateT.bind first.run (ExceptT.bindCont rest) world = _
  rw [StateT.bind]
  rcases first.run world with ⟨_ | value, after⟩
  · rfl
  · rfl

/-- A fault that is passed on as a failure changes nothing else. -/
theorem adapt_run (ofFault : ε → ε') (action : ExceptT ε (StateM World) α) :
    (action.adapt ofFault).run world = ((action.run world).1.mapError ofFault, (action.run world).2) :=
  rfl

theorem liftM_run (outcome : Except ε α) :
    (liftM outcome : ExceptT ε (StateM World) α).run world = (outcome, world) :=
  rfl

variable {world}

/-- A step that only reads is an outcome to go on with, and so are two such steps. -/
theorem bind_run_of_reads {first : ExceptT ε (StateM World) α} {outcome : Except ε α}
    (hfirst : first.run world = (outcome, world)) {rest : α → ExceptT ε (StateM World) γ} {next : α → Except ε β}
    {last : β → ExceptT ε (StateM World) γ}
    (hrest : ∀ value, (rest value).run world = (liftM (next value) >>= last).run world) :
    (first >>= rest).run world = (liftM (outcome >>= next) >>= last).run world := by
  rw [bind_run, hfirst]
  cases outcome with
  | error fault => rfl
  | ok value => exact hrest value

end Steps

/-! ## Generating before storing -/

/-- What is read for a run, from a file or from the input of the command. -/
def World.source (world : World) (input : String) : Option Bytes :=
  if input = "-" then world.input else (world.tree.readFile world.here input).toOption

/-- The clients of a run, or the failure that keeps it from having any. -/
def World.generated (world : World) (input parameter : String) : Except Failure (List ClientFile) := do
  let bytes ← (world.answer (world.source input)).mapError
    (if input = "-" then .inputUnreadable else .fileUnreadable input)
  let files ← (world.answer (Schema.decodeSet? bytes)).mapError .setUndecodable
  (clientsOf files parameter).mapError .generation

/-- Stores clients in a directory. -/
def storeClients (directory : String) (clients : List ClientFile) : ExceptT Failure (StateM World) Unit := do
  (ensureDirectory directory).adapt (.directoryUnmade directory)
  clients.forM (writeClient directory)

theorem World.answer_eq_ok_iff {α : Type} {world : World} {value? : Option α} {value : α} :
    world.answer value? = .ok value ↔ value? = some value := by
  cases value? with
  | none => exact ⟨nofun, nofun⟩
  | some other =>
    change Except.ok other = Except.ok value ↔ _
    rw [Except.ok.injEq, Option.some.injEq]

theorem readSource_run (input : String) (world : World) :
    (readSource (m := StateM World) input).run world =
      ((world.answer (world.source input)).mapError
        (if input = "-" then .inputUnreadable else .fileUnreadable input), world) := by
  rw [readSource, World.source]
  split
  next => rfl
  next => rfl

theorem decodeSet_run (bytes : Bytes) (world : World) :
    (decodeSet (m := StateM World) bytes).run world = (world.answer (Schema.decodeSet? bytes), world) := by
  rw [decodeSet]
  cases Schema.decodeSet? bytes with
  | none => rfl
  | some files => rfl

/-- A run that works alone stores what it has generated, and does nothing to the world before. -/
theorem runGenerate_run (input directory parameter : String) (world : World) :
    (runGenerate (m := StateM World) input directory parameter).run world =
      match world.generated input parameter with
      | .ok clients => (storeClients directory clients).run world
      | .error failure => (.error failure, world) := by
  have hdecode : ∀ bytes, ((decodeSet (m := StateM World) bytes).adapt Failure.setUndecodable).run world =
      ((world.answer (Schema.decodeSet? bytes)).mapError .setUndecodable, world) := by
    intro bytes
    rw [adapt_run, decodeSet_run]
  have hhalves : (runGenerate (m := StateM World) input directory parameter).run world =
      (liftM (world.generated input parameter) >>= storeClients directory).run world :=
    bind_run_of_reads (readSource_run input world) fun bytes => bind_run_of_reads (hdecode bytes) fun files => rfl
  rw [hhalves, bind_run, liftM_run]
  cases world.generated input parameter with
  | error failure => rfl
  | ok clients => rfl

/-! ## Whole runs -/

/-- Arguments that do not ask for help ask for clients. Without a second or a third one they are made for the
directory that the command runs in, and with all options unset. -/
theorem ofArguments_eq_generate {input : String} (hshort : input ≠ "-h") (hlong : input ≠ "--help")
    (rest : List String) :
    Task.ofArguments (input :: rest) = .generate input (rest[0]?.getD ".") (rest[1]?.getD "") := by
  rcases rest with _ | ⟨directory, _ | ⟨parameter, rest⟩⟩
  · simp [Task.ofArguments]
  · simp [Task.ofArguments]
  · simp [Task.ofArguments]

/-- A run that works alone says what its failure is, if it has one, and shows it in its exit code. -/
theorem World.run_generate {input : String} (hshort : input ≠ "-h") (hlong : input ≠ "--help")
    (rest : List String) (world : World) :
    world.run (input :: rest) =
      match (runGenerate (m := StateM World) input (rest[0]?.getD ".") (rest[1]?.getD "")).run world with
      | (.ok (), after) => (0, after)
      | (.error failure, after) =>
        (1, { after with messages := after.messages ++ failure.report }) := by
  rw [World.run, Command.run, ofArguments_eq_generate hshort hlong]
  change StateT.bind (runGenerate (m := StateM World) _ _ _).run _ world = _
  rw [StateT.bind]
  rcases (runGenerate (m := StateM World) input _ _).run world with ⟨failure | _, after⟩
  · rfl
  · rfl

/-- A run has its clients exactly if its input can be read and holds a set, its parameter is accepted and every
file of the set can be generated. -/
theorem generated_eq_ok_iff {world : World} {input parameter : String} {clients : List ClientFile} :
    world.generated input parameter = .ok clients ↔
      ∃ bytes files options, world.source input = some bytes ∧ Schema.decodeSet? bytes = some files ∧
        Plugin.optionsOf parameter = .ok options ∧ Plugin.generateSet files options = .ok clients := by
  change ((world.answer (world.source input)).mapError _).bind (fun bytes =>
    ((world.answer (Schema.decodeSet? bytes)).mapError _).bind fun files =>
      ((Plugin.optionsOf parameter).bind (Plugin.generateSet files)).mapError Failure.generation) = _ ↔ _
  simp only [bind_eq_ok_iff, mapError_eq_ok_iff, World.answer_eq_ok_iff, exists_and_left]

/-- A run that works alone and cannot read its input, finds no set in it, has its parameter refused or meets a
file that cannot be generated fails, and leaves the world as it was but for the message. -/
theorem World.run_untouched (world : World) (input : String) (rest : List String) (hshort : input ≠ "-h")
    (hlong : input ≠ "--help")
    (hfails : world.source input = none ∨
      (∃ bytes, world.source input = some bytes ∧ Schema.decodeSet? bytes = none) ∨
      (∃ fault, Plugin.optionsOf (rest[1]?.getD "") = .error fault) ∨
      ∃ bytes files options, world.source input = some bytes ∧ Schema.decodeSet? bytes = some files ∧
        Plugin.optionsOf (rest[1]?.getD "") = .ok options ∧
        ∃ file ∈ files, ∃ fault, (Generator.mk options.version options.library {}).generate file = .error fault) :
    ∃ failure : Failure, world.run (input :: rest) =
      (1, { world with messages := world.messages ++ failure.report }) := by
  have hnone : ∀ clients, world.generated input (rest[1]?.getD "") ≠ .ok clients := by
    intro clients hclients
    obtain ⟨bytes, files, options, hsource, hset, hoptions, hgenerate⟩ := generated_eq_ok_iff.mp hclients
    rcases hfails with hunread | ⟨bytes', hsource', hundecodable⟩ | ⟨fault, hrefused⟩ |
      ⟨bytes', files', options', hsource', hset', hoptions', file, hfile, fault, hfault⟩
    · rw [hsource] at hunread
      cases hunread
    · cases hsource.symm.trans hsource'
      rw [hset] at hundecodable
      cases hundecodable
    · rw [hoptions] at hrefused
      cases hrefused
    · cases hsource.symm.trans hsource'
      cases hset.symm.trans hset'
      cases hoptions.symm.trans hoptions'
      obtain ⟨parts, hparts, -⟩ := (Generator.generateAll_eq_ok_iff _).mp hgenerate
      have hmem : (Generator.mk options.version options.library {}).generate file ∈ parts.map .ok :=
        hparts ▸ List.mem_map_of_mem hfile
      obtain ⟨part, -, hpart⟩ := List.mem_map.mp hmem
      rw [hfault] at hpart
      cases hpart
  cases hgenerated : world.generated input (rest[1]?.getD "") with
  | ok clients => exact absurd hgenerated (hnone clients)
  | error failure =>
    refine ⟨failure, ?_⟩
    rw [World.run_generate hshort hlong, runGenerate_run, hgenerated]

/-- The set is a file of the world. Its first file could be generated, and its second has a method without a
name. -/
theorem run_untouched_second_file :
    let bytes : Bytes := [0x0a, 3, 0x0a, 1, 0x62, 0x0a, 7, 0x0a, 1, 0x61, 0x32, 2, 0x12, 0]
    let world : World := { tree := FileTree.plant {} ["set", "work"] bytes, here := ["work"], input := none }
    (∃ failure : Failure, world.run ["set", "out/clients", "version=v6"] =
      (1, { world with messages := failure.report })) ∧
    ∃ failure : Failure, world.run ["-"] = (1, { world with messages := failure.report }) := by
  intro bytes world
  have hset : Schema.decodeSet? bytes =
      some [{ name := some "b" }, { name := some "a", services := [{ methods := [{}] }] }] := by decide +kernel
  constructor
  · refine world.run_untouched "set" ["out/clients", "version=v6"] (by decide) (by decide)
      (.inr (.inr (.inr ⟨bytes, _, ⟨"v6", .pbjs⟩, by decide +kernel, hset, by decide +kernel, _,
        List.mem_cons_of_mem _ List.mem_cons_self, ?_⟩)))
    exact ⟨.expansion "a" "service  has a method without a name", rfl⟩
  · exact world.run_untouched "-" [] (by decide) (by decide) (.inl rfl)

end TwirpClient.Command
