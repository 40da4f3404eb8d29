import Mathlib.Data.List.Nodup
import Mathlib.Data.List.Pairwise
import TwirpClient.Proofs.Dispatch

/-!
# Names at the top level of a client

A client declares names at its top level: those of its two fixed imports, the function that finds the names
of methods, and two for each service. The names of services are used as they are, so it depends on them
whether all these names are distinct. `Template.ownNames_nodup_iff` says when they are: distinct services are
not enough, as a service may be called after the imported adapter, and one service after the factory of
another's route.
-/

namespace TwirpClient.Code

/-- The name that the binding of an import stands for, with or without braces. -/
def boundName (binding : String) : String :=
  String.ofList (binding.toList.filter fun c => c ≠ '\x7b' ∧ c ≠ '\x7d')

/-- The name that an item declares, if it declares one. -/
def Item.declaredName? : Item → Option String
  | .comment _ => none
  | .importFrom binding _ => some (boundName binding)
  | .const _ name _ => some name

end TwirpClient.Code

namespace TwirpClient.Client

open Code

/-! ## Declared names -/

/-- The names that a client declares itself. The first two items of its module are a comment and the import of
the messages, which the schema names. -/
def ownNames (module : Module) : List String :=
  (module.items.drop 2).filterMap Item.declaredName?

/-- The names that every client declares. -/
def fixedNames : List String := [adapterFactory, transportName, resolverName]

/-- The names that a client declares for a service. -/
def Service.ownNames (service : Service) : List String := [service.routeName, service.factoryName]

theorem ownNames_clientModule (template : Template) (blueprint : Blueprint) :
    ownNames (template.clientModule blueprint) = fixedNames ++ blueprint.services.flatMap Service.ownNames := by
  have hservices : (blueprint.services.flatMap fun service =>
      [service.routeItem blueprint.routePrefix, service.factoryItem]).filterMap Item.declaredName? =
        blueprint.services.flatMap Service.ownNames := by
    rw [List.filterMap_flatMap]
    rfl
  have hdrop : (template.clientModule blueprint).items.drop 2 =
      [.importFrom ("\x7b" ++ adapterFactory ++ "\x7d") template.library.adapterModule,
       .importFrom transportName transportModule, template.resolverItem blueprint.services] ++
      blueprint.services.flatMap fun service =>
        [service.routeItem blueprint.routePrefix, service.factoryItem] := rfl
  have hfixed : [Item.importFrom ("\x7b" ++ adapterFactory ++ "\x7d") template.library.adapterModule,
      .importFrom transportName transportModule, template.resolverItem blueprint.services].filterMap
        Item.declaredName? = fixedNames := rfl
  rw [ownNames, hdrop, List.filterMap_append, hfixed, hservices]

/-! ## Which of them are the same -/

variable {service other : Service}

theorem routeName_eq (service : Service) : service.routeName = service.name ++ "PathPrefix" := rfl

theorem factoryName_eq (service : Service) : service.factoryName = "create" ++ service.name := rfl

theorem routeName_notMem_fixedNames (service : Service) : service.routeName ∉ fixedNames := by
  intro hmem
  have hlast : service.routeName.toList.getLast? = some 'x' := by simp [routeName_eq]
  have hfixed : ∀ name ∈ fixedNames, name.toList.getLast? ≠ some 'x' := by decide
  exact hfixed _ hmem hlast

theorem factoryName_mem_fixedNames_iff : service.factoryName ∈ fixedNames ↔ service.name = "TwirpAdapter" := by
  have hadapter : adapterFactory = "create" ++ "TwirpAdapter" := rfl
  have htransport : service.factoryName ≠ transportName := by
    intro heq
    have hfirst := congrArg (fun text : String => text.toList.head?) (factoryName_eq service ▸ heq)
    simp [transportName] at hfirst
  have hresolver := factoryName_ne_resolverName service
  calc service.factoryName ∈ fixedNames
      ↔ service.factoryName = adapterFactory := by
        simp only [fixedNames, List.mem_cons, List.not_mem_nil, htransport, hresolver, or_false]
    _ ↔ service.name = "TwirpAdapter" := by rw [factoryName_eq, hadapter, String.append_right_inj]

theorem routeName_inj : service.routeName = other.routeName ↔ service.name = other.name := by
  rw [routeName_eq, routeName_eq, String.append_left_inj]

theorem factoryName_inj : service.factoryName = other.factoryName ↔ service.name = other.name := by
  rw [factoryName_eq, factoryName_eq, String.append_right_inj]

/-- No end of the one word is a beginning of the other. -/
theorem create_pathPrefix_apart {middle front rest : List Char} (hfront : "create".toList = front ++ middle)
    (hrest : "PathPrefix".toList = middle ++ rest) : middle = [] := by
  cases middle with
  | nil => rfl
  | cons c middle =>
    have hc : c ∈ "create".toList := hfront ▸ List.mem_append_right _ List.mem_cons_self
    obtain rfl : 'P' = c := (List.cons.inj hrest).1
    exact absurd hc (by decide)

/-- The names of a factory and of a route are the same if the words around the names of the services fall
into each other. -/
theorem factoryName_eq_routeName_iff :
    service.factoryName = other.routeName ↔
      ∃ stem, other.name = "create" ++ stem ∧ service.name = stem ++ "PathPrefix" := by
  rw [factoryName_eq, routeName_eq]
  constructor
  · intro heq
    rw [← String.toList_inj, String.toList_append, String.toList_append, List.append_eq_append_iff] at heq
    rcases heq with ⟨stem, hother, hservice⟩ | ⟨middle, hcreate, hprefix⟩
    · refine ⟨String.ofList stem, ?_, ?_⟩
      · rw [← String.toList_inj, hother, String.toList_append, String.toList_ofList (l := stem)]
      · rw [← String.toList_inj, hservice, String.toList_append, String.toList_ofList (l := stem)]
    · obtain rfl := create_pathPrefix_apart hcreate hprefix
      refine ⟨"", ?_, ?_⟩
      · rw [← String.toList_inj, String.append_empty, hcreate, List.append_nil]
      · rw [← String.toList_inj, String.empty_append, hprefix, List.nil_append]
  · rintro ⟨stem, hother, hservice⟩
    rw [hother, hservice, String.append_assoc]

theorem nodup_ownNames_iff : service.ownNames.Nodup ↔ service.factoryName ≠ service.routeName := by
  rw [Service.ownNames, List.nodup_cons, List.mem_singleton, and_iff_left (List.nodup_singleton _)]
  exact ne_comm

theorem disjoint_ownNames_iff (hname : service.name ≠ other.name) :
    service.ownNames.Disjoint other.ownNames ↔
      service.factoryName ≠ other.routeName ∧ other.factoryName ≠ service.routeName := by
  have hroute : service.routeName ≠ other.routeName := mt routeName_inj.mp hname
  have hfactory : service.factoryName ≠ other.factoryName := mt factoryName_inj.mp hname
  have hcross : service.routeName ≠ other.factoryName ↔ other.factoryName ≠ service.routeName := ne_comm
  simp only [Service.ownNames, List.disjoint_cons_left, List.disjoint_nil_left, List.mem_cons, List.not_mem_nil,
    or_false, not_or, ne_eq, hroute, hfactory, not_false_eq_true, true_and, and_true]
  rw [← ne_eq, hcross]
  exact and_comm

/-- The names of distinct services are distinct if no factory is called like a route. -/
theorem nodup_serviceNames_iff {services : List Service} (hdistinct : (services.map Service.name).Nodup) :
    (services.flatMap Service.ownNames).Nodup ↔
      ∀ first ∈ services, ∀ second ∈ services, first.factoryName ≠ second.routeName := by
  rw [List.nodup_flatMap]
  constructor
  · rintro ⟨hown, hothers⟩ first hfirst second hsecond
    have hsymm : Std.Symm (Function.onFun List.Disjoint Service.ownNames) := ⟨fun _ _ => List.disjoint_symm⟩
    by_cases hsame : first = second
    · exact hsame ▸ nodup_ownNames_iff.mp (hown first hfirst)
    · have hname : first.name ≠ second.name := fun heq => hsame (List.inj_on_of_nodup_map hdistinct hfirst hsecond heq)
      exact ((disjoint_ownNames_iff hname).mp (hothers.forall hfirst hsecond hsame)).1
  · intro h
    refine ⟨fun service hservice => nodup_ownNames_iff.mpr (h service hservice service hservice), ?_⟩
    refine (List.pairwise_map.mp hdistinct).imp_of_mem fun {first second} hfirst hsecond hname => ?_
    exact (disjoint_ownNames_iff hname).mpr ⟨h first hfirst second hsecond, h second hsecond first hfirst⟩

/-- The names that a client of distinct services declares itself are distinct unless a service is called after
the adapter, or two services `create<stem>` and `<stem>PathPrefix` after each other: then the route of the one
and the factory of the other have one name. -/
theorem Template.ownNames_nodup_iff (template : Template) (blueprint : Blueprint) (module : Module)
    (hexpand : template.expand blueprint = .ok module)
    (hdistinct : (blueprint.services.map Service.name).Nodup) :
    ownNames module = ["createTwirpAdapter", "Axios", "getServiceMethodName"] ++
        (blueprint.services.flatMap fun service => [service.name ++ "PathPrefix", "create" ++ service.name]) ∧
      ((ownNames module).Nodup ↔
        (∀ service ∈ blueprint.services, service.name ≠ "TwirpAdapter") ∧
          ∀ stem, ∀ first ∈ blueprint.services, ∀ second ∈ blueprint.services,
            ¬(first.name = "create" ++ stem ∧ second.name = stem ++ "PathPrefix")) := by
  have hnames := ownNames_clientModule template blueprint
  rw [← expand_eq_ok template hexpand] at hnames
  refine ⟨hnames, ?_⟩
  have hfixed : fixedNames.Nodup := by decide
  have hadapter : fixedNames.Disjoint (blueprint.services.flatMap Service.ownNames) ↔
      ∀ service ∈ blueprint.services, service.name ≠ "TwirpAdapter" := by
    rw [List.disjoint_right]
    simp only [List.mem_flatMap, Service.ownNames, List.mem_cons, List.not_mem_nil, or_false]
    constructor
    · intro h service hservice hname
      exact h ⟨service, hservice, .inr rfl⟩ (factoryName_mem_fixedNames_iff.mpr hname)
    · rintro h _ ⟨service, hservice, rfl | rfl⟩
      · exact routeName_notMem_fixedNames service
      · exact mt factoryName_mem_fixedNames_iff.mp (h service hservice)
  have hservices : (blueprint.services.flatMap Service.ownNames).Nodup ↔
      ∀ stem, ∀ first ∈ blueprint.services, ∀ second ∈ blueprint.services,
        ¬(first.name = "create" ++ stem ∧ second.name = stem ++ "PathPrefix") := by
    rw [nodup_serviceNames_iff hdistinct]
    constructor
    · intro h stem first hfirst second hsecond hstem
      exact h second hsecond first hfirst (factoryName_eq_routeName_iff.mpr ⟨stem, hstem⟩)
    · intro h first hfirst second hsecond heq
      obtain ⟨stem, hstem⟩ := factoryName_eq_routeName_iff.mp heq
      exact h stem second hsecond first hfirst hstem
  rw [hnames, List.nodup_append', hadapter, hservices, and_iff_right hfixed]
  exact and_comm

/-- The factory of the one service is called like the route of the other. -/
theorem ownNames_nodup_iff_crossed :
    let blueprint : Blueprint :=
      { source := "", package := "shop", moduleName := "", routePrefix := ""
        services := [⟨"createCart", "shop", []⟩, ⟨"CartPathPrefix", "shop", ["Get"]⟩] }
    let module := Template.clientModule {} blueprint
    Template.expand {} blueprint = .ok module ∧ (blueprint.services.map Service.name).Nodup ∧
      ¬(ownNames module).Nodup := by
  intro blueprint module
  have hexpand : Template.expand {} blueprint = .ok module := rfl
  have hdistinct : (blueprint.services.map Service.name).Nodup := by decide
  refine ⟨hexpand, hdistinct, fun hnodup => ?_⟩
  obtain ⟨-, hcrossed⟩ := ((Template.ownNames_nodup_iff {} blueprint module hexpand hdistinct).2).mp hnodup
  exact hcrossed "Cart" _ List.mem_cons_self _ (List.mem_cons_of_mem _ List.mem_cons_self) ⟨rfl, rfl⟩

/-- A single service is enough: its factory is called like the imported adapter. -/
theorem ownNames_clash_adapter :
    let blueprint : Blueprint :=
      { source := "", package := "shop", moduleName := "", routePrefix := ""
        services := [⟨"TwirpAdapter", "shop", []⟩] }
    let module := Template.clientModule {} blueprint
    Template.expand {} blueprint = .ok module ∧ (blueprint.services.map Service.name).Nodup ∧
      ¬(ownNames module).Nodup := by
  intro blueprint module
  have hnames : ownNames module =
      ["createTwirpAdapter", "Axios", "getServiceMethodName", "TwirpAdapterPathPrefix", "createTwirpAdapter"] := by
    decide
  refine ⟨rfl, by decide, ?_⟩
  rw [hnames]
  decide

end TwirpClient.Client
