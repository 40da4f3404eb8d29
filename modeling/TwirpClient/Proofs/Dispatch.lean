import TwirpClient.Client.Template
import TwirpClient.Proofs.Equality

/-!
# Finding the name of a method

What the function `getServiceMethodName` of a client does when it runs. The first half gives code a meaning,
as much of it as such a function needs: one argument, conditions that compare it with an expression, strings
to return and errors to throw. An expression that stands for a place in the package, like
`shop.Catalog.prototype.list`, is its own value, and `===` asks whether two of them are the same tree.

The second half is about the function of the template. It is a search: the first declared method that
stands at the argument's place gives its name, and if there is none the function throws.
-/

namespace TwirpClient.Code

/-! ## Running code -/

/-- What a run comes to. -/
inductive Outcome where
  | returned (value : String)
  | thrown (error : Expr)
  /-- The statements came to their end. -/
  | fellOff
  /-- The code has no meaning here. -/
  | stuck
  deriving DecidableEq

/-- Goes on with what follows if the statements came to their end. -/
def Outcome.andThen (outcome next : Outcome) : Outcome :=
  match outcome with
  | .fellOff => next
  | outcome => outcome

mutual

/-- Runs a statement of a function with one parameter. -/
def Stmt.run (parameter : String) (argument : Expr) : Stmt → Outcome
  | .give (.str value) => .returned value
  | .throw error => .thrown error
  | .blank => .fellOff
  | .when (.binary (.ident name) .strictEqual target) body =>
    if name = parameter then
      if argument = target then runStmts parameter argument body else .fellOff
    else .stuck
  | _ => .stuck

/-- Runs statements in their order, up to the first that does not come to its end. -/
def runStmts (parameter : String) (argument : Expr) : List Stmt → Outcome
  | [] => .fellOff
  | stmt :: rest => (stmt.run parameter argument).andThen (runStmts parameter argument rest)

end

/-- Calls a function with one parameter. -/
def Expr.apply (function argument : Expr) : Outcome :=
  match function with
  | .arrow [parameter] _ body => runStmts parameter.name argument body
  | _ => .stuck

/-- The value of an item that is a constant of this name. -/
def Item.valueOf? (name : String) : Item → Option Expr
  | .const _ name' value => if name' = name then some value else none
  | _ => none

/-- Calls the one constant of a module that has this name. -/
def Module.call (module : Module) (name : String) (argument : Expr) : Outcome :=
  match module.items.filterMap (Item.valueOf? name) with
  | [function] => function.apply argument
  | _ => .stuck

variable {parameter : String} {argument : Expr}

theorem Outcome.andThen_assoc (outcome next last : Outcome) :
    (outcome.andThen next).andThen last = outcome.andThen (next.andThen last) := by
  cases outcome with
  | returned value => rfl
  | thrown error => rfl
  | fellOff => rfl
  | stuck => rfl

theorem runStmts_append (stmts stmts' : List Stmt) :
    runStmts parameter argument (stmts ++ stmts') =
      (runStmts parameter argument stmts).andThen (runStmts parameter argument stmts') := by
  induction stmts with
  | nil => rw [List.nil_append, runStmts, Outcome.andThen]
  | cons stmt stmts ih => rw [List.cons_append, runStmts, ih, runStmts, Outcome.andThen_assoc]

end TwirpClient.Code

namespace TwirpClient.Client

open Code

/-! ## The function of a client -/

/-- The place of a property on the prototype of a service. -/
def prototypeMember (package service property : String) : Expr :=
  .member (.member (.member (.ident package) service) "prototype") property

/-- The methods that are declared, each with its service, in the order of services and then of methods. -/
def Blueprint.declared (blueprint : Blueprint) : List (Service × String) :=
  blueprint.services.flatMap fun service => service.methods.map (service, ·)

/-- Whether a declared method stands at a place, with the helpers of a template. -/
def Template.standsAt (template : Template) (package service property : String)
    (declared : Service × String) : Bool :=
  declared.1.package = package ∧ declared.1.name = service ∧
    template.helpers.lowerInitial declared.2 = property

/-- What a module's function makes of an expression. -/
def methodNameOf (module : Module) (target : Expr) : Outcome :=
  module.call resolverName target

/-- What the function throws if it knows no method. -/
def unknownMethod : Expr := .new "Error" [.str "Unknown Method"]

variable (template : Template) {package service property : String}

/-- A check returns if its method stands at the place, and otherwise lets the next statement run. -/
theorem methodCheck_run (declared : Service × String) :
    (template.methodCheck declared.1 declared.2).run "fn" (prototypeMember package service property) =
      if template.standsAt package service property declared then .returned declared.2 else .fellOff := by
  have hplace : prototypeMember package service property =
      .member (.member declared.1.namespaceExpr "prototype") (template.helpers.lowerInitial declared.2) ↔
      template.standsAt package service property declared = true := by
    rw [Template.standsAt, decide_eq_true_iff]
    simp only [prototypeMember, Service.namespaceExpr, Expr.member.injEq, Expr.ident.injEq, and_true]
    rw [and_assoc, eq_comm, @eq_comm _ service, @eq_comm _ property]
  rw [Template.methodCheck, Stmt.run, if_pos rfl]
  simp only [hplace]
  rfl

theorem checks_run (methods : List (Service × String)) :
    runStmts "fn" (prototypeMember package service property)
        (methods.map fun declared => template.methodCheck declared.1 declared.2) =
      match methods.find? (template.standsAt package service property) with
      | some declared => .returned declared.2
      | none => .fellOff := by
  induction methods with
  | nil => rfl
  | cons declared methods ih =>
    rw [List.map_cons, runStmts, methodCheck_run, ih, List.find?_cons]
    cases template.standsAt package service property declared with
    | true => rfl
    | false => rfl

theorem methodChecks_eq_map (blueprint : Blueprint) :
    template.methodChecks blueprint.services =
      blueprint.declared.map fun declared => template.methodCheck declared.1 declared.2 := by
  rw [Template.methodChecks, Blueprint.declared, List.map_flatMap]
  simp only [List.map_map, Function.comp_def]

/-- Behind the checks there is nothing that could return: perhaps an empty line, and then the failure. -/
theorem resolverBody_run (blueprint : Blueprint) :
    runStmts "fn" (prototypeMember package service property) (template.resolverBody blueprint.services) =
      match blueprint.declared.find? (template.standsAt package service property) with
      | some declared => .returned declared.2
      | none => .thrown unknownMethod := by
  have hblank : ∀ noChecks : Bool, runStmts "fn" (prototypeMember package service property)
      (if noChecks then [] else [.blank]) = .fellOff := by
    intro noChecks
    cases noChecks with
    | true => rfl
    | false => rfl
  rw [Template.resolverBody, runStmts_append, runStmts_append, hblank, methodChecks_eq_map, checks_run]
  cases blueprint.declared.find? (template.standsAt package service property) with
  | some declared => rfl
  | none => rfl

theorem routeName_ne_resolverName (service : Service) : service.routeName ≠ resolverName := by
  intro heq
  have hname : service.routeName = service.name ++ "PathPrefix" := rfl
  have hlast := congrArg (fun text : String => text.toList.getLast?) (hname.symm.trans heq)
  simp [resolverName] at hlast

theorem factoryName_ne_resolverName (service : Service) : service.factoryName ≠ resolverName := by
  intro heq
  have hname : service.factoryName = "create" ++ service.name := rfl
  have hfirst := congrArg (fun text : String => text.toList.head?) (hname.symm.trans heq)
  simp [resolverName] at hfirst

/-- A client has one function of that name: the constants of the services have other names. -/
theorem clientModule_resolver (blueprint : Blueprint) :
    (template.clientModule blueprint).items.filterMap (Item.valueOf? resolverName) =
      [.arrow [⟨"fn", "any"⟩] (some "string") (template.resolverBody blueprint.services)] := by
  have hservices : (blueprint.services.flatMap fun service =>
      [service.routeItem blueprint.routePrefix, service.factoryItem]).filterMap
        (Item.valueOf? resolverName) = [] := by
    rw [List.filterMap_eq_nil_iff]
    intro item hitem
    obtain ⟨service, -, hitem⟩ := List.mem_flatMap.mp hitem
    rw [List.mem_cons, List.mem_singleton] at hitem
    rcases hitem with rfl | rfl
    · rw [Service.routeItem, Item.valueOf?, if_neg (routeName_ne_resolverName service)]
    · rw [Service.factoryItem, Item.valueOf?, if_neg (factoryName_ne_resolverName service)]
  rw [Template.clientModule, List.filterMap_append, hservices]
  rfl

theorem expand_eq_ok {blueprint : Blueprint} {module : Module}
    (hexpand : template.expand blueprint = .ok module) : module = template.clientModule blueprint := by
  rw [Template.expand] at hexpand
  split at hexpand
  · cases hexpand
  · cases hexpand
    rfl

theorem methodNameOf_eq {blueprint : Blueprint} {module : Module}
    (hexpand : template.expand blueprint = .ok module) :
    methodNameOf module (prototypeMember package service property) =
      match blueprint.declared.find? (template.standsAt package service property) with
      | some declared => .returned declared.2
      | none => .thrown unknownMethod := by
  rw [expand_eq_ok template hexpand, methodNameOf, Module.call, clientModule_resolver]
  exact resolverBody_run template blueprint

theorem forall_declared (blueprint : Blueprint) (P : Service × String → Prop) :
    (∀ declared ∈ blueprint.declared, P declared) ↔
      ∀ service ∈ blueprint.services, ∀ method ∈ service.methods, P (service, method) := by
  constructor
  · intro h service hservice method hmethod
    exact h _ (List.mem_flatMap.mpr ⟨service, hservice, List.mem_map.mpr ⟨method, hmethod, rfl⟩⟩)
  · intro h declared hdeclared
    obtain ⟨service, hservice, hpair⟩ := List.mem_flatMap.mp hdeclared
    obtain ⟨method, hmethod, rfl⟩ := List.mem_map.mp hpair
    exact h service hservice method hmethod

/-- The function of a client gives the name of the first declared method, in the order of services and then
of methods, that stands at the argument's place. It throws exactly if there is no such method, and it always
comes to one or the other. -/
theorem Template.methodNameOf_first (blueprint : Blueprint) (module : Module)
    (hexpand : template.expand blueprint = .ok module) (package service property : String) :
    let outcome := methodNameOf module (prototypeMember package service property)
    (outcome =
      match blueprint.declared.find? fun declared =>
        declared.1.package = package ∧ declared.1.name = service ∧
          template.helpers.lowerInitial declared.2 = property with
      | some declared => .returned declared.2
      | none => .thrown unknownMethod) ∧
    ((∃ error, outcome = .thrown error) ↔
      ∀ declaring ∈ blueprint.services, ∀ method ∈ declaring.methods,
        ¬(declaring.package = package ∧ declaring.name = service ∧
          template.helpers.lowerInitial method = property)) ∧
    outcome ≠ .fellOff ∧ outcome ≠ .stuck := by
  intro outcome
  have hsearch : outcome =
      match blueprint.declared.find? (template.standsAt package service property) with
      | some declared => .returned declared.2
      | none => .thrown unknownMethod := methodNameOf_eq template hexpand
  refine ⟨hsearch, ?_⟩
  rw [← forall_declared blueprint fun declared => ¬(declared.1.package = package ∧
    declared.1.name = service ∧ template.helpers.lowerInitial declared.2 = property)]
  cases hfind : blueprint.declared.find? (template.standsAt package service property) with
  | some declared =>
    rw [hfind] at hsearch
    have hstands := List.find?_some hfind
    rw [Template.standsAt, decide_eq_true_iff] at hstands
    rw [hsearch]
    refine ⟨⟨?_, ?_⟩, nofun, nofun⟩
    · rintro ⟨error, hthrown⟩
      cases hthrown
    · intro hnone
      exact absurd hstands (hnone declared (List.mem_of_find?_eq_some hfind))
  | none =>
    rw [hfind] at hsearch
    rw [hsearch]
    refine ⟨⟨?_, ?_⟩, nofun, nofun⟩
    · intro _ declared hdeclared
      have hnot := List.find?_eq_none.mp hfind declared hdeclared
      rw [Template.standsAt, decide_eq_true_iff] at hnot
      exact hnot
    · intro _
      exact ⟨unknownMethod, rfl⟩

/-- Services of one name in two packages and twice in one, with a rule of naming that gives every method the
same property. -/
theorem methodNameOf_first_repeated :
    let template : Template := { helpers := { lowerInitial := fun _ => "call", importBinding := id } }
    let blueprint : Blueprint :=
      { source := "", package := "", moduleName := "", routePrefix := ""
        services := [⟨"Cart", "old", ["Add"]⟩, ⟨"Cart", "shop", []⟩, ⟨"Cart", "shop", ["Get", "Put"]⟩] }
    let module := template.clientModule blueprint
    template.expand blueprint = .ok module ∧
      methodNameOf module (prototypeMember "shop" "Cart" "call") = .returned "Get" ∧
      methodNameOf module (prototypeMember "shop" "Cart" "add") = .thrown unknownMethod := by
  intro template blueprint module
  have hexpand : template.expand blueprint = .ok module := rfl
  refine ⟨hexpand, ?_, ?_⟩
  · exact (template.methodNameOf_first blueprint module hexpand "shop" "Cart" "call").1.trans rfl
  · exact (template.methodNameOf_first blueprint module hexpand "shop" "Cart" "add").1.trans rfl

end TwirpClient.Client
