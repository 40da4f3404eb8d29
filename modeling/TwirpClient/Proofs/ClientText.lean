import TwirpClient.Client.Generator
import TwirpClient.Proofs.Layout

/-!
# The text of a client

The template of a client as a text over the schema file, line by line: no trees, no directives and no
writer. `Generator.generate_eq_clientText` says that a generator gives exactly this text.

A line here is what the template puts before a line feed. Names go into it as they are, so a name with a
line feed in it makes more lines of one; the text is the same.
-/

namespace TwirpClient.Client

open Code

/-! ## The template, written out -/

/-- A text as it stands between the quotes of a literal. -/
def escaped (text : String) : String :=
  String.ofList (text.toList.flatMap Text.Quoted.escape)

def textOfLines (lines : List String) : String :=
  String.join (lines.map (· ++ "\n"))

/-- The comment and the imports. -/
def headLines (helpers : Helpers) (file : Schema.File) : List String :=
  let binding := helpers.importBinding file.packageName
  let source := escaped ("./" ++ Naming.baseName file.path ++ ".pb")
  ["// Generated by protoc-gen-twirp_typescript. DO NOT EDIT",
   s!"import {binding} from '{source}';",
   "import \x7bcreateTwirpAdapter\x7d from 'pbjs-twirp';",
   "import Axios from 'axios';"]

/-- The check for one method. -/
def checkLines (helpers : Helpers) (package service method : String) : List String :=
  let property := helpers.lowerInitial method
  let value := escaped method
  [s!"    if (fn === {package}.{service}.prototype.{property}) \x7b",
   s!"        return '{value}';",
   "    \x7d"]

/-- The function that finds the name of a method. An empty line divides the checks from the failure. -/
def resolverLines (helpers : Helpers) (file : Schema.File) : List String :=
  ["",
   "const getServiceMethodName = (fn: any): string => \x7b"] ++
  (file.services.flatMap fun service => service.methods.flatMap fun method =>
    checkLines helpers file.packageName service.label method.label) ++
  (if file.services.any fun service => !service.methods.isEmpty then [""] else []) ++
  ["    throw new Error('Unknown Method');",
   "\x7d;"]

/-- The route of a service. -/
def routeLines (version package service : String) : List String :=
  let mount := if version = "v6" then "" else "/twirp"
  let route := escaped (mount ++ "/" ++ package ++ "." ++ service ++ "/")
  ["",
   s!"export const {service}PathPrefix = '{route}';"]

/-- The function that creates a client of a service. -/
def factoryLines (package service : String) : List String :=
  ["",
   s!"export const create{service} = (baseURL: string): {package}.{service} => \x7b",
   "    const axios = Axios.create(\x7b",
   s!"        baseURL: baseURL + {service}PathPrefix,",
   "        headers: \x7b",
   "            Accept: 'application/protobuf'",
   "        \x7d",
   "    \x7d);",
   "",
   s!"    return {package}.{service}.create(createTwirpAdapter(axios, getServiceMethodName));",
   "\x7d;"]

/-- The client of a schema file. -/
def clientText (helpers : Helpers) (version : String) (file : Schema.File) : String :=
  textOfLines <|
    headLines helpers file ++ resolverLines helpers file ++
      file.services.flatMap fun service =>
        routeLines version file.packageName service.label ++ factoryLines file.packageName service.label

/-! ## The parts -/

theorem ofString_eq_escaped (text : String) : Text.Quoted.ofString text = "'" ++ escaped text ++ "'" := by
  rw [← String.toList_inj]
  simp [Text.Quoted.ofString, Text.Quoted.encode, Text.Quoted.tail, escaped]

@[simp] theorem textOfLines_nil : textOfLines [] = "" := rfl

theorem textOfLines_cons (line : String) (lines : List String) :
    textOfLines (line :: lines) = line ++ "\n" ++ textOfLines lines := by
  rw [textOfLines, List.map_cons, String.join_cons, textOfLines]

theorem textOfLines_append (lines lines' : List String) :
    textOfLines (lines ++ lines') = textOfLines lines ++ textOfLines lines' := by
  rw [textOfLines, List.map_append, String.join_append, textOfLines, textOfLines]

/-- A check takes three lines, one block deep. -/
theorem methodCheck_layout (template : Template) (service : Service) (method : String) :
    (template.methodCheck service method).layout 1 =
      textOfLines (checkLines template.helpers service.package service.name method) := by
  have hspaces : indentation 1 = "    " := rfl
  have hdeeper : indentation 2 = "        " := rfl
  rw [← String.toList_inj]
  simp [Template.methodCheck, Service.namespaceExpr, checkLines, textOfLines_cons, Stmt.layout,
    stmtsLayout, Expr.layout, BinOp.text, BinOp.sign, ofString_eq_escaped, toString_string, hspaces, hdeeper]

theorem serviceChecks_layout (template : Template) (service : Service) (methods : List String) :
    stmtsLayout 1 (methods.map (template.methodCheck service)) =
      textOfLines (methods.flatMap (checkLines template.helpers service.package service.name)) := by
  induction methods with
  | nil => rfl
  | cons method methods ih =>
    rw [List.map_cons, stmtsLayout, methodCheck_layout, ih, List.flatMap_cons, textOfLines_append]

/-- The checks follow the order of declaration, service by service. -/
theorem methodChecks_layout (template : Template) (services : List Service) :
    stmtsLayout 1 (template.methodChecks services) =
      textOfLines (services.flatMap fun service =>
        service.methods.flatMap (checkLines template.helpers service.package service.name)) := by
  induction services with
  | nil => rfl
  | cons service services ih =>
    have hservice := serviceChecks_layout template service service.methods
    rw [Template.methodChecks] at ih ⊢
    rw [List.flatMap_cons, stmtsLayout_append, ih, hservice, List.flatMap_cons, textOfLines_append]

/-- There is a check as soon as there is a method anywhere. -/
theorem methodChecks_isEmpty (template : Template) (services : List Service) :
    (template.methodChecks services).isEmpty = !services.any fun service => !service.methods.isEmpty := by
  induction services with
  | nil => rfl
  | cons service services ih =>
    rw [Template.methodChecks] at ih ⊢
    rw [List.flatMap_cons, List.any_cons]
    cases service.methods with
    | nil =>
      rw [List.map_nil, List.nil_append, ih]
      rfl
    | cons method methods => rfl

/-- The function that finds a method's name, for any services. -/
theorem resolverItem_layout (template : Template) (services : List Service) :
    (template.resolverItem services).layout =
      textOfLines
        (["", "const getServiceMethodName = (fn: any): string => \x7b"] ++
          (services.flatMap fun service =>
            service.methods.flatMap (checkLines template.helpers service.package service.name)) ++
          (if services.any fun service => !service.methods.isEmpty then [""] else []) ++
          ["    throw new Error('Unknown Method');", "\x7d;"]) := by
  have hopen : Item.layout (template.resolverItem services) =
      textOfLines ["", "const getServiceMethodName = (fn: any): string => \x7b"] ++
        stmtsLayout 1 (template.resolverBody services) ++ textOfLines ["\x7d;"] := by
    rw [← String.toList_inj]
    simp [Template.resolverItem, Item.layout, Expr.layout, Param.layout, resultLayout, resolverName,
      textOfLines_cons, indentation]
  have hblank : stmtsLayout 1 (if (template.methodChecks services).isEmpty then [] else [.blank]) =
      textOfLines (if services.any fun service => !service.methods.isEmpty then [""] else []) := by
    rw [methodChecks_isEmpty]
    cases services.any fun service => !service.methods.isEmpty with
    | true => rfl
    | false => rfl
  have hthrow : stmtsLayout 1 [.throw (.new "Error" [.str "Unknown Method"])] =
      textOfLines ["    throw new Error('Unknown Method');"] := by
    decide
  rw [hopen, Template.resolverBody, stmtsLayout_append, stmtsLayout_append, methodChecks_layout, hblank,
    hthrow]
  simp only [← textOfLines_append, List.append_assoc, List.cons_append, List.nil_append]

theorem escaped_contentType : escaped contentType = "application/protobuf" := by
  decide

/-- The statement of a factory that makes the transport. -/
def Service.transportStmt (service : Service) : Stmt :=
  .const "axios" (.call (.member (.ident transportName) "create") [.object
    [("baseURL", .binary (.ident "baseURL") .plus (.ident service.routeName)),
     ("headers", .object [("Accept", .str contentType)])]])

/-- The statement of a factory that gives the service with the adapted transport. -/
def Service.adaptionStmt (service : Service) : Stmt :=
  .give (.call (.member service.namespaceExpr "create")
    [.call (.ident adapterFactory) [.ident "axios", .ident resolverName]])

theorem factoryItem_eq (service : Service) :
    service.factoryItem = .const true service.factoryName
      (.arrow [⟨"baseURL", "string"⟩] (some service.typeName)
        [service.transportStmt, .blank, service.adaptionStmt]) := rfl

theorem transportStmt_layout (service : Service) :
    service.transportStmt.layout 1 =
      textOfLines
        ["    const axios = Axios.create(\x7b",
         s!"        baseURL: baseURL + {service.name}PathPrefix,",
         "        headers: \x7b",
         "            Accept: 'application/protobuf'",
         "        \x7d",
         "    \x7d);"] := by
  rw [Service.transportStmt, ← String.toList_inj]
  simp [Expr.layout, exprLayouts, propertyLayouts, textOfLines_cons, Stmt.layout, indentation,
    ofString_eq_escaped, Service.routeName, BinOp.text, BinOp.sign, transportName, toString_string,
    escaped_contentType]

theorem adaptionStmt_layout (service : Service) :
    service.adaptionStmt.layout 1 = textOfLines
      [s!"    return {service.package}.{service.name}.create(createTwirpAdapter(axios, getServiceMethodName));"] := by
  rw [Service.adaptionStmt, ← String.toList_inj]
  simp [Expr.layout, exprLayouts, textOfLines_cons, Stmt.layout, indentation, Service.namespaceExpr,
    adapterFactory, resolverName, toString_string]

theorem routeItem_layout (service : Service) (version : String) :
    (service.routeItem (Naming.routePrefix version)).layout =
      textOfLines (routeLines version service.package service.name) := by
  have hroute : service.route (Naming.routePrefix version) =
      (if version = "v6" then "" else "/twirp") ++ "/" ++ service.package ++ "." ++ service.name ++ "/" := by
    have hmount : Naming.routePrefix version = if version = "v6" then "" else "/twirp" := rfl
    rw [← hmount]
    simp [Service.route, toString_string, String.append_assoc]
  rw [Service.routeItem, hroute, ← String.toList_inj]
  simp [Item.layout, Expr.layout, routeLines, textOfLines_cons, ofString_eq_escaped, Service.routeName,
    toString_string]

/-- The function that creates a client, from its header to its closing brace. -/
theorem factoryItem_layout (service : Service) :
    service.factoryItem.layout = textOfLines (factoryLines service.package service.name) := by
  have hopen : service.factoryItem.layout =
      textOfLines
        ["",
         s!"export const create{service.name} = (baseURL: string): {service.package}.{service.name} => \x7b"] ++
        stmtsLayout 1 [service.transportStmt, .blank, service.adaptionStmt] ++ textOfLines ["\x7d;"] := by
    rw [factoryItem_eq, Item.layout, Expr.layout, ← String.toList_inj]
    simp [Param.layout, resultLayout, textOfLines_cons, indentation, Service.factoryName, Service.typeName,
      toString_string]
  have hblank : Stmt.layout 1 .blank = textOfLines [""] := rfl
  rw [hopen, stmtsLayout, stmtsLayout, stmtsLayout, stmtsLayout, transportStmt_layout, hblank,
    adaptionStmt_layout, String.append_empty]
  simp only [← textOfLines_append, List.cons_append, List.nil_append, factoryLines]

/-! ## The whole -/

/-- The items in front of the first function: the comment and three imports, of which only the first
depends on the file. -/
theorem headItems_layout (template : Template) (file : Schema.File) :
    String.join (List.map Item.layout
      [.comment header,
       .importFrom (template.helpers.importBinding file.packageName)
         (template.library.messageModule (Naming.baseName file.path)),
       .importFrom ("\x7b" ++ adapterFactory ++ "\x7d") template.library.adapterModule,
       .importFrom transportName transportModule]) =
    textOfLines (headLines template.helpers file) := by
  have hmessages : template.library.messageModule (Naming.baseName file.path) =
      "./" ++ Naming.baseName file.path ++ ".pb" := by
    cases template.library with
    | pbjs => rfl
  have hadapter : Item.layout
      (.importFrom ("\x7b" ++ adapterFactory ++ "\x7d") template.library.adapterModule) =
      "import \x7bcreateTwirpAdapter\x7d from 'pbjs-twirp';\n" := by
    cases template.library with
    | pbjs => decide
  have htransport : Item.layout (.importFrom transportName transportModule) =
      "import Axios from 'axios';\n" := by
    decide
  rw [List.map_cons, List.map_cons, List.map_cons, List.map_cons, List.map_nil, hadapter, htransport,
    hmessages, headLines, ← String.toList_inj]
  simp [Item.layout, textOfLines_cons, ofString_eq_escaped, header, toString_string]

/-- The module of a client, whose services all lie in the package of the file. -/
theorem clientModule_layout (template : Template) (version : String) (file : Schema.File) :
    (template.clientModule (Blueprint.draw file
      ⟨file.packageName, file.services.map (Service.ofSchema file.packageName)⟩ version)).layout =
    clientText template.helpers version file := by
  have hservices : ∀ services : List Schema.Service,
      String.join (List.map Item.layout ((services.map (Service.ofSchema file.packageName)).flatMap
        fun service => [service.routeItem (Naming.routePrefix version), service.factoryItem])) =
      textOfLines (services.flatMap fun service =>
        routeLines version file.packageName service.label ++
          factoryLines file.packageName service.label) := by
    intro services
    induction services with
    | nil => rfl
    | cons service services ih =>
      rw [List.map_cons, List.flatMap_cons, List.map_append, String.join_append, ih, List.flatMap_cons,
        textOfLines_append, textOfLines_append, List.map_cons, List.map_cons, List.map_nil,
        routeItem_layout, factoryItem_layout, String.join_cons, String.join_cons, String.join_nil,
        String.append_empty]
      rfl
  have hresolver : (template.resolverItem (file.services.map (Service.ofSchema file.packageName))).layout =
      textOfLines (resolverLines template.helpers file) := by
    rw [resolverItem_layout, resolverLines, List.flatMap_map, List.any_map]
    simp only [Service.ofSchema, List.flatMap_map, Function.comp_def, List.isEmpty_map]
  rw [Module.layout, Template.clientModule, clientText, List.map_append, String.join_append,
    textOfLines_append, textOfLines_append, ← hservices, ← hresolver, ← headItems_layout]
  rfl

theorem hasUnnamedMethod_ofSchema (package : String) (service : Schema.Service)
    (hmethods : ∀ method ∈ service.methods, method.label ≠ "") :
    (Service.ofSchema package service).hasUnnamedMethod = false := by
  rw [Service.hasUnnamedMethod, List.any_eq_false]
  intro name hname
  obtain ⟨method, hmethod, rfl⟩ := List.mem_map.mp hname
  simpa using hmethods method hmethod

/-- A file with no method without a name gives exactly one file, whose content is the text of its client. -/
theorem Generator.generate_eq_clientText (generator : Generator) (file : Schema.File)
    (hpath : file.path ≠ Schema.timestampPath)
    (hmethods : ∀ service ∈ file.services, ∀ method ∈ service.methods, method.label ≠ "") :
    generator.generate file =
      .ok [⟨Naming.outputName file.path, clientText generator.helpers generator.version file⟩] := by
  have houtline : Outline.ofFile? file =
      some ⟨file.packageName, file.services.map (Service.ofSchema file.packageName)⟩ :=
    if_neg hpath
  have hnone : (file.services.map (Service.ofSchema file.packageName)).find? Service.hasUnnamedMethod =
      none := by
    rw [List.find?_eq_none]
    intro service hservice
    obtain ⟨declared, hdeclared, rfl⟩ := List.mem_map.mp hservice
    rw [hasUnnamedMethod_ofSchema _ declared (hmethods declared hdeclared)]
    exact Bool.false_ne_true
  have hexpand : generator.template.expand (Blueprint.draw file
      ⟨file.packageName, file.services.map (Service.ofSchema file.packageName)⟩ generator.version) =
      .ok (generator.template.clientModule (Blueprint.draw file
        ⟨file.packageName, file.services.map (Service.ofSchema file.packageName)⟩ generator.version)) := by
    rw [Template.expand, Blueprint.draw, hnone]
  have hlayout := clientModule_layout generator.template generator.version file
  rw [Generator.generate, houtline]
  simp only [hexpand, Module.print_eq_layout]
  change Except.ok [(⟨_, Module.layout _⟩ : ClientFile)] = _
  rw [hlayout]
  rfl

/-- Two services, one of them without a name and without a method, under helpers that are not the usual
ones. A quote and a line feed in the names do no harm. -/
theorem generate_eq_clientText_two_services :
    let helpers : Helpers := { lowerInitial := fun name => name ++ "'", importBinding := fun _ => "* as it" }
    let file : Schema.File :=
      { name := some "shop/it's.v1.proto"
        services :=
          [{ name := some "Cat", methods := [{ name := some "List" }, { name := some "Get\n'1'" }] }, {}] }
    file.path ≠ Schema.timestampPath ∧
      (∀ service ∈ file.services, ∀ method ∈ service.methods, method.label ≠ "") ∧
      (Generator.mk "v6" .pbjs helpers).generate file =
        .ok [⟨Naming.outputName file.path, clientText helpers "v6" file⟩] := by
  intro helpers file
  have hpath : file.path ≠ Schema.timestampPath := by decide
  have hmethods : ∀ service ∈ file.services, ∀ method ∈ service.methods, method.label ≠ "" := by decide
  exact ⟨hpath, hmethods, Generator.generate_eq_clientText _ file hpath hmethods⟩

end TwirpClient.Client
