import TwirpClient.Proofs.Dispatch

/-!
# Methods that share a place

A method stands on the prototype of its service under its name with the first letter in lower case, so two
methods of one service can stand at the same place: `lowerInitial_eq_iff` says which. Only the first of them
is ever found there, and the calls of the other are sent to the wrong method. `methodNameOf_faithful_iff` is
the other way round: as long as no two methods share a place, every declared method is found under its own
name.
-/

namespace TwirpClient.Naming

/-! ## Names with one place -/

/-- A letter from `A` to `Z`, and the letter from `a` to `z` that has the same number in the alphabet. -/
def AreCases (upper lower : Char) : Prop :=
  ∃ number < 26, upper.toNat = 'A'.toNat + number ∧ lower.toNat = 'a'.toNat + number

/-- The names begin with the same letter, the one in upper case and the other in lower case, and they go on
alike. -/
def DifferInInitialCase (name name' : String) : Prop :=
  ∃ upper lower rest, AreCases upper lower ∧
    (name.toList = upper :: rest ∧ name'.toList = lower :: rest ∨
      name.toList = lower :: rest ∧ name'.toList = upper :: rest)

theorem AreCases.ne {upper lower : Char} (h : AreCases upper lower) : upper ≠ lower := by
  rintro rfl
  obtain ⟨number, -, hupper, hlower⟩ := h
  have hletters : 'A'.toNat < 'a'.toNat := by decide
  omega

theorem DifferInInitialCase.ne {name name' : String} (h : DifferInInitialCase name name') : name ≠ name' := by
  rintro rfl
  obtain ⟨upper, lower, rest, hcases, ⟨hname, hname'⟩ | ⟨hname, hname'⟩⟩ := h
  · exact hcases.ne (List.cons.inj (hname.symm.trans hname')).1
  · exact hcases.ne (List.cons.inj (hname'.symm.trans hname)).1

/-- A letter from `A` to `Z` has the number of its lower case 32 places on. -/
theorem toNat_toLower (c : Char) :
    c.toLower.toNat = if 65 ≤ c.toNat ∧ c.toNat ≤ 90 then c.toNat + 32 else c.toNat := by
  have hbounds : (c.val ≥ 'A'.val ∧ c.val ≤ 'Z'.val) ↔ (65 ≤ c.toNat ∧ c.toNat ≤ 90) := by
    simp only [ge_iff_le, UInt32.le_iff_toNat_le]
    exact Iff.rfl
  by_cases h : c.val ≥ 'A'.val ∧ c.val ≤ 'Z'.val
  · have hlower : c.toLower.val = c.val + ('a'.val - 'A'.val) := congrArg Char.val (dif_pos h)
    have hsum : (c.val + ('a'.val - 'A'.val)).toNat = c.toNat + 32 := by
      have hupper : c.val.toNat ≤ 90 := (hbounds.mp h).2
      have hoffset : ('a'.val - 'A'.val).toNat = 32 := by decide
      rw [UInt32.toNat_add, hoffset, Nat.mod_eq_of_lt (by omega)]
      rfl
    rw [if_pos (hbounds.mp h), ← hsum, ← hlower]
    rfl
  · have hlower : c.toLower = c := dif_neg h
    rw [hlower, if_neg (mt hbounds.mpr h)]

theorem areCases_iff {upper lower : Char} :
    AreCases upper lower ↔ 65 ≤ upper.toNat ∧ upper.toNat ≤ 90 ∧ lower.toNat = upper.toNat + 32 := by
  have hA : 'A'.toNat = 65 := rfl
  have ha : 'a'.toNat = 97 := rfl
  rw [AreCases, hA, ha]
  constructor
  · rintro ⟨number, hnumber, hupper, hlower⟩
    omega
  · rintro ⟨hfirst, hlast, hlower⟩
    exact ⟨upper.toNat - 65, by omega, by omega, by omega⟩

/-- Two characters have one lower case if they are the same, or the two cases of a letter. -/
theorem toLower_eq_iff {c d : Char} :
    c.toLower = d.toLower ↔ c = d ∨ AreCases c d ∨ AreCases d c := by
  rw [← Char.toNat_inj, toNat_toLower, toNat_toLower, ← @Char.toNat_inj c d, areCases_iff, areCases_iff]
  split <;> split <;> omega

/-- Two names have one place if they are the same, or if they differ in the case of their first letter and in
nothing else. -/
theorem lowerInitial_eq_iff {name name' : String} :
    lowerInitial name = lowerInitial name' ↔ name = name' ∨ DifferInInitialCase name name' := by
  rw [lowerInitial, lowerInitial, DifferInInitialCase, ← @String.toList_inj name name']
  cases name.toList with
  | nil =>
    cases name'.toList with
    | nil => simp
    | cons d rest' => simp
  | cons c rest =>
    cases name'.toList with
    | nil => simp
    | cons d rest' =>
      simp only [String.ofList_inj, List.cons.injEq, toLower_eq_iff]
      constructor
      · rintro ⟨rfl | hcases | hcases, rfl⟩
        · exact .inl ⟨rfl, rfl⟩
        · exact .inr ⟨c, d, rest, hcases, .inl ⟨⟨rfl, rfl⟩, rfl, rfl⟩⟩
        · exact .inr ⟨d, c, rest, hcases, .inr ⟨⟨rfl, rfl⟩, rfl, rfl⟩⟩
      · rintro (⟨rfl, rfl⟩ | ⟨upper, lower, _, hcases, ⟨⟨rfl, rfl⟩, rfl, rfl⟩ | ⟨⟨rfl, rfl⟩, rfl, rfl⟩⟩)
        · exact ⟨.inl rfl, rfl⟩
        · exact ⟨.inr (.inl hcases), rfl⟩
        · exact ⟨.inr (.inr hcases), rfl⟩

end TwirpClient.Naming

namespace TwirpClient.Client

open Code Naming

/-! ## Finding every method -/

variable {template : Template} {blueprint : Blueprint} {module : Module}

/-- Whether two declared methods have one place, with the helpers of a template. -/
def Template.SharePlace (template : Template) (declared other : Service × String) : Prop :=
  template.standsAt declared.1.package declared.1.name (template.helpers.lowerInitial declared.2) other

/-- Where a declared method stands, the first of those that share its place is found. -/
theorem methodNameOf_declared (hexpand : template.expand blueprint = .ok module)
    {declared : Service × String} (hdeclared : declared ∈ blueprint.declared) :
    ∃ first ∈ blueprint.declared, template.SharePlace declared first ∧
      methodNameOf module (prototypeMember declared.1.package declared.1.name
        (template.helpers.lowerInitial declared.2)) = .returned first.2 := by
  have hown : template.SharePlace declared declared := decide_eq_true ⟨rfl, rfl, rfl⟩
  rw [methodNameOf_eq template hexpand]
  cases hfind : blueprint.declared.find? (template.standsAt declared.1.package declared.1.name
      (template.helpers.lowerInitial declared.2)) with
  | none => exact absurd hown (List.find?_eq_none.mp hfind declared hdeclared)
  | some first => exact ⟨first, List.mem_of_find?_eq_some hfind, List.find?_some hfind, rfl⟩

/-- Every method is found under its own name exactly if methods that share a place have one name. -/
theorem methodNameOf_eq_own_iff (hexpand : template.expand blueprint = .ok module) :
    (∀ declared ∈ blueprint.declared,
      methodNameOf module (prototypeMember declared.1.package declared.1.name
        (template.helpers.lowerInitial declared.2)) = .returned declared.2) ↔
    ∀ declared ∈ blueprint.declared, ∀ other ∈ blueprint.declared,
      template.SharePlace declared other → declared.2 = other.2 := by
  constructor
  · intro hfaithful declared hdeclared other hother hshare
    obtain ⟨hpackage, hname, hproperty⟩ := of_decide_eq_true hshare
    have hfound := hfaithful other hother
    rw [hpackage, hname, hproperty, hfaithful declared hdeclared] at hfound
    exact Outcome.returned.inj hfound
  · intro hshared declared hdeclared
    obtain ⟨first, hfirst, hshare, hfound⟩ := methodNameOf_declared hexpand hdeclared
    rw [hfound, hshared declared hdeclared first hfirst hshare]

theorem expand_of_named (hnamed : ∀ service ∈ blueprint.services, ∀ method ∈ service.methods, method ≠ "") :
    template.expand blueprint = .ok (template.clientModule blueprint) := by
  have hnone : blueprint.services.find? Service.hasUnnamedMethod = none := by
    rw [List.find?_eq_none]
    intro service hservice hunnamed
    obtain ⟨method, hmethod, hempty⟩ := List.any_eq_true.mp hunnamed
    exact hnamed service hservice method hmethod (beq_iff_eq.mp hempty)
  rw [Template.expand, hnone]

/-- With the usual rule of naming, the function of a client finds every declared method under its own name
exactly if no two methods of services of one package and name differ just in the case of their first letter:
these are the only names that the rule takes together. -/
theorem methodNameOf_faithful_iff (library : Library) (blueprint : Blueprint)
    (hnamed : ∀ service ∈ blueprint.services, ∀ method ∈ service.methods, method ≠ "") :
    ∃ module, Template.expand { library } blueprint = .ok module ∧
      ((∀ service ∈ blueprint.services, ∀ method ∈ service.methods,
          methodNameOf module (prototypeMember service.package service.name (lowerInitial method)) =
            .returned method) ↔
        ∀ service ∈ blueprint.services, ∀ other ∈ blueprint.services,
          service.package = other.package → service.name = other.name →
          ∀ method ∈ service.methods, ∀ method' ∈ other.methods, ¬DifferInInitialCase method method') ∧
      ∀ name name', lowerInitial name = lowerInitial name' ↔ name = name' ∨ DifferInInitialCase name name' := by
  have hexpand : Template.expand { library } blueprint = .ok (Template.clientModule { library } blueprint) :=
    expand_of_named hnamed
  refine ⟨_, hexpand, ?_, fun _ _ => lowerInitial_eq_iff⟩
  have hown := methodNameOf_eq_own_iff hexpand
  rw [forall_declared, forall_declared] at hown
  refine hown.trans ?_
  constructor
  · intro hshared service hservice other hother hpackage hname method hmethod method' hmethod' hdiffer
    have hothers := (forall_declared blueprint _).mp (hshared service hservice method hmethod)
    have hshare : Template.SharePlace { library } (service, method) (other, method') :=
      decide_eq_true ⟨hpackage.symm, hname.symm, (lowerInitial_eq_iff.mpr (.inr hdiffer)).symm⟩
    exact hdiffer.ne (hothers other hother method' hmethod' hshare)
  · intro happart service hservice method hmethod
    rw [forall_declared]
    intro other hother method' hmethod' hshare
    obtain ⟨hpackage, hname, hproperty⟩ := of_decide_eq_true hshare
    rcases lowerInitial_eq_iff.mp hproperty with heq | hdiffer
    · exact heq.symm
    · exact absurd hdiffer (happart other hother service hservice hpackage hname method' hmethod' method hmethod)

/-- Two methods that share a place, in two services of one name: the call of the second is taken for one of
the first. Methods that differ in a letter further on, or in one that is not of the alphabet, keep apart. -/
theorem methodNameOf_faithful_iff_get :
    let blueprint : Blueprint :=
      { source := "", package := "", moduleName := "", routePrefix := ""
        services := [⟨"Cart", "shop", ["Get", "GeT", "É", "é"]⟩, ⟨"Cart", "old", ["get"]⟩,
          ⟨"Cart", "shop", ["get"]⟩] }
    (∀ service ∈ blueprint.services, ∀ method ∈ service.methods, method ≠ "") ∧
      ∃ module, Template.expand {} blueprint = .ok module ∧
        ¬∀ service ∈ blueprint.services, ∀ method ∈ service.methods,
          methodNameOf module (prototypeMember service.package service.name (lowerInitial method)) =
            .returned method := by
  intro blueprint
  have hnamed : ∀ service ∈ blueprint.services, ∀ method ∈ service.methods, method ≠ "" := by decide
  refine ⟨hnamed, ?_⟩
  obtain ⟨module, hexpand, hiff, -⟩ := methodNameOf_faithful_iff .pbjs blueprint hnamed
  refine ⟨module, hexpand, fun hfaithful => ?_⟩
  have hcases : DifferInInitialCase "Get" "get" :=
    ⟨'G', 'g', ['e', 't'], ⟨6, by decide, rfl, rfl⟩, .inl ⟨rfl, rfl⟩⟩
  exact hiff.mp hfaithful ⟨"Cart", "shop", ["Get", "GeT", "É", "é"]⟩ (by decide) ⟨"Cart", "shop", ["get"]⟩
    (by decide) rfl rfl "Get" (by decide) "get" (by decide) hcases

end TwirpClient.Client
