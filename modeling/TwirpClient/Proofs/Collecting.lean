/-!
# Going through a list up to the first fault

The library does three things for each member of a list and stops at the first that fails: it reads the
pieces of a parameter, looks up the files of a request and generates their clients. Each time this is
`List.mapM` in `Except`. Said without a run, there are two ends to it. It succeeds if all members do, with
their values in order (`mapM_eq_ok_iff`), and it fails with the fault of the first member that does
(`mapM_eq_error_iff`), whatever comes after that one.
-/

namespace TwirpClient

variable {α β ε ε' : Type}

/-! ## One outcome -/

/-- Success as a test, in the form in which an outcome is evaluated. -/
theorem isOk_iff {outcome : Except ε α} : outcome.isOk = true ↔ ∃ a, outcome = .ok a := by
  cases outcome with
  | error fault => exact ⟨nofun, nofun⟩
  | ok a => exact ⟨fun _ => ⟨a, rfl⟩, fun _ => rfl⟩

theorem map_eq_ok_iff {outcome : Except ε α} {g : α → β} {value : β} :
    outcome.map g = .ok value ↔ ∃ a, outcome = .ok a ∧ g a = value := by
  constructor
  · intro h
    cases outcome with
    | error fault => cases h
    | ok a =>
      cases h
      exact ⟨a, rfl, rfl⟩
  · rintro ⟨a, rfl, rfl⟩
    rfl

/-- Two steps succeed exactly if the first does and the second does with its value. -/
theorem bind_eq_ok_iff {outcome : Except ε α} {g : α → Except ε β} {value : β} :
    outcome.bind g = .ok value ↔ ∃ a, outcome = .ok a ∧ g a = .ok value := by
  cases outcome with
  | error fault => exact ⟨nofun, nofun⟩
  | ok a =>
    constructor
    · intro h
      exact ⟨a, rfl, h⟩
    · rintro ⟨_, hsame, h⟩
      cases hsame
      exact h

/-- What is made of a value has no say in a fault. -/
theorem map_eq_error_iff {outcome : Except ε α} {g : α → β} {fault : ε} :
    outcome.map g = .error fault ↔ outcome = .error fault := by
  cases outcome with
  | error fault' =>
    change Except.error fault' = Except.error fault ↔ _
    rw [Except.error.injEq, Except.error.injEq]
  | ok a => exact ⟨nofun, nofun⟩

/-- What is made of a fault has no say in a value. -/
theorem mapError_eq_ok_iff {outcome : Except ε α} {g : ε → ε'} {value : α} :
    outcome.mapError g = .ok value ↔ outcome = .ok value := by
  cases outcome with
  | error fault => exact ⟨nofun, nofun⟩
  | ok a =>
    change Except.ok a = Except.ok value ↔ _
    rw [Except.ok.injEq, Except.ok.injEq]

theorem mapError_eq_error_iff {outcome : Except ε α} {g : ε → ε'} {fault : ε'} :
    outcome.mapError g = .error fault ↔ ∃ cause, outcome = .error cause ∧ g cause = fault := by
  constructor
  · intro h
    cases outcome with
    | error cause =>
      cases h
      exact ⟨cause, rfl, rfl⟩
    | ok a => cases h
  · rintro ⟨cause, rfl, rfl⟩
    rfl

/-! ## The outcomes of a list -/

/-- Whether a fault is that of the first member for which `f` fails. -/
def IsFirstFault (f : α → Except ε β) (members : List α) (fault : ε) : Prop :=
  ∃ before member after, members = before ++ member :: after ∧
    (∀ earlier ∈ before, ∃ value, f earlier = .ok value) ∧ f member = .error fault

variable {f g : α → Except ε β} {members : List α}

/-- A run takes the first member, and the others only if that one succeeds. -/
theorem mapM_cons_eq (member : α) (members : List α) :
    (member :: members).mapM f = (f member).bind fun value => (members.mapM f).map (value :: ·) := by
  rw [List.mapM_cons]
  cases f member with
  | error fault => rfl
  | ok value =>
    cases members.mapM f with
    | error fault => rfl
    | ok values => rfl

/-- A run that succeeds has one value for each member, in the order of the members. -/
theorem mapM_eq_ok_iff {values : List β} :
    members.mapM f = .ok values ↔ members.map f = values.map .ok := by
  induction members generalizing values with
  | nil =>
    constructor
    · intro h
      cases h
      rfl
    · intro h
      rw [List.map_eq_nil_iff.mp h.symm]
      rfl
  | cons member members ih =>
    rw [mapM_cons_eq, List.map_cons]
    constructor
    · intro h
      cases hmember : f member with
      | error fault =>
        rw [hmember] at h
        cases h
      | ok value =>
        cases hrest : members.mapM f with
        | error fault =>
          rw [hmember, hrest] at h
          cases h
        | ok rest =>
          rw [hmember, hrest] at h
          cases h
          rw [List.map_cons, ih.mp hrest]
    · intro h
      obtain ⟨value, rest, rfl, hmember, hrest⟩ := List.map_eq_cons_iff.mp h.symm
      rw [← hmember, ih.mpr hrest.symm]
      rfl

theorem IsFirstFault.cons {member : α} {value : β} (hmember : f member = .ok value) {fault : ε}
    (h : IsFirstFault f members fault) : IsFirstFault f (member :: members) fault := by
  obtain ⟨before, failing, after, rfl, hbefore, hfailing⟩ := h
  refine ⟨member :: before, failing, after, rfl, ?_, hfailing⟩
  intro earlier hearlier
  rcases List.mem_cons.mp hearlier with rfl | hearlier
  · exact ⟨value, hmember⟩
  · exact hbefore earlier hearlier

/-- A run that fails has the fault of the first member that fails by itself. -/
theorem mapM_eq_error_iff {fault : ε} : members.mapM f = .error fault ↔ IsFirstFault f members fault := by
  constructor
  · intro h
    induction members with
    | nil => cases h
    | cons member members ih =>
      rw [mapM_cons_eq] at h
      cases hmember : f member with
      | error fault' =>
        rw [hmember] at h
        cases h
        exact ⟨[], member, members, rfl, nofun, hmember⟩
      | ok value =>
        cases hrest : members.mapM f with
        | error fault' =>
          rw [hmember, hrest] at h
          cases h
          exact (ih hrest).cons hmember
        | ok rest =>
          rw [hmember, hrest] at h
          cases h
  · rintro ⟨before, member, after, rfl, hbefore, hmember⟩
    induction before with
    | nil =>
      rw [List.nil_append, mapM_cons_eq, hmember]
      rfl
    | cons earlier before ih =>
      obtain ⟨value, hearlier⟩ := hbefore earlier List.mem_cons_self
      have hrest := ih fun other hother => hbefore other (List.mem_cons_of_mem _ hother)
      rw [List.cons_append, mapM_cons_eq, hearlier, hrest]
      rfl

/-- A run succeeds exactly if no member keeps it from doing so. -/
theorem exists_mapM_eq_ok_iff :
    (∃ values, members.mapM f = .ok values) ↔ ∀ member ∈ members, ∃ value, f member = .ok value := by
  constructor
  · rintro ⟨values, hrun⟩ member hmember
    have hmem : f member ∈ values.map .ok := mapM_eq_ok_iff.mp hrun ▸ List.mem_map_of_mem hmember
    obtain ⟨value, -, hvalue⟩ := List.mem_map.mp hmem
    exact ⟨value, hvalue.symm⟩
  · intro h
    cases hrun : members.mapM f with
    | ok values => exact ⟨values, rfl⟩
    | error fault =>
      obtain ⟨before, member, after, hsplit, -, hfails⟩ := mapM_eq_error_iff.mp hrun
      obtain ⟨value, hvalue⟩ := h member (hsplit ▸ List.mem_append_right _ List.mem_cons_self)
      rw [hfails] at hvalue
      cases hvalue

/-- What is read off the values is what can be told from the members. -/
theorem map_eq_of_outcomes {γ : Type} {ofValue : β → γ} {ofMember : α → γ} {values : List β}
    (h : members.map f = values.map .ok)
    (hvalue : ∀ member value, f member = .ok value → ofValue value = ofMember member) :
    values.map ofValue = members.map ofMember := by
  induction members generalizing values with
  | nil =>
    rw [List.map_eq_nil_iff.mp h.symm]
    rfl
  | cons member members ih =>
    obtain ⟨value, rest, rfl, hmember, hrest⟩ := List.map_eq_cons_iff.mp h.symm
    rw [List.map_cons, List.map_cons, hvalue member value hmember.symm, ih hrest.symm]

/-- A run depends on nothing but what `f` gives for the members. -/
theorem mapM_congr (h : ∀ member ∈ members, f member = g member) : members.mapM f = members.mapM g := by
  have houtcomes : ∀ f : α → Except ε β, members.mapM f = (members.map f).mapM id :=
    fun f => (List.mapM_map (g := id)).symm
  rw [houtcomes f, houtcomes g, List.map_congr_left h]

end TwirpClient
