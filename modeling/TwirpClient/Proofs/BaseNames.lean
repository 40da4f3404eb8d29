import TwirpClient.Naming
import TwirpClient.Proofs.Cutting

/-!
# Base names

A path is taken apart from its two ends: what is before the last slash goes, and then what is behind the first
dot of the rest. `HasParts` says what the three parts of a path are, by the path itself and with no cut in it:
directories that are none or end in a slash, a base name with neither slash nor dot, and endings that are none
or begin with a dot and hold no slash. Every path has such parts, and one base name only (`baseName_eq_iff`).

Directories put in front of a path change its directories and nothing else, and what is put behind it after a
dot changes its endings, so neither has a say in the base name.
-/

namespace TwirpClient.Naming

variable {path before base behind : String}

/-! ## The parts of a path -/

/-- The path is made of directories, a base name and endings. -/
structure HasParts (path before base behind : String) : Prop where
  path_eq : before ++ base ++ behind = path
  before_ends : before = "" ∨ before.toList.getLast? = some '/'
  slash_notMem_base : '/' ∉ base.toList
  dot_notMem_base : '.' ∉ base.toList
  slash_notMem_behind : '/' ∉ behind.toList
  behind_begins : behind = "" ∨ behind.toList.head? = some '.'

/-- The first cut leaves the base name with its endings, and the second leaves the base name. -/
theorem HasParts.baseName_eq (h : HasParts path before base behind) : baseName path = base := by
  have hsegment : Text.afterLast '/' path = base ++ behind := by
    refine Text.afterLast_eq_iff.mpr ⟨?_, before, ?_, h.before_ends⟩
    · rw [String.toList_append, List.mem_append, not_or]
      exact ⟨h.slash_notMem_base, h.slash_notMem_behind⟩
    · rw [← String.append_assoc, h.path_eq]
  rw [baseName, hsegment]
  exact Text.before_eq_iff.mpr ⟨h.dot_notMem_base, behind, rfl, h.behind_begins⟩

theorem exists_hasParts (path : String) : ∃ before behind, HasParts path before (baseName path) behind := by
  obtain ⟨hslash, before, hpath, hbefore⟩ := Text.afterLast_eq_iff.mp (Eq.refl (Text.afterLast '/' path))
  obtain ⟨hdot, behind, hsegment, hbehind⟩ := Text.before_eq_iff.mp (Eq.refl (baseName path))
  rw [← hsegment, String.toList_append, List.mem_append, not_or] at hslash
  refine ⟨before, behind, ?_, hbefore, hslash.1, hdot, hslash.2, hbehind⟩
  rw [String.append_assoc, hsegment, hpath]

/-- Every path has parts, and its base name is the only one that it has. -/
theorem baseName_eq_iff : baseName path = base ↔ ∃ before behind, HasParts path before base behind := by
  constructor
  · rintro rfl
    exact exists_hasParts path
  · rintro ⟨before, behind, hparts⟩
    exact hparts.baseName_eq

theorem slash_notMem_baseName (path : String) : '/' ∉ (baseName path).toList := by
  obtain ⟨before, behind, hparts⟩ := exists_hasParts path
  exact hparts.slash_notMem_base

theorem dot_notMem_baseName (path : String) : '.' ∉ (baseName path).toList := by
  obtain ⟨before, behind, hparts⟩ := exists_hasParts path
  exact hparts.dot_notMem_base

/-! ## More directories and more endings -/

theorem HasParts.inDirectory (h : HasParts path before base behind) (directories : String) :
    HasParts (directories ++ "/" ++ path) (directories ++ "/" ++ before) base behind where
  path_eq := by rw [← h.path_eq]; simp only [String.append_assoc]
  before_ends := by
    refine .inr ?_
    rcases h.before_ends with rfl | hlast
    · simp
    · rw [String.toList_append, List.getLast?_append, hlast, Option.some_or]
  slash_notMem_base := h.slash_notMem_base
  dot_notMem_base := h.dot_notMem_base
  slash_notMem_behind := h.slash_notMem_behind
  behind_begins := h.behind_begins

theorem HasParts.withEnding (h : HasParts path before base behind) {ending : String}
    (hending : '/' ∉ ending.toList) :
    HasParts (path ++ "." ++ ending) before base (behind ++ "." ++ ending) where
  path_eq := by rw [← h.path_eq]; simp only [String.append_assoc]
  before_ends := h.before_ends
  slash_notMem_base := h.slash_notMem_base
  dot_notMem_base := h.dot_notMem_base
  slash_notMem_behind := by simp [h.slash_notMem_behind, hending]
  behind_begins := by
    refine .inr ?_
    rcases h.behind_begins with rfl | hfirst
    · simp
    · simp [hfirst]

/-- What stands before a slash has no part in the base name, whatever follows the slash. -/
theorem baseName_inDirectory (directories path : String) :
    baseName (directories ++ "/" ++ path) = baseName path := by
  obtain ⟨before, behind, hparts⟩ := exists_hasParts path
  exact (hparts.inDirectory directories).baseName_eq

/-- What stands behind a dot has no part in the base name, if no slash follows. -/
theorem baseName_withEnding (path : String) {ending : String} (hending : '/' ∉ ending.toList) :
    baseName (path ++ "." ++ ending) = baseName path := by
  obtain ⟨before, behind, hparts⟩ := exists_hasParts path
  exact (hparts.withEnding hending).baseName_eq

/-- A name without a slash and a dot is all base name. -/
theorem hasParts_self (hslash : '/' ∉ base.toList) (hdot : '.' ∉ base.toList) : HasParts base "" base "" :=
  ⟨by simp, .inl rfl, hslash, hdot, by simp, .inl rfl⟩

end TwirpClient.Naming
