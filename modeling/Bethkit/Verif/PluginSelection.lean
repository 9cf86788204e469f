import Bethkit.Lib.Outcome
import Bethkit.Semantic.InfoEdit
import Bethkit.Verif.HeaderPatch
import Bethkit.Verif.LookupFormatters

/-!
# Plugins selected by name

The load order takes two names for one plugin if they are the same in lower case. A plugin of a list
should be selected by every name that the load order takes for its own.
-/

namespace Bethkit

/-- What lower-case mapping does to ASCII letters and to its own results. -/
structure IsLowercase (toLowercase : Lowercase) : Prop where
  /-- The case of ASCII letters does not matter. -/
  ascii : ∀ text, toLowercase (strToAsciiLowercase text) = toLowercase text
  /-- Text in lower case is left alone. -/
  idempotent : ∀ text, toLowercase (toLowercase text) = toLowercase text
  /-- Text in lower case has no ASCII capitals. -/
  lowered : ∀ text, strToAsciiLowercase (toLowercase text) = toLowercase text

/-- Two names are one for the load order. -/
def SameName (toLowercase : Lowercase) (left right : String) : Prop :=
  toLowercase left = toLowercase right

/-- The names of plugins are all different for the load order. -/
def DistinctNames (toLowercase : Lowercase) (plugins : List PluginInput) : Prop :=
  plugins.Pairwise fun left right => ¬SameName toLowercase left.name right.name

/-- A plugin is selected by every name that the load order takes for its own, and both functions go
on with it. -/
structure SelectsPlugin (toLowercase : Lowercase) (plugins : List PluginInput)
    (target : PluginInput × Nat) : Prop where
  /-- The search finds this plugin and no other. -/
  selected : ∀ name, SameName toLowercase name target.1.name →
    selectTarget toLowercase plugins name = .ok target
  /-- The plan is one for this plugin. -/
  planned : ∀ name, SameName toLowercase name target.1.name → ∀ inflate order dial,
    planInfoGroupSort toLowercase inflate order plugins name dial =
      planTarget toLowercase inflate order plugins dial none target
  /-- The edit is one of this plugin. -/
  edited : ∀ name, SameName toLowercase name target.1.name →
    ∀ inflate context order infoFormId newPrevious sortInfo,
    editInfoPrevious toLowercase inflate context order plugins name infoFormId newPrevious sortInfo =
      editInfoOf toLowercase inflate context order plugins name infoFormId newPrevious sortInfo
        target.1

end Bethkit

/-!
## Selecting a plugin for INFO sorting

The argument is brought to lower case like the names of the load order, but then it is compared with
the raw names without regard to ASCII case only. So a plugin is selected exactly when lower-case
mapping changes ASCII letters of its name alone. Another plugin is never selected for it.
-/

namespace Bethkit

open Lib

/-- Names are pushed as one entry exactly when the load order takes them for one. -/
theorem push_eq_iff_sameName (toLowercase : Lowercase) (left right : String) :
    LoadOrder.new.push toLowercase left .plugin = LoadOrder.new.push toLowercase right .plugin ↔
      SameName toLowercase left right := by
  constructor
  · intro same
    have entries := congrArg (fun order => order.map (·.entries.map (·.name))) same
    exact List.cons.inj (Except.ok.inj entries) |>.1
  · intro same
    rw [LoadOrder.push, LoadOrder.push, show toLowercase left = toLowercase right from same]

section

variable {toLowercase : Lowercase} (laws : IsLowercase toLowercase)
include laws

/-- A name that agrees with another one in lower case but for ASCII case is the same name. -/
theorem sameName_of_eqIgnoreAsciiCase {left right : String}
    (agrees : strEqIgnoreAsciiCase left (toLowercase right) = true) :
    SameName toLowercase left right := by
  have same : strToAsciiLowercase left = strToAsciiLowercase (toLowercase right) :=
    of_decide_eq_true agrees
  calc
    toLowercase left = toLowercase (strToAsciiLowercase left) := (laws.ascii left).symm
    _ = toLowercase (strToAsciiLowercase (toLowercase right)) := congrArg toLowercase same
    _ = toLowercase (toLowercase right) := laws.ascii _
    _ = toLowercase right := laws.idempotent right

/-- A name agrees with its own lower case exactly when only ASCII letters are changed. -/
theorem eqIgnoreAsciiCase_toLowercase_iff (name : String) :
    strEqIgnoreAsciiCase name (toLowercase name) = true ↔
      toLowercase name = strToAsciiLowercase name := by
  rw [strEqIgnoreAsciiCase, decide_eq_true_eq, laws.lowered]
  exact eq_comm

end

/-- A position of a list is found by a property that no other item has. -/
theorem filter_zipIdx_eq_singleton {α : Type} {items : List α} {item : α} {index offset : Nat}
    {chosen : α → Bool} (apart : items.Pairwise fun left right => ¬(chosen left ∧ chosen right))
    (found : items[index]? = some item) (itself : chosen item = true) :
    (items.zipIdx offset).filter (fun entry => chosen entry.1) = [(item, offset + index)] := by
  induction items generalizing index offset with
  | nil => cases found
  | cons head items ih =>
    obtain ⟨alone, apart⟩ := List.pairwise_cons.mp apart
    rw [List.zipIdx_cons, List.filter_cons]
    cases index with
    | zero =>
      have same : head = item := Option.some.inj found
      have others : (items.zipIdx (offset + 1)).filter (fun entry => chosen entry.1) = [] := by
        apply List.filter_eq_nil_iff.mpr
        intro entry among also
        exact alone _ (List.fst_mem_of_mem_zipIdx among) ⟨same ▸ itself, also⟩
      rw [same, if_pos itself, others, Nat.add_zero]
    | succ index =>
      have later : items[index]? = some item := found
      have skipped : ¬chosen head = true := fun also =>
        alone item (List.mem_of_getElem? later) ⟨also, itself⟩
      have position : offset + 1 + index = offset + (index + 1) := by omega
      rw [if_neg skipped, ih apart later, position]

section

variable {toLowercase : Lowercase} (laws : IsLowercase toLowercase)
include laws

/-- The search compares with the name in lower case, so it finds no other plugin. -/
theorem selectTarget_eq_ok_iff {plugins : List PluginInput} {plugin : PluginInput} {index : Nat}
    (distinct : DistinctNames toLowercase plugins) (listed : plugins[index]? = some plugin)
    {name : String} (same : SameName toLowercase name plugin.name) :
    selectTarget toLowercase plugins name = .ok (plugin, index) ↔
      toLowercase plugin.name = strToAsciiLowercase plugin.name := by
  have argument : toLowercase name = toLowercase plugin.name := same
  have only (other : PluginInput) (chosen : strEqIgnoreAsciiCase other.name
      (toLowercase plugin.name) = true) : SameName toLowercase other.name plugin.name :=
    sameName_of_eqIgnoreAsciiCase laws chosen
  rw [← eqIgnoreAsciiCase_toLowercase_iff laws, selectTarget, argument]
  dsimp only
  by_cases itself : strEqIgnoreAsciiCase plugin.name (toLowercase plugin.name) = true
  · have apart : plugins.Pairwise fun left right =>
        ¬(strEqIgnoreAsciiCase left.name (toLowercase plugin.name) ∧
          strEqIgnoreAsciiCase right.name (toLowercase plugin.name)) := by
      apply distinct.imp
      intro left right differ both
      exact differ ((only left both.1).trans (only right both.2).symm)
    have found := @filter_zipIdx_eq_singleton _ plugins plugin index 0
      (fun other => strEqIgnoreAsciiCase other.name (toLowercase plugin.name)) apart listed itself
    rw [Nat.zero_add] at found
    simp only [found, itself]
  · constructor
    · intro selected
      exfalso
      split at selected
      · rename_i target single
        obtain rfl := Except.ok.inj selected
        have member : (plugin, index) ∈ plugins.zipIdx.filter fun item =>
            strEqIgnoreAsciiCase item.1.name (toLowercase plugin.name) := by
          rw [single]
          exact List.mem_singleton_self _
        exact itself (List.mem_filter.mp member).2
      · cases selected
    · exact fun also => absurd also itself

/-- Two plugins are never selected for one, and the one is selected by all of its names exactly when
lower-case mapping changes ASCII letters of its name alone. -/
theorem selectsPlugin_iff {plugins : List PluginInput} {plugin : PluginInput} {index : Nat}
    (distinct : DistinctNames toLowercase plugins) (listed : plugins[index]? = some plugin) :
    SelectsPlugin toLowercase plugins (plugin, index) ↔
      toLowercase plugin.name = strToAsciiLowercase plugin.name := by
  constructor
  · intro selects
    exact (selectTarget_eq_ok_iff laws distinct listed rfl).mp (selects.selected plugin.name rfl)
  · intro ascii
    have selected (name : String) (same : SameName toLowercase name plugin.name) :=
      (selectTarget_eq_ok_iff laws distinct listed same).mpr ascii
    refine ⟨selected, fun name same inflate order dial => ?_,
      fun name same inflate context order infoFormId newPrevious sortInfo => ?_⟩
    · rw [planInfoGroupSort, planInfoGroupSortWithOverride, selected name same, ok_bind]
    · rw [editInfoPrevious, selected name same]
      rfl

end

/-- The lower case of a character of Latin-1. -/
def latin1Lower (char : Char) : Char :=
  if 0xC0 ≤ char.toNat ∧ char.toNat ≤ 0xDE ∧ char.toNat ≠ 0xD7 then Char.ofNat (char.toNat + 32)
  else char.toLower

/-- The lower-case mapping of text in Latin-1. -/
def latin1Lowercase : Lowercase := fun text => String.ofList (text.toList.map latin1Lower)

/-- A character that is no ASCII capital is its own ASCII lower case. -/
theorem toLower_eq_of_not_capital {char : Char} (other : ¬(65 ≤ char.toNat ∧ char.toNat ≤ 90)) :
    char.toLower = char := by
  rw [Char.toLower, dif_neg]
  exact fun capital => other ⟨capital.1, capital.2⟩

/-- An ASCII capital becomes the letter 32 characters behind it. -/
theorem toNat_toLower_of_capital {char : Char} (capital : 65 ≤ char.toNat ∧ char.toNat ≤ 90) :
    char.toLower.toNat = char.toNat + 32 := by
  rw [Char.toLower, dif_pos ⟨capital.1, capital.2⟩]
  show (char.val + 32).toNat = char.val.toNat + 32
  have high : char.val.toNat ≤ 90 := capital.2
  rw [UInt32.toNat_add]
  show (char.val.toNat + 32) % 2 ^ 32 = _
  omega

/-- What is left of the capitals of Latin-1 in lower case. -/
theorem latin1Lower_not_capital (char : Char) :
    ¬(65 ≤ (latin1Lower char).toNat ∧ (latin1Lower char).toNat ≤ 90) ∧
      ¬(0xC0 ≤ (latin1Lower char).toNat ∧ (latin1Lower char).toNat ≤ 0xDE ∧
        (latin1Lower char).toNat ≠ 0xD7) := by
  unfold latin1Lower
  by_cases accented : 0xC0 ≤ char.toNat ∧ char.toNat ≤ 0xDE ∧ char.toNat ≠ 0xD7
  · have valid : (char.toNat + 32).isValidChar := Or.inl (by omega)
    rw [if_pos accented, Char.toNat_ofNat, if_pos valid]
    omega
  · rw [if_neg accented]
    by_cases capital : 65 ≤ char.toNat ∧ char.toNat ≤ 90
    · rw [toNat_toLower_of_capital capital]
      omega
    · rw [toLower_eq_of_not_capital capital]
      exact ⟨capital, accented⟩

/-- The lower-case mapping of Latin-1 is one. -/
theorem isLowercase_latin1Lowercase : IsLowercase latin1Lowercase := by
  have fixed {char : Char} (plain : ¬(65 ≤ char.toNat ∧ char.toNat ≤ 90))
      (bare : ¬(0xC0 ≤ char.toNat ∧ char.toNat ≤ 0xDE ∧ char.toNat ≠ 0xD7)) :
      latin1Lower char = char := by
    rw [latin1Lower, if_neg bare, toLower_eq_of_not_capital plain]
  have twice (char : Char) : latin1Lower (latin1Lower char) = latin1Lower char :=
    fixed (latin1Lower_not_capital char).1 (latin1Lower_not_capital char).2
  constructor
  · intro text
    have each (char : Char) : latin1Lower char.toLower = latin1Lower char := by
      by_cases capital : 65 ≤ char.toNat ∧ char.toNat ≤ 90
      · have bare : ¬(0xC0 ≤ char.toNat ∧ char.toNat ≤ 0xDE ∧ char.toNat ≠ 0xD7) := by omega
        have lowered : latin1Lower char = char.toLower := if_neg bare
        rw [← lowered, twice]
      · rw [toLower_eq_of_not_capital capital]
    simp [latin1Lowercase, strToAsciiLowercase, Function.comp_def, each]
  · intro text
    simp [latin1Lowercase, Function.comp_def, twice]
  · intro text
    have each (char : Char) : (latin1Lower char).toLower = latin1Lower char :=
      toLower_eq_of_not_capital (latin1Lower_not_capital char).1
    simp [latin1Lowercase, strToAsciiLowercase, Function.comp_def, each]

/-- A list of one plugin whose name starts with an accented capital. -/
def accentedPlugins : List PluginInput := [⟨"Éclipse.esp", samplePlugin []⟩]

/-- A list of one plugin whose name is ASCII. -/
def asciiPlugins : List PluginInput := [⟨"Eclipse.esp", samplePlugin []⟩]

/-- A plugin with an ASCII name is selected by all of its names. -/
theorem selectsPlugin_iff_ascii :
    IsLowercase latin1Lowercase ∧ DistinctNames latin1Lowercase asciiPlugins ∧
      (SelectsPlugin latin1Lowercase asciiPlugins (⟨"Eclipse.esp", samplePlugin []⟩, 0) ↔
        latin1Lowercase "Eclipse.esp" = strToAsciiLowercase "Eclipse.esp") ∧
      latin1Lowercase "Eclipse.esp" = strToAsciiLowercase "Eclipse.esp" :=
  ⟨isLowercase_latin1Lowercase, List.pairwise_singleton _ _,
    selectsPlugin_iff isLowercase_latin1Lowercase (List.pairwise_singleton _ _) rfl,
    by decide +kernel⟩

/-- A plugin with an accented capital in its name is not even found by its own name. -/
theorem not_selectsPlugin_accented :
    DistinctNames latin1Lowercase accentedPlugins ∧
      (selectTarget latin1Lowercase accentedPlugins "Éclipse.esp").isOk = false ∧
      ¬SelectsPlugin latin1Lowercase accentedPlugins (⟨"Éclipse.esp", samplePlugin []⟩, 0) := by
  have none : (selectTarget latin1Lowercase accentedPlugins "Éclipse.esp").isOk = false := by
    decide +kernel
  refine ⟨List.pairwise_singleton _ _, none, fun selects => ?_⟩
  rw [selects.selected "Éclipse.esp" rfl] at none
  cases none

end Bethkit
