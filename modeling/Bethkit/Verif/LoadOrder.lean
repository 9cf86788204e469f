import Bethkit.Core.LoadOrder

/-!
# What a load order knows of its plugins

The slots of a load order number the light plugins in the order of their registration, so a slot
names the same plugin for ever, and slot 0 the first light plugin.
-/

namespace Bethkit

/-- The positions of the light plugins. -/
def lightPlaces (plugins : List (String × PluginKind)) : List Nat :=
  plugins.findIdxs fun plugin => decide (plugin.2 = .light)

/-- One more plugin takes the last position if it is light. -/
theorem lightPlaces_snoc (plugins : List (String × PluginKind)) (name : String)
    (kind : PluginKind) : lightPlaces (plugins ++ [(name, kind)]) =
      lightPlaces plugins ++ if kind = .light then [plugins.length] else [] := by
  rw [lightPlaces, List.findIdxs_append, lightPlaces]
  simp

/-- A position of a light plugin is one of a plugin. -/
theorem exists_of_mem_lightPlaces {plugins : List (String × PluginKind)} {place : Nat}
    (among : place ∈ lightPlaces plugins) : ∃ name, plugins[place]? = some (name, .light) := by
  obtain ⟨inside, light⟩ := List.mem_findIdxs_iff_exists_getElem_pos.mp among
  refine ⟨plugins[place].1, ?_⟩
  rw [List.getElem?_eq_getElem inside, Option.some_inj]
  exact Prod.ext rfl (of_decide_eq_true light)

namespace LoadOrder

/-- The load order has the plugins of a list, and its slots number the light ones. -/
structure Registers (toLowercase : Lowercase) (order : LoadOrder)
    (plugins : List (String × PluginKind)) : Prop where
  /-- The names are stored in lower case. -/
  names : order.entries.map (·.name) = plugins.map fun plugin => toLowercase plugin.1
  /-- The next slot is the number of light plugins. -/
  counter : order.lightSlotCounter.toNat = (lightPlaces plugins).length
  /-- There are not more light plugins than slots. -/
  bound : (lightPlaces plugins).length ≤ 0x1000
  /-- A slot names the light plugin with that number. -/
  slots : ∀ slot, order.byLightSlot.lookup slot = (lightPlaces plugins)[slot.toNat]?

variable {toLowercase : Lowercase} {order : LoadOrder} {plugins : List (String × PluginKind)}

/-- An empty load order has no plugins. -/
theorem Registers.new : Registers toLowercase .new [] := ⟨rfl, rfl, by decide, fun _ => rfl⟩

/-- A load order has as many entries as plugins. -/
theorem Registers.length (registers : order.Registers toLowercase plugins) :
    order.entries.length = plugins.length := by
  simpa using congrArg List.length registers.names

/-- A successful `push` registers one more plugin. -/
theorem Registers.push (registers : order.Registers toLowercase plugins) {name : String}
    {kind : PluginKind} {next : LoadOrder} (done : order.push toLowercase name kind = .ok next) :
    next.Registers toLowercase (plugins ++ [(name, kind)]) := by
  obtain ⟨names, counter, bound, slots⟩ := registers
  have length : order.entries.length = plugins.length := by
    simpa using congrArg List.length names
  unfold LoadOrder.push at done
  by_cases light : kind = .light
  · have one : (0xFFF : UInt16).toNat = 0xFFF := rfl
    by_cases full : 0xFFF < order.lightSlotCounter
    · rw [if_pos light] at done
      dsimp only at done
      rw [if_pos full] at done
      exact absurd done (by simp)
    · rw [if_pos light] at done
      dsimp only at done
      rw [if_neg full] at done
      obtain rfl := Except.ok.inj done
      rw [UInt16.lt_iff_toNat_lt, one] at full
      have places : lightPlaces (plugins ++ [(name, kind)]) =
          lightPlaces plugins ++ [plugins.length] := by rw [lightPlaces_snoc, if_pos light]
      have size : (lightPlaces plugins ++ [plugins.length]).length =
          (lightPlaces plugins).length + 1 := by simp
      refine ⟨by simp [names], ?_, ?_, fun slot => ?_⟩
      · have step : (1 : UInt16).toNat = 1 := rfl
        rw [places, size, ← counter, UInt16.toNat_add, step]
        omega
      · rw [places, size]
        omega
      · rw [places]
        by_cases same : slot = order.lightSlotCounter
        · rw [same, AList.lookup_insert, counter, List.getElem?_concat_length, length]
        · have apart : slot.toNat ≠ (lightPlaces plugins).length := fun equal =>
            same (UInt16.toNat_inj.mp (equal.trans counter.symm))
          rw [AList.lookup_insert_ne same, slots]
          rcases Nat.lt_or_gt_of_ne apart with inside | outside
          · rw [List.getElem?_append_left inside]
          · rw [List.getElem?_eq_none (Nat.le_of_lt outside), List.getElem?_eq_none]
            rw [size]
            exact outside
  · have places : lightPlaces (plugins ++ [(name, kind)]) = lightPlaces plugins := by
      rw [lightPlaces_snoc, if_neg light, List.append_nil]
    by_cases full : 0xFE ≤ order.regularIndex
    · rw [if_neg light] at done
      dsimp only at done
      rw [if_pos full] at done
      exact absurd done (by simp)
    · rw [if_neg light] at done
      dsimp only at done
      rw [if_neg full] at done
      obtain rfl := Except.ok.inj done
      exact ⟨by simp [names], places ▸ counter, places ▸ bound, fun slot => places ▸ slots slot⟩

/-- A slot resolves to the light plugin with its number. -/
theorem Registers.resolve_light (registers : order.Registers toLowercase plugins) {id : FormId}
    (index : id.fileIndex = 0xFE) (source : String) (masters : List String) :
    order.resolve toLowercase id source masters =
      ((lightPlaces plugins)[id.eslSlot.toNat]?.bind fun place => plugins[place]?).map fun plugin =>
        ⟨toLowercase plugin.1, id.eslObject.toUInt32⟩ := by
  have entry (place : Nat) : order.entries[place]?.map (·.name) =
      plugins[place]?.map fun plugin => toLowercase plugin.1 := by
    rw [← List.getElem?_map, registers.names, List.getElem?_map]
  rw [LoadOrder.resolve, if_pos index, registers.slots]
  cases (lightPlaces plugins)[id.eslSlot.toNat]? with
  | none => rfl
  | some place =>
    have named := entry place
    cases found : order.entries[place]? with
    | none =>
      rw [found, Option.map_none] at named
      have absent := Option.map_eq_none_iff.mp named.symm
      simp [found, absent]
    | some owner =>
      rw [found, Option.map_some] at named
      obtain ⟨plugin, present, same⟩ := Option.map_eq_some_iff.mp named.symm
      simp [found, present, same]

/-- A FormID with the index of the plugin itself resolves to the plugin. -/
theorem resolve_own {id : FormId} {source : String} {masters : List String}
    (index : id.fileIndex ≠ 0xFE) (own : id.fileIndex.toNat = masters.length) :
    order.resolve toLowercase id source masters = some ⟨toLowercase source, id.objectId⟩ := by
  rw [LoadOrder.resolve, if_neg index]
  dsimp only
  rw [dif_neg (by omega), if_pos own]

end LoadOrder

end Bethkit
