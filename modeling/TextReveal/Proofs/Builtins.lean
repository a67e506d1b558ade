import TextReveal.Proofs.Naming
import TextReveal.Registry
/-!
The registry of the built-in handlers, looked up by name.
-/
namespace TextReveal

namespace Handler
variable (ctx : Context) (parameter : String)

theorem opening_speed :
    speed.opening ctx parameter = withSeconds "speed" parameter ctx (setSpeed ctx) := by
  rw [speed]

theorem opening_speedRegion :
    speedRegion.opening ctx parameter =
      withSeconds "speedregion" parameter { ctx with savedSpeeds := ctx.speed :: ctx.savedSpeeds }
        (setSpeed { ctx with savedSpeeds := ctx.speed :: ctx.savedSpeeds }) := by
  rw [speedRegion]

theorem opening_pause :
    pause.opening ctx parameter =
      withSeconds "pause" parameter ctx fun _ => .answer ctx .invisible := by
  rw [pause, untimedPause]

end Handler

namespace Registry

theorem name_markup {name : String} (h : name ∈ styleNames) :
    (Handler.markup name).name = name := by
  simp only [styleNames, List.mem_cons, List.not_mem_nil, or_false] at h
  obtain rfl | rfl | rfl | rfl | rfl := h <;> decide

/-- The built-in handlers by their normalized names. -/
inductive IsBuiltin (hub : HubRef) : String → Handler → Prop
  | markup {name : String} (h : name ∈ styleNames) : IsBuiltin hub name (.markup name)
  | lineBreak {name : String} (h : name ∈ ["br", "n"]) : IsBuiltin hub name (.lineBreak name)
  | speed {name : String} (h : name = "speed") : IsBuiltin hub name .speed
  | speedRegion {name : String} (h : name = "speedregion") : IsBuiltin hub name .speedRegion
  | pause {name : String} (h : name = "pause") : IsBuiltin hub name .pause
  | clear {name : String} (h : name = "clear") : IsBuiltin hub name .clear
  | action {name : String} (h : name = "action") : IsBuiltin hub name (.action hub)

theorem IsBuiltin.name_eq {hub : HubRef} {name : String} {h : Handler} (hb : IsBuiltin hub name h) :
    h.name = name := by
  cases hb with
  | markup h => exact name_markup h
  | lineBreak => rfl
  | speed h => exact h.symm
  | speedRegion h => exact h.symm
  | pause h => exact h.symm
  | clear h => exact h.symm
  | action h => exact h.symm

theorem mem_builtins {hub : HubRef} {h : Handler} :
    h ∈ builtins hub ↔ ∃ name, IsBuiltin hub name h := by
  constructor
  · intro hm
    simp only [builtins, List.mem_append, List.mem_cons, List.not_mem_nil, or_false,
      List.mem_map] at hm
    obtain (rfl | rfl | rfl | rfl | rfl | rfl | rfl) | ⟨name, hname, rfl⟩ := hm
    · exact ⟨_, .speed rfl⟩
    · exact ⟨_, .speedRegion rfl⟩
    · exact ⟨_, .pause rfl⟩
    · exact ⟨_, .clear rfl⟩
    · exact ⟨_, .lineBreak (by simp)⟩
    · exact ⟨_, .lineBreak (by simp)⟩
    · exact ⟨_, .action rfl⟩
    · exact ⟨_, .markup hname⟩
  · rintro ⟨name, hb⟩
    cases hb with
    | markup h => exact List.mem_append_right _ (List.mem_map_of_mem h)
    | lineBreak h =>
      simp only [List.mem_cons, List.not_mem_nil, or_false] at h
      obtain rfl | rfl := h <;> simp [builtins]
    | speed => simp [builtins]
    | speedRegion => simp [builtins]
    | pause => simp [builtins]
    | clear => simp [builtins]
    | action => simp [builtins]

/-- No name belongs to two built-in handlers. -/
theorem IsBuiltin.unique {hub : HubRef} {name : String} {h h' : Handler}
    (hb : IsBuiltin hub name h) (hb' : IsBuiltin hub name h') : h = h' := by
  cases hb <;> cases hb' <;> grind [styleNames]

/-- Of handlers inserted one after the other, the last one of a name is found. -/
theorem getElem?_insertAll (handlers : List Handler) (m : Std.TreeMap String Handler)
    (key : String) :
    (handlers.foldl (fun m h => m.insert h.name h) m)[key]? =
      (handlers.reverse.find? (·.name = key)).or m[key]? := by
  induction handlers generalizing m with
  | nil => rfl
  | cons h rest ih =>
    rw [List.foldl_cons, ih, List.reverse_cons, List.find?_append, Std.TreeMap.getElem?_insert]
    by_cases hk : h.name = key <;> simp [hk]

theorem get?_withBuiltins {hub : HubRef} {name : String} {h : Handler} :
    (withBuiltins hub).get? name = some h ↔ IsBuiltin hub (Name.normalize name) h := by
  rw [get?, withBuiltins, reset, getElem?_insertAll]
  generalize Name.normalize name = key
  have hempty : ((∅ : Std.TreeMap String Handler)[key]?) = none := Std.TreeMap.getElem?_emptyc
  rw [hempty, Option.or_none]
  change (builtins hub).reverse.find? (·.name = key) = some h ↔ _
  have hfound {h : Handler} (hf : (builtins hub).reverse.find? (·.name = key) = some h) :
      IsBuiltin hub key h := by
    obtain ⟨name, hb⟩ := mem_builtins.mp (List.mem_reverse.mp (List.mem_of_find?_eq_some hf))
    have hname : h.name = key := by simpa using List.find?_some hf
    rwa [← hname, hb.name_eq]
  refine ⟨hfound, fun hb => ?_⟩
  cases hf : (builtins hub).reverse.find? (·.name = key) with
  | some h' => rw [(hfound hf).unique hb]
  | none =>
    have := List.find?_eq_none.mp hf h (List.mem_reverse.mpr (mem_builtins.mpr ⟨key, hb⟩))
    exact absurd (decide_eq_true hb.name_eq) this

end Registry
end TextReveal
