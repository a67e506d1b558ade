import TextReveal.Proofs.Registering
/-!
How tags find handlers. The name of a tag and the key of a handler are normalized apart from each
other, and the name once more when it is looked up; what counts is whether they are spelled alike.
-/
namespace TextReveal

namespace Registry

theorem get?_register (r : Registry) (h : Handler) (name : String) :
    (r.register h).get? name =
      if Name.normalize name = Name.normalize h.name then some h else r.get? name := by
  rw [get?, show r.register h = r.write (.put h) from rfl, getElem?_write]
  simp only [eq_comm]
  rfl

theorem get?_clear (r : Registry) (name : String) : r.clear.get? name = none :=
  getElem?_write r .wipe (Name.normalize name)

/-- A handler that is alone in a registry is found under the spellings of its name and no others. -/
theorem get?_register_clear_iff (r : Registry) (h : Handler) (name : String) :
    (r.clear.register h).get? name = some h ↔ Name.normalize name = Name.normalize h.name := by
  rw [get?_register, get?_clear]
  split <;> simp_all

end Registry

/-- A normalized name is its own normal form, and the name of a tag is one. So a tag written with a
raw name finds what is registered under a name exactly if both have the same normal form, whatever
else is registered, and loses it to whoever unregisters that name. -/
theorem Tag.resolves_iff :
    (∀ name, Name.normalize (Name.normalize name) = Name.normalize name) ∧
    ∀ (start : Nat) (inner : List Char) (t : Tag), Tag.ofSpan? start inner = some t →
      t.name = Name.normalize (String.ofList (Tag.parts inner).1) ∧
      Name.normalize t.name = t.name ∧
      ∀ (r : Registry) (h : Handler),
        ((r.clear.register h).get? t.name = some h ↔
          Name.normalize (String.ofList (Tag.parts inner).1) = Name.normalize h.name) ∧
        (r.register h).get? t.name =
          (if Name.normalize (String.ofList (Tag.parts inner).1) = Name.normalize h.name then some h
            else r.get? t.name) ∧
        (r.unregister h.name).2.get? t.name =
          (if Name.normalize (String.ofList (Tag.parts inner).1) = Name.normalize h.name then none
            else r.get? t.name) := by
  refine ⟨Name.normalize_normalize, fun start inner t hspan => ?_⟩
  have hname := Tag.name_of_ofSpan? hspan
  have hsettled : Name.normalize t.name = t.name := by
    rw [hname, Name.normalize_normalize]
  refine ⟨hname, hsettled, fun r h => ?_⟩
  rw [← hname, Registry.get?_register_clear_iff, Registry.get?_register, Registry.get?_unregister,
    hsettled]
  exact ⟨.rfl, rfl, rfl⟩

/-- A capital sigma at the end of a word and one inside, in the same spelling as a handler with the
two small sigmas, found behind white space and in front of it. -/
theorem Tag.resolves_of_sigma :
    ∃ t, Tag.ofSpan? 0 "\u3000ΣΑΣ =1".toList = some t ∧ t.name = "σας" ∧
      ((Registry.withBuiltins .own).register (.lineBreak "Σας\t")).get? t.name =
        some (.lineBreak "Σας\t") := by
  have hspan : (Tag.ofSpan? 0 "\u3000ΣΑΣ =1".toList).map Tag.name = some "σας" := by
    decide +kernel
  obtain ⟨t, ht, hname⟩ := Option.map_eq_some_iff.mp hspan
  obtain ⟨-, -, hfinds⟩ := Tag.resolves_iff.2 0 _ t ht
  obtain ⟨-, hget, -⟩ := hfinds (.withBuiltins .own) (.lineBreak "Σας\t")
  refine ⟨t, ht, hname, ?_⟩
  rw [hget, if_pos]
  decide +kernel

end TextReveal
